import Std

/-!
# An ordered key-value database with atomic write batches

Keys are finite words over an ordered alphabet and rows are kept in word
order, as a log-structured store keeps its byte keys. A batch is the list of
its writes in the order they were queued; it is applied whole, a later write
to a key overriding an earlier one. Two databases with the same rows are equal.
-/
namespace Pccs.KeyValue

open Std

set_option linter.unusedSectionVars false

abbrev Db (α β : Type) [Ord α] [TransOrd α] : Type := ExtTreeMap (List α) β

inductive Write (α β : Type) where
  | put : List α → β → Write α β
  | delete : List α → Write α β

abbrev Batch (α β : Type) : Type := List (Write α β)

section Batches

variable {α β : Type} [Ord α] [TransOrd α]

def Write.key : Write α β → List α
  | .put k _ => k
  | .delete k => k

/-- What the write leaves at its own key. -/
def Write.effect : Write α β → Option β
  | .put _ v => some v
  | .delete _ => none

def apply (db : Db α β) : Write α β → Db α β
  | .put k v => db.insert k v
  | .delete k => db.erase k

def write (db : Db α β) (batch : Batch α β) : Db α β := batch.foldl apply db

/-- The writes of several steps, each computed from what the ones before it
have left. -/
def inOrder (db : Db α β) : List (Db α β → Batch α β) → Batch α β
  | [] => []
  | step :: rest => step db ++ inOrder (write db (step db)) rest

/-- The rows whose key starts with a word, read from that word forward until
the first key without it. -/
def scanPrefix [BEq α] (db : Db α β) (word : List α) : List (List α × β) :=
  (db.toList.dropWhile fun row => compare row.1 word == .lt).takeWhile
    fun row => word.isPrefixOf row.1

@[simp] theorem write_nil (db : Db α β) : write db [] = db := rfl

@[simp] theorem write_cons (db : Db α β) (w : Write α β) (batch : Batch α β) :
    write db (w :: batch) = write (apply db w) batch := rfl

theorem write_append (db : Db α β) (b c : Batch α β) :
    write db (b ++ c) = write (write db b) c := by
  simp [write, List.foldl_append]

/-- If every step makes good writes on a good database, and good writes keep it
good, then the steps in order make good writes. -/
theorem inOrder_forall {Good : Db α β → Prop} {Fine : Write α β → Prop}
    (hwrite : ∀ db batch, Good db → (∀ w ∈ batch, Fine w) → Good (write db batch))
    {steps : List (Db α β → Batch α β)}
    (hstep : ∀ step ∈ steps, ∀ db, Good db → ∀ w ∈ step db, Fine w) {db : Db α β} (h : Good db) :
    ∀ w ∈ inOrder db steps, Fine w := by
  induction steps generalizing db with
  | nil => simp [inOrder]
  | cons step rest ih =>
    obtain ⟨hfirst, hrest⟩ := List.forall_mem_cons.mp hstep
    have hdone := hfirst db h
    intro w hw
    obtain hw | hw := List.mem_append.mp hw
    · exact hdone w hw
    · exact ih hrest (hwrite db _ h hdone) w hw

end Batches

section Rows

variable {α β : Type} [Ord α] [TransOrd α] [LawfulEqOrd α] [DecidableEq α]

theorem get_apply (db : Db α β) (w : Write α β) (k : List α) :
    (apply db w)[k]? = if w.key = k then w.effect else db[k]? := by
  cases w with
  | put l v =>
    by_cases h : l = k <;> simp [apply, Write.key, Write.effect, ExtTreeMap.getElem?_insert, h]
  | delete l =>
    by_cases h : l = k <;> simp [apply, Write.key, Write.effect, ExtTreeMap.getElem?_erase, h]

theorem get_insert (db : Db α β) (k l : List α) (v : β) :
    (db.insert k v)[l]? = if k = l then some v else db[l]? :=
  get_apply db (.put k v) l

theorem db_ext {d e : Db α β} (h : ∀ k : List α, d[k]? = e[k]?) : d = e :=
  ExtTreeMap.ext_getElem? h

/-- A batch leaves every key it does not mention as it was. -/
theorem get_write_of_ne (db : Db α β) (batch : Batch α β) (k : List α)
    (h : ∀ w ∈ batch, w.key ≠ k) : (write db batch)[k]? = db[k]? := by
  induction batch generalizing db with
  | nil => rfl
  | cons w batch ih =>
    rw [write_cons, ih (apply db w) (fun w' hw => h w' (by simp [hw])), get_apply,
      if_neg (h w (by simp))]

/-- The last write to a key decides it. -/
theorem get_write_last (db : Db α β) (b c : Batch α β) (w : Write α β)
    (h : ∀ w' ∈ c, w'.key ≠ w.key) :
    (write db (b ++ w :: c))[w.key]? = w.effect := by
  rw [write_append, write_cons, get_write_of_ne _ _ _ h, get_apply, if_pos rfl]

/-- Every key of the result is an old row or the effect of some queued write. -/
theorem get_write_cases (db : Db α β) (batch : Batch α β) (k : List α) :
    ((write db batch)[k]? = db[k]? ∧ ∀ w ∈ batch, w.key ≠ k) ∨
      ∃ w ∈ batch, w.key = k ∧ (write db batch)[k]? = w.effect := by
  induction batch generalizing db with
  | nil => exact Or.inl ⟨rfl, by simp⟩
  | cons w batch ih =>
    rw [write_cons]
    obtain ⟨h, hne⟩ | ⟨w', hw, hk, he⟩ := ih (apply db w)
    · by_cases hk : w.key = k
      · right
        refine ⟨w, by simp, hk, ?_⟩
        rw [h, get_apply, if_pos hk]
      · left
        refine ⟨by rw [h, get_apply, if_neg hk], ?_⟩
        intro w' hw'
        rcases List.mem_cons.mp hw' with rfl | hw'
        · exact hk
        · exact hne w' hw'
    · exact Or.inr ⟨w', by simp [hw], hk, he⟩

/-- A row of the result is old or was put by the batch. -/
theorem get_write_some {db : Db α β} {batch : Batch α β} {k : List α} {v : β}
    (h : (write db batch)[k]? = some v) : db[k]? = some v ∨ .put k v ∈ batch := by
  obtain ⟨hsame, _⟩ | ⟨w, hw, rfl, he⟩ := get_write_cases db batch k
  · exact .inl (hsame ▸ h)
  · cases w with
    | put k' v' =>
      cases he.symm.trans h
      exact .inr hw
    | delete k' => cases he.symm.trans h

/-- Every row has the property. -/
def Every (P : β → Prop) (db : Db α β) : Prop := ∀ (k : List α) (v : β), db[k]? = some v → P v

theorem every_empty (P : β → Prop) : Every P (∅ : Db α β) := by
  intro k v h
  simp at h

/-- The rows a batch puts decide what becomes of a property of all rows. -/
theorem Every.write {P : β → Prop} {db : Db α β} {batch : Batch α β} (h : Every P db)
    (hb : ∀ k v, .put k v ∈ batch → P v) : Every P (write db batch) := by
  intro k v hv
  obtain hold | hput := get_write_some hv
  · exact h k v hold
  · exact hb k v hput

/-- A key is not mentioned or has a last write. -/
theorem last_write (batch : Batch α β) (k : List α) :
    (∀ w ∈ batch, w.key ≠ k) ∨ ∃ before w after, batch = before ++ w :: after ∧ w.key = k ∧
      ∀ w' ∈ after, w'.key ≠ k := by
  induction batch with
  | nil => exact Or.inl (by simp)
  | cons w batch ih =>
    obtain hnone | ⟨before, w', after, rfl, hk, hafter⟩ := ih
    · by_cases hk : w.key = k
      · exact Or.inr ⟨[], w, batch, rfl, hk, hnone⟩
      · exact Or.inl (List.forall_mem_cons.mpr ⟨hk, hnone⟩)
    · exact Or.inr ⟨w :: before, w', after, rfl, hk, hafter⟩

/-- The result of a batch does not depend on the old rows it overwrites. -/
theorem write_congr {d e : Db α β} {batch : Batch α β}
    (h : ∀ k : List α, (∀ w ∈ batch, w.key ≠ k) → d[k]? = e[k]?) :
    write d batch = write e batch := by
  apply db_ext
  intro k
  obtain hnone | ⟨before, w, after, rfl, rfl, hafter⟩ := last_write batch k
  · rw [get_write_of_ne d batch k hnone, get_write_of_ne e batch k hnone, h k hnone]
  · rw [get_write_last d before after w hafter, get_write_last e before after w hafter]

/-- A batch changes nothing exactly if every row it leaves is there already. -/
theorem write_eq_self_iff (db : Db α β) (batch : Batch α β) :
    write db batch = db ↔ ∀ before w after, batch = before ++ w :: after →
      (∀ w' ∈ after, w'.key ≠ w.key) → db[w.key]? = w.effect := by
  constructor
  · rintro h before w after rfl hafter
    have hlast := get_write_last db before after w hafter
    rw [h] at hlast
    exact hlast
  · intro h
    apply db_ext
    intro k
    obtain hnone | ⟨before, w, after, rfl, rfl, hafter⟩ := last_write batch k
    · exact get_write_of_ne db batch k hnone
    · rw [get_write_last db before after w hafter, h before w after rfl hafter]

/-- A common start does not matter to the order. -/
theorem compare_append_cancel (p : List α) {k l : List α} {o : Ordering}
    (h : compare (p ++ k) (p ++ l) = o) : compare k l = o := by
  induction p with
  | nil => exact h
  | cons a p ih =>
    rw [List.cons_append, List.cons_append, List.compare_cons_cons] at h
    exact ih (by simpa using h)

/-- A word is never above its extensions. -/
theorem compare_prefix_ne_gt (p q : List α) : compare (p ++ q) p ≠ .lt := by
  induction p with
  | nil => cases q <;> simp
  | cons a p ih =>
    rw [List.cons_append, List.compare_cons_cons]
    simpa [ReflCmp.compare_self] using ih

/-- In word order nothing comes between two extensions of a word and its own
extensions: the extensions of a word are an interval. -/
theorem prefix_of_between {p k l : List α} (hp : p <+: l) (hk : compare k p ≠ .lt)
    (hkl : compare k l = .lt) : p <+: k := by
  obtain ⟨q, rfl⟩ := hp
  induction p generalizing k with
  | nil => exact List.nil_prefix
  | cons a p ih =>
    cases k with
    | nil => simp at hk
    | cons b k =>
      rw [List.cons_append, List.compare_cons_cons] at hkl
      rw [List.compare_cons_cons] at hk
      cases hab : compare b a with
      | lt => simp [hab] at hk
      | gt => simp [hab] at hkl
      | eq =>
        have hba : b = a := LawfulEqCmp.eq_of_compare hab
        subst hba
        simp only [hab, Ordering.then] at hk hkl
        exact List.cons_prefix_cons.mpr ⟨rfl, ih hk hkl⟩

theorem takeWhile_eq_filter_of_pairwise {γ : Type} (p : γ → Bool) (l : List γ)
    (h : l.Pairwise fun a b => p b = true → p a = true) : l.takeWhile p = l.filter p := by
  induction l with
  | nil => rfl
  | cons a l ih =>
    obtain ⟨ha, hl⟩ := List.pairwise_cons.mp h
    by_cases hp : p a = true
    · simp [hp, ih hl]
    · have hnone : ∀ b ∈ l, ¬ p b = true := fun b hb hpb => hp (ha b hb hpb)
      simp [hp, List.filter_eq_nil_iff.mpr hnone]

theorem filter_dropWhile_of_imp {γ : Type} (p q : γ → Bool) (l : List γ)
    (h : ∀ a ∈ l, p a = true → q a = false) : (l.dropWhile q).filter p = l.filter p := by
  induction l with
  | nil => rfl
  | cons a l ih =>
    have hl := ih fun b hb => h b (by simp [hb])
    by_cases hq : q a = true
    · have hp : ¬ p a = true := fun hp => by simp [h a (by simp) hp] at hq
      simp [hq, hp, hl]
    · simp [hq]

/-- Past the rows below a word, no row is below it. -/
theorem dropWhile_not_lt (l : List (List α × β)) (word : List α)
    (h : l.Pairwise fun a b => compare a.1 b.1 = .lt) :
    ∀ row ∈ l.dropWhile fun row => compare row.1 word == .lt, compare row.1 word ≠ .lt := by
  induction l with
  | nil => simp
  | cons a l ih =>
    obtain ⟨ha, hl⟩ := List.pairwise_cons.mp h
    by_cases hlt : compare a.1 word = .lt
    · simpa [hlt] using ih hl
    · intro row hrow
      simp only [beq_iff_eq, hlt, List.dropWhile_cons, if_false, List.mem_cons] at hrow
      rcases hrow with rfl | hrow
      · exact hlt
      · exact fun hw => hlt (TransCmp.lt_trans (ha row hrow) hw)

/-- Reading forward from a word visits exactly the rows whose key extends it,
in key order. -/
theorem scanPrefix_eq_filter (db : Db α β) (word : List α) :
    scanPrefix db word = db.toList.filter fun row => word.isPrefixOf row.1 := by
  unfold scanPrefix
  rw [takeWhile_eq_filter_of_pairwise]
  · apply filter_dropWhile_of_imp
    intro row _ hp
    obtain ⟨q, hq⟩ := List.isPrefixOf_iff_prefix.mp hp
    simpa [← hq] using compare_prefix_ne_gt word q
  · have hs : db.toList.Pairwise fun a b => compare a.1 b.1 = .lt := ExtTreeMap.ordered_keys_toList
    have hge := dropWhile_not_lt db.toList word hs
    refine List.Pairwise.imp_of_mem ?_ (hs.sublist (List.dropWhile_sublist _))
    intro a b ha _ hab hb
    rw [List.isPrefixOf_iff_prefix] at hb ⊢
    exact prefix_of_between hb (hge a ha) hab

theorem mem_scanPrefix (db : Db α β) (word k : List α) (v : β) :
    (k, v) ∈ scanPrefix db word ↔ db[k]? = some v ∧ word <+: k := by
  rw [scanPrefix_eq_filter, List.mem_filter, ExtTreeMap.mem_toList_iff_getElem?_eq_some,
    List.isPrefixOf_iff_prefix]

theorem scanPrefix_sorted (db : Db α β) (word : List α) :
    (scanPrefix db word).Pairwise fun a b => compare a.1 b.1 = .lt := by
  rw [scanPrefix_eq_filter]
  exact ExtTreeMap.ordered_keys_toList.filter _

end Rows

section Additions

variable {α β γ : Type} [Ord α] [TransOrd α] [LawfulEqOrd α] [DecidableEq α]
variable {R : γ → List α → β → Prop}

/-- Elements added as rows one after the other, each under a key that was free:
none is lost or merged with another, and what was there before stays. -/
structure Added (R : γ → List α → β → Prop) (start : Db α β) (done : List γ) (db : Db α β) :
    Prop where
  size : db.size = start.size + done.length
  keeps : ∀ (k : List α) (v : β), start[k]? = some v → db[k]? = some v
  row : ∀ a ∈ done, ∃ k v, R a k v ∧ db[k]? = some v

theorem Added.nil (db : Db α β) : Added R db [] db :=
  ⟨rfl, fun _ _ h => h, fun a ha => by cases ha⟩

theorem keeps_insert {db : Db α β} {k : List α} {v : β} (hfree : db[k]? = none) (l : List α)
    (w : β) (h : db[l]? = some w) : (db.insert k v)[l]? = some w := by
  have hne : k ≠ l := by
    rintro rfl
    rw [h] at hfree
    cases hfree
  rw [get_insert, if_neg hne, h]

theorem size_insert_free {db : Db α β} {k : List α} {v : β} (hfree : db[k]? = none) :
    (db.insert k v).size = db.size + 1 := by
  have hnew : ¬ db.contains k = true := by
    rw [ExtTreeMap.contains_iff_mem]
    simpa using hfree
  rw [ExtTreeMap.size_insert, if_neg hnew]

theorem Added.snoc {start db : Db α β} {done : List γ} {a : γ} {k : List α} {v : β}
    (h : Added R start done db) (hfree : db[k]? = none) (ha : R a k v) :
    Added R start (done ++ [a]) (db.insert k v) where
  size := by
    rw [size_insert_free hfree, h.size, List.length_append, List.length_singleton]
    omega
  keeps l w hl := keeps_insert hfree l w (h.keeps l w hl)
  row b hb := by
    rcases List.mem_append.mp hb with hb | hb
    · obtain ⟨l, w, hR, hrow⟩ := h.row b hb
      exact ⟨l, w, hR, keeps_insert hfree l w hrow⟩
    · obtain rfl := List.mem_singleton.mp hb
      exact ⟨k, v, ha, by rw [get_insert, if_pos rfl]⟩

end Additions

end Pccs.KeyValue
