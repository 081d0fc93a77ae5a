import Std

/-!
# Locks and recent outcomes by key

A lock table refers to its locks weakly: a lock lives as long as someone else
refers to it. Who wants a key takes the lock that is there if it still lives,
and puts a fresh one in its place otherwise; a table that has grown first drops
the locks that are dead. A memo keeps the last outcome of a key for a while, and
never more than a fixed number of them. Marks throttle a key: an attempt is due
when its last mark is old enough; marks that have become too many are pruned by
age.
-/
namespace Pccs.KeyGate

open Std

set_option linter.unusedSectionVars false

variable {κ ο : Type} [Ord κ] [TransOrd κ] [LawfulEqOrd κ] [DecidableEq κ]

section Maps

variable {β : Type} {m : ExtTreeMap κ β} {k l : κ}

theorem get_insert_key {v : β} : (m.insert k v)[l]? = if k = l then some v else m[l]? := by
  rw [ExtTreeMap.getElem?_insert]
  by_cases h : k = l
  · rw [if_pos h, if_pos (by rw [h]; exact compare_self)]
  · rw [if_neg h, if_neg fun he => h (LawfulEqOrd.eq_of_compare he)]

theorem get_erase_key : (m.erase k)[l]? = if k = l then none else m[l]? := by
  rw [ExtTreeMap.getElem?_erase]
  by_cases h : k = l
  · rw [if_pos h, if_pos (by rw [h]; exact compare_self)]
  · rw [if_neg h, if_neg fun he => h (LawfulEqOrd.eq_of_compare he)]

end Maps

section Locks

structure Table (κ : Type) [Ord κ] [TransOrd κ] where
  locks : ExtTreeMap κ Nat
  /-- The name of the next fresh lock. -/
  next : Nat

def Table.empty : Table κ := ⟨∅, 0⟩

def prune (limit : Nat) (alive : Nat → Bool) (locks : ExtTreeMap κ Nat) : ExtTreeMap κ Nat :=
  if limit < locks.size then locks.filter fun _ lock => alive lock else locks

/-- The lock of a key, and the table it is in. -/
def Table.enter (limit : Nat) (alive : Nat → Bool) (t : Table κ) (k : κ) : Nat × Table κ :=
  let locks := prune limit alive t.locks
  match locks[k]?.filter alive with
  | some lock => (lock, ⟨locks, t.next⟩)
  | none => (t.next, ⟨locks.insert k t.next, t.next + 1⟩)

/-- No lock is in the table twice. -/
structure Table.Ok (t : Table κ) : Prop where
  unique : ∀ (k l : κ) (lock : Nat), t.locks[k]? = some lock → t.locks[l]? = some lock → k = l
  old : ∀ (k : κ) (lock : Nat), t.locks[k]? = some lock → lock < t.next

theorem ok_empty : (Table.empty : Table κ).Ok :=
  ⟨fun k l lock h _ => by simp [Table.empty] at h, fun k lock h => by simp [Table.empty] at h⟩

theorem get_prune_some {limit : Nat} {alive : Nat → Bool} {locks : ExtTreeMap κ Nat} {k : κ}
    {lock : Nat} (h : (prune limit alive locks)[k]? = some lock) : locks[k]? = some lock := by
  unfold prune at h
  split at h
  · rw [ExtTreeMap.getElem?_filter'] at h
    exact (Option.filter_eq_some_iff.mp h).1
  · exact h

theorem prune_keeps {limit : Nat} {alive : Nat → Bool} {locks : ExtTreeMap κ Nat} {k : κ}
    {lock : Nat} (h : locks[k]? = some lock) (halive : alive lock = true) :
    (prune limit alive locks)[k]? = some lock := by
  unfold prune
  split
  · rw [ExtTreeMap.getElem?_filter', h]
    exact Option.filter_eq_some_iff.mpr ⟨rfl, halive⟩
  · exact h

variable {limit : Nat} {alive : Nat → Bool} {t : Table κ} {k : κ}

/-- A lock that lives is taken; otherwise a fresh one is put into the table. -/
theorem enter_cases (limit : Nat) (alive : Nat → Bool) (t : Table κ) (k : κ) :
    (∃ lock, t.locks[k]? = some lock ∧ alive lock = true ∧
      t.enter limit alive k = (lock, ⟨prune limit alive t.locks, t.next⟩)) ∨
    (∀ lock, t.locks[k]? = some lock → alive lock = false) ∧
      t.enter limit alive k = (t.next, ⟨(prune limit alive t.locks).insert k t.next, t.next + 1⟩) := by
  unfold Table.enter
  cases hfound : (prune limit alive t.locks)[k]?.filter alive with
  | some lock =>
    obtain ⟨hget, halive⟩ := Option.filter_eq_some_iff.mp hfound
    exact .inl ⟨lock, get_prune_some hget, halive, by simp [hfound]⟩
  | none =>
    refine .inr ⟨fun lock hget => ?_, by simp [hfound]⟩
    cases halive : alive lock with
    | false => rfl
    | true =>
      rw [prune_keeps hget halive] at hfound
      simp [halive] at hfound

theorem enter_ok (h : t.Ok) : (t.enter limit alive k).2.Ok := by
  obtain ⟨lock, _, _, he⟩ | ⟨_, he⟩ := enter_cases limit alive t k
  · rw [he]
    exact ⟨fun k l m hk hl => h.unique k l m (get_prune_some hk) (get_prune_some hl),
      fun k m hk => h.old k m (get_prune_some hk)⟩
  · rw [he]
    -- the fresh lock is newer than all the others
    have hnew : ∀ l, ¬ (prune limit alive t.locks)[l]? = some t.next := fun l hl =>
      Nat.lt_irrefl _ (h.old l t.next (get_prune_some hl))
    refine ⟨fun a b m ha hb => ?_, fun a m ha => ?_⟩
    · simp only [get_insert_key] at ha hb
      split at ha
      · cases ha
        split at hb
        · rename_i hka hkb
          exact hka.symm.trans hkb
        · exact absurd hb (hnew b)
      · split at hb
        · cases hb
          exact absurd ha (hnew a)
        · exact h.unique a b m (get_prune_some ha) (get_prune_some hb)
    · simp only [get_insert_key] at ha
      split at ha
      · cases ha
        exact Nat.lt_succ_self _
      · exact Nat.lt_succ_of_lt (h.old a m (get_prune_some ha))

/-- The lock that was taken is the one of the key. -/
theorem enter_self :
    (t.enter limit alive k).2.locks[k]? = some (t.enter limit alive k).1 := by
  obtain ⟨lock, hget, halive, he⟩ | ⟨_, he⟩ :=
    enter_cases limit alive t k
  · rw [he]
    exact prune_keeps hget halive
  · rw [he]
    exact get_insert_key.trans (if_pos rfl)

/-- A lock that lives stays where it is. -/
theorem enter_keeps {l : κ} {lock : Nat} (hget : t.locks[l]? = some lock)
    (halive : alive lock = true) : (t.enter limit alive k).2.locks[l]? = some lock := by
  obtain ⟨_, _, _, he⟩ | ⟨hdead, he⟩ := enter_cases limit alive t k
  · rw [he]
    exact prune_keeps hget halive
  · rw [he]
    have hne : k ≠ l := by
      rintro rfl
      rw [hdead lock hget] at halive
      cases halive
    exact get_insert_key.trans ((if_neg hne).trans (prune_keeps hget halive))

end Locks

section Memos

/-- When an outcome was had, and the outcome. -/
abbrev Memo (κ ο : Type) [Ord κ] [TransOrd κ] : Type := ExtTreeMap κ (Nat × ο)

/-- The outcome of a key if it is younger than `ttl`; an older one is dropped. -/
def recent (ttl now : Nat) (m : Memo κ ο) (k : κ) : Option ο × Memo κ ο :=
  match m[k]? with
  | some (had, o) => if now - had < ttl then (some o, m) else (none, m.erase k)
  | none => (none, m)

/-- A memo that is full first drops what is too old; if it is still full, it
takes no new key. -/
def remember (ttl cap now : Nat) (m : Memo κ ο) (k : κ) (o : ο) : Memo κ ο :=
  if cap ≤ m.size ∧ m.contains k = false then
    let young := m.filter fun _ e => now - e.1 < ttl
    if cap ≤ young.size then young else young.insert k (now, o)
  else m.insert k (now, o)

variable {ttl cap now : Nat} {m : Memo κ ο} {k l : κ} {o : ο}

/-- A recent outcome is kept as it is. -/
theorem recent_some (h : (recent ttl now m k).1 = some o) :
    (recent ttl now m k).2 = m ∧ ∃ had, m[k]? = some (had, o) ∧ now - had < ttl := by
  unfold recent at h ⊢
  cases hget : m[k]? with
  | none => simp [hget] at h
  | some e =>
    obtain ⟨had, o'⟩ := e
    simp only [hget] at h ⊢
    split at h
    · rename_i hyoung
      cases h
      simp only [hyoung, if_true]
      exact ⟨trivial, had, rfl, hyoung⟩
    · cases h

/-- Without a recent outcome nothing is left of the key. -/
theorem recent_none (h : (recent ttl now m k).1 = none) : (recent ttl now m k).2[k]? = none := by
  unfold recent at h ⊢
  cases hget : m[k]? with
  | none => simpa using hget
  | some e =>
    simp only [hget] at h ⊢
    split at h
    · cases h
    · rename_i hold
      simp only [hold, if_false]
      rw [get_erase_key, if_pos rfl]

/-- Looking at a key drops at most its own outcome, and only when it is old. -/
theorem recent_get (l : κ) : (recent ttl now m k).2[l]? = m[l]? ∨
    (recent ttl now m k).2[l]? = none ∧ k = l ∧ ∀ had o, m[l]? = some (had, o) → ttl ≤ now - had := by
  unfold recent
  cases hget : m[k]? with
  | none => exact .inl rfl
  | some e =>
    obtain ⟨had, o⟩ := e
    simp only
    split
    · exact .inl rfl
    · rename_i hold
      by_cases hkl : k = l
      · subst hkl
        refine .inr ⟨by rw [get_erase_key, if_pos rfl], rfl, fun had' o' h => ?_⟩
        cases hget.symm.trans h
        omega
      · exact .inl (by rw [get_erase_key, if_neg hkl])

theorem recent_size : (recent ttl now m k).2.size ≤ m.size := by
  unfold recent
  split
  · split
    · exact Nat.le_refl _
    · exact ExtTreeMap.size_erase_le
  · exact Nat.le_refl _

/-- Whatever is remembered, the memo stays within its bounds. -/
theorem remember_size (h : m.size ≤ cap) : (remember ttl cap now m k o).size ≤ cap := by
  unfold remember
  split
  · have hyoung : (m.filter fun _ e => now - e.1 < ttl).size ≤ m.size :=
      ExtTreeMap.size_filter_le_size
    simp only
    split
    · omega
    · have hinsert := ExtTreeMap.size_insert_le (t := m.filter fun _ e => now - e.1 < ttl) (k := k)
        (v := (now, o))
      omega
  · rename_i hroom
    rw [ExtTreeMap.size_insert]
    split
    · exact h
    · rename_i hnew
      have hnew : m.contains k = false := Bool.not_eq_true _ ▸ hnew
      have hless : ¬ cap ≤ m.size := fun hfull => hroom ⟨hfull, hnew⟩
      omega

/-- Another key keeps its outcome unless that is old. -/
theorem remember_get (hne : k ≠ l) : (remember ttl cap now m k o)[l]? = m[l]? ∨
    (remember ttl cap now m k o)[l]? = none ∧ ∀ had o, m[l]? = some (had, o) → ttl ≤ now - had := by
  have hyoung : (m.filter fun _ e => now - e.1 < ttl)[l]? = m[l]? ∨
      (m.filter fun _ e => now - e.1 < ttl)[l]? = none ∧
        ∀ had o, m[l]? = some (had, o) → ttl ≤ now - had := by
    rw [ExtTreeMap.getElem?_filter']
    cases hget : m[l]? with
    | none => exact .inl rfl
    | some e =>
      by_cases hy : now - e.1 < ttl
      · exact .inl (by simp [hy])
      · refine .inr ⟨?_, fun had o' h => ?_⟩
        · rw [Option.filter_some, if_neg (by simpa using hy)]
        · cases h
          omega
  unfold remember
  split
  · simp only
    split
    · exact hyoung
    · rw [get_insert_key, if_neg hne]
      exact hyoung
  · exact .inl (by rw [get_insert_key, if_neg hne])

/-- The key has the new outcome, or there was no room for it. -/
theorem remember_self : (remember ttl cap now m k o)[k]? = some (now, o) ∨
    (remember ttl cap now m k o)[k]? = none ∧ m[k]? = none := by
  unfold remember
  split
  · rename_i hfull
    have hnone : m[k]? = none := by
      have hno := hfull.2
      rw [← Bool.not_eq_true, ExtTreeMap.contains_iff_mem] at hno
      simpa using hno
    simp only
    split
    · refine .inr ⟨?_, hnone⟩
      rw [ExtTreeMap.getElem?_filter', hnone]
      rfl
    · exact .inl (by rw [get_insert_key, if_pos rfl])
  · exact .inl (by rw [get_insert_key, if_pos rfl])

end Memos

section Throttle

/-- When a key was last marked. -/
abbrev Marks (κ : Type) [Ord κ] [TransOrd κ] : Type := ExtTreeMap κ Nat

def due (interval now : Nat) (marks : Marks κ) (k : κ) : Bool :=
  interval == 0 || marks[k]?.all fun time => decide (interval ≤ now - time)

/-- Set the mark of a key. Too many marks are first pruned of the old ones. -/
def mark (limit interval now : Nat) (marks : Marks κ) (k : κ) (stamp : Nat) : Marks κ :=
  let young :=
    if limit < marks.size then
      marks.filter fun _ time => interval == 0 || decide (now - time < interval)
    else marks
  young.insert k stamp

/-- The mark of an attempt, or a later one, still stands, or its interval is over. -/
def Stands (interval now : Nat) (marks : Marks κ) (k : κ) (time : Nat) : Prop :=
  (∃ last, marks[k]? = some last ∧ time ≤ last) ∨ time + interval ≤ now

variable {limit interval now now' time stamp : Nat} {marks : Marks κ} {k l : κ}

theorem stands_later (h : Stands interval now marks k time) (hnow : now ≤ now') :
    Stands interval now' marks k time :=
  h.imp_right fun hover => Nat.le_trans hover hnow

/-- An attempt is due when the intervals of all before it are over. -/
theorem stands_due (h : Stands interval now marks k time) (hpast : time ≤ now)
    (hdue : due interval now marks k = true) : time + interval ≤ now := by
  rcases h with ⟨last, hget, hle⟩ | hover
  · simp only [due, hget, Option.all_some, Bool.or_eq_true, beq_iff_eq, decide_eq_true_eq] at hdue
    omega
  · exact hover

/-- A new mark stands, and no mark of another key is lost before its time. -/
theorem stands_mark (h : Stands interval now marks l time) (hself : k = l → time ≤ stamp) :
    Stands interval now (mark limit interval now marks k stamp) l time := by
  by_cases hkl : k = l
  · exact .inl ⟨stamp, by rw [mark, get_insert_key, if_pos hkl], hself hkl⟩
  · rcases h with ⟨last, hget, hle⟩ | hover
    · by_cases hyoung : interval = 0 ∨ now - last < interval
      · refine .inl ⟨last, ?_, hle⟩
        rw [mark, get_insert_key, if_neg hkl]
        split
        · rw [ExtTreeMap.getElem?_filter', hget]
          exact Option.filter_eq_some_iff.mpr ⟨rfl, by simpa using hyoung⟩
        · exact hget
      · exact .inr (by omega)
    · exact .inr hover

theorem stands_marked : Stands interval now (mark limit interval now marks k stamp) k stamp :=
  .inl ⟨stamp, by rw [mark, get_insert_key, if_pos rfl], Nat.le_refl stamp⟩

end Throttle

end Pccs.KeyGate
