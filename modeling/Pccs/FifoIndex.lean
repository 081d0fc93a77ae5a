import Pccs.Fifo
import Pccs.Runs
import Mathlib.Data.Finset.Card
import Mathlib.Data.List.Nodup

/-!
# The index of a bounded kind

Entries, position rows and order rows of a kind name each other, and the count
row counts them. The rows of a kind lie in four areas of the key space that no
other kind reaches. Every operation removes some entries with all their index
rows, inserts one with its own, or does the one after the other.
-/
namespace Pccs.Fifo

open Text Encoding KeyValue BigEndian Runs

section Areas

/-- The four kinds of rows that belong to a bounded kind. -/
inductive Slot where
  | entry | pos | order | count
deriving DecidableEq

def Slot.word : Slot → String
  | .entry => ""
  | .pos => Keys.fifoPos
  | .order => Keys.fifoOrder
  | .count => Keys.fifoCount

def area (kind : Kind) (slot : Slot) : List UInt8 := asBytes (slot.word ++ kind.name)

/-- The areas do not meet. -/
theorem area_unique {kind kind' : Kind} {slot slot' : Slot} {k : List UInt8}
    (h : area kind slot <+: k) (h' : area kind' slot' <+: k) : kind = kind' ∧ slot = slot' := by
  have hmeet : ∀ a b : Kind, ∀ s t : Slot, (area a s <+: area b t) → a = b ∧ s = t := by
    intro a b s t
    cases a <;> cases b <;> cases s <;> cases t <;> decide
  rcases List.prefix_or_prefix_of_prefix h h' with hp | hp
  · exact hmeet kind kind' slot slot' hp
  · obtain ⟨hk, hs⟩ := hmeet kind' kind slot' slot hp
    exact ⟨hk.symm, hs.symm⟩

/-- A key of an entry of the kind. -/
def IsEntry (kind : Kind) (e : List UInt8) : Prop := area kind .entry <+: e

theorem pos_area {kind : Kind} {e : List UInt8} (h : IsEntry kind e) :
    area kind .pos <+: fifoPosKey e := by
  obtain ⟨rest, rfl⟩ := h
  exact ⟨rest, by simp [area, fifoPosKey, Slot.word, asBytes_append]⟩

theorem order_area (kind : Kind) (t : Nat) (e : List UInt8) :
    area kind .order <+: fifoOrderKey kind t e := List.prefix_append _ _

theorem count_area (kind : Kind) : area kind .count <+: fifoCountKey kind := List.prefix_rfl

theorem posKey_inj {e e' : List UInt8} (h : fifoPosKey e = fifoPosKey e') : e = e' :=
  List.append_cancel_left h

theorem orderKey_inj {kind : Kind} {t t' : Nat} {e e' : List UInt8} (ht : t ≤ u64Max)
    (ht' : t' ≤ u64Max) (h : fifoOrderKey kind t e = fifoOrderKey kind t' e') : t = t' ∧ e = e' := by
  have hsplit := List.append_cancel_left h
  obtain ⟨hstamp, he⟩ := List.append_inj hsplit (by rw [length_toBeBytes, length_toBeBytes])
  have hcap : u64Max < 256 ^ 8 := by decide
  exact ⟨toBeBytes_inj (by omega) (by omega) hstamp, he⟩

/-- The rows that stand for one entry. -/
def Touches (kind : Kind) (e k : List UInt8) : Prop :=
  k = e ∨ k = fifoPosKey e ∨ ∃ t ≤ u64Max, k = fifoOrderKey kind t e

theorem touches_unique {kind : Kind} {e e' k : List UInt8} (he : IsEntry kind e)
    (he' : IsEntry kind e') (h : Touches kind e k) (h' : Touches kind e' k) : e = e' := by
  rcases h with rfl | rfl | ⟨t, ht, rfl⟩
  · rcases h' with h' | h' | ⟨t', ht', h'⟩
    · exact h'
    · cases (area_unique he (h' ▸ pos_area he')).2
    · cases (area_unique he (h' ▸ order_area kind t' e')).2
  · rcases h' with h' | h' | ⟨t', ht', h'⟩
    · cases (area_unique (pos_area he) (h' ▸ he')).2
    · exact posKey_inj h'
    · cases (area_unique (pos_area he) (h' ▸ order_area kind t' e')).2
  · rcases h' with h' | h' | ⟨t', ht', h'⟩
    · cases (area_unique (order_area kind t e) (h' ▸ he')).2
    · cases (area_unique (order_area kind t e) (h' ▸ pos_area he')).2
    · exact (orderKey_inj ht ht' h').2

theorem touches_ne_count {kind : Kind} {e k : List UInt8} (he : IsEntry kind e)
    (h : Touches kind e k) : k ≠ fifoCountKey kind := by
  rintro rfl
  rcases h with h | h | ⟨t, _, h⟩
  · cases (area_unique (count_area kind) (h ▸ he)).2
  · cases (area_unique (count_area kind) (h ▸ pos_area he)).2
  · cases (area_unique (count_area kind) (h ▸ order_area kind t e)).2

/-- The rows of a kind. -/
def Owned (kind : Kind) (k : List UInt8) : Prop := ∃ slot, area kind slot <+: k

theorem owned_of_touches {kind : Kind} {e k : List UInt8} (he : IsEntry kind e)
    (h : Touches kind e k) : Owned kind k := by
  rcases h with rfl | rfl | ⟨t, _, rfl⟩
  · exact ⟨.entry, he⟩
  · exact ⟨.pos, pos_area he⟩
  · exact ⟨.order, order_area kind t e⟩

end Areas

section Invariant

/-- Entries, position rows and order rows of a kind are in step. -/
structure Linked (kind : Kind) (db : Database) : Prop where
  pos : ∀ e row, IsEntry kind e → db[fifoPosKey e]? = some row → ∃ t ≤ u64Max, row = .word t
  stored : ∀ e, IsEntry kind e → (db[e]?.isSome ↔ db[fifoPosKey e]?.isSome)
  order : ∀ (k : List UInt8) row, area kind .order <+: k → db[k]? = some row →
    ∃ t e, t ≤ u64Max ∧ IsEntry kind e ∧ k = fifoOrderKey kind t e ∧ row = .mark ∧
      db[fifoPosKey e]? = some (.word t)
  listed : ∀ e t, IsEntry kind e → db[fifoPosKey e]? = some (.word t) →
    db[fifoOrderKey kind t e]? = some .mark

/-- The stored entries of a kind. -/
def entries (kind : Kind) (db : Database) : Finset (List UInt8) :=
  ((scanPrefix db (asBytes kind.name)).map Prod.fst).toFinset

theorem isEntry_iff {kind : Kind} {e : List UInt8} :
    IsEntry kind e ↔ asBytes kind.name <+: e := by
  simp [IsEntry, area, Slot.word]

theorem mem_entries {kind : Kind} {db : Database} {e : List UInt8} :
    e ∈ entries kind db ↔ IsEntry kind e ∧ db[e]?.isSome = true := by
  rw [entries, List.mem_toFinset, List.mem_map, isEntry_iff]
  constructor
  · rintro ⟨⟨k, row⟩, hmem, rfl⟩
    obtain ⟨hrow, hk⟩ := (mem_scanPrefix db _ k row).mp hmem
    exact ⟨hk, by rw [hrow]; rfl⟩
  · rintro ⟨hk, hsome⟩
    obtain ⟨row, hrow⟩ := Option.isSome_iff_exists.mp hsome
    exact ⟨(e, row), (mem_scanPrefix db _ e row).mpr ⟨hrow, hk⟩, rfl⟩

theorem scan_nodup (db : Database) (word : List UInt8) :
    ((scanPrefix db word).map Prod.fst).Nodup := by
  rw [List.Nodup, List.pairwise_map]
  refine (scanPrefix_sorted db word).imp fun h he => ?_
  simp [he] at h

theorem card_entries (kind : Kind) (db : Database) :
    (entries kind db).card = (scanPrefix db (asBytes kind.name)).length := by
  rw [entries, List.toFinset_card_of_nodup (scan_nodup db _), List.length_map]

/-- The count row is absent or a number, and it is right. -/
structure Counted (kind : Kind) (db : Database) : Prop where
  row : ∀ row, db[fifoCountKey kind]? = some row → ∃ n, row = .word n
  count : readthroughCount db kind = (scanPrefix db (asBytes kind.name)).length

structure Indexed (kind : Kind) (db : Database) : Prop extends Linked kind db, Counted kind db

/-- The invariant only reads the rows of its kind. -/
theorem entries_congr {kind : Kind} {db db' : Database}
    (h : ∀ k, IsEntry kind k → db'[k]? = db[k]?) : entries kind db' = entries kind db := by
  ext e
  rw [mem_entries, mem_entries]
  refine and_congr_right fun he => ?_
  rw [h e he]

theorem Linked.congr {kind : Kind} {db db' : Database} (h : Linked kind db)
    (hsame : ∀ k slot, slot ≠ .count → area kind slot <+: k → db'[k]? = db[k]?) :
    Linked kind db' where
  pos e row he hrow := h.pos e row he ((hsame _ .pos (by decide) (pos_area he)).symm.trans hrow)
  stored e he := by
    rw [hsame e .entry (by decide) he, hsame _ .pos (by decide) (pos_area he)]
    exact h.stored e he
  order k row hk hrow := by
    obtain ⟨t, e, ht, he, rfl, hr, hpos⟩ :=
      h.order k row hk ((hsame k .order (by decide) hk).symm.trans hrow)
    exact ⟨t, e, ht, he, rfl, hr, (hsame _ .pos (by decide) (pos_area he)).trans hpos⟩
  listed e t he hpos := by
    rw [hsame _ .order (by decide) (order_area kind t e)]
    exact h.listed e t he ((hsame _ .pos (by decide) (pos_area he)).symm.trans hpos)

theorem Indexed.congr {kind : Kind} {db db' : Database} (h : Indexed kind db)
    (hsame : ∀ k, Owned kind k → db'[k]? = db[k]?) : Indexed kind db' where
  toLinked := h.toLinked.congr fun k slot _ hk => hsame k ⟨slot, hk⟩
  row row hrow := h.row row ((hsame _ ⟨.count, count_area kind⟩).symm.trans hrow)
  count := by
    rw [← card_entries, entries_congr fun k hk => hsame k ⟨.entry, hk⟩, card_entries, ← h.count]
    unfold readthroughCount
    rw [hsame _ ⟨.count, count_area kind⟩]

/-- Writing the right count completes the index. -/
theorem Linked.counted {kind : Kind} {db : Database} (h : Linked kind db) {n : Nat}
    (hn : n = (entries kind db).card) :
    Indexed kind (write db [.put (fifoCountKey kind) (.word n)]) := by
  have hcount : (write db [.put (fifoCountKey kind) (.word n)])[fifoCountKey kind]? =
      some (.word n) := get_write_last db [] [] (.put (fifoCountKey kind) (.word n)) (by simp)
  have hsame : ∀ k slot, slot ≠ .count → area kind slot <+: k →
      (write db [.put (fifoCountKey kind) (.word n)])[k]? = db[k]? := by
    intro k slot hslot hk
    apply get_write_of_ne
    intro w hw
    obtain rfl := List.mem_singleton.mp hw
    rintro rfl
    exact hslot (area_unique hk (count_area kind)).2
  refine ⟨h.congr hsame, ⟨?_, ?_⟩⟩
  · intro row hrow
    rw [hcount] at hrow
    cases hrow
    exact ⟨n, rfl⟩
  · rw [← card_entries, entries_congr fun k hk => hsame k .entry (by decide) hk, ← hn]
    unfold readthroughCount
    rw [hcount]
    rfl

end Invariant

section Removal

variable {kind : Kind} {db db' : Database} {gone : List (List UInt8)}

/-- The entries of a list are gone with all their rows, the rest is as before. -/
structure Removed (kind : Kind) (gone : List (List UInt8)) (db db' : Database) : Prop where
  isEntry : ∀ e ∈ gone, IsEntry kind e
  absent : ∀ e ∈ gone, ∀ k, Touches kind e k → db'[k]? = none
  kept : ∀ k, (∀ e ∈ gone, ¬ Touches kind e k) → db'[k]? = db[k]?

theorem Removed.get (h : Removed kind gone db db') {e k : List UInt8} (he : IsEntry kind e)
    (hne : e ∉ gone) (hk : Touches kind e k) : db'[k]? = db[k]? := by
  refine h.kept k fun e' he' hk' => hne ?_
  rw [touches_unique he (h.isEntry e' he') hk hk']
  exact he'

theorem Removed.linked (h : Removed kind gone db db') (hl : Linked kind db) :
    Linked kind db' where
  pos e row he hrow := by
    by_cases hgone : e ∈ gone
    · rw [h.absent e hgone _ (.inr (.inl rfl))] at hrow
      cases hrow
    · exact hl.pos e row he ((h.get he hgone (.inr (.inl rfl))).symm.trans hrow)
  stored e he := by
    by_cases hgone : e ∈ gone
    · rw [h.absent e hgone _ (.inl rfl), h.absent e hgone _ (.inr (.inl rfl))]
    · rw [h.get he hgone (.inl rfl), h.get he hgone (.inr (.inl rfl))]
      exact hl.stored e he
  order k row hk hrow := by
    by_cases hgone : ∃ e ∈ gone, Touches kind e k
    · obtain ⟨e, he, ht⟩ := hgone
      rw [h.absent e he k ht] at hrow
      cases hrow
    · have hkeep : ∀ e ∈ gone, ¬ Touches kind e k := fun e he ht => hgone ⟨e, he, ht⟩
      obtain ⟨t, e, ht, he, rfl, hr, hpos⟩ := hl.order k row hk ((h.kept k hkeep).symm.trans hrow)
      refine ⟨t, e, ht, he, rfl, hr, ?_⟩
      rw [h.get he (fun hmem => hkeep e hmem (.inr (.inr ⟨t, ht, rfl⟩))) (.inr (.inl rfl))]
      exact hpos
  listed e t he hpos := by
    by_cases hgone : e ∈ gone
    · rw [h.absent e hgone _ (.inr (.inl rfl))] at hpos
      cases hpos
    · rw [h.get he hgone (.inr (.inl rfl))] at hpos
      obtain ⟨_, ht, hw⟩ := hl.pos e _ he hpos
      cases hw
      rw [h.get he hgone (.inr (.inr ⟨t, ht, rfl⟩))]
      exact hl.listed e t he hpos

theorem Removed.entries (h : Removed kind gone db db') :
    Fifo.entries kind db' = Fifo.entries kind db \ gone.toFinset := by
  ext e
  rw [mem_entries, Finset.mem_sdiff, mem_entries, List.mem_toFinset]
  by_cases hgone : e ∈ gone
  · simp [h.absent e hgone e (.inl rfl), hgone]
  · constructor
    · rintro ⟨he, hs⟩
      rw [h.get he hgone (.inl rfl)] at hs
      exact ⟨⟨he, hs⟩, hgone⟩
    · rintro ⟨⟨he, hs⟩, _⟩
      rw [h.get he hgone (.inl rfl)]
      exact ⟨he, hs⟩

/-- A batch of deletes that misses no row of the entries it is about. -/
theorem removed_of_batch {batch : WriteBatch} (he : ∀ e ∈ gone, IsEntry kind e)
    (honly : ∀ w ∈ batch, w.effect = none ∧ ∃ e ∈ gone, Touches kind e w.key)
    (hall : ∀ e ∈ gone, ∀ k, Touches kind e k → db[k]? = none ∨ ∃ w ∈ batch, w.key = k) :
    Removed kind gone db (write db batch) where
  isEntry := he
  absent e hmem k hk := by
    obtain ⟨hsame, hnone⟩ | ⟨w, hw, _, heff⟩ := get_write_cases db batch k
    · rw [hsame]
      obtain habs | ⟨w, hw, hwk⟩ := hall e hmem k hk
      · exact habs
      · exact absurd hwk (hnone w hw)
    · rw [heff]
      exact (honly w hw).1
  kept k hk := by
    apply get_write_of_ne
    rintro w hw rfl
    obtain ⟨_, e, hmem, ht⟩ := honly w hw
    exact hk e hmem ht

/-- The order row of an entry carries its position. -/
theorem Linked.order_pos (h : Linked kind db) {e : List UInt8} {t : Nat} {row : Row}
    (ht : t ≤ u64Max) (hrow : db[fifoOrderKey kind t e]? = some row) :
    db[fifoPosKey e]? = some (.word t) ∧ row = .mark := by
  obtain ⟨t', e', ht', _, hk, hr, hpos⟩ := h.order _ row (order_area kind t e) hrow
  obtain ⟨rfl, rfl⟩ := orderKey_inj ht ht' hk
  exact ⟨hpos, hr⟩

theorem unindex_fst (h : Linked kind db) {e : List UInt8} (he : IsEntry kind e) :
    (∀ w ∈ (unindex db kind e).1, w.effect = none ∧ Touches kind e w.key) ∧
      (∀ k, Touches kind e k → k ≠ e → db[k]? = none ∨ ∃ w ∈ (unindex db kind e).1, w.key = k) ∧
      ((unindex db kind e).2 = true ↔ e ∈ Fifo.entries kind db) := by
  have hstored := h.stored e he
  unfold unindex
  cases hpos : db[fifoPosKey e]? with
  | none =>
    rw [hpos] at hstored
    refine ⟨by simp, ?_, ?_⟩
    · rintro k hk hne
      left
      rcases hk with rfl | rfl | ⟨t, ht, rfl⟩
      · exact absurd rfl hne
      · exact hpos
      · apply Option.eq_none_iff_forall_ne_some.mpr
        intro row hrow
        rw [(h.order_pos ht hrow).1] at hpos
        cases hpos
    · rw [mem_entries]
      simpa [he] using hstored
  | some row =>
    obtain ⟨t, ht, rfl⟩ := h.pos e row he hpos
    rw [hpos] at hstored
    refine ⟨?_, ?_, ?_⟩
    · intro w hw
      simp only [beU64, Option.toList_some, List.map_cons, List.map_nil, List.cons_append,
        List.nil_append, List.mem_cons, List.not_mem_nil, or_false] at hw
      rcases hw with rfl | rfl
      · exact ⟨rfl, .inr (.inr ⟨t, ht, rfl⟩)⟩
      · exact ⟨rfl, .inr (.inl rfl)⟩
    · rintro k hk hne
      rcases hk with rfl | rfl | ⟨t', ht', rfl⟩
      · exact absurd rfl hne
      · exact .inr ⟨.delete (fifoPosKey e), by simp, rfl⟩
      · cases horder : db[fifoOrderKey kind t' e]? with
        | none => exact .inl rfl
        | some row =>
          have htt := (h.order_pos ht' horder).1.symm.trans hpos
          simp only [Option.some.injEq, Row.word.injEq] at htt
          exact .inr ⟨.delete (fifoOrderKey kind t e), by simp [beU64], by rw [htt]; rfl⟩
    · rw [mem_entries]
      simpa [he] using hstored

/-- Deleting entries with their index rows. -/
theorem removed_of_unindex (h : Linked kind db) (he : ∀ e ∈ gone, IsEntry kind e) :
    Removed kind gone db
      (write db (gone.flatMap fun e => .delete e :: (unindex db kind e).1)) := by
  apply removed_of_batch he
  · intro w hw
    obtain ⟨e, hmem, hw⟩ := List.mem_flatMap.mp hw
    rcases List.mem_cons.mp hw with rfl | hw
    · exact ⟨rfl, e, hmem, .inl rfl⟩
    · obtain ⟨heff, ht⟩ := (unindex_fst h (he e hmem)).1 w hw
      exact ⟨heff, e, hmem, ht⟩
  · intro e hmem k hk
    by_cases hke : k = e
    · exact .inr ⟨.delete e, List.mem_flatMap.mpr ⟨e, hmem, by simp⟩, hke.symm⟩
    · obtain habs | ⟨w, hw, hwk⟩ := (unindex_fst h (he e hmem)).2.1 k hk hke
      · exact .inl habs
      · exact .inr ⟨w, List.mem_flatMap.mpr ⟨e, hmem, List.mem_cons_of_mem _ hw⟩, hwk⟩

/-- The count row after a removal: it is rewritten if an entry went. -/
theorem Removed.indexed (h : Removed kind gone db db') (hi : Indexed kind db) {n : Nat}
    (hn : n = (Fifo.entries kind db ∩ gone.toFinset).card) :
    Indexed kind (write db' (if n > 0 then
      [.put (fifoCountKey kind) (.word (readthroughCount db kind - n))] else [])) := by
  have hl := h.linked hi.toLinked
  have hcount := hi.count
  rw [← card_entries] at hcount
  have hcard : (Fifo.entries kind db').card = (Fifo.entries kind db).card - n := by
    rw [h.entries, Finset.card_sdiff, Finset.inter_comm, ← hn]
  split
  · exact hl.counted (by rw [hcount, hcard])
  · have hkept : db'[fifoCountKey kind]? = db[fifoCountKey kind]? :=
      h.kept _ fun e he ht => touches_ne_count (h.isEntry e he) ht rfl
    refine ⟨hl, ⟨fun row hrow => hi.row row (hkept ▸ hrow), ?_⟩⟩
    rw [write_nil, ← card_entries, hcard, ← hcount]
    unfold readthroughCount
    rw [hkept]
    omega

end Removal

section Insertion

variable {kind : Kind} {e : List UInt8} {t : Nat} (db : Database) (val : Row)

/-- The rows of a new entry. -/
def insertion (kind : Kind) (e : List UInt8) (t : Nat) (val : Row) : WriteBatch :=
  [.put e val, .put (fifoPosKey e) (.word t), .put (fifoOrderKey kind t e) .mark]

omit db in
theorem insertion_touches (ht : t ≤ u64Max) {w : Write UInt8 Row} (hw : w ∈ insertion kind e t val) :
    Touches kind e w.key := by
  simp only [insertion, List.mem_cons, List.not_mem_nil, or_false] at hw
  rcases hw with rfl | rfl | rfl
  · exact .inl rfl
  · exact .inr (.inl rfl)
  · exact .inr (.inr ⟨t, ht, rfl⟩)

theorem insertion_get (he : IsEntry kind e) :
    (write db (insertion kind e t val))[e]? = some val ∧
      (write db (insertion kind e t val))[fifoPosKey e]? = some (.word t) ∧
      (write db (insertion kind e t val))[fifoOrderKey kind t e]? = some .mark := by
  have hpos : fifoPosKey e ≠ e := fun h => by cases (area_unique (pos_area he) (h ▸ he)).2
  have horder : fifoOrderKey kind t e ≠ e := fun h => by
    cases (area_unique (order_area kind t e) (h ▸ he)).2
  have hboth : fifoOrderKey kind t e ≠ fifoPosKey e := fun h => by
    cases (area_unique (order_area kind t e) (h ▸ pos_area he)).2
  refine ⟨get_write_last db [] _ (.put e val) ?_,
    get_write_last db [.put e val] _ (.put (fifoPosKey e) (.word t)) ?_,
    get_write_last db [.put e val, .put (fifoPosKey e) (.word t)] []
      (.put (fifoOrderKey kind t e) .mark) (by simp)⟩
  · simp [Write.key, hpos, horder]
  · simp [Write.key, hboth]

theorem insertion_other (ht : t ≤ u64Max) {k : List UInt8} (hk : ¬ Touches kind e k) :
    (write db (insertion kind e t val))[k]? = db[k]? := by
  apply get_write_of_ne
  rintro w hw rfl
  exact hk (insertion_touches val ht hw)

theorem insertion_linked (hl : Linked kind db) (he : IsEntry kind e) (ht : t ≤ u64Max)
    (hfree : ∀ k, Touches kind e k → db[k]? = none) :
    Linked kind (write db (insertion kind e t val)) := by
  obtain ⟨hentry, hpos, horder⟩ := insertion_get (t := t) db val he
  have hother : ∀ e', IsEntry kind e' → e' ≠ e → ∀ k, Touches kind e' k →
      (write db (insertion kind e t val))[k]? = db[k]? := by
    intro e' he' hne k hk
    exact insertion_other db val ht fun hk' => hne (touches_unique he' he hk hk')
  constructor
  · intro e' row he' hrow
    by_cases hee : e' = e
    · rw [hee, hpos] at hrow
      cases hrow
      exact ⟨t, ht, rfl⟩
    · exact hl.pos e' row he' ((hother e' he' hee _ (.inr (.inl rfl))).symm.trans hrow)
  · intro e' he'
    by_cases hee : e' = e
    · rw [hee, hentry, hpos]
      simp
    · rw [hother e' he' hee _ (.inl rfl), hother e' he' hee _ (.inr (.inl rfl))]
      exact hl.stored e' he'
  · intro k row hk hrow
    by_cases hke : Touches kind e k
    · rcases hke with rfl | rfl | ⟨t', ht', rfl⟩
      · cases (area_unique he hk).2
      · cases (area_unique (pos_area he) hk).2
      · by_cases htt : t' = t
        · subst htt
          rw [horder] at hrow
          cases hrow
          exact ⟨t', e, ht, he, rfl, rfl, hpos⟩
        · rw [get_write_of_ne, hfree _ (.inr (.inr ⟨t', ht', rfl⟩))] at hrow
          · cases hrow
          · intro w hw hwk
            simp only [insertion, List.mem_cons, List.not_mem_nil, or_false] at hw
            rcases hw with rfl | rfl | rfl
            · cases (area_unique he (hwk ▸ order_area kind t' e)).2
            · cases (area_unique (pos_area he) (hwk ▸ order_area kind t' e)).2
            · exact htt (orderKey_inj ht' ht hwk.symm).1
    · rw [insertion_other db val ht hke] at hrow
      obtain ⟨t', e', ht', he', rfl, hr, hpos'⟩ := hl.order k row hk hrow
      have hee : e' ≠ e := fun h => hke (h ▸ .inr (.inr ⟨t', ht', rfl⟩))
      exact ⟨t', e', ht', he', rfl, hr, (hother e' he' hee _ (.inr (.inl rfl))).trans hpos'⟩
  · intro e' t' he' hpos'
    by_cases hee : e' = e
    · subst hee
      rw [hpos] at hpos'
      cases hpos'
      exact horder
    · rw [hother e' he' hee _ (.inr (.inl rfl))] at hpos'
      obtain ⟨_, ht', hw⟩ := hl.pos e' _ he' hpos'
      cases hw
      rw [hother e' he' hee _ (.inr (.inr ⟨t', ht', rfl⟩))]
      exact hl.listed e' t' he' hpos'

theorem insertion_entries (he : IsEntry kind e) (ht : t ≤ u64Max) :
    entries kind (write db (insertion kind e t val)) = insert e (entries kind db) := by
  ext e'
  rw [mem_entries, Finset.mem_insert, mem_entries]
  by_cases hee : e' = e
  · subst hee
    simp [he, (insertion_get (t := t) db val he).1]
  · constructor
    · rintro ⟨he', hs⟩
      rw [insertion_other db val ht fun hk => hee (touches_unique he' he (.inl rfl) hk)] at hs
      exact .inr ⟨he', hs⟩
    · rintro (h | ⟨he', hs⟩)
      · exact absurd h hee
      · rw [insertion_other db val ht fun hk => hee (touches_unique he' he (.inl rfl) hk)]
        exact ⟨he', hs⟩

end Insertion

end Pccs.Fifo
