import Pccs.FifoRuns

/-!
# Stamps and the real order of writes

Eviction goes by stamps. A ghost records when each entry was really written, so
that the two orders can be compared. They agree as long as every write gets a
stamp above those stored; the last stamp is forgotten at a restart, so a clock
that has stepped back can break it.
-/
namespace Pccs.Fifo

open Text KeyValue Runs

/-- The store with the number of the last write of each entry. -/
structure Aged where
  store : FifoStore
  age : List UInt8 → Nat
  writes : Nat

namespace Aged

def put (s : Aged) (micros : Nat) (kind : Kind) (entry : List UInt8) (val : Row) : Aged where
  store := putBounded s.store micros kind entry val
  age e := if e = entry then s.writes else s.age e
  writes := s.writes + 1

/-- What the write evicts was written no later than what it leaves. -/
def EvictsOldest (s : Aged) (micros : Nat) (kind : Kind) (entry : List UInt8) (val : Row) : Prop :=
  ∀ e ∈ entries kind s.store.db, e ∉ entries kind (s.put micros kind entry val).store.db →
    ∀ e' ∈ entries kind (s.put micros kind entry val).store.db,
      (s.put micros kind entry val).age e ≤ (s.put micros kind entry val).age e'

/-- The stamp of the write is above those of all other entries of its kind. -/
def Orderly (s : Aged) (micros : Nat) (kind : Kind) (entry : List UInt8) : Prop :=
  ∀ e ∈ entries kind s.store.db, e ≠ entry → ∀ t ∈ stamp s.store.db e, t < nextStamp s.store micros

end Aged

/-- A database without index, written in any order before it is opened. -/
inductive AgedStart : Aged → Prop
  | opened (db : Database) (age : List UInt8 → Nat) (writes : Nat)
      (h : ∀ kind, Unindexed kind db)
      (hage : ∀ kind, ∀ e ∈ entries kind db, age e < writes) : AgedStart ⟨openStore db, age, writes⟩

/-- One operation; `orderly` says which writes are allowed. -/
inductive AgedStep (orderly : Aged → Nat → Kind → List UInt8 → Prop) (s : Aged) : Aged → Prop
  | reopen : AgedStep orderly s { s with store := openStore s.store.db }
  | setMax (max : Nat) :
      AgedStep orderly s { s with store := setReadthroughMaxEntries s.store max }
  | put (micros : Nat) (kind : Kind) (entry : List UInt8) (val : Row) (he : IsEntry kind entry)
      (h : orderly s micros kind entry) : AgedStep orderly s (s.put micros kind entry val)
  | delete (kind : Kind) (key : String) (h : IsEntry kind (asBytes key)) :
      AgedStep orderly s { s with store := deleteKey s.store key }
  | sweep (kind : Kind) (expired : Row → Bool) :
      AgedStep orderly s { s with store := sweepPrefix s.store kind expired }

/-- `fetched_at`, ties broken by key, tells the order of the writes, and no
stamp made from it overflows. -/
structure Chronological (kind : Kind) (db : Database) (age : List UInt8 → Nat) : Prop where
  order : ∀ e e' row row', IsEntry kind e → IsEntry kind e' → db[e]? = some row →
    db[e']? = some row' → entryLe (fetchedAt row, e) (fetchedAt row', e') = true → age e ≤ age e'
  room : ∀ e row, IsEntry kind e → db[e]? = some row →
    fetchedAt row * 1000000 + (entries kind db).card ≤ u64Max

inductive ChronologicalStart : Aged → Prop
  | opened (db : Database) (age : List UInt8 → Nat) (writes : Nat)
      (h : ∀ kind, Unindexed kind db) (hage : ∀ kind, ∀ e ∈ entries kind db, age e < writes)
      (hchron : ∀ kind, Chronological kind db age) :
      ChronologicalStart ⟨openStore db, age, writes⟩

/-- Stamps tell the order of the writes. -/
structure AgeInv (s : Aged) : Prop extends Inv s.store where
  ordered : ∀ kind, ∀ e ∈ entries kind s.store.db, ∀ e' ∈ entries kind s.store.db,
    ∀ t ∈ stamp s.store.db e, ∀ t' ∈ stamp s.store.db e', t ≤ t' → s.age e ≤ s.age e'
  past : ∀ kind, ∀ e ∈ entries kind s.store.db, s.age e < s.writes

section Steps

variable {s : Aged}

/-- From a store in order, every write evicts the oldest. -/
theorem evictsOldest_of_ordered (h : AgeInv s) (micros : Nat) {kind : Kind} {entry : List UInt8}
    (he : IsEntry kind entry) (val : Row) : s.EvictsOldest micros kind entry val := by
  obtain ⟨_, evicted, hput⟩ := putBounded_spec s.store micros h.cap (h.indexed kind) he val
  intro e hmem hgone e' hmem'
  have hleft := hput.left
  change entries kind (s.put micros kind entry val).store.db = _ at hleft
  rw [hleft, Finset.mem_sdiff, Finset.mem_insert, List.mem_toFinset] at hgone hmem'
  have hevicted : e ∈ evicted := by
    apply Classical.byContradiction
    intro hne
    exact hgone ⟨.inr hmem, hne⟩
  have hne : e ≠ entry := (hput.others e hevicted).2
  have hpast := h.past kind e hmem
  by_cases hee : e' = entry
  · simp only [Aged.put, if_neg hne, if_pos hee]
    omega
  · simp only [Aged.put, if_neg hne, if_neg hee]
    have hin' := hmem'.1.resolve_left hee
    obtain ⟨t, ht⟩ := stamp_of_mem (h.indexed kind).toLinked hmem
    obtain ⟨t', ht'⟩ := stamp_of_mem (h.indexed kind).toLinked hin'
    refine h.ordered kind e hmem e' hin' t ht t' ht' ?_
    refine hput.oldest e hevicted e' ?_ hee t t' ht ht'
    rw [hput.left, Finset.mem_sdiff, Finset.mem_insert, List.mem_toFinset]
    exact ⟨.inr hin', hmem'.2⟩

/-- Entries that stay as they are stay in order. -/
theorem ageInv_shrink (h : AgeInv s) {store : FifoStore} (hinv : Inv store)
    (hshrink : ∀ kind, ∀ e ∈ entries kind store.db,
      e ∈ entries kind s.store.db ∧ stamp store.db e = stamp s.store.db e) :
    AgeInv { s with store } where
  toInv := hinv
  ordered kind e hmem e' hmem' t ht t' ht' hle := by
    obtain ⟨hold, hstamp⟩ := hshrink kind e hmem
    obtain ⟨hold', hstamp'⟩ := hshrink kind e' hmem'
    exact h.ordered kind e hold e' hold' t (hstamp ▸ ht) t' (hstamp' ▸ ht') hle
  past kind e hmem := h.past kind e (hshrink kind e hmem).1

/-- A kind that no row of was written is as it was. -/
theorem shrink_foreign {kind kind' : Kind} {db db' : Database} (hne : kind' ≠ kind)
    (hforeign : ∀ k, ¬ Owned kind k → db'[k]? = db[k]?) {e : List UInt8}
    (hmem : e ∈ entries kind' db') : e ∈ entries kind' db ∧ stamp db' e = stamp db e := by
  have hsame : ∀ k, Owned kind' k → db'[k]? = db[k]? := fun k hk =>
    hforeign k fun hk' => hne (owned_unique hk hk')
  have he := (mem_entries.mp hmem).1
  rw [entries_congr fun k hk => hsame k ⟨.entry, hk⟩] at hmem
  refine ⟨hmem, ?_⟩
  unfold stamp
  rw [hsame _ ⟨.pos, pos_area he⟩]

theorem removal_shrink {kind : Kind} {db d : Database} {gone : List (List UInt8)} {n : Nat}
    (h : Removed kind gone db d) (kind' : Kind) {e : List UInt8}
    (hmem : e ∈ entries kind' (write d (if n > 0 then
      [.put (fifoCountKey kind) (.word (readthroughCount db kind - n))] else []))) :
    e ∈ entries kind' db ∧ stamp (write d (if n > 0 then
      [.put (fifoCountKey kind) (.word (readthroughCount db kind - n))] else [])) e =
        stamp db e := by
  by_cases hkind : kind' = kind
  · subst hkind
    have hcount : ∀ k, k ≠ fifoCountKey kind' → (write d (if n > 0 then
        [.put (fifoCountKey kind') (.word (readthroughCount db kind' - n))] else []))[k]? =
          d[k]? := by
      intro k hk
      apply get_write_of_ne
      intro w hw
      split at hw
      · rw [List.mem_singleton.mp hw]
        exact hk.symm
      · cases hw
    have he := (mem_entries.mp hmem).1
    rw [entries_congr fun k hk => hcount k (touches_ne_count hk (.inl rfl)), h.entries,
      Finset.mem_sdiff, List.mem_toFinset] at hmem
    refine ⟨hmem.1, ?_⟩
    unfold stamp
    rw [hcount _ (touches_ne_count he (.inr (.inl rfl))), h.get he hmem.2 (.inr (.inl rfl))]
  · exact shrink_foreign hkind (fun k hk => removed_foreign h hk) hmem

/-- An orderly write keeps the order: the entry gets the largest stamp and is
the youngest. -/
theorem ageInv_put (h : AgeInv s) {micros : Nat} {kind : Kind} {entry : List UInt8}
    (he : IsEntry kind entry) (val : Row) (horderly : s.Orderly micros kind entry) :
    AgeInv (s.put micros kind entry val) := by
  obtain ⟨hindexed, evicted, hput⟩ := putBounded_spec s.store micros h.cap (h.indexed kind) he val
  have hinv : Inv (s.put micros kind entry val).store := inv_putBounded h.toInv micros he val
  have hother : ∀ e, e ≠ entry → (s.put micros kind entry val).age e = s.age e := fun e hne =>
    if_neg hne
  have hself : (s.put micros kind entry val).age entry = s.writes := if_pos rfl
  have hold : ∀ kind', ∀ e ∈ entries kind' (s.put micros kind entry val).store.db, e ≠ entry →
      e ∈ entries kind' s.store.db ∧
        stamp (s.put micros kind entry val).store.db e = stamp s.store.db e := by
    intro kind' e hmem hne
    by_cases hkind : kind' = kind
    · subst hkind
      refine ⟨?_, (hput.kept e hmem hne).2⟩
      change e ∈ entries kind' (putBounded s.store micros kind' entry val).db at hmem
      rw [hput.left, Finset.mem_sdiff, Finset.mem_insert] at hmem
      exact hmem.1.resolve_left hne
    · exact shrink_foreign hkind hput.foreign hmem
  refine ⟨hinv, ?_, ?_⟩
  · intro kind' e hmem e' hmem' t ht t' ht' hle
    by_cases hee : e = entry
    · by_cases hee' : e' = entry
      · rw [hee, hee']
      · -- the new stamp is above every stored one
        obtain ⟨hold', hstamp'⟩ := hold kind' e' hmem' hee'
        have hkind : kind' = kind := (area_unique (hee ▸ (mem_entries.mp hmem).1) he).1
        have hlt := horderly e' (hkind ▸ hold') hee' t' (hstamp' ▸ ht')
        have hrenewed := hput.renewed
        rw [hee] at ht
        cases ht.symm.trans hrenewed
        omega
    · obtain ⟨hmemOld, hstamp⟩ := hold kind' e hmem hee
      by_cases hee' : e' = entry
      · rw [hother e hee, hee', hself]
        exact Nat.le_of_lt (h.past kind' e hmemOld)
      · obtain ⟨hold', hstamp'⟩ := hold kind' e' hmem' hee'
        rw [hother e hee, hother e' hee']
        exact h.ordered kind' e hmemOld e' hold' t (hstamp ▸ ht) t' (hstamp' ▸ ht') hle
  · intro kind' e hmem
    change _ < s.writes + 1
    by_cases hee : e = entry
    · rw [hee, hself]
      omega
    · rw [hother e hee]
      have := h.past kind' e (hold kind' e hmem hee).1
      omega

theorem ageInv_step (s s' : Aged) (h : AgeInv s) (hstep : AgedStep Aged.Orderly s s') :
    AgeInv s' := by
  cases hstep with
  | reopen =>
    have hdb : (openStore s.store.db).db = s.store.db := indexUnindexedEntries_of_indexed h.indexed
    refine ageInv_shrink h (inv_step Keys.plainEnv _ _ h.toInv .reopen) fun kind e hmem => ?_
    rw [hdb] at hmem ⊢
    exact ⟨hmem, rfl⟩
  | setMax max =>
    exact ageInv_shrink h ⟨h.indexed, Nat.le_max_right max 1⟩ fun kind e hmem => ⟨hmem, rfl⟩
  | put micros kind entry val he horderly => exact ageInv_put h he val horderly
  | delete kind key he =>
    obtain ⟨d, n, hremoved, _, hdb⟩ := deleteKey_db s.store (h.indexed kind) he
    refine ageInv_shrink h (inv_step Keys.plainEnv _ _ h.toInv (.delete kind key he)) ?_
    intro kind' e hmem
    rw [hdb] at hmem ⊢
    exact removal_shrink hremoved kind' hmem
  | sweep kind expired =>
    refine ageInv_shrink h (inv_step Keys.plainEnv _ _ h.toInv (.sweep kind expired)) ?_
    intro kind' e hmem
    obtain hsame | ⟨gone, d, n, hremoved, _, _, hdb⟩ :=
      sweepPrefix_db s.store (h.indexed kind) expired
    · rw [hsame] at hmem ⊢
      exact ⟨hmem, rfl⟩
    · rw [hdb] at hmem ⊢
      exact removal_shrink hremoved kind' hmem

end Steps

section Start

variable {kind : Kind} {db : Database}

theorem entryLe_iff {a b : Nat × List UInt8} :
    entryLe a b = true ↔ a.1 < b.1 ∨ a.1 = b.1 ∧ (compare a.2 b.2).isLE = true := by
  unfold entryLe
  cases h : compare a.2 b.2 <;> simp

theorem sortedEntries_sorted (db : Database) (kind : Kind) :
    (sortedEntries db kind).Pairwise fun a b => entryLe a b = true := by
  apply List.pairwise_mergeSort
  · intro a b c hab hbc
    rw [entryLe_iff] at hab hbc ⊢
    rcases hab with hab | ⟨hab, hle⟩
    · rcases hbc with hbc | ⟨hbc, _⟩
      · exact .inl (by omega)
      · exact .inl (by omega)
    · rcases hbc with hbc | ⟨hbc, hle'⟩
      · exact .inl (by omega)
      · exact .inr ⟨hab.trans hbc, Std.TransCmp.isLE_trans hle hle'⟩
  · intro a b
    rw [Bool.or_eq_true, entryLe_iff, entryLe_iff]
    rcases Nat.lt_trichotomy a.1 b.1 with h | h | h
    · exact .inl (.inl h)
    · cases hc : compare a.2 b.2 with
      | lt => exact .inl (.inr ⟨h, by simp⟩)
      | eq => exact .inl (.inr ⟨h, by simp⟩)
      | gt => exact .inr (.inr ⟨h.symm, by simp [Std.OrientedCmp.gt_iff_lt.mp hc]⟩)
    · exact .inr (.inl h)

/-- Within the capacity the stamps of two places are in the order of the places. -/
theorem legacyStamp_lt {f f' i i' n : Nat} (hf : f ≤ f') (hi : i < i') (hi' : i' < n)
    (hroom : f' * 1000000 + n ≤ u64Max) : legacyStamp f i < legacyStamp f' i' := by
  unfold legacyStamp saturatingAdd saturatingMul
  omega

/-- A place in the sorted list is that of a stored record. -/
theorem sortedEntries_row (hu : Unindexed kind db) {i f : Nat} {e : List UInt8}
    (h : (sortedEntries db kind)[i]? = some (f, e)) :
    IsEntry kind e ∧ i < (entries kind db).card ∧ ∃ row, db[e]? = some row ∧ f = fetchedAt row := by
  obtain ⟨hlt, _⟩ := List.getElem?_eq_some_iff.mp h
  have hmem : (f, e) ∈ unindexedEntries db kind := List.mem_mergeSort.mp (List.mem_of_getElem? h)
  obtain ⟨⟨k, row⟩, hscan, hk⟩ := List.mem_map.mp hmem
  obtain ⟨hrow, hpre⟩ := (mem_scanPrefix db _ k row).mp hscan
  have hent := isEntry_iff.mpr hpre
  have htext := hu.text k hent (by rw [hrow]; rfl)
  simp only [htext, Prod.mk.injEq] at hk
  obtain ⟨rfl, rfl⟩ := hk
  refine ⟨hent, ?_, row, hrow, rfl⟩
  rw [card_entries]
  rw [sortedEntries, List.length_mergeSort, unindexedEntries, List.length_map] at hlt
  exact hlt

/-- The stamp of an entry after opening is that of its place. -/
theorem opened_stamp (hu : Unindexed kind db) {e : List UInt8} (hmem : e ∈ entries kind db) {t : Nat}
    (ht : stamp (write db (indexBatch db kind)) e = some t) :
    ∃ f i : Nat, (sortedEntries db kind)[i]? = some (f, e) ∧ t = legacyStamp f i := by
  have he := (mem_entries.mp hmem).1
  obtain ⟨hnodup, hkeys⟩ := sorted_keys hu
  obtain ⟨⟨f, e⟩, hplace, rfl⟩ := List.mem_map.mp ((hkeys e).mpr hmem)
  obtain ⟨i, hi⟩ := List.mem_iff_getElem?.mp hplace
  refine ⟨f, i, hi, ?_⟩
  have hent : ∀ p ∈ sortedEntries db kind, IsEntry kind p.2 := fun p hp =>
    (mem_entries.mp ((hkeys p.2).mp (List.mem_map_of_mem hp))).1
  obtain ⟨hbatch, _⟩ | ⟨_, hbatch⟩ := indexBatch_cases (.inr hu)
  · rw [hbatch, write_nil, stamp, hu.noIndex _ .pos (by decide) (pos_area he)] at ht
    cases ht
  · rw [hbatch, write_append, stamp, get_write_of_ne, (indexRows_get hnodup hent db hi).1] at ht
    · exact (Option.some.inj ht).symm
    · intro w hw
      rw [List.mem_singleton.mp hw]
      exact (touches_ne_count he (.inr (.inl rfl))).symm

theorem indexBatch_entries (hu : Unindexed kind db) :
    entries kind (write db (indexBatch db kind)) = entries kind db := by
  obtain ⟨hbatch, _⟩ | ⟨_, hbatch⟩ := indexBatch_cases (.inr hu)
  · rw [hbatch, write_nil]
  · obtain ⟨hnodup, hkeys⟩ := sorted_keys hu
    rw [← (indexRows_linked hu hnodup hkeys).2, hbatch, write_append]
    apply entries_congr
    intro k hk
    apply get_write_of_ne
    intro w hw
    rw [List.mem_singleton.mp hw]
    exact (touches_ne_count hk (.inl rfl)).symm

/-- The stamps that indexing gives to a chronological kind are in the order of
its writes. -/
theorem indexBatch_ordered {age : List UInt8 → Nat} (hu : Unindexed kind db)
    (hchron : Chronological kind db age) :
    ∀ e ∈ entries kind db, ∀ e' ∈ entries kind db,
      ∀ t ∈ stamp (write db (indexBatch db kind)) e,
      ∀ t' ∈ stamp (write db (indexBatch db kind)) e', t ≤ t' → age e ≤ age e' := by
  intro e hmem e' hmem' t ht t' ht' hle
  obtain ⟨f, i, hi, rfl⟩ := opened_stamp hu hmem ht
  obtain ⟨f', i', hi', rfl⟩ := opened_stamp hu hmem' ht'
  obtain ⟨he, hlt, row, hrow, rfl⟩ := sortedEntries_row hu hi
  obtain ⟨he', hlt', row', hrow', rfl⟩ := sortedEntries_row hu hi'
  obtain ⟨hbound, hat⟩ := List.getElem?_eq_some_iff.mp hi
  obtain ⟨hbound', hat'⟩ := List.getElem?_eq_some_iff.mp hi'
  have hsorted := List.pairwise_iff_getElem.mp (sortedEntries_sorted db kind)
  rcases Nat.lt_trichotomy i i' with hii | rfl | hii
  · have hentry := hsorted i i' hbound hbound' hii
    rw [hat, hat'] at hentry
    exact hchron.order e e' row row' he he' hrow hrow' hentry
  · rw [hi] at hi'
    rw [(Prod.mk.inj (Option.some.inj hi')).2]
  · -- a later place has a larger stamp
    have hentry := hsorted i' i hbound' hbound hii
    rw [hat, hat'] at hentry
    have hf : fetchedAt row' ≤ fetchedAt row := by
      rcases entryLe_iff.mp hentry with hlt | ⟨heq, _⟩
      · exact Nat.le_of_lt hlt
      · exact Nat.le_of_eq heq
    have := legacyStamp_lt hf hii hlt (hchron.room e row he hrow)
    omega

theorem ageInv_start (s : Aged) (h : ChronologicalStart s) : AgeInv s := by
  cases h with
  | opened db age writes hu hage hchron =>
    have hinv := Fifo.inv_start (openStore db) (.opened db hu)
    have hentries : ∀ kind, entries kind (openStore db).db = entries kind db := by
      intro kind
      obtain ⟨d, hd, hrows⟩ := indexUnindexedEntries_rows (fun kind => .inr (hu kind)) kind
      rw [← entries_congr fun k hk => hd k ⟨.entry, hk⟩, ← indexBatch_entries ((hu kind).congr hd)]
      exact entries_congr fun k hk => hrows k ⟨.entry, hk⟩
    refine ⟨hinv, ?_, ?_⟩
    · intro kind e hmem e' hmem' t ht t' ht' hle
      obtain ⟨d, hd, hrows⟩ := indexUnindexedEntries_rows (fun kind => .inr (hu kind)) kind
      have hstamp : ∀ e, IsEntry kind e →
          stamp (openStore db).db e = stamp (write d (indexBatch d kind)) e := by
        intro e he
        exact congrArg (·.bind beU64) (hrows _ ⟨.pos, pos_area he⟩)
      rw [hstamp e (mem_entries.mp hmem).1] at ht
      rw [hstamp e' (mem_entries.mp hmem').1] at ht'
      rw [hentries, ← entries_congr fun k hk => hd k ⟨.entry, hk⟩] at hmem hmem'
      have hchron' : Chronological kind d age := by
        constructor
        · intro e e' row row' he he' hrow hrow'
          rw [hd e ⟨.entry, he⟩] at hrow
          rw [hd e' ⟨.entry, he'⟩] at hrow'
          exact (hchron kind).order e e' row row' he he' hrow hrow'
        · intro e row he hrow
          rw [hd e ⟨.entry, he⟩] at hrow
          rw [entries_congr fun k hk => hd k ⟨.entry, hk⟩]
          exact (hchron kind).room e row he hrow
      exact indexBatch_ordered ((hu kind).congr hd) hchron' e hmem e' hmem' t ht t' ht' hle
    · intro kind e hmem
      exact hage kind e (hentries kind ▸ hmem)

/-- In a run that starts with records in the order of their times and gives every
write a stamp above those stored, every write evicts the entries written first. -/
theorem evicts_oldest_of_orderly {s : Aged}
    (h : Reachable ChronologicalStart (AgedStep Aged.Orderly) s) (micros : Nat) {kind : Kind}
    {entry : List UInt8} (he : IsEntry kind entry) (val : Row) :
    s.EvictsOldest micros kind entry val :=
  evictsOldest_of_ordered (invariant ageInv_start ageInv_step h) micros he val

end Start

section Runs

def ocspRow (cacheKey : String) : Row := .nvidiaOcsp (ocspRecord cacheKey)

/-- An empty store that is opened for the first time, with a cap. -/
def fresh (cap : Nat) : Aged := ⟨setReadthroughMaxEntries (openStore ∅) cap, fun _ => 0, 0⟩

theorem fresh_opened (cap : Nat) : ∃ s, ChronologicalStart s ∧ AgedStart s ∧
    { s with store := setReadthroughMaxEntries s.store cap } = fresh cap := by
  have hu : ∀ kind, Unindexed kind ∅ := fun kind => ⟨by simp, by simp⟩
  have hage : ∀ kind, ∀ e ∈ entries kind ∅, (fun _ => 0) e < 0 := by
    intro kind e hmem
    simp [mem_entries] at hmem
  exact ⟨_, .opened ∅ (fun _ => 0) 0 hu hage fun kind => ⟨by simp, by simp⟩,
    .opened ∅ (fun _ => 0) 0 hu hage, rfl⟩

def oneWrite : Aged := (fresh 1).put 10 .nvidiaOcsp (Keys.nvidiaOcsp "a") (ocspRow "a")

theorem evicts_oldest_oneWrite :
    oneWrite.EvictsOldest 20 .nvidiaOcsp (Keys.nvidiaOcsp "b") (ocspRow "b") ∧
      (oneWrite.put 20 .nvidiaOcsp (Keys.nvidiaOcsp "b") (ocspRow "b")).store.db[
        Keys.nvidiaOcsp "a"]?.isSome = false := by
  obtain ⟨s, hstart, _, hs⟩ := fresh_opened 1
  have hreach : Reachable ChronologicalStart (AgedStep Aged.Orderly) (fresh 1) :=
    hs ▸ reachable_step (reachable_start hstart) (.setMax 1)
  have horderly : (fresh 1).Orderly 10 .nvidiaOcsp (Keys.nvidiaOcsp "a") := by
    have hempty : entries .nvidiaOcsp (fresh 1).store.db = ∅ := by decide +kernel
    intro e hmem
    rw [hempty] at hmem
    cases hmem
  refine ⟨evicts_oldest_of_orderly (reachable_step hreach
    (.put 10 .nvidiaOcsp _ _ (isEntry_under _) horderly)) 20 (isEntry_under _) _, ?_⟩
  decide +kernel

/-- The clock is behind after a restart: the second entry gets the smaller stamp. -/
def steppedBack : Aged :=
  let s := (fresh 2).put 100 .nvidiaOcsp (Keys.nvidiaOcsp "a") (ocspRow "a")
  let s := { s with store := setReadthroughMaxEntries (openStore s.store.db) 2 }
  s.put 50 .nvidiaOcsp (Keys.nvidiaOcsp "b") (ocspRow "b")

theorem not_evicts_oldest : ¬ ∀ s, Reachable AgedStart (AgedStep fun _ _ _ _ => True) s →
    ∀ micros kind entry val, IsEntry kind entry → s.EvictsOldest micros kind entry val := by
  intro h
  obtain ⟨s, _, hstart, hs⟩ := fresh_opened 2
  have hreach : Reachable AgedStart (AgedStep fun _ _ _ _ => True) (fresh 2) :=
    hs ▸ reachable_step (reachable_start hstart) (.setMax 2)
  have hreach : Reachable AgedStart (AgedStep fun _ _ _ _ => True) steppedBack :=
    reachable_step (reachable_step (reachable_step (reachable_step hreach
      (.put 100 .nvidiaOcsp _ (ocspRow "a") (isEntry_under "a") trivial)) .reopen) (.setMax 2))
      (.put 50 .nvidiaOcsp _ (ocspRow "b") (isEntry_under "b") trivial)
  have hevicts := h steppedBack hreach 60 .nvidiaOcsp (Keys.nvidiaOcsp "c") (ocspRow "c")
    (isEntry_under "c") (Keys.nvidiaOcsp "b")
    (mem_entries.mpr ⟨isEntry_under "b", by decide +kernel⟩)
    (fun hmem => absurd (mem_entries.mp hmem).2 (by decide +kernel)) (Keys.nvidiaOcsp "a")
    (mem_entries.mpr ⟨isEntry_under "a", by decide +kernel⟩)
  exact absurd hevicts (by decide +kernel)

end Runs

end Pccs.Fifo
