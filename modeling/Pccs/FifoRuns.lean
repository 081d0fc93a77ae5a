import Pccs.FifoPut

/-!
# Runs of the read-through store

Opening a store indexes what a version without the index has left behind. From
then on, through writes, deletes, sweeps, new caps and restarts, the index of
each kind is exact.
-/
namespace Pccs.Fifo

open Text Encoding KeyValue Runs

section Opening

variable {kind : Kind} {db : Database}

/-- Records of a kind that nothing has indexed yet, under keys that are text. -/
structure Unindexed (kind : Kind) (db : Database) : Prop where
  noIndex : ∀ k slot, slot ≠ .entry → area kind slot <+: k → db[k]? = none
  text : ∀ e, IsEntry kind e → db[e]?.isSome = true → asBytes (fromUtf8Lossy e) = e

/-- The rows that index a sorted list of entries. -/
def indexRows (kind : Kind) (sorted : List (Nat × List UInt8)) : WriteBatch :=
  sorted.zipIdx.flatMap fun ((fetched, key), i) =>
    [.put (fifoOrderKey kind (legacyStamp fetched i) key) .mark,
      .put (fifoPosKey key) (.word (legacyStamp fetched i))]

theorem legacyStamp_le (fetched i : Nat) : legacyStamp fetched i ≤ u64Max := by
  unfold legacyStamp saturatingAdd
  omega

theorem mem_indexRows {sorted : List (Nat × List UInt8)} {w : Write UInt8 Row} :
    w ∈ indexRows kind sorted ↔ ∃ fetched e i, sorted[i]? = some (fetched, e) ∧
      (w = .put (fifoOrderKey kind (legacyStamp fetched i) e) .mark ∨
        w = .put (fifoPosKey e) (.word (legacyStamp fetched i))) := by
  rw [indexRows, List.mem_flatMap]
  constructor
  · rintro ⟨⟨⟨fetched, e⟩, i⟩, hmem, hw⟩
    refine ⟨fetched, e, i, List.mk_mem_zipIdx_iff_getElem?.mp hmem, ?_⟩
    simpa using hw
  · rintro ⟨fetched, e, i, hget, hw⟩
    exact ⟨((fetched, e), i), List.mk_mem_zipIdx_iff_getElem?.mpr hget, by simpa using hw⟩

/-- An entry has one place in the list. -/
theorem place_unique {sorted : List (Nat × List UInt8)} (hd : (sorted.map Prod.snd).Nodup)
    {f f' i i' : Nat} {e : List UInt8} (h : sorted[i]? = some (f, e))
    (h' : sorted[i']? = some (f', e)) : f = f' ∧ i = i' := by
  have hi : i = i' := by
    obtain ⟨hlt, _⟩ := List.getElem?_eq_some_iff.mp h
    apply (List.getElem?_inj (by simpa using hlt) hd).mp
    rw [List.getElem?_map, List.getElem?_map, h, h']
    rfl
  subst hi
  rw [h] at h'
  cases h'
  exact ⟨rfl, rfl⟩

variable {sorted : List (Nat × List UInt8)}

/-- The rows of a list with every entry once: each entry gets the stamp of its
place, in a position row and in an order row. -/
theorem indexRows_get (hd : (sorted.map Prod.snd).Nodup) (hent : ∀ p ∈ sorted, IsEntry kind p.2)
    (d : Database) {f i : Nat} {e : List UInt8} (hget : sorted[i]? = some (f, e)) :
    (write d (indexRows kind sorted))[fifoPosKey e]? = some (.word (legacyStamp f i)) ∧
      (write d (indexRows kind sorted))[fifoOrderKey kind (legacyStamp f i) e]? = some .mark := by
  have he := hent _ (List.mem_of_getElem? hget)
  constructor
  · obtain ⟨_, hnone⟩ | ⟨w, hw, hk, heff⟩ :=
      get_write_cases d (indexRows kind sorted) (fifoPosKey e)
    · exact absurd rfl (hnone _ (mem_indexRows.mpr ⟨f, e, i, hget, .inr rfl⟩))
    · rw [heff]
      obtain ⟨f', e', i', hget', rfl | rfl⟩ := mem_indexRows.mp hw
      · cases (area_unique (order_area kind (legacyStamp f' i') e') (hk ▸ pos_area he)).2
      · obtain rfl := posKey_inj hk
        obtain ⟨rfl, rfl⟩ := place_unique hd hget hget'
        rfl
  · obtain ⟨_, hnone⟩ | ⟨w, hw, hk, heff⟩ :=
      get_write_cases d (indexRows kind sorted) (fifoOrderKey kind (legacyStamp f i) e)
    · exact absurd rfl (hnone _ (mem_indexRows.mpr ⟨f, e, i, hget, .inl rfl⟩))
    · rw [heff]
      obtain ⟨f', e', i', hget', rfl | rfl⟩ := mem_indexRows.mp hw
      · rfl
      · have he' := hent _ (List.mem_of_getElem? hget')
        cases (area_unique (pos_area he') (hk ▸ order_area kind (legacyStamp f i) e)).2

theorem indexRows_same (d : Database) {k : List UInt8}
    (hk : ∀ p ∈ sorted, ¬ Touches kind p.2 k) : (write d (indexRows kind sorted))[k]? = d[k]? := by
  apply get_write_of_ne
  rintro w hw rfl
  obtain ⟨f, e, i, hget, rfl | rfl⟩ := mem_indexRows.mp hw
  · exact hk _ (List.mem_of_getElem? hget) (.inr (.inr ⟨_, legacyStamp_le f i, rfl⟩))
  · exact hk _ (List.mem_of_getElem? hget) (.inr (.inl rfl))

/-- Indexing the stored entries of a kind, each once, links them. -/
theorem indexRows_linked (h : Unindexed kind db) (hd : (sorted.map Prod.snd).Nodup)
    (hmem : ∀ e, e ∈ sorted.map Prod.snd ↔ e ∈ entries kind db) :
    Linked kind (write db (indexRows kind sorted)) ∧
      entries kind (write db (indexRows kind sorted)) = entries kind db := by
  have hent : ∀ p ∈ sorted, IsEntry kind p.2 := fun p hp =>
    (mem_entries.mp ((hmem p.2).mp (List.mem_map_of_mem hp))).1
  have hplace : ∀ e ∈ entries kind db, ∃ f i : Nat, sorted[i]? = some (f, e) := by
    intro e he
    obtain ⟨⟨f, e⟩, hp, rfl⟩ := List.mem_map.mp ((hmem e).mpr he)
    obtain ⟨i, hi⟩ := List.mem_iff_getElem?.mp hp
    exact ⟨f, i, hi⟩
  have hrow : ∀ e, IsEntry kind e → (write db (indexRows kind sorted))[e]? = db[e]? := by
    intro e he
    apply get_write_of_ne
    rintro w hw rfl
    obtain ⟨f, e', i, hget, rfl | rfl⟩ := mem_indexRows.mp hw
    · cases (area_unique he (order_area kind _ e')).2
    · cases (area_unique he (pos_area (hent _ (List.mem_of_getElem? hget)))).2
  have hpos : ∀ e row, IsEntry kind e →
      (write db (indexRows kind sorted))[fifoPosKey e]? = some row → e ∈ entries kind db := by
    intro e row he hget
    by_cases hse : e ∈ sorted.map Prod.snd
    · exact (hmem e).mp hse
    · rw [indexRows_same, h.noIndex _ .pos (by decide) (pos_area he)] at hget
      · cases hget
      · intro p hp ht
        exact hse (touches_unique he (hent p hp) (.inr (.inl rfl)) ht ▸ List.mem_map_of_mem hp)
  refine ⟨⟨?_, ?_, ?_, ?_⟩, entries_congr hrow⟩
  · intro e row he hget
    obtain ⟨f, i, hi⟩ := hplace e (hpos e row he hget)
    rw [(indexRows_get hd hent db hi).1] at hget
    cases hget
    exact ⟨_, legacyStamp_le f i, rfl⟩
  · intro e he
    rw [hrow e he]
    constructor
    · intro hs
      obtain ⟨f, i, hi⟩ := hplace e (mem_entries.mpr ⟨he, hs⟩)
      rw [(indexRows_get hd hent db hi).1]
      rfl
    · intro hs
      obtain ⟨row, hget⟩ := Option.isSome_iff_exists.mp hs
      exact (mem_entries.mp (hpos e row he hget)).2
  · intro k row hk hget
    obtain ⟨hsame, _⟩ | ⟨w, hw, rfl, heff⟩ := get_write_cases db (indexRows kind sorted) k
    · rw [hsame, h.noIndex k .order (by decide) hk] at hget
      cases hget
    · obtain ⟨f, e, i, hi, rfl | rfl⟩ := mem_indexRows.mp hw
      · cases heff.symm.trans hget
        exact ⟨legacyStamp f i, e, legacyStamp_le f i, hent _ (List.mem_of_getElem? hi), rfl, rfl,
          (indexRows_get hd hent db hi).1⟩
      · cases (area_unique (pos_area (hent _ (List.mem_of_getElem? hi))) hk).2
  · intro e t he hget
    obtain ⟨f, i, hi⟩ := hplace e (hpos e _ he hget)
    obtain ⟨hp, ho⟩ := indexRows_get hd hent db hi
    rw [hp] at hget
    cases hget
    exact ho

/-- The entries on disk, under their own keys. -/
theorem unindexed_keys (h : Unindexed kind db) :
    (unindexedEntries db kind).map Prod.snd =
      (scanPrefix db (asBytes kind.name)).map Prod.fst := by
  rw [unindexedEntries, List.map_map]
  apply List.map_congr_left
  rintro ⟨k, row⟩ hmem
  obtain ⟨hrow, hk⟩ := (mem_scanPrefix db _ k row).mp hmem
  exact h.text k (isEntry_iff.mpr hk) (by rw [hrow]; rfl)

/-- A kind is ready to be opened: indexed, or not indexed at all. -/
def Ready (kind : Kind) (db : Database) : Prop := Indexed kind db ∨ Unindexed kind db

def sortedEntries (db : Database) (kind : Kind) : List (Nat × List UInt8) :=
  (unindexedEntries db kind).mergeSort entryLe

theorem sorted_keys (h : Unindexed kind db) :
    ((sortedEntries db kind).map Prod.snd).Nodup ∧
      ∀ e, e ∈ (sortedEntries db kind).map Prod.snd ↔ e ∈ entries kind db := by
  have hperm := (List.mergeSort_perm (unindexedEntries db kind) entryLe).map Prod.snd
  rw [unindexed_keys h] at hperm
  refine ⟨hperm.nodup_iff.mpr (scan_nodup db _), fun e => ?_⟩
  rw [sortedEntries, hperm.mem_iff, entries, List.mem_toFinset]

/-- An index without a count row counts no entries, so there is nothing to do. -/
theorem indexBatch_of_indexed (h : Indexed kind db) : indexBatch db kind = [] := by
  apply if_pos
  cases hrow : db[fifoCountKey kind]? with
  | some row => exact .inl rfl
  | none =>
    right
    have hzero := h.count
    rw [readthroughCount, hrow] at hzero
    apply List.eq_nil_of_length_eq_zero
    rw [unindexedEntries, List.length_map]
    exact hzero.symm

/-- What opening does to a kind: nothing if it is indexed or empty, otherwise it
indexes all entries. -/
theorem indexBatch_cases (h : Ready kind db) :
    (indexBatch db kind = [] ∧ (Indexed kind db ∨ Unindexed kind db ∧ entries kind db = ∅)) ∨
      (Unindexed kind db ∧ indexBatch db kind = indexRows kind (sortedEntries db kind) ++
        [.put (fifoCountKey kind) (.word (entries kind db).card)]) := by
  obtain hi | hu := h
  · exact .inl ⟨indexBatch_of_indexed hi, .inl hi⟩
  have hcard : (unindexedEntries db kind).length = (entries kind db).card := by
    rw [card_entries, unindexedEntries, List.length_map]
  have hcount := hu.noIndex _ .count (by decide) (count_area kind)
  unfold indexBatch
  by_cases hempty : unindexedEntries db kind = []
  · left
    refine ⟨if_pos (.inr hempty), .inr ⟨hu, ?_⟩⟩
    rw [← Finset.card_eq_zero, ← hcard, hempty]
    rfl
  · right
    rw [if_neg (by simp [hcount, hempty]), ← hcard]
    exact ⟨hu, rfl⟩

/-- An empty kind without index rows is indexed. -/
theorem indexed_of_empty (h : Unindexed kind db) (hempty : entries kind db = ∅) :
    Indexed kind db := by
  have hcount := h.noIndex _ .count (by decide) (count_area kind)
  have hpos : ∀ e, IsEntry kind e → db[fifoPosKey e]? = none := fun e he =>
    h.noIndex _ .pos (by decide) (pos_area he)
  have habsent : ∀ e, IsEntry kind e → db[e]? = none := by
    intro e he
    apply Option.not_isSome_iff_eq_none.mp
    intro hs
    have hmem := mem_entries.mpr ⟨he, hs⟩
    rw [hempty] at hmem
    cases hmem
  refine ⟨⟨?_, ?_, ?_, ?_⟩, ⟨?_, ?_⟩⟩
  · intro e row he hrow
    cases (hpos e he).symm.trans hrow
  · intro e he
    rw [habsent e he, hpos e he]
  · intro k row hk hrow
    cases (h.noIndex k .order (by decide) hk).symm.trans hrow
  · intro e t he hrow
    cases (hpos e he).symm.trans hrow
  · intro row hrow
    cases hcount.symm.trans hrow
  · rw [← card_entries, hempty, readthroughCount, hcount]
    rfl

theorem indexBatch_indexed (h : Ready kind db) : Indexed kind (write db (indexBatch db kind)) := by
  obtain ⟨hbatch, hi | ⟨hu, hempty⟩⟩ | ⟨hu, hbatch⟩ := indexBatch_cases h
  · rw [hbatch]
    exact hi
  · rw [hbatch]
    exact indexed_of_empty hu hempty
  · obtain ⟨hnodup, hmem⟩ := sorted_keys hu
    obtain ⟨hlinked, hentries⟩ := indexRows_linked hu hnodup hmem
    rw [hbatch, write_append]
    exact hlinked.counted (by rw [hentries])

/-- Indexing a kind only writes rows of the kind. -/
theorem indexBatch_foreign (h : Ready kind db) {k : List UInt8} (hk : ¬ Owned kind k) :
    (write db (indexBatch db kind))[k]? = db[k]? := by
  obtain ⟨hbatch, _⟩ | ⟨hu, hbatch⟩ := indexBatch_cases h
  · rw [hbatch]
    rfl
  · rw [hbatch, write_append, get_write_of_ne]
    · refine indexRows_same db fun p hp ht => hk (owned_of_touches ?_ ht)
      exact (mem_entries.mp (((sorted_keys hu).2 p.2).mp (List.mem_map_of_mem hp))).1
    · intro w hw
      obtain rfl := List.mem_singleton.mp hw
      rintro rfl
      exact hk ⟨.count, count_area kind⟩

theorem owned_unique {kind kind' : Kind} {k : List UInt8} (h : Owned kind k) (h' : Owned kind' k) :
    kind = kind' := by
  obtain ⟨_, h⟩ := h
  obtain ⟨_, h'⟩ := h'
  exact (area_unique h h').1

theorem Unindexed.congr {db' : Database} (h : Unindexed kind db)
    (hsame : ∀ k, Owned kind k → db'[k]? = db[k]?) : Unindexed kind db' where
  noIndex k slot hslot hk := by
    rw [hsame k ⟨slot, hk⟩]
    exact h.noIndex k slot hslot hk
  text e he hs := by
    rw [hsame e ⟨.entry, he⟩] at hs
    exact h.text e he hs

theorem Ready.congr {db' : Database} (h : Ready kind db)
    (hsame : ∀ k, Owned kind k → db'[k]? = db[k]?) : Ready kind db' :=
  h.imp (fun hi => hi.congr hsame) fun hu => hu.congr hsame

theorem ready_indexBatch {kind' : Kind} (h : Ready kind db) (h' : Ready kind' db) :
    Ready kind (write db (indexBatch db kind')) := by
  by_cases hkind : kind = kind'
  · subst hkind
    exact .inl (indexBatch_indexed h)
  · exact h.congr fun k hk => indexBatch_foreign h' fun hk' => hkind (owned_unique hk hk')

theorem indexed_indexBatch {kind' : Kind} (h : Indexed kind db) (h' : Ready kind' db) :
    Indexed kind (write db (indexBatch db kind')) := by
  by_cases hkind : kind = kind'
  · subst hkind
    exact indexBatch_indexed h'
  · exact h.congr fun k hk => indexBatch_foreign h' fun hk' => hkind (owned_unique hk hk')

/-- After opening every kind is indexed. -/
theorem indexUnindexedEntries_indexed (h : ∀ kind, Ready kind db) :
    ∀ kind, Indexed kind (indexUnindexedEntries db) := by
  have h₁ := fun kind => ready_indexBatch (h kind) (h .amdKds)
  have h₂ := fun kind => ready_indexBatch (h₁ kind) (h₁ .nvidiaRim)
  intro kind
  cases kind with
  | amdKds =>
    exact indexed_indexBatch (indexed_indexBatch (indexBatch_indexed (h .amdKds)) (h₁ .nvidiaRim))
      (h₂ .nvidiaOcsp)
  | nvidiaRim => exact indexed_indexBatch (indexBatch_indexed (h₁ .nvidiaRim)) (h₂ .nvidiaOcsp)
  | nvidiaOcsp => exact indexBatch_indexed (h₂ .nvidiaOcsp)

/-- Reopening an indexed store changes no row. -/
theorem indexUnindexedEntries_of_indexed (h : ∀ kind, Indexed kind db) :
    indexUnindexedEntries db = db := by
  simp [indexUnindexedEntries, boundedKinds, indexBatch_of_indexed (h _)]

/-- Opening indexes each kind from the rows it has. -/
theorem indexUnindexedEntries_rows (h : ∀ kind, Ready kind db) (kind : Kind) :
    ∃ d, (∀ k, Owned kind k → d[k]? = db[k]?) ∧
      ∀ k, Owned kind k → (indexUnindexedEntries db)[k]? = (write d (indexBatch d kind))[k]? := by
  have h₁ := fun kind => ready_indexBatch (h kind) (h .amdKds)
  have h₂ := fun kind => ready_indexBatch (h₁ kind) (h₁ .nvidiaRim)
  have hother : ∀ {d : Database} {kind' : Kind}, Ready kind' d → kind ≠ kind' → ∀ k, Owned kind k →
      (write d (indexBatch d kind'))[k]? = d[k]? := by
    intro d kind' hd hne k hk
    exact indexBatch_foreign hd fun hk' => hne (owned_unique hk hk')
  cases kind with
  | amdKds =>
    refine ⟨db, fun k _ => rfl, fun k hk => ?_⟩
    exact (hother (h₂ .nvidiaOcsp) (by decide) k hk).trans (hother (h₁ .nvidiaRim) (by decide) k hk)
  | nvidiaRim =>
    refine ⟨_, hother (h .amdKds) (by decide), fun k hk => ?_⟩
    exact hother (h₂ .nvidiaOcsp) (by decide) k hk
  | nvidiaOcsp =>
    refine ⟨_, fun k hk => ?_, fun k hk => rfl⟩
    exact (hother (h₁ .nvidiaRim) (by decide) k hk).trans (hother (h .amdKds) (by decide) k hk)

end Opening

section Deletion

variable {kind : Kind} {db : Database}

/-- After a removal only rows of the kind differ. -/
theorem removed_foreign {gone : List (List UInt8)} {d : Database} {n : Nat}
    (h : Removed kind gone db d) {k : List UInt8} (hk : ¬ Owned kind k) :
    (write d (if n > 0 then
      [.put (fifoCountKey kind) (.word (readthroughCount db kind - n))] else []))[k]? = db[k]? := by
  rw [get_write_of_ne]
  · exact h.kept k fun e he ht => hk (owned_of_touches (h.isEntry e he) ht)
  · rintro w hw rfl
    split at hw
    · rw [List.mem_singleton.mp hw] at hk
      exact hk ⟨.count, count_area kind⟩
    · cases hw

theorem kindOf_eq {key : List UInt8} (h : IsEntry kind key) : kindOf key = some kind := by
  unfold kindOf
  cases hfind : boundedKinds.find? fun kind => (asBytes kind.name).isPrefixOf key with
  | none =>
    have hall := List.find?_eq_none.mp hfind kind (by cases kind <;> decide)
    exact absurd (List.isPrefixOf_iff_prefix.mpr (isEntry_iff.mp h)) hall
  | some kind' =>
    have hfound := List.find?_some hfind
    have hk := List.isPrefixOf_iff_prefix.mp hfound
    rw [(area_unique h (isEntry_iff.mpr hk)).1]

/-- A deletion is a removal of one entry, with the count row after it. -/
theorem deleteKey_db (s : FifoStore) {key : String} (hi : Indexed kind s.db)
    (he : IsEntry kind (asBytes key)) :
    ∃ d n, Removed kind [asBytes key] s.db d ∧
      n = (entries kind s.db ∩ [asBytes key].toFinset).card ∧
      (deleteKey s key).db = write d (if n > 0 then
        [.put (fifoCountKey kind) (.word (readthroughCount s.db kind - n))] else []) := by
  have hremoved : Removed kind [asBytes key] s.db
      (write s.db ([asBytes key].flatMap fun e => .delete e :: (unindex s.db kind e).1)) :=
    removed_of_unindex hi.toLinked (by simpa using he)
  simp only [List.flatMap_cons, List.flatMap_nil, List.append_nil] at hremoved
  have hindexed := (unindex_fst hi.toLinked he).2.2
  unfold deleteKey
  rw [kindOf_eq he]
  by_cases hmem : asBytes key ∈ entries kind s.db
  · refine ⟨_, 1, hremoved, ?_, ?_⟩
    · simp [Finset.inter_singleton_of_mem hmem]
    · simp only [hindexed.mpr hmem, if_true]
      rw [← write_append]
      rfl
  · have hfalse : (unindex s.db kind (asBytes key)).2 = false := by
      simpa using fun h => hmem (hindexed.mp h)
    refine ⟨_, 0, hremoved, ?_, ?_⟩
    · simp [Finset.inter_singleton_of_notMem hmem]
    · simp [hfalse]

/-- A sweep that finds something is a removal of what it found. -/
theorem sweepPrefix_db (s : FifoStore) (hi : Indexed kind s.db) (expired : Row → Bool) :
    (sweepPrefix s kind expired).db = s.db ∨ ∃ gone d n, Removed kind gone s.db d ∧
      (∀ e ∈ gone, e ∈ entries kind s.db) ∧
      n = (entries kind s.db ∩ gone.toFinset).card ∧
      (sweepPrefix s kind expired).db = write d (if n > 0 then
        [.put (fifoCountKey kind) (.word (readthroughCount s.db kind - n))] else []) := by
  unfold sweepPrefix
  generalize hgone : ((scanPrefix s.db (asBytes kind.name)).filter
    fun row => expired row.2).map Prod.fst = gone
  have hsub : gone.Sublist ((scanPrefix s.db (asBytes kind.name)).map Prod.fst) := by
    rw [← hgone]
    exact List.filter_sublist.map Prod.fst
  have hentries : ∀ e ∈ gone, e ∈ entries kind s.db := by
    intro e hmem
    rw [entries, List.mem_toFinset]
    exact hsub.subset hmem
  have hremoved := removed_of_unindex hi.toLinked fun e hmem => (mem_entries.mp (hentries e hmem)).1
  have hn : (gone.countP fun key => (unindex s.db kind key).2) =
      (entries kind s.db ∩ gone.toFinset).card := by
    have hall : ∀ e ∈ gone, (unindex s.db kind e).2 = true := fun e hmem =>
      (unindex_fst hi.toLinked (mem_entries.mp (hentries e hmem)).1).2.2.mpr (hentries e hmem)
    rw [List.countP_eq_length.mpr hall, Finset.inter_eq_right.mpr,
      List.toFinset_card_of_nodup ((scan_nodup s.db _).sublist hsub)]
    intro e hmem
    exact hentries e (List.mem_toFinset.mp hmem)
  by_cases hempty : gone = []
  · left
    simp [hempty]
  · right
    refine ⟨gone, _, _, hremoved, hentries, hn, ?_⟩
    simp only [hempty, if_false]
    rw [write_append]

end Deletion

section Runs

/-- The store is opened on an empty database or on one that predates the index. -/
inductive Start : FifoStore → Prop
  | opened (db : Database) (h : ∀ kind, Unindexed kind db) : Start (openStore db)

inductive Step (env : Env) (s : FifoStore) : FifoStore → Prop
  | reopen : Step env s (openStore s.db)
  | setMax (max : Nat) : Step env s (setReadthroughMaxEntries s max)
  | putAmdKds (micros : Nat) (rec : AmdKdsRecord) : Step env s (putAmdKds env s micros rec)
  | putNvidiaRim (micros : Nat) (rec : AmdKdsRecord) : Step env s (putNvidiaRim env s micros rec)
  | putNvidiaOcsp (micros : Nat) (rec : NvidiaOcspRecord) : Step env s (putNvidiaOcsp s micros rec)
  | delete (kind : Kind) (key : String) (h : IsEntry kind (asBytes key)) : Step env s (deleteKey s key)
  | sweep (kind : Kind) (expired : Row → Bool) : Step env s (sweepPrefix s kind expired)

structure Inv (s : FifoStore) : Prop where
  indexed : ∀ kind, Indexed kind s.db
  cap : 1 ≤ s.maxEntries

theorem defaultMaxEntries_pos : 1 ≤ defaultMaxEntries := by decide

/-- A change to the rows of one kind concerns no other. -/
theorem indexed_foreign {db db' : Database} {kind : Kind} (h : ∀ kind, Indexed kind db)
    (hkind : Indexed kind db') (hforeign : ∀ k, ¬ Owned kind k → db'[k]? = db[k]?) :
    ∀ kind', Indexed kind' db' := by
  intro kind'
  by_cases hk : kind' = kind
  · exact hk ▸ hkind
  · exact (h kind').congr fun k hown => hforeign k fun hown' => hk (owned_unique hown hown')

theorem inv_putBounded {s : FifoStore} (h : Inv s) (micros : Nat) {kind : Kind} {entry : List UInt8}
    (he : IsEntry kind entry) (val : Row) : Inv (putBounded s micros kind entry val) := by
  obtain ⟨hindexed, evicted, hput⟩ := putBounded_spec s micros h.cap (h.indexed kind) he val
  exact ⟨indexed_foreign h.indexed hindexed hput.foreign, h.cap⟩

/-- Every entry key a writer builds is of its kind. -/
theorem isEntry_under {kind : Kind} (rest : String) :
    IsEntry kind (Keys.under kind.name rest) := by
  rw [isEntry_iff, Keys.under, asBytes_append]
  exact List.prefix_append _ _

theorem inv_step (env : Env) (s s' : FifoStore) (h : Inv s) (hstep : Step env s s') : Inv s' := by
  cases hstep with
  | reopen =>
    exact ⟨indexUnindexedEntries_indexed fun kind => .inl (h.indexed kind), defaultMaxEntries_pos⟩
  | setMax max => exact ⟨h.indexed, Nat.le_max_right max 1⟩
  | putAmdKds micros rec => exact inv_putBounded h micros (isEntry_under _) _
  | putNvidiaRim micros rec => exact inv_putBounded h micros (isEntry_under _) _
  | putNvidiaOcsp micros rec => exact inv_putBounded h micros (isEntry_under _) _
  | delete kind key he =>
    obtain ⟨d, n, hremoved, hn, hdb⟩ := deleteKey_db s (h.indexed kind) he
    have hindexed := hremoved.indexed (h.indexed kind) hn
    have hforeign := fun k (hk : ¬ Owned kind k) => removed_foreign (n := n) hremoved hk
    rw [← hdb] at hindexed hforeign
    exact ⟨indexed_foreign h.indexed hindexed hforeign, by unfold deleteKey; split <;> exact h.cap⟩
  | sweep kind expired =>
    refine ⟨?_, by unfold sweepPrefix; simp only; split <;> exact h.cap⟩
    obtain hsame | ⟨gone, d, n, hremoved, _, hn, hdb⟩ := sweepPrefix_db s (h.indexed kind) expired
    · rw [hsame]
      exact h.indexed
    · have hindexed := hremoved.indexed (h.indexed kind) hn
      have hforeign := fun k (hk : ¬ Owned kind k) => removed_foreign (n := n) hremoved hk
      rw [← hdb] at hindexed hforeign
      exact indexed_foreign h.indexed hindexed hforeign

theorem inv_start (s : FifoStore) (h : Start s) : Inv s := by
  cases h with
  | opened db h =>
    exact ⟨indexUnindexedEntries_indexed fun kind => .inr (h kind), defaultMaxEntries_pos⟩

/-- In every reachable store the index of each kind is exact, and a write from
there stays within the cap and evicts the smallest stamps only. -/
theorem index_exact {env : Env} {s : FifoStore} (h : Reachable Start (Step env) s) :
    (∀ kind, Indexed kind s.db) ∧
      ∀ micros kind entry val, IsEntry kind entry →
        ∃ evicted, Put kind entry val (nextStamp s micros) s.maxEntries s.db
          (putBounded s micros kind entry val).db evicted := by
  have hinv := invariant inv_start (inv_step env) h
  refine ⟨hinv.indexed, fun micros kind entry val he => ?_⟩
  exact (putBounded_spec s micros hinv.cap (hinv.indexed kind) he val).2

def ocspRecord (cacheKey : String) : NvidiaOcspRecord := ⟨cacheKey, [1], none, 0, 0⟩

/-- A cap of two and three writes. -/
def threeWrites : FifoStore :=
  putNvidiaOcsp (putNvidiaOcsp (putNvidiaOcsp (setReadthroughMaxEntries (openStore ∅) 2)
    10 (ocspRecord "a")) 20 (ocspRecord "b")) 30 (ocspRecord "c")

theorem index_exact_threeWrites :
    Indexed .nvidiaOcsp threeWrites.db ∧ readthroughCount threeWrites.db .nvidiaOcsp = 2 := by
  have hempty : ∀ kind, Unindexed kind ∅ := fun kind => ⟨by simp, by simp⟩
  have hreach : Reachable Start (Step Keys.plainEnv) threeWrites :=
    reachable_step (reachable_step (reachable_step (reachable_step
      (reachable_start (.opened ∅ hempty)) (.setMax 2)) (.putNvidiaOcsp 10 (ocspRecord "a")))
      (.putNvidiaOcsp 20 (ocspRecord "b"))) (.putNvidiaOcsp 30 (ocspRecord "c"))
  exact ⟨(index_exact hreach).1 .nvidiaOcsp, by decide +kernel⟩

end Runs

end Pccs.Fifo
