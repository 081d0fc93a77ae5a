import Pccs.FifoIndex

/-!
# A bounded write

The order rows of a kind, read forward, are its entries from the smallest stamp
to the largest. A write takes its own entry out, puts it back with a new stamp
and removes as many of the others as the cap asks for, from the front.
-/
namespace Pccs.Fifo

open Text KeyValue BigEndian

section Queue

variable {kind : Kind} {db : Database}

/-- The entries of a kind with their order rows, oldest first. -/
def queue (kind : Kind) (db : Database) : List (List UInt8 × List UInt8) :=
  ((scanPrefix db (fifoOrderPrefix kind)).map Prod.fst).filterMap fun k =>
    (victimOf kind k).map fun e => (e, k)

/-- The loop takes the first entries of the queue other than the one written. -/
theorem evict_eq (kind : Kind) (entry : List UInt8) (excess : Nat) (rows : List (List UInt8)) :
    evict kind entry excess rows =
      ((rows.filterMap fun k => (victimOf kind k).map fun e => (e, k)).filter
        fun p => p.1 ≠ entry).take excess := by
  induction rows generalizing excess with
  | nil => cases excess <;> simp [evict]
  | cons k rows ih =>
    cases excess with
    | zero => simp [evict]
    | succ excess =>
      unfold evict
      cases hv : victimOf kind k with
      | none => simp [hv, ih]
      | some v =>
        by_cases hve : v = entry
        · simp [hv, hve, ih]
        · simp [hv, hve, ih]

theorem victimOf_orderKey (kind : Kind) (t : Nat) (e : List UInt8) :
    victimOf kind (fifoOrderKey kind t e) = some e := by
  have hlen := length_toBeBytes 8 t
  simp only [victimOf, fifoOrderKey, List.length_append, hlen]
  rw [if_pos (by omega), ← List.append_assoc,
    List.drop_left' (by rw [List.length_append, hlen])]

theorem mem_queue (h : Linked kind db) {e k : List UInt8} :
    (e, k) ∈ queue kind db ↔ IsEntry kind e ∧
      ∃ t ≤ u64Max, k = fifoOrderKey kind t e ∧ db[fifoPosKey e]? = some (.word t) := by
  constructor
  · intro hmem
    obtain ⟨k', hk', hv⟩ := List.mem_filterMap.mp hmem
    obtain ⟨⟨_, row⟩, hrow, rfl⟩ := List.mem_map.mp hk'
    obtain ⟨hget, hpre⟩ := (mem_scanPrefix db _ _ row).mp hrow
    obtain ⟨t, e', ht, he', hkey, _, hpos⟩ := h.order _ row hpre hget
    simp only [hkey, victimOf_orderKey, Option.map_some, Option.some.injEq, Prod.mk.injEq] at hv
    obtain ⟨rfl, rfl⟩ := hv
    exact ⟨he', t, ht, rfl, hpos⟩
  · rintro ⟨he, t, _, rfl, hpos⟩
    refine List.mem_filterMap.mpr ⟨fifoOrderKey kind t e, ?_, by simp [victimOf_orderKey]⟩
    refine List.mem_map.mpr ⟨(fifoOrderKey kind t e, .mark), ?_, rfl⟩
    exact (mem_scanPrefix db _ _ _).mpr ⟨h.listed e t he hpos, order_area kind t e⟩

theorem queue_rows_sorted (kind : Kind) (db : Database) :
    (queue kind db).Pairwise fun p q => compare p.2 q.2 = .lt := by
  have hrows : ((scanPrefix db (fifoOrderPrefix kind)).map Prod.fst).Pairwise
      fun k l => compare k l = .lt := by
    rw [List.pairwise_map]
    exact scanPrefix_sorted db _
  refine List.pairwise_filterMap.mpr (hrows.imp ?_)
  intro k l hkl p hp q hq
  obtain ⟨_, _, rfl⟩ := Option.map_eq_some_iff.mp hp
  obtain ⟨_, _, rfl⟩ := Option.map_eq_some_iff.mp hq
  exact hkl

/-- Each entry is queued once. -/
theorem queue_nodup (h : Linked kind db) : ((queue kind db).map Prod.fst).Nodup := by
  rw [List.Nodup, List.pairwise_map]
  refine (queue_rows_sorted kind db).imp_of_mem ?_
  rintro ⟨e, k⟩ ⟨e', k'⟩ hp hq hlt hee
  obtain ⟨_, t, _, rfl, hpos⟩ := (mem_queue h).mp hp
  obtain ⟨_, t', _, rfl, hpos'⟩ := (mem_queue h).mp hq
  obtain rfl : e = e' := hee
  rw [hpos] at hpos'
  cases hpos'
  simp at hlt

def stamp (db : Database) (e : List UInt8) : Option Nat := db[fifoPosKey e]?.bind beU64

/-- Every stored entry has a stamp. -/
theorem stamp_of_mem (h : Linked kind db) {e : List UInt8} (hmem : e ∈ entries kind db) :
    ∃ t, stamp db e = some t := by
  obtain ⟨he, hs⟩ := mem_entries.mp hmem
  obtain ⟨row, hrow⟩ := Option.isSome_iff_exists.mp ((h.stored e he).mp hs)
  obtain ⟨t, _, rfl⟩ := h.pos e row he hrow
  exact ⟨t, by rw [stamp, hrow]; rfl⟩

/-- The queue is in the order of the stamps. -/
theorem queue_sorted (h : Linked kind db) :
    (queue kind db).Pairwise fun p q =>
      ∀ t t', stamp db p.1 = some t → stamp db q.1 = some t' → t ≤ t' := by
  refine (queue_rows_sorted kind db).imp_of_mem ?_
  rintro ⟨e, k⟩ ⟨e', k'⟩ hp hq hlt t t' ht ht'
  obtain ⟨_, u, hu, rfl, hpos⟩ := (mem_queue h).mp hp
  obtain ⟨_, u', hu', rfl, hpos'⟩ := (mem_queue h).mp hq
  simp only [stamp, hpos, hpos', beU64, Option.bind_some, Option.some.injEq] at ht ht'
  subst ht ht'
  have hcap : u64Max < 256 ^ 8 := by decide
  apply le_of_compare_lt (show u < 256 ^ 8 by omega) (show u' < 256 ^ 8 by omega)
  exact compare_append_cancel _ hlt

theorem queue_entries (h : Linked kind db) :
    ((queue kind db).map Prod.fst).toFinset = entries kind db := by
  ext e
  rw [List.mem_toFinset, List.mem_map, mem_entries]
  constructor
  · rintro ⟨⟨e, k⟩, hmem, rfl⟩
    obtain ⟨he, t, _, _, hpos⟩ := (mem_queue h).mp hmem
    exact ⟨he, (h.stored e he).mpr (by rw [hpos]; rfl)⟩
  · rintro ⟨he, hs⟩
    obtain ⟨row, hrow⟩ := Option.isSome_iff_exists.mp ((h.stored e he).mp hs)
    obtain ⟨t, ht, rfl⟩ := h.pos e row he hrow
    exact ⟨(e, fifoOrderKey kind t e), (mem_queue h).mpr ⟨he, t, ht, rfl, hrow⟩, rfl⟩

end Queue

section Put

variable {kind : Kind} {db : Database} {entry : List UInt8} {val : Row}

/-- What a bounded write of `entry` does to its kind under a cap. -/
structure Put (kind : Kind) (entry : List UInt8) (val : Row) (writtenAt cap : Nat)
    (db db' : Database) (evicted : List (List UInt8)) : Prop where
  nodup : evicted.Nodup
  others : ∀ e ∈ evicted, e ∈ entries kind db ∧ e ≠ entry
  exact : evicted.length = (insert entry (entries kind db)).card - cap
  left : entries kind db' = insert entry (entries kind db) \ evicted.toFinset
  bounded : (entries kind db').card ≤ cap
  written : db'[entry]? = some val
  renewed : stamp db' entry = some writtenAt
  kept : ∀ e ∈ entries kind db', e ≠ entry → db'[e]? = db[e]? ∧ stamp db' e = stamp db e
  oldest : ∀ e ∈ evicted, ∀ e' ∈ entries kind db', e' ≠ entry → ∀ t t',
    stamp db e = some t → stamp db e' = some t' → t ≤ t'
  foreign : ∀ k, ¬ Owned kind k → db'[k]? = db[k]?

theorem nextStamp_le (s : FifoStore) (micros : Nat) : nextStamp s micros ≤ u64Max := by
  unfold nextStamp saturatingAdd
  omega

/-- The entry is stored exactly if it has a position. -/
theorem Linked.mem_entries_iff (h : Linked kind db) (he : IsEntry kind entry) :
    entry ∈ entries kind db ↔ db[fifoPosKey entry]?.isSome = true := by
  rw [mem_entries, h.stored entry he]
  exact and_iff_right he

/-- The old order row of an entry goes, its new rows come. -/
def reinsertion (kind : Kind) (entry : List UInt8) (t : Nat) (val : Row) (db : Database) :
    WriteBatch :=
  ((db[fifoPosKey entry]?.bind beU64).toList.map
    fun t => Write.delete (fifoOrderKey kind t entry)) ++ insertion kind entry t val

/-- It is the same as taking the entry out and putting it back. -/
theorem write_reinsertion (h : Linked kind db) (he : IsEntry kind entry) (t : Nat) (val : Row) :
    write db (reinsertion kind entry t val db) =
      write (write db (.delete entry :: (unindex db kind entry).1)) (insertion kind entry t val) := by
  rw [reinsertion, write_append]
  apply write_congr
  intro k hk
  have hke : entry ≠ k := hk (.put entry val) (by simp [insertion])
  have hkp : fifoPosKey entry ≠ k := hk (.put (fifoPosKey entry) (.word t)) (by simp [insertion])
  unfold unindex
  cases hpos : db[fifoPosKey entry]? with
  | none => simp [get_apply, Write.key, hke]
  | some row =>
    obtain ⟨u, _, rfl⟩ := h.pos entry row he hpos
    by_cases hko : fifoOrderKey kind u entry = k
    · simp [get_apply, Write.key, beU64, hkp, hko]
    · simp [get_apply, Write.key, beU64, hke, hkp, hko]

/-- The kind after its entry has been written back. -/
structure Reinserted (kind : Kind) (entry : List UInt8) (t : Nat) (val : Row) (db d : Database) :
    Prop where
  linked : Linked kind d
  entries : entries kind d = insert entry (Fifo.entries kind db)
  written : d[entry]? = some val
  pos : d[fifoPosKey entry]? = some (.word t)
  same : ∀ k, ¬ Touches kind entry k → d[k]? = db[k]?

theorem reinserted (h : Linked kind db) (he : IsEntry kind entry) {t : Nat} (ht : t ≤ u64Max)
    (val : Row) :
    Reinserted kind entry t val db (write db (reinsertion kind entry t val db)) := by
  have hout : Removed kind [entry] db
      (write db ([entry].flatMap fun e => .delete e :: (unindex db kind e).1)) :=
    removed_of_unindex h (by simpa using he)
  rw [write_reinsertion h he]
  simp only [List.flatMap_cons, List.flatMap_nil, List.append_nil] at hout
  generalize write db (.delete entry :: (unindex db kind entry).1) = d at hout
  obtain ⟨hwritten, hpos, _⟩ := insertion_get (t := t) d val he
  refine ⟨insertion_linked d val (hout.linked h) he ht (hout.absent entry (by simp)), ?_, hwritten,
    hpos, ?_⟩
  · rw [insertion_entries d val he ht, hout.entries]
    ext e
    by_cases hee : e = entry
    · simp [hee]
    · simp [hee]
  · intro k hk
    rw [insertion_other d val ht hk]
    exact hout.kept k (by simpa using hk)

/-- The entries a write evicts. -/
def evictedBy (kind : Kind) (entry : List UInt8) (excess : Nat) (db : Database) :
    List (List UInt8 × List UInt8) :=
  ((queue kind db).filter fun p => p.1 ≠ entry).take excess

theorem evictedBy_mem {excess : Nat} {p : List UInt8 × List UInt8}
    (hp : p ∈ evictedBy kind entry excess db) : p ∈ queue kind db ∧ p.1 ≠ entry := by
  have := List.mem_filter.mp (List.mem_of_mem_take hp)
  exact ⟨this.1, by simpa using this.2⟩

theorem evictedBy_nodup (entry : List UInt8) (h : Linked kind db) (excess : Nat) :
    ((evictedBy kind entry excess db).map Prod.fst).Nodup := by
  refine List.Nodup.sublist ?_ (queue_nodup h)
  exact ((List.take_sublist _ _).trans List.filter_sublist).map Prod.fst

/-- There are enough other entries to evict as long as the cap is not zero. -/
theorem length_evictedBy (entry : List UInt8) (h : Linked kind db) {cap : Nat} (hcap : 1 ≤ cap) :
    (evictedBy kind entry ((insert entry (entries kind db)).card - cap) db).length =
      (insert entry (entries kind db)).card - cap := by
  have hothers : ((queue kind db).filter fun p => p.1 ≠ entry).length =
      ((entries kind db).erase entry).card := by
    have hnodup : (((queue kind db).filter fun p => p.1 ≠ entry).map Prod.fst).Nodup :=
      List.Nodup.sublist (List.filter_sublist.map Prod.fst) (queue_nodup h)
    rw [← List.length_map Prod.fst, ← List.toFinset_card_of_nodup hnodup]
    congr 1
    ext e
    rw [Finset.mem_erase, ← queue_entries h]
    simp only [List.mem_toFinset, List.mem_map, List.mem_filter, decide_eq_true_eq]
    constructor
    · rintro ⟨p, ⟨hp, hne⟩, rfl⟩
      exact ⟨hne, p, hp, rfl⟩
    · rintro ⟨hne, p, hp, rfl⟩
      exact ⟨p, ⟨hp, hne⟩, rfl⟩
  have hcard : (insert entry (entries kind db)).card = ((entries kind db).erase entry).card + 1 := by
    rw [← Finset.erase_insert_eq_erase, Finset.card_erase_add_one (Finset.mem_insert_self _ _)]
  rw [evictedBy, List.length_take, hothers]
  omega

/-- What is evicted has no larger stamp than any other entry that stays. -/
theorem evictedBy_oldest (h : Linked kind db) {excess : Nat} {e e' : List UInt8}
    (hgone : e ∈ (evictedBy kind entry excess db).map Prod.fst) (hstays : e' ∈ entries kind db)
    (hne : e' ≠ entry) (hleft : e' ∉ (evictedBy kind entry excess db).map Prod.fst) :
    ∀ t t', stamp db e = some t → stamp db e' = some t' → t ≤ t' := by
  obtain ⟨p, hp, rfl⟩ := List.mem_map.mp hgone
  rw [← queue_entries h, List.mem_toFinset] at hstays
  obtain ⟨q, hq, rfl⟩ := List.mem_map.mp hstays
  have hothers : q ∈ (queue kind db).filter fun p => p.1 ≠ entry :=
    List.mem_filter.mpr ⟨hq, by simpa using hne⟩
  have hsorted := (queue_sorted h).sublist
    (List.filter_sublist (l := queue kind db) (p := fun p => p.1 ≠ entry))
  rw [← List.take_append_drop excess ((queue kind db).filter fun p => p.1 ≠ entry)]
    at hothers hsorted
  rcases List.mem_append.mp hothers with hq | hq
  · exact absurd (List.mem_map_of_mem hq) hleft
  · exact (List.pairwise_append.mp hsorted).2.2 p hp q hq

/-- Evicted entries go with all their rows. The order rows were read before the
entry was written back, which changed none of theirs. -/
theorem evictedBy_removed {d : Database} (h : Linked kind db) (hd : Linked kind d)
    (he : IsEntry kind entry)
    (hsame : ∀ k, ¬ Touches kind entry k → d[k]? = db[k]?) (excess : Nat) :
    Removed kind ((evictedBy kind entry excess db).map Prod.fst) d
      (write d ((evictedBy kind entry excess db).flatMap fun p =>
        [.delete p.1, .delete (fifoPosKey p.1), .delete p.2])) := by
  apply removed_of_batch
  · intro e hmem
    obtain ⟨⟨e, k⟩, hp, rfl⟩ := List.mem_map.mp hmem
    exact ((mem_queue h).mp (evictedBy_mem hp).1).1
  · intro w hw
    obtain ⟨⟨e, k⟩, hp, hw⟩ := List.mem_flatMap.mp hw
    obtain ⟨_, t, ht, rfl, _⟩ := (mem_queue h).mp (evictedBy_mem hp).1
    have hmem := List.mem_map_of_mem (f := Prod.fst) hp
    simp only [List.mem_cons, List.not_mem_nil, or_false] at hw
    rcases hw with rfl | rfl | rfl
    · exact ⟨rfl, e, hmem, .inl rfl⟩
    · exact ⟨rfl, e, hmem, .inr (.inl rfl)⟩
    · exact ⟨rfl, e, hmem, .inr (.inr ⟨t, ht, rfl⟩)⟩
  · intro e hmem k hk
    obtain ⟨⟨e, key⟩, hp, rfl⟩ := List.mem_map.mp hmem
    obtain ⟨hqueue, hne⟩ := evictedBy_mem hp
    obtain ⟨hent, t, ht, rfl, hpos⟩ := (mem_queue h).mp hqueue
    rcases hk with rfl | rfl | ⟨t', ht', rfl⟩
    · exact .inr ⟨.delete k, List.mem_flatMap.mpr ⟨_, hp, by simp⟩, rfl⟩
    · exact .inr ⟨.delete (fifoPosKey e), List.mem_flatMap.mpr ⟨_, hp, by simp⟩, rfl⟩
    · cases horder : d[fifoOrderKey kind t' e]? with
      | none => exact .inl rfl
      | some row =>
        have hpos' : d[fifoPosKey e]? = db[fifoPosKey e]? :=
          hsame _ fun ht => hne (touches_unique hent he (.inr (.inl rfl)) ht)
        have hstamp := (hd.order_pos ht' horder).1.symm.trans (hpos'.trans hpos)
        simp only [Option.some.injEq, Row.word.injEq] at hstamp
        refine .inr ⟨.delete (fifoOrderKey kind t e), List.mem_flatMap.mpr ⟨_, hp, by simp⟩, ?_⟩
        rw [hstamp]
        rfl

theorem putBounded_db (s : FifoStore) (micros : Nat) (kind : Kind) (entry : List UInt8) (val : Row) :
    let count := readthroughCount s.db kind + if s.db[fifoPosKey entry]?.isSome then 0 else 1
    let evicted := evictedBy kind entry (count - s.maxEntries) s.db
    (putBounded s micros kind entry val).db =
      write (write (write s.db (reinsertion kind entry (nextStamp s micros) val s.db))
        (evicted.flatMap fun p => [.delete p.1, .delete (fifoPosKey p.1), .delete p.2]))
        [.put (fifoCountKey kind) (.word (count - evicted.length))] := by
  simp only [putBounded, evict_eq]
  rw [write_append, write_append]
  rfl

/-- Writing an entry back, removing others and writing the count, put together. -/
theorem put_of_parts {d d' : Database} {gone : List (List UInt8)} {t cap n : Nat}
    (he : IsEntry kind entry) (hin : Reinserted kind entry t val db d)
    (hgone : Removed kind gone d d') (hnodup : gone.Nodup)
    (hothers : ∀ e ∈ gone, e ∈ entries kind db ∧ e ≠ entry)
    (hlen : gone.length = (insert entry (entries kind db)).card - cap)
    (holdest : ∀ e ∈ gone, ∀ e' ∈ entries kind db, e' ≠ entry → e' ∉ gone → ∀ t t',
      stamp db e = some t → stamp db e' = some t' → t ≤ t') :
    Put kind entry val t cap db (write d' [.put (fifoCountKey kind) (.word n)]) gone := by
  have hstays : entry ∉ gone := fun hmem => (hothers entry hmem).2 rfl
  have hsame : ∀ k, k ≠ fifoCountKey kind →
      (write d' [.put (fifoCountKey kind) (.word n)])[k]? = d'[k]? := by
    intro k hk
    apply get_write_of_ne
    intro w hw
    obtain rfl := List.mem_singleton.mp hw
    exact hk.symm
  have hentry : ∀ {e k}, IsEntry kind e → e ∉ gone → Touches kind e k →
      (write d' [.put (fifoCountKey kind) (.word n)])[k]? = d[k]? := by
    intro e k he' hne hk
    rw [hsame k (touches_ne_count he' hk), hgone.get he' hne hk]
  have hleft : entries kind (write d' [.put (fifoCountKey kind) (.word n)]) =
      insert entry (entries kind db) \ gone.toFinset := by
    rw [entries_congr fun k hk => hsame k (touches_ne_count hk (.inl rfl)), hgone.entries,
      hin.entries]
  have hcard : (insert entry (entries kind db) \ gone.toFinset).card =
      (insert entry (entries kind db)).card - gone.length := by
    rw [Finset.card_sdiff_of_subset, List.toFinset_card_of_nodup hnodup]
    intro e hmem
    exact Finset.mem_insert_of_mem (hothers e (List.mem_toFinset.mp hmem)).1
  constructor
  · exact hnodup
  · exact hothers
  · exact hlen
  · exact hleft
  · rw [hleft, hcard]
    omega
  · rw [hentry he hstays (.inl rfl)]
    exact hin.written
  · unfold stamp
    rw [hentry he hstays (.inr (.inl rfl)), hin.pos]
    rfl
  · intro e hmem hne
    rw [hleft, Finset.mem_sdiff, Finset.mem_insert, List.mem_toFinset] at hmem
    have hent := (mem_entries.mp (hmem.1.resolve_left hne)).1
    have hold : ∀ k, Touches kind e k →
        (write d' [.put (fifoCountKey kind) (.word n)])[k]? = db[k]? := by
      intro k hk
      rw [hentry hent hmem.2 hk]
      exact hin.same k fun hk' => hne (touches_unique hent he hk hk')
    refine ⟨hold e (.inl rfl), ?_⟩
    unfold stamp
    rw [hold _ (.inr (.inl rfl))]
  · intro e hmem e' hmem' hne
    rw [hleft, Finset.mem_sdiff, Finset.mem_insert, List.mem_toFinset] at hmem'
    exact holdest e hmem e' (hmem'.1.resolve_left hne) hne hmem'.2
  · intro k hk
    have hcount : k ≠ fifoCountKey kind := by
      rintro rfl
      exact hk ⟨.count, count_area kind⟩
    rw [hsame k hcount, hgone.kept k fun e hmem ht => hk (owned_of_touches (hgone.isEntry e hmem) ht)]
    exact hin.same k fun ht => hk (owned_of_touches he ht)

/-- A bounded write keeps the index exact and the kind within its cap. -/
theorem putBounded_spec (s : FifoStore) (micros : Nat) (hcap : 1 ≤ s.maxEntries)
    (hi : Indexed kind s.db) (he : IsEntry kind entry) (val : Row) :
    Indexed kind (putBounded s micros kind entry val).db ∧
      ∃ evicted, Put kind entry val (nextStamp s micros) s.maxEntries s.db
        (putBounded s micros kind entry val).db evicted := by
  have hl := hi.toLinked
  -- the count with the new entry
  have hcount : readthroughCount s.db kind + (if s.db[fifoPosKey entry]?.isSome then 0 else 1) =
      (insert entry (entries kind s.db)).card := by
    rw [hi.count, ← card_entries]
    by_cases hmem : entry ∈ entries kind s.db
    · rw [if_pos ((hl.mem_entries_iff he).mp hmem), Finset.insert_eq_of_mem hmem]
      rfl
    · rw [if_neg fun hs => hmem ((hl.mem_entries_iff he).mpr hs), Finset.card_insert_of_notMem hmem]
  have hin := reinserted hl he (nextStamp_le s micros) val
  rw [putBounded_db, hcount]
  have hlen := length_evictedBy entry hl hcap
  generalize hexcess : (insert entry (entries kind s.db)).card - s.maxEntries = excess at hlen
  have hgone := evictedBy_removed hl hin.linked he hin.same excess
  have hnodup := evictedBy_nodup entry hl excess
  have hothers : ∀ e ∈ (evictedBy kind entry excess s.db).map Prod.fst,
      e ∈ entries kind s.db ∧ e ≠ entry := by
    intro e hmem
    obtain ⟨p, hp, rfl⟩ := List.mem_map.mp hmem
    obtain ⟨hqueue, hne⟩ := evictedBy_mem hp
    refine ⟨?_, hne⟩
    rw [← queue_entries hl, List.mem_toFinset]
    exact List.mem_map_of_mem hqueue
  refine ⟨?_, (evictedBy kind entry excess s.db).map Prod.fst, ?_⟩
  · refine (hgone.linked hin.linked).counted ?_
    rw [hgone.entries, hin.entries, Finset.card_sdiff_of_subset,
      List.toFinset_card_of_nodup hnodup, List.length_map]
    intro e hmem
    exact Finset.mem_insert_of_mem (hothers e (List.mem_toFinset.mp hmem)).1
  · refine put_of_parts he hin hgone hnodup hothers ?_ ?_
    · rw [List.length_map, hlen, hexcess]
    · intro e hmem e' hmem' hne hleft
      exact evictedBy_oldest hl hmem hmem' hne hleft

end Put

end Pccs.Fifo
