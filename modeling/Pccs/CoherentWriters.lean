import Pccs.Coherence

/-!
# The writers of a platform

Local selection, replacement after a fetch, merging a mirror's certificate and
`PUT /platformcollateral`: each commits a publication of the platform it is
about, so each keeps pools and GET records coherent and drops no level.
-/
namespace Pccs.Coherence

open Text Json Fallible KeyValue Store Cache

variable {env : Env} {db : Database}

theorem same_uppercase (s : String) : Same s (toAsciiUppercase s) :=
  (toAsciiLowercase_uppercase s).symm

theorem levelOk_uppercase {cpusvn pcesvn tcbm : String} (hc : NoSlash cpusvn) (hp : NoSlash pcesvn) :
    LevelOk ⟨toAsciiUppercase cpusvn, toAsciiUppercase pcesvn, tcbm⟩ where
  cpuUpper := isUpper_uppercase _
  pceUpper := isUpper_uppercase _
  cpuNoSlash := (noSlash_congr (same_uppercase cpusvn)).mp hc
  pceNoSlash := (noSlash_congr (same_uppercase pcesvn)).mp hp

/-- The best certificate of a pool, under the tcbm the pool has for it. -/
theorem best_mem_certs {pool : PlatformPool} {cpusvn pcesvn pceid tcbm cert : String}
    {info : Value}
    (h : Selection.selectBestPckCert cpusvn pcesvn pceid pool.certPairs info = .ok (tcbm, cert)) :
    ∃ c ∈ pool.certs, Same c.tcbm tcbm ∧ c.cert = cert := by
  obtain ⟨⟨c, hc, hbest⟩, _⟩ := Selection.selectBestPckCert_eq_ok h
  obtain ⟨d, hd, rfl⟩ := List.mem_map.mp hc
  obtain ⟨rfl, rfl⟩ := Prod.mk.inj hbest
  exact ⟨d, hd, same_uppercase _, rfl⟩

/-- Local selection answers with a record of the pool for the level asked. -/
theorem selected_matches {pool : PlatformPool} {cpusvn pcesvn pceid : String} {tcb : TcbRecord}
    {rec : PckCertRecord} (h : selectFromPoolWithTcb pool cpusvn pcesvn pceid tcb = .ok rec) :
    Matches pool (rawOf rec) rec ∧ LevelOk (rawOf rec) ∧ Same rec.cpusvn cpusvn ∧
      Same rec.pcesvn pcesvn := by
  unfold selectFromPoolWithTcb at h
  split at h
  · cases h
  · rename_i tcbm cert hbest
    cases h
    obtain ⟨raw, hraw⟩ := Selection.selectBestPckCert_level hbest
    obtain ⟨hc, hp⟩ := Selection.Tcb.noSlash_of_fromHex hraw
    refine ⟨⟨rfl, rfl, same_uppercase _, same_uppercase _, same_uppercase _, best_mem_certs hbest,
      rfl, rfl, rfl, rfl, rfl⟩, ?_, (same_uppercase _).symm, (same_uppercase _).symm⟩
    exact levelOk_uppercase ((noSlash_congr (same_uppercase _)).mp hc)
      ((noSlash_congr (same_uppercase _)).mp hp)

/-- Selecting for a request publishes its level next to the ones listed. -/
theorem select_publication (hinj : Function.Injective env.hash128Hex) (h : Coherent env db)
    {qeid pceid : String} {select : PlatformPool → Except PccsError PckCertRecord}
    {rec : PckCertRecord} {batch : WriteBatch}
    (hselect : ∀ pool rec, select pool = .ok rec →
      Matches pool (rawOf rec) rec ∧ LevelOk (rawOf rec))
    (hok : selectPlatformCert env db qeid pceid true select = .ok (rec, batch)) :
    ∃ p : Publication env db, batch = p.batch := by
  obtain ⟨pool, hpool, hok⟩ := bind_eq_ok.mp hok
  obtain ⟨rec', hrec, hok⟩ := bind_eq_ok.mp hok
  have hpool := require_eq_ok.mp hpool
  have hserved := h.served hpool
  obtain ⟨hrow, hq, hp⟩ := getPlatformPool_eq_some.mp hpool
  obtain ⟨hm, hlevel⟩ := hselect pool rec' hrec
  have hkey : Keys.platform env qeid pceid = Keys.platform env pool.qeId pool.pceId :=
    Keys.platform_congr hq.symm hp.symm
  obtain ⟨rfl, rfl⟩ := Prod.mk.inj (pure_eq_ok.mp hok)
  refine ⟨publicationOf hinj pool pool.rawTcbs [] (some rec') [] hserved.pceid hserved.level
    hserved.distinct (by simp) hserved.record ?_ (by simp) ?_, ?_⟩
  · rintro s ⟨⟩
    exact ⟨hm, hlevel⟩
  · intro old hold r hr
    rw [← hkey, hrow] at hold
    cases hold
    exact ⟨r, hr, SameLevel.refl r⟩
  · exact congrArg (fun k => [putPckcert env rec', Write.put k _]) hkey

/-- The levels of a platform that is about to be replaced. -/
theorem previous_levels (h : Coherent env db) (qeid pceid : String) :
    let previous := ((getPlatformPool env db qeid pceid).map PlatformPool.rawTcbs).getD []
    (∀ r ∈ previous, LevelOk r) ∧ previous.Pairwise fun r s => ¬ SameLevel r s := by
  cases hpool : getPlatformPool env db qeid pceid with
  | none => simp
  | some pool => exact ⟨(h.served hpool).level, (h.served hpool).distinct⟩

/-- Re-selection keeps the list of levels and pairs each with its record. -/
theorem reselect_levels {select : RawTcb → Except PccsError PckCertRecord}
    {previous : List RawTcb} {out : List (RawTcb × PckCertRecord)}
    (h : previous.mapM (reselect select) = .ok out) :
    (out.map fun x => (x.1.cpuSvn, x.1.pceSvn)) = previous.map fun r => (r.cpuSvn, r.pceSvn) := by
  induction previous generalizing out with
  | nil => cases h; rfl
  | cons r previous ih =>
    obtain ⟨x, rest, hx, hrest, rfl⟩ := mapM_cons_eq_ok.mp h
    obtain ⟨rec, _, hx⟩ := bind_eq_ok.mp hx
    cases pure_eq_ok.mp hx
    simp [ih hrest]

/-- Distinctness only reads the levels. -/
theorem distinct_of_levels {raws raws' : List RawTcb}
    (h : (raws.map fun r => (r.cpuSvn, r.pceSvn)) = raws'.map fun r => (r.cpuSvn, r.pceSvn))
    (hd : raws'.Pairwise fun r s => ¬ SameLevel r s) :
    raws.Pairwise fun r s => ¬ SameLevel r s := by
  have key : ∀ l : List RawTcb, (l.Pairwise fun r s => ¬ SameLevel r s) ↔
      (l.map fun r => (r.cpuSvn, r.pceSvn)).Pairwise fun a b =>
        ¬ (toAsciiLowercase a.1 = toAsciiLowercase b.1 ∧
          toAsciiLowercase a.2 = toAsciiLowercase b.2) := by
    intro l
    rw [List.pairwise_map]
    rfl
  rw [key, h, ← key]
  exact hd

/-- Replacement after a fetch publishes the fresh pool with every old level
selected again, plus the requested one. -/
theorem replace_publication (hinj : Function.Injective env.hash128Hex) (h : Coherent env db)
    {fresh : PlatformPool} {publication : PlatformPublication} {tcbs : List TcbRecord}
    {selected : Option PckCertRecord}
    {select : PlatformPool → RawTcb → Except PccsError PckCertRecord} {u : Unit}
    {batch : WriteBatch} (hslash : NoSlash fresh.pceId)
    (hselect : ∀ raw rec, select fresh raw = .ok rec → Matches fresh (rawOf rec) rec ∧
      Same rec.cpusvn raw.cpuSvn ∧ Same rec.pcesvn raw.pceSvn)
    (hselected : ∀ s ∈ selected, Matches fresh (rawOf s) s ∧ LevelOk (rawOf s))
    (hok : replacePlatformCertsAfterFetch env db fresh publication tcbs selected select =
      .ok (u, batch)) :
    ∃ p : Publication env db, batch = p.batch := by
  obtain ⟨_, _, hok⟩ := bind_eq_ok.mp hok
  obtain ⟨out, hout, hok⟩ := bind_eq_ok.mp hok
  obtain ⟨rfl, rfl⟩ := Prod.mk.inj (pure_eq_ok.mp hok)
  obtain ⟨hlevel, hdistinct⟩ := previous_levels h fresh.qeId fresh.pceId
  have hlevels := reselect_levels hout
  -- each re-selected entry serves its own level
  have hpair : ∀ x ∈ out, Matches fresh x.1 x.2 ∧ LevelOk x.1 := by
    intro x hx
    obtain ⟨raw, hraw, hx⟩ := exists_of_mem_result hout x hx
    obtain ⟨rec, hrec, hx⟩ := bind_eq_ok.mp hx
    cases pure_eq_ok.mp hx
    obtain ⟨hm, hc, hp⟩ := hselect raw rec hrec
    have hl := hlevel raw hraw
    exact ⟨⟨hm.qeid, hm.pceid, hc, hp, same_uppercase _, hm.cert, hm.fmspc, hm.ca, hm.issuerChain,
      hm.encryptedPpid, hm.platformManifest⟩,
      ⟨hl.cpuUpper, hl.pceUpper, hl.cpuNoSlash, hl.pceNoSlash⟩⟩
  have hfst : (out.map Prod.fst).Pairwise fun r s => ¬ SameLevel r s :=
    distinct_of_levels (by simpa [Function.comp_def] using hlevels) hdistinct
  have hlevel' : ∀ r ∈ out.map Prod.fst, LevelOk r := by
    intro r hr
    obtain ⟨x, hx, rfl⟩ := List.mem_map.mp hr
    exact (hpair x hx).2
  have hrecs : ∀ rec ∈ out.map Prod.snd, ∃ r ∈ out.map Prod.fst, Matches fresh r rec := by
    intro rec hrec
    obtain ⟨x, hx, rfl⟩ := List.mem_map.mp hrec
    exact ⟨x.1, List.mem_map_of_mem hx, (hpair x hx).1⟩
  have hall : ∀ r ∈ out.map Prod.fst, ∃ rec ∈ out.map Prod.snd, Matches fresh r rec := by
    intro r hr
    obtain ⟨x, hx, rfl⟩ := List.mem_map.mp hr
    exact ⟨x.2, List.mem_map_of_mem hx, (hpair x hx).1⟩
  refine ⟨publicationOf hinj fresh (out.map Prod.fst) (out.map Prod.snd) selected
    (tcbs.map (putTcb env)) hslash hlevel' hfst hrecs
    (rows_of_records hinj hslash hlevel' hfst hrecs hall) hselected ?_ ?_, rfl⟩
  · intro w hw
    obtain ⟨rec, _, rfl⟩ := List.mem_map.mp hw
    exact inert_putTcb env rec
  · intro old hold r hr
    rw [h.lookup hinj hslash hold] at hout
    obtain ⟨x, hx, hxr⟩ := exists_of_mem_mapM hout r hr
    obtain ⟨rec, _, hxr⟩ := bind_eq_ok.mp hxr
    cases pure_eq_ok.mp hxr
    exact ⟨_, List.mem_map_of_mem hx, ⟨rfl, rfl⟩⟩

/-- A sibling of a merged certificate still serves its level. -/
theorem patchSibling_matches (old : PlatformPool) {pool : PlatformPool} {r : RawTcb}
    {rec cached : PckCertRecord}
    (hq : pool.qeId = old.qeId) (hp : pool.pceId = old.pceId)
    (hcerts : pool.certs = upsertCert ⟨rec.tcbm, rec.cert⟩ old.certs)
    (h : Matches old r cached) : Matches pool r (patchSibling pool rec cached) := by
  by_cases ht : toAsciiLowercase cached.tcbm = toAsciiLowercase rec.tcbm
  · have hpatch : patchSibling pool rec cached = { withPool pool cached with cert := rec.cert } :=
      if_pos ((eqIgnoreAsciiCase_iff _ _).mpr ht)
    rw [hpatch]
    refine ⟨hq ▸ h.qeid, hp ▸ h.pceid, h.cpusvn, h.pcesvn, h.tcbm, ?_, rfl, rfl, rfl, rfl, rfl⟩
    exact ⟨⟨rec.tcbm, rec.cert⟩, hcerts ▸ mem_upsertCert_self _ _, ht.symm, rfl⟩
  · have hpatch : patchSibling pool rec cached = withPool pool cached :=
      if_neg fun he => ht ((eqIgnoreAsciiCase_iff _ _).mp he)
    rw [hpatch]
    refine ⟨hq ▸ h.qeid, hp ▸ h.pceid, h.cpusvn, h.pcesvn, h.tcbm, ?_, rfl, rfl, rfl, rfl, rfl⟩
    obtain ⟨c, hc, hct, hcc⟩ := h.cert
    refine ⟨c, hcerts ▸ mem_upsertCert_of_ne hc ?_, hct, hcc⟩
    exact fun he => ht (hct.symm.trans he)

/-- The pool a merge starts from lists served levels. -/
theorem startPool_served (h : Coherent env db) (rec : PckCertRecord) (hslash : NoSlash rec.pceid) :
    Served env db (startPool (getPlatformPool env db rec.qeid rec.pceid) rec) := by
  cases hpool : getPlatformPool env db rec.qeid rec.pceid with
  | none => exact ⟨hslash, by simp [startPool], by simp [startPool], by simp [startPool]⟩
  | some pool => exact h.served hpool

/-- Merging a mirror's certificate publishes its level and brings the records of
the other levels in line. -/
theorem merge_publication (hinj : Function.Injective env.hash128Hex) (h : Coherent env db)
    {rec : PckCertRecord} {publication : PlatformPublication} {u : Unit} {batch : WriteBatch}
    (hpce : NoSlash rec.pceid) (hcpu : NoSlash rec.cpusvn) (hsvn : NoSlash rec.pcesvn)
    (hok : mergePckcertAfterFetch env db rec publication = .ok (u, batch)) :
    ∃ p : Publication env db, batch = p.batch := by
  obtain ⟨_, _, hok⟩ := bind_eq_ok.mp hok
  obtain ⟨_, _, hok⟩ := bind_eq_ok.mp hok
  obtain ⟨_, _, hok⟩ := bind_eq_ok.mp hok
  obtain ⟨rfl, rfl⟩ := Prod.mk.inj (pure_eq_ok.mp hok)
  have hserved := startPool_served h rec hpce
  have hstart : ∀ old, db[Keys.platform env rec.qeid rec.pceid]? = some (.platform old) →
      startPool (getPlatformPool env db rec.qeid rec.pceid) rec = old := by
    intro old hold
    rw [h.lookup hinj hpce hold]
    rfl
  have hids : Same rec.qeid (startPool (getPlatformPool env db rec.qeid rec.pceid) rec).qeId ∧
      Same rec.pceid (startPool (getPlatformPool env db rec.qeid rec.pceid) rec).pceId := by
    cases hpool : getPlatformPool env db rec.qeid rec.pceid with
    | none => exact ⟨rfl, rfl⟩
    | some pool =>
      obtain ⟨_, hq, hp⟩ := getPlatformPool_eq_some.mp hpool
      exact ⟨hq.symm, hp.symm⟩
  generalize getPlatformPool env db rec.qeid rec.pceid = current at *
  -- the record a sibling is patched from is the one its level has
  have hsibling : ∀ r ∈ (startPool current rec).rawTcbs, ∀ cached,
      getPckcert env db (mergedPool current rec).qeId r.cpuSvn r.pceSvn
        (mergedPool current rec).pceId = some cached →
      Matches (mergedPool current rec) r (patchSibling (mergedPool current rec) rec cached) := by
    intro r hr cached hcached
    obtain ⟨rec', hrec', hm⟩ := hserved.record r hr
    have hrow := (getPckcert_eq_some.mp hcached).1.symm.trans hrec'
    cases hrow
    exact patchSibling_matches (startPool current rec) rfl rfl rfl hm
  have hrecs : ∀ rec' ∈ patchedSiblings env db (mergedPool current rec) rec,
      ∃ r ∈ (startPool current rec).rawTcbs, Matches (mergedPool current rec) r rec' := by
    intro rec' hrec'
    obtain ⟨cached, hcached, rfl⟩ := List.mem_map.mp hrec'
    obtain ⟨r, hr, hget⟩ := List.mem_filterMap.mp hcached
    exact ⟨r, hr, hsibling r hr cached hget⟩
  have hall : ∀ r ∈ (startPool current rec).rawTcbs,
      ∃ rec' ∈ patchedSiblings env db (mergedPool current rec) rec,
        Matches (mergedPool current rec) r rec' := by
    intro r hr
    obtain ⟨cached, hrow, hm⟩ := hserved.record r hr
    have hget : getPckcert env db (mergedPool current rec).qeId r.cpuSvn r.pceSvn
        (mergedPool current rec).pceId = some cached :=
      getPckcert_eq_some.mpr ⟨hrow, hm.qeid, hm.pceid, hm.cpusvn, hm.pcesvn⟩
    exact ⟨_, List.mem_map_of_mem (List.mem_filterMap.mpr ⟨r, hr, hget⟩), hsibling r hr cached hget⟩
  refine ⟨publicationOf hinj (mergedPool current rec) (startPool current rec).rawTcbs
    (patchedSiblings env db (mergedPool current rec) rec)
    (some { rec with
      encryptedPpid := (mergedPool current rec).storedPpid
      platformManifest := (mergedPool current rec).platformManifest })
    [] hserved.pceid hserved.level hserved.distinct hrecs
    (rows_of_records hinj hserved.pceid hserved.level hserved.distinct hrecs hall) ?_ (by simp) ?_, ?_⟩
  · rintro s ⟨⟩
    refine ⟨⟨hids.1, hids.2, same_uppercase _, same_uppercase _, same_uppercase _, ?_, rfl, ?_, rfl,
      rfl, rfl⟩, levelOk_uppercase hcpu hsvn⟩
    · exact ⟨⟨rec.tcbm, rec.cert⟩, mem_upsertCert_self _ _, rfl, rfl⟩
    · exact same_uppercase _
  · intro old hold r hr
    have hkey : Keys.platform env (mergedPool current rec).qeId (mergedPool current rec).pceId =
        Keys.platform env rec.qeid rec.pceid := Keys.platform_congr hids.1.symm hids.2.symm
    rw [hkey] at hold
    rw [hstart old hold]
    exact ⟨r, hr, SameLevel.refl r⟩
  · change _ = _ ++ [] ++ [_]
    rw [List.append_nil]
    rfl

section Collateral

open Collateral

theorem firstUpper_isUpper (v : Value) (keys : List String) : IsUpper (firstUpper v keys) := by
  unfold firstUpper
  cases keys.findSome? fun k => (v.get k).bind Value.asStr with
  | none => rfl
  | some s => exact isUpper_uppercase s

theorem pceIdOf_noSlash {pc : Value} (h : Validate.checkPckCerts pc = .ok ()) :
    NoSlash (pceIdOf pc) := by
  obtain ⟨pceId, hget, hhex⟩ := Validate.checkPckCerts_pceId h
  have : pceIdOf pc = toAsciiUppercase pceId := by simp [pceIdOf, firstUpper, hget, Value.asStr]
  rw [this, ← noSlash_congr (same_uppercase pceId)]
  exact Validate.noSlash_of_isHex hhex

/-- The canonical levels of an entry: upper case, each once. -/
structure LevelsOk (levels : List (String × String)) : Prop where
  upper : ∀ l ∈ levels, IsUpper l.1 ∧ IsUpper l.2
  nodup : levels.Nodup

theorem addLevel_ok {levels : List (String × String)} (h : LevelsOk levels) (p : Value) :
    LevelsOk (addLevel levels p) := by
  unfold addLevel
  simp only
  split
  · rename_i hnew
    constructor
    · intro l hl
      rcases List.mem_append.mp hl with hl | hl
      · exact h.upper l hl
      · rw [List.mem_singleton.mp hl]
        exact ⟨firstUpper_isUpper _ _, firstUpper_isUpper _ _⟩
    · refine List.nodup_append.mpr ⟨h.nodup, by simp, ?_⟩
      intro a ha b hb hab
      rw [List.mem_singleton.mp hb] at hab
      exact hnew.2.2 (hab ▸ ha)
  · exact h

theorem mem_addLevel {levels : List (String × String)} {l : String × String} (h : l ∈ levels)
    (p : Value) : l ∈ addLevel levels p := by
  unfold addLevel
  simp only
  split
  · exact List.mem_append_left _ h
  · exact h

theorem foldl_addLevel {levels : List (String × String)} (ps : List Value) (h : LevelsOk levels) :
    LevelsOk (ps.foldl addLevel levels) ∧ ∀ l ∈ levels, l ∈ ps.foldl addLevel levels := by
  induction ps generalizing levels with
  | nil => exact ⟨h, fun l hl => hl⟩
  | cons p ps ih =>
    obtain ⟨hok, hmem⟩ := ih (addLevel_ok h p)
    exact ⟨hok, fun l hl => hmem l (mem_addLevel hl p)⟩

theorem basePool_served (h : Coherent env db) {pc : Value} (hs : NoSlash (pceIdOf pc)) :
    Served env db (basePool env db pc) := by
  unfold basePool
  cases hpool : getPlatformPool env db (qeIdOf pc) (pceIdOf pc) with
  | none => exact ⟨hs, by simp, by simp, by simp⟩
  | some pool => exact h.served hpool

theorem basePool_ids (env : Env) (db : Database) (pc : Value) :
    Same (qeIdOf pc) (basePool env db pc).qeId ∧ Same (pceIdOf pc) (basePool env db pc).pceId := by
  unfold basePool
  cases hpool : getPlatformPool env db (qeIdOf pc) (pceIdOf pc) with
  | none => exact ⟨rfl, rfl⟩
  | some pool =>
    obtain ⟨_, hq, hp⟩ := getPlatformPool_eq_some.mp hpool
    exact ⟨hq.symm, hp.symm⟩

theorem entryLevels_ok (h : Coherent env db) (body : Value) {pc : Value} (hs : NoSlash (pceIdOf pc)) :
    LevelsOk (entryLevels env db body pc) ∧
      ∀ r ∈ (basePool env db pc).rawTcbs, (r.cpuSvn, r.pceSvn) ∈ entryLevels env db body pc := by
  have hserved := basePool_served h hs
  have hstart : LevelsOk ((basePool env db pc).rawTcbs.map fun r => (r.cpuSvn, r.pceSvn)) := by
    constructor
    · intro l hl
      obtain ⟨r, hr, rfl⟩ := List.mem_map.mp hl
      exact ⟨(hserved.level r hr).cpuUpper, (hserved.level r hr).pceUpper⟩
    · rw [List.Nodup, List.pairwise_map]
      refine hserved.distinct.imp fun hne he => hne ?_
      obtain ⟨hc, hp⟩ := Prod.mk.inj he
      exact ⟨congrArg _ hc, congrArg _ hp⟩
  obtain ⟨hok, hmem⟩ := foldl_addLevel (newPlatforms body pc) hstart
  exact ⟨hok, fun r hr => hmem _ (List.mem_map_of_mem hr)⟩

theorem entryPool_certs (env : Env) (db : Database) (body pc : Value) (info : PckCert.PckCertInfo) :
    (entryPool env db body pc info).certs = (entryCerts pc).map fun c => ⟨c.1, c.2⟩ := by
  unfold entryPool
  cases (newPlatforms body pc).head? <;> rfl

theorem entryPool_qeId (env : Env) (db : Database) (body pc : Value) (info : PckCert.PckCertInfo) :
    (entryPool env db body pc info).qeId = (basePool env db pc).qeId := by
  unfold entryPool
  cases (newPlatforms body pc).head? <;> rfl

theorem entryPool_pceId (env : Env) (db : Database) (body pc : Value) (info : PckCert.PckCertInfo) :
    (entryPool env db body pc info).pceId = (basePool env db pc).pceId := by
  unfold entryPool
  cases (newPlatforms body pc).head? <;> rfl

/-- One level of an entry: its texts are kept and its record serves it. -/
theorem selectLevel_eq_ok {pc : Value} {pool : PlatformPool} {tcbInfo : Value}
    {level : String × String} {x : RawTcb × PckCertRecord}
    (hcerts : pool.certs = (entryCerts pc).map fun c => ⟨c.1, c.2⟩)
    (hq : Same (qeIdOf pc) pool.qeId) (hp : Same (pceIdOf pc) pool.pceId)
    (hup : IsUpper level.1 ∧ IsUpper level.2) (h : selectLevel pc pool tcbInfo level = .ok x) :
    (x.1.cpuSvn, x.1.pceSvn) = level ∧ Matches pool x.1 x.2 ∧ LevelOk x.1 := by
  unfold selectLevel at h
  split at h
  · cases h
  · rename_i tcbm cert hbest
    cases h
    obtain ⟨raw, hraw⟩ := Selection.selectBestPckCert_level hbest
    obtain ⟨hc, hs⟩ := Selection.Tcb.noSlash_of_fromHex hraw
    refine ⟨rfl, ⟨hq, hp, rfl, rfl, rfl, ?_, rfl, rfl, rfl, rfl, rfl⟩, hup.1, hup.2, hc, hs⟩
    obtain ⟨⟨c, hmem, hc'⟩, _⟩ := Selection.selectBestPckCert_eq_ok hbest
    obtain ⟨rfl, rfl⟩ := Prod.mk.inj hc'
    exact ⟨⟨c.1, c.2⟩, hcerts ▸ List.mem_map_of_mem hmem, same_uppercase _, rfl⟩

/-- Every stored level of the entry's platform is among the levels the entry
rebuilds. -/
def LevelsWithin (env : Env) (db d : Database) (body pc : Value) : Prop :=
  ∀ old, d[Keys.platform env (qeIdOf pc) (pceIdOf pc)]? = some (.platform old) →
    ∀ r ∈ old.rawTcbs, ∃ l ∈ entryLevels env db body pc, Same r.cpuSvn l.1 ∧ Same r.pceSvn l.2

/-- An entry publishes its platform. The levels were read from `db`; the batch
may already hold an earlier entry, which is why it lands on another database. -/
theorem entry_publication (hinj : Function.Injective env.hash128Hex) (h : Coherent env db)
    {d : Database} {body pc : Value} {version : Nat} {batch : WriteBatch}
    (hs : NoSlash (pceIdOf pc)) (hwithin : LevelsWithin env db d body pc)
    (hok : entryWrites env db body version pc = .ok batch) :
    ∃ p : Publication env d, batch = p.batch ∧
      p.key = Keys.platform env (qeIdOf pc) (pceIdOf pc) ∧
      ∀ r ∈ p.pool.rawTcbs, (r.cpuSvn, r.pceSvn) ∈ entryLevels env db body pc := by
  obtain ⟨info, tcbInfo, out, _, _, hout, rfl⟩ := entry_eq_ok hok
  obtain ⟨hlevels, _⟩ := entryLevels_ok h body hs
  have hserved := basePool_served h hs
  obtain ⟨hq, hp⟩ := basePool_ids env db pc
  generalize hpool : entryPool env db body pc info = pool at hout ⊢
  have hqp : pool.qeId = (basePool env db pc).qeId := hpool ▸ entryPool_qeId env db body pc info
  have hpp : pool.pceId = (basePool env db pc).pceId := hpool ▸ entryPool_pceId env db body pc info
  have hkey : Keys.platform env pool.qeId pool.pceId =
      Keys.platform env (qeIdOf pc) (pceIdOf pc) := by
    rw [hqp, hpp]
    exact Keys.platform_congr hq.symm hp.symm
  have hslash : NoSlash pool.pceId := hpp ▸ hserved.pceid
  have hlevel : ∀ l ∈ entryLevels env db body pc, ∀ x, selectLevel pc pool tcbInfo l = .ok x →
      (x.1.cpuSvn, x.1.pceSvn) = l ∧ Matches pool x.1 x.2 ∧ LevelOk x.1 := by
    intro l hl x hx
    exact selectLevel_eq_ok (hpool ▸ entryPool_certs env db body pc info) (hqp ▸ hq) (hpp ▸ hp)
      (hlevels.upper l hl) hx
  have hpair : ∀ x ∈ out, (x.1.cpuSvn, x.1.pceSvn) ∈ entryLevels env db body pc ∧
      Matches pool x.1 x.2 ∧ LevelOk x.1 := by
    intro x hx
    obtain ⟨l, hl, hx⟩ := exists_of_mem_result hout x hx
    obtain ⟨he, hm⟩ := hlevel l hl x hx
    exact ⟨he ▸ hl, hm⟩
  have hnames : (out.map fun x => (x.1.cpuSvn, x.1.pceSvn)) = entryLevels env db body pc :=
    map_of_mapM (fun l hl x hx => (hlevel l hl x hx).1) hout
  have hlevel' : ∀ r ∈ out.map Prod.fst, LevelOk r := by
    intro r hr
    obtain ⟨x, hx, rfl⟩ := List.mem_map.mp hr
    exact (hpair x hx).2.2
  have hdistinct : (out.map Prod.fst).Pairwise fun r s => ¬ SameLevel r s := by
    have hnodup : (out.map fun x => (x.1.cpuSvn, x.1.pceSvn)).Nodup := hnames ▸ hlevels.nodup
    rw [List.Nodup, List.pairwise_map] at hnodup
    rw [List.pairwise_map]
    -- canonical texts that agree up to case are equal
    refine List.Pairwise.imp_of_mem (fun hx hy hne hsame => hne ?_) hnodup
    have hlx := (hpair _ hx).2.2
    have hly := (hpair _ hy).2.2
    rw [hlx.cpuUpper.eq_of_lower hly.cpuUpper hsame.1,
      hlx.pceUpper.eq_of_lower hly.pceUpper hsame.2]
  have hrecs : ∀ rec ∈ out.map Prod.snd, ∃ r ∈ out.map Prod.fst, Matches pool r rec := by
    intro rec hrec
    obtain ⟨x, hx, rfl⟩ := List.mem_map.mp hrec
    exact ⟨x.1, List.mem_map_of_mem hx, (hpair x hx).2.1⟩
  have hall : ∀ r ∈ out.map Prod.fst, ∃ rec ∈ out.map Prod.snd, Matches pool r rec := by
    intro r hr
    obtain ⟨x, hx, rfl⟩ := List.mem_map.mp hr
    exact ⟨x.2, List.mem_map_of_mem hx, (hpair x hx).2.1⟩
  refine ⟨publicationOf hinj pool (out.map Prod.fst) (out.map Prod.snd) none [] hslash hlevel'
    hdistinct hrecs (rows_of_records hinj hslash hlevel' hdistinct hrecs hall) (by simp) (by simp) ?_,
    ?_, hkey, ?_⟩
  · intro old hold r hr
    rw [hkey] at hold
    obtain ⟨l, hl, hc, hp⟩ := hwithin old hold r hr
    obtain ⟨x, hx, hxl⟩ := exists_of_mem_mapM hout l hl
    obtain ⟨rfl, _⟩ := hlevel l hl x hxl
    exact ⟨x.1, List.mem_map_of_mem hx, hc, hp⟩
  · simp [Publication.batch, publicationOf]
  · intro r hr
    obtain ⟨x, hx, rfl⟩ := List.mem_map.mp hr
    exact (hpair x hx).1

/-- Entries with the same platform key rebuild the same levels. -/
theorem entryLevels_eq (hinj : Function.Injective env.hash128Hex) (body : Value) {pc pc' : Value}
    (hs : NoSlash (pceIdOf pc)) (hs' : NoSlash (pceIdOf pc'))
    (hkey : Keys.platform env (qeIdOf pc) (pceIdOf pc) =
      Keys.platform env (qeIdOf pc') (pceIdOf pc')) :
    entryLevels env db body pc = entryLevels env db body pc' := by
  obtain ⟨hq, hp⟩ := Keys.platform_inj hinj hs hs' hkey
  have hq' : qeIdOf pc = qeIdOf pc' :=
    (firstUpper_isUpper _ _).eq_of_lower (firstUpper_isUpper _ _) hq
  have hp' : pceIdOf pc = pceIdOf pc' :=
    (firstUpper_isUpper _ _).eq_of_lower (firstUpper_isUpper _ _) hp
  unfold entryLevels newPlatforms basePool
  rw [hq', hp']

/-- The entries of a body, one publication after the other. -/
theorem entries_coherent (hinj : Function.Injective env.hash128Hex) (h : Coherent env db)
    {body : Value} {version : Nat} (all : List Value) (hall : ∀ pc ∈ all, NoSlash (pceIdOf pc))
    {pcs : List Value} {batches : List WriteBatch} {d : Database} (hpcs : ∀ pc ∈ pcs, pc ∈ all)
    (hd : Coherent env d) (hwithin : ∀ pc ∈ all, LevelsWithin env db d body pc)
    (hok : pcs.mapM (entryWrites env db body version) = .ok batches) :
    Coherent env (write d batches.flatten) ∧ Keeps d (write d batches.flatten) := by
  induction pcs generalizing d batches with
  | nil => cases hok; exact ⟨hd, Keeps.refl d⟩
  | cons pc pcs ih =>
    obtain ⟨batch, rest, hbatch, hrest, rfl⟩ := mapM_cons_eq_ok.mp hok
    have hpc := hpcs pc (by simp)
    obtain ⟨p, rfl, hkey, hlevels⟩ := entry_publication hinj h (hall pc hpc) (hwithin pc hpc) hbatch
    have hafter : ∀ pc' ∈ all, LevelsWithin env db p.after body pc' := by
      intro pc' hpc' old hold r hr
      obtain ⟨hk, rfl⟩ | ⟨_, hold⟩ := p.pool_after hold
      · rw [entryLevels_eq hinj body (hall pc' hpc') (hall pc hpc) (hk.trans hkey)]
        exact ⟨_, hlevels r hr, rfl, rfl⟩
      · exact hwithin pc' hpc' old hold r hr
    rw [List.flatten_cons, write_append]
    obtain ⟨hc, hk⟩ := ih (fun pc' hpc' => hpcs pc' (by simp [hpc'])) (p.coherent_after hinj hd)
      hafter hrest
    exact ⟨hc, (p.keeps_after hd).trans hk⟩

theorem inert_putRootcacrl (env : Env) (crl : List UInt8) : Inert env (putRootcacrl crl) where
  notPckcert _ _ _ _ := by
    simp only [putRootcacrl, Write.key, Keys.rootcacrl, Keys.pckcert, Keys.make, Keys.under,
      asBytes_append]
    exact List.append_nil (asBytes "rootcacrl") ▸ Keys.append_ne (by decide) (by decide) [] _
  notPlatform _ _ := by
    simp only [putRootcacrl, Write.key, Keys.rootcacrl, Keys.platform, Keys.make, Keys.under,
      asBytes_append]
    exact List.append_nil (asBytes "rootcacrl") ▸ Keys.append_ne (by decide) (by decide) [] _
  noPool pool h := by cases h
  noRecord rec h := by cases h

theorem documentWrites_inert (env : Env) (body : Value) (version : Nat) :
    ∀ w ∈ documentWrites env body version, Inert env w := by
  refine documentWrites_forall (inert_putTcb env) ?_ ?_ (inert_putRootcacrl env) ?_ body version
  · exact fun _ => inert_put (by decide) (by decide) (by simp) (by simp)
  · exact fun _ => inert_put (by decide) (by decide) (by simp) (by simp)
  · exact fun _ _ => inert_put (by decide) (by decide) (by simp) (by simp)

/-- `PUT /platformcollateral`, accepted or not, keeps the views coherent and
drops no level. -/
theorem put_coherent (hinj : Function.Injective env.hash128Hex) (h : Coherent env db)
    (body : Value) (version : Nat) :
    Coherent env (putPlatformCollateral env db body version).2 ∧
      Keeps db (putPlatformCollateral env db body version).2 := by
  unfold putPlatformCollateral
  split
  · exact ⟨h, Keeps.refl db⟩
  · rename_i hschema
    obtain ⟨col, pcs, hcol, hpcs, hchecked⟩ := Validate.platformCollateral_pckCerts hschema
    have hentries : arrayMember (collaterals body) "pck_certs" = pcs := by
      simp [arrayMember, collaterals, hcol, hpcs]
    have hdocs := documentWrites_inert env body version
    have h' := h.inert hdocs
    have hk' := h.inert_keeps hdocs
    simp only
    generalize write db (documentWrites env body version) = d at h' hk'
    unfold platformWrites
    cases hbatch : (arrayMember (collaterals body) "pck_certs").mapM (entryWrites env d body version)
      with
    | error e => exact ⟨h', hk'⟩
    | ok batches =>
      have hslash : ∀ pc ∈ pcs, NoSlash (pceIdOf pc) := fun pc hpc => pceIdOf_noSlash (hchecked pc hpc)
      have hwithin : ∀ pc ∈ pcs, LevelsWithin env d d body pc := by
        intro pc hpc old hold r hr
        have hbase : basePool env d pc = old := by
          unfold basePool
          rw [h'.lookup hinj (hslash pc hpc) hold]
          rfl
        exact ⟨_, (entryLevels_ok h' body (hslash pc hpc)).2 r (hbase ▸ hr), rfl, rfl⟩
      rw [hentries] at hbatch
      obtain ⟨hc, hk⟩ := entries_coherent hinj h' pcs hslash (fun pc hpc => hpc) h' hwithin hbatch
      exact ⟨hc, hk'.trans hk⟩

end Collateral

end Pccs.Coherence
