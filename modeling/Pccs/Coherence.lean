import Pccs.Collateral

/-!
# Coherence of pools and GET records

A platform is stored twice: as a pool that lists its raw levels, and as one GET
record per level. The invariant says that the two describe the same thing in
every database: each listed level has its record, each record has its listed
level, and the record agrees with the pool. One lemma says what a publication
for one platform must bring to keep it; the writers only have to show that they
do.
-/
namespace Pccs.Coherence

open Text KeyValue Store

/-- Equal up to ASCII letter case. -/
def Same (a b : String) : Prop := toAsciiLowercase a = toAsciiLowercase b

/-- The record is what the pool serves for a listed level. -/
structure Matches (pool : PlatformPool) (r : RawTcb) (rec : PckCertRecord) : Prop where
  qeid : Same rec.qeid pool.qeId
  pceid : Same rec.pceid pool.pceId
  cpusvn : Same rec.cpusvn r.cpuSvn
  pcesvn : Same rec.pcesvn r.pceSvn
  tcbm : Same rec.tcbm r.tcbm
  cert : ∃ c ∈ pool.certs, Same c.tcbm rec.tcbm ∧ c.cert = rec.cert
  fmspc : Same rec.fmspc pool.fmspc
  ca : Same rec.ca pool.ca
  issuerChain : rec.issuerChain = pool.issuerChain
  encryptedPpid : rec.encryptedPpid = pool.storedPpid
  platformManifest : rec.platformManifest = pool.platformManifest

/-- A level whose texts are canonical and can stand inside a key. -/
structure LevelOk (r : RawTcb) : Prop where
  cpuUpper : IsUpper r.cpuSvn
  pceUpper : IsUpper r.pceSvn
  cpuNoSlash : NoSlash r.cpuSvn
  pceNoSlash : NoSlash r.pceSvn

/-- The GET key of a level of a pool. -/
def levelKey (env : Env) (pool : PlatformPool) (r : RawTcb) : List UInt8 :=
  Keys.pckcert env pool.qeId pool.pceId r.cpuSvn r.pceSvn

structure Served (env : Env) (db : Database) (pool : PlatformPool) : Prop where
  pceid : NoSlash pool.pceId
  level : ∀ r ∈ pool.rawTcbs, LevelOk r
  distinct : pool.rawTcbs.Pairwise fun r s => ¬ SameLevel r s
  record : ∀ r ∈ pool.rawTcbs, ∃ rec, db[levelKey env pool r]? = some (.pckcert rec) ∧
    Matches pool r rec

/-- The record names a level that its platform lists. -/
def Tracked (env : Env) (db : Database) (rec : PckCertRecord) : Prop :=
  ∃ pool, db[Keys.platform env rec.qeid rec.pceid]? = some (.platform pool) ∧
    Same pool.qeId rec.qeid ∧ Same pool.pceId rec.pceid ∧
    ∃ r ∈ pool.rawTcbs, Same r.cpuSvn rec.cpusvn ∧ Same r.pceSvn rec.pcesvn

structure Coherent (env : Env) (db : Database) : Prop where
  pools : ∀ key pool, db[key]? = some (.platform pool) →
    key = Keys.platform env pool.qeId pool.pceId ∧ Served env db pool
  records : ∀ key rec, db[key]? = some (.pckcert rec) →
    key = Keys.pckcert env rec.qeid rec.pceid rec.cpusvn rec.pcesvn ∧ Tracked env db rec

/-- No platform loses a listed level. -/
def Keeps (db db' : Database) : Prop :=
  ∀ (key : List UInt8) (pool : PlatformPool), db[key]? = some (.platform pool) →
    ∃ pool' : PlatformPool, db'[key]? = some (.platform pool') ∧
      ∀ r ∈ pool.rawTcbs, ∃ r' ∈ pool'.rawTcbs, SameLevel r r'

theorem Keeps.refl (db : Database) : Keeps db db :=
  fun _ pool h => ⟨pool, h, fun r hr => ⟨r, hr, SameLevel.refl r⟩⟩

theorem Keeps.trans {db db' db'' : Database} (h : Keeps db db') (h' : Keeps db' db'') :
    Keeps db db'' := by
  intro key pool hp
  obtain ⟨pool', hp', hk⟩ := h key pool hp
  obtain ⟨pool'', hp'', hk'⟩ := h' key pool' hp'
  refine ⟨pool'', hp'', fun r hr => ?_⟩
  obtain ⟨r', hr', hs⟩ := hk r hr
  obtain ⟨r'', hr'', hs'⟩ := hk' r' hr'
  exact ⟨r'', hr'', hs.trans hs'⟩

/-- A write of a kind that neither view reads. -/
structure Inert (env : Env) (w : Write UInt8 Row) : Prop where
  notPckcert : ∀ qeid pceid cpusvn pcesvn, w.key ≠ Keys.pckcert env qeid pceid cpusvn pcesvn
  notPlatform : ∀ qeid pceid, w.key ≠ Keys.platform env qeid pceid
  noPool : ∀ pool, w.effect ≠ some (.platform pool)
  noRecord : ∀ rec, w.effect ≠ some (.pckcert rec)

theorem inert_put {env : Env} {kind rest : String} {row : Row}
    (hp : Keys.Apart kind Keys.pckcertPrefix) (hq : Keys.Apart kind Keys.platformPrefix)
    (hpool : ∀ pool, row ≠ .platform pool) (hrec : ∀ rec, row ≠ .pckcert rec) :
    Inert env (.put (Keys.under kind rest) row) where
  notPckcert _ _ _ _ := Keys.under_ne hp _ _
  notPlatform _ _ := Keys.under_ne hq _ _
  noPool pool h := hpool pool (Option.some.inj h)
  noRecord rec h := hrec rec (Option.some.inj h)

theorem inert_putTcb (env : Env) (rec : TcbRecord) : Inert env (putTcb env rec) :=
  inert_put (by decide) (by decide) (by simp) (by simp)

section Inertness

variable {env : Env} {db : Database} {batch : WriteBatch}

theorem get_pckcert_inert (h : ∀ w ∈ batch, Inert env w) (qeid pceid cpusvn pcesvn : String) :
    (write db batch)[Keys.pckcert env qeid pceid cpusvn pcesvn]? =
      db[Keys.pckcert env qeid pceid cpusvn pcesvn]? :=
  get_write_of_ne db batch _ fun w hw => (h w hw).notPckcert _ _ _ _

theorem get_platform_inert (h : ∀ w ∈ batch, Inert env w) (qeid pceid : String) :
    (write db batch)[Keys.platform env qeid pceid]? = db[Keys.platform env qeid pceid]? :=
  get_write_of_ne db batch _ fun w hw => (h w hw).notPlatform _ _

/-- Rows of other kinds do not touch either view. -/
theorem Coherent.inert (h : Coherent env db) (hb : ∀ w ∈ batch, Inert env w) :
    Coherent env (write db batch) where
  pools k pool hpool := by
    have hold : db[k]? = some (.platform pool) := by
      obtain ⟨hsame, _⟩ | ⟨w, hw, _, he⟩ := get_write_cases db batch k
      · rw [← hsame]; exact hpool
      · exact absurd (he.symm.trans hpool) ((hb w hw).noPool pool)
    obtain ⟨hk, hs⟩ := h.pools k pool hold
    refine ⟨hk, hs.pceid, hs.level, hs.distinct, fun r hr => ?_⟩
    obtain ⟨rec, hrec, hm⟩ := hs.record r hr
    exact ⟨rec, by rw [levelKey, get_pckcert_inert hb]; exact hrec, hm⟩
  records k rec hrec := by
    have hold : db[k]? = some (.pckcert rec) := by
      obtain ⟨hsame, _⟩ | ⟨w, hw, _, he⟩ := get_write_cases db batch k
      · rw [← hsame]; exact hrec
      · exact absurd (he.symm.trans hrec) ((hb w hw).noRecord rec)
    obtain ⟨hk, pool, hpool, ht⟩ := h.records k rec hold
    exact ⟨hk, pool, by rw [get_platform_inert hb]; exact hpool, ht⟩

theorem Coherent.inert_keeps (h : Coherent env db) (hb : ∀ w ∈ batch, Inert env w) :
    Keeps db (write db batch) := by
  intro k pool hpool
  obtain ⟨rfl, _⟩ := h.pools k pool hpool
  exact ⟨pool, by rw [get_platform_inert hb]; exact hpool, fun r hr => ⟨r, hr, SameLevel.refl r⟩⟩

end Inertness

section Publication

variable {env : Env} {db : Database}

/-- The key of a record of the pool is the key of a level only if it is of that
level. -/
theorem level_of_key (hinj : Function.Injective env.hash128Hex) {pool : PlatformPool} {r : RawTcb}
    {rec : PckCertRecord} (hpce : NoSlash pool.pceId) (hr : LevelOk r)
    (hrpce : NoSlash rec.pceid) (hcpu : NoSlash rec.cpusvn) (hsvn : NoSlash rec.pcesvn)
    (h : (putPckcert env rec).key = levelKey env pool r) :
    Same rec.qeid pool.qeId ∧ Same rec.pceid pool.pceId ∧ Same rec.cpusvn r.cpuSvn ∧
      Same rec.pcesvn r.pceSvn :=
  Keys.pckcert_inj hinj hrpce hcpu hsvn hpce hr.cpuNoSlash hr.pceNoSlash h

/-- What a publication for one platform writes: the records of some of its
levels, rows of other kinds, then the pool. -/
structure Publication (env : Env) (db : Database) where
  pool : PlatformPool
  recs : List PckCertRecord
  others : WriteBatch
  pceid : NoSlash pool.pceId
  level : ∀ r ∈ pool.rawTcbs, LevelOk r
  distinct : pool.rawTcbs.Pairwise fun r s => ¬ SameLevel r s
  ofPool : ∀ rec ∈ recs, Same rec.qeid pool.qeId ∧ Same rec.pceid pool.pceId ∧
    ∃ r ∈ pool.rawTcbs, Same rec.cpusvn r.cpuSvn ∧ Same rec.pcesvn r.pceSvn
  inert : ∀ w ∈ others, Inert env w
  /-- After the records are in, every listed level has its record. -/
  record : ∀ r ∈ pool.rawTcbs, ∃ rec,
    (write db (recs.map (putPckcert env)))[levelKey env pool r]? = some (.pckcert rec) ∧
    Matches pool r rec
  /-- No level of the stored pool is dropped. -/
  keeps : ∀ old, db[Keys.platform env pool.qeId pool.pceId]? = some (.platform old) →
    ∀ r ∈ old.rawTcbs, ∃ r' ∈ pool.rawTcbs, SameLevel r r'

namespace Publication

variable (p : Publication env db)

def batch : WriteBatch := p.recs.map (putPckcert env) ++ p.others ++ [putPlatformPool env p.pool]

def after : Database := write db p.batch

def key : List UInt8 := Keys.platform env p.pool.qeId p.pool.pceId

theorem recs_noSlash {rec : PckCertRecord} (h : rec ∈ p.recs) :
    NoSlash rec.pceid ∧ NoSlash rec.cpusvn ∧ NoSlash rec.pcesvn := by
  obtain ⟨_, hpce, r, hr, hcpu, hsvn⟩ := p.ofPool rec h
  have hl := p.level r hr
  exact ⟨(noSlash_congr hpce).mpr p.pceid, (noSlash_congr hcpu).mpr hl.cpuNoSlash,
    (noSlash_congr hsvn).mpr hl.pceNoSlash⟩

/-- The GET rows of the result are those of the records step. -/
theorem after_pckcert (qeid pceid cpusvn pcesvn : String) :
    p.after[Keys.pckcert env qeid pceid cpusvn pcesvn]? =
      (write db (p.recs.map (putPckcert env)))[Keys.pckcert env qeid pceid cpusvn pcesvn]? := by
  unfold after batch
  rw [List.append_assoc, write_append, get_write_of_ne]
  intro w hw
  rcases List.mem_append.mp hw with hw | hw
  · exact (p.inert w hw).notPckcert _ _ _ _
  · rw [List.mem_singleton.mp hw]
    exact (Keys.pckcert_ne_platform _ _ _ _ _ _).symm

theorem after_key : p.after[p.key]? = some (.platform p.pool) :=
  get_write_last db _ [] (putPlatformPool env p.pool) (by simp)

/-- The platform rows of the result: the published one and the others as they
were. -/
theorem after_platform {qeid pceid : String} (h : Keys.platform env qeid pceid ≠ p.key) :
    p.after[Keys.platform env qeid pceid]? = db[Keys.platform env qeid pceid]? := by
  unfold after batch
  apply get_write_of_ne
  intro w hw
  simp only [List.mem_append, List.mem_map, List.mem_singleton] at hw
  rcases hw with (⟨rec, _, rfl⟩ | hw) | rfl
  · exact Keys.pckcert_ne_platform _ _ _ _ _ _
  · exact (p.inert w hw).notPlatform _ _
  · exact h.symm

theorem pool_after {k : List UInt8} {pool : PlatformPool} (h : p.after[k]? = some (.platform pool)) :
    (k = p.key ∧ pool = p.pool) ∨ (k ≠ p.key ∧ db[k]? = some (.platform pool)) := by
  by_cases hk : k = p.key
  · subst hk
    rw [after_key] at h
    exact Or.inl ⟨rfl, by simpa using h.symm⟩
  · right
    refine ⟨hk, ?_⟩
    obtain ⟨hsame, _⟩ | ⟨w, hw, hwk, he⟩ := get_write_cases db p.batch k
    · rw [← hsame]; exact h
    · have he' := he.symm.trans h
      simp only [batch, List.mem_append, List.mem_map, List.mem_singleton] at hw
      rcases hw with (⟨rec, _, rfl⟩ | hw) | rfl
      · cases he'
      · exact absurd he' ((p.inert w hw).noPool _)
      · exact absurd hwk.symm hk

theorem record_after {k : List UInt8} {rec : PckCertRecord}
    (h : p.after[k]? = some (.pckcert rec)) :
    (rec ∈ p.recs ∧ k = (putPckcert env rec).key) ∨ db[k]? = some (.pckcert rec) := by
  obtain ⟨hsame, _⟩ | ⟨w, hw, hwk, he⟩ := get_write_cases db p.batch k
  · right; rw [← hsame]; exact h
  · have he' := he.symm.trans h
    simp only [batch, List.mem_append, List.mem_map, List.mem_singleton] at hw
    rcases hw with (⟨rec', hrec', rfl⟩ | hw) | rfl
    · cases he'
      exact Or.inl ⟨hrec', hwk.symm⟩
    · exact absurd he' ((p.inert w hw).noRecord _)
    · cases he'

theorem keeps_after (h : Coherent env db) : Keeps db p.after := by
  intro k pool hpool
  by_cases hk : k = p.key
  · subst hk
    exact ⟨p.pool, p.after_key, p.keeps pool hpool⟩
  · obtain ⟨rfl, _⟩ := h.pools k pool hpool
    exact ⟨pool, by rw [p.after_platform hk]; exact hpool, fun r hr => ⟨r, hr, SameLevel.refl r⟩⟩

/-- The published platform is served. -/
theorem served_pool : Served env p.after p.pool where
  pceid := p.pceid
  level := p.level
  distinct := p.distinct
  record r hr := by
    obtain ⟨rec, hrec, hm⟩ := p.record r hr
    exact ⟨rec, by rw [levelKey, p.after_pckcert]; exact hrec, hm⟩

/-- A platform under another key is served as before: no published record has
one of its keys. -/
theorem served_other (hinj : Function.Injective env.hash128Hex) {pool : PlatformPool}
    (h : Served env db pool) (hk : Keys.platform env pool.qeId pool.pceId ≠ p.key) :
    Served env p.after pool where
  pceid := h.pceid
  level := h.level
  distinct := h.distinct
  record r hr := by
    obtain ⟨rec, hrec, hm⟩ := h.record r hr
    refine ⟨rec, ?_, hm⟩
    rw [levelKey, p.after_pckcert, get_write_of_ne]
    · exact hrec
    · intro w hw he
      obtain ⟨rec', hrec', rfl⟩ := List.mem_map.mp hw
      obtain ⟨hn₁, hn₂, hn₃⟩ := p.recs_noSlash hrec'
      obtain ⟨hq, hp, _⟩ := level_of_key hinj h.pceid (h.level r hr) hn₁ hn₂ hn₃ he
      obtain ⟨hq', hp', _⟩ := p.ofPool rec' hrec'
      exact hk (Keys.platform_congr (hq.symm.trans hq') (hp.symm.trans hp'))

/-- A publication keeps the two views coherent. -/
theorem coherent_after (hinj : Function.Injective env.hash128Hex) (h : Coherent env db) :
    Coherent env p.after where
  pools k pool hpool := by
    obtain ⟨rfl, rfl⟩ | ⟨hk, hold⟩ := p.pool_after hpool
    · exact ⟨rfl, p.served_pool⟩
    · obtain ⟨rfl, hs⟩ := h.pools k pool hold
      exact ⟨rfl, p.served_other hinj hs hk⟩
  records k rec hrec := by
    obtain ⟨hmem, rfl⟩ | hold := p.record_after hrec
    · refine ⟨rfl, p.pool, ?_⟩
      obtain ⟨hq, hp, r, hr, hc, hs⟩ := p.ofPool rec hmem
      refine ⟨?_, hq.symm, hp.symm, r, hr, hc.symm, hs.symm⟩
      rw [Keys.platform_congr hq hp]
      exact p.after_key
    · obtain ⟨hkey, pool, hpool, hq, hp, r, hr, hc, hs⟩ := h.records k rec hold
      refine ⟨hkey, ?_⟩
      by_cases hk : Keys.platform env rec.qeid rec.pceid = p.key
      · -- the platform of the record is the published one, which keeps its levels
        have hslash : NoSlash rec.pceid :=
          (noSlash_congr hp).mp (h.pools _ pool hpool).2.pceid
        obtain ⟨hq', hp'⟩ := Keys.platform_inj hinj hslash p.pceid hk
        obtain ⟨r', hr', hl⟩ := p.keeps pool (by rw [← hpool, hk]; rfl) r hr
        refine ⟨p.pool, by rw [hk]; exact p.after_key, hq'.symm, hp'.symm, r', hr', ?_, ?_⟩
        · exact hl.1.symm.trans hc
        · exact hl.2.symm.trans hs
      · exact ⟨pool, by rw [p.after_platform hk]; exact hpool, hq, hp, r, hr, hc, hs⟩

end Publication

end Publication

section Building

variable {env : Env} {db : Database}

/-- What a pool serves does not depend on the levels it lists. -/
theorem Matches.withRaws {pool : PlatformPool} {r : RawTcb} {rec : PckCertRecord}
    (h : Matches pool r rec) (raws : List RawTcb) :
    Matches { pool with rawTcbs := raws } r rec :=
  ⟨h.qeid, h.pceid, h.cpusvn, h.pcesvn, h.tcbm, h.cert, h.fmspc, h.ca, h.issuerChain,
    h.encryptedPpid, h.platformManifest⟩

theorem eq_of_sameLevel {raws : List RawTcb} (hd : raws.Pairwise fun r s => ¬ SameLevel r s)
    {r s : RawTcb} (hr : r ∈ raws) (hs : s ∈ raws) (h : SameLevel r s) : r = s := by
  induction raws with
  | nil => cases hr
  | cons t rest ih =>
    obtain ⟨ht, hd⟩ := List.pairwise_cons.mp hd
    obtain rfl | hr' := List.mem_cons.mp hr
    · obtain rfl | hs' := List.mem_cons.mp hs
      · rfl
      · exact absurd h (ht s hs')
    · obtain rfl | hs' := List.mem_cons.mp hs
      · exact absurd h.symm (ht r hr')
      · exact ih hd hr' hs'

/-- If some record is written under a key and all that are have a property,
the row left there has it. -/
theorem row_of_writes {recs : List PckCertRecord} {k : List UInt8} {P : PckCertRecord → Prop}
    (hex : ∃ rec ∈ recs, (putPckcert env rec).key = k)
    (hall : ∀ rec ∈ recs, (putPckcert env rec).key = k → P rec) :
    ∃ rec, (write db (recs.map (putPckcert env)))[k]? = some (.pckcert rec) ∧ P rec := by
  obtain ⟨_, hne⟩ | ⟨w, hw, hk, he⟩ := get_write_cases db (recs.map (putPckcert env)) k
  · obtain ⟨rec, hrec, hk⟩ := hex
    exact absurd hk (hne _ (List.mem_map_of_mem hrec))
  · obtain ⟨rec, hrec, rfl⟩ := List.mem_map.mp hw
    exact ⟨rec, he, hall rec hrec hk⟩

/-- When each record serves a level and each level has a record, the rows they
leave serve the levels: levels are distinct, so no row is for another one. -/
theorem rows_of_records (hinj : Function.Injective env.hash128Hex) {pool : PlatformPool}
    {raws : List RawTcb} {recs : List PckCertRecord} (hslash : NoSlash pool.pceId)
    (hlevel : ∀ r ∈ raws, LevelOk r) (hdistinct : raws.Pairwise fun r s => ¬ SameLevel r s)
    (hrecs : ∀ rec ∈ recs, ∃ r ∈ raws, Matches pool r rec)
    (hall : ∀ r ∈ raws, ∃ rec ∈ recs, Matches pool r rec) :
    ∀ r ∈ raws, ∃ rec,
      (write db (recs.map (putPckcert env)))[levelKey env pool r]? = some (.pckcert rec) ∧
      Matches pool r rec := by
  intro r hr
  apply row_of_writes
  · obtain ⟨rec, hrec, hm⟩ := hall r hr
    exact ⟨rec, hrec, Keys.pckcert_congr hm.qeid hm.pceid hm.cpusvn hm.pcesvn⟩
  · intro rec hrec hkey
    obtain ⟨s, hs, hm⟩ := hrecs rec hrec
    have hl := hlevel s hs
    obtain ⟨_, _, hc, hp⟩ := level_of_key hinj hslash (hlevel r hr)
      ((noSlash_congr hm.pceid).mpr hslash) ((noSlash_congr hm.cpusvn).mpr hl.cpuNoSlash)
      ((noSlash_congr hm.pcesvn).mpr hl.pceNoSlash) hkey
    have hsr : s = r := eq_of_sameLevel hdistinct hs hr
      ⟨hm.cpusvn.symm.trans hc, hm.pcesvn.symm.trans hp⟩
    rw [← hsr]
    exact hm

/-- A publication from the levels a platform already lists, the records written
for them and possibly one more selected level. -/
def publicationOf (hinj : Function.Injective env.hash128Hex) (pool : PlatformPool)
    (raws : List RawTcb) (siblings : List PckCertRecord) (selected : Option PckCertRecord)
    (others : WriteBatch) (hslash : NoSlash pool.pceId) (hlevel : ∀ r ∈ raws, LevelOk r)
    (hdistinct : raws.Pairwise fun r s => ¬ SameLevel r s)
    (hsib : ∀ rec ∈ siblings, ∃ r ∈ raws, Matches pool r rec)
    (hrow : ∀ r ∈ raws, ∃ rec,
      (write db (siblings.map (putPckcert env)))[levelKey env pool r]? = some (.pckcert rec) ∧
      Matches pool r rec)
    (hsel : ∀ s ∈ selected, Matches pool (rawOf s) s ∧ LevelOk (rawOf s))
    (hinert : ∀ w ∈ others, Inert env w)
    (hkeeps : ∀ old, db[Keys.platform env pool.qeId pool.pceId]? = some (.platform old) →
      ∀ r ∈ old.rawTcbs, ∃ r' ∈ raws, SameLevel r r') : Publication env db where
  pool := { pool with rawTcbs := (selected.map rawOf).elim id upsertRaw raws }
  recs := siblings ++ selected.toList
  others := others
  pceid := hslash
  level r hr := by
    cases selected with
    | none => exact hlevel r hr
    | some s =>
      obtain rfl | ⟨hr, _⟩ := mem_upsertRaw hdistinct hr
      · exact (hsel s rfl).2
      · exact hlevel r hr
  distinct := by
    cases selected with
    | none => exact hdistinct
    | some s => exact upsertRaw_distinct _ hdistinct
  ofPool rec hrec := by
    rcases List.mem_append.mp hrec with hrec | hrec
    · obtain ⟨r, hr, hm⟩ := hsib rec hrec
      refine ⟨hm.qeid, hm.pceid, ?_⟩
      cases selected with
      | none => exact ⟨r, hr, hm.cpusvn, hm.pcesvn⟩
      | some s =>
        obtain ⟨r', hr', hs⟩ := upsertRaw_keeps (rawOf s) hr
        exact ⟨r', hr', hm.cpusvn.trans hs.1, hm.pcesvn.trans hs.2⟩
    · cases selected with
      | none => cases hrec
      | some s =>
        obtain rfl : rec = s := by simpa using hrec
        have hm := (hsel rec rfl).1
        exact ⟨hm.qeid, hm.pceid, rawOf rec, mem_upsertRaw_self _ _, hm.cpusvn, hm.pcesvn⟩
  inert := hinert
  record r hr := by
    cases selected with
    | none =>
      obtain ⟨rec, hrec, hm⟩ := hrow r hr
      refine ⟨rec, ?_, hm.withRaws _⟩
      rw [Option.toList_none, List.append_nil]
      exact hrec
    | some s =>
      obtain ⟨hm, hok⟩ := hsel s rfl
      have hkey : (putPckcert env s).key = levelKey env pool (rawOf s) :=
        Keys.pckcert_congr hm.qeid hm.pceid hm.cpusvn hm.pcesvn
      obtain rfl | ⟨hr, hne⟩ := mem_upsertRaw hdistinct hr
      · refine ⟨s, ?_, hm.withRaws _⟩
        have hlast := get_write_last db (siblings.map (putPckcert env)) [] (putPckcert env s) (by simp)
        rw [hkey] at hlast
        rw [Option.toList_some, List.map_append]
        exact hlast
      · obtain ⟨rec, hrec, hm'⟩ := hrow r hr
        refine ⟨rec, ?_, hm'.withRaws _⟩
        rw [List.map_append, write_append, get_write_of_ne]
        · exact hrec
        · intro w hw he
          simp only [Option.toList_some, List.map_cons, List.map_nil, List.mem_singleton] at hw
          subst hw
          rw [hkey] at he
          have hl := hlevel r hr
          obtain ⟨_, _, hc, hp⟩ := Keys.pckcert_inj hinj hslash hok.cpuNoSlash hok.pceNoSlash hslash
            hl.cpuNoSlash hl.pceNoSlash he
          exact hne ⟨hc.symm, hp.symm⟩
  keeps old hold r hr := by
    obtain ⟨r', hr', hs⟩ := hkeeps old hold r hr
    cases selected with
    | none => exact ⟨r', hr', hs⟩
    | some s =>
      obtain ⟨r'', hr'', hs'⟩ := upsertRaw_keeps (rawOf s) hr'
      exact ⟨r'', hr'', hs.trans hs'⟩

/-- With a separator-free PCEID the row under a platform key is the platform. -/
theorem Coherent.lookup (hinj : Function.Injective env.hash128Hex) (h : Coherent env db)
    {qeid pceid : String} (hs : NoSlash pceid) {old : PlatformPool}
    (hold : db[Keys.platform env qeid pceid]? = some (.platform old)) :
    getPlatformPool env db qeid pceid = some old := by
  obtain ⟨hkey, hserved⟩ := h.pools _ old hold
  obtain ⟨hq, hp⟩ := Keys.platform_inj hinj hs hserved.pceid hkey
  exact getPlatformPool_eq_some.mpr ⟨hold, hq.symm, hp.symm⟩

theorem Coherent.served (h : Coherent env db) {qeid pceid : String} {pool : PlatformPool}
    (hpool : getPlatformPool env db qeid pceid = some pool) : Served env db pool :=
  (h.pools _ pool (getPlatformPool_eq_some.mp hpool).1).2

end Building

end Pccs.Coherence
