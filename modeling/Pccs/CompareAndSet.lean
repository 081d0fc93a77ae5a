import Pccs.CertBounds
import Pccs.PlatformRuns

/-!
# Compare and set of platforms

Every fill reads what the store knows of a platform, asks the upstream, and then
publishes the answer in one step. Between the read and the step anything may
happen. The store is seen here as a map from platforms to pools: a publication
replaces one entry, only if the entry still is what the fill has read, and the
new entry is bound to the credentials that the answer was asked for with.
-/
namespace Pccs.Cache

open Text Json Fallible KeyValue Store Process Runs Coherence

section Platforms

variable {env : Env} {s s' : Database}

/-- Every pool is under the key of its platform. -/
def Placed (env : Env) (s : Database) : Prop :=
  ∀ (k : List UInt8) (pool : PlatformPool), s[k]? = some (.platform pool) →
    k = Keys.platform env pool.qeId pool.pceId ∧ NoSlash pool.pceId

/-- One platform has this pool, and the others have theirs. -/
structure Repools (env : Env) (s : Database) (qeid pceid : String) (pool : PlatformPool)
    (s' : Database) : Prop where
  own : ∀ q p, Same q qeid → Same p pceid → getPlatformPool env s' q p = some pool
  others : ∀ q p, ¬ (Same q qeid ∧ Same p pceid) →
    getPlatformPool env s' q p = getPlatformPool env s q p

/-- The credentials of every platform there is stay, up to letter case. -/
def CredentialsKept (env : Env) (s s' : Database) : Prop :=
  ∀ q p pool, getPlatformPool env s q p = some pool →
    ∃ pool', getPlatformPool env s' q p = some pool' ∧ Same pool'.encPpid pool.encPpid ∧
      pool'.platformManifest = pool.platformManifest

theorem getPlatformPool_congr {q p q' p' : String} (hq : Same q q') (hp : Same p p') :
    getPlatformPool env s q p = getPlatformPool env s q' p' := by
  apply Option.ext
  intro pool
  rw [getPlatformPool_eq_some, getPlatformPool_eq_some, Keys.platform_congr hq hp]
  constructor
  · exact fun ⟨hrow, hqe, hpce⟩ => ⟨hrow, hqe.trans hq, hpce.trans hp⟩
  · exact fun ⟨hrow, hqe, hpce⟩ => ⟨hrow, hqe.trans hq.symm, hpce.trans hp.symm⟩

theorem Repools.congr {q p q' p' : String} {pool : PlatformPool} (hq : Same q q') (hp : Same p p')
    (h : Repools env s q p pool s') : Repools env s q' p' pool s' where
  own a b ha hb := h.own a b (ha.trans hq.symm) (hb.trans hp.symm)
  others a b hab := h.others a b fun hids => hab ⟨hids.1.trans hq, hids.2.trans hp⟩

theorem CredentialsKept.of_eq (h : ∀ q p, getPlatformPool env s' q p = getPlatformPool env s q p) :
    CredentialsKept env s s' :=
  fun q p pool hpool => ⟨pool, (h q p).trans hpool, rfl, rfl⟩

theorem Repools.kept {qeid pceid : String} {pool : PlatformPool}
    (h : Repools env s qeid pceid pool s')
    (hown : ∀ old, getPlatformPool env s qeid pceid = some old →
      Same pool.encPpid old.encPpid ∧ pool.platformManifest = old.platformManifest) :
    CredentialsKept env s s' := by
  intro q p old hold
  by_cases hids : Same q qeid ∧ Same p pceid
  · rw [getPlatformPool_congr hids.1 hids.2] at hold
    exact ⟨pool, h.own q p hids.1 hids.2, hown old hold⟩
  · exact ⟨old, (h.others q p hids).trans hold, rfl, rfl⟩

theorem placed_write (hs : Placed env s) {batch : WriteBatch}
    (hb : ∀ k pool, .put k (.platform pool) ∈ batch →
      k = Keys.platform env pool.qeId pool.pceId ∧ NoSlash pool.pceId) :
    Placed env (write s batch) := by
  intro k pool hpool
  obtain hold | hput := get_write_some hpool
  · exact hs k pool hold
  · exact hb k pool hput

theorem Placed.ids (hinj : Function.Injective env.hash128Hex) (hs : Placed env s)
    {qeid pceid : String} (hslash : NoSlash pceid) {pool : PlatformPool}
    (h : s[Keys.platform env qeid pceid]? = some (.platform pool)) :
    Same qeid pool.qeId ∧ Same pceid pool.pceId := by
  obtain ⟨hkey, hname⟩ := hs _ pool h
  exact Keys.platform_inj hinj hslash hname hkey

/-- A write that neither is a pool nor stands in the place of one. -/
structure PoolFree (env : Env) (w : Write UInt8 Row) : Prop where
  elsewhere : ∀ q p, w.key ≠ Keys.platform env q p
  noPool : ∀ k pool, w ≠ .put k (.platform pool)

theorem poolFree_putPckcert (rec : PckCertRecord) : PoolFree env (putPckcert env rec) where
  elsewhere _ _ := Keys.pckcert_ne_platform _ _ _ _ _ _
  noPool := by simp [putPckcert]

theorem poolFree_putTcb (rec : TcbRecord) : PoolFree env (putTcb env rec) where
  elsewhere := (inert_putTcb env rec).notPlatform
  noPool := by simp [putTcb]

/-- A batch that ends with a pool and writes no other. -/
theorem repools_write (hinj : Function.Injective env.hash128Hex) (hs : Placed env s)
    (pool : PlatformPool) (hslash : NoSlash pool.pceId) {others : WriteBatch}
    (hothers : ∀ w ∈ others, PoolFree env w) :
    Placed env (write s (others ++ [putPlatformPool env pool])) ∧
      Repools env s pool.qeId pool.pceId pool (write s (others ++ [putPlatformPool env pool])) := by
  have hrow : (write s (others ++ [putPlatformPool env pool]))[Keys.platform env pool.qeId
      pool.pceId]? = some (.platform pool) :=
    get_write_last s others [] (putPlatformPool env pool) (by simp)
  refine ⟨placed_write hs fun k old hput => ?_, ?_, ?_⟩
  · obtain hput | hput := List.mem_append.mp hput
    · exact absurd rfl ((hothers _ hput).noPool k old)
    · cases List.mem_singleton.mp hput
      exact ⟨rfl, hslash⟩
  · intro q p hq hp
    refine getPlatformPool_eq_some.mpr ⟨?_, hq.symm, hp.symm⟩
    rw [Keys.platform_congr hq hp]
    exact hrow
  · intro q p hids
    by_cases hk : Keys.platform env q p = Keys.platform env pool.qeId pool.pceId
    · -- both read the row of the pool, and it answers for no other platform
      have hnone : ∀ d : Database, (∀ old, d[Keys.platform env q p]? = some (.platform old) →
          Same pool.qeId old.qeId ∧ Same pool.pceId old.pceId) → getPlatformPool env d q p = none := by
        intro d hd
        cases hget : getPlatformPool env d q p with
        | none => rfl
        | some old =>
          obtain ⟨hold, hq, hp⟩ := getPlatformPool_eq_some.mp hget
          obtain ⟨hqe, hpce⟩ := hd old hold
          exact absurd ⟨(hqe.trans hq).symm, (hpce.trans hp).symm⟩ hids
      rw [hnone s fun old hold => hs.ids hinj hslash (hk ▸ hold),
        hnone _ fun old hold => ?_]
      rw [hk, hrow] at hold
      cases hold
      exact ⟨rfl, rfl⟩
    · have hsame : (write s (others ++ [putPlatformPool env pool]))[Keys.platform env q p]? =
          s[Keys.platform env q p]? := by
        refine get_write_of_ne s _ _ fun w hw => ?_
        obtain hw | hw := List.mem_append.mp hw
        · exact (hothers w hw).elsewhere q p
        · cases List.mem_singleton.mp hw
          exact fun he => hk he.symm
      unfold getPlatformPool
      rw [hsame]

theorem untouched_pools (h : Untouched env s s') (q p : String) :
    getPlatformPool env s' q p = getPlatformPool env s q p := by
  obtain ⟨batch, rfl, hbatch⟩ := h
  unfold getPlatformPool
  rw [get_platform_inert hbatch]

theorem untouched_placed (hs : Placed env s) (h : Untouched env s s') : Placed env s' := by
  obtain ⟨batch, rfl, hbatch⟩ := h
  refine placed_write hs fun k pool hput => ?_
  exact absurd rfl ((hbatch _ hput).noPool pool)

end Platforms

section Publications

/-- What a fill expects of its platform it has read before it asked the upstream,
or it has read that the platform is not known. -/
inductive Observed (before : Past) (qeid pceid encPpid : String) : PlatformPublication → Prop
  | read (asked asked' : String) (current : Option PlatformPool)
      (h : ⟨.getPlatformPool asked asked', current⟩ ∈ before) (hqe : Same qeid asked)
      (hpce : Same pceid asked') :
      Observed before qeid pceid encPpid (.observed (current.map PlatformPool.credentials))
  | listed (pool : PlatformPool) (h : Listed before pool) (hqe : pool.qeId = qeid)
      (hpce : pool.pceId = pceid) :
      Observed before qeid pceid encPpid (.observed (some pool.credentials))
  | absent (h : ⟨.getPlatformPool qeid pceid, (none : Option PlatformPool)⟩ ∈ before) :
      Observed before qeid pceid encPpid (.absentGet encPpid "")

/-- The platform is as the fill has seen it. A GET that has seen none also takes
one that another fill has made with its PPID. -/
def Admits : PlatformPublication → Option PlatformPool → Prop
  | .observed expected, current => current.map PlatformPool.credentials = expected
  | .absentGet encPpid platformManifest, current => ∀ pool, current = some pool →
      Same pool.encPpid encPpid ∧ pool.platformManifest = platformManifest

/-- A failed publication changes nothing. A successful one has found the platform
as it was seen, and has given it a pool that is right. -/
def Swaps (env : Env) (s : Database) (qeid pceid : String) (publication : PlatformPublication)
    (right : PlatformPool → Prop) {α : Type} : Except PccsError α → Database → Prop
  | .error _, s' => s' = s
  | .ok _, s' => Admits publication (getPlatformPool env s qeid pceid) ∧
      ∃ pool, right pool ∧ Repools env s qeid pceid pool s'

/-- The answer is published under the credentials it was asked for with. -/
structure Replaces (env : Env) (past : Past) (s : Database) (qeid pceid encPpid
    platformManifest : String) (publication : PlatformPublication) {α : Type}
    (r : Except PccsError α) (s' : Database) : Prop where
  certs : ∃ before resp, Observed before qeid pceid encPpid publication ∧
    Answered env past before encPpid platformManifest pceid resp ∧
    Swaps env s qeid pceid publication (fun pool =>
      pool.credentials = ⟨toAsciiUppercase encPpid, platformManifest⟩ ∧
      pool.certs = resp.certs.map fun c => ⟨c.1, c.2⟩) r s'

/-- One certificate of a mirror joins the platform. The credentials stay; those
of a new platform are the ones that the mirror was told. -/
structure Joins (env : Env) (past : Past) (s : Database) (rec : PckCertRecord)
    (publication : PlatformPublication) (r : Except PccsError Unit) (s' : Database) : Prop where
  cert : ∃ before qeid cpusvn pcesvn pceid encPpid http,
    Observed before qeid pceid (encPpid.getD "") publication ∧
    Fetched past before (.pckcertPccs qeid cpusvn pcesvn pceid encPpid) http ∧
    parsePckcertPccs qeid cpusvn pcesvn pceid encPpid http = .ok rec ∧
    Swaps env s qeid pceid publication (fun pool =>
      pool.credentials = ((getPlatformPool env s qeid pceid).map PlatformPool.credentials).getD
        ⟨toAsciiUppercase (encPpid.getD ""), ""⟩ ∧
      ⟨rec.tcbm, rec.cert⟩ ∈ pool.certs) r s'

/-- What is guaranteed of the operation a request performs. -/
def Guarded (env : Env) (past : Past) (s : Database) : (o : Op) → o.Res → Database → Prop
  | .storePckcerts pceid context pool _ _ _, r, s' => ∃ qeid, Same pool.qeId qeid ∧
      Replaces env past s qeid pceid context.encPpid context.platformManifest context.publication r s'
  | .publishRefreshed fresh expected _, r, s' => ∃ seen : PlatformPool,
      Same fresh.qeId seen.qeId ∧ Same fresh.pceId seen.pceId ∧
      Replaces env past s seen.qeId seen.pceId seen.encPpid seen.platformManifest
        (.observed (some expected)) r s'
  | .mergePckcert rec publication, r, s' => Joins env past s rec publication r s'
  | _, _, _ => True

variable {env : Env} {cfg : Config} {s s' : Database}

theorem admits_of_matches {current : Option PlatformPool} {publication : PlatformPublication}
    (h : publicationMatches current publication = true) : Admits publication current := by
  cases publication with
  | observed expected => exact eq_of_beq h
  | absentGet encPpid manifest =>
    rintro pool rfl
    simpa [publicationMatches, Same] using h

theorem replace_repools (hinj : Function.Injective env.hash128Hex) (hs : Placed env s)
    {fresh : PlatformPool} {publication : PlatformPublication} {tcbs : List TcbRecord}
    {selected : Option PckCertRecord}
    {select : PlatformPool → RawTcb → Except PccsError PckCertRecord} {batch : WriteBatch}
    (h : replacePlatformCertsAfterFetch env s fresh publication tcbs selected select =
      .ok ((), batch)) (hslash : NoSlash fresh.pceId) :
    Placed env (write s batch) ∧ Admits publication (getPlatformPool env s fresh.qeId fresh.pceId) ∧
      ∃ rawTcbs, Repools env s fresh.qeId fresh.pceId { fresh with rawTcbs } (write s batch) := by
  obtain ⟨hmatches, _, recs, rawTcbs, rfl, _⟩ := replace_eq_ok h
  have hothers : ∀ w ∈ recs.map (putPckcert env) ++ tcbs.map (putTcb env), PoolFree env w := by
    intro w hw
    obtain hw | hw := List.mem_append.mp hw
    · obtain ⟨rec, _, rfl⟩ := List.mem_map.mp hw
      exact poolFree_putPckcert rec
    · obtain ⟨rec, _, rfl⟩ := List.mem_map.mp hw
      exact poolFree_putTcb rec
  obtain ⟨hplaced, hrepools⟩ := repools_write hinj hs { fresh with rawTcbs } hslash hothers
  exact ⟨hplaced, admits_of_matches hmatches, rawTcbs, hrepools⟩

theorem mergedPool_ids (rec : PckCertRecord) :
    Same (mergedPool (getPlatformPool env s rec.qeid rec.pceid) rec).qeId rec.qeid ∧
      Same (mergedPool (getPlatformPool env s rec.qeid rec.pceid) rec).pceId rec.pceid := by
  cases hpool : getPlatformPool env s rec.qeid rec.pceid with
  | none => exact ⟨rfl, rfl⟩
  | some pool =>
    obtain ⟨_, hqe, hpce⟩ := getPlatformPool_eq_some.mp hpool
    exact ⟨hqe, hpce⟩

theorem merge_repools (hinj : Function.Injective env.hash128Hex) (hs : Placed env s)
    {rec : PckCertRecord} {publication : PlatformPublication} {batch : WriteBatch}
    (h : mergePckcertAfterFetch env s rec publication = .ok ((), batch))
    (hslash : NoSlash rec.pceid) :
    Placed env (write s batch) ∧ Admits publication (getPlatformPool env s rec.qeid rec.pceid) ∧
      ∃ rawTcbs, Repools env s rec.qeid rec.pceid
        { mergedPool (getPlatformPool env s rec.qeid rec.pceid) rec with rawTcbs }
        (write s batch) := by
  obtain ⟨hmatches, recs, rawTcbs, rfl⟩ := merge_eq_ok h
  obtain ⟨hqe, hpce⟩ := @mergedPool_ids env s rec
  have hothers : ∀ w ∈ recs.map (putPckcert env), PoolFree env w := by
    intro w hw
    obtain ⟨rec', _, rfl⟩ := List.mem_map.mp hw
    exact poolFree_putPckcert rec'
  obtain ⟨hplaced, hrepools⟩ := repools_write hinj hs
    { mergedPool (getPlatformPool env s rec.qeid rec.pceid) rec with rawTcbs }
    ((noSlash_congr hpce).mpr hslash) hothers
  exact ⟨hplaced, admits_of_matches hmatches, rawTcbs, hrepools.congr hqe hpce⟩

theorem select_repools (hinj : Function.Injective env.hash128Hex) (hs : Placed env s)
    {qeid pceid : String} {select : PlatformPool → Except PccsError PckCertRecord}
    {rec : PckCertRecord} {batch : WriteBatch}
    (h : selectPlatformCert env s qeid pceid true select = .ok (rec, batch)) :
    Placed env (write s batch) ∧ ∃ pool rawTcbs, getPlatformPool env s qeid pceid = some pool ∧
      Repools env s qeid pceid { pool with rawTcbs } (write s batch) := by
  obtain ⟨pool, hpool, _, rfl⟩ := select_eq_ok h
  obtain ⟨hrow, hqe, hpce⟩ := getPlatformPool_eq_some.mp hpool
  obtain ⟨_, hslash⟩ := hs _ pool hrow
  obtain ⟨hplaced, hrepools⟩ := repools_write hinj hs
    { pool with rawTcbs := upsertRaw (rawOf rec) pool.rawTcbs } hslash
    (List.forall_mem_singleton.mpr (poolFree_putPckcert rec))
  rw [← Keys.platform_congr hqe hpce]
  exact ⟨hplaced, pool, _, hpool, hrepools.congr hqe hpce⟩

end Publications

section Fills

variable {env : Env} {cfg : Config} {s s' : Database} {past before : Past}

/-- A context expects what the request has read. -/
theorem Origin.observed {role : Role} {qeid pceid : String} {context : PckFetchContext}
    (h : Origin cfg before qeid pceid role context) :
    Observed before qeid pceid context.encPpid context.publication := by
  cases h with
  | get current encPpid h _ =>
    cases current with
    | none => exact .absent h
    | some pool => exact .read qeid pceid (some pool) h rfl rfl
  | refetch asked asked' pool h hq hp hqe hpce => exact .read asked asked' (some pool) h hqe hpce
  | register current encPpid manifest h =>
    have hobserved : (⟨encPpid, manifest, current.map PlatformPool.credentials, false⟩ :
        PckFetchContext).publication = .observed (current.map PlatformPool.credentials) := by
      simp [PckFetchContext.publication]
    rw [hobserved]
    exact .read qeid pceid current h rfl rfl

theorem Merged.observed {role : Role} {qeid pceid : String} {encPpid : Option String}
    {publication : PlatformPublication} (h : Merged cfg before qeid pceid role encPpid publication) :
    Observed before qeid pceid (encPpid.getD "") publication := by
  cases h with
  | @fill _ context h =>
    have hppid : (toldPpid context.encPpid).getD "" = context.encPpid := by
      unfold toldPpid
      split
      · rename_i hempty
        exact hempty.symm
      · rfl
    rw [hppid]
    exact h.observed
  | refresh pool h hq hp => exact .listed pool h hq hp

/-- A refresh replaces the certificates and nothing else. -/
theorem publishRefreshed_eq_ok {fresh : PlatformPool} {expected : PlatformCredentials}
    {tcb : TcbRecord} {u : Unit} {batch : WriteBatch}
    (h : publishRefreshed env s fresh expected tcb = .ok (u, batch)) :
    replacePlatformCertsAfterFetch env s fresh (.observed (some expected)) [] none
      (fun fresh raw => selectFromPoolWithTcb fresh raw.cpuSvn raw.pceSvn fresh.pceId tcb) =
        .ok ((), batch) := h

theorem store_swaps (hinj : Function.Injective env.hash128Hex) (hs : Placed env s)
    {qeid pceid : String} {context : PckFetchContext} {pool : PlatformPool}
    {resp : PckCertsResponse} {tcbs : List TcbRecord} {requested : Option (String × String)}
    {r : Except PccsError (Option PckCertRecord)} (hslash : NoSlash pceid)
    (hpool : pckcertPool qeid pceid context.encPpid context.platformManifest resp = .ok pool)
    (h : perform env cfg s (.storePckcerts pceid context pool resp tcbs requested) r s') :
    Placed env s' ∧ Swaps env s qeid pceid context.publication (fun pool =>
      pool.credentials = ⟨toAsciiUppercase context.encPpid, context.platformManifest⟩ ∧
      pool.certs = resp.certs.map fun c => ⟨c.1, c.2⟩) r s' := by
  obtain ⟨_, rfl⟩ := pckcertPool_eq_ok hpool
  have hqe : Same (toAsciiUppercase qeid) qeid := (same_uppercase qeid).symm
  have hpce : Same (toAsciiUppercase pceid) pceid := (same_uppercase pceid).symm
  obtain ⟨e, _, rfl, rfl⟩ | ⟨found, batch, hok, rfl, rfl⟩ := commit_cases h
  · exact ⟨hs, rfl⟩
  · obtain ⟨tcb, _, hreplace⟩ := storePckcerts_eq_ok hok
    obtain ⟨hplaced, hadmits, rawTcbs, hrepools⟩ :=
      replace_repools hinj hs hreplace ((noSlash_congr hpce).mpr hslash)
    rw [getPlatformPool_congr hqe hpce] at hadmits
    refine ⟨hplaced, hadmits, _, ?_, hrepools.congr hqe hpce⟩
    exact ⟨rfl, rfl⟩

theorem refreshed_swaps (hinj : Function.Injective env.hash128Hex) (hs : Placed env s)
    {seen fresh : PlatformPool} {resp : PckCertsResponse} {tcb : TcbRecord}
    {r : Except PccsError Unit} (hslash : NoSlash seen.pceId)
    (hpool : pckcertPool seen.qeId seen.pceId seen.encPpid seen.platformManifest resp = .ok fresh)
    (h : (r, s') = commit s (publishRefreshed env s fresh seen.credentials tcb)) :
    Placed env s' ∧ Swaps env s seen.qeId seen.pceId (.observed (some seen.credentials))
      (fun pool => pool.credentials = ⟨toAsciiUppercase seen.encPpid, seen.platformManifest⟩ ∧
        pool.certs = resp.certs.map fun c => ⟨c.1, c.2⟩) r s' := by
  obtain ⟨_, rfl⟩ := pckcertPool_eq_ok hpool
  have hqe : Same (toAsciiUppercase seen.qeId) seen.qeId := (same_uppercase _).symm
  have hpce : Same (toAsciiUppercase seen.pceId) seen.pceId := (same_uppercase _).symm
  obtain ⟨e, _, rfl, rfl⟩ | ⟨u, batch, hok, rfl, rfl⟩ := commit_cases h
  · exact ⟨hs, rfl⟩
  · obtain ⟨hplaced, hadmits, rawTcbs, hrepools⟩ :=
      replace_repools hinj hs (publishRefreshed_eq_ok hok) ((noSlash_congr hpce).mpr hslash)
    rw [getPlatformPool_congr hqe hpce] at hadmits
    refine ⟨hplaced, hadmits, _, ?_, hrepools.congr hqe hpce⟩
    exact ⟨rfl, rfl⟩

theorem merge_swaps (hinj : Function.Injective env.hash128Hex) (hs : Placed env s)
    {qeid cpusvn pcesvn pceid : String} {encPpid : Option String} {http : HttpResponse}
    {rec : PckCertRecord} {publication : PlatformPublication} {r : Except PccsError Unit}
    (hslash : NoSlash pceid)
    (hrec : parsePckcertPccs qeid cpusvn pcesvn pceid encPpid http = .ok rec)
    (h : (r, s') = commit s (mergePckcertAfterFetch env s rec publication)) :
    Placed env s' ∧ Swaps env s qeid pceid publication (fun pool =>
      pool.credentials = ((getPlatformPool env s qeid pceid).map PlatformPool.credentials).getD
        ⟨toAsciiUppercase (encPpid.getD ""), ""⟩ ∧
      ⟨rec.tcbm, rec.cert⟩ ∈ pool.certs) r s' := by
  obtain ⟨hqe, hpce, hmanifest⟩ := parsePckcertPccs_platform hrec
  have hppid : rec.encryptedPpid = encPpid.map toAsciiUppercase := by
    obtain ⟨_, _, hret⟩ := bind_eq_ok.mp hrec
    rw [← pure_eq_ok.mp hret]
  obtain ⟨e, _, rfl, rfl⟩ | ⟨u, batch, hok, rfl, rfl⟩ := commit_cases h
  · exact ⟨hs, rfl⟩
  · obtain ⟨hplaced, hadmits, rawTcbs, hrepools⟩ :=
      merge_repools hinj hs hok ((noSlash_congr hpce).mpr hslash)
    rw [getPlatformPool_congr hqe hpce] at hadmits hrepools
    refine ⟨hplaced, hadmits, _, ⟨?_, mem_upsertCert_self _ _⟩, hrepools.congr hqe hpce⟩
    cases getPlatformPool env s qeid pceid with
    | some pool => rfl
    | none =>
      simp only [mergedPool, PlatformPool.credentials, hppid, hmanifest]
      cases encPpid <;> rfl

/-- A publication under the credentials that it expects changes none. -/
theorem swaps_kept {qeid pceid encPpid manifest : String} {publication : PlatformPublication}
    {right : PlatformPool → Prop} {α : Type} {r : Except PccsError α}
    (hright : ∀ pool, right pool → pool.credentials = ⟨toAsciiUppercase encPpid, manifest⟩)
    (hseen : publication = .absentGet encPpid manifest ∨
      publication = .observed (some ⟨encPpid, manifest⟩))
    (h : Swaps env s qeid pceid publication right r s') : CredentialsKept env s s' := by
  cases r with
  | error e =>
    cases h
    exact .of_eq fun _ _ => rfl
  | ok a =>
    obtain ⟨hadmits, pool, hpool, hrepools⟩ := h
    have hown : pool.encPpid = toAsciiUppercase encPpid ∧ pool.platformManifest = manifest := by
      have hcredentials := hright pool hpool
      rw [PlatformPool.credentials, PlatformCredentials.mk.injEq] at hcredentials
      exact hcredentials
    have hupper : Same (toAsciiUppercase encPpid) encPpid := (same_uppercase encPpid).symm
    refine hrepools.kept fun old hold => ?_
    rw [hown.1, hown.2]
    obtain rfl | rfl := hseen
    · obtain ⟨hppid, hmanifest⟩ := hadmits old hold
      exact ⟨hupper.trans hppid.symm, hmanifest.symm⟩
    · have hsame : old.credentials = ⟨encPpid, manifest⟩ := by
        rw [Admits, hold] at hadmits
        exact Option.some.inj hadmits
      rw [PlatformPool.credentials, PlatformCredentials.mk.injEq] at hsame
      rw [hsame.1, hsame.2]
      exact ⟨hupper, rfl⟩

/-- A merge leaves the credentials there are. -/
theorem merged_kept {qeid pceid : String} {publication : PlatformPublication}
    {fresh : PlatformCredentials} {cert : PlatformCert} {r : Except PccsError Unit}
    (h : Swaps env s qeid pceid publication (fun pool =>
      pool.credentials = ((getPlatformPool env s qeid pceid).map PlatformPool.credentials).getD
        fresh ∧ cert ∈ pool.certs) r s') : CredentialsKept env s s' := by
  cases r with
  | error e =>
    cases h
    exact .of_eq fun _ _ => rfl
  | ok a =>
    obtain ⟨_, pool, ⟨hcredentials, _⟩, hrepools⟩ := h
    refine hrepools.kept fun old hold => ?_
    have hsame : pool.credentials = old.credentials := by
      rw [hcredentials, hold]
      rfl
    rw [PlatformPool.credentials, PlatformPool.credentials, PlatformCredentials.mk.injEq] at hsame
    rw [hsame.1, hsame.2]
    exact ⟨rfl, rfl⟩

/-- A certificate is returned for the level that was asked for. -/
theorem store_requested {pceid : String} {context : PckFetchContext} {pool : PlatformPool}
    {resp : PckCertsResponse} {tcbs : List TcbRecord} {requested : Option (String × String)}
    {rec : PckCertRecord} (h : perform env cfg s
      (.storePckcerts pceid context pool resp tcbs requested) (.ok (some rec)) s') :
    ∃ level, level ∈ requested := by
  obtain ⟨e, _, herror, _⟩ | ⟨found, batch, hok, hfound, _⟩ := commit_cases h
  · cases herror
  · cases hfound
    obtain ⟨tcb, hstage, _⟩ := storePckcerts_eq_ok hok
    obtain ⟨_, _, hselected⟩ := stagePckcerts_eq_ok hstage
    obtain ⟨level, hlevel, _⟩ := hselected rec rfl
    exact ⟨level, hlevel⟩

/-- A body names its platforms by hexadecimal PCE IDs. -/
theorem platforms_placed (hs : Placed env s) {body : Value} {version : Nat}
    {r : Except PccsError Unit} (hschema : Validate.platformCollateral body version = .ok ())
    (h : (r, s') = commit s
      ((Collateral.platformWrites env s body version).map fun batch => ((), batch))) :
    Placed env s' := by
  obtain rfl | ⟨batch, hok, rfl⟩ := platforms_cases h
  · exact hs
  · refine placed_write hs fun k pool hput => ?_
    obtain ⟨pc, hpc, info, tcbInfo, selected, _, _, _, hrow⟩ := put_of_platforms hok hput
    obtain ⟨_, _, hrec⟩ | ⟨hkey, hpool⟩ := hrow
    · cases hrec
    · cases hpool
      refine ⟨hkey, ?_⟩
      obtain ⟨col, pcs, hcol, hpcs, hchecked⟩ := Validate.platformCollateral_pckCerts hschema
      have hentries : Collateral.arrayMember (Collateral.collaterals body) "pck_certs" = pcs := by
        simp [Collateral.arrayMember, Collateral.collaterals, hcol, hpcs]
      rw [hentries] at hpc
      have hslash := pceIdOf_noSlash (hchecked pc hpc)
      obtain ⟨_, hpce⟩ := basePool_ids env s pc
      rw [entryPool_pceId]
      exact (noSlash_congr hpce).mp hslash

/-- What a GET expects is what it fetches for. -/
theorem Origin.seen {qeid pceid : String} {context : PckFetchContext}
    (h : Origin cfg before qeid pceid .get context)
    (hsource : cfg.isIntel = true ∨ context.platformManifest ≠ "") :
    context.publication = .absentGet context.encPpid context.platformManifest ∨
      context.publication = .observed (some ⟨context.encPpid, context.platformManifest⟩) := by
  cases h with
  | get current encPpid _ hnew =>
    obtain hintel | hmanifest := hsource
    · rw [hnew hintel]
      exact .inl rfl
    · exact absurd rfl hmanifest
  | refetch => exact .inr rfl

theorem Guarded.mono {past' : Past} (hsub : past.Sublist past') {o : Op} {r : o.Res}
    (h : Guarded env past s o r s') : Guarded env past' s o r s' := by
  cases o with
  | storePckcerts pceid context pool resp tcbs requested =>
    obtain ⟨qeid, hqe, ⟨before, resp, hseen, hanswer, hswaps⟩⟩ := h
    exact ⟨qeid, hqe, ⟨before, resp, hseen, hanswer.mono hsub, hswaps⟩⟩
  | publishRefreshed fresh expected tcb =>
    obtain ⟨seen, hqe, hpce, ⟨before, resp, hseen, hanswer, hswaps⟩⟩ := h
    exact ⟨seen, hqe, hpce, ⟨before, resp, hseen, hanswer.mono hsub, hswaps⟩⟩
  | mergePckcert rec publication =>
    obtain ⟨before, qeid, cpusvn, pcesvn, pceid, encPpid, http, hseen, hfetched, hrest⟩ := h
    exact ⟨before, qeid, cpusvn, pcesvn, pceid, encPpid, http, hseen, hfetched.mono hsub, hrest⟩
  | _ => trivial

end Fills

section Runs

variable {env : Env} {chrono : Ocsp.Chrono} {cfg : Config}

/-- Every publication is a compare and set, and a GET changes no credentials. -/
def casPolicy (env : Env) (cfg : Config) : Policy env cfg where
  performs := perform env cfg
  performed h := h
  inv := Placed env
  name := NoSlash
  good _ _ _ _ _ := True
  guar role past s o r s' := Guarded env past s o r s' ∧ (role = .get → CredentialsKept env s s')

theorem casPolicy_duties (hinj : Function.Injective env.hash128Hex) :
    Duties (casPolicy env cfg) where
  name_congr _ _ hsame hname := (noSlash_congr hsame).mp hname
  good_congr _ _ _ _ _ _ _ _ _ _ := trivial
  mono _ _ _ _ _ _ _ hsub h := ⟨h.1.mono hsub, h.2⟩
  listed s pool hs hpool := by
    obtain ⟨k, hrow⟩ := PlatformRuns.mem_listPlatformPools hpool
    exact (hs k pool hrow).2
  hit _ _ _ _ _ _ _ _ := trivial
  untouched role past s o r s' ho hs h := by
    refine ⟨untouched_placed hs h, ?_, fun _ => .of_eq (untouched_pools h)⟩
    cases o with
    | storePckcerts => cases ho
    | publishRefreshed => cases ho
    | mergePckcert => cases ho
    | _ => trivial
  select role past s r s' qeid pceid cpusvn pcesvn hs _ h := by
    obtain ⟨e, _, rfl, rfl⟩ | ⟨rec, batch, hok, rfl, rfl⟩ := commit_cases h
    · exact ⟨hs, ⟨trivial, fun _ => .of_eq fun _ _ => rfl⟩, fun _ _ => trivial⟩
    · obtain ⟨hplaced, pool, rawTcbs, hpool, hrepools⟩ := select_repools hinj hs hok
      refine ⟨hplaced, ⟨trivial, fun _ => hrepools.kept fun old hold => ?_⟩, fun _ _ => trivial⟩
      cases hpool.symm.trans hold
      exact ⟨rfl, rfl⟩
  store role past before s r s' qeid pceid context pool resp tcbs requested hs hslash horigin hsource
      hresp hpool h := by
    obtain ⟨hplaced, hswaps⟩ := store_swaps hinj hs hslash hpool h
    obtain ⟨_, hids⟩ := pckcertPool_eq_ok hpool
    have hqe : Same pool.qeId qeid := by
      rw [hids]
      exact (same_uppercase qeid).symm
    refine ⟨hplaced, ⟨⟨qeid, hqe, ⟨before, resp, horigin.observed, hresp, ?_⟩⟩, ?_⟩, ?_⟩
    · exact hswaps
    · rintro rfl
      exact swaps_kept (fun pool hpool => hpool.1) (horigin.seen hsource) hswaps
    · intro rec hr
      obtain ⟨level, hlevel⟩ := store_requested (hr ▸ h)
      exact ⟨level, hlevel, trivial⟩
  refreshed past before s r s' pool resp fresh tcb hs hslash hlisted hresp hpool h := by
    obtain ⟨hplaced, hswaps⟩ := refreshed_swaps hinj hs hslash hpool h
    obtain ⟨_, rfl⟩ := pckcertPool_eq_ok hpool
    have hseen : Observed before pool.qeId pool.pceId pool.encPpid
        (.observed (some pool.credentials)) := .listed pool hlisted rfl rfl
    exact ⟨hplaced, ⟨pool, (same_uppercase _).symm, (same_uppercase _).symm,
      ⟨before, resp, hseen, hresp, hswaps⟩⟩, nofun⟩
  merge _ role past before s r s' qeid cpusvn pcesvn pceid encPpid http rec publication hs hslash
      horigin hfetched hrec h := by
    obtain ⟨hplaced, hswaps⟩ := merge_swaps hinj hs hslash hrec h
    exact ⟨hplaced, ⟨before, qeid, cpusvn, pcesvn, pceid, encPpid, http, horigin.observed, hfetched,
      hrec, hswaps⟩, fun _ => merged_kept hswaps⟩
  mirror _ _ _ _ _ _ := trivial
  platforms past s r s' body version hs hschema h := ⟨platforms_placed hs hschema h, trivial, nofun⟩

/-- Requests as the handlers make them. -/
def Request.Checked : Request → Prop
  | .getPckcert q _ => ∃ params, Validate.pckcertQuery params = .ok q
  | .registerPlatform p _ => ∃ body reg, Validate.platformReg body = .ok reg ∧ p = Manifests.posted reg
  | .refresh _ _ => True
  | .scheduledRefresh => True
  | .putPlatformCollateral _ _ => True
  | _ => False

theorem Request.Checked.onPlatforms {q : Request} (h : q.Checked) : q.OnPlatforms NoSlash := by
  cases q with
  | getPckcert q version =>
    obtain ⟨params, hq⟩ := h
    exact Validate.noSlash_of_isHex (Validate.pckcertQuery_hex hq).2.2
  | registerPlatform p update =>
    obtain ⟨body, reg, hreg, rfl⟩ := h
    exact Validate.noSlash_of_isHex (Validate.platformReg_hex hreg).1
  | refresh typ fmspc => trivial
  | scheduledRefresh => trivial
  | putPlatformCollateral body version => trivial
  | _ => cases h

/-- In every run of any number of requests, from any store with its pools in their
places: whatever a request does next, a publication finds its platform as the
request has seen it before it asked the upstream, or changes nothing; the pool it
leaves is of the credentials the answer was asked for with; and no GET changes
the credentials of a platform. -/
theorem compare_and_set (hinj : Function.Injective env.hash128Hex)
    {c : Process.Config (cacheSystem env chrono cfg Request.Checked)}
    (h : Reachable (fun c => Placed env c.state ∧ c.threads = []) Process.Step c)
    {t : Process.Thread (cacheSystem env chrono cfg Request.Checked)} (ht : t ∈ c.threads) {o : Op}
    {k : o.Res → Action t.request.Reply} (htodo : t.todo = .op o k) {r : o.Res} {s' : Database}
    (hr : perform env cfg c.state o r s') :
    Guarded env t.past c.state o r s' ∧
      (t.request.role = .get → CredentialsKept env c.state s') := by
  obtain ⟨hplaced, hsafe⟩ := sound_of_duties (P := casPolicy env cfg) (casPolicy_duties hinj)
    (fun _ hq => Request.Checked.onPlatforms hq) (fun _ hstart => hstart) h
  have hthread := hsafe t ht
  rw [htodo] at hthread
  obtain ⟨_, hguar, _⟩ := hthread c.state r s' hplaced hr
  exact hguar.2

theorem asBytes_letters (n : Nat) :
    asBytes (String.ofList (List.replicate n 'A')) = List.replicate n 65 := by
  have hletter : String.utf8EncodeChar 'A' = [65] := by decide
  rw [asBytes_eq, String.toList_ofList]
  induction n with
  | zero => rfl
  | succ n ih => rw [List.replicate_succ, List.flatMap_cons, ih, hletter]; rfl

theorem isHex_somePpid : Validate.isHex somePpid 768 = true := by
  unfold somePpid
  have hdigit : (Encoding.hexValue 65).isSome = true := rfl
  rw [Validate.isHex, byteLen, asBytes_letters, List.length_replicate, Bool.and_eq_true]
  refine ⟨by decide, List.all_eq_true.mpr fun b hb => ?_⟩
  rw [List.eq_of_mem_replicate hb]
  exact hdigit

/-- The GET of an unknown platform, from its parameters. -/
theorem newQuery_checked : Request.Checked (.getPckcert newQuery 4) := by
  refine ⟨fun name => [("qeid", "A1"), ("cpusvn", newQuery.cpusvn), ("pcesvn", "0500"),
    ("pceid", "0000"), ("encrypted_ppid", somePpid)].lookup name, ?_⟩
  have hppid : Validate.encryptedPpid (some somePpid) = .ok (some somePpid) := by
    have hvalid : Validate.requireHex (some somePpid) "encrypted ppid" 768 = .ok somePpid := by
      refine bind_eq_ok.mpr ⟨somePpid, require_eq_ok.mpr (by simp [somePpid_ne]), ?_⟩
      refine bind_eq_ok.mpr ⟨(), reject_eq_ok.mpr (by simp [isHex_somePpid]), ?_⟩
      rw [somePpid_upper]
      rfl
    simp only [Validate.encryptedPpid, hvalid]
    rfl
  refine bind_eq_ok.mpr ⟨"A1", by decide +kernel, ?_⟩
  refine bind_eq_ok.mpr ⟨newQuery.cpusvn, by decide +kernel, ?_⟩
  refine bind_eq_ok.mpr ⟨"0500", by decide +kernel, bind_eq_ok.mpr ⟨"0000", by decide +kernel, ?_⟩⟩
  exact bind_eq_ok.mpr ⟨some somePpid, hppid, rfl⟩

/-- The GET that fills an unknown platform is about to publish its answer. -/
theorem compare_and_set_newStore : ∃ past rec s',
    perform answersEnv lazyCfg ∅ newStore (.ok (some rec)) s' ∧
      Guarded answersEnv past ∅ newStore (.ok (some rec)) s' := by
  obtain ⟨past, c, ⟨hempty, hthreads⟩, hrun⟩ := reachable_beforeStore Ocsp.noon newQuery_checked
  have hplaced : Placed answersEnv c.state := by
    intro k pool hrow
    simp [hempty] at hrow
  have hinj : Function.Injective answersEnv.hash128Hex := Keys.plainEnv_injective
  obtain ⟨rec, s', hperform⟩ := perform_newStore
  have hreach : Reachable (fun c => Placed answersEnv c.state ∧ c.threads = []) Process.Step
    (beforeStore Ocsp.noon Request.Checked past) := ⟨c, ⟨hplaced, hthreads⟩, hrun⟩
  have hguarded := compare_and_set hinj hreach List.mem_cons_self rfl hperform
  exact ⟨past, rec, s', hperform, hguarded.1⟩

end Runs

end Pccs.Cache
