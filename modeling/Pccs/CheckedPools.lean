import Pccs.PoolValidity

/-!
# Pools that are checked before they are published

A fill checks every certificate of its answer against the PCE and the FMSPC of
the pool, whatever levels there are. A refresh and a PUT check what a selection
checks: they select once for each level, so for a platform without levels they
publish certificates that nobody has read, and a refresh compares these with the
FMSPC of its TCB info, not with that of the pool. As long as every publication
selects, and with the FMSPC of the pool, every pool is checked.
-/
namespace Pccs.Cache

open Text Json Fallible KeyValue Store Selection Process Runs Coherence

/-- All certificates are version 3 PCK certificates of one platform, and of the
PCE and the FMSPC of the pool. -/
structure OwnCerts (pool : PlatformPool) : Prop where
  parses : ∀ c ∈ pool.certs, ∃ info, PckCert.parsePckCert c.cert = .ok info ∧
    info.version = pckCertVersion ∧ Same info.pceId pool.pceId ∧ Same info.fmspc pool.fmspc
  onePpid : ∃ ppid, ∀ c ∈ pool.certs, ∀ info, PckCert.parsePckCert c.cert = .ok info →
    info.ppid = ppid

def RowOwn : Row → Prop
  | .platform pool => OwnCerts pool
  | _ => True

/-- A publication selects from what it publishes: a refresh that finds its platform
as it was listed finds a level there, and its TCB info is of the FMSPC of the fresh
pool; every entry of a PUT has a level, of the body or of its platform. -/
def Selects (env : Env) (s : Database) : Op → Prop
  | .publishRefreshed fresh expected tcb =>
      (getPlatformPool env s fresh.qeId fresh.pceId).map PlatformPool.credentials = some expected →
        tracked env s fresh.qeId fresh.pceId ≠ [] ∧
          ∀ fmspc, infoFmspc (innerInfo tcb) = some fmspc → Same fmspc fresh.fmspc
  | .putPlatforms body _ =>
    ∀ pc ∈ Collateral.arrayMember (Collateral.collaterals body) "pck_certs",
      Collateral.entryLevels env s body pc ≠ []
  | _ => True

section Writers

variable {env : Env} {cfg : Config} {s s' : Database}

theorem own_of_checked {pool : PlatformPool} {pceid fmspc : String} (hpce : Same pool.pceId pceid)
    (hfmspc : Same fmspc pool.fmspc) (h : PoolChecked pceid fmspc pool.certPairs) :
    OwnCerts pool := by
  have hpair : ∀ c ∈ pool.certs, (c.tcbm, c.cert) ∈ pool.certPairs :=
    fun c hc => List.mem_map.mpr ⟨c, hc, rfl⟩
  constructor
  · intro c hc
    obtain ⟨info, hinfo, hversion, hpceId, hcert⟩ := h.parses _ (hpair c hc)
    refine ⟨info, hinfo, hversion, ?_, ?_⟩
    · rw [hpceId]
      exact (same_uppercase pceid).symm.trans hpce.symm
    · rw [hcert]
      exact (same_uppercase fmspc).symm.trans hfmspc
  · obtain ⟨ppid, hppid⟩ := h.onePpid
    exact ⟨ppid, fun c hc info hinfo => hppid _ (hpair c hc) info hinfo⟩

theorem OwnCerts.relevel {pool : PlatformPool} (h : OwnCerts pool) (rawTcbs : List RawTcb) :
    OwnCerts { pool with rawTcbs } :=
  ⟨h.parses, h.onePpid⟩

theorem select_own (hs : Every RowOwn s) {r : Except PccsError PckCertRecord}
    {qeid pceid cpusvn pcesvn : String}
    (h : perform env cfg s (.selectPlatformCert qeid pceid cpusvn pcesvn) r s') :
    Every RowOwn s' := by
  obtain ⟨e, _, _, rfl⟩ | ⟨rec, batch, hok, _, rfl⟩ := commit_cases h
  · exact hs
  · obtain ⟨pool, hpool, _, rfl⟩ := select_eq_ok hok
    obtain ⟨hrow, _⟩ := getPlatformPool_eq_some.mp hpool
    have hown : OwnCerts pool := hs _ _ hrow
    refine hs.write fun k row hput => ?_
    obtain he | he := List.mem_pair.mp hput
    · cases he
      trivial
    · cases he
      exact hown.relevel _

/-- A replacement publishes the certificates of its fresh pool. -/
theorem replace_own (hs : Every RowOwn s) {fresh : PlatformPool}
    {publication : PlatformPublication} {tcbs : List TcbRecord} {selected : Option PckCertRecord}
    {select : PlatformPool → RawTcb → Except PccsError PckCertRecord} {batch : WriteBatch}
    (hfresh : OwnCerts fresh)
    (h : replacePlatformCertsAfterFetch env s fresh publication tcbs selected select =
      .ok ((), batch)) : Every RowOwn (write s batch) := by
  obtain ⟨_, _, recs, rawTcbs, rfl, _⟩ := replace_eq_ok h
  refine hs.write fun k row hput => ?_
  obtain ⟨rec, _, rfl⟩ | ⟨rec, rfl⟩ | ⟨_, rfl⟩ := put_of_publication hput
  · trivial
  · trivial
  · exact hfresh.relevel rawTcbs

/-- A fill checks its answer whether or not there is a level. -/
theorem store_own (hs : Every RowOwn s) {qeid pceid : String} {context : PckFetchContext}
    {pool : PlatformPool} {resp : PckCertsResponse} {tcbs : List TcbRecord}
    {requested : Option (String × String)} {r : Except PccsError (Option PckCertRecord)}
    (hpool : pckcertPool qeid pceid context.encPpid context.platformManifest resp = .ok pool)
    (h : perform env cfg s (.storePckcerts pceid context pool resp tcbs requested) r s') :
    Every RowOwn s' := by
  obtain ⟨e, _, _, rfl⟩ | ⟨found, batch, hok, _, rfl⟩ := commit_cases h
  · exact hs
  · obtain ⟨tcb, hstage, hreplace⟩ := storePckcerts_eq_ok hok
    obtain ⟨fmspc, hfmspc, hchecked⟩ := stagePckcerts_checked hstage
    have hpce : Same pool.pceId pceid := by
      rw [(pckcertPool_eq_ok hpool).2]
      exact (same_uppercase pceid).symm
    exact replace_own hs (own_of_checked hpce hfmspc hchecked) hreplace

/-- One tracked level is enough for a refresh to check its answer. -/
theorem refreshed_own (hs : Every RowOwn s) {fresh : PlatformPool}
    {expected : PlatformCredentials} {tcb : TcbRecord} {r : Except PccsError Unit}
    (hselects : Selects env s (.publishRefreshed fresh expected tcb))
    (h : (r, s') = commit s (publishRefreshed env s fresh expected tcb)) : Every RowOwn s' := by
  obtain ⟨e, _, _, rfl⟩ | ⟨u, batch, hok, _, rfl⟩ := commit_cases h
  · exact hs
  · have hreplace := publishRefreshed_eq_ok hok
    obtain ⟨hmatches, hselected, _⟩ := replace_eq_ok hreplace
    obtain ⟨htracked, hfmspc⟩ := hselects (admits_of_matches hmatches)
    obtain ⟨raw, hraw⟩ := List.exists_mem_of_ne_nil _ htracked
    obtain ⟨rec, hrec⟩ := hselected raw hraw
    obtain ⟨fmspc, hinfo, hchecked⟩ := selected_checked hrec
    exact replace_own hs (own_of_checked rfl (hfmspc fmspc hinfo) hchecked) hreplace

theorem entryPool_fmspc (env : Env) (db : Database) (body pc : Value) (info : PckCert.PckCertInfo) :
    (Collateral.entryPool env db body pc info).fmspc = info.fmspc := by
  unfold Collateral.entryPool
  cases (Collateral.newPlatforms body pc).head? <;> rfl

/-- The pool of an entry has the FMSPC of its first certificate, which the selection of
a level compares with that of the TCB info. -/
theorem entry_own {body pc tcbInfo : Value} {info : PckCert.PckCertInfo} {level : String × String}
    {x : RawTcb × PckCertRecord} (hinfo : Collateral.entryInfo pc = .ok info)
    (h : Collateral.selectLevel pc (Collateral.entryPool env s body pc info) tcbInfo level = .ok x) :
    OwnCerts (Collateral.entryPool env s body pc info) := by
  unfold Collateral.selectLevel at h
  split at h
  · cases h
  · rename_i tcbm cert hbest
    obtain ⟨fmspc, _, hchecked⟩ := selectBestPckCert_checked hbest
    obtain ⟨first, hfirst, hparse, _⟩ := Collateral.entryInfo_eq_ok.mp hinfo
    obtain ⟨info', hparse', _, _, hown⟩ := hchecked.parses first (List.mem_of_mem_head? hfirst)
    cases hparse.symm.trans hparse'
    obtain ⟨_, hpce⟩ := basePool_ids env s pc
    have hcerts : (Collateral.entryPool env s body pc info).certPairs = Collateral.entryCerts pc := by
      rw [PlatformPool.certPairs, entryPool_certs, List.map_map]
      exact List.map_id _
    rw [← hcerts] at hchecked
    refine own_of_checked ?_ ?_ hchecked
    · rw [entryPool_pceId]
      exact hpce.symm
    · rw [entryPool_fmspc, hown]
      exact same_uppercase fmspc

theorem platforms_own (hs : Every RowOwn s) {body : Value} {version : Nat}
    {r : Except PccsError Unit} (hselects : Selects env s (.putPlatforms body version))
    (h : (r, s') = commit s
      ((Collateral.platformWrites env s body version).map fun batch => ((), batch))) :
    Every RowOwn s' := by
  obtain rfl | ⟨batch, hok, rfl⟩ := platforms_cases h
  · exact hs
  · refine hs.write fun k row hput => ?_
    obtain ⟨pc, hpc, info, tcbInfo, selected, hinfo, _, hselected, hrow⟩ := put_of_platforms hok hput
    obtain ⟨level, hlevel⟩ := List.exists_mem_of_ne_nil _ (hselects pc hpc)
    obtain ⟨x, _, hx⟩ := exists_of_mem_mapM hselected level hlevel
    obtain ⟨x, _, rfl⟩ | ⟨_, rfl⟩ := hrow
    · trivial
    · exact (entry_own hinfo hx).relevel _

theorem untouched_own (hs : Every RowOwn s) (h : Untouched env s s') : Every RowOwn s' := by
  obtain ⟨batch, rfl, hbatch⟩ := h
  refine hs.write fun k row hput => ?_
  cases row with
  | platform pool => exact absurd rfl ((hbatch _ hput).noPool pool)
  | _ => trivial

end Writers

section Runs

variable {env : Env} {chrono : Ocsp.Chrono} {cfg : Config}

/-- The cache, as long as every publication selects. -/
def selectingSystem (env : Env) (chrono : Ocsp.Chrono) (cfg : Config) (accepts : Request → Prop) :
    System Op Op.Res Database Request :=
  { cacheSystem env chrono cfg accepts with
    perform := fun s o r s' => perform env cfg s o r s' ∧ Selects env s o }

def ownPolicy (env : Env) (cfg : Config) : Policy env cfg where
  performs s o r s' := perform env cfg s o r s' ∧ Selects env s o
  performed h := h.1
  inv := Every RowOwn
  name _ := True
  good _ _ _ _ _ := True
  guar _ _ _ _ _ _ := True

theorem ownPolicy_duties (hintel : cfg.isIntel = true) : Duties (ownPolicy env cfg) where
  name_congr _ _ _ _ := trivial
  good_congr _ _ _ _ _ _ _ _ _ _ := trivial
  mono _ _ _ _ _ _ _ _ _ := trivial
  listed _ _ _ _ := trivial
  hit _ _ _ _ _ _ _ _ := trivial
  untouched _ _ _ _ _ _ _ hs h := ⟨untouched_own hs h, trivial⟩
  select _ _ _ _ _ _ _ _ _ hs _ h := ⟨select_own hs h.1, trivial, fun _ _ => trivial⟩
  store _ _ _ _ _ _ _ _ _ _ _ _ _ hs _ _ _ _ hpool h := by
    refine ⟨store_own hs hpool h.1, trivial, fun rec hr => ?_⟩
    obtain ⟨level, hlevel⟩ := store_requested (hr ▸ h.1)
    exact ⟨level, hlevel, trivial⟩
  refreshed _ _ _ _ _ _ _ _ _ hs _ _ _ _ h := ⟨refreshed_own hs h.2 h.1, trivial⟩
  merge hmirror := absurd (hintel.symm.trans hmirror) (by decide)
  mirror _ _ _ _ _ _ := trivial
  platforms _ _ _ _ _ _ hs _ h := ⟨platforms_own hs h.2 h.1, trivial⟩

/-- In every run from an empty store over an Intel upstream in which every
publication selects, every pool holds version 3 certificates of one platform, and
of the PCE and the FMSPC of the pool. -/
theorem pools_own_certs (hintel : cfg.isIntel = true)
    {c : Process.Config (selectingSystem env chrono cfg (Request.OnPlatforms fun _ => True))}
    (h : Reachable (fun c => c.state = ∅ ∧ c.threads = []) Process.Step c) {k : List UInt8}
    {pool : PlatformPool} (hrow : c.state[k]? = some (.platform pool)) : OwnCerts pool := by
  have hstart : ∀ c : Process.Config
      ((ownPolicy env cfg).system chrono (Request.OnPlatforms fun _ => True)),
      c.state = ∅ ∧ c.threads = [] → Every RowOwn c.state ∧ c.threads = [] := by
    rintro ⟨s, threads⟩ ⟨rfl, rfl⟩
    exact ⟨every_empty _, rfl⟩
  obtain ⟨hown, _⟩ := sound_of_duties (ownPolicy_duties hintel) (fun _ hq => hq) hstart h
  exact hown k _ hrow

theorem selects_of_fills {s : Database} {o : Op} (h : o.fills = true) : Selects env s o := by
  cases o with
  | publishRefreshed fresh expected tcb => cases h
  | putPlatforms body version => cases h
  | _ => trivial

/-- The pool that a GET of an unknown platform was filled with. -/
theorem pools_own_certs_filled :
    ∃ c : Process.Config (selectingSystem answersEnv Ocsp.noon lazyCfg
        (Request.OnPlatforms fun _ => True)),
      Reachable (fun c => c.state = ∅ ∧ c.threads = []) Process.Step c ∧
      ∃ (k : List UInt8) (pool : PlatformPool), c.state[k]? = some (.platform pool) ∧
        pool.rawTcbs ≠ [] ∧ OwnCerts pool := by
  obtain ⟨rec, s', hstore⟩ := perform_newStore
  obtain ⟨pool, hrow, htracked⟩ : ∃ pool, s'[Keys.platform answersEnv newPool.qeId
      newPool.pceId]? = some (.platform pool) ∧ pool.rawTcbs ≠ [] := by
    obtain ⟨e, _, herror, _⟩ | ⟨found, batch, hok, hfound, rfl⟩ := commit_cases hstore
    · cases herror
    · cases hfound
      obtain ⟨tcb, _, hreplace⟩ := storePckcerts_eq_ok hok
      exact replace_tracked hreplace
  have hlast : Alone (unforked answersEnv lazyCfg) ∅ (.op newStore afterStore) (.ret (.ok rec)) s' :=
    .step ⟨rfl, hstore⟩ (.here _ _)
  have harrived : Reachable (fun c => c.state = ∅ ∧ c.threads = []) Process.Step
      (⟨∅, [⟨.getPckcert newQuery 4, getPckcertRequest answersEnv lazyCfg newQuery 4, []⟩]⟩ :
        Process.Config (selectingSystem answersEnv Ocsp.noon lazyCfg
          (Request.OnPlatforms fun _ => True))) :=
    reachable_arrive (S := selectingSystem answersEnv Ocsp.noon lazyCfg
      (Request.OnPlatforms fun _ => True)) (q := Request.getPckcert newQuery 4) ⟨rfl, rfl⟩ trivial
  obtain ⟨past, hfilled⟩ := reachable_alone (S := selectingSystem answersEnv Ocsp.noon lazyCfg
    (Request.OnPlatforms fun _ => True)) (q := Request.getPckcert newQuery 4)
    ((alone_get.trans hlast).mono fun s o r s' hs =>
      ⟨forks_of_fills hs.1, hs.2, selects_of_fills hs.1⟩) harrived
  exact ⟨_, hfilled, _, pool, hrow, htracked, pools_own_certs rfl hfilled hrow⟩

/-- A PUT arrives, and runs alone to its end. -/
theorem reachable_put {accepts : Request → Prop}
    (haccepts : ∀ body version, accepts (.putPlatformCollateral body version))
    {start : Process.Config (cacheSystem env chrono cfg accepts) → Prop} {s s' : Database}
    {ts : List (Process.Thread (cacheSystem env chrono cfg accepts))} {body : Value}
    {version : Nat} {r : Except PccsError Unit} (hr : Reachable start Process.Step ⟨s, ts⟩)
    (h : Alone (fun s o r s' => forks o = [] ∧ perform env cfg s o r s') s
      (putPlatformCollateralRequest env body version) (.ret r) s') :
    ∃ past, Reachable start Process.Step
      ⟨s', ⟨.putPlatformCollateral body version, .ret r, past⟩ :: ts⟩ :=
  reachable_alone (q := Request.putPlatformCollateral body version) h
    (reachable_step hr
      (.arrive s ts (Request.putPlatformCollateral body version) (haccepts body version)))

/-- The PUT of a manifest, alone. -/
theorem alone_known (env : Env) (cfg : Config) :
    Alone (fun s o r s' => forks o = [] ∧ perform env cfg s o r s') ∅
      (putPlatformCollateralRequest env Manifests.knownBody 4) (.ret (.ok ()))
      (write (write ∅ (Collateral.documentWrites env Manifests.knownBody 4))
        [putPlatformPool env Manifests.knownPool]) := by
  obtain ⟨out, hputs⟩ := exec_puts (Q := fun s o r s' => forks o = [] ∧ perform env cfg s o r s')
    (fun _ _ => ⟨rfl, rfl⟩) id (Collateral.documentWrites env Manifests.knownBody 4) ∅
  rw [List.map_id] at hputs
  refine (Exec.andThen_ok (a := ()) ?_ (hputs.bind (Exec.call ⟨rfl, ?_⟩))).alone
  · rw [Manifests.knownBody_checked]
    exact .ret _ _
  · change _ = commit _ _
    rw [Manifests.known_writes]
    rfl

/-- A PUT without a level publishes a certificate of another PCE. -/
theorem unread_pool_published :
    ∃ c : Process.Config (cacheSystem Keys.plainEnv Ocsp.noon lazyCfg
        (Request.OnPlatforms fun _ => True)),
      Reachable (fun c => c.state = ∅ ∧ c.threads = []) Process.Step c ∧ lazyCfg.isIntel = true ∧
      ∃ (k : List UInt8) (pool : PlatformPool), c.state[k]? = some (.platform pool) ∧
        ¬ OwnCerts pool := by
  have hstart : Reachable (fun c => c.state = ∅ ∧ c.threads = []) Process.Step
      (⟨∅, []⟩ : Process.Config (cacheSystem Keys.plainEnv Ocsp.noon lazyCfg
        (Request.OnPlatforms fun _ => True))) := reachable_start ⟨rfl, rfl⟩
  obtain ⟨past, hput⟩ := reachable_put (fun _ _ => trivial) hstart
    (alone_known Keys.plainEnv lazyCfg)
  refine ⟨_, hput, rfl, _, Manifests.knownPool,
    get_write_last _ [] [] (putPlatformPool Keys.plainEnv Manifests.knownPool) (by simp), ?_⟩
  have hother : ¬ toAsciiLowercase Manifests.knownCert.info.pceId = toAsciiLowercase "0000" := by
    decide +kernel
  intro hown
  obtain ⟨info, hparse, _, hpce, _⟩ := hown.parses
    ⟨"000000000000000000000000000000000000", Manifests.knownPem⟩ (List.mem_singleton_self _)
  cases hparse.symm.trans Manifests.parse_knownPem
  exact hother hpce

end Runs

end Pccs.Cache
