import Pccs.CompareAndSet

/-!
# Tracked pools are validated

A selection reads every certificate of its pool and refuses the pool if one of
them is not a PCK certificate of the pool's platform. Every writer of pools
selects once for each level the pool tracks, so a pool that tracks a level has
been read as a whole, whichever writer it is from.
-/
namespace Pccs.Cache

open Text Json Fallible KeyValue Store Selection Process Runs Coherence

/-- All certificates are version 3 PCK certificates of one platform and of the
pool's PCE. -/
structure Validated (pool : PlatformPool) : Prop where
  parses : ∀ c ∈ pool.certs, ∃ info, PckCert.parsePckCert c.cert = .ok info ∧
    info.version = pckCertVersion ∧ Same info.pceId pool.pceId
  onePlatform : ∃ ppid fmspc, ∀ c ∈ pool.certs, ∀ info, PckCert.parsePckCert c.cert = .ok info →
    info.ppid = ppid ∧ info.fmspc = fmspc

/-- A tracked pool is validated. -/
def RowValid : Row → Prop
  | .platform pool => pool.rawTcbs ≠ [] → Validated pool
  | _ => True

section Writers

variable {env : Env} {cfg : Config} {s s' : Database}

theorem validated_of_checked {pool : PlatformPool} {pceid fmspc : String}
    (hpce : Same pool.pceId pceid) (h : PoolChecked pceid fmspc pool.certPairs) :
    Validated pool := by
  have hpair : ∀ c ∈ pool.certs, (c.tcbm, c.cert) ∈ pool.certPairs :=
    fun c hc => List.mem_map.mpr ⟨c, hc, rfl⟩
  constructor
  · intro c hc
    obtain ⟨info, hinfo, hversion, hid, _⟩ := h.parses _ (hpair c hc)
    refine ⟨info, hinfo, hversion, ?_⟩
    rw [hid]
    exact (same_uppercase pceid).symm.trans hpce.symm
  · obtain ⟨ppid, hppid⟩ := h.onePpid
    refine ⟨ppid, toAsciiUppercase fmspc, fun c hc info hinfo => ⟨hppid _ (hpair c hc) info hinfo, ?_⟩⟩
    obtain ⟨info', hinfo', _, _, hfmspc⟩ := h.parses _ (hpair c hc)
    cases hinfo.symm.trans hinfo'
    exact hfmspc

theorem Validated.relevel {pool : PlatformPool} (h : Validated pool) (rawTcbs : List RawTcb) :
    Validated { pool with rawTcbs } :=
  ⟨h.parses, h.onePlatform⟩

/-- A selection has checked its whole pool against the TCB info. -/
theorem selected_checked {pool : PlatformPool} {cpusvn pcesvn pceid : String} {tcb : TcbRecord}
    {rec : PckCertRecord} (h : selectFromPoolWithTcb pool cpusvn pcesvn pceid tcb = .ok rec) :
    ∃ fmspc, infoFmspc (innerInfo tcb) = some fmspc ∧ PoolChecked pceid fmspc pool.certPairs := by
  unfold selectFromPoolWithTcb at h
  split at h
  · cases h
  · rename_i tcbm cert hbest
    exact selectBestPckCert_checked hbest

theorem selected_validated {pool : PlatformPool} {cpusvn pcesvn pceid : String} {tcb : TcbRecord}
    {rec : PckCertRecord} (hpce : Same pool.pceId pceid)
    (h : selectFromPoolWithTcb pool cpusvn pcesvn pceid tcb = .ok rec) : Validated pool := by
  obtain ⟨fmspc, _, hchecked⟩ := selected_checked h
  exact validated_of_checked hpce hchecked

theorem select_valid (hs : Every RowValid s) {r : Except PccsError PckCertRecord}
    {qeid pceid cpusvn pcesvn : String}
    (h : perform env cfg s (.selectPlatformCert qeid pceid cpusvn pcesvn) r s') :
    Every RowValid s' := by
  obtain ⟨e, _, _, rfl⟩ | ⟨rec, batch, hok, _, rfl⟩ := commit_cases h
  · exact hs
  · obtain ⟨pool, hpool, hselect, rfl⟩ := select_eq_ok hok
    obtain ⟨_, _, hpce⟩ := getPlatformPool_eq_some.mp hpool
    obtain ⟨_, _, hselect⟩ := bind_eq_ok.mp hselect
    obtain ⟨tcb, _, hselect⟩ := bind_eq_ok.mp hselect
    refine hs.write fun k row hput => ?_
    obtain he | he := List.mem_pair.mp hput
    · cases he
      trivial
    · cases he
      exact fun _ => (selected_validated hpce hselect).relevel _

/-- A replacement keeps the tracked levels, and selects for each of them. -/
theorem replace_valid (hs : Every RowValid s) {fresh : PlatformPool}
    {publication : PlatformPublication} {tcbs : List TcbRecord} {selected : Option PckCertRecord}
    {select : PlatformPool → RawTcb → Except PccsError PckCertRecord} {batch : WriteBatch}
    (hselected : ∀ rec ∈ selected, Validated fresh)
    (hselect : ∀ raw rec, select fresh raw = .ok rec → Validated fresh)
    (h : replacePlatformCertsAfterFetch env s fresh publication tcbs selected select =
      .ok ((), batch)) : Every RowValid (write s batch) := by
  obtain ⟨_, _, h⟩ := bind_eq_ok.mp h
  obtain ⟨reselected, hout, h⟩ := bind_eq_ok.mp h
  cases pure_eq_ok.mp h
  refine hs.write fun k row hput => ?_
  obtain ⟨rec, _, rfl⟩ | ⟨rec, rfl⟩ | ⟨_, rfl⟩ := put_of_publication hput
  · trivial
  · trivial
  · intro htracked
    -- the levels are the reselected ones and perhaps a new one
    have hvalid : Validated fresh := by
      cases hrec : selected with
      | some rec => exact hselected rec hrec
      | none =>
        cases hlevels : reselected with
        | nil => simp [hrec, hlevels] at htracked
        | cons x rest =>
          obtain ⟨raw, _, hraw⟩ := exists_of_mem_result hout x (by simp [hlevels])
          obtain ⟨rec, hrec, _⟩ := bind_eq_ok.mp hraw
          exact hselect raw rec hrec
    exact hvalid.relevel _

theorem store_valid (hs : Every RowValid s) {qeid pceid : String} {context : PckFetchContext}
    {pool : PlatformPool} {resp : PckCertsResponse} {tcbs : List TcbRecord}
    {requested : Option (String × String)} {r : Except PccsError (Option PckCertRecord)}
    (hpool : pckcertPool qeid pceid context.encPpid context.platformManifest resp = .ok pool)
    (h : perform env cfg s (.storePckcerts pceid context pool resp tcbs requested) r s') :
    Every RowValid s' := by
  obtain ⟨e, _, _, rfl⟩ | ⟨found, batch, hok, _, rfl⟩ := commit_cases h
  · exact hs
  · obtain ⟨tcb, hstage, hreplace⟩ := storePckcerts_eq_ok hok
    obtain ⟨fmspc, _, hchecked⟩ := stagePckcerts_checked hstage
    have hpce : Same pool.pceId pceid := by
      rw [(pckcertPool_eq_ok hpool).2]
      exact (same_uppercase pceid).symm
    have hvalid := validated_of_checked hpce hchecked
    exact replace_valid hs (fun _ _ => hvalid) (fun _ _ _ => hvalid) hreplace

theorem refreshed_valid (hs : Every RowValid s) {fresh : PlatformPool}
    {expected : PlatformCredentials} {tcb : TcbRecord} {r : Except PccsError Unit}
    (h : (r, s') = commit s (publishRefreshed env s fresh expected tcb)) : Every RowValid s' := by
  obtain ⟨e, _, _, rfl⟩ | ⟨u, batch, hok, _, rfl⟩ := commit_cases h
  · exact hs
  · exact replace_valid hs (by simp) (fun _ _ hselect => selected_validated rfl hselect)
      (publishRefreshed_eq_ok hok)

/-- The levels of an entry are selected from the certificates of its pool. -/
theorem platforms_valid (hs : Every RowValid s) {body : Value} {version : Nat}
    {r : Except PccsError Unit} (h : (r, s') = commit s
      ((Collateral.platformWrites env s body version).map fun batch => ((), batch))) :
    Every RowValid s' := by
  obtain rfl | ⟨batch, hok, rfl⟩ := platforms_cases h
  · exact hs
  · refine hs.write fun k row hput => ?_
    obtain ⟨pc, _, info, tcbInfo, selected, _, _, hselected, hrow⟩ := put_of_platforms hok hput
    obtain ⟨x, _, rfl⟩ | ⟨_, rfl⟩ := hrow
    · trivial
    · intro htracked
      obtain ⟨x, hx⟩ := List.exists_mem_of_ne_nil selected fun hnil => htracked (by simp [hnil])
      obtain ⟨level, _, hlevel⟩ := exists_of_mem_result hselected x hx
      unfold Collateral.selectLevel at hlevel
      split at hlevel
      · cases hlevel
      · rename_i tcbm cert hbest
        obtain ⟨fmspc, _, hchecked⟩ := selectBestPckCert_checked hbest
        obtain ⟨_, hpce⟩ := basePool_ids env s pc
        have hcerts : (Collateral.entryPool env s body pc info).certPairs =
            Collateral.entryCerts pc := by
          rw [PlatformPool.certPairs, entryPool_certs, List.map_map]
          exact List.map_id _
        rw [← hcerts] at hchecked
        have hvalid : Validated (Collateral.entryPool env s body pc info) := by
          refine validated_of_checked ?_ hchecked
          rw [entryPool_pceId]
          exact hpce.symm
        exact hvalid.relevel _

theorem untouched_valid (hs : Every RowValid s) (h : Untouched env s s') : Every RowValid s' := by
  obtain ⟨batch, rfl, hbatch⟩ := h
  refine hs.write fun k row hput => ?_
  cases row with
  | platform pool => exact absurd rfl ((hbatch _ hput).noPool pool)
  | _ => trivial

end Writers

section Runs

variable {env : Env} {chrono : Ocsp.Chrono} {cfg : Config}

def validPolicy (env : Env) (cfg : Config) : Policy env cfg where
  performs := perform env cfg
  performed h := h
  inv := Every RowValid
  name _ := True
  good _ _ _ _ _ := True
  guar _ _ _ _ _ _ := True

theorem validPolicy_duties (hintel : cfg.isIntel = true) : Duties (validPolicy env cfg) where
  name_congr _ _ _ _ := trivial
  good_congr _ _ _ _ _ _ _ _ _ _ := trivial
  mono _ _ _ _ _ _ _ _ _ := trivial
  listed _ _ _ _ := trivial
  hit _ _ _ _ _ _ _ _ := trivial
  untouched _ _ _ _ _ _ _ hs h := ⟨untouched_valid hs h, trivial⟩
  select _ _ _ _ _ _ _ _ _ hs _ h := ⟨select_valid hs h, trivial, fun _ _ => trivial⟩
  store _ _ _ _ _ _ _ _ _ _ _ _ _ hs _ _ _ _ hpool h := by
    refine ⟨store_valid hs hpool h, trivial, fun rec hr => ?_⟩
    obtain ⟨level, hlevel⟩ := store_requested (hr ▸ h)
    exact ⟨level, hlevel, trivial⟩
  refreshed _ _ _ _ _ _ _ _ _ hs _ _ _ _ h := ⟨refreshed_valid hs h, trivial⟩
  merge hmirror := absurd (hintel.symm.trans hmirror) (by decide)
  mirror _ _ _ _ _ _ := trivial
  platforms _ _ _ _ _ _ hs _ h := ⟨platforms_valid hs h, trivial⟩

/-- In every run from an empty store over an Intel upstream, whatever it answers and
whatever is put: a pool that tracks a level holds only certificates of one platform
and of its own PCE. -/
theorem tracked_validated (hintel : cfg.isIntel = true)
    {c : Process.Config (cacheSystem env chrono cfg (Request.OnPlatforms fun _ => True))}
    (h : Reachable (fun c => c.state = ∅ ∧ c.threads = []) Process.Step c) {k : List UInt8}
    {pool : PlatformPool} (hrow : c.state[k]? = some (.platform pool))
    (htracked : pool.rawTcbs ≠ []) : Validated pool := by
  have hstart : ∀ c : Process.Config
      ((validPolicy env cfg).system chrono (Request.OnPlatforms fun _ => True)),
      c.state = ∅ ∧ c.threads = [] → Every RowValid c.state ∧ c.threads = [] := by
    rintro ⟨s, threads⟩ ⟨rfl, rfl⟩
    exact ⟨every_empty _, rfl⟩
  obtain ⟨hvalid, _⟩ := sound_of_duties (validPolicy_duties hintel) (fun _ hq => hq) hstart h
  exact hvalid k _ hrow htracked

/-- A replacement with a selected record leaves a tracked pool. -/
theorem replace_tracked {s : Database} {fresh : PlatformPool} {publication : PlatformPublication}
    {tcbs : List TcbRecord} {rec : PckCertRecord}
    {select : PlatformPool → RawTcb → Except PccsError PckCertRecord} {batch : WriteBatch}
    (h : replacePlatformCertsAfterFetch env s fresh publication tcbs (some rec) select =
      .ok ((), batch)) :
    ∃ pool, (write s batch)[Keys.platform env fresh.qeId fresh.pceId]? = some (.platform pool) ∧
      pool.rawTcbs ≠ [] := by
  obtain ⟨_, _, h⟩ := bind_eq_ok.mp h
  obtain ⟨reselected, _, h⟩ := bind_eq_ok.mp h
  cases pure_eq_ok.mp h
  refine ⟨_, get_write_last s _ [] (putPlatformPool env _) (by simp), ?_⟩
  exact List.ne_nil_of_mem (mem_upsertRaw_self _ _)

/-- A GET has filled an unknown platform, whose pool tracks the level it asked for. -/
theorem tracked_validated_filled : ∃ pool, pool.rawTcbs ≠ [] ∧ Validated pool := by
  have hget : Request.OnPlatforms (fun _ => True) (.getPckcert newQuery 4) := trivial
  obtain ⟨past, hbefore⟩ := reachable_beforeStore Ocsp.noon hget
  obtain ⟨rec, s', hstore⟩ := perform_newStore
  obtain ⟨pool, hrow, htracked⟩ : ∃ pool, s'[Keys.platform answersEnv newPool.qeId
      newPool.pceId]? = some (.platform pool) ∧ pool.rawTcbs ≠ [] := by
    obtain ⟨e, _, herror, _⟩ | ⟨found, batch, hok, hfound, rfl⟩ := commit_cases hstore
    · cases herror
    · cases hfound
      obtain ⟨tcb, _, hreplace⟩ := storePckcerts_eq_ok hok
      exact replace_tracked hreplace
  have hlast : Alone (unforked answersEnv lazyCfg) ∅ (.op newStore afterStore) (.ret (.ok rec)) s' :=
    .step ⟨rfl, hstore⟩ (.here _ _)
  obtain ⟨past', hfilled⟩ := reachable_unforked hlast hbefore
  exact ⟨pool, htracked, tracked_validated rfl hfilled hrow htracked⟩

end Runs

end Pccs.Cache
