import Pccs.Filing
import Pccs.Gates
import Pccs.Handlers
import Pccs.Queue

/-!
# Who may do what

A route is reached by its own paths and methods, and behind a guard only with the
token of the guard. An endpoint writes the rows of certain families and asks the
upstream in certain modes. Both together say of every operation of every run of
the service on whose behalf it is performed.
-/
namespace Pccs.Service

open Text Encoding Json Fallible KeyValue PccsError Http Process Runs Store KeySpace Cache

section Tokens

variable {lib : Library} {state : AppState} {q : Request}

/-- The request carries a token with the configured digest. -/
def Presents (lib : Library) (state : AppState) (guard : Guard) (q : Request) : Prop :=
  ∃ token digest, q.headerText guard.tokenName = some token ∧ token ≠ "" ∧
    byteLen (guard.hash state) = 128 ∧ hexDecode (asBytes (guard.hash state)) = some digest ∧
    lib.sha512 (asBytes token) = digest

theorem presents_of_verified {guard : Guard}
    (h : verifyToken lib (q.headerText guard.tokenName) (guard.hash state) = .ok ()) :
    Presents lib state guard q := by
  obtain ⟨digest, hdigest, h⟩ := bind_eq_ok.mp h
  obtain ⟨token, htoken, h⟩ := bind_eq_ok.mp h
  obtain ⟨hsome, hne⟩ := Option.filter_eq_some_iff.mp (require_eq_ok.mp htoken)
  have hparsed := require_eq_ok.mp hdigest
  unfold parseExpectedHash at hparsed
  split at hparsed
  · rename_i hlen
    exact ⟨token, digest, hsome, by simpa using hne, hlen.1, hparsed,
      Decidable.not_not.mp (reject_eq_ok.mp h)⟩
  · cases hparsed

/-- The request is for the route and passes its guard. -/
structure Granted (lib : Library) (state : AppState) (r : Route) (q : Request) : Prop where
  mem : r ∈ routes state.cache.pcsVersion
  fits : fits r.template q.path = true
  serves : r.serves q.method = true
  guard : ∀ guard, r.guard = some guard → Presents lib state guard q

end Tokens

section Routes

variable {lib : Library} {state : AppState} {q : Request} {r : Route} {after : Response → Response}

theorem dispatch_endpoint {v : Nat} (h : (dispatch v q).1 = .endpoint r) :
    r ∈ routes v ∧ fits r.template q.path = true ∧ r.serves q.method = true := by
  unfold dispatch at h
  simp only at h
  split at h
  · rename_i found hfound
    cases h
    obtain ⟨hmem, hfits⟩ := List.mem_filter.mp (List.mem_of_find?_eq_some hfound)
    have hserves := List.find?_some (p := fun r : Route => r.serves q.method) hfound
    exact ⟨hmem, hfits, hserves⟩
  · split at h <;> cases h

theorem granted_of_router (h : router lib state q = .target r after) : Granted lib state r q := by
  unfold router at h
  split at h
  · rename_i found hfound
    obtain ⟨hmem, hfits, hserves⟩ := dispatch_endpoint hfound
    cases hguard : found.guard with
    | none =>
      simp only [hguard] at h
      cases h
      exact ⟨hmem, hfits, hserves, fun guard hsome => by rw [hguard] at hsome; cases hsome⟩
    | some guard =>
      simp only [hguard] at h
      obtain ⟨f, inner, hpass, htarget⟩ := target_of_around h
      cases htarget
      refine ⟨hmem, hfits, hserves, fun guard' hsome => ?_⟩
      rw [hguard] at hsome
      cases hsome
      unfold Guard.layer at hpass
      split at hpass
      · cases hpass
      · rename_i hverified
        exact presents_of_verified hverified
  · cases h
  · cases h

/-- No layer lets a request through to a route that is not granted to it. -/
theorem granted_of_target {id timing : String}
    (h : createApp lib state id timing q = .target r after) : Granted lib state r q := by
  obtain ⟨_, _, _, h⟩ := target_of_around h
  obtain ⟨_, _, _, h⟩ := target_of_around h
  obtain ⟨_, _, _, h⟩ := target_of_around h
  obtain ⟨_, _, _, h⟩ := target_of_around h
  obtain ⟨_, _, _, h⟩ := target_of_around h
  have hnested : ∃ inner, nested lib state q = .target r inner := by
    unfold cached at h
    split at h
    · exact ⟨_, h⟩
    · obtain ⟨_, inner, _, h⟩ := target_of_around h
      exact ⟨inner, h⟩
  obtain ⟨inner, h⟩ := hnested
  unfold nested at h
  split at h
  · obtain ⟨_, _, _, h⟩ := target_of_around h
    exact granted_of_router h
  · exact granted_of_router h

end Routes

section Families

/-- The families of rows the handler of an endpoint may put or delete. -/
def Endpoint.writes (mode : CacheMode) : Endpoint → List Family
  | .getPlatforms => [.preg]
  | .postPlatforms =>
    match mode with
    | .lazy => fillFamilies .lazy ++ verifyingFamilies
    | .req => fillFamilies .req ++ verifyingFamilies
    | .offline => [.preg]
  | .putPlatformCollateral => [.pckcert, .platform] ++ collateralFamilies
  | .refresh => if mode = .offline then [] else fillFamilies mode ++ collateralFamilies
  | .putAppraisalPolicy => [.appraisal]
  | .getPckcert => [.pckcert, .platform] ++ whenLazy mode [.tcb]
  | .getPckcrl => whenLazy mode [.pckcrl]
  | .getTcb _ => whenLazy mode [.tcb]
  | .getIdentity _ => whenLazy mode [.identity]
  | .getRootcacrl => whenLazy mode [.rootcacrl]
  | .getCrl => whenLazy mode [.crl]
  | .getAmdKds => boundedFamilies .amdKds
  | .getNvidiaRim => boundedFamilies .nvidiaRim
  | .postNvidiaOcsp => boundedFamilies .nvidiaOcsp
  | .postNvidiaNrasAttestGpu => []
  | .getAppraisalPolicy => []
  | .liveness => []
  | .readiness => []
  | .startup => []

/-- The operation writes only these families, and lists platforms only if it may. -/
def Op.Files (F : Family → Prop) (lists : Prop) : Op → Prop
  | .cache o => o.Files F
  | .takeRegistered _ => F .preg ∧ lists
  | .cachedPlatformsByFmspc _ => lists
  | .putAppraisalPolicy _ => F .appraisal
  | _ => True

theorem only_lift {P : Op → Prop} {α : Type} {p : Cache.Action α}
    (hp : Only (fun o => P (.cache o)) p) : Only P (lift p) := by
  induction p with
  | ret a => trivial
  | op o k ih => exact ⟨hp.1, fun r => ih r (hp.2 r)⟩

variable {env : Env} {chrono : Ocsp.Chrono} {lib : Library} {state : AppState}
  {F : Family → Prop} {lists : Prop}

theorem files_ask {q : Cache.Request} (hF : ∀ f ∈ q.writes state.cache.mode, F f) :
    Only (Op.Files F lists) (ask env chrono state q) :=
  only_lift (covered_body (covers_files env F) chrono hF)

/-- A step that cannot await, and what follows it if it succeeds. -/
theorem only_settled {P : Op → Prop} {α β : Type} {r : Except PccsError α} {f : α → Attempt β}
    (h : ∀ a, r = .ok a → Only P (f a)) : Only P ((settled r).andThen f) := by
  cases r with
  | ok a => exact h a rfl
  | error e => trivial

theorem files_handler {e : Endpoint} (hF : ∀ f ∈ e.writes state.cache.mode, F f)
    (hlists : e = .getPlatforms → lists) (q : Request) :
    Only (Op.Files F lists) (handler env chrono lib state e q) := by
  cases e with
  | getPlatforms =>
    have hpreg : F .preg := hF _ List.mem_cons_self
    refine only_settled fun source _ => ?_
    cases source with
    | reg => exact only_bind (only_call ⟨hpreg, hlists rfl⟩) fun _ => trivial
    | regNa => exact only_bind (only_call ⟨hpreg, hlists rfl⟩) fun _ => trivial
    | fmspc fmspcs => exact only_bind (only_call (hlists rfl)) fun _ => trivial
  | postPlatforms =>
    refine only_settled fun ⟨reg, update⟩ _ => ?_
    exact only_andThen (files_ask hF) fun _ => trivial
  | putPlatformCollateral =>
    refine only_settled fun ⟨body, version⟩ _ => ?_
    exact only_andThen (files_ask hF) fun _ => trivial
  | refresh => exact only_settled fun params _ => only_andThen (files_ask hF) fun _ => trivial
  | putAppraisalPolicy =>
    have hpolicy : F .appraisal := hF _ List.mem_cons_self
    exact only_settled fun body _ => only_andThen (only_call hpolicy) fun _ => trivial
  | getAppraisalPolicy =>
    exact only_settled fun fmspc _ => only_andThen (only_call trivial) fun _ => trivial
  | getPckcert =>
    exact only_settled fun ⟨query, version⟩ _ => only_andThen (files_ask hF) fun _ => trivial
  | getPckcrl =>
    exact only_settled fun ⟨encoding, ca, version⟩ _ => only_andThen (files_ask hF) fun _ => trivial
  | getTcb prodType =>
    exact only_settled fun ⟨fmspc, version, update⟩ _ => only_andThen (files_ask hF) fun _ => trivial
  | getIdentity enclaveId =>
    exact only_settled fun ⟨version, update⟩ _ => only_andThen (files_ask hF) fun _ => trivial
  | getRootcacrl => exact only_settled fun version _ => only_andThen (files_ask hF) fun _ => trivial
  | getCrl => exact only_settled fun ⟨uri, version⟩ _ => only_andThen (files_ask hF) fun _ => trivial
  | getAmdKds => exact only_andThen (files_ask hF) fun _ => trivial
  | getNvidiaRim => exact only_andThen (files_ask hF) fun _ => trivial
  | postNvidiaOcsp => exact only_settled fun body _ => only_andThen (files_ask hF) fun _ => trivial
  | postNvidiaNrasAttestGpu =>
    exact only_settled fun body _ => only_andThen (files_ask hF) fun _ => trivial
  | liveness => exact only_bind (only_call trivial) fun _ => trivial
  | readiness =>
    refine only_bind (only_call trivial) fun _ => only_bind (only_call trivial) fun _ => ?_
    exact only_bind (only_call trivial) fun _ => trivial
  | startup =>
    refine only_bind (only_call trivial) fun _ => ?_
    exact only_bind (only_call trivial) fun _ => trivial

end Families

section Tables

variable {r : Route} {v : Nat} {mode : CacheMode}

theorem routes_all (h : r ∈ routes v) : r ∈ routes 4 := by
  by_cases hv : v = 4
  · rwa [hv] at h
  · simp only [routes, if_neg hv, List.append_nil, List.mem_append] at h
    simp only [routes, if_true, List.mem_append]
    tauto

/-- Only behind the guard of the administrator are policies written. -/
theorem policies_guarded (h : r ∈ routes v) (hw : .appraisal ∈ r.endpoint.writes mode) :
    r.guard = some .admin := by
  have key : ∀ r ∈ routes 4, .appraisal ∈ r.endpoint.writes mode → r.guard = some .admin := by
    cases mode <;> decide +kernel
  exact key r (routes_all h) hw

/-- Only behind a guard is the queue of registrations written. -/
theorem queue_guarded (h : r ∈ routes v) (hw : .preg ∈ r.endpoint.writes mode) :
    r.guard.isSome = true := by
  have key : ∀ r ∈ routes 4, .preg ∈ r.endpoint.writes mode → r.guard.isSome = true := by
    cases mode <;> decide +kernel
  exact key r (routes_all h) hw

/-- Without a guard, documents are written in LAZY mode only. -/
theorem documents_guarded {f : Family} (hf : f ∈ collateralFamilies) (h : r ∈ routes v)
    (hw : f ∈ r.endpoint.writes mode) : mode = .lazy ∨ r.guard.isSome = true := by
  have key : ∀ r ∈ routes 4, ∀ f ∈ collateralFamilies, f ∈ r.endpoint.writes mode →
      mode = .lazy ∨ r.guard.isSome = true := by
    cases mode <;> decide +kernel
  exact key r (routes_all h) f hf hw

theorem lists_guarded (h : r ∈ routes v) (he : r.endpoint = .getPlatforms) :
    r.guard = some .admin := by
  have key : ∀ r ∈ routes 4, r.endpoint = .getPlatforms → r.guard = some .admin := by
    decide +kernel
  exact key r (routes_all h) he

/-- The paths of a route under v3 are its template, and name this version. -/
theorem version_of_v3 {q : Request} (h : r ∈ routes v) (hfits : fits r.template q.path = true)
    (hv3 : inV3 r.template = true) : version q = .ok 3 := by
  have key : ∀ r ∈ routes 4, inV3 r.template = true →
      Validate.stripSuffix restParam.toList r.template.toList = none ∧
        (Validate.apiVersionFromUrl r.template.toList).toOption = some 3 := by
    decide +kernel
  obtain ⟨hplain, hversion⟩ := key r (routes_all h) hv3
  have hpath : r.template = q.path := by
    unfold fits at hfits
    rw [hplain] at hfits
    simpa using hfits
  rw [hpath] at hversion
  unfold version
  cases hresult : Validate.apiVersionFromUrl q.path.toList with
  | ok n =>
    rw [hresult] at hversion
    cases hversion
    rfl
  | error e =>
    rw [hresult] at hversion
    cases hversion

end Tables

section Exchanges

/-- May the handler ask the upstream, in this mode, on a route under v3 or not? -/
def Endpoint.asks (mode : CacheMode) (v3 : Bool) : Endpoint → Bool
  | .getPckcert => mode == .lazy && !v3
  | .getPckcrl => mode == .lazy && !v3
  | .getTcb _ => mode == .lazy && !v3
  | .getIdentity _ => mode == .lazy && !v3
  | .getRootcacrl => mode == .lazy && !v3
  | .getCrl => mode == .lazy
  | .getAmdKds => mode == .lazy
  | .getNvidiaRim => mode == .lazy
  | .postNvidiaOcsp => mode == .lazy
  | .postNvidiaNrasAttestGpu => mode != .offline
  | .postPlatforms => mode != .offline
  | .refresh => mode != .offline
  | _ => false

/-- Neither an exchange with the upstream nor a task of its own. -/
def Op.Local : Op → Prop
  | .cache o => o.Local
  | _ => True

variable {env : Env} {chrono : Ocsp.Chrono} {lib : Library} {state : AppState} {q : Request}

theorem local_ask {q : Cache.Request} (h : Only Cache.Op.Local (q.body env chrono state.cache)) :
    Only Op.Local (ask env chrono state q) :=
  only_lift h

theorem local_handler {r : Route} {v : Nat} (hmem : r ∈ routes v)
    (hfits : fits r.template q.path = true)
    (h : r.endpoint.asks state.cache.mode (inV3 r.template) = false) :
    Only Op.Local (handler env chrono lib state r.endpoint q) := by
  have hv3 : ∀ {ver : Nat}, version q = .ok ver → inV3 r.template = true → ver = 3 := by
    intro ver hver htemplate
    rw [version_of_v3 hmem hfits htemplate] at hver
    cases hver
    rfl
  have hgate : ∀ {ver : Nat}, version q = .ok ver →
      (state.cache.mode == .lazy && !inV3 r.template) = false →
      state.cache.mode ≠ .lazy ∨ ver = 3 := by
    intro ver hver hclosed
    cases htemplate : inV3 r.template with
    | true => exact .inr (hv3 hver htemplate)
    | false => exact .inl (by simpa [htemplate] using hclosed)
  cases he : r.endpoint with
  | getPckcert =>
    rw [he] at h
    refine only_settled fun ⟨query, ver⟩ hok => only_andThen (local_ask ?_) fun _ => trivial
    obtain ⟨params, _, hok⟩ := bind_eq_ok.mp hok
    obtain ⟨_, hver, hok⟩ := bind_eq_ok.mp hok
    obtain ⟨_, _, hok⟩ := bind_eq_ok.mp hok
    cases pure_eq_ok.mp hok
    exact local_getPckcert query (hgate hver h)
  | getPckcrl =>
    rw [he] at h
    refine only_settled fun ⟨encoding, ca, ver⟩ hok => only_andThen (local_ask ?_) fun _ => trivial
    obtain ⟨params, _, hok⟩ := bind_eq_ok.mp hok
    obtain ⟨_, hver, hok⟩ := bind_eq_ok.mp hok
    obtain ⟨_, _, hok⟩ := bind_eq_ok.mp hok
    cases pure_eq_ok.mp hok
    exact local_lookup chrono (q := .getPckcrl ca ver) trivial (hgate hver h)
  | getTcb prodType =>
    rw [he] at h
    refine only_settled fun ⟨fmspc, ver, update⟩ hok => only_andThen (local_ask ?_) fun _ => trivial
    obtain ⟨params, _, hok⟩ := bind_eq_ok.mp hok
    obtain ⟨_, hver, hok⟩ := bind_eq_ok.mp hok
    obtain ⟨_, _, hok⟩ := bind_eq_ok.mp hok
    obtain ⟨_, _, hok⟩ := bind_eq_ok.mp hok
    cases pure_eq_ok.mp hok
    exact local_lookup chrono (q := .getTcb prodType fmspc ver update) trivial (hgate hver h)
  | getIdentity enclaveId =>
    rw [he] at h
    refine only_settled fun ⟨ver, update⟩ hok => only_andThen (local_ask ?_) fun _ => trivial
    obtain ⟨params, _, hok⟩ := bind_eq_ok.mp hok
    obtain ⟨_, hver, hok⟩ := bind_eq_ok.mp hok
    obtain ⟨_, _, hok⟩ := bind_eq_ok.mp hok
    cases pure_eq_ok.mp hok
    exact local_lookup chrono (q := .getIdentity enclaveId ver update) trivial (hgate hver h)
  | getRootcacrl =>
    rw [he] at h
    refine only_settled fun ver hver => only_andThen (local_ask ?_) fun _ => trivial
    exact local_lookup chrono (q := .getRootcacrl ver) trivial (hgate hver h)
  | getCrl =>
    rw [he] at h
    have hmode : state.cache.mode ≠ .lazy := by simpa [Endpoint.asks] using h
    refine only_settled fun ⟨uri, ver⟩ _ => only_andThen (local_ask ?_) fun _ => trivial
    exact local_lookup chrono (q := .getCrl uri ver) trivial (.inl hmode)
  | getAmdKds =>
    rw [he] at h
    have hmode : state.cache.mode ≠ .lazy := by simpa [Endpoint.asks] using h
    refine only_andThen (local_ask ?_) fun _ => trivial
    exact local_lookup chrono (q := .getAmdKds _) trivial (.inl hmode)
  | getNvidiaRim =>
    rw [he] at h
    have hmode : state.cache.mode ≠ .lazy := by simpa [Endpoint.asks] using h
    refine only_andThen (local_ask ?_) fun _ => trivial
    exact local_lookup chrono (q := .getNvidiaRim _) trivial (.inl hmode)
  | postNvidiaOcsp =>
    rw [he] at h
    have hmode : state.cache.mode ≠ .lazy := by simpa [Endpoint.asks] using h
    refine only_settled fun body _ => only_andThen (local_ask ?_) fun _ => trivial
    exact local_lookup chrono (q := .getNvidiaOcsp body) trivial (.inl hmode)
  | postNvidiaNrasAttestGpu =>
    rw [he] at h
    have hmode : state.cache.mode = .offline := by simpa [Endpoint.asks] using h
    exact only_settled fun body _ =>
      only_andThen (local_ask (local_nras hmode body)) fun _ => trivial
  | postPlatforms =>
    rw [he] at h
    have hmode : state.cache.mode = .offline := by simpa [Endpoint.asks] using h
    exact only_settled fun ⟨reg, update⟩ _ =>
      only_andThen (local_ask (local_registerPlatform hmode _ update)) fun _ => trivial
  | refresh =>
    rw [he] at h
    have hmode : state.cache.mode = .offline := by simpa [Endpoint.asks] using h
    exact only_settled fun params _ =>
      only_andThen (local_ask (local_refresh hmode _ _)) fun _ => trivial
  | putPlatformCollateral =>
    exact only_settled fun ⟨body, ver⟩ _ =>
      only_andThen (local_ask (local_putPlatformCollateral body ver)) fun _ => trivial
  | getPlatforms =>
    refine only_settled fun source _ => ?_
    cases source with
    | reg => exact only_bind (only_call trivial) fun _ => trivial
    | regNa => exact only_bind (only_call trivial) fun _ => trivial
    | fmspc fmspcs => exact only_bind (only_call trivial) fun _ => trivial
  | putAppraisalPolicy =>
    exact only_settled fun body _ => only_andThen (only_call trivial) fun _ => trivial
  | getAppraisalPolicy =>
    exact only_settled fun fmspc _ => only_andThen (only_call trivial) fun _ => trivial
  | liveness => exact only_bind (only_call trivial) fun _ => trivial
  | readiness =>
    refine only_bind (only_call trivial) fun _ => only_bind (only_call trivial) fun _ => ?_
    exact only_bind (only_call trivial) fun _ => trivial
  | startup =>
    refine only_bind (only_call trivial) fun _ => ?_
    exact only_bind (only_call trivial) fun _ => trivial

end Exchanges

section Jobs

variable (lib : Library) (state : AppState)

/-- The families of rows a job may put or delete. -/
def Job.MayWrite : Job → Family → Prop
  | .http q _ _, f => ∃ r, Granted lib state r q ∧ f ∈ r.endpoint.writes state.cache.mode
  | .scheduledRefresh, f => f ∈ Cache.Request.scheduledRefresh.writes state.cache.mode
  | .refreshPool pool, f => f ∈ (Cache.Request.refreshPool pool).writes state.cache.mode

def Job.MayAsk : Job → Prop
  | .http q _ _ =>
    ∃ r, Granted lib state r q ∧ r.endpoint.asks state.cache.mode (inV3 r.template) = true
  | .scheduledRefresh => state.cache.mode ≠ .offline
  | .refreshPool _ => state.cache.mode ≠ .offline

/-- May it list the platforms, with their PPIDs and manifests? -/
def Job.MayList : Job → Prop
  | .http q _ _ => ∃ r, Granted lib state r q ∧ r.endpoint = .getPlatforms
  | _ => False

def Job.Carries (guard : Guard) : Job → Prop
  | .http q _ _ => Presents lib state guard q
  | _ => False

/-- A job of the process itself. -/
def Job.Internal : Job → Prop
  | .http _ _ _ => False
  | _ => True

def Op.Lists : Op → Prop
  | .takeRegistered _ => True
  | .cachedPlatformsByFmspc _ => True
  | _ => False

end Jobs

section Runs

variable {env : Env} {chrono : Ocsp.Chrono} {lib : Library} {state : AppState}

/-- A job writes what it may. -/
def Writes (lib : Library) (state : AppState) (j : Job) (o : Op) : Prop :=
  o.Files (j.MayWrite lib state) (j.MayList lib state)

def Asks (lib : Library) (state : AppState) (j : Job) (o : Op) : Prop :=
  o.Local ∨ j.MayAsk lib state

theorem serve_writes (q : Request) (id timing : String) :
    Only (Writes lib state (.http q id timing)) (serve env chrono lib state q id timing) := by
  unfold serve
  split
  · trivial
  · rename_i r after htarget
    have hgranted := granted_of_target htarget
    refine only_bind (files_handler (fun f hf => ?_) (fun he => ?_) q) fun _ => trivial
    · exact ⟨r, hgranted, hf⟩
    · exact ⟨r, hgranted, he⟩

theorem body_writes (j : Job) :
    Only (Writes lib state j) (j.body env chrono lib state) := by
  cases j with
  | http q id timing => exact serve_writes q id timing
  | scheduledRefresh => exact files_ask fun _ h => h
  | refreshPool pool => exact files_ask fun _ h => h

theorem body_asks (j : Job) (hj : j.Asked) :
    Only (Asks lib state j) (j.body env chrono lib state) := by
  cases j with
  | http q id timing =>
    simp only [Job.body]
    unfold serve
    split
    · trivial
    rename_i r after htarget
    have hgranted := granted_of_target htarget
    cases hasks : r.endpoint.asks state.cache.mode (inV3 r.template) with
    | true => exact only_all (fun _ => .inr ⟨r, hgranted, hasks⟩) _
    | false =>
      refine only_bind ?_ fun _ => trivial
      exact only_mono (fun _ => .inl) (local_handler hgranted.mem hgranted.fits hasks)
  | scheduledRefresh =>
    by_cases hmode : state.cache.mode = .offline
    · exact only_mono (fun _ => .inl) (local_ask (local_scheduledRefresh hmode))
    · exact only_all (fun _ => .inr hmode) _
  | refreshPool pool => exact hj.elim

theorem fork_writes {o : Op} : ∀ j ∈ forks o, Only (Writes lib state j)
    (j.body env chrono lib state) :=
  fun j _ => body_writes j

/-- A task is started where the upstream may be asked. -/
theorem fork_asks {j : Job} {o : Op} (h : Asks lib state j o) :
    ∀ j' ∈ forks o, Only (Asks lib state j') (j'.body env chrono lib state) := by
  intro j' hj'
  cases o with
  | cache o =>
    cases o with
    | spawnRefresh pool =>
      cases List.mem_singleton.mp hj'
      have hmode : state.cache.mode ≠ .offline := by
        obtain hlocal | hasks := h
        · exact hlocal.elim
        · cases j with
          | http q id timing =>
            obtain ⟨r, _, hasks⟩ := hasks
            intro hoff
            rw [hoff] at hasks
            cases he : r.endpoint <;> rw [he] at hasks <;> cases hasks
          | scheduledRefresh => exact hasks
          | refreshPool pool => exact hasks
      exact only_all (fun _ => .inr hmode) _
    | _ => cases hj'
  | _ => cases hj'

theorem within_op {F : Family → Prop} {lists : Prop} {s s' : Database} {o : Op} {r : o.Res}
    (hs : Named s) (ho : o.Files F lists) (h : perform env state.cache s o r s') :
    Within F s s' := by
  cases o with
  | cache o => exact within_perform hs ho h
  | takeRegistered n =>
    obtain ⟨_, rfl⟩ := h
    refine ⟨_, rfl, fun w hw => ?_⟩
    obtain ⟨⟨key, p⟩, hrow, rfl⟩ := List.mem_map.mp hw
    exact filed_delete ho.1 (Queue.mem_takenRows.mp hrow).2.1
  | putAppraisalPolicy body =>
    refine within_commit h fun id batch hok w hw => ?_
    obtain ⟨reg, _, hok⟩ := bind_eq_ok.mp hok
    cases pure_eq_ok.mp hok
    cases List.mem_singleton.mp hw
    exact filed_row (.appraisal _) ho nofun _
  | cachedPlatformsByFmspc fmspcs =>
    obtain ⟨_, rfl⟩ := h
    exact .refl _
  | getDefaultPolicies fmspc =>
    obtain ⟨_, rfl⟩ := h
    exact .refl _
  | _ =>
    obtain rfl := h
    exact .refl _

/-- The operation can change the row of the key. -/
def Changes (env : Env) (state : AppState) (s : Database) (o : Op) (key : List UInt8) : Prop :=
  ∃ r s', perform env state.cache s o r s' ∧ s'[key]? ≠ s[key]?

/-- What a job does next, it may do. -/
structure Confined (env : Env) (lib : Library) (state : AppState) (j : Job) (s : Database) (o : Op) :
    Prop where
  writes : ∀ key, Changes env state s o key →
    ∃ f : Family, asBytes f.word <+: key ∧ j.MayWrite lib state f
  asks : ∀ f, o = .cache (.fetch f) → j.MayAsk lib state
  lists : o.Lists → j.Carries lib state .admin
  policies : ∀ key, Changes env state s o key → asBytes Keys.appraisalPrefix <+: key →
    j.Carries lib state .admin
  queue : ∀ key, Changes env state s o key → asBytes Keys.pregPrefix <+: key →
    j.Internal ∨ ∃ guard, j.Carries lib state guard
  documents : ∀ key, Changes env state s o key → ∀ f ∈ collateralFamilies,
    asBytes f.word <+: key →
      state.cache.mode = .lazy ∨ j.Internal ∨ ∃ guard, j.Carries lib state guard

variable {j : Job}

theorem policies_of_write (h : j.MayWrite lib state .appraisal) : j.Carries lib state .admin := by
  cases j with
  | http q id timing =>
    obtain ⟨r, hgranted, hw⟩ := h
    exact hgranted.guard .admin (policies_guarded hgranted.mem hw)
  | scheduledRefresh =>
    have hnot : ∀ mode, .appraisal ∉ Cache.Request.scheduledRefresh.writes mode := by
      intro mode
      cases mode <;> decide
    exact absurd h (hnot _)
  | refreshPool pool =>
    have hnot : ∀ mode, .appraisal ∉ fillFamilies mode := by
      intro mode
      cases mode <;> decide
    exact absurd h (hnot _)

theorem carries_of_guard {q : Request} {id timing : String} {r : Route}
    (h : Granted lib state r q) (hguard : r.guard.isSome = true) :
    ∃ guard, (Job.http q id timing).Carries lib state guard := by
  obtain ⟨guard, hsome⟩ := Option.isSome_iff_exists.mp hguard
  exact ⟨guard, h.guard guard hsome⟩

theorem queue_of_write (h : j.MayWrite lib state .preg) :
    j.Internal ∨ ∃ guard, j.Carries lib state guard := by
  cases j with
  | http q id timing =>
    obtain ⟨r, hgranted, hw⟩ := h
    exact .inr (carries_of_guard hgranted (queue_guarded hgranted.mem hw))
  | scheduledRefresh => exact .inl trivial
  | refreshPool pool => exact .inl trivial

theorem documents_of_write {f : Family} (hf : f ∈ collateralFamilies)
    (h : j.MayWrite lib state f) :
    state.cache.mode = .lazy ∨ j.Internal ∨ ∃ guard, j.Carries lib state guard := by
  cases j with
  | http q id timing =>
    obtain ⟨r, hgranted, hw⟩ := h
    obtain hmode | hguard := documents_guarded hf hgranted.mem hw
    · exact .inl hmode
    · exact .inr (.inr (carries_of_guard hgranted hguard))
  | scheduledRefresh => exact .inr (.inl trivial)
  | refreshPool pool => exact .inr (.inl trivial)

theorem lists_of_writes {o : Op} (h : Writes lib state j o) (ho : o.Lists) :
    j.Carries lib state .admin := by
  have hlists : j.MayList lib state := by
    cases o with
    | takeRegistered n => exact h.2
    | cachedPlatformsByFmspc fmspcs => exact h
    | _ => exact ho.elim
  cases j with
  | http q id timing =>
    obtain ⟨r, hgranted, he⟩ := hlists
    exact hgranted.guard .admin (lists_guarded hgranted.mem he)
  | scheduledRefresh => exact hlists.elim
  | refreshPool pool => exact hlists.elim

theorem confined_of {s : Database} {o : Op} (hs : Named s) (hw : Writes lib state j o)
    (ha : Asks lib state j o) : Confined env lib state j s o := by
  have hwrites : ∀ key, Changes env state s o key →
      ∃ f : Family, asBytes f.word <+: key ∧ j.MayWrite lib state f := by
    intro key ⟨r, s', hperform, hne⟩
    obtain ⟨f, hf, hkey⟩ := (within_op hs hw hperform).changed hne
    exact ⟨f, hkey, hf⟩
  -- the word of the key tells the family
  have hfamily : ∀ key, Changes env state s o key → ∀ f : Family, asBytes f.word <+: key →
      j.MayWrite lib state f := by
    intro key hchanges f hkey
    obtain ⟨g, hgkey, hg⟩ := hwrites key hchanges
    exact family_unique hkey hgkey ▸ hg
  constructor
  · exact hwrites
  · intro f he
    subst he
    exact ha.resolve_left id
  · exact lists_of_writes hw
  · exact fun key h hkey => policies_of_write (hfamily key h .appraisal hkey)
  · exact fun key h hkey => queue_of_write (hfamily key h .preg hkey)
  · exact fun key h f hf hkey => documents_of_write hf (hfamily key h f hkey)

/-- In every run of the service, whatever is performed next is performed for a job
that may do so. -/
theorem least_privilege {c : Process.Config (service env chrono lib state Job.Asked)}
    (h : Reachable (fun c => Named c.state ∧ c.threads = []) Step c)
    {t : Thread (service env chrono lib state Job.Asked)} (ht : t ∈ c.threads) {o : Op}
    {k : o.Res → Action (Job.Reply t.request)} (hop : t.todo = .op o k) :
    Confined env lib state t.request c.state o := by
  have hwrites := only_of_reachable (P := Writes lib state) (fun j _ => body_writes j)
    (fun _ _ _ => fork_writes) (fun _ hc => hc.2) h t ht
  have hasks := only_of_reachable (P := Asks lib state) body_asks (fun _ _ => fork_asks)
    (fun _ hc => hc.2) h t ht
  have hnamed : Named c.state :=
    inv_of_only (P := Writes lib state) (I := Named) (fun j _ => body_writes j)
      (fun _ _ _ => fork_writes)
      (fun j s o r s' ho hs hperform => (within_op hs ho hperform).named hs) (fun _ hc => hc) h
  rw [hop] at hwrites hasks
  exact confined_of hnamed hwrites.1 hasks.1

/-- The first job of a run. The job is a variable here: to compare the threads of
a known one is to run it. -/
theorem reachable_job {j : Job} {s : Database} (hs : Named s) (hj : j.Asked) :
    Reachable (fun c : Process.Config (service env chrono lib state Job.Asked) =>
        Named c.state ∧ c.threads = []) Step ⟨s, [⟨j, j.body env chrono lib state, []⟩]⟩ :=
  reachable_arrive ⟨hs, rfl⟩ hj

/-- The SHA-512 digest of the token `secret`. -/
def secretDigest : String :=
  "bd2b1aaf7ef4f09be9f52ce2d8d599674d81aa9d6a4421696dc4d93dd0619d682ce56b4d64a9ef097761ced99e0f67265b5f76085e5b0ee7ca4696b2ad6fe2b2"

def secretLibrary : Library where
  jsonContentType _ := false
  methodNotAllowed _ := ⟨405, [], []⟩
  sha512 token := if token = asBytes "secret" then (hexDecode (asBytes secretDigest)).getD [] else []

def secretState : AppState where
  cache := offlineCfg
  maxBodySize := 2097152
  serverTiming := false
  userTokenHash := ""
  adminTokenHash := secretDigest
  collateralCacheMaxAgeSecs := none

/-- The administrator drains the queue. -/
def drain : Request :=
  ⟨.get, "/sgx/certification/v4/platforms", none, [("admin-token", asBytes "secret")], [], .complete⟩

def routeOf : Plan Route → Option Route
  | .target r _ => some r
  | .answer _ => none

theorem drain_route : routeOf (createApp secretLibrary secretState "id" "" drain) =
    some ⟨.get, "/sgx/certification/v4/platforms", some .admin, .getPlatforms⟩ := by
  decide +kernel

def drained : Thread (service Keys.plainEnv Ocsp.noon secretLibrary secretState Job.Asked) :=
  ⟨.http drain "id" "", Job.body Keys.plainEnv Ocsp.noon secretLibrary secretState
    (.http drain "id" ""), []⟩

theorem drained_todo : ∃ k, drained.todo = .op (.takeRegistered 0) k := by
  have hroute := drain_route
  unfold drained
  simp only [Job.body]
  unfold serve
  cases hplan : createApp secretLibrary secretState "id" "" drain with
  | answer r =>
    rw [hplan] at hroute
    cases hroute
  | target r after =>
    rw [hplan] at hroute
    cases hroute
    exact ⟨_, rfl⟩

theorem named_waiting : Named (waiting Keys.plainEnv) := by
  have hwithin : Within (· = .preg) ∅ (waiting Keys.plainEnv) := by
    refine ⟨[registerPlatform Keys.plainEnv otherPlatform], rfl, fun w hw => ?_⟩
    cases List.mem_singleton.mp hw
    rw [Queue.registerPlatform_eq]
    exact filed_put (F := (· = .preg)) rfl (Queue.pregKey_word otherPlatform) nofun _
  exact hwithin.named named_empty

/-- The drain takes the row of the platform that waits. -/
theorem drain_changes : Changes Keys.plainEnv secretState (waiting Keys.plainEnv)
    (.takeRegistered 0) (Queue.pregKey Keys.plainEnv otherPlatform) := by
  have hrow : (waiting Keys.plainEnv)[Queue.pregKey Keys.plainEnv otherPlatform]? =
      some (.registered (normalizeReg otherPlatform)) := by
    rw [waiting, Queue.get_register, if_pos rfl]
  have htaken : Queue.Taken (waiting Keys.plainEnv) 0
      (Queue.pregKey Keys.plainEnv otherPlatform) (normalizeReg otherPlatform) :=
    ⟨hrow, Queue.pregKey_word otherPlatform, rfl⟩
  refine ⟨_, _, ⟨rfl, rfl⟩, ?_⟩
  obtain ⟨_, hnone⟩ | ⟨hfree, _⟩ := Queue.get_take (waiting Keys.plainEnv) 0
    (Queue.pregKey Keys.plainEnv otherPlatform)
  · rw [hnone, hrow]
    exact (Option.some_ne_none _).symm
  · exact absurd ⟨_, htaken⟩ hfree

/-- The drain changes the queue, and its request carries the token. -/
theorem least_privilege_drained :
    Confined Keys.plainEnv secretLibrary secretState (.http drain "id" "")
      (waiting Keys.plainEnv) (.takeRegistered 0) ∧
    Changes Keys.plainEnv secretState (waiting Keys.plainEnv) (.takeRegistered 0)
      (Queue.pregKey Keys.plainEnv otherPlatform) := by
  obtain ⟨k, hop⟩ := drained_todo
  exact ⟨least_privilege (reachable_job (j := .http drain "id" "") named_waiting trivial)
    (t := drained) List.mem_cons_self hop, drain_changes⟩

end Runs

end Pccs.Service
