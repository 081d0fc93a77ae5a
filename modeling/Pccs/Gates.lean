import Pccs.Lookups

/-!
# Which requests may ask the upstream

No central gate decides whether a request may reach the network: each one
carries its own. `Offline` operations stay in the process and in the store; the
lemmas follow every request that its mode or its API version closes, and
conclude that it never performs another operation in any run.
-/
namespace Pccs.Cache

open Process Runs

/-- Neither an exchange with the upstream nor a task of its own. -/
def Op.Local : Op → Prop
  | .fetch _ => False
  | .spawnRefresh _ => False
  | _ => True

/-- The collateral lookups. -/
def Request.IsLookup : Request → Prop
  | .getPckcert _ _ => True
  | .getTcb _ _ _ _ => True
  | .getIdentity _ _ _ => True
  | .getPckcrl _ _ => True
  | .getRootcacrl _ => True
  | .getCrl _ _ => True
  | .getAmdKds _ => True
  | .getNvidiaRim _ => True
  | .getNvidiaOcsp _ => True
  | _ => False

/-- The lookups of API version 3 that the upstream no longer serves. -/
def Request.IsV3 : Request → Prop
  | .getPckcert _ version => version = 3
  | .getTcb _ _ version _ => version = 3
  | .getIdentity _ version _ => version = 3
  | .getPckcrl _ version => version = 3
  | .getRootcacrl version => version = 3
  | _ => False

/-- The requests that must not ask the upstream: all in OFFLINE mode, the lookups
in REQ mode, and those of version 3. -/
def Request.Closed (cfg : Config) (q : Request) : Prop :=
  cfg.mode = .offline ∨ (cfg.mode = .req ∧ q.IsLookup) ∨ q.IsV3

/-- The task of a scheduled refresh is started by it, never asked for. -/
def Request.Public (q : Request) : Prop := ∀ pool, q ≠ .refreshPool pool

section Lookups

variable {env : Env} {cfg : Config}

theorem local_lookupDocument {α : Type} {version : Nat} (hgate : cfg.mode ≠ .lazy ∨ version = 3)
    {key : List UInt8} {load : Action (Option α)} (hload : Only Op.Local load) (fetch : Attempt α)
    (store : α → Action Unit) : Only Op.Local (lookupDocument cfg version key load fetch store) := by
  refine only_bind hload fun found => ?_
  cases found with
  | some rec => trivial
  | none =>
    by_cases hmode : cfg.mode ≠ .lazy
    · simp only [if_pos hmode]
      trivial
    · simp only [if_neg hmode, if_pos (hgate.resolve_left hmode)]
      trivial

theorem local_getCrl (hmode : cfg.mode ≠ .lazy) (uri : String) (version : Nat) :
    Only Op.Local (getCrlRequest env cfg uri version) := by
  refine only_bind (only_call trivial) fun found => ?_
  cases found with
  | some rec => trivial
  | none =>
    simp only [if_pos hmode]
    trivial

theorem local_getCachedUrl (hmode : cfg.mode ≠ .lazy) (kind : Fifo.Kind) (url : String) (ttl : Nat)
    (e : PccsError) : Only Op.Local (getCachedUrl env cfg kind url ttl e) := by
  simp only [getCachedUrl, if_pos hmode]
  refine only_bind (only_call trivial) fun now => only_bind (only_call trivial) fun found => ?_
  cases found with
  | none => trivial
  | some rec =>
    simp only
    split
    · trivial
    · exact only_bind (only_call trivial) fun _ => trivial

theorem local_getNvidiaOcsp (hmode : cfg.mode ≠ .lazy) (chrono : Ocsp.Chrono) (body : List UInt8) :
    Only Op.Local (getNvidiaOcspRequest env chrono cfg body) := by
  refine only_andThen trivial fun cacheKey => ?_
  simp only [if_pos hmode]
  refine only_bind (only_call trivial) fun now => only_bind (only_call trivial) fun found => ?_
  cases found with
  | none => trivial
  | some rec =>
    simp only
    split
    · trivial
    · exact only_bind (only_call trivial) fun _ => trivial

/-- The three branches by which a GET can reach the network are closed by the
mode or by the version. -/
theorem local_getUncached (q : Validate.PckcertQuery) {version : Nat}
    (hgate : cfg.mode ≠ .lazy ∨ version = 3) : Only Op.Local (getUncached env cfg q version) := by
  refine only_andThen (only_call trivial) fun _ => only_bind (only_call trivial) fun found => ?_
  cases found with
  | some rec => trivial
  | none =>
    simp only [fillForGet]
    by_cases hmode : cfg.mode ≠ .lazy
    · rw [if_pos hmode]
      trivial
    · rw [if_neg hmode, if_pos (hgate.resolve_left hmode)]
      trivial

theorem refetchGate_closed {version : Nat} (hgate : cfg.mode ≠ .lazy ∨ version = 3) :
    refetchGate cfg version = false := by
  obtain hmode | rfl := hgate
  · simp [refetchGate, hmode]
  · simp [refetchGate]

theorem local_getPckcert (q : Validate.PckcertQuery) {version : Nat}
    (hgate : cfg.mode ≠ .lazy ∨ version = 3) :
    Only Op.Local (getPckcertRequest env cfg q version) := by
  have hknown : Only Op.Local (getKnown env cfg q version) := by
    have hskip : refetchPoolForNewRawTcb env cfg q.qeid q.pceid q.cpusvn q.pcesvn version =
        .ret none := by
      rw [refetchPoolForNewRawTcb, refetchGate_closed hgate]
      rfl
    rw [getKnown, hskip]
    change Only Op.Local ((selectLocally q.qeid q.pceid q.cpusvn q.pcesvn).bind _)
    refine only_bind (only_call trivial) fun selected => ?_
    cases selected with
    | ok rec => trivial
    | error e =>
      simp only
      split
      · trivial
      · exact local_getUncached q hgate
  refine only_bind (only_call trivial) fun known => ?_
  split
  · refine only_bind (only_call trivial) fun found => ?_
    cases found with
    | some rec => trivial
    | none => exact hknown
  · exact local_getUncached q hgate

/-- A lookup that its mode or its version closes. -/
theorem local_lookup (chrono : Ocsp.Chrono) {q : Request} (hq : q.IsLookup)
    (hgate : cfg.mode ≠ .lazy ∨ q.IsV3) : Only Op.Local (q.body env chrono cfg) := by
  cases q with
  | getPckcert q version => exact local_getPckcert q hgate
  | getTcb prodType fmspc version update => exact local_lookupDocument hgate (only_call trivial) _ _
  | getIdentity enclaveId version update => exact local_lookupDocument hgate (only_call trivial) _ _
  | getPckcrl ca version => exact local_lookupDocument hgate (only_call trivial) _ _
  | getRootcacrl version => exact local_lookupDocument hgate (only_call trivial) _ _
  | getCrl uri version => exact local_getCrl (hgate.resolve_right id) uri version
  | getAmdKds path =>
    exact only_andThen trivial fun _ => local_getCachedUrl (hgate.resolve_right id) _ _ _ _
  | getNvidiaRim path =>
    exact only_andThen trivial fun _ => local_getCachedUrl (hgate.resolve_right id) _ _ _ _
  | getNvidiaOcsp body => exact local_getNvidiaOcsp (hgate.resolve_right id) chrono body
  | _ => exact hq.elim

end Lookups

section Offline

variable {env : Env} {cfg : Config} (hmode : cfg.mode = .offline)

include hmode

theorem local_registerPlatform (p : RegisteredPlatform) (update : UpdateType) :
    Only Op.Local (registerPlatformRequest env cfg p update) := by
  have hcached : Only Op.Local (isCached p) := by
    refine only_bind (only_call trivial) fun found => ?_
    cases found with
    | none => trivial
    | some platform =>
      simp only
      split
      · exact only_bind (only_call trivial) fun _ => trivial
      · trivial
  have huncached : ∀ p expected, Only Op.Local (registerUncached env cfg p expected) := by
    intro p expected
    simp only [registerUncached, hmode]
    exact only_bind (only_call trivial) fun _ => trivial
  refine only_bind (only_call trivial) fun current => only_bind hcached fun ⟨cached, p⟩ => ?_
  refine only_andThen ?_ fun _ => ?_
  · split
    · trivial
    · exact huncached p _
  · rw [if_pos hmode]
    trivial

theorem local_refresh (typ fmspc : Option String) :
    Only Op.Local (refreshRequest env cfg typ fmspc) := by
  have hrefused : ∀ target, Refresh.refreshTarget cfg.mode typ fmspc ≠ .ok target := by
    intro target hok
    simp only [Refresh.refreshTarget, if_pos hmode] at hok
    split at hok
    · obtain ⟨_, _, hok⟩ := Fallible.bind_eq_ok.mp hok
      cases hok
    · cases hok
    · cases hok
  unfold refreshRequest
  cases htarget : Refresh.refreshTarget cfg.mode typ fmspc with
  | ok target => exact absurd htarget (hrefused target)
  | error e => trivial

theorem local_scheduledRefresh : Only Op.Local (scheduledRefresh env cfg) := by
  refine only_bind (only_call trivial) fun now => only_bind (only_call trivial) fun _ => ?_
  rw [if_pos hmode]
  trivial

theorem local_nras (body : Json.Value) : Only Op.Local (getNvidiaNrasRequest env cfg body) := by
  rw [getNvidiaNrasRequest, if_pos hmode]
  trivial

end Offline

theorem local_putPlatformCollateral {env : Env} (body : Json.Value) (version : Nat) :
    Only Op.Local (putPlatformCollateralRequest env body version) :=
  only_andThen trivial fun _ =>
    only_bind (only_collect (fun w => (only_call trivial : Only Op.Local (act (.put w)))) _)
      fun _ => only_call trivial

section Runs

variable {env : Env} {chrono : Ocsp.Chrono} {cfg : Config}

theorem local_closed {q : Request} (hq : q.Closed cfg) (hpublic : q.Public) :
    Only Op.Local (q.body env chrono cfg) := by
  obtain hmode | ⟨hmode, hlookup⟩ | hv3 := hq
  · have hlazy : cfg.mode ≠ .lazy := by simp [hmode]
    cases q with
    | getNvidiaNras body => exact local_nras hmode body
    | registerPlatform p update => exact local_registerPlatform hmode p update
    | refresh typ fmspc => exact local_refresh hmode typ fmspc
    | scheduledRefresh => exact local_scheduledRefresh hmode
    | refreshPool pool => exact absurd rfl (hpublic pool)
    | putPlatformCollateral body version => exact local_putPlatformCollateral body version
    | _ => exact local_lookup chrono trivial (.inl hlazy)
  · exact local_lookup chrono hlookup (.inl (by simp [hmode]))
  · have hlookup : q.IsLookup := by
      cases q <;> trivial
    exact local_lookup chrono hlookup (.inr hv3)

/-- A request is free to do anything unless it is closed. -/
def Allowed (cfg : Config) (q : Request) (o : Op) : Prop := q.Closed cfg → o.Local

theorem only_allowed (q : Request) (hpublic : q.Public) :
    Only (Allowed cfg q) (q.body env chrono cfg) := by
  by_cases hq : q.Closed cfg
  · exact only_mono (fun _ h _ => h) (local_closed hq hpublic)
  · exact only_all (fun _ h => absurd h hq) _

/-- A closed task could only have been started by a request that is closed too. -/
theorem only_forked {q : Request} {o : Op} (ho : Allowed cfg q o) :
    ∀ q' ∈ forks o, Only (Allowed cfg q') (q'.body env chrono cfg) := by
  cases o with
  | spawnRefresh pool =>
    intro q' hq'
    cases List.mem_singleton.mp hq'
    refine only_all (fun o hclosed => ?_) _
    obtain hmode | ⟨_, hlookup⟩ | hv3 := hclosed
    · exact (ho (.inl hmode)).elim
    · exact hlookup.elim
    · exact hv3.elim
  | _ => exact fun _ h => by cases h

/-- In no run does a closed request perform an exchange with the upstream. -/
theorem closed_never_asks {c : Process.Config (cacheSystem env chrono cfg Request.Public)}
    (h : Reachable (fun c => c.threads = []) Step c)
    (t : Thread (cacheSystem env chrono cfg Request.Public)) (ht : t ∈ c.threads)
    (hclosed : t.request.Closed cfg) (f : Fetch)
    (k : Op.Res (.fetch f) → Action (Request.Reply t.request)) : t.todo ≠ .op (.fetch f) k := by
  intro hop
  have honly := only_of_reachable (fun q hq => only_allowed q hq) (fun _ _ => only_forked)
    (fun _ hc => hc) h t ht
  rw [hop] at honly
  exact honly.1 hclosed

/-- An OFFLINE instance with an upstream configured all the same. -/
def offlineCfg : Config :=
  { Config.plain with
    mode := .offline
    poolRefetchOnNewTcb := true
    scheduledPoolRefresh := true
    amdKdsUri := "https://kdsintf.amd.com"
    amdKdsCacheTtlSecs := 60
    nvidiaRimUri := "https://rim.attestation.nvidia.com"
    nvidiaRimCacheTtlSecs := 60
    nvidiaNrasUri := "https://nras.attestation.nvidia.com"
    nvidiaOcspUri := "https://ocsp.ndis.nvidia.com"
    nvidiaOcspMaxTtlSecs := 60
    nvidiaOcspDefaultTtlSecs := 60 }

/-- A certificate of a platform that nobody knows. -/
def missing : Validate.PckcertQuery where
  qeid := "AA"
  cpusvn := "00000000000000000000000000000000"
  pcesvn := "0000"
  pceid := "0000"
  encryptedPpid := some "01"

/-- What a GET does until it has missed twice, alone on an empty store. -/
theorem alone_missed (version : Nat) :
    Alone (fun s o r s' => forks o = [] ∧ perform Keys.plainEnv .plain s o r s') ∅
      (getPckcertRequest Keys.plainEnv .plain missing version)
      (fillForGet Keys.plainEnv .plain missing version) ∅ := by
  have hplatform : false = Store.hasPlatform Keys.plainEnv ∅ "AA" "0000" := by
    simp [Store.hasPlatform]
  have hmiss : none = Store.getPckcert Keys.plainEnv ∅ "AA" "00000000000000000000000000000000"
      "0000" "0000" := by
    simp [Store.getPckcert]
  refine .step (o := Op.hasPlatform "AA" "0000") (r := false) ⟨rfl, hplatform, rfl⟩ ?_
  refine .step (o := Op.keyLock (Keys.pckcert Keys.plainEnv "AA" "0000"
    "00000000000000000000000000000000" "0000")) (r := Except.ok ()) ⟨rfl, rfl⟩ ?_
  refine .step (o := Op.getPckcert "AA" "00000000000000000000000000000000" "0000" "0000") (r := none)
    ⟨rfl, hmiss, rfl⟩ ?_
  exact .here _ _

/-- The GET of version 4 has no platform to select from and goes upstream. -/
theorem alone_asking : ∃ f k,
    Alone (fun s o r s' => forks o = [] ∧ perform Keys.plainEnv .plain s o r s') ∅
      (fillForGet Keys.plainEnv .plain missing 4) (.op (.fetch f) k) ∅ := by
  have hnone : none = Store.getPlatformPool Keys.plainEnv ∅ "AA" "0000" := by
    simp [Store.getPlatformPool]
  rw [fillForGet, if_neg (by decide), if_neg (by decide)]
  exact ⟨.pckcertsIntel "01" "0000", _,
    .step (o := Op.getPlatformPool "AA" "0000") (r := none) ⟨rfl, hnone, rfl⟩ (.here _ _)⟩

/-- Two GETs have missed on one LAZY instance: that of version 4 asks the
upstream, that of version 3 does not. -/
theorem closed_never_asks_missed :
    ∃ (c : Process.Config (cacheSystem Keys.plainEnv Ocsp.noon .plain Request.Public))
      (t u : Thread (cacheSystem Keys.plainEnv Ocsp.noon .plain Request.Public)),
      Reachable (fun c => c.threads = []) Step c ∧ t ∈ c.threads ∧ u ∈ c.threads ∧
      u.request = .getPckcert missing 4 ∧ (∃ f k, u.todo = .op (.fetch f) k) ∧
      t.request = .getPckcert missing 3 ∧ ∀ f k, t.todo ≠ .op (.fetch f) k := by
  obtain ⟨f, k, hasking⟩ := alone_asking
  have harrived : Reachable (fun c => c.threads = []) Step
      (⟨∅, [⟨.getPckcert missing 4, getPckcertRequest Keys.plainEnv .plain missing 4, []⟩]⟩ :
        Process.Config (cacheSystem Keys.plainEnv Ocsp.noon .plain Request.Public)) := by
    refine reachable_arrive (S := cacheSystem Keys.plainEnv Ocsp.noon .plain Request.Public)
      (q := .getPckcert missing 4) (by rfl) ?_
    exact fun pool h => by cases h
  obtain ⟨past, hfour⟩ := reachable_alone ((alone_missed 4).trans hasking) harrived
  obtain ⟨past', hthree⟩ := reachable_alone (alone_missed 3)
    (reachable_step hfour (.arrive ∅ _ (.getPckcert missing 3) fun pool h => by cases h))
  exact ⟨_, _, _, hthree, List.mem_cons_self, List.mem_cons_of_mem _ List.mem_cons_self, rfl,
    ⟨f, k, rfl⟩, rfl,
    fun f' k' => closed_never_asks hthree _ List.mem_cons_self (.inr (.inr rfl)) f' k'⟩

end Runs

end Pccs.Cache
