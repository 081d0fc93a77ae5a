import Pccs.CertRoundTrip
import Pccs.CollateralAtomicity
import Pccs.Registration

/-!
# Manifests by two routes

A platform manifest comes with a registration, which stores it as it was given,
or with `PUT /platformcollateral`, which stores it in upper case. A registration
is known by the stored text, letter by letter.
-/
namespace Pccs.Manifests

open Text Json Fallible KeyValue Store Process Runs Coherence Cache Collateral

/-- The route that a manifest came by. -/
inductive Route where
  | post | put
deriving DecidableEq, Repr

structure Given where
  route : Route
  manifest : String
deriving DecidableEq, Repr

/-- What is stored of a manifest. -/
def Given.stored (given : Given) : String :=
  match given.route with
  | .post => given.manifest
  | .put => toAsciiUppercase given.manifest

/-- The manifest that the pool at each key was last given. -/
abbrev Memory : Type := List UInt8 → Option Given

structure State where
  db : Database
  given : Memory

section History

variable (env : Env)

/-- The platform that `POST /platforms` registers. -/
def posted (reg : Validate.PlatformReg) : RegisteredPlatform :=
  ⟨reg.qeId, reg.pceId, reg.cpuSvn, reg.pceSvn, reg.encPpid, reg.platformManifest, 0⟩

/-- The registration filled its platform. -/
def Filled (cfg : Config) (db : Database) (p : RegisteredPlatform)
    (result : Except PccsError Unit) : Prop :=
  cfg.mode ≠ .offline ∧ (cacheStatus env db p).1 = false ∧ result = .ok ()

/-- A fill without a manifest leaves a known platform the one it has. -/
def afterPost (db : Database) (p : RegisteredPlatform) (before : Memory) : Memory := fun key =>
  if key = Keys.platform env p.qeId p.pceId then
    if p.platformManifest = "" then
      (getPlatformPool env db p.qeId p.pceId).bind fun _ => before key
    else some ⟨.post, p.platformManifest⟩
  else before key

/-- An entry that no platform of the body names keeps the manifest from before
the request. -/
def afterEntry (db : Database) (before : Memory) (body : Value) (now : Memory) (pc : Value) :
    Memory := fun key =>
  if key = Keys.platform env (qeIdOf pc) (pceIdOf pc) then
    match (newPlatforms body pc).head? with
    | none => (getPlatformPool env db (qeIdOf pc) (pceIdOf pc)).bind fun _ => before key
    | some p => ((p.get "platform_manifest").bind Value.asStr).map fun m => ⟨.put, m⟩
  else now key

def afterPut (db : Database) (body : Value) (before : Memory) : Memory :=
  (arrayMember (collaterals body) "pck_certs").foldl (afterEntry env db before body) before

/-- Registrations and collateral PUTs, one after the other. The process may be
restarted with another configuration in between. -/
inductive Step : State → State → Prop
  | filled (s : State) (cfg : Config) (body : Value) (reg : Validate.PlatformReg)
      (update : UpdateType) (result : Except PccsError Unit) (db : Database)
      (hbody : Validate.platformReg body = .ok reg)
      (hrun : Exec (perform env cfg) s.db (registerPlatformRequest env cfg (posted reg) update)
        result db) (hfilled : Filled env cfg s.db (posted reg) result) :
      Step s ⟨db, afterPost env s.db (posted reg) s.given⟩
  | unfilled (s : State) (cfg : Config) (body : Value) (reg : Validate.PlatformReg)
      (update : UpdateType) (result : Except PccsError Unit) (db : Database)
      (hbody : Validate.platformReg body = .ok reg)
      (hrun : Exec (perform env cfg) s.db (registerPlatformRequest env cfg (posted reg) update)
        result db) (hfilled : ¬ Filled env cfg s.db (posted reg) result) :
      Step s ⟨db, s.given⟩
  | put (s : State) (body : Value) (version : Nat)
      (hok : (putPlatformCollateral env s.db body version).1 = .ok ()) :
      Step s ⟨(putPlatformCollateral env s.db body version).2, afterPut env s.db body s.given⟩
  | refused (s : State) (body : Value) (version : Nat) (e : PccsError)
      (herror : (putPlatformCollateral env s.db body version).1 = .error e) :
      Step s ⟨(putPlatformCollateral env s.db body version).2, s.given⟩

/-- Any store, before anything was given to it. -/
def Start (s : State) : Prop := s.given = fun _ => none

/-- The pool of a row holds the manifest that was last given for it. -/
def Remembered (s : State) : Prop :=
  ∀ qeid pceid pool given, s.db[Keys.platform env qeid pceid]? = some (.platform pool) →
    s.given (Keys.platform env qeid pceid) = some given → pool.platformManifest = given.stored

end History

section Pools

variable (env : Env)

/-- The rows of all platforms are the same. -/
def SamePools (db db' : Database) : Prop :=
  ∀ qeid pceid, db'[Keys.platform env qeid pceid]? = db[Keys.platform env qeid pceid]?

/-- One row is a pool with this manifest, the rows of other platforms are the
same. -/
def Repooled (key : List UInt8) (manifest : String) (db db' : Database) : Prop :=
  ∃ pool : PlatformPool, pool.platformManifest = manifest ∧
    ∀ qeid pceid, db'[Keys.platform env qeid pceid]? =
      if Keys.platform env qeid pceid = key then some (.platform pool)
      else db[Keys.platform env qeid pceid]?

/-- A fill writes its pool or fails; that of a mirror may not be stored. -/
def FillOutcome (key : List UInt8) (manifest : String) (db db' : Database) {α : Type} :
    Except PccsError α → Prop
  | .error _ => SamePools env db db'
  | .ok _ => Repooled env key manifest db db' ∨ (manifest = "" ∧ SamePools env db db')

variable {env} {db db₁ db' : Database} {key : List UInt8} {manifest : String}

theorem SamePools.refl (db : Database) : SamePools env db db := fun _ _ => rfl

theorem SamePools.trans (h : SamePools env db db₁) (h' : SamePools env db₁ db') :
    SamePools env db db' :=
  fun qeid pceid => (h' qeid pceid).trans (h qeid pceid)

theorem SamePools.pool (h : SamePools env db db') (qeid pceid : String) :
    getPlatformPool env db' qeid pceid = getPlatformPool env db qeid pceid := by
  unfold getPlatformPool
  rw [h qeid pceid]

theorem samePools_inert {batch : WriteBatch} (h : ∀ w ∈ batch, Inert env w) :
    SamePools env db (write db batch) :=
  fun _ _ => get_platform_inert h _ _

/-- A batch that ends with a pool and writes no other. -/
theorem repooled_write {others : WriteBatch} {pool : PlatformPool}
    (hothers : ∀ w ∈ others, ∀ qeid pceid, w.key ≠ Keys.platform env qeid pceid)
    (hkey : Keys.platform env pool.qeId pool.pceId = key)
    (hmanifest : pool.platformManifest = manifest) :
    Repooled env key manifest db (write db (others ++ [putPlatformPool env pool])) := by
  refine ⟨pool, hmanifest, fun qeid pceid => ?_⟩
  split
  · rename_i hown
    rw [hown, ← hkey]
    exact get_write_last db others [] (putPlatformPool env pool) (by simp)
  · rename_i hother
    refine get_write_of_ne db _ _ fun w hw => ?_
    obtain hw | hw := List.mem_append.mp hw
    · exact hothers w hw qeid pceid
    · cases List.mem_singleton.mp hw
      exact fun he => hother (he.symm.trans hkey)

theorem FillOutcome.before {α : Type} {r : Except PccsError α} (h : SamePools env db db₁)
    (h' : FillOutcome env key manifest db₁ db' r) : FillOutcome env key manifest db db' r := by
  cases r with
  | error e => exact h.trans h'
  | ok a =>
    obtain ⟨pool, hm, hrows⟩ | ⟨hm, hsame⟩ := h'
    · refine .inl ⟨pool, hm, fun qeid pceid => ?_⟩
      rw [hrows, h qeid pceid]
    · exact .inr ⟨hm, h.trans hsame⟩

theorem FillOutcome.after {α : Type} {r : Except PccsError α}
    (h : FillOutcome env key manifest db db₁ r) (h' : SamePools env db₁ db') :
    FillOutcome env key manifest db db' r := by
  cases r with
  | error e => exact SamePools.trans h h'
  | ok a =>
    obtain ⟨pool, hm, hrows⟩ | ⟨hm, hsame⟩ := h
    · refine .inl ⟨pool, hm, fun qeid pceid => ?_⟩
      rw [h' qeid pceid, hrows]
    · exact .inr ⟨hm, hsame.trans h'⟩

end Pools

section Fills

variable {env : Env} {cfg : Config} {s s' : Database}

theorem exec_silent {α : Type} {p : Action α} {a : α} (hp : Only (fun o => o.silent = true) p)
    (h : Exec (perform env cfg) s p a s') : s = s' :=
  exec_only Eq.refl (fun _ _ _ => Eq.trans)
    (only_mono (fun _ ho _ _ _ hs => (silent_same ho hs).symm) hp) h

theorem store_outcome {qeid pceid : String} {context : PckFetchContext} {resp : PckCertsResponse}
    {pool : PlatformPool} {tcbs : List TcbRecord} {requested : Option (String × String)}
    {r : Except PccsError (Option PckCertRecord)}
    (hpool : pckcertPool qeid pceid context.encPpid context.platformManifest resp = .ok pool)
    (h : (r, s') = commit s (storePckcerts env s cfg.mode pceid context pool resp tcbs requested)) :
    FillOutcome env (Keys.platform env qeid pceid) context.platformManifest s s' r := by
  obtain ⟨e, _, rfl, rfl⟩ | ⟨found, batch, hstore, rfl, rfl⟩ := commit_cases h
  · exact SamePools.refl _
  · obtain ⟨tcb, _, hreplace⟩ := storePckcerts_eq_ok hstore
    obtain ⟨_, _, recs, rawTcbs, rfl, _⟩ := replace_eq_ok hreplace
    obtain ⟨_, rfl⟩ := pckcertPool_eq_ok hpool
    refine .inl (repooled_write (fun w hw qeid pceid => ?_) ?_ rfl)
    · obtain hw | hw := List.mem_append.mp hw
      · obtain ⟨rec, _, rfl⟩ := List.mem_map.mp hw
        exact Keys.pckcert_ne_platform _ _ _ _ _ _
      · obtain ⟨rec, _, rfl⟩ := List.mem_map.mp hw
        exact (inert_putTcb env rec).notPlatform _ _
    · exact Keys.platform_congr (toAsciiLowercase_uppercase _) (toAsciiLowercase_uppercase _)

/-- A merged pool keeps the manifest of its platform. -/
theorem merge_outcome {rec : PckCertRecord} {publication : PlatformPublication}
    {r : Except PccsError Unit} (hrec : rec.platformManifest = "")
    (hcurrent : ∀ pool, getPlatformPool env s rec.qeid rec.pceid = some pool →
      pool.platformManifest = "")
    (h : (r, s') = commit s (mergePckcertAfterFetch env s rec publication)) :
    FillOutcome env (Keys.platform env rec.qeid rec.pceid) "" s s' r := by
  obtain ⟨e, _, rfl, rfl⟩ | ⟨u, batch, hmerge, rfl, rfl⟩ := commit_cases h
  · exact SamePools.refl _
  · obtain ⟨_, recs, rawTcbs, rfl⟩ := merge_eq_ok hmerge
    have hothers : ∀ w ∈ recs.map (putPckcert env), ∀ qeid pceid,
        w.key ≠ Keys.platform env qeid pceid := by
      intro w hw qeid pceid
      obtain ⟨rec', _, rfl⟩ := List.mem_map.mp hw
      exact Keys.pckcert_ne_platform _ _ _ _ _ _
    cases hpool : getPlatformPool env s rec.qeid rec.pceid with
    | none => exact .inl (repooled_write hothers rfl hrec)
    | some pool =>
      obtain ⟨_, hq, hp⟩ := getPlatformPool_eq_some.mp hpool
      exact .inl (repooled_write hothers (Keys.platform_congr hq hp) (hcurrent pool hpool))

theorem samePools_processNotAvailable {qeid pceid encPpid manifest : String}
    {resp : PckCertsResponse} {u : Unit} (h : Exec (perform env cfg) s
      (processNotAvailable env cfg qeid pceid encPpid manifest resp) u s') :
    SamePools env s s' := by
  have hput : ∀ p, Only (fun o => ∀ s r s', perform env cfg s o r s' → SamePools env s s')
      (act (.put (registerPlatform env p))) := by
    intro p
    refine only_call fun s r s' hs => ?_
    rw [show s' = write s [registerPlatform env p] from hs]
    exact samePools_inert (List.forall_mem_singleton.mpr (inert_registerPlatform env p))
  have hprocess : Only (fun o => ∀ s r s', perform env cfg s o r s' → SamePools env s s')
      (processNotAvailable env cfg qeid pceid encPpid manifest resp) := by
    unfold processNotAvailable
    split
    · exact only_bind (only_collect hput _) fun _ => trivial
    · trivial
  exact exec_only SamePools.refl (fun _ _ _ => SamePools.trans) hprocess h

theorem exec_publishPckcerts {qeid pceid : String} {context : PckFetchContext}
    {resp : PckCertsResponse} {requested : Option (String × String)}
    {r : Except PccsError (Option PckCertRecord)} (h : Exec (perform env cfg) s
      (publishPckcerts env cfg qeid pceid context resp requested) r s') :
    FillOutcome env (Keys.platform env qeid pceid) context.platformManifest s s' r := by
  obtain ⟨e, hvalidate, rfl⟩ | ⟨pool, s₁, hvalidate, hrest⟩ := exec_andThen h
  · obtain ⟨u, s₁, hqueue, hdone⟩ := exec_bind hvalidate
    obtain ⟨_, rfl⟩ := exec_ret hdone
    exact samePools_processNotAvailable hqueue
  · obtain ⟨u, s₂, hqueue, hdone⟩ := exec_bind hvalidate
    obtain ⟨hpool, rfl⟩ := exec_ret hdone
    have hsame := samePools_processNotAvailable hqueue
    obtain ⟨e, htcbs, rfl⟩ | ⟨tcbs, s₂, htcbs, hstore⟩ := exec_andThen hrest
    · cases exec_silent (only_fetchTcbInfos (fun _ => rfl) _) htcbs
      exact hsame
    · cases exec_silent (only_fetchTcbInfos (fun _ => rfl) _) htcbs
      exact (store_outcome hpool.symm (exec_call hstore)).before hsame

theorem exec_fillFromMirror {qeid cpusvn pcesvn pceid : String} {context : PckFetchContext}
    {r : Except PccsError (Option PckCertRecord)}
    (hcurrent : ∀ pool, getPlatformPool env s qeid pceid = some pool → pool.platformManifest = "")
    (h : Exec (perform env cfg) s (fillFromMirror cfg qeid cpusvn pcesvn pceid context) r s') :
    FillOutcome env (Keys.platform env qeid pceid) "" s s' r := by
  have hfetch : ∀ encPpid, Only (fun o => o.silent = true)
      (fetchPckcertPccs cfg qeid cpusvn pcesvn pceid encPpid) :=
    fun _ => only_parsed (P := fun o => o.silent = true) rfl _
  obtain ⟨e, hrec, rfl⟩ | ⟨rec, s₁, hrec, hrest⟩ := exec_andThen h
  · cases exec_silent (hfetch _) hrec
    exact SamePools.refl s
  cases exec_silent (hfetch _) hrec
  obtain ⟨_, _, hbad⟩ | ⟨http, s₂, _, hdone⟩ := exec_andThen hrec
  · cases hbad
  obtain ⟨hparse, rfl⟩ := exec_ret hdone
  obtain ⟨hq, hp, hm⟩ := parsePckcertPccs_platform hparse.symm
  split at hrest
  · rw [← Keys.platform_congr hq hp]
    have hpool : ∀ pool, getPlatformPool env s rec.qeid rec.pceid = some pool →
        pool.platformManifest = "" := by
      intro pool hpool
      refine hcurrent pool ?_
      rw [getPlatformPool_eq_some, Keys.platform_congr hq hp, hq, hp] at hpool
      exact getPlatformPool_eq_some.mpr hpool
    obtain ⟨e, hmerge, rfl⟩ | ⟨u, s₂, hmerge, hdone⟩ := exec_andThen hrest
    · exact merge_outcome (r := .error e) hm hpool (exec_call hmerge)
    · obtain ⟨rfl, rfl⟩ := exec_ret hdone
      exact merge_outcome (r := .ok u) hm hpool (exec_call hmerge)
  · obtain ⟨rfl, rfl⟩ := exec_ret hrest
    exact .inr ⟨rfl, SamePools.refl _⟩

theorem exec_fillPckcert {qeid cpusvn pcesvn pceid : String} {context : PckFetchContext}
    {r : Except PccsError (Option PckCertRecord)}
    (hcurrent : context.platformManifest = "" → ∀ pool,
      getPlatformPool env s qeid pceid = some pool → pool.platformManifest = "")
    (h : Exec (perform env cfg) s (fillPckcert env cfg qeid cpusvn pcesvn pceid context) r s') :
    FillOutcome env (Keys.platform env qeid pceid) context.platformManifest s s' r := by
  unfold fillPckcert at h
  split at h
  · obtain ⟨rfl, rfl⟩ := exec_ret h
    exact SamePools.refl _
  split at h
  · obtain ⟨rfl, rfl⟩ := exec_ret h
    exact SamePools.refl _
  split at h
  · rename_i hmirror
    rw [hmirror.2]
    exact exec_fillFromMirror (hcurrent hmirror.2) h
  · obtain ⟨e, hfetch, rfl⟩ | ⟨resp, s₁, hfetch, hpublish⟩ := exec_andThen h
    · cases exec_silent (only_fetchPool (fun _ => rfl) _ _ _) hfetch
      exact SamePools.refl s
    · cases exec_silent (only_fetchPool (fun _ => rfl) _ _ _) hfetch
      exact exec_publishPckcerts hpublish

theorem samePools_put {w : Write UInt8 Row} {u : Unit} (hw : Inert env w)
    (h : Exec (perform env cfg) s (act (.put w)) u s') : SamePools env s s' := by
  rw [show s' = write s [w] from exec_call h]
  exact samePools_inert (List.forall_mem_singleton.mpr hw)

theorem samePools_verifying {update : UpdateType} {u : Unit}
    (h : Exec (perform env cfg) s (fillQvCollateral env cfg update) u s') : SamePools env s s' := by
  refine exec_only SamePools.refl (fun _ _ _ => SamePools.trans)
    (only_mono (fun o ho s r s' hs => ?_) (only_fillQvCollateral update)) h
  cases ho with
  | putPckcrl rec =>
    exact samePools_put (inert_put (by decide) (by decide) (by simp) (by simp)) (.call hs)
  | putIdentity rec =>
    exact samePools_put (inert_put (by decide) (by decide) (by simp) (by simp)) (.call hs)
  | putRootcacrl crl => exact samePools_put (inert_putRootcacrl env crl) (.call hs)
  | _ =>
    cases silent_same rfl hs
    exact SamePools.refl _

end Fills

section Registrations

variable {env : Env} {cfg : Config} {s s' : Database} {p : RegisteredPlatform}

/-- A registration without a manifest goes on with the stored one. -/
theorem cacheStatus_manifest (hempty : (cacheStatus env s p).2.platformManifest = "")
    {pool : PlatformPool} (hpool : getPlatformPool env s p.qeId p.pceId = some pool) :
    pool.platformManifest = "" := by
  simp only [cacheStatus, hpool] at hempty
  split at hempty
  · exact hempty
  · rename_i hne
    exact absurd hempty hne

theorem cacheStatus_platform :
    (cacheStatus env s p).2.qeId = p.qeId ∧ (cacheStatus env s p).2.pceId = p.pceId := by
  unfold cacheStatus
  split
  · exact ⟨rfl, rfl⟩
  · split <;> exact ⟨rfl, rfl⟩

theorem exec_registerUncached {expected : Option PlatformCredentials}
    {result : Except PccsError Unit}
    (hcurrent : p.platformManifest = "" → ∀ pool,
      getPlatformPool env s p.qeId p.pceId = some pool → pool.platformManifest = "")
    (h : Exec (perform env cfg) s (registerUncached env cfg p expected) result s') :
    (cfg.mode = .offline ∧ SamePools env s s') ∨
      (cfg.mode ≠ .offline ∧
        FillOutcome env (Keys.platform env p.qeId p.pceId) p.platformManifest s s' result) := by
  have hqueue := inert_registerPlatform env { p with state := platfRegNew }
  unfold registerUncached at h
  cases hmode : cfg.mode with
  | offline =>
    simp only [hmode] at h
    obtain ⟨u, s₁, hput, hdone⟩ := exec_bind h
    obtain ⟨_, rfl⟩ := exec_ret hdone
    exact .inl ⟨rfl, samePools_put hqueue hput⟩
  | req =>
    simp only [hmode] at h
    obtain ⟨u, s₁, hput, hrest⟩ := exec_bind h
    have hsame := samePools_put hqueue hput
    have hcurrent' : p.platformManifest = "" → ∀ pool,
        getPlatformPool env s₁ p.qeId p.pceId = some pool → pool.platformManifest = "" :=
      fun hempty pool hpool => hcurrent hempty pool (hsame.pool _ _ ▸ hpool)
    refine .inr ⟨nofun, ?_⟩
    obtain ⟨e, hfill, rfl⟩ | ⟨rec, s₂, hfill, hdelete⟩ := exec_andThen hrest
    · exact FillOutcome.before hsame (exec_fillPckcert (r := .error e) hcurrent' hfill)
    · obtain ⟨u', s₃, hput', hdone⟩ := exec_bind hdelete
      obtain ⟨rfl, rfl⟩ := exec_ret hdone
      have hout := FillOutcome.before hsame (exec_fillPckcert (r := .ok rec) hcurrent' hfill)
      exact FillOutcome.after (r := .ok rec) hout (samePools_put (inert_deleteRegistered env _) hput')
  | lazy =>
    simp only [hmode] at h
    refine .inr ⟨nofun, ?_⟩
    obtain ⟨e, hfill, rfl⟩ | ⟨rec, s₁, hfill, hdone⟩ := exec_andThen h
    · exact exec_fillPckcert (r := .error e) hcurrent hfill
    · obtain ⟨rfl, rfl⟩ := exec_ret hdone
      exact exec_fillPckcert (r := .ok rec) hcurrent hfill

/-- The pools around a registration. -/
theorem exec_register {update : UpdateType} {result : Except PccsError Unit}
    (h : Exec (perform env cfg) s (registerPlatformRequest env cfg p update) result s') :
    (Filled env cfg s p result → FillOutcome env (Keys.platform env p.qeId p.pceId)
      (cacheStatus env s p).2.platformManifest s s' result) ∧
    (¬ Filled env cfg s p result → SamePools env s s') := by
  obtain ⟨current, s₀, hget, hbody⟩ := exec_bind h
  obtain ⟨_, rfl⟩ := exec_call hget
  obtain ⟨⟨cached, q⟩, s₁, hcached, hregister⟩ := exec_bind hbody
  obtain ⟨hstatus, rfl⟩ := exec_isCached hcached
  obtain ⟨hqe, hpce⟩ : (cacheStatus env s₁ p).2.qeId = p.qeId ∧
      (cacheStatus env s₁ p).2.pceId = p.pceId := cacheStatus_platform
  have hcurrent : (cacheStatus env s₁ p).2.platformManifest = "" → ∀ pool,
      getPlatformPool env s₁ (cacheStatus env s₁ p).2.qeId (cacheStatus env s₁ p).2.pceId =
        some pool → pool.platformManifest = "" := by
    intro hempty pool hpool
    rw [hqe, hpce] at hpool
    exact cacheStatus_manifest hempty hpool
  have hrest : ∀ {s₂ : Database} {result : Except PccsError Unit},
      Exec (perform env cfg) s₂ (if cfg.mode = .offline then Proc.ret (.ok ())
        else (fillQvCollateral env cfg update).bind fun _ => .ret (.ok ())) result s' →
      result = .ok () ∧ SamePools env s₂ s' := by
    intro s₂ result hrun
    split at hrun
    · obtain ⟨rfl, rfl⟩ := exec_ret hrun
      exact ⟨rfl, SamePools.refl _⟩
    · obtain ⟨u, s₃, hqv, hdone⟩ := exec_bind hrun
      obtain ⟨rfl, rfl⟩ := exec_ret hdone
      exact ⟨rfl, samePools_verifying hqv⟩
  cases hc : cached with
  | true =>
    rw [hc] at hregister hstatus
    obtain ⟨_, hbad, _⟩ | ⟨u, s₂, hdone, hlast⟩ := exec_andThen hregister
    · cases (exec_ret hbad).1
    obtain ⟨_, rfl⟩ := exec_ret hdone
    refine ⟨fun hfilled => ?_, fun _ => (hrest hlast).2⟩
    rw [Filled, ← hstatus] at hfilled
    cases hfilled.2.1
  | false =>
    rw [hc] at hregister hstatus
    cases congrArg Prod.snd hstatus
    obtain ⟨e, hun, rfl⟩ | ⟨u, s₂, hun, hlast⟩ := exec_andThen hregister
    · obtain ⟨hmode, hsame⟩ | ⟨_, hout⟩ := exec_registerUncached hcurrent hun
      · exact ⟨fun hfilled => absurd hmode hfilled.1, fun _ => hsame⟩
      · exact ⟨fun hfilled => (nomatch hfilled.2.2), fun _ => hout⟩
    · obtain ⟨rfl, hsame⟩ := hrest hlast
      obtain ⟨hmode, hsame'⟩ | ⟨hmode, hout⟩ := exec_registerUncached hcurrent hun
      · exact ⟨fun hfilled => absurd hmode hfilled.1, fun _ => hsame'.trans hsame⟩
      · rw [hqe, hpce] at hout
        refine ⟨fun _ => FillOutcome.after (r := .ok u) hout hsame, fun hunfilled => ?_⟩
        exact absurd ⟨hmode, congrArg Prod.fst hstatus.symm, rfl⟩ hunfilled

theorem remembered_of_samePools {db db' : Database} {given : Memory}
    (h : Remembered env ⟨db, given⟩) (hsame : SamePools env db db') : Remembered env ⟨db', given⟩ := by
  intro qeid pceid pool g hrow hgiven
  exact h qeid pceid pool g ((hsame qeid pceid).symm.trans hrow) hgiven

theorem remembered_filled {given : Memory} (h : Remembered env ⟨s, given⟩)
    (hout : FillOutcome env (Keys.platform env p.qeId p.pceId)
      (cacheStatus env s p).2.platformManifest s s' (Except.ok () : Except PccsError Unit)) :
    Remembered env ⟨s', afterPost env s p given⟩ := by
  intro qeid pceid pool g hrow hgiven
  simp only [afterPost] at hgiven
  split at hgiven
  · rename_i hown
    split at hgiven
    · rename_i hempty
      obtain ⟨old, hpool, hgiven⟩ := Option.bind_eq_some_iff.mp hgiven
      have hold : old.platformManifest = g.stored := by
        refine h p.qeId p.pceId old g (getPlatformPool_eq_some.mp hpool).1 ?_
        rw [← hown]
        exact hgiven
      have hstatus : (cacheStatus env s p).2.platformManifest = old.platformManifest := by
        simp only [cacheStatus, hpool, if_pos hempty]
      obtain ⟨new, hm, hrows⟩ | ⟨_, hsame⟩ := hout
      · rw [hrows, if_pos hown] at hrow
        cases hrow
        rw [hm, hstatus, hold]
      · exact remembered_of_samePools h hsame qeid pceid pool g hrow hgiven
    · rename_i hne
      cases hgiven
      have hstatus : (cacheStatus env s p).2.platformManifest = p.platformManifest := by
        unfold cacheStatus
        split
        · rfl
        · rw [if_neg hne]
      rw [hstatus] at hout
      obtain ⟨new, hm, hrows⟩ | ⟨hempty, _⟩ := hout
      · rw [hrows, if_pos hown] at hrow
        cases hrow
        exact hm
      · exact absurd hempty hne
  · rename_i hother
    refine h qeid pceid pool g ?_ hgiven
    obtain ⟨new, _, hrows⟩ | ⟨_, hsame⟩ := hout
    · rw [hrows, if_neg hother] at hrow
      exact hrow
    · exact (hsame qeid pceid).symm.trans hrow

end Registrations

section Entries

variable {env : Env} {db d : Database} {body pc : Value} {version : Nat} {before now : Memory}

/-- The manifest of an entry's pool: from the body, or the stored one. -/
theorem entryPool_manifest (info : PckCert.PckCertInfo) :
    (entryPool env db body pc info).platformManifest =
      match (newPlatforms body pc).head? with
      | none => (basePool env db pc).platformManifest
      | some p => upper p "platform_manifest" := by
  unfold entryPool
  cases (newPlatforms body pc).head? <;> rfl

theorem entry_repooled {batch : WriteBatch} (h : entryWrites env db body version pc = .ok batch) :
    ∃ info, Repooled env (Keys.platform env (qeIdOf pc) (pceIdOf pc))
      (entryPool env db body pc info).platformManifest d (write d batch) := by
  obtain ⟨info, _, h⟩ := bind_eq_ok.mp h
  obtain ⟨tcbInfo, _, h⟩ := bind_eq_ok.mp h
  obtain ⟨selected, _, h⟩ := bind_eq_ok.mp h
  cases pure_eq_ok.mp h
  refine ⟨info, repooled_write (fun w hw qeid pceid => ?_) ?_ rfl⟩
  · obtain ⟨level, _, rfl⟩ := List.mem_map.mp hw
    exact Keys.pckcert_ne_platform _ _ _ _ _ _
  · obtain ⟨hq, hp⟩ := basePool_ids env db pc
    rw [entryPool_qeId, entryPool_pceId]
    exact Keys.platform_congr hq.symm hp.symm

/-- One entry. What it keeps is from before the request, not from the entries
before it. -/
theorem remembered_entry (hbefore : Remembered env ⟨db, before⟩) (hnow : Remembered env ⟨d, now⟩)
    {batch : WriteBatch} (h : entryWrites env db body version pc = .ok batch) :
    Remembered env ⟨write d batch, afterEntry env db before body now pc⟩ := by
  intro qeid pceid pool g hrow hgiven
  obtain ⟨info, new, hm, hrows⟩ := entry_repooled (d := d) h
  rw [entryPool_manifest] at hm
  rw [hrows] at hrow
  simp only [afterEntry] at hgiven
  split at hgiven
  · rename_i hown
    rw [if_pos hown] at hrow
    cases hrow
    cases hhead : (newPlatforms body pc).head? with
    | none =>
      simp only [hhead] at hm hgiven
      obtain ⟨old, hpool, hgiven⟩ := Option.bind_eq_some_iff.mp hgiven
      have hold := hbefore _ _ old g (getPlatformPool_eq_some.mp hpool).1 (hown ▸ hgiven)
      rw [hm, basePool, hpool]
      exact hold
    | some p =>
      simp only [hhead] at hm hgiven
      obtain ⟨m, hmember, rfl⟩ := Option.map_eq_some_iff.mp hgiven
      rw [hm, upper, hmember]
      rfl
  · rename_i hother
    rw [if_neg hother] at hrow
    exact hnow qeid pceid pool g hrow hgiven

theorem remembered_entries (hbefore : Remembered env ⟨db, before⟩) (pcs : List Value)
    {batches : List WriteBatch} (hnow : Remembered env ⟨d, now⟩)
    (h : pcs.mapM (entryWrites env db body version) = .ok batches) :
    Remembered env ⟨write d batches.flatten, pcs.foldl (afterEntry env db before body) now⟩ := by
  induction pcs generalizing d now batches with
  | nil =>
    cases pure_eq_ok.mp h
    exact hnow
  | cons pc pcs ih =>
    obtain ⟨batch, rest, hentry, hrest, rfl⟩ := mapM_cons_eq_ok.mp h
    rw [List.flatten_cons, write_append, List.foldl_cons]
    exact ih (remembered_entry hbefore hnow hentry) hrest

theorem afterEntry_congr {db' : Database} (h : SamePools env db db') :
    afterEntry env db' before body = afterEntry env db before body := by
  funext now pc key
  unfold afterEntry
  rw [h.pool]

theorem remembered_put {given : Memory} (h : Remembered env ⟨db, given⟩) (body : Value)
    (version : Nat) :
    ((putPlatformCollateral env db body version).1 = .ok () →
      Remembered env ⟨(putPlatformCollateral env db body version).2, afterPut env db body given⟩) ∧
    (∀ e, (putPlatformCollateral env db body version).1 = .error e →
      Remembered env ⟨(putPlatformCollateral env db body version).2, given⟩) := by
  have hdocs : SamePools env db (write db (documentWrites env body version)) :=
    samePools_inert (documentWrites_inert env body version)
  have hthen := remembered_of_samePools h hdocs
  unfold putPlatformCollateral
  cases Validate.platformCollateral body version with
  | error e => exact ⟨nofun, fun _ _ => h⟩
  | ok u =>
    cases hwrites : platformWrites env (write db (documentWrites env body version)) body version with
    | error e =>
      simp only [hwrites]
      exact ⟨nofun, fun _ _ => hthen⟩
    | ok batch =>
      simp only [hwrites]
      refine ⟨fun _ => ?_, nofun⟩
      obtain ⟨batches, hbatches, hflat⟩ := bind_eq_ok.mp hwrites
      cases pure_eq_ok.mp hflat
      rw [afterPut, ← afterEntry_congr hdocs]
      exact remembered_entries hthen _ hthen hbatches

end Entries

section Runs

variable {env : Env}

theorem remembered_step (s s' : State) (h : Remembered env s) (hstep : Step env s s') :
    Remembered env s' := by
  cases hstep with
  | filled cfg body reg update result db hbody hrun hfilled =>
    have hout := (exec_register hrun).1 hfilled
    rw [hfilled.2.2] at hout
    exact remembered_filled h hout
  | unfilled cfg body reg update result db hbody hrun hfilled =>
    exact remembered_of_samePools h ((exec_register hrun).2 hfilled)
  | put body version hok => exact (remembered_put h body version).1 hok
  | refused body version e herror => exact (remembered_put h body version).2 e herror

theorem remembered {s : State} (h : Reachable Start (Step env) s) : Remembered env s := by
  refine invariant (fun s hs => ?_) remembered_step h
  intro qeid pceid pool g _ hgiven
  rw [hs] at hgiven
  cases hgiven

end Runs

section Recognition

variable {env : Env} {cfg : Config} {db db' : Database} {p : RegisteredPlatform}

/-- Asking the upstream for the certificates of a platform, publishing what it
answered, or writing a row of the queue. -/
def Filling : Op → Prop
  | .fetch (.pckcertsIntel _ _) => True
  | .fetch (.pckcertsIntelManifest _ _) => True
  | .fetch (.pckcertPccs _ _ _ _ _) => True
  | .storePckcerts _ _ _ _ _ _ => True
  | .mergePckcert _ _ => True
  | .put w => asBytes Keys.pregPrefix <+: w.key
  | _ => False

/-- The operations of a registration that neither fills nor queues anything. -/
def Idle (env : Env) (cfg : Config) (s : Database) (o : Op) (r : o.Res) (s' : Database) : Prop :=
  ¬ Filling o ∧ perform env cfg s o r s'

/-- The registration is treated as cached. -/
structure Recognised (env : Env) (cfg : Config) (db : Database) (p : RegisteredPlatform) : Prop where
  cached : (cacheStatus env db p).1 = true
  idle : ∀ update result db',
    Exec (perform env cfg) db (registerPlatformRequest env cfg p update) result db' →
      Exec (Idle env cfg) db (registerPlatformRequest env cfg p update) result db'

/-- The manifest is written as its route stores it. One that is empty asks for
the record of its level instead. -/
def WrittenAsStored (env : Env) (db : Database) (given : Given) (p : RegisteredPlatform) : Prop :=
  if p.platformManifest = "" then
    (getPckcert env db p.qeId p.cpuSvn p.pceSvn p.pceId).isSome = true
  else match given.route with
    | .post => p.platformManifest = given.manifest
    | .put => IsUpper p.platformManifest

theorem not_filling_verifying {o : Op} (h : Verifying env o) : ¬ Filling o := by
  cases h with
  | putPckcrl rec => exact unqueued_putPckcrl rec
  | putIdentity rec => exact unqueued_putIdentity rec
  | putRootcacrl crl => exact unqueued_putRootcacrl crl
  | _ => exact not_false

theorem only_isCached (p : RegisteredPlatform) : Only (fun o => ¬ Filling o) (isCached p) := by
  refine only_bind (only_call not_false) fun found => ?_
  cases found with
  | none => trivial
  | some platform =>
    simp only
    split
    · exact only_bind (only_call not_false) fun _ => trivial
    · trivial

/-- Once it is known to be cached, a registration only completes the
verification collateral. -/
theorem idle_of_cached (hcached : (cacheStatus env db p).1 = true) {update : UpdateType}
    {result : Except PccsError Unit}
    (h : Exec (perform env cfg) db (registerPlatformRequest env cfg p update) result db') :
    Exec (Idle env cfg) db (registerPlatformRequest env cfg p update) result db' := by
  obtain ⟨current, s₀, hget, hbody⟩ := exec_bind h
  obtain ⟨⟨cached, q⟩, s₁, hstatus, hregister⟩ := exec_bind hbody
  refine Exec.bind (hget.restrict (only_call not_false)) ?_
  refine Exec.bind (hstatus.restrict (only_isCached p)) ?_
  obtain ⟨_, rfl⟩ := exec_call hget
  obtain ⟨hsame, rfl⟩ := exec_isCached hstatus
  obtain rfl : cached = true := (congrArg Prod.fst hsame).trans hcached
  obtain ⟨_, hbad, _⟩ | ⟨u, s₂, hdone, hrest⟩ := exec_andThen hregister
  · cases (exec_ret hbad).1
  obtain ⟨_, rfl⟩ := exec_ret hdone
  refine Exec.andThen_ok (a := ()) (.ret _ _) ?_
  split at hrest
  · rename_i hoffline
    obtain ⟨rfl, rfl⟩ := exec_ret hrest
    rw [if_pos hoffline]
    exact .ret _ _
  · rename_i honline
    rw [if_neg honline]
    exact hrest.restrict (only_bind (only_mono (fun _ => not_filling_verifying)
      (only_fillQvCollateral update)) fun _ => trivial)

theorem cacheStatus_iff {pool : PlatformPool} {given : Given}
    (hpool : getPlatformPool env db p.qeId p.pceId = some pool)
    (hstored : pool.platformManifest = given.stored)
    (hcase : toAsciiLowercase p.platformManifest = toAsciiLowercase given.manifest) :
    (cacheStatus env db p).1 = true ↔ WrittenAsStored env db given p := by
  simp only [cacheStatus, hpool, WrittenAsStored]
  by_cases hempty : p.platformManifest = ""
  · simp only [if_pos hempty]
  · simp only [if_neg hempty, hstored, decide_eq_true_eq]
    obtain ⟨route, manifest⟩ := given
    cases route with
    | post => exact eq_comm
    | put =>
      change toAsciiUppercase manifest = p.platformManifest ↔ IsUpper p.platformManifest
      rw [← (uppercase_eq_iff _ _).mpr hcase]
      rfl

/-- A known manifest is recognised exactly if it is written as it was stored: a
posted one as it was posted, one that was put in upper case. -/
theorem manifest_recognised_iff {s : State} (h : Reachable Start (Step env) s)
    {pool : PlatformPool} (hpool : getPlatformPool env s.db p.qeId p.pceId = some pool)
    {given : Given} (hgiven : s.given (Keys.platform env p.qeId p.pceId) = some given)
    (hcase : toAsciiLowercase p.platformManifest = toAsciiLowercase given.manifest) :
    Recognised env cfg s.db p ↔ WrittenAsStored env s.db given p := by
  have hstored := remembered h _ _ pool given (getPlatformPool_eq_some.mp hpool).1 hgiven
  rw [← cacheStatus_iff hpool hstored hcase]
  exact ⟨Recognised.cached, fun hcached => ⟨hcached, fun _ _ _ => idle_of_cached hcached⟩⟩

end Recognition

section Known

/-- Percent decoding does not change a PEM. -/
theorem percentDecode_toPem (der : List UInt8) :
    Validate.percentDecode (PckCert.toPem der) = PckCert.toPem der := by
  have hpad : '='.toNat ≤ 127 ∧ '='.toNat ≠ 37 := by decide
  have halphabet : ∀ n < 64, (PckCert.base64Char n).toNat ≤ 127 ∧
      (PckCert.base64Char n).toNat ≠ 37 := by decide
  have hmarkers : ∀ c ∈ PckCert.beginMarker.toList ++ PckCert.endMarker.toList,
      c.toNat ≤ 127 ∧ c.toNat ≠ 37 := by
    have hall : ((PckCert.beginMarker.toList ++ PckCert.endMarker.toList).all fun c =>
        decide (c.toNat ≤ 127 ∧ c.toNat ≠ 37)) = true := by decide +kernel
    exact fun c hc => of_decide_eq_true (List.all_eq_true.mp hall c hc)
  have hplain : ∀ c ∈ PckCert.armor der, c.toNat ≤ 127 ∧ c.toNat ≠ 37 := by
    intro c hc
    rw [PckCert.armor, List.mem_append, List.mem_append] at hc
    obtain hc | hc | hc := hc
    · exact hmarkers c (List.mem_append_left _ hc)
    · exact PckCert.base64Encode_forall (P := fun c => c.toNat ≤ 127 ∧ c.toNat ≠ 37)
        hpad halphabet der c hc
    · exact hmarkers c (List.mem_append_right _ hc)
  have hbytes : ∀ b ∈ (PckCert.armor der).flatMap String.utf8EncodeChar, b ≠ 37 := by
    intro b hb he
    obtain ⟨c, hc, hb⟩ := List.mem_flatMap.mp hb
    obtain ⟨hle, hne⟩ := hplain c hc
    rw [utf8EncodeChar_ascii hle, List.mem_singleton] at hb
    have hnat := congrArg UInt8.toNat (hb.symm.trans he)
    simp only [UInt8.toNat_ofNat', UInt8.toNat_ofNat] at hnat
    omega
  rw [Validate.percentDecode, asBytes_eq, PckCert.toPem, String.toList_ofList,
    Encoding.percentDecodeBytes_plain hbytes, Encoding.fromUtf8Lossy,
    Encoding.utf8Lossy_ascii fun c hc => (hplain c hc).1]

open PckCert Der in
/-- A certificate of the platform CA. -/
def knownCert : CertValue :=
  { plainCert with issuer := [.primitive ⟨0x0C, by decide⟩ (asBytes "Platform")] }

def knownPem : String := PckCert.toPem knownCert.der

open PckCert Der in
theorem knownCert_none : knownCert.NoneBefore := by
  have hhead : knownCert.head ++ knownCert.before.map CertExtension.node =
      [.constructed ⟨0xA0, by decide⟩ [.primitive integerTag (integer 2)], .primitive integerTag [1],
        .constructed sequenceTag [],
        .constructed sequenceTag [.primitive ⟨0x0C, by decide⟩ (asBytes "Platform")],
        .constructed sequenceTag [], .constructed sequenceTag [], .constructed sequenceTag []] := rfl
  have hempty : ¬ StartsWith sgxExtOid [] := by
    rintro ⟨rest, h⟩
    cases h
  have hname : ¬ StartsWith sgxExtOid [.primitive ⟨0x0C, by decide⟩ (asBytes "Platform")] := by
    rintro ⟨rest, h⟩
    have htag := (Node.primitive.inj (List.cons.inj h).1).1
    exact absurd (congrArg Subtype.val htag) (by decide)
  have hversion : (⟨0xA0, by decide⟩ : ConstructedTag) ≠ sequenceTag :=
    fun h => absurd (congrArg Subtype.val h) (by decide)
  rw [CertValue.NoneBefore, hhead]
  simp [AllSilent, Node.Silent, hempty, hname, hversion]

theorem parse_knownPem : PckCert.parsePckCert knownPem = .ok knownCert.info := by
  rw [knownPem, PckCert.parsePckCert_toPem]
  exact PckCert.parseDer_der (by decide +kernel) knownCert_none

/-- One certificate, and no raw level asked for. -/
def knownEntry : Value := .object [("qe_id", .string "A1"), ("pce_id", .string "0000"),
  ("enc_ppid", .string ""), ("certs", .array [.object [("tcb", .object []),
    ("tcbm", .string "000000000000000000000000000000000000"), ("cert", .string knownPem)]])]

/-- The manifest comes in lower case. -/
def knownBody : Value := .object [
  ("platforms", .array [.object [("qe_id", .string "A1"), ("pce_id", .string "0000"),
    ("platform_manifest", .string "ab")]]),
  ("collaterals", .object [
    ("version", .posInt 4),
    ("pck_certs", .array [knownEntry]),
    ("tcbinfos", .array [.object [("fmspc", .string "04"),
      ("sgx_tcbinfo", .object [("tcbInfo", .object []), ("signature", .string "")])]]),
    ("certificates", .object [("SGX-PCK-Certificate-Issuer-Chain", .object [])])])]

def knownPool : PlatformPool :=
  { qeId := "A1", pceId := "0000", platformManifest := "AB", fmspc := "04", ca := "PLATFORM",
    certs := [⟨"000000000000000000000000000000000000", knownPem⟩] }

/-- The empty store after the request. -/
def known : State :=
  ⟨(putPlatformCollateral Keys.plainEnv ∅ knownBody 4).2,
    afterPut Keys.plainEnv ∅ knownBody fun _ => none⟩

theorem knownEntry_certs :
    entryCerts knownEntry = [("000000000000000000000000000000000000", knownPem)] := by
  have hcerts : entryCerts knownEntry =
      [("000000000000000000000000000000000000", Validate.percentDecode knownPem)] := rfl
  rw [hcerts, knownPem, percentDecode_toPem]

theorem knownEntry_writes {env : Env} {db : Database}
    (h : getPlatformPool env db "A1" "0000" = none) :
    entryWrites env db knownBody 4 knownEntry = .ok [putPlatformPool env knownPool] := by
  have hca : knownCert.info.ca = "PLATFORM" := by decide +kernel
  have hinfo : entryInfo knownEntry = .ok knownCert.info := by
    have hfirst : (entryCerts knownEntry).head? =
        some ("000000000000000000000000000000000000", knownPem) := by
      rw [knownEntry_certs]
      rfl
    have hfmspc : knownCert.info.fmspc ≠ "" := by decide
    exact entryInfo_eq_ok.mpr ⟨_, hfirst, parse_knownPem, hfmspc, by rw [hca]; decide⟩
  have htcb : entryTcbInfo knownBody 4 knownCert.info.fmspc = .ok (.object []) := rfl
  have hbase : basePool env db knownEntry = { qeId := "A1", pceId := "0000" } := by
    have hnone : getPlatformPool env db (qeIdOf knownEntry) (pceIdOf knownEntry) = none := h
    rw [basePool, hnone]
    rfl
  have hlevels : entryLevels env db knownBody knownEntry = [] := by
    rw [entryLevels, hbase]
    rfl
  have hpool : entryPool env db knownBody knownEntry knownCert.info = knownPool := by
    simp only [entryPool, hbase, knownEntry_certs, hca]
    rfl
  refine bind_eq_ok.mpr ⟨_, hinfo, bind_eq_ok.mpr ⟨_, htcb, ?_⟩⟩
  rw [hlevels, hpool]
  rfl

theorem knownBody_checked : Validate.platformCollateral knownBody 4 = .ok () := by
  have hpem : knownPem ≠ "" := by
    intro hempty
    have hlist := congrArg String.toList hempty
    rw [knownPem, PckCert.toPem, String.toList_ofList, PckCert.armor, PckCert.beginMarker_cons] at hlist
    cases hlist
  have hcert : Validate.checkCert (.object [("tcb", .object []),
      ("tcbm", .string "000000000000000000000000000000000000"), ("cert", .string knownPem)]) =
        .ok () :=
    bind_eq_ok.mpr ⟨(), rfl, bind_eq_ok.mpr ⟨(), rfl, bind_eq_ok.mpr ⟨_, rfl,
      bind_eq_ok.mpr ⟨(), rfl, bind_eq_ok.mpr ⟨knownPem, rfl, reject_eq_ok.mpr hpem⟩⟩⟩⟩⟩
  have hentry : Validate.checkPckCerts knownEntry = .ok () :=
    bind_eq_ok.mpr ⟨(), rfl, bind_eq_ok.mpr ⟨_, rfl, bind_eq_ok.mpr ⟨(), rfl,
      bind_eq_ok.mpr ⟨_, rfl, bind_eq_ok.mpr ⟨(), rfl, bind_eq_ok.mpr ⟨_, rfl,
      bind_eq_ok.mpr ⟨(), rfl, bind_eq_ok.mpr ⟨_, rfl, bind_eq_ok.mpr ⟨_, rfl,
        forM_eq_ok.mpr (List.forall_mem_singleton.mpr hcert)⟩⟩⟩⟩⟩⟩⟩⟩⟩
  exact bind_eq_ok.mpr ⟨(), rfl, bind_eq_ok.mpr ⟨_, rfl, bind_eq_ok.mpr ⟨(), rfl,
    bind_eq_ok.mpr ⟨_, rfl, bind_eq_ok.mpr ⟨(), rfl, bind_eq_ok.mpr ⟨_, rfl,
      bind_eq_ok.mpr ⟨(), forM_eq_ok.mpr (List.forall_mem_singleton.mpr hentry),
        bind_eq_ok.mpr ⟨_, rfl, bind_eq_ok.mpr ⟨(), rfl, rfl⟩⟩⟩⟩⟩⟩⟩⟩⟩

theorem known_writes (env : Env) :
    platformWrites env (write ∅ (documentWrites env knownBody 4)) knownBody 4 =
      .ok [putPlatformPool env knownPool] := by
  have hnone : getPlatformPool env (write ∅ (documentWrites env knownBody 4)) "A1" "0000" =
      none := by
    rw [SamePools.pool (samePools_inert (documentWrites_inert env knownBody 4))]
    simp [getPlatformPool]
  have hentries : arrayMember (collaterals knownBody) "pck_certs" = [knownEntry] := rfl
  rw [platformWrites, hentries]
  exact bind_eq_ok.mpr ⟨_, mapM_cons_eq_ok.mpr ⟨_, [], knownEntry_writes hnone, rfl, rfl⟩, rfl⟩

theorem known_accepted : putPlatformCollateral Keys.plainEnv ∅ knownBody 4 =
    (.ok (), write (write ∅ (documentWrites Keys.plainEnv knownBody 4))
      [putPlatformPool Keys.plainEnv knownPool]) := by
  rw [putPlatformCollateral, knownBody_checked]
  simp only [known_writes]
  rfl

theorem known_reachable : Reachable Start (Step Keys.plainEnv) known := by
  have hstart : Start ⟨∅, fun _ => none⟩ := rfl
  refine reachable_step (reachable_start hstart) ?_
  exact .put ⟨∅, fun _ => none⟩ knownBody 4 (by rw [known_accepted])

theorem known_pool : getPlatformPool Keys.plainEnv known.db "A1" "0000" = some knownPool := by
  have hrow : known.db[Keys.platform Keys.plainEnv "A1" "0000"]? = some (.platform knownPool) := by
    rw [known, known_accepted]
    exact get_write_last _ [] [] (putPlatformPool Keys.plainEnv knownPool) (by simp)
  exact getPlatformPool_eq_some.mpr ⟨hrow, rfl, rfl⟩

theorem known_given : known.given (Keys.platform Keys.plainEnv "A1" "0000") = some ⟨.put, "ab"⟩ := by
  have hentries : arrayMember (collaterals knownBody) "pck_certs" = [knownEntry] := rfl
  have hids : qeIdOf knownEntry = "A1" ∧ pceIdOf knownEntry = "0000" := ⟨rfl, rfl⟩
  have hhead : (newPlatforms knownBody knownEntry).head? = some (.object [("qe_id", .string "A1"),
      ("pce_id", .string "0000"), ("platform_manifest", .string "ab")]) := rfl
  simp only [known, afterPut, hentries, List.foldl_cons, List.foldl_nil, afterEntry, hids, hhead,
    if_true]
  rfl

/-- The registration of the platform with a manifest. -/
def asked (manifest : String) : RegisteredPlatform := ⟨"A1", "0000", "", "", "", manifest, 0⟩

theorem manifest_recognised_iff_upper :
    Recognised Keys.plainEnv reqCfg known.db (asked "AB") :=
  (manifest_recognised_iff (p := asked "AB") known_reachable known_pool known_given (by decide)).mpr
    (by decide : IsUpper "AB")

/-- The manifest that was put is not known by the same text. -/
theorem put_manifest_unrecognised :
    Reachable Start (Step Keys.plainEnv) known ∧
      getPlatformPool Keys.plainEnv known.db "A1" "0000" = some knownPool ∧
      known.given (Keys.platform Keys.plainEnv "A1" "0000") = some ⟨.put, "ab"⟩ ∧
      ¬ Recognised Keys.plainEnv reqCfg known.db (asked "ab") := by
  refine ⟨known_reachable, known_pool, known_given, fun h => ?_⟩
  have hstatus : (cacheStatus Keys.plainEnv known.db (asked "ab")).1 = true ↔
      WrittenAsStored Keys.plainEnv known.db ⟨.put, "ab"⟩ (asked "ab") :=
    cacheStatus_iff known_pool rfl rfl
  have hupper : IsUpper "ab" := hstatus.mp h.cached
  exact absurd hupper (by decide)

end Known

end Pccs.Manifests
