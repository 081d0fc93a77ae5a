import Pccs.CacheRules
import Pccs.Queue

/-!
# The queue around a registration

In REQ mode a registration of an uncached platform queues its own row, fills the
platform, and takes its row out again. The fill queues a row for every level the
upstream has no certificate for. Those rows are named by a decimal PCESVN and
the registration's by a hexadecimal one, in one key space: the two words may be
the same, and then the reported row takes the place of the registration's own
and leaves the queue with it.
-/
namespace Pccs.Cache

open Text Json Fallible KeyValue Store Process Queue

section Outcome

variable (env : Env) (cfg : Config)

/-- The cache status of a registration, and the registration with the stored
manifest if it brings none. -/
def cacheStatus (db : Database) (p : RegisteredPlatform) : Bool × RegisteredPlatform :=
  match getPlatformPool env db p.qeId p.pceId with
  | none => (false, p)
  | some platform =>
    if p.platformManifest = "" then
      ((getPckcert env db p.qeId p.cpuSvn p.pceSvn p.pceId).isSome,
        { p with platformManifest := platform.platformManifest })
    else (decide (platform.platformManifest = p.platformManifest), p)

/-- The upstream answers each exchange as it is told. -/
def answering (answers : Fetch → Except PccsError HttpResponse) (s : Database) :
    (o : Op) → o.Res → Database → Prop
  | .fetch f, r, s' => r = answers f ∧ s' = s
  | o, r, s' => perform env cfg s o r s'

/-- The pool that a fill with these credentials is given. -/
def poolAnswer (answers : Fetch → Except PccsError HttpResponse)
    (encPpid platformManifest pceid : String) : Except PccsError PckCertsResponse :=
  if platformManifest = "" ∧ encPpid.toList.all (· == '0') = true then .error .noCacheData
  else (answers (poolFetch encPpid platformManifest pceid)).bind (parsePckcerts env)

/-- A pool is asked for: with a credential, and of a mirror only by manifest. -/
def asksPool (p : RegisteredPlatform) : Prop :=
  cfg.enabled = true ∧ ¬ (cfg.isIntel = true ∧ p.encPpid = "" ∧ p.platformManifest = "") ∧
    ¬ (cfg.isIntel = false ∧ p.platformManifest = "")

instance (p : RegisteredPlatform) : Decidable (asksPool cfg p) :=
  inferInstanceAs (Decidable (_ ∧ _))

/-- The rows of the levels that the upstream reports as not available and whose
components can be read. -/
def reported (answers : Fetch → Except PccsError HttpResponse) (p : RegisteredPlatform) :
    List RegisteredPlatform :=
  if asksPool cfg p then
    match poolAnswer env answers p.encPpid p.platformManifest p.pceId with
    | .ok resp => resp.notAvailable.filterMap
        (notAvailableRow p.qeId p.pceId p.encPpid p.platformManifest)
    | .error _ => []
  else []

def newRow (p : RegisteredPlatform) : RegisteredPlatform := { p with state := platfRegNew }

/-- The queue is what it was, without the row of the registration and with the
reported rows; a registration that failed is still queued as new. -/
def QueueFramed (s s' : Database) (p : RegisteredPlatform) (rows : List RegisteredPlatform) :
    Except PccsError Unit → Prop
  | .ok _ =>
    (∀ q ∈ rows, s'[pregKey env q]? = some (.registered (normalizeReg q))) ∧
    ∀ key, asBytes Keys.pregPrefix <+: key → (∀ q ∈ rows, pregKey env q ≠ key) →
      s'[key]? = if pregKey env p = key then none else s[key]?
  | .error _ => s'[pregKey env p]? = some (.registered (normalizeReg (newRow p)))

end Outcome

section Rows

variable {env : Env} {p q : RegisteredPlatform} {tcb : Value}

theorem noSlash_twoUpperHex {n : Nat} (h : n < 256) : NoSlash (Selection.twoUpperHex n) := by
  have key : ∀ n < 256, NoSlash (Selection.twoUpperHex n) := by decide +kernel
  exact key n h

theorem noSlash_join {words : List String} (h : ∀ w ∈ words, NoSlash w) :
    NoSlash (String.join words) := by
  intro hmem
  rw [String.toList_join, List.mem_flatMap] at hmem
  obtain ⟨w, hw, hmem⟩ := hmem
  exact h w hw hmem

theorem notAvailableRow_noSlash {qeid pceid encPpid manifest : String}
    (h : notAvailableRow qeid pceid encPpid manifest tcb = some q) :
    q.qeId = qeid ∧ q.pceId = pceid ∧ NoSlash q.cpuSvn ∧ NoSlash q.pceSvn ∧
      q.encPpid = encPpid ∧ q.platformManifest = manifest ∧ q.state = platfRegNotAvailable := by
  obtain ⟨cpuSvn, hcpu, h⟩ := Option.bind_eq_some_iff.mp h
  obtain ⟨pceSvn, _, h⟩ := Option.bind_eq_some_iff.mp h
  cases h
  refine ⟨rfl, rfl, ?_, noSlash_toString _, rfl, rfl, rfl⟩
  obtain ⟨words, hwords, rfl⟩ := Option.map_eq_some_iff.mp hcpu
  refine noSlash_join fun w hw => ?_
  obtain ⟨i, _, hi⟩ := exists_of_mem_option hwords w hw
  obtain ⟨svn, _, hi⟩ := Option.bind_eq_some_iff.mp hi
  split at hi
  · cases hi
  · rename_i hle
    cases hi
    have hsmall : svn.toNat ≤ 255 := UInt64.not_lt.mp hle
    exact noSlash_twoUpperHex (by omega)

theorem mem_reported {cfg : Config} {answers : Fetch → Except PccsError HttpResponse}
    (h : q ∈ reported env cfg answers p) : ∃ tcb,
      notAvailableRow p.qeId p.pceId p.encPpid p.platformManifest tcb = some q := by
  unfold reported at h
  split at h
  · split at h
    · obtain ⟨tcb, _, hq⟩ := List.mem_filterMap.mp h
      exact ⟨tcb, hq⟩
    · cases h
  · cases h

/-- Rows of one platform share a key exactly if they are of one level. -/
theorem pregKey_reported (hinj : Function.Injective env.hash128Hex) (hqe : q.qeId = p.qeId)
    (hpce : q.pceId = p.pceId) (hcpu : NoSlash q.cpuSvn) (hsvn : NoSlash q.pceSvn) :
    pregKey env p = pregKey env q ↔ SameIdentity q p := by
  constructor
  · intro hkey
    have hjoin := (Keys.make_inj hinj).mp hkey
    simp only [Keys.joinLower, List.map_cons, List.map_nil, hqe, hpce] at hjoin
    obtain ⟨h₃, h₄⟩ := joinSlash_tail_inj ((noSlash_lowercase _).mpr hcpu)
      ((noSlash_lowercase _).mpr hsvn) hjoin
    exact ⟨by rw [hqe], by rw [hpce], h₃.symm, h₄.symm⟩
  · intro hsame
    exact (pregKey_congr hsame).symm

/-- Reported rows of one key are one row. -/
theorem reported_unique (hinj : Function.Injective env.hash128Hex) {cfg : Config}
    {answers : Fetch → Except PccsError HttpResponse} {q₁ q₂ : RegisteredPlatform}
    (h₁ : q₁ ∈ reported env cfg answers p) (h₂ : q₂ ∈ reported env cfg answers p)
    (hkey : pregKey env q₁ = pregKey env q₂) : normalizeReg q₁ = normalizeReg q₂ := by
  obtain ⟨_, h₁⟩ := mem_reported h₁
  obtain ⟨_, h₂⟩ := mem_reported h₂
  obtain ⟨hq₁, hp₁, _, _, he₁, hm₁, hs₁⟩ := notAvailableRow_noSlash h₁
  obtain ⟨hq₂, hp₂, hcpu, hsvn, he₂, hm₂, hs₂⟩ := notAvailableRow_noSlash h₂
  obtain ⟨_, _, h₃, h₄⟩ := (pregKey_reported hinj (hq₂.trans hq₁.symm) (hp₂.trans hp₁.symm) hcpu
    hsvn).mp hkey
  simp only [normalizeReg, hq₁, hp₁, he₁, hm₁, hs₁, hq₂, hp₂, he₂, hm₂, hs₂,
    (uppercase_eq_iff _ _).mpr h₃, (uppercase_eq_iff _ _).mpr h₄]

end Rows

section Queues

variable {env : Env} {cfg : Config} {answers : Fetch → Except PccsError HttpResponse}
  {s s' s₁ s₂ s₃ : Database}

/-- The rows of the queue are the same. -/
def SameQueue (s s' : Database) : Prop :=
  ∀ key : List UInt8, asBytes Keys.pregPrefix <+: key → s'[key]? = s[key]?

theorem SameQueue.refl (s : Database) : SameQueue s s := fun _ _ => rfl

theorem SameQueue.trans (h : SameQueue s₁ s₂) (h' : SameQueue s₂ s₃) : SameQueue s₁ s₃ :=
  fun key hkey => (h' key hkey).trans (h key hkey)

/-- A write of another kind. -/
def Unqueued (w : Write UInt8 Row) : Prop := ¬ asBytes Keys.pregPrefix <+: w.key

theorem unqueued_word {word : String} (h : Keys.Apart word Keys.pregPrefix) {w : Write UInt8 Row}
    {rest : List UInt8} (hw : w.key = asBytes word ++ rest) : Unqueued w := by
  rintro ⟨tail, htail⟩
  exact Keys.append_ne h.1 h.2 rest tail (hw.symm.trans htail.symm)

theorem sameQueue_write {batch : WriteBatch} (h : ∀ w ∈ batch, Unqueued w) :
    SameQueue s (write s batch) := by
  intro key hkey
  exact get_write_of_ne s batch key fun w hw he => h w hw (he ▸ hkey)

theorem unqueued_make {kind : String} (h : Keys.Apart kind Keys.pregPrefix) {w : Write UInt8 Row}
    {parts : List String} (hw : w.key = Keys.make env kind parts) : Unqueued w :=
  unqueued_word h (hw.trans (asBytes_append _ _))

theorem unqueued_putPckcert (rec : PckCertRecord) : Unqueued (putPckcert env rec) :=
  unqueued_make (by decide) rfl

theorem unqueued_putTcb (rec : TcbRecord) : Unqueued (putTcb env rec) :=
  unqueued_make (by decide) rfl

theorem unqueued_putPlatformPool (pool : PlatformPool) : Unqueued (putPlatformPool env pool) :=
  unqueued_make (by decide) rfl

theorem unqueued_putIdentity (rec : IdentityRecord) : Unqueued (putIdentity env rec) :=
  unqueued_make (by decide) rfl

theorem unqueued_putPckcrl (rec : PckCrlRecord) : Unqueued (putPckcrl env rec) :=
  unqueued_make (by decide) rfl

theorem unqueued_putRootcacrl (crl : List UInt8) : Unqueued (putRootcacrl crl) :=
  unqueued_word (by decide : Keys.Apart "rootcacrl" Keys.pregPrefix) (List.append_nil _).symm

theorem sameQueue_commit {α : Type} {r : Except PccsError (α × WriteBatch)}
    (h : ∀ a batch, r = .ok (a, batch) → ∀ w ∈ batch, Unqueued w) :
    SameQueue s (commit s r).2 := by
  cases hr : r with
  | error e => exact SameQueue.refl s
  | ok out => exact sameQueue_write (h out.1 out.2 hr)

/-- An operation that keeps the queue. -/
def KeepsQueue (env : Env) (cfg : Config) (answers : Fetch → Except PccsError HttpResponse) (o : Op) :
    Prop :=
  ∀ s r s', answering env cfg answers s o r s' → SameQueue s s'

theorem perform_of_answering {o : Op} {r : o.Res} (h : answering env cfg answers s o r s') :
    perform env cfg s o r s' := by
  cases o with
  | fetch f => exact h.2
  | _ => exact h

theorem keepsQueue_silent {o : Op} (h : o.silent = true) : KeepsQueue env cfg answers o := by
  intro s r s' hs
  rw [silent_same h (perform_of_answering hs)]
  exact SameQueue.refl s

theorem keepsQueue_put {w : Write UInt8 Row} (h : Unqueued w) :
    KeepsQueue env cfg answers (.put w) := by
  intro s r s' hs
  rw [show s' = write s [w] from hs]
  exact sameQueue_write (List.forall_mem_singleton.mpr h)

theorem keepsQueue_storePckcerts (pceid : String) (context : PckFetchContext) (pool : PlatformPool)
    (resp : PckCertsResponse) (tcbs : List TcbRecord) (requested : Option (String × String)) :
    KeepsQueue env cfg answers (.storePckcerts pceid context pool resp tcbs requested) := by
  intro s r s' hs
  rw [(Prod.mk.inj hs).2]
  refine sameQueue_commit fun selected batch hok => ?_
  obtain ⟨tcb, _, hreplace⟩ := storePckcerts_eq_ok hok
  exact replace_forall unqueued_putPckcert unqueued_putTcb unqueued_putPlatformPool hreplace

theorem keepsQueue_mergePckcert (rec : PckCertRecord) (publication : PlatformPublication) :
    KeepsQueue env cfg answers (.mergePckcert rec publication) := by
  intro s r s' hs
  rw [(Prod.mk.inj hs).2]
  exact sameQueue_commit fun _ _ => merge_forall unqueued_putPckcert unqueued_putPlatformPool

theorem sameQueue_exec {α : Type} {p : Action α} {a : α} (hp : Only (KeepsQueue env cfg answers) p)
    (h : Exec (answering env cfg answers) s p a s') : SameQueue s s' :=
  exec_only SameQueue.refl (fun _ _ _ => SameQueue.trans) hp h

end Queues

section Runs

variable {env : Env} {cfg : Config} {answers : Fetch → Except PccsError HttpResponse}
  {s s' : Database} {p : RegisteredPlatform}

theorem exec_isCached {r : Bool × RegisteredPlatform}
    (h : Exec (perform env cfg) s (isCached p) r s') : r = cacheStatus env s p ∧ s' = s := by
  obtain ⟨found, s₁, hget, h⟩ := exec_bind h
  obtain ⟨rfl, rfl⟩ := exec_call hget
  unfold cacheStatus
  cases hpool : getPlatformPool env s₁ p.qeId p.pceId with
  | none =>
    rw [hpool] at h
    exact exec_ret h
  | some platform =>
    rw [hpool] at h
    simp only at h ⊢
    split at h
    · rename_i hm
      obtain ⟨rec, s₂, hget, h⟩ := exec_bind h
      obtain ⟨rfl, rfl⟩ := exec_call hget
      rw [if_pos hm]
      exact exec_ret h
    · rename_i hm
      rw [if_neg hm]
      exact exec_ret h

theorem exec_get {f : Fetch} {r : Except PccsError HttpResponse} (henabled : cfg.enabled = true)
    (h : Exec (answering env cfg answers) s (get cfg f) r s') : r = answers f ∧ s' = s := by
  rw [get, if_pos henabled] at h
  exact exec_call h

theorem exec_fetch {α : Type} {f : Fetch} {parse : HttpResponse → Except PccsError α}
    {r : Except PccsError α} (henabled : cfg.enabled = true)
    (h : Exec (answering env cfg answers) s
      ((get cfg f).andThen fun http => settled (parse http)) r s') :
    r = (answers f).bind parse ∧ s' = s := by
  obtain ⟨e, hget, rfl⟩ | ⟨http, s₁, hget, hparse⟩ := exec_andThen h
  · obtain ⟨hr, rfl⟩ := exec_get henabled hget
    exact ⟨by rw [← hr]; rfl, rfl⟩
  · obtain ⟨hr, rfl⟩ := exec_get henabled hget
    obtain ⟨rfl, rfl⟩ := exec_ret hparse
    exact ⟨by rw [← hr]; rfl, rfl⟩

theorem exec_fetchPool {encPpid manifest pceid : String} {r : Except PccsError PckCertsResponse}
    (henabled : cfg.enabled = true)
    (h : Exec (answering env cfg answers) s (fetchPool env cfg encPpid manifest pceid) r s') :
    r = poolAnswer env answers encPpid manifest pceid ∧ s' = s := by
  unfold fetchPool at h
  split at h
  · rename_i hm
    unfold fetchPckcertsIntel at h
    split at h
    · rename_i hzero
      obtain ⟨rfl, rfl⟩ := exec_ret h
      exact ⟨(if_pos ⟨hm, hzero⟩).symm, rfl⟩
    · rename_i hzero
      obtain ⟨rfl, rfl⟩ := exec_fetch henabled h
      rw [poolAnswer, if_neg (fun hc => hzero hc.2), poolFetch, if_pos hm]
      exact ⟨rfl, rfl⟩
  · rename_i hm
    obtain ⟨rfl, rfl⟩ := exec_fetch henabled h
    rw [poolAnswer, if_neg (fun hc => hm hc.1), poolFetch, if_neg hm]
    exact ⟨rfl, rfl⟩

/-- Registrations one after the other. -/
theorem exec_registerAll (rows : List RegisteredPlatform) {out : List Unit}
    (h : Exec (answering env cfg answers) s
      (collect (fun q => act (.put (registerPlatform env q))) rows) out s') :
    s' = write s (rows.map (registerPlatform env)) := by
  induction rows generalizing s out with
  | nil => exact (exec_ret h).2
  | cons q rows ih =>
    obtain ⟨u, s₁, hput, h⟩ := exec_bind h
    obtain ⟨us, s₂, hrest, h⟩ := exec_bind h
    obtain ⟨_, rfl⟩ := exec_ret h
    have hs₁ : s₁ = write s [registerPlatform env q] := exec_call hput
    rw [ih hrest, hs₁, ← write_append]
    rfl

theorem only_fillFromMirror (qeid cpusvn pcesvn pceid : String) (context : PckFetchContext) :
    Only (KeepsQueue env cfg answers) (fillFromMirror cfg qeid cpusvn pcesvn pceid context) := by
  have hfetch : ∀ f, KeepsQueue env cfg answers (.fetch f) := fun _ => keepsQueue_silent rfl
  refine only_andThen (only_parsed (hfetch _) _) fun rec => ?_
  split
  · exact only_andThen (only_call (keepsQueue_mergePckcert rec _)) fun _ => trivial
  · trivial

/-- The rows of an answer are queued before anything of it is checked. -/
theorem exec_publish (hmode : cfg.mode = .req) {qeid pceid : String} {context : PckFetchContext}
    {resp : PckCertsResponse} {requested : Option (String × String)}
    {r : Except PccsError (Option PckCertRecord)}
    (h : Exec (answering env cfg answers) s
      (publishPckcerts env cfg qeid pceid context resp requested) r s') :
    SameQueue (write s ((resp.notAvailable.filterMap (notAvailableRow qeid pceid context.encPpid
      context.platformManifest)).map (registerPlatform env))) s' := by
  have hvalidate : ∀ {s₁ r₁}, Exec (answering env cfg answers) s (validatePool env cfg qeid pceid
      context.encPpid context.platformManifest resp) r₁ s₁ →
      s₁ = write s ((resp.notAvailable.filterMap (notAvailableRow qeid pceid context.encPpid
        context.platformManifest)).map (registerPlatform env)) := by
    intro s₁ r₁ hrun
    obtain ⟨u, s₂, hqueue, hpool⟩ := exec_bind hrun
    obtain ⟨_, rfl⟩ := exec_ret hpool
    rw [processNotAvailable, if_pos hmode] at hqueue
    obtain ⟨us, s₃, hrows, hdone⟩ := exec_bind hqueue
    obtain ⟨_, rfl⟩ := exec_ret hdone
    exact exec_registerAll _ hrows
  obtain ⟨e, hrun, _⟩ | ⟨pool, s₁, hrun, hrest⟩ := exec_andThen h
  · rw [hvalidate hrun]
    exact SameQueue.refl _
  · rw [← hvalidate hrun]
    refine sameQueue_exec (only_andThen (only_fetchTcbInfos (fun _ => keepsQueue_silent rfl) _)
      fun tcbs => ?_) hrest
    exact only_call (keepsQueue_storePckcerts pceid context pool resp tcbs requested)

/-- What a fill queues: the reported rows, whatever comes of it. -/
theorem exec_fill (hmode : cfg.mode = .req) {expected : Option PlatformCredentials}
    {r : Except PccsError (Option PckCertRecord)}
    (h : Exec (answering env cfg answers) s (fillRegistered env cfg p expected) r s') :
    SameQueue (write s ((reported env cfg answers p).map (registerPlatform env))) s' := by
  have hnone : ¬ asksPool cfg p → reported env cfg answers p = [] := fun hasks => if_neg hasks
  unfold fillRegistered fillPckcert at h
  split at h
  · rename_i hdisabled
    obtain ⟨_, rfl⟩ := exec_ret h
    rw [hnone fun hasks => by simp [hasks.1] at hdisabled]
    exact SameQueue.refl _
  split at h
  · rename_i hbare
    obtain ⟨_, rfl⟩ := exec_ret h
    rw [hnone fun hasks => hasks.2.1 hbare]
    exact SameQueue.refl _
  split at h
  · rename_i hmirror
    rw [hnone fun hasks => hasks.2.2 hmirror]
    exact sameQueue_exec (only_fillFromMirror _ _ _ _ _) h
  · rename_i hdisabled hbare hmirror
    have henabled : cfg.enabled = true := by simpa using hdisabled
    have hasks : asksPool cfg p := ⟨henabled, hbare, hmirror⟩
    obtain ⟨e, hpool, _⟩ | ⟨resp, s₁, hpool, hrest⟩ := exec_andThen h
    · obtain ⟨hr, rfl⟩ := exec_fetchPool henabled hpool
      have hrows : reported env cfg answers p = [] := by
        rw [reported, if_pos hasks, ← hr]
      rw [hrows]
      exact SameQueue.refl _
    · obtain ⟨hr, rfl⟩ := exec_fetchPool henabled hpool
      have hrows : reported env cfg answers p = resp.notAvailable.filterMap
          (notAvailableRow p.qeId p.pceId p.encPpid p.platformManifest) := by
        rw [reported, if_pos hasks, ← hr]
      rw [hrows]
      exact exec_publish hmode hrest

/-- The operations of filling the verification collateral. -/
inductive Verifying (env : Env) : Op → Prop
  | getPckcrl (ca : String) : Verifying env (.getPckcrl ca)
  | fetchPckcrl (ca : String) : Verifying env (.fetch (.pckcrl ca))
  | putPckcrl (rec : PckCrlRecord) : Verifying env (.put (putPckcrl env rec))
  | getIdentity (enclaveId version : Nat) (update : UpdateType) :
      Verifying env (.getIdentity enclaveId version update)
  | fetchIdentity (enclaveId version : Nat) (update : UpdateType) :
      Verifying env (.fetch (.identity enclaveId version update))
  | putIdentity (rec : IdentityRecord) : Verifying env (.put (putIdentity env rec))
  | getRootcacrl : Verifying env .getRootcacrl
  | fetchRootcacrl : Verifying env (.fetch .rootcacrl)
  | putRootcacrl (crl : List UInt8) : Verifying env (.put (putRootcacrl crl))

theorem only_fillQvCollateral (update : UpdateType) :
    Only (Verifying env) (fillQvCollateral env cfg update) := by
  have hkeep : ∀ (chain : String) (w : Write UInt8 Row), Verifying env (.put w) →
      Only (Verifying env) (if cacheable chain then act (.put w) else .ret ()) := by
    intro chain w hw
    split
    · exact only_call hw
    · trivial
  unfold fillQvCollateral
  split
  · trivial
  refine only_bind (only_collect (fun ca => ?_) _) fun _ => ?_
  · refine only_bind (only_call (.getPckcrl ca)) fun found => ?_
    cases found with
    | some rec => trivial
    | none =>
      refine only_bind (only_parsed (.fetchPckcrl ca) _) fun fetched => ?_
      cases fetched with
      | ok rec => exact hkeep _ _ (.putPckcrl rec)
      | error e => trivial
  refine only_bind (only_collect (fun w => ?_) _) fun _ => ?_
  · refine only_bind (only_call (.getIdentity _ _ _)) fun found => ?_
    cases found with
    | some rec => trivial
    | none =>
      refine only_bind (only_fetchIdentity (.fetchIdentity _ _ _)) fun fetched => ?_
      cases fetched with
      | ok rec => exact hkeep _ _ (.putIdentity rec)
      | error e => trivial
  refine only_bind (only_call .getRootcacrl) fun found => ?_
  cases found with
  | some rec => trivial
  | none =>
    refine only_bind (only_parsed .fetchRootcacrl _) fun fetched => ?_
    cases fetched with
    | ok crl => exact only_call (.putRootcacrl crl)
    | error e => trivial

theorem keepsQueue_verifying {o : Op} (h : Verifying env o) : KeepsQueue env cfg answers o := by
  cases h with
  | putPckcrl rec => exact keepsQueue_put (unqueued_putPckcrl rec)
  | putIdentity rec => exact keepsQueue_put (unqueued_putIdentity rec)
  | putRootcacrl crl => exact keepsQueue_put (unqueued_putRootcacrl crl)
  | _ => exact keepsQueue_silent rfl

/-- A key that some reported row has holds that row after all are queued. -/
theorem get_registerAll (hinj : Function.Injective env.hash128Hex) {q : RegisteredPlatform}
    (hq : q ∈ reported env cfg answers p) :
    (write s ((reported env cfg answers p).map (registerPlatform env)))[pregKey env q]? =
      some (.registered (normalizeReg q)) := by
  obtain ⟨_, hnone⟩ | ⟨w, hw, hkey, hget⟩ := get_write_cases s
    ((reported env cfg answers p).map (registerPlatform env)) (pregKey env q)
  · have := hnone _ (List.mem_map_of_mem hq)
    rw [registerPlatform_eq] at this
    exact absurd rfl this
  · obtain ⟨q', hq', rfl⟩ := List.mem_map.mp hw
    rw [registerPlatform_eq] at hkey hget
    rw [hget, ← reported_unique hinj hq' hq hkey]
    rfl

theorem get_registerAll_of_ne {rows : List RegisteredPlatform} {key : List UInt8}
    (h : ∀ q ∈ rows, pregKey env q ≠ key) :
    (write s (rows.map (registerPlatform env)))[key]? = s[key]? := by
  refine get_write_of_ne s _ key fun w hw => ?_
  obtain ⟨q, hq, rfl⟩ := List.mem_map.mp hw
  rw [registerPlatform_eq]
  exact h q hq

/-- The queue around the part of a registration that fills the platform. -/
theorem exec_registerUncached (hmode : cfg.mode = .req) {expected : Option PlatformCredentials}
    {result : Except PccsError Unit}
    (h : Exec (answering env cfg answers) s (registerUncached env cfg p expected) result s') :
    let filled := write (write s [registerPlatform env (newRow p)])
      ((reported env cfg answers p).map (registerPlatform env))
    (∃ e, result = .error e ∧ SameQueue filled s') ∨
      result = .ok () ∧
        ∃ s₁, SameQueue filled s₁ ∧ s' = write s₁ [deleteRegistered env (newRow p)] := by
  simp only [registerUncached, hmode] at h
  obtain ⟨u, s₁, hput, h⟩ := exec_bind h
  have hs₁ : s₁ = write s [registerPlatform env (newRow p)] := exec_call hput
  subst hs₁
  obtain ⟨e, hfill, rfl⟩ | ⟨rec, s₂, hfill, hrest⟩ := exec_andThen h
  · exact .inl ⟨e, rfl, exec_fill hmode hfill⟩
  · obtain ⟨u', s₃, hdelete, hdone⟩ := exec_bind hrest
    obtain ⟨rfl, rfl⟩ := exec_ret hdone
    exact .inr ⟨rfl, s₂, exec_fill hmode hfill, exec_call hdelete⟩

end Runs

section Frame

variable {env : Env} {cfg : Config} {answers : Fetch → Except PccsError HttpResponse}
  {s s' s₁ : Database} {p p' : RegisteredPlatform}

theorem pregKey_newRow : pregKey env (newRow p) = pregKey env p := rfl

/-- A registration that failed is still new unless a reported row took its key. -/
theorem framed_error (hinj : Function.Injective env.hash128Hex)
    (h : SameQueue (write (write s [registerPlatform env (newRow p)])
      ((reported env cfg answers p).map (registerPlatform env))) s') (e : PccsError) :
    QueueFramed env s s' p (reported env cfg answers p) (.error e) ↔
      ∀ q ∈ reported env cfg answers p, pregKey env q ≠ pregKey env p := by
  have hown := h (pregKey env p) (pregKey_word p)
  change s'[pregKey env p]? = _ ↔ _
  rw [hown]
  constructor
  · intro hnew q hq hkey
    rw [← hkey, get_registerAll hinj hq] at hnew
    obtain ⟨tcb, htcb⟩ := mem_reported hq
    have hstate := congrArg RegisteredPlatform.state (Row.registered.inj (Option.some.inj hnew))
    rw [show (normalizeReg q).state = platfRegNotAvailable from
      (notAvailableRow_noSlash htcb).2.2.2.2.2.2] at hstate
    cases hstate
  · intro hne
    rw [get_registerAll_of_ne hne, get_register, if_pos pregKey_newRow]

/-- A registration that succeeded takes its key out of the queue with whatever is
there. -/
theorem framed_ok (hinj : Function.Injective env.hash128Hex)
    (h : SameQueue (write (write s [registerPlatform env (newRow p)])
      ((reported env cfg answers p).map (registerPlatform env))) s₁)
    (hs : SameQueue (write s₁ [deleteRegistered env (newRow p)]) s') :
    QueueFramed env s s' p (reported env cfg answers p) (.ok ()) ↔
      ∀ q ∈ reported env cfg answers p, pregKey env q ≠ pregKey env p := by
  have hget : ∀ key, asBytes Keys.pregPrefix <+: key → s'[key]? =
      if pregKey env p = key then none
      else (write (write s [registerPlatform env (newRow p)])
        ((reported env cfg answers p).map (registerPlatform env)))[key]? := by
    intro key hkey
    rw [hs key hkey, get_delete, pregKey_newRow]
    split
    · rfl
    · exact h key hkey
  constructor
  · intro hframed q hq hkey
    have hrow := hframed.1 q hq
    rw [hget _ (pregKey_word q), if_pos hkey.symm] at hrow
    cases hrow
  · intro hne
    refine ⟨fun q hq => ?_, fun key hkey hnone => ?_⟩
    · rw [hget _ (pregKey_word q), if_neg (Ne.symm (hne q hq))]
      exact get_registerAll hinj hq
    · rw [hget key hkey]
      split
      · rfl
      · rename_i hown
        rw [get_registerAll_of_ne hnone, get_register, pregKey_newRow, if_neg hown]

/-- A registration in REQ mode touches no other row of the queue exactly if the
upstream reports no level that has the name of the registration's own. -/
theorem registration_framed_iff (hinj : Function.Injective env.hash128Hex) (hmode : cfg.mode = .req)
    (hstatus : cacheStatus env s p = (false, p')) {update : UpdateType}
    {result : Except PccsError Unit}
    (h : Exec (answering env cfg answers) s (registerPlatformRequest env cfg p update) result s') :
    QueueFramed env s s' p' (reported env cfg answers p') result ↔
      ∀ q ∈ reported env cfg answers p', ¬ SameIdentity q p' := by
  have hkeys : (∀ q ∈ reported env cfg answers p', pregKey env q ≠ pregKey env p') ↔
      ∀ q ∈ reported env cfg answers p', ¬ SameIdentity q p' := by
    refine forall₂_congr fun q hq => not_congr ?_
    obtain ⟨tcb, htcb⟩ := mem_reported hq
    obtain ⟨hqe, hpce, hcpu, hsvn, _⟩ := notAvailableRow_noSlash htcb
    rw [← pregKey_reported hinj hqe hpce hcpu hsvn]
    exact eq_comm
  rw [← hkeys]
  obtain ⟨current, s₀, hget, hbody⟩ := exec_bind h
  obtain ⟨_, rfl⟩ := exec_call hget
  obtain ⟨⟨cached, q⟩, s₁, hcached, hregister⟩ := exec_bind hbody
  obtain ⟨hsame, rfl⟩ := exec_isCached (hcached.mono fun _ _ _ _ => perform_of_answering)
  cases hsame.trans hstatus
  obtain ⟨e, hreg, rfl⟩ | ⟨u, s₂, hreg, hrest⟩ := exec_andThen hregister
  · obtain ⟨e', hr, hqueue⟩ | ⟨hr, _⟩ := exec_registerUncached hmode hreg
    · cases hr
      exact framed_error hinj hqueue e
    · cases hr
  · obtain ⟨e', hr, _⟩ | ⟨_, s₃, hqueue, rfl⟩ := exec_registerUncached hmode hreg
    · cases hr
    · simp only [hmode] at hrest
      obtain ⟨u', s₄, hqv, hdone⟩ := exec_bind hrest
      obtain ⟨rfl, rfl⟩ := exec_ret hdone
      exact framed_ok hinj hqueue (sameQueue_exec (only_mono (fun _ => keepsQueue_verifying)
        (only_fillQvCollateral update)) hqv)

end Frame

section Clash

/-- A level whose sixteen components are zero. -/
def zeroLevel (pceSvn : UInt64) : Value :=
  .object ((List.range' 1 16).map (fun i =>
    ("sgxtcbcomp" ++ Selection.twoDigits i ++ "svn", .posInt 0)) ++ [("pcesvn", .posInt pceSvn)])

/-- A level of an answer that has no certificate for it. -/
def emptyLevel (pceSvn : UInt64) : Value :=
  .object [("tcbm", .string ""), ("cert", .string "Not available"), ("tcb", zeroLevel pceSvn)]

def emptyAnswer (levels : List UInt64) : Value := .array (levels.map emptyLevel)

def emptyHttp (levels : List UInt64) : HttpResponse :=
  ⟨200, [(sgxFmspc, asBytes "00"), (sgxPckCertificateCaType, asBytes "platform")],
    asBytes (rawJson (emptyAnswer levels))⟩

def emptyEnv (levels : List UInt64) : Env := Keys.readerEnv [emptyAnswer levels]

def reqCfg : Config := { Config.plain with mode := .req }

def emptyAnswers (levels : List UInt64) : Fetch → Except PccsError HttpResponse :=
  fun _ => .ok (emptyHttp levels)

/-- An encrypted PPID has 768 digits. -/
@[irreducible] def somePpid : String := String.ofList (List.replicate 768 'A')

theorem somePpid_nonzero : somePpid.toList.all (· == '0') = false := by
  have hall : ∀ n, 0 < n →
      (String.ofList (List.replicate n 'A')).toList.all (· == '0') = false := by
    intro n hn
    simp
    omega
  unfold somePpid
  exact hall 768 (by omega)

theorem somePpid_upper : toAsciiUppercase somePpid = somePpid := by
  have hall : ∀ n, toAsciiUppercase (String.ofList (List.replicate n 'A')) =
      String.ofList (List.replicate n 'A') := by
    intro n
    simp [toAsciiUppercase]
  unfold somePpid
  exact hall 768

theorem somePpid_ne : somePpid ≠ "" := by
  intro h
  have hzero := somePpid_nonzero
  simp [h] at hzero

/-- A registration at PCESVN 16, which is `1000` in little-endian hexadecimal. -/
def clashing : RegisteredPlatform :=
  ⟨"AA", "0000", "00000000000000000000000000000000", "1000", somePpid, "", 0⟩

def zeroRow (pceSvn : String) : RegisteredPlatform :=
  ⟨"AA", "0000", "00000000000000000000000000000000", pceSvn, somePpid, "", 1⟩

/-- A loop of puts writes a batch. -/
theorem exec_puts {α : Type} {Q : Database → (o : Op) → o.Res → Database → Prop}
    (hput : ∀ s w, Q s (.put w) () (write s [w])) (f : α → Write UInt8 Row) (l : List α)
    (s : Database) :
    ∃ out, Exec Q s (collect (fun a => act (.put (f a))) l) out (write s (l.map f)) := by
  induction l generalizing s with
  | nil => exact ⟨[], .ret s []⟩
  | cons a l ih =>
    obtain ⟨out, hrest⟩ := ih (write s [f a])
    exact ⟨() :: out,
      Exec.bind (a := ()) (Exec.call (hput s (f a))) (Exec.bind hrest (.ret _ (() :: out)))⟩

def otherPlatform : RegisteredPlatform := { clashing with qeId := "BB", pceSvn := "0500" }

/-- A queue in which another platform waits. -/
def waiting (env : Env) : Database := write ∅ [registerPlatform env otherPlatform]

theorem getPlatformPool_waiting (env : Env) (qeid pceid : String) :
    getPlatformPool env (waiting env) qeid pceid = none := by
  rw [getPlatformPool, waiting, get_register]
  split <;> simp [rowPlatform]

/-- The store after the rows of a failed registration. -/
def queuedRows (levels : List UInt64) (s : Database) : Database :=
  write (write s [registerPlatform (emptyEnv levels) (newRow clashing)])
    ((reported (emptyEnv levels) reqCfg (emptyAnswers levels) clashing).map
      (registerPlatform (emptyEnv levels)))

theorem sort_emptyLevels (levels : List UInt64) (notAvailable : List Value) :
    (levels.map emptyLevel).foldl filterPckCert ([], notAvailable) =
      ([], notAvailable ++ levels.map zeroLevel) := by
  have hdecoded : Validate.percentDecode "Not available" = "Not available" := by decide +kernel
  induction levels generalizing notAvailable with
  | nil => simp
  | cons n levels ih =>
    have hcert : ((emptyLevel n).get "cert").bind Value.asStr = some "Not available" := rfl
    have htcb : (emptyLevel n).get "tcb" = some (zeroLevel n) := rfl
    have hsorted : filterPckCert ([], notAvailable) (emptyLevel n) =
        ([], notAvailable ++ [zeroLevel n]) := by
      unfold filterPckCert
      simp only [hcert, htcb, Option.getD_some, hdecoded, if_true]
    rw [List.map_cons, List.foldl_cons, hsorted, ih, List.map_cons, List.append_assoc,
      List.singleton_append]

/-- An answer in which no level has a certificate. -/
theorem parse_emptyHttp (levels : List UInt64) : parsePckcerts (emptyEnv levels) (emptyHttp levels) =
    .ok ⟨[], levels.map zeroLevel, "00", "PLATFORM", ""⟩ := by
  have hslice : (emptyEnv levels).fromSlice (emptyHttp levels).body = some (emptyAnswer levels) :=
    Keys.readerEnv_first (emptyAnswer levels) []
  have hfmspc : toAsciiUppercase ((emptyHttp []).hdr sgxFmspc) = "00" := by decide +kernel
  have hca : toAsciiUppercase ((emptyHttp []).hdr sgxPckCertificateCaType) = "PLATFORM" := by
    decide +kernel
  have hchain : (emptyHttp []).hdr sgxPckCertificateIssuerChain = "" := by decide +kernel
  have hhdr : ∀ name, (emptyHttp levels).hdr name = (emptyHttp []).hdr name := by
    intro name
    simp only [HttpResponse.hdr, emptyHttp]
  unfold parsePckcerts
  refine bind_eq_ok.mpr ⟨(), reject_eq_ok.mpr (by simp [emptyHttp]), ?_⟩
  simp only [hhdr, hfmspc, hca, hchain, hslice]
  refine bind_eq_ok.mpr ⟨(), reject_eq_ok.mpr (by decide), ?_⟩
  refine bind_eq_ok.mpr ⟨emptyAnswer levels, rfl, bind_eq_ok.mpr ⟨_, rfl, ?_⟩⟩
  simp only [sort_emptyLevels, List.nil_append]
  rfl

theorem asks_clashing : asksPool reqCfg clashing := by
  simp [asksPool, reqCfg, Config.plain, clashing, somePpid_ne]

theorem reported_clashing (levels : List UInt64) :
    reported (emptyEnv levels) reqCfg (emptyAnswers levels) clashing =
      (levels.map zeroLevel).filterMap (notAvailableRow "AA" "0000" somePpid "") := by
  have hanswer : poolAnswer (emptyEnv levels) (emptyAnswers levels) clashing.encPpid
      clashing.platformManifest clashing.pceId =
      .ok ⟨[], levels.map zeroLevel, "00", "PLATFORM", ""⟩ := by
    simp only [poolAnswer, clashing, somePpid_nonzero]
    exact parse_emptyHttp levels
  rw [reported, if_pos asks_clashing]
  simp only [hanswer]
  rfl

/-- A reported level is queued under the decimal text of its PCESVN. -/
theorem reported_zeroRows {levels : List UInt64}
    (hcpu : ∀ n ∈ levels, rawCpusvnFromTcb (zeroLevel n) = some "00000000000000000000000000000000") :
    reported (emptyEnv levels) reqCfg (emptyAnswers levels) clashing =
      levels.map fun n => zeroRow (toString n.toNat) := by
  have hrow : ∀ n ∈ levels, notAvailableRow "AA" "0000" somePpid "" (zeroLevel n) =
      some (zeroRow (toString n.toNat)) := by
    intro n hn
    rw [notAvailableRow, hcpu n hn]
    rfl
  rw [reported_clashing, List.filterMap_map, ← List.filterMap_eq_map]
  exact List.filterMap_congr hrow

/-- An answer without certificates fails the fill after its rows were queued. -/
theorem exec_fillWithoutCerts (levels : List UInt64) (s : Database) :
    Exec (answering (emptyEnv levels) reqCfg (emptyAnswers levels)) s
      (fillRegistered (emptyEnv levels) reqCfg clashing none) (.error .noCacheData)
      (write s ((reported (emptyEnv levels) reqCfg (emptyAnswers levels) clashing).map
        (registerPlatform (emptyEnv levels)))) := by
  have hsettled : Exec (answering (emptyEnv levels) reqCfg (emptyAnswers levels)) s
      (settled (parsePckcerts (emptyEnv levels) (emptyHttp levels)))
      (.ok ⟨[], levels.map zeroLevel, "00", "PLATFORM", ""⟩) s := by
    rw [parse_emptyHttp]
    exact .ret _ _
  have hget : fetchPool (emptyEnv levels) reqCfg somePpid "" "0000" =
      (act (.fetch (.pckcertsIntel somePpid "0000"))).andThen fun r =>
        settled (parsePckcerts (emptyEnv levels) r) := by
    simp only [fetchPool, fetchPckcertsIntel, somePpid_nonzero]
    rfl
  have hfetch : Exec (answering (emptyEnv levels) reqCfg (emptyAnswers levels)) s
      (fetchPool (emptyEnv levels) reqCfg somePpid "" "0000")
      (.ok ⟨[], levels.map zeroLevel, "00", "PLATFORM", ""⟩) s := by
    rw [hget]
    exact Exec.andThen_ok (Exec.call ⟨rfl, rfl⟩) hsettled
  have hfills : fillRegistered (emptyEnv levels) reqCfg clashing none =
      (fetchPool (emptyEnv levels) reqCfg somePpid "" "0000").andThen fun resp =>
        publishPckcerts (emptyEnv levels) reqCfg "AA" "0000" ⟨somePpid, "", none, false⟩ resp
          (some ("00000000000000000000000000000000", "1000")) := by
    simp only [fillRegistered, fillPckcert, clashing, reqCfg, Config.plain, somePpid_ne]
    rfl
  obtain ⟨out, hrows⟩ := exec_puts (Q := answering (emptyEnv levels) reqCfg (emptyAnswers levels))
    (fun _ _ => rfl) (registerPlatform (emptyEnv levels))
    ((levels.map zeroLevel).filterMap (notAvailableRow "AA" "0000" somePpid "")) s
  rw [hfills, reported_clashing]
  refine Exec.andThen_ok hfetch (Exec.andThen_error (Exec.bind (Exec.bind hrows (.ret _ ())) ?_))
  exact .ret _ _

theorem exec_withoutCerts (levels : List UInt64) {s : Database}
    (hnone : getPlatformPool (emptyEnv levels) s "AA" "0000" = none) :
    Exec (answering (emptyEnv levels) reqCfg (emptyAnswers levels)) s
      (registerPlatformRequest (emptyEnv levels) reqCfg clashing .standard) (.error .noCacheData)
      (queuedRows levels s) := by
  have hfill := exec_fillWithoutCerts levels
    (write s [registerPlatform (emptyEnv levels) (newRow clashing)])
  refine Exec.bind (a := none) (Exec.call ⟨hnone.symm, rfl⟩) (Exec.bind (a := (false, clashing))
    (Exec.bind (a := none) (Exec.call ⟨hnone.symm, rfl⟩) (.ret _ _)) ?_)
  exact Exec.bind (Exec.bind (a := ()) (Exec.call rfl) (Exec.bind hfill (.ret _ _))) (.ret _ _)

theorem emptyEnv_injective (levels : List UInt64) :
    Function.Injective (emptyEnv levels).hash128Hex :=
  Keys.plainEnv_injective

theorem status_clashing {env : Env} {s : Database} (hnone : getPlatformPool env s "AA" "0000" = none) :
    cacheStatus env s clashing = (false, clashing) := by
  have hnone' : getPlatformPool env s clashing.qeId clashing.pceId = none := hnone
  simp only [cacheStatus, hnone']

theorem reported_five_seven : reported (emptyEnv [5, 7]) reqCfg (emptyAnswers [5, 7]) clashing =
    [zeroRow "5", zeroRow "7"] := by
  refine reported_zeroRows fun n hn => ?_
  rcases List.mem_pair.mp hn with rfl | rfl
  · decide +kernel
  · decide +kernel

/-- Another platform waits, two levels are reported that have other names, and
the failed registration stays new. -/
theorem registration_framed_iff_apart :
    QueueFramed (emptyEnv [5, 7]) (waiting (emptyEnv [5, 7]))
      (queuedRows [5, 7] (waiting (emptyEnv [5, 7]))) clashing [zeroRow "5", zeroRow "7"]
      (.error .noCacheData) := by
  have hclear : ∀ q ∈ [zeroRow "5", zeroRow "7"], ¬ SameIdentity q clashing := by
    intro q hq hsame
    rcases List.mem_pair.mp hq with rfl | rfl
    · exact absurd hsame.2.2.2 (by decide)
    · exact absurd hsame.2.2.2 (by decide)
  rw [← reported_five_seven] at hclear ⊢
  have hnone := getPlatformPool_waiting (emptyEnv [5, 7]) "AA" "0000"
  exact (registration_framed_iff (emptyEnv_injective [5, 7]) rfl (status_clashing hnone)
    (exec_withoutCerts [5, 7] hnone)).mpr hclear

/-- The level of PCESVN 1000 is reported to a registration at `1000` in
hexadecimal: its row replaces the new one, and the fill fails. -/
theorem registration_loses_row :
    Exec (answering (emptyEnv [1000]) reqCfg (emptyAnswers [1000])) ∅
      (registerPlatformRequest (emptyEnv [1000]) reqCfg clashing .standard) (.error .noCacheData)
      (queuedRows [1000] ∅) ∧
    ¬ QueueFramed (emptyEnv [1000]) ∅ (queuedRows [1000] ∅) clashing
      (reported (emptyEnv [1000]) reqCfg (emptyAnswers [1000]) clashing) (.error .noCacheData) := by
  refine ⟨exec_withoutCerts [1000] (by simp [getPlatformPool]), fun hframed => ?_⟩
  have hclear := (framed_error (emptyEnv_injective [1000]) (SameQueue.refl _) _).mp hframed
  have hrows : reported (emptyEnv [1000]) reqCfg (emptyAnswers [1000]) clashing =
      [zeroRow "1000"] := by
    refine reported_zeroRows fun n hn => ?_
    cases List.mem_singleton.mp hn
    decide +kernel
  rw [hrows] at hclear
  have hsame : SameIdentity (zeroRow "1000") clashing := ⟨rfl, rfl, rfl, rfl⟩
  exact hclear _ (List.mem_singleton_self _) (pregKey_congr hsame)

end Clash

end Pccs.Cache
