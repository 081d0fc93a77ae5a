import Pccs.Registration

/-!
# Fills that fail

A fill asks the upstream several times and checks each answer, and any of this
can fail or be cut short. It publishes with its last operation, so that until
then there is nothing to undo: in LAZY mode it has not touched the store, in REQ
mode it has queued the levels that the upstream does not have.
-/
namespace Pccs.Cache

open Text Json Fallible KeyValue Store Process Queue

section Changes

/-- The stores differ in rows of the queue only, each of them a level of the
platform that is reported as not available. -/
def QueuedOnly (env : Env) (qeid pceid : String) (s s' : Database) : Prop :=
  ∀ key : List UInt8, s'[key]? = s[key]? ∨
    ∃ p : RegisteredPlatform, key = pregKey env p ∧ s'[key]? = some (.registered p) ∧
      p.state = platfRegNotAvailable ∧ p.qeId = toAsciiUppercase qeid ∧
      p.pceId = toAsciiUppercase pceid

/-- What a mode allows a failed fill of a platform to leave behind. -/
def LeftBehind (env : Env) (mode : CacheMode) (qeid pceid : String) (s s' : Database) : Prop :=
  match mode with
  | .req => QueuedOnly env qeid pceid s s'
  | _ => s' = s

variable {env : Env} {mode : CacheMode} {qeid pceid : String} {s s₁ s' : Database}

theorem QueuedOnly.refl (s : Database) : QueuedOnly env qeid pceid s s := by
  intro key
  exact .inl rfl

theorem QueuedOnly.trans (h : QueuedOnly env qeid pceid s s₁)
    (h' : QueuedOnly env qeid pceid s₁ s') : QueuedOnly env qeid pceid s s' := by
  intro key
  rcases h' key with hsame | hrow
  · rcases h key with hsame₁ | ⟨p, hkey, hrow, hp⟩
    · exact .inl (hsame.trans hsame₁)
    · exact .inr ⟨p, hkey, hsame.trans hrow, hp⟩
  · exact .inr hrow

theorem LeftBehind.refl (s : Database) : LeftBehind env mode qeid pceid s s := by
  cases mode with
  | req => exact QueuedOnly.refl s
  | lazy => rfl
  | offline => rfl

theorem LeftBehind.trans (s s₁ s' : Database) (h : LeftBehind env mode qeid pceid s s₁)
    (h' : LeftBehind env mode qeid pceid s₁ s') : LeftBehind env mode qeid pceid s s' := by
  cases mode with
  | req => exact QueuedOnly.trans h h'
  | lazy => exact h'.trans h
  | offline => exact h'.trans h

theorem LeftBehind.queued (hmode : mode = .req) (h : QueuedOnly env qeid pceid s s') :
    LeftBehind env mode qeid pceid s s' := by
  rw [hmode]
  exact h

/-- A reported level is queued for the platform. -/
theorem queuedOnly_register {encPpid manifest : String} {tcb : Value} {p : RegisteredPlatform}
    (hp : notAvailableRow qeid pceid encPpid manifest tcb = some p) (s : Database) :
    QueuedOnly env qeid pceid s (write s [registerPlatform env p]) := by
  obtain ⟨cpuSvn, _, hp⟩ := Option.bind_eq_some_iff.mp hp
  obtain ⟨pceSvn, _, hp⟩ := Option.bind_eq_some_iff.mp hp
  cases hp
  intro key
  rw [get_register]
  split
  · rename_i hkey
    refine .inr ⟨_, ?_, rfl, rfl, rfl, rfl⟩
    rw [pregKey_normalizeReg, hkey]
  · exact .inl rfl

end Changes

section Fills

variable {env : Env} {cfg : Config} {qeid pceid : String}

/-- Nothing but what a failed fill of the platform may leave behind. -/
abbrev Traceless (env : Env) (cfg : Config) (qeid pceid : String) {α : Type} (p : Action α) : Prop :=
  Quiet (perform env cfg) (LeftBehind env cfg.mode qeid pceid) p

/-- The process publishes with its last operation and then has succeeded. -/
abbrev PublishesLast (env : Env) (cfg : Config) (qeid pceid : String) {α : Type}
    (success : α → Prop) (p : Action α) : Prop :=
  Staged (perform env cfg) (LeftBehind env cfg.mode qeid pceid) success p

theorem traceless_get (f : Fetch) : Traceless env cfg qeid pceid (get cfg f) := by
  unfold get
  split
  · refine quiet_call ?_
    rintro s r s' rfl
    exact LeftBehind.refl _
  · trivial

theorem traceless_parsed {α : Type} (f : Fetch) (parse : HttpResponse → Except PccsError α) :
    Traceless env cfg qeid pceid ((get cfg f).andThen fun r => settled (parse r)) :=
  quiet_andThen (traceless_get f) fun _ => trivial

theorem traceless_fetchPool (encPpid platformManifest pceid' : String) :
    Traceless env cfg qeid pceid (fetchPool env cfg encPpid platformManifest pceid') := by
  unfold fetchPool fetchPckcertsIntel fetchPckcertsIntelManifest
  split
  · split
    · trivial
    · exact traceless_parsed _ _
  · exact traceless_parsed _ _

theorem traceless_fetchTcb (prodType : Nat) (fmspc : String) (version : Nat) (update : UpdateType) :
    Traceless env cfg qeid pceid (fetchTcb env cfg prodType fmspc version update) := by
  unfold fetchTcb
  split
  · trivial
  · exact traceless_parsed _ _

theorem traceless_fetchTcbInfos (fmspc : String) :
    Traceless env cfg qeid pceid (fetchTcbInfos env cfg fmspc) := by
  refine quiet_bind (quiet_collect _ fun w => ?_) fun _ => trivial
  exact quiet_bind (traceless_fetchTcb _ _ _ _) fun _ => trivial

/-- Only REQ mode queues anything before the publication. -/
theorem traceless_validatePool (encPpid platformManifest : String) (resp : PckCertsResponse) :
    Traceless env cfg qeid pceid
      (validatePool env cfg qeid pceid encPpid platformManifest resp) := by
  refine quiet_bind ?_ fun _ => trivial
  unfold processNotAvailable
  split
  · rename_i hmode
    refine quiet_bind ?_ fun _ => trivial
    have hrows : ∀ p ∈ resp.notAvailable.filterMap
        (notAvailableRow qeid pceid encPpid platformManifest),
        ∃ tcb, notAvailableRow qeid pceid encPpid platformManifest tcb = some p := by
      intro p hp
      obtain ⟨tcb, _, htcb⟩ := List.mem_filterMap.mp hp
      exact ⟨tcb, htcb⟩
    generalize resp.notAvailable.filterMap
      (notAvailableRow qeid pceid encPpid platformManifest) = rows at hrows
    induction rows with
    | nil => trivial
    | cons p rows ih =>
      obtain ⟨⟨tcb, htcb⟩, hrest⟩ := List.forall_mem_cons.mp hrows
      refine quiet_bind (quiet_call ?_) fun _ => quiet_bind (ih hrest) fun _ => trivial
      rintro s r s' rfl
      exact LeftBehind.queued hmode (queuedOnly_register htcb _)
  · trivial

/-- An operation that publishes or fails: a failure changed nothing. -/
theorem left_of_commit {α : Type} {s s' : Database} {r : Except PccsError α}
    {out : Except PccsError (α × WriteBatch)} (h : (r, s') = commit s out) :
    LeftBehind env cfg.mode qeid pceid s s' ∨ ∃ a, r = .ok a := by
  obtain ⟨e, _, _, rfl⟩ | ⟨a, batch, _, hr, _⟩ := commit_cases h
  · exact .inl (LeftBehind.refl s')
  · exact .inr ⟨a, hr⟩

def Succeeded {α : Type} (r : Except PccsError α) : Prop := ∃ a, r = .ok a

theorem publishesLast_publishPckcerts (context : PckFetchContext) (resp : PckCertsResponse)
    (requested : Option (String × String)) :
    PublishesLast env cfg qeid pceid Succeeded
      (publishPckcerts env cfg qeid pceid context resp requested) := by
  refine quiet_andThen (traceless_validatePool _ _ _) fun pool => ?_
  refine quiet_andThen (traceless_fetchTcbInfos _) fun tcbs => ?_
  exact staged_call fun s r s' hs => left_of_commit hs

theorem publishesLast_fillFromMirror (cpusvn pcesvn : String) (context : PckFetchContext) :
    PublishesLast env cfg qeid pceid Succeeded
      (fillFromMirror cfg qeid cpusvn pcesvn pceid context) := by
  refine quiet_andThen (traceless_parsed _ _) fun rec => ?_
  split
  · refine staged_bind (staged_call fun s r s' hs => left_of_commit hs) ?_ ?_
    · rintro r ⟨a, rfl⟩
      exact ⟨_, rfl, _, rfl⟩
    · intro r hr
      cases r with
      | ok a => exact absurd ⟨a, rfl⟩ hr
      | error e => trivial
  · trivial

theorem publishesLast_fillPckcert (cpusvn pcesvn : String) (context : PckFetchContext) :
    PublishesLast env cfg qeid pceid Succeeded
      (fillPckcert env cfg qeid cpusvn pcesvn pceid context) := by
  unfold fillPckcert
  split
  · trivial
  split
  · trivial
  split
  · exact publishesLast_fillFromMirror cpusvn pcesvn context
  · refine quiet_andThen (traceless_fetchPool _ _ _) fun resp => ?_
    exact publishesLast_publishPckcerts context resp _

/-- The timed part of a re-fetch may be cut short before any of its operations. -/
theorem publishesLast_refetch (pool : PlatformPool) (cpusvn pcesvn : String) :
    PublishesLast env cfg pool.qeId pool.pceId (fun r => ∃ a, r = some a ∧ Succeeded a)
      (within .elapsed id (refetch env cfg pool cpusvn pcesvn)) := by
  refine staged_within ?_ ?_
  · rintro s r s' rfl
    exact LeftBehind.refl _
  · refine quiet_andThen (traceless_fetchPool _ _ _) fun resp => ?_
    exact publishesLast_publishPckcerts _ resp _

theorem publishesLast_refreshPlatformPool (pool : PlatformPool) :
    PublishesLast env cfg pool.qeId pool.pceId Succeeded (refreshPlatformPool env cfg pool) := by
  refine quiet_andThen (quiet_bind (traceless_fetchPool _ _ _) fun _ => trivial) fun resp => ?_
  refine quiet_andThen (traceless_validatePool _ _ _) fun fresh => ?_
  refine quiet_andThen (traceless_fetchTcb _ _ _ _) fun tcb => ?_
  exact staged_call fun s r s' hs => left_of_commit hs

end Fills

/-- A run that was stopped anywhere, or ended without success, has left no more
than `R` behind: alone from any store to the store it was stopped at, and among
others in each of its own operations. -/
structure FailsClean (env : Env) (cfg : Config) {α : Type} (R : Database → Database → Prop)
    (success : α → Prop) (p : Action α) : Prop where
  alone : ∀ s s' p', Alone (perform env cfg) s p p' s' → (∀ a, p' = .ret a → ¬ success a) →
    R s s'
  among : ∀ moves p', Path (perform env cfg) p moves p' → (∀ a, p' = .ret a → ¬ success a) →
    ∀ m ∈ moves, R m.1 m.2

theorem failsClean_of_publishesLast {env : Env} {cfg : Config} {qeid pceid : String} {α : Type}
    {success : α → Prop} {p : Action α} (h : PublishesLast env cfg qeid pceid success p) :
    FailsClean env cfg (LeftBehind env cfg.mode qeid pceid) success p := by
  constructor
  · intro s s' p' hrun hfail
    exact staged_alone LeftBehind.refl LeftBehind.trans h hrun hfail
  · intro moves p' hpath hfail
    exact staged_path h hpath hfail

/-- A fill, a re-fetch or a pool refresh that does not succeed leaves the store
as it was, but for the queue of REQ mode. -/
theorem failed_fill_clean (env : Env) (cfg : Config) :
    (∀ qeid cpusvn pcesvn pceid context,
      FailsClean env cfg (LeftBehind env cfg.mode qeid pceid) Succeeded
        (fillPckcert env cfg qeid cpusvn pcesvn pceid context)) ∧
    (∀ pool cpusvn pcesvn,
      FailsClean env cfg (LeftBehind env cfg.mode pool.qeId pool.pceId)
        (fun r => ∃ a, r = some a ∧ Succeeded a)
        (within .elapsed id (refetch env cfg pool cpusvn pcesvn))) ∧
    ∀ pool, FailsClean env cfg (LeftBehind env cfg.mode pool.qeId pool.pceId) Succeeded
      (refreshPlatformPool env cfg pool) :=
  ⟨fun _ _ _ _ context => failsClean_of_publishesLast (publishesLast_fillPckcert _ _ context),
    fun pool _ _ => failsClean_of_publishesLast (publishesLast_refetch pool _ _),
    fun pool => failsClean_of_publishesLast (publishesLast_refreshPlatformPool pool)⟩

/-- The queue after two levels were reported to a fill for `clashing`. -/
def reportedRows : Database :=
  write (waiting (emptyEnv [5, 7]))
    ([zeroRow "5", zeroRow "7"].map (registerPlatform (emptyEnv [5, 7])))

def somePool : PlatformPool := { qeId := "AA", pceId := "0000", encPpid := "01" }

/-- A fill in REQ mode has queued the reported levels and got no certificate; a
re-fetch and a refresh have got no answer, and others wrote in between. -/
theorem failed_fill_clean_refused :
    (Alone (perform (emptyEnv [5, 7]) reqCfg) (waiting (emptyEnv [5, 7]))
        (fillRegistered (emptyEnv [5, 7]) reqCfg clashing none) (.ret (.error .noCacheData))
        reportedRows ∧
      QueuedOnly (emptyEnv [5, 7]) "AA" "0000" (waiting (emptyEnv [5, 7])) reportedRows) ∧
    (∃ moves : List (Database × Database),
      Path (perform (emptyEnv [5, 7]) .plain)
        (within .elapsed id (refetch (emptyEnv [5, 7]) .plain somePool "00" "0500")) moves
        (.ret (some (.error .noCacheData))) ∧
      moves = [(∅, ∅), (reportedRows, reportedRows)] ∧ ∀ m ∈ moves, m.2 = m.1) ∧
    ∃ p', Alone (perform (emptyEnv [5, 7]) .plain) reportedRows
      (refreshPlatformPool (emptyEnv [5, 7]) .plain somePool) p' reportedRows ∧
      LeftBehind (emptyEnv [5, 7]) .lazy "AA" "0000" reportedRows reportedRows := by
  have hfill : Alone (perform (emptyEnv [5, 7]) reqCfg) (waiting (emptyEnv [5, 7]))
      (fillRegistered (emptyEnv [5, 7]) reqCfg clashing none) (.ret (.error .noCacheData))
      reportedRows := by
    have hexec := exec_fillWithoutCerts [5, 7] (waiting (emptyEnv [5, 7]))
    rw [reported_five_seven] at hexec
    exact (hexec.mono fun _ _ _ _ => perform_of_answering).alone
  have hrefetch : Path (perform (emptyEnv [5, 7]) .plain)
      (within .elapsed id (refetch (emptyEnv [5, 7]) .plain somePool "00" "0500"))
      [(∅, ∅), (reportedRows, reportedRows)] (.ret (some (.error .noCacheData))) := by
    refine .step (o := Op.elapsed) (r := false) rfl ?_
    rw [id, if_neg (by decide)]
    refine .step (r := (.error .noCacheData : Except PccsError HttpResponse)) rfl ?_
    exact .here _
  have hrefresh : Alone (perform (emptyEnv [5, 7]) .plain) reportedRows
      (refreshPlatformPool (emptyEnv [5, 7]) .plain somePool) (.ret (.error .noCacheData))
      reportedRows :=
    .step (r := (.error .noCacheData : Except PccsError HttpResponse)) rfl (.here _ _)
  refine ⟨⟨hfill, ?_⟩, ⟨_, hrefetch, rfl, ?_⟩, _, hrefresh, ?_⟩
  · refine ((failed_fill_clean (emptyEnv [5, 7]) reqCfg).1 "AA" clashing.cpuSvn clashing.pceSvn "0000"
      ⟨clashing.encPpid, clashing.platformManifest, none, false⟩).alone _ _ _ hfill ?_
    rintro _ ⟨⟩ ⟨_, h⟩
    cases h
  · refine ((failed_fill_clean (emptyEnv [5, 7]) .plain).2.1 somePool "00" "0500").among _ _ hrefetch ?_
    rintro _ ⟨⟩ ⟨_, ⟨⟩, _, h⟩
    cases h
  · refine ((failed_fill_clean (emptyEnv [5, 7]) .plain).2.2 somePool).alone _ _ _ hrefresh ?_
    rintro _ ⟨⟩ ⟨_, h⟩
    cases h

end Pccs.Cache
