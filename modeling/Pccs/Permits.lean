import Pccs.Metrics
import Pccs.Retry
import Pccs.Tasks

/-!
# Concurrent upstream calls

All calls of the upstream client share one semaphore and one registry. A call
waits for a permit before each of its attempts and gives it back before it sleeps
or returns; guards record waits and attempts also when the call is dropped, which
can happen whenever it awaits something. Steps of different calls interleave
freely.
-/
namespace Pccs.Permits

open Retry Metrics Cells Tasks Runs PccsError

section Calls

def maxResponseBytes : Nat := 16 * 1024 * 1024

/-- What the transport brings: nothing, or the head of a response and then its body
or nothing. -/
inductive Transport where
  | refused
  | head (status : Nat) (headers : List (String × List UInt8)) (body : Option (List UInt8))

def contentLength (headers : List (String × List UInt8)) : Option Nat := do
  let (_, value) ← headers.find? fun h => Text.eqIgnoreAsciiCase h.1 "content-length"
  let text ← toStr value
  parseU64 text

/-- One request and a body of bounded size. -/
def attempt : Transport → Outcome
  | .refused => .error pcsAccessFailure
  | .head status headers body =>
    if (contentLength headers).any (maxResponseBytes < ·) then .error pcsAccessFailure
    else match body with
      | none => .error pcsAccessFailure
      | some body =>
        if maxResponseBytes < body.length then .error pcsAccessFailure
        else if status = 200 ∧ body = [] then .error pcsAccessFailure
        else .ok ⟨status, headers, body⟩

/-- The end of a measured attempt: its deadline, its own end, or the end of its call. -/
inductive Ending where
  | timeout
  | attempted (outcome : Outcome)
  | dropped

/-- The status that the attempt's guard records. -/
def Ending.status : Ending → UpstreamStatus
  | .timeout => .timeout
  | .attempted (.error _) => .error
  | .attempted (.ok r) => .fromStatus r.status
  | .dropped => .error

/-- The attempt was answered with 429 or 503. -/
def Ending.throttled : Ending → Bool
  | .attempted outcome => Retry.throttled outcome
  | _ => false

def Ending.outcome : Ending → Option Outcome
  | .timeout => some (.error pcsAccessFailure)
  | .attempted outcome => some outcome
  | .dropped => none

/-- The calls that need permits. -/
inductive Call where
  | send (url : String) (body : Option (List UInt8)) (attachKey : Bool) (upstream : Upstream)
  | postJsonOnce (url : String) (body : List UInt8)
  | postBytesOnce (url contentType : String) (body : List UInt8)

namespace Call

def upstream : Call → Upstream
  | .send _ _ _ upstream => upstream
  | .postJsonOnce _ _ => .nvidiaNras
  | .postBytesOnce _ _ _ => .nvidiaOcsp

def check : Call → Except PccsError Unit
  | .send url _ true _ => Cache.checkV3 url
  | _ => .ok ()

/-- Only `send` repeats an attempt. -/
def maxAttempts (client : PcsClient) : Call → Nat
  | .send _ _ _ _ => client.maxAttempts
  | _ => 1

def wellFormed (lib : HttpLibrary) : Call → Bool
  | .send url body _ _ => lib.parses url && lib.builds url (body.getD [])
  | .postJsonOnce url body => lib.parses url && lib.builds url body
  | .postBytesOnce url _ body => lib.parses url && lib.builds url body

/-- The variables of the loop when an attempt starts. -/
def start (client : PcsClient) : Call → Loop → Loop
  | .send url body attachKey _, s => s.start (Retry.request client url body attachKey)
  | _, s => s

/-- A retry after a throttled answer, to be counted when it starts. -/
def retries : Call → Loop → Bool
  | .send _ _ _ _, s => s.throttledRetry
  | _, _ => false

def receive (client : PcsClient) (attempt : Nat) (outcome : Outcome) : Call → Loop → Option Next
  | .send _ _ _ _, s => s.receive client attempt outcome
  | _, s => some (.finish outcome s)

end Call

end Calls

section Tasks

/-- What the call does after an attempt. -/
inductive After where
  | again
  | finish (result : Outcome)
  | stop

/-- Where a call is. It awaits something in `called` (its first poll), `sleeping`,
`waiting` and `sending`. -/
inductive Pc where
  | called
  | head
  | sleeping
  | building
  | waiting
  | acquired
  | admitted
  | entered
  | sending
  | ended (ending : Ending)
  | recorded (after : After)
  | released (after : After)
  | finished (result : Outcome)
  | cancelled

structure Task where
  call : Call
  attempt : Nat
  loop : Loop
  pc : Pc
  /-- How its attempts ended. -/
  endings : List Ending
  /-- How often it has waited for a permit, and how many of its requests have left. -/
  waits : Nat
  begun : Nat

def Task.new (call : Call) : Task := ⟨call, 0, Retry.start, .called, [], 0, 0⟩

/-- The semaphore and the registry. -/
structure Shared where
  available : Nat
  metrics : Metrics

/-- `PcsClient::new`. -/
def Shared.new (maxConcurrent : Nat) (processStart : Counter) : Shared :=
  ⟨max maxConcurrent 1, Metrics.new processStart⟩

/-- What follows from the end of an attempt. -/
def Task.conclude (client : PcsClient) (t : Task) (ending : Ending) : Option (Loop × After) :=
  match ending.outcome with
  | none => some (t.loop, .stop)
  | some outcome =>
    match t.call.receive client t.attempt outcome t.loop with
    | none => none
    | some (.again s) => some (s, .again)
    | some (.finish result s) => some (s, .finish result)

/-- The guards are gone; the loop goes on or the call is over. -/
def Task.leave (t : Task) : After → Task
  | .again => { t with attempt := t.attempt + 1, pc := .head }
  | .finish result => { t with pc := .finished result }
  | .stop => { t with pc := .cancelled }

/-- The steps of a call by itself. -/
inductive Act (client : PcsClient) (lib : HttpLibrary) : Shared → Task → Shared → Task → Prop
  | refuse {s : Shared} {t : Task} {e : PccsError} (hpc : t.pc = .called)
      (h : t.call.check = .error e) : Act client lib s t s { t with pc := .finished (.error e) }
  | begin {s : Shared} {t : Task} (hpc : t.pc = .called) (h : t.call.check = .ok ()) :
      Act client lib s t s { t with pc := .head }
  | exhausted {s : Shared} {t : Task} (hpc : t.pc = .head)
      (h : t.call.maxAttempts client ≤ t.attempt) :
      Act client lib s t s { t with pc := .finished (.error t.loop.last) }
  | first {s : Shared} {t : Task} (hpc : t.pc = .head)
      (h : t.attempt < t.call.maxAttempts client) (h₀ : t.attempt = 0) :
      Act client lib s t s { t with pc := .building }
  | sleep {s : Shared} {t : Task} {loop : Loop} (hpc : t.pc = .head)
      (h : t.attempt < t.call.maxAttempts client) (h₀ : 0 < t.attempt)
      (hloop : t.loop.sleep t.attempt = some loop) :
      Act client lib s t s { t with loop := loop, pc := .sleeping }
  | wake {s : Shared} {t : Task} (hpc : t.pc = .sleeping) :
      Act client lib s t s { t with pc := .building }
  | malformed {s : Shared} {t : Task} (hpc : t.pc = .building)
      (h : t.call.wellFormed lib = false) :
      Act client lib s t s { t with pc := .finished (.error internalError) }
  | wait {s : Shared} {t : Task} (hpc : t.pc = .building) (h : t.call.wellFormed lib = true) :
      Act client lib s t s { t with waits := t.waits + 1, pc := .waiting }
  | acquire {s : Shared} {t : Task} (hpc : t.pc = .waiting) (h : 0 < s.available) :
      Act client lib s t { s with available := s.available - 1 } { t with pc := .acquired }
  | waited {s : Shared} {t : Task} (nanos : Nat) (hpc : t.pc = .acquired) :
      Act client lib s t { s with metrics := s.metrics.permitWait nanos } { t with pc := .admitted }
  | enter {s : Shared} {t : Task} (hpc : t.pc = .admitted) :
      Act client lib s t { s with metrics := s.metrics.inflightAdd } { t with pc := .entered }
  | send {s : Shared} {t : Task} (hpc : t.pc = .entered) :
      Act client lib s t
        { s with metrics := if t.call.retries t.loop then
            s.metrics.upstreamThrottled t.call.upstream else s.metrics }
        { t with loop := t.call.start client t.loop, begun := t.begun + 1, pc := .sending }
  | timeout {s : Shared} {t : Task} (hpc : t.pc = .sending) :
      Act client lib s t s { t with pc := .ended .timeout }
  | answer {s : Shared} {t : Task} (transport : Transport) (hpc : t.pc = .sending) :
      Act client lib s t s { t with pc := .ended (.attempted (attempt transport)) }
  | record {s : Shared} {t : Task} {ending : Ending} {loop : Loop} {after : After} (nanos : Nat)
      (hpc : t.pc = .ended ending) (h : t.conclude client ending = some (loop, after)) :
      Act client lib s t
        { s with metrics := s.metrics.upstreamAttempt t.call.upstream ending.status nanos }
        { t with loop := loop, endings := t.endings ++ [ending], pc := .recorded after }
  | release {s : Shared} {t : Task} {after : After} (hpc : t.pc = .recorded after) :
      Act client lib s t { s with available := s.available + 1 } { t with pc := .released after }
  -- the permit is back before the gauge goes down
  | leave {s : Shared} {t : Task} {after : After} (hpc : t.pc = .released after) :
      Act client lib s t { s with metrics := s.metrics.inflightSub } (t.leave after)

/-- A call is dropped at one of its awaits, and its guards run. -/
inductive Cancel : Shared → Task → Shared → Task → Prop
  | called {s : Shared} {t : Task} (hpc : t.pc = .called) :
      Cancel s t s { t with pc := .cancelled }
  | sleeping {s : Shared} {t : Task} (hpc : t.pc = .sleeping) :
      Cancel s t s { t with pc := .cancelled }
  | waiting {s : Shared} {t : Task} (nanos : Nat) (hpc : t.pc = .waiting) :
      Cancel s t { s with metrics := s.metrics.permitWait nanos } { t with pc := .cancelled }
  | sending {s : Shared} {t : Task} (hpc : t.pc = .sending) :
      Cancel s t s { t with pc := .ended .dropped }

/-- A call comes in, makes a step, or is dropped. -/
def Moves (client : PcsClient) (lib : HttpLibrary) : Crowd Shared Task → Crowd Shared Task → Prop :=
  Move (fun t => ∃ call, t = Task.new call)
    fun s t s' t' => Act client lib s t s' t' ∨ Cancel s t s' t'

end Tasks

section Accounts

variable {client : PcsClient} {lib : HttpLibrary} {s s' : Shared} {t t' : Task}

/-- A permit is held from its acquisition to its release. -/
def Task.permits (t : Task) : Nat :=
  match t.pc with
  | .acquired | .admitted | .entered | .sending | .ended _ | .recorded _ => 1
  | _ => 0

/-- The guard of the gauge. -/
def Task.guards (t : Task) : Nat :=
  match t.pc with
  | .entered | .sending | .ended _ | .recorded _ | .released _ => 1
  | _ => 0

/-- The guard of the waits. -/
def Task.waiting (t : Task) : Nat :=
  match t.pc with
  | .waiting | .acquired => 1
  | _ => 0

/-- A request is on the wire. -/
def Task.onWire (t : Task) : Nat :=
  match t.pc with
  | .sending => 1
  | _ => 0

/-- A request has left, and its end is not recorded. -/
def Task.unrecorded (t : Task) : Nat :=
  match t.pc with
  | .sending | .ended _ => 1
  | _ => 0

def Task.ended (upstream : Upstream) (status : UpstreamStatus) (t : Task) : Nat :=
  if t.call.upstream = upstream then t.endings.countP fun e => decide (e.status = status) else 0

def Task.retried (upstream : Upstream) (t : Task) : Nat :=
  if t.call.upstream = upstream then t.loop.counted else 0

/-- The throttled attempts that another attempt has followed. -/
def Task.followed (t : Task) : Nat := (t.endings.take (t.begun - 1)).countP Ending.throttled

def Task.resent (upstream : Upstream) (t : Task) : Nat :=
  if t.call.upstream = upstream then t.followed else 0

/-- The call may make another attempt. -/
def Task.next (t : Task) : Bool :=
  match t.pc with
  | .sending | .ended _ | .finished _ | .cancelled => false
  | .recorded .again | .released .again => true
  | .recorded _ | .released _ => false
  | _ => true

def Task.isOver (t : Task) : Bool :=
  match t.pc with
  | .finished _ | .cancelled => true
  | _ => false

theorem permits_step (h : Act client lib s t s' t' ∨ Cancel s t s' t') :
    s'.available + t'.permits = s.available + t.permits := by
  rcases h with h | h
  · cases h with
    | acquire hpc h =>
      simp only [Task.permits, hpc]
      omega
    | release hpc => simp [Task.permits, hpc]
    | leave hpc =>
      rename_i after
      cases after
      all_goals simp [Task.permits, Task.leave, hpc]
    | _ => simp [Task.permits, *]
  · cases h
    all_goals simp [Task.permits, *]

theorem waits_step (h : Act client lib s t s' t' ∨ Cancel s t s' t') :
    s'.metrics.permit.count + (t'.waiting : Counter) + (t.waits : Counter) =
      s.metrics.permit.count + (t.waiting : Counter) + (t'.waits : Counter) := by
  rcases h with h | h
  · cases h with
    | wait hpc h =>
      simp only [Task.waiting, hpc, Nat.cast_zero, Nat.cast_one, Nat.cast_add, add_zero]
      rw [add_right_comm, add_assoc]
    | waited nanos hpc =>
      simp only [Task.waiting, hpc, permitWait, Histogram.observe, Nat.cast_zero, Nat.cast_one,
        add_zero]
    | send hpc =>
      simp only [Task.waiting, hpc]
      split
      · rfl
      · rfl
    | leave hpc =>
      rename_i after
      cases after
      all_goals simp [Task.waiting, Task.leave, hpc, inflightSub]
    | _ => simp [Task.waiting, *, inflightAdd, upstreamAttempt]
  · cases h with
    | waiting nanos hpc =>
      simp only [Task.waiting, hpc, permitWait, Histogram.observe, Nat.cast_zero, Nat.cast_one,
        add_zero]
    | _ => simp [Task.waiting, *]

theorem begun_step (h : Act client lib s t s' t' ∨ Cancel s t s' t')
    (ht : t.begun = t.endings.length + t.unrecorded) :
    t'.begun = t'.endings.length + t'.unrecorded := by
  rcases h with h | h
  · cases h with
    | leave hpc =>
      rename_i after
      simp only [Task.unrecorded, hpc] at ht
      cases after
      all_goals exact ht
    | _ => simp [Task.unrecorded, *]
  · cases h
    all_goals simp [Task.unrecorded, *]

theorem attempts_step (upstream : Upstream) (status : UpstreamStatus)
    (h : Act client lib s t s' t' ∨ Cancel s t s' t') :
    cell s'.metrics.upstream (upstream, status) + (t.ended upstream status : Counter) =
      cell s.metrics.upstream (upstream, status) + (t'.ended upstream status : Counter) := by
  rcases h with h | h
  · cases h with
    | record nanos hpc h =>
      simp only [Task.ended, upstreamAttempt, cell_modify, Prod.mk.injEq, List.countP_append,
        List.countP_singleton, decide_eq_true_eq]
      by_cases hu : t.call.upstream = upstream
      · rename_i ending loop after
        by_cases hstatus : ending.status = status
        · simp only [hu, hstatus, and_self, if_true, Nat.cast_add, Nat.cast_one]
          rw [add_right_comm, add_assoc]
        · simp [hu, hstatus]
      · simp [hu]
    | send hpc =>
      simp only [Task.ended]
      split
      · rfl
      · rfl
    | leave hpc =>
      rename_i after
      cases after
      all_goals rfl
    | _ => rfl
  · cases h
    all_goals rfl

theorem sleep_counted {a b : Loop} {n : Nat} (h : a.sleep n = some b) :
    b.counted = a.counted ∧ b.throttledRetry = a.throttledRetry := by
  unfold Loop.sleep at h
  split at h
  · simp only [Option.bind_eq_bind, Option.bind_eq_some_iff, Option.pure_def,
      Option.some.injEq] at h
    obtain ⟨_, -, rfl⟩ := h
    exact ⟨rfl, rfl⟩
  · rw [Option.some.inj h]
    exact ⟨rfl, rfl⟩

/-- The answer to an attempt leaves the log of the loop alone. -/
structure SameLog (a b : Loop) : Prop where
  counted : b.counted = a.counted
  requests : b.requests = a.requests
  waits : b.waits = a.waits

def loopOf : Next → Loop
  | .again s => s
  | .finish _ s => s

theorem receive_sameLog {n : Nat} {outcome : Outcome} {a : Loop} {next : Next}
    (h : a.receive client n outcome = some next) : SameLog a (loopOf next) := by
  unfold Loop.receive at h
  cases outcome with
  | error e =>
    rw [← Option.some.inj h]
    exact ⟨rfl, rfl, rfl⟩
  | ok r =>
    simp only at h
    split at h
    · simp only [Loop.throttle, Option.bind_eq_bind, Option.bind_eq_some_iff] at h
      obtain ⟨throttled, -, h⟩ := h
      split at h
      · rw [Option.bind_eq_some_iff] at h
        obtain ⟨following, -, h⟩ := h
        split at h
        all_goals
          rw [← Option.some.inj h]
          exact ⟨rfl, rfl, rfl⟩
      · rw [← Option.some.inj h]
        exact ⟨rfl, rfl, rfl⟩
    · rw [← Option.some.inj h]
      exact ⟨rfl, rfl, rfl⟩

theorem conclude_sameLog {ending : Ending} {loop : Loop} {after : After}
    (h : t.conclude client ending = some (loop, after)) : SameLog t.loop loop := by
  unfold Task.conclude at h
  split at h
  · cases h
    exact ⟨rfl, rfl, rfl⟩
  · rename_i outcome houtcome
    cases hcall : t.call with
    | send url body attachKey upstream =>
      rw [hcall] at h
      simp only [Call.receive] at h
      cases hnext : t.loop.receive client t.attempt outcome with
      | none =>
        rw [hnext] at h
        cases h
      | some next =>
        have hlog := receive_sameLog hnext
        rw [hnext] at h
        cases next with
        | again b =>
          cases h
          exact hlog
        | finish result b =>
          cases h
          exact hlog
    | postJsonOnce url body =>
      rw [hcall] at h
      cases h
      exact ⟨rfl, rfl, rfl⟩
    | postBytesOnce url contentType body =>
      rw [hcall] at h
      cases h
      exact ⟨rfl, rfl, rfl⟩

theorem start_counted (call : Call) (loop : Loop) :
    (call.start client loop).counted = loop.counted + (call.retries loop).toNat := by
  cases call with
  | send url body attachKey upstream =>
    simp only [Call.start, Loop.start, Call.retries]
    cases loop.throttledRetry with
    | true => rfl
    | false => rfl
  | postJsonOnce url body => rfl
  | postBytesOnce url contentType body => rfl

theorem throttled_step (upstream : Upstream) (h : Act client lib s t s' t' ∨ Cancel s t s' t') :
    cell s'.metrics.throttled upstream + (t.retried upstream : Counter) =
      cell s.metrics.throttled upstream + (t'.retried upstream : Counter) := by
  rcases h with h | h
  · cases h with
    | sleep hpc h h₀ hloop => simp only [Task.retried, (sleep_counted hloop).1]
    | record nanos hpc h =>
      simp only [Task.retried, upstreamAttempt, (conclude_sameLog h).counted]
    | send hpc =>
      simp only [Task.retried, start_counted]
      cases t.call.retries t.loop with
      | false => simp
      | true =>
        by_cases hu : t.call.upstream = upstream
        · simp only [hu, if_true, upstreamThrottled, cell_modify, Bool.toNat_true, Nat.cast_add,
            Nat.cast_one]
          rw [add_right_comm, add_assoc]
        · simp [hu, upstreamThrottled, cell_modify]
    | leave hpc =>
      rename_i after
      cases after
      all_goals rfl
    | _ => rfl
  · cases h
    all_goals rfl

/-- The loop goes on after a throttled answer with its flag up. -/
theorem receive_again {a b : Loop} {n : Nat} {outcome : Outcome} (hclear : a.throttledRetry = false)
    (h : a.receive client n outcome = some (.again b)) :
    b.throttledRetry = Retry.throttled outcome := by
  unfold Loop.receive at h
  cases outcome with
  | error e =>
    cases h
    exact hclear
  | ok r =>
    simp only at h
    split at h
    · rename_i hr
      simp only [Loop.throttle, Option.bind_eq_bind, Option.bind_eq_some_iff] at h
      obtain ⟨throttled, -, h⟩ := h
      split at h
      · rw [Option.bind_eq_some_iff] at h
        obtain ⟨following, -, h⟩ := h
        split at h
        · cases h
          exact hr.symm
        · cases h
      · cases h
    · cases h

theorem conclude_again {ending : Ending} {loop : Loop} (hclear : t.call.retries t.loop = false)
    (h : t.conclude client ending = some (loop, .again)) :
    t.call.retries loop = ending.throttled := by
  unfold Task.conclude at h
  split at h
  · cases h
  · rename_i outcome houtcome
    cases hcall : t.call with
    | send url body attachKey upstream =>
      rw [hcall] at h hclear
      simp only [Call.receive] at h
      cases hnext : t.loop.receive client t.attempt outcome with
      | none =>
        rw [hnext] at h
        cases h
      | some next =>
        rw [hnext] at h
        cases next with
        | again b =>
          cases h
          rw [Call.retries, receive_again hclear hnext]
          cases ending with
          | timeout => cases houtcome; rfl
          | attempted o => cases houtcome; rfl
          | dropped => cases houtcome
        | finish result b => cases h
    | postJsonOnce url body =>
      rw [hcall] at h
      cases h
    | postBytesOnce url contentType body =>
      rw [hcall] at h
      cases h

/-- The log of a call is that of its attempts: a throttled one is counted when the
next one leaves, and until then the flag says that it was throttled. -/
structure Logged (t : Task) : Prop where
  begun : t.begun = t.endings.length + t.unrecorded
  counted : t.loop.counted = t.followed
  flag : t.next = true → t.call.retries t.loop = t.endings.getLast?.any Ending.throttled
  clear : t.unrecorded = 1 → t.call.retries t.loop = false

theorem retries_congr (call : Call) {a b : Loop} (h : b.throttledRetry = a.throttledRetry) :
    call.retries b = call.retries a := by
  cases call with
  | send url body attachKey upstream => exact h
  | _ => rfl

theorem retries_start (call : Call) (loop : Loop) :
    call.retries (call.start client loop) = false := by
  cases call with
  | send url body attachKey upstream => rfl
  | _ => rfl

theorem logged_new (call : Call) : Logged (Task.new call) := by
  refine ⟨rfl, rfl, fun _ => ?_, by simp [Task.new, Task.unrecorded]⟩
  cases call with
  | _ => rfl

/-- A step that moves the call on and leaves its attempts alone. -/
theorem Logged.moved {pc : Pc} {waits : Nat} (ht : Logged t)
    (hunrecorded : { t with waits := waits, pc := pc }.unrecorded = t.unrecorded)
    (hnext : { t with waits := waits, pc := pc }.next = true → t.next = true) :
    Logged { t with waits := waits, pc := pc } where
  begun := by rw [hunrecorded]; exact ht.begun
  counted := ht.counted
  flag h := ht.flag (hnext h)
  clear h := ht.clear (hunrecorded ▸ h)

theorem countP_last {α : Type} (p : α → Bool) (l : List α) :
    l.countP p = (l.take (l.length - 1)).countP p + (l.getLast?.any p).toNat := by
  rcases List.eq_nil_or_concat l with rfl | ⟨start, a, rfl⟩
  · rfl
  · cases hp : p a with
    | true => simp [hp]
    | false => simp [hp]

theorem logged_step (h : Act client lib s t s' t' ∨ Cancel s t s' t') (ht : Logged t) :
    Logged t' := by
  rcases h with h | h
  · cases h with
    | sleep hpc h h₀ hloop =>
      obtain ⟨hcounted, hflag⟩ := sleep_counted hloop
      have hwaiting := ht.flag (by simp [Task.next, hpc])
      exact ⟨by simpa [Task.unrecorded, hpc] using ht.begun, hcounted.trans ht.counted,
        fun _ => (retries_congr t.call hflag).trans hwaiting, by simp [Task.unrecorded]⟩
    | send hpc =>
      have hbegun : t.begun = t.endings.length := by simpa [Task.unrecorded, hpc] using ht.begun
      have hcounted := @start_counted client t.call t.loop
      rw [ht.counted, ht.flag (by simp [Task.next, hpc]), Task.followed, hbegun,
        ← countP_last] at hcounted
      exact ⟨by simp [Task.unrecorded, hbegun], by simpa [Task.followed, hbegun] using hcounted,
        by simp [Task.next], fun _ => retries_start t.call t.loop⟩
    | @record ending loop after nanos hpc h =>
      have hbegun : t.begun = t.endings.length + 1 := by
        simpa [Task.unrecorded, hpc] using ht.begun
      have hlog : loop.counted = t.followed := (conclude_sameLog h).counted.trans ht.counted
      refine ⟨by simp [Task.unrecorded, hbegun], by simpa [Task.followed, hbegun] using hlog, ?_,
        by simp [Task.unrecorded]⟩
      cases after with
      | again =>
        intro _
        simpa using conclude_again (ht.clear (by simp [Task.unrecorded, hpc])) h
      | finish result => simp [Task.next]
      | stop => simp [Task.next]
    | @leave after hpc =>
      have hbegun : t.begun = t.endings.length := by simpa [Task.unrecorded, hpc] using ht.begun
      cases after with
      | again =>
        exact ⟨hbegun, ht.counted, fun _ => ht.flag (by simp [Task.next, hpc]),
          by simp [Task.leave, Task.unrecorded]⟩
      | finish result => exact ⟨hbegun, ht.counted, by simp [Task.leave, Task.next],
          by simp [Task.leave, Task.unrecorded]⟩
      | stop => exact ⟨hbegun, ht.counted, by simp [Task.leave, Task.next],
          by simp [Task.leave, Task.unrecorded]⟩
    | release hpc =>
      rename_i after
      cases after
      all_goals exact ht.moved (by simp [Task.unrecorded, hpc]) (by simp [Task.next, hpc])
    | _ => exact ht.moved (by simp [Task.unrecorded, *]) (by simp [Task.next, *])
  · cases h
    all_goals exact ht.moved (by simp [Task.unrecorded, *]) (by simp [Task.next, *])

/-- The gauge goes down only while somebody holds it up. -/
theorem gauge_step (h : Act client lib s t s' t' ∨ Cancel s t s' t')
    (hpos : t.guards = 1 → s.metrics.inflight ≠ 0) :
    s'.metrics.inflight + (t.guards : Counter) = s.metrics.inflight + (t'.guards : Counter) := by
  rcases h with h | h
  · cases h with
    | enter hpc => simp only [Task.guards, hpc, inflightAdd, Nat.cast_zero, Nat.cast_one, add_zero]
    | send hpc =>
      simp only [Task.guards, hpc]
      split
      · rfl
      · rfl
    | leave hpc =>
      rename_i after
      have hheld : t.guards = 1 := by simp only [Task.guards, hpc]
      have hleft : (t.leave after).guards = 0 := by
        cases after
        all_goals rfl
      rw [hleft, hheld]
      simp only [inflightSub, if_neg (hpos hheld), Nat.cast_zero, Nat.cast_one, add_zero,
        sub_add_cancel]
    | _ => simp [Task.guards, *, permitWait, upstreamAttempt]
  · cases h
    all_goals simp [Task.guards, *, permitWait]

theorem guards_le (t : Task) : t.guards ≤ 1 := by
  unfold Task.guards
  split
  all_goals decide

theorem onWire_le (t : Task) : t.onWire ≤ t.permits := by
  cases hpc : t.pc
  all_goals simp [Task.onWire, Task.permits, hpc]

theorem over_free (h : t.isOver = true) : t.permits = 0 ∧ t.guards = 0 ∧ t.waiting = 0 := by
  unfold Task.isOver at h
  split at h
  · simp_all [Task.permits, Task.guards, Task.waiting]
  · simp_all [Task.permits, Task.guards, Task.waiting]
  · cases h

variable {maxConcurrent : Nat} {processStart : Counter} {c : Crowd Shared Task}

/-- A cast below the modulus is zero only for zero. -/
theorem cast_ne_zero {n : Nat} (h : 0 < n) (hlt : n < 2 ^ 64) : (n : Counter) ≠ 0 := by
  intro hzero
  have htoNat := congrArg BitVec.toNat hzero
  rw [BitVec.natCast_eq_ofNat, BitVec.toNat_ofNat, Nat.mod_eq_of_lt hlt] at htoNat
  exact absurd htoNat (Nat.ne_of_gt h)

/-- By induction on the run: the gauge is what the guards add up to, so it is not zero
where one of them goes. -/
theorem gauge_guards (h : Reachable (Opens (Shared.new maxConcurrent processStart))
    (Moves client lib) c) :
    c.tasks.length < 2 ^ 64 → c.shared.metrics.inflight = ((c.weight Task.guards : Nat) : Counter) := by
  refine invariant (P := fun c : Crowd Shared Task => c.tasks.length < 2 ^ 64 →
    c.shared.metrics.inflight = ((c.weight Task.guards : Nat) : Counter)) ?_ ?_ h
  · rintro c rfl _
    rfl
  · intro c c' hc hmove hlen
    have hprior := hc (Nat.lt_of_le_of_lt (tasks_mono hmove) hlen)
    cases hmove with
    | arrive s ts ht =>
      obtain ⟨call, rfl⟩ := ht
      rw [weight_cons]
      exact hprior.trans (congrArg _ (zero_add _).symm)
    | @act s s' t t' before after ht =>
      have hweight := @weight_le_mul _ _ (⟨s, before ++ t :: after⟩ : Crowd Shared Task)
        Task.guards 1 guards_le
      have hlen' : (before ++ t :: after).length * 1 < 2 ^ 64 := by simpa using hlen
      have hless := Nat.lt_of_le_of_lt hweight hlen'
      rw [weight_middle] at hprior hless ⊢
      simp only at hprior ⊢
      have hstep := gauge_step ht fun hone => by
        rw [hprior, hone]
        exact cast_ne_zero (by omega) (by omega)
      rw [hprior] at hstep
      rw [Nat.cast_add] at hstep ⊢
      refine add_right_cancel (b := (t.guards : Counter)) ?_
      rw [hstep, weight_shared Task.guards s' s]
      abel

/-- A call that comes in has done nothing. -/
theorem new_idle {t : Task} (h : ∃ call, t = Task.new call) :
    t.permits = 0 ∧ t.waiting = 0 ∧ t.waits = 0 ∧ t.endings = [] ∧ t.loop.counted = 0 := by
  obtain ⟨call, rfl⟩ := h
  exact ⟨rfl, rfl, rfl, rfl, rfl⟩

/-- Nothing is counted yet. -/
theorem new_counters (maxConcurrent : Nat) (processStart : Counter) :
    (Shared.new maxConcurrent processStart).metrics.permit.count = 0 ∧
    (∀ p, cell (Shared.new maxConcurrent processStart).metrics.upstream p = 0) ∧
    ∀ upstream, cell (Shared.new maxConcurrent processStart).metrics.throttled upstream = 0 :=
  ⟨rfl, fun p => cell_fill _ p, fun upstream => cell_fill _ upstream⟩

theorem waits_recorded (h : Reachable (Opens (Shared.new maxConcurrent processStart))
    (Moves client lib) c) :
    c.shared.metrics.permit.count + ((c.weight Task.waiting : Nat) : Counter) =
      ((c.weight Task.waits : Nat) : Counter) := by
  have hbalance := balanced (f := fun s : Shared => s.metrics.permit.count)
    (v := fun t : Task => (t.waiting : Counter)) (w := fun t : Task => (t.waits : Counter))
    (fun t ht => by rw [(new_idle ht).2.1, (new_idle ht).2.2.1])
    (fun _ _ _ _ ht => waits_step ht) h
  rw [weight_cast, weight_cast, (new_counters maxConcurrent processStart).1, zero_add] at hbalance
  exact hbalance

theorem attempts_recorded (h : Reachable (Opens (Shared.new maxConcurrent processStart))
    (Moves client lib) c) (upstream : Upstream) (status : UpstreamStatus) :
    cell c.shared.metrics.upstream (upstream, status) =
      ((c.weight (Task.ended upstream status) : Nat) : Counter) := by
  have htally := tallied (f := fun s : Shared => cell s.metrics.upstream (upstream, status))
    (w := fun t : Task => (t.ended upstream status : Counter))
    (fun t ht => by simp [Task.ended, (new_idle ht).2.2.2.1])
    (fun _ _ _ _ ht => attempts_step upstream status ht) h
  rw [weight_cast, (new_counters maxConcurrent processStart).2.1, zero_add] at htally
  exact htally

theorem retries_recorded (h : Reachable (Opens (Shared.new maxConcurrent processStart))
    (Moves client lib) c) (upstream : Upstream) :
    cell c.shared.metrics.throttled upstream =
      ((c.weight (Task.resent upstream) : Nat) : Counter) := by
  have hlogged := each_task (P := Logged)
    (by rintro t ⟨call, rfl⟩; exact logged_new call) (fun _ _ _ _ => logged_step) h
  have hresent : c.weight (Task.retried upstream) = c.weight (Task.resent upstream) :=
    weight_congr fun t ht => by rw [Task.retried, Task.resent, (hlogged t ht).counted]
  have htally := tallied (f := fun s : Shared => cell s.metrics.throttled upstream)
    (w := fun t : Task => (t.retried upstream : Counter))
    (fun t ht => by simp [Task.retried, (new_idle ht).2.2.2.2])
    (fun _ _ _ _ ht => throttled_step upstream ht) h
  rw [weight_cast, (new_counters maxConcurrent processStart).2.2, zero_add, hresent] at htally
  exact htally

/-- What the semaphore and the registry say of the calls: every permit is free or held,
the gauge is the number of guards, and each wait and each request that left is recorded
once, with the status of its end. -/
structure Accounts (bound : Nat) (c : Crowd Shared Task) : Prop where
  permits : c.shared.available + c.weight Task.permits = bound
  onWire : c.weight Task.onWire ≤ bound
  gauge : c.tasks.length < 2 ^ 64 → c.shared.metrics.inflight = ((c.weight Task.guards : Nat) : Counter)
  waits : c.shared.metrics.permit.count + ((c.weight Task.waiting : Nat) : Counter) =
    ((c.weight Task.waits : Nat) : Counter)
  once : ∀ t ∈ c.tasks, t.begun = t.endings.length + t.unrecorded
  attempts : ∀ upstream status, cell c.shared.metrics.upstream (upstream, status) =
    ((c.weight (Task.ended upstream status) : Nat) : Counter)
  throttled : ∀ upstream, cell c.shared.metrics.throttled upstream =
    ((c.weight (Task.resent upstream) : Nat) : Counter)
  quiet : (∀ t ∈ c.tasks, t.isOver = true) → c.shared.available = bound ∧
    (c.tasks.length < 2 ^ 64 → c.shared.metrics.inflight = 0) ∧
    c.shared.metrics.permit.count = ((c.weight Task.waits : Nat) : Counter)

/-- In every run, however calls interleave and are dropped. -/
theorem calls_accounted (h : Reachable (Opens (Shared.new maxConcurrent processStart))
    (Moves client lib) c) : Accounts (max maxConcurrent 1) c := by
  have hpermits : c.shared.available + c.weight Task.permits = max maxConcurrent 1 :=
    conserved (f := Shared.available) (fun t ht => (new_idle ht).1)
      (fun _ _ _ _ ht => permits_step ht) h
  have hgauge := gauge_guards h
  have hwaits := waits_recorded h
  exact {
    permits := hpermits
    onWire := by
      have := weight_le (c := c) fun t _ => onWire_le t
      omega
    gauge := hgauge
    waits := hwaits
    once := each_task (by rintro t ⟨call, rfl⟩; rfl) (fun _ _ _ _ => begun_step) h
    attempts := attempts_recorded h
    throttled := retries_recorded h
    quiet := by
      intro hover
      have hfree := fun t ht => over_free (hover t ht)
      rw [weight_zero fun t ht => (hfree t ht).1, add_zero] at hpermits
      rw [weight_zero fun t ht => (hfree t ht).2.1] at hgauge
      rw [weight_zero fun t ht => (hfree t ht).2.2] at hwaits
      exact ⟨hpermits, hgauge, (add_zero _).symm.trans hwaits⟩ }

def oneAttempt : PcsClient := ⟨1, "", by decide⟩

def anyUrl : HttpLibrary := ⟨fun _ => true, fun _ _ => true⟩

def fetchCrl : Task := Task.new (.send "https://h/crl" none true .intelPcs)

def attest : Task := Task.new (.postJsonOnce "https://n/attest" [])

/-- There is one permit. The first call has it, and the second waits. -/
theorem one_waits : Reachable (Opens (Shared.new 0 0)) (Moves oneAttempt anyUrl)
    ⟨⟨0, Metrics.new 0⟩, [{ attest with waits := 1, pc := .waiting },
      { fetchCrl with waits := 1, pc := .acquired }]⟩ := by
  have h := @reachable_start _ (Opens (Shared.new 0 0)) (Moves oneAttempt anyUrl) _ rfl
  have h := reachable_step h (.arrive _ _ (t := fetchCrl) ⟨_, rfl⟩)
  have h := reachable_step h (.act [] [] (.inl (.begin rfl (by decide))))
  have h := reachable_step h (.act [] [] (.inl (.first rfl (by decide) rfl)))
  have h := reachable_step h (.act [] [] (.inl (.wait rfl rfl)))
  have h := reachable_step h (.act [] [] (.inl (.acquire rfl (by decide))))
  have h := reachable_step h (.arrive _ _ (t := attest) ⟨_, rfl⟩)
  have h := reachable_step h (.act [] [_] (.inl (.begin rfl rfl)))
  have h := reachable_step h (.act [] [_] (.inl (.first rfl (by decide) rfl)))
  exact reachable_step h (.act [] [_] (.inl (.wait rfl rfl)))

def crl : Outcome := .ok ⟨200, [], [123, 125]⟩

/-- The second call is dropped while it waits, and the first one ends. -/
theorem one_served : ∃ s loop, Reachable (Opens (Shared.new 0 0)) (Moves oneAttempt anyUrl)
    ⟨s, [{ attest with waits := 1, pc := .cancelled },
      { fetchCrl with
        loop := loop, endings := [.attempted crl], waits := 1, begun := 1, pc := .finished crl }]⟩ := by
  have h := reachable_step one_waits (.act [] [_] (.inr (.waiting 7 rfl)))
  have h := reachable_step h (.act [_] [] (.inl (.waited 3 rfl)))
  have h := reachable_step h (.act [_] [] (.inl (.enter rfl)))
  have h := reachable_step h (.act [_] [] (.inl (.send rfl)))
  have h := reachable_step h (.act [_] [] (.inl (.answer (.head 200 [] (some [123, 125])) rfl)))
  have h := reachable_step h (.act [_] [] (.inl (.record 9 rfl rfl)))
  have h := reachable_step h (.act [_] [] (.inl (.release rfl)))
  have h := reachable_step h (.act [_] [] (.inl (.leave rfl)))
  exact ⟨_, _, h⟩

theorem calls_accounted_one : ∃ c : Crowd Shared Task, Accounts 1 c ∧ c.tasks.length = 2 ∧
    c.shared.available = 1 ∧ c.shared.metrics.inflight = 0 ∧ c.shared.metrics.permit.count = 2 ∧
    cell c.shared.metrics.upstream (.intelPcs, .s200) = 1 := by
  obtain ⟨s, loop, h⟩ := one_served
  have haccounts : Accounts 1 _ := calls_accounted h
  obtain ⟨hpermits, hgauge, hwaits⟩ :=
    haccounts.quiet (List.forall_mem_cons.mpr ⟨rfl, List.forall_mem_singleton.mpr rfl⟩)
  have hfew : 2 < 2 ^ 64 := by decide
  exact ⟨_, haccounts, rfl, hpermits, hgauge hfew, hwaits, haccounts.attempts .intelPcs .s200⟩

end Accounts

end Pccs.Permits
