import Pccs.Permits

/-!
# Runs of concurrent calls

A finished call has the result of the retry loop alone on the outcomes it
received, whatever the other calls did meanwhile. No call blocks the others
forever: while a call is not over, some call can make a step, and the calls that
are there have only so many steps left.
-/
namespace Pccs.Permits

open Retry Metrics Tasks Runs PccsError

variable {client : PcsClient} {lib : HttpLibrary}

section Agreement

/-- The outcomes of the attempts that were made are these. -/
def Extends (endings : List Ending) (outcomes : Nat → Outcome) : Prop :=
  ∀ i ending, endings[i]? = some ending → ending.outcome = some (outcomes i)

theorem extends_concat {endings : List Ending} {ending : Ending} {outcomes : Nat → Outcome}
    (h : Extends (endings ++ [ending]) outcomes) :
    Extends endings outcomes ∧ ending.outcome = some (outcomes endings.length) := by
  constructor
  · intro i e he
    have hi : i < endings.length := (List.getElem?_eq_some_iff.mp he).1
    exact h i e (by rw [List.getElem?_append_left hi, he])
  · exact h endings.length ending (by simp)

variable (client lib) in
/-- The call alone comes to this, on every continuation of the outcomes it received. -/
def Comes (url : String) (body : Option (List UInt8)) (attachKey : Bool) (endings : List Ending)
    (rest : (Nat → Outcome) → Option Run) : Prop :=
  ∀ outcomes, Extends endings outcomes →
    send client lib url body attachKey outcomes = rest outcomes

variable (client lib) in
/-- A round has begun with the loop `s₀`. -/
structure InRound (url : String) (body : Option (List UInt8)) (attachKey : Bool) (t : Task)
    (s₀ : Loop) : Prop where
  attempts : t.endings.length = t.attempt
  within : t.attempt < client.maxAttempts
  throttled : s₀.throttled ≤ t.attempt
  comes : Comes client lib url body attachKey t.endings fun outcomes =>
    rounds client lib (request client url body attachKey) outcomes t.attempt s₀

variable (client lib) in
/-- Where the retry loop alone would be. -/
def Follows (url : String) (body : Option (List UInt8)) (attachKey : Bool) (t : Task) : Prop :=
  match t.pc with
  | .called => t.attempt = 0 ∧ t.loop = Retry.start ∧ t.endings = []
  | .head => t.endings.length = t.attempt ∧ t.loop.throttled ≤ t.attempt ∧
      Comes client lib url body attachKey t.endings fun outcomes =>
        rounds client lib (request client url body attachKey) outcomes t.attempt t.loop
  | .sleeping | .building => ∃ s₀, InRound client lib url body attachKey t s₀ ∧
      s₀.sleep t.attempt = some t.loop
  | .waiting | .acquired | .admitted | .entered =>
      t.call.wellFormed lib = true ∧ ∃ s₀, InRound client lib url body attachKey t s₀ ∧
        s₀.sleep t.attempt = some t.loop
  | .sending | .ended _ =>
      t.call.wellFormed lib = true ∧ ∃ s₀ s₁, InRound client lib url body attachKey t s₀ ∧
        s₀.sleep t.attempt = some s₁ ∧ t.loop = s₁.start (request client url body attachKey)
  | .recorded .again | .released .again =>
      t.endings.length = t.attempt + 1 ∧ t.loop.throttled ≤ t.attempt + 1 ∧
        Comes client lib url body attachKey t.endings fun outcomes =>
          rounds client lib (request client url body attachKey) outcomes (t.attempt + 1) t.loop
  | .recorded (.finish result) | .released (.finish result) | .finished result =>
      Comes client lib url body attachKey t.endings fun _ => some (t.loop.finish result)
  | .recorded .stop | .released .stop | .cancelled => True

variable {url : String} {body : Option (List UInt8)} {attachKey : Bool} {upstream : Upstream}
  {s s' : Shared} {t t' : Task}

theorem sleep_zero (s : Loop) : s.sleep 0 = some s := rfl

theorem sleep_throttled {a b : Loop} {n : Nat} (h : a.sleep n = some b) :
    b.throttled = a.throttled := by
  unfold Loop.sleep at h
  split at h
  · simp only [Option.bind_eq_bind, Option.bind_eq_some_iff, Option.pure_def,
      Option.some.injEq] at h
    obtain ⟨_, -, rfl⟩ := h
    rfl
  · rw [Option.some.inj h]

/-- An answer throttles a call once at most. -/
theorem receive_throttled_le {a b : Loop} {n : Nat} {outcome : Outcome}
    (h : a.receive client n outcome = some (.again b)) : b.throttled ≤ a.throttled + 1 := by
  unfold Loop.receive at h
  cases outcome with
  | error e =>
    cases h
    exact Nat.le_succ _
  | ok r =>
    simp only at h
    split at h
    · simp only [Loop.throttle, Option.bind_eq_bind, Option.bind_eq_some_iff] at h
      obtain ⟨throttled, hadd, h⟩ := h
      simp only [addU32, Option.ite_none_right_eq_some, Option.some.injEq] at hadd
      split at h
      · rw [Option.bind_eq_some_iff] at h
        obtain ⟨following, -, h⟩ := h
        split at h
        · cases h
          exact hadd.2.ge
        · cases h
      · cases h
    · cases h

/-- One round of the loop alone. -/
theorem rounds_malformed {req : Request} {outcomes : Nat → Outcome} {n : Nat} {s₀ s₁ : Loop}
    (hlt : n < client.maxAttempts) (hs : s₀.sleep n = some s₁)
    (h : (lib.parses req.uri && lib.builds req.uri (req.json.getD [])) = false) :
    rounds client lib req outcomes n s₀ = some (s₁.finish (.error internalError)) := by
  rw [rounds, if_pos hlt, Loop.round, hs]
  cases hparse : lib.parses req.uri with
  | false => simp
  | true =>
    rw [hparse, Bool.true_and] at h
    simp [h]

theorem round_sent {req : Request} {outcome : Outcome} {n : Nat} {s₀ s₁ : Loop}
    (hs : s₀.sleep n = some s₁)
    (h : (lib.parses req.uri && lib.builds req.uri (req.json.getD [])) = true) :
    s₀.round client lib req n outcome = (s₁.start req).receive client n outcome := by
  rw [Bool.and_eq_true] at h
  rw [Loop.round, hs]
  simp [h.1, h.2]

variable (client lib) in
/-- What the loop alone comes to from here, by what follows the attempt. -/
def comesTo (req : Request) (n : Nat) (loop : Loop) : After → (Nat → Outcome) → Option Run
  | .again, outcomes => rounds client lib req outcomes (n + 1) loop
  | .finish result, _ => some (loop.finish result)
  | .stop, _ => none

/-- The attempt is made, and the loop alone goes on as the call does. -/
theorem rounds_conclude {ending : Ending} {loop : Loop} {after : After} {outcomes : Nat → Outcome}
    {s₀ s₁ : Loop} (hcall : t.call = .send url body attachKey upstream)
    (hlt : t.attempt < client.maxAttempts) (hs : s₀.sleep t.attempt = some s₁)
    (hloop : t.loop = s₁.start (request client url body attachKey))
    (hwell : t.call.wellFormed lib = true)
    (ho : ending.outcome = some (outcomes t.attempt))
    (h : t.conclude client ending = some (loop, after)) :
    rounds client lib (request client url body attachKey) outcomes t.attempt s₀ =
        comesTo client lib (request client url body attachKey) t.attempt loop after outcomes ∧
      (after = .again → loop.throttled ≤ t.loop.throttled + 1) := by
  rw [hcall] at hwell
  have hround : s₀.round client lib (request client url body attachKey) t.attempt
      (outcomes t.attempt) = _ := round_sent hs hwell
  rw [rounds, if_pos hlt, hround, ← hloop]
  simp only [Task.conclude, ho, hcall, Call.receive] at h
  cases hnext : t.loop.receive client t.attempt (outcomes t.attempt) with
  | none =>
    rw [hnext] at h
    cases h
  | some next =>
    rw [hnext] at h
    cases next with
    | again b =>
      cases h
      exact ⟨rfl, fun _ => receive_throttled_le hnext⟩
    | finish result b =>
      cases h
      exact ⟨rfl, fun hafter => by cases hafter⟩

theorem start_throttled (loop : Loop) (req : Request) :
    (loop.start req).throttled = loop.throttled := rfl

/-- Every step of a call is a step of the loop alone, or none of its steps. -/
theorem follows_act (hcall : t.call = .send url body attachKey upstream)
    (h : Act client lib s t s' t') (ht : Follows client lib url body attachKey t) :
    Follows client lib url body attachKey t' := by
  cases h with
  | refuse hpc h =>
    simp only [Follows, hpc] at ht ⊢
    obtain ⟨-, hloop, -⟩ := ht
    intro outcomes _
    rw [hcall] at h
    cases attachKey with
    | false => cases h
    | true =>
      have hcheck : Cache.checkV3 url = .error _ := h
      rw [send, if_pos rfl, hcheck, hloop]
  | begin hpc h =>
    simp only [Follows, hpc] at ht ⊢
    obtain ⟨hattempt, hloop, hendings⟩ := ht
    refine ⟨by rw [hendings, hattempt]; rfl, by rw [hloop]; exact Nat.zero_le _, ?_⟩
    intro outcomes _
    rw [hcall] at h
    rw [hattempt, hloop]
    cases attachKey with
    | false => rfl
    | true =>
      have hcheck : Cache.checkV3 url = .ok () := h
      rw [send, if_pos rfl, hcheck]
  | exhausted hpc h =>
    simp only [Follows, hpc] at ht ⊢
    obtain ⟨-, -, hcomes⟩ := ht
    intro outcomes hext
    rw [hcall] at h
    have hmax : client.maxAttempts ≤ t.attempt := h
    have hrounds := hcomes outcomes hext
    simp only at hrounds
    rw [hrounds, rounds, if_neg (Nat.not_lt.mpr hmax)]
  | first hpc h h₀ =>
    simp only [Follows, hpc] at ht ⊢
    obtain ⟨hlen, hthrottled, hcomes⟩ := ht
    rw [hcall] at h
    refine ⟨t.loop, ⟨hlen, h, hthrottled, hcomes⟩, ?_⟩
    rw [h₀]
    exact sleep_zero _
  | sleep hpc h h₀ hloop =>
    simp only [Follows, hpc] at ht ⊢
    obtain ⟨hlen, hthrottled, hcomes⟩ := ht
    rw [hcall] at h
    exact ⟨t.loop, ⟨hlen, h, hthrottled, hcomes⟩, hloop⟩
  | wake hpc =>
    simp only [Follows, hpc] at ht ⊢
    obtain ⟨s₀, hround, hs⟩ := ht
    exact ⟨s₀, ⟨hround.attempts, hround.within, hround.throttled, hround.comes⟩, hs⟩
  | malformed hpc h =>
    simp only [Follows, hpc] at ht ⊢
    obtain ⟨s₀, hround, hs⟩ := ht
    intro outcomes hext
    rw [hcall] at h
    exact (hround.comes outcomes hext).trans (rounds_malformed hround.within hs h)
  | wait hpc h =>
    simp only [Follows, hpc] at ht ⊢
    obtain ⟨s₀, hround, hs⟩ := ht
    exact ⟨h, s₀, ⟨hround.attempts, hround.within, hround.throttled, hround.comes⟩, hs⟩
  | acquire hpc h =>
    simp only [Follows, hpc] at ht ⊢
    obtain ⟨hwell, s₀, hround, hs⟩ := ht
    exact ⟨hwell, s₀, ⟨hround.attempts, hround.within, hround.throttled, hround.comes⟩, hs⟩
  | waited nanos hpc =>
    simp only [Follows, hpc] at ht ⊢
    obtain ⟨hwell, s₀, hround, hs⟩ := ht
    exact ⟨hwell, s₀, ⟨hround.attempts, hround.within, hround.throttled, hround.comes⟩, hs⟩
  | enter hpc =>
    simp only [Follows, hpc] at ht ⊢
    obtain ⟨hwell, s₀, hround, hs⟩ := ht
    exact ⟨hwell, s₀, ⟨hround.attempts, hround.within, hround.throttled, hround.comes⟩, hs⟩
  | send hpc =>
    simp only [Follows, hpc] at ht ⊢
    obtain ⟨hwell, s₀, hround, hs⟩ := ht
    refine ⟨hwell, s₀, t.loop,
      ⟨hround.attempts, hround.within, hround.throttled, hround.comes⟩, hs, ?_⟩
    rw [hcall]
    rfl
  | timeout hpc =>
    simp only [Follows, hpc] at ht ⊢
    obtain ⟨hwell, s₀, s₁, hround, hs, hloop⟩ := ht
    exact ⟨hwell, s₀, s₁, ⟨hround.attempts, hround.within, hround.throttled, hround.comes⟩, hs,
      hloop⟩
  | answer transport hpc =>
    simp only [Follows, hpc] at ht ⊢
    obtain ⟨hwell, s₀, s₁, hround, hs, hloop⟩ := ht
    exact ⟨hwell, s₀, s₁, ⟨hround.attempts, hround.within, hround.throttled, hround.comes⟩, hs,
      hloop⟩
  | @record ending loop after nanos hpc h =>
    simp only [Follows, hpc] at ht
    obtain ⟨hwell, s₀, s₁, hround, hs, hloop⟩ := ht
    have hends : Comes client lib url body attachKey (t.endings ++ [ending])
        (comesTo client lib (request client url body attachKey) t.attempt loop after) := by
      intro outcomes hext
      obtain ⟨hprior, ho⟩ := extends_concat hext
      rw [hround.attempts] at ho
      exact (hround.comes outcomes hprior).trans
        (rounds_conclude hcall hround.within hs hloop hwell ho h).1
    cases after with
    | again =>
      have hthrottled : loop.throttled ≤ t.loop.throttled + 1 := by
        obtain ⟨b, hb⟩ : ∃ b, ending.outcome = some b := by
          cases hout : ending.outcome with
          | none => simp [Task.conclude, hout] at h
          | some b => exact ⟨b, rfl⟩
        have hstep := @rounds_conclude client lib _ _ _ _ t ending loop .again (fun _ => b) _ _
          hcall hround.within hs hloop hwell hb h
        exact hstep.2 rfl
      rw [hloop, start_throttled, sleep_throttled hs] at hthrottled
      refine ⟨?_, Nat.le_trans hthrottled (Nat.succ_le_succ hround.throttled), hends⟩
      simp [hround.attempts]
    | finish result => exact hends
    | stop => trivial
  | @release after hpc =>
    cases after with
    | again =>
      simp only [Follows, hpc] at ht ⊢
      exact ht
    | finish result =>
      simp only [Follows, hpc] at ht ⊢
      exact ht
    | stop => trivial
  | @leave after hpc =>
    cases after with
    | again =>
      simp only [Follows, hpc] at ht
      exact ht
    | finish result =>
      simp only [Follows, hpc] at ht
      exact ht
    | stop => trivial

theorem follows_cancel (h : Cancel s t s' t')
    (ht : Follows client lib url body attachKey t) : Follows client lib url body attachKey t' := by
  cases h with
  | sending hpc =>
    simp only [Follows, hpc] at ht ⊢
    obtain ⟨hwell, s₀, s₁, hround, hs, hloop⟩ := ht
    exact ⟨hwell, s₀, s₁, ⟨hround.attempts, hround.within, hround.throttled, hround.comes⟩, hs,
      hloop⟩
  | _ => trivial

theorem call_step (h : Act client lib s t s' t' ∨ Cancel s t s' t') : t'.call = t.call := by
  rcases h with h | h
  · cases h with
    | @leave after hpc =>
      cases after
      all_goals rfl
    | _ => rfl
  · cases h
    all_goals rfl

variable (lib) in
/-- A call without the loop makes at most one attempt. -/
def FollowsOnce (t : Task) : Prop :=
  match t.pc with
  | .called | .head | .building => t.attempt = 0 ∧ t.endings = [] ∧ t.loop = Retry.start
  | .waiting | .acquired | .admitted | .entered | .sending | .ended _ =>
      t.endings = [] ∧ t.loop = Retry.start ∧ t.call.wellFormed lib = true
  | .recorded (.finish result) | .released (.finish result) =>
      t.loop = Retry.start ∧ t.call.wellFormed lib = true ∧
        ∀ outcomes, Extends t.endings outcomes → result = outcomes 0
  | .finished result =>
      t.loop = Retry.start ∧ ∀ outcomes, Extends t.endings outcomes →
        result = if t.call.wellFormed lib then outcomes 0 else .error internalError
  | .recorded .stop | .released .stop | .cancelled => True
  | .sleeping | .recorded .again | .released .again => False

def Call.repeats : Call → Bool
  | .send _ _ _ _ => true
  | _ => false

theorem once_check {call : Call} (h : call.repeats = false) : call.check = .ok () := by
  cases call with
  | send url body attachKey upstream => cases h
  | _ => rfl

theorem once_max {call : Call} (h : call.repeats = false) : call.maxAttempts client = 1 := by
  cases call with
  | send url body attachKey upstream => cases h
  | _ => rfl

theorem once_start {call : Call} (h : call.repeats = false) (loop : Loop) :
    call.start client loop = loop := by
  cases call with
  | send url body attachKey upstream => cases h
  | _ => rfl

theorem once_receive {call : Call} (h : call.repeats = false) (n : Nat) (outcome : Outcome)
    (loop : Loop) : call.receive client n outcome loop = some (.finish outcome loop) := by
  cases call with
  | send url body attachKey upstream => cases h
  | _ => rfl

theorem followsOnce_act (honce : t.call.repeats = false) (h : Act client lib s t s' t')
    (ht : FollowsOnce lib t) : FollowsOnce lib t' := by
  cases h with
  | refuse hpc h =>
    rw [once_check honce] at h
    cases h
  | begin hpc h =>
    simp only [FollowsOnce, hpc] at ht ⊢
    exact ht
  | exhausted hpc h =>
    simp only [FollowsOnce, hpc] at ht
    rw [once_max honce, ht.1] at h
    exact absurd h (by decide)
  | first hpc h h₀ =>
    simp only [FollowsOnce, hpc] at ht ⊢
    exact ht
  | sleep hpc h h₀ hloop =>
    simp only [FollowsOnce, hpc] at ht
    omega
  | wake hpc => simp only [FollowsOnce, hpc] at ht
  | malformed hpc h =>
    simp only [FollowsOnce, hpc] at ht ⊢
    refine ⟨ht.2.2, fun outcomes _ => ?_⟩
    simp [h]
  | wait hpc h =>
    simp only [FollowsOnce, hpc] at ht ⊢
    exact ⟨ht.2.1, ht.2.2, h⟩
  | send hpc =>
    simp only [FollowsOnce, hpc, once_start honce] at ht ⊢
    exact ht
  | @record ending loop after nanos hpc h =>
    simp only [FollowsOnce, hpc] at ht
    obtain ⟨hendings, hloop, hwell⟩ := ht
    unfold Task.conclude at h
    cases hout : ending.outcome with
    | none =>
      simp only [hout, Option.some.injEq, Prod.mk.injEq] at h
      obtain ⟨-, rfl⟩ := h
      trivial
    | some outcome =>
      simp only [hout, once_receive honce, Option.some.injEq, Prod.mk.injEq] at h
      obtain ⟨rfl, rfl⟩ := h
      refine ⟨hloop, hwell, fun outcomes hext => ?_⟩
      have hlast := (extends_concat hext).2
      rw [hendings, hout] at hlast
      exact Option.some.inj hlast
  | @release after hpc =>
    cases after with
    | again => simp only [FollowsOnce, hpc] at ht
    | finish result =>
      simp only [FollowsOnce, hpc] at ht ⊢
      exact ht
    | stop => trivial
  | @leave after hpc =>
    simp only [FollowsOnce, hpc] at ht
    cases after with
    | again => exact ht.elim
    | finish result =>
      refine ⟨ht.1, fun outcomes hext => ?_⟩
      rw [ht.2.2 outcomes hext]
      exact (if_pos ht.2.1).symm
    | stop => trivial
  | _ =>
    simp only [FollowsOnce, *] at ht ⊢
    exact ht

theorem followsOnce_cancel (h : Cancel s t s' t') (ht : FollowsOnce lib t) :
    FollowsOnce lib t' := by
  cases h with
  | sending hpc =>
    simp only [FollowsOnce, hpc] at ht ⊢
    exact ht
  | _ => trivial

/-- A call that goes on has an outcome of each of its attempts. -/
def Answered (t : Task) : Prop :=
  match t.pc with
  | .recorded .stop | .released .stop | .cancelled => True
  | _ => ∀ ending ∈ t.endings, ending.outcome.isSome = true

theorem answered_act (h : Act client lib s t s' t') (ht : Answered t) : Answered t' := by
  cases h with
  | @record ending loop after nanos hpc h =>
    simp only [Answered, hpc] at ht
    unfold Task.conclude at h
    cases hout : ending.outcome with
    | none =>
      simp only [hout, Option.some.injEq, Prod.mk.injEq] at h
      obtain ⟨-, rfl⟩ := h
      trivial
    | some outcome =>
      have hall : ∀ e ∈ t.endings ++ [ending], e.outcome.isSome = true := by
        intro e he
        rcases List.mem_append.mp he with he | he
        · exact ht e he
        · rw [List.mem_singleton.mp he, hout]
          rfl
      cases after with
      | stop => trivial
      | _ => exact hall
  | @release after hpc =>
    cases after with
    | stop => trivial
    | _ =>
      simp only [Answered, hpc] at ht ⊢
      exact ht
  | @leave after hpc =>
    cases after with
    | stop => trivial
    | _ =>
      simp only [Answered, hpc] at ht
      exact ht
  | _ =>
    simp only [Answered, *] at ht ⊢
    exact ht

theorem answered_cancel (h : Cancel s t s' t') (ht : Answered t) : Answered t' := by
  cases h with
  | sending hpc =>
    simp only [Answered, hpc] at ht ⊢
    exact ht
  | _ => trivial

/-- The outcomes of the attempts, continued in any way. -/
def outcomesOf (endings : List Ending) (i : Nat) : Outcome :=
  (endings[i]?.bind Ending.outcome).getD (.error pcsAccessFailure)

theorem extends_outcomesOf {endings : List Ending}
    (h : ∀ ending ∈ endings, ending.outcome.isSome = true) : Extends endings (outcomesOf endings) := by
  intro i ending he
  have hsome := h ending (List.mem_of_getElem? he)
  simp only [outcomesOf, he, Option.bind_some]
  cases hout : ending.outcome with
  | none =>
    rw [hout] at hsome
    cases hsome
  | some outcome => rfl

variable (client lib) in
/-- What one call knows of itself. -/
structure Sound (t : Task) : Prop where
  answered : Answered t
  follows : ∀ url body attachKey upstream, t.call = .send url body attachKey upstream →
    Follows client lib url body attachKey t
  once : t.call.repeats = false → FollowsOnce lib t

theorem sound_new (call : Call) : Sound client lib (Task.new call) where
  answered := by
    intro ending he
    cases he
  follows _ _ _ _ _ := ⟨rfl, rfl, rfl⟩
  once _ := ⟨rfl, rfl, rfl⟩

theorem sound_step (h : Act client lib s t s' t' ∨ Cancel s t s' t') (ht : Sound client lib t) :
    Sound client lib t' := by
  have hcall := call_step h
  rcases h with h | h
  · exact {
      answered := answered_act h ht.answered
      follows := fun url body attachKey upstream hsend => by
        rw [hcall] at hsend
        exact follows_act hsend h (ht.follows _ _ _ _ hsend)
      once := fun honce => by
        rw [hcall] at honce
        exact followsOnce_act honce h (ht.once honce) }
  · exact {
      answered := answered_cancel h ht.answered
      follows := fun url body attachKey upstream hsend => by
        rw [hcall] at hsend
        exact follows_cancel h (ht.follows _ _ _ _ hsend)
      once := fun honce => by
        rw [hcall] at honce
        exact followsOnce_cancel h (ht.once honce) }

variable {maxConcurrent : Nat} {processStart : Counter} {c : Crowd Shared Task}

theorem calls_sound (h : Reachable (Opens (Shared.new maxConcurrent processStart))
    (Moves client lib) c) : ∀ t ∈ c.tasks, Sound client lib t :=
  each_task (by rintro t ⟨call, rfl⟩; exact sound_new call) (fun _ _ _ _ => sound_step) h

variable (client lib) in
/-- The call without any others. -/
def Call.alone (call : Call) (outcomes : Nat → Outcome) : Option Run :=
  match call with
  | .send url body attachKey _ => Retry.send client lib url body attachKey outcomes
  | once => some (Retry.start.finish
      (if once.wellFormed lib then outcomes 0 else .error internalError))

/-- A call that finishes among others finishes as it would alone. -/
theorem calls_agree (h : Reachable (Opens (Shared.new maxConcurrent processStart))
    (Moves client lib) c) (ht : t ∈ c.tasks) {result : Outcome} (hpc : t.pc = .finished result) :
    (∃ outcomes, Extends t.endings outcomes) ∧ ∀ outcomes, Extends t.endings outcomes →
      t.call.alone client lib outcomes = some (t.loop.finish result) := by
  have hsound := calls_sound h t ht
  constructor
  · have hanswered := hsound.answered
    simp only [Answered, hpc] at hanswered
    exact ⟨outcomesOf t.endings, extends_outcomesOf hanswered⟩
  · intro outcomes hext
    cases hcall : t.call with
    | send url body attachKey upstream =>
      have hfollows := hsound.follows _ _ _ _ hcall
      simp only [Follows, hpc] at hfollows
      exact hfollows outcomes hext
    | _ =>
      have honce := hsound.once (by rw [hcall]; rfl)
      simp only [FollowsOnce, hpc] at honce
      rw [hcall] at honce
      rw [honce.1, honce.2 outcomes hext]
      rfl

def twoAttempts : PcsClient := ⟨2, "", by decide⟩

/-- An answer that asks for a wait of seven seconds. -/
def tooMany : Outcome := .ok ⟨429, [("Retry-After", [55])], []⟩

/-- The first attempt is throttled, and the call sleeps for as long as it was told. -/
theorem throttled_sleeps : ∃ s loop, Reachable (Opens (Shared.new 0 0)) (Moves twoAttempts anyUrl)
    ⟨s, [{ fetchCrl with
      attempt := 1, loop := loop, endings := [.attempted tooMany], waits := 1, begun := 1
      pc := .sleeping }]⟩ ∧ s.available = 1 ∧ loop.waits = [7000] := by
  have h := @reachable_start _ (Opens (Shared.new 0 0)) (Moves twoAttempts anyUrl) _ rfl
  have h := reachable_step h (.arrive _ _ (t := fetchCrl) ⟨_, rfl⟩)
  have h := reachable_step h (.act [] [] (.inl (.begin rfl (by decide))))
  have h := reachable_step h (.act [] [] (.inl (.first rfl (by decide) rfl)))
  have h := reachable_step h (.act [] [] (.inl (.wait rfl rfl)))
  have h := reachable_step h (.act [] [] (.inl (.acquire rfl (by decide))))
  have h := reachable_step h (.act [] [] (.inl (.waited 3 rfl)))
  have h := reachable_step h (.act [] [] (.inl (.enter rfl)))
  have h := reachable_step h (.act [] [] (.inl (.send rfl)))
  have h := reachable_step h (.act [] [] (.inl (.answer
    (.head 429 [("Retry-After", [55])] (some [])) rfl)))
  have h := reachable_step h (.act [] [] (.inl (.record 9 rfl rfl)))
  have h := reachable_step h (.act [] [] (.inl (.release rfl)))
  have h := reachable_step h (.act [] [] (.inl (.leave rfl)))
  have h := reachable_step h (.act [] [] (.inl (.sleep rfl (by decide) (by decide) rfl)))
  exact ⟨_, _, h, rfl, by decide +kernel⟩

/-- Another call has the permit while it sleeps, and is dropped; the second attempt
is answered. -/
theorem retried_served : ∃ s loop, Reachable (Opens (Shared.new 0 0)) (Moves twoAttempts anyUrl)
    ⟨s, [{ attest with endings := [.dropped], waits := 1, begun := 1, pc := .cancelled },
      { fetchCrl with
        attempt := 1, loop := loop, endings := [.attempted tooMany, .attempted crl]
        waits := 2, begun := 2, pc := .finished crl }]⟩ ∧ loop.waits = [7000] := by
  obtain ⟨s, loop, h, hfree, hwaits⟩ := throttled_sleeps
  have h := reachable_step h (.arrive _ _ (t := attest) ⟨_, rfl⟩)
  have h := reachable_step h (.act [] [_] (.inl (.begin rfl rfl)))
  have h := reachable_step h (.act [] [_] (.inl (.first rfl (by decide) rfl)))
  have h := reachable_step h (.act [] [_] (.inl (.wait rfl rfl)))
  have h := reachable_step h (.act [] [_] (.inl (.acquire rfl (hfree ▸ Nat.one_pos))))
  have h := reachable_step h (.act [_] [] (.inl (.wake rfl)))
  have h := reachable_step h (.act [_] [] (.inl (.wait rfl rfl)))
  have h := reachable_step h (.act [] [_] (.inl (.waited 3 rfl)))
  have h := reachable_step h (.act [] [_] (.inl (.enter rfl)))
  have h := reachable_step h (.act [] [_] (.inl (.send rfl)))
  have h := reachable_step h (.act [] [_] (.inr (.sending rfl)))
  have h := reachable_step h (.act [] [_] (.inl (.record 9 rfl rfl)))
  have h := reachable_step h (.act [] [_] (.inl (.release rfl)))
  have h := reachable_step h (.act [] [_] (.inl (.leave rfl)))
  have h := reachable_step h (.act [_] [] (.inl (.acquire rfl (Nat.succ_pos _))))
  have h := reachable_step h (.act [_] [] (.inl (.waited 3 rfl)))
  have h := reachable_step h (.act [_] [] (.inl (.enter rfl)))
  have h := reachable_step h (.act [_] [] (.inl (.send rfl)))
  have h := reachable_step h (.act [_] [] (.inl (.answer (.head 200 [] (some [123, 125])) rfl)))
  have h := reachable_step h (.act [_] [] (.inl (.record 9 rfl rfl)))
  have h := reachable_step h (.act [_] [] (.inl (.release rfl)))
  have h := reachable_step h (.act [_] [] (.inl (.leave rfl)))
  exact ⟨_, _, h, hwaits⟩

theorem calls_agree_retried :
    ∃ run, Retry.send twoAttempts anyUrl "https://h/crl" none true
      (fun n => if n = 0 then tooMany else crl) = some run ∧ run.result = crl ∧
        run.waits = [7000] := by
  obtain ⟨s, loop, h, hwaits⟩ := retried_served
  have hagree := calls_agree h (.tail _ (.head _)) rfl
  refine ⟨_, hagree.2 (fun n => if n = 0 then tooMany else crl) ?_, rfl, hwaits⟩
  intro i ending he
  match i with
  | 0 =>
    obtain rfl := Option.some.inj he
    rfl
  | 1 =>
    obtain rfl := Option.some.inj he
    rfl
  | i + 2 => cases he

end Agreement

section End

variable {s s' : Shared} {t t' : Task}

variable (client) in
/-- How many steps a call has left at most. -/
def Task.left (t : Task) : Nat :=
  let rounds := t.call.maxAttempts client - t.attempt
  match t.pc with
  | .called => 16 * rounds + 2
  | .head => 16 * rounds + 1
  | .sleeping => 16 * (rounds - 1) + 12
  | .building => 16 * (rounds - 1) + 11
  | .waiting => 16 * (rounds - 1) + 10
  | .acquired => 16 * (rounds - 1) + 9
  | .admitted => 16 * (rounds - 1) + 8
  | .entered => 16 * (rounds - 1) + 7
  | .sending => 16 * (rounds - 1) + 6
  | .ended _ => 16 * (rounds - 1) + 5
  | .recorded _ => 16 * (rounds - 1) + 4
  | .released _ => 16 * (rounds - 1) + 3
  | .finished _ | .cancelled => 0

theorem left_step (h : Act client lib s t s' t' ∨ Cancel s t s' t') :
    t'.left client < t.left client := by
  rcases h with h | h
  · cases h with
    | @leave after hpc =>
      cases after with
      | again =>
        simp only [Task.leave, Task.left, hpc]
        omega
      | _ =>
        simp only [Task.leave, Task.left, hpc]
        omega
    | _ =>
      simp only [Task.left, *]
      omega
  · cases h
    all_goals
      simp only [Task.left, *]
      omega

/-- The counters of the loop stay in their types. -/
theorem receive_isSome {loop : Loop} {n : Nat} (hthrottled : loop.throttled ≤ n)
    (hn : n < client.maxAttempts) (outcome : Outcome) :
    (loop.receive client n outcome).isSome = true := by
  have hfits := client.fits
  cases outcome with
  | error e => rfl
  | ok r =>
    simp only [Loop.receive]
    split
    · rw [Loop.throttle, addU32_eq (show loop.throttled + 1 < 2 ^ 32 by omega),
        addU32_eq (show n + 1 < 2 ^ 32 by omega)]
      simp only [Option.bind_eq_bind, Option.bind_some]
      split
      · split
        all_goals rfl
      · rfl
    · rfl

theorem conclude_some (hsound : Sound client lib t) {ending : Ending} (hpc : t.pc = .ended ending) :
    ∃ loop after, t.conclude client ending = some (loop, after) := by
  unfold Task.conclude
  cases hout : ending.outcome with
  | none => exact ⟨_, _, rfl⟩
  | some outcome =>
    have hreceive : (t.call.receive client t.attempt outcome t.loop).isSome = true := by
      cases hcall : t.call with
      | send url body attachKey upstream =>
        have hfollows := hsound.follows _ _ _ _ hcall
        simp only [Follows, hpc] at hfollows
        obtain ⟨-, s₀, s₁, hround, hs, hloop⟩ := hfollows
        have hthrottled : t.loop.throttled ≤ t.attempt := by
          rw [hloop, start_throttled, sleep_throttled hs]
          exact hround.throttled
        exact receive_isSome hthrottled hround.within outcome
      | _ => rfl
    obtain ⟨next, hnext⟩ := Option.isSome_iff_exists.mp hreceive
    simp only [hnext]
    cases next with
    | again loop => exact ⟨_, _, rfl⟩
    | finish result loop => exact ⟨_, _, rfl⟩

/-- Only a permit keeps a call from its next step. -/
theorem act_possible (hsound : Sound client lib t) (hover : t.isOver = false)
    (hfree : t.pc = .waiting → 0 < s.available) : ∃ s' t', Act client lib s t s' t' := by
  cases hpc : t.pc with
  | called =>
    cases hcheck : t.call.check with
    | error e => exact ⟨_, _, .refuse hpc hcheck⟩
    | ok _ => exact ⟨_, _, .begin hpc hcheck⟩
  | head =>
    by_cases hmax : t.call.maxAttempts client ≤ t.attempt
    · exact ⟨_, _, .exhausted hpc hmax⟩
    · by_cases h₀ : t.attempt = 0
      · exact ⟨_, _, .first hpc (by omega) h₀⟩
      · have hsleep : ∃ loop, t.loop.sleep t.attempt = some loop := by
          rw [Loop.sleep, if_pos (by omega), shlU64_backoff]
          exact ⟨_, rfl⟩
        obtain ⟨loop, hloop⟩ := hsleep
        exact ⟨_, _, .sleep hpc (by omega) (by omega) hloop⟩
  | sleeping => exact ⟨_, _, .wake hpc⟩
  | building =>
    cases hwell : t.call.wellFormed lib with
    | false => exact ⟨_, _, .malformed hpc hwell⟩
    | true => exact ⟨_, _, .wait hpc hwell⟩
  | waiting => exact ⟨_, _, .acquire hpc (hfree hpc)⟩
  | acquired => exact ⟨_, _, .waited 0 hpc⟩
  | admitted => exact ⟨_, _, .enter hpc⟩
  | entered => exact ⟨_, _, .send hpc⟩
  | sending => exact ⟨_, _, .timeout hpc⟩
  | ended ending =>
    obtain ⟨loop, after, hconclude⟩ := conclude_some hsound hpc
    exact ⟨_, _, .record 0 hpc hconclude⟩
  | recorded after => exact ⟨_, _, .release hpc⟩
  | released after => exact ⟨_, _, .leave hpc⟩
  | finished result => simp [Task.isOver, hpc] at hover
  | cancelled => simp [Task.isOver, hpc] at hover

variable {maxConcurrent : Nat} {processStart : Counter} {c : Crowd Shared Task}

theorem crowd_acts (hact : ∃ t ∈ c.tasks, ∃ s' t', Act client lib c.shared t s' t') :
    ∃ c', Move (fun _ => False) (Act client lib) c c' := by
  obtain ⟨s, ts⟩ := c
  obtain ⟨t, ht, s', t', hact⟩ := hact
  obtain ⟨before, after, rfl⟩ := List.append_of_mem ht
  exact ⟨_, .act before after hact⟩

/-- While a permit is missing, its holder can go on. -/
theorem crowd_progress (h : Reachable (Opens (Shared.new maxConcurrent processStart))
    (Moves client lib) c) (hover : ∃ t ∈ c.tasks, ¬ t.isOver = true) :
    ∃ c', Move (fun _ => False) (Act client lib) c c' := by
  obtain ⟨t, ht, hover⟩ := hover
  have hsound := calls_sound h
  by_cases hfree : t.pc = .waiting → 0 < c.shared.available
  · exact crowd_acts ⟨t, ht, act_possible (hsound t ht) (by simpa using hover) hfree⟩
  · have hpermits : c.shared.available + c.weight Task.permits = max maxConcurrent 1 :=
      conserved (f := Shared.available) (fun t ht => (new_idle ht).1)
        (fun _ _ _ _ ht => permits_step ht) h
    have hholder : ∃ holder ∈ c.tasks, holder.permits ≠ 0 := by
      by_contra hnone
      push Not at hnone
      rw [weight_zero hnone] at hpermits
      omega
    obtain ⟨holder, hmem, hholds⟩ := hholder
    have hwaits : holder.pc ≠ .waiting := by
      intro hpc
      simp [Task.permits, hpc] at hholds
    have hactive : holder.isOver = false := by
      by_contra hisOver
      exact hholds (over_free (by simpa using hisOver)).1
    exact crowd_acts ⟨holder, hmem, act_possible (hsound holder hmem) hactive
      fun hpc => absurd hpc hwaits⟩

theorem act_reachable (c c' : Crowd Shared Task)
    (hc : Reachable (Opens (Shared.new maxConcurrent processStart)) (Moves client lib) c)
    (hmove : Move (fun _ => False) (Act client lib) c c') :
    Reachable (Opens (Shared.new maxConcurrent processStart)) (Moves client lib) c' := by
  refine reachable_step hc ?_
  cases hmove with
  | arrive s ts ht => exact ht.elim
  | act before after ht => exact .act before after (.inl ht)

theorem left_le (t : Task) : t.left client ≤ 16 * max client.maxAttempts 1 + 2 := by
  have hmax : t.call.maxAttempts client ≤ max client.maxAttempts 1 := by
    cases t.call with
    | send url body attachKey upstream => exact Nat.le_max_left _ _
    | _ => exact Nat.le_max_right _ _
  simp only [Task.left]
  split
  all_goals omega

/-- No call waits forever for the others: without new calls every run ends soon, and the
calls can all end without one of them being dropped. -/
theorem calls_end (h : Reachable (Opens (Shared.new maxConcurrent processStart))
    (Moves client lib) c) :
    (∀ n c', Steps (Move (fun _ => False)
        fun s t s' t' => Act client lib s t s' t' ∨ Cancel s t s' t') n c c' →
      n ≤ c.tasks.length * (16 * max client.maxAttempts 1 + 2)) ∧
    ∃ c', Relation.ReflTransGen (Move (fun _ => False) (Act client lib)) c c' ∧
      (∀ t ∈ c'.tasks, t.isOver = true) ∧ c'.shared.available = max maxConcurrent 1 := by
  constructor
  · intro n c' hsteps
    have hstep : ∀ s t s' t', Act client lib s t s' t' ∨ Cancel s t s' t' →
        t'.left client < t.left client := fun _ _ _ _ => left_step
    have hless := steps_le hstep hsteps
    have := @weight_le_mul _ _ c (Task.left client) _ left_le
    omega
  · have hless : ∀ s t s' t', Act client lib s t s' t' → t'.left client < t.left client :=
      fun _ _ _ _ ht => left_step (.inl ht)
    obtain ⟨c', hrun, hreach, hall⟩ := all_end act_reachable hless
      (fun _ hc hover => crowd_progress hc hover) h
    have hpermits : c'.shared.available + c'.weight Task.permits = max maxConcurrent 1 :=
      conserved (f := Shared.available) (fun t ht => (new_idle ht).1)
        (fun _ _ _ _ ht => permits_step ht) hreach
    rw [weight_zero fun t ht => (over_free (hall t ht)).1, add_zero] at hpermits
    exact ⟨c', hrun, hall, hpermits⟩

theorem calls_end_two : ∃ c : Crowd Shared Task, c.tasks.length = 2 ∧ c.shared.available = 0 ∧
    ∃ c', Relation.ReflTransGen (Move (fun _ => False) (Act oneAttempt anyUrl)) c c' ∧
      (∀ t ∈ c'.tasks, t.isOver = true) ∧ c'.shared.available = 1 :=
  ⟨_, rfl, rfl, (calls_end one_waits).2⟩

end End

end Pccs.Permits
