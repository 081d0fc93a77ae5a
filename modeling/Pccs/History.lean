import Pccs.Process

/-!
# Systems that keep their history

The same processes over another state: `System.over` replaces what operations
do, and runs are carried along a map of the states. A recorded system keeps
every operation it has performed; a crash ends all processes and what the state
does not outlive. A run of a recorded system is a run in which only the recorded
operations occur, so what holds whenever all exchanges are of some kind holds of
the exchanges that took place.
-/
namespace Pccs.Process

open Runs

variable {Op : Type} {Res : Op → Type} {σ τ ρ : Type}

/-- The same requests over another state. -/
@[reducible] def System.over (S : System Op Res σ ρ)
    (perform : τ → (o : Op) → Res o → τ → Prop) : System Op Res τ ρ :=
  ⟨perform, S.accepts, S.Reply, S.body, S.forks⟩

variable {S : System Op Res σ ρ}

/-- One step, or a crash after which only a part of the state is left. -/
inductive Life (outlives : σ → σ) : Config S → Config S → Prop
  | step {c c' : Config S} (h : Step c c') : Life outlives c c'
  | crash (c : Config S) : Life outlives c ⟨outlives c.state, []⟩

section Maps

variable {p : τ → (o : Op) → Res o → τ → Prop} {q : σ → (o : Op) → Res o → σ → Prop}
  {f : τ → σ}

def Thread.moved (p : τ → (o : Op) → Res o → τ → Prop) (q : σ → (o : Op) → Res o → σ → Prop)
    (t : Thread (S.over p)) : Thread (S.over q) :=
  ⟨t.request, t.todo, t.past⟩

def Config.moved (p : τ → (o : Op) → Res o → τ → Prop) (q : σ → (o : Op) → Res o → σ → Prop)
    (f : τ → σ) (c : Config (S.over p)) : Config (S.over q) :=
  ⟨f c.state, c.threads.map (Thread.moved p q)⟩

/-- A step is carried along if its operation is. -/
theorem step_moved {c c' : Config (S.over p)} (h : Step c c')
    (hp : ∀ o r, p c.state o r c'.state → q (f c.state) o r (f c'.state)) :
    Step (c.moved p q f) (c'.moved p q f) := by
  cases h with
  | arrive s ts r hr => exact .arrive (f s) (ts.map (Thread.moved p q)) r hr
  | act s s' before after t o k r ht hs =>
    have hstep : Step (⟨f s, before.map (Thread.moved p q) ++
        Thread.moved p q t :: after.map (Thread.moved p q)⟩ : Config (S.over q)) _ :=
      .act (f s) (f s') _ _ (Thread.moved p q t) o k r ht (hp o r hs)
    have hchildren : (t.children o r).map (Thread.moved p q) = (Thread.moved p q t).children o r := by
      simp [Thread.children, Thread.moved]
    simp only [Config.moved, List.map_append, List.map_cons, hchildren]
    exact hstep
  | drop s before after t =>
    simp only [Config.moved, List.map_append, List.map_cons]
    exact .drop (f s) _ _ (Thread.moved p q t)

end Maps

section Recorded

/-- What an operation does, and that it is recorded, newest first. -/
def recording (S : System Op Res σ ρ) (s : σ × List (Event Op Res)) (o : Op) (r : Res o)
    (s' : σ × List (Event Op Res)) : Prop :=
  S.perform s.1 o r s'.1 ∧ s'.2 = ⟨o, r⟩ :: s.2

/-- What an operation does, if its result is admissible. -/
def restricted (S : System Op Res σ ρ) (A : Event Op Res → Prop) (s : σ) (o : Op) (r : Res o)
    (s' : σ) : Prop :=
  S.perform s o r s' ∧ A ⟨o, r⟩

@[reducible] def System.recorded (S : System Op Res σ ρ) :
    System Op Res (σ × List (Event Op Res)) ρ :=
  S.over (recording S)

@[reducible] def System.restrict (S : System Op Res σ ρ) (A : Event Op Res → Prop) :
    System Op Res σ ρ :=
  S.over (restricted S A)

/-- The history outlives every crash. -/
abbrev recordedOutlives (outlives : σ → σ) (s : σ × List (Event Op Res)) :
    σ × List (Event Op Res) :=
  (outlives s.1, s.2)

theorem life_history {outlives : σ → σ} {c c' : Config S.recorded}
    (h : Life (recordedOutlives outlives) c c') : c.state.2.Sublist c'.state.2 := by
  cases h with
  | step h =>
    cases h with
    | act s s' before after t o k r ht hs =>
      rw [hs.2]
      exact List.sublist_cons_self _ _
    | _ => exact .refl _
  | crash => exact .refl _

/-- The operations of a run are the recorded ones. -/
theorem restricted_of_recorded {outlives : σ → σ} {A : Event Op Res → Prop}
    {start : Config S.recorded → Prop} {start' : Config (S.restrict A) → Prop}
    (hstart : ∀ c, start c → start' (c.moved (recording S) (restricted S A) Prod.fst))
    {c : Config S.recorded} (h : Reachable start (Life (recordedOutlives outlives)) c)
    (hA : ∀ e ∈ c.state.2, A e) :
    Reachable start' (Life outlives) (c.moved (recording S) (restricted S A) Prod.fst) := by
  obtain ⟨c₀, h₀, hrun⟩ := h
  induction hrun with
  | refl => exact reachable_start (hstart c₀ h₀)
  | @tail c c' _ hlife ih =>
    have hbefore := ih fun e he => hA e ((life_history hlife).subset he)
    refine reachable_step hbefore ?_
    cases hlife with
    | step h =>
      refine .step (step_moved h fun o r hs => ⟨hs.1, hA _ ?_⟩)
      rw [hs.2]
      exact List.mem_cons_self
    | crash => exact .crash _

/-- A process alone, recorded. -/
theorem alone_recorded {α : Type} {s s' : σ} {p p' : Proc Op Res α}
    (h : Alone (fun s o r s' => S.forks o = [] ∧ S.perform s o r s') s p p' s')
    (history : List (Event Op Res)) : ∃ history', Alone
      (fun s o r s' => S.forks o = [] ∧ recording S s o r s') (s, history) p p' (s', history') := by
  induction h generalizing history with
  | here s p => exact ⟨history, .here _ _⟩
  | @step o k s s₁ s' r p hs _ ih =>
    obtain ⟨history', hrest⟩ := ih (⟨o, r⟩ :: history)
    exact ⟨history', .step ⟨hs.1, hs.2, rfl⟩ hrest⟩

end Recorded

section Safety

/-- Runs without crashes are runs. -/
theorem reachable_life {outlives : σ → σ} {start : Config S → Prop} {c : Config S}
    (h : Reachable start Step c) : Reachable start (Life outlives) c := by
  obtain ⟨c₀, h₀, hrun⟩ := h
  exact ⟨c₀, h₀, Relation.ReflTransGen.mono (fun _ _ hs => Life.step hs) _ _ hrun⟩

variable {I : σ → Prop} {G : ρ → List (Event Op Res) → σ → (o : Op) → Res o → σ → Prop}
  {Q : (q : ρ) → List (Event Op Res) → S.Reply q → Prop}

/-- An invariant that outlives the crashes holds in every run. -/
theorem sound_of_life {outlives : σ → σ} (hcrash : ∀ s, I s → I (outlives s))
    (hbody : ∀ q, S.accepts q → Safe (S.keeps I G q) (Q q) (S.body q) [])
    (hfork : ∀ q past s o r s', I s → S.perform s o r s' → G q past s o r s' →
      ∀ q' ∈ S.forks o, Safe (S.keeps I G q') (Q q') (S.body q') (⟨o, r⟩ :: past))
    {start : Config S → Prop} (hstart : ∀ c, start c → I c.state ∧ c.threads = [])
    {c : Config S} (h : Reachable start (Life outlives) c) : c.Sound I G Q := by
  refine invariant ?_ ?_ h
  · intro c hc
    obtain ⟨hI, hnone⟩ := hstart c hc
    exact ⟨hI, by simp [hnone]⟩
  · intro c c' hc hlife
    cases hlife with
    | step h => exact sound_step hbody hfork hc h
    | crash => exact ⟨hcrash _ hc.1, by simp⟩

end Safety

end Pccs.Process
