import Mathlib.Logic.Relation

/-!
# Runs of a transition system

A state is reachable if some run leads to it from a start. What holds at the
starts and is kept by every step holds at every reachable state.
-/
namespace Pccs.Runs

variable {σ : Type} {start : σ → Prop} {step : σ → σ → Prop}

def Reachable (start : σ → Prop) (step : σ → σ → Prop) (s : σ) : Prop :=
  ∃ s₀, start s₀ ∧ Relation.ReflTransGen step s₀ s

theorem reachable_start {s : σ} (h : start s) : Reachable start step s :=
  ⟨s, h, .refl⟩

theorem reachable_step {s s' : σ} (h : Reachable start step s) (hs : step s s') :
    Reachable start step s' := by
  obtain ⟨s₀, h₀, hrun⟩ := h
  exact ⟨s₀, h₀, hrun.tail hs⟩

theorem invariant {P : σ → Prop} (h₀ : ∀ s, start s → P s)
    (hstep : ∀ s s', P s → step s s' → P s') {s : σ} (h : Reachable start step s) : P s := by
  obtain ⟨s₀, hs₀, hrun⟩ := h
  induction hrun with
  | refl => exact h₀ s₀ hs₀
  | tail _ hs ih => exact hstep _ _ ih hs

/-- A run of so many steps. -/
inductive Steps (step : σ → σ → Prop) : Nat → σ → σ → Prop
  | refl (s : σ) : Steps step 0 s s
  | tail {n : Nat} {s t u : σ} (h : Steps step n s t) (ht : step t u) : Steps step (n + 1) s u

/-- What every step of a run keeps and what every step uses up. -/
theorem steps_bounded {P : σ → Prop} {left : σ → Nat}
    (hstep : ∀ s t, P s → step s t → P t ∧ left t < left s) {n : Nat} {s t : σ}
    (h : Steps step n s t) (hs : P s) : P t ∧ n + left t ≤ left s := by
  induction h with
  | refl s => exact ⟨hs, by omega⟩
  | tail _ ht ih =>
    obtain ⟨hP, hle⟩ := ih hs
    obtain ⟨hP', hlt⟩ := hstep _ _ hP ht
    exact ⟨hP', by omega⟩

theorem steps_invariant {P : σ → Prop} (hstep : ∀ s t, P s → step s t → P t) {n : Nat} {s t : σ}
    (h : Steps step n s t) (hs : P s) : P t := by
  induction h with
  | refl s => exact hs
  | tail _ ht ih => exact hstep _ _ (ih hs) ht

/-- What is to show of a list after a step of one of its elements. -/
theorem forall_mem_middle {α : Type} {P : α → Prop} {before after : List α} {a : α} :
    (∀ b ∈ before ++ a :: after, P b) ↔ P a ∧ ∀ b ∈ before ++ after, P b := by
  simp only [List.forall_mem_append, List.forall_mem_cons]
  exact and_left_comm

end Pccs.Runs
