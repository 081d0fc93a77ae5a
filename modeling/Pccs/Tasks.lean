import Pccs.Runs
import Mathlib.Algebra.Order.BigOperators.Group.List
import Mathlib.Algebra.Order.Group.Nat
import Mathlib.Data.Nat.Cast.Basic
import Mathlib.Tactic.Abel

/-!
# Crowds of tasks

Any number of tasks over one shared state: new ones arrive, and one task at a
time takes a step. What every task keeps, all tasks keep. A shared quantity is
followed through the weights of the tasks: what they hold of a resource is
missing from it (`conserved`), what they did is in its counter (`tallied`), and
what they may still do bounds the steps they take (`steps_le`), and if one of
them can always act they all come to their end (`all_end`).
-/
namespace Pccs.Tasks

open Runs

variable {σ τ M : Type}

structure Crowd (σ τ : Type) where
  shared : σ
  tasks : List τ

/-- A task arrives, or one of the tasks acts. -/
inductive Move (arrives : τ → Prop) (act : σ → τ → σ → τ → Prop) : Crowd σ τ → Crowd σ τ → Prop
  | arrive (s : σ) (ts : List τ) {t : τ} (h : arrives t) : Move arrives act ⟨s, ts⟩ ⟨s, t :: ts⟩
  | act {s s' : σ} {t t' : τ} (before after : List τ) (h : act s t s' t') :
      Move arrives act ⟨s, before ++ t :: after⟩ ⟨s', before ++ t' :: after⟩

/-- Nobody is there yet. -/
def Opens (s₀ : σ) (c : Crowd σ τ) : Prop := c = ⟨s₀, []⟩

/-- What the tasks weigh together. -/
def Crowd.weight [AddCommMonoid M] (w : τ → M) (c : Crowd σ τ) : M := (c.tasks.map w).sum

variable {arrives : τ → Prop} {act : σ → τ → σ → τ → Prop} {s₀ : σ} {c : Crowd σ τ}

theorem weight_middle [AddCommMonoid M] (w : τ → M) (s : σ) (before after : List τ) (t : τ) :
    Crowd.weight w ⟨s, before ++ t :: after⟩ = w t + Crowd.weight w ⟨s, before ++ after⟩ := by
  simp only [Crowd.weight, List.map_append, List.map_cons, List.sum_append, List.sum_cons]
  exact add_left_comm _ _ _

theorem weight_cons [AddCommMonoid M] (w : τ → M) (s : σ) (t : τ) (ts : List τ) :
    Crowd.weight w ⟨s, t :: ts⟩ = w t + Crowd.weight w ⟨s, ts⟩ := rfl

theorem weight_shared [AddCommMonoid M] (w : τ → M) (s s' : σ) (ts : List τ) :
    Crowd.weight w ⟨s, ts⟩ = Crowd.weight w ⟨s', ts⟩ := rfl

theorem weight_congr [AddCommMonoid M] {v w : τ → M} (h : ∀ t ∈ c.tasks, v t = w t) :
    c.weight v = c.weight w := congrArg List.sum (List.map_congr_left h)

theorem weight_zero [AddCommMonoid M] {w : τ → M} (h : ∀ t ∈ c.tasks, w t = 0) :
    c.weight w = 0 := by
  have hmap : c.tasks.map w = c.tasks.map fun _ => 0 := List.map_congr_left h
  rw [Crowd.weight, hmap]
  simp

theorem weight_le {v w : τ → Nat} (h : ∀ t ∈ c.tasks, v t ≤ w t) : c.weight v ≤ c.weight w :=
  List.sum_le_sum h

theorem weight_le_mul {w : τ → Nat} {bound : Nat} (h : ∀ t, w t ≤ bound) :
    c.weight w ≤ c.tasks.length * bound := by
  have hsum := List.sum_le_card_nsmul (c.tasks.map w) bound fun n hn => by
    obtain ⟨t, -, rfl⟩ := List.mem_map.mp hn
    exact h t
  simpa [Crowd.weight] using hsum

/-- The weights of a counter that wraps around are those of one that does not. -/
theorem weight_cast [AddCommMonoidWithOne M] (w : τ → Nat) :
    c.weight (fun t => (w t : M)) = ((c.weight w : Nat) : M) := by
  obtain ⟨s, ts⟩ := c
  induction ts with
  | nil => simp [Crowd.weight]
  | cons t ts ih => rw [weight_cons, weight_cons, ih, Nat.cast_add]

section Runs

/-- What every task keeps, whatever the others do to the shared state. -/
theorem each_task {P : τ → Prop} (harrive : ∀ t, arrives t → P t)
    (hact : ∀ s t s' t', act s t s' t' → P t → P t')
    (h : Reachable (Opens s₀) (Move arrives act) c) : ∀ t ∈ c.tasks, P t := by
  refine invariant (P := fun c : Crowd σ τ => ∀ t ∈ c.tasks, P t) ?_ ?_ h
  · rintro c rfl t ht
    cases ht
  · intro c c' hc hmove
    cases hmove with
    | arrive s ts ht => exact List.forall_mem_cons.mpr ⟨harrive _ ht, hc⟩
    | act before after ht =>
      rw [forall_mem_middle] at hc ⊢
      exact ⟨hact _ _ _ _ ht hc.1, hc.2⟩

/-- What the shared state and the tasks have on one side is what the tasks have on the
other, if every step moves both alike. -/
theorem balanced [AddCancelCommMonoid M] {f : σ → M} {v w : τ → M}
    (harrive : ∀ t, arrives t → v t = w t)
    (hact : ∀ s t s' t', act s t s' t' → f s' + v t' + w t = f s + v t + w t')
    (h : Reachable (Opens s₀) (Move arrives act) c) :
    f c.shared + c.weight v = f s₀ + c.weight w := by
  refine invariant (P := fun c : Crowd σ τ => f c.shared + c.weight v = f s₀ + c.weight w) ?_ ?_ h
  · rintro c rfl
    rfl
  · intro c c' hc hmove
    cases hmove with
    | arrive s ts ht =>
      rw [weight_cons, weight_cons, harrive _ ht, add_left_comm, hc, add_left_comm]
    | @act s s' t t' before after ht =>
      have hstep := hact _ _ _ _ ht
      rw [weight_middle, weight_middle] at hc ⊢
      rw [weight_shared v s' s, weight_shared w s' s]
      generalize Crowd.weight v ⟨s, before ++ after⟩ = x at hc ⊢
      generalize Crowd.weight w ⟨s, before ++ after⟩ = y at hc ⊢
      refine add_right_cancel (b := w t) ?_
      calc f s' + (v t' + x) + w t = f s' + v t' + w t + x := by abel
        _ = f s + v t + w t' + x := by rw [hstep]
        _ = f s + (v t + x) + w t' := by abel
        _ = f s₀ + (w t + y) + w t' := congrArg (· + w t') hc
        _ = f s₀ + (w t' + y) + w t := by abel

/-- What is taken and given back. -/
theorem conserved [AddCancelCommMonoid M] {f : σ → M} {w : τ → M}
    (harrive : ∀ t, arrives t → w t = 0)
    (hact : ∀ s t s' t', act s t s' t' → f s' + w t' = f s + w t)
    (h : Reachable (Opens s₀) (Move arrives act) c) : f c.shared + c.weight w = f s₀ := by
  have hbalance := balanced (w := fun _ => 0) harrive
    (fun s t s' t' ht => by rw [add_zero, add_zero, hact s t s' t' ht]) h
  rwa [weight_zero fun _ _ => rfl, add_zero] at hbalance

/-- What is counted whenever it is done. -/
theorem tallied [AddCancelCommMonoid M] {f : σ → M} {w : τ → M}
    (harrive : ∀ t, arrives t → w t = 0)
    (hact : ∀ s t s' t', act s t s' t' → f s' + w t = f s + w t')
    (h : Reachable (Opens s₀) (Move arrives act) c) : f c.shared = f s₀ + c.weight w := by
  have hbalance := balanced (v := fun _ => 0) (fun t ht => (harrive t ht).symm)
    (fun s t s' t' ht => by rw [add_zero, add_zero, hact s t s' t' ht]) h
  rwa [weight_zero fun _ _ => rfl, add_zero] at hbalance

theorem tasks_mono {c' : Crowd σ τ} (h : Move arrives act c c') :
    c.tasks.length ≤ c'.tasks.length := by
  cases h with
  | arrive s ts ht => exact Nat.le_succ _
  | act before after ht => simp

/-- A run without arrivals is no longer than what the tasks have left to do. -/
theorem steps_le {left : τ → Nat} (hact : ∀ s t s' t', act s t s' t' → left t' < left t) {n : Nat}
    {c' : Crowd σ τ} (h : Steps (Move (fun _ => False) act) n c c') :
    n + c'.weight left ≤ c.weight left := by
  refine (@steps_bounded _ _ (fun _ => True) (Crowd.weight left) ?_ n c c' h trivial).2
  intro c c' _ hmove
  cases hmove with
  | arrive s ts ht => exact ht.elim
  | @act s s' t t' before after ht =>
    rw [weight_middle, weight_middle, weight_shared left s' s]
    exact ⟨trivial, Nat.add_lt_add_right (hact _ _ _ _ ht) _⟩

/-- If some task can always act while one of them is not done, all can come to their
end without any other arriving. -/
theorem all_end {P : Crowd σ τ → Prop} {finished : τ → Prop} {left : τ → Nat}
    (hkeep : ∀ c c', P c → Move (fun _ => False) act c c' → P c')
    (hact : ∀ s t s' t', act s t s' t' → left t' < left t)
    (hprogress : ∀ c, P c → (∃ t ∈ c.tasks, ¬ finished t) → ∃ c', Move (fun _ => False) act c c')
    (hc : P c) :
    ∃ c', Relation.ReflTransGen (Move (fun _ => False) act) c c' ∧ P c' ∧
      ∀ t ∈ c'.tasks, finished t := by
  induction hn : c.weight left using Nat.strongRecOn generalizing c with
  | ind n ih =>
    by_cases hover : ∀ t ∈ c.tasks, finished t
    · exact ⟨c, .refl, hc, hover⟩
    · push Not at hover
      obtain ⟨c₁, hmove⟩ := hprogress c hc hover
      have hless := steps_le hact (.tail (.refl c) hmove)
      obtain ⟨c', hrun, hc', hall⟩ := ih _ (by omega) (hkeep c c₁ hc hmove) rfl
      exact ⟨c', .head hmove hrun, hc', hall⟩

end Runs

end Pccs.Tasks
