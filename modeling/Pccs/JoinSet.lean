import Pccs.Runs
import Mathlib.Data.List.Basic

/-!
# A set of tasks that is refilled

A loop over a queue of jobs. It starts tasks while fewer than a limit are in the
set, waits for any one of them to end, takes it out, and goes round again; it is
over when the set is empty. In between the tasks move, in any order, over one
shared state.

Every job is started once and in order, whatever the tasks do. If moves use up
what a task has left, the loop is over after so many steps. And if the tasks of
some jobs only touch what the others do not see, then the others do what they
would have done in a loop without those jobs.
-/
namespace Pccs.JoinSet

open Runs

/-- The queued jobs, the tasks in the set and the jobs started so far. -/
structure Loop (α τ : Type) where
  pending : List α
  tasks : List τ
  started : List α

/-- How a task starts, what moves it makes and when it can be taken out. -/
structure Tasks (α σ τ : Type) where
  spawn : α → τ
  move : σ → τ → σ → τ → Prop
  ended : τ → Prop

section Refill

variable {α τ : Type} (limit : Nat) (spawn : α → τ)

/-- Start tasks while there is room in the set. -/
def refill : List α → List τ → List α → Loop α τ
  | [], tasks, started => ⟨[], tasks, started⟩
  | a :: rest, tasks, started =>
    if tasks.length < limit then refill rest (tasks ++ [spawn a]) (started ++ [a])
    else ⟨a :: rest, tasks, started⟩

def enter (queue : List α) : Loop α τ := refill limit spawn queue [] []

/-- Every job is started or queued, and there is room only when none is queued. -/
structure Filled (queue : List α) (l : Loop α τ) : Prop where
  jobs : l.started ++ l.pending = queue
  room : l.tasks.length ≤ limit
  full : l.pending = [] ∨ l.tasks.length = limit

variable {limit spawn}

theorem refill_room {a : α} {rest started : List α} {tasks : List τ} (h : tasks.length < limit) :
    refill limit spawn (a :: rest) tasks started =
      refill limit spawn rest (tasks ++ [spawn a]) (started ++ [a]) := if_pos h

theorem refill_full {a : α} {rest started : List α} {tasks : List τ} (h : ¬ tasks.length < limit) :
    refill limit spawn (a :: rest) tasks started = ⟨a :: rest, tasks, started⟩ := if_neg h

theorem filled_refill {queue pending started : List α} {tasks : List τ}
    (hjobs : started ++ pending = queue) (hroom : tasks.length ≤ limit) :
    Filled limit queue (refill limit spawn pending tasks started) := by
  induction pending generalizing tasks started with
  | nil => exact ⟨hjobs, hroom, .inl rfl⟩
  | cons a rest ih =>
    by_cases hless : tasks.length < limit
    · rw [refill_room hless]
      refine ih ?_ ?_
      · rw [List.append_assoc]
        exact hjobs
      · rw [List.length_append, List.length_singleton]
        omega
    · rw [refill_full hless]
      exact ⟨hjobs, hroom, .inr (Nat.le_antisymm hroom (Nat.le_of_not_lt hless))⟩

/-- When the set is empty every job has been started. -/
theorem Filled.over {queue : List α} {l : Loop α τ} (h : Filled limit queue l) (hlimit : 0 < limit)
    (hempty : l.tasks = []) : l.started = queue ∧ l.pending = [] := by
  have hpending : l.pending = [] := by
    rcases h.full with hnone | hfull
    · exact hnone
    · rw [hempty, List.length_nil] at hfull
      omega
  have hjobs := h.jobs
  rw [hpending, List.append_nil] at hjobs
  exact ⟨hjobs, hpending⟩

theorem forall_refill {P : τ → Prop} (hspawn : ∀ a, P (spawn a)) {pending started : List α}
    {tasks : List τ} (h : ∀ t ∈ tasks, P t) :
    ∀ t ∈ (refill limit spawn pending tasks started).tasks, P t := by
  induction pending generalizing tasks started with
  | nil => exact h
  | cons a rest ih =>
    by_cases hless : tasks.length < limit
    · rw [refill_room hless]
      exact ih (List.forall_mem_append.mpr ⟨h, by simpa using hspawn a⟩)
    · rw [refill_full hless]
      exact h

/-- Tasks are started behind the ones in the set, so replacing one of these or
taking it out beforehand comes to the same. -/
theorem refill_split (pending started : List α) (before after : List τ) (t : τ) :
    ∃ pending' fresh started',
      (∀ t', refill limit spawn pending (before ++ t' :: after) started =
        ⟨pending', before ++ t' :: (after ++ fresh), started'⟩) ∧
      refill limit spawn pending' (before ++ (after ++ fresh)) started' =
        refill limit spawn pending (before ++ after) started := by
  induction pending generalizing after started with
  | nil => exact ⟨[], [], started, fun t' => by simp [refill], by simp⟩
  | cons a rest ih =>
    have hlength : ∀ t' : τ, (before ++ t' :: after).length = (before ++ t :: after).length := by
      intro t'
      simp
    by_cases hroom : (before ++ t :: after).length < limit
    · obtain ⟨pending', fresh, started', hall, htake⟩ := ih (started ++ [a]) (after ++ [spawn a])
      have hless : (before ++ after).length < limit := by
        simp only [List.length_append, List.length_cons] at hroom ⊢
        omega
      refine ⟨pending', spawn a :: fresh, started', fun t' => ?_, ?_⟩
      · rw [refill_room (by rw [hlength]; exact hroom)]
        simpa using hall t'
      · rw [refill_room hless]
        simpa using htake
    · refine ⟨a :: rest, [], started, fun t' => ?_, by simp⟩
      rw [refill_full (by rw [hlength]; exact hroom), List.append_nil]

end Refill

section Steps

variable {α σ τ : Type} {T : Tasks α σ τ} {limit : Nat} {queue : List α}

inductive Step (T : Tasks α σ τ) (limit : Nat) : σ × Loop α τ → σ × Loop α τ → Prop
  | move {s s' : σ} {t t' : τ} (pending started : List α) (before after : List τ)
      (h : T.move s t s' t') :
      Step T limit (s, ⟨pending, before ++ t :: after, started⟩)
        (s', ⟨pending, before ++ t' :: after, started⟩)
  | join {t : τ} (s : σ) (pending started : List α) (before after : List τ) (h : T.ended t) :
      Step T limit (s, ⟨pending, before ++ t :: after, started⟩)
        (s, refill limit T.spawn pending (before ++ after) started)

theorem filled_step {c c' : σ × Loop α τ} (hc : Filled limit queue c.2) (h : Step T limit c c') :
    Filled limit queue c'.2 := by
  cases h with
  | move pending started before after h =>
    exact ⟨hc.jobs, by simpa using hc.room, by simpa using hc.full⟩
  | join s pending started before after h =>
    have hroom := hc.room
    refine filled_refill hc.jobs ?_
    simp only [List.length_append, List.length_cons] at hroom ⊢
    omega

theorem filled_of_steps {s : σ} {n : Nat} {c : σ × Loop α τ}
    (h : Steps (Step T limit) n (s, enter limit T.spawn queue) c) : Filled limit queue c.2 := by
  have hstep : ∀ c c' : σ × Loop α τ, Filled limit queue c.2 → Step T limit c c' →
      Filled limit queue c'.2 := fun _ _ hc h => filled_step hc h
  have hstart : Filled limit queue (enter limit T.spawn queue) :=
    filled_refill (List.nil_append queue) (Nat.zero_le limit)
  exact steps_invariant hstep h hstart

/-- A loop whose set is not empty goes on, if its tasks do. -/
theorem exists_step {c : σ × Loop α τ}
    (hgo : ∀ t ∈ c.2.tasks, T.ended t ∨ ∃ s' t', T.move c.1 t s' t') (hne : c.2.tasks ≠ []) :
    ∃ c', Step T limit c c' := by
  obtain ⟨s, pending, tasks, started⟩ := c
  cases tasks with
  | nil => exact absurd rfl hne
  | cons t rest =>
    rcases hgo t List.mem_cons_self with hended | ⟨s', t', hmove⟩
    · exact ⟨_, .join s pending started [] rest hended⟩
    · exact ⟨_, .move pending started [] rest hmove⟩

end Steps

section Termination

variable {α σ τ : Type} {T : Tasks α σ τ} {limit : Nat} {queue : List α}

/-- Moves use up what a task has left, and a task never starts with more than
`most`. -/
structure Finite (T : Tasks α σ τ) (ok : τ → Prop) (cost : τ → Nat) (most : Nat) : Prop where
  spawn : ∀ a, ok (T.spawn a) ∧ cost (T.spawn a) ≤ most
  move : ∀ s t s' t', ok t → T.move s t s' t' → ok t' ∧ cost t' < cost t

variable {ok : τ → Prop} {cost : τ → Nat} {most : Nat}

/-- The moves that are left to tasks, and one step to take out each of them. -/
def total (cost : τ → Nat) : List τ → Nat
  | [] => 0
  | t :: rest => cost t + 1 + total cost rest

@[simp] theorem total_append (cost : τ → Nat) (before after : List τ) :
    total cost (before ++ after) = total cost before + total cost after := by
  induction before with
  | nil => simp [total]
  | cons t rest ih =>
    simp only [List.cons_append, total, ih]
    omega

def left (cost : τ → Nat) (most : Nat) (l : Loop α τ) : Nat :=
  l.pending.length * (most + 1) + total cost l.tasks

theorem left_refill (hspawn : ∀ a, cost (T.spawn a) ≤ most) (pending started : List α)
    (tasks : List τ) :
    left cost most (refill limit T.spawn pending tasks started) ≤
      pending.length * (most + 1) + total cost tasks := by
  induction pending generalizing tasks started with
  | nil => exact Nat.le_refl _
  | cons a rest ih =>
    by_cases hless : tasks.length < limit
    · rw [refill_room hless]
      have hrest := ih (started ++ [a]) (tasks ++ [T.spawn a])
      have ha := hspawn a
      have hone : (rest.length + 1) * (most + 1) = rest.length * (most + 1) + (most + 1) :=
        Nat.succ_mul _ _
      simp only [total_append, total, List.length_cons] at hrest ⊢
      omega
    · rw [refill_full hless]
      exact Nat.le_refl _

theorem left_enter (hspawn : ∀ a, cost (T.spawn a) ≤ most) (queue : List α) :
    left cost most (enter limit T.spawn queue) ≤ queue.length * (most + 1) :=
  left_refill hspawn queue [] []

theorem left_step (hT : Finite T ok cost most) (c c' : σ × Loop α τ)
    (hok : ∀ t ∈ c.2.tasks, ok t) (h : Step T limit c c') :
    (∀ t ∈ c'.2.tasks, ok t) ∧ left cost most c'.2 < left cost most c.2 := by
  cases h with
  | @move s s' t t' pending started before after h =>
    simp only [List.forall_mem_append, List.forall_mem_cons] at hok
    obtain ⟨hbefore, ht, hafter⟩ := hok
    obtain ⟨ht', hless⟩ := hT.move _ _ _ _ ht h
    refine ⟨List.forall_mem_append.mpr ⟨hbefore, List.forall_mem_cons.mpr ⟨ht', hafter⟩⟩, ?_⟩
    simp only [left, total_append, total]
    omega
  | @join t s pending started before after h =>
    simp only [List.forall_mem_append, List.forall_mem_cons] at hok
    obtain ⟨hbefore, _, hafter⟩ := hok
    refine ⟨forall_refill (fun a => (hT.spawn a).1)
      (List.forall_mem_append.mpr ⟨hbefore, hafter⟩), ?_⟩
    have hle : left cost most (refill limit T.spawn pending (before ++ after) started) ≤ _ :=
      left_refill (fun a => (hT.spawn a).2) pending started (before ++ after)
    simp only [left, total_append, total] at hle ⊢
    omega

/-- Each task stays within its bounds, and a run has at most `most` moves and
one step to take the task out for each job. -/
theorem steps_le (hT : Finite T ok cost most) {s : σ} {n : Nat} {c : σ × Loop α τ}
    (h : Steps (Step T limit) n (s, enter limit T.spawn queue) c) :
    (∀ t ∈ c.2.tasks, ok t) ∧ n ≤ queue.length * (most + 1) := by
  have hstart : ∀ t ∈ (enter limit T.spawn queue).tasks, ok t :=
    forall_refill (fun a => (hT.spawn a).1) (by simp)
  obtain ⟨hok, hle⟩ := steps_bounded (left_step hT) h hstart
  have hleft : left cost most (enter limit T.spawn queue) ≤ queue.length * (most + 1) :=
    left_enter (fun a => (hT.spawn a).2) queue
  exact ⟨hok, by simp only at hle; omega⟩

end Termination

section Skipping

variable {α σ τ : Type} (T : Tasks α σ τ) (limit : Nat) (job : τ → α) (keep : α → Bool)

/-- The loop as it is without the jobs that are not kept. -/
def skip (l : Loop α τ) : Loop α τ :=
  refill limit T.spawn (l.pending.filter keep) (l.tasks.filter fun t => keep (job t))
    (l.started.filter keep)

/-- Seen through `agree`, the tasks of the jobs that are not kept do nothing, and
the others do the same from any state that agrees. -/
structure Apart (ok : τ → Prop) (agree : σ → σ → Prop) : Prop where
  spawn : ∀ a, job (T.spawn a) = a
  move : ∀ s t s' t', T.move s t s' t' → job t' = job t
  kept : ∀ s t s' t' u, ok t → keep (job t) = true → T.move s t s' t' → agree s u →
    ∃ u', T.move u t u' t' ∧ agree s' u'
  skipped : ∀ s t s' t' u, ok t → keep (job t) = false → T.move s t s' t' → agree s u → agree s' u

variable {T limit job keep} {ok : τ → Prop} {agree : σ → σ → Prop} {queue : List α}

/-- Whether the jobs are left out before or after a refill is the same. -/
theorem skip_refill (hspawn : ∀ a, job (T.spawn a) = a) (pending started : List α)
    (tasks : List τ) :
    skip T limit job keep (refill limit T.spawn pending tasks started) =
      refill limit T.spawn (pending.filter keep) (tasks.filter fun t => keep (job t))
        (started.filter keep) := by
  induction pending generalizing tasks started with
  | nil => rfl
  | cons a rest ih =>
    by_cases hroom : tasks.length < limit
    · rw [refill_room hroom, ih]
      have hless : (tasks.filter fun t => keep (job t)).length < limit :=
        Nat.lt_of_le_of_lt (List.length_filter_le _ _) hroom
      cases ha : keep a with
      | true =>
        have hcons : (a :: rest).filter keep = a :: rest.filter keep := by simp [ha]
        rw [hcons, refill_room hless]
        simp [hspawn, ha]
      | false => simp [hspawn, ha]
    · rw [refill_full hroom]
      rfl

theorem skip_enter (hspawn : ∀ a, job (T.spawn a) = a) (queue : List α) :
    skip T limit job keep (enter limit T.spawn queue) = enter limit T.spawn (queue.filter keep) :=
  skip_refill hspawn queue [] []

/-- A step is a step of the loop without the other jobs, or nothing there. -/
theorem skip_step (hT : Apart T job keep ok agree) {c c' : σ × Loop α τ} {u : σ}
    (hok : ∀ t ∈ c.2.tasks, ok t) (h : Step T limit c c') (hagree : agree c.1 u) :
    ∃ u', agree c'.1 u' ∧ (u' = u ∧ skip T limit job keep c'.2 = skip T limit job keep c.2 ∨
      Step T limit (u, skip T limit job keep c.2) (u', skip T limit job keep c'.2)) := by
  have hsplit := @refill_split α τ limit T.spawn
  cases h with
  | @move s s' t t' pending started before after h =>
    have ht : ok t := hok t (by simp)
    have hjob := hT.move _ _ _ _ h
    cases hkeep : keep (job t) with
    | true =>
      obtain ⟨u', hmove, hagree'⟩ := hT.kept _ _ _ _ u ht hkeep h hagree
      obtain ⟨pending', fresh, started', hall, _⟩ := hsplit (pending.filter keep)
        (started.filter keep) (before.filter fun t => keep (job t))
        (after.filter fun t => keep (job t)) t
      refine ⟨u', hagree', .inr ?_⟩
      simp only [skip, List.filter_append, List.filter_cons, hjob, hkeep, if_true, hall]
      exact .move pending' started' _ _ hmove
    | false =>
      refine ⟨u, hT.skipped _ _ _ _ u ht hkeep h hagree, .inl ⟨rfl, ?_⟩⟩
      simp [skip, hjob, hkeep]
  | @join t s pending started before after h =>
    refine ⟨u, hagree, ?_⟩
    simp only [skip_refill hT.spawn]
    cases hkeep : keep (job t) with
    | true =>
      obtain ⟨pending', fresh, started', hall, htake⟩ := hsplit (pending.filter keep)
        (started.filter keep)
        (before.filter fun t => keep (job t)) (after.filter fun t => keep (job t)) t
      right
      simp only [skip, List.filter_append, List.filter_cons, hkeep, if_true, hall, ← htake]
      exact .join u pending' started' _ _ h
    | false =>
      left
      simp [skip, hkeep]

/-- A run is a run of the loop without the other jobs, seen through `agree`. -/
theorem skip_steps (hT : Apart T job keep ok agree)
    (hok : ∀ n s c, Steps (Step T limit) n (s, enter limit T.spawn queue) c → ∀ t ∈ c.2.tasks, ok t)
    {s u : σ} {n : Nat} {c : σ × Loop α τ}
    (h : Steps (Step T limit) n (s, enter limit T.spawn queue) c) (hagree : agree s u) :
    ∃ m u', agree c.1 u' ∧
      Steps (Step T limit) m (u, enter limit T.spawn (queue.filter keep))
        (u', skip T limit job keep c.2) := by
  generalize hstart : (s, enter limit T.spawn queue) = start at h
  induction h with
  | refl c =>
    subst hstart
    exact ⟨0, u, hagree, by rw [skip_enter hT.spawn]; exact .refl _⟩
  | @tail n start c c' hrun hstep ih =>
    obtain ⟨m, u', hagree', hsteps⟩ := ih hstart
    subst hstart
    obtain ⟨u'', hagree'', ⟨rfl, hsame⟩ | hnext⟩ := skip_step hT (hok n s c hrun) hstep hagree'
    · exact ⟨m, u'', hagree'', by rw [hsame]; exact hsteps⟩
    · exact ⟨m + 1, u'', hagree'', .tail hsteps hnext⟩

end Skipping

end Pccs.JoinSet
