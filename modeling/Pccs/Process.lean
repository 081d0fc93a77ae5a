import Pccs.Runs
import Mathlib.Data.List.Basic
import Mathlib.Order.Lattice.Nat
import Mathlib.Order.Nat

/-!
# Interleaved processes

A process is the tree of what it may still do: it returns, or it performs one
operation and goes on with the result. Any number of processes run over one
shared state, one operation at a time, in any order; new ones arrive, an
operation may fork some, and each may be dropped before any of its operations.

`Only` says which operations a process can perform at all, whatever the results.
`Safe` says of one process what it keeps of the shared state and what it may
assume: an invariant that all processes keep. `safe_of_reachable` joins such
processes. `Staged` says that a process changes nothing before the operation
that ends it successfully.
-/
namespace Pccs.Process

open Runs

inductive Proc (Op : Type) (Res : Op → Type) (α : Type) : Type
  | ret (a : α) : Proc Op Res α
  | op (o : Op) (k : Res o → Proc Op Res α) : Proc Op Res α

section Programs

variable {Op : Type} {Res : Op → Type} {α β ε : Type}

def Proc.bind (p : Proc Op Res α) (f : α → Proc Op Res β) : Proc Op Res β :=
  match p with
  | .ret a => f a
  | .op o k => .op o fun r => (k r).bind f

instance : Monad (Proc Op Res) where
  pure := .ret
  bind := .bind

/-- One operation. -/
def call (o : Op) : Proc Op Res (Res o) := .op o .ret

/-- Go on with a success, end with a failure. -/
def Proc.andThen (p : Proc Op Res (Except ε α)) (f : α → Proc Op Res (Except ε β)) :
    Proc Op Res (Except ε β) :=
  p.bind fun
    | .ok a => f a
    | .error e => .ret (.error e)

/-- All the results of a loop. -/
def collect (f : α → Proc Op Res β) : List α → Proc Op Res (List β)
  | [] => .ret []
  | a :: rest => (f a).bind fun b => (collect f rest).bind fun bs => .ret (b :: bs)

/-- A loop that ends at its first failure. -/
def each (f : α → Proc Op Res (Except ε Unit)) : List α → Proc Op Res (Except ε Unit)
  | [] => .ret (.ok ())
  | a :: rest => (f a).andThen fun _ => each f rest

/-- Look at the clock before each operation, and give up when it says so. -/
def within (clock : Op) (stop : Res clock → Bool) : Proc Op Res α → Proc Op Res (Option α)
  | .ret a => .ret (some a)
  | .op o k => .op clock fun now =>
    if stop now then .ret none else .op o fun r => within clock stop (k r)

theorem bind_ret (a : α) (f : α → Proc Op Res β) : (Proc.ret a).bind f = f a := rfl

end Programs

section Operations

variable {Op : Type} {Res : Op → Type} {α β ε : Type} {P : Op → Prop}

/-- Every operation on every path of the process is one of `P`. -/
def Only (P : Op → Prop) : Proc Op Res α → Prop
  | .ret _ => True
  | .op o k => P o ∧ ∀ r, Only P (k r)

theorem only_mono {Q : Op → Prop} (h : ∀ o, P o → Q o) {p : Proc Op Res α} (hp : Only P p) :
    Only Q p := by
  induction p with
  | ret a => trivial
  | op o k ih => exact ⟨h o hp.1, fun r => ih r (hp.2 r)⟩

theorem only_all (h : ∀ o, P o) (p : Proc Op Res α) : Only P p := by
  induction p with
  | ret a => trivial
  | op o k ih => exact ⟨h o, ih⟩

theorem only_call {o : Op} (h : P o) : Only P (call o : Proc Op Res (Res o)) :=
  ⟨h, fun _ => trivial⟩

theorem only_bind {p : Proc Op Res α} {f : α → Proc Op Res β} (hp : Only P p)
    (hf : ∀ a, Only P (f a)) : Only P (p.bind f) := by
  induction p with
  | ret a => exact hf a
  | op o k ih => exact ⟨hp.1, fun r => ih r (hp.2 r)⟩

theorem only_andThen {p : Proc Op Res (Except ε α)} {f : α → Proc Op Res (Except ε β)}
    (hp : Only P p) (hf : ∀ a, Only P (f a)) : Only P (p.andThen f) := by
  refine only_bind hp fun result => ?_
  cases result with
  | ok a => exact hf a
  | error e => trivial

theorem only_collect {f : α → Proc Op Res β} (hf : ∀ a, Only P (f a)) (l : List α) :
    Only P (collect f l) := by
  induction l with
  | nil => trivial
  | cons a rest ih => exact only_bind (hf a) fun _ => only_bind ih fun _ => trivial

theorem only_within {clock : Op} {stop : Res clock → Bool} {p : Proc Op Res α} (hclock : P clock)
    (hp : Only P p) : Only P (within clock stop p) := by
  induction p with
  | ret a => trivial
  | op o k ih =>
    refine ⟨hclock, fun now => ?_⟩
    by_cases hstop : stop now = true
    · simp only [hstop, if_true]
      trivial
    · simp only [hstop]
      exact ⟨hp.1, fun r => ih r (hp.2 r)⟩

end Operations

section Lengths

variable {Op : Type} {Res : Op → Type} {α β ε : Type} {P : Op → Bool}

/-- No path of the process has more of these operations. -/
def AtMost (P : Op → Bool) : Nat → Proc Op Res α → Prop
  | _, .ret _ => True
  | n, .op o k => ∃ m, n = m + (P o).toNat ∧ ∀ r, AtMost P m (k r)

theorem atMost_mono {p : Proc Op Res α} {m n : Nat} (h : m ≤ n) (hp : AtMost P m p) :
    AtMost P n p := by
  induction p generalizing m n with
  | ret a => trivial
  | op o k ih =>
    obtain ⟨m', rfl, hk⟩ := hp
    exact ⟨n - (P o).toNat, by omega, fun r => ih r (by omega) (hk r)⟩

theorem atMost_ret (n : Nat) (a : α) : AtMost P n (.ret a : Proc Op Res α) := trivial

theorem atMost_call (o : Op) : AtMost P 1 (call o : Proc Op Res (Res o)) := by
  cases hP : P o with
  | true => exact ⟨0, by simp [hP], fun _ => trivial⟩
  | false => exact ⟨1, by simp [hP], fun _ => trivial⟩

theorem atMost_zero {p : Proc Op Res α} (hp : Only (fun o => P o = false) p) : AtMost P 0 p := by
  induction p with
  | ret a => trivial
  | op o k ih => exact ⟨0, by simp [hp.1], fun r => ih r (hp.2 r)⟩

theorem atMost_bind {p : Proc Op Res α} {f : α → Proc Op Res β} {m n : Nat} (hp : AtMost P m p)
    (hf : ∀ a, AtMost P n (f a)) : AtMost P (m + n) (p.bind f) := by
  induction p generalizing m with
  | ret a => exact atMost_mono (by omega) (hf a)
  | op o k ih =>
    obtain ⟨m', rfl, hk⟩ := hp
    exact ⟨m' + n, by omega, fun r => ih r (hk r)⟩

theorem atMost_andThen {p : Proc Op Res (Except ε α)} {f : α → Proc Op Res (Except ε β)}
    {m n : Nat} (hp : AtMost P m p) (hf : ∀ a, AtMost P n (f a)) :
    AtMost P (m + n) (p.andThen f) := by
  refine atMost_bind hp fun result => ?_
  cases result with
  | ok a => exact hf a
  | error e => trivial

/-- Looking at the clock is not counted. -/
theorem atMost_within {clock : Op} {stop : Res clock → Bool} {p : Proc Op Res α} {n : Nat}
    (hclock : P clock = false) (hp : AtMost P n p) : AtMost P n (within clock stop p) := by
  induction p generalizing n with
  | ret a => trivial
  | op o k ih =>
    obtain ⟨m, rfl, hk⟩ := hp
    refine ⟨m + (P o).toNat, by simp [hclock], fun now => ?_⟩
    by_cases hstop : stop now = true
    · simp only [hstop, if_true]
      trivial
    · simp only [hstop]
      exact ⟨m, rfl, fun r => ih r (hk r)⟩

/-- The operations of the longest path, for a process that has one. -/
noncomputable def longest (p : Proc Op Res α) : Nat := sInf {n | AtMost (fun _ => true) n p}

theorem longest_le {p : Proc Op Res α} {n : Nat} (h : AtMost (fun _ => true) n p) :
    longest p ≤ n := Nat.sInf_le h

theorem atMost_longest {p : Proc Op Res α} {n : Nat} (h : AtMost (fun _ => true) n p) :
    AtMost (fun _ => true) (longest p) p := by
  have hne : {n | AtMost (fun _ => true) n p}.Nonempty := ⟨n, h⟩
  exact Nat.sInf_mem hne

/-- An operation is one less to do. -/
theorem longest_lt {o : Op} {k : Res o → Proc Op Res α} {n : Nat}
    (h : AtMost (fun _ => true) n (.op o k)) (r : Res o) :
    AtMost (fun _ => true) (longest (k r)) (k r) ∧ longest (k r) < longest (.op o k) := by
  obtain ⟨m, hm, hk⟩ := atMost_longest h
  have hle := longest_le (hk r)
  exact ⟨atMost_longest (hk r), by rw [hm]; simp only [Bool.toNat_true]; omega⟩

end Lengths

section Execution

variable {Op : Type} {Res : Op → Type} {σ α β ε : Type}
  (perform : σ → (o : Op) → Res o → σ → Prop)

/-- A whole run of one process alone, with its result and the states around it. -/
inductive Exec : σ → Proc Op Res α → α → σ → Prop
  | ret (s : σ) (a : α) : Exec s (.ret a) a s
  | op {s s₁ s' : σ} {o : Op} {k : Res o → Proc Op Res α} {r : Res o} {a : α}
      (hs : perform s o r s₁) (rest : Exec s₁ (k r) a s') : Exec s (.op o k) a s'

variable {perform}

theorem exec_ret {s s' : σ} {a b : α} (h : Exec perform s (.ret a : Proc Op Res α) b s') :
    b = a ∧ s' = s := by
  cases h
  exact ⟨rfl, rfl⟩

theorem exec_call {s s' : σ} {o : Op} {r : Res o}
    (h : Exec perform s (call o : Proc Op Res (Res o)) r s') : perform s o r s' := by
  obtain _ | ⟨hs, rest⟩ := h
  cases rest
  exact hs

theorem exec_bind {p : Proc Op Res α} {f : α → Proc Op Res β} {s s' : σ} {b : β}
    (h : Exec perform s (p.bind f) b s') :
    ∃ a s₁, Exec perform s p a s₁ ∧ Exec perform s₁ (f a) b s' := by
  induction p generalizing s with
  | ret a => exact ⟨a, s, .ret s a, h⟩
  | op o k ih =>
    obtain _ | ⟨hs, rest⟩ := h
    obtain ⟨a, s₁, hp, hf⟩ := ih _ rest
    exact ⟨a, s₁, .op hs hp, hf⟩

theorem Exec.call {s s' : σ} {o : Op} {r : Res o} (h : perform s o r s') :
    Exec perform s (call o : Proc Op Res (Res o)) r s' := .op h (.ret s' r)

theorem Exec.bind {p : Proc Op Res α} {f : α → Proc Op Res β} {s s₁ s' : σ} {a : α} {b : β}
    (hp : Exec perform s p a s₁) (hf : Exec perform s₁ (f a) b s') :
    Exec perform s (p.bind f) b s' := by
  induction hp with
  | ret s a => exact hf
  | op hs _ ih => exact .op hs (ih hf)

theorem Exec.andThen_ok {p : Proc Op Res (Except ε α)} {f : α → Proc Op Res (Except ε β)}
    {s s₁ s' : σ} {a : α} {result : Except ε β} (hp : Exec perform s p (.ok a) s₁)
    (hf : Exec perform s₁ (f a) result s') : Exec perform s (p.andThen f) result s' :=
  hp.bind hf

theorem Exec.andThen_error {p : Proc Op Res (Except ε α)} {f : α → Proc Op Res (Except ε β)}
    {s s' : σ} {e : ε} (hp : Exec perform s p (.error e) s') :
    Exec perform s (p.andThen f) (.error e) s' :=
  hp.bind (.ret s' (Except.error e))

theorem exec_andThen {p : Proc Op Res (Except ε α)} {f : α → Proc Op Res (Except ε β)} {s s' : σ}
    {result : Except ε β} (h : Exec perform s (p.andThen f) result s') :
    (∃ e, Exec perform s p (.error e) s' ∧ result = .error e) ∨
      ∃ a s₁, Exec perform s p (.ok a) s₁ ∧ Exec perform s₁ (f a) result s' := by
  obtain ⟨r, s₁, hp, hf⟩ := exec_bind h
  cases r with
  | ok a => exact .inr ⟨a, s₁, hp, hf⟩
  | error e =>
    obtain ⟨rfl, rfl⟩ := exec_ret hf
    exact .inl ⟨e, hp, rfl⟩

/-- A loop over processes that leave the state alone. -/
theorem Exec.collect {f : α → Proc Op Res β} {g : α → β} {s : σ} {l : List α}
    (h : ∀ a ∈ l, Exec perform s (f a) (g a) s) :
    Exec perform s (Process.collect f l) (l.map g) s := by
  induction l with
  | nil => exact .ret s []
  | cons a rest ih =>
    obtain ⟨ha, hrest⟩ := List.forall_mem_cons.mp h
    exact ha.bind ((ih hrest).bind (.ret s (g a :: rest.map g)))

theorem Exec.mono {perform' : σ → (o : Op) → Res o → σ → Prop}
    (h : ∀ s o r s', perform s o r s' → perform' s o r s') {p : Proc Op Res α} {s s' : σ} {a : α}
    (hp : Exec perform s p a s') : Exec perform' s p a s' := by
  induction hp with
  | ret s a => exact .ret s a
  | op hs _ ih => exact .op (h _ _ _ _ hs) ih

/-- The run of a process that has only certain operations is made of these. -/
theorem Exec.restrict {P : Op → Prop} {p : Proc Op Res α} {s s' : σ} {a : α} (hp : Only P p)
    (h : Exec perform s p a s') : Exec (fun s o r s' => P o ∧ perform s o r s') s p a s' := by
  induction h with
  | ret s a => exact .ret s a
  | op hs _ ih => exact .op ⟨hp.1, hs⟩ (ih (hp.2 _))

/-- What every operation of a process keeps, its run keeps. -/
theorem exec_only {R : σ → σ → Prop} (hrefl : ∀ s, R s s)
    (htrans : ∀ s₁ s₂ s₃, R s₁ s₂ → R s₂ s₃ → R s₁ s₃) {p : Proc Op Res α} {s s' : σ} {a : α}
    (hp : Only (fun o => ∀ s r s', perform s o r s' → R s s') p) (h : Exec perform s p a s') :
    R s s' := by
  induction h with
  | ret s a => exact hrefl s
  | op hs _ ih => exact htrans _ _ _ (hp.1 _ _ _ hs) (ih (hp.2 _))

end Execution

section Safety

variable {Op : Type} {Res : Op → Type} {σ α β ε : Type}

/-- An operation that was performed, with its result. -/
abbrev Event (Op : Type) (Res : Op → Type) : Type := (o : Op) × Res o

/-- What a process keeps: `inv` at every state, given that it holds before each
operation, `guar` of each operation, from what was performed before, and `post`
of the result. -/
structure Keeps (Op : Type) (Res : Op → Type) (σ : Type) where
  perform : σ → (o : Op) → Res o → σ → Prop
  inv : σ → Prop
  guar : List (Event Op Res) → σ → (o : Op) → Res o → σ → Prop

variable (K : Keeps Op Res σ)

def Safe (post : List (Event Op Res) → α → Prop) : Proc Op Res α → List (Event Op Res) → Prop
  | .ret a, past => post past a
  | .op o k, past => ∀ s r s', K.inv s → K.perform s o r s' →
      K.inv s' ∧ K.guar past s o r s' ∧ Safe post (k r) (⟨o, r⟩ :: past)

variable {K} {post : List (Event Op Res) → α → Prop} {post' : List (Event Op Res) → β → Prop}

theorem safe_bind {p : Proc Op Res α} {f : α → Proc Op Res β} {past : List (Event Op Res)}
    (hp : Safe K post p past)
    (hf : ∀ past' a, past.Sublist past' → post past' a → Safe K post' (f a) past') :
    Safe K post' (p.bind f) past := by
  induction p generalizing past with
  | ret a => exact hf past a (.refl past) hp
  | op o k ih =>
    intro s r s' hs hperform
    obtain ⟨hinv, hguar, hrest⟩ := hp s r s' hs hperform
    refine ⟨hinv, hguar, ih r hrest fun past' a hsub hpost => ?_⟩
    exact hf past' a ((List.sublist_cons_self _ past).trans hsub) hpost

theorem safe_mono {post' : List (Event Op Res) → α → Prop} {p : Proc Op Res α}
    {past : List (Event Op Res)} (hp : Safe K post p past)
    (h : ∀ past' a, past.Sublist past' → post past' a → post' past' a) : Safe K post' p past := by
  induction p generalizing past with
  | ret a => exact h past a (.refl past) hp
  | op o k ih =>
    intro s r s' hs hperform
    obtain ⟨hinv, hguar, hrest⟩ := hp s r s' hs hperform
    refine ⟨hinv, hguar, ih r hrest fun past' a hsub hpost => ?_⟩
    exact h past' a ((List.sublist_cons_self _ past).trans hsub) hpost

theorem safe_call {o : Op} {past : List (Event Op Res)} {post : List (Event Op Res) → Res o → Prop}
    (h : ∀ s r s', K.inv s → K.perform s o r s' →
      K.inv s' ∧ K.guar past s o r s' ∧ post (⟨o, r⟩ :: past) r) : Safe K post (call o) past := h

theorem safe_andThen {p : Proc Op Res (Except ε α)} {f : α → Proc Op Res (Except ε β)}
    {past : List (Event Op Res)} {post : List (Event Op Res) → Except ε α → Prop}
    {post' : List (Event Op Res) → Except ε β → Prop} (hp : Safe K post p past)
    (hf : ∀ past' a, past.Sublist past' → post past' (.ok a) → Safe K post' (f a) past')
    (he : ∀ past' e, past.Sublist past' → post past' (.error e) → post' past' (.error e)) :
    Safe K post' (p.andThen f) past := by
  refine safe_bind hp fun past' result hsub hpost => ?_
  cases result with
  | ok a => exact hf past' a hsub hpost
  | error e => exact he past' e hsub hpost

theorem safe_collect {f : α → Proc Op Res β} {past : List (Event Op Res)} (l : List α)
    (hf : ∀ a ∈ l, ∀ past', past.Sublist past' → Safe K (fun _ _ => True) (f a) past') :
    Safe K (fun _ _ => True) (collect f l) past := by
  induction l generalizing past with
  | nil => trivial
  | cons a rest ih =>
    refine safe_bind (hf a List.mem_cons_self past (.refl past)) fun past' b hsub _ => ?_
    have hrest := ih fun a ha past'' hsub' =>
      hf a (List.mem_cons_of_mem _ ha) past'' (hsub.trans hsub')
    exact safe_bind hrest fun _ _ _ _ => trivial

theorem safe_each {f : α → Proc Op Res (Except ε Unit)} {past : List (Event Op Res)} (l : List α)
    (hf : ∀ a ∈ l, ∀ past', past.Sublist past' → Safe K (fun _ _ => True) (f a) past') :
    Safe K (fun _ _ => True) (each f l) past := by
  induction l generalizing past with
  | nil => trivial
  | cons a rest ih =>
    refine safe_andThen (hf a List.mem_cons_self past (.refl past)) (fun past' _ hsub _ => ?_)
      fun _ _ _ _ => trivial
    exact ih fun a ha past'' hsub' =>
      hf a (List.mem_cons_of_mem _ ha) past'' (hsub.trans hsub')

/-- A process may be given up between its operations, if looking at the clock
is harmless and what is asked of an operation is not lost by it. -/
theorem safe_within {clock : Op} {stop : Res clock → Bool} {p : Proc Op Res α}
    {past past' : List (Event Op Res)} (hsub : past.Sublist past')
    (hclock : ∀ past s r s', K.inv s → K.perform s clock r s' →
      K.inv s' ∧ K.guar past s clock r s')
    (hguar : ∀ past past' s o r s', past.Sublist past' → K.guar past s o r s' → K.guar past' s o r s')
    (hpost : ∀ past past' a, past.Sublist past' → post past a → post past' a)
    (hp : Safe K post p past) :
    Safe K (fun past r => ∀ a, r = some a → post past a) (within clock stop p) past' := by
  induction p generalizing past past' with
  | ret a =>
    intro b hb
    cases hb
    exact hpost past past' a hsub hp
  | op o k ih =>
    intro s now s' hs hnow
    obtain ⟨hinv, hg⟩ := hclock past' s now s' hs hnow
    refine ⟨hinv, hg, ?_⟩
    by_cases hstop : stop now = true
    · simp only [hstop, if_true]
      intro a ha
      cases ha
    · simp only [hstop]
      intro s₁ r s₂ hs₁ hperform
      obtain ⟨hinv', hg', hrest⟩ := hp s₁ r s₂ hs₁ hperform
      have hsub' : past.Sublist (⟨clock, now⟩ :: past') := hsub.cons _
      exact ⟨hinv', hguar past _ s₁ o r s₂ hsub' hg',
        ih r (hsub'.cons_cons _) hrest⟩

end Safety

section Systems

variable {Op : Type} {Res : Op → Type} {σ ρ : Type}

/-- The requests a system takes, what each of them runs, and what its operations
do: to the state, and as requests of their own. -/
structure System (Op : Type) (Res : Op → Type) (σ ρ : Type) where
  perform : σ → (o : Op) → Res o → σ → Prop
  accepts : ρ → Prop
  Reply : ρ → Type
  body : (q : ρ) → Proc Op Res (Reply q)
  forks : Op → List ρ

variable (S : System Op Res σ ρ)

/-- A running request: what it has performed, newest first, and what is left. -/
structure Thread where
  request : ρ
  todo : Proc Op Res (S.Reply request)
  past : List (Event Op Res)

structure Config where
  state : σ
  threads : List (Thread S)

variable {S}

/-- A thread after one operation. -/
def Thread.after (t : Thread S) (o : Op) (r : Res o) (k : Res o → Proc Op Res (S.Reply t.request)) :
    Thread S :=
  ⟨t.request, k r, ⟨o, r⟩ :: t.past⟩

/-- The requests an operation forks know what led to them. -/
def Thread.children (t : Thread S) (o : Op) (r : Res o) : List (Thread S) :=
  (S.forks o).map fun q => ⟨q, S.body q, ⟨o, r⟩ :: t.past⟩

inductive Step : Config S → Config S → Prop
  | arrive (s : σ) (ts : List (Thread S)) (q : ρ) (hq : S.accepts q) :
      Step ⟨s, ts⟩ ⟨s, ⟨q, S.body q, []⟩ :: ts⟩
  | act (s s' : σ) (before after : List (Thread S)) (t : Thread S) (o : Op)
      (k : Res o → Proc Op Res (S.Reply t.request)) (r : Res o) (ht : t.todo = .op o k)
      (hs : S.perform s o r s') :
      Step ⟨s, before ++ t :: after⟩ ⟨s', before ++ t.after o r k :: after ++ t.children o r⟩
  | drop (s : σ) (before after : List (Thread S)) (t : Thread S) :
      Step ⟨s, before ++ t :: after⟩ ⟨s, before ++ after⟩

/-- The first request of a run has arrived. -/
theorem reachable_arrive {start : Config S → Prop} {s : σ} (h : start ⟨s, []⟩) {q : ρ}
    (hq : S.accepts q) : Reachable start Step ⟨s, [⟨q, S.body q, []⟩]⟩ :=
  reachable_step (reachable_start h) (.arrive s [] q hq)

/-- If every request keeps to its own operations, and so do the requests these
fork, then so does every thread of every run. -/
theorem only_of_reachable {P : ρ → Op → Prop} (hbody : ∀ q, S.accepts q → Only (P q) (S.body q))
    (hfork : ∀ q o, P q o → ∀ q' ∈ S.forks o, Only (P q') (S.body q')) {start : Config S → Prop}
    (hstart : ∀ c, start c → c.threads = []) {c : Config S} (h : Reachable start Step c) :
    ∀ t ∈ c.threads, Only (P t.request) t.todo := by
  refine invariant (P := fun c : Config S => ∀ t ∈ c.threads, Only (P t.request) t.todo) ?_ ?_ h
  · intro c hc t ht
    simp [hstart c hc] at ht
  intro c c' hall hstep
  cases hstep with
  | arrive s ts q hq => exact List.forall_mem_cons.mpr ⟨hbody q hq, hall⟩
  | act s s' before after t o k r ht hs =>
    simp only [List.forall_mem_append, List.forall_mem_cons] at hall
    obtain ⟨hbefore, htodo, hafter⟩ := hall
    rw [ht] at htodo
    simp only [List.append_assoc, List.cons_append, List.forall_mem_append, List.forall_mem_cons]
    refine ⟨hbefore, htodo.2 r, hafter, fun child hchild => ?_⟩
    obtain ⟨q', hq', rfl⟩ := List.mem_map.mp hchild
    exact hfork t.request o htodo.1 q' hq'
  | drop s before after t =>
    simp only [List.forall_mem_append, List.forall_mem_cons] at hall ⊢
    exact ⟨hall.1, hall.2.2⟩

variable {I : σ → Prop} {G : ρ → List (Event Op Res) → σ → (o : Op) → Res o → σ → Prop}
  {Q : (q : ρ) → List (Event Op Res) → S.Reply q → Prop}

/-- What the threads of a request keep. -/
def System.keeps (S : System Op Res σ ρ) (I : σ → Prop)
    (G : ρ → List (Event Op Res) → σ → (o : Op) → Res o → σ → Prop) (q : ρ) : Keeps Op Res σ :=
  ⟨S.perform, I, G q⟩

/-- The invariant holds, and every thread keeps it. -/
def Config.Sound (I : σ → Prop) (G : ρ → List (Event Op Res) → σ → (o : Op) → Res o → σ → Prop)
    (Q : (q : ρ) → List (Event Op Res) → S.Reply q → Prop) (c : Config S) : Prop :=
  I c.state ∧ ∀ t ∈ c.threads, Safe (S.keeps I G t.request) (Q t.request) t.todo t.past

theorem sound_step
    (hbody : ∀ q, S.accepts q → Safe (S.keeps I G q) (Q q) (S.body q) [])
    (hfork : ∀ q past s o r s', I s → S.perform s o r s' → G q past s o r s' →
      ∀ q' ∈ S.forks o, Safe (S.keeps I G q') (Q q') (S.body q') (⟨o, r⟩ :: past))
    {c c' : Config S} (hc : c.Sound I G Q) (h : Step c c') : c'.Sound I G Q := by
  cases h with
  | arrive s ts q hq => exact ⟨hc.1, List.forall_mem_cons.mpr ⟨hbody q hq, hc.2⟩⟩
  | act s s' before after t o k r ht hs =>
    obtain ⟨hI, hall⟩ := hc
    rw [List.forall_mem_append, List.forall_mem_cons] at hall
    obtain ⟨hbefore, hsafe, hafter⟩ := hall
    rw [ht] at hsafe
    obtain ⟨hI', hG, hrest⟩ := hsafe s r s' hI hs
    refine ⟨hI', ?_⟩
    simp only [List.append_assoc, List.cons_append, List.forall_mem_append, List.forall_mem_cons]
    refine ⟨hbefore, hrest, hafter, fun child hchild => ?_⟩
    obtain ⟨q', hq', rfl⟩ := List.mem_map.mp hchild
    exact hfork t.request t.past s o r s' hI hs hG q' hq'
  | drop s before after t =>
    refine ⟨hc.1, fun u hu => hc.2 u ?_⟩
    rcases List.mem_append.mp hu with hu | hu
    · exact List.mem_append_left _ hu
    · exact List.mem_append_right _ (List.mem_cons_of_mem _ hu)

/-- The threads of every run over an invariant state are safe. -/
theorem sound_of_reachable
    (hbody : ∀ q, S.accepts q → Safe (S.keeps I G q) (Q q) (S.body q) [])
    (hfork : ∀ q past s o r s', I s → S.perform s o r s' → G q past s o r s' →
      ∀ q' ∈ S.forks o, Safe (S.keeps I G q') (Q q') (S.body q') (⟨o, r⟩ :: past))
    {start : Config S → Prop} (hstart : ∀ c, start c → I c.state ∧ c.threads = [])
    {c : Config S} (h : Reachable start Step c) : c.Sound I G Q := by
  refine invariant ?_ ?_ h
  · intro c hc
    obtain ⟨hI, hnone⟩ := hstart c hc
    exact ⟨hI, by simp [hnone]⟩
  · exact fun _ _ hc hstep => sound_step hbody hfork hc hstep

/-- What all operations of a process keep. -/
theorem safe_of_only {P : Op → Prop} {K : Keeps Op Res σ} {α : Type}
    (hkeep : ∀ past s o r s', P o → K.inv s → K.perform s o r s' → K.inv s' ∧ K.guar past s o r s')
    {p : Proc Op Res α} (hp : Only P p) (past : List (Event Op Res)) :
    Safe K (fun _ _ => True) p past := by
  induction p generalizing past with
  | ret a => trivial
  | op o k ih =>
    intro s r s' hs hperform
    obtain ⟨hinv, hguar⟩ := hkeep past s o r s' hp.1 hs hperform
    exact ⟨hinv, hguar, ih r (hp.2 r) _⟩

/-- An invariant that all operations of all requests keep holds in every run. -/
theorem inv_of_only {P : ρ → Op → Prop} (hbody : ∀ q, S.accepts q → Only (P q) (S.body q))
    (hfork : ∀ q o, P q o → ∀ q' ∈ S.forks o, Only (P q') (S.body q'))
    (hkeep : ∀ q s o r s', P q o → I s → S.perform s o r s' → I s') {start : Config S → Prop}
    (hstart : ∀ c, start c → I c.state ∧ c.threads = []) {c : Config S}
    (h : Reachable start Step c) : I c.state := by
  have hsafe : ∀ (q : ρ) past, Only (P q) (S.body q) →
      Safe (S.keeps I (fun q _ _ o _ _ => P q o) q) (fun _ _ => True) (S.body q) past :=
    fun q past hp => safe_of_only (K := S.keeps I (fun q _ _ o _ _ => P q o) q)
      (fun _ s o r s' ho hs hperform => ⟨hkeep q s o r s' ho hs hperform, ho⟩) hp past
  refine (sound_of_reachable (G := fun q _ _ o _ _ => P q o) (Q := fun _ _ _ => True)
    (fun q hq => hsafe q [] (hbody q hq)) ?_ hstart h).1
  exact fun q past s o r s' _ _ ho q' hq' => hsafe q' _ (hfork q o ho q' hq')

end Systems

section Staging

variable {Op : Type} {Res : Op → Type} {σ α β ε : Type}
  (perform : σ → (o : Op) → Res o → σ → Prop)

/-- A run of one process, with the states around each of its own operations.
What others do in between is left open. -/
inductive Path : Proc Op Res α → List (σ × σ) → Proc Op Res α → Prop
  | here (p : Proc Op Res α) : Path p [] p
  | step {o : Op} {k : Res o → Proc Op Res α} {s s' : σ} {r : Res o} {moves : List (σ × σ)}
      {p : Proc Op Res α} (hs : perform s o r s') (rest : Path (k r) moves p) :
      Path (.op o k) ((s, s') :: moves) p

/-- A run of one process alone, as far as it has come. -/
inductive Alone : σ → Proc Op Res α → Proc Op Res α → σ → Prop
  | here (s : σ) (p : Proc Op Res α) : Alone s p p s
  | step {o : Op} {k : Res o → Proc Op Res α} {s s₁ s' : σ} {r : Res o} {p : Proc Op Res α}
      (hs : perform s o r s₁) (rest : Alone s₁ (k r) p s') : Alone s (.op o k) p s'

/-- Every operation keeps within `R`, except one that ends the process with a
result that counts as success. -/
def Staged (R : σ → σ → Prop) (success : α → Prop) : Proc Op Res α → Prop
  | .ret _ => True
  | .op o k => ∀ s r s', perform s o r s' →
      (R s s' ∧ Staged R success (k r)) ∨ ∃ a, k r = .ret a ∧ success a

variable {perform} {R : σ → σ → Prop} {success : α → Prop} {success' : β → Prop}

/-- A run that has not ended in success has kept within `R`. -/
theorem staged_path {p p' : Proc Op Res α} {moves : List (σ × σ)}
    (hp : Staged perform R success p) (h : Path perform p moves p')
    (hfail : ∀ a, p' = .ret a → ¬ success a) : ∀ m ∈ moves, R m.1 m.2 := by
  induction h with
  | here => simp
  | @step o k s s' r moves p' hs rest ih =>
    obtain ⟨hR, hrest⟩ | ⟨a, ha, hsuccess⟩ := hp s r s' hs
    · exact List.forall_mem_cons.mpr ⟨hR, ih hrest hfail⟩
    · rw [ha] at rest
      cases rest
      exact absurd hsuccess (hfail a rfl)

/-- Alone, such a run has kept within `R` as a whole. -/
theorem staged_alone (hrefl : ∀ s, R s s) (htrans : ∀ s₁ s₂ s₃, R s₁ s₂ → R s₂ s₃ → R s₁ s₃)
    {p p' : Proc Op Res α} {s s' : σ} (hp : Staged perform R success p)
    (h : Alone perform s p p' s') (hfail : ∀ a, p' = .ret a → ¬ success a) : R s s' := by
  induction h with
  | here s p => exact hrefl s
  | @step o k s s₁ s' r p hs rest ih =>
    obtain ⟨hR, hrest⟩ | ⟨a, ha, hsuccess⟩ := hp s r s₁ hs
    · exact htrans _ _ _ hR (ih hrest hfail)
    · rw [ha] at rest
      cases rest
      exact absurd hsuccess (hfail a rfl)

theorem staged_bind {p : Proc Op Res α} {f : α → Proc Op Res β} (hp : Staged perform R success p)
    (hsuccess : ∀ a, success a → ∃ b, f a = .ret b ∧ success' b)
    (hf : ∀ a, ¬ success a → Staged perform R success' (f a)) :
    Staged perform R success' (p.bind f) := by
  induction p with
  | ret a =>
    by_cases ha : success a
    · obtain ⟨b, hb, _⟩ := hsuccess a ha
      change Staged perform R success' (f a)
      rw [hb]
      trivial
    · exact hf a ha
  | op o k ih =>
    intro s r s' hs
    obtain ⟨hR, hrest⟩ | ⟨a, ha, hdone⟩ := hp s r s' hs
    · exact .inl ⟨hR, ih r hrest⟩
    · obtain ⟨b, hb, hdone'⟩ := hsuccess a hdone
      refine .inr ⟨b, ?_, hdone'⟩
      change (k r).bind f = .ret b
      rw [ha]
      exact hb

/-- Nothing the process does counts as success yet. -/
abbrev Quiet (perform : σ → (o : Op) → Res o → σ → Prop) (R : σ → σ → Prop)
    (p : Proc Op Res α) : Prop :=
  Staged perform R (fun _ => False) p

theorem quiet_bind {p : Proc Op Res α} {f : α → Proc Op Res β} (hp : Quiet perform R p)
    (hf : ∀ a, Staged perform R success' (f a)) : Staged perform R success' (p.bind f) :=
  staged_bind hp (fun _ h => h.elim) fun a _ => hf a

theorem quiet_call {o : Op} (h : ∀ s r s', perform s o r s' → R s s') :
    Quiet perform R (call o : Proc Op Res (Res o)) :=
  fun s r s' hs => .inl ⟨h s r s' hs, trivial⟩

theorem quiet_andThen {p : Proc Op Res (Except ε α)} {f : α → Proc Op Res (Except ε β)}
    {success' : Except ε β → Prop} (hp : Quiet perform R p)
    (hf : ∀ a, Staged perform R success' (f a)) : Staged perform R success' (p.andThen f) := by
  refine quiet_bind hp fun result => ?_
  cases result with
  | ok a => exact hf a
  | error e => trivial

theorem quiet_collect {f : α → Proc Op Res β} (l : List α) (hf : ∀ a, Quiet perform R (f a)) :
    Quiet perform R (collect f l) := by
  induction l with
  | nil => trivial
  | cons a rest ih => exact quiet_bind (hf a) fun _ => quiet_bind ih fun _ => trivial

/-- The last operation of a process. -/
theorem staged_call {o : Op} {success : Res o → Prop}
    (h : ∀ s r s', perform s o r s' → R s s' ∨ success r) :
    Staged perform R success (call o : Proc Op Res (Res o)) :=
  fun s r s' hs => (h s r s' hs).imp (fun hR => ⟨hR, trivial⟩) fun hr => ⟨r, rfl, hr⟩

/-- Giving up is never a success, and never later than the last operation. -/
theorem staged_within {clock : Op} {stop : Res clock → Bool} {p : Proc Op Res α}
    (hclock : ∀ s r s', perform s clock r s' → R s s') (hp : Staged perform R success p) :
    Staged perform R (fun r => ∃ a, r = some a ∧ success a) (within clock stop p) := by
  induction p with
  | ret a => trivial
  | op o k ih =>
    intro s now s' hnow
    refine .inl ⟨hclock s now s' hnow, ?_⟩
    by_cases hstop : stop now = true
    · simp only [hstop, if_true]
      trivial
    · simp only [hstop]
      intro s₁ r s₂ hs
      obtain ⟨hR, hrest⟩ | ⟨a, ha, hdone⟩ := hp s₁ r s₂ hs
      · exact .inl ⟨hR, ih r hrest⟩
      · refine .inr ⟨some a, ?_, a, rfl, hdone⟩
        change within clock stop (k r) = .ret (some a)
        rw [ha]
        rfl

end Staging

section Lone

variable {Op : Type} {Res : Op → Type} {σ α β ρ : Type}
  {perform : σ → (o : Op) → Res o → σ → Prop} {s s₁ s' : σ}

theorem Alone.trans {p p₁ p' : Proc Op Res α} (h : Alone perform s p p₁ s₁)
    (h' : Alone perform s₁ p₁ p' s') : Alone perform s p p' s' := by
  induction h with
  | here s p => exact h'
  | step hs _ ih => exact .step hs (ih h')

theorem Alone.mono {perform' : σ → (o : Op) → Res o → σ → Prop}
    (hmono : ∀ s o r s', perform s o r s' → perform' s o r s') {p p' : Proc Op Res α}
    (h : Alone perform s p p' s') : Alone perform' s p p' s' := by
  induction h with
  | here s p => exact .here s p
  | step hs _ ih => exact .step (hmono _ _ _ _ hs) ih

/-- What is to come later does not matter to what is done now. -/
theorem Alone.under {p p' : Proc Op Res α} (h : Alone perform s p p' s')
    (f : α → Proc Op Res β) : Alone perform s (p.bind f) (p'.bind f) s' := by
  induction h with
  | here s p => exact .here s _
  | step hs _ ih => exact .step hs ih

theorem Exec.alone {p : Proc Op Res α} {a : α} (h : Exec perform s p a s') :
    Alone perform s p (.ret a) s' := by
  induction h with
  | ret s a => exact .here s _
  | op hs _ ih => exact .step hs ih

/-- A part is done, and the rest has come so far. -/
theorem Exec.then_alone {p : Proc Op Res α} {f : α → Proc Op Res β} {p' : Proc Op Res β} {a : α}
    (h : Exec perform s p a s₁) (h' : Alone perform s₁ (f a) p' s') :
    Alone perform s (p.bind f) p' s' :=
  (h.alone.under f).trans h'

/-- A request that runs alone and forks nothing is a run of its system. -/
theorem reachable_alone {S : System Op Res σ ρ} {start : Config S → Prop} {q : ρ}
    {p p' : Proc Op Res (S.Reply q)} {past : List (Event Op Res)} {ts : List (Thread S)}
    (h : Alone (fun s o r s' => S.forks o = [] ∧ S.perform s o r s') s p p' s')
    (hr : Reachable start Step ⟨s, ⟨q, p, past⟩ :: ts⟩) :
    ∃ past', Reachable start Step ⟨s', ⟨q, p', past'⟩ :: ts⟩ := by
  induction h generalizing past with
  | here s p => exact ⟨past, hr⟩
  | @step o k s s₁ s' r p' hs _ ih =>
    refine @ih (⟨o, r⟩ :: past) ?_
    have hstep : Step (⟨s, [] ++ ⟨q, .op o k, past⟩ :: ts⟩ : Config S) _ :=
      .act s s₁ [] ts ⟨q, .op o k, past⟩ o k r rfl hs.2
    have hchildren : (⟨q, .op o k, past⟩ : Thread S).children o r = [] := by
      rw [Thread.children, hs.1]
      rfl
    rw [hchildren, List.append_nil] at hstep
    exact reachable_step hr hstep

end Lone

end Pccs.Process
