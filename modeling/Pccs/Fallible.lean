import Std

/-!
# Computations that may fail

Inversion of a successful run: a sequence succeeds through the success of each
of its steps, and mapping or folding a fallible step over a list succeeds
through its success at every element.
-/
namespace Pccs.Fallible

variable {ε α β γ : Type}

theorem bind_eq_ok {x : Except ε α} {f : α → Except ε β} {b : β} :
    (x >>= f) = .ok b ↔ ∃ a, x = .ok a ∧ f a = .ok b := by
  cases x with
  | error e => simp [bind, Except.bind]
  | ok a => simp [bind, Except.bind]

theorem ok_bind (a : α) (f : α → Except ε β) : (Except.ok a >>= f) = f a := rfl

theorem pure_eq_ok {a b : α} : (pure a : Except ε α) = .ok b ↔ a = b := by
  simp [pure, Except.pure]

theorem error_ne_ok {e : ε} {a : α} : (Except.error e : Except ε α) ≠ .ok a := by
  intro h; cases h

/-- Stop with an error if a condition holds. -/
def reject (p : Prop) [Decidable p] (e : ε) : Except ε Unit := if p then .error e else .ok ()

/-- `ok_or`. -/
def require (v : Option α) (e : ε) : Except ε α :=
  match v with
  | some a => .ok a
  | none => .error e

theorem reject_eq_ok {p : Prop} [Decidable p] {e : ε} {u : Unit} :
    reject p e = .ok u ↔ ¬ p := by
  by_cases hp : p
  · simp [reject, hp]
  · simp [reject, hp]

theorem require_eq_ok {v : Option α} {e : ε} {a : α} : require v e = .ok a ↔ v = some a := by
  cases v with
  | none => simp [require]
  | some b => simp [require]

theorem mapM_cons_eq_ok {f : α → Except ε β} {a : α} {l : List α} {out : List β} :
    (a :: l).mapM f = .ok out ↔ ∃ b rest, f a = .ok b ∧ l.mapM f = .ok rest ∧ out = b :: rest := by
  rw [List.mapM_cons, bind_eq_ok]
  constructor
  · rintro ⟨b, hb, h⟩
    obtain ⟨rest, hrest, h⟩ := bind_eq_ok.mp h
    exact ⟨b, rest, hb, hrest, (pure_eq_ok.mp h).symm⟩
  · rintro ⟨b, rest, hb, hrest, rfl⟩
    exact ⟨b, hb, bind_eq_ok.mpr ⟨rest, hrest, rfl⟩⟩

/-- Every element was mapped. -/
theorem exists_of_mem_mapM {f : α → Except ε β} {l : List α} {out : List β}
    (h : l.mapM f = .ok out) : ∀ a ∈ l, ∃ b ∈ out, f a = .ok b := by
  induction l generalizing out with
  | nil => simp
  | cons a l ih =>
    obtain ⟨b, rest, hb, hrest, rfl⟩ := mapM_cons_eq_ok.mp h
    intro a' ha'
    rcases List.mem_cons.mp ha' with rfl | ha'
    · exact ⟨b, by simp, hb⟩
    · obtain ⟨b', hb', hf⟩ := ih hrest a' ha'
      exact ⟨b', by simp [hb'], hf⟩

theorem exists_of_mem_option {f : α → Option β} {l : List α} {out : List β}
    (h : l.mapM f = some out) : ∀ b ∈ out, ∃ a ∈ l, f a = some b := by
  induction l generalizing out with
  | nil =>
    cases h
    simp
  | cons a l ih =>
    rw [List.mapM_cons] at h
    obtain ⟨b, hb, h⟩ := Option.bind_eq_some_iff.mp h
    obtain ⟨bs, hbs, h⟩ := Option.bind_eq_some_iff.mp h
    cases h
    refine List.forall_mem_cons.mpr ⟨⟨a, by simp, hb⟩, fun b' hb' => ?_⟩
    obtain ⟨a', ha', hfa⟩ := ih hbs b' hb'
    exact ⟨a', List.mem_cons_of_mem _ ha', hfa⟩

/-- Mapping succeeds exactly if the step does at every element. -/
theorem mapM_ok_iff {f : α → Except ε β} {l : List α} :
    (∃ out, l.mapM f = .ok out) ↔ ∀ a ∈ l, ∃ b, f a = .ok b := by
  constructor
  · rintro ⟨out, h⟩ a ha
    obtain ⟨b, _, hb⟩ := exists_of_mem_mapM h a ha
    exact ⟨b, hb⟩
  · intro h
    induction l with
    | nil => exact ⟨[], rfl⟩
    | cons a l ih =>
      obtain ⟨b, hb⟩ := h a (by simp)
      obtain ⟨rest, hrest⟩ := ih fun a' ha' => h a' (by simp [ha'])
      exact ⟨b :: rest, mapM_cons_eq_ok.mpr ⟨b, rest, hb, hrest, rfl⟩⟩

/-- Mapping a step that succeeds everywhere is mapping its results. -/
theorem mapM_eq_map {f : α → Except ε β} {g : α → β} {l : List α}
    (h : ∀ a ∈ l, f a = .ok (g a)) : l.mapM f = .ok (l.map g) := by
  induction l with
  | nil => rfl
  | cons a l ih =>
    obtain ⟨ha, hl⟩ := List.forall_mem_cons.mp h
    exact mapM_cons_eq_ok.mpr ⟨g a, l.map g, ha, ih hl, rfl⟩

/-- A search with a step that succeeds everywhere is the search of its results. -/
theorem findSomeM_eq_findSome {f : α → Except ε (Option β)} {g : α → Option β} {l : List α}
    (h : ∀ a ∈ l, f a = .ok (g a)) : l.findSomeM? f = .ok (l.findSome? g) := by
  induction l with
  | nil => rfl
  | cons a l ih =>
    obtain ⟨ha, hl⟩ := List.forall_mem_cons.mp h
    rw [List.findSomeM?_cons, ha, ok_bind, List.findSome?_cons]
    cases g a with
    | none => exact ih hl
    | some b => rfl

/-- Every result comes from an element. -/
theorem exists_of_mem_result {f : α → Except ε β} {l : List α} {out : List β}
    (h : l.mapM f = .ok out) : ∀ b ∈ out, ∃ a ∈ l, f a = .ok b := by
  induction l generalizing out with
  | nil => cases h; simp
  | cons a l ih =>
    obtain ⟨b, rest, hb, hrest, rfl⟩ := mapM_cons_eq_ok.mp h
    intro b' hb'
    rcases List.mem_cons.mp hb' with rfl | hb'
    · exact ⟨a, by simp, hb⟩
    · obtain ⟨a', ha', hf⟩ := ih hrest b' hb'
      exact ⟨a', by simp [ha'], hf⟩

/-- Results stand where their inputs stood. -/
theorem mapM_getElem? {f : α → Except ε β} {l : List α} {out : List β} (h : l.mapM f = .ok out)
    (i : Nat) : (∀ a, l[i]? = some a → ∃ b, out[i]? = some b ∧ f a = .ok b) ∧
      ∀ b, out[i]? = some b → ∃ a, l[i]? = some a ∧ f a = .ok b := by
  induction l generalizing out i with
  | nil =>
    cases pure_eq_ok.mp h
    simp
  | cons x l ih =>
    obtain ⟨y, rest, hy, hrest, rfl⟩ := mapM_cons_eq_ok.mp h
    cases i with
    | zero => simpa using hy
    | succ i => simpa using ih hrest i

/-- Mapping the elements in another order gives the results in that order. -/
theorem mapM_perm {f : α → Except ε β} {l l' : List α} {out : List β}
    (hperm : l.Perm l') (h : l.mapM f = .ok out) : ∃ out', l'.mapM f = .ok out' ∧ out.Perm out' := by
  induction hperm generalizing out with
  | nil => exact ⟨out, h, .refl _⟩
  | cons a _ ih =>
    obtain ⟨b, rest, hb, hrest, rfl⟩ := mapM_cons_eq_ok.mp h
    obtain ⟨rest', hrest', hp⟩ := ih hrest
    exact ⟨b :: rest', mapM_cons_eq_ok.mpr ⟨b, rest', hb, hrest', rfl⟩, hp.cons b⟩
  | swap a b l =>
    obtain ⟨x, rest, hx, hrest, rfl⟩ := mapM_cons_eq_ok.mp h
    obtain ⟨y, rest', hy, hrest', rfl⟩ := mapM_cons_eq_ok.mp hrest
    exact ⟨y :: x :: rest', mapM_cons_eq_ok.mpr ⟨y, x :: rest', hy,
      mapM_cons_eq_ok.mpr ⟨x, rest', hx, hrest', rfl⟩, rfl⟩, .swap y x rest'⟩
  | trans _ _ ih ih' =>
    obtain ⟨mid, hmid, hp⟩ := ih h
    obtain ⟨out', hout', hp'⟩ := ih' hmid
    exact ⟨out', hout', hp.trans hp'⟩

/-- Mapping a step whose results name their inputs gives the inputs back. -/
theorem map_of_mapM {f : α → Except ε β} {g : β → α} {l : List α} {out : List β}
    (hg : ∀ a ∈ l, ∀ b, f a = .ok b → g b = a) (h : l.mapM f = .ok out) : out.map g = l := by
  induction l generalizing out with
  | nil => cases h; rfl
  | cons a l ih =>
    obtain ⟨b, rest, hb, hrest, rfl⟩ := mapM_cons_eq_ok.mp h
    rw [List.map_cons, hg a (by simp) b hb, ih (fun a' ha' => hg a' (by simp [ha'])) hrest]

/-- A loop of checks passes through the success of each. -/
theorem forM_eq_ok {f : α → Except ε Unit} {l : List α} {u : Unit} :
    l.forM f = .ok u ↔ ∀ a ∈ l, f a = .ok () := by
  induction l with
  | nil => exact ⟨fun _ => by simp, fun _ => rfl⟩
  | cons a l ih =>
    change (f a >>= fun _ => l.forM f) = .ok u ↔ _
    rw [bind_eq_ok, List.forall_mem_cons]
    constructor
    · rintro ⟨_, ha, hl⟩
      exact ⟨ha, ih.mp hl⟩
    · rintro ⟨ha, hl⟩
      exact ⟨(), ha, ih.mpr hl⟩

/-- What a fallible fold starts with and each step keeps holds at its end. -/
theorem foldlM_inv {P : β → Prop} {f : β → α → Except ε β} {l : List α} {b out : β}
    (h₀ : P b) (hstep : ∀ b a b', P b → f b a = .ok b' → P b') (h : l.foldlM f b = .ok out) :
    P out := by
  induction l generalizing b with
  | nil =>
    cases pure_eq_ok.mp h
    exact h₀
  | cons a l ih =>
    rw [List.foldlM_cons] at h
    obtain ⟨b', hb', h⟩ := bind_eq_ok.mp h
    exact ih (hstep b a b' h₀ hb') h

/-- As `foldlM_inv`, for what holds of the elements already folded. -/
theorem foldlM_prefix {P : List α → β → Prop} {f : β → α → Except ε β} {l : List α} {b out : β}
    (h₀ : P [] b) (hstep : ∀ done b a b', P done b → f b a = .ok b' → P (done ++ [a]) b')
    (h : l.foldlM f b = .ok out) : P l out := by
  have key : ∀ (l done : List α) (b : β), P done b → l.foldlM f b = .ok out → P (done ++ l) out := by
    intro l
    induction l with
    | nil =>
      intro done b hb h
      cases pure_eq_ok.mp h
      rwa [List.append_nil]
    | cons a l ih =>
      intro done b hb h
      rw [List.foldlM_cons] at h
      obtain ⟨b', hb', h⟩ := bind_eq_ok.mp h
      have hdone := ih (done ++ [a]) b' (hstep done b a b' hb hb') h
      rwa [List.append_assoc, List.singleton_append] at hdone
  exact key l [] b h₀ h

theorem toOption_eq_some {x : Except ε α} {a : α} : x.toOption = some a ↔ x = .ok a := by
  cases x with
  | error e => simp [Except.toOption]
  | ok b => simp [Except.toOption]

theorem mapError_eq_ok {δ : Type} {x : Except ε α} {f : ε → δ} {a : α} :
    x.mapError f = .ok a ↔ x = .ok a := by
  cases x with
  | error e => simp [Except.mapError]
  | ok b => simp [Except.mapError]

theorem mapError_bind {δ : Type} (x : Except ε α) (f : α → Except ε β) (h : ε → δ) :
    (x >>= f).mapError h = x.mapError h >>= fun a => (f a).mapError h := by
  cases x with
  | error e => rfl
  | ok a => rfl

theorem foldlM_mapError {δ : Type} {f : β → α → Except δ β} {g : β → α → Except ε β} {h : ε → δ}
    {l : List α} (hfg : ∀ b, ∀ a ∈ l, f b a = (g b a).mapError h) (b : β) :
    l.foldlM f b = (l.foldlM g b).mapError h := by
  induction l generalizing b with
  | nil => rfl
  | cons a l ih =>
    rw [List.foldlM_cons, List.foldlM_cons, hfg b a (by simp), mapError_bind]
    congr 1
    funext b'
    exact ih (fun b a ha => hfg b a (by simp [ha])) b'

section Errors

/-- A computation that can fail in one way only. -/
def FailsWith (e : ε) (x : Except ε α) : Prop := ∀ e', x = .error e' → e' = e

variable {e : ε}

theorem failsWith_ok {a : α} : FailsWith e (.ok a : Except ε α) := by
  intro e' h
  cases h

theorem failsWith_error : FailsWith e (.error e : Except ε α) := by
  intro e' h
  cases h
  rfl

theorem failsWith_reject {p : Prop} [Decidable p] : FailsWith e (reject p e) := by
  unfold reject
  split
  · exact failsWith_error
  · exact failsWith_ok

theorem failsWith_require {v : Option α} : FailsWith e (require v e) := by
  cases v with
  | none => exact failsWith_error
  | some a => exact failsWith_ok

theorem FailsWith.bind {x : Except ε α} {f : α → Except ε β} (hx : FailsWith e x)
    (hf : ∀ a, FailsWith e (f a)) : FailsWith e (x >>= f) := by
  cases x with
  | error e' =>
    obtain rfl := hx e' rfl
    exact failsWith_error
  | ok a => exact hf a

theorem failsWith_foldlM {f : β → α → Except ε β} (hf : ∀ b a, FailsWith e (f b a))
    (l : List α) (b : β) : FailsWith e (l.foldlM f b) := by
  induction l generalizing b with
  | nil => exact failsWith_ok
  | cons a l ih =>
    rw [List.foldlM_cons]
    exact (hf b a).bind fun b' => ih b'

/-- Two computations with one way to fail agree if they succeed together. -/
theorem FailsWith.eq_of_ok_iff {x y : Except ε α} (hx : FailsWith e x) (hy : FailsWith e y)
    (h : ∀ a, x = .ok a ↔ y = .ok a) : x = y := by
  cases x with
  | ok a => exact ((h a).mp rfl).symm
  | error e' =>
    cases y with
    | ok a => exact absurd ((h a).mpr rfl) error_ne_ok
    | error e'' => rw [hx e' rfl, hy e'' rfl]

end Errors

end Pccs.Fallible
