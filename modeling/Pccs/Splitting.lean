import Pccs.Paths

/-!
# Splitting and joining text

Splitting at every separator is the inverse of joining with it, on parts that
hold no separator; splitting at the first one finds the first part.
-/
namespace Pccs.Paths

variable {c : Char} {s a b : List Char}

section Once

theorem splitOnce_append (ha : c ∉ a) : splitOnce c (a ++ c :: b) = some (a, b) := by
  have hne : ∀ x ∈ a, decide (x ≠ c) = true := by
    intro x hx
    simp only [ne_eq, decide_not, Bool.not_eq_true', decide_eq_false_iff_not]
    rintro rfl
    exact ha hx
  rw [splitOnce, if_pos (by simp), List.takeWhile_append_of_pos hne, List.dropWhile_append_of_pos hne]
  simp

theorem splitOnce_of_not_mem (h : c ∉ s) : splitOnce c s = none := if_neg h

theorem splitOnce_eq_none : splitOnce c s = none ↔ c ∉ s := by
  unfold splitOnce
  split
  · simpa
  · simpa

theorem splitOnce_eq_some : splitOnce c s = some (a, b) ↔ s = a ++ c :: b ∧ c ∉ a := by
  constructor
  · intro h
    have hmem : c ∈ s := by
      by_contra hno
      rw [splitOnce_of_not_mem hno] at h
      cases h
    obtain ⟨a', b', rfl, ha'⟩ := List.eq_append_cons_of_mem hmem
    rw [splitOnce_append ha'] at h
    cases h
    exact ⟨rfl, ha'⟩
  · rintro ⟨rfl, ha⟩
    exact splitOnce_append ha

end Once

section Every

theorem split_ne_nil (s : List Char) : split c s ≠ [] := by
  cases s with
  | nil => simp [split]
  | cons x s =>
    unfold split
    split
    · simp
    · split
      · simp
      · simp

theorem split_of_not_mem (h : c ∉ s) : split c s = [s] := by
  induction s with
  | nil => rfl
  | cons x s ih =>
    simp only [List.mem_cons, not_or] at h
    rw [split, if_neg (Ne.symm h.1), ih h.2]

theorem split_append_cons (ha : c ∉ a) : split c (a ++ c :: b) = a :: split c b := by
  induction a with
  | nil => rw [List.nil_append, split, if_pos rfl]
  | cons x a ih =>
    simp only [List.mem_cons, not_or] at ha
    rw [List.cons_append, split, if_neg (Ne.symm ha.1), ih ha.2]

/-- Joined again, the parts are the text. -/
theorem intercalate_split (s : List Char) : [c].intercalate (split c s) = s := by
  induction s with
  | nil => rfl
  | cons x s ih =>
    unfold split
    split
    · rename_i hx
      obtain ⟨first, others, heq⟩ := List.exists_cons_of_ne_nil (split_ne_nil (c := c) s)
      rw [heq] at ih ⊢
      rw [List.intercalate_cons_cons, ih, hx]
      rfl
    · split
      · rename_i hnil
        exact absurd hnil (split_ne_nil s)
      · rename_i first others heq
        rw [heq] at ih
        cases others with
        | nil =>
          simp only [List.intercalate_singleton] at ih ⊢
          rw [ih]
        | cons second others =>
          rw [List.intercalate_cons_cons] at ih ⊢
          rw [← ih]
          rfl

theorem mem_intercalate {parts : List (List Char)} {x : Char}
    (h : x ∈ [c].intercalate parts) : x = c ∨ ∃ part ∈ parts, x ∈ part := by
  induction parts with
  | nil => simp at h
  | cons first parts ih =>
    cases parts with
    | nil => exact .inr ⟨first, by simp, by simpa using h⟩
    | cons second parts =>
      rw [List.intercalate_cons_cons, List.append_assoc, List.mem_append, List.mem_append,
        List.mem_singleton] at h
      rcases h with h | h | h
      · exact .inr ⟨first, by simp, h⟩
      · exact .inl h
      · rcases ih h with h | ⟨part, hpart, h⟩
        · exact .inl h
        · exact .inr ⟨part, by simp [hpart], h⟩

theorem split_intercalate {parts : List (List Char)} (hne : parts ≠ [])
    (h : ∀ part ∈ parts, c ∉ part) : split c ([c].intercalate parts) = parts := by
  induction parts with
  | nil => exact absurd rfl hne
  | cons first parts ih =>
    obtain ⟨hfirst, hparts⟩ := List.forall_mem_cons.mp h
    cases parts with
    | nil => rw [List.intercalate_singleton, split_of_not_mem hfirst]
    | cons second parts =>
      rw [List.intercalate_cons_cons, List.append_assoc, List.singleton_append,
        split_append_cons hfirst, ih (by simp) hparts]

end Every

end Pccs.Paths
