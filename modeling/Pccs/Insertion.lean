import Mathlib.Data.List.Chain

/-!
# Insertion under a partial comparison

Elements are inserted one after the other at a place where the comparison with
the two neighbours allows it. Without transitivity nothing is known but the
neighbours, and that survives every insertion; with it the whole list is sorted
and elements of one rank keep their order.
-/
namespace Pccs.Insertion

variable {α : Type} {above : α → α → Prop}

/-- No element is above the one before it. -/
def Falls (above : α → α → Prop) (l : List α) : Prop := l.IsChain fun x y => ¬ above y x

/-- A place for `p`: not above its left neighbour, above its right one. -/
structure Slot (above : α → α → Prop) (p : α) (l : List α) (k : Nat) : Prop where
  within : k ≤ l.length
  before : ∀ x ∈ (l.take k).getLast?, ¬ above p x
  after : ∀ x ∈ (l.drop k).head?, above p x

theorem insertIdx_eq {p : α} {l : List α} {k : Nat} (h : k ≤ l.length) :
    l.insertIdx k p = l.take k ++ p :: l.drop k := by
  induction k generalizing l with
  | zero => simp
  | succ k ih =>
    cases l with
    | nil => simp at h
    | cons a l =>
      rw [List.insertIdx_succ_cons, ih (by simpa using h)]
      rfl

section Neighbours

/-- Two elements are not above each other. -/
def Asymmetric (above : α → α → Prop) : Prop := ∀ x y, above x y → ¬ above y x

theorem falls_insertIdx (hasymm : Asymmetric above) {p : α} {l : List α} {k : Nat}
    (hl : Falls above l) (hs : Slot above p l k) : Falls above (l.insertIdx k p) := by
  rw [insertIdx_eq hs.within]
  rw [← List.take_append_drop k l] at hl
  obtain ⟨hfront, hback, -⟩ := List.isChain_append.mp hl
  refine List.isChain_append.mpr ⟨hfront, ?_, fun x hx y hy => ?_⟩
  · refine List.isChain_cons.mpr ⟨fun y hy => ?_, hback⟩
    exact hasymm p y (hs.after y hy)
  · obtain rfl : p = y := by simpa using hy
    exact hs.before x hx

/-- A rising run falls when it is read backwards. -/
theorem falls_reverse (hasymm : Asymmetric above) {l : List α}
    (h : l.IsChain fun x y => above y x) : Falls above l.reverse := by
  refine List.isChain_reverse.mpr (h.imp fun x y hyx => ?_)
  exact hasymm y x hyx

end Neighbours

section Ranks

/-- Among these elements "not above" is transitive. -/
def Ranked (above : α → α → Prop) (l : List α) : Prop :=
  ∀ x ∈ l, ∀ y ∈ l, ∀ z ∈ l, ¬ above y x → ¬ above z y → ¬ above z x

theorem Ranked.mono {l m : List α} (h : Ranked above m) (hsub : ∀ x ∈ l, x ∈ m) : Ranked above l :=
  fun x hx y hy z hz => h x (hsub x hx) y (hsub y hy) z (hsub z hz)

/-- On ranked elements the neighbours decide the whole order. -/
theorem pairwise_of_falls {l : List α} (hrank : Ranked above l) (h : Falls above l) :
    l.Pairwise fun x y => ¬ above y x := by
  induction l with
  | nil => exact .nil
  | cons x l ih =>
    have hl := ih (hrank.mono fun y hy => List.mem_cons_of_mem x hy) (List.isChain_cons.mp h).2
    refine List.pairwise_cons.mpr ⟨fun y hy => ?_, hl⟩
    cases l with
    | nil => cases hy
    | cons z l =>
      have hzx := (List.isChain_cons.mp h).1 z rfl
      rcases List.mem_cons.mp hy with rfl | hy'
      · exact hzx
      · exact hrank x (by simp) z (by simp) y (by simp [hy']) hzx ((List.pairwise_cons.mp hl).1 y hy')

theorem pairwise_of_rises (hasymm : Asymmetric above) {l : List α} (hrank : Ranked above l)
    (h : l.IsChain fun x y => above y x) : l.Pairwise fun x y => above y x := by
  induction l with
  | nil => exact .nil
  | cons x l ih =>
    have hl := ih (hrank.mono fun y hy => List.mem_cons_of_mem x hy) (List.isChain_cons.mp h).2
    refine List.pairwise_cons.mpr ⟨fun y hy => ?_, hl⟩
    cases l with
    | nil => cases hy
    | cons z l =>
      have hzx := (List.isChain_cons.mp h).1 z rfl
      rcases List.mem_cons.mp hy with rfl | hy'
      · exact hzx
      · have hyz := (List.pairwise_cons.mp hl).1 y hy'
        by_contra hno
        exact hrank z (by simp) x (by simp) y (by simp [hy']) (hasymm z x hzx) hno hyz

variable {p : α} {l : List α} {k : Nat}

/-- In a sorted list a slot is below everything on its right. -/
theorem Slot.above_right (hs : Slot above p l k) (hrank : Ranked above (p :: l))
    (hl : l.Pairwise fun x y => ¬ above y x) : ∀ x ∈ l.drop k, above p x := by
  intro x hx
  have hsub : ∀ y ∈ l.drop k, y ∈ p :: l := fun y hy => List.mem_cons_of_mem p (List.mem_of_mem_drop hy)
  have hsorted := hl.drop (i := k)
  cases hd : l.drop k with
  | nil => simp [hd] at hx
  | cons z rest =>
    have hz := hs.after z (by simp [hd])
    rw [hd] at hx hsub hsorted
    rcases List.mem_cons.mp hx with rfl | hx'
    · exact hz
    · by_contra hno
      have hxz := (List.pairwise_cons.mp hsorted).1 x hx'
      exact hrank z (hsub z (by simp)) x (hsub x hx) p (by simp) hxz hno hz

/-- Elements of one rank, by a test. -/
def OneRank (above : α → α → Prop) (q : α → Bool) (l : List α) : Prop :=
  ∀ x ∈ l, ∀ y ∈ l, q x = true → q y = true → ¬ above x y

/-- The inserted element goes behind all of its rank. -/
theorem filter_insertIdx {q : α → Bool} (hs : Slot above p l k) (hrank : Ranked above (p :: l))
    (hl : l.Pairwise fun x y => ¬ above y x) (hq : OneRank above q (p :: l)) :
    (l.insertIdx k p).filter q = l.filter q ++ [p].filter q := by
  have hright := hs.above_right hrank hl
  rw [insertIdx_eq hs.within, List.filter_append]
  conv => rhs; rw [← List.take_append_drop k l, List.filter_append]
  by_cases hp : q p = true
  · have hnone : (l.drop k).filter q = [] := by
      refine List.filter_eq_nil_iff.mpr fun x hx hqx => ?_
      exact hq p (by simp) x (by simp [List.mem_of_mem_drop hx]) hp hqx (hright x hx)
    simp [hp, hnone]
  · simp [hp]

/-- A strictly rising run has at most one element of each rank. -/
theorem filter_reverse {q : α → Bool} (h : l.Pairwise fun x y => above y x)
    (hq : OneRank above q l) : l.reverse.filter q = l.filter q := by
  induction l with
  | nil => rfl
  | cons x l ih =>
    obtain ⟨hrise, hl⟩ := List.pairwise_cons.mp h
    have hq' : OneRank above q l := fun y hy z hz =>
      hq y (List.mem_cons_of_mem x hy) z (List.mem_cons_of_mem x hz)
    rw [List.reverse_cons, List.filter_append, ih hl hq']
    by_cases hx : q x = true
    · have hnone : l.filter q = [] := by
        refine List.filter_eq_nil_iff.mpr fun y hy hqy => ?_
        exact hq y (by simp [hy]) x (by simp) hqy hx (hrise y hy)
      simp [hx, hnone]
    · simp [hx]

end Ranks

end Pccs.Insertion
