import Std
import Mathlib.Algebra.Order.Ring.Int

/-!
# Big-endian numerals

A number written in a fixed count of base-256 digits, most significant first.
Below the capacity of the numeral the digits name the number, and the word
order of two numerals of one width is the order of the numbers.
-/
namespace Pccs.BigEndian

open Std

/-- `to_be_bytes` of a number of `width` bytes. -/
def toBeBytes : Nat → Nat → List UInt8
  | 0, _ => []
  | width + 1, n => UInt8.ofNat (n / 256 ^ width) :: toBeBytes width (n % 256 ^ width)

theorem length_toBeBytes (width n : Nat) : (toBeBytes width n).length = width := by
  induction width generalizing n with
  | zero => rfl
  | succ width ih => simp [toBeBytes, ih]

/-- The leading digit of a number within capacity. -/
theorem digit_lt {width n : Nat} (h : n < 256 ^ (width + 1)) : n / 256 ^ width < 256 := by
  apply Nat.div_lt_of_lt_mul
  rw [Nat.pow_succ] at h
  exact h

theorem ofNat_inj {m n : Nat} (hm : m < 256) (hn : n < 256)
    (h : UInt8.ofNat m = UInt8.ofNat n) : m = n := by
  have h := congrArg UInt8.toNat h
  rw [UInt8.toNat_ofNat', UInt8.toNat_ofNat'] at h
  omega

theorem toBeBytes_inj {width m n : Nat} (hm : m < 256 ^ width) (hn : n < 256 ^ width)
    (h : toBeBytes width m = toBeBytes width n) : m = n := by
  induction width generalizing m n with
  | zero => omega
  | succ width ih =>
    obtain ⟨hdigit, hrest⟩ := List.cons.inj h
    have hpos : 0 < 256 ^ width := Nat.pow_pos (by omega)
    have hdigit := ofNat_inj (digit_lt hm) (digit_lt hn) hdigit
    have hrest := ih (Nat.mod_lt m hpos) (Nat.mod_lt n hpos) hrest
    rw [← Nat.div_add_mod m (256 ^ width), ← Nat.div_add_mod n (256 ^ width), hdigit, hrest]

/-- Keys that start with a numeral are ordered by it first. -/
theorem le_of_compare_lt {width m n : Nat} (hm : m < 256 ^ width) (hn : n < 256 ^ width)
    {a b : List UInt8}
    (h : compare (toBeBytes width m ++ a) (toBeBytes width n ++ b) = .lt) : m ≤ n := by
  induction width generalizing m n with
  | zero => omega
  | succ width ih =>
    have hpos : 0 < 256 ^ width := Nat.pow_pos (by omega)
    have hm' := digit_lt hm
    have hn' := digit_lt hn
    rw [toBeBytes, toBeBytes, List.cons_append, List.cons_append, List.compare_cons_cons] at h
    have hsplit := Nat.div_add_mod m (256 ^ width)
    have hsplit' := Nat.div_add_mod n (256 ^ width)
    have hlast := Nat.mod_lt m hpos
    cases hdigit : compare (UInt8.ofNat (m / 256 ^ width)) (UInt8.ofNat (n / 256 ^ width)) with
    | lt =>
      have hlt := UInt8.lt_iff_toNat_lt.mp (compare_eq_lt.mp hdigit)
      rw [UInt8.toNat_ofNat', UInt8.toNat_ofNat', Nat.mod_eq_of_lt hm', Nat.mod_eq_of_lt hn'] at hlt
      have hmul : 256 ^ width * (m / 256 ^ width + 1) ≤ 256 ^ width * (n / 256 ^ width) :=
        Nat.mul_le_mul_left _ hlt
      rw [Nat.mul_add] at hmul
      omega
    | eq =>
      rw [hdigit] at h
      have heq := ofNat_inj hm' hn' (LawfulEqOrd.eq_of_compare hdigit)
      have hle := ih (Nat.mod_lt m hpos) (Nat.mod_lt n hpos) h
      rw [heq] at hsplit
      omega
    | gt => rw [hdigit] at h; cases h

end Pccs.BigEndian
