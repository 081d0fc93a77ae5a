import Pccs.Encoding

/-!
# Checked access

Indexing and slicing that can fail: `none` is the place where the program would
stop with a bounds error. A string is sliced at byte offsets, and both ends have
to lie between two characters. Numbers are read in a type of a given width.
-/
namespace Pccs.Checked

open Encoding

variable {α : Type}

/-- `&xs[start..stop]`. -/
def slice (xs : List α) (start stop : Nat) : Option (List α) :=
  if start ≤ stop ∧ stop ≤ xs.length then some ((xs.take stop).drop start) else none

/-- `str::is_char_boundary`. -/
def charBoundary (bytes : List UInt8) (i : Nat) : Bool :=
  if i = 0 then true
  else
    match bytes[i]? with
    | some b => !isCont b
    | none => i == bytes.length

/-- `&s[start..stop]` on the bytes of a string. -/
def strSlice (bytes : List UInt8) (start stop : Nat) : Option (List UInt8) :=
  if charBoundary bytes start && charBoundary bytes stop then slice bytes start stop else none

/-- The digits of `from_str_radix` with radix 16, most significant first. -/
def radixDigits (bits : Nat) : Nat → List UInt8 → Option Nat
  | acc, [] => some acc
  | acc, d :: rest => do
    let value ← hexValue d
    let next := acc * 16 + value.toNat
    if next < 2 ^ bits then radixDigits bits next rest else none

/-- `from_str_radix(src, 16)` of an unsigned type. One leading `+` is part of the
grammar. -/
def fromStrRadix (bits : Nat) : List UInt8 → Option Nat
  | [] => none
  | [43] => none
  | [45] => none
  | 43 :: digits => radixDigits bits 0 digits
  | src => radixDigits bits 0 src

theorem slice_two {xs : List α} {i : Nat} (h : i + 1 < xs.length) :
    slice xs i (i + 2) = some [xs[i], xs[i + 1]] := by
  rw [slice, if_pos (by omega)]
  congr 1
  apply List.ext_getElem
  · simp only [List.length_drop, List.length_take, List.length_cons, List.length_nil]
    omega
  · intro n h₁ h₂
    simp only [List.length_cons, List.length_nil] at h₂
    have hn : n = 0 ∨ n = 1 := by omega
    rcases hn with rfl | rfl
    · simp
    · simp

section Radix

theorem hexValue_lt {b v : UInt8} (h : hexValue b = some v) : v.toNat < 16 := by
  unfold hexValue at h
  split at h
  · have := Option.some.inj h
    rw [← this, UInt8.toNat_sub]
    simp only [UInt8.le_iff_toNat_le, UInt8.reduceToNat] at *
    omega
  split at h
  · have := Option.some.inj h
    rw [← this, UInt8.toNat_sub]
    simp only [UInt8.le_iff_toNat_le, UInt8.reduceToNat] at *
    omega
  split at h
  · have := Option.some.inj h
    rw [← this, UInt8.toNat_sub]
    simp only [UInt8.le_iff_toNat_le, UInt8.reduceToNat] at *
    omega
  · cases h

/-- The number a text of hex digits stands for. -/
def hexNumber (digits : List UInt8) : Nat :=
  digits.foldl (fun n d => n * 16 + ((hexValue d).getD 0).toNat) 0

theorem hexNumber_append (digits : List UInt8) (d : UInt8) :
    hexNumber (digits ++ [d]) = hexNumber digits * 16 + ((hexValue d).getD 0).toNat := by
  rw [hexNumber, List.foldl_append]
  rfl

/-- Digits that fit the type are read whatever the type is. -/
theorem radixDigits_of_fits {bits : Nat} {pre digits : List UInt8}
    (hhex : ∀ d ∈ digits, (hexValue d).isSome = true)
    (hfits : 16 ^ (pre.length + digits.length) ≤ 2 ^ bits)
    (hpre : hexNumber pre < 16 ^ pre.length) :
    radixDigits bits (hexNumber pre) digits = some (hexNumber (pre ++ digits)) := by
  induction digits generalizing pre with
  | nil => rw [radixDigits, List.append_nil]
  | cons d digits ih =>
    obtain ⟨hd, hdigits⟩ := List.forall_mem_cons.mp hhex
    obtain ⟨v, hv⟩ := Option.isSome_iff_exists.mp hd
    have hlt := hexValue_lt hv
    have hnext : hexNumber pre * 16 + v.toNat = hexNumber (pre ++ [d]) := by
      rw [hexNumber_append, hv]
      rfl
    have hpre' : hexNumber (pre ++ [d]) < 16 ^ (pre ++ [d]).length := by
      rw [← hnext, List.length_append, List.length_singleton, Nat.pow_succ]
      omega
    have hlen : (pre ++ [d]).length + digits.length = pre.length + (d :: digits).length := by
      simp only [List.length_append, List.length_cons, List.length_nil]
      omega
    have hbound : hexNumber (pre ++ [d]) < 2 ^ bits := by
      refine Nat.lt_of_lt_of_le hpre' (Nat.le_trans (Nat.pow_le_pow_right (by decide) ?_) hfits)
      omega
    have hstep : radixDigits bits (hexNumber pre) (d :: digits) =
        radixDigits bits (hexNumber (pre ++ [d])) digits := by
      simp only [radixDigits, hv, Option.bind_eq_bind, Option.bind_some, hnext, if_pos hbound]
    rw [hstep, ih hdigits (by rw [hlen]; exact hfits) hpre', List.append_assoc,
      List.singleton_append]

/-- A text of hex digits is its number. -/
theorem fromStrRadix_of_fits {bits : Nat} {digits : List UInt8} (hne : digits ≠ [])
    (hhex : ∀ d ∈ digits, (hexValue d).isSome = true) (hfits : 16 ^ digits.length ≤ 2 ^ bits) :
    fromStrRadix bits digits = some (hexNumber digits) := by
  have hsigns : ∀ d ∈ digits, d ≠ 43 ∧ d ≠ 45 := by
    intro d hd
    constructor
    · rintro rfl
      exact absurd (hhex _ hd) (by decide)
    · rintro rfl
      exact absurd (hhex _ hd) (by decide)
  have hsrc : fromStrRadix bits digits = radixDigits bits 0 digits := by
    unfold fromStrRadix
    split <;> simp_all
  have hread := @radixDigits_of_fits bits [] digits hhex (by simpa using hfits) (by decide)
  rw [hsrc]
  exact hread

end Radix

section Faults

/-- What stops a run that had no answer to give: an access out of range, a
number that its type does not hold, a loop that has not ended. -/
inductive Fault where
  | bounds
  | overflow
  | endless
deriving DecidableEq, Repr

/-- A run stops at a fault or with the program's own error. -/
inductive Stop (ε : Type) where
  | fault (f : Fault)
  | refused (e : ε)
deriving DecidableEq, Repr

abbrev Run (ε α : Type) : Type := Except (Stop ε) α

variable {ε : Type}

/-- `xs[i]`. -/
def index (xs : List α) (i : Nat) : Run ε α :=
  match xs[i]? with
  | some x => .ok x
  | none => .error (.fault .bounds)

/-- `&xs[start..stop]`. -/
def range (xs : List α) (start stop : Nat) : Run ε (List α) :=
  match slice xs start stop with
  | some ys => .ok ys
  | none => .error (.fault .bounds)

/-- `a + b` in an unsigned type of so many bits. -/
def add (bits a b : Nat) : Run ε Nat :=
  if a + b < 2 ^ bits then .ok (a + b) else .error (.fault .overflow)

/-- `(v << 8) | b`, where the shift must lose nothing. -/
def shiftIn (bits v : Nat) (b : UInt8) : Run ε Nat :=
  if v <<< 8 < 2 ^ bits then .ok (v <<< 8 ||| b.toNat) else .error (.fault .overflow)

theorem index_ok {xs : List α} {i : Nat} (h : i < xs.length) :
    (index xs i : Run ε α) = .ok xs[i] := by
  rw [index, List.getElem?_eq_getElem h]

theorem range_ok {xs : List α} {start stop : Nat} (h₁ : start ≤ stop) (h₂ : stop ≤ xs.length) :
    (range xs start stop : Run ε (List α)) = .ok ((xs.drop start).take (stop - start)) := by
  rw [range, slice, if_pos ⟨h₁, h₂⟩, List.drop_take]

theorem add_ok {bits a b : Nat} (h : a + b < 2 ^ bits) :
    (add bits a b : Run ε Nat) = .ok (a + b) := if_pos h

/-- Octets that fit the type are shifted in without a loss. -/
theorem foldlM_shiftIn {bits : Nat} (octets : List UInt8) (h : 8 * octets.length ≤ bits) :
    (octets.foldlM (shiftIn bits) 0 : Run ε Nat) =
      .ok (octets.foldl (fun v b => v * 256 + b.toNat) 0) := by
  have key : ∀ (octets : List UInt8) (k v : Nat), v < 2 ^ (8 * k) →
      8 * (k + octets.length) ≤ bits →
      (octets.foldlM (shiftIn bits) v : Run ε Nat) =
        .ok (octets.foldl (fun v b => v * 256 + b.toNat) v) := by
    intro octets
    induction octets with
    | nil => intro k v _ _; rfl
    | cons b octets ih =>
      intro k v hv hk
      rw [List.length_cons] at hk
      have hb := b.toNat_lt
      have hpow : 2 ^ (8 * (k + 1)) = 2 ^ (8 * k) * 256 := by
        rw [show 8 * (k + 1) = 8 * k + 8 by omega, Nat.pow_add]
      have hshift : v <<< 8 = v * 256 := by rw [Nat.shiftLeft_eq]
      have hnext : v * 256 + b.toNat < 2 ^ (8 * (k + 1)) := by omega
      have hbits : 2 ^ (8 * (k + 1)) ≤ 2 ^ bits := Nat.pow_le_pow_right (by decide) (by omega)
      have hor : v <<< 8 ||| b.toNat = v * 256 + b.toNat := by
        rw [← Nat.shiftLeft_add_eq_or_of_lt hb, hshift]
      have hstep : (shiftIn bits v b : Run ε Nat) = .ok (v * 256 + b.toNat) := by
        rw [shiftIn, if_pos (by omega), hor]
      rw [List.foldlM_cons, hstep, List.foldl_cons]
      exact ih (k + 1) _ hnext (by omega)
  exact key octets 0 0 (by decide) (by omega)

end Faults

end Pccs.Checked
