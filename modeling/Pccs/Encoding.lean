import Pccs.Text

/-!
# Byte and text encodings

Hexadecimal, base64, percent escapes and lossy UTF-8, each as the plain list
computation its definition gives. Decoders that can fail say so; the lossy
UTF-8 reader never fails and replaces each maximal ill-formed part by U+FFFD.
-/
namespace Pccs.Encoding

open Text

def hexValue (b : UInt8) : Option UInt8 :=
  if 48 ≤ b ∧ b ≤ 57 then some (b - 48)
  else if 97 ≤ b ∧ b ≤ 102 then some (b - 87)
  else if 65 ≤ b ∧ b ≤ 70 then some (b - 55)
  else none

/-- `hex::decode`. -/
def hexDecode : List UInt8 → Option (List UInt8)
  | [] => some []
  | [_] => none
  | h :: l :: rest => do
    let hi ← hexValue h
    let lo ← hexValue l
    let tail ← hexDecode rest
    return (hi * 16 + lo) :: tail

def upperNibble (n : Nat) : Char := if n < 10 then Char.ofNat (48 + n) else Char.ofNat (55 + n)

def lowerNibble (n : Nat) : Char := if n < 10 then Char.ofNat (48 + n) else Char.ofNat (87 + n)

/-- `hex::encode_upper`. -/
def hexEncodeUpper (bytes : List UInt8) : String :=
  String.ofList (bytes.flatMap fun b => [upperNibble (b.toNat / 16), upperNibble (b.toNat % 16)])

/-- `hex::encode`. -/
def hexEncode (bytes : List UInt8) : String :=
  String.ofList (bytes.flatMap fun b => [lowerNibble (b.toNat / 16), lowerNibble (b.toNat % 16)])

def base64Value (b : UInt8) : Option Nat :=
  if 65 ≤ b ∧ b ≤ 90 then some (b.toNat - 65)
  else if 97 ≤ b ∧ b ≤ 122 then some (b.toNat - 71)
  else if 48 ≤ b ∧ b ≤ 57 then some (b.toNat + 4)
  else if b = 43 then some 62
  else if b = 47 then some 63
  else none

/-- The standard alphabet with mandatory padding; unused trailing bits must be
zero. -/
def base64Decode : List UInt8 → Option (List UInt8)
  | [] => some []
  | [a, b, c, d] =>
    if c = 61 ∧ d = 61 then do
      let x ← base64Value a
      let y ← base64Value b
      if y % 16 = 0 then return [UInt8.ofNat (x * 4 + y / 16)] else none
    else if d = 61 then do
      let x ← base64Value a
      let y ← base64Value b
      let z ← base64Value c
      if z % 4 = 0 then return [UInt8.ofNat (x * 4 + y / 16), UInt8.ofNat (y % 16 * 16 + z / 4)]
      else none
    else do
      let x ← base64Value a
      let y ← base64Value b
      let z ← base64Value c
      let w ← base64Value d
      return [UInt8.ofNat (x * 4 + y / 16), UInt8.ofNat (y % 16 * 16 + z / 4),
        UInt8.ofNat (z % 4 * 64 + w)]
  | a :: b :: c :: d :: rest => do
    let x ← base64Value a
    let y ← base64Value b
    let z ← base64Value c
    let w ← base64Value d
    let tail ← base64Decode rest
    return UInt8.ofNat (x * 4 + y / 16) :: UInt8.ofNat (y % 16 * 16 + z / 4) ::
      UInt8.ofNat (z % 4 * 64 + w) :: tail
  | _ => none

def base64UrlValue (b : UInt8) : Option Nat :=
  if b = 45 then some 62
  else if b = 95 then some 63
  else if b = 43 ∨ b = 47 then none
  else base64Value b

/-- The URL-safe alphabet without padding; unused trailing bits must be zero. -/
def base64UrlDecode : List UInt8 → Option (List UInt8)
  | [] => some []
  | [_] => none
  | [a, b] => do
    let x ← base64UrlValue a
    let y ← base64UrlValue b
    if y % 16 = 0 then return [UInt8.ofNat (x * 4 + y / 16)] else none
  | [a, b, c] => do
    let x ← base64UrlValue a
    let y ← base64UrlValue b
    let z ← base64UrlValue c
    if z % 4 = 0 then return [UInt8.ofNat (x * 4 + y / 16), UInt8.ofNat (y % 16 * 16 + z / 4)]
    else none
  | a :: b :: c :: d :: rest => do
    let x ← base64UrlValue a
    let y ← base64UrlValue b
    let z ← base64UrlValue c
    let w ← base64UrlValue d
    let tail ← base64UrlDecode rest
    return UInt8.ofNat (x * 4 + y / 16) :: UInt8.ofNat (y % 16 * 16 + z / 4) ::
      UInt8.ofNat (z % 4 * 64 + w) :: tail

/-- A continuation byte of a well-formed sequence. -/
def isCont (b : UInt8) : Bool := 0x80 ≤ b && b ≤ 0xBF

/-- The second bytes a three- or four-byte lead admits: overlong forms,
surrogates and values past U+10FFFF are cut off here. -/
def secondOk (lead b : UInt8) : Bool :=
  if lead = 0xE0 then 0xA0 ≤ b && b ≤ 0xBF
  else if lead = 0xED then 0x80 ≤ b && b ≤ 0x9F
  else if lead = 0xF0 then 0x90 ≤ b && b ≤ 0xBF
  else if lead = 0xF4 then 0x80 ≤ b && b ≤ 0x8F
  else isCont b

def replacement : Char := Char.ofNat 0xFFFD

/-- `String::from_utf8_lossy`, as characters. -/
def utf8Lossy : List UInt8 → List Char
  | [] => []
  | a :: rest =>
    if a < 0x80 then Char.ofNat a.toNat :: utf8Lossy rest
    else if 0xC2 ≤ a ∧ a ≤ 0xDF then
      match rest with
      | b :: rest => if isCont b then Char.ofNat (a.toNat % 32 * 64 + b.toNat % 64) :: utf8Lossy rest
          else replacement :: utf8Lossy (b :: rest)
      | [] => [replacement]
    else if 0xE0 ≤ a ∧ a ≤ 0xEF then
      match rest with
      | b :: c :: rest =>
        if secondOk a b then
          if isCont c then
            Char.ofNat (a.toNat % 16 * 4096 + b.toNat % 64 * 64 + c.toNat % 64) :: utf8Lossy rest
          else replacement :: utf8Lossy (c :: rest)
        else replacement :: utf8Lossy (b :: c :: rest)
      | [b] => if secondOk a b then [replacement] else replacement :: utf8Lossy [b]
      | [] => [replacement]
    else if 0xF0 ≤ a ∧ a ≤ 0xF4 then
      match rest with
      | b :: c :: d :: rest =>
        if secondOk a b then
          if isCont c then
            if isCont d then
              Char.ofNat (a.toNat % 8 * 262144 + b.toNat % 64 * 4096 + c.toNat % 64 * 64 +
                d.toNat % 64) :: utf8Lossy rest
            else replacement :: utf8Lossy (d :: rest)
          else replacement :: utf8Lossy (c :: d :: rest)
        else replacement :: utf8Lossy (b :: c :: d :: rest)
      | [b, c] =>
        if secondOk a b then
          if isCont c then [replacement] else replacement :: utf8Lossy [c]
        else replacement :: utf8Lossy [b, c]
      | [b] => if secondOk a b then [replacement] else replacement :: utf8Lossy [b]
      | [] => [replacement]
    else replacement :: utf8Lossy rest

def fromUtf8Lossy (bytes : List UInt8) : String := String.ofList (utf8Lossy bytes)

/-- One pass over percent escapes; anything that is not `%` and two hex digits
is copied. -/
def percentDecodeBytes : List UInt8 → List UInt8
  | [] => []
  | a :: b :: c :: rest =>
    if a = 37 then
      match hexValue b, hexValue c with
      | some hi, some lo => (hi * 16 + lo) :: percentDecodeBytes rest
      | _, _ => a :: percentDecodeBytes (b :: c :: rest)
    else a :: percentDecodeBytes (b :: c :: rest)
  | a :: rest => a :: percentDecodeBytes rest

theorem lowerNibble_inj : ∀ m < 16, ∀ n < 16, lowerNibble m = lowerNibble n → m = n := by decide

/-- Hex text names its bytes. -/
theorem hexEncode_injective : Function.Injective hexEncode := by
  intro xs ys h
  replace h := congrArg String.toList h
  simp only [hexEncode, String.toList_ofList] at h
  induction xs generalizing ys with
  | nil => cases ys with
    | nil => rfl
    | cons y ys => simp at h
  | cons x xs ih => cases ys with
    | nil => simp at h
    | cons y ys =>
      simp only [List.flatMap_cons, List.cons_append, List.nil_append, List.cons.injEq] at h
      obtain ⟨hhi, hlo, hrest⟩ := h
      have hx := x.toNat_lt
      have hy := y.toNat_lt
      have hhi := lowerNibble_inj _ (by omega) _ (by omega) hhi
      have hlo := lowerNibble_inj _ (by omega) _ (by omega) hlo
      have hxy : x = y := UInt8.toNat_inj.mp (by omega)
      rw [hxy, ih hrest]

theorem hexEncodeUpper_eq_empty {bytes : List UInt8} : hexEncodeUpper bytes = "" ↔ bytes = [] := by
  rw [← String.toList_inj]
  cases bytes with
  | nil => simp [hexEncodeUpper]
  | cons b rest => simp [hexEncodeUpper]

end Pccs.Encoding
