import Pccs.PckCert

/-!
# TCB levels

A TCB level is a CPUSVN of sixteen component bytes with a PCESVN behind it,
ordered componentwise. The order is partial: two levels where each is lower in
some component do not compare.
-/
namespace Pccs.Selection

open Text Encoding

structure Tcb where
  cpusvn : String
  pcesvn : UInt32
  components : Vector UInt32 17
deriving DecidableEq, Repr

structure TcbNonComparable where
deriving DecidableEq, Repr

def cpusvnHexLen : Nat := 16 * 2

namespace Tcb

/-- `cpusvn` must be exactly 32 hex digits; the PCESVN is not clamped. -/
def new (cpusvn : String) (pcesvn : UInt32) : Except String Tcb :=
  if byteLen cpusvn ≠ cpusvnHexLen then
    .error ("Invalid CPUSVN length: " ++ toString (byteLen cpusvn))
  else
    match hexDecode (asBytes cpusvn) with
    | none => .error ("Invalid CPUSVN format: " ++ cpusvn)
    | some bytes =>
      if h : bytes.length = 16 then
        .ok
          { cpusvn := toAsciiUppercase cpusvn
            pcesvn
            components := ⟨(bytes.map UInt8.toUInt32 ++ [pcesvn]).toArray, by simp [h]⟩ }
      else .error ("Invalid CPUSVN format: " ++ cpusvn)

/-- Some component of `a` is below its partner in `b`. -/
def lower (a b : Tcb) : Bool :=
  (a.components.toList.zip b.components.toList).any fun c => c.1 < c.2

/-- `-1` if `a` is lower, `1` if it is higher, `0` if they are equal. -/
def compare (a b : Tcb) : Except TcbNonComparable Int :=
  match a.lower b, b.lower a with
  | true, true => .error ⟨⟩
  | true, false => .ok (-1)
  | false, true => .ok 1
  | false, false => .ok 0

/-- Componentwise at or below. -/
def Le (a b : Tcb) : Prop := ∀ i : Fin 17, a.components[i] ≤ b.components[i]

instance (a b : Tcb) : Decidable (Le a b) := inferInstanceAs (Decidable (∀ _, _))

end Tcb

/-- The bytes of a short even-length hex text, lowest byte first. -/
def littleEndianHexToInt (leHex : String) : Option UInt32 :=
  if leHex = "" ∨ byteLen leHex % 2 ≠ 0 ∨ byteLen leHex > 8 then none
  else (hexDecode (asBytes leHex)).map fun bytes => UInt32.ofNat (PckCert.bigEndian bytes.reverse)

namespace Tcb

def fromHex (cpusvn pcesvnLeHex : String) : Except String Tcb :=
  match littleEndianHexToInt pcesvnLeHex with
  | none => .error ("Invalid PCESVN format: " ++ pcesvnLeHex)
  | some pcesvn => new cpusvn pcesvn

end Tcb

section Hexadecimal

theorem hexDecode_length {bytes out : List UInt8} (h : hexDecode bytes = some out) :
    bytes.length = 2 * out.length := by
  induction bytes using hexDecode.induct generalizing out with
  | case1 => cases h; rfl
  | case2 => cases h
  | case3 hi lo rest ih =>
    simp only [hexDecode, bind, Option.bind_eq_some_iff, pure, Option.some.injEq] at h
    obtain ⟨_, _, _, _, tail, htail, rfl⟩ := h
    simp only [List.length_cons, ih htail]
    omega

/-- Every byte of a decodable text is a hex digit. -/
theorem hexDecode_digits {bytes out : List UInt8} (h : hexDecode bytes = some out) :
    ∀ b ∈ bytes, (hexValue b).isSome = true := by
  induction bytes using hexDecode.induct generalizing out with
  | case1 => simp
  | case2 => cases h
  | case3 hi lo rest ih =>
    simp only [hexDecode, bind, Option.bind_eq_some_iff, pure] at h
    obtain ⟨x, hx, y, hy, tail, htail, _⟩ := h
    intro b hb
    simp only [List.mem_cons] at hb
    rcases hb with rfl | rfl | hb
    · rw [hx]; rfl
    · rw [hy]; rfl
    · exact ih htail b hb

/-- A decodable text has no path separator. -/
theorem noSlash_of_hexDecode {s : String} {out : List UInt8}
    (h : hexDecode (asBytes s) = some out) : NoSlash s := by
  intro hm
  have := hexDecode_digits h _ (mem_asBytes_of_ascii (by decide) hm)
  exact absurd this (by decide)

theorem hexValue_upperByte (b : UInt8) : hexValue (upperByte b) = hexValue b := by
  have key : ∀ i : Fin 256, hexValue (upperByte (UInt8.ofFin i)) = hexValue (UInt8.ofFin i) := by
    decide +kernel
  exact key b.toFin

theorem hexDecode_upperByte (bytes : List UInt8) :
    hexDecode (bytes.map upperByte) = hexDecode bytes := by
  induction bytes using hexDecode.induct with
  | case1 => rfl
  | case2 => rfl
  | case3 hi lo rest ih =>
    simp only [List.map_cons, hexDecode, hexValue_upperByte, ih]

/-- Letter case does not change what a text decodes to. -/
theorem hexDecode_uppercase (s : String) :
    hexDecode (asBytes (toAsciiUppercase s)) = hexDecode (asBytes s) := by
  rw [asBytes_uppercase, hexDecode_upperByte]

theorem byteLen_uppercase (s : String) : byteLen (toAsciiUppercase s) = byteLen s := by
  simp [byteLen, asBytes_uppercase]

theorem uppercase_eq_empty (s : String) : toAsciiUppercase s = "" ↔ s = "" := by
  constructor
  · intro h
    have := congrArg String.toList h
    simpa using this
  · rintro rfl; rfl

end Hexadecimal

namespace Tcb

/-- A level is a function of its sixteen bytes: the letter case of the text it
was read from is gone. -/
theorem new_uppercase_iff {cpusvn : String} {pcesvn : UInt32} {tcb : Tcb} :
    new (toAsciiUppercase cpusvn) pcesvn = .ok tcb ↔ new cpusvn pcesvn = .ok tcb := by
  unfold new
  rw [byteLen_uppercase, hexDecode_uppercase]
  by_cases hlen : byteLen cpusvn ≠ cpusvnHexLen
  · simp [hlen]
  · simp only [hlen, if_false]
    cases hexDecode (asBytes cpusvn) with
    | none => simp
    | some bytes => by_cases hb : bytes.length = 16 <;> simp [hb]

theorem fromHex_uppercase_iff {cpusvn pcesvn : String} {tcb : Tcb} :
    fromHex (toAsciiUppercase cpusvn) (toAsciiUppercase pcesvn) = .ok tcb ↔
      fromHex cpusvn pcesvn = .ok tcb := by
  have hle : littleEndianHexToInt (toAsciiUppercase pcesvn) = littleEndianHexToInt pcesvn := by
    simp only [littleEndianHexToInt, uppercase_eq_empty, byteLen_uppercase, hexDecode_uppercase]
  unfold fromHex
  rw [hle]
  cases littleEndianHexToInt pcesvn with
  | none => simp
  | some n => exact new_uppercase_iff

/-- The texts of a readable level can stand inside a key. -/
theorem noSlash_of_fromHex {cpusvn pcesvn : String} {tcb : Tcb}
    (h : fromHex cpusvn pcesvn = .ok tcb) : NoSlash cpusvn ∧ NoSlash pcesvn := by
  unfold fromHex at h
  split at h
  · cases h
  · rename_i n hn
    constructor
    · unfold new at h
      split at h
      · cases h
      · split at h
        · cases h
        · rename_i hbytes
          exact noSlash_of_hexDecode hbytes
    · unfold littleEndianHexToInt at hn
      split at hn
      · cases hn
      · obtain ⟨bytes, hbytes, _⟩ := Option.map_eq_some_iff.mp hn
        exact noSlash_of_hexDecode hbytes

theorem lower_eq_false {a b : Tcb} : a.lower b = false ↔ Le b a := by
  unfold lower Le
  rw [List.any_eq_false]
  constructor
  · intro h i
    have hmem : (a.components[i], b.components[i]) ∈
        a.components.toList.zip b.components.toList := by
      rw [List.mem_iff_getElem]
      exact ⟨i, by simp, by simp⟩
    have := h _ hmem
    simpa using this
  · rintro h ⟨x, y⟩ hmem
    obtain ⟨i, hi, he⟩ := List.mem_iff_getElem.mp hmem
    simp only [List.getElem_zip, Vector.getElem_toList, Prod.mk.injEq] at he
    have hi' : i < 17 := by simpa using hi
    have := h ⟨i, hi'⟩
    simp only [decide_eq_true_eq, ← he.1, ← he.2]
    simpa using this

/-- The test the selection scan makes is the componentwise order. -/
theorem compare_nonneg {a b : Tcb} : (∃ n, a.compare b = .ok n ∧ 0 ≤ n) ↔ Le b a := by
  rw [← lower_eq_false]
  unfold compare
  cases a.lower b <;> cases b.lower a <;> simp

end Tcb

end Pccs.Selection
