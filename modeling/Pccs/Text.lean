import Std
import Mathlib.Algebra.Order.Ring.Int

/-!
# ASCII case folding of UTF-8 text

Protocol identifiers are compared and canonicalised with the ASCII-only case
maps: letters outside `a-z` and `A-Z` are never touched, whatever the script.
All operations are list computations, so they evaluate on literals.
-/
namespace Pccs.Text

/-- The UTF-8 bytes of a string. -/
def asBytes (s : String) : List UInt8 := s.toByteArray.data.toList

/-- Length in bytes, not in characters. -/
def byteLen (s : String) : Nat := (asBytes s).length

def toAsciiUppercase (s : String) : String := String.ofList (s.toList.map Char.toUpper)

def toAsciiLowercase (s : String) : String := String.ofList (s.toList.map Char.toLower)

def eqIgnoreAsciiCase (a b : String) : Bool := toAsciiLowercase a == toAsciiLowercase b

def isAsciiWhitespace (c : Char) : Bool :=
  c == ' ' || c == '\t' || c == '\n' || c == '\r' || c == Char.ofNat 12

theorem asBytes_inj {s t : String} : asBytes s = asBytes t ↔ s = t := by
  constructor
  · intro h
    apply String.toByteArray_inj.mp
    exact ByteArray.ext (Array.toList_inj.mp h)
  · intro h; rw [h]

@[simp] theorem asBytes_append (s t : String) : asBytes (s ++ t) = asBytes s ++ asBytes t := by
  simp [asBytes]

theorem char_ext {c d : Char} (h : c.toNat = d.toNat) : c = d :=
  Char.ext (UInt32.toNat_inj.mp h)

theorem toLower_toNat (c : Char) :
    c.toLower.toNat = if 65 ≤ c.toNat ∧ c.toNat ≤ 90 then c.toNat + 32 else c.toNat := by
  unfold Char.toLower
  by_cases h : c.val ≥ 'A'.val ∧ c.val ≤ 'Z'.val
  · have hn : 65 ≤ c.toNat ∧ c.toNat ≤ 90 := ⟨h.1, h.2⟩
    rw [dif_pos h, if_pos hn]
    change (c.val + 32).toNat = c.val.toNat + 32
    have : c.val.toNat ≤ 90 := hn.2
    rw [UInt32.toNat_add]
    change (c.val.toNat + 32) % _ = _
    omega
  · have hn : ¬ (65 ≤ c.toNat ∧ c.toNat ≤ 90) := fun hn => h ⟨hn.1, hn.2⟩
    rw [dif_neg h, if_neg hn]

theorem toUpper_toNat (c : Char) :
    c.toUpper.toNat = if 97 ≤ c.toNat ∧ c.toNat ≤ 122 then c.toNat - 32 else c.toNat := by
  unfold Char.toUpper
  by_cases h : 'a'.val ≤ c.val ∧ c.val ≤ 'z'.val
  · have hn : 97 ≤ c.toNat ∧ c.toNat ≤ 122 := ⟨h.1, h.2⟩
    rw [dif_pos h, if_pos hn]
    -- the source character is shifted by a wrapping addition of 2^32 - 32
    change (c.val + 4294967264).toNat = c.val.toNat - 32
    have h₁ : 97 ≤ c.val.toNat := hn.1
    have h₂ : c.val.toNat ≤ 122 := hn.2
    rw [UInt32.toNat_add]
    change (c.val.toNat + 4294967264) % _ = _
    omega
  · have hn : ¬ (97 ≤ c.toNat ∧ c.toNat ≤ 122) := fun hn => h ⟨hn.1, hn.2⟩
    rw [dif_neg h, if_neg hn]

theorem toLower_toUpper (c : Char) : c.toUpper.toLower = c.toLower := by
  apply char_ext
  simp only [toLower_toNat, toUpper_toNat]
  grind

theorem toUpper_toLower (c : Char) : c.toLower.toUpper = c.toUpper := by
  apply char_ext
  simp only [toLower_toNat, toUpper_toNat]
  grind

theorem toUpper_toUpper (c : Char) : c.toUpper.toUpper = c.toUpper := by
  apply char_ext
  simp only [toUpper_toNat]
  grind

theorem toLower_eq_slash (c : Char) : c.toLower = '/' ↔ c = '/' := by
  constructor
  · intro h
    have hn := congrArg Char.toNat h
    rw [toLower_toNat] at hn
    apply char_ext
    change _ = 47 at hn ⊢
    grind
  · rintro rfl; rfl

@[simp] theorem toList_toAsciiUppercase (s : String) :
    (toAsciiUppercase s).toList = s.toList.map Char.toUpper := by
  simp [toAsciiUppercase]

@[simp] theorem toList_toAsciiLowercase (s : String) :
    (toAsciiLowercase s).toList = s.toList.map Char.toLower := by
  simp [toAsciiLowercase]

@[simp] theorem toAsciiLowercase_uppercase (s : String) :
    toAsciiLowercase (toAsciiUppercase s) = toAsciiLowercase s := by
  simp only [toAsciiLowercase, toList_toAsciiUppercase, List.map_map, Function.comp_def,
    toLower_toUpper]

@[simp] theorem toAsciiUppercase_lowercase (s : String) :
    toAsciiUppercase (toAsciiLowercase s) = toAsciiUppercase s := by
  simp only [toAsciiUppercase, toList_toAsciiLowercase, List.map_map, Function.comp_def,
    toUpper_toLower]

@[simp] theorem toAsciiUppercase_idem (s : String) :
    toAsciiUppercase (toAsciiUppercase s) = toAsciiUppercase s := by
  simp only [toAsciiUppercase, String.toList_ofList, List.map_map, Function.comp_def,
    toUpper_toUpper]

@[simp] theorem toAsciiLowercase_idem (s : String) :
    toAsciiLowercase (toAsciiLowercase s) = toAsciiLowercase s := by
  rw [← toAsciiLowercase_uppercase (toAsciiLowercase s), toAsciiUppercase_lowercase,
    toAsciiLowercase_uppercase]

theorem asBytes_eq (s : String) : asBytes s = s.toList.flatMap String.utf8EncodeChar := by
  unfold asBytes
  rw [← String.utf8Encode_toList]
  unfold List.utf8Encode
  simp

theorem utf8EncodeChar_ascii {c : Char} (h : c.toNat ≤ 127) :
    String.utf8EncodeChar c = [UInt8.ofNat c.toNat] :=
  if_pos h

/-- Characters outside ASCII are encoded without ASCII bytes. -/
theorem utf8EncodeChar_high {c : Char} (h : 127 < c.toNat) :
    ∀ b ∈ String.utf8EncodeChar c, 128 ≤ b.toNat := by
  intro b hb
  simp only [String.utf8EncodeChar] at hb
  rw [if_neg (show ¬ c.val.toNat ≤ 127 from Nat.not_le.mpr h)] at hb
  split at hb
  · simp only [List.mem_cons, List.not_mem_nil, or_false] at hb
    rcases hb with rfl | rfl <;> simp only [UInt8.toNat_ofNat'] <;> omega
  · split at hb
    · simp only [List.mem_cons, List.not_mem_nil, or_false] at hb
      rcases hb with rfl | rfl | rfl <;> simp only [UInt8.toNat_ofNat'] <;> omega
    · simp only [List.mem_cons, List.not_mem_nil, or_false] at hb
      rcases hb with rfl | rfl | rfl | rfl <;> simp only [UInt8.toNat_ofNat'] <;> omega

/-- The upper-case map on encoded text. -/
def upperByte (b : UInt8) : UInt8 := if 97 ≤ b.toNat ∧ b.toNat ≤ 122 then b - 32 else b

theorem utf8EncodeChar_toUpper (c : Char) :
    String.utf8EncodeChar c.toUpper = (String.utf8EncodeChar c).map upperByte := by
  by_cases h : 97 ≤ c.toNat ∧ c.toNat ≤ 122
  · have hu : c.toUpper.toNat = c.toNat - 32 := by rw [toUpper_toNat, if_pos h]
    rw [utf8EncodeChar_ascii (by omega), utf8EncodeChar_ascii (by omega), hu]
    have hb : (UInt8.ofNat c.toNat).toNat = c.toNat := by rw [UInt8.toNat_ofNat']; omega
    simp only [List.map_cons, List.map_nil, upperByte, hb, if_pos h]
    congr 1
    apply UInt8.toNat_inj.mp
    rw [UInt8.toNat_sub, hb, UInt8.toNat_ofNat']
    change _ = (256 - 32 + c.toNat) % 256
    omega
  · have hu : c.toUpper = c := char_ext (by rw [toUpper_toNat, if_neg h])
    rw [hu]
    by_cases ha : c.toNat ≤ 127
    · have hb : (UInt8.ofNat c.toNat).toNat = c.toNat := by rw [UInt8.toNat_ofNat']; omega
      rw [utf8EncodeChar_ascii ha]
      simp only [List.map_cons, List.map_nil, upperByte, hb, if_neg h]
    · have hid : ∀ b ∈ String.utf8EncodeChar c, upperByte b = b := by
        intro b hb
        have := utf8EncodeChar_high (by omega) b hb
        exact if_neg (by omega)
      rw [List.map_congr_left hid, List.map_id']

theorem asBytes_uppercase (s : String) :
    asBytes (toAsciiUppercase s) = (asBytes s).map upperByte := by
  rw [asBytes_eq, asBytes_eq, toList_toAsciiUppercase, List.flatMap_map, List.map_flatMap]
  simp only [utf8EncodeChar_toUpper]

theorem mem_asBytes_of_ascii {s : String} {c : Char} (hc : c.toNat ≤ 127) (h : c ∈ s.toList) :
    UInt8.ofNat c.toNat ∈ asBytes s := by
  rw [asBytes_eq, List.mem_flatMap]
  exact ⟨c, h, by simp [utf8EncodeChar_ascii hc]⟩

/-- Folding up and folding down identify the same strings. -/
theorem uppercase_eq_iff (s t : String) :
    toAsciiUppercase s = toAsciiUppercase t ↔ toAsciiLowercase s = toAsciiLowercase t := by
  constructor
  · intro h
    rw [← toAsciiLowercase_uppercase s, h, toAsciiLowercase_uppercase]
  · intro h
    rw [← toAsciiUppercase_lowercase s, h, toAsciiUppercase_lowercase]

@[simp] theorem eqIgnoreAsciiCase_iff (s t : String) :
    eqIgnoreAsciiCase s t = true ↔ toAsciiLowercase s = toAsciiLowercase t := by
  simp [eqIgnoreAsciiCase]

/-- Every text in upper case: what the canonicalising writers store. -/
def IsUpper (s : String) : Prop := toAsciiUppercase s = s

instance (s : String) : Decidable (IsUpper s) := inferInstanceAs (Decidable (_ = _))

theorem isUpper_uppercase (s : String) : IsUpper (toAsciiUppercase s) := toAsciiUppercase_idem s

/-- Between upper-case texts, comparing case-insensitively is plain equality. -/
theorem IsUpper.eq_of_lower {s t : String} (hs : IsUpper s) (ht : IsUpper t)
    (h : toAsciiLowercase s = toAsciiLowercase t) : s = t := by
  rw [← hs, ← ht]
  exact (uppercase_eq_iff s t).mpr h

/-- `parts.join("/")`. -/
def joinSlash : List String → String
  | [] => ""
  | [a] => a
  | a :: b :: rest => a ++ "/" ++ joinSlash (b :: rest)

/-- No separator inside the text. -/
def NoSlash (s : String) : Prop := '/' ∉ s.toList

instance (s : String) : Decidable (NoSlash s) := inferInstanceAs (Decidable (¬ _))

theorem noSlash_lowercase (s : String) : NoSlash (toAsciiLowercase s) ↔ NoSlash s := by
  simp [NoSlash, toLower_eq_slash]

theorem noSlash_congr {s t : String} (h : toAsciiLowercase s = toAsciiLowercase t) :
    NoSlash s ↔ NoSlash t := by
  rw [← noSlash_lowercase s, h, noSlash_lowercase]

/-- The first separator splits a text in only one way. -/
theorem first_slash_unique {x y a c : List Char} (hx : '/' ∉ x) (hy : '/' ∉ y)
    (h : x ++ '/' :: a = y ++ '/' :: c) : x = y ∧ a = c := by
  induction x generalizing y with
  | nil =>
    cases y with
    | nil => simpa using h
    | cons f y =>
      simp only [List.nil_append, List.cons_append, List.cons.injEq] at h
      simp only [List.mem_cons, not_or] at hy
      exact absurd h.1 hy.1
  | cons e x ih =>
    cases y with
    | nil =>
      simp only [List.nil_append, List.cons_append, List.cons.injEq] at h
      simp only [List.mem_cons, not_or] at hx
      exact absurd h.1.symm hx.1
    | cons f y =>
      simp only [List.mem_cons, not_or] at hx hy
      simp only [List.cons_append, List.cons.injEq] at h
      obtain ⟨h₁, h₂⟩ := ih hx.2 hy.2 h.2
      exact ⟨by rw [h.1, h₁], h₂⟩

/-- The last separator splits a joined text in only one way. -/
theorem last_slash_unique {a b c d : List Char} (hb : '/' ∉ b) (hd : '/' ∉ d)
    (h : a ++ '/' :: b = c ++ '/' :: d) : a = c ∧ b = d := by
  have hrev : b.reverse ++ '/' :: a.reverse = d.reverse ++ '/' :: c.reverse := by
    simpa using congrArg List.reverse h
  obtain ⟨h₁, h₂⟩ := first_slash_unique (by simpa using hb) (by simpa using hd) hrev
  exact ⟨List.reverse_inj.mp h₂, List.reverse_inj.mp h₁⟩

theorem joinSlash_two_inj {a b c d : String} (hb : NoSlash b) (hd : NoSlash d)
    (h : joinSlash [a, b] = joinSlash [c, d]) : a = c ∧ b = d := by
  have hl : a.toList ++ '/' :: b.toList = c.toList ++ '/' :: d.toList := by
    simpa [joinSlash] using congrArg String.toList h
  obtain ⟨h₁, h₂⟩ := last_slash_unique hb hd hl
  exact ⟨String.toList_inj.mp h₁, String.toList_inj.mp h₂⟩

theorem joinSlash_four_inj {a b c d a' b' c' d' : String}
    (hb : NoSlash b) (hc : NoSlash c) (hd : NoSlash d)
    (hb' : NoSlash b') (hc' : NoSlash c') (hd' : NoSlash d')
    (h : joinSlash [a, b, c, d] = joinSlash [a', b', c', d']) :
    a = a' ∧ b = b' ∧ c = c' ∧ d = d' := by
  have hl : (a.toList ++ '/' :: b.toList ++ '/' :: c.toList) ++ '/' :: d.toList =
      (a'.toList ++ '/' :: b'.toList ++ '/' :: c'.toList) ++ '/' :: d'.toList := by
    simpa [joinSlash] using congrArg String.toList h
  obtain ⟨hl, h₄⟩ := last_slash_unique hd hd' hl
  obtain ⟨hl, h₃⟩ := last_slash_unique hc hc' hl
  obtain ⟨h₁, h₂⟩ := last_slash_unique hb hb' hl
  exact ⟨String.toList_inj.mp h₁, String.toList_inj.mp h₂, String.toList_inj.mp h₃,
    String.toList_inj.mp h₄⟩

theorem joinSlash_three_inj {a b c a' b' c' : String} (ha : NoSlash a) (hb : NoSlash b)
    (ha' : NoSlash a') (hb' : NoSlash b')
    (h : joinSlash [a, b, c] = joinSlash [a', b', c']) : a = a' ∧ b = b' ∧ c = c' := by
  have hl : a.toList ++ '/' :: (b.toList ++ '/' :: c.toList) =
      a'.toList ++ '/' :: (b'.toList ++ '/' :: c'.toList) := by
    simpa [joinSlash] using congrArg String.toList h
  obtain ⟨h₁, hl⟩ := first_slash_unique ha ha' hl
  obtain ⟨h₂, h₃⟩ := first_slash_unique hb hb' hl
  exact ⟨String.toList_inj.mp h₁, String.toList_inj.mp h₂, String.toList_inj.mp h₃⟩

/-- Only the third of four parts may hold separators. -/
theorem joinSlash_middle_inj {a b c d a' b' c' d' : String} (ha : NoSlash a) (hb : NoSlash b)
    (hd : NoSlash d) (ha' : NoSlash a') (hb' : NoSlash b') (hd' : NoSlash d')
    (h : joinSlash [a, b, c, d] = joinSlash [a', b', c', d']) :
    a = a' ∧ b = b' ∧ c = c' ∧ d = d' := by
  have hjoin : ∀ w x y z : String, joinSlash [w, x, y, z] = joinSlash [w, x, y ++ "/" ++ z] := by
    intro w x y z
    simp [joinSlash, String.append_assoc]
  rw [hjoin, hjoin] at h
  obtain ⟨h₁, h₂, h⟩ := joinSlash_three_inj ha hb ha' hb' h
  obtain ⟨h₃, h₄⟩ := joinSlash_two_inj hd hd' h
  exact ⟨h₁, h₂, h₃, h₄⟩

/-- Behind two equal parts, two parts without separators are read back. -/
theorem joinSlash_tail_inj {a b c d c' d' : String} (hc' : NoSlash c') (hd' : NoSlash d')
    (h : joinSlash [a, b, c, d] = joinSlash [a, b, c', d']) : c = c' ∧ d = d' := by
  have hl : c.toList ++ '/' :: d.toList = c'.toList ++ '/' :: d'.toList := by
    simpa [joinSlash] using congrArg String.toList h
  have hcount := congrArg (List.count '/') hl
  simp only [List.count_append, List.count_cons_self, List.count_eq_zero.mpr hc',
    List.count_eq_zero.mpr hd'] at hcount
  have hd : NoSlash d := List.count_eq_zero.mp (by omega)
  obtain ⟨h₁, h₂⟩ := last_slash_unique hd hd' hl
  exact ⟨String.toList_inj.mp h₁, String.toList_inj.mp h₂⟩

theorem digit_of_mem_toString {n : Nat} {c : Char} (h : c ∈ (toString n).toList) :
    48 ≤ c.toNat ∧ c.toNat ≤ 57 := by
  have hd : c ∈ Nat.toDigits 10 n := by simpa using h
  have hdigit := Nat.isDigit_of_mem_toDigits (by decide) (by decide) hd
  simp only [Char.isDigit, Bool.and_eq_true, decide_eq_true_eq] at hdigit
  exact ⟨hdigit.1, hdigit.2⟩

theorem lowercase_toString (n : Nat) : toAsciiLowercase (toString n) = toString n := by
  rw [← String.toList_inj, toList_toAsciiLowercase]
  refine (List.map_congr_left fun c hc => ?_).trans (List.map_id _)
  have := digit_of_mem_toString hc
  apply char_ext
  rw [toLower_toNat, if_neg (by omega)]
  rfl

theorem noSlash_toString (n : Nat) : NoSlash (toString n) := by
  intro h
  have := digit_of_mem_toString h
  simp at this

end Pccs.Text
