import Pccs.Checked
import Pccs.LossyText
import Pccs.Validate
import Mathlib.Data.List.Chain

/-!
# Two percent decoders

The upstream client has a percent decoder of its own. It cuts the two characters
behind a `%` out of the string and leaves the number to `u8::from_str_radix`,
which stops at a cut character and reads a leading sign. The decoder of the
request validation looks at the two bytes only.
-/
namespace Pccs.Pcs

open Text Encoding Checked

/-- The loop from position `i` on; `none` when a slice stops it. -/
def decodeFrom (bytes : List UInt8) (i : Nat) : Option (List UInt8) :=
  if h : i < bytes.length then
    if bytes[i] = 37 ∧ i + 2 < bytes.length then
      match strSlice bytes (i + 1) (i + 3) with
      | none => none
      | some digits =>
        match fromStrRadix 8 digits with
        | some b => (decodeFrom bytes (i + 3)).map (UInt8.ofNat b :: ·)
        | none => (decodeFrom bytes (i + 1)).map (bytes[i] :: ·)
    else (decodeFrom bytes (i + 1)).map (bytes[i] :: ·)
  else some []
termination_by bytes.length - i

/-- `pcs::percent_decode`. -/
def percentDecode (s : String) : Option String := (decodeFrom (asBytes s) 0).map fromUtf8Lossy

section Digits

theorem radixDigits_one (c : UInt8) : radixDigits 8 0 [c] = (hexValue c).map UInt8.toNat := by
  simp only [radixDigits]
  cases h : hexValue c with
  | none => rfl
  | some v =>
    have := hexValue_lt h
    simp [show v.toNat < 256 by omega]

/-- What the other decoder makes of two bytes. -/
def twoDigits (b c : UInt8) : Option UInt8 := do
  let hi ← hexValue b
  let lo ← hexValue c
  return hi * 16 + lo

theorem toNat_twoDigits {hi lo : UInt8} (hhi : hi.toNat < 16) (hlo : lo.toNat < 16) :
    (hi * 16 + lo).toNat = hi.toNat * 16 + lo.toNat := by
  rw [UInt8.toNat_add, UInt8.toNat_mul]
  simp only [UInt8.reduceToNat]
  omega

theorem fromStrRadix_two {b : UInt8} (c : UInt8) (hb : b ≠ 43) :
    fromStrRadix 8 [b, c] = (twoDigits b c).map UInt8.toNat := by
  have hsrc : fromStrRadix 8 [b, c] = radixDigits 8 0 [b, c] := by
    unfold fromStrRadix
    split <;> simp_all
  rw [hsrc, radixDigits, twoDigits]
  cases hhi : hexValue b with
  | none => rfl
  | some hi =>
    have hlt := hexValue_lt hhi
    cases hlo : hexValue c with
    | none => simp [radixDigits, hlo]
    | some lo =>
      have hlt' := hexValue_lt hlo
      simp [radixDigits, hlo, toNat_twoDigits hlt hlt', show hi.toNat < 256 by omega,
        show hi.toNat * 16 + lo.toNat < 256 by omega]

theorem fromStrRadix_sign (c : UInt8) : fromStrRadix 8 [43, c] = (hexValue c).map UInt8.toNat := by
  simp [fromStrRadix, radixDigits_one]

/-- Only a sign before a digit is read differently. -/
theorem fromStrRadix_unsigned {b c : UInt8} (h : ¬ (b = 43 ∧ (hexValue c).isSome = true)) :
    fromStrRadix 8 [b, c] = (twoDigits b c).map UInt8.toNat := by
  by_cases hb : b = 43
  · subst hb
    have hc : hexValue c = none := by simpa using h
    rw [fromStrRadix_sign, hc]
    rfl
  · exact fromStrRadix_two c hb

end Digits

section Boundaries

/-- Behind an ASCII byte no character continues. -/
def Follows (a b : UInt8) : Prop := a < 0x80 → isCont b = false

theorem isCont_eq_false {b : UInt8} (h : b.toNat < 128 ∨ 191 < b.toNat) : isCont b = false := by
  simp only [isCont, UInt8.le_iff_toNat_le, UInt8.reduceToNat, Bool.and_eq_false_iff,
    decide_eq_false_iff_not]
  omega

theorem follows_of_high {a b : UInt8} (h : 128 ≤ a.toNat) : Follows a b := by
  intro hlt
  simp only [UInt8.lt_iff_toNat_lt, UInt8.reduceToNat] at hlt
  omega

theorem char_follows (c : Char) :
    (String.utf8EncodeChar c).IsChain Follows ∧
      ∀ b ∈ (String.utf8EncodeChar c).head?, isCont b = false := by
  rcases utf8EncodeChar_shape c with ⟨h, heq⟩ | ⟨hlo, hhi, a, b, heq, ha, hb⟩ |
    ⟨hlo, hhi, a, b, d, heq, ha, hb, hd⟩ | ⟨hlo, a, b, d, e, heq, ha, hb, hd, he⟩
  · rw [heq]
    refine ⟨by simp, fun b hb => ?_⟩
    obtain rfl : UInt8.ofNat c.toNat = b := by simpa using hb
    exact isCont_eq_false (.inl (by simp only [UInt8.toNat_ofNat']; omega))
  · rw [heq]
    refine ⟨by simp [follows_of_high (show 128 ≤ a.toNat by omega)], fun x hx => ?_⟩
    obtain rfl : a = x := by simpa using hx
    exact isCont_eq_false (.inr (by omega))
  · rw [heq]
    refine ⟨by simp [follows_of_high (show 128 ≤ a.toNat by omega),
      follows_of_high (show 128 ≤ b.toNat by omega)], fun x hx => ?_⟩
    obtain rfl : a = x := by simpa using hx
    exact isCont_eq_false (.inr (by omega))
  · rw [heq]
    refine ⟨by simp [follows_of_high (show 128 ≤ a.toNat by omega),
      follows_of_high (show 128 ≤ b.toNat by omega),
      follows_of_high (show 128 ≤ d.toNat by omega)], fun x hx => ?_⟩
    obtain rfl : a = x := by simpa using hx
    exact isCont_eq_false (.inr (by omega))

theorem chars_follow (chars : List Char) :
    (chars.flatMap String.utf8EncodeChar).IsChain Follows ∧
      ∀ b ∈ (chars.flatMap String.utf8EncodeChar).head?, isCont b = false := by
  induction chars with
  | nil => simp
  | cons c rest ih =>
    obtain ⟨hc, hhead⟩ := char_follows c
    rw [List.flatMap_cons]
    refine ⟨List.isChain_append.mpr ⟨hc, ih.1, fun a _ b hb _ => ih.2 b hb⟩, fun b hb => ?_⟩
    obtain ⟨a, as, has⟩ := List.exists_cons_of_ne_nil (String.utf8EncodeChar_ne_nil (c := c))
    rw [has] at hhead hb
    exact hhead b (by simpa using hb)

/-- The slice behind a `%` always begins at a character. -/
theorem charBoundary_next (s : String) {i : Nat} {a : UInt8} (h : i + 1 < (asBytes s).length)
    (hi : (asBytes s)[i]? = some a) (ha : a < 0x80) : charBoundary (asBytes s) (i + 1) = true := by
  have hchain := (chars_follow s.toList).1
  rw [← asBytes_eq] at hchain
  obtain ⟨_, rfl⟩ := List.getElem?_eq_some_iff.mp hi
  have hstep := List.isChain_iff_getElem.mp hchain i h ha
  have hget : (asBytes s)[i + 1]? = some (asBytes s)[i + 1] := List.getElem?_eq_getElem h
  simp only [charBoundary, hget]
  simp [hstep]

end Boundaries

section Agreement

/-- A `%` with two more bytes behind it. -/
def EscapeAt (bytes : List UInt8) (i : Nat) : Prop := bytes[i]? = some 37 ∧ i + 2 < bytes.length

/-- The two bytes behind position `i` end with a character. -/
def WholeAt (bytes : List UInt8) (i : Nat) : Prop := charBoundary bytes (i + 3) = true

/-- A `+` and a hex digit stand behind position `i`. -/
def SignedAt (bytes : List UInt8) (i : Nat) : Prop :=
  bytes[i + 1]? = some 43 ∧ (bytes[i + 2]?.bind hexValue).isSome = true

variable {bytes : List UInt8} {i : Nat}

theorem escapeAt_iff (h : i < bytes.length) :
    EscapeAt bytes i ↔ bytes[i] = 37 ∧ i + 2 < bytes.length := by
  simp [EscapeAt, List.getElem?_eq_getElem h]

theorem percentDecodeBytes_copy {a : UInt8} {rest : List UInt8} (h : a ≠ 37 ∨ rest.length < 2) :
    percentDecodeBytes (a :: rest) = a :: percentDecodeBytes rest := by
  match rest with
  | [] => rfl
  | [_] => rfl
  | b :: c :: rest =>
    have ha : a ≠ 37 := h.resolve_right (by simp)
    rw [percentDecodeBytes, if_neg ha]

theorem percentDecodeBytes_other (h : i < bytes.length) (hno : ¬ EscapeAt bytes i) :
    percentDecodeBytes (bytes.drop i) = bytes[i] :: percentDecodeBytes (bytes.drop (i + 1)) := by
  rw [escapeAt_iff h] at hno
  rw [List.drop_eq_getElem_cons h]
  apply percentDecodeBytes_copy
  simp only [List.length_drop]
  by_cases hb : bytes[i] = 37
  · exact .inr (by have := not_and.mp hno hb; omega)
  · exact .inl hb

theorem percentDecodeBytes_escape {b c : UInt8} (h : EscapeAt bytes i)
    (hb : bytes[i + 1]? = some b) (hc : bytes[i + 2]? = some c) :
    percentDecodeBytes (bytes.drop i) =
      match twoDigits b c with
      | some d => d :: percentDecodeBytes (bytes.drop (i + 3))
      | none => 37 :: percentDecodeBytes (bytes.drop (i + 1)) := by
  obtain ⟨hlt, hi⟩ := List.getElem?_eq_some_iff.mp h.1
  obtain ⟨hone, hb⟩ := List.getElem?_eq_some_iff.mp hb
  obtain ⟨htwo, hc⟩ := List.getElem?_eq_some_iff.mp hc
  rw [List.drop_eq_getElem_cons hlt, hi, List.drop_eq_getElem_cons hone, hb,
    List.drop_eq_getElem_cons htwo, hc, percentDecodeBytes, if_pos rfl, twoDigits]
  cases hexValue b <;> cases hexValue c <;> rfl

/-- The slice behind a whole escape is its two bytes. -/
theorem strSlice_escape (h : EscapeAt bytes i) (hnext : charBoundary bytes (i + 1) = true)
    (hwhole : WholeAt bytes i) : ∃ b c, bytes[i + 1]? = some b ∧ bytes[i + 2]? = some c ∧
      strSlice bytes (i + 1) (i + 3) = some [b, c] := by
  have hone : i + 1 < bytes.length := by have := h.2; omega
  have htwo : i + 2 < bytes.length := h.2
  refine ⟨bytes[i + 1], bytes[i + 2], List.getElem?_eq_getElem hone,
    List.getElem?_eq_getElem htwo, ?_⟩
  have hboth : (charBoundary bytes (i + 1) && charBoundary bytes (i + 3)) = true := by
    rw [hnext, hwhole]
    rfl
  rw [strSlice, if_pos hboth]
  exact slice_two h.2

theorem strSlice_broken (hwhole : ¬ WholeAt bytes i) :
    strSlice bytes (i + 1) (i + 3) = none := by
  have hboth : ¬ (charBoundary bytes (i + 1) && charBoundary bytes (i + 3)) = true := by
    simp only [Bool.and_eq_true, not_and]
    exact fun _ => hwhole
  rw [strSlice, if_neg hboth]

/-- A step over digits passes no other `%`. -/
theorem not_escape_of_digit {j : Nat} {b : UInt8} (hb : bytes[j]? = some b)
    (hdigit : b = 43 ∨ (hexValue b).isSome = true) : ¬ EscapeAt bytes j := by
  rintro ⟨hj, -⟩
  obtain rfl : b = 37 := Option.some.inj (hb.symm.trans hj)
  rcases hdigit with hdigit | hdigit
  · exact absurd hdigit (by decide)
  · exact absurd hdigit (by decide)

theorem whole_of_slice {digits : List UInt8}
    (h : strSlice bytes (i + 1) (i + 3) = some digits) : WholeAt bytes i := by
  by_contra hno
  cases (strSlice_broken hno).symm.trans h

theorem digits_of_some {b c : UInt8} {d : Nat} (h : fromStrRadix 8 [b, c] = some d) :
    (b = 43 ∨ (hexValue b).isSome = true) ∧ (hexValue c).isSome = true := by
  by_cases hb : b = 43
  · subst hb
    rw [fromStrRadix_sign] at h
    obtain ⟨v, hv, -⟩ := Option.map_eq_some_iff.mp h
    exact ⟨.inl rfl, by rw [hv]; rfl⟩
  · rw [fromStrRadix_two c hb] at h
    obtain ⟨v, hv, -⟩ := Option.map_eq_some_iff.mp h
    obtain ⟨hi, hhi, hv⟩ := Option.bind_eq_some_iff.mp hv
    obtain ⟨lo, hlo, -⟩ := Option.bind_eq_some_iff.mp hv
    exact ⟨.inr (by rw [hhi]; rfl), by rw [hlo]; rfl⟩

theorem unsigned {b c : UInt8} (hb : bytes[i + 1]? = some b) (hc : bytes[i + 2]? = some c)
    (h : ¬ SignedAt bytes i) : ¬ (b = 43 ∧ (hexValue c).isSome = true) := by
  rintro ⟨rfl, hdigit⟩
  exact h ⟨hb, by simpa [hc] using hdigit⟩

/-- Whole, unsigned escapes: both decoders read the same bytes. -/
theorem decodeFrom_agrees (hnext : ∀ j, EscapeAt bytes j → charBoundary bytes (j + 1) = true)
    (hok : ∀ j, EscapeAt bytes j → WholeAt bytes j ∧ ¬ SignedAt bytes j) :
    decodeFrom bytes i = some (percentDecodeBytes (bytes.drop i)) := by
  fun_induction decodeFrom bytes i with
  | case1 i hi h hslice =>
    have hesc := (escapeAt_iff hi).mpr h
    obtain ⟨b, c, -, -, hs⟩ := strSlice_escape hesc (hnext i hesc) (hok i hesc).1
    cases hslice.symm.trans hs
  | case2 i hi h digits hslice d hd ih =>
    have hesc := (escapeAt_iff hi).mpr h
    obtain ⟨b, c, hb, hc, hs⟩ := strSlice_escape hesc (hnext i hesc) (hok i hesc).1
    cases hslice.symm.trans hs
    rw [fromStrRadix_unsigned (unsigned hb hc (hok i hesc).2)] at hd
    obtain ⟨v, hv, rfl⟩ := Option.map_eq_some_iff.mp hd
    rw [ih, percentDecodeBytes_escape hesc hb hc, hv, UInt8.ofNat_toNat]
    rfl
  | case3 i hi h digits hslice hd ih =>
    have hesc := (escapeAt_iff hi).mpr h
    obtain ⟨b, c, hb, hc, hs⟩ := strSlice_escape hesc (hnext i hesc) (hok i hesc).1
    cases hslice.symm.trans hs
    rw [fromStrRadix_unsigned (unsigned hb hc (hok i hesc).2)] at hd
    rw [ih, percentDecodeBytes_escape hesc hb hc, Option.map_eq_none_iff.mp hd, h.1]
    rfl
  | case4 i hi h ih =>
    rw [ih, percentDecodeBytes_other hi (mt (escapeAt_iff hi).mp h)]
    rfl
  | case5 i hi =>
    rw [List.drop_eq_nil_of_le (by omega)]
    rfl

/-- A decoder that returned has met whole escapes only, and every sign it read
has cost it a `%`. -/
theorem decodeFrom_percents {out : List UInt8}
    (hnext : ∀ j, EscapeAt bytes j → charBoundary bytes (j + 1) = true)
    (h : decodeFrom bytes i = some out) :
    (∀ j, i ≤ j → EscapeAt bytes j → WholeAt bytes j) ∧
      out.count 37 ≤ (percentDecodeBytes (bytes.drop i)).count 37 ∧
      (∀ j, i ≤ j → EscapeAt bytes j → SignedAt bytes j →
        out.count 37 < (percentDecodeBytes (bytes.drop i)).count 37) := by
  fun_induction decodeFrom bytes i generalizing out with
  | case1 i hi hi' hslice => cases h
  | case2 i hi hi' digits hslice d hd ih =>
    obtain ⟨rest, hrest, rfl⟩ := Option.map_eq_some_iff.mp h
    have hesc := (escapeAt_iff hi).mpr hi'
    have hw := whole_of_slice hslice
    obtain ⟨b, c, hb, hc, hs⟩ := strSlice_escape hesc (hnext i hesc) hw
    cases hslice.symm.trans hs
    obtain ⟨hwhole, hle, hlt⟩ := ih hrest
    obtain ⟨hbdigit, hcdigit⟩ := digits_of_some hd
    have hone := not_escape_of_digit hb hbdigit
    have htwo := not_escape_of_digit hc (.inr hcdigit)
    have hlater : ∀ j, i ≤ j → EscapeAt bytes j → j = i ∨ i + 3 ≤ j := by
      intro j hj hesc'
      have h₁ : j ≠ i + 1 := fun heq => hone (heq ▸ hesc')
      have h₂ : j ≠ i + 2 := fun heq => htwo (heq ▸ hesc')
      omega
    have hwhole' : ∀ j, i ≤ j → EscapeAt bytes j → WholeAt bytes j := by
      intro j hj hesc'
      rcases hlater j hj hesc' with rfl | hj'
      · exact hw
      · exact hwhole j hj' hesc'
    refine ⟨hwhole', ?_⟩
    by_cases hsign : b = 43 ∧ (hexValue c).isSome = true
    · -- the other decoder copies the `%`, the sign and the digit
      obtain ⟨rfl, -⟩ := hsign
      rw [fromStrRadix_sign] at hd
      obtain ⟨v, hv, rfl⟩ := Option.map_eq_some_iff.mp hd
      have hlt16 := hexValue_lt hv
      have hd37 : UInt8.ofNat v.toNat ≠ 37 := by
        rw [UInt8.ofNat_toNat]
        rintro rfl
        exact absurd hlt16 (by decide)
      rw [percentDecodeBytes_escape hesc hb hc, show twoDigits 43 c = none from rfl,
        percentDecodeBytes_other (by have := hesc.2; omega) hone,
        percentDecodeBytes_other hesc.2 htwo, show i + 2 + 1 = i + 3 from rfl]
      simp only [List.count_cons, beq_iff_eq, if_neg hd37, if_true]
      exact ⟨by omega, fun _ _ _ _ => by omega⟩
    · rw [fromStrRadix_unsigned hsign] at hd
      obtain ⟨v, hv, rfl⟩ := Option.map_eq_some_iff.mp hd
      rw [percentDecodeBytes_escape hesc hb hc, hv, UInt8.ofNat_toNat]
      simp only [List.count_cons]
      refine ⟨by omega, fun j hj hesc' hs' => ?_⟩
      rcases hlater j hj hesc' with rfl | hj'
      · have hb' := Option.some.inj (hb.symm.trans hs'.1)
        exact absurd ⟨hb', hcdigit⟩ hsign
      · have := hlt j hj' hesc' hs'
        omega
  | case3 i hi hi' digits hslice hd ih =>
    obtain ⟨rest, hrest, rfl⟩ := Option.map_eq_some_iff.mp h
    have hesc := (escapeAt_iff hi).mpr hi'
    have hw := whole_of_slice hslice
    obtain ⟨b, c, hb, hc, hs⟩ := strSlice_escape hesc (hnext i hesc) hw
    cases hslice.symm.trans hs
    obtain ⟨hwhole, hle, hlt⟩ := ih hrest
    have hsign : ¬ (b = 43 ∧ (hexValue c).isSome = true) := by
      rintro ⟨rfl, hdigit⟩
      rw [fromStrRadix_sign] at hd
      simp [Option.map_eq_none_iff.mp hd] at hdigit
    have hno : ¬ SignedAt bytes i := by
      rintro ⟨hb', hdigit⟩
      exact hsign ⟨Option.some.inj (hb.symm.trans hb'), by simpa [hc] using hdigit⟩
    have hlater : ∀ j, i ≤ j → j = i ∨ i + 1 ≤ j := by omega
    rw [fromStrRadix_unsigned hsign] at hd
    rw [percentDecodeBytes_escape hesc hb hc, Option.map_eq_none_iff.mp hd, hi'.1]
    simp only [List.count_cons]
    refine ⟨fun j hj hesc' => ?_, by omega, fun j hj hesc' hs' => ?_⟩
    · rcases hlater j hj with rfl | hj'
      · exact hw
      · exact hwhole j hj' hesc'
    · rcases hlater j hj with rfl | hj'
      · exact absurd hs' hno
      · have := hlt j hj' hesc' hs'
        omega
  | case4 i hi hi' ih =>
    obtain ⟨rest, hrest, rfl⟩ := Option.map_eq_some_iff.mp h
    have hno := mt (escapeAt_iff hi).mp hi'
    obtain ⟨hwhole, hle, hlt⟩ := ih hrest
    have hlater : ∀ j, i ≤ j → EscapeAt bytes j → i + 1 ≤ j := by
      intro j hj hesc
      have : j ≠ i := fun heq => hno (heq ▸ hesc)
      omega
    rw [percentDecodeBytes_other hi hno]
    simp only [List.count_cons]
    refine ⟨fun j hj hesc => hwhole j (hlater j hj hesc) hesc, by omega, fun j hj hesc hs => ?_⟩
    have := hlt j (hlater j hj hesc) hesc hs
    omega
  | case5 i hi =>
    have hbeyond : ∀ j, i ≤ j → ¬ EscapeAt bytes j := by
      rintro j hj ⟨-, hlen⟩
      omega
    cases h
    exact ⟨fun j hj hesc => absurd hesc (hbeyond j hj), by simp,
      fun j hj hesc => absurd hesc (hbeyond j hj)⟩

/-- Lossy decoding keeps the number of `%`. -/
theorem count_percent {bytes : List UInt8} {chars : List Char} (h : Aligned bytes chars) :
    chars.count '%' = bytes.count 37 := by
  induction h with
  | nil => rfl
  | @ascii a bytes chars ha h ih =>
    have hchar : Char.ofNat a.toNat = '%' ↔ a = 37 := by
      refine ⟨fun heq => ?_, fun heq => by rw [heq]; rfl⟩
      have heq := congrArg Char.toNat heq
      simp only [UInt8.lt_iff_toNat_lt, UInt8.reduceToNat] at ha
      rw [toNat_ofNat (.inl (by omega))] at heq
      exact UInt8.toNat_inj.mp heq
    simp only [List.count_cons, ih, beq_iff_eq, hchar]
  | @wide group bytes c chars hne hgroup hc h ih =>
    have hc' : c ≠ '%' := by
      rintro rfl
      exact absurd hc (by decide)
    have hgroup' : group.count 37 = 0 :=
      List.count_eq_zero.mpr fun hmem => absurd (hgroup 37 hmem) (by decide)
    rw [List.count_append, hgroup', Nat.zero_add, List.count_cons_of_ne hc', ih]

/-- The upstream client's decoder returns, and with the text of the other
decoder, exactly on the strings without a cut or signed escape. -/
theorem percentDecode_eq_iff (s : String) :
    percentDecode s = some (Validate.percentDecode s) ↔
      ∀ i, EscapeAt (asBytes s) i → WholeAt (asBytes s) i ∧ ¬ SignedAt (asBytes s) i := by
  have hnext : ∀ j, EscapeAt (asBytes s) j → charBoundary (asBytes s) (j + 1) = true := by
    intro j hesc
    have hlen := hesc.2
    exact charBoundary_next s (by omega) hesc.1 (by decide)
  constructor
  · intro h
    obtain ⟨out, hout, htext⟩ := Option.map_eq_some_iff.mp h
    obtain ⟨hwhole, -, hsigned⟩ := decodeFrom_percents hnext hout
    have hcount : out.count 37 = (percentDecodeBytes (asBytes s)).count 37 := by
      have hchars : utf8Lossy out = utf8Lossy (percentDecodeBytes (asBytes s)) :=
        String.ofList_injective htext
      rw [← count_percent (aligned_utf8Lossy out), hchars,
        count_percent (aligned_utf8Lossy _)]
    refine fun i hesc => ⟨hwhole i (Nat.zero_le i) hesc, fun hs => ?_⟩
    have := hsigned i (Nat.zero_le i) hesc hs
    rw [List.drop_zero] at this
    omega
  · intro h
    rw [percentDecode, decodeFrom_agrees hnext h, List.drop_zero]
    rfl

theorem decodeFrom_sign : decodeFrom [37, 43, 53] 0 = some [5] := by
  have hend : decodeFrom [37, 43, 53] 3 = some [] := by
    rw [decodeFrom]
    rfl
  rw [decodeFrom]
  simp only [show fromStrRadix 8 [43, 53] = some 5 from rfl, hend,
    show strSlice [37, 43, 53] (0 + 1) (0 + 3) = some [43, 53] from rfl]
  rfl

/-- A header value that ends in a percent sign, a plus sign and a digit. -/
theorem percentDecode_disagrees :
    ¬ ∀ s, percentDecode s = some (Validate.percentDecode s) := by
  intro h
  have hsign := h "%+5"
  rw [percentDecode, show asBytes "%+5" = [37, 43, 53] from rfl, decodeFrom_sign] at hsign
  have hchars := String.ofList_injective (Option.some.inj hsign)
  revert hchars
  decide

/-- The slice of a `%` before a letter and a wider character is cut. -/
example : percentDecode "%aé" = none := by
  rw [percentDecode, show asBytes "%aé" = [37, 97, 195, 169] from rfl, decodeFrom]
  rfl

end Agreement

end Pccs.Pcs
