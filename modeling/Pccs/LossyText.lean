import Pccs.PckCert

/-!
# Words in lossily decoded text

Lossy decoding keeps every ASCII byte as its character and turns any other
bytes into characters that are not ASCII. An ASCII word therefore occurs in the
text exactly where its bytes occur.
-/
namespace Pccs.Encoding

/-- Bytes and their characters, ASCII one for one and the rest in groups. -/
inductive Aligned : List UInt8 → List Char → Prop
  | nil : Aligned [] []
  | ascii {a : UInt8} {bytes : List UInt8} {chars : List Char} (ha : a < 0x80)
      (h : Aligned bytes chars) : Aligned (a :: bytes) (Char.ofNat a.toNat :: chars)
  | wide {group bytes : List UInt8} {c : Char} {chars : List Char} (hne : group ≠ [])
      (hgroup : ∀ b ∈ group, 0x80 ≤ b) (hc : 0x80 ≤ c.toNat) (h : Aligned bytes chars) :
      Aligned (group ++ bytes) (c :: chars)

/-- What is known of the second byte of a long sequence. -/
theorem secondOk_bounds {lead b : UInt8} (h : secondOk lead b = true) :
    128 ≤ b.toNat ∧ b.toNat ≤ 191 ∧ (lead.toNat = 224 → 160 ≤ b.toNat) ∧
      (lead.toNat = 237 → b.toNat ≤ 159) ∧ (lead.toNat = 240 → 144 ≤ b.toNat) ∧
      (lead.toNat = 244 → b.toNat ≤ 143) := by
  simp only [secondOk, isCont, ← UInt8.toNat_inj, UInt8.le_iff_toNat_le, UInt8.reduceToNat] at h
  split at h
  · simp only [Bool.and_eq_true, decide_eq_true_eq] at h
    omega
  split at h
  · simp only [Bool.and_eq_true, decide_eq_true_eq] at h
    omega
  split at h
  · simp only [Bool.and_eq_true, decide_eq_true_eq] at h
    omega
  split at h
  · simp only [Bool.and_eq_true, decide_eq_true_eq] at h
    omega
  · simp only [Bool.and_eq_true, decide_eq_true_eq] at h
    omega

theorem isCont_bounds {b : UInt8} (h : isCont b = true) : 128 ≤ b.toNat ∧ b.toNat ≤ 191 := by
  simpa [isCont, UInt8.le_iff_toNat_le] using h

theorem toNat_ofNat {n : Nat} (h : n.isValidChar) : (Char.ofNat n).toNat = n := by
  rw [Char.ofNat, dif_pos h]
  rfl

theorem replacement_wide : 0x80 ≤ replacement.toNat := by decide

theorem not_ascii {b : UInt8} (h : 128 ≤ b.toNat) : 0x80 ≤ b := UInt8.le_iff_toNat_le.mpr h

section Groups

variable {a b c d : UInt8} {bytes : List UInt8} {chars : List Char}

theorem aligned_lone (ha : ¬ a < 0x80) (h : Aligned bytes chars) :
    Aligned (a :: bytes) (replacement :: chars) :=
  @Aligned.wide [a] bytes _ _ (by simp) (by simpa using ha) replacement_wide h

theorem aligned_pair (ha : ¬ a < 0x80) (hb : secondOk a b = true) (h : Aligned bytes chars) :
    Aligned (a :: b :: bytes) (replacement :: chars) := by
  have hb := not_ascii (secondOk_bounds hb).1
  exact @Aligned.wide [a, b] bytes _ _ (by simp) (by simp [UInt8.not_lt.mp ha, hb]) replacement_wide h

theorem aligned_triple (ha : ¬ a < 0x80) (hb : secondOk a b = true) (hc : isCont c = true)
    (h : Aligned bytes chars) : Aligned (a :: b :: c :: bytes) (replacement :: chars) := by
  have hb := not_ascii (secondOk_bounds hb).1
  have hc := not_ascii (isCont_bounds hc).1
  exact @Aligned.wide [a, b, c] bytes _ _ (by simp) (by simp [UInt8.not_lt.mp ha, hb, hc])
    replacement_wide h

theorem aligned_two (ha : ¬ a < 0x80) (hlead : 0xC2 ≤ a ∧ a ≤ 0xDF) (hb : isCont b = true)
    (h : Aligned bytes chars) :
    Aligned (a :: b :: bytes) (Char.ofNat (a.toNat % 32 * 64 + b.toNat % 64) :: chars) := by
  have hb := isCont_bounds hb
  have hb' := not_ascii hb.1
  simp only [UInt8.le_iff_toNat_le, UInt8.reduceToNat] at hlead
  refine @Aligned.wide [a, b] bytes _ _ (by simp) (by simp [UInt8.not_lt.mp ha, hb']) ?_ h
  rw [toNat_ofNat (.inl (by omega))]
  omega

/-- Overlong forms and surrogates do not occur, so the number is a character. -/
theorem aligned_three (ha : ¬ a < 0x80) (hlead : 0xE0 ≤ a ∧ a ≤ 0xEF) (hb : secondOk a b = true)
    (hc : isCont c = true) (h : Aligned bytes chars) :
    Aligned (a :: b :: c :: bytes)
      (Char.ofNat (a.toNat % 16 * 4096 + b.toNat % 64 * 64 + c.toNat % 64) :: chars) := by
  have hb := secondOk_bounds hb
  have hc := isCont_bounds hc
  have hb' := not_ascii hb.1
  have hc' := not_ascii hc.1
  simp only [UInt8.le_iff_toNat_le, UInt8.reduceToNat] at hlead
  have hvalid : (a.toNat % 16 * 4096 + b.toNat % 64 * 64 + c.toNat % 64).isValidChar := by
    by_cases hlow : a.toNat < 238
    · by_cases hsurrogate : a.toNat = 237
      · exact .inl (by omega)
      · exact .inl (by omega)
    · exact .inr (by omega)
  refine @Aligned.wide [a, b, c] bytes _ _ (by simp) (by simp [UInt8.not_lt.mp ha, hb', hc']) ?_ h
  rw [toNat_ofNat hvalid]
  omega

theorem aligned_four (ha : ¬ a < 0x80) (hlead : 0xF0 ≤ a ∧ a ≤ 0xF4) (hb : secondOk a b = true)
    (hc : isCont c = true) (hd : isCont d = true) (h : Aligned bytes chars) :
    Aligned (a :: b :: c :: d :: bytes)
      (Char.ofNat (a.toNat % 8 * 262144 + b.toNat % 64 * 4096 + c.toNat % 64 * 64 +
        d.toNat % 64) :: chars) := by
  have hb := secondOk_bounds hb
  have hc := isCont_bounds hc
  have hd := isCont_bounds hd
  have hb' := not_ascii hb.1
  have hc' := not_ascii hc.1
  have hd' := not_ascii hd.1
  simp only [UInt8.le_iff_toNat_le, UInt8.reduceToNat] at hlead
  have hvalid : (a.toNat % 8 * 262144 + b.toNat % 64 * 4096 + c.toNat % 64 * 64 +
      d.toNat % 64).isValidChar := .inr (by omega)
  refine @Aligned.wide [a, b, c, d] bytes _ _ (by simp)
    (by simp [UInt8.not_lt.mp ha, hb', hc', hd']) ?_ h
  rw [toNat_ofNat hvalid]
  omega

end Groups

theorem aligned_utf8Lossy (bytes : List UInt8) : Aligned bytes (utf8Lossy bytes) := by
  fun_induction utf8Lossy bytes with
  | case1 => exact .nil
  | case2 a rest ha ih => exact .ascii ha ih
  | case3 a ha hlead b rest hb ih => exact aligned_two ha hlead hb ih
  | case4 a ha hlead b rest hb ih => exact aligned_lone ha ih
  | case5 a ha hlead => exact aligned_lone ha .nil
  | case6 a ha _ hlead b c rest hb hc ih => exact aligned_three ha hlead hb hc ih
  | case7 a ha _ hlead b c rest hb hc ih => exact aligned_pair ha hb ih
  | case8 a ha _ hlead b c rest hb ih => exact aligned_lone ha ih
  | case9 a ha _ hlead b hb => exact aligned_pair ha hb .nil
  | case10 a ha _ hlead b hb ih => exact aligned_lone ha ih
  | case11 a ha _ hlead => exact aligned_lone ha .nil
  | case12 a ha _ _ hlead b c d rest hb hc hd ih => exact aligned_four ha hlead hb hc hd ih
  | case13 a ha _ _ hlead b c d rest hb hc hd ih => exact aligned_triple ha hb hc ih
  | case14 a ha _ _ hlead b c d rest hb hc ih => exact aligned_pair ha hb ih
  | case15 a ha _ _ hlead b c d rest hb ih => exact aligned_lone ha ih
  | case16 a ha _ _ hlead b c hb hc => exact aligned_triple ha hb hc .nil
  | case17 a ha _ _ hlead b c hb hc ih => exact aligned_pair ha hb ih
  | case18 a ha _ _ hlead b c hb ih => exact aligned_lone ha ih
  | case19 a ha _ _ hlead b hb => exact aligned_pair ha hb .nil
  | case20 a ha _ _ hlead b hb ih => exact aligned_lone ha ih
  | case21 a ha _ _ hlead => exact aligned_lone ha .nil
  | case22 a rest ha _ _ _ ih => exact aligned_lone ha ih

section Words

/-- The text of an ASCII word. -/
def wordText (word : List UInt8) : List Char := word.map fun b => Char.ofNat b.toNat

variable {word bytes : List UInt8} {chars : List Char}

theorem prefix_iff (hword : ∀ b ∈ word, b < 0x80) (h : Aligned bytes chars) :
    word <+: bytes ↔ wordText word <+: chars := by
  induction word generalizing bytes chars with
  | nil => simp [wordText]
  | cons w word ih =>
    obtain ⟨hw, hword⟩ := List.forall_mem_cons.mp hword
    cases h with
    | nil => simp [wordText]
    | @ascii a bytes chars ha h =>
      have hchar : w = a ↔ Char.ofNat w.toNat = Char.ofNat a.toNat := by
        refine ⟨fun heq => by rw [heq], fun heq => ?_⟩
        have heq := congrArg Char.toNat heq
        simp only [UInt8.lt_iff_toNat_lt, UInt8.reduceToNat] at hw ha
        rw [toNat_ofNat (.inl (by omega)), toNat_ofNat (.inl (by omega))] at heq
        exact UInt8.toNat_inj.mp heq
      rw [wordText, List.map_cons, List.cons_prefix_cons, List.cons_prefix_cons, hchar, ih hword h]
      rfl
    | @wide group bytes c chars hne hgroup hc h =>
      obtain ⟨b, group, rfl⟩ := List.exists_cons_of_ne_nil hne
      have hb : w ≠ b := fun heq => UInt8.not_lt.mpr (hgroup b (by simp)) (heq ▸ hw)
      have hchar : Char.ofNat w.toNat ≠ c := by
        intro heq
        have heq := congrArg Char.toNat heq
        simp only [UInt8.lt_iff_toNat_lt, UInt8.reduceToNat] at hw
        rw [toNat_ofNat (.inl (by omega))] at heq
        omega
      rw [wordText, List.map_cons, List.cons_append, List.cons_prefix_cons, List.cons_prefix_cons]
      simp [hb, hchar]

/-- A word does not begin inside a group. -/
theorem infix_group {group : List UInt8} (hword : ∀ b ∈ word, b < 0x80) (hne : word ≠ [])
    (hgroup : ∀ b ∈ group, 0x80 ≤ b) : word <:+: group ++ bytes ↔ word <:+: bytes := by
  obtain ⟨w, word, rfl⟩ := List.exists_cons_of_ne_nil hne
  induction group with
  | nil => rfl
  | cons b group ih =>
    obtain ⟨hb, hgroup⟩ := List.forall_mem_cons.mp hgroup
    have hwb : w ≠ b := fun heq => UInt8.not_lt.mpr hb (heq ▸ hword w (by simp))
    rw [List.cons_append, List.infix_cons_iff, ih hgroup, List.cons_prefix_cons]
    simp [hwb]

/-- An ASCII word occurs in the text if and only if its bytes occur. -/
theorem infix_iff (hword : ∀ b ∈ word, b < 0x80) (hne : word ≠ []) (h : Aligned bytes chars) :
    word <:+: bytes ↔ wordText word <:+: chars := by
  induction h with
  | nil => simp [wordText]
  | @ascii a bytes chars ha h ih =>
    rw [List.infix_cons_iff, List.infix_cons_iff, ih, prefix_iff hword (.ascii ha h)]
  | @wide group bytes c chars hgroupNe hgroup hc h ih =>
    obtain ⟨w, word, rfl⟩ := List.exists_cons_of_ne_nil hne
    have hstart := prefix_iff hword (.wide hgroupNe hgroup hc h)
    obtain ⟨b, group', rfl⟩ := List.exists_cons_of_ne_nil hgroupNe
    have hwb : w ≠ b := fun heq => UInt8.not_lt.mpr (hgroup b (by simp)) (heq ▸ hword w (by simp))
    have hno : ¬ wordText (w :: word) <+: c :: chars := by
      rw [← hstart, List.cons_append, List.cons_prefix_cons]
      simp [hwb]
    rw [infix_group hword hne hgroup, List.infix_cons_iff, ih]
    simp [hno]

end Words

section Plain

theorem utf8Lossy_ascii {chars : List Char} (h : ∀ c ∈ chars, c.toNat ≤ 127) :
    utf8Lossy (chars.flatMap String.utf8EncodeChar) = chars := by
  induction chars with
  | nil => rfl
  | cons c rest ih =>
    obtain ⟨hc, hrest⟩ := List.forall_mem_cons.mp h
    have hbyte : (UInt8.ofNat c.toNat).toNat = c.toNat := by
      simp only [UInt8.toNat_ofNat']
      omega
    have hsmall : UInt8.ofNat c.toNat < 0x80 := by
      rw [UInt8.lt_iff_toNat_lt, hbyte]
      show c.toNat < 128
      omega
    rw [List.flatMap_cons, Text.utf8EncodeChar_ascii hc, List.singleton_append, utf8Lossy.eq_def]
    simp only [if_pos hsmall, ih hrest, hbyte, Char.ofNat_toNat]

/-- The bytes of a character, by their number. -/
theorem utf8EncodeChar_shape (c : Char) :
    (c.toNat ≤ 127 ∧ String.utf8EncodeChar c = [UInt8.ofNat c.toNat]) ∨
    (127 < c.toNat ∧ c.toNat ≤ 0x7FF ∧ ∃ a b, String.utf8EncodeChar c = [a, b] ∧
      a.toNat = c.toNat / 64 + 192 ∧ b.toNat = c.toNat % 64 + 128) ∨
    (0x7FF < c.toNat ∧ c.toNat ≤ 0xFFFF ∧ ∃ a b d, String.utf8EncodeChar c = [a, b, d] ∧
      a.toNat = c.toNat / 4096 + 224 ∧ b.toNat = c.toNat / 64 % 64 + 128 ∧
      d.toNat = c.toNat % 64 + 128) ∨
    (0xFFFF < c.toNat ∧ ∃ a b d e, String.utf8EncodeChar c = [a, b, d, e] ∧
      a.toNat = c.toNat / 262144 + 240 ∧ b.toNat = c.toNat / 4096 % 64 + 128 ∧
      d.toNat = c.toNat / 64 % 64 + 128 ∧ e.toNat = c.toNat % 64 + 128) := by
  have hvalid : c.toNat < 0xD800 ∨ 0xDFFF < c.toNat ∧ c.toNat < 0x110000 := c.valid
  by_cases h₁ : c.toNat ≤ 127
  · exact .inl ⟨h₁, Text.utf8EncodeChar_ascii h₁⟩
  by_cases h₂ : c.toNat ≤ 0x7FF
  · refine .inr (.inl ⟨by omega, h₂, _, _, (if_neg h₁).trans (if_pos h₂), ?_, ?_⟩)
    · simp only [UInt8.toNat_ofNat', Char.toNat_val]; omega
    · simp only [UInt8.toNat_ofNat', Char.toNat_val]; omega
  by_cases h₃ : c.toNat ≤ 0xFFFF
  · refine .inr (.inr (.inl ⟨by omega, h₃, _, _, _,
      ((if_neg h₁).trans (if_neg h₂)).trans (if_pos h₃), ?_, ?_, ?_⟩))
    · simp only [UInt8.toNat_ofNat', Char.toNat_val]; omega
    · simp only [UInt8.toNat_ofNat', Char.toNat_val]; omega
    · simp only [UInt8.toNat_ofNat', Char.toNat_val]; omega
  · refine .inr (.inr (.inr ⟨by omega, _, _, _, _,
      ((if_neg h₁).trans (if_neg h₂)).trans (if_neg h₃), ?_, ?_, ?_, ?_⟩))
    · simp only [UInt8.toNat_ofNat', Char.toNat_val]; omega
    · simp only [UInt8.toNat_ofNat', Char.toNat_val]; omega
    · simp only [UInt8.toNat_ofNat', Char.toNat_val]; omega
    · simp only [UInt8.toNat_ofNat', Char.toNat_val]; omega

/-- Lossy decoding loses nothing of a well-formed character. -/
theorem utf8Lossy_char (c : Char) (rest : List UInt8) :
    utf8Lossy (String.utf8EncodeChar c ++ rest) = c :: utf8Lossy rest := by
  have hvalid : c.toNat < 0xD800 ∨ 0xDFFF < c.toNat ∧ c.toNat < 0x110000 := c.valid
  rcases utf8EncodeChar_shape c with ⟨h, heq⟩ | ⟨hlo, hhi, a, b, heq, ha, hb⟩ |
    ⟨hlo, hhi, a, b, d, heq, ha, hb, hd⟩ | ⟨hlo, a, b, d, e, heq, ha, hb, hd, he⟩
  · have hbyte : (UInt8.ofNat c.toNat).toNat = c.toNat := by
      simp only [UInt8.toNat_ofNat']
      omega
    have hsmall : UInt8.ofNat c.toNat < 0x80 := by
      rw [UInt8.lt_iff_toNat_lt, hbyte]
      show c.toNat < 128
      omega
    rw [heq, List.singleton_append, utf8Lossy.eq_def]
    simp only [if_pos hsmall, hbyte, Char.ofNat_toNat]
  · have hascii : ¬ a < 0x80 := by
      simp only [UInt8.lt_iff_toNat_lt, UInt8.reduceToNat]; omega
    have hlead : 0xC2 ≤ a ∧ a ≤ 0xDF := by
      simp only [UInt8.le_iff_toNat_le, UInt8.reduceToNat]; omega
    have hcont : isCont b = true := by
      simp [isCont, UInt8.le_iff_toNat_le]; omega
    have hnum : a.toNat % 32 * 64 + b.toNat % 64 = c.toNat := by omega
    rw [heq, List.cons_append, List.cons_append, List.nil_append, utf8Lossy.eq_def]
    simp only [if_neg hascii, if_pos hlead, if_pos hcont, hnum, Char.ofNat_toNat]
  · have hascii : ¬ a < 0x80 := by
      simp only [UInt8.lt_iff_toNat_lt, UInt8.reduceToNat]; omega
    have htwo : ¬ (0xC2 ≤ a ∧ a ≤ 0xDF) := by
      simp only [UInt8.le_iff_toNat_le, UInt8.reduceToNat]; omega
    have hlead : 0xE0 ≤ a ∧ a ≤ 0xEF := by
      simp only [UInt8.le_iff_toNat_le, UInt8.reduceToNat]; omega
    have hsecond : secondOk a b = true := by
      simp only [secondOk, isCont, ← UInt8.toNat_inj, UInt8.le_iff_toNat_le, UInt8.reduceToNat]
      split
      · simp; omega
      split
      · simp; omega
      split
      · omega
      split
      · omega
      · simp; omega
    have hcont : isCont d = true := by
      simp [isCont, UInt8.le_iff_toNat_le]; omega
    have hnum : a.toNat % 16 * 4096 + b.toNat % 64 * 64 + d.toNat % 64 = c.toNat := by omega
    rw [heq, List.cons_append, List.cons_append, List.cons_append, List.nil_append,
      utf8Lossy.eq_def]
    simp only [if_neg hascii, if_neg htwo, if_pos hlead, if_pos hsecond, if_pos hcont, hnum,
      Char.ofNat_toNat]
  · have hascii : ¬ a < 0x80 := by
      simp only [UInt8.lt_iff_toNat_lt, UInt8.reduceToNat]; omega
    have htwo : ¬ (0xC2 ≤ a ∧ a ≤ 0xDF) := by
      simp only [UInt8.le_iff_toNat_le, UInt8.reduceToNat]; omega
    have hthree : ¬ (0xE0 ≤ a ∧ a ≤ 0xEF) := by
      simp only [UInt8.le_iff_toNat_le, UInt8.reduceToNat]; omega
    have hlead : 0xF0 ≤ a ∧ a ≤ 0xF4 := by
      simp only [UInt8.le_iff_toNat_le, UInt8.reduceToNat]; omega
    have hsecond : secondOk a b = true := by
      simp only [secondOk, isCont, ← UInt8.toNat_inj, UInt8.le_iff_toNat_le, UInt8.reduceToNat]
      split
      · omega
      split
      · omega
      split
      · simp; omega
      split
      · simp; omega
      · simp; omega
    have hcont : isCont d = true := by
      simp [isCont, UInt8.le_iff_toNat_le]; omega
    have hcont' : isCont e = true := by
      simp [isCont, UInt8.le_iff_toNat_le]; omega
    have hnum : a.toNat % 8 * 262144 + b.toNat % 64 * 4096 + d.toNat % 64 * 64 + e.toNat % 64 =
        c.toNat := by omega
    rw [heq, List.cons_append, List.cons_append, List.cons_append, List.cons_append,
      List.nil_append, utf8Lossy.eq_def]
    simp only [if_neg hascii, if_neg htwo, if_neg hthree, if_pos hlead, if_pos hsecond,
      if_pos hcont, if_pos hcont', hnum, Char.ofNat_toNat]

theorem utf8Lossy_encoded (chars : List Char) :
    utf8Lossy (chars.flatMap String.utf8EncodeChar) = chars := by
  induction chars with
  | nil => rfl
  | cons c rest ih => rw [List.flatMap_cons, utf8Lossy_char, ih]

/-- Without a `%` there is nothing to decode. -/
theorem percentDecodeBytes_plain {bytes : List UInt8} (h : ∀ b ∈ bytes, b ≠ 37) :
    percentDecodeBytes bytes = bytes := by
  fun_induction percentDecodeBytes bytes <;> grind

end Plain

end Pccs.Encoding

namespace Pccs.PckCert

theorem afterMarker_isSome {marker text : List Char} :
    (afterMarker marker text).isSome = true ↔ marker <:+: text := by
  induction text with
  | nil =>
    unfold afterMarker
    split
    · simp [*]
    · simp [*]
  | cons c cs ih =>
    unfold afterMarker
    rw [List.infix_cons_iff, ← List.isPrefixOf_iff_prefix]
    split
    · simp [*]
    · simp [*]

theorem everyByte_lt {word : List UInt8} (h : (word.all fun b => decide (b < 0x80)) = true) :
    ∀ b ∈ word, b < 0x80 := by
  simpa using h

theorem containsText_lossy {marker : String} {word bytes : List UInt8} (hword : ∀ b ∈ word, b < 0x80)
    (hne : word ≠ []) (hmarker : marker.toList = Encoding.wordText word) :
    containsText marker (Encoding.utf8Lossy bytes) = true ↔ word <:+: bytes := by
  rw [containsText, afterMarker_isSome, hmarker]
  exact (Encoding.infix_iff hword hne (Encoding.aligned_utf8Lossy bytes)).symm

end Pccs.PckCert
