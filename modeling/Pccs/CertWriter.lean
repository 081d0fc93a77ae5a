import Pccs.Tcb
import Pccs.Der

/-!
# Writing certificates

The reader of PCK certificates accepts what a writer of PEM and DER produces:
base64 in armor, elements with their lengths, and the SGX extension with the
items that platform selection reads.
-/
namespace Pccs.PckCert

open Text Encoding Fallible Der

section Hexadecimal

theorem nibble_byte : ∀ n < 16, String.utf8EncodeChar (upperNibble n) =
    [UInt8.ofNat (upperNibble n).toNat] := by decide

theorem nibble_value : ∀ n < 16,
    hexValue (UInt8.ofNat (upperNibble n).toNat) = some (UInt8.ofNat n) := by decide

theorem nibble_upper : ∀ n < 16, (upperNibble n).toUpper = upperNibble n := by decide

theorem asBytes_hexEncodeUpper (bytes : List UInt8) :
    asBytes (hexEncodeUpper bytes) = bytes.flatMap fun b =>
      [UInt8.ofNat (upperNibble (b.toNat / 16)).toNat,
        UInt8.ofNat (upperNibble (b.toNat % 16)).toNat] := by
  rw [asBytes_eq, hexEncodeUpper, String.toList_ofList, List.flatMap_assoc]
  congr 1
  funext b
  have hb := b.toNat_lt
  simp only [List.flatMap_cons, List.flatMap_nil, List.append_nil,
    nibble_byte (b.toNat / 16) (by omega), nibble_byte (b.toNat % 16) (by omega)]
  rfl

theorem hexDecode_hexEncodeUpper (bytes : List UInt8) :
    hexDecode (asBytes (hexEncodeUpper bytes)) = some bytes := by
  rw [asBytes_hexEncodeUpper]
  induction bytes with
  | nil => rfl
  | cons b rest ih =>
    have hb := b.toNat_lt
    have hval : UInt8.ofNat (b.toNat / 16) * 16 + UInt8.ofNat (b.toNat % 16) = b := by
      apply UInt8.toNat_inj.mp
      simp
      omega
    simp only [List.flatMap_cons, List.cons_append, List.nil_append, hexDecode, ih,
      nibble_value (b.toNat / 16) (by omega), nibble_value (b.toNat % 16) (by omega),
      Option.bind_eq_bind, Option.bind_some, hval, Option.pure_def]

theorem byteLen_hexEncodeUpper (bytes : List UInt8) :
    byteLen (hexEncodeUpper bytes) = 2 * bytes.length := by
  rw [byteLen]
  exact Selection.hexDecode_length (hexDecode_hexEncodeUpper bytes)

theorem hexEncodeUpper_upper (bytes : List UInt8) :
    toAsciiUppercase (hexEncodeUpper bytes) = hexEncodeUpper bytes := by
  rw [toAsciiUppercase, hexEncodeUpper, String.toList_ofList, List.map_flatMap]
  congr 2
  funext b
  have hb := b.toNat_lt
  simp [nibble_upper (b.toNat / 16) (by omega), nibble_upper (b.toNat % 16) (by omega)]

end Hexadecimal

section Armor

def base64Char (n : Nat) : Char :=
  if n < 26 then Char.ofNat (65 + n)
  else if n < 52 then Char.ofNat (71 + n)
  else if n < 62 then Char.ofNat (n - 4)
  else if n = 62 then '+' else '/'

def base64Encode : List UInt8 → List Char
  | [] => []
  | [a] => [base64Char (a.toNat / 4), base64Char (a.toNat % 4 * 16), '=', '=']
  | [a, b] =>
    [base64Char (a.toNat / 4), base64Char (a.toNat % 4 * 16 + b.toNat / 16),
      base64Char (b.toNat % 16 * 4), '=']
  | a :: b :: c :: rest =>
    base64Char (a.toNat / 4) :: base64Char (a.toNat % 4 * 16 + b.toNat / 16) ::
      base64Char (b.toNat % 16 * 4 + c.toNat / 64) :: base64Char (c.toNat % 64) ::
      base64Encode rest

def armor (der : List UInt8) : List Char :=
  beginMarker.toList ++ (base64Encode der ++ endMarker.toList)

def toPem (der : List UInt8) : String := String.ofList (armor der)

/-- The byte of a base64 character. -/
def base64Byte (n : Nat) : UInt8 := UInt8.ofNat (base64Char n).toNat

theorem utf8_base64Char : ∀ n < 64, String.utf8EncodeChar (base64Char n) = [base64Byte n] := by
  decide

theorem base64Value_base64Byte : ∀ n < 64, base64Value (base64Byte n) = some n := by decide

theorem base64Byte_ne_pad : ∀ n < 64, base64Byte n ≠ 61 := by decide

theorem utf8_pad : String.utf8EncodeChar '=' = [61] := by decide

theorem base64Char_plain : ∀ n < 64, base64Char n ≠ '-' ∧ isAsciiWhitespace (base64Char n) = false := by
  decide

theorem base64Decode_encode (bytes : List UInt8) :
    base64Decode ((base64Encode bytes).flatMap String.utf8EncodeChar) = some bytes := by
  induction bytes using base64Encode.induct with
  | case1 => rfl
  | case2 a =>
    have ha := a.toNat_lt
    have h₁ : a.toNat / 4 < 64 := by omega
    have h₂ : a.toNat % 4 * 16 < 64 := by omega
    have ea : a.toNat / 4 * 4 + a.toNat % 4 * 16 / 16 = a.toNat := by omega
    have ez : a.toNat % 4 * 16 % 16 = 0 := by omega
    simp only [base64Encode, List.flatMap_cons, List.flatMap_nil, utf8_base64Char _ h₁,
      utf8_base64Char _ h₂, utf8_pad, List.cons_append, List.nil_append, base64Decode,
      base64Value_base64Byte _ h₁, base64Value_base64Byte _ h₂, and_self, if_true,
      Option.bind_eq_bind, Option.bind_some, ez, ea, UInt8.ofNat_toNat, Option.pure_def]
  | case3 a b =>
    have ha := a.toNat_lt
    have hb := b.toNat_lt
    have h₁ : a.toNat / 4 < 64 := by omega
    have h₂ : a.toNat % 4 * 16 + b.toNat / 16 < 64 := by omega
    have h₃ : b.toNat % 16 * 4 < 64 := by omega
    have ea : a.toNat / 4 * 4 + (a.toNat % 4 * 16 + b.toNat / 16) / 16 = a.toNat := by omega
    have eb : (a.toNat % 4 * 16 + b.toNat / 16) % 16 * 16 + b.toNat % 16 * 4 / 4 = b.toNat := by
      omega
    have ez : b.toNat % 16 * 4 % 4 = 0 := by omega
    simp only [base64Encode, List.flatMap_cons, List.flatMap_nil, utf8_base64Char _ h₁,
      utf8_base64Char _ h₂, utf8_base64Char _ h₃, utf8_pad, List.cons_append, List.nil_append,
      base64Decode, base64Byte_ne_pad _ h₃, base64Value_base64Byte _ h₁,
      base64Value_base64Byte _ h₂, base64Value_base64Byte _ h₃, false_and, if_false, if_true,
      Option.bind_eq_bind, Option.bind_some, ez, ea, eb, UInt8.ofNat_toNat, Option.pure_def]
  | case4 a b c rest ih =>
    have ha := a.toNat_lt
    have hb := b.toNat_lt
    have hc := c.toNat_lt
    have h₁ : a.toNat / 4 < 64 := by omega
    have h₂ : a.toNat % 4 * 16 + b.toNat / 16 < 64 := by omega
    have h₃ : b.toNat % 16 * 4 + c.toNat / 64 < 64 := by omega
    have h₄ : c.toNat % 64 < 64 := by omega
    have ea : a.toNat / 4 * 4 + (a.toNat % 4 * 16 + b.toNat / 16) / 16 = a.toNat := by omega
    have eb : (a.toNat % 4 * 16 + b.toNat / 16) % 16 * 16 +
        (b.toNat % 16 * 4 + c.toNat / 64) / 4 = b.toNat := by omega
    have ec : (b.toNat % 16 * 4 + c.toNat / 64) % 4 * 64 + c.toNat % 64 = c.toNat := by omega
    simp only [base64Encode, List.flatMap_cons, utf8_base64Char _ h₁, utf8_base64Char _ h₂,
      utf8_base64Char _ h₃, utf8_base64Char _ h₄, List.cons_append, List.nil_append]
    cases hrest : (base64Encode rest).flatMap String.utf8EncodeChar with
    | nil =>
      rw [hrest] at ih
      cases ih
      simp only [base64Decode, base64Byte_ne_pad _ h₄, base64Value_base64Byte _ h₁,
        base64Value_base64Byte _ h₂, base64Value_base64Byte _ h₃, base64Value_base64Byte _ h₄,
        and_false, if_false, Option.bind_eq_bind, Option.bind_some, ea, eb, ec, UInt8.ofNat_toNat,
        Option.pure_def]
    | cons x xs =>
      rw [hrest] at ih
      simp only [base64Decode, base64Value_base64Byte _ h₁, base64Value_base64Byte _ h₂,
        base64Value_base64Byte _ h₃, base64Value_base64Byte _ h₄, ih, Option.bind_eq_bind,
        Option.bind_some, ea, eb, ec, UInt8.ofNat_toNat, Option.pure_def]

/-- What holds of the alphabet and of the padding holds of encoded text. -/
theorem base64Encode_forall {P : Char → Prop} (hpad : P '=') (h : ∀ n < 64, P (base64Char n))
    (bytes : List UInt8) : ∀ c ∈ base64Encode bytes, P c := by
  induction bytes using base64Encode.induct with
  | case1 => simp [base64Encode]
  | case2 a =>
    have ha := a.toNat_lt
    have h₁ := h (a.toNat / 4) (by omega)
    have h₂ := h (a.toNat % 4 * 16) (by omega)
    simp [base64Encode, h₁, h₂, hpad]
  | case3 a b =>
    have ha := a.toNat_lt
    have hb := b.toNat_lt
    have h₁ := h (a.toNat / 4) (by omega)
    have h₂ := h (a.toNat % 4 * 16 + b.toNat / 16) (by omega)
    have h₃ := h (b.toNat % 16 * 4) (by omega)
    simp [base64Encode, h₁, h₂, h₃, hpad]
  | case4 a b c rest ih =>
    have ha := a.toNat_lt
    have hb := b.toNat_lt
    have hc := c.toNat_lt
    have h₁ := h (a.toNat / 4) (by omega)
    have h₂ := h (a.toNat % 4 * 16 + b.toNat / 16) (by omega)
    have h₃ := h (b.toNat % 16 * 4 + c.toNat / 64) (by omega)
    have h₄ := h (c.toNat % 64) (by omega)
    simp only [base64Encode, List.forall_mem_cons]
    exact ⟨h₁, h₂, h₃, h₄, ih⟩

/-- Encoded text holds neither a marker nor white space. -/
theorem base64Encode_plain (bytes : List UInt8) :
    ∀ c ∈ base64Encode bytes, c ≠ '-' ∧ isAsciiWhitespace c = false :=
  base64Encode_forall (by decide) base64Char_plain bytes

theorem afterMarker_append {marker : List Char} (h : marker ≠ []) (rest : List Char) :
    afterMarker marker (marker ++ rest) = some rest := by
  obtain ⟨m, ms, rfl⟩ := List.exists_cons_of_ne_nil h
  have hpre : (m :: ms).isPrefixOf (m :: (ms ++ rest)) = true :=
    List.isPrefixOf_iff_prefix.mpr ⟨rest, rfl⟩
  rw [List.cons_append, afterMarker, if_pos hpre, ← List.cons_append, List.drop_left]

/-- A marker does not begin inside text without its first character. -/
theorem beforeMarker_append {m : Char} (marker text tail : List Char) (h : ∀ c ∈ text, c ≠ m) :
    beforeMarker (m :: marker) (text ++ tail) = text ++ beforeMarker (m :: marker) tail := by
  induction text with
  | nil => rfl
  | cons c text ih =>
    obtain ⟨hc, htext⟩ := List.forall_mem_cons.mp h
    have hno : (m :: marker).isPrefixOf (c :: (text ++ tail)) = false := by
      simp [List.isPrefixOf, Ne.symm hc]
    rw [List.cons_append, beforeMarker, hno, if_neg (by decide), ih htext, List.cons_append]

theorem beginMarker_cons : beginMarker.toList = '-' :: beginMarker.toList.tail := by decide +kernel

theorem endMarker_cons : endMarker.toList = '-' :: endMarker.toList.tail := by decide +kernel

theorem armoredToDer_armor (der : List UInt8) : armoredToDer (armor der) = some der := by
  have hdash : ∀ c ∈ base64Encode der, c ≠ '-' := fun c hc => (base64Encode_plain der c hc).1
  have hbegin : beforeMarker beginMarker.toList (base64Encode der ++ endMarker.toList) =
      base64Encode der ++ endMarker.toList := by
    have hend : beforeMarker beginMarker.toList endMarker.toList = endMarker.toList := by
      decide +kernel
    rw [beginMarker_cons] at hend ⊢
    rw [beforeMarker_append _ _ _ hdash, hend]
  have hend : beforeMarker endMarker.toList (base64Encode der ++ endMarker.toList) =
      base64Encode der := by
    have hend : beforeMarker endMarker.toList endMarker.toList = [] := by decide +kernel
    rw [endMarker_cons] at hend ⊢
    rw [beforeMarker_append _ _ _ hdash, hend, List.append_nil]
  have hspace : (base64Encode der).filter (fun c => !isAsciiWhitespace c) = base64Encode der :=
    List.filter_eq_self.mpr fun c hc => by simp [(base64Encode_plain der c hc).2]
  have hne : beginMarker.toList ≠ [] := by
    rw [beginMarker_cons]
    simp
  rw [armoredToDer, armor, afterMarker_append hne]
  simp only [Option.bind_eq_bind, Option.bind_some, hbegin, hend, hspace]
  exact base64Decode_encode der

/-- Reading a PEM text back. -/
theorem parsePckCert_toPem (der : List UInt8) : parsePckCert (toPem der) = parseDer der := by
  rw [parsePckCert, pemToDer, toPem, String.toList_ofList, armoredToDer_armor]

end Armor

section Elements

theorem lengthHeader_octets {n : Nat} (hn : n < 2 ^ 32) (rest : List UInt8) :
    ∃ first tail, lengthOctets n ++ rest = first :: tail ∧
      lengthHeader first tail = some (n, rest) := by
  by_cases hshort : n < 128
  · obtain ⟨hlt, -, hnat⟩ := short_octet n hshort
    refine ⟨UInt8.ofNat n, rest, by rw [lengthOctets_short hshort]; rfl, ?_⟩
    rw [lengthHeader, if_pos hlt, hnat]
  · have hcount : (octets n).length ≤ 4 := length_octets_le (by omega)
    have hpos : 0 < (octets n).length := octets_pos (show n ≠ 0 by omega)
    obtain ⟨hlt, -, hnat⟩ := long_octet (octets n).length (by omega)
    refine ⟨UInt8.ofNat (128 + (octets n).length), octets n ++ rest,
      by rw [lengthOctets_long hshort]; rfl, ?_⟩
    have hfits : ¬ ((octets n).length = 0 ∨ (octets n).length > 4 ∨
        (octets n ++ rest).length < (octets n).length) := by
      rw [List.length_append]
      omega
    have hvalue : bigEndian (octets n) = n := value_octets n
    rw [lengthHeader, if_neg hlt, hnat]
    simp only [hfits, if_false, List.take_left, List.drop_left, hvalue]

theorem nextTlv_element {tag : UInt8} {content : List UInt8} (htag : OneByte tag)
    (hlen : content.length < 2 ^ 32) (rest : List UInt8) :
    nextTlv (element tag content ++ rest) = some ((tag, content), rest) := by
  obtain ⟨first, tail, htail, hheader⟩ := lengthHeader_octets hlen (content ++ rest)
  have hinput : element tag content ++ rest = tag :: first :: tail := by
    rw [element, List.cons_append, List.append_assoc, htail]
  rw [hinput, nextTlv, if_neg htag, hheader]
  simp

/-- One element: tag, length, content. -/
def tlv (t : Tlv) : List UInt8 := element t.1 t.2

/-- An element the reader accepts: a one-byte tag and a length of two bytes. -/
def Writable (t : Tlv) : Prop := OneByte t.1 ∧ t.2.length < 65536

theorem nextTlv_tlv {t : Tlv} (h : Writable t) (rest : List UInt8) :
    nextTlv (tlv t ++ rest) = some (t, rest) := by
  obtain ⟨htag, hlen⟩ := h
  exact nextTlv_element htag (by omega) rest

theorem tlv_length {t : Tlv} (h : t.2.length < 65536) : (tlv t).length ≤ t.2.length + 4 := by
  have hoctets : (octets t.2.length).length ≤ 2 := length_octets_le h
  unfold tlv element lengthOctets
  split
  · simp
  · simp
    omega

theorem tlvs_length {items : List Tlv} (h : ∀ t ∈ items, t.2.length < 65536) :
    (items.flatMap tlv).length ≤ (items.map fun t => t.2.length + 4).sum := by
  induction items with
  | nil => simp
  | cons t items ih =>
    obtain ⟨ht, hitems⟩ := List.forall_mem_cons.mp h
    have hlen := tlv_length ht
    have hrest := ih hitems
    simp only [List.flatMap_cons, List.length_append, List.map_cons, List.sum_cons]
    omega

/-- A sequence of elements is read back as it was written. -/
theorem tlvs_write {items : List Tlv} (h : ∀ t ∈ items, Writable t) :
    tlvs (items.flatMap tlv) = items := by
  induction items with
  | nil => rfl
  | cons t items ih =>
    obtain ⟨ht, hitems⟩ := List.forall_mem_cons.mp h
    rw [List.flatMap_cons, tlvs_eq, nextTlv_tlv ht]
    simp only [ih hitems]

/-- A sequence that is not the extension is searched in turn. -/
theorem extensionAt_sequence {oid content : List UInt8} {kids : List Tlv}
    (hkids : tlvs content = kids) (hno : extensionValue kids oid = none) :
    extensionAt oid (0x30, content) = kids.findSome? (extensionAt oid) := by
  have hcon : isConstructed 0x30 = true := by decide
  simp only [extensionAt, hkids, hno, if_true, hcon, findExtension_eq]

end Elements

section Certificates

/-- What a PCK certificate says about its platform. -/
structure CertFields where
  ppid : List UInt8
  cpusvn : List UInt8
  pcesvn : UInt8
  pceId : List UInt8
  fmspc : List UInt8
  short : ppid.length + cpusvn.length + pceId.length + fmspc.length ≤ 1000
  named : cpusvn ≠ [] ∧ pceId ≠ [] ∧ fmspc ≠ []

namespace CertFields

variable (f : CertFields)

def tcbItems : List Tlv :=
  List.replicate 16 (0x30, []) ++
    [(0x30, [(0x06, []), (0x02, [0, f.pcesvn])].flatMap tlv),
      (0x30, [(0x06, []), (0x04, f.cpusvn)].flatMap tlv)]

def item (last : UInt8) (value : Tlv) : Tlv := (0x30, [(0x06, subOid last), value].flatMap tlv)

def items : List Tlv :=
  [item 0x01 (0x04, f.ppid), item 0x02 (0x30, f.tcbItems.flatMap tlv), item 0x03 (0x04, f.pceId),
    item 0x04 (0x04, f.fmspc)]

def extension : Tlv :=
  (0x30, [(0x06, sgxExtOid), (0x04, tlv (0x30, f.items.flatMap tlv))].flatMap tlv)

/-- Version 3, a serial number, a signature algorithm, an issuer, the extension. -/
def tbs : List Tlv :=
  [(0xA0, tlv (0x02, [2])), (0x02, [1]), (0x30, []), (0x0C, []), f.extension]

def der : List UInt8 := tlv (0x30, tlv (0x30, f.tbs.flatMap tlv))

def pem : String := toPem f.der

def info : PckCertInfo where
  version := 3
  fmspc := hexEncodeUpper f.fmspc
  pceId := hexEncodeUpper f.pceId
  ppid := hexEncodeUpper f.ppid
  cpusvn := hexEncodeUpper f.cpusvn
  pcesvn := f.pcesvn.toUInt32
  ca := ""

theorem sequence_tag : OneByte 0x30 := by decide

theorem oid_tag : OneByte 0x06 := by decide

theorem octets_tag : OneByte 0x04 := by decide

theorem item_length (last : UInt8) {value : Tlv} (h : value.2.length < 65536) :
    (item last value).2.length ≤ value.2.length + 18 := by
  have hoid : (subOid last).length < 65536 := by simp [subOid, sgxExtOid]
  refine Nat.le_trans (tlvs_length (List.forall_mem_cons.mpr ⟨hoid, by simpa using h⟩)) ?_
  simp [subOid, sgxExtOid]
  omega

/-- A field of the TCB without its name. -/
theorem tcbField_length {value : Tlv} (h : value.2.length < 65536) :
    ([(0x06, []), value].flatMap tlv).length ≤ value.2.length + 8 := by
  refine Nat.le_trans (tlvs_length (List.forall_mem_cons.mpr ⟨by simp, by simpa using h⟩)) ?_
  simp
  omega

theorem tcbItems_writable : ∀ t ∈ f.tcbItems, Writable t := by
  have hshort := f.short
  have hp := @tcbField_length (0x02, [0, f.pcesvn]) (by simp)
  have hc := @tcbField_length (0x04, f.cpusvn) (by simp only; omega)
  simp only [List.length_cons, List.length_nil] at hp hc
  intro t ht
  simp only [tcbItems, List.mem_append, List.mem_replicate, List.mem_cons, List.not_mem_nil,
    or_false] at ht
  obtain ⟨_, rfl⟩ | rfl | rfl := ht
  · exact ⟨sequence_tag, by simp⟩
  · exact ⟨sequence_tag, by simp only; omega⟩
  · exact ⟨sequence_tag, by simp only; omega⟩

theorem tcbItems_length : (f.tcbItems.flatMap tlv).length ≤ f.cpusvn.length + 90 := by
  have hshort := f.short
  have hp := @tcbField_length (0x02, [0, f.pcesvn]) (by simp)
  have hc := @tcbField_length (0x04, f.cpusvn) (by simp only; omega)
  have hz : (List.replicate 16 (([] : List UInt8).length + 4)).sum = 64 := by decide
  simp only [List.length_cons, List.length_nil] at hp hc
  refine Nat.le_trans (tlvs_length fun t ht => (f.tcbItems_writable t ht).2) ?_
  simp only [tcbItems, List.map_append, List.map_replicate, List.map_cons, List.map_nil,
    List.sum_append, List.sum_cons, List.sum_nil, hz]
  omega

theorem item_lengths : (item 0x01 (0x04, f.ppid)).2.length ≤ f.ppid.length + 18 ∧
    (item 0x02 (0x30, f.tcbItems.flatMap tlv)).2.length ≤ f.cpusvn.length + 108 ∧
    (item 0x03 (0x04, f.pceId)).2.length ≤ f.pceId.length + 18 ∧
    (item 0x04 (0x04, f.fmspc)).2.length ≤ f.fmspc.length + 18 := by
  have hshort := f.short
  have htcb := f.tcbItems_length
  have ht := @item_length 0x02 (0x30, f.tcbItems.flatMap tlv) (by simp only; omega)
  simp only at ht
  exact ⟨item_length _ (by simp only; omega), by omega, item_length _ (by simp only; omega),
    item_length _ (by simp only; omega)⟩

theorem items_writable : ∀ t ∈ f.items, Writable t := by
  obtain ⟨hp, ht, he, hf⟩ := f.item_lengths
  have hshort := f.short
  simp only [items, List.forall_mem_cons]
  exact ⟨⟨sequence_tag, by omega⟩, ⟨sequence_tag, by omega⟩, ⟨sequence_tag, by omega⟩,
    ⟨sequence_tag, by omega⟩, by simp⟩

theorem items_length : (f.items.flatMap tlv).length ≤ 1200 := by
  obtain ⟨hp, ht, he, hf⟩ := f.item_lengths
  have hshort := f.short
  refine Nat.le_trans (tlvs_length fun t ht => (f.items_writable t ht).2) ?_
  simp only [items, List.map_cons, List.map_nil, List.sum_cons, List.sum_nil]
  omega

/-- The SGX items as one element. -/
theorem sequence_items_length : (tlv (0x30, f.items.flatMap tlv)).length ≤ 1204 := by
  have hitems := f.items_length
  have hi := @tlv_length (0x30, f.items.flatMap tlv) (by simp only; omega)
  simp only at hi
  omega

theorem extension_length : f.extension.2.length ≤ 1230 := by
  have hi := f.sequence_items_length
  refine Nat.le_trans (tlvs_length (List.forall_mem_cons.mpr ⟨by simp [sgxExtOid],
    List.forall_mem_singleton.mpr (by simp only; omega)⟩)) ?_
  simp only [sgxExtOid, List.map_cons, List.map_nil, List.sum_cons, List.sum_nil, List.length_cons,
    List.length_nil]
  omega

theorem tbs_writable : ∀ t ∈ f.tbs, Writable t := by
  have hv := @tlv_length (0x02, [2]) (by decide)
  have he := f.extension_length
  have htag : OneByte 0xA0 ∧ OneByte 0x02 ∧ OneByte 0x0C := by decide
  simp only [List.length_cons, List.length_nil] at hv
  simp only [tbs, List.forall_mem_cons]
  refine ⟨⟨htag.1, by simp only; omega⟩, ⟨htag.2.1, by simp⟩, ⟨sequence_tag, by simp⟩,
    ⟨htag.2.2, by simp⟩, ⟨sequence_tag, by omega⟩, by simp⟩

theorem tbs_length : (f.tbs.flatMap tlv).length ≤ 1270 := by
  have hv := @tlv_length (0x02, [2]) (by decide)
  have he := f.extension_length
  refine Nat.le_trans (tlvs_length fun t ht => (f.tbs_writable t ht).2) ?_
  simp only [tbs, List.map_cons, List.map_nil, List.sum_cons, List.sum_nil, List.length_cons,
    List.length_nil] at hv ⊢
  omega

/-- The part that is signed, as one element. -/
theorem sequence_tbs_length : (tlv (0x30, f.tbs.flatMap tlv)).length ≤ 1274 := by
  have htbs := f.tbs_length
  have hi := @tlv_length (0x30, f.tbs.flatMap tlv) (by simp only; omega)
  simp only at hi
  omega

theorem tlvs_item (last : UInt8) (value : Tlv) (h : Writable value) :
    tlvs (item last value).2 = [(0x06, subOid last), value] := by
  refine tlvs_write (List.forall_mem_cons.mpr ⟨⟨oid_tag, ?_⟩, by simpa using h⟩)
  simp [subOid, sgxExtOid]

theorem tlvs_tcbField (value : Tlv) (h : Writable value) :
    tlvs ([(0x06, []), value].flatMap tlv) = [(0x06, []), value] :=
  tlvs_write (List.forall_mem_cons.mpr ⟨⟨oid_tag, by simp⟩, by simpa using h⟩)

theorem subOid_inj {a b : UInt8} : subOid a = subOid b ↔ a = b := by simp [subOid]

theorem readSgxItem_item (acc : SgxItems) (last : UInt8) (value : Tlv) (h : Writable value) :
    readSgxItem acc (item last value) =
      if last = 0x04 then .ok { acc with fmspc := hexEncodeUpper value.2 }
      else if last = 0x03 then .ok { acc with pceId := hexEncodeUpper value.2 }
      else if last = 0x01 then .ok { acc with ppid := hexEncodeUpper value.2 }
      else if last = 0x02 then
        if (tlvs value.2).length < 18 then .error "Invalid SGX TCB extension"
        else .ok
          { acc with
            pcesvn := (tcbField (tlvs value.2) 16).bind fun t => derInt t.2
            cpusvn := ((tcbField (tlvs value.2) 17).map fun t => hexEncodeUpper t.2).getD "" }
      else .ok acc := by
  have hkids := tlvs_item last value h
  simp only [item] at hkids ⊢
  simp only [readSgxItem, hkids, subOid_inj]

theorem derInt_pcesvn : derInt [0, f.pcesvn] = some f.pcesvn.toUInt32 := by
  have h := f.pcesvn.toNat_lt
  have hv : bigEndian [0, f.pcesvn] = f.pcesvn.toNat := by simp [bigEndian]
  have hlt : f.pcesvn.toNat < 2 ^ 32 := by omega
  have hto : UInt32.ofNat f.pcesvn.toNat = f.pcesvn.toUInt32 := by
    apply UInt32.toNat_inj.mp
    simp
  simp only [derInt, hv, hlt, hto]
  rfl

theorem tcbField_eq {items kids : List Tlv} {idx : Nat} {t : Tlv} (hitem : items[idx]? = some t)
    (hkids : tlvs t.2 = kids) : tcbField items idx = kids[1]? := by
  simp only [tcbField, hitem, Option.bind_eq_bind, Option.bind_some, hkids]

theorem tcbItems_fields :
    (tcbField f.tcbItems 16).bind (fun t => derInt t.2) = some f.pcesvn.toUInt32 ∧
    (tcbField f.tcbItems 17).map (fun t => hexEncodeUpper t.2) = some (hexEncodeUpper f.cpusvn) := by
  have hshort := f.short
  have htag : OneByte 0x02 := by decide
  have hp := tlvs_tcbField (0x02, [0, f.pcesvn]) ⟨htag, by simp⟩
  have hc := tlvs_tcbField (0x04, f.cpusvn) ⟨octets_tag, by simp only; omega⟩
  constructor
  · have : f.tcbItems[16]? = some (0x30, [(0x06, []), (0x02, [0, f.pcesvn])].flatMap tlv) := rfl
    rw [tcbField_eq this hp, List.getElem?_cons_succ, List.getElem?_cons_zero, Option.bind_some]
    exact f.derInt_pcesvn
  · have : f.tcbItems[17]? = some (0x30, [(0x06, []), (0x04, f.cpusvn)].flatMap tlv) := rfl
    rw [tcbField_eq this hc]
    rfl

/-- The four items are read into the fields they stand for. -/
theorem read_items : f.items.foldlM readSgxItem {} =
    .ok ⟨hexEncodeUpper f.fmspc, hexEncodeUpper f.pceId, hexEncodeUpper f.ppid,
      hexEncodeUpper f.cpusvn, some f.pcesvn.toUInt32⟩ := by
  have hshort := f.short
  have htcb := f.tcbItems_length
  have hitems := tlvs_write f.tcbItems_writable
  have hlen : ¬ f.tcbItems.length < 18 := by simp [tcbItems]
  obtain ⟨hpcesvn, hcpusvn⟩ := f.tcbItems_fields
  have h₁ := fun acc => readSgxItem_item acc 0x01 (0x04, f.ppid) ⟨octets_tag, by simp only; omega⟩
  have h₂ := fun acc => readSgxItem_item acc 0x02 (0x30, f.tcbItems.flatMap tlv)
    ⟨sequence_tag, by simp only; omega⟩
  have h₃ := fun acc => readSgxItem_item acc 0x03 (0x04, f.pceId) ⟨octets_tag, by simp only; omega⟩
  have h₄ := fun acc => readSgxItem_item acc 0x04 (0x04, f.fmspc) ⟨octets_tag, by simp only; omega⟩
  simp only [hitems, hlen, hpcesvn, hcpusvn] at h₂
  simp only [items, List.foldlM_cons, List.foldlM_nil, h₁, h₂, h₃, h₄]
  rfl

theorem tlvs_one {t : Tlv} (h : Writable t) : tlvs (tlv t) = [t] := by
  simpa using @tlvs_write [t] (by simpa using h)

theorem tlvs_extension : tlvs f.extension.2 =
    [(0x06, sgxExtOid), (0x04, tlv (0x30, f.items.flatMap tlv))] := by
  have hi := f.sequence_items_length
  refine tlvs_write ?_
  simp only [List.forall_mem_cons]
  exact ⟨⟨oid_tag, by simp [sgxExtOid]⟩, ⟨octets_tag, by simp only; omega⟩, by simp⟩

theorem findExtension_der : findExtension f.der sgxExtOid = some (tlv (0x30, f.items.flatMap tlv)) := by
  have htbs := f.tbs_length
  have hcert := f.sequence_tbs_length
  have h₁ : tlvs f.der = [(0x30, tlv (0x30, f.tbs.flatMap tlv))] :=
    tlvs_one ⟨sequence_tag, by simp only; omega⟩
  have h₂ : tlvs (tlv (0x30, f.tbs.flatMap tlv)) = [(0x30, f.tbs.flatMap tlv)] :=
    tlvs_one ⟨sequence_tag, by simp only; omega⟩
  have h₃ : tlvs (f.tbs.flatMap tlv) = f.tbs := tlvs_write f.tbs_writable
  have hversion : extensionAt sgxExtOid (0xA0, tlv (0x02, [2])) = none := by decide
  have hserial : extensionAt sgxExtOid (0x02, [1]) = none := by decide
  have hempty : extensionAt sgxExtOid (0x30, []) = none := by decide
  have hissuer : extensionAt sgxExtOid (0x0C, []) = none := by decide
  have hext : extensionAt sgxExtOid f.extension = some (tlv (0x30, f.items.flatMap tlv)) := by
    have hvalue : extensionValue (tlvs f.extension.2) sgxExtOid =
        some (tlv (0x30, f.items.flatMap tlv)) := by
      rw [f.tlvs_extension]
      rfl
    have htag : f.extension.1 = 0x30 := rfl
    simp only [extensionAt, htag, if_true, hvalue]
  have hfound : f.tbs.findSome? (extensionAt sgxExtOid) =
      some (tlv (0x30, f.items.flatMap tlv)) := by
    simp only [tbs, List.findSome?_cons, hversion, hserial, hempty, hissuer, hext]
  have hcertAt : extensionAt sgxExtOid (0x30, f.tbs.flatMap tlv) =
      some (tlv (0x30, f.items.flatMap tlv)) := (extensionAt_sequence h₃ rfl).trans hfound
  have hderAt : extensionAt sgxExtOid (0x30, tlv (0x30, f.tbs.flatMap tlv)) =
      some (tlv (0x30, f.items.flatMap tlv)) := by
    rw [extensionAt_sequence h₂ rfl, List.findSome?_cons, hcertAt]
  rw [findExtension_eq, h₁, List.findSome?_cons, hderAt]

/-- What the writer says is what the reader reads. -/
theorem parsePckCert_pem : parsePckCert f.pem = .ok f.info := by
  have htbs := f.tbs_length
  have hitems := f.items_length
  have hcert := f.sequence_tbs_length
  have h₁ : tlvs f.der = [(0x30, tlv (0x30, f.tbs.flatMap tlv))] :=
    tlvs_one ⟨sequence_tag, by simp only; omega⟩
  have h₂ : tlvs (tlv (0x30, f.tbs.flatMap tlv)) = [(0x30, f.tbs.flatMap tlv)] :=
    tlvs_one ⟨sequence_tag, by simp only; omega⟩
  have h₃ : tlvs (f.tbs.flatMap tlv) = f.tbs := tlvs_write f.tbs_writable
  have h₄ : tlvs (f.items.flatMap tlv) = f.items := tlvs_write f.items_writable
  have hsgx : sgxItems (tlv (0x30, f.items.flatMap tlv)) = f.items := by
    rw [sgxItems, tlvs_one ⟨sequence_tag, by simp only; omega⟩]
    exact h₄
  have hversion : certVersion (tlvs (f.tbs.flatMap tlv)) = .ok (3, 3) := by
    rw [h₃]
    rfl
  have hca : issuerCa (tlvs (f.tbs.flatMap tlv)) 3 = "" := by
    rw [h₃]
    rfl
  have hnamed : ¬ (hexEncodeUpper f.cpusvn = "" ∨ hexEncodeUpper f.fmspc = "" ∨
      hexEncodeUpper f.pceId = "") := by
    obtain ⟨hc, hp, hf⟩ := f.named
    simp [hexEncodeUpper_eq_empty, hc, hp, hf]
  rw [pem, parsePckCert_toPem]
  refine bind_eq_ok.mpr ⟨tlv (0x30, f.tbs.flatMap tlv), by rw [firstSequence, h₁]; rfl, ?_⟩
  refine bind_eq_ok.mpr ⟨f.tbs.flatMap tlv, by rw [firstSequence, h₂]; rfl, ?_⟩
  refine bind_eq_ok.mpr ⟨(3, 3), hversion, ?_⟩
  refine bind_eq_ok.mpr ⟨_, by rw [f.findExtension_der]; rfl, ?_⟩
  refine bind_eq_ok.mpr ⟨_, by rw [hsgx]; exact f.read_items, ?_⟩
  refine bind_eq_ok.mpr ⟨f.pcesvn.toUInt32, rfl, ?_⟩
  simp only [hnamed, if_false, hca]
  rfl

/-- The level the certificate is for. -/
def tcb (h : f.cpusvn.length = 16) : Selection.Tcb where
  cpusvn := hexEncodeUpper f.cpusvn
  pcesvn := f.pcesvn.toUInt32
  components := ⟨(f.cpusvn.map UInt8.toUInt32 ++ [f.pcesvn.toUInt32]).toArray, by simp [h]⟩

theorem new_info (h : f.cpusvn.length = 16) :
    Selection.Tcb.new f.info.cpusvn f.info.pcesvn = .ok (f.tcb h) := by
  have hlen : ¬ byteLen (hexEncodeUpper f.cpusvn) ≠ Selection.cpusvnHexLen := by
    rw [byteLen_hexEncodeUpper, h]
    decide
  simp only [Selection.Tcb.new, info, hlen, if_false, hexDecode_hexEncodeUpper, h, dif_pos]
  rw [tcb, hexEncodeUpper_upper]

end CertFields

end Certificates

end Pccs.PckCert
