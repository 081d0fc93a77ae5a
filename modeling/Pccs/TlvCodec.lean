import Pccs.BigEndian
import Pccs.CertRoundTrip
import Pccs.OcspWriter

/-!
# The element codec

The strict reader takes exactly the canonical encodings, so what it returns is
the only way to read a byte string; the lenient reader of certificates agrees
with it on everything canonical below its own length limit.
-/
namespace Pccs.Ocsp

open Fallible PccsError Der

section Encoder

theorem value_toBeBytes {width n : Nat} (h : n < 256 ^ width) :
    value (BigEndian.toBeBytes width n) = n := by
  induction width generalizing n with
  | zero =>
    obtain rfl : n = 0 := by omega
    rfl
  | succ width ih =>
    have hdigit := BigEndian.digit_lt h
    have hmod := Nat.mod_lt n (Nat.pow_pos (a := 256) (n := width) (by omega))
    have hsplit := Nat.div_add_mod n (256 ^ width)
    rw [BigEndian.toBeBytes, value_cons, BigEndian.length_toBeBytes, ih hmod,
      UInt8.toNat_ofNat_of_lt' hdigit, Nat.mul_comm]
    exact hsplit

theorem value_dropWhile (bytes : List UInt8) : value (bytes.dropWhile (· == 0)) = value bytes := by
  induction bytes with
  | nil => rfl
  | cons b bytes ih =>
    rw [List.dropWhile_cons]
    split
    · have hb : b = 0 := by simpa using ‹(b == 0) = true›
      rw [ih, hb, value_cons]
      simp
    · rfl

/-- The big-endian word without its leading zeros. -/
theorem octets_toBeBytes {width n : Nat} (h : n < 256 ^ width) :
    (BigEndian.toBeBytes width n).dropWhile (· == 0) = octets n := by
  have hhead : ∀ b ∈ ((BigEndian.toBeBytes width n).dropWhile (· == 0)).head?, b ≠ 0 := by
    intro b hb hzero
    have := List.head?_dropWhile_not (fun x : UInt8 => x == 0) (BigEndian.toBeBytes width n)
    rw [Option.mem_def] at hb
    rw [hb] at this
    simp [hzero] at this
  rw [← octets_value hhead, value_dropWhile, value_toBeBytes h]

/-- The encoder: the length word of eight bytes from its first byte that is not
zero. -/
def der (tag : UInt8) (value : List UInt8) : List UInt8 :=
  if value.length < 128 then tag :: UInt8.ofNat value.length :: value
  else
    let bytes := BigEndian.toBeBytes 8 value.length
    let first := bytes.findIdx (· != 0)
    tag :: (0x80 ||| UInt8.ofNat (bytes.length - first)) :: (bytes.drop first ++ value)

theorem marked_count : ∀ k < 9, 0x80 ||| UInt8.ofNat k = UInt8.ofNat (128 + k) := by decide

theorem drop_findIdx (bytes : List UInt8) :
    bytes.drop (bytes.findIdx (· != 0)) = bytes.dropWhile (· == 0) := by
  induction bytes with
  | nil => rfl
  | cons b bytes ih =>
    rw [List.findIdx_cons, List.dropWhile_cons]
    by_cases hb : b = 0
    · simp [hb, ih]
    · have hb' : (b == 0) = false := by simpa using hb
      simp [bne, hb']

theorem length_le_der (tag : UInt8) (content : List UInt8) :
    content.length ≤ (der tag content).length := by
  unfold der
  split
  · simp only [List.length_cons]
    omega
  · simp only [List.length_cons, List.length_append]
    omega

theorem der_eq_element (tag : UInt8) {content : List UInt8} (h : content.length < 2 ^ 64) :
    der tag content = element tag content := by
  unfold der element
  split
  · rename_i hshort
    rw [lengthOctets_short hshort]
    rfl
  · rename_i hlong
    have hfits : content.length < 256 ^ 8 := by omega
    have hoctets := octets_toBeBytes hfits
    have hcount : 8 - (BigEndian.toBeBytes 8 content.length).findIdx (· != 0) =
        (octets content.length).length := by
      rw [← hoctets, ← drop_findIdx, List.length_drop, BigEndian.length_toBeBytes]
    have hle : (octets content.length).length < 9 :=
      Nat.lt_succ_of_le (length_octets_le (by omega))
    simp only []
    rw [lengthOctets_long hlong, BigEndian.length_toBeBytes, hcount, marked_count _ hle,
      drop_findIdx, hoctets]
    rfl

end Encoder

section Reader

theorem long_length : ∀ n < 256, UInt8.ofNat n &&& 0x80 ≠ 0 →
    128 + (UInt8.ofNat n &&& 0x7F).toNat = n := by decide +kernel

/-- The reader of lengths accepts minimal lengths only. -/
theorem lengthOctets_of_tlvLength {tag first : UInt8} {tail : List UInt8} {headerLen valueLen : Nat}
    (h : tlvLength first (tag :: first :: tail) = .ok (headerLen, valueLen)) :
    valueLen < 2 ^ 64 ∧ headerLen = (lengthOctets valueLen).length + 1 ∧
      headerLen ≤ tail.length + 2 ∧
      (tag :: first :: tail).take headerLen = tag :: lengthOctets valueLen := by
  have hfirst : UInt8.ofNat first.toNat = first := UInt8.ofNat_toNat
  have hbits := long_length first.toNat first.toNat_lt
  rw [hfirst] at hbits
  unfold tlvLength at h
  split at h
  · rename_i hshort
    cases pure_eq_ok.mp h
    have hlt := (sign_clear_iff first).mp hshort
    rw [lengthOctets_short hlt, hfirst]
    exact ⟨by omega, rfl, by omega, by simp⟩
  · rename_i hlong
    obtain ⟨_, hcount, h⟩ := bind_eq_ok.mp h
    obtain ⟨_, hlead, h⟩ := bind_eq_ok.mp h
    obtain ⟨_, hmin, h⟩ := bind_eq_ok.mp h
    cases pure_eq_ok.mp h
    have hcount := reject_eq_ok.mp hcount
    have hlead := reject_eq_ok.mp hlead
    have hmin := reject_eq_ok.mp hmin
    have hnum := hbits hlong
    generalize (first &&& 0x7F).toNat = count at *
    simp only [List.length_cons, List.drop_succ_cons, List.drop_zero] at hcount hmin ⊢
    have hlen : (tail.take count).length = count := by
      rw [List.length_take]
      omega
    have hhead : ∀ b ∈ (tail.take count).head?, b ≠ 0 := by
      rintro b hb rfl
      rw [List.head?_take, if_neg (by omega)] at hb
      apply hlead
      simpa [List.head?_eq_getElem?] using hb
    have hvalue : PckCert.bigEndian (tail.take count) = value (tail.take count) := rfl
    have hoctets : octets (value (tail.take count)) = tail.take count := octets_value hhead
    have hlt : value (tail.take count) < 2 ^ 64 := by
      refine Nat.lt_of_lt_of_le (value_lt _) ?_
      rw [hlen]
      exact Nat.pow_le_pow_right (by decide) (show count ≤ 8 by omega)
    rw [hvalue] at hmin ⊢
    rw [lengthOctets_long hmin, hoctets, hlen, hnum, hfirst]
    refine ⟨hlt, by simp [hlen]; omega, by omega, ?_⟩
    rw [show 2 + count = count + 1 + 1 by omega, List.take_succ_cons, List.take_succ_cons]

/-- Whatever the reader returns is an encoding. -/
theorem element_of_takeTlv {b rest : List UInt8} {tlv : Tlv} (h : takeTlv b = .ok (tlv, rest)) :
    OneByte tlv.tag ∧ tlv.value.length < 2 ^ 64 ∧ tlv.raw = element tlv.tag tlv.value ∧
      b = tlv.raw ++ rest := by
  have hsplit := takeTlv_split h
  obtain ⟨⟨tag, first⟩, hheader, h⟩ := bind_eq_ok.mp h
  obtain ⟨_, htag, h⟩ := bind_eq_ok.mp h
  obtain ⟨⟨headerLen, valueLen⟩, hlength, h⟩ := bind_eq_ok.mp h
  obtain ⟨_, henough, h⟩ := bind_eq_ok.mp h
  cases pure_eq_ok.mp h
  have htag := reject_eq_ok.mp htag
  have henough := reject_eq_ok.mp henough
  obtain ⟨tail, rfl⟩ : ∃ tail, b = tag :: first :: tail := by
    have hheader := require_eq_ok.mp hheader
    unfold tlvHeader at hheader
    split at hheader
    · cases hheader
      exact ⟨_, rfl⟩
    · cases hheader
  obtain ⟨hlt, hheaderLen, -, htake⟩ := lengthOctets_of_tlvLength hlength
  have hvalueLen : (((tag :: first :: tail).take (headerLen + valueLen)).drop headerLen).length =
      valueLen := by
    rw [List.length_drop, List.length_take]
    omega
  refine ⟨htag, ?_, ?_, hsplit⟩
  · rw [hvalueLen]
    exact hlt
  · have hparts := List.take_append_drop headerLen ((tag :: first :: tail).take (headerLen + valueLen))
    rw [List.take_take, Nat.min_eq_left (by omega), htake] at hparts
    rw [element, hvalueLen, ← List.cons_append]
    exact hparts.symm

/-- The strict reader and the encoder are inverse to each other. -/
theorem takeTlv_iff {b value raw rest : List UInt8} {tag : UInt8} (hb : b.length < 2 ^ 64) :
    takeTlv b = .ok (⟨tag, value, raw⟩, rest) ↔
      b = raw ++ rest ∧ raw = element tag value ∧ OneByte tag := by
  constructor
  · intro h
    obtain ⟨htag, -, hraw, hsplit⟩ := element_of_takeTlv h
    exact ⟨hsplit, hraw, htag⟩
  · rintro ⟨rfl, rfl, htag⟩
    have hlen := length_element tag value
    rw [List.length_append] at hb
    exact takeTlv_element htag (by omega) rest

/-- Read elements until the input is empty. -/
def takeAllWithin : Nat → List UInt8 → Except PccsError (List Tlv)
  | _, [] => .ok []
  | 0, _ :: _ => .error invalidReq
  | fuel + 1, b :: bs => do
    let (tlv, rest) ← takeTlv (b :: bs)
    let tlvs ← takeAllWithin fuel rest
    return tlv :: tlvs

def takeAll (input : List UInt8) : Except PccsError (List Tlv) := takeAllWithin input.length input

theorem takeAllWithin_elements {input : List UInt8} {tlvs : List Tlv} (h : Elements input tlvs)
    {fuel : Nat} (hfuel : input.length ≤ fuel) : takeAllWithin fuel input = .ok tlvs := by
  induction tlvs generalizing input fuel with
  | nil =>
    cases elements_nil.mp h
    cases fuel <;> rfl
  | cons tlv tlvs ih =>
    obtain ⟨rest, htake, hrest⟩ := elements_cons.mp h
    have hshorter := takeTlv_shortens htake
    cases fuel with
    | zero => omega
    | succ fuel =>
      cases input with
      | nil => exact absurd htake takeTlv_nil
      | cons b bs =>
        exact bind_eq_ok.mpr ⟨_, htake, bind_eq_ok.mpr ⟨_, ih hrest (by omega), rfl⟩⟩

variable {list : List (UInt8 × List UInt8)}

/-- The concatenated encodings. -/
def encodings (list : List (UInt8 × List UInt8)) : List UInt8 := list.flatMap fun t => der t.1 t.2

theorem elements_encodings (h : ∀ t ∈ list, OneByte t.1 ∧ t.2.length < 2 ^ 64) :
    Elements (encodings list) (list.map fun t => ⟨t.1, t.2, der t.1 t.2⟩) := by
  induction list with
  | nil => exact elements_nil.mpr rfl
  | cons t list ih =>
    obtain ⟨⟨htag, hlen⟩, hlist⟩ := List.forall_mem_cons.mp h
    rw [encodings, List.flatMap_cons, List.map_cons, der_eq_element t.1 hlen]
    exact elements_element htag hlen (ih hlist)

theorem tlvs_encodings (h : ∀ t ∈ list, OneByte t.1 ∧ t.2.length < 2 ^ 32) :
    PckCert.tlvs (encodings list) = list := by
  induction list with
  | nil => rfl
  | cons t list ih =>
    obtain ⟨⟨htag, hlen⟩, hlist⟩ := List.forall_mem_cons.mp h
    rw [encodings, List.flatMap_cons, der_eq_element t.1 (by omega), PckCert.tlvs_eq,
      PckCert.nextTlv_element htag hlen]
    exact congrArg _ (ih hlist)

/-- There is one way to read an encoding with what follows it. -/
theorem element_append_inj {tag tag' : UInt8} {content content' rest rest' : List UInt8}
    (htag : OneByte tag) (htag' : OneByte tag')
    (hlen : (element tag content ++ rest).length < 2 ^ 64)
    (h : element tag content ++ rest = element tag' content' ++ rest') :
    tag = tag' ∧ content = content' ∧ rest = rest' := by
  have hread := (takeTlv_iff hlen).mpr ⟨rfl, rfl, htag⟩
  have hread' := (takeTlv_iff hlen).mpr ⟨h, rfl, htag'⟩
  have heq := Except.ok.inj (hread.symm.trans hread')
  simp only [Prod.mk.injEq, Tlv.mk.injEq] at heq
  exact ⟨heq.1.1, heq.1.2.1, heq.2⟩

/-- A slice on a 64-bit target is shorter than `2 ^ 64` bytes. On such slices
the strict reader inverts the encoder, which is therefore injective, also with
trailing bytes; and both readers return a list of encoded elements. -/
theorem tlv_codec :
    (∀ (b : List UInt8) (tag : UInt8) (value raw rest : List UInt8), b.length < 2 ^ 64 →
      (takeTlv b = .ok (⟨tag, value, raw⟩, rest) ↔
        b = raw ++ rest ∧ raw = der tag value ∧ OneByte tag)) ∧
    (∀ (tag tag' : UInt8) (value value' rest rest' : List UInt8), OneByte tag → OneByte tag' →
      (der tag value ++ rest).length < 2 ^ 64 →
      der tag value ++ rest = der tag' value' ++ rest' →
      tag = tag' ∧ value = value' ∧ rest = rest') ∧
    ∀ list : List (UInt8 × List UInt8), (∀ t ∈ list, OneByte t.1 ∧ t.2.length < 2 ^ 32) →
      PckCert.tlvs (encodings list) = list ∧
        takeAll (encodings list) = .ok (list.map fun t => ⟨t.1, t.2, der t.1 t.2⟩) := by
  refine ⟨fun b tag value raw rest hb => ?_,
    fun tag tag' value value' rest rest' htag htag' hlen h => ?_,
    fun list hlist => ⟨tlvs_encodings hlist, ?_⟩⟩
  · rw [takeTlv_iff hb]
    constructor
    · rintro ⟨rfl, rfl, htag⟩
      have hle := length_element tag value
      rw [List.length_append] at hb
      exact ⟨rfl, (der_eq_element tag (by omega)).symm, htag⟩
    · rintro ⟨rfl, rfl, htag⟩
      have hle := length_le_der tag value
      rw [List.length_append] at hb
      exact ⟨rfl, der_eq_element tag (by omega), htag⟩
  · have hlen' : (der tag' value' ++ rest').length < 2 ^ 64 := h ▸ hlen
    have hle := length_le_der tag value
    have hle' := length_le_der tag' value'
    rw [List.length_append] at hlen hlen'
    rw [der_eq_element tag (by omega), der_eq_element tag' (by omega)] at h
    refine element_append_inj htag htag' ?_ h
    rw [← der_eq_element tag (show value.length < 2 ^ 64 by omega), List.length_append]
    exact hlen
  · refine takeAllWithin_elements (elements_encodings fun t ht => ?_) (Nat.le_refl _)
    obtain ⟨htag, hlen⟩ := hlist t ht
    exact ⟨htag, by omega⟩

theorem tlv_codec_null :
    takeTlv [5, 0, 1] = .ok (⟨5, [], [5, 0]⟩, [1]) ∧
      PckCert.tlvs [5, 0, 2, 1, 7] = [(5, []), (2, [7])] := by
  obtain ⟨hread, -, hlist⟩ := tlv_codec
  exact ⟨(hread [5, 0, 1] 5 [] [5, 0] [1] (by decide)).mpr ⟨rfl, rfl, by decide⟩,
    (hlist [(5, []), (2, [7])] (by decide)).1⟩

end Reader

end Pccs.Ocsp
