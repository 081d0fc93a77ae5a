import Pccs.Encoding
import Pccs.Fallible

/-!
# The SGX extension of a PCK certificate

A PCK certificate is read only as far as platform selection needs it: the DER
tree is walked for the SGX extension and its items, signatures are not looked
at. The walk is a loop over the bytes that are left; every element takes at
least its two header bytes, so the length of the input bounds it.
-/
namespace Pccs.PckCert

open Text Encoding

/-- DER of OID `1.2.840.113741.1.13.1`. -/
def sgxExtOid : List UInt8 := [0x2A, 0x86, 0x48, 0x86, 0xF8, 0x4D, 0x01, 0x0D, 0x01]

def subOid (last : UInt8) : List UInt8 := sgxExtOid ++ [last]

/-- The fields that PCK selection reads from a certificate. -/
structure PckCertInfo where
  version : UInt32
  fmspc : String
  pceId : String
  ppid : String
  cpusvn : String
  pcesvn : UInt32
  ca : String
deriving DecidableEq, Repr

abbrev Tlv : Type := UInt8 × List UInt8

def bigEndian (bytes : List UInt8) : Nat := bytes.foldl (fun v b => v * 256 + b.toNat) 0

/-- The length and the header size of the element whose first length byte is
`first`; `rest` is what follows that byte. -/
def lengthHeader (first : UInt8) (rest : List UInt8) : Option (Nat × List UInt8) :=
  if first < 0x80 then some (first.toNat, rest)
  else
    let n := (first &&& 0x7F).toNat
    -- indefinite, oversized or truncated length
    if n = 0 ∨ n > 4 ∨ rest.length < n then none
    else some (bigEndian (rest.take n), rest.drop n)

/-- The next element and the bytes behind it. A multi-byte tag or a length past
the end stops the reader. -/
def nextTlv : List UInt8 → Option (Tlv × List UInt8)
  | tag :: first :: rest =>
    if tag &&& 0x1F = 0x1F then none
    else
      match lengthHeader first rest with
      | none => none
      | some (len, body) =>
        if body.length < len then none else some ((tag, body.take len), body.drop len)
  | _ => none

def tlvsWithin : Nat → List UInt8 → List Tlv
  | 0, _ => []
  | fuel + 1, buf =>
    match nextTlv buf with
    | none => []
    | some (tlv, rest) => tlv :: tlvsWithin fuel rest

/-- One TLV per element, up to the first one that cannot be read. -/
def tlvs (buf : List UInt8) : List Tlv := tlvsWithin buf.length buf

def isConstructed (tag : UInt8) : Bool := tag &&& 0x20 ≠ 0

def extensionValue (kids : List Tlv) (oid : List UInt8) : Option (List UInt8) :=
  match kids with
  | (0x06, id) :: _ :: _ =>
    if id = oid then
      match kids.getLast? with
      | some (0x04, value) => some value
      | _ => none
    else none
  | _ => none

/-- Depth-first search for the extension, one level of nesting per unit of
fuel. -/
def findExtensionWithin : Nat → List UInt8 → List UInt8 → Option (List UInt8)
  | 0, _, _ => none
  | fuel + 1, buf, oid =>
    (tlvs buf).findSome? fun (tag, content) =>
      match if tag = 0x30 then extensionValue (tlvs content) oid else none with
      | some value => some value
      | none => if isConstructed tag then findExtensionWithin fuel content oid else none

/-- Contents of the extension whose OID is `oid`. -/
def findExtension (buf oid : List UInt8) : Option (List UInt8) :=
  findExtensionWithin buf.length buf oid

/-- A DER INTEGER is signed: a set top bit would be a negative value. -/
def derInt (bytes : List UInt8) : Option UInt32 :=
  match bytes with
  | [] => none
  | b :: _ =>
    if bytes.length > 5 ∨ b &&& 0x80 ≠ 0 then none
    else
      let v := bigEndian bytes
      if v < 2 ^ 32 then some (UInt32.ofNat v) else none

/-- The text behind the first occurrence of a marker. -/
def afterMarker (marker : List Char) : List Char → Option (List Char)
  | [] => if marker = [] then some [] else none
  | c :: cs =>
    if marker.isPrefixOf (c :: cs) then some ((c :: cs).drop marker.length)
    else afterMarker marker cs

/-- The text before the first occurrence of a marker, all of it if there is
none. -/
def beforeMarker (marker : List Char) : List Char → List Char
  | [] => []
  | c :: cs => if marker.isPrefixOf (c :: cs) then [] else c :: beforeMarker marker cs

def containsText (marker : String) (text : List Char) : Bool :=
  (afterMarker marker.toList text).isSome

def beginMarker : String := "-----BEGIN CERTIFICATE-----"

def endMarker : String := "-----END CERTIFICATE-----"

/-- The second piece of a split on the opening marker ends at the next opening
marker, then at the closing one. -/
def armoredToDer (text : List Char) : Option (List UInt8) := do
  let rest ← afterMarker beginMarker.toList text
  let body := beforeMarker beginMarker.toList rest
  let b64 := (beforeMarker endMarker.toList body).filter fun c => !isAsciiWhitespace c
  base64Decode (b64.flatMap String.utf8EncodeChar)

def pemToDer (pem : String) : Option (List UInt8) := armoredToDer pem.toList

def parseFailed : String := "Parsing PCK certificate from DB failed"

/-- What has been read of the SGX extension so far. -/
structure SgxItems where
  fmspc : String := ""
  pceId : String := ""
  ppid : String := ""
  cpusvn : String := ""
  pcesvn : Option UInt32 := none

/-- The value of one `{OID, value}` pair of the TCB sequence. -/
def tcbField (items : List Tlv) (idx : Nat) : Option Tlv := do
  let item ← items[idx]?
  (tlvs item.2)[1]?

def readSgxItem (acc : SgxItems) : Tlv → Except String SgxItems
  | (0x30, content) =>
    match tlvs content with
    | (0x06, oid) :: (_, value) :: _ =>
      if oid = subOid 0x04 then .ok { acc with fmspc := hexEncodeUpper value }
      else if oid = subOid 0x03 then .ok { acc with pceId := hexEncodeUpper value }
      else if oid = subOid 0x01 then .ok { acc with ppid := hexEncodeUpper value }
      else if oid = subOid 0x02 then
        let items := tlvs value
        if items.length < 18 then .error "Invalid SGX TCB extension"
        else .ok
          { acc with
            pcesvn := (tcbField items 16).bind fun t => derInt t.2
            cpusvn := ((tcbField items 17).map fun t => hexEncodeUpper t.2).getD "" }
      else .ok acc
    | _ => .ok acc
  | _ => .ok acc

/-- The extension value holds one SEQUENCE whose children are the pairs. -/
def sgxItems (sgx : List UInt8) : List Tlv :=
  match tlvs sgx with
  | [(0x30, inner)] => tlvs inner
  | other => other

def firstSequence (buf : List UInt8) : Except String (List UInt8) :=
  match (tlvs buf).find? fun t => t.1 == 0x30 with
  | some t => .ok t.2
  | none => .error parseFailed

/-- The certificate version and the position of the issuer name. The version
is the encoded value plus one; without the field it is 1. -/
def certVersion (tbsKids : List Tlv) : Except String (UInt32 × Nat) :=
  match tbsKids with
  | (0xA0, v) :: _ =>
    match ((tlvs v).find? fun t => t.1 == 0x02).bind fun t => derInt t.2 with
    | some raw => .ok (raw + 1, 3)
    | none => .error parseFailed
  | _ => .ok (1, 2)

/-- The CA type is read off the issuer name only. -/
def issuerCa (tbsKids : List Tlv) (issuerIndex : Nat) : String :=
  match tbsKids[issuerIndex]? with
  | none => ""
  | some (_, issuer) =>
    let text := utf8Lossy issuer
    if containsText "Platform" text then "PLATFORM"
    else if containsText "Processor" text then "PROCESSOR"
    else ""

def parseDer (der : List UInt8) : Except String PckCertInfo := do
  let cert ← firstSequence der
  let tbs ← firstSequence cert
  let tbsKids := tlvs tbs
  let (version, issuerIndex) ← certVersion tbsKids
  let ca := issuerCa tbsKids issuerIndex
  let sgx ← (findExtension der sgxExtOid).elim (.error "SGX extension not found in PCK cert") .ok
  let items ← (sgxItems sgx).foldlM readSgxItem {}
  let pcesvn ← items.pcesvn.elim (.error "Invalid SGX TCB extension") .ok
  if items.cpusvn = "" ∨ items.fmspc = "" ∨ items.pceId = "" then
    .error "Invalid SGX extension in PCK cert"
  else
    .ok ⟨version, items.fmspc, items.pceId, items.ppid, items.cpusvn, pcesvn, ca⟩

def parsePckCert (pem : String) : Except String PckCertInfo :=
  match pemToDer pem with
  | none => .error parseFailed
  | some der => parseDer der

section Bounds

theorem lengthHeader_le {first : UInt8} {rest body : List UInt8} {len : Nat}
    (h : lengthHeader first rest = some (len, body)) : body.length ≤ rest.length := by
  simp only [lengthHeader] at h
  split at h
  · cases h; exact Nat.le_refl _
  · split at h
    · cases h
    · cases h; simp

/-- An element and what follows it are both shorter than the input. -/
theorem nextTlv_lt {buf rest : List UInt8} {tlv : Tlv} (h : nextTlv buf = some (tlv, rest)) :
    tlv.2.length < buf.length ∧ rest.length < buf.length := by
  unfold nextTlv at h
  split at h
  · split at h
    · cases h
    · split at h
      · cases h
      · rename_i len body hbody
        have := lengthHeader_le hbody
        split at h
        · cases h
        · cases h
          simp only [List.length_take, List.length_drop, List.length_cons]
          omega
  · cases h

/-- Fuel beyond the length of the input is never used. -/
theorem tlvsWithin_eq {fuel : Nat} {buf : List UInt8} (h : buf.length ≤ fuel) :
    tlvsWithin fuel buf = tlvs buf := by
  have key : ∀ n m (b : List UInt8), b.length ≤ n → b.length ≤ m →
      tlvsWithin n b = tlvsWithin m b := by
    intro n
    induction n with
    | zero =>
      intro m b hn _
      have hb : b = [] := List.eq_nil_of_length_eq_zero (by omega)
      cases m <;> simp [tlvsWithin, hb, nextTlv]
    | succ n ih =>
      intro m b hn hm
      cases m with
      | zero =>
        have hb : b = [] := List.eq_nil_of_length_eq_zero (by omega)
        simp [tlvsWithin, hb, nextTlv]
      | succ m =>
        unfold tlvsWithin
        cases hnext : nextTlv b with
        | none => rfl
        | some p =>
          obtain ⟨tlv, rest⟩ := p
          have := (nextTlv_lt hnext).2
          simp only [ih m rest (by omega) (by omega)]
  exact key fuel buf.length buf h (Nat.le_refl _)

/-- The reader's own loop: one element, then the rest. -/
theorem tlvs_eq (buf : List UInt8) :
    tlvs buf = match nextTlv buf with
      | none => []
      | some (tlv, rest) => tlv :: tlvs rest := by
  cases hb : buf.length with
  | zero =>
    have hnil : buf = [] := List.eq_nil_of_length_eq_zero hb
    simp [tlvs, tlvsWithin, hnil, nextTlv]
  | succ n =>
    rw [tlvs, hb, tlvsWithin]
    cases hnext : nextTlv buf with
    | none => rfl
    | some p =>
      have := (nextTlv_lt hnext).2
      simp only [tlvsWithin_eq (show p.2.length ≤ n by omega)]

theorem mem_tlvs_lt {buf : List UInt8} {tlv : Tlv} (h : tlv ∈ tlvs buf) :
    tlv.2.length < buf.length := by
  have key : ∀ n (b : List UInt8), tlv ∈ tlvsWithin n b → tlv.2.length < b.length := by
    intro n
    induction n with
    | zero => intro b hb; simp [tlvsWithin] at hb
    | succ n ih =>
      intro b hb
      unfold tlvsWithin at hb
      cases hnext : nextTlv b with
      | none => simp [hnext] at hb
      | some p =>
        have hlt := nextTlv_lt hnext
        simp only [hnext, List.mem_cons] at hb
        rcases hb with rfl | hb
        · exact hlt.1
        · exact Nat.lt_trans (ih p.2 hb) hlt.2
  exact key buf.length buf h

theorem findSome_congr {α β : Type} {f g : α → Option β} {l : List α}
    (h : ∀ a ∈ l, f a = g a) : l.findSome? f = l.findSome? g := by
  induction l with
  | nil => rfl
  | cons a l ih =>
    rw [List.findSome?_cons, List.findSome?_cons, h a (by simp), ih fun b hb => h b (by simp [hb])]

/-- Nesting deeper than the length of the input does not occur. -/
theorem findExtensionWithin_eq {fuel : Nat} {buf oid : List UInt8} (h : buf.length ≤ fuel) :
    findExtensionWithin fuel buf oid = findExtension buf oid := by
  have key : ∀ n m (b : List UInt8), b.length ≤ n → b.length ≤ m →
      findExtensionWithin n b oid = findExtensionWithin m b oid := by
    intro n
    induction n with
    | zero =>
      intro m b hn _
      have hb : b = [] := List.eq_nil_of_length_eq_zero (by omega)
      cases m <;> simp [findExtensionWithin, hb, tlvs, tlvsWithin]
    | succ n ih =>
      intro m b hn hm
      cases m with
      | zero =>
        have hb : b = [] := List.eq_nil_of_length_eq_zero (by omega)
        simp [findExtensionWithin, hb, tlvs, tlvsWithin]
      | succ m =>
        unfold findExtensionWithin
        apply findSome_congr
        rintro ⟨tag, content⟩ ht
        have : content.length < b.length := mem_tlvs_lt ht
        simp only [ih m content (by omega) (by omega)]
  exact key fuel buf.length buf h (Nat.le_refl _)

/-- The extension at an element or below it. -/
def extensionAt (oid : List UInt8) (t : Tlv) : Option (List UInt8) :=
  match if t.1 = 0x30 then extensionValue (tlvs t.2) oid else none with
  | some value => some value
  | none => if isConstructed t.1 then findExtension t.2 oid else none

theorem findExtension_eq (buf oid : List UInt8) :
    findExtension buf oid = (tlvs buf).findSome? (extensionAt oid) := by
  have h : findExtension buf oid = findExtensionWithin (buf.length + 1) buf oid :=
    (findExtensionWithin_eq (Nat.le_succ _)).symm
  rw [h, findExtensionWithin]
  apply findSome_congr
  rintro ⟨tag, content⟩ ht
  have hlen : content.length ≤ buf.length := Nat.le_of_lt (mem_tlvs_lt ht)
  simp only [findExtensionWithin_eq hlen]
  rfl

end Bounds

section PceId

open Fallible

theorem noSlash_hexEncodeUpper (bytes : List UInt8) : NoSlash (hexEncodeUpper bytes) := by
  have hnibble : ∀ n < 16, upperNibble n ≠ '/' := by decide
  intro h
  rw [hexEncodeUpper, String.toList_ofList, List.mem_flatMap] at h
  obtain ⟨b, _, h⟩ := h
  have hb := b.toNat_lt
  simp only [List.mem_cons, List.not_mem_nil, or_false] at h
  rcases h with h | h
  · exact hnibble _ (by omega) h.symm
  · exact hnibble _ (by omega) h.symm

theorem readSgxItem_pceId {acc out : SgxItems} {tlv : Tlv} (h : NoSlash acc.pceId)
    (hok : readSgxItem acc tlv = .ok out) : NoSlash out.pceId := by
  unfold readSgxItem at hok
  split at hok
  · split at hok
    · split at hok
      · cases hok; exact h
      split at hok
      · cases hok; exact noSlash_hexEncodeUpper _
      split at hok
      · cases hok; exact h
      split at hok
      · simp only at hok
        split at hok
        · cases hok
        · cases hok; exact h
      · cases hok; exact h
    · cases hok; exact h
  · cases hok; exact h

/-- The PCEID of a certificate is the hex text of its bytes. -/
theorem parsePckCert_pceId {pem : String} {info : PckCertInfo} (h : parsePckCert pem = .ok info) :
    NoSlash info.pceId := by
  unfold parsePckCert at h
  split at h
  · cases h
  · obtain ⟨cert, _, h⟩ := bind_eq_ok.mp h
    obtain ⟨tbs, _, h⟩ := bind_eq_ok.mp h
    obtain ⟨⟨version, issuerIndex⟩, _, h⟩ := bind_eq_ok.mp h
    obtain ⟨sgx, _, h⟩ := bind_eq_ok.mp h
    obtain ⟨items, hitems, h⟩ := bind_eq_ok.mp h
    obtain ⟨pcesvn, _, h⟩ := bind_eq_ok.mp h
    have hempty : NoSlash ({} : SgxItems).pceId := by decide
    have hpce := foldlM_inv (P := fun i : SgxItems => NoSlash i.pceId) hempty
      (fun _ _ _ => readSgxItem_pceId) hitems
    split at h
    · cases h
    · cases h; exact hpce

end PceId

end Pccs.PckCert
