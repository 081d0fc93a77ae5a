import Pccs.Checked
import Pccs.Der
import Pccs.PckCert

/-!
# Reading a certificate with every access checked

The reader again, with its offsets: each index, slice, sum and shift is the
checked one, and a loop or a recursion without turns left has not ended. Only
one operation can fail, the addition that turns the encoded version into the
reported one.
-/
namespace Pccs.CheckedCert

open Text Encoding Fallible Checked PckCert

/-- The width of `usize` on the targets that are built. -/
def usizeBits : Nat := 64

/-- What an allocation can hold at most, `isize::MAX` bytes. -/
def isizeMax : Nat := 2 ^ 63 - 1

abbrev Read (α : Type) : Type := Run String α

/-- The length and the size of the header, `none` where the loop breaks. -/
def header (buf : List UInt8) (i : Nat) (first : UInt8) : Read (Option (Nat × Nat)) :=
  if first < 0x80 then return some (first.toNat, 2)
  else
    let n := (first &&& 0x7F).toNat
    if n = 0 ∨ n > 4 then return none
    else do
      let start ← add usizeBits i 2
      let stop ← add usizeBits start n
      if stop > buf.length then return none
      else do
        let octets ← range buf start stop
        let v ← octets.foldlM (shiftIn usizeBits) 0
        let hdr ← add usizeBits 2 n
        return some (v, hdr)

/-- One turn of the loop at an offset: the element and the next offset, `none`
where it breaks. -/
def elementAt (buf : List UInt8) (i : Nat) : Read (Option (Tlv × Nat)) := do
  let tag ← index buf i
  if tag &&& 0x1F = 0x1F then return none
  else do
    let second ← add usizeBits i 1
    let first ← index buf second
    match ← header buf i first with
    | none => return none
    | some (len, hdr) => do
      let start ← add usizeBits i hdr
      let stop ← add usizeBits start len
      if stop > buf.length then return none
      else do
        let content ← range buf start stop
        let size ← add usizeBits hdr len
        let next ← add usizeBits i size
        return some ((tag, content), next)

def tlvsLoop (buf : List UInt8) : Nat → Nat → List Tlv → Read (List Tlv)
  | 0, _, _ => .error (.fault .endless)
  | turns + 1, i, out => do
    let second ← add usizeBits i 1
    if second < buf.length then
      match ← elementAt buf i with
      | none => return out
      | some (tlv, next) => tlvsLoop buf turns next (out ++ [tlv])
    else return out

def tlvs (buf : List UInt8) : Read (List Tlv) := tlvsLoop buf (buf.length + 1) 0 []

def extensionValue (kids : List Tlv) (oid : List UInt8) : Read (Option (List UInt8)) :=
  if kids.length ≥ 2 then do
    let id ← index kids 0
    if id.1 = 0x06 ∧ id.2 = oid then
      match kids.getLast? with
      | some (0x04, value) => return some value
      | _ => return none
    else return none
  else return none

def extensionIn (oid : List UInt8) (tlv : Tlv) : Read (Option (List UInt8)) :=
  if tlv.1 = 0x30 then do extensionValue (← tlvs tlv.2) oid else return none

/-- The walk below a buffer, for so many levels. -/
def findExtension : Nat → List UInt8 → List UInt8 → Read (Option (List UInt8))
  | 0, _, _ => .error (.fault .endless)
  | depth + 1, buf, oid => do
    let items ← tlvs buf
    items.findSomeM? fun tlv => do
      match ← extensionIn oid tlv with
      | some value => return some value
      | none => if isConstructed tlv.1 then findExtension depth tlv.2 oid else return none

def derInt (bytes : List UInt8) : Read (Option UInt32) :=
  if bytes = [] ∨ bytes.length > 5 then return none
  else do
    let b ← index bytes 0
    if b &&& 0x80 ≠ 0 then return none
    else do
      let v ← bytes.foldlM (shiftIn 64) 0
      return if v < 2 ^ 32 then some (UInt32.ofNat v) else none

def firstSequence (buf : List UInt8) : Read (List UInt8) := do
  match (← tlvs buf).find? fun t => t.1 == 0x30 with
  | some t => return t.2
  | none => .error (.refused parseFailed)

def fieldInt : Option Tlv → Read (Option UInt32)
  | some t => derInt t.2
  | none => return none

/-- `raw + 1` on a `u32`. -/
def nextVersion (raw : UInt32) : Read UInt32 :=
  if raw.toNat + 1 < 2 ^ 32 then .ok (raw + 1) else .error (.fault .overflow)

def certVersion (tbsKids : List Tlv) : Read (UInt32 × Nat) :=
  match tbsKids with
  | (0xA0, v) :: _ => do
    match ← fieldInt ((← tlvs v).find? fun t => t.1 == 0x02) with
    | some raw => return (← nextVersion raw, 3)
    | none => .error (.refused parseFailed)
  | _ => return (1, 2)

def tcbField (items : List Tlv) (idx : Nat) : Read (Option Tlv) := do
  let item ← index items idx
  return (← tlvs item.2)[1]?

def readSgxItem (acc : SgxItems) (tlv : Tlv) : Read SgxItems :=
  if tlv.1 ≠ 0x30 then return acc
  else do
    let kids ← tlvs tlv.2
    if kids.length < 2 then return acc
    else do
      let id ← index kids 0
      if id.1 ≠ 0x06 then return acc
      else do
        let value ← index kids 1
        if id.2 = subOid 0x04 then return { acc with fmspc := hexEncodeUpper value.2 }
        else if id.2 = subOid 0x03 then return { acc with pceId := hexEncodeUpper value.2 }
        else if id.2 = subOid 0x01 then return { acc with ppid := hexEncodeUpper value.2 }
        else if id.2 = subOid 0x02 then do
          let items ← tlvs value.2
          if items.length < 18 then .error (.refused "Invalid SGX TCB extension")
          else do
            let pcesvn ← fieldInt (← tcbField items 16)
            let field ← tcbField items 17
            return { acc with
              pcesvn := pcesvn
              cpusvn := (field.map fun t => hexEncodeUpper t.2).getD "" }
        else return acc

def sgxItems (sgx : List UInt8) : Read (List Tlv) := do
  match ← tlvs sgx with
  | [(0x30, inner)] => tlvs inner
  | other => return other

def parseDer (der : List UInt8) : Read PckCertInfo := do
  let cert ← firstSequence der
  let tbs ← firstSequence cert
  let tbsKids ← tlvs tbs
  let (version, issuerIndex) ← certVersion tbsKids
  let ca := issuerCa tbsKids issuerIndex
  match ← findExtension (der.length + 1) der sgxExtOid with
  | none => .error (.refused "SGX extension not found in PCK cert")
  | some sgx => do
    let items ← (← sgxItems sgx).foldlM readSgxItem {}
    match items.pcesvn with
    | none => .error (.refused "Invalid SGX TCB extension")
    | some pcesvn =>
      if items.cpusvn = "" ∨ items.fmspc = "" ∨ items.pceId = "" then
        .error (.refused "Invalid SGX extension in PCK cert")
      else return ⟨version, items.fmspc, items.pceId, items.ppid, items.cpusvn, pcesvn, ca⟩

/-- The whole reader. Splitting at the markers and the decoder take no index. -/
def parsePckCert (pem : String) : Read PckCertInfo :=
  match pemToDer pem with
  | none => .error (.refused parseFailed)
  | some der => parseDer der

section Elements

theorem usize_fits {n : Nat} (h : n < 2 ^ 64) : n < 2 ^ usizeBits := h

variable {buf : List UInt8} {i : Nat}

/-- A header read with checks is the header of what is left of the buffer. -/
theorem header_ok {first : UInt8} (hbuf : buf.length ≤ isizeMax) (hi : i + 2 ≤ buf.length) :
    (header buf i first = .ok none ∧ lengthHeader first (buf.drop (i + 2)) = none) ∨
    ∃ len hdr, header buf i first = .ok (some (len, hdr)) ∧
      lengthHeader first (buf.drop (i + 2)) = some (len, buf.drop (i + hdr)) ∧
      2 ≤ hdr ∧ hdr ≤ 6 ∧ i + hdr ≤ buf.length ∧ len < 2 ^ 32 := by
  unfold header lengthHeader
  unfold isizeMax at hbuf
  by_cases hshort : first < 0x80
  · right
    have hlen := first.toNat_lt
    rw [if_pos hshort, if_pos hshort]
    exact ⟨first.toNat, 2, rfl, rfl, by omega, by omega, hi, by omega⟩
  · rw [if_neg hshort, if_neg hshort]
    generalize (first &&& 0x7F).toNat = n
    dsimp only
    by_cases hn : n = 0 ∨ n > 4
    · left
      rw [if_pos hn, if_pos (by omega)]
      exact ⟨rfl, rfl⟩
    · rw [if_neg hn, add_ok (usize_fits (by omega)), ok_bind,
        add_ok (usize_fits (by omega)), ok_bind]
      by_cases hstop : i + 2 + n > buf.length
      · left
        rw [if_pos hstop, if_pos (by rw [List.length_drop]; omega)]
        exact ⟨rfl, rfl⟩
      · right
        have hoctets : ((buf.drop (i + 2)).take n).length = n := by
          rw [List.length_take, List.length_drop]
          omega
        have hvalue := Der.value_lt ((buf.drop (i + 2)).take n)
        rw [hoctets] at hvalue
        have hfits : 8 * ((buf.drop (i + 2)).take n).length ≤ usizeBits := by
          rw [hoctets, usizeBits]
          omega
        have hpow : 256 ^ n ≤ 256 ^ 4 := Nat.pow_le_pow_right (by decide) (by omega)
        rw [if_neg hstop, range_ok (by omega) (by omega), ok_bind,
          show i + 2 + n - (i + 2) = n by omega,
          foldlM_shiftIn _ hfits, ok_bind,
          add_ok (usize_fits (by omega)), ok_bind, if_neg (by rw [List.length_drop]; omega),
          List.drop_drop]
        refine ⟨_, 2 + n, rfl, ?_, by omega, by omega, by omega, ?_⟩
        · rw [show i + 2 + n = i + (2 + n) by omega]
          rfl
        · exact Nat.lt_of_lt_of_le hvalue (Nat.le_trans hpow (by decide))

/-- A turn of the loop reads the next element of what is left, and goes on. -/
theorem elementAt_ok (hbuf : buf.length ≤ isizeMax) (hi : i + 1 < buf.length) :
    (elementAt buf i = .ok none ∧ nextTlv (buf.drop i) = none) ∨
    ∃ tlv next, elementAt buf i = .ok (some (tlv, next)) ∧
      nextTlv (buf.drop i) = some (tlv, buf.drop next) ∧ i < next ∧ next ≤ buf.length := by
  have hdrop : buf.drop i = buf[i] :: buf[i + 1] :: buf.drop (i + 2) := by
    rw [List.drop_eq_getElem_cons (by omega), List.drop_eq_getElem_cons hi]
  have hmax : isizeMax < 2 ^ 63 := by decide
  rw [elementAt, hdrop, nextTlv, index_ok (by omega), ok_bind]
  by_cases htag : buf[i] &&& 0x1F = 0x1F
  · left
    rw [if_pos htag, if_pos htag]
    exact ⟨rfl, rfl⟩
  · rw [if_neg htag, if_neg htag, add_ok (usize_fits (by omega)), ok_bind, index_ok hi, ok_bind]
    rcases @header_ok buf i buf[i + 1] hbuf (by omega) with ⟨hheader, hlength⟩ | ⟨len, hdr,
      hheader, hlength, hlow, hhigh, hend, hlen⟩
    · left
      rw [hheader, ok_bind, hlength]
      exact ⟨rfl, rfl⟩
    · rw [hheader, ok_bind, hlength]
      dsimp only
      rw [add_ok (usize_fits (by omega)), ok_bind, add_ok (usize_fits (by omega)), ok_bind]
      by_cases hstop : i + hdr + len > buf.length
      · left
        rw [if_pos hstop, if_pos (by rw [List.length_drop]; omega)]
        exact ⟨rfl, rfl⟩
      · right
        have hcontent : i + hdr + len - (i + hdr) = len := by omega
        have hnext : i + hdr + len = i + (hdr + len) := by omega
        rw [if_neg hstop, range_ok (by omega) (by omega), ok_bind, hcontent,
          add_ok (usize_fits (by omega)), ok_bind, add_ok (usize_fits (by omega)), ok_bind,
          if_neg (by rw [List.length_drop]; omega), List.drop_drop, hnext]
        exact ⟨_, i + (hdr + len), rfl, rfl, by omega, by omega⟩

/-- The loop moves forward in every turn, so that one turn for each offset and
one more are enough. -/
theorem tlvsLoop_ok (hbuf : buf.length ≤ isizeMax) (turns : Nat) (out : List Tlv)
    (hi : i ≤ buf.length) (hturns : buf.length - i < turns) :
    tlvsLoop buf turns i out = .ok (out ++ PckCert.tlvs (buf.drop i)) := by
  have hmax : isizeMax < 2 ^ 63 := by decide
  induction turns generalizing i out with
  | zero => omega
  | succ turns ih =>
    rw [tlvsLoop, add_ok (usize_fits (by omega)), ok_bind, tlvs_eq]
    by_cases hmore : i + 1 < buf.length
    · rw [if_pos hmore]
      rcases elementAt_ok hbuf hmore with ⟨helement, hnone⟩ | ⟨tlv, next, helement, hsome, hlt, hle⟩
      · rw [helement, ok_bind, hnone, List.append_nil]
        rfl
      · rw [helement, ok_bind, hsome]
        dsimp only
        rw [ih (out ++ [tlv]) hle (by omega), List.append_assoc, List.singleton_append]
    · have hshort : nextTlv (buf.drop i) = none := by
        have hlength : (buf.drop i).length ≤ 1 := by
          rw [List.length_drop]
          omega
        match buf.drop i, hlength with
        | [], _ => rfl
        | [_], _ => rfl
      rw [if_neg hmore, hshort, List.append_nil]
      rfl

theorem tlvs_ok (hbuf : buf.length ≤ isizeMax) : tlvs buf = .ok (PckCert.tlvs buf) :=
  tlvsLoop_ok hbuf _ [] (Nat.zero_le _) (by omega)

end Elements

section Walk

variable {buf oid : List UInt8}

theorem extensionValue_ok (kids : List Tlv) (oid : List UInt8) :
    extensionValue kids oid = .ok (PckCert.extensionValue kids oid) := by
  match kids with
  | [] => rfl
  | [(tag, id)] =>
    rw [extensionValue, if_neg (by simp)]
    unfold PckCert.extensionValue
    split
    · rename_i heq
      simp at heq
    · rfl
  | (tag, id) :: second :: rest =>
    rw [extensionValue, if_pos (by simp), index_ok (by simp), ok_bind, List.getElem_cons_zero]
    dsimp only
    by_cases htag : tag = 0x06
    · rw [htag, PckCert.extensionValue]
      by_cases hid : id = oid
      · rw [if_pos ⟨rfl, hid⟩, if_pos hid]
        generalize ((6, id) :: second :: rest).getLast? = last
        rcases last with _ | ⟨lastTag, value⟩
        · rfl
        · by_cases hlast : lastTag = 0x04
          · rw [hlast]
            rfl
          · simp [hlast, pure, Except.pure]
      · rw [if_neg (by tauto), if_neg hid]
        rfl
    · rw [if_neg (by tauto)]
      unfold PckCert.extensionValue
      split
      · rename_i heq
        simp_all
      · rfl

theorem extensionIn_ok {tlv : Tlv} (htlv : tlv.2.length ≤ isizeMax) : extensionIn oid tlv =
    .ok (if tlv.1 = 0x30 then PckCert.extensionValue (PckCert.tlvs tlv.2) oid else none) := by
  unfold extensionIn
  split
  · rw [tlvs_ok htlv, ok_bind, extensionValue_ok]
  · rfl

/-- Contents are shorter than what holds them, which bounds the depth. -/
theorem findExtension_ok (hbuf : buf.length ≤ isizeMax) (depth : Nat)
    (hdepth : buf.length < depth) :
    findExtension depth buf oid = .ok (PckCert.findExtension buf oid) := by
  induction depth generalizing buf with
  | zero => omega
  | succ depth ih =>
    rw [findExtension, tlvs_ok hbuf, ok_bind, findExtension_eq]
    apply findSomeM_eq_findSome
    rintro ⟨tag, content⟩ ht
    have hlt : content.length < buf.length := mem_tlvs_lt ht
    rw [extensionIn_ok (Nat.le_of_lt (Nat.lt_of_lt_of_le hlt hbuf)), ok_bind, extensionAt]
    dsimp only
    cases (if tag = 0x30 then PckCert.extensionValue (PckCert.tlvs content) oid else none) with
    | some value => rfl
    | none =>
      dsimp only
      split
      · exact ih (by omega) (by omega)
      · rfl

theorem derInt_ok (bytes : List UInt8) : derInt bytes = .ok (PckCert.derInt bytes) := by
  unfold derInt
  cases bytes with
  | nil => rfl
  | cons b rest =>
    rw [PckCert.derInt]
    by_cases hlong : (b :: rest).length > 5
    · rw [if_pos (.inr hlong), if_pos (.inl hlong)]
      rfl
    · rw [if_neg (by simpa using hlong), index_ok (by simp), ok_bind, List.getElem_cons_zero]
      by_cases hsign : b &&& 0x80 ≠ 0
      · rw [if_pos hsign, if_pos (.inr hsign)]
        rfl
      · rw [if_neg hsign, if_neg (by tauto), foldlM_shiftIn _ (by omega), ok_bind]
        rfl

end Walk

section Fields

variable {buf : List UInt8}

theorem firstSequence_lt {cert : List UInt8} (h : PckCert.firstSequence buf = .ok cert) :
    cert.length < buf.length := by
  unfold PckCert.firstSequence at h
  split at h
  · rename_i t ht
    cases h
    exact mem_tlvs_lt (List.mem_of_find?_eq_some ht)
  · cases h

theorem firstSequence_ok (hbuf : buf.length ≤ isizeMax) :
    firstSequence buf = (PckCert.firstSequence buf).mapError .refused := by
  rw [firstSequence, tlvs_ok hbuf, ok_bind, PckCert.firstSequence]
  cases (PckCert.tlvs buf).find? fun t => t.1 == 0x30 with
  | none => rfl
  | some t => rfl

theorem fieldInt_ok (field : Option Tlv) :
    fieldInt field = .ok (field.bind fun t => PckCert.derInt t.2) := by
  cases field with
  | none => rfl
  | some t => exact derInt_ok t.2

/-- The octets of the encoded version, where the certificate has the field. -/
def versionField (tbsKids : List Tlv) : Option (List UInt8) :=
  match tbsKids with
  | (0xA0, v) :: _ => ((PckCert.tlvs v).find? fun t => t.1 == 0x02).map Prod.snd
  | _ => none

/-- The largest `u32`, as an INTEGER. -/
def lastVersion : List UInt8 := [0x00, 0xFF, 0xFF, 0xFF, 0xFF]

/-- Five octets at most, without a sign, are the largest `u32` in one way. -/
theorem eq_lastVersion {octets : List UInt8} {raw : UInt32}
    (h : PckCert.derInt octets = some raw) (hmax : ¬ raw.toNat + 1 < 2 ^ 32) :
    octets = lastVersion := by
  have hraw := raw.toNat_lt
  cases octets with
  | nil => cases h
  | cons b rest =>
    rw [PckCert.derInt] at h
    split at h
    · cases h
    · rename_i hshape
      obtain ⟨hlong, hsign⟩ := not_or.mp hshape
      have hb := (Der.sign_clear_iff b).mp (not_not.mp hsign)
      dsimp only at h
      split at h
      · rename_i hfits
        rw [← Option.some.inj h, UInt32.toNat_ofNat_of_lt' hfits] at hmax
        rw [List.length_cons] at hlong
        have hvalue : bigEndian (b :: rest) = b.toNat * 256 ^ rest.length + Der.value rest :=
          Der.value_cons b rest
        have hrest := Der.value_lt rest
        -- with a byte fewer, the clear sign keeps the number below 2 ^ 31
        have hfour : rest.length = 4 := by
          by_contra hne
          have hpow : 256 ^ rest.length ≤ 256 ^ 3 := Nat.pow_le_pow_right (by decide) (by omega)
          have hfirst : b.toNat * 256 ^ rest.length ≤ 127 * 256 ^ 3 := Nat.mul_le_mul (by omega) hpow
          omega
        refine Der.value_inj (by rw [List.length_cons, hfour]; rfl) ?_
        have hlast : Der.value lastVersion = 2 ^ 32 - 1 := by decide
        rw [hlast, Der.value_cons]
        omega
      · cases h

theorem certVersion_cases (tbsKids : List Tlv) :
    (∃ v rest, tbsKids = (0xA0, v) :: rest) ∨
    (versionField tbsKids = none ∧ PckCert.certVersion tbsKids = .ok (1, 2) ∧
      certVersion tbsKids = .ok (1, 2)) := by
  by_cases hfield : ∃ v rest, tbsKids = (0xA0, v) :: rest
  · exact .inl hfield
  · right
    refine ⟨?_, ?_, ?_⟩
    · unfold versionField
      split
      · exact absurd ⟨_, _, rfl⟩ hfield
      · rfl
    · unfold PckCert.certVersion
      split
      · exact absurd ⟨_, _, rfl⟩ hfield
      · rfl
    · unfold certVersion
      split
      · exact absurd ⟨_, _, rfl⟩ hfield
      · rfl

theorem certVersion_ok {tbsKids : List Tlv} (hkids : ∀ t ∈ tbsKids, t.2.length ≤ isizeMax)
    (hversion : versionField tbsKids ≠ some lastVersion) :
    certVersion tbsKids = (PckCert.certVersion tbsKids).mapError .refused := by
  rcases certVersion_cases tbsKids with ⟨v, rest, rfl⟩ | ⟨-, hlist, hchecked⟩
  · have hv : v.length ≤ isizeMax := hkids (0xA0, v) (by simp)
    rw [certVersion, tlvs_ok hv, ok_bind, fieldInt_ok, ok_bind, PckCert.certVersion]
    rw [versionField] at hversion
    cases hfield : (PckCert.tlvs v).find? fun t => t.1 == 0x02 with
    | none => rfl
    | some field =>
      rw [hfield] at hversion
      rw [Option.bind_some]
      cases hint : PckCert.derInt field.2 with
      | none => rfl
      | some raw =>
        dsimp only
        have hsum : raw.toNat + 1 < 2 ^ 32 := by
          by_contra hmax
          exact hversion (congrArg some (eq_lastVersion hint hmax))
        rw [nextVersion, if_pos hsum]
        rfl
  · rw [hlist, hchecked]
    rfl

theorem certVersion_overflow {tbsKids : List Tlv} (hkids : ∀ t ∈ tbsKids, t.2.length ≤ isizeMax)
    (hversion : versionField tbsKids = some lastVersion) :
    certVersion tbsKids = .error (.fault .overflow) := by
  rcases certVersion_cases tbsKids with ⟨v, rest, rfl⟩ | ⟨hnone, -⟩
  · have hv : v.length ≤ isizeMax := hkids (0xA0, v) (by simp)
    rw [versionField] at hversion
    obtain ⟨field, hfield, hoctets⟩ := Option.map_eq_some_iff.mp hversion
    have hint : PckCert.derInt field.2 = some 0xFFFFFFFF := by
      rw [hoctets]
      decide
    rw [certVersion, tlvs_ok hv, ok_bind, fieldInt_ok, ok_bind, hfield, Option.bind_some, hint]
    dsimp only
    rw [nextVersion, if_neg (by decide)]
    rfl
  · rw [hnone] at hversion
    cases hversion

end Fields

section Extension

variable {buf : List UInt8}

theorem tcbField_ok {items : List Tlv} {idx : Nat} (hidx : idx < items.length)
    (hitems : ∀ t ∈ items, t.2.length ≤ isizeMax) :
    tcbField items idx = .ok (PckCert.tcbField items idx) := by
  have hitem := hitems items[idx] (List.getElem_mem hidx)
  rw [tcbField, index_ok hidx, ok_bind, tlvs_ok hitem, PckCert.tcbField,
    List.getElem?_eq_getElem hidx]
  rfl

/-- What is not a sequence of an OID and a value is passed over. -/
theorem readSgxItem_skip (acc : SgxItems) {tag : UInt8} {content : List UInt8}
    (h : tag = 0x30 → ∀ id value rest, PckCert.tlvs content ≠ (0x06, id) :: value :: rest) :
    PckCert.readSgxItem acc (tag, content) = .ok acc := by
  unfold PckCert.readSgxItem
  split
  · split
    · rename_i heq _ id valueTag value rest hkids
      cases heq
      exact absurd hkids (h rfl id (valueTag, value) rest)
    · rfl
  · rfl

/-- The item of one pair. -/
theorem readSgxItem_pair (acc : SgxItems) {content id : List UInt8} {value : Tlv}
    {rest : List Tlv} (hkids : PckCert.tlvs content = (0x06, id) :: value :: rest)
    (hcontent : content.length ≤ isizeMax) :
    readSgxItem acc (0x30, content) =
      (PckCert.readSgxItem acc (0x30, content)).mapError .refused := by
  obtain ⟨valueTag, value⟩ := value
  have hvalue : value.length ≤ isizeMax := by
    have hmem : (valueTag, value) ∈ PckCert.tlvs content := by simp [hkids]
    exact Nat.le_of_lt (Nat.lt_of_lt_of_le (mem_tlvs_lt hmem) hcontent)
  have hitems : ∀ t ∈ PckCert.tlvs value, t.2.length ≤ isizeMax := by
    intro t ht
    exact Nat.le_of_lt (Nat.lt_of_lt_of_le (mem_tlvs_lt ht) hvalue)
  rw [readSgxItem, if_neg (by simp), tlvs_ok hcontent, ok_bind, hkids, if_neg (by simp),
    index_ok (by simp), ok_bind, List.getElem_cons_zero, if_neg (by simp), index_ok (by simp),
    ok_bind, List.getElem_cons_succ, List.getElem_cons_zero, PckCert.readSgxItem, hkids]
  simp only []
  by_cases h4 : id = subOid 0x04
  · rw [if_pos h4, if_pos h4]
    rfl
  rw [if_neg h4, if_neg h4]
  by_cases h3 : id = subOid 0x03
  · rw [if_pos h3, if_pos h3]
    rfl
  rw [if_neg h3, if_neg h3]
  by_cases h1 : id = subOid 0x01
  · rw [if_pos h1, if_pos h1]
    rfl
  rw [if_neg h1, if_neg h1]
  by_cases h2 : id = subOid 0x02
  · rw [if_pos h2, if_pos h2, tlvs_ok hvalue, ok_bind]
    by_cases hshort : (PckCert.tlvs value).length < 18
    · rw [if_pos hshort, if_pos hshort]
      rfl
    · rw [if_neg hshort, if_neg hshort, tcbField_ok (by omega) hitems, ok_bind, fieldInt_ok,
        ok_bind, tcbField_ok (by omega) hitems, ok_bind]
      rfl
  · rw [if_neg h2, if_neg h2]
    rfl

theorem readSgxItem_ok (acc : SgxItems) {tlv : Tlv} (htlv : tlv.2.length ≤ isizeMax) :
    readSgxItem acc tlv = (PckCert.readSgxItem acc tlv).mapError .refused := by
  obtain ⟨tag, content⟩ := tlv
  by_cases htag : tag = 0x30
  · subst htag
    rcases hkids : PckCert.tlvs content with _ | ⟨⟨idTag, id⟩, _ | ⟨value, rest⟩⟩
    · rw [readSgxItem_skip acc (by simp [hkids]), readSgxItem, if_neg (by simp), tlvs_ok htlv,
        ok_bind, hkids]
      rfl
    · rw [readSgxItem_skip acc (by simp [hkids]), readSgxItem, if_neg (by simp), tlvs_ok htlv,
        ok_bind, hkids]
      rfl
    · by_cases hid : idTag = 0x06
      · subst hid
        exact readSgxItem_pair acc hkids htlv
      · rw [readSgxItem_skip acc (by simp [hkids, hid]), readSgxItem, if_neg (by simp),
          tlvs_ok htlv, ok_bind, hkids, if_neg (by simp), index_ok (by simp), ok_bind,
          List.getElem_cons_zero, if_pos hid]
        rfl
  · rw [readSgxItem_skip acc (fun h => absurd h htag), readSgxItem, if_pos htag]
    rfl

theorem sgxItems_cases (sgx : List UInt8) :
    (∃ inner, PckCert.tlvs sgx = [(0x30, inner)] ∧
      PckCert.sgxItems sgx = PckCert.tlvs inner) ∨
    ((∀ inner, PckCert.tlvs sgx ≠ [(0x30, inner)]) ∧
      PckCert.sgxItems sgx = PckCert.tlvs sgx) := by
  unfold PckCert.sgxItems
  split
  · rename_i inner hone
    exact .inl ⟨inner, hone, rfl⟩
  · rename_i hnone
    exact .inr ⟨hnone, rfl⟩

theorem mem_sgxItems_lt {sgx : List UInt8} {t : Tlv} (ht : t ∈ PckCert.sgxItems sgx) :
    t.2.length < sgx.length := by
  rcases sgxItems_cases sgx with ⟨inner, hone, heq⟩ | ⟨-, heq⟩
  · rw [heq] at ht
    have hinner : inner.length < sgx.length := by
      have hmem : (0x30, inner) ∈ PckCert.tlvs sgx := by simp [hone]
      exact mem_tlvs_lt hmem
    exact Nat.lt_trans (mem_tlvs_lt ht) hinner
  · rw [heq] at ht
    exact mem_tlvs_lt ht

theorem sgxItems_ok {sgx : List UInt8} (hsgx : sgx.length ≤ isizeMax) :
    sgxItems sgx = .ok (PckCert.sgxItems sgx) := by
  rw [sgxItems, tlvs_ok hsgx, ok_bind]
  rcases sgxItems_cases sgx with ⟨inner, hone, heq⟩ | ⟨hnone, heq⟩
  · have hmem : (0x30, inner) ∈ PckCert.tlvs sgx := by simp [hone]
    have hinner : inner.length < sgx.length := mem_tlvs_lt hmem
    rw [hone, heq]
    exact tlvs_ok (by omega)
  · rw [heq]
    split
    · rename_i inner hone
      exact absurd hone (hnone inner)
    · rfl

end Extension

section Reader

variable {der : List UInt8} {pem : String}

theorem extensionValue_mem {kids : List Tlv} {oid value : List UInt8}
    (h : PckCert.extensionValue kids oid = some value) : ∃ tag, (tag, value) ∈ kids := by
  unfold PckCert.extensionValue at h
  split at h
  · split at h
    · split at h
      · rename_i last hlast
        cases h
        exact ⟨_, List.mem_of_getLast? hlast⟩
      · cases h
    · cases h
  · cases h

/-- What the walk finds is inside the buffer. -/
theorem findExtension_lt (n : Nat) {buf oid value : List UInt8} (hn : buf.length ≤ n)
    (h : PckCert.findExtension buf oid = some value) : value.length < buf.length := by
  induction n generalizing buf with
  | zero =>
    obtain rfl := List.eq_nil_of_length_eq_zero (Nat.le_zero.mp hn)
    cases h
  | succ n ih =>
    rw [findExtension_eq] at h
    obtain ⟨⟨tag, content⟩, ht, hat⟩ := List.exists_of_findSome?_eq_some h
    have hcontent : content.length < buf.length := mem_tlvs_lt ht
    unfold extensionAt at hat
    split at hat
    · rename_i value' hvalue
      cases hat
      split at hvalue
      · obtain ⟨tag', hmem⟩ := extensionValue_mem hvalue
        exact Nat.lt_trans (mem_tlvs_lt hmem) hcontent
      · cases hvalue
    · split at hat
      · have hfound := ih (Nat.le_of_lt_succ (Nat.lt_of_lt_of_le hcontent hn)) hat
        exact Nat.lt_trans hfound hcontent
      · cases hat

/-- The octets of the version of a certificate, if it has the field. -/
def derVersion (der : List UInt8) : Option (List UInt8) := do
  let cert ← (PckCert.firstSequence der).toOption
  let tbs ← (PckCert.firstSequence cert).toOption
  versionField (PckCert.tlvs tbs)

theorem derVersion_eq {cert tbs : List UInt8} (hcert : PckCert.firstSequence der = .ok cert)
    (htbs : PckCert.firstSequence cert = .ok tbs) :
    derVersion der = versionField (PckCert.tlvs tbs) := by
  simp [derVersion, hcert, htbs, Except.toOption]

/-- But for the version everything is within range, and the result is that of
the reader on lists. -/
theorem parseDer_ok (hder : der.length ≤ isizeMax) (hversion : derVersion der ≠ some lastVersion) :
    parseDer der = (PckCert.parseDer der).mapError .refused := by
  rw [parseDer, PckCert.parseDer, firstSequence_ok hder]
  cases hcert : PckCert.firstSequence der with
  | error e => rfl
  | ok cert =>
    have hcertlt := firstSequence_lt hcert
    simp only [Except.mapError, ok_bind]
    rw [firstSequence_ok (by omega)]
    cases htbs : PckCert.firstSequence cert with
    | error e => rfl
    | ok tbs =>
      have htbslt := firstSequence_lt htbs
      have hkids : ∀ t ∈ PckCert.tlvs tbs, t.2.length ≤ isizeMax := by
        intro t ht
        have hlt := mem_tlvs_lt ht
        omega
      have hfield : versionField (PckCert.tlvs tbs) ≠ some lastVersion := by
        rwa [derVersion_eq hcert htbs] at hversion
      simp only [Except.mapError, ok_bind]
      rw [tlvs_ok (by omega), ok_bind, certVersion_ok hkids hfield]
      cases PckCert.certVersion (PckCert.tlvs tbs) with
      | error e => rfl
      | ok version =>
        simp only [Except.mapError, ok_bind]
        rw [findExtension_ok hder _ (by omega), ok_bind]
        cases hsgx : PckCert.findExtension der sgxExtOid with
        | none => rfl
        | some sgx =>
          have hsgxlt := findExtension_lt _ (Nat.le_refl _) hsgx
          have hitems : ∀ acc, ∀ t ∈ PckCert.sgxItems sgx,
              readSgxItem acc t = (PckCert.readSgxItem acc t).mapError .refused := by
            intro acc t ht
            have hlt := mem_sgxItems_lt ht
            exact readSgxItem_ok acc (by omega)
          simp only [Option.elim_some, ok_bind]
          rw [sgxItems_ok (by omega), ok_bind, foldlM_mapError hitems]
          cases (PckCert.sgxItems sgx).foldlM PckCert.readSgxItem {} with
          | error e => rfl
          | ok items =>
            simp only [Except.mapError, ok_bind]
            cases items.pcesvn with
            | none => rfl
            | some pcesvn =>
              simp only [Option.elim_some, ok_bind]
              split
              · rfl
              · rfl

theorem parseDer_overflow (hder : der.length ≤ isizeMax)
    (hversion : derVersion der = some lastVersion) : parseDer der = .error (.fault .overflow) := by
  rw [derVersion] at hversion
  obtain ⟨cert, hcert, hversion⟩ := Option.bind_eq_some_iff.mp hversion
  obtain ⟨tbs, htbs, hfield⟩ := Option.bind_eq_some_iff.mp hversion
  rw [toOption_eq_some] at hcert htbs
  have hcertlt := firstSequence_lt hcert
  have htbslt := firstSequence_lt htbs
  have hkids : ∀ t ∈ PckCert.tlvs tbs, t.2.length ≤ isizeMax := by
    intro t ht
    have hlt := mem_tlvs_lt ht
    omega
  rw [parseDer, firstSequence_ok hder, hcert]
  simp only [Except.mapError, ok_bind]
  rw [firstSequence_ok (by omega), htbs]
  simp only [Except.mapError, ok_bind]
  rw [tlvs_ok (by omega), ok_bind, certVersion_overflow hkids hfield]
  rfl

end Reader

section Version

theorem derInt_value {octets : List UInt8} {raw : UInt32} (h : PckCert.derInt octets = some raw) :
    (raw.toNat : Int) = Der.signedValue octets := by
  cases octets with
  | nil => cases h
  | cons b rest =>
    rw [PckCert.derInt] at h
    split at h
    · cases h
    · rename_i hshape
      obtain ⟨-, hsign⟩ := not_or.mp hshape
      dsimp only at h
      split at h
      · rename_i hfits
        rw [← Option.some.inj h, UInt32.toNat_ofNat_of_lt' hfits, Der.signedValue,
          if_pos (not_not.mp hsign)]
        rfl
      · cases h

/-- The version that a certificate says it has: the number in its field and one
more, without the field the first one. -/
def saidVersion : Option (List UInt8) → Int
  | some octets => Der.signedValue octets + 1
  | none => 1

theorem certVersion_value {tbsKids : List Tlv} {version : UInt32} {issuerIndex : Nat}
    (h : PckCert.certVersion tbsKids = .ok (version, issuerIndex))
    (hversion : versionField tbsKids ≠ some lastVersion) :
    (version.toNat : Int) = saidVersion (versionField tbsKids) := by
  rcases certVersion_cases tbsKids with ⟨v, rest, rfl⟩ | ⟨hnone, hlist, -⟩
  · rw [PckCert.certVersion] at h
    rw [versionField] at hversion ⊢
    cases hfield : (PckCert.tlvs v).find? fun t => t.1 == 0x02 with
    | none =>
      rw [hfield] at h
      cases h
    | some field =>
      rw [hfield, Option.bind_some] at h
      rw [hfield] at hversion
      cases hint : PckCert.derInt field.2 with
      | none =>
        rw [hint] at h
        cases h
      | some raw =>
        have hsum : raw.toNat + 1 < 2 ^ 32 := by
          by_contra hmax
          exact hversion (congrArg some (eq_lastVersion hint hmax))
        have hadd : (raw + 1).toNat = raw.toNat + 1 := by
          rw [UInt32.toNat_add, UInt32.toNat_one, Nat.mod_eq_of_lt hsum]
        rw [hint] at h
        cases h
        rw [Option.map_some, saidVersion, ← derInt_value hint, hadd]
        rfl
  · rw [hlist] at h
    cases h
    rw [hnone]
    rfl

theorem parseDer_version {der : List UInt8} {info : PckCertInfo}
    (h : PckCert.parseDer der = .ok info) (hversion : derVersion der ≠ some lastVersion) :
    (info.version.toNat : Int) = saidVersion (derVersion der) := by
  obtain ⟨cert, hcert, h⟩ := bind_eq_ok.mp h
  obtain ⟨tbs, htbs, h⟩ := bind_eq_ok.mp h
  obtain ⟨⟨version, issuerIndex⟩, hkids, h⟩ := bind_eq_ok.mp h
  obtain ⟨sgx, -, h⟩ := bind_eq_ok.mp h
  obtain ⟨items, -, h⟩ := bind_eq_ok.mp h
  obtain ⟨pcesvn, -, h⟩ := bind_eq_ok.mp h
  rw [derVersion_eq hcert htbs] at hversion ⊢
  have hvalue := certVersion_value hkids hversion
  split at h
  · cases h
  · cases h
    exact hvalue

end Version

section Strings

/-- A string of the program, which an allocation holds. -/
structure Str where
  text : String
  bound : text.utf8ByteSize ≤ isizeMax

theorem length_flatMap_le {α β : Type} (f : α → List β) {l l' : List α} (h : l.Sublist l') :
    (l.flatMap f).length ≤ (l'.flatMap f).length := by
  induction h with
  | slnil => exact Nat.le_refl _
  | cons a _ ih =>
    rw [List.flatMap_cons, List.length_append]
    omega
  | cons_cons a _ ih =>
    rw [List.flatMap_cons, List.flatMap_cons, List.length_append, List.length_append]
    omega

theorem afterMarker_sublist {marker text rest : List Char}
    (h : afterMarker marker text = some rest) : rest.Sublist text := by
  induction text with
  | nil =>
    rw [afterMarker] at h
    split at h
    · cases h
      exact List.Sublist.refl []
    · cases h
  | cons c text ih =>
    rw [afterMarker] at h
    split at h
    · cases h
      exact List.drop_sublist _ _
    · exact (ih h).cons c

theorem beforeMarker_sublist (marker text : List Char) :
    (beforeMarker marker text).Sublist text := by
  induction text with
  | nil => exact List.Sublist.refl []
  | cons c text ih =>
    rw [beforeMarker]
    split
    · exact List.nil_sublist _
    · exact ih.cons_cons c

/-- Four characters give three bytes at most. -/
theorem length_base64Decode {text bytes : List UInt8} (h : base64Decode text = some bytes) :
    bytes.length ≤ text.length := by
  induction text using base64Decode.induct generalizing bytes with
  | case1 =>
    cases h
    simp
  | case2 a b c d hpad =>
    rw [base64Decode, if_pos hpad] at h
    obtain ⟨x, -, h⟩ := Option.bind_eq_some_iff.mp h
    obtain ⟨y, -, h⟩ := Option.bind_eq_some_iff.mp h
    split at h
    · cases h
      simp
    · cases h
  | case3 a b c hpad =>
    rw [base64Decode, if_neg hpad, if_pos rfl] at h
    obtain ⟨x, -, h⟩ := Option.bind_eq_some_iff.mp h
    obtain ⟨y, -, h⟩ := Option.bind_eq_some_iff.mp h
    obtain ⟨z, -, h⟩ := Option.bind_eq_some_iff.mp h
    split at h
    · cases h
      simp
    · cases h
  | case4 a b c d hpad hd =>
    rw [base64Decode, if_neg hpad, if_neg hd] at h
    obtain ⟨x, -, h⟩ := Option.bind_eq_some_iff.mp h
    obtain ⟨y, -, h⟩ := Option.bind_eq_some_iff.mp h
    obtain ⟨z, -, h⟩ := Option.bind_eq_some_iff.mp h
    obtain ⟨w, -, h⟩ := Option.bind_eq_some_iff.mp h
    cases h
    simp
  | case5 a b c d rest hrest ih =>
    rw [base64Decode] at h
    · obtain ⟨x, -, h⟩ := Option.bind_eq_some_iff.mp h
      obtain ⟨y, -, h⟩ := Option.bind_eq_some_iff.mp h
      obtain ⟨z, -, h⟩ := Option.bind_eq_some_iff.mp h
      obtain ⟨w, -, h⟩ := Option.bind_eq_some_iff.mp h
      obtain ⟨tail, htail, h⟩ := Option.bind_eq_some_iff.mp h
      cases h
      have hlen := ih htail
      simp only [List.length_cons]
      omega
    · exact hrest
  | case6 text hnil hfour hmore =>
    rw [base64Decode] at h
    · cases h
    · exact hnil
    · exact hfour
    · exact hmore

/-- The decoded text is shorter than the text. -/
theorem pemToDer_le {pem : String} {der : List UInt8} (h : pemToDer pem = some der) :
    der.length ≤ pem.utf8ByteSize := by
  have hsize : pem.utf8ByteSize = (pem.toList.flatMap String.utf8EncodeChar).length := by
    rw [← String.size_toByteArray]
    conv => lhs; rw [← String.ofList_toList (s := pem)]
    rw [String.toByteArray_ofList]
    simp [List.utf8Encode]
  obtain ⟨rest, hrest, h⟩ := Option.bind_eq_some_iff.mp h
  have hbody := beforeMarker_sublist beginMarker.toList rest
  have hend := beforeMarker_sublist endMarker.toList (beforeMarker beginMarker.toList rest)
  have hfilter : ((beforeMarker endMarker.toList (beforeMarker beginMarker.toList rest)).filter
      fun c => !isAsciiWhitespace c).Sublist _ := List.filter_sublist
  have hsub := ((hfilter.trans hend).trans hbody).trans (afterMarker_sublist hrest)
  rw [hsize]
  exact Nat.le_trans (length_base64Decode h) (length_flatMap_le _ hsub)

/-- What the version field of the certificate in a text holds. -/
def versionOctets (pem : String) : Option (List UInt8) := (pemToDer pem).bind derVersion

theorem parsePckCert_ok (pem : Str) (hversion : versionOctets pem.text ≠ some lastVersion) :
    parsePckCert pem.text = (PckCert.parsePckCert pem.text).mapError .refused := by
  rw [parsePckCert, PckCert.parsePckCert]
  rw [versionOctets] at hversion
  cases hder : pemToDer pem.text with
  | none => rfl
  | some der =>
    rw [hder] at hversion
    exact parseDer_ok (Nat.le_trans (pemToDer_le hder) pem.bound) hversion

theorem parsePckCert_overflow (pem : Str) (hversion : versionOctets pem.text = some lastVersion) :
    parsePckCert pem.text = .error (.fault .overflow) := by
  obtain ⟨der, hder, hversion⟩ := Option.bind_eq_some_iff.mp hversion
  rw [parsePckCert, hder]
  exact parseDer_overflow (Nat.le_trans (pemToDer_le hder) pem.bound) hversion

/-- No fault stops the reader, and a version it reports is the one that the
certificate says. -/
structure Safe (pem : Str) : Prop where
  faultless : ∀ f, parsePckCert pem.text ≠ .error (.fault f)
  version : ∀ info, PckCert.parsePckCert pem.text = .ok info →
    (info.version.toNat : Int) = saidVersion (versionOctets pem.text)

/-- A version field that holds the largest `u32` is all that the reader cannot
read safely. -/
theorem safe_iff (pem : Str) : Safe pem ↔ versionOctets pem.text ≠ some lastVersion := by
  constructor
  · intro hsafe hversion
    exact hsafe.faultless .overflow (parsePckCert_overflow pem hversion)
  · intro hversion
    constructor
    · intro f hf
      rw [parsePckCert_ok pem hversion] at hf
      cases hresult : PckCert.parsePckCert pem.text with
      | error e =>
        rw [hresult] at hf
        cases hf
      | ok info =>
        rw [hresult] at hf
        cases hf
    · intro info hinfo
      rw [PckCert.parsePckCert] at hinfo
      rw [versionOctets] at hversion ⊢
      cases hder : pemToDer pem.text with
      | none =>
        rw [hder] at hinfo
        cases hinfo
      | some der =>
        rw [hder] at hinfo hversion
        exact parseDer_version hinfo hversion

/-- A certificate of a version field and nothing else. -/
def lastVersionPem : Str :=
  ⟨"-----BEGIN CERTIFICATE-----MAswCaAHAgUA/////w==-----END CERTIFICATE-----", by decide⟩

theorem not_safe_lastVersionPem : ¬ ∀ pem, Safe pem := by
  intro hsafe
  have hversion : versionOctets lastVersionPem.text = some lastVersion := by decide +kernel
  exact (hsafe lastVersionPem).faultless .overflow (parsePckCert_overflow lastVersionPem hversion)

end Strings

end Pccs.CheckedCert
