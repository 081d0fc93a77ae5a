import Pccs.PckCert
import Pccs.Records

/-!
# OCSP requests and responses

The DER of a request is read for its `requestList`, whose digest is the cache
key, and the DER of a response for the validity of each SingleResponse. The
earliest deadline among these, and the configured cap, is how long the response
may be kept.
-/
namespace Pccs.Ocsp

open Text Encoding Fallible PccsError

/-- The time parser: the UTC timestamp of a text in one of the given formats,
without and with a zone offset. -/
structure Chrono where
  parseNaive : String → String → Option Int64
  parseZoned : String → String → Option Int64

structure Tlv where
  tag : UInt8
  value : List UInt8
  raw : List UInt8
deriving DecidableEq

structure ResponseValidity where
  thisUpdate : Int64
  nextUpdate : Option Int64
  /-- CertStatus is `unknown`. -/
  unknown : Bool
deriving DecidableEq

def certStatusUnknown : UInt8 := 0x82

/-- id-pkix-ocsp-basic, 1.3.6.1.5.5.7.48.1.1. -/
def oidOcspBasic : List UInt8 := [0x2b, 0x06, 0x01, 0x05, 0x05, 0x07, 0x30, 0x01, 0x01]

section Der

/-- Header size and value length of an element. The long form has at most eight
length bytes, no leading zero byte, and is not used for a length below 128. -/
def tlvLength (firstLen : UInt8) (original : List UInt8) : Except PccsError (Nat × Nat) := do
  if firstLen &&& 0x80 = 0 then return (2, firstLen.toNat)
  let count := (firstLen &&& 0x7f).toNat
  reject (count = 0 ∨ count > 8 ∨ original.length < 2 + count) invalidReq
  reject (original[2]? = some 0) invalidReq
  let valueLen := PckCert.bigEndian ((original.drop 2).take count)
  reject (valueLen < 128) invalidReq
  return (2 + count, valueLen)

def tlvHeader : List UInt8 → Option (UInt8 × UInt8)
  | tag :: firstLen :: _ => some (tag, firstLen)
  | _ => none

/-- The next element and the bytes behind it. -/
def takeTlv (original : List UInt8) : Except PccsError (Tlv × List UInt8) := do
  let (tag, firstLen) ← require (tlvHeader original) invalidReq
  reject (tag &&& 0x1f = 0x1f) invalidReq
  let (headerLen, valueLen) ← tlvLength firstLen original
  reject (original.length < headerLen + valueLen) invalidReq
  let raw := original.take (headerLen + valueLen)
  return (⟨tag, raw.drop headerLen, raw⟩, original.drop (headerLen + valueLen))

def takeExpected (input : List UInt8) (expectedTag : UInt8) :
    Except PccsError (Tlv × List UInt8) := do
  let (tlv, rest) ← takeTlv input
  reject (tlv.tag ≠ expectedTag) invalidReq
  return (tlv, rest)

def parseSingle (input : List UInt8) (expectedTag : UInt8) : Except PccsError Tlv := do
  let (tlv, rest) ← takeExpected input expectedTag
  reject (rest ≠ []) invalidReq
  return tlv

def peekTag (input : List UInt8) : Option UInt8 := input.head?

/-- Read one SEQUENCE after the other until the input is empty. Each takes at
least its two header bytes, so the length of the input bounds the loop. -/
def sequencesWithin {β : Type} (f : List UInt8 → Except PccsError β) :
    Nat → List UInt8 → Except PccsError (List β)
  | _, [] => .ok []
  | 0, _ :: _ => .error invalidReq
  | fuel + 1, b :: bs => do
    let (tlv, rest) ← takeExpected (b :: bs) 0x30
    let item ← f tlv.value
    let items ← sequencesWithin f fuel rest
    return item :: items

def sequences {β : Type} (f : List UInt8 → Except PccsError β) (input : List UInt8) :
    Except PccsError (List β) :=
  sequencesWithin f input.length input

end Der

section Requests

def validateExtension (extension : List UInt8) : Except PccsError Unit := do
  let (_, fields) ← takeExpected extension 0x06
  let fields ← if peekTag fields = some 0x01 then (takeExpected fields 0x01).map Prod.snd
    else .ok fields
  let (_, fields) ← takeExpected fields 0x04
  reject (fields ≠ []) invalidReq

/-- The extensions are not part of the cache key; a malformed list is rejected. -/
def validateExtensions (extensions : List UInt8) : Except PccsError Unit :=
  (sequences validateExtension extensions).map fun _ => ()

def validateRequest (request : List UInt8) : Except PccsError Unit := do
  let (_, fields) ← takeExpected request 0x30
  let fields ← if fields ≠ [] then (takeExpected fields 0xa0).map Prod.snd else .ok fields
  reject (fields ≠ []) invalidReq

def validateRequestList (requestList : List UInt8) : Except PccsError Unit := do
  reject (requestList = []) invalidReq
  (sequences validateRequest requestList).map fun _ => ()

/-- The fields of TBSRequest up to the requestList, the first untagged SEQUENCE.
Only the optional requestExtensions may follow it. -/
def requestListWithin : Nat → List UInt8 → Except PccsError (List UInt8)
  | 0, _ => .error invalidReq
  | fuel + 1, fields => do
    reject (fields = []) invalidReq
    let (field, rest) ← takeTlv fields
    if field.tag = 0xa0 ∨ field.tag = 0xa1 then requestListWithin fuel rest
    else
      reject (field.tag ≠ 0x30) invalidReq
      validateRequestList field.value
      let rest ← if rest ≠ [] then do
          let (extensions, rest) ← takeExpected rest 0xa2
          let list ← parseSingle extensions.value 0x30
          validateExtensions list.value
          pure rest
        else .ok rest
      reject (rest ≠ []) invalidReq
      return field.raw

/-- The DER requestList of a request. -/
def requestList (request : List UInt8) : Except PccsError (List UInt8) := do
  let outer ← parseSingle request 0x30
  let (tbs, _) ← takeExpected outer.value 0x30
  requestListWithin (tbs.value.length + 1) tbs.value

/-- The cache key: hex SHA-256 of the DER requestList. -/
def parseRequest (env : Env) (request : List UInt8) : Except PccsError String :=
  (requestList request).map env.sha256Hex

end Requests

section Responses

variable (chrono : Chrono)

/-- `std::str::from_utf8`: the lossy reader gives the bytes back exactly if they
are well formed. -/
def fromUtf8 (bytes : List UInt8) : Option String :=
  if asBytes (fromUtf8Lossy bytes) = bytes then some (fromUtf8Lossy bytes) else none

def parseGeneralizedTime (value : List UInt8) : Except PccsError Int64 := do
  let text ← require (fromUtf8 value) invalidReq
  match ["%Y%m%d%H%M%SZ", "%Y%m%d%H%M%S%.fZ"].findSome? (chrono.parseNaive text) with
  | some time => return time
  | none =>
    require (["%Y%m%d%H%M%S%z", "%Y%m%d%H%M%S%.f%z"].findSome? (chrono.parseZoned text)) invalidReq

/-- What one SingleResponse says. -/
def singleResponse (single : List UInt8) : Except PccsError ResponseValidity := do
  let (_, fields) ← takeExpected single 0x30
  let (certStatus, fields) ← takeTlv fields
  reject (certStatus.tag &&& 0xc0 ≠ 0x80) invalidReq
  let (thisUpdate, fields) ← takeExpected fields 0x18
  let thisUpdate ← parseGeneralizedTime chrono thisUpdate.value
  let (nextUpdate, fields) ← if peekTag fields = some 0xa0 then do
      let (explicit, fields) ← takeExpected fields 0xa0
      let value ← parseSingle explicit.value 0x18
      let time ← parseGeneralizedTime chrono value.value
      pure (some time, fields)
    else .ok (none, fields)
  -- singleExtensions may follow nextUpdate
  let fields ← if fields ≠ [] then (takeExpected fields 0xa1).map Prod.snd else .ok fields
  reject (fields ≠ []) invalidReq
  return ⟨thisUpdate, nextUpdate, certStatus.tag = certStatusUnknown⟩

/-- The contents of `responses` in a successful BasicOCSPResponse. -/
def singleResponses (response : List UInt8) : Except PccsError (List UInt8) := do
  let outer ← parseSingle response 0x30
  let (status, fields) ← takeExpected outer.value 0x0a
  reject (status.value ≠ [0]) invalidReq
  let (responseBytes, _) ← takeExpected fields 0xa0
  let responseBytes ← parseSingle responseBytes.value 0x30
  let (responseType, fields) ← takeExpected responseBytes.value 0x06
  reject (responseType.value ≠ oidOcspBasic) invalidReq
  let (basicDer, _) ← takeExpected fields 0x04
  let basic ← parseSingle basicDer.value 0x30
  let (responseData, fields) ← takeExpected basic.value 0x30
  -- signatureAlgorithm and signature are mandatory, certs is optional
  let (_, fields) ← takeExpected fields 0x30
  let (_, fields) ← takeExpected fields 0x03
  let fields ← if fields ≠ [] then do
      let (certs, fields) ← takeExpected fields 0xa0
      let _ ← parseSingle certs.value 0x30
      pure fields
    else .ok fields
  reject (fields ≠ []) invalidReq
  let fields ← if peekTag responseData.value = some 0xa0 then
      (takeExpected responseData.value 0xa0).map Prod.snd
    else .ok responseData.value
  let (responderId, fields) ← takeTlv fields
  let responderIdTag := responderId.tag &&& 0x1f
  reject (responderId.tag &&& 0xc0 ≠ 0x80 ∨ ¬ (responderIdTag = 1 ∨ responderIdTag = 2)) invalidReq
  let (_, fields) ← takeExpected fields 0x18
  let (responses, _) ← takeExpected fields 0x30
  return responses.value

def responseValidity (response : List UInt8) : Except PccsError (List ResponseValidity) := do
  let singles ← singleResponses response
  let validity ← sequences (singleResponse chrono) singles
  reject (validity = []) invalidReq
  return validity

def i64Min : Int := -(2 ^ 63)

def i64Max : Int := 2 ^ 63 - 1

def saturatingAdd (a b : Int) : Int := max i64Min (min i64Max (a + b))

def tryI64 (n : Nat) : Option Int := if (n : Int) ≤ i64Max then some n else none

/-- When a SingleResponse runs out. -/
def ResponseValidity.signedExpiry (item : ResponseValidity) (defaultTtl : Int) : Int :=
  match item.nextUpdate with
  | some next => next.toInt
  | none => saturatingAdd item.thisUpdate.toInt defaultTtl

/-- Lower the deadline by one SingleResponse. An `unknown` status or a response
from the future is not kept. -/
def lowerExpiry (now defaultTtl : Int) (expiresAt : Int) (item : ResponseValidity) :
    Except PccsError Int := do
  reject (item.unknown = true) invalidReq
  reject (item.thisUpdate.toInt > now) invalidReq
  return min expiresAt (item.signedExpiry defaultTtl)

/-- Earliest cache deadline for a successful BasicOCSPResponse. -/
def responseCacheExpiry (response : List UInt8) (now : Int) (maxTtlSeconds defaultTtlSeconds : Nat) :
    Except PccsError Nat := do
  let validity ← responseValidity chrono response
  let defaultTtl ← require (tryI64 defaultTtlSeconds) internalError
  let maxTtl ← require (tryI64 maxTtlSeconds) internalError
  reject (now + maxTtl > i64Max) internalError
  let expiresAt ← validity.foldlM (lowerExpiry now defaultTtl) (now + maxTtl)
  reject (expiresAt ≤ now) invalidReq
  reject (expiresAt < 0) internalError
  return expiresAt.toNat

end Responses

/-- The input is the concatenation of these elements, each read in turn. -/
inductive Elements : List UInt8 → List Tlv → Prop
  | nil : Elements [] []
  | cons {tlv : Tlv} {rest : List UInt8} {tlvs : List Tlv}
      (head : takeTlv (tlv.raw ++ rest) = .ok (tlv, rest)) (tail : Elements rest tlvs) :
      Elements (tlv.raw ++ rest) (tlv :: tlvs)

theorem takeTlv_split {input rest : List UInt8} {tlv : Tlv}
    (h : takeTlv input = .ok (tlv, rest)) : input = tlv.raw ++ rest := by
  obtain ⟨⟨tag, firstLen⟩, -, h⟩ := bind_eq_ok.mp h
  obtain ⟨_, -, h⟩ := bind_eq_ok.mp h
  obtain ⟨⟨headerLen, valueLen⟩, -, h⟩ := bind_eq_ok.mp h
  obtain ⟨_, -, h⟩ := bind_eq_ok.mp h
  cases pure_eq_ok.mp h
  exact (List.take_append_drop _ input).symm

theorem takeExpected_eq_ok {input rest : List UInt8} {tag : UInt8} {tlv : Tlv}
    (h : takeExpected input tag = .ok (tlv, rest)) : takeTlv input = .ok (tlv, rest) := by
  obtain ⟨⟨tlv', rest'⟩, htake, h⟩ := bind_eq_ok.mp h
  obtain ⟨_, _, h⟩ := bind_eq_ok.mp h
  cases pure_eq_ok.mp h
  exact htake

theorem two_le_of_tlvLength {firstLen : UInt8} {original : List UInt8} {headerLen valueLen : Nat}
    (h : tlvLength firstLen original = .ok (headerLen, valueLen)) : 2 ≤ headerLen := by
  unfold tlvLength at h
  split at h
  · cases pure_eq_ok.mp h
    exact Nat.le_refl 2
  · obtain ⟨_, _, h⟩ := bind_eq_ok.mp h
    obtain ⟨_, _, h⟩ := bind_eq_ok.mp h
    obtain ⟨_, _, h⟩ := bind_eq_ok.mp h
    cases pure_eq_ok.mp h
    exact Nat.le_add_right 2 _

theorem takeTlv_shortens {input rest : List UInt8} {tlv : Tlv}
    (h : takeTlv input = .ok (tlv, rest)) : rest.length < input.length := by
  obtain ⟨⟨tag, firstLen⟩, _, h⟩ := bind_eq_ok.mp h
  obtain ⟨_, _, h⟩ := bind_eq_ok.mp h
  obtain ⟨⟨headerLen, valueLen⟩, hlength, h⟩ := bind_eq_ok.mp h
  obtain ⟨_, henough, h⟩ := bind_eq_ok.mp h
  cases pure_eq_ok.mp h
  have htwo := two_le_of_tlvLength hlength
  have hlen := reject_eq_ok.mp henough
  rw [List.length_drop]
  omega

/-- More fuel than bytes changes nothing. -/
theorem sequencesWithin_enough {β : Type} (f : List UInt8 → Except PccsError β) {fuel fuel' : Nat}
    {input : List UInt8} (h : input.length ≤ fuel) (h' : input.length ≤ fuel') :
    sequencesWithin f fuel input = sequencesWithin f fuel' input := by
  induction fuel generalizing fuel' input with
  | zero =>
    cases List.length_eq_zero_iff.mp (Nat.le_zero.mp h)
    simp [sequencesWithin]
  | succ fuel ih =>
    cases input with
    | nil => simp [sequencesWithin]
    | cons b bs =>
      cases fuel' with
      | zero => simp at h'
      | succ fuel' =>
        rw [sequencesWithin, sequencesWithin]
        cases htake : takeExpected (b :: bs) 0x30 with
        | error e => rfl
        | ok taken =>
          obtain ⟨tlv, rest⟩ := taken
          have hrest := takeTlv_shortens (takeExpected_eq_ok htake)
          rw [List.length_cons] at h h' hrest
          have hsame := ih (show rest.length ≤ fuel by omega) (show rest.length ≤ fuel' by omega)
          change (f tlv.value >>= fun item => sequencesWithin f fuel rest >>= fun items =>
            pure (item :: items)) = _
          rw [hsame]
          rfl

/-- The loop, one iteration at a time. -/
theorem sequences_cons {β : Type} (f : List UInt8 → Except PccsError β) (b : UInt8)
    (bs : List UInt8) :
    sequences f (b :: bs) = do
      let (tlv, rest) ← takeExpected (b :: bs) 0x30
      let item ← f tlv.value
      let items ← sequences f rest
      return item :: items := by
  rw [sequences, List.length_cons, sequencesWithin]
  cases htake : takeExpected (b :: bs) 0x30 with
  | error e => rfl
  | ok taken =>
    obtain ⟨tlv, rest⟩ := taken
    have hrest := takeTlv_shortens (takeExpected_eq_ok htake)
    have hsame := sequencesWithin_enough f (Nat.le_of_lt_succ hrest) (Nat.le_refl rest.length)
    change (f tlv.value >>= fun item => sequencesWithin f bs.length rest >>= fun items =>
      pure (item :: items)) = _
    rw [hsame]
    rfl

/-- When a SingleResponse runs out, as the signer means it. -/
def ResponseValidity.deadline (item : ResponseValidity) (defaultTtl : Nat) : Int :=
  match item.nextUpdate with
  | some next => next.toInt
  | none => item.thisUpdate.toInt + defaultTtl

theorem tryI64_eq_some {n : Nat} {i : Int} (h : tryI64 n = some i) : (n : Int) ≤ i64Max ∧ n = i := by
  unfold tryI64 at h
  split at h
  · exact ⟨‹_›, Option.some.inj h⟩
  · cases h

end Pccs.Ocsp
