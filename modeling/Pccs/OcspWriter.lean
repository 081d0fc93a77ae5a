import Pccs.Der
import Pccs.OcspShape

/-!
# Writing OCSP messages

Requests and responses as values, and their definite-length encodings. The
readers find in an encoding the fields it was made of.
-/
namespace Pccs.Ocsp

open Fallible PccsError Der

section Elements

/-- The element as the reader returns it. -/
def written (tag : UInt8) (content : List UInt8) : Tlv := ⟨tag, content, element tag content⟩

/-- The reader of lengths, on the octets of a length. -/
theorem tlvLength_octets {n : Nat} (hn : n < 2 ^ 64) (tag : UInt8) (rest : List UInt8) :
    ∃ first tail, lengthOctets n ++ rest = first :: tail ∧
      tlvLength first (tag :: first :: tail) = .ok ((lengthOctets n).length + 1, n) := by
  by_cases hshort : n < 128
  · obtain ⟨-, hbit, hnat⟩ := short_octet n hshort
    refine ⟨UInt8.ofNat n, rest, by rw [lengthOctets_short hshort]; rfl, ?_⟩
    rw [tlvLength, if_pos hbit, hnat, lengthOctets_short hshort]
    rfl
  · have hcount : (octets n).length ≤ 8 := length_octets_le (by omega)
    obtain ⟨b, bs, hoctets, hb⟩ := octets_cons (show n ≠ 0 by omega)
    have hpos : 0 < (octets n).length := octets_pos (show n ≠ 0 by omega)
    obtain ⟨-, hbit, hnat⟩ := long_octet (octets n).length (by omega)
    refine ⟨UInt8.ofNat (128 + (octets n).length), octets n ++ rest,
      by rw [lengthOctets_long hshort]; rfl, ?_⟩
    rw [tlvLength, if_neg hbit, hnat, lengthOctets_long hshort]
    refine bind_eq_ok.mpr ⟨(), reject_eq_ok.mpr ?_, bind_eq_ok.mpr ⟨(), reject_eq_ok.mpr ?_, ?_⟩⟩
    · simp only [List.length_cons, List.length_append]
      omega
    · simp [hoctets, hb]
    · have htake : ((tag :: UInt8.ofNat (128 + (octets n).length) :: (octets n ++ rest)).drop 2).take
          (octets n).length = octets n := by simp
      have hvalue : PckCert.bigEndian (octets n) = n := value_octets n
      rw [htake, hvalue]
      refine bind_eq_ok.mpr ⟨(), reject_eq_ok.mpr hshort, ?_⟩
      rw [List.length_cons, Nat.add_assoc, Nat.add_comm 2]
      rfl

theorem takeTlv_element {tag : UInt8} {content : List UInt8} (htag : OneByte tag)
    (hlen : content.length < 2 ^ 64) (rest : List UInt8) :
    takeTlv (element tag content ++ rest) = .ok (written tag content, rest) := by
  obtain ⟨first, tail, htail, hlength⟩ := tlvLength_octets hlen tag (content ++ rest)
  have hinput : element tag content ++ rest = tag :: first :: tail := by
    rw [element, List.cons_append, List.append_assoc, htail]
  have hsize : (element tag content).length =
      (lengthOctets content.length).length + 1 + content.length := by
    rw [element, List.length_cons, List.length_append]
    omega
  rw [hinput]
  refine bind_eq_ok.mpr ⟨(tag, first), rfl, bind_eq_ok.mpr ⟨(), reject_eq_ok.mpr htag, ?_⟩⟩
  refine bind_eq_ok.mpr ⟨_, hlength, bind_eq_ok.mpr ⟨(), reject_eq_ok.mpr ?_, ?_⟩⟩
  · rw [← hinput, List.length_append]
    omega
  · rw [← hinput, ← hsize, List.take_left, List.drop_left]
    have hcontent : (element tag content).drop ((lengthOctets content.length).length + 1) =
        content := by
      rw [element, List.drop_succ_cons, List.drop_left]
    simp only [hcontent]
    rfl

/-- An optional element. -/
def optional (tag : UInt8) (content : Option (List UInt8)) : List UInt8 :=
  content.elim [] (element tag)

def optionalWritten (tag : UInt8) (content : Option (List UInt8)) : List Tlv :=
  content.toList.map (written tag)

theorem elements_element {tag : UInt8} {content rest : List UInt8} {tlvs : List Tlv}
    (htag : OneByte tag) (hlen : content.length < 2 ^ 64) (h : Elements rest tlvs) :
    Elements (element tag content ++ rest) (written tag content :: tlvs) :=
  elements_cons.mpr ⟨rest, takeTlv_element htag hlen rest, h⟩

theorem elements_one {tag : UInt8} {content : List UInt8} (htag : OneByte tag)
    (hlen : content.length < 2 ^ 64) : Elements (element tag content) [written tag content] := by
  simpa using elements_element htag hlen .nil

theorem elements_optional {tag : UInt8} {content : Option (List UInt8)} {rest : List UInt8}
    {tlvs : List Tlv} (htag : OneByte tag) (hlen : (optional tag content).length < 2 ^ 64)
    (h : Elements rest tlvs) :
    Elements (optional tag content ++ rest) (optionalWritten tag content ++ tlvs) := by
  cases content with
  | none => exact h
  | some content =>
    have hle := length_element tag content
    exact elements_element htag (by simp only [optional, Option.elim_some] at hlen; omega) h

theorem atMostOne_optional (tag : UInt8) (content : Option (List UInt8)) :
    AtMostOne tag (optionalWritten tag content) := by
  cases content with
  | none => exact .inl rfl
  | some content => exact .inr ⟨_, rfl, rfl⟩

/-- A list of SEQUENCEs. -/
theorem elements_flatMap {α : Type} {fields : α → List UInt8} {items : List α}
    (hlen : (items.flatMap fun a => element 0x30 (fields a)).length < 2 ^ 64) :
    Elements (items.flatMap fun a => element 0x30 (fields a))
      (items.map fun a => written 0x30 (fields a)) := by
  induction items with
  | nil => exact .nil
  | cons a items ih =>
    have hle := length_element 0x30 (fields a)
    rw [List.flatMap_cons, List.length_append] at hlen
    exact elements_element (by decide) (by omega) (ih (by omega))

theorem sequences_flatMap {α β : Type} {f : List UInt8 → Except PccsError β}
    {fields : α → List UInt8} {items : List α} {out : List β}
    (hlen : (items.flatMap fun a => element 0x30 (fields a)).length < 2 ^ 64)
    (h : items.mapM (fun a => f (fields a)) = .ok out) :
    sequences f (items.flatMap fun a => element 0x30 (fields a)) = .ok out := by
  refine sequences_iff.mpr ⟨_, elements_flatMap hlen, ?_, ?_⟩
  · simp [written]
  · rw [List.mapM_map]
    exact h

end Elements

section Requests

structure Extension where
  oid : List UInt8
  critical : Option (List UInt8)
  value : List UInt8

def Extension.fields (e : Extension) : List UInt8 :=
  element 0x06 e.oid ++ (optional 0x01 e.critical ++ element 0x04 e.value)

structure SingleRequest where
  certId : List UInt8
  extensions : Option (List UInt8)

def SingleRequest.fields (r : SingleRequest) : List UInt8 :=
  element 0x30 r.certId ++ optional 0xa0 r.extensions

/-- An OCSPRequest. What the reader does not look into is given by its contents. -/
structure RequestValue where
  version : Option (List UInt8)
  requestorName : Option (List UInt8)
  requests : List SingleRequest
  requested : requests ≠ []
  extensions : Option (List Extension)
  signature : Option (List UInt8)

namespace RequestValue

variable (v : RequestValue)

def listContent : List UInt8 := v.requests.flatMap fun r => element 0x30 r.fields

/-- The DER of requestList. -/
def listDer : List UInt8 := element 0x30 v.listContent

/-- `Extensions`, the contents of the [2] element. -/
def extensionList : Option (List UInt8) :=
  v.extensions.map fun es => element 0x30 (es.flatMap fun e => element 0x30 e.fields)

def tbsContent : List UInt8 :=
  optional 0xa0 v.version ++
    (optional 0xa1 v.requestorName ++ (v.listDer ++ optional 0xa2 v.extensionList))

def content : List UInt8 := element 0x30 v.tbsContent ++ optional 0xa0 v.signature

def der : List UInt8 := element 0x30 v.content

end RequestValue

theorem validateExtension_fields (e : Extension) (hlen : e.fields.length < 2 ^ 64) :
    validateExtension e.fields = .ok () := by
  obtain ⟨oid, critical, value⟩ := e
  have ho := length_element 0x06 oid
  have hv := length_element 0x04 value
  simp only [Extension.fields, List.length_append] at hlen ⊢
  have hvalue : takeTlv (element 0x04 value ++ []) = .ok (written 0x04 value, []) :=
    takeTlv_element (by decide) (by omega) []
  rw [List.append_nil] at hvalue
  refine bind_eq_ok.mpr ⟨_, takeExpected_iff.mpr
    ⟨takeTlv_element (by decide) (by omega) _, rfl⟩, ?_⟩
  cases critical with
  | none =>
    have hpeek : ¬ peekTag (optional 0x01 none ++ element 0x04 value) = some 0x01 := by
      simp [optional, element, peekTag]
    simp only [hpeek, if_false]
    refine bind_eq_ok.mpr ⟨_, rfl, bind_eq_ok.mpr ⟨_, takeExpected_iff.mpr ⟨hvalue, rfl⟩, ?_⟩⟩
    exact reject_eq_ok.mpr (by simp)
  | some critical =>
    have hc := length_element 0x01 critical
    simp only [optional, Option.elim_some] at hlen ⊢
    have hcritical : takeTlv (element 0x01 critical ++ element 0x04 value) =
        .ok (written 0x01 critical, element 0x04 value) :=
      takeTlv_element (by decide) (by omega) _
    have hpeek : peekTag (element 0x01 critical ++ element 0x04 value) = some 0x01 :=
      peekTag_of_takeTlv hcritical
    simp only [hpeek, if_true]
    refine bind_eq_ok.mpr ⟨_, map_eq_ok.mpr ⟨_, takeExpected_iff.mpr ⟨hcritical, rfl⟩, rfl⟩, ?_⟩
    refine bind_eq_ok.mpr ⟨_, takeExpected_iff.mpr ⟨hvalue, rfl⟩, ?_⟩
    exact reject_eq_ok.mpr (by simp)

theorem validateRequest_fields (r : SingleRequest) (hlen : r.fields.length < 2 ^ 64) :
    validateRequest r.fields = .ok () := by
  obtain ⟨certId, extensions⟩ := r
  have hc := length_element 0x30 certId
  simp only [SingleRequest.fields, List.length_append] at hlen ⊢
  refine bind_eq_ok.mpr ⟨_, takeExpected_iff.mpr
    ⟨takeTlv_element (by decide) (by omega) _, rfl⟩, ?_⟩
  cases extensions with
  | none => rfl
  | some extensions =>
    have he := length_element 0xa0 extensions
    simp only [optional, Option.elim_some] at hlen ⊢
    have htake : takeTlv (element 0xa0 extensions ++ []) = .ok (written 0xa0 extensions, []) :=
      takeTlv_element (by decide) (by omega) []
    rw [List.append_nil] at htake
    simp only [ne_eq, element_ne_nil, not_false_eq_true, if_true]
    refine bind_eq_ok.mpr ⟨_, map_eq_ok.mpr ⟨_, takeExpected_iff.mpr ⟨htake, rfl⟩, rfl⟩, ?_⟩
    exact reject_eq_ok.mpr (by simp)

/-- A loop of checks passes if each of them does. -/
theorem mapM_unit {ε α : Type} {f : α → Except ε Unit} {l : List α} (h : ∀ a ∈ l, f a = .ok ()) :
    ∃ out, l.mapM f = .ok out :=
  mapM_ok_iff.mpr fun a ha => ⟨(), h a ha⟩

theorem length_le_flatMap {α : Type} (fields : α → List UInt8) {items : List α} {a : α}
    (h : a ∈ items) :
    (fields a).length ≤ (items.flatMap fun a => element 0x30 (fields a)).length := by
  have hle := length_element 0x30 (fields a)
  have hmem : element 0x30 (fields a) ∈ items.map fun a => element 0x30 (fields a) :=
    List.mem_map_of_mem h
  have hsub := (List.sublist_flatten_of_mem hmem).length_le
  rw [List.flatMap_def]
  omega

theorem validateExtensions_list {es : List Extension}
    (hlen : (es.flatMap fun e => element 0x30 e.fields).length < 2 ^ 64) :
    validateExtensions (es.flatMap fun e => element 0x30 e.fields) = .ok () := by
  have hout : ∃ out, es.mapM (fun e => validateExtension e.fields) = .ok out := mapM_unit fun e he =>
    validateExtension_fields e (Nat.lt_of_le_of_lt (length_le_flatMap Extension.fields he) hlen)
  obtain ⟨out, hout⟩ := hout
  exact map_eq_ok.mpr ⟨out, sequences_flatMap hlen hout, rfl⟩

namespace RequestValue

variable {v : RequestValue}

theorem validateRequestList_listContent (hlen : v.listContent.length < 2 ^ 64) :
    validateRequestList v.listContent = .ok () := by
  have hne : v.listContent ≠ [] := by
    obtain ⟨r, rs, hrequests⟩ := List.exists_cons_of_ne_nil v.requested
    simp [listContent, hrequests, element_ne_nil]
  have hout : ∃ out, v.requests.mapM (fun r => validateRequest r.fields) = .ok out :=
    mapM_unit fun r hr => validateRequest_fields r
      (Nat.lt_of_le_of_lt (length_le_flatMap SingleRequest.fields hr) hlen)
  obtain ⟨out, hout⟩ := hout
  refine bind_eq_ok.mpr ⟨(), reject_eq_ok.mpr hne, map_eq_ok.mpr ⟨out, ?_, rfl⟩⟩
  exact sequences_flatMap hlen hout

theorem reads_der (hlen : v.der.length < 2 ^ 64) :
    Reads v.der (optionalWritten 0xa0 v.version ++ optionalWritten 0xa1 v.requestorName)
      (written 0x30 v.listContent) (optionalWritten 0xa2 v.extensionList)
      (optional 0xa0 v.signature) := by
  have houter := length_element 0x30 v.content
  have htbs := length_element 0x30 v.tbsContent
  have hlist := length_element 0x30 v.listContent
  have hcontent : v.content.length =
      (element 0x30 v.tbsContent).length + (optional 0xa0 v.signature).length := List.length_append
  have hfields : v.tbsContent.length = (optional 0xa0 v.version).length +
      ((optional 0xa1 v.requestorName).length +
        ((element 0x30 v.listContent).length + (optional 0xa2 v.extensionList).length)) := by
    simp only [tbsContent, listDer, List.length_append]
  simp only [der] at hlen
  refine ⟨written 0x30 v.content, written 0x30 v.tbsContent,
    parseSingle_iff.mpr ⟨elements_one (by decide) (by omega), rfl⟩,
    takeExpected_iff.mpr ⟨takeTlv_element (by decide) (by omega) _, rfl⟩, ?_⟩
  refine ⟨?_, ?_, rfl, validateRequestList_listContent (by omega), ?_⟩
  · have hextensions : Elements (optional 0xa2 v.extensionList ++ [])
        (optionalWritten 0xa2 v.extensionList ++ []) :=
      elements_optional (by decide) (by omega) .nil
    rw [List.append_nil, List.append_nil] at hextensions
    rw [List.append_assoc]
    exact elements_optional (by decide) (by omega) (elements_optional (by decide) (by omega)
      (elements_element (by decide) (by omega) hextensions))
  · intro t ht
    obtain ht | ht := List.mem_append.mp ht
    · exact .inl ((atMostOne_optional _ _).tag_eq t ht)
    · exact .inr ((atMostOne_optional _ _).tag_eq t ht)
  · cases hextensions : v.extensions with
    | none => exact .inl (by simp [extensionList, hextensions, optionalWritten])
    | some es =>
      have hsome : v.extensionList =
          some (element 0x30 (es.flatMap fun e => element 0x30 e.fields)) := by
        simp [extensionList, hextensions]
      rw [hsome] at hfields ⊢
      have he := length_element 0xa2 (element 0x30 (es.flatMap fun e => element 0x30 e.fields))
      have hl := length_element 0x30 (es.flatMap fun e => element 0x30 e.fields)
      simp only [optional, Option.elim_some] at hfields
      have hlist : (es.flatMap fun e => element 0x30 e.fields).length < 2 ^ 64 := by omega
      have hone : Elements (element 0x30 (es.flatMap fun e => element 0x30 e.fields))
          [written 0x30 (es.flatMap fun e => element 0x30 e.fields)] :=
        elements_one (by decide) hlist
      exact .inr ⟨_, _, rfl, rfl, parseSingle_iff.mpr ⟨hone, rfl⟩, validateExtensions_list hlist⟩

end RequestValue

/-- The key of a request is the digest of its requestList, and two accepted
bodies have one key exactly if the requestLists read in them are the same bytes. -/
theorem request_key (env : Env) :
    (∀ v : RequestValue, v.der.length < 2 ^ 64 →
      parseRequest env v.der = .ok (env.sha256Hex v.listDer)) ∧
    (Function.Injective env.sha256Hex → ∀ (a b : List UInt8) (keyA keyB : String),
      parseRequest env a = .ok keyA → parseRequest env b = .ok keyB →
      ∃ taggedA listA extensionsA behindA taggedB listB extensionsB behindB,
        Reads a taggedA listA extensionsA behindA ∧ Reads b taggedB listB extensionsB behindB ∧
        (keyA = keyB ↔ listA.raw = listB.raw)) := by
  constructor
  · intro v hlen
    exact parseRequest_iff.mpr ⟨_, _, _, _, v.reads_der hlen, rfl⟩
  · intro hsha a b keyA keyB ha hb
    obtain ⟨taggedA, listA, extensionsA, behindA, hreadsA, rfl⟩ := parseRequest_iff.mp ha
    obtain ⟨taggedB, listB, extensionsB, behindB, hreadsB, rfl⟩ := parseRequest_iff.mp hb
    exact ⟨taggedA, listA, extensionsA, behindA, taggedB, listB, extensionsB, behindB, hreadsA,
      hreadsB, hsha.eq_iff⟩

/-- A request for one certificate with a nonce. -/
def nonceRequest (nonce : List UInt8) : RequestValue where
  version := none
  requestorName := none
  requests := [⟨[], none⟩]
  requested := by simp
  extensions := some [⟨[0x2b, 0x06, 0x01, 0x05, 0x05, 0x07, 0x30, 0x01, 0x02], none, nonce⟩]
  signature := none

def digestEnv : Env := { Keys.plainEnv with sha256Hex := Encoding.hexEncode }

theorem request_key_nonces :
    parseRequest digestEnv (nonceRequest [1]).der =
      .ok (digestEnv.sha256Hex (nonceRequest [1]).listDer) ∧
    ∃ taggedA listA extensionsA behindA taggedB listB extensionsB behindB,
      Reads (nonceRequest [1]).der taggedA listA extensionsA behindA ∧
      Reads (nonceRequest [2]).der taggedB listB extensionsB behindB ∧
      (digestEnv.sha256Hex (nonceRequest [1]).listDer =
        digestEnv.sha256Hex (nonceRequest [2]).listDer ↔ listA.raw = listB.raw) :=
  ⟨(request_key digestEnv).1 (nonceRequest [1]) (by decide +kernel),
    (request_key digestEnv).2 Encoding.hexEncode_injective _ _ _ _
      ((request_key digestEnv).1 (nonceRequest [1]) (by decide +kernel))
      ((request_key digestEnv).1 (nonceRequest [2]) (by decide +kernel))⟩

end Requests

section Responses

variable {chrono : Chrono}

/-- The contents of a GeneralizedTime and the seconds they stand for. -/
structure Time (chrono : Chrono) where
  bytes : List UInt8
  seconds : Int64
  parsed : parseGeneralizedTime chrono bytes = .ok seconds

inductive Status where
  | good
  | revoked (info : List UInt8)
  | unknown
deriving DecidableEq

def Status.tag : Status → UInt8
  | .good => 0x80
  | .revoked _ => 0xa1
  | .unknown => certStatusUnknown

def Status.content : Status → List UInt8
  | .revoked info => info
  | _ => []

inductive ResponderId where
  | byName (name : List UInt8)
  | byKey (hash : List UInt8)

def ResponderId.tag : ResponderId → UInt8
  | .byName _ => 0xa1
  | .byKey _ => 0xa2

def ResponderId.content : ResponderId → List UInt8
  | .byName name => name
  | .byKey hash => hash

structure SingleValue (chrono : Chrono) where
  certId : List UInt8
  status : Status
  thisUpdate : Time chrono
  nextUpdate : Option (Time chrono)
  extensions : Option (List UInt8)

/-- A successful response. What the reader does not look into is given by its
contents. -/
structure ResponseValue (chrono : Chrono) where
  version : Option (List UInt8)
  responderId : ResponderId
  producedAt : List UInt8
  singles : List (SingleValue chrono)
  answered : singles ≠ []
  extensions : Option (List UInt8)
  algorithm : List UInt8
  signature : List UInt8
  certs : Option (List UInt8)

namespace SingleValue

variable (s : SingleValue chrono)

def nextContent : Option (List UInt8) := s.nextUpdate.map fun t => element 0x18 t.bytes

def fields : List UInt8 :=
  element 0x30 s.certId ++ (element s.status.tag s.status.content ++
    (element 0x18 s.thisUpdate.bytes ++ (optional 0xa0 s.nextContent ++ optional 0xa1 s.extensions)))

/-- When it runs out: at nextUpdate, or the default time after thisUpdate. -/
def deadline (defaultTtl : Nat) : Int :=
  match s.nextUpdate with
  | some t => t.seconds.toInt
  | none => s.thisUpdate.seconds.toInt + defaultTtl

/-- What the reader makes of it. -/
def validity : ResponseValidity :=
  ⟨s.thisUpdate.seconds, s.nextUpdate.map Time.seconds, decide (s.status = .unknown)⟩

end SingleValue

namespace ResponseValue

variable (v : ResponseValue chrono)

def responses : List UInt8 := v.singles.flatMap fun s => element 0x30 s.fields

def dataContent : List UInt8 :=
  optional 0xa0 v.version ++ (element v.responderId.tag v.responderId.content ++
    (element 0x18 v.producedAt ++ (element 0x30 v.responses ++ optional 0xa1 v.extensions)))

def basicContent : List UInt8 :=
  element 0x30 v.dataContent ++ (element 0x30 v.algorithm ++ (element 0x03 v.signature ++
    optional 0xa0 (v.certs.map (element 0x30))))

/-- `ResponseBytes`. -/
def bytesContent : List UInt8 :=
  element 0x06 oidOcspBasic ++ element 0x04 (element 0x30 v.basicContent)

def content : List UInt8 :=
  element 0x0a [0] ++ element 0xa0 (element 0x30 v.bytesContent)

def der : List UInt8 := element 0x30 v.content

end ResponseValue

theorem Status.tag_spec (status : Status) : OneByte status.tag ∧ status.tag &&& 0xc0 = 0x80 ∧
    decide (status = .unknown) = decide (status.tag = certStatusUnknown) := by
  cases status with
  | good => decide
  | revoked info =>
    have h : OneByte 0xa1 ∧ (0xa1 : UInt8) &&& 0xc0 = 0x80 ∧ (0xa1 : UInt8) ≠ certStatusUnknown := by
      decide
    exact ⟨h.1, h.2.1, by simp [tag, h.2.2]⟩
  | unknown => decide

theorem ResponderId.tag_spec (id : ResponderId) : OneByte id.tag ∧ id.tag &&& 0xc0 = 0x80 ∧
    (id.tag &&& 0x1f = 1 ∨ id.tag &&& 0x1f = 2) := by
  cases id with
  | byName name =>
    have h : OneByte 0xa1 ∧ (0xa1 : UInt8) &&& 0xc0 = 0x80 ∧ (0xa1 : UInt8) &&& 0x1f = 1 := by decide
    exact ⟨h.1, h.2.1, .inl h.2.2⟩
  | byKey hash =>
    have h : OneByte 0xa2 ∧ (0xa2 : UInt8) &&& 0xc0 = 0x80 ∧ (0xa2 : UInt8) &&& 0x1f = 2 := by decide
    exact ⟨h.1, h.2.1, .inr h.2.2⟩

theorem SingleValue.nextUpdate_written (s : SingleValue chrono)
    (hlen : (optional 0xa0 s.nextContent).length < 2 ^ 64) :
    NextUpdate chrono (optionalWritten 0xa0 s.nextContent) s.validity.nextUpdate := by
  cases hnext : s.nextUpdate with
  | none => exact .inl ⟨by simp [nextContent, hnext, optionalWritten], by simp [validity, hnext]⟩
  | some t =>
    have hsome : s.nextContent = some (element 0x18 t.bytes) := by simp [nextContent, hnext]
    have he := length_element 0xa0 (element 0x18 t.bytes)
    have hv := length_element 0x18 t.bytes
    rw [hsome] at hlen ⊢
    simp only [optional, Option.elim_some] at hlen
    have hone : Elements (element 0x18 t.bytes) [written 0x18 t.bytes] :=
      elements_one (by decide) (by omega)
    exact .inr ⟨_, _, t.seconds, rfl, rfl, hone, rfl, t.parsed, by simp [validity, hnext]⟩

theorem singleResponse_fields (s : SingleValue chrono) (hlen : s.fields.length < 2 ^ 64) :
    singleResponse chrono s.fields = .ok s.validity := by
  obtain ⟨htag, hclass, hunknown⟩ := s.status.tag_spec
  have hc := length_element 0x30 s.certId
  have hs := length_element s.status.tag s.status.content
  have ht := length_element 0x18 s.thisUpdate.bytes
  have hsum : s.fields.length = (element 0x30 s.certId).length +
      ((element s.status.tag s.status.content).length +
        ((element 0x18 s.thisUpdate.bytes).length +
          ((optional 0xa0 s.nextContent).length + (optional 0xa1 s.extensions).length))) := by
    simp only [SingleValue.fields, List.length_append]
  have hlast : Elements (optional 0xa1 s.extensions ++ []) (optionalWritten 0xa1 s.extensions ++ []) :=
    elements_optional (by decide) (by omega) .nil
  rw [List.append_nil, List.append_nil] at hlast
  refine singleResponse_iff.mpr ⟨written s.status.tag s.status.content, written 0x30 s.certId,
    written 0x18 s.thisUpdate.bytes, optionalWritten 0xa0 s.nextContent,
    optionalWritten 0xa1 s.extensions, ?_, rfl, hclass, rfl, s.thisUpdate.parsed,
    s.nextUpdate_written (by omega), atMostOne_optional _ _, hunknown⟩
  exact elements_element (by decide) (by omega) (elements_element htag (by omega)
    (elements_element (by decide) (by omega) (elements_optional (by decide) (by omega) hlast)))

namespace ResponseValue

variable {v : ResponseValue chrono}

theorem splits_data (hlen : v.dataContent.length < 2 ^ 64) :
    Splits v.dataContent (optionalWritten 0xa0 v.version ++
      [written v.responderId.tag v.responderId.content, written 0x18 v.producedAt,
        written 0x30 v.responses]) (optional 0xa1 v.extensions) := by
  have hr := length_element v.responderId.tag v.responderId.content
  have hp := length_element 0x18 v.producedAt
  have hs := length_element 0x30 v.responses
  have hsum : v.dataContent.length = (optional 0xa0 v.version).length +
      ((element v.responderId.tag v.responderId.content).length +
        ((element 0x18 v.producedAt).length + ((element 0x30 v.responses).length +
          (optional 0xa1 v.extensions).length))) := by
    simp only [dataContent, List.length_append]
  have hrest : Splits (element v.responderId.tag v.responderId.content ++
      (element 0x18 v.producedAt ++ (element 0x30 v.responses ++ optional 0xa1 v.extensions)))
      [written v.responderId.tag v.responderId.content, written 0x18 v.producedAt,
        written 0x30 v.responses] (optional 0xa1 v.extensions) :=
    ⟨_, takeTlv_element v.responderId.tag_spec.1 (by omega) _, _,
      takeTlv_element (by decide) (by omega) _, _, takeTlv_element (by decide) (by omega) _, rfl⟩
  cases hversion : v.version with
  | none =>
    rw [dataContent, hversion]
    exact hrest
  | some version =>
    have hv := length_element 0xa0 version
    rw [hversion] at hsum
    simp only [optional, Option.elim_some] at hsum
    rw [dataContent, hversion]
    exact ⟨_, takeTlv_element (by decide) (by omega) _, hrest⟩

theorem isBasic (hlen : v.basicContent.length < 2 ^ 64) :
    IsBasic (written 0x30 v.basicContent) (written 0x30 v.responses) (optional 0xa1 v.extensions) := by
  have hd := length_element 0x30 v.dataContent
  have ha := length_element 0x30 v.algorithm
  have hs := length_element 0x03 v.signature
  have hsum : v.basicContent.length = (element 0x30 v.dataContent).length +
      ((element 0x30 v.algorithm).length + ((element 0x03 v.signature).length +
        (optional 0xa0 (v.certs.map (element 0x30))).length)) := by
    simp only [basicContent, List.length_append]
  have hcerts : Elements (optional 0xa0 (v.certs.map (element 0x30)) ++ [])
      (optionalWritten 0xa0 (v.certs.map (element 0x30)) ++ []) :=
    elements_optional (by decide) (by omega) .nil
  rw [List.append_nil, List.append_nil] at hcerts
  obtain ⟨hresponder, hclass, hchoice⟩ := v.responderId.tag_spec
  refine ⟨written 0x30 v.dataContent, written 0x30 v.algorithm, written 0x03 v.signature,
    optionalWritten 0xa0 (v.certs.map (element 0x30)), ?_, rfl, rfl, rfl, ?_,
    optionalWritten 0xa0 v.version, written v.responderId.tag v.responderId.content,
    written 0x18 v.producedAt, splits_data (by omega), atMostOne_optional _ _, hclass, hchoice, rfl,
    rfl⟩
  · exact elements_element (by decide) (by omega) (elements_element (by decide) (by omega)
      (elements_element (by decide) (by omega) hcerts))
  · cases hcerts : v.certs with
    | none => exact .inl rfl
    | some certs =>
      have hc := length_element 0xa0 (element 0x30 certs)
      have hl := length_element 0x30 certs
      rw [hcerts] at hsum
      simp only [optional, Option.map_some, Option.elim_some] at hsum
      have hone : Elements (element 0x30 certs) [written 0x30 certs] :=
        elements_one (by decide) (by omega)
      exact .inr ⟨_, _, rfl, rfl, hone, rfl⟩

theorem layout (hlen : v.der.length < 2 ^ 64) :
    Layout v.der (written 0x30 v.responses) [] [] (optional 0xa1 v.extensions) := by
  have h₁ := length_element 0x30 v.content
  have h₂ := length_element 0xa0 (element 0x30 v.bytesContent)
  have h₃ := length_element 0x30 v.bytesContent
  have h₄ := length_element 0x04 (element 0x30 v.basicContent)
  have h₅ := length_element 0x30 v.basicContent
  have hcontent : v.content.length = (element 0x0a [0]).length +
      (element 0xa0 (element 0x30 v.bytesContent)).length := List.length_append
  have hbytes : v.bytesContent.length = (element 0x06 oidOcspBasic).length +
      (element 0x04 (element 0x30 v.basicContent)).length := List.length_append
  simp only [der] at hlen
  have houter : Elements v.der [written 0x30 v.content] := elements_one (by decide) (by omega)
  have hbody : Elements (element 0x30 v.bytesContent) [written 0x30 v.bytesContent] :=
    elements_one (by decide) (by omega)
  have hbasic : Elements (element 0x30 v.basicContent) [written 0x30 v.basicContent] :=
    elements_one (by decide) (by omega)
  have hresponse : takeTlv (element 0xa0 (element 0x30 v.bytesContent) ++ []) =
      .ok (written 0xa0 (element 0x30 v.bytesContent), []) :=
    takeTlv_element (by decide) (by omega) []
  have hder : takeTlv (element 0x04 (element 0x30 v.basicContent) ++ []) =
      .ok (written 0x04 (element 0x30 v.basicContent), []) :=
    takeTlv_element (by decide) (by omega) []
  rw [List.append_nil] at hresponse hder
  exact ⟨written 0x30 v.content, written 0x0a [0], written 0xa0 (element 0x30 v.bytesContent),
    written 0x30 v.bytesContent, written 0x06 oidOcspBasic,
    written 0x04 (element 0x30 v.basicContent), written 0x30 v.basicContent, houter, rfl,
    ⟨_, takeTlv_element (by decide) (by decide) _, _, hresponse, rfl⟩, rfl, rfl, rfl, hbody, rfl,
    ⟨_, takeTlv_element (by decide) (by decide) _, _, hder, rfl⟩, rfl, rfl, rfl, hbasic, rfl,
    isBasic (by omega)⟩

theorem responses_lt : v.responses.length < v.der.length := by
  have h₁ := length_element 0x30 v.content
  have h₂ := length_element 0xa0 (element 0x30 v.bytesContent)
  have h₃ := length_element 0x30 v.bytesContent
  have h₄ := length_element 0x04 (element 0x30 v.basicContent)
  have h₅ := length_element 0x30 v.basicContent
  have h₆ := length_element 0x30 v.dataContent
  have h₇ := length_element 0x30 v.responses
  have hcontent : v.content.length = (element 0x0a [0]).length +
      (element 0xa0 (element 0x30 v.bytesContent)).length := List.length_append
  have hbytes : v.bytesContent.length = (element 0x06 oidOcspBasic).length +
      (element 0x04 (element 0x30 v.basicContent)).length := List.length_append
  have hbasic : (element 0x30 v.dataContent).length ≤ v.basicContent.length := by
    simp [basicContent]
  have hdata : (element 0x30 v.responses).length ≤ v.dataContent.length := by
    simp only [dataContent, List.length_append]
    omega
  simp only [der]
  omega

/-- The reader finds every SingleResponse. -/
theorem responseValidity_der (hlen : v.der.length < 2 ^ 64) :
    responseValidity chrono v.der = .ok (v.singles.map SingleValue.validity) := by
  have hresponses : v.responses.length < 2 ^ 64 := Nat.lt_trans responses_lt hlen
  have helements : Elements v.responses (v.singles.map fun s => written 0x30 s.fields) :=
    elements_flatMap hresponses
  have hread : (v.singles.map fun s => written 0x30 s.fields).mapM
      (fun single => singleResponse chrono single.value) =
        .ok (v.singles.map SingleValue.validity) := by
    rw [List.mapM_map]
    exact mapM_eq_map fun s hs => singleResponse_fields s
      (Nat.lt_of_le_of_lt (length_le_flatMap SingleValue.fields hs) hresponses)
  exact responseValidity_iff.mpr ⟨_, _, ⟨_, _, _, layout hlen⟩, helements, by simp [v.answered],
    by simp [written], hread⟩

end ResponseValue

/-- A response is kept exactly if the numbers fit, no status is unknown, no
thisUpdate lies in the future and the least of the deadlines is still to come;
it is then kept until that. -/
theorem response_expiry (v : ResponseValue chrono) (hlen : v.der.length < 2 ^ 64) (now : Int)
    (maxTtl defaultTtl expiresAt : Nat) :
    responseCacheExpiry chrono v.der now maxTtl defaultTtl = .ok expiresAt ↔
      ((maxTtl : Int) ≤ i64Max ∧ (defaultTtl : Int) ≤ i64Max ∧ now + maxTtl ≤ i64Max) ∧
      (∀ s ∈ v.singles, s.status ≠ .unknown) ∧
      (∀ s ∈ v.singles, s.thisUpdate.seconds.toInt ≤ now) ∧
      IsLeast (insert (now + maxTtl) {d | ∃ s ∈ v.singles, d = s.deadline defaultTtl})
        (expiresAt : Int) ∧
      now < expiresAt := by
  have hdeadline : ∀ s : SingleValue chrono,
      s.validity.deadline defaultTtl = s.deadline defaultTtl := by
    intro s
    cases hnext : s.nextUpdate with
    | none => simp [SingleValue.validity, SingleValue.deadline, ResponseValidity.deadline, hnext]
    | some t => simp [SingleValue.validity, SingleValue.deadline, ResponseValidity.deadline, hnext]
  have hdeadlines : {d | ∃ item ∈ v.singles.map SingleValue.validity, d = item.deadline defaultTtl} =
      {d | ∃ s ∈ v.singles, d = s.deadline defaultTtl} := by
    ext d
    simp [hdeadline]
  have hknown : (∀ item ∈ v.singles.map SingleValue.validity, item.unknown = false) ↔
      ∀ s ∈ v.singles, s.status ≠ .unknown := by
    simp [SingleValue.validity]
  have hpast : (∀ item ∈ v.singles.map SingleValue.validity, item.thisUpdate.toInt ≤ now) ↔
      ∀ s ∈ v.singles, s.thisUpdate.seconds.toInt ≤ now := by
    simp [SingleValue.validity]
  rw [responseCacheExpiry_iff]
  constructor
  · rintro ⟨items, hvalidity, hkeeps⟩
    cases hvalidity.symm.trans (ResponseValue.responseValidity_der hlen)
    exact ⟨⟨hkeeps.maxFits, hkeeps.defaultFits, hkeeps.sumFits⟩, hknown.mp hkeeps.known,
      hpast.mp hkeeps.past, hdeadlines ▸ hkeeps.least, hkeeps.later⟩
  · rintro ⟨⟨hmax, hdefault, hsum⟩, hunknown, hthis, hleast, hlater⟩
    exact ⟨_, ResponseValue.responseValidity_der hlen, ⟨hmax, hdefault, hsum, hknown.mpr hunknown,
      hpast.mpr hthis, hdeadlines ▸ hleast, hlater⟩⟩

/-- 2026-01-01 00:00:00 UTC, and an hour later. -/
def firstHourChrono : Chrono where
  parseNaive text format :=
    if format = "%Y%m%d%H%M%SZ" then
      [("20260101000000Z", 1767225600), ("20260101010000Z", 1767229200)].lookup text
    else none
  parseZoned _ _ := none

def midnight : Time firstHourChrono := ⟨newYear, 1767225600, by decide +kernel⟩

def oneOClock : Time firstHourChrono :=
  ⟨Text.asBytes "20260101010000Z", 1767229200, by decide +kernel⟩

/-- A good answer until one o'clock, and a revoked one without nextUpdate. -/
def twoAnswers : ResponseValue firstHourChrono where
  version := some (element 0x02 [0])
  responderId := .byKey [1, 2]
  producedAt := newYear
  singles := [⟨[3], .good, midnight, some oneOClock, none⟩,
    ⟨[4], .revoked (element 0x18 newYear), midnight, none, some []⟩]
  answered := by simp
  extensions := some []
  algorithm := [5, 0]
  signature := [0]
  certs := some []

/-- The first deadline is the nextUpdate of the good answer. -/
theorem response_expiry_twoAnswers :
    responseCacheExpiry firstHourChrono twoAnswers.der 1767225610 86400 7200 = .ok 1767229200 := by
  refine (response_expiry twoAnswers (by decide +kernel) _ _ _ _).mpr
    ⟨by decide, by decide, by decide, ⟨.inr ⟨_, List.mem_cons_self, rfl⟩, ?_⟩, by decide⟩
  rintro d (rfl | ⟨s, hs, rfl⟩)
  · decide
  · rcases List.mem_cons.mp hs with rfl | hs
    · decide
    · cases List.mem_singleton.mp hs
      decide

end Responses

end Pccs.Ocsp
