import Pccs.CertWriter
import Pccs.LossyText

/-!
# Certificates are read back

The reader of PCK certificates on the encoding of a whole certificate: whatever
surrounds the SGX extension, in whatever order its items stand and however the
PEM text is broken into lines, the fields are those of the value encoded.
-/
namespace Pccs.PckCert

open Text Encoding Fallible Der

section Reader

theorem nextTlv_high (first : HighTag) (rest : List UInt8) : nextTlv (first.1 :: rest) = none := by
  have hhigh : first.1 &&& 0x1F = 0x1F := Classical.not_not.mp first.2
  cases rest with
  | nil => rfl
  | cons b rest => rw [nextTlv, if_pos hhigh]

/-- The reader takes the elements of a list up to the first tag it does not
know. -/
theorem tlvs_encodeAll {ns : List Node} (hlen : (encodeAll ns).length < 2 ^ 32) :
    tlvs (encodeAll ns) = readable ns := by
  induction ns with
  | nil => rfl
  | cons n ns ih =>
    rw [encodeAll_cons, List.length_append] at hlen
    have ih := ih (by omega)
    cases n with
    | primitive tag content =>
      have hle := length_element tag.1 content
      simp only [Node.encode] at hlen
      rw [encodeAll_cons, Node.encode, tlvs_eq, nextTlv_element tag.2.1 (by omega)]
      simp only [ih, readable]
    | constructed tag children =>
      have hle := length_element tag.1 (encodeAll children)
      simp only [Node.encode] at hlen
      rw [encodeAll_cons, Node.encode, tlvs_eq, nextTlv_element tag.2.1 (by omega)]
      simp only [ih, readable]
    | high first more content =>
      rw [encodeAll_cons, Node.encode, List.cons_append, tlvs_eq, nextTlv_high]
      rfl

theorem length_children_lt {tag : ConstructedTag} {children ns : List Node}
    (h : Node.constructed tag children ∈ ns) (hlen : (encodeAll ns).length < 2 ^ 32) :
    (encodeAll children).length < 2 ^ 32 := by
  have hle := length_encode_le h
  have helement := length_element tag.1 (encodeAll children)
  simp only [Node.encode] at hle
  omega

end Reader

section Search

variable {oid : List UInt8}

theorem not_isConstructed (tag : PrimitiveTag) : isConstructed tag.1 = false := by
  simp [isConstructed, tag.2.2]

theorem primitive_ne_sequence (tag : PrimitiveTag) : tag.1 ≠ 0x30 := by
  intro h
  have hbit := tag.2.2
  rw [h] at hbit
  exact absurd hbit (by decide)

theorem extensionAt_primitive (tag : PrimitiveTag) (content : List UInt8) :
    extensionAt oid (tag.1, content) = none := by
  simp [extensionAt, primitive_ne_sequence tag, not_isConstructed tag]

theorem extensionValue_of_not_startsWith {children : List Node} (h : ¬ StartsWith oid children) :
    extensionValue (readable children) oid = none := by
  cases children with
  | nil => rfl
  | cons n ns =>
    cases n with
    | primitive tag content =>
      have hother : tag.1 = 0x06 → content ≠ oid := by
        intro htag hoid
        have hobject : tag = objectId := Subtype.ext htag
        exact h ⟨ns, by rw [hobject, hoid]⟩
      unfold extensionValue
      split
      · rename_i heq
        simp only [readable, List.cons.injEq, Prod.mk.injEq] at heq
        obtain ⟨⟨htag, rfl⟩, -⟩ := heq
        rw [if_neg (hother htag)]
      · rfl
    | constructed tag children =>
      have hbit : tag.1 ≠ 0x06 := by
        intro htag
        have hbit := tag.2.2
        rw [htag] at hbit
        exact hbit (by decide)
      unfold extensionValue
      split
      · rename_i heq
        simp only [readable, List.cons.injEq, Prod.mk.injEq] at heq
        exact absurd heq.1.1 hbit
      · rfl
    | high first more content => rfl

theorem extensionAt_constructed (tag : ConstructedTag) {children : List Node}
    (hlen : (encodeAll children).length < 2 ^ 32) (h : tag = sequenceTag → ¬ StartsWith oid children) :
    extensionAt oid (tag.1, encodeAll children) =
      (readable children).findSome? (extensionAt oid) := by
  have hcon : isConstructed tag.1 = true := by simp [isConstructed, tag.2.2]
  have hvalue : (if tag.1 = 0x30 then extensionValue (readable children) oid else none) = none := by
    split
    · exact extensionValue_of_not_startsWith (h (Subtype.ext ‹_›))
    · rfl
  rw [extensionAt]
  simp only [tlvs_encodeAll hlen, hvalue, hcon, if_true, findExtension_eq]

/-- Where no SEQUENCE starts with the OBJECT IDENTIFIER, nothing is found. -/
theorem findSome_silent : ∀ (ns : List Node), (encodeAll ns).length < 2 ^ 32 → AllSilent oid ns →
    (readable ns).findSome? (extensionAt oid) = none
  | [], _, _ => rfl
  | .primitive tag content :: ns, hlen, hsilent => by
    rw [encodeAll_cons, List.length_append] at hlen
    rw [readable, List.findSome?_cons, extensionAt_primitive,
      findSome_silent ns (by omega) hsilent.2]
  | .constructed tag children :: ns, hlen, hsilent => by
    have hchildren := length_children_lt (List.mem_cons_self ..) hlen
    rw [encodeAll_cons, List.length_append] at hlen
    rw [readable, List.findSome?_cons, extensionAt_constructed tag hchildren hsilent.1.1,
      findSome_silent children hchildren hsilent.1.2, findSome_silent ns (by omega) hsilent.2]
  | .high .. :: _, _, _ => rfl

/-- Not a tag of several octets. -/
def Low : Node → Prop
  | .high .. => False
  | _ => True

theorem readable_append {ms : List Node} (hlow : ∀ m ∈ ms, Low m) (ns : List Node) :
    readable (ms ++ ns) = readable ms ++ readable ns := by
  induction ms with
  | nil => rfl
  | cons m ms ih =>
    obtain ⟨hm, hms⟩ := List.forall_mem_cons.mp hlow
    cases m with
    | primitive tag content => simp only [List.cons_append, readable, ih hms]
    | constructed tag children => simp only [List.cons_append, readable, ih hms]
    | high first more content => exact hm.elim

/-- What is found at one node is found in a list if nothing is before it. -/
theorem findSome_found {before after : List Node} {n : Node} {t : Tlv} {v : List UInt8}
    (hlen : (encodeAll (before ++ n :: after)).length < 2 ^ 32) (hlow : ∀ m ∈ before, Low m)
    (hsilent : AllSilent oid before) (hn : readable (n :: after) = t :: readable after)
    (hfound : extensionAt oid t = some v) :
    (readable (before ++ n :: after)).findSome? (extensionAt oid) = some v := by
  rw [encodeAll_append, List.length_append] at hlen
  rw [readable_append hlow, List.findSome?_append, findSome_silent before (by omega) hsilent, hn,
    List.findSome?_cons, hfound]
  rfl

end Search

section Values

/-- `{OID, value}`. -/
def pairNode (oid : List UInt8) (value : Node) : Node :=
  .constructed sequenceTag [.primitive objectId oid, value]

structure CertExtension where
  oid : List UInt8
  critical : Option (List UInt8)
  value : List UInt8

def CertExtension.fields (e : CertExtension) : List Node :=
  .primitive objectId e.oid ::
    (e.critical.toList.map (.primitive ⟨0x01, by decide⟩) ++ [.primitive octetString e.value])

def CertExtension.node (e : CertExtension) : Node := .constructed sequenceTag e.fields

/-- The TCB sequenceTag: sixteen components, the PCESVN and the CPUSVN. -/
structure TcbValue where
  components : List (List UInt8 × Node)
  sixteen : components.length = 16
  pcesvnOid : List UInt8
  pcesvn : UInt32
  cpusvnOid : List UInt8
  cpusvn : List UInt8
  named : cpusvn ≠ []

def TcbValue.children (t : TcbValue) : List Node :=
  t.components.map (fun c => pairNode c.1 c.2) ++
    [pairNode t.pcesvnOid (.primitive integerTag (integer t.pcesvn.toNat)),
      pairNode t.cpusvnOid (.primitive octetString t.cpusvn)]

/-- The OID of an item that is not read. -/
abbrev OtherOid : Type :=
  { oid : List UInt8 // oid ≠ subOid 0x01 ∧ oid ≠ subOid 0x02 ∧ oid ≠ subOid 0x03 ∧ oid ≠ subOid 0x04 }

inductive SgxItem where
  | ppid (value : List UInt8)
  | tcb (value : TcbValue)
  | pceId (value : List UInt8)
  | fmspc (value : List UInt8)
  | other (oid : OtherOid) (value : Node)

def SgxItem.children : SgxItem → List Node
  | .ppid value => [.primitive objectId (subOid 0x01), .primitive octetString value]
  | .tcb value => [.primitive objectId (subOid 0x02), .constructed sequenceTag value.children]
  | .pceId value => [.primitive objectId (subOid 0x03), .primitive octetString value]
  | .fmspc value => [.primitive objectId (subOid 0x04), .primitive octetString value]
  | .other oid value => [.primitive objectId oid.1, value]

def SgxItem.node (item : SgxItem) : Node := .constructed sequenceTag item.children

/-- The items of the SGX extension: each of the four that are read once, in any
order and among others. -/
structure SgxValue where
  ppid : List UInt8
  tcb : TcbValue
  pceId : List UInt8
  fmspc : List UInt8
  others : List (OtherOid × Node)
  items : List SgxItem
  once : items.Perm (.ppid ppid :: .tcb tcb :: .pceId pceId :: .fmspc fmspc ::
    others.map fun o => .other o.1 o.2)
  pceIdNamed : pceId ≠ []
  fmspcNamed : fmspc ≠ []

/-- `extnValue` of the SGX extension. -/
def SgxValue.content (s : SgxValue) : List UInt8 :=
  encodeAll [.constructed sequenceTag (s.items.map SgxItem.node)]

/-- A version-3 certificate with an SGX extension. -/
structure CertValue where
  serial : List UInt8
  signature : List Node
  issuer : List Node
  validity : List Node
  subject : List Node
  publicKey : List Node
  issuerUid : Option (List UInt8)
  subjectUid : Option (List UInt8)
  before : List CertExtension
  critical : Option (List UInt8)
  sgx : SgxValue
  after : List CertExtension
  algorithm : List Node
  signatureValue : List UInt8

namespace CertValue

variable (v : CertValue)

/-- The TBSCertificate before its extensions. -/
def head : List Node :=
  .constructed ⟨0xA0, by decide⟩ [.primitive integerTag (integer 2)] ::
    .primitive integerTag v.serial :: .constructed sequenceTag v.signature ::
    .constructed sequenceTag v.issuer :: .constructed sequenceTag v.validity ::
    .constructed sequenceTag v.subject :: .constructed sequenceTag v.publicKey ::
    (v.issuerUid.toList.map (.primitive ⟨0x81, by decide⟩) ++
      v.subjectUid.toList.map (.primitive ⟨0x82, by decide⟩))

def sgxExtension : CertExtension := ⟨sgxExtOid, v.critical, v.sgx.content⟩

def extensions : List Node :=
  v.before.map CertExtension.node ++ v.sgxExtension.node :: v.after.map CertExtension.node

def tbs : List Node :=
  v.head ++ [.constructed ⟨0xA3, by decide⟩ [.constructed sequenceTag v.extensions]]

def fields : List Node :=
  [.constructed sequenceTag v.tbs, .constructed sequenceTag v.algorithm,
    .primitive bitString v.signatureValue]

def der : List UInt8 := encodeAll [.constructed sequenceTag v.fields]

/-- No SEQUENCE before the SGX extension starts with its OID. -/
def NoneBefore : Prop := AllSilent sgxExtOid (v.head ++ v.before.map CertExtension.node)

/-- The CA type by the bytes of the issuer name. -/
def ca : String :=
  if asBytes "Platform" <:+: encodeAll v.issuer then "PLATFORM"
  else if asBytes "Processor" <:+: encodeAll v.issuer then "PROCESSOR"
  else ""

def info : PckCertInfo where
  version := 3
  fmspc := hexEncodeUpper v.sgx.fmspc
  pceId := hexEncodeUpper v.sgx.pceId
  ppid := hexEncodeUpper v.sgx.ppid
  cpusvn := hexEncodeUpper v.sgx.tcb.cpusvn
  pcesvn := v.sgx.tcb.pcesvn
  ca := v.ca

end CertValue

end Values

section Items

theorem derInt_integer (n : UInt32) : derInt (integer n.toNat) = some n := by
  have hn := n.toNat_lt
  have hlen : (integer n.toNat).length ≤ 5 := length_integer_le (by omega)
  have hvalue : bigEndian (integer n.toNat) = n.toNat := value_integer n.toNat
  obtain ⟨b, bs, hcons, hsign⟩ := integer_cons n.toNat
  have hok : ¬ ((b :: bs).length > 5 ∨ b &&& 0x80 ≠ 0) := by
    rw [← hcons]
    simp [hsign, hlen]
  rw [hcons] at hvalue ⊢
  simp only [derInt, hok, if_false, hvalue]
  rw [if_pos (by omega), UInt32.ofNat_toNat]

/-- The elements of a list of SEQUENCEs. -/
theorem readable_sequences {α : Type} (f : α → List Node) (l : List α) (ns : List Node) :
    readable (l.map (fun a => .constructed sequenceTag (f a)) ++ ns) =
      l.map (fun a => ((0x30 : UInt8), encodeAll (f a))) ++ readable ns := by
  induction l with
  | nil => rfl
  | cons a l ih =>
    rw [List.map_cons, List.cons_append, readable, ih]
    rfl

variable {acc : SgxItems}

theorem TcbValue.readable_children (t : TcbValue) : readable t.children =
    t.components.map (fun c => ((0x30 : UInt8), encodeAll [.primitive objectId c.1, c.2])) ++
      [(0x30, encodeAll [.primitive objectId t.pcesvnOid,
          .primitive integerTag (integer t.pcesvn.toNat)]),
        (0x30, encodeAll [.primitive objectId t.cpusvnOid, .primitive octetString t.cpusvn])] :=
  readable_sequences (fun c : List UInt8 × Node => [.primitive objectId c.1, c.2]) t.components _

theorem tcbField_pair {items : List Tlv} {idx : Nat} {oid content : List UInt8} {tag : PrimitiveTag}
    (hlen : (encodeAll [.primitive objectId oid, .primitive tag content]).length < 2 ^ 32)
    (h : items[idx]? = some (0x30, encodeAll [.primitive objectId oid, .primitive tag content])) :
    tcbField items idx = some (tag.1, content) := by
  rw [tcbField, h, Option.bind_eq_bind, Option.bind_some, tlvs_encodeAll hlen]
  rfl

theorem TcbValue.fields_read (t : TcbValue) (hlen : (encodeAll t.children).length < 2 ^ 32) :
    ((tcbField (tlvs (encodeAll t.children)) 16).bind fun t => derInt t.2) = some t.pcesvn ∧
    (tcbField (tlvs (encodeAll t.children)) 17).map (fun t => hexEncodeUpper t.2) =
      some (hexEncodeUpper t.cpusvn) ∧
    (tlvs (encodeAll t.children)).length = 18 := by
  have hread := t.readable_children
  have hsixteen := t.sixteen
  have hmem₁ : pairNode t.pcesvnOid (.primitive integerTag (integer t.pcesvn.toNat)) ∈ t.children := by
    simp [children]
  have hmem₂ : pairNode t.cpusvnOid (.primitive octetString t.cpusvn) ∈ t.children := by
    simp [children]
  have hpcesvn := length_children_lt hmem₁ hlen
  have hcpusvn := length_children_lt hmem₂ hlen
  rw [tlvs_encodeAll hlen, hread]
  refine ⟨?_, ?_, by simp [hsixteen]⟩
  · rw [tcbField_pair hpcesvn (by simp [hsixteen])]
    exact derInt_integer t.pcesvn
  · rw [tcbField_pair hcpusvn (by simp [hsixteen])]
    rfl

/-- What one item adds. -/
def SgxItem.apply (acc : SgxItems) : SgxItem → SgxItems
  | .ppid value => { acc with ppid := hexEncodeUpper value }
  | .tcb value => { acc with pcesvn := some value.pcesvn, cpusvn := hexEncodeUpper value.cpusvn }
  | .pceId value => { acc with pceId := hexEncodeUpper value }
  | .fmspc value => { acc with fmspc := hexEncodeUpper value }
  | .other _ _ => acc

theorem readSgxItem_children {item : SgxItem} (hlen : (encodeAll item.children).length < 2 ^ 32) :
    readSgxItem acc (0x30, encodeAll item.children) = .ok (item.apply acc) := by
  rw [readSgxItem, tlvs_encodeAll hlen]
  cases item with
  | ppid value =>
    have h₁ : subOid 0x01 ≠ subOid 0x04 := by decide
    have h₂ : subOid 0x01 ≠ subOid 0x03 := by decide
    simp [SgxItem.children, SgxItem.apply, readable, objectId, octetString, h₁, h₂]
  | tcb value =>
    have h₁ : subOid 0x02 ≠ subOid 0x04 := by decide
    have h₂ : subOid 0x02 ≠ subOid 0x03 := by decide
    have h₃ : subOid 0x02 ≠ subOid 0x01 := by decide
    have hmem : Node.constructed sequenceTag value.children ∈ (SgxItem.tcb value).children := by
      simp [SgxItem.children]
    have hchildren := length_children_lt hmem hlen
    obtain ⟨hpcesvn, hcpusvn, hcount⟩ := value.fields_read hchildren
    simp [SgxItem.children, SgxItem.apply, readable, objectId, sequenceTag, h₁, h₂, h₃,
      hpcesvn, hcpusvn, hcount]
  | pceId value =>
    have h₁ : subOid 0x03 ≠ subOid 0x04 := by decide
    simp [SgxItem.children, SgxItem.apply, readable, objectId, octetString, h₁]
  | fmspc value => simp [SgxItem.children, SgxItem.apply, readable, objectId, octetString]
  | other oid value =>
    obtain ⟨h₁, h₂, h₃, h₄⟩ := oid.2
    cases value with
    | primitive tag content =>
      simp [SgxItem.children, SgxItem.apply, readable, objectId, h₁, h₂, h₃, h₄]
    | constructed tag children =>
      simp [SgxItem.children, SgxItem.apply, readable, objectId, h₁, h₂, h₃, h₄]
    | high first more content => rfl

/-- Two items of a list in which each is read once can change places. -/
theorem SgxValue.apply_comm (s : SgxValue) : ∀ x ∈ s.items, ∀ y ∈ s.items, ∀ acc : SgxItems,
    y.apply (x.apply acc) = x.apply (y.apply acc) := by
  intro x hx y hy acc
  have hx := s.once.mem_iff.mp hx
  have hy := s.once.mem_iff.mp hy
  simp only [List.mem_cons, List.mem_map] at hx hy
  obtain rfl | rfl | rfl | rfl | ⟨o, -, rfl⟩ := hx <;>
    obtain rfl | rfl | rfl | rfl | ⟨o', -, rfl⟩ := hy <;> rfl

theorem foldl_others (others : List (OtherOid × Node)) (acc : SgxItems) :
    (others.map fun o => SgxItem.other o.1 o.2).foldl SgxItem.apply acc = acc := by
  induction others with
  | nil => rfl
  | cons o others ih => exact ih

theorem SgxValue.foldl_items (s : SgxValue) : s.items.foldl SgxItem.apply {} =
    ⟨hexEncodeUpper s.fmspc, hexEncodeUpper s.pceId, hexEncodeUpper s.ppid,
      hexEncodeUpper s.tcb.cpusvn, some s.tcb.pcesvn⟩ := by
  have hperm := s.once.foldl_eq' (fun x hx y hy acc => s.apply_comm x hx y hy acc) ({} : SgxItems)
  rw [hperm]
  simp only [List.foldl_cons, foldl_others]
  rfl

theorem foldlM_items {items : List SgxItem} {acc : SgxItems}
    (hlen : ∀ item ∈ items, (encodeAll item.children).length < 2 ^ 32) :
    (items.map fun item => ((0x30 : UInt8), encodeAll item.children)).foldlM readSgxItem acc =
      .ok (items.foldl SgxItem.apply acc) := by
  induction items generalizing acc with
  | nil => rfl
  | cons item items ih =>
    obtain ⟨hitem, hitems⟩ := List.forall_mem_cons.mp hlen
    rw [List.map_cons, List.foldlM_cons, readSgxItem_children hitem]
    exact ih hitems

theorem SgxValue.read (s : SgxValue) (hlen : s.content.length < 2 ^ 32) :
    (sgxItems s.content).foldlM readSgxItem {} =
      .ok ⟨hexEncodeUpper s.fmspc, hexEncodeUpper s.pceId, hexEncodeUpper s.ppid,
        hexEncodeUpper s.tcb.cpusvn, some s.tcb.pcesvn⟩ := by
  have hmem : Node.constructed sequenceTag (s.items.map SgxItem.node) ∈
      [Node.constructed sequenceTag (s.items.map SgxItem.node)] := by simp
  have hinner := length_children_lt hmem hlen
  have hread : readable (s.items.map SgxItem.node) =
      s.items.map fun item => ((0x30 : UInt8), encodeAll item.children) := by
    have h := readable_sequences SgxItem.children s.items []
    simp only [readable, List.append_nil] at h
    exact h
  have hitems : sgxItems s.content = s.items.map fun item =>
      ((0x30 : UInt8), encodeAll item.children) := by
    have houter : tlvs s.content = [(0x30, encodeAll (s.items.map SgxItem.node))] := tlvs_encodeAll hlen
    rw [sgxItems, houter]
    exact (tlvs_encodeAll hinner).trans hread
  have hall : ∀ item ∈ s.items, (encodeAll item.children).length < 2 ^ 32 := fun item hitem => by
    have hnode : Node.constructed sequenceTag item.children ∈ s.items.map SgxItem.node :=
      List.mem_map_of_mem hitem
    exact length_children_lt hnode hinner
  rw [hitems, foldlM_items hall, s.foldl_items]

end Items

section Certificates

variable {v : CertValue}

theorem extensionAt_sgx (hlen : (encodeAll v.sgxExtension.fields).length < 2 ^ 32) :
    extensionAt sgxExtOid (0x30, encodeAll v.sgxExtension.fields) = some v.sgx.content := by
  have hvalue : extensionValue (readable v.sgxExtension.fields) sgxExtOid = some v.sgx.content := by
    cases hcritical : v.critical with
    | none =>
      simp [CertExtension.fields, CertValue.sgxExtension, hcritical, readable, extensionValue, objectId,
        octetString]
    | some critical =>
      simp [CertExtension.fields, CertValue.sgxExtension, hcritical, readable, extensionValue, objectId,
        octetString]
  simp only [extensionAt, tlvs_encodeAll hlen, hvalue, if_true]

theorem low_head : ∀ n ∈ v.head, Low n := by
  have hprimitives : ∀ (tag : PrimitiveTag) (o : Option (List UInt8)),
      ∀ n ∈ o.toList.map (Node.primitive tag), Low n := by
    intro tag o n hn
    obtain ⟨content, -, rfl⟩ := List.mem_map.mp hn
    trivial
  simp only [CertValue.head, List.forall_mem_cons, List.forall_mem_append]
  exact ⟨trivial, trivial, trivial, trivial, trivial, trivial, trivial, hprimitives _ _,
    hprimitives _ _⟩

theorem low_extensions (es : List CertExtension) : ∀ n ∈ es.map CertExtension.node, Low n := by
  intro n hn
  obtain ⟨e, -, rfl⟩ := List.mem_map.mp hn
  trivial

theorem readable_constructed (tag : ConstructedTag) (children ns : List Node) :
    readable (.constructed tag children :: ns) = (tag.1, encodeAll children) :: readable ns := rfl

/-- The sizes of what encloses the SGX extension. -/
theorem lengths (hlen : (encodeAll v.fields).length < 2 ^ 32) :
    (encodeAll v.tbs).length < 2 ^ 32 ∧
    (encodeAll [.constructed sequenceTag v.extensions]).length < 2 ^ 32 ∧
    (encodeAll v.extensions).length < 2 ^ 32 ∧
    (encodeAll v.sgxExtension.fields).length < 2 ^ 32 := by
  have htbs : Node.constructed sequenceTag v.tbs ∈ v.fields := by simp [CertValue.fields]
  have htbs := length_children_lt htbs hlen
  have hexplicit : Node.constructed ⟨0xA3, by decide⟩ [.constructed sequenceTag v.extensions] ∈
      v.tbs := by
    simp [CertValue.tbs]
  have hexplicit := length_children_lt hexplicit htbs
  have hextensions : Node.constructed sequenceTag v.extensions ∈
      [Node.constructed sequenceTag v.extensions] := by simp
  have hextensions := length_children_lt hextensions hexplicit
  have hsgx : Node.constructed sequenceTag v.sgxExtension.fields ∈ v.extensions := by
    simp [CertValue.extensions, CertExtension.node]
  exact ⟨htbs, hexplicit, hextensions, length_children_lt hsgx hextensions⟩

theorem not_startsWith_constructed {oid : List UInt8} {tag : ConstructedTag}
    {children ns : List Node} : ¬ StartsWith oid (.constructed tag children :: ns) := by
  rintro ⟨rest, h⟩
  cases h

theorem extensionAt_extensions (hlen : (encodeAll v.fields).length < 2 ^ 32) (hnone : v.NoneBefore) :
    extensionAt sgxExtOid (0x30, encodeAll v.extensions) = some v.sgx.content := by
  obtain ⟨-, -, hextensions, hsgx⟩ := lengths hlen
  have hbefore : AllSilent sgxExtOid (v.before.map CertExtension.node) :=
    allSilent_iff.mpr fun n hn => allSilent_iff.mp hnone n (List.mem_append_right _ hn)
  have hstart : ¬ StartsWith sgxExtOid v.extensions := by
    cases hb : v.before with
    | nil =>
      rw [CertValue.extensions, hb]
      exact not_startsWith_constructed
    | cons e es =>
      rw [CertValue.extensions, hb]
      exact not_startsWith_constructed
  have hfound := findSome_found hextensions (low_extensions v.before) hbefore rfl (extensionAt_sgx hsgx)
  exact (extensionAt_constructed sequenceTag hextensions fun _ => hstart).trans hfound

/-- A certificate is one element. -/
theorem tlvs_der (hlen : (encodeAll v.fields).length < 2 ^ 32) :
    tlvs v.der = [(0x30, encodeAll v.fields)] := by
  rw [CertValue.der, encodeAll_cons, Node.encode, tlvs_eq, nextTlv_element sequenceTag.2.1 hlen]
  rfl

/-- The SGX extension is found, four levels down. -/
theorem findExtension_cert (hlen : (encodeAll v.fields).length < 2 ^ 32) (hnone : v.NoneBefore) :
    findExtension v.der sgxExtOid = some v.sgx.content := by
  obtain ⟨htbs, hexplicit, -, -⟩ := lengths hlen
  have hhead : AllSilent sgxExtOid v.head :=
    allSilent_iff.mpr fun n hn => allSilent_iff.mp hnone n (List.mem_append_left _ hn)
  have hinner : extensionAt sgxExtOid (0xA3, encodeAll [.constructed sequenceTag v.extensions]) =
      some v.sgx.content := by
    have htag : (⟨0xA3, by decide⟩ : ConstructedTag) = sequenceTag →
        ¬ StartsWith sgxExtOid [.constructed sequenceTag v.extensions] :=
      fun _ => not_startsWith_constructed
    refine (extensionAt_constructed _ hexplicit htag).trans ?_
    have hat : extensionAt sgxExtOid (sequenceTag.1, encodeAll v.extensions) = some v.sgx.content :=
      extensionAt_extensions hlen hnone
    rw [readable_constructed, List.findSome?_cons, hat]
  have htbsAt : extensionAt sgxExtOid (0x30, encodeAll v.tbs) = some v.sgx.content := by
    have hfound := findSome_found htbs low_head hhead rfl hinner
    exact (extensionAt_constructed sequenceTag htbs fun _ =>
      not_startsWith_constructed).trans hfound
  have hcert : extensionAt sgxExtOid (0x30, encodeAll v.fields) = some v.sgx.content := by
    refine (extensionAt_constructed sequenceTag hlen fun _ =>
      not_startsWith_constructed).trans ?_
    rw [CertValue.fields, readable_constructed, List.findSome?_cons]
    have hat : extensionAt sgxExtOid (sequenceTag.1, encodeAll v.tbs) = some v.sgx.content := htbsAt
    rw [hat]
  rw [findExtension_eq, tlvs_der hlen, List.findSome?_cons, hcert]

theorem certVersion_tbs (htbs : (encodeAll v.tbs).length < 2 ^ 32) :
    certVersion (tlvs (encodeAll v.tbs)) = .ok (3, 3) := by
  have hthree : integer 2 = [2] := by decide
  have hversion : tlvs (encodeAll [.primitive integerTag (integer 2)]) = [(0x02, [2])] := by
    rw [hthree]
    decide
  rw [tlvs_encodeAll htbs]
  simp only [CertValue.tbs, CertValue.head, List.cons_append, readable, certVersion, hversion]
  rfl

theorem issuerCa_tbs (htbs : (encodeAll v.tbs).length < 2 ^ 32) :
    issuerCa (tlvs (encodeAll v.tbs)) 3 = v.ca := by
  have hplatform : containsText "Platform" (utf8Lossy (encodeAll v.issuer)) = true ↔
      asBytes "Platform" <:+: encodeAll v.issuer :=
    containsText_lossy (everyByte_lt (by decide)) (by decide) (by decide)
  have hprocessor : containsText "Processor" (utf8Lossy (encodeAll v.issuer)) = true ↔
      asBytes "Processor" <:+: encodeAll v.issuer :=
    containsText_lossy (everyByte_lt (by decide)) (by decide) (by decide)
  rw [tlvs_encodeAll htbs]
  simp only [CertValue.tbs, CertValue.head, List.cons_append, readable, issuerCa, CertValue.ca,
    hplatform, hprocessor, List.getElem?_cons_succ, List.getElem?_cons_zero]

theorem parseDer_der (hlen : (encodeAll v.fields).length < 2 ^ 32) (hnone : v.NoneBefore) :
    parseDer v.der = .ok v.info := by
  obtain ⟨htbs, -, -, hsgx⟩ := lengths hlen
  have hcontent : v.sgx.content.length < 2 ^ 32 := by
    have hmem : Node.primitive octetString v.sgx.content ∈ v.sgxExtension.fields := by
      simp [CertExtension.fields, CertValue.sgxExtension]
    have hle := length_encode_le hmem
    have helement := length_element octetString.1 v.sgx.content
    simp only [Node.encode] at hle
    omega
  have hcert : firstSequence v.der = .ok (encodeAll v.fields) := by
    rw [firstSequence, tlvs_der hlen]
    rfl
  have hfields : firstSequence (encodeAll v.fields) = .ok (encodeAll v.tbs) := by
    rw [firstSequence, tlvs_encodeAll hlen]
    rfl
  have hnamed : ¬ (hexEncodeUpper v.sgx.tcb.cpusvn = "" ∨ hexEncodeUpper v.sgx.fmspc = "" ∨
      hexEncodeUpper v.sgx.pceId = "") := by
    simp [hexEncodeUpper_eq_empty, v.sgx.tcb.named, v.sgx.fmspcNamed, v.sgx.pceIdNamed]
  refine bind_eq_ok.mpr ⟨_, hcert, bind_eq_ok.mpr ⟨_, hfields, ?_⟩⟩
  refine bind_eq_ok.mpr ⟨(3, 3), certVersion_tbs htbs, ?_⟩
  refine bind_eq_ok.mpr ⟨v.sgx.content, by rw [findExtension_cert hlen hnone]; rfl, ?_⟩
  refine bind_eq_ok.mpr ⟨_, v.sgx.read hcontent, bind_eq_ok.mpr ⟨_, rfl, ?_⟩⟩
  simp only [hnamed, if_false, issuerCa_tbs htbs]
  rfl

end Certificates

section Armor

/-- The marker occurs in the text at one place only. -/
def OnlyAfter (before marker text : List Char) : Prop :=
  ∀ pre post, text = pre ++ (marker ++ post) → pre = before

theorem afterMarker_only {marker before rest : List Char} (hne : marker ≠ [])
    (h : OnlyAfter before marker (before ++ (marker ++ rest))) :
    afterMarker marker (before ++ (marker ++ rest)) = some rest := by
  induction before with
  | nil => exact afterMarker_append hne rest
  | cons c before ih =>
    have hno : marker.isPrefixOf (c :: (before ++ (marker ++ rest))) = false := by
      rw [← Bool.not_eq_true, List.isPrefixOf_iff_prefix]
      rintro ⟨post, hpost⟩
      have hnil := h [] post (by simpa using hpost.symm)
      cases hnil
    have hrest : OnlyAfter before marker (before ++ (marker ++ rest)) := by
      intro pre post hsplit
      have hcons := h (c :: pre) post (by rw [List.cons_append, List.cons_append, hsplit])
      exact (List.cons.inj hcons).2
    rw [List.cons_append, afterMarker, hno, if_neg (by decide), ih hrest]

theorem beforeMarker_none {marker text : List Char} (h : ¬ marker <:+: text) :
    beforeMarker marker text = text := by
  induction text with
  | nil => rfl
  | cons c text ih =>
    have hno : marker.isPrefixOf (c :: text) = false := by
      rw [← Bool.not_eq_true, List.isPrefixOf_iff_prefix]
      exact fun hpre => h hpre.isInfix
    have htail : ¬ marker <:+: text := fun hin => h (List.infix_cons hin)
    rw [beforeMarker, hno, if_neg (by decide), ih htail]

variable {before body after : List Char}

/-- A PEM text: base64, with white space anywhere, between the markers. -/
def pemText (before body after : List Char) : List Char :=
  before ++ (beginMarker.toList ++ (body ++ (endMarker.toList ++ after)))

theorem armoredToDer_pemText {der : List UInt8}
    (hbody : body.filter (fun c => !isAsciiWhitespace c) = base64Encode der)
    (honce : OnlyAfter before beginMarker.toList (pemText before body after)) :
    armoredToDer (pemText before body after) = some der := by
  have hdash : ∀ c ∈ body, c ≠ '-' := by
    intro c hc
    by_cases hspace : isAsciiWhitespace c = true
    · rintro rfl
      exact absurd hspace (by decide)
    · have hmem : c ∈ base64Encode der := by
        rw [← hbody]
        exact List.mem_filter.mpr ⟨hc, by simp [hspace]⟩
      exact (base64Encode_plain der c hmem).1
  have hne : beginMarker.toList ≠ [] := by
    rw [beginMarker_cons]
    simp
  have hlater : ¬ beginMarker.toList <:+: body ++ (endMarker.toList ++ after) := by
    rintro ⟨pre, post, hsplit⟩
    have hpre := honce (before ++ (beginMarker.toList ++ pre)) post (by
      rw [pemText, ← hsplit]
      simp only [List.append_assoc])
    have hlen := congrArg List.length hpre
    rw [List.length_append, List.length_append, beginMarker_cons, List.length_cons] at hlen
    omega
  have hend : beforeMarker endMarker.toList (body ++ (endMarker.toList ++ after)) = body := by
    have hstart : beforeMarker endMarker.toList (endMarker.toList ++ after) = [] := by
      rw [endMarker_cons, List.cons_append, beforeMarker, if_pos]
      rw [← List.cons_append]
      exact List.isPrefixOf_iff_prefix.mpr (List.prefix_append _ _)
    rw [endMarker_cons] at hstart ⊢
    rw [beforeMarker_append _ _ _ hdash, hstart, List.append_nil]
  rw [armoredToDer, pemText, afterMarker_only hne honce]
  simp only [Option.bind_eq_bind, Option.bind_some, beforeMarker_none hlater, hend, hbody]
  exact base64Decode_encode der

end Armor

section RoundTrip

/-- Reading a certificate gives the fields it was written with: for every value
with one SGX extension, in every encoding as PEM text. -/
theorem parsePckCert_pemText (v : CertValue) (hlen : (encodeAll v.fields).length < 2 ^ 32)
    (hnone : v.NoneBefore) {before body after : List Char}
    (hbody : body.filter (fun c => !isAsciiWhitespace c) = base64Encode v.der)
    (honce : OnlyAfter before beginMarker.toList (pemText before body after)) :
    parsePckCert (String.ofList (pemText before body after)) = .ok v.info := by
  rw [parsePckCert, pemToDer, String.toList_ofList, armoredToDer_pemText hbody honce]
  exact parseDer_der hlen hnone

/-- A certificate with empty names and the four items in another order. -/
def plainCert : CertValue where
  serial := [1]
  signature := []
  issuer := []
  validity := []
  subject := []
  publicKey := []
  issuerUid := none
  subjectUid := none
  before := []
  critical := none
  sgx :=
    { ppid := [1]
      tcb :=
        { components := List.replicate 16 ([], .primitive integerTag [0])
          sixteen := by simp
          pcesvnOid := []
          pcesvn := 16
          cpusvnOid := []
          cpusvn := [2]
          named := by simp }
      pceId := [3]
      fmspc := [4]
      others := []
      items := [.fmspc [4], .ppid [1], .tcb
        { components := List.replicate 16 ([], .primitive integerTag [0])
          sixteen := by simp
          pcesvnOid := []
          pcesvn := 16
          cpusvnOid := []
          cpusvn := [2]
          named := by simp }, .pceId [3]]
      once := by
        refine .trans (.swap _ _ _) (.cons _ (.trans (.swap _ _ _) (.cons _ (.swap _ _ _))))
      pceIdNamed := by simp
      fmspcNamed := by simp }
  after := []
  algorithm := []
  signatureValue := [0]

theorem plainCert_none : plainCert.NoneBefore := by
  have hhead : plainCert.head ++ plainCert.before.map CertExtension.node =
      [.constructed ⟨0xA0, by decide⟩ [.primitive integerTag (integer 2)], .primitive integerTag [1],
        .constructed sequenceTag [], .constructed sequenceTag [], .constructed sequenceTag [],
        .constructed sequenceTag [], .constructed sequenceTag []] := rfl
  have hempty : ¬ StartsWith sgxExtOid [] := by
    rintro ⟨rest, h⟩
    cases h
  have hversion : (⟨0xA0, by decide⟩ : ConstructedTag) ≠ sequenceTag :=
    fun h => absurd (congrArg Subtype.val h) (by decide)
  rw [CertValue.NoneBefore, hhead]
  simp [AllSilent, Node.Silent, hempty, hversion]

/-- A text without the marker behind its first character. -/
theorem onlyAfter_nil {marker text : List Char} (h : ¬ marker <:+: text.tail) :
    OnlyAfter [] marker text := by
  intro pre post hsplit
  cases pre with
  | nil => rfl
  | cons c pre => exact absurd ⟨pre, post, by rw [hsplit, List.append_assoc]; rfl⟩ h

theorem plainCert_body : (base64Encode plainCert.der).filter (fun c => !isAsciiWhitespace c) =
    base64Encode plainCert.der :=
  List.filter_eq_self.mpr fun c hc => by simp [(base64Encode_plain _ c hc).2]

theorem parsePckCert_pemText_plain :
    parsePckCert (String.ofList (pemText [] (base64Encode plainCert.der) [])) = .ok plainCert.info :=
  parsePckCert_pemText plainCert (by decide +kernel) plainCert_none plainCert_body
    (onlyAfter_nil (by decide +kernel))

/-- The end of the closing marker and the text behind it can make an opening
marker, which cuts the body off too late. -/
theorem overlapping_marker_fails :
    ¬ ∀ (v : CertValue) (before body after : List Char), (encodeAll v.fields).length < 2 ^ 32 →
      v.NoneBefore → body.filter (fun c => !isAsciiWhitespace c) = base64Encode v.der →
      ¬ beginMarker.toList <:+: before → ¬ beginMarker.toList <:+: after →
      parsePckCert (String.ofList (pemText before body after)) = .ok v.info := by
  intro h
  have hfails : armoredToDer (pemText [] (base64Encode plainCert.der)
      "BEGIN CERTIFICATE-----".toList) = none := by decide +kernel
  have hok := h plainCert [] (base64Encode plainCert.der) "BEGIN CERTIFICATE-----".toList
    (by decide +kernel) plainCert_none plainCert_body (by decide +kernel) (by decide +kernel)
  rw [parsePckCert, pemToDer, String.toList_ofList, hfails] at hok
  cases hok

end RoundTrip

end Pccs.PckCert
