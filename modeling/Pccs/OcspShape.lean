import Mathlib.Algebra.Order.Ring.Int
import Mathlib.Order.Bounds.Basic
import Pccs.Keys
import Pccs.Ocsp

/-!
# What the OCSP readers accept

The request reader takes the elements of a TBSRequest one after the other; the
parts it has read are named here, and with them what it does not look at. The
response reader sorts a certStatus by comparing its tag with that of `unknown`.
-/
namespace Pccs.Ocsp

open Fallible PccsError

section Elements

theorem elements_nil {input : List UInt8} : Elements input [] ↔ input = [] := by
  constructor
  · intro h
    cases h
    rfl
  · rintro rfl
    exact .nil

theorem elements_cons {input : List UInt8} {tlv : Tlv} {tlvs : List Tlv} :
    Elements input (tlv :: tlvs) ↔
      ∃ rest, takeTlv input = .ok (tlv, rest) ∧ Elements rest tlvs := by
  constructor
  · intro h
    cases h with
    | cons head tail => exact ⟨_, head, tail⟩
  · rintro ⟨rest, htake, htail⟩
    have hsplit := takeTlv_split htake
    rw [hsplit] at htake ⊢
    exact .cons htake htail

theorem takeTlv_nil {tlv : Tlv} {rest : List UInt8} : takeTlv [] ≠ .ok (tlv, rest) := by
  intro h
  cases h

/-- There is one way to read an input as elements. -/
theorem Elements.unique {input : List UInt8} {a b : List Tlv} (ha : Elements input a)
    (hb : Elements input b) : a = b := by
  induction ha generalizing b with
  | nil =>
    cases b with
    | nil => rfl
    | cons tlv tlvs =>
      obtain ⟨rest, htake, -⟩ := elements_cons.mp hb
      exact absurd htake takeTlv_nil
  | cons head tail ih =>
    cases b with
    | nil =>
      rw [elements_nil.mp hb] at head
      exact absurd head takeTlv_nil
    | cons tlv tlvs =>
      obtain ⟨rest, htake, htail⟩ := elements_cons.mp hb
      cases head.symm.trans htake
      rw [ih htail]

theorem takeExpected_iff {input rest : List UInt8} {tag : UInt8} {tlv : Tlv} :
    takeExpected input tag = .ok (tlv, rest) ↔ takeTlv input = .ok (tlv, rest) ∧ tlv.tag = tag := by
  constructor
  · intro h
    refine ⟨takeExpected_eq_ok h, ?_⟩
    obtain ⟨⟨tlv', rest'⟩, -, h⟩ := bind_eq_ok.mp h
    obtain ⟨_, htag, h⟩ := bind_eq_ok.mp h
    cases pure_eq_ok.mp h
    simpa using reject_eq_ok.mp htag
  · rintro ⟨htake, htag⟩
    exact bind_eq_ok.mpr ⟨_, htake, bind_eq_ok.mpr ⟨(), reject_eq_ok.mpr (by simp [htag]), rfl⟩⟩

theorem parseSingle_iff {input : List UInt8} {tag : UInt8} {tlv : Tlv} :
    parseSingle input tag = .ok tlv ↔ Elements input [tlv] ∧ tlv.tag = tag := by
  rw [elements_cons]
  simp only [elements_nil]
  constructor
  · intro h
    obtain ⟨⟨tlv', rest⟩, htake, h⟩ := bind_eq_ok.mp h
    obtain ⟨_, hrest, h⟩ := bind_eq_ok.mp h
    cases pure_eq_ok.mp h
    obtain ⟨htake, htag⟩ := takeExpected_iff.mp htake
    exact ⟨⟨rest, htake, by simpa using reject_eq_ok.mp hrest⟩, htag⟩
  · rintro ⟨⟨rest, htake, rfl⟩, htag⟩
    exact bind_eq_ok.mpr ⟨_, takeExpected_iff.mpr ⟨htake, htag⟩,
      bind_eq_ok.mpr ⟨(), reject_eq_ok.mpr (by simp), rfl⟩⟩

end Elements

section Requests

/-- At most one element, and that of one tag. -/
def AtMostOne (tag : UInt8) (tlvs : List Tlv) : Prop := tlvs = [] ∨ ∃ t, tlvs = [t] ∧ t.tag = tag

/-- One SEQUENCE of a TBSRequest and an optional signature; in the TBSRequest an
optional version, an optional requestorName, the requestList and optional
requestExtensions, in this order. -/
def IsOcspRequest (b : List UInt8) : Prop :=
  ∃ outer tbs signature, Elements b [outer] ∧ outer.tag = 0x30 ∧
    Elements outer.value (tbs :: signature) ∧ tbs.tag = 0x30 ∧ AtMostOne 0xa0 signature ∧
    ∃ version requestorName list extensions,
      Elements tbs.value (version ++ requestorName ++ list :: extensions) ∧
      AtMostOne 0xa0 version ∧ AtMostOne 0xa1 requestorName ∧ list.tag = 0x30 ∧
      AtMostOne 0xa2 extensions

/-- The fields of a TBSRequest as the reader takes them: any that are tagged like
a version or a requestorName, the requestList, and the requestExtensions. -/
structure Fields (fields : List UInt8) (tagged : List Tlv) (list : Tlv) (extensions : List Tlv) :
    Prop where
  elements : Elements fields (tagged ++ list :: extensions)
  tagged : ∀ t ∈ tagged, t.tag = 0xa0 ∨ t.tag = 0xa1
  listTag : list.tag = 0x30
  list : validateRequestList list.value = .ok ()
  extensions : extensions = [] ∨ ∃ e l, extensions = [e] ∧ e.tag = 0xa2 ∧
    parseSingle e.value 0x30 = .ok l ∧ validateExtensions l.value = .ok ()

theorem requestListWithin_fields {fuel : Nat} {fields raw : List UInt8}
    (h : requestListWithin fuel fields = .ok raw) :
    ∃ tagged list extensions, Fields fields tagged list extensions ∧ list.raw = raw := by
  induction fuel generalizing fields with
  | zero => cases h
  | succ fuel ih =>
    obtain ⟨_, -, h⟩ := bind_eq_ok.mp h
    obtain ⟨⟨field, rest⟩, htake, h⟩ := bind_eq_ok.mp h
    simp only at h
    split at h
    · rename_i htag
      obtain ⟨tagged, list, extensions, hfields, hraw⟩ := ih h
      refine ⟨field :: tagged, list, extensions, { hfields with elements := ?_, tagged := ?_ }, hraw⟩
      · exact elements_cons.mpr ⟨rest, htake, hfields.elements⟩
      · exact List.forall_mem_cons.mpr ⟨htag, hfields.tagged⟩
    · obtain ⟨_, hsequence, h⟩ := bind_eq_ok.mp h
      obtain ⟨_, hlist, h⟩ := bind_eq_ok.mp h
      have hsequence : field.tag = 0x30 := by simpa using reject_eq_ok.mp hsequence
      split at h
      · obtain ⟨⟨extensions, last⟩, hextensions, h⟩ := bind_eq_ok.mp h
        obtain ⟨extensionList, hsingle, h⟩ := bind_eq_ok.mp h
        obtain ⟨_, hvalid, h⟩ := bind_eq_ok.mp h
        obtain ⟨_, hbehind, h⟩ := bind_eq_ok.mp h
        cases pure_eq_ok.mp hbehind
        obtain ⟨_, hend, h⟩ := bind_eq_ok.mp h
        cases pure_eq_ok.mp h
        have hend : last = [] := by simpa using reject_eq_ok.mp hend
        obtain ⟨hextensions, htag⟩ := takeExpected_iff.mp hextensions
        refine ⟨[], field, [extensions], ⟨?_, by simp, hsequence, hlist, .inr ?_⟩, rfl⟩
        · exact elements_cons.mpr ⟨rest, htake, elements_cons.mpr ⟨_, hextensions,
            elements_nil.mpr hend⟩⟩
        · exact ⟨extensions, extensionList, rfl, htag, hsingle, hvalid⟩
      · rename_i hrest
        obtain ⟨_, hbehind, h⟩ := bind_eq_ok.mp h
        obtain ⟨_, -, h⟩ := bind_eq_ok.mp h
        cases pure_eq_ok.mp h
        have hrest : rest = [] := by simpa using hrest
        exact ⟨[], field, [], ⟨elements_cons.mpr ⟨_, htake, elements_nil.mpr hrest⟩, by simp,
          hsequence, hlist, .inl rfl⟩, rfl⟩

theorem take_fields {fields : List UInt8} {tagged extensions : List Tlv} {list : Tlv} {fuel : Nat}
    (h : Fields fields tagged list extensions) (hfuel : fields.length < fuel) :
    requestListWithin fuel fields = .ok list.raw := by
  induction tagged generalizing fields fuel with
  | nil =>
    obtain ⟨fuel, rfl⟩ := Nat.exists_eq_add_one_of_ne_zero (Nat.ne_zero_of_lt hfuel)
    obtain ⟨rest, htake, hrest⟩ := elements_cons.mp h.elements
    have hne : fields ≠ [] := fun hnil => takeTlv_nil (hnil ▸ htake)
    have huntagged : ¬ (list.tag = 0xa0 ∨ list.tag = 0xa1) := by
      rw [h.listTag]
      decide
    have hsequence : ¬ list.tag ≠ 0x30 := by simp [h.listTag]
    rw [requestListWithin]
    refine bind_eq_ok.mpr ⟨(), reject_eq_ok.mpr (by simp [hne]), bind_eq_ok.mpr ⟨_, htake, ?_⟩⟩
    simp only [huntagged, if_false]
    refine bind_eq_ok.mpr ⟨(), reject_eq_ok.mpr hsequence, bind_eq_ok.mpr ⟨(), h.list, ?_⟩⟩
    obtain hnone | ⟨e, l, rfl, htag, hsingle, hvalid⟩ := h.extensions
    · rw [hnone] at hrest
      rw [elements_nil.mp hrest]
      rfl
    · obtain ⟨last, hextensions, hlast⟩ := elements_cons.mp hrest
      rw [elements_nil.mp hlast] at hextensions
      have hrest : rest ≠ [] := fun hnil => takeTlv_nil (hnil ▸ hextensions)
      rw [if_pos hrest]
      refine bind_eq_ok.mpr ⟨_, takeExpected_iff.mpr ⟨hextensions, htag⟩, ?_⟩
      refine bind_eq_ok.mpr ⟨l, hsingle, bind_eq_ok.mpr ⟨(), hvalid, ?_⟩⟩
      rfl
  | cons field tagged ih =>
    obtain ⟨fuel, rfl⟩ := Nat.exists_eq_add_one_of_ne_zero (Nat.ne_zero_of_lt hfuel)
    obtain ⟨rest, htake, hrest⟩ := elements_cons.mp h.elements
    have hne : fields ≠ [] := fun hnil => takeTlv_nil (hnil ▸ htake)
    obtain ⟨htag, htagged⟩ := List.forall_mem_cons.mp h.tagged
    have hshorter := takeTlv_shortens htake
    rw [requestListWithin]
    refine bind_eq_ok.mpr ⟨(), reject_eq_ok.mpr (by simp [hne]), bind_eq_ok.mpr ⟨_, htake, ?_⟩⟩
    simp only [htag, if_true]
    exact ih { h with elements := hrest, tagged := htagged } (by omega)

/-- The parts of a request that is read, with the bytes behind its TBSRequest,
which are not. -/
def Reads (b : List UInt8) (tagged : List Tlv) (list : Tlv) (extensions : List Tlv)
    (behind : List UInt8) : Prop :=
  ∃ outer tbs, parseSingle b 0x30 = .ok outer ∧ takeExpected outer.value 0x30 = .ok (tbs, behind) ∧
    Fields tbs.value tagged list extensions

theorem requestList_iff {b raw : List UInt8} :
    requestList b = .ok raw ↔
      ∃ tagged list extensions behind, Reads b tagged list extensions behind ∧ list.raw = raw := by
  constructor
  · intro h
    obtain ⟨outer, houter, h⟩ := bind_eq_ok.mp h
    obtain ⟨⟨tbs, behind⟩, htbs, h⟩ := bind_eq_ok.mp h
    obtain ⟨tagged, list, extensions, hfields, hraw⟩ := requestListWithin_fields h
    exact ⟨tagged, list, extensions, behind, ⟨outer, tbs, houter, htbs, hfields⟩, hraw⟩
  · rintro ⟨tagged, list, extensions, behind, ⟨outer, tbs, houter, htbs, hfields⟩, rfl⟩
    exact bind_eq_ok.mpr ⟨outer, houter, bind_eq_ok.mpr ⟨_, htbs,
      take_fields hfields (Nat.lt_succ_self _)⟩⟩

theorem parseRequest_iff {env : Env} {b : List UInt8} {key : String} :
    parseRequest env b = .ok key ↔ ∃ tagged list extensions behind,
      Reads b tagged list extensions behind ∧ env.sha256Hex list.raw = key := by
  have hmap : parseRequest env b = .ok key ↔
      ∃ raw, requestList b = .ok raw ∧ env.sha256Hex raw = key := by
    unfold parseRequest
    cases requestList b with
    | error e => simp [Except.map]
    | ok raw => simp [Except.map]
  rw [hmap]
  constructor
  · rintro ⟨raw, hraw, hkey⟩
    obtain ⟨tagged, list, extensions, behind, hreads, rfl⟩ := requestList_iff.mp hraw
    exact ⟨tagged, list, extensions, behind, hreads, hkey⟩
  · rintro ⟨tagged, list, extensions, behind, hreads, hkey⟩
    exact ⟨list.raw, requestList_iff.mpr ⟨tagged, list, extensions, behind, hreads, rfl⟩, hkey⟩

/-- Two neighbours before the requestList that are not version and requestorName. -/
def Disordered (tagged : List Tlv) : Prop :=
  ∃ before a b behind, tagged = before ++ a :: b :: behind ∧ ¬ (a.tag = 0xa0 ∧ b.tag = 0xa1)

/-- Bytes that are not one signature element. -/
def Trailing (behind : List UInt8) : Prop :=
  behind ≠ [] ∧ ∀ signature, Elements behind [signature] → signature.tag ≠ 0xa0

theorem ordered_iff {tagged : List Tlv} (h : ∀ t ∈ tagged, t.tag = 0xa0 ∨ t.tag = 0xa1) :
    ¬ Disordered tagged ↔ ∃ version requestorName, tagged = version ++ requestorName ∧
      AtMostOne 0xa0 version ∧ AtMostOne 0xa1 requestorName := by
  constructor
  · intro hordered
    match tagged with
    | [] => exact ⟨[], [], rfl, .inl rfl, .inl rfl⟩
    | [a] =>
      obtain ha | ha := h a (by simp)
      · exact ⟨[a], [], rfl, .inr ⟨a, rfl, ha⟩, .inl rfl⟩
      · exact ⟨[], [a], rfl, .inl rfl, .inr ⟨a, rfl, ha⟩⟩
    | [a, b] =>
      have hpair : a.tag = 0xa0 ∧ b.tag = 0xa1 :=
        Classical.byContradiction fun hno => hordered ⟨[], a, b, [], rfl, hno⟩
      exact ⟨[a], [b], rfl, .inr ⟨a, rfl, hpair.1⟩, .inr ⟨b, rfl, hpair.2⟩⟩
    | a :: b :: c :: rest =>
      -- the second field would be a requestorName and a version
      have hpair : a.tag = 0xa0 ∧ b.tag = 0xa1 :=
        Classical.byContradiction fun hno => hordered ⟨[], a, b, c :: rest, rfl, hno⟩
      refine absurd ⟨[a], b, c, rest, rfl, fun hno => ?_⟩ hordered
      rw [hpair.2] at hno
      exact absurd hno.1 (by decide)
  · rintro ⟨version, requestorName, rfl, hversion, hrequestor⟩ ⟨before, a, b, behind, heq, hno⟩
    have hlen := congrArg List.length heq
    obtain rfl | ⟨v, rfl, hv⟩ := hversion
    · obtain rfl | ⟨r, rfl, hr⟩ := hrequestor
      · simp at hlen
      · simp at hlen
        omega
    · obtain rfl | ⟨r, rfl, hr⟩ := hrequestor
      · simp at hlen
        omega
      · have hbefore : before = [] := List.eq_nil_of_length_eq_zero (by simp at hlen; omega)
        rw [hbefore] at heq
        cases heq
        exact hno ⟨hv, hr⟩

/-- The first element with a property splits a list in one way. -/
theorem split_at_first {α : Type} {P : α → Prop} {p q s t : List α} {a b : α}
    (hp : ∀ x ∈ p, ¬ P x) (hq : ∀ x ∈ q, ¬ P x) (ha : P a) (hb : P b)
    (h : p ++ a :: s = q ++ b :: t) : p = q ∧ a = b ∧ s = t := by
  induction p generalizing q with
  | nil =>
    cases q with
    | nil =>
      cases h
      exact ⟨rfl, rfl, rfl⟩
    | cons x q =>
      cases h
      exact absurd ha (hq _ (by simp))
  | cons x p ih =>
    cases q with
    | nil =>
      cases h
      exact absurd hb (hp _ (by simp))
    | cons y q =>
      obtain ⟨rfl, htail⟩ := List.cons.inj h
      obtain ⟨_, hp⟩ := List.forall_mem_cons.mp hp
      obtain ⟨_, hq⟩ := List.forall_mem_cons.mp hq
      obtain ⟨rfl, hab, hst⟩ := ih hp hq htail
      exact ⟨rfl, hab, hst⟩

theorem AtMostOne.tag_eq {tag : UInt8} {tlvs : List Tlv} (h : AtMostOne tag tlvs) :
    ∀ t ∈ tlvs, t.tag = tag := by
  obtain rfl | ⟨t, rfl, ht⟩ := h
  · simp
  · simpa using ht

theorem isOcspRequest_of_reads {b behind : List UInt8} {tagged extensions : List Tlv} {list : Tlv}
    (h : Reads b tagged list extensions behind) (hordered : ¬ Disordered tagged)
    (hbehind : ¬ Trailing behind) : IsOcspRequest b := by
  obtain ⟨outer, tbs, houter, htbs, hfields⟩ := h
  obtain ⟨houter, houterTag⟩ := parseSingle_iff.mp houter
  obtain ⟨htbs, htbsTag⟩ := takeExpected_iff.mp htbs
  obtain ⟨version, requestorName, rfl, hversion, hrequestor⟩ := (ordered_iff hfields.tagged).mp hordered
  have hsignature : ∃ signature, Elements behind signature ∧ AtMostOne 0xa0 signature := by
    by_cases hnil : behind = []
    · exact ⟨[], elements_nil.mpr hnil, .inl rfl⟩
    · have hone : ∃ signature, Elements behind [signature] ∧ signature.tag = 0xa0 := by
        by_contra hno
        exact hbehind ⟨hnil, fun signature hs htag => hno ⟨signature, hs, htag⟩⟩
      obtain ⟨signature, hs, htag⟩ := hone
      exact ⟨[signature], hs, .inr ⟨signature, rfl, htag⟩⟩
  obtain ⟨signature, hbehind, hsignature⟩ := hsignature
  refine ⟨outer, tbs, signature, houter, houterTag, elements_cons.mpr ⟨behind, htbs, hbehind⟩,
    htbsTag, hsignature, version, requestorName, list, extensions, hfields.elements, hversion,
    hrequestor, hfields.listTag, ?_⟩
  obtain hnone | ⟨e, l, he, htag, -⟩ := hfields.extensions
  · exact .inl hnone
  · exact .inr ⟨e, he, htag⟩

theorem not_isOcspRequest {b behind : List UInt8} {tagged extensions : List Tlv} {list : Tlv}
    (h : Reads b tagged list extensions behind) (hbad : Disordered tagged ∨ Trailing behind) :
    ¬ IsOcspRequest b := by
  rintro ⟨outer, tbs, signature, houter, -, htbs, -, hsignature, version, requestorName, list',
    extensions', helements, hversion, hrequestor, hlist', -⟩
  obtain ⟨outer', tbs', houter', htbs', hfields⟩ := h
  cases houter.unique (parseSingle_iff.mp houter').1
  obtain ⟨behind', htake, hbehind⟩ := elements_cons.mp htbs
  cases htake.symm.trans (takeExpected_iff.mp htbs').1
  obtain hdisordered | ⟨hne, htrailing⟩ := hbad
  · have htagged : ∀ t ∈ tagged, ¬ t.tag = 0x30 := by
      intro t ht
      obtain h | h := hfields.tagged t ht
      · simp [h]
      · simp [h]
    have hnamed : ∀ t ∈ version ++ requestorName, ¬ t.tag = 0x30 := by
      intro t ht
      obtain ht | ht := List.mem_append.mp ht
      · simp [hversion.tag_eq t ht]
      · simp [hrequestor.tag_eq t ht]
    obtain ⟨hbefore, -, -⟩ := split_at_first htagged hnamed hfields.listTag hlist'
      (hfields.elements.unique helements)
    exact (ordered_iff hfields.tagged).mpr ⟨version, requestorName, hbefore, hversion, hrequestor⟩
      hdisordered
  · obtain rfl | ⟨s, rfl, hs⟩ := hsignature
    · exact hne (elements_nil.mp hbehind)
    · exact htrailing s hbehind hs

/-- What is accepted is a request, except where the fields before the requestList
repeat or change places, or where something other than a signature follows the
TBSRequest. -/
theorem accepted_is_request_iff (env : Env) (b : List UInt8) :
    (∀ key, parseRequest env b = .ok key → IsOcspRequest b) ↔
      ¬ ∃ tagged list extensions behind, Reads b tagged list extensions behind ∧
        (Disordered tagged ∨ Trailing behind) := by
  constructor
  · rintro h ⟨tagged, list, extensions, behind, hreads, hbad⟩
    refine not_isOcspRequest hreads hbad (h (env.sha256Hex list.raw) ?_)
    exact parseRequest_iff.mpr ⟨tagged, list, extensions, behind, hreads, rfl⟩
  · intro h key hkey
    obtain ⟨tagged, list, extensions, behind, hreads, -⟩ := parseRequest_iff.mp hkey
    have hgood := not_or.mp fun hbad => h ⟨tagged, list, extensions, behind, hreads, hbad⟩
    exact isOcspRequest_of_reads hreads hgood.1 hgood.2

/-- A NULL behind the TBSRequest. -/
def trailingNull : List UInt8 :=
  [0x30, 0x0a, 0x30, 0x06, 0x30, 0x04, 0x30, 0x02, 0x30, 0x00, 0x05, 0x00]

theorem trailing_null_accepted :
    ¬ ∀ (env : Env) (b : List UInt8) (key : String), parseRequest env b = .ok key →
      IsOcspRequest b := by
  intro h
  have hreads : Reads trailingNull [] ⟨0x30, [0x30, 0x02, 0x30, 0x00],
      [0x30, 0x04, 0x30, 0x02, 0x30, 0x00]⟩ [] [0x05, 0x00] := by
    refine ⟨⟨0x30, trailingNull.drop 2, trailingNull⟩, ⟨0x30, [0x30, 0x04, 0x30, 0x02, 0x30, 0x00],
      [0x30, 0x06, 0x30, 0x04, 0x30, 0x02, 0x30, 0x00]⟩, by decide, by decide, ?_⟩
    exact ⟨elements_cons.mpr ⟨[], by decide, .nil⟩, by simp, rfl, rfl, .inl rfl⟩
  have htrailing : Trailing [0x05, 0x00] := by
    refine ⟨by simp, fun signature hs => ?_⟩
    obtain ⟨rest, htake, -⟩ := elements_cons.mp hs
    have hnull : takeTlv [0x05, 0x00] = .ok (⟨0x05, [], [0x05, 0x00]⟩, []) := by decide
    cases hnull.symm.trans htake
    decide
  exact not_isOcspRequest hreads (.inr htrailing) (h Keys.plainEnv trailingNull _
    (parseRequest_iff.mpr ⟨_, _, _, _, hreads, rfl⟩))

end Requests

section Sequences

variable {β : Type} {f : List UInt8 → Except PccsError β}

/-- The loop reads SEQUENCEs to the end of its input. -/
theorem sequences_iff {input : List UInt8} {items : List β} :
    sequences f input = .ok items ↔ ∃ tlvs, Elements input tlvs ∧ (∀ t ∈ tlvs, t.tag = 0x30) ∧
      tlvs.mapM (fun t => f t.value) = .ok items := by
  constructor
  · intro h
    induction hn : input.length using Nat.strongRecOn generalizing input items with
    | ind n ih =>
      cases input with
      | nil =>
        cases h
        exact ⟨[], .nil, by simp, rfl⟩
      | cons b bs =>
        rw [sequences_cons] at h
        obtain ⟨⟨tlv, rest⟩, htake, h⟩ := bind_eq_ok.mp h
        obtain ⟨item, hitem, h⟩ := bind_eq_ok.mp h
        obtain ⟨items', hitems, h⟩ := bind_eq_ok.mp h
        cases pure_eq_ok.mp h
        obtain ⟨htake, htag⟩ := takeExpected_iff.mp htake
        have hshorter := takeTlv_shortens htake
        obtain ⟨tlvs, helements, htags, hmap⟩ := ih rest.length (hn ▸ hshorter) hitems rfl
        exact ⟨tlv :: tlvs, elements_cons.mpr ⟨rest, htake, helements⟩,
          List.forall_mem_cons.mpr ⟨htag, htags⟩,
          mapM_cons_eq_ok.mpr ⟨item, items', hitem, hmap, rfl⟩⟩
  · rintro ⟨tlvs, helements, htags, hmap⟩
    induction tlvs generalizing input items with
    | nil =>
      cases pure_eq_ok.mp hmap
      rw [elements_nil.mp helements]
      rfl
    | cons tlv tlvs ih =>
      obtain ⟨rest, htake, hrest⟩ := elements_cons.mp helements
      obtain ⟨item, items', hitem, hitems, rfl⟩ := mapM_cons_eq_ok.mp hmap
      obtain ⟨htag, htags⟩ := List.forall_mem_cons.mp htags
      cases input with
      | nil => exact absurd htake takeTlv_nil
      | cons b bs =>
        rw [sequences_cons]
        exact bind_eq_ok.mpr ⟨_, takeExpected_iff.mpr ⟨htake, htag⟩, bind_eq_ok.mpr ⟨item, hitem,
          bind_eq_ok.mpr ⟨items', ih hrest htags hitems, rfl⟩⟩⟩

end Sequences

section Responses

/-- The input is these elements, one after the other, and then the rest. -/
def Splits : List UInt8 → List Tlv → List UInt8 → Prop
  | input, [], rest => input = rest
  | input, tlv :: tlvs, rest =>
    ∃ tail, takeTlv input = .ok (tlv, tail) ∧ Splits tail tlvs rest

theorem Splits.unique {input rest rest' : List UInt8} {a b : List Tlv} (ha : Splits input a rest)
    (hb : Splits input b rest') (hlen : a.length = b.length) : a = b ∧ rest = rest' := by
  induction a generalizing input b with
  | nil =>
    cases List.eq_nil_of_length_eq_zero hlen.symm
    exact ⟨rfl, ha.symm.trans hb⟩
  | cons tlv tlvs ih =>
    cases b with
    | nil => cases hlen
    | cons tlv' tlvs' =>
      obtain ⟨tail, htake, ha⟩ := ha
      obtain ⟨tail', htake', hb⟩ := hb
      cases htake.symm.trans htake'
      obtain ⟨rfl, hrest⟩ := ih ha hb (Nat.succ.inj hlen)
      exact ⟨rfl, hrest⟩

/-- A BasicOCSPResponse: the response data, a signature and optional certificates.
The data is an optional version, a responderID, the time of production and the
responses; `behind` is what follows these. -/
def IsBasic (basic responses : Tlv) (behind : List UInt8) : Prop :=
  ∃ data algorithm signature certs,
    Elements basic.value (data :: algorithm :: signature :: certs) ∧
    data.tag = 0x30 ∧ algorithm.tag = 0x30 ∧ signature.tag = 0x03 ∧
    (certs = [] ∨ ∃ c list, certs = [c] ∧ c.tag = 0xa0 ∧ Elements c.value [list] ∧ list.tag = 0x30) ∧
    ∃ version responderId producedAt,
      Splits data.value (version ++ [responderId, producedAt, responses]) behind ∧
      AtMostOne 0xa0 version ∧ responderId.tag &&& 0xc0 = 0x80 ∧
      (responderId.tag &&& 0x1f = 1 ∨ responderId.tag &&& 0x1f = 2) ∧ producedAt.tag = 0x18 ∧
      responses.tag = 0x30

/-- The response is successful and holds a BasicOCSPResponse, with these bytes
behind its responseBytes, behind the OCTET STRING in them and behind the
responses. -/
def Layout (response : List UInt8) (responses : Tlv) (afterBytes afterDer behind : List UInt8) :
    Prop :=
  ∃ outer status bytes body responseType basicDer basic,
    Elements response [outer] ∧ outer.tag = 0x30 ∧
    Splits outer.value [status, bytes] afterBytes ∧ status.tag = 0x0a ∧ status.value = [0] ∧
    bytes.tag = 0xa0 ∧ Elements bytes.value [body] ∧ body.tag = 0x30 ∧
    Splits body.value [responseType, basicDer] afterDer ∧ responseType.tag = 0x06 ∧
    responseType.value = oidOcspBasic ∧ basicDer.tag = 0x04 ∧
    Elements basicDer.value [basic] ∧ basic.tag = 0x30 ∧ IsBasic basic responses behind

/-- The response is successful and holds a BasicOCSPResponse with these
responses, whatever stands behind them. -/
def Successful (response : List UInt8) (responses : Tlv) : Prop :=
  ∃ afterBytes afterDer behind, Layout response responses afterBytes afterDer behind

/-- The last part of the reader, from the responderID on. -/
def responderResponses (fields : List UInt8) : Except PccsError (List UInt8) := do
  let (responderId, fields) ← takeTlv fields
  let responderIdTag := responderId.tag &&& 0x1f
  reject (responderId.tag &&& 0xc0 ≠ 0x80 ∨ ¬ (responderIdTag = 1 ∨ responderIdTag = 2)) invalidReq
  let (_, fields) ← takeExpected fields 0x18
  let (responses, _) ← takeExpected fields 0x30
  return responses.value

/-- The part before it, from the response data on. -/
def dataResponses (data : List UInt8) : Except PccsError (List UInt8) := do
  let fields ← if peekTag data = some 0xa0 then (takeExpected data 0xa0).map Prod.snd else .ok data
  responderResponses fields

theorem peekTag_of_takeTlv {input rest : List UInt8} {tlv : Tlv}
    (h : takeTlv input = .ok (tlv, rest)) : peekTag input = some tlv.tag := by
  obtain ⟨⟨tag, firstLen⟩, hheader, h⟩ := bind_eq_ok.mp h
  obtain ⟨_, -, h⟩ := bind_eq_ok.mp h
  obtain ⟨⟨headerLen, valueLen⟩, -, h⟩ := bind_eq_ok.mp h
  obtain ⟨_, -, h⟩ := bind_eq_ok.mp h
  cases pure_eq_ok.mp h
  have hheader := require_eq_ok.mp hheader
  cases input with
  | nil => cases hheader
  | cons b bs =>
    cases bs with
    | nil => cases hheader
    | cons b' bs =>
      cases hheader
      rfl

theorem map_eq_ok {ε α γ : Type} {x : Except ε α} {g : α → γ} {c : γ} :
    x.map g = .ok c ↔ ∃ a, x = .ok a ∧ g a = c := by
  cases x with
  | error e => simp [Except.map]
  | ok a => simp [Except.map]

theorem responderResponses_iff {fields list : List UInt8} :
    responderResponses fields = .ok list ↔ ∃ responderId producedAt responses behind,
      Splits fields [responderId, producedAt, responses] behind ∧ responderId.tag &&& 0xc0 = 0x80 ∧
      (responderId.tag &&& 0x1f = 1 ∨ responderId.tag &&& 0x1f = 2) ∧ producedAt.tag = 0x18 ∧
      responses.tag = 0x30 ∧ responses.value = list := by
  constructor
  · intro h
    obtain ⟨⟨responderId, rest⟩, hresponder, h⟩ := bind_eq_ok.mp h
    obtain ⟨_, htag, h⟩ := bind_eq_ok.mp h
    obtain ⟨⟨producedAt, rest'⟩, hproduced, h⟩ := bind_eq_ok.mp h
    obtain ⟨⟨responses, _⟩, hresponses, h⟩ := bind_eq_ok.mp h
    cases pure_eq_ok.mp h
    obtain ⟨hproduced, hproducedTag⟩ := takeExpected_iff.mp hproduced
    obtain ⟨hresponses, hresponsesTag⟩ := takeExpected_iff.mp hresponses
    have htag := not_or.mp (reject_eq_ok.mp htag)
    exact ⟨responderId, producedAt, responses, _, ⟨_, hresponder, _, hproduced, _, hresponses, rfl⟩,
      Classical.not_not.mp htag.1, Classical.not_not.mp htag.2, hproducedTag, hresponsesTag, rfl⟩
  · rintro ⟨responderId, producedAt, responses, _, ⟨_, hresponder, _, hproduced, _, hresponses, -⟩,
      hclass, hchoice, hproducedTag, hresponsesTag, rfl⟩
    refine bind_eq_ok.mpr ⟨_, hresponder, bind_eq_ok.mpr ⟨(), reject_eq_ok.mpr ?_, ?_⟩⟩
    · simp [hclass, hchoice]
    · exact bind_eq_ok.mpr ⟨_, takeExpected_iff.mpr ⟨hproduced, hproducedTag⟩,
        bind_eq_ok.mpr ⟨_, takeExpected_iff.mpr ⟨hresponses, hresponsesTag⟩, rfl⟩⟩

theorem dataResponses_iff {data list : List UInt8} :
    dataResponses data = .ok list ↔ ∃ version responderId producedAt responses behind,
      Splits data (version ++ [responderId, producedAt, responses]) behind ∧ AtMostOne 0xa0 version ∧
      responderId.tag &&& 0xc0 = 0x80 ∧
      (responderId.tag &&& 0x1f = 1 ∨ responderId.tag &&& 0x1f = 2) ∧ producedAt.tag = 0x18 ∧
      responses.tag = 0x30 ∧ responses.value = list := by
  constructor
  · intro h
    unfold dataResponses at h
    split at h
    · obtain ⟨fields, hmap, h⟩ := bind_eq_ok.mp h
      obtain ⟨⟨version, fields⟩, hversion, rfl⟩ := map_eq_ok.mp hmap
      obtain ⟨htake, htag⟩ := takeExpected_iff.mp hversion
      obtain ⟨responderId, producedAt, responses, behind, hsplits, hrest⟩ :=
        responderResponses_iff.mp h
      exact ⟨[version], responderId, producedAt, responses, behind, ⟨_, htake, hsplits⟩,
        .inr ⟨version, rfl, htag⟩, hrest⟩
    · obtain ⟨responderId, producedAt, responses, behind, hsplits, hrest⟩ :=
        responderResponses_iff.mp h
      exact ⟨[], responderId, producedAt, responses, behind, hsplits, .inl rfl, hrest⟩
  · rintro ⟨version, responderId, producedAt, responses, behind, hsplits, hversion, hrest⟩
    obtain rfl | ⟨v, rfl, hv⟩ := hversion
    · obtain ⟨_, hresponder, _⟩ := id hsplits
      have hpeek : ¬ peekTag data = some 0xa0 := by
        rw [peekTag_of_takeTlv hresponder]
        intro h
        have hchoice := hrest.2.1
        rw [Option.some.inj h] at hchoice
        exact absurd hchoice (by decide)
      unfold dataResponses
      rw [if_neg hpeek]
      exact responderResponses_iff.mpr ⟨responderId, producedAt, responses, behind, hsplits, hrest⟩
    · obtain ⟨fields, htake, hsplits⟩ := hsplits
      have hpeek : peekTag data = some 0xa0 := by rw [peekTag_of_takeTlv htake, hv]
      unfold dataResponses
      rw [if_pos hpeek, takeExpected_iff.mpr ⟨htake, hv⟩]
      exact responderResponses_iff.mpr ⟨responderId, producedAt, responses, behind, hsplits, hrest⟩

theorem singleResponses_iff {response list : List UInt8} :
    singleResponses response = .ok list ↔
      ∃ responses, Successful response responses ∧ responses.value = list := by
  constructor
  · intro h
    obtain ⟨outer, houter, h⟩ := bind_eq_ok.mp h
    obtain ⟨⟨status, rest⟩, hstatus, h⟩ := bind_eq_ok.mp h
    obtain ⟨_, hzero, h⟩ := bind_eq_ok.mp h
    obtain ⟨⟨bytes, _⟩, hbytes, h⟩ := bind_eq_ok.mp h
    obtain ⟨body, hbody, h⟩ := bind_eq_ok.mp h
    obtain ⟨⟨responseType, rest'⟩, htype, h⟩ := bind_eq_ok.mp h
    obtain ⟨_, hoid, h⟩ := bind_eq_ok.mp h
    obtain ⟨⟨basicDer, _⟩, hder, h⟩ := bind_eq_ok.mp h
    obtain ⟨basic, hbasic, h⟩ := bind_eq_ok.mp h
    obtain ⟨⟨data, fields⟩, hdata, h⟩ := bind_eq_ok.mp h
    obtain ⟨⟨algorithm, fields'⟩, halgorithm, h⟩ := bind_eq_ok.mp h
    obtain ⟨⟨signature, certs⟩, hsignature, h⟩ := bind_eq_ok.mp h
    obtain ⟨houter, houterTag⟩ := parseSingle_iff.mp houter
    obtain ⟨hstatus, hstatusTag⟩ := takeExpected_iff.mp hstatus
    obtain ⟨hbytes, hbytesTag⟩ := takeExpected_iff.mp hbytes
    obtain ⟨hbody, hbodyTag⟩ := parseSingle_iff.mp hbody
    obtain ⟨htype, htypeTag⟩ := takeExpected_iff.mp htype
    obtain ⟨hder, hderTag⟩ := takeExpected_iff.mp hder
    obtain ⟨hbasic, hbasicTag⟩ := parseSingle_iff.mp hbasic
    obtain ⟨hdata, hdataTag⟩ := takeExpected_iff.mp hdata
    obtain ⟨halgorithm, halgorithmTag⟩ := takeExpected_iff.mp halgorithm
    obtain ⟨hsignature, hsignatureTag⟩ := takeExpected_iff.mp hsignature
    have hcerts : dataResponses data.value = .ok list ∧ ∃ tlvs, Elements certs tlvs ∧
        (tlvs = [] ∨ ∃ c l, tlvs = [c] ∧ c.tag = 0xa0 ∧ Elements c.value [l] ∧ l.tag = 0x30) := by
      simp only at h
      split at h
      · obtain ⟨⟨c, last⟩, hc, h⟩ := bind_eq_ok.mp h
        obtain ⟨l, hl, h⟩ := bind_eq_ok.mp h
        obtain ⟨_, hlast, h⟩ := bind_eq_ok.mp h
        cases pure_eq_ok.mp hlast
        obtain ⟨_, hend, h⟩ := bind_eq_ok.mp h
        obtain ⟨hc, hcTag⟩ := takeExpected_iff.mp hc
        obtain ⟨hl, hlTag⟩ := parseSingle_iff.mp hl
        have hend : last = [] := by simpa using reject_eq_ok.mp hend
        exact ⟨h, [c], elements_cons.mpr ⟨last, hc, elements_nil.mpr hend⟩,
          .inr ⟨c, l, rfl, hcTag, hl, hlTag⟩⟩
      · obtain ⟨fields, hfields, h⟩ := bind_eq_ok.mp h
        cases hfields
        obtain ⟨_, hend, h⟩ := bind_eq_ok.mp h
        have hend : certs = [] := by simpa using reject_eq_ok.mp hend
        exact ⟨h, [], elements_nil.mpr hend, .inl rfl⟩
    obtain ⟨h, tlvs, hcerts, hshape⟩ := hcerts
    obtain ⟨version, responderId, producedAt, responses, behind, hsplits, hversion, hclass, hchoice,
      hproducedTag, hresponsesTag, hvalue⟩ := dataResponses_iff.mp h
    refine ⟨responses, ⟨_, _, behind, outer, status, bytes, body, responseType, basicDer, basic,
      houter, houterTag, ⟨_, hstatus, _, hbytes, rfl⟩, hstatusTag, ?_, hbytesTag, hbody, hbodyTag,
      ⟨_, htype, _, hder, rfl⟩, htypeTag, ?_, hderTag, hbasic, hbasicTag, data, algorithm,
      signature, tlvs, ?_, hdataTag, halgorithmTag, hsignatureTag, hshape, version, responderId,
      producedAt, hsplits, hversion, hclass, hchoice, hproducedTag, hresponsesTag⟩, hvalue⟩
    · exact Classical.not_not.mp (reject_eq_ok.mp hzero)
    · exact Classical.not_not.mp (reject_eq_ok.mp hoid)
    · exact elements_cons.mpr ⟨_, hdata, elements_cons.mpr ⟨_, halgorithm,
        elements_cons.mpr ⟨_, hsignature, hcerts⟩⟩⟩
  · rintro ⟨responses, ⟨_, _, behind, outer, status, bytes, body, responseType, basicDer, basic,
      houter, houterTag, ⟨_, hstatus, _, hbytes, -⟩, hstatusTag, hzero, hbytesTag, hbody, hbodyTag,
      ⟨_, htype, _, hder, -⟩, htypeTag, hoid, hderTag, hbasic, hbasicTag, data, algorithm,
      signature, tlvs, helements, hdataTag, halgorithmTag, hsignatureTag, hshape, version,
      responderId, producedAt, hsplits, hversion, hrest⟩, hvalue⟩
    obtain ⟨_, hdata, helements⟩ := elements_cons.mp helements
    obtain ⟨_, halgorithm, helements⟩ := elements_cons.mp helements
    obtain ⟨certs, hsignature, helements⟩ := elements_cons.mp helements
    have hlist : dataResponses data.value = .ok list := dataResponses_iff.mpr
      ⟨version, responderId, producedAt, responses, behind, hsplits, hversion, hrest.1, hrest.2.1,
        hrest.2.2.1, hrest.2.2.2, hvalue⟩
    refine bind_eq_ok.mpr ⟨_, parseSingle_iff.mpr ⟨houter, houterTag⟩, ?_⟩
    refine bind_eq_ok.mpr ⟨_, takeExpected_iff.mpr ⟨hstatus, hstatusTag⟩, ?_⟩
    refine bind_eq_ok.mpr ⟨(), reject_eq_ok.mpr (by simp [hzero]), ?_⟩
    refine bind_eq_ok.mpr ⟨_, takeExpected_iff.mpr ⟨hbytes, hbytesTag⟩, ?_⟩
    refine bind_eq_ok.mpr ⟨_, parseSingle_iff.mpr ⟨hbody, hbodyTag⟩, ?_⟩
    refine bind_eq_ok.mpr ⟨_, takeExpected_iff.mpr ⟨htype, htypeTag⟩, ?_⟩
    refine bind_eq_ok.mpr ⟨(), reject_eq_ok.mpr (by simp [hoid]), ?_⟩
    refine bind_eq_ok.mpr ⟨_, takeExpected_iff.mpr ⟨hder, hderTag⟩, ?_⟩
    refine bind_eq_ok.mpr ⟨_, parseSingle_iff.mpr ⟨hbasic, hbasicTag⟩, ?_⟩
    refine bind_eq_ok.mpr ⟨_, takeExpected_iff.mpr ⟨hdata, hdataTag⟩, ?_⟩
    refine bind_eq_ok.mpr ⟨_, takeExpected_iff.mpr ⟨halgorithm, halgorithmTag⟩, ?_⟩
    refine bind_eq_ok.mpr ⟨_, takeExpected_iff.mpr ⟨hsignature, hsignatureTag⟩, ?_⟩
    obtain rfl | ⟨c, l, rfl, hcTag, hl, hlTag⟩ := hshape
    · rw [elements_nil.mp helements]
      exact hlist
    · obtain ⟨last, hc, hlast⟩ := elements_cons.mp helements
      rw [elements_nil.mp hlast] at hc
      have hne : certs ≠ [] := fun hnil => takeTlv_nil (hnil ▸ hc)
      simp only [hne, ne_eq, not_false_eq_true, if_true]
      refine bind_eq_ok.mpr ⟨_, takeExpected_iff.mpr ⟨hc, hcTag⟩, ?_⟩
      exact bind_eq_ok.mpr ⟨_, parseSingle_iff.mpr ⟨hl, hlTag⟩, hlist⟩

/-- The responses of a body and what each of them says. -/
def Decoded (chrono : Chrono) (response : List UInt8) (singles : List Tlv)
    (items : List ResponseValidity) : Prop :=
  ∃ responses, Successful response responses ∧ Elements responses.value singles ∧ singles ≠ [] ∧
    (∀ single ∈ singles, single.tag = 0x30) ∧
    singles.mapM (fun single => singleResponse chrono single.value) = .ok items

theorem mapM_length {ε α γ : Type} {g : α → Except ε γ} {l : List α} {out : List γ}
    (h : l.mapM g = .ok out) : out.length = l.length := by
  induction l generalizing out with
  | nil =>
    cases pure_eq_ok.mp h
    rfl
  | cons a l ih =>
    obtain ⟨b, rest, -, hrest, rfl⟩ := mapM_cons_eq_ok.mp h
    simp [ih hrest]

theorem responseValidity_iff {chrono : Chrono} {response : List UInt8}
    {items : List ResponseValidity} :
    responseValidity chrono response = .ok items ↔
      ∃ singles, Decoded chrono response singles items := by
  constructor
  · intro h
    obtain ⟨list, hlist, h⟩ := bind_eq_ok.mp h
    obtain ⟨items', hsequences, h⟩ := bind_eq_ok.mp h
    obtain ⟨_, hne, h⟩ := bind_eq_ok.mp h
    cases pure_eq_ok.mp h
    obtain ⟨responses, hsuccessful, rfl⟩ := singleResponses_iff.mp hlist
    obtain ⟨singles, helements, htags, hmap⟩ := sequences_iff.mp hsequences
    refine ⟨singles, responses, hsuccessful, helements, ?_, htags, hmap⟩
    rintro rfl
    cases pure_eq_ok.mp hmap
    exact reject_eq_ok.mp hne rfl
  · rintro ⟨singles, responses, hsuccessful, helements, hne, htags, hmap⟩
    have hitems : items ≠ [] := by
      rintro rfl
      exact hne (List.eq_nil_of_length_eq_zero (mapM_length hmap).symm)
    exact bind_eq_ok.mpr ⟨_, singleResponses_iff.mpr ⟨responses, hsuccessful, rfl⟩,
      bind_eq_ok.mpr ⟨items, sequences_iff.mpr ⟨singles, helements, htags, hmap⟩,
        bind_eq_ok.mpr ⟨(), reject_eq_ok.mpr hitems, rfl⟩⟩⟩

/-- The last, optional field of a SEQUENCE. -/
theorem last_field_iff {γ : Type} {tag : UInt8} {fields : List UInt8} {k : Except PccsError γ}
    {c : γ} :
    (if fields ≠ [] then do
      let fields ← (takeExpected fields tag).map Prod.snd
      reject (fields ≠ []) invalidReq
      k
    else do
      let fields ← Except.ok fields
      reject (fields ≠ []) invalidReq
      k) = .ok c ↔ (∃ last, Elements fields last ∧ AtMostOne tag last) ∧ k = .ok c := by
  by_cases hnil : fields = []
  · have hlast : ∃ last, Elements fields last ∧ AtMostOne tag last :=
      ⟨[], elements_nil.mpr hnil, .inl rfl⟩
    rw [if_neg (by simp [hnil])]
    subst hnil
    exact ⟨fun h => ⟨hlast, h⟩, And.right⟩
  · rw [if_pos hnil]
    constructor
    · intro h
      obtain ⟨rest, hmap, h⟩ := bind_eq_ok.mp h
      obtain ⟨⟨tlv, rest⟩, htake, rfl⟩ := map_eq_ok.mp hmap
      obtain ⟨_, hend, h⟩ := bind_eq_ok.mp h
      obtain ⟨htake, htag⟩ := takeExpected_iff.mp htake
      have hend : rest = [] := by simpa using reject_eq_ok.mp hend
      exact ⟨⟨[tlv], elements_cons.mpr ⟨rest, htake, elements_nil.mpr hend⟩, .inr ⟨tlv, rfl, htag⟩⟩, h⟩
    · rintro ⟨⟨last, helements, hlast⟩, h⟩
      obtain rfl | ⟨t, rfl, htag⟩ := hlast
      · exact absurd (elements_nil.mp helements) hnil
      · obtain ⟨rest, htake, hrest⟩ := elements_cons.mp helements
        refine bind_eq_ok.mpr ⟨rest, map_eq_ok.mpr ⟨_, takeExpected_iff.mpr ⟨htake, htag⟩, rfl⟩, ?_⟩
        exact bind_eq_ok.mpr ⟨(), reject_eq_ok.mpr (by simp [elements_nil.mp hrest]), h⟩

/-- An optional nextUpdate. -/
def NextUpdate (chrono : Chrono) (tlvs : List Tlv) (time : Option Int64) : Prop :=
  (tlvs = [] ∧ time = none) ∨ ∃ explicit value t, tlvs = [explicit] ∧ explicit.tag = 0xa0 ∧
    Elements explicit.value [value] ∧ value.tag = 0x18 ∧
    parseGeneralizedTime chrono value.value = .ok t ∧ time = some t

/-- The fields of a SingleResponse. -/
def Single (chrono : Chrono) (single : List UInt8) (status : Tlv) (item : ResponseValidity) : Prop :=
  ∃ certId thisUpdate nextUpdate extensions,
    Elements single (certId :: status :: thisUpdate :: (nextUpdate ++ extensions)) ∧
    certId.tag = 0x30 ∧ status.tag &&& 0xc0 = 0x80 ∧ thisUpdate.tag = 0x18 ∧
    parseGeneralizedTime chrono thisUpdate.value = .ok item.thisUpdate ∧
    NextUpdate chrono nextUpdate item.nextUpdate ∧ AtMostOne 0xa1 extensions ∧
    item.unknown = decide (status.tag = certStatusUnknown)

theorem singleResponse_iff {chrono : Chrono} {single : List UInt8} {item : ResponseValidity} :
    singleResponse chrono single = .ok item ↔ ∃ status, Single chrono single status item := by
  constructor
  · intro h
    obtain ⟨⟨certId, fields⟩, hcertId, h⟩ := bind_eq_ok.mp h
    obtain ⟨⟨status, fields'⟩, hstatus, h⟩ := bind_eq_ok.mp h
    obtain ⟨_, hclass, h⟩ := bind_eq_ok.mp h
    obtain ⟨⟨thisUpdate, rest⟩, hthis, h⟩ := bind_eq_ok.mp h
    obtain ⟨time, htime, h⟩ := bind_eq_ok.mp h
    obtain ⟨hcertId, hcertIdTag⟩ := takeExpected_iff.mp hcertId
    obtain ⟨hthis, hthisTag⟩ := takeExpected_iff.mp hthis
    have hclass := Classical.not_not.mp (reject_eq_ok.mp hclass)
    simp only at h
    split at h
    · obtain ⟨⟨explicit, behind⟩, hexplicit, h⟩ := bind_eq_ok.mp h
      obtain ⟨value, hvalue, h⟩ := bind_eq_ok.mp h
      obtain ⟨next, hnext, h⟩ := bind_eq_ok.mp h
      obtain ⟨_, hpair, h⟩ := bind_eq_ok.mp h
      cases pure_eq_ok.mp hpair
      obtain ⟨⟨extensions, hextensions, hmost⟩, h⟩ := last_field_iff.mp h
      cases pure_eq_ok.mp h
      obtain ⟨hexplicit, hexplicitTag⟩ := takeExpected_iff.mp hexplicit
      obtain ⟨hvalue, hvalueTag⟩ := parseSingle_iff.mp hvalue
      refine ⟨status, certId, thisUpdate, [explicit], extensions, ?_, hcertIdTag, hclass, hthisTag,
        htime, .inr ⟨explicit, value, next, rfl, hexplicitTag, hvalue, hvalueTag, hnext, rfl⟩, hmost,
        rfl⟩
      exact elements_cons.mpr ⟨_, hcertId, elements_cons.mpr ⟨_, hstatus, elements_cons.mpr
        ⟨_, hthis, elements_cons.mpr ⟨_, hexplicit, hextensions⟩⟩⟩⟩
    · obtain ⟨_, hpair, h⟩ := bind_eq_ok.mp h
      cases hpair
      obtain ⟨⟨extensions, hextensions, hmost⟩, h⟩ := last_field_iff.mp h
      cases pure_eq_ok.mp h
      refine ⟨status, certId, thisUpdate, [], extensions, ?_, hcertIdTag, hclass, hthisTag, htime,
        .inl ⟨rfl, rfl⟩, hmost, rfl⟩
      exact elements_cons.mpr ⟨_, hcertId, elements_cons.mpr ⟨_, hstatus, elements_cons.mpr
        ⟨_, hthis, hextensions⟩⟩⟩
  · rintro ⟨status, certId, thisUpdate, nextUpdate, extensions, helements, hcertIdTag, hclass,
      hthisTag, htime, hnext, hmost, hunknown⟩
    obtain ⟨_, hcertId, helements⟩ := elements_cons.mp helements
    obtain ⟨_, hstatus, helements⟩ := elements_cons.mp helements
    obtain ⟨fields, hthis, helements⟩ := elements_cons.mp helements
    refine bind_eq_ok.mpr ⟨_, takeExpected_iff.mpr ⟨hcertId, hcertIdTag⟩, ?_⟩
    refine bind_eq_ok.mpr ⟨_, hstatus, bind_eq_ok.mpr ⟨(), reject_eq_ok.mpr (by simp [hclass]), ?_⟩⟩
    refine bind_eq_ok.mpr ⟨_, takeExpected_iff.mpr ⟨hthis, hthisTag⟩, ?_⟩
    refine bind_eq_ok.mpr ⟨_, htime, ?_⟩
    obtain ⟨this, next, unknown⟩ := item
    obtain ⟨rfl, hnone⟩ | ⟨explicit, value, t, rfl, hexplicitTag, hvalue, hvalueTag, ht, hsome⟩ := hnext
    · -- nothing, or an extension, follows thisUpdate
      have hpeek : ¬ peekTag fields = some 0xa0 := by
        obtain rfl | ⟨e, rfl, he⟩ := hmost
        · rw [elements_nil.mp helements]
          decide
        · obtain ⟨_, htake, -⟩ := elements_cons.mp helements
          rw [peekTag_of_takeTlv htake, he]
          decide
      simp only [hpeek, if_false]
      refine bind_eq_ok.mpr ⟨_, rfl, last_field_iff.mpr ⟨⟨extensions, helements, hmost⟩, ?_⟩⟩
      simp only at hnone hunknown
      rw [hnone, hunknown]
      rfl
    · obtain ⟨rest, hexplicit, helements⟩ := elements_cons.mp helements
      have hpeek : peekTag fields = some 0xa0 := by
        rw [peekTag_of_takeTlv hexplicit, hexplicitTag]
      simp only [hpeek, if_true]
      refine bind_eq_ok.mpr ⟨_, takeExpected_iff.mpr ⟨hexplicit, hexplicitTag⟩, ?_⟩
      refine bind_eq_ok.mpr ⟨_, parseSingle_iff.mpr ⟨hvalue, hvalueTag⟩, bind_eq_ok.mpr ⟨t, ht, ?_⟩⟩
      refine bind_eq_ok.mpr ⟨_, rfl, last_field_iff.mpr ⟨⟨extensions, helements, hmost⟩, ?_⟩⟩
      simp only at hsome hunknown
      rw [hsome, hunknown]
      rfl

end Responses

section Deadlines

/-- The running minimum is the least of its start and what was met. -/
theorem isLeast_foldl {α γ : Type} [LinearOrder γ] (f : α → γ) (items : List α) (start : γ) :
    IsLeast (insert start {d | ∃ item ∈ items, d = f item})
      (items.foldl (fun m item => min m (f item)) start) := by
  induction items generalizing start with
  | nil => simp
  | cons item items ih =>
    obtain ⟨hmem, hlower⟩ := ih (min start (f item))
    rw [List.foldl_cons]
    have hle := hlower (Set.mem_insert _ _)
    refine ⟨?_, ?_⟩
    · obtain hmin | ⟨item', hitem', heq⟩ := hmem
      · rw [hmin]
        obtain h | h := min_choice start (f item)
        · exact .inl h
        · exact .inr ⟨item, by simp, h⟩
      · exact .inr ⟨item', by simp [hitem'], heq⟩
    · rintro d (rfl | ⟨item', hitem', rfl⟩)
      · exact hle.trans (min_le_left _ _)
      · obtain rfl | hitem' := List.mem_cons.mp hitem'
        · exact hle.trans (min_le_right _ _)
        · exact hlower (.inr ⟨item', hitem', rfl⟩)

variable {now : Int} {maxTtl defaultTtl : Nat} {items : List ResponseValidity}

theorem lowerExpiry_iff {defaultTtl m out : Int} {item : ResponseValidity} :
    lowerExpiry now defaultTtl m item = .ok out ↔
      (item.unknown = false ∧ item.thisUpdate.toInt ≤ now) ∧
        out = min m (item.signedExpiry defaultTtl) := by
  constructor
  · intro h
    obtain ⟨_, hunknown, h⟩ := bind_eq_ok.mp h
    obtain ⟨_, hfuture, h⟩ := bind_eq_ok.mp h
    cases pure_eq_ok.mp h
    exact ⟨⟨by simpa using reject_eq_ok.mp hunknown, by simpa using reject_eq_ok.mp hfuture⟩, rfl⟩
  · rintro ⟨⟨hunknown, hpast⟩, rfl⟩
    exact bind_eq_ok.mpr ⟨(), reject_eq_ok.mpr (by simp [hunknown]),
      bind_eq_ok.mpr ⟨(), reject_eq_ok.mpr (by simpa using hpast), rfl⟩⟩

theorem foldlM_lowerExpiry_iff {defaultTtl start out : Int} :
    items.foldlM (lowerExpiry now defaultTtl) start = .ok out ↔
      (∀ item ∈ items, item.unknown = false ∧ item.thisUpdate.toInt ≤ now) ∧
      out = items.foldl (fun m item => min m (item.signedExpiry defaultTtl)) start := by
  induction items generalizing start with
  | nil =>
    rw [List.foldlM_nil, pure_eq_ok, List.foldl_nil]
    exact ⟨fun h => ⟨List.forall_mem_nil _, h.symm⟩, fun h => h.2.symm⟩
  | cons item items ih =>
    rw [List.foldlM_cons, bind_eq_ok, List.forall_mem_cons, List.foldl_cons]
    constructor
    · rintro ⟨m, hm, h⟩
      obtain ⟨hitem, rfl⟩ := lowerExpiry_iff.mp hm
      obtain ⟨hitems, hout⟩ := ih.mp h
      exact ⟨⟨hitem, hitems⟩, hout⟩
    · rintro ⟨⟨hitem, hitems⟩, hout⟩
      exact ⟨_, lowerExpiry_iff.mpr ⟨hitem, rfl⟩, ih.mpr ⟨hitems, hout⟩⟩

/-- Saturation only shows above every deadline that is kept. -/
theorem min_signedExpiry {m : Int} (hm : m ≤ i64Max) (item : ResponseValidity) :
    min m (item.signedExpiry defaultTtl) = min m (item.deadline defaultTtl) := by
  have hmin : i64Min ≤ item.thisUpdate.toInt := item.thisUpdate.le_toInt
  simp only [ResponseValidity.signedExpiry, ResponseValidity.deadline, saturatingAdd]
  split
  · rfl
  · omega

theorem foldl_signedExpiry {start : Int} (hstart : start ≤ i64Max) :
    items.foldl (fun m item => min m (item.signedExpiry defaultTtl)) start =
      items.foldl (fun m item => min m (item.deadline defaultTtl)) start := by
  induction items generalizing start with
  | nil => rfl
  | cons item items ih =>
    rw [List.foldl_cons, List.foldl_cons, min_signedExpiry hstart,
      ih (Int.le_trans (Int.min_le_left _ _) hstart)]

/-- The SingleResponses can be kept until `expiresAt`, in exact integers. -/
structure Keeps (now : Int) (maxTtl defaultTtl : Nat) (items : List ResponseValidity)
    (expiresAt : Nat) : Prop where
  maxFits : (maxTtl : Int) ≤ i64Max
  defaultFits : (defaultTtl : Int) ≤ i64Max
  sumFits : now + maxTtl ≤ i64Max
  known : ∀ item ∈ items, item.unknown = false
  past : ∀ item ∈ items, item.thisUpdate.toInt ≤ now
  least : IsLeast (insert (now + maxTtl) {d | ∃ item ∈ items, d = item.deadline defaultTtl})
    (expiresAt : Int)
  later : now < expiresAt

theorem responseCacheExpiry_iff {chrono : Chrono} {response : List UInt8} {expiresAt : Nat} :
    responseCacheExpiry chrono response now maxTtl defaultTtl = .ok expiresAt ↔
      ∃ items, responseValidity chrono response = .ok items ∧
        Keeps now maxTtl defaultTtl items expiresAt := by
  constructor
  · intro h
    obtain ⟨items, hvalidity, h⟩ := bind_eq_ok.mp h
    obtain ⟨defaultTtl', hdefault, h⟩ := bind_eq_ok.mp h
    obtain ⟨maxTtl', hmax, h⟩ := bind_eq_ok.mp h
    obtain ⟨_, hsum, h⟩ := bind_eq_ok.mp h
    obtain ⟨lowest, hfold, h⟩ := bind_eq_ok.mp h
    obtain ⟨_, hlater, h⟩ := bind_eq_ok.mp h
    obtain ⟨_, hneg, h⟩ := bind_eq_ok.mp h
    cases pure_eq_ok.mp h
    obtain ⟨hdefaultFits, rfl⟩ := tryI64_eq_some (require_eq_ok.mp hdefault)
    obtain ⟨hmaxFits, rfl⟩ := tryI64_eq_some (require_eq_ok.mp hmax)
    have hsum := Int.not_lt.mp (reject_eq_ok.mp hsum)
    have hlater := Int.not_le.mp (reject_eq_ok.mp hlater)
    obtain ⟨hall, hlowest⟩ := foldlM_lowerExpiry_iff.mp hfold
    rw [foldl_signedExpiry hsum] at hlowest
    have hcast : (lowest.toNat : Int) = lowest :=
      Int.toNat_of_nonneg (Int.not_lt.mp (reject_eq_ok.mp hneg))
    refine ⟨items, hvalidity, ⟨hmaxFits, hdefaultFits, hsum, fun item hi => (hall item hi).1,
      fun item hi => (hall item hi).2, ?_, by omega⟩⟩
    rw [hcast, hlowest]
    exact isLeast_foldl _ items _
  · rintro ⟨items, hvalidity, hkeeps⟩
    have hlowest := hkeeps.least.unique
      (isLeast_foldl (fun item => item.deadline defaultTtl) items (now + maxTtl))
    have hlater := hkeeps.later
    refine bind_eq_ok.mpr ⟨items, hvalidity, ?_⟩
    refine bind_eq_ok.mpr ⟨_, require_eq_ok.mpr (if_pos hkeeps.defaultFits), ?_⟩
    refine bind_eq_ok.mpr ⟨_, require_eq_ok.mpr (if_pos hkeeps.maxFits), ?_⟩
    refine bind_eq_ok.mpr ⟨(), reject_eq_ok.mpr (Int.not_lt.mpr hkeeps.sumFits), ?_⟩
    refine bind_eq_ok.mpr ⟨(expiresAt : Int), foldlM_lowerExpiry_iff.mpr
      ⟨fun item hi => ⟨hkeeps.known item hi, hkeeps.past item hi⟩, ?_⟩, ?_⟩
    · rw [foldl_signedExpiry hkeeps.sumFits, hlowest]
    · refine bind_eq_ok.mpr ⟨(), reject_eq_ok.mpr (Int.not_le.mpr hlater), ?_⟩
      exact bind_eq_ok.mpr ⟨(), reject_eq_ok.mpr (Int.not_lt.mpr (Int.natCast_nonneg _)), rfl⟩

/-- Every SingleResponse of the body was produced by `now`, and none of them has
run out at `time`. -/
def Covers (chrono : Chrono) (defaultTtl : Nat) (response : List UInt8) (now time : Int) : Prop :=
  ∃ responses singles, Successful response responses ∧ Elements responses.value singles ∧
    ∀ single ∈ singles, ∃ status item, Single chrono single.value status item ∧
      item.thisUpdate.toInt ≤ now ∧ time < item.deadline defaultTtl

theorem responseCacheExpiry_covers {chrono : Chrono} {response : List UInt8} {time : Int}
    {expiresAt : Nat}
    (h : responseCacheExpiry chrono response now maxTtl defaultTtl = .ok expiresAt)
    (ht : time < expiresAt) : time < now + maxTtl ∧ Covers chrono defaultTtl response now time := by
  obtain ⟨items, hvalidity, hkeeps⟩ := responseCacheExpiry_iff.mp h
  obtain ⟨singles, responses, hsuccessful, helements, -, -, hmap⟩ := responseValidity_iff.mp hvalidity
  have hlower := hkeeps.least.2
  refine ⟨Int.lt_of_lt_of_le ht (hlower (Set.mem_insert _ _)), responses, singles, hsuccessful,
    helements, fun single hsingle => ?_⟩
  obtain ⟨item, hitem, hread⟩ := exists_of_mem_mapM hmap single hsingle
  obtain ⟨status, hfields⟩ := singleResponse_iff.mp hread
  exact ⟨status, item, hfields, hkeeps.past item hitem,
    Int.lt_of_lt_of_le ht (hlower (.inr ⟨item, hitem, rfl⟩))⟩

end Deadlines

section Statuses

variable {chrono : Chrono} {response : List UInt8}

theorem IsBasic.unique {basic responses responses' : Tlv} {behind behind' : List UInt8}
    (h : IsBasic basic responses behind) (h' : IsBasic basic responses' behind') :
    responses = responses' ∧ behind = behind' := by
  obtain ⟨data, _, _, _, helements, -, -, -, -, version, responderId, producedAt, hsplits, hversion, -,
    hchoice, -⟩ := h
  obtain ⟨data', _, _, _, helements', -, -, -, -, version', responderId', producedAt', hsplits',
    hversion', -, hchoice', -⟩ := h'
  cases helements.unique helements'
  -- no responderID is tagged like a version
  have hother : ∀ (rid v : Tlv) (fields fields' : List Tlv) (rest rest' : List UInt8),
      (rid.tag &&& 0x1f = 1 ∨ rid.tag &&& 0x1f = 2) → v.tag = 0xa0 →
      Splits data.value (rid :: fields) rest → ¬ Splits data.value (v :: fields') rest' := by
    rintro rid v fields fields' rest rest' hrid hv ⟨_, htake, -⟩ ⟨_, htake', -⟩
    cases htake.symm.trans htake'
    rw [hv] at hrid
    exact absurd hrid (by decide)
  obtain rfl | ⟨v, rfl, hv⟩ := hversion
  · obtain rfl | ⟨v', rfl, hv'⟩ := hversion'
    · obtain ⟨hfields, hrest⟩ := hsplits.unique hsplits' rfl
      cases hfields
      exact ⟨rfl, hrest⟩
    · exact absurd hsplits' (hother _ _ _ _ _ _ hchoice hv' hsplits)
  · obtain rfl | ⟨v', rfl, hv'⟩ := hversion'
    · exact absurd hsplits (hother _ _ _ _ _ _ hchoice' hv hsplits')
    · obtain ⟨hfields, hrest⟩ := hsplits.unique hsplits' rfl
      cases hfields
      exact ⟨rfl, hrest⟩

/-- There is one way to take a response apart. -/
theorem Layout.unique {responses responses' : Tlv}
    {afterBytes afterBytes' afterDer afterDer' behind behind' : List UInt8}
    (h : Layout response responses afterBytes afterDer behind)
    (h' : Layout response responses' afterBytes' afterDer' behind') :
    responses = responses' ∧ afterBytes = afterBytes' ∧ afterDer = afterDer' ∧ behind = behind' := by
  obtain ⟨outer, status, bytes, body, responseType, basicDer, basic, houter, -, hfields, -, -, -, hbody,
    -, hinner, -, -, -, hbasic, -, h⟩ := h
  obtain ⟨outer', status', bytes', body', responseType', basicDer', basic', houter', -, hfields', -, -,
    -, hbody', -, hinner', -, -, -, hbasic', -, h'⟩ := h'
  cases houter.unique houter'
  obtain ⟨heq, rfl⟩ := hfields.unique hfields' rfl
  cases heq
  cases hbody.unique hbody'
  obtain ⟨heq, rfl⟩ := hinner.unique hinner' rfl
  cases heq
  cases hbasic.unique hbasic'
  obtain ⟨rfl, rfl⟩ := h.unique h'
  exact ⟨rfl, rfl, rfl, rfl⟩

/-- The codes of a CRLReason. -/
def crlReasons : List UInt8 := [0, 1, 2, 3, 4, 5, 6, 8, 9, 10]

/-- The contents of a RevokedInfo: a time and an optional reason. -/
def IsRevokedInfo (chrono : Chrono) (info : List UInt8) : Prop :=
  ∃ revocationTime time reason, Elements info (revocationTime :: reason) ∧
    revocationTime.tag = 0x18 ∧ parseGeneralizedTime chrono revocationTime.value = .ok time ∧
    (reason = [] ∨ ∃ explicit code, reason = [explicit] ∧ explicit.tag = 0xa0 ∧
      Elements explicit.value [code] ∧ code.tag = 0x0a ∧ ∃ r ∈ crlReasons, code.value = [r])

/-- `good` is a NULL and `revoked` a RevokedInfo, each under its own tag. -/
def GoodOrRevoked (chrono : Chrono) (status : Tlv) : Prop :=
  (status.tag = 0x80 ∧ status.value = []) ∨
    (status.tag = 0xa1 ∧ IsRevokedInfo chrono status.value)

/-- A successful BasicOCSPResponse and nothing else, with at least one
SingleResponse, each of them `good` or `revoked`. -/
def IsGoodOrRevoked (chrono : Chrono) (response : List UInt8) : Prop :=
  ∃ responses behind extensions singles, Layout response responses [] [] behind ∧
    Elements behind extensions ∧ AtMostOne 0xa1 extensions ∧
    Elements responses.value singles ∧ singles ≠ [] ∧
    ∀ single ∈ singles, single.tag = 0x30 ∧
      ∃ status item, Single chrono single.value status item ∧ GoodOrRevoked chrono status

/-- Bytes where the reader does not look: behind the responseBytes, behind the
OCTET STRING in them or, unless they are responseExtensions, behind the responses. -/
def Overlong (response : List UInt8) : Prop :=
  ∃ responses afterBytes afterDer behind, Layout response responses afterBytes afterDer behind ∧
    (afterBytes ≠ [] ∨ afterDer ≠ [] ∨
      ¬ ∃ extensions, Elements behind extensions ∧ AtMostOne 0xa1 extensions)

/-- A context-specific tag other than those of the three choices. -/
def Undefined (tag : UInt8) : Prop :=
  tag &&& 0xc0 = 0x80 ∧ tag ≠ 0x80 ∧ tag ≠ 0xa1 ∧ tag ≠ certStatusUnknown

instance (tag : UInt8) : Decidable (Undefined tag) := inferInstanceAs (Decidable (_ ∧ _))

/-- The tag is that of no choice, or it is that of `good` or `revoked` and the
contents are not. -/
def Misencoded (chrono : Chrono) (status : Tlv) : Prop :=
  Undefined status.tag ∨ (status.tag = 0x80 ∧ status.value ≠ []) ∨
    (status.tag = 0xa1 ∧ ¬ IsRevokedInfo chrono status.value)

theorem not_goodOrRevoked_of_misencoded {status : Tlv} (h : Misencoded chrono status) :
    ¬ GoodOrRevoked chrono status := by
  rintro (⟨htag, hvalue⟩ | ⟨htag, hinfo⟩)
  · obtain hundefined | ⟨-, hne⟩ | ⟨htag', -⟩ := h
    · exact hundefined.2.1 htag
    · exact hne hvalue
    · exact absurd (htag.symm.trans htag') (by decide)
  · obtain hundefined | ⟨htag', -⟩ | ⟨-, hno⟩ := h
    · exact hundefined.2.2.1 htag
    · exact absurd (htag.symm.trans htag') (by decide)
    · exact hno hinfo

theorem goodOrRevoked_of_not_misencoded {status : Tlv} (hclass : status.tag &&& 0xc0 = 0x80)
    (hknown : status.tag ≠ certStatusUnknown) (h : ¬ Misencoded chrono status) :
    GoodOrRevoked chrono status := by
  obtain ⟨hdefined, h⟩ := not_or.mp h
  obtain ⟨hgood, hrevoked⟩ := not_or.mp h
  by_cases htag : status.tag = 0x80
  · exact .inl ⟨htag, Classical.byContradiction fun hne => hgood ⟨htag, hne⟩⟩
  · by_cases htag' : status.tag = 0xa1
    · exact .inr ⟨htag', Classical.byContradiction fun hno => hrevoked ⟨htag', hno⟩⟩
    · exact absurd ⟨hclass, htag, htag', hknown⟩ hdefined

theorem Single.unique {single : List UInt8} {status status' : Tlv} {item item' : ResponseValidity}
    (h : Single chrono single status item) (h' : Single chrono single status' item') :
    status = status' := by
  obtain ⟨_, _, _, _, helements, -⟩ := h
  obtain ⟨_, _, _, _, helements', -⟩ := h'
  exact (List.cons.inj (List.cons.inj (helements.unique helements')).2).1

theorem Decoded.exists_single {singles : List Tlv} {items : List ResponseValidity}
    (h : Decoded chrono response singles items) :
    ∀ single ∈ singles, ∃ item ∈ items, ∃ status, Single chrono single.value status item := by
  intro single hsingle
  obtain ⟨_, _, _, _, _, hmap⟩ := h
  obtain ⟨item, hitem, hread⟩ := exists_of_mem_mapM hmap single hsingle
  exact ⟨item, hitem, singleResponse_iff.mp hread⟩

/-- What keeps a response that is read from being good or revoked throughout. -/
theorem not_isGoodOrRevoked {singles : List Tlv} {items : List ResponseValidity}
    (h : Decoded chrono response singles items)
    (hbad : Overlong response ∨ ∃ single ∈ singles, ∃ status item,
      Single chrono single.value status item ∧ Misencoded chrono status) :
    ¬ IsGoodOrRevoked chrono response := by
  rintro ⟨responses, behind, extensions, singles', hlayout, hbehind, hmost, helements, -, hall⟩
  obtain ⟨responses', afterBytes, afterDer, behind', hlayout', hlong⟩ | ⟨single, hsingle, status, item,
    hfields, hmis⟩ := hbad
  · obtain ⟨-, rfl, rfl, rfl⟩ := hlayout.unique hlayout'
    obtain hne | hne | hno := hlong
    · exact hne rfl
    · exact hne rfl
    · exact hno ⟨extensions, hbehind, hmost⟩
  · obtain ⟨responses', ⟨_, _, _, hlayout'⟩, helements', -⟩ := h
    obtain ⟨rfl, -⟩ := hlayout.unique hlayout'
    cases helements.unique helements'
    obtain ⟨-, status', item', hfields', hgood⟩ := hall single hsingle
    cases hfields.unique hfields'
    exact not_goodOrRevoked_of_misencoded hmis hgood

/-- What may be kept is a good or revoked answer throughout, except where a
response that may be kept for its times has bytes the reader does not look at, or
a certStatus of an undefined choice or with the contents of none. -/
theorem kept_is_good_or_revoked_iff (chrono : Chrono) (response : List UInt8) (now : Int)
    (maxTtl defaultTtl : Nat) :
    (∀ expiresAt, responseCacheExpiry chrono response now maxTtl defaultTtl = .ok expiresAt →
      IsGoodOrRevoked chrono response) ↔
    ¬ ∃ singles items expiresAt, Decoded chrono response singles items ∧
      Keeps now maxTtl defaultTtl items expiresAt ∧
      (Overlong response ∨ ∃ single ∈ singles, ∃ status item,
        Single chrono single.value status item ∧ Misencoded chrono status) := by
  constructor
  · rintro h ⟨singles, items, expiresAt, hdecoded, hkeeps, hbad⟩
    have hok := responseCacheExpiry_iff.mpr
      ⟨items, responseValidity_iff.mpr ⟨singles, hdecoded⟩, hkeeps⟩
    exact not_isGoodOrRevoked hdecoded hbad (h expiresAt hok)
  · intro h expiresAt hok
    obtain ⟨items, hvalidity, hkeeps⟩ := responseCacheExpiry_iff.mp hok
    obtain ⟨singles, hdecoded⟩ := responseValidity_iff.mp hvalidity
    obtain ⟨hlong, hsingles⟩ := not_or.mp fun hbad =>
      h ⟨singles, items, expiresAt, hdecoded, hkeeps, hbad⟩
    obtain ⟨responses, ⟨afterBytes, afterDer, behind, hlayout⟩, helements, hne, htags, -⟩ := id hdecoded
    have hwhole : afterBytes = [] ∧ afterDer = [] ∧
        ∃ extensions, Elements behind extensions ∧ AtMostOne 0xa1 extensions := by
      by_contra hno
      refine hlong ⟨responses, afterBytes, afterDer, behind, hlayout, ?_⟩
      rwa [not_and_or, not_and_or] at hno
    obtain ⟨rfl, rfl, extensions, hbehind, hmost⟩ := hwhole
    refine ⟨responses, behind, extensions, singles, hlayout, hbehind, hmost, helements, hne,
      fun single hsingle => ⟨htags single hsingle, ?_⟩⟩
    obtain ⟨item, hitem, status, hfields⟩ := hdecoded.exists_single single hsingle
    obtain ⟨_, _, _, _, _, _, hclass, _, _, _, _, hunknown⟩ := id hfields
    have hknown : status.tag ≠ certStatusUnknown := by
      simpa [hunknown] using hkeeps.known item hitem
    exact ⟨status, item, hfields, goodOrRevoked_of_not_misencoded hclass hknown fun hmis =>
      hsingles ⟨single, hsingle, status, item, hfields, hmis⟩⟩

/-- 2026-01-01 00:00:00 UTC. -/
def newYear : List UInt8 :=
  [0x32, 0x30, 0x32, 0x36, 0x30, 0x31, 0x30, 0x31, 0x30, 0x30, 0x30, 0x30, 0x30, 0x30, 0x5a]

def newYearChrono : Chrono where
  parseNaive text format :=
    if text = "20260101000000Z" ∧ format = "%Y%m%d%H%M%SZ" then some 1767225600 else none
  parseZoned _ _ := none

/-- One SingleResponse, with `unknown` in the constructed form. -/
def constructedUnknown : List UInt8 :=
  [0x30, 0x00, 0xa2, 0x00, 0x18, 0x0f] ++ newYear

/-- A successful response that holds it. -/
def constructedUnknownResponse : List UInt8 :=
  [0x30, 0x49, 0x0a, 0x01, 0x00, 0xa0, 0x44, 0x30, 0x42, 0x06, 0x09] ++ oidOcspBasic ++
    [0x04, 0x35, 0x30, 0x33, 0x30, 0x2c, 0xa1, 0x00, 0x18, 0x0f] ++ newYear ++
    [0x30, 0x17, 0x30, 0x15] ++ constructedUnknown ++ [0x30, 0x00, 0x03, 0x01, 0x00]

theorem constructed_unknown_kept :
    ¬ ∀ (chrono : Chrono) (response : List UInt8) (now : Int) (maxTtl defaultTtl expiresAt : Nat),
      responseCacheExpiry chrono response now maxTtl defaultTtl = .ok expiresAt →
      IsGoodOrRevoked chrono response := by
  intro h
  have hok : responseCacheExpiry newYearChrono constructedUnknownResponse 1767225610 1000 3600 =
      .ok 1767226610 := by decide +kernel
  have hlist : singleResponses constructedUnknownResponse =
      .ok ([0x30, 0x15] ++ constructedUnknown) := by decide +kernel
  have hone : Elements ([0x30, 0x15] ++ constructedUnknown)
      [⟨0x30, constructedUnknown, [0x30, 0x15] ++ constructedUnknown⟩] :=
    elements_cons.mpr ⟨[], by decide +kernel, .nil⟩
  have hcertId : takeTlv constructedUnknown =
      .ok (⟨0x30, [], [0x30, 0x00]⟩, constructedUnknown.drop 2) := by decide +kernel
  have hstatus : takeTlv (constructedUnknown.drop 2) =
      .ok (⟨0xa2, [], [0xa2, 0x00]⟩, constructedUnknown.drop 4) := by decide +kernel
  obtain ⟨items, hvalidity, -⟩ := responseCacheExpiry_iff.mp hok
  obtain ⟨singles, hdecoded⟩ := responseValidity_iff.mp hvalidity
  refine not_isGoodOrRevoked hdecoded (.inr ?_) (h _ _ _ _ _ _ hok)
  obtain ⟨responses, hsuccessful, helements, -⟩ := id hdecoded
  have hvalue : responses.value = [0x30, 0x15] ++ constructedUnknown :=
    Except.ok.inj ((singleResponses_iff.mpr ⟨responses, hsuccessful, rfl⟩).symm.trans hlist)
  rw [hvalue] at helements
  cases hone.unique helements
  obtain ⟨item, -, status, hfields⟩ := hdecoded.exists_single _ (List.mem_singleton_self _)
  refine ⟨_, List.mem_singleton_self _, status, item, hfields, .inl ?_⟩
  obtain ⟨_, _, _, _, hbytes, -⟩ := hfields
  obtain ⟨_, hfirst, hbytes⟩ := elements_cons.mp hbytes
  obtain ⟨_, hsecond, -⟩ := elements_cons.mp hbytes
  cases hcertId.symm.trans hfirst
  cases hstatus.symm.trans hsecond
  decide

end Statuses

end Pccs.Ocsp
