import Mathlib.Data.Nat.Digits.Lemmas

/-!
# Definite-length elements

An element is a tag, the length of its contents and the contents. A length
below 128 is one octet, a longer one is the count of its octets and then the
octets, most significant first and without leading zeros. The contents of a
constructed element are elements again.
-/
namespace Pccs.Der

/-- The number written by octets, most significant first. -/
def value (bytes : List UInt8) : Nat := bytes.foldl (fun v b => v * 256 + b.toNat) 0

/-- The octets of a number, none of them a leading zero. -/
def octets (n : Nat) : List UInt8 := ((Nat.digits 256 n).map UInt8.ofNat).reverse

def lengthOctets (n : Nat) : List UInt8 :=
  if n < 128 then [UInt8.ofNat n] else UInt8.ofNat (128 + (octets n).length) :: octets n

def element (tag : UInt8) (content : List UInt8) : List UInt8 :=
  tag :: (lengthOctets content.length ++ content)

/-- A tag of one octet. -/
def OneByte (tag : UInt8) : Prop := tag &&& 0x1F ≠ 0x1F

instance (tag : UInt8) : Decidable (OneByte tag) := inferInstanceAs (Decidable (_ ≠ _))

section Octets

theorem value_append (bytes : List UInt8) (b : UInt8) :
    value (bytes ++ [b]) = value bytes * 256 + b.toNat := by
  rw [value, List.foldl_append]
  rfl

/-- The least significant octet is the first digit. -/
theorem value_eq_ofDigits (bytes : List UInt8) :
    value bytes = Nat.ofDigits 256 (bytes.reverse.map UInt8.toNat) := by
  induction bytes using List.reverseRecOn with
  | nil => rfl
  | append_singleton bytes b ih =>
    rw [value_append, ih, List.reverse_append, List.reverse_singleton, List.singleton_append,
      List.map_cons, Nat.ofDigits_cons]
    omega

theorem value_cons (b : UInt8) (bytes : List UInt8) :
    value (b :: bytes) = b.toNat * 256 ^ bytes.length + value bytes := by
  rw [value_eq_ofDigits, value_eq_ofDigits, List.reverse_cons, List.map_append, Nat.ofDigits_append,
    List.length_map, List.length_reverse, List.map_singleton, Nat.ofDigits_singleton, Nat.mul_comm,
    Nat.add_comm]

theorem value_octets (n : Nat) : value (octets n) = n := by
  have hbyte : ∀ d ∈ Nat.digits 256 n, (UInt8.ofNat d).toNat = d := fun d hd =>
    UInt8.toNat_ofNat_of_lt' (Nat.digits_lt_base (by decide) hd)
  have hdigits : ((Nat.digits 256 n).map UInt8.ofNat).map UInt8.toNat = Nat.digits 256 n := by
    rw [List.map_map]
    exact (List.map_congr_left hbyte).trans (List.map_id _)
  rw [value_eq_ofDigits, octets, List.reverse_reverse, hdigits, Nat.ofDigits_digits]

/-- Without a leading zero the octets are those of their number. -/
theorem octets_value {bytes : List UInt8} (h : ∀ b ∈ bytes.head?, b ≠ 0) :
    octets (value bytes) = bytes := by
  have hdigits : Nat.digits 256 (value bytes) = bytes.reverse.map UInt8.toNat := by
    rw [value_eq_ofDigits]
    refine Nat.digits_ofDigits 256 (by decide) _ (fun d hd => ?_) fun hne => ?_
    · obtain ⟨b, -, rfl⟩ := List.mem_map.mp hd
      exact b.toNat_lt
    · have hbytes : bytes ≠ [] := by
        rintro rfl
        exact hne rfl
      obtain ⟨b, rest, rfl⟩ := List.exists_cons_of_ne_nil hbytes
      simp only [List.reverse_cons, List.map_append, List.map_cons, List.map_nil,
        List.getLast_concat]
      exact fun hzero => h b rfl (UInt8.toNat_inj.mp hzero)
  rw [octets, hdigits, List.map_map, ← List.map_reverse, List.reverse_reverse]
  exact (List.map_congr_left fun b _ => UInt8.ofNat_toNat).trans (List.map_id _)

/-- Octets of one length are told apart by their number. -/
theorem value_inj {as bs : List UInt8} (hlen : as.length = bs.length) (h : value as = value bs) :
    as = bs := by
  have hbyte : ∀ l : List UInt8, ∀ d ∈ l.reverse.map UInt8.toNat, d < 256 := by
    intro l d hd
    obtain ⟨b, -, rfl⟩ := List.mem_map.mp hd
    exact b.toNat_lt
  rw [value_eq_ofDigits, value_eq_ofDigits] at h
  have hdigits := Nat.ofDigits_inj_of_len_eq (by decide) (by simpa using hlen) (hbyte as)
    (hbyte bs) h
  exact List.reverse_injective (List.map_injective_iff.mpr (fun _ _ => UInt8.toNat_inj.mp) hdigits)

theorem value_lt (bytes : List UInt8) : value bytes < 256 ^ bytes.length := by
  rw [value_eq_ofDigits]
  refine (Nat.ofDigits_lt_base_pow_length (by decide) fun d hd => ?_).trans_eq (by simp)
  obtain ⟨b, -, rfl⟩ := List.mem_map.mp hd
  exact b.toNat_lt

theorem length_octets_le {n k : Nat} (h : n < 256 ^ k) : (octets n).length ≤ k := by
  simpa [octets] using (Nat.digits_length_le_iff (by decide) n).mpr h

/-- The first octet is not zero. -/
theorem octets_cons {n : Nat} (h : n ≠ 0) : ∃ b bs, octets n = b :: bs ∧ b ≠ 0 := by
  have hne : Nat.digits 256 n ≠ [] := Nat.digits_ne_nil_iff_ne_zero.mpr h
  have hlast := Nat.getLast_digit_ne_zero 256 h
  have hlt := Nat.digits_lt_base (m := n) (by decide : 1 < 256) (List.getLast_mem hne)
  refine ⟨UInt8.ofNat ((Nat.digits 256 n).getLast hne),
    ((Nat.digits 256 n).dropLast.map UInt8.ofNat).reverse, ?_, ?_⟩
  · conv => lhs; rw [octets, ← List.dropLast_append_getLast hne]
    simp
  · intro hzero
    have hzero := congrArg UInt8.toNat hzero
    rw [UInt8.toNat_ofNat_of_lt' hlt] at hzero
    exact hlast hzero

theorem octets_pos {n : Nat} (h : n ≠ 0) : 0 < (octets n).length := by
  obtain ⟨b, bs, hoctets, -⟩ := octets_cons h
  simp [hoctets]

end Octets

section Lengths

/-- The one octet of a short length. -/
theorem short_octet : ∀ n < 128, UInt8.ofNat n < 0x80 ∧ UInt8.ofNat n &&& 0x80 = 0 ∧
    (UInt8.ofNat n).toNat = n := by decide

/-- The first octet of a long length. -/
theorem long_octet : ∀ k < 128, ¬ UInt8.ofNat (128 + k) < 0x80 ∧
    UInt8.ofNat (128 + k) &&& 0x80 ≠ 0 ∧ (UInt8.ofNat (128 + k) &&& 0x7F).toNat = k := by decide

theorem lengthOctets_short {n : Nat} (h : n < 128) : lengthOctets n = [UInt8.ofNat n] := if_pos h

theorem lengthOctets_long {n : Nat} (h : ¬ n < 128) :
    lengthOctets n = UInt8.ofNat (128 + (octets n).length) :: octets n := if_neg h

/-- A header takes at least two bytes. -/
theorem length_element (tag : UInt8) (content : List UInt8) :
    content.length + 2 ≤ (element tag content).length := by
  unfold element lengthOctets
  split
  · simp
  · simp

theorem element_ne_nil (tag : UInt8) (content : List UInt8) : element tag content ≠ [] := by
  simp [element]

end Lengths

section Integers

/-- The contents of a non-negative INTEGER: a leading zero keeps the sign bit
clear. -/
def integer (n : Nat) : List UInt8 :=
  match octets n with
  | [] => [0]
  | b :: bs => if b &&& 0x80 = 0 then b :: bs else 0 :: b :: bs

theorem sign_clear_iff (b : UInt8) : b &&& 0x80 = 0 ↔ b.toNat < 128 := by
  have key : ∀ n < 256, (UInt8.ofNat n &&& 0x80 = 0 ↔ n < 128) := by decide +kernel
  have hb := key b.toNat b.toNat_lt
  rwa [UInt8.ofNat_toNat] at hb

/-- The number that the contents of an INTEGER are in two's complement. -/
def signedValue : List UInt8 → Int
  | [] => 0
  | b :: bs => if b &&& 0x80 = 0 then value (b :: bs) else value (b :: bs) - 256 ^ (bs.length + 1)

theorem value_integer (n : Nat) : value (integer n) = n := by
  have hvalue := value_octets n
  unfold integer
  split
  · rename_i hnil
    rw [hnil] at hvalue
    exact hvalue
  · rename_i b bs hcons
    rw [hcons] at hvalue
    split
    · exact hvalue
    · simpa [value] using hvalue

theorem integer_cons (n : Nat) : ∃ b bs, integer n = b :: bs ∧ b &&& 0x80 = 0 := by
  unfold integer
  split
  · exact ⟨0, [], rfl, by decide⟩
  · rename_i b bs _
    split
    · exact ⟨b, bs, rfl, ‹_›⟩
    · exact ⟨0, b :: bs, rfl, by decide⟩

theorem length_integer_le {n k : Nat} (h : n < 256 ^ k) : (integer n).length ≤ k + 1 := by
  have hoctets := length_octets_le h
  unfold integer
  split
  · simp
  · rename_i b bs hcons
    rw [hcons] at hoctets
    split
    · omega
    · simpa using hoctets

end Integers

section Nodes

abbrev PrimitiveTag : Type := { t : UInt8 // OneByte t ∧ t &&& 0x20 = 0 }

abbrev ConstructedTag : Type := { t : UInt8 // OneByte t ∧ t &&& 0x20 ≠ 0 }

/-- The first octet of a tag of several octets. -/
abbrev HighTag : Type := { t : UInt8 // ¬ OneByte t }

def integerTag : PrimitiveTag := ⟨0x02, by decide⟩

def bitString : PrimitiveTag := ⟨0x03, by decide⟩

def octetString : PrimitiveTag := ⟨0x04, by decide⟩

def objectId : PrimitiveTag := ⟨0x06, by decide⟩

def sequenceTag : ConstructedTag := ⟨0x30, by decide⟩

/-- A value as a tree. The contents behind a tag of several octets are not
structured here. -/
inductive Node where
  | primitive (tag : PrimitiveTag) (content : List UInt8)
  | constructed (tag : ConstructedTag) (children : List Node)
  | high (first : HighTag) (more content : List UInt8)

mutual

def Node.encode : Node → List UInt8
  | .primitive tag content => element tag.1 content
  | .constructed tag children => element tag.1 (encodeAll children)
  | .high first more content => first.1 :: (more ++ (lengthOctets content.length ++ content))

def encodeAll : List Node → List UInt8
  | [] => []
  | n :: ns => n.encode ++ encodeAll ns

end

/-- The elements of a list up to the first tag of several octets. -/
def readable : List Node → List (UInt8 × List UInt8)
  | [] => []
  | .primitive tag content :: ns => (tag.1, content) :: readable ns
  | .constructed tag children :: ns => (tag.1, encodeAll children) :: readable ns
  | .high .. :: _ => []

/-- The first of these nodes is the OBJECT IDENTIFIER. -/
def StartsWith (oid : List UInt8) (children : List Node) : Prop :=
  ∃ rest, children = .primitive objectId oid :: rest

mutual

/-- No SEQUENCE in the tree starts with the OBJECT IDENTIFIER. -/
def Node.Silent (oid : List UInt8) : Node → Prop
  | .primitive .. => True
  | .constructed tag children =>
    (tag = sequenceTag → ¬ StartsWith oid children) ∧ AllSilent oid children
  | .high .. => True

def AllSilent (oid : List UInt8) : List Node → Prop
  | [] => True
  | n :: ns => n.Silent oid ∧ AllSilent oid ns

end

@[simp] theorem encodeAll_nil : encodeAll [] = [] := rfl

@[simp] theorem encodeAll_cons (n : Node) (ns : List Node) :
    encodeAll (n :: ns) = n.encode ++ encodeAll ns := rfl

theorem encodeAll_append (ms ns : List Node) :
    encodeAll (ms ++ ns) = encodeAll ms ++ encodeAll ns := by
  induction ms with
  | nil => rfl
  | cons m ms ih => rw [List.cons_append, encodeAll_cons, ih, encodeAll_cons, List.append_assoc]

theorem allSilent_iff {oid : List UInt8} {ns : List Node} :
    AllSilent oid ns ↔ ∀ n ∈ ns, n.Silent oid := by
  induction ns with
  | nil => simp [AllSilent]
  | cons n ns ih => simp [AllSilent, ih]

theorem length_encode_le {n : Node} {ns : List Node} (h : n ∈ ns) :
    n.encode.length ≤ (encodeAll ns).length := by
  induction ns with
  | nil => cases h
  | cons m ns ih =>
    rw [encodeAll_cons, List.length_append]
    obtain rfl | h := List.mem_cons.mp h
    · omega
    · have hle := ih h
      omega

end Nodes

end Pccs.Der
