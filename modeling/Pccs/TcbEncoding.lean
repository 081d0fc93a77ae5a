import Pccs.Cache
import Pccs.CertWriter
import Pccs.Checked
import Pccs.Der
import Pccs.LossyText

/-!
# The encodings of a TCB level

The sixteen components of a level stand in TCB info as an array or as numbered
members, and everywhere else as 32 hex digits; the PCESVN behind them is written
with its lowest byte first. All of these name the same seventeen numbers.
-/
namespace Pccs.Selection

open Text Encoding Checked PckCert

section Slices

/-- The loop of `Tcb::new` over the components `indices`: the outer `none` is a
slice out of bounds, the inner one a component that is no number. -/
def readComponents (bytes : List UInt8) : List Nat → Option (Option (List UInt32))
  | [] => some (some [])
  | i :: indices =>
    match strSlice bytes (i * 2) (i * 2 + 2) with
    | none => none
    | some digits =>
      match fromStrRadix 8 digits with
      | none => some none
      | some n => (readComponents bytes indices).map (Option.map (UInt32.ofNat n :: ·))

/-- `Tcb::new`, slice by slice. -/
def Tcb.newSliced (cpusvn : String) (pcesvn : UInt32) : Option (Except String Tcb) :=
  if byteLen cpusvn ≠ cpusvnHexLen then
    some (.error ("Invalid CPUSVN length: " ++ toString (byteLen cpusvn)))
  else if (asBytes cpusvn).all (fun b => (hexValue b).isSome) = false then
    some (.error ("Invalid CPUSVN format: " ++ cpusvn))
  else
    match readComponents (asBytes cpusvn) (List.range 16) with
    | none => none
    | some none => some (.error ("Invalid CPUSVN format: " ++ cpusvn))
    | some (some components) =>
      if h : components.length = 16 then
        some (.ok ⟨toAsciiUppercase cpusvn, pcesvn, ⟨(components ++ [pcesvn]).toArray, by simp [h]⟩⟩)
      else none

/-- `chunks(2)`. -/
def chunks : List UInt8 → List (List UInt8)
  | a :: b :: rest => [a, b] :: chunks rest
  | [a] => [[a]]
  | [] => []

/-- `std::str::from_utf8(c).unwrap_or("00")`. -/
def chunkText (chunk : List UInt8) : List UInt8 :=
  match Cache.fromUtf8 chunk with
  | some text => asBytes text
  | none => [48, 48]

/-- `little_endian_hex_to_int`, through the big-endian text. -/
def littleEndianHexChunks (leHex : String) : Option UInt32 :=
  let bytes := asBytes leHex
  if bytes = [] ∨ bytes.length % 2 ≠ 0 ∨ bytes.length > 8 then none
  else if bytes.all (fun b => (hexValue b).isSome) = false then none
  else (fromStrRadix 32 ((chunks bytes).reverse.flatMap chunkText)).map UInt32.ofNat

theorem hexDecode_of_digits {bytes : List UInt8} (heven : bytes.length % 2 = 0)
    (hhex : ∀ b ∈ bytes, (hexValue b).isSome = true) : ∃ out, hexDecode bytes = some out := by
  induction bytes using hexDecode.induct with
  | case1 => exact ⟨[], rfl⟩
  | case2 a => simp at heven
  | case3 hi lo rest ih =>
    simp only [List.mem_cons, forall_eq_or_imp] at hhex
    obtain ⟨hhi, hlo, hrest⟩ := hhex
    obtain ⟨x, hx⟩ := Option.isSome_iff_exists.mp hhi
    obtain ⟨y, hy⟩ := Option.isSome_iff_exists.mp hlo
    simp only [List.length_cons] at heven
    obtain ⟨out, hout⟩ := ih (by omega) hrest
    exact ⟨(x * 16 + y) :: out, by simp [hexDecode, hx, hy, hout]⟩

theorem hexDecode_of_not_all {bytes : List UInt8}
    (h : bytes.all (fun b => (hexValue b).isSome) = false) : hexDecode bytes = none := by
  by_contra hsome
  obtain ⟨out, hout⟩ := Option.ne_none_iff_exists'.mp hsome
  rw [List.all_eq_true.mpr (hexDecode_digits hout)] at h
  cases h

theorem hexDecode_of_all {bytes : List UInt8} (heven : bytes.length % 2 = 0)
    (h : ¬ bytes.all (fun b => (hexValue b).isSome) = false) : ∃ out, hexDecode bytes = some out :=
  hexDecode_of_digits heven (List.all_eq_true.mp (Bool.not_eq_false _ ▸ h))

theorem hexByte_toNat {hi lo x y : UInt8} (hx : hexValue hi = some x) (hy : hexValue lo = some y) :
    (x * 16 + y).toNat = x.toNat * 16 + y.toNat := by
  have hx := hexValue_lt hx
  have hy := hexValue_lt hy
  rw [UInt8.toNat_add, UInt8.toNat_mul]
  simp only [UInt8.reduceToNat]
  omega

/-- Hex digits and the bytes they spell are one number. -/
theorem hexNumber_eq {digits out : List UInt8} (h : hexDecode digits = some out) :
    hexNumber digits = bigEndian out := by
  have hfold : ∀ n, digits.foldl (fun n d => n * 16 + ((hexValue d).getD 0).toNat) n =
      out.foldl (fun v b => v * 256 + b.toNat) n := by
    induction digits using hexDecode.induct generalizing out with
    | case1 => cases h; exact fun _ => rfl
    | case2 => cases h
    | case3 hi lo rest ih =>
      simp only [hexDecode, bind, Option.bind_eq_some_iff, pure, Option.some.injEq] at h
      obtain ⟨x, hx, y, hy, tail, htail, rfl⟩ := h
      intro n
      simp only [List.foldl_cons, hx, hy, Option.getD_some, ih htail, hexByte_toNat hx hy]
      congr 1
      omega
  exact hfold 0

theorem hexDecode_append {xs ys a b : List UInt8} (hx : hexDecode xs = some a)
    (hy : hexDecode ys = some b) : hexDecode (xs ++ ys) = some (a ++ b) := by
  induction xs using hexDecode.induct generalizing a with
  | case1 => cases hx; exact hy
  | case2 => cases hx
  | case3 hi lo rest ih =>
    simp only [hexDecode, bind, Option.bind_eq_some_iff, pure, Option.some.injEq] at hx
    obtain ⟨x, hx, y, hy', tail, htail, rfl⟩ := hx
    simp [hexDecode, hx, hy', ih htail]

theorem hexDigit_ascii {b : UInt8} (h : (hexValue b).isSome = true) : b.toNat < 128 := by
  have key : ∀ i : Fin 256, (hexValue (UInt8.ofFin i)).isSome = true →
      (UInt8.ofFin i).toNat < 128 := by decide +kernel
  exact key b.toFin h

/-- Digits are their own text. -/
theorem chunkText_digits {chunk : List UInt8} (h : ∀ b ∈ chunk, (hexValue b).isSome = true) :
    chunkText chunk = chunk := by
  have hchars : chunk = (chunk.map fun b => Char.ofNat b.toNat).flatMap String.utf8EncodeChar := by
    induction chunk with
    | nil => rfl
    | cons b rest ih =>
      obtain ⟨hb, hrest⟩ := List.forall_mem_cons.mp h
      have hlt := hexDigit_ascii hb
      have hnat : (Char.ofNat b.toNat).toNat = b.toNat := toNat_ofNat (.inl (by omega))
      rw [List.map_cons, List.flatMap_cons, ← ih hrest, utf8EncodeChar_ascii (by omega), hnat,
        UInt8.ofNat_toNat]
      rfl
  have htext : asBytes (fromUtf8Lossy chunk) = chunk := by
    rw [fromUtf8Lossy, asBytes_eq, String.toList_ofList]
    conv => lhs; rw [hchars, utf8Lossy_encoded]
    exact hchars.symm
  rw [chunkText, Cache.fromUtf8]
  simp only [htext, if_true]

/-- Reversing the chunks reverses the bytes. -/
theorem hexDecode_chunks {digits out : List UInt8} (h : hexDecode digits = some out) :
    hexDecode ((chunks digits).reverse.flatMap chunkText) = some out.reverse := by
  induction digits using hexDecode.induct generalizing out with
  | case1 => cases h; rfl
  | case2 => cases h
  | case3 hi lo rest ih =>
    have hdigits := hexDecode_digits h
    simp only [hexDecode, bind, Option.bind_eq_some_iff, pure, Option.some.injEq] at h
    obtain ⟨x, hx, y, hy, tail, htail, rfl⟩ := h
    have hchunk : chunkText [hi, lo] = [hi, lo] :=
      chunkText_digits fun b hb => hdigits b (by simp only [List.mem_cons] at hb ⊢; tauto)
    rw [chunks, List.reverse_cons, List.flatMap_append, List.reverse_cons]
    refine hexDecode_append (ih htail) ?_
    simp [hchunk, hexDecode, hx, hy]

/-- On hex digits every position is between two characters. -/
theorem charBoundary_digits {bytes : List UInt8} (h : ∀ b ∈ bytes, (hexValue b).isSome = true)
    {i : Nat} (hi : i ≤ bytes.length) : charBoundary bytes i = true := by
  unfold charBoundary
  split
  · rfl
  · split
    · rename_i b hb
      have hlt := hexDigit_ascii (h b (List.mem_of_getElem? hb))
      simp only [isCont, UInt8.le_iff_toNat_le, UInt8.reduceToNat, Bool.not_eq_true',
        Bool.and_eq_false_iff, decide_eq_false_iff_not]
      omega
    · rename_i hnone
      have := List.getElem?_eq_none_iff.mp hnone
      simpa using (show i = bytes.length by omega)

theorem hexDecode_pair {bytes out : List UInt8} (h : hexDecode bytes = some out) {i : Nat}
    (hi : i < out.length) : ∃ hi' lo, bytes[i * 2]? = some hi' ∧ bytes[i * 2 + 1]? = some lo ∧
      hexDecode [hi', lo] = some [out[i]] := by
  induction bytes using hexDecode.induct generalizing out i with
  | case1 => cases h; simp at hi
  | case2 => cases h
  | case3 a b rest ih =>
    simp only [hexDecode, bind, Option.bind_eq_some_iff, pure, Option.some.injEq] at h
    obtain ⟨x, hx, y, hy, tail, htail, rfl⟩ := h
    cases i with
    | zero => exact ⟨a, b, rfl, rfl, by simp [hexDecode, hx, hy]⟩
    | succ i =>
      obtain ⟨hi', lo, hhi, hlo, hpair⟩ := ih htail (by simpa using hi)
      rw [show (i + 1) * 2 = i * 2 + 2 by omega]
      exact ⟨hi', lo, hhi, hlo, hpair⟩

theorem readComponents_eq {bytes out : List UInt8} (h : hexDecode bytes = some out) (n i : Nat)
    (hlen : i + n = out.length) :
    readComponents bytes (List.range' i n) = some (some ((out.drop i).map UInt8.toUInt32)) := by
  have hdigits := hexDecode_digits h
  have hbytes := hexDecode_length h
  induction n generalizing i with
  | zero => simp [readComponents, show out.length ≤ i by omega]
  | succ n ih =>
    have hi : i < out.length := by omega
    obtain ⟨hi', lo, hhi, hlo, hpair⟩ := hexDecode_pair h hi
    obtain ⟨hlt, hhi⟩ := List.getElem?_eq_some_iff.mp hhi
    obtain ⟨hlt', hlo⟩ := List.getElem?_eq_some_iff.mp hlo
    have hslice : strSlice bytes (i * 2) (i * 2 + 2) = some [hi', lo] := by
      rw [strSlice, charBoundary_digits hdigits (show i * 2 ≤ bytes.length by omega),
        charBoundary_digits hdigits (show i * 2 + 2 ≤ bytes.length by omega), slice_two hlt', hhi,
        hlo]
      rfl
    have hvalue : fromStrRadix 8 [hi', lo] = some out[i].toNat := by
      rw [fromStrRadix_of_fits (by simp) (hexDecode_digits hpair) (Nat.le_refl _), hexNumber_eq hpair]
      simp [bigEndian]
    have hword : UInt32.ofNat out[i].toNat = out[i].toUInt32 := UInt32.ofNat_uInt8ToNat _
    rw [List.range'_succ, readComponents, hslice]
    simp only [hvalue, ih (i + 1) (by omega), Option.map_some, hword,
      List.drop_eq_getElem_cons hi, List.map_cons]

/-- No slice of `Tcb::new` leaves its text, and it reads what the decoder reads. -/
theorem newSliced_eq (cpusvn : String) (pcesvn : UInt32) :
    Tcb.newSliced cpusvn pcesvn = some (Tcb.new cpusvn pcesvn) := by
  unfold Tcb.newSliced Tcb.new
  split
  · rfl
  rename_i hlen
  have hlen : (asBytes cpusvn).length = 32 := by
    simpa [byteLen, cpusvnHexLen] using hlen
  split
  · rename_i hno
    rw [hexDecode_of_not_all hno]
  · rename_i hall
    obtain ⟨out, hout⟩ := hexDecode_of_all (by omega) hall
    have hbytes := hexDecode_length hout
    have hread := readComponents_eq hout 16 0 (by omega)
    rw [← List.range_eq_range', List.drop_zero] at hread
    simp only [hread, hout, List.length_map, show out.length = 16 by omega, dif_pos]

theorem littleEndianHexChunks_eq (leHex : String) :
    littleEndianHexChunks leHex = littleEndianHexToInt leHex := by
  have hempty : asBytes leHex = [] ↔ leHex = "" := by
    rw [← asBytes_inj]
    rfl
  unfold littleEndianHexChunks littleEndianHexToInt
  by_cases hshape : leHex = "" ∨ byteLen leHex % 2 ≠ 0 ∨ byteLen leHex > 8
  · rw [if_pos hshape]
    exact if_pos (by rw [hempty]; exact hshape)
  have hshape' : ¬ (asBytes leHex = [] ∨ (asBytes leHex).length % 2 ≠ 0 ∨
      (asBytes leHex).length > 8) := by
    rw [hempty]
    exact hshape
  rw [if_neg hshape]
  refine (if_neg hshape').trans ?_
  split
  · rename_i hno
    rw [hexDecode_of_not_all hno]
    rfl
  · rename_i hall
    obtain ⟨out, hout⟩ := hexDecode_of_all (by omega) hall
    have hchunks := hexDecode_chunks hout
    have hlen := hexDecode_length hchunks
    have hbytes := hexDecode_length hout
    rw [List.length_reverse] at hlen
    have hpos := List.length_pos_of_ne_nil fun hnil => hshape' (.inl hnil)
    have hread := @fromStrRadix_of_fits 32 _
      (List.ne_nil_of_length_pos (by omega)) (hexDecode_digits hchunks) (by
        rw [show 2 ^ 32 = 16 ^ 8 from rfl]
        exact Nat.pow_le_pow_right (by decide) (by omega))
    rw [hread, hexNumber_eq hchunks, hout]
    rfl

end Slices

section Levels

variable {tcb : Json.Value} {c : Vector UInt8 16} {pcesvn : UInt32}

/-- The member with the number of a component, from 1 on. -/
def componentKey (i : Nat) : String := "sgxtcbcomp" ++ twoDigits i ++ "svn"

/-- A component as a byte. -/
def componentByte (v : Option Json.Value) : Option UInt8 := do
  let svn ← v.bind Json.Value.asU64
  if svn > 255 then none else return svn.toUInt8

def componentArray (tcb : Json.Value) : Option (List Json.Value) :=
  (tcb.get "sgxtcbcomponents").bind Json.Value.asArray

/-- The level holds these components as an array. -/
def ArrayForm (tcb : Json.Value) (c : Vector UInt8 16) : Prop :=
  ∃ items, componentArray tcb = some items ∧
    items.map (fun item => componentByte (item.get "svn")) = c.toList.map some

/-- The level holds these components as numbered members. -/
def ScalarForm (tcb : Json.Value) (c : Vector UInt8 16) : Prop :=
  (List.range' 1 16).map (fun i => componentByte (tcb.get (componentKey i))) = c.toList.map some

theorem twoUpperHex_eq (b : UInt8) : twoUpperHex b.toNat = hexEncodeUpper [b] := by
  simp [twoUpperHex, hexEncodeUpper]

theorem componentHex_eq (v : Option Json.Value) :
    componentHex v = (componentByte v).map fun b => hexEncodeUpper [b] := by
  unfold componentHex componentByte
  cases v.bind Json.Value.asU64 with
  | none => rfl
  | some svn =>
    simp only [Option.bind_eq_bind, Option.bind_some]
    split
    · rfl
    · rename_i hle
      have hnat : svn.toUInt8.toNat = svn.toNat := by
        have hle : ¬ 255 < svn.toNat := by simpa [UInt64.lt_iff_toNat_lt] using hle
        rw [UInt64.toNat_toUInt8]
        omega
      rw [Option.pure_def, Option.pure_def, Option.map_some, ← twoUpperHex_eq, hnat]

theorem mapM_of_all_some {α β : Type} {f : α → Option β} {l : List α} {out : List β}
    (h : l.map f = out.map some) : l.mapM f = some out := by
  induction l generalizing out with
  | nil =>
    cases out with
    | nil => rfl
    | cons b out => simp at h
  | cons a l ih =>
    cases out with
    | nil => simp at h
    | cons b out =>
      simp only [List.map_cons, List.cons.injEq] at h
      simp [h.1, ih h.2]

theorem mapM_of_none {α β : Type} {f : α → Option β} {l : List α} {a : α} (hmem : a ∈ l)
    (h : f a = none) : l.mapM f = none := by
  induction l with
  | nil => cases hmem
  | cons b l ih =>
    rw [List.mapM_cons]
    rcases List.mem_cons.mp hmem with rfl | hmem
    · rw [h]
      rfl
    · rw [ih hmem]
      cases f b <;> rfl

/-- Two digits a component, in their order. -/
theorem join_hex (bytes : List UInt8) :
    String.join (bytes.map fun b => hexEncodeUpper [b]) = hexEncodeUpper bytes := by
  rw [← String.toList_inj]
  simp [hexEncodeUpper, List.flatMap_map]

/-- Readable components are written one behind the other. -/
theorem join_components {α : Type} {f : α → Option Json.Value} {l : List α}
    (h : l.map (fun a => componentByte (f a)) = c.toList.map some) :
    (l.mapM fun a => componentHex (f a)).map String.join = some (hexEncodeUpper c.toList) := by
  have hmap : l.map (fun a => componentHex (f a)) =
      (c.toList.map fun b => hexEncodeUpper [b]).map some := by
    have hhex := congrArg (List.map (Option.map fun b => hexEncodeUpper [b])) h
    simpa [List.map_map, Function.comp_def, componentHex_eq] using hhex
  rw [mapM_of_all_some hmap, Option.map_some, join_hex]

theorem length_of_map_some {α : Type} {l : List α} {f : α → Option UInt8}
    (h : l.map f = c.toList.map some) : l.length = 16 := by
  simpa using congrArg List.length h

theorem levelCpusvn_array (h : ArrayForm tcb c) :
    levelCpusvn tcb = some (hexEncodeUpper c.toList) := by
  obtain ⟨items, hitems, hbytes⟩ := h
  have hlen := length_of_map_some hbytes
  unfold levelCpusvn
  rw [show (tcb.get "sgxtcbcomponents").bind Json.Value.asArray = some items from hitems]
  simp only [hlen, ne_eq, not_true, if_false]
  exact join_components hbytes

theorem rawCpusvn_scalar (h : ScalarForm tcb c) :
    Cache.rawCpusvnFromTcb tcb = some (hexEncodeUpper c.toList) :=
  join_components h

/-- Without a component array both readers look at the numbered members. -/
theorem levelCpusvn_scalar (hno : componentArray tcb = none) :
    levelCpusvn tcb = Cache.rawCpusvnFromTcb tcb := by
  unfold levelCpusvn
  rw [show (tcb.get "sgxtcbcomponents").bind Json.Value.asArray = none from hno]
  rfl

theorem levelCpusvn_none {items : List Json.Value} (hitems : componentArray tcb = some items)
    (h : items.length ≠ 16 ∨ ∃ item ∈ items, componentByte (item.get "svn") = none) :
    levelCpusvn tcb = none := by
  unfold levelCpusvn
  rw [show (tcb.get "sgxtcbcomponents").bind Json.Value.asArray = some items from hitems]
  by_cases hlen : items.length = 16
  · obtain ⟨item, hmem, hitem⟩ := h.resolve_left (not_not_intro hlen)
    have hnone : (items.mapM fun c => componentHex (c.get "svn")) = none :=
      mapM_of_none hmem (by rw [componentHex_eq, hitem]; rfl)
    simp only [hlen, ne_eq, not_true, if_false, hnone, Option.map_none]
  · simp only [ne_eq, hlen, not_false_eq_true, if_true]

theorem rawCpusvn_none {i : Nat} (hi : i ∈ List.range' 1 16)
    (h : componentByte (tcb.get (componentKey i)) = none) : Cache.rawCpusvnFromTcb tcb = none := by
  have hnone : ((List.range' 1 16).mapM fun i => componentHex (tcb.get (componentKey i))) = none :=
    mapM_of_none hi (by rw [componentHex_eq, h]; rfl)
  exact congrArg (Option.map String.join) hnone

theorem hexDecode_of_uppercase {s : String} {bytes : List UInt8}
    (h : toAsciiUppercase s = hexEncodeUpper bytes) : hexDecode (asBytes s) = some bytes := by
  rw [← hexDecode_uppercase, h, hexDecode_hexEncodeUpper]

/-- In either letter case the text gives its bytes back. -/
theorem new_components {s : String} (h : toAsciiUppercase s = hexEncodeUpper c.toList) :
    ∃ t, Tcb.new s pcesvn = .ok t ∧
      t.components.toList = c.toList.map UInt8.toUInt32 ++ [pcesvn] := by
  have hbytes := hexDecode_of_uppercase h
  have hlen : byteLen s = cpusvnHexLen := by
    rw [byteLen, hexDecode_length hbytes]
    simp [cpusvnHexLen]
  unfold Tcb.new
  rw [if_neg (not_not_intro hlen), hbytes]
  simp

/-- The lowest byte comes first. -/
theorem littleEndianHexToInt_eq {h : String} {bytes : List UInt8}
    (hbytes : hexDecode (asBytes h) = some bytes) (hpos : 1 ≤ bytes.length)
    (hle : bytes.length ≤ 4) :
    ∃ n, littleEndianHexToInt h = some n ∧ n.toNat = Nat.ofDigits 256 (bytes.map UInt8.toNat) := by
  have hlen := hexDecode_length hbytes
  have hne : h ≠ "" := by
    rintro rfl
    have hnil : (asBytes "").length = 0 := rfl
    omega
  have hshape : ¬ (h = "" ∨ byteLen h % 2 ≠ 0 ∨ byteLen h > 8) := by
    simp only [hne, false_or, byteLen]
    omega
  have hvalue : bigEndian bytes.reverse = Nat.ofDigits 256 (bytes.map UInt8.toNat) := by
    have hdigits := Der.value_eq_ofDigits bytes.reverse
    rw [List.reverse_reverse] at hdigits
    exact hdigits
  have hlt : bigEndian bytes.reverse < 2 ^ 32 := by
    refine Nat.lt_of_lt_of_le (Der.value_lt bytes.reverse) ?_
    rw [List.length_reverse]
    exact Nat.pow_le_pow_right (n := 256) (by decide) hle
  refine ⟨_, by rw [littleEndianHexToInt, if_neg hshape, hbytes]; rfl, ?_⟩
  rw [UInt32.toNat_ofNat_of_lt' hlt, hvalue]

/-- Any other text is refused. -/
theorem littleEndianHexToInt_none {h : String}
    (hno : ¬ ∃ bytes, hexDecode (asBytes h) = some bytes ∧ 1 ≤ bytes.length ∧ bytes.length ≤ 4) :
    littleEndianHexToInt h = none := by
  unfold littleEndianHexToInt
  split
  · rfl
  · rename_i hshape
    rw [Option.map_eq_none_iff]
    by_contra hsome
    obtain ⟨bytes, hbytes⟩ := Option.ne_none_iff_exists'.mp hsome
    have hlen := hexDecode_length hbytes
    simp only [not_or, byteLen] at hshape
    refine hno ⟨bytes, hbytes, ?_, by omega⟩
    by_contra hzero
    have hnil : asBytes h = asBytes "" := List.length_eq_zero_iff.mp (by omega)
    exact hshape.1 (asBytes_inj.mp hnil)

theorem fromHex_components {s h : String} {bytes : List UInt8}
    (hs : toAsciiUppercase s = hexEncodeUpper c.toList)
    (hh : toAsciiUppercase h = hexEncodeUpper bytes) (hpos : 1 ≤ bytes.length)
    (hle : bytes.length ≤ 4) (hvalue : Nat.ofDigits 256 (bytes.map UInt8.toNat) = pcesvn.toNat) :
    ∃ t, Tcb.fromHex s h = .ok t ∧
      t.components.toList = c.toList.map UInt8.toUInt32 ++ [pcesvn] := by
  obtain ⟨n, hn, hnat⟩ := littleEndianHexToInt_eq (hexDecode_of_uppercase hh) hpos hle
  obtain rfl : n = pcesvn := UInt32.toNat_inj.mp (hnat.trans hvalue)
  rw [Tcb.fromHex, hn]
  exact new_components hs

end Levels

section Order

variable {a b : Tcb}

theorem le_antisymm (hab : Tcb.Le a b) (hba : Tcb.Le b a) : a.components = b.components := by
  apply Vector.ext
  intro i hi
  exact UInt32.le_antisymm (hab ⟨i, hi⟩) (hba ⟨i, hi⟩)

theorem le_of_eq (h : a.components = b.components) : Tcb.Le a b := by
  intro i
  rw [h]
  exact UInt32.le_refl _

/-- The four answers of the comparison. -/
theorem compare_cases (a b : Tcb) :
    (a.compare b = .ok 0 ↔ a.components = b.components) ∧
    (a.compare b = .ok (-1) ↔ Tcb.Le a b ∧ a.components ≠ b.components) ∧
    (a.compare b = .ok 1 ↔ Tcb.Le b a ∧ a.components ≠ b.components) ∧
    (a.compare b = .error ⟨⟩ ↔ ¬ Tcb.Le a b ∧ ¬ Tcb.Le b a) := by
  have hba := Tcb.lower_eq_false (a := a) (b := b)
  have hab := Tcb.lower_eq_false (a := b) (b := a)
  unfold Tcb.compare
  cases hl : a.lower b with
  | false =>
    have hba := hba.mp hl
    cases hr : b.lower a with
    | false =>
      have heq := le_antisymm (hab.mp hr) hba
      simp [heq, hba, hab.mp hr]
    | true =>
      have hnot : ¬ Tcb.Le a b := fun hle => by simp [hab.mpr hle] at hr
      have hne : a.components ≠ b.components := fun heq => hnot (le_of_eq heq)
      simp [hnot, hne, hba]
  | true =>
    have hnot : ¬ Tcb.Le b a := fun hle => by simp [hba.mpr hle] at hl
    have hne : a.components ≠ b.components := fun heq => hnot (le_of_eq heq.symm)
    cases hr : b.lower a with
    | false => simp [hne, hab.mp hr, hnot]
    | true =>
      have hnot' : ¬ Tcb.Le a b := fun hle => by simp [hab.mpr hle] at hr
      simp [hne, hnot, hnot']

/-- One vector behind all the texts of a level. A text in either letter case is
one with that upper-case text, and the PCESVN may be padded to up to four bytes. -/
theorem tcb_encodings (c : Vector UInt8 16) (pcesvn : UInt32) :
    (hexEncodeUpper c.toList).toList.length = 32 ∧
    (∀ tcb, ArrayForm tcb c → levelCpusvn tcb = some (hexEncodeUpper c.toList)) ∧
    (∀ tcb, ScalarForm tcb c → Cache.rawCpusvnFromTcb tcb = some (hexEncodeUpper c.toList) ∧
      (componentArray tcb = none → levelCpusvn tcb = some (hexEncodeUpper c.toList))) ∧
    (∀ s, toAsciiUppercase s = hexEncodeUpper c.toList → ∃ t, Tcb.new s pcesvn = .ok t ∧
      t.components.toList = c.toList.map UInt8.toUInt32 ++ [pcesvn]) ∧
    (∀ s h bytes, toAsciiUppercase s = hexEncodeUpper c.toList →
      toAsciiUppercase h = hexEncodeUpper bytes → 1 ≤ bytes.length → bytes.length ≤ 4 →
      Nat.ofDigits 256 (bytes.map UInt8.toNat) = pcesvn.toNat → ∃ t, Tcb.fromHex s h = .ok t ∧
        t.components.toList = c.toList.map UInt8.toUInt32 ++ [pcesvn]) ∧
    (∀ tcb items, componentArray tcb = some items →
      (items.length ≠ 16 ∨ ∃ item ∈ items, componentByte (item.get "svn") = none) →
      levelCpusvn tcb = none) ∧
    (∀ tcb, ∀ i ∈ List.range' 1 16, componentByte (tcb.get (componentKey i)) = none →
      Cache.rawCpusvnFromTcb tcb = none ∧ (componentArray tcb = none → levelCpusvn tcb = none)) ∧
    (∀ h bytes, hexDecode (asBytes h) = some bytes → 1 ≤ bytes.length → bytes.length ≤ 4 →
      ∃ n, littleEndianHexToInt h = some n ∧
        n.toNat = Nat.ofDigits 256 (bytes.map UInt8.toNat)) ∧
    (∀ h, (¬ ∃ bytes, hexDecode (asBytes h) = some bytes ∧ 1 ≤ bytes.length ∧ bytes.length ≤ 4) →
      littleEndianHexToInt h = none) ∧
    ∀ a b : Tcb, (a.compare b = .ok 0 ↔ a.components = b.components) ∧
      (a.compare b = .ok (-1) ↔ Tcb.Le a b ∧ a.components ≠ b.components) ∧
      (a.compare b = .ok 1 ↔ Tcb.Le b a ∧ a.components ≠ b.components) ∧
      (a.compare b = .error ⟨⟩ ↔ ¬ Tcb.Le a b ∧ ¬ Tcb.Le b a) := by
  refine ⟨?_, fun tcb h => levelCpusvn_array h, fun tcb h => ?_, fun s h => new_components h,
    fun s h bytes hs hh hpos hle hvalue => fromHex_components hs hh hpos hle hvalue,
    fun tcb items hitems h => levelCpusvn_none hitems h, fun tcb i hi h => ?_,
    fun h bytes hbytes hpos hle => littleEndianHexToInt_eq hbytes hpos hle,
    fun h hno => littleEndianHexToInt_none hno, compare_cases⟩
  · simp [hexEncodeUpper]
  · have hraw := rawCpusvn_scalar h
    exact ⟨hraw, fun hno => (levelCpusvn_scalar hno).trans hraw⟩
  · have hraw := rawCpusvn_none hi h
    exact ⟨hraw, fun hno => (levelCpusvn_scalar hno).trans hraw⟩

theorem tcb_encodings_sevens :
    ∃ t, Tcb.fromHex "07070707070707070707070707070707" "0d00" = .ok t ∧
      t.components.toList = List.replicate 16 7 ++ [13] := by
  obtain ⟨-, -, -, -, hfrom, -⟩ := tcb_encodings (Vector.replicate 16 7) 13
  exact hfrom _ _ [13, 0] (by decide) (by decide) (by decide) (by decide) (by decide)

end Order

end Pccs.Selection
