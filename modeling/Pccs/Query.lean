import Pccs.PercentDecoders
import Pccs.Splitting

/-!
# Query strings between two caches

A cache may have another one for its upstream. The client escapes every value
of the query it builds, and the server of the same program takes the query
apart again: pairs at `&`, the first `=`, `+` for a space, percent escapes,
and the first of two equal names.
-/
namespace Pccs.Query

open Text Encoding

section Client

/-- The table of the percent encoder: two hex digits for every byte. -/
structure PercentEncoding where
  digits : UInt8 → UInt8 × UInt8
  reads : ∀ b, Pcs.twoDigits (digits b).1 (digits b).2 = some b

/-- The upper-case table. -/
def upperTable : PercentEncoding where
  digits b := (UInt8.ofNat (upperNibble (b.toNat / 16)).toNat,
    UInt8.ofNat (upperNibble (b.toNat % 16)).toNat)
  reads b := by
    have key : ∀ i : Fin 256, Pcs.twoDigits
        (UInt8.ofNat (upperNibble ((UInt8.ofFin i).toNat / 16)).toNat)
        (UInt8.ofNat (upperNibble ((UInt8.ofFin i).toNat % 16)).toNat) = some (UInt8.ofFin i) := by
      decide +kernel
    exact key b.toFin

/-- `QUERY_VALUE` escapes every byte but these. -/
def unreserved (b : UInt8) : Bool :=
  (48 ≤ b && b ≤ 57) || (65 ≤ b && b ≤ 90) || (97 ≤ b && b ≤ 122) ||
    b == 45 || b == 95 || b == 46 || b == 126

variable (crate : PercentEncoding)

def escapeByte (b : UInt8) : List UInt8 :=
  if unreserved b then [b] else [37, (crate.digits b).1, (crate.digits b).2]

/-- `utf8_percent_encode(value, QUERY_VALUE)`. -/
def q (value : String) : String :=
  String.ofList (wordText ((asBytes value).flatMap (escapeByte crate)))

/-- The query of the URL built by `fetch_pckcert_pccs`. -/
def pckcertQuery (qeid cpusvn pcesvn pceid : String) (encPpid : Option String) : String :=
  let query := "qeid=" ++ q crate qeid ++ "&cpusvn=" ++ q crate cpusvn ++ "&pcesvn=" ++
    q crate pcesvn ++ "&pceid=" ++ q crate pceid
  match encPpid with
  | some e => if e = "" then query else query ++ "&encrypted_ppid=" ++ q crate e
  | none => query

def pckcertUrl (base qeid cpusvn pcesvn pceid : String) (encPpid : Option String) : String :=
  base ++ "pckcert?" ++ pckcertQuery crate qeid cpusvn pcesvn pceid encPpid

example : q upperTable "a&b é" = "a%26b%20%C3%A9" := by decide +kernel

end Client

section Server

/-- Percent-decoding for a query component: `+` also means space. -/
def queryDecode (s : List Char) : String :=
  Validate.percentDecode (String.ofList (s.map fun c => if c = '+' then ' ' else c))

/-- One pair. The map keeps the value of the first of two equal keys. -/
def addPair (out : List (String × String)) (pair : List Char) : List (String × String) :=
  if pair = [] then out
  else
    let (rawKey, rawValue) := (Paths.splitOnce '=' pair).getD (pair, [])
    let key := queryDecode rawKey
    if key ∈ out.map Prod.fst then out else out ++ [(key, queryDecode rawValue)]

/-- `query_params`; the entries of the map, in the order they were added. -/
def queryParams (query : Option String) : Except PccsError (List (String × String)) :=
  match query.filter fun q => q != "" with
  | none => .ok []
  | some query => .ok ((Paths.split '&' query.toList).foldl addPair [])

/-- The first of two equal names wins, and an empty name is kept. -/
example : (queryParams (some "a=x+y&a=z&=%41")).toOption = some [("a", "x y"), ("", "A")] := by
  decide +kernel

end Server

section RoundTrip

variable {crate : PercentEncoding}

theorem unreserved_table : ∀ n < 256, unreserved (UInt8.ofNat n) = true →
    n < 128 ∧ n ≠ 37 ∧ n ≠ 38 ∧ n ≠ 43 ∧ n ≠ 61 := by decide +kernel

theorem digit_table : ∀ n < 256, (hexValue (UInt8.ofNat n)).isSome = true →
    n < 128 ∧ n ≠ 38 ∧ n ≠ 43 ∧ n ≠ 61 := by decide +kernel

/-- An escaped byte stays clear of every separator. -/
theorem escapeByte_bytes {b d : UInt8} (h : d ∈ escapeByte crate b) :
    d.toNat < 128 ∧ d.toNat ≠ 38 ∧ d.toNat ≠ 43 ∧ d.toNat ≠ 61 := by
  have hreads := crate.reads b
  obtain ⟨hi, hhi, hreads⟩ := Option.bind_eq_some_iff.mp hreads
  obtain ⟨lo, hlo, -⟩ := Option.bind_eq_some_iff.mp hreads
  have hdigit : ∀ {d : UInt8}, (hexValue d).isSome = true →
      d.toNat < 128 ∧ d.toNat ≠ 38 ∧ d.toNat ≠ 43 ∧ d.toNat ≠ 61 := by
    intro d hd
    exact digit_table d.toNat d.toNat_lt (by rw [UInt8.ofNat_toNat]; exact hd)
  unfold escapeByte at h
  split at h
  · rename_i hb
    obtain rfl : d = b := by simpa using h
    obtain ⟨h₁, -, h₂⟩ := unreserved_table d.toNat d.toNat_lt (by rw [UInt8.ofNat_toNat]; exact hb)
    exact ⟨h₁, h₂⟩
  · simp only [List.mem_cons, List.not_mem_nil, or_false] at h
    rcases h with rfl | rfl | rfl
    · decide
    · exact hdigit (by rw [hhi]; rfl)
    · exact hdigit (by rw [hlo]; rfl)

/-- Escaping and decoding a byte, whatever follows. -/
theorem percentDecodeBytes_escapeByte (b : UInt8) (rest : List UInt8) :
    percentDecodeBytes (escapeByte crate b ++ rest) = b :: percentDecodeBytes rest := by
  unfold escapeByte
  split
  · rename_i hb
    have hne : b ≠ 37 := by
      rintro rfl
      exact absurd hb (by decide)
    exact Pcs.percentDecodeBytes_copy (.inl hne)
  · have hreads := crate.reads b
    obtain ⟨hi, hhi, hreads⟩ := Option.bind_eq_some_iff.mp hreads
    obtain ⟨lo, hlo, hreads⟩ := Option.bind_eq_some_iff.mp hreads
    have hbyte : hi * 16 + lo = b := Option.some.inj hreads
    rw [List.cons_append, List.cons_append, List.cons_append, List.nil_append, percentDecodeBytes,
      if_pos rfl]
    simp only [hhi, hlo, hbyte]

theorem percentDecodeBytes_escaped (bytes : List UInt8) :
    percentDecodeBytes (bytes.flatMap (escapeByte crate)) = bytes := by
  induction bytes with
  | nil => rfl
  | cons b rest ih => rw [List.flatMap_cons, percentDecodeBytes_escapeByte, ih]

theorem asBytes_wordText {word : List UInt8} (h : ∀ b ∈ word, b.toNat < 128) :
    asBytes (String.ofList (wordText word)) = word := by
  rw [asBytes_eq, String.toList_ofList, wordText]
  induction word with
  | nil => rfl
  | cons b word ih =>
    obtain ⟨hb, hword⟩ := List.forall_mem_cons.mp h
    have hnat : (Char.ofNat b.toNat).toNat = b.toNat := toNat_ofNat (.inl (by omega))
    rw [List.map_cons, List.flatMap_cons, ih hword, utf8EncodeChar_ascii (by omega), hnat,
      UInt8.ofNat_toNat]
    rfl

/-- No separator of a query stands in an escaped value. -/
theorem not_mem_q {value : String} {c : Char} (hc : c = '&' ∨ c = '+' ∨ c = '=') :
    c ∉ (q crate value).toList := by
  intro h
  rw [q, String.toList_ofList, wordText, List.mem_map] at h
  obtain ⟨d, hd, rfl⟩ := h
  obtain ⟨b, -, hd⟩ := List.mem_flatMap.mp hd
  obtain ⟨hlt, hamp, hplus, heq⟩ := escapeByte_bytes hd
  have hnat : (Char.ofNat d.toNat).toNat = d.toNat := toNat_ofNat (.inl (by omega))
  rcases hc with hc | hc | hc
  · rw [hc] at hnat
    exact hamp hnat.symm
  · rw [hc] at hnat
    exact hplus hnat.symm
  · rw [hc] at hnat
    exact heq hnat.symm

/-- The server reads the value the client escaped. -/
theorem queryDecode_q (value : String) : queryDecode (q crate value).toList = value := by
  have hplus : (q crate value).toList.map (fun c => if c = '+' then ' ' else c) =
      (q crate value).toList := by
    refine (List.map_congr_left fun c hc => ?_).trans (List.map_id _)
    refine if_neg ?_
    rintro rfl
    exact not_mem_q (.inr (.inl rfl)) hc
  have hascii : ∀ d ∈ (asBytes value).flatMap (escapeByte crate), d.toNat < 128 := by
    intro d hd
    obtain ⟨b, -, hd⟩ := List.mem_flatMap.mp hd
    exact (escapeByte_bytes hd).1
  rw [queryDecode, hplus, String.ofList_toList, Validate.percentDecode, q, asBytes_wordText hascii,
    percentDecodeBytes_escaped, fromUtf8Lossy, asBytes_eq, utf8Lossy_encoded, String.ofList_toList]

/-- The names of the query are written as they are. -/
def names : List String := ["qeid", "cpusvn", "pcesvn", "pceid", "encrypted_ppid"]

theorem names_plain : ∀ name ∈ names, '=' ∉ name.toList ∧ '&' ∉ name.toList ∧
    queryDecode name.toList = name := by decide +kernel

def pairText (crate : PercentEncoding) (pair : String × String) : List Char :=
  pair.1.toList ++ '=' :: (q crate pair.2).toList

theorem addPair_pairText {out : List (String × String)} {pair : String × String}
    (hname : pair.1 ∈ names) (hnew : pair.1 ∉ out.map Prod.fst) :
    addPair out (pairText crate pair) = out ++ [pair] := by
  obtain ⟨heq, -, hplain⟩ := names_plain pair.1 hname
  have hne : pairText crate pair ≠ [] := by simp [pairText]
  rw [addPair, if_neg hne, pairText, Paths.splitOnce_append heq]
  simp only [Option.getD_some, hplain, queryDecode_q]
  exact if_neg hnew

/-- Pairs under different names are added one by one. -/
theorem foldl_addPair {out pairs : List (String × String)}
    (hnames : ∀ pair ∈ pairs, pair.1 ∈ names) (hnew : ((out ++ pairs).map Prod.fst).Nodup) :
    (pairs.map (pairText crate)).foldl addPair out = out ++ pairs := by
  induction pairs generalizing out with
  | nil => simp
  | cons pair pairs ih =>
    obtain ⟨hname, hnames⟩ := List.forall_mem_cons.mp hnames
    have hfresh : pair.1 ∉ out.map Prod.fst := by
      intro hmem
      rw [List.map_append, List.nodup_append] at hnew
      exact hnew.2.2 _ hmem _ (by simp) rfl
    have hsplit : out ++ pair :: pairs = out ++ [pair] ++ pairs := by simp
    rw [List.map_cons, List.foldl_cons, addPair_pairText hname hfresh, hsplit]
    exact ih hnames (by rw [← hsplit]; exact hnew)

/-- The entries of the query. -/
def pckcertPairs (qeid cpusvn pcesvn pceid : String) (encPpid : Option String) :
    List (String × String) :=
  [("qeid", qeid), ("cpusvn", cpusvn), ("pcesvn", pcesvn), ("pceid", pceid)] ++
    ((encPpid.filter fun e => e != "").map fun e => ("encrypted_ppid", e)).toList

theorem pckcertQuery_eq (crate : PercentEncoding) (qeid cpusvn pcesvn pceid : String)
    (encPpid : Option String) :
    (pckcertQuery crate qeid cpusvn pcesvn pceid encPpid).toList =
      ['&'].intercalate ((pckcertPairs qeid cpusvn pcesvn pceid encPpid).map (pairText crate)) := by
  cases encPpid with
  | none => simp [pckcertQuery, pckcertPairs, pairText, List.intercalate_cons_cons]
  | some e =>
    by_cases he : e = ""
    · simp [pckcertQuery, pckcertPairs, pairText, he, Option.filter, List.intercalate_cons_cons]
    · simp [pckcertQuery, pckcertPairs, pairText, he, Option.filter, List.intercalate_cons_cons]

/-- What one cache asks for, the other one reads: the parameters given, each
with its value, and no other entry. -/
theorem queryParams_pckcertQuery (crate : PercentEncoding) (qeid cpusvn pcesvn pceid : String)
    (encPpid : Option String) :
    queryParams (some (pckcertQuery crate qeid cpusvn pcesvn pceid encPpid)) =
      .ok ([("qeid", qeid), ("cpusvn", cpusvn), ("pcesvn", pcesvn), ("pceid", pceid)] ++
        ((encPpid.filter fun e => e != "").map fun e => ("encrypted_ppid", e)).toList) := by
  have hnames : ∀ pair ∈ pckcertPairs qeid cpusvn pcesvn pceid encPpid, pair.1 ∈ names := by
    cases encPpid with
    | none => simp [pckcertPairs, names]
    | some e => by_cases he : e = "" <;> simp [pckcertPairs, names, Option.filter, he]
  have hnodup : ((pckcertPairs qeid cpusvn pcesvn pceid encPpid).map Prod.fst).Nodup := by
    cases encPpid with
    | none => simp [pckcertPairs]
    | some e => by_cases he : e = "" <;> simp [pckcertPairs, Option.filter, he]
  have hparts : ∀ part ∈ (pckcertPairs qeid cpusvn pcesvn pceid encPpid).map (pairText crate),
      '&' ∉ part := by
    intro part hpart
    obtain ⟨pair, hpair, rfl⟩ := List.mem_map.mp hpart
    obtain ⟨-, hamp, -⟩ := names_plain pair.1 (hnames pair hpair)
    simp only [pairText, List.mem_append, List.mem_cons, not_or]
    exact ⟨hamp, by decide, not_mem_q (.inl rfl)⟩
  have hquery := pckcertQuery_eq crate qeid cpusvn pcesvn pceid encPpid
  have hne : pckcertQuery crate qeid cpusvn pcesvn pceid encPpid ≠ "" := by
    intro hempty
    rw [hempty] at hquery
    simp [pckcertPairs, pairText, List.intercalate_cons_cons] at hquery
  have hfilter : (some (pckcertQuery crate qeid cpusvn pcesvn pceid encPpid)).filter
      (fun q => q != "") = some (pckcertQuery crate qeid cpusvn pcesvn pceid encPpid) := by
    simp [Option.filter, hne]
  rw [queryParams, hfilter]
  simp only [hquery]
  rw [Paths.split_intercalate (by simp [pckcertPairs]) hparts, foldl_addPair hnames hnodup]
  rfl

end RoundTrip

end Pccs.Query
