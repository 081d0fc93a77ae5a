import Pccs.Splitting
import Mathlib.Data.List.TakeWhile

/-!
# The normal form of a request path

A path is accepted or refused for itself, and then says which parameters it may
carry. What is sent, and stored under, is the path and its parameters in the
order of their names: a form that its own canonical form repeats, that no order
of the parameters changes, and that tells apart all that the request does.
-/
namespace Pccs.Paths

open Text Fallible PccsError

section Parameters

variable {allowed : List (List Char)} {p : Param} {ps qs : List Param}

/-- The name and the value of a part of a query. -/
def parseParam (part : List Char) : Param := (splitOnce '=' part).getD (part, [])

def paramText (p : Param) : List Char := p.1 ++ '=' :: p.2

/-- The parameters of a query, in their order. -/
def paramsOf (query : List Char) : List Param :=
  if query = [] then [] else (split '&' query).map parseParam

def renderQuery (ps : List Param) : List Char :=
  if ps = [] then [] else '?' :: encodeParams ps

/-- A parameter with a name from the list and a numeral of a byte. -/
structure Admitted (allowed : List (List Char)) (p : Param) : Prop where
  whitelisted : p.1 ∈ allowed
  numeral : isSplValue p.2 = true

/-- Admitted parameters, no name twice. -/
structure Admissible (allowed : List (List Char)) (ps : List Param) : Prop where
  admitted : ∀ p ∈ ps, Admitted allowed p
  distinct : (ps.map Prod.fst).Nodup

/-- A list of names that are letters and digits. -/
def Plain (allowed : List (List Char)) : Prop := ∀ name ∈ allowed, isAlnumSegment name = true

theorem mem_alnum {s : List Char} {c : Char} (h : isAlnumSegment s = true) (hc : c ∈ s) :
    c.isAlphanum = true := by
  rw [isAlnumSegment, Bool.and_eq_true, List.all_eq_true] at h
  exact h.2 c hc

theorem mem_numeral {s : List Char} {c : Char} (h : isSplValue s = true) (hc : c ∈ s) :
    c.isAlphanum = true := by
  simp only [isSplValue, Bool.and_eq_true, List.all_eq_true] at h
  have hdigit := h.1.2 c hc
  simp [Char.isAlphanum, hdigit]

theorem ne_nil_of_alnum {s : List Char} (h : isAlnumSegment s = true) : s ≠ [] := by
  rintro rfl
  simp [isAlnumSegment] at h

/-- A parameter holds letters, digits and the mark between its two parts. -/
theorem Admitted.mem_text (h : Admitted allowed p) (hplain : Plain allowed) {c : Char}
    (hc : c ∈ paramText p) : c = '=' ∨ c.isAlphanum = true := by
  rcases List.mem_append.mp hc with hc | hc
  · exact .inr (mem_alnum (hplain _ h.whitelisted) hc)
  · rcases List.mem_cons.mp hc with rfl | hc
    · exact .inl rfl
    · exact .inr (mem_numeral h.numeral hc)

theorem Admitted.parse_text (h : Admitted allowed p) (hplain : Plain allowed) :
    parseParam (paramText p) = p := by
  have hno : '=' ∉ p.1 := by
    intro hmem
    exact absurd (mem_alnum (hplain _ h.whitelisted) hmem) (by decide)
  rw [parseParam, paramText, splitOnce_append hno]
  rfl

theorem Admissible.nil : Admissible allowed [] := ⟨by simp, by simp⟩

theorem Admissible.of_nil (h : Admissible [] ps) : ps = [] := by
  cases ps with
  | nil => rfl
  | cons p ps => exact absurd (h.admitted p (by simp)).whitelisted (by simp)

theorem Admissible.perm (h : Admissible allowed ps) (hperm : ps.Perm qs) :
    Admissible allowed qs := by
  constructor
  · intro p hp
    exact h.admitted p (hperm.mem_iff.mpr hp)
  · exact (hperm.map Prod.fst).nodup_iff.mp h.distinct

theorem Admissible.concat (h : Admissible allowed ps) (hp : Admitted allowed p)
    (hfresh : p.1 ∉ ps.map Prod.fst) : Admissible allowed (ps ++ [p]) := by
  constructor
  · intro q hq
    rcases List.mem_append.mp hq with hq | hq
    · exact h.admitted q hq
    · rw [List.mem_singleton.mp hq]
      exact hp
  · rw [List.map_append, List.nodup_append]
    refine ⟨h.distinct, by simp, ?_⟩
    intro name hname name' hname' heq
    rw [List.map_singleton, List.mem_singleton] at hname'
    rw [heq, hname'] at hname
    exact hfresh hname

theorem Admissible.of_append (h : Admissible allowed (ps ++ qs)) : Admissible allowed ps := by
  constructor
  · intro p hp
    exact h.admitted p (by simp [hp])
  · have hdistinct := h.distinct
    rw [List.map_append, List.nodup_append] at hdistinct
    exact hdistinct.1

theorem Admissible.last (h : Admissible allowed (ps ++ [p])) :
    Admitted allowed p ∧ p.1 ∉ ps.map Prod.fst := by
  refine ⟨h.admitted p (by simp), ?_⟩
  intro hmem
  have hdistinct := h.distinct
  rw [List.map_append, List.nodup_append] at hdistinct
  exact hdistinct.2.2 p.1 hmem p.1 (by simp) rfl

/-- The parameters of the text of some are these. -/
theorem Admissible.paramsOf_encode (h : Admissible allowed ps) (hplain : Plain allowed) :
    paramsOf (encodeParams ps) = ps := by
  by_cases hps : ps = []
  · rw [hps]
    rfl
  · have hamp : ∀ part ∈ ps.map paramText, '&' ∉ part := by
      intro part hpart hmem
      obtain ⟨p, hp, rfl⟩ := List.mem_map.mp hpart
      rcases (h.admitted p hp).mem_text hplain hmem with hc | hc
      · exact absurd hc (by decide)
      · exact absurd hc (by decide)
    have hsplit : split '&' (encodeParams ps) = ps.map paramText :=
      split_intercalate (by simpa using hps) hamp
    have hne : encodeParams ps ≠ [] := by
      intro hnil
      rw [hnil] at hsplit
      obtain ⟨p, rest, rfl⟩ := List.exists_cons_of_ne_nil hps
      simp [split, paramText] at hsplit
    rw [paramsOf, if_neg hne, hsplit, List.map_map]
    calc ps.map (parseParam ∘ paramText) = ps.map id :=
          List.map_congr_left fun p hp => (h.admitted p hp).parse_text hplain
      _ = ps := List.map_id ps

end Parameters

section Sorting

variable {allowed : List (List Char)} {a b c : Param} {ps qs : List Param}

theorem paramLe_iff : paramLe a b = true ↔ compare a.1 b.1 ≠ .gt := by
  simp [paramLe]

theorem paramLe_trans (hab : paramLe a b = true) (hbc : paramLe b c = true) :
    paramLe a c = true := by
  have hle := @Std.TransCmp.isLE_trans _ compare _ a.1 b.1 c.1
  simp only [paramLe_iff, ← Ordering.isLE_iff_ne_gt] at *
  exact hle hab hbc

theorem paramLe_total : (paramLe a b || paramLe b a) = true := by
  rw [Bool.or_eq_true, paramLe_iff, paramLe_iff]
  by_cases hgt : compare a.1 b.1 = .gt
  · right
    rw [Std.OrientedCmp.gt_iff_lt.mp hgt]
    simp
  · exact .inl hgt

/-- Sorted, with no name twice, the names go strictly up. -/
theorem Admissible.sorted (h : Admissible allowed ps) :
    (ps.mergeSort paramLe).Pairwise fun a b => compare a.1 b.1 = .lt := by
  have hle : (ps.mergeSort paramLe).Pairwise fun a b => paramLe a b = true :=
    List.pairwise_mergeSort (@paramLe_trans) (@paramLe_total) ps
  have hne : (ps.mergeSort paramLe).Pairwise fun a b => a.1 ≠ b.1 :=
    List.pairwise_map.mp (h.perm (List.mergeSort_perm ps paramLe).symm).distinct
  refine (hle.and hne).imp ?_
  rintro a b ⟨hle, hne⟩
  rw [paramLe_iff] at hle
  cases hcmp : compare a.1 b.1 with
  | lt => rfl
  | eq => exact absurd (Std.LawfulEqOrd.eq_of_compare hcmp) hne
  | gt => exact absurd hcmp hle

/-- Only the set of the parameters decides their order. -/
theorem Admissible.sort_eq (h : Admissible allowed ps) (hperm : ps.Perm qs) :
    ps.mergeSort paramLe = qs.mergeSort paramLe := by
  refine List.Perm.eq_of_pairwise ?_ h.sorted (h.perm hperm).sorted
    (((List.mergeSort_perm ps paramLe).trans hperm).trans (List.mergeSort_perm qs paramLe).symm)
  intro a b _ _ hab hba
  rw [← Std.OrientedCmp.gt_iff_lt, hab] at hba
  cases hba

theorem Admissible.sort_sorted (h : Admissible allowed ps) :
    (ps.mergeSort paramLe).mergeSort paramLe = ps.mergeSort paramLe :=
  (h.perm (List.mergeSort_perm ps paramLe).symm).sort_eq (List.mergeSort_perm ps paramLe)

theorem sort_eq_nil : ps.mergeSort paramLe = [] ↔ ps = [] := by
  rw [← List.length_eq_zero_iff, List.length_mergeSort, List.length_eq_zero_iff]

theorem Admissible.nodup (h : Admissible allowed ps) : ps.Nodup := by
  refine List.Pairwise.of_map Prod.fst ?_ h.distinct
  intro a b hne heq
  exact hne (congrArg Prod.fst heq)

end Sorting

section Queries

variable {allowed : List (List Char)} {parts : List (List Char)} {seen out : List Param}
variable {query : Option (List Char)} {text : List Char} {e : PccsError}

theorem addParam_eq_ok (hplain : Plain allowed) {part : List Char} :
    addParam allowed seen part = .ok out ↔ Admitted allowed (parseParam part) ∧
      (parseParam part).1 ∉ seen.map Prod.fst ∧ out = seen ++ [parseParam part] := by
  have hunfold : addParam allowed seen part = (do
      reject ((parseParam part).1 = []) invalidReq
      reject ((parseParam part).1 ∉ allowed) invalidReq
      reject (isSplValue (parseParam part).2 = false) invalidReq
      reject ((parseParam part).1 ∈ seen.map Prod.fst) invalidReq
      return seen ++ [parseParam part]) := rfl
  rw [hunfold]
  simp only [bind_eq_ok, pure_eq_ok, reject_eq_ok, exists_const]
  constructor
  · rintro ⟨-, hallowed, hvalue, hfresh, rfl⟩
    exact ⟨⟨by simpa using hallowed, by simpa using hvalue⟩, hfresh, rfl⟩
  · rintro ⟨hp, hfresh, rfl⟩
    exact ⟨ne_nil_of_alnum (hplain _ hp.whitelisted), by simpa using hp.whitelisted,
      by simp [hp.numeral], hfresh, rfl⟩

/-- The loop over the parts keeps what it has read admissible, and ends with
the parameter of each part. -/
theorem foldlM_addParam (hplain : Plain allowed) (hseen : Admissible allowed seen) :
    parts.foldlM (addParam allowed) seen = .ok out ↔
      Admissible allowed (seen ++ parts.map parseParam) ∧ out = seen ++ parts.map parseParam := by
  induction parts generalizing seen with
  | nil =>
    simp only [List.foldlM_nil, pure_eq_ok, List.map_nil, List.append_nil]
    exact ⟨fun h => ⟨hseen, h.symm⟩, fun h => h.2.symm⟩
  | cons part parts ih =>
    have hnext : seen ++ (part :: parts).map parseParam =
        seen ++ [parseParam part] ++ parts.map parseParam := by simp
    rw [List.foldlM_cons, bind_eq_ok, hnext]
    constructor
    · rintro ⟨next, hadd, hrest⟩
      obtain ⟨hp, hfresh, rfl⟩ := (addParam_eq_ok hplain).mp hadd
      exact (ih (hseen.concat hp hfresh)).mp hrest
    · rintro ⟨hall, rfl⟩
      have hhead : Admissible allowed (seen ++ [parseParam part]) := hall.of_append
      obtain ⟨hp, hfresh⟩ := hhead.last
      exact ⟨_, (addParam_eq_ok hplain).mpr ⟨hp, hfresh, rfl⟩, (ih hhead).mpr ⟨hall, rfl⟩⟩

theorem canonicalizeQuery_eq_ok (hplain : Plain allowed) :
    canonicalizeQuery query allowed = .ok text ↔ Admissible allowed (paramsOf (query.getD [])) ∧
      text = renderQuery ((paramsOf (query.getD [])).mergeSort paramLe) := by
  unfold canonicalizeQuery
  by_cases hnil : query.getD [] = []
  · have hfilter : query.filter (fun q => !q.isEmpty) = none := by
      cases query with
      | none => rfl
      | some q => simpa using hnil
    rw [hfilter, hnil]
    simp [paramsOf, renderQuery, Admissible.nil, eq_comm]
  · have hfilter : query.filter (fun q => !q.isEmpty) = some (query.getD []) := by
      cases query with
      | none => simp at hnil
      | some q => simpa [Option.filter] using hnil
    have hparams : paramsOf (query.getD []) = [] ++ (split '&' (query.getD [])).map parseParam := by
      rw [paramsOf, if_neg hnil, List.nil_append]
    have hne : paramsOf (query.getD []) ≠ [] := by
      rw [hparams]
      simpa using split_ne_nil (query.getD [])
    rw [hfilter]
    simp only [bind_eq_ok, foldlM_addParam hplain Admissible.nil, ← hparams]
    constructor
    · rintro ⟨seen, ⟨hseen, rfl⟩, h⟩
      rw [if_neg hne] at h
      refine ⟨hseen, ?_⟩
      rw [renderQuery, if_neg (by rwa [sort_eq_nil]), pure_eq_ok.mp h]
    · rintro ⟨hseen, rfl⟩
      refine ⟨_, ⟨hseen, rfl⟩, ?_⟩
      rw [if_neg hne, renderQuery, if_neg (by rwa [sort_eq_nil])]
      rfl

theorem failsWith_addParam (seen : List Param) (part : List Char) :
    FailsWith invalidReq (addParam allowed seen part) :=
  failsWith_reject.bind fun _ => failsWith_reject.bind fun _ => failsWith_reject.bind fun _ =>
    failsWith_reject.bind fun _ => failsWith_ok

theorem failsWith_canonicalizeQuery : FailsWith invalidReq (canonicalizeQuery query allowed) := by
  unfold canonicalizeQuery
  split
  · exact failsWith_ok
  · refine (failsWith_foldlM failsWith_addParam _ _).bind fun seen => ?_
    split
    · exact failsWith_ok
    · exact failsWith_ok

end Queries

section Form

variable {allowed : List (List Char)} {path : List Char} {ps qs : List Param}
variable {x x' y y' : String}

/-- The text before the first question mark. -/
def pathOf (x : String) : List Char := x.toList.takeWhile (· ≠ '?')

/-- The parameters after it. -/
def requestParams (x : String) : List Param :=
  paramsOf ((x.toList.dropWhile (· ≠ '?')).drop 1)

/-- A path with its parameters in the order of their names. -/
def normalText (path : List Char) (ps : List Param) : String :=
  String.ofList (path ++ renderQuery (ps.mergeSort paramLe))

/-- A path with the parts of its query, as they stand. -/
def withQuery (path : List Char) (parts : List (List Char)) : String :=
  String.ofList (path ++ '?' :: ['&'].intercalate parts)

/-- Both functions read a request at its first question mark. -/
theorem splitPathQuery_spec (s : List Char) :
    (splitPathQuery s).1 = s.takeWhile (· ≠ '?') ∧
      (splitPathQuery s).2.getD [] = (s.dropWhile (· ≠ '?')).drop 1 := by
  by_cases hmem : '?' ∈ s
  · rw [splitPathQuery, splitOnce, if_pos hmem]
    exact ⟨rfl, rfl⟩
  · have hall : ∀ c ∈ s, decide (c ≠ '?') = true := fun c hc =>
      decide_eq_true fun he => hmem (he ▸ hc)
    rw [splitPathQuery, splitOnce, if_neg hmem, List.takeWhile_eq_self_iff.mpr hall,
      List.dropWhile_eq_nil_iff.mpr hall]
    exact ⟨rfl, rfl⟩

theorem pathOf_eq (x : String) : pathOf x = (splitPathQuery x.toList).1 :=
  (splitPathQuery_spec x.toList).1.symm

theorem requestParams_eq (x : String) :
    requestParams x = paramsOf ((splitPathQuery x.toList).2.getD []) :=
  congrArg paramsOf (splitPathQuery_spec x.toList).2.symm

theorem not_mem_pathOf : '?' ∉ pathOf x := by
  rw [pathOf_eq, splitPathQuery]
  cases hsplit : splitOnce '?' x.toList with
  | none => exact splitOnce_eq_none.mp hsplit
  | some pair => exact (splitOnce_eq_some.mp hsplit).2

theorem splitPathQuery_append (hpath : '?' ∉ path) (query : List Char) :
    splitPathQuery (path ++ '?' :: query) = (path, some query) := by
  rw [splitPathQuery, splitOnce_append hpath]

theorem splitPathQuery_of_not_mem (hpath : '?' ∉ path) :
    splitPathQuery path = (path, none) := by
  rw [splitPathQuery, splitOnce_of_not_mem hpath]

theorem pathOf_normalText (hpath : '?' ∉ path) : pathOf (normalText path ps) = path := by
  rw [pathOf_eq, normalText, String.toList_ofList, renderQuery]
  split
  · rw [List.append_nil, splitPathQuery_of_not_mem hpath]
  · rw [splitPathQuery_append hpath]

theorem requestParams_normalText (hpath : '?' ∉ path) (hps : Admissible allowed ps)
    (hplain : Plain allowed) :
    requestParams (normalText path ps) = ps.mergeSort paramLe := by
  have hsorted := hps.perm (List.mergeSort_perm ps paramLe).symm
  rw [requestParams_eq, normalText, String.toList_ofList, renderQuery]
  split
  · rename_i hnil
    rw [List.append_nil, splitPathQuery_of_not_mem hpath, hnil]
    rfl
  · rw [splitPathQuery_append hpath]
    exact hsorted.paramsOf_encode hplain

theorem pathOf_withQuery (hpath : '?' ∉ path) (parts : List (List Char)) :
    pathOf (withQuery path parts) = path := by
  rw [pathOf_eq, withQuery, String.toList_ofList, splitPathQuery_append hpath]

/-- Permuted parts are permuted parameters. -/
theorem requestParams_perm (hpath : '?' ∉ path) {parts parts' : List (List Char)}
    (hparts : ∀ part ∈ parts, '&' ∉ part) (hperm : parts.Perm parts') :
    (requestParams (withQuery path parts)).Perm (requestParams (withQuery path parts')) := by
  have hparts' : ∀ part ∈ parts', '&' ∉ part := by
    intro part hpart
    exact hparts part (hperm.mem_iff.mpr hpart)
  by_cases hsmall : parts.length ≤ 1
  · have heq : parts' = parts := by
      match parts, hsmall with
      | [], _ => exact hperm.nil_eq.symm
      | [part], _ => exact List.perm_singleton.mp hperm.symm
    rw [heq]
  · have hread : ∀ parts : List (List Char), 1 < parts.length → (∀ part ∈ parts, '&' ∉ part) →
        requestParams (withQuery path parts) = parts.map parseParam := by
      intro parts hlong hparts
      have hsplit : split '&' (['&'].intercalate parts) = parts := by
        refine split_intercalate ?_ hparts
        rintro rfl
        simp at hlong
      have hne : ['&'].intercalate parts ≠ [] := by
        intro hnil
        rw [hnil] at hsplit
        rw [← hsplit] at hlong
        simp [split] at hlong
      rw [requestParams_eq, withQuery, String.toList_ofList, splitPathQuery_append hpath, paramsOf,
        Option.getD_some, if_neg hne, hsplit]
    rw [hread parts (by omega) hparts, hread parts' (by rw [← hperm.length_eq]; omega) hparts']
    exact hperm.map parseParam

/-- A function that accepts a path of its own with admissible parameters, and
puts these in order. -/
structure Sorts (f : String → Except PccsError String)
    (Path : List Char → List (List Char) → Prop) : Prop where
  plain : ∀ path allowed, Path path allowed → Plain allowed
  accepts : ∀ x y, f x = .ok y ↔ ∃ allowed, Path (pathOf x) allowed ∧
    Admissible allowed (requestParams x) ∧ y = normalText (pathOf x) (requestParams x)
  refuses : ∀ x, FailsWith invalidReq (f x)

variable {f : String → Except PccsError String} {Path : List Char → List (List Char) → Prop}

theorem Sorts.idempotent (h : Sorts f Path) (hx : f x = .ok y) : f y = .ok y := by
  obtain ⟨allowed, hpath, hps, rfl⟩ := (h.accepts x y).mp hx
  have hplain := h.plain _ _ hpath
  refine (h.accepts _ _).mpr ⟨allowed, ?_, ?_, ?_⟩
  · rwa [pathOf_normalText not_mem_pathOf]
  · rw [requestParams_normalText not_mem_pathOf hps hplain]
    exact hps.perm (List.mergeSort_perm _ _).symm
  · rw [pathOf_normalText not_mem_pathOf, requestParams_normalText not_mem_pathOf hps hplain,
      normalText, normalText, hps.sort_sorted]

theorem Sorts.permuted (h : Sorts f Path) (hpath : pathOf x = pathOf x')
    (hparams : (requestParams x).Perm (requestParams x')) : f x = f x' := by
  refine (h.refuses x).eq_of_ok_iff (h.refuses x') fun y => ?_
  rw [h.accepts, h.accepts]
  constructor
  · rintro ⟨allowed, hp, hps, rfl⟩
    refine ⟨allowed, hpath ▸ hp, hps.perm hparams, ?_⟩
    rw [normalText, normalText, hps.sort_eq hparams, hpath]
  · rintro ⟨allowed, hp, hps, rfl⟩
    refine ⟨allowed, hpath ▸ hp, hps.perm hparams.symm, ?_⟩
    rw [normalText, normalText, hps.sort_eq hparams.symm, hpath]

theorem Sorts.separated (h : Sorts f Path) (hx : f x = .ok y) (hx' : f x' = .ok y') :
    y = y' ↔ pathOf x = pathOf x' ∧ ∀ p, p ∈ requestParams x ↔ p ∈ requestParams x' := by
  obtain ⟨allowed, hpath, hps, rfl⟩ := (h.accepts x y).mp hx
  obtain ⟨allowed', hpath', hps', rfl⟩ := (h.accepts x' y').mp hx'
  constructor
  · intro heq
    have hpaths : pathOf x = pathOf x' := by
      have hread := congrArg pathOf heq
      rwa [pathOf_normalText not_mem_pathOf, pathOf_normalText not_mem_pathOf] at hread
    have hread := congrArg requestParams heq
    rw [requestParams_normalText not_mem_pathOf hps (h.plain _ _ hpath),
      requestParams_normalText not_mem_pathOf hps' (h.plain _ _ hpath')] at hread
    refine ⟨hpaths, fun p => ?_⟩
    rw [← @List.mem_mergeSort _ paramLe, hread, List.mem_mergeSort]
  · rintro ⟨hpaths, hmem⟩
    have hperm := (List.perm_ext_iff_of_nodup hps.nodup hps'.nodup).mpr hmem
    rw [normalText, normalText, hpaths, hps.sort_eq hperm]

end Form

section Functions

variable {start product last path rest name : List Char} {allowed : List (List Char)}

theorem stripPrefix_eq_some {s : List Char} :
    stripPrefix start s = some rest ↔ s = start ++ rest := by
  unfold stripPrefix
  rw [Option.ite_none_right_eq_some, List.isPrefixOf_iff_prefix]
  constructor
  · rintro ⟨⟨rest', rfl⟩, hrest⟩
    cases hrest
    simp
  · rintro rfl
    exact ⟨List.prefix_append start rest, by simp⟩

def amdPath (start product last : List Char) : List Char :=
  start ++ ("v1/".toList ++ (product ++ '/' :: last))

/-- The paths of the AMD service, with the parameters each may carry: none
beside a certificate chain or a revocation list, the levels beside a chip. -/
inductive AmdPath : List Char → List (List Char) → Prop
  | document {start product last : List Char}
      (hstart : start = "/vcek/".toList ∨ start = "/vlek/".toList)
      (hproduct : isAlnumSegment product = true)
      (hlast : last = "cert_chain".toList ∨ last = "crl".toList) :
      AmdPath (amdPath start product last) []
  | chip {start product hwid : List Char}
      (hstart : start = "/vcek/".toList ∨ start = "/vlek/".toList)
      (hproduct : isAlnumSegment product = true)
      (hlast : ¬ (hwid = "cert_chain".toList ∨ hwid = "crl".toList))
      (hhwid : isAlnumSegment hwid = true) :
      AmdPath (amdPath start product hwid) amdHwidQueryParams

inductive RimPath : List Char → List (List Char) → Prop
  | rim {id : List Char} (hid : isRimId id = true) : RimPath ("/v1/rim/".toList ++ id) []

/-- A letter, a digit or one of the marks that a path may hold. -/
def pathChar (c : Char) : Bool :=
  c.isAlphanum || c == '-' || c == '_' || c == '.' || c == '/'

theorem isRimId_char {id : List Char} {c : Char} (hid : isRimId id = true) (hc : c ∈ id) :
    (c.isAlphanum || c == '-' || c == '_' || c == '.') = true := by
  rw [isRimId, Bool.and_eq_true, List.all_eq_true] at hid
  exact hid.2 c hc

theorem slash_not_mem_alnum (h : isAlnumSegment name = true) : '/' ∉ name := by
  intro hmem
  exact absurd (mem_alnum h hmem) (by decide)

theorem split_amdPath (hproduct : '/' ∉ product) (hlast : '/' ∉ last) :
    split '/' ("v1/".toList ++ (product ++ '/' :: last)) = ["v1".toList, product, last] := by
  have hv1 : "v1/".toList = "v1".toList ++ ['/'] := by decide
  rw [hv1, List.append_assoc, List.singleton_append, split_append_cons (by decide),
    split_append_cons hproduct, split_of_not_mem hlast]

theorem amdPath_eq (hstart : start = "/vcek/".toList ∨ start = "/vlek/".toList) :
    ((stripPrefix "/vcek/".toList (start ++ rest)).map ("/vcek/", ·)).or
      ((stripPrefix "/vlek/".toList (start ++ rest)).map ("/vlek/", ·)) =
        some (String.ofList start, rest) := by
  have hself : ∀ start, stripPrefix start (start ++ rest) = some rest := by
    intro start
    exact stripPrefix_eq_some.mpr rfl
  rcases hstart with rfl | rfl
  · rw [hself, Option.map_some, Option.some_or]
    rfl
  · have hother : stripPrefix "/vcek/".toList ("/vlek/".toList ++ rest) = none := by
      rw [stripPrefix, if_neg]
      rw [List.isPrefixOf_iff_prefix]
      rintro ⟨tail, htail⟩
      simp at htail
    rw [hother, hself]
    rfl

theorem amdPath_eq_some {path : List Char} {text : String} :
    ((stripPrefix "/vcek/".toList path).map ("/vcek/", ·)).or
        ((stripPrefix "/vlek/".toList path).map ("/vlek/", ·)) = some (text, rest) ↔
      ∃ start, (start = "/vcek/".toList ∨ start = "/vlek/".toList) ∧ text = String.ofList start ∧
        path = start ++ rest := by
  constructor
  · intro h
    cases hvcek : stripPrefix "/vcek/".toList path with
    | some rest' =>
      rw [hvcek] at h
      cases h
      exact ⟨_, .inl rfl, by decide, stripPrefix_eq_some.mp hvcek⟩
    | none =>
      rw [hvcek, Option.map_none, Option.none_or] at h
      obtain ⟨rest', hvlek, hpair⟩ := Option.map_eq_some_iff.mp h
      cases hpair
      exact ⟨_, .inr rfl, by decide, stripPrefix_eq_some.mp hvlek⟩
  · rintro ⟨start, hstart, rfl, rfl⟩
    exact amdPath_eq hstart

theorem amdPath_text {text : List Char} :
    String.ofList start ++ "v1/" ++ String.ofList product ++ "/" ++ String.ofList last ++
      String.ofList text = String.ofList (amdPath start product last ++ text) := by
  rw [← String.toList_inj]
  simp [amdPath]

theorem AmdPath.exists_start (h : AmdPath path allowed) :
    ∃ start rest, (start = "/vcek/".toList ∨ start = "/vlek/".toList) ∧ path = start ++ rest := by
  cases h with
  | document hstart => exact ⟨_, _, hstart, rfl⟩
  | chip hstart => exact ⟨_, _, hstart, rfl⟩

/-- The two prefixes are of one length, so that the rest of a path is known. -/
theorem AmdPath.of_append (h : AmdPath (start ++ rest) allowed)
    (hstart : start = "/vcek/".toList ∨ start = "/vlek/".toList) :
    ∃ product last, rest = "v1/".toList ++ (product ++ '/' :: last) ∧
      isAlnumSegment product = true ∧
      ((last = "cert_chain".toList ∨ last = "crl".toList) ∧ allowed = [] ∨
        ¬ (last = "cert_chain".toList ∨ last = "crl".toList) ∧ isAlnumSegment last = true ∧
          allowed = amdHwidQueryParams) := by
  have hlength : ∀ start : List Char, start = "/vcek/".toList ∨ start = "/vlek/".toList →
      start.length = 6 := by
    rintro start (rfl | rfl)
    · rfl
    · rfl
  generalize hpath : start ++ rest = path at h
  cases h with
  | @document start' product last hstart' hproduct hlast =>
    obtain ⟨-, rfl⟩ := List.append_inj hpath ((hlength _ hstart).trans (hlength _ hstart').symm)
    exact ⟨product, last, rfl, hproduct, .inl ⟨hlast, rfl⟩⟩
  | @chip start' product hwid hstart' hproduct hlast hhwid =>
    obtain ⟨-, rfl⟩ := List.append_inj hpath ((hlength _ hstart).trans (hlength _ hstart').symm)
    exact ⟨product, hwid, rfl, hproduct, .inr ⟨hlast, hhwid, rfl⟩⟩

theorem eq_of_split_three {a b : List Char} (h : split '/' rest = [a, b, last]) :
    rest = a ++ '/' :: (b ++ '/' :: last) := by
  rw [← intercalate_split (c := '/') rest, h, List.intercalate_cons_cons,
    List.intercalate_cons_cons, List.intercalate_singleton]
  simp

/-- What follows the two prefixes of the service. -/
def amdDocument (query : Option (List Char)) (start : String) (rest : List Char) :
    Except PccsError String :=
  match split '/' rest with
  | [version, product, last] => do
    reject (version ≠ "v1".toList ∨ isAlnumSegment product = false) invalidReq
    let query ←
      if last = "cert_chain".toList ∨ last = "crl".toList then canonicalizeQuery query []
      else do
        reject (isAlnumSegment last = false) invalidReq
        canonicalizeQuery query amdHwidQueryParams
    return start ++ "v1/" ++ String.ofList product ++ "/" ++ String.ofList last ++
      String.ofList query
  | _ => .error invalidReq

theorem failsWith_amdDocument (query : Option (List Char)) (text : String) (rest : List Char) :
    FailsWith invalidReq (amdDocument query text rest) := by
  unfold amdDocument
  split
  · refine failsWith_reject.bind fun _ => ?_
    dsimp only
    split
    · exact failsWith_canonicalizeQuery.bind fun _ => failsWith_ok
    · exact failsWith_reject.bind fun _ => failsWith_canonicalizeQuery.bind fun _ => failsWith_ok
  · exact failsWith_error

theorem plain_amdHwidQueryParams : Plain amdHwidQueryParams := by
  unfold Plain
  decide

theorem plain_nil : Plain [] := by
  simp [Plain]

theorem amdDocument_eq_ok {query : Option (List Char)} {y : String}
    (hstart : start = "/vcek/".toList ∨ start = "/vlek/".toList) :
    amdDocument query (String.ofList start) rest = .ok y ↔
      ∃ allowed, AmdPath (start ++ rest) allowed ∧
        Admissible allowed (paramsOf (query.getD [])) ∧
        y = normalText (start ++ rest) (paramsOf (query.getD [])) := by
  constructor
  · intro h
    unfold amdDocument at h
    split at h
    · rename_i version product last hsplit
      obtain ⟨_, hversion, h⟩ := bind_eq_ok.mp h
      obtain ⟨hversion, hproduct⟩ := not_or.mp (reject_eq_ok.mp hversion)
      have hproduct : isAlnumSegment product = true := by simpa using hproduct
      have hrest : start ++ rest = amdPath start product last := by
        rw [eq_of_split_three hsplit, not_not.mp hversion]
        simp [amdPath]
      dsimp only at h
      split at h
      · rename_i hlast
        obtain ⟨text, htext, h⟩ := bind_eq_ok.mp h
        obtain ⟨hps, rfl⟩ := (canonicalizeQuery_eq_ok plain_nil).mp htext
        refine ⟨[], hrest ▸ .document hstart hproduct hlast, hps, ?_⟩
        rw [← pure_eq_ok.mp h, amdPath_text, hrest, normalText]
      · rename_i hlast
        obtain ⟨_, hhwid, h⟩ := bind_eq_ok.mp h
        have hhwid : isAlnumSegment last = true := by simpa using reject_eq_ok.mp hhwid
        obtain ⟨text, htext, h⟩ := bind_eq_ok.mp h
        obtain ⟨hps, rfl⟩ := (canonicalizeQuery_eq_ok plain_amdHwidQueryParams).mp htext
        refine ⟨_, hrest ▸ .chip hstart hproduct hlast hhwid, hps, ?_⟩
        rw [← pure_eq_ok.mp h, amdPath_text, hrest, normalText]
    · cases h
  · rintro ⟨allowed, hpath, hps, rfl⟩
    obtain ⟨product, last, hrest, hproduct, hlast⟩ := hpath.of_append hstart
    have hslash : '/' ∉ last := by
      rcases hlast with ⟨rfl | rfl, -⟩ | ⟨-, hhwid, -⟩
      · decide
      · decide
      · exact slash_not_mem_alnum hhwid
    have htext := @amdPath_text start product last
      (renderQuery ((paramsOf (query.getD [])).mergeSort paramLe))
    rw [amdPath, ← hrest, ← normalText] at htext
    rw [amdDocument, hrest, split_amdPath (slash_not_mem_alnum hproduct) hslash, ← hrest, ← htext]
    refine bind_eq_ok.mpr ⟨(), reject_eq_ok.mpr (by simp [hproduct]), ?_⟩
    dsimp only
    rcases hlast with ⟨hlast, rfl⟩ | ⟨hlast, hhwid, rfl⟩
    · rw [if_pos hlast]
      exact bind_eq_ok.mpr ⟨_, (canonicalizeQuery_eq_ok plain_nil).mpr ⟨hps, rfl⟩, rfl⟩
    · rw [if_neg hlast]
      refine bind_eq_ok.mpr ⟨(), reject_eq_ok.mpr (by simp [hhwid]), ?_⟩
      exact bind_eq_ok.mpr
        ⟨_, (canonicalizeQuery_eq_ok plain_amdHwidQueryParams).mpr ⟨hps, rfl⟩, rfl⟩

/-- The source's function accepts the paths of the service. -/
theorem sorts_canonicalizeAmdKds : Sorts canonicalizeAmdKds AmdPath := by
  have hunfold : ∀ x, canonicalizeAmdKds x = (do
      let pair ← require
        (((stripPrefix "/vcek/".toList (pathOf x)).map ("/vcek/", ·)).or
          ((stripPrefix "/vlek/".toList (pathOf x)).map ("/vlek/", ·))) invalidReq
      amdDocument (splitPathQuery x.toList).2 pair.1 pair.2) := by
    intro x
    rw [pathOf_eq]
    rfl
  constructor
  · rintro path allowed (_ | _)
    · exact plain_nil
    · exact plain_amdHwidQueryParams
  · intro x y
    rw [requestParams_eq, hunfold, bind_eq_ok]
    simp only [require_eq_ok]
    constructor
    · rintro ⟨⟨start, rest⟩, hpair, h⟩
      obtain ⟨start, hstart, rfl, hpath⟩ := amdPath_eq_some.mp hpair
      rw [hpath]
      exact (amdDocument_eq_ok hstart).mp h
    · rintro ⟨allowed, hpath, hps, hy⟩
      obtain ⟨start, rest, hstart, hsplit⟩ := hpath.exists_start
      rw [hsplit] at hpath hy ⊢
      exact ⟨_, amdPath_eq_some.mpr ⟨start, hstart, rfl, rfl⟩,
        (amdDocument_eq_ok hstart).mpr ⟨allowed, hpath, hps, hy⟩⟩
  · intro x
    rw [hunfold]
    exact failsWith_require.bind fun _ => failsWith_amdDocument _ _ _

theorem sorts_canonicalizeNvidiaRim : Sorts canonicalizeNvidiaRim RimPath := by
  have hunfold : ∀ x, canonicalizeNvidiaRim x = (do
      let rest ← require (stripPrefix "/v1/rim/".toList (pathOf x)) invalidReq
      reject ('/' ∈ rest ∨ isRimId rest = false) invalidReq
      let query ← canonicalizeQuery (splitPathQuery x.toList).2 []
      return "/v1/rim/" ++ String.ofList rest ++ String.ofList query) := by
    intro x
    rw [pathOf_eq]
    rfl
  have hform : ∀ rest text : List Char, "/v1/rim/" ++ String.ofList rest ++ String.ofList text =
      String.ofList ("/v1/rim/".toList ++ rest ++ text) := by
    intro rest text
    rw [← String.toList_inj]
    simp
  constructor
  · rintro path allowed ⟨_⟩
    exact plain_nil
  · intro x y
    rw [requestParams_eq, hunfold]
    simp only [bind_eq_ok, require_eq_ok, reject_eq_ok, pure_eq_ok, stripPrefix_eq_some,
      canonicalizeQuery_eq_ok plain_nil, hform]
    constructor
    · rintro ⟨rest, hpath, _, hrest, _, ⟨hps, rfl⟩, rfl⟩
      obtain ⟨-, hid⟩ := not_or.mp hrest
      refine ⟨[], ?_, hps, ?_⟩
      · rw [hpath]
        exact .rim (by simpa using hid)
      · rw [normalText, hpath]
    · rintro ⟨allowed, hpath, hps, rfl⟩
      generalize hx : pathOf x = path at hpath ⊢
      obtain ⟨hid⟩ := hpath
      refine ⟨_, rfl, (), ?_, _, ⟨hps, rfl⟩, rfl⟩
      rw [not_or]
      refine ⟨fun hmem => ?_, by simpa using hid⟩
      exact absurd (isRimId_char hid hmem) (by decide)
  · intro x
    rw [hunfold]
    exact failsWith_require.bind fun _ => failsWith_reject.bind fun _ =>
      failsWith_canonicalizeQuery.bind fun _ => failsWith_ok

end Functions

section Outputs

variable {allowed : List (List Char)} {path : List Char} {ps : List Param} {y : String}

/-- A security level of a chip. -/
structure SplParam (p : Param) : Prop where
  name : p.1 ∈ amdHwidQueryParams
  length : 1 ≤ p.2.length ∧ p.2.length ≤ 3
  digits : ∀ c ∈ p.2, c.isDigit = true
  bound : decimalValue p.2 ≤ 255

/-- One path of so many steps, with one query at most, and nothing to decode. -/
structure Confined (steps : Nat) (y : String) : Prop where
  percent : '%' ∉ y.toList
  fragment : '#' ∉ y.toList
  query : y.toList.count '?' ≤ 1
  steps : y.toList.count '/' = steps

structure AmdOutput (y : String) : Prop where
  confined : Confined 4 y
  shape : ∃ start product last ps,
    (start = "/vcek/".toList ∨ start = "/vlek/".toList) ∧ isAlnumSegment product = true ∧
    (isAlnumSegment last = true ∨ last = "cert_chain".toList) ∧
    y.toList = start ++ ("v1/".toList ++ (product ++ '/' :: last)) ++ renderQuery ps ∧
    (ps ≠ [] → isAlnumSegment last = true ∧ last ≠ "crl".toList) ∧
    ps.Pairwise (fun a b => compare a.1 b.1 = .lt) ∧ ∀ p ∈ ps, SplParam p

structure RimOutput (y : String) : Prop where
  confined : Confined 3 y
  shape : ∃ id, id ≠ [] ∧ id ≠ ['.'] ∧ id ≠ ['.', '.'] ∧
    (∀ c ∈ id, c.isAlphanum = true ∨ c = '-' ∨ c = '_' ∨ c = '.') ∧
    y.toList = "/v1/rim/".toList ++ id

theorem Admitted.spl {p : Param} (h : Admitted amdHwidQueryParams p) : SplParam p := by
  have hnumeral := h.numeral
  simp only [isSplValue, Bool.and_eq_true, decide_eq_true_eq, List.all_eq_true] at hnumeral
  obtain ⟨⟨hlength, hdigits⟩, hbound⟩ := hnumeral
  exact ⟨h.whitelisted, hlength, hdigits, by omega⟩

theorem Admissible.mem_encode (h : Admissible allowed ps) (hplain : Plain allowed) {c : Char}
    (hc : c ∈ encodeParams ps) : c = '&' ∨ c = '=' ∨ c.isAlphanum = true := by
  rcases mem_intercalate hc with hc | ⟨part, hpart, hc⟩
  · exact .inl hc
  · obtain ⟨p, hp, rfl⟩ := List.mem_map.mp hpart
    exact .inr ((h.admitted p hp).mem_text hplain hc)

/-- The text holds plain characters, so many of them slashes. -/
def Steps (text : List Char) (n : Nat) : Prop := text.all pathChar = true ∧ text.count '/' = n

theorem steps_append {a b : List Char} {m n : Nat} (ha : Steps a m) (hb : Steps b n) :
    Steps (a ++ b) (m + n) := by
  constructor
  · rw [List.all_append, ha.1, hb.1]
    rfl
  · rw [List.count_append, ha.2, hb.2]

theorem steps_alnum {s : List Char} (hs : isAlnumSegment s = true) : Steps s 0 := by
  constructor
  · rw [List.all_eq_true]
    intro c hc
    simp [pathChar, mem_alnum hs hc]
  · exact List.count_eq_zero.mpr (slash_not_mem_alnum hs)

theorem steps_amdPath {start product last : List Char}
    (hstart : start = "/vcek/".toList ∨ start = "/vlek/".toList)
    (hproduct : isAlnumSegment product = true)
    (hlast : isAlnumSegment last = true ∨ last = "cert_chain".toList) :
    Steps (amdPath start product last) 4 := by
  have hstart : Steps start 2 := by
    rcases hstart with rfl | rfl
    · exact ⟨by decide, by decide⟩
    · exact ⟨by decide, by decide⟩
  have hlast : Steps last 0 := by
    rcases hlast with hlast | rfl
    · exact steps_alnum hlast
    · exact ⟨by decide, by decide⟩
  have hv1 : Steps "v1/".toList 1 := ⟨by decide, by decide⟩
  have hslash : Steps ['/'] 1 := ⟨by decide, by decide⟩
  have hsplit : amdPath start product last =
      start ++ ("v1/".toList ++ (product ++ (['/'] ++ last))) := rfl
  rw [hsplit]
  exact steps_append hstart (steps_append hv1 (steps_append (steps_alnum hproduct)
    (steps_append hslash hlast)))

theorem steps_rimPath {id : List Char} (hid : isRimId id = true) :
    Steps ("/v1/rim/".toList ++ id) 3 := by
  have hid : Steps id 0 := by
    constructor
    · rw [List.all_eq_true]
      intro c hc
      rw [pathChar, isRimId_char hid hc, Bool.true_or]
    · rw [List.count_eq_zero]
      intro hmem
      exact absurd (isRimId_char hid hmem) (by decide)
  have hrim : Steps "/v1/rim/".toList 3 := ⟨by decide, by decide⟩
  exact steps_append hrim hid

/-- Plain characters, one mark, and the parameters' own: nothing else is there. -/
theorem Steps.confined {n : Nat} (hpath : Steps path n) (hps : Admissible allowed ps)
    (hplain : Plain allowed) : Confined n (String.ofList (path ++ renderQuery ps)) := by
  obtain ⟨hpath, hcount⟩ := hpath
  rw [List.all_eq_true] at hpath
  have hmem : ∀ c ∈ path ++ renderQuery ps,
      pathChar c = true ∨ c = '?' ∨ c = '&' ∨ c = '=' ∨ c.isAlphanum = true := by
    intro c hc
    rcases List.mem_append.mp hc with hc | hc
    · exact .inl (hpath c hc)
    · rw [renderQuery] at hc
      split at hc
      · cases hc
      · rcases List.mem_cons.mp hc with rfl | hc
        · exact .inr (.inl rfl)
        · exact .inr (.inr (hps.mem_encode hplain hc))
  have hnone : ∀ c : Char, pathChar c = false → path.count c = 0 := by
    intro c hc
    rw [List.count_eq_zero]
    intro hin
    rw [hpath c hin] at hc
    cases hc
  have hrest : ∀ c : Char, ¬ (c = '&' ∨ c = '=' ∨ c.isAlphanum = true) →
      (encodeParams ps).count c = 0 := by
    intro c hc
    rw [List.count_eq_zero]
    exact fun hin => hc (hps.mem_encode hplain hin)
  constructor
  · rw [String.toList_ofList]
    intro hin
    exact absurd (hmem '%' hin) (by decide)
  · rw [String.toList_ofList]
    intro hin
    exact absurd (hmem '#' hin) (by decide)
  · rw [String.toList_ofList, List.count_append, hnone '?' (by decide), renderQuery]
    split
    · simp
    · rw [List.count_cons_self, hrest '?' (by decide)]
  · rw [String.toList_ofList, List.count_append, hcount, renderQuery]
    split
    · rfl
    · rw [List.count_cons_of_ne (by decide), hrest '/' (by decide)]
      rfl

theorem amdOutput {x : String} (hy : canonicalizeAmdKds x = .ok y) : AmdOutput y := by
  obtain ⟨allowed, hpath, hps, rfl⟩ := (sorts_canonicalizeAmdKds.accepts x y).mp hy
  have hplain := sorts_canonicalizeAmdKds.plain _ _ hpath
  have hsorted := hps.perm (List.mergeSort_perm _ paramLe).symm
  have hincreasing := hps.sorted
  rw [normalText]
  generalize pathOf x = path at hpath
  generalize (requestParams x).mergeSort paramLe = ps at hsorted hincreasing
  cases hpath with
  | @document start product last hstart hproduct hlast =>
    have hlast : isAlnumSegment last = true ∨ last = "cert_chain".toList := by
      rcases hlast with rfl | rfl
      · exact .inr rfl
      · exact .inl (by decide)
    have hconfined := (steps_amdPath hstart hproduct hlast).confined hsorted hplain
    obtain rfl := hsorted.of_nil
    exact ⟨hconfined, start, product, last, [], hstart, hproduct, hlast,
      String.toList_ofList, by simp, by simp, by simp⟩
  | @chip start product hwid hstart hproduct hlast hhwid =>
    have hconfined := (steps_amdPath hstart hproduct (.inl hhwid)).confined hsorted hplain
    exact ⟨hconfined, start, product, hwid, ps, hstart, hproduct, .inl hhwid,
      String.toList_ofList, fun _ => ⟨hhwid, fun hcrl => hlast (.inr hcrl)⟩, hincreasing,
      fun p hp => (hsorted.admitted p hp).spl⟩

theorem rimOutput {x : String} (hy : canonicalizeNvidiaRim x = .ok y) : RimOutput y := by
  obtain ⟨allowed, hpath, hps, rfl⟩ := (sorts_canonicalizeNvidiaRim.accepts x y).mp hy
  have hplain := sorts_canonicalizeNvidiaRim.plain _ _ hpath
  have hsorted := hps.perm (List.mergeSort_perm _ paramLe).symm
  rw [normalText]
  generalize pathOf x = path at hpath
  generalize (requestParams x).mergeSort paramLe = ps at hsorted
  cases hpath with
  | @rim id hid =>
    have hid' := hid
    simp only [isRimId, Bool.and_eq_true, Bool.not_eq_true', List.isEmpty_eq_false_iff, bne_iff_ne,
      List.all_eq_true, Bool.or_eq_true, beq_iff_eq] at hid'
    obtain ⟨⟨⟨hne, hdot⟩, hdots⟩, hmarks⟩ := hid'
    have hconfined := (steps_rimPath hid).confined hsorted hplain
    obtain rfl := hsorted.of_nil
    refine ⟨hconfined, id, hne, hdot, hdots, ?_, ?_⟩
    · intro c hc
      have hmark := hmarks c hc
      tauto
    · rw [String.toList_ofList, renderQuery, if_pos rfl, List.append_nil]

/-- What makes the results of a function a normal form of its arguments. -/
structure NormalForm (f : String → Except PccsError String) (Output : String → Prop) : Prop where
  idempotent : ∀ x y, f x = .ok y → f y = .ok y
  permuted : ∀ (path : List Char) (parts parts' : List (List Char)), '?' ∉ path →
    (∀ part ∈ parts, '&' ∉ part) → parts.Perm parts' →
    f (withQuery path parts) = f (withQuery path parts')
  separated : ∀ x x' y y', f x = .ok y → f x' = .ok y' →
    (y = y' ↔ pathOf x = pathOf x' ∧ ∀ p, p ∈ requestParams x ↔ p ∈ requestParams x')
  shaped : ∀ x y, f x = .ok y → Output y

theorem Sorts.normalForm {f : String → Except PccsError String}
    {Path : List Char → List (List Char) → Prop} {Output : String → Prop} (h : Sorts f Path)
    (hshape : ∀ x y, f x = .ok y → Output y) : NormalForm f Output := by
  constructor
  · intro x y hx
    exact h.idempotent hx
  · intro path parts parts' hpath hparts hperm
    refine h.permuted ?_ (requestParams_perm hpath hparts hperm)
    rw [pathOf_withQuery hpath, pathOf_withQuery hpath]
  · intro x x' y y' hx hx'
    exact h.separated hx hx'
  · exact hshape

/-- One request, one name: what is looked up and sent is a normal form of the
path and the set of its parameters. -/
theorem canonical_paths :
    NormalForm canonicalizeAmdKds AmdOutput ∧ NormalForm canonicalizeNvidiaRim RimOutput :=
  ⟨sorts_canonicalizeAmdKds.normalForm fun _ _ => amdOutput,
    sorts_canonicalizeNvidiaRim.normalForm fun _ _ => rimOutput⟩

/-- Two parameters in the wrong order. -/
example : canonicalizeAmdKds "/vcek/v1/Milan/0a1B?teeSPL=0&blSPL=03" =
    .ok "/vcek/v1/Milan/0a1B?blSPL=03&teeSPL=0" := by
  have hparams : requestParams "/vcek/v1/Milan/0a1B?teeSPL=0&blSPL=03" =
      [("teeSPL".toList, "0".toList), ("blSPL".toList, "03".toList)] := by decide
  have hpath : pathOf "/vcek/v1/Milan/0a1B?teeSPL=0&blSPL=03" =
      amdPath "/vcek/".toList "Milan".toList "0a1B".toList := by decide
  have hsort : [("teeSPL".toList, "0".toList), ("blSPL".toList, "03".toList)].mergeSort paramLe =
      [("blSPL".toList, "03".toList), ("teeSPL".toList, "0".toList)] := by
    simp [List.mergeSort, List.MergeSort.Internal.splitInTwo]
    rw [List.cons_merge_cons, if_neg (by decide), List.merge_right]
  refine (sorts_canonicalizeAmdKds.accepts _ _).mpr ⟨amdHwidQueryParams, ?_, ?_, ?_⟩
  · rw [hpath]
    exact .chip (.inl rfl) (by decide) (by decide) (by decide)
  · rw [hparams]
    refine ⟨List.forall_mem_cons.mpr ⟨⟨by decide, by decide⟩, ?_⟩, by decide⟩
    exact List.forall_mem_singleton.mpr ⟨by decide, by decide⟩
  · rw [normalText, hpath, hparams, hsort]
    decide

end Outputs

end Pccs.Paths
