import Pccs.Validate
import Mathlib.Data.List.DropRight
import Mathlib.Data.List.TakeDrop

/-!
# CRL URLs

A CRL is downloaded from the URL a client names, so the URL is checked first.
The checks cut the text at hand-picked places; here they are compared with the
generic syntax of a URL, with the host that the configuration reads off a URL,
and with the rule that says which requests carry the subscription key.
-/
namespace Pccs.Urls

open Text Validate

section Syntax

/-- The components of an absolute URL. -/
structure Parts where
  scheme : List Char
  authority : List Char
  path : List Char
  query : Option (List Char)
  fragment : Option (List Char)
deriving DecidableEq

def endsAuthority (c : Char) : Bool := c == '/' || c == '?' || c == '#'

def endsPath (c : Char) : Bool := c == '?' || c == '#'

def afterPath : List Char → Option (List Char) × Option (List Char)
  | '?' :: rest =>
    (some (rest.takeWhile (· ≠ '#')), (rest.dropWhile (· ≠ '#')).tail?)
  | '#' :: rest => (none, some rest)
  | _ => (none, none)

/-- The generic syntax: the authority lies between `//` and the first `/`, `?`
or `#`, the query between `?` and `#`. -/
def split (url : List Char) : Option Parts :=
  match url.dropWhile (· ≠ ':') with
  | ':' :: '/' :: '/' :: rest =>
    let behind := rest.dropWhile (!endsAuthority ·)
    let (query, fragment) := afterPath (behind.dropWhile (!endsPath ·))
    some ⟨url.takeWhile (· ≠ ':'), rest.takeWhile (!endsAuthority ·),
      behind.takeWhile (!endsPath ·), query, fragment⟩
  | _ => none

/-- Behind the scheme. -/
theorem split_https (rest : List Char) : split ("https://".toList ++ rest) =
    let behind := rest.dropWhile (!endsAuthority ·)
    let (query, fragment) := afterPath (behind.dropWhile (!endsPath ·))
    some ⟨"https".toList, rest.takeWhile (!endsAuthority ·), behind.takeWhile (!endsPath ·),
      query, fragment⟩ := rfl

end Syntax

section Cutting

variable {c : Char} {word text before after : List Char}

theorem splitOnce_eq_some : splitOnce c text = some (before, after) ↔
    text = before ++ c :: after ∧ c ∉ before := by
  have hspan : text = text.takeWhile (· ≠ c) ++ text.dropWhile (· ≠ c) :=
    List.takeWhile_append_dropWhile.symm
  have hfree : c ∉ text.takeWhile (· ≠ c) := fun h => by
    simpa using List.mem_takeWhile_imp h
  rw [splitOnce, List.span_eq_takeWhile_dropWhile]
  constructor
  · intro h
    cases hrest : text.dropWhile (· ≠ c) with
    | nil =>
      rw [hrest] at h
      cases h
    | cons d rest =>
      have hd : d = c := by
        have hhead := List.head?_dropWhile_not (· ≠ c) text
        rw [hrest] at hhead
        simpa using hhead
      rw [hrest, hd] at hspan
      rw [hrest] at h
      cases h
      exact ⟨hspan, hfree⟩
  · rintro ⟨rfl, hnot⟩
    have hall : ∀ d ∈ before, decide (d ≠ c) = true := fun d hd => by
      simpa using fun he : d = c => hnot (he ▸ hd)
    rw [List.takeWhile_append_of_pos hall, List.dropWhile_append_of_pos hall]
    simp

theorem stripPrefix_eq_some {rest : List Char} :
    stripPrefix word text = some rest ↔ text = word ++ rest := by
  unfold stripPrefix
  split
  · rename_i h
    obtain ⟨rest', rfl⟩ := List.isPrefixOf_iff_prefix.mp h
    simp [eq_comm]
  · rename_i h
    refine ⟨nofun, ?_⟩
    rintro rfl
    exact absurd (List.isPrefixOf_iff_prefix.mpr (List.prefix_append word rest)) h

theorem stripSuffix_eq_some {rest : List Char} :
    stripSuffix word text = some rest ↔ text = rest ++ word := by
  unfold stripSuffix
  split
  · rename_i h
    obtain ⟨rest', rfl⟩ := List.isSuffixOf_iff_suffix.mp h
    simp [eq_comm]
  · rename_i h
    refine ⟨nofun, ?_⟩
    rintro rfl
    exact absurd (List.isSuffixOf_iff_suffix.mpr (List.suffix_append rest word)) h

end Cutting

section Hosts

/-- The host of a URL, in lower case. A URL without a scheme is tolerated. -/
def uriHost (uri : String) : Option String :=
  let rest := (PckCert.afterMarker "://".toList uri.toList).getD uri.toList
  let authority := (rest.takeWhile (!endsAuthority ·)).rtakeWhile (· ≠ '@')
  let host := match authority with
    | '[' :: v6 => v6.takeWhile (· ≠ ']')
    | _ => authority.takeWhile (· ≠ ':')
  if host = [] then none else some (toAsciiLowercase (String.ofList host))

def Label (text : List Char) : Prop := ∀ c ∈ text, hostLabelChar c = true

/-- The hosts that serve CRLs. -/
inductive IntelHost : List Char → Prop
  | proxy : IntelHost "certprx.adsdcsp.com".toList
  | certificates (p : List Char) (hp : Label p) :
      IntelHost (p ++ "certificates.trustedservices.intel.com".toList)
  | api : IntelHost "api.trustedservices.intel.com".toList
  | apiOf (p : List Char) (hp : Label p) : IntelHost (p ++ ".api.trustedservices.intel.com".toList)
  | prod (q : List Char) (hne : q ≠ []) (hq : Label q) :
      IntelHost (q ++ ".az.sgxprod.adsdcsp.com".toList)
  | np (q : List Char) (hne : q ≠ []) (hq : Label q) :
      IntelHost (q ++ ".az.sgxnp.adsdcsp.com".toList)

def hostChar (c : Char) : Bool := hostLabelChar c || c == '.'

variable {host : List Char}

theorem label_of_all {text : List Char} (h : text.all hostLabelChar = true) : Label text :=
  List.all_eq_true.mp h

/-- A property of the characters of a fixed text, checked one after the other. -/
theorem everyChar {p : Char → Bool} {b : Bool} {l : List Char} (h : l.all (p · == b) = true) :
    ∀ c ∈ l, p c = b := by
  simpa using h

theorem IntelHost.chars (h : IntelHost host) : ∀ c ∈ host, hostChar c = true := by
  have hlabel : ∀ p : List Char, Label p → ∀ c ∈ p, hostChar c = true :=
    fun p hp c hc => by simp [hostChar, hp c hc]
  cases h with
  | proxy => exact everyChar (by decide)
  | certificates p hp => exact List.forall_mem_append.mpr ⟨hlabel p hp, everyChar (by decide)⟩
  | api => exact everyChar (by decide)
  | apiOf p hp => exact List.forall_mem_append.mpr ⟨hlabel p hp, everyChar (by decide)⟩
  | prod q _ hq => exact List.forall_mem_append.mpr ⟨hlabel q hq, everyChar (by decide)⟩
  | np q _ hq => exact List.forall_mem_append.mpr ⟨hlabel q hq, everyChar (by decide)⟩

theorem IntelHost.ne_nil (h : IntelHost host) : host ≠ [] := by
  cases h <;> simp

theorem ne_of_hostChar {c : Char} (h : hostChar c = true) :
    endsAuthority c = false ∧ c ≠ '@' ∧ c ≠ ':' ∧ c ≠ '[' := by
  have hne : ∀ d, hostChar d = false → c ≠ d := by
    rintro d hd rfl
    cases hd.symm.trans h
  refine ⟨?_, hne _ (by decide), hne _ (by decide), hne _ (by decide)⟩
  simp [endsAuthority, hne '/' (by decide), hne '?' (by decide), hne '#' (by decide)]

/-- A host that is followed by a path is cut off where it ends. -/
theorem takeWhile_host (h : IntelHost host) (path : List Char) :
    (host ++ '/' :: path).takeWhile (!endsAuthority ·) = host ∧
      (host ++ '/' :: path).dropWhile (!endsAuthority ·) = '/' :: path := by
  have hall : ∀ c ∈ host, (!endsAuthority c) = true := fun c hc => by
    simp [(ne_of_hostChar (h.chars c hc)).1]
  rw [List.takeWhile_append_of_pos hall, List.dropWhile_append_of_pos hall]
  simp [endsAuthority]

theorem uriHost_https (h : IntelHost host) (path : List Char) {uri : String}
    (huri : uri.toList = "https://".toList ++ (host ++ '/' :: path)) :
    uriHost uri = some (toAsciiLowercase (String.ofList host)) := by
  have hafter : PckCert.afterMarker "://".toList uri.toList = some (host ++ '/' :: path) := by
    rw [huri]
    rfl
  have hat : host.rtakeWhile (· ≠ '@') = host :=
    List.rtakeWhile_eq_self_iff.mpr fun c hc => by
      simpa using (ne_of_hostChar (h.chars c hc)).2.1
  have hcolon : host.takeWhile (· ≠ ':') = host :=
    List.takeWhile_eq_self_iff.mpr fun c hc => by
      simpa using (ne_of_hostChar (h.chars c hc)).2.2.1
  rw [uriHost, hafter, Option.getD_some, (takeWhile_host h path).1, hat]
  split
  · exact absurd rfl (ne_of_hostChar (h.chars '[' (by simp))).2.2.2
  · rw [hcolon, if_neg h.ne_nil]

end Hosts

section Gate

variable {uri : String}

/-- A version number without a leading zero. -/
def Version (n : List Char) : Prop :=
  n ≠ [] ∧ n.head? ≠ some '0' ∧ ∀ c ∈ n, '0' ≤ c ∧ c ≤ '9'

/-- A URL that the gate lets pass, cut where the gate cuts it. -/
inductive Admitted : String → Prop
  | root {uri : String} (host tail : List Char) (hhost : IntelHost host) (hne : tail ≠ [])
      (huri : uri.toList =
        "https://".toList ++ (host ++ '/' :: ("IntelSGXRootCA.".toList ++ tail))) : Admitted uri
  | intermediate {uri : String} (host n query : List Char) (hhost : IntelHost host)
      (hn : Version n) (hne : query ≠ [])
      (huri : uri.toList = "https://".toList ++ (host ++
        '/' :: ("sgx/certification/v".toList ++ n ++ "/pckcrl".toList ++ '?' :: query))) :
      Admitted uri

theorem intelHost_of_isIntermediateHost {host : List Char} (h : isIntermediateHost host = true) :
    IntelHost host := by
  unfold isIntermediateHost at h
  split at h
  · rename_i hapi
    simp only [Bool.or_eq_true, beq_iff_eq, List.isSuffixOf_iff_suffix] at hapi
    obtain rfl | ⟨p, rfl⟩ := hapi
    · exact .api
    · have hfront : stripSuffix "api.trustedservices.intel.com".toList
          (p ++ ".api.trustedservices.intel.com".toList) = some (p ++ ['.']) := by
        rw [stripSuffix_eq_some]
        simp
      have hdot : stripSuffix ['.'] (p ++ ['.']) = some p := stripSuffix_eq_some.mpr rfl
      simp only [hfront, Option.getD_some, hdot] at h
      exact .apiOf p (label_of_all h)
  · split at h
    · rename_i left hleft
      obtain rfl := stripSuffix_eq_some.mp hleft
      simp only [ne_eq, Bool.and_eq_true, decide_eq_true_eq] at h
      exact .prod left h.1 (label_of_all h.2)
    · split at h
      · rename_i left hleft
        obtain rfl := stripSuffix_eq_some.mp hleft
        simp only [ne_eq, Bool.and_eq_true, decide_eq_true_eq] at h
        exact .np left h.1 (label_of_all h.2)
      · cases h

theorem admitted_of_root (h : isRootCrlUri uri = true) : Admitted uri := by
  obtain ⟨⟨host, path⟩, hcut, h⟩ := (Option.any_eq_true _ _).mp h
  obtain ⟨rest, hrest, hcut⟩ := Option.bind_eq_some_iff.mp hcut
  obtain ⟨hhost, htail⟩ := (Bool.and_eq_true _ _).mp h
  obtain ⟨tail, hpath, hne⟩ := (Option.any_eq_true _ _).mp htail
  obtain ⟨rfl, _⟩ := splitOnce_eq_some.mp hcut
  obtain rfl := stripPrefix_eq_some.mp hpath
  refine .root host tail ?_ (by simpa using hne) (stripPrefix_eq_some.mp hrest)
  obtain hproxy | hcerts := (Bool.or_eq_true _ _).mp hhost
  · rw [beq_iff_eq.mp hproxy]
    exact .proxy
  · obtain ⟨p, hp, hlabel⟩ := (Option.any_eq_true _ _).mp hcerts
    rw [stripSuffix_eq_some.mp hp]
    exact .certificates p (label_of_all hlabel)

theorem admitted_of_intermediate (h : isIntermediateCrlUri uri = true) : Admitted uri := by
  obtain ⟨⟨host, pathQ⟩, hcut, h⟩ := (Option.any_eq_true _ _).mp h
  obtain ⟨rest, hrest, hcut⟩ := Option.bind_eq_some_iff.mp hcut
  obtain ⟨hhost, h⟩ := (Bool.and_eq_true _ _).mp h
  obtain ⟨⟨path, query⟩, hquery, h⟩ := (Option.any_eq_true _ _).mp h
  obtain ⟨hne, h⟩ := (Bool.and_eq_true _ _).mp h
  obtain ⟨⟨ver, tail⟩, hver, h⟩ := (Option.any_eq_true _ _).mp h
  obtain ⟨verAndRest, hpath, hver⟩ := Option.bind_eq_some_iff.mp hver
  simp only [Bool.and_eq_true, beq_iff_eq, decide_eq_true_eq, List.all_eq_true] at h hne
  obtain ⟨⟨⟨rfl, hempty⟩, hzero⟩, hdigits⟩ := h
  obtain ⟨rfl, _⟩ := splitOnce_eq_some.mp hcut
  obtain ⟨rfl, _⟩ := splitOnce_eq_some.mp hquery
  obtain rfl := stripPrefix_eq_some.mp hpath
  obtain ⟨rfl, _⟩ := splitOnce_eq_some.mp hver
  refine .intermediate host ver query (intelHost_of_isIntermediateHost hhost)
    ⟨hempty, hzero, hdigits⟩ hne ?_
  have hslash : '/' :: "pckcrl".toList = "/pckcrl".toList := rfl
  rw [stripPrefix_eq_some.mp hrest, hslash]
  simp only [List.append_assoc]

theorem admitted (h : isValidCrlUri uri = true) : Admitted uri := by
  obtain ⟨_, h⟩ := (Bool.and_eq_true _ _).mp h
  obtain h | h := (Bool.or_eq_true _ _).mp h
  · exact admitted_of_root h
  · exact admitted_of_intermediate h

/-- What a checked URL looks like by the generic syntax; `queried` is what is
asked of the query of an intermediate CA's CRL. -/
structure OnIntel (queried : Parts → Prop) (uri : String) (p : Parts) : Prop where
  scheme : p.scheme = "https".toList
  noUserinfo : '@' ∉ p.authority
  noPort : ':' ∉ p.authority
  host : ∃ h, uriHost uri = some h ∧ eqIgnoreAsciiCase h (String.ofList p.authority) = true
  intel : IntelHost p.authority
  path : "/IntelSGXRootCA.".toList <+: p.path ∨
    ∃ n, Version n ∧ p.path = "/sgx/certification/v".toList ++ n ++ "/pckcrl".toList ∧ queried p

def NonemptyQuery (p : Parts) : Prop := ∃ q, p.query = some q ∧ q ≠ []

/-- There is a query, and the URL does not end with its `?`. -/
def QueryOrFragment (p : Parts) : Prop := ∃ q, p.query = some q ∧ (q ≠ [] ∨ p.fragment.isSome)

theorem onIntel_of_admitted {host path : List Char} (hhost : IntelHost host)
    {queried : Parts → Prop} (huri : uri.toList = "https://".toList ++ (host ++ '/' :: path))
    (hpath : let q := afterPath (('/' :: path).dropWhile (!endsPath ·))
      let p : Parts := ⟨"https".toList, host, ('/' :: path).takeWhile (!endsPath ·), q.1, q.2⟩
      "/IntelSGXRootCA.".toList <+: p.path ∨
        ∃ n, Version n ∧ p.path = "/sgx/certification/v".toList ++ n ++ "/pckcrl".toList ∧
          queried p) :
    ∃ p, split uri.toList = some p ∧ OnIntel queried uri p := by
  obtain ⟨hauthority, hbehind⟩ := takeWhile_host hhost path
  refine ⟨_, by rw [huri, split_https, hauthority, hbehind], rfl, fun h => ?_, fun h => ?_, ?_,
    hhost, hpath⟩
  · exact (ne_of_hostChar (hhost.chars _ h)).2.1 rfl
  · exact (ne_of_hostChar (hhost.chars _ h)).2.2.1 rfl
  · refine ⟨_, uriHost_https hhost path huri, ?_⟩
    simp [eqIgnoreAsciiCase]

theorem takeWhile_path {path : List Char} (h : ∀ c ∈ path, endsPath c = false) (rest : List Char) :
    (path ++ rest).takeWhile (!endsPath ·) = path ++ rest.takeWhile (!endsPath ·) ∧
      (path ++ rest).dropWhile (!endsPath ·) = rest.dropWhile (!endsPath ·) := by
  have hall : ∀ c ∈ path, (!endsPath c) = true := fun c hc => by simp [h c hc]
  exact ⟨List.takeWhile_append_of_pos hall, List.dropWhile_append_of_pos hall⟩

theorem version_chars {n : List Char} (h : Version n) : ∀ c ∈ n, endsPath c = false := by
  intro c hc
  obtain ⟨h₀, h₉⟩ := h.2.2 c hc
  have hne : ∀ d : Char, d < '0' → c ≠ d := by
    rintro d hd rfl
    exact absurd hd (Char.not_lt.mpr h₀)
  simp [endsPath, hne '#' (by decide), show c ≠ '?' from by rintro rfl; exact absurd h₉ (by decide)]

theorem crlUri_on_intel (h : isValidCrlUri uri = true) :
    ∃ p, split uri.toList = some p ∧ OnIntel QueryOrFragment uri p := by
  cases admitted h with
  | root host tail hhost hne huri =>
    refine onIntel_of_admitted hhost huri (.inl ?_)
    have hroot : ∀ c ∈ "/IntelSGXRootCA.".toList, endsPath c = false := everyChar (by decide)
    exact ⟨_, (takeWhile_path hroot tail).1.symm⟩
  | intermediate host n query hhost hn hne huri =>
    have hpath : ∀ c ∈ "/sgx/certification/v".toList ++ n ++ "/pckcrl".toList,
        endsPath c = false :=
      List.forall_mem_append.mpr
        ⟨List.forall_mem_append.mpr ⟨everyChar (by decide), version_chars hn⟩,
          everyChar (by decide)⟩
    obtain ⟨htake, hdrop⟩ := takeWhile_path hpath ('?' :: query)
    have hquery : ('/' :: ("sgx/certification/v".toList ++ n ++ "/pckcrl".toList ++
        '?' :: query)).dropWhile (!endsPath ·) = '?' :: query :=
      hdrop.trans (by simp [endsPath])
    refine onIntel_of_admitted hhost huri (.inr ⟨n, hn, ?_, ?_⟩)
    · refine htake.trans ?_
      simp [endsPath]
    · rw [hquery]
      refine ⟨_, rfl, ?_⟩
      cases query with
      | nil => exact absurd rfl hne
      | cons c query =>
        by_cases hc : c = '#'
        · subst hc
          exact .inr rfl
        · refine .inl ?_
          simp [hc]

def rootCrlUri : String := "https://certificates.trustedservices.intel.com/IntelSGXRootCA.der"

theorem crlUri_on_intel_root : isValidCrlUri rootCrlUri = true ∧
    ∃ p, split rootCrlUri.toList = some p ∧ OnIntel QueryOrFragment rootCrlUri p :=
  ⟨by decide, crlUri_on_intel (by decide)⟩

/-- The gate takes a `?` with nothing but a fragment behind it. -/
def emptyQueryUri : String :=
  "https://api.trustedservices.intel.com/sgx/certification/v4/pckcrl?#a"

theorem empty_query_admitted : isValidCrlUri emptyQueryUri = true ∧
    ¬ ∃ p, split emptyQueryUri.toList = some p ∧ OnIntel NonemptyQuery emptyQueryUri p := by
  refine ⟨by decide, ?_⟩
  rintro ⟨p, hp, h⟩
  have hsplit : split emptyQueryUri.toList = some ⟨"https".toList,
    "api.trustedservices.intel.com".toList, "/sgx/certification/v4/pckcrl".toList, some [],
    some ['a']⟩ := by decide
  cases hsplit.symm.trans hp
  obtain hroot | ⟨_, _, _, q, hq, hne⟩ := h.path
  · revert hroot
    decide
  · cases hq
    exact hne rfl

end Gate

section Key

variable {uri : String}

def earlyAccessPrefix : String := "https://validation.api.trustedservices.intel.com/"

def isEarlyAccess (url : String) : Bool := earlyAccessPrefix.toList.isPrefixOf url.toList

/-- The subscription key goes to `pckcerts` and to the early-access portal. -/
def wantsApiKey (url : String) : Bool :=
  isEarlyAccess url ||
    "/pckcerts".toList.isSuffixOf ((url.toList.takeWhile (!endsPath ·)).rdropWhile (· == '/'))

/-- Whether a request carries the subscription key. -/
def sendKey (attachKey : Bool) (apiKey url : String) : Bool :=
  attachKey && wantsApiKey url && apiKey ≠ ""

/-- The request of a CRL download, by whether it carries the key. -/
def fetchCrlKey (apiKey uri : String) : Except PccsError Bool := do
  Fallible.reject (PckCert.containsText "/v3/" uri.toList = true) PccsError.pcsV3ReachedEol
  return sendKey true apiKey uri

/-- A root CRL URL whose path ends like that of a certificate request. -/
def EndsInPckcerts (uri : String) : Prop :=
  ∃ (host x rest : List Char) (slashes : Nat), uri.toList = "https://".toList ++ (host ++ '/' ::
      ("IntelSGXRootCA.".toList ++
        (x ++ ("/pckcerts".toList ++ List.replicate slashes '/') ++ rest))) ∧
    '/' ∉ host ∧ (∀ c ∈ x, endsPath c = false) ∧ ∀ c, rest.head? = some c → endsPath c = true

/-- Slashes at the end do not count. -/
theorem isSuffixOf_rdropWhile {word text : List Char} {c : Char} (hword : word.getLast? = some c)
    (hc : c ≠ '/') : word.isSuffixOf (text.rdropWhile (· == '/')) = true ↔
      ∃ (y : List Char) (n : Nat), text = y ++ (word ++ List.replicate n '/') := by
  rw [List.isSuffixOf_iff_suffix]
  constructor
  · rintro ⟨y, hy⟩
    refine ⟨y, (text.rtakeWhile (· == '/')).length, ?_⟩
    have hslashes : text.rtakeWhile (· == '/') =
        List.replicate (text.rtakeWhile (· == '/')).length '/' :=
      List.eq_replicate_iff.mpr ⟨rfl, fun d hd => by simpa using List.mem_rtakeWhile_imp hd⟩
    rw [← hslashes, ← List.append_assoc, hy]
    exact List.rdropWhile_append_rtakeWhile.symm
  · rintro ⟨y, n, rfl⟩
    rw [← List.append_assoc]
    induction n with
    | zero =>
      have hlast : ∀ h : y ++ word ≠ [], ¬ ((y ++ word).getLast h == '/') = true := by
        intro h hslash
        have hget : (y ++ word).getLast? = some c := by
          rw [List.getLast?_append, hword, Option.some_or]
        rw [List.getLast?_eq_some_getLast h] at hget
        rw [Option.some.inj hget] at hslash
        exact hc (beq_iff_eq.mp hslash)
      rw [List.replicate_zero, List.append_nil, List.rdropWhile_eq_self_iff.mpr hlast]
      exact List.suffix_append y word
    | succ n ih =>
      rw [List.replicate_succ', ← List.append_assoc, List.rdropWhile_concat_pos _ _ _ (by decide)]
      exact ih

/-- A word without `.` that ends a text lies behind the text's dots. -/
theorem behind_dot {front tail y word : List Char} (hword : '.' ∉ word)
    (h : (front ++ ['.']) ++ tail = y ++ word) : ∃ x, tail = x ++ word := by
  obtain ⟨x, _, htail⟩ | ⟨x, hfront, rfl⟩ := List.append_eq_append_iff.mp h
  · exact ⟨x, htail⟩
  · cases x using List.reverseRecOn with
    | nil => exact ⟨[], rfl⟩
    | append_singleton x c =>
      rw [← List.append_assoc] at hfront
      obtain ⟨_, hc⟩ := List.append_inj' hfront rfl
      cases hc
      exact absurd (by simp) hword

theorem hostChars_endsPath {host : List Char} (hhost : IntelHost host) :
    ∀ c ∈ host, endsPath c = false := by
  intro c hc
  have hends := (ne_of_hostChar (hhost.chars c hc)).1
  simp only [endsAuthority, Bool.or_eq_false_iff] at hends
  simp [endsPath, hends]

/-- The path of a root CRL URL, up to its query. -/
theorem rootPath_eq {host : List Char} (hhost : IntelHost host) (tail : List Char) :
    ("https://".toList ++ (host ++ '/' :: ("IntelSGXRootCA.".toList ++ tail))).takeWhile
        (!endsPath ·) =
      ("https://".toList ++ (host ++ "/IntelSGXRootCA".toList) ++ ['.']) ++
        tail.takeWhile (!endsPath ·) := by
  have hall : ∀ c ∈ "https://".toList ++ (host ++ "/IntelSGXRootCA".toList) ++ ['.'],
      endsPath c = false := by
    exact List.forall_mem_append.mpr ⟨List.forall_mem_append.mpr
      ⟨everyChar (by decide),
        List.forall_mem_append.mpr ⟨hostChars_endsPath hhost, everyChar (by decide)⟩⟩,
      everyChar (by decide)⟩
  rw [← (takeWhile_path hall tail).1]
  congr 1
  simp only [List.append_assoc]
  rfl

/-- The path of an intermediate CA's CRL URL, up to its query. -/
theorem intermediatePath_eq {host n : List Char} (hhost : IntelHost host) (hn : Version n)
    (query : List Char) :
    ("https://".toList ++ (host ++ '/' :: ("sgx/certification/v".toList ++ n ++
        "/pckcrl".toList ++ '?' :: query))).takeWhile (!endsPath ·) =
      "https://".toList ++ (host ++ ("/sgx/certification/v".toList ++ n)) ++ "/pckcrl".toList := by
  have hall : ∀ c ∈ "https://".toList ++ (host ++ ("/sgx/certification/v".toList ++ n)) ++
      "/pckcrl".toList, endsPath c = false := by
    refine List.forall_mem_append.mpr ⟨List.forall_mem_append.mpr ⟨everyChar (by decide),
      List.forall_mem_append.mpr ⟨hostChars_endsPath hhost,
        List.forall_mem_append.mpr ⟨everyChar (by decide), version_chars hn⟩⟩⟩, everyChar (by decide)⟩
  have hcut := (takeWhile_path hall ('?' :: query)).1
  rw [show ('?' :: query).takeWhile (!endsPath ·) = [] by simp [endsPath], List.append_nil] at hcut
  rw [← hcut]
  congr 1
  simp only [List.append_assoc]
  rfl

theorem slash_notMem_host {host : List Char} (hhost : IntelHost host) : '/' ∉ host := fun h =>
  absurd (hhost.chars _ h) (by decide)

/-- A CRL download carries the key exactly if the URL is a root CRL URL that ends
in `/pckcerts`. -/
theorem wantsApiKey_iff (hvalid : isValidCrlUri uri = true) (hearly : isEarlyAccess uri = false) :
    wantsApiKey uri = true ↔ EndsInPckcerts uri := by
  have hlast : "/pckcerts".toList.getLast? = some 's' := rfl
  have hs : 's' ≠ '/' := by decide
  rw [wantsApiKey, hearly, Bool.false_or, isSuffixOf_rdropWhile hlast hs]
  cases admitted hvalid with
  | root host tail hhost hne huri =>
    rw [huri, rootPath_eq hhost tail]
    constructor
    · rintro ⟨y, n, h⟩
      have hword : '.' ∉ "/pckcerts".toList ++ List.replicate n '/' := by
        rw [List.mem_append, not_or]
        exact ⟨by decide, fun h => absurd (List.eq_of_mem_replicate h) (by decide)⟩
      obtain ⟨x, hx⟩ := behind_dot hword h
      refine ⟨host, x, tail.dropWhile (!endsPath ·), n, ?_, slash_notMem_host hhost,
        fun c hc => ?_, fun c hc => ?_⟩
      · rw [huri, ← hx, List.takeWhile_append_dropWhile]
      · have hmem : c ∈ tail.takeWhile (!endsPath ·) := by
          rw [hx]
          exact List.mem_append_left _ hc
        simpa using List.mem_takeWhile_imp hmem
      · have hhead := List.head?_dropWhile_not (!endsPath ·) tail
        rw [hc] at hhead
        simpa using hhead
    · rintro ⟨host', x, rest, n, huri', hslash, hx, hrest⟩
      obtain ⟨_, hpath⟩ := first_slash_unique (slash_notMem_host hhost) hslash
        (List.append_cancel_left (huri.symm.trans huri'))
      have hword : ∀ c ∈ x ++ ("/pckcerts".toList ++ List.replicate n '/'), endsPath c = false := by
        refine List.forall_mem_append.mpr ⟨hx, List.forall_mem_append.mpr ⟨everyChar (by decide), ?_⟩⟩
        intro c hc
        rw [List.eq_of_mem_replicate hc]
        decide
      have hcut : rest.takeWhile (!endsPath ·) = [] := by
        cases rest with
        | nil => rfl
        | cons c rest => simp [hrest c rfl]
      rw [List.append_cancel_left hpath, (takeWhile_path hword rest).1, hcut, List.append_nil]
      exact ⟨_, n, (List.append_assoc _ x _).symm⟩
  | intermediate host n query hhost hn hne huri =>
    constructor
    · rintro ⟨y, m, h⟩
      rw [huri, intermediatePath_eq hhost hn] at h
      have hget := congrArg List.getLast? h
      rw [List.getLast?_append] at hget
      change some 'l' = _ at hget
      cases m with
      | zero =>
        rw [List.replicate_zero, List.append_nil, List.getLast?_append] at hget
        change some 'l' = some 's' at hget
        exact absurd hget (by decide)
      | succ m =>
        rw [List.replicate_succ', ← List.append_assoc, ← List.append_assoc,
          List.getLast?_concat] at hget
        exact absurd hget (by decide)
    · rintro ⟨host', x, rest, m, huri', hslash, _, _⟩
      obtain ⟨_, hpath⟩ := first_slash_unique (slash_notMem_host hhost) hslash
        (List.append_cancel_left (huri.symm.trans huri'))
      cases hpath

/-- A CRL download goes without the key as long as its URL does not end in
`/pckcerts`. -/
theorem crl_without_key_iff (hvalid : isValidCrlUri uri = true)
    (hearly : isEarlyAccess uri = false) :
    (wantsApiKey uri = false ∧ ∀ apiKey, fetchCrlKey apiKey uri ≠ .ok true) ↔
      ¬ EndsInPckcerts uri := by
  rw [← wantsApiKey_iff hvalid hearly, Bool.not_eq_true]
  refine ⟨And.left, fun hwants => ⟨hwants, fun apiKey h => ?_⟩⟩
  obtain ⟨_, _, h⟩ := Fallible.bind_eq_ok.mp h
  have hnone : sendKey true apiKey uri = false := by simp [sendKey, hwants]
  rw [hnone] at h
  cases h

theorem crl_without_key_iff_root : isValidCrlUri rootCrlUri = true ∧
    isEarlyAccess rootCrlUri = false ∧
    ((wantsApiKey rootCrlUri = false ∧ ∀ apiKey, fetchCrlKey apiKey rootCrlUri ≠ .ok true) ↔
      ¬ EndsInPckcerts rootCrlUri) :=
  ⟨by decide, by decide, crl_without_key_iff (by decide) (by decide)⟩

/-- The tail behind the name of the root CA is free. -/
def keyedCrlUri : String :=
  "https://certificates.trustedservices.intel.com/IntelSGXRootCA./pckcerts"

theorem crl_download_with_key : isValidCrlUri keyedCrlUri = true ∧
    isEarlyAccess keyedCrlUri = false ∧ wantsApiKey keyedCrlUri = true ∧
    fetchCrlKey "key" keyedCrlUri = .ok true := by decide

end Key

end Pccs.Urls
