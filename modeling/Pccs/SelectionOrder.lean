import Pccs.CertWriter
import Pccs.Selection

/-!
# What selection finds

Selection goes over the whole pool, so it finds a certificate exactly if there
is one at or below the raw level, however levels and certificates are ordered.
Which one it finds depends on the buckets: a certificate above the one it
returns can only be passed over if it falls into no bucket and stands behind that
one in the pool, or if some certificates of their bucket do not compare.
-/
namespace Pccs.Selection

open Text Json PckCert Fallible

/-- The level of a pool entry, read from its certificate. -/
def certTcb (c : String × String) : Except String Tcb := do
  let info ← parsePckCert c.2
  Tcb.new info.cpusvn info.pcesvn

/-- The checks a selection makes before it looks at the raw level. -/
def Admitted (pceId : String) (certs : List (String × String)) (tcbInfo : Value) : Prop :=
  ∃ parsed buckets, parsePckCerts certs = .ok parsed ∧
    validateInput pceId parsed tcbInfo = .ok () ∧ createBuckets tcbInfo = .ok buckets

/-- The same TCB info with its levels in another order. -/
structure Relevelled (tcbInfo tcbInfo' : Value) : Prop where
  rest : ∀ key, key ≠ "tcbLevels" → tcbInfo'.get key = tcbInfo.get key
  levels : ∃ levels levels', (tcbInfo.get "tcbLevels").bind Value.asArray = some levels ∧
    (tcbInfo'.get "tcbLevels").bind Value.asArray = some levels' ∧ levels.Perm levels'

section Samples

/-- A certificate of a platform whose identifiers are all zero. -/
def sampleFields (cpusvn pcesvn : UInt8) : CertFields where
  ppid := []
  cpusvn := cpusvn :: List.replicate 15 0
  pcesvn
  pceId := [0, 0]
  fmspc := [0, 0, 0, 0, 0, 0]
  short := by simp
  named := by simp

def sampleEntry (tcbm : String) (cpusvn pcesvn : UInt8) : String × String :=
  (tcbm, (sampleFields cpusvn pcesvn).pem)

def sampleTcb (cpusvn pcesvn : UInt8) : Tcb := (sampleFields cpusvn pcesvn).tcb (by simp [sampleFields])

def sampleLevel (pcesvn : UInt64) : Value :=
  .object [("tcb", .object
    [("sgxtcbcomponents", .array (List.replicate 16 (.object [("svn", .posInt 0)]))),
      ("pcesvn", .posInt pcesvn)])]

/-- A TCB info of that platform. -/
def sampleInfo (pcesvns : List UInt64) : Value :=
  .object [("tcbType", .posInt 0), ("pceId", .string "0000"), ("fmspc", .string "000000000000"),
    ("tcbLevels", .array (pcesvns.map sampleLevel))]

def twoLevels : Value := sampleInfo [0, 3]

/-- Two certificates over the upper level, and one over the lower that compares
with neither. -/
def threeCerts : List (String × String) :=
  [sampleEntry "01" 5 1, sampleEntry "02" 0 3, sampleEntry "03" 0 4]

theorem certTcb_sample (tcbm : String) (cpusvn pcesvn : UInt8) :
    certTcb (sampleEntry tcbm cpusvn pcesvn) = .ok (sampleTcb cpusvn pcesvn) :=
  bind_eq_ok.mpr ⟨_, CertFields.parsePckCert_pem _, CertFields.new_info _ _⟩

theorem parseOne_sample (tcbm : String) (cpusvn pcesvn : UInt8) :
    parseOne (sampleEntry tcbm cpusvn pcesvn) = .ok ⟨toAsciiUppercase tcbm,
      (sampleFields cpusvn pcesvn).pem, (sampleFields cpusvn pcesvn).info,
      sampleTcb cpusvn pcesvn⟩ :=
  bind_eq_ok.mpr ⟨_, CertFields.parsePckCert_pem _,
    bind_eq_ok.mpr ⟨_, CertFields.new_info _ _, rfl⟩⟩

/-- The tcbm of the result tells which entry was selected. -/
theorem selected_of_tcbm {cpusvn pcesvn pceId tcbm : String} {certs : List (String × String)}
    {tcbInfo : Value}
    (h : (selectBestPckCert cpusvn pcesvn pceId certs tcbInfo).toOption.map Prod.fst = some tcbm) :
    ∃ c ∈ certs, selectBestPckCert cpusvn pcesvn pceId certs tcbInfo =
      .ok (toAsciiUppercase c.1, c.2) ∧ toAsciiUppercase c.1 = tcbm := by
  obtain ⟨best, hbest, hname⟩ := Option.map_eq_some_iff.mp h
  have hbest := toOption_eq_some.mp hbest
  obtain ⟨⟨c, hc, rfl⟩, _⟩ := selectBestPckCert_eq_ok hbest
  exact ⟨c, hc, hbest, hname⟩

end Samples

section Order

theorem certTcb_of_parseOne {c : String × String} {p : ParsedCert} (h : parseOne c = .ok p) :
    certTcb c = .ok p.tcb := by
  obtain ⟨hinfo, htcb, _, _⟩ := parseOne_eq_ok h
  exact bind_eq_ok.mpr ⟨p.info, hinfo, htcb⟩

theorem checkLevel_index {i j : Nat} {level : Value} (h : checkLevel i level = .ok ()) :
    checkLevel j level = .ok () := by
  unfold checkLevel at h ⊢
  cases htcb : level.get "tcb" with
  | none =>
    rw [htcb] at h
    cases h
  | some tcb =>
    simp only [htcb] at h ⊢
    split at h
    · cases h
    · split at h
      · cases h
      · rename_i hcpu hpce
        rw [if_neg hcpu, if_neg hpce]

/-- The position of a level only shows in error texts. -/
theorem checkLevels_ok_iff {index : Nat} {levels : List Value} :
    checkLevels index levels = .ok () ↔ ∀ level ∈ levels, checkLevel 0 level = .ok () := by
  induction levels generalizing index with
  | nil => simp [checkLevels]
  | cons level rest ih =>
    rw [checkLevels, bind_eq_ok, List.forall_mem_cons]
    constructor
    · rintro ⟨_, hlevel, hrest⟩
      exact ⟨checkLevel_index hlevel, ih.mp hrest⟩
    · rintro ⟨hlevel, hrest⟩
      exact ⟨(), checkLevel_index hlevel, ih.mpr hrest⟩

/-- The converse of `checkCerts_eq_ok`. -/
theorem checkCerts_ok {pceId fmspc q : String} {ppid : Option String} {certs : List ParsedCert}
    (hall : ∀ p ∈ certs, p.info.version = pckCertVersion ∧ p.info.pceId = toAsciiUppercase pceId ∧
      p.info.fmspc = fmspc) (hq : ∀ p ∈ certs, p.info.ppid = q) (hppid : ∀ r, ppid = some r → q = r) :
    checkCerts pceId fmspc ppid certs = .ok () := by
  induction certs generalizing ppid with
  | nil => rfl
  | cons cert rest ih =>
    obtain ⟨⟨hv, hp, hf⟩, hrest⟩ := List.forall_mem_cons.mp hall
    obtain ⟨hcert, hqrest⟩ := List.forall_mem_cons.mp hq
    have hnext := @ih (some q) hrest hqrest (by simp)
    cases ppid with
    | none => simpa [checkCerts, hv, hp, hf, hcert] using hnext
    | some r => simpa [checkCerts, hv, hp, hf, hcert, hppid r rfl] using hnext

theorem checkCerts_perm {pceId fmspc : String} {certs certs' : List ParsedCert}
    (hperm : certs.Perm certs') (h : checkCerts pceId fmspc none certs = .ok ()) :
    checkCerts pceId fmspc none certs' = .ok () := by
  obtain ⟨hall, q, hq, _⟩ := checkCerts_eq_ok h
  refine checkCerts_ok (q := q) ?_ ?_ (by simp)
  · exact fun p hp => hall p (hperm.mem_iff.mpr hp)
  · exact fun p hp => hq p (hperm.mem_iff.mpr hp)

theorem validateInput_perm {pceId : String} {certs certs' : List ParsedCert}
    {tcbInfo tcbInfo' : Value} (hperm : certs.Perm certs') (hinfo : Relevelled tcbInfo tcbInfo')
    (h : validateInput pceId certs tcbInfo = .ok ()) :
    validateInput pceId certs' tcbInfo' = .ok () := by
  obtain ⟨levels, levels', hlevels, hlevels', hlperm⟩ := hinfo.levels
  obtain ⟨_, htype, h⟩ := bind_eq_ok.mp h
  obtain ⟨infoPceid, hpceid, h⟩ := bind_eq_ok.mp h
  obtain ⟨_, hsame, h⟩ := bind_eq_ok.mp h
  obtain ⟨found, hfound, h⟩ := bind_eq_ok.mp h
  obtain ⟨_, hcheck, h⟩ := bind_eq_ok.mp h
  obtain ⟨fmspc, hfmspc, hcerts⟩ := bind_eq_ok.mp h
  obtain ⟨hfound, hne⟩ := Option.filter_eq_some_iff.mp (require_eq_ok.mp hfound)
  rw [hlevels] at hfound
  cases hfound
  have hne' : (!levels'.isEmpty) = true := by
    cases levels' with
    | nil => simp [hlperm.eq_nil] at hne
    | cons => rfl
  have hcheck' : checkLevels 0 levels' = .ok () :=
    checkLevels_ok_iff.mpr fun level hl =>
      checkLevels_ok_iff.mp hcheck level (hlperm.mem_iff.mpr hl)
  refine bind_eq_ok.mpr ⟨(), ?_, bind_eq_ok.mpr ⟨infoPceid, ?_, bind_eq_ok.mpr ⟨(), hsame,
    bind_eq_ok.mpr ⟨levels', ?_, bind_eq_ok.mpr ⟨(), hcheck', bind_eq_ok.mpr ⟨fmspc, ?_,
      checkCerts_perm hperm hcerts⟩⟩⟩⟩⟩⟩
  · rw [hinfo.rest "tcbType" (by decide)]
    exact htype
  · rw [hinfo.rest "pceId" (by decide)]
    exact hpceid
  · exact require_eq_ok.mpr (Option.filter_eq_some_iff.mpr ⟨hlevels', hne'⟩)
  · rw [hinfo.rest "fmspc" (by decide)]
    exact hfmspc

theorem createBuckets_perm {tcbInfo tcbInfo' : Value} {buckets : List Bucket}
    (hinfo : Relevelled tcbInfo tcbInfo') (h : createBuckets tcbInfo = .ok buckets) :
    ∃ buckets', createBuckets tcbInfo' = .ok buckets' := by
  obtain ⟨levels, levels', hlevels, hlevels', hperm⟩ := hinfo.levels
  obtain ⟨found, hfound, h⟩ := bind_eq_ok.mp h
  have hfound := require_eq_ok.mp hfound
  rw [hlevels] at hfound
  cases hfound
  obtain ⟨raw, hraw, _⟩ := bind_eq_ok.mp h
  have hall := mapM_ok_iff.mp ⟨raw, hraw⟩
  obtain ⟨raw', hraw'⟩ := mapM_ok_iff.mpr fun level hl => hall level (hperm.mem_iff.mpr hl)
  exact ⟨v8SortDesc raw', bind_eq_ok.mpr ⟨levels', require_eq_ok.mpr hlevels',
    bind_eq_ok.mpr ⟨raw', hraw', rfl⟩⟩⟩

theorem admitted_perm {pceId : String} {certs certs' : List (String × String)}
    {tcbInfo tcbInfo' : Value} (hperm : certs.Perm certs') (hinfo : Relevelled tcbInfo tcbInfo')
    (h : Admitted pceId certs tcbInfo) : Admitted pceId certs' tcbInfo' := by
  obtain ⟨parsed, buckets, hparse, hvalid, hbuckets⟩ := h
  obtain ⟨parsed', hparse', hp⟩ := mapM_perm hperm hparse
  obtain ⟨buckets', hbuckets'⟩ := createBuckets_perm hinfo hbuckets
  exact ⟨parsed', buckets', hparse', validateInput_perm hp hinfo hvalid, hbuckets'⟩

/-- A selection whose inputs are admitted fails only if no certificate is low
enough. -/
theorem selects_iff {cpusvn pcesvn pceId : String} {certs : List (String × String)}
    {tcbInfo : Value} {raw : Tcb} (hin : Admitted pceId certs tcbInfo)
    (hraw : Tcb.fromHex cpusvn pcesvn = .ok raw) :
    (∃ best, selectBestPckCert cpusvn pcesvn pceId certs tcbInfo = .ok best) ↔
      ∃ c ∈ certs, ∃ tcb, certTcb c = .ok tcb ∧ tcb.Le raw := by
  obtain ⟨parsed, buckets, hparse, hvalid, hbuckets⟩ := hin
  have hperm := scan_perm parsed hbuckets
  constructor
  · rintro ⟨best, h⟩
    obtain ⟨⟨c, hc, rfl⟩, info, tcb, raw', hinfo, _, htcb, hraw', hle⟩ := selectBestPckCert_eq_ok h
    rw [hraw] at hraw'
    cases hraw'
    exact ⟨c, hc, tcb, bind_eq_ok.mpr ⟨info, hinfo, htcb⟩, hle⟩
  · rintro ⟨c, hc, tcb, htcb, hle⟩
    obtain ⟨p, hp, hpc⟩ := exists_of_mem_mapM hparse c hc
    rw [certTcb_of_parseOne hpc] at htcb
    cases htcb
    have hfound : ((scanOrder (parsed.foldl fillBucket (buckets, []))).find? (atOrBelow raw)).isSome :=
      List.find?_isSome.mpr ⟨p, hperm.mem_iff.mpr hp, atOrBelow_iff.mpr hle⟩
    obtain ⟨best, hbest⟩ := Option.isSome_iff_exists.mp hfound
    have hne : certs ≠ [] := List.ne_nil_of_mem hc
    exact ⟨(best.tcbm, best.cert), bind_eq_ok.mpr ⟨(), reject_eq_ok.mpr hne,
      bind_eq_ok.mpr ⟨parsed, hparse, bind_eq_ok.mpr ⟨(), hvalid, bind_eq_ok.mpr ⟨buckets, hbuckets,
        bind_eq_ok.mpr ⟨raw, hraw, bind_eq_ok.mpr ⟨best, require_eq_ok.mpr hbest, rfl⟩⟩⟩⟩⟩⟩⟩

/-- Selection returns a certificate of the pool at or below the raw level
exactly if there is one; no certificate is lost or doubled on the way, and the
order of the pool and of the levels decides nothing. -/
theorem sound_and_complete {cpusvn pcesvn pceId : String} {certs : List (String × String)}
    {tcbInfo : Value} {parsed : List ParsedCert} {buckets : List Bucket} {raw : Tcb}
    (hparse : parsePckCerts certs = .ok parsed) (hvalid : validateInput pceId parsed tcbInfo = .ok ())
    (hbuckets : createBuckets tcbInfo = .ok buckets) (hraw : Tcb.fromHex cpusvn pcesvn = .ok raw) :
    ((∃ best, selectBestPckCert cpusvn pcesvn pceId certs tcbInfo = .ok best) ↔
      ∃ c ∈ certs, ∃ tcb, certTcb c = .ok tcb ∧ tcb.Le raw) ∧
    (∀ tcbm pem, selectBestPckCert cpusvn pcesvn pceId certs tcbInfo = .ok (tcbm, pem) →
      ∃ c ∈ certs, tcbm = toAsciiUppercase c.1 ∧ pem = c.2 ∧
        ∃ tcb, certTcb c = .ok tcb ∧ tcb.Le raw) ∧
    (scanOrder (parsed.foldl fillBucket (buckets, []))).Perm parsed ∧
    (∀ cert slots index, findInsertIndex cert 0 slots = some index → index ≤ slots.length) ∧
    ∀ certs' tcbInfo', certs.Perm certs' → Relevelled tcbInfo tcbInfo' →
      ((∃ best, selectBestPckCert cpusvn pcesvn pceId certs' tcbInfo' = .ok best) ↔
        ∃ best, selectBestPckCert cpusvn pcesvn pceId certs tcbInfo = .ok best) := by
  have hin : Admitted pceId certs tcbInfo := ⟨parsed, buckets, hparse, hvalid, hbuckets⟩
  refine ⟨selects_iff hin hraw, ?_, scan_perm parsed hbuckets, ?_, ?_⟩
  · intro tcbm pem h
    obtain ⟨⟨c, hc, hbest⟩, info, tcb, raw', hinfo, _, htcb, hraw', hle⟩ := selectBestPckCert_eq_ok h
    cases hbest
    rw [hraw] at hraw'
    cases hraw'
    exact ⟨c, hc, rfl, rfl, tcb, bind_eq_ok.mpr ⟨info, hinfo, htcb⟩, hle⟩
  · intro cert slots index h
    have := findInsertIndex_lt h
    omega
  · intro certs' tcbInfo' hperm hinfo
    rw [selects_iff (admitted_perm hperm hinfo hin) hraw, selects_iff hin hraw]
    simp only [hperm.mem_iff]

/-- A pool of three has a certificate for the raw level, in any order and with the
levels in any order. -/
theorem sound_and_complete_sample : ∃ best best',
    selectBestPckCert "00000000000000000000000000000000" "0300" "0000" threeCerts twoLevels =
      .ok best ∧
    selectBestPckCert "00000000000000000000000000000000" "0300" "0000" threeCerts.reverse
      (sampleInfo [3, 0]) = .ok best' := by
  have hparse : parsePckCerts threeCerts = .ok [⟨toAsciiUppercase "01", (sampleFields 5 1).pem,
      (sampleFields 5 1).info, sampleTcb 5 1⟩, ⟨toAsciiUppercase "02", (sampleFields 0 3).pem,
      (sampleFields 0 3).info, sampleTcb 0 3⟩, ⟨toAsciiUppercase "03", (sampleFields 0 4).pem,
      (sampleFields 0 4).info, sampleTcb 0 4⟩] := by
    simp only [threeCerts, parsePckCerts, List.mapM_cons, List.mapM_nil, parseOne_sample]
    rfl
  have hvalid : (validateInput "0000" [⟨toAsciiUppercase "01", (sampleFields 5 1).pem,
      (sampleFields 5 1).info, sampleTcb 5 1⟩, ⟨toAsciiUppercase "02", (sampleFields 0 3).pem,
      (sampleFields 0 3).info, sampleTcb 0 3⟩, ⟨toAsciiUppercase "03", (sampleFields 0 4).pem,
      (sampleFields 0 4).info, sampleTcb 0 4⟩] twoLevels).toOption = some () := by
    decide +kernel
  have hbuckets : (createBuckets twoLevels).toOption.isSome := by decide +kernel
  have hraw : (Tcb.fromHex "00000000000000000000000000000000" "0300").toOption =
      some (sampleTcb 0 3) := by decide +kernel
  obtain ⟨buckets, hbuckets⟩ := Option.isSome_iff_exists.mp hbuckets
  obtain ⟨hselects, _, _, _, horder⟩ := sound_and_complete hparse (toOption_eq_some.mp hvalid)
    (toOption_eq_some.mp hbuckets) (toOption_eq_some.mp hraw)
  have hbest := hselects.mpr
    ⟨sampleEntry "02" 0 3, .tail _ (.head _), sampleTcb 0 3, certTcb_sample _ 0 3, by decide⟩
  have hlevels : Relevelled twoLevels (sampleInfo [3, 0]) := by
    refine ⟨fun key hkey => ?_, _, _, rfl, rfl, .swap _ _ []⟩
    simp [twoLevels, sampleInfo, Value.get, List.lookup_cons, beq_false_of_ne hkey]
  obtain ⟨best', hbest'⟩ := (horder _ _ threeCerts.reverse_perm.symm hlevels).mpr hbest
  obtain ⟨best, hbest⟩ := hbest
  exact ⟨best, best', hbest, hbest'⟩

end Order

section Optimality

/-- Strictly below in the componentwise order. -/
def Tcb.Lt (a b : Tcb) : Prop := a.Le b ∧ ¬ b.Le a

/-- The place of the first level at or below a TCB. -/
def firstLevel (levels : List (Option Tcb)) (tcb : Tcb) : Option Nat :=
  levels.findIdx? fun level => level.any fun l => decide (l.Le tcb)

/-- The bucket of the TCB info that a TCB falls into. -/
def bucketOf (tcbInfo : Value) (tcb : Tcb) : Option Nat :=
  (createBuckets tcbInfo).toOption.bind fun buckets => firstLevel (buckets.map Bucket.tcb) tcb

/-- The entries of the pool that fall into one bucket compare. -/
def Chained (certs : List (String × String)) (tcbInfo : Value) (i : Nat) : Prop :=
  ∀ a ∈ certs, ∀ b ∈ certs, ∀ ta tb, certTcb a = .ok ta → certTcb b = .ok tb →
    bucketOf tcbInfo ta = some i → bucketOf tcbInfo tb = some i → ta.Le tb ∨ tb.Le ta

/-- Each two of the certificates compare. -/
def Comparing (certs : List ParsedCert) : Prop :=
  ∀ x ∈ certs, ∀ y ∈ certs, x.tcb.Le y.tcb ∨ y.tcb.Le x.tcb

/-- Highest certificate first. -/
abbrev Descending (certs : List ParsedCert) : Prop := certs.Pairwise fun x y => y.tcb.Le x.tcb

theorem Tcb.Le.trans {a b c : Tcb} (hab : a.Le b) (hbc : b.Le c) : a.Le c :=
  fun i => UInt32.le_trans (hab i) (hbc i)

theorem findInsertIndex_succ (cert : ParsedCert) (start : Nat) (certs : List ParsedCert) :
    findInsertIndex cert (start + 1) certs = (findInsertIndex cert start certs).map (· + 1) := by
  induction certs generalizing start with
  | nil => rfl
  | cons c rest ih =>
    unfold findInsertIndex
    split
    · split
      · rfl
      · exact ih (start + 1)
    · exact ih start

theorem insertCert_below {cert c : ParsedCert} (rest : List ParsedCert)
    (h : c.tcb.Le cert.tcb) : insertCert (c :: rest) cert = cert :: c :: rest := by
  obtain ⟨n, hn, hpos⟩ := Tcb.compare_nonneg.mpr h
  simp [insertCert, findInsertIndex, hn, hpos]

/-- Over a certificate that compares and is higher, the insertion goes on. -/
theorem insertCert_above {cert c : ParsedCert} (rest : List ParsedCert)
    (h : ¬ c.tcb.Le cert.tcb) (hle : cert.tcb.Le c.tcb) :
    insertCert (c :: rest) cert = c :: insertCert rest cert := by
  have hcmp : cert.tcb.compare c.tcb = .ok (-1) := by
    have hlow : cert.tcb.lower c.tcb = true := by
      rw [← Bool.not_eq_false]
      exact fun hf => h (Tcb.lower_eq_false.mp hf)
    simp [Tcb.compare, hlow, Tcb.lower_eq_false.mpr hle]
  simp only [insertCert, findInsertIndex, hcmp, findInsertIndex_succ]
  cases findInsertIndex cert 0 rest with
  | none => rfl
  | some index => rfl

/-- Among certificates that compare, the insertion keeps the order. -/
theorem insertCert_descending {certs : List ParsedCert} {cert : ParsedCert}
    (hsorted : Descending certs)
    (hcomp : ∀ c ∈ certs, c.tcb.Le cert.tcb ∨ cert.tcb.Le c.tcb) :
    Descending (insertCert certs cert) := by
  induction certs with
  | nil => exact List.pairwise_singleton _ _
  | cons c rest ih =>
    obtain ⟨hc, hrest⟩ := List.pairwise_cons.mp hsorted
    obtain ⟨hcert, hcomp⟩ := List.forall_mem_cons.mp hcomp
    by_cases hle : c.tcb.Le cert.tcb
    · rw [insertCert_below rest hle]
      refine List.pairwise_cons.mpr ⟨?_, hsorted⟩
      exact List.forall_mem_cons.mpr ⟨hle, fun y hy => (hc y hy).trans hle⟩
    · have habove := hcert.resolve_left hle
      rw [insertCert_above rest hle habove]
      refine List.pairwise_cons.mpr ⟨fun y hy => ?_, ih hrest hcomp⟩
      rcases List.mem_cons.mp ((insertCert_perm rest cert).mem_iff.mp hy) with rfl | hy
      · exact habove
      · exact hc y hy

/-- Every certificate stands in the first bucket that it matches, and a bucket
whose certificates compare is in order. -/
structure Placed (buckets : List Bucket) : Prop where
  matched : ∀ b ∈ buckets, ∀ c ∈ b.certs, b.Matches c
  first : buckets.Pairwise fun b b' => ∀ c ∈ b'.certs, ¬ b.Matches c
  sorted : ∀ b ∈ buckets, Comparing b.certs → Descending b.certs

theorem placed_addToBuckets {cert : ParsedCert} {buckets out : List Bucket} (hp : Placed buckets)
    (h : addToBuckets cert buckets = some out) : Placed out := by
  obtain ⟨before, bucket, after, rfl, rfl, hmatch, hbefore⟩ := addToBuckets_eq_some h
  have hmem : ∀ c, c ∈ insertCert bucket.certs cert ↔ c = cert ∨ c ∈ bucket.certs := fun c => by
    rw [(insertCert_perm bucket.certs cert).mem_iff, List.mem_cons]
  obtain ⟨hmatched, hfirst, hsorted⟩ := hp
  simp only [List.forall_mem_append, List.forall_mem_cons] at hmatched hsorted
  rw [List.pairwise_append, List.pairwise_cons] at hfirst
  obtain ⟨hpre, ⟨hhead, hpost⟩, hcross⟩ := hfirst
  constructor
  · simp only [List.forall_mem_append, List.forall_mem_cons]
    refine ⟨hmatched.1, fun c hc => ?_, hmatched.2.2⟩
    rcases (hmem c).mp hc with rfl | hc
    · exact hmatch
    · exact hmatched.2.1 c hc
  · refine List.pairwise_append.mpr ⟨hpre, List.pairwise_cons.mpr ⟨hhead, hpost⟩, ?_⟩
    intro b hb b' hb' c hc
    rcases List.mem_cons.mp hb' with rfl | hb'
    · rcases (hmem c).mp hc with rfl | hc
      · exact hbefore b hb
      · exact hcross b hb bucket List.mem_cons_self c hc
    · exact hcross b hb b' (List.mem_cons_of_mem _ hb') c hc
  · simp only [List.forall_mem_append, List.forall_mem_cons]
    refine ⟨hsorted.1, fun hcomp => ?_, hsorted.2.2⟩
    have hcert := (hmem cert).mpr (.inl rfl)
    have hold : ∀ c ∈ bucket.certs, c ∈ insertCert bucket.certs cert := fun c hc =>
      (hmem c).mpr (.inr hc)
    exact insertCert_descending (hsorted.2.1 fun x hx y hy => hcomp x (hold x hx) y (hold y hy))
      fun c hc => hcomp c (hold c hc) cert hcert

theorem firstLevel_eq_none {levels : List (Option Tcb)} {tcb : Tcb} :
    firstLevel levels tcb = none ↔ ∀ l, some l ∈ levels → ¬ l.Le tcb := by
  rw [firstLevel, List.findIdx?_eq_none_iff]
  constructor
  · intro h l hl hle
    have := h _ hl
    simp [hle] at this
  · intro h level hlevel
    cases level with
    | none => rfl
    | some l => simpa using h l hlevel

theorem firstLevel_of_le {levels : List (Option Tcb)} {a b : Tcb} (hab : a.Le b)
    (h : firstLevel levels b = none) : firstLevel levels a = none :=
  firstLevel_eq_none.mpr fun l hl hle => firstLevel_eq_none.mp h l hl (hle.trans hab)

theorem matches_iff {bucket : Bucket} {cert : ParsedCert} :
    bucket.Matches cert ↔ (bucket.tcb.any fun l => decide (l.Le cert.tcb)) = true := by
  cases h : bucket.tcb with
  | none => simp [Bucket.Matches, h]
  | some l => simp [Bucket.Matches, h]

/-- A certificate in its place falls into that bucket. -/
theorem firstLevel_placed {buckets : List Bucket} (hp : Placed buckets) {i : Nat} {b : Bucket}
    (hb : buckets[i]? = some b) {c : ParsedCert} (hc : c ∈ b.certs) :
    firstLevel (buckets.map Bucket.tcb) c.tcb = some i := by
  obtain ⟨hi, hget⟩ := List.getElem?_eq_some_iff.mp hb
  refine List.findIdx?_eq_some_iff_getElem.mpr ⟨by simpa using hi, ?_, fun j hj => ?_⟩
  · rw [List.getElem_map, hget]
    exact matches_iff.mp (hp.matched b (List.mem_of_getElem? hb) c hc)
  · have hfirst := List.pairwise_iff_getElem.mp hp.first j i (by omega) hi hj c (by rwa [hget])
    rw [List.getElem_map]
    exact fun hany => hfirst (matches_iff.mpr hany)

/-- The state of the filling loop after a part of the pool. -/
structure Filled (done : List ParsedCert) (levels : List (Option Tcb))
    (acc : List Bucket × List ParsedCert) : Prop where
  placed : Placed acc.1
  levels_eq : acc.1.map Bucket.tcb = levels
  trailing : acc.2 = done.filter fun c => decide (firstLevel levels c.tcb = none)

variable {done : List ParsedCert} {levels : List (Option Tcb)}
  {acc : List Bucket × List ParsedCert}

theorem filled_step (cert : ParsedCert) (h : Filled done levels acc) :
    Filled (done ++ [cert]) levels (fillBucket acc cert) := by
  unfold fillBucket
  split
  · rename_i buckets hadd
    obtain ⟨before, bucket, after, hb, hout, ⟨level, hlevel, hle⟩, _⟩ := addToBuckets_eq_some hadd
    have hmatched : firstLevel levels cert.tcb ≠ none := fun hnone => by
      refine firstLevel_eq_none.mp hnone level ?_ hle
      rw [← h.levels_eq, hb, ← hlevel]
      simp
    refine ⟨placed_addToBuckets h.placed hadd, ?_, ?_⟩
    · rw [← h.levels_eq, hb, hout]
      simp
    · rw [h.trailing]
      simp [hmatched]
  · rename_i hadd
    have hunmatched : firstLevel levels cert.tcb = none :=
      firstLevel_eq_none.mpr fun level hl hle => by
        rw [← h.levels_eq] at hl
        obtain ⟨b, hb, hbl⟩ := List.mem_map.mp hl
        exact addToBuckets_eq_none hadd b hb ⟨level, hbl, hle⟩
    refine ⟨h.placed, h.levels_eq, ?_⟩
    rw [h.trailing]
    simp [hunmatched]

theorem filled_run {parsed : List ParsedCert} (h : Filled done levels acc) :
    Filled (done ++ parsed) levels (parsed.foldl fillBucket acc) := by
  induction parsed generalizing done acc with
  | nil => simpa using h
  | cons cert parsed ih => simpa using ih (filled_step cert h)

theorem Filled.bucket (h : Filled done levels acc) {b : Bucket} (hb : b ∈ acc.1) :
    ∃ i, ∀ c ∈ b.certs, firstLevel levels c.tcb = some i := by
  obtain ⟨i, hi⟩ := List.getElem?_of_mem hb
  exact ⟨i, fun c hc => by rw [← h.levels_eq, firstLevel_placed h.placed hi hc]⟩

/-- No certificate is scanned before a higher one that falls into a bucket, unless
both fall into the same and some of it do not compare. -/
theorem scan_descending (h : Filled done levels acc) {pool : List ParsedCert}
    (hpool : ∀ c ∈ scanOrder acc, c ∈ pool) :
    (scanOrder acc).Pairwise fun x y => firstLevel levels y.tcb ≠ none →
      (∀ i, firstLevel levels x.tcb = some i → firstLevel levels y.tcb = some i →
        Comparing (pool.filter fun c => decide (firstLevel levels c.tcb = some i))) →
      ¬ x.tcb.Lt y.tcb := by
  rw [scanOrder_eq] at hpool ⊢
  have hmem : ∀ b ∈ acc.1, ∀ c ∈ b.certs, c ∈ pool := fun b hb c hc =>
    hpool c (List.mem_append_left _ (List.mem_flatMap.mpr ⟨b, hb, hc⟩))
  have hlast : ∀ y ∈ acc.2, firstLevel levels y.tcb = none := fun y hy => by
    rw [h.trailing] at hy
    exact of_decide_eq_true (List.mem_filter.mp hy).2
  refine List.pairwise_append.mpr ⟨List.pairwise_flatMap.mpr ⟨fun b hb => ?_, ?_⟩, ?_, ?_⟩
  · obtain ⟨i, hi⟩ := h.bucket hb
    by_cases hcomp : Comparing b.certs
    · exact (h.placed.sorted b hb hcomp).imp fun hyx _ _ hlt => hlt.2 hyx
    · refine List.pairwise_of_forall_mem_list fun x hx y hy _ hchain _ => hcomp fun c hc d hd => ?_
      exact hchain i (hi x hx) (hi y hy) c (by simp [hmem b hb c hc, hi c hc]) d
        (by simp [hmem b hb d hd, hi d hd])
  · refine (List.Pairwise.and_mem.mp h.placed.first).imp ?_
    intro b b' ⟨hb, _, hfirst⟩ x hx y hy _ _ hlt
    obtain ⟨level, hbl, hle⟩ := h.placed.matched b hb x hx
    exact hfirst y hy ⟨level, hbl, hle.trans hlt.1⟩
  · exact List.pairwise_of_forall_mem_list fun x _ y hy hne => absurd (hlast y hy) hne
  · exact fun x _ y hy hne => absurd (hlast y hy) hne

/-- Among certificates that fall into no bucket the first one is found. -/
theorem scan_trailing (h : Filled done levels acc) {raw : Tcb} {cert : ParsedCert}
    (hfind : (scanOrder acc).find? (atOrBelow raw) = some cert)
    (hnone : firstLevel levels cert.tcb = none) :
    ∃ i, done[i]? = some cert ∧
      ∀ (j : Nat) (p : ParsedCert), done[j]? = some p → firstLevel levels p.tcb = none →
      p.tcb.Le raw → i ≤ j := by
  rw [scanOrder_eq, List.find?_append, Option.or_eq_some_iff] at hfind
  obtain hfind | ⟨-, hfind⟩ := hfind
  · obtain ⟨b, hb, hc⟩ := List.mem_flatMap.mp (List.mem_of_find?_eq_some hfind)
    obtain ⟨i, hi⟩ := h.bucket hb
    rw [hi cert hc] at hnone
    cases hnone
  · rw [h.trailing, List.find?_filter, List.find?_eq_some_iff_getElem] at hfind
    obtain ⟨-, i, hi, rfl, hbefore⟩ := hfind
    refine ⟨i, List.getElem?_eq_getElem hi, fun j p hp hpnone hle => ?_⟩
    by_contra hlt
    obtain ⟨hj, rfl⟩ := List.getElem?_eq_some_iff.mp hp
    have := hbefore j (by omega)
    simp [hpnone, atOrBelow_iff.mpr hle] at this

theorem placed_empty {buckets : List Bucket} (h : ∀ b ∈ buckets, b.certs = []) :
    Placed buckets := by
  refine ⟨?_, ?_, ?_⟩
  · intro b hb c hc
    rw [h b hb] at hc
    cases hc
  · refine List.pairwise_of_forall_mem_list fun b _ b' hb' c hc => ?_
    rw [h b' hb'] at hc
    cases hc
  · intro b hb
    rw [h b hb]
    exact fun _ => List.Pairwise.nil

/-- Selection returns a certificate although the pool holds a higher one that is
still at or below the raw level. -/
def HigherPassedOver (cpusvn pcesvn pceId : String) (certs : List (String × String))
    (tcbInfo : Value) : Prop :=
  ∃ best c tcb higher raw, selectBestPckCert cpusvn pcesvn pceId certs tcbInfo = .ok best ∧
    c ∈ certs ∧ certTcb best = .ok tcb ∧ certTcb c = .ok higher ∧
    Tcb.fromHex cpusvn pcesvn = .ok raw ∧ tcb.Lt higher ∧ higher.Le raw

instance (a b : Tcb) : Decidable (a.Lt b) := inferInstanceAs (Decidable (_ ∧ _))

theorem higherPassedOver_of {cpusvn pcesvn tcbm tcbm' : String} {certs : List (String × String)}
    {tcbInfo : Value} {raw : Tcb} {x y x' y' : UInt8}
    (hsel : (selectBestPckCert cpusvn pcesvn "0000" certs tcbInfo).toOption.map Prod.fst = some tcbm)
    (hone : ∀ c ∈ certs, toAsciiUppercase c.1 = tcbm → c = sampleEntry tcbm x y)
    (hmem : sampleEntry tcbm' x' y' ∈ certs) (hraw : (Tcb.fromHex cpusvn pcesvn).toOption = some raw)
    (hlt : (sampleTcb x y).Lt (sampleTcb x' y')) (hle : (sampleTcb x' y').Le raw) :
    HigherPassedOver cpusvn pcesvn "0000" certs tcbInfo := by
  obtain ⟨c, hc, hbest, hname⟩ := selected_of_tcbm hsel
  cases hone c hc hname
  exact ⟨_, _, _, _, raw, hbest, hmem, certTcb_sample _ x y, certTcb_sample _ x' y',
    toOption_eq_some.mp hraw, hlt, hle⟩

end Optimality

end Pccs.Selection
