import Pccs.Fallible
import Pccs.Json
import Pccs.Tcb

/-!
# PCK certificate selection

A platform has a pool of certificates, one per TCB level it was certified at.
Selection drops the certificates into buckets, one per level of the TCB info in
descending order, and takes the first one that is at or below the raw level of
the request. The bucket order follows V8's sort, which also has an answer when
levels do not compare.
-/
namespace Pccs.Selection

open Text Encoding Json PckCert Fallible

def pckCertVersion : UInt32 := 3

structure ParsedCert where
  tcbm : String
  cert : String
  info : PckCertInfo
  tcb : Tcb

/-- A bucket holds its certificates in scan order; the bucket without a level
takes what no level matched. -/
structure Bucket where
  tcb : Option Tcb
  certs : List ParsedCert

def parseOne (c : String × String) : Except String ParsedCert := do
  let info ← parsePckCert c.2
  let tcb ← Tcb.new info.cpusvn info.pcesvn
  return ⟨toAsciiUppercase c.1, c.2, info, tcb⟩

def parsePckCerts (certs : List (String × String)) : Except String (List ParsedCert) :=
  certs.mapM parseOne

def twoUpperHex (n : Nat) : String := String.ofList [upperNibble (n / 16), upperNibble (n % 16)]

/-- One component as two hex digits; it must be an unsigned integer of a byte. -/
def componentHex (v : Option Value) : Option String := do
  let svn ← v.bind Value.asU64
  if svn > 255 then none else return twoUpperHex svn.toNat

def twoDigits (i : Nat) : String :=
  String.ofList [Char.ofNat (48 + i / 10), Char.ofNat (48 + i % 10)]

/-- CPUSVN hex of one TCB level, from the component array or, without one, from
the sixteen scalars. -/
def levelCpusvn (tcb : Value) : Option String :=
  match (tcb.get "sgxtcbcomponents").bind Value.asArray with
  | some components =>
    if components.length ≠ 16 then none
    else (components.mapM fun c => componentHex (c.get "svn")).map String.join
  | none =>
    ((List.range' 1 16).mapM fun i =>
      componentHex (tcb.get ("sgxtcbcomp" ++ twoDigits i ++ "svn"))).map String.join

def checkLevel (index : Nat) (level : Value) : Except String Unit :=
  let missing := "Invalid TCB levels: Level " ++ toString index ++ " missing sgxtcbcomponents"
  match level.get "tcb" with
  | none => .error missing
  | some tcb =>
    if (levelCpusvn tcb).isNone then .error missing
    else if ((tcb.get "pcesvn").bind Value.asU64).isNone then
      .error ("Invalid TCB levels: Level " ++ toString index ++ " invalid pcesvn")
    else .ok ()

def checkLevels : Nat → List Value → Except String Unit
  | _, [] => .ok ()
  | index, level :: rest => do
    checkLevel index level
    checkLevels (index + 1) rest

/-- Version, PCEID, FMSPC and a PPID shared by all certificates so far. -/
def checkCerts (pceId fmspc : String) : Option String → List ParsedCert → Except String Unit
  | _, [] => .ok ()
  | ppid, cert :: rest =>
    if cert.info.version ≠ pckCertVersion then
      .error ("PCK certificate version (" ++ toString cert.info.version.toNat ++
        ") is different than expected version (" ++ toString pckCertVersion.toNat ++ ")")
    else if cert.info.pceId ≠ toAsciiUppercase pceId then
      .error ("PCEID in cert (" ++ cert.info.pceId ++ ") is different than platform PCEID (" ++
        pceId ++ ")")
    else if cert.info.fmspc ≠ fmspc then
      .error ("FMSPC in cert (" ++ cert.info.fmspc ++ ") is different than in TCB info (" ++
        fmspc ++ ")")
    else
      match ppid with
      | none => checkCerts pceId fmspc (some cert.info.ppid) rest
      | some p =>
        if p ≠ cert.info.ppid then .error "PPIDs are not the same in every PCK certificate"
        else checkCerts pceId fmspc (some p) rest

/-- Identity and component shape shared by SGX and TDX. -/
def validatePlatformMetadata (pceId : String) (certs : List ParsedCert) (tcbInfo : Value) :
    Except String Unit := do
  let infoPceid ← require ((tcbInfo.get "pceId").bind Value.asStr) "PCEID missing in TCB Info"
  reject (eqIgnoreAsciiCase infoPceid pceId = false)
    ("PCEID in TCB Info (" ++ infoPceid ++ ") is different than platform PCEID (" ++ pceId ++ ")")
  let levels ← require
    (((tcbInfo.get "tcbLevels").bind Value.asArray).filter fun a => !a.isEmpty)
    "Empty TCB Levels in in TCB Info"
  checkLevels 0 levels
  let fmspc ← require ((tcbInfo.get "fmspc").bind Value.asStr) "FMSPC missing in TCB Info"
  checkCerts pceId (toAsciiUppercase fmspc) none certs

def debugTcbType : Option Int → String
  | none => "None"
  | some n => "Some(" ++ toString n ++ ")"

def validateInput (pceId : String) (certs : List ParsedCert) (tcbInfo : Value) :
    Except String Unit := do
  let tcbType := (tcbInfo.get "tcbType").bind Value.asI64
  reject (tcbType ≠ some 0)
    ("TCB_TYPE in TCB Info (" ++ debugTcbType tcbType ++ ") is different than 0")
  validatePlatformMetadata pceId certs tcbInfo

/-- Descending; a pair that does not compare scores 0. -/
def bucketCmp (x y : Bucket) : Int :=
  match x.tcb, y.tcb with
  | some xt, some yt => (yt.compare xt).toOption.getD 0
  | _, _ => 0

/-- The longest run from the front in which every element stands to the one
before it as `strict` says: below it, or not below it. -/
def splitRun (strict : Bool) (prev : Bucket) : List Bucket → List Bucket × List Bucket
  | [] => ([], [])
  | b :: rest =>
    if decide (bucketCmp b prev < 0) = strict then
      let (run, tail) := splitRun strict b rest
      (b :: run, tail)
    else ([], b :: rest)

/-- Binary search for the slot of `pivot` in the sorted front. -/
def insertionPoint (pivot : Bucket) (sorted : List Bucket) : Nat → Nat → Nat → Nat
  | 0, left, _ => left
  | fuel + 1, left, right =>
    if left < right then
      let mid := left + (right - left) / 2
      match sorted[mid]? with
      | none => left
      | some m =>
        if bucketCmp pivot m < 0 then insertionPoint pivot sorted fuel left mid
        else insertionPoint pivot sorted fuel (mid + 1) right
    else left

def binaryInsert (sorted : List Bucket) (pivot : Bucket) : List Bucket :=
  sorted.insertIdx (insertionPoint pivot sorted sorted.length 0 sorted.length) pivot

/-- V8's array sort below 64 elements: make the first run ascending, then
insert the rest by binary search. -/
def v8SortDesc : List Bucket → List Bucket
  | a :: b :: rest =>
    let strict := decide (bucketCmp b a < 0)
    let (run, tail) := splitRun strict a (b :: rest)
    let front := if strict then (a :: run).reverse else a :: run
    tail.foldl binaryInsert front
  | short => short

def levelBucket (level : Value) : Except String Bucket := do
  let tcb ← require (level.get "tcb") "Invalid TCB levels"
  let cpusvn ← require (levelCpusvn tcb) "Invalid TCB levels"
  let pcesvn ← require ((tcb.get "pcesvn").bind Value.asU64) "Invalid TCB levels"
  reject (pcesvn.toNat ≥ 2 ^ 32) "Invalid TCB levels"
  let t ← Tcb.new cpusvn pcesvn.toUInt32
  return ⟨some t, []⟩

def createBuckets (tcbInfo : Value) : Except String (List Bucket) := do
  let levels ← require ((tcbInfo.get "tcbLevels").bind Value.asArray)
    "Empty TCB Levels in in TCB Info"
  let buckets ← levels.mapM levelBucket
  return v8SortDesc buckets

/-- The slot before the first certificate that is not above `cert`; the index
does not advance over certificates that do not compare. -/
def findInsertIndex (cert : ParsedCert) : Nat → List ParsedCert → Option Nat
  | _, [] => none
  | index, c :: rest =>
    match cert.tcb.compare c.tcb with
    | .ok n => if 0 ≤ n then some index else findInsertIndex cert (index + 1) rest
    | .error _ => findInsertIndex cert index rest

def insertCert (certs : List ParsedCert) (cert : ParsedCert) : List ParsedCert :=
  match findInsertIndex cert 0 certs with
  | none => certs ++ [cert]
  | some index => certs.insertIdx index cert

/-- Put the certificate into the first bucket whose level is not above it. -/
def addToBuckets (cert : ParsedCert) : List Bucket → Option (List Bucket)
  | [] => none
  | bucket :: rest =>
    let skip := (addToBuckets cert rest).map (bucket :: ·)
    match bucket.tcb with
    | none => skip
    | some btcb =>
      match cert.tcb.compare btcb with
      | .ok n =>
        if 0 ≤ n then some ({ bucket with certs := insertCert bucket.certs cert } :: rest)
        else skip
      | .error _ => skip

/-- One pass of the filling loop: the buckets and what no bucket took. -/
def fillBucket (acc : List Bucket × List ParsedCert) (cert : ParsedCert) :
    List Bucket × List ParsedCert :=
  match addToBuckets cert acc.1 with
  | some buckets => (buckets, acc.2)
  | none => (acc.1, acc.2 ++ [cert])

def noCertificate : String := "No certificate found for given platform"

def atOrBelow (raw : Tcb) (cert : ParsedCert) : Bool :=
  match raw.compare cert.tcb with
  | .ok n => 0 ≤ n
  | .error _ => false

/-- Buckets from the highest level down, then the certificates without one. -/
def scanOrder (filled : List Bucket × List ParsedCert) : List ParsedCert :=
  (filled.1 ++ [Bucket.mk none filled.2]).flatMap Bucket.certs

/-- The tcbm and the PEM of the chosen certificate. -/
def selectBestPckCert (rawCpusvn rawPcesvn pceId : String) (certs : List (String × String))
    (tcbInfo : Value) : Except String (String × String) := do
  reject (certs = []) noCertificate
  let parsed ← parsePckCerts certs
  validateInput pceId parsed tcbInfo
  let buckets ← createBuckets tcbInfo
  let filled := parsed.foldl fillBucket (buckets, [])
  let raw ← Tcb.fromHex rawCpusvn rawPcesvn
  let cert ← require ((scanOrder filled).find? (atOrBelow raw)) noCertificate
  return (cert.tcbm, cert.cert)

/-- The checks of a selection without a raw level. -/
def validatePckCertPool (pceId : String) (certs : List (String × String)) (tcbInfo : Value) :
    Except String Unit := do
  reject (certs = []) noCertificate
  let parsed ← parsePckCerts certs
  validateInput pceId parsed tcbInfo
  let _ ← createBuckets tcbInfo
  return ()

/-- Forwarded TDX collateral: any integer type, no buckets. -/
def validateTdxPckCertPool (pceId : String) (certs : List (String × String)) (tcbInfo : Value) :
    Except String Unit := do
  reject (certs = []) noCertificate
  reject ((tcbInfo.get "tcbType").any fun typ => typ.asI64.isNone && typ.asU64.isNone)
    "TCB_TYPE in TDX collateral must be an integer"
  let parsed ← parsePckCerts certs
  validatePlatformMetadata pceId parsed tcbInfo

section Buckets

theorem splitRun_append (strict : Bool) (prev : Bucket) (l : List Bucket) :
    (splitRun strict prev l).1 ++ (splitRun strict prev l).2 = l := by
  induction l generalizing prev with
  | nil => rfl
  | cons b rest ih =>
    unfold splitRun
    split
    · simp [ih b]
    · rfl

theorem insertionPoint_le (pivot : Bucket) (sorted : List Bucket) (fuel left right : Nat)
    (h : left ≤ right) : insertionPoint pivot sorted fuel left right ≤ right := by
  induction fuel generalizing left right with
  | zero => exact h
  | succ fuel ih =>
    simp only [insertionPoint]
    split
    · split
      · exact h
      · split
        · exact Nat.le_trans (ih _ _ (by omega)) (by omega)
        · exact ih _ _ (by omega)
    · exact h

theorem binaryInsert_perm (sorted : List Bucket) (pivot : Bucket) :
    (binaryInsert sorted pivot).Perm (pivot :: sorted) :=
  List.perm_insertIdx _ _ (insertionPoint_le _ _ _ _ _ (Nat.zero_le _))

theorem foldl_binaryInsert_perm (tail front : List Bucket) :
    (tail.foldl binaryInsert front).Perm (front ++ tail) := by
  induction tail generalizing front with
  | nil => simp
  | cons pivot tail ih =>
    calc ((pivot :: tail).foldl binaryInsert front)
        |>.Perm (binaryInsert front pivot ++ tail) := ih _
      _ |>.Perm (pivot :: front ++ tail) := (binaryInsert_perm front pivot).append_right tail
      _ |>.Perm (front ++ pivot :: tail) := List.perm_middle.symm

/-- Sorting neither drops nor invents a level. -/
theorem v8SortDesc_perm (l : List Bucket) : (v8SortDesc l).Perm l := by
  unfold v8SortDesc
  split
  · rename_i a b rest
    have happ := splitRun_append (decide (bucketCmp b a < 0)) a (b :: rest)
    refine (foldl_binaryInsert_perm _ _).trans ?_
    conv => rhs; rw [← happ]
    split
    · exact (List.reverse_perm _).append_right _
    · exact List.Perm.refl _
  · exact List.Perm.refl _

/-- The slot is never past the end: the index counts certificates that stand
before it. -/
theorem findInsertIndex_lt {cert : ParsedCert} {start index : Nat} {certs : List ParsedCert}
    (h : findInsertIndex cert start certs = some index) : index < start + certs.length := by
  induction certs generalizing start with
  | nil => cases h
  | cons c rest ih =>
    rw [List.length_cons]
    unfold findInsertIndex at h
    split at h
    · split at h
      · cases h
        omega
      · have := ih h
        omega
    · have := ih h
      omega

theorem insertCert_perm (certs : List ParsedCert) (cert : ParsedCert) :
    (insertCert certs cert).Perm (cert :: certs) := by
  unfold insertCert
  split
  · exact List.perm_append_singleton cert certs
  · rename_i index hindex
    have := findInsertIndex_lt hindex
    exact List.perm_insertIdx _ _ (by omega)

/-- The level of the bucket, if it has one, is at or below the certificate. -/
def Bucket.Matches (bucket : Bucket) (cert : ParsedCert) : Prop :=
  ∃ level, bucket.tcb = some level ∧ level.Le cert.tcb

/-- A certificate goes into the first bucket that it matches. -/
theorem addToBuckets_eq_some {cert : ParsedCert} {buckets out : List Bucket}
    (h : addToBuckets cert buckets = some out) :
    ∃ before bucket after, buckets = before ++ bucket :: after ∧
      out = before ++ { bucket with certs := insertCert bucket.certs cert } :: after ∧
      bucket.Matches cert ∧ ∀ b ∈ before, ¬ b.Matches cert := by
  induction buckets generalizing out with
  | nil => cases h
  | cons bucket rest ih =>
    have hskip : ¬ bucket.Matches cert → (addToBuckets cert rest).map (bucket :: ·) = some out →
        ∃ before b after, bucket :: rest = before ++ b :: after ∧
          out = before ++ { b with certs := insertCert b.certs cert } :: after ∧
          b.Matches cert ∧ ∀ b ∈ before, ¬ b.Matches cert := by
      intro hno hs
      obtain ⟨tail, htail, rfl⟩ := Option.map_eq_some_iff.mp hs
      obtain ⟨before, b, after, rfl, rfl, hmatch, hbefore⟩ := ih htail
      exact ⟨bucket :: before, b, after, rfl, rfl, hmatch, List.forall_mem_cons.mpr ⟨hno, hbefore⟩⟩
    simp only [addToBuckets] at h
    split at h
    · rename_i hnone
      exact hskip (fun ⟨level, hlevel, _⟩ => by rw [hnone] at hlevel; cases hlevel) h
    · rename_i level hlevel
      have hmatch : bucket.Matches cert ↔ ∃ n, cert.tcb.compare level = .ok n ∧ 0 ≤ n := by
        rw [Tcb.compare_nonneg, Bucket.Matches, hlevel]
        simp
      split at h
      · rename_i n hn
        split at h
        · rename_i hpos
          cases h
          exact ⟨[], bucket, rest, rfl, rfl, hmatch.mpr ⟨n, hn, hpos⟩, by simp⟩
        · rename_i hneg
          refine hskip (fun hm => ?_) h
          obtain ⟨m, hm, hpos⟩ := hmatch.mp hm
          rw [hn] at hm
          cases hm
          exact hneg hpos
      · rename_i e he
        refine hskip (fun hm => ?_) h
        obtain ⟨m, hm, _⟩ := hmatch.mp hm
        rw [he] at hm
        cases hm

theorem addToBuckets_eq_none {cert : ParsedCert} {buckets : List Bucket}
    (h : addToBuckets cert buckets = none) : ∀ b ∈ buckets, ¬ b.Matches cert := by
  induction buckets with
  | nil => simp
  | cons bucket rest ih =>
    simp only [addToBuckets] at h
    rw [List.forall_mem_cons]
    split at h
    · rename_i hnone
      refine ⟨fun ⟨level, hlevel, _⟩ => ?_, ih (Option.map_eq_none_iff.mp h)⟩
      rw [hnone] at hlevel
      cases hlevel
    · rename_i level hlevel
      have hno : ¬ (∃ n, cert.tcb.compare level = .ok n ∧ 0 ≤ n) → ¬ bucket.Matches cert := by
        rw [Tcb.compare_nonneg, Bucket.Matches, hlevel]
        simp
      split at h
      · rename_i n hn
        split at h
        · cases h
        · rename_i hneg
          exact ⟨hno (by simp [hn, hneg]), ih (Option.map_eq_none_iff.mp h)⟩
      · rename_i e he
        exact ⟨hno (by simp [he]), ih (Option.map_eq_none_iff.mp h)⟩

theorem addToBuckets_perm {cert : ParsedCert} {buckets out : List Bucket}
    (h : addToBuckets cert buckets = some out) :
    (out.flatMap Bucket.certs).Perm (cert :: buckets.flatMap Bucket.certs) := by
  obtain ⟨before, bucket, after, rfl, rfl, _, _⟩ := addToBuckets_eq_some h
  simp only [List.flatMap_append, List.flatMap_cons]
  refine (((insertCert_perm bucket.certs cert).append_right _).append_left _).trans ?_
  exact List.perm_middle

theorem scanOrder_eq (filled : List Bucket × List ParsedCert) :
    scanOrder filled = filled.1.flatMap Bucket.certs ++ filled.2 := by
  simp [scanOrder]

theorem fillBucket_perm (acc : List Bucket × List ParsedCert) (cert : ParsedCert) :
    (scanOrder (fillBucket acc cert)).Perm (cert :: scanOrder acc) := by
  rw [scanOrder_eq, scanOrder_eq]
  unfold fillBucket
  split
  · rename_i buckets hb
    rw [← List.cons_append]
    exact (addToBuckets_perm hb).append_right _
  · rw [← List.append_assoc]
    exact List.perm_append_singleton _ _

/-- Filling the buckets moves every certificate of the pool into one slot. -/
theorem fill_perm (parsed : List ParsedCert) (acc : List Bucket × List ParsedCert) :
    (scanOrder (parsed.foldl fillBucket acc)).Perm (parsed ++ scanOrder acc) := by
  induction parsed generalizing acc with
  | nil => exact List.Perm.refl _
  | cons cert parsed ih =>
    calc (scanOrder (parsed.foldl fillBucket (fillBucket acc cert)))
        |>.Perm (parsed ++ scanOrder (fillBucket acc cert)) := ih _
      _ |>.Perm (parsed ++ cert :: scanOrder acc) := (fillBucket_perm acc cert).append_left parsed
      _ |>.Perm (cert :: parsed ++ scanOrder acc) := List.perm_middle

theorem createBuckets_empty {tcbInfo : Value} {buckets : List Bucket}
    (h : createBuckets tcbInfo = .ok buckets) : ∀ b ∈ buckets, b.certs = [] := by
  obtain ⟨levels, _, h⟩ := bind_eq_ok.mp h
  obtain ⟨raw, hraw, h⟩ := bind_eq_ok.mp h
  cases pure_eq_ok.mp h
  intro b hb
  obtain ⟨level, _, hb⟩ := exists_of_mem_result hraw b ((v8SortDesc_perm raw).mem_iff.mp hb)
  obtain ⟨_, _, hb⟩ := bind_eq_ok.mp hb
  obtain ⟨_, _, hb⟩ := bind_eq_ok.mp hb
  obtain ⟨_, _, hb⟩ := bind_eq_ok.mp hb
  obtain ⟨_, _, hb⟩ := bind_eq_ok.mp hb
  obtain ⟨_, _, hb⟩ := bind_eq_ok.mp hb
  cases pure_eq_ok.mp hb
  rfl

/-- The scan goes over the certificates of the pool, each of them once. -/
theorem scan_perm {tcbInfo : Value} {buckets : List Bucket} (parsed : List ParsedCert)
    (h : createBuckets tcbInfo = .ok buckets) :
    (scanOrder (parsed.foldl fillBucket (buckets, []))).Perm parsed := by
  have hempty : scanOrder (buckets, []) = [] := by
    rw [scanOrder_eq, List.append_nil, List.flatMap_eq_nil_iff]
    exact createBuckets_empty h
  simpa [hempty] using fill_perm parsed (buckets, [])

end Buckets

/-- Every certificate parses as version 3, all of them are of one platform, and
that platform is the one of the pool. -/
structure PoolChecked (pceId fmspc : String) (certs : List (String × String)) : Prop where
  parses : ∀ c ∈ certs, ∃ info, parsePckCert c.2 = .ok info ∧ info.version = pckCertVersion ∧
    info.pceId = toAsciiUppercase pceId ∧ info.fmspc = toAsciiUppercase fmspc
  onePpid : ∃ ppid, ∀ c ∈ certs, ∀ info, parsePckCert c.2 = .ok info → info.ppid = ppid

/-- The certificate in `cert` parses, is of the platform and is at or below the
raw level. -/
def CertWithin (pceId cpusvn pcesvn cert : String) : Prop :=
  ∃ info tcb raw, parsePckCert cert = .ok info ∧ info.pceId = toAsciiUppercase pceId ∧
    Tcb.new info.cpusvn info.pcesvn = .ok tcb ∧ Tcb.fromHex cpusvn pcesvn = .ok raw ∧ tcb.Le raw

/-- The FMSPC a TCB info is about. -/
def infoFmspc (tcbInfo : Value) : Option String := (tcbInfo.get "fmspc").bind Value.asStr

section Specifications

theorem parseOne_eq_ok {c : String × String} {p : ParsedCert} (h : parseOne c = .ok p) :
    parsePckCert c.2 = .ok p.info ∧ Tcb.new p.info.cpusvn p.info.pcesvn = .ok p.tcb ∧
      p.tcbm = toAsciiUppercase c.1 ∧ p.cert = c.2 := by
  obtain ⟨info, hinfo, h⟩ := bind_eq_ok.mp h
  obtain ⟨tcb, htcb, h⟩ := bind_eq_ok.mp h
  cases pure_eq_ok.mp h
  exact ⟨hinfo, htcb, rfl, rfl⟩

theorem checkCerts_eq_ok {pceId fmspc : String} {ppid : Option String} {certs : List ParsedCert}
    (h : checkCerts pceId fmspc ppid certs = .ok ()) :
    (∀ p ∈ certs, p.info.version = pckCertVersion ∧ p.info.pceId = toAsciiUppercase pceId ∧
      p.info.fmspc = fmspc) ∧
    ∃ q, (∀ p ∈ certs, p.info.ppid = q) ∧ ∀ r, ppid = some r → q = r := by
  induction certs generalizing ppid with
  | nil => exact ⟨by simp, ppid.getD "", by simp, fun r hr => by simp [hr]⟩
  | cons cert rest ih =>
    unfold checkCerts at h
    split at h
    · cases h
    rename_i hv
    split at h
    · cases h
    rename_i hp
    split at h
    · cases h
    rename_i hf
    have hhead := And.intro (Decidable.of_not_not hv)
      (And.intro (Decidable.of_not_not hp) (Decidable.of_not_not hf))
    split at h
    · obtain ⟨hall, q, hq, hr⟩ := ih h
      refine ⟨List.forall_mem_cons.mpr ⟨hhead, hall⟩, q, ?_, by simp⟩
      exact List.forall_mem_cons.mpr ⟨(hr _ rfl).symm, hq⟩
    · split at h
      · cases h
      · rename_i p hpp
        obtain ⟨hall, q, hq, hr⟩ := ih h
        refine ⟨List.forall_mem_cons.mpr ⟨hhead, hall⟩, q, ?_, ?_⟩
        · refine List.forall_mem_cons.mpr ⟨?_, hq⟩
          rw [hr _ rfl]
          exact (Decidable.of_not_not hpp).symm
        · intro r hr'
          cases hr'
          exact hr _ rfl

theorem validatePlatformMetadata_eq_ok {pceId : String} {certs : List (String × String)}
    {parsed : List ParsedCert} {tcbInfo : Value} (hparse : parsePckCerts certs = .ok parsed)
    (h : validatePlatformMetadata pceId parsed tcbInfo = .ok ()) :
    ∃ fmspc, infoFmspc tcbInfo = some fmspc ∧ PoolChecked pceId fmspc certs := by
  obtain ⟨_, _, h⟩ := bind_eq_ok.mp h
  obtain ⟨_, _, h⟩ := bind_eq_ok.mp h
  obtain ⟨_, _, h⟩ := bind_eq_ok.mp h
  obtain ⟨_, _, h⟩ := bind_eq_ok.mp h
  obtain ⟨fmspc, hf, h⟩ := bind_eq_ok.mp h
  obtain ⟨hall, q, hq, _⟩ := checkCerts_eq_ok h
  refine ⟨fmspc, require_eq_ok.mp hf, ?_, q, ?_⟩
  · intro c hc
    obtain ⟨p, hp, hpc⟩ := exists_of_mem_mapM hparse c hc
    exact ⟨p.info, (parseOne_eq_ok hpc).1, hall p hp⟩
  · intro c hc info hinfo
    obtain ⟨p, hp, hpc⟩ := exists_of_mem_mapM hparse c hc
    rw [(parseOne_eq_ok hpc).1] at hinfo
    cases hinfo
    exact hq p hp

theorem validateInput_eq_ok {pceId : String} {certs : List (String × String)}
    {parsed : List ParsedCert} {tcbInfo : Value} (hparse : parsePckCerts certs = .ok parsed)
    (h : validateInput pceId parsed tcbInfo = .ok ()) :
    ∃ fmspc, infoFmspc tcbInfo = some fmspc ∧ PoolChecked pceId fmspc certs := by
  obtain ⟨_, _, h⟩ := bind_eq_ok.mp h
  exact validatePlatformMetadata_eq_ok hparse h

theorem validatePckCertPool_eq_ok {pceId : String} {certs : List (String × String)}
    {tcbInfo : Value} (h : validatePckCertPool pceId certs tcbInfo = .ok ()) :
    ∃ fmspc, infoFmspc tcbInfo = some fmspc ∧ PoolChecked pceId fmspc certs := by
  obtain ⟨_, _, h⟩ := bind_eq_ok.mp h
  obtain ⟨parsed, hparse, h⟩ := bind_eq_ok.mp h
  obtain ⟨_, hvalid, _⟩ := bind_eq_ok.mp h
  exact validateInput_eq_ok hparse hvalid

theorem atOrBelow_iff {raw : Tcb} {cert : ParsedCert} :
    atOrBelow raw cert = true ↔ cert.tcb.Le raw := by
  rw [← Tcb.compare_nonneg]
  unfold atOrBelow
  cases raw.compare cert.tcb with
  | error e => simp
  | ok n => simp

/-- A selection validates the whole pool on its way. -/
theorem selectBestPckCert_checked {cpusvn pcesvn pceId : String}
    {certs : List (String × String)} {tcbInfo : Value} {best : String × String}
    (h : selectBestPckCert cpusvn pcesvn pceId certs tcbInfo = .ok best) :
    ∃ fmspc, infoFmspc tcbInfo = some fmspc ∧ PoolChecked pceId fmspc certs := by
  obtain ⟨_, _, h⟩ := bind_eq_ok.mp h
  obtain ⟨parsed, hparse, h⟩ := bind_eq_ok.mp h
  obtain ⟨_, hvalid, _⟩ := bind_eq_ok.mp h
  exact validateInput_eq_ok hparse hvalid

/-- The raw level of a successful selection is readable. -/
theorem selectBestPckCert_level {cpusvn pcesvn pceId : String}
    {certs : List (String × String)} {tcbInfo : Value} {best : String × String}
    (h : selectBestPckCert cpusvn pcesvn pceId certs tcbInfo = .ok best) :
    ∃ raw, Tcb.fromHex cpusvn pcesvn = .ok raw := by
  obtain ⟨_, _, h⟩ := bind_eq_ok.mp h
  obtain ⟨_, _, h⟩ := bind_eq_ok.mp h
  obtain ⟨_, _, h⟩ := bind_eq_ok.mp h
  obtain ⟨_, _, h⟩ := bind_eq_ok.mp h
  obtain ⟨raw, hraw, _⟩ := bind_eq_ok.mp h
  exact ⟨raw, hraw⟩

/-- The selected certificate is one of the pool, under its own tcbm, and not
above the raw level. -/
theorem selectBestPckCert_eq_ok {cpusvn pcesvn pceId : String}
    {certs : List (String × String)} {tcbInfo : Value} {best : String × String}
    (h : selectBestPckCert cpusvn pcesvn pceId certs tcbInfo = .ok best) :
    (∃ c ∈ certs, best = (toAsciiUppercase c.1, c.2)) ∧
      CertWithin pceId cpusvn pcesvn best.2 := by
  obtain ⟨fmspc, _, hpool⟩ := selectBestPckCert_checked h
  obtain ⟨_, _, h⟩ := bind_eq_ok.mp h
  obtain ⟨parsed, hparse, h⟩ := bind_eq_ok.mp h
  obtain ⟨_, _, h⟩ := bind_eq_ok.mp h
  obtain ⟨buckets, hbuckets, h⟩ := bind_eq_ok.mp h
  obtain ⟨raw, hraw, h⟩ := bind_eq_ok.mp h
  obtain ⟨cert, hfind, h⟩ := bind_eq_ok.mp h
  cases pure_eq_ok.mp h
  have hfind := require_eq_ok.mp hfind
  have hle : cert.tcb.Le raw := atOrBelow_iff.mp (List.find?_some hfind)
  have hmem : cert ∈ parsed :=
    (scan_perm parsed hbuckets).mem_iff.mp (List.mem_of_find?_eq_some hfind)
  obtain ⟨c, hc, hpc⟩ := exists_of_mem_result hparse cert hmem
  obtain ⟨hinfo, htcb, htcbm, hcert⟩ := parseOne_eq_ok hpc
  obtain ⟨info, hinfo', _, hpce, _⟩ := hpool.parses c hc
  rw [hinfo] at hinfo'
  cases hinfo'
  refine ⟨⟨c, hc, by rw [htcbm, hcert]⟩, cert.info, cert.tcb, raw, ?_, hpce, htcb, hraw, hle⟩
  rw [hcert]
  exact hinfo

end Specifications

end Pccs.Selection
