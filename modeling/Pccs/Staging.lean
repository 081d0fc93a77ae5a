import Pccs.Store
import Pccs.Validate

/-!
# Staging a fetched pool

Between the answers of the upstream and the one batch that publishes them
everything is computed in memory: the answer is parsed, every staged TCB
document is checked against the pool, the requested level is selected, and the
publication is guarded by the credentials the fetch was made with.
-/
namespace Pccs.Cache

open Text Encoding Json Fallible PccsError Store

/-- An upstream answer. Header names are compared without regard to case. -/
structure HttpResponse where
  status : Nat
  headers : List (String × List UInt8)
  body : List UInt8

def visibleAscii (b : UInt8) : Bool := (32 ≤ b && b < 127) || b == 9

/-- A header as text; absent or unprintable reads as empty. -/
def HttpResponse.hdr (r : HttpResponse) (name : String) : String :=
  match r.headers.find? fun h => eqIgnoreAsciiCase h.1 name with
  | some (_, value) => if value.all visibleAscii then fromUtf8Lossy value else ""
  | none => ""

def sgxTcbm : String := "SGX-TCBm"
def sgxFmspc : String := "SGX-FMSPC"
def sgxPckCertificateCaType : String := "SGX-PCK-Certificate-CA-Type"
def sgxPckCertificateIssuerChain : String := "SGX-PCK-Certificate-Issuer-Chain"
def tcbInfoIssuerChain : String := "TCB-Info-Issuer-Chain"
def sgxTcbInfoIssuerChain : String := "SGX-TCB-Info-Issuer-Chain"
def sgxEnclaveIdentityIssuerChain : String := "SGX-Enclave-Identity-Issuer-Chain"
def sgxPckCrlIssuerChain : String := "SGX-PCK-CRL-Issuer-Chain"

def tcbIssuerChainName (version : Nat) : String :=
  if version = 3 then sgxTcbInfoIssuerChain else tcbInfoIssuerChain

structure PckCertsResponse where
  certs : List (String × String)
  notAvailable : List Value
  fmspc : String
  ca : String
  issuerChain : String

/-- One entry of a `pckcerts` answer: a level without a certificate, a
certificate, or nothing usable. -/
def filterPckCert (acc : List (String × String) × List Value) (c : Value) :
    List (String × String) × List Value :=
  let tcbm := toAsciiUppercase (((c.get "tcbm").bind Value.asStr).getD "")
  let cert := Validate.percentDecode (((c.get "cert").bind Value.asStr).getD "")
  if cert = "Not available" then (acc.1, acc.2 ++ [(c.get "tcb").getD .null])
  else if tcbm ≠ "" ∧ cert ≠ "" then (acc.1 ++ [(tcbm, cert)], acc.2)
  else acc

def parsePckcerts (env : Env) (r : HttpResponse) : Except PccsError PckCertsResponse := do
  reject (r.status ≠ 200) noCacheData
  let fmspc := toAsciiUppercase (r.hdr sgxFmspc)
  let ca := toAsciiUppercase (r.hdr sgxPckCertificateCaType)
  reject (fmspc = "" ∨ ca = "") internalError
  let parsed ← require (env.fromSlice r.body) internalError
  let arr ← require parsed.asArray noCacheData
  let sorted := arr.foldl filterPckCert ([], [])
  return ⟨sorted.1, sorted.2, fmspc, ca, r.hdr sgxPckCertificateIssuerChain⟩

/-- The single certificate of a PCCS mirror, under the identity that was asked
for. -/
def parsePckcertPccs (qeid cpusvn pcesvn pceid : String) (encPpid : Option String)
    (r : HttpResponse) : Except PccsError PckCertRecord := do
  reject (r.status ≠ 200) noCacheData
  return {
    qeid := toAsciiUppercase qeid
    pceid := toAsciiUppercase pceid
    cpusvn := toAsciiUppercase cpusvn
    pcesvn := toAsciiUppercase pcesvn
    cert := fromUtf8Lossy r.body
    tcbm := toAsciiUppercase (r.hdr sgxTcbm)
    fmspc := toAsciiUppercase (r.hdr sgxFmspc)
    ca := toAsciiUppercase (r.hdr sgxPckCertificateCaType)
    issuerChain := r.hdr sgxPckCertificateIssuerChain
    encryptedPpid := encPpid.map toAsciiUppercase
    platformManifest := "" }

/-- The well-formed text of a body, if it is UTF-8. -/
def fromUtf8 (body : List UInt8) : Option String :=
  let text := fromUtf8Lossy body
  if asBytes text = body then some text else none

def parseTcb (env : Env) (prodType : Nat) (fmspc : String) (version : Nat) (update : UpdateType)
    (r : HttpResponse) : Except PccsError TcbRecord := do
  reject (r.status ≠ 200) noCacheData
  let rawBody ← require (fromUtf8 r.body) noCacheData
  let tcbinfo ← require (env.fromSlice (asBytes rawBody)) noCacheData
  let v4 := r.hdr tcbInfoIssuerChain
  return {
    prodType
    fmspc := toAsciiUppercase fmspc
    version
    updateType := update.asStr
    tcbinfo
    rawBody
    issuerChain := if v4 = "" then r.hdr sgxTcbInfoIssuerChain else v4 }

/-- Unicode `White_Space`, as `str::trim` cuts it. -/
def isWhitespace (c : Char) : Bool :=
  let n := c.toNat
  (9 ≤ n && n ≤ 13) || n == 0x20 || n == 0x85 || n == 0xA0 || n == 0x1680 ||
    (0x2000 ≤ n && n ≤ 0x200A) || n == 0x2028 || n == 0x2029 || n == 0x202F || n == 0x205F ||
    n == 0x3000

/-- An answer without its issuer chain is never cached. -/
def cacheable (chain : String) : Bool := chain.toList.any fun c => !isWhitespace c

/-- The credentials of a fetch and what was observed before it. -/
structure PckFetchContext where
  encPpid : String
  platformManifest : String
  expected : Option PlatformCredentials
  unknownGet : Bool

def PckFetchContext.publication (c : PckFetchContext) : PlatformPublication :=
  if c.unknownGet ∧ c.expected = none then .absentGet c.encPpid c.platformManifest
  else .observed c.expected

/-- The signed part of a TCB document. -/
def innerInfo (tcb : TcbRecord) : Value := (tcb.tcbinfo.get "tcbInfo").getD tcb.tcbinfo

def selectFromPoolWithTcb (pool : PlatformPool) (cpusvn pcesvn pceid : String) (tcb : TcbRecord) :
    Except PccsError PckCertRecord :=
  match Selection.selectBestPckCert cpusvn pcesvn pceid pool.certPairs (innerInfo tcb) with
  | .error _ => .error noCacheData
  | .ok (tcbm, cert) => .ok {
      qeid := pool.qeId
      pceid := pool.pceId
      cpusvn := toAsciiUppercase cpusvn
      pcesvn := toAsciiUppercase pcesvn
      cert
      tcbm
      fmspc := pool.fmspc
      ca := pool.ca
      issuerChain := pool.issuerChain
      encryptedPpid := pool.storedPpid
      platformManifest := pool.platformManifest }

/-- Local selection with the cached SGX TCB info, early before standard. -/
def selectFromPool (env : Env) (db : Database) (pcsVersion : Nat) (pool : PlatformPool)
    (cpusvn pcesvn pceid : String) : Except PccsError PckCertRecord := do
  reject (pool.certs = []) noCacheData
  let tcb ← require ((getTcb env db 0 pool.fmspc pcsVersion .early).or
    (getTcb env db 0 pool.fmspc pcsVersion .standard)) noCacheData
  selectFromPoolWithTcb pool cpusvn pcesvn pceid tcb

def pckcertPool (qeid pceid encPpid platformManifest : String) (resp : PckCertsResponse) :
    Except PccsError PlatformPool := do
  reject (resp.certs = []) noCacheData
  reject (cacheable resp.issuerChain = false) pcsAccessFailure
  return {
    qeId := toAsciiUppercase qeid
    pceId := toAsciiUppercase pceid
    encPpid := toAsciiUppercase encPpid
    platformManifest
    fmspc := resp.fmspc
    ca := resp.ca
    issuerChain := resp.issuerChain
    certs := resp.certs.map fun c => ⟨c.1, c.2⟩
    rawTcbs := [] }

/-- The documents a fill fetches, in order. -/
def wantedTcbs (pcsVersion : Nat) : List (Nat × UpdateType) :=
  [(0, .early), (0, .standard)] ++ if pcsVersion ≥ 4 then [(1, .early), (1, .standard)] else []

/-- Keep the cacheable documents; the standard SGX one must have been served. -/
def collectTcbs (fetched : List ((Nat × UpdateType) × Except PccsError TcbRecord)) :
    Except PccsError (List TcbRecord) := do
  reject ((fetched.any fun f => f.1 == (0, .standard) && f.2.isOk) = false) noCacheData
  return fetched.filterMap fun f => f.2.toOption.filter fun rec => cacheable rec.issuerChain

/-- Product, FMSPC and pool of one staged document. -/
def checkStagedTcb (pceid : String) (pool : PlatformPool) (rec : TcbRecord) :
    Except PccsError Unit := do
  let info := innerInfo rec
  let expectedId := if rec.prodType = 0 then "SGX" else "TDX"
  reject ((info.get "id").bind Value.asStr ≠ some expectedId ∨
    ((info.get "fmspc").bind Value.asStr).any (eqIgnoreAsciiCase · pool.fmspc) = false) noCacheData
  let validation :=
    if rec.prodType = 0 then Selection.validatePckCertPool pceid pool.certPairs info
    else Selection.validateTdxPckCertPool pceid pool.certPairs info
  validation.mapError fun _ => noCacheData

/-- Fresh SGX early, otherwise fresh SGX standard. -/
def chosenTcb (tcbs : List TcbRecord) : Option TcbRecord :=
  (tcbs.find? fun t => t.prodType = 0 ∧ t.updateType = "EARLY").or
    (tcbs.find? fun t => t.prodType = 0 ∧ t.updateType = "STANDARD")

/-- What is settled before a fill publishes: the document to select with and
the selection for the requested level. -/
def stagePckcerts (pceid : String) (pool : PlatformPool) (tcbs : List TcbRecord)
    (requested : Option (String × String)) : Except PccsError (TcbRecord × Option PckCertRecord) := do
  tcbs.forM (checkStagedTcb pceid pool)
  let tcb ← require (chosenTcb tcbs) noCacheData
  match requested with
  | none => return (tcb, none)
  | some (cpu, pce) =>
    let rec ← selectFromPoolWithTcb pool cpu pce pceid tcb
    return (tcb, some rec)

/-- In LAZY mode a level reported as not available is served once, untracked. -/
def persistSelected (mode : CacheMode) (resp : PckCertsResponse) (selected : Option PckCertRecord) :
    Option PckCertRecord :=
  if mode ≠ .lazy ∨ resp.notAvailable.isEmpty then selected else none

/-- The end of a fill, after its fetches. -/
def storePckcerts (env : Env) (db : Database) (mode : CacheMode) (pceid : String)
    (context : PckFetchContext) (pool : PlatformPool) (resp : PckCertsResponse)
    (tcbs : List TcbRecord) (requested : Option (String × String)) :
    Except PccsError (Option PckCertRecord × WriteBatch) := do
  let (tcb, selected) ← stagePckcerts pceid pool tcbs requested
  let (_, batch) ← replacePlatformCertsAfterFetch env db pool context.publication tcbs
    (persistSelected mode resp selected)
    fun fresh raw => selectFromPoolWithTcb fresh raw.cpuSvn raw.pceSvn pceid tcb
  return (selected, batch)

/-- The end of a pool refresh: only the early document, used and not stored. -/
def publishRefreshed (env : Env) (db : Database) (fresh : PlatformPool)
    (expected : PlatformCredentials) (tcb : TcbRecord) : Except PccsError (Unit × WriteBatch) :=
  replacePlatformCertsWithSelection env db fresh (some expected) [] none
    fun fresh raw => selectFromPoolWithTcb fresh raw.cpuSvn raw.pceSvn fresh.pceId tcb

section Specifications

variable {env : Env} {db : Database}

/-- The pool of an answer: the identity asked for, and the answer's
certificates. -/
theorem pckcertPool_eq_ok {qeid pceid encPpid platformManifest : String} {resp : PckCertsResponse}
    {pool : PlatformPool}
    (h : pckcertPool qeid pceid encPpid platformManifest resp = .ok pool) :
    resp.certs ≠ [] ∧ pool =
      { qeId := toAsciiUppercase qeid, pceId := toAsciiUppercase pceid,
        encPpid := toAsciiUppercase encPpid, platformManifest, fmspc := resp.fmspc, ca := resp.ca,
        issuerChain := resp.issuerChain, certs := resp.certs.map fun c => ⟨c.1, c.2⟩,
        rawTcbs := [] } := by
  obtain ⟨_, hcerts, h⟩ := bind_eq_ok.mp h
  obtain ⟨_, _, h⟩ := bind_eq_ok.mp h
  exact ⟨reject_eq_ok.mp hcerts, (pure_eq_ok.mp h).symm⟩

theorem parsePckcertPccs_eq_ok {qeid cpusvn pcesvn pceid : String} {encPpid : Option String}
    {r : HttpResponse} {rec : PckCertRecord}
    (h : parsePckcertPccs qeid cpusvn pcesvn pceid encPpid r = .ok rec) :
    rec.pceid = toAsciiUppercase pceid ∧ rec.cpusvn = toAsciiUppercase cpusvn ∧
      rec.pcesvn = toAsciiUppercase pcesvn := by
  obtain ⟨_, _, h⟩ := bind_eq_ok.mp h
  rw [← pure_eq_ok.mp h]
  exact ⟨rfl, rfl, rfl⟩

/-- A mirror's certificate is of the platform it was asked for, and no manifest
comes with it. -/
theorem parsePckcertPccs_platform {qeid cpusvn pcesvn pceid : String} {encPpid : Option String}
    {r : HttpResponse} {rec : PckCertRecord}
    (h : parsePckcertPccs qeid cpusvn pcesvn pceid encPpid r = .ok rec) :
    toAsciiLowercase rec.qeid = toAsciiLowercase qeid ∧
      toAsciiLowercase rec.pceid = toAsciiLowercase pceid ∧ rec.platformManifest = "" := by
  obtain ⟨_, _, h⟩ := bind_eq_ok.mp h
  rw [← pure_eq_ok.mp h]
  exact ⟨toAsciiLowercase_uppercase _, toAsciiLowercase_uppercase _, rfl⟩

theorem chosenTcb_eq_some {tcbs : List TcbRecord} {tcb : TcbRecord}
    (h : chosenTcb tcbs = some tcb) : tcb ∈ tcbs ∧ tcb.prodType = 0 := by
  rcases Option.or_eq_some_iff.mp h with h | ⟨_, h⟩
  · have hp := List.find?_some h
    exact ⟨List.mem_of_find?_eq_some h, by simp_all⟩
  · have hp := List.find?_some h
    exact ⟨List.mem_of_find?_eq_some h, by simp_all⟩

/-- A staged SGX document vouches for the whole pool under its FMSPC. -/
theorem checkStagedTcb_sgx {pceid : String} {pool : PlatformPool} {rec : TcbRecord}
    (hsgx : rec.prodType = 0) (h : checkStagedTcb pceid pool rec = .ok ()) :
    ∃ fmspc, toAsciiLowercase fmspc = toAsciiLowercase pool.fmspc ∧
      Selection.PoolChecked pceid fmspc pool.certPairs := by
  obtain ⟨_, hid, h⟩ := bind_eq_ok.mp h
  simp only [hsgx, if_true] at h
  obtain ⟨fmspc, hfmspc, hpool⟩ := Selection.validatePckCertPool_eq_ok (mapError_eq_ok.mp h)
  have hid := reject_eq_ok.mp hid
  simp only [not_or] at hid
  have hany : ((innerInfo rec).get "fmspc").bind Value.asStr = some fmspc := hfmspc
  rw [hany] at hid
  exact ⟨fmspc, by simpa using hid.2, hpool⟩

/-- What a fill has settled when it comes to publish. -/
theorem stagePckcerts_eq_ok {pceid : String} {pool : PlatformPool} {tcbs : List TcbRecord}
    {requested : Option (String × String)} {tcb : TcbRecord} {selected : Option PckCertRecord}
    (h : stagePckcerts pceid pool tcbs requested = .ok (tcb, selected)) :
    (∀ t ∈ tcbs, checkStagedTcb pceid pool t = .ok ()) ∧ chosenTcb tcbs = some tcb ∧
      (∀ rec ∈ selected, ∃ level ∈ requested,
        selectFromPoolWithTcb pool level.1 level.2 pceid tcb = .ok rec) := by
  obtain ⟨_, hall, h⟩ := bind_eq_ok.mp h
  obtain ⟨tcb', htcb, h⟩ := bind_eq_ok.mp h
  cases requested with
  | none =>
    cases pure_eq_ok.mp h
    exact ⟨forM_eq_ok.mp hall, require_eq_ok.mp htcb, by simp⟩
  | some level =>
    obtain ⟨rec, hrec, h⟩ := bind_eq_ok.mp h
    cases pure_eq_ok.mp h
    refine ⟨forM_eq_ok.mp hall, require_eq_ok.mp htcb, ?_⟩
    rintro _ ⟨⟩
    exact ⟨level, rfl, hrec⟩

/-- A staged pool is a checked pool of the FMSPC it was answered under. -/
theorem stagePckcerts_checked {pceid : String} {pool : PlatformPool} {tcbs : List TcbRecord}
    {requested : Option (String × String)} {out : TcbRecord × Option PckCertRecord}
    (h : stagePckcerts pceid pool tcbs requested = .ok out) :
    ∃ fmspc, toAsciiLowercase fmspc = toAsciiLowercase pool.fmspc ∧
      Selection.PoolChecked pceid fmspc pool.certPairs := by
  obtain ⟨tcb, selected⟩ := out
  obtain ⟨hall, htcb, _⟩ := stagePckcerts_eq_ok h
  obtain ⟨hmem, hsgx⟩ := chosenTcb_eq_some htcb
  exact checkStagedTcb_sgx hsgx (hall tcb hmem)

theorem storePckcerts_eq_ok {mode : CacheMode} {pceid : String} {context : PckFetchContext}
    {pool : PlatformPool} {resp : PckCertsResponse} {tcbs : List TcbRecord}
    {requested : Option (String × String)} {selected : Option PckCertRecord} {batch : WriteBatch}
    (h : storePckcerts env db mode pceid context pool resp tcbs requested = .ok (selected, batch)) :
    ∃ tcb, stagePckcerts pceid pool tcbs requested = .ok (tcb, selected) ∧
      replacePlatformCertsAfterFetch env db pool context.publication tcbs
        (persistSelected mode resp selected)
        (fun fresh raw => selectFromPoolWithTcb fresh raw.cpuSvn raw.pceSvn pceid tcb) =
          .ok ((), batch) := by
  obtain ⟨⟨tcb, selected'⟩, hstage, h⟩ := bind_eq_ok.mp h
  obtain ⟨⟨_, batch'⟩, hreplace, h⟩ := bind_eq_ok.mp h
  cases pure_eq_ok.mp h
  exact ⟨tcb, hstage, hreplace⟩

theorem mem_persistSelected {mode : CacheMode} {resp : PckCertsResponse}
    {selected : Option PckCertRecord} {rec : PckCertRecord}
    (h : rec ∈ persistSelected mode resp selected) : rec ∈ selected := by
  unfold persistSelected at h
  split at h
  · exact h
  · cases h

end Specifications

end Pccs.Cache
