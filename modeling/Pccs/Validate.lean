import Pccs.Fallible
import Pccs.Records
import Pccs.Tcb

/-!
# Request validation

Parameters and bodies are checked before they reach the cache. Every failure is
the same `400`; the text given to `rejected` only goes to the log.
-/
namespace Pccs.Validate

open Text Encoding Json Fallible PccsError

def isHex (value : String) (expectedLen : Nat) : Bool :=
  byteLen value == expectedLen && (asBytes value).all fun b => (hexValue b).isSome

def isHexOrEmpty (value : String) (expectedLen : Nat) : Bool :=
  value == "" || isHex value expectedLen

def percentDecode (s : String) : String := fromUtf8Lossy (percentDecodeBytes (asBytes s))

def rejected (_what : String) : PccsError := invalidReq

def requireHex (value : Option String) (field : String) (expectedLen : Nat) :
    Except PccsError String := do
  let v ← require (value.filter (· ≠ "")) (rejected (field ++ " field is missing"))
  reject (isHex v expectedLen = false) (rejected (field ++ " field is not valid hex string : " ++ v))
  return toAsciiUppercase v

def fmspc (value : Option String) : Except PccsError String := requireHex value "fmspc" 12

def cpusvn (value : Option String) : Except PccsError String := requireHex value "cpusvn" 32

def pcesvn (value : Option String) : Except PccsError String := requireHex value "pcesvn" 4

def pceid (value : Option String) : Except PccsError String := requireHex value "pceid" 4

/-- Absent is fine, present and empty is not. -/
def encryptedPpid : Option String → Except PccsError (Option String)
  | none => .ok none
  | some v => (requireHex (some v) "encrypted ppid" 768).map some

def qeidMax : Nat := 260

/-- Any text up to the limit, not only hex. -/
def qeid (value : Option String) : Except PccsError String := do
  let v ← require (value.filter (· ≠ "")) (rejected "qeid field is missing")
  reject (byteLen v > qeidMax) (rejected ("qeid field is not valid length (max 260) : " ++ v))
  return toAsciiUppercase v

structure PckcertQuery where
  qeid : String
  cpusvn : String
  pcesvn : String
  pceid : String
  encryptedPpid : Option String
deriving DecidableEq, Repr

/-- The parameters of `GET /pckcert`, in the order the handler checks them. -/
def pckcertQuery (params : String → Option String) : Except PccsError PckcertQuery := do
  let qeid ← qeid (params "qeid")
  let cpusvn ← cpusvn (params "cpusvn")
  let pcesvn ← pcesvn (params "pcesvn")
  let pceid ← pceid (params "pceid")
  let encryptedPpid ← encryptedPpid (params "encrypted_ppid")
  return { qeid, cpusvn, pcesvn, pceid, encryptedPpid }

/-- A member that is absent, `null` or a string. -/
def optStr (v : Value) (key : String) : Except PccsError (Option String) :=
  match v.get key with
  | none => .ok none
  | some .null => .ok none
  | some (.string s) => .ok (some s)
  | some _ => .error (rejected (key ++ " must be a string"))

def reqStr (v : Value) (key : String) : Except PccsError String := do
  require (← optStr v key) (rejected (key ++ " is required"))

structure PlatformReg where
  qeId : String
  pceId : String
  cpuSvn : String
  pceSvn : String
  encPpid : String
  platformManifest : String
deriving DecidableEq, Repr

def qeIdOutOfRange (qeId : String) : Bool := qeId == "" || byteLen qeId > 260

def presentAndNotHex (body : Value) (key value : String) (len : Nat) : Bool :=
  (body.get key).isSome && !isHex value len

def platformReg (body : Value) : Except PccsError PlatformReg := do
  reject (body.isObject = false) (rejected "Failed to validate the registration data.")
  let qeId ← reqStr body "qe_id"
  reject (qeIdOutOfRange qeId = true) (rejected "qe_id length out of range")
  let pceId ← reqStr body "pce_id"
  reject (isHex pceId 4 = false) (rejected "pce_id is not a valid hex string")
  let cpuSvn := (← optStr body "cpu_svn").getD ""
  let pceSvn := (← optStr body "pce_svn").getD ""
  let encPpid := (← optStr body "enc_ppid").getD ""
  reject (presentAndNotHex body "cpu_svn" cpuSvn 32 = true)
    (rejected "cpu_svn is not a valid hex string")
  reject (presentAndNotHex body "pce_svn" pceSvn 4 = true)
    (rejected "pce_svn is not a valid hex string")
  reject (presentAndNotHex body "enc_ppid" encPpid 768 = true)
    (rejected "enc_ppid is not a valid hex string")
  let manifest := (← optStr body "platform_manifest").getD ""
  if manifest = "" then do
    reject (cpuSvn = "" ∨ pceSvn = "" ∨ encPpid = "")
      (rejected "cpu_svn / pce_svn / enc_ppid are required")
    return ⟨toAsciiUppercase qeId, toAsciiUppercase pceId, toAsciiUppercase cpuSvn,
      toAsciiUppercase pceSvn, toAsciiUppercase encPpid, ""⟩
  else
    return ⟨toAsciiUppercase qeId, toAsciiUppercase pceId, "", "", "", manifest⟩

section CrlUri

def stripPrefix (word text : List Char) : Option (List Char) :=
  if word.isPrefixOf text then some (text.drop word.length) else none

def stripSuffix (word text : List Char) : Option (List Char) :=
  if word.isSuffixOf text then some (text.take (text.length - word.length)) else none

/-- The text before and after the first occurrence of a character. -/
def splitOnce (c : Char) (text : List Char) : Option (List Char × List Char) :=
  match text.span (· ≠ c) with
  | (_, []) => none
  | (before, _ :: after) => some (before, after)

def hostLabelChar (c : Char) : Bool :=
  ('a' ≤ c && c ≤ 'z') || ('A' ≤ c && c ≤ 'Z') || ('0' ≤ c && c ≤ '9') || c == '-'

def isRootCrlUri (uri : String) : Bool :=
  ((stripPrefix "https://".toList uri.toList).bind (splitOnce '/')).any fun (host, path) =>
    (host == "certprx.adsdcsp.com".toList ||
      (stripSuffix "certificates.trustedservices.intel.com".toList host).any (·.all hostLabelChar)) &&
    (stripPrefix "IntelSGXRootCA.".toList path).any (· ≠ [])

def isIntermediateHost (host : List Char) : Bool :=
  if host == "api.trustedservices.intel.com".toList ||
      ".api.trustedservices.intel.com".toList.isSuffixOf host then
    let front := (stripSuffix "api.trustedservices.intel.com".toList host).getD []
    ((stripSuffix ['.'] front).getD front).all hostLabelChar
  else
    match stripSuffix ".az.sgxprod.adsdcsp.com".toList host with
    | some left => left ≠ [] && left.all hostLabelChar
    | none =>
      match stripSuffix ".az.sgxnp.adsdcsp.com".toList host with
      | some left => left ≠ [] && left.all hostLabelChar
      | none => false

def isIntermediateCrlUri (uri : String) : Bool :=
  ((stripPrefix "https://".toList uri.toList).bind (splitOnce '/')).any fun (host, pathQ) =>
    isIntermediateHost host &&
    (splitOnce '?' pathQ).any fun (path, query) =>
      query ≠ [] &&
      ((stripPrefix "sgx/certification/v".toList path).bind (splitOnce '/')).any fun (ver, tail) =>
        tail == "pckcrl".toList && ver ≠ [] && ver.head? ≠ some '0' &&
          ver.all fun c => '0' ≤ c && c ≤ '9'

def isValidCrlUri (uri : String) : Bool :=
  uri ≠ "" && byteLen uri ≤ 2048 && (isRootCrlUri uri || isIntermediateCrlUri uri)

end CrlUri

section Collateral

/-- An optional hex member: empty counts as absent. -/
def checkHexMember (where_ : String) (p : Value) (member : String × Nat) :
    Except PccsError Unit := do
  match ← optStr p member.1 with
  | none => .ok ()
  | some v =>
    reject (isHexOrEmpty v member.2 = false)
      (rejected (where_ ++ "." ++ member.1 ++ " is not valid hex"))

def checkPlatform (p : Value) : Except PccsError Unit := do
  reject (p.isObject = false) (rejected "platforms[] entry must be an object")
  let qeId ← reqStr p "qe_id"
  reject (qeIdOutOfRange qeId = true) (rejected "platforms[].qe_id length out of range")
  let pceId ← reqStr p "pce_id"
  reject (isHex pceId 4 = false) (rejected "platforms[].pce_id is not valid hex")
  [("cpu_svn", 32), ("pce_svn", 4), ("enc_ppid", 768)].forM (checkHexMember "platforms[]" p)
  let _ ← optStr p "platform_manifest"
  return ()

def checkCert (c : Value) : Except PccsError Unit := do
  reject (c.isObject = false) (rejected "certs[] entry must be an object")
  reject (((c.get "tcb").map Value.isObject).getD false = false)
    (rejected "certs[].tcb is required")
  let tcbm ← reqStr c "tcbm"
  reject (isHex tcbm 36 = false) (rejected "certs[].tcbm must be 36 hex characters")
  let cert ← reqStr c "cert"
  reject (cert = "") (rejected "certs[].cert must not be empty")

/-- The schema has no minimum: an empty list of certificates passes here. -/
def checkPckCerts (pc : Value) : Except PccsError Unit := do
  reject (pc.isObject = false) (rejected "pck_certs[] entry must be an object")
  let qeId ← reqStr pc "qe_id"
  reject (qeIdOutOfRange qeId = true) (rejected "pck_certs[].qe_id length out of range")
  let pceId ← reqStr pc "pce_id"
  reject (isHex pceId 4 = false) (rejected "pck_certs[].pce_id is not valid hex")
  let encPpid ← reqStr pc "enc_ppid"
  reject (isHexOrEmpty encPpid 768 = false) (rejected "pck_certs[].enc_ppid is not valid hex")
  let _ ← optStr pc "platform_manifest"
  let certs ← require ((pc.get "certs").bind Value.asArray)
    (rejected "pck_certs[].certs is required")
  certs.forM checkCert

def checkTcbField (t : Value) (field : String) : Except PccsError Unit :=
  match t.get field with
  | none => .ok ()
  | some info => do
    reject (info.isObject = false) (rejected ("tcbinfos[]." ++ field ++ " must be an object"))
    reject (((info.get "tcbInfo").map Value.isObject).getD false = false)
      (rejected ("tcbinfos[]." ++ field ++ ".tcbInfo is required"))
    let _ ← reqStr info "signature"
    return ()

/-- Only the members the schema defines; the early variants are not checked. -/
def checkTcbInfos (version : Nat) (t : Value) : Except PccsError Unit := do
  reject (t.isObject = false) (rejected "tcbinfos[] entry must be an object")
  let _ ← reqStr t "fmspc"
  (if version < 4 then ["tcbinfo"] else ["sgx_tcbinfo", "tdx_tcbinfo"]).forM (checkTcbField t)

def checkPckCaCrl (collaterals : Value) : Except PccsError Unit :=
  match collaterals.get "pckcacrl" with
  | none => .ok ()
  | some crl => do
    reject (crl.isObject = false) (rejected "pckcacrl must be an object")
    ["processorCrl", "platformCrl"].forM fun key => (optStr crl key).map fun _ => ()

def checkCertificates (collaterals : Value) : Except PccsError Unit := do
  let certificates ← require ((collaterals.get "certificates").filter Value.isObject)
    (rejected "collaterals.certificates is required")
  let issuerChains ← require
    ((certificates.get "SGX-PCK-Certificate-Issuer-Chain").filter Value.isObject)
    (rejected "SGX-PCK-Certificate-Issuer-Chain is required")
  ["PROCESSOR", "PLATFORM"].forM fun ca => (optStr issuerChains ca).map fun _ => ()
  ["SGX-TCB-Info-Issuer-Chain", "TCB-Info-Issuer-Chain", "SGX-Enclave-Identity-Issuer-Chain"].forM
    fun key => (optStr certificates key).map fun _ => ()

/-- The body schema of `PUT /platformcollateral`. -/
def platformCollateral (body : Value) (version : Nat) : Except PccsError Unit := do
  reject (body.isObject = false) (rejected "collateral body must be an object")
  let platforms ← require ((body.get "platforms").bind Value.asArray)
    (rejected "platforms is required")
  platforms.forM checkPlatform
  let collaterals ← require ((body.get "collaterals").filter Value.isObject)
    (rejected "collaterals is required")
  reject (version ≥ 4 ∧ (collaterals.get "version").bind Value.asU64 ≠ some 4)
    (rejected "collaterals.version must be 4")
  let pckCerts ← require ((collaterals.get "pck_certs").bind Value.asArray)
    (rejected "collaterals.pck_certs is required")
  pckCerts.forM checkPckCerts
  let tcbinfos ← require ((collaterals.get "tcbinfos").bind Value.asArray)
    (rejected "collaterals.tcbinfos is required")
  tcbinfos.forM (checkTcbInfos version)
  checkPckCaCrl collaterals
  let _ ← optStr collaterals "rootcacrl"
  let _ ← optStr collaterals "rootcacrl_cdp"
  checkCertificates collaterals

end Collateral

section Facts

theorem noSlash_of_isHex {s : String} {n : Nat} (h : isHex s n = true) : NoSlash s := by
  intro hm
  have hall := (Bool.and_eq_true_iff.mp h).2
  have := List.all_eq_true.mp hall _ (mem_asBytes_of_ascii (by decide) hm)
  exact absurd this (by decide)

theorem noSlash_of_isHexOrEmpty {s : String} {n : Nat} (h : isHexOrEmpty s n = true) :
    NoSlash s := by
  simp only [isHexOrEmpty, Bool.or_eq_true, beq_iff_eq] at h
  obtain rfl | h := h
  · simp [NoSlash]
  · exact noSlash_of_isHex h

theorem isHex_uppercase (s : String) (n : Nat) : isHex (toAsciiUppercase s) n = isHex s n := by
  unfold isHex
  rw [Selection.byteLen_uppercase, asBytes_uppercase, List.all_map]
  simp only [Function.comp_def, Selection.hexValue_upperByte]

theorem requireHex_eq_ok {value : Option String} {field out : String} {n : Nat}
    (h : requireHex value field n = .ok out) : isHex out n = true ∧ IsUpper out := by
  obtain ⟨v, _, h⟩ := bind_eq_ok.mp h
  obtain ⟨_, hhex, h⟩ := bind_eq_ok.mp h
  cases pure_eq_ok.mp h
  exact ⟨by simpa [isHex_uppercase] using reject_eq_ok.mp hhex, isUpper_uppercase _⟩

/-- The identity of an accepted GET request, QE id apart, is hex text. -/
theorem pckcertQuery_hex {params : String → Option String} {q : PckcertQuery}
    (h : pckcertQuery params = .ok q) :
    isHex q.cpusvn 32 = true ∧ isHex q.pcesvn 4 = true ∧ isHex q.pceid 4 = true := by
  obtain ⟨qeid, _, h⟩ := bind_eq_ok.mp h
  obtain ⟨cpusvn, hcpu, h⟩ := bind_eq_ok.mp h
  obtain ⟨pcesvn, hsvn, h⟩ := bind_eq_ok.mp h
  obtain ⟨pceid, hpce, h⟩ := bind_eq_ok.mp h
  obtain ⟨enc, _, h⟩ := bind_eq_ok.mp h
  cases pure_eq_ok.mp h
  exact ⟨(requireHex_eq_ok hcpu).1, (requireHex_eq_ok hsvn).1, (requireHex_eq_ok hpce).1⟩

theorem optStr_eq_some {v : Value} {key s : String} (h : optStr v key = .ok (some s)) :
    v.get key = some (.string s) := by
  unfold optStr at h
  split at h
  · cases h
  · cases h
  · rename_i hs
    cases h
    exact hs
  · cases h

/-- A member that is given and passes the check is hex. -/
theorem isHex_of_present {body : Value} {key : String} {o : Option String} {n : Nat}
    (ho : optStr body key = .ok o) (hne : o.getD "" ≠ "")
    (h : ¬ presentAndNotHex body key (o.getD "") n = true) : isHex (o.getD "") n = true := by
  cases o with
  | none => exact absurd rfl hne
  | some s => simpa [presentAndNotHex, optStr_eq_some ho] using h

/-- So is that of an accepted registration; a manifest leaves the level open. -/
theorem platformReg_hex {body : Value} {p : PlatformReg} (h : platformReg body = .ok p) :
    isHex p.pceId 4 = true ∧ isHexOrEmpty p.cpuSvn 32 = true ∧ isHexOrEmpty p.pceSvn 4 = true := by
  obtain ⟨_, _, h⟩ := bind_eq_ok.mp h
  obtain ⟨qeId, _, h⟩ := bind_eq_ok.mp h
  obtain ⟨_, _, h⟩ := bind_eq_ok.mp h
  obtain ⟨pceId, _, h⟩ := bind_eq_ok.mp h
  obtain ⟨_, hpce, h⟩ := bind_eq_ok.mp h
  obtain ⟨cpuSvn, hcpu, h⟩ := bind_eq_ok.mp h
  obtain ⟨pceSvn, hsvn, h⟩ := bind_eq_ok.mp h
  obtain ⟨encPpid, _, h⟩ := bind_eq_ok.mp h
  obtain ⟨_, hcpuHex, h⟩ := bind_eq_ok.mp h
  obtain ⟨_, hsvnHex, h⟩ := bind_eq_ok.mp h
  obtain ⟨_, _, h⟩ := bind_eq_ok.mp h
  obtain ⟨manifest, _, h⟩ := bind_eq_ok.mp h
  have hpce : isHex (toAsciiUppercase pceId) 4 = true := by
    simpa [isHex_uppercase] using reject_eq_ok.mp hpce
  simp only at h
  split at h
  · obtain ⟨_, hgiven, h⟩ := bind_eq_ok.mp h
    cases pure_eq_ok.mp h
    have hgiven := reject_eq_ok.mp hgiven
    simp only [not_or] at hgiven
    have hc := isHex_of_present hcpu hgiven.1 (reject_eq_ok.mp hcpuHex)
    have hs := isHex_of_present hsvn hgiven.2.1 (reject_eq_ok.mp hsvnHex)
    exact ⟨hpce, by simp [isHexOrEmpty, isHex_uppercase, hc],
      by simp [isHexOrEmpty, isHex_uppercase, hs]⟩
  · cases pure_eq_ok.mp h
    exact ⟨hpce, rfl, rfl⟩

theorem reqStr_eq_ok {v : Value} {key s : String} (h : reqStr v key = .ok s) :
    v.get key = some (.string s) := by
  obtain ⟨o, ho, h⟩ := bind_eq_ok.mp h
  rw [require_eq_ok.mp h] at ho
  exact optStr_eq_some ho

/-- The schema of a `pck_certs` entry names its platform in hex. -/
theorem checkPckCerts_pceId {pc : Value} (h : checkPckCerts pc = .ok ()) :
    ∃ pceId, pc.get "pce_id" = some (.string pceId) ∧ isHex pceId 4 = true := by
  obtain ⟨_, _, h⟩ := bind_eq_ok.mp h
  obtain ⟨_, _, h⟩ := bind_eq_ok.mp h
  obtain ⟨_, _, h⟩ := bind_eq_ok.mp h
  obtain ⟨pceId, hpce, h⟩ := bind_eq_ok.mp h
  obtain ⟨_, hhex, _⟩ := bind_eq_ok.mp h
  exact ⟨pceId, reqStr_eq_ok hpce, by simpa using reject_eq_ok.mp hhex⟩

/-- The `pck_certs` array of an accepted body has only checked entries. -/
theorem platformCollateral_pckCerts {body : Value} {version : Nat}
    (h : platformCollateral body version = .ok ()) :
    ∃ collaterals pckCerts, body.get "collaterals" = some collaterals ∧
      (collaterals.get "pck_certs").bind Value.asArray = some pckCerts ∧
      ∀ pc ∈ pckCerts, checkPckCerts pc = .ok () := by
  obtain ⟨_, _, h⟩ := bind_eq_ok.mp h
  obtain ⟨_, _, h⟩ := bind_eq_ok.mp h
  obtain ⟨_, _, h⟩ := bind_eq_ok.mp h
  obtain ⟨collaterals, hcol, h⟩ := bind_eq_ok.mp h
  obtain ⟨_, _, h⟩ := bind_eq_ok.mp h
  obtain ⟨pckCerts, hpck, h⟩ := bind_eq_ok.mp h
  obtain ⟨_, hall, _⟩ := bind_eq_ok.mp h
  refine ⟨collaterals, pckCerts, ?_, require_eq_ok.mp hpck, forM_eq_ok.mp hall⟩
  exact (Option.filter_eq_some_iff.mp (require_eq_ok.mp hcol)).1

end Facts

end Pccs.Validate
