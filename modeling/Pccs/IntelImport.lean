import Pccs.CoherentWriters

/-!
# Import of an Intel PCCS snapshot

The rows of an Intel database are converted table by table into the records of
a fresh store. Every identifier is checked and put into canonical case, every
join must find its partner, and no two rows may land on one key.
-/
namespace Pccs.IntelImport

open Text Encoding Json Fallible Store

inductive SqlValue where
  | null : SqlValue
  | integer : Int → SqlValue
  | real : String → SqlValue
  | text : String → SqlValue
  | blob : List UInt8 → SqlValue

structure SqlRow where
  table : String
  fields : List (String × SqlValue)

namespace SqlRow

variable (row : SqlRow)

def fail (column message : String) : String := row.table ++ "." ++ column ++ ": " ++ message

def value (column : String) : Except String SqlValue :=
  require (row.fields.lookup column) (row.fail column "missing column")

def text (column : String) : Except String String := do
  match ← row.value column with
  | .text s => return s
  | .blob b => require (Cache.fromUtf8 b) (row.fail column "invalid UTF-8")
  | _ => throw (row.fail column "expected text/UTF-8 BLOB")

def nullableText (column : String) : Except String String := do
  match ← row.value column with
  | .null => return ""
  | _ => row.text column

def blob (column : String) : Except String (List UInt8) := do
  match ← row.value column with
  | .null => return []
  | .blob b => return b
  | .text "" => return []
  | _ => throw (row.fail column "expected binary BLOB or NULL")

def int (column : String) : Except String Int := do
  match ← row.value column with
  | .integer i => return i
  | _ => throw (row.fail column "expected integer")

def hexField (field : String) (length : Nat) : Except String String := do
  let text ← row.text field
  reject (Validate.isHex text length = false) (row.fail field "invalid hex identifier")
  return toAsciiUppercase text

def version : Except String Nat := do
  let n ← row.int "version"
  reject (n ≠ 3 ∧ n ≠ 4) (row.table ++ ": unsupported API version")
  return n.toNat

def update : Except String String := do
  let s ← row.text "update_type"
  reject (s ≠ "STANDARD" ∧ s ≠ "EARLY") (row.table ++ ": unsupported update_type")
  return s

def qeid : Except String String := do
  let id ← row.text "qe_id"
  reject (id = "" ∨ byteLen id > 260 ∨ Validate.isHex id (byteLen id) = false)
    (row.fail "qe_id" "invalid hex identifier")
  return toAsciiUppercase id

def platformKey : Except String (String × String) := do
  let qeId ← row.qeid
  let pceId ← row.hexField "pce_id" 4
  return (qeId, pceId)

def ca : Except String String := do
  let ca := toAsciiUppercase (← row.text "ca")
  reject (ca ≠ "PLATFORM" ∧ ca ≠ "PROCESSOR") (row.fail "ca" "unsupported CA")
  return ca

/-- A platform without a CA yet has an empty one. -/
def nullableCa : Except String String := do
  let text ← row.nullableText "ca"
  if text = "" then return "" else row.ca

def credentials : Except String (String × String) := do
  let ppid ← row.blob "enc_ppid"
  reject (ppid ≠ [] ∧ ppid.length ≠ 384)
    (row.fail "enc_ppid" "expected 384-byte encrypted PPID")
  let manifest ← row.blob "platform_manifest"
  return (hexEncodeUpper ppid, hexEncodeUpper manifest)

end SqlRow

/-- The tables of a snapshot by name. -/
abbrev Tables : Type := String → List SqlRow

/-- A row of the destination; two source rows must not share one. -/
def add (db : Database) (key : List UInt8) (row : Row) : Except String Database :=
  if db[key]?.isSome then
    .error ("duplicate canonical destination key: " ++ fromUtf8Lossy key)
  else .ok (db.insert key row)

abbrev Certificates : Type := List (Int × String)

def expectedIssuer (row : SqlRow) (issuer : String) : Except String Int :=
  if issuer = "signing_cert_id" then .ok 3
  else row.ca.map fun ca => if ca = "PROCESSOR" then 2 else 4

/-- Signing or intermediate certificate followed by the root. -/
def chain (certificates : Certificates) (row : SqlRow) (issuer : String) :
    Except String String := do
  let root ← row.int "root_cert_id"
  reject (root ≠ 1) (row.fail "root_cert_id" "expected Intel root id=1")
  let expected ← expectedIssuer row issuer
  let id ← row.int issuer
  reject (id ≠ expected) (row.fail issuer "inconsistent issuer pointer")
  let rootCert ← require (certificates.lookup root)
    (row.table ++ ": missing root certificate join")
  let signing ← require (certificates.lookup id)
    (row.table ++ ": missing issuer certificate join")
  return signing ++ rootCert

def addCertificate (certificates : Certificates) (row : SqlRow) : Except String Certificates := do
  let id ← row.int "id"
  reject (id < 1 ∨ id > 4) "unsupported pcs_certificates id"
  let cert ← row.text "cert"
  reject (cert = "" ∨ (cert.toList.any fun c => c == '\r' || c == '\n') = true ∨
      "-----BEGIN%20CERTIFICATE-----".toList.isPrefixOf cert.toList = false ∨
      PckCert.containsText "-----END%20CERTIFICATE-----" cert.toList = false)
    "pcs_certificates.cert: expected URL-encoded PEM"
  reject ((certificates.lookup id).isSome = true) "pcs_certificates: duplicate id"
  return certificates ++ [(id, cert)]

section Tables

variable (env : Env)

def signedDocument (rawBody field : String) : Except String Value := do
  let document ← require (env.fromSlice (asBytes rawBody)) (field ++ ": invalid JSON")
  reject (((document.get "signature").bind Value.asStr).all (· = "") = true)
    (field ++ ": missing signature")
  return document

def convertTcb (certificates : Certificates) (db : Database) (row : SqlRow) :
    Except String Database := do
  let rawBody ← row.text "tcbinfo"
  let tcbinfo ← signedDocument env rawBody "fmspc_tcbs.tcbinfo"
  let type ← row.int "type"
  reject (type ≠ 0 ∧ type ≠ 1) "fmspc_tcbs: unsupported type"
  let fmspc ← row.hexField "fmspc" 12
  let version ← row.version
  let info ← require (tcbinfo.get "tcbInfo") "fmspc_tcbs: missing tcbInfo"
  let expectedId := if type = 0 then "SGX" else "TDX"
  -- version 3 SGX documents predate the product discriminator
  reject (((info.get "fmspc").bind Value.asStr).map toAsciiUppercase ≠ some fmspc ∨
      ((info.get "id").bind Value.asStr ≠ some expectedId ∧
        ¬ (version = 3 ∧ type = 0 ∧ (info.get "id").isNone = true)))
    "fmspc_tcbs: document identity does not match row"
  let updateType ← row.update
  let issuerChain ← chain certificates row "signing_cert_id"
  let record : TcbRecord :=
    { prodType := type.toNat, fmspc, version, updateType, tcbinfo, rawBody, issuerChain }
  add db (Keys.tcb env (Keys.prodName record.prodType) record.version record.fmspc
    record.updateType) (.tcb record)

def addChain (certificates : Certificates) (chains : List (String × String)) (row : SqlRow) :
    Except String (List (String × String)) := do
  let ca ← row.ca
  let c ← chain certificates row "intmd_cert_id"
  reject ((chains.lookup ca).isSome = true) "pck_certchain: duplicate canonical CA"
  return chains ++ [(ca, c)]

def isPool (qeId pceId : String) (pool : PlatformPool) : Bool :=
  pool.qeId == qeId && pool.pceId == pceId

/-- Change the pool of a platform; it must exist. -/
def withPool (pools : List PlatformPool) (key : String × String) (missing : String)
    (f : PlatformPool → Except String PlatformPool) : Except String (List PlatformPool) := do
  let pool ← require (pools.find? (isPool key.1 key.2)) missing
  let pool' ← f pool
  return pools.map fun p => if isPool key.1 key.2 p then pool' else p

def addPlatform (chains : List (String × String)) (pools : List PlatformPool) (row : SqlRow) :
    Except String (List PlatformPool) := do
  let (qeId, pceId) ← row.platformKey
  let (encPpid, platformManifest) ← row.credentials
  let fmspc := toAsciiUppercase (← row.nullableText "fmspc")
  reject (fmspc ≠ "" ∧ Validate.isHex fmspc 12 = false) "platforms.fmspc: invalid hex identifier"
  let ca ← row.nullableCa
  let pool : PlatformPool :=
    { qeId, pceId, encPpid, platformManifest, fmspc, ca, issuerChain := (chains.lookup ca).getD "" }
  reject ((pools.any (isPool qeId pceId)) = true) "platforms: duplicate canonical platform"
  return pools ++ [pool]

/-- A certificate joins the pool of its platform if it is of that platform and
its tcbm. -/
def addPckCert (state : List PlatformPool × List ((String × String) × String)) (row : SqlRow) :
    Except String (List PlatformPool × List ((String × String) × String)) := do
  let key ← row.platformKey
  let pool ← require (state.1.find? (isPool key.1 key.2)) "pck_cert: missing platform join"
  let tcbm ← row.hexField "tcbm" 36
  let cert ← row.text "pck_cert"
  let parsed ← (PckCert.parsePckCert cert).mapError fun _ => "pck_cert: invalid SGX PCK certificate"
  let cpusvn := String.ofList (tcbm.toList.take 32)
  let pcesvn ← require (Selection.littleEndianHexToInt (String.ofList (tcbm.toList.drop 32)))
    "pck_cert: invalid TCBm"
  reject (parsed.version ≠ 3 ∨ parsed.pceId ≠ pool.pceId ∨ parsed.fmspc ≠ pool.fmspc ∨
      parsed.ca ≠ pool.ca ∨ parsed.cpusvn ≠ cpusvn ∨ parsed.pcesvn ≠ pcesvn)
    "pck_cert: certificate metadata/TCBm does not match platform row"
  reject (pool.issuerChain = "") "pck_cert: missing issuer chain join"
  reject ((state.2.lookup key).any (· ≠ parsed.ppid) = true)
    "pck_cert: mixed PPIDs in a platform pool"
  let pools ← withPool state.1 key "pck_cert: missing platform join" fun pool => do
    reject ((pool.certs.any fun c => c.tcbm == tcbm) = true) "pck_cert: duplicate canonical TCBm"
    return { pool with certs := pool.certs ++ [⟨tcbm, cert⟩] }
  return (pools, (key, parsed.ppid) :: state.2)

/-- The record of a raw level that the snapshot maps to a certificate. -/
def levelRecord (pool : PlatformPool) (cpuSvn pceSvn : String) (cert : PlatformCert) :
    PckCertRecord :=
  { qeid := pool.qeId
    pceid := pool.pceId
    cpusvn := cpuSvn
    pcesvn := pceSvn
    cert := cert.cert
    tcbm := cert.tcbm
    fmspc := pool.fmspc
    ca := pool.ca
    issuerChain := pool.issuerChain
    encryptedPpid := pool.storedPpid
    platformManifest := pool.platformManifest }

def addPlatformTcb (state : List PlatformPool × Database) (row : SqlRow) :
    Except String (List PlatformPool × Database) := do
  let key ← row.platformKey
  let pool ← require (state.1.find? (isPool key.1 key.2)) "platform_tcbs: missing platform join"
  let cpuSvn ← row.hexField "cpu_svn" 32
  let pceSvn ← row.hexField "pce_svn" 4
  let tcbm ← row.hexField "tcbm" 36
  let cert ← require (pool.certs.find? (·.tcbm = tcbm))
    "platform_tcbs: missing PCK certificate join"
  reject ((pool.rawTcbs.any fun r => r.cpuSvn == cpuSvn && r.pceSvn == pceSvn) = true)
    "platform_tcbs: duplicate canonical raw TCB"
  let record := levelRecord pool cpuSvn pceSvn cert
  let db ← add state.2 (Keys.pckcert env record.qeid record.pceid record.cpusvn record.pcesvn)
    (.pckcert record)
  let pools ← withPool state.1 key "platform_tcbs: missing platform join" fun pool =>
    .ok { pool with rawTcbs := pool.rawTcbs ++ [⟨cpuSvn, pceSvn, tcbm⟩] }
  return (pools, db)

def addPool (db : Database) (pool : PlatformPool) : Except String Database :=
  add db (Keys.platform env pool.qeId pool.pceId) (.platform pool)

def convertPlatforms (tables : Tables) (certificates : Certificates) (db : Database) :
    Except String Database := do
  let chains ← (tables "pck_certchain").foldlM (addChain certificates) []
  let pools ← (tables "platforms").foldlM (addPlatform chains) []
  let (pools, _) ← (tables "pck_cert").foldlM addPckCert (pools, [])
  let (pools, db) ← (tables "platform_tcbs").foldlM (addPlatformTcb env) (pools, db)
  pools.foldlM (addPool env) db

def derCrl (bytes : List UInt8) (table : String) : Except String (List UInt8) := do
  reject (env.isDerCrl bytes = false) (table ++ ": invalid DER CRL")
  return bytes

def convertIdentity (certificates : Certificates) (db : Database) (row : SqlRow) :
    Except String Database := do
  let id ← row.int "id"
  reject (id < 1 ∨ id > 3) "enclave_identities: unsupported id"
  let rawBody ← row.text "identity"
  let identity ← signedDocument env rawBody "enclave_identities.identity"
  let expected := if id = 1 then "QE" else if id = 2 then "QVE" else "TD_QE"
  reject ((identity.pointer ["enclaveIdentity", "id"]).bind Value.asStr ≠ some expected)
    "enclave_identities: document identity does not match row"
  let version ← row.version
  let updateType ← row.update
  let issuerChain ← chain certificates row "signing_cert_id"
  let record : IdentityRecord :=
    { enclaveId := id.toNat, version, updateType, identity, rawBody, issuerChain }
  add db (Keys.identity env (Keys.identityName record.enclaveId) record.version record.updateType)
    (.identity record)

def convertRootCrl (db : Database) (row : SqlRow) : Except String Database := do
  let crl ← row.blob "crl"
  if crl = [] then return db
  else do
    let id ← row.int "id"
    reject (id ≠ 1) "pcs_certificates: unsupported non-root CRL"
    let crl ← derCrl env crl "pcs_certificates.crl"
    (add db Keys.rootcacrl (.rootcacrl crl)).mapError fun _ => "duplicate root CA CRL"

def convertPckCrl (certificates : Certificates) (db : Database) (row : SqlRow) :
    Except String Database := do
  let ca ← row.ca
  let pckcrl ← derCrl env (← row.blob "pck_crl") "pck_crl"
  let issuerChain ← chain certificates row "intmd_cert_id"
  add db (Keys.pckcrl env ca) (.pckcrl ⟨ca, pckcrl, issuerChain⟩)

def convertCrl (db : Database) (row : SqlRow) : Except String Database := do
  let uri ← row.text "cdp_url"
  reject (Validate.isValidCrlUri uri = false) "crl_cache: unsupported CDP URI"
  let crl ← derCrl env (← row.blob "crl") "crl_cache"
  add db (Keys.crl env uri) (.crl ⟨uri, crl⟩)

def convertCollateral (tables : Tables) (certificates : Certificates) (db : Database) :
    Except String Database := do
  let db ← (tables "enclave_identities").foldlM (convertIdentity env certificates) db
  let db ← (tables "pcs_certificates").foldlM (convertRootCrl env) db
  let db ← (tables "pck_crl").foldlM (convertPckCrl env certificates) db
  (tables "crl_cache").foldlM (convertCrl env) db

/-- A decimal PCESVN of a row that was reported as not available. -/
def decimalSvn (state : Int) (pceSvn : String) : Bool :=
  (state == 1 || state == 9) && pceSvn ≠ "" &&
    pceSvn.toList.all (fun c => '0' ≤ c && c ≤ '9') &&
    pceSvn.toList.foldl (fun n c => n * 10 + (c.toNat - 48)) 0 < 65536

def convertRegistered (db : Database) (row : SqlRow) : Except String Database := do
  let (qeId, pceId) ← row.platformKey
  let (encPpid, platformManifest) ← row.credentials
  let state ← row.int "state"
  reject (state ≠ 0 ∧ state ≠ 1 ∧ state ≠ 9) "platforms_registered: unsupported state"
  let cpuSvn := toAsciiUppercase (← row.text "cpu_svn")
  let pceSvn := toAsciiUppercase (← row.text "pce_svn")
  reject (cpuSvn ≠ "" ∧ Validate.isHex cpuSvn 32 = false)
    "platforms_registered.cpu_svn: invalid raw SVN"
  reject (pceSvn ≠ "" ∧ Validate.isHex pceSvn 4 = false ∧ decimalSvn state pceSvn = false)
    "platforms_registered.pce_svn: invalid raw SVN"
  let record : RegisteredPlatform :=
    { qeId, pceId, cpuSvn, pceSvn, encPpid, platformManifest, state := state.toNat }
  add db (Keys.preg env record.qeId record.pceId record.cpuSvn record.pceSvn) (.registered record)

def addPolicy (policies : List AppraisalPolicy) (row : SqlRow) :
    Except String (List AppraisalPolicy) := do
  let policy ← row.text "policy"
  let id := toAsciiLowercase (← row.hexField "id" 96)
  reject (policy = "" ∨ id ≠ env.sha384Hex policy) "appraisal_policies: policy hash mismatch"
  let type ← row.int "type"
  reject (type < 0 ∨ type > 2) "appraisal_policies: unsupported type"
  let isDefault ← row.int "is_default"
  reject (isDefault ≠ 0 ∧ isDefault ≠ 1) "appraisal_policies: unsupported is_default"
  let fmspc ← row.hexField "fmspc" 12
  reject ((policies.any fun p => p.fmspc == fmspc && p.id == id) = true)
    "appraisal_policies: duplicate canonical policy"
  return policies ++ [⟨id, fmspc, isDefault = 1, policy, type.toNat⟩]

def convertQueueAndPolicies (tables : Tables) (db : Database) : Except String Database := do
  let db ← (tables "platforms_registered").foldlM (convertRegistered env) db
  let policies ← (tables "appraisal_policies").foldlM (addPolicy env) []
  (policies.map AppraisalPolicy.fmspc).eraseDups.foldlM (fun db fmspc =>
    add db (Keys.appraisal env fmspc) (.appraisal (policies.filter (·.fmspc = fmspc)))) db

/-- The store an accepted snapshot becomes. -/
def convert (tables : Tables) : Except String Database := do
  let certificates ← (tables "pcs_certificates").foldlM addCertificate []
  let db ← (tables "fmspc_tcbs").foldlM (convertTcb env certificates) ∅
  let db ← convertPlatforms env tables certificates db
  let db ← convertCollateral env tables certificates db
  convertQueueAndPolicies env tables db

end Tables

end Pccs.IntelImport
