import Pccs.Appraisal
import Pccs.Collateral

/-!
# The seed file

A startup seed is a JSON document with one array per kind. Its items are
written one by one, each after reading what the ones before it have left; an
item that lacks an identifier or does not decode is skipped.
-/
namespace Pccs.Seed

open Text Encoding Json KeyValue Store Collateral

/-- A string member, with the text that stands for a missing one. -/
def strOr (v : Value) (key fallback : String) : String :=
  ((v.get key).bind Value.asStr).getD fallback

/-- `as u32` and `as u8` of an unsigned member: the low bits. -/
def natOr (v : Value) (key : String) (bits fallback : Nat) : Nat :=
  (((v.get key).bind Value.asU64).map UInt64.toNat).getD fallback % 2 ^ bits

section Items

variable (env : Env)

/-- The served record of an item, if all four identifiers are there. -/
def seedRecord (item : Value) : Option PckCertRecord :=
  let qeid := firstUpper item ["qeid", "qe_id"]
  let cpusvn := firstUpper item ["cpusvn", "cpu_svn"]
  let pcesvn := firstUpper item ["pcesvn", "pce_svn"]
  let pceid := firstUpper item ["pceid", "pce_id"]
  if qeid = "" ∨ cpusvn = "" ∨ pcesvn = "" ∨ pceid = "" then none
  else some
    { qeid, pceid, cpusvn, pcesvn
      cert := strOr item "cert" ""
      tcbm := upper item "tcbm"
      fmspc := upper item "fmspc"
      ca := toAsciiUppercase (strOr item "ca" "PROCESSOR")
      issuerChain := strOr item "issuer_chain" ""
      encryptedPpid := (((item.get "encrypted_ppid").or (item.get "enc_ppid")).bind
        Value.asStr).map toAsciiUppercase
      platformManifest := strOr item "platform_manifest" "" }

/-- The pool a seeded record starts if its platform has none. -/
def recordPool (rec : PckCertRecord) : PlatformPool :=
  { qeId := rec.qeid
    pceId := rec.pceid
    encPpid := rec.encryptedPpid.getD ""
    platformManifest := rec.platformManifest
    fmspc := rec.fmspc
    ca := rec.ca
    issuerChain := rec.issuerChain }

/-- A certificate or a level the pool has already stays as it is. -/
def withSeedRecord (pool : PlatformPool) (rec : PckCertRecord) : PlatformPool :=
  { pool with
    certs := if rec.tcbm ≠ "" ∧ ∀ c ∈ pool.certs, c.tcbm ≠ rec.tcbm then
      pool.certs ++ [⟨rec.tcbm, rec.cert⟩] else pool.certs
    rawTcbs := if ∀ r ∈ pool.rawTcbs, ¬ (r.cpuSvn = rec.cpusvn ∧ r.pceSvn = rec.pcesvn) then
      pool.rawTcbs ++ [⟨rec.cpusvn, rec.pcesvn, rec.tcbm⟩] else pool.rawTcbs }

def upsertPckcertFromJson (item : Value) (db : Database) : WriteBatch :=
  match seedRecord item with
  | none => []
  | some rec =>
    let pool := (getPlatformPool env db rec.qeid rec.pceid).getD (recordPool rec)
    [putPlatformPool env (withSeedRecord pool rec), putPckcert env rec]

/-- Fill the blanks of a pool; what a seeded certificate has set wins. -/
def withSeedPlatform (pool : PlatformPool) (item : Value) : PlatformPool :=
  let cpuSvn := firstUpper item ["cpu_svn", "cpusvn"]
  let pceSvn := firstUpper item ["pce_svn", "pcesvn"]
  { pool with
    encPpid := if pool.encPpid = "" then firstUpper item ["enc_ppid", "encrypted_ppid"]
      else pool.encPpid
    platformManifest := if pool.platformManifest = "" then
      toAsciiUppercase (strOr item "platform_manifest" "") else pool.platformManifest
    fmspc := if pool.fmspc = "" then upper item "fmspc" else pool.fmspc
    rawTcbs := if cpuSvn ≠ "" ∧ pceSvn ≠ "" ∧
        ∀ r ∈ pool.rawTcbs, ¬ (r.cpuSvn = cpuSvn ∧ r.pceSvn = pceSvn) then
      pool.rawTcbs ++ [⟨cpuSvn, pceSvn, ""⟩] else pool.rawTcbs }

def upsertSeedPlatform (item : Value) (db : Database) : WriteBatch :=
  let qeId := firstUpper item ["qe_id", "qeid"]
  let pceId := firstUpper item ["pce_id", "pceid"]
  if qeId = "" ∨ pceId = "" then []
  else
    let pool := (getPlatformPool env db qeId pceId).getD { qeId, pceId }
    [putPlatformPool env (withSeedPlatform pool item)]

def upsertTcbFromJson (item : Value) : WriteBatch :=
  let prod := strOr item "prod_type" "sgx"
  let fmspc := upper item "fmspc"
  if fmspc = "" then []
  else [putTcb env
    { prodType := if prod = "tdx" ∨ prod = "TDX" then 1 else 0
      fmspc
      version := natOr item "version" 32 4
      updateType := toAsciiUppercase (strOr item "update_type" "STANDARD")
      tcbinfo := (item.get "tcbinfo").getD .null
      rawBody := ((item.get "tcbinfo").map env.rawJson).getD ""
      issuerChain := strOr item "issuer_chain" "" }]

def upsertIdentityFromJson (item : Value) : WriteBatch :=
  [putIdentity env
    { enclaveId := natOr item "enclave_id" 8 1
      version := natOr item "version" 32 4
      updateType := toAsciiUppercase (strOr item "update_type" "STANDARD")
      identity := (item.get "identity").getD .null
      rawBody := ((item.get "identity").map env.rawJson).getD ""
      issuerChain := strOr item "issuer_chain" "" }]

def seedPckcrl (item : Value) : WriteBatch :=
  (hexDecode (asBytes (strOr item "pckcrl_hex" ""))).toList.map fun bytes => putPckcrl env
    ⟨toAsciiUppercase (strOr item "ca" "PROCESSOR"), bytes, strOr item "issuer_chain" ""⟩

def seedRootcacrl (v : Value) : WriteBatch :=
  (hexMember v "rootcacrl_hex").toList.map putRootcacrl

def seedCrl (item : Value) : WriteBatch :=
  let uri := strOr item "uri" ""
  if uri = "" then []
  else (hexDecode (asBytes (strOr item "crl_hex" ""))).toList.map fun bytes => putCrl env uri bytes

def seedPolicy (item : Value) (db : Database) : WriteBatch :=
  let fmspc := upper item "fmspc"
  let policy := strOr item "policy" ""
  let isDefault := ((item.get "is_default").bind Value.asBool).getD true
  if fmspc ≠ "" ∧ policy ≠ "" then
    [Appraisal.upsertAppraisalPolicyRaw env db fmspc policy isDefault]
  else []

end Items

/-- Certificates before platforms: a platform entry only adds to what its
certificates have established. -/
def seedSteps (env : Env) (v : Value) : List (Database → WriteBatch) :=
  (arrayMember v "pckcerts").map (upsertPckcertFromJson env) ++
  (arrayMember v "platforms").map (upsertSeedPlatform env) ++
  (arrayMember v "tcbinfo").map (fun item _ => upsertTcbFromJson env item) ++
  (arrayMember v "identities").map (fun item _ => upsertIdentityFromJson env item) ++
  (arrayMember v "pckcrls").map (fun item _ => seedPckcrl env item) ++
  [fun _ => seedRootcacrl v] ++
  (arrayMember v "crls").map (fun item _ => seedCrl env item) ++
  (arrayMember v "appraisal_policies").map (seedPolicy env)

/-- Everything a seed writes, in order. -/
def loadSeedValue (env : Env) (v : Value) (db : Database) : WriteBatch :=
  inOrder db (seedSteps env v)

end Pccs.Seed
