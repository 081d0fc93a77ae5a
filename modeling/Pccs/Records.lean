import Pccs.Json
import Pccs.KeyValue

/-!
# Stored records

One row per cacheable answer. A row stands for the JSON text of its record: the
writers serialise the record whole, and every kind of row has its own key
prefix, so reading a row back gives the record that was written.
-/
namespace Pccs

open Text Json

/-- What the process takes from libraries: the 128-bit key digest as 32 hex
digits, the JSON reader and writer, the reader of unpadded URL-safe base64, the
SHA digests as hex and the DER reader of a CRL. -/
structure Env where
  hash128Hex : List UInt8 → String
  fromSlice : List UInt8 → Option Value
  rawJson : Value → String
  urlSafeNoPad : List UInt8 → Option (List UInt8)
  sha384Hex : String → String
  sha256Hex : List UInt8 → String
  isDerCrl : List UInt8 → Bool

structure PccsError where
  status : Nat
  message : String
deriving DecidableEq, Repr

namespace PccsError

def invalidReq : PccsError := ⟨400, "Invalid request parameters."⟩
def noCacheData : PccsError := ⟨404, "No cache data for this platform."⟩
def platformUnknown : PccsError := ⟨461, "The platform was not found in the cache."⟩
def pcsV3ReachedEol : PccsError := ⟨410,
  "The Intel PCS API version 3 reached planned EOL. Accordingly, collateral from this API version cannot be retrieved any longer."⟩
def internalError : PccsError := ⟨500, "Internal server error occurred."⟩
def pcsAccessFailure : PccsError := ⟨502, "Unable to retrieve the collateral from the Intel SGX PCS."⟩
def serviceUnavailable : PccsError := ⟨503, "Server is currently unable to process the request."⟩

end PccsError

inductive CacheMode where
  | lazy | req | offline
deriving DecidableEq, Repr

inductive UpdateType where
  | standard | early | all
deriving DecidableEq, Repr

def UpdateType.asStr : UpdateType → String
  | .standard => "STANDARD"
  | .early => "EARLY"
  | .all => "ALL"

structure PckCertRecord where
  qeid : String
  pceid : String
  cpusvn : String
  pcesvn : String
  cert : String
  tcbm : String
  fmspc : String
  ca : String
  issuerChain : String
  encryptedPpid : Option String
  platformManifest : String
deriving DecidableEq, Repr

structure TcbRecord where
  prodType : Nat
  fmspc : String
  version : Nat
  updateType : String
  tcbinfo : Value
  rawBody : String
  issuerChain : String

structure IdentityRecord where
  enclaveId : Nat
  version : Nat
  updateType : String
  identity : Value
  rawBody : String
  issuerChain : String

structure PckCrlRecord where
  ca : String
  pckcrl : List UInt8
  issuerChain : String

structure CrlRecord where
  uri : String
  crl : List UInt8

structure AmdKdsRecord where
  url : String
  body : List UInt8
  contentType : Option String
  contentDisposition : Option String
  fetchedAt : Nat
deriving DecidableEq, Repr

structure NvidiaOcspRecord where
  cacheKey : String
  body : List UInt8
  contentType : Option String
  fetchedAt : Nat
  expiresAt : Nat
deriving DecidableEq, Repr

structure PlatformCert where
  tcbm : String
  cert : String
deriving DecidableEq, Repr

structure RawTcb where
  cpuSvn : String
  pceSvn : String
  tcbm : String
deriving DecidableEq, Repr

/-- Credentials, certificates and known raw levels of one platform. -/
structure PlatformPool where
  qeId : String
  pceId : String
  encPpid : String := ""
  platformManifest : String := ""
  fmspc : String := ""
  ca : String := ""
  issuerChain : String := ""
  certs : List PlatformCert := []
  rawTcbs : List RawTcb := []
deriving DecidableEq, Repr

structure PlatformCredentials where
  encPpid : String
  platformManifest : String
deriving DecidableEq

/-- The guard of a publication. Only an unknown GET may accept a platform that
was created while it was fetching. -/
inductive PlatformPublication where
  | observed : Option PlatformCredentials → PlatformPublication
  | absentGet : String → String → PlatformPublication

structure RegisteredPlatform where
  qeId : String
  pceId : String
  cpuSvn : String
  pceSvn : String
  encPpid : String
  platformManifest : String
  state : Nat
deriving DecidableEq, Repr

structure AppraisalPolicy where
  id : String
  fmspc : String
  isDefault : Bool
  policy : String
  policyType : Nat
deriving DecidableEq, Repr

namespace PlatformPool

def credentials (pool : PlatformPool) : PlatformCredentials :=
  ⟨pool.encPpid, pool.platformManifest⟩

def certPairs (pool : PlatformPool) : List (String × String) :=
  pool.certs.map fun c => (c.tcbm, c.cert)

/-- The PPID as a GET record carries it. -/
def storedPpid (pool : PlatformPool) : Option String :=
  if pool.encPpid = "" then none else some pool.encPpid

end PlatformPool

/-- A row of the database. `word` is a big-endian 64-bit integer, `mark` an
empty value. -/
inductive Row where
  | pckcert : PckCertRecord → Row
  | platform : PlatformPool → Row
  | tcb : TcbRecord → Row
  | identity : IdentityRecord → Row
  | pckcrl : PckCrlRecord → Row
  | rootcacrl : List UInt8 → Row
  | crl : CrlRecord → Row
  | amdKds : AmdKdsRecord → Row
  | nvidiaRim : AmdKdsRecord → Row
  | nvidiaOcsp : NvidiaOcspRecord → Row
  | registered : RegisteredPlatform → Row
  | appraisal : List AppraisalPolicy → Row
  | word : Nat → Row
  | mark : Row

abbrev Database : Type := KeyValue.Db UInt8 Row

abbrev WriteBatch : Type := KeyValue.Batch UInt8 Row

/-- An operation that queues its writes and commits them at its end: a failure
leaves nothing behind. -/
def commit {α : Type} (db : Database) (r : Except PccsError (α × WriteBatch)) :
    Except PccsError α × Database :=
  match r with
  | .ok (a, batch) => (.ok a, KeyValue.write db batch)
  | .error e => (.error e, db)

/-- A commit has failed or has written its batch. -/
theorem commit_cases {α : Type} {db db' : Database} {r : Except PccsError α}
    {out : Except PccsError (α × WriteBatch)} (h : (r, db') = commit db out) :
    (∃ e, out = .error e ∧ r = .error e ∧ db' = db) ∨
      ∃ a batch, out = .ok (a, batch) ∧ r = .ok a ∧ db' = KeyValue.write db batch := by
  cases out with
  | error e =>
    obtain ⟨hr, hdb⟩ := Prod.mk.inj h
    exact .inl ⟨e, rfl, hr, hdb⟩
  | ok result =>
    obtain ⟨hr, hdb⟩ := Prod.mk.inj h
    exact .inr ⟨result.1, result.2, rfl, hr, hdb⟩

end Pccs
