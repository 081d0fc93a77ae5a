import Pccs.Fallible
import Pccs.Keys
import Pccs.Selection

/-!
# The record store

Reads go through the row key and check the record they find against the
request. The operations on a platform compute all their writes from one
snapshot, taken under the platform lock, and commit them as one batch.
-/
namespace Pccs.Store

open Text Json Fallible KeyValue PccsError

def rowPckcert : Row → Option PckCertRecord
  | .pckcert rec => some rec
  | _ => none

def rowPlatform : Row → Option PlatformPool
  | .platform pool => some pool
  | _ => none

/-- A record is read back as JSON, and its document is one level below it. -/
def rowTcb : Row → Option TcbRecord
  | .tcb rec => if rec.tcbinfo.depth + 1 < recursionLimit then some rec else none
  | _ => none

def rowRegistered : Row → Option RegisteredPlatform
  | .registered p => some p
  | _ => none

def rowIdentity : Row → Option IdentityRecord
  | .identity rec => if rec.identity.depth + 1 < recursionLimit then some rec else none
  | _ => none

theorem rowTcb_eq_some {row : Row} {rec : TcbRecord} :
    rowTcb row = some rec ↔ row = .tcb rec ∧ rec.tcbinfo.depth + 1 < recursionLimit := by
  cases row with
  | tcb rec' =>
    rw [rowTcb, Option.ite_none_right_eq_some, Option.some.injEq, Row.tcb.injEq]
    exact ⟨fun ⟨hdepth, he⟩ => ⟨he, he ▸ hdepth⟩, fun ⟨he, hdepth⟩ => ⟨he ▸ hdepth, he⟩⟩
  | _ => exact iff_of_false nofun nofun

theorem rowIdentity_eq_some {row : Row} {rec : IdentityRecord} :
    rowIdentity row = some rec ↔ row = .identity rec ∧ rec.identity.depth + 1 < recursionLimit := by
  cases row with
  | identity rec' =>
    rw [rowIdentity, Option.ite_none_right_eq_some, Option.some.injEq, Row.identity.injEq]
    exact ⟨fun ⟨hdepth, he⟩ => ⟨he, he ▸ hdepth⟩, fun ⟨he, hdepth⟩ => ⟨he ▸ hdepth, he⟩⟩
  | _ => exact iff_of_false nofun nofun

def rowPckcrl : Row → Option PckCrlRecord
  | .pckcrl rec => some rec
  | _ => none

def rowRootcacrl : Row → Option (List UInt8)
  | .rootcacrl crl => some crl
  | _ => none

def rowCrl : Row → Option CrlRecord
  | .crl rec => some rec
  | _ => none

/-- `RawTcb` of a served record. -/
def rawOf (rec : PckCertRecord) : RawTcb :=
  ⟨toAsciiUppercase rec.cpusvn, toAsciiUppercase rec.pcesvn, toAsciiUppercase rec.tcbm⟩

def sameLevel (r : RawTcb) (cpusvn pcesvn : String) : Bool :=
  eqIgnoreAsciiCase r.cpuSvn cpusvn && eqIgnoreAsciiCase r.pceSvn pcesvn

/-- Overwrite the first entry of the level, or append one. -/
def upsertRaw (raw : RawTcb) : List RawTcb → List RawTcb
  | [] => [raw]
  | r :: rest =>
    if sameLevel r raw.cpuSvn raw.pceSvn then raw :: rest else r :: upsertRaw raw rest

/-- Overwrite the first certificate of the tcbm, or append one. -/
def upsertCert (cert : PlatformCert) : List PlatformCert → List PlatformCert
  | [] => [cert]
  | c :: rest =>
    if eqIgnoreAsciiCase c.tcbm cert.tcbm then cert :: rest else c :: upsertCert cert rest

section Operations

variable (env : Env) (db : Database)

def getPckcert (qeid cpusvn pcesvn pceid : String) : Option PckCertRecord := do
  let rec ← db[Keys.pckcert env qeid pceid cpusvn pcesvn]?.bind rowPckcert
  if eqIgnoreAsciiCase rec.qeid qeid && eqIgnoreAsciiCase rec.pceid pceid &&
      eqIgnoreAsciiCase rec.cpusvn cpusvn && eqIgnoreAsciiCase rec.pcesvn pcesvn then
    some rec
  else none

def getPlatformPool (qeid pceid : String) : Option PlatformPool := do
  let pool ← db[Keys.platform env qeid pceid]?.bind rowPlatform
  if eqIgnoreAsciiCase pool.qeId qeid && eqIgnoreAsciiCase pool.pceId pceid then some pool
  else none

/-- Existence only: the row is not read. -/
def hasPlatform (qeid pceid : String) : Bool := db[Keys.platform env qeid pceid]?.isSome

def listPlatformPools : List PlatformPool :=
  (scanPrefix db (asBytes Keys.platformPrefix)).filterMap fun row => rowPlatform row.2

def getTcb (prodType : Nat) (fmspc : String) (version : Nat) (update : UpdateType) :
    Option TcbRecord := do
  let rec ← db[Keys.tcb env (Keys.prodName prodType) version fmspc update.asStr]?.bind rowTcb
  if rec.prodType ≠ prodType ∨ rec.version ≠ version ∨
      eqIgnoreAsciiCase rec.fmspc fmspc = false ∨
      eqIgnoreAsciiCase rec.updateType update.asStr = false then
    none
  else some rec

def listTcbs : List TcbRecord :=
  (scanPrefix db (asBytes Keys.tcbPrefix)).filterMap fun row => rowTcb row.2

def getIdentity (enclaveId version : Nat) (update : UpdateType) : Option IdentityRecord := do
  let rec ← db[Keys.identity env (Keys.identityName enclaveId) version update.asStr]?.bind
    rowIdentity
  if rec.enclaveId ≠ enclaveId ∨ rec.version ≠ version ∨
      eqIgnoreAsciiCase rec.updateType update.asStr = false then
    none
  else some rec

def getPckcrl (ca : String) : Option PckCrlRecord := do
  let rec ← db[Keys.pckcrl env ca]?.bind rowPckcrl
  if eqIgnoreAsciiCase rec.ca ca then some rec else none

def listPckcrls : List PckCrlRecord :=
  (scanPrefix db (asBytes Keys.pckcrlPrefix)).filterMap fun row => rowPckcrl row.2

def getRootcacrl : Option (List UInt8) := db[Keys.rootcacrl]?.bind rowRootcacrl

/-- The URI of the record is not compared. -/
def getCrl (uri : String) : Option (List UInt8) :=
  (db[Keys.crl env uri]?.bind rowCrl).map CrlRecord.crl

def listCrls : List CrlRecord :=
  (scanPrefix db (asBytes Keys.crlPrefix)).filterMap fun row => rowCrl row.2

def putPckcert (rec : PckCertRecord) : Write UInt8 Row :=
  .put (Keys.pckcert env rec.qeid rec.pceid rec.cpusvn rec.pcesvn) (.pckcert rec)

def putPlatformPool (pool : PlatformPool) : Write UInt8 Row :=
  .put (Keys.platform env pool.qeId pool.pceId) (.platform pool)

def putTcb (rec : TcbRecord) : Write UInt8 Row :=
  .put (Keys.tcb env (Keys.prodName rec.prodType) rec.version rec.fmspc rec.updateType) (.tcb rec)

def putIdentity (rec : IdentityRecord) : Write UInt8 Row :=
  .put (Keys.identity env (Keys.identityName rec.enclaveId) rec.version rec.updateType)
    (.identity rec)

def putPckcrl (rec : PckCrlRecord) : Write UInt8 Row := .put (Keys.pckcrl env rec.ca) (.pckcrl rec)

def putRootcacrl (crl : List UInt8) : Write UInt8 Row := .put Keys.rootcacrl (.rootcacrl crl)

def putCrl (uri : String) (crl : List UInt8) : Write UInt8 Row :=
  .put (Keys.crl env uri) (.crl ⟨uri, crl⟩)

/-- New certificates for a platform; its known levels carry over. -/
def replacePlatformCerts (fresh : PlatformPool) : List RawTcb × WriteBatch :=
  let previous := ((getPlatformPool env db fresh.qeId fresh.pceId).map PlatformPool.rawTcbs).getD []
  (previous, [putPlatformPool env { fresh with rawTcbs := previous }])

/-- The tcbm of the first entry with exactly these words, or a new entry. -/
def setRawTcbm (entry : RawTcb) : List RawTcb → List RawTcb
  | [] => [entry]
  | r :: rest =>
    if r.cpuSvn = entry.cpuSvn ∧ r.pceSvn = entry.pceSvn then { r with tcbm := entry.tcbm } :: rest
    else r :: setRawTcbm entry rest

def upsertRawTcb (qeid pceid cpusvn pcesvn tcbm : String) : WriteBatch :=
  match getPlatformPool env db qeid pceid with
  | none => []
  | some pool =>
    let entry : RawTcb := ⟨toAsciiUppercase cpusvn, toAsciiUppercase pcesvn, toAsciiUppercase tcbm⟩
    [putPlatformPool env { pool with rawTcbs := setRawTcbm entry pool.rawTcbs }]

def removeRawTcb (qeid pceid cpusvn pcesvn : String) : WriteBatch :=
  match getPlatformPool env db qeid pceid with
  | none => []
  | some pool =>
    let rawTcbs := pool.rawTcbs.filter fun r => sameLevel r cpusvn pcesvn = false
    [putPlatformPool env { pool with rawTcbs }]

/-- Select for one request from the current pool; a persistent selection tracks
its raw level in the same batch as the record it publishes. -/
def selectPlatformCert (qeid pceid : String) (persist : Bool)
    (select : PlatformPool → Except PccsError PckCertRecord) :
    Except PccsError (PckCertRecord × WriteBatch) := do
  let pool ← require (getPlatformPool env db qeid pceid) noCacheData
  let rec ← select pool
  if persist then
    let pool := { pool with rawTcbs := upsertRaw (rawOf rec) pool.rawTcbs }
    return (rec, [putPckcert env rec, .put (Keys.platform env qeid pceid) (.platform pool)])
  else return (rec, [])

def publicationMatches (current : Option PlatformPool) : PlatformPublication → Bool
  | .observed expected => current.map PlatformPool.credentials == expected
  | .absentGet encPpid platformManifest =>
    current.all fun pool =>
      eqIgnoreAsciiCase pool.encPpid encPpid && pool.platformManifest == platformManifest

def checkPlatformPublication (current : Option PlatformPool) (publication : PlatformPublication) :
    Except PccsError Unit :=
  reject (publicationMatches current publication = false) noCacheData

/-- One tracked level against a fresh pool: its new entry and its new record. -/
def reselect (select : RawTcb → Except PccsError PckCertRecord) (raw : RawTcb) :
    Except PccsError (RawTcb × PckCertRecord) := do
  let rec ← select raw
  return ({ raw with tcbm := toAsciiUppercase rec.tcbm }, rec)

/-- Replace the certificates of a platform and re-select every tracked level,
together with the staged TCB infos and possibly one new level. -/
def replacePlatformCertsAfterFetch (fresh : PlatformPool) (publication : PlatformPublication)
    (tcbs : List TcbRecord) (selected : Option PckCertRecord)
    (select : PlatformPool → RawTcb → Except PccsError PckCertRecord) :
    Except PccsError (Unit × WriteBatch) := do
  let current := getPlatformPool env db fresh.qeId fresh.pceId
  checkPlatformPublication current publication
  let previous := (current.map PlatformPool.rawTcbs).getD []
  let reselected ← previous.mapM (reselect (select fresh))
  let rawTcbs := (selected.map rawOf).elim id upsertRaw (reselected.map Prod.fst)
  let merged := { fresh with rawTcbs }
  return ((), (reselected.map Prod.snd ++ selected.toList).map (putPckcert env) ++
    tcbs.map (putTcb env) ++ [putPlatformPool env merged])

def replacePlatformCertsWithSelection (fresh : PlatformPool)
    (expected : Option PlatformCredentials) (tcbs : List TcbRecord)
    (selected : Option PckCertRecord)
    (select : PlatformPool → RawTcb → Except PccsError PckCertRecord) :
    Except PccsError (Unit × WriteBatch) :=
  replacePlatformCertsAfterFetch env db fresh (.observed expected) tcbs selected select

/-- Platform metadata that is set must agree with the single certificate. -/
def metadataConflict (pool : PlatformPool) (rec : PckCertRecord) : Bool :=
  (pool.fmspc != "" && !eqIgnoreAsciiCase pool.fmspc rec.fmspc) ||
    (pool.ca != "" && !eqIgnoreAsciiCase pool.ca rec.ca)

def knownPpids (pool : PlatformPool) : List String :=
  pool.certs.filterMap fun c => (PckCert.parsePckCert c.cert).toOption.map PckCert.PckCertInfo.ppid

/-- An opaque certificate may only start a pool that has no readable one. -/
def identityConflict (pool : PlatformPool) (rec : PckCertRecord) : Bool :=
  match PckCert.parsePckCert rec.cert with
  | .ok cert =>
    (knownPpids pool).any (fun ppid => !eqIgnoreAsciiCase ppid cert.ppid) ||
      !eqIgnoreAsciiCase cert.pceId rec.pceid || !eqIgnoreAsciiCase cert.fmspc rec.fmspc ||
      !eqIgnoreAsciiCase cert.ca rec.ca
  | .error _ => !(knownPpids pool).isEmpty

/-- The record as a pool serves it: metadata and credentials are the pool's. -/
def withPool (pool : PlatformPool) (rec : PckCertRecord) : PckCertRecord :=
  { rec with
    fmspc := pool.fmspc
    ca := pool.ca
    issuerChain := pool.issuerChain
    encryptedPpid := pool.storedPpid
    platformManifest := pool.platformManifest }

/-- A sibling of a merged certificate: the pool's metadata, and the new
certificate if it has the same tcbm. -/
def patchSibling (pool : PlatformPool) (rec cached : PckCertRecord) : PckCertRecord :=
  if eqIgnoreAsciiCase cached.tcbm rec.tcbm then { withPool pool cached with cert := rec.cert }
  else withPool pool cached

/-- The records of the levels a pool lists, patched for a merged certificate. -/
def patchedSiblings (pool : PlatformPool) (rec : PckCertRecord) : List PckCertRecord :=
  (pool.rawTcbs.filterMap fun raw =>
    getPckcert env db pool.qeId raw.cpuSvn raw.pceSvn pool.pceId).map (patchSibling pool rec)

/-- A platform the mirror's certificate is the first to name starts empty. -/
def startPool (current : Option PlatformPool) (rec : PckCertRecord) : PlatformPool :=
  current.getD { qeId := rec.qeid, pceId := rec.pceid }

/-- The pool with the certificate merged in. Credentials are taken from the
record only when the platform is new. -/
def mergedPool (current : Option PlatformPool) (rec : PckCertRecord) : PlatformPool :=
  let old := startPool current rec
  { old with
    fmspc := rec.fmspc
    ca := toAsciiUppercase rec.ca
    issuerChain := rec.issuerChain
    encPpid := if current.isNone then rec.encryptedPpid.getD "" else old.encPpid
    platformManifest := if current.isNone then rec.platformManifest else old.platformManifest
    certs := upsertCert ⟨rec.tcbm, rec.cert⟩ old.certs }

/-- Add one certificate of a mirror to the pool, with its level, and bring the
records of the other levels in line. -/
def mergePckcertAfterFetch (rec : PckCertRecord) (publication : PlatformPublication) :
    Except PccsError (Unit × WriteBatch) := do
  let current := getPlatformPool env db rec.qeid rec.pceid
  checkPlatformPublication current publication
  reject (metadataConflict (startPool current rec) rec = true) noCacheData
  reject (identityConflict (startPool current rec) rec = true) noCacheData
  let pool := mergedPool current rec
  let selected :=
    { rec with encryptedPpid := pool.storedPpid, platformManifest := pool.platformManifest }
  let merged := { pool with rawTcbs := upsertRaw (rawOf rec) pool.rawTcbs }
  return ((), (patchedSiblings env db pool rec ++ [selected]).map (putPckcert env) ++
    [putPlatformPool env merged])

def mergePckcert (rec : PckCertRecord) (expected : Option PlatformCredentials) :
    Except PccsError (Unit × WriteBatch) :=
  mergePckcertAfterFetch env db rec (.observed expected)

end Operations

section Queue

variable (env : Env) (db : Database)

def normalizeReg (p : RegisteredPlatform) : RegisteredPlatform :=
  { p with
    qeId := toAsciiUppercase p.qeId
    pceId := toAsciiUppercase p.pceId
    cpuSvn := toAsciiUppercase p.cpuSvn
    pceSvn := toAsciiUppercase p.pceSvn
    encPpid := toAsciiUppercase p.encPpid }

/-- Upsert keyed by platform and raw level. -/
def registerPlatform (p : RegisteredPlatform) : Write UInt8 Row :=
  let p := normalizeReg p
  .put (Keys.preg env p.qeId p.pceId p.cpuSvn p.pceSvn) (.registered p)

def deleteRegistered (p : RegisteredPlatform) : Write UInt8 Row :=
  let p := normalizeReg p
  .delete (Keys.preg env p.qeId p.pceId p.cpuSvn p.pceSvn)

/-- The queued rows of a state, removed from the queue. -/
def takeRegistered (state : Nat) : List RegisteredPlatform × WriteBatch :=
  let rows := (scanPrefix db (asBytes Keys.pregPrefix)).filterMap fun row =>
    (rowRegistered row.2).filter (·.state = state) |>.map fun p => (row.1, p)
  (rows.map Prod.snd, rows.map fun row => .delete row.1)

end Queue

section Reads

variable {env : Env} {db : Database}

theorem getPckcert_eq_some {qeid cpusvn pcesvn pceid : String} {rec : PckCertRecord} :
    getPckcert env db qeid cpusvn pcesvn pceid = some rec ↔
      db[Keys.pckcert env qeid pceid cpusvn pcesvn]? = some (.pckcert rec) ∧
      toAsciiLowercase rec.qeid = toAsciiLowercase qeid ∧
      toAsciiLowercase rec.pceid = toAsciiLowercase pceid ∧
      toAsciiLowercase rec.cpusvn = toAsciiLowercase cpusvn ∧
      toAsciiLowercase rec.pcesvn = toAsciiLowercase pcesvn := by
  unfold getPckcert
  cases db[Keys.pckcert env qeid pceid cpusvn pcesvn]? with
  | none => simp
  | some row => cases row <;> simp [rowPckcert, and_assoc]; grind

theorem getPlatformPool_eq_some {qeid pceid : String} {pool : PlatformPool} :
    getPlatformPool env db qeid pceid = some pool ↔
      db[Keys.platform env qeid pceid]? = some (.platform pool) ∧
      toAsciiLowercase pool.qeId = toAsciiLowercase qeid ∧
      toAsciiLowercase pool.pceId = toAsciiLowercase pceid := by
  unfold getPlatformPool
  cases db[Keys.platform env qeid pceid]? with
  | none => simp
  | some row => cases row <;> simp [rowPlatform]; grind

end Reads

section Queued

variable {env : Env} {db : Database} {P : Write UInt8 Row → Prop} {batch : WriteBatch}

/-- A selection writes its record and the pool that tracks the level. -/
theorem select_eq_ok {qeid pceid : String} {select : PlatformPool → Except PccsError PckCertRecord}
    {rec : PckCertRecord}
    (h : selectPlatformCert env db qeid pceid true select = .ok (rec, batch)) :
    ∃ pool, getPlatformPool env db qeid pceid = some pool ∧ select pool = .ok rec ∧
      batch = [putPckcert env rec, .put (Keys.platform env qeid pceid)
        (.platform { pool with rawTcbs := upsertRaw (rawOf rec) pool.rawTcbs })] := by
  obtain ⟨pool, hpool, h⟩ := bind_eq_ok.mp h
  obtain ⟨rec', hrec, h⟩ := bind_eq_ok.mp h
  cases pure_eq_ok.mp h
  exact ⟨pool, require_eq_ok.mp hpool, hrec, rfl⟩

/-- The levels a stored platform lists. -/
def tracked (env : Env) (db : Database) (qeid pceid : String) : List RawTcb :=
  ((getPlatformPool env db qeid pceid).map PlatformPool.rawTcbs).getD []

/-- A replacement passes its guard and selects for every tracked level. It writes
what it selected, the TCB infos and then the fresh pool. -/
theorem replace_eq_ok {fresh : PlatformPool} {publication : PlatformPublication}
    {tcbs : List TcbRecord} {selected : Option PckCertRecord}
    {select : PlatformPool → RawTcb → Except PccsError PckCertRecord} {u : Unit}
    (h : replacePlatformCertsAfterFetch env db fresh publication tcbs selected select =
      .ok (u, batch)) :
    publicationMatches (getPlatformPool env db fresh.qeId fresh.pceId) publication = true ∧
    (∀ raw ∈ tracked env db fresh.qeId fresh.pceId, ∃ rec, select fresh raw = .ok rec) ∧
    ∃ (recs : List PckCertRecord) (rawTcbs : List RawTcb), batch =
        recs.map (putPckcert env) ++ tcbs.map (putTcb env) ++
          [putPlatformPool env { fresh with rawTcbs }] ∧
      ∀ rec ∈ recs, rec ∈ selected ∨
        ∃ raw ∈ tracked env db fresh.qeId fresh.pceId, select fresh raw = .ok rec := by
  obtain ⟨_, hguard, h⟩ := bind_eq_ok.mp h
  obtain ⟨reselected, hout, h⟩ := bind_eq_ok.mp h
  cases pure_eq_ok.mp h
  refine ⟨by simpa using reject_eq_ok.mp hguard, ?_, _, _, rfl, ?_⟩
  · intro raw hraw
    obtain ⟨x, _, hx⟩ := exists_of_mem_mapM hout raw hraw
    obtain ⟨rec, hrec, _⟩ := bind_eq_ok.mp hx
    exact ⟨rec, hrec⟩
  · intro rec hrec
    obtain hrec | hrec := List.mem_append.mp hrec
    · obtain ⟨x, hx, rfl⟩ := List.mem_map.mp hrec
      obtain ⟨raw, hraw, hx⟩ := exists_of_mem_result hout x hx
      obtain ⟨rec, hselect, hx⟩ := bind_eq_ok.mp hx
      cases pure_eq_ok.mp hx
      exact .inr ⟨raw, hraw, hselect⟩
    · exact .inl (Option.mem_toList.mp hrec)

/-- A merge passes its guard, and ends with the merged pool after records. -/
theorem merge_eq_ok {rec : PckCertRecord} {publication : PlatformPublication} {u : Unit}
    (h : mergePckcertAfterFetch env db rec publication = .ok (u, batch)) :
    publicationMatches (getPlatformPool env db rec.qeid rec.pceid) publication = true ∧
    ∃ (recs : List PckCertRecord) (rawTcbs : List RawTcb), batch =
      recs.map (putPckcert env) ++ [putPlatformPool env
        { mergedPool (getPlatformPool env db rec.qeid rec.pceid) rec with rawTcbs }] := by
  obtain ⟨_, hguard, h⟩ := bind_eq_ok.mp h
  obtain ⟨_, _, h⟩ := bind_eq_ok.mp h
  obtain ⟨_, _, h⟩ := bind_eq_ok.mp h
  cases pure_eq_ok.mp h
  exact ⟨by simpa using reject_eq_ok.mp hguard, _, _, rfl⟩

/-- A replacement is written by the plain writers of its kinds. -/
theorem replace_forall (hrec : ∀ rec, P (putPckcert env rec)) (htcb : ∀ rec, P (putTcb env rec))
    (hpool : ∀ pool, P (putPlatformPool env pool)) {fresh : PlatformPool}
    {publication : PlatformPublication} {tcbs : List TcbRecord} {selected : Option PckCertRecord}
    {select : PlatformPool → RawTcb → Except PccsError PckCertRecord} {u : Unit}
    (h : replacePlatformCertsAfterFetch env db fresh publication tcbs selected select =
      .ok (u, batch)) : ∀ w ∈ batch, P w := by
  obtain ⟨_, _, recs, rawTcbs, rfl, _⟩ := replace_eq_ok h
  intro w hw
  obtain hw | hw := List.mem_append.mp hw
  · obtain hw | hw := List.mem_append.mp hw
    · obtain ⟨rec, _, rfl⟩ := List.mem_map.mp hw
      exact hrec rec
    · obtain ⟨rec, _, rfl⟩ := List.mem_map.mp hw
      exact htcb rec
  · cases List.mem_singleton.mp hw
    exact hpool _

theorem merge_forall (hrec : ∀ rec, P (putPckcert env rec))
    (hpool : ∀ pool, P (putPlatformPool env pool)) {rec : PckCertRecord}
    {publication : PlatformPublication} {u : Unit}
    (h : mergePckcertAfterFetch env db rec publication = .ok (u, batch)) : ∀ w ∈ batch, P w := by
  obtain ⟨_, recs, rawTcbs, rfl⟩ := merge_eq_ok h
  intro w hw
  obtain hw | hw := List.mem_append.mp hw
  · obtain ⟨rec', _, rfl⟩ := List.mem_map.mp hw
    exact hrec rec'
  · cases List.mem_singleton.mp hw
    exact hpool _

end Queued

section Levels

/-- Two entries of one raw level, in any letter case. -/
def SameLevel (r s : RawTcb) : Prop :=
  toAsciiLowercase r.cpuSvn = toAsciiLowercase s.cpuSvn ∧
    toAsciiLowercase r.pceSvn = toAsciiLowercase s.pceSvn

theorem SameLevel.refl (r : RawTcb) : SameLevel r r := ⟨rfl, rfl⟩

theorem SameLevel.symm {r s : RawTcb} (h : SameLevel r s) : SameLevel s r := ⟨h.1.symm, h.2.symm⟩

theorem SameLevel.trans {r s t : RawTcb} (h : SameLevel r s) (h' : SameLevel s t) :
    SameLevel r t := ⟨h.1.trans h'.1, h.2.trans h'.2⟩

theorem sameLevel_iff {r s : RawTcb} : sameLevel r s.cpuSvn s.pceSvn = true ↔ SameLevel r s := by
  simp [sameLevel, SameLevel]

theorem mem_upsertRaw_self (raw : RawTcb) (raws : List RawTcb) : raw ∈ upsertRaw raw raws := by
  induction raws with
  | nil => simp [upsertRaw]
  | cons r rest ih =>
    unfold upsertRaw
    split
    · simp
    · exact List.mem_cons_of_mem _ ih

/-- An upsert adds its level and forgets none. -/
theorem upsertRaw_keeps (raw : RawTcb) {raws : List RawTcb} {r : RawTcb} (h : r ∈ raws) :
    ∃ r' ∈ upsertRaw raw raws, SameLevel r r' := by
  induction raws with
  | nil => cases h
  | cons s rest ih =>
    unfold upsertRaw
    split
    · rename_i hs
      rcases List.mem_cons.mp h with rfl | h
      · exact ⟨raw, by simp, sameLevel_iff.mp hs⟩
      · exact ⟨r, by simp [h], SameLevel.refl r⟩
    · rcases List.mem_cons.mp h with rfl | h
      · exact ⟨r, by simp, SameLevel.refl r⟩
      · obtain ⟨r', hr', hsame⟩ := ih h
        exact ⟨r', List.mem_cons_of_mem _ hr', hsame⟩

/-- In a list without repeated levels only the upserted entry has its level. -/
theorem mem_upsertRaw {raw r : RawTcb} {raws : List RawTcb}
    (hd : raws.Pairwise fun r s => ¬ SameLevel r s) (h : r ∈ upsertRaw raw raws) :
    r = raw ∨ (r ∈ raws ∧ ¬ SameLevel r raw) := by
  induction raws with
  | nil => simpa [upsertRaw] using h
  | cons s rest ih =>
    obtain ⟨hs, hd⟩ := List.pairwise_cons.mp hd
    unfold upsertRaw at h
    split at h
    · rename_i hsame
      rcases List.mem_cons.mp h with rfl | h
      · exact Or.inl rfl
      · refine Or.inr ⟨List.mem_cons_of_mem _ h, fun hr => hs r h ?_⟩
        exact (sameLevel_iff.mp hsame).trans hr.symm
    · rename_i hsame
      rcases List.mem_cons.mp h with rfl | h
      · exact Or.inr ⟨by simp, fun hr => hsame (sameLevel_iff.mpr hr)⟩
      · exact (ih hd h).imp_right fun hr => ⟨List.mem_cons_of_mem _ hr.1, hr.2⟩

theorem upsertRaw_distinct (raw : RawTcb) {raws : List RawTcb}
    (hd : raws.Pairwise fun r s => ¬ SameLevel r s) :
    (upsertRaw raw raws).Pairwise fun r s => ¬ SameLevel r s := by
  induction raws with
  | nil => simp [upsertRaw]
  | cons s rest ih =>
    obtain ⟨hs, hd⟩ := List.pairwise_cons.mp hd
    unfold upsertRaw
    split
    · rename_i hsame
      refine List.pairwise_cons.mpr ⟨fun t ht hrt => hs t ht ?_, hd⟩
      exact (sameLevel_iff.mp hsame).trans hrt
    · rename_i hsame
      refine List.pairwise_cons.mpr ⟨fun t ht hst => ?_, ih hd⟩
      obtain rfl | ⟨ht, _⟩ := mem_upsertRaw hd ht
      · exact hsame (sameLevel_iff.mpr hst)
      · exact hs t ht hst

theorem mem_upsertCert_self (cert : PlatformCert) (certs : List PlatformCert) :
    cert ∈ upsertCert cert certs := by
  induction certs with
  | nil => simp [upsertCert]
  | cons c rest ih =>
    unfold upsertCert
    split
    · simp
    · exact List.mem_cons_of_mem _ ih

/-- Certificates of another tcbm survive an upsert. -/
theorem mem_upsertCert_of_ne {cert c : PlatformCert} {certs : List PlatformCert} (h : c ∈ certs)
    (hne : toAsciiLowercase c.tcbm ≠ toAsciiLowercase cert.tcbm) : c ∈ upsertCert cert certs := by
  induction certs with
  | nil => cases h
  | cons d rest ih =>
    unfold upsertCert
    split
    · rename_i hd
      rcases List.mem_cons.mp h with rfl | h
      · exact absurd ((eqIgnoreAsciiCase_iff _ _).mp hd) hne
      · exact List.mem_cons_of_mem _ h
    · rcases List.mem_cons.mp h with rfl | h
      · simp
      · exact List.mem_cons_of_mem _ (ih h)

end Levels

end Pccs.Store
