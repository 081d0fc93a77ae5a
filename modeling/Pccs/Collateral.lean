import Pccs.Staging

/-!
# `PUT /platformcollateral`

The body is checked against its schema first. The TCB infos, identities and
CRLs it carries are then written one by one; after them every entry of
`pck_certs` becomes a pool and one record per raw level, all in one batch under
the platform lock.
-/
namespace Pccs.Collateral

open Text Encoding Json Fallible KeyValue PccsError Store

def upper (v : Value) (key : String) : String :=
  toAsciiUppercase (((v.get key).bind Value.asStr).getD "")

/-- The first of the members that is a string. -/
def firstUpper (v : Value) (keys : List String) : String :=
  ((keys.findSome? fun k => (v.get k).bind Value.asStr).map toAsciiUppercase).getD ""

def firstStr (v : Value) (paths : List String) : Option String :=
  paths.findSome? fun p => (v.get p).bind Value.asStr

def collaterals (body : Value) : Value := (body.get "collaterals").getD .null

def certificates (body : Value) : Value := ((collaterals body).get "certificates").getD .null

def arrayMember (v : Value) (key : String) : List Value := ((v.get key).bind Value.asArray).getD []

section Documents

variable (env : Env)

/-- Member, product and whether it is the early variant. -/
def tcbFields (version : Nat) : List (String × Nat × Bool) :=
  if version < 4 then [("tcbinfo", 0, false), ("tcbinfo_early", 0, true)]
  else [("sgx_tcbinfo", 0, false), ("sgx_tcbinfo_early", 0, true), ("tdx_tcbinfo", 1, false),
    ("tdx_tcbinfo_early", 1, true)]

def updateName (early : Bool) : String := if early then "EARLY" else "STANDARD"

def tcbWrites (body : Value) (version : Nat) : WriteBatch :=
  let issuerChain := (firstStr (certificates body)
    [Cache.tcbIssuerChainName version, Cache.tcbInfoIssuerChain, Cache.sgxTcbInfoIssuerChain]).getD ""
  (arrayMember (collaterals body) "tcbinfos").flatMap fun t =>
    let fmspc := upper t "fmspc"
    if fmspc = "" then []
    else (tcbFields version).filterMap fun (field, prodType, early) =>
      (t.get field).map fun info => putTcb env
        { prodType, fmspc, version, updateType := updateName early, tcbinfo := info,
          rawBody := env.rawJson info, issuerChain }

def identityFields : List (String × Nat × Bool) :=
  [("qeidentity", 1, false), ("qeidentity_early", 1, true), ("qveidentity", 2, false),
    ("qveidentity_early", 2, true), ("tdqeidentity", 3, false), ("tdqeidentity_early", 3, true)]

/-- An identity may come as a string that holds the document or as the document
itself; the body served is what was sent. -/
def identityBody (ident : Value) : Value × String :=
  match ident.asStr with
  | some s => ((env.fromSlice (asBytes s)).getD ident, s)
  | none => (ident, env.rawJson ident)

def identityWrites (body : Value) (version : Nat) : WriteBatch :=
  let issuerChain :=
    (((certificates body).get Cache.sgxEnclaveIdentityIssuerChain).bind Value.asStr).getD ""
  identityFields.filterMap fun (field, enclaveId, early) =>
    ((collaterals body).get field).map fun ident => putIdentity env
      { enclaveId, version, updateType := updateName early, identity := (identityBody env ident).1,
        rawBody := (identityBody env ident).2, issuerChain }

def pckChain (body : Value) (ca : String) : String :=
  (((certificates body).pointer [Cache.sgxPckCertificateIssuerChain, ca]).bind Value.asStr).getD ""

/-- A member of hex text; text that does not decode is dropped. -/
def hexMember (v : Value) (key : String) : Option (List UInt8) :=
  ((v.get key).bind Value.asStr).bind fun s => hexDecode (asBytes s)

def crlWrites (body : Value) : WriteBatch :=
  let pckcrls := match (collaterals body).get "pckcacrl" with
    | none => []
    | some crl =>
      [("processorCrl", "PROCESSOR"), ("platformCrl", "PLATFORM")].filterMap fun (field, ca) =>
        (hexMember crl field).map fun bytes => putPckcrl env ⟨ca, bytes, pckChain body ca⟩
  let root := match hexMember (collaterals body) "rootcacrl" with
    | none => []
    | some bytes =>
      putRootcacrl bytes ::
        (((collaterals body).get "rootcacrl_cdp").bind Value.asStr).toList.map
          fun cdp => putCrl env cdp bytes
  pckcrls ++ root

/-- The writes made before the platforms are looked at, in order. -/
def documentWrites (body : Value) (version : Nat) : WriteBatch :=
  tcbWrites env body version ++ identityWrites env body version ++ crlWrites env body

end Documents

section Platforms

/-- The certificates of a `pck_certs` entry. -/
def entryCerts (pc : Value) : List (String × String) :=
  (arrayMember pc "certs").map fun c =>
    (upper c "tcbm", Validate.percentDecode (((c.get "cert").bind Value.asStr).getD ""))

def qeIdOf (v : Value) : String := firstUpper v ["qe_id", "qeid"]

def pceIdOf (v : Value) : String := firstUpper v ["pce_id", "pceid"]

/-- Early before standard, always the SGX document. -/
def collateralTcbInfo (tcbinfo : Value) (version : Nat) : Option Value :=
  (if version < 4 then ["tcbinfo_early", "tcbinfo"]
    else ["sgx_tcbinfo_early", "sgx_tcbinfo"]).findSome?
    fun f => (tcbinfo.get f).bind fun v => v.get "tcbInfo"

/-- The platforms of the body that an entry is about. -/
def newPlatforms (body pc : Value) : List Value :=
  (arrayMember body "platforms").filter fun p => qeIdOf p == qeIdOf pc && pceIdOf p == pceIdOf pc

/-- The raw levels the body asks for. -/
def addLevel (levels : List (String × String)) (p : Value) : List (String × String) :=
  let cpu := firstUpper p ["cpu_svn", "cpusvn"]
  let pce := firstUpper p ["pce_svn", "pcesvn"]
  if cpu ≠ "" ∧ pce ≠ "" ∧ (cpu, pce) ∉ levels then levels ++ [(cpu, pce)] else levels

variable (env : Env) (db : Database)

def basePool (pc : Value) : PlatformPool :=
  (getPlatformPool env db (qeIdOf pc) (pceIdOf pc)).getD { qeId := qeIdOf pc, pceId := pceIdOf pc }

/-- Levels already known plus the ones in the body. -/
def entryLevels (body pc : Value) : List (String × String) :=
  (newPlatforms body pc).foldl addLevel
    ((basePool env db pc).rawTcbs.map fun r => (r.cpuSvn, r.pceSvn))

def entryIssuer (body pc : Value) (ca : String) : String :=
  if pckChain body ca = "" then
    (((newPlatforms body pc).head?.bind fun p => p.get "issuer_chain").bind Value.asStr).getD ""
  else pckChain body ca

/-- The pool of an entry before its levels are selected. -/
def entryPool (body pc : Value) (info : PckCert.PckCertInfo) : PlatformPool :=
  let pool := { basePool env db pc with
    fmspc := info.fmspc
    ca := info.ca
    certs := (entryCerts pc).map fun c => ⟨c.1, c.2⟩
    issuerChain := entryIssuer body pc info.ca }
  match (newPlatforms body pc).head? with
  | none => pool
  | some p =>
    { pool with
      encPpid := firstUpper p ["enc_ppid", "encrypted_ppid"]
      platformManifest := toAsciiUppercase (((p.get "platform_manifest").bind Value.asStr).getD "") }

/-- The first certificate names FMSPC and CA of the entry. -/
def entryInfo (pc : Value) : Except PccsError PckCert.PckCertInfo := do
  let first ← require (entryCerts pc).head? invalidReq
  let info ← (PckCert.parsePckCert first.2).mapError fun _ => invalidReq
  reject (info.fmspc = "" ∨ info.ca = "") invalidReq
  return info

def entryTcbInfo (body : Value) (version : Nat) (fmspc : String) : Except PccsError Value :=
  require (((arrayMember (collaterals body) "tcbinfos").find? fun t => upper t "fmspc" = fmspc).bind
    fun t => collateralTcbInfo t version) invalidReq

/-- The entry and the record of one raw level. -/
def selectLevel (pc : Value) (pool : PlatformPool) (tcbInfo : Value) (level : String × String) :
    Except PccsError (RawTcb × PckCertRecord) :=
  match Selection.selectBestPckCert level.1 level.2 (pceIdOf pc) (entryCerts pc) tcbInfo with
  | .error _ => .error invalidReq
  | .ok (tcbm, cert) => .ok
      (⟨level.1, level.2, tcbm⟩,
        { qeid := qeIdOf pc
          pceid := pceIdOf pc
          cpusvn := level.1
          pcesvn := level.2
          cert
          tcbm
          fmspc := pool.fmspc
          ca := pool.ca
          issuerChain := pool.issuerChain
          encryptedPpid := pool.storedPpid
          platformManifest := pool.platformManifest })

/-- The writes of one `pck_certs` entry, from the stored platform. -/
def entryWrites (body : Value) (version : Nat) (pc : Value) : Except PccsError WriteBatch := do
  let info ← entryInfo pc
  let tcbInfo ← entryTcbInfo body version info.fmspc
  let pool := entryPool env db body pc info
  let selected ← (entryLevels env db body pc).mapM (selectLevel pc pool tcbInfo)
  return selected.map (fun s => putPckcert env s.2) ++
    [putPlatformPool env { pool with rawTcbs := selected.map Prod.fst }]

/-- One batch for all entries. Every entry reads the database, not the batch. -/
def platformWrites (body : Value) (version : Nat) : Except PccsError WriteBatch := do
  let batches ← (arrayMember (collaterals body) "pck_certs").mapM (entryWrites env db body version)
  return batches.flatten

end Platforms

/-- The whole request: the documents are in the database before the first
platform is checked. -/
def putPlatformCollateral (env : Env) (db : Database) (body : Value) (version : Nat) :
    Except PccsError Unit × Database :=
  match Validate.platformCollateral body version with
  | .error e => (.error e, db)
  | .ok () =>
    let db := write db (documentWrites env body version)
    commit db ((platformWrites env db body version).map fun batch => ((), batch))

section Queued

variable {env : Env} {db : Database} {P : Write UInt8 Row → Prop}

/-- The documents are written by the plain writers of their kinds. -/
theorem documentWrites_forall (htcb : ∀ rec, P (putTcb env rec))
    (hidentity : ∀ rec, P (putIdentity env rec)) (hpckcrl : ∀ rec, P (putPckcrl env rec))
    (hroot : ∀ crl, P (putRootcacrl crl)) (hcrl : ∀ uri crl, P (putCrl env uri crl))
    (body : Value) (version : Nat) : ∀ w ∈ documentWrites env body version, P w := by
  intro w hw
  obtain hw | hw := List.mem_append.mp hw
  · obtain hw | hw := List.mem_append.mp hw
    · obtain ⟨t, _, hw⟩ := List.mem_flatMap.mp hw
      simp only at hw
      split at hw
      · cases hw
      · obtain ⟨⟨field, prodType, early⟩, _, hw⟩ := List.mem_filterMap.mp hw
        obtain ⟨info, _, rfl⟩ := Option.map_eq_some_iff.mp hw
        exact htcb _
    · obtain ⟨⟨field, enclaveId, early⟩, _, hw⟩ := List.mem_filterMap.mp hw
      obtain ⟨ident, _, rfl⟩ := Option.map_eq_some_iff.mp hw
      exact hidentity _
  · obtain hw | hw := List.mem_append.mp hw
    · split at hw
      · cases hw
      · obtain ⟨⟨field, ca⟩, _, hw⟩ := List.mem_filterMap.mp hw
        obtain ⟨bytes, _, rfl⟩ := Option.map_eq_some_iff.mp hw
        exact hpckcrl _
    · split at hw
      · cases hw
      · obtain rfl | hw := List.mem_cons.mp hw
        · exact hroot _
        · obtain ⟨cdp, _, rfl⟩ := List.mem_map.mp hw
          exact hcrl _ _

/-- An entry writes a record for each of its levels and then its pool. -/
theorem entry_eq_ok {body pc : Value} {version : Nat} {batch : WriteBatch}
    (h : entryWrites env db body version pc = .ok batch) :
    ∃ info tcbInfo selected, entryInfo pc = .ok info ∧
      entryTcbInfo body version info.fmspc = .ok tcbInfo ∧
      (entryLevels env db body pc).mapM
        (selectLevel pc (entryPool env db body pc info) tcbInfo) = .ok selected ∧
      batch = selected.map (fun s => putPckcert env s.2) ++ [putPlatformPool env
        { entryPool env db body pc info with rawTcbs := selected.map Prod.fst }] := by
  obtain ⟨info, hinfo, h⟩ := bind_eq_ok.mp h
  obtain ⟨tcbInfo, htcb, h⟩ := bind_eq_ok.mp h
  obtain ⟨selected, hselected, h⟩ := bind_eq_ok.mp h
  exact ⟨info, tcbInfo, selected, hinfo, htcb, hselected, (pure_eq_ok.mp h).symm⟩

/-- Every write is that of an entry. -/
theorem mem_platformWrites {body : Value} {version : Nat} {batch : WriteBatch}
    (h : platformWrites env db body version = .ok batch) {w : Write UInt8 Row} (hw : w ∈ batch) :
    ∃ pc ∈ arrayMember (collaterals body) "pck_certs", ∃ own,
      entryWrites env db body version pc = .ok own ∧ w ∈ own := by
  obtain ⟨batches, hbatches, h⟩ := bind_eq_ok.mp h
  cases pure_eq_ok.mp h
  obtain ⟨own, hmem, hw⟩ := List.mem_flatten.mp hw
  obtain ⟨pc, hpc, hown⟩ := exists_of_mem_result hbatches own hmem
  exact ⟨pc, hpc, own, hown, hw⟩

theorem platformWrites_forall (hrec : ∀ rec, P (putPckcert env rec))
    (hpool : ∀ pool, P (putPlatformPool env pool)) {body : Value} {version : Nat}
    {batch : WriteBatch} (h : platformWrites env db body version = .ok batch) :
    ∀ w ∈ batch, P w := by
  intro w hw
  obtain ⟨pc, _, own, hown, hw⟩ := mem_platformWrites h hw
  obtain ⟨info, tcbInfo, selected, _, _, _, rfl⟩ := entry_eq_ok hown
  obtain hw | hw := List.mem_append.mp hw
  · obtain ⟨level, _, rfl⟩ := List.mem_map.mp hw
    exact hrec _
  · cases List.mem_singleton.mp hw
    exact hpool _

end Queued

end Pccs.Collateral
