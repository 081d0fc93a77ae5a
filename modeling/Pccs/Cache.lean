import Pccs.Collateral
import Pccs.OcspRuns
import Pccs.Paths
import Pccs.Process
import Pccs.Refresh

/-!
# The cache

Every request to the cache as a process over the shared store. An operation is
one access to the store, to the memory of the process or to the upstream; what
the upstream answers is arbitrary, and so is what the clock, the key locks and
the throttle say.
-/
namespace Pccs.Cache

open Text Encoding Json Fallible KeyValue PccsError Store Process

structure Config where
  mode : CacheMode
  pcsVersion : Nat
  isIntel : Bool
  /-- An upstream is configured. -/
  enabled : Bool
  poolRefetchOnNewTcb : Bool
  scheduledPoolRefresh : Bool
  amdKdsUri : String
  amdKdsCacheTtlSecs : Nat
  nvidiaRimUri : String
  nvidiaRimCacheTtlSecs : Nat
  nvidiaNrasUri : String
  nvidiaOcspUri : String
  nvidiaOcspMaxTtlSecs : Nat
  nvidiaOcspDefaultTtlSecs : Nat

/-- A LAZY process with the Intel upstream, and with nothing else switched on. -/
def Config.plain : Config where
  mode := .lazy
  pcsVersion := 4
  isIntel := true
  enabled := true
  poolRefetchOnNewTcb := false
  scheduledPoolRefresh := false
  amdKdsUri := ""
  amdKdsCacheTtlSecs := 0
  nvidiaRimUri := ""
  nvidiaRimCacheTtlSecs := 0
  nvidiaNrasUri := ""
  nvidiaOcspUri := ""
  nvidiaOcspMaxTtlSecs := 0
  nvidiaOcspDefaultTtlSecs := 0

/-- One exchange with the upstream. -/
inductive Fetch where
  | pckcertsIntel (encPpid pceid : String)
  | pckcertsIntelManifest (platformManifest pceid : String)
  | pckcertPccs (qeid cpusvn pcesvn pceid : String) (encPpid : Option String)
  | tcb (prodType : Nat) (fmspc : String) (version : Nat) (update : UpdateType)
  | identity (enclaveId version : Nat) (update : UpdateType)
  | pckcrl (ca : String)
  | rootcacrl
  | crl (uri : String)
  | url (kind : Fifo.Kind) (url : String)
  | ocsp (body : List UInt8)
  | nras (url payload : String)
deriving DecidableEq

inductive Op where
  | hasPlatform (qeid pceid : String)
  | getPckcert (qeid cpusvn pcesvn pceid : String)
  | getPlatformPool (qeid pceid : String)
  | listPlatformPools
  | listPckcrls
  | listTcbs
  | listCrls
  | getPckcrl (ca : String)
  | getIdentity (enclaveId version : Nat) (update : UpdateType)
  | getRootcacrl
  | getTcb (prodType : Nat) (fmspc : String) (version : Nat) (update : UpdateType)
  | getCrl (uri : String)
  | loadUrl (kind : Fifo.Kind) (url : String)
  | saveUrl (kind : Fifo.Kind) (rec : AmdKdsRecord)
  | getNvidiaOcsp (cacheKey : String)
  | putNvidiaOcsp (rec : NvidiaOcspRecord)
  | deleteKey (key : String)
  | sweepExpired (now : Nat)
  | selectPlatformCert (qeid pceid cpusvn pcesvn : String)
  | storePckcerts (pceid : String) (context : PckFetchContext) (pool : PlatformPool)
      (resp : PckCertsResponse) (tcbs : List TcbRecord) (requested : Option (String × String))
  | publishRefreshed (fresh : PlatformPool) (expected : PlatformCredentials) (tcb : TcbRecord)
  | mergePckcert (rec : PckCertRecord) (publication : PlatformPublication)
  | putPlatforms (body : Value) (version : Nat)
  | put (w : Write UInt8 Row)
  | fetch (f : Fetch)
  | keyLock (key : List UInt8)
  | remember (key : List UInt8) (e : PccsError)
  | recentNon200 (key : List UInt8)
  | rememberResponse (key : List UInt8) (r : Ocsp.AmdKdsResponse)
  | unixTime
  | refetchDue (platform : String)
  | markRefetch (platform : String)
  | refetchedRecently
  | elapsed
  | spawnRefresh (pool : PlatformPool)

abbrev Op.Res : Op → Type
  | .hasPlatform _ _ => Bool
  | .getPckcert _ _ _ _ => Option PckCertRecord
  | .getPlatformPool _ _ => Option PlatformPool
  | .listPlatformPools => List PlatformPool
  | .listPckcrls => List PckCrlRecord
  | .listTcbs => List TcbRecord
  | .listCrls => List CrlRecord
  | .getPckcrl _ => Option PckCrlRecord
  | .getIdentity _ _ _ => Option IdentityRecord
  | .getRootcacrl => Option (List UInt8)
  | .getTcb _ _ _ _ => Option TcbRecord
  | .getCrl _ => Option (List UInt8)
  | .loadUrl _ _ => Option AmdKdsRecord
  | .saveUrl _ _ => Unit
  | .getNvidiaOcsp _ => Option NvidiaOcspRecord
  | .putNvidiaOcsp _ => Unit
  | .deleteKey _ => Unit
  | .sweepExpired _ => Unit
  | .selectPlatformCert _ _ _ _ => Except PccsError PckCertRecord
  | .storePckcerts _ _ _ _ _ _ => Except PccsError (Option PckCertRecord)
  | .publishRefreshed _ _ _ => Except PccsError Unit
  | .mergePckcert _ _ => Except PccsError Unit
  | .putPlatforms _ _ => Except PccsError Unit
  | .put _ => Unit
  | .fetch _ => Except PccsError HttpResponse
  | .keyLock _ => Except PccsError Unit
  | .remember _ _ => Unit
  | .recentNon200 _ => Option Ocsp.AmdKdsResponse
  | .rememberResponse _ _ => Unit
  | .unixTime => Nat
  | .refetchDue _ => Bool
  | .markRefetch _ => Unit
  | .refetchedRecently => List String
  | .elapsed => Bool
  | .spawnRefresh _ => Unit

/-- The AMD and NVIDIA kinds that are named by their URL. -/
def loadUrl (env : Env) (db : Database) : Fifo.Kind → String → Option AmdKdsRecord
  | .amdKds => Fifo.getAmdKds env db
  | .nvidiaRim => Fifo.getNvidiaRim env db
  | .nvidiaOcsp => fun _ => none

def saveUrl (env : Env) (s : Fifo.FifoStore) (micros : Nat) :
    Fifo.Kind → AmdKdsRecord → Fifo.FifoStore
  | .amdKds => Fifo.putAmdKds env s micros
  | .nvidiaRim => Fifo.putNvidiaRim env s micros
  | .nvidiaOcsp => fun _ => s

/-- Delete the expired records no request came back for. -/
def sweepExpired (cfg : Config) (s : Fifo.FifoStore) (now : Nat) : Fifo.FifoStore :=
  let s := Fifo.sweepPrefix s .amdKds fun
    | .amdKds rec => decide (cfg.amdKdsCacheTtlSecs ≤ now - rec.fetchedAt)
    | _ => false
  let s := Fifo.sweepPrefix s .nvidiaRim fun
    | .nvidiaRim rec => decide (cfg.nvidiaRimCacheTtlSecs ≤ now - rec.fetchedAt)
    | _ => false
  Fifo.sweepPrefix s .nvidiaOcsp fun
    | .nvidiaOcsp rec => decide (rec.expiresAt ≤ now)
    | _ => false

/-- What an operation returns and does to the store. The last stamp, the cap and
the clock of a bounded write are not part of the store here. -/
def perform (env : Env) (cfg : Config) (s : Database) : (o : Op) → o.Res → Database → Prop
  | .hasPlatform qeid pceid, r, s' => r = hasPlatform env s qeid pceid ∧ s' = s
  | .getPckcert qeid cpusvn pcesvn pceid, r, s' =>
    r = getPckcert env s qeid cpusvn pcesvn pceid ∧ s' = s
  | .getPlatformPool qeid pceid, r, s' => r = getPlatformPool env s qeid pceid ∧ s' = s
  | .listPlatformPools, r, s' => r = listPlatformPools s ∧ s' = s
  | .listPckcrls, r, s' => r = listPckcrls s ∧ s' = s
  | .listTcbs, r, s' => r = listTcbs s ∧ s' = s
  | .listCrls, r, s' => r = listCrls s ∧ s' = s
  | .getPckcrl ca, r, s' => r = getPckcrl env s ca ∧ s' = s
  | .getIdentity id version update, r, s' => r = getIdentity env s id version update ∧ s' = s
  | .getRootcacrl, r, s' => r = getRootcacrl s ∧ s' = s
  | .getTcb prodType fmspc version update, r, s' =>
    r = getTcb env s prodType fmspc version update ∧ s' = s
  | .getCrl uri, r, s' => r = getCrl env s uri ∧ s' = s
  | .loadUrl kind url, r, s' => r = loadUrl env s kind url ∧ s' = s
  | .saveUrl kind rec, _, s' =>
    ∃ last max micros, s' = (saveUrl env ⟨s, last, max⟩ micros kind rec).db
  | .getNvidiaOcsp cacheKey, r, s' => r = Ocsp.getNvidiaOcsp ⟨s, 0, 0⟩ cacheKey ∧ s' = s
  | .putNvidiaOcsp rec, _, s' =>
    ∃ last max micros, s' = (Fifo.putNvidiaOcsp ⟨s, last, max⟩ micros rec).db
  | .deleteKey key, _, s' => s' = (Fifo.deleteKey ⟨s, 0, 0⟩ key).db
  | .sweepExpired now, _, s' => s' = (sweepExpired cfg ⟨s, 0, 0⟩ now).db
  | .selectPlatformCert qeid pceid cpusvn pcesvn, r, s' =>
    (r, s') = commit s (selectPlatformCert env s qeid pceid true fun pool =>
      selectFromPool env s cfg.pcsVersion pool cpusvn pcesvn pceid)
  | .storePckcerts pceid context pool resp tcbs requested, r, s' =>
    (r, s') = commit s (storePckcerts env s cfg.mode pceid context pool resp tcbs requested)
  | .publishRefreshed fresh expected tcb, r, s' =>
    (r, s') = commit s (publishRefreshed env s fresh expected tcb)
  | .mergePckcert rec publication, r, s' =>
    (r, s') = commit s (mergePckcertAfterFetch env s rec publication)
  | .putPlatforms body version, r, s' =>
    (r, s') = commit s ((Collateral.platformWrites env s body version).map fun batch => ((), batch))
  | .put w, _, s' => s' = write s [w]
  | .fetch _, _, s' => s' = s
  | .keyLock _, _, s' => s' = s
  | .remember _ _, _, s' => s' = s
  | .recentNon200 _, _, s' => s' = s
  | .rememberResponse _ _, _, s' => s' = s
  | .unixTime, _, s' => s' = s
  | .refetchDue _, _, s' => s' = s
  | .markRefetch _, _, s' => s' = s
  | .refetchedRecently, _, s' => s' = s
  | .elapsed, _, s' => s' = s
  | .spawnRefresh _, _, s' => s' = s

abbrev Action (α : Type) : Type := Proc Op Op.Res α

abbrev Attempt (α : Type) : Type := Action (Except PccsError α)

/-- One operation of the cache. -/
def act (o : Op) : Action o.Res := call o

/-- A step that cannot await. -/
def settled {α : Type} (r : Except PccsError α) : Attempt α := .ret r

section Upstream

variable (env : Env) (cfg : Config)

def get (f : Fetch) : Attempt HttpResponse :=
  if cfg.enabled then act (.fetch f) else .ret (.error noCacheData)

def fetchPckcertPccs (qeid cpusvn pcesvn pceid : String) (encPpid : Option String) :
    Attempt PckCertRecord :=
  (get cfg (.pckcertPccs qeid cpusvn pcesvn pceid encPpid)).andThen fun r =>
    settled (parsePckcertPccs qeid cpusvn pcesvn pceid encPpid r)

/-- An all-zero encrypted PPID is refused. -/
def fetchPckcertsIntel (encPpid pceid : String) : Attempt PckCertsResponse :=
  if encPpid.toList.all (· == '0') then .ret (.error noCacheData)
  else (get cfg (.pckcertsIntel encPpid pceid)).andThen fun r => settled (parsePckcerts env r)

def fetchPckcertsIntelManifest (platformManifest pceid : String) : Attempt PckCertsResponse :=
  (get cfg (.pckcertsIntelManifest platformManifest pceid)).andThen fun r =>
    settled (parsePckcerts env r)

/-- The answer to the manifest if there is one, otherwise to the PPID. -/
def fetchPool (encPpid platformManifest pceid : String) : Attempt PckCertsResponse :=
  if platformManifest = "" then fetchPckcertsIntel env cfg encPpid pceid
  else fetchPckcertsIntelManifest env cfg platformManifest pceid

def fetchTcb (prodType : Nat) (fmspc : String) (version : Nat) (update : UpdateType) :
    Attempt TcbRecord :=
  if version = 3 then .ret (.error pcsV3ReachedEol)
  else (get cfg (.tcb prodType fmspc version update)).andThen fun r =>
    settled (parseTcb env prodType fmspc version update r)

def parseIdentity (enclaveId version : Nat) (update : UpdateType) (r : HttpResponse) :
    Except PccsError IdentityRecord := do
  reject (r.status ≠ 200) noCacheData
  let rawBody ← require (fromUtf8 r.body) noCacheData
  let identity ← require (env.fromSlice (asBytes rawBody)) noCacheData
  return ⟨enclaveId, version, update.asStr, identity, rawBody, r.hdr sgxEnclaveIdentityIssuerChain⟩

def fetchIdentity (enclaveId version : Nat) (update : UpdateType) : Attempt IdentityRecord :=
  if version = 3 then .ret (.error pcsV3ReachedEol)
  else (get cfg (.identity enclaveId version update)).andThen fun r =>
    settled (parseIdentity env enclaveId version update r)

def parsePckcrl (ca : String) (r : HttpResponse) : Except PccsError PckCrlRecord := do
  reject (r.status ≠ 200) noCacheData
  return ⟨toAsciiUppercase ca, r.body, r.hdr sgxPckCrlIssuerChain⟩

def fetchPckcrl (ca : String) : Attempt PckCrlRecord :=
  (get cfg (.pckcrl ca)).andThen fun r => settled (parsePckcrl ca r)

def asciiHexdigitByte (b : UInt8) : Bool := (hexValue b).isSome

def asciiWhitespaceByte (b : UInt8) : Bool := isAsciiWhitespace (Char.ofNat b.toNat)

/-- A body of hex text stands for the bytes it spells. -/
def rootcacrlBytes (body : List UInt8) : List UInt8 :=
  if body.all fun b => asciiHexdigitByte b || asciiWhitespaceByte b then
    match hexDecode (body.filter asciiHexdigitByte) with
    | some (b :: bytes) => b :: bytes
    | _ => body
  else body

def parseRootcacrl (r : HttpResponse) : Except PccsError (List UInt8) := do
  reject (r.status ≠ 200) internalError
  return rootcacrlBytes r.body

/-- The URL of the root CA CRL is looked up first; both exchanges are one here. -/
def fetchRootcacrl : Attempt (List UInt8) :=
  (get cfg .rootcacrl).andThen fun r => settled (parseRootcacrl r)

def parseCrl (r : HttpResponse) : Except PccsError (List UInt8) := do
  reject (r.status ≠ 200) internalError
  return r.body

def checkV3 (url : String) : Except PccsError Unit :=
  reject (PckCert.containsText "/v3/" url.toList = true) pcsV3ReachedEol

def fetchCrl (uri : String) : Attempt (List UInt8) :=
  (settled (checkV3 uri)).andThen fun _ =>
    (get cfg (.crl uri)).andThen fun r => settled (parseCrl r)

end Upstream

section Fill

variable (env : Env) (cfg : Config)

def platfRegNew : Nat := 0

def platfRegNotAvailable : Nat := 1

/-- The sixteen `sgxtcbcompNNsvn` members as hex. -/
def rawCpusvnFromTcb (tcb : Value) : Option String :=
  ((List.range' 1 16).mapM fun i =>
    Selection.componentHex (tcb.get ("sgxtcbcomp" ++ Selection.twoDigits i ++ "svn"))).map String.join

/-- The queue row of a level without a certificate. -/
def notAvailableRow (qeid pceid encPpid platformManifest : String) (tcb : Value) :
    Option RegisteredPlatform := do
  let cpuSvn ← rawCpusvnFromTcb tcb
  let pceSvn ← (tcb.get "pcesvn").bind Value.asU64
  return ⟨qeid, pceid, cpuSvn, toString pceSvn.toNat, encPpid, platformManifest,
    platfRegNotAvailable⟩

/-- In REQ mode the levels without a certificate go into the queue. -/
def processNotAvailable (qeid pceid encPpid platformManifest : String) (resp : PckCertsResponse) :
    Action Unit :=
  if cfg.mode = .req then
    (collect (fun p => act (.put (registerPlatform env p)))
      (resp.notAvailable.filterMap
        (notAvailableRow qeid pceid encPpid platformManifest))).bind fun _ => .ret ()
  else .ret ()

/-- The pool of an answer; nothing of it is stored yet. -/
def validatePool (qeid pceid encPpid platformManifest : String) (resp : PckCertsResponse) :
    Attempt PlatformPool :=
  (processNotAvailable env cfg qeid pceid encPpid platformManifest resp).bind fun _ =>
    settled (pckcertPool qeid pceid encPpid platformManifest resp)

/-- The TCB documents of an FMSPC, fetched one after the other and not stored. -/
def fetchTcbInfos (fmspc : String) : Attempt (List TcbRecord) :=
  (collect (fun w : Nat × UpdateType =>
      (fetchTcb env cfg w.1 fmspc cfg.pcsVersion w.2).bind fun rec => .ret (w, rec))
    (wantedTcbs cfg.pcsVersion)).bind fun fetched => settled (collectTcbs fetched)

def publishPckcerts (qeid pceid : String) (context : PckFetchContext) (resp : PckCertsResponse)
    (requested : Option (String × String)) : Attempt (Option PckCertRecord) :=
  (validatePool env cfg qeid pceid context.encPpid context.platformManifest resp).andThen
    fun pool => (fetchTcbInfos env cfg resp.fmspc).andThen fun tcbs =>
      act (.storePckcerts pceid context pool resp tcbs requested)

/-- A mirror without a manifest serves one certificate, which joins the pool. -/
def fillFromMirror (qeid cpusvn pcesvn pceid : String) (context : PckFetchContext) :
    Attempt (Option PckCertRecord) :=
  (fetchPckcertPccs cfg qeid cpusvn pcesvn pceid
    (if context.encPpid = "" then none else some context.encPpid)).andThen fun rec =>
    if cacheable rec.issuerChain then
      (act (.mergePckcert rec context.publication)).andThen fun _ => .ret (.ok (some rec))
    else .ret (.ok (some rec))

/-- A manifest registration fills a pool without a raw level. -/
def requestedLevel (cpusvn pcesvn : String) : Option (String × String) :=
  if cpusvn = "" ∨ pcesvn = "" then none else some (cpusvn, pcesvn)

def fillPckcert (qeid cpusvn pcesvn pceid : String) (context : PckFetchContext) :
    Attempt (Option PckCertRecord) :=
  if cfg.enabled = false then .ret (.error noCacheData)
  else if cfg.isIntel ∧ context.encPpid = "" ∧ context.platformManifest = "" then
    .ret (.error invalidReq)
  else if cfg.isIntel = false ∧ context.platformManifest = "" then
    fillFromMirror cfg qeid cpusvn pcesvn pceid context
  else
    (fetchPool env cfg context.encPpid context.platformManifest pceid).andThen fun resp =>
      publishPckcerts env cfg qeid pceid context resp (requestedLevel cpusvn pcesvn)

end Fill

section Requests

variable (env : Env) (cfg : Config)

def rawTcbKnown (pool : PlatformPool) (cpusvn pcesvn : String) : Bool :=
  pool.rawTcbs.any fun r => sameLevel r cpusvn pcesvn

/-- A pool can only be fetched again with a stored credential. -/
def hasStoredCredential (pool : PlatformPool) : Bool :=
  pool.platformManifest != "" || (pool.encPpid != "" && !pool.encPpid.toList.all (· == '0'))

def platformKey (qeid pceid : String) : String :=
  toAsciiUppercase qeid ++ ":" ++ toAsciiUppercase pceid

/-- The timed part of a re-fetch, with the stored credential. -/
def refetch (pool : PlatformPool) (cpusvn pcesvn : String) : Attempt (Option PckCertRecord) :=
  (fetchPool env cfg pool.encPpid pool.platformManifest pool.pceId).andThen fun resp =>
    publishPckcerts env cfg pool.qeId pool.pceId
      ⟨pool.encPpid, pool.platformManifest, some pool.credentials, false⟩ resp
      (some (cpusvn, pcesvn))

def refetchGate (version : Nat) : Bool :=
  cfg.poolRefetchOnNewTcb && cfg.mode == .lazy && cfg.isIntel && cfg.enabled && decide (4 ≤ version)
    && decide (4 ≤ cfg.pcsVersion)

/-- A stored pool that has not seen the level and can be fetched again. -/
def refetchable (pool : Option PlatformPool) (cpusvn pcesvn : String) : Option PlatformPool :=
  pool.filter fun p => !rawTcbKnown p cpusvn pcesvn && hasStoredCredential p

/-- The part of a re-fetch under the lock of the platform. -/
def refetchLocked (qeid pceid cpusvn pcesvn platform : String) : Action (Option PckCertRecord) :=
  (act (.getPlatformPool qeid pceid)).bind fun again =>
    match refetchable again cpusvn pcesvn with
    | none => .ret none
    | some pool =>
      (act (.refetchDue platform)).bind fun due =>
        if due = false then .ret none
        else (act (.markRefetch platform)).bind fun _ =>
          (within .elapsed id (refetch env cfg pool cpusvn pcesvn)).bind fun
            | some (.ok rec) => .ret rec
            | _ => .ret none

/-- A raw level the pool has never seen may have a certificate upstream now. -/
def refetchPoolForNewRawTcb (qeid pceid cpusvn pcesvn : String) (version : Nat) :
    Action (Option PckCertRecord) :=
  if refetchGate cfg version then
    (act (.getPlatformPool qeid pceid)).bind fun found =>
      match refetchable found cpusvn pcesvn with
      | none => .ret none
      | some pool =>
        let platform := platformKey pool.qeId pool.pceId
        (act (.keyLock (asBytes ("pool-refetch/" ++ platform)))).bind fun
          | .error _ => .ret none
          | .ok _ => refetchLocked env cfg qeid pceid cpusvn pcesvn platform
  else .ret none

def selectLocally (qeid pceid cpusvn pcesvn : String) : Attempt PckCertRecord :=
  act (.selectPlatformCert qeid pceid cpusvn pcesvn)

/-- Remember a failure briefly for the requests that wait behind this one. -/
def note {α : Type} (key : List UInt8) (p : Attempt α) : Attempt α :=
  p.bind fun
    | .ok a => .ret (.ok a)
    | .error e => (act (.remember key e)).bind fun _ => .ret (.error e)

/-- The fill of a GET, under the lock of its key. -/
def fillForGet (q : Validate.PckcertQuery) (version : Nat) : Attempt PckCertRecord :=
  if cfg.mode ≠ .lazy then .ret (.error platformUnknown)
  else if version = 3 then .ret (.error pcsV3ReachedEol)
  else
    (act (.getPlatformPool q.qeid q.pceid)).bind fun current =>
      let expected := current.map PlatformPool.credentials
      if cfg.isIntel ∧ expected.isSome then selectLocally q.qeid q.pceid q.cpusvn q.pcesvn
      else note (Keys.pckcert env q.qeid q.pceid q.cpusvn q.pcesvn)
        ((fillPckcert env cfg q.qeid q.cpusvn q.pcesvn q.pceid
          ⟨q.encryptedPpid.getD "", "", expected, true⟩).andThen fun rec =>
            settled (require rec noCacheData))

/-- A GET that local selection could not answer. -/
def getUncached (q : Validate.PckcertQuery) (version : Nat) : Attempt PckCertRecord :=
  (act (.keyLock (Keys.pckcert env q.qeid q.pceid q.cpusvn q.pcesvn))).andThen fun _ =>
    (act (.getPckcert q.qeid q.cpusvn q.pcesvn q.pceid)).bind fun
      | some rec => .ret (.ok rec)
      | none => fillForGet env cfg q version

/-- A GET for a platform the store knows, after its record was not found. -/
def getKnown (q : Validate.PckcertQuery) (version : Nat) : Attempt PckCertRecord :=
  (refetchPoolForNewRawTcb env cfg q.qeid q.pceid q.cpusvn q.pcesvn version).bind fun
    | some rec => .ret (.ok rec)
    | none => (selectLocally q.qeid q.pceid q.cpusvn q.pcesvn).bind fun
      | .ok rec => .ret (.ok rec)
      | .error e =>
        if cfg.isIntel ∨ cfg.mode ≠ .lazy then .ret (.error e) else getUncached env cfg q version

def getPckcertRequest (q : Validate.PckcertQuery) (version : Nat) : Attempt PckCertRecord :=
  (act (.hasPlatform q.qeid q.pceid)).bind fun known =>
    if known then
      (act (.getPckcert q.qeid q.cpusvn q.pcesvn q.pceid)).bind fun
        | some rec => .ret (.ok rec)
        | none => getKnown env cfg q version
    else getUncached env cfg q version

/-- Is the registration already served? A request without a manifest takes the
stored one. -/
def isCached (p : RegisteredPlatform) : Action (Bool × RegisteredPlatform) :=
  (act (.getPlatformPool p.qeId p.pceId)).bind fun
    | none => .ret (false, p)
    | some platform =>
      if p.platformManifest = "" then
        (act (.getPckcert p.qeId p.cpuSvn p.pceSvn p.pceId)).bind fun rec =>
          .ret (rec.isSome, { p with platformManifest := platform.platformManifest })
      else .ret (decide (platform.platformManifest = p.platformManifest), p)

def fillRegistered (p : RegisteredPlatform) (expected : Option PlatformCredentials) :
    Attempt (Option PckCertRecord) :=
  fillPckcert env cfg p.qeId p.cpuSvn p.pceSvn p.pceId
    ⟨p.encPpid, p.platformManifest, expected, false⟩

/-- Whatever verification collateral is missing and can be had. -/
def fillQvCollateral (update : UpdateType) : Action Unit :=
  if cfg.enabled = false then .ret ()
  else
    let updates := match update with
      | .all => [UpdateType.standard, UpdateType.early]
      | other => [other]
    (collect (fun ca => (act (.getPckcrl ca)).bind fun
      | some _ => .ret ()
      | none => (fetchPckcrl cfg ca).bind fun
        | .ok r => if cacheable r.issuerChain then act (.put (putPckcrl env r)) else .ret ()
        | .error _ => .ret ()) ["PROCESSOR", "PLATFORM"]).bind fun _ =>
    (collect (fun w : Nat × UpdateType => (act (.getIdentity w.1 cfg.pcsVersion w.2)).bind fun
      | some _ => .ret ()
      | none => (fetchIdentity env cfg w.1 cfg.pcsVersion w.2).bind fun
        | .ok r => if cacheable r.issuerChain then act (.put (putIdentity env r)) else .ret ()
        | .error _ => .ret ())
      ([1, 2, 3].flatMap fun id => updates.map fun u => (id, u))).bind fun _ =>
    (act .getRootcacrl).bind fun
      | some _ => .ret ()
      | none => (fetchRootcacrl cfg).bind fun
        | .ok r => act (.put (putRootcacrl r))
        | .error _ => .ret ()

/-- The part of a registration after the cache status is known. -/
def registerUncached (p : RegisteredPlatform) (expected : Option PlatformCredentials) :
    Attempt Unit :=
  let queued := { p with state := platfRegNew }
  match cfg.mode with
  | .offline => (act (.put (registerPlatform env queued))).bind fun _ => .ret (.ok ())
  | .req =>
    (act (.put (registerPlatform env queued))).bind fun _ =>
      (fillRegistered env cfg p expected).andThen fun _ =>
        (act (.put (deleteRegistered env queued))).bind fun _ => .ret (.ok ())
  | .lazy => (fillRegistered env cfg p expected).andThen fun _ => .ret (.ok ())

def registerPlatformRequest (p : RegisteredPlatform) (update : UpdateType) : Attempt Unit :=
  (act (.getPlatformPool p.qeId p.pceId)).bind fun current =>
    (isCached p).bind fun (cached, p) =>
      (if cached then .ret (.ok ())
        else registerUncached env cfg p (current.map PlatformPool.credentials)).andThen fun _ =>
        if cfg.mode = .offline then .ret (.ok ())
        else (fillQvCollateral env cfg update).bind fun _ => .ret (.ok ())

end Requests

section Refreshes

variable (env : Env) (cfg : Config)

/-- A failure under another error. -/
def mapErr {α : Type} (p : Attempt α) (e : PccsError) : Attempt α :=
  p.bind fun r => .ret (r.mapError fun _ => e)

def refreshPckcrl (rec : PckCrlRecord) : Attempt Unit :=
  (mapErr (fetchPckcrl cfg rec.ca) serviceUnavailable).andThen fun fresh =>
    if cacheable fresh.issuerChain then
      (act (.put (putPckcrl env fresh))).bind fun _ => .ret (.ok ())
    else .ret (.ok ())

def refreshTcb (rec : TcbRecord) : Attempt Unit :=
  if rec.version = 3 then .ret (.ok ())
  else
    let update := if eqIgnoreAsciiCase rec.updateType "EARLY" then .early else .standard
    (mapErr (fetchTcb env cfg rec.prodType rec.fmspc rec.version update)
      serviceUnavailable).andThen fun fresh =>
      if cacheable fresh.issuerChain then
        (act (.put (putTcb env fresh))).bind fun _ => .ret (.ok ())
      else .ret (.ok ())

def refreshIdentity (w : Nat × UpdateType) : Attempt Unit :=
  (fetchIdentity env cfg w.1 4 w.2).bind fun
    | .ok fresh =>
      if cacheable fresh.issuerChain then
        (act (.put (putIdentity env fresh))).bind fun _ => .ret (.ok ())
      else .ret (.ok ())
    | .error _ => .ret (.ok ())

/-- A cached root CA CRL must be refreshable. -/
def refreshRootcacrl : Attempt Unit :=
  (act .getRootcacrl).bind fun had =>
    (fetchRootcacrl cfg).bind fun
      | .ok fresh => (act (.put (putRootcacrl fresh))).bind fun _ => .ret (.ok ())
      | .error _ => .ret (if had.isSome then .error internalError else .ok ())

def refreshCrl (rec : CrlRecord) : Attempt Unit :=
  if Validate.isValidCrlUri rec.uri then
    (fetchCrl cfg rec.uri).andThen fun fresh =>
      (act (.put (putCrl env rec.uri fresh))).bind fun _ => .ret (.ok ())
  else .ret (.ok ())

def refreshedIdentities : List (Nat × UpdateType) :=
  if cfg.pcsVersion ≥ 4 then
    [1, 2, 3].flatMap fun id => [UpdateType.standard, .early].map fun u => (id, u)
  else []

def refreshCollateral : Attempt Unit :=
  if cfg.enabled = false then .ret (.ok ())
  else
    (act .listPckcrls).bind fun crls => (each (refreshPckcrl env cfg) crls).andThen fun _ =>
    (act .listTcbs).bind fun tcbs => (each (refreshTcb env cfg) tcbs).andThen fun _ =>
    (each (refreshIdentity env cfg) (refreshedIdentities cfg)).andThen fun _ =>
    (refreshRootcacrl cfg).andThen fun _ =>
    (act .listCrls).bind fun crls => each (refreshCrl env cfg) crls

/-- Fetch the pool of one platform again with its own credential. Only the early
SGX document is fetched, and it is not stored. -/
def refreshPlatformPool (pool : PlatformPool) : Attempt Unit :=
  (mapErr (fetchPool env cfg pool.encPpid pool.platformManifest pool.pceId) noCacheData).andThen
    fun resp =>
      (validatePool env cfg pool.qeId pool.pceId pool.encPpid pool.platformManifest resp).andThen
        fun fresh => (fetchTcb env cfg 0 fresh.fmspc cfg.pcsVersion .early).andThen fun tcb =>
          act (.publishRefreshed fresh pool.credentials tcb)

/-- One level of a platform whose mirror has no pool endpoint. -/
def refreshLevel (pool : PlatformPool) (raw : RawTcb) : Attempt Unit :=
  (fetchPckcertPccs cfg pool.qeId raw.cpuSvn raw.pceSvn pool.pceId (some pool.encPpid)).bind fun
    | .ok fresh =>
      if cacheable fresh.issuerChain then
        act (.mergePckcert fresh (.observed (some pool.credentials)))
      else .ret (.ok ())
    | .error _ => .ret (.ok ())

def refreshPool (pool : PlatformPool) : Attempt Unit :=
  if cfg.isIntel ∨ pool.platformManifest ≠ "" then refreshPlatformPool env cfg pool
  else each (refreshLevel cfg pool) pool.rawTcbs

/-- The admin refresh of the certificates of one FMSPC stops at its first
failure. -/
def refreshCerts (fmspc : String) : Attempt Unit :=
  if cfg.enabled = false ∨ cfg.pcsVersion = 3 then .ret (.ok ())
  else (act .listPlatformPools).bind fun pools =>
    each (refreshPool env cfg) (pools.filter fun pool => eqIgnoreAsciiCase pool.fmspc fmspc)

/-- The run of an admin refresh. -/
def refreshRequest (typ fmspc : Option String) : Attempt Unit :=
  (settled (Refresh.refreshTarget cfg.mode typ fmspc)).andThen fun _ =>
    match typ with
    | some _ => (settled (Validate.fmspc fmspc)).andThen (refreshCerts env cfg)
    | none => refreshCollateral env cfg

/-- Start a task for each platform that has a stored credential and was not
re-fetched just now. -/
def refreshPlatformPools : Action Unit :=
  if cfg.scheduledPoolRefresh ∧ cfg.mode = .lazy ∧ cfg.isIntel ∧ cfg.enabled ∧ cfg.pcsVersion ≠ 3 then
    (act .listPlatformPools).bind fun pools => (act .refetchedRecently).bind fun recently =>
      (collect (fun pool => act (.spawnRefresh pool)) (pools.filter fun pool =>
        hasStoredCredential pool && !recently.contains (platformKey pool.qeId pool.pceId))).bind
        fun _ => .ret ()
  else .ret ()

/-- Expired records go in every mode. The pools are swept even when the
collateral failed. -/
def scheduledRefresh : Attempt Unit :=
  (act .unixTime).bind fun now => (act (.sweepExpired now)).bind fun _ =>
    if cfg.mode = .offline then .ret (.error serviceUnavailable)
    else (refreshCollateral env cfg).bind fun collateral =>
      (refreshPlatformPools cfg).bind fun _ => .ret collateral

/-- `PUT /platformcollateral`: one write per document, then one batch. -/
def putPlatformCollateralRequest (body : Value) (version : Nat) : Attempt Unit :=
  (settled (Validate.platformCollateral body version)).andThen fun _ =>
    (collect (fun w => act (.put w)) (Collateral.documentWrites env body version)).bind fun _ =>
      act (.putPlatforms body version)

end Refreshes

section Exchanges

variable {env : Env} {cfg : Config} {P : Op → Prop}

theorem only_get {f : Fetch} (h : P (.fetch f)) : Only P (get cfg f) := by
  unfold get
  split
  · exact only_call h
  · trivial

/-- Fetch and parse. -/
theorem only_parsed {α : Type} {f : Fetch} (h : P (.fetch f))
    (parse : HttpResponse → Except PccsError α) :
    Only P ((get cfg f).andThen fun r => settled (parse r)) :=
  only_andThen (only_get h) fun _ => trivial

theorem only_fetchTcb {prodType version : Nat} {fmspc : String} {update : UpdateType}
    (h : P (.fetch (.tcb prodType fmspc version update))) :
    Only P (fetchTcb env cfg prodType fmspc version update) := by
  unfold fetchTcb
  split
  · trivial
  · exact only_parsed h _

theorem only_fetchIdentity {enclaveId version : Nat} {update : UpdateType}
    (h : P (.fetch (.identity enclaveId version update))) :
    Only P (fetchIdentity env cfg enclaveId version update) := by
  unfold fetchIdentity
  split
  · trivial
  · exact only_parsed h _

theorem only_fetchCrl {uri : String} (h : P (.fetch (.crl uri))) : Only P (fetchCrl cfg uri) :=
  only_andThen (p := settled (checkV3 uri)) trivial fun _ => only_parsed h _

variable (hP : ∀ f, P (.fetch f))

include hP

theorem only_fetchPool (encPpid platformManifest pceid : String) :
    Only P (fetchPool env cfg encPpid platformManifest pceid) := by
  unfold fetchPool
  split
  · unfold fetchPckcertsIntel
    split
    · trivial
    · exact only_parsed (hP _) _
  · exact only_parsed (hP _) _

theorem only_fetchTcbInfos (fmspc : String) : Only P (fetchTcbInfos env cfg fmspc) := by
  refine only_bind (only_collect (fun w => ?_) _) fun _ => trivial
  exact only_bind (only_fetchTcb (hP _)) fun _ => trivial

end Exchanges

section Counts

variable {env : Env} {cfg : Config} {P : Op → Bool}

theorem atMost_parsed {α : Type} (f : Fetch) (parse : HttpResponse → Except PccsError α) :
    AtMost P 1 ((get cfg f).andThen fun r => settled (parse r)) := by
  have hget : AtMost P 1 (get cfg f) := by
    unfold get
    split
    · exact atMost_call _
    · exact atMost_ret 1 _
  exact atMost_andThen hget fun _ => atMost_ret 0 _

theorem atMost_fetchPool (encPpid platformManifest pceid : String) :
    AtMost P 1 (fetchPool env cfg encPpid platformManifest pceid) := by
  unfold fetchPool
  split
  · unfold fetchPckcertsIntel
    split
    · exact atMost_ret 1 _
    · exact atMost_parsed _ _
  · exact atMost_parsed _ _

theorem atMost_fetchTcb (prodType : Nat) (fmspc : String) (version : Nat) (update : UpdateType) :
    AtMost P 1 (fetchTcb env cfg prodType fmspc version update) := by
  unfold fetchTcb
  split
  · exact atMost_ret 1 _
  · exact atMost_parsed _ _

end Counts

/-- Only REQ mode queues the levels an answer leaves out. -/
theorem validatePool_lazy {env : Env} {cfg : Config} (hmode : cfg.mode = .lazy)
    (qeid pceid encPpid platformManifest : String) (resp : PckCertsResponse) :
    validatePool env cfg qeid pceid encPpid platformManifest resp =
      settled (pckcertPool qeid pceid encPpid platformManifest resp) := by
  have hnone : ¬ cfg.mode = .req := by
    rw [hmode]
    exact nofun
  rw [validatePool, processNotAvailable, if_neg hnone]
  rfl

end Pccs.Cache
