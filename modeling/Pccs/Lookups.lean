import Pccs.Cache

/-!
# The read-through lookups

A lookup answers from the store. Only in LAZY mode does a miss go on: it waits
for the lock of its key, looks again, and asks the upstream; a failure is kept
for a moment for those that wait behind it. Every lookup carries its own gates.
-/
namespace Pccs.Cache

open Text Encoding Json Fallible KeyValue PccsError Store Process Ocsp

def amdKdsAccessFailure : PccsError :=
  ⟨502, "Unable to retrieve the collateral from the AMD KDS."⟩

def nvidiaRimAccessFailure : PccsError :=
  ⟨502, "Unable to retrieve the collateral from the NVIDIA RIM service."⟩

def nvidiaNrasAccessFailure : PccsError :=
  ⟨502, "Unable to retrieve the attestation result from the NVIDIA NRAS."⟩

section Intel

variable (env : Env) (cfg : Config)

def missV3 (version : Nat) : PccsError :=
  if version = 3 ∧ cfg.mode = .lazy then pcsV3ReachedEol else noCacheData

/-- The part of a lookup under the lock of its key. -/
def lookupLocked {α : Type} (key : List UInt8) (load : Action (Option α)) (fetch : Attempt α)
    (store : α → Action Unit) : Attempt α :=
  (act (.keyLock key)).andThen fun _ => load.bind fun
    | some rec => .ret (.ok rec)
    | none => (note key fetch).andThen fun rec =>
      (store rec).bind fun _ => .ret (.ok rec)

/-- The lookup of an Intel document that only the current API serves. -/
def lookupDocument {α : Type} (version : Nat) (key : List UInt8) (load : Action (Option α))
    (fetch : Attempt α) (store : α → Action Unit) : Attempt α :=
  load.bind fun
    | some rec => .ret (.ok rec)
    | none =>
      if cfg.mode ≠ .lazy then .ret (.error (missV3 cfg version))
      else if version = 3 then .ret (.error pcsV3ReachedEol)
      else if cfg.enabled = false then .ret (.error noCacheData)
      else lookupLocked key load fetch store

/-- A document without an issuer chain is served and not kept. -/
def putIfCacheable (issuerChain : String) (w : Write UInt8 Row) : Action Unit :=
  if cacheable issuerChain then act (.put w) else .ret ()

def getTcbRequest (prodType : Nat) (fmspc : String) (version : Nat) (update : UpdateType) :
    Attempt TcbRecord :=
  lookupDocument cfg version (Keys.tcb env (Keys.prodName prodType) version fmspc update.asStr)
    (act (.getTcb prodType fmspc version update)) (fetchTcb env cfg prodType fmspc version update)
    fun rec => putIfCacheable rec.issuerChain (putTcb env rec)

def getIdentityRequest (enclaveId version : Nat) (update : UpdateType) : Attempt IdentityRecord :=
  lookupDocument cfg version
    (Keys.identity env (Keys.identityName enclaveId) version update.asStr)
    (act (.getIdentity enclaveId version update)) (fetchIdentity env cfg enclaveId version update)
    fun rec => putIfCacheable rec.issuerChain (putIdentity env rec)

def getPckcrlRequest (ca : String) (version : Nat) : Attempt PckCrlRecord :=
  lookupDocument cfg version (Keys.pckcrl env ca) (act (.getPckcrl ca)) (fetchPckcrl cfg ca)
    fun rec => putIfCacheable rec.issuerChain (putPckcrl env rec)

def getRootcacrlRequest (version : Nat) : Attempt (List UInt8) :=
  lookupDocument cfg version Keys.rootcacrl (act .getRootcacrl) (fetchRootcacrl cfg)
    fun rec => act (.put (putRootcacrl rec))

/-- A CRL is not tied to an API version. -/
def getCrlRequest (uri : String) (version : Nat) : Attempt (List UInt8) :=
  (act (.getCrl uri)).bind fun
    | some rec => .ret (.ok rec)
    | none =>
      if cfg.mode ≠ .lazy then .ret (.error (missV3 cfg version))
      else if cfg.enabled = false then .ret (.error noCacheData)
      else lookupLocked (Keys.crl env uri) (act (.getCrl uri)) (fetchCrl cfg uri)
        fun rec => act (.put (putCrl env uri rec))

end Intel

section Proxied

variable (env : Env) (chrono : Chrono) (cfg : Config)

/-- A header as text, if it is there and printable. -/
def HttpResponse.header (r : HttpResponse) (name : String) : Option String :=
  (r.headers.find? fun h => eqIgnoreAsciiCase h.1 name).bind fun h =>
    if h.2.all visibleAscii then some (fromUtf8Lossy h.2) else none

def responseOf (rec : AmdKdsRecord) : AmdKdsResponse :=
  ⟨200, rec.body, rec.contentType, rec.contentDisposition, none⟩

/-- The store key of a kind named by its URL. -/
def urlKey (kind : Fifo.Kind) (url : String) : String := kind.name ++ env.hash128Hex (asBytes url)

def redirectOrInfo (status : Nat) : Bool :=
  (decide (100 ≤ status) && decide (status < 200)) || (decide (300 ≤ status) && decide (status < 400))

/-- What becomes of the answer for a URL: an access failure, a relayed status, or
a new record. -/
def settleUrl (kind : Fifo.Kind) (url : String) (key : List UInt8) (accessFailure : PccsError)
    (r : HttpResponse) : Attempt AmdKdsResponse :=
  let contentType := r.header "content-type"
  let contentDisposition := r.header "content-disposition"
  if redirectOrInfo r.status then note key (.ret (.error accessFailure))
  else if r.status ≠ 200 then
    let resp : AmdKdsResponse :=
      ⟨r.status, r.body, contentType, contentDisposition, r.header "retry-after"⟩
    (act (.rememberResponse key resp)).bind fun _ => .ret (.ok resp)
  else
    (act .unixTime).bind fun fetchedAt =>
      let record : AmdKdsRecord := ⟨url, r.body, contentType, contentDisposition, fetchedAt⟩
      (act (.saveUrl kind record)).bind fun _ => .ret (.ok (responseOf record))

/-- The part of a URL lookup after its key was found unfilled under the lock. -/
def fetchUrl (kind : Fifo.Kind) (url : String) (accessFailure : PccsError) :
    Attempt AmdKdsResponse :=
  let key := asBytes (urlKey env kind url)
  (note key ((act (.fetch (.url kind url))).bind fun r =>
    .ret (r.mapError fun _ => accessFailure))).andThen (settleUrl kind url key accessFailure)

def getCachedUrl (kind : Fifo.Kind) (url : String) (ttl : Nat) (accessFailure : PccsError) :
    Attempt AmdKdsResponse :=
  let key := urlKey env kind url
  let fresh (now : Nat) (rec : AmdKdsRecord) : Bool := decide (now - rec.fetchedAt < ttl)
  let locked : Attempt AmdKdsResponse :=
    if cfg.mode ≠ .lazy then .ret (.error noCacheData)
    else (act (.keyLock (asBytes key))).andThen fun _ =>
      (act (.recentNon200 (asBytes key))).bind fun
        | some resp => .ret (.ok resp)
        | none => (act .unixTime).bind fun now => (act (.loadUrl kind url)).bind fun
          | none => fetchUrl env kind url accessFailure
          | some rec =>
            if fresh now rec then .ret (.ok (responseOf rec))
            else (act (.deleteKey key)).bind fun _ => fetchUrl env kind url accessFailure
  (act .unixTime).bind fun now => (act (.loadUrl kind url)).bind fun
    | none => locked
    | some rec =>
      if fresh now rec then .ret (.ok (responseOf rec))
      else if cfg.mode ≠ .lazy then (act (.deleteKey key)).bind fun _ => locked
      else locked

def getAmdKdsRequest (pathAndQuery : String) : Attempt AmdKdsResponse :=
  (settled (Paths.canonicalizeAmdKds pathAndQuery)).andThen fun path =>
    getCachedUrl env cfg .amdKds (Paths.joinHostPath cfg.amdKdsUri path) cfg.amdKdsCacheTtlSecs
      amdKdsAccessFailure

def getNvidiaRimRequest (pathAndQuery : String) : Attempt AmdKdsResponse :=
  (settled (Paths.canonicalizeNvidiaRim pathAndQuery)).andThen fun path =>
    getCachedUrl env cfg .nvidiaRim (Paths.joinHostPath cfg.nvidiaRimUri path)
      cfg.nvidiaRimCacheTtlSecs nvidiaRimAccessFailure

def asUpstream (r : HttpResponse) : Ocsp.Upstream :=
  ⟨r.status, r.header "content-type", r.header "retry-after", r.body⟩

def postOcsp (body : List UInt8) : Attempt AmdKdsResponse :=
  if cfg.nvidiaOcspUri = "" then .ret (.error nvidiaOcspAccessFailure)
  else (act (.fetch (.ocsp body))).bind fun r =>
    settled (postNvidiaOcsp cfg.nvidiaOcspUri (r.toOption.map asUpstream))

/-- What becomes of a relayed OCSP answer. -/
def settleOcsp (cacheKey : String) (key : List UInt8) (resp : AmdKdsResponse) :
    Attempt AmdKdsResponse :=
  if resp.status ≠ 200 then
    (act (.rememberResponse key resp)).bind fun _ => .ret (.ok resp)
  else (act .unixTime).bind fun now =>
    match tryI64 now with
    | none => .ret (.error internalError)
    | some now =>
      match responseCacheExpiry chrono resp.body now cfg.nvidiaOcspMaxTtlSecs
        cfg.nvidiaOcspDefaultTtlSecs with
      | .error _ => .ret (.ok resp)
      | .ok expiresAt => (act .unixTime).bind fun fetchedAt =>
        (act (.putNvidiaOcsp ⟨cacheKey, resp.body, resp.contentType, fetchedAt, expiresAt⟩)).bind
          fun _ => .ret (.ok { resp with retryAfter := none })

def fetchOcsp (cacheKey : String) (body : List UInt8) : Attempt AmdKdsResponse :=
  let key := asBytes (storeKey cacheKey)
  (note key (postOcsp cfg body)).andThen (settleOcsp chrono cfg cacheKey key)

def getNvidiaOcspRequest (body : List UInt8) : Attempt AmdKdsResponse :=
  (settled (parseRequest env body)).andThen fun cacheKey =>
    let key := storeKey cacheKey
    let locked : Attempt AmdKdsResponse :=
      if cfg.mode ≠ .lazy then .ret (.error noCacheData)
      else (act (.keyLock (asBytes key))).andThen fun _ =>
        (act (.recentNon200 (asBytes key))).bind fun
          | some resp => .ret (.ok resp)
          | none => (act .unixTime).bind fun now => (act (.getNvidiaOcsp cacheKey)).bind fun
            | none => fetchOcsp chrono cfg cacheKey body
            | some rec =>
              if rec.expiresAt > now then .ret (.ok (served rec))
              else (act (.deleteKey key)).bind fun _ => fetchOcsp chrono cfg cacheKey body
    (act .unixTime).bind fun now => (act (.getNvidiaOcsp cacheKey)).bind fun
      | none => locked
      | some rec =>
        if rec.expiresAt > now then .ret (.ok (served rec))
        else if cfg.mode ≠ .lazy then (act (.deleteKey key)).bind fun _ => locked
        else locked

/-- The attestation proxy keeps nothing. -/
def getNvidiaNrasRequest (body : Value) : Attempt AmdKdsResponse :=
  if cfg.mode = .offline then .ret (.error serviceUnavailable)
  else if cfg.nvidiaNrasUri = "" then .ret (.error nvidiaNrasAccessFailure)
  else (act (.fetch (.nras (cfg.nvidiaNrasUri ++ "/v3/attest/gpu") (env.rawJson body)))).bind fun
    | .error _ => .ret (.error nvidiaNrasAccessFailure)
    | .ok r => .ret (.ok ⟨r.status, r.body, r.header "content-type", none, r.header "retry-after"⟩)

end Proxied

section Requests

/-- The operations of the cache, and the task a scheduled refresh starts for one
platform. -/
inductive Request where
  | getPckcert (q : Validate.PckcertQuery) (version : Nat)
  | getTcb (prodType : Nat) (fmspc : String) (version : Nat) (update : UpdateType)
  | getIdentity (enclaveId version : Nat) (update : UpdateType)
  | getPckcrl (ca : String) (version : Nat)
  | getRootcacrl (version : Nat)
  | getCrl (uri : String) (version : Nat)
  | getAmdKds (pathAndQuery : String)
  | getNvidiaRim (pathAndQuery : String)
  | getNvidiaOcsp (body : List UInt8)
  | getNvidiaNras (body : Value)
  | registerPlatform (p : RegisteredPlatform) (update : UpdateType)
  | refresh (typ fmspc : Option String)
  | scheduledRefresh
  | refreshPool (pool : PlatformPool)
  | putPlatformCollateral (body : Value) (version : Nat)

abbrev Request.Reply : Request → Type
  | .getPckcert _ _ => Except PccsError PckCertRecord
  | .getTcb _ _ _ _ => Except PccsError TcbRecord
  | .getIdentity _ _ _ => Except PccsError IdentityRecord
  | .getPckcrl _ _ => Except PccsError PckCrlRecord
  | .getRootcacrl _ => Except PccsError (List UInt8)
  | .getCrl _ _ => Except PccsError (List UInt8)
  | .getAmdKds _ => Except PccsError AmdKdsResponse
  | .getNvidiaRim _ => Except PccsError AmdKdsResponse
  | .getNvidiaOcsp _ => Except PccsError AmdKdsResponse
  | .getNvidiaNras _ => Except PccsError AmdKdsResponse
  | _ => Except PccsError Unit

variable (env : Env) (chrono : Chrono) (cfg : Config)

def Request.body : (q : Request) → Action q.Reply
  | .getPckcert q version => getPckcertRequest env cfg q version
  | .getTcb prodType fmspc version update => getTcbRequest env cfg prodType fmspc version update
  | .getIdentity enclaveId version update => getIdentityRequest env cfg enclaveId version update
  | .getPckcrl ca version => getPckcrlRequest env cfg ca version
  | .getRootcacrl version => getRootcacrlRequest cfg version
  | .getCrl uri version => getCrlRequest env cfg uri version
  | .getAmdKds pathAndQuery => getAmdKdsRequest env cfg pathAndQuery
  | .getNvidiaRim pathAndQuery => getNvidiaRimRequest env cfg pathAndQuery
  | .getNvidiaOcsp body => getNvidiaOcspRequest env chrono cfg body
  | .getNvidiaNras body => getNvidiaNrasRequest env cfg body
  | .registerPlatform p update => registerPlatformRequest env cfg p update
  | .refresh typ fmspc => refreshRequest env cfg typ fmspc
  | .scheduledRefresh => Cache.scheduledRefresh env cfg
  | .refreshPool pool => refreshPlatformPool env cfg pool
  | .putPlatformCollateral body version => putPlatformCollateralRequest env body version

/-- The tasks an operation starts. -/
def forks : Op → List Request
  | .spawnRefresh pool => [.refreshPool pool]
  | _ => []

/-- All operations, any number at a time, with what callers may ask for. -/
def cacheSystem (accepts : Request → Prop) : System Op Op.Res Database Request where
  perform := perform env cfg
  accepts := accepts
  Reply := Request.Reply
  body := Request.body env chrono cfg
  forks := forks

end Requests

end Pccs.Cache
