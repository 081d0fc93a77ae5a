import Pccs.Appraisal
import Pccs.Lookups
import Pccs.Service

/-!
# The handlers

A handler takes its parameters apart, asks the cache or the store, and makes a
response of what they say. A request is served by the plan of the application and,
if that leaves it to a route, by the handler of the route; all jobs of the process
run side by side over one store.
-/
namespace Pccs.Service

open Text Encoding Json Fallible PccsError Http Process Store

/-- Besides those of the cache: operations the handlers do on the store, and what they
learn of the process. -/
inductive Op where
  | cache (o : Cache.Op)
  | takeRegistered (state : Nat)
  | cachedPlatformsByFmspc (fmspcs : List String)
  | putAppraisalPolicy (body : Value)
  | getDefaultPolicies (fmspc : String)
  | isHealthy
  | isStarted
  | timestamp
  | latency

/-- A row of `GET /platforms?source=[fmspc]`. -/
structure PlatformRecord where
  qeId : String
  pceId : String
  cpuSvn : String
  pceSvn : String
  encPpid : String
  platformManifest : String

abbrev Op.Res : Op → Type
  | .cache o => o.Res
  | .takeRegistered _ => List RegisteredPlatform
  | .cachedPlatformsByFmspc _ => List PlatformRecord
  | .putAppraisalPolicy _ => Except PccsError String
  | .getDefaultPolicies _ => Except PccsError String
  | .isHealthy => Bool
  | .isStarted => Bool
  | .timestamp => String
  | .latency => String

/-- One row for each level of a pool. -/
def cachedPlatformsByFmspc (db : Database) (fmspcs : List String) : List PlatformRecord :=
  (listPlatformPools db).flatMap fun pool =>
    if fmspcs ≠ [] ∧ fmspcs.all (fun f => !eqIgnoreAsciiCase f pool.fmspc) then []
    else pool.rawTcbs.map fun raw =>
      ⟨pool.qeId, pool.pceId, raw.cpuSvn, raw.pceSvn, pool.encPpid, pool.platformManifest⟩

def perform (env : Env) (cfg : Cache.Config) (s : Database) : (o : Op) → o.Res → Database → Prop
  | .cache o, r, s' => Cache.perform env cfg s o r s'
  | .takeRegistered state, r, s' =>
    r = (takeRegistered s state).1 ∧ s' = KeyValue.write s (takeRegistered s state).2
  | .cachedPlatformsByFmspc fmspcs, r, s' => r = cachedPlatformsByFmspc s fmspcs ∧ s' = s
  | .putAppraisalPolicy body, r, s' => (r, s') = commit s (Appraisal.putAppraisalPolicy env s body)
  | .getDefaultPolicies fmspc, r, s' => r = Appraisal.getDefaultPolicies env s fmspc ∧ s' = s
  | .isHealthy, _, s' => s' = s
  | .isStarted, _, s' => s' = s
  | .timestamp, _, s' => s' = s
  | .latency, _, s' => s' = s

abbrev Action (α : Type) : Type := Proc Op Op.Res α

abbrev Attempt (α : Type) : Type := Action (Except PccsError α)

def act (o : Op) : Action o.Res := call o

/-- A check that cannot await. -/
def settled {α : Type} (r : Except PccsError α) : Attempt α := .ret r

/-- What the cache does, among the other operations. -/
def lift {α : Type} : Cache.Action α → Action α
  | .ret a => .ret a
  | .op o k => .op (.cache o) fun r => lift (k r)

section Extractors

variable (env : Env) (lib : Library) (state : AppState)

/-- `PccsBytes`. -/
def pccsBytes (q : Request) : Except PccsError (List UInt8) :=
  if state.maxBodySize < q.received.length then .error contentTooLarge
  else match q.ending with
    | .complete => .ok q.received
    | .stalled => .error requestTimeout
    | .broken => .error invalidReq

/-- `PccsJson`: the media type comes before the body. -/
def pccsJson (q : Request) : Except PccsError Value := do
  reject (lib.jsonContentType q = false) invalidReq
  let body ← pccsBytes state q
  require (env.fromSlice body) invalidReq

/-- `PccsQuery` and `first`. -/
def pccsQuery (q : Request) : Except PccsError (String → Option String) := do
  let params ← Query.queryParams q.query
  return fun key => params.lookup key

def version (q : Request) : Except PccsError Nat := Validate.apiVersionFromUrl q.path.toList

def originalPathAndQuery (q : Request) : String :=
  match q.query with
  | some query => q.path ++ "?" ++ query
  | none => q.path

end Extractors

section Responses

def contentTypePem : String := "application/x-pem-file"
def contentTypeJson : String := "application/json"
def contentTypeJsonUtf8 : String := "application/json; charset=utf-8"
def contentTypeCrl : String := "application/pkix-crl"

/-- A text or bytes, labelled by the library before the headers are put in. -/
def text (body : String) : Response :=
  ⟨200, [("content-type", "text/plain; charset=utf-8")], asBytes body⟩

def bytes (status : Nat) (body : List UInt8) : Response :=
  ⟨status, [("content-type", "application/octet-stream")], body⟩

def insertSome (r : Response) (name : String) : Option String → Response
  | some value => insert r name value
  | none => r

def amdResponse (rec : Ocsp.AmdKdsResponse) : Response :=
  let status := if 100 ≤ rec.status ∧ rec.status < 1000 then rec.status else 502
  let r := insertSome (bytes status rec.body) "content-type" rec.contentType
  let r := insertSome r "content-disposition" rec.contentDisposition
  insertSome r "retry-after" rec.retryAfter

variable (env : Env)

def jsonValue (r : Response) (value : Value) (rawBody : String) : Response :=
  { r.insert "content-type" contentTypeJson with
    body := asBytes (if rawBody = "" then env.rawJson value else rawBody) }

def pckcertResponse (rec : PckCertRecord) : Response :=
  let r := insert (text rec.cert) "sgx-tcbm" rec.tcbm
  let r := insert r "sgx-fmspc" rec.fmspc
  let r := insert r "sgx-pck-certificate-ca-type" rec.ca
  let r := insert r "sgx-pck-certificate-issuer-chain" rec.issuerChain
  r.insert "content-type" contentTypePem

def pckcrlResponse (encoding : Option String) (rec : PckCrlRecord) : Response :=
  if encoding.any fun e => eqIgnoreAsciiCase e "DER" then
    (insert (bytes 200 rec.pckcrl) "sgx-pck-crl-issuer-chain" rec.issuerChain).insert
      "content-type" contentTypeCrl
  else
    (insert (text (hexEncode rec.pckcrl)) "sgx-pck-crl-issuer-chain" rec.issuerChain).insert
      "content-type" contentTypePem

def tcbIssuerChainName (version : Nat) : String :=
  if version = 3 then "sgx-tcb-info-issuer-chain" else "tcb-info-issuer-chain"

def tcbResponse (version : Nat) (rec : TcbRecord) : Response :=
  jsonValue env (insert (bytes 200 []) (tcbIssuerChainName version) rec.issuerChain) rec.tcbinfo
    rec.rawBody

def identityResponse (rec : IdentityRecord) : Response :=
  jsonValue env (insert (bytes 200 []) "sgx-enclave-identity-issuer-chain" rec.issuerChain) rec.identity
    rec.rawBody

def registeredJson (p : RegisteredPlatform) : Value :=
  .object [("qe_id", .string p.qeId), ("pce_id", .string p.pceId), ("cpu_svn", .string p.cpuSvn),
    ("pce_svn", .string p.pceSvn), ("enc_ppid", .string p.encPpid),
    ("platform_manifest", .string p.platformManifest), ("state", .posInt (UInt64.ofNat p.state))]

def platformJson (p : PlatformRecord) : Value :=
  .object [("qe_id", .string p.qeId), ("pce_id", .string p.pceId), ("cpu_svn", .string p.cpuSvn),
    ("pce_svn", .string p.pceSvn), ("enc_ppid", .string p.encPpid),
    ("platform_manifest", .string p.platformManifest)]

def platformsResponse (platforms : List Value) : Response :=
  (insert (bytes 200 (asBytes (env.rawJson (.array platforms)))) "platform-count"
    (toString platforms.length)).insert "content-type" contentTypeJsonUtf8

def jsonResponse (status : Nat) (value : Value) : Response :=
  (bytes status (asBytes (env.rawJson value))).insert "content-type" contentTypeJson

end Responses

section Handlers

variable (env : Env) (chrono : Ocsp.Chrono) (lib : Library) (state : AppState)

/-- An operation of the cache. -/
def ask (q : Cache.Request) : Action q.Reply := lift (q.body env chrono state.cache)

def getPckcert (q : Request) : Attempt Response :=
  (settled do
    let params ← pccsQuery q
    let version ← version q
    let query ← Validate.pckcertQuery params
    return (query, version)).andThen fun (query, version) =>
  (ask env chrono state (.getPckcert query version)).andThen fun rec =>
  settled (.ok (pckcertResponse rec))

def getPckcrl (q : Request) : Attempt Response :=
  (settled do
    let params ← pccsQuery q
    let version ← version q
    let ca ← Validate.pckCa (params "ca")
    return (params "encoding", ca, version)).andThen fun (encoding, ca, version) =>
  (ask env chrono state (.getPckcrl ca version)).andThen fun rec =>
  settled (.ok (pckcrlResponse encoding rec))

def getTcb (prodType : Nat) (q : Request) : Attempt Response :=
  (settled do
    let params ← pccsQuery q
    let version ← version q
    let fmspc ← Validate.fmspc (params "fmspc")
    let update ← Validate.updateType (params "update") false
    return (fmspc, version, update)).andThen fun (fmspc, version, update) =>
  (ask env chrono state (.getTcb prodType fmspc version update)).andThen fun rec =>
  settled (.ok (tcbResponse env version rec))

def getIdentity (enclaveId : Nat) (q : Request) : Attempt Response :=
  (settled do
    let params ← pccsQuery q
    let version ← version q
    let update ← Validate.updateType (params "update") false
    return (version, update)).andThen fun (version, update) =>
  (ask env chrono state (.getIdentity enclaveId version update)).andThen fun rec =>
  settled (.ok (identityResponse env rec))

def getRootcacrl (q : Request) : Attempt Response :=
  (settled (version q)).andThen fun version =>
  (ask env chrono state (.getRootcacrl version)).andThen fun crl =>
  settled (.ok ((text (hexEncode crl)).insert "content-type" contentTypeCrl))

def getCrl (q : Request) : Attempt Response :=
  (settled do
    let params ← pccsQuery q
    let version ← version q
    let uri ← require (params "uri") invalidReq
    reject (Validate.isValidCrlUri uri = false) invalidReq
    return (uri, version)).andThen fun (uri, version) =>
  (ask env chrono state (.getCrl uri version)).andThen fun crl =>
  settled (.ok ((bytes 200 crl).insert "content-type" contentTypeCrl))

def getAmdKds (q : Request) : Attempt Response :=
  (ask env chrono state (.getAmdKds (originalPathAndQuery q))).andThen fun rec =>
  settled (.ok (amdResponse rec))

def getNvidiaRim (q : Request) : Attempt Response :=
  (ask env chrono state (.getNvidiaRim (originalPathAndQuery q))).andThen fun rec =>
  settled (.ok (amdResponse rec))

def ocspMedia (q : Request) : String :=
  let contentType := ((q.headerText "content-type").getD "").toList
  String.ofList (Retry.trim (contentType.takeWhile (· ≠ ';')))

def postNvidiaOcsp (q : Request) : Attempt Response :=
  (settled do
    let body ← pccsBytes state q
    reject (eqIgnoreAsciiCase (ocspMedia q) "application/ocsp-request" = false) invalidReq
    reject (body = []) invalidReq
    return body).andThen fun body =>
  (ask env chrono state (.getNvidiaOcsp body)).andThen fun rec =>
  settled (.ok (amdResponse rec))

def postNvidiaNrasAttestGpu (q : Request) : Attempt Response :=
  (settled (pccsJson env lib state q)).andThen fun body =>
  (ask env chrono state (.getNvidiaNras body)).andThen fun rec =>
  settled (.ok (amdResponse rec))

def postPlatforms (q : Request) : Attempt Response :=
  (settled do
    let params ← pccsQuery q
    let body ← pccsJson env lib state q
    let update ← Validate.updateType (params "update") true
    let reg ← Validate.platformReg body
    return (reg, update)).andThen fun (reg, update) =>
  (ask env chrono state (.registerPlatform ⟨reg.qeId, reg.pceId, reg.cpuSvn, reg.pceSvn,
    reg.encPpid, reg.platformManifest, 0⟩ update)).andThen fun _ =>
  settled (.ok successResponse)

def getPlatforms (q : Request) : Attempt Response :=
  (settled do
    let params ← pccsQuery q
    Validate.platformsSource (params "source")).andThen fun
  | .reg => (act (.takeRegistered 0)).bind fun list =>
      settled (.ok (platformsResponse env (list.map registeredJson)))
  | .regNa => (act (.takeRegistered 1)).bind fun list =>
      settled (.ok (platformsResponse env (list.map registeredJson)))
  | .fmspc fmspcs => (act (.cachedPlatformsByFmspc fmspcs)).bind fun list =>
      settled (.ok (platformsResponse env (list.map platformJson)))

def putPlatformCollateral (q : Request) : Attempt Response :=
  (settled do
    let body ← pccsJson env lib state q
    let version ← version q
    return (body, version)).andThen fun (body, version) =>
  (ask env chrono state (.putPlatformCollateral body version)).andThen fun _ =>
  settled (.ok successResponse)

def refresh (q : Request) : Attempt Response :=
  (settled (pccsQuery q)).andThen fun params =>
  (ask env chrono state (.refresh (params "type") (params "fmspc"))).andThen fun _ =>
  settled (.ok successResponse)

def putAppraisalPolicy (q : Request) : Attempt Response :=
  (settled (pccsJson env lib state q)).andThen fun body =>
  (act (.putAppraisalPolicy body)).andThen fun id =>
  settled (.ok (textHtml 200 id))

def getAppraisalPolicy (q : Request) : Attempt Response :=
  (settled do
    let params ← pccsQuery q
    Validate.fmspc (params "fmspc")).andThen fun fmspc =>
  (act (.getDefaultPolicies fmspc)).andThen fun policies =>
  settled (.ok (textHtml 200 policies))

def liveness : Attempt Response :=
  (act .timestamp).bind fun now =>
  settled (.ok (jsonResponse env 200 (.object [("status", .string "UP"), ("timestamp", .string now)])))

def readiness : Attempt Response :=
  (act .timestamp).bind fun now => (act .isHealthy).bind fun dbOk => (act .latency).bind fun ms =>
  settled (.ok (if dbOk then
      jsonResponse env 200 (.object [("status", .string "UP"), ("db", .string "CONNECTED"),
        ("latency", .string (ms ++ "ms")), ("timestamp", .string now)])
    else
      jsonResponse env 503 (.object [("status", .string "DOWN"), ("db", .string "DISCONNECTED"),
        ("timestamp", .string now)])))

def startup : Attempt Response :=
  (act .timestamp).bind fun now => (act .isStarted).bind fun started =>
  settled (.ok (if started then
      jsonResponse env 200 (.object [("status", .string "STARTED"), ("timestamp", .string now)])
    else
      jsonResponse env 503 (.object [("status", .string "STARTING"), ("timestamp", .string now)])))

def handler : Endpoint → Request → Attempt Response
  | .getPlatforms, q => getPlatforms env q
  | .postPlatforms, q => postPlatforms env chrono lib state q
  | .putPlatformCollateral, q => putPlatformCollateral env chrono lib state q
  | .refresh, q => refresh env chrono state q
  | .putAppraisalPolicy, q => putAppraisalPolicy env lib state q
  | .getAppraisalPolicy, q => getAppraisalPolicy q
  | .getPckcert, q => getPckcert env chrono state q
  | .getPckcrl, q => getPckcrl env chrono state q
  | .getTcb prodType, q => getTcb env chrono state prodType q
  | .getIdentity enclaveId, q => getIdentity env chrono state enclaveId q
  | .getRootcacrl, q => getRootcacrl env chrono state q
  | .getCrl, q => getCrl env chrono state q
  | .getAmdKds, q => getAmdKds env chrono state q
  | .getNvidiaRim, q => getNvidiaRim env chrono state q
  | .postNvidiaOcsp, q => postNvidiaOcsp env chrono state q
  | .postNvidiaNrasAttestGpu, q => postNvidiaNrasAttestGpu env chrono lib state q
  | .liveness, _ => liveness env
  | .readiness, _ => readiness env
  | .startup, _ => startup env

end Handlers

section System

variable (env : Env) (chrono : Ocsp.Chrono) (lib : Library) (state : AppState)

/-- The response of a handler; a HEAD request gets no body. -/
def answered (q : Request) (result : Except PccsError Response) : Response :=
  let r := match result with
    | .ok r => r
    | .error e => intoResponse e
  if q.method = .head then { r with body := [] } else r

/-- One request, with its fresh id and the text of its timing. -/
def serve (q : Request) (id timing : String) : Action Response :=
  match createApp lib state id timing q with
  | .answer r => .ret r
  | .target route after => (handler env chrono lib state route.endpoint q).bind fun result =>
      .ret (after (answered q result))

/-- The jobs of the process. -/
inductive Job where
  | http (q : Request) (id timing : String)
  | scheduledRefresh
  | refreshPool (pool : PlatformPool)

abbrev Job.Reply : Job → Type
  | .http _ _ _ => Response
  | .scheduledRefresh => Except PccsError Unit
  | .refreshPool _ => Except PccsError Unit

def Job.body : (j : Job) → Action j.Reply
  | .http q id timing => serve env chrono lib state q id timing
  | .scheduledRefresh => ask env chrono state .scheduledRefresh
  | .refreshPool pool => ask env chrono state (.refreshPool pool)

/-- Clients ask over HTTP, the scheduler by itself. -/
def Job.Asked : Job → Prop
  | .refreshPool _ => False
  | _ => True

def forks : Op → List Job
  | .cache (.spawnRefresh pool) => [.refreshPool pool]
  | _ => []

def service (accepts : Job → Prop) : System Op Op.Res Database Job where
  perform := perform env state.cache
  accepts := accepts
  Reply := Job.Reply
  body := Job.body env chrono lib state
  forks := forks

end System

end Pccs.Service
