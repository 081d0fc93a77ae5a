import Pccs.Http
import Pccs.Permits
import Pccs.Query

/-!
# The HTTP service

`create_app` puts its layers around a table of routes. A layer on a nested router
runs only for the paths of that router, and a guard only for its own routes. What
the routing library answers by itself, and its media types, are parameters.
-/
namespace Pccs.Validate

open Text Fallible PccsError

def updateType (value : Option String) (canBeAll : Bool) : Except PccsError UpdateType :=
  let raw := toAsciiUppercase (value.getD "STANDARD")
  if raw = "STANDARD" then .ok .standard
  else if raw = "EARLY" then .ok .early
  else if raw = "ALL" ∧ canBeAll then .ok .all
  else .error (rejected ("Invalid update type : " ++ raw))

def pckCa (value : Option String) : Except PccsError String := do
  let ca := toAsciiUppercase (value.getD "")
  reject (ca ≠ "PROCESSOR" ∧ ca ≠ "PLATFORM") (rejected ("ca is not valid : " ++ ca))
  return ca

/-- A version segment at the start of the text. -/
def versionHere : List Char → Option Nat
  | '/' :: 'v' :: rest =>
    let digits := rest.takeWhile Char.isDigit
    if digits.head?.all (· == '0') then none
    else if (rest.dropWhile Char.isDigit).head? = some '/' then
      let ver := Retry.decimal digits
      if ver = 3 ∨ ver = 4 then some ver else none
    else none
  | _ => none

/-- The first version of the API that the path names. -/
def apiVersionFromUrl : List Char → Except PccsError Nat
  | [] => .error invalidReq
  | c :: rest =>
    match versionHere (c :: rest) with
    | some ver => .ok ver
    | none => apiVersionFromUrl rest

inductive PlatformsSource where
  | reg
  | regNa
  | fmspc (fmspcs : List String)

def trim (text : List Char) : List Char :=
  ((text.dropWhile Cache.isWhitespace).reverse.dropWhile Cache.isWhitespace).reverse

def platformsSource : Option String → Except PccsError PlatformsSource
  | none => .ok .reg
  | some "" => .ok .reg
  | some "reg" => .ok .reg
  | some "reg_na" => .ok .regNa
  | some raw =>
    let text := raw.toList
    if text.length < 2 ∨ text.head? ≠ some '[' ∨ text.getLast? ≠ some ']' then
      .error (rejected ("Invalid fmspc : " ++ raw))
    else
      let inner := trim (text.drop 1).dropLast
      if inner = [] then .ok (.fmspc [])
      else do
        let fmspcs ← (Paths.split ',' inner).mapM fun part => fmspc (some (String.ofList (trim part)))
        return .fmspc fmspcs

end Pccs.Validate

namespace Pccs.Service

open Text Encoding Fallible PccsError Http

section Errors

def unauthorized : PccsError := ⟨401, "Authentication failed."⟩

def contentTooLarge : PccsError := ⟨413, "Content too large."⟩

def requestTimeout : PccsError := ⟨408, "Request Timeout"⟩

/-- Express labels texts so. -/
def errorContentType : String := "text/html; charset=utf-8"

def textHtml (status : Nat) (body : String) : Response :=
  ⟨status, [("content-type", errorContentType)], asBytes body⟩

/-- `PccsError::into_response`. -/
def intoResponse (e : PccsError) : Response := textHtml e.status e.message

def successResponse : Response := textHtml 200 "Operation successful."

/-- `StatusCode::NOT_FOUND.into_response()`. -/
def notFound : Response := ⟨404, [], []⟩

end Errors

/-- How the body of a request ended. -/
inductive Ending where
  | complete
  | stalled
  | broken
deriving DecidableEq

structure Request where
  method : Method
  path : String
  query : Option String
  headers : List (String × List UInt8)
  /-- What came of the body within the time for it. -/
  received : List UInt8
  ending : Ending

/-- `HeaderMap::get`. -/
def Request.header (q : Request) (name : String) : Option (List UInt8) :=
  (q.headers.find? fun h => eqIgnoreAsciiCase h.1 name).map Prod.snd

/-- A header as text. -/
def Request.headerText (q : Request) (name : String) : Option String :=
  (q.header name).bind fun value => (Retry.toStr value).map String.ofList

/-- The routing library, the hash and the clock of a request. -/
structure Library where
  /-- `json_content_type`. -/
  jsonContentType : Request → Bool
  /-- A known path under another method. -/
  methodNotAllowed : Request → Response
  sha512 : List UInt8 → List UInt8

/-- What the application reads of its configuration. -/
structure AppState where
  cache : Cache.Config
  maxBodySize : Nat
  serverTiming : Bool
  userTokenHash : String
  adminTokenHash : String
  collateralCacheMaxAgeSecs : Option Nat

section Auth

variable (lib : Library)

def parseExpectedHash (hexHash : String) : Option (List UInt8) :=
  if byteLen hexHash = 128 ∧ (asBytes hexHash).all (fun b => (hexValue b).isSome) then
    hexDecode (asBytes hexHash)
  else none

def verifyToken (rawToken : Option String) (expectedHex : String) : Except PccsError Unit := do
  let expected ← require (parseExpectedHash expectedHex) unauthorized
  let token ← require (rawToken.filter (· ≠ "")) unauthorized
  reject (lib.sha512 (asBytes token) ≠ expected) unauthorized

inductive Guard where
  | user
  | admin
deriving DecidableEq

def Guard.tokenName : Guard → String
  | .user => "user-token"
  | .admin => "admin-token"

def Guard.hash (state : AppState) : Guard → String
  | .user => state.userTokenHash
  | .admin => state.adminTokenHash

/-- `require_user` and `require_admin`. -/
def Guard.layer (guard : Guard) (state : AppState) : Layer Request := fun q =>
  match verifyToken lib (q.headerText guard.tokenName) (guard.hash state) with
  | .error e => .error (intoResponse e)
  | .ok () => .ok id

end Auth

section Layers

/-- A value that is no header value is left out. -/
def insert (r : Response) (name value : String) : Response :=
  match Retry.headerValue value with
  | some v => r.insert name v
  | none => r

def addRequestId (id : String) : Layer Request := fun _ => .ok fun r => insert r "request-id" id

def v3EolWarningText : String :=
  "299 - \"PCS API version 3 is no longer available. Cached collateral downloaded from API version 3 is deprecated, will not be refreshed, and may expire. Please migrate to API version 4.\""

def v3EolWarning : Layer Request := fun _ => .ok fun r => insert r "warning" v3EolWarningText

def corsExposeHeaders : String :=
  "Retry-After, Request-ID, Warning, SGX-TCBm, SGX-FMSPC, SGX-PCK-Certificate-CA-Type, SGX-PCK-Certificate-Issuer-Chain, SGX-PCK-CRL-Issuer-Chain, TCB-Info-Issuer-Chain, SGX-TCB-Info-Issuer-Chain, SGX-Enclave-Identity-Issuer-Chain"

def corsHeaders : List (String × String) :=
  [("access-control-allow-origin", "*"),
    ("access-control-allow-methods", "GET, HEAD, POST, PUT, OPTIONS"),
    ("access-control-allow-headers", "Content-Type, user-token, admin-token"),
    ("access-control-expose-headers", corsExposeHeaders),
    ("access-control-max-age", "86400")]

def insertCors (r : Response) : Response := corsHeaders.foldl (fun r h => insert r h.1 h.2) r

def startsWith (text start : String) : Bool := start.toList.isPrefixOf text.toList

def isNrasPath (path : String) : Bool := path == "/nvidia/nras" || startsWith path "/nvidia/nras/"

def intelPrefixes : List String :=
  ["/sgx/certification/v3", "/sgx/certification/v4", "/tdx/certification/v4"]

def collateralLeaves : List String :=
  ["/pckcert", "/pckcrl", "/tcb", "/qe/identity", "/qve/identity", "/rootcacrl", "/crl",
    "/appraisalpolicy"]

def isCollateralPath (path : String) : Bool :=
  startsWith path "/vcek/" || startsWith path "/vlek/" || startsWith path "/v1/rim/" ||
    path == "/ocsp" || isNrasPath path ||
    match intelPrefixes.findSome? fun start => Paths.stripPrefix start.toList path.toList with
    | none => false
    | some rest => collateralLeaves.any fun leaf => rest = leaf.toList

def noStore (nras : Bool) (r : Response) : Response :=
  if nras then insert r "cache-control" "no-store" else r

def cors : Layer Request := fun q =>
  if isCollateralPath q.path = false then .ok id
  else if q.method = .options then
    .error (noStore (isNrasPath q.path) (insertCors ⟨204, [], []⟩))
  else .ok fun r => noStore (isNrasPath q.path) (insertCors r)

def cacheableCollateral : List String :=
  ["/sgx/certification/v3/pckcrl", "/sgx/certification/v3/tcb",
    "/sgx/certification/v3/qe/identity", "/sgx/certification/v3/qve/identity",
    "/sgx/certification/v3/rootcacrl", "/sgx/certification/v4/pckcrl",
    "/sgx/certification/v4/tcb", "/sgx/certification/v4/qe/identity",
    "/sgx/certification/v4/qve/identity", "/sgx/certification/v4/rootcacrl",
    "/tdx/certification/v4/tcb", "/tdx/certification/v4/qe/identity"]

/-- `matched` is the template of the route. -/
def collateralCacheControl (maxAge : Nat) (matched : Option String) : Layer Request := fun q =>
  let cacheable := (q.method = .get ∨ q.method = .head) ∧ matched.any (· ∈ cacheableCollateral)
  .ok fun r =>
    if cacheable then
      if r.status = 200 then r.insert "cache-control" ("public, max-age=" ++ toString maxAge)
      else r.insert "cache-control" "no-store"
    else r

def routeExpectsBody (method : Method) (path : String) : Bool :=
  (method, path) ∈
    [(.post, "/sgx/certification/v3/platforms"), (.post, "/sgx/certification/v4/platforms"),
      (.put, "/sgx/certification/v3/platformcollateral"),
      (.put, "/sgx/certification/v4/platformcollateral"),
      (.put, "/sgx/certification/v3/appraisalpolicy"),
      (.put, "/sgx/certification/v4/appraisalpolicy"),
      (.post, "/ocsp"), (.post, "/nvidia/nras/attest/gpu")]

def requestCarriesBody (q : Request) : Bool :=
  (Permits.contentLength q.headers).any (0 < ·) ||
    ((q.header "transfer-encoding").bind Retry.toStr).any fun s =>
      (Paths.split ',' (s.map Char.toLower)).any fun part => Retry.trim part = "chunked".toList

def rejectUnexpectedBody : Layer Request := fun q =>
  if requestCarriesBody q && !routeExpectsBody q.method q.path then
    .error (intoResponse contentTooLarge)
  else .ok id

def rejectTrailingSlash : Layer Request := fun q =>
  if 1 < byteLen q.path ∧ q.path.toList.getLast? = some '/' then .error notFound else .ok id

/-- `http_middleware`, without the registry; `timing` is the text of the header. -/
def httpMiddleware (serverTiming : Bool) (timing : String) : Layer Request := fun _ =>
  .ok fun r => if serverTiming then insert r "server-timing" timing else r

end Layers

section Routes

/-- The handlers. -/
inductive Endpoint where
  | getPlatforms | postPlatforms | putPlatformCollateral | refresh
  | putAppraisalPolicy | getAppraisalPolicy
  | getPckcert | getPckcrl | getTcb (prodType : Nat) | getIdentity (enclaveId : Nat)
  | getRootcacrl | getCrl
  | getAmdKds | getNvidiaRim | postNvidiaOcsp | postNvidiaNrasAttestGpu
  | liveness | readiness | startup
deriving DecidableEq

structure Route where
  method : Method
  template : String
  guard : Option Guard
  endpoint : Endpoint
deriving DecidableEq

def sgxRouter : List Route :=
  [⟨.get, "/platforms", some .admin, .getPlatforms⟩,
    ⟨.put, "/platformcollateral", some .admin, .putPlatformCollateral⟩,
    ⟨.get, "/refresh", some .admin, .refresh⟩,
    ⟨.post, "/refresh", some .admin, .refresh⟩,
    ⟨.put, "/appraisalpolicy", some .admin, .putAppraisalPolicy⟩,
    ⟨.post, "/platforms", some .user, .postPlatforms⟩,
    ⟨.get, "/pckcert", none, .getPckcert⟩,
    ⟨.get, "/pckcrl", none, .getPckcrl⟩,
    ⟨.get, "/tcb", none, .getTcb 0⟩,
    ⟨.get, "/qe/identity", none, .getIdentity 1⟩,
    ⟨.get, "/qve/identity", none, .getIdentity 2⟩,
    ⟨.get, "/rootcacrl", none, .getRootcacrl⟩,
    ⟨.get, "/crl", none, .getCrl⟩,
    ⟨.get, "/appraisalpolicy", none, .getAppraisalPolicy⟩]

def tdxRouter : List Route :=
  [⟨.get, "/tcb", none, .getTcb 1⟩, ⟨.get, "/qe/identity", none, .getIdentity 3⟩]

def healthzRouter : List Route :=
  [⟨.get, "/live", none, .liveness⟩, ⟨.get, "/ready", none, .readiness⟩,
    ⟨.get, "/startup", none, .startup⟩]

def amdKdsRouter : List Route :=
  [⟨.get, "/vcek/\x7b*rest\x7d", none, .getAmdKds⟩, ⟨.get, "/vlek/\x7b*rest\x7d", none, .getAmdKds⟩]

def nvidiaRimRouter : List Route := [⟨.get, "/v1/rim/\x7b*rest\x7d", none, .getNvidiaRim⟩]

def nvidiaOcspRouter : List Route := [⟨.post, "/ocsp", none, .postNvidiaOcsp⟩]

def nvidiaNrasRouter : List Route := [⟨.post, "/attest/gpu", none, .postNvidiaNrasAttestGpu⟩]

def nest (base : String) (routes : List Route) : List Route :=
  routes.map fun r => { r with template := base ++ r.template }

def routes (pcsVersion : Nat) : List Route :=
  nest "/sgx/certification/v3" sgxRouter ++ amdKdsRouter ++ nvidiaRimRouter ++ nvidiaOcspRouter ++
    nest "/nvidia/nras" nvidiaNrasRouter ++
    (if pcsVersion = 4 then
      nest "/sgx/certification/v4" sgxRouter ++ nest "/tdx/certification/v4" tdxRouter
    else []) ++ nest "/healthz" healthzRouter

/-- The last segments of a template may be any, but not none. -/
def restParam : String := "\x7b*rest\x7d"

def fits (template path : String) : Bool :=
  match Validate.stripSuffix restParam.toList template.toList with
  | some start => start.isPrefixOf path.toList && start.length < path.length
  | none => template == path

/-- `get` routes serve HEAD too. -/
def Route.serves (r : Route) (method : Method) : Bool :=
  r.method = method || (r.method = .get && method = .head)

inductive Target where
  | endpoint (r : Route)
  | methodNotAllowed
  | fallback
deriving DecidableEq

def dispatch (pcsVersion : Nat) (q : Request) : Target × Option String :=
  let known := (routes pcsVersion).filter fun r => fits r.template q.path
  match known.find? fun r => r.serves q.method with
  | some r => (.endpoint r, some r.template)
  | none =>
    match known with
    | [] => (.fallback, none)
    | r :: _ => (.methodNotAllowed, some r.template)

def inV3 (path : String) : Bool :=
  path == "/sgx/certification/v3" || startsWith path "/sgx/certification/v3/"

variable (lib : Library) (state : AppState)

/-- The route, its guard, and the fallback of its router. -/
def router (q : Request) : Plan Route :=
  match (dispatch state.cache.pcsVersion q).1 with
  | .endpoint r =>
    match r.guard with
    | none => .target r id
    | some guard => (guard.layer lib state).around (fun _ => .target r id) q
  | .methodNotAllowed => .answer (lib.methodNotAllowed q)
  | .fallback => .answer notFound

def nested (q : Request) : Plan Route :=
  if inV3 q.path then v3EolWarning.around (router lib state) q else router lib state q

def cached (q : Request) : Plan Route :=
  match state.collateralCacheMaxAgeSecs with
  | none => nested lib state q
  | some maxAge =>
    (collateralCacheControl maxAge (dispatch state.cache.pcsVersion q).2).around (nested lib state) q

def createApp (id timing : String) : Request → Plan Route :=
  (httpMiddleware state.serverTiming timing).around <|
  (addRequestId id).around <|
  cors.around <|
  rejectTrailingSlash.around <|
  rejectUnexpectedBody.around <|
  cached lib state

end Routes

end Pccs.Service
