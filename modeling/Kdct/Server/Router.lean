/-
How the API thread reads a request (`run_api` in `crates/kdcts/src/api.rs`).

The query and the `/admin` prefix are cut off the URL, and the arms of one `match` are
tried in order, most of them with a guard on how the path starts, ends or goes on.  An
arm then slices and splits the path and parses numbers in it, before it reads the body.
What an arm does to the shared state is in `Kdct.Server.Api`; here it is an `Action`, and
the replies of the arms that only read are left out.

Arms of different methods exclude each other, so they are written method by method.
-/
import Kdct.Lib.Codec
import Kdct.RouteTable
import Kdct.TextSlices

namespace Kdct

inductive Method
  | get
  | post
  | delete
  | patch
  | other (name : String)
  deriving DecidableEq

/-- `serde_json::Value`; of a number only what `as_i64` makes of it is kept. -/
inductive Json
  | null
  | bool (b : Bool)
  | number (asI64 : Option Int)
  | string (s : String)
  | array (items : List Json)
  | object (fields : List (String × Json))

namespace Json

/-- `Value::get`. -/
def get (v : Json) (key : String) : Option Json :=
  match v with
  | object fields => (fields.find? fun field => field.1 == key).map Prod.snd
  | _ => none

/-- `v[key]`. -/
def index (v : Json) (key : String) : Json := (v.get key).getD null

def asStr : Json → Option String
  | string s => some s
  | _ => none

def asBool : Json → Option Bool
  | bool b => some b
  | _ => none

def asI64 : Json → Option Int
  | number n => n
  | _ => none

def asArray : Json → Option (List Json)
  | array items => some items
  | _ => none

end Json

/-- What other libraries make of texts. -/
structure ApiTools where
  /-- `serde_json::from_str`. -/
  parseJson : String → Except String Json
  /-- The standard alphabet of `base64`. -/
  decodeBase64 : String → Option Bytes

structure ApiSettings where
  adminUser : Option String
  adminPassword : Option String
  tlsConfigurable : Bool
  domainConfigured : Bool

structure HttpRequest where
  method : Method
  url : String
  authorization : Option String
  /-- The body, unless reading it as text fails. -/
  body : Option String

/-! ## What arms ask for -/

/-- `None` leaves a slot as it is, `Some(None)` clears it. -/
abbrev SlotField := Option (Option Int)

/-- The arms that change state, with the numbers of their paths. -/
inductive Target
  | insertBridge
  | deleteBridge (bridgeId : Int)
  | insertPort (bridgeId : Int)
  | deletePort (bridgeId containerPort : Int)
  | setEnvs (bridgeId : Int)
  | insertConnection
  | patchConnection (id : Int)
  | deleteConnection (id : Int)
  | autoCheck
  | setTls
  | setAcme
  | loadImage
  deriving DecidableEq

/-- Whether the arm reads the body before it acts. -/
def Target.readsBody : Target → Bool
  | .deleteBridge _ | .deletePort _ _ | .deleteConnection _ | .autoCheck => false
  | _ => true

inductive Action
  | insertBridge (name : String)
  | deleteBridge (bridgeId : Int)
  | insertPort (bridgeId containerPort : Int) (mode : String) (routePath protocols : Option String)
  | deletePort (bridgeId containerPort : Int)
  | setEnvs (bridgeId : Int) (envs : List (String × String))
  | insertConnection (name : String) (bridgeId imageId nodeId : SlotField)
  | patchConnection (id : Int) (bridgeId imageId nodeId : SlotField)
  | deleteConnection (id : Int)
  | autoCheck
  | setTls (enabled : Bool)
  | setAcme (enabled : Option Bool) (email : Option String) (staging : Option Bool)
  | loadImage (source : String) (name : Option String)
  deriving DecidableEq

def Action.target : Action → Target
  | insertBridge _ => .insertBridge
  | deleteBridge bridgeId => .deleteBridge bridgeId
  | insertPort bridgeId _ _ _ _ => .insertPort bridgeId
  | deletePort bridgeId containerPort => .deletePort bridgeId containerPort
  | setEnvs bridgeId _ => .setEnvs bridgeId
  | insertConnection _ _ _ _ => .insertConnection
  | patchConnection id _ _ _ => .patchConnection id
  | deleteConnection id => .deleteConnection id
  | autoCheck => .autoCheck
  | setTls _ => .setTls
  | setAcme _ _ _ => .setAcme
  | loadImage _ _ => .loadImage

inductive Outcome
  /-- The process is aborted. -/
  | panic
  | unauthorized
  | error (msg : String) (code : Nat)
  /-- An arm that only reads, or a file of the panel. -/
  | read
  | file (name : String)
  | change (action : Action)
  deriving DecidableEq

/-- What the path and the method alone decide. -/
inductive Route
  | panic
  | error (msg : String) (code : Nat)
  | read
  | fallback
  | target (target : Target)
  deriving DecidableEq

namespace Router

/-! ## Paths -/

/-- `i64::from_str`. -/
def parseI64 (text : List Char) : Option Int :=
  let inRange (n : Int) : Option Int :=
    if -9223372036854775808 ≤ n ∧ n ≤ 9223372036854775807 then some n else none
  match text with
  | [] | ['+'] | ['-'] => none
  | '+' :: digits =>
      if digits.all Char.isDigit then inRange (Nat.ofDigitChars 10 digits 0) else none
  | '-' :: digits =>
      if digits.all Char.isDigit then inRange (-Nat.ofDigitChars 10 digits 0) else none
  | digits => if digits.all Char.isDigit then inRange (Nat.ofDigitChars 10 digits 0) else none

def bridgesPath : List Char := "/api/bridges/".toList

def connectionsPath : List Char := "/api/connections/".toList

def extractBridgeId (path suffix : List Char) : Option Int := do
  let strip ← stripPrefix bridgesPath path
  let strip ← stripSuffix suffix strip
  parseI64 strip

/-- The number behind a prefix of `n` bytes, up to the next slash. -/
def idAt (n : Nat) (path : List Char) (invalid : String) (found : Int → Route) : Route :=
  match dropBytes n path with
  | none => .panic
  | some rest =>
      match parseI64 ((splitOnce '/' rest).getD (rest, [])).1 with
      | none => .error invalid 400
      | some id => found id

/-- The arm of `DELETE` for a port. -/
def deletePortRoute (path : List Char) : Route :=
  match dropBytes (bytesOf bridgesPath) path with
  | none => .panic
  | some rest =>
      match rest.splitOn '/' with
      | first :: _ :: third :: _ =>
          match parseI64 first with
          | none => .error "Invalid bridge id" 400
          | some bridgeId =>
              match parseI64 third with
              | none => .error "Invalid port" 400
              | some containerPort => .target (.deletePort bridgeId containerPort)
      | _ => .error "Invalid path" 400

def getRoute (path : List Char) : Route :=
  if path ∈ ["/api/nodes".toList, "/api/images".toList, "/api/bridges".toList] then .read
  else if bridgesPath <+: path ∧ ¬"/port".toList <:+: path ∧ ¬"/env".toList <:+: path then
    idAt (bytesOf bridgesPath) path "Invalid bridge id" fun _ => .read
  else if path ∈ ["/api/connections".toList, "/api/overview".toList, "/api/ping".toList,
      "/api/settings".toList] then .read
  else if "/api/search".toList <+: path ∨ "/api/tags".toList <+: path ∨
      "/api/image/load/progress".toList <+: path then .read
  else .fallback

def postRoute (path : List Char) : Route :=
  if path = "/api/bridges".toList then .target .insertBridge
  else if "/port".toList <:+ path then
    match extractBridgeId path "/port".toList with
    | none => .error "Invalid bridge id" 400
    | some bridgeId => .target (.insertPort bridgeId)
  else if "/env".toList <:+ path then
    match extractBridgeId path "/env".toList with
    | none => .error "Invalid bridge id" 400
    | some bridgeId => .target (.setEnvs bridgeId)
  else if path = "/api/connections".toList then .target .insertConnection
  else if path = "/api/auto-check".toList then .target .autoCheck
  else if path = "/api/settings".toList then .target .setTls
  else if path = "/api/settings/acme".toList then .target .setAcme
  else if path = "/api/image/load".toList then .target .loadImage
  else .fallback

def deleteRoute (path : List Char) : Route :=
  if bridgesPath <+: path ∧ ¬"/port".toList <:+: path then
    idAt (bytesOf bridgesPath) path "Invalid bridge id" fun id => .target (.deleteBridge id)
  else if "/port/".toList <:+: path then deletePortRoute path
  else if connectionsPath <+: path then
    idAt (bytesOf connectionsPath) path "Invalid id" fun id => .target (.deleteConnection id)
  else .fallback

def patchRoute (path : List Char) : Route :=
  if connectionsPath <+: path then
    idAt (bytesOf connectionsPath) path "Invalid id" fun id => .target (.patchConnection id)
  else .fallback

/-- The arm that is selected, up to reading the body. -/
def route : Method → List Char → Route
  | .get => getRoute
  | .post => postRoute
  | .delete => deleteRoute
  | .patch => patchRoute
  | .other _ => fun _ => .fallback

/-! ## Bodies -/

/-- `parse_slot`. -/
def parseSlot (v : Json) (key : String) : SlotField :=
  match v.get key with
  | none => none
  | some .null => some none
  | some other => other.asI64.map some

def portAction (bridgeId : Int) (parsed : Json) : Outcome :=
  let containerPort := (parsed.index "container_port").asI64.getD 0
  let mode := (parsed.index "mode").asStr.getD "route"
  let routePath := (parsed.index "route_path").asStr
  let protocols := (parsed.index "protocols").asArray.map fun items =>
    ",".intercalate (items.filterMap Json.asStr)
  if containerPort = 0 ∨ (mode = "route" ∧ routePath = none) then
    .error "Missing 'container_port' or 'route_path'" 400
  else if routePath.any fun path => !startsWith path "/" then
    .error "route_path must start with '/'" 400
  else if routePath.any isAdminPath then
    .error "'/admin' is reserved for the management panel" 400
  else .change (.insertPort bridgeId containerPort mode routePath protocols)

def envPair (entry : Json) : Option (String × String) := do
  let key ← (entry.index "key").asStr
  let value ← (entry.index "value").asStr
  some (key, value)

def tlsAction (settings : ApiSettings) (parsed : Json) : Outcome :=
  match (parsed.get "tls_enabled").bind Json.asBool with
  | none => .error "Missing 'tls_enabled' boolean" 400
  | some wantTls =>
      if wantTls && !settings.tlsConfigurable then
        if !settings.domainConfigured then
          .error ("Cannot enable TLS: no `domain` set in server.toml. " ++
            "Add a domain (and a matching cert/key) to use HTTPS.") 400
        else
          .error ("Cannot enable TLS: tls_cert_path / tls_key_path " ++
            "not set or not pointing at real files in server.toml") 400
      else .change (.setTls wantTls)

/-- What a target does with a body that parses. -/
def parsedAction (settings : ApiSettings) (target : Target) (parsed : Json) : Outcome :=
  match target with
  | .insertBridge =>
      let name := (parsed.index "name").asStr.getD ""
      if name = "" then .error "Missing 'name'" 400 else .change (.insertBridge name)
  | .insertPort bridgeId => portAction bridgeId parsed
  | .setEnvs bridgeId =>
      match (parsed.index "envs").asArray with
      | none => .error "Missing 'envs' array" 400
      | some envs => .change (.setEnvs bridgeId (envs.filterMap envPair))
  | .insertConnection =>
      .change (.insertConnection ((parsed.index "name").asStr.getD "connection")
        (parseSlot parsed "bridge_id") (parseSlot parsed "image_id") (parseSlot parsed "node_id"))
  | .patchConnection id =>
      .change (.patchConnection id (parseSlot parsed "bridge_id") (parseSlot parsed "image_id")
        (parseSlot parsed "node_id"))
  | .setTls => tlsAction settings parsed
  | .setAcme =>
      .change (.setAcme ((parsed.get "enabled").bind Json.asBool)
        (((parsed.get "email").bind Json.asStr).map trim)
        ((parsed.get "staging").bind Json.asBool))
  | .loadImage =>
      let source := (parsed.index "source").asStr.getD ""
      if source = "" then .error "Missing 'source'" 400
      else .change (.loadImage source ((parsed.index "name").asStr.filter (· ≠ "")))
  | .deleteBridge bridgeId => .change (.deleteBridge bridgeId)
  | .deletePort bridgeId containerPort => .change (.deletePort bridgeId containerPort)
  | .deleteConnection id => .change (.deleteConnection id)
  | .autoCheck => .change .autoCheck

def targetOutcome (tools : ApiTools) (settings : ApiSettings) (body : Option String)
    (target : Target) : Outcome :=
  if target.readsBody then
    match body with
    | none => .error "Failed to read body" 400
    | some text =>
        match tools.parseJson text with
        | .error e => .error ("Invalid JSON: " ++ e) 400
        | .ok parsed => parsedAction settings target parsed
  else parsedAction settings target .null

/-! ## Files of the panel -/

/-- `u8::from_str_radix` on the two bytes behind a percent sign; two bytes that are not
UTF-8 count as zeros. -/
def hexByte (a b : UInt8) : Option UInt8 :=
  match String.fromUTF8? ⟨#[a, b]⟩ with
  | none => some 0
  | some hex =>
      let digit (c : Char) : Option Nat :=
        if c.isDigit then some (c.toNat - '0'.toNat)
        else if 'a' ≤ c ∧ c ≤ 'f' then some (c.toNat - 'a'.toNat + 10)
        else if 'A' ≤ c ∧ c ≤ 'F' then some (c.toNat - 'A'.toNat + 10)
        else none
      match hex.toList with
      | ['+', low] => (digit low).map UInt8.ofNat
      | [high, low] => (digit high).bind fun h => (digit low).map fun l => UInt8.ofNat (16 * h + l)
      | _ => none

/-- `percent_decode`, which reads each byte as a character. -/
def percentDecode : Bytes → List Char
  | [] => []
  | byte :: a :: b :: rest =>
      match if byte = 0x25 then hexByte a b else none with
      | some hex => Char.ofNat hex.toNat :: percentDecode rest
      | none => Char.ofNat byte.toNat :: percentDecode (a :: b :: rest)
  | byte :: rest => Char.ofNat byte.toNat :: percentDecode rest

/-- The file that `serve_static` looks for first. -/
def staticName (path : List Char) : String :=
  let decoded := percentDecode
    (String.ofList (path.dropWhile (· = '/'))).toUTF8.data.toList
  if decoded.isEmpty || (decoded.splitOn '/').any fun seg => seg = ['.', '.'] || seg = ['.'] then
    "index.html"
  else String.ofList decoded

/-! ## Requests -/

/-- The query is cut off. -/
def pathOnly (url : String) : List Char := url.toList.takeWhile (· ≠ '?')

def wasAdmin (rawPath : List Char) : Bool :=
  rawPath = "/admin".toList || "/admin/".toList.isPrefixOf rawPath

/-- The path without the `/admin` prefix of requests that come through the proxy. -/
def stripAdmin (rawPath : List Char) : List Char :=
  match stripPrefix "/admin/".toList rawPath with
  | some rest => '/' :: rest
  | none => if rawPath = "/admin".toList then ['/'] else rawPath

def requestPath (request : HttpRequest) : List Char := stripAdmin (pathOnly request.url)

def checkBasicAuth (tools : ApiTools) (authorization : Option String) (user pass : String) :
    Bool :=
  let credentials := do
    let header ← authorization
    let encoded ← stripPrefix "Basic ".toList header.toList
    let decoded ← tools.decodeBase64 (trim (String.ofList encoded))
    String.fromUTF8? ⟨decoded.toArray⟩
  match credentials with
  | none => false
  | some text =>
      let parts := (splitOnce ':' text.toList).getD (text.toList, [])
      parts.1 = user.toList && parts.2 = pass.toList

def authorized (tools : ApiTools) (settings : ApiSettings) (request : HttpRequest) : Bool :=
  match settings.adminUser, settings.adminPassword with
  | some user, some pass => checkBasicAuth tools request.authorization user pass
  | _, _ => true

/-- What the selected arm makes of a request; `admin` tells whether the proxy sent it. -/
def handle (tools : ApiTools) (settings : ApiSettings) (admin : Bool) (method : Method)
    (path : List Char) (body : Option String) : Outcome :=
  match route method path with
  | .panic => .panic
  | .error msg code => .error msg code
  | .read => .read
  | .fallback => if admin then .file (staticName path) else .error "Not Found" 404
  | .target target => targetOutcome tools settings body target

/-- One turn of the loop of `run_api`. -/
def serve (tools : ApiTools) (settings : ApiSettings) (request : HttpRequest) : Outcome :=
  if authorized tools settings request then
    handle tools settings (wasAdmin (pathOnly request.url)) request.method (requestPath request)
      request.body
  else .unauthorized

end Router

end Kdct
