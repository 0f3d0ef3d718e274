import InferDeck.ApiKeyStore
import InferDeck.Authority

/-!
# Which requests reach a handler

The pre-routing handler classifies a request by its method and path, authorizes it, checks the
origin of control writes and validates the headers. What it does with the response besides refusing
is left out.
-/

namespace InferDeck.Gateway

open Foundation

/-! ## The request -/

structure HttpRequest where
  method : Text
  path : Text
  remoteAddr : Text
  headers : List (Text × Text)

namespace HttpRequest

variable (req : HttpRequest)

/-- The values of a header, whose name is compared without regard to case. -/
def headerValues (name : String) : List Text :=
  (req.headers.filter fun header => lower header.1 == lower name.toList).map Prod.snd

def headerValue (name : String) : Text := (req.headerValues name).head?.getD []

def hasHeader (name : String) : Bool := !(req.headerValues name).isEmpty

end HttpRequest

/-! ## Routes -/

inductive RoutePrincipal where
  | publicStatus
  | openAIDataPlane
  | managedClient
  | dashboardSession
  | controlRead
  | controlWrite
  deriving DecidableEq

def strictOpenAIRoutes : List (String × String) :=
  [("GET", "/v1/models"), ("POST", "/v1/chat/completions"), ("POST", "/v1/responses"),
   ("POST", "/v1/embeddings"), ("POST", "/v1/images/generations"), ("POST", "/v1/audio/speech"),
   ("POST", "/v1/audio/transcriptions")]

def isStrictOpenaiRoute (method path : Text) : Bool :=
  strictOpenAIRoutes.any fun route => route.1.toList == method && route.2.toList == path

def hasPrefix (text : Text) (start : String) : Bool := start.toList.isPrefixOf text

def isOneOf (text : Text) (names : List String) : Bool := names.any fun name => name.toList == text

def classifyRoute (method path : Text) : RoutePrincipal :=
  if isStrictOpenaiRoute method path then .openAIDataPlane
  else if hasPrefix path "/v1/" then .openAIDataPlane
  else if hasPrefix path "/compat/openai-derivative/v1/" then .openAIDataPlane
  else if isOneOf path ["/api/inferdeck/v1/audio/generations", "/api/inferdeck/v1/video/generations"]
    then .openAIDataPlane
  else if isOneOf path ["/api/inferdeck/v1/background/availability",
      "/api/inferdeck/v1/background/lease"] ||
      hasPrefix path "/api/inferdeck/v1/background/lease/" then .managedClient
  else if isOneOf path ["/api/inferdeck/v1/status", "/api/inferdeck/v1/pricing",
      "/api/inferdeck/v1/events/stream"] then .dashboardSession
  else if hasPrefix path "/api/" then
    if isOneOf method ["GET", "HEAD"] then .controlRead else .controlWrite
  else .publicStatus

/-! ## Credentials -/

structure AuthConfig where
  required : Bool := false
  token : Text := []

/-- The lengths and the characters are compared to the end, wherever they differ. -/
def secretDifference (presented token : Text) : ℕ :=
  (List.range token.length).foldl
    (fun difference index =>
      difference ||| (presented.getD index '\x00').toNat ^^^ (token.getD index '\x00').toNat)
    (presented.length ^^^ token.length)

def AuthConfig.check (cfg : AuthConfig) (authHeader : Text) : Bool :=
  if !cfg.required then true
  else if cfg.token.isEmpty then false
  else if authHeader.length < 7 then false
  else if !bearerScheme.isPrefixOf authHeader then false
  else decide (secretDifference (authHeader.drop 7) cfg.token = 0)

/-- The loop of `cookie_value`, on what is left of the header. -/
def cookieValue (name : String) (header : Text) : Text :=
  match _hsplit : splitFirst ';' (header.dropWhile fun c => c == ' ' || c == ';') with
  | (field, rest) =>
      match splitFirst '=' field with
      | (key, some value) =>
          if key = name.toList then value
          else
            match rest with
            | some rest => cookieValue name rest
            | none => []
      | (_, none) =>
          match rest with
          | some rest => cookieValue name rest
          | none => []
termination_by header.length
decreasing_by
  all_goals
    have hlength := congrArg List.length (splitFirst_eq_some _hsplit)
    have hsuffix := (List.dropWhile_suffix (l := header) fun c => c == ' ' || c == ';').length_le
    simp only [List.length_append, List.length_cons] at hlength
    omega

structure RouteAuthConfig where
  dataPlane : AuthConfig := {}
  controlAllowRemote : Bool := false
  controlAllowDataPlaneToken : Bool := false
  controlToken : Text := []

inductive AuthorizationStatus where
  | granted
  | authenticationRequired
  | forbidden
  deriving DecidableEq

def isLoopback (address : Text) : Bool :=
  isOneOf address ["::1", "[::1]", "localhost"] || hasPrefix address "127." ||
    hasPrefix address "::ffff:127."

def isDirectLoopback (address host : Text) (proxyIndicated : Bool) : Bool :=
  !proxyIndicated && isLoopback address && isLoopbackAuthority host

/-- `RouteAuthorizer`, with the digest function and the store of managed keys. -/
structure RouteAuthorizer where
  cfg : RouteAuthConfig
  sha256 : Text → Result Hash
  apiKeys : Option ApiKeyStore

namespace RouteAuthorizer

variable (authorizer : RouteAuthorizer)

def control : AuthConfig := { required := true, token := authorizer.cfg.controlToken }

def authenticatesBearer (authHeader : Text) : Bool :=
  authorizer.apiKeys.any fun store =>
    (store.authenticateBearer authorizer.sha256 authHeader).isSome

def authorize (principal : RoutePrincipal) (authHeader remoteAddress host : Text)
    (proxyIndicated : Bool) : AuthorizationStatus :=
  if principal = .publicStatus then .granted
  else if principal = .openAIDataPlane then
    if authorizer.authenticatesBearer authHeader then .granted
    else if authorizer.cfg.dataPlane.check authHeader then .granted
    else .authenticationRequired
  else if principal = .managedClient then
    if authorizer.authenticatesBearer authHeader then .granted else .authenticationRequired
  else if isDirectLoopback remoteAddress host proxyIndicated then .granted
  else if !authorizer.cfg.controlAllowRemote then .forbidden
  else if authorizer.control.check authHeader then .granted
  else if authorizer.cfg.controlAllowDataPlaneToken && authorizer.cfg.dataPlane.required &&
      authorizer.cfg.dataPlane.check authHeader then .granted
  else .authenticationRequired

end RouteAuthorizer

end InferDeck.Gateway
