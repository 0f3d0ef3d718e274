import InferDeck.RouteAuthorizer
import Mathlib.Data.List.DropRight
import Mathlib.Data.LawfulXor.Basic
import Mathlib.Data.Nat.Bitwise

/-!
# The guard of the control plane

The pre-routing handler, and what holds of every control request that it passes on.
-/

namespace InferDeck.Gateway

open Foundation

/-! ## Request headers -/

inductive ContentPolicy where
  | none
  | json
  | multipart
  deriving DecidableEq

structure RequestPolicy where
  maxBodyBytes : ℕ := 0
  content : ContentPolicy := .none
  requireContentType : Bool := false
  allowChunked : Bool := false

inductive RequestValidationStatus where
  | allowed
  | bodyNotAllowed
  | payloadTooLarge
  | unsupportedMediaType
  | invalidContentLength
  | unsupportedTransferEncoding
  deriving DecidableEq

def jsonBodyLimit : ℕ := 16 * 1024 * 1024

def controlBodyLimit : ℕ := 2 * 1024 * 1024

def audioBodyLimit : ℕ := 26 * 1024 * 1024

def requestPolicy (method path : Text) (controlWrite : Bool) : RequestPolicy :=
  if isOneOf method ["GET", "HEAD", "OPTIONS"] then {}
  else if isOneOf path ["/v1/audio/transcriptions"] then
    { maxBodyBytes := audioBodyLimit, content := .multipart, allowChunked := true }
  else if isOneOf path ["/api/inferdeck/v1/video/generations"] then
    { maxBodyBytes := jsonBodyLimit, content := .json }
  else if hasPrefix path "/api/" then
    { maxBodyBytes := controlBodyLimit, content := .json, requireContentType := controlWrite }
  else { maxBodyBytes := jsonBodyLimit, content := .json, requireContentType := controlWrite }

def isSpace (c : Char) : Bool := c == ' ' || decide (9 ≤ c.toNat) && decide (c.toNat ≤ 13)

def normalizedMediaType (req : HttpRequest) : Text :=
  let value := (splitFirst ';' (req.headerValue "Content-Type")).1
  lower ((value.rdropWhile isSpace).dropWhile isSpace)

/-- Whether the body is chunked, where the encoding is supported. -/
def transferEncoding (req : HttpRequest) (policy : RequestPolicy) : Option Bool :=
  if req.hasHeader "Transfer-Encoding" then
    let chunked := policy.allowChunked &&
      lower (req.headerValue "Transfer-Encoding") == "chunked".toList &&
      (req.headerValues "Transfer-Encoding").length == 1 && !req.hasHeader "Content-Length"
    if chunked then some true else none
  else some false

def contentLength (req : HttpRequest) : Option ℕ :=
  let length := req.headerValue "Content-Length"
  if length = [] then some 0
  else
    match fromChars 64 length with
    | some (value, []) => some value
    | _ => none

def validateRequestHeaders (req : HttpRequest) (policy : RequestPolicy) :
    RequestValidationStatus :=
  match transferEncoding req policy with
  | none => .unsupportedTransferEncoding
  | some chunked =>
      match contentLength req with
      | none => .invalidContentLength
      | some length =>
          if policy.maxBodyBytes = 0 ∧ 0 < length then .bodyNotAllowed
          else if policy.maxBodyBytes < length then .payloadTooLarge
          else if length = 0 ∧ policy.requireContentType = false ∧ chunked = false then .allowed
          else
            let mediaType := normalizedMediaType req
            if policy.content = .json ∧ mediaType ≠ "application/json".toList then
              .unsupportedMediaType
            else if policy.content = .multipart ∧ mediaType ≠ "multipart/form-data".toList then
              .unsupportedMediaType
            else .allowed

/-! ## The handler -/

structure ErrorResponse where
  status : ℕ
  code : String
  message : String
  header : Option (String × String) := none
  deriving DecidableEq

inductive HandlerResponse where
  | unhandled
  | handled (response : ErrorResponse)
  deriving DecidableEq

structure PreRouting where
  authorizer : RouteAuthorizer
  controlOrigins : List Text
  openaiDerivativeCompatibilityEnabled : Bool
  /-- A shutdown or a reload is in progress. -/
  stopping : Bool

def proxyHeaders : List String :=
  ["Forwarded", "X-Forwarded-For", "X-Real-IP", "X-Forwarded-Host", "Via"]

def dashboardSessionPath : Text := "/api/inferdeck/v1/dashboard/session".toList

def RoutePrincipal.isControl : RoutePrincipal → Bool
  | .dashboardSession | .controlRead | .controlWrite => true
  | _ => false

namespace HttpRequest

variable (req : HttpRequest)

def proxyIndicated : Bool := proxyHeaders.any req.hasHeader

def principal : RoutePrincipal := classifyRoute req.method req.path

def directLoopback : Bool :=
  isDirectLoopback req.remoteAddr (req.headerValue "Host") req.proxyIndicated

def dashboardLogin : Bool := req.method == "POST".toList && req.path == dashboardSessionPath

/-- The `Authorization` header or, without one, the cookie of the dashboard session. -/
def credential : Text :=
  if req.headerValue "Authorization" = [] then
    let token := cookieValue "inferdeck_control" (req.headerValue "Cookie")
    if token = [] then [] else bearerScheme ++ token
  else req.headerValue "Authorization"

end HttpRequest

def notAvailable : ErrorResponse :=
  { status := 403, code := "forbidden"
    message := "control-plane access is not available from this client" }

def originForbidden : ErrorResponse :=
  { status := 403, code := "origin_forbidden"
    message := "request origin is not allowed for the control plane" }

def validationError : RequestValidationStatus → Option ErrorResponse
  | .allowed => none
  | .bodyNotAllowed =>
      some { status := 400, code := "body_not_allowed"
             message := "request body is not allowed for this endpoint" }
  | .payloadTooLarge =>
      some { status := 413, code := "request_too_large"
             message := "request body exceeds the endpoint limit" }
  | .unsupportedMediaType =>
      some { status := 415, code := "unsupported_media_type"
             message := "request Content-Type is not supported by this endpoint" }
  | .invalidContentLength =>
      some { status := 400, code := "invalid_content_length"
             message := "request Content-Length is invalid" }
  | .unsupportedTransferEncoding =>
      some { status := 411, code := "content_length_required"
             message := "request Transfer-Encoding is not supported for this endpoint" }

namespace PreRouting

variable (handler : PreRouting) (req : HttpRequest)

/-- What is refused whoever asks. -/
def refusal : Option ErrorResponse :=
  if req.hasHeader "Expect" then
    some { status := 417, code := "expectation_failed"
           message := "Expect request headers are not supported" }
  else if handler.stopping then
    some { status := 503, code := "server_stopping"
           message := "gateway shutdown or reload is in progress"
           header := some ("Retry-After", "1") }
  else if hasPrefix req.path "/compat/openai-derivative/v1" &&
      !handler.openaiDerivativeCompatibilityEnabled then
    some { status := 404, code := "not_found", message := "compatibility profile is disabled" }
  else none

/-- The answer to `OPTIONS`. -/
def preflight : HandlerResponse :=
  if req.principal.isControl then
    if (req.principal = .dashboardSession ∧ req.directLoopback = false) ∨
        (req.directLoopback = false ∧ handler.authorizer.cfg.controlAllowRemote = false) then
      .handled notAvailable
    else if req.headerValue "Origin" = [] ∨
        req.headerValue "Origin" ∉ handler.controlOrigins then
      .handled originForbidden
    else .unhandled
  else .unhandled

def authorization : AuthorizationStatus :=
  if req.dashboardLogin then .granted
  else
    handler.authorizer.authorize req.principal req.credential req.remoteAddr
      (req.headerValue "Host") req.proxyIndicated

/-- A control write comes from no other site. -/
def originAllowed : Bool :=
  (req.headerValue "Origin" == [] || handler.controlOrigins.contains (req.headerValue "Origin")) &&
    req.headerValue "Sec-Fetch-Site" != "cross-site".toList

def preRouting : HandlerResponse :=
  match handler.refusal req with
  | some response => .handled response
  | none =>
      if req.method = "OPTIONS".toList then handler.preflight req
      else
        match handler.authorization req with
        | .authenticationRequired =>
            .handled { status := 401, code := "unauthorized"
                       message := "valid Bearer token required"
                       header := some ("WWW-Authenticate", "Bearer") }
        | .forbidden => .handled notAvailable
        | .granted =>
            if req.principal = .controlWrite ∧ handler.originAllowed req = false then
              .handled originForbidden
            else
              match validationError (validateRequestHeaders req
                (requestPolicy req.method req.path (req.principal = .controlWrite))) with
              | some response => .handled response
              | none => .unhandled

end PreRouting

/-! ## Who is let through -/

inductive LoopbackAddress : Text → Prop
  | ipv6 : LoopbackAddress "::1".toList
  | bracketed : LoopbackAddress "[::1]".toList
  | localhost : LoopbackAddress "localhost".toList
  | ipv4 (rest : Text) : LoopbackAddress ("127.".toList ++ rest)
  | mapped (rest : Text) : LoopbackAddress ("::ffff:127.".toList ++ rest)

/-- A client on the same machine, which asks for it by its own name and through no proxy. -/
structure LocalClient (req : HttpRequest) : Prop where
  address : LoopbackAddress req.remoteAddr
  host : LoopbackAuthority (lower (req.headerValue "Host"))
  noProxy : ∀ name ∈ proxyHeaders, req.headerValues name = []

def Presents (credential token : Text) : Prop := token ≠ [] ∧ credential = bearerScheme ++ token

/-- A client with a token for the control plane, where remote clients are allowed. -/
structure TrustedClient (cfg : RouteAuthConfig) (credential : Text) : Prop where
  remote : cfg.controlAllowRemote = true
  token : Presents credential cfg.controlToken ∨
    (cfg.controlAllowDataPlaneToken = true ∧ cfg.dataPlane.required = true ∧
      Presents credential cfg.dataPlane.token)

/-- The origin of a control write is allowed, where there is one. -/
structure TrustedOrigin (origins : List Text) (req : HttpRequest) : Prop where
  listed : ∀ origin, origin ≠ [] → req.headerValue "Origin" = origin → origin ∈ origins
  sameSite : req.headerValue "Sec-Fetch-Site" ≠ "cross-site".toList

theorem isOneOf_iff {text : Text} {names : List String} :
    isOneOf text names = true ↔ ∃ name ∈ names, text = name.toList := by
  rw [isOneOf, List.any_eq_true]
  exact ⟨fun ⟨name, hname, h⟩ => ⟨name, hname, (beq_iff_eq.1 h).symm⟩,
    fun ⟨name, hname, h⟩ => ⟨name, hname, beq_iff_eq.2 h.symm⟩⟩

theorem hasPrefix_iff {text : Text} {start : String} :
    hasPrefix text start = true ↔ ∃ rest, text = start.toList ++ rest := by
  rw [hasPrefix, List.isPrefixOf_iff_prefix]
  exact ⟨fun ⟨rest, h⟩ => ⟨rest, h.symm⟩, fun ⟨rest, h⟩ => ⟨rest, h.symm⟩⟩

theorem isLoopback_iff {address : Text} : isLoopback address = true ↔ LoopbackAddress address := by
  rw [isLoopback, Bool.or_eq_true, Bool.or_eq_true, isOneOf_iff, hasPrefix_iff, hasPrefix_iff]
  constructor
  · rintro ((⟨name, hname, rfl⟩ | ⟨rest, rfl⟩) | ⟨rest, rfl⟩)
    · simp only [List.mem_cons, List.not_mem_nil, or_false] at hname
      rcases hname with rfl | rfl | rfl
      · exact .ipv6
      · exact .bracketed
      · exact .localhost
    · exact .ipv4 rest
    · exact .mapped rest
  · intro h
    cases h with
    | ipv6 => exact .inl (.inl ⟨"::1", by simp, rfl⟩)
    | bracketed => exact .inl (.inl ⟨"[::1]", by simp, rfl⟩)
    | localhost => exact .inl (.inl ⟨"localhost", by simp, rfl⟩)
    | ipv4 rest => exact .inl (.inr ⟨rest, rfl⟩)
    | mapped rest => exact .inr ⟨rest, rfl⟩

/-- An accumulated difference is zero where there is none. -/
theorem foldl_or_eq_zero {indices : List ℕ} {f : ℕ → ℕ} {start : ℕ} :
    indices.foldl (fun difference index => difference ||| f index) start = 0 ↔
      start = 0 ∧ ∀ index ∈ indices, f index = 0 := by
  induction indices generalizing start with
  | nil => simp
  | cons index indices ih =>
      rw [List.foldl_cons, ih, Nat.or_eq_zero_iff, List.forall_mem_cons, and_assoc]

theorem secretDifference_eq_zero_iff {presented token : Text} :
    secretDifference presented token = 0 ↔ presented = token := by
  rw [secretDifference, foldl_or_eq_zero, xor_eq_zero_iff]
  constructor
  · rintro ⟨hlength, hsame⟩
    refine List.ext_getElem hlength fun index hpresented htoken => ?_
    have hchar := hsame index (List.mem_range.2 htoken)
    rw [xor_eq_zero_iff, List.getD_eq_getElem _ _ hpresented,
      List.getD_eq_getElem _ _ htoken] at hchar
    exact Char.toNat_inj.1 hchar
  · rintro rfl
    exact ⟨rfl, fun index _ => Nat.xor_self _⟩

theorem check_iff {cfg : AuthConfig} {credential : Text} (hrequired : cfg.required = true) :
    cfg.check credential = true ↔ Presents credential cfg.token := by
  rw [AuthConfig.check, hrequired, Presents]
  by_cases htoken : cfg.token = []
  · simp [htoken]
  have hscheme : bearerScheme.length = 7 := by decide
  have hnonempty : cfg.token.isEmpty = false := by simpa using htoken
  by_cases hbegins : bearerScheme.isPrefixOf credential = true
  · obtain ⟨presented, rfl⟩ := List.isPrefixOf_iff_prefix.1 hbegins
    have hlength : ¬(bearerScheme ++ presented).length < 7 := by
      rw [List.length_append, hscheme]
      omega
    have hdrop : (bearerScheme ++ presented).drop 7 = presented := by
      rw [← hscheme, List.drop_left]
    simp only [hnonempty, hlength, hbegins, hdrop, Bool.not_true, Bool.false_eq_true, if_false,
      decide_eq_true_eq, secretDifference_eq_zero_iff, List.append_cancel_left_eq, htoken, ne_eq,
      not_false_eq_true, true_and]
  · have hne : credential ≠ bearerScheme ++ cfg.token := by
      rintro rfl
      exact hbegins (List.isPrefixOf_iff_prefix.2 (List.prefix_append _ _))
    simp [hnonempty, hbegins, hne]

theorem directLoopback_iff {req : HttpRequest} : req.directLoopback = true ↔ LocalClient req := by
  rw [HttpRequest.directLoopback, isDirectLoopback, Bool.and_eq_true, Bool.and_eq_true,
    isLoopback_iff, isLoopbackAuthority_iff, Bool.not_eq_true', HttpRequest.proxyIndicated,
    List.any_eq_false]
  have hnone (name : String) : ¬(req.hasHeader name = true) ↔ req.headerValues name = [] := by
    simp [HttpRequest.hasHeader]
  constructor
  · rintro ⟨⟨hproxy, haddress⟩, hhost⟩
    exact ⟨haddress, hhost, fun name hname => (hnone name).1 (hproxy name hname)⟩
  · rintro ⟨haddress, hhost, hproxy⟩
    exact ⟨⟨fun name hname => (hnone name).2 (hproxy name hname), haddress⟩, hhost⟩

variable {handler : PreRouting} {req : HttpRequest}

/-- A control request that is authorized is one of a local or of a trusted client. -/
theorem authorize_control (hcontrol : req.principal.isControl = true)
    (h : handler.authorizer.authorize req.principal req.credential req.remoteAddr
      (req.headerValue "Host") req.proxyIndicated = .granted) :
    LocalClient req ∨ TrustedClient handler.authorizer.cfg req.credential := by
  have hpublic : req.principal ≠ .publicStatus := by
    intro hp
    rw [hp] at hcontrol
    cases hcontrol
  have hdata : req.principal ≠ .openAIDataPlane := by
    intro hp
    rw [hp] at hcontrol
    cases hcontrol
  have hmanaged : req.principal ≠ .managedClient := by
    intro hp
    rw [hp] at hcontrol
    cases hcontrol
  rw [RouteAuthorizer.authorize, if_neg hpublic, if_neg hdata, if_neg hmanaged] at h
  by_cases hlocal : req.directLoopback = true
  · exact .inl (directLoopback_iff.1 hlocal)
  right
  rw [HttpRequest.directLoopback] at hlocal
  rw [if_neg hlocal] at h
  by_cases hremote : handler.authorizer.cfg.controlAllowRemote = true
  · rw [hremote] at h
    refine ⟨hremote, ?_⟩
    by_cases hcontrolToken : handler.authorizer.control.check req.credential = true
    · exact .inl ((check_iff rfl).1 hcontrolToken)
    · right
      rw [if_neg hcontrolToken] at h
      by_cases hshared : (handler.authorizer.cfg.controlAllowDataPlaneToken &&
          handler.authorizer.cfg.dataPlane.required &&
          handler.authorizer.cfg.dataPlane.check req.credential) = true
      · rw [Bool.and_eq_true, Bool.and_eq_true] at hshared
        exact ⟨hshared.1.1, hshared.1.2, (check_iff hshared.1.2).1 hshared.2⟩
      · rw [if_neg hshared] at h
        cases h
  · rw [Bool.not_eq_true] at hremote
    rw [hremote] at h
    cases h

structure PassedOn (handler : PreRouting) (req : HttpRequest) : Prop where
  authorized : handler.authorization req = .granted
  origin : req.principal = .controlWrite → handler.originAllowed req = true

theorem passedOn_of_unhandled (hmethod : req.method ≠ "OPTIONS".toList)
    (h : handler.preRouting req = .unhandled) : PassedOn handler req := by
  rw [PreRouting.preRouting] at h
  cases hrefusal : handler.refusal req with
  | some response =>
      rw [hrefusal] at h
      cases h
  | none =>
      rw [hrefusal] at h
      dsimp only at h
      rw [if_neg hmethod] at h
      cases hauthorization : handler.authorization req with
      | authenticationRequired | forbidden =>
          rw [hauthorization] at h
          cases h
      | granted =>
          rw [hauthorization] at h
          dsimp only at h
          by_cases horigin : req.principal = .controlWrite ∧ handler.originAllowed req = false
          · rw [if_pos horigin] at h
            cases h
          · refine ⟨hauthorization, fun hwrite => ?_⟩
            simpa [hwrite] using horigin

theorem trustedOrigin_of_originAllowed (h : handler.originAllowed req = true) :
    TrustedOrigin handler.controlOrigins req := by
  rw [PreRouting.originAllowed, Bool.and_eq_true, Bool.or_eq_true, beq_iff_eq,
    List.contains_iff_mem, bne_iff_ne] at h
  refine ⟨fun origin hnonempty horigin => ?_, h.2⟩
  rcases h.1 with hempty | hlisted
  · exact absurd (horigin.symm.trans hempty) hnonempty
  · exact horigin ▸ hlisted

def PreRouting.withKeys (handler : PreRouting) (apiKeys : Option ApiKeyStore) : PreRouting :=
  { handler with authorizer := { handler.authorizer with apiKeys } }

/-- The managed keys have no say about a control request. -/
theorem preRouting_withKeys (apiKeys : Option ApiKeyStore)
    (hcontrol : req.principal.isControl = true) :
    (handler.withKeys apiKeys).preRouting req = handler.preRouting req := by
  have hauthorization : (handler.withKeys apiKeys).authorization req = handler.authorization req := by
    rw [PreRouting.authorization, PreRouting.authorization]
    cases hprincipal : req.principal with
    | publicStatus | openAIDataPlane | managedClient =>
        rw [hprincipal] at hcontrol
        cases hcontrol
    | dashboardSession | controlRead | controlWrite => rfl
  rw [PreRouting.preRouting, PreRouting.preRouting, hauthorization]
  rfl

structure ControlGuarded (handler : PreRouting) (req : HttpRequest) : Prop where
  client : handler.preRouting req = .unhandled →
    LocalClient req ∨ TrustedClient handler.authorizer.cfg req.credential
  origin : req.principal = .controlWrite → handler.preRouting req = .unhandled →
    TrustedOrigin handler.controlOrigins req
  keys : ∀ apiKeys, (handler.withKeys apiKeys).preRouting req = handler.preRouting req

/-- The authority parser accepts the loopback authorities, and the guard of the control plane lets
no other client through than a local or a trusted one. -/
theorem controlPlane_guarded :
    (∀ authority, isLoopbackAuthority authority = true ↔ LoopbackAuthority (lower authority)) ∧
      ∀ (handler : PreRouting) (req : HttpRequest), req.principal.isControl = true →
        req.method ≠ "OPTIONS".toList → req.dashboardLogin = false →
          ControlGuarded handler req := by
  refine ⟨isLoopbackAuthority_iff, fun handler req hcontrol hmethod hlogin => ⟨fun h => ?_,
    fun hwrite h => ?_, fun apiKeys => preRouting_withKeys apiKeys hcontrol⟩⟩
  · have hauthorized := (passedOn_of_unhandled hmethod h).authorized
    rw [PreRouting.authorization, hlogin] at hauthorized
    exact authorize_control hcontrol hauthorized
  · exact trustedOrigin_of_originAllowed ((passedOn_of_unhandled hmethod h).origin hwrite)

def statusRequest : HttpRequest where
  method := "GET".toList
  path := "/api/inferdeck/v1/status".toList
  remoteAddr := "127.0.0.1".toList
  headers := [("Host".toList, "LocalHost:8080".toList)]

def localGuard : PreRouting where
  authorizer :=
    { cfg := {}, sha256 := fun _ => .error { code := .ioError, message := "no digest" }
      apiKeys := none }
  controlOrigins := []
  openaiDerivativeCompatibilityEnabled := false
  stopping := false

theorem statusRequest_guarded :
    localGuard.preRouting statusRequest = .unhandled ∧ ControlGuarded localGuard statusRequest :=
  ⟨by decide +kernel, controlPlane_guarded.2 _ _ (by decide) (by decide) (by decide)⟩

end InferDeck.Gateway
