import InferDeck.ControlGuard
import InferDeck.JsonBody

/-!
# The embeddings, image and audio generation routes

Each handler up to the request it hands to a backend: the body is parsed already, and what follows
the acquisition of a slot is left out. The registry is constant while a request is read.
-/

namespace InferDeck.Gateway

open InferDeck.Model

inductive CompatibilityProfile where
  | strictOpenAI
  | openAIDerivative
  | internal
  deriving DecidableEq, Repr

/-- What the handlers read of the gateway. `singlePrecision` is the conversion to `float`, `none`
where the result is not finite. -/
structure RouteDeps where
  compatibilityProfile : CompatibilityProfile
  registry : ModelRegistry
  defaultModel : String := ""
  mediaDefaultModels : List (String × String) := []
  apiKeys : Option ApiKeyStore := none
  publicDataPlaneAccess : Bool := false
  sha256 : Text → Foundation.Result Hash
  singlePrecision : ℚ → Option ℚ

namespace RouteDeps

variable (deps : RouteDeps)

def mediaDefaultModel (media : String) : String :=
  (deps.mediaDefaultModels.lookup media).getD deps.defaultModel

def resolveModelName (name : String) : Except Refusal String :=
  match deps.registry.resolve name with
  | .ok resolved => .ok resolved
  | .error e => .error { status := 404, code := "model_not_found", message := e.message }

def supports (name capability : String) : Bool :=
  match deps.registry.getInfoResult name with
  | .ok info => info.supports capability
  | .error _ => false

def getFloat : Json → Option (Option ℚ)
  | .boolean b => some (deps.singlePrecision (if b then 1 else 0))
  | j => j.number?.map deps.singlePrecision

end RouteDeps

/-- `!std::isfinite(x) || x < low || x > high` is false. -/
def finiteIn (low high : ℚ) (x : Option ℚ) : Bool :=
  x.any fun x => decide (low ≤ x ∧ x ≤ high)

/-! ### Embeddings -/

inductive EmbeddingInput where
  | text (text : String)
  | tokens (tokens : List ℤ)
  deriving DecidableEq, Repr

def EmbeddingInput.size : EmbeddingInput → ℕ
  | .text s => s.utf8ByteSize
  | .tokens ids => ids.length

structure EmbeddingRequest where
  inputs : List EmbeddingInput
  dimensions : Option ℤ := none
  deriving DecidableEq, Repr

/-- The request for a slot, with the priority that `acquire_for_request` resolves, and the request to
the backend. -/
structure EmbeddingCall where
  model : String
  priority : ℤ
  request : EmbeddingRequest
  deriving DecidableEq, Repr

def tokenId (token : Json) : Except Refusal ℤ :=
  match token.integer? with
  | none => .error (badRequest "invalid_input" "every token ID must be an integer" "input")
  | some n =>
      if 0 ≤ n ∧ n ≤ Foundation.intMax then .ok n
      else .error (badRequest "invalid_input" "token IDs must be non-negative 32-bit integers" "input")

def parseTokenArray : Json → Except Refusal EmbeddingInput
  | .array (token :: tokens) => do
      let ids ← (token :: tokens).mapM tokenId
      return .tokens ids
  | _ => .error (badRequest "invalid_input" "token input must be a non-empty array" "input")

def textItem (item : Json) : Except Refusal EmbeddingInput :=
  match item.string? with
  | some text => .ok (.text text)
  | none =>
      .error (badRequest "invalid_input" "input arrays cannot mix strings and token IDs" "input")

def tokenArrayItem : Json → Except Refusal EmbeddingInput
  | .array items => parseTokenArray (.array items)
  | _ => .error (badRequest "invalid_input" "input arrays cannot mix token IDs and token arrays" "input")

def parseInput (body : Json) : Except Refusal (List EmbeddingInput) :=
  match body.field? "input" with
  | none => .error (badRequest "invalid_input" "request body must include 'input'" "input")
  | some (.string text) => .ok [.text text]
  | some (.array items) =>
      if items.length = 0 ∨ 256 < items.length then
        .error (badRequest "invalid_input" "input must contain 1 to 256 items" "input")
      else
        match items.head? with
        | some (.string _) => items.mapM textItem
        | some (.array _) => items.mapM tokenArrayItem
        | _ => do
            let parsed ← parseTokenArray (.array items)
            return [parsed]
  | some _ =>
      .error (badRequest "invalid_input"
        "input must be a string, string array, token array, or token matrix" "input")

/-- Every item and every sum of the first items is within its limit. -/
def sizesOk (total : ℕ) : List EmbeddingInput → Bool
  | [] => true
  | item :: items =>
      decide (0 < item.size ∧ item.size ≤ 1048576 ∧ total + item.size ≤ 4194304) &&
        sizesOk (total + item.size) items

def supportedEmbeddingFields : List String := ["model", "input", "encoding_format", "dimensions", "user"]

def unsupportedField (body : Json) (supported : List String) : Option String :=
  (body.fields.map Prod.fst).find? fun key => !supported.contains key

def dimensionsOk (n : ℤ) : Bool := decide (0 < n ∧ n ≤ 65536)

def readDimensions (body : Json) : Except Refusal (Option ℤ) :=
  let refusal := badRequest "invalid_dimensions" "dimensions must be a positive integer" "dimensions"
  match body.field? "dimensions" with
  | none => .ok none
  | some j =>
      if j.isNumberInteger then
        match j.getInt with
        | some n => if dimensionsOk n then .ok (some n) else .error refusal
        | none => .error thrown
      else .error refusal

def userOk (body : Json) : Bool :=
  match body.field? "user" with
  | none => true
  | some j => j.string?.any fun user => decide (user.utf8ByteSize ≤ 64)

def readPriority (body : Json) : ℤ :=
  match body.field? "priority" with
  | some j => if j.isNumberInteger then j.getInt.getD 0 else 0
  | none => 0

/-- The checks before the dimensions: the model's name and the inputs. -/
def readEmbeddingInputs (deps : RouteDeps) (body : Json) : Except Refusal (String × List EmbeddingInput) := do
  require body.isObject (badRequest "invalid_request_error" "request body must be an object")
  if deps.compatibilityProfile = .strictOpenAI then
    match unsupportedField body supportedEmbeddingFields with
    | some key =>
        throw (badRequest "unsupported_parameter" ("unsupported Embeddings parameter: " ++ key) key)
    | none => pure ()
  let requested := ((body.field? "model").bind Json.string?).getD ""
  require (requested != "") (badRequest "missing_model" "request body must include 'model'" "model")
  let inputs ← parseInput body
  require (sizesOk 0 inputs) (badRequest "invalid_input" "embedding input is empty or too large" "input")
  return (requested, inputs)

/-- The checks after the dimensions, and the model that takes the request. -/
def embeddingModel (deps : RouteDeps) (body : Json) (requested : String) : Except Refusal String := do
  require (userOk body) (badRequest "invalid_user" "user must be a string of at most 64 characters" "user")
  let encoding ← body.valueOr "encoding_format" Json.string? "float"
  require (encoding == "float" || encoding == "base64")
    (badRequest "unsupported_encoding" "encoding_format must be float or base64" "encoding_format")
  let model ← deps.resolveModelName requested
  require (deps.supports model "embeddings")
    (badRequest "unsupported_capability" ("model does not support embeddings: " ++ model))
  return model

def slotPriority (deps : RouteDeps) (authorization : Text) (body : Json) : ℤ :=
  ApiKeyStore.resolveRequestPriority deps.sha256 deps.apiKeys authorization (readPriority body)
    deps.publicDataPlaneAccess

def handleEmbeddings (deps : RouteDeps) (authorization : Text) (body : Json) :
    Except Refusal EmbeddingCall := do
  let (requested, inputs) ← readEmbeddingInputs deps body
  let dimensions ← readDimensions body
  let model ← embeddingModel deps body requested
  return { model, priority := slotPriority deps authorization body,
           request := { inputs, dimensions } }

/-! ### Image generation -/

structure ImageGenerationRequest where
  prompt : String
  negativePrompt : String := ""
  width : ℤ := 1024
  height : ℤ := 1024
  count : ℤ := 1
  steps : ℤ := 20
  seed : ℤ := -1
  guidanceScale : Option ℚ := some 7
  deriving DecidableEq, Repr

structure ImageCall where
  model : String
  request : ImageGenerationRequest
  deriving DecidableEq, Repr

/-- The decimal number that `%d` reads, and the text after it. -/
def scanInt (text : List Char) : Option (ℤ × List Char) :=
  let text := text.dropWhile isSpace
  let unsigned := if text.head? = some '-' ∨ text.head? = some '+' then text.tail else text
  let digits := unsigned.takeWhile Char.isDigit
  let n : ℤ := digitsValue digits
  if digits = [] then none
  else some (if text.head? = some '-' then -n else n, unsigned.dropWhile Char.isDigit)

/-- The two numbers of a size, as they were sent: `"%dx%d%c"` converts two, and nothing follows. -/
def scanSize (size : String) : Option (ℤ × ℤ) := do
  let (width, rest) ← scanInt (size.toList.takeWhile fun c => c != '\x00')
  let 'x' :: rest := rest | none
  let (height, rest) ← scanInt rest
  if rest = [] then some (width, height) else none

/-- What `%d` stores. The standard leaves a number outside of `int` open: the GNU library reads a
`long`, at most its largest and at least its smallest value, and narrows that. -/
def storedInt (n : ℤ) : ℤ := narrow 32 (max (-2 ^ 63) (min n (2 ^ 63 - 1)))

def supportedImageFields : List String :=
  ["model", "prompt", "background", "moderation", "n", "output_compression", "output_format",
    "partial_images", "quality", "response_format", "size", "stream", "style", "user"]

def enumFields : List (String × List String) :=
  [("background", ["transparent", "opaque", "auto"]), ("moderation", ["low", "auto"]),
    ("output_format", ["png", "jpeg", "webp"]),
    ("quality", ["standard", "hd", "low", "medium", "high", "auto"]),
    ("response_format", ["url", "b64_json"]), ("style", ["vivid", "natural"])]

def nativeDefaults : List (String × String) :=
  [("background", "auto"), ("moderation", "auto"), ("output_format", "png"), ("quality", "auto"),
    ("response_format", "b64_json")]

section Image

variable (body : Json)

def validateEnum (field : String × List String) : Except Refusal Unit :=
  require ((body.given? field.1).all fun j => j.string?.any field.2.contains)
    (badRequest "invalid_image_request" (field.1 ++ " has an invalid value") field.1)

def requireNativeDefault (field : String × String) : Except Refusal Unit :=
  require ((body.given? field.1).all fun j => j.string? == some field.2)
    (badRequest "unsupported_capability"
      ("native image model does not support the requested " ++ field.1) field.1)

/-- An integer field of the image route that goes no further, within its range after the reduction. -/
def intFieldIn (low high : ℤ) (j : Json) : Bool :=
  j.isNumberInteger && j.getInt.any fun n => decide (low ≤ n ∧ n ≤ high)

def checkOutputCompression : Except Refusal Unit :=
  match body.given? "output_compression" with
  | none => .ok ()
  | some j => do
      require (intFieldIn 0 100 j)
        (badRequest "invalid_image_request" "output_compression must be between 0 and 100"
          "output_compression")
      throw (badRequest "unsupported_capability" "output_compression is not supported for PNG output"
        "output_compression")

def checkStream : Except Refusal Unit :=
  match body.given? "stream" with
  | none => .ok ()
  | some j => do
      require j.isBoolean (badRequest "invalid_image_request" "stream must be a boolean" "stream")
      require (j.boolean? != some true)
        (badRequest "unsupported_capability" "streaming image generation is not supported" "stream")

def checkPartialImages : Except Refusal Unit :=
  match body.given? "partial_images" with
  | none => .ok ()
  | some j => do
      require (intFieldIn 0 3 j)
        (badRequest "invalid_image_request" "partial_images must be between 0 and 3" "partial_images")
      require (j.getInt == some 0)
        (badRequest "unsupported_capability" "partial_images requires unsupported image streaming"
          "partial_images")

/-- The checks of a profile other than the derivative one. -/
def checkOpenAIImage : Except Refusal Unit := do
  require body.isObject (badRequest "invalid_request_error" "request body must be an object")
  match unsupportedField body supportedImageFields with
  | some key => throw (badRequest "unsupported_parameter" ("unsupported Images parameter: " ++ key) key)
  | none => pure ()
  enumFields.forM (validateEnum body)
  nativeDefaults.forM (requireNativeDefault body)
  require (body.given? "style").isNone
    (badRequest "unsupported_capability" "style is not supported by the native image runtime" "style")
  checkOutputCompression body
  checkStream body
  checkPartialImages body
  require (userOk body) (badRequest "invalid_user" "user must be a string of at most 64 characters" "user")

/-- The types of the fields that are read afterwards. -/
def checkImageFields : Except Refusal Unit := do
  require body.isObject (badRequest "invalid_image_request" "request body must be an object")
  require ((body.field? "prompt").any Json.isString)
    (badRequest "invalid_image_request" "prompt must be a string" "prompt")
  require ((body.given? "model").all Json.isString)
    (badRequest "invalid_image_request" "model must be a string" "model")
  require ((body.given? "n").all Json.isNumberInteger)
    (badRequest "invalid_image_request" "n must be an integer" "n")
  require ((body.given? "size").all Json.isString)
    (badRequest "invalid_image_request" "size must be a string" "size")

def stringField (key fallback : String) : String := ((body.given? key).bind Json.string?).getD fallback

def sizeField : String := stringField body "size" "1024x1024"

/-- The number of images. -/
def readCount : Except Refusal ℤ :=
  match body.given? "n" with
  | none => .ok 1
  | some j => j.getInt.elim (.error thrown) .ok

end Image

def ImageGenerationRequest.valid (request : ImageGenerationRequest) : Bool :=
  request.prompt != "" && decide (request.prompt.utf8ByteSize ≤ 32000) &&
    decide (request.negativePrompt.utf8ByteSize ≤ 32768) &&
    decide (1 ≤ request.count ∧ request.count ≤ 10) &&
    decide (256 ≤ request.width ∧ 256 ≤ request.height ∧ request.width ≤ 2048 ∧
      request.height ≤ 2048 ∧ request.width % 64 = 0 ∧ request.height % 64 = 0) &&
    decide (1 ≤ request.steps ∧ request.steps ≤ 200) && finiteIn 0 50 request.guidanceScale

def invalidImage : Refusal :=
  badRequest "invalid_image_request" "invalid model, prompt, size, count, seed, steps, or guidance scale"

def readImageRequest (deps : RouteDeps) (body : Json) : Except Refusal ImageGenerationRequest := do
  let negativePrompt ← body.valueOr "negative_prompt" Json.string? ""
  let count ← readCount body
  let seed ← body.valueOr "seed" Json.getInt64 (-1)
  let steps ← body.valueOr "steps" Json.getInt 20
  let guidanceScale ← body.valueOr "guidance_scale" deps.getFloat (some 7)
  let some (width, height) := scanSize (sizeField body) | throw invalidImage
  return {
    prompt := stringField body "prompt" ""
    negativePrompt
    width := storedInt width
    height := storedInt height
    count
    steps
    seed
    guidanceScale }

def handleImageGenerations (deps : RouteDeps) (body : Json) : Except Refusal ImageCall := do
  if deps.compatibilityProfile ≠ .openAIDerivative then checkOpenAIImage body
  checkImageFields body
  let modelName := stringField body "model" (deps.mediaDefaultModel "image")
  let request ← readImageRequest deps body
  require (modelName != "" && request.valid) invalidImage
  let model ← deps.resolveModelName modelName
  require (deps.supports model "image_generation")
    (badRequest "unsupported_image_model" "model does not support image generation" "model")
  return { model, request }

/-! ### Audio generation -/

structure AudioGenerationRequest where
  prompt : String
  lyrics : String := ""
  durationSeconds : Option ℚ := some 30
  seed : ℤ := -1
  steps : ℤ := 0
  guidanceScale : Option ℚ := some 0
  deriving DecidableEq, Repr

structure AudioCall where
  model : String
  request : AudioGenerationRequest
  deriving DecidableEq, Repr

def supportedAudioFields : List String :=
  ["model", "prompt", "lyrics", "duration", "seed", "steps", "guidance_scale"]

def invalidAudio (message : String) (param : String := "") : Refusal :=
  badRequest "invalid_audio_generation" message param

/-- The types of the fields, each of which may be absent but not `null`. -/
def checkAudioFields (deps : RouteDeps) (body : Json) : Except Refusal Unit := do
  match unsupportedField body supportedAudioFields with
  | some key =>
      throw (badRequest "unsupported_parameter" ("unsupported audio generation parameter: " ++ key) key)
  | none => pure ()
  require ((body.field? "model").elim (deps.mediaDefaultModels.lookup "music").isSome Json.isString)
    (invalidAudio "model must be a string" "model")
  require ((body.field? "prompt").any Json.isString) (invalidAudio "prompt must be a string" "prompt")
  require ((body.field? "lyrics").all Json.isString) (invalidAudio "lyrics must be a string" "lyrics")
  require ((body.field? "duration").all Json.isNumber) (invalidAudio "duration must be a number" "duration")
  require ((body.field? "seed").all Json.isNumberInteger) (invalidAudio "seed must be an integer" "seed")
  require ((body.field? "steps").all Json.isNumberInteger) (invalidAudio "steps must be an integer" "steps")
  require ((body.field? "guidance_scale").all Json.isNumber)
    (invalidAudio "guidance_scale must be a number" "guidance_scale")

/-- The request of a body whose field types are checked, so that no read throws. -/
def readAudioRequest (deps : RouteDeps) (body : Json) : Except Refusal AudioGenerationRequest := do
  let lyrics ← body.valueOr "lyrics" Json.string? ""
  let durationSeconds ← body.valueOr "duration" deps.getFloat (some 30)
  let seed ← body.valueOr "seed" Json.getInt64 (-1)
  let steps ← body.valueOr "steps" Json.getInt 0
  let guidanceScale ← body.valueOr "guidance_scale" deps.getFloat (some 0)
  return { prompt := stringField body "prompt" "", lyrics, durationSeconds, seed, steps, guidanceScale }

def AudioGenerationRequest.valid (request : AudioGenerationRequest) : Bool :=
  request.prompt != "" && decide (request.prompt.utf8ByteSize ≤ 4096) &&
    decide (request.lyrics.utf8ByteSize ≤ 32768) && finiteIn 10 600 request.durationSeconds &&
    decide (-1 ≤ request.seed ∧ request.seed ≤ 4294967295) &&
    decide (0 ≤ request.steps ∧ request.steps ≤ 100) && finiteIn 0 50 request.guidanceScale

def handleAudioGenerations (deps : RouteDeps) (body : Json) : Except Refusal AudioCall := do
  require body.isObject (invalidAudio "request body must be a JSON object")
  checkAudioFields deps body
  let modelName := stringField body "model" ((deps.mediaDefaultModels.lookup "music").getD "")
  let request ← (readAudioRequest deps body).mapError fun _ =>
    invalidAudio "audio generation parameters are out of range"
  require (modelName != "" && decide (modelName.utf8ByteSize ≤ 256) && request.valid)
    (invalidAudio "model, prompt, lyrics, duration, seed, steps, or guidance_scale is invalid")
  let model ← deps.resolveModelName modelName
  require (deps.supports model "audio_generation")
    (badRequest "unsupported_audio_model" "model does not support audio generation" "model")
  return { model, request }

end InferDeck.Gateway
