import InferDeck.ModelInfo

/-!
# Registration of models and aliases

The operations that change the registry's entries and aliases. An operation that throws
`std::invalid_argument` returns an error with its text, as the ones with a result type do, and each
returns the registry after it.
-/

namespace InferDeck.Model

open InferDeck.Foundation

def roleName : ModelRole → String
  | .conversation => "conversation"
  | .helper => "helper"
  | .media => "media"
  | .embedding => "embedding"
  | .maintenance => "maintenance"

/-- The role of a model whose profile says nothing about its resources. -/
def impliedRole (info : ModelInfo) : ModelRole :=
  if info.supports "audio_speech" || info.supports "audio_transcription" ||
      info.supports "audio_generation" || info.supports "image_generation" ||
      info.supports "video_generation" then .media
  else if info.supports "embeddings" then .embedding
  else if info.modality = "text" then .conversation
  else if info.modality = "embedding" then .embedding
  else .media

def impliedCapabilities (info : ModelInfo) : List String :=
  if info.modality = "audio_speech" && !info.supports "audio_speech" then ["audio_speech"]
  else if info.modality = "audio_transcription" && !info.supports "audio_transcription" then
    ["audio_transcription"]
  else if info.modality = "audio_generation" && !info.supports "audio_generation" then
    ["audio_generation"]
  else if info.modality = "image" && !info.supports "image_generation" then ["image_generation"]
  else if info.modality = "video" && !info.supports "video_generation" then ["video_generation"]
  else if info.modality = "embedding" && !info.supports "embeddings" then ["embeddings"]
  else info.capabilities

def cpuNative (runtime : String) : Bool :=
  runtime == "whisper_cpp" || runtime == "sherpa_onnx" || runtime == "windows_sapi"

def implyResources (info : ModelInfo) : ModelInfo :=
  { info with
    role := impliedRole info
    compute := if cpuNative info.runtime then .cpu else .vulkanGpu
    residency := if cpuNative info.runtime then .always else .managed
    evictionEligible := !cpuNative info.runtime
    admissionPool := info.name
    capabilities := impliedCapabilities info }

def normalizeModelResources (info : ModelInfo) : ModelInfo :=
  let info := if info.resourceMetadataExplicit then info else implyResources info
  { info with
    admissionPool := if info.admissionPool = "" then roleName info.role else info.admissionPool
    concurrencyLimit := if info.concurrencyLimit ≤ 0 then info.nSlots else info.concurrencyLimit
    memoryRequiredMb := max 0 info.memoryRequiredMb }

def validateModelResources (info : ModelInfo) : Option String :=
  if info.admissionPool = "" then some "admission_pool must not be empty"
  else if info.concurrencyLimit < 1 ∨ info.nSlots < info.concurrencyLimit then
    some "concurrency_limit must be between 1 and n_slots"
  else if info.memoryRequiredMb < 0 then some "memory_required_mb cannot be negative"
  else if info.residency = .always ∧ info.evictionEligible then
    some "always-resident models cannot be eviction eligible"
  else if info.role = .conversation ∧ info.residency = .always ∧ info.compute = .cpu then
    some "CPU conversation models cannot be always resident"
  else if info.role = .helper ∧ info.residency ≠ .always then
    some "helper models must be always resident"
  else if info.role = .helper ∧ info.compute ≠ .cpu then some "helper models must use CPU compute"
  else if info.role = .embedding ∧ !info.supports "embeddings" then
    some "embedding role requires the embeddings capability"
  else none

def isHexDigit (c : Char) : Bool :=
  c.isDigit || ('a' ≤ c && c ≤ 'f') || ('A' ≤ c && c ≤ 'F')

section Artifacts

variable (artifacts : List (String × String))

def validateDecodeDll (prefill : String) : Option String :=
  match artifacts.lookup "decode_dll", artifacts.lookup "decode_dll_sha256" with
  | none, none => none
  | some dll, some digest =>
      if prefill ≠ "r4d_int4" then
        some "vllm_radiance decode DLL artifacts require prefill_attention: r4d_int4"
      else if dll = "" then some "vllm_radiance decode_dll must not be empty"
      else if digest.utf8ByteSize ≠ 64 then
        some "vllm_radiance decode_dll_sha256 must be a 64-character SHA-256 digest"
      else if !digest.toList.all isHexDigit then
        some "vllm_radiance decode_dll_sha256 must be a SHA-256 hex digest"
      else none
  | _, _ => some "vllm_radiance decode_dll and decode_dll_sha256 must be configured together"

def validateQuantizedPrefill (int4Kv : Bool) : Option String :=
  let absent := fun key => (artifacts.lookup key).getD "" = ""
  if !int4Kv then some "vllm_radiance r4d_int4 requires kv_cache_dtype: int4_per_token_head"
  else if artifacts.lookup "decode_dll" = none then
    some "vllm_radiance r4d_int4 requires decode_dll and decode_dll_sha256"
  else if absent "prefill_overlay" then
    some "vllm_radiance r4d_int4 requires artifact: prefill_overlay"
  else if absent "prefill_dll" then some "vllm_radiance r4d_int4 requires artifact: prefill_dll"
  else
    match artifacts.lookup "prefill_dll_sha256" with
    | none => some "vllm_radiance r4d_int4 requires a 64-character prefill_dll_sha256"
    | some digest =>
        if digest.utf8ByteSize ≠ 64 then
          some "vllm_radiance r4d_int4 requires a 64-character prefill_dll_sha256"
        else if !digest.toList.all isHexDigit then
          some "vllm_radiance prefill_dll_sha256 must be a SHA-256 hex digest"
        else none

def validateRuntimeArtifacts (runtime : String) : Option String :=
  let prefill := (artifacts.lookup "prefill_attention").getD "r4d"
  let kvDtype := artifacts.lookup "kv_cache_dtype"
  let int4Kv := kvDtype == some "int4_per_token_head"
  if runtime ≠ "vllm_radiance" then none
  else if prefill ≠ "r4d" ∧ prefill ≠ "r4d_int4" ∧ prefill ≠ "upstream" then
    some "vllm_radiance prefill_attention must be r4d, r4d_int4, or upstream"
  else if kvDtype ≠ none ∧ kvDtype ≠ some "auto" ∧ !int4Kv then
    some "vllm_radiance kv_cache_dtype must be auto or int4_per_token_head"
  else if (artifacts.lookup "gpu_memory_utilization").isSome then
    some "vllm_radiance gpu_memory_utilization is not a supported profile setting"
  else
    match validateDecodeDll artifacts prefill with
    | some error => some error
    | none =>
        if prefill = "r4d_int4" then validateQuantizedPrefill artifacts int4Kv
        else if prefill = "r4d" ∧ int4Kv then
          some ("vllm_radiance r4d prefill requires the default BF16 KV cache; " ++
            "use r4d_int4 for INT4 KV")
        else none

end Artifacts

namespace ModelRegistry

variable (r : ModelRegistry)

/-- Why `register_model` refuses a model, whose resources are normalized already. -/
def registrationError (info : ModelInfo) : Option String :=
  match validateRuntimeArtifacts info.artifacts info.runtime with
  | some error => some ("ModelRegistry::register_model: " ++ info.name ++ ": " ++ error)
  | none =>
      match validateModelResources info with
      | some error => some ("ModelRegistry::register_model: " ++ info.name ++ ": " ++ error)
      | none =>
          if info.name = "" then some "ModelRegistry::register_model: name is empty"
          else if r.aliases.contains info.name then
            some ("ModelRegistry::register_model: name conflicts with alias: " ++ info.name)
          else none

def registerModel (info : ModelInfo) : Result Unit × ModelRegistry :=
  let info := normalizeModelResources info
  match r.registrationError info with
  | some error => (err .invalidArgument error, r)
  | none => (.ok (), { r with entries := r.entries.insert info.name info })

def unregisterModel (name : String) : Result Unit × ModelRegistry :=
  match r.aliases.values.find? fun entry => entry.target = name with
  | some entry => (err .invalidArgument ("model is targeted by alias: " ++ entry.name), r)
  | none => (.ok (), { r with entries := r.entries.erase name })

def aliasNameOk (name : String) : Bool :=
  decide (name.utf8ByteSize ≤ 128) &&
    name.toList.all fun c => c.isAlphanum || c == '-' || c == '_' || c == '.'

/-- The contract that an alias enters with, or already has. -/
def aliasContract (requested : ModelAlias) (target : ModelInfo) : ModelAlias :=
  match r.aliases.lookup requested.name with
  | none =>
      { requested with
        requiredContextSize :=
          if requested.requiredContextSize ≤ 0 then target.contextSize else requested.requiredContextSize
        requiredCapabilities :=
          if requested.requiredCapabilities = [] then target.capabilities
          else requested.requiredCapabilities }
  | some existing =>
      { requested with
        requiredContextSize := existing.requiredContextSize
        requiredCapabilities := existing.requiredCapabilities }

def mismatches (requested : ModelAlias) (target : ModelInfo) : List String :=
  (if target.contextSize < requested.requiredContextSize then
      ["context_size requires at least " ++ toString requested.requiredContextSize] else []) ++
    (requested.requiredCapabilities.filter fun capability => !target.supports capability).map
      fun capability => "missing capability " ++ capability

def setAlias (requested : ModelAlias) : Result ModelAlias × ModelRegistry :=
  if requested.name = "" ∨ requested.target = "" then
    (err .invalidArgument "alias name and target are required", r)
  else if !aliasNameOk requested.name ∨ requested.requiredContextSize < 0 ∨
      requested.requiredCapabilities.contains "" then
    (err .invalidArgument "alias contract is invalid", r)
  else if requested.name = requested.target ∨ r.entries.contains requested.name then
    (err .alreadyExists "alias conflicts with a concrete model ID", r)
  else
    match r.entries.lookup requested.target with
    | none =>
        (err .invalidArgument
          (if r.aliases.contains requested.target then "aliases cannot target other aliases"
            else "alias target is not a registered concrete model"), r)
    | some target =>
        let accepted := r.aliasContract requested target
        match mismatches accepted target with
        | [] => (.ok accepted, { r with aliases := r.aliases.insert requested.name accepted })
        | errors =>
            (err .invalidArgument
              ("incompatible alias target: " ++ ", ".intercalate errors), r)

def removeAlias (name : String) : Result Unit × ModelRegistry :=
  if r.aliases.contains name then (.ok (), { r with aliases := r.aliases.erase name })
  else (err .notFound ("model alias not found: " ++ name), r)

def resolve (name : String) : Result String :=
  if r.entries.contains name then .ok name
  else
    match r.aliases.lookup name with
    | some entry =>
        if r.entries.contains entry.target then .ok entry.target
        else err .notFound ("model not registered: " ++ name)
    | none => err .notFound ("model not registered: " ++ name)

end ModelRegistry

end InferDeck.Model
