import Mathlib
import InferDeck.Authority
import InferDeck.ModelManifest

/-!
# Bundles of the model store

`inspect` lists the files of a repository and, after them, one entry for each bundle that the
runtimes of several files could be given. `resolve_bundle` inspects the repository again and picks
the files of one bundle. A response is the repository's metadata as the catalogue functions read
it: a member that is missing, or has another type, is an empty text or no number.
-/

namespace InferDeck.Gateway.ModelStore

open InferDeck.Foundation InferDeck.Paths

/-! ## Names of artifacts -/

/-- `find` of a pattern that does not give `npos`. -/
def occurs (pattern : String) (text : Text) : Bool := text.tails.any pattern.toList.isPrefixOf

def startsWith (text : Text) (pattern : String) : Bool := pattern.toList.isPrefixOf text

def endsWith (text : Text) (pattern : String) : Bool := pattern.toList.isSuffixOf text

def lowered (name : String) : Text := lower name.toList

/-- What stands between the separators. -/
def segments : Text → List Text
  | [] => []
  | c :: rest =>
      if c = '/' then [] :: segments rest
      else match segments rest with
        | [] => [[c]]
        | first :: others => (c :: first) :: others

def pathNames (name : String) : List String :=
  ((segments name.toList).filter fun segment => segment ≠ []).map String.ofList

theorem notMem_segments (text : Text) : ∀ segment ∈ segments text, '/' ∉ segment := by
  induction text with
  | nil => simp [segments]
  | cons c rest ih =>
      intro segment hsegment
      by_cases hc : c = '/'
      · rw [segments, if_pos hc, List.mem_cons] at hsegment
        obtain rfl | hsegment := hsegment
        · simp
        · exact ih segment hsegment
      · rw [segments, if_neg hc] at hsegment
        cases hrest : segments rest with
        | nil =>
            rw [hrest] at hsegment
            simpa [List.mem_singleton.1 hsegment] using Ne.symm hc
        | cons first others =>
            rw [hrest] at hsegment ih
            obtain rfl | hsegment := List.mem_cons.1 hsegment
            · simpa [Ne.symm hc] using ih first (by simp)
            · exact ih segment (by simp [hsegment])

theorem pathNames_ok (name : String) :
    ∀ component ∈ pathNames name, component ≠ "" ∧ '/' ∉ component.toList := by
  intro component h
  simp only [pathNames, List.mem_map, List.mem_filter, decide_eq_true_eq] at h
  obtain ⟨segment, ⟨hsegment, hne⟩, rfl⟩ := h
  refine ⟨fun hempty => hne ?_, ?_⟩
  · simpa using congrArg String.toList hempty
  · simpa using notMem_segments name.toList segment hsegment

def pathTrailing (name : String) : Bool :=
  name.toList.getLast? == some '/' && !(pathNames name).isEmpty

theorem pathTrailing_ok (name : String) (h : pathTrailing name = true) : pathNames name ≠ [] := by
  simp only [pathTrailing, Bool.and_eq_true, Bool.not_eq_true', List.isEmpty_eq_false_iff] at h
  exact h.2

def toPath (name : String) : Path where
  absolute := name.toList.head? == some '/'
  names := pathNames name
  trailing := pathTrailing name
  names_ok := pathNames_ok name
  trailing_ok := pathTrailing_ok name

def fileName (name : String) : Text := (name.toList.reverse.takeWhile fun c => c ≠ '/').reverse

/-- `stem` and `extension` of a file name: the last dot parts them, unless it comes first. -/
def splitExtension (file : Text) : Text × Text :=
  if file = ['.'] ∨ file = ['.', '.'] then (file, [])
  else match file.reverse.dropWhile fun c => c ≠ '.' with
    | _ :: c :: stem =>
        ((c :: stem).reverse, '.' :: (file.reverse.takeWhile fun c => c ≠ '.').reverse)
    | _ => (file, [])

def extension (name : String) : Text := lower (splitExtension (fileName name)).2

def isAlnum (c : Char) : Bool := c.isAlpha || c.isDigit

/-- A character that is not allowed gives an underscore for each of its bytes. -/
def safeName (value : Text) : String :=
  let output := (value.flatMap fun c =>
    if isAlnum c || c == '-' || c == '_' || c == '.' then [c] else List.replicate c.utf8Size '_')
  let output := output.dropWhile fun c => c == '.'
  if output.isEmpty then "model" else String.ofList output

def validRepo (repo : String) : Bool :=
  match repo.toList.findIdx? fun c => c == '/' with
  | none => false
  | some slash =>
      slash ≠ 0 && decide (slash + 1 < repo.toList.length) && !occurs ".." repo.toList &&
        !(repo.toList.drop (slash + 1)).contains '/' &&
        repo.toList.all fun c => isAlnum c || c == '-' || c == '_' || c == '.' || c == '/'

def validArtifactPath (name : String) : Bool :=
  let path := (toPath name).lexicallyNormal
  !path.isEmpty && !path.absolute && !path.parts.contains ".."

def artifactKey (name : String) : String :=
  let lowerName := lower (fileName name)
  let gguf := (splitExtension lowerName).2 == ".gguf".toList
  if lowerName = "tts.json".toList then "tts_json"
  else if occurs "voice_styles" lowerName then "voice_style"
  else if occurs "qwen3-embedding" lowerName then "text_encoder"
  else if startsWith lowerName "acestep-5hz-lm" && gguf then "language_model"
  else if startsWith lowerName "acestep-v15" && gguf then "dit"
  else if occurs "vae" lowerName && gguf then "vae"
  else
    match ["duration_predictor", "text_encoder", "vector_estimator", "unicode_indexer",
        "voice_style", "tts_json", "encoder", "decoder", "joiner", "tokens", "vocab", "voices",
        "lexicon", "vocoder", "model"].find? fun key => occurs key lowerName with
    | some key => key
    | none => safeName (splitExtension (fileName name)).1

/-- No key is the empty text. -/
def ltxArtifactKey (name : String) : String :=
  let lowerName := lower (fileName name)
  if lowerName = "ltx-2.3-22b-dev-ud-q4_k_m.gguf".toList then "diffusion_model"
  else if lowerName = "ltx-2.3-22b-dev_embeddings_connectors.safetensors".toList then
    "embeddings_connectors"
  else if lowerName = "ltx-2.3-22b-dev_video_vae.safetensors".toList then "vae"
  else if lowerName = "ltx-2.3-22b-dev_audio_vae.safetensors".toList then "audio_vae"
  else if lowerName = "gemma-3-12b-it-qat-ud-q4_k_xl.gguf".toList then "llm"
  else ""

def compatibleExtension (filename runtime : String) : Bool :=
  let has := fun extensions : List String =>
    extensions.any fun known => extension filename == known.toList
  if runtime = "llama_cpp" then has [".gguf"]
  else if runtime = "ltx_video_cpp" then has [".gguf", ".safetensors"]
  else if runtime = "stable_diffusion_cpp" then
    has [".safetensors", ".gguf", ".ckpt", ".pth", ".pt"]
  else if runtime = "ace_step_cpp" then has [".gguf"]
  else if runtime = "whisper_cpp" then has [".bin", ".gguf"]
  else if runtime = "sherpa_onnx" then has [".onnx", ".ort", ".bin", ".txt", ".json"]
  else false

def inferRuntime (filename pipeline context : String) : String :=
  let name := lowered filename
  let tag := lowered pipeline
  let searchable := lowered (filename ++ " " ++ pipeline ++ " " ++ context)
  if occurs "ltx-2.3" searchable || occurs "ltx2.3" searchable then "ltx_video_cpp"
  else if occurs "ace-step" searchable || occurs "acestep" searchable then "ace_step_cpp"
  else if endsWith name ".onnx" || endsWith name ".ort" then "sherpa_onnx"
  else if occurs "text-to-image" tag || endsWith name ".safetensors" then "stable_diffusion_cpp"
  else if occurs "automatic-speech-recognition" tag then "whisper_cpp"
  else if occurs "text-to-speech" tag then "sherpa_onnx"
  else "llama_cpp"

def inferModality (runtime pipeline : String) : String :=
  if runtime = "ltx_video_cpp" then "video"
  else if runtime = "stable_diffusion_cpp" then "image"
  else if runtime = "ace_step_cpp" then "audio_generation"
  else if runtime = "whisper_cpp" then "audio_transcription"
  else if runtime = "sherpa_onnx" then
    if occurs "automatic-speech-recognition" (lowered pipeline) then "audio_transcription"
    else "audio_speech"
  else if occurs "feature-extraction" (lowered pipeline) then "embedding"
  else "text"

def isSplitGguf (name : String) : Bool :=
  endsWith (lower (fileName name)) ".gguf" && occurs "-of-" (lower (fileName name))

def isPrimaryLlamaArtifact (name : String) : Bool :=
  let filename := lower (fileName name)
  validArtifactPath name && compatibleExtension name "llama_cpp" && !isSplitGguf name &&
    !startsWith filename "mmproj" && !occurs "-mmproj" filename &&
    !occurs "/mtp/" (lowered name) && !occurs "-mtp-" filename

def isPrimaryImageArtifact (name : String) : Bool :=
  let filename := lower (fileName name)
  validArtifactPath name && compatibleExtension name "stable_diffusion_cpp" &&
    (["/vae/", "/text_encoder/", "/text_encoder_2/", "/clip/", "/controlnet/", "/lora/", "/unet/",
      "/transformer/"].all fun component => !occurs component ('/' :: lowered name)) &&
    ["vae", "ae.", "clip", "text_encoder", "pytorch_model", "diffusion_pytorch_model"].all
      fun first => !startsWith filename first

def isPrimaryWhisperArtifact (name : String) : Bool :=
  validArtifactPath name && compatibleExtension name "whisper_cpp" && !isSplitGguf name &&
    (extension name == ".gguf".toList ||
      extension name == ".bin".toList && startsWith (lower (fileName name)) "ggml-")

def sherpaBundleName : String := "__inferdeck_sherpa_bundle__"

def ltxBundleName : String := "__inferdeck_ltx_bundle__"

def aceStepBundlePrefix : String := "__inferdeck_ace_step_bundle__:"

def isAceStepBundle (name : String) : Bool := startsWith name.toList aceStepBundlePrefix

def aceStepBundleName (ditName : String) : String := aceStepBundlePrefix ++ ditName

def aceStepBundleDit (name : String) : Option String :=
  if !isAceStepBundle name then none
  else
    let ditName := String.ofList (name.toList.drop aceStepBundlePrefix.toList.length)
    if !validArtifactPath ditName || artifactKey ditName ≠ "dit" then none else some ditName

/-! ## Inspection -/

structure Sibling where
  rfilename : String
  lfsSize : Option (Int64 ⊕ UInt64) := none
  size : Option (Int64 ⊕ UInt64) := none
  lfsSha256 : String := ""
  lfsOid : String := ""

/-- What the source answers about a repository. -/
structure Details where
  pipeline : String
  tags : String
  siblings : List Sibling

/-- A file or a bundle of the list; only a bundle has a number of artifacts. -/
structure StoreEntry where
  name : String
  size : UInt64
  sha256 : String
  runtime : String
  modality : String
  capabilities : List String
  compatible : Bool
  artifactCount : Option ℕ := none

def catalogueUnsigned : Option (Int64 ⊕ UInt64) → UInt64
  | none => 0
  | some (.inr value) => value
  | some (.inl value) => if 0 < value then value.toUInt64 else 0

section Inspect

variable (repo : String) (details : Details)

def sherpaAsrRepository : Bool :=
  occurs "automatic-speech-recognition" (lowered details.pipeline) &&
    details.siblings.any fun sibling =>
      endsWith (lowered sibling.rfilename) ".onnx" || endsWith (lowered sibling.rfilename) ".ort"

def fileRuntime (filename : String) : String :=
  if sherpaAsrRepository details then "sherpa_onnx"
  else inferRuntime filename details.pipeline
    (String.ofList (lowered (repo ++ " " ++ details.pipeline ++ " " ++ details.tags)))

/-- The entry of a file; most files of a repository have none. -/
def fileEntry (sibling : Sibling) : Option StoreEntry :=
  let filename := sibling.rfilename
  let runtime := fileRuntime repo details filename
  if filename = "" || !compatibleExtension filename runtime then none
  else if (runtime = "llama_cpp" && !isPrimaryLlamaArtifact filename) ||
      (runtime = "stable_diffusion_cpp" && !isPrimaryImageArtifact filename) ||
      (runtime = "whisper_cpp" && !isPrimaryWhisperArtifact filename) then none
  else
    let lfsSize := catalogueUnsigned sibling.lfsSize
    let size := if 0 < lfsSize then lfsSize else catalogueUnsigned sibling.size
    let sha := if sibling.lfsSha256 = "" then sibling.lfsOid else sibling.lfsSha256
    let modality := inferModality runtime details.pipeline
    some {
      name := filename
      size := size
      sha256 := sha
      runtime := runtime
      modality := modality
      capabilities := capabilitiesFor runtime modality
      compatible := decide (0 < size) && sha.utf8ByteSize == 64 }

def fileEntries : List StoreEntry := details.siblings.filterMap (fileEntry repo details)

def totalSize (files : List StoreEntry) : UInt64 := (files.map StoreEntry.size).sum

def containsAll (keys required : List String) : Bool := required.all keys.contains

/-- The keys of a file: one that an engine runs is also the model of a speech bundle. -/
def sherpaKeys (modality : String) (file : StoreEntry) : List String :=
  artifactKey file.name ::
    if modality = "audio_speech" ∧
        (extension file.name = ".onnx".toList ∨ extension file.name = ".ort".toList) then ["model"]
    else []

def asrKeys : List String := ["encoder", "decoder", "joiner", "tokens"]

def supertonicKeys : List String :=
  ["duration_predictor", "text_encoder", "vector_estimator", "vocoder", "tts_json",
    "unicode_indexer", "voice_style"]

def ttsKeys : List String := ["model", "tokens"]

def ltxKeys : List String := ["diffusion_model", "embeddings_connectors", "vae", "audio_vae", "llm"]

def sherpaFiles (files : List StoreEntry) : List StoreEntry :=
  files.filter fun file => file.runtime == "sherpa_onnx" && validArtifactPath file.name

def sherpaComplete (modality : String) (keys : List String) : Bool :=
  let supertonic := keys.contains "duration_predictor" || keys.contains "text_encoder" ||
    keys.contains "vector_estimator"
  if modality = "audio_transcription" then containsAll keys asrKeys
  else if supertonic then containsAll keys supertonicKeys
  else containsAll keys ttsKeys

def sherpaBundle (files : List StoreEntry) : List StoreEntry :=
  let parts := sherpaFiles files
  let modality := inferModality "sherpa_onnx" details.pipeline
  if parts.isEmpty then []
  else [{
    name := sherpaBundleName
    size := totalSize parts
    sha256 := ""
    runtime := "sherpa_onnx"
    modality := modality
    capabilities := capabilitiesFor "sherpa_onnx" modality
    compatible := parts.all StoreEntry.compatible &&
      sherpaComplete modality (parts.flatMap (sherpaKeys modality))
    artifactCount := some parts.length }]

def ltxFiles (files : List StoreEntry) : List StoreEntry :=
  files.filter fun file => file.runtime == "ltx_video_cpp" && ltxArtifactKey file.name ≠ "" &&
    validArtifactPath file.name

def ltxBundle (files : List StoreEntry) : List StoreEntry :=
  let parts := ltxFiles files
  if parts.isEmpty then []
  else [{
    name := ltxBundleName
    size := totalSize parts
    sha256 := ""
    runtime := "ltx_video_cpp"
    modality := "video"
    capabilities := capabilitiesFor "ltx_video_cpp" "video"
    compatible := parts.all StoreEntry.compatible &&
      containsAll (parts.map fun file => ltxArtifactKey file.name) ltxKeys && parts.length == 5
    artifactCount := some parts.length }]

structure Selected where
  name : String
  priority : ℕ
  size : UInt64

def acePriority (artifact name : String) : ℕ :=
  if artifact = "text_encoder" && occurs "q8_0" (lowered name) then 0
  else if artifact = "vae" && occurs "bf16" (lowered name) then 0
  else 1

def isAceArtifact (artifact : String) (file : StoreEntry) : Bool :=
  file.runtime == "ace_step_cpp" && artifactKey file.name == artifact &&
    validArtifactPath file.name && file.compatible

def selectAce (artifact : String) (selected : Option Selected) (file : StoreEntry) :
    Option Selected :=
  let priority := acePriority artifact file.name
  let candidate : Selected := ⟨file.name, priority, file.size⟩
  if !isAceArtifact artifact file then selected
  else match selected with
    | none => some candidate
    | some best =>
        if priority < best.priority ∨ priority = best.priority ∧
            (file.size < best.size ∨ file.size = best.size ∧ file.name < best.name) then
          some candidate
        else some best

def preferredAceArtifact (files : List StoreEntry) (artifact : String) : Option String :=
  (files.foldl (selectAce artifact) none).map Selected.name

/-- The files that carry the name of the selected text encoder or of the selected VAE. -/
def aceSupport (files : List StoreEntry) : List StoreEntry :=
  files.filter fun file =>
    preferredAceArtifact files "text_encoder" == some file.name ||
      preferredAceArtifact files "vae" == some file.name

def aceDits (files : List StoreEntry) : List StoreEntry :=
  files.filter fun file => file.runtime == "ace_step_cpp" && artifactKey file.name == "dit" &&
    validArtifactPath file.name

def aceBundle (files : List StoreEntry) (dit : StoreEntry) : StoreEntry where
  name := aceStepBundleName dit.name
  size := totalSize (aceSupport files) + dit.size
  sha256 := ""
  runtime := "ace_step_cpp"
  modality := "audio_generation"
  capabilities := capabilitiesFor "ace_step_cpp" "audio_generation"
  compatible := (aceSupport files).length == 2 && dit.compatible
  artifactCount := some ((aceSupport files).length + 1)

/-- The files with the bundles of the first two runtimes. -/
def singleBundles : List StoreEntry :=
  fileEntries repo details ++ sherpaBundle details (fileEntries repo details) ++
    ltxBundle (fileEntries repo details ++ sherpaBundle details (fileEntries repo details))

def listing : List StoreEntry :=
  singleBundles repo details ++
    (aceDits (singleBundles repo details)).map (aceBundle (singleBundles repo details))

/-- The list of `ModelStore::inspect`, given what the source answers. -/
def inspect (response : Result Details) : Result (List StoreEntry) :=
  if !validRepo repo then err .invalidArgument "invalid repository id"
  else response.map (listing repo)

end Inspect

/-! ## Resolution -/

structure StoreFile where
  name : String
  sha256 : String
  size : UInt64
  runtime : String
  modality : String
  capabilities : List String

def StoreEntry.storeFile (file : StoreEntry) : StoreFile :=
  ⟨file.name, file.sha256, file.size, file.runtime, file.modality, file.capabilities⟩

/-- A name that only a bundle of the list may have. -/
def reservedName (name : String) : Bool :=
  name == sherpaBundleName || name == ltxBundleName || isAceStepBundle name

section Resolve

variable (runtime modality : String)

/-- A file of a bundle, given the names that a bundle of the ACE runtime takes. -/
def bundleFile (aceNames : List String) (file : StoreEntry) : Bool :=
  !reservedName file.name && file.runtime == runtime && file.modality == modality &&
    file.compatible && validArtifactPath file.name &&
    !(runtime == "ace_step_cpp" && !aceNames.contains file.name) &&
    !(runtime == "ltx_video_cpp" && ltxArtifactKey file.name == "") &&
    !(file.size == 0 || file.sha256.utf8ByteSize != 64)

def bundleKeys (file : StoreEntry) : List String :=
  (if runtime = "ltx_video_cpp" then ltxArtifactKey file.name else artifactKey file.name) ::
    if modality = "audio_speech" ∧
        (extension file.name = ".onnx".toList ∨ extension file.name = ".ort".toList) then ["model"]
    else []

/-- The keys of every file the runtime and the modality need are there. -/
def bundleComplete (artifacts : List StoreEntry) : Bool :=
  let keys := artifacts.flatMap (bundleKeys runtime modality)
  let supertonic := keys.contains "duration_predictor" || keys.contains "vector_estimator"
  if runtime = "ace_step_cpp" then
    modality == "audio_generation" && artifacts.length == 3 &&
      containsAll keys ["text_encoder", "dit", "vae"]
  else if modality = "audio_transcription" then containsAll keys asrKeys
  else if supertonic then containsAll keys supertonicKeys
  else containsAll keys ttsKeys

def selectBundle (aceNames : List String) (files : List StoreEntry) : Result (List StoreFile) :=
  let artifacts := files.filter (bundleFile runtime modality aceNames)
  if runtime = "ltx_video_cpp" then
    if !containsAll (artifacts.flatMap (bundleKeys runtime modality)) ltxKeys ||
        artifacts.length != 5 then
      err .invalidArgument "repository does not expose a complete verified LTX bundle"
    else .ok (artifacts.map StoreEntry.storeFile)
  else if !bundleComplete runtime modality artifacts || decide (artifacts.length < 2) then
    err .invalidArgument "repository does not expose a complete verified runtime bundle"
  else .ok (artifacts.map StoreEntry.storeFile)

/-- The names a bundle of the ACE runtime takes: its DiT, the text encoder and the VAE. -/
def aceBundleNames (bundleName : String) (files : List StoreEntry) : Result (List String) :=
  match aceStepBundleDit bundleName with
  | none => err .invalidArgument "invalid ACE-Step bundle selection"
  | some dit =>
      match preferredAceArtifact files "text_encoder", preferredAceArtifact files "vae" with
      | some textEncoder, some vae =>
          if files.any fun file => file.name == bundleName && file.compatible then
            .ok [dit, textEncoder, vae]
          else
            err .invalidArgument
              "repository does not expose the selected complete verified runtime bundle"
      | _, _ =>
          err .invalidArgument
            "repository does not expose the selected complete verified runtime bundle"

def resolveBundle (repo : String) (response : Result Details) (bundleName : String) :
    Result (List StoreFile) :=
  if runtime ≠ "sherpa_onnx" ∧ runtime ≠ "ace_step_cpp" ∧ runtime ≠ "ltx_video_cpp" then
    err .invalidArgument "runtime does not use bundle installation"
  else do
    let files ← inspect repo response
    if runtime = "ltx_video_cpp" ∧ bundleName ≠ ltxBundleName then
      err .invalidArgument "invalid LTX bundle selection"
    else if runtime = "ace_step_cpp" then
      let names ← aceBundleNames bundleName files
      selectBundle runtime modality names files
    else selectBundle runtime modality [] files

end Resolve

end InferDeck.Gateway.ModelStore
