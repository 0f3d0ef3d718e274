import InferDeck.AliasContract
import InferDeck.JsonBody
import InferDeck.PathConfinement

/-!
# The manifest of the installed models

`load_manifest` reads `installed.json` when the store is made: it registers the models one by one
and lists each in `installed_`. One handler stands around the whole loop. The file system is its
canonical paths and what stands at each.
-/

namespace InferDeck.Gateway

open InferDeck.Foundation InferDeck.Model InferDeck.Paths

inductive FileKind where
  | regular
  | directory
  | other
  deriving DecidableEq, Repr

def pathString (p : Path) : String :=
  (if p.absolute then "/" else "") ++ "/".intercalate p.names ++ (if p.trailing then "/" else "")

/-- The file system while the manifest is read. A path that has no canonical form has the empty one,
and nothing stands there. -/
structure StoreFiles where
  root : Path
  canonical : String → Path
  kind : Path → FileKind

def capabilitiesFor (runtime modality : String) : List String :=
  if modality = "embedding" then ["embeddings"]
  else if runtime = "stable_diffusion_cpp" then ["image_generation"]
  else if runtime = "ltx_video_cpp" then ["video_generation"]
  else if runtime = "ace_step_cpp" then ["audio_generation"]
  else if runtime = "whisper_cpp" then ["audio_transcription"]
  else if runtime = "sherpa_onnx" then
    [if modality = "audio_transcription" then "audio_transcription" else "audio_speech"]
  else ["chat_completions", "responses"]

/-- `get<std::vector<std::string>>`. -/
def Json.strings? : Json → Option (List String)
  | .array items => items.mapM string?
  | _ => none

/-- What the file holds: nothing can be read, it is not JSON, not an object, or the entries. -/
inductive Manifest where
  | absent
  | malformed
  | other
  | entries (models : Map String Json)

def Manifest.models : Manifest → Map String Json
  | entries models => models
  | _ => ∅

/-- What loading and saving the manifest read and write of the store. -/
structure ManifestStore where
  registry : ModelRegistry
  installed : Map String Json := ∅

section Load

variable (files : StoreFiles)

def entryArtifacts (path : Path) (value : Json) : Except Refusal (List (String × String)) :=
  match value.field? "artifacts" with
  | some (.object fields) => do
      let named ← fields.mapM fun (key, artifact) =>
        (artifact.string?.elim (.error thrown) .ok : Except Refusal String).map fun text =>
          (key, files.canonical text)
      return (named.filter fun artifact =>
        files.kind artifact.2 == .regular && isPathWithin path artifact.2).map
          fun artifact => (artifact.1, pathString artifact.2)
  | _ => .ok []

/-- The model of an entry, `none` where the loop goes on with the next one. The family and the file
of a model are for its backend only. -/
def readEntry (name : String) (value : Json) : Except Refusal (Option ModelInfo) := do
  require value.isObject thrown
  let path := files.canonical (← value.valueOr "path" Json.string? "")
  if files.kind path = .other ∨ !isPathWithin files.root path then return none
  let _family ← value.valueOr "family" Json.string? ""
  let runtime ← value.valueOr "runtime" Json.string? "llama_cpp"
  let modality ← value.valueOr "modality" Json.string? "text"
  let capabilities ← value.valueOr "capabilities" Json.strings? (capabilitiesFor runtime modality)
  let artifacts ← entryArtifacts files path value
  if files.kind path = .directory ∧ artifacts = [] then return none
  let vramRequiredMb ← value.valueOr "vramRequiredMb" Json.getInt 0
  return some { name, runtime, modality, capabilities, artifacts, vramRequiredMb }

namespace ManifestStore

/-- One turn of the loop. -/
def loadEntry (store : ManifestStore) (name : String) (value : Json) :
    Except Refusal ManifestStore := do
  match ← readEntry files name value with
  | none => return store
  | some info =>
      let listed := store.installed.insert name value
      if store.registry.entries.contains info.name then return { store with installed := listed }
      match store.registry.registerModel info with
      | (.error _, _) => .error thrown
      | (.ok (), registry) => return { registry, installed := listed }

/-- The loop within its handler, which drops the whole list. -/
def loadEntries (store : ManifestStore) : List (Sigma fun _ : String => Json) → ManifestStore
  | [] => store
  | entry :: rest =>
      match store.loadEntry files entry.1 entry.2 with
      | .error _ => { store with installed := ∅ }
      | .ok store => store.loadEntries rest

def loadManifest (store : ManifestStore) : Manifest → ManifestStore
  | .absent | .other => store
  | .malformed => { store with installed := ∅ }
  | .entries models => store.loadEntries files models.entries

end ManifestStore

end Load

/-- Whether the manifest is saved, and the file after it: the temporary file is written, and then
replaces the manifest. -/
def ManifestStore.saveManifest (store : ManifestStore) (written : Bool) (replaced : Result Unit)
    (file : Manifest) : Result Unit × Manifest :=
  if !written then (err .ioError "cannot write model store manifest", file)
  else
    match replaced with
    | .error e => (.error e, file)
    | .ok () => (.ok (), .entries store.installed)

end InferDeck.Gateway
