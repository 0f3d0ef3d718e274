import InferDeck.Foundation
import InferDeck.FiniteMap

/-!
# Model metadata and the registry

`ModelInfo` keeps the fields that registration, admission, residency, the swap path and the context
pool read. The registry maps a concrete model name to its metadata, keeps the aliases of concrete
models and knows which runtimes have a factory.
-/

namespace InferDeck.Model

open InferDeck.Foundation

inductive ModelRole where
  | conversation
  | helper
  | media
  | embedding
  | maintenance
  deriving DecidableEq, Repr

inductive ModelCompute where
  | cpu
  | vulkanGpu
  | cudaGpu
  | rocmGpu
  | mixed
  deriving DecidableEq, Repr

inductive ResidencyPolicy where
  | always
  | managed
  | onDemand
  deriving DecidableEq, Repr

structure ModelInfo where
  name : String := ""
  runtime : String := "llama_cpp"
  modality : String := "text"
  role : ModelRole := .conversation
  compute : ModelCompute := .vulkanGpu
  residency : ResidencyPolicy := .managed
  admissionPool : String := "conversation"
  concurrencyLimit : ℤ := 0
  memoryRequiredMb : ℤ := 0
  evictionEligible : Bool := true
  resourceMetadataExplicit : Bool := false
  capabilities : List String := ["chat_completions", "responses"]
  nSlots : ℤ := 2
  minSlots : ℤ := 1
  continuationGraceMs : ℤ := 0
  vramRequiredMb : ℤ := 0
  contextSize : ℤ := 65536
  defaultMaxOutputTokens : ℤ := 0
  contextPoolSize : ℤ := 0
  contextPoolAuto : Bool := false
  concurrencyAuto : Bool := false
  artifacts : List (String × String) := []
  deriving DecidableEq, Repr

def ModelInfo.supports (info : ModelInfo) (capability : String) : Bool :=
  info.capabilities.contains capability

def isPrimaryModel (info : ModelInfo) : Bool :=
  info.role == .conversation

def isPriorityMediaModel (info : ModelInfo) : Bool :=
  info.role == .media && (info.supports "audio_speech" || info.supports "audio_transcription")

def isIndependentSidecar (info : ModelInfo) : Bool :=
  !isPrimaryModel info && info.compute == .cpu

theorem not_primary_of_priorityMedia {info : ModelInfo} (h : isPriorityMediaModel info) :
    isPrimaryModel info = false := by
  simp only [isPriorityMediaModel, Bool.and_eq_true, beq_iff_eq] at h
  simp [isPrimaryModel, h.1]

theorem not_sidecar_of_primary {info : ModelInfo} (h : isPrimaryModel info) :
    isIndependentSidecar info = false := by
  simp [isIndependentSidecar, h]

structure ModelAlias where
  name : String := ""
  target : String := ""
  requiredContextSize : ℤ := 0
  requiredCapabilities : List String := []
  deriving DecidableEq, Repr

structure ModelRegistry where
  entries : Map String ModelInfo
  factories : List String
  aliases : Map String ModelAlias := ∅
  deriving DecidableEq

namespace ModelRegistry

def getInfoResult (registry : ModelRegistry) (name : String) : Result ModelInfo :=
  match registry.entries.lookup name with
  | some info => .ok info
  | none => err .notFound ("model not registered: " ++ name)

def hasFactory (registry : ModelRegistry) (runtime : String) : Bool :=
  registry.factories.contains runtime

end ModelRegistry

end InferDeck.Model
