import InferDeck.StreamingSanitizer

/-!
# What generation gives

The pieces of a generation as the backends hand them out: the deltas of a stream and the result at
its end. `F` stands for the floating-point numbers, which nothing here computes with.
-/

namespace InferDeck.Inference

open Gateway (Text)

structure ToolCall where
  id : Text := []
  type : Text := "function".toList
  functionName : Text := []
  functionArguments : Text := []
  deriving DecidableEq

structure ToolCallDelta where
  index : ℕ := 0
  id : Text := []
  type : Text := []
  functionName : Text := []
  functionArguments : Text := []
  deriving DecidableEq

structure TopTokenLogprob (F : Type) where
  token : Text
  logprob : F
  bytes : Text
  deriving DecidableEq

structure TokenLogprob (F : Type) where
  token : Text
  logprob : F
  bytes : Text
  topLogprobs : List (TopTokenLogprob F)
  deriving DecidableEq

structure GenerationDelta (F : Type) where
  content : Text := []
  reasoningText : Text := []
  toolCalls : List ToolCallDelta := []
  logprobs : List (TokenLogprob F) := []
  deriving DecidableEq

structure GenerationResult (F : Type) where
  text : Text := []
  reasoningText : Text := []
  finishReason : String := "stop"
  promptTokens : ℤ := 0
  cachedPromptTokens : ℤ := 0
  completionTokens : ℤ := 0
  toolCalls : List ToolCall := []
  logprobs : List (TokenLogprob F) := []
  deriving DecidableEq

end InferDeck.Inference
