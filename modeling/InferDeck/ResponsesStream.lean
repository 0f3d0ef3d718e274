import InferDeck.Foundation
import InferDeck.SinkWriter
import InferDeck.Utf8Buffer

/-!
# The event stream of the Responses API

`handle_responses` turns the deltas of a generation into server-sent events. A reasoning item, a
message item and one item for each tool call are announced when the first fragment for them comes,
grow with each fragment, and are closed at the end, before the response that has them all.

An event is what is dumped to JSON: the fields of the request that the response objects repeat are
left out. The numbers that `make_id` draws are given by what they are for, each of which comes once.
-/

namespace InferDeck.Gateway.Responses

open Inference Foundation SinkWriter

variable {F : Type}

/-- The random numbers behind the ids. Those of tool calls go by their source index, those of
obfuscation by the sequence number of their event. -/
structure Draws where
  message : ℕ
  reasoning : ℕ
  function : ℕ → ℕ
  call : ℕ → ℕ
  obfuscation : ℕ → ℕ

def makeId (kind : String) (draw : ℕ) : Text := kind.toList ++ Nat.toDigits 10 draw

structure ResponsesRequest where
  wantsLogprobs : Bool
  includeObfuscation : Bool

structure TopLogprobRecord (F : Type) where
  token : Text
  logprob : F
  bytes : Option Text
  deriving DecidableEq

structure LogprobRecord (F : Type) where
  token : Text
  logprob : F
  bytes : Option Text
  topLogprobs : List (TopLogprobRecord F)
  deriving DecidableEq

def responsesLogprobs (values : List (Inference.TokenLogprob F)) (includeBytes : Bool) :
    List (LogprobRecord F) :=
  let bytesOf (bytes : Text) := if includeBytes then some bytes else none
  values.map fun value =>
    { token := value.token, logprob := value.logprob, bytes := bytesOf value.bytes
      topLogprobs := value.topLogprobs.map fun candidate =>
        { token := candidate.token, logprob := candidate.logprob
          bytes := bytesOf candidate.bytes } }

inductive Part (F : Type) where
  | outputText (text : Text) (logprobs : Option (List (LogprobRecord F)))
  | reasoningText (text : Text)
  deriving DecidableEq

inductive ItemStatus where
  | inProgress
  | completed
  deriving DecidableEq

inductive Item (F : Type) where
  | reasoning (id : Text) (status : ItemStatus) (content : List (Part F))
  | message (id : Text) (status : ItemStatus) (content : List (Part F))
  | functionCall (id : Text) (status : ItemStatus) (callId name arguments : Text)
  deriving DecidableEq

inductive ResponseStatus where
  | inProgress
  | completed
  | failed
  deriving DecidableEq

structure Usage where
  inputTokens : ℤ := 0
  cachedTokens : ℤ := 0
  outputTokens : ℤ := 0
  totalTokens : ℤ := 0
  deriving DecidableEq

structure ResponseError where
  code : String
  message : String
  deriving DecidableEq

structure ResponseObject (F : Type) where
  id : Text
  createdAt : ℤ
  status : ResponseStatus
  outputText : Text
  error : Option ResponseError
  model : Text
  output : List (Item F)
  usage : Usage
  deriving DecidableEq

inductive EventBody (F : Type) where
  | created (response : ResponseObject F)
  | inProgress (response : ResponseObject F)
  | outputItemAdded (outputIndex : ℕ) (item : Item F)
  | contentPartAdded (itemId : Text) (outputIndex contentIndex : ℕ) (part : Part F)
  | reasoningTextDelta (itemId : Text) (outputIndex contentIndex : ℕ) (delta : Text)
  | outputTextDelta (itemId : Text) (outputIndex contentIndex : ℕ) (delta : Text)
      (logprobs : List (LogprobRecord F))
  | functionCallArgumentsDelta (itemId : Text) (outputIndex : ℕ) (delta : Text)
  | reasoningTextDone (itemId : Text) (outputIndex contentIndex : ℕ) (text : Text)
  | contentPartDone (itemId : Text) (outputIndex contentIndex : ℕ) (part : Part F)
  | outputTextDone (itemId : Text) (outputIndex contentIndex : ℕ) (text : Text)
      (logprobs : List (LogprobRecord F))
  | functionCallArgumentsDone (itemId : Text) (outputIndex : ℕ) (name arguments : Text)
  | outputItemDone (outputIndex : ℕ) (item : Item F)
  | completed (response : ResponseObject F)
  | failed (response : ResponseObject F)
  deriving DecidableEq

structure Event (F : Type) where
  sequenceNumber : ℕ
  obfuscation : Option Text
  body : EventBody F
  deriving DecidableEq

structure ToolStreamState where
  outputIndex : ℕ := 0
  itemId : Text := []
  callId : Text := []
  name : Text := []
  arguments : Text := []
  deriving DecidableEq

structure ResponsesStreamState (F : Type) where
  draws : Draws
  request : ResponsesRequest
  responseId : Text
  model : Text
  createdAt : ℤ
  utf8 : InferenceDeltaUtf8Buffer := {}
  messageId : Text := []
  reasoningId : Text := []
  messageIndex : Option ℕ := none
  reasoningIndex : Option ℕ := none
  nextOutputIndex : ℕ := 0
  sequence : ℕ := 0
  started : Bool := false
  completed : Bool := false
  text : Text := []
  reasoning : Text := []
  logprobs : List (Inference.TokenLogprob F) := []
  tools : Map ℕ ToolStreamState := ∅
  /-- `prompt_tokens`, `cached_tokens` and `completion_tokens`. -/
  usage : ℤ × ℤ × ℤ := (0, 0, 0)

def responseUsage (usage : ℤ × ℤ × ℤ) : Usage where
  inputTokens := usage.1
  cachedTokens := usage.2.1
  outputTokens := usage.2.2
  totalTokens := usage.1 + usage.2.2

def streamResponseObject (s : ResponsesStreamState F) (status : ResponseStatus)
    (output : List (Item F)) (error : Option ResponseError) : ResponseObject F where
  id := s.responseId
  createdAt := s.createdAt
  status := status
  outputText := s.text
  error := error
  model := s.model
  output := output
  usage := responseUsage s.usage

abbrev Emitter (F : Type) := SinkWriter.Writer (ResponsesStreamState F) (Event F)

/-- `emit_response_event`, with an event that is made from the state. -/
def emit (body : ResponsesStreamState F → EventBody F) : Emitter F :=
  .read fun s =>
    .seq (.modify fun s => { s with sequence := s.sequence + 1 })
      (.write fun _ =>
        { sequenceNumber := s.sequence
          obfuscation :=
            if s.request.includeObfuscation then
              some ((makeId "obf_" (s.draws.obfuscation s.sequence)).drop 4)
            else none
          body := body s })

def startResponseStream : Emitter F :=
  .read fun s =>
    if s.started then .done
    else
      .seq (.modify fun s => { s with started := true })
        (.seq (emit fun s => .created (streamResponseObject s .inProgress [] none))
          (emit fun s => .inProgress (streamResponseObject s .inProgress [] none)))

def ensureMessageStream : Emitter F :=
  .read fun s =>
    if s.messageIndex.isSome then .done
    else
      .seq (.modify fun s =>
          { s with
            messageIndex := some s.nextOutputIndex
            nextOutputIndex := s.nextOutputIndex + 1
            messageId := makeId "msg_" s.draws.message })
        (.seq (emit fun s =>
            .outputItemAdded (s.messageIndex.getD 0) (.message s.messageId .inProgress []))
          (emit fun s =>
            .contentPartAdded s.messageId (s.messageIndex.getD 0) 0 (.outputText [] none)))

def ensureReasoningStream : Emitter F :=
  .read fun s =>
    if s.reasoningIndex.isSome then .done
    else
      .seq (.modify fun s =>
          { s with
            reasoningIndex := some s.nextOutputIndex
            nextOutputIndex := s.nextOutputIndex + 1
            reasoningId := makeId "rs_" s.draws.reasoning })
        (.seq (emit fun s =>
            .outputItemAdded (s.reasoningIndex.getD 0) (.reasoning s.reasoningId .inProgress []))
          (emit fun s =>
            .contentPartAdded s.reasoningId (s.reasoningIndex.getD 0) 0 (.reasoningText [])))

def applyReasoning (delta : Text) : Emitter F :=
  if delta = [] then .done
  else
    .seq ensureReasoningStream
      (.seq (.modify fun s => { s with reasoning := s.reasoning ++ delta })
        (emit fun s =>
          .reasoningTextDelta s.reasoningId (s.reasoningIndex.getD 0) 0 delta))

def applyContent (delta : Text) (logprobs : List (Inference.TokenLogprob F)) : Emitter F :=
  if delta = [] then .done
  else
    .seq ensureMessageStream
      (.seq (.modify fun s =>
          { s with text := s.text ++ delta, logprobs := s.logprobs ++ logprobs })
        (emit fun s =>
          .outputTextDelta s.messageId (s.messageIndex.getD 0) 0 delta
            (responsesLogprobs logprobs false)))

def tool (s : ResponsesStreamState F) (index : ℕ) : ToolStreamState := s.tools.find index {}

def setTool (s : ResponsesStreamState F) (index : ℕ) (tool : ToolStreamState) :
    ResponsesStreamState F :=
  { s with tools := s.tools.insert index tool }

/-- `try_emplace` has made a new entry. -/
def announceTool (source : Inference.ToolCallDelta) : Emitter F :=
  .seq (.modify fun s =>
      { setTool s source.index
          { outputIndex := s.nextOutputIndex
            itemId := makeId "fc_" (s.draws.function source.index)
            callId := if source.id = [] then makeId "call_" (s.draws.call source.index)
              else source.id
            name := source.functionName } with
        nextOutputIndex := s.nextOutputIndex + 1 })
    (emit fun s =>
      let tool := tool s source.index
      .outputItemAdded tool.outputIndex
        (.functionCall tool.itemId .inProgress tool.callId tool.name []))

def updateTool (source : Inference.ToolCallDelta) (tool : ToolStreamState) : ToolStreamState :=
  { tool with
    callId := if source.id = [] then tool.callId else source.id
    name := tool.name ++ source.functionName }

def applyArguments (source : Inference.ToolCallDelta) : Emitter F :=
  if source.functionArguments = [] then .done
  else
    .seq (.modify fun s =>
        let tool := tool s source.index
        setTool s source.index
          { tool with arguments := tool.arguments ++ source.functionArguments })
      (emit fun s =>
        let tool := tool s source.index
        .functionCallArgumentsDelta tool.itemId tool.outputIndex source.functionArguments)

def applyTool (source : Inference.ToolCallDelta) : Emitter F :=
  .seq (.read fun s =>
      if s.tools.contains source.index then
        .modify fun s => setTool s source.index (updateTool source (tool s source.index))
      else announceTool source)
    (applyArguments source)

def applySanitizedGenerationDelta (delta : GenerationDelta F) : Emitter F :=
  .seq (applyReasoning delta.reasoningText)
    (.seq (applyContent delta.content delta.logprobs) (.forEach delta.toolCalls applyTool))

def applyGenerationDelta (source : GenerationDelta F) : Emitter F :=
  .read fun s =>
    .seq (.modify fun s => { s with utf8 := (s.utf8.onDelta source).2 })
      (applySanitizedGenerationDelta (s.utf8.onDelta source).1)

/-- The content of a closed message. -/
def outputTextPart (s : ResponsesStreamState F) : Part F :=
  .outputText s.text
    (if s.request.wantsLogprobs then some (responsesLogprobs s.logprobs true) else none)

def toolItem (tool : ToolStreamState) : Item F :=
  .functionCall tool.itemId .completed tool.callId tool.name tool.arguments

def indexedOutput (s : ResponsesStreamState F) : List (ℕ × Item F) :=
  (s.reasoningIndex.toList.map fun index =>
      (index, .reasoning s.reasoningId .completed [.reasoningText s.reasoning])) ++
    ((s.messageIndex.toList.map fun index =>
        (index, .message s.messageId .completed [outputTextPart s])) ++
      s.tools.values.map fun tool => (tool.outputIndex, toolItem tool))

def completedStreamOutput (s : ResponsesStreamState F) : List (Item F) :=
  ((indexedOutput s).mergeSort fun left right => left.1 ≤ right.1).map Prod.snd

def closeReasoning : Emitter F :=
  .read fun s =>
    match s.reasoningIndex with
    | none => .done
    | some index =>
        .seq (emit fun s => .reasoningTextDone s.reasoningId index 0 s.reasoning)
          (emit fun s => .contentPartDone s.reasoningId index 0 (.reasoningText s.reasoning))

def closeMessage : Emitter F :=
  .read fun s =>
    match s.messageIndex with
    | none => .done
    | some index =>
        .seq (emit fun s =>
            .outputTextDone s.messageId index 0 s.text (responsesLogprobs s.logprobs false))
          (emit fun s => .contentPartDone s.messageId index 0 (outputTextPart s))

def closeItem (index : ℕ) (item : Item F) : Emitter F :=
  .seq
    (match item with
    | .functionCall id _ _ name arguments =>
        emit fun _ => .functionCallArgumentsDone id index name arguments
    | _ => .done)
    (emit fun _ => .outputItemDone index item)

def finishResponseStream : Emitter F :=
  .read fun s =>
    if s.completed then .done
    else
      .seq closeReasoning
        (.seq closeMessage
          (.read fun s =>
            let output := completedStreamOutput s
            .seq (.forEach output.zipIdx fun e => closeItem e.2 e.1)
              (.seq (.modify fun s => { s with completed := true })
                (emit fun s => .completed (streamResponseObject s .completed output none)))))

def failResponseStream (error : ResponseError) : Emitter F :=
  .read fun s =>
    if s.completed then .done
    else
      .seq (.modify fun s => { s with completed := true })
        (emit fun s => .failed (streamResponseObject s .failed [] (some error)))

def mapOpenaiErrorCode : ErrorCode → String
  | .invalidArgument | .parseError => "invalid_request_error"
  | .contextLengthExceeded => "context_length_exceeded"
  | .notFound => "model_not_found"
  | .cancelled => "cancelled"
  | .timeout => "timeout"
  | .unavailable | .notLoaded => "unavailable"
  | _ => "inference_error"

inductive Ending (F : Type) where
  | finished (result : Option (GenerationResult F))
  | failed (code : ErrorCode) (message : String)

/-- The end of the stream, after the last delta. -/
def endStream (ending : Ending F) : Emitter F :=
  .read fun s =>
    .seq (.modify fun s => { s with utf8 := {} })
      (.seq (applySanitizedGenerationDelta s.utf8.finish.1)
        (match ending with
        | .failed code message => failResponseStream ⟨mapOpenaiErrorCode code, message⟩
        | .finished result =>
            .seq (.modify fun s =>
                { s with
                  usage := match result with
                    | some result =>
                        (result.promptTokens, result.cachedPromptTokens, result.completionTokens)
                    | none => s.usage })
              finishResponseStream))

/-- The chunk provider, over all of its calls. -/
def provider (deltas : List (GenerationDelta F)) (ending : Ending F) : Emitter F :=
  .seq startResponseStream (.seq (.forEach deltas applyGenerationDelta) (endStream ending))

/-- A response without a stream. Its draws go by the place of a tool call in the result. -/
def resultToResponse (draws : Draws) (request : ResponsesRequest) (responseId model : Text)
    (createdAt : ℤ) (result : GenerationResult F) : ResponseObject F where
  id := responseId
  createdAt := createdAt
  status := .completed
  outputText := result.text
  error := none
  model := model
  output :=
    (if result.reasoningText = [] then []
      else [.reasoning (makeId "rs_" draws.reasoning) .completed
        [.reasoningText result.reasoningText]]) ++
      ((if result.text = [] then []
        else [.message (makeId "msg_" draws.message) .completed
          [.outputText result.text
            (if request.wantsLogprobs then some (responsesLogprobs result.logprobs true)
              else none)]]) ++
        result.toolCalls.zipIdx.map fun e =>
          .functionCall (makeId "fc_" (draws.function e.2)) .completed
            (if e.1.id = [] then makeId "call_" (draws.call e.2) else e.1.id)
            e.1.functionName e.1.functionArguments)
  usage := responseUsage (result.promptTokens, result.cachedPromptTokens, result.completionTokens)

def initialState (draws : Draws) (request : ResponsesRequest) (responseId model : Text)
    (createdAt : ℤ) : ResponsesStreamState F :=
  { draws, request, responseId, model, createdAt }

/-- What a sink that takes `room` writes has of the stream. -/
def eventsWritten (s : ResponsesStreamState F) (deltas : List (GenerationDelta F))
    (ending : Ending F) (room : ℕ) : List (Event F) :=
  ((provider deltas ending).run s ⟨room, []⟩).2.2.written

end InferDeck.Gateway.Responses
