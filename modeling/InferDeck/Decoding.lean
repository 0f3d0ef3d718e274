import InferDeck.Inference

/-!
# Generation with and without a stream

Both ways drain the same queue of token events and stop at the same stop strings. The streaming one
also runs an incremental parser over the pieces and hands its deltas to a callback. The chat parser
and the tokenizer are not part of the repository: `parse` is `none` where `common_chat_parse` throws.
-/

namespace InferDeck.LlamaWrapper.Decoding

open Inference
open Gateway (Text)

structure ChatToolCall where
  name : Text := []
  arguments : Text := []
  id : Text := []
  deriving DecidableEq

structure ChatMsg where
  content : Text := []
  reasoningContent : Text := []
  toolCalls : List ChatToolCall := []
  deriving DecidableEq

def ChatMsg.empty (msg : ChatMsg) : Bool := decide (msg = {})

/-- No index stands for `npos`. -/
structure ChatMsgDiff where
  reasoningContentDelta : Text := []
  contentDelta : Text := []
  toolCallIndex : Option ℕ := none
  toolCallDelta : ChatToolCall := {}
  deriving DecidableEq

structure ChatParser where
  echo : Bool
  parse : Text → Bool → Option ChatMsg
  computeDiffs : ChatMsg → ChatMsg → Option (List ChatMsgDiff)
  setToolCallIds : List Text → ChatMsg → ChatMsg × List Text
  setToolCallIds_content : ∀ ids msg, (setToolCallIds ids msg).1.content = msg.content

structure StreamingChatParserState where
  chatMsg : ChatMsg := {}
  generatedText : Text := []
  generatedToolCallIds : List Text := []
  sentToolCallNames : List ℕ := []

namespace StreamingChatParserState

variable (parser : ChatParser)

def initial : StreamingChatParserState :=
  if parser.echo then {} else { chatMsg := (parser.parse [] true).getD {} }

def header (msg : ChatMsg) (i : ℕ) : ChatMsgDiff :=
  let call := msg.toolCalls.getD i {}
  { toolCallIndex := some i, toolCallDelta := { name := call.name, id := call.id } }

def callName (msg : ChatMsg) (i : ℕ) : Text := (msg.toolCalls.getD i {}).name

/-- The headers that go before the diff: those of the calls with a name that were not sent yet. -/
def headersBefore (msg : ChatMsg) (d : ChatMsgDiff) (sent : List ℕ) : List ℕ :=
  (List.range msg.toolCalls.length).filter fun i =>
    !(sent.contains i || (callName msg i).isEmpty) &&
      (decide (d.toolCallIndex ≠ some i) || !d.toolCallDelta.arguments.isEmpty)

/-- One round of the loop over the diffs: what goes out, and the names sent. -/
def filterDiff (msg : ChatMsg) (isPartial : Bool) (sent : List ℕ) (d : ChatMsgDiff) :
    List ChatMsgDiff × List ℕ :=
  let headers := headersBefore msg d sent
  let sent := sent ++ headers
  let before := headers.map (header msg)
  match d.toolCallIndex with
  | none => (before ++ [d], sent)
  | some i =>
      let hasArguments := !d.toolCallDelta.arguments.isEmpty
      let call := msg.toolCalls.getD i {}
      if sent.contains i then
        if hasArguments then
          (before ++ [{ d with toolCallDelta := { d.toolCallDelta with name := [], id := [] } }], sent)
        else (before, sent)
      else if hasArguments || !isPartial then
        let named := { d.toolCallDelta with name := call.name, id := call.id }
        (before ++ [{ d with toolCallDelta := named }], sent ++ [i])
      else (before, sent)

def filterDiffs (msg : ChatMsg) (isPartial : Bool) :
    List ℕ → List ChatMsgDiff → List ChatMsgDiff × List ℕ
  | sent, [] =>
      let headers := (List.range msg.toolCalls.length).filter fun i =>
        !isPartial && !(sent.contains i || (callName msg i).isEmpty)
      (headers.map (header msg), sent ++ headers)
  | sent, d :: diffs =>
      let (out, sent) := filterDiff msg isPartial sent d
      let (outs, sent) := filterDiffs msg isPartial sent diffs
      (out ++ outs, sent)

/-- The diffs, or `none` for an exception, and the state after either. -/
def update (s : StreamingChatParserState) (textAdded : Text) (isPartial filterToolCalls : Bool) :
    Option (List ChatMsgDiff) × StreamingChatParserState :=
  let generatedText := s.generatedText ++ textAdded
  match parser.parse generatedText isPartial with
  | none => (none, { s with generatedText })
  | some next =>
      if next.empty then (some [], { s with generatedText })
      else
        let (chatMsg, generatedToolCallIds) := parser.setToolCallIds s.generatedToolCallIds next
        let s' := { s with generatedText, chatMsg, generatedToolCallIds }
        match parser.computeDiffs s.chatMsg chatMsg with
        | none => (none, s')
        | some diffs =>
            if !filterToolCalls then (some diffs, s')
            else
              let (out, sentToolCallNames) :=
                filterDiffs chatMsg isPartial s.sentToolCallNames diffs
              (some out, { s' with sentToolCallNames })

end StreamingChatParserState

structure TokenEvent (F : Type) where
  id : ℤ
  probability : F
  topProbabilities : List (ℤ × F) := []

structure InferenceSetup where
  promptTokens : List ℤ
  stopStrings : List Text
  maxTokens : ℤ
  parseToolCalls : Bool

/-- What the scheduler leaves in the task, and whether the caller's own cancel is set at the end. -/
structure TaskOutput where
  initialized : Bool
  promptPos : ℤ
  cachedPromptTokens : ℤ
  extCancel : Bool

/-- What a generation runs with. `logProbability` is the logarithm, from the least normal float up;
`parseFallbackToolCalls` finds the calls of a JSON text. -/
structure Generation (F : Type) where
  setup : InferenceSetup
  logprobs : Bool
  parser : ChatParser
  tokenToPiece : ℤ → Text
  logProbability : F → F
  parseFallbackToolCalls : Text → Option (List ToolCall)

structure DrainState (F : Type) where
  generated : Text := []
  decodedIds : List ℤ := []
  logprobs : List (TokenLogprob F) := []
  stringStopped : Bool := false
  callerStop : Bool := false
  callerCancel : Bool := false

namespace DrainState

variable {F : Type}

def stop (s : DrainState F) (generated stop : Text) : DrainState F :=
  { s with
    generated := generated.take (generated.length - stop.length)
    stringStopped := true
    callerStop := true }

def push (s : DrainState F) (generated : Text) (id : ℤ)
    (logprobs : List (TokenLogprob F)) : DrainState F :=
  { s with generated, decodedIds := s.decodedIds ++ [id], logprobs := s.logprobs ++ logprobs }

/-- `drain_task`: a token that is refused cancels the task, unless the caller stops it. -/
def answer (accepted : Bool) (s : DrainState F) : DrainState F :=
  if !accepted && !s.callerStop then { s with callerCancel := true } else s

end DrainState

structure Prediction (F : Type) where
  result : GenerationResult F
  /-- The tokens that the slot remembers, where the task was initialized. -/
  lastPromptTokens : Option (List ℤ)
  /-- The local `generated`. -/
  generated : Text
  /-- What the callback was given. -/
  deltas : List (GenerationDelta F) := []

namespace Generation

variable {F : Type} (g : Generation F)

def stopsAt (generated : Text) : Option Text :=
  g.setup.stopStrings.find? fun stop => !stop.isEmpty && stop.isSuffixOf generated

def tokenLogprob (event : TokenEvent F) (piece : Text) : TokenLogprob F where
  token := piece
  bytes := piece
  logprob := g.logProbability event.probability
  topLogprobs := event.topProbabilities.map fun (id, probability) =>
    { token := g.tokenToPiece id, bytes := g.tokenToPiece id
      logprob := g.logProbability probability }

def eventLogprobs (event : TokenEvent F) (piece : Text) : List (TokenLogprob F) :=
  if g.logprobs then [g.tokenLogprob event piece] else []

/-- The callback of `predict_cancellable`. -/
def onToken (s : DrainState F) (event : TokenEvent F) : Bool × DrainState F :=
  if s.stringStopped then (false, s)
  else
    let piece := g.tokenToPiece event.id
    let generated := s.generated ++ piece
    match g.stopsAt generated with
    | some stop => (false, DrainState.stop s generated stop)
    | none => (true, DrainState.push s generated event.id (g.eventLogprobs event piece))

def drain : DrainState F → List (TokenEvent F) → DrainState F
  | s, [] => s
  | s, event :: events =>
      let (accepted, s) := g.onToken s event
      drain (s.answer accepted) events

def lastPromptTokens (task : TaskOutput) (s : DrainState F) : Option (List ℤ) :=
  if !task.initialized then none
  else if s.callerCancel || task.extCancel then some []
  else some (g.setup.promptTokens ++ s.decodedIds)

def counted (task : TaskOutput) (s : DrainState F) : GenerationResult F :=
  let completionTokens : ℤ := s.decodedIds.length
  { promptTokens := min task.promptPos g.setup.promptTokens.length
    cachedPromptTokens := task.cachedPromptTokens
    completionTokens
    finishReason := if completionTokens ≥ g.setup.maxTokens then "length" else "stop"
    logprobs := if g.logprobs then s.logprobs else [] }

def toToolCall (call : ChatToolCall) : ToolCall :=
  { id := call.id, functionName := call.name, functionArguments := call.arguments }

def applyParsedMessage (out : GenerationResult F) (msg : ChatMsg) : GenerationResult F :=
  { out with
    text := msg.content
    reasoningText := msg.reasoningContent
    toolCalls := msg.toolCalls.map toToolCall }

def parseFinalMessageWithIds (generated : Text) : Option ChatMsg :=
  (g.parser.parse generated false).map fun msg => (g.parser.setToolCallIds [] msg).1

def applyFallbackToolCalls (out : GenerationResult F) (generated : Text) : GenerationResult F :=
  match g.parseFallbackToolCalls generated with
  | none => out
  | some [] => out
  | some calls => { out with text := [], toolCalls := calls }

/-- The branch for an exception of the parser. -/
def unparsed (out : GenerationResult F) (generated : Text) : GenerationResult F :=
  let out := { out with text := generated }
  if g.setup.parseToolCalls then g.applyFallbackToolCalls out generated else out

def parsed (out : GenerationResult F) (generated : Text) : GenerationResult F :=
  match g.parseFinalMessageWithIds generated with
  | none => g.unparsed out generated
  | some msg =>
      let out := applyParsedMessage out msg
      if g.setup.parseToolCalls && out.toolCalls.isEmpty then g.applyFallbackToolCalls out generated
      else out

def predictCancellable (task : TaskOutput) (events : List (TokenEvent F)) : Prediction F :=
  let s := g.drain {} events
  { result := g.parsed (g.counted task s) s.generated
    lastPromptTokens := g.lastPromptTokens task s
    generated := s.generated }

/-- The state of the streaming call: the parser's, and what the callback was given. -/
structure StreamState (F : Type) extends DrainState F where
  parserState : StreamingChatParserState
  deltas : List (GenerationDelta F) := []
  callbackAborted : Bool := false

def toDelta (diff : ChatMsgDiff) : GenerationDelta F :=
  { content := diff.contentDelta
    reasoningText := diff.reasoningContentDelta
    toolCalls :=
      match diff.toolCallIndex with
      | none => []
      | some index =>
          let call := diff.toolCallDelta
          [{ index, id := call.id, functionName := call.name, functionArguments := call.arguments
             type := if call.id.isEmpty then [] else "function".toList }] }

def silent (delta : GenerationDelta F) : Bool :=
  delta.content.isEmpty && delta.reasoningText.isEmpty && delta.toolCalls.isEmpty

/-- Gives the deltas to the callback, up to one that it refuses. The callback sees what it was given
before; the result says whether it refused one. -/
def give (callback : List (GenerationDelta F) → Bool) :
    List (GenerationDelta F) → List (GenerationDelta F) → Bool × List (GenerationDelta F)
  | given, [] => (false, given)
  | given, delta :: deltas =>
      if silent delta then give callback given deltas
      else if !callback (given ++ [delta]) then (true, given ++ [delta])
      else give callback (given ++ [delta]) deltas

/-- The deltas of a piece. One that is exactly the piece carries its log probability. -/
def pieceDeltas (event : TokenEvent F) (piece : Text) (diffs : List ChatMsgDiff) :
    List (GenerationDelta F) :=
  diffs.map fun diff =>
    let delta : GenerationDelta F := toDelta diff
    if delta.content = piece then
      { delta with logprobs := delta.logprobs ++ g.eventLogprobs event piece }
    else delta

def onStreamToken (callback : List (GenerationDelta F) → Bool) (s : StreamState F)
    (event : TokenEvent F) : Bool × StreamState F :=
  if s.callbackAborted || s.stringStopped then (false, s)
  else
    let piece := g.tokenToPiece event.id
    if piece.isEmpty then (true, s)
    else
      let generated := s.generated ++ piece
      match g.stopsAt generated with
      | some stop => (false, { s with toDrainState := DrainState.stop s.toDrainState generated stop })
      | none =>
          let pushed :=
            DrainState.push s.toDrainState generated event.id (g.eventLogprobs event piece)
          let (diffs, parserState) :=
            StreamingChatParserState.update g.parser s.parserState piece true g.setup.parseToolCalls
          let (callbackAborted, deltas) :=
            give callback s.deltas (g.pieceDeltas event piece (diffs.getD []))
          (!callbackAborted, { toDrainState := pushed, parserState, deltas, callbackAborted })

def drainStream (callback : List (GenerationDelta F) → Bool) :
    StreamState F → List (TokenEvent F) → StreamState F
  | s, [] => s
  | s, event :: events =>
      let (accepted, s) := g.onStreamToken callback s event
      drainStream callback { s with toDrainState := s.toDrainState.answer accepted } events

def fallbackDeltas (calls : List ToolCall) : List (GenerationDelta F) :=
  calls.mapIdx fun i call =>
    { toolCalls := [{ index := i, id := call.id, type := "function".toList
                      functionName := call.functionName
                      functionArguments := call.functionArguments }] }

def fallbackUsed (out : GenerationResult F) (generated : Text) : Bool :=
  let called := (g.parseFinalMessageWithIds generated).elim false fun msg => !msg.toolCalls.isEmpty
  g.setup.parseToolCalls && !called && !(g.parsed out generated).toolCalls.isEmpty

/-- The last loop: the calls of the fallback, where no call went out before. -/
def giveFallback (callback : List (GenerationDelta F) → Bool) (used : Bool)
    (out : GenerationResult F) (given : List (GenerationDelta F)) : List (GenerationDelta F) :=
  if used && given.all fun delta => delta.toolCalls.isEmpty then
    (give callback given (fallbackDeltas out.toolCalls)).2
  else given

def predictStream (callback : List (GenerationDelta F) → Bool) (task : TaskOutput)
    (events : List (TokenEvent F)) : Prediction F :=
  let s := g.drainStream callback
    { parserState := StreamingChatParserState.initial g.parser } events
  let out := g.counted task s.toDrainState
  let prediction : Prediction F :=
    { result := out, generated := s.generated, deltas := s.deltas
      lastPromptTokens := g.lastPromptTokens task s.toDrainState }
  if s.callbackAborted then prediction
  else
    match (StreamingChatParserState.update g.parser s.parserState [] false
      g.setup.parseToolCalls).1 with
    | none =>
        let result := g.unparsed out s.generated
        let used := g.setup.parseToolCalls && !result.toolCalls.isEmpty
        { prediction with result, deltas := giveFallback callback used result s.deltas }
    | some diffs =>
        let (refused, deltas) := give callback s.deltas (diffs.map toDelta)
        if refused then { prediction with deltas }
        else
          let result := g.parsed out s.generated
          { prediction with
            result
            deltas := giveFallback callback (g.fallbackUsed out s.generated) result deltas }

end Generation

end InferDeck.LlamaWrapper.Decoding
