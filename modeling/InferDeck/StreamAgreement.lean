import InferDeck.Decoding
import Mathlib.Tactic

/-!
# A stream and its result

Up to a stop string both ways of generating take the same tokens, but the streaming one passes over
a token whose piece is empty. What it hands out is the parser's account of the pieces it took, and
the text at its end is cut at the stop string and emptied where the fallback finds a tool call. So
the two agree exactly where no piece is empty, a stop string is the last piece as a whole, and there
is no call for the fallback.
-/

namespace InferDeck.LlamaWrapper.Decoding

open Inference
open Gateway (Text)

variable {F : Type}

def contents (deltas : List (GenerationDelta F)) : Text := deltas.flatMap GenerationDelta.content

namespace ChatParser

variable (parser : ChatParser) (filterToolCalls : Bool)

/-- The content of the parser's diffs over the pieces, where an exception gives none, and the state
after them. -/
def updates : StreamingChatParserState → List Text → Text × StreamingChatParserState
  | s, [] => ([], s)
  | s, piece :: pieces =>
      let (diffs, s) := s.update parser piece true filterToolCalls
      let (content, s) := updates s pieces
      ((diffs.getD []).flatMap ChatMsgDiff.contentDelta ++ content, s)

/-- The diffs over the pieces concatenate to the final message. -/
def Concatenates (pieces : List Text) : Prop :=
  let (content, s) := updates parser filterToolCalls (.initial parser) pieces
  ∃ diffs msg, (s.update parser [] false filterToolCalls).1 = some diffs ∧
    parser.parse pieces.flatten false = some msg ∧
    content ++ diffs.flatMap ChatMsgDiff.contentDelta = msg.content

end ChatParser

namespace Generation

variable (g : Generation F)

def heard : Text → List (TokenEvent F) → List (TokenEvent F)
  | _, [] => []
  | generated, event :: events =>
      let generated := generated ++ g.tokenToPiece event.id
      if (g.stopsAt generated).isSome then [] else event :: heard generated events

/-- The token at which a stop string ends, and the stop string. -/
def stopping : Text → List (TokenEvent F) → Option (TokenEvent F × Text)
  | _, [] => none
  | generated, event :: events =>
      let generated := generated ++ g.tokenToPiece event.id
      match g.stopsAt generated with
      | some stop => some (event, stop)
      | none => stopping generated events

def pieces (events : List (TokenEvent F)) : List Text :=
  events.map fun event => g.tokenToPiece event.id

structure Agrees (task : TaskOutput) (events : List (TokenEvent F)) : Prop where
  generated : (g.predictCancellable task events).generated =
    (g.predictStream (fun _ => true) task events).generated
  completionTokens : (g.predictCancellable task events).result.completionTokens =
    (g.predictStream (fun _ => true) task events).result.completionTokens
  finishReason : (g.predictCancellable task events).result.finishReason =
    (g.predictStream (fun _ => true) task events).result.finishReason
  logprobs : (g.predictCancellable task events).result.logprobs =
    (g.predictStream (fun _ => true) task events).result.logprobs
  lastPromptTokens : (g.predictCancellable task events).lastPromptTokens =
    (g.predictStream (fun _ => true) task events).lastPromptTokens
  content : g.parser.Concatenates g.setup.parseToolCalls (g.pieces (g.heard [] events)) →
    contents (g.predictStream (fun _ => true) task events).deltas =
      (g.predictStream (fun _ => true) task events).result.text
  text : g.parser.Concatenates g.setup.parseToolCalls (g.pieces (g.heard [] events)) →
    (g.predictCancellable task events).result.text =
      (g.predictStream (fun _ => true) task events).result.text

/-- No piece before the stop is empty, the stop string is the last piece as a whole, and the text
holds no call for the fallback. -/
structure Calm (events : List (TokenEvent F)) : Prop where
  pieces : ∀ event ∈ g.heard [] events, g.tokenToPiece event.id ≠ []
  stop : ∀ event stop, g.stopping [] events = some (event, stop) → g.tokenToPiece event.id = stop
  fallback : g.setup.parseToolCalls = true →
    (g.parseFallbackToolCalls (g.pieces (g.heard [] events)).flatten).getD [] = []

section Drain

/-- The state after the tokens that were heard, and after the token that stopped the generation. -/
def settled (s : DrainState F) (heard : List (TokenEvent F))
    (stopping : Option (TokenEvent F × Text)) : DrainState F :=
  let s : DrainState F := { s with
    generated := s.generated ++ (g.pieces heard).flatten
    decodedIds := s.decodedIds ++ heard.map TokenEvent.id
    logprobs := s.logprobs ++ heard.flatMap fun event =>
      g.eventLogprobs event (g.tokenToPiece event.id) }
  match stopping with
  | none => s
  | some (event, stop) => s.stop (s.generated ++ g.tokenToPiece event.id) stop

variable {g} {s : DrainState F} {event : TokenEvent F} {events : List (TokenEvent F)}

theorem heard_cons_of_stops {generated stop : Text} (events : List (TokenEvent F))
    (h : g.stopsAt (generated ++ g.tokenToPiece event.id) = some stop) :
    g.heard generated (event :: events) = [] ∧
      g.stopping generated (event :: events) = some (event, stop) := by
  simp only [heard, stopping, h, Option.isSome_some, if_true, and_self]

theorem heard_cons_of_continues {generated : Text} (events : List (TokenEvent F))
    (h : g.stopsAt (generated ++ g.tokenToPiece event.id) = none) :
    g.heard generated (event :: events) =
        event :: g.heard (generated ++ g.tokenToPiece event.id) events ∧
      g.stopping generated (event :: events) =
        g.stopping (generated ++ g.tokenToPiece event.id) events := by
  simp only [heard, stopping, h, Option.isSome_none, Bool.false_eq_true, if_false, and_self]

theorem settled_cons (heard : List (TokenEvent F)) (stopping : Option (TokenEvent F × Text)) :
    g.settled s (event :: heard) stopping =
      g.settled (s.push (s.generated ++ g.tokenToPiece event.id) event.id
        (g.eventLogprobs event (g.tokenToPiece event.id))) heard stopping := by
  cases stopping <;> simp [settled, pieces, DrainState.push, List.append_assoc]

theorem answer_of_stopped (hcaller : s.callerStop = true) (accepted : Bool) :
    s.answer accepted = s := by
  simp [DrainState.answer, hcaller]

/-- Tokens after the stop change nothing. -/
theorem drain_of_stopped (hstopped : s.stringStopped = true) (hcaller : s.callerStop = true) :
    g.drain s events = s := by
  induction events with
  | nil => rfl
  | cons event events ih =>
      rw [drain, onToken, if_pos hstopped]
      dsimp only
      rw [answer_of_stopped hcaller]
      exact ih

theorem drain_eq (hrunning : s.stringStopped = false) :
    g.drain s events =
      g.settled s (g.heard s.generated events) (g.stopping s.generated events) := by
  induction events generalizing s with
  | nil => simp [drain, settled, heard, stopping, pieces]
  | cons event events ih =>
      have hnot : ¬ s.stringStopped = true := by simp [hrunning]
      cases hstops : g.stopsAt (s.generated ++ g.tokenToPiece event.id) with
      | some stop =>
          obtain ⟨hheard, hstopping⟩ := heard_cons_of_stops events hstops
          rw [hheard, hstopping, drain, onToken, if_neg hnot]
          simp only [hstops]
          rw [answer_of_stopped rfl, drain_of_stopped rfl rfl]
          simp [settled, DrainState.stop, pieces]
      | none =>
          obtain ⟨hheard, hstopping⟩ := heard_cons_of_continues events hstops
          rw [hheard, hstopping, settled_cons, drain, onToken, if_neg hnot]
          simp only [hstops]
          exact ih hrunning

end Drain

section Stream

/-- A callback that refuses nothing is given all the content there is. -/
theorem give_accepted (given deltas : List (GenerationDelta F)) :
    (give (fun _ => true) given deltas).1 = false ∧
      contents (give (fun _ => true) given deltas).2 = contents given ++ contents deltas := by
  induction deltas generalizing given with
  | nil => simp [give, contents]
  | cons delta deltas ih =>
      by_cases hsilent : silent delta = true
      · have hcontent : delta.content = [] := by
          simp only [silent, Bool.and_eq_true, List.isEmpty_iff] at hsilent
          exact hsilent.1.1
        rw [give, if_pos hsilent]
        refine ⟨(ih given).1, (ih given).2.trans ?_⟩
        simp [contents, hcontent]
      · rw [give, if_neg hsilent]
        simp only [Bool.not_true, Bool.false_eq_true, if_false]
        refine ⟨(ih _).1, (ih _).2.trans ?_⟩
        simp [contents, List.append_assoc]

theorem contents_pieceDeltas (g : Generation F) (event : TokenEvent F) (piece : Text)
    (diffs : List ChatMsgDiff) :
    contents (g.pieceDeltas event piece diffs) = diffs.flatMap ChatMsgDiff.contentDelta := by
  rw [contents, pieceDeltas, List.flatMap_map]
  refine List.flatMap_congr fun diff _ => ?_
  dsimp only
  split_ifs <;> rfl

variable {g} {s : StreamState F} {event : TokenEvent F} {events : List (TokenEvent F)}

theorem drainStream_of_stopped (hstopped : s.stringStopped = true) (hcaller : s.callerStop = true)
    (callback : List (GenerationDelta F) → Bool) : g.drainStream callback s events = s := by
  have hskip : (s.callbackAborted || s.stringStopped) = true := by simp [hstopped]
  induction events with
  | nil => rfl
  | cons event events ih =>
      rw [drainStream, onStreamToken, if_pos hskip]
      dsimp only
      rw [answer_of_stopped hcaller]
      exact ih

/-- The tokens that the stream takes. -/
def sounding (g : Generation F) (heard : List (TokenEvent F)) : List (TokenEvent F) :=
  heard.filter fun event => !(g.tokenToPiece event.id).isEmpty

structure StreamSettled (g : Generation F) (s s' : StreamState F) (events : List (TokenEvent F)) :
    Prop where
  state : s'.toDrainState =
    g.settled s.toDrainState (g.sounding (g.heard s.generated events))
      (g.stopping s.generated events)
  accepted : s'.callbackAborted = false
  parserState : s'.parserState =
    (g.parser.updates g.setup.parseToolCalls s.parserState
      (g.pieces (g.sounding (g.heard s.generated events)))).2
  deltas : contents s'.deltas = contents s.deltas ++
    (g.parser.updates g.setup.parseToolCalls s.parserState
      (g.pieces (g.sounding (g.heard s.generated events)))).1

theorem sounding_cons_of_empty (heard : List (TokenEvent F))
    (hempty : (g.tokenToPiece event.id).isEmpty = true) :
    g.sounding (event :: heard) = g.sounding heard := by
  simp [sounding, hempty]

theorem sounding_cons_of_piece (heard : List (TokenEvent F))
    (hpiece : (g.tokenToPiece event.id).isEmpty = false) :
    g.sounding (event :: heard) = event :: g.sounding heard := by
  simp [sounding, hpiece]

theorem drainStream_settled (hrunning : s.stringStopped = false)
    (haccepted : s.callbackAborted = false) (hnone : g.stopsAt s.generated = none) :
    StreamSettled g s (g.drainStream (fun _ => true) s events) events := by
  induction events generalizing s with
  | nil =>
      refine ⟨?_, haccepted, rfl, ?_⟩
      · simp [drainStream, settled, heard, stopping, pieces, sounding]
      · simp [drainStream, heard, pieces, sounding, ChatParser.updates]
  | cons event events ih =>
      have hnot : ¬ (s.callbackAborted || s.stringStopped) = true := by simp [hrunning, haccepted]
      cases hpiece : (g.tokenToPiece event.id).isEmpty with
      | true =>
          have hnil : s.generated ++ g.tokenToPiece event.id = s.generated := by
            rw [List.isEmpty_iff.1 hpiece, List.append_nil]
          obtain ⟨hheard, hstopping⟩ :=
            heard_cons_of_continues (g := g) events (hnil.symm ▸ hnone)
          rw [hnil] at hheard hstopping
          have hstep : g.drainStream (fun _ => true) s (event :: events) =
              g.drainStream (fun _ => true) s events := by
            rw [drainStream, onStreamToken, if_neg hnot, if_pos hpiece]
            rfl
          have hrest := ih hrunning haccepted hnone
          rw [hstep]
          refine ⟨?_, hrest.accepted, ?_, ?_⟩
          · rw [hheard, hstopping, sounding_cons_of_empty _ hpiece]
            exact hrest.state
          · rw [hheard, sounding_cons_of_empty _ hpiece]
            exact hrest.parserState
          · rw [hheard, sounding_cons_of_empty _ hpiece]
            exact hrest.deltas
      | false =>
          have hsound : ¬ (g.tokenToPiece event.id).isEmpty = true := by simp [hpiece]
          cases hstops : g.stopsAt (s.generated ++ g.tokenToPiece event.id) with
          | some stop =>
              obtain ⟨hheard, hstopping⟩ := heard_cons_of_stops events hstops
              rw [drainStream, onStreamToken, if_neg hnot, if_neg hsound]
              simp only [hstops]
              rw [answer_of_stopped rfl, drainStream_of_stopped rfl rfl]
              refine ⟨?_, haccepted, ?_, ?_⟩
              · rw [hheard, hstopping]
                simp [settled, DrainState.stop, pieces, sounding]
              · rw [hheard]
                rfl
              · rw [hheard]
                simp [sounding, pieces, ChatParser.updates]
          | none =>
              obtain ⟨hheard, hstopping⟩ := heard_cons_of_continues events hstops
              rcases hupdate : s.parserState.update g.parser (g.tokenToPiece event.id) true
                g.setup.parseToolCalls with ⟨diffs, parserState⟩
              obtain ⟨hgiven, hcontents⟩ := give_accepted s.deltas
                (g.pieceDeltas event (g.tokenToPiece event.id) (diffs.getD []))
              rw [contents_pieceDeltas] at hcontents
              rcases hgive : give (fun _ => true) s.deltas
                (g.pieceDeltas event (g.tokenToPiece event.id) (diffs.getD [])) with
                ⟨aborted, deltas⟩
              rw [hgive] at hgiven hcontents
              dsimp only at hgiven hcontents
              subst hgiven
              rw [drainStream, onStreamToken, if_neg hnot, if_neg hsound]
              simp only [hstops, hupdate, hgive]
              have hrest := ih (s := ⟨s.toDrainState.push
                (s.generated ++ g.tokenToPiece event.id) event.id
                (g.eventLogprobs event (g.tokenToPiece event.id)), parserState, deltas, false⟩)
                hrunning rfl hstops
              refine ⟨?_, hrest.accepted, ?_, ?_⟩
              · rw [hheard, hstopping, sounding_cons_of_piece _ hpiece, settled_cons]
                exact hrest.state
              · rw [hheard, sounding_cons_of_piece _ hpiece]
                simp only [pieces, List.map_cons, ChatParser.updates, hupdate]
                exact hrest.parserState
              · rw [hheard, sounding_cons_of_piece _ hpiece]
                simp only [pieces, List.map_cons, ChatParser.updates, hupdate]
                refine hrest.deltas.trans ?_
                rw [hcontents, List.append_assoc]
                rfl

end Stream

section Results

variable (g : Generation F) (task : TaskOutput) (events : List (TokenEvent F))

/-- What the drain of a generation leaves. -/
def heardState : DrainState F := g.settled {} (g.heard [] events) (g.stopping [] events)

/-- What the drain of a stream leaves. -/
def soundState : DrainState F :=
  g.settled {} (g.sounding (g.heard [] events)) (g.stopping [] events)

def soundPieces : List Text := g.pieces (g.sounding (g.heard [] events))

def lastDiffs : Option (List ChatMsgDiff) :=
  ((g.parser.updates g.setup.parseToolCalls (.initial g.parser) (g.soundPieces events)).2.update
    g.parser [] false g.setup.parseToolCalls).1

theorem stopsAt_nil : g.stopsAt [] = none := by
  rw [stopsAt, List.find?_eq_none]
  intro stop _
  cases stop <;> simp [List.isSuffixOf]

theorem predictCancellable_eq :
    g.predictCancellable task events =
      { result := g.parsed (g.counted task (g.heardState events)) (g.heardState events).generated
        lastPromptTokens := g.lastPromptTokens task (g.heardState events)
        generated := (g.heardState events).generated } := by
  have hdrain : g.drain {} events = g.heardState events := drain_eq rfl
  rw [predictCancellable, hdrain]

def streamResult : GenerationResult F :=
  match g.lastDiffs events with
  | none => g.unparsed (g.counted task (g.soundState events)) (g.soundState events).generated
  | some _ => g.parsed (g.counted task (g.soundState events)) (g.soundState events).generated

theorem contents_giveFallback (used : Bool) (out : GenerationResult F)
    (given : List (GenerationDelta F)) :
    contents (giveFallback (fun _ => true) used out given) = contents given := by
  rw [giveFallback]
  split_ifs
  · rw [(give_accepted given _).2]
    have hnone : contents (fallbackDeltas (F := F) out.toolCalls) = [] := by
      rw [contents, List.flatMap_eq_nil_iff]
      intro delta hdelta
      rw [fallbackDeltas, List.mem_mapIdx] at hdelta
      obtain ⟨i, hi, rfl⟩ := hdelta
      rfl
    rw [hnone, List.append_nil]
  · rfl

structure StreamPredicts : Prop where
  result : (g.predictStream (fun _ => true) task events).result = g.streamResult task events
  generated : (g.predictStream (fun _ => true) task events).generated =
    (g.soundState events).generated
  lastPromptTokens : (g.predictStream (fun _ => true) task events).lastPromptTokens =
    g.lastPromptTokens task (g.soundState events)
  contents : contents (g.predictStream (fun _ => true) task events).deltas =
    (g.parser.updates g.setup.parseToolCalls (.initial g.parser) (g.soundPieces events)).1 ++
      ((g.lastDiffs events).getD []).flatMap ChatMsgDiff.contentDelta

theorem predictStream_predicts : g.StreamPredicts task events := by
  have hdrain : StreamSettled g { parserState := .initial g.parser }
      (g.drainStream (fun _ => true) { parserState := .initial g.parser } events) events :=
    drainStream_settled rfl rfl g.stopsAt_nil
  have hstate : (g.drainStream (fun _ => true) { parserState := .initial g.parser }
      events).toDrainState = g.soundState events := hdrain.state
  have hlast : (StreamingChatParserState.update g.parser
      (g.drainStream (fun _ => true) { parserState := .initial g.parser } events).parserState []
      false g.setup.parseToolCalls).1 = g.lastDiffs events := by
    rw [hdrain.parserState]
    rfl
  have haborted : ¬ (g.drainStream (fun _ => true) { parserState := .initial g.parser }
      events).callbackAborted = true := by simp [hdrain.accepted]
  have hdeltas : contents (g.drainStream (fun _ => true) { parserState := .initial g.parser }
      events).deltas =
      (g.parser.updates g.setup.parseToolCalls (.initial g.parser) (g.soundPieces events)).1 :=
    hdrain.deltas
  cases hdiffs : g.lastDiffs events with
  | none =>
      rw [hdiffs] at hlast
      refine ⟨?_, ?_, ?_, ?_⟩ <;>
        simp only [predictStream, if_neg haborted, hlast, hstate, streamResult, hdiffs]
      rw [contents_giveFallback, hdeltas]
      simp
  | some diffs =>
      rw [hdiffs] at hlast
      obtain ⟨haccepted, hgiven⟩ := give_accepted (g.drainStream (fun _ => true)
        { parserState := .initial g.parser } events).deltas
        (diffs.map (toDelta (F := F)))
      have hrefused : ¬ (give (fun _ => true) (g.drainStream (fun _ => true)
        { parserState := .initial g.parser } events).deltas
        (diffs.map (toDelta (F := F)))).1 = true := by simp [haccepted]
      refine ⟨?_, ?_, ?_, ?_⟩ <;>
        simp only [predictStream, if_neg haborted, hlast, hstate, streamResult, hdiffs,
          if_neg hrefused]
      rw [contents_giveFallback, hgiven, hdeltas, contents, List.flatMap_map]
      rfl

end Results

section Counts

variable {g : Generation F}

/-- The fields that the text has no part in. -/
structure SameCounts (out out' : GenerationResult F) : Prop where
  completionTokens : out'.completionTokens = out.completionTokens
  finishReason : out'.finishReason = out.finishReason
  logprobs : out'.logprobs = out.logprobs

theorem applyFallbackToolCalls_counts (out : GenerationResult F) (generated : Text) :
    SameCounts out (g.applyFallbackToolCalls out generated) := by
  rw [applyFallbackToolCalls]
  split <;> exact ⟨rfl, rfl, rfl⟩

theorem unparsed_counts (out : GenerationResult F) (generated : Text) :
    SameCounts out (g.unparsed out generated) := by
  rw [unparsed]
  split_ifs
  · obtain ⟨hcompletion, hfinish, hlogprobs⟩ :=
      applyFallbackToolCalls_counts (g := g) { out with text := generated } generated
    exact ⟨hcompletion, hfinish, hlogprobs⟩
  · exact ⟨rfl, rfl, rfl⟩

theorem parsed_counts (out : GenerationResult F) (generated : Text) :
    SameCounts out (g.parsed out generated) := by
  rw [parsed]
  split
  · exact unparsed_counts out generated
  · rename_i msg _
    dsimp only
    split_ifs
    · obtain ⟨hcompletion, hfinish, hlogprobs⟩ :=
        applyFallbackToolCalls_counts (g := g) (applyParsedMessage out msg) generated
      exact ⟨hcompletion, hfinish, hlogprobs⟩
    · exact ⟨rfl, rfl, rfl⟩

theorem streamResult_counts (task : TaskOutput) (events : List (TokenEvent F)) :
    SameCounts (g.counted task (g.soundState events)) (g.streamResult task events) := by
  rw [streamResult]
  split
  · exact unparsed_counts _ _
  · exact parsed_counts _ _

end Counts

section Calm

variable {g : Generation F} {task : TaskOutput} {events : List (TokenEvent F)}

theorem sounding_eq_self {heard : List (TokenEvent F)}
    (h : ∀ event ∈ heard, g.tokenToPiece event.id ≠ []) : g.sounding heard = heard := by
  rw [sounding, List.filter_eq_self]
  intro event hevent
  simpa using h event hevent

/-- Where the stop string is the last piece, the text is what was heard before it. -/
theorem settled_generated {heard : List (TokenEvent F)} {stopping : Option (TokenEvent F × Text)}
    (h : ∀ event stop, stopping = some (event, stop) → g.tokenToPiece event.id = stop) :
    (g.settled {} heard stopping).generated = (g.pieces heard).flatten := by
  cases stopping with
  | none => simp [settled]
  | some stopped =>
      obtain ⟨event, stop⟩ := stopped
      obtain rfl := h event stop rfl
      simp [settled, DrainState.stop]

/-- A text without a call for the fallback has the content of its message. -/
theorem parsed_text {out : GenerationResult F} {generated : Text} {msg : ChatMsg}
    (hparse : g.parser.parse generated false = some msg)
    (hfallback : g.setup.parseToolCalls = true →
      (g.parseFallbackToolCalls generated).getD [] = []) :
    (g.parsed out generated).text = msg.content := by
  have hmsg : g.parseFinalMessageWithIds generated = some (g.parser.setToolCallIds [] msg).1 := by
    rw [parseFinalMessageWithIds, hparse, Option.map_some]
  have hcontent := g.parser.setToolCallIds_content [] msg
  simp only [parsed, hmsg]
  split_ifs with hcalls
  · rw [Bool.and_eq_true] at hcalls
    have hnone := hfallback hcalls.1
    rw [applyFallbackToolCalls]
    cases hfound : g.parseFallbackToolCalls generated with
    | none => exact hcontent
    | some calls =>
        rw [hfound, Option.getD_some] at hnone
        rw [hnone]
        exact hcontent
  · exact hcontent

theorem Calm.agrees (h : g.Calm events) : g.Agrees task events := by
  have hsounding := sounding_eq_self h.pieces
  have hstate : g.soundState events = g.heardState events := by
    rw [soundState, heardState, hsounding]
  have hgenerated : (g.heardState events).generated = (g.pieces (g.heard [] events)).flatten :=
    settled_generated h.stop
  have hcancellable := g.predictCancellable_eq task events
  have hstream := g.predictStream_predicts task events
  have hcounts := parsed_counts (g := g) (g.counted task (g.heardState events))
    (g.heardState events).generated
  have hcounts' := streamResult_counts (g := g) task events
  rw [hstate] at hcounts'
  have hfallback : g.setup.parseToolCalls = true →
      (g.parseFallbackToolCalls (g.heardState events).generated).getD [] = [] := by
    rw [hgenerated]
    exact h.fallback
  have hlast : g.parser.Concatenates g.setup.parseToolCalls (g.pieces (g.heard [] events)) →
      ∃ diffs msg, g.lastDiffs events = some diffs ∧
        g.parser.parse (g.heardState events).generated false = some msg ∧
        contents (g.predictStream (fun _ => true) task events).deltas = msg.content := by
    rintro ⟨diffs, msg, hdiffs, hparse, hcontent⟩
    have hpieces : g.soundPieces events = g.pieces (g.heard [] events) := by
      rw [soundPieces, hsounding]
    have hlast : g.lastDiffs events = some diffs := by
      rw [lastDiffs, hpieces]
      exact hdiffs
    refine ⟨diffs, msg, hlast, hgenerated ▸ hparse, ?_⟩
    rw [hstream.contents, hlast, hpieces]
    exact hcontent
  refine ⟨?_, ?_, ?_, ?_, ?_, fun hlawful => ?_, fun hlawful => ?_⟩
  · rw [hcancellable, hstream.generated, hstate]
  · rw [hcancellable, hstream.result]
    exact hcounts.completionTokens.trans hcounts'.completionTokens.symm
  · rw [hcancellable, hstream.result]
    exact hcounts.finishReason.trans hcounts'.finishReason.symm
  · rw [hcancellable, hstream.result]
    exact hcounts.logprobs.trans hcounts'.logprobs.symm
  · rw [hcancellable, hstream.lastPromptTokens, hstate]
  · obtain ⟨diffs, msg, hdiffs, hparse, hcontents⟩ := hlast hlawful
    rw [hcontents, hstream.result, streamResult, hdiffs, hstate]
    exact (parsed_text hparse hfallback).symm
  · obtain ⟨diffs, msg, hdiffs, hparse, -⟩ := hlast hlawful
    rw [hcancellable, hstream.result, streamResult, hdiffs, hstate]

end Calm

section Signing

def signingParser : ChatParser where
  echo := false
  parse text isPartial := some { content := if isPartial then text else text ++ ['x'] }
  computeDiffs previous next :=
    some (if next.content = previous.content then []
      else [{ contentDelta := next.content.drop previous.content.length }])
  setToolCallIds ids msg := (msg, ids)
  setToolCallIds_content _ _ := rfl

def Signed (s : StreamingChatParserState) : Prop := s.chatMsg = { content := s.generatedText }

theorem filterDiffs_content (text : Text) (isPartial : Bool) (sent : List ℕ)
    (diffs : List ChatMsgDiff) (h : ∀ d ∈ diffs, d.toolCallIndex = none) :
    (StreamingChatParserState.filterDiffs { content := text } isPartial sent diffs).1 = diffs := by
  induction diffs generalizing sent with
  | nil => rfl
  | cons d diffs ih =>
      have hhead : StreamingChatParserState.filterDiff { content := text } isPartial sent d =
          ([d], sent) := by
        simp [StreamingChatParserState.filterDiff, StreamingChatParserState.headersBefore,
          h d List.mem_cons_self]
      simp only [StreamingChatParserState.filterDiffs, hhead, List.singleton_append]
      rw [ih sent fun d hd => h d (List.mem_cons_of_mem _ hd)]

variable {s : StreamingChatParserState}

theorem signing_update (h : Signed s) (text : Text) (isPartial filterToolCalls : Bool) :
    ∃ diffs, (s.update signingParser text isPartial filterToolCalls).1 = some diffs ∧
      diffs.flatMap ChatMsgDiff.contentDelta = text ++ (if isPartial then [] else ['x']) ∧
      (isPartial = true → Signed (s.update signingParser text isPartial filterToolCalls).2) ∧
      (s.update signingParser text isPartial filterToolCalls).2.generatedText =
        s.generatedText ++ text := by
  have hchat : s.chatMsg = { content := s.generatedText } := h
  generalize hnext : (if isPartial then s.generatedText ++ text
    else s.generatedText ++ text ++ ['x']) = next
  have hsuffix : next = s.generatedText ++ (text ++ if isPartial then [] else ['x']) := by
    rw [← hnext]
    split_ifs <;> simp
  generalize hadded : (text ++ if isPartial then [] else ['x']) = added at hsuffix ⊢
  by_cases hempty : next = []
  · obtain ⟨hgenerated, hnil⟩ := List.append_eq_nil_iff.1 (hsuffix.symm.trans hempty)
    have hupdate : s.update signingParser text isPartial filterToolCalls =
        (some [], { s with generatedText := s.generatedText ++ text }) := by
      have hyes : ({ content := next } : ChatMsg).empty = true := by simp [ChatMsg.empty, hempty]
      simp only [StreamingChatParserState.update, signingParser, hnext, if_pos hyes]
    have htext : text = [] := (List.append_eq_nil_iff.1 (hadded.trans hnil)).1
    rw [hupdate]
    refine ⟨[], rfl, by simp [hnil], fun _ => ?_, rfl⟩
    simp [Signed, hchat, htext]
  · have hne : ¬ (({ content := next } : ChatMsg).empty = true) := by
      simp [ChatMsg.empty, hempty]
    generalize hdiffs : (if next = s.generatedText then ([] : List ChatMsgDiff)
      else [{ contentDelta := next.drop s.generatedText.length }]) = diffs
    have hcontent : diffs.flatMap ChatMsgDiff.contentDelta = added := by
      rw [← hdiffs]
      split_ifs with hsame
      · have hnil : added = [] := List.append_right_eq_self.1 (hsuffix.symm.trans hsame)
        rw [hnil]
        rfl
      · simp [hsuffix]
    have hindex : ∀ d ∈ diffs, d.toolCallIndex = none := by
      rw [← hdiffs]
      split_ifs <;> simp
    have hfilter := filterDiffs_content next isPartial s.sentToolCallNames diffs hindex
    cases filterToolCalls with
    | false =>
        have hupdate : s.update signingParser text isPartial false =
            (some diffs, { s with
              generatedText := s.generatedText ++ text, chatMsg := { content := next } }) := by
          simp only [StreamingChatParserState.update, signingParser, hnext, if_neg hne, hchat, hdiffs,
            Bool.not_false, if_true]
        rw [hupdate]
        refine ⟨diffs, rfl, hcontent, fun hpartial => ?_, rfl⟩
        rw [if_pos hpartial] at hnext
        simp [Signed, hnext]
    | true =>
        rcases hout : StreamingChatParserState.filterDiffs { content := next } isPartial
          s.sentToolCallNames diffs with ⟨out, sent⟩
        rw [hout] at hfilter
        dsimp only at hfilter
        subst hfilter
        have hupdate : s.update signingParser text isPartial true =
            (some out, { s with
              generatedText := s.generatedText ++ text, chatMsg := { content := next }
              sentToolCallNames := sent }) := by
          simp only [StreamingChatParserState.update, signingParser, hnext, if_neg hne, hchat, hdiffs,
            Bool.not_true, Bool.false_eq_true, if_false, hout]
        rw [hupdate]
        refine ⟨out, rfl, hcontent, fun hpartial => ?_, rfl⟩
        rw [if_pos hpartial] at hnext
        simp [Signed, hnext]

theorem signing_updates (h : Signed s) (filterToolCalls : Bool) (pieces : List Text) :
    (signingParser.updates filterToolCalls s pieces).1 = pieces.flatten ∧
      Signed (signingParser.updates filterToolCalls s pieces).2 := by
  induction pieces generalizing s with
  | nil => exact ⟨rfl, h⟩
  | cons piece pieces ih =>
      obtain ⟨diffs, hdiffs, hcontent, hsigned, -⟩ := signing_update h piece true filterToolCalls
      rcases hupdate : s.update signingParser piece true filterToolCalls with ⟨result, s'⟩
      rw [hupdate] at hdiffs hsigned
      dsimp only at hdiffs
      obtain ⟨hrest, hsigned'⟩ := ih (hsigned rfl)
      simp only [ChatParser.updates, hupdate, hdiffs, Option.getD_some, hcontent, List.flatten_cons,
        hrest, hsigned', and_true]
      simp

theorem signing_initial : Signed (.initial signingParser) := rfl

theorem signing_concatenates (filterToolCalls : Bool) (pieces : List Text) :
    signingParser.Concatenates filterToolCalls pieces := by
  obtain ⟨hcontent, hsigned⟩ := signing_updates signing_initial filterToolCalls pieces
  obtain ⟨diffs, hdiffs, hlast, -, -⟩ := signing_update hsigned [] false filterToolCalls
  exact ⟨diffs, { content := pieces.flatten ++ ['x'] }, hdiffs, rfl, by rw [hcontent, hlast]; rfl⟩

end Signing

section Necessity

variable {g : Generation F} {task : TaskOutput} {events : List (TokenEvent F)}

theorem settled_decodedIds (heard : List (TokenEvent F))
    (stopping : Option (TokenEvent F × Text)) :
    (g.settled {} heard stopping).decodedIds = heard.map TokenEvent.id := by
  cases stopping <;> rfl

/-- Where the two ways count the same, no piece is empty. -/
theorem Agrees.pieces (h : g.Agrees task events) :
    ∀ event ∈ g.heard [] events, g.tokenToPiece event.id ≠ [] := by
  have hcount := h.completionTokens
  rw [predictCancellable_eq, (g.predictStream_predicts task events).result,
    (parsed_counts _ _).completionTokens, (streamResult_counts task events).completionTokens] at hcount
  simp only [counted, heardState, soundState, settled_decodedIds, List.length_map,
    Nat.cast_inj] at hcount
  have hall := List.length_filter_eq_length_iff.1 hcount.symm
  intro event hevent
  simpa using hall event hevent

theorem stopping_spec {generated stop : Text} {event : TokenEvent F}
    (h : g.stopping generated events = some (event, stop)) :
    g.stopsAt (generated ++ (g.pieces (g.heard generated events)).flatten ++
      g.tokenToPiece event.id) = some stop := by
  induction events generalizing generated with
  | nil => cases h
  | cons head events ih =>
      cases hstops : g.stopsAt (generated ++ g.tokenToPiece head.id) with
      | some stop' =>
          obtain ⟨hheard, hstopping⟩ := heard_cons_of_stops events hstops
          rw [hstopping, Option.some.injEq, Prod.mk.injEq] at h
          obtain ⟨rfl, rfl⟩ := h
          rw [hheard]
          simpa [Generation.pieces] using hstops
      | none =>
          obtain ⟨hheard, hstopping⟩ := heard_cons_of_continues events hstops
          rw [hstopping] at h
          have hrest := ih h
          rw [hheard]
          simpa [Generation.pieces, List.append_assoc] using hrest

/-- A text that a stop cuts back to what was heard before was cut by exactly the last piece. -/
theorem stop_eq_of_generated
    (h : (g.heardState events).generated = (g.pieces (g.heard [] events)).flatten)
    {event : TokenEvent F} {stop : Text} (hstopping : g.stopping [] events = some (event, stop)) :
    g.tokenToPiece event.id = stop := by
  have hstops := stopping_spec hstopping
  rw [List.nil_append] at hstops
  rw [heardState, hstopping] at h
  simp only [settled, DrainState.stop, List.nil_append] at h
  generalize (g.pieces (g.heard [] events)).flatten = text at hstops h
  have hsuffix : stop <:+ text ++ g.tokenToPiece event.id := by
    have hfound := List.find?_some hstops
    rw [Bool.and_eq_true] at hfound
    exact List.isSuffixOf_iff_suffix.1 hfound.2
  have hle := hsuffix.length_le
  have hlength := congrArg List.length h
  rw [List.length_take, List.length_append] at hlength
  rw [List.length_append] at hle
  have hsize : stop.length = (g.tokenToPiece event.id).length := by omega
  have hin : stop <:+ g.tokenToPiece event.id :=
    List.suffix_of_suffix_length_le hsuffix (List.suffix_append _ _) hsize.le
  exact (hin.eq_of_length hsize).symm

/-- A parser that says more at the end shows the text, unless the fallback has emptied it. -/
theorem signed_text (hparser : g.parser = signingParser) (out : GenerationResult F)
    (generated : Text) :
    (g.parsed out generated).text =
      if g.setup.parseToolCalls = true ∧ (g.parseFallbackToolCalls generated).getD [] ≠ [] then []
      else generated ++ ['x'] := by
  have hmsg : g.parseFinalMessageWithIds generated = some { content := generated ++ ['x'] } := by
    rw [parseFinalMessageWithIds, hparser]
    rfl
  simp only [parsed, hmsg, applyParsedMessage, List.map_nil, List.isEmpty_nil, Bool.and_true,
    applyFallbackToolCalls]
  cases g.setup.parseToolCalls with
  | false => simp
  | true =>
      cases hcalls : g.parseFallbackToolCalls generated with
      | none => simp
      | some calls => cases calls <;> simp

/-- With the signing parser, the content agrees only where the stop is the last piece as a whole and
the fallback finds nothing. -/
theorem Agrees.signed (h : g.Agrees task events) (hparser : g.parser = signingParser) :
    (g.heardState events).generated = (g.pieces (g.heard [] events)).flatten ∧
      ¬ (g.setup.parseToolCalls = true ∧
        (g.parseFallbackToolCalls (g.heardState events).generated).getD [] ≠ []) := by
  have hsounding := sounding_eq_self h.pieces
  have hstate : g.soundState events = g.heardState events := by
    rw [soundState, heardState, hsounding]
  have hpieces : g.soundPieces events = g.pieces (g.heard [] events) := by
    rw [soundPieces, hsounding]
  have hlawful : g.parser.Concatenates g.setup.parseToolCalls (g.pieces (g.heard [] events)) :=
    hparser ▸ signing_concatenates _ _
  have hcontent := h.content hlawful
  have hstream := g.predictStream_predicts task events
  obtain ⟨diffs, msg, hdiffs, hparse, hmsg⟩ := hlawful
  have hlast : g.lastDiffs events = some diffs := by
    rw [lastDiffs, hpieces]
    exact hdiffs
  rw [hstream.contents, hpieces, hlast, Option.getD_some, hmsg, hstream.result, streamResult, hlast,
    hstate, signed_text hparser] at hcontent
  have hsigned : msg.content = (g.pieces (g.heard [] events)).flatten ++ ['x'] := by
    rw [hparser] at hparse
    exact congrArg ChatMsg.content (Option.some.inj hparse).symm
  rw [hsigned] at hcontent
  split_ifs at hcontent with hfallback
  · exact absurd hcontent (by simp)
  · exact ⟨(List.append_cancel_right hcontent).symm, hfallback⟩

theorem heard_withParser (g : Generation F) (parser : ChatParser) (generated : Text)
    (events : List (TokenEvent F)) :
    { g with parser }.heard generated events = g.heard generated events := by
  induction events generalizing generated with
  | nil => rfl
  | cons event events ih =>
      simp only [heard, ih]
      rfl

theorem stopping_withParser (g : Generation F) (parser : ChatParser) (generated : Text)
    (events : List (TokenEvent F)) :
    { g with parser }.stopping generated events = g.stopping generated events := by
  induction events generalizing generated with
  | nil => rfl
  | cons event events ih =>
      simp only [stopping, ih]
      rfl

theorem calm_withParser (g : Generation F) (parser : ChatParser) (events : List (TokenEvent F)) :
    { g with parser }.Calm events ↔ g.Calm events := by
  have hheard := heard_withParser g parser [] events
  have hstopping := stopping_withParser g parser [] events
  constructor
  · rintro ⟨hpieces, hstop, hfallback⟩
    rw [hheard] at hpieces hfallback
    rw [hstopping] at hstop
    exact ⟨hpieces, hstop, hfallback⟩
  · rintro ⟨hpieces, hstop, hfallback⟩
    rw [← hheard] at hpieces hfallback
    rw [← hstopping] at hstop
    exact ⟨hpieces, hstop, hfallback⟩

/-- A generation over two tokens, of which the second has no piece. -/
def emptyPiece : Generation Unit where
  setup := { promptTokens := [], stopStrings := [], maxTokens := 16, parseToolCalls := false }
  logprobs := false
  parser := signingParser
  tokenToPiece := fun id => if id = 1 then ['a'] else []
  logProbability := id
  parseFallbackToolCalls := fun _ => none

end Necessity

end Generation

end InferDeck.LlamaWrapper.Decoding
