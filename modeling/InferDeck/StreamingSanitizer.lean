import Mathlib.Tactic

/-!
# The streaming sanitizer

Removes chat-template tags and reasoning blocks from streamed text. A text is a list of bytes, each
written as the character of that code. `flushLoop` is the loop of `flush` on what is left of the
buffer from the loop's index on; its `fuel` is the buffer's length, and every pass consumes at
least one byte.
-/

namespace InferDeck.Gateway

abbrev Text := List Char

inductive TagKind where
  | openThink
  | openChannel
  | remove
  deriving DecidableEq

structure Tag where
  text : Text
  kind : TagKind
  deriving DecidableEq

def tags : List Tag :=
  [⟨"<think>".toList, .openThink⟩,
   ⟨"<|channel|>analysis<|message|>".toList, .openChannel⟩,
   ⟨"<|im_start|>assistant".toList, .remove⟩,
   ⟨"<|im_start|>system".toList, .remove⟩,
   ⟨"<|im_start|>user".toList, .remove⟩,
   ⟨"<|im_start|>".toList, .remove⟩,
   ⟨"<|channel|>final<|message|>".toList, .remove⟩,
   ⟨"<|channel|>commentary<|message|>".toList, .remove⟩,
   ⟨"<|start|>assistant".toList, .remove⟩,
   ⟨"<|start|>system".toList, .remove⟩,
   ⟨"<|start|>user".toList, .remove⟩,
   ⟨"<|start|>".toList, .remove⟩,
   ⟨"<|channel|>analysis".toList, .remove⟩,
   ⟨"<|channel|>final".toList, .remove⟩,
   ⟨"<|channel|>commentary".toList, .remove⟩,
   ⟨"<|channel|>".toList, .remove⟩,
   ⟨"<|message|>".toList, .remove⟩,
   ⟨"<|end|>".toList, .remove⟩]

def closeThink : Text := "</think>".toList

def closeChannel : Text := "<|end|>".toList

def matchTag (rest : Text) : Option Tag := tags.find? fun tag => tag.text.isPrefixOf rest

def isTagPrefix (rest : Text) : Bool :=
  tags.any fun tag => (tag.text.take rest.length).isPrefixOf rest

/-- What follows the first occurrence of the pattern: `find`, then a skip over the match. -/
def after (pattern : Text) : Text → Option Text
  | [] => none
  | c :: rest =>
      if pattern.isPrefixOf (c :: rest) then some ((c :: rest).drop pattern.length)
      else after pattern rest

structure FlushResult where
  out : Text
  thinkDepth : ℕ
  channelDepth : ℕ
  /-- What is left of the buffer; `none` where `flush` returned without erasing anything. -/
  rest : Option Text
  deriving DecidableEq

def FlushResult.emit (o : Text) (r : FlushResult) : FlushResult := { r with out := o ++ r.out }

def flushLoop (force : Bool) : ℕ → ℕ → ℕ → Text → FlushResult
  | _, think, channel, [] => ⟨[], think, channel, some []⟩
  | 0, think, channel, rest => ⟨[], think, channel, some rest⟩
  | fuel + 1, think, channel, c :: rest =>
      if 0 < think then
        match after closeThink (c :: rest) with
        | some rest' => flushLoop force fuel (think - 1) channel rest'
        | none => ⟨[], think, channel, if force then some [] else none⟩
      else if 0 < channel then
        match after closeChannel (c :: rest) with
        | some rest' => flushLoop force fuel think (channel - 1) rest'
        | none => ⟨[], think, channel, if force then some [] else none⟩
      else if c ≠ '<' then (flushLoop force fuel think channel rest).emit [c]
      else
        match matchTag (c :: rest) with
        | some tag =>
            let think' := if tag.kind = .openThink then think + 1 else think
            let channel' := if tag.kind = .openChannel then channel + 1 else channel
            flushLoop force fuel think' channel' ((c :: rest).drop tag.text.length)
        | none =>
            if isTagPrefix (c :: rest) && !force then ⟨[], think, channel, some (c :: rest)⟩
            else (flushLoop force fuel think channel rest).emit ['<']

structure StreamingSanitizer where
  buffer : Text := []
  thinkDepth : ℕ := 0
  channelDepth : ℕ := 0
  totalRaw : ℕ := 0
  totalClean : ℕ := 0
  deriving DecidableEq

namespace StreamingSanitizer

def flush (s : StreamingSanitizer) (force : Bool) : Text × StreamingSanitizer :=
  let r := flushLoop force s.buffer.length s.thinkDepth s.channelDepth s.buffer
  (r.out, { s with
    buffer := r.rest.getD s.buffer
    thinkDepth := r.thinkDepth
    channelDepth := r.channelDepth })

def onToken (s : StreamingSanitizer) (token : Text) : Text × StreamingSanitizer :=
  let r := flush { s with
    totalRaw := s.totalRaw + token.length
    buffer := s.buffer ++ token } false
  (r.1, { r.2 with totalClean := r.2.totalClean + r.1.length })

def finish (s : StreamingSanitizer) : Text × StreamingSanitizer :=
  let r := s.flush true
  (r.1, { r.2 with
    totalClean := r.2.totalClean + r.1.length
    buffer := []
    thinkDepth := 0
    channelDepth := 0 })

def stream (s : StreamingSanitizer) : List Text → Text
  | [] => s.finish.1
  | token :: tokens => (s.onToken token).1 ++ (s.onToken token).2.stream tokens

end StreamingSanitizer

/-- Every way of splitting the text into tokens gives the output of the text in one token. -/
def ChunkingIndependent (t : Text) : Prop :=
  ∀ tokens : List Text, tokens.flatten = t →
    StreamingSanitizer.stream {} tokens = StreamingSanitizer.stream {} [t]

end InferDeck.Gateway
