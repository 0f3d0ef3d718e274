import InferDeck.Foundation
import InferDeck.SinglePrecision

/-!
# Decoding of WAVE files

`decode_wav` of the transcription route: the walk over the chunks, the checks, and the mixing of the
channels. A read outside of the content, a size that does not fit into 64 bits and a lack of fuel stop
the decoder, so that they can be excluded; sizes of type `uint32_t` wrap.
-/

namespace InferDeck.Gateway.Wav

open InferDeck.Foundation

/-- The bytes of a string, whose length is a `ptrdiff_t` too. -/
structure Content where
  bytes : List UInt8
  size_ok : bytes.length < 2 ^ 63

structure TranscriptionRequest where
  sampleRate : ℕ
  pcm : List ℚ
  deriving DecidableEq

inductive Fault where
  | outside
  | wraps
  | unfinished
  deriving DecidableEq, Repr

/-- Why there is no request: a fault of the decoder, or its answer. -/
inductive Stop where
  | fault (fault : Fault)
  | refused (error : Error)
  deriving DecidableEq

abbrev Run (α : Type) := Except Stop α

def refuse {α : Type} (message : String) : Run α :=
  .error (.refused { code := .invalidArgument, message })

/-- A result of type `size_t`. -/
def size64 (n : ℕ) : Run ℕ := if n < 2 ^ 64 then .ok n else .error (.fault .wraps)

/-- A result of type `uint32_t`. -/
def wrap32 (n : ℕ) : ℕ := n % 2 ^ 32

def littleEndian : List UInt8 → ℕ
  | [] => 0
  | b :: rest => b.toNat + 256 * littleEndian rest

section Reads

variable (content : List UInt8)

def slice (position count : ℕ) : List UInt8 := (content.drop position).take count

def bytesAt (position count : ℕ) : Run (List UInt8) :=
  if position + count ≤ content.length then .ok (slice content position count)
  else .error (.fault .outside)

def u16 (position : ℕ) : Run ℕ := (bytesAt content position 2).map littleEndian

def u32 (position : ℕ) : Run ℕ := (bytesAt content position 4).map littleEndian

end Reads

def riffId : List UInt8 := [0x52, 0x49, 0x46, 0x46]

def waveId : List UInt8 := [0x57, 0x41, 0x56, 0x45]

/-- `"fmt "`. -/
def fmtId : List UInt8 := [0x66, 0x6d, 0x74, 0x20]

def dataId : List UInt8 := [0x64, 0x61, 0x74, 0x61]

structure State where
  format : ℕ := 0
  channels : ℕ := 0
  bits : ℕ := 0
  sampleRate : ℕ := 0
  samples : Option ℕ := none
  sampleBytes : ℕ := 0
  deriving DecidableEq

section Walk

variable (content : List UInt8)

def readFormat (position size : ℕ) (state : State) : Run State := do
  let format ← u16 content (position + 8)
  let channels ← u16 content (position + 10)
  let sampleRate ← u32 content (position + 12)
  let bits ← u16 content (position + 22)
  if format = 0xfffe ∧ 40 ≤ size then
    let subformat ← u16 content (position + 32)
    let format := if subformat = 1 ∨ subformat = 3 then subformat else format
    return { state with format, channels, bits, sampleRate }
  else return { state with format, channels, bits, sampleRate }

def readChunk (position size : ℕ) (state : State) : Run State := do
  let id ← bytesAt content position 4
  if id = fmtId ∧ 16 ≤ size then readFormat content position size state
  else if id = dataId then return { state with samples := some (position + 8), sampleBytes := size }
  else return state

def advance (size : ℕ) : ℕ := wrap32 (wrap32 (8 + size) + size % 2)

def walk : ℕ → ℕ → State → Run State
  | 0, _, _ => .error (.fault .unfinished)
  | fuel + 1, position, state => do
      let header ← size64 (position + 8)
      if content.length < header then return state
      let size ← u32 content (position + 4)
      let stop ← size64 (header + size)
      if content.length < stop then return state
      let state ← readChunk content position size state
      let next ← size64 (position + advance size)
      walk fuel next state

end Walk

def signed16 (n : ℕ) : ℤ := if n < 2 ^ 15 then n else n - 2 ^ 16

section Mix

variable (content : List UInt8) (state : State)

/-- One channel's value. -/
def readSample (position : ℕ) : Run ℚ :=
  if state.format = 1 then do
    let value ← u16 content position
    return SinglePrecision.round (signed16 value / 32768)
  else do
    let value ← u32 content position
    match SinglePrecision.ofBits value with
    | none => refuse "float32 WAVE samples must be finite"
    | some x => return max (-1) (min x 1)

def mixFrame (samples frameSize frame : ℕ) : Run ℚ := do
  let mixed ← (List.range state.channels).foldlM (fun mixed channel => do
    let start ← size64 (frame * frameSize)
    let offset ← size64 (channel * (state.bits / 8))
    let value ← readSample content state (samples + start + offset)
    return SinglePrecision.round (mixed + value)) 0
  return SinglePrecision.round (mixed / state.channels)

end Mix

/-- What `samples` and the format must be. -/
def State.supported (state : State) : Bool :=
  decide (1 ≤ state.channels ∧ state.channels ≤ 8 ∧ 8000 ≤ state.sampleRate ∧
    state.sampleRate ≤ 192000 ∧
    (state.format = 1 ∧ state.bits = 16 ∨ state.format = 3 ∧ state.bits = 32))

def mixAll (content : List UInt8) (state : State) (samples : ℕ) : Run TranscriptionRequest := do
  let frameSize := state.channels * (state.bits / 8)
  if state.sampleBytes % frameSize ≠ 0 then
    refuse "WAVE data is not aligned to complete sample frames"
  else
    let frames := state.sampleBytes / frameSize
    let minutes ← size64 (state.sampleRate * 60)
    let limit ← size64 (minutes * 30)
    if frames = 0 ∨ limit < frames then refuse "audio duration is invalid or exceeds 30 minutes"
    else
      let pcm ← (List.range frames).mapM (mixFrame content state samples frameSize)
      return { sampleRate := state.sampleRate, pcm }

def isWave (content : List UInt8) : Bool :=
  decide (44 ≤ content.length) && slice content 0 4 == riffId && slice content 8 4 == waveId

def decodeWav (fuel : ℕ) (content : List UInt8) : Run TranscriptionRequest :=
  if !isWave content then refuse "audio is not RIFF/WAVE"
  else do
    let state ← walk content fuel 12 {}
    match state.samples with
    | none => refuse "WAVE must contain PCM16 or float32 audio"
    | some samples =>
        if !state.supported then refuse "WAVE must contain PCM16 or float32 audio"
        else mixAll content state samples

end InferDeck.Gateway.Wav
