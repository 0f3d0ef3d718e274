import InferDeck.WavDecoder

/-!
# What the decoder does with every content

The chunks of a content follow each other after its header, each with its padding. As long as no
chunk's size is so large that the walk's 32-bit step wraps, the walk visits just these, reads inside of
the content, and what is decoded are the frames of the last data chunk in the format of the last
usable `fmt ` chunk.
-/

namespace InferDeck.Gateway.Wav

open InferDeck.Foundation

/-- A chunk whose bytes stand from `start` on. -/
structure Chunk where
  id : List UInt8
  start : ℕ
  size : ℕ
  deriving DecidableEq

section Chunks

variable (content : List UInt8)

def le16 (position : ℕ) : ℕ := littleEndian (slice content position 2)

def le32 (position : ℕ) : ℕ := littleEndian (slice content position 4)

def chunkAt (position : ℕ) : Chunk where
  id := slice content position 4
  start := position + 8
  size := le32 content (position + 4)

/-- A whole chunk stands at the position. -/
def Fits (position : ℕ) : Prop :=
  position + 8 ≤ content.length ∧ position + 8 + (chunkAt content position).size ≤ content.length

instance (position : ℕ) : Decidable (Fits content position) := inferInstanceAs (Decidable (_ ∧ _))

/-- The chunks from a position on, each padded to an even length. -/
def chunksFrom (position : ℕ) : List Chunk :=
  if h : Fits content position then
    chunkAt content position :: chunksFrom
      (position + 8 + (chunkAt content position).size + (chunkAt content position).size % 2)
  else []
termination_by content.length - position
decreasing_by
  have := h.1
  omega

def chunks : List Chunk := chunksFrom content 12

def Chunk.usable (chunk : Chunk) : Bool := chunk.id == fmtId && decide (16 ≤ chunk.size)

def Chunk.isData (chunk : Chunk) : Bool := chunk.id == dataId

def lastOf (p : Chunk → Bool) (chunks : List Chunk) : Option Chunk := (chunks.filter p).getLast?

/-- The format of an extensible `fmt ` chunk is that of its subformat, where that is one of the two
supported ones. -/
def formatOf (chunk : Chunk) : ℕ :=
  let format := le16 content chunk.start
  let subformat := le16 content (chunk.start + 24)
  if format = 0xfffe ∧ 40 ≤ chunk.size ∧ (subformat = 1 ∨ subformat = 3) then subformat else format

def channelsOf (chunk : Chunk) : ℕ := le16 content (chunk.start + 2)

def rateOf (chunk : Chunk) : ℕ := le32 content (chunk.start + 4)

def bitsOf (chunk : Chunk) : ℕ := le16 content (chunk.start + 14)

def sampleValue (format position : ℕ) : Option ℚ :=
  if format = 1 then some (signed16 (le16 content position) / 32768)
  else (SinglePrecision.ofBits (le32 content position)).map fun x => max (-1) (min x 1)

end Chunks

/-- A value of single precision next to an average: the rounded average of 16-bit samples, and up to
the roundings of the sum that of others. -/
def IsMean (format : ℕ) (values : List ℚ) (x : ℚ) : Prop :=
  (format = 1 → x = SinglePrecision.round (values.sum / values.length)) ∧
    |x - values.sum / values.length| ≤ 1 / 2 ^ 20

/-- The request is decoded from the last usable format and the last data. -/
structure Decoded (content : List UInt8) (request : TranscriptionRequest) (fmt data : Chunk) :
    Prop where
  fmt_last : lastOf Chunk.usable (chunks content) = some fmt
  data_last : lastOf Chunk.isData (chunks content) = some data
  format : formatOf content fmt = 1 ∧ bitsOf content fmt = 16 ∨
    formatOf content fmt = 3 ∧ bitsOf content fmt = 32
  channels : 1 ≤ channelsOf content fmt ∧ channelsOf content fmt ≤ 8
  rate : request.sampleRate = rateOf content fmt
  size : data.size = request.pcm.length * channelsOf content fmt * (bitsOf content fmt / 8)
  frames : 1 ≤ request.pcm.length ∧ request.pcm.length ≤ 1800 * request.sampleRate
  samples : ∀ frame x, request.pcm[frame]? = some x → ∃ values : List ℚ,
    ((List.range (channelsOf content fmt)).map fun channel =>
      sampleValue content (formatOf content fmt) (data.start +
        (frame * channelsOf content fmt + channel) * (bitsOf content fmt / 8))) =
        values.map some ∧
      IsMean (formatOf content fmt) values x

inductive Visited (content : List UInt8) : ℕ → Prop
  | start : isWave content = true → Visited content 12
  | next {position : ℕ} : Visited content position → Fits content position →
      Visited content (position + advance (chunkAt content position).size)

/-- The walk ends without a fault, no size wraps, and what is decoded is exact. -/
structure Safe (content : List UInt8) : Prop where
  finishes : ∀ fuel, content.length < fuel → ∀ fault, decodeWav fuel content ≠ .error (.fault fault)
  unwrapped : ∀ position, Visited content position → Fits content position →
    8 + (chunkAt content position).size + (chunkAt content position).size % 2 < 2 ^ 32
  exact : ∀ fuel, content.length < fuel → ∀ request, decodeWav fuel content = .ok request →
    ∃ fmt data, Decoded content request fmt data

/-! ### Reads inside of the content -/

section Reads

variable {content : List UInt8} {position count : ℕ}

theorem bytesAt_eq (h : position + count ≤ content.length) :
    bytesAt content position count = .ok (slice content position count) := if_pos h

theorem u16_eq (h : position + 2 ≤ content.length) :
    u16 content position = .ok (le16 content position) := by
  rw [u16, bytesAt_eq h]
  rfl

theorem u32_eq (h : position + 4 ≤ content.length) :
    u32 content position = .ok (le32 content position) := by
  rw [u32, bytesAt_eq h]
  rfl

theorem littleEndian_lt : ∀ bytes : List UInt8, littleEndian bytes < 2 ^ (8 * bytes.length)
  | [] => by simp [littleEndian]
  | b :: rest => by
      have hb := b.toNat_lt
      have ih := littleEndian_lt rest
      have hpow : 2 ^ (8 * (b :: rest).length) = 256 * 2 ^ (8 * rest.length) := by
        rw [List.length_cons, Nat.mul_add, pow_add]
        ring
      rw [littleEndian, hpow]
      omega

theorem le16_lt (content : List UInt8) (position : ℕ) : le16 content position < 2 ^ 16 := by
  refine (littleEndian_lt _).trans_le (Nat.pow_le_pow_right (by norm_num) ?_)
  have : (slice content position 2).length ≤ 2 := by simp [slice]
  omega

theorem le32_lt (content : List UInt8) (position : ℕ) : le32 content position < 2 ^ 32 := by
  refine (littleEndian_lt _).trans_le (Nat.pow_le_pow_right (by norm_num) ?_)
  have : (slice content position 4).length ≤ 4 := by simp [slice]
  omega

end Reads

theorem size64_eq {n : ℕ} (h : n < 2 ^ 64) : size64 n = .ok n := if_pos h

/-! ### The walk -/

section Walk

variable {content : List UInt8} {position : ℕ}

def applyChunk (content : List UInt8) (state : State) (chunk : Chunk) : State :=
  if chunk.usable then
    { state with
      format := formatOf content chunk
      channels := channelsOf content chunk
      bits := bitsOf content chunk
      sampleRate := rateOf content chunk }
  else if chunk.isData then { state with samples := some chunk.start, sampleBytes := chunk.size }
  else state

theorem readFormat_eq (h : Fits content position) (hsize : 16 ≤ (chunkAt content position).size)
    (state : State) :
    readFormat content position (chunkAt content position).size state =
      .ok { state with
        format := formatOf content (chunkAt content position)
        channels := channelsOf content (chunkAt content position)
        bits := bitsOf content (chunkAt content position)
        sampleRate := rateOf content (chunkAt content position) } := by
  obtain ⟨hheader, hend⟩ := h
  rw [readFormat, u16_eq (by omega), u16_eq (by omega), u32_eq (by omega), u16_eq (by omega)]
  simp only [bind, Except.bind, pure, Except.pure, formatOf, channelsOf, rateOf, bitsOf]
  have hstart : (chunkAt content position).start = position + 8 := rfl
  simp only [hstart, Nat.add_assoc, Nat.reduceAdd]
  by_cases hextensible : le16 content (position + 8) = 0xfffe ∧ 40 ≤ (chunkAt content position).size
  · rw [if_pos hextensible, u16_eq (by omega)]
    by_cases hsub : le16 content (position + 32) = 1 ∨ le16 content (position + 32) = 3
    · simp [hextensible, hsub]
    · simp [hsub]
  · rw [if_neg hextensible, if_neg fun hall => hextensible ⟨hall.1, hall.2.1⟩]

theorem readChunk_eq (h : Fits content position) (state : State) :
    readChunk content position (chunkAt content position).size state =
      .ok (applyChunk content state (chunkAt content position)) := by
  have hheader := h.1
  have hid : bytesAt content position 4 = .ok (chunkAt content position).id :=
    bytesAt_eq (by omega)
  simp only [readChunk, hid, bind, Except.bind, applyChunk, Chunk.usable, Chunk.isData,
    Bool.and_eq_true, beq_iff_eq, decide_eq_true_eq]
  by_cases hfmt : (chunkAt content position).id = fmtId ∧ 16 ≤ (chunkAt content position).size
  · rw [if_pos hfmt, if_pos hfmt, readFormat_eq h hfmt.2]
  · rw [if_neg hfmt, if_neg hfmt]
    split_ifs <;> rfl

theorem advance_eq {size : ℕ} (h : 8 + size + size % 2 < 2 ^ 32) :
    advance size = 8 + size + size % 2 := by
  have hsum : 8 + size < 2 ^ 32 := by omega
  rw [advance, wrap32, wrap32, Nat.mod_eq_of_lt hsum, Nat.mod_eq_of_lt h]

/-- While no step wraps the walk visits the chunks. -/
theorem walk_eq (hlength : content.length < 2 ^ 63) {fuel : ℕ} : ∀ {position : ℕ} {state : State},
    position ≤ content.length + 1 → content.length + 1 - position < fuel →
    (∀ chunk ∈ chunksFrom content position, 8 + chunk.size + chunk.size % 2 < 2 ^ 32) →
    walk content fuel position state =
      .ok ((chunksFrom content position).foldl (applyChunk content) state) := by
  induction fuel with
  | zero =>
      intro position state _ hfuel
      exact absurd hfuel (Nat.not_lt_zero _)
  | succ fuel ih =>
      intro position state hposition hfuel hsizes
      rw [walk, size64_eq (by omega)]
      simp only [bind, Except.bind]
      rw [chunksFrom] at hsizes ⊢
      by_cases hheader : content.length < position + 8
      · have hnot : ¬Fits content position := fun h => absurd h.1 (by omega)
        rw [if_pos hheader, dif_neg hnot]
        rfl
      · have hsize : u32 content (position + 4) = .ok (chunkAt content position).size :=
          u32_eq (by omega)
        have hlt : (chunkAt content position).size < 2 ^ 32 := le32_lt _ _
        rw [if_neg hheader, hsize]
        simp only [size64_eq (show position + 8 + (chunkAt content position).size < 2 ^ 64 by omega)]
        by_cases hend : content.length < position + 8 + (chunkAt content position).size
        · have hnot : ¬Fits content position := fun h => absurd h.2 (by omega)
          rw [if_pos hend, dif_neg hnot]
          rfl
        · have hfits : Fits content position := ⟨by omega, by omega⟩
          rw [dif_pos hfits] at hsizes ⊢
          have hwrap := hsizes _ List.mem_cons_self
          have hnext : position + advance (chunkAt content position).size =
              position + 8 + (chunkAt content position).size +
                (chunkAt content position).size % 2 := by
            rw [advance_eq hwrap]
            omega
          rw [if_neg hend, readChunk_eq hfits, hnext]
          simp only [size64_eq (show position + 8 + (chunkAt content position).size +
            (chunkAt content position).size % 2 < 2 ^ 64 by omega)]
          rw [ih (by omega) (by omega) fun chunk hchunk => hsizes chunk (List.mem_cons_of_mem _ hchunk),
            List.foldl_cons]

def stateOf (content : List UInt8) (fmt data : Option Chunk) : State where
  format := fmt.elim 0 (formatOf content)
  channels := fmt.elim 0 (channelsOf content)
  bits := fmt.elim 0 (bitsOf content)
  sampleRate := fmt.elim 0 (rateOf content)
  samples := data.map Chunk.start
  sampleBytes := data.elim 0 Chunk.size

theorem lastOf_concat (p : Chunk → Bool) (chunks : List Chunk) (chunk : Chunk) :
    lastOf p (chunks ++ [chunk]) = if p chunk then some chunk else lastOf p chunks := by
  rw [lastOf, List.filter_append, List.filter_singleton]
  cases p chunk <;> simp [lastOf]

/-- No chunk has both kinds. -/
theorem not_isData_of_usable {chunk : Chunk} (h : chunk.usable = true) : chunk.isData = false := by
  simp only [Chunk.usable, Bool.and_eq_true, beq_iff_eq] at h
  rw [Chunk.isData, h.1]
  rfl

/-- The last chunks of their kinds decide. -/
theorem foldl_applyChunk (content : List UInt8) (chunks : List Chunk) :
    chunks.foldl (applyChunk content) {} =
      stateOf content (lastOf Chunk.usable chunks) (lastOf Chunk.isData chunks) := by
  induction chunks using List.reverseRecOn with
  | nil => rfl
  | append_singleton chunks chunk ih =>
      rw [List.foldl_append, ih, lastOf_concat, lastOf_concat, List.foldl_cons, List.foldl_nil,
        applyChunk]
      cases husable : chunk.usable with
      | true =>
          rw [not_isData_of_usable husable]
          rfl
      | false => cases hdata : chunk.isData <;> rfl

theorem mem_of_lastOf {p : Chunk → Bool} {chunks : List Chunk} {chunk : Chunk}
    (h : lastOf p chunks = some chunk) : chunk ∈ chunks :=
  List.mem_of_mem_filter (List.mem_of_getLast? h)

/-- Chunks lie within the content. -/
theorem chunk_inside : ∀ {position : ℕ} {chunk : Chunk}, chunk ∈ chunksFrom content position →
    chunk.start + chunk.size ≤ content.length := by
  intro position
  induction position using chunksFrom.induct content with
  | case1 position hfits ih =>
      intro chunk hchunk
      rw [chunksFrom, dif_pos hfits] at hchunk
      obtain rfl | hchunk := List.mem_cons.1 hchunk
      · exact hfits.2
      · exact ih hchunk
  | case2 position hnot =>
      intro chunk hchunk
      rw [chunksFrom, dif_neg hnot] at hchunk
      cases hchunk

end Walk

/-! ### Loops that refuse -/

section Loops

variable {α β γ : Type} {message : String}

def orRefuse (message : String) (o : Option β) : Run β := o.elim (refuse message) .ok

theorem mapM_orRefuse {f : α → Run β} {g : α → Option β} : ∀ {l : List α},
    (∀ a ∈ l, f a = orRefuse message (g a)) → l.mapM f = orRefuse message (l.mapM g)
  | [], _ => rfl
  | a :: l, h => by
      have ih := mapM_orRefuse fun b hb => h b (List.mem_cons_of_mem a hb)
      rw [List.mapM_cons, List.mapM_cons, h a List.mem_cons_self, ih]
      cases g a with
      | none => rfl
      | some b => cases l.mapM g <;> rfl

theorem foldlM_orRefuse {f : γ → α → Run γ} {g : α → Option β} {add : γ → β → γ} :
    ∀ {l : List α} {start : γ},
      (∀ c, ∀ a ∈ l, f c a = orRefuse message ((g a).map (add c))) →
      l.foldlM f start = orRefuse message ((l.mapM g).map fun values => values.foldl add start)
  | [], _, _ => rfl
  | a :: l, start, h => by
      have ih (c : γ) : l.foldlM f c = orRefuse message ((l.mapM g).map fun values =>
          values.foldl add c) :=
        foldlM_orRefuse fun c b hb => h c b (List.mem_cons_of_mem a hb)
      rw [List.foldlM_cons, List.mapM_cons, h start a List.mem_cons_self]
      cases hg : g a with
      | none => rfl
      | some b =>
          have hstep : (orRefuse message (some (add start b)) >>= fun c => l.foldlM f c) =
              l.foldlM f (add start b) := rfl
          rw [Option.map_some, hstep, ih]
          cases l.mapM g <;> rfl

/-- The values of a list that are all there. -/
theorem map_eq_of_mapM {g : α → Option β} : ∀ {l : List α} {values : List β},
    l.mapM g = some values → l.map g = values.map some
  | [], values, h => by
      obtain rfl := Option.some.inj h
      rfl
  | a :: l, values, h => by
      rw [List.mapM_cons] at h
      obtain ⟨b, hb, h⟩ := Option.bind_eq_some_iff.1 h
      obtain ⟨rest, hrest, h⟩ := Option.bind_eq_some_iff.1 h
      obtain rfl := Option.some.inj h
      rw [List.map_cons, hb, map_eq_of_mapM hrest, List.map_cons]

end Loops

/-! ### Mixing -/

section Mix

variable {content : List UInt8} {state : State}

def notFinite : String := "float32 WAVE samples must be finite"

theorem abs_signed16_le {n : ℕ} (h : n < 2 ^ 16) : |signed16 n| ≤ 2 ^ 15 := by
  rw [signed16, abs_le]
  split_ifs <;> omega

theorem round_signed16 {n : ℕ} (h : n < 2 ^ 16) :
    SinglePrecision.round (signed16 n / 32768) = signed16 n / 32768 := by
  have hsmall : |signed16 n| < 2 ^ 24 := (abs_signed16_le h).trans_lt (by norm_num)
  have hround := SinglePrecision.round_sample hsmall
  norm_num at hround ⊢
  exact hround

/-- A sample is read as its exact value. -/
theorem readSample_eq {position : ℕ} (h : position + 4 ≤ content.length ∨
      state.format = 1 ∧ position + 2 ≤ content.length) :
    readSample content state position =
      orRefuse notFinite (sampleValue content state.format position) := by
  rw [readSample, sampleValue]
  by_cases hformat : state.format = 1
  · rw [if_pos hformat, if_pos hformat, u16_eq (by omega)]
    simp only [bind, Except.bind, round_signed16 (le16_lt content position)]
    rfl
  · rw [if_neg hformat, if_neg hformat, u32_eq (by omega)]
    simp only [bind, Except.bind]
    cases SinglePrecision.ofBits (le32 content position) <;> rfl

/-- The rounded sum of the channels. -/
def addRounded (mixed value : ℚ) : ℚ := SinglePrecision.round (mixed + value)

def frameValue (content : List UInt8) (state : State) (samples frame channel : ℕ) : Option ℚ :=
  sampleValue content state.format
    (samples + (frame * state.channels + channel) * (state.bits / 8))

/-- The data of the state lie within the content, and its bits are those of the format. -/
structure Mixable (content : List UInt8) (state : State) (samples : ℕ) : Prop where
  inside : samples + state.sampleBytes ≤ content.length
  length : content.length < 2 ^ 63
  bits : state.format = 1 ∧ state.bits = 16 ∨ state.format = 3 ∧ state.bits = 32

theorem mixFrame_eq {samples frame : ℕ} (h : Mixable content state samples)
    (hframe : (frame + 1) * (state.channels * (state.bits / 8)) ≤ state.sampleBytes) :
    mixFrame content state samples (state.channels * (state.bits / 8)) frame =
      orRefuse notFinite (((List.range state.channels).mapM
        (frameValue content state samples frame)).map fun values =>
          SinglePrecision.round (values.foldl addRounded 0 / state.channels)) := by
  obtain ⟨hinside, hlength, hbits⟩ := h
  have hstep : ∀ (mixed : ℚ), ∀ channel ∈ List.range state.channels,
      (do
        let start ← size64 (frame * (state.channels * (state.bits / 8)))
        let offset ← size64 (channel * (state.bits / 8))
        let value ← readSample content state (samples + start + offset)
        return SinglePrecision.round (mixed + value) : Run ℚ) =
      orRefuse notFinite ((frameValue content state samples frame channel).map
        (addRounded mixed)) := by
    intro mixed channel hchannel
    have hchannel : channel + 1 ≤ state.channels := List.mem_range.1 hchannel
    have hend : frame * (state.channels * (state.bits / 8)) + (channel + 1) * (state.bits / 8) ≤
        state.sampleBytes :=
      calc frame * (state.channels * (state.bits / 8)) + (channel + 1) * (state.bits / 8)
          ≤ frame * (state.channels * (state.bits / 8)) + state.channels * (state.bits / 8) :=
            Nat.add_le_add_left (Nat.mul_le_mul_right _ hchannel) _
        _ = (frame + 1) * (state.channels * (state.bits / 8)) := by ring
        _ ≤ state.sampleBytes := hframe
    have hposition : samples + frame * (state.channels * (state.bits / 8)) +
        channel * (state.bits / 8) =
          samples + (frame * state.channels + channel) * (state.bits / 8) := by ring
    have hlast : channel * (state.bits / 8) + state.bits / 8 = (channel + 1) * (state.bits / 8) := by
      ring
    have hread : readSample content state
        (samples + (frame * state.channels + channel) * (state.bits / 8)) =
          orRefuse notFinite (frameValue content state samples frame channel) := by
      apply readSample_eq
      rw [← hposition]
      obtain ⟨hformat, hsame⟩ | ⟨-, hsame⟩ := hbits
      · rw [hsame] at hend hlast ⊢
        exact Or.inr ⟨hformat, by omega⟩
      · rw [hsame] at hend hlast ⊢
        exact Or.inl (by omega)
    rw [size64_eq (by omega), size64_eq (by omega)]
    simp only [bind, Except.bind, hposition, hread]
    cases frameValue content state samples frame channel <;> rfl
  have hmix : mixFrame content state samples (state.channels * (state.bits / 8)) frame =
      (List.range state.channels).foldlM (fun mixed channel => do
        let start ← size64 (frame * (state.channels * (state.bits / 8)))
        let offset ← size64 (channel * (state.bits / 8))
        let value ← readSample content state (samples + start + offset)
        return SinglePrecision.round (mixed + value)) 0 >>=
          fun mixed => .ok (SinglePrecision.round (mixed / state.channels)) := rfl
  rw [hmix, foldlM_orRefuse hstep]
  cases (List.range state.channels).mapM (frameValue content state samples frame) <;> rfl

end Mix

/-! ### Means -/

section Means

/-- Rounding of numbers below 16. -/
theorem abs_round_sub_le {x : ℚ} (h : |x| < 16) : |SinglePrecision.round x - x| ≤ 1 / 2 ^ 21 := by
  have hlt : |x| < 2 ^ (3 + 1) := by
    norm_num
    exact h
  have hunit : SinglePrecision.unit x ≤ 1 / 2 ^ 20 :=
    (SinglePrecision.unit_le hlt).trans (by norm_num)
  calc |SinglePrecision.round x - x| ≤ SinglePrecision.unit x / 2 :=
        SinglePrecision.abs_round_sub_le x
    _ ≤ 1 / 2 ^ 20 / 2 := by linarith
    _ = 1 / 2 ^ 21 := by norm_num

/-- The sum of few small values, with its roundings. -/
theorem abs_foldl_addRounded_sub_le : ∀ {values : List ℚ} {mixed : ℚ}, (∀ v ∈ values, |v| ≤ 1) →
    |mixed| + values.length * (1 + 1 / 2 ^ 21) < 16 →
    |values.foldl addRounded mixed - (mixed + values.sum)| ≤ values.length * (1 / 2 ^ 21)
  | [], mixed, _, _ => by simp
  | v :: values, mixed, hsmall, hbound => by
      have hv := hsmall v List.mem_cons_self
      have hsum : |mixed + v| ≤ |mixed| + 1 := (abs_add_le mixed v).trans (by linarith)
      have hlength : ((v :: values).length : ℚ) = values.length + 1 := by push_cast [List.length_cons]; ring
      have hrest : (0 : ℚ) ≤ values.length * (1 + 1 / 2 ^ 21) := by positivity
      rw [hlength] at hbound ⊢
      have hround : |addRounded mixed v - (mixed + v)| ≤ 1 / 2 ^ 21 :=
        abs_round_sub_le (by linarith)
      have hnext : |addRounded mixed v| ≤ |mixed| + 1 + 1 / 2 ^ 21 := by
        have := abs_sub_abs_le_abs_sub (addRounded mixed v) (mixed + v)
        linarith
      have ih := abs_foldl_addRounded_sub_le (fun w hw => hsmall w (List.mem_cons_of_mem v hw))
        (show |addRounded mixed v| + values.length * (1 + 1 / 2 ^ 21) < 16 by linarith)
      rw [List.foldl_cons, List.sum_cons]
      have hsplit : values.foldl addRounded (addRounded mixed v) - (mixed + (v + values.sum)) =
          (values.foldl addRounded (addRounded mixed v) - (addRounded mixed v + values.sum)) +
            (addRounded mixed v - (mixed + v)) := by ring
      have htotal := (abs_add_le _ _).trans (add_le_add ih hround)
      rw [hsplit]
      linarith

theorem abs_sum_le : ∀ {values : List ℚ}, (∀ v ∈ values, |v| ≤ 1) → |values.sum| ≤ values.length
  | [], _ => by simp
  | v :: values, h => by
      have ih := abs_sum_le fun w hw => h w (List.mem_cons_of_mem v hw)
      have hv := h v List.mem_cons_self
      have hadd := abs_add_le v values.sum
      rw [List.sum_cons, List.length_cons]
      push_cast
      linarith

/-- The sum of a few 16-bit samples is exact. -/
theorem foldl_addRounded_samples : ∀ {samples : List ℤ} {n : ℤ}, (∀ k ∈ samples, |k| ≤ 2 ^ 15) →
    |n| + samples.length * 2 ^ 15 < 2 ^ 24 →
    (samples.map fun k : ℤ => (k : ℚ) / 32768).foldl addRounded (n / 32768) =
      n / 32768 + (samples.map fun k : ℤ => (k : ℚ) / 32768).sum
  | [], n, _, _ => by simp
  | k :: samples, n, hsmall, hbound => by
      have hk := hsmall k List.mem_cons_self
      rw [List.length_cons] at hbound
      push_cast at hbound
      have hsum : |n + k| ≤ |n| + 2 ^ 15 := (abs_add_le n k).trans (by omega)
      have hround : addRounded (n / 32768) (k / 32768) = ((n + k : ℤ) : ℚ) / 32768 := by
        have hexact : SinglePrecision.round (((n + k : ℤ) : ℚ) / 2 ^ 15) = _ :=
          SinglePrecision.round_sample (by omega)
        have hsame : (n / 32768 + k / 32768 : ℚ) = ((n + k : ℤ) : ℚ) / 2 ^ 15 := by
          push_cast
          ring
        rw [addRounded, hsame, hexact]
        norm_num
      have ih := foldl_addRounded_samples (fun j hj => hsmall j (List.mem_cons_of_mem k hj))
        (show |n + k| + samples.length * 2 ^ 15 < 2 ^ 24 by omega)
      rw [List.map_cons, List.foldl_cons, hround, ih, List.sum_cons]
      push_cast
      ring

variable {content : List UInt8} {format : ℕ}

theorem abs_sampleValue_le {position : ℕ} {v : ℚ} (h : sampleValue content format position = some v) :
    |v| ≤ 1 := by
  rw [sampleValue] at h
  split_ifs at h with hformat
  · obtain rfl := Option.some.inj h
    have hbound := abs_signed16_le (le16_lt content position)
    have hcast : |(signed16 (le16 content position) : ℚ)| ≤ 2 ^ 15 := by exact_mod_cast hbound
    rw [abs_div, div_le_one (by norm_num)]
    norm_num at hcast ⊢
    exact hcast
  · obtain ⟨x, -, rfl⟩ := Option.map_eq_some_iff.1 h
    rw [abs_le]
    exact ⟨le_max_left _ _, max_le (by norm_num) (min_le_right _ _)⟩

/-- The 16-bit samples of a format. -/
theorem exists_samples {positions : List ℕ} {values : List ℚ}
    (h : positions.map (sampleValue content 1) = values.map some) :
    ∃ samples : List ℤ, values = samples.map (fun k : ℤ => (k : ℚ) / 32768) ∧
      ∀ k ∈ samples, |k| ≤ 2 ^ 15 := by
  refine ⟨positions.map fun position => signed16 (le16 content position), ?_, ?_⟩
  · have hsome : values.map some = (positions.map fun position =>
        (signed16 (le16 content position) : ℚ) / 32768).map some := by
      rw [← h, List.map_map]
      exact List.map_congr_left fun position _ => if_pos rfl
    rw [List.map_map]
    exact List.map_injective_iff.2 (Option.some_injective ℚ) hsome
  · intro k hk
    obtain ⟨position, -, rfl⟩ := List.mem_map.1 hk
    exact abs_signed16_le (le16_lt content position)

/-- What a frame is mixed to is its mean. -/
theorem isMean_mixed {positions : List ℕ} {values : List ℚ}
    (h : positions.map (sampleValue content format) = values.map some)
    (hcount : 1 ≤ values.length ∧ values.length ≤ 8) :
    IsMean format values (SinglePrecision.round (values.foldl addRounded 0 / values.length)) := by
  obtain ⟨hlow, hhigh⟩ := hcount
  have hpos : (0 : ℚ) < values.length := by exact_mod_cast hlow
  have hle : (values.length : ℚ) ≤ 8 := by exact_mod_cast hhigh
  constructor
  · rintro rfl
    obtain ⟨samples, rfl, hsmall⟩ := exists_samples h
    have hbound : |(0 : ℤ)| + samples.length * 2 ^ 15 < 2 ^ 24 := by
      rw [List.length_map] at hhigh
      have : (samples.length : ℤ) ≤ 8 := by exact_mod_cast hhigh
      rw [abs_zero]
      omega
    have hsum := foldl_addRounded_samples hsmall hbound
    rw [Int.cast_zero, zero_div, zero_add] at hsum
    rw [hsum]
  · have hvalues : ∀ v ∈ values, |v| ≤ 1 := by
      intro v hv
      have hmem : some v ∈ positions.map (sampleValue content format) := by
        rw [h]
        exact List.mem_map_of_mem hv
      obtain ⟨position, -, hposition⟩ := List.mem_map.1 hmem
      exact abs_sampleValue_le hposition
    have hfold := abs_foldl_addRounded_sub_le hvalues
      (show |(0 : ℚ)| + values.length * (1 + 1 / 2 ^ 21) < 16 by
        rw [abs_zero]
        linarith)
    rw [zero_add] at hfold
    have hmean : |values.foldl addRounded 0 / values.length - values.sum / values.length| ≤
        1 / 2 ^ 21 := by
      rw [← sub_div, abs_div, abs_of_pos hpos, div_le_iff₀ hpos]
      linarith
    have haverage : |values.sum / values.length| ≤ 1 := by
      rw [abs_div, abs_of_pos hpos, div_le_one hpos]
      exact abs_sum_le hvalues
    have hquotient := abs_sub_abs_le_abs_sub (values.foldl addRounded 0 / values.length)
      (values.sum / values.length)
    have hround := abs_round_sub_le
      (show |values.foldl addRounded 0 / values.length| < 16 by linarith)
    have htriangle := abs_sub_le (SinglePrecision.round (values.foldl addRounded 0 / values.length))
      (values.foldl addRounded 0 / values.length) (values.sum / values.length)
    linarith

end Means

/-! ### Decoding -/

section Decode

variable {content : List UInt8} {state : State}

theorem refuse_ne_fault {α : Type} {message : String} {fault : Fault} :
    (refuse message : Run α) ≠ .error (.fault fault) := by
  intro h
  cases h

/-- A mixed frame is there where all of its channels are. -/
theorem mixed_eq_some {samples frame : ℕ} {x : ℚ}
    (hchannels : 1 ≤ state.channels ∧ state.channels ≤ 8)
    (h : ((List.range state.channels).mapM (frameValue content state samples frame)).map
      (fun values => SinglePrecision.round (values.foldl addRounded 0 / state.channels)) = some x) :
    ∃ values : List ℚ, (List.range state.channels).map (frameValue content state samples frame) =
      values.map some ∧ IsMean state.format values x := by
  obtain ⟨values, hvalues, rfl⟩ := Option.map_eq_some_iff.1 h
  have hmap := map_eq_of_mapM hvalues
  have hlength : values.length = state.channels := by
    have := congrArg List.length hmap
    simpa using this.symm
  have hpositions : ((List.range state.channels).map fun channel =>
      samples + (frame * state.channels + channel) * (state.bits / 8)).map
        (sampleValue content state.format) = values.map some := by
    rw [← hmap, List.map_map]
    rfl
  refine ⟨values, hmap, ?_⟩
  rw [← hlength]
  exact isMean_mixed hpositions (by rw [hlength]; exact hchannels)

/-- Mixing has no faults, and what it returns are the means of the frames. -/
theorem mixAll_spec {samples : ℕ} (h : Mixable content state samples)
    (hchannels : 1 ≤ state.channels ∧ state.channels ≤ 8) (hrate : state.sampleRate ≤ 192000) :
    (∀ fault, mixAll content state samples ≠ .error (.fault fault)) ∧
      ∀ request, mixAll content state samples = .ok request →
        request.sampleRate = state.sampleRate ∧
        state.sampleBytes = request.pcm.length * state.channels * (state.bits / 8) ∧
        (1 ≤ request.pcm.length ∧ request.pcm.length ≤ 1800 * state.sampleRate) ∧
        ∀ frame x, request.pcm[frame]? = some x → ∃ values : List ℚ,
          (List.range state.channels).map (frameValue content state samples frame) =
            values.map some ∧ IsMean state.format values x := by
  rw [mixAll]
  dsimp only
  generalize hframeSize : state.channels * (state.bits / 8) = frameSize
  by_cases haligned : state.sampleBytes % frameSize = 0
  case neg =>
    rw [if_pos haligned]
    exact ⟨fun _ => refuse_ne_fault, fun request hrequest => by cases hrequest⟩
  rw [if_neg (not_not.2 haligned), size64_eq (by omega)]
  simp only [bind, Except.bind]
  rw [size64_eq (by omega)]
  dsimp only
  by_cases hduration : state.sampleBytes / frameSize = 0 ∨
      state.sampleRate * 60 * 30 < state.sampleBytes / frameSize
  case pos =>
    rw [if_pos hduration]
    exact ⟨fun _ => refuse_ne_fault, fun request hrequest => by cases hrequest⟩
  rw [if_neg hduration]
  have hwhole : state.sampleBytes / frameSize * frameSize = state.sampleBytes :=
    Nat.div_mul_cancel (Nat.dvd_of_mod_eq_zero haligned)
  generalize state.sampleBytes / frameSize = frames at hduration hwhole
  have hframe : ∀ frame ∈ List.range frames, mixFrame content state samples frameSize frame =
      orRefuse notFinite (((List.range state.channels).mapM
        (frameValue content state samples frame)).map fun values =>
          SinglePrecision.round (values.foldl addRounded 0 / state.channels)) := by
    intro frame hframe
    rw [← hframeSize]
    apply mixFrame_eq h
    rw [hframeSize, ← hwhole]
    exact Nat.mul_le_mul_right _ (List.mem_range.1 hframe)
  rw [mapM_orRefuse hframe]
  cases hpcm : (List.range frames).mapM fun frame =>
      ((List.range state.channels).mapM (frameValue content state samples frame)).map fun values =>
        SinglePrecision.round (values.foldl addRounded 0 / state.channels) with
  | none => exact ⟨fun _ => refuse_ne_fault, fun request hrequest => by cases hrequest⟩
  | some pcm =>
      refine ⟨fun _ => (nomatch ·), fun request hrequest => ?_⟩
      obtain rfl := Except.ok.inj hrequest
      have hmap := map_eq_of_mapM hpcm
      have hlength : pcm.length = frames := by
        have := congrArg List.length hmap
        simpa using this.symm
      refine ⟨rfl, ?_, ?_, fun frame x hx => ?_⟩
      · rw [hlength, ← hwhole, ← hframeSize]
        ring
      · rw [hlength]
        omega
      · apply mixed_eq_some hchannels
        have hget := congrArg (fun l => l[frame]?) hmap
        simp only [List.getElem?_map, hx] at hget
        obtain ⟨k, hk, hkx⟩ := Option.map_eq_some_iff.1 hget
        have hsame : k = frame := by
          obtain ⟨hlt, rfl⟩ := List.getElem?_eq_some_iff.1 hk
          exact List.getElem_range ..
        rw [← hsame]
        exact hkx

end Decode

/-! ### Every content -/

section Every

variable {content : List UInt8}

/-- No chunk is as large as the step can be. -/
def Unwrapping (content : List UInt8) : Prop :=
  isWave content = true → ∀ chunk ∈ chunks content, chunk.size < 4294967287

theorem step_lt_iff {size : ℕ} : 8 + size + size % 2 < 2 ^ 32 ↔ size < 4294967287 := by
  omega

/-- The walk of the decoder ends in the variables of the last chunks. -/
theorem walk_chunks (hlength : content.length < 2 ^ 63) (hwave : isWave content = true)
    (hsizes : Unwrapping content) {fuel : ℕ} (hfuel : content.length < fuel) :
    walk content fuel 12 {} = .ok (stateOf content (lastOf Chunk.usable (chunks content))
      (lastOf Chunk.isData (chunks content))) := by
  have hlong : 44 ≤ content.length := by
    simp only [isWave, Bool.and_eq_true, decide_eq_true_eq] at hwave
    exact hwave.1.1
  rw [← foldl_applyChunk]
  exact walk_eq hlength (by omega) (by omega) fun chunk hchunk =>
    step_lt_iff.2 (hsizes hwave chunk hchunk)

/-- A format that is supported was read from a chunk. -/
theorem exists_fmt {fmt data : Option Chunk} (h : (stateOf content fmt data).supported = true) :
    ∃ chunk, fmt = some chunk := by
  cases fmt with
  | none => simp [stateOf, State.supported] at h
  | some chunk => exact ⟨chunk, rfl⟩

theorem decodeWav_spec (hlength : content.length < 2 ^ 63) (hsizes : Unwrapping content) {fuel : ℕ}
    (hfuel : content.length < fuel) :
    (∀ fault, decodeWav fuel content ≠ .error (.fault fault)) ∧
      ∀ request, decodeWav fuel content = .ok request →
        ∃ fmt data, Decoded content request fmt data := by
  rw [decodeWav]
  cases hwave : isWave content with
  | false => exact ⟨fun _ => refuse_ne_fault, fun request hrequest => by cases hrequest⟩
  | true =>
      rw [if_neg (by decide), walk_chunks hlength hwave hsizes hfuel]
      simp only [bind, Except.bind]
      cases hdata : lastOf Chunk.isData (chunks content) with
      | none => exact ⟨fun _ => refuse_ne_fault, fun request hrequest => by cases hrequest⟩
      | some data =>
          have hsamples : (stateOf content (lastOf Chunk.usable (chunks content))
              (some data)).samples = some data.start := rfl
          rw [hsamples]
          dsimp only
          cases hsupported : (stateOf content (lastOf Chunk.usable (chunks content))
              (some data)).supported with
          | false => exact ⟨fun _ => refuse_ne_fault, fun request hrequest => by cases hrequest⟩
          | true =>
              obtain ⟨fmt, hfmt⟩ := exists_fmt hsupported
              rw [hfmt] at hsupported ⊢
              rw [if_neg (by decide)]
              simp only [State.supported, decide_eq_true_eq] at hsupported
              obtain ⟨hlow, hhigh, -, hrate, hformat⟩ := hsupported
              have hmixable : Mixable content (stateOf content (some fmt) (some data)) data.start :=
                ⟨chunk_inside (mem_of_lastOf hdata), hlength, hformat⟩
              obtain ⟨hfaults, hrequests⟩ := mixAll_spec hmixable ⟨hlow, hhigh⟩ hrate
              refine ⟨hfaults, fun request hrequest => ⟨fmt, data, ?_⟩⟩
              obtain ⟨hsame, hsize, hframes, hmeans⟩ := hrequests request hrequest
              refine ⟨hfmt, hdata, hformat, ⟨hlow, hhigh⟩, hsame, hsize, ?_, hmeans⟩
              rw [hsame]
              exact hframes

/-- Where no step of the walk wraps, the chunks are small enough. -/
theorem sizes_of_visited (h : ∀ position, Visited content position → Fits content position →
      8 + (chunkAt content position).size + (chunkAt content position).size % 2 < 2 ^ 32) :
    ∀ {position : ℕ}, Visited content position →
      ∀ chunk ∈ chunksFrom content position, chunk.size < 4294967287 := by
  intro position
  induction position using chunksFrom.induct content with
  | case1 position hfits ih =>
      intro hvisited chunk hchunk
      have hstep := h position hvisited hfits
      have hnext := hvisited.next hfits
      rw [advance_eq hstep, ← Nat.add_assoc, ← Nat.add_assoc] at hnext
      rw [chunksFrom, dif_pos hfits] at hchunk
      obtain rfl | hchunk := List.mem_cons.1 hchunk
      · exact step_lt_iff.1 hstep
      · exact ih hnext chunk hchunk
  | case2 position hnot =>
      intro _ chunk hchunk
      rw [chunksFrom, dif_neg hnot] at hchunk
      cases hchunk

/-- The positions of the walk are those of the chunks. -/
theorem chunk_of_visited (hsizes : Unwrapping content) {position : ℕ} (h : Visited content position) :
    ∀ chunk ∈ chunksFrom content position, chunk.size < 4294967287 := by
  induction h with
  | start hwave => exact hsizes hwave
  | next hvisited hfits ih =>
      intro chunk hchunk
      rw [chunksFrom, dif_pos hfits] at ih
      have hfirst := step_lt_iff.2 (ih _ List.mem_cons_self)
      rw [advance_eq hfirst, ← Nat.add_assoc, ← Nat.add_assoc] at hchunk
      exact ih chunk (List.mem_cons_of_mem _ hchunk)

end Every

/-- The decoder is safe and exact on a content exactly where no chunk of it has a size of 4294967287
or more. -/
theorem decodeWav_safe_iff (content : Content) : Safe content.bytes ↔ Unwrapping content.bytes := by
  constructor
  · intro h hwave
    exact sizes_of_visited h.unwrapped (.start hwave)
  · intro h
    refine ⟨fun fuel hfuel => (decodeWav_spec content.size_ok h hfuel).1, fun position hvisited hfits => ?_,
      fun fuel hfuel => (decodeWav_spec content.size_ok h hfuel).2⟩
    apply step_lt_iff.2
    apply chunk_of_visited h hvisited
    rw [chunksFrom, dif_pos hfits]
    exact List.mem_cons_self

/-! ### A chunk of nearly four gigabytes -/

def hugeHeader : List UInt8 :=
  riffId ++ [0, 0, 0, 0] ++ waveId ++ [0x6a, 0x75, 0x6e, 0x6b] ++ [0xf8, 0xff, 0xff, 0xff]

/-- A chunk that neither is a format nor has data, with all of its bytes. -/
def hugeContent (size : ℕ) : List UInt8 := hugeHeader ++ List.replicate size 0

theorem slice_hugeContent {size position count : ℕ} (h : position + count ≤ 20) :
    slice (hugeContent size) position count = slice hugeHeader position count := by
  have hheader : hugeHeader.length = 20 := rfl
  rw [slice, slice, hugeContent, List.drop_append_of_le_length (by omega), List.take_append_of_le_length]
  rw [List.length_drop]
  omega

theorem length_hugeContent (size : ℕ) : (hugeContent size).length = 20 + size := by
  rw [hugeContent, List.length_append, List.length_replicate]
  rfl

section Huge

variable {size : ℕ} (hsize : 4294967288 ≤ size) (hlength : size < 2 ^ 62)

include hsize hlength

/-- The step over the chunk is zero. -/
theorem walk_hugeContent : ∀ (fuel : ℕ) (state : State),
    walk (hugeContent size) fuel 12 state = .error (.fault .unfinished)
  | 0, _ => rfl
  | fuel + 1, state => by
      have hlong := length_hugeContent size
      have hread : u32 (hugeContent size) 16 = .ok 4294967288 := by
        rw [u32_eq (by omega), le32, slice_hugeContent (by omega)]
        rfl
      have hid : bytesAt (hugeContent size) 12 4 = .ok [0x6a, 0x75, 0x6e, 0x6b] := by
        rw [bytesAt_eq (by omega), slice_hugeContent (by omega)]
        rfl
      have hchunk : readChunk (hugeContent size) 12 4294967288 state = .ok state := by
        rw [readChunk, hid]
        rfl
      have hstep : advance 4294967288 = 0 := by decide
      rw [walk, size64_eq (by omega)]
      simp only [bind, Except.bind, Nat.reduceAdd, hread]
      rw [if_neg (by omega), size64_eq (by omega)]
      dsimp only
      rw [if_neg (by omega), hchunk, hstep, size64_eq (by omega)]
      exact walk_hugeContent fuel state

theorem not_safe_hugeContent : ¬Safe (hugeContent size) := by
  intro h
  have hlong : 44 ≤ (hugeContent size).length := by
    rw [length_hugeContent]
    omega
  have hwave : isWave (hugeContent size) = true := by
    rw [isWave, slice_hugeContent (by omega), slice_hugeContent (by omega), decide_eq_true hlong]
    rfl
  refine h.finishes ((hugeContent size).length + 1) (Nat.lt_succ_self _) .unfinished ?_
  rw [decodeWav, hwave, if_neg (by decide), walk_hugeContent hsize hlength]
  rfl

end Huge

def hugeFile : Content where
  bytes := hugeContent 4294967296
  size_ok := by
    rw [length_hugeContent]
    norm_num

/-- The walk does not get past the chunk. -/
theorem decodeWav_hugeFile : ¬Safe hugeFile.bytes :=
  not_safe_hugeContent (by norm_num) (by norm_num)

end InferDeck.Gateway.Wav
