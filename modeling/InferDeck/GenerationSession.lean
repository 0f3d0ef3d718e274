import InferDeck.Execution
import InferDeck.StreamingSanitizer

/-!
# The queue of a chat stream

The inference thread's callback queues deltas and waits for room; the chunk provider of the chat
stream takes all of them at once. `pending_bytes` is a `size_t`. Each side has a `delta_size` of its
own: the provider's counts the log probabilities too.
-/

namespace InferDeck.Gateway

structure ToolCallDelta where
  id : Text := []
  type : Text := []
  functionName : Text := []
  functionArguments : Text := []
  deriving DecidableEq

structure TopTokenLogprob where
  token : Text := []
  bytes : List UInt8 := []
  deriving DecidableEq

structure TokenLogprob where
  token : Text := []
  bytes : List UInt8 := []
  topLogprobs : List TopTokenLogprob := []
  deriving DecidableEq

structure InferenceDelta where
  content : Text := []
  reasoningText : Text := []
  toolCalls : List ToolCallDelta := []
  logprobs : List TokenLogprob := []
  deriving DecidableEq

def ToolCallDelta.size (call : ToolCallDelta) : ℕ :=
  call.id.length + call.type.length + call.functionName.length + call.functionArguments.length

def TokenLogprob.size (token : TokenLogprob) : ℕ :=
  token.token.length + token.bytes.length +
    (token.topLogprobs.map fun candidate =>
      candidate.token.length + candidate.bytes.length).sum

def logprobsSize (delta : InferenceDelta) : ℕ := (delta.logprobs.map TokenLogprob.size).sum

def maxPendingStreamDeltas : ℕ := 128

def maxPendingStreamBytes : ℕ := 1024 * 1024

structure GenerationSession where
  deltaQueue : List InferenceDelta := []
  pendingBytes : BitVec 64 := 0
  inferenceDone : Bool := false
  aborted : Bool := false
  deriving DecidableEq

namespace GenerationSession

def deltaSize (delta : InferenceDelta) : ℕ :=
  delta.content.length + delta.reasoningText.length + (delta.toolCalls.map ToolCallDelta.size).sum

end GenerationSession

namespace ChatStream

def deltaSize (delta : InferenceDelta) : ℕ :=
  delta.content.length + delta.reasoningText.length + (delta.toolCalls.map ToolCallDelta.size).sum +
    logprobsSize delta

/-- What the provider leaves of `pending_bytes`. -/
def takeAll (pendingBytes : BitVec 64) : List InferenceDelta → BitVec 64
  | [] => pendingBytes
  | delta :: queue => takeAll (pendingBytes - BitVec.ofNat 64 (deltaSize delta)) queue

def TakesWithoutUnderflow (pendingBytes : BitVec 64) : List InferenceDelta → Prop
  | [] => True
  | delta :: queue =>
      deltaSize delta ≤ pendingBytes.toNat ∧
        TakesWithoutUnderflow (pendingBytes - BitVec.ofNat 64 (deltaSize delta)) queue

end ChatStream

namespace GenerationSession

def hasRoom (s : GenerationSession) (bytes : ℕ) : Bool :=
  decide (s.deltaQueue.length < maxPendingStreamDeltas) &&
    (s.deltaQueue.isEmpty ||
      (decide (bytes ≤ maxPendingStreamBytes) &&
        decide (s.pendingBytes.toNat ≤ maxPendingStreamBytes - bytes)))

inductive Action where
  /-- The producer's callback gets past its wait. -/
  | push (delta : InferenceDelta)
  /-- The chunk provider finds deltas and takes them. -/
  | provide
  | finishInference
  /-- `finish_once` of an aborted stream. -/
  | abort

variable {s : GenerationSession}

/-- A queue that a 64-bit address space holds; queueing more than that throws. -/
def Fits (queue : List InferenceDelta) : Prop := (queue.map ChatStream.deltaSize).sum < 2 ^ 64

instance (queue : List InferenceDelta) : Decidable (Fits queue) :=
  inferInstanceAs (Decidable (_ < _))

def step (s : GenerationSession) : Action → Option GenerationSession
  | .push delta =>
      if s.aborted || s.inferenceDone || !s.hasRoom (deltaSize delta) ||
          !decide (Fits (s.deltaQueue ++ [delta])) then none
      else some { s with
        deltaQueue := s.deltaQueue ++ [delta]
        pendingBytes := s.pendingBytes + BitVec.ofNat 64 (deltaSize delta) }
  | .provide =>
      if s.deltaQueue.isEmpty then none
      else some { s with
        deltaQueue := []
        pendingBytes := ChatStream.takeAll s.pendingBytes s.deltaQueue }
  | .finishInference => some { s with inferenceDone := true }
  | .abort => some { s with aborted := true }

def queuedBytes (s : GenerationSession) : ℕ := (s.deltaQueue.map deltaSize).sum

/-- `pending_bytes` is what is queued, and the producer waits only for what is queued. -/
structure Accounted (s : GenerationSession) : Prop where
  pending : s.pendingBytes.toNat = s.queuedBytes
  empty : s.deltaQueue = [] → s.pendingBytes = 0
  waits : ∀ delta, s.hasRoom (deltaSize delta) = false →
    maxPendingStreamDeltas ≤ s.deltaQueue.length ∨
      s.deltaQueue ≠ [] ∧ maxPendingStreamBytes < s.queuedBytes + deltaSize delta

theorem accounted_of_pending (h : s.pendingBytes.toNat = s.queuedBytes) :
    Accounted s := by
  refine ⟨h, fun hempty => ?_, fun delta hroom => ?_⟩
  · apply BitVec.eq_of_toNat_eq
    rw [h, queuedBytes, hempty]
    rfl
  · by_cases hlength : maxPendingStreamDeltas ≤ s.deltaQueue.length
    · exact Or.inl hlength
    · right
      have hqueue : s.deltaQueue ≠ [] := by
        intro hempty
        simp [hasRoom, hempty, maxPendingStreamDeltas] at hroom
      refine ⟨hqueue, ?_⟩
      by_contra hle
      have hbytes : deltaSize delta ≤ maxPendingStreamBytes := by omega
      have hpending : s.pendingBytes.toNat ≤ maxPendingStreamBytes - deltaSize delta := by omega
      simp [hasRoom, not_le.1 hlength, hbytes, hpending] at hroom

theorem deltaSize_le (delta : InferenceDelta) : deltaSize delta ≤ ChatStream.deltaSize delta :=
  Nat.le_add_right _ _

theorem sum_deltaSize_le (queue : List InferenceDelta) :
    (queue.map deltaSize).sum ≤ (queue.map ChatStream.deltaSize).sum := by
  induction queue with
  | nil => rfl
  | cons delta queue ih =>
      rw [List.map_cons, List.sum_cons, List.map_cons, List.sum_cons]
      exact Nat.add_le_add (deltaSize_le delta) ih

theorem takeAll_toNat {queue : List InferenceDelta} {pending : BitVec 64}
    (h : pending.toNat = (queue.map ChatStream.deltaSize).sum) :
    ChatStream.TakesWithoutUnderflow pending queue ∧ (ChatStream.takeAll pending queue).toNat = 0 := by
  induction queue generalizing pending with
  | nil => exact ⟨trivial, h⟩
  | cons delta queue ih =>
      rw [List.map_cons, List.sum_cons] at h
      have hle : ChatStream.deltaSize delta ≤ pending.toNat := by omega
      have hsize : (BitVec.ofNat 64 (ChatStream.deltaSize delta)).toNat =
          ChatStream.deltaSize delta := by
        rw [BitVec.toNat_ofNat, Nat.mod_eq_of_lt (lt_of_le_of_lt hle pending.isLt)]
      have hrest : (pending - BitVec.ofNat 64 (ChatStream.deltaSize delta)).toNat =
          (queue.map ChatStream.deltaSize).sum := by
        rw [BitVec.toNat_sub_of_le (by rw [BitVec.le_def, hsize]; exact hle), hsize]
        omega
      obtain ⟨hunder, hzero⟩ := ih hrest
      exact ⟨⟨hle, hunder⟩, hzero⟩

/-- The provider takes the sum of its own sizes, modulo the size of a word. -/
theorem takeAll_eq (pending : BitVec 64) (queue : List InferenceDelta) :
    ChatStream.takeAll pending queue =
      pending - BitVec.ofNat 64 (queue.map ChatStream.deltaSize).sum := by
  induction queue generalizing pending with
  | nil => simp [ChatStream.takeAll]
  | cons delta queue ih =>
      rw [ChatStream.takeAll, ih, List.map_cons, List.sum_cons, BitVec.ofNat_add]
      bv_omega

/-- The deltas that the provider takes have no text in their log probabilities. -/
def SameSizes (s : GenerationSession) (action : Action) : Prop :=
  action = .provide → ∀ delta ∈ s.deltaQueue, logprobsSize delta = 0

structure Inv (s : GenerationSession) : Prop where
  pending : s.pendingBytes.toNat = s.queuedBytes
  fits : Fits s.deltaQueue

theorem sum_eq_of_sameSizes {queue : List InferenceDelta}
    (h : ∀ delta ∈ queue, logprobsSize delta = 0) :
    (queue.map deltaSize).sum = (queue.map ChatStream.deltaSize).sum := by
  congr 1
  apply List.map_congr_left
  intro delta hdelta
  rw [ChatStream.deltaSize, h delta hdelta]
  rfl

/-- Where one of the deltas has log probabilities, the two sums differ. -/
theorem sum_lt_of_logprobs {queue : List InferenceDelta} {delta : InferenceDelta}
    (hdelta : delta ∈ queue) (h : logprobsSize delta ≠ 0) :
    (queue.map deltaSize).sum < (queue.map ChatStream.deltaSize).sum := by
  induction queue with
  | nil => cases hdelta
  | cons first queue ih =>
      rw [List.map_cons, List.sum_cons, List.map_cons, List.sum_cons]
      have hfirst := deltaSize_le first
      rcases List.mem_cons.1 hdelta with rfl | hin
      · have hrest := sum_deltaSize_le queue
        have hsize : ChatStream.deltaSize delta = deltaSize delta + logprobsSize delta := rfl
        omega
      · have := ih hin
        omega

theorem Inv.takes (h : Inv s) (hsizes : ∀ delta ∈ s.deltaQueue, logprobsSize delta = 0) :
    ChatStream.TakesWithoutUnderflow s.pendingBytes s.deltaQueue ∧
      (ChatStream.takeAll s.pendingBytes s.deltaQueue).toNat = 0 :=
  takeAll_toNat (by rw [h.pending, queuedBytes, sum_eq_of_sameSizes hsizes])

theorem inv_step (h : Inv s) {action : Action} (hsizes : SameSizes s action)
    {s' : GenerationSession} (hstep : s.step action = some s') : Inv s' := by
  cases action with
  | push delta =>
      simp only [step] at hstep
      split at hstep
      · cases hstep
      · rename_i hguard
        obtain rfl := Option.some.inj hstep
        have hfits : Fits (s.deltaQueue ++ [delta]) := by
          by_contra hnot
          simp [hnot] at hguard
        refine ⟨?_, hfits⟩
        have hsum := sum_deltaSize_le (s.deltaQueue ++ [delta])
        have hqueued : ((s.deltaQueue ++ [delta]).map deltaSize).sum =
            s.queuedBytes + deltaSize delta := by
          simp [queuedBytes]
        rw [hqueued] at hsum
        have hlt : s.queuedBytes + deltaSize delta < 2 ^ 64 := lt_of_le_of_lt hsum hfits
        change (s.pendingBytes + BitVec.ofNat 64 (deltaSize delta)).toNat =
          ((s.deltaQueue ++ [delta]).map deltaSize).sum
        rw [hqueued, BitVec.toNat_add, h.pending, BitVec.toNat_ofNat, Nat.add_mod_mod,
          Nat.mod_eq_of_lt hlt]
  | provide =>
      simp only [step] at hstep
      split at hstep
      · cases hstep
      · obtain rfl := Option.some.inj hstep
        exact ⟨(h.takes (hsizes rfl)).2, by simp [Fits]⟩
  | finishInference => exact Option.some.inj hstep ▸ ⟨h.pending, h.fits⟩
  | abort => exact Option.some.inj hstep ▸ ⟨h.pending, h.fits⟩

/-- Taking deltas with log probabilities leaves a count that is not that of the empty queue. -/
theorem Inv.sameSizes (h : Inv s) {action : Action}
    (hnext : ∀ s', s.step action = some s' → Accounted s') : SameSizes s action := by
  rintro rfl delta hdelta
  by_contra hlogprobs
  have hlt := sum_lt_of_logprobs hdelta hlogprobs
  have hqueue : s.deltaQueue.isEmpty = false := by
    cases hq : s.deltaQueue with
    | nil => simp [hq] at hdelta
    | cons _ _ => rfl
  have hzero := (hnext _ (by simp only [step, hqueue]; rfl)).pending
  have hfits : (s.deltaQueue.map ChatStream.deltaSize).sum < 2 ^ 64 := h.fits
  have hpending := h.pending
  rw [queuedBytes] at hpending
  simp only [takeAll_eq, queuedBytes, List.map_nil, List.sum_nil, BitVec.toNat_sub,
    BitVec.toNat_ofNat, Nat.mod_eq_of_lt hfits] at hzero
  omega

/-- The count is right in every state, and taking the deltas never underflows. -/
def Sound (actions : List Action) : Prop :=
  Execution.Always step Accounted {} actions ∧
    Execution.Meets step (fun s action => action = .provide →
      ChatStream.TakesWithoutUnderflow s.pendingBytes s.deltaQueue) {} actions

/-- The bytes of a chat stream's queue are accounted for in a run of both threads if and only if no
delta that the provider takes has text in its log probabilities. -/
theorem sound_iff (actions : List Action) :
    Sound actions ↔ Execution.Meets step SameSizes {} actions := by
  have hinitial : Inv {} := ⟨rfl, by decide⟩
  have halways : Execution.Always step Accounted {} actions ↔
      Execution.Meets step SameSizes {} actions :=
    Execution.always_iff_meets (I := Inv) (fun s h => accounted_of_pending h.pending)
      (fun s action s' h hsizes => inv_step h hsizes) (fun s action h => h.sameSizes) hinitial
  refine ⟨fun h => halways.1 h.1, fun h => ⟨halways.2 h, ?_⟩⟩
  refine Execution.Meets.of_invariant (I := Inv) (fun s action s' h hsizes => inv_step h hsizes) ?_
    hinitial h
  rintro s action h hsizes rfl
  exact (h.takes (hsizes rfl)).1

def loggedDelta : InferenceDelta where
  content := "a".toList
  logprobs := [{ token := "a".toList, bytes := [97] }]

theorem loggedDelta_not_sound : ¬ ∀ actions, Sound actions := by
  intro hall
  have hsound := (hall [.push loggedDelta, .provide]).1
  have hempty := (hsound [.push loggedDelta, .provide] _ List.prefix_rfl rfl).empty rfl
  exact absurd hempty (by decide)

end GenerationSession

end InferDeck.Gateway
