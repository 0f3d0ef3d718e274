import InferDeck.SpeechStream

/-!
# Speech streaming loses nothing

What is queued, taken and written, what a request that is recorded with status 200 has written, the
cleanup, and the end of a wait for capacity. All but the second hold in every run; that one fails
where the releaser is called with success while the stream is still open.
-/

namespace InferDeck.Gateway.SpeechStream

open Execution

/-- What a stream whose backend passed the chunks and returned the bytes is to write. -/
def expected (passed : List Bytes) (result : Bytes) : Bytes :=
  if passed.flatten = [] then result else passed.flatten

/-- The chunk that is out of the queue and not yet written. -/
def ProviderPc.inFlight : ProviderPc → List Bytes
  | .writing chunk => [chunk]
  | _ => []

namespace State

variable {s s' : State}

/-- The callback waits for capacity. -/
def Blocked (s : State) : Prop :=
  (∃ chunk, s.worker = .testing chunk) ∨ ∃ chunk, s.worker = .waiting chunk

/-- The wait for capacity of a stopped stream ends: the next steps of the provider, where it has the
mutex, and of the worker lead out of it, and meanwhile the stream stays stopped. -/
structure Unblocks (s : State) : Prop where
  leaves : ∃ actions s', exec step s actions = some s' ∧ ¬s'.Blocked ∧
    actions.length ≤ 7 ∧ ∀ action ∈ actions,
      action = .runProvider true true ∨ action = .work false
  stays : ∀ action s', step s action = some s' → s'.stopped = true

structure Sound (s : State) : Prop where
  order : s.output.written.Sublist s.intake.accepted
  pending : s.mtx = none → s.pendingBytes = (s.chunks.map List.length).sum
  covered : ∀ chunk ∈ s.chunks, chunk.length ≤ s.pendingBytes
  complete : 200 ∈ s.output.recorded → ∃ result, s.intake.result = some result ∧
    s.output.written.flatten = expected s.intake.passed result
  recorded : s.output.recorded.length ≤ 1
  jobs : s.output.jobs.length ≤ 1
  released : s.output.released ≤ 1
  once : ∀ status, s.cleanup = .closed status → s.output.recorded = [status] ∧
    s.output.jobs = [jobStateOf status] ∧ s.output.released = 1
  unblocks : s.Blocked → s.stopped = true → s.Unblocks

/-- Everything that was queued is written. -/
def Drained (s : State) : Prop :=
  s.chunks = [] ∧ s.output.refused = false ∧ s.provider.inFlight = []

instance : Decidable s.Drained := inferInstanceAs (Decidable (_ ∧ _ ∧ _))

/-- The releaser is called with success only when the cleanup has begun, when the stream is aborted,
or when the worker has finished and has failed or everything is written. -/
def ReleasesClosed (s : State) (action : Action) : Prop :=
  action = .release true → s.cleanup ≠ .isOpen ∨ s.aborted = true ∨
    s.finished = true ∧ (s.failed = true ∨ s.Drained)

instance {action : Action} : Decidable (s.ReleasesClosed action) :=
  inferInstanceAs (Decidable (_ → _))

end State

/-! ## The invariant -/

def ProviderPc.holds : ProviderPc → Bool
  | .testing | .looking | .checking | .failedRead | .abortedRead _ => true
  | _ => false

def WorkerPc.holds : WorkerPc → Bool
  | .testing _ | .queueing _ => true
  | _ => false

def Cleanup.status : Cleanup → Option ℕ
  | .isOpen => none
  | .storing status | .joining status | .recording status | .finishingJob status
  | .releasing status | .closed status => some status

/-- `aborted` is set for good. -/
def Cleanup.storedAbort : Cleanup → Bool
  | .isOpen | .storing _ => false
  | .joining status | .recording status | .finishingJob status | .releasing status
  | .closed status => decide (status = 499)

def Cleanup.recorded : Cleanup → List ℕ
  | .finishingJob status | .releasing status | .closed status => [status]
  | _ => []

def Cleanup.jobs : Cleanup → List JobState
  | .releasing status | .closed status => [jobStateOf status]
  | _ => []

def Cleanup.released : Cleanup → ℕ
  | .closed _ => 1
  | _ => 0

namespace State

variable {s s' : State}

/-- The chunks are in the queue, on the way to the sink, or written. -/
structure Queue (s : State) : Prop where
  pending : s.pendingBytes = (s.chunks.map List.length).sum
  accepted : s.intake.accepted = s.output.taken ++ s.chunks
  written : (s.output.written ++ s.provider.inFlight).Sublist s.output.taken
  whole : s.output.refused = false → s.output.taken = s.output.written ++ s.provider.inFlight
  refused : s.output.refused = true →
    s.cleanup ≠ .isOpen ∨ s.provider = .finish (.entering 499)

structure Owned (s : State) : Prop where
  worker : s.mtx = some .worker ↔ s.worker.holds = true
  provider : s.mtx = some .provider ↔ s.provider.holds = true

/-- While the backend runs, all that it passed is accepted but the chunk in the callback, unless the
callback has returned false. -/
structure Running (s : State) (current : Bytes) : Prop where
  failed : s.intake.denied = false → s.failed = false
  passed : s.intake.denied = false →
    s.intake.passed.flatten = s.intake.accepted.flatten ++ current
  unstreamed : s.streamedBytes = false → s.intake.accepted = []
  streamed : s.streamedBytes = true → s.intake.accepted.flatten ≠ []

def Complete (s : State) : Prop :=
  ∃ result, s.intake.result = some result ∧
    s.intake.accepted.flatten = expected s.intake.passed result

/-- The end of the synthesis can be told from the flags. -/
def Settled (s : State) : Prop :=
  s.failed = true ∨ s.aborted = true ∨ s.cleanup ≠ .isOpen ∨ s.Complete

def Phase (s : State) : WorkerPc → Prop
  | .synthesizing | .returning => s.Running []
  | .locking chunk | .testing chunk | .waiting chunk | .queueing chunk =>
      chunk ≠ [] ∧ s.Running chunk
  | .failing => s.intake.denied = true ∧ s.Running []
  | .publishing bytes =>
      s.intake.result = some bytes ∧ s.intake.denied = false ∧ s.Running []
  | .failedStored failed => failed = true ∨ s.cancelled = true
  | .cancelReadAgain => s.failed = true ∨ s.cancelled = true
  | .finishing | .ended => s.Settled
  | .cancelRead | .abortStored | .throwing => True

structure Synthesis (s : State) : Prop where
  finished : s.finished = true ↔ s.worker = .ended
  phase : s.Phase s.worker
  aborted : s.aborted = true →
    s.worker = .finishing ∨ s.worker = .ended ∨ s.cleanup.storedAbort = true

structure Counted (s : State) : Prop where
  recorded : s.output.recorded = s.cleanup.recorded
  jobs : s.output.jobs = s.cleanup.jobs
  released : s.output.released = s.cleanup.released

/-- Everything is accepted, taken and written. -/
structure Done (s : State) : Prop where
  finished : s.finished = true
  complete : s.Complete
  drained : s.Drained

/-- What the provider has seen on its way to the status of `finish`. -/
def ProviderFacts (s : State) : ProviderPc → Prop
  | .checking => s.chunks = []
  | .failedRead => s.chunks = [] ∧ s.finished = true
  | .abortedRead failed => s.chunks = [] ∧ s.finished = true ∧ failed = s.failed
  | .finish (.entering status) => status = 200 → s.cleanup ≠ .isOpen ∨ s.Done
  | _ => True

def ReleaserFacts (s : State) : ReleaserPc → Prop
  | .abortedRead => s.cleanup ≠ .isOpen ∨ s.aborted = true ∨
      s.finished = true ∧ (s.failed = true ∨ s.Drained)
  | .failedRead => s.cleanup ≠ .isOpen ∨
      s.finished = true ∧ (s.failed = true ∨ s.Drained ∧ s.Complete)
  | .finish (.entering status) => status = 200 → s.cleanup ≠ .isOpen ∨ s.Done
  | _ => True

structure Closing (s : State) : Prop where
  provider : s.ProviderFacts s.provider
  releaser : s.ReleaserFacts s.releaser
  cleanup : s.cleanup.status = some 200 → s.Done

structure Inv (s : State) : Prop where
  queue : s.Queue
  owned : s.Owned
  synthesis : s.Synthesis
  counted : s.Counted
  closing : s.Closing

/-! ### The steps of the worker -/

inductive WorkerStep (s : State) : State → Prop
  | deliver (data : Option Bytes) (pc : s.worker = .synthesizing) : WorkerStep s (s.deliver data)
  | synthesized {s' : State} (outcome : Outcome) (pc : s.worker = .synthesizing)
      (h : s.synthesized outcome = some s') : WorkerStep s s'
  | work {s' : State} (outOfMemory : Bool) (h : s.work outOfMemory = some s') : WorkerStep s s'

structure WorkerFrame (s s' : State) : Prop where
  provider : s'.provider = s.provider
  releaser : s'.releaser = s.releaser
  cleanup : s'.cleanup = s.cleanup
  cancelled : s'.cancelled = s.cancelled
  output : s'.output = s.output
  aborted : s.aborted = true → s'.aborted = true
  queue : (s'.chunks = s.chunks ∧ s'.pendingBytes = s.pendingBytes ∧
      s'.intake.accepted = s.intake.accepted) ∨
    s.mtx ≠ some .provider ∧ ∃ chunk : Bytes, s'.chunks = s.chunks ++ [chunk] ∧
      s'.pendingBytes = s.pendingBytes + chunk.length ∧
        s'.intake.accepted = s.intake.accepted ++ [chunk]

theorem lock_eq_some {party : Party} : s.lock party = some s' ↔
    s.mtx = none ∧ s' = { s with mtx := some party } := by
  rw [lock]
  split_ifs with hfree
  · simp [hfree, eq_comm]
  · simp [hfree]

theorem WorkerFrame.same (hprovider : s'.provider = s.provider) (hreleaser : s'.releaser = s.releaser)
    (hcleanup : s'.cleanup = s.cleanup) (hcancelled : s'.cancelled = s.cancelled)
    (houtput : s'.output = s.output) (haborted : s.aborted = true → s'.aborted = true)
    (hchunks : s'.chunks = s.chunks) (hpending : s'.pendingBytes = s.pendingBytes)
    (haccepted : s'.intake.accepted = s.intake.accepted) : s.WorkerFrame s' :=
  ⟨hprovider, hreleaser, hcleanup, hcancelled, houtput, haborted, .inl ⟨hchunks, hpending, haccepted⟩⟩

theorem workerFrame (howned : s.Owned) (h : s.WorkerStep s') : s.WorkerFrame s' := by
  cases h with
  | deliver data pc =>
      unfold State.deliver
      dsimp only
      split_ifs
      · exact .same rfl rfl rfl rfl rfl id rfl rfl rfl
      · split <;> exact .same rfl rfl rfl rfl rfl id rfl rfl rfl
  | synthesized outcome pc h =>
      cases outcome with
      | result bytes =>
          rw [synthesized] at h
          split_ifs at h
          obtain rfl := Option.some.inj h
          exact .same rfl rfl rfl rfl rfl id rfl rfl rfl
      | failed | threw =>
          obtain rfl := Option.some.inj h
          exact .same rfl rfl rfl rfl rfl id rfl rfl rfl
  | work outOfMemory h =>
      unfold State.work at h
      split at h
      case h_1 | h_2 => cases h
      case h_3 chunk pc =>
        obtain ⟨s₁, hlock, rfl⟩ := Option.map_eq_some_iff.1 h
        obtain ⟨-, rfl⟩ := lock_eq_some.1 hlock
        exact .same rfl rfl rfl rfl rfl id rfl rfl rfl
      case h_4 chunk pc =>
        split_ifs at h <;> obtain rfl := Option.some.inj h
        · exact .same rfl rfl rfl rfl rfl id rfl rfl rfl
        · exact .same rfl rfl rfl rfl rfl id rfl rfl rfl
      case h_5 chunk pc =>
        obtain ⟨s₁, hlock, rfl⟩ := Option.map_eq_some_iff.1 h
        obtain ⟨-, rfl⟩ := lock_eq_some.1 hlock
        exact .same rfl rfl rfl rfl rfl id rfl rfl rfl
      case h_6 chunk pc =>
        have hmtx : s.mtx = some .worker := howned.worker.2 (by rw [pc]; rfl)
        split_ifs at h <;> obtain rfl := Option.some.inj h
        · exact .same rfl rfl rfl rfl rfl id rfl rfl rfl
        · exact .same rfl rfl rfl rfl rfl id rfl rfl rfl
        · exact ⟨rfl, rfl, rfl, rfl, rfl, id, .inr ⟨by simp [hmtx], chunk, rfl, rfl, rfl⟩⟩
      case h_9 bytes pc =>
        split_ifs at h with hfree
        obtain rfl := Option.some.inj h
        unfold publish
        split_ifs
        · exact .same rfl rfl rfl rfl rfl id rfl rfl rfl
        · exact ⟨rfl, rfl, rfl, rfl, rfl, id, .inr ⟨by simp [hfree], bytes, rfl, rfl, rfl⟩⟩
        · exact .same rfl rfl rfl rfl rfl id rfl rfl rfl
      case h_13 pc =>
        obtain rfl := Option.some.inj h
        exact .same rfl rfl rfl rfl rfl (fun _ => rfl) rfl rfl rfl
      case h_8 | h_12 =>
        split_ifs at h <;> obtain rfl := Option.some.inj h
        · exact .same rfl rfl rfl rfl rfl id rfl rfl rfl
        · exact .same rfl rfl rfl rfl rfl id rfl rfl rfl
      all_goals
        obtain rfl := Option.some.inj h
        exact .same rfl rfl rfl rfl rfl id rfl rfl rfl

/-- The worker steps only before its end. -/
theorem WorkerStep.not_ended (h : s.WorkerStep s') : s.worker ≠ .ended := by
  intro hended
  cases h with
  | deliver data pc | synthesized outcome pc h =>
      rw [hended] at pc
      cases pc
  | work outOfMemory h =>
      rw [State.work, hended] at h
      cases h

theorem Queue.of_worker (h : s.Queue) (hframe : s.WorkerFrame s') : s'.Queue := by
  refine ⟨?_, ?_, ?_, ?_, ?_⟩
  · rcases hframe.queue with ⟨hchunks, hpending, -⟩ | ⟨-, chunk, hchunks, hpending, -⟩
    · rw [hchunks, hpending, h.pending]
    · rw [hchunks, hpending, h.pending, List.map_append, List.sum_append, List.map_singleton,
        List.sum_singleton]
  · rcases hframe.queue with ⟨hchunks, -, haccepted⟩ | ⟨-, chunk, hchunks, -, haccepted⟩
    · rw [hchunks, haccepted, hframe.output, h.accepted]
    · rw [hchunks, haccepted, hframe.output, h.accepted, List.append_assoc]
  · rw [hframe.output, hframe.provider]
    exact h.written
  · rw [hframe.output, hframe.provider]
    exact h.whole
  · rw [hframe.output, hframe.provider, hframe.cleanup]
    exact h.refused

theorem Counted.of_worker (h : s.Counted) (hframe : s.WorkerFrame s') : s'.Counted := by
  refine ⟨?_, ?_, ?_⟩
  · rw [hframe.output, hframe.cleanup, h.recorded]
  · rw [hframe.output, hframe.cleanup, h.jobs]
  · rw [hframe.output, hframe.cleanup, h.released]

/-- What is known of a finished worker is known of none that still steps. -/
theorem Closing.of_worker (h : s.Closing) (howned : s.Owned) (hsynthesis : s.Synthesis)
    (hstep : s.WorkerStep s') : s'.Closing := by
  have hframe := workerFrame howned hstep
  have hrunning : s.finished ≠ true := fun hfinished =>
    hstep.not_ended (hsynthesis.finished.1 hfinished)
  have hopen (hs : s.cleanup ≠ .isOpen ∨ s.Done) : s'.cleanup ≠ .isOpen ∨ s'.Done := by
    rw [hframe.cleanup]
    exact .inl (hs.resolve_right fun hdone => hrunning hdone.finished)
  refine ⟨?_, ?_, fun hstatus => ?_⟩
  · rw [hframe.provider]
    have hfacts := h.provider
    cases hpc : s.provider with
    | checking =>
        rw [hpc] at hfacts
        rcases hframe.queue with ⟨hchunks, -, -⟩ | ⟨hmtx, -⟩
        · exact hchunks.trans hfacts
        · exact absurd (howned.provider.2 (by rw [hpc]; rfl)) hmtx
    | failedRead =>
        rw [hpc] at hfacts
        exact absurd hfacts.2 hrunning
    | abortedRead failed =>
        rw [hpc] at hfacts
        exact absurd hfacts.2.1 hrunning
    | finish call =>
        cases call with
        | entering status =>
            rw [hpc] at hfacts
            exact fun hstatus => hopen (hfacts hstatus)
        | cleaning => trivial
    | idle | locking | testing | looking | writing => trivial
  · rw [hframe.releaser]
    have hfacts := h.releaser
    cases hpc : s.releaser with
    | idle => trivial
    | abortedRead =>
        rw [hpc] at hfacts
        rcases hfacts with hclosed | haborted | ⟨hfinished, -⟩
        · exact .inl (hframe.cleanup ▸ hclosed)
        · exact .inr (.inl (hframe.aborted haborted))
        · exact absurd hfinished hrunning
    | failedRead =>
        rw [hpc] at hfacts
        rcases hfacts with hclosed | ⟨hfinished, -⟩
        · exact .inl (hframe.cleanup ▸ hclosed)
        · exact absurd hfinished hrunning
    | finish call =>
        cases call with
        | entering status =>
            rw [hpc] at hfacts
            exact fun hstatus => hopen (hfacts hstatus)
        | cleaning => trivial
  · rw [hframe.cleanup] at hstatus
    exact absurd (h.cleanup hstatus).finished hrunning

/-- Who has the mutex after a step of the worker. -/
theorem Owned.of_worker (h : s.Owned) (hstep : s.WorkerStep s') : s'.Owned := by
  have hframe := workerFrame h hstep
  have hkeep (hmtx : s'.mtx = s.mtx) (hholds : s'.worker.holds = s.worker.holds) : s'.Owned :=
    ⟨by rw [hmtx, hholds, h.worker], by rw [hmtx, hframe.provider, h.provider]⟩
  have htake (hfree : s.mtx = none) (hmtx : s'.mtx = some .worker)
      (hholds : s'.worker.holds = true) : s'.Owned := by
    refine ⟨by rw [hmtx, hholds]; simp, ?_⟩
    rw [hmtx, hframe.provider, ← h.provider, hfree]
    simp
  have hleave (hheld : s.worker.holds = true) (hmtx : s'.mtx = none)
      (hholds : s'.worker.holds = false) : s'.Owned := by
    refine ⟨by rw [hmtx, hholds]; simp, ?_⟩
    rw [hmtx, hframe.provider, ← h.provider, h.worker.2 hheld]
    simp
  cases hstep with
  | deliver data pc =>
      unfold State.deliver at hkeep ⊢
      dsimp only at hkeep ⊢
      split_ifs at hkeep ⊢
      · exact hkeep rfl (by rw [pc]; rfl)
      · split at hkeep <;> exact hkeep rfl (by rw [pc]; rfl)
  | synthesized outcome pc hresult =>
      cases outcome with
      | result bytes =>
          rw [synthesized] at hresult
          split_ifs at hresult
          obtain rfl := Option.some.inj hresult
          exact hkeep rfl (by rw [pc]; rfl)
      | failed | threw =>
          obtain rfl := Option.some.inj hresult
          exact hkeep rfl (by rw [pc]; rfl)
  | work outOfMemory hwork =>
      unfold State.work at hwork
      split at hwork
      case h_1 | h_2 => cases hwork
      case h_3 chunk pc =>
        obtain ⟨s₁, hlock, rfl⟩ := Option.map_eq_some_iff.1 hwork
        obtain ⟨hfree, rfl⟩ := lock_eq_some.1 hlock
        exact htake hfree rfl rfl
      case h_4 chunk pc =>
        split_ifs at hwork <;> obtain rfl := Option.some.inj hwork
        · exact hkeep rfl (by rw [pc]; rfl)
        · exact hleave (by rw [pc]; rfl) rfl rfl
      case h_5 chunk pc =>
        obtain ⟨s₁, hlock, rfl⟩ := Option.map_eq_some_iff.1 hwork
        obtain ⟨hfree, rfl⟩ := lock_eq_some.1 hlock
        exact htake hfree rfl rfl
      case h_6 chunk pc =>
        split_ifs at hwork <;> obtain rfl := Option.some.inj hwork
        · exact hleave (by rw [pc]; rfl) rfl rfl
        · exact hleave (by rw [pc]; rfl) rfl rfl
        · exact hleave (by rw [pc]; rfl) rfl rfl
      case h_9 bytes pc =>
        split_ifs at hwork with hfree
        obtain rfl := Option.some.inj hwork
        unfold publish at hkeep ⊢
        split_ifs at hkeep ⊢
        · exact hkeep rfl (by rw [pc]; rfl)
        · exact hkeep rfl (by rw [pc]; rfl)
        · exact hkeep rfl (by rw [pc]; rfl)
      case h_8 pc | h_12 pc =>
        split_ifs at hwork <;> obtain rfl := Option.some.inj hwork
        · exact hkeep rfl (by rw [pc]; rfl)
        · exact hkeep rfl (by rw [pc]; rfl)
      case h_7 pc | h_10 pc | h_11 pc | h_13 pc | h_14 pc | h_15 pc =>
        obtain rfl := Option.some.inj hwork
        exact hkeep rfl (by rw [pc]; rfl)

theorem Running.congr {current : Bytes} (h : s.Running current) (hintake : s'.intake = s.intake)
    (hstreamed : s'.streamedBytes = s.streamedBytes) (hfailed : s'.failed = s.failed) :
    s'.Running current := by
  refine ⟨?_, ?_, ?_, ?_⟩
  · rw [hintake, hfailed]
    exact h.failed
  · rw [hintake]
    exact h.passed
  · rw [hintake, hstreamed]
    exact h.unstreamed
  · rw [hintake, hstreamed]
    exact h.streamed

/-- A callback that returned false is past its assumption. -/
theorem Running.denied {current : Bytes} (h : s.Running current) (hdenied : s'.intake.denied = true)
    (haccepted : s'.intake.accepted = s.intake.accepted)
    (hstreamed : s'.streamedBytes = s.streamedBytes) : s'.Running [] := by
  refine ⟨?_, ?_, ?_, ?_⟩
  · rw [hdenied]
    exact fun h => by cases h
  · rw [hdenied]
    exact fun h => by cases h
  · rw [haccepted, hstreamed]
    exact h.unstreamed
  · rw [haccepted, hstreamed]
    exact h.streamed

/-- The callback is entered with a chunk. -/
theorem Running.pass {chunk : Bytes} (h : s.Running [])
    (hpassed : s'.intake.passed = s.intake.passed ++ [chunk])
    (hdenied : s'.intake.denied = s.intake.denied)
    (haccepted : s'.intake.accepted = s.intake.accepted)
    (hstreamed : s'.streamedBytes = s.streamedBytes) (hfailed : s'.failed = s.failed) :
    s'.Running chunk := by
  refine ⟨?_, ?_, ?_, ?_⟩
  · rw [hdenied, hfailed]
    exact h.failed
  · rw [hdenied, hpassed, haccepted, List.flatten_append]
    intro hnot
    rw [h.passed hnot, List.append_nil, List.flatten_singleton]
  · rw [haccepted, hstreamed]
    exact h.unstreamed
  · rw [haccepted, hstreamed]
    exact h.streamed

/-- The callback has queued its chunk. -/
theorem Running.accept {chunk : Bytes} (h : s.Running chunk) (hnonempty : chunk ≠ [])
    (hpassed : s'.intake.passed = s.intake.passed) (hdenied : s'.intake.denied = s.intake.denied)
    (haccepted : s'.intake.accepted = s.intake.accepted ++ [chunk])
    (hstreamed : s'.streamedBytes = true) (hfailed : s'.failed = s.failed) : s'.Running [] := by
  refine ⟨?_, ?_, ?_, ?_⟩
  · rw [hdenied, hfailed]
    exact h.failed
  · rw [hdenied, hpassed, haccepted, List.flatten_append, List.flatten_singleton, List.append_nil]
    exact h.passed
  · rw [hstreamed]
    exact fun h => by cases h
  · intro _
    rw [haccepted, List.flatten_append, List.flatten_singleton]
    exact fun hnil => hnonempty (List.append_eq_nil_iff.1 hnil).2

/-- What is accepted after the result was queued, where nothing was streamed. -/
theorem Running.complete (h : s.Running []) (hdenied : s.intake.denied = false) {bytes : Bytes}
    (hresult : s'.intake.result = some bytes) (hpassed : s'.intake.passed = s.intake.passed)
    (haccepted : s'.intake.accepted =
      if s.streamedBytes = false ∧ bytes ≠ [] then s.intake.accepted ++ [bytes]
      else s.intake.accepted) : s'.Complete := by
  have hall := h.passed hdenied
  rw [List.append_nil] at hall
  refine ⟨bytes, hresult, ?_⟩
  rw [haccepted, hpassed, expected, hall]
  cases hstreamed : s.streamedBytes with
  | false =>
      rw [h.unstreamed hstreamed]
      by_cases hbytes : bytes = []
      · simp [hbytes]
      · simp [hbytes]
  | true => simp [h.streamed hstreamed]

theorem Synthesis.deliver (h : s.Synthesis) (data : Option Bytes) (pc : s.worker = .synthesizing) :
    (s.deliver data).Synthesis := by
  have hrunning : s.Running [] := by
    have hphase := h.phase
    rwa [pc] at hphase
  have hfinished : ∀ {s' : State}, s'.finished = s.finished → s'.worker ≠ .ended →
      (s'.finished = true ↔ s'.worker = .ended) := by
    intro s' hsame hne
    rw [hsame, h.finished, pc]
    simp [hne]
  have haborted : s.aborted = true → s.cleanup.storedAbort = true := by
    intro haborted
    simpa [pc] using h.aborted haborted
  unfold State.deliver
  dsimp only
  split_ifs
  · refine ⟨hfinished rfl (by simp [deny]), ?_, fun ha => .inr (.inr (haborted ha))⟩
    exact hrunning.denied rfl rfl rfl
  · cases data with
    | none =>
        refine ⟨hfinished rfl (by simp), ?_, fun ha => .inr (.inr (haborted ha))⟩
        exact ⟨rfl, hrunning.denied rfl rfl rfl⟩
    | some chunk =>
        cases chunk with
        | nil =>
            refine ⟨hfinished rfl (by simp), ?_, fun ha => .inr (.inr (haborted ha))⟩
            exact hrunning.pass rfl rfl rfl rfl rfl
        | cons byte bytes =>
            refine ⟨hfinished rfl (by simp), ?_, fun ha => .inr (.inr (haborted ha))⟩
            exact ⟨List.cons_ne_nil _ _, hrunning.pass rfl rfl rfl rfl rfl⟩

theorem Synthesis.synthesized (h : s.Synthesis) {outcome : Outcome}
    (pc : s.worker = .synthesizing) (hstep : s.synthesized outcome = some s') : s'.Synthesis := by
  have hrunning : s.Running [] := by
    have hphase := h.phase
    rwa [pc] at hphase
  have hfinished : ∀ {s' : State}, s'.finished = s.finished → s'.worker ≠ .ended →
      (s'.finished = true ↔ s'.worker = .ended) := by
    intro s' hsame hne
    rw [hsame, h.finished, pc]
    simp [hne]
  have haborted : s.aborted = true → s.cleanup.storedAbort = true := by
    intro haborted
    simpa [pc] using h.aborted haborted
  cases outcome with
  | result bytes =>
      rw [State.synthesized] at hstep
      split_ifs at hstep with hdenied
      obtain rfl := Option.some.inj hstep
      rw [Bool.not_eq_true] at hdenied
      refine ⟨hfinished rfl (by simp), ?_, fun ha => .inr (.inr (haborted ha))⟩
      exact ⟨rfl, hdenied, hrunning.failed, hrunning.passed, hrunning.unstreamed,
        hrunning.streamed⟩
  | failed | threw =>
      obtain rfl := Option.some.inj hstep
      exact ⟨hfinished rfl (by simp), trivial, fun ha => .inr (.inr (haborted ha))⟩

theorem Synthesis.work (h : s.Synthesis) {outOfMemory : Bool}
    (hstep : s.work outOfMemory = some s') : s'.Synthesis := by
  have hphase := h.phase
  have hfinished : ∀ {s' : State}, s'.finished = s.finished → s.worker ≠ .ended →
      s'.worker ≠ .ended → (s'.finished = true ↔ s'.worker = .ended) := by
    intro s' hsame hne hne'
    rw [hsame, h.finished]
    simp [hne, hne']
  have haborted : s.aborted = true → s.worker ≠ .finishing → s.worker ≠ .ended →
      s.cleanup.storedAbort = true := by
    intro haborted hne hne'
    simpa [hne, hne'] using h.aborted haborted
  unfold State.work at hstep
  split at hstep
  case h_1 | h_2 => cases hstep
  case h_3 chunk pc | h_5 chunk pc =>
    rw [pc] at hphase
    obtain ⟨s₁, hlock, rfl⟩ := Option.map_eq_some_iff.1 hstep
    obtain ⟨-, rfl⟩ := lock_eq_some.1 hlock
    refine ⟨hfinished rfl (by simp [pc]) (by simp), ⟨hphase.1, hphase.2.congr rfl rfl rfl⟩,
      fun ha => .inr (.inr (haborted ha (by simp [pc]) (by simp [pc])))⟩
  case h_4 chunk pc =>
    rw [pc] at hphase
    split_ifs at hstep <;> obtain rfl := Option.some.inj hstep
    · refine ⟨hfinished rfl (by simp [pc]) (by simp), ⟨hphase.1, hphase.2.congr rfl rfl rfl⟩,
        fun ha => .inr (.inr (haborted ha (by simp [pc]) (by simp [pc])))⟩
    · refine ⟨hfinished rfl (by simp [pc]) (by simp), ⟨hphase.1, hphase.2.congr rfl rfl rfl⟩,
        fun ha => .inr (.inr (haborted ha (by simp [pc]) (by simp [pc])))⟩
  case h_6 chunk pc =>
    rw [pc] at hphase
    split_ifs at hstep <;> obtain rfl := Option.some.inj hstep
    · refine ⟨hfinished rfl (by simp [pc]) (by simp [deny]), hphase.2.denied rfl rfl rfl,
        fun ha => .inr (.inr (haborted ha (by simp [pc]) (by simp [pc])))⟩
    · refine ⟨hfinished rfl (by simp [pc]) (by simp), ⟨rfl, hphase.2.denied rfl rfl rfl⟩,
        fun ha => .inr (.inr (haborted ha (by simp [pc]) (by simp [pc])))⟩
    · refine ⟨hfinished rfl (by simp [pc]) (by simp),
        hphase.2.accept hphase.1 rfl rfl rfl rfl rfl,
        fun ha => .inr (.inr (haborted ha (by simp [pc]) (by simp [pc])))⟩
  case h_7 pc =>
    rw [pc] at hphase
    obtain rfl := Option.some.inj hstep
    refine ⟨hfinished rfl (by simp [pc]) (by simp [deny]), hphase.2.denied rfl rfl rfl,
      fun ha => .inr (.inr (haborted ha (by simp [pc]) (by simp [pc])))⟩
  case h_8 pc =>
    rw [pc] at hphase
    split_ifs at hstep <;> obtain rfl := Option.some.inj hstep
    · refine ⟨hfinished rfl (by simp [pc]) (by simp [deny]), Running.denied hphase rfl rfl rfl,
        fun ha => .inr (.inr (haborted ha (by simp [pc]) (by simp [pc])))⟩
    · refine ⟨hfinished rfl (by simp [pc]) (by simp), Running.congr hphase rfl rfl rfl,
        fun ha => .inr (.inr (haborted ha (by simp [pc]) (by simp [pc])))⟩
  case h_9 bytes pc =>
    rw [pc] at hphase
    obtain ⟨hresult, hdenied, hrunning⟩ := hphase
    split_ifs at hstep with hfree
    obtain rfl := Option.some.inj hstep
    unfold publish
    split_ifs with hbytes hmemory
    · exact ⟨hfinished rfl (by simp [pc]) (by simp), trivial,
        fun ha => .inr (.inr (haborted ha (by simp [pc]) (by simp [pc])))⟩
    · refine ⟨hfinished rfl (by simp [pc]) (by simp), .inr (.inr (.inr ?_)),
        fun ha => .inl rfl⟩
      refine hrunning.complete hdenied hresult rfl ?_
      simp only [Bool.and_eq_true, Bool.not_eq_true', List.isEmpty_eq_false_iff] at hbytes
      rw [if_pos hbytes]
      rfl
    · refine ⟨hfinished rfl (by simp [pc]) (by simp), .inr (.inr (.inr ?_)),
        fun ha => .inl rfl⟩
      refine hrunning.complete hdenied hresult rfl ?_
      simp only [Bool.and_eq_true, Bool.not_eq_true', List.isEmpty_eq_false_iff] at hbytes
      rw [if_neg hbytes]
  case h_10 pc =>
    obtain rfl := Option.some.inj hstep
    refine ⟨hfinished rfl (by simp [pc]) (by simp), ?_,
      fun ha => .inr (.inr (haborted ha (by simp [pc]) (by simp [pc])))⟩
    cases hcancelled : s.cancelled with
    | false => exact .inl rfl
    | true => exact .inr rfl
  case h_11 failed pc =>
    rw [pc] at hphase
    obtain rfl := Option.some.inj hstep
    exact ⟨hfinished rfl (by simp [pc]) (by simp), hphase,
      fun ha => .inr (.inr (haborted ha (by simp [pc]) (by simp [pc])))⟩
  case h_12 pc =>
    rw [pc] at hphase
    split_ifs at hstep with hcancelled <;> obtain rfl := Option.some.inj hstep
    · exact ⟨hfinished rfl (by simp [pc]) (by simp), trivial,
        fun ha => .inr (.inr (haborted ha (by simp [pc]) (by simp [pc])))⟩
    · exact ⟨hfinished rfl (by simp [pc]) (by simp), .inl (hphase.resolve_right hcancelled),
        fun ha => .inl rfl⟩
  case h_13 pc =>
    obtain rfl := Option.some.inj hstep
    exact ⟨hfinished rfl (by simp [pc]) (by simp), .inr (.inl rfl), fun _ => .inl rfl⟩
  case h_14 pc =>
    obtain rfl := Option.some.inj hstep
    exact ⟨hfinished rfl (by simp [pc]) (by simp), .inl rfl, fun _ => .inl rfl⟩
  case h_15 pc =>
    rw [pc] at hphase
    obtain rfl := Option.some.inj hstep
    exact ⟨by simp, hphase, fun _ => .inr (.inl rfl)⟩

theorem Inv.of_worker (h : s.Inv) (hstep : s.WorkerStep s') : s'.Inv where
  queue := h.queue.of_worker (workerFrame h.owned hstep)
  owned := h.owned.of_worker hstep
  synthesis := by
    cases hstep with
    | deliver data pc => exact h.synthesis.deliver data pc
    | synthesized outcome pc hresult => exact h.synthesis.synthesized pc hresult
    | work outOfMemory hwork => exact h.synthesis.work hwork
  counted := h.counted.of_worker (workerFrame h.owned hstep)
  closing := h.closing.of_worker h.owned h.synthesis hstep

/-! ### The steps of the callers -/

/-- What the provider and the releaser leave to the worker. -/
structure CallerFrame (s s' : State) : Prop where
  worker : s'.worker = s.worker
  streamedBytes : s'.streamedBytes = s.streamedBytes
  finished : s'.finished = s.finished
  failed : s'.failed = s.failed
  cancelled : s.cancelled = true → s'.cancelled = true
  intake : s'.intake = s.intake
  opened : s.cleanup ≠ .isOpen → s'.cleanup ≠ .isOpen
  aborted : (s'.aborted = s.aborted ∧
      (s.cleanup.storedAbort = true → s'.cleanup.storedAbort = true)) ∨
    s'.cleanup ≠ .isOpen ∧ (s'.aborted = true → s'.cleanup.storedAbort = true)

theorem CallerFrame.complete (hframe : s.CallerFrame s') (h : s.Complete) : s'.Complete := by
  rw [Complete, hframe.intake]
  exact h

theorem CallerFrame.settled (hframe : s.CallerFrame s') (h : s.Settled) : s'.Settled := by
  rcases h with hfailed | haborted | hopen | hcomplete
  · exact .inl (hframe.failed.trans hfailed)
  · rcases hframe.aborted with ⟨hsame, -⟩ | ⟨hopen, -⟩
    · exact .inr (.inl (hsame.trans haborted))
    · exact .inr (.inr (.inl hopen))
  · exact .inr (.inr (.inl (hframe.opened hopen)))
  · exact .inr (.inr (.inr (hframe.complete hcomplete)))

theorem Synthesis.of_caller (h : s.Synthesis) (hframe : s.CallerFrame s') : s'.Synthesis := by
  have hrunning {current : Bytes} (hs : s.Running current) : s'.Running current :=
    hs.congr hframe.intake hframe.streamedBytes hframe.failed
  refine ⟨?_, ?_, fun haborted => ?_⟩
  · rw [hframe.finished, hframe.worker, h.finished]
  · rw [hframe.worker]
    have hphase := h.phase
    cases hpc : s.worker with
    | synthesizing | returning =>
        rw [hpc] at hphase
        exact hrunning hphase
    | locking chunk | testing chunk | waiting chunk | queueing chunk =>
        rw [hpc] at hphase
        exact ⟨hphase.1, hrunning hphase.2⟩
    | failing =>
        rw [hpc] at hphase
        exact ⟨by rw [hframe.intake, hphase.1], hrunning hphase.2⟩
    | publishing bytes =>
        rw [hpc] at hphase
        exact ⟨by rw [hframe.intake, hphase.1], by rw [hframe.intake, hphase.2.1],
          hrunning hphase.2.2⟩
    | failedStored failed =>
        rw [hpc] at hphase
        exact hphase.imp_right hframe.cancelled
    | cancelReadAgain =>
        rw [hpc] at hphase
        exact hphase.imp hframe.failed.trans hframe.cancelled
    | finishing | ended =>
        rw [hpc] at hphase
        exact hframe.settled hphase
    | cancelRead | abortStored | throwing => trivial
  · rw [hframe.worker]
    rcases hframe.aborted with ⟨hsame, hstored⟩ | ⟨-, hstored⟩
    · rw [hsame] at haborted
      rcases h.aborted haborted with hpc | hpc | hcleanup
      · exact .inl hpc
      · exact .inr (.inl hpc)
      · exact .inr (.inr (hstored hcleanup))
    · exact .inr (.inr (hstored haborted))

theorem CallerFrame.done (hframe : s.CallerFrame s') (hdrained : s.Drained → s'.Drained)
    (h : s.Done) : s'.Done :=
  ⟨hframe.finished.trans h.finished, hframe.complete h.complete, hdrained h.drained⟩

theorem ProviderFacts.mono {pc : ProviderPc} (h : s.ProviderFacts pc) (hframe : s.CallerFrame s')
    (hchunks : s'.chunks = s.chunks) (hdrained : s.Drained → s'.Drained) :
    s'.ProviderFacts pc := by
  cases pc with
  | checking => exact hchunks.trans h
  | failedRead => exact ⟨hchunks.trans h.1, hframe.finished.trans h.2⟩
  | abortedRead failed =>
      exact ⟨hchunks.trans h.1, hframe.finished.trans h.2.1, h.2.2.trans hframe.failed.symm⟩
  | finish call =>
      cases call with
      | entering status =>
          exact fun hstatus => (h hstatus).imp hframe.opened (hframe.done hdrained)
      | cleaning => trivial
  | idle | locking | testing | looking | writing => trivial

theorem ReleaserFacts.mono {pc : ReleaserPc} (h : s.ReleaserFacts pc) (hframe : s.CallerFrame s')
    (hdrained : s.Drained → s'.Drained) : s'.ReleaserFacts pc := by
  cases pc with
  | idle => trivial
  | abortedRead =>
      rcases h with hopen | haborted | ⟨hfinished, hfailed | hs⟩
      · exact .inl (hframe.opened hopen)
      · rcases hframe.aborted with ⟨hsame, -⟩ | ⟨hopen, -⟩
        · exact .inr (.inl (hsame.trans haborted))
        · exact .inl hopen
      · exact .inr (.inr ⟨hframe.finished.trans hfinished, .inl (hframe.failed.trans hfailed)⟩)
      · exact .inr (.inr ⟨hframe.finished.trans hfinished, .inr (hdrained hs)⟩)
  | failedRead =>
      rcases h with hopen | ⟨hfinished, hfailed | ⟨hs, hcomplete⟩⟩
      · exact .inl (hframe.opened hopen)
      · exact .inr ⟨hframe.finished.trans hfinished, .inl (hframe.failed.trans hfailed)⟩
      · exact .inr ⟨hframe.finished.trans hfinished,
          .inr ⟨hdrained hs, hframe.complete hcomplete⟩⟩
  | finish call =>
      cases call with
      | entering status =>
          exact fun hstatus => (h hstatus).imp hframe.opened (hframe.done hdrained)
      | cleaning => trivial

/-- The provider is somewhere else, and all other things but the mutex are as they were. -/
theorem Inv.goto (h : s.Inv) {mtx : Option Party} {pc : ProviderPc}
    (howned : { s with mtx, provider := pc }.Owned)
    (hbefore : s.provider.inFlight = []) (hflight : pc.inFlight = [])
    (hrefused : s.provider = .finish (.entering 499) →
      s.cleanup ≠ .isOpen ∨ pc = .finish (.entering 499))
    (hfacts : { s with mtx, provider := pc }.ProviderFacts pc) :
    { s with mtx, provider := pc }.Inv := by
  have hframe : s.CallerFrame { s with mtx, provider := pc } :=
    ⟨rfl, rfl, rfl, rfl, id, rfl, id, .inl ⟨rfl, id⟩⟩
  have hdrained (hs : s.Drained) : { s with mtx, provider := pc }.Drained :=
    ⟨hs.1, hs.2.1, hflight⟩
  refine ⟨⟨h.queue.pending, h.queue.accepted, ?_, ?_, ?_⟩, howned,
    h.synthesis.of_caller hframe, ⟨h.counted.recorded, h.counted.jobs, h.counted.released⟩,
    ⟨hfacts, h.closing.releaser.mono hframe hdrained, fun hstatus => ?_⟩⟩
  · have hwritten := h.queue.written
    rw [hbefore] at hwritten
    change (s.output.written ++ pc.inFlight).Sublist s.output.taken
    rwa [hflight]
  · intro hnot
    have hwhole := h.queue.whole hnot
    rw [hbefore] at hwhole
    change s.output.taken = s.output.written ++ pc.inFlight
    rwa [hflight]
  · intro hyes
    rcases h.queue.refused hyes with hopen | hpc
    · exact .inl hopen
    · exact hrefused hpc
  · exact hframe.done hdrained (h.closing.cleanup hstatus)

/-- The provider keeps the mutex, or keeps out of it. -/
theorem Owned.goto (h : s.Owned) {pc : ProviderPc} (hholds : pc.holds = s.provider.holds) :
    { s with provider := pc }.Owned :=
  ⟨h.worker, by rw [h.provider, hholds]⟩

theorem Owned.acquire (h : s.Owned) {pc : ProviderPc} (hfree : s.mtx = none)
    (hholds : pc.holds = true) : { s with mtx := some .provider, provider := pc }.Owned := by
  refine ⟨?_, by simp [hholds]⟩
  have hworker := h.worker
  rw [hfree] at hworker
  simpa using hworker

theorem Owned.leave (h : s.Owned) {pc : ProviderPc} (hheld : s.provider.holds = true)
    (hholds : pc.holds = false) : { s with mtx := none, provider := pc }.Owned := by
  refine ⟨?_, by simp [hholds]⟩
  have hworker := h.worker
  rw [h.provider.2 hheld] at hworker
  simpa using hworker

theorem Inv.gotoReleaser (h : s.Inv) {pc : ReleaserPc}
    (hfacts : { s with releaser := pc }.ReleaserFacts pc) : { s with releaser := pc }.Inv := by
  have hframe : s.CallerFrame { s with releaser := pc } :=
    ⟨rfl, rfl, rfl, rfl, id, rfl, id, .inl ⟨rfl, id⟩⟩
  refine ⟨⟨h.queue.pending, h.queue.accepted, h.queue.written, h.queue.whole, h.queue.refused⟩,
    ⟨h.owned.worker, h.owned.provider⟩, h.synthesis.of_caller hframe,
    ⟨h.counted.recorded, h.counted.jobs, h.counted.released⟩, ⟨?_, hfacts, fun hstatus => ?_⟩⟩
  · exact h.closing.provider.mono hframe rfl id
  · exact hframe.done id (h.closing.cleanup hstatus)

theorem Inv.cancel (h : s.Inv) : { s with cancelled := true }.Inv := by
  have hframe : s.CallerFrame { s with cancelled := true } :=
    ⟨rfl, rfl, rfl, rfl, fun _ => rfl, rfl, id, .inl ⟨rfl, id⟩⟩
  exact ⟨⟨h.queue.pending, h.queue.accepted, h.queue.written, h.queue.whole, h.queue.refused⟩,
    ⟨h.owned.worker, h.owned.provider⟩, h.synthesis.of_caller hframe,
    ⟨h.counted.recorded, h.counted.jobs, h.counted.released⟩,
    ⟨h.closing.provider.mono hframe rfl id, h.closing.releaser.mono hframe id,
      fun hstatus => hframe.done id (h.closing.cleanup hstatus)⟩⟩

/-- A step of the cleanup. -/
theorem Inv.clean (h : s.Inv) (hstep : s.clean = some s') : s'.Inv := by
  have hbuild {s' : State} (hframe : s.CallerFrame s') (hmtx : s'.mtx = s.mtx)
      (hchunks : s'.chunks = s.chunks) (hpending : s'.pendingBytes = s.pendingBytes)
      (hprovider : s'.provider = s.provider) (hreleaser : s'.releaser = s.releaser)
      (htaken : s'.output.taken = s.output.taken) (hwritten : s'.output.written = s.output.written)
      (hrefused : s'.output.refused = s.output.refused) (hcounted : s'.Counted)
      (hopen : s'.cleanup ≠ .isOpen) (hstatus : s'.cleanup.status = s.cleanup.status) :
      s'.Inv := by
    have hdrained (hs : s.Drained) : s'.Drained :=
      ⟨hchunks.trans hs.1, hrefused.trans hs.2.1, hprovider ▸ hs.2.2⟩
    refine ⟨⟨?_, ?_, ?_, ?_, fun _ => .inl hopen⟩, ⟨?_, ?_⟩, h.synthesis.of_caller hframe, hcounted,
      ⟨?_, ?_, ?_⟩⟩
    · rw [hpending, hchunks, h.queue.pending]
    · rw [hframe.intake, htaken, hchunks, h.queue.accepted]
    · rw [hwritten, hprovider, htaken]
      exact h.queue.written
    · rw [hrefused, hwritten, hprovider, htaken]
      exact h.queue.whole
    · rw [hmtx, hframe.worker, h.owned.worker]
    · rw [hmtx, hprovider, h.owned.provider]
    · rw [hprovider]
      exact h.closing.provider.mono hframe hchunks hdrained
    · rw [hreleaser]
      exact h.closing.releaser.mono hframe hdrained
    · rw [hstatus]
      exact fun hs => hframe.done hdrained (h.closing.cleanup hs)
  have hcounted := h.counted
  unfold State.clean at hstep
  split at hstep
  case h_1 | h_2 => cases hstep
  case h_3 status hcleanup =>
    obtain rfl := Option.some.inj hstep
    refine hbuild ⟨rfl, rfl, rfl, rfl, id, rfl, fun _ => by simp, .inr ⟨by simp, id⟩⟩ rfl rfl rfl
      rfl rfl rfl rfl rfl ⟨?_, ?_, ?_⟩ (by simp) (by rw [hcleanup]; rfl)
    · exact hcounted.recorded.trans (by rw [hcleanup]; rfl)
    · exact hcounted.jobs.trans (by rw [hcleanup]; rfl)
    · exact hcounted.released.trans (by rw [hcleanup]; rfl)
  case h_4 status hcleanup =>
    split_ifs at hstep
    obtain rfl := Option.some.inj hstep
    refine hbuild ⟨rfl, rfl, rfl, rfl, id, rfl, fun _ => by simp,
      .inl ⟨rfl, by rw [hcleanup]; exact id⟩⟩ rfl rfl rfl rfl rfl rfl rfl rfl ⟨?_, ?_, ?_⟩ (by simp)
      (by rw [hcleanup]; rfl)
    · exact hcounted.recorded.trans (by rw [hcleanup]; rfl)
    · exact hcounted.jobs.trans (by rw [hcleanup]; rfl)
    · exact hcounted.released.trans (by rw [hcleanup]; rfl)
  case h_5 status hcleanup =>
    obtain rfl := Option.some.inj hstep
    refine hbuild ⟨rfl, rfl, rfl, rfl, id, rfl, fun _ => by simp,
      .inl ⟨rfl, by rw [hcleanup]; exact id⟩⟩ rfl rfl rfl rfl rfl rfl rfl rfl ⟨?_, ?_, ?_⟩ (by simp)
      (by rw [hcleanup]; rfl)
    · change s.output.recorded ++ [status] = [status]
      rw [hcounted.recorded, hcleanup]
      rfl
    · exact hcounted.jobs.trans (by rw [hcleanup]; rfl)
    · exact hcounted.released.trans (by rw [hcleanup]; rfl)
  case h_6 status hcleanup =>
    obtain rfl := Option.some.inj hstep
    refine hbuild ⟨rfl, rfl, rfl, rfl, id, rfl, fun _ => by simp,
      .inl ⟨rfl, by rw [hcleanup]; exact id⟩⟩ rfl rfl rfl rfl rfl rfl rfl rfl ⟨?_, ?_, ?_⟩ (by simp)
      (by rw [hcleanup]; rfl)
    · exact hcounted.recorded.trans (by rw [hcleanup]; rfl)
    · change s.output.jobs ++ [jobStateOf status] = [jobStateOf status]
      rw [hcounted.jobs, hcleanup]
      rfl
    · exact hcounted.released.trans (by rw [hcleanup]; rfl)
  case h_7 status hcleanup =>
    obtain rfl := Option.some.inj hstep
    refine hbuild ⟨rfl, rfl, rfl, rfl, id, rfl, fun _ => by simp,
      .inl ⟨rfl, by rw [hcleanup]; exact id⟩⟩ rfl rfl rfl rfl rfl rfl rfl rfl ⟨?_, ?_, ?_⟩ (by simp)
      (by rw [hcleanup]; rfl)
    · exact hcounted.recorded.trans (by rw [hcleanup]; rfl)
    · exact hcounted.jobs.trans (by rw [hcleanup]; rfl)
    · change s.output.released + 1 = 1
      rw [hcounted.released, hcleanup]
      rfl

theorem clean_callers (hstep : s.clean = some s') :
    s'.provider = s.provider ∧ s'.releaser = s.releaser := by
  unfold State.clean at hstep
  split at hstep
  case h_1 | h_2 => cases hstep
  case h_4 =>
    split_ifs at hstep
    obtain rfl := Option.some.inj hstep
    exact ⟨rfl, rfl⟩
  all_goals
    obtain rfl := Option.some.inj hstep
    exact ⟨rfl, rfl⟩

/-- The first call of `finish` takes the cleanup over. -/
theorem Inv.exchange (h : s.Inv) (hopen : s.cleanup = .isOpen) {status : ℕ}
    (hdone : status = 200 → s.Done) : { s with cleanup := .storing status }.Inv := by
  have hframe : s.CallerFrame { s with cleanup := .storing status } := by
    refine ⟨rfl, rfl, rfl, rfl, id, rfl, fun _ => by simp, .inl ⟨rfl, ?_⟩⟩
    rw [hopen]
    exact id
  refine ⟨⟨h.queue.pending, h.queue.accepted, h.queue.written, h.queue.whole,
      fun _ => .inl (by simp)⟩, ⟨h.owned.worker, h.owned.provider⟩, h.synthesis.of_caller hframe,
    ⟨?_, ?_, ?_⟩, ⟨h.closing.provider.mono hframe rfl id, h.closing.releaser.mono hframe id,
      fun hstatus => ?_⟩⟩
  · exact h.counted.recorded.trans (by rw [hopen]; rfl)
  · exact h.counted.jobs.trans (by rw [hopen]; rfl)
  · exact h.counted.released.trans (by rw [hopen]; rfl)
  · exact hframe.done id (hdone (Option.some.inj hstatus))

/-- A step of a call of `finish`: afterwards the cleanup is not before its start. -/
theorem Inv.runFinish (h : s.Inv) {call : FinishPc} {next : State × Option FinishPc}
    (hfacts : ∀ status, call = .entering status → status = 200 → s.cleanup ≠ .isOpen ∨ s.Done)
    (hstep : s.runFinish call = some next) :
    next.1.Inv ∧ next.1.provider = s.provider ∧ next.1.releaser = s.releaser ∧
      (∀ status, call = .entering status → next.1.cleanup ≠ .isOpen) ∧
        (next.2 = none ∨ next.2 = some .cleaning) := by
  cases call with
  | entering status =>
      rw [State.runFinish] at hstep
      split_ifs at hstep with hopen
      · obtain rfl := Option.some.inj hstep
        refine ⟨h.exchange hopen fun hstatus => ?_, rfl, rfl, fun _ _ => by simp, .inr rfl⟩
        exact (hfacts status rfl hstatus).resolve_left (fun hne => hne hopen)
      · obtain rfl := Option.some.inj hstep
        exact ⟨h, rfl, rfl, fun _ _ => hopen, .inl rfl⟩
  | cleaning =>
      rw [State.runFinish] at hstep
      split at hstep
      case h_1 | h_2 =>
        obtain rfl := Option.some.inj hstep
        exact ⟨h, rfl, rfl, (fun _ hcall => by cases hcall), .inl rfl⟩
      case h_3 =>
        obtain ⟨s₁, hclean, rfl⟩ := Option.map_eq_some_iff.1 hstep
        obtain ⟨hprovider, hreleaser⟩ := clean_callers hclean
        exact ⟨h.clean hclean, hprovider, hreleaser, (fun _ hcall => by cases hcall), .inr rfl⟩

theorem Inv.runReleaser (h : s.Inv) (hstep : s.runReleaser = some s') : s'.Inv := by
  have hfacts := h.closing.releaser
  unfold State.runReleaser at hstep
  split at hstep
  case h_1 => cases hstep
  case h_2 pc =>
    rw [pc] at hfacts
    split_ifs at hstep with haborted <;> obtain rfl := Option.some.inj hstep
    · exact h.gotoReleaser fun hstatus => by cases hstatus
    · refine h.gotoReleaser ?_
      rcases hfacts with hopen | hset | ⟨hfinished, hend⟩
      · exact .inl hopen
      · exact absurd hset haborted
      · -- the worker has ended, and none of its flags but `failed` tells of a failure
        have hphase := h.synthesis.phase
        rw [h.synthesis.finished.1 hfinished] at hphase
        rcases hphase with hfailed | hset | hopen | hcomplete
        · exact .inr ⟨hfinished, .inl hfailed⟩
        · exact absurd hset haborted
        · exact .inl hopen
        · exact .inr ⟨hfinished, hend.imp_right fun hdrained => ⟨hdrained, hcomplete⟩⟩
  case h_3 pc =>
    rw [pc] at hfacts
    obtain rfl := Option.some.inj hstep
    refine h.gotoReleaser fun hstatus => ?_
    have hnot : s.failed ≠ true := fun hfailed => by
      rw [if_pos hfailed] at hstatus
      cases hstatus
    rcases hfacts with hopen | ⟨hfinished, hend⟩
    · exact .inl hopen
    · obtain ⟨hdrained, hcomplete⟩ := hend.resolve_left hnot
      exact .inr ⟨hfinished, hcomplete, hdrained⟩
  case h_4 call pc =>
    obtain ⟨next, hfinish, rfl⟩ := Option.map_eq_some_iff.1 hstep
    have hcall : ∀ status, call = .entering status → status = 200 →
        s.cleanup ≠ .isOpen ∨ s.Done := by
      rintro status rfl hstatus
      rw [pc] at hfacts
      exact hfacts hstatus
    obtain ⟨hinv, -, -, -, hnext⟩ := h.runFinish hcall hfinish
    refine hinv.gotoReleaser ?_
    rcases hnext with hnext | hnext
    · rw [hnext]
      trivial
    · rw [hnext]
      trivial

/-- The provider takes the first chunk. -/
theorem Inv.take (h : s.Inv) (pc : s.provider = .looking) {chunk : Bytes} {chunks : List Bytes}
    (hchunks : s.chunks = chunk :: chunks) :
    { s with
      mtx := none, provider := .writing chunk, chunks := chunks
      pendingBytes := s.pendingBytes - chunk.length
      output := { s.output with taken := s.output.taken ++ [chunk] } }.Inv := by
  let s' : State :=
    { s with
      mtx := none, provider := .writing chunk, chunks := chunks
      pendingBytes := s.pendingBytes - chunk.length
      output := { s.output with taken := s.output.taken ++ [chunk] } }
  have hframe : s.CallerFrame s' := ⟨rfl, rfl, rfl, rfl, id, rfl, id, .inl ⟨rfl, id⟩⟩
  have hdrained (hs : s.Drained) : s'.Drained := by
    have hnil := hs.1
    rw [hchunks] at hnil
    cases hnil
  have howned : { s with mtx := none, provider := .writing chunk }.Owned :=
    h.owned.leave (by rw [pc]; rfl) rfl
  have hflight : s.provider.inFlight = [] := by
    rw [pc]
    rfl
  have hwritten := h.queue.written
  have hwhole := h.queue.whole
  rw [hflight, List.append_nil] at hwritten hwhole
  refine ⟨⟨?_, ?_, hwritten.append (List.Sublist.refl [chunk]), fun hnot => ?_, fun hyes => ?_⟩,
    ⟨howned.worker, howned.provider⟩, h.synthesis.of_caller hframe,
    ⟨h.counted.recorded, h.counted.jobs, h.counted.released⟩,
    ⟨trivial, h.closing.releaser.mono hframe hdrained, fun hstatus => ?_⟩⟩
  · change s.pendingBytes - chunk.length = (chunks.map List.length).sum
    rw [h.queue.pending, hchunks, List.map_cons, List.sum_cons, Nat.add_sub_cancel_left]
  · change s.intake.accepted = s.output.taken ++ [chunk] ++ chunks
    rw [h.queue.accepted, hchunks, List.append_assoc, List.singleton_append]
  · change s.output.taken ++ [chunk] = s.output.written ++ [chunk]
    rw [hwhole hnot]
  · refine .inl ((h.queue.refused hyes).resolve_right ?_)
    rw [pc]
    simp
  · exact hframe.done hdrained (h.closing.cleanup hstatus)

/-- The sink has the chunk. -/
theorem Inv.wrote (h : s.Inv) {chunk : Bytes} (pc : s.provider = .writing chunk) :
    { s with
      provider := .idle
      output := { s.output with written := s.output.written ++ [chunk] } }.Inv := by
  let s' : State :=
    { s with
      provider := .idle
      output := { s.output with written := s.output.written ++ [chunk] } }
  have hframe : s.CallerFrame s' := ⟨rfl, rfl, rfl, rfl, id, rfl, id, .inl ⟨rfl, id⟩⟩
  have hdrained (hs : s.Drained) : s'.Drained := by
    have hflight := hs.2.2
    rw [pc] at hflight
    cases hflight
  have howned : { s with provider := .idle }.Owned := h.owned.goto (by rw [pc]; rfl)
  have hwritten := h.queue.written
  have hwhole := h.queue.whole
  rw [pc, ProviderPc.inFlight] at hwritten hwhole
  refine ⟨⟨h.queue.pending, h.queue.accepted, ?_, fun hnot => ?_, fun hyes => ?_⟩,
    ⟨howned.worker, howned.provider⟩, h.synthesis.of_caller hframe,
    ⟨h.counted.recorded, h.counted.jobs, h.counted.released⟩,
    ⟨trivial, h.closing.releaser.mono hframe hdrained, fun hstatus => ?_⟩⟩
  · change (s.output.written ++ [chunk] ++ []).Sublist s.output.taken
    rwa [List.append_nil]
  · change s.output.taken = s.output.written ++ [chunk] ++ []
    rw [List.append_nil, hwhole hnot]
  · refine .inl ((h.queue.refused hyes).resolve_right ?_)
    rw [pc]
    simp
  · exact hframe.done hdrained (h.closing.cleanup hstatus)

/-- The sink has refused the chunk. -/
theorem Inv.refuse (h : s.Inv) {chunk : Bytes} (pc : s.provider = .writing chunk) :
    { s with
      provider := .finish (.entering 499)
      output := { s.output with refused := true } }.Inv := by
  let s' : State :=
    { s with
      provider := .finish (.entering 499)
      output := { s.output with refused := true } }
  have hframe : s.CallerFrame s' := ⟨rfl, rfl, rfl, rfl, id, rfl, id, .inl ⟨rfl, id⟩⟩
  have hdrained (hs : s.Drained) : s'.Drained := by
    have hflight := hs.2.2
    rw [pc] at hflight
    cases hflight
  have howned : { s with provider := .finish (.entering 499) }.Owned :=
    h.owned.goto (by rw [pc]; rfl)
  have hwritten := h.queue.written
  rw [pc, ProviderPc.inFlight] at hwritten
  refine ⟨⟨h.queue.pending, h.queue.accepted, ?_, fun hnot => ?_, fun _ => .inr rfl⟩,
    ⟨howned.worker, howned.provider⟩, h.synthesis.of_caller hframe,
    ⟨h.counted.recorded, h.counted.jobs, h.counted.released⟩,
    ⟨fun hstatus => ?_, h.closing.releaser.mono hframe hdrained, fun hstatus => ?_⟩⟩
  · change (s.output.written ++ []).Sublist s.output.taken
    rw [List.append_nil]
    exact (List.sublist_append_left _ _).trans hwritten
  · cases hnot
  · cases hstatus
  · exact hframe.done hdrained (h.closing.cleanup hstatus)

theorem Inv.runProvider (h : s.Inv) {timedOut sinkAccepts : Bool}
    (hstep : s.runProvider timedOut sinkAccepts = some s') : s'.Inv := by
  have hfacts := h.closing.provider
  unfold State.runProvider at hstep
  split at hstep
  case h_1 => cases hstep
  case h_2 pc =>
    obtain ⟨s₁, hlock, rfl⟩ := Option.map_eq_some_iff.1 hstep
    obtain ⟨hfree, rfl⟩ := lock_eq_some.1 hlock
    exact h.goto (h.owned.acquire hfree rfl) (by rw [pc]; rfl) rfl (by simp [pc]) trivial
  case h_3 pc =>
    split_ifs at hstep <;> obtain rfl := Option.some.inj hstep
    · exact h.goto (h.owned.goto (by rw [pc]; rfl)) (by rw [pc]; rfl) rfl (by simp [pc]) trivial
    · exact h.goto (h.owned.leave (by rw [pc]; rfl) rfl) (by rw [pc]; rfl) rfl (by simp [pc]) trivial
  case h_4 pc =>
    split at hstep
    · rename_i chunk chunks hchunks
      obtain rfl := Option.some.inj hstep
      exact h.take pc hchunks
    · rename_i hchunks
      obtain rfl := Option.some.inj hstep
      exact h.goto (h.owned.goto (by rw [pc]; rfl)) (by rw [pc]; rfl) rfl (by simp [pc]) hchunks
  case h_5 pc =>
    rw [pc] at hfacts
    split_ifs at hstep with hfinished <;> obtain rfl := Option.some.inj hstep
    · exact h.goto (h.owned.goto (by rw [pc]; rfl)) (by rw [pc]; rfl) rfl (by simp [pc])
        ⟨hfacts, hfinished⟩
    · exact h.goto (h.owned.leave (by rw [pc]; rfl) rfl) (by rw [pc]; rfl) rfl (by simp [pc]) trivial
  case h_6 pc =>
    rw [pc] at hfacts
    obtain rfl := Option.some.inj hstep
    exact h.goto (h.owned.goto (by rw [pc]; rfl)) (by rw [pc]; rfl) rfl (by simp [pc])
      ⟨hfacts.1, hfacts.2, rfl⟩
  case h_7 failed pc =>
    rw [pc] at hfacts
    obtain ⟨hchunks, hfinished, rfl⟩ := hfacts
    obtain rfl := Option.some.inj hstep
    refine h.goto (h.owned.leave (by rw [pc]; rfl) rfl) (by rw [pc]; rfl) rfl (by simp [pc])
      fun hstatus => ?_
    have haborted : s.aborted ≠ true := fun hset => by
      rw [if_pos hset] at hstatus
      cases hstatus
    have hfailed : s.failed ≠ true := fun hset => by
      rw [if_neg haborted, if_pos hset] at hstatus
      cases hstatus
    -- the worker has ended, nothing tells of a failure, and the queue is empty
    have hphase := h.synthesis.phase
    rw [h.synthesis.finished.1 hfinished] at hphase
    rcases hphase with hset | hset | hopen | hcomplete
    · exact absurd hset hfailed
    · exact absurd hset haborted
    · exact .inl hopen
    · by_cases hrefused : s.output.refused = true
      · refine .inl ((h.queue.refused hrefused).resolve_right ?_)
        rw [pc]
        simp
      · exact .inr ⟨hfinished, hcomplete, hchunks, Bool.eq_false_iff.2 hrefused, rfl⟩
  case h_8 chunk pc =>
    split_ifs at hstep <;> obtain rfl := Option.some.inj hstep
    · exact h.wrote pc
    · exact h.refuse pc
  case h_9 call pc =>
    obtain ⟨next, hfinish, rfl⟩ := Option.map_eq_some_iff.1 hstep
    have hcall : ∀ status, call = .entering status → status = 200 →
        s.cleanup ≠ .isOpen ∨ s.Done := by
      rintro status rfl hstatus
      rw [pc] at hfacts
      exact hfacts hstatus
    obtain ⟨hinv, hprovider, -, hopen, hnext⟩ := h.runFinish hcall hfinish
    have hbefore : next.1.provider.inFlight = [] := by rw [hprovider, pc]; rfl
    have hrefused : next.1.provider = .finish (.entering 499) → next.1.cleanup ≠ .isOpen := by
      intro hentering
      rw [hprovider, pc] at hentering
      exact hopen 499 (ProviderPc.finish.inj hentering)
    rcases hnext with hnext | hnext
    · rw [hnext]
      exact hinv.goto (hinv.owned.goto (by rw [hprovider, pc]; rfl)) hbefore rfl
        (fun hentering => .inl (hrefused hentering)) trivial
    · rw [hnext]
      exact hinv.goto (hinv.owned.goto (by rw [hprovider, pc]; rfl)) hbefore rfl
        (fun hentering => .inl (hrefused hentering)) trivial

theorem inv_initial : ({} : State).Inv where
  queue := ⟨rfl, rfl, .slnil, fun _ => rfl, fun hyes => by cases hyes⟩
  owned := ⟨by decide, by decide⟩
  synthesis :=
    ⟨by decide, ⟨fun _ => rfl, fun _ => rfl, fun _ => rfl, (fun hyes => by cases hyes)⟩,
      fun hyes => by cases hyes⟩
  counted := ⟨rfl, rfl, rfl⟩
  closing := ⟨trivial, trivial, fun hstatus => by cases hstatus⟩

theorem inv_step {action : Action} (h : s.Inv) (hcloses : s.ReleasesClosed action)
    (hstep : s.step action = some s') : s'.Inv := by
  cases action with
  | deliver data =>
      unfold step at hstep
      dsimp only at hstep
      split at hstep
      · rename_i pc
        obtain rfl := Option.some.inj hstep
        exact h.of_worker (.deliver data pc)
      · cases hstep
  | synthesized outcome =>
      unfold step at hstep
      dsimp only at hstep
      split at hstep
      · rename_i pc
        exact h.of_worker (.synthesized outcome pc hstep)
      · cases hstep
  | work outOfMemory => exact h.of_worker (.work outOfMemory hstep)
  | provide =>
      unfold step at hstep
      dsimp only at hstep
      split at hstep
      · rename_i pc
        obtain rfl := Option.some.inj hstep
        exact h.goto (h.owned.goto (by rw [pc]; rfl)) (by rw [pc]; rfl) rfl (by simp [pc]) trivial
      · cases hstep
  | runProvider timedOut sinkAccepts => exact h.runProvider hstep
  | release success =>
      unfold step at hstep
      dsimp only at hstep
      split at hstep
      · obtain rfl := Option.some.inj hstep
        cases success with
        | true => exact h.gotoReleaser (hcloses rfl)
        | false => exact h.gotoReleaser fun hstatus => by cases hstatus
      · cases hstep
  | runReleaser => exact h.runReleaser hstep
  | cancel =>
      obtain rfl := Option.some.inj hstep
      exact h.cancel

/-! ### What follows -/

theorem Inv.complete (h : s.Inv) (hrecorded : 200 ∈ s.output.recorded) :
    ∃ result, s.intake.result = some result ∧
      s.output.written.flatten = expected s.intake.passed result := by
  have hdone : s.Done := by
    apply h.closing.cleanup
    rw [h.counted.recorded] at hrecorded
    cases hcleanup : s.cleanup with
    | finishingJob status | releasing status | closed status =>
        rw [hcleanup] at hrecorded
        rw [Cleanup.status, List.mem_singleton.1 hrecorded]
    | isOpen | storing status | joining status | recording status =>
        rw [hcleanup] at hrecorded
        cases hrecorded
  obtain ⟨hchunks, hrefused, hflight⟩ := hdone.drained
  obtain ⟨result, hresult, haccepted⟩ := hdone.complete
  have hwhole := h.queue.whole hrefused
  rw [hflight, List.append_nil] at hwhole
  have hall := h.queue.accepted
  rw [hchunks, List.append_nil, hwhole] at hall
  exact ⟨result, hresult, by rw [← hall, haccepted]⟩

/-- Only the first stage of the cleanup may withdraw `aborted`. -/
theorem clean_stopped (hstored : s.aborted = true → s.cleanup.storedAbort = true)
    (hstopped : s.stopped = true) (hstep : s.clean = some s') : s'.stopped = true := by
  unfold State.clean at hstep
  split at hstep
  case h_1 | h_2 => cases hstep
  case h_3 status hcleanup =>
    obtain rfl := Option.some.inj hstep
    rw [stopped, Bool.or_eq_true] at hstopped ⊢
    rcases hstopped with haborted | hcancelled
    · have hset := hstored haborted
      rw [hcleanup] at hset
      cases hset
    · exact .inr hcancelled
  case h_4 =>
    split_ifs at hstep
    obtain rfl := Option.some.inj hstep
    exact hstopped
  all_goals
    obtain rfl := Option.some.inj hstep
    exact hstopped

theorem runFinish_stopped (hstored : s.aborted = true → s.cleanup.storedAbort = true)
    (hstopped : s.stopped = true) {call : FinishPc} {next : State × Option FinishPc}
    (hstep : s.runFinish call = some next) : next.1.stopped = true := by
  unfold State.runFinish at hstep
  split at hstep
  · split_ifs at hstep <;> obtain rfl := Option.some.inj hstep
    · exact hstopped
    · exact hstopped
  · split at hstep
    · obtain rfl := Option.some.inj hstep
      exact hstopped
    · obtain rfl := Option.some.inj hstep
      exact hstopped
    · obtain ⟨s₁, hclean, rfl⟩ := Option.map_eq_some_iff.1 hstep
      exact clean_stopped hstored hstopped hclean

theorem WorkerFrame.stopped (hframe : s.WorkerFrame s') (hstopped : s.stopped = true) :
    s'.stopped = true := by
  rw [State.stopped, Bool.or_eq_true] at hstopped ⊢
  rw [hframe.cancelled]
  exact hstopped.imp_left hframe.aborted

/-- While the callback waits, the stream stays stopped. -/
theorem Inv.stays (h : s.Inv) (hblocked : s.Blocked) (hstopped : s.stopped = true) {action : Action}
    (hstep : s.step action = some s') : s'.stopped = true := by
  have hstored : s.aborted = true → s.cleanup.storedAbort = true := by
    intro haborted
    rcases hblocked with ⟨chunk, pc⟩ | ⟨chunk, pc⟩
    · simpa [pc] using h.synthesis.aborted haborted
    · simpa [pc] using h.synthesis.aborted haborted
  have hworker (hs : s.WorkerStep s') : s'.stopped = true :=
    (workerFrame h.owned hs).stopped hstopped
  cases action with
  | deliver data =>
      unfold step at hstep
      dsimp only at hstep
      split at hstep
      · rename_i pc
        obtain rfl := Option.some.inj hstep
        exact hworker (.deliver data pc)
      · cases hstep
  | synthesized outcome =>
      unfold step at hstep
      dsimp only at hstep
      split at hstep
      · rename_i pc
        exact hworker (.synthesized outcome pc hstep)
      · cases hstep
  | work outOfMemory => exact hworker (.work outOfMemory hstep)
  | provide =>
      unfold step at hstep
      dsimp only at hstep
      split at hstep
      · obtain rfl := Option.some.inj hstep
        exact hstopped
      · cases hstep
  | runProvider timedOut sinkAccepts =>
      simp only [step] at hstep
      unfold State.runProvider at hstep
      split at hstep
      case h_1 => cases hstep
      case h_2 =>
        obtain ⟨s₁, hlock, rfl⟩ := Option.map_eq_some_iff.1 hstep
        obtain ⟨-, rfl⟩ := lock_eq_some.1 hlock
        exact hstopped
      case h_3 | h_5 | h_8 =>
        split_ifs at hstep <;> obtain rfl := Option.some.inj hstep
        · exact hstopped
        · exact hstopped
      case h_4 =>
        split at hstep <;> obtain rfl := Option.some.inj hstep
        · exact hstopped
        · exact hstopped
      case h_6 | h_7 =>
        obtain rfl := Option.some.inj hstep
        exact hstopped
      case h_9 =>
        obtain ⟨next, hfinish, rfl⟩ := Option.map_eq_some_iff.1 hstep
        exact runFinish_stopped hstored hstopped hfinish
  | release success =>
      unfold step at hstep
      dsimp only at hstep
      split at hstep
      · obtain rfl := Option.some.inj hstep
        exact hstopped
      · cases hstep
  | runReleaser =>
      simp only [step] at hstep
      unfold State.runReleaser at hstep
      split at hstep
      case h_1 => cases hstep
      case h_2 =>
        split_ifs at hstep <;> obtain rfl := Option.some.inj hstep
        · exact hstopped
        · exact hstopped
      case h_3 =>
        obtain rfl := Option.some.inj hstep
        exact hstopped
      case h_4 =>
        obtain ⟨next, hfinish, rfl⟩ := Option.map_eq_some_iff.1 hstep
        exact runFinish_stopped hstored hstopped hfinish
  | cancel =>
      obtain rfl := Option.some.inj hstep
      simp [stopped]

/-- Steps of the provider after which it does not have the mutex. -/
def UnlocksIn (n : ℕ) (s : State) : Prop :=
  ∃ actions s', exec step s actions = some s' ∧ s'.mtx = none ∧ s'.worker = s.worker ∧
    s'.stopped = s.stopped ∧ actions.length ≤ n ∧
      ∀ action ∈ actions, action = .runProvider true true

theorem UnlocksIn.of_step {s₁ : State} {n : ℕ} (h : s₁.UnlocksIn n)
    (hstep : s.step (.runProvider true true) = some s₁) (hworker : s₁.worker = s.worker)
    (hstopped : s₁.stopped = s.stopped) : s.UnlocksIn (n + 1) := by
  obtain ⟨actions, s', hexec, hmtx, hpc, hsame, hlength, hactions⟩ := h
  refine ⟨.runProvider true true :: actions, s', exec_cons_eq_some_iff.2 ⟨s₁, hstep, hexec⟩, hmtx,
    hpc.trans hworker, hsame.trans hstopped, Nat.succ_le_succ hlength, ?_⟩
  exact List.forall_mem_cons.2 ⟨rfl, hactions⟩

theorem UnlocksIn.now {n : ℕ} (h : s.mtx = none) : s.UnlocksIn n :=
  ⟨[], s, rfl, h, rfl, rfl, Nat.zero_le n, fun _ hmem => absurd hmem List.not_mem_nil⟩

/-- The provider gives the mutex back, from wherever it has it. -/
theorem provider_unlocks (hholds : s.provider.holds = true) : s.UnlocksIn 5 := by
  have haborted {s : State} {failed : Bool} (pc : s.provider = .abortedRead failed) {n : ℕ} :
      s.UnlocksIn (n + 1) := by
    have hstep : s.step (.runProvider true true) = some { s.unlock with
        provider := .finish (.entering (if s.aborted then 499 else if failed then 500 else 200)) } := by
      simp only [step, State.runProvider, pc]
    exact UnlocksIn.of_step (.now rfl) hstep rfl rfl
  have hfailed {s : State} (pc : s.provider = .failedRead) {n : ℕ} : s.UnlocksIn (n + 2) := by
    refine UnlocksIn.of_step (haborted (s := { s with provider := .abortedRead s.failed }) rfl)
      ?_ rfl rfl
    simp only [step, State.runProvider, pc]
  have hchecking {s : State} (pc : s.provider = .checking) {n : ℕ} : s.UnlocksIn (n + 3) := by
    cases hfinished : s.finished with
    | true =>
        refine UnlocksIn.of_step (hfailed (s := { s with provider := .failedRead }) rfl) ?_ rfl rfl
        simp only [step, State.runProvider, pc, hfinished, if_true]
    | false =>
        have hstep : s.step (.runProvider true true) = some { s.unlock with provider := .idle } := by
          simp only [step, State.runProvider, pc, hfinished, Bool.false_eq_true, if_false]
        exact UnlocksIn.of_step (.now rfl) hstep rfl rfl
  have hlooking {s : State} (pc : s.provider = .looking) {n : ℕ} : s.UnlocksIn (n + 4) := by
    cases hchunks : s.chunks with
    | nil =>
        refine UnlocksIn.of_step (hchecking (s := { s with provider := .checking }) rfl) ?_ rfl rfl
        simp only [step, State.runProvider, pc, hchunks]
    | cons chunk chunks =>
        have hstep : s.step (.runProvider true true) = some { s.unlock with
            provider := .writing chunk
            chunks := chunks
            pendingBytes := s.pendingBytes - chunk.length
            output := { s.output with taken := s.output.taken ++ [chunk] } } := by
          simp only [step, State.runProvider, pc, hchunks]
        exact UnlocksIn.of_step (.now rfl) hstep rfl rfl
  cases pc : s.provider with
  | testing =>
      refine UnlocksIn.of_step (hlooking (s := { s with provider := .looking }) rfl) ?_ rfl rfl
      simp only [step, State.runProvider, pc, Bool.or_true, if_true]
  | looking => exact hlooking pc
  | checking => exact hchecking pc
  | failedRead => exact hfailed pc
  | abortedRead failed => exact haborted pc
  | idle | locking | writing chunk | finish call =>
      rw [pc] at hholds
      cases hholds

theorem Inv.leaves (h : s.Inv) (hblocked : s.Blocked) (hstopped : s.stopped = true) :
    ∃ actions s', exec step s actions = some s' ∧ ¬s'.Blocked ∧ actions.length ≤ 7 ∧
      ∀ action ∈ actions, action = .runProvider true true ∨ action = .work false := by
  have htest {s : State} {chunk : Bytes} (pc : s.worker = .testing chunk)
      (hstopped : s.stopped = true) :
      ∃ s', s.step (.work false) = some s' ∧ ¬s'.Blocked := by
    refine ⟨{ s with worker := .queueing chunk }, ?_, by simp [Blocked]⟩
    simp only [step, State.work, pc]
    rw [hstopped]
    rfl
  have hwait {s : State} {chunk : Bytes} (pc : s.worker = .waiting chunk) (hfree : s.mtx = none)
      (hstopped : s.stopped = true) :
      ∃ s', exec step s [.work false, .work false] = some s' ∧ ¬s'.Blocked := by
    have hlock : s.step (.work false) =
        some { s with mtx := some .worker, worker := .testing chunk } := by
      simp only [step, State.work, pc, lock, if_pos hfree]
      rfl
    obtain ⟨s', hstep, hnot⟩ :=
      htest (s := { s with mtx := some .worker, worker := .testing chunk }) rfl hstopped
    refine ⟨s', exec_cons_eq_some_iff.2 ⟨_, hlock, exec_cons_eq_some_iff.2 ⟨s', hstep, rfl⟩⟩, hnot⟩
  rcases hblocked with ⟨chunk, pc⟩ | ⟨chunk, pc⟩
  · obtain ⟨s', hstep, hnot⟩ := htest pc hstopped
    refine ⟨[.work false], s', exec_cons_eq_some_iff.2 ⟨s', hstep, rfl⟩, hnot, by simp, ?_⟩
    simp
  · by_cases hfree : s.mtx = none
    · obtain ⟨s', hexec, hnot⟩ := hwait pc hfree hstopped
      exact ⟨_, s', hexec, hnot, by simp, by simp⟩
    · -- the worker waits, so it is the provider that has the mutex
      have hheld : s.mtx = some .provider := by
        cases hmtx : s.mtx with
        | none => exact absurd hmtx hfree
        | some party =>
            cases party with
            | provider => rfl
            | worker =>
                have hholds := h.owned.worker.1 hmtx
                rw [pc] at hholds
                cases hholds
      obtain ⟨actions, s₁, hfirst, hmtx, hpc, hsame, hlength, hactions⟩ :=
        provider_unlocks (h.owned.provider.1 hheld)
      obtain ⟨s', hexec, hnot⟩ := hwait (hpc.trans pc) hmtx (hsame.trans hstopped)
      refine ⟨actions ++ [.work false, .work false], s',
        exec_append_eq_some_iff.2 ⟨s₁, hfirst, hexec⟩, hnot, ?_, fun action haction => ?_⟩
      · rw [List.length_append]
        simpa using hlength
      · rcases List.mem_append.1 haction with hmem | hmem
        · exact .inl (hactions action hmem)
        · exact .inr (by simpa using hmem)

theorem Inv.sound (h : s.Inv) : s.Sound := by
  have hrecorded : s.cleanup.recorded.length ≤ 1 := by
    cases s.cleanup <;> simp [Cleanup.recorded]
  have hjobs : s.cleanup.jobs.length ≤ 1 := by
    cases s.cleanup <;> simp [Cleanup.jobs]
  have hreleased : s.cleanup.released ≤ 1 := by
    cases s.cleanup <;> simp [Cleanup.released]
  refine ⟨?_, fun _ => h.queue.pending, fun chunk hchunk => ?_, h.complete, ?_, ?_, ?_,
    fun status hclosed => ⟨?_, ?_, ?_⟩, fun hblocked hstopped =>
      ⟨h.leaves hblocked hstopped, fun _ _ hstep => h.stays hblocked hstopped hstep⟩⟩
  · rw [h.queue.accepted]
    exact ((List.sublist_append_left _ _).trans h.queue.written).trans
      (List.sublist_append_left _ _)
  · rw [h.queue.pending]
    exact List.single_le_sum (fun _ _ => Nat.zero_le _) _ (List.mem_map_of_mem hchunk)
  · rw [h.counted.recorded]
    exact hrecorded
  · rw [h.counted.jobs]
    exact hjobs
  · rw [h.counted.released]
    exact hreleased
  · rw [h.counted.recorded, hclosed]
    rfl
  · rw [h.counted.jobs, hclosed]
    rfl
  · rw [h.counted.released, hclosed]
    rfl

/-- Speech streaming loses nothing in a run whose releaser is called with success only when the
stream is closed. -/
theorem speechStream_sound (actions : List Action) (h : Meets step ReleasesClosed {} actions) :
    Always step Sound {} actions :=
  h.always (fun _ hs => hs.sound) (fun _ _ _ hs hcloses hstep => inv_step hs hcloses hstep)
    inv_initial

/-- The backend passes a chunk, which is written, and returns. -/
def wholeStream : List Action :=
  [.deliver (some [1]), .work false, .work false, .work false, .work false, .provide,
    .runProvider false true, .runProvider false true, .runProvider false true,
    .runProvider false true, .synthesized (.result []), .work false, .work false, .provide,
    .runProvider false true, .runProvider false true, .runProvider false true,
    .runProvider false true, .runProvider false true, .runProvider false true,
    .runProvider false true, .runProvider false true, .runProvider false true,
    .runProvider false true, .release true]

theorem wholeStream_sound : Always step Sound {} wholeStream :=
  speechStream_sound wholeStream (by decide)

/-- The chunk provider's loop ends in success while the first chunk is in the queue, as it does when
the server is shut down. -/
def interruptedStream : List Action :=
  [.deliver (some [1]), .work false, .work false, .work false, .work false, .release true,
    .runReleaser, .runReleaser, .runReleaser, .runReleaser, .synthesized (.result []), .work false,
    .work false, .runReleaser, .runReleaser]

theorem interruptedStream_loses :
    ¬∀ actions : List Action, Always step Sound {} actions := by
  intro hall
  have hrun : ((exec step {} interruptedStream).map fun s => (s.output, s.intake)) =
      some ({ recorded := [200] }, { passed := [[1]], result := some [], accepted := [[1]] }) := by
    decide +kernel
  obtain ⟨s, hexec, hs⟩ := Option.map_eq_some_iff.1 hrun
  obtain ⟨houtput, hintake⟩ := Prod.mk.inj hs
  have hcomplete := (hall interruptedStream interruptedStream s List.prefix_rfl hexec).complete
  rw [houtput, hintake] at hcomplete
  obtain ⟨result, -, hwritten⟩ := hcomplete List.mem_cons_self
  cases hwritten

end State

end InferDeck.Gateway.SpeechStream
