import InferDeck.Execution
import InferDeck.FiniteMap
import InferDeck.ModelInfo

/-!
# The cancel of a swap

`swap_to_cancellable` looks at one flag before and during the load and resets it when it returns,
except where the model is ready already, is unknown, or a sidecar's load throws. The route that
cancels asks the tracker and the coordinator whether a swap is in progress and then sets the flag.
A cancel is to reach the swap that was reported to it, and no later one.

The flag is kept as the requests since its last reset: it is set while there are any. A request
knows the swap that was reported for it, and whether that swap has seen the flag set.
-/

namespace InferDeck.Gateway.SwapCancel

open InferDeck.Foundation InferDeck.Model

/-- Where a call is. `returned` is back in `perform_swap`, or in the caller of a swap that the
tracker has no part in. -/
inductive CallPc where
  | launched
  | entered
  | sidecarCheck
  | sidecarLoading
  | readyCheck
  | startCheck
  | storing
  | loadCheck
  | loading
  | clearing (result : Result Unit)
  | resetting (result : Result Unit)
  | returned (result : Result Unit)
  | finished
  deriving DecidableEq

structure SwapCall where
  name : String
  tracked : Bool
  pc : CallPc
  /-- The calls that had finished when this one started. -/
  after : List ℕ
  deriving DecidableEq

structure CancelRequest where
  swap : ℕ
  seen : Bool := false
  deriving DecidableEq

/-- Where a cancel route is: before the tracker's snapshot, before the look at the coordinator, or
with a swap reported to it. -/
inductive CancelPc where
  | snapshot
  | coordinator
  | reported (swap : ℕ)
  | answered
  deriving DecidableEq

structure World where
  registry : ModelRegistry
  requests : List CancelRequest := []
  /-- `swap_in_progress_`: the call that has set it. -/
  inProgress : Option ℕ := none
  /-- The tracker's `swapping`: the call of its task. -/
  swapping : Option ℕ := none
  calls : Map ℕ SwapCall := ∅
  nextCall : ℕ := 0
  cancels : Map ℕ CancelPc := ∅

inductive Action where
  | start (name : String) (tracked : Bool)
  | launchFails (id : ℕ)
  /-- The next step of a call; `ready` is the answer of `is_ready`. -/
  | step (id : ℕ) (ready : Bool)
  /-- The load asks `control.is_cancelled`. -/
  | poll (id : ℕ)
  /-- The load returns, or throws. -/
  | loaded (id : ℕ) (outcome : Option (Result Unit))
  | cancel (id : ℕ)
  | cancelStep (id : ℕ)

namespace World

variable (w : World)

def swapCancel : Bool := !w.requests.isEmpty

def goto (id : ℕ) (call : SwapCall) (pc : CallPc) : World :=
  { w with calls := w.calls.insert id { call with pc } }

def resetSwapCancel : World := { w with requests := [] }

def look (id : ℕ) : World :=
  { w with
    requests := w.requests.map fun r => if r.swap = id then { r with seen := true } else r }

def finishedCalls : List ℕ :=
  (w.calls.entries.filter fun e => decide (e.2.pc = .finished)).map Sigma.fst

/-- The tracker takes one task at a time. -/
def start (name : String) (tracked : Bool) : Option World :=
  if tracked && w.swapping.isSome then none
  else
    some { w with
      swapping := if tracked then some w.nextCall else w.swapping
      calls := w.calls.insert w.nextCall
        { name, tracked, pc := if tracked then .launched else .entered, after := w.finishedCalls }
      nextCall := w.nextCall + 1 }

/-- One of the three looks at the flag before a load. -/
def check (id : ℕ) (call : SwapCall) (refused proceeds : CallPc) : World :=
  (w.look id).goto id call (if w.swapCancel then refused else proceeds)

def cancelled (message : String) : Result Unit := err .cancelled message

def step (id : ℕ) (call : SwapCall) (ready : Bool) : Option World :=
  match call.pc with
  | .launched => some (w.goto id call .entered)
  | .entered =>
      match w.registry.getInfoResult call.name with
      | .error e => some (w.goto id call (.returned (err e.code e.message)))
      | .ok info =>
          some (w.goto id call (if isIndependentSidecar info then .sidecarCheck else .readyCheck))
  | .sidecarCheck =>
      some (w.check id call (.resetting (cancelled "swap cancelled before sidecar load"))
        .sidecarLoading)
  | .readyCheck =>
      some (w.goto id call (if ready then .returned (.ok ()) else .startCheck))
  | .startCheck =>
      some (w.check id call (.resetting (cancelled "swap cancelled before start")) .storing)
  | .storing => some { w.goto id call .loadCheck with inProgress := some id }
  | .loadCheck =>
      some (w.check id call (.clearing (cancelled "swap cancelled before load")) .loading)
  | .clearing result => some { w.goto id call (.resetting result) with inProgress := none }
  | .resetting result => some (w.resetSwapCancel.goto id call (.returned result))
  | .returned _ =>
      some { w.goto id call .finished with
        swapping := if call.tracked then none else w.swapping }
  | .sidecarLoading | .loading | .finished => none

def loaded (id : ℕ) (call : SwapCall) (outcome : Option (Result Unit)) : Option World :=
  match call.pc, outcome with
  | .sidecarLoading, some result => some (w.goto id call (.resetting result))
  | .sidecarLoading, none =>
      some (w.goto id call (.returned (err .internal "swap threw unknown exception")))
  | .loading, some result => some (w.goto id call (.clearing result))
  | .loading, none => some (w.goto id call (.clearing (err .internal "swap threw")))
  | _, _ => none

def polls (call : SwapCall) : Bool :=
  decide (call.pc = .sidecarLoading) || decide (call.pc = .loading)

def cancelStep (id : ℕ) : CancelPc → Option World
  | .snapshot =>
      let pc := match w.swapping with
        | some swap => CancelPc.reported swap
        | none => .coordinator
      some { w with cancels := w.cancels.insert id pc }
  | .coordinator =>
      let pc := match w.inProgress with
        | some swap => CancelPc.reported swap
        | none => .answered
      some { w with cancels := w.cancels.insert id pc }
  | .reported swap =>
      some { w with
        requests := w.requests ++ [{ swap }]
        cancels := w.cancels.insert id .answered }
  | .answered => none

def next (w : World) : Action → Option World
  | .start name tracked => w.start name tracked
  | .launchFails id => (w.calls.lookup id).bind fun call =>
      if call.pc = .launched then
        some { w.goto id call .finished with swapping := none }
      else none
  | .step id ready => (w.calls.lookup id).bind fun call => w.step id call ready
  | .poll id => (w.calls.lookup id).bind fun call => if polls call then some (w.look id) else none
  | .loaded id outcome => (w.calls.lookup id).bind fun call => w.loaded id call outcome
  | .cancel id =>
      if w.cancels.contains id then none
      else some { w with cancels := w.cancels.insert id .snapshot }
  | .cancelStep id => (w.cancels.lookup id).bind fun pc => w.cancelStep id pc

def initial (registry : ModelRegistry) : World := { registry }

def checks (pc : CallPc) : Bool :=
  decide (pc = .sidecarCheck) || decide (pc = .startCheck) || decide (pc = .loadCheck)

def LooksAt (id : ℕ) (call : SwapCall) : Action → Prop
  | .step id' _ => id' = id ∧ checks call.pc = true
  | .poll id' => id' = id ∧ polls call = true
  | _ => False

def resets (pc : CallPc) : Bool :=
  match pc with
  | .resetting _ => true
  | _ => false

/-- The swap has returned, and is not reported any more. -/
def Finished (w : World) (id : ℕ) : Prop :=
  ∃ call, w.calls.lookup id = some call ∧ call.pc = .finished

/-- What is promised of a step: a call that sees the flag set started before the swap that any of
the requests was for had finished, and a call that resets the flag erases no request for another
swap that has not seen it and has not finished. -/
structure CancelLaw (w : World) (a : Action) : Prop where
  hits : ∀ id call, w.calls.lookup id = some call → LooksAt id call a →
    ∀ r ∈ w.requests, r.swap ∉ call.after
  erases : ∀ id call ready, w.calls.lookup id = some call → a = .step id ready →
    resets call.pc = true → ∀ r ∈ w.requests, r.swap = id ∨ r.seen = true ∨ w.Finished r.swap

def willReset (pc : CallPc) : Bool :=
  match pc with
  | .returned _ | .finished => false
  | _ => true

/-- The call's step is a return without a reset. -/
def returnsEarly (call : SwapCall) (ready : Bool) : Bool :=
  decide (call.pc = .entered) && !w.registry.entries.contains call.name ||
    decide (call.pc = .readyCheck) && ready

def noRequest (id : ℕ) : Bool := w.requests.all fun r => decide (r.swap ≠ id)

/-- The call has stored `swap_in_progress_`, or is about to return. -/
def pastStore (pc : CallPc) : Bool :=
  match pc with
  | .loadCheck | .loading | .clearing _ | .resetting _ | .returned _ | .finished => true
  | _ => false

/-- The call may have been reported to a cancel route. -/
def mayBeReported (call : SwapCall) : Bool := call.tracked || pastStore call.pc

/-- No other call that may have been reported has yet to reset the flag. -/
def alone (id : ℕ) : Bool :=
  w.calls.entries.all fun e =>
    decide (e.1 = id) || !(mayBeReported e.2 && willReset e.2.pc)

/-- A request comes before the reset of the swap that was reported to it, no swap with a request
returns early, and no call resets the flag, if it is set, while another that may have been reported
has yet to reset it. -/
def calm : Action → Bool
  | .cancelStep id =>
      match w.cancels.lookup id with
      | some (.reported swap) => (w.calls.lookup swap).any fun call => willReset call.pc
      | _ => true
  | .launchFails id => w.noRequest id
  | .step id ready =>
      (w.calls.lookup id).all fun call =>
        (!w.returnsEarly call ready || w.noRequest id) &&
          (!resets call.pc || !w.swapCancel || w.alone id)
  | .loaded id outcome =>
      (w.calls.lookup id).all fun call =>
        !(decide (call.pc = .sidecarLoading) && outcome.isNone) || w.noRequest id
  | _ => true

/-- The swap is what a look at the tracker or the coordinator reports, or has reported to a route
that has not made its request. -/
def Reported (w : World) (swap : ℕ) : Prop :=
  w.swapping = some swap ∨ w.inProgress = some swap ∨
    ∃ route, w.cancels.lookup route = some (.reported swap)

/-- The swap of every request has yet to reset the flag, only calls that may be reported are, and a
call that is named as finished before another is. -/
structure Sound (w : World) : Prop where
  requests : ∀ r ∈ w.requests, ∃ call, w.calls.lookup r.swap = some call ∧
    mayBeReported call = true ∧ willReset call.pc = true
  reported : ∀ swap, w.Reported swap →
    ∃ call, w.calls.lookup swap = some call ∧ mayBeReported call = true
  after : ∀ id call, w.calls.lookup id = some call → ∀ swap ∈ call.after, w.Finished swap
  fresh : ∀ id call, w.calls.lookup id = some call → id < w.nextCall

variable {w w' : World} {id : ℕ} {call : SwapCall}

theorem sound_initial (registry : ModelRegistry) : Sound (initial registry) :=
  ⟨by simp [initial], by simp [initial, Reported], by simp [initial], by simp [initial]⟩

theorem mayBeReported_goto {pc : CallPc} (hpast : pastStore call.pc = true → pastStore pc = true)
    (h : mayBeReported call = true) : mayBeReported { call with pc } = true := by
  unfold mayBeReported at h ⊢
  rcases Bool.or_eq_true_iff.1 h with htracked | hstored
  · exact Bool.or_eq_true_iff.2 (.inl htracked)
  · exact Bool.or_eq_true_iff.2 (.inr (hpast hstored))

/-- What a step of a call keeps: the call moves on, no request is made, no other call is reported,
and where the call is done with the flag there is no request for it. -/
theorem Sound.move (h : w.Sound) (hcall : w.calls.lookup id = some call) {pc : CallPc}
    (hrunning : call.pc ≠ .finished) (hpast : pastStore call.pc = true → pastStore pc = true)
    (hcalls : w'.calls = w.calls.insert id { call with pc })
    (hnext : w'.nextCall = w.nextCall)
    (hrequests : ∀ r ∈ w'.requests, ∃ r' ∈ w.requests, r'.swap = r.swap)
    (hreported : ∀ swap, w'.Reported swap → w.Reported swap ∨ swap = id ∧ pastStore pc = true)
    (hpc : willReset pc = true ∨ ∀ r ∈ w'.requests, r.swap ≠ id) : w'.Sound := by
  have hfinished (swap : ℕ) (hswap : w.Finished swap) : w'.Finished swap := by
    obtain ⟨other, hother, hdone⟩ := hswap
    have hne : swap ≠ id := by
      rintro rfl
      rw [hcall, Option.some.injEq] at hother
      exact hrunning (hother ▸ hdone)
    exact ⟨other, by rw [hcalls, AList.lookup_insert_ne hne, hother], hdone⟩
  have hknown (swap : ℕ) (hswap : ∃ other, w.calls.lookup swap = some other ∧
      mayBeReported other = true) : ∃ other, w'.calls.lookup swap = some other ∧
        mayBeReported other = true := by
    obtain ⟨other, hother, hmay⟩ := hswap
    by_cases hid : swap = id
    · rw [hid, hcall, Option.some.injEq] at hother
      exact ⟨{ call with pc }, by rw [hcalls, hid, AList.lookup_insert],
        mayBeReported_goto hpast (hother ▸ hmay)⟩
    · exact ⟨other, by rw [hcalls, AList.lookup_insert_ne hid, hother], hmay⟩
  refine ⟨fun r hr => ?_, fun swap hswap => ?_, fun other call' hother swap hswap => ?_,
    fun other call' hother => ?_⟩
  · obtain ⟨r', hr', hsame⟩ := hrequests r hr
    obtain ⟨call', hcall', hmay, hwill⟩ := h.requests r' hr'
    rw [hsame] at hcall'
    by_cases hid : r.swap = id
    · rcases hpc with hpc | hpc
      · rw [hid, hcall, Option.some.injEq] at hcall'
        exact ⟨{ call with pc }, by rw [hcalls, hid, AList.lookup_insert],
          mayBeReported_goto hpast (hcall' ▸ hmay), hpc⟩
      · exact absurd hid (hpc r hr)
    · exact ⟨call', by rw [hcalls, AList.lookup_insert_ne hid, hcall'], hmay, hwill⟩
  · rcases hreported swap hswap with hbefore | ⟨rfl, hstored⟩
    · exact hknown swap (h.reported swap hbefore)
    · exact ⟨{ call with pc }, by rw [hcalls, AList.lookup_insert],
        Bool.or_eq_true_iff.2 (.inr hstored)⟩
  · rw [hcalls] at hother
    by_cases hid : other = id
    · rw [hid, AList.lookup_insert, Option.some.injEq] at hother
      subst hother
      exact hfinished swap (h.after id call hcall swap hswap)
    · rw [AList.lookup_insert_ne hid] at hother
      exact hfinished swap (h.after other call' hother swap hswap)
  · rw [hcalls] at hother
    rw [hnext]
    by_cases hid : other = id
    · exact hid ▸ h.fresh id call hcall
    · rw [AList.lookup_insert_ne hid] at hother
      exact h.fresh other call' hother

theorem look_swap {r : CancelRequest} (h : r ∈ (w.look id).requests) :
    ∃ r' ∈ w.requests, r'.swap = r.swap := by
  obtain ⟨r', hr', rfl⟩ := List.mem_map.1 h
  refine ⟨r', hr', ?_⟩
  split_ifs <;> rfl

/-- A change of nothing but the routes, to which no other call is reported. -/
theorem Sound.of_eq (h : w.Sound) (hrequests : ∀ r ∈ w'.requests, ∃ r' ∈ w.requests, r'.swap = r.swap)
    (hreported : ∀ swap, w'.Reported swap → w.Reported swap)
    (hcalls : w'.calls = w.calls) (hnext : w'.nextCall = w.nextCall) : w'.Sound := by
  refine ⟨fun r hr => ?_, fun swap hswap => ?_, fun other call' hother swap hswap => ?_,
    fun other call' hother => ?_⟩
  · obtain ⟨r', hr', hsame⟩ := hrequests r hr
    rw [hcalls, ← hsame]
    exact h.requests r' hr'
  · rw [hcalls]
    exact h.reported swap (hreported swap hswap)
  · rw [hcalls] at hother
    obtain ⟨done, hdone, hpc⟩ := h.after other call' hother swap hswap
    exact ⟨done, by rw [hcalls, hdone], hpc⟩
  · rw [hcalls] at hother
    rw [hnext]
    exact h.fresh other call' hother

/-- A call that is past its reset has no request. -/
theorem Sound.noRequest (h : w.Sound) (hcall : w.calls.lookup id = some call)
    (hpc : willReset call.pc = false) {r : CancelRequest} (hr : r ∈ w.requests) : r.swap ≠ id := by
  rintro rfl
  obtain ⟨call', hcall', _, hwill⟩ := h.requests r hr
  rw [hcall, Option.some.injEq] at hcall'
  rw [← hcall', hpc] at hwill
  cases hwill

theorem finishedCalls_finished {swap : ℕ} (h : swap ∈ w.finishedCalls) : w.Finished swap := by
  obtain ⟨⟨swap', call⟩, hmem, rfl⟩ := List.mem_map.1 h
  obtain ⟨hentry, hdone⟩ := List.mem_filter.1 hmem
  exact ⟨call, Map.mem_entries_iff.1 hentry, by simpa using hdone⟩

theorem Sound.start (h : w.Sound) {name : String} {tracked : Bool}
    (hstart : w.start name tracked = some w') : w'.Sound := by
  rw [World.start] at hstart
  by_cases hbusy : (tracked && w.swapping.isSome) = true
  · rw [if_pos hbusy] at hstart
    cases hstart
  rw [if_neg hbusy, Option.some.injEq] at hstart
  subst hstart
  have hnew : w.calls.lookup w.nextCall = none := by
    cases hlookup : w.calls.lookup w.nextCall with
    | none => rfl
    | some call => exact absurd (h.fresh _ call hlookup) (lt_irrefl _)
  have hkeeps {swap : ℕ} {call : SwapCall} (hswap : w.calls.lookup swap = some call) :
      swap ≠ w.nextCall := by
    rintro rfl
    rw [hnew] at hswap
    cases hswap
  have hfinished {swap : ℕ} (hswap : w.Finished swap) (other : SwapCall) :
      ∃ call, (w.calls.insert w.nextCall other).lookup swap = some call ∧ call.pc = .finished := by
    obtain ⟨call, hcall, hpc⟩ := hswap
    exact ⟨call, by rw [AList.lookup_insert_ne (hkeeps hcall), hcall], hpc⟩
  refine ⟨fun r hr => ?_, fun swap hswap => ?_, fun other call hother swap hswap => ?_,
    fun other call hother => ?_⟩
  · obtain ⟨call, hcall, hwill⟩ := h.requests r hr
    exact ⟨call, by rw [AList.lookup_insert_ne (hkeeps hcall), hcall], hwill⟩
  · have hbefore : w.Reported swap ∨ swap = w.nextCall ∧ tracked = true := by
      rcases hswap with hswapping | hswap
      · cases tracked with
        | false => exact .inl (.inl hswapping)
        | true => exact .inr ⟨(Option.some.inj hswapping).symm, rfl⟩
      · exact .inl (.inr hswap)
    rcases hbefore with hbefore | ⟨rfl, rfl⟩
    · obtain ⟨call, hcall, hmay⟩ := h.reported swap hbefore
      exact ⟨call, by rw [AList.lookup_insert_ne (hkeeps hcall), hcall], hmay⟩
    · exact ⟨_, AList.lookup_insert _, rfl⟩
  · by_cases hid : other = w.nextCall
    · rw [hid, AList.lookup_insert, Option.some.injEq] at hother
      subst hother
      exact hfinished (finishedCalls_finished hswap) _
    · rw [AList.lookup_insert_ne hid] at hother
      exact hfinished (h.after other call hother swap hswap) _
  · by_cases hid : other = w.nextCall
    · exact hid ▸ Nat.lt_succ_self _
    · rw [AList.lookup_insert_ne hid] at hother
      exact (h.fresh other call hother).trans (Nat.lt_succ_self _)

/-- A step of a call that makes no request. -/
theorem Sound.goto (h : w.Sound) (hcall : w.calls.lookup id = some call) {pc : CallPc}
    (hrunning : call.pc ≠ .finished) (hpast : pastStore call.pc = true → pastStore pc = true)
    (hpc : willReset pc = true ∨ w.noRequest id = true) : (w.goto id call pc).Sound := by
  refine h.move hcall hrunning hpast rfl rfl (fun r hr => ⟨r, hr, rfl⟩) (fun _ => .inl) ?_
  rcases hpc with hpc | hpc
  · exact .inl hpc
  · exact .inr fun r hr => by simpa using List.all_eq_true.1 hpc r hr

theorem Sound.look (h : w.Sound) : (w.look id).Sound :=
  h.of_eq (fun _ hr => look_swap hr) (fun _ hswap => hswap) rfl rfl

theorem Sound.check (h : w.Sound) (hcall : w.calls.lookup id = some call) {refused proceeds : CallPc}
    (hrunning : call.pc ≠ .finished)
    (hpast : pastStore call.pc = true → pastStore refused = true ∧ pastStore proceeds = true)
    (hrefused : willReset refused = true) (hproceeds : willReset proceeds = true) :
    (w.check id call refused proceeds).Sound := by
  refine Sound.goto h.look hcall hrunning (fun hstored => ?_) (.inl ?_)
  · cases w.swapCancel
    · exact (hpast hstored).2
    · exact (hpast hstored).1
  · cases w.swapCancel
    · exact hproceeds
    · exact hrefused

theorem getInfoResult_error {registry : ModelRegistry} {name : String} {e : Error}
    (h : registry.getInfoResult name = .error e) : registry.entries.contains name = false := by
  rw [ModelRegistry.getInfoResult] at h
  cases hlookup : registry.entries.lookup name with
  | some info =>
      rw [hlookup] at h
      cases h
  | none => rw [Map.contains, hlookup, Option.isSome_none]

theorem Sound.step (h : w.Sound) (hcall : w.calls.lookup id = some call) {ready : Bool}
    (hcalm : w.calm (.step id ready) = true) (hstep : w.step id call ready = some w') :
    w'.Sound := by
  have hearly : w.returnsEarly call ready = true → w.noRequest id = true := by
    intro hearly
    have hboth := hcalm
    simp only [calm, hcall, Option.all_some, hearly, Bool.not_true, Bool.false_or,
      Bool.and_eq_true] at hboth
    exact hboth.1
  cases hpc : call.pc with
  | finished | sidecarLoading | loading => simp [World.step, hpc] at hstep
  | launched =>
      rw [World.step, hpc, Option.some.injEq] at hstep
      exact hstep ▸ h.goto hcall (by simp [hpc]) (by simp [hpc, pastStore]) (.inl rfl)
  | entered =>
      rw [World.step, hpc] at hstep
      cases hinfo : w.registry.getInfoResult call.name with
      | error e =>
          rw [hinfo, Option.some.injEq] at hstep
          refine hstep ▸ h.goto hcall (by simp [hpc]) (by simp [hpc, pastStore]) (.inr (hearly ?_))
          simp [returnsEarly, hpc, getInfoResult_error hinfo]
      | ok info =>
          rw [hinfo, Option.some.injEq] at hstep
          refine hstep ▸ h.goto hcall (by simp [hpc]) (by simp [hpc, pastStore]) (.inl ?_)
          cases isIndependentSidecar info <;> rfl
  | sidecarCheck | startCheck =>
      rw [World.step, hpc, Option.some.injEq] at hstep
      exact hstep ▸ h.check hcall (by simp [hpc]) (by simp [hpc, pastStore]) rfl rfl
  | loadCheck =>
      rw [World.step, hpc, Option.some.injEq] at hstep
      exact hstep ▸ h.check hcall (by simp [hpc]) (fun _ => ⟨rfl, rfl⟩) rfl rfl
  | readyCheck =>
      rw [World.step, hpc, Option.some.injEq] at hstep
      refine hstep ▸ h.goto hcall (by simp [hpc]) (by simp [hpc, pastStore]) ?_
      cases ready with
      | false => exact .inl rfl
      | true => exact .inr (hearly (by simp [returnsEarly, hpc]))
  | storing =>
      rw [World.step, hpc, Option.some.injEq] at hstep
      subst hstep
      refine h.move hcall (by simp [hpc]) (fun _ => rfl) rfl rfl (fun r hr => ⟨r, hr, rfl⟩)
        (fun swap hswap => ?_) (.inl rfl)
      rcases hswap with hswapping | hprogress | hroute
      · exact .inl (.inl hswapping)
      · exact .inr ⟨(Option.some.inj hprogress).symm, rfl⟩
      · exact .inl (.inr (.inr hroute))
  | clearing result =>
      rw [World.step, hpc, Option.some.injEq] at hstep
      subst hstep
      refine h.move hcall (by simp [hpc]) (fun _ => rfl) rfl rfl (fun r hr => ⟨r, hr, rfl⟩)
        (fun swap hswap => .inl ?_) (.inl rfl)
      rcases hswap with hswapping | hprogress | hroute
      · exact .inl hswapping
      · cases hprogress
      · exact .inr (.inr hroute)
  | resetting result =>
      rw [World.step, hpc, Option.some.injEq] at hstep
      subst hstep
      exact h.move hcall (by simp [hpc]) (fun _ => rfl) rfl rfl (fun r hr => nomatch hr)
        (fun _ hswap => .inl hswap) (.inr fun r hr => nomatch hr)
  | returned result =>
      rw [World.step, hpc, Option.some.injEq] at hstep
      subst hstep
      refine h.move hcall (by simp [hpc]) (fun _ => rfl) rfl rfl (fun r hr => ⟨r, hr, rfl⟩)
        (fun swap hswap => .inl ?_) (.inr fun r hr => h.noRequest hcall (by rw [hpc]; rfl) hr)
      rcases hswap with hswapping | hswap
      · dsimp only at hswapping
        split_ifs at hswapping
        exact .inl hswapping
      · exact .inr hswap

theorem Sound.loaded (h : w.Sound) (hcall : w.calls.lookup id = some call)
    {outcome : Option (Result Unit)} (hcalm : w.calm (.loaded id outcome) = true)
    (hstep : w.loaded id call outcome = some w') : w'.Sound := by
  have hreaches {pc : CallPc} (hstored : pastStore pc = true) (hpc : willReset pc = true)
      (hrunning : call.pc ≠ .finished) (hstep : some (w.goto id call pc) = some w') : w'.Sound :=
    Option.some.inj hstep ▸ h.goto hcall hrunning (fun _ => hstored) (.inl hpc)
  unfold World.loaded at hstep
  split at hstep
  case h_1 hpc => exact hreaches rfl rfl (by simp [hpc]) hstep
  case h_2 hpc =>
    -- a sidecar's load that throws leaves the call without a reset
    have hnone : w.noRequest id = true := by simpa [calm, hcall, hpc] using hcalm
    rw [Option.some.injEq] at hstep
    exact hstep ▸ h.goto hcall (by simp [hpc]) (fun _ => rfl) (.inr hnone)
  case h_3 hpc => exact hreaches rfl rfl (by simp [hpc]) hstep
  case h_4 hpc => exact hreaches rfl rfl (by simp [hpc]) hstep
  case h_5 => cases hstep

/-- A route that goes on to what a look has reported, or to nothing. -/
theorem Sound.route (h : w.Sound) {pc : CancelPc}
    (hreported : ∀ swap, pc = .reported swap → w.Reported swap) :
    ({ w with cancels := w.cancels.insert id pc } : World).Sound := by
  refine h.of_eq (fun r hr => ⟨r, hr, rfl⟩) (fun swap hswap => ?_) rfl rfl
  rcases hswap with hswapping | hprogress | ⟨route, hroute⟩
  · exact .inl hswapping
  · exact .inr (.inl hprogress)
  · by_cases hid : route = id
    · rw [hid, AList.lookup_insert, Option.some.injEq] at hroute
      exact hreported swap hroute
    · rw [AList.lookup_insert_ne hid] at hroute
      exact .inr (.inr ⟨route, hroute⟩)

theorem Sound.cancelStep (h : w.Sound) {pc : CancelPc} (hcancel : w.cancels.lookup id = some pc)
    (hcalm : w.calm (.cancelStep id) = true) (hstep : w.cancelStep id pc = some w') :
    w'.Sound := by
  cases pc with
  | answered => cases hstep
  | snapshot =>
      rw [World.cancelStep, Option.some.injEq] at hstep
      refine hstep ▸ h.route fun swap hswap => .inl ?_
      cases hswapping : w.swapping with
      | none => simp [hswapping] at hswap
      | some other => simpa [hswapping] using hswap
  | coordinator =>
      rw [World.cancelStep, Option.some.injEq] at hstep
      refine hstep ▸ h.route fun swap hswap => .inr (.inl ?_)
      cases hprogress : w.inProgress with
      | none => simp [hprogress] at hswap
      | some other => simpa [hprogress] using hswap
  | reported swap =>
      obtain ⟨call, hcall, hwill⟩ : ∃ call, w.calls.lookup swap = some call ∧
          willReset call.pc = true := by
        simpa [calm, hcancel, Option.any_eq_true] using hcalm
      obtain ⟨call', hcall', hmay⟩ := h.reported swap (.inr (.inr ⟨id, hcancel⟩))
      rw [hcall, Option.some.injEq] at hcall'
      subst hcall'
      rw [World.cancelStep, Option.some.injEq] at hstep
      subst hstep
      have hanswered : ({ w with cancels := w.cancels.insert id .answered } : World).Sound :=
        h.route fun swap' hswap => nomatch hswap
      refine ⟨fun r hr => ?_, hanswered.reported, hanswered.after, hanswered.fresh⟩
      rcases List.mem_append.1 hr with hr | hr
      · exact h.requests r hr
      · rw [List.mem_singleton.1 hr]
        exact ⟨call, hcall, hmay, hwill⟩

/-- A step that meets the condition keeps every request with a swap that has yet to reset. -/
theorem Sound.next (h : w.Sound) {a : Action} (hcalm : w.calm a = true)
    (hnext : w.next a = some w') : w'.Sound := by
  cases a with
  | start name tracked => exact h.start hnext
  | launchFails id =>
      obtain ⟨call, hcall, hstep⟩ := Option.bind_eq_some_iff.1 hnext
      by_cases hpc : call.pc = .launched
      · rw [if_pos hpc, Option.some.injEq] at hstep
        subst hstep
        refine h.move hcall (by simp [hpc]) (fun _ => rfl) rfl rfl (fun r hr => ⟨r, hr, rfl⟩)
          (fun swap hswap => .inl ?_) (.inr fun r hr => ?_)
        · rcases hswap with hswapping | hswap
          · cases hswapping
          · exact .inr hswap
        · simpa using List.all_eq_true.1 hcalm r hr
      · rw [if_neg hpc] at hstep
        cases hstep
  | step id ready =>
      obtain ⟨call, hcall, hstep⟩ := Option.bind_eq_some_iff.1 hnext
      exact h.step hcall hcalm hstep
  | poll id =>
      obtain ⟨call, hcall, hstep⟩ := Option.bind_eq_some_iff.1 hnext
      by_cases hpolls : polls call = true
      · rw [if_pos hpolls, Option.some.injEq] at hstep
        exact hstep ▸ h.look
      · rw [if_neg hpolls] at hstep
        cases hstep
  | loaded id outcome =>
      obtain ⟨call, hcall, hstep⟩ := Option.bind_eq_some_iff.1 hnext
      exact h.loaded hcall hcalm hstep
  | cancel id =>
      rw [World.next] at hnext
      by_cases hknown : w.cancels.contains id = true
      · rw [if_pos hknown] at hnext
        cases hnext
      · rw [if_neg hknown, Option.some.injEq] at hnext
        exact hnext ▸ h.route fun swap hswap => nomatch hswap
  | cancelStep id =>
      obtain ⟨pc, hcancel, hstep⟩ := Option.bind_eq_some_iff.1 hnext
      exact h.cancelStep hcancel hcalm hstep

/-- A reset with no other call to be reset finds no request but the call's own. -/
theorem Sound.own_of_alone (h : w.Sound) (halone : w.alone id = true) {r : CancelRequest}
    (hr : r ∈ w.requests) : r.swap = id := by
  obtain ⟨call, hcall, hmay, hwill⟩ := h.requests r hr
  have hother := List.all_eq_true.1 halone ⟨r.swap, call⟩ (Map.mem_entries_iff.2 hcall)
  simpa [hmay, hwill] using hother

/-- No swap that started after another has finished sees a request for it, and a reset erases no
request that its swap may still need. -/
theorem Sound.cancelLaw (h : w.Sound) {a : Action} (hcalm : w.calm a = true) : w.CancelLaw a := by
  refine ⟨fun id call hcall _ r hr hafter => ?_, fun id call ready hcall ha hresets r hr => ?_⟩
  · obtain ⟨swap, hswap, hdone⟩ := h.after id call hcall r.swap hafter
    exact h.noRequest hswap (by rw [hdone]; rfl) hr rfl
  · subst ha
    have hset : w.swapCancel = true := by
      cases hrequests : w.requests with
      | nil =>
          rw [hrequests] at hr
          cases hr
      | cons first rest => simp [swapCancel, hrequests]
    have halone : w.alone id = true := by
      have hboth := hcalm
      simp only [calm, hcall, Option.all_some, hresets, hset, Bool.not_true, Bool.false_or,
        Bool.and_eq_true] at hboth
      exact hboth.2
    exact .inl (h.own_of_alone halone hr)

end World

open SwapCancel.World Execution

/-- In every run whose steps meet the condition, a cancel reaches the swap that was reported to it
and no later one, and is not erased before. -/
theorem cancel_reachesItsSwap (registry : ModelRegistry) (actions : List Action)
    (h : Meets World.next (fun w a => w.calm a = true) (initial registry) actions) :
    Meets World.next CancelLaw (initial registry) actions :=
  Meets.of_invariant (fun _ _ _ hsound hcalm hnext => hsound.next hcalm hnext)
    (fun _ _ hsound hcalm => hsound.cancelLaw hcalm) (sound_initial registry) h

private def twoModels : ModelRegistry where
  entries := ((∅ : Map String ModelInfo).insert "first" { name := "first" }).insert "second"
    { name := "second" }
  factories := ["llama_cpp"]

private def upToLoad (id : ℕ) : List Action :=
  List.replicate 6 (.step id false)

/-- A swap that is cancelled during its load, and the next one, which is not. -/
theorem cancel_reachesItsSwap_first :
    Meets World.next CancelLaw (initial twoModels)
      (.start "first" true :: (upToLoad 0 ++
        [.cancel 0, .cancelStep 0, .cancelStep 0, .poll 0,
          .loaded 0 (some (err .cancelled "load cancelled")), .step 0 false, .step 0 false,
          .step 0 false, .start "second" true] ++ upToLoad 1 ++ [.poll 1])) :=
  cancel_reachesItsSwap twoModels _ (by decide +kernel)

/-- The first swap loads and finishes between the route's look at the tracker and its request. -/
private def lateRequest : List Action :=
  .start "first" true :: (upToLoad 0 ++
    [.cancel 0, .cancelStep 0, .loaded 0 (some (.ok ())), .step 0 false, .step 0 false,
      .step 0 false, .cancelStep 0, .start "second" true, .step 1 false, .step 1 false,
      .step 1 false])

/-- The next swap is refused for the request that was for the first. -/
theorem lateRequest_hitsNextSwap :
    ¬ Meets World.next CancelLaw (initial twoModels) (lateRequest ++ [.step 1 false]) := by
  intro hlaw
  have hrun : (exec World.next (initial twoModels) lateRequest).map
      (fun w => (w.calls.lookup 1, w.requests)) =
      some (some ⟨"second", true, .startCheck, [0]⟩, [⟨0, false⟩]) := by decide +kernel
  obtain ⟨w, hexec, hw⟩ := Option.map_eq_some_iff.1 hrun
  obtain ⟨hcall, hrequests⟩ := Prod.mk.inj hw
  refine (hlaw.last hexec).hits 1 _ hcall ⟨rfl, rfl⟩ ⟨0, false⟩ ?_ List.mem_cons_self
  rw [hrequests]
  exact List.mem_cons_self

end InferDeck.Gateway.SwapCancel
