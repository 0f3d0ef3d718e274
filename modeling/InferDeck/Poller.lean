import InferDeck.Execution

/-!
# The poller of the dashboard

`createPoller` sends one request at a time, asks again after an interval, and drops what an aborted
request answers. Each of its functions runs to its end or to a wait before another one does: a wait
is for a load or for one of the callbacks `receive` and `failed`, which may call the poller, and the
callback of `finally` is a job of its own. `load` returns its promise and does not call the poller.
-/

namespace InferDeck.Dashboard

open InferDeck.Execution

/-- A request, and how many refreshes had been asked for when it was sent. -/
structure Request where
  id : ℕ
  refreshes : ℕ
  deriving DecidableEq

inductive RunPc where
  | loading (request : Request)
  /-- In the callback `receive` or `failed`. -/
  | receiving (request : Request)
  | failing (request : Request)
  /-- Over, with the callback of `finally` due. -/
  | settled
  deriving DecidableEq

def RunPc.request : RunPc → Option Request
  | .loading request | .receiving request | .failing request => some request
  | .settled => none

def RunPc.calls : RunPc → Option Request
  | .receiving request | .failing request => some request
  | .loading _ | .settled => none

structure Poller where
  stopped : Bool := false
  paused : Bool := false
  pending : Bool := false
  current : Bool := false
  controller : Option ℕ := none
  timer : Option ℕ := none
  requests : ℕ := 0
  aborted : Finset ℕ := ∅
  /-- The timers that have not fired and are not cleared. -/
  timers : Finset ℕ := ∅
  handles : ℕ := 0
  runs : List RunPc := []
  /-- How many refreshes were taken up, now and when the latest request was sent. -/
  refreshes : ℕ := 0
  sent : ℕ := 0

namespace Poller

variable (p : Poller)

def active : Bool := !p.stopped && !p.paused

def clearTimer : Poller :=
  { p with timers := p.timers.filter fun t => p.timer ≠ some t, timer := none }

def abort : Poller := { p with aborted := p.controller.toFinset ∪ p.aborted }

def send : Poller × RunPc :=
  ({ p with
      pending := false
      controller := some p.requests
      requests := p.requests + 1
      sent := p.refreshes },
    .loading { id := p.requests, refreshes := p.refreshes })

/-- The loop of `run` up to its next wait. -/
def loop : Poller × RunPc := if p.pending && p.active then p.send else (p, .settled)

def ask : Poller := abort { p.clearTimer with pending := true, refreshes := p.refreshes + 1 }

def refresh : Poller :=
  if p.active then
    if p.ask.current then p.ask
    else { p.ask.loop.1 with runs := p.ask.runs ++ [p.ask.loop.2], current := true }
  else p

def setPaused (value : Bool) : Poller :=
  if p.paused == value || p.stopped then p
  else
    let changed := clearTimer { p with paused := value }
    if value then changed.abort else changed.refresh

def stop : Poller := ({ p with stopped := true, pending := false }).clearTimer.abort

def setRun (i : ℕ) (pc : RunPc) : Poller := { p with runs := p.runs.set i pc }

def release (request : Request) : Poller :=
  { p with controller := if p.controller = some request.id then none else p.controller }

def nextTurn (i : ℕ) (request : Request) : Poller :=
  setRun ((p.release request).loop.1) i (p.release request).loop.2

/-- What the request answers still counts. -/
def heeds (request : Request) : Bool := p.active && decide (request.id ∉ p.aborted)

def answer (i : ℕ) (fulfilled : Bool) : Option Poller :=
  match p.runs[i]? with
  | some (.loading request) =>
      if p.heeds request then
        some (p.setRun i (if fulfilled then .receiving request else .failing request))
      else some (p.nextTurn i request)
  | _ => none

/-- `receive` returns or raises, and so does `failed`. -/
def received (i : ℕ) (raises : Bool) : Option Poller :=
  match p.runs[i]? with
  | some (.receiving request) =>
      if raises && p.heeds request then some (p.setRun i (.failing request))
      else some (p.nextTurn i request)
  | _ => none

def handled (i : ℕ) (raises : Bool) : Option Poller :=
  match p.runs[i]? with
  | some (.failing request) =>
      if raises then some ((p.release request).setRun i .settled)
      else some (p.nextTurn i request)
  | _ => none

/-- The callback of `finally`. -/
def settle (i : ℕ) : Option Poller :=
  match p.runs[i]? with
  | some .settled =>
      let idle := { p with runs := p.runs.eraseIdx i, current := false }
      if idle.active then
        if idle.pending then some idle.refresh
        else
          some { idle with
            timer := some idle.handles
            timers := insert idle.handles idle.timers
            handles := idle.handles + 1 }
      else some idle
  | _ => none

def fire (t : ℕ) : Option Poller :=
  if t ∈ p.timers then some ({ p with timers := p.timers.erase t }).refresh else none

inductive Action where
  | refresh
  | setPaused (value : Bool)
  | stop
  | answer (i : ℕ) (fulfilled : Bool)
  | received (i : ℕ) (raises : Bool)
  | handled (i : ℕ) (raises : Bool)
  | settle (i : ℕ)
  | fire (t : ℕ)
  deriving DecidableEq

/-- A step of `run`, and none that the poller is asked for. -/
def Action.isTurn : Action → Bool
  | .answer _ _ | .received _ _ | .handled _ _ | .settle _ => true
  | .refresh | .setPaused _ | .stop | .fire _ => false

def next : Action → Option Poller
  | .refresh => some p.refresh
  | .setPaused value => some (p.setPaused value)
  | .stop => some p.stop
  | .answer i fulfilled => p.answer i fulfilled
  | .received i raises => p.received i raises
  | .handled i raises => p.handled i raises
  | .settle i => p.settle i
  | .fire t => p.fire t

/-- What a maintainer asks of the poller. -/
structure Lawful : Prop where
  /-- One request at a time, and no timer beside it or beside another. -/
  single : p.runs.length ≤ 1 ∧ p.timers.card ≤ 1 ∧ (p.runs ≠ [] → p.timers = ∅)
  /-- After the first refresh it goes on until it is stopped or paused. -/
  going : 0 < p.refreshes → p.active = true → p.runs ≠ [] ∨ p.timers ≠ ∅
  quiet : p.active = false → p.timers = ∅
  /-- A callback is called only where the poller is active, on the answer to the latest refresh. -/
  latest : ∀ action p' (i : ℕ) (pc : RunPc) request, p.next action = some p' →
    p'.runs[i]? = some pc → pc.calls = some request → p.runs[i]? ≠ some pc →
    p.active = true ∧ request.refreshes = p.refreshes
  /-- A refresh that no request has answered yet has a turn of `run` ahead, which sends one, unless
  the turn after it does. -/
  heard : p.active = true → p.sent < p.refreshes → p.runs ≠ [] ∧
    ∀ action p', action.isTurn = true → p.next action = some p' → p'.sent = p'.refreshes ∨
      p.runs ≠ [.settled] ∧ p'.runs = [.settled] ∧ p'.active = true ∧ p'.sent < p'.refreshes

/-- What holds wherever the poller waits, before it is asked to go on. -/
structure Kept : Prop where
  current : p.runs.length = p.current.toNat
  timer : ∀ t ∈ p.timers, p.timer = some t
  idle : p.timers ≠ ∅ → p.runs = [] ∧ p.active = true ∧ p.pending = false
  controlled : ∀ pc ∈ p.runs, ∀ request, pc.request = some request →
    p.controller = some request.id
  owned : ∀ id, p.controller = some id → id < p.requests
  fresh : ∀ id ∈ p.aborted, id < p.requests
  heard : p.stopped = false → p.pending = true ∨ p.sent = p.refreshes

structure Inv : Prop extends Kept p where
  going : 0 < p.refreshes → p.active = true → p.runs ≠ [] ∨ p.timers ≠ ∅
  latest : ∀ pc ∈ p.runs, ∀ request, pc.request = some request → p.active = true →
    request.id ∉ p.aborted → p.pending = false ∧ request.refreshes = p.refreshes

variable {p : Poller} {i : ℕ} {pc : RunPc} {request : Request}

/-! ### What the functions do -/

theorem Kept.clearTimer_timers (h : p.Kept) : p.clearTimer.timers = ∅ :=
  Finset.filter_eq_empty_iff.2 fun t ht hne => hne (h.timer t ht)

theorem loop_of_turn (h : (p.pending && p.active) = true) : p.loop = p.send := if_pos h

theorem loop_of_rest (h : (p.pending && p.active) = false) : p.loop = (p, .settled) :=
  if_neg (by simp [h])

/-- The one run that there is. -/
theorem Kept.only (h : p.Kept) (hrun : p.runs[i]? = some pc) :
    p.runs = [pc] ∧ i = 0 ∧ p.current = true := by
  have hlength := h.current
  cases hruns : p.runs with
  | nil =>
      rw [hruns] at hrun
      simp at hrun
  | cons first rest =>
      rw [hruns] at hrun hlength
      cases hcurrent : p.current with
      | false => simp [hcurrent] at hlength
      | true =>
          obtain rfl : rest = [] := by simpa [hcurrent] using hlength
          rw [List.getElem?_singleton] at hrun
          split_ifs at hrun with hi
          obtain rfl := Option.some.inj hrun
          exact ⟨rfl, hi, rfl⟩

theorem Kept.ask (h : p.Kept) : p.ask.Kept where
  current := h.current
  timer t ht := absurd (h.clearTimer_timers ▸ ht) (Finset.notMem_empty t)
  idle hne := absurd h.clearTimer_timers hne
  controlled := h.controlled
  owned := h.owned
  fresh id hid := by
    rcases Finset.mem_union.1 hid with hid | hid
    · exact h.owned id (Option.mem_toFinset.1 hid)
    · exact h.fresh id hid
  heard _ := .inl rfl

theorem Inv.of_inactive (h : p.Kept) (hactive : p.active = false) : p.Inv :=
  { h with
    going := fun _ hgoes => absurd (hactive.symm.trans hgoes) (by simp)
    latest := fun _ _ _ _ hgoes => absurd (hactive.symm.trans hgoes) (by simp) }

/-- The poller with a request that has just been sent. -/
theorem Kept.send (h : p.Kept) (htimers : p.timers = ∅) :
    Inv { p.send.1 with runs := [p.send.2], current := true } where
  current := rfl
  timer t ht := absurd (htimers ▸ ht) (Finset.notMem_empty t)
  idle hne := absurd htimers hne
  controlled pc hpc request hrequest := by
    obtain rfl := List.mem_singleton.1 hpc
    obtain rfl := Option.some.inj hrequest
    rfl
  owned id hid := by
    obtain rfl := Option.some.inj hid
    exact Nat.lt_succ_self _
  fresh id hid := (h.fresh id hid).trans (Nat.lt_succ_self _)
  heard _ := .inr rfl
  going _ _ := .inl (List.cons_ne_nil _ _)
  latest pc hpc request hrequest _ _ := by
    obtain rfl := List.mem_singleton.1 hpc
    obtain rfl := Option.some.inj hrequest
    exact ⟨rfl, rfl⟩

theorem Kept.refresh (h : p.Kept) : p.refresh.Inv := by
  unfold Poller.refresh
  split_ifs with hactive hcurrent
  · have hlength := h.current
    have hruns : p.runs ≠ [] := by
      rintro hnil
      rw [hnil, show p.current = true from hcurrent] at hlength
      cases hlength
    refine { h.ask with going := fun _ _ => .inl hruns, latest := ?_ }
    intro pc hpc request hrequest _ hkept
    refine absurd (Finset.mem_union_left _ ?_) hkept
    exact Option.mem_toFinset.2 (h.controlled pc hpc request hrequest)
  · have hruns : p.ask.runs = [] := by
      have hlength := h.ask.current
      rw [Bool.eq_false_iff.2 hcurrent] at hlength
      exact List.length_eq_zero_iff.1 hlength
    have hturn : (p.ask.pending && p.ask.active) = true := by
      rw [show p.ask.active = true from hactive]
      rfl
    rw [loop_of_turn hturn, hruns]
    exact h.ask.send h.clearTimer_timers
  · exact .of_inactive h (Bool.eq_false_iff.2 hactive)

/-! ### The functions of the poller keep the invariant -/

theorem Kept.turned (h : p.Kept) {stopped paused pending : Bool}
    (hheard : stopped = false → pending = true ∨ p.sent = p.refreshes) :
    (clearTimer { p with stopped, paused, pending }).Kept :=
  { h with
    timer := fun t ht => absurd (h.clearTimer_timers ▸ ht) (Finset.notMem_empty t)
    idle := fun hne => absurd h.clearTimer_timers hne
    heard := hheard }

theorem Kept.abort (h : p.Kept) : p.abort.Kept :=
  { h with
    fresh := by
      intro id hid
      rcases Finset.mem_union.1 hid with hid | hid
      · exact h.owned id (Option.mem_toFinset.1 hid)
      · exact h.fresh id hid }

theorem Inv.setPaused (h : p.Inv) (value : Bool) : (p.setPaused value).Inv := by
  unfold Poller.setPaused
  split_ifs with hsame hvalue
  · exact h
  · exact .of_inactive (h.turned h.heard).abort (by simp [active, abort, Poller.clearTimer, hvalue])
  · exact (h.turned h.heard).refresh

theorem Inv.stop (h : p.Inv) : p.stop.Inv :=
  .of_inactive (h.turned fun hstopped => by cases hstopped).abort rfl

/-- The poller with its run taken out. -/
theorem Kept.emptied (h : p.Kept) (hrun : p.runs[i]? = some pc) (controller : Option ℕ)
    (howned : ∀ id, controller = some id → p.controller = some id) :
    Kept { p with controller, runs := [], current := false } ∧ p.timers = ∅ := by
  have htimers : p.timers = ∅ := by
    by_contra hne
    have hnil := (h.idle hne).1
    rw [hnil] at hrun
    cases hrun
  refine ⟨{ h with
    current := rfl
    idle := fun hne => absurd htimers hne
    controlled := fun _ hpc => absurd hpc List.not_mem_nil
    owned := fun id hid => h.owned id (howned id hid) }, htimers⟩

/-- The poller with its run over. -/
theorem Kept.over (h : Kept { p with runs := [], current := false }) (htimers : p.timers = ∅) :
    Inv { p with runs := [.settled], current := true } :=
  { h with
    current := rfl
    idle := fun hne => absurd htimers hne
    controlled := by
      intro pc hpc request hrequest
      obtain rfl := List.mem_singleton.1 hpc
      cases hrequest
    going := fun _ _ => .inl (List.cons_ne_nil _ _)
    latest := by
      intro pc hpc request hrequest
      obtain rfl := List.mem_singleton.1 hpc
      cases hrequest }

theorem Inv.nextTurn (h : p.Inv) (hrun : p.runs[i]? = some pc)
    (hrequest : pc.request = some request) : (p.nextTurn i request).Inv := by
  obtain ⟨hruns, rfl, hcurrent⟩ := h.only hrun
  have hcontrols := h.controlled pc (hruns ▸ List.mem_singleton_self pc) request hrequest
  obtain ⟨hkept, htimers⟩ := h.emptied hrun none (by simp)
  have hreleased : p.release request = { p with controller := none } := by
    simp [release, hcontrols]
  unfold Poller.nextTurn
  rw [hreleased]
  by_cases hturn : (p.pending && p.active) = true
  · have hloop := loop_of_turn (p := { p with controller := none }) hturn
    rw [hloop]
    have hinv := hkept.send htimers
    simpa only [setRun, Poller.send, hruns, List.set_cons_zero, hcurrent] using hinv
  · have hloop := loop_of_rest (p := { p with controller := none }) (Bool.eq_false_iff.2 hturn)
    rw [hloop]
    have hinv := Kept.over (p := { p with controller := none }) hkept htimers
    simpa only [setRun, hruns, List.set_cons_zero, hcurrent] using hinv

/-- The run goes to another place with its request. -/
theorem Inv.setRun (h : p.Inv) (hrun : p.runs[i]? = some pc) {pc' : RunPc}
    (hrequest : pc'.request = pc.request) : (p.setRun i pc').Inv := by
  obtain ⟨hruns, rfl, hcurrent⟩ := h.only hrun
  have hmem : pc ∈ p.runs := hruns ▸ List.mem_singleton_self pc
  have hset : (p.setRun 0 pc').runs = [pc'] := by simp [Poller.setRun, hruns]
  refine { h with current := ?_, idle := ?_, controlled := ?_, going := ?_, latest := ?_ }
  · rw [hset, show (p.setRun 0 pc').current = true from hcurrent]
    rfl
  · intro hne
    have hnil := (h.idle hne).1
    rw [hnil] at hruns
    cases hruns
  · intro pc'' hpc request hown
    rw [hset] at hpc
    obtain rfl := List.mem_singleton.1 hpc
    exact h.controlled pc hmem request (hrequest ▸ hown)
  · intro _ _
    rw [hset]
    exact .inl (List.cons_ne_nil _ _)
  · intro pc'' hpc request hown
    rw [hset] at hpc
    obtain rfl := List.mem_singleton.1 hpc
    exact h.latest pc hmem request (hrequest ▸ hown)

theorem Inv.settled (h : p.Inv) (hrun : p.runs[i]? = some pc)
    (hrequest : pc.request = some request) : ((p.release request).setRun i .settled).Inv := by
  obtain ⟨hruns, rfl, hcurrent⟩ := h.only hrun
  have hcontrols := h.controlled pc (hruns ▸ List.mem_singleton_self pc) request hrequest
  obtain ⟨hkept, htimers⟩ := h.emptied hrun none (by simp)
  have hreleased : p.release request = { p with controller := none } := by
    simp [release, hcontrols]
  have hinv := Kept.over (p := { p with controller := none }) hkept htimers
  rw [hreleased]
  simpa only [Poller.setRun, hruns, List.set_cons_zero, hcurrent] using hinv

theorem Inv.settle {p' : Poller} (h : p.Inv) (hstep : p.settle i = some p') : p'.Inv := by
  unfold Poller.settle at hstep
  split at hstep
  next hrun =>
    obtain ⟨hruns, rfl, hcurrent⟩ := h.only hrun
    obtain ⟨hkept, htimers⟩ := h.emptied hrun p.controller fun _ hid => hid
    rw [hruns, List.eraseIdx_cons_zero] at hstep
    dsimp only at hstep
    split_ifs at hstep with hactive hpending
    · exact Option.some.inj hstep ▸ hkept.refresh
    · obtain rfl := Option.some.inj hstep
      rw [htimers]
      exact { hkept with
        timer := fun t ht => congrArg some (Finset.mem_singleton.1 ht).symm
        idle := fun _ => ⟨rfl, hactive, Bool.eq_false_iff.2 hpending⟩
        going := fun _ _ => .inr (Finset.insert_ne_empty _ _)
        latest := fun _ hpc => absurd hpc List.not_mem_nil }
    · exact Option.some.inj hstep ▸ .of_inactive hkept (Bool.eq_false_iff.2 hactive)
  next => cases hstep

theorem Inv.fire {p' : Poller} {t : ℕ} (h : p.Inv) (hstep : p.fire t = some p') : p'.Inv := by
  unfold Poller.fire at hstep
  split_ifs at hstep with ht
  obtain rfl := Option.some.inj hstep
  have hkept : Kept { p with timers := p.timers.erase t } :=
    { h with
      timer := fun t' ht' => h.timer t' (Finset.mem_of_mem_erase ht')
      idle := fun _ => h.idle (Finset.ne_empty_of_mem ht) }
  exact hkept.refresh

theorem inv_next {p' : Poller} {action : Action} (h : p.Inv) (hnext : p.next action = some p') :
    p'.Inv := by
  cases action with
  | refresh => exact Option.some.inj hnext ▸ h.toKept.refresh
  | setPaused value => exact Option.some.inj hnext ▸ h.setPaused value
  | stop => exact Option.some.inj hnext ▸ h.stop
  | answer i fulfilled =>
      change p.answer i fulfilled = some p' at hnext
      unfold Poller.answer at hnext
      split at hnext
      next request hrun =>
        split_ifs at hnext
        · exact Option.some.inj hnext ▸ h.setRun hrun rfl
        · exact Option.some.inj hnext ▸ h.setRun hrun rfl
        · exact Option.some.inj hnext ▸ h.nextTurn hrun rfl
      next => cases hnext
  | received i raises =>
      change p.received i raises = some p' at hnext
      unfold Poller.received at hnext
      split at hnext
      next request hrun =>
        split_ifs at hnext
        · exact Option.some.inj hnext ▸ h.setRun hrun rfl
        · exact Option.some.inj hnext ▸ h.nextTurn hrun rfl
      next => cases hnext
  | handled i raises =>
      change p.handled i raises = some p' at hnext
      unfold Poller.handled at hnext
      split at hnext
      next request hrun =>
        split_ifs at hnext
        · exact Option.some.inj hnext ▸ h.settled hrun rfl
        · exact Option.some.inj hnext ▸ h.nextTurn hrun rfl
      next => cases hnext
  | settle i => exact h.settle hnext
  | fire t => exact h.fire hnext

/-! ### Callbacks -/

theorem loop_calls_nobody : p.loop.2.calls = none := by
  unfold loop
  split_ifs <;> rfl

theorem setRun_calls {pc' : RunPc} {j : ℕ} (hrun : (p.setRun i pc').runs[j]? = some pc) :
    pc = pc' ∨ p.runs[j]? = some pc := by
  rw [setRun, List.getElem?_set] at hrun
  split_ifs at hrun
  · exact .inl (Option.some.inj hrun).symm
  · exact .inr hrun

theorem nextTurn_calls {j : ℕ} {other : Request}
    (hrun : (p.nextTurn i request).runs[j]? = some pc) (hcalls : pc.calls = some other) :
    p.runs[j]? = some pc := by
  rcases setRun_calls hrun with rfl | hsame
  · rw [loop_calls_nobody] at hcalls
    cases hcalls
  · have hruns : (p.release request).loop.1.runs = p.runs := by
      unfold loop
      split_ifs <;> rfl
    rwa [hruns] at hsame

theorem refresh_calls {j : ℕ} (hrun : p.refresh.runs[j]? = some pc)
    (hcalls : pc.calls = some request) : p.runs[j]? = some pc := by
  unfold Poller.refresh at hrun
  split_ifs at hrun
  · exact hrun
  · dsimp only at hrun
    by_cases hj : j < p.ask.runs.length
    · rwa [List.getElem?_append_left hj] at hrun
    · rw [List.getElem?_append_right (not_lt.1 hj), List.getElem?_singleton] at hrun
      split_ifs at hrun
      rw [← Option.some.inj hrun, loop_calls_nobody] at hcalls
      cases hcalls
  · exact hrun

/-- A run comes into a callback from a place with the same request, and only where the poller heeds
its answer. -/
theorem Inv.calls {p' : Poller} {action : Action} {j : ℕ} (h : p.Inv)
    (hnext : p.next action = some p') (hrun : p'.runs[j]? = some pc)
    (hcalls : pc.calls = some request) (hnew : p.runs[j]? ≠ some pc) :
    ∃ pc' ∈ p.runs, pc'.request = some request ∧ p.heeds request = true := by
  cases action with
  | refresh => exact absurd (refresh_calls (Option.some.inj hnext ▸ hrun) hcalls) hnew
  | setPaused value =>
      obtain rfl := Option.some.inj hnext
      unfold Poller.setPaused at hrun
      split_ifs at hrun
      · exact absurd hrun hnew
      · exact absurd hrun hnew
      · exact absurd (refresh_calls hrun hcalls) hnew
  | stop =>
      obtain rfl := Option.some.inj hnext
      exact absurd hrun hnew
  | answer i fulfilled =>
      change p.answer i fulfilled = some p' at hnext
      unfold Poller.answer at hnext
      split at hnext
      next own hown =>
        split_ifs at hnext with hheeds hfulfilled
        all_goals obtain rfl := Option.some.inj hnext
        · obtain rfl := (setRun_calls hrun).resolve_right hnew
          obtain rfl := Option.some.inj hcalls
          exact ⟨_, List.mem_of_getElem? hown, rfl, hheeds⟩
        · obtain rfl := (setRun_calls hrun).resolve_right hnew
          obtain rfl := Option.some.inj hcalls
          exact ⟨_, List.mem_of_getElem? hown, rfl, hheeds⟩
        · exact absurd (nextTurn_calls hrun hcalls) hnew
      next => cases hnext
  | received i raises =>
      change p.received i raises = some p' at hnext
      unfold Poller.received at hnext
      split at hnext
      next own hown =>
        split_ifs at hnext with hheeds
        all_goals obtain rfl := Option.some.inj hnext
        · obtain rfl := (setRun_calls hrun).resolve_right hnew
          obtain rfl := Option.some.inj hcalls
          exact ⟨_, List.mem_of_getElem? hown, rfl, (Bool.and_eq_true_iff.1 hheeds).2⟩
        · exact absurd (nextTurn_calls hrun hcalls) hnew
      next => cases hnext
  | handled i raises =>
      change p.handled i raises = some p' at hnext
      unfold Poller.handled at hnext
      split at hnext
      next own hown =>
        split_ifs at hnext
        all_goals obtain rfl := Option.some.inj hnext
        · obtain rfl := (setRun_calls hrun).resolve_right hnew
          cases hcalls
        · exact absurd (nextTurn_calls hrun hcalls) hnew
      next => cases hnext
  | settle i =>
      change p.settle i = some p' at hnext
      unfold Poller.settle at hnext
      split at hnext
      next hown =>
        obtain ⟨hruns, rfl, -⟩ := h.only hown
        rw [hruns, List.eraseIdx_cons_zero] at hnext
        dsimp only at hnext
        split_ifs at hnext
        all_goals obtain rfl := Option.some.inj hnext
        · cases refresh_calls hrun hcalls
        · cases hrun
        · cases hrun
      next => cases hnext
  | fire t =>
      change p.fire t = some p' at hnext
      unfold Poller.fire at hnext
      split_ifs at hnext
      obtain rfl := Option.some.inj hnext
      exact absurd (refresh_calls hrun hcalls) hnew

theorem refresh_sends (hactive : p.active = true) (hcurrent : p.current = false) :
    p.refresh.sent = p.refresh.refreshes := by
  have hloop : p.ask.loop = p.ask.send := loop_of_turn (by
    rw [show p.ask.active = true from hactive]
    rfl)
  have hidle : ¬ p.ask.current = true := by
    rw [show p.ask.current = false from hcurrent]
    simp
  rw [Poller.refresh, if_pos hactive, if_neg hidle, hloop]
  rfl

/-- A refresh that is due is answered by the turn of the run that comes next or by the one after. -/
theorem Inv.turn {p' : Poller} {action : Action} (h : p.Inv) (hactive : p.active = true)
    (hpending : p.pending = true) (hturn : action.isTurn = true)
    (hnext : p.next action = some p') :
    p'.sent = p'.refreshes ∨ p.runs ≠ [.settled] ∧ p'.runs = [.settled] ∧ p'.active = true ∧
      p'.sent = p.sent ∧ p'.refreshes = p.refreshes := by
  have hsends : ∀ i request, (p.nextTurn i request).sent = (p.nextTurn i request).refreshes := by
    intro i request
    have hloop := loop_of_turn (p := p.release request) (by
      rw [show (p.release request).active = true from hactive,
        show (p.release request).pending = true from hpending]
      rfl)
    rw [Poller.nextTurn, hloop]
    rfl
  have hignores : ∀ (i : ℕ) (pc : RunPc) (request : Request), p.runs[i]? = some pc →
      pc.request = some request → p.heeds request = false := by
    intro i pc request hrun hrequest
    by_contra hheeds
    rw [Bool.not_eq_false, heeds, hactive, Bool.true_and, decide_eq_true_eq] at hheeds
    have hfree := (h.latest pc (List.mem_of_getElem? hrun) request hrequest hactive hheeds).1
    rw [hpending] at hfree
    cases hfree
  cases action with
  | refresh => cases hturn
  | setPaused value => cases hturn
  | stop => cases hturn
  | fire t => cases hturn
  | answer i fulfilled =>
      left
      change p.answer i fulfilled = some p' at hnext
      unfold Poller.answer at hnext
      split at hnext
      next request hrun =>
        rw [hignores i _ request hrun rfl] at hnext
        exact Option.some.inj hnext ▸ hsends i request
      next => cases hnext
  | received i raises =>
      left
      change p.received i raises = some p' at hnext
      unfold Poller.received at hnext
      split at hnext
      next request hrun =>
        rw [hignores i _ request hrun rfl, Bool.and_false] at hnext
        exact Option.some.inj hnext ▸ hsends i request
      next => cases hnext
  | handled i raises =>
      change p.handled i raises = some p' at hnext
      unfold Poller.handled at hnext
      split at hnext
      next request hrun =>
        split_ifs at hnext
        · right
          obtain rfl := Option.some.inj hnext
          obtain ⟨hruns, rfl, -⟩ := h.only hrun
          refine ⟨?_, ?_, hactive, rfl, rfl⟩
          · rw [hruns]
            simp
          · simp [Poller.setRun, release, hruns]
        · exact .inl (Option.some.inj hnext ▸ hsends i request)
      next => cases hnext
  | settle i =>
      left
      change p.settle i = some p' at hnext
      unfold Poller.settle at hnext
      split at hnext
      next hrun =>
        rw [if_pos (show active { p with runs := p.runs.eraseIdx i, current := false } = true from
          hactive), if_pos hpending] at hnext
        exact Option.some.inj hnext ▸ refresh_sends hactive rfl
      next => cases hnext

theorem inv_initial : Inv {} where
  current := rfl
  timer _ ht := absurd ht (Finset.notMem_empty _)
  idle hne := absurd rfl hne
  controlled _ hpc := absurd hpc List.not_mem_nil
  owned _ hid := by cases hid
  fresh _ hid := absurd hid (Finset.notMem_empty _)
  heard _ := .inr rfl
  going hpos := absurd hpos (lt_irrefl _)
  latest _ hpc := absurd hpc List.not_mem_nil

theorem Inv.lawful (h : p.Inv) : p.Lawful where
  single := by
    refine ⟨?_, ?_, fun hruns => ?_⟩
    · rw [h.current]
      exact Bool.toNat_le _
    · refine Finset.card_le_one.2 fun t ht t' ht' => ?_
      exact Option.some.inj ((h.timer t ht).symm.trans (h.timer t' ht'))
    · by_contra hne
      exact hruns (h.idle hne).1
  going := h.going
  quiet hactive := by
    by_contra hne
    exact absurd (hactive.symm.trans (h.idle hne).2.1) (by simp)
  latest action p' i pc request hnext hrun hcalls hnew := by
    obtain ⟨pc', hmem, hrequest, hheeds⟩ := h.calls hnext hrun hcalls hnew
    simp only [heeds, Bool.and_eq_true, decide_eq_true_eq] at hheeds
    exact ⟨hheeds.1, (h.latest pc' hmem request hrequest hheeds.1 hheeds.2).2⟩
  heard hactive hsent := by
    have hstopped : p.stopped = false := by
      simp only [active, Bool.and_eq_true, Bool.not_eq_true'] at hactive
      exact hactive.1
    have hpending : p.pending = true := (h.heard hstopped).resolve_right hsent.ne
    refine ⟨?_, fun action p' hturn hnext => ?_⟩
    · rcases h.going (Nat.zero_lt_of_lt hsent) hactive with hruns | htimers
      · exact hruns
      · exact absurd (hpending.symm.trans (h.idle htimers).2.2) (by simp)
    · rcases h.turn hactive hpending hturn hnext with hsends | ⟨hruns, hover, hgoes, hsame, hsame'⟩
      · exact .inl hsends
      · exact .inr ⟨hruns, hover, hgoes, by rw [hsame, hsame']; exact hsent⟩

/-- The poller keeps to its laws, whatever the order of its own turns, the timers and the calls. -/
theorem poller_lawful (actions : List Action) : Always Poller.next Lawful {} actions := by
  have hmeets : Meets Poller.next (fun _ _ => True) {} actions := .of_forall fun _ _ _ => trivial
  exact hmeets.always (fun _ h => h.lawful) (fun _ _ _ h _ hnext => inv_next h hnext) inv_initial

end Poller

end InferDeck.Dashboard
