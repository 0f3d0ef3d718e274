import InferDeck.ProfileBenchmark

/-!
# What holds in every state of the benchmark

One party at a time has a grip on the resource, and its program counter says what the shared flag
and the benchmark's own record of the reservation are. Every step of a call of `start`, of the
worker, of `cancel` and of the model store keeps that, with what is known of the runs.
-/

namespace InferDeck.Gateway.ProfileBenchmark

open InferDeck.Model

section Reservation

/-- What a party that has reserved the resource has done with the benchmark's own record of it. -/
inductive GripPc where
  | exchanged
  | marked
  | comparing (owned : ComputeResource)
  deriving DecidableEq

def StartPc.grip : StartPc → Option (Job × GripPc)
  | .idle | .checked _ _ => none
  | .exchanged job => some (job, .exchanged)
  | .stored job | .joining job | .resetting job | .announcing job | .spawning job _ | .failing job _ |
    .releasing job .exchange => some (job, .marked)
  | .releasing job (.compare owned) => some (job, .comparing owned)

def Run.grip (run : Run) : Option (Job × GripPc) :=
  match run.pc with
  | .over => none
  | .releasing (.compare owned) => some (run.job, .comparing owned)
  | _ => some (run.job, .marked)

def recordOf (job : Job) : GripPc → ComputeResource
  | .marked => job.resource
  | .exchanged | .comparing _ => .none

def Holder.resource : Holder → ComputeResource
  | .benchmark _ job => job.resource
  | .store => .cpu

@[simp] theorem resource_ne_none (job : Job) : job.resource ≠ .none := by
  unfold Job.resource modelComputeResource
  split <;> simp

theorem Holder.resource_ne_none (holder : Holder) : holder.resource ≠ .none := by
  cases holder <;> simp [Holder.resource]

namespace World

def grip (w : World) : Party → Option (Job × GripPc)
  | .starter k => (w.starts k).grip
  | .worker => w.worker.bind Run.grip

variable {w w' : World}

/-- Only the holder has a grip on the resource, and the shared flag and the record are its own. -/
structure Reservation (w : World) : Prop where
  holds : ∀ party job pc, w.grip party = some (job, pc) →
    w.holder = some (.benchmark party job) ∧ w.reserved = recordOf job pc ∧
      ∀ owned, pc = .comparing owned → owned = job.resource
  held : ∀ party job, w.holder = some (.benchmark party job) → ∃ pc, w.grip party = some (job, pc)
  maintenance : w.maintenance = w.holder.elim .none Holder.resource
  store : w.storeReserved = true ↔ w.holder = some .store
  unrecorded : (∀ party, w.grip party = none) → w.reserved = .none

theorem grip_gotoStart (k : ℕ) (pc : StartPc) :
    (w.gotoStart k pc).grip = Function.update w.grip (.starter k) pc.grip := by
  funext party
  cases party with
  | starter k' =>
      by_cases hk : k' = k
      · subst hk
        simp [grip, gotoStart]
      · have hparty : Party.starter k' ≠ .starter k := fun h => hk (Party.starter.inj h)
        simp [grip, gotoStart, hk, hparty]
  | worker => simp [grip, gotoStart]

theorem grip_worker (run : Run) :
    grip { w with worker := some run } = Function.update w.grip .worker run.grip := by
  funext party
  cases party with
  | starter k => simp [grip]
  | worker => simp [grip]

namespace Reservation

theorem holder_eq_none (h : w.Reservation) (hfree : w.maintenance = .none) : w.holder = none := by
  cases hholder : w.holder with
  | none => rfl
  | some holder =>
      have hresource := h.maintenance
      rw [hfree, hholder] at hresource
      exact absurd hresource.symm holder.resource_ne_none

theorem grip_eq_none (h : w.Reservation) {party : Party}
    (hother : ∀ job, w.holder ≠ some (.benchmark party job)) : w.grip party = none := by
  cases hgrip : w.grip party with
  | none => rfl
  | some grip => exact absurd (h.holds party grip.1 grip.2 hgrip).1 (hother grip.1)

/-- One party at a time has a grip on the resource. -/
theorem alone (h : w.Reservation) {party other : Party} {job : Job} {pc : GripPc}
    (hgrip : w.grip party = some (job, pc)) (hne : other ≠ party) : w.grip other = none := by
  apply h.grip_eq_none
  intro job' hholder
  rw [(h.holds party job pc hgrip).1, Option.some.injEq, Holder.benchmark.injEq] at hholder
  exact hne hholder.1.symm

theorem congr (h : w.Reservation) (hmaintenance : w'.maintenance = w.maintenance)
    (hreserved : w'.reserved = w.reserved) (hstore : w'.storeReserved = w.storeReserved)
    (hholder : w'.holder = w.holder) (hgrip : w'.grip = w.grip) : w'.Reservation where
  holds party job pc := by
    rw [hgrip, hholder, hreserved]
    exact h.holds party job pc
  held party job := by
    rw [hholder, hgrip]
    exact h.held party job
  maintenance := by rw [hmaintenance, hholder, h.maintenance]
  store := by rw [hstore, hholder, h.store]
  unrecorded := by
    rw [hgrip, hreserved]
    exact h.unrecorded

/-- The holder goes on to another point, with what its record says there. -/
theorem moves (h : w.Reservation) {party : Party} {job : Job} {pc pc' : GripPc}
    (hgrip : w.grip party = some (job, pc)) (hmaintenance : w'.maintenance = w.maintenance)
    (hstore : w'.storeReserved = w.storeReserved) (hholder : w'.holder = w.holder)
    (hreserved : w'.reserved = recordOf job pc')
    (howned : ∀ owned, pc' = .comparing owned → owned = job.resource)
    (hgrip' : w'.grip = Function.update w.grip party (some (job, pc'))) : w'.Reservation where
  holds other job' pc'' hother := by
    rw [hgrip'] at hother
    by_cases hparty : other = party
    · subst hparty
      rw [Function.update_self, Option.some.injEq, Prod.mk.injEq] at hother
      obtain ⟨rfl, rfl⟩ := hother
      exact ⟨hholder.trans (h.holds other job pc hgrip).1, hreserved, howned⟩
    · rw [Function.update_of_ne hparty, h.alone hgrip hparty] at hother
      cases hother
  held other job' hother := by
    rw [hholder, (h.holds party job pc hgrip).1, Option.some.injEq, Holder.benchmark.injEq] at hother
    obtain ⟨rfl, rfl⟩ := hother
    exact ⟨pc', by rw [hgrip', Function.update_self]⟩
  maintenance := by rw [hmaintenance, hholder, h.maintenance]
  store := by rw [hstore, hholder, h.store]
  unrecorded hnone := by
    have hself := hnone party
    rw [hgrip', Function.update_self] at hself
    cases hself

/-- The holder passes the reservation on to another party. -/
theorem hands (h : w.Reservation) {party heir : Party} {job : Job} {pc : GripPc}
    (hgrip : w.grip party = some (job, pc)) (hne : heir ≠ party)
    (hpc : ∀ owned, pc ≠ .comparing owned)
    (hmaintenance : w'.maintenance = w.maintenance) (hreserved : w'.reserved = w.reserved)
    (hstore : w'.storeReserved = w.storeReserved)
    (hholder : w'.holder = some (.benchmark heir job))
    (hgrip' : w'.grip =
      Function.update (Function.update w.grip party none) heir (some (job, pc))) :
    w'.Reservation where
  holds other job' pc' hother := by
    rw [hgrip'] at hother
    by_cases hheir : other = heir
    · subst hheir
      rw [Function.update_self, Option.some.injEq, Prod.mk.injEq] at hother
      obtain ⟨rfl, rfl⟩ := hother
      exact ⟨hholder, hreserved.trans (h.holds party job pc hgrip).2.1,
        fun owned heq => absurd heq (hpc owned)⟩
    · rw [Function.update_of_ne hheir] at hother
      by_cases hparty : other = party
      · rw [hparty, Function.update_self] at hother
        cases hother
      · rw [Function.update_of_ne hparty, h.alone hgrip hparty] at hother
        cases hother
  held other job' hother := by
    rw [hholder, Option.some.injEq, Holder.benchmark.injEq] at hother
    obtain ⟨rfl, rfl⟩ := hother
    exact ⟨pc, by rw [hgrip', Function.update_self]⟩
  maintenance := by
    rw [hmaintenance, hholder, h.maintenance, (h.holds party job pc hgrip).1]
    rfl
  store := by
    rw [hstore, hholder, h.store, (h.holds party job pc hgrip).1]
    simp
  unrecorded hnone := by
    have hself := hnone heir
    rw [hgrip', Function.update_self] at hself
    cases hself

/-- A free resource is reserved. -/
theorem takes (h : w.Reservation) (hfree : w.maintenance = .none) {party : Party} {job : Job}
    (hmaintenance : w'.maintenance = job.resource) (hreserved : w'.reserved = w.reserved)
    (hstore : w'.storeReserved = w.storeReserved)
    (hholder : w'.holder = some (.benchmark party job))
    (hgrip : w'.grip = Function.update w.grip party (some (job, .exchanged))) : w'.Reservation := by
  have hnone := h.holder_eq_none hfree
  have hgrips (other : Party) : w.grip other = none := h.grip_eq_none (by simp [hnone])
  exact {
    holds := fun other job' pc hother => by
      rw [hgrip] at hother
      by_cases hparty : other = party
      · subst hparty
        rw [Function.update_self, Option.some.injEq, Prod.mk.injEq] at hother
        obtain ⟨rfl, rfl⟩ := hother
        exact ⟨hholder, hreserved.trans (h.unrecorded hgrips), by simp⟩
      · rw [Function.update_of_ne hparty, hgrips] at hother
        cases hother
    held := fun other job' hother => by
      rw [hholder, Option.some.injEq, Holder.benchmark.injEq] at hother
      obtain ⟨rfl, rfl⟩ := hother
      exact ⟨.exchanged, by rw [hgrip, Function.update_self]⟩
    maintenance := by
      rw [hmaintenance, hholder]
      rfl
    store := by
      rw [hstore, hholder, h.store, hnone]
      simp
    unrecorded := fun hall => by
      have hself := hall party
      rw [hgrip, Function.update_self] at hself
      cases hself }

/-- The resource is free again. -/
theorem frees (h : w.Reservation) {party : Party} {job : Job} {owned : ComputeResource}
    (hgrip : w.grip party = some (job, .comparing owned)) (hmaintenance : w'.maintenance = .none)
    (hreserved : w'.reserved = w.reserved) (hstore : w'.storeReserved = w.storeReserved)
    (hholder : w'.holder = none) (hgrip' : w'.grip = Function.update w.grip party none) :
    w'.Reservation := by
  have hgrips (other : Party) : w'.grip other = none := by
    rw [hgrip']
    by_cases hparty : other = party
    · rw [hparty, Function.update_self]
    · rw [Function.update_of_ne hparty, h.alone hgrip hparty]
  obtain ⟨hheld, hrecord, -⟩ := h.holds party job _ hgrip
  exact {
    holds := fun other job' pc hother => by
      rw [hgrips] at hother
      cases hother
    held := fun other job' hother => by
      rw [hholder] at hother
      cases hother
    maintenance := by
      rw [hmaintenance, hholder]
      rfl
    store := by
      rw [hstore, hholder, h.store, hheld]
      simp
    unrecorded := fun _ => hreserved.trans hrecord }

end Reservation

end World

end Reservation

section Invariants

variable (registry : ModelRegistry)

/-- The run that the state tells of while it is active. -/
def StartPc.announced : StartPc → Option ℕ
  | .spawning _ id | .failing _ id => some id
  | _ => none

def Run.announced (run : Run) : Option ℕ := if run.unfinished then some run.id else none

structure Run.Begun (run : Run) : Prop where
  previous : run.previousModels = run.resident.filter (onResource registry run.job.resource)
  selected : run.primaryBefore.all (selects registry) = true

def BenchmarkState.final : BenchmarkState → Bool
  | .completed | .failed | .cancelled => true
  | .idle | .running | .cancelling => false

/-- What is loaded again so far, where every load has succeeded. -/
def Run.Reloads (run : Run) : Prop :=
  match run.pc with
  | .restoring rest ok _ => ok = true → run.loads ++ rest = run.restoreOrder
  | .flagCheck restored | .finalCheck restored | .scoring restored | .concluding restored |
    .finishing _ restored => restored = true → run.loads = run.restoreOrder
  | _ => True

namespace World

def runLive (w : World) (id : ℕ) : Prop :=
  ∃ run, w.worker = some run ∧ run.id = id ∧ run.unfinished = true

def endedIds (w : World) : List ℕ := w.ended.map fun e => e.run.id

/-- The run has looked at the flag for the last time and is going to complete. -/
def late (w : World) (run : Run) : Bool :=
  match run.pc with
  | .scoring _ | .concluding _ => w.state.trials.any id
  | .finishing .completed _ => true
  | _ => false

def announced (w : World) : Party → Option ℕ
  | .starter k => (w.starts k).announced
  | .worker => w.worker.bind Run.announced

structure Identity (w : World) : Prop where
  current : ∀ party id, w.announced party = some id →
    w.state.state.active = true ∧ w.state.id = id ∧ id ∉ w.endedIds ∧ id < w.nextId
  active : w.state.state.active = true → ∃ party, w.announced party = some w.state.id
  quiet : ∀ k id, w.announced (.starter k) = some id → id ∉ w.started ∧
    w.state.hasRecommendation = false ∧ (id ∈ w.cancels → w.cancelRequested = true)
  live : ∀ run, w.worker = some run → run.unfinished = true → run.id ∈ w.started
  spawned : ∀ id ∈ w.started, id < w.nextId ∧ (id ∈ w.endedIds ∨ w.runLive id)
  ended : ∀ id ∈ w.endedIds, id ∈ w.started
  cancels : ∀ id ∈ w.cancels, id < w.nextId
  once : w.endedIds.Nodup

structure Tickets (w : World) : Prop where
  own : ∀ r ∈ w.released, ∃ party, r.2 = some (.benchmark party r.1)
  bound : ∀ r ∈ w.released, r.1.ticket < w.tickets
  once : (w.released.map fun r => r.1.ticket).Nodup
  held : ∀ party job, w.holder = some (.benchmark party job) →
    job.ticket < w.tickets ∧ ∀ r ∈ w.released, r.1.ticket ≠ job.ticket
  ended : ∀ e ∈ w.ended, e.run.job ∈ w.released.map Prod.fst ∨
    w.holder = some (.benchmark .worker e.run.job)

structure Phase (w : World) (run : Run) : Prop where
  begun : run.pc ≠ .entered → run.Begun registry
  reloads : run.Reloads
  recommends : w.state.hasRecommendation = true → w.state.trials.any id = true ∧
    ∃ restored, run.pc = .concluding restored ∨ run.pc = .finishing .completed restored
  final : ∀ state restored, run.pc = .finishing state restored → state.final = true
  cancels : run.id ∈ w.cancels → w.cancelRequested = true ∧ w.late run = false

structure Ended (w : World) (e : Ending) : Prop where
  begun : e.run.Begun registry
  final : e.snapshot.state.final = true
  restored : e.snapshot.restored = true → e.run.loads = e.run.restoreOrder
  cancelled : e.run.id ∈ w.cancels →
    e.snapshot.state ≠ .completed ∧ e.snapshot.hasRecommendation = false

structure Inv (w : World) : Prop where
  reservation : w.Reservation
  identity : w.Identity
  tickets : w.Tickets
  phase : ∀ run, w.worker = some run → run.unfinished = true → w.Phase registry run
  endings : ∀ e ∈ w.ended, w.Ended registry e

end World

end Invariants

section Steps

variable {registry : ModelRegistry}

namespace World

variable {w w' : World}

theorem announced_gotoStart (k : ℕ) (pc : StartPc) :
    (w.gotoStart k pc).announced = Function.update w.announced (.starter k) pc.announced := by
  funext party
  cases party with
  | starter k' =>
      by_cases hk : k' = k
      · subst hk
        simp [announced, gotoStart]
      · have hparty : Party.starter k' ≠ .starter k := fun h => hk (Party.starter.inj h)
        simp [announced, gotoStart, hk, hparty]
  | worker => simp [announced, gotoStart]

theorem announced_worker (run : Run) :
    announced { w with worker := some run } =
      Function.update w.announced .worker run.announced := by
  funext party
  cases party with
  | starter k => simp [announced]
  | worker => simp [announced]

theorem grip_of_unfinished {run : Run} (h : run.unfinished = true) :
    run.grip = some (run.job, .marked) := by
  unfold Run.unfinished at h
  unfold Run.grip
  split at h
  · cases h
  · cases h
  · rename_i hreleasing hover
    split
    · rename_i hpc
      exact absurd hpc hover
    · rename_i owned hpc
      exact absurd hpc (hreleasing _)
    · rfl

/-- Who is announced has the resource. -/
theorem grip_of_announced {party : Party} {id : ℕ} (h : w.announced party = some id) :
    ∃ job, w.grip party = some (job, .marked) := by
  cases party with
  | starter k =>
      rw [announced] at h
      rw [grip]
      cases hpc : w.starts k with
      | spawning job id' | failing job id' => exact ⟨job, rfl⟩
      | idle | checked model limit | exchanged job | stored job | joining job | resetting job
      | announcing job | releasing job pc =>
          rw [hpc] at h
          cases h
  | worker =>
      obtain ⟨run, hrun, hid⟩ := Option.bind_eq_some_iff.1 h
      rw [Run.announced] at hid
      split at hid
      · rename_i hunfinished
        exact ⟨run.job, by rw [grip, hrun, Option.bind_some, grip_of_unfinished hunfinished]⟩
      · cases hid

theorem Reservation.silent (h : w.Reservation) {party other : Party} {job : Job} {pc : GripPc}
    (hgrip : w.grip party = some (job, pc)) (hne : other ≠ party) : w.announced other = none := by
  cases hannounced : w.announced other with
  | none => rfl
  | some id =>
      obtain ⟨job', hother⟩ := grip_of_announced hannounced
      rw [h.alone hgrip hne] at hother
      cases hother

/-- While a call of `start` has the resource, no run is under way. -/
theorem Reservation.noRun (h : w.Reservation) {k : ℕ} {job : Job} {pc : GripPc}
    (hgrip : w.grip (.starter k) = some (job, pc)) {run : Run} (hrun : w.worker = some run) :
    run.unfinished = false := by
  by_contra hunfinished
  rw [Bool.not_eq_false] at hunfinished
  have hworker : w.grip .worker = none := h.alone hgrip (by simp)
  rw [grip, hrun, Option.bind_some, grip_of_unfinished hunfinished] at hworker
  cases hworker

/-- The step is none of a run's: it leaves what is told of the runs as it is. -/
structure Kept (w w' : World) : Prop where
  state : w'.state = w.state
  nextId : w'.nextId = w.nextId
  started : w'.started = w.started
  cancels : w'.cancels = w.cancels
  flag : w'.cancelRequested = w.cancelRequested
  ended : w'.ended = w.ended
  announced : w'.announced = w.announced
  worker : ∀ run, run.unfinished = true → (w'.worker = some run ↔ w.worker = some run)

theorem Kept.runLive (h : w.Kept w') {id : ℕ} : w'.runLive id ↔ w.runLive id := by
  constructor
  · rintro ⟨run, hrun, hid, hunfinished⟩
    exact ⟨run, (h.worker run hunfinished).1 hrun, hid, hunfinished⟩
  · rintro ⟨run, hrun, hid, hunfinished⟩
    exact ⟨run, (h.worker run hunfinished).2 hrun, hid, hunfinished⟩

theorem Kept.endedIds (h : w.Kept w') : w'.endedIds = w.endedIds := by
  rw [World.endedIds, h.ended, World.endedIds]

theorem Identity.kept (h : w.Identity) (hkept : w.Kept w') : w'.Identity where
  current := by
    rw [hkept.announced, hkept.state, hkept.endedIds, hkept.nextId]
    exact h.current
  active := by
    rw [hkept.announced, hkept.state]
    exact h.active
  quiet := by
    rw [hkept.announced, hkept.state, hkept.started, hkept.cancels, hkept.flag]
    exact h.quiet
  live run hrun hunfinished := by
    rw [hkept.started]
    exact h.live run ((hkept.worker run hunfinished).1 hrun) hunfinished
  spawned := by
    rw [hkept.started, hkept.endedIds, hkept.nextId]
    simp only [hkept.runLive]
    exact h.spawned
  ended := by
    rw [hkept.started, hkept.endedIds]
    exact h.ended
  cancels := by
    rw [hkept.cancels, hkept.nextId]
    exact h.cancels
  once := by
    rw [hkept.endedIds]
    exact h.once

theorem Phase.congr {run : Run} (h : w.Phase registry run) (hstate : w'.state = w.state)
    (hcancels : w'.cancels = w.cancels) (hflag : w'.cancelRequested = w.cancelRequested) :
    w'.Phase registry run where
  begun := h.begun
  reloads := h.reloads
  recommends := by
    rw [hstate]
    exact h.recommends
  final := h.final
  cancels := by
    rw [hcancels, hflag, late, hstate]
    exact h.cancels

theorem Ended.congr {e : Ending} (h : w.Ended registry e) (hcancels : w'.cancels = w.cancels) :
    w'.Ended registry e where
  begun := h.begun
  final := h.final
  restored := h.restored
  cancelled := by
    rw [hcancels]
    exact h.cancelled

theorem Inv.kept (h : w.Inv registry) (hkept : w.Kept w') (hreservation : w'.Reservation)
    (htickets : w'.Tickets) : w'.Inv registry where
  reservation := hreservation
  identity := h.identity.kept hkept
  tickets := htickets
  phase run hrun hunfinished :=
    (h.phase run ((hkept.worker run hunfinished).1 hrun) hunfinished).congr hkept.state
      hkept.cancels hkept.flag
  endings e he := (h.endings e (hkept.ended ▸ he)).congr hkept.cancels

theorem Tickets.congr (h : w.Tickets) (hreleased : w'.released = w.released)
    (htickets : w'.tickets = w.tickets) (hended : w'.ended = w.ended)
    (hheld : ∀ party job, w'.holder = some (.benchmark party job) →
      ∃ party', w.holder = some (.benchmark party' job))
    (hworker : ∀ e ∈ w.ended, w.holder = some (.benchmark .worker e.run.job) →
      w'.holder = some (.benchmark .worker e.run.job)) : w'.Tickets where
  own := by
    rw [hreleased]
    exact h.own
  bound := by
    rw [hreleased, htickets]
    exact h.bound
  once := by
    rw [hreleased]
    exact h.once
  held party job hholder := by
    obtain ⟨party', hholder'⟩ := hheld party job hholder
    rw [hreleased, htickets]
    exact h.held party' job hholder'
  ended e he := by
    rw [hreleased]
    exact (h.ended e (hended ▸ he)).imp_right (hworker e (hended ▸ he))

theorem Tickets.same (h : w.Tickets) (hreleased : w'.released = w.released)
    (htickets : w'.tickets = w.tickets) (hended : w'.ended = w.ended)
    (hholder : w'.holder = w.holder) : w'.Tickets :=
  h.congr hreleased htickets hended (fun party _ hh => ⟨party, hholder ▸ hh⟩)
    fun _ _ hh => hholder.trans hh

/-- A reservation that is given back. -/
theorem Tickets.gives (h : w.Tickets) {party : Party} {job : Job}
    (hheld : w.holder = some (.benchmark party job))
    (hreleased : w'.released = w.released ++ [(job, w.holder)]) (htickets : w'.tickets = w.tickets)
    (hended : w'.ended = w.ended) (hholder : w'.holder = none) : w'.Tickets := by
  obtain ⟨hbound, hfresh⟩ := h.held party job hheld
  exact {
    own := by
      rw [hreleased, List.forall_mem_append]
      exact ⟨h.own, by simp [hheld]⟩
    bound := by
      rw [hreleased, htickets, List.forall_mem_append]
      exact ⟨h.bound, by simpa using hbound⟩
    once := by
      rw [hreleased, List.map_append]
      refine h.once.append (List.nodup_singleton _) fun ticket hticket hlast => ?_
      obtain ⟨r, hr, rfl⟩ := List.mem_map.1 hticket
      exact hfresh r hr (by simpa using hlast)
    held := fun party' job' hh => by
      rw [hholder] at hh
      cases hh
    ended := fun e he => by
      rw [hreleased, List.map_append]
      rcases h.ended e (hended ▸ he) with hin | hlast
      · exact Or.inl (List.mem_append_left _ hin)
      · rw [hheld, Option.some.injEq, Holder.benchmark.injEq] at hlast
        exact Or.inl (List.mem_append_right _ (by simp [hlast.2])) }

theorem Kept.gotoStart {k : ℕ} {pc : StartPc} (hpc : pc.announced = (w.starts k).announced) :
    w.Kept (w.gotoStart k pc) :=
  ⟨rfl, rfl, rfl, rfl, rfl, rfl, by
    rw [announced_gotoStart, hpc]
    exact Function.update_eq_self _ _, fun _ _ => Iff.rfl⟩

/-- A step of a call that changes neither its grip nor what it has announced. -/
theorem Inv.gotoStart (h : w.Inv registry) {k : ℕ} {pc : StartPc}
    (hgrip : pc.grip = (w.starts k).grip) (hpc : pc.announced = (w.starts k).announced) :
    (w.gotoStart k pc).Inv registry := by
  refine h.kept (.gotoStart hpc) (h.reservation.congr rfl rfl rfl rfl ?_)
    (h.tickets.same rfl rfl rfl rfl)
  rw [grip_gotoStart, hgrip]
  exact Function.update_eq_self _ _

theorem Reservation.releaseResource_exchange (h : w.Reservation) {party : Party} {job : Job}
    (hgrip : w.grip party = some (job, .marked)) :
    w.releaseResource job .exchange =
      ({ w with reserved := .none }, some (.compare job.resource)) := by
  have hreserved : w.reserved = job.resource := (h.holds party job _ hgrip).2.1
  rw [releaseResource, if_neg (by rw [hreserved]; exact resource_ne_none job), hreserved]

theorem Reservation.releaseResource_compare (h : w.Reservation) {party : Party} {job : Job}
    {owned : ComputeResource} (hgrip : w.grip party = some (job, .comparing owned)) :
    w.releaseResource job (.compare owned) =
      ({ w with
          maintenance := .none
          holder := none
          released := w.released ++ [(job, w.holder)] }, none) := by
  obtain ⟨hheld, -, howned⟩ := h.holds party job _ hgrip
  have hmaintenance : w.maintenance = owned := by
    rw [h.maintenance, hheld, howned owned rfl]
    rfl
  rw [releaseResource, if_pos hmaintenance]

/-- The benchmark clears its own record of the reservation. -/
theorem Inv.exchanges (h : w.Inv registry) {party : Party} {job : Job}
    (hgrip : w.grip party = some (job, .marked)) (hkept : w.Kept w')
    (hmaintenance : w'.maintenance = w.maintenance) (hreserved : w'.reserved = .none)
    (hstore : w'.storeReserved = w.storeReserved) (hholder : w'.holder = w.holder)
    (hreleased : w'.released = w.released) (htickets : w'.tickets = w.tickets)
    (hgrip' : w'.grip = Function.update w.grip party (some (job, .comparing job.resource))) :
    w'.Inv registry := by
  have hrecord : w'.reserved = recordOf job (.comparing job.resource) := hreserved
  exact h.kept hkept (h.reservation.moves hgrip hmaintenance hstore hholder hrecord
    (fun owned heq => (GripPc.comparing.inj heq).symm) hgrip')
    (h.tickets.same hreleased htickets hkept.ended hholder)

/-- The benchmark gives the resource back. -/
theorem Inv.compares (h : w.Inv registry) {party : Party} {job : Job} {owned : ComputeResource}
    (hgrip : w.grip party = some (job, .comparing owned)) (hkept : w.Kept w')
    (hmaintenance : w'.maintenance = .none) (hreserved : w'.reserved = w.reserved)
    (hstore : w'.storeReserved = w.storeReserved) (hholder : w'.holder = none)
    (hreleased : w'.released = w.released ++ [(job, w.holder)])
    (htickets : w'.tickets = w.tickets)
    (hgrip' : w'.grip = Function.update w.grip party none) : w'.Inv registry :=
  h.kept hkept (h.reservation.frees hgrip hmaintenance hreserved hstore hholder hgrip')
    (h.tickets.gives (h.reservation.holds party job _ hgrip).1 hreleased htickets hkept.ended
      hholder)

theorem Inv.reserve (h : w.Inv registry) {k : ℕ} {model : ModelInfo} {candidateLimit : ℕ}
    (hpc : w.starts k = .checked model candidateLimit) (hfree : w.maintenance = .none) :
    ({ w.gotoStart k (.exchanged ⟨w.tickets, model, candidateLimit⟩) with
        maintenance := modelComputeResource model
        holder := some (.benchmark (.starter k) ⟨w.tickets, model, candidateLimit⟩)
        tickets := w.tickets + 1 } : World).Inv registry := by
  have hnone := h.reservation.holder_eq_none hfree
  refine h.kept ⟨rfl, rfl, rfl, rfl, rfl, rfl, ?_, fun _ _ => Iff.rfl⟩
    (h.reservation.takes hfree rfl rfl rfl rfl ?_) ⟨h.tickets.own, fun r hr => ?_, h.tickets.once,
      fun party job hholder => ?_, fun e he => Or.inl ?_⟩
  · have hsame : w.Kept (w.gotoStart k (.exchanged ⟨w.tickets, model, candidateLimit⟩)) :=
      .gotoStart (by rw [hpc]; rfl)
    exact hsame.announced
  · exact grip_gotoStart k _
  · exact Nat.lt_succ_of_lt (h.tickets.bound r hr)
  · rw [Option.some.injEq, Holder.benchmark.injEq] at hholder
    obtain ⟨-, rfl⟩ := hholder
    exact ⟨Nat.lt_succ_self _, fun r hr => (h.tickets.bound r hr).ne⟩
  · rcases h.tickets.ended e he with hin | hheld
    · exact hin
    · rw [hnone] at hheld
      cases hheld

/-- A run is announced under the next number. -/
theorem Inv.announce (h : w.Inv registry) {k : ℕ} {job : Job}
    (hpc : w.starts k = .announcing job) :
    ({ w.gotoStart k (.spawning job w.nextId) with
        state := { id := w.nextId, state := .running }
        nextId := w.nextId + 1 } : World).Inv registry := by
  have hgrip : w.grip (.starter k) = some (job, .marked) := by rw [grip, hpc]; rfl
  have hsilent (party : Party) : w.announced party = none := by
    by_cases hparty : party = .starter k
    · rw [hparty, announced, hpc]
      rfl
    · exact h.reservation.silent hgrip hparty
  have hgrips : grip ({ w.gotoStart k (.spawning job w.nextId) with
        state := { id := w.nextId, state := .running }
        nextId := w.nextId + 1 } : World) = w.grip := by
    refine (grip_gotoStart (w := w) k (.spawning job w.nextId)).trans ?_
    exact Function.update_eq_self_iff.2 hgrip.symm
  have hannounced : announced ({ w.gotoStart k (.spawning job w.nextId) with
        state := { id := w.nextId, state := .running }
        nextId := w.nextId + 1 } : World) =
      Function.update w.announced (.starter k) (some w.nextId) := announced_gotoStart k _
  refine ⟨h.reservation.congr rfl rfl rfl rfl hgrips, ?_, h.tickets.same rfl rfl rfl rfl,
    fun run hrun hunfinished => ?_, fun e he => (h.endings e he).congr rfl⟩
  · have hfresh : w.nextId ∉ w.started := fun hin => (h.identity.spawned _ hin).1.ne rfl
    have honly {party : Party} {id : ℕ} (hid : announced ({ w.gotoStart k
        (.spawning job w.nextId) with
          state := { id := w.nextId, state := .running }
          nextId := w.nextId + 1 } : World) party = some id) : id = w.nextId := by
      rw [hannounced] at hid
      by_cases hparty : party = .starter k
      · rw [hparty, Function.update_self, Option.some.injEq] at hid
        exact hid.symm
      · rw [Function.update_of_ne hparty, hsilent] at hid
        cases hid
    exact {
      current := fun party id hid => by
        obtain rfl := honly hid
        exact ⟨rfl, rfl, fun hin => hfresh (h.identity.ended _ hin), Nat.lt_succ_self _⟩
      active := fun _ => ⟨.starter k, by rw [hannounced, Function.update_self]⟩
      quiet := fun k' id hid => by
        obtain rfl := honly hid
        exact ⟨hfresh, rfl, fun hin => absurd rfl (h.identity.cancels _ hin).ne⟩
      live := h.identity.live
      spawned := fun id hid => ⟨Nat.lt_succ_of_lt (h.identity.spawned id hid).1,
        (h.identity.spawned id hid).2⟩
      ended := h.identity.ended
      cancels := fun id hid => Nat.lt_succ_of_lt (h.identity.cancels id hid)
      once := h.identity.once }
  · rw [h.reservation.noRun hgrip hrun] at hunfinished
    cases hunfinished

/-- The flag is reset while no run is announced. -/
theorem Inv.reset (h : w.Inv registry) {k : ℕ} {job : Job} (hpc : w.starts k = .resetting job) :
    ({ w.gotoStart k (.announcing job) with cancelRequested := false } : World).Inv registry := by
  have hgrip : w.grip (.starter k) = some (job, .marked) := by rw [grip, hpc]; rfl
  have hmoved : (w.gotoStart k (.announcing job)).Inv registry :=
    h.gotoStart (by rw [hpc]; rfl) (by rw [hpc]; rfl)
  have hsilent (party : Party) : (w.gotoStart k (.announcing job)).announced party = none := by
    rw [announced_gotoStart]
    by_cases hparty : party = .starter k
    · rw [hparty, Function.update_self]
      rfl
    · rw [Function.update_of_ne hparty, h.reservation.silent hgrip hparty]
  refine ⟨hmoved.reservation.congr rfl rfl rfl rfl rfl, ?_, hmoved.tickets.same rfl rfl rfl rfl,
    fun run hrun hunfinished => ?_, fun e he => (hmoved.endings e he).congr rfl⟩
  · exact {
      current := hmoved.identity.current
      active := hmoved.identity.active
      quiet := fun k' id hid => by
        have hnone := hsilent (.starter k')
        rw [announced] at hnone hid
        rw [hnone] at hid
        cases hid
      live := hmoved.identity.live
      spawned := hmoved.identity.spawned
      ended := hmoved.identity.ended
      cancels := hmoved.identity.cancels
      once := hmoved.identity.once }
  · rw [h.reservation.noRun hgrip hrun] at hunfinished
    cases hunfinished

/-- The worker takes the run over. -/
theorem Inv.spawn (h : w.Inv registry) {k id : ℕ} {job : Job}
    (hpc : w.starts k = .spawning job id) :
    ({ w.gotoStart k .idle with
        worker := some { id, job }
        holder := some (.benchmark .worker job)
        started := w.started ++ [id] } : World).Inv registry := by
  have hgrip : w.grip (.starter k) = some (job, .marked) := by rw [grip, hpc]; rfl
  have hid : w.announced (.starter k) = some id := by rw [announced, hpc]; rfl
  obtain ⟨hactive, hcurrent, hnew, hbound⟩ := h.identity.current _ _ hid
  obtain ⟨hunstarted, hrecommends, hcancels⟩ := h.identity.quiet k id hid
  have hheld := (h.reservation.holds _ _ _ hgrip).1
  have hannounced : announced ({ w.gotoStart k .idle with
        worker := some { id, job }
        holder := some (.benchmark .worker job)
        started := w.started ++ [id] } : World) =
      Function.update (Function.update w.announced (.starter k) none) .worker (some id) := by
    exact (announced_worker (w := w.gotoStart k .idle) { id, job }).trans
      (congrArg (fun f => Function.update f Party.worker (some id)) (announced_gotoStart k .idle))
  have honly {party : Party} {other : ℕ} (hother : Function.update
      (Function.update w.announced (.starter k) none) .worker (some id) party = some other) :
      party = .worker ∧ other = id := by
    by_cases hworker : party = .worker
    · rw [hworker, Function.update_self, Option.some.injEq] at hother
      exact ⟨hworker, hother.symm⟩
    · rw [Function.update_of_ne hworker] at hother
      by_cases hparty : party = .starter k
      · rw [hparty, Function.update_self] at hother
        cases hother
      · rw [Function.update_of_ne hparty, h.reservation.silent hgrip hparty] at hother
        cases hother
  have hlive {other : ℕ} : ¬w.runLive other := by
    rintro ⟨run, hrun, -, hunfinished⟩
    rw [h.reservation.noRun hgrip hrun] at hunfinished
    cases hunfinished
  refine ⟨h.reservation.hands hgrip (by simp) (by simp) rfl rfl rfl rfl ?_, ?_,
    h.tickets.congr rfl rfl rfl (fun party job' hholder => ?_) (fun e he hholder => ?_),
    fun run hrun _ => ?_, fun e he => (h.endings e he).congr rfl⟩
  · exact (grip_worker (w := w.gotoStart k .idle) { id, job }).trans
      (congrArg (fun f => Function.update f Party.worker (some (job, GripPc.marked)))
        (grip_gotoStart k .idle))
  · exact {
      current := fun party other hother => by
        rw [hannounced] at hother
        obtain ⟨-, rfl⟩ := honly hother
        exact ⟨hactive, hcurrent, hnew, hbound⟩
      active := fun _ => ⟨.worker, by
        rw [hannounced, Function.update_self]
        exact congrArg some hcurrent.symm⟩
      quiet := fun k' other hother => by
        rw [hannounced] at hother
        cases (honly hother).1
      live := fun run hrun _ => by
        obtain rfl := Option.some.inj hrun
        exact List.mem_append_right _ (List.mem_singleton_self id)
      spawned := fun other hother => by
        rcases List.mem_append.1 hother with hother | hother
        · obtain ⟨hlt, hended | hrunning⟩ := h.identity.spawned other hother
          · exact ⟨hlt, Or.inl hended⟩
          · exact absurd hrunning hlive
        · obtain rfl := List.mem_singleton.1 hother
          exact ⟨hbound, Or.inr ⟨_, rfl, rfl, rfl⟩⟩
      ended := fun other hother => List.mem_append_left _ (h.identity.ended other hother)
      cancels := h.identity.cancels
      once := h.identity.once }
  · rw [Option.some.injEq, Holder.benchmark.injEq] at hholder
    obtain ⟨-, rfl⟩ := hholder
    exact ⟨_, hheld⟩
  · rw [hheld, Option.some.injEq, Holder.benchmark.injEq] at hholder
    cases hholder.1
  · obtain rfl := Option.some.inj hrun
    exact {
      begun := fun hentered => absurd rfl hentered
      reloads := trivial
      recommends := fun hrecommended => by
        have hnone : w.state.hasRecommendation = true := hrecommended
        rw [hrecommends] at hnone
        cases hnone
      final := fun state restored heq => by cases heq
      cancels := fun hin => ⟨hcancels hin, rfl⟩ }

/-- A call whose thread does not start finishes the run itself. -/
theorem Inv.fail (h : w.Inv registry) {k id : ℕ} {job : Job} (hpc : w.starts k = .failing job id) :
    ((w.finish .failed false).gotoStart k (.releasing job .exchange)).Inv registry := by
  have hgrip : w.grip (.starter k) = some (job, .marked) := by rw [grip, hpc]; rfl
  have hannounced : ((w.finish .failed false).gotoStart k (.releasing job .exchange)).announced =
      Function.update w.announced (.starter k) none := announced_gotoStart k _
  have hsilent (party : Party) :
      ((w.finish .failed false).gotoStart k (.releasing job .exchange)).announced party = none := by
    rw [hannounced]
    by_cases hparty : party = .starter k
    · rw [hparty, Function.update_self]
    · rw [Function.update_of_ne hparty, h.reservation.silent hgrip hparty]
  refine ⟨h.reservation.congr rfl rfl rfl rfl ?_, ?_, h.tickets.same rfl rfl rfl rfl,
    fun run hrun hunfinished => ?_, fun e he => (h.endings e he).congr rfl⟩
  · refine (grip_gotoStart (w := w.finish .failed false) k _).trans ?_
    exact Function.update_eq_self_iff.2 hgrip.symm
  · exact {
      current := fun party other hother => by
        rw [hsilent] at hother
        cases hother
      active := fun hactive => by cases hactive
      quiet := fun k' other hother => by
        rw [hsilent] at hother
        cases hother
      live := h.identity.live
      spawned := h.identity.spawned
      ended := h.identity.ended
      cancels := h.identity.cancels
      once := h.identity.once }
  · rw [h.reservation.noRun hgrip hrun] at hunfinished
    cases hunfinished

theorem Inv.startStep (h : w.Inv registry) {k : ℕ} {ok : Bool}
    (hstep : w.startStep k ok = some w') : w'.Inv registry := by
  rw [World.startStep] at hstep
  cases hpc : w.starts k with
  | idle =>
      rw [hpc] at hstep
      cases hstep
  | checked model candidateLimit =>
      rw [hpc] at hstep
      dsimp only at hstep
      split at hstep
      · rename_i hfree
        obtain rfl := Option.some.inj hstep
        exact h.reserve hpc hfree
      · obtain rfl := Option.some.inj hstep
        exact h.gotoStart (by rw [hpc]; rfl) (by rw [hpc]; rfl)
  | exchanged job =>
      rw [hpc] at hstep
      obtain rfl := Option.some.inj hstep
      have hgrip : w.grip (.starter k) = some (job, .exchanged) := by rw [grip, hpc]; rfl
      have hkept : w.Kept (w.gotoStart k (.stored job)) := .gotoStart (by rw [hpc]; rfl)
      have hgrip' : (w.gotoStart k (.stored job)).grip =
          Function.update w.grip (.starter k) (some (job, .marked)) := grip_gotoStart k _
      exact h.kept ⟨rfl, rfl, rfl, rfl, rfl, rfl, hkept.announced, fun _ _ => Iff.rfl⟩
        (h.reservation.moves hgrip rfl rfl rfl rfl (by simp) hgrip')
        (h.tickets.same rfl rfl rfl rfl)
  | stored job =>
      rw [hpc] at hstep
      obtain rfl := Option.some.inj hstep
      cases ok with
      | true => exact h.gotoStart (by rw [hpc]; rfl) (by rw [hpc]; rfl)
      | false => exact h.gotoStart (by rw [hpc]; rfl) (by rw [hpc]; rfl)
  | joining job =>
      rw [hpc] at hstep
      dsimp only at hstep
      split at hstep
      · obtain rfl := Option.some.inj hstep
        exact h.gotoStart (by rw [hpc]; rfl) (by rw [hpc]; rfl)
      · cases hstep
  | resetting job =>
      rw [hpc] at hstep
      obtain rfl := Option.some.inj hstep
      exact h.reset hpc
  | announcing job =>
      rw [hpc] at hstep
      obtain rfl := Option.some.inj hstep
      exact h.announce hpc
  | spawning job id =>
      rw [hpc] at hstep
      cases ok with
      | true =>
          obtain rfl := Option.some.inj hstep
          exact h.spawn hpc
      | false =>
          obtain rfl := Option.some.inj hstep
          exact h.gotoStart (by rw [hpc]; rfl) (by rw [hpc]; rfl)
  | failing job id =>
      rw [hpc] at hstep
      obtain rfl := Option.some.inj hstep
      exact h.fail hpc
  | releasing job pc =>
      rw [hpc] at hstep
      cases pc with
      | exchange =>
          have hgrip : w.grip (.starter k) = some (job, .marked) := by rw [grip, hpc]; rfl
          dsimp only at hstep
          rw [h.reservation.releaseResource_exchange hgrip] at hstep
          obtain rfl := Option.some.inj hstep
          have hkept : w.Kept (w.gotoStart k (.releasing job (.compare job.resource))) :=
            .gotoStart (by rw [hpc]; rfl)
          exact h.exchanges hgrip
            ⟨rfl, rfl, rfl, rfl, rfl, rfl, hkept.announced, fun _ _ => Iff.rfl⟩ rfl rfl rfl rfl
            rfl rfl (grip_gotoStart k _)
      | compare owned =>
          have hgrip : w.grip (.starter k) = some (job, .comparing owned) := by rw [grip, hpc]; rfl
          dsimp only at hstep
          rw [h.reservation.releaseResource_compare hgrip] at hstep
          obtain rfl := Option.some.inj hstep
          have hkept : w.Kept (w.gotoStart k .idle) := .gotoStart (by rw [hpc]; rfl)
          exact h.compares hgrip
            ⟨rfl, rfl, rfl, rfl, rfl, rfl, hkept.announced, fun _ _ => Iff.rfl⟩ rfl rfl rfl rfl
            rfl rfl (grip_gotoStart k _)

structure Moved (registry : ModelRegistry) (w : World) (run : Run) (w' : World) (run' : Run) :
    Prop where
  id : run'.id = run.id
  job : run'.job = run.job
  unfinished : run.unfinished = true
  unfinished' : run'.unfinished = true
  state : w'.state.state = w.state.state
  stateId : w'.state.id = w.state.id
  rest : w' = { w with worker := some run', state := w'.state }
  phase : w'.Phase registry run'

theorem Inv.moved (h : w.Inv registry) {run run' : Run} (hrun : w.worker = some run)
    (hmoved : Moved registry w run w' run') : w'.Inv registry := by
  obtain ⟨hid, hjob, hunfinished, hunfinished', hstate, hstateId, hrest, hphase⟩ := hmoved
  generalize w'.state = state at *
  subst hrest
  have hannounced : announced { w with worker := some run', state } = w.announced := by
    refine (announced_worker (w := w) run').trans (Function.update_eq_self_iff.2 ?_)
    rw [announced, hrun, Option.bind_some, Run.announced, Run.announced, if_pos hunfinished,
      if_pos hunfinished', hid]
  have hgrip : w.grip .worker = some (run.job, .marked) := by
    rw [grip, hrun, Option.bind_some, grip_of_unfinished hunfinished]
  have hgrips : grip { w with worker := some run', state } = w.grip := by
    refine (grip_worker (w := w) run').trans (Function.update_eq_self_iff.2 ?_)
    rw [hgrip, grip_of_unfinished hunfinished', hjob]
  have hlive {id : ℕ} (hid' : w.runLive id) : runLive { w with worker := some run', state } id := by
    obtain ⟨run₀, hrun₀, rfl, -⟩ := hid'
    rw [hrun, Option.some.injEq] at hrun₀
    subst hrun₀
    exact ⟨run', rfl, hid, hunfinished'⟩
  refine ⟨h.reservation.congr rfl rfl rfl rfl hgrips, ?_, h.tickets.same rfl rfl rfl rfl,
    fun run'' hrun'' _ => ?_, fun e he => (h.endings e he).congr rfl⟩
  · exact {
      current := fun party id hparty => by
        rw [hannounced] at hparty
        obtain ⟨hactive, hcurrent, hnew, hbound⟩ := h.identity.current party id hparty
        exact ⟨by rw [hstate, hactive], hstateId.trans hcurrent, hnew, hbound⟩
      active := fun hactive => by
        rw [hstate] at hactive
        rw [hannounced, hstateId]
        exact h.identity.active hactive
      quiet := fun k id hk => by
        have hsilent : w.announced (.starter k) = none := h.reservation.silent hgrip (by simp)
        rw [hannounced, hsilent] at hk
        cases hk
      live := fun run'' hrun'' _ => by
        obtain rfl := Option.some.inj hrun''
        rw [hid]
        exact h.identity.live run hrun hunfinished
      spawned := fun id hin => ⟨(h.identity.spawned id hin).1,
        (h.identity.spawned id hin).2.imp_right hlive⟩
      ended := h.identity.ended
      cancels := h.identity.cancels
      once := h.identity.once }
  · obtain rfl := Option.some.inj hrun''
    exact hphase

theorem Phase.unrecommended {run : Run} (h : w.Phase registry run)
    (hconcluding : ∀ restored, run.pc ≠ .concluding restored)
    (hfinishing : ∀ restored, run.pc ≠ .finishing .completed restored) :
    w.state.hasRecommendation = false := by
  by_contra hrecommended
  rw [Bool.not_eq_false] at hrecommended
  obtain ⟨-, restored, hpc | hpc⟩ := h.recommends hrecommended
  · exact hconcluding restored hpc
  · exact hfinishing restored hpc

/-- The worker goes on within the run: what holds at the next point. -/
theorem Phase.moves {run run' : Run} (h : w.Phase registry run) (state : Snapshot)
    (hid : run'.id = run.id) (hjob : run'.job = run.job) (hunfinished : run.unfinished = true)
    (hunfinished' : run'.unfinished = true) (hstate : state.state = w.state.state)
    (hstateId : state.id = w.state.id) (hbegun : run'.Begun registry) (hreloads : run'.Reloads)
    (hrecommends : state.hasRecommendation = true → state.trials.any id = true ∧
      ∃ restored, run'.pc = .concluding restored ∨ run'.pc = .finishing .completed restored)
    (hfinal : ∀ s restored, run'.pc = .finishing s restored → s.final = true)
    (hlate : late { w with worker := some run', state } run' = true →
      w.cancelRequested = false ∨ w.late run = true) :
    Moved registry w run { w with worker := some run', state } run' := by
  refine ⟨hid, hjob, hunfinished, hunfinished', hstate, hstateId, rfl,
    ⟨fun _ => hbegun, hreloads, hrecommends, hfinal, fun hin => ?_⟩⟩
  obtain ⟨hflag, hearly⟩ := h.cancels (hid ▸ hin)
  refine ⟨hflag, ?_⟩
  by_contra hlate'
  rw [Bool.not_eq_false] at hlate'
  rcases hlate hlate' with hunset | hbefore
  · rw [hunset] at hflag
    cases hflag
  · rw [hbefore] at hearly
    cases hearly

theorem Phase.goto {run : Run} {pc : RunPc} (h : w.Phase registry run)
    (hunfinished : run.unfinished = true) (hentered : run.pc ≠ .entered)
    (hquiet : w.state.hasRecommendation = false)
    (hunfinished' : ({ run with pc } : Run).unfinished = true)
    (hreloads : ({ run with pc } : Run).Reloads)
    (hfinal : ∀ s restored, pc = .finishing s restored → s.final = true)
    (hlate : (w.gotoRun run pc).late { run with pc } = true →
      w.cancelRequested = false ∨ w.late run = true) :
    Moved registry w run (w.gotoRun run pc) { run with pc } := by
  obtain ⟨hprevious, hselected⟩ := h.begun hentered
  refine h.moves w.state rfl rfl hunfinished hunfinished' rfl rfl ⟨hprevious, hselected⟩ hreloads
    (fun hrecommended => ?_) hfinal hlate
  rw [hquiet] at hrecommended
  cases hrecommended

theorem Phase.restores {run : Run} (h : w.Phase registry run) (state : Snapshot)
    (hunfinished : run.unfinished = true) (hentered : run.pc ≠ .entered)
    (hstate : state.state = w.state.state)
    (hstateId : state.id = w.state.id) (hsame : state.hasRecommendation = false)
    (after : AfterRestore) :
    Moved registry w run { w with worker := some (run.restore after), state }
      (run.restore after) := by
  obtain ⟨hprevious, hselected⟩ := h.begun hentered
  refine h.moves state rfl rfl hunfinished rfl hstate hstateId ⟨hprevious, hselected⟩
    (fun _ => List.nil_append _) (fun hrecommended => ?_) (fun s restored heq => by cases heq)
    (fun hlate => by cases hlate)
  rw [hsame] at hrecommended
  cases hrecommended

/-! The operations of the worker, each of which keeps it within its run. -/

section Operations

variable {run : Run}

theorem Phase.begins (h : w.Phase registry run) (hpc : run.pc = .entered) {resident : List String}
    {primary : Option String} (hprimary : primary.all (selects registry) = true) :
    ∃ run', Moved registry w run { w with
      worker := some { run with
        resident := resident
        previousModels := resident.filter (onResource registry run.job.resource)
        primaryBefore := primary
        pc := .unloading (resident.filter (onResource registry run.job.resource)) } } run' := by
  have hnone : w.state.hasRecommendation = false := h.unrecommended (by simp [hpc]) (by simp [hpc])
  refine ⟨_, h.moves w.state rfl rfl (by rw [Run.unfinished, hpc]) rfl rfl rfl ⟨rfl, hprimary⟩
    trivial (fun hrecommended => ?_) (fun s restored heq => by cases heq)
    (fun hlate => by cases hlate)⟩
  rw [hnone] at hrecommended
  cases hrecommended

theorem Phase.unloads (h : w.Phase registry run) {name : String} {rest : List String}
    (hpc : run.pc = .unloading (name :: rest)) (ok : Bool) :
    ∃ run', Moved registry w run
      (if ok then w.gotoRun run (.unloading rest) else { w with worker := run.restore .fail })
      run' := by
  have hunfinished : run.unfinished = true := by rw [Run.unfinished, hpc]
  have hnone : w.state.hasRecommendation = false := h.unrecommended (by simp [hpc]) (by simp [hpc])
  cases ok with
  | true =>
      exact ⟨_, h.goto hunfinished (by simp [hpc]) hnone rfl trivial
        (fun s restored heq => by cases heq) (fun hlate => by cases hlate)⟩
  | false => exact ⟨_, h.restores w.state hunfinished (by simp [hpc]) rfl rfl hnone .fail⟩

theorem Phase.unloaded (h : w.Phase registry run) (hpc : run.pc = .unloading []) :
    ∃ run', Moved registry w run (w.gotoRun run .firstCheck) run' :=
  ⟨_, h.goto (by rw [Run.unfinished, hpc]) (by simp [hpc])
    (h.unrecommended (by simp [hpc]) (by simp [hpc])) rfl trivial
    (fun s restored heq => by cases heq) (fun hlate => by cases hlate)⟩

theorem Phase.firstCheck (h : w.Phase registry run) (hpc : run.pc = .firstCheck) :
    ∃ run', Moved registry w run
      (if w.cancelRequested then { w with worker := run.restore .cancel }
        else w.gotoRun run .selecting) run' := by
  have hunfinished : run.unfinished = true := by rw [Run.unfinished, hpc]
  have hnone : w.state.hasRecommendation = false := h.unrecommended (by simp [hpc]) (by simp [hpc])
  split
  · exact ⟨_, h.restores w.state hunfinished (by simp [hpc]) rfl rfl hnone .cancel⟩
  · exact ⟨_, h.goto hunfinished (by simp [hpc]) hnone rfl trivial
      (fun s restored heq => by cases heq) (fun hlate => by cases hlate)⟩

theorem Phase.select (h : w.Phase registry run) (hpc : run.pc = .selecting) (candidates : ℕ) :
    ∃ run', Moved registry w run
      (if candidates = 0 then { w with worker := run.restore .fail }
        else w.gotoRun run (.baseline candidates)) run' := by
  have hunfinished : run.unfinished = true := by rw [Run.unfinished, hpc]
  have hnone : w.state.hasRecommendation = false := h.unrecommended (by simp [hpc]) (by simp [hpc])
  split
  · exact ⟨_, h.restores w.state hunfinished (by simp [hpc]) rfl rfl hnone .fail⟩
  · exact ⟨_, h.goto hunfinished (by simp [hpc]) hnone rfl trivial
      (fun s restored heq => by cases heq) (fun hlate => by cases hlate)⟩

/-- The runner has measured something, which is recorded in the state. -/
theorem Phase.measured (h : w.Phase registry run) (state : Snapshot)
    (hunfinished : run.unfinished = true) (hentered : run.pc ≠ .entered)
    (hnone : w.state.hasRecommendation = false) (hstate : state.state = w.state.state)
    (hstateId : state.id = w.state.id)
    (hsame : state.hasRecommendation = w.state.hasRecommendation) (remaining : ℕ) :
    ∃ run', Moved registry w run { w.gotoRun run (.trialCheck remaining) with state } run' := by
  obtain ⟨hprevious, hselected⟩ := h.begun hentered
  refine ⟨_, h.moves state rfl rfl hunfinished rfl hstate hstateId ⟨hprevious, hselected⟩ trivial
    (fun hrecommended => ?_) (fun s restored heq => by cases heq) (fun hlate => by cases hlate)⟩
  rw [hsame, hnone] at hrecommended
  cases hrecommended

theorem Phase.trialCheck (h : w.Phase registry run) {remaining : ℕ}
    (hpc : run.pc = .trialCheck (remaining + 1)) :
    ∃ run', Moved registry w run
      (if w.cancelRequested then { w with worker := run.restore .finalCheck }
        else w.gotoRun run (.trial remaining)) run' := by
  have hunfinished : run.unfinished = true := by rw [Run.unfinished, hpc]
  have hnone : w.state.hasRecommendation = false := h.unrecommended (by simp [hpc]) (by simp [hpc])
  split
  · exact ⟨_, h.restores w.state hunfinished (by simp [hpc]) rfl rfl hnone .finalCheck⟩
  · exact ⟨_, h.goto hunfinished (by simp [hpc]) hnone rfl trivial
      (fun s restored heq => by cases heq) (fun hlate => by cases hlate)⟩

theorem Phase.loads (h : w.Phase registry run) {name : String} {rest : List String} {ok : Bool}
    {after : AfterRestore} (hpc : run.pc = .restoring (name :: rest) ok after) (loaded : Bool) :
    ∃ run', Moved registry w run { w with
      worker := some { run with
        loads := if loaded then run.loads ++ [name] else run.loads
        pc := .restoring rest (ok && loaded) after } } run' := by
  have hnone : w.state.hasRecommendation = false := h.unrecommended (by simp [hpc]) (by simp [hpc])
  obtain ⟨hprevious, hselected⟩ := h.begun (by simp [hpc])
  have hreloads := h.reloads
  rw [Run.Reloads, hpc] at hreloads
  refine ⟨_, h.moves w.state rfl rfl (by rw [Run.unfinished, hpc]) rfl rfl rfl
    ⟨hprevious, hselected⟩ (fun hok => ?_) (fun hrecommended => ?_)
    (fun s restored heq => by cases heq) (fun hlate => by cases hlate)⟩
  · rw [Bool.and_eq_true] at hok
    obtain ⟨hok, rfl⟩ := hok
    have hloads := hreloads hok
    rw [if_pos rfl, List.append_assoc, List.singleton_append]
    exact hloads
  · exact absurd hrecommended (by simp [hnone])

theorem Phase.restored (h : w.Phase registry run) {ok : Bool} {after : AfterRestore}
    (hpc : run.pc = .restoring [] ok after) :
    ∃ run', Moved registry w run (w.gotoRun run (match after with
      | .fail => .finishing .failed ok
      | .cancel => .finishing .cancelled ok
      | .baselineError => .flagCheck ok
      | .finalCheck => .finalCheck ok)) run' := by
  have hunfinished : run.unfinished = true := by rw [Run.unfinished, hpc]
  have hnone : w.state.hasRecommendation = false := h.unrecommended (by simp [hpc]) (by simp [hpc])
  have hreloads := h.reloads
  rw [Run.Reloads, hpc] at hreloads
  have hloads (hok : ok = true) : run.loads = run.restoreOrder :=
    (List.append_nil _).symm.trans (hreloads hok)
  cases after with
  | fail | cancel =>
      exact ⟨_, h.goto hunfinished (by simp [hpc]) hnone rfl hloads
        (fun s restored heq => by cases heq; rfl) (fun hlate => by cases hlate)⟩
  | baselineError | finalCheck =>
      exact ⟨_, h.goto hunfinished (by simp [hpc]) hnone rfl hloads
        (fun s restored heq => by cases heq) (fun hlate => by cases hlate)⟩

theorem Phase.flagCheck (h : w.Phase registry run) {restored : Bool}
    (hpc : run.pc = .flagCheck restored) :
    ∃ run', Moved registry w run
      (w.gotoRun run (.finishing (if w.cancelRequested then .cancelled else .failed) restored))
      run' := by
  have hunfinished : run.unfinished = true := by rw [Run.unfinished, hpc]
  have hnone : w.state.hasRecommendation = false := h.unrecommended (by simp [hpc]) (by simp [hpc])
  have hreloads := h.reloads
  rw [Run.Reloads, hpc] at hreloads
  split
  · exact ⟨_, h.goto hunfinished (by simp [hpc]) hnone rfl hreloads
      (fun s restored heq => by cases heq; rfl) (fun hlate => by cases hlate)⟩
  · exact ⟨_, h.goto hunfinished (by simp [hpc]) hnone rfl hreloads
      (fun s restored heq => by cases heq; rfl) (fun hlate => by cases hlate)⟩

/-- The worker's last look at the flag. -/
theorem Phase.finalCheck (h : w.Phase registry run) {restored : Bool}
    (hpc : run.pc = .finalCheck restored) :
    ∃ run', Moved registry w run
      (w.gotoRun run
        (if w.cancelRequested then .finishing .cancelled restored else .scoring restored))
      run' := by
  have hunfinished : run.unfinished = true := by rw [Run.unfinished, hpc]
  have hnone : w.state.hasRecommendation = false := h.unrecommended (by simp [hpc]) (by simp [hpc])
  have hreloads := h.reloads
  rw [Run.Reloads, hpc] at hreloads
  split
  · exact ⟨_, h.goto hunfinished (by simp [hpc]) hnone rfl hreloads
      (fun s restored heq => by cases heq; rfl) (fun hlate => by cases hlate)⟩
  · rename_i hunset
    exact ⟨_, h.goto hunfinished (by simp [hpc]) hnone rfl hreloads
      (fun s restored heq => by cases heq) (fun _ => Or.inl (Bool.eq_false_iff.2 hunset))⟩

theorem Phase.scores (h : w.Phase registry run) {restored : Bool}
    (hpc : run.pc = .scoring restored) (best : Option ℕ) :
    ∃ run', Moved registry w run
      { w.gotoRun run (.concluding restored) with
        state := { w.state with
          hasRecommendation := best.any fun index => w.state.trials[index]?.getD false } } run' := by
  have hreloads := h.reloads
  rw [Run.Reloads, hpc] at hreloads
  obtain ⟨hprevious, hselected⟩ := h.begun (by simp [hpc])
  refine ⟨_, h.moves { w.state with
      hasRecommendation := best.any fun index => w.state.trials[index]?.getD false } rfl rfl
    (by rw [Run.unfinished, hpc]) rfl rfl rfl ⟨hprevious, hselected⟩ hreloads
    (fun hrecommended => ⟨?_, restored, Or.inl rfl⟩) (fun s restored heq => by cases heq)
    (fun hlate => Or.inr ?_)⟩
  · obtain ⟨index, -, htrial⟩ := (Option.any_eq_true _ _).1 hrecommended
    cases hindex : w.state.trials[index]? with
    | none =>
        rw [hindex] at htrial
        cases htrial
    | some completed =>
        rw [hindex] at htrial
        exact List.any_eq_true.2 ⟨completed, List.mem_of_getElem? hindex, htrial⟩
  · rw [late, hpc]
    exact hlate

theorem Phase.concludes (h : w.Phase registry run) {restored : Bool}
    (hpc : run.pc = .concluding restored) :
    ∃ run', Moved registry w run
      (w.gotoRun run (.finishing
        (if w.state.hasRecommendation || w.state.trials.any id then .completed else .failed)
        restored)) run' := by
  have hreloads := h.reloads
  rw [Run.Reloads, hpc] at hreloads
  obtain ⟨hprevious, hselected⟩ := h.begun (by simp [hpc])
  refine ⟨_, h.moves w.state rfl rfl (by rw [Run.unfinished, hpc]) rfl rfl rfl
    ⟨hprevious, hselected⟩ hreloads
    (fun hrecommended => ⟨(h.recommends hrecommended).1, restored, Or.inr ?_⟩)
    (fun s restored heq => ?_) (fun hlate => Or.inr ?_)⟩
  · rw [hrecommended, Bool.true_or, if_pos rfl]
  · split at heq
    · cases heq
      rfl
    · cases heq
      rfl
  · rw [late, hpc]
    rw [late] at hlate
    by_cases hmeasured : (w.state.hasRecommendation || w.state.trials.any id) = true
    · rcases Bool.or_eq_true_iff.1 hmeasured with hrecommended | htrials
      · exact (h.recommends hrecommended).1
      · exact htrials
    · rw [if_neg hmeasured] at hlate
      cases hlate

end Operations

theorem runStep_moves {run : Run} (h : w.Phase registry run) {input : RunInput}
    (hunfinished : run.unfinished = true)
    (hstep : w.runStep registry run run.pc input = some w') :
    (∃ run', Moved registry w run w' run') ∨
      ∃ state restored, run.pc = .finishing state restored ∧
        w' = { (w.finish state restored).gotoRun run (.releasing .exchange) with
          ended := w.ended ++ [{ run, snapshot := (w.finish state restored).state }] } := by
  have hquiet := h.unrecommended
  unfold runStep at hstep
  split at hstep
  case h_1 resident primary hpc =>
    split at hstep
    · rename_i hprimary
      exact Or.inl (Option.some.inj hstep ▸ h.begins hpc hprimary)
    · cases hstep
  case h_2 name rest ok hpc => exact Or.inl (Option.some.inj hstep ▸ h.unloads hpc ok)
  case h_3 hpc => exact Or.inl (Option.some.inj hstep ▸ h.unloaded hpc)
  case h_4 hpc => exact Or.inl (Option.some.inj hstep ▸ h.firstCheck hpc)
  case h_5 candidates hpc =>
    have hselect := h.select hpc candidates
    split at hstep
    · cases hstep
    split at hstep
    · rename_i hzero
      rw [if_pos hzero] at hselect
      exact Or.inl (Option.some.inj hstep ▸ hselect)
    · rename_i hsome
      rw [if_neg hsome] at hselect
      exact Or.inl (Option.some.inj hstep ▸ hselect)
  case h_6 selected outcome hpc =>
    have hnone : w.state.hasRecommendation = false := hquiet (by simp [hpc]) (by simp [hpc])
    cases outcome with
    | measured =>
        exact Or.inl (Option.some.inj hstep ▸ h.measured { w.state with hasBaseline := true }
          hunfinished (by simp [hpc]) hnone rfl rfl rfl selected)
    | error =>
        obtain rfl := Option.some.inj hstep
        exact Or.inl ⟨_, h.restores { w.state with hasBaseline := true } hunfinished
          (by simp [hpc]) rfl rfl hnone .baselineError⟩
    | exception =>
        obtain rfl := Option.some.inj hstep
        exact Or.inl ⟨_, h.restores w.state hunfinished (by simp [hpc]) rfl rfl hnone .fail⟩
  case h_7 remaining hpc =>
    cases remaining with
    | zero =>
        have hnone : w.state.hasRecommendation = false := hquiet (by simp [hpc]) (by simp [hpc])
        obtain rfl := Option.some.inj hstep
        exact Or.inl ⟨_, h.restores w.state hunfinished (by simp [hpc]) rfl rfl hnone .finalCheck⟩
    | succ remaining => exact Or.inl (Option.some.inj hstep ▸ h.trialCheck hpc)
  case h_8 remaining outcome hpc =>
    have hnone : w.state.hasRecommendation = false := hquiet (by simp [hpc]) (by simp [hpc])
    split at hstep
    · obtain rfl := Option.some.inj hstep
      exact Or.inl ⟨_, h.restores w.state hunfinished (by simp [hpc]) rfl rfl hnone .fail⟩
    · exact Or.inl (Option.some.inj hstep ▸ h.measured { w.state with
          trials := w.state.trials ++ [decide (outcome = .measured)] }
        hunfinished (by simp [hpc]) hnone rfl rfl rfl remaining)
  case h_9 name rest ok after loaded hpc => exact Or.inl (Option.some.inj hstep ▸ h.loads hpc loaded)
  case h_10 ok after hpc => exact Or.inl (Option.some.inj hstep ▸ h.restored hpc)
  case h_11 restored hpc => exact Or.inl (Option.some.inj hstep ▸ h.flagCheck hpc)
  case h_12 restored hpc => exact Or.inl (Option.some.inj hstep ▸ h.finalCheck hpc)
  case h_13 restored best hpc => exact Or.inl (Option.some.inj hstep ▸ h.scores hpc best)
  case h_14 restored hpc => exact Or.inl (Option.some.inj hstep ▸ h.concludes hpc)
  case h_15 state restored hpc =>
    obtain rfl := Option.some.inj hstep
    exact Or.inr ⟨state, restored, hpc, rfl⟩
  case h_16 pc hpc =>
    rw [Run.unfinished, hpc] at hunfinished
    cases hunfinished
  case h_17 => cases hstep

/-- The run comes to its end. -/
theorem Inv.finishes (h : w.Inv registry) {run : Run} {state : BenchmarkState} {restored : Bool}
    (hrun : w.worker = some run) (hpc : run.pc = .finishing state restored) :
    ({ (w.finish state restored).gotoRun run (.releasing .exchange) with
        ended := w.ended ++ [{ run, snapshot := (w.finish state restored).state }] } :
      World).Inv registry := by
  have hunfinished : run.unfinished = true := by rw [Run.unfinished, hpc]
  have hphase := h.phase run hrun hunfinished
  have hgrip : w.grip .worker = some (run.job, .marked) := by
    rw [grip, hrun, Option.bind_some, grip_of_unfinished hunfinished]
  have hid : w.announced .worker = some run.id := by
    rw [announced, hrun, Option.bind_some, Run.announced, if_pos hunfinished]
  obtain ⟨hactive, hcurrent, hnew, hbound⟩ := h.identity.current _ _ hid
  have hfinal := hphase.final state restored hpc
  have hsilent (party : Party) : announced ({ (w.finish state restored).gotoRun run
      (.releasing .exchange) with
        ended := w.ended ++ [{ run, snapshot := (w.finish state restored).state }] } : World)
      party = none := by
    refine (congrFun (announced_worker (w := w) { run with pc := .releasing .exchange }) party).trans
      ?_
    by_cases hparty : party = .worker
    · rw [hparty, Function.update_self]
      rfl
    · rw [Function.update_of_ne hparty, h.reservation.silent hgrip hparty]
  have hlive {id : ℕ} (hin : w.runLive id) : id = run.id := by
    obtain ⟨run', hrun', rfl, -⟩ := hin
    rw [hrun, Option.some.injEq] at hrun'
    rw [hrun']
  refine ⟨h.reservation.congr rfl rfl rfl rfl ?_, ?_, ?_, fun run' hrun' hunfinished' => ?_,
    fun e he => ?_⟩
  · refine (grip_worker (w := w) { run with pc := .releasing .exchange }).trans ?_
    exact Function.update_eq_self_iff.2 hgrip.symm
  · exact {
      current := fun party id hparty => by
        rw [hsilent] at hparty
        cases hparty
      active := fun hstill => by
        have hover : state.active = true := hstill
        cases state <;> simp_all [BenchmarkState.active, BenchmarkState.final]
      quiet := fun k id hk => by
        rw [hsilent] at hk
        cases hk
      live := fun run' hrun' hunfinished' => by
        obtain rfl := Option.some.inj hrun'
        cases hunfinished'
      spawned := fun id hin => by
        obtain ⟨hlt, hended | hrunning⟩ := h.identity.spawned id hin
        · exact ⟨hlt, Or.inl (by simp only [endedIds, List.map_append, List.mem_append]
                                 exact Or.inl hended)⟩
        · exact ⟨hlt, Or.inl (by simp [endedIds, hlive hrunning])⟩
      ended := fun id hin => by
        simp only [endedIds, List.map_append, List.map_cons, List.map_nil, List.mem_append,
          List.mem_singleton] at hin
        rcases hin with hin | rfl
        · exact h.identity.ended id hin
        · exact h.identity.live run hrun hunfinished
      cancels := h.identity.cancels
      once := by
        simp only [endedIds, List.map_append, List.map_cons, List.map_nil]
        refine h.identity.once.append (List.nodup_singleton _) fun id hin hlast => ?_
        obtain rfl := List.mem_singleton.1 hlast
        exact hnew hin }
  · have hheld := (h.reservation.holds _ _ _ hgrip).1
    exact ⟨h.tickets.own, h.tickets.bound, h.tickets.once, h.tickets.held, fun e he => by
      rcases List.mem_append.1 he with he | he
      · exact h.tickets.ended e he
      · obtain rfl := List.mem_singleton.1 he
        exact Or.inr hheld⟩
  · obtain rfl := Option.some.inj hrun'
    cases hunfinished'
  · rcases List.mem_append.1 he with he | he
    · exact (h.endings e he).congr rfl
    · obtain rfl := List.mem_singleton.1 he
      have hreloads := hphase.reloads
      rw [Run.Reloads, hpc] at hreloads
      refine ⟨hphase.begun (by simp [hpc]), hfinal, hreloads, fun hin => ?_⟩
      have hearly := (hphase.cancels hin).2
      rw [late, hpc] at hearly
      have hstate : state ≠ .completed := by
        rintro rfl
        cases hearly
      refine ⟨hstate, hphase.unrecommended (by simp [hpc]) fun restored' heq => ?_⟩
      rw [hpc, RunPc.finishing.injEq] at heq
      exact hstate heq.1

theorem Inv.runStep (h : w.Inv registry) {run : Run} {input : RunInput}
    (hrun : w.worker = some run) (hstep : w.runStep registry run run.pc input = some w') :
    w'.Inv registry := by
  cases hunfinished : run.unfinished with
  | true =>
      rcases runStep_moves (h.phase run hrun hunfinished) hunfinished hstep with
        ⟨run', hmoved⟩ | ⟨state, restored, hpc, rfl⟩
      · exact h.moved hrun hmoved
      · exact h.finishes hrun hpc
  | false =>
      rw [Run.unfinished] at hunfinished
      split at hunfinished
      · rename_i pc hpc
        have hkept {w₁ : World} {run' : Run} (hrun' : w₁.worker = some run')
            (hover : run'.unfinished = false)
            (hsame : w₁.starts = w.starts) (hstate : w₁.state = w.state)
            (hnext : w₁.nextId = w.nextId) (hstarted : w₁.started = w.started)
            (hcancels : w₁.cancels = w.cancels) (hflag : w₁.cancelRequested = w.cancelRequested)
            (hended : w₁.ended = w.ended) : w.Kept w₁ := by
          have hdone : run.unfinished = false := by rw [Run.unfinished, hpc]
          refine ⟨hstate, hnext, hstarted, hcancels, hflag, hended, ?_, fun run₀ hrun₀ => ?_⟩
          · funext party
            cases party with
            | starter k => rw [announced, announced, hsame]
            | worker =>
                rw [announced, announced, hrun, hrun', Option.bind_some, Option.bind_some,
                  Run.announced, Run.announced, hover, hdone]
                rfl
          · constructor
            · intro heq
              rw [hrun', Option.some.injEq] at heq
              rw [heq, hrun₀] at hover
              cases hover
            · intro heq
              rw [hrun, Option.some.injEq] at heq
              rw [heq, hrun₀] at hdone
              cases hdone
        rw [hpc] at hstep
        cases input with
        | step =>
            rw [World.runStep] at hstep
            cases pc with
            | exchange =>
                have hgrip : w.grip .worker = some (run.job, .marked) := by
                  rw [grip, hrun, Option.bind_some, Run.grip, hpc]
                rw [h.reservation.releaseResource_exchange hgrip] at hstep
                obtain rfl := Option.some.inj hstep
                exact h.exchanges hgrip (hkept rfl rfl rfl rfl rfl rfl rfl rfl rfl) rfl rfl rfl rfl
                  rfl rfl (grip_worker _)
            | compare owned =>
                have hgrip : w.grip .worker = some (run.job, .comparing owned) := by
                  rw [grip, hrun, Option.bind_some, Run.grip, hpc]
                rw [h.reservation.releaseResource_compare hgrip] at hstep
                obtain rfl := Option.some.inj hstep
                exact h.compares hgrip (hkept rfl rfl rfl rfl rfl rfl rfl rfl rfl) rfl rfl rfl rfl
                  rfl rfl (grip_worker _)
        | residents resident primary | lifecycle ok | select candidates | runner outcome
        | score best => cases hstep
      · rename_i hpc
        rw [hpc] at hstep
        cases input <;> cases hstep
      · cases hunfinished

theorem Inv.start (h : w.Inv registry) {k : ℕ} {model : ModelInfo} {candidateLimit : ℤ}
    (hstep : w.start k model candidateLimit = some w') : w'.Inv registry := by
  rw [World.start] at hstep
  split at hstep
  · cases hstep
  rename_i hidle
  rw [ne_eq, Decidable.not_not] at hidle
  split at hstep
  · exact Option.some.inj hstep ▸ h
  split at hstep
  · exact Option.some.inj hstep ▸ h
  · obtain rfl := Option.some.inj hstep
    exact h.gotoStart (by rw [hidle]; rfl) (by rw [hidle]; rfl)

/-- A cancel before the last look at the flag. -/
theorem Inv.cancel (h : w.Inv registry)
    (hearly : ∀ run, w.worker = some run → w.late run = false) : w.cancel.Inv registry := by
  rw [World.cancel]
  split
  · rename_i hactive
    obtain ⟨party, hparty⟩ := h.identity.active hactive
    obtain ⟨-, -, hnew, hbound⟩ := h.identity.current party _ hparty
    refine ⟨h.reservation.congr rfl rfl rfl rfl rfl, ?_, h.tickets.same rfl rfl rfl rfl,
      fun run hrun hunfinished => ?_, fun e he => ?_⟩
    · exact {
        current := fun other id hother => by
          obtain ⟨-, hcurrent, hrest⟩ := h.identity.current other id hother
          exact ⟨rfl, hcurrent, hrest⟩
        active := fun _ => ⟨party, hparty⟩
        quiet := fun k id hk => by
          obtain ⟨hunstarted, hrecommends, -⟩ := h.identity.quiet k id hk
          exact ⟨hunstarted, hrecommends, fun _ => rfl⟩
        live := h.identity.live
        spawned := h.identity.spawned
        ended := h.identity.ended
        cancels := fun id hin => by
          rcases List.mem_append.1 hin with hin | hin
          · exact h.identity.cancels id hin
          · obtain rfl := List.mem_singleton.1 hin
            exact hbound
        once := h.identity.once }
    · have hphase := h.phase run hrun hunfinished
      exact ⟨hphase.begun, hphase.reloads, hphase.recommends, hphase.final,
        fun _ => ⟨rfl, hearly run hrun⟩⟩
    · obtain ⟨hbegun, hfinal, hrestored, hcancelled⟩ := h.endings e he
      refine ⟨hbegun, hfinal, hrestored, fun hin => ?_⟩
      rcases List.mem_append.1 hin with hin | hin
      · exact hcancelled hin
      · rw [List.mem_singleton] at hin
        exact absurd (List.mem_map.2 ⟨e, he, hin⟩) hnew
  · exact h

/-- The resource changes hands between others than the benchmark. -/
theorem Inv.elsewhere (h : w.Inv registry)
    (hfree : ∀ party job, w.holder ≠ some (.benchmark party job))
    (hfree' : ∀ party job, w'.holder ≠ some (.benchmark party job)) (hkept : w.Kept w')
    (hmaintenance : w'.maintenance = w'.holder.elim .none Holder.resource)
    (hstore : w'.storeReserved = true ↔ w'.holder = some .store)
    (hreserved : w'.reserved = w.reserved) (hgrip : w'.grip = w.grip)
    (hreleased : w'.released = w.released) (htickets : w'.tickets = w.tickets) :
    w'.Inv registry := by
  have hgrips (party : Party) : w'.grip party = none := by
    rw [hgrip]
    exact h.reservation.grip_eq_none (hfree party)
  refine h.kept hkept ⟨fun party job pc hparty => ?_, fun party job hholder => ?_, hmaintenance,
    hstore, fun _ => ?_⟩ (h.tickets.congr hreleased htickets hkept.ended
      (fun party job hholder => absurd hholder (hfree' party job))
      fun e _ hholder => absurd hholder (hfree _ _))
  · rw [hgrips] at hparty
    cases hparty
  · exact absurd hholder (hfree' party job)
  · rw [hreserved]
    exact h.reservation.unrecorded fun party => h.reservation.grip_eq_none (hfree party)

theorem Inv.storeReserve (h : w.Inv registry) : w.storeReserve.Inv registry := by
  rw [World.storeReserve]
  split
  · rename_i hfree
    have hnone := h.reservation.holder_eq_none hfree
    exact h.elsewhere (by simp [hnone]) (by simp)
      ⟨rfl, rfl, rfl, rfl, rfl, rfl, rfl, fun _ _ => Iff.rfl⟩ rfl (by simp) rfl rfl rfl rfl
  · exact h

theorem Inv.storeRelease (h : w.Inv registry) : w.storeRelease.Inv registry := by
  rw [World.storeRelease]
  split
  · rename_i hstore
    have hheld := h.reservation.store.1 hstore
    have hmaintenance : w.maintenance = .cpu := by
      rw [h.reservation.maintenance, hheld]
      rfl
    rw [if_pos hmaintenance]
    exact h.elsewhere (by simp [hheld]) (by simp)
      ⟨rfl, rfl, rfl, rfl, rfl, rfl, rfl, fun _ _ => Iff.rfl⟩ rfl (by simp) rfl rfl rfl rfl
  · exact h

/-- The cancel comes before the last look that a run takes at the flag on its way to completion. -/
def OnTime (w : World) (action : Action) : Prop :=
  action = .cancel → ∀ run, w.worker = some run → w.late run = false

theorem inv_initial : ({} : World).Inv registry where
  reservation := {
    holds := fun party job pc hgrip => by cases party <;> cases hgrip
    held := fun party job hholder => by cases hholder
    maintenance := rfl
    store := by simp
    unrecorded := fun _ => rfl }
  identity := {
    current := fun party id hparty => by cases party <;> cases hparty
    active := fun hactive => by cases hactive
    quiet := fun k id hk => by cases hk
    live := fun run hrun => by cases hrun
    spawned := fun id hid => absurd hid List.not_mem_nil
    ended := fun id hid => absurd hid List.not_mem_nil
    cancels := fun id hid => absurd hid List.not_mem_nil
    once := List.nodup_nil }
  tickets := {
    own := fun r hr => absurd hr List.not_mem_nil
    bound := fun r hr => absurd hr List.not_mem_nil
    once := List.nodup_nil
    held := fun party job hholder => by cases hholder
    ended := fun e he => absurd he List.not_mem_nil }
  phase run hrun := by cases hrun
  endings e he := absurd he List.not_mem_nil

theorem inv_next {action : Action} (h : w.Inv registry) (htime : w.OnTime action)
    (hstep : w.next registry action = some w') : w'.Inv registry := by
  cases action with
  | start k model candidateLimit => exact h.start hstep
  | startStep k ok => exact h.startStep hstep
  | run input =>
      obtain ⟨run, hrun, hstep⟩ := Option.bind_eq_some_iff.1 hstep
      exact h.runStep hrun hstep
  | cancel =>
      obtain rfl := Option.some.inj hstep
      exact h.cancel (htime rfl)
  | storeReserve =>
      obtain rfl := Option.some.inj hstep
      exact h.storeReserve
  | storeRelease =>
      obtain rfl := Option.some.inj hstep
      exact h.storeRelease

end World

end Steps

end InferDeck.Gateway.ProfileBenchmark
