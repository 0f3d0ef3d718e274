import InferDeck.LifecycleInvariant

/-!
# The books of the requests

The number of requests and the reservations of each model are written down next to the leases. A
lease is entered in all of them and taken off all of them, so that they stay the number and the sums
of the leases, whatever is released in whatever order.
-/

namespace InferDeck.Model

open Function InferDeck.Execution InferDeck.Foundation InferDeck.Threads

namespace BackendCoordinator

variable (c : BackendCoordinator)

def reserved (reservation : ActiveLease → ℤ) (name : String) : ℤ :=
  Map.total c.activeLeases fun _ lease => if lease.model = name then reservation lease else 0

structure Booked : Prop where
  requests : c.activeRequests = c.activeLeases.entries.length
  contexts : ∀ name, c.activeContextReservationByModel.find name 0 =
    c.reserved ActiveLease.contextReservation name
  sequences : ∀ name, c.activeSequenceReservationByModel.find name 0 =
    c.reserved ActiveLease.sequenceReservation name
  reserves : ∀ id lease, c.activeLeases.lookup id = some lease → lease.Reserves
  below : ∀ id lease, c.activeLeases.lookup id = some lease → id < c.nextLeaseId

variable {c} {c' : BackendCoordinator} {name : String}

/-- The reservations when a lease is entered. -/
theorem reserved_insert {id : ℤ} {lease : ActiveLease} (h : c.activeLeases.lookup id = none)
    (hleases : c'.activeLeases = c.activeLeases.insert id lease) (reservation : ActiveLease → ℤ)
    (name : String) : c'.reserved reservation name =
      c.reserved reservation name + if lease.model = name then reservation lease else 0 := by
  rw [reserved, hleases, Map.total_insert h]
  rfl

theorem reserved_erase {id : ℤ} {lease : ActiveLease} (h : c.activeLeases.lookup id = some lease)
    (hleases : c'.activeLeases = c.activeLeases.erase id) (reservation : ActiveLease → ℤ)
    (name : String) : (c'.reserved reservation name +
      if lease.model = name then reservation lease else 0) = c.reserved reservation name := by
  rw [reserved, hleases]
  exact Map.total_erase h _

/-- The sum of a model is written anew where the lease's reservation is added to it. -/
theorem find_insert_add {sums : Map String ℤ} {lease : ActiveLease} {added : ℤ}
    {before after : String → ℤ} (h : ∀ name, sums.find name 0 = before name)
    (hafter : ∀ name, after name = before name + if lease.model = name then added else 0)
    (name : String) :
    Map.find (sums.insert lease.model (sums.find lease.model 0 + added)) name 0 = after name := by
  rw [hafter]
  by_cases hname : name = lease.model
  · subst hname
    rw [Map.find_insert_self, h, if_pos rfl]
  · rw [Map.find_insert_of_ne hname, h, if_neg (Ne.symm hname), add_zero]

variable {id : ℤ} {lease : ActiveLease}

/-- What a lease reserves is part of the sum. -/
theorem Booked.le_reserved (h : c.Booked) (hlease : c.activeLeases.lookup id = some lease) :
    lease.contextReservation ≤ c.reserved ActiveLease.contextReservation lease.model ∧
      lease.sequenceReservation ≤ c.reserved ActiveLease.sequenceReservation lease.model := by
  constructor
  · have hle := Map.le_total hlease (f := fun _ other =>
      if other.model = lease.model then other.contextReservation else 0) (by
        intro id' other hother
        split_ifs
        · exact (h.reserves id' other hother).1
        · exact le_rfl)
    rwa [if_pos rfl] at hle
  · have hle := Map.le_total hlease (f := fun _ other =>
      if other.model = lease.model then other.sequenceReservation else 0) (by
        intro id' other hother
        split_ifs
        · exact (h.reserves id' other hother).2
        · exact le_rfl)
    rwa [if_pos rfl] at hle

theorem Booked.of_change (h : c.Booked) (hchange : c.RequestChange c'.requestBook) : c'.Booked := by
  generalize hbook : c'.requestBook = book at hchange
  have hrequests : c'.activeRequests = book.activeRequests := congrArg (·.activeRequests) hbook
  have hleases : c'.activeLeases = book.activeLeases := congrArg (·.activeLeases) hbook
  have hcontexts : c'.activeContextReservationByModel = book.contexts := congrArg (·.contexts) hbook
  have hsequences : c'.activeSequenceReservationByModel = book.sequences :=
    congrArg (·.sequences) hbook
  have hnext : c'.nextLeaseId = book.nextLeaseId := congrArg (·.nextLeaseId) hbook
  cases hchange with
  | same =>
      constructor
      · rw [hrequests, hleases]
        exact h.requests
      · intro name
        rw [hcontexts, reserved, hleases]
        exact h.contexts name
      · intro name
        rw [hsequences, reserved, hleases]
        exact h.sequences name
      · rw [hleases]
        exact h.reserves
      · rw [hleases, hnext]
        exact h.below
  | issue lease hreserves =>
      have hnew : c.activeLeases.lookup c.nextLeaseId = none := by
        cases hold : c.activeLeases.lookup c.nextLeaseId with
        | none => rfl
        | some old => exact absurd (h.below _ old hold) (lt_irrefl _)
      constructor
      · rw [hrequests, hleases, Map.length_insert hnew, h.requests]
        push_cast
        rfl
      · rw [hcontexts]
        exact find_insert_add h.contexts (reserved_insert hnew hleases _)
      · rw [hsequences]
        exact find_insert_add h.sequences (reserved_insert hnew hleases _)
      · intro id lease' hlease'
        rw [hleases] at hlease'
        rcases Map.lookup_insert_eq_some_iff.1 hlease' with ⟨-, rfl⟩ | ⟨-, hold⟩
        · exact hreserves
        · exact h.reserves id lease' hold
      · intro id lease' hlease'
        rw [hleases] at hlease'
        rw [hnext]
        rcases Map.lookup_insert_eq_some_iff.1 hlease' with ⟨rfl, -⟩ | ⟨-, hold⟩
        · exact lt_add_one _
        · exact (h.below id lease' hold).trans (lt_add_one _)
  | release id lease hlease =>
      have hlength := Map.length_erase hlease
      obtain ⟨hcontext, hsequence⟩ := h.le_reserved hlease
      rw [← h.contexts] at hcontext
      rw [← h.sequences] at hsequence
      have hkeeps : ∀ id' lease', c'.activeLeases.lookup id' = some lease' →
          c.activeLeases.lookup id' = some lease' := by
        intro id' lease' hlease'
        rw [hleases] at hlease'
        exact (Map.lookup_erase_eq_some_iff.1 hlease').2
      constructor
      · have hpositive : 0 < c.activeRequests := by
          rw [h.requests]
          omega
        rw [hrequests, hleases]
        change (if 0 < c.activeRequests then c.activeRequests - 1 else c.activeRequests) = _
        rw [if_pos hpositive, h.requests]
        dsimp only
        omega
      · have hsub : max 0
            (c.activeContextReservationByModel.find lease.model 0 - lease.contextReservation) =
            c.activeContextReservationByModel.find lease.model 0 + -lease.contextReservation := by
          omega
        rw [hcontexts]
        change ∀ name,
          Map.find (c.activeContextReservationByModel.insert lease.model (max 0 _)) name 0 = _
        rw [hsub]
        refine find_insert_add h.contexts fun name => ?_
        have herase := reserved_erase hlease hleases ActiveLease.contextReservation name
        split_ifs at herase ⊢ <;> omega
      · have hsub : max 0
            (c.activeSequenceReservationByModel.find lease.model 0 - lease.sequenceReservation) =
            c.activeSequenceReservationByModel.find lease.model 0 + -lease.sequenceReservation := by
          omega
        rw [hsequences]
        change ∀ name,
          Map.find (c.activeSequenceReservationByModel.insert lease.model (max 0 _)) name 0 = _
        rw [hsub]
        refine find_insert_add h.sequences fun name => ?_
        have herase := reserved_erase hlease hleases ActiveLease.sequenceReservation name
        split_ifs at herase ⊢ <;> omega
      · exact fun id' lease' hlease' => h.reserves id' lease' (hkeeps id' lease' hlease')
      · intro id' lease' hlease'
        rw [hnext]
        exact h.below id' lease' (hkeeps id' lease' hlease')

theorem Booked.of_leaseStep (h : c.Booked) (hstep : LeaseStep c c') : c'.Booked := by
  rcases hstep with hsame | ⟨-, hchange⟩
  · exact h.of_change (hsame ▸ .same)
  · exact h.of_change hchange

/-- A step gives out at most the next id, and no lease is entered under another. -/
theorem ids_of_leaseStep (hstep : LeaseStep c c') :
    c.nextLeaseId ≤ c'.nextLeaseId ∧ ∀ id lease, id < c.nextLeaseId →
      c'.activeLeases.lookup id = some lease → c.activeLeases.lookup id = some lease := by
  have hchange : c.RequestChange c'.requestBook := by
    rcases hstep with hsame | ⟨-, hchange⟩
    · exact hsame ▸ .same
    · exact hchange
  generalize hbook : c'.requestBook = book at hchange
  have hleases : c'.activeLeases = book.activeLeases := congrArg (·.activeLeases) hbook
  have hnext : c'.nextLeaseId = book.nextLeaseId := congrArg (·.nextLeaseId) hbook
  rw [hleases, hnext]
  cases hchange with
  | same => exact ⟨le_rfl, fun id lease _ hlease => hlease⟩
  | issue lease _ =>
      refine ⟨(lt_add_one _).le, fun id lease' hid hlease' => ?_⟩
      rcases Map.lookup_insert_eq_some_iff.1 hlease' with ⟨rfl, -⟩ | ⟨-, hold⟩
      · exact absurd hid (lt_irrefl _)
      · exact hold
  | release released lease _ =>
      exact ⟨le_rfl, fun id lease' _ hlease' => (Map.lookup_erase_eq_some_iff.1 hlease').2⟩

/-- A release of no lease of the model, or of no lease at all. -/
theorem releaseSlot_refused {failure : Option Error} {now : TimePoint}
    (h : ∀ lease, c.activeLeases.lookup id = some lease → lease.model ≠ name) :
    (c.releaseSlot name id failure now).2 = c := by
  unfold releaseSlot
  split
  next => split_ifs <;> rfl
  next lease hlease => rw [if_pos (h lease hlease)]

structure LedgerRight (c : BackendCoordinator) : Prop where
  requests : c.activeRequests = c.activeLeases.entries.length
  requestsByModel : ∀ name, c.activeRequestsByModel.find name 0 = c.leaseCount name
  contexts : ∀ name, c.activeContextReservationByModel.find name 0 =
    c.reserved ActiveLease.contextReservation name
  sequences : ∀ name, c.activeSequenceReservationByModel.find name 0 =
    c.reserved ActiveLease.sequenceReservation name
  /-- No clamp and no guard of a release is ever needed. -/
  guards : ∀ id lease, c.activeLeases.lookup id = some lease →
    0 < c.activeRequests ∧ 0 < c.activeRequestsByModel.find lease.model 0 ∧
      lease.contextReservation ≤ c.activeContextReservationByModel.find lease.model 0 ∧
      lease.sequenceReservation ≤ c.activeSequenceReservationByModel.find lease.model 0
  slots : ∀ id id' lease lease', c.activeLeases.lookup id = some lease →
    c.activeLeases.lookup id' = some lease' → lease.model = lease'.model →
    lease.backendSlot = lease'.backendSlot → id = id'
  refused : ∀ name id failure now,
    (∀ lease, c.activeLeases.lookup id = some lease → lease.model ≠ name) →
    (c.releaseSlot name id failure now).2 = c

theorem Booked.ledgerRight (h : c.Booked) (hledger : c.Ledger) : c.LedgerRight where
  requests := h.requests
  requestsByModel := hledger.counted
  contexts := h.contexts
  sequences := h.sequences
  guards id lease hlease := by
    have hlength := Map.length_erase hlease
    obtain ⟨hcontext, hsequence⟩ := h.le_reserved hlease
    rw [← h.contexts] at hcontext
    rw [← h.sequences] at hsequence
    refine ⟨?_, ?_, hcontext, hsequence⟩
    · rw [h.requests]
      omega
    · have hsome : c.leaseCount lease.model ≠ 0 := fun hzero =>
        leaseCount_eq_zero_iff.1 hzero id lease hlease rfl
      rw [hledger.counted]
      omega
  slots := hledger.distinct
  refused _ _ _ _ hrefused := releaseSlot_refused hrefused

end BackendCoordinator

namespace World

variable {w w' : World} {id : ℤ} {lease : ActiveLease}

/-- However the run goes on, the id of a lease stays that lease's, and is free for good once the
lease is gone. -/
def IdsKept (w : World) : Prop :=
  ∀ id lease, w.shared.activeLeases.lookup id = some lease →
    ∀ actions w', exec next w actions = some w' →
      (∀ lease', w'.shared.activeLeases.lookup id = some lease' → lease' = lease) ∧
      (w'.shared.activeLeases.lookup id = none → ∀ actions' w'',
        exec next w' actions' = some w'' → w''.shared.activeLeases.lookup id = none)

structure Kept (w : World) : Prop where
  sound : w.Sound
  booked : w.shared.Booked

theorem Kept.next (h : w.Kept) {action : Action} (hnext : w.next action = some w') : w'.Kept :=
  ⟨sound_next h.sound hnext, h.booked.of_leaseStep (h.sound.leaseStep hnext)⟩

/-- A run enters no lease under an id that was given out before it. -/
theorem Kept.ids_of_exec (h : w.Kept) {actions : List Action}
    (hexec : exec World.next w actions = some w') :
    w.shared.nextLeaseId ≤ w'.shared.nextLeaseId ∧ w'.Kept ∧
      ∀ id lease, id < w.shared.nextLeaseId →
        w'.shared.activeLeases.lookup id = some lease →
        w.shared.activeLeases.lookup id = some lease := by
  induction actions generalizing w with
  | nil =>
      obtain rfl := Option.some.inj hexec
      exact ⟨le_rfl, h, fun id lease _ hlease => hlease⟩
  | cons action actions ih =>
      obtain ⟨w₁, hnext, hexec⟩ := exec_cons_eq_some_iff.1 hexec
      obtain ⟨hle, hids⟩ := BackendCoordinator.ids_of_leaseStep (h.sound.leaseStep hnext)
      obtain ⟨hle', hkept, hids'⟩ := ih (h.next hnext) hexec
      refine ⟨hle.trans hle', hkept, fun id lease hid hlease => ?_⟩
      exact hids id lease hid (hids' id lease (hid.trans_le hle) hlease)

theorem Kept.idsKept (h : w.Kept) : w.IdsKept := by
  intro id lease hlease actions w' hexec
  obtain ⟨hle, hkept, hids⟩ := h.ids_of_exec hexec
  have hid : id < w.shared.nextLeaseId := h.booked.below id lease hlease
  constructor
  · intro lease' hlease'
    exact Option.some.inj ((hids id lease' hid hlease').symm.trans hlease)
  · intro hgone actions' w'' hexec'
    cases hback : w''.shared.activeLeases.lookup id with
    | none => rfl
    | some lease' =>
        have hold := (hkept.ids_of_exec hexec').2.2 id lease' (hid.trans_le hle) hback
        rw [hgone] at hold
        cases hold

theorem kept_initial (registry : ModelRegistry) : (initial registry).Kept where
  sound := sound_initial registry
  booked :=
    { requests := rfl
      contexts := fun _ => rfl
      sequences := fun _ => rfl
      reserves := fun _ _ h => by cases h
      below := fun _ _ h => by cases h }

end World

/-- In every state of every run the books are the counts and sums of the leases, each lease has a
slot of its own, a release that names none of the model's leases changes nothing, and no id is given
to a second lease. -/
theorem lease_ledger_right (registry : ModelRegistry) (actions : List Action) :
    Always World.next (fun w => w.shared.LedgerRight ∧ w.IdsKept) (.initial registry) actions := by
  have hmeets : Meets World.next (fun _ _ => True) (.initial registry) actions :=
    .of_forall fun _ _ _ => trivial
  exact hmeets.always (fun _ h => ⟨h.booked.ledgerRight h.sound.ledger, h.idsKept⟩)
    (fun _ _ _ h _ hnext => World.Kept.next h hnext) (World.kept_initial registry)

end InferDeck.Model
