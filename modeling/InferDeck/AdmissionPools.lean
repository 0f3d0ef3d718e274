import InferDeck.LifecycleInvariant

/-!
# Bounds of the admission pools

The youngest lease of a pool was issued while the pool had room for it, and leases have slots of
their own, so that no pool of fixed models has more leases than the largest limit of its models, and
no automatic model more than slots.
-/

namespace InferDeck.Model

open InferDeck.Execution InferDeck.Foundation InferDeck.Threads BackendCoordinator

namespace BackendCoordinator

def FixedPool (c : BackendCoordinator) (pool : String) : Prop :=
  ∀ name info, c.findInfo name = some info → info.admissionPool = pool →
    info.concurrencyAuto = false

/-- The leases keep within the limits of the pools and of the automatic models. -/
structure WithinLimits (c : BackendCoordinator) : Prop where
  pool : ∀ pool, c.FixedPool pool → 0 < c.leasesInPool pool →
    ∃ name info, c.findInfo name = some info ∧ info.admissionPool = pool ∧
      (c.leasesInPool pool : ℤ) ≤ info.concurrencyLimit
  automatic : ∀ name info, c.findInfo name = some info → info.concurrencyAuto = true →
    0 < c.leaseCount name → ∃ backend, c.instances.lookup name = some backend ∧
      (c.leaseCount name : ℤ) ≤ backend.nSlots

/-- Every lease that is new after the step found room in its pool. -/
def IssuesWithinLimits (c c' : BackendCoordinator) : Prop :=
  ∀ id lease info, c.activeLeases.lookup id = none → c'.activeLeases.lookup id = some lease →
    c.findInfo lease.model = some info → info.concurrencyAuto = false →
    (c.leasesInPool info.admissionPool : ℤ) < info.concurrencyLimit

variable {c c' : BackendCoordinator}

/-- The youngest lease of a pool that has leases. -/
theorem exists_youngest {pool : String} (h : 0 < c.leasesInPool pool) :
    ∃ id lease, c.activeLeases.lookup id = some lease ∧ c.inPool pool lease.model = true ∧
      c.leasesUpTo id pool = c.leasesInPool pool := by
  let ids := ((c.activeLeases.entries.filter fun e => c.inPool pool e.2.model).map
    Sigma.fst).toFinset
  have hmem : ∀ id, id ∈ ids ↔ ∃ lease, c.activeLeases.lookup id = some lease ∧
      c.inPool pool lease.model = true := by
    intro id
    rw [List.mem_toFinset, List.mem_map]
    constructor
    · rintro ⟨⟨id', lease⟩, he, rfl⟩
      obtain ⟨hentry, hpool⟩ := List.mem_filter.1 he
      exact ⟨lease, Map.mem_entries_iff.1 hentry, hpool⟩
    · rintro ⟨lease, hlease, hpool⟩
      exact ⟨⟨id, lease⟩, List.mem_filter.2 ⟨Map.mem_entries_iff.2 hlease, hpool⟩, rfl⟩
  have hsome : ids.Nonempty := by
    by_contra hempty
    have hzero : c.leasesInPool pool = 0 := by
      rw [leasesInPool, Map.count_eq_zero_iff]
      intro id lease hlease
      by_contra hpool
      rw [Bool.not_eq_false] at hpool
      exact hempty ⟨id, (hmem id).2 ⟨lease, hlease, hpool⟩⟩
    omega
  obtain ⟨id, hid, hyoungest⟩ := ids.exists_max_image (fun id => id) hsome
  obtain ⟨lease, hlease, hpool⟩ := (hmem id).1 hid
  refine ⟨id, lease, hlease, hpool, ?_⟩
  rw [leasesUpTo, leasesInPool]
  apply Map.count_congr
  intro id' lease' hlease'
  cases hpool' : c.inPool pool lease'.model with
  | false => exact Bool.and_false _
  | true => simpa using hyoungest id' ((hmem id').2 ⟨lease', hlease', hpool'⟩)

theorem Ledger.withinLimits (h : c.Ledger) : c.WithinLimits where
  pool pool hfixed hleases := by
    obtain ⟨id, lease, hlease, hpool, hall⟩ := exists_youngest hleases
    obtain ⟨info, hinfo, hpool⟩ := (Option.any_eq_true _ _).1 hpool
    rw [beq_iff_eq] at hpool
    refine ⟨lease.model, info, hinfo, hpool, ?_⟩
    rw [← hall]
    exact hpool ▸ h.bounded id lease info hlease hinfo (hfixed _ info hinfo hpool)
  automatic name info hinfo hauto hleases := by
    have hsome : ∃ id lease, c.activeLeases.lookup id = some lease ∧ lease.model = name := by
      by_contra hnone
      have hzero : c.leaseCount name = 0 := by
        rw [leaseCount_eq_zero_iff]
        exact fun id lease hlease hname => hnone ⟨id, lease, hlease, hname⟩
      omega
    obtain ⟨id, lease, hlease, rfl⟩ := hsome
    obtain ⟨backend, hlookup, -, -⟩ := h.backed id lease hlease
    exact ⟨backend, hlookup, h.leaseCount_le_nSlots hlookup⟩

theorem Ledger.issuesWithinLimits (h : c.Ledger) (hchange : LeaseStep c c') :
    IssuesWithinLimits c c' := by
  intro id lease info hnone hlease hinfo hauto
  rcases hchange with hsame | ⟨hchange, -⟩
  · have hleases : c'.activeLeases = c.activeLeases := congrArg RequestBook.activeLeases hsame
    rw [hleases, hnone] at hlease
    cases hlease
  · generalize hbook : c'.leaseBook = book at hchange
    have hleases : c'.activeLeases = book.activeLeases := congrArg LeaseBook.activeLeases hbook
    rw [hleases] at hlease
    cases hchange with
    | same =>
        rw [show c.leaseBook.activeLeases = c.activeLeases from rfl, hnone] at hlease
        cases hlease
    | slot =>
        rw [show c.leaseBook.activeLeases = c.activeLeases from rfl, hnone] at hlease
        cases hlease
    | lease backend issued hmay =>
        by_cases hid : id = c.nextLeaseId
        · rw [hid, AList.lookup_insert] at hlease
          obtain rfl := Option.some.inj hlease
          exact h.room_of_allowed hmay.allowed hinfo hauto
        · rw [AList.lookup_insert_ne hid, hnone] at hlease
          cases hlease
    | release id' released backend hreleased =>
        by_cases hid : id = id'
        · rw [hid, AList.lookup_erase] at hlease
          cases hlease
        · rw [AList.lookup_erase_ne hid, hnone] at hlease
          cases hlease

end BackendCoordinator

namespace World

variable {w w' : World}

def PoolsBounded (w : World) : Prop :=
  w.shared.WithinLimits ∧
    ∀ action w', w.next action = some w' → IssuesWithinLimits w.shared w'.shared

theorem Sound.poolsBounded (h : w.Sound) : w.PoolsBounded :=
  ⟨h.ledger.withinLimits, fun _ _ hnext => h.ledger.issuesWithinLimits (h.leaseStep hnext)⟩

end World

/-- In every state of every run the pools keep their bounds. -/
theorem pools_bounded (registry : ModelRegistry) (actions : List Action) :
    Always World.next World.PoolsBounded (.initial registry) actions := by
  have hmeets : Meets World.next (fun _ _ => True) (.initial registry) actions :=
    .of_forall fun _ _ _ => trivial
  exact hmeets.always (fun _ h => World.Sound.poolsBounded h)
    (fun _ _ _ h _ hnext => World.sound_next h hnext) (World.sound_initial registry)

end InferDeck.Model
