import InferDeck.LeaseChanges

/-!
# The ledger of the leases

The count of a model's requests is the number of its leases, each lease rests on a slot of its own of
a loaded instance, and when a lease was issued its pool had room: the leases of the pool that are
not younger are no more than the limit of its model.
-/

namespace InferDeck.Model

open InferDeck.Foundation InferDeck.Threads

namespace BackendCoordinator

variable (c : BackendCoordinator)

def leaseCount (name : String) : ℕ := Map.count c.activeLeases fun _ lease => lease.model == name

def inPool (pool name : String) : Bool :=
  (c.findInfo name).any fun info => info.admissionPool == pool

def leasesInPool (pool : String) : ℕ :=
  Map.count c.activeLeases fun _ lease => c.inPool pool lease.model

def leasesUpTo (id : ℤ) (pool : String) : ℕ :=
  Map.count c.activeLeases fun id' lease => decide (id' ≤ id) && c.inPool pool lease.model

structure Ledger : Prop where
  counted : ∀ name, c.activeRequestsByModel.find name 0 = c.leaseCount name
  backed : ∀ id lease, c.activeLeases.lookup id = some lease →
    ∃ backend, c.instances.lookup lease.model = some backend ∧ backend.loaded = true ∧
      backend.slots[lease.backendSlot]? = some true
  distinct : ∀ id id' lease lease', c.activeLeases.lookup id = some lease →
    c.activeLeases.lookup id' = some lease' → lease.model = lease'.model →
    lease.backendSlot = lease'.backendSlot → id = id'
  below : ∀ id lease, c.activeLeases.lookup id = some lease → id < c.nextLeaseId
  bounded : ∀ id lease info, c.activeLeases.lookup id = some lease →
    c.findInfo lease.model = some info → info.concurrencyAuto = false →
    (c.leasesUpTo id info.admissionPool : ℤ) ≤ info.concurrencyLimit

/-- The model's instance goes on with the same info, loaded and with the slot in use if it was. -/
def BacksOn (c c' : BackendCoordinator) (name : String) (slot : ℕ) : Prop :=
  ∀ backend, c.instances.lookup name = some backend →
    ∃ backend', c'.instances.lookup name = some backend' ∧ backend'.info = backend.info ∧
      (backend.loaded = true → backend.slots[slot]? = some true →
        backend'.loaded = true ∧ backend'.slots[slot]? = some true)

variable {c} {c' : BackendCoordinator} {name : String} {slot : ℕ}

theorem leaseCount_eq_zero_iff : c.leaseCount name = 0 ↔
    ∀ id lease, c.activeLeases.lookup id = some lease → lease.model ≠ name := by
  rw [leaseCount, Map.count_eq_zero_iff]
  simp

theorem findInfo_eq_of_backsOn {id : ℤ} {lease : ActiveLease} (h : c.Ledger)
    (hlease : c.activeLeases.lookup id = some lease) (hbacks : BacksOn c c' lease.model lease.backendSlot) :
    c'.findInfo lease.model = c.findInfo lease.model := by
  obtain ⟨backend, hlookup, -, -⟩ := h.backed id lease hlease
  obtain ⟨backend', hlookup', hinfo, -⟩ := hbacks backend hlookup
  simp only [findInfo, hlookup, hlookup', hinfo]

/-- A step that leaves the leases and counts alone and goes on to back every lease. -/
theorem Ledger.of_backsOn (h : c.Ledger) (hleases : c'.activeLeases = c.activeLeases)
    (hnext : c'.nextLeaseId = c.nextLeaseId)
    (hcounts : ∀ name, c'.activeRequestsByModel.find name 0 = c.activeRequestsByModel.find name 0)
    (hbacks : ∀ id lease, c.activeLeases.lookup id = some lease →
      BacksOn c c' lease.model lease.backendSlot) :
    c'.Ledger := by
  have hinfo : ∀ id lease, c.activeLeases.lookup id = some lease →
      c'.findInfo lease.model = c.findInfo lease.model :=
    fun id lease hlease => findInfo_eq_of_backsOn h hlease (hbacks id lease hlease)
  constructor
  · intro name
    rw [hcounts, h.counted, leaseCount, leaseCount, hleases]
  · intro id lease hlease
    rw [hleases] at hlease
    obtain ⟨backend, hlookup, hloaded, hslot⟩ := h.backed id lease hlease
    obtain ⟨backend', hlookup', -, hkeeps⟩ := hbacks id lease hlease backend hlookup
    obtain ⟨hloaded', hslot'⟩ := hkeeps hloaded hslot
    exact ⟨backend', hlookup', hloaded', hslot'⟩
  · rw [hleases]
    exact h.distinct
  · rw [hleases, hnext]
    exact h.below
  · intro id lease info hlease hfind hauto
    rw [hleases] at hlease
    rw [hinfo id lease hlease] at hfind
    have hcount : c'.leasesUpTo id info.admissionPool = c.leasesUpTo id info.admissionPool := by
      rw [leasesUpTo, leasesUpTo, hleases]
      apply Map.count_congr
      intro id' lease' hlease'
      rw [inPool, inPool, hinfo id' lease' hlease']
    rw [hcount]
    exact h.bounded id lease info hlease hfind hauto

/-- The count that the admission takes is the number of the pool's leases. -/
theorem Ledger.activeInPool_eq (h : c.Ledger) (pool : String) :
    c.activeInPool pool = c.leasesInPool pool :=
  Map.sum_counters h.counted (c.inPool pool)

theorem Ledger.leaseCount_of_not_hasActive (h : c.Ledger)
    (hidle : c.hasActiveRequests name = false) : c.leaseCount name = 0 := by
  have hle : ¬0 < c.activeRequestsByModel.find name 0 := by
    simpa [hasActiveRequests] using hidle
  rw [h.counted] at hle
  omega

/-- Leases have slots of their own, so that there are no more of them than slots. -/
theorem Ledger.leaseCount_le_nSlots (h : c.Ledger) {backend : Backend}
    (hlookup : c.instances.lookup name = some backend) :
    (c.leaseCount name : ℤ) ≤ backend.nSlots := by
  let leases := c.activeLeases.entries.filter fun e => e.2.model == name
  have hlookupOf : ∀ e ∈ leases, c.activeLeases.lookup e.1 = some e.2 ∧ e.2.model = name := by
    intro e he
    obtain ⟨hmem, hmodel⟩ := List.mem_filter.1 he
    exact ⟨Map.mem_entries_iff.1 hmem, by simpa using hmodel⟩
  have hnodup : (leases.map fun e => e.2.backendSlot).Nodup := by
    apply List.Nodup.map_on
    · intro e he e' he' hslot
      obtain ⟨hlease, hmodel⟩ := hlookupOf e he
      obtain ⟨hlease', hmodel'⟩ := hlookupOf e' he'
      have hid := h.distinct e.1 e'.1 e.2 e'.2 hlease hlease' (hmodel.trans hmodel'.symm) hslot
      rw [hid] at hlease
      exact Sigma.ext hid (heq_of_eq (Option.some.inj (hlease.symm.trans hlease')))
    · exact (List.Nodup.of_map Sigma.fst c.activeLeases.nodupKeys).filter _
  have hsub : (leases.map fun e => e.2.backendSlot) ⊆ List.range backend.slots.length := by
    intro slot hslot
    obtain ⟨e, he, rfl⟩ := List.mem_map.1 hslot
    obtain ⟨hlease, hmodel⟩ := hlookupOf e he
    obtain ⟨backend', hlookup', -, hbusy⟩ := h.backed e.1 e.2 hlease
    rw [hmodel, hlookup] at hlookup'
    obtain rfl := Option.some.inj hlookup'
    exact List.mem_range.2 (List.getElem?_eq_some_iff.1 hbusy).1
  have hlength := (hnodup.subperm hsub).length_le
  have hcount : c.leaseCount name = leases.length := List.countP_eq_length_filter
  rw [List.length_map, List.length_range] at hlength
  rw [hcount, Backend.nSlots]
  exact_mod_cast hlength

/-- A model whose instance stays as it is. -/
theorem BacksOn.of_lookup_eq (h : c'.instances.lookup name = c.instances.lookup name) :
    BacksOn c c' name slot := by
  intro backend hlookup
  exact ⟨backend, h.trans hlookup, rfl, fun hloaded hslot => ⟨hloaded, hslot⟩⟩

/-- Another backend for a model, or an operation that keeps the slots in use. -/
theorem BacksOn.of_insert {n : String} {after : Backend}
    (hinstances : c'.instances = c.instances.insert n after)
    (hafter : name = n → ∀ backend, c.instances.lookup n = some backend →
      after.info = backend.info ∧ (backend.loaded = true → backend.slots[slot]? = some true →
        after.loaded = true ∧ after.slots[slot]? = some true)) :
    BacksOn c c' name slot := by
  by_cases hn : name = n
  · intro backend hlookup
    subst hn
    exact ⟨after, hinstances ▸ AList.lookup_insert _, hafter rfl backend hlookup⟩
  · exact .of_lookup_eq (hinstances ▸ AList.lookup_insert_ne hn)

theorem BacksOn.of_keeps {n : String} {before after : Backend}
    (hinstances : c'.instances = c.instances.insert n after)
    (hbefore : c.instances.lookup n = some before) (hkeeps : before.keeps after) :
    BacksOn c c' name slot := by
  apply BacksOn.of_insert hinstances
  intro _ backend hlookup
  obtain rfl := Option.some.inj (hbefore.symm.trans hlookup)
  simp only [Backend.keeps, Bool.and_eq_true, Bool.or_eq_true, Bool.not_eq_true',
    decide_eq_true_eq] at hkeeps
  refine ⟨hkeeps.1, fun _ hslot => ?_⟩
  have hany : before.slots.any id = true :=
    List.any_eq_true.2 ⟨true, List.mem_of_getElem? hslot, rfl⟩
  rcases hkeeps.2 with hidle | ⟨hslots, hloaded⟩
  · rw [hany] at hidle
    cases hidle
  · exact ⟨hloaded, hslots ▸ hslot⟩

theorem BacksOn.of_instanceChange (h : InstanceChange c.instances c'.instances) :
    BacksOn c c' name slot := by
  generalize hinstances : c'.instances = instances at h
  cases h with
  | same => exact .of_lookup_eq (by rw [hinstances])
  | operate n before after hbefore hkeeps => exact .of_keeps hinstances hbefore hkeeps
  | create n created hnone _ =>
      apply BacksOn.of_insert hinstances
      intro _ backend hlookup
      exact absurd (hnone.symm.trans hlookup) (by simp)

/-- A slot that the lease does not have is written. -/
theorem BacksOn.of_set {n : String} {backend : Backend} {other : ℕ} {busy : Bool}
    (hlookup : c.instances.lookup n = some backend)
    (hinstances : c'.instances =
      c.instances.insert n { backend with slots := backend.slots.set other busy })
    (hne : name = n → other ≠ slot) : BacksOn c c' name slot := by
  apply BacksOn.of_insert hinstances
  intro hn before hbefore
  obtain rfl := Option.some.inj (hlookup.symm.trans hbefore)
  exact ⟨rfl, fun hloaded hslot => ⟨hloaded, (List.getElem?_set_ne (hne hn)).trans hslot⟩⟩

/-- The slot of a lease is not free. -/
theorem Ledger.slot_ne (h : c.Ledger) {id : ℤ} {lease : ActiveLease}
    (hlease : c.activeLeases.lookup id = some lease) {backend : Backend} {free : ℕ}
    (hlookup : c.instances.lookup name = some backend) (hfree : backend.slots[free]? = some false)
    (hname : lease.model = name) : free ≠ lease.backendSlot := by
  rintro rfl
  obtain ⟨backend', hlookup', -, hslot⟩ := h.backed id lease hlease
  rw [hname, hlookup] at hlookup'
  rw [← Option.some.inj hlookup', hfree] at hslot
  cases hslot

/-- A lease on a slot that nobody else has, issued while the pool had room. -/
theorem Ledger.enter (h : c.Ledger) {lease : ActiveLease} {backend : Backend}
    (hbook : c'.leaseBook = { c.leaseBook with
      activeRequestsByModel := c.activeRequestsByModel.insert lease.model
        (c.activeRequestsByModel.find lease.model 0 + 1)
      activeLeases := c.activeLeases.insert c.nextLeaseId lease
      nextLeaseId := c.nextLeaseId + 1 })
    (hlookup : c.instances.lookup lease.model = some backend) (hloaded : backend.loaded = true)
    (hbusy : backend.slots[lease.backendSlot]? = some true)
    (hown : ∀ id lease', c.activeLeases.lookup id = some lease' → lease'.model = lease.model →
      lease'.backendSlot ≠ lease.backendSlot)
    (hroom : ∀ info, c.findInfo lease.model = some info → info.concurrencyAuto = false →
      (c.leasesInPool info.admissionPool : ℤ) < info.concurrencyLimit) : c'.Ledger := by
  have hinstances : c'.instances = c.instances := congrArg LeaseBook.instances hbook
  have hregistry : c'.registry = c.registry := congrArg LeaseBook.registry hbook
  have hcounts := congrArg LeaseBook.activeRequestsByModel hbook
  have hleases := congrArg LeaseBook.activeLeases hbook
  have hnext := congrArg LeaseBook.nextLeaseId hbook
  dsimp only [leaseBook] at hcounts hleases hnext
  have hfind : ∀ n, c'.findInfo n = c.findInfo n := by
    intro n
    rw [findInfo, findInfo, hinstances, hregistry]
  have hnew : c.activeLeases.lookup c.nextLeaseId = none := by
    cases hold : c.activeLeases.lookup c.nextLeaseId with
    | none => rfl
    | some old => exact absurd (h.below _ old hold) (lt_irrefl _)
  have hlookupNew : ∀ id lease', c'.activeLeases.lookup id = some lease' →
      id = c.nextLeaseId ∧ lease' = lease ∨
        id ≠ c.nextLeaseId ∧ c.activeLeases.lookup id = some lease' := by
    intro id lease' hlease'
    rw [hleases] at hlease'
    by_cases hid : id = c.nextLeaseId
    · rw [hid, AList.lookup_insert] at hlease'
      exact .inl ⟨hid, (Option.some.inj hlease').symm⟩
    · rw [AList.lookup_insert_ne hid] at hlease'
      exact .inr ⟨hid, hlease'⟩
  constructor
  · intro name
    rw [hcounts, leaseCount, hleases, Map.count_insert hnew]
    by_cases hname : name = lease.model
    · subst hname
      rw [Map.find_insert_self, h.counted]
      simp [leaseCount]
    · rw [Map.find_insert_of_ne hname, h.counted]
      simp [leaseCount, Ne.symm hname]
  · intro id lease' hlease'
    rw [hinstances]
    rcases hlookupNew id lease' hlease' with ⟨-, rfl⟩ | ⟨-, hold⟩
    · exact ⟨backend, hlookup, hloaded, hbusy⟩
    · exact h.backed id lease' hold
  · intro id id' lease₁ lease₂ hlease₁ hlease₂ hmodel hslot
    rcases hlookupNew id lease₁ hlease₁ with ⟨rfl, rfl⟩ | ⟨-, hold₁⟩
    · rcases hlookupNew id' lease₂ hlease₂ with ⟨rfl, -⟩ | ⟨-, hold₂⟩
      · rfl
      · exact absurd hslot.symm (hown id' lease₂ hold₂ hmodel.symm)
    · rcases hlookupNew id' lease₂ hlease₂ with ⟨rfl, rfl⟩ | ⟨-, hold₂⟩
      · exact absurd hslot (hown id lease₁ hold₁ hmodel)
      · exact h.distinct id id' lease₁ lease₂ hold₁ hold₂ hmodel hslot
  · intro id lease' hlease'
    rw [hnext]
    rcases hlookupNew id lease' hlease' with ⟨rfl, -⟩ | ⟨-, hold⟩
    · exact lt_add_one _
    · exact (h.below id lease' hold).trans (lt_add_one _)
  · intro id lease' info hlease' hinfo hauto
    have hpool : ∀ pool n, c'.inPool pool n = c.inPool pool n := by
      intro pool n
      rw [inPool, inPool, hfind]
    rw [hfind] at hinfo
    rw [leasesUpTo, hleases, Map.count_insert hnew]
    simp only [hpool]
    rcases hlookupNew id lease' hlease' with ⟨rfl, rfl⟩ | ⟨-, hold⟩
    · have hall : Map.count c.activeLeases (fun id' lease =>
          decide (id' ≤ c.nextLeaseId) && c.inPool info.admissionPool lease.model) =
          c.leasesInPool info.admissionPool := by
        apply Map.count_congr
        intro id' lease'' hold
        simp [(h.below id' lease'' hold).le]
      have hlt := hroom info hinfo hauto
      have hle := Bool.toNat_le
        (decide (c.nextLeaseId ≤ c.nextLeaseId) && c.inPool info.admissionPool lease'.model)
      rw [hall]
      omega
    · have hyounger : decide (c.nextLeaseId ≤ id) = false :=
        decide_eq_false (h.below id lease' hold).not_ge
      rw [hyounger, Bool.false_and, Bool.toNat_false, Nat.add_zero]
      exact h.bounded id lease' info hold hinfo hauto

/-- The admission that a lease passed saw room for it in the pool. -/
theorem Ledger.room_of_allowed (h : c.Ledger) (hallowed : c.admissionPoolAllowsLocked name = true)
    {info : ModelInfo} (hinfo : c.findInfo name = some info)
    (hauto : info.concurrencyAuto = false) :
    (c.leasesInPool info.admissionPool : ℤ) < info.concurrencyLimit := by
  rw [← h.activeInPool_eq]
  simpa [admissionPoolAllowsLocked, hinfo, hauto] using hallowed

/-- The count of a lease that is given back is taken off. -/
theorem Ledger.leave (h : c.Ledger) {id : ℤ} {lease : ActiveLease}
    (hlease : c.activeLeases.lookup id = some lease)
    (hbook : c'.leaseBook = { c.leaseBook with
      activeRequestsByModel :=
        if c.hasActiveRequests lease.model then
          c.activeRequestsByModel.insert lease.model
            (c.activeRequestsByModel.find lease.model 0 - 1)
        else c.activeRequestsByModel
      activeLeases := c.activeLeases.erase id }) : c'.Ledger := by
  have hinstances : c'.instances = c.instances := congrArg LeaseBook.instances hbook
  have hregistry : c'.registry = c.registry := congrArg LeaseBook.registry hbook
  have hnext : c'.nextLeaseId = c.nextLeaseId := congrArg LeaseBook.nextLeaseId hbook
  have hcounts := congrArg LeaseBook.activeRequestsByModel hbook
  have hleases : c'.activeLeases = c.activeLeases.erase id :=
    congrArg LeaseBook.activeLeases hbook
  have hfind : ∀ n, c'.findInfo n = c.findInfo n := by
    intro n
    rw [findInfo, findInfo, hinstances, hregistry]
  have hlookup : ∀ id' lease', c'.activeLeases.lookup id' = some lease' →
      c.activeLeases.lookup id' = some lease' := by
    intro id' lease' hlease'
    rw [hleases] at hlease'
    by_cases hid : id' = id
    · rw [hid, AList.lookup_erase] at hlease'
      cases hlease'
    · rwa [AList.lookup_erase_ne hid] at hlease'
  have hcount : ∀ n, c'.leaseCount n + (lease.model == n).toNat = c.leaseCount n := by
    intro n
    rw [leaseCount, hleases]
    exact Map.count_erase hlease _
  have hactive : c.hasActiveRequests lease.model = true := by
    have hone := hcount lease.model
    rw [beq_self_eq_true, Bool.toNat_true] at hone
    rw [hasActiveRequests, h.counted, decide_eq_true_eq]
    omega
  dsimp only [leaseBook] at hcounts
  rw [if_pos hactive] at hcounts
  constructor
  · intro name
    have hname := hcount name
    rw [hcounts]
    by_cases heq : name = lease.model
    · subst heq
      rw [Map.find_insert_self, h.counted]
      rw [beq_self_eq_true, Bool.toNat_true] at hname
      omega
    · rw [Map.find_insert_of_ne heq, h.counted, ← hname]
      simp [Ne.symm heq]
  · intro id' lease' hlease'
    rw [hinstances]
    exact h.backed id' lease' (hlookup id' lease' hlease')
  · intro id₁ id₂ lease₁ lease₂ hlease₁ hlease₂
    exact h.distinct id₁ id₂ lease₁ lease₂ (hlookup _ _ hlease₁) (hlookup _ _ hlease₂)
  · intro id' lease' hlease'
    rw [hnext]
    exact h.below id' lease' (hlookup id' lease' hlease')
  · intro id' lease' info hlease' hinfo hauto
    rw [hfind] at hinfo
    have hbound := h.bounded id' lease' info (hlookup id' lease' hlease') hinfo hauto
    have hle : c'.leasesUpTo id' info.admissionPool ≤ c.leasesUpTo id' info.admissionPool := by
      have hpool : ∀ pool n, c'.inPool pool n = c.inPool pool n := by
        intro pool n
        rw [inPool, inPool, hfind]
      rw [leasesUpTo, leasesUpTo, hleases]
      simp only [hpool]
      exact (Nat.le_add_right _ _).trans_eq (Map.count_erase hlease _)
    omega

/-- Requests keep the ledger. -/
theorem Ledger.of_leaseChange (h : c.Ledger) (hchange : c.LeaseChange c'.leaseBook) :
    c'.Ledger := by
  generalize hbook : c'.leaseBook = book at hchange
  cases hchange with
  | same =>
      have hcounts : c'.activeRequestsByModel = c.activeRequestsByModel :=
        congrArg LeaseBook.activeRequestsByModel hbook
      have hinstances : c'.instances = c.instances := congrArg LeaseBook.instances hbook
      apply h.of_backsOn (congrArg LeaseBook.activeLeases hbook)
        (congrArg LeaseBook.nextLeaseId hbook)
      · intro name
        rw [hcounts]
      · intro id lease _
        exact .of_lookup_eq (by rw [hinstances])
  | slot name backend slot busy hlookup hfree =>
      have hcounts : c'.activeRequestsByModel = c.activeRequestsByModel :=
        congrArg LeaseBook.activeRequestsByModel hbook
      apply h.of_backsOn (congrArg LeaseBook.activeLeases hbook)
        (congrArg LeaseBook.nextLeaseId hbook)
      · intro name
        rw [hcounts]
      · intro id lease hlease
        exact .of_set hlookup (congrArg LeaseBook.instances hbook)
          fun hname => h.slot_ne hlease hlookup hfree hname
  | lease backend lease hmay =>
      obtain ⟨hlookup, hfree, hloaded, -, -, hallowed⟩ := hmay
      let taken : Backend := { backend with slots := backend.slots.set lease.backendSlot true }
      have hinfo : ∀ n, (c.setInstance lease.model taken).findInfo n = c.findInfo n :=
        findInfo_setInstance hlookup rfl
      have htaken : (c.setInstance lease.model taken).Ledger := by
        refine h.of_backsOn rfl rfl (fun _ => rfl) ?_
        intro id old hold
        exact .of_set hlookup rfl fun hname => h.slot_ne hold hlookup hfree hname
      refine htaken.enter hbook (AList.lookup_insert _) hloaded ?_ ?_ ?_
      · simp [taken, (List.getElem?_eq_some_iff.1 hfree).1]
      · intro id old hold hmodel
        exact (h.slot_ne hold hlookup hfree hmodel).symm
      · intro info hinfo' hauto
        rw [hinfo] at hinfo'
        have hroom := h.room_of_allowed hallowed hinfo' hauto
        have hleases : (c.setInstance lease.model taken).leasesInPool info.admissionPool =
            c.leasesInPool info.admissionPool := by
          simp only [leasesInPool, inPool, hinfo]
          rfl
        rwa [hleases]
  | release id lease backend hlease hlookup =>
      let left : BackendCoordinator :=
        { c with
          activeRequestsByModel :=
            if c.hasActiveRequests lease.model then
              c.activeRequestsByModel.insert lease.model
                (c.activeRequestsByModel.find lease.model 0 - 1)
            else c.activeRequestsByModel
          activeLeases := c.activeLeases.erase id }
      have hleft : left.Ledger := h.leave hlease rfl
      apply hleft.of_backsOn (congrArg LeaseBook.activeLeases hbook)
        (congrArg LeaseBook.nextLeaseId hbook)
      · intro name
        exact congrArg (fun book => Map.find book.activeRequestsByModel name 0) hbook
      · intro id' lease' hlease'
        refine .of_set hlookup (congrArg LeaseBook.instances hbook) fun hname hslot => ?_
        by_cases hid : id' = id
        · rw [hid, AList.lookup_erase] at hlease'
          cases hlease'
        · rw [AList.lookup_erase_ne hid] at hlease'
          exact hid (h.distinct id' id lease' lease hlease' hlease hname hslot.symm)

end BackendCoordinator

end InferDeck.Model
