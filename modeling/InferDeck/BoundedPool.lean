import Mathlib.Tactic

/-!
# Admission to a bounded context pool

What one iteration of the continuous-batching scheduler does before it decodes: it admits waiting
tasks in the order of their submission, as long as their reservations fit the pool together, and
evicts cached sequences of idle slots to make room. The key-value memory is the one of llama.cpp,
a parameter here.
-/

namespace InferDeck.LlamaWrapper

/-- The memory of a context: the last position of each sequence, negative where it is empty, and
the removal of a whole sequence, whose result is only logged. -/
structure KvMemory (μ : Type) where
  seqPosMax : μ → ℕ → ℤ
  seqRm : μ → ℕ → μ

/-- The removal of a whole sequence empties it and leaves the other sequences alone. -/
structure KvMemory.RemovesSequences {μ : Type} (kv : KvMemory μ) : Prop where
  emptied : ∀ m i, kv.seqPosMax (kv.seqRm m i) i < 0
  kept : ∀ m i j, j ≠ i → kv.seqPosMax (kv.seqRm m i) j = kv.seqPosMax m j

def boundedPoolReservation (promptPositions maxTokens draftMargin : ℤ) : ℤ :=
  max 0 promptPositions + max 0 maxTokens + max 0 draftMargin

def boundedPoolCanAdmit (reservedPositions candidatePositions capacity : ℤ) : Bool :=
  decide (0 ≤ reservedPositions) && decide (0 ≤ candidatePositions) && decide (0 < capacity) &&
    decide (reservedPositions ≤ capacity - candidatePositions)

structure SlotTask where
  slotId : ℤ := -1
  promptTokens : List ℤ := []
  promptPositionCount : ℤ := 0
  maxTokens : ℤ := 512
  extCancel : Bool := false
  callerCancel : Bool := false
  callerStop : Bool := false
  admitted : Bool := false
  reservedPositions : ℤ := 0
  deriving DecidableEq

namespace SlotTask

def shouldCancel (t : SlotTask) : Bool := t.callerCancel || t.extCancel

def promptPositions (t : SlotTask) : ℤ :=
  if 0 < t.promptPositionCount then t.promptPositionCount else t.promptTokens.length

/-- Neither cancelled nor told to stop. -/
def live (t : SlotTask) : Bool := !t.shouldCancel && !t.callerStop

end SlotTask

structure ContinuousBatchScheduler where
  contextCapacity : ℤ
  /-- `none` where there is no draft context. -/
  draftContextCapacity : Option ℤ
  draftMargin : ℤ
  /-- `llama_n_seq_max` of the context. -/
  sequenceCount : ℕ
  boundedPool : Bool := true
  healthy : Bool := true
  deriving DecidableEq

structure PoolMemory (μ : Type) where
  target : Option μ
  draft : Option μ

/-- What an admission pass has done so far; `tasks` are the ones it has looked at. -/
structure Admission (μ : Type) where
  tasks : List SlotTask
  reserved : ℤ
  runnable : List SlotTask
  rejected : List (SlotTask × String)
  memory : PoolMemory μ

namespace Admission

variable {μ : Type}

def keep (a : Admission μ) (t : SlotTask) : Admission μ := { a with tasks := a.tasks ++ [t] }

def reject (a : Admission μ) (t : SlotTask) (message : String) (memory : PoolMemory μ) :
    Admission μ :=
  { a with tasks := a.tasks ++ [t], rejected := a.rejected ++ [(t, message)], memory }

def grant (a : Admission μ) (t : SlotTask) (required : ℤ) (memory : PoolMemory μ) : Admission μ :=
  let task := { t with admitted := true, reservedPositions := required }
  { a with
    tasks := a.tasks ++ [task]
    reserved := a.reserved + required
    runnable := a.runnable ++ [task]
    memory }

/-- Everything the pass has looked at is admitted. -/
def Complete (a : Admission μ) : Prop := a.rejected = [] ∧ ∀ t ∈ a.tasks, t.admitted = true

variable {a : Admission μ} {t : SlotTask}

theorem complete_keep (h : t.admitted = true) : (a.keep t).Complete ↔ a.Complete := by
  simp only [Complete, keep, List.forall_mem_append, List.forall_mem_singleton, h, and_true]

theorem complete_grant (required : ℤ) (memory : PoolMemory μ) :
    (a.grant t required memory).Complete ↔ a.Complete := by
  simp only [Complete, grant, List.forall_mem_append, List.forall_mem_singleton, and_true]

theorem not_complete_reject (message : String) (memory : PoolMemory μ) :
    ¬ (a.reject t message memory).Complete := by
  intro h
  simpa [reject] using h.1

end Admission

namespace ContinuousBatchScheduler

variable {μ : Type} (s : ContinuousBatchScheduler) (kv : KvMemory μ)

def capacity : ℤ :=
  match s.draftContextCapacity with
  | some draft => min s.contextCapacity draft
  | none => s.contextCapacity

def reservation (t : SlotTask) : ℤ :=
  boundedPoolReservation t.promptPositions t.maxTokens s.draftMargin

/-- A sequence whose cache must stay: an admitted task's or the candidate's own. -/
def protectedSequence (tasks : List SlotTask) (candidate : SlotTask) (sequence : ℕ) : Bool :=
  (tasks.any fun t => t.admitted && t.slotId == sequence) || candidate.slotId == sequence

def idlePositions (isProtected : ℕ → Bool) (memory : Option μ) : ℤ :=
  match memory with
  | none => 0
  | some m => (((List.range s.sequenceCount).filter fun i => !isProtected i).map fun i =>
      max 0 (kv.seqPosMax m i + 1)).sum

def idle (isProtected : ℕ → Bool) (memory : PoolMemory μ) : ℤ :=
  max (s.idlePositions kv isProtected memory.target) (s.idlePositions kv isProtected memory.draft)

def hasSequence (memory : Option μ) (i : ℕ) : Bool :=
  memory.any fun m => decide (0 ≤ kv.seqPosMax m i)

def evict (memory : PoolMemory μ) (i : ℕ) : PoolMemory μ where
  target := memory.target.map fun m => kv.seqRm m i
  draft := memory.draft.map fun m => kv.seqRm m i

/-- Evict idle sequences in order until the candidate fits. -/
def reclaimLoop (isProtected : ℕ → Bool) (reserved required : ℤ) :
    List ℕ → PoolMemory μ → PoolMemory μ
  | [], memory => memory
  | i :: sequences, memory =>
      if boundedPoolCanAdmit (reserved + s.idle kv isProtected memory) required s.capacity then
        memory
      else if isProtected i || (!hasSequence kv memory.target i && !hasSequence kv memory.draft i)
      then reclaimLoop isProtected reserved required sequences memory
      else reclaimLoop isProtected reserved required sequences (evict kv memory i)

def reclaimBoundedPoolCapacity (tasks : List SlotTask) (candidate : SlotTask)
    (reserved required : ℤ) (memory : PoolMemory μ) : Bool × PoolMemory μ :=
  let isProtected := protectedSequence tasks candidate
  let memory' := s.reclaimLoop kv isProtected reserved required (List.range s.sequenceCount) memory
  (boundedPoolCanAdmit (reserved + s.idle kv isProtected memory') required s.capacity, memory')

def admitLoop (a : Admission μ) : List SlotTask → Admission μ
  | [] => a
  | candidate :: rest =>
      if candidate.admitted || !candidate.live then admitLoop (a.keep candidate) rest
      else
        let required := s.reservation candidate
        if s.capacity < required then
          admitLoop (a.reject candidate "request exceeds shared context pool" a.memory) rest
        else if !boundedPoolCanAdmit a.reserved required s.capacity then
          { a with tasks := a.tasks ++ candidate :: rest }
        else
          let reclaimed := s.reclaimBoundedPoolCapacity kv (a.tasks ++ candidate :: rest) candidate
            a.reserved required a.memory
          if !reclaimed.1 then
            admitLoop
              (a.reject candidate "unable to reclaim shared context pool capacity" reclaimed.2) rest
          else admitLoop (a.grant candidate required reclaimed.2) rest

def reservedTotal (tasks : List SlotTask) : ℤ :=
  ((tasks.filter SlotTask.admitted).map SlotTask.reservedPositions).sum

def admitBoundedPoolTasks (tasks : List SlotTask) (memory : PoolMemory μ) : Admission μ :=
  s.admitLoop kv
    { tasks := []
      reserved := reservedTotal tasks
      runnable := tasks.filter fun t => t.admitted && t.live
      rejected := []
      memory } tasks

section Reclaim

variable {s kv}

theorem reservation_nonneg (t : SlotTask) : 0 ≤ s.reservation t := by
  simp only [reservation, boundedPoolReservation]
  omega

theorem boundedPoolCanAdmit_iff {reserved candidate capacity : ℤ} :
    boundedPoolCanAdmit reserved candidate capacity ↔
      0 ≤ reserved ∧ 0 ≤ candidate ∧ 0 < capacity ∧ reserved ≤ capacity - candidate := by
  simp [boundedPoolCanAdmit, and_assoc]

/-- Neither memory holds anything of the sequence. -/
def Vacant (kv : KvMemory μ) (memory : PoolMemory μ) (i : ℕ) : Prop :=
  (∀ m ∈ memory.target, kv.seqPosMax m i < 0) ∧ ∀ m ∈ memory.draft, kv.seqPosMax m i < 0

theorem vacant_of_no_sequence {memory : PoolMemory μ} {i : ℕ}
    (ht : hasSequence kv memory.target i = false) (hd : hasSequence kv memory.draft i = false) :
    Vacant kv memory i := by
  constructor
  · intro m hm
    rw [Option.mem_def] at hm
    simpa [hasSequence, hm] using ht
  · intro m hm
    rw [Option.mem_def] at hm
    simpa [hasSequence, hm] using hd

theorem vacant_evict (hkv : kv.RemovesSequences) (memory : PoolMemory μ) (i : ℕ) :
    Vacant kv (evict kv memory i) i := by
  constructor
  · intro m hm
    obtain ⟨m₀, _, rfl⟩ := Option.mem_map.1 hm
    exact hkv.emptied m₀ i
  · intro m hm
    obtain ⟨m₀, _, rfl⟩ := Option.mem_map.1 hm
    exact hkv.emptied m₀ i

theorem Vacant.evict (hkv : kv.RemovesSequences) {memory : PoolMemory μ} {i : ℕ}
    (h : Vacant kv memory i) (j : ℕ) : Vacant kv (evict kv memory j) i := by
  by_cases hij : i = j
  · rw [hij]
    exact vacant_evict hkv memory j
  · constructor
    · intro m hm
      obtain ⟨m₀, hm₀, rfl⟩ := Option.mem_map.1 hm
      rw [hkv.kept m₀ j i hij]
      exact h.1 m₀ hm₀
    · intro m hm
      obtain ⟨m₀, hm₀, rfl⟩ := Option.mem_map.1 hm
      rw [hkv.kept m₀ j i hij]
      exact h.2 m₀ hm₀

theorem idlePositions_of_vacant {isProtected : ℕ → Bool} {memory : Option μ}
    (h : ∀ i < s.sequenceCount, isProtected i = false → ∀ m ∈ memory, kv.seqPosMax m i < 0) :
    s.idlePositions kv isProtected memory = 0 := by
  cases memory with
  | none => rfl
  | some m =>
      apply List.sum_eq_zero
      intro x hx
      obtain ⟨i, hi, rfl⟩ := List.mem_map.1 hx
      obtain ⟨hmem, hfree⟩ := List.mem_filter.1 hi
      have hneg := h i (List.mem_range.1 hmem) (by simpa using hfree) m rfl
      omega

variable {isProtected : ℕ → Bool} {reserved required : ℤ}

theorem Vacant.reclaimLoop (hkv : kv.RemovesSequences) {i : ℕ} (sequences : List ℕ)
    {memory : PoolMemory μ} (h : Vacant kv memory i) :
    Vacant kv (s.reclaimLoop kv isProtected reserved required sequences memory) i := by
  induction sequences generalizing memory with
  | nil => exact h
  | cons j sequences ih =>
      rw [ContinuousBatchScheduler.reclaimLoop]
      split_ifs with hfits hskip
      · exact h
      · exact ih h
      · exact ih (h.evict hkv j)

/-- The loop stops early, or it has gone over all idle sequences. -/
theorem reclaimLoop_vacant (isProtected : ℕ → Bool) (reserved required : ℤ)
    (hkv : kv.RemovesSequences) (sequences : List ℕ) (memory : PoolMemory μ) :
    boundedPoolCanAdmit
        (reserved + s.idle kv isProtected
          (s.reclaimLoop kv isProtected reserved required sequences memory)) required s.capacity ∨
      ∀ i ∈ sequences, isProtected i = false →
        Vacant kv (s.reclaimLoop kv isProtected reserved required sequences memory) i := by
  induction sequences generalizing memory with
  | nil =>
      right
      intro i hi
      cases hi
  | cons j sequences ih =>
      rw [ContinuousBatchScheduler.reclaimLoop]
      split_ifs with hfits hskip
      · exact Or.inl hfits
      · refine (ih memory).imp_right fun hrest i hi hfree => ?_
        rcases List.mem_cons.1 hi with rfl | hi
        · rw [hfree, Bool.false_or, Bool.and_eq_true, Bool.not_eq_true', Bool.not_eq_true'] at hskip
          exact (vacant_of_no_sequence hskip.1 hskip.2).reclaimLoop hkv sequences
        · exact hrest i hi hfree
      · refine (ih (ContinuousBatchScheduler.evict kv memory j)).imp_right fun hrest i hi hfree => ?_
        rcases List.mem_cons.1 hi with rfl | hi
        · exact (vacant_evict hkv memory i).reclaimLoop hkv sequences
        · exact hrest i hi hfree

/-- Idle sequences never keep out a candidate that fits beside the admitted tasks. -/
theorem reclaim_of_canAdmit (hkv : kv.RemovesSequences) (tasks : List SlotTask)
    (candidate : SlotTask) (memory : PoolMemory μ)
    (h : boundedPoolCanAdmit reserved required s.capacity) :
    (s.reclaimBoundedPoolCapacity kv tasks candidate reserved required memory).1 = true := by
  have hloop := reclaimLoop_vacant (s := s) (protectedSequence tasks candidate) reserved required
    hkv (List.range s.sequenceCount) memory
  rcases hloop with hfits | hvacant
  · exact hfits
  · have hvacant' := fun i hi => hvacant i (List.mem_range.2 hi)
    have htarget := idlePositions_of_vacant fun i hi hfree => (hvacant' i hi hfree).1
    have hdraft := idlePositions_of_vacant fun i hi hfree => (hvacant' i hi hfree).2
    simp only [reclaimBoundedPoolCapacity, idle, htarget, hdraft, max_self, add_zero]
    exact h

end Reclaim

section Admit

variable {s kv} {a : Admission μ}

def waitingTotal (s : ContinuousBatchScheduler) (tasks : List SlotTask) : ℤ :=
  ((tasks.filter fun t => !t.admitted).map s.reservation).sum

/-- What an admission pass can do with the next task. -/
inductive AdmitMove (s : ContinuousBatchScheduler) (kv : KvMemory μ) (a : Admission μ)
    (candidate : SlotTask) (rest : List SlotTask) : Admission μ → Prop
  | skip (h : candidate.admitted || !candidate.live) :
      AdmitMove s kv a candidate rest (s.admitLoop kv (a.keep candidate) rest)
  | reject (message : String) (hwaits : candidate.admitted = false)
      (h : s.capacity < s.reservation candidate) :
      AdmitMove s kv a candidate rest
        (s.admitLoop kv (a.reject candidate message a.memory) rest)
  | wait (hwaits : candidate.admitted = false) (hle : s.reservation candidate ≤ s.capacity)
      (h : ¬ boundedPoolCanAdmit a.reserved (s.reservation candidate) s.capacity) :
      AdmitMove s kv a candidate rest { a with tasks := a.tasks ++ candidate :: rest }
  | grant (memory : PoolMemory μ) (hwaits : candidate.admitted = false)
      (h : boundedPoolCanAdmit a.reserved (s.reservation candidate) s.capacity) :
      AdmitMove s kv a candidate rest
        (s.admitLoop kv (a.grant candidate (s.reservation candidate) memory) rest)

theorem admitMove (hkv : kv.RemovesSequences) (a : Admission μ) (candidate : SlotTask)
    (rest : List SlotTask) :
    AdmitMove s kv a candidate rest (s.admitLoop kv a (candidate :: rest)) := by
  rw [admitLoop]
  by_cases hskip : candidate.admitted || !candidate.live
  · rw [if_pos hskip]
    exact .skip hskip
  · rw [if_neg hskip]
    have hwaits : candidate.admitted = false := by
      rw [← Bool.not_eq_true]
      intro hadmitted
      simp [hadmitted] at hskip
    by_cases hlarge : s.capacity < s.reservation candidate
    · simp only [if_pos hlarge]
      exact .reject _ hwaits hlarge
    · simp only [if_neg hlarge]
      by_cases hfits : boundedPoolCanAdmit a.reserved (s.reservation candidate) s.capacity
      · have hroom := reclaim_of_canAdmit hkv (a.tasks ++ candidate :: rest) candidate a.memory hfits
        simp only [hfits, hroom, Bool.not_true, Bool.false_eq_true, if_false]
        exact .grant _ hwaits hfits
      · simp only [hfits, Bool.not_false, if_true]
        exact .wait hwaits (not_lt.1 hlarge) hfits

/-- The reservations of the admitted tasks are their own and fit the pool. -/
structure Consistent (s : ContinuousBatchScheduler) (tasks : List SlotTask) : Prop where
  own : ∀ t ∈ tasks, t.admitted = true → t.reservedPositions = s.reservation t
  fits : reservedTotal tasks ≤ max 0 s.capacity

theorem reservedTotal_append (tasks tasks' : List SlotTask) :
    reservedTotal (tasks ++ tasks') = reservedTotal tasks + reservedTotal tasks' := by
  simp [reservedTotal]

theorem reservedTotal_admitted {t : SlotTask} (h : t.admitted = true) :
    reservedTotal [t] = t.reservedPositions := by
  simp [reservedTotal, h]

theorem reservedTotal_waiting {t : SlotTask} (h : t.admitted = false) :
    reservedTotal [t] = 0 := by
  simp [reservedTotal, h]

theorem waitingTotal_nonneg (tasks : List SlotTask) : 0 ≤ waitingTotal s tasks := by
  apply List.sum_nonneg
  intro x hx
  obtain ⟨t, _, rfl⟩ := List.mem_map.1 hx
  exact reservation_nonneg t

theorem waitingTotal_cons_admitted {t : SlotTask} (h : t.admitted = true) (tasks : List SlotTask) :
    waitingTotal s (t :: tasks) = waitingTotal s tasks := by
  simp [waitingTotal, h]

theorem waitingTotal_cons_waiting {t : SlotTask} (h : t.admitted = false) (tasks : List SlotTask) :
    waitingTotal s (t :: tasks) = s.reservation t + waitingTotal s tasks := by
  simp [waitingTotal, h]

/-- Of live tasks, a pass admits all exactly where their reservations fit the pool beside those of
the tasks that are admitted already. -/
theorem complete_admitLoop_iff (hkv : kv.RemovesSequences) (rest : List SlotTask) (a : Admission μ)
    (hlive : ∀ t ∈ rest, t.live = true) (hpos : ∀ t ∈ rest, 0 < s.reservation t)
    (hnonneg : 0 ≤ a.reserved) (hfits : a.reserved ≤ max 0 s.capacity) :
    Admission.Complete (s.admitLoop kv a rest) ↔
      Admission.Complete a ∧ a.reserved + waitingTotal s rest ≤ max 0 s.capacity := by
  induction rest generalizing a with
  | nil => simp [admitLoop, waitingTotal, hfits]
  | cons candidate rest ih =>
      have hrest := waitingTotal_nonneg (s := s) rest
      have hpos₀ := hpos candidate List.mem_cons_self
      have ih' := fun a' => ih a' (fun t ht => hlive t (List.mem_cons_of_mem _ ht))
        (fun t ht => hpos t (List.mem_cons_of_mem _ ht))
      have hmove := admitMove (s := s) hkv a candidate rest
      generalize s.admitLoop kv a (candidate :: rest) = result at hmove
      cases hmove with
      | skip hskip =>
          have hadmitted : candidate.admitted = true := by
            simpa [hlive candidate List.mem_cons_self] using hskip
          rw [ih' (a.keep candidate) hnonneg hfits, waitingTotal_cons_admitted hadmitted,
            Admission.complete_keep hadmitted]
          rfl
      | reject message hwaits hlarge =>
          rw [ih' (a.reject candidate message a.memory) hnonneg hfits,
            waitingTotal_cons_waiting hwaits]
          constructor
          · intro h
            exact absurd h.1 (Admission.not_complete_reject message a.memory)
          · intro h
            omega
      | wait hwaits hle h =>
          rw [waitingTotal_cons_waiting hwaits]
          constructor
          · intro hcomplete
            have hcandidate := hcomplete.2 candidate (by simp)
            rw [hwaits] at hcandidate
            cases hcandidate
          · intro hcomplete
            rw [boundedPoolCanAdmit_iff] at h
            omega
      | grant memory hwaits h =>
          rw [boundedPoolCanAdmit_iff] at h
          have hreserved : (a.grant candidate (s.reservation candidate) memory).reserved =
              a.reserved + s.reservation candidate := rfl
          rw [ih' (a.grant candidate (s.reservation candidate) memory) (by omega) (by omega),
            waitingTotal_cons_waiting hwaits, hreserved, Admission.complete_grant, add_assoc]

theorem Consistent.of_append {tasks tasks' : List SlotTask}
    (hown : ∀ t ∈ tasks ++ tasks', t.admitted = true → t.reservedPositions = s.reservation t)
    {n : ℤ} (htotal : reservedTotal tasks + reservedTotal tasks' = n) (hfits : n ≤ max 0 s.capacity) :
    Consistent s (tasks ++ tasks') where
  own := hown
  fits := by
    rw [reservedTotal_append, htotal]
    exact hfits

theorem consistent_admitLoop (hkv : kv.RemovesSequences) (rest : List SlotTask) (a : Admission μ)
    (hown : ∀ t ∈ a.tasks ++ rest, t.admitted = true → t.reservedPositions = s.reservation t)
    (htotal : reservedTotal a.tasks + reservedTotal rest = a.reserved)
    (hfits : a.reserved ≤ max 0 s.capacity) : Consistent s (s.admitLoop kv a rest).tasks := by
  induction rest generalizing a with
  | nil => simpa [admitLoop] using Consistent.of_append hown htotal hfits
  | cons candidate rest ih =>
      have hcons : reservedTotal (candidate :: rest) =
          reservedTotal [candidate] + reservedTotal rest := reservedTotal_append [candidate] rest
      have hmove := admitMove (s := s) hkv a candidate rest
      generalize s.admitLoop kv a (candidate :: rest) = result at hmove
      have hkept : ∀ t ∈ (a.tasks ++ [candidate]) ++ rest, t.admitted = true →
          t.reservedPositions = s.reservation t := by
        rw [List.append_assoc]
        exact hown
      have hkeptTotal : reservedTotal (a.tasks ++ [candidate]) + reservedTotal rest =
          a.reserved := by
        rw [reservedTotal_append]
        omega
      cases hmove with
      | skip => exact ih (a.keep candidate) hkept hkeptTotal hfits
      | reject message => exact ih (a.reject candidate message a.memory) hkept hkeptTotal hfits
      | wait => exact Consistent.of_append hown htotal hfits
      | grant memory hwaits h =>
          rw [boundedPoolCanAdmit_iff] at h
          have hwaiting := reservedTotal_waiting hwaits
          refine ih (a.grant candidate (s.reservation candidate) memory) ?_ ?_ ?_
          · intro t ht hadmitted
            simp only [Admission.grant, List.mem_append, List.mem_singleton] at ht
            rcases ht with (ht | rfl) | ht
            · exact hown t (List.mem_append_left _ ht) hadmitted
            · rfl
            · exact hown t (List.mem_append_right _ (List.mem_cons_of_mem _ ht)) hadmitted
          · have hadmitted : reservedTotal [{ candidate with
                admitted := true, reservedPositions := s.reservation candidate }] =
                s.reservation candidate := reservedTotal_admitted rfl
            simp only [Admission.grant, reservedTotal_append, hadmitted]
            omega
          · simp only [Admission.grant]
            omega

theorem reservedTotal_nonneg {tasks : List SlotTask} (h : Consistent s tasks) :
    0 ≤ reservedTotal tasks := by
  apply List.sum_nonneg
  intro x hx
  obtain ⟨t, ht, rfl⟩ := List.mem_map.1 hx
  obtain ⟨hmem, hadmitted⟩ := List.mem_filter.1 ht
  rw [h.own t hmem hadmitted]
  exact reservation_nonneg t

def reservationTotal (s : ContinuousBatchScheduler) (tasks : List SlotTask) : ℤ :=
  (tasks.map s.reservation).sum

theorem reservationTotal_eq {tasks : List SlotTask}
    (h : ∀ t ∈ tasks, t.admitted = true → t.reservedPositions = s.reservation t) :
    reservationTotal s tasks = reservedTotal tasks + waitingTotal s tasks := by
  induction tasks with
  | nil => rfl
  | cons t tasks ih =>
      have ih' := ih fun t ht => h t (List.mem_cons_of_mem _ ht)
      simp only [reservationTotal, List.map_cons, List.sum_cons] at ih' ⊢
      rw [ih', ← List.singleton_append, reservedTotal_append, List.singleton_append]
      cases hadmitted : t.admitted with
      | true =>
          rw [reservedTotal_admitted hadmitted, waitingTotal_cons_admitted hadmitted,
            h t List.mem_cons_self hadmitted]
          omega
      | false =>
          rw [reservedTotal_waiting hadmitted, waitingTotal_cons_waiting hadmitted]
          omega

/-- A pass over live tasks admits all of them exactly where all reservations fit together. -/
theorem complete_admitBoundedPoolTasks_iff (hkv : kv.RemovesSequences) {tasks : List SlotTask}
    (memory : PoolMemory μ) (hconsistent : Consistent s tasks) (hlive : ∀ t ∈ tasks, t.live = true)
    (hpos : ∀ t ∈ tasks, 0 < s.reservation t) :
    Admission.Complete (s.admitBoundedPoolTasks kv tasks memory) ↔
      reservationTotal s tasks ≤ max 0 s.capacity := by
  rw [admitBoundedPoolTasks, complete_admitLoop_iff hkv tasks _ hlive hpos
    (reservedTotal_nonneg hconsistent) hconsistent.fits, reservationTotal_eq hconsistent.own]
  simp [Admission.Complete]

end Admit

/-- The tasks of the scheduler over a run: submitted, signalled, gone through a pass and taken out
in any order. -/
inductive PoolRun (s : ContinuousBatchScheduler) (kv : KvMemory μ) : List SlotTask → Prop
  | start : PoolRun s kv []
  | submit {tasks : List SlotTask} (t : SlotTask) (h : PoolRun s kv tasks)
      (hnew : t.admitted = false) : PoolRun s kv (tasks ++ [t])
  | signal {tasks : List SlotTask} (extCancel callerCancel callerStop : SlotTask → Bool)
      (h : PoolRun s kv tasks) :
      PoolRun s kv (tasks.map fun t => { t with
        extCancel := extCancel t, callerCancel := callerCancel t, callerStop := callerStop t })
  | pass {tasks : List SlotTask} (memory : PoolMemory μ) (h : PoolRun s kv tasks) :
      PoolRun s kv (s.admitBoundedPoolTasks kv tasks memory).tasks
  | leave {tasks tasks' : List SlotTask} (h : PoolRun s kv tasks) (hsub : tasks'.Sublist tasks) :
      PoolRun s kv tasks'

section Run

variable {s kv}

theorem Consistent.sublist {tasks tasks' : List SlotTask} (h : Consistent s tasks)
    (hsub : tasks'.Sublist tasks) : Consistent s tasks' where
  own := fun t ht => h.own t (hsub.subset ht)
  fits := by
    refine le_trans ?_ h.fits
    refine List.Sublist.sum_le_sum ((hsub.filter _).map _) ?_
    intro x hx
    obtain ⟨t, ht, rfl⟩ := List.mem_map.1 hx
    obtain ⟨hmem, hadmitted⟩ := List.mem_filter.1 ht
    rw [h.own t hmem hadmitted]
    exact reservation_nonneg t

/-- In every run the reservations of the admitted tasks fit the pool. -/
theorem consistent_of_poolRun (hkv : kv.RemovesSequences) {tasks : List SlotTask}
    (h : PoolRun s kv tasks) : Consistent s tasks := by
  induction h with
  | start => exact ⟨by simp, le_max_left _ _⟩
  | @submit tasks t _ hnew ih =>
      refine Consistent.of_append (n := reservedTotal tasks) ?_ ?_ ih.fits
      · intro t' ht' hadmitted
        rcases List.mem_append.1 ht' with ht' | ht'
        · exact ih.own t' ht' hadmitted
        · rw [List.mem_singleton.1 ht', hnew] at hadmitted
          cases hadmitted
      · rw [reservedTotal_waiting hnew, add_zero]
  | @signal tasks extCancel callerCancel callerStop _ ih =>
      constructor
      · intro t' ht' hadmitted
        obtain ⟨t, ht, rfl⟩ := List.mem_map.1 ht'
        exact ih.own t ht hadmitted
      · refine le_of_eq_of_le ?_ ih.fits
        simp [reservedTotal, List.filter_map, Function.comp_def]
  | pass memory _ ih =>
      refine consistent_admitLoop hkv _ _ ?_ ?_ ih.fits
      · simpa using ih.own
      · exact zero_add _
  | leave _ hsub ih => exact ih.sublist hsub

end Run

end ContinuousBatchScheduler

end InferDeck.LlamaWrapper
