import InferDeck.PoolPositions

/-!
# The pool of a bounded scheduler

Over every run of the loop, the admitted tasks stay within their reservations, the reservations
within the capacity, together with what idle sequences keep, and no task is admitted before an
earlier one that waits.
-/

namespace InferDeck.LlamaWrapper.SlotCache

open Function SequenceMemory Execution LlamaCppModel

/-! The shares of the tasks in the pool. -/

namespace PoolEntry

def share (e : PoolEntry) : ℤ := if e.admitted then e.reservedPositions else 0

structure SameShare (e e' : PoolEntry) : Prop where
  id : e'.id = e.id
  prompt : e'.task.prompt = e.task.prompt
  admitted : e'.admitted = e.admitted
  reservedPositions : e'.reservedPositions = e.reservedPositions

theorem SameShare.share {e e' : PoolEntry} (h : e.SameShare e') : e'.share = e.share := by
  unfold PoolEntry.share
  rw [h.admitted, h.reservedPositions]

structure Sound (s : ContinuousBatchScheduler) (e : PoolEntry) : Prop where
  within : ∃ weights, e.task.Within weights e.specDraft s.draftMargin
  own : e.admitted = true → e.reservedPositions = s.reservation e.pool

variable {s : ContinuousBatchScheduler} {e e' : PoolEntry}

theorem reservation_pool (s : ContinuousBatchScheduler) (e : PoolEntry) :
    s.reservation e.pool = SlotTask.Within.positions e.task s.draftMargin := by
  have hcontext := promptContext_nonneg e.task.prompt.toPredictSetup
  have hpositions : e.pool.promptPositions = promptContext e.task.prompt.toPredictSetup := rfl
  unfold ContinuousBatchScheduler.reservation boundedPoolReservation SlotTask.Within.positions
  rw [hpositions, max_eq_right hcontext]
  rfl

theorem Sound.used_le (h : e.Sound s) (hadmitted : e.admitted = true) :
    e.usedPositions ≤ e.reservedPositions := by
  obtain ⟨weights, hwithin⟩ := h.within
  rw [h.own hadmitted, reservation_pool]
  unfold usedPositions
  push_cast
  exact hwithin.used_le

theorem Sound.share_nonneg (h : e.Sound s) : 0 ≤ e.share := by
  unfold PoolEntry.share
  split_ifs with hadmitted
  · rw [h.own hadmitted]
    exact ContinuousBatchScheduler.reservation_nonneg _
  · exact le_rfl

theorem Sound.of_sameShare (h : e.Sound s) (hsame : e.SameShare e')
    (hwithin : ∃ weights, e'.task.Within weights e'.specDraft s.draftMargin) : e'.Sound s where
  within := hwithin
  own hadmitted := by
    rw [hsame.admitted] at hadmitted
    rw [hsame.reservedPositions, h.own hadmitted, reservation_pool, reservation_pool,
      SlotTask.Within.positions, SlotTask.Within.positions, hsame.prompt]

end PoolEntry

/-! The loop's work. -/

theorem View.schedule_eq_some {v v' : View} {guard : SlotTask → Bool}
    {f : SlotTask → Memory → Option (SlotTask × Memory)} (h : v.schedule guard f = some v') :
    ∃ c r, v.call = some c ∧ c.task.done = false ∧ guard c.task = true ∧
      f c.task v.memory = some r ∧ v'.call = some { c with task := r.1 } := by
  obtain ⟨c, hc, h⟩ := Option.bind_eq_some_iff.1 h
  split_ifs at h with hguard
  obtain ⟨r, hr, rfl⟩ := Option.map_eq_some_iff.1 h
  simp only [Bool.or_eq_true, Bool.not_eq_true', not_or, Bool.not_eq_true, Bool.not_eq_false]
    at hguard
  exact ⟨c, r, hc, hguard.1, hguard.2, hr, rfl⟩

namespace BoundedLoop

variable {m : LoadedModel} {s : ContinuousBatchScheduler} {kv : KvMemory (ℕ → Cells)}
  {b b' : BoundedLoop}

/-- The loop's work keeps a task within its reservation. -/
theorem work_within {e : PoolEntry} {action : SlotAction} {weights : List ℕ} {margin : ℤ}
    (h : e.task.Within weights e.specDraft margin) (hloop : action.ofLoop = true)
    (hsuits : action.suits e = true) {slot : SlotState} {call : Call} {memory : Memory}
    {v : View} (htask : call.task = e.task)
    (hstep : View.step m ⟨slot, some call, memory⟩ action = some v) :
    ∃ c, v.call = some c ∧ c.task.prompt = e.task.prompt ∧ c.task.Within weights [] margin := by
  have hempty : (e.admitted && e.specDraft.isEmpty) = true →
      call.task.Within weights [] margin := by
    intro hidle
    have hnil := List.isEmpty_iff.1 (Bool.and_eq_true_iff.1 hidle).2
    rw [htask]
    exact hnil ▸ h
  rw [← htask]
  cases action with
  | init it outcome =>
      simp only [View.step] at hstep
      obtain ⟨c, r, hc, -, hguard, hr, hv⟩ := View.schedule_eq_some hstep
      obtain rfl := Option.some.inj hc
      obtain rfl := Option.some.inj hr
      simp only [Bool.and_eq_true, Bool.not_eq_true'] at hguard
      exact ⟨_, hv, (SlotTask.initTask_starts _ _).1.prompt, (hempty hsuits).init hguard.1.1 _ _ _⟩
  | media offsets =>
      simp only [View.step] at hstep
      obtain ⟨c, r, hc, -, hguard, hr, hv⟩ := View.schedule_eq_some hstep
      obtain rfl := Option.some.inj hc
      simp only [SlotTask.live, Bool.and_eq_true, Bool.not_eq_true'] at hguard
      exact ⟨_, hv, SlotTask.prompt_evalMedia hr,
        (hempty hsuits).media hguard.1.1.1.1 hguard.1.2 hr⟩
  | prefill it room captures id =>
      simp only [View.step] at hstep
      obtain ⟨c, r, hc, -, hguard, hr, hv⟩ := View.schedule_eq_some hstep
      obtain rfl := Option.some.inj hc
      obtain rfl := Option.some.inj hr
      simp only [SlotTask.live, Bool.and_eq_true, Bool.not_eq_true'] at hguard
      obtain ⟨⟨⟨⟨hlive, hdone⟩, -⟩, hmedia⟩, -⟩ := hguard
      exact ⟨_, hv, SlotTask.prompt_prefill .., (hempty hsuits).prefill hlive.1.1 hdone hmedia ..⟩
  | generate it id =>
      simp only [View.step] at hstep
      obtain ⟨c, r, hc, hactive, hguard, hr, hv⟩ := View.schedule_eq_some hstep
      obtain rfl := Option.some.inj hc
      obtain rfl := Option.some.inj hr
      simp only [SlotTask.live, Bool.and_eq_true, Bool.not_eq_true'] at hguard
      exact ⟨_, hv, SlotTask.prompt_generate it id memory,
        (hempty hsuits).generate hguard.1.1.1 hguard.2 hactive it id memory⟩
  | verify it draft accepted id =>
      simp only [View.step] at hstep
      obtain ⟨c, r, hc, -, hguard, hr, hv⟩ := View.schedule_eq_some hstep
      obtain rfl := Option.some.inj hc
      obtain rfl := Option.some.inj hr
      simp only [SlotTask.live, Bool.and_eq_true, Bool.not_eq_true', decide_eq_true_eq] at hguard
      simp only [SlotAction.suits, Bool.and_eq_true, Bool.not_eq_true', List.isEmpty_eq_false_iff,
        decide_eq_true_eq] at hsuits
      obtain ⟨⟨-, hdraft⟩, rfl⟩ := hsuits
      rw [← htask] at h
      exact ⟨_, hv, SlotTask.prompt_verify it _ accepted id memory,
        h.verify hdraft hguard.1.1.1.1.1.1 hguard.2 it id memory⟩
  | cancel =>
      simp only [View.step] at hstep
      obtain ⟨c, r, hc, -, -, hr, hv⟩ := View.schedule_eq_some hstep
      obtain rfl := Option.some.inj hc
      obtain rfl := Option.some.inj hr
      rw [← htask] at h
      exact ⟨_, hv, rfl, h.complete none⟩
  | stop =>
      simp only [View.step] at hstep
      obtain ⟨c, r, hc, -, -, hr, hv⟩ := View.schedule_eq_some hstep
      obtain rfl := Option.some.inj hc
      obtain rfl := Option.some.inj hr
      rw [← htask] at h
      exact ⟨_, hv, rfl, h.complete none⟩
  | acquire | release | extCancel | reject | evict | drain => cases hloop

/-! The list of the active tasks. -/

theorem admittedPositions_eq (b : BoundedLoop) :
    b.admittedPositions = (b.active.map PoolEntry.share).sum := by
  unfold admittedPositions ContinuousBatchScheduler.reservedTotal
  induction b.active with
  | nil => rfl
  | cons e active ih =>
      simp only [List.map_cons, List.sum_cons, ← ih, PoolEntry.share]
      cases hadmitted : e.admitted with
      | false => simp [PoolEntry.pool, hadmitted]
      | true => simp [PoolEntry.pool, hadmitted]

theorem mem_modify {id : ℕ} {f : PoolEntry → PoolEntry} {e' : PoolEntry} :
    e' ∈ (b.modify id f).active ↔
      ∃ e ∈ b.active, e' = if e.id = id then f e else e := by
  simp only [modify, List.mem_map, eq_comm]

theorem ids_modify {id : ℕ} {f : PoolEntry → PoolEntry}
    (hf : ∀ e ∈ b.active, e.id = id → (f e).id = e.id) :
    (b.modify id f).active.map PoolEntry.id = b.active.map PoolEntry.id := by
  unfold modify
  rw [List.map_map]
  apply List.map_congr_left
  intro e he
  dsimp only [comp]
  split_ifs with hid
  · exact hf e he hid
  · rfl

theorem admittedPositions_modify {id : ℕ} {f : PoolEntry → PoolEntry}
    (hf : ∀ e ∈ b.active, e.id = id → (f e).share = e.share) :
    (b.modify id f).admittedPositions = b.admittedPositions := by
  rw [admittedPositions_eq, admittedPositions_eq, modify, List.map_map]
  congr 1
  apply List.map_congr_left
  intro e he
  dsimp only [comp]
  split_ifs with hid
  · exact hf e he hid
  · rfl

/-- With one task of each number, an admission adds the task's reservation. -/
theorem admittedPositions_grant (hids : b.active.Pairwise fun e e' => e.id < e'.id)
    {candidate : PoolEntry} (hmem : candidate ∈ b.active) (hwaits : candidate.admitted = false)
    (required : ℤ) :
    (b.grant candidate.id required).admittedPositions = b.admittedPositions + required := by
  rw [admittedPositions_eq, admittedPositions_eq]
  dsimp only [grant, modify]
  generalize b.active = active at hids hmem ⊢
  induction active with
  | nil => cases hmem
  | cons e active ih =>
      obtain ⟨hhead, htail⟩ := List.pairwise_cons.1 hids
      simp only [List.map_cons, List.sum_cons]
      rcases List.mem_cons.1 hmem with rfl | hrest
      · have hothers : active.map (fun e => if e.id = candidate.id then
            { e with admitted := true, reservedPositions := required } else e) = active := by
          conv_rhs => rw [← List.map_id active]
          apply List.map_congr_left
          intro e he
          exact if_neg (hhead e he).ne'
        rw [hothers, if_pos rfl]
        simp only [PoolEntry.share, hwaits, if_true, Bool.false_eq_true, if_false]
        omega
      · rw [ih htail hrest, if_neg (hhead candidate hrest).ne]
        omega

inductive Considered (s : ContinuousBatchScheduler) (b : BoundedLoop) (candidate : PoolEntry)
    (todo : List ℕ) (reserved : ℤ) (rejected : List (ℕ × String)) :
    List PoolEntry → PoolPhase → Prop
  | skip (h : candidate.admitted = true ∨ candidate.live = false) :
      Considered s b candidate todo reserved rejected b.active (.admitting todo reserved rejected)
  | reject (message : String) :
      Considered s b candidate todo reserved rejected b.active
        (.admitting todo reserved (rejected ++ [(candidate.id, message)]))
  | wait :
      Considered s b candidate todo reserved rejected b.active (.admitting [] reserved rejected)
  | grant (hwaits : candidate.admitted = false)
      (hfits : reserved + s.reservation candidate.pool ≤ s.capacity) :
      Considered s b candidate todo reserved rejected
        (b.grant candidate.id (s.reservation candidate.pool)).active
        (.admitting todo (reserved + s.reservation candidate.pool) rejected)

variable (m s kv) in
theorem considered (b : BoundedLoop) (candidate : PoolEntry) (todo : List ℕ) (reserved : ℤ)
    (rejected : List (ℕ × String)) :
    Considered s b candidate todo reserved rejected
      (b.consider m s kv candidate todo reserved rejected).active
      (b.consider m s kv candidate todo reserved rejected).phase := by
  unfold consider
  dsimp only
  split_ifs with hskip hlarge hfits hroom
  · refine .skip ?_
    simpa using hskip
  · exact .reject _
  · exact .wait
  · exact .reject _
  · have hwaits : candidate.admitted = false := by
      simp only [Bool.or_eq_true, not_or, Bool.not_eq_true] at hskip
      exact hskip.1
    refine .grant hwaits ?_
    have hcan : boundedPoolCanAdmit reserved (s.reservation candidate.pool) s.capacity = true := by
      simpa using hfits
    have hle := (ContinuousBatchScheduler.boundedPoolCanAdmit_iff.1 hcan).2.2.2
    omega

structure Pass (b : BoundedLoop) (todo : List ℕ) (reserved : ℤ) (rejected : List (ℕ × String)) :
    Prop where
  reserved_eq : reserved = b.admittedPositions
  sorted : todo.Pairwise (· < ·)
  below : ∀ id ∈ todo, id < b.nextId
  /-- A task before one that is still to be looked at has been looked at. -/
  inOrder : ∀ id ∈ todo, ∀ e ∈ b.active, e.id < id →
    e.id ∈ todo ∨ e.admitted = true ∨ e.live = false ∨ e.id ∈ rejected.map Prod.fst

structure Pooled (s : ContinuousBatchScheduler) (b : BoundedLoop) : Prop where
  ids : b.active.Pairwise fun e e' => e.id < e'.id
  below : ∀ e ∈ b.active, e.id < b.nextId
  sound : ∀ e ∈ b.active, e.Sound s
  capacity : b.admittedPositions ≤ s.capacity
  pass : ∀ todo reserved rejected, b.phase = .admitting todo reserved rejected →
    b.Pass todo reserved rejected

/-- The environment hands over prompts as `prepare_inference` makes them, and the drafts are not
longer than the margin. -/
def Allowed {ρ : Type} (tokenize : Tokenizer ρ) (s : ContinuousBatchScheduler)
    (_ : BoundedLoop) : BoundedAction → Prop
  | .submit _ prompt _ _ _ =>
      ∃ (lm : LlamaCppModel) (req : InferenceRequest ρ),
        lm.prepareInference tokenize req = .ok prompt.toPredictSetup
  | .draft _ tokens => (tokens.length : ℤ) ≤ s.draftMargin
  | _ => True

/-- `prepare_inference` hands over a prompt, with any position for its checkpoint that leaves media
chunks alone. -/
theorem exists_preparedPrompt {ρ : Type} {tokenize : Tokenizer ρ} (htext : TextTokens tokenize)
    {lm : LlamaCppModel} {req : InferenceRequest ρ} {s : PredictSetup}
    (h : lm.prepareInference tokenize req = .ok s) {capture : ℕ}
    (hcapture : s.mediaChunks ≠ [] → capture = 0) :
    ∃ prompt : PreparedPrompt,
      prompt.toPredictSetup = s ∧ prompt.checkpointCapturePos = capture := by
  obtain ⟨weights, hplaced, hsum⟩ := placed_prepareInference htext h
  have hpositions : s.mediaChunks = [] → s.promptPositionCount = s.promptTokens.length := by
    intro hmedia
    have hall := hplaced.take_sum_of_prefix (hplaced.media_iff.1 hmedia) (List.prefix_refl _)
    rw [← hplaced.length, List.take_length, hplaced.length] at hall
    rw [← hsum, hall]
  have hfirst : ∀ text, tokenNull ∉ text → text ++ [tokenNull] <+: s.promptTokens →
      (text.length : ℤ) ≤ s.promptPositionCount := by
    intro text hnull hbegins
    have htake := hplaced.take_sum_of_prefix hnull ((List.prefix_append _ _).trans hbegins)
    rw [← hsum, ← htake]
    exact_mod_cast (List.take_sublist _ _).sum_le_sum fun _ _ => Nat.zero_le _
  exact ⟨{ toPredictSetup := s
           checkpointCapturePos := capture
           media_iff := hplaced.media_iff
           text_positions := hpositions
           media_positions := hfirst
           media_capture := hcapture }, rfl, rfl⟩

theorem pairwise_modify (hids : b.active.Pairwise fun e e' => e.id < e'.id) {id : ℕ}
    {f : PoolEntry → PoolEntry} (hf : ∀ e ∈ b.active, e.id = id → (f e).id = e.id) :
    (b.modify id f).active.Pairwise fun e e' => e.id < e'.id := by
  rw [← List.pairwise_map (R := (· < ·)), ids_modify hf, List.pairwise_map]
  exact hids

/-- A change of one task that the pool does not see. A pass must not see the task revived. -/
theorem Pooled.modify (h : b.Pooled s) {id : ℕ} {f : PoolEntry → PoolEntry}
    (hsame : ∀ e ∈ b.active, e.id = id → e.SameShare (f e))
    (hlive : b.phase = .working ∨
      ∀ e ∈ b.active, e.id = id → (f e).live = true → e.live = true)
    (hsound : ∀ e ∈ b.active, e.id = id → (f e).Sound s) : (b.modify id f).Pooled s where
  ids := pairwise_modify h.ids fun e he hid => (hsame e he hid).id
  below e' he' := by
    obtain ⟨e, he, rfl⟩ := mem_modify.1 he'
    split_ifs with hid
    · rw [(hsame e he hid).id]
      exact h.below e he
    · exact h.below e he
  sound e' he' := by
    obtain ⟨e, he, rfl⟩ := mem_modify.1 he'
    split_ifs with hid
    · exact hsound e he hid
    · exact h.sound e he
  capacity := by
    rw [admittedPositions_modify fun e he hid => (hsame e he hid).share]
    exact h.capacity
  pass todo reserved rejected hphase := by
    have hpass := h.pass todo reserved rejected hphase
    replace hlive := hlive.resolve_left fun hworking => by
      rw [show (b.modify id f).phase = b.phase from rfl, hworking] at hphase
      cases hphase
    refine ⟨?_, hpass.sorted, hpass.below, ?_⟩
    · rw [admittedPositions_modify fun e he hid => (hsame e he hid).share]
      exact hpass.reserved_eq
    · intro id' hid' e' he' hlt
      obtain ⟨e, he, rfl⟩ := mem_modify.1 he'
      split_ifs at hlt ⊢ with hid
      · obtain ⟨heid, -, hadmitted, -⟩ := hsame e he hid
        rw [heid] at hlt
        rw [heid, hadmitted]
        refine (hpass.inOrder id' hid' e he hlt).imp_right (Or.imp_right (Or.imp_left ?_))
        intro hdead
        rw [← Bool.not_eq_true] at hdead ⊢
        exact mt (hlive e he hid) hdead
      · exact hpass.inOrder id' hid' e he hlt

/-- Tasks are taken out while no pass is under way. -/
theorem Pooled.filter (h : b.Pooled s) (keep : PoolEntry → Bool) :
    Pooled s { b with active := b.active.filter keep, phase := .working } where
  ids := h.ids.filter _
  below e he := h.below e (List.mem_of_mem_filter he)
  sound e he := h.sound e (List.mem_of_mem_filter he)
  capacity := by
    refine le_trans ?_ h.capacity
    rw [admittedPositions_eq, admittedPositions_eq]
    apply List.Sublist.sum_le_sum (List.filter_sublist.map _)
    intro x hx
    obtain ⟨e, he, rfl⟩ := List.mem_map.1 hx
    exact (h.sound e he).share_nonneg
  pass todo reserved rejected hphase := by cases hphase

theorem Pass.congr {todo : List ℕ} {reserved : ℤ} {rejected : List (ℕ × String)}
    (h : b.Pass todo reserved rejected) (hactive : b'.active = b.active)
    (hnextId : b'.nextId = b.nextId) : b'.Pass todo reserved rejected where
  reserved_eq := by
    rw [admittedPositions, hactive]
    exact h.reserved_eq
  sorted := h.sorted
  below := hnextId ▸ h.below
  inOrder := hactive ▸ h.inOrder

/-- The memories are not part of it. -/
theorem Pooled.congr (h : b.Pooled s) (hactive : b'.active = b.active)
    (hnextId : b'.nextId = b.nextId)
    (hpass : ∀ todo reserved rejected, b'.phase = .admitting todo reserved rejected →
      b.Pass todo reserved rejected) : b'.Pooled s where
  ids := hactive ▸ h.ids
  below := by
    rw [hactive, hnextId]
    exact h.below
  sound := hactive ▸ h.sound
  capacity := by
    rw [admittedPositions, hactive]
    exact h.capacity
  pass todo reserved rejected hphase :=
    (hpass todo reserved rejected hphase).congr hactive hnextId

theorem Pooled.submit (h : b.Pooled s) {task : SlotTask} {weights : List ℕ}
    (hwithin : task.Within weights [] s.draftMargin) :
    Pooled s { b with
      active := b.active ++ [{ id := b.nextId, task }]
      nextId := b.nextId + 1 } := by
  have htotal : ∀ b' : BoundedLoop, b'.active = b.active ++ [{ id := b.nextId, task }] →
      b'.admittedPositions = b.admittedPositions := by
    intro b' hactive
    rw [admittedPositions_eq, admittedPositions_eq, hactive]
    simp [PoolEntry.share]
  refine ⟨?_, ?_, ?_, ?_, ?_⟩
  · refine List.pairwise_append.2 ⟨h.ids, List.pairwise_singleton _ _, ?_⟩
    intro e he e' he'
    obtain rfl := List.mem_singleton.1 he'
    exact h.below e he
  · intro e he
    dsimp only at he ⊢
    rcases List.mem_append.1 he with hold | hnew
    · have hlt := h.below e hold
      omega
    · obtain rfl := List.mem_singleton.1 hnew
      exact Nat.lt_succ_self _
  · intro e he
    rcases List.mem_append.1 he with hold | hnew
    · exact h.sound e hold
    · obtain rfl := List.mem_singleton.1 hnew
      exact ⟨⟨weights, hwithin⟩, fun hadmitted => by cases hadmitted⟩
  · rw [htotal _ rfl]
    exact h.capacity
  · intro todo reserved rejected hphase
    have hpass := h.pass todo reserved rejected hphase
    refine ⟨?_, hpass.sorted, ?_, ?_⟩
    · rw [htotal _ rfl]
      exact hpass.reserved_eq
    · intro id hid
      exact (hpass.below id hid).trans (Nat.lt_succ_self _)
    · intro id hid e he hlt
      rcases List.mem_append.1 he with hold | hnew
      · exact hpass.inOrder id hid e hold hlt
      · -- a new task comes after all that the pass looks at
        obtain rfl := List.mem_singleton.1 hnew
        have hbelow := hpass.below id hid
        dsimp only at hlt
        omega

theorem Pooled.beginPass (h : b.Pooled s) :
    Pooled s { b with
      phase := .admitting (b.active.map PoolEntry.id) b.admittedPositions [] } where
  ids := h.ids
  below := h.below
  sound := h.sound
  capacity := h.capacity
  pass todo reserved rejected hphase := by
    cases hphase
    refine ⟨rfl, List.pairwise_map.2 h.ids, ?_, ?_⟩
    · intro id hid
      obtain ⟨e, he, rfl⟩ := List.mem_map.1 hid
      exact h.below e he
    · intro id _ e he _
      exact .inl (List.mem_map_of_mem he)

theorem eq_of_id_eq (hids : b.active.Pairwise fun e e' => e.id < e'.id) {e e' : PoolEntry}
    (he : e ∈ b.active) (he' : e' ∈ b.active) (hid : e.id = e'.id) : e = e' := by
  have hnodup : (b.active.map PoolEntry.id).Nodup := List.pairwise_map.2 (hids.imp fun h => h.ne)
  exact List.inj_on_of_nodup_map hnodup he he' hid

theorem mem_of_entry {id : ℕ} {e : PoolEntry} (h : b.entry id = some e) :
    e ∈ b.active ∧ e.id = id :=
  ⟨List.mem_of_find?_eq_some h, by simpa using List.find?_some h⟩

/-- The pass after a round that has admitted nobody. -/
theorem Pass.next {candidate : PoolEntry} {todo : List ℕ} {reserved : ℤ}
    {rejected rejected' : List (ℕ × String)}
    (h : b.Pass (candidate.id :: todo) reserved rejected)
    (hids : b.active.Pairwise fun e e' => e.id < e'.id) (hmem : candidate ∈ b.active)
    (hrejected : rejected.map Prod.fst ⊆ rejected'.map Prod.fst)
    (hcandidate : candidate.admitted = true ∨ candidate.live = false ∨
      candidate.id ∈ rejected'.map Prod.fst) : b.Pass todo reserved rejected' where
  reserved_eq := h.reserved_eq
  sorted := h.sorted.of_cons
  below id hid := h.below id (List.mem_cons_of_mem _ hid)
  inOrder id hid e he hlt := by
    rcases h.inOrder id (List.mem_cons_of_mem _ hid) e he hlt with htodo | hrest
    · rcases List.mem_cons.1 htodo with heq | htodo
      · obtain rfl := eq_of_id_eq hids he hmem heq
        exact .inr hcandidate
      · exact .inl htodo
    · exact .inr (hrest.imp_right (Or.imp_right fun hmem => hrejected hmem))

theorem Pooled.grant (h : b.Pooled s) {candidate : PoolEntry} {todo : List ℕ} {reserved : ℤ}
    {rejected : List (ℕ × String)} (hpass : b.Pass (candidate.id :: todo) reserved rejected)
    (hmem : candidate ∈ b.active) (hwaits : candidate.admitted = false)
    (hfits : reserved + s.reservation candidate.pool ≤ s.capacity) :
    Pooled s { b.grant candidate.id (s.reservation candidate.pool) with
      phase := .admitting todo (reserved + s.reservation candidate.pool) rejected } := by
  have htotal := admittedPositions_grant h.ids hmem hwaits (s.reservation candidate.pool)
  have hids : (b.grant candidate.id (s.reservation candidate.pool)).active.Pairwise
      fun e e' => e.id < e'.id := pairwise_modify h.ids fun _ _ _ => rfl
  refine ⟨hids, ?_, ?_, ?_, ?_⟩
  · intro e' he'
    obtain ⟨e, he, rfl⟩ := mem_modify.1 he'
    split_ifs <;> exact h.below e he
  · intro e' he'
    obtain ⟨e, he, rfl⟩ := mem_modify.1 he'
    split_ifs with hid
    · obtain rfl := eq_of_id_eq h.ids he hmem hid
      exact ⟨(h.sound e he).within, fun _ => rfl⟩
    · exact h.sound e he
  · refine le_trans (le_of_eq htotal) ?_
    rw [← hpass.reserved_eq]
    exact hfits
  · intro todo' reserved' rejected' hphase
    cases hphase
    refine ⟨?_, hpass.sorted.of_cons, fun id hid => hpass.below id (List.mem_cons_of_mem _ hid), ?_⟩
    · rw [hpass.reserved_eq]
      exact htotal.symm
    · intro id hid e' he' hlt
      obtain ⟨e, he, rfl⟩ := mem_modify.1 he'
      split_ifs at hlt ⊢ with heid
      · exact .inr (.inl rfl)
      · rcases hpass.inOrder id (List.mem_cons_of_mem _ hid) e he hlt with htodo | hrest
        · exact .inl ((List.mem_cons.1 htodo).resolve_left heid)
        · exact .inr hrest

theorem Pooled.consider (h : b.Pooled s) {candidate : PoolEntry} {todo : List ℕ} {reserved : ℤ}
    {rejected : List (ℕ × String)} (hphase : b.phase = .admitting (candidate.id :: todo) reserved
      rejected) (hmem : candidate ∈ b.active) :
    (b.consider m s kv candidate todo reserved rejected).Pooled s := by
  have hpass := h.pass _ _ _ hphase
  have hnextId : (b.consider m s kv candidate todo reserved rejected).nextId = b.nextId := by
    unfold BoundedLoop.consider
    dsimp only
    split_ifs <;> rfl
  have hconsidered := considered m s kv b candidate todo reserved rejected
  generalize b.consider m s kv candidate todo reserved rejected = b' at hnextId hconsidered
  generalize hactive' : b'.active = active' at hconsidered
  generalize hphase' : b'.phase = phase' at hconsidered
  cases hconsidered with
  | skip hskip =>
      refine h.congr hactive' hnextId fun _ _ _ hp => ?_
      obtain ⟨rfl, rfl, rfl⟩ := PoolPhase.admitting.inj (hphase'.symm.trans hp)
      exact hpass.next h.ids hmem (List.Subset.refl _) (hskip.imp_right .inl)
  | reject message =>
      refine h.congr hactive' hnextId fun _ _ _ hp => ?_
      obtain ⟨rfl, rfl, rfl⟩ := PoolPhase.admitting.inj (hphase'.symm.trans hp)
      refine hpass.next h.ids hmem ?_ (.inr (.inr (by simp)))
      rw [List.map_append]
      exact List.subset_append_left _ _
  | wait =>
      refine h.congr hactive' hnextId fun _ _ _ hp => ?_
      obtain ⟨rfl, rfl, rfl⟩ := PoolPhase.admitting.inj (hphase'.symm.trans hp)
      exact ⟨hpass.reserved_eq, .nil, by simp, by simp⟩
  | grant hwaits hfits =>
      have hgrant := h.grant hpass hmem hwaits hfits
      exact hgrant.congr hactive' hnextId fun _ _ _ hp => hgrant.pass _ _ _ (hphase'.symm.trans hp)

theorem Pooled.work (h : b.Pooled s) (hphase : b.phase = .working) {e : PoolEntry}
    (hmem : e ∈ b.active) {action : SlotAction} (hloop : action.ofLoop = true) (hsuits : action.suits e = true)
    (hwork : b.work m e action = some b') : b'.Pooled s := by
  obtain ⟨v, hstep, hwork⟩ := Option.bind_eq_some_iff.1 hwork
  obtain ⟨call, hcall, rfl⟩ := Option.map_eq_some_iff.1 hwork
  obtain ⟨weights, hwithin⟩ := (h.sound e hmem).within
  obtain ⟨c, hc, hprompt, hwithin'⟩ := work_within hwithin hloop hsuits rfl hstep
  obtain rfl := Option.some.inj (hcall.symm.trans hc)
  have hsame : e.SameShare { e with task := call.task, specDraft := [] } := ⟨rfl, hprompt, rfl, rfl⟩
  have hworked : (b.modify e.id fun e => { e with task := call.task, specDraft := [] }).Pooled s := by
    apply h.modify _ (.inl hphase)
    · intro e' he' hid
      obtain rfl := eq_of_id_eq h.ids he' hmem hid
      exact (h.sound e' he').of_sameShare hsame ⟨weights, hwithin'⟩
    · intro e' he' hid
      obtain rfl := eq_of_id_eq h.ids he' hmem hid
      exact hsame
  exact hworked.congr rfl rfl hworked.pass

/-- A signal revives nobody. -/
theorem live_of_signal {e : PoolEntry} {extCancel callerCancel callerStop : Bool}
    (h : PoolEntry.live { e with task := e.task.signal extCancel callerCancel callerStop } = true) :
    e.live = true := by
  simp only [PoolEntry.live, PoolEntry.pool, LlamaWrapper.SlotTask.live,
    LlamaWrapper.SlotTask.shouldCancel, SlotTask.signal, Bool.and_eq_true, Bool.not_eq_true',
    Bool.or_eq_false_iff] at h ⊢
  exact ⟨⟨h.1.1.1, h.1.2.1⟩, h.2.1⟩

variable {ρ : Type} {tokenize : Tokenizer ρ}

theorem Pooled.step (htext : TextTokens tokenize) (h : b.Pooled s) {a : BoundedAction}
    (hallowed : Allowed tokenize s b a) (hstep : b.step m s kv a = some b') : b'.Pooled s := by
  cases a with
  | submit slotId prompt lastPromptTokens checkpoint mtpCacheSynced =>
      obtain rfl := Option.some.inj hstep
      obtain ⟨lm, req, hprepare⟩ := hallowed
      obtain ⟨weights, hplaced, htotal⟩ := placed_prepareInference htext hprepare
      exact h.submit (.submitted hplaced (sum_le_promptContext htotal) slotId lastPromptTokens
        checkpoint mtpCacheSynced)
  | signal id extCancel callerCancel callerStop =>
      obtain rfl := Option.some.inj hstep
      have hsame : ∀ e : PoolEntry, e.SameShare
          { e with task := e.task.signal extCancel callerCancel callerStop } :=
        fun _ => ⟨rfl, rfl, rfl, rfl⟩
      refine h.modify (fun e _ _ => hsame e) (.inr fun e _ _ => live_of_signal) fun e he _ => ?_
      have hsound := h.sound e he
      exact hsound.of_sameShare (hsame e) (hsound.within.imp fun _ hwithin => hwithin.signal ..)
  | beginPass =>
      simp only [BoundedLoop.step] at hstep
      split at hstep
      · obtain rfl := Option.some.inj hstep
        exact h.beginPass
      · cases hstep
  | consider =>
      simp only [BoundedLoop.step] at hstep
      split at hstep
      next id todo reserved rejected hphase =>
        obtain ⟨candidate, hentry, rfl⟩ := Option.map_eq_some_iff.1 hstep
        obtain ⟨hmem, rfl⟩ := mem_of_entry hentry
        exact h.consider hphase hmem
      next => cases hstep
  | endPass =>
      simp only [BoundedLoop.step] at hstep
      split at hstep
      · obtain rfl := Option.some.inj hstep
        exact h.filter _
      · cases hstep
  | draft id tokens =>
      simp only [BoundedLoop.step] at hstep
      split at hstep
      next e hphase hentry =>
        split_ifs at hstep with hguard
        obtain rfl := Option.some.inj hstep
        obtain ⟨hmem, rfl⟩ := mem_of_entry hentry
        simp only [Bool.and_eq_true, Bool.not_eq_true'] at hguard
        have hsame : ∀ e : PoolEntry, e.SameShare { e with specDraft := tokens } := fun _ =>
          ⟨rfl, rfl, rfl, rfl⟩
        refine h.modify (fun e _ _ => hsame e) (.inl hphase) fun e' he' hid => ?_
        obtain rfl := eq_of_id_eq h.ids he' hmem hid
        have hsound := h.sound _ he'
        exact hsound.of_sameShare (hsame _) (hsound.within.imp fun _ hwithin =>
          hwithin.draft hguard.1.2 hguard.2 hallowed)
      next => cases hstep
  | work id action =>
      simp only [BoundedLoop.step] at hstep
      split at hstep
      next e hphase hentry =>
        split_ifs at hstep with hguard
        obtain ⟨hloop, hsuits⟩ := Bool.and_eq_true_iff.1 hguard
        exact h.work hphase (mem_of_entry hentry).1 hloop hsuits hstep
      next => cases hstep
  | remove id =>
      simp only [BoundedLoop.step] at hstep
      split at hstep
      next e hphase hentry =>
        split_ifs at hstep
        obtain rfl := Option.some.inj hstep
        have hfilter := h.filter fun e => decide (e.id ≠ id)
        exact hfilter.congr rfl rfl fun _ _ _ hp => by rw [hphase] at hp; cases hp
      next => cases hstep
  | fail =>
      obtain rfl := Option.some.inj hstep
      have hfilter := h.filter fun _ => false
      rw [List.filter_false] at hfilter
      exact hfilter

def busySequence (b : BoundedLoop) (i : ℕ) : Bool :=
  b.active.any fun e => e.admitted && e.task.slotId == i

def Admits (b b' : BoundedLoop) (id : ℕ) : Prop :=
  (∃ e ∈ b'.active, e.id = id ∧ e.admitted = true) ∧
    ∀ e ∈ b.active, e.id = id → e.admitted = false

def rejects (b : BoundedLoop) (id : ℕ) : Prop :=
  ∃ todo reserved rejected, b.phase = .admitting todo reserved rejected ∧
    id ∈ rejected.map Prod.fst

structure PoolContract (m : LoadedModel) (s : ContinuousBatchScheduler)
    (kv : KvMemory (ℕ → Cells)) (b : BoundedLoop) : Prop where
  capacity : b.admittedPositions ≤ s.capacity
  used : ∀ e ∈ b.active, e.admitted = true → e.usedPositions ≤ e.reservedPositions
  /-- After an admission there is room for what the idle sequences keep. -/
  retained : ∀ a b' id, b.step m s kv a = some b' → b.Admits b' id →
    b'.admittedPositions + s.idle kv b'.busySequence (b'.memory m) ≤ s.capacity
  /-- A task is admitted after those that were submitted before it. -/
  inOrder : ∀ a b' id, b.step m s kv a = some b' → b.Admits b' id →
    ∀ e ∈ b.active, e.id < id → e.admitted = true ∨ e.live = false ∨ b.rejects e.id

variable (s kv) in
theorem shape_reclaimLoop (isProtected : ℕ → Bool) (reserved required : ℤ) (sequences : List ℕ)
    (memory : PoolMemory (ℕ → Cells)) :
    (s.reclaimLoop kv isProtected reserved required sequences memory).target.isSome =
        memory.target.isSome ∧
      (s.reclaimLoop kv isProtected reserved required sequences memory).draft.isSome =
        memory.draft.isSome := by
  induction sequences generalizing memory with
  | nil => exact ⟨rfl, rfl⟩
  | cons i sequences ih =>
      rw [ContinuousBatchScheduler.reclaimLoop]
      split_ifs
      · exact ⟨rfl, rfl⟩
      · exact ih memory
      · obtain ⟨htarget, hdraft⟩ := ih (ContinuousBatchScheduler.evict kv memory i)
        rw [htarget, hdraft]
        exact ⟨Option.isSome_map, Option.isSome_map⟩

theorem memory_setMemory {memory : PoolMemory (ℕ → Cells)}
    (htarget : memory.target.isSome = (b.memory m).target.isSome)
    (hdraft : memory.draft.isSome = (b.memory m).draft.isSome) :
    (b.setMemory memory).memory m = memory := by
  obtain ⟨target, draft⟩ := memory
  obtain ⟨target, rfl⟩ := Option.isSome_iff_exists.1 htarget
  cases hspeculative : m.speculative with
  | false =>
      cases draft with
      | none => simp [BoundedLoop.memory, setMemory, hspeculative]
      | some draft => simp [BoundedLoop.memory, hspeculative] at hdraft
  | true =>
      cases draft with
      | none => simp [BoundedLoop.memory, hspeculative] at hdraft
      | some draft => simp [BoundedLoop.memory, setMemory, hspeculative]

variable (m s kv) in
/-- A round leaves the tasks alone, or it admits the candidate where the reclaimed memory has room
for it. -/
theorem consider_cases (b : BoundedLoop) (candidate : PoolEntry) (todo : List ℕ) (reserved : ℤ)
    (rejected : List (ℕ × String)) :
    (b.consider m s kv candidate todo reserved rejected).active = b.active ∨
      candidate.admitted = false ∧ ∃ memory,
        s.reclaimBoundedPoolCapacity kv (b.active.map PoolEntry.pool) candidate.pool reserved
          (s.reservation candidate.pool) (b.memory m) = (true, memory) ∧
        b.consider m s kv candidate todo reserved rejected =
          { (b.setMemory memory).grant candidate.id (s.reservation candidate.pool) with
            phase := .admitting todo (reserved + s.reservation candidate.pool) rejected } := by
  unfold consider
  dsimp only
  split_ifs with hskip hlarge hfits hroom
  · exact .inl rfl
  · exact .inl rfl
  · exact .inl rfl
  · exact .inl rfl
  · right
    simp only [Bool.or_eq_true, not_or, Bool.not_eq_true] at hskip
    rw [Bool.not_eq_true', Bool.not_eq_false] at hroom
    exact ⟨hskip.1, _, Prod.ext hroom rfl, rfl⟩

theorem exists_of_mem_modify {id : ℕ} {f : PoolEntry → PoolEntry} {e' : PoolEntry}
    (he' : e' ∈ (b.modify id f).active)
    (hf : ∀ e, (f e).id = e.id ∧ (f e).admitted = e.admitted) :
    ∃ e ∈ b.active, e.id = e'.id ∧ e.admitted = e'.admitted := by
  obtain ⟨e, he, rfl⟩ := mem_modify.1 he'
  refine ⟨e, he, ?_⟩
  split_ifs
  · exact ⟨(hf e).1.symm, (hf e).2.symm⟩
  · exact ⟨rfl, rfl⟩

/-- Only a round of a pass admits a task. -/
theorem consider_of_admits {a : BoundedAction} {id : ℕ} (hstep : b.step m s kv a = some b')
    (hadmits : b.Admits b' id) : ∃ candidate todo reserved rejected,
      b.phase = .admitting (candidate.id :: todo) reserved rejected ∧ candidate ∈ b.active ∧
        b' = b.consider m s kv candidate todo reserved rejected := by
  obtain ⟨⟨e', he', rfl, hadmitted⟩, hbefore⟩ := hadmits
  have hold : ¬ ∃ e ∈ b.active, e.id = e'.id ∧ e.admitted = e'.admitted := by
    rintro ⟨e, he, hid, heq⟩
    have hwaits := hbefore e he hid
    rw [heq, hadmitted] at hwaits
    cases hwaits
  cases a with
  | submit slotId prompt lastPromptTokens checkpoint mtpCacheSynced =>
      obtain rfl := Option.some.inj hstep
      rcases List.mem_append.1 he' with hmem | hnew
      · exact absurd ⟨e', hmem, rfl, rfl⟩ hold
      · obtain rfl := List.mem_singleton.1 hnew
        cases hadmitted
  | signal id extCancel callerCancel callerStop =>
      obtain rfl := Option.some.inj hstep
      exact absurd (exists_of_mem_modify he' fun _ => ⟨rfl, rfl⟩) hold
  | beginPass =>
      simp only [BoundedLoop.step] at hstep
      split at hstep
      · obtain rfl := Option.some.inj hstep
        exact absurd ⟨e', he', rfl, rfl⟩ hold
      · cases hstep
  | consider =>
      simp only [BoundedLoop.step] at hstep
      split at hstep
      next id todo reserved rejected hphase =>
        obtain ⟨candidate, hentry, rfl⟩ := Option.map_eq_some_iff.1 hstep
        obtain ⟨hmem, rfl⟩ := mem_of_entry hentry
        exact ⟨candidate, todo, reserved, rejected, hphase, hmem, rfl⟩
      next => cases hstep
  | endPass =>
      simp only [BoundedLoop.step] at hstep
      split at hstep
      · obtain rfl := Option.some.inj hstep
        exact absurd ⟨e', List.mem_of_mem_filter he', rfl, rfl⟩ hold
      · cases hstep
  | draft id tokens =>
      simp only [BoundedLoop.step] at hstep
      split at hstep
      next e hphase hentry =>
        split_ifs at hstep
        obtain rfl := Option.some.inj hstep
        exact absurd (exists_of_mem_modify he' fun _ => ⟨rfl, rfl⟩) hold
      next => cases hstep
  | work id action =>
      simp only [BoundedLoop.step] at hstep
      split at hstep
      next e hphase hentry =>
        split_ifs at hstep
        obtain ⟨v, -, hwork⟩ := Option.bind_eq_some_iff.1 hstep
        obtain ⟨call, -, rfl⟩ := Option.map_eq_some_iff.1 hwork
        exact absurd (exists_of_mem_modify he' fun _ => ⟨rfl, rfl⟩) hold
      next => cases hstep
  | remove id =>
      simp only [BoundedLoop.step] at hstep
      split at hstep
      next e hphase hentry =>
        split_ifs at hstep
        obtain rfl := Option.some.inj hstep
        exact absurd ⟨e', List.mem_of_mem_filter he', rfl, rfl⟩ hold
      next => cases hstep
  | fail =>
      obtain rfl := Option.some.inj hstep
      cases he'

/-- The candidate of the round is the task that it admits. -/
theorem grant_of_admits {candidate : PoolEntry} {todo : List ℕ} {reserved : ℤ}
    {rejected : List (ℕ × String)} {id : ℕ}
    (hadmits : b.Admits (b.consider m s kv candidate todo reserved rejected) id) :
    id = candidate.id ∧ candidate.admitted = false ∧ ∃ memory,
      s.reclaimBoundedPoolCapacity kv (b.active.map PoolEntry.pool) candidate.pool reserved
        (s.reservation candidate.pool) (b.memory m) = (true, memory) ∧
      b.consider m s kv candidate todo reserved rejected =
        { (b.setMemory memory).grant candidate.id (s.reservation candidate.pool) with
          phase := .admitting todo (reserved + s.reservation candidate.pool) rejected } := by
  obtain ⟨⟨e', he', rfl, hadmitted⟩, hbefore⟩ := hadmits
  rcases consider_cases m s kv b candidate todo reserved rejected with
    hactive | ⟨hwaits, memory, hreclaim, hgrant⟩
  · rw [hactive] at he'
    rw [hbefore e' he' rfl] at hadmitted
    cases hadmitted
  · refine ⟨?_, hwaits, memory, hreclaim, hgrant⟩
    rw [hgrant] at he'
    obtain ⟨e, he, rfl⟩ := mem_modify.1 he'
    split_ifs at hadmitted hbefore ⊢ with hid
    · exact hid
    · rw [hbefore e he rfl] at hadmitted
      cases hadmitted

theorem Pooled.inOrder (h : b.Pooled s) {a : BoundedAction} {id : ℕ}
    (hstep : b.step m s kv a = some b') (hadmits : b.Admits b' id) {e : PoolEntry}
    (he : e ∈ b.active) (hlt : e.id < id) :
    e.admitted = true ∨ e.live = false ∨ b.rejects e.id := by
  obtain ⟨candidate, todo, reserved, rejected, hphase, hmem, rfl⟩ :=
    consider_of_admits hstep hadmits
  obtain ⟨rfl, -⟩ := grant_of_admits hadmits
  have hpass := h.pass _ _ _ hphase
  rcases hpass.inOrder candidate.id List.mem_cons_self e he hlt with htodo | hrest
  · -- the candidate is the first of those that the pass has not looked at
    rcases List.mem_cons.1 htodo with heq | htodo
    · omega
    · have hfirst := (List.pairwise_cons.1 hpass.sorted).1 e.id htodo
      omega
  · exact hrest.imp_right (Or.imp_right fun hrejected => ⟨_, _, _, hphase, hrejected⟩)

theorem busySequence_grant {candidate : PoolEntry}
    (hids : b.active.Pairwise fun e e' => e.id < e'.id) (hmem : candidate ∈ b.active)
    (required : ℤ) (i : ℕ) :
    (b.grant candidate.id required).busySequence i =
      ContinuousBatchScheduler.protectedSequence (b.active.map PoolEntry.pool) candidate.pool i := by
  rw [Bool.eq_iff_iff]
  simp only [busySequence, ContinuousBatchScheduler.protectedSequence, List.any_eq_true,
    Bool.or_eq_true, Bool.and_eq_true, beq_iff_eq]
  constructor
  · rintro ⟨e', he', hadmitted, hslot⟩
    obtain ⟨e, he, rfl⟩ := mem_modify.1 he'
    split_ifs at hadmitted hslot with hid
    · obtain rfl := eq_of_id_eq hids he hmem hid
      exact .inr (congrArg Nat.cast hslot)
    · exact .inl ⟨e.pool, List.mem_map_of_mem he, hadmitted, congrArg Nat.cast hslot⟩
  · rintro (⟨t, ht, hadmitted, hslot⟩ | hslot)
    · obtain ⟨e, he, rfl⟩ := List.mem_map.1 ht
      refine ⟨_, mem_modify.2 ⟨e, he, rfl⟩, ?_, ?_⟩
      · split_ifs
        · rfl
        · exact hadmitted
      · split_ifs <;> exact Nat.cast_injective hslot
    · refine ⟨_, mem_modify.2 ⟨candidate, hmem, rfl⟩, ?_, ?_⟩
      · rw [if_pos rfl]
      · rw [if_pos rfl]
        exact Nat.cast_injective hslot

theorem Pooled.retained (h : b.Pooled s) {a : BoundedAction} {id : ℕ}
    (hstep : b.step m s kv a = some b') (hadmits : b.Admits b' id) :
    b'.admittedPositions + s.idle kv b'.busySequence (b'.memory m) ≤ s.capacity := by
  obtain ⟨candidate, todo, reserved, rejected, hphase, hmem, rfl⟩ :=
    consider_of_admits hstep hadmits
  obtain ⟨-, hwaits, memory, hreclaim, hgrant⟩ := grant_of_admits hadmits
  have hpass := h.pass _ _ _ hphase
  have hshape := shape_reclaimLoop s kv
    (ContinuousBatchScheduler.protectedSequence (b.active.map PoolEntry.pool) candidate.pool)
    reserved (s.reservation candidate.pool) (List.range s.sequenceCount) (b.memory m)
  obtain ⟨hroom, hmemory⟩ := Prod.mk.inj hreclaim
  rw [hmemory] at hroom hshape
  have hfits := (ContinuousBatchScheduler.boundedPoolCanAdmit_iff.1 hroom).2.2.2
  have hbusy := funext (busySequence_grant h.ids hmem (s.reservation candidate.pool))
  have htotal := admittedPositions_grant h.ids hmem hwaits (s.reservation candidate.pool)
  rw [hgrant]
  calc _ = b.admittedPositions + s.reservation candidate.pool +
        s.idle kv (b.grant candidate.id (s.reservation candidate.pool)).busySequence
          ((b.setMemory memory).memory m) := by
        rw [← htotal]
        rfl
    _ ≤ s.capacity := by
        rw [hbusy, memory_setMemory hshape.1 hshape.2, ← hpass.reserved_eq]
        omega

theorem Pooled.contract (h : b.Pooled s) (m : LoadedModel) (kv : KvMemory (ℕ → Cells)) :
    b.PoolContract m s kv where
  capacity := h.capacity
  used e he hadmitted := (h.sound e he).used_le hadmitted
  retained _ _ _ hstep hadmits := h.retained hstep hadmits
  inOrder _ _ _ hstep hadmits _ he hlt := h.inOrder hstep hadmits he hlt

theorem pooled_empty (hcapacity : 0 ≤ s.capacity) : Pooled s {} where
  ids := .nil
  below e he := by cases he
  sound e he := by cases he
  capacity := hcapacity
  pass todo reserved rejected hphase := by cases hphase

/-- The pool of a scheduler for contexts that hold a number of positions, over every run of its
loop. The tokens of a text are never the placeholder of the media chunks. -/
theorem poolContract_of_run {m : LoadedModel} {s : ContinuousBatchScheduler}
    {kv : KvMemory (ℕ → Cells)} (hcontext : 0 ≤ s.contextCapacity)
    (hdraft : ∀ capacity ∈ s.draftContextCapacity, 0 ≤ capacity) {ρ : Type}
    {tokenize : Tokenizer ρ} (htext : TextTokens tokenize) {actions : List BoundedAction}
    (hmeets : Meets (BoundedLoop.step m s kv) (Allowed tokenize s) {} actions)
    {b : BoundedLoop} (hexec : exec (BoundedLoop.step m s kv) {} actions = some b) :
    b.PoolContract m s kv := by
  have hcapacity : 0 ≤ s.capacity := by
    unfold ContinuousBatchScheduler.capacity
    split
    next capacity hsome => exact le_min hcontext (hdraft capacity hsome)
    next => exact hcontext
  have hpooled : b.Pooled s :=
    invariant (fun _ _ _ h hallowed hstep => h.step htext hallowed hstep) (pooled_empty hcapacity)
      hmeets hexec
  exact hpooled.contract m kv

def draftModel : LoadedModel where
  speculative := true
  draftShares := false
  recurrent := false
  nBatch := 512
  mtpMaxActiveRequests := 2
  draftMargin := 1
  isEog id := id == 2
  tokenToPiece _ := [65]

/-- There is room for two requests of one prompt token and two tokens of output. -/
def draftScheduler : ContinuousBatchScheduler where
  contextCapacity := 9
  draftContextCapacity := some 8
  draftMargin := 1
  sequenceCount := 3

def cellMemory : KvMemory (ℕ → Cells) where
  seqPosMax cells i := extent (cells i) - 1
  seqRm cells i := update cells i []

theorem noCapture_of_text (h : ([] : List MediaChunk) ≠ []) : (0 : ℕ) = 0 := absurd rfl h

theorem onePosition_of_text (_ : ([] : List MediaChunk) = []) :
    (1 : ℤ) = ([3] : List ℤ).length := rfl

def onePrompt : PreparedPrompt where
  promptTokens := [3]
  promptPositionCount := 1
  nCtxSeq := 512
  maxTokens := 2
  checkpointCapturePos := 0
  media_iff := by decide
  text_positions := onePosition_of_text
  media_positions text _ h := by
    have hmem : tokenNull ∈ [(3 : ℤ)] := h.subset (by simp)
    simp [tokenNull] at hmem
  media_capture := noCapture_of_text

def onePromptTokenizer : Tokenizer Unit := fun _ _ => .ok (.text [3])

/-- The third of three requests waits while the first has a draft in the batch. -/
def waitingRun : List BoundedAction :=
  [.submit 0 onePrompt [] {} true, .submit 1 onePrompt [] {} true, .submit 2 onePrompt [] {} true,
    .beginPass, .consider, .consider, .consider, .endPass,
    .work 0 (.init { runnable := 2 } {}), .work 0 (.prefill { runnable := 2 } 8 {} 7),
    .draft 0 [8]]

theorem onePromptTokenizer_textTokens : TextTokens onePromptTokenizer := by
  intro req budget
  constructor
  · intro tokens htokens
    obtain rfl : [3] = tokens := by simpa [onePromptTokenizer] using htokens
    decide
  · intro chunks tokens hchunks
    simp [onePromptTokenizer] at hchunks

theorem waitingRun_meets : Meets (BoundedLoop.step draftModel draftScheduler cellMemory)
    (Allowed onePromptTokenizer draftScheduler) {} waitingRun := by
  have hprompt : ∃ (lm : LlamaCppModel) (req : InferenceRequest Unit),
      lm.prepareInference onePromptTokenizer req = .ok onePrompt.toPredictSetup :=
    ⟨{ info := { concurrencyAuto := true, contextSize := 512 } },
      { content := (), maxOutputTokens := 2 }, by decide⟩
  apply Meets.of_forall
  intro a ha b
  simp only [waitingRun, List.mem_cons, List.not_mem_nil, or_false] at ha
  rcases ha with rfl | rfl | rfl | rfl | rfl | rfl | rfl | rfl | rfl | rfl | rfl
  · exact hprompt
  · exact hprompt
  · exact hprompt
  all_goals first | exact trivial | exact (by decide : ((1 : ℕ) : ℤ) ≤ 1)

theorem waitingRun_contract : ∃ b : BoundedLoop,
    exec (BoundedLoop.step draftModel draftScheduler cellMemory) {} waitingRun = some b ∧
      b.active.map (fun e => (e.admitted, e.usedPositions)) =
        [(true, 3), (true, 0), (false, 0)] ∧
      b.PoolContract draftModel draftScheduler cellMemory := by
  have hrun : (exec (BoundedLoop.step draftModel draftScheduler cellMemory) {} waitingRun).map
      (fun b => b.active.map fun e => (e.admitted, e.usedPositions)) =
        some [(true, 3), (true, 0), (false, 0)] := by
    decide +kernel
  obtain ⟨b, hb, hused⟩ := Option.map_eq_some_iff.1 hrun
  refine ⟨b, hb, hused, poolContract_of_run (by decide) ?_ onePromptTokenizer_textTokens
    waitingRun_meets hb⟩
  rintro capacity ⟨⟩
  decide

end BoundedLoop

end InferDeck.LlamaWrapper.SlotCache
