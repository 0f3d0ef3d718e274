import InferDeck.BoundedLoop

/-!
# Positions that a task uses

What the loop's work does to the position of a task: the prompt's weights are added up until the
prompt is done, and from then on every accepted token moves the position by one, until the limit of
output tokens ends the task. A draft reaches beyond that by its length.
-/

namespace InferDeck.LlamaWrapper.SlotCache

open SequenceMemory LlamaCppModel

namespace SlotTask

variable {m : LoadedModel} {t : SlotTask}

structure SameCourse (t t' : SlotTask) : Prop where
  prompt : t'.prompt = t.prompt
  initialized : t'.initialized = t.initialized
  promptDone : t'.promptDone = t.promptDone
  nGenerated : t'.nGenerated = t.nGenerated
  done : t'.done = t.done

theorem SameCourse.refl (t : SlotTask) : t.SameCourse t := ⟨rfl, rfl, rfl, rfl, rfl⟩

theorem SameCourse.trans {t t' t'' : SlotTask} (h : t.SameCourse t') (h' : t'.SameCourse t'') :
    t.SameCourse t'' where
  prompt := h'.prompt.trans h.prompt
  initialized := h'.initialized.trans h.initialized
  promptDone := h'.promptDone.trans h.promptDone
  nGenerated := h'.nGenerated.trans h.nGenerated
  done := h'.done.trans h.done

theorem sameCourse_startAt (t : SlotTask) (start : Start) (k : ℕ) :
    t.SameCourse (t.startAt start k) := ⟨rfl, rfl, rfl, rfl, rfl⟩

theorem sameCourse_keepCheckpoint (t : SlotTask) (usable : Bool) :
    t.SameCourse (t.keepCheckpoint usable) := by
  unfold keepCheckpoint
  split_ifs <;> exact ⟨rfl, rfl, rfl, rfl, rfl⟩

theorem nPast_le (t : SlotTask) : t.nPast ≤ t.tokens.length := by
  have hcommon := commonPrefix_le_right t.lastPromptTokens t.tokens
  unfold nPast
  dsimp only
  split_ifs <;> omega

/-- A task starts at the same token and position, not beyond the end of its prompt. -/
structure Starts (t t' : SlotTask) : Prop extends t.SameCourse t' where
  nPos : t'.nPos = t'.promptPos
  within : t'.promptPos ≤ t.tokens.length

theorem starts_startAt {t' : SlotTask} (h : t.SameCourse t') (start : Start) {k : ℕ}
    (hk : k ≤ t.tokens.length) : t.Starts (t'.startAt start k) where
  toSameCourse := h.trans (sameCourse_startAt t' start k)
  nPos := rfl
  within := hk

theorem starts_reuseSequence (outcome : InitOutcome) {nPast : ℕ} (hn : nPast ≤ t.tokens.length)
    (memory : Memory) : t.Starts (t.reuseSequence m outcome nPast memory).1 := by
  have hkeep := sameCourse_keepCheckpoint t (t.checkpointUsable m nPast)
  have hlength : (t.keepCheckpoint (t.checkpointUsable m nPast)).checkpoint.pos =
      t.checkpoint.pos := by
    unfold keepCheckpoint
    split_ifs <;> rfl
  unfold reuseSequence
  dsimp only
  generalize (if t.mtpEligible = true then min (extent memory.target) (extent memory.draft)
    else extent memory.target) = physical
  split_ifs with hzero hmin hextend htrim heligible hrestore
  · exact starts_startAt (.refl t) _ (Nat.zero_le _)
  · exact starts_startAt hkeep _ (Nat.zero_le _)
  · exact starts_startAt hkeep _ ((min_le_left _ _).trans hn)
  · exact starts_startAt hkeep _ ((min_le_left _ _).trans hn)
  · exact starts_startAt hkeep _ ((min_le_left _ _).trans hn)
  · refine starts_startAt hkeep _ ?_
    have husable := (Bool.and_eq_true_iff.1 hrestore).1
    simp only [checkpointUsable, recurrentCheckpointUsable, Bool.and_eq_true,
      decide_eq_true_eq] at husable
    rw [hlength]
    exact husable.1.2
  · exact starts_startAt hkeep _ (Nat.zero_le _)

theorem initTask_starts (outcome : InitOutcome) (memory : Memory) :
    t.Starts (t.initTask m outcome memory).1 ∧
      (t.prompt.mediaChunks ≠ [] → (t.initTask m outcome memory).1.promptPos = 0) := by
  unfold initTask
  dsimp only
  split_ifs with hmedia hunsynced hdeferred
  · exact ⟨⟨⟨rfl, rfl, rfl, rfl, rfl⟩, rfl, Nat.zero_le _⟩, fun _ => rfl⟩
  · have hstarts := starts_reuseSequence (m := m) (t := { t with
      mtpEligible := false, outMtpCacheSynced := false }) outcome t.nPast_le memory
    exact ⟨⟨⟨hstarts.prompt, hstarts.initialized, hstarts.promptDone, hstarts.nGenerated,
      hstarts.done⟩, hstarts.nPos, hstarts.within⟩, fun hne => absurd hne (by simpa using hmedia)⟩
  · exact ⟨⟨⟨rfl, rfl, rfl, rfl, rfl⟩, rfl, Nat.zero_le _⟩, fun _ => rfl⟩
  · have hstarts := starts_reuseSequence (m := m) (t := { t with
      outMtpCacheSynced := !m.speculative || t.mtpEligible }) outcome t.nPast_le memory
    exact ⟨⟨⟨hstarts.prompt, hstarts.initialized, hstarts.promptDone, hstarts.nGenerated,
      hstarts.done⟩, hstarts.nPos, hstarts.within⟩, fun hne => absurd hne (by simpa using hmedia)⟩

/-- Capturing a state moves nothing. -/
structure SamePlace (t t' : SlotTask) : Prop extends t.SameCourse t' where
  nPos : t'.nPos = t.nPos
  promptPos : t'.promptPos = t.promptPos

theorem samePlace_captureReplay (t : SlotTask) (captures : Captures) (memory : Memory) :
    t.SamePlace (t.captureReplay m captures memory) := by
  unfold captureReplay
  split_ifs <;> exact ⟨⟨rfl, rfl, rfl, rfl, rfl⟩, rfl, rfl⟩

theorem samePlace_captureCheckpoint (t : SlotTask) (captures : Captures) (memory : Memory) :
    t.SamePlace (t.captureCheckpoint m captures memory) := by
  unfold captureCheckpoint
  split_ifs <;> exact ⟨⟨rfl, rfl, rfl, rfl, rfl⟩, rfl, rfl⟩

/-- The positions of a capture only cut a chunk shorter. -/
theorem captureCut_le (chunk n k : ℕ) (p q : Prop) [Decidable p] [Decidable q] :
    (if q then min (if p then min chunk n else chunk) k else if p then min chunk n else chunk) ≤
      chunk := by
  split_ifs
  · exact (min_le_left _ _).trans (min_le_left _ _)
  · exact min_le_left _ _
  · exact min_le_left _ _
  · exact le_rfl

theorem chunkLength_le (t : SlotTask) (room : ℕ) :
    t.chunkLength m room ≤ t.tokens.length - t.promptPos ∧
      ∀ media, t.prompt.mediaChunks.find?
        (fun media => decide ((t.promptPos : ℤ) < media.tokenStart)) = some media →
        t.chunkLength m room ≤ media.tokenStart.toNat - t.promptPos := by
  unfold chunkLength
  cases hfind : t.prompt.mediaChunks.find?
      (fun media => decide ((t.promptPos : ℤ) < media.tokenStart)) with
  | none => exact ⟨(captureCut_le _ _ _ _ _).trans (min_le_left _ _), by simp⟩
  | some media =>
      refine ⟨(captureCut_le _ _ _ _ _).trans ((min_le_left _ _).trans (min_le_left _ _)), ?_⟩
      rintro media' hmedia
      obtain rfl := Option.some.inj hmedia
      exact (captureCut_le _ _ _ _ _).trans (min_le_right _ _)

/-- A chunk moves the task, which samples a token after the last one. -/
theorem prefill_cases (t : SlotTask) (it : Iteration) (room : ℕ) (captures : Captures) (id : ℤ)
    (memory : Memory) :
    ∃ chunk t', chunk = (t.adapt m it).chunkLength m room ∧ t.SameCourse t' ∧
      t'.promptPos = t.promptPos + chunk ∧
      t'.nPos = (if t.tokens.length ≤ t.promptPos + chunk ∧ 0 < t.prompt.promptPositionCount then
        t.prompt.promptPositionCount.toNat else t.nPos + chunk) ∧
      (t.prefill m it room captures id memory).1 =
        if t.tokens.length ≤ t.promptPos + chunk then t'.sampled m id else t' := by
  unfold prefill
  dsimp only
  generalize hmemory : (t.adapt m it).write m it _ memory = memory'
  generalize hmoved : ({ t.adapt m it with promptPos := _, nPos := _ } : SlotTask) = moved
  have hsame := (samePlace_captureReplay (m := m) moved captures memory')
  have hsame' := samePlace_captureCheckpoint (m := m) (moved.captureReplay m captures memory')
    captures memory'
  have hcourse : t.SameCourse moved := by
    rw [← hmoved]
    exact ⟨rfl, rfl, rfl, rfl, rfl⟩
  refine ⟨_, _, rfl, (hcourse.trans hsame.toSameCourse).trans hsame'.toSameCourse, ?_, ?_, rfl⟩
  · rw [hsame'.promptPos, hsame.promptPos, ← hmoved]
    rfl
  · rw [hsame'.nPos, hsame.nPos, ← hmoved]
    rfl

/-- A token is sampled: it ends the task or is one more below the limit. -/
structure Samples (t t' : SlotTask) : Prop where
  prompt : t'.prompt = t.prompt
  initialized : t'.initialized = t.initialized
  nPos : t'.nPos = t.nPos
  promptDone : t'.promptDone = true
  goesOn : t'.done = false →
    t'.nGenerated = t.nGenerated + 1 ∧ (t.nGenerated : ℤ) + 1 < t.prompt.maxTokens

theorem sampled_samples (id : ℤ) : t.Samples (t.sampled m id) := by
  unfold sampled
  dsimp only
  split_ifs with hstop hlimit
  · exact ⟨rfl, rfl, rfl, rfl, by simp [complete]⟩
  · exact ⟨rfl, rfl, rfl, rfl, by simp [complete]⟩
  · refine ⟨rfl, rfl, rfl, rfl, fun _ => ⟨rfl, ?_⟩⟩
    simp only [generationLimitReached, Bool.or_eq_true, decide_eq_true_eq, not_or] at hlimit
    omega

structure Accepts (t t' : SlotTask) (ids : List ℤ) : Prop where
  prompt : t'.prompt = t.prompt
  initialized : t'.initialized = t.initialized
  nPos : t'.nPos = t.nPos
  promptDone : t'.promptDone = t.promptDone
  goesOn : t'.done = false → t'.nGenerated = t.nGenerated + ids.length ∧
    (ids ≠ [] → (t'.nGenerated : ℤ) < t.prompt.maxTokens)

theorem accept_accepts (ids : List ℤ) : t.Accepts (t.accept m ids) ids := by
  induction ids generalizing t with
  | nil => exact ⟨rfl, rfl, rfl, rfl, fun _ => ⟨rfl, fun h => absurd rfl h⟩⟩
  | cons id ids ih =>
      unfold accept
      dsimp only
      split_ifs with hstop hlimit
      · exact ⟨rfl, rfl, rfl, rfl, by simp [complete]⟩
      · exact ⟨rfl, rfl, rfl, rfl, by simp [complete]⟩
      · have hrest := ih (t := { t.push (.token id) with
          nGenerated := t.nGenerated + 1, lastToken := id })
        refine ⟨hrest.prompt, hrest.initialized, hrest.nPos, hrest.promptDone, fun hdone => ?_⟩
        obtain ⟨hcount, hbelow⟩ := hrest.goesOn hdone
        refine ⟨by simp only [hcount, List.length_cons]; omega, fun _ => ?_⟩
        by_cases hids : ids = []
        · rw [hcount, hids]
          exact not_le.1 hlimit
        · exact hbelow hids

/-! No work on a task changes its prompt. -/

theorem prompt_evalMedia {offsets : List ℕ} {memory : Memory} {r : SlotTask × Memory}
    (h : t.evalMedia offsets memory = some r) : r.1.prompt = t.prompt := by
  obtain ⟨chunk, -, rfl⟩ := Option.map_eq_some_iff.1 h
  rfl

theorem prompt_prefill (it : Iteration) (room : ℕ) (captures : Captures) (id : ℤ)
    (memory : Memory) : (t.prefill m it room captures id memory).1.prompt = t.prompt := by
  obtain ⟨chunk, t', -, hcourse, -, -, hprefill⟩ :=
    prefill_cases (m := m) t it room captures id memory
  rw [hprefill]
  split_ifs
  · exact (sampled_samples id).prompt.trans hcourse.prompt
  · exact hcourse.prompt

theorem prompt_generate (it : Iteration) (id : ℤ) (memory : Memory) :
    (t.generate m it id memory).1.prompt = t.prompt :=
  (sampled_samples id).prompt

theorem prompt_verify (it : Iteration) (draft : List ℤ) (accepted : ℕ) (id : ℤ)
    (memory : Memory) : (t.verify m it draft accepted id memory).1.prompt = t.prompt :=
  (accept_accepts _).prompt

end SlotTask

/-- How far a task has come, with the weights of its prompt and the draft in the batch. -/
structure SlotTask.Within (t : SlotTask) (weights : List ℕ) (specDraft : List ℤ) (margin : ℤ) :
    Prop where
  placed : t.prompt.Placed weights
  total : (weights.sum : ℤ) ≤ promptContext t.prompt.toPredictSetup
  fresh : t.initialized = false → t.promptDone = false ∧ t.promptPos = 0
  prefilling : t.promptDone = false → t.promptPos ≤ t.tokens.length ∧
    t.nPos = (weights.take t.promptPos).sum ∧ t.nGenerated = 0
  generating : t.promptDone = true → t.done = false → 0 < t.nGenerated ∧
    (t.nGenerated : ℤ) < t.prompt.maxTokens ∧
    (t.nPos : ℤ) + 1 ≤ promptContext t.prompt.toPredictSetup + t.nGenerated
  ended : t.promptDone = true → t.done = true → (t.nPos : ℤ) ≤
    promptContext t.prompt.toPredictSetup + max 0 t.prompt.maxTokens + max 0 margin
  drafted : specDraft ≠ [] → t.promptDone = true ∧ t.done = false ∧ (specDraft.length : ℤ) ≤ margin

namespace SlotTask.Within

variable {m : LoadedModel} {t t' : SlotTask} {weights : List ℕ} {specDraft : List ℤ} {margin : ℤ}

theorem submitted {prompt : PreparedPrompt} (hplaced : prompt.Placed weights)
    (htotal : (weights.sum : ℤ) ≤ promptContext prompt.toPredictSetup) (slotId : ℕ)
    (lastPromptTokens : List ℤ) (checkpoint : Checkpoint) (mtpCacheSynced : Bool) :
    Within { slotId, prompt, lastPromptTokens, checkpoint, mtpCacheSynced } weights [] margin where
  placed := hplaced
  total := htotal
  fresh _ := ⟨rfl, rfl⟩
  prefilling _ := ⟨Nat.zero_le _, rfl, rfl⟩
  generating h := by cases h
  ended h := by cases h
  drafted h := absurd rfl h

def positions (t : SlotTask) (margin : ℤ) : ℤ :=
  promptContext t.prompt.toPredictSetup + max 0 t.prompt.maxTokens + max 0 margin

theorem sum_take_le (weights : List ℕ) (k : ℕ) : (weights.take k).sum ≤ weights.sum := by
  conv_rhs => rw [← List.take_append_drop k weights, List.sum_append]
  exact Nat.le_add_right _ _

/-- With a draft or without one, a task stays within its reservation. -/
theorem used_le (h : t.Within weights specDraft margin) :
    (t.nPos : ℤ) + (if specDraft = [] then 0 else 1 + (specDraft.length : ℤ)) ≤
      positions t margin := by
  have hcontext := promptContext_nonneg t.prompt.toPredictSetup
  have hprefix := sum_take_le weights t.promptPos
  have htotal := h.total
  unfold positions
  split_ifs with hdraft
  · cases hdone : t.promptDone with
    | false =>
        have hpos := (h.prefilling hdone).2.1
        omega
    | true =>
        cases hended : t.done with
        | false =>
            have hgen := h.generating hdone hended
            omega
        | true =>
            have hend := h.ended hdone hended
            omega
  · obtain ⟨hdone, hended, hlength⟩ := h.drafted hdraft
    have hgen := h.generating hdone hended
    omega

/-- A task that is taken out keeps its position. -/
theorem complete (h : t.Within weights specDraft margin) (error : Option String) :
    (t.complete error).Within weights [] margin where
  placed := h.placed
  total := h.total
  fresh := h.fresh
  prefilling := h.prefilling
  generating _ hdone := by cases hdone
  ended hprompt _ := by
    have hused := h.used_le
    have hnonneg : (0 : ℤ) ≤ if specDraft = [] then 0 else 1 + (specDraft.length : ℤ) := by
      split_ifs <;> omega
    unfold positions at hused
    exact le_trans (le_add_of_nonneg_right hnonneg) hused
  drafted hne := absurd rfl hne

theorem signal (h : t.Within weights specDraft margin) (extCancel callerCancel callerStop : Bool) :
    (t.signal extCancel callerCancel callerStop).Within weights specDraft margin :=
  ⟨h.placed, h.total, h.fresh, h.prefilling, h.generating, h.ended, h.drafted⟩

theorem draft (h : t.Within weights specDraft margin) (hprompt : t.promptDone = true)
    (hactive : t.done = false) {tokens : List ℤ} (hlength : (tokens.length : ℤ) ≤ margin) :
    t.Within weights tokens margin :=
  ⟨h.placed, h.total, h.fresh, h.prefilling, h.generating, h.ended,
    fun _ => ⟨hprompt, hactive, hlength⟩⟩

theorem init (h : t.Within weights [] margin) (hfresh : t.initialized = false)
    (eligible : Bool) (outcome : InitOutcome) (memory : Memory) :
    (({ t with mtpEligible := eligible, initialized := true }.initTask m outcome memory).1).Within
      weights [] margin := by
  obtain ⟨hstarts, hmedia⟩ := initTask_starts (m := m)
    (t := { t with mtpEligible := eligible, initialized := true }) outcome memory
  obtain ⟨hprompt, -⟩ := h.fresh hfresh
  obtain ⟨-, -, hnone⟩ := h.prefilling hprompt
  generalize ({ t with mtpEligible := eligible, initialized := true }.initTask m outcome
    memory).1 = t' at hstarts hmedia
  have hsum : t'.nPos = (weights.take t'.promptPos).sum := by
    rw [hstarts.nPos]
    by_cases htext : t.prompt.mediaChunks = []
    · have hnull := t.prompt.media_iff.1 htext
      have hwithin : t'.promptPos ≤ t.prompt.promptTokens.length := hstarts.within
      have htake := h.placed.take_sum_text (k := 0) (n := t'.promptPos) (by
        intro i _ hi
        refine ⟨_, List.getElem?_eq_getElem (by omega), ?_⟩
        intro heq
        exact hnull (heq ▸ List.getElem_mem _))
      simpa using htake.symm
    · rw [hmedia htext]
      rfl
  exact
    { placed := hstarts.prompt ▸ h.placed
      total := hstarts.prompt ▸ h.total
      fresh := fun hinit => by rw [hstarts.initialized] at hinit; cases hinit
      prefilling := fun _ => ⟨by
        rw [tokens, hstarts.prompt]
        exact hstarts.within, hsum, hstarts.nGenerated.trans hnone⟩
      generating := fun hdone => by rw [hstarts.promptDone, hprompt] at hdone; cases hdone
      ended := fun hdone => by rw [hstarts.promptDone, hprompt] at hdone; cases hdone
      drafted := fun hne => absurd rfl hne }

theorem media (h : t.Within weights [] margin) (hinit : t.initialized = true)
    (hdone : t.promptDone = false) {offsets : List ℕ} {memory : Memory} {r : SlotTask × Memory}
    (hr : t.evalMedia offsets memory = some r) : r.1.Within weights [] margin := by
  obtain ⟨chunk, hfind, rfl⟩ := Option.map_eq_some_iff.1 hr
  obtain ⟨-, hpos, hnone⟩ := h.prefilling hdone
  have hstart : chunk.tokenStart = t.promptPos := by simpa using List.find?_some hfind
  obtain ⟨start, count, hs, hc, -, hle, -, hsum⟩ :=
    h.placed.chunks chunk (List.mem_of_find?_eq_some hfind)
  obtain rfl : start = t.promptPos := by omega
  have hcount : chunk.tokenCount.toNat = count := by omega
  exact
    { placed := h.placed
      total := h.total
      fresh := fun hfresh => by rw [hinit] at hfresh; cases hfresh
      prefilling := fun _ => ⟨by
        rw [hcount]
        exact hle, by rw [hcount, hsum, ← hpos], hnone⟩
      generating := fun hp => by rw [hdone] at hp; cases hp
      ended := fun hp => by rw [hdone] at hp; cases hp
      drafted := fun hne => absurd rfl hne }

/-- A sampled token keeps the task within its reservation, if there was room for one more. -/
theorem sampled (hplaced : t.prompt.Placed weights)
    (htotal : (weights.sum : ℤ) ≤ promptContext t.prompt.toPredictSetup)
    (hinit : t.initialized = true)
    (hnPos : (t.nPos : ℤ) ≤ promptContext t.prompt.toPredictSetup + t.nGenerated)
    (hlimit : (t.nGenerated : ℤ) ≤ max 0 t.prompt.maxTokens) (id : ℤ) :
    (t.sampled m id).Within weights [] margin := by
  have hsamples := sampled_samples (m := m) (t := t) id
  generalize t.sampled m id = t' at hsamples
  exact
    { placed := hsamples.prompt ▸ hplaced
      total := hsamples.prompt ▸ htotal
      fresh := fun hfresh => by rw [hsamples.initialized, hinit] at hfresh; cases hfresh
      prefilling := fun hp => by rw [hsamples.promptDone] at hp; cases hp
      generating := fun _ hended => by
        obtain ⟨hcount, hbelow⟩ := hsamples.goesOn hended
        rw [hcount, hsamples.nPos, hsamples.prompt]
        push_cast
        omega
      ended := fun _ _ => by
        rw [hsamples.nPos, hsamples.prompt]
        omega
      drafted := fun hne => absurd rfl hne }

theorem prefill (h : t.Within weights [] margin) (hinit : t.initialized = true)
    (hdone : t.promptDone = false) (hmedia : t.atMedia = false) (it : Iteration) (room : ℕ)
    (captures : Captures) (id : ℤ) (memory : Memory) :
    (t.prefill m it room captures id memory).1.Within weights [] margin := by
  obtain ⟨hwithin, hpos, hnone⟩ := h.prefilling hdone
  obtain ⟨hle, hnext⟩ := chunkLength_le (m := m) (t.adapt m it) room
  obtain ⟨chunk, t', hchunk, hcourse, hpromptPos, hnPos, hprefill⟩ :=
    prefill_cases (m := m) t it room captures id memory
  rw [← hchunk] at hle hnext
  replace hle : chunk ≤ t.prompt.promptTokens.length - t.promptPos := hle
  unfold tokens at hwithin hprefill hnPos
  -- the chunk is text
  have hsum : (weights.take (t.promptPos + chunk)).sum = t.nPos + chunk := by
    rw [hpos]
    apply h.placed.take_sum_text
    apply h.placed.text_before_media
    · simpa [atMedia, tokens] using hmedia
    · omega
    · exact hnext
  have hprefix := sum_take_le weights (t.promptPos + chunk)
  have htotal := h.total
  have hinit' := hcourse.initialized.trans hinit
  rw [hprefill]
  split_ifs with hlast
  · -- the whole prompt is in the memory
    apply sampled (hcourse.prompt ▸ h.placed) (hcourse.prompt ▸ h.total) hinit'
    · rw [hnPos, hcourse.prompt, hcourse.nGenerated]
      unfold promptContext at htotal ⊢
      split_ifs at htotal ⊢ <;> omega
    · rw [hcourse.nGenerated, hnone]
      exact le_max_left _ _
  · exact
      { placed := hcourse.prompt ▸ h.placed
        total := hcourse.prompt ▸ h.total
        fresh := fun hfresh => by rw [hinit'] at hfresh; cases hfresh
        prefilling := fun _ => by
          rw [tokens, hcourse.prompt, hpromptPos, hnPos, if_neg (fun h => hlast h.1), hsum,
            hcourse.nGenerated, hnone]
          exact ⟨by omega, rfl, rfl⟩
        generating := fun hp => by rw [hcourse.promptDone, hdone] at hp; cases hp
        ended := fun hp => by rw [hcourse.promptDone, hdone] at hp; cases hp
        drafted := fun hne => absurd rfl hne }

theorem generate (h : t.Within weights [] margin) (hinit : t.initialized = true)
    (hdone : t.promptDone = true) (hactive : t.done = false) (it : Iteration) (id : ℤ)
    (memory : Memory) : (t.generate m it id memory).1.Within weights [] margin := by
  obtain ⟨-, hlimit, hpos⟩ := h.generating hdone hactive
  unfold SlotTask.generate
  apply sampled (t := { t.adapt m it with nPos := t.nPos + 1 }) h.placed h.total hinit
  · push_cast
    exact hpos
  · exact hlimit.le.trans (le_max_right _ _)

theorem verify (h : t.Within weights specDraft margin) (hdraft : specDraft ≠ [])
    (hinit : t.initialized = true) {accepted : ℕ} (haccepted : accepted ≤ specDraft.length)
    (it : Iteration) (id : ℤ) (memory : Memory) :
    (t.verify m it specDraft accepted id memory).1.Within weights [] margin := by
  obtain ⟨hdone, hactive, hlength⟩ := h.drafted hdraft
  obtain ⟨-, hlimit, hpos⟩ := h.generating hdone hactive
  have hids : (specDraft.take accepted ++ [id]).length = accepted + 1 := by
    simp [haccepted]
  unfold SlotTask.verify
  dsimp only
  generalize specDraft.take accepted ++ [id] = ids at hids
  have haccepts := accept_accepts (m := m) (t := { t.adapt m it with
    nPos := (t.adapt m it).nPos + ids.length }) ids
  generalize SlotTask.accept m _ ids = t' at haccepts
  have hnPos : t'.nPos = t.nPos + (accepted + 1) := by
    rw [haccepts.nPos, hids]
    rfl
  have hprompt : t'.prompt = t.prompt := haccepts.prompt
  exact
    { placed := hprompt ▸ h.placed
      total := hprompt ▸ h.total
      fresh := fun hfresh => by
        have hinit' : t'.initialized = t.initialized := haccepts.initialized
        rw [hinit', hinit] at hfresh
        cases hfresh
      prefilling := fun hp => by
        have hdone' : t'.promptDone = t.promptDone := haccepts.promptDone
        rw [hdone', hdone] at hp
        cases hp
      generating := fun _ hended => by
        obtain ⟨hcount, hbelow⟩ := haccepts.goesOn hended
        have hcount' : t'.nGenerated = t.nGenerated + (accepted + 1) := by
          rw [hcount, hids]
          rfl
        have hbelow' := hbelow (by rintro rfl; simp at hids)
        rw [hnPos, hcount', hprompt]
        rw [hcount'] at hbelow'
        refine ⟨by omega, hbelow', ?_⟩
        push_cast
        omega
      ended := fun _ _ => by
        rw [hnPos, hprompt]
        push_cast
        omega
      drafted := fun hne => absurd rfl hne }

end SlotTask.Within

end InferDeck.LlamaWrapper.SlotCache
