import InferDeck.BoundedLoop
import InferDeck.PoolPositions

/-!
# One batch of the scheduler

`prepare_batch_order` rotates the runnable tasks by the turn, puts those that decode before those
that have a prompt left, and gives each prompt a share of the batch. The loop then fills the batch
in this order. Between the two, callers may cancel or stop their tasks.
-/

namespace InferDeck.LlamaWrapper.SlotCache

open SequenceMemory

/-! ### The order and the share of the prompts -/

def mixedPrefillBudget : ℕ := 1024

namespace PoolEntry

variable (e : PoolEntry)

def decodes : Bool := e.task.promptDone

/-- What a task that decodes has for the batch: its last token and the draft. -/
def decodeRun : List ℤ := e.task.lastToken :: e.specDraft

end PoolEntry

def decodeTokens (tasks : List PoolEntry) : ℕ :=
  ((tasks.filter fun e => e.live && e.decodes).map fun e => e.decodeRun.length).sum

/-- `prompts`: the number of tasks that have a prompt left. -/
def promptCount (tasks : List PoolEntry) : ℕ := tasks.countP fun e => e.live && !e.decodes

/-- `available`: what the prompts may have of the batch together. -/
def availablePrefill (capacity decodeTokens prompts : ℕ) : ℕ :=
  if 0 < decodeTokens ∧ 0 < prompts then
    min (capacity - decodeTokens) (max 1 (mixedPrefillBudget / prompts) * prompts)
  else capacity - decodeTokens

def sortBySlot (tasks : List PoolEntry) : List PoolEntry :=
  tasks.mergeSort fun left right => left.task.slotId ≤ right.task.slotId

def prepareBatchOrder (tasks : List PoolEntry) (capacity turn : ℕ) : List PoolEntry × ℕ :=
  if tasks.isEmpty then (tasks, 0)
  else
    let rotated := tasks.rotate (turn % tasks.length)
    let decoding := rotated.filter PoolEntry.decodes
    let prompting := rotated.filter fun e => !e.decodes
    let prompts := promptCount rotated
    let available := availablePrefill capacity (decodeTokens rotated) prompts
    (((if decodeTokens rotated ≤ capacity then sortBySlot decoding else decoding) ++
        if 0 < prompts ∧ prompts ≤ available ∧ available % prompts = 0 then sortBySlot prompting
        else prompting),
      if 0 < prompts then (available + prompts - 1) / prompts else 0)

/-! ### The batch -/

structure Contribution where
  id : ℕ
  tokens : List ℤ
  /-- Where the tokens start in the prompt, unless the task decodes. -/
  promptPos : Option ℕ
  deriving DecidableEq

/-- What happens between the order and the batch, and while the batch is filled. -/
structure BatchEnv where
  boundedPool : Bool := false
  /-- The task with this number was cancelled or stopped since. -/
  late : ℕ → Bool := fun _ => false
  /-- The media chunks of the task with this number can be evaluated. -/
  evaluates : ℕ → Bool := fun _ => true

namespace SlotTask

/-- Evaluate the media chunks at the prompt's position, or throw. -/
def passMedia (evaluates : Bool) : ℕ → SlotTask → Option SlotTask
  | rounds, t =>
      if t.atMedia then
        match rounds with
        | 0 => none
        | rounds + 1 =>
            if evaluates then (t.evalMedia [] {}).bind fun r => passMedia evaluates rounds r.1
            else none
      else some t

end SlotTask

namespace PoolEntry

def contribution (m : LoadedModel) (limit used : ℕ) (e : PoolEntry) : Option Contribution :=
  if e.decodes then
    if used + e.decodeRun.length ≤ m.nBatch then some ⟨e.id, e.decodeRun, none⟩ else none
  else
    let chunk := e.task.chunkLength m (min (m.nBatch - used) limit)
    if 0 < chunk then
      some ⟨e.id, (e.task.tokens.drop e.task.promptPos).take chunk, some e.task.promptPos⟩
    else none

def atChunk (env : BatchEnv) (e : PoolEntry) : Option PoolEntry :=
  if e.decodes then some e
  else (e.task.passMedia (env.evaluates e.id) e.task.tokens.length).map fun task => { e with task }

def skipped (env : BatchEnv) (e : PoolEntry) : Bool :=
  env.late e.id || !e.live || (env.boundedPool && !e.admitted)

end PoolEntry

/-- The batch, or nothing where an exception ends the loop. -/
def buildBatch (m : LoadedModel) (env : BatchEnv) (limit : ℕ) :
    ℕ → List PoolEntry → Option (List Contribution)
  | _, [] => some []
  | used, e :: tasks =>
      if e.skipped env then buildBatch m env limit used tasks
      else
        (e.atChunk env).bind fun e =>
          match e.contribution m limit used with
          | none => buildBatch m env limit used tasks
          | some c => (buildBatch m env limit (used + c.tokens.length) tasks).map (c :: ·)

/-- The batch of one turn. Tasks that are not runnable come after those that are. -/
def runBatch (m : LoadedModel) (env : BatchEnv) (turn : ℕ) (runnable others : List PoolEntry) :
    Option (List Contribution) :=
  let order := prepareBatchOrder runnable m.nBatch turn
  buildBatch m env order.2 0 (order.1 ++ others)

def batchTokens (batch : List Contribution) : ℕ := (batch.map fun c => c.tokens.length).sum

def promptTokens (batch : List Contribution) : ℕ :=
  batchTokens (batch.filter fun c => c.promptPos.isSome)

/-! ### What the order is -/

section Order

variable {tasks : List PoolEntry} {capacity turn : ℕ}

theorem sortBySlot_perm (tasks : List PoolEntry) : (sortBySlot tasks).Perm tasks :=
  List.mergeSort_perm tasks _

/-- The order has the tasks that decode first, each part possibly sorted by slots. -/
theorem prepareBatchOrder_spec (tasks : List PoolEntry) (capacity turn : ℕ) :
    ∃ decoding prompting, (prepareBatchOrder tasks capacity turn).1 = decoding ++ prompting ∧
      decoding.Perm ((tasks.rotate (turn % tasks.length)).filter PoolEntry.decodes) ∧
      prompting.Perm ((tasks.rotate (turn % tasks.length)).filter fun e => !e.decodes) := by
  unfold prepareBatchOrder
  by_cases hempty : tasks.isEmpty
  · rw [if_pos hempty]
    obtain rfl := List.isEmpty_iff.1 hempty
    exact ⟨[], [], rfl, by simp, by simp⟩
  · rw [if_neg hempty]
    refine ⟨_, _, rfl, ?_, ?_⟩
    · split_ifs
      · exact sortBySlot_perm _
      · exact List.Perm.refl _
    · split_ifs
      · exact sortBySlot_perm _
      · exact List.Perm.refl _

theorem prepareBatchOrder_perm (tasks : List PoolEntry) (capacity turn : ℕ) :
    (prepareBatchOrder tasks capacity turn).1.Perm tasks := by
  obtain ⟨decoding, prompting, horder, hdecoding, hprompting⟩ :=
    prepareBatchOrder_spec tasks capacity turn
  rw [horder]
  refine (hdecoding.append hprompting).trans ?_
  exact (List.filter_append_perm _ _).trans (List.rotate_perm _ _)

/-- Every task that decodes comes before every task that has a prompt left. -/
theorem prepareBatchOrder_decodesFirst (tasks : List PoolEntry) (capacity turn : ℕ) :
    (prepareBatchOrder tasks capacity turn).1.Pairwise
      fun first later => later.decodes = true → first.decodes = true := by
  obtain ⟨decoding, prompting, horder, hdecoding, hprompting⟩ :=
    prepareBatchOrder_spec tasks capacity turn
  have hdecodes : ∀ e ∈ decoding, e.decodes = true := by
    intro e he
    exact (List.mem_filter.1 (hdecoding.mem_iff.1 he)).2
  have hprompts : ∀ e ∈ prompting, e.decodes = false := by
    intro e he
    simpa using (List.mem_filter.1 (hprompting.mem_iff.1 he)).2
  rw [horder, List.pairwise_append]
  refine ⟨?_, ?_, ?_⟩
  · exact List.pairwise_of_forall_mem_list fun first hfirst _ _ _ => hdecodes first hfirst
  · apply List.pairwise_of_forall_mem_list
    intro first _ later hlater hdecode
    rw [hprompts later hlater] at hdecode
    cases hdecode
  · exact fun first hfirst later _ _ => hdecodes first hfirst

theorem decodeTokens_perm {tasks' : List PoolEntry} (h : tasks'.Perm tasks) :
    decodeTokens tasks' = decodeTokens tasks :=
  ((h.filter _).map _).sum_eq

theorem promptCount_perm {tasks' : List PoolEntry} (h : tasks'.Perm tasks) :
    promptCount tasks' = promptCount tasks :=
  h.countP_eq _

/-- The share of a prompt, from the tasks as they are. -/
theorem prepareBatchOrder_limit (hne : tasks ≠ []) :
    (prepareBatchOrder tasks capacity turn).2 =
      if 0 < promptCount tasks then
        (availablePrefill capacity (decodeTokens tasks) (promptCount tasks) + promptCount tasks - 1) /
          promptCount tasks
      else 0 := by
  have hempty : ¬ tasks.isEmpty = true := by simpa using hne
  have hrotate := List.rotate_perm tasks (turn % tasks.length)
  rw [prepareBatchOrder, if_neg hempty]
  dsimp only
  rw [decodeTokens_perm hrotate, promptCount_perm hrotate]

end Order

/-! ### What a batch is -/

section Batch

variable {m : LoadedModel} {env : BatchEnv} {limit used : ℕ} {e e' : PoolEntry}
  {tasks : List PoolEntry} {batch : List Contribution} {c : Contribution}

/-- Media chunks move the position in the prompt and change nothing else of the task's course. -/
theorem passMedia_keeps {evaluates : Bool} {rounds : ℕ} {t t' : SlotTask}
    (h : t.passMedia evaluates rounds = some t') :
    t'.tokens = t.tokens ∧ t'.promptDone = t.promptDone := by
  induction rounds generalizing t with
  | zero =>
      unfold SlotTask.passMedia at h
      split_ifs at h
      obtain rfl := Option.some.inj h
      exact ⟨rfl, rfl⟩
  | succ rounds ih =>
      unfold SlotTask.passMedia at h
      split_ifs at h
      · obtain ⟨r, hr, h⟩ := Option.bind_eq_some_iff.1 h
        obtain ⟨htokens, hdone⟩ := ih h
        obtain ⟨chunk, -, rfl⟩ := Option.map_eq_some_iff.1 hr
        exact ⟨htokens, hdone⟩
      · obtain rfl := Option.some.inj h
        exact ⟨rfl, rfl⟩

theorem passMedia_text {t : SlotTask} (hmedia : t.prompt.mediaChunks = []) (evaluates : Bool)
    (rounds : ℕ) : t.passMedia evaluates rounds = some t := by
  have hnull : tokenNull ∉ t.tokens := t.prompt.media_iff.1 hmedia
  have hat : t.atMedia = false := by
    rw [SlotTask.atMedia, beq_eq_false_iff_ne]
    exact fun hsome => hnull (List.mem_of_getElem? hsome)
  unfold SlotTask.passMedia
  rw [if_neg (by rw [hat]; exact Bool.false_ne_true)]

theorem atChunk_keeps (h : e.atChunk env = some e') :
    e'.id = e.id ∧ e'.decodes = e.decodes ∧ e'.decodeRun.length = e.decodeRun.length := by
  unfold PoolEntry.atChunk at h
  split_ifs at h with hdecodes
  · obtain rfl := Option.some.inj h
    exact ⟨rfl, rfl, rfl⟩
  · obtain ⟨t, ht, rfl⟩ := Option.map_eq_some_iff.1 h
    exact ⟨rfl, (passMedia_keeps ht).2, rfl⟩

/-- A task puts its whole run into the batch or the next tokens of its prompt. -/
structure Suits (env : BatchEnv) (e : PoolEntry) (c : Contribution) : Prop where
  id : c.id = e.id
  decode : e.decodes = true → c.tokens = e.decodeRun ∧ c.promptPos = none
  prompt : e.decodes = false → ∃ t,
    e.task.passMedia (env.evaluates e.id) e.task.tokens.length = some t ∧
      c.promptPos = some t.promptPos ∧ c.tokens ≠ [] ∧ c.tokens <+: e.task.tokens.drop t.promptPos

theorem suits_of_contribution (hat : e.atChunk env = some e')
    (h : e'.contribution m limit used = some c) : Suits env e c := by
  unfold PoolEntry.atChunk at hat
  unfold PoolEntry.contribution at h
  by_cases hdecodes : e.decodes = true
  · rw [if_pos hdecodes] at hat
    obtain rfl := Option.some.inj hat
    rw [if_pos hdecodes] at h
    split_ifs at h
    obtain rfl := Option.some.inj h
    exact ⟨rfl, fun _ => ⟨rfl, rfl⟩, fun hnot => absurd hnot (by simp [hdecodes])⟩
  · rw [if_neg hdecodes] at hat
    obtain ⟨t, ht, rfl⟩ := Option.map_eq_some_iff.1 hat
    obtain ⟨htokens, hdone⟩ := passMedia_keeps ht
    have hphase : ¬ ({ e with task := t } : PoolEntry).decodes = true := by
      rw [PoolEntry.decodes, hdone]
      exact hdecodes
    rw [if_neg hphase] at h
    dsimp only at h
    split_ifs at h with hchunk
    obtain rfl := Option.some.inj h
    have hlength := (t.chunkLength_le (m := m) (min (m.nBatch - used) limit)).1
    refine ⟨rfl, fun hnot => absurd hnot hdecodes, fun _ => ⟨t, ht, rfl, ?_, ?_⟩⟩
    · rw [← List.length_pos_iff, List.length_take, List.length_drop]
      exact lt_min hchunk (lt_of_lt_of_le hchunk hlength)
    · rw [← htokens]
      exact List.take_prefix _ _

theorem chunkLength_le_room (t : SlotTask) (room : ℕ) : t.chunkLength m room ≤ room := by
  unfold SlotTask.chunkLength
  cases t.prompt.mediaChunks.find? (fun media => decide ((t.promptPos : ℤ) < media.tokenStart)) with
  | none => exact (SlotTask.captureCut_le _ _ _ _ _).trans (min_le_right _ _)
  | some media =>
      exact (SlotTask.captureCut_le _ _ _ _ _).trans ((min_le_left _ _).trans (min_le_right _ _))

/-- A contribution fits the room that is left, and a prompt takes at most its share. -/
theorem contribution_length (h : e.contribution m limit used = some c) :
    (used ≤ m.nBatch → used + c.tokens.length ≤ m.nBatch) ∧
      (c.promptPos.isSome = true → c.tokens.length ≤ limit) ∧
      c.promptPos.isSome = !e.decodes := by
  unfold PoolEntry.contribution at h
  by_cases hdecodes : e.decodes = true
  · rw [if_pos hdecodes] at h
    split_ifs at h with hfits
    obtain rfl := Option.some.inj h
    refine ⟨fun _ => hfits, fun hsome => ?_, ?_⟩
    · cases hsome
    · rw [hdecodes]
      rfl
  · rw [if_neg hdecodes] at h
    dsimp only at h
    split_ifs at h
    obtain rfl := Option.some.inj h
    have hroom := chunkLength_le_room (m := m) e.task (min (m.nBatch - used) limit)
    simp only [List.length_take, List.length_drop, Option.isSome_some, hdecodes, Bool.not_false]
    exact ⟨fun _ => by omega, fun _ => by omega, trivial⟩

/-- The loop takes something of the first task, or goes on to the next one. -/
theorem buildBatch_cons (h : buildBatch m env limit used (e :: tasks) = some batch) :
    buildBatch m env limit used tasks = some batch ∨
      ∃ e' c rest, e.skipped env = false ∧ e.atChunk env = some e' ∧
        e'.contribution m limit used = some c ∧ batch = c :: rest ∧
        buildBatch m env limit (used + c.tokens.length) tasks = some rest := by
  rw [buildBatch] at h
  by_cases hskip : e.skipped env = true
  · rw [if_pos hskip] at h
    exact .inl h
  · rw [if_neg hskip] at h
    obtain ⟨e', he', h⟩ := Option.bind_eq_some_iff.1 h
    cases hc : e'.contribution m limit used with
    | none =>
        rw [hc] at h
        exact .inl h
    | some c =>
        rw [hc] at h
        obtain ⟨rest, hrest, rfl⟩ := Option.map_eq_some_iff.1 h
        exact .inr ⟨e', c, rest, Bool.eq_false_iff.2 hskip, he', hc, rfl, hrest⟩

theorem batchTokens_cons (c : Contribution) (batch : List Contribution) :
    batchTokens (c :: batch) = c.tokens.length + batchTokens batch := rfl

/-- A batch is never larger than `n_batch`. -/
theorem buildBatch_le (hused : used ≤ m.nBatch)
    (h : buildBatch m env limit used tasks = some batch) : used + batchTokens batch ≤ m.nBatch := by
  induction tasks generalizing used batch with
  | nil =>
      obtain rfl := Option.some.inj h
      exact hused
  | cons e tasks ih =>
      rcases buildBatch_cons h with hrest | ⟨e', c, rest, -, -, hc, rfl, hrest⟩
      · exact ih hused hrest
      · have hbound := ih ((contribution_length hc).1 hused) hrest
        rw [batchTokens_cons]
        omega

theorem buildBatch_suits (h : buildBatch m env limit used tasks = some batch) :
    ∀ c ∈ batch, ∃ e ∈ tasks, e.skipped env = false ∧ Suits env e c := by
  induction tasks generalizing used batch with
  | nil =>
      obtain rfl := Option.some.inj h
      exact fun c hc => absurd hc List.not_mem_nil
  | cons e tasks ih =>
      have htail {used : ℕ} {batch : List Contribution}
          (h : buildBatch m env limit used tasks = some batch) (c : Contribution) (hc : c ∈ batch) :
          ∃ e' ∈ e :: tasks, e'.skipped env = false ∧ Suits env e' c := by
        obtain ⟨e', he', hsuits⟩ := ih h c hc
        exact ⟨e', List.mem_cons_of_mem _ he', hsuits⟩
      rcases buildBatch_cons h with hrest | ⟨e', c, rest, hskip, hat, hc, rfl, hrest⟩
      · exact htail hrest
      · intro c' hc'
        rcases List.mem_cons.1 hc' with rfl | hc'
        · exact ⟨e, List.mem_cons_self, hskip, suits_of_contribution hat hc⟩
        · exact htail hrest c' hc'

/-- No task has more than one part in a batch, and the parts are in the order of the tasks. -/
theorem buildBatch_ids (h : buildBatch m env limit used tasks = some batch) :
    (batch.map Contribution.id).Sublist (tasks.map PoolEntry.id) := by
  induction tasks generalizing used batch with
  | nil =>
      obtain rfl := Option.some.inj h
      exact List.Sublist.slnil
  | cons e tasks ih =>
      rcases buildBatch_cons h with hrest | ⟨e', c, rest, -, hat, hc, rfl, hrest⟩
      · exact (ih hrest).cons _
      · have hid := (suits_of_contribution hat hc).id
        rw [List.map_cons, List.map_cons, hid]
        exact (ih hrest).cons_cons _

/-- Each prompt takes at most its share of a batch. -/
theorem buildBatch_promptTokens (h : buildBatch m env limit used tasks = some batch) :
    promptTokens batch ≤ limit * tasks.countP fun e => !e.skipped env && !e.decodes := by
  induction tasks generalizing used batch with
  | nil =>
      obtain rfl := Option.some.inj h
      exact Nat.zero_le _
  | cons e tasks ih =>
      rcases buildBatch_cons h with hrest | ⟨e', c, rest, hskip, hat, hc, rfl, hrest⟩
      · refine (ih hrest).trans (Nat.mul_le_mul_left _ ?_)
        rw [List.countP_cons]
        exact Nat.le_add_right _ _
      · obtain ⟨-, hshare, hprompt⟩ := contribution_length hc
        rw [(atChunk_keeps hat).2.1] at hprompt
        have hbound := ih hrest
        rw [List.countP_cons]
        unfold promptTokens at hbound ⊢
        by_cases hdecodes : e.decodes = true
        · rw [List.filter_cons_of_neg (by simp [hprompt, hdecodes])]
          simpa [hdecodes] using hbound
        · have hsome : c.promptPos.isSome = true := by simp [hprompt, hdecodes]
          rw [List.filter_cons_of_pos (by exact hsome), batchTokens_cons,
            if_pos (by simp [hskip, hdecodes]), Nat.mul_add, Nat.mul_one]
          have hle := hshare hsome
          omega

/-- The shares of the prompts together stay within what the prompts may have, up to rounding. -/
theorem share_mul_le {available prompts quota : ℕ} (hprompts : 0 < prompts)
    (havailable : available ≤ quota * prompts) :
    (available + prompts - 1) / prompts * prompts ≤ quota * prompts := by
  have hshare : (available + prompts - 1) / prompts ≤ quota := by
    rw [← Nat.lt_succ_iff, Nat.div_lt_iff_lt_mul hprompts, Nat.succ_mul]
    omega
  exact Nat.mul_le_mul_right prompts hshare

theorem quota_mul_le (prompts : ℕ) :
    max 1 (mixedPrefillBudget / prompts) * prompts ≤ max 1024 prompts := by
  rcases le_total 1 (mixedPrefillBudget / prompts) with hle | hle
  · rw [max_eq_right hle]
    exact (Nat.div_mul_le_self mixedPrefillBudget prompts).trans (le_max_left _ _)
  · rw [max_eq_left hle, Nat.one_mul]
    exact le_max_right _ _

/-- With a task that decodes, the shares of the prompts are at most the mixed budget. -/
theorem limit_mul_le {capacity turn : ℕ} (hdecode : 0 < decodeTokens tasks) :
    (prepareBatchOrder tasks capacity turn).2 * promptCount tasks ≤
      max 1024 (promptCount tasks) := by
  have hne : tasks ≠ [] := by
    rintro rfl
    exact absurd hdecode (lt_irrefl 0)
  rw [prepareBatchOrder_limit hne]
  by_cases hprompts : 0 < promptCount tasks
  · rw [if_pos hprompts]
    refine (share_mul_le hprompts ?_).trans (quota_mul_le (promptCount tasks))
    rw [availablePrefill, if_pos ⟨hdecode, hprompts⟩]
    exact min_le_right _ _
  · rw [if_neg hprompts, Nat.zero_mul]
    exact Nat.zero_le _

theorem decodeTokens_pos (h : ∃ e ∈ tasks, e.live = true ∧ e.decodes = true) :
    0 < decodeTokens tasks := by
  obtain ⟨e, he, hlive, hdecodes⟩ := h
  have hmem : e.decodeRun.length ∈
      (tasks.filter fun e => e.live && e.decodes).map fun e => e.decodeRun.length :=
    List.mem_map_of_mem (List.mem_filter.2 ⟨he, by simp [hlive, hdecodes]⟩)
  have hpositive : 0 < e.decodeRun.length := Nat.succ_pos _
  exact lt_of_lt_of_le hpositive (List.le_sum_of_mem hmem)

theorem live_of_not_skipped (h : e.skipped env = false) : e.live = true := by
  simp only [PoolEntry.skipped, Bool.or_eq_false_iff, Bool.not_eq_false'] at h
  exact h.1.2

structure BatchBounds (m : LoadedModel) (env : BatchEnv) (turn : ℕ)
    (runnable others : List PoolEntry) : Prop where
  order : (prepareBatchOrder runnable m.nBatch turn).1.Perm runnable
  decodesFirst : (prepareBatchOrder runnable m.nBatch turn).1.Pairwise
    fun first later => later.decodes = true → first.decodes = true
  size : ∀ batch, runBatch m env turn runnable others = some batch → batchTokens batch ≤ m.nBatch
  runs : ∀ batch, runBatch m env turn runnable others = some batch →
    ∀ c ∈ batch, ∃ e ∈ runnable ++ others, Suits env e c
  once : ∀ batch, runBatch m env turn runnable others = some batch →
    (batch.map Contribution.id).Sublist
      (((prepareBatchOrder runnable m.nBatch turn).1 ++ others).map PoolEntry.id)
  mixed : (∀ e ∈ others, e.skipped env = true) →
    (∃ e ∈ runnable, e.live = true ∧ e.decodes = true) →
      ∀ batch, runBatch m env turn runnable others = some batch →
        promptTokens batch ≤ max 1024 (promptCount runnable)

theorem batchBounds (m : LoadedModel) (env : BatchEnv) (turn : ℕ)
    (runnable others : List PoolEntry) : BatchBounds m env turn runnable others := by
  have hperm := prepareBatchOrder_perm runnable m.nBatch turn
  refine ⟨hperm, prepareBatchOrder_decodesFirst runnable m.nBatch turn, ?_, ?_,
    fun batch hbatch => buildBatch_ids hbatch, ?_⟩
  · intro batch hbatch
    have hsize := buildBatch_le (Nat.zero_le m.nBatch) hbatch
    rwa [Nat.zero_add] at hsize
  · intro batch hbatch c hc
    obtain ⟨e, he, -, hsuits⟩ := buildBatch_suits hbatch c hc
    refine ⟨e, ?_, hsuits⟩
    rcases List.mem_append.1 he with he | he
    · exact List.mem_append_left _ (hperm.mem_iff.1 he)
    · exact List.mem_append_right _ he
  · intro hothers hdecode batch hbatch
    have hnone : (others.countP fun e => !e.skipped env && !e.decodes) = 0 := by
      rw [List.countP_eq_zero]
      intro e he
      simp [hothers e he]
    have hcount : (((prepareBatchOrder runnable m.nBatch turn).1 ++ others).countP
        fun e => !e.skipped env && !e.decodes) ≤ promptCount runnable := by
      rw [List.countP_append, hnone, Nat.add_zero, hperm.countP_eq]
      apply List.countP_mono_left
      intro e _ he
      simp only [Bool.and_eq_true, Bool.not_eq_true'] at he ⊢
      exact ⟨live_of_not_skipped he.1, he.2⟩
    calc promptTokens batch
        ≤ (prepareBatchOrder runnable m.nBatch turn).2 *
            (((prepareBatchOrder runnable m.nBatch turn).1 ++ others).countP
              fun e => !e.skipped env && !e.decodes) := buildBatch_promptTokens hbatch
      _ ≤ (prepareBatchOrder runnable m.nBatch turn).2 * promptCount runnable :=
          Nat.mul_le_mul_left _ hcount
      _ ≤ max 1024 (promptCount runnable) := limit_mul_le (decodeTokens_pos hdecode)

end Batch

end InferDeck.LlamaWrapper.SlotCache
