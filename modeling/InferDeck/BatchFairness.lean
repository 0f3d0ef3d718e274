import InferDeck.BatchOrder
import InferDeck.PromptTruncation

/-!
# Turns of the scheduler

The rotation puts each of the runnable tasks first once in as many turns as there are tasks. A task
that decodes is in the batch of that turn. A prompt gets some tokens in that turn, or has got some
before, if the tasks that decode leave room and the prompt has a token left at all.
-/

namespace InferDeck.LlamaWrapper.SlotCache

open SequenceMemory

/-- A task of text that nobody cancels or stops, in the pool, with a run that fits a batch. -/
structure Runnable (m : LoadedModel) (env : BatchEnv) (e : PoolEntry) : Prop where
  text : e.task.prompt.mediaChunks = []
  kept : e.skipped env = false
  fits : e.decodeRun.length ≤ m.nBatch

section Build

variable {m : LoadedModel} {env : BatchEnv} {limit used : ℕ} {e : PoolEntry}
  {tasks : List PoolEntry} {batch : List Contribution}

theorem buildBatch_runnable (h : Runnable m env e) (limit used : ℕ) (tasks : List PoolEntry) :
    buildBatch m env limit used (e :: tasks) =
      (e.contribution m limit used).elim (buildBatch m env limit used tasks) fun c =>
        (buildBatch m env limit (used + c.tokens.length) tasks).map (c :: ·) := by
  have hat : e.atChunk env = some e := by
    unfold PoolEntry.atChunk
    split_ifs
    · rfl
    · rw [passMedia_text h.text, Option.map_some]
  rw [buildBatch, if_neg (by rw [h.kept]; exact Bool.false_ne_true), hat, Option.bind_some]
  cases e.contribution m limit used <;> rfl

/-- Without media no exception ends the loop. -/
theorem buildBatch_text (h : ∀ e ∈ tasks, Runnable m env e) (limit used : ℕ) :
    ∃ batch, buildBatch m env limit used tasks = some batch := by
  induction tasks generalizing used with
  | nil => exact ⟨[], rfl⟩
  | cons e tasks ih =>
      have hrest := ih fun e he => h e (List.mem_cons_of_mem _ he)
      rw [buildBatch_runnable (h e List.mem_cons_self)]
      cases e.contribution m limit used with
      | none => exact hrest used
      | some c =>
          obtain ⟨batch, hbatch⟩ := hrest (used + c.tokens.length)
          exact ⟨c :: batch, by rw [Option.elim_some, hbatch, Option.map_some]⟩

/-- Tasks that decode and fit together are all in the batch. -/
theorem buildBatch_decoding {decoding : List PoolEntry} (h : ∀ e ∈ decoding, Runnable m env e)
    (hdecodes : ∀ e ∈ decoding, e.decodes = true) (limit : ℕ) {used : ℕ}
    (hfits : used + (decoding.map fun e => e.decodeRun.length).sum ≤ m.nBatch)
    (tasks : List PoolEntry) :
    buildBatch m env limit used (decoding ++ tasks) =
      (buildBatch m env limit (used + (decoding.map fun e => e.decodeRun.length).sum) tasks).map
        ((decoding.map fun e => ⟨e.id, e.decodeRun, none⟩) ++ ·) := by
  induction decoding generalizing used with
  | nil => simp
  | cons e decoding ih =>
      rw [List.map_cons, List.sum_cons] at hfits
      have hcontribution : e.contribution m limit used = some ⟨e.id, e.decodeRun, none⟩ := by
        rw [PoolEntry.contribution, if_pos (hdecodes e List.mem_cons_self), if_pos (by omega)]
      rw [List.cons_append, buildBatch_runnable (h e List.mem_cons_self), hcontribution,
        Option.elim_some, ih (fun e he => h e (List.mem_cons_of_mem _ he))
        (fun e he => hdecodes e (List.mem_cons_of_mem _ he)) (by dsimp only; omega), Option.map_map,
        List.map_cons, List.map_cons, List.sum_cons, Nat.add_assoc]
      rfl

/-- A prompt with a token left takes at least one, where there is room. -/
theorem contribution_of_prompt (htext : e.task.prompt.mediaChunks = []) (hprompt : e.decodes = false)
    (hleft : e.task.promptPos < e.task.tokens.length) (hroom : used < m.nBatch) (hlimit : 0 < limit) :
    ∃ c, e.contribution m limit used = some c ∧ c.id = e.id := by
  have hchunk : 0 < e.task.chunkLength m (min (m.nBatch - used) limit) :=
    SlotTask.chunkLength_pos htext hleft (by omega)
  have hphase : ¬ e.decodes = true := by simp [hprompt]
  unfold PoolEntry.contribution
  rw [if_neg hphase]
  dsimp only
  rw [if_pos hchunk]
  exact ⟨_, rfl, rfl⟩

/-- Where there is room for the shares of all prompts, each with a token left takes some. -/
theorem buildBatch_prompting (h : ∀ e ∈ tasks, Runnable m env e)
    (hprompts : ∀ e ∈ tasks, e.decodes = false) (hlimit : 0 < limit)
    (hroom : used + limit * tasks.length ≤ m.nBatch)
    (hbatch : buildBatch m env limit used tasks = some batch) (he : e ∈ tasks)
    (hleft : e.task.promptPos < e.task.tokens.length) : ∃ c ∈ batch, c.id = e.id := by
  induction tasks generalizing used batch with
  | nil => cases he
  | cons first tasks ih =>
      have hfirst := h first List.mem_cons_self
      have hprompt := hprompts first List.mem_cons_self
      have hrest := fun e he => h e (List.mem_cons_of_mem first he)
      have hrestPrompts := fun e he => hprompts e (List.mem_cons_of_mem first he)
      rw [List.length_cons, Nat.mul_succ] at hroom
      have hspace : used < m.nBatch := by omega
      rw [buildBatch_runnable hfirst] at hbatch
      cases hc : first.contribution m limit used with
      | none =>
          rw [hc] at hbatch
          rcases List.mem_cons.1 he with rfl | he
          · obtain ⟨c, hsome, -⟩ :=
              contribution_of_prompt hfirst.text hprompt hleft hspace hlimit
            rw [hc] at hsome
            cases hsome
          · exact ih hrest hrestPrompts (by omega) hbatch he
      | some c =>
          rw [hc] at hbatch
          obtain ⟨rest, htail, rfl⟩ := Option.map_eq_some_iff.1 hbatch
          obtain ⟨-, hshare, hsome⟩ := contribution_length hc
          have hle := hshare (by simp [hsome, hprompt])
          rcases List.mem_cons.1 he with rfl | he
          · obtain ⟨c', hc', hid⟩ :=
              contribution_of_prompt hfirst.text hprompt hleft hspace hlimit
            obtain rfl := Option.some.inj (hc.symm.trans hc')
            exact ⟨c, List.mem_cons_self, hid⟩
          · obtain ⟨c', hc', hid⟩ := ih hrest hrestPrompts (by omega) htail he
            exact ⟨c', List.mem_cons_of_mem _ hc', hid⟩

end Build

/-! ### The task that the rotation puts first -/

section Front

variable {m : LoadedModel} {env : BatchEnv} {turn i : ℕ} {e : PoolEntry} {tasks : List PoolEntry}

theorem rotate_front (he : tasks[i]? = some e) : ∃ others, tasks.rotate i = e :: others := by
  obtain ⟨hi, hget⟩ := List.getElem?_eq_some_iff.1 he
  rw [List.rotate_eq_drop_append_take hi.le, List.drop_eq_getElem_cons hi, hget]
  exact ⟨_, rfl⟩

/-- The order of runnable tasks, from their counts as they are. -/
theorem prepareBatchOrder_eq (hne : tasks ≠ []) (capacity turn : ℕ) :
    (prepareBatchOrder tasks capacity turn).1 =
      (if decodeTokens tasks ≤ capacity then
          sortBySlot ((tasks.rotate (turn % tasks.length)).filter PoolEntry.decodes)
        else (tasks.rotate (turn % tasks.length)).filter PoolEntry.decodes) ++
      if 0 < promptCount tasks ∧
          promptCount tasks ≤
            availablePrefill capacity (decodeTokens tasks) (promptCount tasks) ∧
          availablePrefill capacity (decodeTokens tasks) (promptCount tasks) %
            promptCount tasks = 0 then
        sortBySlot ((tasks.rotate (turn % tasks.length)).filter fun e => !e.decodes)
      else (tasks.rotate (turn % tasks.length)).filter fun e => !e.decodes := by
  have hempty : ¬ tasks.isEmpty = true := by simpa using hne
  have hrotate := List.rotate_perm tasks (turn % tasks.length)
  rw [prepareBatchOrder, if_neg hempty]
  dsimp only
  rw [decodeTokens_perm hrotate, promptCount_perm hrotate]

theorem decodeTokens_eq (h : ∀ e ∈ tasks, Runnable m env e) {decoding : List PoolEntry}
    (hdecoding : decoding.Perm (tasks.filter PoolEntry.decodes)) :
    (decoding.map fun e => e.decodeRun.length).sum = decodeTokens tasks := by
  have hlive : (tasks.filter fun e => e.live && e.decodes) = tasks.filter PoolEntry.decodes := by
    apply List.filter_congr
    intro e he
    rw [live_of_not_skipped (h e he).kept, Bool.true_and]
  rw [(hdecoding.map _).sum_eq, decodeTokens, hlive]

theorem promptCount_eq (h : ∀ e ∈ tasks, Runnable m env e) {prompting : List PoolEntry}
    (hprompting : prompting.Perm (tasks.filter fun e => !e.decodes)) :
    prompting.length = promptCount tasks := by
  rw [hprompting.length_eq, ← List.countP_eq_length_filter, promptCount]
  apply List.countP_congr
  intro e he
  rw [live_of_not_skipped (h e he).kept, Bool.true_and]

theorem rotate_filter_perm (tasks : List PoolEntry) (turn : ℕ) (p : PoolEntry → Bool) :
    ((tasks.rotate (turn % tasks.length)).filter p).Perm (tasks.filter p) :=
  (List.rotate_perm tasks _).filter p

/-- A task that decodes is in the batch of the turn in which it is first. -/
theorem front_decodes (h : ∀ e ∈ tasks, Runnable m env e) (he : tasks[i]? = some e)
    (hturn : turn % tasks.length = i) (hdecodes : e.decodes = true) {batch : List Contribution}
    (hbatch : runBatch m env turn tasks [] = some batch) : ∃ c ∈ batch, c.id = e.id := by
  have hmem := List.mem_of_getElem? he
  have hne := List.ne_nil_of_mem hmem
  obtain ⟨others, hrotate⟩ := rotate_front he
  have hdecoding := rotate_filter_perm tasks turn PoolEntry.decodes
  unfold runBatch at hbatch
  dsimp only at hbatch
  obtain ⟨prompting, horder⟩ : ∃ prompting, (prepareBatchOrder tasks m.nBatch turn).1 =
      (if decodeTokens tasks ≤ m.nBatch then
          sortBySlot ((tasks.rotate (turn % tasks.length)).filter PoolEntry.decodes)
        else (tasks.rotate (turn % tasks.length)).filter PoolEntry.decodes) ++ prompting :=
    ⟨_, prepareBatchOrder_eq hne _ _⟩
  rw [List.append_nil, horder] at hbatch
  generalize (prepareBatchOrder tasks m.nBatch turn).2 = limit at hbatch
  by_cases hfits : decodeTokens tasks ≤ m.nBatch
  · -- all tasks that decode fit together
    have hsorted := (sortBySlot_perm _).trans hdecoding
    have hall : ∀ e ∈ sortBySlot ((tasks.rotate (turn % tasks.length)).filter PoolEntry.decodes),
        Runnable m env e ∧ e.decodes = true := by
      intro e he
      obtain ⟨he, hphase⟩ := List.mem_filter.1 (hsorted.mem_iff.1 he)
      exact ⟨h e he, hphase⟩
    rw [if_pos hfits, buildBatch_decoding (fun e he => (hall e he).1) (fun e he => (hall e he).2) _
      (by rw [decodeTokens_eq h hsorted]; omega)] at hbatch
    obtain ⟨rest, -, rfl⟩ := Option.map_eq_some_iff.1 hbatch
    have hin : e ∈ sortBySlot ((tasks.rotate (turn % tasks.length)).filter PoolEntry.decodes) :=
      hsorted.mem_iff.2 (List.mem_filter.2 ⟨hmem, hdecodes⟩)
    exact ⟨_, List.mem_append_left _ (List.mem_map_of_mem hin), rfl⟩
  · have hrun := h e hmem
    have hcontribution : e.contribution m limit 0 = some ⟨e.id, e.decodeRun, none⟩ := by
      rw [PoolEntry.contribution, if_pos hdecodes, if_pos (by have := hrun.fits; omega)]
    rw [if_neg hfits, hturn, hrotate, List.filter_cons_of_pos hdecodes, List.cons_append,
      buildBatch_runnable hrun, hcontribution, Option.elim_some] at hbatch
    obtain ⟨rest, -, rfl⟩ := Option.map_eq_some_iff.1 hbatch
    exact ⟨_, List.mem_cons_self, rfl⟩

/-- The share of a prompt is positive where the tasks that decode leave room. -/
theorem limit_pos {capacity available prompts : ℕ} (hprompts : 0 < prompts)
    (hroom : decodeTokens tasks < capacity)
    (havailable : availablePrefill capacity (decodeTokens tasks) prompts = available) :
    0 < available ∧ 0 < (available + prompts - 1) / prompts ∧
      available ≤ capacity - decodeTokens tasks := by
  have hquota : 0 < max 1 (mixedPrefillBudget / prompts) * prompts :=
    Nat.mul_pos (lt_of_lt_of_le Nat.zero_lt_one (le_max_left _ _)) hprompts
  have hpositive : 0 < available ∧ available ≤ capacity - decodeTokens tasks := by
    rw [← havailable]
    unfold availablePrefill
    split_ifs
    · exact ⟨lt_min (by omega) hquota, min_le_left _ _⟩
    · exact ⟨by omega, le_rfl⟩
  exact ⟨hpositive.1, Nat.div_pos (by omega) hprompts, hpositive.2⟩

/-- A prompt with a token left gets some in the turn in which its task is first, where the tasks
that decode leave room. -/
theorem front_prompts (h : ∀ e ∈ tasks, Runnable m env e) (he : tasks[i]? = some e)
    (hturn : turn % tasks.length = i) (hprompt : e.decodes = false)
    (hleft : e.task.promptPos < e.task.tokens.length) (hroom : decodeTokens tasks < m.nBatch)
    {batch : List Contribution} (hbatch : runBatch m env turn tasks [] = some batch) :
    ∃ c ∈ batch, c.id = e.id := by
  have hmem := List.mem_of_getElem? he
  have hne := List.ne_nil_of_mem hmem
  obtain ⟨others, hrotate⟩ := rotate_front he
  have hdecoding := rotate_filter_perm tasks turn PoolEntry.decodes
  have hprompting := rotate_filter_perm tasks turn fun e => !e.decodes
  have hcount : 0 < promptCount tasks := by
    rw [← promptCount_eq h (List.Perm.refl _)]
    exact List.length_pos_of_mem (List.mem_filter.2 ⟨hmem, by simp [hprompt]⟩)
  obtain ⟨available, havailable⟩ : ∃ available,
      availablePrefill m.nBatch (decodeTokens tasks) (promptCount tasks) = available := ⟨_, rfl⟩
  obtain ⟨hpositive, hlimit, hle⟩ := limit_pos hcount hroom havailable
  have hsorted := (sortBySlot_perm _).trans hdecoding
  have hall : ∀ e ∈ sortBySlot ((tasks.rotate (turn % tasks.length)).filter PoolEntry.decodes),
      Runnable m env e ∧ e.decodes = true := by
    intro e he
    obtain ⟨he, hphase⟩ := List.mem_filter.1 (hsorted.mem_iff.1 he)
    exact ⟨h e he, hphase⟩
  unfold runBatch at hbatch
  dsimp only at hbatch
  rw [List.append_nil, prepareBatchOrder_eq hne, prepareBatchOrder_limit hne, havailable,
    if_pos hcount, if_pos hroom.le, buildBatch_decoding (fun e he => (hall e he).1)
      (fun e he => (hall e he).2) _ (by rw [decodeTokens_eq h hsorted]; omega),
    decodeTokens_eq h hsorted, Nat.zero_add] at hbatch
  obtain ⟨prompts, hprompts, rfl⟩ := Option.map_eq_some_iff.1 hbatch
  have hfound : ∃ c ∈ prompts, c.id = e.id := by
    split_ifs at hprompts with hshares
    · -- the shares of all prompts fit together
      have hperm := (sortBySlot_perm _).trans hprompting
      have hphase : ∀ e ∈ sortBySlot
          ((tasks.rotate (turn % tasks.length)).filter fun e => !e.decodes),
          Runnable m env e ∧ e.decodes = false := by
        intro e he
        obtain ⟨he, hphase⟩ := List.mem_filter.1 (hperm.mem_iff.1 he)
        exact ⟨h e he, by simpa using hphase⟩
      refine buildBatch_prompting (fun e he => (hphase e he).1) (fun e he => (hphase e he).2)
        hlimit ?_ hprompts (hperm.mem_iff.2 (List.mem_filter.2 ⟨hmem, by simp [hprompt]⟩)) hleft
      obtain ⟨share, hshare⟩ := Nat.dvd_of_mod_eq_zero hshares.2.2
      have hexact : (available + promptCount tasks - 1) / promptCount tasks = share := by
        rw [hshare]
        apply Nat.div_eq_of_lt_le
        · rw [Nat.mul_comm]
          omega
        · rw [Nat.succ_mul, Nat.mul_comm]
          omega
      rw [promptCount_eq h hperm, hexact, Nat.mul_comm, ← hshare]
      omega
    · obtain ⟨c, hc, hid⟩ := contribution_of_prompt (m := m) (h e hmem).text hprompt hleft hroom
        hlimit
      rw [hturn, hrotate, List.filter_cons_of_pos (by simp [hprompt]),
        buildBatch_runnable (h e hmem), hc, Option.elim_some] at hprompts
      obtain ⟨rest, -, rfl⟩ := Option.map_eq_some_iff.1 hprompts
      exact ⟨c, List.mem_cons_self, hid⟩
  obtain ⟨c, hc, hid⟩ := hfound
  exact ⟨c, List.mem_append_right _ hc, hid⟩

end Front

/-! ### Turns in a row -/

def taken (batch : List Contribution) (id : ℕ) : ℕ :=
  batchTokens (batch.filter fun c => c.id == id)

def Contributes (m : LoadedModel) (env : BatchEnv) (turn : ℕ) (tasks : List PoolEntry) (id : ℕ) :
    Prop :=
  ∃ batch, runBatch m env turn tasks [] = some batch ∧ ∃ c ∈ batch, c.id = id

/-- A task before a batch and at the next turn: a prompt has moved on by what the batch took, and
the task decodes once the batch took the last token. -/
structure EntryFollows (batch : List Contribution) (e e' : PoolEntry) : Prop where
  id : e'.id = e.id
  prompt : e'.task.prompt = e.task.prompt
  decoding : e.decodes = true → e'.decodes = true
  promptPos : e.decodes = false → e'.task.promptPos = e.task.promptPos + taken batch e.id
  promptDone : e.decodes = false → (e'.decodes = true ↔
    0 < taken batch e.id ∧ e.task.tokens.length ≤ e'.task.promptPos)

section Follows

variable {m : LoadedModel} {batch : List Contribution} {e : PoolEntry}

/-- A task of which the batch takes nothing stays as it is. -/
theorem entryFollows_idle (h : taken batch e.id = 0) : EntryFollows batch e e where
  id := rfl
  prompt := rfl
  decoding := id
  promptPos _ := by rw [h, Nat.add_zero]
  promptDone hprompt := by simp [h, hprompt]

/-- What the loop does with a chunk of a prompt. -/
theorem entryFollows_prefill (hprompt : e.decodes = false) (it : Iteration) (room : ℕ)
    (captures : SlotTask.Captures) (id : ℤ) (memory : Memory)
    (hpositive : 0 < (e.task.adapt m it).chunkLength m room)
    (htaken : taken batch e.id = (e.task.adapt m it).chunkLength m room) :
    EntryFollows batch e { e with task := (e.task.prefill m it room captures id memory).1 } := by
  obtain ⟨chunk, t, hchunk, hcourse, hpos, -, hprefill⟩ :=
    SlotTask.prefill_cases (m := m) e.task it room captures id memory
  rw [← hchunk] at hpositive htaken
  have hsampled : (t.sampled m id).promptPos = t.promptPos := by
    unfold SlotTask.sampled
    dsimp only
    split_ifs <;> rfl
  have hphase : t.promptDone = false := hcourse.promptDone.trans hprompt
  rw [hprefill]
  by_cases hlast : e.task.tokens.length ≤ e.task.promptPos + chunk
  · rw [if_pos hlast]
    refine ⟨rfl, (SlotTask.sampled_samples id).prompt.trans hcourse.prompt, ?_, ?_, ?_⟩
    · exact fun _ => (SlotTask.sampled_samples id).promptDone
    · intro _
      change (t.sampled m id).promptPos = _
      rw [hsampled, hpos, htaken]
    · refine fun _ => iff_of_true (SlotTask.sampled_samples id).promptDone ⟨by omega, ?_⟩
      change e.task.tokens.length ≤ (t.sampled m id).promptPos
      rw [hsampled, hpos]
      exact hlast
  · rw [if_neg hlast]
    refine ⟨rfl, hcourse.prompt, ?_, fun _ => by rw [htaken]; exact hpos, fun _ => ?_⟩
    · intro hdecodes
      rw [hprompt] at hdecodes
      cases hdecodes
    · refine iff_of_false (fun hdone => ?_) fun h => hlast (h.2.trans_eq hpos)
      have hdone' : t.promptDone = true := hdone
      rw [hphase] at hdone'
      cases hdone'

/-- A task that decodes stays in its prompt, whatever is sampled for it. -/
theorem entryFollows_generate (hdecodes : e.decodes = true) (it : Iteration) (id : ℤ)
    (memory : Memory) :
    EntryFollows batch e { e with task := (e.task.generate m it id memory).1 } where
  id := rfl
  prompt := SlotTask.prompt_generate it id memory
  decoding _ := (SlotTask.sampled_samples id).promptDone
  promptPos hprompt := by simp [hdecodes] at hprompt
  promptDone hprompt := by simp [hdecodes] at hprompt

/-- So does one whose draft is verified, once the draft is taken away. -/
theorem entryFollows_verify (hdecodes : e.decodes = true) (it : Iteration) (draft : List ℤ)
    (accepted : ℕ) (id : ℤ) (memory : Memory) :
    EntryFollows batch e
      { e with task := (e.task.verify m it draft accepted id memory).1, specDraft := [] } where
  id := rfl
  prompt := SlotTask.prompt_verify it draft accepted id memory
  decoding _ := (SlotTask.accept_accepts _).promptDone.trans hdecodes
  promptPos hprompt := by simp [hdecodes] at hprompt
  promptDone hprompt := by simp [hdecodes] at hprompt

end Follows

/-- As many turns in a row as there are tasks, with the same runnable tasks. -/
structure Window (m : LoadedModel) (env : BatchEnv) (turn : ℕ) (states : ℕ → List PoolEntry) :
    Prop where
  ids : ((states 0).map PoolEntry.id).Nodup
  runnable : ∀ k < (states 0).length, ∀ e ∈ states k, Runnable m env e
  follows : ∀ k, k + 1 < (states 0).length →
    ∃ batch, runBatch m env (turn + k) (states k) [] = some batch ∧
      List.Forall₂ (EntryFollows batch) (states k) (states (k + 1))

theorem exists_runBatch {m : LoadedModel} {env : BatchEnv} {tasks : List PoolEntry}
    (h : ∀ e ∈ tasks, Runnable m env e) (turn : ℕ) :
    ∃ batch, runBatch m env turn tasks [] = some batch := by
  unfold runBatch
  dsimp only
  rw [List.append_nil]
  exact buildBatch_text (fun e he => h e ((prepareBatchOrder_perm _ _ _).mem_iff.1 he)) _ _

namespace Window

variable {m : LoadedModel} {env : BatchEnv} {turn k i : ℕ} {states : ℕ → List PoolEntry}
  {e : PoolEntry} {batch : List Contribution}

theorem ids_eq (w : Window m env turn states) (hk : k < (states 0).length) :
    (states k).map PoolEntry.id = (states 0).map PoolEntry.id := by
  induction k with
  | zero => rfl
  | succ k ih =>
      obtain ⟨batch, -, hfollows⟩ := w.follows k hk
      rw [← ih (by omega)]
      symm
      rw [← List.forall₂_eq_eq_eq, List.forall₂_map_left_iff, List.forall₂_map_right_iff]
      exact hfollows.imp fun e e' h => h.id.symm

theorem length_eq (w : Window m env turn states) (hk : k < (states 0).length) :
    (states k).length = (states 0).length := by
  have hids := congrArg List.length (w.ids_eq hk)
  rwa [List.length_map, List.length_map] at hids

/-- The same task at the next turn. -/
theorem next (w : Window m env turn states) (hk : k + 1 < (states 0).length)
    (he : (states k)[i]? = some e) :
    ∃ batch e', runBatch m env (turn + k) (states k) [] = some batch ∧
      (states (k + 1))[i]? = some e' ∧ EntryFollows batch e e' := by
  obtain ⟨batch, hbatch, hfollows⟩ := w.follows k hk
  obtain ⟨hi, hget⟩ := List.getElem?_eq_some_iff.1 he
  have hi' : i < (states (k + 1)).length := by
    rw [← hfollows.length_eq]
    exact hi
  refine ⟨batch, _, hbatch, List.getElem?_eq_getElem hi', ?_⟩
  rw [← hget]
  exact (List.forall₂_iff_get.1 hfollows).2 i hi hi'

theorem decodes_stay (w : Window m env turn states) (he : (states 0)[i]? = some e)
    (hdecodes : e.decodes = true) (hk : k < (states 0).length) :
    ∃ e', (states k)[i]? = some e' ∧ e'.id = e.id ∧ e'.decodes = true := by
  induction k with
  | zero => exact ⟨e, he, rfl, hdecodes⟩
  | succ k ih =>
      obtain ⟨e₁, he₁, hid, hphase⟩ := ih (by omega)
      obtain ⟨batch, e₂, -, he₂, hfollows⟩ := w.next hk he₁
      exact ⟨e₂, he₂, hfollows.id.trans hid, hfollows.decoding hphase⟩

theorem taken_eq_zero (hbatch : runBatch m env (turn + k) (states k) [] = some batch)
    (h : ¬ Contributes m env (turn + k) (states k) e.id) : taken batch e.id = 0 := by
  have hnone : batch.filter (fun c => c.id == e.id) = [] := by
    rw [List.filter_eq_nil_iff]
    exact fun c hc hid => h ⟨batch, hbatch, c, hc, by simpa using hid⟩
  rw [taken, hnone]
  rfl

/-- A prompt of which no batch takes anything stays where it is. -/
theorem prompt_stays (w : Window m env turn states) (he : (states 0)[i]? = some e)
    (hprompt : e.decodes = false) (hk : k < (states 0).length)
    (hidle : ∀ j < k, ¬ Contributes m env (turn + j) (states j) e.id) :
    ∃ e', (states k)[i]? = some e' ∧ e'.id = e.id ∧ e'.decodes = false ∧
      e'.task.prompt = e.task.prompt ∧ e'.task.promptPos = e.task.promptPos := by
  induction k with
  | zero => exact ⟨e, he, rfl, hprompt, rfl, rfl⟩
  | succ k ih =>
      obtain ⟨e₁, he₁, hid, hphase, hsame, hpos⟩ := ih (by omega) fun j hj => hidle j (by omega)
      obtain ⟨batch, e₂, hbatch, he₂, hfollows⟩ := w.next hk he₁
      have hnone : taken batch e₁.id = 0 := by
        rw [hid]
        exact taken_eq_zero hbatch (hidle k (by omega))
      refine ⟨e₂, he₂, hfollows.id.trans hid, ?_, hfollows.prompt.trans hsame, ?_⟩
      · rw [Bool.eq_false_iff]
        intro hdecodes
        have hpositive := ((hfollows.promptDone hphase).1 hdecodes).1
        omega
      · rw [hfollows.promptPos hphase, hnone, hpos, Nat.add_zero]

/-- Some turn of the window puts the task first. -/
theorem exists_front (turn : ℕ) (he : (states 0)[i]? = some e) :
    ∃ k < (states 0).length, (turn + k) % (states 0).length = i := by
  obtain ⟨hi, -⟩ := List.getElem?_eq_some_iff.1 he
  have hlt := Nat.mod_lt turn (Nat.zero_lt_of_lt hi)
  have hdiv := Nat.div_add_mod turn (states 0).length
  refine ⟨(i + (states 0).length - turn % (states 0).length) % (states 0).length,
    Nat.mod_lt _ (Nat.zero_lt_of_lt hi), ?_⟩
  have hsum : turn + (i + (states 0).length - turn % (states 0).length) =
      i + (states 0).length * (turn / (states 0).length + 1) := by
    rw [Nat.mul_succ]
    omega
  rw [Nat.add_mod_mod, hsum, Nat.add_mul_mod_self_left, Nat.mod_eq_of_lt hi]

/-- Every task that decodes is in a batch of the window. -/
theorem decodes_contribute (w : Window m env turn states) (he : e ∈ states 0)
    (hdecodes : e.decodes = true) :
    ∃ k < (states 0).length, Contributes m env (turn + k) (states k) e.id := by
  obtain ⟨i, he⟩ := List.getElem?_of_mem he
  obtain ⟨k, hk, hfront⟩ := exists_front turn he
  obtain ⟨e', he', hid, hphase⟩ := w.decodes_stay he hdecodes hk
  obtain ⟨batch, hbatch⟩ := exists_runBatch (w.runnable k hk) (turn + k)
  rw [← w.length_eq hk] at hfront
  obtain ⟨c, hc, hcid⟩ := front_decodes (w.runnable k hk) he' hfront hphase hbatch
  exact ⟨k, hk, batch, hbatch, c, hc, hcid.trans hid⟩

/-- Where there is room in every turn, a prompt is in a batch of the window exactly if it has a
token left. -/
theorem prompt_contributes_iff (w : Window m env turn states)
    (hroom : ∀ k < (states 0).length, decodeTokens (states k) < m.nBatch) (he : e ∈ states 0)
    (hprompt : e.decodes = false) :
    (∃ k < (states 0).length, Contributes m env (turn + k) (states k) e.id) ↔
      e.task.promptPos < e.task.tokens.length := by
  obtain ⟨i, he⟩ := List.getElem?_of_mem he
  constructor
  · rintro ⟨k, hk, hcontributes⟩
    by_contra hleft
    -- nothing was taken before the first such batch, so nothing is left there either
    classical
    have hsome : ∃ j, j < (states 0).length ∧ Contributes m env (turn + j) (states j) e.id :=
      ⟨k, hk, hcontributes⟩
    obtain ⟨first, ⟨hfirst, hcontributes⟩, hmin⟩ :
        ∃ first, (first < (states 0).length ∧
          Contributes m env (turn + first) (states first) e.id) ∧
          ∀ j < first, ¬ (j < (states 0).length ∧
            Contributes m env (turn + j) (states j) e.id) :=
      ⟨Nat.find hsome, Nat.find_spec hsome, fun j hj => Nat.find_min hsome hj⟩
    obtain ⟨e', he', hid, hphase, hsame, hpos⟩ := w.prompt_stays he hprompt hfirst
      fun j hj hcontributes => hmin j hj ⟨by omega, hcontributes⟩
    obtain ⟨batch, hbatch, c, hc, hcid⟩ := hcontributes
    obtain ⟨e'', he'', -, hsuits⟩ := buildBatch_suits hbatch c hc
    rw [List.append_nil, (prepareBatchOrder_perm _ _ _).mem_iff] at he''
    have hnodup : ((states first).map PoolEntry.id).Nodup := by
      rw [w.ids_eq hfirst]
      exact w.ids
    obtain rfl : e'' = e' := List.inj_on_of_nodup_map hnodup he'' (List.mem_of_getElem? he')
      (hsuits.id.symm.trans (hcid.trans hid.symm))
    obtain ⟨t, ht, -, hne, hprefix⟩ := hsuits.prompt hphase
    rw [passMedia_text (w.runnable first hfirst e'' he'').text] at ht
    obtain rfl := Option.some.inj ht
    have hend : e''.task.tokens.length ≤ e''.task.promptPos := by
      rw [hpos, SlotTask.tokens, hsame]
      exact not_lt.1 hleft
    rw [List.drop_eq_nil_of_le hend] at hprefix
    exact hne (List.prefix_nil.1 hprefix)
  · intro hleft
    by_contra hnever
    obtain ⟨k, hk, hfront⟩ := exists_front turn he
    obtain ⟨e', he', hid, hphase, hsame, hpos⟩ := w.prompt_stays he hprompt hk
      fun j hj hcontributes => hnever ⟨j, by omega, hcontributes⟩
    obtain ⟨batch, hbatch⟩ := exists_runBatch (w.runnable k hk) (turn + k)
    rw [← w.length_eq hk] at hfront
    obtain ⟨c, hc, hcid⟩ := front_prompts (w.runnable k hk) he' hfront hphase
      (by rw [hpos, SlotTask.tokens, hsame]; exact hleft) (hroom k hk) hbatch
    exact hnever ⟨k, hk, batch, hbatch, c, hc, hcid.trans hid⟩

end Window

def LeavesRoom (m : LoadedModel) (states : ℕ → List PoolEntry) : Prop :=
  ∀ k < (states 0).length, decodeTokens (states k) < m.nBatch

def PromptsLeft (tasks : List PoolEntry) : Prop :=
  ∀ e ∈ tasks, e.decodes = false → e.task.promptPos < e.task.tokens.length

structure Fair (m : LoadedModel) (env : BatchEnv) (turn : ℕ) (states : ℕ → List PoolEntry) :
    Prop where
  decodes : ∀ e ∈ states 0, e.decodes = true →
    ∃ k < (states 0).length, Contributes m env (turn + k) (states k) e.id
  prompts : LeavesRoom m states → ∀ e ∈ states 0, e.decodes = false →
    ∃ k < (states 0).length, Contributes m env (turn + k) (states k) e.id

/-- Every batch keeps its bounds. A window of turns is fair exactly where every prompt has a token
left, or there is no room for prompts in some turn. -/
theorem batches_fair (m : LoadedModel) :
    (∀ env turn runnable others, BatchBounds m env turn runnable others) ∧
      ∀ env turn states, Window m env turn states →
        (Fair m env turn states ↔ (LeavesRoom m states → PromptsLeft (states 0))) := by
  refine ⟨batchBounds m, fun env turn states w => ⟨fun h hroom e he hprompt => ?_, fun h => ?_⟩⟩
  · exact (w.prompt_contributes_iff hroom he hprompt).1 (h.prompts hroom e he hprompt)
  · refine ⟨fun e he hdecodes => w.decodes_contribute he hdecodes, fun hroom e he hprompt => ?_⟩
    exact (w.prompt_contributes_iff hroom he hprompt).2 (h hroom e he hprompt)

def oneRequest (prompt : PreparedPrompt) : PoolEntry where
  id := 0
  task := { slotId := 0, prompt, lastPromptTokens := [], checkpoint := {}, mtpCacheSynced := true }

theorem window_oneRequest (prompt : PreparedPrompt) (hmedia : prompt.mediaChunks = []) (turn : ℕ) :
    Window Wrapper.textModel {} turn fun _ => [oneRequest prompt] where
  ids := List.nodup_singleton _
  runnable k _ e he := by
    rw [List.mem_singleton.1 he]
    have hrun : (oneRequest prompt).decodeRun.length = 1 := rfl
    have hbatch : Wrapper.textModel.nBatch = 512 := rfl
    exact ⟨hmedia, rfl, by omega⟩
  follows k hk := absurd hk (by simp)

def answering : PoolEntry where
  id := 1
  task :=
    { slotId := 1
      prompt := Wrapper.shortPrompt
      lastPromptTokens := []
      checkpoint := {}
      mtpCacheSynced := true
      initialized := true
      promptPos := 1
      promptDone := true
      nPos := 1
      nGenerated := 1
      lastToken := 5 }

def sharedBatch : List Contribution := [⟨1, [5], none⟩, ⟨0, [1], some 0⟩]

def sharedTurns : ℕ → List PoolEntry
  | 0 => [answering, oneRequest Wrapper.shortPrompt]
  | _ + 1 =>
      [{ answering with
          task := (answering.task.generate Wrapper.textModel { runnable := 2 } 7 {}).1 },
        { oneRequest Wrapper.shortPrompt with
          task := ((oneRequest Wrapper.shortPrompt).task.prefill Wrapper.textModel { runnable := 2 }
            511 {} 7 {}).1 }]

theorem window_sharedTurns : Window Wrapper.textModel {} 0 sharedTurns where
  ids := by decide
  runnable k hk e he := by
    have hbatch : Wrapper.textModel.nBatch = 512 := rfl
    have hshort : Wrapper.shortPrompt.mediaChunks = [] := rfl
    cases k with
    | zero =>
        rcases List.mem_cons.1 he with rfl | he
        · exact ⟨hshort, rfl, by decide⟩
        · obtain rfl := List.mem_singleton.1 he
          exact ⟨hshort, rfl, by decide⟩
    | succ k =>
        rcases List.mem_cons.1 he with rfl | he
        · exact ⟨hshort, rfl, by decide⟩
        · obtain rfl := List.mem_singleton.1 he
          exact ⟨hshort, rfl, by decide⟩
  follows k hk := by
    obtain rfl : k = 0 := by
      change k + 1 < 2 at hk
      omega
    refine ⟨sharedBatch, by decide +kernel, .cons ?_ (.cons ?_ .nil)⟩
    · exact entryFollows_generate rfl { runnable := 2 } 7 {}
    · exact entryFollows_prefill rfl { runnable := 2 } 511 {} 7 {} (by decide) (by decide)

/-- The request that decodes and the one with its prompt left both get their part of the batches. -/
theorem batches_fair_sharedTurns : Fair Wrapper.textModel {} 0 sharedTurns := by
  refine ((batches_fair Wrapper.textModel).2 {} 0 _ window_sharedTurns).2 fun _ e he hprompt => ?_
  rcases List.mem_cons.1 he with rfl | he
  · cases hprompt
  · obtain rfl := List.mem_singleton.1 he
    decide

/-- A request with an empty prompt gets nothing of a batch that has all its room. -/
theorem emptyPrompt_starves :
    Window Wrapper.textModel {} 0 (fun _ => [oneRequest nothingLeft]) ∧
      ¬ Fair Wrapper.textModel {} 0 fun _ => [oneRequest nothingLeft] := by
  have hwindow := window_oneRequest nothingLeft rfl 0
  refine ⟨hwindow, fun hfair => ?_⟩
  have hroom : LeavesRoom Wrapper.textModel fun _ => [oneRequest nothingLeft] := by
    intro k _
    show decodeTokens [oneRequest nothingLeft] < Wrapper.textModel.nBatch
    decide
  have hleft := (hwindow.prompt_contributes_iff hroom (List.mem_singleton_self _) rfl).1
    (hfair.prompts hroom _ (List.mem_singleton_self _) rfl)
  exact absurd hleft (lt_irrefl 0)

end InferDeck.LlamaWrapper.SlotCache
