import Mathlib.Tactic

/-!
# Files that are deleted after a save

Files are written, published, retired and, once a snapshot of what is published has been saved,
deleted. The saved history is to name existing files only, and a file is to be deleted only where
it is not published and a history without it has been saved since it was retired.

A file that is written for a publication to come is `held`. Where the publication fails, the file
is `doomed`: it is removed without a save. One save runs at a time. It takes the files that are
retired, and deletes those that its snapshot does not name.
-/

namespace InferDeck.Retention

variable {α : Type*}

/-- Where a save is: with the snapshot and what is left of the files that it has taken. -/
inductive Phase (α : Type*) where
  | saving (snapshot taken : Set α)
  | deleting (snapshot taken : Set α)

namespace Phase

/-- What the save would delete. -/
def condemned : Phase α → Set α
  | saving snapshot taken | deleting snapshot taken => taken \ snapshot

/-- What has been taken, but no history has been saved since. -/
def unsaved : Phase α → Set α
  | saving _ taken => taken
  | deleting _ _ => ∅

end Phase

structure View (α : Type*) where
  files : Set α
  live : Set α
  held : Set α
  doomed : Set α
  retired : Set α
  history : Set α
  phase : Option (Phase α)

namespace View

variable (v : View α)

/-- Retired, with no history saved since. -/
def pending : Set α := v.retired ∪ v.phase.elim ∅ Phase.unsaved

def condemned : Set α := v.phase.elim ∅ Phase.condemned

/-- The file may be removed. -/
structure Removable (p : α) : Prop where
  live : p ∉ v.live
  history : p ∉ v.history
  pending : p ∉ v.pending

structure Safe : Prop where
  live : v.live ⊆ v.files
  held : v.held ⊆ v.files
  history : v.history ⊆ v.files
  kept : v.history ⊆ v.live ∪ v.pending
  snapshot : ∀ snapshot taken, v.phase = some (.saving snapshot taken) →
    snapshot ⊆ v.files ∧ snapshot ⊆ v.live ∪ v.retired
  saved : ∀ snapshot taken, v.phase = some (.deleting snapshot taken) → v.history = snapshot
  condemned : ∀ p ∈ v.condemned, p ∉ v.live ∧ p ∉ v.held ∧ p ∉ v.retired
  doomed : ∀ p ∈ v.doomed, p ∉ v.live ∧ p ∉ v.held ∧ p ∉ v.pending

variable {v} {v' : View α} {p : α} {snapshot taken : Set α}

/-- What is held is published, what was published is retired. -/
structure Publishes (v v' : View α) : Prop where
  files : v'.files = v.files
  history : v'.history = v.history
  phase : v'.phase = v.phase
  live : v'.live ⊆ v.live ∪ v.held
  held : v'.held ⊆ v.held
  doomed : v'.doomed ⊆ v.doomed
  stays : v.live ⊆ v'.live ∪ v'.retired
  retired : v.retired ⊆ v'.retired
  retires : v'.retired ⊆ v.retired ∪ v.live

theorem Publishes.pending (h : v.Publishes v') : v.pending ⊆ v'.pending := by
  rw [View.pending, View.pending, h.phase]
  exact Set.union_subset_union_left _ h.retired

theorem Publishes.pending_of (h : v.Publishes v') : v'.pending ⊆ v.pending ∪ v.live := by
  rw [View.pending, View.pending, h.phase]
  intro p hp
  rcases hp with hp | hp
  · exact (h.retires hp).imp_left .inl
  · exact .inl (.inr hp)

theorem Safe.publishes (h : v.Safe) (hstep : v.Publishes v') : v'.Safe := by
  have hlive : v'.live ⊆ v.files := hstep.live.trans (Set.union_subset h.live h.held)
  refine ⟨?_, ?_, ?_, ?_, fun s t hphase => ?_, fun s t hphase => ?_, fun p hp => ?_, fun p hp => ?_⟩
  · rw [hstep.files]
    exact hlive
  · rw [hstep.files]
    exact hstep.held.trans h.held
  · rw [hstep.files, hstep.history]
    exact h.history
  · rw [hstep.history]
    intro p hp
    rcases h.kept hp with hp | hp
    · exact (hstep.stays hp).imp_right .inl
    · exact .inr (hstep.pending hp)
  · obtain ⟨hfiles, hkept⟩ := h.snapshot s t (hstep.phase ▸ hphase)
    refine ⟨hstep.files ▸ hfiles, fun p hp => ?_⟩
    rcases hkept hp with hp | hp
    · exact hstep.stays hp
    · exact .inr (hstep.retired hp)
  · exact hstep.history ▸ h.saved s t (hstep.phase ▸ hphase)
  · rw [View.condemned, hstep.phase] at hp
    obtain ⟨hpl, hph, hpr⟩ := h.condemned p hp
    refine ⟨fun hp => (hstep.live hp).elim hpl hph, fun hp => hph (hstep.held hp), fun hp => ?_⟩
    exact (hstep.retires hp).elim hpr hpl
  · obtain ⟨hpl, hph, hpr⟩ := h.doomed p (hstep.doomed hp)
    refine ⟨fun hp => (hstep.live hp).elim hpl hph, fun hp => hph (hstep.held hp), fun hp => ?_⟩
    exact (hstep.pending_of hp).elim hpr hpl

/-- A file is written that the running save does not delete and that no failed publication is about
to remove. -/
theorem Safe.create (h : v.Safe) {files : Set α} (held doomed : Set α)
    (hfiles : files = insert p v.files) (hheld : held ⊆ insert p v.held) (hdoomed : doomed ⊆ v.doomed) (hcondemned : p ∉ v.condemned)
    (hfree : p ∉ v.doomed) : { v with files, held, doomed }.Safe := by
  subst hfiles
  have hold {q : α} (hq : q ∈ held) (hne : q ≠ p) : q ∈ v.held := (hheld hq).resolve_left hne
  refine ⟨?_, ?_, ?_, h.kept, fun s t hphase => ?_, h.saved, fun q hq => ?_, fun q hq => ?_⟩
  · exact h.live.trans (Set.subset_insert _ _)
  · exact hheld.trans (Set.insert_subset_insert h.held)
  · exact h.history.trans (Set.subset_insert _ _)
  · exact ⟨(h.snapshot s t hphase).1.trans (Set.subset_insert _ _), (h.snapshot s t hphase).2⟩
  · obtain ⟨hl, hh, hr⟩ := h.condemned q hq
    exact ⟨hl, fun hq' => hh (hold hq' fun heq => hcondemned (heq ▸ hq)), hr⟩
  · obtain ⟨hl, hh, hr⟩ := h.doomed q (hdoomed hq)
    exact ⟨hl, fun hq' => hh (hold hq' fun heq => hfree (heq ▸ hdoomed hq)), hr⟩

/-- A publication fails. None of its files is published, or retired without a save. -/
theorem Safe.fails (h : v.Safe) (held doomed created : Set α) (hheld : held ⊆ v.held)
    (hdoomed : doomed ⊆ v.doomed ∪ created)
    (hcreated : ∀ p ∈ created, p ∉ v.live ∧ p ∉ held ∧ p ∉ v.pending) :
    { v with held, doomed }.Safe := by
  refine ⟨h.live, hheld.trans h.held, h.history, h.kept, h.snapshot, h.saved, fun q hq => ?_,
    fun q hq => ?_⟩
  · obtain ⟨hl, hh, hr⟩ := h.condemned q hq
    exact ⟨hl, fun hq' => hh (hheld hq'), hr⟩
  · rcases hdoomed hq with hq | hq
    · obtain ⟨hl, hh, hr⟩ := h.doomed q hq
      exact ⟨hl, fun hq' => hh (hheld hq'), hr⟩
    · exact hcreated q hq

theorem Safe.removable_of_doomed (h : v.Safe) (hp : p ∈ v.doomed) : v.Removable p := by
  obtain ⟨hl, -, hr⟩ := h.doomed p hp
  exact ⟨hl, fun hhistory => (h.kept hhistory).elim hl hr, hr⟩

theorem Safe.unwind (h : v.Safe) (hp : p ∈ v.doomed) (files held doomed : Set α)
    (hfiles : files = v.files \ {p}) (hheld : held ⊆ v.held) (hdoomed : doomed ⊆ v.doomed) :
    { v with files, held, doomed }.Safe := by
  subst hfiles
  have hremovable := h.removable_of_doomed hp
  have hnot {q : α} (hq : q ∉ v.held) : q ∉ held := fun hq' => hq (hheld hq')
  refine ⟨?_, ?_, ?_, h.kept, fun s t hphase => ?_, h.saved, fun q hq => ?_, fun q hq => ?_⟩
  · exact Set.subset_sdiff_singleton h.live hremovable.live
  · exact Set.subset_sdiff_singleton (hheld.trans h.held) (hnot (h.doomed p hp).2.1)
  · exact Set.subset_sdiff_singleton h.history hremovable.history
  · obtain ⟨hfiles, hkept⟩ := h.snapshot s t hphase
    refine ⟨Set.subset_sdiff_singleton hfiles fun hps => ?_, hkept⟩
    exact (hkept hps).elim hremovable.live fun hpr => hremovable.pending (.inl hpr)
  · obtain ⟨hl, hh, hr⟩ := h.condemned q hq
    exact ⟨hl, hnot hh, hr⟩
  · obtain ⟨hl, hh, hr⟩ := h.doomed q (hdoomed hq)
    exact ⟨hl, hnot hh, hr⟩

/-- A save starts. No file that is retired, and not published, is held. -/
theorem Safe.takes (h : v.Safe) (hphase : v.phase = none) (snapshot retired : Set α)
    (hretired : retired = ∅) (hsnapshot : snapshot = v.live) (hheld : ∀ p ∈ v.retired, p ∉ v.live → p ∉ v.held) :
    { v with retired, phase := some (.saving snapshot v.retired) }.Safe := by
  subst hretired hsnapshot
  have hpending : v.pending = v.retired := by simp [View.pending, hphase]
  refine ⟨h.live, h.held, h.history, ?_, fun s t heq => ?_, fun s t heq => ?_, fun q hq => ?_,
    fun q hq => ?_⟩
  · simpa [View.pending, Phase.unsaved, hphase] using h.kept
  · rw [Option.some.injEq, Phase.saving.injEq] at heq
    exact ⟨heq.1 ▸ h.live, heq.1 ▸ Set.subset_union_left⟩
  · cases heq
  · exact ⟨hq.2, hheld q hq.1 hq.2, Set.notMem_empty q⟩
  · simpa [View.pending, Phase.unsaved, hphase] using h.doomed q hq

theorem Safe.saves (h : v.Safe) (hphase : v.phase = some (.saving snapshot taken)) :
    { v with history := snapshot, phase := some (.deleting snapshot taken) }.Safe := by
  obtain ⟨hfiles, hkept⟩ := h.snapshot snapshot taken hphase
  refine ⟨h.live, h.held, hfiles, ?_, fun s t heq => ?_, fun s t heq => ?_, fun q hq => ?_,
    fun q hq => ?_⟩
  · simpa [View.pending, Phase.unsaved] using hkept
  · cases heq
  · rw [Option.some.injEq, Phase.deleting.injEq] at heq
    exact heq.1
  · exact h.condemned q (by rw [View.condemned, hphase]; exact hq)
  · obtain ⟨hl, hh, hr⟩ := h.doomed q hq
    refine ⟨hl, hh, fun hpending => hr (.inl ?_)⟩
    simpa [View.pending, Phase.unsaved] using hpending

/-- The save fails, and the files that it took are retired again. -/
theorem Safe.givesBack (h : v.Safe) (hphase : v.phase = some (.saving snapshot taken))
    {retired : Set α} (hretired : retired = v.retired ∪ taken) :
    { v with retired, phase := none }.Safe := by
  subst hretired
  have hpending : v.pending = v.retired ∪ taken := by
    rw [View.pending, hphase]
    rfl
  refine ⟨h.live, h.held, h.history, ?_, fun s t heq => ?_, fun s t heq => ?_,
    fun q hq => absurd hq (Set.notMem_empty q), fun q hq => ?_⟩
  · have hkept := h.kept
    rw [hpending] at hkept
    simpa [View.pending] using hkept
  · cases heq
  · cases heq
  · have hdoomed := h.doomed q hq
    rw [hpending] at hdoomed
    simpa [View.pending] using hdoomed

theorem Safe.removable_of_condemned (h : v.Safe)
    (hphase : v.phase = some (.deleting snapshot taken)) (hp : p ∈ taken) (hnew : p ∉ snapshot) :
    v.Removable p := by
  have hcondemned : p ∈ v.condemned := by
    rw [View.condemned, hphase]
    exact ⟨hp, hnew⟩
  obtain ⟨hl, -, hr⟩ := h.condemned p hcondemned
  refine ⟨hl, h.saved snapshot taken hphase ▸ hnew, ?_⟩
  simpa [View.pending, hphase, Phase.unsaved] using hr

/-- The save goes on: it leaves a file that the snapshot names, and deletes another. -/
theorem Safe.deletes (h : v.Safe) (hphase : v.phase = some (.deleting snapshot taken))
    {files : Set α} (rest : Set α) (hrest : rest ⊆ taken)
    (hfiles : files = v.files ∨ ∃ p ∈ taken, p ∉ snapshot ∧ files = v.files \ {p}) :
    { v with files, phase := some (.deleting snapshot rest) }.Safe := by
  have hcondemned {q : α} (hq : q ∈ rest \ snapshot) : q ∈ v.condemned := by
    rw [View.condemned, hphase]
    exact ⟨hrest hq.1, hq.2⟩
  have hpending : v.pending = v.retired := by simp [View.pending, hphase, Phase.unsaved]
  have hstays {s : Set α} (hs : s ⊆ v.files)
      (hnot : ∀ p ∈ taken, p ∉ snapshot → p ∉ s) : s ⊆ files := by
    rcases hfiles with rfl | ⟨p, hp, hnew, rfl⟩
    · exact hs
    · exact Set.subset_sdiff_singleton hs (hnot p hp hnew)
  have hcond {p : α} (hp : p ∈ taken) (hnew : p ∉ snapshot) := h.condemned p (by
    rw [View.condemned, hphase]
    exact ⟨hp, hnew⟩)
  refine ⟨?_, ?_, ?_, ?_, fun s t heq => ?_, fun s t heq => ?_, fun q hq => ?_, fun q hq => ?_⟩
  · exact hstays h.live fun p hp hnew => (hcond hp hnew).1
  · exact hstays h.held fun p hp hnew => (hcond hp hnew).2.1
  · exact hstays h.history fun p hp hnew => (h.removable_of_condemned hphase hp hnew).history
  · simpa [View.pending, Phase.unsaved, hphase] using h.kept
  · cases heq
  · rw [Option.some.injEq, Phase.deleting.injEq] at heq
    exact heq.1 ▸ h.saved snapshot taken hphase
  · exact h.condemned q (hcondemned hq)
  · simpa [View.pending, Phase.unsaved, hphase] using h.doomed q hq

theorem Safe.ends (h : v.Safe) (hphase : v.phase = some (.deleting snapshot taken)) :
    { v with phase := none }.Safe := by
  refine ⟨h.live, h.held, h.history, ?_, fun s t heq => ?_, fun s t heq => ?_,
    fun q hq => absurd hq (Set.notMem_empty q), fun q hq => ?_⟩
  · simpa [View.pending, Phase.unsaved, hphase] using h.kept
  · cases heq
  · cases heq
  · simpa [View.pending, Phase.unsaved, hphase] using h.doomed q hq

end View

end InferDeck.Retention
