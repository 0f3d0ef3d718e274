import InferDeck.ModelStoreBundles

/-!
# The preferred artifacts of the audio runtime

`preferred_ace_artifact` goes through a list of files and keeps the one that comes first by
quantisation, size and name. What it prefers is thus a least one of the verified files that play the
role, and its name depends on nothing but that.
-/

namespace InferDeck.Gateway.ModelStore

open InferDeck.Foundation

def aceRank (artifact name : String) (size : UInt64) : ℕ ×ₗ (ℕ ×ₗ String) :=
  toLex (acePriority artifact name, toLex (size.toNat, name))

/-- A verified file that plays the role, and that none of the others comes before. -/
structure AceChoice (artifact : String) (files : List StoreEntry) (file : StoreEntry) : Prop where
  mem : file ∈ files
  plays : isAceArtifact artifact file = true
  least : ∀ other ∈ files, isAceArtifact artifact other = true →
    aceRank artifact file.name file.size ≤ aceRank artifact other.name other.size

variable {artifact name : String} {files others : List StoreEntry} {file other : StoreEntry}

theorem aceRank_lt_iff {other : String} {size size' : UInt64} :
    aceRank artifact name size < aceRank artifact other size' ↔
      acePriority artifact name < acePriority artifact other ∨
        acePriority artifact name = acePriority artifact other ∧
          (size < size' ∨ size = size' ∧ name < other) := by
  simp only [aceRank, Prod.Lex.toLex_lt_toLex, UInt64.lt_iff_toNat_lt, UInt64.toNat_inj]

/-- What has been selected is a first one of the artifacts so far, if there are any. -/
def SelectedAmong (artifact : String) (files : List StoreEntry) : Option Selected → Prop
  | none => ∀ file ∈ files, isAceArtifact artifact file = false
  | some best => ∃ file, AceChoice artifact files file ∧
      best = ⟨file.name, acePriority artifact file.name, file.size⟩

theorem SelectedAmong.selectAce {selected : Option Selected}
    (h : SelectedAmong artifact files selected) :
    SelectedAmong artifact (files ++ [file]) (selectAce artifact selected file) := by
  by_cases hace : isAceArtifact artifact file = true
  · cases selected with
    | none =>
        have hselected : ModelStore.selectAce artifact none file =
            some ⟨file.name, acePriority artifact file.name, file.size⟩ := by
          simp [ModelStore.selectAce, hace]
        rw [hselected]
        refine ⟨file, ⟨by simp, hace, fun other hother hartifact => ?_⟩, rfl⟩
        obtain hother | hother := List.mem_append.1 hother
        · rw [h other hother] at hartifact
          cases hartifact
        · rw [List.mem_singleton.1 hother]
    | some best =>
        obtain ⟨first, hchoice, rfl⟩ := h
        have hselected : ModelStore.selectAce artifact
            (some ⟨first.name, acePriority artifact first.name, first.size⟩) file =
            if aceRank artifact file.name file.size < aceRank artifact first.name first.size then
              some ⟨file.name, acePriority artifact file.name, file.size⟩
            else some ⟨first.name, acePriority artifact first.name, first.size⟩ := by
          simp only [ModelStore.selectAce, hace, aceRank_lt_iff, Bool.not_true,
            Bool.false_eq_true, if_false]
        rw [hselected]
        by_cases hbefore : aceRank artifact file.name file.size <
            aceRank artifact first.name first.size
        · rw [if_pos hbefore]
          refine ⟨file, ⟨by simp, hace, fun other hother hartifact => ?_⟩, rfl⟩
          obtain hother | hother := List.mem_append.1 hother
          · exact hbefore.le.trans (hchoice.least other hother hartifact)
          · rw [List.mem_singleton.1 hother]
        · rw [if_neg hbefore]
          refine ⟨first, ⟨by simp [hchoice.mem], hchoice.plays, fun other hother hartifact => ?_⟩,
            rfl⟩
          obtain hother | hother := List.mem_append.1 hother
          · exact hchoice.least other hother hartifact
          · rw [List.mem_singleton.1 hother]
            exact not_lt.1 hbefore
  · have hselected : ModelStore.selectAce artifact selected file = selected := by
      simp [ModelStore.selectAce, hace]
    rw [hselected]
    cases selected with
    | none =>
        intro other hother
        obtain hother | hother := List.mem_append.1 hother
        · exact h other hother
        · rw [List.mem_singleton.1 hother]
          exact Bool.eq_false_iff.2 hace
    | some best =>
        obtain ⟨first, hchoice, rfl⟩ := h
        refine ⟨first, ⟨by simp [hchoice.mem], hchoice.plays, fun other hother hartifact => ?_⟩,
          rfl⟩
        obtain hother | hother := List.mem_append.1 hother
        · exact hchoice.least other hother hartifact
        · rw [List.mem_singleton.1 hother] at hartifact
          exact absurd hartifact hace

theorem selectedAmong_foldl (artifact : String) (files : List StoreEntry) :
    SelectedAmong artifact files (files.foldl (selectAce artifact) none) := by
  induction files using List.reverseRecOn with
  | nil => simp [SelectedAmong]
  | append_singleton files file ih =>
      rw [List.foldl_append, List.foldl_cons, List.foldl_nil]
      exact ih.selectAce

/-- Two first ones have one name and one size. -/
theorem AceChoice.unique (h : AceChoice artifact files file) (h' : AceChoice artifact files other) :
    file.name = other.name ∧ file.size = other.size := by
  have hrank := le_antisymm (h.least other h'.mem h'.plays) (h'.least file h.mem h.plays)
  simp only [aceRank, toLex_inj, Prod.mk.injEq, UInt64.toNat_inj] at hrank
  exact ⟨hrank.2.2, hrank.2.1⟩

theorem preferred_eq_none_iff : preferredAceArtifact files artifact = none ↔
    ∀ file ∈ files, isAceArtifact artifact file = false := by
  have h := selectedAmong_foldl artifact files
  rw [preferredAceArtifact, Option.map_eq_none_iff]
  cases hselected : files.foldl (selectAce artifact) none with
  | none =>
      rw [hselected] at h
      exact iff_of_true rfl h
  | some best =>
      rw [hselected] at h
      obtain ⟨first, hchoice, -⟩ := h
      refine iff_of_false (by simp) fun hnone => ?_
      have hartifact := hchoice.plays
      rw [hnone first hchoice.mem] at hartifact
      cases hartifact

/-- The name that is preferred is that of a first artifact. -/
theorem preferred_eq_some_iff : preferredAceArtifact files artifact = some name ↔
    ∃ file, AceChoice artifact files file ∧ file.name = name := by
  have h := selectedAmong_foldl artifact files
  rw [preferredAceArtifact]
  cases hselected : files.foldl (selectAce artifact) none with
  | none =>
      rw [hselected] at h
      refine iff_of_false (by simp) ?_
      rintro ⟨file, hchoice, -⟩
      have hartifact := hchoice.plays
      rw [h file hchoice.mem] at hartifact
      cases hartifact
  | some best =>
      rw [hselected] at h
      obtain ⟨first, hchoice, rfl⟩ := h
      rw [Option.map_some, Option.some.injEq]
      constructor
      · rintro rfl
        exact ⟨first, hchoice, rfl⟩
      · rintro ⟨file, hchoice', rfl⟩
        exact (hchoice.unique hchoice').1

theorem exists_choice (h : isAceArtifact artifact file = true) (hmem : file ∈ files) :
    ∃ first, AceChoice artifact files first := by
  cases hpreferred : preferredAceArtifact files artifact with
  | none =>
      rw [preferred_eq_none_iff.1 hpreferred file hmem] at h
      cases h
  | some name =>
      obtain ⟨first, hchoice, -⟩ := preferred_eq_some_iff.1 hpreferred
      exact ⟨first, hchoice⟩

/-- A first artifact stays so beside files that are none, or that do not come before it. -/
theorem choice_append_iff (hmem : file ∈ files) : AceChoice artifact (files ++ others) file ↔
    AceChoice artifact files file ∧ ∀ other ∈ others, isAceArtifact artifact other = true →
      aceRank artifact file.name file.size ≤ aceRank artifact other.name other.size := by
  constructor
  · intro h
    exact ⟨⟨hmem, h.plays, fun other hother => h.least other (List.mem_append_left _ hother)⟩,
      fun other hother => h.least other (List.mem_append_right _ hother)⟩
  · rintro ⟨h, hothers⟩
    refine ⟨List.mem_append_left _ hmem, h.plays, fun other hother hartifact => ?_⟩
    obtain hother | hother := List.mem_append.1 hother
    · exact h.least other hother hartifact
    · exact hothers other hother hartifact

end InferDeck.Gateway.ModelStore
