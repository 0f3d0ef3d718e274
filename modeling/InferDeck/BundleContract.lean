import InferDeck.AceBundles

/-!
# Listed bundles against resolved ones

Listing and resolution treat the bundles of a repository alike exactly when each of its three kinds
is settled.
-/

namespace InferDeck.Gateway.ModelStore

open InferDeck.Foundation

structure BundlesSettled (repo : String) (details : Details) : Prop where
  sherpa : SherpaSettled (inferModality "sherpa_onnx" details.pipeline)
    (sherpaFiles (fileEntries repo details))
  ltx : PartsSettled (ltxFiles (fileEntries repo details)) LtxRoles LtxRoles
  ace : ∀ dit ∈ aceDits (fileEntries repo details), AceSettled (fileEntries repo details) dit

/-- Listing and resolution treat every bundle of a repository alike exactly when each of its three
kinds is settled. -/
theorem bundles_agree_iff (repo : String) (details : Details) :
    BundlesAgree repo details ↔ (validRepo repo = true → BundlesSettled repo details) := by
  by_cases hrepo : validRepo repo = true
  · have hinspect : inspect repo (.ok details) = .ok (listing repo details) := by
      simp [inspect, hrepo, Except.map]
    have hagree : BundlesAgree repo details ↔
        ∀ entry ∈ listing repo details, ∀ count, entry.artifactCount = some count →
          EntryAgrees repo details entry count := by
      simp only [BundlesAgree, hinspect, Except.ok.injEq, forall_eq']
    have hfiles : ∀ entry ∈ fileEntries repo details, ∀ count, entry.artifactCount = some count →
        EntryAgrees repo details entry count := by
      intro entry hentry count hcount
      rw [(fileEntry_spec hentry).2.1] at hcount
      cases hcount
    have haces : (∀ entry ∈ (aceDits (fileEntries repo details)).map
          (aceBundle (singleBundles repo details)),
        ∀ count, entry.artifactCount = some count → EntryAgrees repo details entry count) ↔
        ∀ dit ∈ aceDits (fileEntries repo details), AceSettled (fileEntries repo details) dit := by
      rw [List.forall_mem_map]
      refine forall₂_congr fun dit hdit => ?_
      rw [← aceAgrees_iff hrepo hdit]
      simp only [aceBundle, Option.some.injEq, forall_eq']
    rw [hagree, forall_prop_of_true hrepo, listing, singleBundles, ← singleBundles,
      aceDits_singleBundles]
    simp only [singleBundles, List.forall_mem_append] at haces ⊢
    rw [haces, sherpaAgree_iff hrepo, ltxAgree_iff hrepo]
    constructor
    · rintro ⟨⟨⟨-, hsherpa⟩, hltx⟩, hace⟩
      exact ⟨hsherpa, hltx, hace⟩
    · rintro ⟨hsherpa, hltx, hace⟩
      exact ⟨⟨⟨hfiles, hsherpa⟩, hltx⟩, hace⟩
  · refine iff_of_true (fun files hfiles => ?_) fun h => absurd h hrepo
    simp [inspect, hrepo, err] at hfiles

/-- A verified encoder, decoder, joiner and tokens file, and a further encoder without a sum. -/
def speechRepository : Details where
  pipeline := "automatic-speech-recognition"
  tags := "[]"
  siblings :=
    let sum := "0123456789abcdef0123456789abcdef0123456789abcdef0123456789abcdef"
    let verified := fun name => { rfilename := name, size := some (.inr 1), lfsSha256 := sum }
    [verified "encoder.onnx", verified "decoder.onnx", verified "joiner.onnx",
      verified "tokens.txt", { rfilename := "encoder.int8.onnx", size := some (.inr 1) }]

/-- The list calls the bundle incompatible, and resolution finds the four files. -/
theorem extra_encoder_mismatch : ¬BundlesAgree "org/speech" speechRepository := by
  intro h
  have hlisted : ∃ entry ∈ listing "org/speech" speechRepository,
      entry.artifactCount = some 5 ∧ entry.compatible = false ∧ entry.name = sherpaBundleName ∧
        entry.runtime = "sherpa_onnx" ∧ entry.modality = "audio_transcription" := by
    decide +kernel
  obtain ⟨entry, hentry, hcount, hcompatible, hname, hruntime, hmodality⟩ := hlisted
  have hsucceeds := (h _ rfl entry hentry 5 hcount).succeeds
  rw [hname, hruntime, hmodality, hcompatible] at hsucceeds
  have hresolved : (resolveBundle "sherpa_onnx" "audio_transcription" "org/speech"
      (.ok speechRepository) sherpaBundleName).isOk = true := by
    decide +kernel
  cases hresult : resolveBundle "sherpa_onnx" "audio_transcription" "org/speech"
      (.ok speechRepository) sherpaBundleName with
  | error refusal =>
      rw [hresult] at hresolved
      cases hresolved
  | ok artifacts => cases hsucceeds.1 ⟨artifacts, hresult⟩

end InferDeck.Gateway.ModelStore
