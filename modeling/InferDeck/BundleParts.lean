import InferDeck.ModelStoreBundles

/-!
# The parts of a bundle

Both the list and resolution filter the same files. The list of a bundle takes every file of the
runtime, while resolution takes those that are verified and whose name no bundle may have. That
decides the speech and the video runtime, of which a repository has one bundle each.
-/

namespace InferDeck.Gateway.ModelStore

open InferDeck.Foundation

/-! ### Agreement -/

variable {repo : String} {details : Details} {files parts : List StoreEntry} {file dit : StoreEntry}

def byteTotal (files : List StoreEntry) : ℕ := (files.map fun file => file.size.toNat).sum

/-- Resolving a listed bundle succeeds when its entry is compatible, and gives what it counts. -/
structure EntryAgrees (repo : String) (details : Details) (entry : StoreEntry) (count : ℕ) :
    Prop where
  succeeds : (∃ artifacts, resolveBundle entry.runtime entry.modality repo (.ok details)
    entry.name = .ok artifacts) ↔ entry.compatible = true
  counted : ∀ artifacts, resolveBundle entry.runtime entry.modality repo (.ok details)
    entry.name = .ok artifacts → artifacts.length = count ∧
      (artifacts.map fun artifact => artifact.size.toNat).sum = entry.size.toNat

def BundlesAgree (repo : String) (details : Details) : Prop :=
  ∀ files, inspect repo (.ok details) = .ok files →
    ∀ entry ∈ files, ∀ count, entry.artifactCount = some count →
      EntryAgrees repo details entry count

/-! ### When they agree -/

/-- A verified file with a name of its own. -/
def installable (file : StoreEntry) : Bool := file.compatible && !reservedName file.name

/-- The files of a bundle are all installable and fit into the size of its entry, or neither all of
them nor those that are installable make a bundle. -/
structure PartsSettled (parts : List StoreEntry) (listed found : List StoreEntry → Prop) :
    Prop where
  whole : (∀ file ∈ parts, installable file = true) →
    (found parts ↔ listed parts) ∧ (listed parts → byteTotal parts < 2 ^ 64)
  partly : (∃ file ∈ parts, installable file = false) →
    ¬found (parts.filter installable) ∧
      ¬((∀ file ∈ parts, file.compatible = true) ∧ listed parts)

/-- The roles that the files of a bundle play. -/
def roles (modality : String) (parts : List StoreEntry) : List String :=
  parts.flatMap (sherpaKeys modality)

def RolesListed (modality : String) (parts : List StoreEntry) : Prop :=
  if modality = "audio_transcription" then asrKeys ⊆ roles modality parts
  else if "duration_predictor" ∈ roles modality parts ∨ "text_encoder" ∈ roles modality parts ∨
      "vector_estimator" ∈ roles modality parts then supertonicKeys ⊆ roles modality parts
  else ttsKeys ⊆ roles modality parts

/-- The roles that make a resolved bundle complete. -/
def RolesFound (modality : String) (parts : List StoreEntry) : Prop :=
  2 ≤ parts.length ∧
    if modality = "audio_transcription" then asrKeys ⊆ roles modality parts
    else if "duration_predictor" ∈ roles modality parts ∨ "vector_estimator" ∈ roles modality parts
    then supertonicKeys ⊆ roles modality parts
    else ttsKeys ⊆ roles modality parts

/-- A speech bundle with a model and its tokens that only one side takes: a text encoder is beside
them, or one file plays both roles. -/
def SpeechMismatch (modality : String) (parts : List StoreEntry) : Prop :=
  modality = "audio_speech" ∧ ttsKeys ⊆ roles modality parts ∧
    "duration_predictor" ∉ roles modality parts ∧ "vector_estimator" ∉ roles modality parts ∧
    ("text_encoder" ∈ roles modality parts ↔ 2 ≤ parts.length)

structure SherpaSettled (modality : String) (parts : List StoreEntry) : Prop where
  whole : (∀ file ∈ parts, installable file = true) →
    ¬SpeechMismatch modality parts ∧ (RolesListed modality parts → byteTotal parts < 2 ^ 64)
  partly : (∃ file ∈ parts, installable file = false) →
    ¬RolesFound modality (parts.filter installable) ∧
      ¬((∀ file ∈ parts, file.compatible = true) ∧ RolesListed modality parts)

/-- The five files of the video runtime, one of each role. -/
def LtxRoles (parts : List StoreEntry) : Prop :=
  ltxKeys ⊆ parts.map (fun file => ltxArtifactKey file.name) ∧ parts.length = 5

/-! ### Sizes -/

theorem totalSize_toNat (files : List StoreEntry) :
    (totalSize files).toNat = byteTotal files % 2 ^ 64 := by
  induction files with
  | nil => rfl
  | cons file files ih =>
      have hcons : totalSize (file :: files) = file.size + totalSize files := by
        simp [totalSize]
      have htotal : byteTotal (file :: files) = file.size.toNat + byteTotal files := by
        simp [byteTotal]
      rw [hcons, UInt64.toNat_add, ih, htotal, Nat.add_mod_mod]

theorem byteTotal_perm {others : List StoreEntry} (h : files.Perm others) :
    byteTotal files = byteTotal others :=
  (h.map _).sum_eq

theorem sum_storeFile (files : List StoreEntry) :
    ((files.map StoreEntry.storeFile).map fun artifact => artifact.size.toNat).sum =
      byteTotal files := by
  simp [byteTotal, StoreEntry.storeFile, Function.comp_def]

/-- Two filters that no file passes both part what passes one of them. -/
theorem filter_or_perm {p q : StoreEntry → Bool} (files : List StoreEntry)
    (h : ∀ file ∈ files, p file = true → q file = false) :
    (files.filter fun file => p file || q file).Perm (files.filter p ++ files.filter q) := by
  induction files with
  | nil => exact List.Perm.refl []
  | cons file files ih =>
      have hrest := ih fun other hother => h other (List.mem_cons_of_mem file hother)
      by_cases hp : p file = true
      · have hq : q file = false := h file (by simp) hp
        simpa [List.filter_cons, hp, hq] using hrest.cons file
      · by_cases hq : q file = true
        · simp only [List.filter_cons, hp, hq, Bool.or_true, if_true, Bool.false_eq_true, if_false]
          exact (hrest.cons file).trans List.perm_middle.symm
        · simpa [List.filter_cons, hp, hq] using hrest

/-! ### The files of the list -/

theorem fileEntry_spec (h : file ∈ fileEntries repo details) :
    file.modality = inferModality file.runtime details.pipeline ∧ file.artifactCount = none ∧
      (file.compatible = true → file.size ≠ 0 ∧ file.sha256.utf8ByteSize = 64) := by
  obtain ⟨sibling, -, hsibling⟩ := List.mem_filterMap.1 h
  simp only [fileEntry] at hsibling
  split at hsibling
  · cases hsibling
  split at hsibling
  · cases hsibling
  obtain rfl := Option.some.inj hsibling
  refine ⟨rfl, rfl, fun hcompatible => ?_⟩
  simp only [Bool.and_eq_true, decide_eq_true_eq, beq_iff_eq] at hcompatible
  exact ⟨(UInt64.ne_of_lt hcompatible.1).symm, hcompatible.2⟩

theorem isAceStepBundle_name (name : String) :
    isAceStepBundle (aceStepBundleName name) = true := by
  simp [isAceStepBundle, startsWith, aceStepBundleName]

theorem aceStepBundleDit_name {name : String} (hvalid : validArtifactPath name = true)
    (hkey : artifactKey name = "dit") : aceStepBundleDit (aceStepBundleName name) = some name := by
  have hdrop : String.ofList ((aceStepBundleName name).toList.drop
      aceStepBundlePrefix.toList.length) = name := by
    simp [aceStepBundleName]
  simp only [aceStepBundleDit, isAceStepBundle_name, hdrop, hvalid, hkey]
  simp

theorem reservedName_aceBundle (name : String) : reservedName (aceStepBundleName name) = true := by
  simp [reservedName, isAceStepBundle_name]

theorem mem_sherpaBundle (h : file ∈ sherpaBundle details files) :
    file.name = sherpaBundleName ∧ file.runtime = "sherpa_onnx" := by
  simp only [sherpaBundle] at h
  split at h
  · cases h
  · obtain rfl := List.mem_singleton.1 h
    exact ⟨rfl, rfl⟩

theorem mem_ltxBundle (h : file ∈ ltxBundle files) :
    file.name = ltxBundleName ∧ file.runtime = "ltx_video_cpp" := by
  simp only [ltxBundle] at h
  split at h
  · cases h
  · obtain rfl := List.mem_singleton.1 h
    exact ⟨rfl, rfl⟩

/-- What is listed after the files has a name that only a bundle may have. -/
theorem listing_eq (repo : String) (details : Details) :
    ∃ bundles aces, singleBundles repo details = fileEntries repo details ++ bundles ∧
      listing repo details = fileEntries repo details ++ (bundles ++ aces) ∧
      (∀ file ∈ bundles, (file.name = sherpaBundleName ∨ file.name = ltxBundleName) ∧
        file.runtime ≠ "ace_step_cpp") ∧
      ∀ file ∈ aces, reservedName file.name = true := by
  refine ⟨sherpaBundle details (fileEntries repo details) ++
    ltxBundle (fileEntries repo details ++ sherpaBundle details (fileEntries repo details)),
    (aceDits (singleBundles repo details)).map (aceBundle (singleBundles repo details)),
    by simp [singleBundles], by simp [listing, singleBundles], ?_, ?_⟩
  · intro file h
    obtain h | h := List.mem_append.1 h
    · obtain ⟨hname, hruntime⟩ := mem_sherpaBundle h
      exact ⟨.inl hname, by simp [hruntime]⟩
    · obtain ⟨hname, hruntime⟩ := mem_ltxBundle h
      exact ⟨.inr hname, by simp [hruntime]⟩
  · intro file h
    obtain ⟨dit, -, rfl⟩ := List.mem_map.1 h
    exact reservedName_aceBundle dit.name

theorem filter_bundles {p : StoreEntry → Bool} {bundles : List StoreEntry}
    (hp : ∀ file, p file = true → reservedName file.name = false)
    (hbundles : ∀ file ∈ bundles, reservedName file.name = true) :
    (files ++ bundles).filter p = files.filter p := by
  have hnone : bundles.filter p = [] := by
    refine List.filter_eq_nil_iff.2 fun file hfile hpass => ?_
    have hreserved := hbundles file hfile
    rw [hp file hpass] at hreserved
    cases hreserved
  rw [List.filter_append, hnone, List.append_nil]

theorem aceDits_singleBundles (repo : String) (details : Details) :
    aceDits (singleBundles repo details) = aceDits (fileEntries repo details) := by
  obtain ⟨bundles, aces, hsingle, -, hbundles, -⟩ := listing_eq repo details
  have hnone : aceDits bundles = [] := by
    refine List.filter_eq_nil_iff.2 fun file hfile hpass => ?_
    simp only [Bool.and_eq_true, beq_iff_eq] at hpass
    exact (hbundles file hfile).2 hpass.1.1
  rw [hsingle, aceDits, List.filter_append]
  simp only [aceDits] at hnone
  rw [hnone, List.append_nil, aceDits]

theorem ltxFiles_sherpaBundle (repo : String) (details : Details) :
    ltxFiles (fileEntries repo details ++ sherpaBundle details (fileEntries repo details)) =
      ltxFiles (fileEntries repo details) := by
  have hnone : ltxFiles (sherpaBundle details (fileEntries repo details)) = [] := by
    refine List.filter_eq_nil_iff.2 fun file hfile hpass => ?_
    simp only [Bool.and_eq_true, beq_iff_eq] at hpass
    rw [(mem_sherpaBundle hfile).2] at hpass
    exact absurd hpass.1.1 (by decide)
  rw [ltxFiles, List.filter_append]
  simp only [ltxFiles] at hnone
  rw [hnone, List.append_nil, ltxFiles]

/-- What resolution takes of a file whose modality is that of its runtime. -/
theorem bundleFile_eq {runtime : String} {aceNames : List String}
    (h : file ∈ fileEntries repo details) :
    bundleFile runtime (inferModality runtime details.pipeline) aceNames file =
      (installable file && (file.runtime == runtime && validArtifactPath file.name) &&
        (!(runtime == "ace_step_cpp" && !aceNames.contains file.name) &&
          !(runtime == "ltx_video_cpp" && ltxArtifactKey file.name == ""))) := by
  obtain ⟨hmodality, -, hverified⟩ := fileEntry_spec h
  rw [Bool.eq_iff_iff]
  simp only [bundleFile, installable, Bool.and_eq_true, Bool.not_eq_true', beq_iff_eq]
  constructor
  · rintro ⟨⟨⟨⟨⟨⟨⟨hname, hruntime⟩, -⟩, hcompatible⟩, hvalid⟩, hace⟩, hltx⟩, -⟩
    exact ⟨⟨⟨hcompatible, hname⟩, hruntime, hvalid⟩, hace, hltx⟩
  · rintro ⟨⟨⟨hcompatible, hname⟩, hruntime, hvalid⟩, hace, hltx⟩
    refine ⟨⟨⟨⟨⟨⟨⟨hname, hruntime⟩, ?_⟩, hcompatible⟩, hvalid⟩, hace⟩, hltx⟩, ?_⟩
    · rw [hmodality, hruntime]
    · obtain ⟨hsize, hsha⟩ := hverified hcompatible
      simp [hsize, hsha]

theorem reserved_bundleFile {runtime modality : String} {aceNames : List String}
    (h : bundleFile runtime modality aceNames file = true) : reservedName file.name = false := by
  simp only [bundleFile, Bool.and_eq_true, Bool.not_eq_true'] at h
  exact h.1.1.1.1.1.1.1

/-- Resolution takes nothing of what is listed after the files. -/
theorem filter_listing (repo : String) (details : Details) (runtime modality : String)
    (aceNames : List String) :
    (listing repo details).filter (bundleFile runtime modality aceNames) =
      (fileEntries repo details).filter (bundleFile runtime modality aceNames) := by
  obtain ⟨bundles, aces, -, hlisting, hbundles, haces⟩ := listing_eq repo details
  rw [hlisting]
  refine filter_bundles (fun file h => reserved_bundleFile h) fun file h => ?_
  obtain h | h := List.mem_append.1 h
  · obtain ⟨hname | hname, -⟩ := hbundles file h
    · simp [reservedName, hname]
    · simp [reservedName, hname]
  · exact haces file h

/-! ### One runtime's parts -/

theorem containsAll_iff (keys required : List String) :
    containsAll keys required = true ↔ required ⊆ keys := by
  simp [containsAll, List.all_eq_true, List.subset_def]

theorem entryAgrees_iff {entry : StoreEntry} {count : ℕ} {ok : Prop} {picked : List StoreEntry}
    (h : ∀ artifacts, resolveBundle entry.runtime entry.modality repo (.ok details) entry.name =
      .ok artifacts ↔ ok ∧ artifacts = picked.map StoreEntry.storeFile) :
    EntryAgrees repo details entry count ↔ (ok ↔ entry.compatible = true) ∧
      (ok → picked.length = count ∧ byteTotal picked = entry.size.toNat) := by
  have hexists : (∃ artifacts, resolveBundle entry.runtime entry.modality repo (.ok details)
      entry.name = .ok artifacts) ↔ ok := by
    constructor
    · rintro ⟨artifacts, hresolved⟩
      exact ((h artifacts).1 hresolved).1
    · intro hok
      exact ⟨_, (h _).2 ⟨hok, rfl⟩⟩
  constructor
  · intro hagrees
    refine ⟨hexists.symm.trans hagrees.succeeds, fun hok => ?_⟩
    obtain ⟨hlength, hsize⟩ := hagrees.counted _ ((h _).2 ⟨hok, rfl⟩)
    rw [List.length_map] at hlength
    rw [sum_storeFile] at hsize
    exact ⟨hlength, hsize⟩
  · rintro ⟨hsucceeds, hcounted⟩
    refine ⟨hexists.trans hsucceeds, fun artifacts hresolved => ?_⟩
    obtain ⟨hok, rfl⟩ := (h artifacts).1 hresolved
    rw [List.length_map, sum_storeFile]
    exact hcounted hok

theorem selectBundle_iff {runtime modality : String} {aceNames : List String}
    {artifacts : List StoreFile} (hruntime : runtime ≠ "ltx_video_cpp") :
    selectBundle runtime modality aceNames files = .ok artifacts ↔
      (bundleComplete runtime modality (files.filter (bundleFile runtime modality aceNames)) =
          true ∧ 2 ≤ (files.filter (bundleFile runtime modality aceNames)).length) ∧
        artifacts = (files.filter (bundleFile runtime modality aceNames)).map
          StoreEntry.storeFile := by
  simp only [selectBundle, if_neg hruntime]
  generalize files.filter (bundleFile runtime modality aceNames) = picked
  by_cases hcomplete : bundleComplete runtime modality picked = true
  · by_cases hlength : picked.length < 2
    · simp [hcomplete, hlength, err]
    · simp [hcomplete, hlength, Nat.le_of_not_lt hlength, eq_comm]
  · simp [hcomplete, err]

/-- All parts are installable, or fewer are picked than the list counts. -/
theorem partsAgree_iff {entry : StoreEntry} {listed found : List StoreEntry → Prop}
    (h : ∀ artifacts, resolveBundle entry.runtime entry.modality repo (.ok details) entry.name =
      .ok artifacts ↔ found (parts.filter installable) ∧
        artifacts = (parts.filter installable).map StoreEntry.storeFile)
    (hcompatible : entry.compatible = true ↔
      (∀ file ∈ parts, file.compatible = true) ∧ listed parts)
    (hsize : entry.size = totalSize parts) :
    EntryAgrees repo details entry parts.length ↔ PartsSettled parts listed found := by
  rw [entryAgrees_iff h, hcompatible, hsize, totalSize_toNat]
  by_cases hall : ∀ file ∈ parts, installable file = true
  · have hfilter : parts.filter installable = parts := List.filter_eq_self.2 hall
    have hverified : ∀ file ∈ parts, file.compatible = true := fun file hfile => by
      have hfile := hall file hfile
      simp only [installable, Bool.and_eq_true] at hfile
      exact hfile.1
    have hno : ¬∃ file ∈ parts, installable file = false := by
      rintro ⟨file, hfile, hbad⟩
      rw [hall file hfile] at hbad
      cases hbad
    rw [hfilter]
    constructor
    · rintro ⟨hok, hcounted⟩
      have hboth : found parts ↔ listed parts := by
        rw [hok]
        exact and_iff_right hverified
      refine ⟨fun _ => ⟨hboth, fun hlisted => ?_⟩, fun hbad => absurd hbad hno⟩
      rw [(hcounted (hboth.2 hlisted)).2]
      exact Nat.mod_lt _ (by positivity)
    · intro hsettled
      obtain ⟨hboth, hfits⟩ := hsettled.whole hall
      refine ⟨hboth.trans (and_iff_right hverified).symm, fun hfound => ⟨rfl, ?_⟩⟩
      exact (Nat.mod_eq_of_lt (hfits (hboth.1 hfound))).symm
  · have hbad : ∃ file ∈ parts, installable file = false := by
      by_contra hnone
      refine hall fun file hfile => ?_
      by_contra hfalse
      exact hnone ⟨file, hfile, Bool.eq_false_iff.2 hfalse⟩
    have hfewer : (parts.filter installable).length ≠ parts.length := by
      intro hlength
      obtain ⟨file, hfile, hfalse⟩ := hbad
      rw [List.length_filter_eq_length_iff.1 hlength file hfile] at hfalse
      cases hfalse
    constructor
    · rintro ⟨hok, hcounted⟩
      have hfound : ¬found (parts.filter installable) := fun hfound =>
        hfewer (hcounted hfound).1
      exact ⟨fun hgood => absurd hgood hall, fun _ => ⟨hfound, fun hlisted =>
        hfound (hok.2 hlisted)⟩⟩
    · intro hsettled
      obtain ⟨hfound, hlisted⟩ := hsettled.partly hbad
      exact ⟨iff_of_false hfound hlisted, fun hok => absurd hok hfound⟩

/-! ### The bundle of the speech runtimes -/

theorem inferModality_sherpa (pipeline : String) :
    inferModality "sherpa_onnx" pipeline = "audio_transcription" ∨
      inferModality "sherpa_onnx" pipeline = "audio_speech" := by
  simp only [inferModality]
  split_ifs <;> simp_all

/-- Two roles that differ are played by two files, unless one of them is the model's. -/
theorem two_le_length {modality first second : String} (hfirst : first ∈ roles modality parts)
    (hsecond : second ∈ roles modality parts) (hne : first ≠ second) (hmodel : first ≠ "model")
    (hmodel' : second ≠ "model") : 2 ≤ parts.length := by
  have hplayed : ∀ role ∈ roles modality parts, role ≠ "model" →
      ∃ file ∈ parts, artifactKey file.name = role := by
    intro role hrole hother
    obtain ⟨file, hfile, hrole⟩ := List.mem_flatMap.1 hrole
    refine ⟨file, hfile, ?_⟩
    simp only [sherpaKeys, List.mem_cons] at hrole
    obtain hrole | hrole := hrole
    · exact hrole.symm
    · split at hrole
      · exact absurd (List.mem_singleton.1 hrole) hother
      · cases hrole
  obtain ⟨file, hfile, rfl⟩ := hplayed first hfirst hmodel
  obtain ⟨other, hother, rfl⟩ := hplayed second hsecond hmodel'
  match parts, hfile, hother with
  | [], hfile, _ => cases hfile
  | [single], hfile, hother =>
      rw [List.mem_singleton.1 hfile, List.mem_singleton.1 hother] at hne
      exact absurd rfl hne
  | _ :: _ :: _, _, _ => simp

/-- Where all parts are installable, the two sides differ only by a mismatch. -/
theorem rolesFound_iff (modality : String)
    (hmodality : modality = "audio_transcription" ∨ modality = "audio_speech") :
    (RolesFound modality parts ↔ RolesListed modality parts) ↔ ¬SpeechMismatch modality parts := by
  obtain rfl | rfl := hmodality
  · have htwo : asrKeys ⊆ roles "audio_transcription" parts → 2 ≤ parts.length := fun hkeys =>
      two_le_length (hkeys (by simp [asrKeys] : "encoder" ∈ asrKeys))
        (hkeys (by simp [asrKeys] : "decoder" ∈ asrKeys)) (by decide) (by decide) (by decide)
    simp only [RolesFound, RolesListed, SpeechMismatch, if_true]
    refine iff_of_true ⟨And.right, fun h => ⟨htwo h, h⟩⟩ fun h => ?_
    exact absurd h.1 (by decide)
  · simp only [RolesFound, RolesListed, SpeechMismatch, true_and,
      if_neg (by decide : ¬("audio_speech" = "audio_transcription"))]
    have htwo : supertonicKeys ⊆ roles "audio_speech" parts → 2 ≤ parts.length := fun hkeys =>
      two_le_length (hkeys (by simp [supertonicKeys] : "vocoder" ∈ supertonicKeys))
        (hkeys (by simp [supertonicKeys] : "tts_json" ∈ supertonicKeys)) (by decide) (by decide)
        (by decide)
    by_cases hpredictor : "duration_predictor" ∈ roles "audio_speech" parts
    · simp only [hpredictor, true_or, if_true, not_true_eq_false, false_and, and_false,
        not_false_eq_true, iff_true]
      exact ⟨And.right, fun h => ⟨htwo h, h⟩⟩
    by_cases hestimator : "vector_estimator" ∈ roles "audio_speech" parts
    · simp only [hestimator, or_true, if_true, not_true_eq_false, false_and, and_false,
        not_false_eq_true, iff_true]
      exact ⟨And.right, fun h => ⟨htwo h, h⟩⟩
    have hsupertonic : ¬supertonicKeys ⊆ roles "audio_speech" parts := fun hkeys =>
      hpredictor (hkeys (by simp [supertonicKeys]))
    simp only [hpredictor, hestimator, false_or, or_false, if_false, not_false_eq_true, true_and]
    by_cases hencoder : "text_encoder" ∈ roles "audio_speech" parts
    · have hpair : ttsKeys ⊆ roles "audio_speech" parts → 2 ≤ parts.length := fun hkeys =>
        two_le_length hencoder (hkeys (by simp [ttsKeys] : "tokens" ∈ ttsKeys)) (by decide)
          (by decide) (by decide)
      simp only [hencoder, if_true, hsupertonic, iff_false, true_iff]
      tauto
    · simp only [hencoder, if_false, false_iff]
      tauto

theorem sherpaSettled_iff (modality : String)
    (hmodality : modality = "audio_transcription" ∨ modality = "audio_speech") :
    PartsSettled parts (RolesListed modality) (RolesFound modality) ↔
      SherpaSettled modality parts := by
  constructor
  · intro h
    refine ⟨fun hall => ?_, h.partly⟩
    rw [← rolesFound_iff modality hmodality]
    exact h.whole hall
  · intro h
    refine ⟨fun hall => ?_, h.partly⟩
    rw [rolesFound_iff modality hmodality]
    exact h.whole hall

theorem sherpaComplete_iff (modality : String) :
    sherpaComplete modality (parts.flatMap (sherpaKeys modality)) = true ↔
      RolesListed modality parts := by
  rw [← roles]
  simp only [sherpaComplete, RolesListed, Bool.or_eq_true, List.contains_iff_mem, or_assoc]
  split_ifs <;> exact containsAll_iff _ _

theorem bundleComplete_sherpa (modality : String) :
    (bundleComplete "sherpa_onnx" modality parts = true ∧ 2 ≤ parts.length) ↔
      RolesFound modality parts := by
  have hkeys : parts.flatMap (bundleKeys "sherpa_onnx" modality) = roles modality parts := rfl
  rw [and_comm, RolesFound]
  refine and_congr_right fun _ => ?_
  simp only [bundleComplete, hkeys, Bool.or_eq_true, List.contains_iff_mem,
    if_neg (by decide : ¬("sherpa_onnx" = "ace_step_cpp"))]
  split_ifs <;> exact containsAll_iff _ _

theorem filter_sherpa (repo : String) (details : Details) :
    (fileEntries repo details).filter (bundleFile "sherpa_onnx"
      (inferModality "sherpa_onnx" details.pipeline) []) =
      (sherpaFiles (fileEntries repo details)).filter installable := by
  rw [sherpaFiles, List.filter_filter]
  refine List.filter_congr fun file hfile => ?_
  rw [bundleFile_eq hfile]
  simp

theorem resolveBundle_sherpa (hrepo : validRepo repo = true) (artifacts : List StoreFile) :
    resolveBundle "sherpa_onnx" (inferModality "sherpa_onnx" details.pipeline) repo (.ok details)
      sherpaBundleName = .ok artifacts ↔
      RolesFound (inferModality "sherpa_onnx" details.pipeline)
          ((sherpaFiles (fileEntries repo details)).filter installable) ∧
        artifacts = ((sherpaFiles (fileEntries repo details)).filter installable).map
          StoreEntry.storeFile := by
  have hinspect : inspect repo (.ok details) = .ok (listing repo details) := by
    simp [inspect, hrepo, Except.map]
  rw [← bundleComplete_sherpa, ← filter_sherpa repo details, ← filter_listing,
    ← selectBundle_iff (by decide : "sherpa_onnx" ≠ "ltx_video_cpp")]
  simp [resolveBundle, hinspect, bind, Except.bind]

theorem sherpaAgree_iff (hrepo : validRepo repo = true) :
    (∀ entry ∈ sherpaBundle details (fileEntries repo details), ∀ count,
      entry.artifactCount = some count → EntryAgrees repo details entry count) ↔
      SherpaSettled (inferModality "sherpa_onnx" details.pipeline)
        (sherpaFiles (fileEntries repo details)) := by
  rw [← sherpaSettled_iff _ (inferModality_sherpa details.pipeline)]
  by_cases hempty : sherpaFiles (fileEntries repo details) = []
  · refine iff_of_true (by simp [sherpaBundle, hempty]) ?_
    rw [hempty, sherpaSettled_iff _ (inferModality_sherpa details.pipeline)]
    refine ⟨fun _ => ⟨fun h => ?_, fun _ => by simp [byteTotal]⟩, fun h => by simp at h⟩
    simpa [roles, ttsKeys] using h.2.1
  · simp only [sherpaBundle, List.isEmpty_iff, if_neg hempty, List.mem_singleton, forall_eq,
      Option.some.injEq, forall_eq']
    refine partsAgree_iff (fun artifacts => resolveBundle_sherpa hrepo artifacts) ?_ rfl
    rw [Bool.and_eq_true, List.all_eq_true, sherpaComplete_iff]

/-! ### The bundle of the video runtime -/

theorem filter_ltx (repo : String) (details : Details) :
    (fileEntries repo details).filter (bundleFile "ltx_video_cpp" "video" []) =
      (ltxFiles (fileEntries repo details)).filter installable := by
  rw [ltxFiles, List.filter_filter]
  refine List.filter_congr fun file hfile => ?_
  have hmodality : "video" = inferModality "ltx_video_cpp" details.pipeline := by
    simp [inferModality]
  rw [hmodality, bundleFile_eq hfile, Bool.eq_iff_iff]
  simp only [Bool.and_eq_true, Bool.not_eq_true', beq_iff_eq]
  simp
  tauto

theorem ltxKeys_flatMap (parts : List StoreEntry) :
    parts.flatMap (bundleKeys "ltx_video_cpp" "video") =
      parts.map fun file => ltxArtifactKey file.name := by
  induction parts with
  | nil => rfl
  | cons file parts ih =>
      rw [List.flatMap_cons, ih, List.map_cons]
      simp [bundleKeys]

theorem resolveBundle_ltx (hrepo : validRepo repo = true) (artifacts : List StoreFile) :
    resolveBundle "ltx_video_cpp" "video" repo (.ok details) ltxBundleName = .ok artifacts ↔
      LtxRoles ((ltxFiles (fileEntries repo details)).filter installable) ∧
        artifacts = ((ltxFiles (fileEntries repo details)).filter installable).map
          StoreEntry.storeFile := by
  have hinspect : inspect repo (.ok details) = .ok (listing repo details) := by
    simp [inspect, hrepo, Except.map]
  have hselect : resolveBundle "ltx_video_cpp" "video" repo (.ok details) ltxBundleName =
      selectBundle "ltx_video_cpp" "video" [] (listing repo details) := by
    simp [resolveBundle, hinspect, bind, Except.bind]
  rw [hselect, selectBundle, filter_listing, filter_ltx, ltxKeys_flatMap, LtxRoles,
    ← containsAll_iff]
  generalize (ltxFiles (fileEntries repo details)).filter installable = picked
  by_cases hkeys : containsAll (picked.map fun file => ltxArtifactKey file.name) ltxKeys = true
  · by_cases hlength : picked.length = 5
    · simp [hkeys, hlength, eq_comm]
    · simp [hkeys, hlength, err]
  · simp [hkeys, err]

theorem ltxAgree_iff (hrepo : validRepo repo = true) :
    (∀ entry ∈ ltxBundle (fileEntries repo details ++
        sherpaBundle details (fileEntries repo details)), ∀ count,
      entry.artifactCount = some count → EntryAgrees repo details entry count) ↔
      PartsSettled (ltxFiles (fileEntries repo details)) LtxRoles LtxRoles := by
  simp only [ltxBundle, ltxFiles_sherpaBundle]
  by_cases hempty : ltxFiles (fileEntries repo details) = []
  · refine iff_of_true (by simp [hempty]) ?_
    rw [hempty]
    exact ⟨fun _ => ⟨Iff.rfl, fun _ => by simp [byteTotal]⟩, fun h => by simp at h⟩
  · simp only [List.isEmpty_iff, if_neg hempty, List.mem_singleton, forall_eq,
      Option.some.injEq, forall_eq']
    refine partsAgree_iff (fun artifacts => resolveBundle_ltx hrepo artifacts) ?_ rfl
    rw [Bool.and_eq_true, Bool.and_eq_true, List.all_eq_true, containsAll_iff, beq_iff_eq,
      LtxRoles, and_assoc]

end InferDeck.Gateway.ModelStore
