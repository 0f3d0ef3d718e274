import InferDeck.AceArtifacts
import InferDeck.BundleParts

/-!
# The bundles of the audio runtime

A repository has one bundle for each DiT, which shares its text encoder and its VAE with the others.
The list takes those that it prefers among the files, before it has any bundle, and all files of
their names. Resolution prefers among everything that is listed.
-/

namespace InferDeck.Gateway.ModelStore

open InferDeck.Foundation

variable {repo : String} {details : Details} {files : List StoreEntry} {file dit : StoreEntry}

/-- One verified file has the name, and it is the name of no bundle. -/
def Unambiguous (files : List StoreEntry) (name : String) : Prop :=
  reservedName name = false ∧
    (files.filter fun file =>
      file.name == name && (file.runtime == "ace_step_cpp" && file.compatible)).length = 1

def namesakes (files : List StoreEntry) (name : String) : ℕ :=
  files.countP fun file => file.name == name

def aceRoles : List String := ["text_encoder", "vae"]

/-- A DiT, a text encoder and a VAE that are files without doubt. -/
structure AceClear (files : List StoreEntry) (dit textEncoder vae : StoreEntry) : Prop where
  dit : Unambiguous files dit.name
  textEncoder : Unambiguous files textEncoder.name
  vae : Unambiguous files vae.name

/-- The bundle of a verified DiT passes for an artifact, and comes before the file that is one. -/
def Overtaken (files : List StoreEntry) (textEncoder vae : StoreEntry) (artifact : String)
    (file : StoreEntry) : Prop :=
  ∃ dit ∈ aceDits files, dit.compatible = true ∧
    artifactKey (aceStepBundleName dit.name) = artifact ∧
    validArtifactPath (aceStepBundleName dit.name) = true ∧
    aceRank artifact (aceStepBundleName dit.name) (textEncoder.size + vae.size + dit.size) <
      aceRank artifact file.name file.size

structure AceSettled (files : List StoreEntry) (dit : StoreEntry) : Prop where
  /-- Where one supporting file is missing, two files do not have the name of the other. -/
  alone : dit.compatible = true → ∀ artifact ∈ aceRoles, ∀ other ∈ aceRoles,
    (∀ file ∈ files, isAceArtifact other file = false) →
    ∀ file, AceChoice artifact files file → namesakes files file.name ≠ 2
  /-- Where each name is that of one file, the DiT is verified just where no file is in doubt. -/
  unshared : ∀ textEncoder vae, AceChoice "text_encoder" files textEncoder →
    AceChoice "vae" files vae → namesakes files textEncoder.name = 1 →
    namesakes files vae.name = 1 →
    (AceClear files dit textEncoder vae ∧
        ¬Overtaken files textEncoder vae "text_encoder" textEncoder ∧
        ¬Overtaken files textEncoder vae "vae" vae ↔ dit.compatible = true) ∧
      (dit.compatible = true →
        textEncoder.size.toNat + vae.size.toNat + dit.size.toNat < 2 ^ 64)
  /-- Where several files have a name, some file is in doubt, or none has that of the bundle. -/
  shared : ∀ textEncoder vae, AceChoice "text_encoder" files textEncoder →
    AceChoice "vae" files vae →
    ¬(namesakes files textEncoder.name = 1 ∧ namesakes files vae.name = 1) →
    AceClear files dit textEncoder vae →
    ∀ file ∈ files, file.name = aceStepBundleName dit.name → file.compatible = false

/-! ### What is preferred where -/

variable {artifact name : String}

theorem choice_singleBundles : AceChoice artifact (singleBundles repo details) file ↔
    AceChoice artifact (fileEntries repo details) file := by
  obtain ⟨bundles, aces, hsingle, -, hbundles, -⟩ := listing_eq repo details
  have hnone : ∀ other ∈ bundles, isAceArtifact artifact other = false := by
    intro other hother
    simp [isAceArtifact, (hbundles other hother).2]
  rw [hsingle]
  constructor
  · intro h
    obtain hmem | hmem := List.mem_append.1 h.mem
    · exact ((choice_append_iff hmem).1 h).1
    · have hplays := h.plays
      rw [hnone file hmem] at hplays
      cases hplays
  · intro h
    refine (choice_append_iff h.mem).2 ⟨h, fun other hother hplays => ?_⟩
    rw [hnone other hother] at hplays
    cases hplays

theorem preferred_singleBundles (repo : String) (details : Details) (artifact : String) :
    preferredAceArtifact (singleBundles repo details) artifact =
      preferredAceArtifact (fileEntries repo details) artifact := by
  refine Option.ext fun name => ?_
  simp only [preferred_eq_some_iff, choice_singleBundles]

/-- A file comes first in the whole list when it does among the files, and no bundle of the audio
runtime comes before it. -/
theorem choice_listing_iff (hname : reservedName file.name = false) :
    AceChoice artifact (listing repo details) file ↔
      AceChoice artifact (fileEntries repo details) file ∧
        ∀ dit ∈ aceDits (fileEntries repo details),
          isAceArtifact artifact (aceBundle (singleBundles repo details) dit) = true →
          aceRank artifact file.name file.size ≤
            aceRank artifact (aceBundle (singleBundles repo details) dit).name
              (aceBundle (singleBundles repo details) dit).size := by
  have hsplit (hmem : file ∈ singleBundles repo details) :
      AceChoice artifact (listing repo details) file ↔
        AceChoice artifact (fileEntries repo details) file ∧
          ∀ dit ∈ aceDits (fileEntries repo details),
            isAceArtifact artifact (aceBundle (singleBundles repo details) dit) = true →
            aceRank artifact file.name file.size ≤
              aceRank artifact (aceBundle (singleBundles repo details) dit).name
                (aceBundle (singleBundles repo details) dit).size := by
    rw [listing, choice_append_iff hmem, choice_singleBundles, aceDits_singleBundles,
      List.forall_mem_map]
  constructor
  · intro h
    have hmem : file ∈ singleBundles repo details := by
      obtain hmem | hmem := List.mem_append.1 h.mem
      · exact hmem
      · obtain ⟨dit, -, rfl⟩ := List.mem_map.1 hmem
        rw [aceBundle, reservedName_aceBundle] at hname
        cases hname
    exact (hsplit hmem).1 h
  · intro h
    exact (hsplit (choice_singleBundles.2 h.1).mem).2 h

def takenAs (name : String) (file : StoreEntry) : Bool :=
  file.name == name && (!reservedName file.name &&
    (file.runtime == "ace_step_cpp" && file.compatible))

theorem unambiguous_iff (files : List StoreEntry) (name : String) :
    Unambiguous files name ↔ (files.filter (takenAs name)).length = 1 := by
  cases hname : reservedName name with
  | true =>
      have hnone : files.filter (takenAs name) = [] := by
        refine List.filter_eq_nil_iff.2 fun file _ htaken => ?_
        simp only [takenAs, Bool.and_eq_true, Bool.not_eq_true', beq_iff_eq] at htaken
        rw [htaken.1, hname] at htaken
        cases htaken.2.1
      simp [Unambiguous, hname, hnone]
  | false =>
      rw [Unambiguous, and_iff_right hname]
      have hfilter : (fun file : StoreEntry =>
          file.name == name && (file.runtime == "ace_step_cpp" && file.compatible)) =
          takenAs name := by
        funext file
        by_cases heq : file.name = name
        · simp [takenAs, heq, hname]
        · rw [takenAs, beq_eq_false_iff_ne.2 heq, Bool.false_and, Bool.false_and]
      rw [hfilter]

/-- Three names of which each is that of a usable path, with the key of its role. -/
structure AceNames (dit textEncoder vae : String) : Prop where
  valid : ∀ name ∈ [dit, textEncoder, vae], validArtifactPath name = true
  dit : artifactKey dit = "dit"
  textEncoder : artifactKey textEncoder = "text_encoder"
  vae : artifactKey vae = "vae"

section AceParts

variable {textEncoder vae name : String} {ditName : String}

def aceParts (repo : String) (details : Details) (names : List String) : List StoreEntry :=
  (fileEntries repo details).filter (bundleFile "ace_step_cpp" "audio_generation" names)

theorem bundleFile_ace (h : AceNames ditName textEncoder vae)
    (hfile : file ∈ fileEntries repo details) :
    bundleFile "ace_step_cpp" "audio_generation" [ditName, textEncoder, vae] file =
      (takenAs ditName file || (takenAs textEncoder file || takenAs vae file)) := by
  have hmodality : "audio_generation" = inferModality "ace_step_cpp" details.pipeline := by
    simp [inferModality]
  rw [hmodality, bundleFile_eq hfile]
  by_cases hname : file.name ∈ [ditName, textEncoder, vae]
  · have hvalid := h.valid file.name hname
    have hor : (file.name == ditName || (file.name == textEncoder || file.name == vae)) = true := by
      simpa using hname
    simp only [takenAs, ← Bool.and_or_distrib_right, hor, installable, hvalid,
      List.contains_iff_mem.2 hname]
    simp
    cases file.compatible <;> cases reservedName file.name <;> simp
  · simp only [List.mem_cons, List.not_mem_nil, or_false, not_or] at hname
    simp [takenAs, hname]

theorem aceParts_perm (h : AceNames ditName textEncoder vae) :
    (aceParts repo details [ditName, textEncoder, vae]).Perm
      ((fileEntries repo details).filter (takenAs ditName) ++
        (fileEntries repo details).filter fun file =>
          takenAs textEncoder file || takenAs vae file) := by
  have hparts : aceParts repo details [ditName, textEncoder, vae] =
      (fileEntries repo details).filter fun file =>
        takenAs ditName file || (takenAs textEncoder file || takenAs vae file) :=
    List.filter_congr fun file hfile => bundleFile_ace h hfile
  rw [hparts]
  refine filter_or_perm _ fun file _ hdit => ?_
  simp only [takenAs, Bool.and_eq_true, beq_iff_eq] at hdit
  have htext : file.name ≠ textEncoder := fun heq => by
    have hkeys := h.dit
    rw [← hdit.1, heq, h.textEncoder] at hkeys
    exact absurd hkeys (by decide)
  have hvae : file.name ≠ vae := fun heq => by
    have hkeys := h.dit
    rw [← hdit.1, heq, h.vae] at hkeys
    exact absurd hkeys (by decide)
  simp [takenAs, htext, hvae]

theorem aceSupport_perm (h : AceNames ditName textEncoder vae) (files : List StoreEntry) :
    (files.filter fun file => takenAs textEncoder file || takenAs vae file).Perm
      (files.filter (takenAs textEncoder) ++ files.filter (takenAs vae)) := by
  refine filter_or_perm _ fun file _ htext => ?_
  simp only [takenAs, Bool.and_eq_true, beq_iff_eq] at htext
  have hvae : file.name ≠ vae := fun heq => by
    have hkeys := h.textEncoder
    rw [← htext.1, heq, h.vae] at hkeys
    exact absurd hkeys (by decide)
  simp [takenAs, hvae]

variable (repo details) in
/-- A role is found when a file was taken under the name that has its key. -/
theorem key_mem_aceParts (h : AceNames ditName textEncoder vae)
    (hname : name ∈ [ditName, textEncoder, vae]) :
    artifactKey name ∈ (aceParts repo details [ditName, textEncoder, vae]).map
        (fun file => artifactKey file.name) ↔
      0 < ((fileEntries repo details).filter (takenAs name)).length := by
  have hinjective : ∀ other ∈ [ditName, textEncoder, vae], artifactKey other = artifactKey name →
      other = name := by
    have hdit := h.dit
    have htext := h.textEncoder
    have hvae := h.vae
    simp only [List.mem_cons, List.not_mem_nil, or_false] at hname ⊢
    rintro other (rfl | rfl | rfl) hkeys <;> obtain rfl | rfl | rfl := hname <;>
      simp_all
  rw [List.length_pos_iff_exists_mem, List.mem_map]
  constructor
  · rintro ⟨file, hfile, hkey⟩
    obtain ⟨hentry, hbundle⟩ := List.mem_filter.1 hfile
    rw [bundleFile_ace h hentry] at hbundle
    simp only [Bool.or_eq_true] at hbundle
    have htaken : ∀ other ∈ [ditName, textEncoder, vae], takenAs other file = true →
        takenAs name file = true := by
      intro other hother htaken
      have heq : file.name = other := by
        simp only [takenAs, Bool.and_eq_true, beq_iff_eq] at htaken
        exact htaken.1
      rwa [hinjective other hother (heq ▸ hkey)] at htaken
    refine ⟨file, List.mem_filter.2 ⟨hentry, ?_⟩⟩
    obtain hbundle | hbundle | hbundle := hbundle
    · exact htaken ditName (by simp) hbundle
    · exact htaken textEncoder (by simp) hbundle
    · exact htaken vae (by simp) hbundle
  · rintro ⟨file, hfile⟩
    obtain ⟨hentry, htaken⟩ := List.mem_filter.1 hfile
    refine ⟨file, List.mem_filter.2 ⟨hentry, ?_⟩, ?_⟩
    · rw [bundleFile_ace h hentry]
      simp only [List.mem_cons, List.not_mem_nil, or_false] at hname
      obtain rfl | rfl | rfl := hname <;> simp [htaken]
    · simp only [takenAs, Bool.and_eq_true, beq_iff_eq] at htaken
      rw [htaken.1]

theorem aceComplete_iff (h : AceNames ditName textEncoder vae) :
    (bundleComplete "ace_step_cpp" "audio_generation"
        (aceParts repo details [ditName, textEncoder, vae]) = true ∧
      2 ≤ (aceParts repo details [ditName, textEncoder, vae]).length) ↔
      Unambiguous (fileEntries repo details) ditName ∧
        Unambiguous (fileEntries repo details) textEncoder ∧
        Unambiguous (fileEntries repo details) vae := by
  have hlength : (aceParts repo details [ditName, textEncoder, vae]).length =
      ((fileEntries repo details).filter (takenAs ditName)).length +
        (((fileEntries repo details).filter (takenAs textEncoder)).length +
          ((fileEntries repo details).filter (takenAs vae)).length) := by
    rw [(aceParts_perm h).length_eq, List.length_append, (aceSupport_perm h _).length_eq,
      List.length_append]
  have hkeys : (aceParts repo details [ditName, textEncoder, vae]).flatMap
      (bundleKeys "ace_step_cpp" "audio_generation") =
      (aceParts repo details [ditName, textEncoder, vae]).map
        fun file => artifactKey file.name := by
    generalize aceParts repo details [ditName, textEncoder, vae] = picked
    induction picked with
    | nil => rfl
    | cons file picked ih =>
        rw [List.flatMap_cons, ih, List.map_cons]
        simp [bundleKeys]
  have hdit := key_mem_aceParts repo details h
    (by simp : ditName ∈ [ditName, textEncoder, vae])
  have htext := key_mem_aceParts repo details h
    (by simp : textEncoder ∈ [ditName, textEncoder, vae])
  have hvae := key_mem_aceParts repo details h
    (by simp : vae ∈ [ditName, textEncoder, vae])
  rw [h.dit] at hdit
  rw [h.textEncoder] at htext
  rw [h.vae] at hvae
  simp only [bundleComplete, hkeys, if_true, Bool.and_eq_true, beq_iff_eq, containsAll_iff,
    List.cons_subset, List.nil_subset, and_true, true_and, hdit, htext, hvae, unambiguous_iff,
    hlength]
  constructor
  · rintro ⟨⟨hthree, hsome, hsome', hsome''⟩, -⟩
    omega
  · rintro ⟨hone, hone', hone''⟩
    omega

end AceParts

/-! ### Resolution of an audio bundle -/

def preferredName (repo : String) (details : Details) (artifact : String) : String :=
  (preferredAceArtifact (listing repo details) artifact).getD ""

def acePicked (repo : String) (details : Details) (dit : StoreEntry) : List StoreEntry :=
  aceParts repo details
    [dit.name, preferredName repo details "text_encoder", preferredName repo details "vae"]

/-- The DiT and what the whole list prefers as text encoder and VAE are files without doubt. -/
def AceResolved (repo : String) (details : Details) (dit : StoreEntry) : Prop :=
  ∃ textEncoder vae,
    preferredAceArtifact (listing repo details) "text_encoder" = some textEncoder ∧
    preferredAceArtifact (listing repo details) "vae" = some vae ∧
    Unambiguous (fileEntries repo details) dit.name ∧
    Unambiguous (fileEntries repo details) textEncoder ∧
    Unambiguous (fileEntries repo details) vae

theorem aceNames_preferred {textEncoder vae : String}
    (hdit : dit ∈ aceDits (fileEntries repo details))
    (htext : preferredAceArtifact (listing repo details) "text_encoder" = some textEncoder)
    (hvae : preferredAceArtifact (listing repo details) "vae" = some vae) :
    AceNames dit.name textEncoder vae := by
  obtain ⟨-, hdit⟩ := List.mem_filter.1 hdit
  obtain ⟨encoder, hencoder, rfl⟩ := preferred_eq_some_iff.1 htext
  obtain ⟨decoder, hdecoder, rfl⟩ := preferred_eq_some_iff.1 hvae
  have hplays := hencoder.plays
  have hplays' := hdecoder.plays
  simp only [isAceArtifact, Bool.and_eq_true, beq_iff_eq] at hdit hplays hplays'
  refine ⟨?_, hdit.1.2, hplays.1.1.2, hplays'.1.1.2⟩
  simp [hdit.2, hplays.1.2, hplays'.1.2]

theorem resolveBundle_ace (hrepo : validRepo repo = true)
    (hdit : dit ∈ aceDits (fileEntries repo details)) (artifacts : List StoreFile) :
    resolveBundle "ace_step_cpp" "audio_generation" repo (.ok details)
      (aceStepBundleName dit.name) = .ok artifacts ↔
      (AceResolved repo details dit ∧ ∃ file ∈ listing repo details,
        file.name = aceStepBundleName dit.name ∧ file.compatible = true) ∧
        artifacts = (acePicked repo details dit).map StoreEntry.storeFile := by
  have hinspect : inspect repo (.ok details) = .ok (listing repo details) := by
    simp [inspect, hrepo, Except.map]
  have hname : aceStepBundleDit (aceStepBundleName dit.name) = some dit.name := by
    have hspec := (List.mem_filter.1 hdit).2
    simp only [Bool.and_eq_true, beq_iff_eq] at hspec
    exact aceStepBundleDit_name hspec.2 hspec.1.2
  have hresolve : resolveBundle "ace_step_cpp" "audio_generation" repo (.ok details)
      (aceStepBundleName dit.name) =
      (aceBundleNames (aceStepBundleName dit.name) (listing repo details)).bind fun names =>
        selectBundle "ace_step_cpp" "audio_generation" names (listing repo details) := by
    simp [resolveBundle, hinspect, bind, Except.bind]
  have hexposed : ((listing repo details).any fun file =>
      file.name == aceStepBundleName dit.name && file.compatible) = true ↔
      ∃ file ∈ listing repo details, file.name = aceStepBundleName dit.name ∧
        file.compatible = true := by
    simp
  rw [hresolve, aceBundleNames, hname, ← hexposed]
  cases htext : preferredAceArtifact (listing repo details) "text_encoder" with
  | none => simp [AceResolved, htext, err, Except.bind]
  | some textEncoder =>
      cases hvae : preferredAceArtifact (listing repo details) "vae" with
      | none => simp [AceResolved, hvae, err, Except.bind]
      | some vae =>
          have hnames := aceNames_preferred hdit htext hvae
          have hready : AceResolved repo details dit ↔
              Unambiguous (fileEntries repo details) dit.name ∧
                Unambiguous (fileEntries repo details) textEncoder ∧
                Unambiguous (fileEntries repo details) vae := by
            simp [AceResolved, htext, hvae]
          have hpicked : acePicked repo details dit =
              aceParts repo details [dit.name, textEncoder, vae] := by
            simp [acePicked, preferredName, htext, hvae]
          rw [hready, hpicked, ← aceComplete_iff hnames]
          by_cases hany : ((listing repo details).any fun file =>
              file.name == aceStepBundleName dit.name && file.compatible) = true
          · simp only [hany, if_true, Except.bind, and_true]
            rw [selectBundle_iff (by decide), filter_listing, ← aceParts]
          · simp [hany, err, Except.bind]

/-- A bundle that is ready and counts three files picks its DiT and what supports it. -/
theorem acePicked_perm (hdit : dit ∈ aceDits (fileEntries repo details))
    (hready : AceResolved repo details dit)
    (hsupport : (aceSupport (singleBundles repo details)).length = 2)
    (hcompatible : dit.compatible = true) :
    (acePicked repo details dit).Perm (dit :: aceSupport (singleBundles repo details)) := by
  obtain ⟨textEncoder, vae, htext, hvae, hditName, htextName, hvaeName⟩ := hready
  have hnames := aceNames_preferred hdit htext hvae
  obtain ⟨bundles, aces, hsingle, -⟩ := listing_eq repo details
  have hbefore : ∀ {artifact name : String}, reservedName name = false →
      preferredAceArtifact (listing repo details) artifact = some name →
      preferredAceArtifact (singleBundles repo details) artifact = some name := by
    intro artifact name hname hpreferred
    obtain ⟨file, hchoice, rfl⟩ := preferred_eq_some_iff.1 hpreferred
    rw [preferred_singleBundles]
    exact preferred_eq_some_iff.2 ⟨file, ((choice_listing_iff hname).1 hchoice).1, rfl⟩
  have htext' := hbefore htextName.1 htext
  have hvae' := hbefore hvaeName.1 hvae
  rw [unambiguous_iff] at hditName htextName hvaeName
  have hself : (fileEntries repo details).filter (takenAs dit.name) = [dit] := by
    obtain ⟨only, honly⟩ := List.length_eq_one_iff.1 hditName
    have hmem : dit ∈ (fileEntries repo details).filter (takenAs dit.name) := by
      obtain ⟨hfile, hspec⟩ := List.mem_filter.1 hdit
      refine List.mem_filter.2 ⟨hfile, ?_⟩
      obtain ⟨hreserved, -⟩ := (unambiguous_iff _ _).2 hditName
      simp only [Bool.and_eq_true, beq_iff_eq] at hspec
      simp [takenAs, hreserved, hspec.1.1, hcompatible]
    rw [honly, List.mem_singleton] at hmem
    rw [honly, hmem]
  have htaken : (fileEntries repo details).filter
      (fun file => takenAs textEncoder file || takenAs vae file) =
      aceSupport (singleBundles repo details) := by
    refine List.Sublist.eq_of_length ?_ ?_
    · have hpass : ∀ file, (takenAs textEncoder file || takenAs vae file) = true →
          (preferredAceArtifact (singleBundles repo details) "text_encoder" == some file.name ||
            preferredAceArtifact (singleBundles repo details) "vae" == some file.name) = true := by
        intro file hfile
        rw [htext', hvae']
        simp only [takenAs, Bool.or_eq_true, Bool.and_eq_true, beq_iff_eq] at hfile ⊢
        obtain hfile | hfile := hfile
        · exact .inl (by rw [hfile.1])
        · exact .inr (by rw [hfile.1])
      refine (List.monotone_filter_right _ fun file => hpass file).trans ?_
      have hsub : (fileEntries repo details).Sublist (singleBundles repo details) := by
        rw [hsingle]
        exact List.sublist_append_left _ _
      exact hsub.filter _
    · rw [(aceSupport_perm hnames _).length_eq, List.length_append, htextName, hvaeName, hsupport]
  have hpicked : acePicked repo details dit =
      aceParts repo details [dit.name, textEncoder, vae] := by
    simp [acePicked, preferredName, htext, hvae]
  rw [hpicked]
  refine (aceParts_perm hnames).trans ?_
  rw [hself, htaken]
  exact List.Perm.refl _

/-- Where the names are clear, the list shows a compatible bundle of a DiT when it has two
supporting files, or when a file has the bundle's name. -/
theorem aceShown_iff (hdit : dit ∈ aceDits (fileEntries repo details))
    (hready : AceResolved repo details dit) :
    (∃ file ∈ listing repo details, file.name = aceStepBundleName dit.name ∧
        file.compatible = true) ↔
      (aceSupport (singleBundles repo details)).length = 2 ∨
        ∃ file ∈ fileEntries repo details, file.name = aceStepBundleName dit.name ∧
          file.compatible = true := by
  constructor
  · rintro ⟨file, hfile, hname, hcompatible⟩
    rw [listing, singleBundles, List.append_assoc, List.append_assoc, List.mem_append,
      List.mem_append, List.mem_append, ← singleBundles] at hfile
    have hace : isAceStepBundle file.name = true := by rw [hname, isAceStepBundle_name]
    obtain hfile | hfile | hfile | hfile := hfile
    · exact .inr ⟨file, hfile, hname, hcompatible⟩
    · rw [(mem_sherpaBundle hfile).1] at hace
      exact absurd hace (by decide)
    · rw [(mem_ltxBundle hfile).1] at hace
      exact absurd hace (by decide)
    · obtain ⟨other, -, rfl⟩ := List.mem_map.1 hfile
      simp only [aceBundle, Bool.and_eq_true, beq_iff_eq] at hcompatible
      exact .inl hcompatible.1
  · rintro (hsupport | ⟨file, hfile, hname, hcompatible⟩)
    · obtain ⟨_, _, -, -, ⟨-, hone⟩, -⟩ := hready
      obtain ⟨other, hother⟩ := List.length_eq_one_iff.1 hone
      have hmem : other ∈ [other] := List.mem_singleton.2 rfl
      rw [← hother, List.mem_filter] at hmem
      obtain ⟨hfile, hspec⟩ := hmem
      simp only [Bool.and_eq_true, beq_iff_eq] at hspec
      have hdits : other ∈ aceDits (fileEntries repo details) := by
        obtain ⟨-, hdit⟩ := List.mem_filter.1 hdit
        simp only [Bool.and_eq_true, beq_iff_eq] at hdit
        refine List.mem_filter.2 ⟨hfile, ?_⟩
        simp [hspec.1, hspec.2.1, hdit.1.2, hdit.2]
      refine ⟨aceBundle (singleBundles repo details) other, ?_, ?_, ?_⟩
      · refine List.mem_append_right _ (List.mem_map.2 ⟨other, ?_, rfl⟩)
        rwa [aceDits_singleBundles]
      · simp [aceBundle, hspec.1]
      · simp [aceBundle, hsupport, hspec.2.2]
    · obtain ⟨bundles, aces, -, hlisting, -⟩ := listing_eq repo details
      refine ⟨file, ?_, hname, hcompatible⟩
      rw [hlisting]
      exact List.mem_append_left _ hfile

/-- Both sides treat the bundle of a DiT alike. -/
structure AceMatched (repo : String) (details : Details) (dit : StoreEntry) : Prop where
  compatible : (aceSupport (singleBundles repo details)).length = 2 → dit.compatible = true →
    AceResolved repo details dit ∧
      byteTotal (aceSupport (singleBundles repo details)) + dit.size.toNat < 2 ^ 64
  shown : AceResolved repo details dit →
    ((aceSupport (singleBundles repo details)).length = 2 ∨
      ∃ file ∈ fileEntries repo details, file.name = aceStepBundleName dit.name ∧
        file.compatible = true) →
    (aceSupport (singleBundles repo details)).length = 2 ∧ dit.compatible = true

theorem aceAgrees_matched (hrepo : validRepo repo = true)
    (hdit : dit ∈ aceDits (fileEntries repo details)) :
    EntryAgrees repo details (aceBundle (singleBundles repo details) dit)
      ((aceSupport (singleBundles repo details)).length + 1) ↔ AceMatched repo details dit := by
  have hentry : (aceBundle (singleBundles repo details) dit).compatible = true ↔
      (aceSupport (singleBundles repo details)).length = 2 ∧ dit.compatible = true := by
    simp [aceBundle]
  have hsize : (aceBundle (singleBundles repo details) dit).size.toNat =
      (byteTotal (aceSupport (singleBundles repo details)) + dit.size.toNat) % 2 ^ 64 := by
    simp only [aceBundle, UInt64.toNat_add, totalSize_toNat, Nat.mod_add_mod]
  have hpicked : AceResolved repo details dit →
      (aceSupport (singleBundles repo details)).length = 2 → dit.compatible = true →
      (acePicked repo details dit).length =
          (aceSupport (singleBundles repo details)).length + 1 ∧
        byteTotal (acePicked repo details dit) =
          byteTotal (aceSupport (singleBundles repo details)) + dit.size.toNat := by
    intro hready hsupport hcompatible
    have hperm := acePicked_perm hdit hready hsupport hcompatible
    refine ⟨hperm.length_eq, ?_⟩
    rw [byteTotal_perm hperm, Nat.add_comm]
    simp [byteTotal]
  rw [entryAgrees_iff fun artifacts => resolveBundle_ace hrepo hdit artifacts, hentry, hsize]
  constructor
  · rintro ⟨hok, hcounted⟩
    refine ⟨fun hsupport hcompatible => ?_, fun hready hshown =>
      hok.1 ⟨hready, (aceShown_iff hdit hready).2 hshown⟩⟩
    have hready := hok.2 ⟨hsupport, hcompatible⟩
    obtain ⟨-, htotal⟩ := hcounted hready
    rw [(hpicked hready.1 hsupport hcompatible).2] at htotal
    refine ⟨hready.1, ?_⟩
    rw [htotal]
    exact Nat.mod_lt _ (by positivity)
  · intro hsettled
    have hshown : ∀ h : AceResolved repo details dit ∧ ∃ file ∈ listing repo details,
        file.name = aceStepBundleName dit.name ∧ file.compatible = true,
        (aceSupport (singleBundles repo details)).length = 2 ∧ dit.compatible = true := fun h =>
      hsettled.shown h.1 ((aceShown_iff hdit h.1).1 h.2)
    refine ⟨⟨hshown, fun h => ?_⟩, fun h => ?_⟩
    · have hready := (hsettled.compatible h.1 h.2).1
      exact ⟨hready, (aceShown_iff hdit hready).2 (.inl h.1)⟩
    · obtain ⟨hsupport, hcompatible⟩ := hshown h
      obtain ⟨hready, hfits⟩ := hsettled.compatible hsupport hcompatible
      rw [Nat.mod_eq_of_lt hfits]
      exact hpicked hready hsupport hcompatible

/-! ### The supporting files -/

section Support

variable {textEncoder vae : StoreEntry}

theorem one_le_namesakes (h : AceChoice artifact files file) : 1 ≤ namesakes files file.name :=
  List.countP_pos_iff.2 ⟨file, h.mem, by simp⟩

theorem AceChoice.key (h : AceChoice artifact files file) : artifactKey file.name = artifact := by
  have hplays := h.plays
  simp only [isAceArtifact, Bool.and_eq_true, beq_iff_eq] at hplays
  exact hplays.1.1.2

theorem AceChoice.preferred (h : AceChoice artifact files file) :
    preferredAceArtifact files artifact = some file.name :=
  preferred_eq_some_iff.2 ⟨file, h, rfl⟩

/-- No file with the name of another runtime's bundle is preferred, so that the supporting files are
files. -/
theorem aceSupport_eq (repo : String) (details : Details) :
    aceSupport (singleBundles repo details) = (fileEntries repo details).filter fun file =>
      preferredAceArtifact (fileEntries repo details) "text_encoder" == some file.name ||
        preferredAceArtifact (fileEntries repo details) "vae" == some file.name := by
  obtain ⟨bundles, aces, hsingle, -, hbundles, -⟩ := listing_eq repo details
  have hkeys : ∀ name ∈ [sherpaBundleName, ltxBundleName], artifactKey name ∉ aceRoles := by
    decide +kernel
  have hother : ∀ artifact ∈ aceRoles, ∀ other ∈ bundles,
      preferredAceArtifact (fileEntries repo details) artifact ≠ some other.name := by
    intro artifact hrole other hother hpreferred
    obtain ⟨file, hchoice, hname⟩ := preferred_eq_some_iff.1 hpreferred
    have hkey := hkeys other.name (by simpa using (hbundles other hother).1)
    rw [← hname, hchoice.key] at hkey
    exact hkey hrole
  have hnone : (bundles.filter fun file =>
      preferredAceArtifact (fileEntries repo details) "text_encoder" == some file.name ||
        preferredAceArtifact (fileEntries repo details) "vae" == some file.name) = [] := by
    refine List.filter_eq_nil_iff.2 fun file hfile hpass => ?_
    simp only [Bool.or_eq_true, beq_iff_eq] at hpass
    obtain hpass | hpass := hpass
    · exact hother "text_encoder" (by simp [aceRoles]) file hfile hpass
    · exact hother "vae" (by simp [aceRoles]) file hfile hpass
  simp only [aceSupport, preferred_singleBundles]
  rw [hsingle, List.filter_append, hnone, List.append_nil]

/-- With both roles played, the supporting files are those of two names. -/
theorem aceSupport_both (htext : AceChoice "text_encoder" (fileEntries repo details) textEncoder)
    (hvae : AceChoice "vae" (fileEntries repo details) vae) :
    (aceSupport (singleBundles repo details)).length =
      namesakes (fileEntries repo details) textEncoder.name +
        namesakes (fileEntries repo details) vae.name := by
  have hfilter : aceSupport (singleBundles repo details) =
      (fileEntries repo details).filter fun file =>
        file.name == textEncoder.name || file.name == vae.name := by
    rw [aceSupport_eq, htext.preferred, hvae.preferred]
    refine List.filter_congr fun file _ => ?_
    rw [Bool.eq_iff_iff]
    simp only [Bool.or_eq_true, beq_iff_eq, Option.some.injEq]
    exact or_congr eq_comm eq_comm
  rw [hfilter, (filter_or_perm _ fun file _ hname => ?_).length_eq, List.length_append, namesakes,
    namesakes, List.countP_eq_length_filter, List.countP_eq_length_filter]
  refine beq_eq_false_iff_ne.2 fun hsame => ?_
  have hkey := htext.key
  rw [← beq_iff_eq.1 hname, hsame, hvae.key] at hkey
  exact absurd hkey (by decide)

/-- With one role played, they are those of one name. -/
theorem aceSupport_alone {other : String} (hroles : artifact = "text_encoder" ∧ other = "vae" ∨
      artifact = "vae" ∧ other = "text_encoder")
    (hnone : ∀ file ∈ fileEntries repo details, isAceArtifact other file = false)
    (h : AceChoice artifact (fileEntries repo details) file) :
    (aceSupport (singleBundles repo details)).length =
      namesakes (fileEntries repo details) file.name := by
  have hmissing := preferred_eq_none_iff.2 hnone
  rw [aceSupport_eq, namesakes, List.countP_eq_length_filter]
  congr 1
  refine List.filter_congr fun other _ => ?_
  rw [Bool.eq_iff_iff]
  obtain ⟨rfl, rfl⟩ | ⟨rfl, rfl⟩ := hroles
  · simp only [h.preferred, hmissing, Bool.or_eq_true, beq_iff_eq, Option.some.injEq,
      reduceCtorEq, or_false]
    exact eq_comm
  · simp only [h.preferred, hmissing, Bool.or_eq_true, beq_iff_eq, Option.some.injEq,
      reduceCtorEq, false_or]
    exact eq_comm

theorem aceSupport_perm_pair
    (htext : AceChoice "text_encoder" (fileEntries repo details) textEncoder)
    (hvae : AceChoice "vae" (fileEntries repo details) vae)
    (hsupport : (aceSupport (singleBundles repo details)).length = 2) :
    [textEncoder, vae].Perm (aceSupport (singleBundles repo details)) := by
  have hne : textEncoder ≠ vae := by
    rintro rfl
    exact absurd (htext.key.symm.trans hvae.key) (by decide)
  have hsubset : [textEncoder, vae] ⊆ aceSupport (singleBundles repo details) := by
    rw [aceSupport_eq]
    intro file hfile
    simp only [List.mem_cons, List.not_mem_nil, or_false] at hfile
    obtain rfl | rfl := hfile
    · exact List.mem_filter.2 ⟨htext.mem, by simp [htext.preferred]⟩
    · exact List.mem_filter.2 ⟨hvae.mem, by simp [hvae.preferred]⟩
  exact (List.subperm_of_subset (by simp [hne]) hsubset).perm_of_length_le (by simp [hsupport])

/-- What the whole list prefers is a file without doubt when what the files prefer is one, and no
compatible bundle comes before it. -/
theorem preferred_clear_iff
    (htext : AceChoice "text_encoder" (fileEntries repo details) textEncoder)
    (hvae : AceChoice "vae" (fileEntries repo details) vae)
    (h : AceChoice artifact (fileEntries repo details) file) :
    (∃ name, preferredAceArtifact (listing repo details) artifact = some name ∧
        Unambiguous (fileEntries repo details) name) ↔
      Unambiguous (fileEntries repo details) file.name ∧
        ((aceSupport (singleBundles repo details)).length = 2 →
          ¬Overtaken (fileEntries repo details) textEncoder vae artifact file) := by
  have hsize (hsupport : (aceSupport (singleBundles repo details)).length = 2) (dit : StoreEntry) :
      (aceBundle (singleBundles repo details) dit).size =
        textEncoder.size + vae.size + dit.size := by
    have htotal := ((aceSupport_perm_pair htext hvae hsupport).map StoreEntry.size).sum_eq
    simp only [aceBundle, totalSize, ← htotal]
    simp
  constructor
  · rintro ⟨name, hpreferred, hclear⟩
    obtain ⟨first, hfirst, rfl⟩ := preferred_eq_some_iff.1 hpreferred
    obtain ⟨hchoice, hleast⟩ := (choice_listing_iff hclear.1).1 hfirst
    obtain ⟨hname, hsame⟩ := hchoice.unique h
    rw [hname] at hclear hleast
    refine ⟨hclear, fun hsupport => ?_⟩
    rintro ⟨dit, hdit, hcompatible, hkey, hvalid, hbefore⟩
    have hplays : isAceArtifact artifact (aceBundle (singleBundles repo details) dit) = true := by
      simp [isAceArtifact, aceBundle, hkey, hvalid, hsupport, hcompatible]
    have hafter := hleast dit hdit hplays
    rw [hsame, hsize hsupport] at hafter
    exact not_lt.2 hafter hbefore
  · rintro ⟨hclear, hnot⟩
    refine ⟨file.name, preferred_eq_some_iff.2 ⟨file, ?_, rfl⟩, hclear⟩
    refine (choice_listing_iff hclear.1).2 ⟨h, fun dit hdit hplays => not_lt.1 fun hbefore => ?_⟩
    simp only [isAceArtifact, aceBundle, Bool.and_eq_true, beq_iff_eq] at hplays
    obtain ⟨⟨⟨-, hkey⟩, hvalid⟩, hsupport, hcompatible⟩ := hplays
    rw [hsize hsupport] at hbefore
    exact hnot hsupport ⟨dit, hdit, hcompatible, hkey, hvalid, hbefore⟩

theorem aceResolved_iff (htext : AceChoice "text_encoder" (fileEntries repo details) textEncoder)
    (hvae : AceChoice "vae" (fileEntries repo details) vae) :
    AceResolved repo details dit ↔
      AceClear (fileEntries repo details) dit textEncoder vae ∧
        ((aceSupport (singleBundles repo details)).length = 2 →
          ¬Overtaken (fileEntries repo details) textEncoder vae "text_encoder" textEncoder ∧
            ¬Overtaken (fileEntries repo details) textEncoder vae "vae" vae) := by
  have htextClear := preferred_clear_iff htext hvae htext
  have hvaeClear := preferred_clear_iff htext hvae hvae
  constructor
  · rintro ⟨first, second, hfirst, hsecond, hdit, hfirst', hsecond'⟩
    obtain ⟨hclear, hnot⟩ := htextClear.1 ⟨first, hfirst, hfirst'⟩
    obtain ⟨hclear', hnot'⟩ := hvaeClear.1 ⟨second, hsecond, hsecond'⟩
    exact ⟨⟨hdit, hclear, hclear'⟩, fun hsupport => ⟨hnot hsupport, hnot' hsupport⟩⟩
  · rintro ⟨hclear, hnot⟩
    obtain ⟨first, hfirst, hfirst'⟩ := htextClear.2 ⟨hclear.textEncoder, fun h => (hnot h).1⟩
    obtain ⟨second, hsecond, hsecond'⟩ := hvaeClear.2 ⟨hclear.vae, fun h => (hnot h).2⟩
    exact ⟨first, second, hfirst, hsecond, hclear.dit, hfirst', hsecond'⟩

/-- Resolution needs files that play both roles. -/
theorem choices_of_resolved (h : AceResolved repo details dit) :
    (∃ textEncoder, AceChoice "text_encoder" (fileEntries repo details) textEncoder) ∧
      ∃ vae, AceChoice "vae" (fileEntries repo details) vae := by
  obtain ⟨first, second, hfirst, hsecond, -, hclear, hclear'⟩ := h
  obtain ⟨textEncoder, htext, rfl⟩ := preferred_eq_some_iff.1 hfirst
  obtain ⟨vae, hvae, rfl⟩ := preferred_eq_some_iff.1 hsecond
  exact ⟨⟨textEncoder, ((choice_listing_iff hclear.1).1 htext).1⟩,
    ⟨vae, ((choice_listing_iff hclear'.1).1 hvae).1⟩⟩

/-- Both sides agree on a DiT whose supporting files each have a name of their own. -/
theorem aceMatched_unshared
    (htext : AceChoice "text_encoder" (fileEntries repo details) textEncoder)
    (hvae : AceChoice "vae" (fileEntries repo details) vae)
    (hone : namesakes (fileEntries repo details) textEncoder.name = 1)
    (hone' : namesakes (fileEntries repo details) vae.name = 1) :
    AceMatched repo details dit ↔
      (AceClear (fileEntries repo details) dit textEncoder vae ∧
          ¬Overtaken (fileEntries repo details) textEncoder vae "text_encoder" textEncoder ∧
          ¬Overtaken (fileEntries repo details) textEncoder vae "vae" vae ↔
        dit.compatible = true) ∧
      (dit.compatible = true →
        textEncoder.size.toNat + vae.size.toNat + dit.size.toNat < 2 ^ 64) := by
  have htwo : (aceSupport (singleBundles repo details)).length = 2 := by
    rw [aceSupport_both htext hvae, hone, hone']
  have htotal : byteTotal (aceSupport (singleBundles repo details)) =
      textEncoder.size.toNat + vae.size.toNat := by
    rw [← byteTotal_perm (aceSupport_perm_pair htext hvae htwo)]
    simp [byteTotal]
  have hresolved : AceResolved repo details dit ↔ _ := aceResolved_iff htext hvae
  simp only [htwo, forall_const] at hresolved
  rw [← hresolved]
  constructor
  · intro h
    refine ⟨⟨fun hready => (h.shown hready (.inl htwo)).2, fun hverified =>
      (h.compatible htwo hverified).1⟩, fun hverified => ?_⟩
    have hfits := (h.compatible htwo hverified).2
    rwa [htotal] at hfits
  · rintro ⟨hready, hfits⟩
    refine ⟨fun _ hverified => ⟨hready.2 hverified, ?_⟩, fun hresolved _ =>
      ⟨htwo, hready.1 hresolved⟩⟩
    rw [htotal]
    exact hfits hverified

/-- Where several files have one of the names, no bundle is listed as compatible. -/
theorem aceMatched_shared
    (htext : AceChoice "text_encoder" (fileEntries repo details) textEncoder)
    (hvae : AceChoice "vae" (fileEntries repo details) vae)
    (hshared : ¬(namesakes (fileEntries repo details) textEncoder.name = 1 ∧
      namesakes (fileEntries repo details) vae.name = 1)) :
    AceMatched repo details dit ↔
      (AceClear (fileEntries repo details) dit textEncoder vae →
        ∀ file ∈ fileEntries repo details, file.name = aceStepBundleName dit.name →
          file.compatible = false) := by
  have hne : (aceSupport (singleBundles repo details)).length ≠ 2 := by
    have hone := one_le_namesakes htext
    have hone' := one_le_namesakes hvae
    rw [aceSupport_both htext hvae]
    omega
  have hresolved : AceResolved repo details dit ↔ _ := aceResolved_iff htext hvae
  simp only [hne, false_implies, and_true] at hresolved
  rw [← hresolved]
  constructor
  · intro h hready file hfile hname
    by_contra hverified
    rw [Bool.not_eq_false] at hverified
    exact hne (h.shown hready (.inr ⟨file, hfile, hname, hverified⟩)).1
  · intro h
    refine ⟨fun hsupport => absurd hsupport hne, fun hready hshown => ?_⟩
    obtain hsupport | ⟨file, hfile, hname, hverified⟩ := hshown
    · exact absurd hsupport hne
    · rw [h hready file hfile hname] at hverified
      cases hverified

/-- With a role that no file plays, nothing is resolved. -/
theorem not_aceResolved {other : String} (hrole : other ∈ aceRoles)
    (hnone : ∀ file ∈ fileEntries repo details, isAceArtifact other file = false) :
    ¬AceResolved repo details dit := by
  intro h
  obtain ⟨⟨textEncoder, htext⟩, vae, hvae⟩ := choices_of_resolved h
  simp only [aceRoles, List.mem_cons, List.not_mem_nil, or_false] at hrole
  obtain rfl | rfl := hrole
  · have hplays := htext.plays
    rw [hnone _ htext.mem] at hplays
    cases hplays
  · have hplays := hvae.plays
    rw [hnone _ hvae.mem] at hplays
    cases hplays

theorem aceMatched_alone {other : String} (hroles : artifact = "text_encoder" ∧ other = "vae" ∨
      artifact = "vae" ∧ other = "text_encoder")
    (hnone : ∀ file ∈ fileEntries repo details, isAceArtifact other file = false) :
    AceMatched repo details dit ↔
      (dit.compatible = true → ∀ file, AceChoice artifact (fileEntries repo details) file →
        namesakes (fileEntries repo details) file.name ≠ 2) := by
  have hrole : other ∈ aceRoles := by
    obtain ⟨-, rfl⟩ | ⟨-, rfl⟩ := hroles
    · simp [aceRoles]
    · simp [aceRoles]
  have hunresolved : ¬AceResolved repo details dit := not_aceResolved hrole hnone
  constructor
  · intro h hverified file hchoice hcount
    exact hunresolved (h.compatible ((aceSupport_alone hroles hnone hchoice).trans hcount)
      hverified).1
  · intro h
    refine ⟨fun hsupport hverified => ?_, fun hresolved => absurd hresolved hunresolved⟩
    have hmissing := preferred_eq_none_iff.2 hnone
    -- a supporting file has the name of an artifact of the other role
    obtain ⟨file, hfile⟩ := List.exists_mem_of_length_pos (hsupport ▸ Nat.zero_lt_two)
    rw [aceSupport_eq] at hfile
    have hname : preferredAceArtifact (fileEntries repo details) artifact = some file.name := by
      have hpass := (List.mem_filter.1 hfile).2
      obtain ⟨rfl, rfl⟩ | ⟨rfl, rfl⟩ := hroles
      · simpa [hmissing] using hpass
      · simpa [hmissing] using hpass
    obtain ⟨first, hchoice, -⟩ := preferred_eq_some_iff.1 hname
    exact absurd ((aceSupport_alone hroles hnone hchoice).symm.trans hsupport)
      (h hverified first hchoice)

/-- What both sides make of a DiT is settled by the files. -/
theorem aceMatched_iff (repo : String) (details : Details) (dit : StoreEntry) :
    AceMatched repo details dit ↔ AceSettled (fileEntries repo details) dit := by
  have hplayed {artifact : String} (h : ∃ file, AceChoice artifact (fileEntries repo details) file)
      (hnone : ∀ file ∈ fileEntries repo details, isAceArtifact artifact file = false) : False := by
    obtain ⟨file, hchoice⟩ := h
    have hplays := hchoice.plays
    rw [hnone file hchoice.mem] at hplays
    cases hplays
  have hunplayed {artifact : String}
      (h : ¬∃ file, AceChoice artifact (fileEntries repo details) file) :
      ∀ file ∈ fileEntries repo details, isAceArtifact artifact file = false := by
    intro file hfile
    by_contra hplays
    exact h (exists_choice (Bool.not_eq_false _ ▸ hplays) hfile)
  constructor
  · intro h
    refine ⟨fun hverified artifact hrole other hother hnone file hchoice => ?_,
      fun textEncoder vae htext hvae hone hone' => (aceMatched_unshared htext hvae hone hone').1 h,
      fun textEncoder vae htext hvae hshared => (aceMatched_shared htext hvae hshared).1 h⟩
    have hroles : artifact = "text_encoder" ∧ other = "vae" ∨
        artifact = "vae" ∧ other = "text_encoder" := by
      have hne : artifact ≠ other := by
        rintro rfl
        exact hplayed ⟨file, hchoice⟩ hnone
      simp only [aceRoles, List.mem_cons, List.not_mem_nil, or_false] at hrole hother
      obtain rfl | rfl := hrole <;> obtain rfl | rfl := hother <;> simp_all
    exact (aceMatched_alone hroles hnone).1 h hverified file hchoice
  · intro h
    by_cases htext : ∃ file, AceChoice "text_encoder" (fileEntries repo details) file
    · by_cases hvae : ∃ file, AceChoice "vae" (fileEntries repo details) file
      · obtain ⟨textEncoder, htext⟩ := htext
        obtain ⟨vae, hvae⟩ := hvae
        by_cases hpair : namesakes (fileEntries repo details) textEncoder.name = 1 ∧
            namesakes (fileEntries repo details) vae.name = 1
        · exact (aceMatched_unshared htext hvae hpair.1 hpair.2).2
            (h.unshared textEncoder vae htext hvae hpair.1 hpair.2)
        · exact (aceMatched_shared htext hvae hpair).2 (h.shared textEncoder vae htext hvae hpair)
      · refine (aceMatched_alone (.inl ⟨rfl, rfl⟩) (hunplayed hvae)).2 fun hverified file => ?_
        exact h.alone hverified _ (by simp [aceRoles]) "vae" (by simp [aceRoles])
          (hunplayed hvae) file
    · refine (aceMatched_alone (.inr ⟨rfl, rfl⟩) (hunplayed htext)).2 fun hverified file => ?_
      exact h.alone hverified _ (by simp [aceRoles]) "text_encoder" (by simp [aceRoles])
        (hunplayed htext) file

theorem aceAgrees_iff (hrepo : validRepo repo = true)
    (hdit : dit ∈ aceDits (fileEntries repo details)) :
    EntryAgrees repo details (aceBundle (singleBundles repo details) dit)
      ((aceSupport (singleBundles repo details)).length + 1) ↔
        AceSettled (fileEntries repo details) dit :=
  (aceAgrees_matched hrepo hdit).trans (aceMatched_iff repo details dit)

end Support

end InferDeck.Gateway.ModelStore
