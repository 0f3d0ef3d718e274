import InferDeck.Paths

/-!
# Containment of paths

`is_path_within` walks the normal components of the root along those of the candidate. That is
lexical containment where the root ends in a name or in the root directory. A trailing separator and
a lone dot count as components, so that nearly nothing is within such a root, and what climbs out of
a root of dot-dots counts as within.
-/

namespace InferDeck.Foundation

open Paths Path

/-- The loop over both iterators. -/
def walk : List String → List String → Bool
  | [], _ => true
  | _ :: _, [] => false
  | rootPart :: root, candidatePart :: candidate =>
      rootPart == candidatePart && walk root candidate

def isPathWithin (root candidate : Path) : Bool :=
  if root.isEmpty || candidate.isEmpty then false
  else if root.lexicallyNormal.absolute != candidate.lexicallyNormal.absolute then false
  else walk root.lexicallyNormal.parts candidate.lexicallyNormal.parts

theorem walk_iff : ∀ root candidate : List String, walk root candidate = true ↔ root <+: candidate
  | [], _ => by simp [walk]
  | _ :: _, [] => by simp [walk]
  | rootPart :: root, candidatePart :: candidate => by
      simp [walk, walk_iff root candidate, List.cons_prefix_cons]

/-! ### Lexical containment -/

/-- Components without a trailing separator, and none for a lone dot. -/
def stripped (parts : List String) : List String :=
  if parts = ["."] then []
  else if parts.getLast? = some "" then parts.dropLast
  else parts

/-- The candidate's components go on from the root's and do not climb. -/
def ContainsParts (root candidate : List String) : Prop :=
  stripped root <+: candidate ∧ ".." ∉ candidate.drop (stripped root).length

def Contains (root candidate : Path) : Prop :=
  ContainsParts root.lexicallyNormal.parts candidate.lexicallyNormal.parts

/-- Where the walk is right: by the last component of the root. -/
def WalksRight (root candidate : List String) : Prop :=
  match root.getLast? with
  | some "" => candidate = root ∨ ¬root.dropLast <+: candidate
  | some "." => candidate = root ∨ ".." ∈ candidate
  | some ".." => ¬root ++ [".."] <+: candidate
  | _ => True

section Parts

variable {root candidate : List String}

theorem prefix_append_drop (h : root <+: candidate) :
    ∃ rest, candidate = root ++ rest ∧ candidate.drop root.length = rest := by
  obtain ⟨rest, rfl⟩ := h
  exact ⟨rest, rfl, List.drop_left⟩

/-- After a root that ends in another component nothing climbs. -/
theorem containsParts_of_last {init : List String} {last : String} (hc : NormalParts candidate)
    (hlast : last ≠ "..") (hstripped : stripped root = init ++ [last]) :
    ContainsParts root candidate ↔ init ++ [last] <+: candidate := by
  rw [ContainsParts, hstripped]
  refine ⟨And.left, fun hstarts => ⟨hstarts, ?_⟩⟩
  obtain ⟨rest, hrest, hdrop⟩ := prefix_append_drop hstarts
  rw [hdrop]
  exact hc.climbsFirst init last rest (by rw [hrest]; simp) hlast

/-- The components of a normal path that ends in a separator. -/
theorem trailing_parts (hr : NormalParts root) (hlast : root.getLast? = some "") :
    ∃ init last, root = init ++ [last] ++ [""] ∧ last ≠ ".." := by
  have hroot : root = root.dropLast ++ [""] := (List.dropLast_append_getLast? _ hlast).symm
  obtain hnil | ⟨init, last, hinit⟩ := List.eq_nil_or_concat root.dropLast
  · rw [hnil] at hroot
    exact absurd hroot hr.notSeparator
  · rw [List.concat_eq_append] at hinit
    refine ⟨init, last, by rw [← hinit]; exact hroot, ?_⟩
    rintro rfl
    exact hr.noneAfterClimb init (by rw [hroot, hinit]; simp)

theorem prefix_of_trailing {init : List String} (hc : NormalParts candidate)
    (h : init ++ [""] <+: candidate) : candidate = init ++ [""] := by
  obtain ⟨rest, rfl⟩ := h
  cases rest using List.reverseRecOn with
  | nil => simp
  | append_singleton rest x =>
      refine absurd ?_ hc.emptyLast
      rw [← List.append_assoc, List.dropLast_concat]
      simp

theorem containsParts_dot : ContainsParts ["."] candidate ↔ ".." ∉ candidate := by
  simp [ContainsParts, stripped]

theorem stripped_of_last {last : String} (hlast : root.getLast? = some last) (hdot : last ≠ ".")
    (hempty : last ≠ "") : stripped root = root := by
  have hne : root ≠ ["."] := by
    rintro rfl
    exact hdot (by simpa using hlast.symm)
  rw [stripped, if_neg hne, if_neg (by simp [hlast, hempty])]

/-- What climbs out of a root that ends in a dot-dot. -/
theorem containsParts_climbing {init : List String} (hc : NormalParts candidate) :
    ContainsParts (init ++ [".."]) candidate ↔
      init ++ [".."] <+: candidate ∧ ¬init ++ [".."] ++ [".."] <+: candidate := by
  have hstripped : stripped (init ++ [".."]) = init ++ [".."] :=
    stripped_of_last List.getLast?_concat (by decide) (by decide)
  rw [ContainsParts, hstripped]
  refine and_congr_right fun hstarts => not_congr ?_
  obtain ⟨rest, rfl, hdrop⟩ := prefix_append_drop hstarts
  rw [hdrop, List.prefix_append_right_inj]
  constructor
  · intro hmem
    cases rest with
    | nil => simp at hmem
    | cons name rest =>
        by_cases hname : name = ".."
        · exact ⟨rest, by simp [hname]⟩
        · obtain heq | hmem := List.mem_cons.1 hmem
          · exact absurd heq.symm hname
          · exact absurd hmem (hc.climbsFirst _ name rest rfl hname)
  · rintro ⟨tail, rfl⟩
    simp

/-- The walk and containment, for normal components. -/
theorem walk_contains_iff (hr : NormalParts root) (hc : NormalParts candidate) :
    (walk root candidate = true ↔ ContainsParts root candidate) ↔ WalksRight root candidate := by
  rw [walk_iff]
  obtain rfl | ⟨init, last, rfl⟩ := List.eq_nil_or_concat root
  · exact absurd rfl hr.nonempty
  rw [List.concat_eq_append] at hr ⊢
  have hlast : (init ++ [last]).getLast? = some last := by simp
  unfold WalksRight
  rw [hlast]
  split
  · -- a trailing separator: only the root itself is walked along
    next hempty =>
    obtain rfl := Option.some.inj hempty
    obtain ⟨init', name, hroot, hname⟩ := trailing_parts hr hlast
    obtain rfl : init = init' ++ [name] := List.append_cancel_right hroot
    have hlong : init' ++ [name] ++ [""] ≠ ["."] := fun h => by simpa using congrArg List.length h
    have hstripped : stripped (init' ++ [name] ++ [""]) = init' ++ [name] := by
      rw [stripped, if_neg hlong, if_pos hlast, List.dropLast_concat]
    rw [containsParts_of_last hc hname hstripped, List.dropLast_concat]
    constructor
    · intro h
      by_cases hin : init' ++ [name] <+: candidate
      · exact Or.inl (prefix_of_trailing hc (h.2 hin))
      · exact Or.inr hin
    · rintro (rfl | hout)
      · exact ⟨fun _ => List.prefix_append _ _, fun _ => List.prefix_rfl⟩
      · exact ⟨fun h => (List.prefix_append _ _).trans h, fun h => absurd h hout⟩
  · -- a lone dot
    next hdot =>
    obtain rfl := Option.some.inj hdot
    have hroot : init ++ ["."] = ["."] := hr.dotAlone (by simp)
    rw [hroot, containsParts_dot]
    constructor
    · intro h
      by_cases hup : ".." ∈ candidate
      · exact Or.inr hup
      · exact Or.inl (hc.dotAlone ((h.2 hup).subset (by simp)))
    · rintro (rfl | hup)
      · simp
      · refine ⟨fun h => ?_, fun h => absurd hup h⟩
        rw [hc.dotAlone (h.subset (by simp))] at hup
        simp at hup
  · next hup =>
    obtain rfl := Option.some.inj hup
    rw [containsParts_climbing hc]
    exact ⟨fun h hout => (h.1 ((List.prefix_append _ _).trans hout)).2 hout,
      fun h => ⟨fun hin => ⟨hin, h⟩, And.left⟩⟩
  · next hempty hdot hup =>
    have hstripped := stripped_of_last hlast (fun h => hdot (by rw [h])) (fun h => hempty (by rw [h]))
    simp [containsParts_of_last hc (fun h => hup (by rw [h])) hstripped]

end Parts

/-! ### Paths -/

section Within

variable {root candidate : Path}

theorem isPathWithin_eq (hroot : root.isEmpty = false) (hcandidate : candidate.isEmpty = false) :
    isPathWithin root candidate = true ↔ root.absolute = candidate.absolute ∧
      root.lexicallyNormal.parts <+: candidate.lexicallyNormal.parts := by
  simp only [isPathWithin, hroot, hcandidate, Bool.or_self, Bool.false_eq_true, if_false,
    lexicallyNormal_absolute _ hroot, lexicallyNormal_absolute _ hcandidate, bne_iff_ne]
  by_cases habsolute : root.absolute = candidate.absolute
  · simp [habsolute, walk_iff]
  · simp [habsolute]

theorem isPathWithin_refl (hroot : root.isEmpty = false) : isPathWithin root root = true :=
  (isPathWithin_eq hroot hroot).2 ⟨rfl, List.prefix_rfl⟩

theorem isPathWithin_nonempty (h : isPathWithin root candidate = true) :
    root.isEmpty = false ∧ candidate.isEmpty = false := by
  unfold isPathWithin at h
  split at h
  · cases h
  · next hempty => simpa using hempty

theorem isPathWithin_trans {middle : Path} (h : isPathWithin root middle = true)
    (h' : isPathWithin middle candidate = true) : isPathWithin root candidate = true := by
  obtain ⟨hroot, hmiddle⟩ := isPathWithin_nonempty h
  obtain ⟨-, hcandidate⟩ := isPathWithin_nonempty h'
  obtain ⟨habsolute, hstarts⟩ := (isPathWithin_eq hroot hmiddle).1 h
  obtain ⟨habsolute', hstarts'⟩ := (isPathWithin_eq hmiddle hcandidate).1 h'
  exact (isPathWithin_eq hroot hcandidate).2 ⟨habsolute.trans habsolute', hstarts.trans hstarts'⟩

/-- Without its separator a normal path ends in a name or in the root directory. -/
theorem stripped_lexicallyNormal (hdot : ¬(root.absolute = false ∧ root.resolved = [])) :
    stripped root.lexicallyNormal.parts = (if root.absolute then ["/"] else []) ++ root.resolved := by
  obtain ⟨trailing, hparts⟩ := root.lexicallyNormal_parts_eq hdot
  have hproper : ∀ name ∈ (if root.absolute then ["/"] else []) ++ root.resolved,
      name ≠ "." ∧ name ≠ "" := by
    intro name hname
    obtain hname | hname := List.mem_append.1 hname
    · cases habsolute : root.absolute <;> simp [habsolute] at hname
      subst hname
      decide
    · exact ⟨(root.resolved_resolved.proper name hname).1, (root.resolved_resolved.proper name hname).2.1⟩
  rw [hparts]
  cases trailing with
  | true =>
      have hlone : (if root.absolute then ["/"] else []) ++ root.resolved ++ [""] ≠ ["."] := fun h => by
        simpa using congrArg List.getLast? h
      simp only [if_true]
      rw [stripped, if_neg hlone, if_pos (by simp), List.dropLast_concat]
  | false =>
      simp only [Bool.false_eq_true, if_false, List.append_nil]
      have hlone : (if root.absolute then ["/"] else []) ++ root.resolved ≠ ["."] := fun h =>
        (hproper "." (by rw [h]; simp)).1 rfl
      have hlast : ((if root.absolute then ["/"] else []) ++ root.resolved).getLast? ≠ some "" := fun h =>
        (hproper "" (List.mem_of_getLast? h)).2 rfl
      rw [stripped, if_neg hlone, if_neg hlast]

/-- What does not climb out of a root is contained in it. -/
theorem contains_append {p : Path} (hroot : root.isEmpty = false) (hp : p.absolute = false)
    (hclimbs : ".." ∉ p.resolved) : Contains root (root.append p) := by
  obtain ⟨hresolved, habsolute⟩ := root.append_resolved hp hclimbs
  have hdrop : ∀ {init rest : List String}, ".." ∉ rest → init <+: init ++ rest ∧
      ".." ∉ (init ++ rest).drop init.length := fun hrest => ⟨List.prefix_append _ _, by simpa⟩
  unfold Contains ContainsParts
  by_cases hdot : root.absolute = false ∧ root.resolved = []
  · rw [lexicallyNormal_dot _ hdot.1 hdot.2 hroot, show stripped dot.parts = [] by decide]
    refine ⟨List.nil_prefix, ?_⟩
    by_cases hnil : p.resolved = []
    · have hempty : (root.append p).isEmpty = false := by
        by_contra h
        simp only [isEmpty, habsolute, hdot.1, Bool.not_eq_false, Bool.and_eq_true,
          List.isEmpty_iff] at h
        have hnames : root.names = [] := by
          have := h.2
          simp only [append, hp] at this
          exact (List.append_eq_nil_iff.1 (by simpa using this)).1
        simp [isEmpty, hdot.1, hnames] at hroot
      rw [lexicallyNormal_dot _ (habsolute.trans hdot.1) (by rw [hresolved, hdot.2, hnil]; rfl) hempty]
      decide
    · obtain ⟨trailing, hparts⟩ := (root.append p).lexicallyNormal_parts_eq
        (by rw [hresolved, hdot.2]; simp [hnil])
      rw [hparts, hresolved, habsolute, hdot.1, hdot.2]
      cases trailing <;> simp [hclimbs]
  · obtain ⟨trailing', hparts'⟩ := (root.append p).lexicallyNormal_parts_eq
      (by rw [hresolved, habsolute]; rintro ⟨h, h'⟩; exact hdot ⟨h, (List.append_eq_nil_iff.1 h').1⟩)
    rw [stripped_lexicallyNormal hdot, hparts', hresolved, habsolute]
    rw [show (if root.absolute then ["/"] else []) ++ (root.resolved ++ p.resolved) ++
        (if trailing' then [""] else []) = ((if root.absolute then ["/"] else []) ++ root.resolved) ++
        (p.resolved ++ (if trailing' then [""] else [])) by simp]
    exact hdrop (by cases trailing' <;> simp [hclimbs])

theorem isEmpty_append {p : Path} (hroot : root.isEmpty = false) (hp : p.absolute = false) :
    (root.append p).isEmpty = false ∧ (root.append p).absolute = root.absolute := by
  unfold isEmpty at hroot ⊢
  rw [append, if_neg (by simp [hp])]
  refine ⟨?_, rfl⟩
  rw [Bool.and_eq_false_iff] at hroot ⊢
  refine hroot.imp_right fun hnames => ?_
  rw [← Bool.not_eq_true, List.isEmpty_iff] at hnames ⊢
  exact fun hnil => hnames (List.append_eq_nil_iff.1 hnil).1

/-- A root that is walked rightly has within it what does not climb out of it. -/
theorem isPathWithin_append {p : Path} (hroot : root.isEmpty = false) (hp : p.absolute = false)
    (hclimbs : ".." ∉ p.resolved)
    (hwalks : WalksRight root.lexicallyNormal.parts (root.append p).lexicallyNormal.parts) :
    isPathWithin root (root.append p) = true := by
  obtain ⟨hjoined, habsolute⟩ := isEmpty_append hroot hp
  have hdecides := (walk_contains_iff (root.lexicallyNormal_parts hroot)
    ((root.append p).lexicallyNormal_parts hjoined)).2 hwalks
  rw [isPathWithin_eq hroot hjoined, ← walk_iff]
  exact ⟨habsolute.symm, hdecides.2 (contains_append hroot hp hclimbs)⟩

end Within

/-- The walk decides containment exactly where `WalksRight` says so. It is reflexive and transitive
everywhere, and what does not climb out of a root is contained in it. -/
theorem isPathWithin_decides_iff (root candidate : Path) (hroot : root.isEmpty = false)
    (hcandidate : candidate.isEmpty = false) (hkind : root.absolute = candidate.absolute) :
    ((isPathWithin root candidate = true ↔ Contains root candidate) ↔
        WalksRight root.lexicallyNormal.parts candidate.lexicallyNormal.parts) ∧
      isPathWithin root root = true ∧
      (∀ middle, isPathWithin root middle = true → isPathWithin middle candidate = true →
        isPathWithin root candidate = true) ∧
      ∀ p : Path, p.absolute = false → ".." ∉ p.resolved → Contains root (root.append p) := by
  refine ⟨?_, isPathWithin_refl hroot, fun middle => isPathWithin_trans, fun p => contains_append hroot⟩
  rw [isPathWithin_eq hroot hcandidate, and_iff_right hkind, ← walk_iff]
  exact walk_contains_iff (root.lexicallyNormal_parts hroot) (candidate.lexicallyNormal_parts hcandidate)

def store : Path := ⟨true, ["srv", "store"], true, by decide, by decide⟩

def storeRoot : Path := ⟨true, ["srv", "store"], false, by decide, by decide⟩

def stored : Path := ⟨true, ["srv", "store", "model.gguf"], false, by decide, by decide⟩

theorem isPathWithin_decides_stored :
    ((isPathWithin storeRoot stored = true ↔ Contains storeRoot stored) ↔
        WalksRight storeRoot.lexicallyNormal.parts stored.lexicallyNormal.parts) ∧
      isPathWithin storeRoot storeRoot = true ∧
      (∀ middle, isPathWithin storeRoot middle = true → isPathWithin middle stored = true →
        isPathWithin storeRoot stored = true) ∧
      ∀ p : Path, p.absolute = false → ".." ∉ p.resolved →
        Contains storeRoot (storeRoot.append p) :=
  isPathWithin_decides_iff storeRoot stored (by decide) (by decide) (by decide)

theorem isPathWithin_separator :
    ¬∀ root candidate : Path, root.isEmpty = false → candidate.isEmpty = false →
      root.absolute = candidate.absolute →
      (isPathWithin root candidate = true ↔ Contains root candidate) := by
  intro h
  have hcontains : Contains store stored := by
    unfold Contains ContainsParts
    decide
  exact absurd ((h store stored (by decide) (by decide) (by decide)).2 hcontains) (by decide)

end InferDeck.Foundation
