import Mathlib.Tactic

/-!
# Lexical paths

A path of the file system library, as its iterators see it: an optional root directory, names
between separators, and an empty component for a trailing separator. `lexicallyNormal` removes the
dots, lets a name and the dot-dot after it cancel, and drops dot-dots after the root directory.
-/

namespace InferDeck.Paths

structure Path where
  absolute : Bool
  names : List String
  trailing : Bool
  names_ok : ∀ name ∈ names, name ≠ "" ∧ '/' ∉ name.toList
  trailing_ok : trailing = true → names ≠ []

namespace Path

/-- The components that an iterator visits. -/
def parts (p : Path) : List String :=
  (if p.absolute then ["/"] else []) ++ p.names ++ (if p.trailing then [""] else [])

def isEmpty (p : Path) : Bool := !p.absolute && p.names.isEmpty

def resolve (absolute : Bool) (names : List String) (name : String) : List String :=
  if name = "." then names
  else if name = ".." then
    match names.getLast? with
    | none => if absolute then [] else [".."]
    | some last => if last = ".." then names ++ [".."] else names.dropLast
  else names ++ [name]

def resolved (p : Path) : List String := p.names.foldl (resolve p.absolute) []

/-- The dots and dot-dots before the end leave a separator behind. -/
def endsInSeparator (p : Path) : Bool :=
  p.trailing || p.names.getLast? == some "." || p.names.getLast? == some ".."

/-- Before a dot-dot stand only dot-dots, and in an absolute path there is none. -/
structure Resolved (absolute : Bool) (names : List String) : Prop where
  proper : ∀ name ∈ names, name ≠ "." ∧ name ≠ "" ∧ '/' ∉ name.toList
  climbs : ∃ k rest, names = List.replicate k ".." ++ rest ∧ ".." ∉ rest ∧ (absolute = true → k = 0)

section Resolve

variable {absolute : Bool} {names : List String} {name : String}

theorem Resolved.nil : Resolved absolute [] :=
  ⟨by simp, 0, [], by simp⟩

/-- A last name that is no dot-dot ends a path without dot-dots after its first names. -/
theorem Resolved.resolve (h : Resolved absolute names) (hname : name ≠ "" ∧ '/' ∉ name.toList) :
    Resolved absolute (resolve absolute names name) := by
  obtain ⟨k, rest, rfl, hrest, hk⟩ := h.climbs
  unfold Path.resolve
  by_cases hdot : name = "."
  · rw [if_pos hdot]
    exact h
  rw [if_neg hdot]
  by_cases hup : name = ".."
  · subst hup
    rw [if_pos rfl]
    cases hlast : (List.replicate k ".." ++ rest).getLast? with
    | none =>
        cases absolute with
        | true => exact Resolved.nil
        | false => exact ⟨by simp, 1, [], by simp⟩
    | some last =>
        by_cases hlast' : last = ".."
        · subst hlast'
          have hnil : rest = [] := by
            by_contra hne
            rw [List.getLast?_append_of_ne_nil _ hne, List.getLast?_eq_some_getLast hne] at hlast
            exact hrest (by rw [← Option.some.inj hlast]; exact List.getLast_mem hne)
          subst hnil
          simp only [List.append_nil] at h hlast ⊢
          have hpos : k ≠ 0 := by rintro rfl; simp at hlast
          refine ⟨?_, k + 1, [], ?_, by simp, fun ha => absurd (hk ha) hpos⟩
          · intro n hn
            simp only [if_true, List.mem_append, List.mem_singleton] at hn
            obtain hn | rfl := hn
            · exact h.proper n hn
            · decide
          · simp [List.replicate_succ']
        · have hne : rest ≠ [] := by
            rintro rfl
            simp only [List.append_nil] at hlast
            exact hlast' (List.eq_of_mem_replicate (List.mem_of_getLast? hlast))
          refine ⟨fun n hn => h.proper n ?_, k, rest.dropLast, ?_, ?_, hk⟩
          · simp only [if_neg hlast'] at hn
            exact List.mem_of_mem_dropLast hn
          · simp only [if_neg hlast', List.dropLast_append_of_ne_nil hne]
          · exact fun hmem => hrest (List.mem_of_mem_dropLast hmem)
  · rw [if_neg hup]
    refine ⟨?_, k, rest ++ [name], by simp, by simp [hrest, Ne.symm hup], hk⟩
    intro n hn
    obtain hn | hn := List.mem_append.1 hn
    · exact h.proper n hn
    · obtain rfl := List.mem_singleton.1 hn
      exact ⟨hdot, hname⟩

theorem Resolved.foldl {start : List String} (h : Resolved absolute start) :
    ∀ names : List String, (∀ name ∈ names, name ≠ "" ∧ '/' ∉ name.toList) →
      Resolved absolute (names.foldl (Path.resolve absolute) start) := by
  intro names
  induction names generalizing start with
  | nil => intro _; exact h
  | cons name names ih =>
      intro hnames
      exact ih (h.resolve (hnames name (by simp))) fun n hn => hnames n (by simp [hn])

end Resolve

variable (p : Path)

theorem resolved_resolved : Resolved p.absolute p.resolved :=
  Resolved.nil.foldl p.names p.names_ok

def dot : Path := ⟨false, ["."], false, by decide, by decide⟩

def lexicallyNormal : Path :=
  if p.isEmpty then p
  else if p.absolute = false ∧ p.resolved = [] then dot
  else {
    absolute := p.absolute
    names := p.resolved
    trailing := decide (p.resolved ≠ [] ∧ p.resolved.getLast? ≠ some "..") && p.endsInSeparator
    names_ok := fun name h => (p.resolved_resolved.proper name h).2
    trailing_ok := fun h => by simp at h; exact h.1.1 }

/-- `operator/`. -/
def append (p q : Path) : Path :=
  if q.absolute then q
  else {
    absolute := p.absolute
    names := p.names ++ q.names
    trailing := if q.names = [] then decide (p.names ≠ []) else q.trailing
    names_ok := fun name h => (List.mem_append.1 h).elim (p.names_ok name) (q.names_ok name)
    trailing_ok := by
      intro h
      by_cases hq : q.names = []
      · simpa [hq] using h
      · simp [hq] }

/-! ### Normal components -/

/-- What the components of a normal path are like. -/
structure NormalParts (parts : List String) : Prop where
  nonempty : parts ≠ []
  notSeparator : parts ≠ [""]
  emptyLast : "" ∉ parts.dropLast
  dotAlone : "." ∈ parts → parts = ["."]
  climbsFirst : ∀ a name b, parts = a ++ name :: b → name ≠ ".." → ".." ∉ b
  noneAfterClimb : ∀ a, parts ≠ a ++ ["..", ""]

theorem normalParts_dot : NormalParts dot.parts where
  nonempty := by decide
  notSeparator := by decide
  emptyLast := by decide
  dotAlone := by decide
  climbsFirst a name b h _ := by
    cases a with
    | nil => simp_all [dot, parts]
    | cons x a => simp [dot, parts] at h
  noneAfterClimb a h := by
    cases a with
    | nil => simp [dot, parts] at h
    | cons x a => simp [dot, parts] at h

/-- After the first component that differs from those that lead, none of them follows. -/
theorem not_mem_of_leading {x name : String} {k : ℕ} {rest a b : List String} (hrest : x ∉ rest)
    (h : List.replicate k x ++ rest = a ++ name :: b) (hname : name ≠ x) : x ∉ b := by
  induction k generalizing a with
  | zero =>
      intro hmem
      have hall : x ∈ List.replicate 0 x ++ rest := by rw [h]; simp [hmem]
      exact hrest (by simpa using hall)
  | succ k ih =>
      rw [List.replicate_succ, List.cons_append] at h
      cases a with
      | nil => exact absurd (List.cons.inj h).1.symm hname
      | cons y a => exact ih (List.cons.inj h).2

/-- The components of a path whose names are resolved. -/
theorem Resolved.normalParts {absolute trailing : Bool} {names : List String}
    (h : Resolved absolute names) (hne : ¬(absolute = false ∧ names = []))
    (hup : trailing = true → names ≠ [] ∧ names.getLast? ≠ some "..") :
    NormalParts ((if absolute then ["/"] else []) ++ names ++ (if trailing then [""] else [])) := by
  obtain ⟨k, rest, hnames, hrest, hk⟩ := h.climbs
  have hempty : "" ∉ (if absolute then ["/"] else []) ++ names := by
    intro hmem
    obtain hmem | hmem := List.mem_append.1 hmem
    · cases absolute <;> simp at hmem
    · exact (h.proper _ hmem).2.1 rfl
  refine ⟨?_, ?_, ?_, ?_, ?_, ?_⟩
  · cases absolute <;> simp_all
  · intro hsep
    cases trailing with
    | false => exact hempty (by simp [show _ = [""] by simpa using hsep])
    | true =>
        refine (hup rfl).1 ?_
        cases absolute with
        | false => simpa using hsep
        | true => simp at hsep
  · cases trailing with
    | false =>
        intro hmem
        exact hempty (by simpa using List.mem_of_mem_dropLast hmem)
    | true => simpa using hempty
  · intro hmem
    have hdot : "." ∈ names := by
      cases absolute <;> cases trailing <;> simpa using hmem
    exact absurd rfl (h.proper _ hdot).1
  · intro a name b hsplit
    obtain ⟨k', rest', hparts, hrest'⟩ : ∃ k' rest',
        (if absolute then ["/"] else []) ++ names ++ (if trailing then [""] else []) =
          List.replicate k' ".." ++ rest' ∧ ".." ∉ rest' := by
      cases absolute with
      | false =>
          refine ⟨k, rest ++ (if trailing then [""] else []), by simp [hnames], ?_⟩
          cases trailing <;> simp [hrest]
      | true =>
          obtain rfl := hk rfl
          refine ⟨0, "/" :: names ++ (if trailing then [""] else []), by simp, ?_⟩
          cases trailing <;> simp [hnames, hrest]
    exact not_mem_of_leading hrest' (hparts ▸ hsplit)
  · intro a hsplit
    cases trailing with
    | false =>
        refine hempty ?_
        have hmem : "" ∈ a ++ ["..", ""] := by simp
        rw [← hsplit] at hmem
        simpa using hmem
    | true =>
        obtain ⟨hne, hlast⟩ := hup rfl
        have hinit : (if absolute then ["/"] else []) ++ names = a ++ [".."] := by
          have := congrArg List.dropLast hsplit
          simpa [List.dropLast_append_of_ne_nil] using this
        have := congrArg List.getLast? hinit
        rw [List.getLast?_append_of_ne_nil _ hne] at this
        exact hlast (by simpa using this)

theorem lexicallyNormal_parts (hp : p.isEmpty = false) : NormalParts p.lexicallyNormal.parts := by
  unfold lexicallyNormal
  rw [if_neg (by simp [hp])]
  split
  · exact normalParts_dot
  · next hne =>
    refine p.resolved_resolved.normalParts hne fun h => ?_
    simp only [Bool.and_eq_true, decide_eq_true_eq] at h
    exact h.1

theorem lexicallyNormal_absolute (hp : p.isEmpty = false) :
    p.lexicallyNormal.absolute = p.absolute := by
  unfold lexicallyNormal
  rw [if_neg (by simp [hp])]
  split
  · next h => exact h.1.symm
  · rfl

theorem lexicallyNormal_dot (habsolute : p.absolute = false) (hresolved : p.resolved = [])
    (hp : p.isEmpty = false) : p.lexicallyNormal = dot := by
  rw [lexicallyNormal, if_neg (by simp [hp]), if_pos ⟨habsolute, hresolved⟩]

theorem lexicallyNormal_parts_eq (h : ¬(p.absolute = false ∧ p.resolved = [])) :
    ∃ trailing : Bool, p.lexicallyNormal.parts =
      (if p.absolute then ["/"] else []) ++ p.resolved ++ (if trailing then [""] else []) := by
  have hp : p.isEmpty = false := by
    by_contra hempty
    simp only [isEmpty, Bool.not_eq_false, Bool.and_eq_true, Bool.not_eq_true', List.isEmpty_iff]
      at hempty
    exact h ⟨hempty.1, by simp [resolved, hempty.2]⟩
  rw [lexicallyNormal, if_neg (by simp [hp]), if_neg h]
  exact ⟨_, rfl⟩

/-! ### Appended names -/

section Append

variable {absolute : Bool} {start names : List String} {name : String}

/-- A name that does not climb out of the names before it is resolved among them. -/
theorem resolve_append (h : ".." ∉ resolve false names name) :
    resolve absolute (start ++ names) name = start ++ resolve false names name := by
  unfold resolve at h ⊢
  by_cases hdot : name = "."
  · simp [hdot]
  · simp only [if_neg hdot] at h ⊢
    by_cases hup : name = ".."
    · simp only [if_pos hup] at h ⊢
      obtain rfl | ⟨init, last, rfl⟩ := List.eq_nil_or_concat names
      · simp at h
      · rw [List.concat_eq_append] at h ⊢
        rw [← List.append_assoc]
        simp only [List.getLast?_append, List.getLast?_singleton, Option.some_or] at h ⊢
        by_cases hlast : last = ".."
        · simp [hlast] at h
        · simp [if_neg hlast]
    · simp [if_neg hup]

/-- Whoever has climbed out stays out. -/
theorem not_mem_of_resolve (h : ".." ∉ resolve false names name) : ".." ∉ names := by
  unfold resolve at h
  by_cases hdot : name = "."
  · rwa [if_pos hdot] at h
  · rw [if_neg hdot] at h
    by_cases hup : name = ".."
    · rw [if_pos hup] at h
      obtain rfl | ⟨init, last, rfl⟩ := List.eq_nil_or_concat names
      · simp
      · simp only [List.concat_eq_append, List.getLast?_append, List.getLast?_singleton,
          Option.some_or] at h ⊢
        by_cases hlast : last = ".."
        · simp [hlast] at h
        · simpa [if_neg hlast, Ne.symm hlast] using h
    · rw [if_neg hup] at h
      exact fun hmem => h (by simp [hmem])

theorem foldl_resolve_append (names : List String)
    (h : ".." ∉ names.foldl (resolve false) []) :
    names.foldl (resolve absolute) start = start ++ names.foldl (resolve false) [] := by
  induction names using List.reverseRecOn with
  | nil => simp
  | append_singleton names name ih =>
      rw [List.foldl_concat] at h
      rw [List.foldl_concat, List.foldl_concat, ih (not_mem_of_resolve h), resolve_append h]

theorem append_resolved {q : Path} (hq : q.absolute = false) (h : ".." ∉ q.resolved) :
    (p.append q).resolved = p.resolved ++ q.resolved ∧ (p.append q).absolute = p.absolute := by
  have happend : (p.append q).names = p.names ++ q.names ∧ (p.append q).absolute = p.absolute := by
    simp [append, hq]
  refine ⟨?_, happend.2⟩
  rw [resolved, happend.1, happend.2, List.foldl_append]
  rw [resolved, hq] at h
  rw [foldl_resolve_append _ h, resolved, resolved, hq]

end Append

end Path

end InferDeck.Paths
