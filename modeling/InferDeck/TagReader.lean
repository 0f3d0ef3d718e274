import InferDeck.StreamingSanitizer
import InferDeck.Transducer

/-!
# Reading a text tag by tag

What the sanitizer means to do when every tag arrives one byte at a time: outside a reasoning block
it drops the basic tags, those with no shorter tag at their start, and shows everything else; inside
one it drops everything up to the closing tag. Reading looks at the whole text that is still to
come, so it does not depend on how the text is split.
-/

namespace InferDeck.Gateway

open Transducer

/-- The tags that do not start with another tag of the table. -/
def basicTags : List Tag :=
  tags.filter fun tag => !(tags.any fun other =>
    other.text.isPrefixOf tag.text && other.text != tag.text)

/-- The tags that start with a shorter one. -/
def extendedTags : List Tag :=
  tags.filter fun tag => tags.any fun other =>
    other.text.isPrefixOf tag.text && other.text != tag.text

def openThink : Text := "<think>".toList

inductive Mode where
  | shown
  | hidden
  deriving DecidableEq

def matchBasic (t : Text) : Option Tag := basicTags.find? fun tag => tag.text.isPrefixOf t

def readStep : Mode × Text → Option (Text × Mode × Text)
  | (_, []) => none
  | (.shown, c :: t) =>
      match matchBasic (c :: t) with
      | some tag =>
          some ([], if tag.kind = .openThink then .hidden else .shown,
            (c :: t).drop tag.text.length)
      | none => some ([c], .shown, t)
  | (.hidden, c :: t) =>
      if closeThink.isPrefixOf (c :: t) then some ([], .shown, (c :: t).drop closeThink.length)
      else some ([], .hidden, t)

def unread (s : Mode × Text) : ℕ := s.2.length

/-- What is shown of a text that is read from the given mode. -/
def visible (m : Mode) (t : Text) : Text := total readStep unread (m, t)

abbrev ReadsTo (m : Mode) (t o : Text) (m' : Mode) (t' : Text) : Prop :=
  Reads readStep (m, t) o (m', t')

theorem startsWith_iff {p t : Text} : p.isPrefixOf t = true ↔ p <+: t :=
  List.isPrefixOf_iff_prefix

/-- A pattern with no further `<` cannot reach over the next one. -/
theorem length_le_of_prefix_append {p u q : Text} (hp : '<' ∉ p.tail) (hu : u ≠ [])
    (h : p <+: u ++ '<' :: q) : p.length ≤ u.length := by
  by_contra hlt
  obtain ⟨z, hz⟩ := h
  have hget : p[u.length]? = some '<' := by
    have : (p ++ z)[u.length]? = some '<' := by simp [hz]
    rwa [List.getElem?_append_left (by omega)] at this
  apply hp
  rw [List.mem_iff_getElem?]
  have hpos : 0 < u.length := List.length_pos_iff.2 hu
  refine ⟨u.length - 1, ?_⟩
  rw [List.getElem?_tail, Nat.sub_add_cancel hpos]
  exact hget

section Table

theorem basicTags_eq : basicTags =
    [⟨"<think>".toList, .openThink⟩, ⟨"<|im_start|>".toList, .remove⟩,
     ⟨"<|start|>".toList, .remove⟩, ⟨"<|channel|>".toList, .remove⟩,
     ⟨"<|message|>".toList, .remove⟩, ⟨"<|end|>".toList, .remove⟩] := by
  decide +kernel

theorem basic_mem_tags {tag : Tag} (h : tag ∈ basicTags) : tag ∈ tags :=
  (List.mem_filter.1 h).1

theorem basic_or_extended {tag : Tag} (h : tag ∈ tags) : tag ∈ basicTags ∨ tag ∈ extendedTags := by
  by_cases hshort : tags.any fun other =>
      other.text.isPrefixOf tag.text && other.text != tag.text
  · exact Or.inr (List.mem_filter.2 ⟨h, hshort⟩)
  · exact Or.inl (List.mem_filter.2 ⟨h, by simpa using hshort⟩)

/-- What all tags have in common. -/
theorem tags_table : ∀ tag ∈ tags, tag.text = '<' :: tag.text.tail ∧
    tag.text.getD 1 ' ' ≠ '/' ∧ 1 < tag.text.length := by
  decide +kernel

/-- What the basic tags have in common; none of them starts with another one. -/
theorem basicTags_table : ∀ tag ∈ basicTags, '<' ∉ tag.text.tail ∧
    (tag.kind = .openThink ↔ tag.text = openThink) ∧ tag.kind ≠ .openChannel ∧
      ∀ other ∈ basicTags, tag.text.isPrefixOf other.text → tag = other := by
  rw [basicTags_eq]
  decide +kernel

theorem tag_cons {tag : Tag} (h : tag ∈ tags) : tag.text = '<' :: tag.text.tail :=
  (tags_table tag h).1

theorem tag_length_pos {tag : Tag} (h : tag ∈ tags) : 0 < tag.text.length := by
  rw [tag_cons h]
  exact Nat.succ_pos _

theorem basic_tail {tag : Tag} (h : tag ∈ basicTags) : '<' ∉ tag.text.tail :=
  (basicTags_table tag h).1

theorem basic_eq_of_start {a b : Tag} (ha : a ∈ basicTags) (hb : b ∈ basicTags)
    (h : a.text.isPrefixOf b.text) : a = b :=
  (basicTags_table a ha).2.2.2 b hb h

theorem basic_openThink_iff {tag : Tag} (h : tag ∈ basicTags) :
    tag.kind = .openThink ↔ tag.text = openThink :=
  (basicTags_table tag h).2.1

theorem basic_not_channel {tag : Tag} (h : tag ∈ basicTags) : tag.kind ≠ .openChannel :=
  (basicTags_table tag h).2.2.1

theorem openThink_mem : ⟨openThink, .openThink⟩ ∈ basicTags := by
  rw [basicTags_eq]
  exact List.mem_cons_self

theorem closeThink_eq : closeThink = '<' :: "/think>".toList := by decide

theorem openThink_eq : openThink = '<' :: "think>".toList := by decide

theorem closeThink_tail : '<' ∉ closeThink.tail := by decide

/-- No tag has the second byte of the closing tag. -/
theorem tag_not_close {tag : Tag} (h : tag ∈ tags) (t : Text) :
    ¬ tag.text <+: '<' :: '/' :: t := by
  obtain ⟨-, hne, hlen⟩ := tags_table tag h
  rintro ⟨z, hz⟩
  apply hne
  have hget : (tag.text ++ z)[1]? = some '/' := by rw [hz]; rfl
  rw [List.getElem?_append_left hlen] at hget
  simp [List.getD, hget]

theorem tag_not_prefix_of_ne {tag : Tag} (h : tag ∈ tags) {c : Char} (hc : c ≠ '<') (t : Text) :
    ¬ tag.text <+: c :: t := by
  rw [tag_cons h]
  rintro ⟨z, hz⟩
  simp only [List.cons_append, List.cons.injEq] at hz
  exact hc hz.1.symm

end Table

theorem matchBasic_sound {t : Text} {tag : Tag} (h : matchBasic t = some tag) :
    tag ∈ basicTags ∧ tag.text <+: t := by
  unfold matchBasic at h
  have hp := List.find?_some h
  exact ⟨List.mem_of_find?_eq_some h, startsWith_iff.1 hp⟩

theorem matchBasic_eq_some_iff {t : Text} {tag : Tag} :
    matchBasic t = some tag ↔ tag ∈ basicTags ∧ tag.text <+: t := by
  refine ⟨matchBasic_sound, ?_⟩
  rintro ⟨hmem, hpre⟩
  cases hf : matchBasic t with
  | none => exact absurd (startsWith_iff.2 hpre) (List.find?_eq_none.1 hf tag hmem)
  | some other =>
      obtain ⟨hother, hopre⟩ := matchBasic_sound hf
      rcases List.prefix_or_prefix_of_prefix hpre hopre with h | h
      · rw [basic_eq_of_start hmem hother (startsWith_iff.2 h)]
      · rw [basic_eq_of_start hother hmem (startsWith_iff.2 h)]

theorem matchBasic_eq_none_iff {t : Text} :
    matchBasic t = none ↔ ∀ tag ∈ basicTags, ¬ tag.text <+: t := by
  simp only [matchBasic, List.find?_eq_none, startsWith_iff]

section Steps

variable {c : Char} {t : Text}

attribute [local simp] readStep

theorem readStep_copy (h : matchBasic (c :: t) = none) :
    readStep (.shown, c :: t) = some ([c], .shown, t) := by
  simp [h]

theorem readStep_tag {tag : Tag} (h : tag ∈ basicTags) (t : Text) :
    readStep (.shown, tag.text ++ t) =
      some ([], if tag.kind = .openThink then .hidden else .shown, t) := by
  have hm : matchBasic (tag.text ++ t) = some tag :=
    matchBasic_eq_some_iff.2 ⟨h, List.prefix_append _ _⟩
  have hdrop : (tag.text ++ t).drop tag.text.length = t := List.drop_left
  obtain ⟨d, z, hz⟩ : ∃ d z, tag.text ++ t = d :: z :=
    ⟨'<', tag.text.tail ++ t, by rw [← List.cons_append, ← tag_cons (basic_mem_tags h)]⟩
  rw [hz] at hm hdrop ⊢
  simp [hm, hdrop]

theorem readStep_close (t : Text) : readStep (.hidden, closeThink ++ t) = some ([], .shown, t) := by
  have hpre : closeThink.isPrefixOf (closeThink ++ t) = true :=
    startsWith_iff.2 (List.prefix_append _ _)
  have hdrop : (closeThink ++ t).drop closeThink.length = t := List.drop_left
  obtain ⟨d, z, hz⟩ : ∃ d z, closeThink ++ t = d :: z := ⟨_, _, rfl⟩
  rw [hz] at hpre hdrop ⊢
  simp [hpre, hdrop]

theorem readStep_skip (h : ¬ closeThink <+: c :: t) :
    readStep (.hidden, c :: t) = some ([], .hidden, t) := by
  have hpre : closeThink.isPrefixOf (c :: t) = false := by
    rw [← Bool.not_eq_true, startsWith_iff]
    exact h
  simp [hpre]

end Steps

/-- What one step of the reading can do. -/
inductive ReadMove : Mode × Text → Text → Mode × Text → Prop
  | copy {c : Char} {t : Text} (h : matchBasic (c :: t) = none) :
      ReadMove (.shown, c :: t) [c] (.shown, t)
  | drop {tag : Tag} {t : Text} (h : tag ∈ basicTags) (hkind : tag.kind ≠ .openThink) :
      ReadMove (.shown, tag.text ++ t) [] (.shown, t)
  | enter (t : Text) : ReadMove (.shown, openThink ++ t) [] (.hidden, t)
  | skip {c : Char} {t : Text} (h : ¬ closeThink <+: c :: t) :
      ReadMove (.hidden, c :: t) [] (.hidden, t)
  | close (t : Text) : ReadMove (.hidden, closeThink ++ t) [] (.shown, t)

theorem readMove {s s' : Mode × Text} {o : Text} (h : readStep s = some (o, s')) :
    ReadMove s o s' := by
  obtain ⟨m, t⟩ := s
  cases t with
  | nil => simp [readStep] at h
  | cons c t =>
      cases m with
      | shown =>
          cases hm : matchBasic (c :: t) with
          | none =>
              rw [readStep_copy hm, Option.some.injEq, Prod.mk.injEq] at h
              obtain ⟨rfl, rfl⟩ := h
              exact .copy hm
          | some tag =>
              obtain ⟨htag, z, hz⟩ := matchBasic_sound hm
              rw [← hz, readStep_tag htag, Option.some.injEq, Prod.mk.injEq] at h
              obtain ⟨rfl, rfl⟩ := h
              rw [← hz]
              by_cases hkind : tag.kind = .openThink
              · rw [if_pos hkind, (basic_openThink_iff htag).1 hkind]
                exact .enter z
              · rw [if_neg hkind]
                exact .drop htag hkind
      | hidden =>
          by_cases hclose : closeThink <+: c :: t
          · obtain ⟨z, hz⟩ := hclose
            rw [← hz, readStep_close, Option.some.injEq, Prod.mk.injEq] at h
            obtain ⟨rfl, rfl⟩ := h
            exact hz ▸ .close z
          · rw [readStep_skip hclose, Option.some.injEq, Prod.mk.injEq] at h
            obtain ⟨rfl, rfl⟩ := h
            exact .skip hclose

theorem readStep_unread (s : Mode × Text) (o : Text) (s' : Mode × Text)
    (h : readStep s = some (o, s')) : unread s' < unread s := by
  have hopen : openThink.length = 7 := by decide
  have hclose : closeThink.length = 8 := by decide
  cases readMove h with
  | copy => simp [unread]
  | drop htag =>
      have hpos := tag_length_pos (basic_mem_tags htag)
      simp only [unread, List.length_append]
      omega
  | enter => simp only [unread, List.length_append]; omega
  | skip => simp [unread]
  | close => simp only [unread, List.length_append]; omega

theorem readStep_suffix {s s' : Mode × Text} {o : Text} (h : readStep s = some (o, s')) :
    s'.2 <:+ s.2 := by
  cases readMove h with
  | copy => exact List.suffix_cons _ _
  | drop => exact List.suffix_append _ _
  | enter => exact List.suffix_append _ _
  | skip => exact List.suffix_cons _ _
  | close => exact List.suffix_append _ _

theorem reads_suffix {s s' : Mode × Text} {o : Text} (h : Reads readStep s o s') :
    s'.2 <:+ s.2 := by
  induction h with
  | refl => exact List.suffix_refl _
  | cons hstep _ ih => exact ih.trans (readStep_suffix hstep)

/-- A reading that starts outside a block and ends inside one went through an opening tag. -/
theorem reads_through_open {s s' : Mode × Text} {o : Text} (h : Reads readStep s o s')
    (hs' : s'.1 = .hidden) : (s.1 = .hidden ∧ o = []) ∨
      ∃ z, Reads readStep s o (.shown, openThink ++ z) ∧ s'.2.length ≤ z.length := by
  induction h with
  | refl s => exact Or.inl ⟨hs', rfl⟩
  | cons hstep hrest ih =>
      rcases ih hs' with ⟨hs₁, rfl⟩ | ⟨z, hz, hlen⟩
      · cases readMove hstep with
        | copy => cases hs₁
        | drop => cases hs₁
        | enter t => exact Or.inr ⟨t, .refl _, (reads_suffix hrest).length_le⟩
        | skip => exact Or.inl ⟨rfl, rfl⟩
        | close => cases hs₁
      · exact Or.inr ⟨z, .cons hstep hz, hlen⟩

theorem visible_of_reads {m m' : Mode} {t t' o : Text} (h : ReadsTo m t o m' t') :
    visible m t = o ++ visible m' t' :=
  Reads.total_eq readStep_unread h

theorem ReadsTo.length_le {m m' : Mode} {t t' o : Text} (h : ReadsTo m t o m' t') :
    t'.length ≤ t.length :=
  Reads.size_le readStep_unread h

theorem ReadsTo.suffix {m m' : Mode} {t t' o : Text} (h : ReadsTo m t o m' t') : t' <:+ t :=
  reads_suffix h

/-- The reading that goes further continues the other one. -/
theorem ReadsTo.continues {m m₁ m₂ : Mode} {t t₁ t₂ o₁ o₂ : Text} (h₁ : ReadsTo m t o₁ m₁ t₁)
    (h₂ : ReadsTo m t o₂ m₂ t₂) (hle : t₂.length ≤ t₁.length) :
    ∃ o, ReadsTo m₁ t₁ o m₂ t₂ ∧ o₂ = o₁ ++ o :=
  Reads.continues readStep_unread h₁ h₂ hle

theorem ReadsTo.eq_of_length_le {m m' : Mode} {t t' o : Text} (h : ReadsTo m t o m' t')
    (hle : t.length ≤ t'.length) : m' = m ∧ t' = t ∧ o = [] := by
  obtain ⟨heq, ho⟩ := Reads.eq_of_size_le readStep_unread h hle
  obtain ⟨rfl, rfl⟩ := Prod.mk.inj heq
  exact ⟨rfl, rfl, ho⟩

section Reads

variable {c : Char} {t : Text}

theorem reads_copy (h : matchBasic (c :: t) = none) : ReadsTo .shown (c :: t) [c] .shown t :=
  Reads.single (readStep_copy h)

theorem reads_tag (tag : Tag) (h : tag ∈ basicTags) :
    ReadsTo .shown (tag.text ++ t) [] (if tag.kind = .openThink then .hidden else .shown) t :=
  Reads.single (readStep_tag h t)

theorem reads_open : ReadsTo .shown (openThink ++ t) [] .hidden t :=
  reads_tag ⟨openThink, .openThink⟩ openThink_mem

theorem reads_close : ReadsTo .hidden (closeThink ++ t) [] .shown t :=
  Reads.single (readStep_close t)

theorem reads_skip (h : ¬ closeThink <+: c :: t) : ReadsTo .hidden (c :: t) [] .hidden t :=
  Reads.single (readStep_skip h)

end Reads

theorem reads_plain {p t : Text} (hp : '<' ∉ p) : ReadsTo .shown (p ++ t) p .shown t := by
  induction p with
  | nil => exact .refl _
  | cons c p ih =>
      have hc : c ≠ '<' := fun h => hp (by simp [h])
      have hnone : matchBasic (c :: (p ++ t)) = none :=
        matchBasic_eq_none_iff.2 fun tag htag => tag_not_prefix_of_ne (basic_mem_tags htag) hc _
      exact Reads.trans (reads_copy hnone) (ih fun h => hp (by simp [h]))

/-- Outside a block the closing tag is ordinary text. -/
theorem reads_literal_close (t : Text) : ReadsTo .shown (closeThink ++ t) closeThink .shown t := by
  have hnone : matchBasic (closeThink ++ t) = none :=
    matchBasic_eq_none_iff.2 fun tag htag => tag_not_close (basic_mem_tags htag) _
  exact Reads.trans (reads_copy hnone) (reads_plain closeThink_tail)

/-- Wherever a closing tag occurs, reading comes out of it outside a block. -/
theorem reads_past_close (m : Mode) (u t : Text) :
    ∃ o, ReadsTo m (u ++ (closeThink ++ t)) o .shown t := by
  induction hn : u.length using Nat.strong_induction_on generalizing m u with
  | h n ih =>
      cases u with
      | nil =>
          cases m with
          | shown => exact ⟨_, reads_literal_close t⟩
          | hidden => exact ⟨_, reads_close⟩
      | cons c u =>
          have hover : ∀ p : Text, '<' ∉ p.tail → p <+: (c :: u) ++ (closeThink ++ t) →
              ∃ u', c :: u = p ++ u' := by
            intro p htail hpre
            have hlen := length_le_of_prefix_append htail (List.cons_ne_nil c u) hpre
            obtain ⟨u', hu'⟩ := List.prefix_of_prefix_length_le hpre (List.prefix_append _ _) hlen
            exact ⟨u', hu'.symm⟩
          have hskip : ∀ m', ∃ o, ReadsTo m' (u ++ (closeThink ++ t)) o .shown t := by
            intro m'
            exact ih u.length (by simp [← hn]) m' u rfl
          cases m with
          | shown =>
              cases hm : matchBasic (c :: (u ++ (closeThink ++ t))) with
              | none =>
                  obtain ⟨o, ho⟩ := hskip .shown
                  exact ⟨_, Reads.trans (reads_copy hm) ho⟩
              | some tag =>
                  obtain ⟨hmem, hpre⟩ := matchBasic_sound hm
                  obtain ⟨u', hu'⟩ := hover tag.text (basic_tail hmem) hpre
                  have hlt : u'.length < n := by
                    rw [← hn, hu', tag_cons (basic_mem_tags hmem)]
                    simp
                  obtain ⟨o, ho⟩ := ih u'.length hlt
                    (if tag.kind = .openThink then .hidden else .shown) u' rfl
                  rw [hu', List.append_assoc]
                  exact ⟨_, Reads.trans (reads_tag tag hmem) ho⟩
          | hidden =>
              by_cases hclose : closeThink <+: c :: (u ++ (closeThink ++ t))
              · obtain ⟨u', hu'⟩ := hover closeThink closeThink_tail hclose
                have hlt : u'.length < n := by
                  rw [← hn, hu', List.length_append]
                  have : closeThink.length = 8 := by decide
                  omega
                obtain ⟨o, ho⟩ := ih u'.length hlt .shown u' rfl
                rw [hu', List.append_assoc]
                exact ⟨_, Reads.trans reads_close ho⟩
              · obtain ⟨o, ho⟩ := hskip .hidden
                exact ⟨_, Reads.trans (reads_skip hclose) ho⟩

/-- A reading that leaves a block passes a closing tag. -/
theorem close_of_hidden_to_shown {t o r : Text} (h : ReadsTo .hidden t o .shown r) :
    ∃ u y o', t = u ++ (closeThink ++ y) ∧ ReadsTo .shown y o' .shown r := by
  induction t generalizing o with
  | nil =>
      cases h with
      | cons hstep => simp [readStep] at hstep
  | cons c t ih =>
      cases h with
      | cons hstep hrest =>
          by_cases hclose : closeThink <+: c :: t
          · obtain ⟨y, hy⟩ := hclose
            rw [← hy, readStep_close, Option.some.injEq, Prod.mk.injEq] at hstep
            obtain ⟨rfl, rfl⟩ := hstep
            exact ⟨[], y, _, hy.symm, hrest⟩
          · rw [readStep_skip hclose, Option.some.injEq, Prod.mk.injEq] at hstep
            obtain ⟨rfl, rfl⟩ := hstep
            obtain ⟨u, y, o', rfl, hy⟩ := ih hrest
            exact ⟨c :: u, y, o', rfl, hy⟩

/-- Where no closing tag begins, a block is skipped. -/
theorem reads_skip_all {x z : Text} (h : ∀ s, s ≠ [] → s <:+ x → ¬ closeThink <+: s ++ z) :
    ReadsTo .hidden (x ++ z) [] .hidden z := by
  induction x with
  | nil => exact .refl _
  | cons c x ih =>
      have hhead := h (c :: x) (List.cons_ne_nil c x) (List.suffix_refl _)
      have htail := ih fun s hs hsuffix => h s hs (hsuffix.trans (List.suffix_cons c x))
      exact Reads.trans (reads_skip hhead) htail

section After

variable {p x y : Text}

theorem after_cons (c : Char) (x : Text) : after p (c :: x) =
    if p <+: c :: x then some ((c :: x).drop p.length) else after p x := by
  rw [after]
  simp only [startsWith_iff]

theorem after_eq_some_suffix (h : after p x = some y) : ∃ u, x = u ++ (p ++ y) := by
  induction x with
  | nil => simp [after] at h
  | cons c x ih =>
      rw [after_cons] at h
      split_ifs at h with hp
      · obtain ⟨z, hz⟩ := hp
        refine ⟨[], ?_⟩
        rw [← hz, List.drop_left, Option.some.injEq] at h
        rw [← hz, h, List.nil_append]
      · obtain ⟨u, rfl⟩ := ih h
        exact ⟨c :: u, rfl⟩

theorem not_starts_of_after_eq_none (h : after p x = none) {s : Text} (hs : s ≠ [])
    (hsuffix : s <:+ x) : ¬ p <+: s := by
  induction x with
  | nil => exact absurd (List.suffix_nil.1 hsuffix) hs
  | cons c x ih =>
      rw [after_cons] at h
      split_ifs at h with hp
      rcases List.suffix_cons_iff.1 hsuffix with rfl | hsuffix
      · exact hp
      · exact ih h hsuffix

theorem after_ne_none {u : Text} (hp : p ≠ []) : after p (u ++ (p ++ y)) ≠ none := by
  intro h
  have hs : p ++ y ≠ [] := fun hnil => hp (List.append_eq_nil_iff.1 hnil).1
  exact not_starts_of_after_eq_none h hs (List.suffix_append _ _) (List.prefix_append _ _)

/-- Inside a block, reading goes on behind the first closing tag. -/
theorem reads_after (h : after closeThink x = some y) (z : Text) :
    ReadsTo .hidden (x ++ z) [] .shown (y ++ z) := by
  induction x with
  | nil => simp [after] at h
  | cons c x ih =>
      rw [after_cons] at h
      split_ifs at h with hp
      · obtain ⟨v, hv⟩ := hp
        rw [← hv, List.drop_left, Option.some.injEq] at h
        rw [← hv, h, List.append_assoc]
        exact reads_close
      · have hcons : ¬ closeThink <+: c :: (x ++ z) := by
          intro hpre
          obtain ⟨u, hu⟩ := after_eq_some_suffix h
          have hlen : closeThink.length ≤ (c :: x).length := by
            rw [hu]
            simp only [List.length_cons, List.length_append]
            omega
          exact hp (List.prefix_of_prefix_length_le hpre (List.prefix_append (c :: x) z) hlen)
        exact Reads.trans (reads_skip hcons) (ih h)

end After

end InferDeck.Gateway
