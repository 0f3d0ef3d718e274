import InferDeck.TagReader

/-!
# One flush of the sanitizer against the reading

On a text without extended tags, `flush` reads its buffer as far as the buffer decides the reading.
It then either erases what it has read, or, in the middle of a block, returns early and keeps the
whole buffer, the part in front of the block included.
-/

namespace InferDeck.Gateway

open Transducer

def Mode.depth : Mode → ℕ
  | .shown => 0
  | .hidden => 1

/-- What a flush without `force` may leave in the buffer: the start of a tag, outside a block. -/
def Pending : Mode → Text → Prop
  | .hidden, rest => rest = []
  | .shown, rest => rest = [] ∨ matchTag rest = none ∧ ∃ tag ∈ tags, rest <+: tag.text

/-- Reading `t` from mode `m`, no extended tag is met while more than `n` bytes are left. -/
def OnlyBasicFrom (m : Mode) (t : Text) (n : ℕ) : Prop :=
  ∀ o r, ReadsTo m t o .shown r → n < r.length → ∀ tag ∈ extendedTags, ¬ tag.text <+: r

/-- The flush of `b`, with `w` still to come, erased what it read. -/
structure Ended (m : Mode) (b w : Text) (r : FlushResult) (m' : Mode) (rest : Text) : Prop where
  thinkDepth : r.thinkDepth = m'.depth
  left : r.rest = some rest
  reads : ReadsTo m (b ++ w) r.out m' (rest ++ w)
  pending : Pending m' rest
  opened : m' = .hidden → (m = .hidden ∧ b = []) ∨ openThink <:+ b

/-- The flush of `b` returned inside a block: it read `b₁` and keeps `b₁` with the unread `b₂`. -/
structure Held (m : Mode) (b w : Text) (r : FlushResult) (b₁ b₂ : Text) : Prop where
  thinkDepth : r.thinkDepth = 1
  left : r.rest = none
  split : b = b₁ ++ b₂
  inside : b₂ ≠ []
  unclosed : after closeThink b₂ = none
  opened : (m = .hidden ∧ b₁ = []) ∨ openThink <:+ b₁
  reads : ReadsTo m (b ++ w) r.out .hidden (b₂ ++ w)

def FlushSpec (m : Mode) (b w : Text) (r : FlushResult) : Prop :=
  r.channelDepth = 0 ∧ ((∃ m' rest, Ended m b w r m' rest) ∨ ∃ b₁ b₂, Held m b w r b₁ b₂)

section Table

theorem matchTag_sound {t : Text} {tag : Tag} (h : matchTag t = some tag) :
    tag ∈ tags ∧ tag.text <+: t := by
  unfold matchTag at h
  have hp := List.find?_some h
  exact ⟨List.mem_of_find?_eq_some h, startsWith_iff.1 hp⟩

theorem matchTag_eq_none_iff {t : Text} :
    matchTag t = none ↔ ∀ tag ∈ tags, ¬ tag.text <+: t := by
  simp only [matchTag, List.find?_eq_none, startsWith_iff]

theorem isTagPrefix_iff {rest : Text} (h : matchTag rest = none) :
    isTagPrefix rest ↔ ∃ tag ∈ tags, rest <+: tag.text := by
  simp only [isTagPrefix, List.any_eq_true, startsWith_iff]
  refine exists_congr fun tag => and_congr_right fun htag => ?_
  constructor
  · intro hpre
    have hlong : rest.length ≤ tag.text.length := by
      by_contra hshort
      rw [List.take_of_length_le (by omega)] at hpre
      exact matchTag_eq_none_iff.1 h tag htag hpre
    have heq : tag.text.take rest.length = rest :=
      hpre.eq_of_length (by rw [List.length_take]; omega)
    exact heq ▸ List.take_prefix _ _
  · rintro ⟨z, hz⟩
    rw [← hz, List.take_left]

/-- A tag with a second `<` has a shorter tag in front of it. -/
theorem matchTag_before_inner {tag : Tag} (h : tag ∈ tags) {i : ℕ} (hi : 0 < i)
    (hlt : tag.text[i]? = some '<') : matchTag (tag.text.take i) ≠ none := by
  have htable : ∀ tag ∈ tags, ∀ i ∈ List.range tag.text.length, 0 < i →
      tag.text[i]? = some '<' → matchTag (tag.text.take i) ≠ none := by decide +kernel
  have hlen : i < tag.text.length := by
    by_contra hge
    rw [List.getElem?_eq_none (by omega)] at hlt
    exact absurd hlt (by simp)
  exact htable tag h i (List.mem_range.2 hlen) hi hlt

end Table

theorem matchTag_none_of_start {p t : Text} (h : matchTag t = none) (hp : p <+: t) :
    matchTag p = none :=
  matchTag_eq_none_iff.2 fun tag htag hpre => matchTag_eq_none_iff.1 h tag htag (hpre.trans hp)

/-- A pending text is a `<` followed by bytes that are no `<`. -/
theorem pending_cons {c : Char} {rest : Text} (h : Pending .shown (c :: rest)) :
    c = '<' ∧ '<' ∉ rest := by
  obtain ⟨hnone, tag, htag, hpre⟩ := h.resolve_left (List.cons_ne_nil c rest)
  constructor
  · rw [tag_cons htag] at hpre
    exact (List.cons_prefix_cons.1 hpre).1
  · intro hmem
    obtain ⟨i, hi, hget'⟩ := List.mem_iff_getElem.1 hmem
    obtain ⟨z, hz⟩ := hpre
    have hlen : i + 1 < (c :: rest).length := by
      rw [List.length_cons]
      omega
    have hget : tag.text[i + 1]? = some '<' := by
      rw [← hz, List.getElem?_append_left hlen, List.getElem?_cons_succ,
        List.getElem?_eq_getElem hi, hget']
    have htake : tag.text.take (i + 1) <+: c :: rest := by
      rw [← hz, List.take_append_of_le_length hlen.le]
      exact List.take_prefix _ _
    exact matchTag_before_inner htag (Nat.succ_pos i) hget (matchTag_none_of_start hnone htake)

theorem OnlyBasicFrom.of_reads {m m' : Mode} {t t' o : Text} {n : ℕ} (h : OnlyBasicFrom m t n)
    (hreads : ReadsTo m t o m' t') : OnlyBasicFrom m' t' n :=
  fun o' r hr hlen => h (o ++ o') r (Reads.trans hreads hr) hlen

/-- A flush that goes on after a step of the reading. -/
theorem FlushSpec.step {m m₁ : Mode} {p b w o : Text} {r : FlushResult}
    (hreads : ReadsTo m ((p ++ b) ++ w) o m₁ (b ++ w)) (hopen : m₁ = .hidden → openThink <:+ p)
    (h : FlushSpec m₁ b w r) : FlushSpec m (p ++ b) w (r.emit o) := by
  refine ⟨h.1, ?_⟩
  rcases h.2 with ⟨m', rest, hend⟩ | ⟨b₁, b₂, hheld⟩
  · refine Or.inl ⟨m', rest, hend.thinkDepth, hend.left, Reads.trans hreads hend.reads,
      hend.pending, fun hm' => Or.inr ?_⟩
    rcases hend.opened hm' with ⟨hm₁, rfl⟩ | hsuffix
    · simpa using hopen hm₁
    · exact hsuffix.trans (List.suffix_append p b)
  · refine Or.inr ⟨p ++ b₁, b₂, hheld.thinkDepth, hheld.left, ?_, hheld.inside, hheld.unclosed,
      Or.inr ?_, Reads.trans hreads hheld.reads⟩
    · rw [hheld.split, List.append_assoc]
    · rcases hheld.opened with ⟨hm₁, rfl⟩ | hsuffix
      · simpa using hopen hm₁
      · exact hsuffix.trans (List.suffix_append p b₁)

theorem visible_nil (m : Mode) : visible m [] = [] := rfl

theorem flushLoop_nil (force : Bool) (fuel think channel : ℕ) :
    flushLoop force fuel think channel [] = ⟨[], think, channel, some []⟩ := by
  cases fuel <;> rfl

theorem flushSpec_nil (m : Mode) (w : Text) : FlushSpec m [] w ⟨[], m.depth, 0, some []⟩ := by
  refine ⟨rfl, Or.inl ⟨m, [], rfl, rfl, .refl _, ?_, fun h => Or.inl ⟨h, rfl⟩⟩⟩
  cases m with
  | shown => exact Or.inl rfl
  | hidden => rfl

/-- The tag that a flush matches is basic, so it is the one that the reading drops. -/
theorem basic_of_matchTag {b w : Text} {tag : Tag} {n : ℕ} (h : matchTag b = some tag)
    (hbasic : OnlyBasicFrom .shown (b ++ w) n) (hn : n < (b ++ w).length) :
    tag ∈ basicTags ∧ ∃ b', b = tag.text ++ b' := by
  obtain ⟨htag, b', hb'⟩ := matchTag_sound h
  refine ⟨(basic_or_extended htag).resolve_right fun hext => ?_, b', hb'.symm⟩
  have hpre : tag.text <+: b ++ w := (matchTag_sound h).2.trans (List.prefix_append _ _)
  exact hbasic [] (b ++ w) (.refl _) hn tag hext hpre

/-- A `<` that starts no tag in the buffer, and is not the start of one, starts no tag at all. -/
theorem matchBasic_none_of_not_pending {b w : Text} (hnone : matchTag b = none)
    (hpre : isTagPrefix b = false) : matchBasic (b ++ w) = none := by
  refine matchBasic_eq_none_iff.2 fun tag htag htext => ?_
  rcases List.prefix_or_prefix_of_prefix htext (List.prefix_append b w) with h | h
  · exact matchTag_eq_none_iff.1 hnone tag (basic_mem_tags htag) h
  · have hstart := (isTagPrefix_iff hnone).2 ⟨tag, basic_mem_tags htag, h⟩
    simp [hpre] at hstart

theorem depth_after_tag {tag : Tag} (h : tag ∈ basicTags) :
    (if tag.kind = .openThink then Mode.shown.depth + 1 else Mode.shown.depth) =
        (if tag.kind = .openThink then Mode.hidden else Mode.shown).depth ∧
      (if tag.kind = .openChannel then 0 + 1 else 0) = 0 := by
  refine ⟨?_, if_neg (basic_not_channel h)⟩
  split_ifs <;> rfl

theorem flushLoop_tag {force : Bool} {fuel : ℕ} {b : Text} {tag : Tag} (h : tag ∈ basicTags)
    (hm : matchTag (tag.text ++ b) = some tag) :
    flushLoop force (fuel + 1) Mode.shown.depth 0 (tag.text ++ b) =
      flushLoop force fuel (if tag.kind = .openThink then Mode.hidden else Mode.shown).depth 0 b := by
  obtain ⟨hdepth, hchannel⟩ := depth_after_tag h
  have hdrop : (tag.text ++ b).drop tag.text.length = b := List.drop_left
  obtain ⟨z, hz⟩ : ∃ z, tag.text ++ b = '<' :: z :=
    ⟨tag.text.tail ++ b, by rw [← List.cons_append, ← tag_cons (basic_mem_tags h)]⟩
  rw [hz] at hm hdrop ⊢
  rw [flushLoop]
  simp only [hm, hdrop, hdepth, hchannel]
  rfl

theorem flushLoop_hidden (force : Bool) (fuel : ℕ) (c : Char) (b : Text) :
    flushLoop force (fuel + 1) Mode.hidden.depth 0 (c :: b) =
      match after closeThink (c :: b) with
      | some b' => flushLoop force fuel Mode.shown.depth 0 b'
      | none => ⟨[], 1, 0, if force then some [] else none⟩ := rfl

theorem flushLoop_copy {force : Bool} {fuel : ℕ} {c : Char} (hc : c ≠ '<') (b : Text) :
    flushLoop force (fuel + 1) Mode.shown.depth 0 (c :: b) =
      (flushLoop force fuel Mode.shown.depth 0 b).emit [c] := by
  rw [flushLoop]
  simp [Mode.depth, hc]

theorem flushLoop_lt {force : Bool} {fuel : ℕ} {b : Text} (hm : matchTag ('<' :: b) = none) :
    flushLoop force (fuel + 1) Mode.shown.depth 0 ('<' :: b) =
      if isTagPrefix ('<' :: b) && !force then ⟨[], 0, 0, some ('<' :: b)⟩
      else (flushLoop force fuel Mode.shown.depth 0 b).emit ['<'] := by
  rw [flushLoop]
  simp [Mode.depth, hm]

theorem matchBasic_none_of_ne {c : Char} (hc : c ≠ '<') (t : Text) : matchBasic (c :: t) = none :=
  matchBasic_eq_none_iff.2 fun _ htag => tag_not_prefix_of_ne (basic_mem_tags htag) hc t

theorem openThink_suffix_of_tag {tag : Tag} (h : tag ∈ basicTags)
    (hm : (if tag.kind = .openThink then Mode.hidden else Mode.shown) = .hidden) :
    openThink <:+ tag.text := by
  have hkind : tag.kind = .openThink := by
    by_contra hne
    simp [hne] at hm
  rw [(basic_openThink_iff h).1 hkind]

theorem length_after_lt {x y : Text} (h : after closeThink x = some y) : y.length < x.length := by
  obtain ⟨u, rfl⟩ := after_eq_some_suffix h
  rw [closeThink_eq]
  simp only [List.length_append, List.length_cons]
  omega

theorem length_after_tag {tag : Tag} (h : tag ∈ basicTags) (b : Text) :
    b.length < (tag.text ++ b).length := by
  rw [tag_cons (basic_mem_tags h)]
  simp only [List.cons_append, List.length_cons, List.length_append]
  omega

theorem flushLoop_spec (fuel : ℕ) (m : Mode) (b w : Text) (hfuel : b.length ≤ fuel)
    (hbasic : OnlyBasicFrom m (b ++ w) w.length) :
    FlushSpec m b w (flushLoop false fuel m.depth 0 b) := by
  induction fuel generalizing m b with
  | zero =>
      obtain rfl := List.length_eq_zero_iff.1 (Nat.le_zero.1 hfuel)
      exact flushSpec_nil m w
  | succ fuel ih =>
      cases b with
      | nil => rw [flushLoop_nil]; exact flushSpec_nil m w
      | cons c b =>
          have hlen : w.length < (c :: b ++ w).length := by
            simp only [List.cons_append, List.length_cons, List.length_append]
            omega
          cases m with
          | hidden =>
              rw [flushLoop_hidden]
              cases hafter : after closeThink (c :: b) with
              | none =>
                  exact ⟨rfl, Or.inr ⟨[], c :: b, rfl, rfl, rfl, List.cons_ne_nil c b, hafter,
                    Or.inl ⟨rfl, rfl⟩, .refl _⟩⟩
              | some y =>
                  obtain ⟨u, hu⟩ := after_eq_some_suffix hafter
                  have hreads := reads_after hafter w
                  have hy := length_after_lt hafter
                  rw [hu, ← List.append_assoc] at hreads ⊢
                  exact FlushSpec.step hreads (by simp)
                    (ih .shown y (by omega) (hbasic.of_reads (reads_after hafter w)))
          | shown =>
              by_cases hc : c = '<'
              · subst hc
                cases hm : matchTag ('<' :: b) with
                | some tag =>
                    obtain ⟨htag, b', hb'⟩ := basic_of_matchTag hm hbasic hlen
                    have hshort := length_after_tag htag b'
                    rw [hb'] at hm hbasic hfuel ⊢
                    rw [flushLoop_tag htag hm]
                    have hreads : ReadsTo .shown (tag.text ++ b' ++ w) []
                        (if tag.kind = .openThink then .hidden else .shown) (b' ++ w) := by
                      rw [List.append_assoc]
                      exact reads_tag tag htag
                    exact FlushSpec.step hreads (openThink_suffix_of_tag htag)
                      (ih _ b' (by omega) (hbasic.of_reads hreads))
                | none =>
                    rw [flushLoop_lt hm]
                    cases hpre : isTagPrefix ('<' :: b) with
                    | true =>
                        have hpend : Pending .shown ('<' :: b) :=
                          Or.inr ⟨hm, (isTagPrefix_iff hm).1 hpre⟩
                        exact ⟨rfl, Or.inl ⟨.shown, '<' :: b, rfl, rfl, .refl _, hpend, by simp⟩⟩
                    | false =>
                        have hreads : ReadsTo .shown ((['<'] ++ b) ++ w) ['<'] .shown (b ++ w) :=
                          reads_copy (matchBasic_none_of_not_pending hm hpre)
                        exact FlushSpec.step hreads (by simp)
                          (ih .shown b (by simpa using hfuel) (hbasic.of_reads hreads))
              · have hreads : ReadsTo .shown (([c] ++ b) ++ w) [c] .shown (b ++ w) :=
                  reads_copy (matchBasic_none_of_ne hc (b ++ w))
                rw [flushLoop_copy hc]
                exact FlushSpec.step hreads (by simp)
                  (ih .shown b (by simpa using hfuel) (hbasic.of_reads hreads))

/-- The forced flush shows what the reading shows of the text that is left. -/
theorem flushLoop_force (fuel : ℕ) (m : Mode) (b : Text) (hfuel : b.length ≤ fuel)
    (hbasic : OnlyBasicFrom m b 0) : (flushLoop true fuel m.depth 0 b).out = visible m b := by
  induction fuel generalizing m b with
  | zero =>
      obtain rfl := List.length_eq_zero_iff.1 (Nat.le_zero.1 hfuel)
      rfl
  | succ fuel ih =>
      cases b with
      | nil => rw [flushLoop_nil, visible_nil]
      | cons c b =>
          cases m with
          | hidden =>
              rw [flushLoop_hidden]
              cases hafter : after closeThink (c :: b) with
              | none =>
                  have hskip : ReadsTo .hidden (c :: b ++ []) [] .hidden [] :=
                    reads_skip_all fun s hs hsuffix => by
                      rw [List.append_nil]
                      exact not_starts_of_after_eq_none hafter hs hsuffix
                  rw [List.append_nil] at hskip
                  rw [visible_of_reads hskip, visible_nil]
                  rfl
              | some y =>
                  have hreads : ReadsTo .hidden (c :: b) [] .shown y := by
                    simpa using reads_after hafter []
                  have hy := length_after_lt hafter
                  rw [visible_of_reads hreads, List.nil_append]
                  exact ih .shown y (by omega) (hbasic.of_reads hreads)
          | shown =>
              by_cases hc : c = '<'
              · subst hc
                cases hm : matchTag ('<' :: b) with
                | some tag =>
                    have hbasic' : OnlyBasicFrom .shown ('<' :: b ++ []) 0 := by simpa using hbasic
                    obtain ⟨htag, b', hb'⟩ := basic_of_matchTag hm hbasic' (by simp)
                    have hshort := length_after_tag htag b'
                    rw [hb'] at hm hbasic hfuel ⊢
                    rw [flushLoop_tag htag hm, visible_of_reads (reads_tag tag htag),
                      List.nil_append]
                    exact ih _ b' (by omega) (hbasic.of_reads (reads_tag tag htag))
                | none =>
                    have hnone : matchBasic ('<' :: b) = none :=
                      matchBasic_eq_none_iff.2 fun tag htag =>
                        matchTag_eq_none_iff.1 hm tag (basic_mem_tags htag)
                    rw [flushLoop_lt hm, visible_of_reads (reads_copy hnone)]
                    simp only [Bool.not_true, Bool.and_false, Bool.false_eq_true, if_false,
                      FlushResult.emit]
                    rw [ih .shown b (by simpa using hfuel) (hbasic.of_reads (reads_copy hnone))]
              · have hnone := matchBasic_none_of_ne hc b
                rw [flushLoop_copy hc, visible_of_reads (reads_copy hnone), FlushResult.emit]
                rw [ih .shown b (by simpa using hfuel) (hbasic.of_reads (reads_copy hnone))]

end InferDeck.Gateway
