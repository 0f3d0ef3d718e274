import InferDeck.SanitizerStream

/-!
# When the output does not depend on the chunks

A text that breaks one of the two conditions has two splittings with different outputs: one that
ends a token in the middle of an extended tag, or one that ends a token inside a block that opens
behind visible text and an earlier closing tag.
-/

namespace InferDeck.Gateway

open Transducer StreamingSanitizer

theorem ChunkingIndependent.stream_eq {t : Text} (h : ChunkingIndependent t)
    {tokens tokens' : List Text} (hflat : tokens.flatten = t) (hflat' : tokens'.flatten = t) :
    stream {} tokens = stream {} tokens' := by
  rw [h tokens hflat, h tokens' hflat']

section Extended

/-- A tag that a split inside it turns into a shorter tag and a visible word. -/
structure SplitTag (tag : Tag) (short word : Text) : Prop where
  starts : short ++ word <+: tag.text
  matchLong : matchTag (short ++ word) = some ⟨short ++ word, .remove⟩
  matchShort : matchTag short = some ⟨short, .remove⟩
  plain : '<' ∉ word
  visible : word ≠ []

theorem splitTag_of_extended {tag : Tag} (h : tag ∈ extendedTags) :
    ∃ short word, SplitTag tag short word := by
  have htable : ∀ tag ∈ extendedTags, ∃ short ∈ tags.map Tag.text, ∃ long ∈ tags.map Tag.text,
      short <+: long ∧ long <+: tag.text ∧ matchTag long = some ⟨long, .remove⟩ ∧
        matchTag short = some ⟨short, .remove⟩ ∧ '<' ∉ long.drop short.length ∧
        long.drop short.length ≠ [] := by
    decide +kernel
  obtain ⟨short, _, _, _, ⟨word, rfl⟩, hstarts, hlong, hshort, hplain, hvisible⟩ := htable tag h
  rw [List.drop_left] at hplain hvisible
  exact ⟨short, word, hstarts, hlong, hshort, hplain, hvisible⟩

/-- A pending text that a `<` follows is no tag after all. -/
theorem Pending.not_tag {p : Text} (h : Pending .shown p) (hp : p ≠ []) (q : Text) :
    matchTag (p ++ '<' :: q) = none ∧ isTagPrefix (p ++ '<' :: q) = false := by
  obtain ⟨hnone, _⟩ := h.resolve_left hp
  have hinner : ∀ tag ∈ tags, ¬ p ++ ['<'] <+: tag.text := by
    rintro tag htag ⟨z, hz⟩
    have hget : tag.text[p.length]? = some '<' := by rw [← hz]; simp
    have htake : tag.text.take p.length = p := by
      rw [← hz, List.append_assoc, List.take_left]
    have hmatch := matchTag_before_inner htag (List.length_pos_iff.2 hp) hget
    rw [htake] at hmatch
    exact hmatch hnone
  have hsplit : p ++ '<' :: q = p ++ ['<'] ++ q := by simp
  have hnone' : matchTag (p ++ '<' :: q) = none := by
    refine matchTag_eq_none_iff.2 fun tag htag hpre => ?_
    by_cases hlen : tag.text.length ≤ p.length
    · exact matchTag_eq_none_iff.1 hnone tag htag
        (List.prefix_of_prefix_length_le hpre (List.prefix_append _ _) hlen)
    · rw [hsplit] at hpre
      refine hinner tag htag (List.prefix_of_prefix_length_le (List.prefix_append _ _) hpre ?_)
      rw [List.length_append, List.length_singleton]
      omega
  refine ⟨hnone', ?_⟩
  by_contra hprefix
  rw [Bool.not_eq_false, isTagPrefix_iff hnone', hsplit] at hprefix
  obtain ⟨tag, htag, hpre⟩ := hprefix
  exact hinner tag htag ((List.prefix_append _ _).trans hpre)

theorem FlushResult.emit_emit (o o' : Text) (r : FlushResult) :
    (r.emit o').emit o = r.emit (o ++ o') := by
  simp [FlushResult.emit]

theorem FlushResult.emit_nil (r : FlushResult) : r.emit [] = r := rfl

theorem flushLoop_plain (force : Bool) {p : Text} (hp : '<' ∉ p) (fuel : ℕ) (b : Text) :
    flushLoop force (p.length + fuel) Mode.shown.depth 0 (p ++ b) =
      (flushLoop force fuel Mode.shown.depth 0 b).emit p := by
  induction p with
  | nil => rw [List.length_nil, Nat.zero_add, List.nil_append, FlushResult.emit_nil]
  | cons c p ih =>
      have hc : c ≠ '<' := fun h => hp (by simp [h])
      have hlen : (c :: p).length + fuel = (p.length + fuel) + 1 := by
        rw [List.length_cons]
        omega
      rw [hlen, List.cons_append, flushLoop_copy hc, ih fun h => hp (by simp [h]),
        FlushResult.emit_emit, List.singleton_append]

theorem flushLoop_pending {p q : Text} (h : Pending .shown p) (fuel : ℕ) :
    flushLoop false (p.length + fuel) Mode.shown.depth 0 (p ++ '<' :: q) =
      (flushLoop false fuel Mode.shown.depth 0 ('<' :: q)).emit p := by
  cases p with
  | nil => rw [List.length_nil, Nat.zero_add, List.nil_append, FlushResult.emit_nil]
  | cons c p =>
      obtain ⟨rfl, hplain⟩ := pending_cons h
      obtain ⟨hnone, hpre⟩ := h.not_tag (List.cons_ne_nil _ _) q
      have hlen : ('<' :: p).length + fuel = (p.length + fuel) + 1 := by
        rw [List.length_cons]
        omega
      rw [List.cons_append] at hnone hpre ⊢
      rw [hlen, flushLoop_lt hnone, hpre, Bool.false_and, if_neg Bool.false_ne_true,
        flushLoop_plain false hplain, FlushResult.emit_emit, List.singleton_append]

/-- A flush of a removed tag, whatever else the table says about longer ones. -/
theorem flushLoop_removed {b : Text} {fuel : ℕ} (h : matchTag b = some ⟨b, .remove⟩) :
    flushLoop false (fuel + 1) Mode.shown.depth 0 b = ⟨[], 0, 0, some []⟩ := by
  obtain ⟨c, hc⟩ : ∃ b', b = '<' :: b' := ⟨_, tag_cons (matchTag_sound h).1⟩
  subst hc
  rw [flushLoop]
  simp [h, Mode.depth, flushLoop_nil]

namespace StreamingSanitizer

/-- Without `force`, behind text that is pending and in front of a removed tag. -/
theorem At.onToken_removed {s : StreamingSanitizer} (h : s.At .shown)
    (hpend : Pending .shown s.buffer) {b : Text} (hb : matchTag b = some ⟨b, .remove⟩) :
    (s.onToken b).1 = s.buffer ∧ (s.onToken b).2.At .shown ∧ (s.onToken b).2.buffer = [] := by
  have hflush : s.tokenFlush .shown b = ⟨s.buffer, 0, 0, some []⟩ := by
    obtain ⟨c, hc⟩ : ∃ b', b = '<' :: b' := ⟨_, tag_cons (matchTag_sound hb).1⟩
    rw [tokenFlush, hc, List.length_append, flushLoop_pending hpend, ← hc]
    have hlen : b.length = (b.length - 1) + 1 := by
      rw [hc]
      simp
    rw [hlen, flushLoop_removed hb, FlushResult.emit, List.append_nil]
  refine ⟨by rw [h.onToken_fst, hflush], h.onToken_at (by rw [hflush]; rfl) (by rw [hflush]), ?_⟩
  rw [h.onToken_buffer, hflush, Option.getD_some]

theorem At.onToken_plain {s : StreamingSanitizer} (h : s.At .shown) (hnil : s.buffer = [])
    {p : Text} (hp : '<' ∉ p) :
    (s.onToken p).1 = p ∧ (s.onToken p).2.At .shown ∧ (s.onToken p).2.buffer = [] := by
  have hflush : s.tokenFlush .shown p = ⟨p, 0, 0, some []⟩ := by
    have hloop := flushLoop_plain false hp 0 []
    rw [List.append_nil, Nat.add_zero, flushLoop_nil] at hloop
    rw [tokenFlush, hnil, List.nil_append, hloop, FlushResult.emit, List.append_nil]
    rfl
  refine ⟨by rw [h.onToken_fst, hflush], h.onToken_at (by rw [hflush]; rfl) (by rw [hflush]), ?_⟩
  rw [h.onToken_buffer, hflush, Option.getD_some]

/-- The counters of raw and clean bytes do not matter to the stream. -/
theorem At.stream_congr {s s' : StreamingSanitizer} {m : Mode} (h : s.At m) (h' : s'.At m)
    (hbuffer : s.buffer = s'.buffer) (tokens : List Text) :
    s.stream tokens = s'.stream tokens := by
  have hsame : ∀ s s' : StreamingSanitizer, s.buffer = s'.buffer → s.thinkDepth = s'.thinkDepth →
      s.channelDepth = s'.channelDepth → s.stream tokens = s'.stream tokens := by
    clear h h' hbuffer s s'
    induction tokens with
    | nil =>
        intro s s' hb ht hc
        simp only [stream, finish, flush, hb, ht, hc]
    | cons k ks ih =>
        intro s s' hb ht hc
        have hout : (s.onToken k).1 = (s'.onToken k).1 := by simp only [onToken, flush, hb, ht, hc]
        rw [stream, stream, hout]
        congr 1
        apply ih <;> simp only [onToken, flush, hb, ht, hc]
  exact hsame s s' hbuffer (h.thinkDepth.trans h'.thinkDepth.symm)
    (h.channelDepth.trans h'.channelDepth.symm)

theorem stream_token (s : StreamingSanitizer) (k : Text) (ks : List Text) :
    s.stream (k :: ks) = (s.onToken k).1 ++ (s.onToken k).2.stream ks := rfl

/-- The word of a split tag comes out exactly where the split is inside the tag. -/
theorem At.stream_splitTag {s : StreamingSanitizer} (h : s.At .shown)
    (hpend : Pending .shown s.buffer) {tag : Tag} {short word : Text}
    (hsplit : SplitTag tag short word) (w : Text) :
    (s.stream [short, word, w]).length =
      (s.stream [short ++ word, w]).length + word.length := by
  obtain ⟨hlong, hatLong, hnilLong⟩ := h.onToken_removed hpend hsplit.matchLong
  obtain ⟨hshort, hatShort, hnilShort⟩ := h.onToken_removed hpend hsplit.matchShort
  obtain ⟨hword, hatWord, hnilWord⟩ := hatShort.onToken_plain hnilShort hsplit.plain
  have hrest := hatLong.stream_congr hatWord (hnilLong.trans hnilWord.symm) [w]
  rw [stream_token s, stream_token s, stream_token (s.onToken short).2]
  rw [hlong, hrest, hshort, hword]
  simp only [List.length_append]
  omega

end StreamingSanitizer

/-- Of the extended tags that reading meets outside blocks, one comes first. -/
theorem exists_first_extended {t : Text} (h : ¬ OnlyBasicTags t) :
    ∃ o r tag, ReadsTo .shown t o .shown r ∧ tag ∈ extendedTags ∧ tag.text <+: r ∧
      OnlyBasicFrom .shown t r.length := by
  classical
  let Met : ℕ → Prop := fun n => ∃ o r tag, ReadsTo .shown t o .shown r ∧ r.length = n ∧
    tag ∈ extendedTags ∧ tag.text <+: r
  have hmet : ∃ n ≤ t.length, Met n := by
    by_contra hnone
    apply h
    intro o r hreads _ tag htag hpre
    exact hnone ⟨r.length, hreads.length_le, o, r, tag, hreads, rfl, htag, hpre⟩
  obtain ⟨n, hle, hn⟩ := hmet
  obtain ⟨o, r, tag, hreads, hlen, htag, hpre⟩ := Nat.findGreatest_spec hle hn
  refine ⟨o, r, tag, hreads, htag, hpre, ?_⟩
  intro o' r' hreads' hlt tag' htag' hpre'
  have hgreatest := Nat.le_findGreatest (P := Met) hreads'.length_le
    ⟨o', r', tag', hreads', rfl, htag', hpre'⟩
  omega

/-- The block that a flush is held in does not end before the text that is still to come. -/
theorem Held.stays_hidden {m : Mode} {b w b₁ b₂ o x : Text} {r : FlushResult}
    (h : Held m b w r b₁ b₂) (hreads : ReadsTo .hidden (b₂ ++ w) o .shown x) :
    ¬ w.length ≤ x.length := by
  intro hle
  obtain ⟨u, y, _, hclose, hy⟩ := close_of_hidden_to_shown hreads
  have hlong := hy.length_le
  have hlen := congrArg List.length hclose
  simp only [List.length_append] at hlen
  have hpre : u ++ closeThink <+: b₂ := by
    have hwhole : u ++ closeThink <+: b₂ ++ w := by
      rw [hclose, ← List.append_assoc]
      exact List.prefix_append _ _
    refine List.prefix_of_prefix_length_le hwhole (List.prefix_append b₂ w) ?_
    rw [List.length_append]
    omega
  obtain ⟨z, hz⟩ := hpre
  rw [List.append_assoc] at hz
  exact after_ne_none (by decide) (hz ▸ h.unclosed)

/-- A token that ends where reading is outside a block leaves the sanitizer outside a block. -/
theorem onToken_at_shown {u r o : Text} (hreads : ReadsTo .shown (u ++ r) o .shown r)
    (hbasic : OnlyBasicFrom .shown (u ++ r) r.length) :
    (onToken {} u).2.At .shown ∧ Pending .shown (onToken {} u).2.buffer := by
  rcases at_start.onToken_spec u r hbasic with ⟨m', hat, hend⟩ | ⟨_, _, b₁, b₂, hheld⟩
  · have hpend := hend.pending
    cases m' with
    | shown => exact ⟨hat, hpend⟩
    | hidden =>
        have hnil : (onToken {} u).2.buffer = [] := hpend
        have hend' := hend.reads
        rw [hnil, List.nil_append] at hend'
        obtain ⟨_, hback, _⟩ := ReadsTo.continues hend' hreads le_rfl
        have hmode := (ReadsTo.eq_of_length_le hback le_rfl).1
        cases hmode
  · have hle : r.length ≤ (b₂ ++ r).length := by
      rw [List.length_append]
      omega
    obtain ⟨_, hback, _⟩ := ReadsTo.continues hheld.reads hreads hle
    exact absurd le_rfl (hheld.stays_hidden hback)

theorem ChunkingIndependent.onlyBasicTags {t : Text} (h : ChunkingIndependent t) :
    OnlyBasicTags t := by
  by_contra hextended
  obtain ⟨o, r, tag, hreads, htag, hpre, hbasic⟩ := exists_first_extended hextended
  obtain ⟨u, rfl⟩ := hreads.suffix
  obtain ⟨hat, hpend⟩ := onToken_at_shown hreads hbasic
  obtain ⟨short, word, hsplit⟩ := splitTag_of_extended htag
  obtain ⟨w, rfl⟩ := hsplit.starts.trans hpre
  have hsame : stream {} [u, short ++ word, w] = stream {} [u, short, word, w] :=
    h.stream_eq (by simp) (by simp)
  have hsplits := hat.stream_splitTag hpend hsplit w
  have hpos := List.length_pos_iff.2 hsplit.visible
  have hlen := congrArg List.length hsame
  rw [stream_token {} u, stream_token {} u, List.length_append, List.length_append] at hlen
  omega

end Extended

section Reopening

theorem after_first {p u y y₀ : Text} (hp : p ≠ []) (h : after p (u ++ (p ++ y)) = some y₀) :
    y.length ≤ y₀.length := by
  induction u with
  | nil =>
      obtain ⟨c, p', rfl⟩ := List.exists_cons_of_ne_nil hp
      have hpre : c :: p' <+: c :: (p' ++ y) := List.prefix_append (c :: p') y
      rw [List.nil_append, List.cons_append, after_cons, if_pos hpre, ← List.cons_append,
        List.drop_left, Option.some.injEq] at h
      rw [h]
  | cons c u ih =>
      rw [List.cons_append, after_cons] at h
      split_ifs at h with hpre
      · obtain ⟨z, hz⟩ := hpre
        have hlen := congrArg List.length hz
        rw [← hz, List.drop_left, Option.some.injEq] at h
        rw [h, List.length_append, List.length_cons, List.length_append, List.length_append] at hlen
        omega
      · exact ih h

/-- What is visible between a closing tag and the block that a flush is held in is shown again. -/
theorem Held.shown_again {m : Mode} {b w b₁ b₂ u y y₀ v v' z : Text} {r : FlushResult}
    (h : Held m b w r b₁ b₂) (hb : b = u ++ (closeThink ++ y)) (hafter : after closeThink b = some y₀)
    (hv' : ReadsTo .shown (y₀ ++ w) v' .hidden (b₂ ++ w))
    (hv : ReadsTo .shown (y ++ w) v .hidden z) (hz : z.length ≤ (b₂ ++ w).length)
    (hw : w.length ≤ z.length) : v <:+ v' := by
  have hfirst : y.length ≤ y₀.length := after_first (by decide) (hb ▸ hafter)
  have htext : b ++ w = u ++ (closeThink ++ (y ++ w)) := by
    rw [hb]
    simp only [List.append_assoc]
  obtain ⟨o₁, ho₁⟩ := reads_past_close .hidden u (y ++ w)
  rw [← htext] at ho₁
  obtain ⟨o₂, ho₂, _⟩ := ReadsTo.continues (reads_after hafter w) ho₁
    (by simp only [List.length_append]; omega)
  obtain ⟨o₃, ho₃, hout⟩ := ReadsTo.continues hv' (Reads.trans ho₂ hv) hz
  obtain ⟨_, rfl⟩ | ⟨z', hz', hlen⟩ := reads_through_open ho₃ rfl
  · rw [List.append_nil] at hout
    exact ⟨o₂, hout⟩
  · have hle : w.length ≤ (openThink ++ z').length := by
      have hlen' : z.length ≤ z'.length := hlen
      rw [List.length_append]
      omega
    exact absurd hle (h.stays_hidden hz')

/-- A token that ends one byte into a block is held. -/
theorem onToken_held {b x w o : Text} {c : Char} (hb : b = x ++ openThink ++ [c])
    (hreads : ReadsTo .shown (b ++ w) o .hidden (c :: w))
    (hbasic : OnlyBasicFrom .shown (b ++ w) w.length) :
    (onToken {} b).2.At .hidden ∧ (onToken {} b).2.buffer = b ∧
      ∃ b₁ b₂, Held .shown b w (tokenFlush {} .shown b) b₁ b₂ := by
  refine (at_start.onToken_spec b w hbasic).resolve_left ?_
  rintro ⟨m', _, hend⟩
  have hpend := hend.pending
  have hend' := hend.reads
  cases m' with
  | hidden =>
      obtain ⟨z, hz⟩ := (hend.opened rfl).resolve_left (by simp)
      have hlast := congrArg List.reverse (hz.trans hb)
      simp [openThink_eq] at hlast
  | shown =>
      generalize (onToken {} b).2.buffer = rest at hpend hend'
      cases rest with
      | nil =>
          rw [List.nil_append] at hend'
          obtain ⟨_, hback, _⟩ := ReadsTo.continues hreads hend' (by simp)
          obtain ⟨x', y', _, hclose, hy⟩ := close_of_hidden_to_shown hback
          have hlen := congrArg List.length hclose
          have hlong := hy.length_le
          have hcloseLen : closeThink.length = 8 := by decide
          simp only [List.length_append, List.length_cons, List.length_nil] at hlen hlong
          omega
      | cons d rest =>
          obtain ⟨_, hback, _⟩ := ReadsTo.continues hend' hreads (by simp)
          obtain ⟨hmode, _⟩ | ⟨z, hz, hlen⟩ := reads_through_open hback rfl
          · cases hmode
          · obtain ⟨x', hx'⟩ := ReadsTo.suffix hz
            have hpre : x' ++ openThink <+: d :: rest := by
              have hwhole : x' ++ openThink <+: d :: rest ++ w := by
                rw [← hx', ← List.append_assoc]
                exact List.prefix_append _ _
              refine List.prefix_of_prefix_length_le hwhole (List.prefix_append _ _) ?_
              have hsize := congrArg List.length hx'
              simp only [List.length_append, List.length_cons] at hsize hlen ⊢
              omega
            obtain ⟨b, hb⟩ := hpre
            rw [← hb] at hpend
            exact hpend.not_open (List.suffix_append x' openThink)

theorem ChunkingIndependent.quietReopening {t : Text} (h : ChunkingIndependent t)
    (hbasic : OnlyBasicTags t) : QuietReopening t := by
  intro u r v w ht hshown hw
  obtain ⟨c, w, rfl⟩ := List.exists_cons_of_ne_nil hw
  obtain ⟨y, hy⟩ := hshown.suffix
  obtain ⟨o, hpast⟩ := reads_past_close .shown u r
  have hopened : ReadsTo .shown r v .hidden (c :: w) := by
    simpa using Reads.trans hshown reads_open
  have hreads : ReadsTo .shown t (o ++ v) .hidden (c :: w) := by
    rw [ht]
    exact Reads.trans hpast hopened
  -- The first token ends one byte into the block.
  obtain ⟨b, hb⟩ : ∃ b, b = u ++ (closeThink ++ (y ++ openThink ++ [c])) := ⟨_, rfl⟩
  have hsplit : t = b ++ w := by
    rw [ht, ← hy, hb]
    simp
  have hr : r = y ++ openThink ++ [c] ++ w := by
    rw [← hy]
    simp
  have hopen : b = u ++ closeThink ++ y ++ openThink ++ [c] := by
    rw [hb]
    simp
  rw [hsplit] at hreads hbasic
  obtain ⟨hat, hbuffer, b₁, b₂, hheld⟩ := onToken_held hopen hreads hbasic.mono
  have hbytes : stream {} (t.map fun c => [c]) = visible .shown (b ++ w) := by
    rw [hsplit]
    exact at_start.stream_bytes fresh_start (b ++ w) hbasic
  have hsame : stream {} [b, w] = stream {} (t.map fun c => [c]) :=
    h.stream_eq (by simp [hsplit]) (by rw [← List.flatMap_def, List.flatMap_singleton'])
  have hshort : (visible .hidden (b ++ w)).length ≤ ((onToken {} b).2.stream [w]).length := by
    have hflat : (onToken {} b).2.buffer ++ [w].flatten = b ++ w := by
      rw [hbuffer, List.flatten_singleton]
    have hle := hat.visible_length_le [w] (by rw [hflat]; exact hbasic.of_hidden)
    rw [hflat] at hle
    exact hle
  have hlen := congrArg List.length hsame
  rw [hbytes, visible_of_reads hheld.reads, at_start.stream_cons, List.length_append,
    List.length_append] at hlen
  have hsize : (c :: w).length ≤ (b₂ ++ w).length := by
    have hpos := List.length_pos_iff.2 hheld.inside
    rw [List.length_append, List.length_cons]
    omega
  obtain ⟨v', hkept, ⟨hnone, _⟩ | ⟨y₀, hafter, hv'⟩⟩ := hheld.visible_kept
  · rw [hb] at hnone
    exact absurd hnone (after_ne_none (by decide))
  · have hagain : v <:+ v' := hheld.shown_again hb hafter hv' (hr ▸ hopened) hsize
      (by rw [List.length_cons]; omega)
    have hle := hagain.length_le
    rw [hkept, List.length_append] at hshort
    exact List.length_eq_zero_iff.1 (by omega)

end Reopening

/-- Splitting a text never matters exactly where it has no extended tag outside a block and no
block that opens behind visible text and an earlier closing tag. -/
theorem chunkingIndependent_iff (t : Text) :
    ChunkingIndependent t ↔ OnlyBasicTags t ∧ QuietReopening t := by
  constructor
  · intro h
    exact ⟨h.onlyBasicTags, h.quietReopening h.onlyBasicTags⟩
  · rintro ⟨hbasic, hquiet⟩ tokens hflat
    have hstream : ∀ ks : List Text, ks.flatten = t → stream {} ks = visible .shown t := by
      rintro ks rfl
      exact at_start.stream_eq_visible ks hbasic hquiet
    rw [hstream tokens hflat, hstream [t] List.flatten_singleton]

/-- A token that ends in a second block shows the text in front of that block twice. -/
theorem reopenedBlock_not_chunkingIndependent :
    ¬ ChunkingIndependent "<think>x</think>y<think>z</think>w".toList := by
  intro h
  have hsplit := h ["<think>x</think>y<think>z".toList, "</think>w".toList] (by decide)
  revert hsplit
  decide +kernel

end InferDeck.Gateway
