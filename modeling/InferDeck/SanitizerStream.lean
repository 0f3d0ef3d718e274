import InferDeck.SanitizerFlush

/-!
# Whole streams against the reading

A flush that returns inside a block keeps text in the buffer that it has already shown. The next
flush looks for the end of the block in that text first, so a closing tag in front of the block
makes it show the text behind that tag a second time. A stream therefore never shows less than the
reading, and exactly as much where nothing visible stands between such a closing tag and the block.
-/

namespace InferDeck.Gateway

open Transducer

/-- Outside reasoning blocks the text has no tag that starts with a shorter tag. -/
def OnlyBasicTags (t : Text) : Prop := OnlyBasicFrom .shown t 0

/-- Between a closing tag and a later opening of a block nothing is shown, unless the opening tag
ends the text. -/
def QuietReopening (t : Text) : Prop :=
  ∀ u r v w, t = u ++ (closeThink ++ r) → ReadsTo .shown r v .shown (openThink ++ w) → w ≠ [] →
    v = []

namespace StreamingSanitizer

structure At (s : StreamingSanitizer) (m : Mode) : Prop where
  thinkDepth : s.thinkDepth = m.depth
  channelDepth : s.channelDepth = 0

end StreamingSanitizer

open StreamingSanitizer

theorem no_overlap {s : Text} (hs : s ≠ []) (hsuffix : s <:+ openThink) : ¬ s <+: closeThink := by
  have htable : ∀ s ∈ openThink.tails, s ≠ [] → ¬ s.isPrefixOf closeThink := by decide
  rw [← startsWith_iff]
  exact htable s ((List.mem_tails s openThink).2 hsuffix) hs

theorem suffix_open_of_suffix {s b : Text} (hopen : openThink <:+ b) (hs : s <:+ b)
    (hlen : s.length < closeThink.length) : s <:+ openThink := by
  have hle : s.length ≤ openThink.length := by
    have hclose : closeThink.length = openThink.length + 1 := by decide
    omega
  exact List.suffix_of_suffix_length_le hs hopen hle

theorem Held.unread_le {m : Mode} {b w b₁ b₂ y : Text} {r : FlushResult}
    (h : Held m b w r b₁ b₂) (hafter : after closeThink b = some y) : b₂.length ≤ y.length := by
  obtain ⟨u, hu⟩ := after_eq_some_suffix hafter
  by_contra hlt
  have hsplit : b₁ ++ b₂ = u ++ (closeThink ++ y) := by rw [← h.split, hu]
  have hlen := congrArg List.length hsplit
  simp only [List.length_append] at hlen
  by_cases hlong : closeThink.length + y.length ≤ b₂.length
  · have hinside : closeThink ++ y <:+ b₂ := by
      refine List.suffix_of_suffix_length_le ?_ (List.suffix_append b₁ b₂)
        (by rw [List.length_append]; exact hlong)
      rw [hsplit]
      exact List.suffix_append u _
    obtain ⟨x, hx⟩ := hinside
    exact after_ne_none (by decide) (hx ▸ h.unclosed)
  · -- The block would begin inside the closing tag, whose start would end its opening tag.
    have hpre : b₁ <+: u ++ closeThink := by
      refine List.prefix_of_prefix_length_le (List.prefix_append b₁ b₂) ?_
        (by rw [List.length_append]; omega)
      rw [hsplit, ← List.append_assoc]
      exact List.prefix_append _ _
    have hu₁ : u <+: b₁ := by
      refine List.prefix_of_prefix_length_le ?_ (List.prefix_append b₁ b₂) (by omega)
      rw [hsplit]
      exact List.prefix_append _ _
    obtain ⟨s, rfl⟩ := hu₁
    have hs : s <+: closeThink := (List.prefix_append_right_inj u).1 hpre
    have hslen := congrArg List.length hsplit
    simp only [List.length_append] at hslen
    have hne : s ≠ [] := by
      rintro rfl
      simp only [List.length_nil] at hslen
      omega
    rcases h.opened with ⟨_, hnil⟩ | hopen
    · exact hne (List.append_eq_nil_iff.1 hnil).2
    · exact no_overlap hne
        (suffix_open_of_suffix hopen (List.suffix_append u s) (by omega)) hs

/-- What the buffer kept by an early return will show again. -/
theorem Held.visible_kept {m : Mode} {b w b₁ b₂ : Text} {r : FlushResult}
    (h : Held m b w r b₁ b₂) :
    ∃ v, visible .hidden (b ++ w) = v ++ visible .hidden (b₂ ++ w) ∧
      ((after closeThink b = none ∧ v = []) ∨
        ∃ y, after closeThink b = some y ∧ ReadsTo .shown (y ++ w) v .hidden (b₂ ++ w)) := by
  cases hafter : after closeThink b with
  | none =>
      have hskip : ReadsTo .hidden (b₁ ++ (b₂ ++ w)) [] .hidden (b₂ ++ w) := by
        refine reads_skip_all fun s hs hsuffix hpre => ?_
        by_cases hlong : closeThink.length ≤ s.length
        · have hclose : closeThink <+: s :=
            List.prefix_of_prefix_length_le hpre (List.prefix_append _ _) hlong
          have hin : s ++ b₂ <:+ b := by
            obtain ⟨x, hx⟩ := hsuffix
            exact ⟨x, by rw [h.split, ← hx, List.append_assoc]⟩
          exact not_starts_of_after_eq_none hafter (by simp [hs]) hin
            (hclose.trans (List.prefix_append _ _))
        · have hstart : s <+: closeThink :=
            List.prefix_of_prefix_length_le (List.prefix_append _ _) hpre (by omega)
          rcases h.opened with ⟨_, rfl⟩ | hopen
          · exact hs (List.suffix_nil.1 hsuffix)
          · exact no_overlap hs (suffix_open_of_suffix hopen hsuffix (by omega)) hstart
      refine ⟨[], ?_, Or.inl ⟨rfl, rfl⟩⟩
      rw [h.split, List.append_assoc, visible_of_reads hskip]
  | some y =>
      obtain ⟨u, hu⟩ := after_eq_some_suffix hafter
      obtain ⟨o, ho⟩ := reads_past_close m u (y ++ w)
      have htext : b ++ w = u ++ (closeThink ++ (y ++ w)) := by
        rw [hu]
        simp only [List.append_assoc]
      have hle : (b₂ ++ w).length ≤ (y ++ w).length := by
        have := h.unread_le hafter
        simp only [List.length_append]
        omega
      rw [← htext] at ho
      obtain ⟨v, hv, _⟩ := ReadsTo.continues ho h.reads hle
      refine ⟨v, ?_, Or.inr ⟨y, rfl, hv⟩⟩
      rw [visible_of_reads (reads_after hafter w), visible_of_reads hv, List.nil_append]

theorem OnlyBasicFrom.of_hidden {m : Mode} {t : Text} {n : ℕ} (h : OnlyBasicFrom m t n) :
    OnlyBasicFrom .hidden t n := by
  intro o r hreads hlen tag htag
  obtain ⟨u, y, o', rfl, hy⟩ := close_of_hidden_to_shown hreads
  obtain ⟨o₁, ho₁⟩ := reads_past_close m u y
  exact h (o₁ ++ o') r (Reads.trans ho₁ hy) hlen tag htag

theorem OnlyBasicFrom.mono {m : Mode} {t : Text} {n : ℕ} (h : OnlyBasicFrom m t 0) :
    OnlyBasicFrom m t n :=
  fun o r hreads hlen => h o r hreads (by omega)

theorem QuietReopening.of_suffix {t t' : Text} (h : QuietReopening t) (hs : t' <:+ t) :
    QuietReopening t' := by
  obtain ⟨x, rfl⟩ := hs
  intro u r v w ht hreads hw
  exact h (x ++ u) r v w (by rw [ht, List.append_assoc]) hreads hw

namespace StreamingSanitizer

variable {s : StreamingSanitizer} {m : Mode}

def tokenFlush (s : StreamingSanitizer) (m : Mode) (k : Text) : FlushResult :=
  flushLoop false (s.buffer ++ k).length m.depth 0 (s.buffer ++ k)

theorem At.onToken_fst (h : s.At m) (k : Text) : (s.onToken k).1 = (s.tokenFlush m k).out := by
  simp only [onToken, flush, h.thinkDepth, h.channelDepth, tokenFlush]

theorem At.onToken_buffer (h : s.At m) (k : Text) :
    (s.onToken k).2.buffer = (s.tokenFlush m k).rest.getD (s.buffer ++ k) := by
  simp only [onToken, flush, h.thinkDepth, h.channelDepth, tokenFlush]

theorem At.onToken_at (h : s.At m) {k : Text} {m' : Mode}
    (hthink : (s.tokenFlush m k).thinkDepth = m'.depth)
    (hchannel : (s.tokenFlush m k).channelDepth = 0) : (s.onToken k).2.At m' := by
  constructor
  · simpa only [onToken, flush, h.thinkDepth, h.channelDepth, tokenFlush] using hthink
  · simpa only [onToken, flush, h.thinkDepth, h.channelDepth, tokenFlush] using hchannel

theorem At.finish_fst (h : s.At m) (hbasic : OnlyBasicFrom m s.buffer 0) :
    s.finish.1 = visible m s.buffer := by
  simp only [finish, flush, h.thinkDepth, h.channelDepth]
  exact flushLoop_force s.buffer.length m s.buffer le_rfl hbasic

/-- What a token does to a sanitizer whose text is free of extended tags. -/
theorem At.onToken_spec (h : s.At m) (k w : Text)
    (hbasic : OnlyBasicFrom m (s.buffer ++ k ++ w) w.length) :
    (∃ m', (s.onToken k).2.At m' ∧
        Ended m (s.buffer ++ k) w (s.tokenFlush m k) m' (s.onToken k).2.buffer) ∨
      (s.onToken k).2.At .hidden ∧ (s.onToken k).2.buffer = s.buffer ++ k ∧
        ∃ b₁ b₂, Held m (s.buffer ++ k) w (s.tokenFlush m k) b₁ b₂ := by
  obtain ⟨hchannel, ⟨m', rest, hend⟩ | ⟨b₁, b₂, hheld⟩⟩ :=
    flushLoop_spec (s.buffer ++ k).length m (s.buffer ++ k) w le_rfl hbasic
  · have hbuffer : (s.onToken k).2.buffer = rest := by
      have hleft : (s.tokenFlush m k).rest = some rest := hend.left
      rw [h.onToken_buffer, hleft, Option.getD_some]
    refine Or.inl ⟨m', h.onToken_at hend.thinkDepth hchannel, ?_⟩
    rw [hbuffer]
    exact hend
  · have hbuffer : (s.onToken k).2.buffer = s.buffer ++ k := by
      have hleft : (s.tokenFlush m k).rest = none := hheld.left
      rw [h.onToken_buffer, hleft, Option.getD_none]
    exact Or.inr ⟨h.onToken_at hheld.thinkDepth hchannel, hbuffer, b₁, b₂, hheld⟩

theorem At.stream_cons (h : s.At m) (k : Text) (ks : List Text) :
    s.stream (k :: ks) = (s.tokenFlush m k).out ++ (s.onToken k).2.stream ks := by
  rw [stream, h.onToken_fst]

/-- However the text is split, all that the reading shows comes out. -/
theorem At.visible_length_le (h : s.At m) (tokens : List Text)
    (hbasic : OnlyBasicFrom m (s.buffer ++ tokens.flatten) 0) :
    (visible m (s.buffer ++ tokens.flatten)).length ≤ (s.stream tokens).length := by
  induction tokens generalizing s m with
  | nil =>
      rw [List.flatten_nil, List.append_nil] at hbasic ⊢
      rw [stream, h.finish_fst hbasic]
  | cons k ks ih =>
      rw [List.flatten_cons, ← List.append_assoc] at hbasic ⊢
      rw [h.stream_cons, List.length_append]
      rcases h.onToken_spec k ks.flatten hbasic.mono with
        ⟨m', hat, hend⟩ | ⟨hat, hbuffer, b₁, b₂, hheld⟩
      · have hrest := ih hat (hbasic.of_reads hend.reads)
        rw [visible_of_reads hend.reads, List.length_append]
        omega
      · have hrest := ih hat (by rw [hbuffer]; exact hbasic.of_hidden)
        obtain ⟨v, hv, _⟩ := hheld.visible_kept
        rw [hbuffer, hv, List.length_append] at hrest
        rw [visible_of_reads hheld.reads, List.length_append]
        omega

/-- Where nothing visible stands between a closing tag and a later block, no text is shown twice. -/
theorem At.stream_eq_visible (h : s.At m) (tokens : List Text)
    (hbasic : OnlyBasicFrom m (s.buffer ++ tokens.flatten) 0)
    (hquiet : QuietReopening (s.buffer ++ tokens.flatten)) :
    s.stream tokens = visible m (s.buffer ++ tokens.flatten) := by
  induction tokens generalizing s m with
  | nil =>
      rw [List.flatten_nil, List.append_nil] at hbasic ⊢
      rw [stream, h.finish_fst hbasic]
  | cons k ks ih =>
      rw [List.flatten_cons, ← List.append_assoc] at hbasic hquiet ⊢
      rw [h.stream_cons]
      rcases h.onToken_spec k ks.flatten hbasic.mono with
        ⟨m', hat, hend⟩ | ⟨hat, hbuffer, b₁, b₂, hheld⟩
      · rw [visible_of_reads hend.reads, ih hat (hbasic.of_reads hend.reads)
          (hquiet.of_suffix (reads_suffix hend.reads))]
      · rw [visible_of_reads hheld.reads, ih hat (by rw [hbuffer]; exact hbasic.of_hidden)
          (by rw [hbuffer]; exact hquiet), hbuffer]
        obtain ⟨v, hv, ⟨_, rfl⟩ | ⟨y, hafter, hreads⟩⟩ := hheld.visible_kept
        · rw [hv, List.nil_append]
        · obtain ⟨u, hu⟩ := after_eq_some_suffix hafter
          obtain ⟨hmode, _⟩ | ⟨z, hz, hlen⟩ := reads_through_open hreads rfl
          · cases hmode
          · have hz' : z ≠ [] := by
              rintro rfl
              have := List.length_pos_iff.2 hheld.inside
              simp only [List.length_append, List.length_nil] at hlen
              omega
            have htext : s.buffer ++ k ++ ks.flatten = u ++ (closeThink ++ (y ++ ks.flatten)) := by
              rw [hu]
              simp only [List.append_assoc]
            rw [hv, hquiet u _ v z htext hz hz', List.nil_append]

/-- What a stream of single bytes keeps in its buffer. -/
def Fresh (s : StreamingSanitizer) : Mode → Prop
  | .shown => Pending .shown s.buffer
  | .hidden => after closeThink s.buffer = none

end StreamingSanitizer

theorem after_append_byte {p x y : Text} {c : Char} (hp : p ≠ []) (hnone : after p x = none)
    (hsome : after p (x ++ [c]) = some y) : y = [] := by
  obtain ⟨u, hu⟩ := after_eq_some_suffix hsome
  by_contra hy
  obtain ⟨y', d, rfl⟩ := List.eq_nil_or_concat y |>.resolve_left hy
  rw [List.concat_eq_append, ← List.append_assoc, ← List.append_assoc] at hu
  have hx := (List.append_inj' hu rfl).1
  rw [List.append_assoc] at hx
  exact after_ne_none hp (hx ▸ hnone)

theorem Pending.not_open {b₁ b₂ : Text} (h : Pending .shown (b₁ ++ b₂)) :
    ¬ openThink <:+ b₁ := by
  rintro ⟨x, rfl⟩
  cases x with
  | nil =>
      obtain hnil | ⟨hnone, _⟩ := h
      · simp [openThink_eq] at hnil
      · refine matchTag_eq_none_iff.1 hnone ⟨openThink, .openThink⟩
          (basic_mem_tags openThink_mem) ?_
        exact List.prefix_append _ _
  | cons c x =>
      have hcons : Pending .shown (c :: (x ++ openThink ++ b₂)) := h
      apply (pending_cons hcons).2
      simp [openThink_eq]

namespace StreamingSanitizer

variable {s : StreamingSanitizer} {m : Mode}

/-- A token of one byte never makes a flush show the kept text again. -/
theorem Fresh.held (h : s.Fresh m) {c : Char} {w b₁ b₂ : Text} {r : FlushResult}
    (hheld : Held m (s.buffer ++ [c]) w r b₁ b₂) : after closeThink (s.buffer ++ [c]) = none := by
  cases m with
  | shown =>
      have hopen := hheld.opened.resolve_left (by simp)
      obtain ⟨b, d, rfl⟩ := List.eq_nil_or_concat b₂ |>.resolve_left hheld.inside
      have hsplit := hheld.split
      rw [List.concat_eq_append, ← List.append_assoc] at hsplit
      have hbuffer := (List.append_inj' hsplit rfl).1
      have hpend : Pending .shown (b₁ ++ b) := hbuffer ▸ h
      exact absurd hopen hpend.not_open
  | hidden =>
      cases hafter : after closeThink (s.buffer ++ [c]) with
      | none => rfl
      | some y =>
          obtain rfl := after_append_byte (by decide) h hafter
          have hle := hheld.unread_le hafter
          have hpos := List.length_pos_iff.2 hheld.inside
          simp only [List.length_nil] at hle
          omega

/-- Byte by byte, the stream is the reading. -/
theorem At.stream_bytes (h : s.At m) (hfresh : s.Fresh m) (t : Text)
    (hbasic : OnlyBasicFrom m (s.buffer ++ t) 0) :
    s.stream (t.map fun c => [c]) = visible m (s.buffer ++ t) := by
  induction t generalizing s m with
  | nil =>
      rw [List.append_nil] at hbasic ⊢
      rw [List.map_nil, stream, h.finish_fst hbasic]
  | cons c t ih =>
      have htext : s.buffer ++ c :: t = s.buffer ++ [c] ++ t := by simp
      rw [htext] at hbasic ⊢
      rw [List.map_cons, h.stream_cons]
      rcases h.onToken_spec [c] t hbasic.mono with
        ⟨m', hat, hend⟩ | ⟨hat, hbuffer, b₁, b₂, hheld⟩
      · have hfresh' : (s.onToken [c]).2.Fresh m' := by
          have hpend := hend.pending
          cases m' with
          | shown => exact hpend
          | hidden =>
              have hnil : (s.onToken [c]).2.buffer = [] := hpend
              rw [Fresh, hnil, after]
        rw [visible_of_reads hend.reads, ih hat hfresh' (hbasic.of_reads hend.reads)]
      · have hnone := hfresh.held hheld
        have hfresh' : (s.onToken [c]).2.Fresh .hidden := by
          rw [Fresh, hbuffer]
          exact hnone
        obtain ⟨v, hv, ⟨_, rfl⟩ | ⟨y, hafter, _⟩⟩ := hheld.visible_kept
        · rw [visible_of_reads hheld.reads, ih hat hfresh' (by rw [hbuffer]; exact hbasic.of_hidden),
            hbuffer, hv, List.nil_append]
        · rw [hnone] at hafter
          cases hafter

theorem at_start : At {} .shown := ⟨rfl, rfl⟩

theorem fresh_start : Fresh {} .shown := Or.inl rfl

end StreamingSanitizer

end InferDeck.Gateway
