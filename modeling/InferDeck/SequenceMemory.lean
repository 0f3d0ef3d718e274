import Mathlib.Data.List.Infix
import Mathlib.Data.List.TakeDrop
import Mathlib.Order.Basic

/-!
# The memory of a sequence

What a decoder remembers of a sequence: cells, each with a token and its position. Decoding writes
further cells, and removing from a position on keeps those before it. A text that was decoded from
a position on occupies consecutive positions, one cell each.
-/

namespace InferDeck.SequenceMemory

variable {τ : Type*}

structure Cell (τ : Type*) where
  pos : ℕ
  token : τ
  deriving DecidableEq

/-- A text at consecutive positions. -/
def layout : ℕ → List τ → List (Cell τ)
  | _, [] => []
  | p, a :: text => ⟨p, a⟩ :: layout (p + 1) text

/-- What is left once everything from the position on is removed. -/
def trim (k : ℕ) (cells : List (Cell τ)) : List (Cell τ) := cells.filter fun c => c.pos < k

/-- The position after the last one. -/
def extent (cells : List (Cell τ)) : ℕ := cells.foldr (fun c n => max (c.pos + 1) n) 0

@[simp] theorem layout_nil (p : ℕ) : layout p ([] : List τ) = [] := rfl

theorem layout_append (p : ℕ) (a b : List τ) :
    layout p (a ++ b) = layout p a ++ layout (p + a.length) b := by
  induction a generalizing p with
  | nil => simp
  | cons x a ih =>
      rw [List.cons_append, layout, ih, layout, List.length_cons, List.cons_append]
      congr 3
      omega

theorem pos_of_mem_layout {p : ℕ} {text : List τ} {c : Cell τ} (h : c ∈ layout p text) :
    p ≤ c.pos ∧ c.pos < p + text.length := by
  induction text generalizing p with
  | nil => cases h
  | cons a text ih =>
      rw [List.length_cons]
      rcases List.mem_cons.1 h with rfl | h
      · dsimp only
        omega
      · have := ih h
        omega

@[simp] theorem trim_nil (k : ℕ) : trim k ([] : List (Cell τ)) = [] := rfl

theorem trim_append (k : ℕ) (a b : List (Cell τ)) : trim k (a ++ b) = trim k a ++ trim k b :=
  List.filter_append a b

theorem trim_eq_self {k : ℕ} {cells : List (Cell τ)} (h : ∀ c ∈ cells, c.pos < k) :
    trim k cells = cells :=
  List.filter_eq_self.2 fun c hc => decide_eq_true (h c hc)

theorem trim_eq_nil {k : ℕ} {cells : List (Cell τ)} (h : ∀ c ∈ cells, k ≤ c.pos) :
    trim k cells = [] := by
  rw [trim, List.filter_eq_nil_iff]
  intro c hc
  have := h c hc
  simpa using this

theorem trim_layout (k p : ℕ) (text : List τ) :
    trim k (layout p text) = layout p (text.take (k - p)) := by
  induction text generalizing p with
  | nil => simp
  | cons a text ih =>
      rw [layout, trim, List.filter_cons]
      by_cases hp : p < k
      · obtain ⟨n, hn⟩ : ∃ n, k - p = n + 1 := ⟨k - p - 1, by omega⟩
        have hrest : k - (p + 1) = n := by omega
        rw [if_pos (by simpa using hp), hn, List.take_succ_cons, layout, ← hrest, ← ih]
        rfl
      · have hzero : k - p = 0 := by omega
        rw [if_neg (by simpa using hp), hzero, List.take_zero, layout_nil]
        exact trim_eq_nil fun c hc => by
          have := pos_of_mem_layout hc
          omega

theorem extent_le_iff {cells : List (Cell τ)} {n : ℕ} :
    extent cells ≤ n ↔ ∀ c ∈ cells, c.pos < n := by
  induction cells with
  | nil => simp [extent]
  | cons d cells ih =>
      rw [extent, List.foldr_cons, Nat.max_le, List.forall_mem_cons, ← ih]
      rfl

theorem extent_layout_le (p : ℕ) (text : List τ) : extent (layout p text) ≤ p + text.length :=
  extent_le_iff.2 fun _ hc => (pos_of_mem_layout hc).2

/-- The cells at one position of a text. -/
theorem filter_pos_layout {p i : ℕ} {text : List τ} (h : i < text.length) :
    (layout p text).filter (fun c => c.pos = p + i) = [⟨p + i, text[i]⟩] := by
  induction text generalizing p i with
  | nil => simp at h
  | cons a text ih =>
      rw [layout, List.filter_cons]
      cases i with
      | zero =>
          rw [if_pos (by simp)]
          have hnone : (layout (p + 1) text).filter (fun c => c.pos = p + 0) = [] := by
            rw [List.filter_eq_nil_iff]
            intro c hc
            have := pos_of_mem_layout hc
            simp only [decide_eq_true_eq]
            omega
          rw [hnone]
          rfl
      | succ i =>
          rw [if_neg (by simp), List.getElem_cons_succ]
          have hi := ih (p := p + 1) (i := i) (by simpa using h)
          rw [show p + (i + 1) = p + 1 + i by omega]
          exact hi

section CommonPrefix

variable [DecidableEq τ]

/-- The number of tokens that two texts have in common from the start. -/
def commonPrefix : List τ → List τ → ℕ
  | a :: s, b :: t => if a = b then commonPrefix s t + 1 else 0
  | _, _ => 0

theorem commonPrefix_le_right (s t : List τ) : commonPrefix s t ≤ t.length := by
  induction s generalizing t with
  | nil => simp [commonPrefix]
  | cons a s ih =>
      cases t with
      | nil => simp [commonPrefix]
      | cons b t =>
          rw [commonPrefix, List.length_cons]
          split_ifs
          · have := ih t
            omega
          · omega

end CommonPrefix

/-- The memory holds a record of what was decoded, as far as both of them reach: one of them may
be ahead of the other. From a mark in the record on, which stands for something that is not a
token, they may differ. -/
def Agrees (mark : τ) (record : List τ) (cells : List (Cell τ)) : Prop :=
  ∃ text rest, cells = layout 0 text ++ rest ∧ (∀ c ∈ rest, text.length ≤ c.pos) ∧
    (rest = [] ∧ (record <+: text ∨ text <+: record) ∨ text ++ [mark] <+: record)

section Agrees

variable {mark : τ} {record text : List τ} {cells : List (Cell τ)}

theorem agrees_nil (mark : τ) (record : List τ) : Agrees mark record [] :=
  ⟨[], [], rfl, by simp, Or.inl ⟨rfl, Or.inr List.nil_prefix⟩⟩

theorem agrees_layout (h : record <+: text ∨ text <+: record) :
    Agrees mark record (layout 0 text) :=
  ⟨text, [], by simp, by simp, Or.inl ⟨rfl, h⟩⟩

theorem take_eq_take_of_le {s t : List τ} {k : ℕ} (h : s <+: t) (hk : k ≤ s.length) :
    t.take k = s.take k := by
  obtain ⟨rest, rfl⟩ := h
  exact List.take_append_of_le_length hk

/-- Where memory and record agree, each position holds the record's token and nothing else. -/
theorem Agrees.filter_pos (h : Agrees mark record cells) {i : ℕ} (hi : i < record.length)
    (hextent : i < extent cells) (hmark : mark ∉ record.take (i + 1)) :
    cells.filter (fun c => c.pos = i) = [⟨i, record[i]⟩] := by
  obtain ⟨text, rest, rfl, hrest, hcase⟩ := h
  have hsome : i < text.length ∧ rest.filter (fun c => c.pos = i) = [] ∧
      (record <+: text ∨ text <+: record) := by
    rcases hcase with ⟨rfl, hprefix⟩ | hm
    · rw [List.append_nil] at hextent
      have := extent_layout_le 0 text
      exact ⟨by omega, rfl, hprefix⟩
    · have htext : i < text.length := by
        by_contra hle
        have htake : record.take (text.length + 1) <+: record.take (i + 1) :=
          List.take_prefix_take_left (by omega)
        rw [take_eq_take_of_le hm (by simp), List.take_of_length_le (by simp)] at htake
        exact hmark (htake.subset (List.mem_append_right text List.mem_cons_self))
      refine ⟨htext, ?_, Or.inr ((List.prefix_append text [mark]).trans hm)⟩
      rw [List.filter_eq_nil_iff]
      intro c hc
      have := hrest c hc
      simp only [decide_eq_true_eq]
      omega
  obtain ⟨htext, hnil, hprefix⟩ := hsome
  have hget : text[i] = record[i] := by
    rcases hprefix with hp | hp
    · exact (hp.getElem hi).symm
    · exact hp.getElem htext
  have hlayout := filter_pos_layout (p := 0) htext
  rw [Nat.zero_add] at hlayout
  rw [List.filter_append, hnil, List.append_nil, hlayout, hget]

end Agrees

end InferDeck.SequenceMemory
