import InferDeck.Bisection

/-!
# Fitting the history of a chat

`fit_chat_history` drops the oldest turns of a chat whose prompt does not fit. It searches the user
messages that the kept part may start at by bisection, and asks the predicate, which renders the
prompt as it goes, about one candidate after the other.
-/

namespace InferDeck.LlamaWrapper

open Bisection

section History

variable {M : Type}

/-- The parts of a message that the fitting reads are its role; the predicate reads all. -/
structure ChatHistory (M : Type) where
  role : M → String
  fits : List M → Bool

/-- `inputs.messages`, the start of the kept part and the calls of the predicate. -/
structure HistorySearch (M : Type) where
  messages : List M
  current : ℕ := 0
  calls : List (List M) := []
  deriving DecidableEq

namespace ChatHistory

variable (chat : ChatHistory M)

def callFits : StateM (HistorySearch M) Bool := fun s =>
  (chat.fits s.messages, { s with calls := s.calls ++ [s.messages] })

def isSystem (message : M) : Bool :=
  chat.role message == "system" || chat.role message == "developer"

def systemEnd (messages : List M) : ℕ := (messages.takeWhile chat.isSystem).length

/-- The indices of the user messages after the first message that is not of the system. -/
def boundaries (messages : List M) : List ℕ :=
  (List.range messages.length).filter fun index =>
    decide (chat.systemEnd messages + 1 ≤ index) &&
      decide (messages[index]?.map chat.role = some "user")

def keep (original : List M) (start : ℕ) : List M :=
  original.take (chat.systemEnd original) ++ original.drop start

def selectSuffix (original : List M) (start : ℕ) : StateM (HistorySearch M) Bool := do
  modify fun s => { s with messages := chat.keep original start, current := start }
  chat.callFits

def fitChatHistory : StateM (HistorySearch M) ℕ := do
  if ← chat.callFits then return 0
  let original := (← get).messages
  let boundaries := chat.boundaries original
  if boundaries.isEmpty then return 0
  modify fun s => { s with messages := [] }
  let lower ← first (fun i => chat.selectSuffix original (boundaries.getD i 0)) 0
    (boundaries.length - 1)
  if (← get).current ≠ boundaries.getD lower 0 then
    let _ ← chat.selectSuffix original (boundaries.getD lower 0)
  return boundaries.getD lower 0 - chat.systemEnd original

/-! ### What the search finds -/

/-- Keeping less fits where keeping more does. -/
def FitsSuffixes (original : List M) : Prop :=
  ∀ b ∈ chat.boundaries original, ∀ b' ∈ chat.boundaries original, b ≤ b' →
    chat.fits (chat.keep original b) = true → chat.fits (chat.keep original b') = true

instance (original : List M) : Decidable (chat.FitsSuffixes original) :=
  inferInstanceAs (Decidable (∀ b ∈ chat.boundaries original, ∀ b' ∈ chat.boundaries original,
    b ≤ b' → chat.fits (chat.keep original b) = true → chat.fits (chat.keep original b') = true))

/-- The earliest boundary that fits, or the last one where none does. -/
def keptBoundary (original : List M) : ℕ :=
  ((chat.boundaries original).find? fun b => chat.fits (chat.keep original b)).getD
    ((chat.boundaries original).getLastD 0)

def kept (original : List M) : List M :=
  if chat.fits original || (chat.boundaries original).isEmpty then original
  else chat.keep original (chat.keptBoundary original)

variable {chat} {original : List M} {s : HistorySearch M}

theorem boundaries_pairwise (original : List M) : (chat.boundaries original).Pairwise (· < ·) :=
  List.pairwise_lt_range.filter _

theorem lt_of_mem_boundaries {b : ℕ} (h : b ∈ chat.boundaries original) :
    chat.systemEnd original < b ∧ b < original.length := by
  obtain ⟨hrange, hb⟩ := List.mem_filter.1 h
  rw [Bool.and_eq_true, decide_eq_true_eq] at hb
  exact ⟨hb.1, List.mem_range.1 hrange⟩

theorem length_keep {b : ℕ} (h : b ∈ chat.boundaries original) :
    b - chat.systemEnd original + (chat.keep original b).length = original.length := by
  obtain ⟨hlow, hhigh⟩ := lt_of_mem_boundaries h
  rw [keep, List.length_append, List.length_take, List.length_drop]
  omega

/-- The messages are those that the predicate was last asked about. -/
structure Rendered (chat : ChatHistory M) (original : List M) (s : HistorySearch M) : Prop where
  messages : s.messages = chat.keep original s.current
  last : s.calls.getLast? = some s.messages

theorem selectSuffix_fst (start : ℕ) (s : HistorySearch M) :
    (chat.selectSuffix original start s).1 = chat.fits (chat.keep original start) := rfl

theorem rendered_selectSuffix (start : ℕ) (s : HistorySearch M) :
    Rendered chat original (chat.selectSuffix original start s).2 where
  messages := rfl
  last := List.getLast?_concat

/-- No suffix has been tried yet, or the messages are the suffix tried last. -/
def Searching (chat : ChatHistory M) (original : List M) (s : HistorySearch M) : Prop :=
  s.current = 0 ∨ Rendered chat original s

theorem tests_selectSuffix (size : ℕ) (boundaries : List ℕ) :
    Tests (fun i => chat.selectSuffix original (boundaries.getD i 0))
      (fun i => chat.fits (chat.keep original (boundaries.getD i 0)) = true) size
      (Searching chat original) where
  finds i _ s := by
    rw [selectSuffix_fst, Bool.decide_eq_true]
  keeps i _ s _ := Or.inr (rendered_selectSuffix _ s)

theorem getD_boundaries {i : ℕ} (hi : i < (chat.boundaries original).length) :
    (chat.boundaries original).getD i 0 = (chat.boundaries original)[i] := by
  rw [List.getD_eq_getElem?_getD, List.getElem?_eq_getElem hi, Option.getD_some]

theorem getD_mem_boundaries {i : ℕ} (hi : i < (chat.boundaries original).length) :
    (chat.boundaries original).getD i 0 ∈ chat.boundaries original := by
  rw [getD_boundaries hi]
  exact List.getElem_mem hi

theorem getD_boundaries_le {i j : ℕ} (hij : i ≤ j) (hj : j < (chat.boundaries original).length) :
    (chat.boundaries original).getD i 0 ≤ (chat.boundaries original).getD j 0 := by
  rw [getD_boundaries (by omega), getD_boundaries hj]
  rcases Nat.eq_or_lt_of_le hij with rfl | hlt
  · exact le_rfl
  · exact (List.pairwise_iff_getElem.1 (boundaries_pairwise original) i j _ hj hlt).le

theorem keptBoundary_eq {n : ℕ} (hn : n < (chat.boundaries original).length)
    (hbefore : ∀ i < n, ¬ chat.fits (chat.keep original ((chat.boundaries original).getD i 0)) = true)
    (hlast : n + 1 = (chat.boundaries original).length ∨
      chat.fits (chat.keep original ((chat.boundaries original).getD n 0)) = true) :
    chat.keptBoundary original = (chat.boundaries original).getD n 0 := by
  have hget := getD_boundaries hn
  unfold keptBoundary
  by_cases hfits : chat.fits (chat.keep original ((chat.boundaries original).getD n 0)) = true
  · have hfind : ((chat.boundaries original).find? fun b => chat.fits (chat.keep original b)) =
        some ((chat.boundaries original).getD n 0) := by
      rw [List.find?_eq_some_iff_getElem]
      refine ⟨hfits, n, hn, hget.symm, ?_⟩
      intro i hi
      have hbeforei := hbefore i hi
      rw [getD_boundaries (hi.trans hn)] at hbeforei
      simpa using hbeforei
    rw [hfind, Option.getD_some]
  · have hsize := hlast.resolve_right hfits
    have hfind : ((chat.boundaries original).find? fun b => chat.fits (chat.keep original b)) =
        none := by
      rw [List.find?_eq_none]
      intro b hb
      obtain ⟨i, hi, rfl⟩ := List.getElem_of_mem hb
      rw [← getD_boundaries hi]
      rcases Nat.lt_or_ge i n with hin | hin
      · exact hbefore i hin
      · obtain rfl : i = n := by omega
        exact hfits
    rw [hfind, Option.getD_none, hget, List.getLastD_eq_getLast?, List.getLast?_eq_getElem?,
      ← hsize, Nat.add_sub_cancel, List.getElem?_eq_getElem hn, Option.getD_some]

theorem fitChatHistory_eq (original : List M) :
    chat.fitChatHistory { messages := original } =
      if chat.fits original || (chat.boundaries original).isEmpty then
        (0, { messages := original, calls := [original] })
      else
        let found := first
          (fun i => chat.selectSuffix original ((chat.boundaries original).getD i 0)) 0
          ((chat.boundaries original).length - 1) { messages := [], calls := [original] }
        ((chat.boundaries original).getD found.1 0 - chat.systemEnd original,
          if found.2.current ≠ (chat.boundaries original).getD found.1 0 then
            (chat.selectSuffix original ((chat.boundaries original).getD found.1 0) found.2).2
          else found.2) := by
  unfold fitChatHistory
  by_cases hfits : chat.fits original = true
  · simp only [hfits, callFits, bind, StateT.bind, pure, Bool.true_or, if_true, List.nil_append]
    rfl
  · by_cases hempty : (chat.boundaries original).isEmpty = true
    · simp only [hfits, hempty, callFits, bind, StateT.bind, pure, get, getThe,
        MonadStateOf.get, StateT.get, Bool.or_true, Bool.false_eq_true, if_true, if_false,
        List.nil_append]
      rfl
    · simp only [hfits, hempty, callFits, bind, StateT.bind, pure, get, getThe,
        MonadStateOf.get, StateT.get, modify, modifyGet, MonadStateOf.modifyGet, StateT.modifyGet,
        Bool.false_eq_true, if_false, Bool.or_false, List.nil_append]
      rcases first (fun i => chat.selectSuffix original ((chat.boundaries original).getD i 0)) 0
        ((chat.boundaries original).length - 1) { messages := [], calls := [original] }
        with ⟨lower, s⟩
      by_cases hcurrent : s.current = (chat.boundaries original).getD lower 0
      · simp only [hcurrent, ne_eq, not_true_eq_false, if_false]
        rfl
      · simp only [hcurrent, ne_eq, not_false_eq_true, if_true]
        rfl

/-- The kept history is the longest that fits, the dropped messages are counted, and the predicate
was last asked about the messages that are returned. -/
theorem fitChatHistory_keepsLongest (chat : ChatHistory M) (original : List M)
    (hfits : chat.FitsSuffixes original) :
    (chat.fitChatHistory { messages := original }).2.messages = chat.kept original ∧
      (chat.fitChatHistory { messages := original }).1 + (chat.kept original).length =
        original.length ∧
      (chat.fitChatHistory { messages := original }).2.calls.getLast? =
        some (chat.kept original) := by
  rw [fitChatHistory_eq, kept]
  by_cases hwhole : chat.fits original || (chat.boundaries original).isEmpty
  · rw [if_pos hwhole, if_pos hwhole]
    exact ⟨rfl, Nat.zero_add _, rfl⟩
  · rw [if_neg hwhole, if_neg hwhole]
    have hpos : 0 < (chat.boundaries original).length := by
      simp only [Bool.or_eq_true, not_or, List.isEmpty_iff] at hwhole
      exact List.length_pos_iff.2 hwhole.2
    have hmono : ∀ i j, i ≤ j → j < (chat.boundaries original).length →
        chat.fits (chat.keep original ((chat.boundaries original).getD i 0)) = true →
        chat.fits (chat.keep original ((chat.boundaries original).getD j 0)) = true := by
      intro i j hij hj
      exact hfits _ (getD_mem_boundaries (by omega)) _ (getD_mem_boundaries hj)
        (getD_boundaries_le hij hj)
    have hfirst := first_spec (tests_selectSuffix (chat.boundaries original).length
      (chat.boundaries original)) hmono (Nat.zero_le ((chat.boundaries original).length - 1)) (by omega)
      (fun i hi => absurd hi (Nat.not_lt_zero i)) (Or.inl (by omega))
      (Or.inl rfl : Searching chat original { messages := [], calls := [original] })
    dsimp only
    generalize first (fun i => chat.selectSuffix original ((chat.boundaries original).getD i 0)) 0
      ((chat.boundaries original).length - 1) { messages := [], calls := [original] } = found
      at hfirst ⊢
    obtain ⟨hsearching, hlt, hbefore, hlast⟩ := hfirst
    have hkept := keptBoundary_eq hlt hbefore hlast
    have hmem := getD_mem_boundaries hlt
    rw [← hkept] at hmem ⊢
    by_cases hcurrent : found.2.current = chat.keptBoundary original
    · rw [if_neg (not_not.2 hcurrent)]
      have hrendered : Rendered chat original found.2 := by
        rcases hsearching with hstart | hrendered
        · have hpositive := (lt_of_mem_boundaries hmem).1
          omega
        · exact hrendered
      have hmessages := hrendered.messages
      rw [hcurrent] at hmessages
      exact ⟨hmessages, length_keep hmem, hmessages ▸ hrendered.last⟩
    · rw [if_pos hcurrent]
      have hrendered : Rendered chat original
          (chat.selectSuffix original (chat.keptBoundary original) found.2).2 :=
        rendered_selectSuffix _ found.2
      exact ⟨hrendered.messages, length_keep hmem, hrendered.last⟩

def twoMessages : ChatHistory String where
  role := id
  fits messages := decide (messages.length ≤ 2)

theorem fitChatHistory_keepsLongest_twoMessages :
    twoMessages.FitsSuffixes ["system", "user", "user", "assistant", "user"] ∧
      (twoMessages.fitChatHistory
        { messages := ["system", "user", "user", "assistant", "user"] }).2.messages =
          ["system", "user"] := by
  have hfits : twoMessages.FitsSuffixes ["system", "user", "user", "assistant", "user"] := by
    decide
  exact ⟨hfits, (fitChatHistory_keepsLongest twoMessages _ hfits).1⟩

end ChatHistory

end History

end InferDeck.LlamaWrapper
