import InferDeck.QueueSelection
import InferDeck.Execution

/-!
# Priority sessions

A client reserves the conversation models for one model under its key and gets a token. Its requests
hold the session while they run. Every operation but `reserve` names the token it means, and a
token that is not the current one of the key does nothing. The ledger of a run notes every granted
hold and every completion, and the holds of a session are their difference.
-/

namespace InferDeck.Model

open InferDeck.Foundation InferDeck.Execution

namespace BackendCoordinator

variable (c : BackendCoordinator)

def reservePrioritySession (key model : String) (duration : ℤ) (now : TimePoint) :
    BackendCoordinator × ℕ :=
  if key == "" || model == "" || decide (duration ≤ 0) then (c, 0)
  else
    let kept := c.prioritySessions.eraseIf fun _ session => !session.live now
    let token := c.nextPrioritySessionToken
    let session : PrioritySession :=
      { model, deadline := now + milliseconds duration, token, activeHolds := 0 }
    ({ c with
        prioritySessions := kept.insert key session
        nextPrioritySessionToken := token + 1 }, token)

def refreshPrioritySession (key : String) (token : ℕ) (duration : ℤ) (now : TimePoint) :
    BackendCoordinator × Bool :=
  match c.prioritySessions.lookup key with
  | none => (c, false)
  | some session =>
      if session.token = token then
        let refreshed := { session with deadline := now + milliseconds duration }
        ({ c with prioritySessions := c.prioritySessions.insert key refreshed }, true)
      else (c, false)

def holdPrioritySession (key model : String) (now : TimePoint) : BackendCoordinator × Option ℕ :=
  match c.prioritySessions.lookup key with
  | none => (c, none)
  | some session =>
      if session.model != model || !session.live now then (c, none)
      else
        let held := { session with activeHolds := session.activeHolds + 1 }
        ({ c with prioritySessions := c.prioritySessions.insert key held }, some session.token)

def completePrioritySessionHold (key : String) (token : ℕ) (duration : ℤ) (now : TimePoint) :
    BackendCoordinator :=
  match c.prioritySessions.lookup key with
  | none => c
  | some session =>
      if session.token = token then
        -- natural subtraction: no hold is taken off a session that has none
        let completed :=
          { session with
            activeHolds := session.activeHolds - 1
            deadline := now + milliseconds duration }
        { c with prioritySessions := c.prioritySessions.insert key completed }
      else c

def releasePrioritySession (key : String) (token : ℕ) : BackendCoordinator :=
  match c.prioritySessions.lookup key with
  | none => c
  | some session =>
      if session.token = token then
        { c with prioritySessions := c.prioritySessions.erase key }
      else c

def prioritySessionMatches (key model : String) (now : TimePoint) : Bool :=
  (c.prioritySessions.lookup key).any fun session =>
    session.model == model && (decide (0 < session.activeHolds) || decide (now < session.deadline))

end BackendCoordinator

inductive SessionCall where
  | reserve (key model : String) (duration : ℤ)
  | refresh (key : String) (token : ℕ) (duration : ℤ)
  | hold (key model : String)
  | complete (key : String) (token : ℕ) (duration : ℤ)
  | release (key : String) (token : ℕ)
  deriving DecidableEq, Repr

/-- The call replaces or releases the session of the key with the token. -/
def SessionCall.Ends (key : String) (token : ℕ) : SessionCall → Prop
  | .reserve k _ _ => k = key
  | .release k t => k = key ∧ t = token
  | _ => False

/-- The coordinator, and the key and token of every hold granted and of every complete call. -/
structure SessionLedger where
  coordinator : BackendCoordinator
  holds : List (String × ℕ) := []
  completes : List (String × ℕ) := []

namespace SessionLedger

def session (l : SessionLedger) (key : String) : Option PrioritySession :=
  l.coordinator.prioritySessions.lookup key

def perform (l : SessionLedger) (now : TimePoint) : SessionCall → SessionLedger
  | .reserve key model duration =>
      { l with coordinator := (l.coordinator.reservePrioritySession key model duration now).1 }
  | .refresh key token duration =>
      { l with coordinator := (l.coordinator.refreshPrioritySession key token duration now).1 }
  | .hold key model =>
      let (coordinator, granted) := l.coordinator.holdPrioritySession key model now
      { l with
        coordinator := coordinator
        holds := (granted.map fun token => (key, token)).toList ++ l.holds }
  | .complete key token duration =>
      { l with
        coordinator := l.coordinator.completePrioritySessionHold key token duration now
        completes := (key, token) :: l.completes }
  | .release key token =>
      { l with coordinator := l.coordinator.releasePrioritySession key token }

/-- The calls of any number of clients, one after the other, each at its instant. -/
def step (l : SessionLedger) (call : TimePoint × SessionCall) : Option SessionLedger :=
  some (l.perform call.1 call.2)

/-- A complete call belongs to a hold that was granted for its key and token and that no earlier
complete call belongs to. -/
def Paired (l : SessionLedger) (call : TimePoint × SessionCall) : Prop :=
  match call.2 with
  | .complete key token _ => l.completes.count (key, token) < l.holds.count (key, token)
  | _ => True

instance instDecidablePaired (l : SessionLedger) :
    (call : TimePoint × SessionCall) → Decidable (l.Paired call)
  | (_, .complete key token _) =>
      inferInstanceAs (Decidable (l.completes.count (key, token) < l.holds.count (key, token)))
  | (_, .reserve ..) => .isTrue trivial
  | (_, .refresh ..) => .isTrue trivial
  | (_, .hold ..) => .isTrue trivial
  | (_, .release ..) => .isTrue trivial

end SessionLedger

namespace SessionLedger

def tokenOf (l : SessionLedger) (key : String) : Option ℕ :=
  (l.session key).map PrioritySession.token

/-- A call that finds its session writes the holds and notes a hold or a completion accordingly. -/
def Booked (l l' : SessionLedger) (key : String) (old new : PrioritySession) (call : SessionCall) :
    Prop :=
  (∃ duration, call = .refresh key old.token duration) ∧ new.activeHolds = old.activeHolds ∧
      l'.holds = l.holds ∧ l'.completes = l.completes ∨
    (∃ model, call = .hold key model) ∧ new.activeHolds = old.activeHolds + 1 ∧
      l'.holds = (key, old.token) :: l.holds ∧ l'.completes = l.completes ∨
    (∃ duration, call = .complete key old.token duration) ∧
      new.activeHolds = old.activeHolds - 1 ∧
      l'.holds = l.holds ∧ l'.completes = (key, old.token) :: l.completes

theorem Booked.count_of_ne {l l' : SessionLedger} {key : String} {old new : PrioritySession}
    {call : SessionCall} (h : Booked l l' key old new call) {p : String × ℕ}
    (hp : p ≠ (key, old.token)) :
    l'.holds.count p = l.holds.count p ∧ l'.completes.count p = l.completes.count p := by
  rcases h with ⟨-, -, hheld, hcompletes⟩ | ⟨-, -, hheld, hcompletes⟩ | ⟨-, -, hheld, hcompletes⟩
  · rw [hheld, hcompletes]
    exact ⟨rfl, rfl⟩
  · rw [hheld, hcompletes, List.count_cons_of_ne hp.symm]
    exact ⟨rfl, rfl⟩
  · rw [hheld, hcompletes, List.count_cons_of_ne hp.symm]
    exact ⟨rfl, rfl⟩

theorem Booked.mem_holds {l l' : SessionLedger} {key : String} {old new : PrioritySession}
    {call : SessionCall} (h : Booked l l' key old new call) {p : String × ℕ} (hp : p ∈ l'.holds) :
    p = (key, old.token) ∨ p ∈ l.holds := by
  rcases h with ⟨-, -, hheld, -⟩ | ⟨-, -, hheld, -⟩ | ⟨-, -, hheld, -⟩
  · exact .inr (hheld ▸ hp)
  · exact List.mem_cons.1 (hheld ▸ hp)
  · exact .inr (hheld ▸ hp)

/-- What a call can do: nothing, replace the key's session by one with a fresh token, write the
key's session under the same token and model, or remove it. -/
inductive Change (l : SessionLedger) : SessionCall → SessionLedger → Prop
  | refused {call : SessionCall} (hcall : ∀ k t d, call ≠ .complete k t d) : Change l call l
  | stale {key : String} {token : ℕ} {duration : ℤ} (hstale : l.tokenOf key ≠ some token) :
      Change l (.complete key token duration) { l with completes := (key, token) :: l.completes }
  | issued {key model : String} {duration : ℤ} {l' : SessionLedger} {session : PrioritySession}
      (hsession : l'.session key = some session)
      (htoken : session.token = l.coordinator.nextPrioritySessionToken)
      (hholds : session.activeHolds = 0)
      (hnext : l'.coordinator.nextPrioritySessionToken = session.token + 1)
      (hothers : ∀ other ≠ key, ∀ s, l'.session other = some s → l.session other = some s)
      (hkept : ∀ other ≠ key, ∀ s, l.session other = some s → 0 < s.activeHolds →
        l'.session other = some s)
      (hheld : l'.holds = l.holds) (hcompletes : l'.completes = l.completes) :
      Change l (.reserve key model duration) l'
  | written {key : String} {call : SessionCall} {l' : SessionLedger} {old new : PrioritySession}
      (hold : l.session key = some old) (hnew : l'.session key = some new)
      (htoken : new.token = old.token) (hmodel : new.model = old.model)
      (hothers : ∀ other ≠ key, l'.session other = l.session other)
      (hnext : l'.coordinator.nextPrioritySessionToken = l.coordinator.nextPrioritySessionToken)
      (hbooked : Booked l l' key old new call) :
      Change l call l'
  | released {key : String} {token : ℕ} {l' : SessionLedger} (htoken : l.tokenOf key = some token)
      (hnone : l'.session key = none) (hothers : ∀ other ≠ key, l'.session other = l.session other)
      (hnext : l'.coordinator.nextPrioritySessionToken = l.coordinator.nextPrioritySessionToken)
      (hheld : l'.holds = l.holds) (hcompletes : l'.completes = l.completes) :
      Change l (.release key token) l'

variable {l l' : SessionLedger} {now : TimePoint}

theorem perform_reserve (l : SessionLedger) (now : TimePoint) (key model : String)
    (duration : ℤ) :
    Change l (.reserve key model duration) (l.perform now (.reserve key model duration)) := by
  simp only [perform, BackendCoordinator.reservePrioritySession]
  split_ifs with hinvalid
  · exact .refused (by simp)
  · refine .issued (AList.lookup_insert _) rfl rfl rfl ?_ ?_ rfl rfl
    · intro other hne s hs
      rw [session, AList.lookup_insert_ne hne, Map.lookup_eraseIf] at hs
      exact (Option.filter_eq_some_iff.1 hs).1
    · intro other hne s hs hholds
      rw [session, AList.lookup_insert_ne hne, Map.lookup_eraseIf]
      refine Option.filter_eq_some_iff.2 ⟨hs, ?_⟩
      simp [PrioritySession.live, hholds.ne']

theorem perform_refresh (l : SessionLedger) (now : TimePoint) (key : String) (token : ℕ)
    (duration : ℤ) :
    Change l (.refresh key token duration) (l.perform now (.refresh key token duration)) := by
  simp only [perform, BackendCoordinator.refreshPrioritySession]
  cases hs : l.coordinator.prioritySessions.lookup key with
  | none => exact .refused (by simp)
  | some session =>
      by_cases htoken : session.token = token
      · subst htoken
        simp only [if_pos]
        refine .written hs (AList.lookup_insert _) rfl rfl ?_ rfl (.inl ⟨⟨_, rfl⟩, rfl, rfl, rfl⟩)
        intro other hne
        exact AList.lookup_insert_ne hne
      · simp only [if_neg htoken]
        exact .refused (by simp)

theorem perform_hold (l : SessionLedger) (now : TimePoint) (key model : String) :
    Change l (.hold key model) (l.perform now (.hold key model)) := by
  simp only [perform, BackendCoordinator.holdPrioritySession]
  cases hs : l.coordinator.prioritySessions.lookup key with
  | none => exact .refused (by simp)
  | some session =>
      by_cases hrefused : (session.model != model || !session.live now) = true
      · simp only [if_pos hrefused]
        exact .refused (by simp)
      · simp only [if_neg hrefused]
        refine .written hs (AList.lookup_insert _) rfl rfl ?_ rfl
          (.inr (.inl ⟨⟨_, rfl⟩, rfl, rfl, rfl⟩))
        intro other hne
        exact AList.lookup_insert_ne hne

theorem perform_complete (l : SessionLedger) (now : TimePoint) (key : String) (token : ℕ)
    (duration : ℤ) :
    Change l (.complete key token duration) (l.perform now (.complete key token duration)) := by
  simp only [perform, BackendCoordinator.completePrioritySessionHold]
  cases hs : l.coordinator.prioritySessions.lookup key with
  | none => exact .stale (by simp [tokenOf, session, hs])
  | some session =>
      by_cases htoken : session.token = token
      · subst htoken
        simp only [if_pos]
        refine .written hs (AList.lookup_insert _) rfl rfl ?_ rfl
          (.inr (.inr ⟨⟨_, rfl⟩, rfl, rfl, rfl⟩))
        intro other hne
        exact AList.lookup_insert_ne hne
      · simp only [if_neg htoken]
        exact .stale (by simpa [tokenOf, SessionLedger.session, hs] using htoken)

theorem perform_release (l : SessionLedger) (now : TimePoint) (key : String) (token : ℕ) :
    Change l (.release key token) (l.perform now (.release key token)) := by
  simp only [perform, BackendCoordinator.releasePrioritySession]
  cases hs : l.coordinator.prioritySessions.lookup key with
  | none => exact .refused (by simp)
  | some session =>
      by_cases htoken : session.token = token
      · simp only [if_pos htoken]
        refine .released (by simpa [tokenOf, SessionLedger.session, hs] using htoken)
          (AList.lookup_erase _ _) ?_ rfl rfl rfl
        intro other hne
        exact AList.lookup_erase_ne hne
      · simp only [if_neg htoken]
        exact .refused (by simp)

theorem perform_change (l : SessionLedger) (now : TimePoint) (call : SessionCall) :
    Change l call (l.perform now call) := by
  cases call with
  | reserve key model duration => exact l.perform_reserve now key model duration
  | refresh key token duration => exact l.perform_refresh now key token duration
  | hold key model => exact l.perform_hold now key model
  | complete key token duration => exact l.perform_complete now key token duration
  | release key token => exact l.perform_release now key token

end SessionLedger

end InferDeck.Model
