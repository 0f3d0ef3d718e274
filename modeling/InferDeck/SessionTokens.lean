import InferDeck.PrioritySessions

/-!
# The token contract of priority sessions

Tokens are issued in increasing order, so a token belongs to one key and to one reservation for
ever. Counting the holds and the completions of a token therefore gives the holds of its session,
and a session that is held stays until it is released or replaced.
-/

namespace InferDeck.Model

open InferDeck.Foundation InferDeck.Execution

namespace SessionLedger

structure Sound (l : SessionLedger) : Prop where
  issued : ∀ key s, l.session key = some s → s.token < l.coordinator.nextPrioritySessionToken
  heldIssued : ∀ p ∈ l.holds, p.2 < l.coordinator.nextPrioritySessionToken
  distinct : ∀ key key' s s', l.session key = some s → l.session key' = some s' →
    s.token = s'.token → key = key'
  owned : ∀ key s, l.session key = some s → ∀ p ∈ l.holds, p.2 = s.token → p.1 = key
  paired : ∀ p, l.completes.count p ≤ l.holds.count p
  counted : ∀ key s, l.session key = some s →
    s.activeHolds + l.completes.count (key, s.token) = l.holds.count (key, s.token)

variable {l l' : SessionLedger}

/-- The first call of a run meets a coordinator without sessions. -/
theorem sound_start {c : BackendCoordinator} (h : c.prioritySessions = ∅) :
    Sound { coordinator := c } := by
  have hnone : ∀ key, session { coordinator := c } key = none := by
    intro key
    simp [session, h]
  constructor <;> simp [hnone]

theorem Sound.count_eq_zero_of_issued (h : l.Sound) (key : String) {token : ℕ}
    (htoken : l.coordinator.nextPrioritySessionToken ≤ token) :
    l.holds.count (key, token) = 0 ∧ l.completes.count (key, token) = 0 := by
  have hholds : l.holds.count (key, token) = 0 := by
    rw [List.count_eq_zero]
    intro hmem
    exact absurd (h.heldIssued _ hmem) (not_lt.2 htoken)
  exact ⟨hholds, Nat.le_zero.1 (hholds ▸ h.paired _)⟩

theorem Sound.stale (h : l.Sound) {key : String} {token : ℕ}
    (hstale : l.tokenOf key ≠ some token)
    (hpaired : l.completes.count (key, token) < l.holds.count (key, token)) :
    Sound { l with completes := (key, token) :: l.completes } where
  issued := h.issued
  heldIssued := h.heldIssued
  distinct := h.distinct
  owned := h.owned
  paired p := by
    by_cases hp : p = (key, token)
    · rw [hp, List.count_cons_self]
      exact hpaired
    · rw [List.count_cons_of_ne (Ne.symm hp)]
      exact h.paired p
  counted k s hs := by
    have hne : (k, s.token) ≠ (key, token) := by
      intro heq
      obtain ⟨rfl, rfl⟩ := Prod.mk.inj heq
      have hs' : l.session k = some s := hs
      exact hstale (by rw [tokenOf, hs', Option.map_some])
    rw [List.count_cons_of_ne hne.symm]
    exact h.counted k s hs

theorem Sound.issue (h : l.Sound) {key : String} {new : PrioritySession}
    (hnew : l'.session key = some new)
    (htoken : new.token = l.coordinator.nextPrioritySessionToken) (hholds : new.activeHolds = 0)
    (hnext : l'.coordinator.nextPrioritySessionToken = new.token + 1)
    (hothers : ∀ other ≠ key, ∀ s, l'.session other = some s → l.session other = some s)
    (hheld : l'.holds = l.holds) (hcompletes : l'.completes = l.completes) : l'.Sound := by
  have hcase : ∀ k s, l'.session k = some s → k = key ∧ s = new ∨
      l.session k = some s ∧ s.token < l.coordinator.nextPrioritySessionToken := by
    intro k s hs
    by_cases hk : k = key
    · subst hk
      exact .inl ⟨rfl, Option.some.inj (hs.symm.trans hnew)⟩
    · have hold := hothers k hk s hs
      exact .inr ⟨hold, h.issued k s hold⟩
  constructor
  · intro k s hs
    rcases hcase k s hs with ⟨-, rfl⟩ | ⟨-, hlt⟩ <;> omega
  · intro p hp
    rw [hheld] at hp
    have := h.heldIssued p hp
    omega
  · intro k k' s s' hs hs' htok
    rcases hcase k s hs with ⟨rfl, rfl⟩ | ⟨hold, hlt⟩ <;>
      rcases hcase k' s' hs' with ⟨rfl, rfl⟩ | ⟨hold', hlt'⟩
    · rfl
    · omega
    · omega
    · exact h.distinct k k' s s' hold hold' htok
  · intro k s hs p hp htok
    rw [hheld] at hp
    rcases hcase k s hs with ⟨rfl, rfl⟩ | ⟨hold, hlt⟩
    · have := h.heldIssued p hp
      omega
    · exact h.owned k s hold p hp htok
  · intro p
    rw [hheld, hcompletes]
    exact h.paired p
  · intro k s hs
    rw [hheld, hcompletes]
    rcases hcase k s hs with ⟨rfl, rfl⟩ | ⟨hold, hlt⟩
    · have hzero := h.count_eq_zero_of_issued k htoken.ge
      rw [hzero.1, hzero.2, hholds]
    · exact h.counted k s hold

/-- Writing the key's session under its token keeps the invariant when the counts follow. -/
theorem Sound.write (h : l.Sound) {key : String} {old new : PrioritySession}
    (hold : l.session key = some old) (hnew : l'.session key = some new)
    (htoken : new.token = old.token) (hothers : ∀ other ≠ key, l'.session other = l.session other)
    (hnext : l'.coordinator.nextPrioritySessionToken = l.coordinator.nextPrioritySessionToken)
    (hmem : ∀ p ∈ l'.holds, p = (key, old.token) ∨ p ∈ l.holds)
    (hsame : ∀ p ≠ (key, old.token), l'.holds.count p = l.holds.count p ∧
      l'.completes.count p = l.completes.count p)
    (hcounted : new.activeHolds + l'.completes.count (key, old.token) =
      l'.holds.count (key, old.token)) : l'.Sound := by
  have hback : ∀ k s, l'.session k = some s → ∃ s₀, l.session k = some s₀ ∧ s.token = s₀.token := by
    intro k s hs
    by_cases hk : k = key
    · subst hk
      exact ⟨old, hold, Option.some.inj (hs.symm.trans hnew) ▸ htoken⟩
    · exact ⟨s, hothers k hk ▸ hs, rfl⟩
  constructor
  · intro k s hs
    obtain ⟨s₀, hs₀, heq⟩ := hback k s hs
    rw [hnext, heq]
    exact h.issued k s₀ hs₀
  · intro p hp
    rw [hnext]
    rcases hmem p hp with rfl | hp
    · exact h.issued key old hold
    · exact h.heldIssued p hp
  · intro k k' s s' hs hs' htok
    obtain ⟨s₀, hs₀, heq⟩ := hback k s hs
    obtain ⟨s₁, hs₁, heq'⟩ := hback k' s' hs'
    exact h.distinct k k' s₀ s₁ hs₀ hs₁ (heq ▸ heq' ▸ htok)
  · intro k s hs p hp htok
    obtain ⟨s₀, hs₀, heq⟩ := hback k s hs
    rcases hmem p hp with rfl | hp
    · exact h.distinct key k old s₀ hold hs₀ (htok.trans heq)
    · exact h.owned k s₀ hs₀ p hp (htok.trans heq)
  · intro p
    by_cases hp : p = (key, old.token)
    · rw [hp, ← hcounted]
      exact Nat.le_add_left _ _
    · rw [(hsame p hp).1, (hsame p hp).2]
      exact h.paired p
  · intro k s hs
    by_cases hk : k = key
    · subst hk
      obtain rfl := Option.some.inj (hs.symm.trans hnew)
      rw [htoken]
      exact hcounted
    · have hne : (k, s.token) ≠ (key, old.token) := fun heq => hk (Prod.mk.inj heq).1
      rw [(hsame _ hne).1, (hsame _ hne).2]
      exact h.counted k s (hothers k hk ▸ hs)

theorem Sound.released (h : l.Sound) {key : String} (hnone : l'.session key = none)
    (hothers : ∀ other ≠ key, l'.session other = l.session other)
    (hnext : l'.coordinator.nextPrioritySessionToken = l.coordinator.nextPrioritySessionToken)
    (hheld : l'.holds = l.holds) (hcompletes : l'.completes = l.completes) : l'.Sound := by
  have hback : ∀ k s, l'.session k = some s → l.session k = some s := by
    intro k s hs
    by_cases hk : k = key
    · subst hk
      simp [hnone] at hs
    · exact hothers k hk ▸ hs
  constructor
  · intro k s hs
    exact hnext ▸ h.issued k s (hback k s hs)
  · rw [hheld, hnext]
    exact h.heldIssued
  · intro k k' s s' hs hs'
    exact h.distinct k k' s s' (hback k s hs) (hback k' s' hs')
  · rw [hheld]
    exact fun k s hs => h.owned k s (hback k s hs)
  · rw [hheld, hcompletes]
    exact h.paired
  · rw [hheld, hcompletes]
    exact fun k s hs => h.counted k s (hback k s hs)

theorem Sound.change {now : TimePoint} {call : SessionCall} (h : l.Sound)
    (hpaired : l.Paired (now, call)) (hchange : Change l call l') : l'.Sound := by
  cases hchange with
  | refused => exact h
  | stale hstale => exact h.stale hstale hpaired
  | issued hsession htoken hholds hnext hothers _ hheld hcompletes =>
      exact h.issue hsession htoken hholds hnext hothers hheld hcompletes
  | released _ hnone hothers hnext hheld hcompletes =>
      exact h.released hnone hothers hnext hheld hcompletes
  | @written key call l' old new hold hnew htoken hmodel hothers hnext hbooked =>
      have hcounted := h.counted key old hold
      refine h.write hold hnew htoken hothers hnext (fun p hp => hbooked.mem_holds hp)
        (fun p hp => hbooked.count_of_ne hp) ?_
      rcases hbooked with ⟨-, hactive, hheld, hcompletes⟩ | ⟨-, hactive, hheld, hcompletes⟩ |
        ⟨⟨duration, rfl⟩, hactive, hheld, hcompletes⟩
      · rw [hheld, hcompletes, hactive, hcounted]
      · rw [hheld, hcompletes, hactive, List.count_cons_self]
        omega
      · have hlt : l.completes.count (key, old.token) < l.holds.count (key, old.token) := hpaired
        rw [hheld, hcompletes, hactive, List.count_cons_self]
        omega

theorem Sound.step {call : TimePoint × SessionCall} (h : l.Sound) (hpaired : l.Paired call)
    (hstep : l.step call = some l') : l'.Sound := by
  obtain rfl := Option.some.inj hstep
  exact h.change hpaired (l.perform_change call.1 call.2)

/-- All holds of a session's token were granted for its key, and all its completions paired with
them, so counting by the token alone gives the same numbers. -/
theorem Sound.count_token (h : l.Sound) {key : String} {s : PrioritySession}
    (hs : l.session key = some s) :
    (l.holds.map Prod.snd).count s.token = l.holds.count (key, s.token) ∧
      (l.completes.map Prod.snd).count s.token = l.completes.count (key, s.token) := by
  have hcount : ∀ log : List (String × ℕ), (∀ p ∈ log, p.2 = s.token → p.1 = key) →
      (log.map Prod.snd).count s.token = log.count (key, s.token) := by
    intro log howned
    rw [List.count, List.countP_map, List.count]
    apply List.countP_congr
    intro p hp
    simp only [Function.comp_apply, beq_iff_eq]
    constructor
    · intro htok
      exact Prod.ext (howned p hp htok) htok
    · rintro rfl
      rfl
  refine ⟨hcount l.holds (h.owned key s hs), hcount l.completes ?_⟩
  intro p hp htok
  have hpos : 0 < l.holds.count p := (List.count_pos_iff.2 hp).trans_le (h.paired p)
  exact h.owned key s hs p (List.count_pos_iff.1 hpos) htok

/-- The holder of a token: its session is there under the model, or everything held is completed
and the token is gone. -/
def Retained (l : SessionLedger) (key model : String) (token : ℕ) : Prop :=
  token < l.coordinator.nextPrioritySessionToken ∧
    ((∃ s, l.session key = some s ∧ s.token = token ∧ s.model = model) ∨
      l.tokenOf key ≠ some token ∧ l.completes.count (key, token) = l.holds.count (key, token))

theorem Retained.change {now : TimePoint} {call : SessionCall} {key model : String} {token : ℕ}
    (h : l.Retained key model token) (hsound : l.Sound) (hpaired : l.Paired (now, call))
    (hends : ¬call.Ends key token) (hchange : Change l call l') :
    l'.Retained key model token := by
  obtain ⟨hissued, hhas⟩ := h
  cases hchange with
  | refused => exact ⟨hissued, hhas⟩
  | @stale key' token' duration hstale =>
      refine ⟨hissued, hhas.imp_right fun ⟨hgone, hcount⟩ => ⟨hgone, ?_⟩⟩
      have hlt : l.completes.count (key', token') < l.holds.count (key', token') := hpaired
      have hne : (key', token') ≠ (key, token) := by
        intro heq
        rw [heq] at hlt
        omega
      rw [List.count_cons_of_ne hne]
      exact hcount
  | @issued key' model' duration l' new hnew htoken hholds hnext hothers hkept hheld hcompletes =>
      have hkey : key ≠ key' := fun heq => hends heq.symm
      refine ⟨by omega, ?_⟩
      rcases hhas with ⟨s, hs, htok, hmodel⟩ | ⟨hgone, hcount⟩
      · cases hs' : l'.session key with
        | some s' =>
            have hsame := Option.some.inj ((hothers key hkey s' hs').symm.trans hs)
            exact .inl ⟨s', rfl, hsame ▸ htok, hsame ▸ hmodel⟩
        | none =>
            -- only a session without holds is pruned
            have hzero : s.activeHolds = 0 := by
              by_contra hpos
              rw [hkept key hkey s hs (Nat.pos_of_ne_zero hpos)] at hs'
              simp at hs'
            have hcount := hsound.counted key s hs
            rw [hzero, htok, Nat.zero_add] at hcount
            exact .inr ⟨by simp [tokenOf, hs'], by rw [hheld, hcompletes, hcount]⟩
      · refine .inr ⟨?_, by rw [hheld, hcompletes, hcount]⟩
        intro htok
        obtain ⟨s', hs', heq⟩ := Option.map_eq_some_iff.1 htok
        exact hgone (by rw [tokenOf, hothers key hkey s' hs', Option.map_some, heq])
  | @written key' call l' old new hold hnew htoken hmodel hothers hnext hbooked =>
      refine ⟨hnext ▸ hissued, ?_⟩
      by_cases hkey : key = key'
      · subst hkey
        rcases hhas with ⟨s, hs, htok, hm⟩ | ⟨hgone, hcount⟩
        · obtain rfl := Option.some.inj (hs.symm.trans hold)
          exact .inl ⟨new, hnew, htoken.trans htok, hmodel.trans hm⟩
        · have hne : token ≠ old.token := by
            rintro rfl
            exact hgone (by rw [tokenOf, hold, Option.map_some])
          have hcounts := hbooked.count_of_ne (p := (key, token)) fun heq => hne (Prod.mk.inj heq).2
          refine .inr ⟨?_, by rw [hcounts.1, hcounts.2, hcount]⟩
          rw [tokenOf, hnew, Option.map_some, htoken]
          exact fun heq => hne (Option.some.inj heq).symm
      · have hcounts := hbooked.count_of_ne (p := (key, token)) fun heq => hkey (Prod.mk.inj heq).1
        rw [tokenOf, hothers key hkey, hcounts.1, hcounts.2]
        exact hhas
  | @released key' token' l' htoken hnone hothers hnext hheld hcompletes =>
      refine ⟨hnext ▸ hissued, ?_⟩
      by_cases hkey : key = key'
      · subst hkey
        rcases hhas with ⟨s, hs, htok, hm⟩ | ⟨hgone, hcount⟩
        · rw [tokenOf, hs, Option.map_some, Option.some.injEq] at htoken
          exact absurd ⟨rfl, htoken.symm.trans htok⟩ hends
        · exact .inr ⟨by simp [tokenOf, hnone], by rw [hheld, hcompletes, hcount]⟩
      · rw [tokenOf, hothers key hkey, hheld, hcompletes]
        exact hhas

theorem Retained.step (call : TimePoint × SessionCall) {key model : String} {token : ℕ}
    (h : l.Sound ∧ l.Retained key model token)
    (hcall : l.Paired call ∧ ¬call.2.Ends key token) (hstep : l.step call = some l') :
    l'.Sound ∧ l'.Retained key model token := by
  obtain rfl := Option.some.inj hstep
  exact ⟨h.1.step hcall.1 rfl, h.2.change h.1 hcall.1 hcall.2 (l.perform_change call.1 call.2)⟩

/-- While a granted hold is not completed, the session of its token is effective at all times. -/
theorem Retained.matches {key model : String} {token : ℕ} (h : l.Retained key model token)
    (hsound : l.Sound)
    (hpending : l.completes.count (key, token) < l.holds.count (key, token)) (now : TimePoint) :
    l.coordinator.prioritySessionMatches key model now := by
  rcases h.2 with ⟨s, hs, rfl, rfl⟩ | ⟨-, hcount⟩
  · have hcounted := hsound.counted key s hs
    have hpos : 0 < s.activeHolds := by omega
    have hs' : l.coordinator.prioritySessions.lookup key = some s := hs
    simp [BackendCoordinator.prioritySessionMatches, hs', hpos]
  · omega

theorem hold_granted {c : BackendCoordinator} {key model : String} {now : TimePoint} {token : ℕ}
    (h : (c.holdPrioritySession key model now).2 = some token) :
    ∃ s, c.prioritySessions.lookup key = some s ∧ s.token = token ∧ s.model = model ∧
      s.live now := by
  unfold BackendCoordinator.holdPrioritySession at h
  cases hs : c.prioritySessions.lookup key with
  | none => simp [hs] at h
  | some s =>
      rw [hs] at h
      by_cases hrefused : (s.model != model || !s.live now) = true
      · simp [hrefused] at h
      · simp only [if_neg hrefused, Option.some.injEq] at h
        simp only [Bool.or_eq_true, bne_iff_ne, ne_eq, Bool.not_eq_true', not_or, not_not,
          Bool.not_eq_false] at hrefused
        exact ⟨s, rfl, h, hrefused.1, hrefused.2⟩

structure TokenContract (l : SessionLedger) : Prop where
  /-- A token that is not the key's current one changes nothing. -/
  stale : ∀ key token duration now, l.tokenOf key ≠ some token →
    l.coordinator.refreshPrioritySession key token duration now = (l.coordinator, false) ∧
      l.coordinator.completePrioritySessionHold key token duration now = l.coordinator ∧
      l.coordinator.releasePrioritySession key token = l.coordinator
  /-- The holds of a session are the holds granted with its token less the completions. -/
  counted : ∀ key s, l.session key = some s →
    s.activeHolds + (l.completes.map Prod.snd).count s.token =
      (l.holds.map Prod.snd).count s.token
  /-- A completion that belongs to a hold finds a hold to take off. -/
  notClamped : ∀ key s duration now, l.session key = some s →
    l.Paired (now, .complete key s.token duration) → 0 < s.activeHolds
  /-- A held session survives every call but its release and a new reservation of its key. -/
  kept : ∀ key s, l.session key = some s → 0 < s.activeHolds →
    ∀ call l', l.step call = some l' → ¬call.2.Ends key s.token →
      ∃ s', l'.session key = some s' ∧ s'.token = s.token ∧ s'.model = s.model
  /-- A hold is granted only while the session is live. -/
  granted : ∀ key model now token,
    (l.coordinator.holdPrioritySession key model now).2 = some token →
      ∃ s, l.session key = some s ∧ s.token = token ∧ s.model = model ∧ s.live now
  /-- The session stays effective for the holder while fewer completions than holds were made. -/
  effective : ∀ key model now token,
    (l.coordinator.holdPrioritySession key model now).2 = some token →
      ∀ rest l', Meets step (fun l call => l.Paired call ∧ ¬call.2.Ends key token)
          (l.perform now (.hold key model)) rest →
        exec step (l.perform now (.hold key model)) rest = some l' →
        l'.completes.count (key, token) < l'.holds.count (key, token) →
        ∀ later, l'.coordinator.prioritySessionMatches key model later

theorem stale_of_tokenOf {key : String} {token : ℕ} (h : l.tokenOf key ≠ some token) :
    ∀ s, l.coordinator.prioritySessions.lookup key = some s → s.token ≠ token := by
  intro s hs heq
  have hs' : l.session key = some s := hs
  exact h (by rw [tokenOf, hs', Option.map_some, heq])

theorem Sound.kept {key : String} {s : PrioritySession} (hs : l.session key = some s)
    (hholds : 0 < s.activeHolds) {call : SessionCall} (hchange : Change l call l')
    (hends : ¬call.Ends key s.token) :
    ∃ s', l'.session key = some s' ∧ s'.token = s.token ∧ s'.model = s.model := by
  cases hchange with
  | refused => exact ⟨s, hs, rfl, rfl⟩
  | stale => exact ⟨s, hs, rfl, rfl⟩
  | issued _ _ _ _ _ hkept =>
      have hkey := fun heq : key = _ => hends heq.symm
      exact ⟨s, hkept key hkey s hs hholds, rfl, rfl⟩
  | @written key' call l' old new hold hnew htoken hmodel hothers =>
      by_cases hkey : key = key'
      · subst hkey
        obtain rfl := Option.some.inj (hs.symm.trans hold)
        exact ⟨new, hnew, htoken, hmodel⟩
      · exact ⟨s, (hothers key hkey).trans hs, rfl, rfl⟩
  | @released key' token' l' htoken hnone hothers =>
      by_cases hkey : key = key'
      · subst hkey
        rw [tokenOf, hs, Option.map_some, Option.some.injEq] at htoken
        exact absurd ⟨rfl, htoken.symm⟩ hends
      · exact ⟨s, (hothers key hkey).trans hs, rfl, rfl⟩

theorem Sound.tokenContract (h : l.Sound) : l.TokenContract where
  stale key token duration now htoken := by
    have hstale := stale_of_tokenOf htoken
    cases hs : l.coordinator.prioritySessions.lookup key with
    | none =>
        simp [BackendCoordinator.refreshPrioritySession, hs,
          BackendCoordinator.completePrioritySessionHold,
          BackendCoordinator.releasePrioritySession]
    | some s =>
        simp [BackendCoordinator.refreshPrioritySession, hs, hstale s hs,
          BackendCoordinator.completePrioritySessionHold,
          BackendCoordinator.releasePrioritySession]
  counted key s hs := by
    rw [(h.count_token hs).1, (h.count_token hs).2]
    exact h.counted key s hs
  notClamped key s duration now hs hpaired := by
    have hlt : l.completes.count (key, s.token) < l.holds.count (key, s.token) := hpaired
    have hcounted := h.counted key s hs
    omega
  kept key s hs hholds call l' hstep hends := by
    obtain rfl := Option.some.inj hstep
    exact Sound.kept hs hholds (l.perform_change call.1 call.2) hends
  granted key model now token hgranted := hold_granted hgranted
  effective key model now token hgranted rest l' hmeets hexec hpending := by
    obtain ⟨s, hs, htoken, hmodel, -⟩ := hold_granted hgranted
    have hissued : token < l.coordinator.nextPrioritySessionToken := htoken ▸ h.issued key s hs
    have hstart : l.Retained key model token := ⟨hissued, .inl ⟨s, hs, htoken, hmodel⟩⟩
    have hheld : (l.perform now (.hold key model)).Sound ∧
        (l.perform now (.hold key model)).Retained key model token :=
      Retained.step (now, .hold key model) ⟨h, hstart⟩ ⟨trivial, id⟩ rfl
    have hend := Execution.invariant (fun _ call _ => Retained.step call) hheld hmeets hexec
    exact hend.2.matches hend.1 hpending

/-- From a coordinator without sessions, whatever the clients call, as long as each completion
belongs to a granted hold. -/
theorem tokenContract_of_run (c : BackendCoordinator) (hfresh : c.prioritySessions = ∅)
    (calls : List (TimePoint × SessionCall)) (l : SessionLedger)
    (hpaired : Meets step Paired { coordinator := c } calls)
    (hexec : exec step { coordinator := c } calls = some l) : l.TokenContract := by
  have hsound : l.Sound :=
    Execution.invariant (fun _ _ _ => Sound.step) (sound_start hfresh) hpaired hexec
  exact hsound.tokenContract

/-- The phone's request holds its session while the phone reserves anew, completes late, and a
tablet's reservation prunes what has expired. -/
def phoneCalls : List (TimePoint × SessionCall) :=
  [(0, .reserve "phone" "chat" 1000), (seconds 1, .hold "phone" "chat"),
    (0, .hold "phone" "chat"), (0, .reserve "phone" "chat" 1000), (0, .hold "phone" "chat"),
    (0, .complete "phone" 1 1000), (seconds 5, .reserve "tablet" "chat" 1000)]

theorem phoneCalls_contract : ∃ l : SessionLedger,
    exec step { coordinator := { registry := { entries := ∅, factories := [] } } } phoneCalls =
        some l ∧
      (l.session "phone").map PrioritySession.activeHolds = some 1 ∧ l.TokenContract := by
  refine ⟨_, rfl, by decide, ?_⟩
  exact tokenContract_of_run _ rfl phoneCalls _ (by decide) rfl

end SessionLedger

end InferDeck.Model
