import InferDeck.SubscriptionDates

/-!
# The payments of a subscription follow the calendar

What validation leaves of a subscription is a plan: a first day, perhaps a last one, and amounts that
change on ascending dates. The loop takes one payment a month until the last day or until today, and
the sum of the at most 1572 payments is exact.
-/

namespace InferDeck.Dashboard

open InferDeck.Gateway InferDeck.Calendar

structure Plan where
  start : Date
  finish : Option Date
  base : ℤ
  changes : List (Date × ℤ)

def AmountOk (amount : ℤ) : Prop := 0 ≤ amount ∧ amount ≤ maxMonthlyCents

namespace Plan

variable (plan : Plan)

structure Valid : Prop where
  start : Bounded plan.start
  finish : ∀ d, plan.finish = some d → Bounded d ∧ plan.start ≤ d
  base : AmountOk plan.base
  changes : ∀ c ∈ plan.changes, Bounded c.1 ∧ plan.start ≤ c.1 ∧ AmountOk c.2
  ascending : plan.changes.Pairwise fun c c' => c.1 < c'.1

structure Reads (subscription : CancelledSubscription) : Prop where
  startDate : subscription.startDate = textOf plan.start
  endDate : subscription.endDate = plan.finish.map textOf
  monthlyCents : subscription.monthlyCents = plan.base
  rateChanges : subscription.rateChanges = plan.changes.map fun c => ⟨textOf c.1, c.2⟩

/-- The day lies on or before today and the last day. -/
def Due (today d : Date) : Prop := d ≤ today ∧ ∀ last, plan.finish = some last → d ≤ last

/-- The amount of the last change that is effective by then, or the one it began with. -/
def AmountAt (d : Date) (amount : ℤ) : Prop :=
  (∃ c ∈ plan.changes, c.1 ≤ d ∧ c.2 = amount ∧ ∀ c' ∈ plan.changes, c'.1 ≤ d → c'.1 ≤ c.1) ∨
    (∀ c ∈ plan.changes, d < c.1) ∧ amount = plan.base

structure Follows (today : Date) (savings : SubscriptionSavings) : Prop where
  due : ∀ k, k < savings.payments.length ↔ plan.Due today (plan.start.addMonths k)
  paid : ∀ k payment, savings.payments[k]? = some payment →
    payment.date = textOf (plan.start.addMonths k) ∧
      plan.AmountAt (plan.start.addMonths k) payment.amountCents
  increasing : savings.payments.Pairwise fun p p' => textBefore p.date p'.date = true
  total : savings.totalCents = (savings.payments.map SubscriptionPayment.amountCents).sum

end Plan

/-- A day of the dashboard's years, as a text or as a local date. -/
def ValidToday (today : Today) (d : Date) : Prop :=
  Bounded d ∧ (today = .text (textOf d) ∨ today = .date (some (d.year, d.month % 12, d.day)))

/-- With enough fuel, whatever it is, the calculation ends with these savings. -/
def Calculates (value : Value) (today : Today) (savings : SubscriptionSavings) : Prop :=
  ∀ fuel, 1573 ≤ fuel → calculateSubscriptionSavings fuel value today = some (.ok savings)

/-! ### Validation -/

theorem errorUnless_eq_nil {holds : Bool} {error : String} :
    errorUnless holds error = [] ↔ holds = true := by
  cases holds <;> simp [errorUnless]

theorem centsOk_iff {value : Value} :
    centsOk value = true ↔ ∃ n, value.safeInteger? = some n ∧ AmountOk n := by
  cases h : value.safeInteger? <;> simp [centsOk, h, AmountOk]

theorem readDate_eq_some {value : Value} {t : ℤ} (h : readDate value = some t) :
    ∃ d, Bounded d ∧ value.text? = some (textOf d) ∧ t = d.number := by
  obtain ⟨s, hs, hparse⟩ := Option.bind_eq_some_iff.1 h
  obtain ⟨d, hd, rfl, ht⟩ := parseDate_eq_some hparse
  exact ⟨d, hd, hs, ht⟩

theorem textBefore_trans {a b c : Text} (hab : textBefore a b = true) (hbc : textBefore b c = true) :
    textBefore a c = true := by
  simp only [textBefore, decide_eq_true_eq] at *
  exact lt_trans hab hbc

/-- The changes that are accepted after a text are dates in ascending order. -/
theorem changes_of_accepted {start : Date} : ∀ {changes : List Value} {previous : Text},
    validateChanges (some start.number) previous changes = [] →
    ∃ list : List (Date × ℤ),
      changes.mapM Value.rateChange? = some (list.map fun c => ⟨textOf c.1, c.2⟩) ∧
      (∀ c ∈ list, Bounded c.1 ∧ start ≤ c.1 ∧ AmountOk c.2) ∧
      (list.Pairwise fun c c' => c.1 < c'.1) ∧
      ∀ c ∈ list, textBefore previous (textOf c.1) = true
  | [], _, _ => ⟨[], by simp⟩
  | change :: rest, previous, h => by
      simp only [validateChanges, List.append_eq_nil_iff, errorUnless_eq_nil] at h
      obtain ⟨⟨⟨⟨hsome, hafter⟩, hcents⟩, hstart⟩, hrest⟩ := h
      obtain ⟨t, hdate⟩ := Option.isSome_iff_exists.1 hsome
      obtain ⟨d, hd, htext, rfl⟩ := readDate_eq_some hdate
      obtain ⟨n, hn, hamount⟩ := centsOk_iff.1 hcents
      rw [htext] at hafter hrest
      rw [hdate] at hstart
      simp only [Option.all_some, Option.getD_some, notBefore, decide_eq_true_eq] at hafter hrest hstart
      obtain ⟨list, hlist, hok, hascending, hlater⟩ := changes_of_accepted hrest
      refine ⟨(d, n) :: list, ?_, ?_, ?_, ?_⟩
      · simp [Value.rateChange?, htext, hn, hlist]
      · intro c hc
        obtain rfl | hc := List.mem_cons.1 hc
        · exact ⟨hd, Date.number_le_iff.1 hstart, hamount⟩
        · exact hok c hc
      · refine List.pairwise_cons.2 ⟨fun c hc => ?_, hascending⟩
        exact (textBefore_textOf hd.fourDigits (hok c hc).1.fourDigits).1 (hlater c hc)
      · intro c hc
        obtain rfl | hc := List.mem_cons.1 hc
        · exact hafter
        · exact textBefore_trans hafter (hlater c hc)

/-- An accepted subscription reads as a plan. -/
theorem plan_of_accepted {value : Value} (h : validateSubscription value = []) :
    ∃ subscription plan, value.subscription? = some subscription ∧ Plan.Reads plan subscription ∧
      plan.Valid := by
  rw [validateSubscription] at h
  split_ifs at h with hobject
  simp only [List.append_eq_nil_iff, errorUnless_eq_nil, validateText] at h
  obtain ⟨⟨⟨⟨⟨⟨hid, hname⟩, hcents⟩, hstart⟩, hfinish⟩, horder⟩, hchanges⟩ := h
  obtain ⟨id, hid⟩ : ∃ id, (value.property "id").text? = some id := by
    cases htext : (value.property "id").text? <;> simp_all
  obtain ⟨name, hname⟩ : ∃ name, (value.property "name").text? = some name := by
    cases htext : (value.property "name").text? <;> simp_all
  obtain ⟨base, hbase, hamount⟩ := centsOk_iff.1 hcents
  obtain ⟨t, hstartDate⟩ := Option.isSome_iff_exists.1 hstart
  obtain ⟨start, hbounded, hstartText, rfl⟩ := readDate_eq_some hstartDate
  rw [hstartDate] at horder hchanges
  split at hchanges
  case h_2 => cases hchanges
  rename_i changes hread
  obtain ⟨list, hlist, hok, hascending, -⟩ := changes_of_accepted hchanges
  have hfinish : ∃ finish : Option Date, (value.property "endDate").text? = finish.map textOf ∧
      ∀ d, finish = some d → Bounded d ∧ start ≤ d := by
    cases hend : value.property "endDate"
    case undefined => exact ⟨none, rfl, by simp⟩
    all_goals
      simp only [isUndefined, hend, Bool.false_or] at hfinish
      obtain ⟨t, hfinishDate⟩ := Option.isSome_iff_exists.1 hfinish
      obtain ⟨d, hd, htext, rfl⟩ := readDate_eq_some hfinishDate
      rw [hend, hfinishDate] at horder
      simp only [notBefore, Option.all_some, decide_eq_true_eq] at horder
      refine ⟨some d, htext, ?_⟩
      rintro _ ⟨⟩
      exact ⟨hd, Date.number_le_iff.1 horder⟩
  obtain ⟨finish, hfinishText, hfinishOk⟩ := hfinish
  let subscription : CancelledSubscription := {
    id, name
    monthlyCents := base
    startDate := textOf start
    endDate := finish.map textOf
    rateChanges := list.map fun c => ⟨textOf c.1, c.2⟩ }
  refine ⟨subscription, ⟨start, finish, base, list⟩, ?_, ⟨rfl, rfl, rfl, rfl⟩,
    ⟨hbounded, hfinishOk, hamount, hok, hascending⟩⟩
  simp [Value.subscription?, hid, hname, hbase, hstartText, hread, hlist, hfinishText, subscription]

/-! ### Today and the cutoff -/

theorem readToday_eq {today : Today} {d : Date} (h : ValidToday today d) :
    readToday today = .ok d.number := by
  obtain ⟨hd, rfl | rfl⟩ := h
  · rw [readToday, parseDate_textOf hd, Option.elim_some]
  · have hlow := hd.1
    simp only [minYear] at hlow
    have hmake : makeDay d.year (d.month % 12) d.day = d.number := makeDay_of_read rfl rfl rfl
    have hutc := dateUTC_eq hmake (by omega) hd.fourDigits
    simp only [readToday, hutc, dateKey_number hd.fourDigits, parseDate_textOf hd, Option.elim_some]

section Cutoff

variable {plan : Plan} {subscription : CancelledSubscription} {today : Date}

/-- The cutoff is the day after which nothing is due. -/
theorem cutoffOf_eq (hreads : plan.Reads subscription) (hvalid : plan.Valid) (htoday : Bounded today) :
    ∃ last : Date, Bounded last ∧ cutoffOf subscription today.number = some last.number ∧
      ∀ d, plan.Due today d ↔ d ≤ last := by
  rw [cutoffOf, hreads.endDate]
  cases hfinish : plan.finish with
  | none => exact ⟨today, htoday, rfl, fun d => by simp [Plan.Due, hfinish]⟩
  | some finish =>
      obtain ⟨hbounded, -⟩ := hvalid.finish finish hfinish
      have hnonempty : textOf finish ≠ [] := by simp [textOf]
      have hdue (d : Date) : plan.Due today d ↔ d ≤ today ∧ d ≤ finish := by
        simp [Plan.Due, hfinish]
      simp only [Option.map_some, if_neg hnonempty, parseDate_textOf hbounded, hdue]
      by_cases h : finish ≤ today
      · refine ⟨finish, hbounded, ?_, fun d => ⟨And.right, fun hd => ⟨?_, hd⟩⟩⟩
        · rw [min_eq_left (Date.number_le_iff.2 h)]
        · rw [Date.le_iff] at *
          omega
      · have hle : today ≤ finish := by
          rw [Date.le_iff] at *
          omega
        refine ⟨today, htoday, ?_, fun d => ⟨And.left, fun hd => ⟨hd, ?_⟩⟩⟩
        · rw [min_eq_right (Date.number_le_iff.2 hle)]
        · rw [Date.le_iff] at *
          omega

end Cutoff

/-! ### The loop -/

/-- The months that are due are the first ones. -/
theorem exists_count (start last : Date) : ∃ n : ℕ, (∀ k, start.addMonths k ≤ last ↔ k < n) ∧
    (n : ℤ) ≤ max 0 (last.month - start.month + 1) := by
  have hlate : ¬start.addMonths (last.month - start.month + 1).toNat ≤ last := by
    rw [Date.le_iff]
    simp only [Date.addMonths]
    omega
  have hsome : ∃ k, ¬start.addMonths k ≤ last := ⟨_, hlate⟩
  have hfirst := Nat.find_spec hsome
  have hbefore : ∀ k < Nat.find hsome, start.addMonths k ≤ last :=
    fun k hk => not_not.1 (Nat.find_min hsome hk)
  have hle := Nat.find_min' hsome hlate
  generalize Nat.find hsome = n at hfirst hbefore hle
  refine ⟨n, fun k => ⟨fun hk => ?_, hbefore k⟩, by omega⟩
  by_contra hge
  obtain rfl | hlt := (not_lt.1 hge).eq_or_lt
  · exact hfirst hk
  · have := start.addMonths_lt hlt
    rw [Date.le_iff] at hk hfirst
    rw [Date.lt_iff] at this
    omega

def paymentOf (subscription : CancelledSubscription) (d : Date) : SubscriptionPayment :=
  ⟨textOf d, amountForDate subscription (textOf d)⟩

/-- The loop pushes the payments of the months that are left. -/
theorem paymentLoop_eq (subscription : CancelledSubscription) {start last : Date} {n : ℕ}
    (hn : ∀ k, start.addMonths k ≤ last ↔ k < n) (hlow : 100 ≤ start.year)
    (hhigh : (start.month + n) / 12 ≤ 9999) {fuel : ℕ} : ∀ {offset : ℕ}, offset ≤ n →
    n - offset < fuel → ∀ payments : List SubscriptionPayment,
      paymentLoop subscription start.number last.number fuel offset payments =
        some (payments ++ (List.range' offset (n - offset)).map fun k =>
          paymentOf subscription (start.addMonths k)) := by
  induction fuel with
  | zero =>
      intro offset hoffset hfuel payments
      omega
  | succ fuel ih =>
      intro offset hoffset hfuel payments
      have hyear : (start.addMonths offset).year = (start.month + offset) / 12 := rfl
      have hstart : start.year = start.month / 12 := rfl
      have hfour : FourDigits (start.addMonths offset) := ⟨by omega, by omega⟩
      rw [paymentLoop, anniversary_number hlow hfour.2, Option.elim_some]
      obtain rfl | hlt := hoffset.eq_or_lt
      · have hover : last.number < (start.addMonths offset).number := by
          rw [← not_le, Date.number_le_iff, hn]
          exact lt_irrefl _
        simp [if_pos hover]
      · have hdue : ¬last.number < (start.addMonths offset).number := by
          rw [not_lt, Date.number_le_iff, hn]
          exact hlt
        have hrange : List.range' offset (n - offset) =
            offset :: List.range' (offset + 1) (n - (offset + 1)) := by
          rw [← List.range'_succ]
          congr 1
          omega
        rw [if_neg hdue, ih hlt (by omega), dateKey_number hfour, hrange, List.append_assoc]
        rfl

/-! ### Amounts -/

section Amounts

variable {plan : Plan} {d : Date}

theorem amountFrom_spec (hd : FourDigits d) : ∀ {changes : List (Date × ℤ)} {base : ℤ},
    (∀ c ∈ changes, Bounded c.1) → (changes.Pairwise fun c c' => c.1 < c'.1) →
    (∃ c ∈ changes, c.1 ≤ d ∧ c.2 = amountFrom (textOf d) base
        (changes.map fun c => ⟨textOf c.1, c.2⟩) ∧ ∀ c' ∈ changes, c'.1 ≤ d → c'.1 ≤ c.1) ∨
      (∀ c ∈ changes, d < c.1) ∧
        amountFrom (textOf d) base (changes.map fun c => ⟨textOf c.1, c.2⟩) = base
  | [], base, _, _ => Or.inr ⟨by simp, rfl⟩
  | c :: rest, base, hbounded, hascending => by
      obtain ⟨hfirst, hrest⟩ := List.pairwise_cons.1 hascending
      have hbefore := textBefore_textOf hd (hbounded c List.mem_cons_self).fourDigits
      by_cases hlate : d < c.1
      · refine Or.inr ⟨fun c' hc' => ?_, ?_⟩
        · obtain rfl | hc' := List.mem_cons.1 hc'
          · exact hlate
          · have := hfirst c' hc'
            rw [Date.lt_iff] at *
            omega
        · rw [List.map_cons, amountFrom, if_pos (hbefore.2 hlate)]
      · have hle : c.1 ≤ d := Date.not_lt_iff.1 hlate
        have hstep : amountFrom (textOf d) base ((c :: rest).map fun c => ⟨textOf c.1, c.2⟩) =
            amountFrom (textOf d) c.2 (rest.map fun c => ⟨textOf c.1, c.2⟩) := by
          rw [List.map_cons, amountFrom, if_neg fun h => hlate (hbefore.1 h)]
        rw [hstep]
        refine Or.inl ?_
        obtain ⟨c', hc', hle', hamount, hlast⟩ | ⟨hnone, hamount⟩ := amountFrom_spec hd
          (fun c' hc' => hbounded c' (List.mem_cons_of_mem _ hc')) hrest
        · refine ⟨c', List.mem_cons_of_mem _ hc', hle', hamount, fun e he hed => ?_⟩
          obtain rfl | he := List.mem_cons.1 he
          · have := hfirst c' hc'
            rw [Date.lt_iff] at this
            rw [Date.le_iff]
            omega
          · exact hlast e he hed
        · refine ⟨c, List.mem_cons_self, hle, hamount.symm, fun e he hed => ?_⟩
          obtain rfl | he := List.mem_cons.1 he
          · rw [Date.le_iff]
            omega
          · exact absurd (hnone e he) (Date.not_lt_iff.2 hed)

/-- Every amount is within its bounds. -/
theorem amountOk_of_amountAt (hvalid : plan.Valid) {amount : ℤ} (h : plan.AmountAt d amount) :
    AmountOk amount := by
  obtain ⟨c, hc, -, rfl, -⟩ | ⟨-, rfl⟩ := h
  · exact (hvalid.changes c hc).2.2
  · exact hvalid.base

theorem amountAt_amountForDate {subscription : CancelledSubscription}
    (hreads : plan.Reads subscription) (hvalid : plan.Valid) (hd : FourDigits d) :
    plan.AmountAt d (amountForDate subscription (textOf d)) := by
  rw [amountForDate, hreads.rateChanges, hreads.monthlyCents]
  exact amountFrom_spec hd (fun c hc => (hvalid.changes c hc).1) hvalid.ascending

end Amounts

/-- Sums of few bounded amounts are safe integers. -/
theorem foldlM_addPayment : ∀ {payments : List SubscriptionPayment} {sum : ℤ}, 0 ≤ sum →
    (∀ payment ∈ payments, AmountOk payment.amountCents) →
    sum + maxMonthlyCents * payments.length < 2 ^ 53 →
    payments.foldlM addPayment sum =
      .ok (sum + (payments.map SubscriptionPayment.amountCents).sum)
  | [], sum, _, _, _ => by simp [pure, Except.pure]
  | payment :: rest, sum, hsum, hok, hbound => by
      obtain ⟨hlow, hhigh⟩ := hok payment List.mem_cons_self
      have hrest : (0 : ℤ) ≤ maxMonthlyCents * rest.length := by
        simp only [maxMonthlyCents]
        omega
      have hbound' : sum + payment.amountCents + maxMonthlyCents * rest.length < 2 ^ 53 := by
        rw [List.length_cons, Nat.cast_add, Nat.cast_one, mul_add, mul_one] at hbound
        omega
      have hsafe : |sum + payment.amountCents| < 2 ^ 53 := by
        rw [abs_of_nonneg (by omega)]
        omega
      have ih := foldlM_addPayment (add_nonneg hsum hlow)
        (fun p hp => hok p (List.mem_cons_of_mem _ hp)) hbound'
      rw [List.foldlM_cons, addPayment, if_pos hsafe]
      simp only [bind, Except.bind, ih, List.map_cons, List.sum_cons, add_assoc]

/-! ### The savings -/

def savingsOf (subscription : CancelledSubscription) (start : Date) (n : ℕ) : SubscriptionSavings :=
  let payments := (List.range n).map fun k => paymentOf subscription (start.addMonths k)
  { id := subscription.id
    name := subscription.name
    monthlyCents := subscription.monthlyCents
    payments
    totalCents := (payments.map SubscriptionPayment.amountCents).sum }

section Savings

variable {plan : Plan} {value : Value} {subscription : CancelledSubscription}

/-- The calculation ends with the savings of the months that are due. -/
theorem calculates_savingsOf (haccepted : validateSubscription value = [])
    (hread : value.subscription? = some subscription) (hreads : plan.Reads subscription)
    (hvalid : plan.Valid) {today : Today} {d : Date} (htoday : ValidToday today d) :
    ∃ n, Calculates value today (savingsOf subscription plan.start n) ∧
      (∀ k, plan.Due d (plan.start.addMonths k) ↔ k < n) ∧
      ∀ k < n, FourDigits (plan.start.addMonths k) := by
  obtain ⟨last, hlast, hcutoff, hdue⟩ := cutoffOf_eq hreads hvalid htoday.1
  obtain ⟨n, hn, hbound⟩ := exists_count plan.start last
  obtain ⟨hstartLow, hstartHigh⟩ := hvalid.start
  obtain ⟨hlastLow, hlastHigh⟩ := hlast
  simp only [minYear, maxYear, Date.year] at hstartLow hstartHigh hlastLow hlastHigh
  have hmonths : n ≤ 1572 := by omega
  have hyear (k : ℕ) : (plan.start.addMonths k).year = (plan.start.month + k) / 12 := rfl
  have hfour : ∀ k < n, FourDigits (plan.start.addMonths k) := by
    intro k hk
    constructor <;> rw [hyear] <;> omega
  refine ⟨n, fun fuel hfuel => ?_, fun k => (hdue _).trans (hn k), hfour⟩
  have hparse := parseDate_textOf hvalid.start
  have hlow : 100 ≤ plan.start.year := by
    simp only [Date.year]
    omega
  have hpositive : n - 0 < fuel := by omega
  have hloop := paymentLoop_eq subscription hn hlow (by omega) (Nat.zero_le n) hpositive []
  have hok : ∀ payment ∈ (List.range n).map fun k => paymentOf subscription (plan.start.addMonths k),
      AmountOk payment.amountCents := by
    intro payment hpayment
    obtain ⟨k, hk, rfl⟩ := List.mem_map.1 hpayment
    exact amountOk_of_amountAt hvalid
      (amountAt_amountForDate hreads hvalid (hfour k (List.mem_range.1 hk)))
  have htotal := foldlM_addPayment le_rfl hok (by
    simp only [maxMonthlyCents, List.length_map, List.length_range]
    omega)
  rw [← hreads.startDate] at hparse
  rw [Nat.sub_zero, ← List.range_eq_range', List.nil_append] at hloop
  simp [calculateSubscriptionSavings, haccepted, readToday_eq htoday, hread, hparse, hcutoff, hloop,
    htotal, savingsOf, Except.map]

theorem follows_savingsOf (hreads : plan.Reads subscription) (hvalid : plan.Valid) {d : Date} {n : ℕ}
    (hdue : ∀ k, plan.Due d (plan.start.addMonths k) ↔ k < n)
    (hfour : ∀ k < n, FourDigits (plan.start.addMonths k)) :
    plan.Follows d (savingsOf subscription plan.start n) where
  due k := by simp [savingsOf, hdue]
  paid k payment h := by
    simp only [savingsOf, List.getElem?_map, Option.map_eq_some_iff] at h
    obtain ⟨k', hk, rfl⟩ := h
    obtain ⟨hlt, rfl⟩ := List.getElem?_eq_some_iff.1 hk
    rw [List.getElem_range]
    rw [List.length_range] at hlt
    exact ⟨rfl, amountAt_amountForDate hreads hvalid (hfour k hlt)⟩
  increasing := by
    rw [savingsOf, List.pairwise_map]
    refine List.pairwise_lt_range.imp_of_mem fun {a b} ha hb hab => ?_
    exact (textBefore_textOf (hfour a (List.mem_range.1 ha)) (hfour b (List.mem_range.1 hb))).2
      (plan.start.addMonths_lt hab)
  total := rfl

end Savings

/-- Every accepted subscription is a plan, whose payments until any day are the calendar's, and those
until an earlier day are the first ones of them. -/
theorem subscription_payments_exact (value : Value) (haccepted : validateSubscription value = []) :
    ∃ subscription plan, value.subscription? = some subscription ∧ Plan.Reads plan subscription ∧
      (∀ today d, ValidToday today d →
        ∃ savings, Calculates value today savings ∧ plan.Follows d savings) ∧
      ∀ today₁ d₁ savings₁ today₂ d₂ savings₂, ValidToday today₁ d₁ → ValidToday today₂ d₂ →
        d₁ ≤ d₂ → Calculates value today₁ savings₁ → Calculates value today₂ savings₂ →
        savings₁.payments <+: savings₂.payments := by
  obtain ⟨subscription, plan, hread, hreads, hvalid⟩ := plan_of_accepted haccepted
  refine ⟨subscription, plan, hread, hreads, fun today d htoday => ?_, ?_⟩
  · obtain ⟨n, hcalculates, hdue, hfour⟩ := calculates_savingsOf haccepted hread hreads hvalid htoday
    exact ⟨_, hcalculates, follows_savingsOf hreads hvalid hdue hfour⟩
  · intro today₁ d₁ savings₁ today₂ d₂ savings₂ h₁ h₂ hle hcalculates₁ hcalculates₂
    obtain ⟨n₁, hn₁, hdue₁, -⟩ := calculates_savingsOf haccepted hread hreads hvalid h₁
    obtain ⟨n₂, hn₂, hdue₂, -⟩ := calculates_savingsOf haccepted hread hreads hvalid h₂
    have hsame {today : Today} {savings savings' : SubscriptionSavings}
        (h : Calculates value today savings) (h' : Calculates value today savings') :
        savings = savings' :=
      Except.ok.inj (Option.some.inj ((h 1573 le_rfl).symm.trans (h' 1573 le_rfl)))
    obtain rfl := hsame hcalculates₁ hn₁
    obtain rfl := hsame hcalculates₂ hn₂
    have hcount : n₁ ≤ n₂ := by
      by_contra hlt
      have hlast := (hdue₁ n₂).2 (not_le.1 hlt)
      refine lt_irrefl n₂ ((hdue₂ n₂).1 ⟨?_, hlast.2⟩)
      have hday := hlast.1
      rw [Date.le_iff] at *
      omega
    obtain ⟨m, rfl⟩ := Nat.exists_eq_add_of_le hcount
    simp only [savingsOf, List.range_add, List.map_append]
    exact List.prefix_append _ _

/-- A subscription from the last day of a month on, with one change of its rate. -/
def monthEndSubscription : Value :=
  .object [("id", .string "chatgpt".toList), ("name", .string "ChatGPT".toList),
    ("monthlyCents", .number (some 2000)), ("startDate", .string "2026-01-31".toList),
    ("rateChanges", .array [.object [("effectiveDate", .string "2026-03-01".toList),
      ("monthlyCents", .number (some 2500))]])]

theorem subscription_payments_exact_monthEnd :
    ∃ plan : Plan, ∀ today d, ValidToday today d →
      ∃ savings, Calculates monthEndSubscription today savings ∧ plan.Follows d savings := by
  obtain ⟨subscription, plan, hread, hreads, hpayments, -⟩ :=
    subscription_payments_exact monthEndSubscription (by decide +kernel)
  exact ⟨plan, hpayments⟩

example : (calculateSubscriptionSavings 1573 monthEndSubscription
    (.text "2026-04-30".toList)).map (Except.map fun savings => savings.totalCents) =
    some (.ok 9000) := by
  decide +kernel

end InferDeck.Dashboard
