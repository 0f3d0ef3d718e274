import InferDeck.TokenUsage

/-!
# The server's usage and the dashboard's

Adding the row that the server computes for a set of requests to an empty bucket gives the integers
that adding the requests one by one gives. The generation time differs where a successful request
has one and no completion tokens: the query counts it, the dashboard does not. Times, rates and
costs are doubles besides, which the two sides round at different places.
-/

namespace InferDeck.Usage

open DoublePrecision

/-- `SUM` of a column of doubles: a double, and the sum itself where nothing has to be rounded. -/
structure SqlSum (sum : List ℚ → ℚ) : Prop where
  double : ∀ values, IsDouble (sum values)
  exact : ∀ values, ExactSums values → sum values = values.sum

def UsageAgrees (sum : List ℚ → ℚ) (cost : ModelCostConfig) (bucket model : String)
    (rows : List RequestRow) : Prop :=
  addPersistedRow emptyTokenBucket (bucketedUsage sum bucket model rows) cost =
    jobsBucket rows cost

namespace ModelCostConfig

variable (cost : ModelCostConfig)

def noLegacyRatio : Prop := cost.legacyCachedPromptRatio.getD 0 = 0

instance : Decidable cost.noLegacyRatio := inferInstanceAs (Decidable (_ = _))

def price (prompt cachedPrompt output : ℕ) (audioSeconds : ℚ) (characters : ℕ) : ℚ :=
  match cost.billingUnit with
  | .audioMinute => toDouble (toDouble (audioSeconds / 60) * cost.pricePerUnit.getD 0)
  | .millionCharacters => perMillion characters (cost.pricePerUnit.getD 0)
  | .tokens =>
      toDouble (toDouble (perMillion (prompt - cachedPrompt : ℕ) cost.promptPerMillion +
          perMillion cachedPrompt cost.cachedPromptPerMillion) +
        perMillion output cost.outputPerMillion)

def requestPrice (row : RequestRow) : ℚ :=
  cost.price row.promptTokens row.cachedPromptTokens row.completionTokens row.inputAudioSeconds
    row.inputCharacters

theorem isDouble_price (p c o : ℕ) (a : ℚ) (t : ℕ) : IsDouble (cost.price p c o a t) := by
  unfold price
  cases cost.billingUnit <;> exact isDouble_toDouble _

end ModelCostConfig

/-! ### When they agree -/

/-- The totals of tokens, characters and requests are integers that a double holds, and times and
prices are so far from the largest and the smallest double that nothing overflows. -/
structure InRange (cost : ModelCostConfig) (rows : List RequestRow) : Prop where
  tokens : (rows.map fun r => r.promptTokens + r.completionTokens).sum ≤ 2 ^ 53
  eachTokens : ∀ r ∈ rows, r.promptTokens + r.completionTokens < 2 ^ 31
  characters : (rows.map fun r => r.inputCharacters).sum ≤ 2 ^ 53
  requests : rows.length ≤ 2 ^ 53
  times : ∀ r ∈ rows, ∀ time ∈ [r.generationDurationMs, r.promptDurationMs, r.inputAudioSeconds],
    time = 0 ∨ 1 / 2 ^ 512 ≤ time ∧ time ≤ 2 ^ 512
  prices : ∀ price ∈ [cost.promptPerMillion, cost.cachedPromptPerMillion, cost.outputPerMillion,
    cost.pricePerUnit.getD 0], |price| ≤ 2 ^ 512

def generationTimes (rows : List RequestRow) : List ℚ :=
  (rows.filter RequestRow.measuresCompletion).map RequestRow.generationDurationMs

def promptTimes (rows : List RequestRow) : List ℚ :=
  (rows.filter RequestRow.measuresPrompt).map RequestRow.promptDurationMs

def columnOf (p : RequestRow → Bool) (time : RequestRow → ℚ) (rows : List RequestRow) : List ℚ :=
  rows.map fun r => if p r then time r else 0

def RequestRow.timed (row : RequestRow) : Bool :=
  row.succeeded && decide (0 < row.generationDurationMs)

theorem RequestRow.measuresCompletion_eq (row : RequestRow) :
    row.measuresCompletion = (row.timed && decide (0 < row.completionTokens)) := rfl

def queriedPeak (rows : List RequestRow) : ℚ :=
  maxOf rows fun r =>
    if r.measuresCompletion then queriedRate r.completionTokens r.generationDurationMs else 0

def queriedPromptPeak (rows : List RequestRow) : ℚ :=
  maxOf rows fun r =>
    if r.measuresPrompt then queriedRate (r.promptTokens - r.cachedPromptTokens) r.promptDurationMs
    else 0

def completionRates (rows : List RequestRow) : List ℚ :=
  (rows.filter RequestRow.measuresCompletion).map fun r =>
    measuredRate r.completionTokens r.generationDurationMs

def promptRates (rows : List RequestRow) : List ℚ :=
  (rows.filter RequestRow.measuresPrompt).map fun r =>
    measuredRate (r.promptTokens - r.cachedPromptTokens : ℕ) r.promptDurationMs

def totalPrice (sum : List ℚ → ℚ) (cost : ModelCostConfig) (rows : List RequestRow) : ℚ :=
  cost.price (sumOf rows RequestRow.promptTokens) (sumOf rows RequestRow.cachedPromptTokens)
    (sumOf rows RequestRow.completionTokens) (sum (rows.map RequestRow.inputAudioSeconds))
    (sumOf rows RequestRow.inputCharacters)

/-- What the two sides compute in different orders is rounded to the same double: the times of the
same requests, their audio, `tokens * 1000 / time` and `tokens / (time / 1000)`, the cost of a sum
and the sum of costs. -/
structure RoundedAlike (sum : List ℚ → ℚ) (cost : ModelCostConfig) (rows : List RequestRow) :
    Prop where
  generation : sum (columnOf RequestRow.measuresCompletion RequestRow.generationDurationMs rows) =
    total (generationTimes rows)
  prompt : sum (columnOf RequestRow.measuresPrompt RequestRow.promptDurationMs rows) =
    total (promptTimes rows)
  audio : sum (rows.map RequestRow.inputAudioSeconds) = total (rows.map RequestRow.inputAudioSeconds)
  peak : queriedPeak rows = (completionRates rows).foldl max 0
  promptPeak : queriedPromptPeak rows = (promptRates rows).foldl max 0
  cost : totalPrice sum cost rows = total (rows.map cost.requestPrice)

/-- Every successful request with generation time has completion tokens. -/
def AllAnswered (rows : List RequestRow) : Prop :=
  ∀ r ∈ rows, r.timed = true → 0 < r.completionTokens

/-- Whichever requests are taken, their generation times add up to a double. -/
def ExactTimes (rows : List RequestRow) : Prop :=
  ExactSums (rows.map RequestRow.generationDurationMs)

/-! ### The dashboard's side -/

section Jobs

variable {cost : ModelCostConfig} {rows : List RequestRow} {row : RequestRow} {n k : ℕ}

theorem number_eq (h : n ≤ 2 ^ 53) : number n = n := isDouble_natCast h

theorem toDouble_sub (hle : k ≤ n) (h : n ≤ 2 ^ 53) : toDouble ((n : ℚ) - k) = (n - k : ℕ) := by
  rw [← Nat.cast_sub hle]
  exact isDouble_natCast ((Nat.sub_le n k).trans h)

theorem effectiveCachedPromptTokens_eq {usage : CostUsage} (hlegacy : cost.noLegacyRatio)
    (hprompt : usage.promptTokens = n) (hcached : usage.cachedPromptTokens = k) (hle : k ≤ n) :
    effectiveCachedPromptTokens usage cost = k := by
  have hprompt' : max 0 usage.promptTokens = n := by
    rw [hprompt]
    exact max_eq_right (Nat.cast_nonneg n)
  have hcached' : max 0 usage.cachedPromptTokens = k := by
    rw [hcached]
    exact max_eq_right (Nat.cast_nonneg k)
  have hrecorded : min (n : ℚ) k = k := min_eq_right (Nat.cast_le.2 hle)
  unfold effectiveCachedPromptTokens
  dsimp only
  rw [hprompt', hcached', hrecorded]
  exact if_pos (Or.inr (Or.inr (Or.inl hlegacy)))

theorem estimateUsageCost_eq {usage : CostUsage} {output characters : ℕ}
    (hlegacy : cost.noLegacyRatio) (hprompt : usage.promptTokens = n)
    (hcached : usage.cachedPromptTokens = k) (houtput : usage.completionTokens = output)
    (hcharacters : usage.inputCharacters = characters) (hle : k ≤ n) (h : n ≤ 2 ^ 53) :
    estimateUsageCost usage cost = cost.price n k output usage.inputAudioSeconds characters := by
  unfold estimateUsageCost ModelCostConfig.price
  cases cost.billingUnit with
  | audioMinute => rfl
  | millionCharacters => rw [hcharacters]
  | tokens =>
      dsimp only
      rw [effectiveCachedPromptTokens_eq hlegacy hprompt hcached hle, hprompt, houtput,
        estimateCostAvoided, max_eq_right (Nat.cast_nonneg n), max_eq_right (Nat.cast_nonneg k),
        min_eq_right (Nat.cast_le.2 hle : (k : ℚ) ≤ n), toDouble_sub hle h]

def addAll (cost : ModelCostConfig) (bucket : TokenBucketValues) (rows : List RequestRow) :
    TokenBucketValues where
  prompt := totalFrom bucket.prompt (rows.map fun r => (r.promptTokens : ℚ))
  cachedPrompt := totalFrom bucket.cachedPrompt (rows.map fun r => (r.cachedPromptTokens : ℚ))
  output := totalFrom bucket.output (rows.map fun r => (r.completionTokens : ℚ))
  total := totalFrom bucket.total (rows.map fun r => ((r.promptTokens + r.completionTokens : ℕ) : ℚ))
  cost := totalFrom bucket.cost (rows.map cost.requestPrice)
  requests := totalFrom bucket.requests (rows.map fun _ => 1)
  successfulRequests :=
    totalFrom bucket.successfulRequests (rows.map fun r => if r.succeeded then 1 else 0)
  audioSeconds := totalFrom bucket.audioSeconds (rows.map RequestRow.inputAudioSeconds)
  characters := totalFrom bucket.characters (rows.map fun r => (r.inputCharacters : ℚ))
  generationDurationMs := totalFrom bucket.generationDurationMs (generationTimes rows)
  promptDurationMs := totalFrom bucket.promptDurationMs (promptTimes rows)
  measuredCompletionTokens := totalFrom bucket.measuredCompletionTokens
    ((rows.filter RequestRow.measuresCompletion).map fun r => (r.completionTokens : ℚ))
  measuredPromptTokens := totalFrom bucket.measuredPromptTokens
    ((rows.filter RequestRow.measuresPrompt).map fun r =>
      ((r.promptTokens - r.cachedPromptTokens : ℕ) : ℚ))
  peakTokensPerSecond := (completionRates rows).foldl max bucket.peakTokensPerSecond
  peakPromptTokensPerSecond := (promptRates rows).foldl max bucket.peakPromptTokensPerSecond

/-- A request that a double holds the counts of. -/
def Countable (row : RequestRow) : Prop :=
  row.promptTokens + row.completionTokens ≤ 2 ^ 53 ∧ row.inputCharacters ≤ 2 ^ 53

theorem addJob_eq (hlegacy : cost.noLegacyRatio) (hrow : Countable row)
    (bucket : TokenBucketValues) :
    addJob bucket (dashboardJob row) cost = addAll cost bucket [row] := by
  obtain ⟨htokens, hcharacters⟩ := hrow
  have hle := row.cached_le
  have hprompt : (dashboardJob row).promptTokens = row.promptTokens := number_eq (by omega)
  have hcached : (dashboardJob row).cachedPromptTokens = row.cachedPromptTokens :=
    number_eq (by omega)
  have houtput : (dashboardJob row).completionTokens = row.completionTokens := number_eq (by omega)
  have htotal : (dashboardJob row).totalTokens = (row.promptTokens + row.completionTokens : ℕ) :=
    number_eq htokens
  have hinput : (dashboardJob row).inputCharacters = row.inputCharacters := number_eq hcharacters
  have heffective : effectiveCachedPromptTokens (dashboardJob row).costUsage cost =
      row.cachedPromptTokens := effectiveCachedPromptTokens_eq hlegacy hprompt hcached hle
  have hcost : estimateUsageCost { (dashboardJob row).costUsage with
      cachedPromptTokens := (row.cachedPromptTokens : ℚ) } cost = cost.requestPrice row :=
    estimateUsageCost_eq hlegacy hprompt rfl houtput hinput hle (by omega)
  have huncached : toDouble ((row.promptTokens : ℚ) - row.cachedPromptTokens) =
      (row.promptTokens - row.cachedPromptTokens : ℕ) := toDouble_sub hle (by omega)
  have hstatus : decide ((dashboardJob row).status = .succeeded) = row.succeeded := by
    unfold dashboardJob
    cases row.succeeded <;> rfl
  have hsucceeded : (if (dashboardJob row).status = .succeeded then (1 : ℚ) else 0) =
      if row.succeeded then 1 else 0 := by
    rw [← hstatus]
    simp
  have hcompletion : (decide ((dashboardJob row).status = .succeeded) &&
      decide (0 < (dashboardJob row).generationDurationMs) &&
      decide ((0 : ℚ) < row.completionTokens)) = row.measuresCompletion := by
    rw [hstatus, decide_eq_decide.2 (Nat.cast_pos (n := row.completionTokens) (α := ℚ))]
    rfl
  have hmeasures : (decide ((dashboardJob row).status = .succeeded) &&
      decide (0 < (dashboardJob row).promptDurationMs) &&
      decide ((0 : ℚ) < (row.promptTokens - row.cachedPromptTokens : ℕ))) = row.measuresPrompt := by
    have hpositive : (0 : ℚ) < (row.promptTokens - row.cachedPromptTokens : ℕ) ↔
        row.cachedPromptTokens < row.promptTokens := Nat.cast_pos.trans Nat.sub_pos_iff_lt
    rw [hstatus, decide_eq_decide.2 hpositive]
    rfl
  unfold addJob
  dsimp only
  rw [heffective, hcost, hprompt, houtput, htotal, hinput, huncached, hcompletion, hmeasures,
    hsucceeded]
  cases hanswers : row.measuresCompletion <;> cases hreads : row.measuresPrompt <;>
    simp [addAll, totalFrom, generationTimes, promptTimes, completionRates, promptRates, dashboardJob,
      hanswers, hreads]

theorem addAll_cons (cost : ModelCostConfig) (bucket : TokenBucketValues) (row : RequestRow)
    (rows : List RequestRow) :
    addAll cost (addAll cost bucket [row]) rows = addAll cost bucket (row :: rows) := by
  cases hanswers : row.measuresCompletion <;> cases hreads : row.measuresPrompt <;>
    simp [addAll, totalFrom, generationTimes, promptTimes, completionRates, promptRates, hanswers, hreads]

theorem foldl_addJob (hlegacy : cost.noLegacyRatio) (hrows : ∀ row ∈ rows, Countable row)
    (bucket : TokenBucketValues) :
    rows.foldl (fun bucket row => addJob bucket (dashboardJob row) cost) bucket =
      addAll cost bucket rows := by
  induction rows generalizing bucket with
  | nil => rfl
  | cons row rows ih =>
      rw [List.foldl_cons, addJob_eq hlegacy (hrows row List.mem_cons_self),
        ih fun other hother => hrows other (List.mem_cons_of_mem row hother), addAll_cons]

end Jobs

/-! ### Both sides -/

section Agreement

variable {sum : List ℚ → ℚ} {cost : ModelCostConfig} {rows : List RequestRow}
  {f g : RequestRow → ℕ} {p : RequestRow → Bool}

theorem sumOf_le_sumOf (h : ∀ r, f r ≤ g r) : sumOf rows f ≤ sumOf rows g :=
  List.sum_le_sum fun r _ => h r

theorem totalFrom_natCast (h : sumOf rows f ≤ 2 ^ 53) :
    totalFrom 0 (rows.map fun r => (f r : ℚ)) = sumOf rows f := by
  have hexact := exactSums_natCast h
  rw [List.map_map] at hexact
  have htotal := hexact.total_eq
  rw [← List.map_map, ← Nat.cast_list_sum] at htotal
  simpa [total, sumOf, Function.comp_def] using htotal

theorem sumOf_filter : sumOf (rows.filter p) f = sumOf rows fun r => if p r then f r else 0 := by
  unfold sumOf
  induction rows with
  | nil => rfl
  | cons row rows ih => cases hp : p row <;> simp [hp, ih]

theorem totalFrom_filter (h : (sumOf rows fun r => if p r then f r else 0) ≤ 2 ^ 53) :
    totalFrom 0 ((rows.filter p).map fun r => (f r : ℚ)) =
      (sumOf rows fun r => if p r then f r else 0 : ℕ) := by
  rw [← sumOf_filter] at h ⊢
  exact totalFrom_natCast h

theorem maxOf_nonneg {rate : RequestRow → ℚ} (h : ∀ r, 0 ≤ rate r) : 0 ≤ maxOf rows rate := by
  cases rows with
  | nil => exact le_rfl
  | cons row rows =>
      change 0 ≤ (rows.map rate).foldl max (rate row)
      rw [List.foldl_max]
      exact (h row).trans (le_max_left _ _)

theorem queriedRate_nonneg {tokens : ℕ} {duration : ℚ} (h : 0 ≤ duration) :
    0 ≤ queriedRate tokens duration :=
  toDouble_nonneg (div_nonneg (toDouble_nonneg (by positivity)) h)

theorem queriedPeak_nonneg (rows : List RequestRow) : 0 ≤ queriedPeak rows := by
  refine maxOf_nonneg fun r => ?_
  by_cases hmeasures : r.measuresCompletion = true
  · rw [if_pos hmeasures]
    simp only [RequestRow.measuresCompletion, Bool.and_eq_true, decide_eq_true_eq] at hmeasures
    exact queriedRate_nonneg hmeasures.1.2.le
  · rw [if_neg hmeasures]

theorem queriedPromptPeak_nonneg (rows : List RequestRow) : 0 ≤ queriedPromptPeak rows := by
  refine maxOf_nonneg fun r => ?_
  by_cases hmeasures : r.measuresPrompt = true
  · rw [if_pos hmeasures]
    simp only [RequestRow.measuresPrompt, Bool.and_eq_true, decide_eq_true_eq] at hmeasures
    exact queriedRate_nonneg hmeasures.1.2.le
  · rw [if_neg hmeasures]

/-- What the dashboard gets of an integer and adds to nothing. -/
theorem toDouble_number {n : ℕ} (h : n ≤ 2 ^ 53) : toDouble (0 + number n) = n := by
  rw [zero_add, number_eq h]
  exact isDouble_natCast h

/-- What an empty bucket holds with the row added. -/
theorem addPersistedRow_eq (hsum : SqlSum sum) (hlegacy : cost.noLegacyRatio)
    (bucket model : String) (hrange : InRange cost rows) :
    addPersistedRow emptyTokenBucket (bucketedUsage sum bucket model rows) cost =
      { addAll cost emptyTokenBucket rows with
        cost := totalPrice sum cost rows
        audioSeconds := sum (rows.map RequestRow.inputAudioSeconds)
        generationDurationMs := sum (columnOf RequestRow.timed RequestRow.generationDurationMs rows)
        promptDurationMs := sum (columnOf RequestRow.measuresPrompt RequestRow.promptDurationMs rows)
        peakTokensPerSecond := queriedPeak rows
        peakPromptTokensPerSecond := queriedPromptPeak rows } := by
  have hbound {f : RequestRow → ℕ} (h : ∀ r, f r ≤ r.promptTokens + r.completionTokens) :
      sumOf rows f ≤ 2 ^ 53 := (sumOf_le_sumOf h).trans hrange.tokens
  have hprompt : sumOf rows RequestRow.promptTokens ≤ 2 ^ 53 := hbound fun r => Nat.le_add_right _ _
  have hcached : sumOf rows RequestRow.cachedPromptTokens ≤ 2 ^ 53 :=
    hbound fun r => r.cached_le.trans (Nat.le_add_right _ _)
  have hcachedLe : sumOf rows RequestRow.cachedPromptTokens ≤ sumOf rows RequestRow.promptTokens :=
    sumOf_le_sumOf RequestRow.cached_le
  have houtput : sumOf rows RequestRow.completionTokens ≤ 2 ^ 53 :=
    hbound fun r => Nat.le_add_left _ _
  have hmeasured : (sumOf rows fun r => if r.measuresCompletion then r.completionTokens else 0) ≤
      2 ^ 53 := hbound fun r => by split_ifs <;> omega
  have hread : (sumOf rows fun r =>
      if r.measuresPrompt then r.promptTokens - r.cachedPromptTokens else 0) ≤ 2 ^ 53 :=
    hbound fun r => by split_ifs <;> omega
  have hlength : (sumOf rows fun _ => 1) = rows.length := by simp [sumOf]
  have hsucceeded : (sumOf rows fun r => if r.succeeded then 1 else 0) ≤ 2 ^ 53 := by
    refine (sumOf_le_sumOf fun r => ?_ : _ ≤ sumOf rows fun _ => 1).trans
      (hlength.le.trans hrange.requests)
    split_ifs <;> omega
  have heffective : effectiveCachedPromptTokens (bucketedUsage sum bucket model rows).costUsage cost =
      sumOf rows RequestRow.cachedPromptTokens :=
    effectiveCachedPromptTokens_eq hlegacy (number_eq hprompt) (number_eq hcached) hcachedLe
  have hcost : estimateUsageCost { (bucketedUsage sum bucket model rows).costUsage with
      cachedPromptTokens := (sumOf rows RequestRow.cachedPromptTokens : ℚ) } cost =
      totalPrice sum cost rows :=
    estimateUsageCost_eq hlegacy (number_eq hprompt) rfl (number_eq houtput)
      (number_eq hrange.characters) hcachedLe hprompt
  have hprice : IsDouble (totalPrice sum cost rows) := cost.isDouble_price _ _ _ _ _
  unfold addPersistedRow
  dsimp only
  rw [heffective, hcost]
  simp only [addAll, emptyTokenBucket, TokenBucketValues.mk.injEq]
  refine ⟨?_, ?_, ?_, ?_, ?_, ?_, ?_, ?_, ?_, ?_, ?_, ?_, ?_, ?_, ?_⟩
  · exact (toDouble_number hprompt).trans (totalFrom_natCast hprompt).symm
  · rw [zero_add, isDouble_natCast hcached]
    exact (totalFrom_natCast hcached).symm
  · exact (toDouble_number houtput).trans (totalFrom_natCast houtput).symm
  · exact (toDouble_number hrange.tokens).trans (totalFrom_natCast hrange.tokens).symm
  · rw [zero_add]
    exact hprice
  · have hones : totalFrom 0 (rows.map fun _ => ((1 : ℕ) : ℚ)) = (sumOf rows fun _ => 1 : ℕ) :=
      totalFrom_natCast (hlength.le.trans hrange.requests)
    rw [hlength, Nat.cast_one] at hones
    exact (toDouble_number hrange.requests).trans hones.symm
  · have hones := totalFrom_natCast hsucceeded
    simp only [Nat.cast_ite, Nat.cast_one, Nat.cast_zero] at hones
    exact (toDouble_number hsucceeded).trans hones.symm
  · rw [zero_add]
    exact hsum.double _
  · exact (toDouble_number hrange.characters).trans (totalFrom_natCast hrange.characters).symm
  · rw [zero_add]
    exact hsum.double _
  · rw [zero_add]
    exact hsum.double _
  · exact (toDouble_number hmeasured).trans (totalFrom_filter hmeasured).symm
  · exact (toDouble_number hread).trans (totalFrom_filter hread).symm
  · exact max_eq_right (queriedPeak_nonneg rows)
  · exact max_eq_right (queriedPromptPeak_nonneg rows)

/-- The buckets agree when the doubles in them do. -/
theorem usageAgrees_iff (hsum : SqlSum sum) (hlegacy : cost.noLegacyRatio) (bucket model : String)
    (hrange : InRange cost rows) : UsageAgrees sum cost bucket model rows ↔
      sum (columnOf RequestRow.timed RequestRow.generationDurationMs rows) =
        total (generationTimes rows) ∧
      sum (columnOf RequestRow.measuresPrompt RequestRow.promptDurationMs rows) =
        total (promptTimes rows) ∧
      sum (rows.map RequestRow.inputAudioSeconds) = total (rows.map RequestRow.inputAudioSeconds) ∧
      queriedPeak rows = (completionRates rows).foldl max 0 ∧
      queriedPromptPeak rows = (promptRates rows).foldl max 0 ∧
      totalPrice sum cost rows = total (rows.map cost.requestPrice) := by
  have hcountable : ∀ row ∈ rows, Countable row := fun row hrow =>
    ⟨(List.single_le_sum (fun _ _ => Nat.zero_le _) _
        (List.mem_map_of_mem hrow)).trans hrange.tokens,
      (List.single_le_sum (fun _ _ => Nat.zero_le _) _
        (List.mem_map_of_mem hrow)).trans hrange.characters⟩
  rw [UsageAgrees, addPersistedRow_eq hsum hlegacy bucket model hrange, jobsBucket,
    foldl_addJob hlegacy hcountable]
  simp only [addAll, emptyTokenBucket, total, TokenBucketValues.mk.injEq, true_and]
  tauto

section Exact

variable {time : RequestRow → ℚ}

/-- The requests that do not pass add nothing. -/
theorem sum_columnOf (p : RequestRow → Bool) (time : RequestRow → ℚ) (rows : List RequestRow) :
    (columnOf p time rows).sum = ((rows.filter p).map time).sum := by
  unfold columnOf
  induction rows with
  | nil => rfl
  | cons row rows ih => cases hp : p row <;> simp [hp, ih]

theorem exactSums_columnOf (p : RequestRow → Bool) (h : ExactSums (rows.map time)) :
    ExactSums (columnOf p time rows) := by
  intro part hpart
  obtain ⟨chosen, hchosen, rfl⟩ := List.sublist_map_iff.1 hpart
  have hsame := sum_columnOf p time chosen
  unfold columnOf at hsame
  rw [hsame]
  exact h _ (List.filter_sublist.trans hchosen |>.map time)

theorem exactSums_filter (p : RequestRow → Bool) (h : ExactSums (rows.map time)) :
    ExactSums ((rows.filter p).map time) :=
  h.sublist (List.filter_sublist.map time)

/-- Sums of terms in order agree where the terms do. -/
theorem sum_eq_sum_iff {f g : RequestRow → ℚ} (h : ∀ r, f r ≤ g r) :
    (rows.map f).sum = (rows.map g).sum ↔ ∀ r ∈ rows, f r = g r := by
  induction rows with
  | nil => simp
  | cons row rows ih =>
      rw [List.map_cons, List.map_cons, List.sum_cons, List.sum_cons, List.forall_mem_cons, ← ih]
      have hrow := h row
      have hrows : (rows.map f).sum ≤ (rows.map g).sum := List.sum_le_sum fun r _ => h r
      constructor
      · intro heq
        constructor <;> linarith
      · rintro ⟨hrow, hrows⟩
        rw [hrow, hrows]

/-- The times that add up exactly do so on both sides when each of them is counted on both. -/
theorem generation_eq_iff (hsum : SqlSum sum) (hexact : ExactTimes rows) :
    sum (columnOf RequestRow.timed RequestRow.generationDurationMs rows) =
      total (generationTimes rows) ↔ AllAnswered rows := by
  have hle : ∀ r : RequestRow, (if r.measuresCompletion then r.generationDurationMs else 0) ≤
      if r.timed then r.generationDurationMs else 0 := by
    intro r
    rw [r.measuresCompletion_eq]
    cases htimed : r.timed with
    | false => simp
    | true =>
        have hpos : 0 < r.generationDurationMs :=
          of_decide_eq_true (Bool.and_eq_true_iff.1 htimed).2
        rw [Bool.true_and, if_pos rfl]
        split_ifs
        · exact le_rfl
        · exact hpos.le
  rw [hsum.exact _ (exactSums_columnOf _ hexact), generationTimes,
    (exactSums_filter _ hexact).total_eq, ← sum_columnOf, eq_comm, columnOf, columnOf,
    sum_eq_sum_iff hle]
  refine forall₂_congr fun r _ => ?_
  rw [r.measuresCompletion_eq]
  cases htimed : r.timed with
  | false => simp
  | true =>
      have hpos : 0 < r.generationDurationMs :=
        of_decide_eq_true (Bool.and_eq_true_iff.1 htimed).2
      by_cases htokens : 0 < r.completionTokens
      · simp [htokens]
      · simp [htokens, hpos.ne]

end Exact

end Agreement

/-- Adding up in order is one way to sum. -/
theorem sqlSum_total : SqlSum total :=
  ⟨fun _ => isDouble_totalFrom isDouble_zero, fun _ h => h.total_eq⟩

def tokenCost : ModelCostConfig where
  promptPerMillion := 3
  cachedPromptPerMillion := 1
  outputPerMillion := 15

def shortRequest (completionTokens : ℕ) : RequestRow where
  promptTokens := 10
  cachedPromptTokens := 4
  completionTokens
  statusCode := 200
  generationDurationMs := 5
  promptDurationMs := 2
  inputAudioSeconds := 0
  inputCharacters := 0
  cached_le := by decide

theorem inRange_shortRequest : InRange tokenCost [shortRequest 3, shortRequest 4] where
  tokens := by decide
  eachTokens := by decide
  characters := by decide
  requests := by decide
  times := by decide +kernel
  prices := by decide +kernel

end InferDeck.Usage
