import InferDeck.DoublePrecision

/-!
# Token usage

The server keeps one row for a request and aggregates them with SQL: one row for a time bucket and a
model. The dashboard adds such a row to a bucket of its chart, or without them the requests one by
one. Its numbers are doubles, which each operation rounds. SQL adds up integers as such, and doubles
in an order and with a compensation of its own: `SUM` of doubles is a parameter.
-/

namespace InferDeck.Usage

open DoublePrecision

structure RequestRow where
  promptTokens : ℕ
  cachedPromptTokens : ℕ
  completionTokens : ℕ
  statusCode : ℤ
  generationDurationMs : ℚ
  promptDurationMs : ℚ
  inputAudioSeconds : ℚ
  inputCharacters : ℕ
  cached_le : cachedPromptTokens ≤ promptTokens
  deriving DecidableEq

namespace RequestRow

variable (row : RequestRow)

def succeeded : Bool := decide (200 ≤ row.statusCode) && decide (row.statusCode < 300)

def measuresCompletion : Bool :=
  row.succeeded && decide (0 < row.generationDurationMs) && decide (0 < row.completionTokens)

def measuresPrompt : Bool :=
  row.succeeded && decide (0 < row.promptDurationMs) &&
    decide (row.cachedPromptTokens < row.promptTokens)

end RequestRow

/-- A row of the aggregating queries. -/
structure UsageBucketRow where
  bucket : String
  model : String
  promptTokens : ℕ
  cachedPromptTokens : ℕ
  completionTokens : ℕ
  totalTokens : ℕ
  requests : ℕ
  successfulRequests : ℕ
  measuredCompletionTokens : ℕ
  measuredPromptTokens : ℕ
  generationDurationMs : ℚ
  promptDurationMs : ℚ
  peakTokensPerSecond : ℚ
  peakPromptTokensPerSecond : ℚ
  inputAudioSeconds : ℚ
  inputCharacters : ℕ
  deriving DecidableEq

/-- `COALESCE(SUM(f),0)` of integers. -/
def sumOf (rows : List RequestRow) (f : RequestRow → ℕ) : ℕ := (rows.map f).sum

/-- `COALESCE(MAX(f),0)`. -/
def maxOf (rows : List RequestRow) (f : RequestRow → ℚ) : ℚ :=
  match rows with
  | [] => 0
  | row :: rows => (rows.map f).foldl max (f row)

/-- `tokens * 1000.0 / duration`. -/
def queriedRate (tokens : ℕ) (duration : ℚ) : ℚ := toDouble (toDouble (tokens * 1000) / duration)

/-- `bucketed_usage_locked`: the row of one group. -/
def bucketedUsage (sum : List ℚ → ℚ) (bucket model : String) (rows : List RequestRow) :
    UsageBucketRow where
  bucket
  model
  promptTokens := sumOf rows fun r => r.promptTokens
  cachedPromptTokens := sumOf rows fun r => r.cachedPromptTokens
  completionTokens := sumOf rows fun r => r.completionTokens
  totalTokens := sumOf rows fun r => r.promptTokens + r.completionTokens
  requests := rows.length
  successfulRequests := sumOf rows fun r => if r.succeeded then 1 else 0
  measuredCompletionTokens := sumOf rows fun r => if r.measuresCompletion then r.completionTokens else 0
  measuredPromptTokens := sumOf rows fun r =>
    if r.measuresPrompt then r.promptTokens - r.cachedPromptTokens else 0
  generationDurationMs := sum <| rows.map fun r =>
    if r.succeeded && decide (0 < r.generationDurationMs) then r.generationDurationMs else 0
  promptDurationMs := sum <| rows.map fun r => if r.measuresPrompt then r.promptDurationMs else 0
  peakTokensPerSecond := maxOf rows fun r =>
    if r.measuresCompletion then queriedRate r.completionTokens r.generationDurationMs else 0
  peakPromptTokensPerSecond := maxOf rows fun r =>
    if r.measuresPrompt then queriedRate (r.promptTokens - r.cachedPromptTokens) r.promptDurationMs
    else 0
  inputAudioSeconds := sum <| rows.map fun r => r.inputAudioSeconds
  inputCharacters := sumOf rows fun r => r.inputCharacters

/-- An integer that the dashboard gets. -/
def number (n : ℕ) : ℚ := toDouble n

inductive JobStatus where
  | succeeded
  | failed
  deriving DecidableEq

structure JobRecord where
  status : JobStatus
  promptTokens : ℚ
  cachedPromptTokens : ℚ
  completionTokens : ℚ
  totalTokens : ℚ
  generationDurationMs : ℚ
  promptDurationMs : ℚ
  inputAudioSeconds : ℚ
  inputCharacters : ℚ
  deriving DecidableEq

/-- `build_dashboard_jobs`: a request as the dashboard gets it. -/
def dashboardJob (row : RequestRow) : JobRecord where
  status := if row.succeeded then .succeeded else .failed
  promptTokens := number row.promptTokens
  cachedPromptTokens := number row.cachedPromptTokens
  completionTokens := number row.completionTokens
  totalTokens := number (row.promptTokens + row.completionTokens)
  generationDurationMs := row.generationDurationMs
  promptDurationMs := row.promptDurationMs
  inputAudioSeconds := row.inputAudioSeconds
  inputCharacters := number row.inputCharacters

inductive BillingUnit where
  | tokens
  | audioMinute
  | millionCharacters
  deriving DecidableEq

structure ModelCostConfig where
  promptPerMillion : ℚ
  cachedPromptPerMillion : ℚ
  outputPerMillion : ℚ
  legacyCachedPromptRatio : Option ℚ := none
  legacyCachedPromptBefore : Option String := none
  billingUnit : BillingUnit := .tokens
  pricePerUnit : Option ℚ := none
  deriving DecidableEq

structure CostUsage where
  promptTokens : ℚ
  cachedPromptTokens : ℚ
  completionTokens : ℚ
  inputAudioSeconds : ℚ
  inputCharacters : ℚ
  bucket : Option String := none

/-- `/^\d{4}-\d{2}-\d{2}/`. -/
def startsWithDate (text : List Char) : Bool :=
  decide (10 ≤ text.length) &&
    (text.take 10).zipIdx.all fun p => if p.2 = 4 ∨ p.2 = 7 then p.1 == '-' else p.1.isDigit

def mathRound (x : ℚ) : ℚ := ⌊x + 1 / 2⌋

def effectiveCachedPromptTokens (usage : CostUsage) (cost : ModelCostConfig) : ℚ :=
  let prompt := max 0 usage.promptTokens
  let recorded := min prompt (max 0 usage.cachedPromptTokens)
  let ratio := cost.legacyCachedPromptRatio.getD 0
  let before := cost.legacyCachedPromptBefore.getD ""
  if 0 < recorded ∨ prompt = 0 ∨ ratio = 0 ∨ before = "" then recorded
  else
    match usage.bucket with
    | some bucket =>
        if startsWithDate bucket.toList && decide (String.ofList (bucket.toList.take 10) < before)
        then mathRound (toDouble (prompt * ratio))
        else recorded
    | none => recorded

/-- `tokens / 1_000_000 * price`. -/
def perMillion (tokens price : ℚ) : ℚ := toDouble (toDouble (tokens / 1000000) * price)

def estimateCostAvoided (prompt cachedPrompt output : ℚ) (cost : ModelCostConfig) : ℚ :=
  let prompt := max 0 prompt
  let cachedPrompt := min prompt (max 0 cachedPrompt)
  let uncachedPrompt := toDouble (prompt - cachedPrompt)
  toDouble (toDouble (perMillion uncachedPrompt cost.promptPerMillion +
      perMillion cachedPrompt cost.cachedPromptPerMillion) +
    perMillion output cost.outputPerMillion)

def estimateUsageCost (usage : CostUsage) (cost : ModelCostConfig) : ℚ :=
  match cost.billingUnit with
  | .audioMinute => toDouble (toDouble (usage.inputAudioSeconds / 60) * cost.pricePerUnit.getD 0)
  | .millionCharacters => perMillion usage.inputCharacters (cost.pricePerUnit.getD 0)
  | .tokens =>
      estimateCostAvoided usage.promptTokens (effectiveCachedPromptTokens usage cost)
        usage.completionTokens cost

structure TokenBucketValues where
  prompt : ℚ := 0
  cachedPrompt : ℚ := 0
  output : ℚ := 0
  total : ℚ := 0
  cost : ℚ := 0
  requests : ℚ := 0
  successfulRequests : ℚ := 0
  audioSeconds : ℚ := 0
  characters : ℚ := 0
  generationDurationMs : ℚ := 0
  promptDurationMs : ℚ := 0
  measuredCompletionTokens : ℚ := 0
  measuredPromptTokens : ℚ := 0
  peakTokensPerSecond : ℚ := 0
  peakPromptTokensPerSecond : ℚ := 0
  deriving DecidableEq

def emptyTokenBucket : TokenBucketValues := {}

def UsageBucketRow.costUsage (row : UsageBucketRow) : CostUsage where
  promptTokens := number row.promptTokens
  cachedPromptTokens := number row.cachedPromptTokens
  completionTokens := number row.completionTokens
  inputAudioSeconds := row.inputAudioSeconds
  inputCharacters := number row.inputCharacters
  bucket := some row.bucket

def JobRecord.costUsage (job : JobRecord) : CostUsage where
  promptTokens := job.promptTokens
  cachedPromptTokens := job.cachedPromptTokens
  completionTokens := job.completionTokens
  inputAudioSeconds := job.inputAudioSeconds
  inputCharacters := job.inputCharacters

def addPersistedRow (bucket : TokenBucketValues) (row : UsageBucketRow) (cost : ModelCostConfig) :
    TokenBucketValues :=
  let cachedPrompt := effectiveCachedPromptTokens row.costUsage cost
  { prompt := toDouble (bucket.prompt + number row.promptTokens)
    cachedPrompt := toDouble (bucket.cachedPrompt + cachedPrompt)
    output := toDouble (bucket.output + number row.completionTokens)
    total := toDouble (bucket.total + number row.totalTokens)
    cost := toDouble (bucket.cost +
      estimateUsageCost { row.costUsage with cachedPromptTokens := cachedPrompt } cost)
    requests := toDouble (bucket.requests + number row.requests)
    successfulRequests := toDouble (bucket.successfulRequests + number row.successfulRequests)
    audioSeconds := toDouble (bucket.audioSeconds + row.inputAudioSeconds)
    characters := toDouble (bucket.characters + number row.inputCharacters)
    generationDurationMs := toDouble (bucket.generationDurationMs + row.generationDurationMs)
    promptDurationMs := toDouble (bucket.promptDurationMs + row.promptDurationMs)
    measuredCompletionTokens :=
      toDouble (bucket.measuredCompletionTokens + number row.measuredCompletionTokens)
    measuredPromptTokens := toDouble (bucket.measuredPromptTokens + number row.measuredPromptTokens)
    peakTokensPerSecond := max bucket.peakTokensPerSecond row.peakTokensPerSecond
    peakPromptTokensPerSecond :=
      max bucket.peakPromptTokensPerSecond row.peakPromptTokensPerSecond }

/-- `tokens / (duration / 1000)`. -/
def measuredRate (tokens duration : ℚ) : ℚ := toDouble (tokens / toDouble (duration / 1000))

def addJob (bucket : TokenBucketValues) (job : JobRecord) (cost : ModelCostConfig) :
    TokenBucketValues :=
  let output := job.completionTokens
  let cachedPrompt := effectiveCachedPromptTokens job.costUsage cost
  let uncachedPrompt := toDouble (job.promptTokens - cachedPrompt)
  let measuresCompletion :=
    decide (job.status = .succeeded) && decide (0 < job.generationDurationMs) && decide (0 < output)
  let measuresPrompt :=
    decide (job.status = .succeeded) && decide (0 < job.promptDurationMs) &&
      decide (0 < uncachedPrompt)
  { prompt := toDouble (bucket.prompt + job.promptTokens)
    cachedPrompt := toDouble (bucket.cachedPrompt + cachedPrompt)
    output := toDouble (bucket.output + output)
    total := toDouble (bucket.total + job.totalTokens)
    cost := toDouble (bucket.cost +
      estimateUsageCost { job.costUsage with cachedPromptTokens := cachedPrompt } cost)
    requests := toDouble (bucket.requests + 1)
    successfulRequests :=
      toDouble (bucket.successfulRequests + if job.status = .succeeded then 1 else 0)
    audioSeconds := toDouble (bucket.audioSeconds + job.inputAudioSeconds)
    characters := toDouble (bucket.characters + job.inputCharacters)
    generationDurationMs :=
      if measuresCompletion then toDouble (bucket.generationDurationMs + job.generationDurationMs)
      else bucket.generationDurationMs
    promptDurationMs :=
      if measuresPrompt then toDouble (bucket.promptDurationMs + job.promptDurationMs)
      else bucket.promptDurationMs
    measuredCompletionTokens :=
      if measuresCompletion then toDouble (bucket.measuredCompletionTokens + output)
      else bucket.measuredCompletionTokens
    measuredPromptTokens :=
      if measuresPrompt then toDouble (bucket.measuredPromptTokens + uncachedPrompt)
      else bucket.measuredPromptTokens
    peakTokensPerSecond :=
      if measuresCompletion then
        max bucket.peakTokensPerSecond (measuredRate output job.generationDurationMs)
      else bucket.peakTokensPerSecond
    peakPromptTokensPerSecond :=
      if measuresPrompt then
        max bucket.peakPromptTokensPerSecond (measuredRate uncachedPrompt job.promptDurationMs)
      else bucket.peakPromptTokensPerSecond }

def jobsBucket (rows : List RequestRow) (cost : ModelCostConfig) : TokenBucketValues :=
  rows.foldl (fun bucket row => addJob bucket (dashboardJob row) cost) emptyTokenBucket

end InferDeck.Usage
