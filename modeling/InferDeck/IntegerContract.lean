import InferDeck.GenerationRoutes

/-!
# Integers that a request carries

The embeddings, image and audio generation routes narrow the integers of a body before they check
their ranges: an integer outside of its type may arrive as another one. The priority that is sent
gives way to that of a managed key or of public access, and is otherwise brought into its range. A
request is carried exactly where its integers are in their types and its priority is one that the
caller may have.
-/

namespace InferDeck.Gateway

open InferDeck.Model

/-- A number of a signed type with `bits` bits. -/
def FitsIn (bits : ℕ) (n : ℤ) : Prop := -2 ^ (bits - 1) ≤ n ∧ n < 2 ^ (bits - 1)

instance {bits : ℕ} {n : ℤ} : Decidable (FitsIn bits n) := inferInstanceAs (Decidable (_ ∧ _))

/-- The integer sent in a field, if there is one, is in the type it is read as. -/
def FieldFits (body : Json) (bits : ℕ) (key : String) : Prop :=
  ∀ n, body.sent key = some n → FitsIn bits n

def Carries (body : Json) (key : String) (value : ℤ) : Prop :=
  ∀ n, body.sent key = some n → value = n

/-! ### Narrowing -/

section Narrow

variable {bits : ℕ} {n : ℤ}

theorem narrow_eq_self_iff (hbits : 0 < bits) : narrow bits n = n ↔ FitsIn bits n := by
  have hhalf : ((2 ^ bits : ℕ) : ℤ) = 2 * 2 ^ (bits - 1) := by
    rw [← pow_succ', Nat.sub_add_cancel hbits]
    norm_cast
  have hpos : 0 < 2 ^ bits := by positivity
  constructor
  · intro h
    have hlow := Int.le_bmod hpos (x := n)
    have hhigh := Int.bmod_lt hpos (x := n)
    rw [narrow] at h
    rw [h] at hlow hhigh
    exact ⟨by omega, by omega⟩
  · rintro ⟨hlow, hhigh⟩
    exact Int.bmod_eq_of_le (by omega) (by omega)

theorem storedInt_eq_self_iff : storedInt n = n ↔ FitsIn 32 n := by
  simp only [storedInt, narrow, FitsIn, Int.bmod_def]
  omega

end Narrow

/-! ### The checks of a run -/

section Checks

variable {α β : Type}

theorem bind_ok_iff {x : Except Refusal α} {f : α → Except Refusal β} {b : β} :
    x >>= f = .ok b ↔ ∃ a, x = .ok a ∧ f a = .ok b := by
  cases x <;> simp [bind, Except.bind]

theorem require_ok_iff {holds : Bool} {refusal : Refusal} {u : Unit} :
    require holds refusal = .ok u ↔ holds := by
  cases holds <;> simp [require]

theorem valueOr_sent {body : Json} {key : String} {n : ℤ} {read : Json → Option ℤ} {fallback value : ℤ}
    {bits : ℕ} (hread : ∀ j, j.integer? = some n → read j = some (narrow bits n))
    (hvalue : body.valueOr key read fallback = .ok value) (hsent : body.sent key = some n) :
    value = narrow bits n := by
  obtain ⟨j, hj, hn⟩ := Json.sent_eq_some.1 hsent
  simpa [Json.valueOr, hj, hread j hn, eq_comm] using hvalue

/-- A field that arrives reduced carries what was sent exactly where that is in its type. -/
theorem carries_iff {body : Json} {key : String} {value : ℤ} {bits : ℕ} (hbits : 0 < bits)
    (hvalue : ∀ n, body.sent key = some n → value = narrow bits n) :
    Carries body key value ↔ FieldFits body bits key := by
  refine forall₂_congr fun n hsent => ?_
  rw [hvalue n hsent, narrow_eq_self_iff hbits]

end Checks

/-! ### Embeddings -/

section Embeddings

variable {deps : RouteDeps} {authorization : Text} {body : Json}

def EmbeddingsKept (deps : RouteDeps) (authorization : Text) (body : Json) : Prop :=
  ∀ call, handleEmbeddings deps authorization body = .ok call →
    (∀ n, body.sent "dimensions" = some n → call.request.dimensions = some n) ∧
      Carries body "priority" call.priority

/-- The managed key of the request. -/
def RouteDeps.principal (deps : RouteDeps) (authorization : Text) : Option AuthenticatedApiKey :=
  deps.apiKeys.bind fun store => store.authenticateBearer deps.sha256 authorization

/-- The priority that was sent, if there is one, is the one of the managed key or of public access, or
any within the range for another caller. -/
def PriorityFits (deps : RouteDeps) (authorization : Text) (body : Json) : Prop :=
  ∀ n, body.sent "priority" = some n →
    match deps.principal authorization with
    | some principal => principal.priority = n
    | none =>
        if deps.publicDataPlaneAccess then ApiKeyStore.publicRequestPriority = n
        else -100 ≤ n ∧ n ≤ 100

/-- Every other check accepts the body, and so does the one of the reduced dimensions. -/
structure EmbeddingsPass (deps : RouteDeps) (body : Json) : Prop where
  inputs : ∃ requested inputs model, readEmbeddingInputs deps body = .ok (requested, inputs) ∧
    embeddingModel deps body requested = .ok model
  dimensions : ∀ j, body.field? "dimensions" = some j →
    ∃ n, j.integer? = some n ∧ dimensionsOk (narrow 32 n) = true

theorem readDimensions_ok_iff {dimensions : Option ℤ} :
    readDimensions body = .ok dimensions ↔
      (body.field? "dimensions" = none ∧ dimensions = none) ∨
        ∃ n, body.sent "dimensions" = some n ∧ dimensionsOk (narrow 32 n) = true ∧
          dimensions = some (narrow 32 n) := by
  cases hfield : body.field? "dimensions" with
  | none =>
      simp only [readDimensions, hfield, Json.sent]
      simp
      exact eq_comm
  | some j =>
      cases hn : j.integer? with
      | none => simp [readDimensions, hfield, Json.sent, Json.isNumberInteger, hn]
      | some n =>
          have hread : readDimensions body = if dimensionsOk (narrow 32 n) then .ok (some (narrow 32 n))
              else .error (badRequest "invalid_dimensions" "dimensions must be a positive integer"
                "dimensions") := by
            simp [readDimensions, hfield, Json.isNumberInteger, hn, Json.getInt_of_integer hn]
          cases hok : dimensionsOk (narrow 32 n) with
          | false => simp [hread, hok, hfield, Json.sent, hn]
          | true =>
              simp [hread, hok, hfield, Json.sent, hn]
              exact eq_comm

theorem readPriority_sent {n : ℤ} (hsent : body.sent "priority" = some n) :
    readPriority body = narrow 32 n := by
  obtain ⟨j, hj, hn⟩ := Json.sent_eq_some.1 hsent
  simp [readPriority, hj, Json.isNumberInteger, hn, Json.getInt_of_integer hn]

theorem clamp_narrow_eq_iff {n : ℤ} :
    max (-100) (min (narrow 32 n) 100) = n ↔ -100 ≤ n ∧ n ≤ 100 := by
  constructor
  · intro h
    omega
  · intro h
    have hsame : narrow 32 n = n := (narrow_eq_self_iff (by decide)).2 ⟨by omega, by omega⟩
    omega

theorem carries_priority_iff :
    Carries body "priority" (slotPriority deps authorization body) ↔
      PriorityFits deps authorization body := by
  refine forall₂_congr fun n hsent => ?_
  rw [slotPriority, ApiKeyStore.resolveRequestPriority, readPriority_sent hsent]
  change (match deps.principal authorization with
    | some principal => principal.priority
    | none => _) = n ↔ _
  cases deps.principal authorization with
  | some principal => exact Iff.rfl
  | none =>
      dsimp only
      split_ifs
      · exact Iff.rfl
      · exact clamp_narrow_eq_iff

theorem handleEmbeddings_ok_iff {call : EmbeddingCall} :
    handleEmbeddings deps authorization body = .ok call ↔
      ∃ requested inputs dimensions model, readEmbeddingInputs deps body = .ok (requested, inputs) ∧
        readDimensions body = .ok dimensions ∧ embeddingModel deps body requested = .ok model ∧
        { model, priority := slotPriority deps authorization body,
          request := { inputs, dimensions } } = call := by
  simp only [handleEmbeddings, bind_ok_iff, Prod.exists, pure, Except.pure, Except.ok.injEq]
  constructor
  · rintro ⟨requested, inputs, hinputs, dimensions, hdimensions, model, hmodel, hcall⟩
    exact ⟨requested, inputs, dimensions, model, hinputs, hdimensions, hmodel, hcall⟩
  · rintro ⟨requested, inputs, dimensions, model, hinputs, hdimensions, hmodel, hcall⟩
    exact ⟨requested, inputs, hinputs, dimensions, hdimensions, model, hmodel, hcall⟩

variable (authorization) in
theorem embeddingsPass_iff :
    EmbeddingsPass deps body ↔ ∃ call, handleEmbeddings deps authorization body = .ok call := by
  simp only [handleEmbeddings_ok_iff]
  constructor
  · rintro ⟨⟨requested, inputs, model, hinputs, hmodel⟩, hdimensions⟩
    cases hfield : body.field? "dimensions" with
    | none =>
        exact ⟨_, requested, inputs, none, model, hinputs,
          readDimensions_ok_iff.2 (Or.inl ⟨hfield, rfl⟩), hmodel, rfl⟩
    | some j =>
        obtain ⟨n, hn, hok⟩ := hdimensions j hfield
        have hread := readDimensions_ok_iff.2
          (Or.inr ⟨n, Json.sent_eq_some.2 ⟨j, hfield, hn⟩, hok, rfl⟩)
        exact ⟨_, requested, inputs, _, model, hinputs, hread, hmodel, rfl⟩
  · rintro ⟨call, requested, inputs, dimensions, model, hinputs, hread, hmodel, -⟩
    refine ⟨⟨requested, inputs, model, hinputs, hmodel⟩, fun j hfield => ?_⟩
    obtain ⟨hnone, -⟩ | ⟨n, hsent, hok, -⟩ := readDimensions_ok_iff.1 hread
    · simp [hfield] at hnone
    · obtain ⟨j', hj', hn⟩ := Json.sent_eq_some.1 hsent
      obtain rfl : j = j' := by simpa [hfield] using hj'
      exact ⟨n, hn, hok⟩

theorem embeddingsKept_iff :
    EmbeddingsKept deps authorization body ↔ (EmbeddingsPass deps body →
      FieldFits body 32 "dimensions" ∧ PriorityFits deps authorization body) := by
  rw [embeddingsPass_iff authorization, forall_exists_index]
  refine forall₂_congr fun call hcall => ?_
  obtain ⟨requested, inputs, dimensions, model, -, hread, -, rfl⟩ := handleEmbeddings_ok_iff.1 hcall
  refine and_congr (forall₂_congr fun n hsent => ?_) carries_priority_iff
  obtain ⟨hnone, -⟩ | ⟨m, hm, -, rfl⟩ := readDimensions_ok_iff.1 hread
  · simp [Json.sent, hnone] at hsent
  · obtain rfl : n = m := by simpa [hsent] using hm
    rw [Option.some.injEq, narrow_eq_self_iff (by decide)]

end Embeddings

/-! ### Image generation -/

section Image

variable {deps : RouteDeps} {body : Json}

def SizeCarried (body : Json) (request : ImageGenerationRequest) : Prop :=
  ∀ width height, scanSize (sizeField body) = some (width, height) →
    request.width = width ∧ request.height = height

def SizeFits (body : Json) : Prop :=
  ∀ width height, scanSize (sizeField body) = some (width, height) →
    FitsIn 32 width ∧ FitsIn 32 height

def ImageKept (deps : RouteDeps) (body : Json) : Prop :=
  ∀ call, handleImageGenerations deps body = .ok call →
    Carries body "n" call.request.count ∧ Carries body "steps" call.request.steps ∧
      SizeCarried body call.request

/-- The checks of the profile and of the field types. -/
def imageChecks (deps : RouteDeps) (body : Json) : Except Refusal Unit := do
  if deps.compatibilityProfile ≠ .openAIDerivative then checkOpenAIImage body
  checkImageFields body

def imageModel (deps : RouteDeps) (body : Json) : String :=
  stringField body "model" (deps.mediaDefaultModel "image")

/-- Every check accepts the body whose integers are reduced. -/
structure ImagePass (deps : RouteDeps) (body : Json) : Prop where
  checks : imageChecks deps body = .ok ()
  named : imageModel deps body ≠ ""
  request : ∃ request, readImageRequest deps body = .ok request ∧ request.valid = true
  served : ∃ model, deps.resolveModelName (imageModel deps body) = .ok model ∧
    deps.supports model "image_generation" = true

theorem handleImageGenerations_ok_iff {call : ImageCall} :
    handleImageGenerations deps body = .ok call ↔
      imageChecks deps body = .ok () ∧ imageModel deps body ≠ "" ∧
        (readImageRequest deps body = .ok call.request ∧ call.request.valid = true) ∧
        deps.resolveModelName (imageModel deps body) = .ok call.model ∧
        deps.supports call.model "image_generation" = true := by
  obtain ⟨model, request⟩ := call
  have hsplit : handleImageGenerations deps body = (do
      imageChecks deps body
      let request ← readImageRequest deps body
      require (imageModel deps body != "" && request.valid) invalidImage
      let model ← deps.resolveModelName (imageModel deps body)
      require (deps.supports model "image_generation")
        (badRequest "unsupported_image_model" "model does not support image generation" "model")
      return { model, request }) := by
    unfold handleImageGenerations imageChecks imageModel
    split <;> simp
  simp only [hsplit, bind_ok_iff, require_ok_iff, pure, Except.pure, Except.ok.injEq,
    ImageCall.mk.injEq, Bool.and_eq_true, bne_iff_ne]
  constructor
  · rintro ⟨_, hchecks, r, hread, _, ⟨hnamed, hvalid⟩, m, hresolve, _, hserved, rfl, rfl⟩
    exact ⟨hchecks, hnamed, ⟨hread, hvalid⟩, hresolve, hserved⟩
  · rintro ⟨hchecks, hnamed, ⟨hread, hvalid⟩, hresolve, hserved⟩
    exact ⟨(), hchecks, request, hread, (), ⟨hnamed, hvalid⟩, model, hresolve, (), hserved, rfl, rfl⟩

theorem imagePass_iff :
    ImagePass deps body ↔ ∃ call, handleImageGenerations deps body = .ok call := by
  simp only [handleImageGenerations_ok_iff]
  constructor
  · rintro ⟨hchecks, hnamed, ⟨request, hrequest⟩, model, hserved⟩
    exact ⟨⟨model, request⟩, hchecks, hnamed, hrequest, hserved⟩
  · rintro ⟨call, hchecks, hnamed, hrequest, hserved⟩
    exact ⟨hchecks, hnamed, ⟨_, hrequest⟩, _, hserved⟩

/-- How the integers of a request were read. -/
theorem readImageRequest_reads {request : ImageGenerationRequest}
    (h : readImageRequest deps body = .ok request) :
    readCount body = .ok request.count ∧ body.valueOr "steps" Json.getInt 20 = .ok request.steps ∧
      ∃ width height, scanSize (sizeField body) = some (width, height) ∧
        request.width = storedInt width ∧ request.height = storedInt height := by
  simp only [readImageRequest, bind_ok_iff] at h
  obtain ⟨negativePrompt, -, count, hcount, seed, -, steps, hsteps, guidance, -, h⟩ := h
  cases hsize : scanSize (sizeField body) with
  | none => simp [hsize, throw, throwThe, MonadExceptOf.throw] at h
  | some size =>
      obtain ⟨width, height⟩ := size
      simp only [hsize, pure, Except.pure, Except.ok.injEq] at h
      subst h
      exact ⟨hcount, hsteps, width, height, rfl, rfl, rfl⟩

theorem readCount_sent {n count : ℤ} (h : readCount body = .ok count) (hsent : body.sent "n" = some n) :
    count = narrow 32 n := by
  obtain ⟨j, hj, hn⟩ := Json.given_of_sent hsent
  simpa [readCount, hj, Json.getInt_of_integer hn, eq_comm] using h

theorem imageKept_iff :
    ImageKept deps body ↔ (ImagePass deps body →
      FieldFits body 32 "n" ∧ FieldFits body 32 "steps" ∧ SizeFits body) := by
  rw [imagePass_iff, forall_exists_index]
  refine forall₂_congr fun call hcall => ?_
  obtain ⟨-, -, ⟨hread, -⟩, -⟩ := handleImageGenerations_ok_iff.1 hcall
  obtain ⟨hcount, hsteps, width, height, hsize, hwidth, hheight⟩ := readImageRequest_reads hread
  refine and_congr (carries_iff (by decide) fun n => readCount_sent hcount)
    (and_congr (carries_iff (by decide) fun n hsent =>
      valueOr_sent (fun _ => Json.getInt_of_integer) hsteps hsent) ?_)
  simp [SizeCarried, SizeFits, hsize, hwidth, hheight, storedInt_eq_self_iff]

end Image

/-! ### Audio generation -/

section Audio

variable {deps : RouteDeps} {body : Json}

def AudioKept (deps : RouteDeps) (body : Json) : Prop :=
  ∀ call, handleAudioGenerations deps body = .ok call →
    Carries body "steps" call.request.steps ∧ Carries body "seed" call.request.seed

def audioModel (deps : RouteDeps) (body : Json) : String :=
  stringField body "model" ((deps.mediaDefaultModels.lookup "music").getD "")

/-- Every check accepts the body whose integers are reduced. -/
structure AudioPass (deps : RouteDeps) (body : Json) : Prop where
  isObject : body.isObject = true
  checks : checkAudioFields deps body = .ok ()
  named : audioModel deps body ≠ "" ∧ (audioModel deps body).utf8ByteSize ≤ 256
  request : ∃ request, readAudioRequest deps body = .ok request ∧ request.valid = true
  served : ∃ model, deps.resolveModelName (audioModel deps body) = .ok model ∧
    deps.supports model "audio_generation" = true

theorem mapError_ok_iff {α : Type} {x : Except Refusal α} {f : Refusal → Refusal} {a : α} :
    x.mapError f = .ok a ↔ x = .ok a := by
  cases x <;> simp [Except.mapError]

theorem handleAudioGenerations_ok_iff {call : AudioCall} :
    handleAudioGenerations deps body = .ok call ↔
      body.isObject = true ∧ checkAudioFields deps body = .ok () ∧
        (audioModel deps body ≠ "" ∧ (audioModel deps body).utf8ByteSize ≤ 256) ∧
        (readAudioRequest deps body = .ok call.request ∧ call.request.valid = true) ∧
        deps.resolveModelName (audioModel deps body) = .ok call.model ∧
        deps.supports call.model "audio_generation" = true := by
  obtain ⟨model, request⟩ := call
  simp only [handleAudioGenerations, bind_ok_iff, require_ok_iff, pure, Except.pure, Except.ok.injEq,
    AudioCall.mk.injEq, Bool.and_eq_true, bne_iff_ne, mapError_ok_iff, decide_eq_true_eq]
  constructor
  · rintro ⟨_, hobject, _, hchecks, r, hread, _, ⟨hnamed, hvalid⟩, m, hresolve, _, hserved, rfl, rfl⟩
    exact ⟨hobject, hchecks, hnamed, ⟨hread, hvalid⟩, hresolve, hserved⟩
  · rintro ⟨hobject, hchecks, hnamed, ⟨hread, hvalid⟩, hresolve, hserved⟩
    exact ⟨(), hobject, (), hchecks, request, hread, (), ⟨hnamed, hvalid⟩, model, hresolve, (), hserved,
      rfl, rfl⟩

theorem audioPass_iff :
    AudioPass deps body ↔ ∃ call, handleAudioGenerations deps body = .ok call := by
  simp only [handleAudioGenerations_ok_iff]
  constructor
  · rintro ⟨hobject, hchecks, hnamed, ⟨request, hrequest⟩, model, hserved⟩
    exact ⟨⟨model, request⟩, hobject, hchecks, hnamed, hrequest, hserved⟩
  · rintro ⟨call, hobject, hchecks, hnamed, hrequest, hserved⟩
    exact ⟨hobject, hchecks, hnamed, ⟨_, hrequest⟩, _, hserved⟩

theorem readAudioRequest_reads {request : AudioGenerationRequest}
    (h : readAudioRequest deps body = .ok request) :
    body.valueOr "seed" Json.getInt64 (-1) = .ok request.seed ∧
      body.valueOr "steps" Json.getInt 0 = .ok request.steps := by
  simp only [readAudioRequest, bind_ok_iff, pure, Except.pure, Except.ok.injEq] at h
  obtain ⟨lyrics, -, duration, -, seed, hseed, steps, hsteps, guidance, -, rfl⟩ := h
  exact ⟨hseed, hsteps⟩

theorem audioKept_iff :
    AudioKept deps body ↔ (AudioPass deps body →
      FieldFits body 32 "steps" ∧ FieldFits body 64 "seed") := by
  rw [audioPass_iff, forall_exists_index]
  refine forall₂_congr fun call hcall => ?_
  obtain ⟨-, -, -, ⟨hread, -⟩, -⟩ := handleAudioGenerations_ok_iff.1 hcall
  obtain ⟨hseed, hsteps⟩ := readAudioRequest_reads hread
  exact and_congr
    (carries_iff (by decide) fun n hsent =>
      valueOr_sent (fun _ => Json.getInt_of_integer) hsteps hsent)
    (carries_iff (by decide) fun n hsent =>
      valueOr_sent (fun _ => Json.getInt64_of_integer) hseed hsent)

end Audio

/-! ### The three routes -/

/-- A request carries the integers that were sent, on each route, exactly where the integers of an
accepted body are in the types they are read as and the priority is the caller's to ask for. -/
theorem integers_kept_iff (deps : RouteDeps) (authorization : Text) (body : Json) :
    (EmbeddingsKept deps authorization body ↔ (EmbeddingsPass deps body →
        FieldFits body 32 "dimensions" ∧ PriorityFits deps authorization body)) ∧
      (ImageKept deps body ↔ (ImagePass deps body →
        FieldFits body 32 "n" ∧ FieldFits body 32 "steps" ∧ SizeFits body)) ∧
      (AudioKept deps body ↔ (AudioPass deps body →
        FieldFits body 32 "steps" ∧ FieldFits body 64 "seed")) :=
  ⟨embeddingsKept_iff, imageKept_iff, audioKept_iff⟩

def embedder : RouteDeps :=
  { compatibilityProfile := .strictOpenAI
    registry :=
      { entries := (∅ : Map String ModelInfo).insert "e" { name := "e", capabilities := ["embeddings"] }
        factories := [] }
    sha256 := fun _ => .error { code := .internal, message := "cannot calculate SHA-256" }
    singlePrecision := some }

def wideDimensions : Json :=
  .object [("dimensions", .unsigned 4294967360), ("input", .string "a"), ("model", .string "e")]

theorem integers_not_kept :
    ¬ ∀ deps authorization body,
      EmbeddingsKept deps authorization body ∧ ImageKept deps body ∧ AudioKept deps body := by
  intro h
  have hrun : handleEmbeddings embedder [] wideDimensions = .ok
      { model := "e", priority := 0, request := { inputs := [.text "a"], dimensions := some 64 } } := by
    decide
  have hkept := ((h embedder [] wideDimensions).1 _ hrun).1 4294967360 (by decide)
  exact absurd hkept (by decide)

end InferDeck.Gateway
