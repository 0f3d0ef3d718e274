import InferDeck.Study

/-!
# The best trial of a study

`run` and `bestTrial` agree where every failed trial is beaten by a completed one: `bestTrial` also
looks at the placeholder score of the failed ones. A saved study is loaded as it was where its texts
are UTF-8, its doubles are finite and its specs hold nothing that their type does not save.
-/

namespace InferDeck.Optimize

open Gateway

namespace Study

variable {s : Study} {env : Environment}

/-! ### The two folds -/

/-- The first of `n` values that none exceeds. -/
def FirstMax (f : ℕ → ℚ) (n b : ℕ) : Prop :=
  b < n ∧ (∀ i < n, f i ≤ f b) ∧ ∀ i < b, f i < f b

section FirstMax

variable {f : ℕ → ℚ} {n b b' : ℕ}

theorem FirstMax.unique (h : FirstMax f n b) (h' : FirstMax f n b') : b = b' := by
  obtain hlt | heq | hgt := lt_trichotomy b b'
  · exact absurd (h'.2.2 b hlt) (not_lt.2 (h.2.1 b' h'.1))
  · exact heq
  · exact absurd (h.2.2 b' hgt) (not_lt.2 (h'.2.1 b h.1))

theorem FirstMax.step (h : FirstMax f n b) : FirstMax f (n + 1) (if f b < f n then n else b) := by
  split
  · next hlt =>
    refine ⟨n.lt_succ_self, fun i hi => ?_, fun i hi => (h.2.1 i hi).trans_lt hlt⟩
    obtain hi | rfl := Nat.lt_succ_iff_lt_or_eq.1 hi
    · exact (h.2.1 i hi).trans hlt.le
    · exact le_rfl
  · next hle =>
    refine ⟨h.1.trans n.lt_succ_self, fun i hi => ?_, h.2.2⟩
    obtain hi | rfl := Nat.lt_succ_iff_lt_or_eq.1 hi
    · exact h.2.1 i hi
    · exact not_lt.1 hle

end FirstMax

theorem bestTrial_concat (history : List TrialResult) (t : TrialResult) :
    { s with history := history ++ [t] }.bestTrial =
      some (({ s with history }.bestTrial).elim t (s.better · t)) := by
  cases history with
  | nil => rfl
  | cons t' history =>
      simp only [bestTrial, List.cons_append, List.foldl_append, List.foldl_cons, List.foldl_nil]
      rfl

/-- The fold of a history finds its first best trial. -/
theorem bestTrial_history (g : ℕ → TrialResult) (n : ℕ) :
    ∃ b, FirstMax (fun i => s.cfg.direction * (g i).score) (n + 1) b ∧
      { s with history := (List.range (n + 1)).map g }.bestTrial = some (g b) := by
  induction n with
  | zero =>
      refine ⟨0, ⟨Nat.zero_lt_one, fun i hi => ?_, fun i hi => absurd hi (Nat.not_lt_zero i)⟩, rfl⟩
      rw [Nat.lt_one_iff.1 hi]
  | succ n ih =>
      obtain ⟨b, hb, hbest⟩ := ih
      refine ⟨_, hb.step, ?_⟩
      rw [List.range_succ, List.map_append, List.map_singleton, bestTrial_concat, hbest, Option.elim_some,
        better]
      split <;> rfl

/-- The reported best so far: none, or the first completed trial that none of the completed exceeds. -/
inductive Reported (s : Study) (g : ℕ → TrialResult) (start : ℚ) (n : ℕ) (out : StudyResult) : Prop
  | unset (hbest : out.bestTrial = -1) (hscore : out.bestScore = start)
      (hlow : ∀ i < n, (g i).completed = true →
        s.cfg.direction * (g i).score ≤ s.cfg.direction * start)
  | found (b : ℕ) (hb : b < n) (hbest : out.bestTrial = b) (hscore : out.bestScore = (g b).score)
      (hcompleted : (g b).completed = true)
      (hhigh : s.cfg.direction * start < s.cfg.direction * (g b).score)
      (hmax : ∀ i < n, (g i).completed = true →
        s.cfg.direction * (g i).score ≤ s.cfg.direction * (g b).score)
      (hfirst : ∀ i < b, (g i).completed = true →
        s.cfg.direction * (g i).score < s.cfg.direction * (g b).score)

/-- The loop of `run` after `n` trials. -/
theorem foldl_runTrial (env : Environment) (start : ℚ) (n : ℕ) (hs : s.history = []) :
    ∃ out, (List.range n).foldl (runTrial env) ({ bestScore := start }, s) =
        (out, { s with history := (List.range n).map (s.trial env) }) ∧
      Reported s (s.trial env) start n out := by
  induction n with
  | zero =>
      refine ⟨{ bestScore := start }, ?_, .unset rfl rfl fun i hi => absurd hi (Nat.not_lt_zero i)⟩
      simp [← hs]
  | succ n ih =>
      obtain ⟨out, hfold, hreported⟩ := ih
      rw [List.range_succ, List.foldl_append, hfold, List.foldl_cons, List.foldl_nil, runTrial]
      have htrial : ({ s with history := (List.range n).map (s.trial env) } : Study).trial env n =
        s.trial env n := rfl
      dsimp only
      rw [htrial]
      split
      · next hbetter =>
        refine ⟨_, Prod.ext rfl (by simp), ?_⟩
        obtain ⟨hcompleted, hlt⟩ := hbetter
        cases hreported with
        | unset hbest hscore hlow =>
            rw [hscore] at hlt
            refine .found n n.lt_succ_self rfl rfl hcompleted hlt (fun i hi hi' => ?_) fun i hi hi' =>
              (hlow i hi hi').trans_lt hlt
            obtain hi | rfl := Nat.lt_succ_iff_lt_or_eq.1 hi
            · exact ((hlow i hi hi').trans_lt hlt).le
            · exact le_rfl
        | found b hb hbest hscore hcompleted' hhigh hmax hfirst =>
            rw [hscore] at hlt
            refine .found n n.lt_succ_self rfl rfl hcompleted (hhigh.trans hlt) (fun i hi hi' => ?_)
              fun i hi hi' => (hmax i hi hi').trans_lt hlt
            obtain hi | rfl := Nat.lt_succ_iff_lt_or_eq.1 hi
            · exact ((hmax i hi hi').trans_lt hlt).le
            · exact le_rfl
      · next hworse =>
        refine ⟨_, Prod.ext rfl (by simp), ?_⟩
        have hnot (hcompleted : (s.trial env n).completed = true) :
            s.cfg.direction * (s.trial env n).score ≤ s.cfg.direction * out.bestScore :=
          not_lt.1 fun hlt => hworse ⟨hcompleted, hlt⟩
        cases hreported with
        | unset hbest hscore hlow =>
            refine .unset hbest hscore fun i hi hi' => ?_
            obtain hi | rfl := Nat.lt_succ_iff_lt_or_eq.1 hi
            · exact hlow i hi hi'
            · exact hscore ▸ hnot hi'
        | found b hb hbest hscore hcompleted' hhigh hmax hfirst =>
            refine .found b (hb.trans n.lt_succ_self) hbest hscore hcompleted' hhigh (fun i hi hi' => ?_)
              hfirst
            obtain hi | rfl := Nat.lt_succ_iff_lt_or_eq.1 hi
            · exact hmax i hi hi'
            · exact hscore ▸ hnot hi'

/-- The two notions of best agree after a run of an empty history: what `run` reports is the best
trial, and a failed trial is not presented as best where none completed. -/
def Agrees (s : Study) (env : Environment) : Prop :=
  let (out, s') := s.reset.run env
  (out.ok = true → ∃ t, s'.bestTrial = some t ∧ t.completed = true ∧
    t.trialNumber.toInt = out.bestTrial ∧ t.score = out.bestScore) ∧
  ((∀ t ∈ s'.history, t.completed = false) → s'.bestTrial = none)

def trialCount (s : Study) : ℕ := s.cfg.nTrials.toInt.toNat

def answer (env : Environment) (i : ℕ) : Except Thrown ℚ :=
  env.objective i (env.sample (env.seed i))

/-- Every trial on which the objective throws is beaten by a score: it is better than the score of a
failed trial, or as good and before it. -/
def FailuresBeaten (s : Study) (env : Environment) : Prop :=
  ∀ i < s.trialCount, ∀ what, answer env i = .error what → ∃ j < s.trialCount, ∃ score,
    answer env j = .ok score ∧ (s.cfg.direction * s.failedScore < s.cfg.direction * score ∨
      s.cfg.direction * s.failedScore = s.cfg.direction * score ∧ j < i)

/-- There are scores, and all of them are at most as good as the start of the search. -/
def AllBelowStart (s : Study) (env : Environment) : Prop :=
  (∃ j < s.trialCount, ∃ score, answer env j = .ok score) ∧
    ∀ j < s.trialCount, ∀ score, answer env j = .ok score → s.cfg.direction * score ≤ -huge

section Agreement

variable {i : ℕ} {score : ℚ} {what : Thrown}

theorem trial_of_score (h : answer env i = .ok score) :
    (s.trial env i).completed = true ∧ (s.trial env i).score = score := by
  have h : env.objective i (env.sample (env.seed i)) = .ok score := h
  simp [trial, h]

theorem trial_of_thrown (h : answer env i = .error what) :
    (s.trial env i).completed = false ∧ (s.trial env i).score = s.failedScore := by
  have h : env.objective i (env.sample (env.seed i)) = .error what := h
  simp [trial, h]

theorem trialNumber_toInt (hi : i < s.trialCount) : (s.trial env i).trialNumber.toInt = i := by
  have hnumber : (s.trial env i).trialNumber = Int64.ofNat i := by
    unfold trial
    dsimp only
    split <;> rfl
  have hmax := s.cfg.nTrials.toInt_lt
  have hcount : s.trialCount = s.cfg.nTrials.toInt.toNat := rfl
  rw [hnumber, Int64.toInt_ofNat_of_lt (by omega)]

/-- The first best trial of all is completed exactly where every failure is beaten. -/
theorem completed_iff_beaten {b : ℕ}
    (hb : FirstMax (fun i => s.cfg.direction * (s.trial env i).score) s.trialCount b) :
    (s.trial env b).completed = true ↔ s.FailuresBeaten env := by
  obtain ⟨hlt, hmax, hfirst⟩ := hb
  constructor
  · intro hcompleted i hi what hwhat
    obtain ⟨hfailed, hscore⟩ := trial_of_thrown (s := s) hwhat
    cases hanswer : answer env b with
    | error what' => rw [(trial_of_thrown hanswer).1] at hcompleted; cases hcompleted
    | ok score =>
        have hbest : (s.trial env b).score = score := (trial_of_score hanswer).2
        refine ⟨b, hlt, score, hanswer, ?_⟩
        have hle := hmax i hi
        dsimp only at hle
        rw [hscore, hbest] at hle
        refine (lt_or_eq_of_le hle).imp_right fun heq => ⟨heq, ?_⟩
        obtain hbi | rfl | hib := lt_trichotomy b i
        · exact hbi
        · rw [hfailed] at hcompleted
          cases hcompleted
        · have hstrict := hfirst i hib
          dsimp only at hstrict
          rw [hscore, hbest, heq] at hstrict
          exact absurd hstrict (lt_irrefl _)
  · intro hbeaten
    cases hanswer : answer env b with
    | ok score => exact (trial_of_score hanswer).1
    | error what =>
        obtain ⟨-, hfailed⟩ := trial_of_thrown (s := s) hanswer
        obtain ⟨j, hj, score, hscore, hbetter⟩ := hbeaten b hlt what hanswer
        have hjscore : (s.trial env j).score = score := (trial_of_score hscore).2
        have hle := hmax j hj
        dsimp only at hle
        rw [hjscore, hfailed] at hle
        obtain hbetter | ⟨heq, hjb⟩ := hbetter
        · exact absurd hle (not_le.2 hbetter)
        · have hstrict := hfirst j hjb
          dsimp only at hstrict
          rw [hjscore, hfailed, heq] at hstrict
          exact absurd hstrict (lt_irrefl _)

/-- What `run` reports after all trials. -/
theorem run_eq (env : Environment) (hspecs : s.specs ≠ []) (hdirection : s.cfg.direction = 1 ∨ s.cfg.direction = -1) :
    ∃ start out, s.cfg.direction * start = -huge ∧
      Reported s.reset (s.trial env) start s.trialCount out ∧
      s.reset.run env = ({ out with ok := decide (0 ≤ out.bestTrial) },
        { s with history := (List.range s.trialCount).map (s.trial env) }) := by
  have hreset : s.reset.history = [] := rfl
  obtain ⟨out, hfold, hreported⟩ := foldl_runTrial env
    (if 0 < s.cfg.direction then -huge else huge) s.trialCount hreset
  refine ⟨_, out, ?_, hreported, ?_⟩
  · obtain hd | hd := hdirection <;> rw [hd] <;> norm_num
  · have hsome : s.reset.specs.isEmpty = false := by simpa [reset] using hspecs
    rw [run, hsome, if_neg (by decide)]
    have hfold' : (List.range s.reset.cfg.nTrials.toInt.toNat).foldl (runTrial env)
        ({ bestScore := if 0 < s.reset.cfg.direction then -huge else huge }, s.reset) =
        (out, { s.reset with history := (List.range s.trialCount).map (s.reset.trial env) }) := hfold
    simp only [hfold']
    rfl

theorem agrees_iff (hdirection : s.cfg.direction = 1 ∨ s.cfg.direction = -1) :
    s.Agrees env ↔ s.specs = [] ∨ s.FailuresBeaten env ∨ s.AllBelowStart env := by
  by_cases hspecs : s.specs = []
  · refine iff_of_true ?_ (Or.inl hspecs)
    simp [Agrees, run, reset, hspecs, bestTrial]
  obtain ⟨start, out, hstart, hreported, hrun⟩ := run_eq env hspecs hdirection
  rw [Agrees, hrun, or_iff_right hspecs]
  dsimp only
  cases hcount : s.trialCount with
  | zero =>
      rw [hcount] at hreported
      refine iff_of_true ⟨fun hok => ?_, fun _ => rfl⟩
        (Or.inl fun i hi => absurd hi (by rw [hcount]; exact Nat.not_lt_zero i))
      cases hreported with
      | unset hbest hscore hlow => simp [hbest] at hok
      | found b hb => exact absurd hb (Nat.not_lt_zero b)
  | succ n =>
      obtain ⟨b, hb, hbest⟩ := bestTrial_history (s := s) (s.trial env) n
      rw [← hcount] at hb hbest ⊢
      have hmem : s.trial env b ∈ (List.range s.trialCount).map (s.trial env) :=
        List.mem_map.2 ⟨b, List.mem_range.2 hb.1, rfl⟩
      have hiff := completed_iff_beaten hb
      rw [hbest]
      constructor
      · rintro ⟨hagree, hnone⟩
        by_contra hneither
        rw [not_or] at hneither
        have hfailed : (s.trial env b).completed = false := by
          simpa using fun h => hneither.1 (hiff.1 h)
        have hscored : ∃ j < s.trialCount, ∃ score, answer env j = .ok score := by
          by_contra hall
          refine absurd (hnone fun t ht => ?_) (by simp)
          obtain ⟨i, hi, rfl⟩ := List.mem_map.1 ht
          cases hanswer : answer env i with
          | error what => exact (trial_of_thrown hanswer).1
          | ok score => exact absurd ⟨i, List.mem_range.1 hi, score, hanswer⟩ hall
        have hok : 0 ≤ out.bestTrial := by
          cases hreported with
          | found b' hb' hbest' => rw [hbest']; exact Int.natCast_nonneg b'
          | unset hbest' hscore hlow =>
              refine absurd ⟨hscored, fun j hj score hscore' => ?_⟩ hneither.2
              obtain ⟨hcompleted, hscore''⟩ := trial_of_score (s := s) hscore'
              have := hlow j hj hcompleted
              rw [hscore''] at this
              exact this.trans hstart.le
        obtain ⟨t, ht, hcompleted, -⟩ := hagree (by simpa using hok)
        rw [Option.some.injEq] at ht
        rw [← ht, hfailed] at hcompleted
        cases hcompleted
      · intro hcondition
        have hcompleted : 0 ≤ out.bestTrial → (s.trial env b).completed = true := by
          intro hok
          refine hiff.2 (hcondition.resolve_right fun hbelow => ?_)
          cases hreported with
          | unset hbest' => rw [hbest'] at hok; exact absurd hok (by decide)
          | found b' hb' hbest' hscore' hcompleted' hhigh =>
              cases hanswer : answer env b' with
              | error what => rw [(trial_of_thrown hanswer).1] at hcompleted'; cases hcompleted'
              | ok score =>
                  have hle := hbelow.2 b' hb' score hanswer
                  rw [(trial_of_score hanswer).2] at hhigh
                  exact absurd hhigh (not_lt.2 (hle.trans hstart.ge))
        refine ⟨fun hok => ?_, fun hnone => ?_⟩
        · have hok : 0 ≤ out.bestTrial := by simpa using hok
          have hdone := hcompleted hok
          cases hreported with
          | unset hbest' => rw [hbest'] at hok; exact absurd hok (by decide)
          | found b' hb' hbest' hscore' hcompleted' hhigh hmax hfirst =>
              obtain rfl : b = b' := by
                obtain hlt | heq | hgt := lt_trichotomy b b'
                · exact absurd (hfirst b hlt hdone) (not_lt.2 (hb.2.1 b' hb'))
                · exact heq
                · exact absurd (hb.2.2 b' hgt) (not_lt.2 (hmax b hb.1 hdone))
              exact ⟨_, rfl, hdone, by rw [trialNumber_toInt hb.1, hbest'], hscore'.symm⟩
        · exfalso
          have hfailed := hnone _ hmem
          obtain hbeaten | hbelow := hcondition
          · rw [hiff.2 hbeaten] at hfailed
            cases hfailed
          · obtain ⟨j, hj, score, hscore⟩ := hbelow.1
            have := hnone _ (List.mem_map.2 ⟨j, List.mem_range.2 hj, rfl⟩)
            rw [(trial_of_score hscore).1] at this
            cases this

end Agreement

end Study

/-! ### The file -/

section Texts

variable {t : ByteArray}

theorem textJson_eq (h : t.IsValidUTF8) : textJson t = some (.string (String.fromUTF8 t h)) := by
  simp [textJson, String.fromUTF8?, h]

theorem textJson_isSome : (textJson t).isSome ↔ t.IsValidUTF8 := by
  by_cases h : t.IsValidUTF8 <;> simp [textJson, String.fromUTF8?, h]

theorem textJson_eq_none (h : ¬t.IsValidUTF8) : textJson t = none := by
  rw [← Option.not_isSome_iff_eq_none, textJson_isSome]
  exact h

theorem getText_textJson {j : Json} (h : textJson t = some j) : getText j = some t := by
  have hvalid : t.IsValidUTF8 := textJson_isSome.1 (by rw [h]; rfl)
  obtain rfl := Option.some.inj ((textJson_eq hvalid).symm.trans h)
  rfl

end Texts

/-- A text, number or list that is written and read again. -/
def Survives {α : Type} (write : α → Option Json) (read : Json → Option α) (x : α) : Prop :=
  (write x).bind read = some x

theorem survives_textJson {t : ByteArray} : Survives textJson getText t ↔ t.IsValidUTF8 := by
  rw [← textJson_isSome, Survives]
  cases h : textJson t with
  | none => simp
  | some j => simp [getText_textJson h]

theorem survives_list {α : Type} {write : α → Option Json} {read : Json → Option α} (l : List α) :
    (l.mapM write).bind (fun js => js.mapM read) = some l ↔ ∀ x ∈ l, Survives write read x := by
  induction l with
  | nil => simp
  | cons x l ih =>
      rw [List.forall_mem_cons, ← ih, Survives]
      cases hx : write x with
      | none => simp [hx]
      | some j =>
          cases hl : l.mapM write with
          | none => simp [hx, hl]
          | some js =>
              cases hj : read j with
              | none => simp [hx, hl, hj]
              | some x' =>
                  cases hjs : js.mapM read with
                  | none => simp [hx, hl, hj, hjs]
                  | some l' => simp [hx, hl, hj, hjs]

/-- A list is written where all of its members are. -/
theorem isSome_of_mapM {α : Type} {write : α → Option Json} {l : List α} {js : List Json}
    (h : l.mapM write = some js) : ∀ x ∈ l, (write x).isSome := by
  induction l generalizing js with
  | nil => simp
  | cons x l ih =>
      simp only [List.mapM_cons, Option.bind_eq_bind, Option.bind_eq_some_iff] at h
      obtain ⟨j, hj, js', hjs, -⟩ := h
      exact List.forall_mem_cons.2 ⟨by simp [hj], ih hjs⟩

theorem mapM_textJson (l : List ByteArray) :
    ((∀ c ∈ l, c.IsValidUTF8) ∧ ∃ js, l.mapM textJson = some js ∧ js.mapM getText = some l) ∨
      ((¬∀ c ∈ l, c.IsValidUTF8) ∧ l.mapM textJson = none) := by
  by_cases hvalid : ∀ c ∈ l, c.IsValidUTF8
  · have hsurvives := (survives_list l).2 fun c hc => survives_textJson.2 (hvalid c hc)
    exact Or.inl ⟨hvalid, Option.bind_eq_some_iff.1 hsurvives⟩
  · refine Or.inr ⟨hvalid, ?_⟩
    cases hjs : l.mapM textJson with
    | none => rfl
    | some js => exact absurd (fun c hc => textJson_isSome.1 (isSome_of_mapM hjs c hc)) hvalid

theorem getInt64_intJson (n : Int64) : getInt64 (intJson n) = some n := by
  have hlow := n.le_toInt
  have hhigh := n.toInt_lt
  have hinteger : (intJson n).integer? = some n.toInt := by
    unfold intJson
    split
    · next hn =>
      rw [Json.integer?, Int64.toNat_toUInt64_of_le hn, Int64.cast_toNatClampNeg n hn]
    · rfl
  have hnarrow : narrow 64 n.toInt = n.toInt := Int.bmod_eq_of_le (by omega) (by omega)
  simp [getInt64, Json.getInt64_of_integer hinteger, hnarrow]

/-! ### What a file keeps -/

/-- What is saved of a spec is what its type needs: the rest has to be what loading assumes. -/
def ParamSpec.Storable (s : ParamSpec) : Prop :=
  s.name.IsValidUTF8 ∧
    match s.type with
    | .int => s.minV ≠ none ∧ s.maxV ≠ none ∧ s.step = some 1 ∧ s.logScale = false ∧ s.choices = []
    | .float => s.minV ≠ none ∧ s.maxV ≠ none ∧ s.step = some 0 ∧ s.choices = []
    | .categorical => (∀ c ∈ s.choices, c.IsValidUTF8) ∧ s.minV = some 0 ∧ s.maxV = some 1 ∧
        s.step = some 0 ∧ s.logScale = false

def ParamValue.Storable (p : ParamValue) : Prop :=
  p.name.IsValidUTF8 ∧
    match p.value with
    | .int _ => True
    | .float x => x ≠ none
    | .text s => s.IsValidUTF8

def TrialResult.Storable (t : TrialResult) : Prop :=
  t.error.IsValidUTF8 ∧ ∀ p ∈ t.params, p.Storable

theorem survives_spec {s : ParamSpec} : Survives specJson specFromJson s ↔ s.Storable := by
  obtain ⟨name, type, minV, maxV, step, logScale, choices⟩ := s
  unfold Survives ParamSpec.Storable
  by_cases hname : name.IsValidUTF8
  · have htext := textJson_eq hname
    have hget : getText (.string (String.fromUTF8 name hname)) = some name := getText_textJson htext
    cases type with
    | int =>
        cases minV <;> cases maxV <;>
          simp [specJson, specFromJson, htext, hget, hname, Json.field?, Json.fields, List.lookup,
            typeName, Json.string?, doubleJson, getDouble, Json.number?, eq_comm]
    | float =>
        cases minV <;> cases maxV <;>
          simp [specJson, specFromJson, htext, hget, hname, Json.field?, Json.fields, List.lookup,
            typeName, Json.string?, doubleJson, getDouble, Json.number?, valueOf, Json.boolean?, eq_comm]
    | categorical =>
        obtain ⟨hvalid, js, hjs, hread⟩ | ⟨hinvalid, hjs⟩ := mapM_textJson choices
        · simp [specJson, specFromJson, htext, hget, hname, Json.field?, Json.fields, List.lookup,
            typeName, Json.string?, hjs, items, hread, eq_comm]
          exact fun _ _ _ _ => hvalid
        · have hnot : ¬∀ c ∈ choices, c.IsValidUTF8 := hinvalid
          simp only [specJson, htext, hjs]
          simp [hname, hnot]
  · simp [specJson, textJson_eq_none hname, hname]

theorem survives_param {p : ParamValue} : Survives paramJson paramFromJson p ↔ p.Storable := by
  obtain ⟨name, value⟩ := p
  unfold Survives ParamValue.Storable
  by_cases hname : name.IsValidUTF8
  · have htext := textJson_eq hname
    have hget : getText (.string (String.fromUTF8 name hname)) = some name := getText_textJson htext
    cases value with
    | int n =>
        have hread := getInt64_intJson n
        unfold intJson at hread
        by_cases hn : 0 ≤ n
        · rw [if_pos hn] at hread
          simp [paramJson, paramFromJson, htext, hget, hname, Json.field?, Json.fields, List.lookup,
            intJson, hn, hread]
        · rw [if_neg hn] at hread
          simp [paramJson, paramFromJson, htext, hget, hname, Json.field?, Json.fields, List.lookup,
            intJson, hn, hread]
    | float x =>
        cases x with
        | none =>
            simp [paramJson, paramFromJson, htext, hname, Json.field?, Json.fields, List.lookup,
              doubleJson, getText, Json.string?]
        | some x =>
            simp [paramJson, paramFromJson, htext, hget, hname, Json.field?, Json.fields, List.lookup,
              doubleJson]
    | text t =>
        by_cases ht : t.IsValidUTF8
        · have hget' : getText (.string (String.fromUTF8 t ht)) = some t := getText_textJson (textJson_eq ht)
          simp [paramJson, paramFromJson, htext, hget, hname, Json.field?, Json.fields, List.lookup,
            textJson_eq ht, hget', ht]
        · simp [paramJson, htext, textJson_eq_none ht, ht]
  · simp [paramJson, textJson_eq_none hname, hname]

theorem survives_trial {t : TrialResult} : Survives trialJson trialFromJson t ↔ t.Storable := by
  obtain ⟨trialNumber, params, score, durationSeconds, completed, error⟩ := t
  unfold Survives TrialResult.Storable
  simp only [← survives_param]
  rw [← survives_list]
  by_cases herror : error.IsValidUTF8
  · have htext := textJson_eq herror
    have hget : getText (.string (String.fromUTF8 error herror)) = some error := getText_textJson htext
    cases hparams : params.mapM paramJson with
    | none => simp [trialJson, htext, hparams]
    | some js =>
        simp [trialJson, trialFromJson, htext, hget, herror, hparams, valueOf, Json.field?, Json.fields,
          List.lookup, getInt64_intJson, Json.number?, Json.boolean?, items]
        cases js.mapM paramFromJson <;> simp
  · simp [trialJson, textJson_eq_none herror, herror]

namespace Study

variable {s : Study} {env : Environment}

/-- Loading what was saved gives the specs, the history and the best trial back. -/
def RoundTrips (s : Study) : Prop :=
  ∃ file s', s.saveJson = some file ∧ loadJson file = some s' ∧ s'.specs = s.specs ∧
    s'.history = s.history ∧ s'.bestTrial = s.bestTrial

def Storable (s : Study) : Prop :=
  s.cfg.studyName.IsValidUTF8 ∧ (∀ spec ∈ s.specs, spec.Storable) ∧ ∀ t ∈ s.history, t.Storable

theorem getInt_intJson (n : Int64) : ∃ x, (intJson n).getInt = some x := by
  unfold intJson
  split <;> exact ⟨_, rfl⟩

/-- What is loaded from the file of a study whose name is UTF-8. -/
theorem loadJson_saveJson (hname : s.cfg.studyName.IsValidUTF8) :
    ∃ cfg : StudyConfig, cfg.direction = s.cfg.direction ∧
      s.saveJson.bind loadJson = do
        let specs ← (s.specs.mapM specJson).bind fun js => js.mapM specFromJson
        let history ← (s.history.mapM trialJson).bind fun js => js.mapM trialFromJson
        return { cfg, specs, history } := by
  have htext := textJson_eq hname
  have hget : getText (.string (String.fromUTF8 _ hname)) = some s.cfg.studyName := getText_textJson htext
  obtain ⟨nTrials, hn⟩ := getInt_intJson s.cfg.nTrials.toInt64
  refine ⟨{ s.cfg with nTrials := Int32.ofInt nTrials }, rfl, ?_⟩
  cases hspecs : s.specs.mapM specJson with
  | none => simp [saveJson, htext, hspecs]
  | some specs =>
      cases hhistory : s.history.mapM trialJson with
      | none => simp [saveJson, htext, hspecs, hhistory]
      | some history =>
          simp [saveJson, loadJson, htext, hspecs, hhistory, hget, hn, valueOf, Json.field?, Json.fields,
            List.lookup, getInt64_intJson, Json.number?, items]

theorem roundTrips_iff : s.RoundTrips ↔ s.Storable := by
  unfold Storable
  simp only [← survives_spec, ← survives_trial]
  rw [← survives_list, ← survives_list]
  by_cases hname : s.cfg.studyName.IsValidUTF8
  · obtain ⟨cfg, hdirection, hload⟩ := loadJson_saveJson hname
    rw [and_iff_right hname]
    constructor
    · rintro ⟨file, s', hsave, hload', hspecs, hhistory, -⟩
      rw [hsave, Option.bind_some, hload'] at hload
      simp only [Option.bind_eq_bind, eq_comm (a := some s'), Option.bind_eq_some_iff] at hload
      obtain ⟨specs, hspecs', history, hhistory', hs'⟩ := hload
      obtain rfl := Option.some.inj hs'
      have hspecs : specs = s.specs := hspecs
      have hhistory : history = s.history := hhistory
      rw [hspecs] at hspecs'
      rw [hhistory] at hhistory'
      exact ⟨Option.bind_eq_some_iff.2 hspecs', Option.bind_eq_some_iff.2 hhistory'⟩
    · rintro ⟨hspecs, hhistory⟩
      rw [hspecs, hhistory] at hload
      obtain ⟨file, hsave, hfile⟩ := Option.bind_eq_some_iff.1 hload
      refine ⟨file, _, hsave, hfile, rfl, rfl, ?_⟩
      have hbetter : better { cfg, specs := s.specs, history := s.history } = s.better := by
        funext best t
        simp only [better, hdirection]
      simp only [bestTrial, hbetter]
  · refine iff_of_false ?_ fun h => hname h.1
    rintro ⟨file, s', hsave, -⟩
    simp [saveJson, textJson_eq_none hname] at hsave

/-- For a direction that maximizes or minimizes: when the two notions of best agree after a run, and
when a study survives saving. -/
theorem study_best_iff (s : Study) (env : Environment)
    (hdirection : s.cfg.direction = 1 ∨ s.cfg.direction = -1) :
    (s.Agrees env ↔ s.specs = [] ∨ s.FailuresBeaten env ∨ s.AllBelowStart env) ∧
      (s.RoundTrips ↔ s.Storable) :=
  ⟨agrees_iff hdirection, roundTrips_iff⟩

/-- Two trials of one parameter: the first throws, the second scores -1. -/
def twoTrials : Study := { cfg := { nTrials := 2 }, specs := [{ name := .empty }] }

def throwsFirst : Environment where
  seed _ := 0
  sample _ := []
  objective i _ := if i = 0 then .error none else .ok (-1)

theorem study_best_twoTrials :
    (twoTrials.Agrees throwsFirst ↔ twoTrials.specs = [] ∨ twoTrials.FailuresBeaten throwsFirst ∨
        twoTrials.AllBelowStart throwsFirst) ∧
      (twoTrials.RoundTrips ↔ twoTrials.Storable) :=
  study_best_iff twoTrials throwsFirst (Or.inl rfl)

theorem failed_is_best :
    ¬∀ (s : Study) (env : Environment), s.cfg.direction = 1 ∨ s.cfg.direction = -1 →
      s.Agrees env ∧ s.RoundTrips := by
  intro h
  have hagrees := (h twoTrials throwsFirst (Or.inl rfl)).1
  have hok : (twoTrials.reset.run throwsFirst).1.ok = true := by decide +kernel
  have hbest : ((twoTrials.reset.run throwsFirst).2.bestTrial.map TrialResult.completed) = some false := by
    decide +kernel
  obtain ⟨t, ht, hcompleted, -⟩ := hagrees.1 hok
  have ht : (twoTrials.reset.run throwsFirst).2.bestTrial = some t := ht
  rw [ht, Option.map_some, hcompleted] at hbest
  cases hbest

end Study

end InferDeck.Optimize
