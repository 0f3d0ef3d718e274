import Mathlib.Tactic

/-!
# Programs that write to a sink

A program changes a state and writes to a sink, and stops at the first write that the sink refuses.
`events` are what it writes to a sink that refuses nothing, and `after` is the state it leaves then.
A sink that refuses writes from some point on has what comes before that point.

`Triple` is the rule of pre- and postconditions of a program whose writes a monitor follows.
-/

namespace InferDeck.SinkWriter

variable {σ E M α : Type}

inductive Writer (σ E : Type) where
  | done
  | modify (f : σ → σ)
  | write (f : σ → E)
  | seq (first second : Writer σ E)
  /-- Branch on the state. -/
  | read (next : σ → Writer σ E)

structure Sink (E : Type) where
  room : ℕ
  written : List E := []

def Sink.write (sink : Sink E) (e : E) : Bool × Sink E :=
  match sink.room with
  | 0 => (false, sink)
  | room + 1 => (true, ⟨room, sink.written ++ [e]⟩)

namespace Writer

def run : Writer σ E → σ → Sink E → Bool × σ × Sink E
  | done, s, sink => (true, s, sink)
  | modify f, s, sink => (true, f s, sink)
  | write f, s, sink => ((sink.write (f s)).1, s, (sink.write (f s)).2)
  | seq first second, s, sink =>
      match first.run s sink with
      | (true, s', sink') => second.run s' sink'
      | (false, s', sink') => (false, s', sink')
  | read next, s, sink => (next s).run s sink

def after : Writer σ E → σ → σ
  | done, s => s
  | modify f, s => f s
  | write _, s => s
  | seq first second, s => second.after (first.after s)
  | read next, s => (next s).after s

def events : Writer σ E → σ → List E
  | done, _ => []
  | modify _, _ => []
  | write f, s => [f s]
  | seq first second, s => first.events s ++ second.events (first.after s)
  | read next, s => (next s).events s

def forEach (xs : List α) (p : α → Writer σ E) : Writer σ E :=
  xs.foldr (fun x rest => seq (p x) rest) done

/-- `run` where the sink has room for all, and where it has not. -/
theorem run_spec (p : Writer σ E) (s : σ) (sink : Sink E) :
    ((p.events s).length ≤ sink.room →
      p.run s sink =
        (true, p.after s, ⟨sink.room - (p.events s).length, sink.written ++ p.events s⟩)) ∧
    (sink.room < (p.events s).length →
      (p.run s sink).1 = false ∧
        (p.run s sink).2.2.written = sink.written ++ (p.events s).take sink.room) := by
  induction p generalizing s sink with
  | done => exact ⟨fun _ => by simp [run, after, events], fun h => absurd h (Nat.not_lt_zero _)⟩
  | modify f => exact ⟨fun _ => by simp [run, after, events], fun h => absurd h (Nat.not_lt_zero _)⟩
  | write f =>
      obtain ⟨room, written⟩ := sink
      cases room with
      | zero => simp [run, events, Sink.write]
      | succ room => simp [run, after, events, Sink.write]
  | seq first second ihf ihs =>
      simp only [run, after, events, List.length_append]
      by_cases hfirst : (first.events s).length ≤ sink.room
      · rw [(ihf s sink).1 hfirst]
        dsimp only
        have hrest := ihs (first.after s)
          ⟨sink.room - (first.events s).length, sink.written ++ first.events s⟩
        refine ⟨fun h => ?_, fun h => ?_⟩
        · rw [hrest.1 (by dsimp only; omega)]
          simp [Nat.sub_sub]
        · obtain ⟨hstop, hwritten⟩ := hrest.2 (by dsimp only; omega)
          refine ⟨hstop, hwritten.trans ?_⟩
          rw [List.take_append, List.take_of_length_le hfirst, List.append_assoc]
      · obtain ⟨hstop, hwritten⟩ := (ihf s sink).2 (by omega)
        have hrun : first.run s sink = (false, (first.run s sink).2) := by rw [← hstop]
        rw [hrun]
        refine ⟨fun h => absurd h (by omega), fun _ => ⟨rfl, hwritten.trans ?_⟩⟩
        rw [List.take_append, Nat.sub_eq_zero_of_le (by omega), List.take_zero, List.append_nil]
  | read next ih => exact ih s s sink

/-- What is in the sink after the run: what the program writes, as far as the sink takes it. -/
theorem run_written (p : Writer σ E) (s : σ) (room : ℕ) :
    (p.run s ⟨room, []⟩).2.2.written = (p.events s).take room := by
  by_cases h : (p.events s).length ≤ room
  · rw [(run_spec p s ⟨room, []⟩).1 h, List.take_of_length_le h]
    rfl
  · exact ((run_spec p s ⟨room, []⟩).2 (by simp only; omega)).2

end Writer

/-! ## Monitors -/

variable (accept : M → E → Option M)

/-- The monitor follows the events from one of its states to another. -/
def Follows (m : M) (es : List E) (m' : M) : Prop := es.foldlM accept m = some m'

variable {accept} {m m' m'' : M} {es es' : List E} {e : E}

theorem Follows.nil (m : M) : Follows accept m [] m := rfl

theorem follows_cons :
    Follows accept m (e :: es) m'' ↔ ∃ m', accept m e = some m' ∧ Follows accept m' es m'' := by
  rw [Follows, List.foldlM_cons]
  exact Option.bind_eq_some_iff

theorem follows_append :
    Follows accept m (es ++ es') m'' ↔
      ∃ m', Follows accept m es m' ∧ Follows accept m' es' m'' := by
  rw [Follows, List.foldlM_append]
  exact Option.bind_eq_some_iff

theorem Follows.single (h : accept m e = some m') : Follows accept m [e] m' :=
  follows_cons.2 ⟨m', h, .nil m'⟩

theorem Follows.append (h : Follows accept m es m') (h' : Follows accept m' es' m'') :
    Follows accept m (es ++ es') m'' :=
  follows_append.2 ⟨m', h, h'⟩

/-- What is followed is followed up to any point. -/
theorem Follows.take (h : Follows accept m es m'') (n : ℕ) :
    ∃ m', Follows accept m (es.take n) m' := by
  rw [← List.take_append_drop n es] at h
  obtain ⟨m', hfirst, -⟩ := follows_append.1 h
  exact ⟨m', hfirst⟩

/-- What every accepted event keeps. -/
theorem Follows.keeps {R : M → M → Prop} (hrefl : ∀ m, R m m)
    (htrans : ∀ {m m' m''}, R m m' → R m' m'' → R m m'')
    (hstep : ∀ {m m' e}, accept m e = some m' → R m m') (h : Follows accept m es m') : R m m' := by
  induction es generalizing m with
  | nil => exact Option.some.inj h ▸ hrefl m
  | cons e es ih =>
      obtain ⟨m₁, haccept, hrest⟩ := follows_cons.1 h
      exact htrans (hstep haccept) (ih hrest)

/-- From states with the precondition, the monitor follows what the program writes, to states with
the postcondition. -/
def Triple (accept : M → E → Option M) (P : σ → M → Prop) (p : Writer σ E) (Q : σ → M → Prop) :
    Prop :=
  ∀ s m, P s m → ∃ m', Follows accept m (p.events s) m' ∧ Q (p.after s) m'

namespace Triple

variable {P Q R : σ → M → Prop} {p q : Writer σ E}

theorem done : Triple accept P .done P := fun _ m h => ⟨m, .nil m, h⟩

theorem modify {f : σ → σ} (h : ∀ s m, P s m → Q (f s) m) : Triple accept P (.modify f) Q :=
  fun s m hs => ⟨m, .nil m, h s m hs⟩

theorem write {f : σ → E} (h : ∀ s m, P s m → ∃ m', accept m (f s) = some m' ∧ Q s m') :
    Triple accept P (.write f) Q := fun s m hs =>
  let ⟨m', haccept, hpost⟩ := h s m hs
  ⟨m', .single haccept, hpost⟩

theorem seq (hp : Triple accept P p Q) (hq : Triple accept Q q R) :
    Triple accept P (.seq p q) R := fun s m hs =>
  let ⟨_, hfirst, hmid⟩ := hp s m hs
  let ⟨m₂, hsecond, hpost⟩ := hq _ _ hmid
  ⟨m₂, hfirst.append hsecond, hpost⟩

theorem read {next : σ → Writer σ E}
    (h : ∀ s₀, Triple accept (fun s m => s = s₀ ∧ P s m) (next s₀) Q) :
    Triple accept P (.read next) Q := fun s m hs => h s s m ⟨rfl, hs⟩

/-- The invariant may speak of what has been gone through. -/
theorem forEach {I : List α → σ → M → Prop} {body : α → Writer σ E} {xs : List α}
    (h : ∀ done x rest, xs = done ++ x :: rest →
      Triple accept (I done) (body x) (I (done ++ [x]))) :
    Triple accept (I []) (.forEach xs body) (I xs) := by
  have hsuffix (done rest : List α) (heq : xs = done ++ rest) :
      Triple accept (I done) (.forEach rest body) (I xs) := by
    induction rest generalizing done with
    | nil =>
        rw [heq, List.append_nil]
        exact Triple.done
    | cons x rest ih =>
        exact (h done x rest heq).seq (ih (done ++ [x]) (by rw [heq, List.append_assoc]; rfl))
  exact hsuffix [] xs rfl

/-- What is known of the state without the monitor. -/
theorem with_after {A B : σ → Prop} (h : Triple accept P p Q) (hafter : ∀ s, A s → B (p.after s)) :
    Triple accept (fun s m => P s m ∧ A s) p (fun s m => Q s m ∧ B s) := fun s m hs =>
  let ⟨m', hfollows, hpost⟩ := h s m hs.1
  ⟨m', hfollows, hpost, hafter s hs.2⟩

theorem conseq {P' Q' : σ → M → Prop} (h : Triple accept P p Q) (hpre : ∀ s m, P' s m → P s m)
    (hpost : ∀ s m, Q s m → Q' s m) : Triple accept P' p Q' := fun s m hs =>
  let ⟨m', hfollows, hq⟩ := h s m (hpre s m hs)
  ⟨m', hfollows, hpost _ _ hq⟩

end Triple

end InferDeck.SinkWriter
