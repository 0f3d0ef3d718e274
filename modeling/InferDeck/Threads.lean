import Mathlib.Tactic

/-!
# Threads with call stacks and recursive locks

Each thread has a stack of frames. A step runs the top frame up to the end of its next critical
section on the shared state; the frame then goes on, calls another one or returns. A frame says
which lock it holds, and a step that makes it hold a lock is possible only if no other thread has
the lock. A lock counts how often its owner has taken it.
-/

namespace InferDeck.Threads

open Function

inductive Move (F R : Type) where
  | goto (frame : F)
  | call (frame callee : F)
  | ret (result : R)

/-- What frames do. A step reads which locks its thread could take. -/
structure System (σ ι F R L : Type) where
  step : (L → Bool) → ι → σ → F → Option (σ × Move F R)
  /-- The frame as it goes on with the result of its callee. -/
  resume : F → R → F
  holds : F → Option L
  /-- The owner of the lock, and how often it has locked it. -/
  owner : σ → L → Option (ℕ × ℕ)
  setOwner : σ → (L → Option (ℕ × ℕ)) → σ

structure State (σ F : Type) where
  shared : σ
  stack : ℕ → List F

variable {σ ι F R L : Type} [DecidableEq L]

def Ensures (step : Option (σ × Move F R)) (P : σ → Move F R → Prop) : Prop :=
  ∀ s move, step = some (s, move) → P s move

section Ensures

variable {P Q : σ → Move F R → Prop} {step step' : Option (σ × Move F R)}

@[simp] theorem ensures_none : Ensures none P := by simp [Ensures]

@[simp] theorem ensures_some {s : σ} {move : Move F R} :
    Ensures (some (s, move)) P ↔ P s move := by
  simp [Ensures]

@[simp] theorem ensures_ite {p : Prop} [Decidable p] :
    Ensures (if p then step else step') P ↔ (p → Ensures step P) ∧ (¬p → Ensures step' P) := by
  split_ifs with h <;> simp [h]

@[simp] theorem ensures_bind {α : Type} {x : Option α} {f : α → Option (σ × Move F R)} :
    Ensures (x.bind f) P ↔ ∀ a, x = some a → Ensures (f a) P := by
  cases x with
  | none => simp
  | some a => simp

theorem Ensures.mono (h : Ensures step P) (hPQ : ∀ s move, P s move → Q s move) :
    Ensures step Q :=
  fun s move hstep => hPQ s move (h s move hstep)

end Ensures

abbrev Owners (L : Type) := L → Option (ℕ × ℕ)

namespace Owners

variable (o : Owners L) (tid : ℕ)

def depth (lock : L) : ℕ :=
  match o lock with
  | some (t, n) => if t = tid then n else 0
  | none => 0

def canLock (lock : L) : Bool :=
  match o lock with
  | some (t, _) => t == tid
  | none => true

def lock (l : L) : Owners L := update o l (some (tid, o.depth tid l + 1))

def unlock (l : L) : Owners L :=
  update o l (if o.depth tid l ≤ 1 then none else some (tid, o.depth tid l - 1))

def giveBack : Option L → Owners L
  | some l => o.unlock tid l
  | none => o

def take : Option L → Option (Owners L)
  | some l => if o.canLock tid l then some (o.lock tid l) else none
  | none => some o

/-- The owners when a frame of the thread that held `old` holds `new`. -/
def relock (old new : Option L) : Option (Owners L) :=
  if old = new then some o else (o.giveBack tid old).take tid new

end Owners

namespace Owners

variable {o o' : Owners L} {tid t : ℕ} {l l' : L}

theorem depth_lock_self : (o.lock tid l).depth tid l = o.depth tid l + 1 := by
  simp [lock, depth]

theorem depth_lock_of_ne (hl : l' ≠ l) : (o.lock tid l).depth t l' = o.depth t l' := by
  simp [lock, depth, update_of_ne hl]

/-- Who can take a lock takes it from nobody. -/
theorem depth_lock_other (ht : t ≠ tid) (hcan : o.canLock tid l = true) :
    (o.lock tid l).depth t l' = o.depth t l' := by
  by_cases hl : l' = l
  · subst hl
    unfold canLock at hcan
    simp only [lock, depth, update_self, if_neg ht.symm]
    split at hcan
    next t' n howner =>
      obtain rfl : t' = tid := by simpa using hcan
      rw [if_neg ht.symm]
    next howner => rfl
  · exact depth_lock_of_ne hl

theorem depth_unlock_self (hheld : 0 < o.depth tid l) :
    (o.unlock tid l).depth tid l = o.depth tid l - 1 := by
  unfold unlock
  split_ifs with hlast
  · have hnone : depth (update o l none) tid l = 0 := by simp [depth]
    omega
  · simp [depth]

theorem depth_unlock_of_ne (hl : l' ≠ l) : (o.unlock tid l).depth t l' = o.depth t l' := by
  simp [unlock, depth, update_of_ne hl]

theorem depth_unlock_other (ht : t ≠ tid) (hheld : 0 < o.depth tid l) :
    (o.unlock tid l).depth t l' = o.depth t l' := by
  by_cases hl : l' = l
  · subst hl
    have howner : o.depth t l' = 0 := by
      unfold depth at hheld ⊢
      split at hheld
      next t' n howner =>
        split_ifs at hheld with h
        · exact if_neg (h ▸ ht.symm)
        · omega
      next => omega
    rw [howner]
    unfold unlock
    split_ifs with hlast
    · simp [depth]
    · simp [depth, ht.symm]
  · exact depth_unlock_of_ne hl

/-- One for the lock that the frame holds. -/
def held (lock : Option L) (l : L) : ℕ := if lock = some l then 1 else 0

theorem depth_giveBack {old : Option L} (hold : ∀ l, old = some l → 0 < o.depth tid l) (t : ℕ)
    (l : L) : (o.giveBack tid old).depth t l =
      if t = tid then o.depth t l - held old l else o.depth t l := by
  cases old with
  | none => simp [giveBack, held]
  | some l₀ =>
      dsimp only [giveBack]
      split_ifs with ht
      · subst ht
        by_cases hl : l₀ = l
        · subst hl
          simp [held, depth_unlock_self (hold l₀ rfl)]
        · simp [held, hl, depth_unlock_of_ne (Ne.symm hl)]
      · exact depth_unlock_other ht (hold l₀ rfl)

theorem depth_take {new : Option L} (h : o.take tid new = some o') (t : ℕ) (l : L) :
    o'.depth t l = if t = tid then o.depth t l + held new l else o.depth t l := by
  cases new with
  | none =>
      obtain rfl := Option.some.inj h
      simp [held]
  | some l₁ =>
      dsimp only [take] at h
      split_ifs at h with hcan
      obtain rfl := Option.some.inj h
      split_ifs with ht
      · subst ht
        by_cases hl : l₁ = l
        · subst hl
          simp [held, depth_lock_self]
        · simp [held, hl, depth_lock_of_ne (Ne.symm hl)]
      · exact depth_lock_other ht hcan

theorem depth_relock {old new : Option L} (hold : ∀ l, old = some l → 0 < o.depth tid l)
    (h : o.relock tid old new = some o') (t : ℕ) (l : L) :
    o'.depth t l = if t = tid then o.depth t l - held old l + held new l else o.depth t l := by
  unfold relock at h
  split_ifs at h with hsame
  · obtain rfl := Option.some.inj h
    subst hsame
    have hheld : t = tid → held old l ≤ o.depth t l := by
      rintro rfl
      unfold held
      split_ifs with hl
      · exact hold l hl
      · exact Nat.zero_le _
    split_ifs with ht
    · have hle := hheld ht
      omega
    · rfl
  · rw [depth_take h, depth_giveBack hold]
    split_ifs <;> rfl

end Owners

namespace System

variable (sys : System σ ι F R L)

def push (rest : List F) : Move F R → List F
  | .goto frame => frame :: rest
  | .call frame callee => callee :: frame :: rest
  | .ret result =>
      match rest with
      | [] => []
      | caller :: rest => sys.resume caller result :: rest

def held : Move F R → Option L
  | .goto frame => sys.holds frame
  | .call frame _ => sys.holds frame
  | .ret _ => none

def run (s : State σ F) (tid : ℕ) (input : ι) : Option (State σ F) :=
  match s.stack tid with
  | [] => none
  | frame :: rest =>
      (sys.step (Owners.canLock (sys.owner s.shared) tid) input s.shared frame).bind fun r =>
        (Owners.relock (sys.owner s.shared) tid (sys.holds frame) (sys.held r.2)).map fun owners =>
          { shared := sys.setOwner r.1 owners
            stack := update s.stack tid (sys.push rest r.2) }

variable {sys} {s s' : State σ F} {tid : ℕ} {input : ι}

/-- A callee holds nothing yet, a result changes no lock, and the owners can be stored. -/
structure Lawful (sys : System σ ι F R L) : Prop where
  callee : ∀ canLock input s frame s' frame' callee,
    sys.step canLock input s frame = some (s', .call frame' callee) → sys.holds callee = none
  resume : ∀ frame result, sys.holds (sys.resume frame result) = sys.holds frame
  owner_setOwner : ∀ s owners, sys.owner (sys.setOwner s owners) = owners

def holders (sys : System σ ι F R L) (lock : L) (stack : List F) : ℕ :=
  stack.countP fun frame => sys.holds frame = some lock

/-- The owners of the locks are the threads whose frames hold them. -/
def Locked (sys : System σ ι F R L) (s : State σ F) : Prop :=
  ∀ tid lock, Owners.depth (sys.owner s.shared) tid lock = sys.holders lock (s.stack tid)

theorem run_eq_some (h : sys.run s tid input = some s') :
    ∃ frame rest shared move owners, s.stack tid = frame :: rest ∧
      sys.step (Owners.canLock (sys.owner s.shared) tid) input s.shared frame =
        some (shared, move) ∧
      Owners.relock (sys.owner s.shared) tid (sys.holds frame) (sys.held move) = some owners ∧
      s' = { shared := sys.setOwner shared owners
             stack := update s.stack tid (sys.push rest move) } := by
  unfold run at h
  split at h
  next => cases h
  next frame rest hstack =>
    obtain ⟨⟨shared, move⟩, hstep, h⟩ := Option.bind_eq_some_iff.1 h
    obtain ⟨owners, howners, rfl⟩ := Option.map_eq_some_iff.1 h
    exact ⟨frame, rest, shared, move, owners, hstack, hstep, howners, rfl⟩

theorem holders_cons (lock : L) (frame : F) (stack : List F) :
    sys.holders lock (frame :: stack) =
      sys.holders lock stack + Owners.held (sys.holds frame) lock := by
  simp [holders, List.countP_cons, Owners.held]

theorem holders_push (hsys : sys.Lawful) {canLock : L → Bool} {shared shared' : σ} {frame : F}
    {move : Move F R} (hstep : sys.step canLock input shared frame = some (shared', move))
    (lock : L) (rest : List F) :
    sys.holders lock (sys.push rest move) =
      sys.holders lock rest + Owners.held (sys.held move) lock := by
  cases move with
  | goto frame' => exact holders_cons lock frame' rest
  | call frame' callee =>
      rw [push, holders_cons, holders_cons, hsys.callee _ _ _ _ _ _ _ hstep]
      rfl
  | ret result =>
      cases rest with
      | nil => rfl
      | cons caller rest =>
          rw [push, holders_cons, holders_cons, hsys.resume]
          rfl

theorem Locked.run (hsys : sys.Lawful) (h : sys.Locked s) (hrun : sys.run s tid input = some s') :
    sys.Locked s' := by
  obtain ⟨frame, rest, shared, move, owners, hstack, hstep, howners, rfl⟩ := run_eq_some hrun
  intro t lock
  have htop := h tid lock
  rw [hstack, holders_cons] at htop
  have hheld : ∀ l, sys.holds frame = some l → 0 < Owners.depth (sys.owner s.shared) tid l := by
    intro l hl
    rw [h tid l, hstack, holders_cons, hl]
    simp [Owners.held]
  dsimp only
  rw [hsys.owner_setOwner, Owners.depth_relock hheld howners]
  by_cases ht : t = tid
  · subst ht
    rw [if_pos rfl, update_self, holders_push hsys hstep]
    omega
  · rw [if_neg ht, update_of_ne ht]
    exact h t lock

/-- Every frame of the stack and the frames below it satisfy the condition. -/
def Nested (P : F → List F → Prop) : List F → Prop
  | [] => True
  | frame :: rest => P frame rest ∧ Nested P rest

def Settles (P : F → List F → Prop) (rest : List F) : Move F R → Prop
  | .goto frame => P frame rest
  | .call frame callee => P frame rest ∧ P callee (frame :: rest)
  | .ret _ => True

omit [DecidableEq L] in
theorem Nested.push {P : F → List F → Prop}
    (hresume : ∀ frame result rest, P frame rest → P (sys.resume frame result) rest)
    {frame : F} {rest : List F} {move : Move F R} (h : Nested P (frame :: rest))
    (hmove : Settles P rest move) : Nested P (sys.push rest move) := by
  cases move with
  | goto frame' => exact ⟨hmove, h.2⟩
  | call frame' callee => exact ⟨hmove.2, hmove.1, h.2⟩
  | ret result =>
      cases rest with
      | nil => trivial
      | cons caller rest => exact ⟨hresume caller result rest h.2.1, h.2.2⟩

/-- A lock has one owner. -/
theorem Locked.exclusive (h : sys.Locked s) {t t' : ℕ} {lock : L}
    (ht : 0 < sys.holders lock (s.stack t)) (ht' : 0 < sys.holders lock (s.stack t')) : t = t' := by
  rw [← h] at ht ht'
  unfold Owners.depth at ht ht'
  split at ht
  next owner n howner =>
    rw [howner] at ht'
    dsimp only at ht'
    split_ifs at ht ht' with h₁ h₂
    · exact h₁.symm.trans h₂
    all_goals omega
  next => omega

end System

end InferDeck.Threads
