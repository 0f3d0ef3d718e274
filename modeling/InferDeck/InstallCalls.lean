import InferDeck.InstallWorkers

/-!
# Calls keep to the stages

`install` makes its job, starts it, and takes it back when it cannot be started. `resume` starts a
job that is over. No other call may be about the job then.
-/

namespace InferDeck.Gateway.InstallJobs

open Function InferDeck.Foundation InferDeck.Model ModelStore

/-- A call that has not changed the job does not start it yet. -/
theorem Call.not_starts (call : Call) (h : call.resumes = true ∨ call.restarts = true) :
    ¬call.starts = true := by
  cases call with
  | startReap id origin => cases origin <;> simp_all [resumes, restarts, starts]
  | startCheck id origin => cases origin <;> simp_all [resumes, restarts, starts]
  | startJoin id origin previous => rcases h with h | h <;> cases h
  | startSpawn id origin => rcases h with h | h <;> cases h
  | _ => exact fun hstarts => by cases hstarts

theorem Call.not_quantizes (call : Call)
    (h : (call.resumes = true ∨ call.restarts = true) ∨ call.starts = true) {name : String} :
    ¬call.quantizes = some name := by
  cases call with
  | quantizeReap id name => rcases h with (h | h) | h <;> cases h
  | quantizeStart id name => rcases h with (h | h) | h <;> cases h
  | quantizeUndo id name e => rcases h with (h | h) | h <;> cases h
  | _ => exact fun hquantizes => by cases hquantizes

namespace View

variable {v : View} {t k : ℕ} {call call' : Call} {name : String}

theorem Calls.mono {p q : Call → Prop} (h : v.Calls p) (hpq : ∀ call, p call → q call) :
    v.Calls q := fun k call hcall => hpq call (h k call hcall)

theorem Calls.update {p : Call → Prop} {w : View} (h : v.Calls p) {next : Option Call}
    (hcall : w.call = Function.update v.call k next) (hnext : ∀ call, next = some call → p call) :
    w.Calls p := by
  intro k' call hk'
  rw [hcall] at hk'
  by_cases hk : k' = k
  · subst hk
    rw [update_self] at hk'
    exact hnext call hk'
  · rw [update_of_ne hk] at hk'
    exact h k' call hk'

theorem Alone.update {w : View} (h : v.Alone k) {next : Option Call}
    (hcall : w.call = Function.update v.call k next) : w.Alone k := by
  intro k' hk'
  rw [hcall, update_of_ne hk']
  exact h k' hk'

/-- The caller of a call that is alone. -/
theorem Alone.eq (h : v.Alone k) {k' : ℕ} (hcall : v.call k' = some call) : k' = k := by
  by_contra hne
  cases (h k' hne).symm.trans hcall

theorem Leaving.none_of_exited {found : Option ℕ} (h : v.Leaving found)
    (hexited : ∀ t phase, found = some t → v.thread t = some phase → phase = .exited)
    (found' : Option ℕ) : v.Leaving found' := by
  intro t phase hphase
  rcases h t phase hphase with rfl | ⟨rfl, hfound⟩
  · exact .inl rfl
  · cases hexited t _ hfound hphase

/-- When nobody can be found, all have exited. -/
theorem Leaving.others (h : v.Leaving none) {w : View} {phase : Option Phase}
    (hthread : w.thread = Function.update v.thread t phase) : w.OthersExited t := by
  intro t' phase' ht hphase
  rw [hthread, update_of_ne ht] at hphase
  rcases h t' phase' hphase with hexited | ⟨-, hfound⟩
  · exact hexited
  · cases hfound

/-- A worker that has exited is reaped. -/
theorem Stage.reap (h : v.Stage)
    (hexited : ∀ t phase, v.worker = some t → v.thread t = some phase → phase = .exited) :
    Stage { v with worker := none } := by
  cases h with
  | vacant hjob hnamed hthreads hcalls =>
      exact .vacant hjob hnamed (hthreads.none_of_exited hexited none) hcalls
  | starting k call name hjob hnamed hworker hcall hstarts hreserved halone hthreads =>
      exact .starting k call name hjob hnamed rfl hcall hstarts hreserved halone hthreads
  | undoing k id name e hjob hworker hcall halone hthreads =>
      exact .undoing k id name e hjob rfl hcall halone hthreads
  | reserving k call name hjob hnamed hworker hcall hquantizes halone hthreads =>
      exact .reserving k call name hjob hnamed rfl hcall hquantizes halone hthreads
  | running t phase state name hthread hphase hjob hnamed hworker hothers hcalls =>
      obtain rfl := hexited t phase hworker hthread
      rcases hphase with ⟨h, -⟩ | ⟨h, -⟩ <;> cases h
  | quantizing t name hthread hjob hnamed hworker hothers hcalls =>
      cases hexited t _ hworker hthread
  | ended state name hjob hstate hnamed hthreads hcalls =>
      exact .ended state name hjob hstate hnamed (hthreads.none_of_exited hexited none) hcalls

/-- A job that is over is forgotten. -/
theorem Stage.forget (h : v.Stage) {state : JobState} (hjob : v.job = some (state, name))
    (hstate : state.active = false) : Stage { v with job := none } := by
  have hactive : ∀ {state' name'}, v.job = some (state', name') → state'.active = true → False := by
    intro state' name' hjob' hactive
    obtain ⟨rfl, rfl⟩ := Prod.mk.inj (Option.some.inj (hjob.symm.trans hjob'))
    exact Bool.false_ne_true (hstate.symm.trans hactive)
  cases h with
  | vacant hjob' hnamed hthreads hcalls => exact .vacant rfl hnamed hthreads hcalls
  | starting k call name' hjob' => exact (hactive hjob' rfl).elim
  | undoing k id name' e hjob' hworker hcall halone hthreads =>
      rcases hjob' with ⟨hjob', -⟩ | ⟨-, hnamed⟩
      · exact (hactive hjob' rfl).elim
      · exact .undoing k id name' e (.inr ⟨.inl rfl, hnamed⟩) hworker hcall halone hthreads
  | reserving k call name' hjob' => cases hjob'.symm.trans hjob
  | running t phase state' name' hthread hphase hjob' =>
      rcases hphase with ⟨-, rfl⟩ | ⟨-, rfl⟩ <;> exact (hactive hjob' rfl).elim
  | quantizing t name' hthread hjob' => cases hjob'.symm.trans hjob
  | ended state' name' hjob' hstate' hnamed hthreads hcalls =>
      exact .vacant rfl hnamed hthreads (hcalls.mono fun call hcall => hcall.imp_right And.left)

/-- A call goes on that has not changed the job. -/
theorem Stage.go (h : v.Stage) (hcall : v.call k = some call)
    (hgoes : call.resumes = true ∨ call.restarts = true ∨ call.starts = true ∨
      call.quantizes.isSome = true)
    (hresumes : call'.resumes = call.resumes) (hrestarts : call'.restarts = call.restarts)
    (hstarts : call'.starts = call.starts) (hreserved : call'.reserved = call.reserved)
    (hprevious : call'.previous = call.previous) (hquantizes : call'.quantizes = call.quantizes) :
    Stage { v with call := Function.update v.call k (some call') } := by
  have hsame : ∀ {p : Call → Prop}, v.Calls p → (p call → p call') →
      Calls { v with call := Function.update v.call k (some call') } p := fun hcalls hp =>
    hcalls.update rfl fun call'' h => Option.some.inj h ▸ hp (hcalls k call hcall)
  cases h with
  | vacant hjob hnamed hthreads hcalls =>
      exact .vacant hjob hnamed hthreads (hsame hcalls (by rw [hresumes, hrestarts]; exact id))
  | starting k' other name hjob hnamed hworker hother hstarts' hreserved' halone hthreads =>
      obtain rfl := halone.eq hcall
      obtain rfl := Option.some.inj (hcall.symm.trans hother)
      exact .starting k call' name hjob hnamed hworker (update_self ..) (hstarts.trans hstarts')
        (hreserved ▸ hreserved') (halone.update rfl) (hprevious ▸ hthreads)
  | undoing k' id name e hjob hworker hother halone hthreads =>
      obtain rfl := halone.eq hcall
      obtain rfl := Option.some.inj (hcall.symm.trans hother)
      rcases hgoes with hgoes | hgoes | hgoes | hgoes <;> cases hgoes
  | reserving k' other name hjob hnamed hworker hother hquantizes' halone hthreads =>
      obtain rfl := halone.eq hcall
      obtain rfl := Option.some.inj (hcall.symm.trans hother)
      exact .reserving k call' name hjob hnamed hworker (update_self ..)
        (hquantizes.trans hquantizes') (halone.update rfl) hthreads
  | running t phase state name hthread hphase hjob hnamed hworker hothers hcalls =>
      exact .running t phase state name hthread hphase hjob hnamed hworker hothers
        (hsame hcalls (by rw [hresumes]; exact id))
  | quantizing t name hthread hjob hnamed hworker hothers hcalls =>
      exact .quantizing t name hthread hjob hnamed hworker hothers
        (hsame hcalls (by rw [hresumes]; exact id))
  | ended state name hjob hstate hnamed hthreads hcalls =>
      exact .ended state name hjob hstate hnamed hthreads
        (hsame hcalls (by rw [hresumes, hrestarts]; exact id))

/-- A resume is answered that has not changed the job. -/
theorem Stage.answer (h : v.Stage) (hcall : v.call k = some call)
    (hresumes : call.resumes = true ∨ call.restarts = true) :
    Stage { v with call := Function.update v.call k none } := by
  have hless : ∀ {p : Call → Prop}, v.Calls p →
      Calls { v with call := Function.update v.call k none } p :=
    fun hcalls => hcalls.update rfl fun _ h => by cases h
  cases h with
  | vacant hjob hnamed hthreads hcalls => exact .vacant hjob hnamed hthreads (hless hcalls)
  | starting k' other name hjob hnamed hworker hother hstarts hreserved halone hthreads =>
      obtain rfl := halone.eq hcall
      obtain rfl := Option.some.inj (hcall.symm.trans hother)
      exact absurd hstarts (call.not_starts hresumes)
  | undoing k' id name e hjob hworker hother halone hthreads =>
      obtain rfl := halone.eq hcall
      obtain rfl := Option.some.inj (hcall.symm.trans hother)
      rcases hresumes with hresumes | hresumes <;> cases hresumes
  | reserving k' other name hjob hnamed hworker hother hquantizes halone hthreads =>
      obtain rfl := halone.eq hcall
      obtain rfl := Option.some.inj (hcall.symm.trans hother)
      exact absurd hquantizes (call.not_quantizes (.inl hresumes))
  | running t phase state name hthread hphase hjob hnamed hworker hothers hcalls =>
      exact .running t phase state name hthread hphase hjob hnamed hworker hothers (hless hcalls)
  | quantizing t name hthread hjob hnamed hworker hothers hcalls =>
      exact .quantizing t name hthread hjob hnamed hworker hothers (hless hcalls)
  | ended state name hjob hstate hnamed hthreads hcalls =>
      exact .ended state name hjob hstate hnamed hthreads (hless hcalls)

/-- The job is queued again, or for its install's start. -/
theorem Stage.queue (h : v.Stage) {id : ℕ} {origin : Origin} {state : JobState}
    (hcall : v.call k = some (.startCheck id origin)) (halone : v.Alone k)
    (hjob : v.job = some (state, name)) {w : View} (hjob' : w.job = some (.queued, name))
    (hnamed' : ∀ n, w.named n ↔ n = name ∨ v.named n) (hworker' : w.worker = none)
    (hcall' : w.call = Function.update v.call k (some (.startJoin id origin v.worker)))
    (hthread : w.thread = v.thread) : w.Stage := by
  have hstarting : w.Names name → (∀ n, (Call.startCheck id origin).reserved = some n → n = name) →
      v.Leaving v.worker → w.Stage := by
    intro hnames hreserved hleaving
    refine .starting k (.startJoin id origin v.worker) name hjob' hnames hworker' ?_ rfl ?_
      (halone.update hcall') ?_
    · rw [hcall', update_self]
    · cases origin <;> exact hreserved
    · unfold Leaving
      rw [hthread]
      exact hleaving
  cases h with
  | vacant hjob'' => cases hjob.symm.trans hjob''
  | starting k' call name' hjob'' hnamed hworker hother hstarts hreserved halone' hthreads =>
      obtain rfl := halone.eq hother
      obtain rfl := Option.some.inj (hcall.symm.trans hother)
      obtain ⟨rfl, rfl⟩ := Prod.mk.inj (Option.some.inj (hjob.symm.trans hjob''))
      refine hstarting (fun n => ?_) hreserved (hworker ▸ hthreads)
      rw [hnamed' n, hnamed n, or_self]
  | undoing k' id' name' e hjob'' hworker hother =>
      obtain rfl := halone.eq hother
      cases hcall.symm.trans hother
  | reserving k' call name' hjob'' => cases hjob.symm.trans hjob''
  | running t phase state' name' hthread' hphase hjob'' hnamed hworker hothers hcalls =>
      cases hcalls k _ hcall
  | quantizing t name' hthread' hjob'' hnamed hworker hothers hcalls =>
      cases hcalls k _ hcall
  | ended state' name' hjob'' hstate hnamed hthreads hcalls =>
      refine hstarting (fun n => ?_) (fun n hreserved => ?_) hthreads
      · rw [hnamed' n]
        exact or_iff_left (hnamed n)
      · cases origin with
        | install modelName =>
            rcases hcalls k _ hcall with hresumes | ⟨hresumes, -⟩ <;> cases hresumes
        | resume => cases hreserved

/-- The job of a call that starts it. -/
theorem Stage.of_starts (h : v.Stage) (hcall : v.call k = some call)
    (hstarts : call.starts = true) : ∃ name, v.job = some (.queued, name) ∧ v.Names name ∧
      v.worker = none ∧ (∀ n, call.reserved = some n → n = name) ∧ v.Alone k ∧
        v.Leaving call.previous := by
  have hresumes : call.resumes = true ∨ call.restarts = true → False := fun h =>
    call.not_starts h hstarts
  cases h with
  | vacant hjob hnamed hthreads hcalls => exact (hresumes (hcalls k call hcall)).elim
  | starting k' other name hjob hnamed hworker hother hstarts' hreserved halone hthreads =>
      obtain rfl := halone.eq hcall
      obtain rfl := Option.some.inj (hcall.symm.trans hother)
      exact ⟨name, hjob, hnamed, hworker, hreserved, halone, hthreads⟩
  | undoing k' id name e hjob hworker hother halone hthreads =>
      obtain rfl := halone.eq hcall
      obtain rfl := Option.some.inj (hcall.symm.trans hother)
      cases hstarts
  | reserving k' other name hjob hnamed hworker hother hquantizes halone hthreads =>
      obtain rfl := halone.eq hcall
      obtain rfl := Option.some.inj (hcall.symm.trans hother)
      exact absurd hquantizes (call.not_quantizes (.inr hstarts))
  | running t phase state name hthread hphase hjob hnamed hworker hothers hcalls =>
      exact (hresumes (.inl (hcalls k call hcall))).elim
  | quantizing t name hthread hjob hnamed hworker hothers hcalls =>
      exact (hresumes (.inl (hcalls k call hcall))).elim
  | ended state name hjob hstate hnamed hthreads hcalls =>
      exact (hresumes ((hcalls k call hcall).imp_right And.left)).elim

/-- The job of a call that has reserved the name of a quantization. -/
theorem Stage.of_quantizes (h : v.Stage) (hcall : v.call k = some call)
    (hquantizes : call.quantizes = some name) :
    v.job = none ∧ v.Names name ∧ v.worker = none ∧ v.Alone k ∧ v.Leaving none := by
  have hnot : (call.resumes = true ∨ call.restarts = true) ∨ call.starts = true → False := fun h =>
    call.not_quantizes h hquantizes
  cases h with
  | vacant hjob hnamed hthreads hcalls => exact (hnot (.inl (hcalls k call hcall))).elim
  | starting k' other name' hjob hnamed hworker hother hstarts hreserved halone hthreads =>
      obtain rfl := halone.eq hcall
      obtain rfl := Option.some.inj (hcall.symm.trans hother)
      exact (hnot (.inr hstarts)).elim
  | undoing k' id name' e hjob hworker hother halone hthreads =>
      obtain rfl := halone.eq hcall
      obtain rfl := Option.some.inj (hcall.symm.trans hother)
      cases hquantizes
  | reserving k' other name' hjob hnamed hworker hother hquantizes' halone hthreads =>
      obtain rfl := halone.eq hcall
      obtain rfl := Option.some.inj (hcall.symm.trans hother)
      obtain rfl := Option.some.inj (hquantizes.symm.trans hquantizes')
      exact ⟨hjob, hnamed, hworker, halone, hthreads⟩
  | running t phase state name' hthread hphase hjob hnamed hworker hothers hcalls =>
      exact (hnot (.inl (.inl (hcalls k call hcall)))).elim
  | quantizing t name' hthread hjob hnamed hworker hothers hcalls =>
      exact (hnot (.inl (.inl (hcalls k call hcall)))).elim
  | ended state name' hjob hstate hnamed hthreads hcalls =>
      exact (hnot (.inl ((hcalls k call hcall).imp_right And.left))).elim

/-- The job of a call that takes it back. -/
theorem Stage.of_undoes (h : v.Stage) {id : ℕ} {e : Error}
    (hcall : v.call k = some (.installUndo id name e)) :
    (v.job = some (.queued, name) ∧ v.Names name ∨
      (v.job = none ∨ v.job = some (.failed, name)) ∧ v.Unnamed) ∧
        v.worker = none ∧ v.Alone k ∧ v.Leaving none := by
  cases h with
  | vacant hjob hnamed hthreads hcalls =>
      rcases hcalls k _ hcall with hresumes | hresumes <;> cases hresumes
  | starting k' other name' hjob hnamed hworker hother hstarts hreserved halone hthreads =>
      obtain rfl := halone.eq hcall
      obtain rfl := Option.some.inj (hcall.symm.trans hother)
      cases hstarts
  | undoing k' id' name' e' hjob hworker hother halone hthreads =>
      obtain rfl := halone.eq hcall
      cases hcall.symm.trans hother
      exact ⟨hjob, hworker, halone, hthreads⟩
  | reserving k' other name' hjob hnamed hworker hother hquantizes halone hthreads =>
      obtain rfl := halone.eq hcall
      obtain rfl := Option.some.inj (hcall.symm.trans hother)
      cases hquantizes
  | running t phase state name' hthread hphase hjob hnamed hworker hothers hcalls =>
      cases hcalls k _ hcall
  | quantizing t name' hthread hjob hnamed hworker hothers hcalls =>
      cases hcalls k _ hcall
  | ended state name' hjob hstate hnamed hthreads hcalls =>
      rcases hcalls k _ hcall with hresumes | ⟨hresumes, -⟩ <;> cases hresumes

/-- A job that has failed or was cancelled is over, if it is not being taken back. -/
theorem Stage.resume (h : v.Stage) {id : ℕ} {state : JobState}
    (hcall : v.call k = some (.resumeCheck id)) (hjob : v.job = some (state, name))
    (hstate : state = .cancelled ∨ state = .failed) :
    Stage { v with call := Function.update v.call k (some (.startReap id .resume)) } := by
  have hactive : state.active = false := by rcases hstate with rfl | rfl <;> rfl
  cases h with
  | vacant hjob' => cases hjob.symm.trans hjob'
  | starting k' other name' hjob' hnamed hworker hother hstarts hreserved halone hthreads =>
      obtain ⟨rfl, rfl⟩ := Prod.mk.inj (Option.some.inj (hjob.symm.trans hjob'))
      cases hactive
  | undoing k' id' name' e hjob' hworker hother halone hthreads =>
      obtain rfl := halone.eq hcall
      cases hcall.symm.trans hother
  | reserving k' other name' hjob' => cases hjob.symm.trans hjob'
  | running t phase state' name' hthread hphase hjob' =>
      obtain ⟨rfl, rfl⟩ := Prod.mk.inj (Option.some.inj (hjob.symm.trans hjob'))
      rcases hphase with ⟨-, rfl⟩ | ⟨-, rfl⟩ <;> cases hactive
  | quantizing t name' hthread hjob' => cases hjob.symm.trans hjob'
  | ended state' name' hjob' hstate' hnamed hthreads hcalls =>
      obtain ⟨rfl, rfl⟩ := Prod.mk.inj (Option.some.inj (hjob.symm.trans hjob'))
      refine .ended state name hjob hstate' hnamed hthreads (hcalls.update rfl ?_)
      rintro call h
      obtain rfl := Option.some.inj h
      exact .inr ⟨rfl, hstate.symm⟩

/-- A resume is called. -/
theorem Stage.ask (h : v.Stage) (hnone : ∀ k, v.call k = none) (hresumes : call.resumes = true) :
    Stage { v with call := Function.update v.call k (some call) } := by
  have hcalls : ∀ {p : Call → Prop}, v.Calls p → p call →
      Calls { v with call := Function.update v.call k (some call) } p := fun h hp =>
    h.update rfl fun call' hcall' => Option.some.inj hcall' ▸ hp
  cases h with
  | vacant hjob hnamed hthreads hcalls' =>
      exact .vacant hjob hnamed hthreads (hcalls hcalls' (.inl hresumes))
  | starting k' other name hjob hnamed hworker hother => cases (hnone k').symm.trans hother
  | undoing k' id name e hjob hworker hother => cases (hnone k').symm.trans hother
  | reserving k' other name hjob hnamed hworker hother => cases (hnone k').symm.trans hother
  | running t phase state name hthread hphase hjob hnamed hworker hothers hcalls' =>
      exact .running t phase state name hthread hphase hjob hnamed hworker hothers
        (hcalls hcalls' hresumes)
  | quantizing t name hthread hjob hnamed hworker hothers hcalls' =>
      exact .quantizing t name hthread hjob hnamed hworker hothers (hcalls hcalls' hresumes)
  | ended state name hjob hstate hnamed hthreads hcalls' =>
      exact .ended state name hjob hstate hnamed hthreads (hcalls hcalls' (.inl hresumes))

end View

namespace Store

variable {s s' : Store} {id j t k : ℕ} {call call' : Call} {request : InstallRequest} {e : Error}

/-- The job of a call has been made. -/
theorem Staged.called (h : s.Staged) (hcall : s.calls k = some call) (hjob : call.job = some id) :
    id < s.nextId := by
  by_contra hnot
  have hview : (s.view id).call k = some call := call_eq_some.2 ⟨hcall, hjob⟩
  rw [h.unborn id (by omega)] at hview
  cases hview

theorem Staged.alone (h : s.Staged) (hcall : s.calls k = some call) (hjob : call.job = some id) :
    (s.view id).Alone k := by
  intro k' hk
  rw [Option.eq_none_iff_forall_not_mem]
  intro call' hcall'
  obtain ⟨hcalls, hjob'⟩ := call_eq_some.1 hcall'
  exact hk (h.once k' k call' call hcalls hcall (hjob' ▸ rfl) (hjob'.trans hjob.symm))

/-- The call is about no other job. -/
theorem ne_job (hcall : s.calls k = some call) (hjob : call.job = some id) (hj : j ≠ id)
    (call' : Call) (hcall' : s.calls k = some call') : call'.job ≠ some j := by
  obtain rfl := Option.some.inj (hcall.symm.trans hcall')
  exact fun h => hj (Option.some.inj (h.symm.trans hjob))

/-- A step of the call that is about the job. -/
theorem Staged.step (h : s.Staged) (next : Option Call) (hcalls : s'.calls = update s.calls k next)
    (hnext : ∀ call, next = some call → call.job = some j ∧
      ∀ k' call', k' ≠ k → s.calls k' = some call' → call'.job ≠ some j)
    (hother : ∀ id, id ≠ j → s'.view id = s.view id) (hstage : (s'.view j).Stage)
    (hborn : j < s'.nextId) (hnextId : s.nextId ≤ s'.nextId)
    (hthreads : ∀ t worker, s'.threads t = some worker → t < s'.nextThread)
    (halive : s'.terminated = false) : s'.Staged where
  stage id := by
    by_cases hid : id = j
    · exact hid ▸ hstage
    · rw [hother id hid]
      exact h.stage id
  once k₁ k₂ call₁ call₂ h₁ h₂ hsome hjob := by
    rw [hcalls] at h₁ h₂
    by_cases hk₁ : k₁ = k
    · by_cases hk₂ : k₂ = k
      · exact hk₁.trans hk₂.symm
      · rw [hk₁, update_self] at h₁
        rw [update_of_ne hk₂] at h₂
        obtain ⟨hj, hnot⟩ := hnext call₁ h₁
        exact absurd (hjob.symm.trans hj) (hnot k₂ call₂ hk₂ h₂)
    · rw [update_of_ne hk₁] at h₁
      by_cases hk₂ : k₂ = k
      · rw [hk₂, update_self] at h₂
        obtain ⟨hj, hnot⟩ := hnext call₂ h₂
        exact absurd (hjob.trans hj) (hnot k₁ call₁ hk₁ h₁)
      · rw [update_of_ne hk₂] at h₂
        exact h.once k₁ k₂ call₁ call₂ h₁ h₂ hsome hjob
  unborn id hid := by
    rw [hother id (by omega)]
    exact h.unborn id (by omega)
  threads := hthreads
  alive := halive

/-- A call that is about no job. -/
theorem Staged.free (h : s.Staged) {next : Option Call} (hcalls : s'.calls = update s.calls k next)
    (hfree : ∀ call, s.calls k = some call ∨ next = some call → call.job = none)
    (hview : ∀ id, { s.view id with call := (s'.view id).call } = s'.view id)
    (hnextId : s'.nextId = s.nextId) (hthreads : s'.threads = s.threads)
    (hnextThread : s'.nextThread = s.nextThread) (halive : s'.terminated = s.terminated) :
    s'.Staged := by
  have hsame : ∀ id, s'.view id = s.view id := by
    intro id
    have hcall : (s'.view id).call = (s.view id).call := by
      funext k'
      apply Option.ext
      intro call
      rw [call_eq_some, call_eq_some, hcalls]
      by_cases hk : k' = k
      · subst hk
        rw [update_self]
        constructor
        · rintro ⟨hnext, hjob⟩
          cases (hfree call (.inr hnext)).symm.trans hjob
        · rintro ⟨hcall, hjob⟩
          cases (hfree call (.inl hcall)).symm.trans hjob
      · rw [update_of_ne hk]
    rw [← hview id, hcall]
  refine ⟨fun id => hsame id ▸ h.stage id, fun k₁ k₂ call₁ call₂ h₁ h₂ hsome hjob => ?_,
    fun id hid => (hsame id).trans (h.unborn id (hnextId ▸ hid)), fun t worker hworker => ?_,
    halive.trans h.alive⟩
  · rw [hcalls] at h₁ h₂
    have hne : ∀ {k' call'}, update s.calls k next k' = some call' → call'.job ≠ none → k' ≠ k := by
      rintro k' call' hcall' hjob' rfl
      rw [update_self] at hcall'
      exact hjob' (hfree call' (.inr hcall'))
    have hjob₁ : call₁.job ≠ none := Option.isSome_iff_ne_none.1 hsome
    have hk₁ := hne h₁ hjob₁
    have hk₂ := hne h₂ (hjob ▸ hjob₁)
    rw [update_of_ne hk₁] at h₁
    rw [update_of_ne hk₂] at h₂
    exact h.once k₁ k₂ call₁ call₂ h₁ h₂ hsome hjob
  · rw [hthreads] at hworker
    rw [hnextThread]
    exact h.threads t worker hworker

theorem Staged.setFree (h : s.Staged) (hfree : ∀ call, s.calls k = some call → call.job = none)
    (hjob : call'.job = none) : (s.setCall k call').Staged :=
  h.free rfl (fun call hcall => hcall.elim (hfree call) fun hsome => Option.some.inj hsome ▸ hjob)
    (fun _ => rfl) rfl rfl rfl rfl

theorem Staged.answerFree (h : s.Staged) (hfree : ∀ call, s.calls k = some call → call.job = none)
    (result : Result ℕ) : (s.answer k result).Staged :=
  h.free rfl (fun call hcall => hcall.elim (hfree call) fun hsome => by cases hsome)
    (fun _ => rfl) rfl rfl rfl rfl

/-- A call goes on to where it is about the same job. -/
theorem Staged.setCall (h : s.Staged) (hcall : s.calls k = some call) (hjob : call.job = some id)
    (hjob' : call'.job = some id)
    (hstage : View.Stage { s.view id with call := update (s.view id).call k (some call') }) :
    (s.setCall k call').Staged := by
  refine h.step _ (j := id) rfl (fun next hnext => ?_) (fun other hother => ?_) ?_
    (h.called hcall hjob) le_rfl h.threads h.alive
  · obtain rfl := Option.some.inj hnext
    exact ⟨hjob', fun k' other hk hother hother' => hk (h.once k' k other call hother hcall
      (hother' ▸ rfl) (hother'.trans hjob.symm))⟩
  · exact view_setCall_other (ne_job hcall hjob hother)
      (by rw [hjob']; exact fun h => hother (Option.some.inj h).symm)
  · rw [view_setCall_self hjob']
    exact hstage

/-- A call is over that was about the job. -/
theorem Staged.answer (h : s.Staged) (hcall : s.calls k = some call) (hjob : call.job = some id)
    (result : Result ℕ)
    (hstage : View.Stage { s.view id with call := update (s.view id).call k none }) :
    (s.answer k result).Staged := by
  refine h.step none (j := id) rfl (fun next hnext => by cases hnext)
    (fun other hother => ?_) ?_ (h.called hcall hjob) le_rfl h.threads h.alive
  · exact view_answer_other (ne_job hcall hjob hother)
  · rw [view_answer]
    exact hstage

theorem Staged.reap (h : s.Staged) : s.reapCompletedWorkers.Staged := by
  have hview : ∀ id, s.reapCompletedWorkers.view id = { s.view id with
      worker := (s.workers.lookup id).filter fun t => !s.hasExited t } := by
    intro id
    unfold view reapCompletedWorkers
    simp only [Map.lookup_eraseIf]
  refine ⟨fun id => ?_, h.once, fun id hid => ?_, h.threads, h.alive⟩
  · rw [hview id]
    cases hworker : s.workers.lookup id with
    | none =>
        rw [Option.filter_none, ← hworker]
        exact h.stage id
    | some t =>
        cases hexited : s.hasExited t with
        | false =>
            rw [Option.filter_some, hexited, Bool.not_false, if_pos rfl, ← hworker]
            exact h.stage id
        | true =>
            rw [Option.filter_some, hexited, Bool.not_true, if_neg Bool.false_ne_true]
            refine (h.stage id).reap fun t' phase ht' hphase => ?_
            obtain rfl := Option.some.inj (hworker.symm.trans ht')
            obtain ⟨pc, hthread, rfl⟩ := thread_eq_some.1 hphase
            rw [hasExited, hthread] at hexited
            cases pc <;> first | rfl | cases hexited
  · have hempty := h.unborn id hid
    have hworker : s.workers.lookup id = none := congrArg View.worker hempty
    rw [hview id, hempty, hworker]
    rfl

/-- A job is forgotten. -/
theorem Staged.forget (h : s.Staged) {job : StoreDownload}
    (hlookup : s.downloads.lookup j = some job) (hstate : job.state.active = false)
    (cancellations : Map ℕ ℕ) :
    Staged { s with cancellations, downloads := s.downloads.erase j } := by
  have hjob : (s.view j).job = some (job.state, job.modelName) := by
    rw [view, hlookup, Option.map_some]
  have hother : ∀ id, id ≠ j →
      Store.view { s with cancellations, downloads := s.downloads.erase j } id = s.view id := by
    intro id hid
    unfold view
    simp only [AList.lookup_erase_ne hid]
  refine ⟨fun id => ?_, h.once, fun id hid => ?_, h.threads, h.alive⟩
  · by_cases hid : id = j
    · subst hid
      have hself : Store.view { s with cancellations, downloads := s.downloads.erase id } id =
          { s.view id with job := none } := by
        unfold view
        simp only [AList.lookup_erase, Option.map_none]
      rw [hself]
      exact (h.stage id).forget hjob hstate
    · rw [hother id hid]
      exact h.stage id
  · rw [hother id ?_]
    · exact h.unborn id hid
    · rintro rfl
      rw [h.unborn id hid] at hjob
      cases hjob

theorem active_of_terminal {state : JobState} (h : state.terminal = true) :
    state.active = false := by
  cases state <;> first | rfl | cases h

theorem Staged.prune (h : s.Staged) (fuel : ℕ) : (pruneCompletedJobs fuel s).Staged := by
  induction fuel generalizing s with
  | zero => exact h
  | succ fuel ih =>
      rw [pruneCompletedJobs]
      split_ifs
      · exact h
      split
      · exact h
      next oldest holdest =>
        obtain ⟨entry, hentry, rfl⟩ := List.mem_map.1 (List.min?_mem holdest)
        obtain ⟨hmem, hterminal⟩ := List.mem_filter.1 hentry
        exact ih (h.forget (Map.mem_entries_iff.1 hmem) (active_of_terminal hterminal) _)

/-- What `install` finds, and does, when it looks at the store. -/
theorem reserve_spec (request : InstallRequest) :
    let pruned := pruneCompletedJobs s.downloads.entries.length s
    (∃ e, s.reserve request = (.error e, pruned)) ∨
      pruned.downloads.count (fun _ job => job.state.active) < maxActiveInstalls ∧
        pruned.reservedNames.lookup request.modelName = none ∧
        s.reserve request = (.ok pruned.nextId, pruned.addJob request) := by
  dsimp only
  unfold reserve
  generalize pruneCompletedJobs s.downloads.entries.length s = pruned
  dsimp only
  split_ifs with hactive hfull htaken hcollides hinstalled
  · exact .inl ⟨_, rfl⟩
  · exact .inl ⟨_, rfl⟩
  · exact .inl ⟨_, rfl⟩
  · exact .inl ⟨_, rfl⟩
  · exact .inl ⟨_, rfl⟩
  · refine .inr ⟨by omega, ?_, rfl⟩
    rw [Bool.or_eq_true, not_or] at htaken
    exact Option.not_isSome_iff_eq_none.1 htaken.1

theorem startCheck_spec (id : ℕ) : (∃ e, s.startCheck id = (.error e, s)) ∨
    ∃ job, s.downloads.lookup id = some job ∧ job.state ≠ .downloading ∧
      s.downloads.count (fun other job => decide (other ≠ id) && job.state.active) <
        maxActiveInstalls ∧
      (∀ owner, s.reservedNames.lookup job.modelName = some owner → owner = id) ∧
      s.startCheck id = (.ok (s.workers.lookup id), s.queueJob id job) := by
  unfold startCheck
  split
  · exact .inl ⟨_, rfl⟩
  next job hlookup =>
    split_ifs with hrunning hactive hfull hreserved hcollides hinstalled
    · exact .inl ⟨_, rfl⟩
    · exact .inl ⟨_, rfl⟩
    · exact .inl ⟨_, rfl⟩
    · exact .inl ⟨_, rfl⟩
    · exact .inl ⟨_, rfl⟩
    · exact .inl ⟨_, rfl⟩
    · refine .inr ⟨job, hlookup, hrunning, by omega, fun owner howner => ?_, rfl⟩
      rw [howner, Option.elim_some, decide_eq_true_eq, not_not] at hreserved
      exact hreserved

/-- A name that nobody else has reserved. -/
theorem lookup_reserve_iff {name n : String} {reserved : Map String ℕ}
    (hreserved : ∀ owner, reserved.lookup name = some owner → owner = id) :
    (reserved.insert name id).lookup n = some j ↔
      j = id ∧ n = name ∨ reserved.lookup n = some j := by
  rw [Map.lookup_insert_eq_some_iff]
  constructor
  · rintro (⟨rfl, rfl⟩ | ⟨-, hlookup⟩)
    · exact .inl ⟨rfl, rfl⟩
    · exact .inr hlookup
  · rintro (⟨rfl, rfl⟩ | hlookup)
    · exact .inl ⟨rfl, rfl⟩
    · by_cases hn : n = name
      · subst hn
        exact .inl ⟨rfl, (hreserved j hlookup).symm⟩
      · exact .inr ⟨hn, hlookup⟩

theorem Staged.add (h : s.Staged) (hfree : ∀ call, s.calls k = some call → call.job = none)
    (hreserved : s.reservedNames.lookup request.modelName = none) :
    ((s.addJob request).setCall k (.startReap s.nextId (.install request.modelName))).Staged := by
  have hempty := h.unborn s.nextId le_rfl
  have hnames : ∀ n j, (s.addJob request).reservedNames.lookup n = some j ↔
      j = s.nextId ∧ n = request.modelName ∨ s.reservedNames.lookup n = some j := fun n j =>
    lookup_reserve_iff fun owner howner => by cases hreserved.symm.trans howner
  refine h.step _ (j := s.nextId) rfl (fun next hnext => ?_) (fun other hother => ?_) ?_
    (Nat.lt_succ_self _) (Nat.le_succ _) h.threads h.alive
  · obtain rfl := Option.some.inj hnext
    refine ⟨rfl, fun k' call _ hcall hjob => ?_⟩
    exact absurd (h.called hcall hjob) (Nat.lt_irrefl _)
  · have hview : (s.addJob request).view other = s.view other := by
      unfold view
      simp only [hnames, hother, false_and, false_or]
      simp only [addJob, AList.lookup_insert_ne hother]
    rw [← hview]
    refine view_setCall_other (s := s.addJob request) (fun call hcall => ?_)
      fun h => hother (Option.some.inj h).symm
    rw [hfree call hcall]
    exact fun h => by cases h
  · have hview : (s.addJob request).view s.nextId =
        { job := some (.queued, request.modelName)
          named := fun n => n = request.modelName
          worker := none
          call := fun _ => none
          thread := fun _ => none } := by
      have hnamed : ∀ n, ¬s.reservedNames.lookup n = some s.nextId := fun n hn =>
        cast (congrFun (congrArg View.named hempty) n) hn
      have hworker : s.workers.lookup s.nextId = none := congrArg View.worker hempty
      have hcall : (s.view s.nextId).call = fun _ => none := congrArg View.call hempty
      have hthread : (s.view s.nextId).thread = fun _ => none := congrArg View.thread hempty
      rw [← hcall, ← hthread]
      unfold view
      simp only [hnames, hnamed, true_and, or_false]
      simp only [addJob, AList.lookup_insert, Option.map_some, newJob, hworker]
    rw [view_setCall_self rfl, hview]
    exact .starting k _ request.modelName rfl (fun _ => Iff.rfl) rfl (update_self ..) rfl
      (fun n hn => (Option.some.inj hn).symm) (fun k' hk' => update_of_ne hk' ..)
      (fun t phase hphase => by cases hphase)

theorem Staged.queue (h : s.Staged) {origin : Origin} {job : StoreDownload}
    (hcall : s.calls k = some (.startCheck id origin)) (hlookup : s.downloads.lookup id = some job)
    (hreserved : ∀ owner, s.reservedNames.lookup job.modelName = some owner → owner = id) :
    ((s.queueJob id job).setCall k (.startJoin id origin (s.workers.lookup id))).Staged := by
  have hnames : ∀ n j, (s.queueJob id job).reservedNames.lookup n = some j ↔
      j = id ∧ n = job.modelName ∨ s.reservedNames.lookup n = some j := fun n j =>
    lookup_reserve_iff hreserved
  have hjob : (s.view id).job = some (job.state, job.modelName) := by
    rw [view, hlookup, Option.map_some]
  refine h.step _ (j := id) rfl (fun next hnext => ?_) (fun other hother => ?_) ?_
    (h.called hcall rfl) le_rfl h.threads h.alive
  · obtain rfl := Option.some.inj hnext
    exact ⟨rfl, fun k' other hk hother hother' => hk (h.once k' k other _ hother hcall
      (hother' ▸ rfl) hother')⟩
  · have hview : (s.queueJob id job).view other = s.view other := by
      unfold view
      simp only [hnames, hother, false_and, false_or]
      simp only [queueJob, AList.lookup_insert_ne hother, AList.lookup_erase_ne hother]
    rw [← hview]
    exact view_setCall_other (s := s.queueJob id job) (ne_job hcall rfl hother)
      fun h => hother (Option.some.inj h).symm
  · rw [view_setCall_self rfl]
    refine (h.stage id).queue (call_eq_some.2 ⟨hcall, rfl⟩) (h.alone hcall rfl) hjob ?_
      (fun n => ?_) ?_ rfl rfl
    · simp only [view, queueJob, AList.lookup_insert, Option.map_some]
    · simp only [view, hnames, true_and]
    · simp only [view, queueJob, AList.lookup_erase]

/-- A start that cannot go on has changed nothing. -/
theorem Staged.reject (h : s.Staged) {origin : Origin}
    (hcall : s.calls k = some (.startCheck id origin)) (e : Error) :
    (s.startFails k id origin e).Staged := by
  have hview : (s.view id).call k = some (.startCheck id origin) := call_eq_some.2 ⟨hcall, rfl⟩
  cases origin with
  | resume => exact h.answer hcall rfl _ ((h.stage id).answer hview (.inr rfl))
  | install modelName =>
      obtain ⟨name, hjob, hnamed, hworker, hreserved, halone, hthreads⟩ :=
        (h.stage id).of_starts hview rfl
      obtain rfl := hreserved modelName rfl
      exact h.setCall hcall rfl rfl (.undoing k id modelName e (.inl ⟨hjob, hnamed⟩) hworker
        (update_self ..) (halone.update rfl) hthreads)

/-- The thread of the last start has been joined. -/
theorem Staged.join (h : s.Staged) {origin : Origin} {previous : Option ℕ}
    (hcall : s.calls k = some (.startJoin id origin previous))
    (hexited : previous.all s.hasExited = true) : (s.setCall k (.startSpawn id origin)).Staged := by
  have hview : (s.view id).call k = some (.startJoin id origin previous) :=
    call_eq_some.2 ⟨hcall, rfl⟩
  obtain ⟨name, hjob, hnamed, hworker, hreserved, halone, hthreads⟩ :=
    (h.stage id).of_starts hview rfl
  refine h.setCall hcall rfl rfl (.starting k _ name hjob hnamed hworker (update_self ..) rfl ?_
    (halone.update rfl) (hthreads.none_of_exited (fun t phase ht hphase => ?_) none))
  · cases origin <;> exact hreserved
  · obtain rfl : previous = some t := ht
    obtain ⟨pc, hthread, rfl⟩ := thread_eq_some.1 hphase
    rw [Option.all_some, hasExited, hthread] at hexited
    cases pc <;> first | rfl | cases hexited

theorem pruneCompletedJobs_calls (fuel : ℕ) (s : Store) :
    (pruneCompletedJobs fuel s).calls = s.calls := by
  induction fuel generalizing s with
  | zero => rfl
  | succ fuel ih =>
      rw [pruneCompletedJobs]
      split_ifs
      · rfl
      split
      · rfl
      next oldest holdest => exact ih _

theorem resumeCheck_ok {id : ℕ} (h : s.resumeCheck id = .ok ()) :
    ∃ job, s.downloads.lookup id = some job ∧ (job.state = .cancelled ∨ job.state = .failed) := by
  unfold resumeCheck at h
  split at h
  · cases h
  next job hlookup =>
    split_ifs at h with hstate
    · cases h
    · exact ⟨job, hlookup, by tauto⟩

theorem calls_after {v : View} (halone : v.Alone k) : ∀ k', update v.call k none k' = none := by
  intro k'
  by_cases hk : k' = k
  · rw [hk, update_self]
  · rw [update_of_ne hk]
    exact halone k' hk

theorem Staged.unused (h : s.Staged) (worker : Worker) :
    ¬s.threads s.nextThread = some worker := fun hworker =>
  absurd (h.threads _ worker hworker) (Nat.lt_irrefl _)

theorem view_spawn_self (pc : WorkerPc) : (s.spawn id pc).view id = { s.view id with
    worker := some s.nextThread
    thread := update (s.view id).thread s.nextThread (some pc.phase) } := by
  refine (view_goto (s := { s with workers := s.workers.insert id s.nextThread })
    s.nextThread ⟨id, pc⟩).trans ?_
  rw [if_pos rfl]
  unfold view
  simp only [AList.lookup_insert]

theorem Staged.view_spawn_other (h : s.Staged) (pc : WorkerPc) (hj : j ≠ id) :
    (s.spawn id pc).view j = s.view j := by
  refine (view_goto_other (s := { s with workers := s.workers.insert id s.nextThread })
    ⟨id, pc⟩ (fun worker hworker => absurd hworker (h.unused worker)) (Ne.symm hj)).trans ?_
  unfold view
  simp only [AList.lookup_insert_ne hj]

/-- A thread has come about for the job, and its call is over. -/
theorem Staged.spawned (h : s.Staged) {pc : WorkerPc} (hcall : s.calls k = some call)
    (hjob : call.job = some id) (hstage : View.Stage { s.view id with
      worker := some s.nextThread
      call := update (s.view id).call k none
      thread := update (s.view id).thread s.nextThread (some pc.phase) }) :
    ((s.spawn id pc).answer k (.ok id)).Staged := by
  refine h.step none (j := id) rfl (fun next hnext => by cases hnext) (fun other hne => ?_) ?_
    (h.called hcall hjob) le_rfl (fun t worker hworker => ?_) h.alive
  · exact (view_answer_other (s := s.spawn id pc) (ne_job hcall hjob hne)).trans
      (h.view_spawn_other pc hne)
  · rw [view_answer, view_spawn_self]
    exact hstage
  · by_cases ht : t = s.nextThread
    · rw [ht]
      exact Nat.lt_succ_self _
    · exact Nat.lt_succ_of_lt (h.threads t worker ((update_of_ne ht _ _).symm.trans hworker))

/-- The job has got its worker. -/
theorem Staged.spawn (h : s.Staged) {origin : Origin}
    (hcall : s.calls k = some (.startSpawn id origin)) :
    ((s.spawn id .begin).answer k (.ok id)).Staged := by
  have hview : (s.view id).call k = some (.startSpawn id origin) := call_eq_some.2 ⟨hcall, rfl⟩
  obtain ⟨name, hjob, hnamed, -, -, halone, hthreads⟩ := (h.stage id).of_starts hview rfl
  exact h.spawned hcall rfl (.running s.nextThread .begun .queued name (update_self ..)
    (.inl ⟨rfl, rfl⟩) hjob hnamed rfl (hthreads.others rfl) fun k' call hk' => by
      cases (calls_after halone k').symm.trans hk')

/-- The job has got no worker. -/
theorem Staged.unspawned (h : s.Staged) {origin : Origin} {job : StoreDownload} {what : String}
    (hcall : s.calls k = some (.startSpawn id origin)) (hlookup : s.downloads.lookup id = some job)
    (e : Error) : ((s.failStart id job what).startFails k id origin e).Staged := by
  have hview : (s.view id).call k = some (.startSpawn id origin) := call_eq_some.2 ⟨hcall, rfl⟩
  obtain ⟨name, hjob, hnamed, hworker, hreserved, halone, hthreads⟩ :=
    (h.stage id).of_starts hview rfl
  obtain ⟨job', hlookup', hkey⟩ := Option.map_eq_some_iff.1 hjob
  obtain rfl := Option.some.inj (hlookup.symm.trans hlookup')
  obtain ⟨hqueued, rfl⟩ := Prod.mk.inj hkey
  have hother : ∀ other, other ≠ id → (s.failStart id job what).view other = s.view other := by
    intro other hother
    unfold view failStart
    simp only [AList.lookup_insert_ne hother, releaseName_eq_some_iff, hother, and_false,
      not_false_eq_true, and_true]
  have hself : (s.failStart id job what).view id = { s.view id with
      job := some (.failed, job.modelName)
      named := fun _ => False } := by
    unfold view failStart
    simp only [AList.lookup_insert, Option.map_some, releaseName_eq_some_iff, View.mk.injEq,
      true_and, and_true]
    exact funext fun n => propext ⟨fun hn => hn.2 ((hnamed n).1 hn.1), False.elim⟩
  cases origin with
  | resume =>
      refine h.step none (j := id) rfl (fun next hnext => by cases hnext)
        (fun other hne => ?_) ?_ (h.called hcall rfl) le_rfl h.threads h.alive
      · exact (view_answer_other (s := s.failStart id job what) (ne_job hcall rfl hne)).trans
          (hother other hne)
      · rw [startFails, view_answer, hself]
        refine .ended .failed job.modelName rfl rfl (fun _ hn => hn) ?_ fun k' call hk' => ?_
        · exact hthreads.none_of_exited (fun t phase hfound => by cases hfound) _
        · cases (calls_after halone k').symm.trans hk'
  | install modelName =>
      obtain rfl := hreserved modelName rfl
      refine h.step (some (.installUndo id job.modelName e)) (j := id) rfl
        (fun next hnext => ?_) (fun other hne => ?_) ?_ (h.called hcall rfl) le_rfl h.threads
        h.alive
      · obtain rfl := Option.some.inj hnext
        exact ⟨rfl, fun k' other hk hother' hjob' => hk (h.once k' k other _ hother' hcall
          (hjob' ▸ rfl) hjob')⟩
      · have hjob' : (Call.installUndo id job.modelName e).job ≠ some other := fun h =>
          hne (Option.some.inj h).symm
        exact (view_setCall_other (s := s.failStart id job what) (ne_job hcall rfl hne)
          hjob').trans (hother other hne)
      · rw [startFails, view_setCall_self rfl, hself]
        exact .undoing k id job.modelName e (.inr ⟨.inr rfl, fun _ hn => hn⟩) hworker
          (update_self ..) (halone.update rfl) hthreads

/-- The job is taken back. -/
theorem Staged.undo (h : s.Staged) {modelName : String} {e : Error}
    (hcall : s.calls k = some (.installUndo id modelName e)) :
    ((s.undoInstall id modelName).answer k (.error e)).Staged := by
  have hview : (s.view id).call k = some (.installUndo id modelName e) :=
    call_eq_some.2 ⟨hcall, rfl⟩
  obtain ⟨hnamed, hworker, halone, hthreads⟩ := (h.stage id).of_undoes hview
  have hother : ∀ other, other ≠ id →
      (s.undoInstall id modelName).view other = s.view other := by
    intro other hother
    unfold view undoInstall
    simp only [AList.lookup_erase_ne hother, releaseName_eq_some_iff, hother, and_false,
      not_false_eq_true, and_true]
  have hself : (s.undoInstall id modelName).view id = { s.view id with
      job := none
      named := fun _ => False } := by
    unfold view undoInstall
    simp only [AList.lookup_erase, Option.map_none, releaseName_eq_some_iff, View.mk.injEq,
      true_and, and_true]
    refine funext fun n => propext ⟨fun hn => hn.2 ?_, False.elim⟩
    rcases hnamed with ⟨-, hnamed⟩ | ⟨-, hnamed⟩
    · exact (hnamed n).1 hn.1
    · exact absurd hn.1 (hnamed n)
  refine h.step none (j := id) rfl (fun next hnext => by cases hnext)
    (fun other hne => ?_) ?_ (h.called hcall rfl) le_rfl h.threads h.alive
  · exact (view_answer_other (s := s.undoInstall id modelName) (ne_job hcall rfl hne)).trans
      (hother other hne)
  · rw [view_answer, hself]
    refine .vacant rfl (fun _ hn => hn) ?_ fun k' call hk' => ?_
    · exact hthreads.none_of_exited (fun t phase hfound => by cases hfound) _
    · cases (calls_after halone k').symm.trans hk'

/-- A name is reserved for a quantization. -/
theorem Staged.quantize (h : s.Staged) {name : String}
    (hfree : ∀ call, s.calls k = some call → call.job = none)
    (hreserved : s.reservedNames.lookup name = none) :
    ((s.addQuantization name).setCall k (.quantizeReap s.nextId name)).Staged := by
  have hempty := h.unborn s.nextId le_rfl
  have hnames : ∀ n j, (s.addQuantization name).reservedNames.lookup n = some j ↔
      j = s.nextId ∧ n = name ∨ s.reservedNames.lookup n = some j := fun n j =>
    lookup_reserve_iff fun owner howner => by cases hreserved.symm.trans howner
  have hview : ∀ id, (s.addQuantization name).view id = { s.view id with
      named := fun n => id = s.nextId ∧ n = name ∨ s.reservedNames.lookup n = some id } := by
    intro id
    unfold view
    simp only [hnames]
    rfl
  refine h.step _ (j := s.nextId) rfl (fun next hnext => ?_) (fun other hother => ?_) ?_
    (Nat.lt_succ_self _) (Nat.le_succ _) h.threads h.alive
  · obtain rfl := Option.some.inj hnext
    refine ⟨rfl, fun k' call _ hcall hjob => ?_⟩
    exact absurd (h.called hcall hjob) (Nat.lt_irrefl _)
  · have hjob : (Call.quantizeReap s.nextId name).job ≠ some other := fun h =>
      hother (Option.some.inj h).symm
    refine (view_setCall_other (s := s.addQuantization name) (fun call hcall => ?_) hjob).trans ?_
    · rw [hfree call hcall]
      exact fun h => by cases h
    · rw [hview other]
      simp only [hother, false_and, false_or]
      rfl
  · have hnamed : ∀ n, ¬s.reservedNames.lookup n = some s.nextId := fun n hn =>
      cast (congrFun (congrArg View.named hempty) n) hn
    rw [view_setCall_self rfl, hview, hempty]
    simp only [hnamed, true_and, or_false]
    exact .reserving k _ name rfl (fun _ => Iff.rfl) rfl (update_self ..) rfl
      (fun k' hk' => update_of_ne hk' ..) fun t phase hphase => by cases hphase

/-- The quantization has got its thread. -/
theorem Staged.spawnQuantization (h : s.Staged) {name : String}
    (hcall : s.calls k = some (.quantizeStart id name)) :
    ((s.spawn id (.quantizing name)).answer k (.ok id)).Staged := by
  have hview : (s.view id).call k = some (.quantizeStart id name) := call_eq_some.2 ⟨hcall, rfl⟩
  obtain ⟨hjob, hnamed, -, halone, hthreads⟩ := (h.stage id).of_quantizes hview rfl
  exact h.spawned hcall rfl (.quantizing s.nextThread name (update_self ..) hjob hnamed rfl
    (hthreads.others rfl) fun k' call hk' => by cases (calls_after halone k').symm.trans hk')

/-- The quantization gives back the name that it still has. -/
theorem Staged.dropName (h : s.Staged) {name : String} {e : Error}
    (hcall : s.calls k = some (.quantizeUndo id name e)) :
    ((s.dropName name).answer k (.error e)).Staged := by
  have hview : (s.view id).call k = some (.quantizeUndo id name e) := call_eq_some.2 ⟨hcall, rfl⟩
  obtain ⟨hjob, hnamed, hworker, halone, hthreads⟩ := (h.stage id).of_quantizes hview rfl
  have howner : s.reservedNames.lookup name = some id := (hnamed name).2 rfl
  have hnames : ∀ n j, (s.dropName name).reservedNames.lookup n = some j ↔
      s.reservedNames.lookup n = some j ∧ j ≠ id := by
    intro n j
    refine Map.lookup_erase_eq_some_iff.trans ⟨?_, ?_⟩
    · rintro ⟨hne, hlookup⟩
      refine ⟨hlookup, ?_⟩
      rintro rfl
      exact hne ((hnamed n).1 hlookup)
    · rintro ⟨hlookup, hne⟩
      refine ⟨?_, hlookup⟩
      rintro rfl
      exact hne (Option.some.inj (hlookup.symm.trans howner))
  have hview' : ∀ j, (s.dropName name).view j = { s.view j with
      named := fun n => s.reservedNames.lookup n = some j ∧ j ≠ id } := by
    intro j
    unfold view
    simp only [hnames]
    rfl
  refine h.step none (j := id) rfl (fun next hnext => by cases hnext) (fun other hne => ?_) ?_
    (h.called hcall rfl) le_rfl h.threads h.alive
  · refine (view_answer_other (s := s.dropName name) (ne_job hcall rfl hne)).trans ?_
    rw [hview' other]
    simp only [hne, ne_eq, not_false_eq_true, and_true]
    rfl
  · rw [view_answer, hview' id]
    refine .vacant hjob (fun _ hn => hn.2 rfl) ?_ fun k' call hk' => ?_
    · exact hthreads.none_of_exited (fun t phase hfound => by cases hfound) _
    · cases (calls_after halone k').symm.trans hk'

/-- A section of a call. -/
theorem Staged.callStep (h : s.Staged) (hcall : s.calls k = some call) {failure : Option String}
    (hspawn : ∀ id name, call = .quantizeStart id name → failure = none) :
    Gives (s.callStep k call failure) Staged := by
  have hview : ∀ {id}, call.job = some id → (s.view id).call k = some call := fun hjob =>
    call_eq_some.2 ⟨hcall, hjob⟩
  have hfree : call.job = none → ∀ call', s.calls k = some call' → call'.job = none := by
    rintro hjob call' hcall'
    obtain rfl := Option.some.inj (hcall.symm.trans hcall')
    exact hjob
  cases call with
  | installReap request =>
      rw [Store.callStep, gives_some]
      exact h.reap.setFree (hfree rfl) rfl
  | installReserve request =>
      have hpruned := h.prune s.downloads.entries.length
      have hcalls := pruneCompletedJobs_calls s.downloads.entries.length s
      rw [Store.callStep]
      rcases reserve_spec (s := s) request with ⟨e, hspec⟩ | ⟨-, hreserved, hspec⟩
      · rw [hspec, gives_some]
        exact hpruned.answerFree (hcalls ▸ hfree rfl) _
      · rw [hspec, gives_some]
        exact hpruned.add (hcalls ▸ hfree rfl) hreserved
  | startReap id origin =>
      rw [Store.callStep, gives_some]
      refine h.reap.setCall hcall rfl rfl ?_
      refine (h.reap.stage id).go (hview rfl) ?_ ?_ ?_ ?_ ?_ rfl rfl
      · cases origin
        · exact .inr (.inr (.inl rfl))
        · exact .inr (.inl rfl)
      all_goals cases origin <;> rfl
  | startCheck id origin =>
      rw [Store.callStep]
      rcases startCheck_spec (s := s) id with ⟨e, hspec⟩ | ⟨job, hlookup, -, -, hreserved, hspec⟩
      · rw [hspec, gives_some]
        exact h.reject hcall e
      · rw [hspec, gives_some]
        exact h.queue hcall hlookup hreserved
  | startJoin id origin previous =>
      rw [Store.callStep, gives_ite, gives_some]
      exact ⟨fun hexited => h.join hcall hexited, fun _ => gives_none⟩
  | startSpawn id origin =>
      obtain ⟨name, hjob, -, hworker, -⟩ := (h.stage id).of_starts (hview rfl) rfl
      obtain ⟨job, hlookup, -⟩ := Option.map_eq_some_iff.1 hjob
      have hnone : s.workers.lookup id = none := hworker
      rw [Store.callStep]
      cases failure with
      | none =>
          rw [startSpawn, gives_some, Map.contains, hnone, Option.isSome_none,
            if_neg Bool.false_ne_true]
          exact h.spawn hcall
      | some what =>
          rw [startSpawn, hlookup, Option.elim_some, err, gives_some]
          exact h.unspawned hcall hlookup _
  | installUndo id modelName e =>
      rw [Store.callStep, gives_some]
      exact h.undo hcall
  | resumeReap id =>
      rw [Store.callStep, gives_some]
      refine h.reap.setCall hcall rfl rfl ?_
      exact (h.reap.stage id).go (hview rfl) (.inl rfl) rfl rfl rfl rfl rfl rfl
  | resumeCheck id =>
      rw [Store.callStep]
      cases hcheck : s.resumeCheck id with
      | error e =>
          rw [gives_some]
          exact h.answer hcall rfl _ ((h.stage id).answer (hview rfl) (.inl rfl))
      | ok =>
          rw [gives_some]
          obtain ⟨job, hlookup, hstate⟩ := resumeCheck_ok hcheck
          have hjob : (s.view id).job = some (job.state, job.modelName) := by
            rw [view, hlookup, Option.map_some]
          exact h.setCall hcall rfl rfl ((h.stage id).resume (hview rfl) hjob hstate)
  | quantizeReserve source name =>
      rw [Store.callStep, gives_ite, gives_ite, gives_ite, gives_some, gives_some, gives_some,
        gives_some]
      refine ⟨fun _ => h.answerFree (hfree rfl) _, fun _ => ⟨fun _ => h.answerFree (hfree rfl) _,
        fun _ => ⟨fun _ => h.answerFree (hfree rfl) _, fun hname => ?_⟩⟩⟩
      rw [Bool.or_eq_true, not_or] at hname
      exact h.quantize (hfree rfl) (Option.not_isSome_iff_eq_none.1 hname.1)
  | quantizeReap id name =>
      rw [Store.callStep, gives_some]
      refine h.reap.setCall hcall rfl rfl ?_
      exact (h.reap.stage id).go (hview rfl) (.inr (.inr (.inr rfl))) rfl rfl rfl rfl rfl rfl
  | quantizeStart id name =>
      obtain rfl := hspawn id name rfl
      rw [Store.callStep, gives_ite, gives_ite, gives_some, gives_some, gives_some]
      refine ⟨fun _ => ?_, fun _ => ⟨fun _ => ?_, fun _ => h.spawnQuantization hcall⟩⟩
      · exact h.setCall hcall rfl rfl ((h.stage id).go (hview rfl) (.inr (.inr (.inr rfl))) rfl rfl
          rfl rfl rfl rfl)
      · exact h.setCall hcall rfl rfl ((h.stage id).go (hview rfl) (.inr (.inr (.inr rfl))) rfl rfl
          rfl rfl rfl rfl)
  | quantizeUndo id name e =>
      rw [Store.callStep, gives_some]
      exact h.dropName hcall

theorem Staged.ask (h : s.Staged) (hcall : s.calls k = none) (hid : id < s.nextId)
    (hnone : ∀ k call, s.calls k = some call → call.job ≠ some id) :
    (s.setCall k (.resumeReap id)).Staged := by
  have hfree : ∀ other call, s.calls k = some call → call.job ≠ some other := fun other call h => by
    cases hcall.symm.trans h
  refine h.step (some (.resumeReap id)) (j := id) rfl (fun next hnext => ?_)
    (fun other hne => ?_) ?_ hid le_rfl h.threads h.alive
  · obtain rfl := Option.some.inj hnext
    exact ⟨rfl, fun k' call _ hcall' => hnone k' call hcall'⟩
  · exact view_setCall_other (hfree other) fun h => hne (Option.some.inj h).symm
  · rw [view_setCall_self rfl]
    exact (h.stage id).ask (fun k' => call_eq_none (hnone k')) rfl

/-- A step of a worker that finds its job and its flag. -/
theorem Staged.work (h : s.Staged) {pc : WorkerPc} {seen : Seen}
    (hthread : s.threads t = some ⟨id, pc⟩) (hchecked : s.Checked id pc)
    (hflag : (s.downloads.lookup id).isSome = true → (s.cancellations.lookup id).isSome = true) :
    Gives (s.workStep t id pc seen) Staged := by
  intro s' hstep
  have hphase : (s.view id).thread t = some pc.phase := thread_eq_some.2 ⟨pc, hthread, rfl⟩
  have hworking : pc.phase = .working → s'.Staged := fun hworking =>
    h.advance hthread hworking hchecked (workStep_advances hworking s' hstep)
  cases pc with
  | begin =>
      obtain ⟨state, name, -, hjob, -⟩ := (h.stage id).of_working hphase (.inl rfl)
      obtain ⟨job, hlookup, -⟩ := Option.map_eq_some_iff.1 hjob
      obtain ⟨flag, hcancelled⟩ := Option.isSome_iff_exists.1 (hflag (hlookup ▸ rfl))
      simp only [workStep, hlookup, hcancelled, Option.some.injEq] at hstep
      rw [← hstep]
      refine h.begin hthread hlookup ?_
      split_ifs <;> rfl
  | quantizing name =>
      obtain rfl := Option.some.inj hstep
      exact h.quantized hthread
  | leaving =>
      obtain rfl := Option.some.inj hstep
      exact h.exit hthread
  | exited => cases hstep
  | _ => exact hworking rfl

/-- A resume is called when no other call is about the job, and a quantization gets its thread. -/
def MayAct (s : Store) : Action → Prop
  | .resume _ id => id < s.nextId ∧ ∀ k call, s.calls k = some call → call.job ≠ some id
  | .call k failure => ∀ id name, s.calls k = some (.quantizeStart id name) → failure = none
  | _ => True

theorem view_cancel (id : ℕ) : (s.cancel id).2.view j = s.view j ∧ SameCalls s (s.cancel id).2 ∧
    (s.cancel id).2.threads = s.threads := by
  unfold cancel
  split
  · exact ⟨rfl, .refl, rfl⟩
  split_ifs
  · exact ⟨rfl, .refl, rfl⟩
  split
  · exact ⟨rfl, .refl, rfl⟩
  split_ifs
  · exact ⟨rfl, .refl, rfl⟩
  · exact ⟨rfl, ⟨rfl, rfl, rfl, rfl⟩, rfl⟩

/-- Every step keeps the jobs to their stages. -/
theorem Staged.next (h : s.Staged) {action : Action} (hmay : s.MayAct action)
    (hchecked : ∀ t worker, s.threads t = some worker → s.Checked worker.id worker.pc)
    (hflags : ∀ id, (s.downloads.lookup id).isSome = true →
      (s.cancellations.lookup id).isSome = true) : Gives (s.next action) Staged := by
  unfold Store.next
  rw [h.alive, if_neg Bool.false_ne_true]
  have hfree : ∀ {caller}, ¬(s.calls caller).isSome = true → s.calls caller = none := fun h =>
    Option.not_isSome_iff_eq_none.1 h
  have hnone : ∀ {caller}, s.calls caller = none →
      ∀ call, s.calls caller = some call → call.job = none := fun hcaller call hcall => by
    cases hcaller.symm.trans hcall
  cases action with
  | install caller repo filename runtime modelName resolved available =>
      refine gives_ite.2 ⟨fun _ => gives_none, fun hcaller => ?_⟩
      split
      · exact gives_some.2 (h.answerFree (hnone (hfree hcaller)) _)
      · exact gives_some.2 (h.setFree (hnone (hfree hcaller)) rfl)
  | resume caller id =>
      exact gives_ite.2 ⟨fun _ => gives_none, fun hcaller =>
        gives_some.2 (h.ask (hfree hcaller) hmay.1 hmay.2)⟩
  | cancel id =>
      obtain ⟨hsame, hthreads⟩ := (view_cancel (s := s) (j := 0) id).2
      exact gives_some.2 (h.congr hsame (fun other => (view_cancel id).1) (hthreads ▸ h.threads))
  | call caller failure =>
      dsimp only
      cases hcall : s.calls caller with
      | none => exact gives_none
      | some call =>
          exact h.callStep hcall fun id name hstart => hmay id name (hstart ▸ hcall)
  | work t seen =>
      dsimp only
      cases hthread : s.threads t with
      | none => exact gives_none
      | some worker => exact h.work hthread (hchecked t worker hthread) (hflags worker.id)
  | quantize caller source name =>
      exact gives_ite.2 ⟨fun _ => gives_none, fun hcaller =>
        gives_some.2 (h.setFree (hnone (hfree hcaller)) rfl)⟩
  | elsewhere installed registry =>
      exact gives_some.2 (h.congr ⟨rfl, rfl, rfl, h.alive.symm⟩ (fun _ => rfl) h.threads)

end Store

end InferDeck.Gateway.InstallJobs
