import AuroraVoice.Instances

namespace AuroraVoice

inductive CallKind
  | initModel
  | switchModel
  | dispose
  | tick
  | instant
  deriving DecidableEq

def Caller.kind : Caller → CallKind
  | .direct => .initModel
  | .switchModel => .switchModel

def Cont.kind : Cont → CallKind
  | .initFfiPlugin c _ => c.kind
  | .initFfi c _ => c.kind
  | .initModelFfi c _ => c.kind
  | .initModelAsset c => c.kind
  | .initModelWrite c _ => c.kind
  | .initModelExists c _ => c.kind
  | .initModelLength c _ => c.kind
  | .initModelLoad c => c.kind
  | .switchModelExists _ => .switchModel
  | .switchModelDelete _ => .switchModel
  | .switchModelReturn => .switchModel
  | .disposeExists => .dispose
  | .disposeDelete => .dispose
  | .runInference => .tick

def Call.kind : Call → CallKind
  | .initModel => .initModel
  | .switchModel _ => .switchModel
  | .dispose => .dispose
  | .tick _ => .tick
  | _ => .instant

/-- How a call of each kind can end. -/
def CallKind.ends : CallKind → Completion → Bool
  | .initModel, .value _ => true
  | .switchModel, .value _ => true
  | .switchModel, .error => true
  | .dispose, .void => true
  | .dispose, .error => true
  | .tick, .void => true
  | .instant, .void => true
  | _, _ => false

/-- Outside any `try`: the old model file is looked up or deleted. -/
def Cont.cleans : Cont → Bool
  | .switchModelExists _ => true
  | .switchModelDelete _ => true
  | .disposeExists => true
  | .disposeDelete => true
  | _ => false

/-- An error is on its way to the caller. -/
def Task.erring : Task → Bool
  | .ready .threw k => k.cleans
  | .done .error => true
  | _ => false

/-- The lookup or the deletion of the old file throws in this step. -/
def cleanupThrows (e : Environment) (m : Machine) : Task → Bool
  | .blocked op k => k.cleans && decide ((perform e op m.world).2 = .threw)
  | _ => false

def CleanupAnswers (n : Nat) (c : Instances) : InstanceLabel → Prop
  | .step i e => i = n → ∀ t ∈ c.tasks[n]?, cleanupThrows e (c.state.machine t.1) t.2 = false
  | .call _ => True

section Step

variable {m : Machine} {kind : CallKind}

def Cont.probes : Cont → Bool
  | .switchModelExists _ => true
  | .disposeExists => true
  | _ => false

/-- A call of this kind, with the file that its `!` needs. -/
def Task.Steady (s : VoiceService) (kind : CallKind) : Task → Prop
  | .blocked _ k => k.kind = kind ∧ k ≠ .switchModelReturn ∧ (k.probes = true → s.currentModelFile.isSome = true)
  | .ready r k => k.kind = kind ∧ (k = .switchModelReturn → ∃ b, r = .answer b) ∧
      (k.probes = true → s.currentModelFile.isSome = true)
  | .done c => kind.ends c = true

theorem Task.Steady.mono {s next : VoiceService} {t : Task} (h : t.Steady s kind)
    (kept : s.currentModelFile.isSome = true → next.currentModelFile.isSome = true) : t.Steady next kind := by
  cases t with
  | blocked op k => exact ⟨h.1, h.2.1, fun probes => kept (h.2.2 probes)⟩
  | ready r k => exact ⟨h.1, h.2.1, fun probes => kept (h.2.2 probes)⟩
  | done c => exact h

theorem Task.steady_blocked {k : Cont} (op : Op) (returns : k ≠ .switchModelReturn) (probes : k.probes = false)
    (s : VoiceService) : (Task.blocked op k).Steady s k.kind :=
  ⟨rfl, returns, fun on => by cases probes.symm.trans on⟩

theorem Task.steady_ready {k : Cont} (r : Reply) (returns : k ≠ .switchModelReturn) (probes : k.probes = false)
    (s : VoiceService) : (Task.ready r k).Steady s k.kind :=
  ⟨rfl, fun eq => absurd eq returns, fun on => by cases probes.symm.trans on⟩

theorem Caller.give_steady (c : Caller) (b : Bool) (s : VoiceService) :
    (c.give b).Steady s c.kind ∧ (c.give b).erring = false := by
  cases c with
  | direct => exact ⟨rfl, rfl⟩
  | switchModel => exact ⟨⟨rfl, fun _ => ⟨b, rfl⟩, fun on => by cases on⟩, rfl⟩

theorem Machine.initModel_steady (m : Machine) (c : Caller) (s : VoiceService) :
    (m.initModel c).2.Steady s c.kind ∧ (m.initModel c).2.erring = false := by
  unfold Machine.initModel
  dsimp only
  split
  next => exact ⟨Task.steady_ready _ (by simp) rfl _, rfl⟩
  next => exact ⟨Task.steady_blocked _ (by simp) rfl _, rfl⟩

/-- `_currentModelFile!` never meets null: the file was there when the call began, and no code resets it. -/
theorem Machine.deleteCurrent_steady {k : Cont} (held : m.service.currentModelFile.isSome = true)
    (hk : k ≠ .switchModelReturn) (probes : k.probes = false) (s : VoiceService) :
    (m.deleteCurrent k).2.Steady s k.kind ∧ (m.deleteCurrent k).2.erring = false := by
  unfold Machine.deleteCurrent
  split
  next => exact ⟨Task.steady_blocked _ hk probes s, rfl⟩
  next missing =>
    rw [missing] at held
    cases held

theorem start_steady (m : Machine) (k : Call) :
    (m.start k).2.Steady (m.start k).1.service k.kind ∧ (m.start k).2.erring = false := by
  cases k with
  | initModel => exact m.initModel_steady .direct _
  | switchModel newType =>
    simp only [Machine.start, Machine.switchModel]
    split
    next => exact ⟨rfl, rfl⟩
    next =>
      split
      next => exact ⟨rfl, rfl⟩
      next =>
        split
        next file current =>
          refine ⟨⟨rfl, by simp, fun _ => ?_⟩, rfl⟩
          rw [current]
          rfl
        next => exact Machine.initModel_steady _ .switchModel _
  | dispose =>
    simp only [Machine.start, Machine.dispose]
    split
    next file current =>
      refine ⟨⟨rfl, by simp, fun _ => ?_⟩, rfl⟩
      rw [current]
      rfl
    next => exact ⟨rfl, rfl⟩
  | tick timer =>
    simp only [Machine.start, Machine.tick]
    split
    next => exact ⟨Task.steady_blocked _ (by simp) rfl _, rfl⟩
    next => exact ⟨rfl, rfl⟩
  | _ => exact ⟨rfl, rfl⟩

/-- The code that runs on with a reply: an error leaves the call only where the reply is one. -/
theorem resume_steady (e : Environment) {k : Cont} {r : Reply} (h : (Task.ready r k).Steady m.service kind) :
    (resume e k r m).2.Steady (resume e k r m).1.service kind ∧
      (resume e k r m).2.erring = (Task.ready r k).erring := by
  obtain ⟨rfl, answers, held⟩ := h
  have give : ∀ (c : Caller) (b : Bool) (s : VoiceService), (c.give b).Steady s c.kind ∧ (c.give b).erring = false :=
    fun c b s => c.give_steady b s
  cases k with
  | initFfiPlugin c path =>
    cases r with
    | threw => exact ⟨Task.steady_ready _ (by simp) rfl _, rfl⟩
    | _ =>
      simp only [resume]
      split
      next => exact ⟨Task.steady_ready _ (by simp) rfl _, rfl⟩
      next => exact ⟨Task.steady_ready _ (by simp) rfl _, rfl⟩
  | initFfi c path => cases r <;> exact ⟨Task.steady_ready _ (by simp) rfl _, rfl⟩
  | initModelFfi c path =>
    cases r with
    | threw => exact give c false _
    | _ => exact ⟨Task.steady_blocked _ (by simp) rfl _, rfl⟩
  | initModelAsset c =>
    cases r with
    | data bytes => exact ⟨Task.steady_blocked _ (by simp) rfl _, rfl⟩
    | _ => exact give c false _
  | initModelWrite c file =>
    cases r with
    | threw => exact give c false _
    | _ => exact ⟨Task.steady_blocked _ (by simp) rfl _, rfl⟩
  | initModelExists c file =>
    cases r with
    | answer b =>
      cases b with
      | true => exact ⟨Task.steady_blocked _ (by simp) rfl _, rfl⟩
      | false => exact give c false _
    | _ => exact give c false _
  | initModelLength c file =>
    cases r with
    | threw => exact give c false _
    | _ =>
      refine ⟨Task.steady_ready _ (by simp) rfl _, ?_⟩
      simp only [resume]
      cases (m.world.loadModel file e.load).2 <;> rfl
  | initModelLoad c =>
    cases r with
    | answer b => cases b <;> exact give c _ _
    | _ => exact give c false _
  | switchModelExists newType =>
    cases r with
    | answer b =>
      cases b with
      | true => exact Machine.deleteCurrent_steady (k := .switchModelDelete newType) (held rfl) (by simp) rfl _
      | false => exact Machine.initModel_steady _ .switchModel _
    | threw => exact ⟨rfl, rfl⟩
    | _ => exact Machine.initModel_steady _ .switchModel _
  | switchModelDelete newType =>
    cases r with
    | threw => exact ⟨rfl, rfl⟩
    | _ => exact Machine.initModel_steady _ .switchModel _
  | switchModelReturn =>
    obtain ⟨b, rfl⟩ := answers rfl
    exact ⟨rfl, rfl⟩
  | disposeExists =>
    cases r with
    | answer b =>
      cases b with
      | true => exact Machine.deleteCurrent_steady (k := .disposeDelete) (held rfl) (by simp) rfl _
      | false => exact ⟨rfl, rfl⟩
    | _ => exact ⟨rfl, rfl⟩
  | disposeDelete => cases r <;> exact ⟨rfl, rfl⟩
  | runInference => cases r <;> exact ⟨rfl, rfl⟩

theorem advance_steady (e : Environment) {t : Task} (h : t.Steady m.service kind) :
    (advance e m t).2.Steady (advance e m t).1.service kind ∧
      (advance e m t).2.erring = (t.erring || cleanupThrows e m t) := by
  cases t with
  | blocked op k =>
    refine ⟨⟨h.1, fun returns => absurd returns h.2.1, h.2.2⟩, ?_⟩
    show (Task.ready (perform e op m.world).2 k).erring = (k.cleans && decide ((perform e op m.world).2 = .threw))
    cases (perform e op m.world).2 <;> simp [Task.erring]
  | ready r k =>
    obtain ⟨steady, same⟩ := resume_steady e h
    exact ⟨steady, same.trans (Bool.or_false _).symm⟩
  | done c => exact ⟨h, (Bool.or_false _).symm⟩

theorem start_file (m : Machine) (k : Call) : (m.start k).1.service.currentModelFile = m.service.currentModelFile := by
  cases k with
  | initModel => exact congrArg (fun m => m.service.currentModelFile) (m.initModel_fst .direct)
  | switchModel newType =>
    rcases m.switchModel_state newType with same | ⟨type, eq⟩
    · exact congrArg (fun m => m.service.currentModelFile) same
    · exact congrArg (fun m => m.service.currentModelFile) eq
  | setModelType type =>
    simp only [Machine.start, Machine.setModelType]
    split <;> rfl
  | startListening =>
    simp only [Machine.start, Machine.startListening]
    split <;> rfl
  | stopListening => rfl
  | toggleListening =>
    simp only [Machine.start, Machine.toggleListening, Machine.startListening]
    split
    next => rfl
    next => split <;> rfl
  | dispose =>
    obtain ⟨initialized, ffi, eq⟩ := m.dispose_state
    exact congrArg (fun m => m.service.currentModelFile) eq
  | tick timer =>
    simp only [Machine.start, Machine.tick]
    split <;> rfl

/-- `_currentModelFile` is never reset. -/
theorem advance_file (e : Environment) (m : Machine) (t : Task) (h : m.service.currentModelFile.isSome = true) :
    (advance e m t).1.service.currentModelFile.isSome = true := by
  cases t with
  | blocked op k => exact h
  | ready r k =>
    rcases resume_file e k r m with same | ⟨c, file, rfl, threw⟩
    · rw [advance, same]
      exact h
    · cases r with
      | threw => exact absurd rfl threw
      | _ => rfl
  | done c => exact h

end Step

section Run

variable {c : Instances} {n i : Nat} {t : Task} {kind : CallKind}

theorem next_file (c : Instances) (l : InstanceLabel) (i : Nat) (h : (c.state.services i).currentModelFile.isSome = true) :
    ((c.next l).state.services i).currentModelFile.isSome = true := by
  have put : ∀ (s : Isolate) (j : Nat) (m : Machine), (s.services i).currentModelFile.isSome = true →
      ((s.services j).currentModelFile.isSome = true → m.service.currentModelFile.isSome = true) →
      ((s.put j m).services i).currentModelFile.isSome = true := by
    intro s j m held keep
    unfold Isolate.put
    dsimp only
    split
    next same => exact keep (same ▸ held)
    next => exact held
  refine Pool.next_state (S := instances) (G := fun s => (s.services i).currentModelFile.isSome = true)
    (fun s k hs => ?_) (fun e s t hs => ?_) l h
  · refine put s k.1 _ hs fun held => ?_
    rw [start_file]
    exact held
  · exact put s t.1 _ hs fun held => advance_file e (s.machine t.1) t.2 held

theorem cleanupAnswers_own (h : c.tasks[n]? = some (i, t)) (e : Environment) :
    CleanupAnswers n c (.step n e) ↔ cleanupThrows e (c.state.machine i) t = false := by
  simp [CleanupAnswers, h]

theorem cleanupAnswers_other {l : InstanceLabel} (h : ∀ e, l ≠ .step n e) : CleanupAnswers n c l := by
  cases l with
  | call k => trivial
  | step j e =>
    intro hj
    exact absurd (hj ▸ rfl) (h e)

/-- A call among any others: its kind stays, and it errs exactly from the step on where its cleanup throws. -/
theorem run_steady (rest : List InstanceLabel) (h : c.tasks[n]? = some (i, t))
    (steady : t.Steady (c.state.services i) kind) :
    ∃ u, (Runs.run Instances.next c rest).tasks[n]? = some (i, u) ∧
      u.Steady ((Runs.run Instances.next c rest).state.services i) kind ∧
      (u.erring = true ↔ t.erring = true ∨ ¬ Runs.Along Instances.next (CleanupAnswers n) c rest) := by
  induction rest generalizing c t with
  | nil => exact ⟨t, h, steady, by simp⟩
  | cons l rest ih =>
    simp only [Runs.along_cons, Runs.run_cons]
    rcases Pool.next_at (S := instances) h l with ⟨e, rfl, state, own⟩ | ⟨other, own⟩
    · obtain ⟨kept, erring⟩ := advance_steady e (m := c.state.machine i) steady
      have service : (c.next (.step n e)).state.services i = (advance e (c.state.machine i) t).1.service := by
        rw [Instances.next, state]
        simp [instances, Isolate.put]
      have here : (c.next (.step n e)).tasks[n]? = some (i, (advance e (c.state.machine i) t).2) := own
      obtain ⟨u, hu, last, iff⟩ := ih here (service ▸ kept)
      refine ⟨u, hu, last, ?_⟩
      rw [iff, erring, cleanupAnswers_own h, Bool.or_eq_true, not_and_or, Bool.not_eq_false]
      exact or_assoc
    · have here : (c.next l).tasks[n]? = some (i, t) := own
      obtain ⟨u, hu, last, iff⟩ := ih here (steady.mono (next_file c l i))
      exact ⟨u, hu, last, by simpa [cleanupAnswers_other other] using iff⟩

end Run

theorem start_rank (m : Machine) (k : Call) : (m.start k).2.rank ≤ 18 := by
  have init : ∀ (m : Machine) c, (m.initModel c).2.rank ≤ 18 := by
    intro m c
    have bound := m.initModel_rank c
    omega
  cases k with
  | initModel => exact init m .direct
  | switchModel newType =>
    simp only [Machine.start, Machine.switchModel]
    split
    next => exact Nat.zero_le _
    next =>
      split
      next => exact Nat.zero_le _
      next =>
        split
        next => exact Nat.le_refl 18
        next => exact init _ _
  | dispose =>
    simp only [Machine.start, Machine.dispose]
    split
    next => exact Nat.le_of_ble_eq_true rfl
    next => exact Nat.zero_le _
  | tick timer =>
    simp only [Machine.start, Machine.tick]
    split
    next => exact Nat.le_of_ble_eq_true rfl
    next => exact Nat.zero_le _
  | _ => exact Nat.zero_le _

/-- From any state, any call on any instance, among any other calls: after 18 steps of its own it has ended,
`initModel` with a value, a tick without an error; and `switchModel` and `dispose` end with an error
exactly when the lookup or the deletion of the old model file throws in one of their steps. -/
theorem calls_complete (c : Instances) (i : Nat) (k : Call) (rest : List InstanceLabel) :
    let called := c.next (.call (i, k))
    18 ≤ stepsAt c.tasks.length rest →
      ∃ r, (Runs.run Instances.next called rest).tasks[c.tasks.length]? = some (i, .done r) ∧
        k.kind.ends r = true ∧
        (r = .error ↔ ¬ Runs.Along Instances.next (CleanupAnswers c.tasks.length) called rest) := by
  intro called enough
  have own : called.tasks[c.tasks.length]? = some (i, ((c.state.machine i).start k).2) := by
    simp [called, Instances.next, Pool.System.next, instances]
  have service : called.state.services i = ((c.state.machine i).start k).1.service := by
    simp [called, Instances.next, Pool.System.next, instances, Isolate.put]
  obtain ⟨steady, fine⟩ := start_steady (c.state.machine i) k
  obtain ⟨u, hu, last, iff⟩ := run_steady rest own (service ▸ steady)
  obtain ⟨v, hv, rank⟩ := run_rank rest own
  obtain rfl : u = v := by simpa [hu] using hv
  have first := start_rank (c.state.machine i) k
  obtain ⟨r, rfl⟩ := u.done_of_rank (by omega)
  refine ⟨r, hu, last, ?_⟩
  have erring : (Task.done r).erring = true ↔ r = .error := by
    cases r <;> simp [Task.erring]
  rw [← erring, iff, fine]
  simp

/-- A disposal whose deletion fails. -/
theorem failed_deletion_errs :
    let c : Instances := ⟨⟨fun _ => { VoiceService.initial with currentModelFile := some (modelPath "int8") },
      { World.initial with files := fun _ => some .torn }⟩, []⟩
    let rest : List InstanceLabel := .step 0 .fine :: .step 0 .fine ::
      List.replicate 16 (.step 0 { Environment.fine with io := .fail none })
    ∃ r, (Runs.run Instances.next (c.next (.call (0, .dispose))) rest).tasks[0]? = some (0, .done r) ∧
      CallKind.ends .dispose r = true ∧
      (r = .error ↔ ¬ Runs.Along Instances.next (CleanupAnswers 0) (c.next (.call (0, .dispose))) rest) :=
  calls_complete _ 0 .dispose _ (by decide)

end AuroraVoice
