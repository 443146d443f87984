import AuroraVoice.Pool
import AuroraVoice.Service

namespace AuroraVoice

/-- The service as calls that interleave at their awaits. -/
def calls : Pool.System Machine Task Call Environment := ⟨Machine.start, advance⟩

@[simp] theorem calls_start (m : Machine) (k : Call) : calls.start m k = m.start k := rfl

@[simp] theorem calls_advance (e : Environment) (m : Machine) (t : Task) : calls.advance e m t = advance e m t := rfl

abbrev Config := Pool.Config Machine Task

abbrev Label := Pool.Label Call Environment

def Config.initial : Config := ⟨Machine.initial, []⟩

def Config.next (c : Config) (l : Label) : Config := calls.next c l

def Task.isDone : Task → Bool
  | .done _ => true
  | _ => false

def Completed (c : Config) : Prop := ∀ t ∈ c.tasks, t.isDone = true

theorem Task.of_isDone {t : Task} (h : t.isDone = true) : ∃ r, t = .done r := by
  cases t with
  | done r => exact ⟨r, rfl⟩
  | _ => cases h

instance decidableCompleted (c : Config) : Decidable (Completed c) :=
  inferInstanceAs (Decidable (∀ t ∈ c.tasks, t.isDone = true))

def stepOf (s : Nat × Environment) : Label := .step s.1 s.2

theorem next_done {c : Config} {i : Nat} {r : Completion} (h : c.tasks[i]? = some (.done r)) (e : Environment) :
    c.next (.step i e) = c := by
  obtain ⟨hi, eq⟩ := List.getElem?_eq_some_iff.mp h
  have same : c.tasks.set i (.done r) = c.tasks := by
    rw [← eq]
    exact List.set_getElem_self hi
  rw [Config.next, Pool.next_step h]
  exact congrArg (Pool.Config.mk c.state) same

/-- Before its first `await` a call changes nothing outside but the timers, and may unload the model. -/
theorem start_world (m : Machine) (k : Call) : ∃ w timers nextTimer, (w = m.world ∨ w = m.world.unloadModel) ∧
    (m.start k).1.world = { w with timers := timers, nextTimer := nextTimer } := by
  have listen : m.startListening.world = { m.world with
      timers := m.startListening.world.timers, nextTimer := m.startListening.world.nextTimer } := by
    unfold Machine.startListening
    split <;> rfl
  cases k with
  | initModel => exact ⟨m.world, _, _, Or.inl rfl, congrArg Machine.world (m.initModel_fst .direct)⟩
  | switchModel newType =>
    rcases m.switchModel_state newType with same | ⟨type, eq⟩
    · exact ⟨m.world, _, _, Or.inl rfl, congrArg Machine.world same⟩
    · exact ⟨m.world.unloadModel, _, _, Or.inr rfl, congrArg Machine.world eq⟩
  | setModelType type =>
    refine ⟨m.world, m.world.timers, m.world.nextTimer, Or.inl rfl, ?_⟩
    simp only [Machine.start, Machine.setModelType]
    split <;> rfl
  | startListening => exact ⟨m.world, _, _, Or.inl rfl, listen⟩
  | stopListening => exact ⟨m.world, _, _, Or.inl rfl, rfl⟩
  | toggleListening =>
    simp only [Machine.start, Machine.toggleListening]
    split
    next => exact ⟨m.world, _, _, Or.inl rfl, rfl⟩
    next =>
      split
      next => exact ⟨m.world, _, _, Or.inl rfl, rfl⟩
      next => exact ⟨m.world, _, _, Or.inl rfl, listen⟩
  | dispose =>
    obtain ⟨initialized, ffi, eq⟩ := m.dispose_state
    refine ⟨m.world.unloadModel, m.stopListening.world.timers, m.world.nextTimer, Or.inr rfl, ?_⟩
    rw [Machine.start, eq]
    have bindings : m.stopListening.world.bindings = m.world.bindings := rfl
    cases hb : m.world.bindings <;> simp only [World.unloadModel, bindings, hb] <;> rfl
  | tick timer =>
    refine ⟨m.world, m.world.timers, m.world.nextTimer, Or.inl rfl, ?_⟩
    simp only [Machine.start, Machine.tick]
    split <;> rfl

/-- The code between two awaits changes what is outside in two ways only. -/
theorem resume_world (e : Environment) (k : Cont) (r : Reply) (m : Machine) :
    (resume e k r m).1.world = m.world ∨ (resume e k r m).1.world = { m.world with bindings := true } ∨
      ∃ c file, k = .initModelLength c file ∧ r ≠ .threw ∧
        (resume e k r m).1.world = (m.world.loadModel file e.load).1 := by
  unfold resume
  split
  all_goals first
    | exact Or.inl rfl
    | (left; rw [Machine.deleteCurrent_fst])
    | (left; rw [Machine.switchModelInit_fst])
    | skip
  next =>
    split
    next => exact Or.inl rfl
    next => exact Or.inr (Or.inl rfl)
  next c file threw => exact Or.inr (Or.inr ⟨c, file, rfl, threw, rfl⟩)

/-- `_currentModelFile` is assigned only where `load_model` is called. -/
theorem resume_file (e : Environment) (k : Cont) (r : Reply) (m : Machine) :
    (resume e k r m).1.service.currentModelFile = m.service.currentModelFile ∨
      ∃ c file, k = .initModelLength c file ∧ r ≠ .threw := by
  unfold resume
  split
  all_goals first
    | exact Or.inl rfl
    | (left; rw [Machine.deleteCurrent_fst])
    | (left; rw [Machine.switchModelInit_fst])
    | skip
  next => split <;> exact Or.inl rfl
  next c file threw => exact Or.inr ⟨c, file, rfl, threw⟩

/-- `_isInitialized` is raised only after a native load that returned 1. -/
theorem resume_flag (e : Environment) (k : Cont) (r : Reply) (m : Machine)
    (h : (resume e k r m).1.service.isInitialized = true) :
    m.service.isInitialized = true ∨ ∃ c, k = .initModelLoad c ∧ r = .answer true := by
  unfold resume at h
  split at h
  all_goals first
    | exact Or.inl h
    | (rw [Machine.deleteCurrent_fst] at h; exact Or.inl h)
    | (rw [Machine.switchModelInit_fst] at h; exact Or.inl h)
    | cases h
    | skip
  next =>
    split at h
    next => exact Or.inl h
    next => exact Or.inl h
  next c => exact Or.inr ⟨c, rfl, rfl⟩

def Environment.fine : Environment := ⟨.ok, ⟨true, true, true, []⟩, ⟨none, false, false, none, 0⟩⟩

end AuroraVoice
