import AuroraVoice.Reachability

namespace AuroraVoice

/-- Any number of services in one isolate. The bindings, the files, the plugin and the timers are shared. -/
structure Isolate where
  services : Nat → VoiceService
  world : World

def Isolate.machine (s : Isolate) (i : Nat) : Machine := ⟨s.services i, s.world⟩

def Isolate.put (s : Isolate) (i : Nat) (m : Machine) : Isolate :=
  ⟨fun j => if j = i then m.service else s.services j, m.world⟩

def Isolate.initial : Isolate := ⟨fun _ => VoiceService.initial, World.initial⟩

/-- The calls of all instances, each with the instance it was made on. -/
def instances : Pool.System Isolate (Nat × Task) (Nat × Call) Environment where
  start s k := (s.put k.1 ((s.machine k.1).start k.2).1, (k.1, ((s.machine k.1).start k.2).2))
  advance e s t := (s.put t.1 (advance e (s.machine t.1) t.2).1, (t.1, (advance e (s.machine t.1) t.2).2))

abbrev Instances := Pool.Config Isolate (Nat × Task)

abbrev InstanceLabel := Pool.Label (Nat × Call) Environment

def Instances.initial : Instances := ⟨Isolate.initial, []⟩

def Instances.next (c : Instances) (l : InstanceLabel) : Instances := instances.next c l

/-- What `initModel` needs from outside succeeds in this step: the library is found and opened, the asset is
loaded, the file is written and found, `load_model` returns 1. `length()` is only printed. -/
def environmentSucceeds (e : Environment) (m : Machine) : Task → Bool
  | .blocked op (.initModelExists _ _) => decide ((perform e op m.world).2 = .answer true)
  | .blocked _ (.initModelLength _ _) => true
  | .blocked op _ => decide ((perform e op m.world).2 ≠ .threw)
  | .ready _ (.initModelLength _ file) =>
    decide ((m.world.plugin.loadModel (some file) (m.world.files file) e.load).value ≠ 0)
  | _ => true

def EnvironmentSucceeds (n : Nat) (c : Instances) : InstanceLabel → Prop
  | .step i e => i = n → ∀ t ∈ c.tasks[n]?, environmentSucceeds e (c.state.machine t.1) t.2 = true
  | .call _ => True

instance decidableEnvironmentSucceeds (n : Nat) (c : Instances) : ∀ l, Decidable (EnvironmentSucceeds n c l)
  | .step i e =>
    inferInstanceAs (Decidable (i = n → ∀ t ∈ c.tasks[n]?, environmentSucceeds e (c.state.machine t.1) t.2 = true))
  | .call _ => isTrue trivial

/-- The next step of the call assigns `_bindings`. -/
def Task.assignsBindings : Task → Bool
  | .ready r (.initFfiPlugin _ _) => decide (r ≠ .threw)
  | _ => false

/-- The call at place `n` assigns `_bindings` only while they are not assigned yet. -/
def BindingsFree (n : Nat) (c : Instances) : InstanceLabel → Prop
  | .step i _ => i = n → ∀ t ∈ c.tasks[n]?, t.2.assignsBindings = true → c.state.world.bindings = false
  | .call _ => True

/-- If the step asks for the length of a file, the file is still there and the system answers. -/
def Task.findsLength (e : Environment) (w : World) : Task → Bool
  | .blocked (.length file) _ => decide (e.io = .ok) && (w.files file).isSome
  | _ => true

/-- The call at place `n` gets the length of its file. -/
def LengthFound (n : Nat) (c : Instances) : InstanceLabel → Prop
  | .step i e => i = n → ∀ t ∈ c.tasks[n]?, t.2.findsLength e c.state.world = true
  | .call _ => True

/-- Nothing else in the isolate is in the way of the call at place `n`. -/
def Unhindered (n : Nat) (c : Instances) (l : InstanceLabel) : Prop := BindingsFree n c l ∧ LengthFound n c l

instance decidableUnhindered (n : Nat) (c : Instances) : ∀ l, Decidable (Unhindered n c l)
  | .step i e => inferInstanceAs (Decidable
      ((i = n → ∀ t ∈ c.tasks[n]?, t.2.assignsBindings = true → c.state.world.bindings = false) ∧
        (i = n → ∀ t ∈ c.tasks[n]?, t.2.findsLength e c.state.world = true)))
  | .call _ => isTrue ⟨trivial, trivial⟩

def stepsAt (n : Nat) (labels : List InstanceLabel) : Nat :=
  labels.countP fun
    | .step i _ => i = n
    | .call _ => false

section Bound

/-- `_initFfi` goes on after `initFfiPlugin` only with an error or with the bindings assigned. -/
def Task.Bound (w : World) : Task → Prop
  | .blocked _ (.initFfi _ _) => False
  | .ready r (.initFfi _ _) => r = .threw ∨ w.bindings = true
  | _ => True

theorem Task.Bound.stable {w next : World} {t : Task} (h : t.Bound w)
    (grows : w.bindings = true → next.bindings = true) : t.Bound next := by
  unfold Task.Bound at h ⊢
  split at h
  next => exact h
  next => exact h.imp_right grows
  next => trivial

/-- `_ffiInitialized` is raised only while the bindings are assigned. -/
structure Binds (m : Machine) (x : Machine × Task) : Prop where
  flag : x.1.service.ffiInitialized = true → m.service.ffiInitialized = true ∨ x.1.world.bindings = true
  task : x.2.Bound x.1.world

theorem start_bindings (m : Machine) (k : Call) : (m.start k).1.world.bindings = m.world.bindings := by
  obtain ⟨w, timers, nextTimer, rfl | rfl, eq⟩ := start_world m k
  · rw [eq]
  · rw [eq]
    exact m.world.unloadModel_bindings

theorem advance_bindings {m : Machine} (h : m.world.bindings = true) (e : Environment) (t : Task) :
    (advance e m t).1.world.bindings = true := by
  cases t with
  | blocked op k => exact (perform_bindings e op m.world).trans h
  | ready r k =>
    rcases resume_world e k r m with same | set | ⟨c, file, _, _, loaded⟩
    · exact (congrArg World.bindings same).trans h
    · exact congrArg World.bindings set
    · exact (congrArg World.bindings loaded).trans ((m.world.loadModel_bindings file e.load).trans h)
  | done c => exact h

end Bound

section History

/-- No instance has `_ffiInitialized` set before the bindings are assigned. -/
def Isolate.Bound (s : Isolate) : Prop := ∀ i, (s.machine i).Bound

theorem Isolate.Bound.put {s : Isolate} (h : s.Bound) {i : Nat} {x : Machine × Task} (b : Binds (s.machine i) x)
    (grows : s.world.bindings = true → x.1.world.bindings = true) : (s.put i x.1).Bound := by
  intro j hf
  simp only [Isolate.machine, Isolate.put] at hf ⊢
  split at hf
  next => exact (b.flag hf).elim (fun old => grows (h i old)) id
  next => exact grows (h j hf)

theorem next_grows (c : Instances) (l : InstanceLabel) (h : c.state.world.bindings = true) :
    (c.next l).state.world.bindings = true :=
  Pool.next_state (S := instances) (G := fun s => s.world.bindings = true)
    (fun s k hs => (start_bindings (s.machine k.1) k.2).trans hs)
    (fun e s t hs => advance_bindings (m := s.machine t.1) hs e t.2) l h

end History

section Way

/-- Where an `initModel` call can be while nothing has gone wrong in it. -/
def Task.OnWay (w : World) : Task → Prop
  | .blocked op (.initFfiPlugin c _) => c = .direct ∧ op = .loadFfiEngine
  | .ready r (.initFfiPlugin c _) => c = .direct ∧ r ≠ .threw
  | .ready r (.initFfi c _) => c = .direct ∧ w.bindings = true ∧ r ≠ .threw
  | .ready r (.initModelFfi c _) => c = .direct ∧ w.bindings = true ∧ r ≠ .threw
  | .blocked op (.initModelAsset c) => c = .direct ∧ w.bindings = true ∧ ∃ path, op = .loadAsset path
  | .ready r (.initModelAsset c) => c = .direct ∧ w.bindings = true ∧ ∃ data, r = .data data
  | .blocked op (.initModelWrite c file) => c = .direct ∧ w.bindings = true ∧ ∃ data, op = .writeAsBytes file data
  | .ready r (.initModelWrite c _) => c = .direct ∧ w.bindings = true ∧ r ≠ .threw
  | .blocked op (.initModelExists c file) => c = .direct ∧ w.bindings = true ∧ op = .exists file
  | .ready r (.initModelExists c _) => c = .direct ∧ w.bindings = true ∧ r = .answer true
  | .blocked op (.initModelLength c file) => c = .direct ∧ w.bindings = true ∧ op = .length file
  | .ready r (.initModelLength c _) => c = .direct ∧ w.bindings = true ∧ r ≠ .threw
  | .ready r (.initModelLoad c) => c = .direct ∧ r = .answer true
  | .done c => c = .value true
  | _ => False

/-- Where it can be after the second assignment of `_bindings` or `length()` has thrown. -/
def Task.Doomed : Task → Prop
  | .ready r (.initFfi c _) => c = .direct ∧ r = .threw
  | .ready r (.initModelFfi c _) => c = .direct ∧ r = .threw
  | .ready r (.initModelLength c _) => c = .direct ∧ r = .threw
  | .done c => c = .value false
  | _ => False

theorem Task.OnWay.stable {w next : World} {t : Task} (h : t.OnWay w)
    (grows : w.bindings = true → next.bindings = true) : t.OnWay next := by
  unfold Task.OnWay at h ⊢
  split at h
  all_goals first
    | exact h
    | exact ⟨h.1, grows h.2⟩
    | exact ⟨h.1, grows h.2.1, h.2.2⟩

theorem advance_doomed {t : Task} (h : t.Doomed) (e : Environment) (m : Machine) : (advance e m t).2.Doomed := by
  unfold Task.Doomed at h
  split at h
  next =>
    obtain ⟨rfl, rfl⟩ := h
    exact ⟨rfl, rfl⟩
  next =>
    obtain ⟨rfl, rfl⟩ := h
    rfl
  next =>
    obtain ⟨rfl, rfl⟩ := h
    rfl
  next => exact h
  next => exact h.elim

theorem advance_rank_le (e : Environment) (m : Machine) (t : Task) : (advance e m t).2.rank ≤ t.rank - 1 := by
  cases t with
  | blocked op k => exact Nat.le_refl _
  | ready r k =>
    have lower := resume_rank e k r m
    exact Nat.le_sub_one_of_lt lower
  | done c => exact Nat.zero_le _

end Way

section Call

variable {c : Instances} {n i : Nat} {t : Task}

/-- What one step of the isolate does to the call at place `n`. -/
theorem next_instance_call (h : c.tasks[n]? = some (i, t)) (l : InstanceLabel) :
    (∃ e, l = .step n e ∧ (c.next l).tasks[n]? = some (i, (advance e (c.state.machine i) t).2) ∧
        (c.next l).state.world = (advance e (c.state.machine i) t).1.world) ∨
      ((∀ e, l ≠ .step n e) ∧ (c.next l).tasks[n]? = some (i, t)) := by
  rcases Pool.next_at (S := instances) h l with ⟨e, eq, state, own⟩ | other
  · exact Or.inl ⟨e, eq, own, congrArg Isolate.world state⟩
  · exact Or.inr other

theorem stepsAt_own (e : Environment) (rest : List InstanceLabel) :
    stepsAt n (.step n e :: rest) = stepsAt n rest + 1 := by
  simp [stepsAt]

theorem stepsAt_other {l : InstanceLabel} (h : ∀ e, l ≠ .step n e) (rest : List InstanceLabel) :
    stepsAt n (l :: rest) = stepsAt n rest := by
  cases l with
  | call k => simp [stepsAt]
  | step j e =>
    have hj : j ≠ n := fun eq => h e (eq ▸ rfl)
    simp [stepsAt, hj]

theorem run_rank (rest : List InstanceLabel) (h : c.tasks[n]? = some (i, t)) :
    ∃ u, (Runs.run Instances.next c rest).tasks[n]? = some (i, u) ∧ u.rank ≤ t.rank - stepsAt n rest := by
  induction rest generalizing c t with
  | nil => exact ⟨t, h, Nat.le_refl _⟩
  | cons l rest ih =>
    rcases next_instance_call h l with ⟨e, rfl, own, _⟩ | ⟨other, own⟩
    · obtain ⟨u, hu, rank⟩ := ih own
      have lower := advance_rank_le e (c.state.machine i) t
      rw [stepsAt_own]
      exact ⟨u, hu, by omega⟩
    · obtain ⟨u, hu, rank⟩ := ih own
      rw [stepsAt_other other]
      exact ⟨u, hu, rank⟩

end Call

theorem Task.done_of_rank {t : Task} (h : t.rank = 0) : ∃ r, t = .done r := by
  cases t with
  | blocked op k => cases h
  | ready r k => cases k <;> cases h
  | done r => exact ⟨r, rfl⟩

end AuroraVoice
