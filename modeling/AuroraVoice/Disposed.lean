import AuroraVoice.Listening
import AuroraVoice.Ownership
import AuroraVoice.Progress

namespace AuroraVoice

/-- The world only loses things: files are kept or gone, the plugin is kept or unloaded, and no timer is new. -/
structure Fades (w next : World) : Prop where
  files : ∀ path data, next.files path = some data → w.files path = some data
  plugin : next.plugin = w.plugin ∨ next.plugin.loaded = none
  timers : ∀ t ∈ next.timers, t ∈ w.timers

theorem Fades.refl (w : World) : Fades w w := ⟨fun _ _ => id, Or.inl rfl, fun _ => id⟩

theorem Fades.trans {w next last : World} (h : Fades w next) (h' : Fades next last) : Fades w last := by
  refine ⟨fun path data hd => h.files path data (h'.files path data hd), ?_, fun t ht => h.timers t (h'.timers t ht)⟩
  rcases h'.plugin with same | unloaded
  · rcases h.plugin with before | unloaded
    · exact Or.inl (same.trans before)
    · exact Or.inr (by rw [same, unloaded])
  · exact Or.inr unloaded

/-- `_bindings` is assigned, and no service is left that got past `_initFfi`. -/
def Instances.Spent (c : Instances) : Prop := c.state.world.bindings = true ∧ Owned none c

section Step

variable {m : Machine}

theorem World.unloadModel_fades {w : World} (h : w.bindings = true) : Fades w w.unloadModel := by
  refine ⟨fun path data hd => ?_, Or.inr ?_, fun t ht => ?_⟩
  · rwa [World.unloadModel_files] at hd
  · simp [World.unloadModel, h, Plugin.unloadModel, Plugin.release_eq, Plugin.loaded]
  · rwa [World.unloadModel_timers] at ht

theorem stopListening_fewer (m : Machine) : ∀ t ∈ m.stopListening.clock.timers, t ∈ m.clock.timers := by
  intro t ht
  exact (List.mem_filter.mp ht).1

theorem start_timers (off : m.service.isInitialized = false) (k : Call) :
    ∀ t ∈ (m.start k).1.world.timers, t ∈ m.world.timers := by
  have clock : (m.start k).1.world.timers = (m.start k).1.clock.timers := rfl
  rw [clock, start_clock]
  cases k with
  | startListening =>
    have idle : m.startListening = m := by simp [Machine.startListening, off]
    rw [idle]
    exact fun _ => id
  | toggleListening =>
    have idle : m.toggleListening = m := by simp [Machine.toggleListening, off]
    rw [idle]
    exact fun _ => id
  | stopListening => exact stopListening_fewer m
  | dispose => exact stopListening_fewer m
  | _ => exact fun _ => id

theorem start_fades (bound : m.world.bindings = true) (off : m.service.isInitialized = false) (k : Call) :
    Fades m.world (m.start k).1.world := by
  have timers := start_timers off k
  obtain ⟨w, live, next, hw, eq⟩ := start_world m k
  have fades : Fades m.world w := by
    rcases hw with rfl | rfl
    · exact Fades.refl _
    · exact World.unloadModel_fades bound
  refine ⟨fun path data hd => ?_, ?_, timers⟩
  · rw [eq] at hd
    exact fades.files path data hd
  · rw [eq]
    exact fades.plugin

/-- A call that did not get past `_initFfi` neither writes a file nor loads a model. -/
theorem advance_fades {t : Task} (off : t.engaged = false) (e : Environment) (m : Machine) :
    Fades m.world (advance e m t).1.world := by
  cases t with
  | blocked op k =>
    have hw : ∀ path data, op ≠ .writeAsBytes path data := by
      rintro path data rfl
      cases off
    have hr : op ≠ .runInference := by
      rintro rfl
      cases off
    obtain ⟨files, eq, fewer⟩ := perform_files e hw hr m.world
    rw [advance, eq]
    exact ⟨fewer, Or.inl rfl, fun _ => id⟩
  | ready r k =>
    rcases resume_world e k r m with same | set | ⟨c, file, rfl, threw, _⟩
    · rw [advance, same]
      exact Fades.refl _
    · rw [advance, set]
      exact ⟨fun _ _ => id, Or.inl rfl, fun _ => id⟩
    · rw [Task.ready_engaged rfl threw] at off
      cases off
  | done r => exact Fades.refl _

/-- Where an `initModel` is that has still to find out that `_bindings` is taken. -/
def Task.Rejected : Task → Prop
  | .blocked _ (.initFfiPlugin c _) => c = .direct
  | .ready _ (.initFfiPlugin c _) => c = .direct
  | t => t.Doomed

theorem Task.Doomed.rejected {t : Task} (h : t.Doomed) : t.Rejected := by
  unfold Task.Rejected
  split
  next => exact h.elim
  next => exact h.elim
  next => exact h

theorem advance_rejected {t : Task} (h : t.Rejected) (bound : m.world.bindings = true) (e : Environment) :
    (advance e m t).2.Rejected := by
  unfold Task.Rejected at h
  split at h
  next => exact h
  next r c path =>
    subst h
    cases r <;> simp [advance, resume, bound, Task.Rejected, Task.Doomed]
  next => exact (advance_doomed h e m).rejected

end Step

section Spent

variable {c : Instances}

theorem Instances.Spent.services (h : c.Spent) (i : Nat) : (c.state.services i).engaged = false := by
  rw [← Bool.not_eq_true]
  intro engaged
  cases h.2.1 i engaged

theorem Instances.Spent.next (h : c.Spent) (l : InstanceLabel) :
    (c.next l).Spent ∧ Fades c.state.world (c.next l).state.world := by
  obtain ⟨bound, unowned⟩ := h
  have grows := next_grows c l bound
  cases l with
  | call k =>
    have off : (c.state.machine k.1).service.isInitialized = false := by
      have quiet := Instances.Spent.services ⟨bound, unowned⟩ k.1
      simp only [VoiceService.engaged, Bool.or_eq_false_iff] at quiet
      exact quiet.1.2
    exact ⟨⟨grows, unowned.call k⟩, start_fades (m := c.state.machine k.1) bound off k.2⟩
  | step n e =>
    refine ⟨⟨grows, unowned.step fun j t _ unset _ => ?_⟩, ?_⟩
    · rw [bound] at unset
      cases unset
    · cases ht : c.tasks[n]? with
      | none =>
        rw [Instances.next, Pool.next_idle ht]
        exact Fades.refl _
      | some t =>
        have off : t.2.engaged = false := by
          rw [← Bool.not_eq_true]
          intro engaged
          cases unowned.2 n t ht engaged
        rw [Instances.next, Pool.next_step ht]
        exact advance_fades off e (c.state.machine t.1)

theorem Instances.Spent.states (h : c.Spent) (labels : List InstanceLabel) :
    ∀ d ∈ Runs.states Instances.next c labels, d.Spent ∧ Fades c.state.world d.state.world := by
  induction labels generalizing c with
  | nil =>
    intro d hd
    rw [List.mem_singleton.mp hd]
    exact ⟨h, Fades.refl _⟩
  | cons l labels ih =>
    intro d hd
    rcases List.mem_cons.mp hd with rfl | hd
    · exact ⟨h, Fades.refl _⟩
    · obtain ⟨spent, fades⟩ := h.next l
      obtain ⟨later, rest⟩ := ih spent d hd
      exact ⟨later, fades.trans rest⟩

theorem run_rejected {n i : Nat} {t : Task} (rest : List InstanceLabel) (h : c.Spent) (own : c.tasks[n]? = some (i, t))
    (ht : t.Rejected) : ∃ u, (Runs.run Instances.next c rest).tasks[n]? = some (i, u) ∧ u.Rejected := by
  induction rest generalizing c t with
  | nil => exact ⟨t, own, ht⟩
  | cons l rest ih =>
    have spent := (h.next l).1
    rcases next_instance_call own l with ⟨e, _, next, _⟩ | ⟨_, same⟩
    · exact ih spent next (advance_rejected ht h.1 e)
    · exact ih spent same ht

/-- Every `initModel` returns false, on every instance. -/
theorem Instances.Spent.initModel_false (h : c.Spent) (i : Nat) (rest : List InstanceLabel)
    (enough : 14 ≤ stepsAt c.tasks.length rest) :
    (Runs.run Instances.next (c.next (.call (i, .initModel))) rest).tasks[c.tasks.length]? =
      some (i, .done (.value false)) := by
  have own : (c.next (.call (i, .initModel))).tasks[c.tasks.length]? =
      some (i, ((c.state.machine i).initModel .direct).2) := by
    simp [Instances.next, Pool.System.next, instances, Machine.start]
  have off : (c.state.machine i).service.ffiInitialized = false := by
    have quiet := h.services i
    simp only [VoiceService.engaged, Bool.or_eq_false_iff] at quiet
    exact quiet.1.1
  have rejected : ((c.state.machine i).initModel .direct).2.Rejected := by
    simp [Machine.initModel, off, Task.Rejected]
  obtain ⟨u, hu, last⟩ := run_rejected rest (h.next _).1 own rejected
  obtain ⟨v, hv, rank⟩ := run_rank rest own
  obtain rfl : u = v := by simpa [hu] using hv
  have first := (c.state.machine i).initModel_rank .direct
  obtain ⟨r, rfl⟩ := u.done_of_rank (by omega)
  have failed : r = .value false := last
  rw [hu, failed]

end Spent

/-- Once `_bindings` is assigned and no service is engaged any more, as after a `dispose`, nothing in the
isolate ever comes back, whatever is called on any instance and in any interleaving: no service is
initialised or listens, nothing is written, loaded or started, and every `initModel` ends with false. -/
theorem dispose_is_final {c : Instances} (bound : c.state.world.bindings = true) (quiet : ∀ i, ¬ c.Engaged i)
    (labels : List InstanceLabel) :
    (∀ d ∈ Runs.states Instances.next c labels, Fades c.state.world d.state.world ∧ ∀ i, ¬ d.Engaged i) ∧
      ∀ i rest, let d := Runs.run Instances.next c labels
        14 ≤ stepsAt d.tasks.length rest →
          (Runs.run Instances.next (d.next (.call (i, .initModel))) rest).tasks[d.tasks.length]? =
            some (i, .done (.value false)) := by
  have spent : c.Spent := by
    refine ⟨bound, fun i engaged => absurd (Or.inl engaged) (quiet i), fun n t ht engaged => ?_⟩
    exact absurd (Or.inr ⟨t.2, List.mem_iff_getElem?.mpr ⟨n, ht⟩, engaged⟩) (quiet t.1)
  have all := spent.states labels
  constructor
  · intro d hd
    refine ⟨(all d hd).2, fun i engaged => ?_⟩
    cases (all d hd).1.2.engaged engaged
  · intro i rest d enough
    exact (all d (Runs.run_mem_states c labels)).1.initModel_false i rest enough

/-- One service is initialised and disposed. -/
def Instances.disposed : Instances :=
  Runs.run Instances.next Instances.initial (.call (0, .initModel) :: List.replicate 14 (.step 0 Environment.fine) ++
    .call (0, .dispose) :: List.replicate 4 (.step 1 Environment.fine))

theorem second_instance_refused :
    (Runs.run Instances.next (Instances.disposed.next (.call (1, .initModel)))
      (List.replicate 14 (.step 2 Environment.fine))).tasks[2]? = some (1, .done (.value false)) := by
  have bound : Instances.disposed.state.world.bindings = true := by decide
  have length : Instances.disposed.tasks.length = 2 := by decide
  have tasks : ∀ t ∈ Instances.disposed.tasks, t.2.engaged = false := by decide
  have first : (Instances.disposed.state.services 0).engaged = false := by decide
  have other : ∀ i, (Instances.disposed.state.services (i + 1)).engaged = false := by
    intro i
    rfl
  have quiet : ∀ i, ¬ Instances.disposed.Engaged i := by
    rintro i (service | ⟨t, mem, task⟩)
    · cases i with
      | zero =>
        rw [first] at service
        cases service
      | succ i =>
        rw [other] at service
        cases service
    · rw [tasks _ mem] at task
      cases task
  have refused := (dispose_is_final bound quiet []).2 1 (List.replicate 14 (.step 2 Environment.fine))
  dsimp only [Runs.run_nil] at refused
  rw [length] at refused
  exact refused (by decide)

end AuroraVoice
