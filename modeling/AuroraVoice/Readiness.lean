import AuroraVoice.ModelIdentity

namespace AuroraVoice

def Plugin.Allocated (p : Plugin Contents) : Prop := ∃ i, p.interpreter = some i ∧ i.allocated = true

theorem Plugin.allocated_iff (p : Plugin Contents) : p.Allocated ↔ p.loaded.isSome := by
  unfold Allocated loaded
  cases p.interpreter with
  | none => simp
  | some i => cases hi : i.allocated <;> simp [hi]

def Holds (m : Machine) (type : String) : Prop :=
  ∃ i, m.world.plugin.interpreter = some i ∧ i.allocated = true ∧ i.file = .asset (assetOf type)

theorem holds_iff (m : Machine) (type : String) :
    Holds m type ↔ m.world.plugin.loaded = some (.asset (assetOf type)) := by
  unfold Holds Plugin.loaded
  cases m.world.plugin.interpreter with
  | none => simp
  | some i => cases hi : i.allocated <;> simp [hi]

/-- A `switchModel` that completes with true has loaded the type it was asked for, unless it took
the early exit for the selected type: then that type was loaded before or is not at all. -/
theorem switchModel_true_iff_held (calls : List (Call × Script)) (type : String) (sc : Script) :
    let m := Runs.run Machine.next Machine.initial calls
    ((m.call (.switchModel type, sc)).2 = .done (.value true) →
        Holds (m.call (.switchModel type, sc)).1 type) ↔
      (m.service.isInitialized = true → type = m.service.selectedModelType → Holds m type) := by
  intro m
  have h : m.WellFormed := Runs.run_induction next_wellFormed Machine.initial_wellFormed calls
  simp only [Machine.call, Machine.start]
  by_cases early : m.service.isInitialized = false ∨ type = m.service.selectedModelType
  · rw [switchModel_early early]
    simp only [solo_done]
    cases hi : m.service.isInitialized with
    | false => simp
    | true =>
      have same : type = m.service.selectedModelType := early.resolve_left (by simp [hi])
      simp [same]
  · rw [not_or] at early
    obtain ⟨view, _, ended, _⟩ := view_switchModel sc h (by simpa using early.1) early.2
    refine iff_of_true ?_ (fun _ same => absurd same early.2)
    intro success
    rw [ended] at success
    have loaded := congrArg View.loaded view
    cases hc : sc.clears m with
    | false => simp [hc] at success
    | true =>
      simp only [hc, if_true, Task.done.injEq, Completion.value.injEq, Bool.and_eq_true] at success
      have held : (solo sc.environment (m.switchModel type)).1.view.loaded = some (.asset (assetOf type)) := by
        simpa [hc, Script.initView, success.1, success.2] using loaded
      exact (holds_iff _ _).mpr held

def Script.unallocated : Script := { Script.fine with load := ⟨true, true, false, []⟩ }

/-- After a failed switch to int8, a second tap on int8 reports success with nothing loaded. -/
theorem second_switch_reports_success :
    let m := Runs.run Machine.next Machine.initial
      [(.initModel, Script.fine), (.switchModel modelInt8, Script.unallocated)]
    ¬ ((m.call (.switchModel modelInt8, Script.fine)).2 = .done (.value true) →
      Holds (m.call (.switchModel modelInt8, Script.fine)).1 modelInt8) := by
  intro m claim
  have held := (holds_iff _ _).mp (claim (by decide))
  revert held
  decide

/-- The flag that `startListening` and `_runInference` test says that the plugin can be run. -/
def Ready (m : Machine) : Prop := m.service.isInitialized = true → m.world.plugin.Allocated

/-- Once the flag is set, no native load fails, no switch to another type fails at any step, and
no `dispose` fails on the file. -/
def StaysReady (m : Machine) (c : Call × Script) : Prop :=
  m.service.isInitialized = true →
    match c.1 with
    | .initModel => c.2.reachesLoad m = true → c.2.load.succeeds = true
    | .switchModel type => type ≠ m.service.selectedModelType →
        c.2.clears m = true ∧ c.2.reachesLoad m = true ∧ c.2.load.succeeds = true
    | .dispose => c.2.clears m = true
    | _ => True

theorem View.ready_iff (m : Machine) : Ready m ↔ (m.view.initialized = true → m.view.loaded.isSome) := by
  rw [Ready, Plugin.allocated_iff]
  rfl

theorem ready_next_iff (m : Machine) (c : Call × Script) (h : m.WellFormed) (hr : Ready m) :
    Ready (m.next c) ↔ StaysReady m c := by
  have view := (view_next h c).1
  rw [View.ready_iff] at hr ⊢
  rw [view]
  obtain ⟨call, sc⟩ := c
  cases call with
  | initModel =>
    simp only [Machine.viewAfter, Script.initView, StaysReady]
    cases hi : m.service.isInitialized with
    | false =>
      refine iff_of_true ?_ (by simp)
      intro ready
      simp only [Bool.false_or, Bool.and_eq_true] at ready
      simp [ready.1, ready.2]
    | true =>
      have loaded : m.world.plugin.loaded.isSome = true := hr hi
      cases sc.reachesLoad m <;> cases sc.load.succeeds <;> simp [loaded]
  | switchModel type =>
    simp only [Machine.viewAfter, StaysReady]
    by_cases early : m.service.isInitialized = false ∨ type = m.service.selectedModelType
    · rw [if_pos early]
      refine iff_of_true hr ?_
      intro hi hn
      rcases early with hf | same
      · simp [hi] at hf
      · exact absurd same hn
    · -- the old model is unloaded, so the flag is right only if the new one gets loaded
      rw [if_neg early]
      rw [not_or] at early
      have hi : m.service.isInitialized = true := by simpa using early.1
      cases sc.clears m <;> cases hl : sc.reachesLoad m <;> cases hs : sc.load.succeeds <;>
        simp [Script.initView, Machine.view, hi, early.2, hl, hs]
  | dispose =>
    simp only [Machine.viewAfter, StaysReady]
    cases hi : m.service.isInitialized <;> cases sc.clears m <;> simp [Machine.view, hi]
  | setModelType type =>
    refine iff_of_true ?_ (fun _ => trivial)
    simp only [Machine.viewAfter]
    split
    next => exact hr
    next => exact hr
  | startListening => exact iff_of_true hr (fun _ => trivial)
  | stopListening => exact iff_of_true hr (fun _ => trivial)
  | toggleListening => exact iff_of_true hr (fun _ => trivial)
  | tick timer => exact iff_of_true hr (fun _ => trivial)

/-- In every run of calls made one after the other, `_isInitialized` means an allocated interpreter
in every state exactly when nothing fails after the old model has been given up. -/
theorem readiness_flag_iff (calls : List (Call × Script)) :
    (∀ m ∈ Runs.states Machine.next Machine.initial calls, Ready m) ↔
      Runs.Along Machine.next StaysReady Machine.initial calls := by
  have start : Ready Machine.initial := fun hi => absurd hi (by decide)
  exact Runs.forall_states_iff_along next_wellFormed ready_next_iff Machine.initial_wellFormed start calls

theorem failed_switch_leaves_flag :
    ¬ ∀ m ∈ Runs.states Machine.next Machine.initial
        [(.initModel, Script.fine),
          (.switchModel modelInt8, { Script.fine with asset := .fail none })], Ready m := by
  intro all
  have last := all _ (Runs.run_mem_states _ _) (by decide)
  rw [Plugin.allocated_iff] at last
  revert last
  decide

end AuroraVoice
