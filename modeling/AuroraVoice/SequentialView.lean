import AuroraVoice.Sequential

namespace AuroraVoice

/-- What holds between two calls of any run: the service has no bindings that the isolate lacks,
and nothing is loaded while there are none. -/
structure Machine.WellFormed (m : Machine) : Prop where
  bound : m.Bound
  held : m.world.bindings = false → m.world.plugin.loaded = none

/-- The two copies of "which model is in use", and the flag that says whether one is. -/
structure View where
  selected : String
  initialized : Bool
  loaded : Option Contents
  deriving DecidableEq

def Machine.view (m : Machine) : View :=
  ⟨m.service.selectedModelType, m.service.isInitialized, m.world.plugin.loaded⟩

@[simp] theorem Machine.view_selected (m : Machine) : m.view.selected = m.service.selectedModelType := rfl

@[simp] theorem Machine.view_initialized (m : Machine) : m.view.initialized = m.service.isInitialized := rfl

@[simp] theorem Machine.view_loaded (m : Machine) : m.view.loaded = m.world.plugin.loaded := rfl

/-- `_currentModelFile` is null, or is found absent, or is found and deleted. -/
def Script.clears (sc : Script) (m : Machine) : Bool :=
  match m.service.currentModelFile, sc.probe with
  | none, _ => true
  | some file, .ok => !(m.world.files file).isSome || sc.delete.isOk
  | some _, .missing => true
  | some _, .fail _ => false

def Script.initView (sc : Script) (m : Machine) (type : String) (loaded : Option Contents) : View :=
  ⟨type, m.service.isInitialized || (sc.reachesLoad m && sc.load.succeeds),
    if sc.reachesLoad m then (if sc.load.succeeds then some (.asset (assetOf type)) else none) else loaded⟩

def Machine.viewAfter (m : Machine) (c : Call × Script) : View :=
  match c.1 with
  | .initModel => c.2.initView m m.view.selected m.view.loaded
  | .switchModel newType =>
    if m.service.isInitialized = false ∨ newType = m.service.selectedModelType then m.view
    else if c.2.clears m then c.2.initView m newType none
    else { m.view with loaded := none }
  | .setModelType type => if type ∈ modelTypes then { m.view with selected := type } else m.view
  | .dispose =>
    if c.2.clears m then ⟨m.view.selected, false, none⟩ else { m.view with loaded := none }
  | _ => m.view

theorem Plugin.unloadModel_loaded (p : Plugin Contents) : p.unloadModel.plugin.loaded = none := by
  simp [unloadModel, release_eq, loaded]

theorem Plugin.runInference_loaded (p : Plugin Contents) (pcm : Option (List Int16)) (length : Int32)
    (o : InferenceOutcome) : (p.runInference pcm length o).plugin.loaded = p.loaded := by
  cases hi : p.interpreter with
  | none => rw [runInference_null hi]
  | some i =>
    rcases runInference_plugin pcm length o hi with eq | ⟨input, eq⟩ <;> simp [eq, loaded, hi]

/-- The queued inference changes nothing but the plugin, and not which model is loaded. -/
theorem perform_runInference (e : Environment) (w : World) :
    ∃ plugin r, perform e .runInference w = ({ w with plugin := plugin }, r) ∧
      plugin.loaded = w.plugin.loaded := by
  unfold perform
  split
  all_goals try contradiction
  split
  next => exact ⟨_, _, rfl, Plugin.runInference_loaded _ _ _ _⟩
  next => exact ⟨w.plugin, .threw, rfl, rfl⟩

theorem World.unloadModel_loaded {w : World} (h : w.bindings = false → w.plugin.loaded = none) :
    w.unloadModel.plugin.loaded = none := by
  unfold unloadModel
  split
  next => exact w.plugin.unloadModel_loaded
  next hb => exact h (by simpa using hb)

@[simp] theorem World.unloadModel_bindings (w : World) : w.unloadModel.bindings = w.bindings := by
  unfold unloadModel
  split <;> rfl

@[simp] theorem World.unloadModel_files (w : World) : w.unloadModel.files = w.files := by
  unfold unloadModel
  split <;> rfl

theorem World.loadModel_files (w : World) (file : String) (o : LoadOutcome) :
    (w.loadModel file o).1.files = w.files := by
  unfold loadModel
  split <;> rfl

section Specs

variable (sc : Script) {m : Machine}

theorem Script.ffiReady_bound (hb : m.Bound) (hr : sc.ffiReady m = true) :
    (m.world.bindings || (!m.service.ffiInitialized && sc.engine.isOk)) = true := by
  cases hi : m.service.ffiInitialized with
  | true => simp [hb hi]
  | false =>
    simp only [ffiReady, hi, Bool.false_or, Bool.and_eq_true] at hr
    simp [hr.1]

theorem view_initModel (h : m.WellFormed) (c : Caller) :
    (solo sc.environment (m.initModel c)).1.view = sc.initView m m.view.selected m.view.loaded ∧
      (solo sc.environment (m.initModel c)).1.WellFormed ∧
      (solo sc.environment (m.initModel c)).2 = .done (.value (sc.reachesLoad m && sc.load.succeeds)) ∧
      (solo sc.environment (m.initModel c)).1.service.ffiInitialized = sc.ffiReady m := by
  obtain ⟨files, eq⟩ := solo_initModel sc h.bound c
  rw [eq]
  have bound := sc.ffiReady_bound h.bound
  cases hr : sc.reachesLoad m with
  | true =>
    have ready : sc.ffiReady m = true := by
      simp only [Script.reachesLoad, Bool.and_eq_true] at hr
      exact hr.1.1.1.1
    refine ⟨?_, ⟨fun _ => bound ready, fun hn => ?_⟩, ?_, rfl⟩
    · simp [Machine.loadEnd, Machine.view, Script.initView, hr, Plugin.loadModel_loaded,
        VoiceService.getAssetPath]
    · simp only [Machine.loadEnd, if_true] at hn
      rw [bound ready] at hn
      cases hn
    · simp [Machine.loadEnd]
  | false =>
    refine ⟨?_, ⟨bound, fun hn => h.held ?_⟩, ?_, rfl⟩
    · simp [Machine.loadEnd, Machine.view, Script.initView, hr]
    · simp only [Machine.loadEnd, Bool.false_eq_true, if_false, Bool.or_eq_false_iff] at hn
      exact hn.1
    · simp [Machine.loadEnd]

/-- `exists` and then `delete` on `_currentModelFile`, as `switchModel` and `dispose` await
them: `found` and `gone` are the points after the two awaits, `after` is the code behind. -/
theorem solo_discard (found gone : Cont) (after : Machine → Machine × Task) {file : String}
    (hf : m.service.currentModelFile = some file) (probe : sc.io found = sc.probe)
    (delete : sc.io gone = sc.delete)
    (present : ∀ e m, resume e found (.answer true) m = m.deleteCurrent gone)
    (absent : ∀ e m, resume e found (.answer false) m = after m)
    (failed : ∀ e m, resume e found .threw m = (m, .done .error))
    (deleted : ∀ e m, resume e gone .done m = after m)
    (stuck : ∀ e m, resume e gone .threw m = (m, .done .error)) :
    ∃ files, solo sc.environment (m, .blocked (.exists file) found) =
      if sc.clears m then solo sc.environment (after ⟨m.service, { m.world with files := files }⟩)
      else (⟨m.service, { m.world with files := files }⟩, .done .error) := by
  rw [solo_blocked, solo_ready]
  cases hp : sc.probe with
  | missing =>
    refine ⟨(m.world.removeFile file).files, ?_⟩
    simp [perform, Script.environment, probe, hp, absent, Script.clears, hf, World.removeFile]
  | fail left =>
    refine ⟨m.world.files, ?_⟩
    simp [perform, Script.environment, probe, hp, failed, Script.clears, hf]
  | ok =>
    cases hx : m.world.files file with
    | none =>
      refine ⟨m.world.files, ?_⟩
      simp [perform, Script.environment, probe, hp, hx, absent, Script.clears, hf]
    | some data =>
      simp only [perform, Script.environment, probe, hp, hx, Option.isSome_some, present, Machine.deleteCurrent,
        hf]
      rw [solo_blocked, solo_ready]
      cases hd : sc.delete with
      | ok =>
        refine ⟨(m.world.removeFile file).files, ?_⟩
        simp [perform, Script.environment, delete, hd, hx, hp, deleted, Script.clears, hf, World.removeFile,
          IoOutcome.isOk]
      | missing =>
        refine ⟨(m.world.removeFile file).files, ?_⟩
        simp [perform, Script.environment, delete, hd, hx, hp, stuck, Script.clears, hf, World.removeFile,
          IoOutcome.isOk]
      | fail left =>
        refine ⟨m.world.files, ?_⟩
        simp [perform, Script.environment, delete, hd, hx, hp, stuck, Script.clears, hf, IoOutcome.isOk]

theorem Machine.WellFormed.unload (h : m.WellFormed) (files : String → Option Contents) :
    Machine.WellFormed ⟨m.service, { m.world.unloadModel with files := files }⟩ :=
  ⟨fun hi => (m.world.unloadModel_bindings).trans (h.bound hi),
    fun _ => World.unloadModel_loaded h.held⟩

theorem switchModel_early {newType : String}
    (h : m.service.isInitialized = false ∨ newType = m.service.selectedModelType) :
    m.switchModel newType = (m, .done (.value m.service.isInitialized)) := by
  cases hi : m.service.isInitialized with
  | false => simp [Machine.switchModel, hi]
  | true =>
    have hn : newType = m.service.selectedModelType := h.resolve_left (by simp [hi])
    simp [Machine.switchModel, hi, hn]

theorem switchModel_active {newType file : String} (hi : m.service.isInitialized = true)
    (hn : newType ≠ m.service.selectedModelType) (current : m.service.currentModelFile = some file) :
    m.switchModel newType = (⟨m.service, m.world.unloadModel⟩, .blocked (.exists file) (.switchModelExists newType)) := by
  simp [Machine.switchModel, hi, hn, current]

theorem dispose_none (current : m.service.currentModelFile = none) :
    m.dispose = Machine.disposeEnd ⟨m.stopListening.service, m.stopListening.world.unloadModel⟩ := by
  simp only [Machine.dispose]
  rw [show m.stopListening.service.currentModelFile = none from current]

theorem dispose_some {file : String} (current : m.service.currentModelFile = some file) :
    m.dispose = (⟨m.stopListening.service, m.stopListening.world.unloadModel⟩,
      .blocked (.exists file) .disposeExists) := by
  simp only [Machine.dispose]
  rw [show m.stopListening.service.currentModelFile = some file from current]

/-- A `switchModel` to another type, alone: the old model is gone in every case. -/
theorem view_switchModel (h : m.WellFormed) (hi : m.service.isInitialized = true) {newType : String}
    (hn : newType ≠ m.service.selectedModelType) :
    (solo sc.environment (m.switchModel newType)).1.view = (if sc.clears m then sc.initView m newType none
      else { m.view with loaded := none }) ∧
      (solo sc.environment (m.switchModel newType)).1.WellFormed ∧
      (solo sc.environment (m.switchModel newType)).2 = (if sc.clears m then
        .done (.value (sc.reachesLoad m && sc.load.succeeds)) else .done .error) ∧
      (sc.clears m = true → (solo sc.environment (m.switchModel newType)).1.service.ffiInitialized = sc.ffiReady m) := by
  have gone : m.world.unloadModel.plugin.loaded = none := World.unloadModel_loaded h.held
  have init : ∀ files, let next := Machine.switchModelInit ⟨m.service, { m.world.unloadModel with files := files }⟩ newType
      (solo sc.environment next).1.view = sc.initView m newType none ∧
      (solo sc.environment next).1.WellFormed ∧
      (solo sc.environment next).2 = .done (.value (sc.reachesLoad m && sc.load.succeeds)) ∧
      (solo sc.environment next).1.service.ffiInitialized = sc.ffiReady m := by
    intro files
    have ready := view_initModel sc
      (m := ⟨{ m.service with selectedModelType := newType }, { m.world.unloadModel with files := files }⟩)
      ⟨(h.unload files).bound, (h.unload files).held⟩ .switchModel
    simpa [Machine.switchModelInit, Machine.view, gone, Script.initView, Script.reachesLoad, Script.ffiReady]
      using ready
  cases hf : m.service.currentModelFile with
  | none =>
    have start : m.switchModel newType = Machine.switchModelInit ⟨m.service, m.world.unloadModel⟩ newType := by
      simp [Machine.switchModel, hi, hn, hf]
    have clears : sc.clears m = true := by simp [Script.clears, hf]
    obtain ⟨view, wf, ended, ffi⟩ := init m.world.unloadModel.files
    rw [start, clears]
    exact ⟨view, wf, ended, fun _ => ffi⟩
  | some file =>
    have start := switchModel_active hi hn hf
    have same : sc.clears ⟨m.service, m.world.unloadModel⟩ = sc.clears m := by simp [Script.clears]
    obtain ⟨files, eq⟩ := solo_discard sc (m := ⟨m.service, m.world.unloadModel⟩)
      (.switchModelExists newType) (.switchModelDelete newType) (fun m => m.switchModelInit newType)
      hf rfl rfl (fun _ _ => rfl) (fun _ _ => rfl) (fun _ _ => rfl) (fun _ _ => rfl) (fun _ _ => rfl)
    rw [start, eq, same]
    cases hc : sc.clears m with
    | true =>
      obtain ⟨view, wf, ended, ffi⟩ := init files
      exact ⟨view, wf, ended, fun _ => ffi⟩
    | false => exact ⟨by simp [Machine.view, gone], h.unload files, rfl, by simp⟩

theorem view_dispose (h : m.WellFormed) :
    (solo sc.environment m.dispose).1.view = (if sc.clears m then ⟨m.view.selected, false, none⟩
      else { m.view with loaded := none }) ∧ (solo sc.environment m.dispose).1.WellFormed := by
  let stopped : Machine := ⟨m.stopListening.service, m.stopListening.world.unloadModel⟩
  have same : sc.clears stopped = sc.clears m := by
    simp [Script.clears, stopped, Machine.stopListening, World.cancelTimer]
  have hs : m.stopListening.WellFormed := ⟨h.bound, h.held⟩
  have gone : stopped.world.plugin.loaded = none := World.unloadModel_loaded hs.held
  have ended : ∀ files, let last := Machine.disposeEnd ⟨stopped.service, { stopped.world with files := files }⟩
      (solo sc.environment last).1.view = ⟨m.view.selected, false, none⟩ ∧
        (solo sc.environment last).1.WellFormed := by
    intro files
    refine ⟨congrArg (View.mk m.view.selected false) gone, ?_, ?_⟩
    · intro hi
      simp [Machine.disposeEnd] at hi
    · exact fun _ => gone
  cases hf : m.service.currentModelFile with
  | none =>
    have clears : sc.clears m = true := by simp [Script.clears, hf]
    rw [dispose_none hf, clears]
    exact ended stopped.world.files
  | some file =>
    obtain ⟨files, eq⟩ := solo_discard sc (m := stopped) .disposeExists .disposeDelete Machine.disposeEnd
      hf rfl rfl (fun _ _ => rfl) (fun _ _ => rfl) (fun _ _ => rfl) (fun _ _ => rfl) (fun _ _ => rfl)
    rw [dispose_some hf, eq, same]
    cases hc : sc.clears m with
    | true => exact ended files
    | false => exact ⟨congrArg (View.mk m.view.selected m.view.initialized) gone, hs.unload files⟩

theorem view_tick (h : m.WellFormed) (timer : Nat) :
    (solo sc.environment (m.tick timer)).1.view = m.view ∧ (solo sc.environment (m.tick timer)).1.WellFormed := by
  unfold Machine.tick
  split
  next =>
    obtain ⟨plugin, r, eq, loaded⟩ := perform_runInference (sc.environment .runInference) m.world
    have held : m.world.bindings = false → plugin.loaded = none := fun hn => loaded.trans (h.held hn)
    rw [solo_blocked, solo_ready, eq]
    cases r with
    | result value => exact ⟨congrArg (View.mk m.view.selected m.view.initialized) loaded, h.bound, held⟩
    | _ => exact ⟨congrArg (View.mk m.view.selected m.view.initialized) loaded, h.bound, held⟩
  next => exact ⟨rfl, h⟩

theorem view_startListening (h : m.WellFormed) : m.startListening.view = m.view ∧ m.startListening.WellFormed := by
  unfold Machine.startListening
  split
  next => exact ⟨rfl, h⟩
  next => exact ⟨rfl, h.bound, h.held⟩

theorem view_stopListening (h : m.WellFormed) : m.stopListening.view = m.view ∧ m.stopListening.WellFormed :=
  ⟨rfl, h.bound, h.held⟩

theorem view_toggleListening (h : m.WellFormed) : m.toggleListening.view = m.view ∧ m.toggleListening.WellFormed := by
  unfold Machine.toggleListening
  split
  next => exact ⟨rfl, h⟩
  next =>
    split
    next => exact view_stopListening h
    next => exact view_startListening h

end Specs

theorem view_next {m : Machine} (h : m.WellFormed) (c : Call × Script) :
    (m.next c).view = m.viewAfter c ∧ (m.next c).WellFormed := by
  obtain ⟨call, sc⟩ := c
  cases call with
  | initModel =>
    obtain ⟨view, wf, _⟩ := view_initModel sc h .direct
    exact ⟨view, wf⟩
  | switchModel newType =>
    simp only [Machine.next, Machine.call, Machine.start, Machine.viewAfter]
    by_cases early : m.service.isInitialized = false ∨ newType = m.service.selectedModelType
    · rw [if_pos early, switchModel_early early]
      exact ⟨rfl, h⟩
    · rw [if_neg early]
      rw [not_or] at early
      obtain ⟨view, wf, _⟩ := view_switchModel sc h (by simpa using early.1) early.2
      exact ⟨view, wf⟩
  | setModelType type =>
    simp only [Machine.next, Machine.call, Machine.start, solo_done, Machine.viewAfter, Machine.setModelType]
    split
    next => exact ⟨rfl, h.bound, h.held⟩
    next => exact ⟨rfl, h⟩
  | startListening => exact view_startListening h
  | stopListening => exact view_stopListening h
  | toggleListening => exact view_toggleListening h
  | dispose => exact view_dispose sc h
  | tick timer => exact view_tick sc h timer

theorem next_wellFormed (m : Machine) (c : Call × Script) (h : m.WellFormed) : (m.next c).WellFormed :=
  (view_next h c).2

theorem Machine.initial_wellFormed : Machine.initial.WellFormed :=
  ⟨fun hi => absurd hi (by decide), fun _ => rfl⟩

end AuroraVoice
