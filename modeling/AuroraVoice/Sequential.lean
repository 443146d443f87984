import AuroraVoice.Solo

namespace AuroraVoice

/-- How everything outside answers during one call that runs alone: one outcome for each
operation the call can wait for, in the order of the source, and the native answers. -/
structure Script where
  probe : IoOutcome
  delete : IoOutcome
  engine : IoOutcome
  asset : IoOutcome
  write : IoOutcome
  check : IoOutcome
  length : IoOutcome
  load : LoadOutcome
  inference : InferenceOutcome

def Script.io (sc : Script) : Cont → IoOutcome
  | .switchModelExists _ => sc.probe
  | .disposeExists => sc.probe
  | .switchModelDelete _ => sc.delete
  | .disposeDelete => sc.delete
  | .initFfiPlugin _ _ => sc.engine
  | .initModelAsset _ => sc.asset
  | .initModelWrite _ _ => sc.write
  | .initModelExists _ _ => sc.check
  | .initModelLength _ _ => sc.length
  | _ => .ok

def Script.environment (sc : Script) (k : Cont) : Environment := ⟨sc.io k, sc.load, sc.inference⟩

def Machine.call (m : Machine) (c : Call × Script) : Machine × Task :=
  solo c.2.environment (m.start c.1)

def Machine.next (m : Machine) (c : Call × Script) : Machine := (m.call c).1

def IoOutcome.isOk : IoOutcome → Bool
  | .ok => true
  | _ => false

def IoOutcome.writes : IoOutcome → Bool
  | .fail _ => false
  | _ => true

theorem perform_loadFfiEngine (e : Environment) (w : World) :
    perform e .loadFfiEngine w = (w, if e.io.isOk then .done else .threw) := by
  obtain ⟨io, load, inference⟩ := e
  cases io <;> rfl

theorem perform_loadAsset (e : Environment) (w : World) (path : String) :
    perform e (.loadAsset path) w = (w, if e.io.isOk then .data (.asset path) else .threw) := by
  obtain ⟨io, load, inference⟩ := e
  cases io <;> rfl

/-- `_initFfi` gets through: it was done before, or the engine loads and the bindings are free. -/
def Script.ffiReady (sc : Script) (m : Machine) : Bool :=
  m.service.ffiInitialized || (sc.engine.isOk && !m.world.bindings)

def Script.reachesLoad (sc : Script) (m : Machine) : Bool :=
  sc.ffiReady m && sc.asset.isOk && sc.write.writes && sc.check.isOk && sc.length.isOk

/-- The service holds no bindings that the isolate does not have. -/
def Machine.Bound (m : Machine) : Prop := m.service.ffiInitialized = true → m.world.bindings = true

def Machine.loadEnd (m : Machine) (reached : Bool) (file : String) (data : Contents) (o : LoadOutcome)
    (files : String → Option Contents) : Machine × Task :=
  if reached then
    (⟨{ m.service with
        currentModelFile := some file
        isInitialized := m.service.isInitialized || o.succeeds },
      { m.world with
        files := files
        plugin := (m.world.plugin.loadModel (some file) (some data) o).plugin }⟩,
      .done (.value o.succeeds))
  else (⟨m.service, { m.world with files := files }⟩, .done (.value false))

section InitModel

variable (sc : Script) {m : Machine} {c : Caller} {file : String} {data : Contents}

theorem solo_initModelLoad (loaded : Bool) :
    solo sc.environment (m, .ready (.answer loaded) (.initModelLoad c)) =
      ({ m with service := { m.service with isInitialized := m.service.isInitialized || loaded } },
        .done (.value loaded)) := by
  rw [solo_ready]
  cases loaded with
  | true => simp [resume]
  | false => simp [resume]

theorem solo_initModelLength (hb : m.world.bindings = true) (hf : m.world.files file = some data) :
    ∃ files, solo sc.environment (m, .blocked (.length file) (.initModelLength c file)) =
      m.loadEnd sc.length.isOk file data sc.load files := by
  rw [solo_blocked, solo_ready]
  cases hl : sc.length with
  | ok =>
    refine ⟨m.world.files, ?_⟩
    have ran : World.loadModel m.world file sc.load =
        ({ m.world with plugin := (m.world.plugin.loadModel (some file) (some data) sc.load).plugin },
          .answer sc.load.succeeds) := by
      have value := m.world.plugin.loadModel_value file (some data) sc.load
      simp only [World.loadModel, hb, if_true, hf, value]
      cases sc.load.succeeds <;> simp
    simp only [perform, Script.environment, Script.io, hl, hf, Option.isSome_some, if_true, resume, ran]
    exact solo_initModelLoad sc _
  | missing =>
    refine ⟨(m.world.removeFile file).files, ?_⟩
    simp [perform, Script.environment, Script.io, hl, resume, IoOutcome.isOk, World.removeFile, Machine.loadEnd]
  | fail left =>
    refine ⟨m.world.files, ?_⟩
    simp [perform, Script.environment, Script.io, hl, resume, IoOutcome.isOk, Machine.loadEnd]

theorem solo_initModelExists (hb : m.world.bindings = true) (hf : m.world.files file = some data) :
    ∃ files, solo sc.environment (m, .blocked (.exists file) (.initModelExists c file)) =
      m.loadEnd (sc.check.isOk && sc.length.isOk) file data sc.load files := by
  rw [solo_blocked, solo_ready]
  cases hc : sc.check with
  | ok =>
    simp only [perform, Script.environment, Script.io, hc, hf, Option.isSome_some, resume]
    exact solo_initModelLength sc hb hf
  | missing =>
    refine ⟨(m.world.removeFile file).files, ?_⟩
    simp [perform, Script.environment, Script.io, hc, resume, IoOutcome.isOk, World.removeFile, Machine.loadEnd]
  | fail left =>
    refine ⟨m.world.files, ?_⟩
    simp [perform, Script.environment, Script.io, hc, resume, IoOutcome.isOk, Machine.loadEnd]

theorem solo_initModelWrite (hb : m.world.bindings = true) :
    ∃ files, solo sc.environment (m, .blocked (.writeAsBytes file data) (.initModelWrite c file)) =
      m.loadEnd (sc.write.writes && (sc.check.isOk && sc.length.isOk)) file data sc.load files := by
  have written : (m.world.writeFile file data).files file = some data := by simp [World.writeFile]
  rw [solo_blocked, solo_ready]
  cases hw : sc.write with
  | ok =>
    simp only [perform, Script.environment, Script.io, hw, resume]
    exact solo_initModelExists sc hb written
  | missing =>
    simp only [perform, Script.environment, Script.io, hw, resume]
    exact solo_initModelExists sc hb written
  | fail left =>
    cases left with
    | none =>
      refine ⟨m.world.files, ?_⟩
      simp [perform, Script.environment, Script.io, hw, resume, IoOutcome.writes, Machine.loadEnd]
    | some left =>
      refine ⟨(m.world.writeFile file left).files, ?_⟩
      simp [perform, Script.environment, Script.io, hw, resume, IoOutcome.writes, World.writeFile, Machine.loadEnd]

/-- From `rootBundle.load` on, `initModel` depends on the selected type only through the asset
path it has already chosen and the file name it is about to choose. -/
theorem solo_initModelFfi (hb : m.world.bindings = true) (path : String) :
    ∃ files, solo sc.environment (m, .ready .done (.initModelFfi c path)) =
      m.loadEnd (sc.asset.isOk && (sc.write.writes && (sc.check.isOk && sc.length.isOk)))
        (modelPath m.service.selectedModelType) (.asset path) sc.load files := by
  rw [solo_ready]
  simp only [resume]
  rw [solo_blocked, solo_ready]
  simp only [perform_loadAsset, Script.environment, Script.io]
  cases sc.asset.isOk with
  | true =>
    simp only [if_true, resume, Bool.true_and]
    exact solo_initModelWrite sc hb
  | false =>
    refine ⟨m.world.files, ?_⟩
    simp [resume, Machine.loadEnd]

theorem solo_initFfi_threw (path : String) :
    solo sc.environment (m, .ready .threw (.initFfi c path)) = (m, .done (.value false)) := by
  rw [solo_ready]
  simp only [resume]
  rw [solo_ready]
  simp [resume]

/-- What `initModel` does when it runs alone: the native side is touched only if every step
before the native load succeeds, and then it is loaded from the asset of the selected type. -/
theorem solo_initModel (hb : m.Bound) (c : Caller) :
    ∃ files, solo sc.environment (m.initModel c) =
      Machine.loadEnd
        ⟨{ m.service with ffiInitialized := sc.ffiReady m },
          { m.world with bindings := m.world.bindings || (!m.service.ffiInitialized && sc.engine.isOk) }⟩
        (sc.reachesLoad m) (modelPath m.service.selectedModelType) (.asset m.service.getAssetPath)
        sc.load files := by
  obtain ⟨service, world⟩ := m
  cases hi : service.ffiInitialized with
  | true =>
    have bound : world.bindings = true := hb hi
    have start : Machine.initModel ⟨service, world⟩ c =
        (⟨service, world⟩, .ready .done (.initModelFfi c service.getAssetPath)) := by
      simp [Machine.initModel, hi]
    have same : ({ service with ffiInitialized := true } : VoiceService) = service := by rw [← hi]
    have keep : ({ world with bindings := true } : World) = world := by rw [← bound]
    obtain ⟨files, eq⟩ := solo_initModelFfi sc (m := ⟨service, world⟩) (c := c) bound service.getAssetPath
    refine ⟨files, ?_⟩
    rw [start, eq]
    simp [Script.reachesLoad, Script.ffiReady, hi, bound, same, keep, Bool.and_assoc]
  | false =>
    have start : Machine.initModel ⟨service, world⟩ c =
        (⟨service, world⟩, .blocked .loadFfiEngine (.initFfiPlugin c service.getAssetPath)) := by
      simp [Machine.initModel, hi]
    have same : ({ service with ffiInitialized := false } : VoiceService) = service := by rw [← hi]
    rw [start, solo_blocked, solo_ready]
    simp only [perform_loadFfiEngine, Script.environment, Script.io]
    cases he : sc.engine.isOk with
    | true =>
      cases hw : world.bindings with
      | true =>
        -- after a `dispose` the bindings are still assigned, and `_initFfi` fails
        have keep : ({ world with bindings := true } : World) = world := by rw [← hw]
        refine ⟨world.files, ?_⟩
        simp only [if_true, resume, hw]
        rw [solo_initFfi_threw]
        simp [Script.reachesLoad, Script.ffiReady, hi, he, hw, same, keep, Machine.loadEnd]
      | false =>
        simp only [if_true, resume, hw, Bool.false_eq_true, if_false]
        rw [solo_ready]
        simp only [resume]
        obtain ⟨files, eq⟩ := solo_initModelFfi sc (c := c)
          (m := ⟨{ service with ffiInitialized := true }, { world with bindings := true }⟩) rfl
          service.getAssetPath
        refine ⟨files, ?_⟩
        rw [eq]
        simp [Script.reachesLoad, Script.ffiReady, hi, he, hw, Bool.and_assoc, VoiceService.getAssetPath]
    | false =>
      refine ⟨world.files, ?_⟩
      simp only [Bool.false_eq_true, if_false, resume]
      rw [solo_initFfi_threw]
      simp [Script.reachesLoad, Script.ffiReady, hi, he, same, Machine.loadEnd]

end InitModel

end AuroraVoice
