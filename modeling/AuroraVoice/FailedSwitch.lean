import AuroraVoice.Readiness

namespace AuroraVoice

section Switch

variable (sc : Script) {m : Machine} {newType : String}

theorem solo_switchModelInit (newType : String) (h : m.WellFormed) (left : String → Option Contents) :
    ∃ files, solo sc.environment (Machine.switchModelInit ⟨m.service, { m.world.unloadModel with files := left }⟩ newType) =
      Machine.loadEnd
        ⟨{ m.service with selectedModelType := newType, ffiInitialized := sc.ffiReady m },
          { m.world.unloadModel with
            bindings := m.world.bindings || (!m.service.ffiInitialized && sc.engine.isOk), files := left }⟩
        (sc.reachesLoad m) (modelPath newType) (.asset (assetOf newType)) sc.load files := by
  obtain ⟨files, eq⟩ := solo_initModel sc (c := .switchModel)
    (m := ⟨{ m.service with selectedModelType := newType }, { m.world.unloadModel with files := left }⟩)
    (h.unload left).bound
  refine ⟨files, ?_⟩
  simpa [Machine.switchModelInit, Script.ffiReady, Script.reachesLoad, VoiceService.getAssetPath] using eq

/-- A `switchModel` to another type, alone: it throws if the old file cannot be got rid of, and otherwise
ends as the `initModel` for the new type does. -/
theorem solo_switchModel (h : m.WellFormed) (hi : m.service.isInitialized = true)
    (hn : newType ≠ m.service.selectedModelType) :
    ∃ left files, solo sc.environment (m.switchModel newType) =
      if sc.clears m then
        Machine.loadEnd
          ⟨{ m.service with selectedModelType := newType, ffiInitialized := sc.ffiReady m },
            { m.world.unloadModel with
              bindings := m.world.bindings || (!m.service.ffiInitialized && sc.engine.isOk), files := left }⟩
          (sc.reachesLoad m) (modelPath newType) (.asset (assetOf newType)) sc.load files
      else (⟨m.service, { m.world.unloadModel with files := left }⟩, .done .error) := by
  cases hf : m.service.currentModelFile with
  | none =>
    have start : m.switchModel newType = Machine.switchModelInit ⟨m.service, m.world.unloadModel⟩ newType := by
      simp [Machine.switchModel, hi, hn, hf]
    have clears : sc.clears m = true := by simp [Script.clears, hf]
    obtain ⟨files, eq⟩ := solo_switchModelInit sc newType h m.world.unloadModel.files
    refine ⟨m.world.unloadModel.files, files, ?_⟩
    rw [start, if_pos clears]
    exact eq
  | some file =>
    have same : sc.clears ⟨m.service, m.world.unloadModel⟩ = sc.clears m := by simp [Script.clears]
    obtain ⟨left, eq⟩ := solo_discard sc (m := ⟨m.service, m.world.unloadModel⟩)
      (.switchModelExists newType) (.switchModelDelete newType) (fun m => m.switchModelInit newType)
      hf rfl rfl (fun _ _ => rfl) (fun _ _ => rfl) (fun _ _ => rfl) (fun _ _ => rfl) (fun _ _ => rfl)
    obtain ⟨files, init⟩ := solo_switchModelInit sc newType h left
    refine ⟨left, files, ?_⟩
    rw [switchModel_active hi hn hf, eq, same]
    exact congrArg (if sc.clears m = true then · else _) init

end Switch

/-- Nothing that a switch is about has changed. -/
def Unchanged (m next : Machine) : Prop :=
  next.service.selectedModelType = m.service.selectedModelType ∧
    next.service.isInitialized = m.service.isInitialized ∧
    next.service.currentModelFile = m.service.currentModelFile ∧
    next.world.plugin.loaded = m.world.plugin.loaded

/-- A `switchModel` that fails has given up the old model. One that throws has changed nothing else, and
one that returns false keeps the flag, and keeps the file unless it got to the native load. -/
theorem failed_switch_keeps (calls : List (Call × Script)) (type : String) (sc : Script) :
    let m := Runs.run Machine.next Machine.initial calls
    let after := m.call (.switchModel type, sc)
    m.service.isInitialized = true → type ≠ m.service.selectedModelType → after.2 ≠ .done (.value true) →
      after.1.world.plugin.loaded = none ∧ after.1.service.isInitialized = m.service.isInitialized ∧
      ((after.2 = .done .error ∧ after.1.service.selectedModelType = m.service.selectedModelType ∧
          after.1.service.currentModelFile = m.service.currentModelFile) ∨
        (after.2 = .done (.value false) ∧ after.1.service.currentModelFile =
          if sc.reachesLoad m then some (modelPath type) else m.service.currentModelFile)) := by
  intro m after hi hn failed
  have h : m.WellFormed := Runs.run_induction next_wellFormed Machine.initial_wellFormed calls
  have gone : m.world.unloadModel.plugin.loaded = none := World.unloadModel_loaded h.held
  obtain ⟨left, files, eq⟩ := solo_switchModel sc h hi hn
  have ended : after = _ := eq
  rw [ended] at failed ⊢
  cases clears : sc.clears m with
  | false =>
    simp only [Bool.false_eq_true, if_false]
    exact ⟨gone, trivial, Or.inl ⟨trivial, trivial, trivial⟩⟩
  | true =>
    simp only [clears, if_true] at failed ⊢
    cases reached : sc.reachesLoad m with
    | false => exact ⟨gone, rfl, Or.inr ⟨rfl, rfl⟩⟩
    | true =>
      have refused : sc.load.succeeds = false := by
        cases hl : sc.load.succeeds with
        | false => rfl
        | true => simp [Machine.loadEnd, reached, hl] at failed
      refine ⟨?_, ?_, Or.inr ⟨?_, rfl⟩⟩
      · simp [Machine.loadEnd, Plugin.loadModel_loaded, refused]
      · simp [Machine.loadEnd, refused]
      · simp [Machine.loadEnd, refused]

def Script.noAsset : Script := { Script.fine with asset := .fail none }

/-- The asset of the new model cannot be loaded: the old model is gone all the same. -/
theorem failed_switch_loses_model :
    let m := Runs.run Machine.next Machine.initial [(.initModel, Script.fine)]
    let after := m.call (.switchModel modelInt8, Script.noAsset)
    m.service.isInitialized = true ∧ m.world.plugin.loaded = some (.asset (assetOf modelFloat32)) ∧
      modelInt8 ∈ modelTypes ∧ modelInt8 ≠ m.service.selectedModelType ∧ after.2 = .done (.value false) ∧
      ¬ Unchanged m after.1 := by
  intro m after
  have flag : m.service.isInitialized = true := by decide
  have loaded : m.world.plugin.loaded = some (.asset (assetOf modelFloat32)) := by decide
  have other : modelInt8 ≠ m.service.selectedModelType := by decide
  have failed : after.2 = .done (.value false) := by decide
  have selected : after.1.service.selectedModelType = modelInt8 := by decide
  refine ⟨flag, loaded, by decide, other, failed, fun same => ?_⟩
  exact other (selected.symm.trans same.1)

theorem failed_switch_keeps_flag :
    ((Runs.run Machine.next Machine.initial [(.initModel, Script.fine)]).call
      (.switchModel modelInt8, Script.noAsset)).1.service.isInitialized = true := by
  have keeps := failed_switch_keeps [(.initModel, Script.fine)] modelInt8 Script.noAsset
    (by decide) (by decide) (by decide)
  exact keeps.2.1.trans (by decide)

end AuroraVoice
