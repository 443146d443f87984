import AuroraVoice.ModelIdentity
import AuroraVoice.Progress

namespace AuroraVoice

inductive ModelCall
  | initModel
  | switchModel (newType : String)
  deriving DecidableEq

def ModelCall.call : ModelCall → Call
  | .initModel => .initModel
  | .switchModel newType => .switchModel newType

def ModelCall.Valid : ModelCall → Prop
  | .initModel => True
  | .switchModel newType => newType ∈ modelTypes

def ModelCall.caller : ModelCall → Caller
  | .initModel => .direct
  | .switchModel _ => .switchModel

/-- The type that is in use once the call has succeeded. -/
def ModelCall.target (selected : String) : ModelCall → String
  | .initModel => selected
  | .switchModel newType => newType

def ModelCall.Early (v : View) : ModelCall → Prop
  | .initModel => False
  | .switchModel newType => v.initialized = false ∨ newType = v.selected

instance decidableEarly (v : View) : ∀ x : ModelCall, Decidable (x.Early v)
  | .initModel => inferInstanceAs (Decidable False)
  | .switchModel newType => inferInstanceAs (Decidable (v.initialized = false ∨ newType = v.selected))

def View.inUse (type : String) : View := ⟨type, true, some (.asset (assetOf type))⟩

/-- What a call makes of the view, and its result, when nothing fails. -/
def View.change (v : View) (x : ModelCall) : View × Bool :=
  if x.Early v then (v, v.initialized) else (.inUse (x.target v.selected), true)

theorem View.change_early {v : View} {x : ModelCall} (h : x.Early v) : v.change x = (v, v.initialized) := if_pos h

theorem View.change_active {v : View} {x : ModelCall} (h : ¬ x.Early v) :
    v.change x = (.inUse (x.target v.selected), true) := if_neg h

theorem View.change_inUse {type : String} {x : ModelCall} (h : x.target type = type) :
    (View.inUse type).change x = (.inUse type, true) := by
  cases x with
  | initModel => rfl
  | switchModel newType => exact change_early (Or.inr h)

theorem Script.fine_clears (m : Machine) : Script.fine.clears m = true := by
  cases hf : m.service.currentModelFile <;> simp [Script.clears, Script.fine, hf, IoOutcome.isOk]

theorem Script.fine_ffiReady {m : Machine} (h : m.service.ffiInitialized = true) :
    Script.fine.ffiReady m = true := by
  simp [Script.ffiReady, h]

theorem Script.fine_reachesLoad {m : Machine} (h : m.service.ffiInitialized = true) :
    Script.fine.reachesLoad m = true := by
  rw [reachesLoad, fine_ffiReady h]
  rfl

section Calls

variable {m : Machine} {x : ModelCall}

theorem start_early (h : x.Early m.view) :
    m.start x.call = (m, .done (.value m.service.isInitialized)) := by
  cases x with
  | initModel => exact h.elim
  | switchModel newType => exact switchModel_early h

theorem start_aims (h : ¬ x.Early m.view) :
    Keeps (x.target m.service.selectedModelType) m (m.start x.call).1 ∧
      Aims (x.target m.service.selectedModelType) (m.start x.call).1 x.caller (m.start x.call).2 ∧
      (m.start x.call).1.service.isInitialized = m.service.isInitialized := by
  cases x with
  | initModel =>
    simp only [Machine.start, ModelCall.call, ModelCall.target, ModelCall.caller, Machine.initModel_fst]
    exact ⟨Keeps.refl _ m, Aims.initModel rfl .direct, trivial⟩
  | switchModel newType =>
    have active : m.service.isInitialized = true ∧ newType ≠ m.service.selectedModelType := by
      simpa [ModelCall.Early, Machine.view] using h
    have unloaded : Keeps newType m ⟨m.service, m.world.unloadModel⟩ :=
      ⟨id, fun hw => absurd hw.1.symm active.2, fun hl => absurd hl.1.symm active.2, id⟩
    simp only [Machine.start, ModelCall.call, ModelCall.target, ModelCall.caller, Machine.switchModel, active.1,
      active.2, Bool.not_true, Bool.false_eq_true, if_false]
    split
    next file hf => exact ⟨unloaded, .probe file, active.1⟩
    next =>
      obtain ⟨keeps, aims⟩ := Aims.switchModelInit newType ⟨m.service, m.world.unloadModel⟩
      exact ⟨unloaded.trans keeps, aims, keeps.initialized active.1⟩

theorem call_fine (h : m.WellFormed) (hf : m.service.ffiInitialized = true) (x : ModelCall) :
    (m.call (x.call, Script.fine)).1.view = (m.view.change x).1 ∧
      (m.call (x.call, Script.fine)).2 = .done (.value (m.view.change x).2) ∧
      (m.call (x.call, Script.fine)).1.WellFormed ∧
      (m.call (x.call, Script.fine)).1.service.ffiInitialized = true := by
  have reaches := Script.fine_reachesLoad hf
  have ready := Script.fine_ffiReady hf
  have loads : Script.fine.load.succeeds = true := rfl
  by_cases early : x.Early m.view
  · simp only [Machine.call, start_early early, solo_done, View.change, if_pos early]
    exact ⟨trivial, rfl, h, hf⟩
  · simp only [View.change, if_neg early]
    cases x with
    | initModel =>
      obtain ⟨view, wf, ended, ffi⟩ := view_initModel Script.fine h .direct
      refine ⟨view.trans ?_, ended.trans ?_, wf, ffi.trans ready⟩
      · simp [Script.initView, reaches, loads, ModelCall.target, View.inUse]
      · simp [reaches, loads]
    | switchModel newType =>
      have active : m.service.isInitialized = true ∧ newType ≠ m.service.selectedModelType := by
        simpa [ModelCall.Early, Machine.view] using early
      obtain ⟨view, wf, ended, ffi⟩ := view_switchModel Script.fine h active.1 active.2
      have clears := Script.fine_clears m
      rw [if_pos clears] at view ended
      refine ⟨view.trans ?_, ended.trans ?_, wf, (ffi clears).trans ready⟩
      · simp [Script.initView, reaches, loads, ModelCall.target, View.inUse]
      · simp [reaches, loads]

end Calls

end AuroraVoice
