import AuroraVoice.Runs
import AuroraVoice.Plugin
import Mathlib.Tactic.ByContra

namespace AuroraVoice

variable {Bytes : Type}

def TfLiteCall.touchesTensor : TfLiteCall → Bool
  | .tensorCopyFromBuffer _ _ => true
  | .interpreterInvoke _ => true
  | _ => false

def NativeResult.Reaches (r : NativeResult Bytes) : Prop := ∃ c ∈ r.calls, c.touchesTensor = true

/-- What became of the last `load_model` with a path: none yet or unloaded since, returned 1,
returned 0 at `AllocateTensors`, or returned 0 before it. -/
inductive LoadStatus
  | idle
  | loaded
  | unallocated
  | refused
  deriving DecidableEq

structure GuardState (Bytes : Type) where
  plugin : Plugin Bytes
  status : LoadStatus

def GuardState.initial : GuardState Bytes := ⟨Plugin.initial, .idle⟩

def GuardState.nextStatus (s : GuardState Bytes) : NativeCall Bytes → LoadStatus
  | .loadModel (some path) file o =>
    if (s.plugin.loadModel (some path) file o).value = 1 then .loaded
    else if o.model ∧ file.isSome ∧ o.interpreter then .unallocated else .refused
  | .loadModel none _ _ => s.status
  | .runInference _ _ _ => s.status
  | .unloadModel => .idle

def GuardState.step (s : GuardState Bytes) (c : NativeCall Bytes) : GuardState Bytes :=
  ⟨s.plugin.next c, s.nextStatus c⟩

/-- An inference touches a tensor only after a load that returned 1, and otherwise returns -1. -/
def GuardedInference (s : GuardState Bytes) : NativeCall Bytes → Prop
  | .runInference pcm length o =>
    ((s.plugin.runInference pcm length o).Reaches → s.status = .loaded) ∧
      (s.status ≠ .loaded → (s.plugin.runInference pcm length o).value = -1 ∧
        ¬ (s.plugin.runInference pcm length o).Reaches)
  | _ => True

def PassesChecks (pcm : Option (List Int16)) (length : Int32) (o : InferenceOutcome) : Prop :=
  pcm.isSome ∧ 0 < length ∧ ∃ bytes, o.input = some bytes ∧ length.toNatClampNeg * 2 ≤ bytes

/-- No inference that passes the checks is run on an interpreter without tensors. -/
def TensorsAllocated (s : GuardState Bytes) : NativeCall Bytes → Prop
  | .runInference pcm length o => s.status = .unallocated → ¬ PassesChecks pcm length o
  | _ => True

/-- The static `interpreter` is set after a load that returned 1, but also after one that failed
at `AllocateTensors`. -/
def GuardState.Tracks (s : GuardState Bytes) : Prop :=
  s.plugin.interpreter.isSome ↔ s.status = .loaded ∨ s.status = .unallocated

theorem Plugin.runInference_reaches_iff (p : Plugin Bytes) (pcm : Option (List Int16)) (length : Int32)
    (o : InferenceOutcome) :
    (p.runInference pcm length o).Reaches ↔ p.interpreter.isSome ∧ PassesChecks pcm length o := by
  cases hi : p.interpreter with
  | none => simp [runInference_null hi, NativeResult.Reaches]
  | some i =>
    cases pcm with
    | none => simp [runInference, hi, NativeResult.Reaches, PassesChecks]
    | some samples =>
      by_cases hl : length ≤ 0
      · have hn : ¬ 0 < length := by simpa using hl
        simp [runInference, hi, hl, hn, NativeResult.Reaches, PassesChecks]
      · have hp : 0 < length := by simpa using hl
        cases hb : o.input with
        | none =>
          simp [runInference, hi, hl, hb, NativeResult.Reaches, PassesChecks, TfLiteCall.touchesTensor]
        | some bytes =>
          by_cases hs : bytes < length.toNatClampNeg * 2
          · have hn : ¬ length.toNatClampNeg * 2 ≤ bytes := by omega
            simp [runInference, hi, hl, hb, hs, hn, NativeResult.Reaches, PassesChecks,
              TfLiteCall.touchesTensor]
          · have hle : length.toNatClampNeg * 2 ≤ bytes := by omega
            simp only [runInference, hi, hl, hb, hs, if_false, NativeResult.Reaches, PassesChecks]
            refine ⟨fun _ => ⟨rfl, rfl, hp, bytes, rfl, hle⟩, fun _ => ?_⟩
            refine ⟨.tensorCopyFromBuffer i.handle (length.toNatClampNeg * 2), ?_, rfl⟩
            split
            next => simp
            next =>
              split
              next => simp
              next => split <;> simp

theorem Plugin.runInference_value_of_not_reaches {p : Plugin Bytes} {pcm : Option (List Int16)}
    {length : Int32} {o : InferenceOutcome} (h : ¬ (p.runInference pcm length o).Reaches) :
    (p.runInference pcm length o).value = -1 := by
  rw [runInference_reaches_iff] at h
  unfold runInference
  split
  next i samples hi =>
    split
    next => rfl
    next hl =>
      split
      next => rfl
      next bytes hb =>
        dsimp only
        split
        next => rfl
        next hs =>
          exact absurd ⟨by simp [hi], rfl, by simpa using hl, bytes, hb, by omega⟩ h
  next => rfl

theorem GuardState.initial_tracks : (GuardState.initial : GuardState Bytes).Tracks := by
  simp [Tracks, initial, Plugin.initial]

theorem GuardState.step_tracks (s : GuardState Bytes) (c : NativeCall Bytes) (h : s.Tracks) :
    (s.step c).Tracks := by
  cases c with
  | loadModel path file o =>
    cases path with
    | none => exact h
    | some path =>
      simp only [Tracks, step, nextStatus, Plugin.next, Plugin.call, Plugin.loadModel, Plugin.release_eq]
      cases file with
      | none => simp
      | some bytes => cases o.model <;> cases o.interpreter <;> cases o.allocate <;> simp
  | runInference pcm length o =>
    have same : (s.plugin.runInference pcm length o).plugin.interpreter.isSome =
        s.plugin.interpreter.isSome := by
      cases hi : s.plugin.interpreter with
      | none => rw [Plugin.runInference_null hi, hi]
      | some i =>
        rcases Plugin.runInference_plugin pcm length o hi with eq | ⟨input, eq⟩ <;> simp [eq, hi]
    simp only [Tracks, step, nextStatus, Plugin.next, Plugin.call, same]
    exact h
  | unloadModel =>
    simp [Tracks, step, nextStatus, Plugin.next, Plugin.call, Plugin.unloadModel, Plugin.release_eq]

theorem guardedInference_iff (s : GuardState Bytes) (c : NativeCall Bytes) (h : s.Tracks) :
    GuardedInference s c ↔ TensorsAllocated s c := by
  cases c with
  | loadModel path file o => exact Iff.rfl
  | unloadModel => exact Iff.rfl
  | runInference pcm length o =>
    have reach := s.plugin.runInference_reaches_iff pcm length o
    rw [show s.plugin.interpreter.isSome ↔ _ from h] at reach
    simp only [GuardedInference, TensorsAllocated]
    constructor
    · -- the pointer check passes after a failed `AllocateTensors` as well
      intro guarded hu pass
      exact (guarded.2 (by simp [hu])).2 (reach.mpr ⟨Or.inr hu, pass⟩)
    · intro allocated
      have closed : s.status ≠ .loaded → ¬ (s.plugin.runInference pcm length o).Reaches := by
        intro hn hr
        obtain ⟨hs, pass⟩ := reach.mp hr
        exact allocated (hs.resolve_left hn) pass
      refine ⟨fun hr => ?_, fun hn => ⟨Plugin.runInference_value_of_not_reaches (closed hn), closed hn⟩⟩
      by_contra hn
      exact closed hn hr

/-- Over every sequence of native calls and every answer of TFLite, the inferences are guarded
by a successful load exactly when none of them runs on the interpreter that a failed
`AllocateTensors` left behind. -/
theorem inference_guarded_iff_allocated (calls : List (NativeCall Bytes)) :
    Runs.Along GuardState.step GuardedInference GuardState.initial calls ↔
      Runs.Along GuardState.step TensorsAllocated GuardState.initial calls :=
  Runs.along_congr GuardState.step_tracks guardedInference_iff GuardState.initial_tracks calls

theorem inference_reaches_unallocated_tensor :
    ¬ Runs.Along GuardState.step GuardedInference (GuardState.initial : GuardState Unit)
      [.loadModel (some "/tmp/model_float32.tflite") (some ()) ⟨true, true, false, []⟩,
        .runInference (some [0]) 1 ⟨some 4, false, false, none, 0⟩] := by
  intro h
  have guarded := h.2.1
  have idle := guarded.1 ⟨.tensorCopyFromBuffer 2 2, by decide, rfl⟩
  revert idle
  decide

end AuroraVoice
