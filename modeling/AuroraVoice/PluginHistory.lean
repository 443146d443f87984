import AuroraVoice.Runs
import AuroraVoice.Plugin
import Mathlib.Tactic.ByContra

namespace AuroraVoice

variable {Bytes : Type}

/-- TFLite as a function: what creation, building and allocation answer depends on the file, the
byte size of the first input tensor on the model, and `Invoke` on the model and on the whole
input tensor. An `Invoke` that fails gives `none`, an absent output tensor `some none`. -/
structure TfLite (Bytes : Type) where
  parses : Bytes → Bool
  builds : Bytes → Bool
  allocates : Bytes → Bool
  inputSize : Bytes → Option Nat
  invoke : Bytes → List UInt8 → Option (Option (List UInt8))

/-- A pointer with its length: null, or at least that many samples. -/
structure PcmBuffer where
  samples : Option (List Int16)
  length : Int32
  readable : ∀ xs, samples = some xs → length.toNatClampNeg ≤ xs.length

/-- What `load_model` finds; `garbage` is what fresh tensor memory happens to hold. -/
def TfLite.loadOutcome (T : TfLite Bytes) (file : Option Bytes) (garbage : Nat → UInt8) : LoadOutcome :=
  match file with
  | none => ⟨false, false, false, []⟩
  | some bytes => ⟨T.parses bytes, T.builds bytes, T.allocates bytes,
      (List.range ((T.inputSize bytes).getD 0)).map garbage⟩

/-- What `run_inference` finds on interpreter `i`. The copy fails unless the sizes agree, as in
c_api.cc; `Invoke` then sees the tensor as the copy left it. -/
def TfLite.inferenceOutcome (T : TfLite Bytes) (i : TfLiteInterpreter Bytes) (x : PcmBuffer)
    (stray : BitVec 32) : InferenceOutcome :=
  let size := x.length.toNatClampNeg * 2
  let answer := T.invoke i.file
    (pcmBytes (x.samples.getD []) x.length.toNatClampNeg ++ i.input.drop size)
  ⟨T.inputSize i.file, T.inputSize i.file == some size, answer.isSome, answer.getD none, stray⟩

def TfLite.infer (T : TfLite Bytes) (p : Plugin Bytes) (x : PcmBuffer) (stray : BitVec 32) :
    NativeResult Bytes :=
  match p.interpreter with
  | none => p.runInference x.samples x.length ⟨none, false, false, none, stray⟩
  | some i => p.runInference x.samples x.length (T.inferenceOutcome i x stray)

def TfLite.results (T : TfLite Bytes) (stray : Nat → BitVec 32) : Plugin Bytes → List PcmBuffer → List Int
  | _, [] => []
  | p, x :: xs =>
    (T.infer p x (stray 0)).value :: T.results (fun k => stray (k + 1)) (T.infer p x (stray 0)).plugin xs

def TfLite.answer (T : TfLite Bytes) (file : Bytes) (x : PcmBuffer) : Int :=
  match x.samples with
  | none => -1
  | some samples =>
    if x.length ≤ 0 then -1
    else if T.inputSize file = some (x.length.toNatClampNeg * 2) then
      match T.invoke file (pcmBytes samples x.length.toNatClampNeg) with
      | some (some data) => argmax data 0
      | _ => -1
    else -1

def TfLite.Sized (T : TfLite Bytes) (file : Bytes) (p : Plugin Bytes) : Prop :=
  ∃ i, p.interpreter = some i ∧ i.file = file ∧ ∀ n, T.inputSize file = some n → i.input.length = n

theorem length_pcmBytes {samples : List Int16} {n : Nat} (h : n ≤ samples.length) :
    (pcmBytes samples n).length = n * 2 := by
  have two : ∀ xs : List Int16, (xs.flatMap sampleBytes).length = xs.length * 2 := by
    intro xs
    induction xs with
    | nil => rfl
    | cons x xs ih =>
      simp only [List.flatMap_cons, List.length_append, ih, sampleBytes, List.length_cons, List.length_nil]
      omega
  rw [pcmBytes, two, List.length_take]
  omega

/-- The word read past a short output tensor never decides the result: the loop is empty then. -/
theorem argmax_stray (data : List UInt8) (a b : BitVec 32) : argmax data a = argmax data b := by
  by_cases short : data.length < 4
  · have zero : outputSize data.length = 0 := by
      have none : data.length / 4 = 0 := by omega
      unfold outputSize
      rw [none]
      exact Int.zero_bmod
    rw [argmax, argmax, zero]
    rfl
  · rw [argmax, argmax, if_neg short, if_neg short]

theorem TfLite.infer_spec (T : TfLite Bytes) {p : Plugin Bytes} {file : Bytes} (h : T.Sized file p)
    (x : PcmBuffer) (stray : BitVec 32) :
    (T.infer p x stray).value = T.answer file x ∧ T.Sized file (T.infer p x stray).plugin := by
  obtain ⟨i, hi, rfl, sized⟩ := h
  obtain ⟨samples, length, readable⟩ := x
  simp only [infer, hi, Plugin.runInference, answer]
  cases samples with
  | none => exact ⟨rfl, i, hi, rfl, sized⟩
  | some samples =>
    by_cases hl : length ≤ 0
    · simp only [hl, if_true]
      exact ⟨trivial, i, hi, rfl, sized⟩
    · have enough := readable samples rfl
      cases hn : T.inputSize i.file with
      | none =>
        simp [hl, inferenceOutcome, hn]
        exact ⟨i, hi, rfl, sized⟩
      | some n =>
        by_cases eq : n = length.toNatClampNeg * 2
        · -- a copy that succeeds fills the whole tensor, so nothing of an earlier call is left in it
          subst eq
          have whole : i.input.drop (length.toNatClampNeg * 2) = [] :=
            List.drop_eq_nil_iff.mpr (Nat.le_of_eq (sized _ hn))
          have kept : T.Sized i.file { p with
              interpreter := some { i with input := pcmBytes samples length.toNatClampNeg } } := by
            refine ⟨_, rfl, rfl, fun n hn' => ?_⟩
            have same := Option.some.inj (hn.symm.trans hn')
            rw [length_pcmBytes enough, same]
          simp only [hl, if_false, inferenceOutcome, hn, whole, List.append_nil, Option.getD_some,
            beq_self_eq_true, Bool.not_true, Bool.false_eq_true, Nat.lt_irrefl, if_true]
          cases answered : T.invoke i.file (pcmBytes samples length.toNatClampNeg) with
          | none => exact ⟨by simp, by simpa using kept⟩
          | some out =>
            cases out with
            | none => exact ⟨by simp, by simpa using kept⟩
            | some data =>
              simp only [Option.isSome_some, Option.getD_some, Bool.not_true, Bool.false_eq_true, if_false]
              exact ⟨congrArg Nat.cast (argmax_stray data stray 0), kept⟩
        · -- a shorter buffer gets past the size check of `run_inference`, but not past the copy
          have refused : (some n == some (length.toNatClampNeg * 2)) = false := by simpa using eq
          simp only [hl, if_false, inferenceOutcome, hn, refused, Option.some.injEq, eq, Bool.not_false, if_true]
          split
          all_goals exact ⟨rfl, i, hi, rfl, sized⟩

theorem TfLite.results_eq (T : TfLite Bytes) {p : Plugin Bytes} {file : Bytes} (h : T.Sized file p)
    (stray : Nat → BitVec 32) (xs : List PcmBuffer) :
    T.results stray p xs = xs.map (T.answer file) := by
  induction xs generalizing p stray with
  | nil => rfl
  | cons x xs ih =>
    obtain ⟨value, next⟩ := T.infer_spec h x (stray 0)
    simp only [results, List.map_cons, value, ih next]

theorem TfLite.loadOutcome_succeeds (T : TfLite Bytes) (file : Option Bytes)
    (garbage garbage' : Nat → UInt8) :
    (T.loadOutcome file garbage).succeeds = (T.loadOutcome file garbage').succeeds := by
  cases file <;> rfl

theorem TfLite.loadModel_sized (T : TfLite Bytes) {p : Plugin Bytes} {path : String} {file : Option Bytes}
    {garbage : Nat → UInt8}
    (h : (p.loadModel (some path) file (T.loadOutcome file garbage)).value = 1) :
    ∃ bytes, file = some bytes ∧
      T.Sized bytes (p.loadModel (some path) file (T.loadOutcome file garbage)).plugin := by
  have good : file.isSome ∧ (T.loadOutcome file garbage).succeeds := by
    by_contra hn
    rw [Plugin.loadModel_value, if_neg hn] at h
    omega
  obtain ⟨bytes, rfl⟩ := Option.isSome_iff_exists.mp good.1
  refine ⟨bytes, rfl, _, Plugin.loadModel_interpreter good.2, rfl, fun n hn => ?_⟩
  simp [loadOutcome, hn]

/-- Whatever was loaded, run or unloaded before, `load_model` of the same file returns the same
value, and when that is 1 every later inference returns what it would return as the first
one, in both histories. -/
theorem native_history_independence (T : TfLite Bytes) (first second : List (NativeCall Bytes))
    (path : String) (file : Option Bytes) (garbage garbage' : Nat → UInt8) :
    let p := (Runs.run Plugin.next Plugin.initial first).loadModel (some path) file
      (T.loadOutcome file garbage)
    let q := (Runs.run Plugin.next Plugin.initial second).loadModel (some path) file
      (T.loadOutcome file garbage')
    p.value = q.value ∧
      (p.value = 1 → ∀ (xs : List PcmBuffer) (stray stray' : Nat → BitVec 32) (alone : BitVec 32),
        T.results stray p.plugin xs = T.results stray' q.plugin xs ∧
        T.results stray p.plugin xs = xs.map fun x => (T.infer p.plugin x alone).value) := by
  intro p q
  have same : p.value = q.value := by
    simp only [p, q, Plugin.loadModel_value, T.loadOutcome_succeeds file garbage garbage']
  refine ⟨same, fun loaded xs stray stray' alone => ?_⟩
  obtain ⟨bytes, hf, sized⟩ := T.loadModel_sized loaded
  obtain ⟨bytes', hf', sized'⟩ := T.loadModel_sized (same ▸ loaded : q.value = 1)
  have eq : bytes' = bytes := Option.some.inj (hf'.symm.trans hf)
  subst eq
  refine ⟨(T.results_eq sized stray xs).trans (T.results_eq sized' stray' xs).symm, ?_⟩
  rw [T.results_eq sized stray xs]
  exact List.map_congr_left fun x _ => (T.infer_spec sized x alone).1.symm

end AuroraVoice
