import AuroraVoice.Binary32
import Mathlib.Tactic.Tauto

namespace AuroraVoice

/-- The calls the plugin makes into the TFLite C API. A call on a tensor is listed under the
interpreter that owns the tensor. -/
inductive TfLiteCall
  | modelCreateFromFile (path : String) (result : Option Nat)
  | modelDelete (model : Nat)
  | interpreterOptionsCreate (result : Nat)
  | interpreterOptionsSetNumThreads (options : Nat) (threads : Int)
  | interpreterOptionsDelete (options : Nat)
  | interpreterCreate (model options : Nat) (result : Option Nat)
  | interpreterAllocateTensors (interpreter : Nat)
  | interpreterDelete (interpreter : Nat)
  | interpreterGetInputTensor (interpreter : Nat)
  | interpreterInvoke (interpreter : Nat)
  | interpreterGetOutputTensor (interpreter : Nat)
  | tensorByteSize (interpreter : Nat)
  | tensorCopyFromBuffer (interpreter size : Nat)
  | tensorData (interpreter : Nat)
  deriving DecidableEq

structure TfLiteModel (Bytes : Type) where
  handle : Nat
  file : Bytes
  deriving DecidableEq

structure TfLiteInterpreterOptions where
  handle : Nat
  numThreads : Int
  deriving DecidableEq

/-- An interpreter remembers the handles it was built from, the file its model came from,
whether its tensors were allocated, and what its first input tensor holds. -/
structure TfLiteInterpreter (Bytes : Type) where
  handle : Nat
  model : Nat
  options : Nat
  file : Bytes
  allocated : Bool
  input : List UInt8
  deriving DecidableEq

/-- The three statics of the plugin, and the next handle the library gives out. -/
structure Plugin (Bytes : Type) where
  model : Option (TfLiteModel Bytes)
  interpreter : Option (TfLiteInterpreter Bytes)
  options : Option TfLiteInterpreterOptions
  nextHandle : Nat
  deriving DecidableEq

/-- How the library answers inside one `load_model`: whether the file parses as a model, whether
an interpreter is built, whether `AllocateTensors` is ok, and what the fresh tensor holds. -/
structure LoadOutcome where
  model : Bool
  interpreter : Bool
  allocate : Bool
  input : List UInt8
  deriving DecidableEq

/-- How the library answers inside one `run_inference`: the byte size of the first input tensor
if there is one, the two statuses, the bytes of the first output tensor if there is one, and
the word found at `output_data[0]` when the output tensor is shorter than a float. -/
structure InferenceOutcome where
  input : Option Nat
  copy : Bool
  invoke : Bool
  output : Option (List UInt8)
  stray : BitVec 32
  deriving DecidableEq

structure NativeResult (Bytes : Type) where
  plugin : Plugin Bytes
  value : Int
  calls : List TfLiteCall

variable {Bytes : Type}

def Plugin.initial : Plugin Bytes := ⟨none, none, none, 0⟩

def Plugin.releaseInterpreter (p : Plugin Bytes) : Plugin Bytes × List TfLiteCall :=
  match p.interpreter with
  | some i => ({ p with interpreter := none }, [.interpreterDelete i.handle])
  | none => (p, [])

def Plugin.releaseOptions (p : Plugin Bytes) : Plugin Bytes × List TfLiteCall :=
  match p.options with
  | some o => ({ p with options := none }, [.interpreterOptionsDelete o.handle])
  | none => (p, [])

def Plugin.releaseModel (p : Plugin Bytes) : Plugin Bytes × List TfLiteCall :=
  match p.model with
  | some m => ({ p with model := none }, [.modelDelete m.handle])
  | none => (p, [])

def Plugin.release (p : Plugin Bytes) : Plugin Bytes × List TfLiteCall :=
  let (p, first) := p.releaseInterpreter
  let (p, second) := p.releaseOptions
  let (p, third) := p.releaseModel
  (p, first ++ second ++ third)

/-- `unload_model` of ffi_plugin.cpp; it returns nothing. -/
def Plugin.unloadModel (p : Plugin Bytes) : NativeResult Bytes :=
  ⟨p.release.1, 0, p.release.2⟩

/-- `load_model` of ffi_plugin.cpp. `file` is what the path names when the call is made. -/
def Plugin.loadModel (path : Option String) (file : Option Bytes) (o : LoadOutcome)
    (p : Plugin Bytes) : NativeResult Bytes :=
  match path with
  | none => ⟨p, 0, []⟩
  | some path =>
    let (p, released) := p.release
    match (if o.model then file else none) with
    | none => ⟨p, 0, released ++ [.modelCreateFromFile path none]⟩
    | some bytes =>
      let m : TfLiteModel Bytes := ⟨p.nextHandle, bytes⟩
      let opts : TfLiteInterpreterOptions := ⟨p.nextHandle + 1, 2⟩
      let p := { p with model := some m, options := some opts, nextHandle := p.nextHandle + 2 }
      let created := released ++ [.modelCreateFromFile path (some m.handle),
        .interpreterOptionsCreate opts.handle, .interpreterOptionsSetNumThreads opts.handle 2]
      if o.interpreter then
        let i : TfLiteInterpreter Bytes :=
          ⟨p.nextHandle, m.handle, opts.handle, bytes, o.allocate, o.input⟩
        let p := { p with interpreter := some i, nextHandle := p.nextHandle + 1 }
        let calls := created ++ [.interpreterCreate m.handle opts.handle (some i.handle),
          .interpreterAllocateTensors i.handle]
        -- a failed AllocateTensors returns 0 but leaves the static set
        if o.allocate then ⟨p, 1, calls⟩ else ⟨p, 0, calls⟩
      else ⟨p, 0, created ++ [.interpreterCreate m.handle opts.handle none]⟩

def sampleBytes (x : Int16) : List UInt8 := [x.toUInt16.toUInt8, (x.toUInt16 >>> 8).toUInt8]

/-- The bytes of the first `length` samples of a buffer, as `memcpy` reads them. -/
def pcmBytes (samples : List Int16) (length : Nat) : List UInt8 :=
  (samples.take length).flatMap sampleBytes

def floatAt (data : List UInt8) (i : Nat) : BitVec 32 :=
  Binary32.ofBytes (data.getD (4 * i) 0) (data.getD (4 * i + 1) 0) (data.getD (4 * i + 2) 0)
    (data.getD (4 * i + 3) 0)

/-- `int output_size = TfLiteTensorByteSize(output_tensor) / sizeof(float)`. -/
def outputSize (bytes : Nat) : Int := Int.bmod (bytes / 4 : Nat) (2 ^ 32)

def argmaxStep (data : List UInt8) (best : Nat × BitVec 32) (i : Nat) : Nat × BitVec 32 :=
  if Binary32.gt (floatAt data i) best.2 then (i, floatAt data i) else best

/-- The loop of `run_inference`: `max_index` after `i` has run from 1 up to `size`. -/
def argmaxLoop (data : List UInt8) (size : Nat) (first : BitVec 32) : Nat :=
  ((List.range' 1 (size - 1)).foldl (argmaxStep data) (0, first)).1

def argmax (data : List UInt8) (stray : BitVec 32) : Nat :=
  argmaxLoop data (outputSize data.length).toNat (if data.length < 4 then stray else floatAt data 0)

/-- `run_inference` of ffi_plugin.cpp. -/
def Plugin.runInference (pcm : Option (List Int16)) (length : Int32) (o : InferenceOutcome)
    (p : Plugin Bytes) : NativeResult Bytes :=
  match p.interpreter, pcm with
  | some i, some samples =>
    if length ≤ 0 then ⟨p, -1, []⟩
    else match o.input with
    | none => ⟨p, -1, [.interpreterGetInputTensor i.handle]⟩
    | some bytes =>
      let size := length.toNatClampNeg * 2
      let sized : List TfLiteCall :=
        [.interpreterGetInputTensor i.handle, .tensorByteSize i.handle]
      if bytes < size then ⟨p, -1, sized⟩
      else if !o.copy then ⟨p, -1, sized ++ [.tensorCopyFromBuffer i.handle size]⟩
      else
        let input := pcmBytes samples length.toNatClampNeg ++ i.input.drop size
        let p := { p with interpreter := some { i with input := input } }
        let invoked := sized ++ [.tensorCopyFromBuffer i.handle size, .interpreterInvoke i.handle]
        if !o.invoke then ⟨p, -1, invoked⟩
        else match o.output with
        | none => ⟨p, -1, invoked ++ [.interpreterGetOutputTensor i.handle]⟩
        | some data => ⟨p, argmax data o.stray, invoked ++
            [.interpreterGetOutputTensor i.handle, .tensorByteSize i.handle, .tensorData i.handle]⟩
  | _, _ => ⟨p, -1, []⟩

inductive NativeCall (Bytes : Type)
  | loadModel (path : Option String) (file : Option Bytes) (o : LoadOutcome)
  | runInference (pcm : Option (List Int16)) (length : Int32) (o : InferenceOutcome)
  | unloadModel

def Plugin.call (p : Plugin Bytes) : NativeCall Bytes → NativeResult Bytes
  | .loadModel path file o => p.loadModel path file o
  | .runInference pcm length o => p.runInference pcm length o
  | .unloadModel => p.unloadModel

def Plugin.next (p : Plugin Bytes) (c : NativeCall Bytes) : Plugin Bytes := (p.call c).plugin

theorem Plugin.releaseInterpreter_eq (p : Plugin Bytes) :
    p.releaseInterpreter.1 = { p with interpreter := none } := by
  unfold releaseInterpreter
  split
  next => rfl
  next h => rw [← h]

theorem Plugin.releaseOptions_eq (p : Plugin Bytes) :
    p.releaseOptions.1 = { p with options := none } := by
  unfold releaseOptions
  split
  next => rfl
  next h => rw [← h]

theorem Plugin.releaseModel_eq (p : Plugin Bytes) : p.releaseModel.1 = { p with model := none } := by
  unfold releaseModel
  split
  next => rfl
  next h => rw [← h]

theorem Plugin.release_eq (p : Plugin Bytes) : p.release.1 = ⟨none, none, none, p.nextHandle⟩ := by
  simp [release, releaseModel_eq, releaseOptions_eq, releaseInterpreter_eq]

def LoadOutcome.succeeds (o : LoadOutcome) : Bool := o.model && o.interpreter && o.allocate

def Plugin.loaded (p : Plugin Bytes) : Option Bytes :=
  p.interpreter.bind fun i => if i.allocated then some i.file else none

theorem Plugin.loadModel_value (p : Plugin Bytes) (path : String) (file : Option Bytes) (o : LoadOutcome) :
    (p.loadModel (some path) file o).value = if file.isSome ∧ o.succeeds then 1 else 0 := by
  obtain ⟨model, interpreter, allocate, input⟩ := o
  cases file <;> cases model <;> cases interpreter <;> cases allocate <;>
    simp [loadModel, LoadOutcome.succeeds]

theorem Plugin.loadModel_loaded (p : Plugin Bytes) (path : String) (file : Option Bytes) (o : LoadOutcome) :
    (p.loadModel (some path) file o).plugin.loaded = if o.succeeds then file else none := by
  obtain ⟨model, interpreter, allocate, input⟩ := o
  cases file <;> cases model <;> cases interpreter <;> cases allocate <;>
    simp [loadModel, LoadOutcome.succeeds, loaded, release_eq]

theorem Plugin.loadModel_interpreter {p : Plugin Bytes} {path : String} {bytes : Bytes} {o : LoadOutcome}
    (h : o.succeeds) : (p.loadModel (some path) (some bytes) o).plugin.interpreter =
      some ⟨p.nextHandle + 2, p.nextHandle, p.nextHandle + 1, bytes, true, o.input⟩ := by
  obtain ⟨model, interpreter, allocate, input⟩ := o
  simp only [LoadOutcome.succeeds, Bool.and_eq_true] at h
  obtain ⟨⟨rfl, rfl⟩, rfl⟩ := h
  simp [loadModel, release_eq]

theorem Plugin.runInference_null {p : Plugin Bytes} (h : p.interpreter = none)
    (pcm : Option (List Int16)) (length : Int32) (o : InferenceOutcome) :
    p.runInference pcm length o = ⟨p, -1, []⟩ := by
  simp [runInference, h]

/-- All that `run_inference` changes is the input tensor. -/
theorem Plugin.runInference_plugin {p : Plugin Bytes} {i : TfLiteInterpreter Bytes}
    (pcm : Option (List Int16)) (length : Int32) (o : InferenceOutcome) (h : p.interpreter = some i) :
    (p.runInference pcm length o).plugin = p ∨
      ∃ input, (p.runInference pcm length o).plugin =
        { p with interpreter := some { i with input := input } } := by
  simp only [runInference, h]
  cases pcm with
  | none => exact Or.inl rfl
  | some samples =>
    simp only
    split
    next => exact Or.inl rfl
    next =>
      split
      next => exact Or.inl rfl
      next =>
        split
        next => exact Or.inl rfl
        next =>
          split
          next => exact Or.inl rfl
          next =>
            right
            split
            next => exact ⟨_, rfl⟩
            next => split <;> exact ⟨_, rfl⟩

theorem Plugin.runInference_calls {p : Plugin Bytes} {i : TfLiteInterpreter Bytes}
    {pcm : Option (List Int16)} {length : Int32} {o : InferenceOutcome} {c : TfLiteCall}
    (h : p.interpreter = some i) (hc : c ∈ (p.runInference pcm length o).calls) :
    c = .interpreterGetInputTensor i.handle ∨ c = .tensorByteSize i.handle ∨
      (∃ size, c = .tensorCopyFromBuffer i.handle size) ∨ c = .interpreterInvoke i.handle ∨
      c = .interpreterGetOutputTensor i.handle ∨ c = .tensorData i.handle := by
  simp only [runInference, h] at hc
  cases pcm with
  | none => simp at hc
  | some samples =>
    simp only at hc
    split at hc
    next => simp at hc
    next =>
      split at hc
      next => simp_all
      next =>
        split at hc
        next => simp at hc; tauto
        next =>
          split at hc
          next => simp at hc; grind
          next =>
            split at hc
            next => simp at hc; grind
            next => split at hc <;> simp at hc <;> grind

end AuroraVoice
