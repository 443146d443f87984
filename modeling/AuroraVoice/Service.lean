import AuroraVoice.Plugin

namespace AuroraVoice

/-- What a temporary file holds: the bytes of a bundled asset, or what a failed write left. -/
inductive Contents
  | asset (path : String)
  | torn
  deriving DecidableEq

def modelFloat32 : String := "float32"
def modelFloat16 : String := "float16"
def modelInt8 : String := "int8"

def modelTypes : List String := [modelFloat32, modelFloat16, modelInt8]

/-- The fields of a `VoiceService`. `audioLevel` is never written and is left out. -/
structure VoiceService where
  isListening : Bool
  inferenceResult : Option Int
  isInitialized : Bool
  ffiInitialized : Bool
  timer : Option Nat
  selectedModelType : String
  currentModelFile : Option String
  deriving DecidableEq

/-- What the service shares with the isolate and the system: whether `_bindings` is assigned,
the files under /tmp, the native plugin, and the periodic timers that are not cancelled. -/
structure World where
  bindings : Bool
  files : String → Option Contents
  plugin : Plugin Contents
  timers : List Nat
  nextTimer : Nat

structure Machine where
  service : VoiceService
  world : World

def VoiceService.initial : VoiceService := ⟨false, none, false, false, none, modelFloat32, none⟩

def World.initial : World := ⟨false, fun _ => none, Plugin.initial, [], 0⟩

def Machine.initial : Machine := ⟨VoiceService.initial, World.initial⟩

def assetOf (type : String) : String :=
  if type = modelFloat32 then "assets/models/model_float32.tflite"
  else if type = modelFloat16 then "assets/models/model_float16.tflite"
  else if type = modelInt8 then "assets/models/model_int8.tflite"
  else "assets/models/model_float32.tflite"

def VoiceService.getAssetPath (s : VoiceService) : String := assetOf s.selectedModelType

def modelPath (type : String) : String := "/tmp/model_" ++ type ++ ".tflite"

def World.writeFile (w : World) (path : String) (data : Contents) : World :=
  { w with files := fun p => if p = path then some data else w.files p }

def World.removeFile (w : World) (path : String) : World :=
  { w with files := fun p => if p = path then none else w.files p }

/-- The asynchronous operations that the service awaits. `runInference` is the event queued by
`Future(() => runInference(pcmData))`. -/
inductive Op
  | loadFfiEngine
  | loadAsset (path : String)
  | writeAsBytes (path : String) (data : Contents)
  | exists (path : String)
  | length (path : String)
  | delete (path : String)
  | runInference
  deriving DecidableEq

inductive Reply
  | done
  | answer (b : Bool)
  | data (bytes : Contents)
  | result (value : Int)
  | threw
  deriving DecidableEq

/-- How the system treats one operation: as asked, after someone else removed the file, or with
an error; a failed write may leave the file changed. -/
inductive IoOutcome
  | ok
  | missing
  | fail (left : Option Contents)
  deriving DecidableEq

structure Environment where
  io : IoOutcome
  load : LoadOutcome
  inference : InferenceOutcome

def pcmData : List Int16 := List.replicate 16000 0

def perform (e : Environment) (op : Op) (w : World) : World × Reply :=
  match op, e.io with
  | .loadFfiEngine, .ok => (w, .done)
  | .loadFfiEngine, _ => (w, .threw)
  | .loadAsset path, .ok => (w, .data (.asset path))
  | .loadAsset _, _ => (w, .threw)
  | .writeAsBytes _ _, .fail none => (w, .threw)
  | .writeAsBytes path _, .fail (some left) => (w.writeFile path left, .threw)
  | .writeAsBytes path data, _ => (w.writeFile path data, .done)
  | .exists path, .ok => (w, .answer (w.files path).isSome)
  | .exists path, .missing => (w.removeFile path, .answer false)
  | .exists _, .fail _ => (w, .threw)
  | .length path, .ok => (w, if (w.files path).isSome then .done else .threw)
  | .length path, .missing => (w.removeFile path, .threw)
  | .length _, .fail _ => (w, .threw)
  | .delete path, .ok =>
    if (w.files path).isSome then (w.removeFile path, .done) else (w, .threw)
  | .delete path, .missing => (w.removeFile path, .threw)
  | .delete _, .fail _ => (w, .threw)
  | .runInference, _ =>
    if w.bindings then
      let r := w.plugin.runInference (some pcmData) 16000 e.inference
      ({ w with plugin := r.plugin }, .result r.value)
    else (w, .threw)

inductive Caller
  | direct
  | switchModel
  deriving DecidableEq

/-- The points after an `await`, each with the locals that are still used there. -/
inductive Cont
  | initFfiPlugin (caller : Caller) (assetPath : String)
  | initFfi (caller : Caller) (assetPath : String)
  | initModelFfi (caller : Caller) (assetPath : String)
  | initModelAsset (caller : Caller)
  | initModelWrite (caller : Caller) (file : String)
  | initModelExists (caller : Caller) (file : String)
  | initModelLength (caller : Caller) (file : String)
  | initModelLoad (caller : Caller)
  | switchModelExists (newType : String)
  | switchModelDelete (newType : String)
  | switchModelReturn
  | disposeExists
  | disposeDelete
  | runInference
  deriving DecidableEq

inductive Completion
  | value (b : Bool)
  | void
  | error
  deriving DecidableEq

/-- A pending call: waiting for an operation, due to be resumed with a reply, or completed. -/
inductive Task
  | blocked (op : Op) (k : Cont)
  | ready (r : Reply) (k : Cont)
  | done (c : Completion)
  deriving DecidableEq

/-- `return b` inside `initModel`; `switchModel` awaits the value once more. -/
def Caller.give (caller : Caller) (b : Bool) : Task :=
  match caller with
  | .direct => .done (.value b)
  | .switchModel => .ready (.answer b) .switchModelReturn

/-- `initModel` up to the first operation it waits for, with `_initFfi` and `initFfiPlugin`. -/
def Machine.initModel (m : Machine) (caller : Caller) : Machine × Task :=
  let assetPath := m.service.getAssetPath
  if m.service.ffiInitialized then (m, .ready .done (.initModelFfi caller assetPath))
  else (m, .blocked .loadFfiEngine (.initFfiPlugin caller assetPath))

/-- `unloadModel` of ffi_plugin.dart: without bindings the error is caught and printed. -/
def World.unloadModel (w : World) : World :=
  if w.bindings then { w with plugin := w.plugin.unloadModel.plugin } else w

/-- `loadModel` of ffi_plugin.dart, as the future that `initModel` awaits. -/
def World.loadModel (w : World) (file : String) (o : LoadOutcome) : World × Reply :=
  if w.bindings then
    let r := w.plugin.loadModel (some file) (w.files file) o
    ({ w with plugin := r.plugin }, .answer (r.value ≠ 0))
  else (w, .threw)

/-- `switchModel` once the old file is out of the way. -/
def Machine.switchModelInit (m : Machine) (newType : String) : Machine × Task :=
  let m := { m with service := { m.service with selectedModelType := newType } }
  m.initModel .switchModel

def Machine.switchModel (m : Machine) (newType : String) : Machine × Task :=
  if !m.service.isInitialized then (m, .done (.value false))
  else if newType = m.service.selectedModelType then (m, .done (.value true))
  else
    let m := { m with world := m.world.unloadModel }
    match m.service.currentModelFile with
    | some file => (m, .blocked (.exists file) (.switchModelExists newType))
    | none => m.switchModelInit newType

def Machine.setModelType (m : Machine) (type : String) : Machine :=
  if type ∈ modelTypes then { m with service := { m.service with selectedModelType := type } } else m

def Machine.startListening (m : Machine) : Machine :=
  if !m.service.isInitialized then m
  else
    { service := { m.service with isListening := true, timer := some m.world.nextTimer }
      world := { m.world with
        timers := m.world.timers ++ [m.world.nextTimer], nextTimer := m.world.nextTimer + 1 } }

def World.cancelTimer (w : World) (timer : Option Nat) : World :=
  { w with timers := w.timers.filter fun t => some t ≠ timer }

def Machine.stopListening (m : Machine) : Machine :=
  { service := { m.service with isListening := false, timer := none }
    world := m.world.cancelTimer m.service.timer }

def Machine.toggleListening (m : Machine) : Machine :=
  if !m.service.isInitialized then m
  else if m.service.isListening then m.stopListening
  else m.startListening

/-- The callback of a periodic timer: `_runInference` up to its `await`. -/
def Machine.tick (m : Machine) (timer : Nat) : Machine × Task :=
  if timer ∈ m.world.timers ∧ m.service.isInitialized then (m, .blocked .runInference .runInference)
  else (m, .done .void)

def Machine.disposeEnd (m : Machine) : Machine × Task :=
  ({ m with service := { m.service with isInitialized := false, ffiInitialized := false } }, .done .void)

def Machine.dispose (m : Machine) : Machine × Task :=
  let m := m.stopListening
  let m := { m with world := m.world.unloadModel }
  match m.service.currentModelFile with
  | some file => (m, .blocked (.exists file) .disposeExists)
  | none => m.disposeEnd

/-- `_currentModelFile!.delete()`, with the null check of `!`. -/
def Machine.deleteCurrent (m : Machine) (k : Cont) : Machine × Task :=
  match m.service.currentModelFile with
  | some file => (m, .blocked (.delete file) k)
  | none => (m, .done .error)

/-- The code from one `await` to the next. -/
def resume (e : Environment) (k : Cont) (r : Reply) (m : Machine) : Machine × Task :=
  match k, r with
  | .initFfiPlugin c assetPath, .threw => (m, .ready .threw (.initFfi c assetPath))
  | .initFfiPlugin c assetPath, _ =>
    -- `_bindings` is late final: a second assignment throws
    if m.world.bindings then (m, .ready .threw (.initFfi c assetPath))
    else ({ m with world := { m.world with bindings := true } }, .ready .done (.initFfi c assetPath))
  | .initFfi c assetPath, .threw => (m, .ready .threw (.initModelFfi c assetPath))
  | .initFfi c assetPath, _ =>
    ({ m with service := { m.service with ffiInitialized := true } }, .ready .done (.initModelFfi c assetPath))
  | .initModelFfi c _, .threw => (m, c.give false)
  | .initModelFfi c assetPath, _ => (m, .blocked (.loadAsset assetPath) (.initModelAsset c))
  | .initModelAsset c, .data data =>
    let file := modelPath m.service.selectedModelType
    (m, .blocked (.writeAsBytes file data) (.initModelWrite c file))
  | .initModelAsset c, _ => (m, c.give false)
  | .initModelWrite c _, .threw => (m, c.give false)
  | .initModelWrite c file, _ => (m, .blocked (.exists file) (.initModelExists c file))
  | .initModelExists c file, .answer true => (m, .blocked (.length file) (.initModelLength c file))
  | .initModelExists c _, _ => (m, c.give false)
  | .initModelLength c _, .threw => (m, c.give false)
  | .initModelLength c file, _ =>
    let (w, loaded) := m.world.loadModel file e.load
    ({ service := { m.service with currentModelFile := some file }, world := w },
      .ready loaded (.initModelLoad c))
  | .initModelLoad c, .answer true =>
    ({ m with service := { m.service with isInitialized := true } }, c.give true)
  | .initModelLoad c, _ => (m, c.give false)
  | .switchModelExists newType, .answer true => m.deleteCurrent (.switchModelDelete newType)
  | .switchModelExists _, .threw => (m, .done .error)
  | .switchModelExists newType, _ => m.switchModelInit newType
  | .switchModelDelete _, .threw => (m, .done .error)
  | .switchModelDelete newType, _ => m.switchModelInit newType
  | .switchModelReturn, .answer b => (m, .done (.value b))
  | .switchModelReturn, _ => (m, .done .error)
  | .disposeExists, .answer true => m.deleteCurrent .disposeDelete
  | .disposeExists, .threw => (m, .done .error)
  | .disposeExists, _ => m.disposeEnd
  | .disposeDelete, .threw => (m, .done .error)
  | .disposeDelete, _ => m.disposeEnd
  | .runInference, .result value =>
    ({ m with service := { m.service with inferenceResult := some value } }, .done .void)
  | .runInference, _ => (m, .done .void)

/-- The calls a user of the service can make, and the ticks of its timers. -/
inductive Call
  | initModel
  | switchModel (newType : String)
  | setModelType (type : String)
  | startListening
  | stopListening
  | toggleListening
  | dispose
  | tick (timer : Nat)
  deriving DecidableEq

/-- A call runs synchronously up to its first `await`. -/
def Machine.start (m : Machine) : Call → Machine × Task
  | .initModel => m.initModel .direct
  | .switchModel newType => m.switchModel newType
  | .setModelType type => (m.setModelType type, .done .void)
  | .startListening => (m.startListening, .done .void)
  | .stopListening => (m.stopListening, .done .void)
  | .toggleListening => (m.toggleListening, .done .void)
  | .dispose => m.dispose
  | .tick timer => m.tick timer

/-- One step of a pending call: its operation is carried out, or its code runs on. -/
def advance (e : Environment) (m : Machine) : Task → Machine × Task
  | .blocked op k => ({ m with world := (perform e op m.world).1 }, .ready (perform e op m.world).2 k)
  | .ready r k => resume e k r m
  | .done c => (m, .done c)

@[simp] theorem Machine.initModel_fst (m : Machine) (c : Caller) : (m.initModel c).1 = m := by
  unfold initModel
  split <;> rfl

@[simp] theorem Machine.switchModelInit_fst (m : Machine) (newType : String) :
    (m.switchModelInit newType).1 = { m with service := { m.service with selectedModelType := newType } } :=
  initModel_fst _ _

@[simp] theorem Machine.deleteCurrent_fst (m : Machine) (k : Cont) : (m.deleteCurrent k).1 = m := by
  unfold deleteCurrent
  split <;> rfl

/-- What `switchModel` has changed when it comes to its first `await`. -/
theorem Machine.switchModel_state (m : Machine) (newType : String) :
    (m.switchModel newType).1 = m ∨ ∃ type, (m.switchModel newType).1 =
      ⟨{ m.service with selectedModelType := type }, m.world.unloadModel⟩ := by
  unfold switchModel
  split
  next => exact Or.inl rfl
  next =>
    split
    next => exact Or.inl rfl
    next =>
      dsimp only
      split
      next => exact Or.inr ⟨m.service.selectedModelType, rfl⟩
      next => exact Or.inr ⟨newType, switchModelInit_fst _ newType⟩

theorem Machine.dispose_state (m : Machine) : ∃ initialized ffi, m.dispose.1 =
    ⟨{ m.stopListening.service with isInitialized := initialized, ffiInitialized := ffi },
      m.stopListening.world.unloadModel⟩ := by
  unfold dispose
  dsimp only
  split
  next => exact ⟨m.service.isInitialized, m.service.ffiInitialized, rfl⟩
  next => exact ⟨false, false, rfl⟩

end AuroraVoice
