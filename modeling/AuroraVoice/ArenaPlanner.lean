import AuroraVoice.MemoryArena
import Mathlib.Data.List.ReduceOption

namespace AuroraVoice

inductive TfLiteAllocationType
  | memNone
  | mmapRo
  | arenaRw
  | arenaRwPersistent
  | dynamic
  | persistentRo
  | custom
  | variantObject
  | nonCpu
  deriving DecidableEq

structure TfLiteTensor where
  bytes : Nat
  allocationType : TfLiteAllocationType

/-- A node of the execution plan with the `inplace_operator` bits of its registration.
`kTfLiteOptionalTensor` is none. -/
structure TfLiteNode where
  inputs : List (Option Nat)
  outputs : List (Option Nat)
  temporaries : List Nat
  inplaceOperator : Nat

structure GraphInfo where
  tensors : List TfLiteTensor
  nodes : List TfLiteNode
  inputs : List (Option Nat)
  outputs : List (Option Nat)
  variableTensors : List Nat

def GraphInfo.tensor (g : GraphInfo) (t : Nat) : TfLiteTensor := g.tensors.getD t ⟨0, .memNone⟩

def kNodeNotAssigned : Nat := 2 ^ 31 - 1

def kScalarTensorBytes : Nat := 4

def kTfLiteMaxSharableOpInputs : Nat := 3

structure ArenaPlanner where
  allocs : Nat → ArenaAllocWithUsageInterval
  nodesToTensors : Nat → List Nat
  allocNode : Nat → Nat
  deallocNode : Nat → Nat
  arena : SimpleMemoryArena
  persistentArena : SimpleMemoryArena
  preserveAllTensors : Bool
  tensorAlignment : Nat
  lastActiveNode : Nat
  actualTensorId : Nat → Option Nat
  refcounts : Nat → Int

def kDefaultArenaAlignment : Nat := 64

def ArenaPlanner.new (preserveAllTensors : Bool) (tensorAlignment : Nat) : ArenaPlanner where
  allocs _ := .reset
  nodesToTensors _ := []
  allocNode _ := kNodeNotAssigned
  deallocNode _ := kNodeNotAssigned
  arena := .new kDefaultArenaAlignment
  persistentArena := .new kDefaultArenaAlignment
  preserveAllTensors := preserveAllTensors
  tensorAlignment := tensorAlignment
  lastActiveNode := kNodeNotAssigned
  actualTensorId _ := none
  refcounts _ := 0

def ArenaPlanner.resetAllocations (p : ArenaPlanner) : ArenaPlanner :=
  { p with
    arena := p.arena.clearPlan
    persistentArena := p.persistentArena.clearPlan
    allocs := fun _ => .reset
    lastActiveNode := kNodeNotAssigned }

def ArenaPlanner.findSharedTensor (p : ArenaPlanner) (t : Nat) : Nat := (p.actualTensorId t).getD t

def ArenaPlanner.inputTensorCanBeShared (p : ArenaPlanner) (g : GraphInfo) (inputId outputId : Nat)
    (tensorChanged : Bool) : Bool :=
  let input := g.tensor inputId
  let output := g.tensor outputId
  if tensorChanged && (input.bytes ≠ output.bytes || input.bytes ≤ kScalarTensorBytes) then false
  else if tensorChanged && p.refcounts inputId > 1 then false
  else if some inputId ∈ g.inputs then false
  else if some outputId ∈ g.outputs then false
  else if input.allocationType ≠ output.allocationType && input.allocationType ≠ .arenaRw then false
  else !p.preserveAllTensors

/-- `registration.inplace_operator & (kTfLiteInplaceOpInput0Shared << i)`. -/
def TfLiteNode.inputShareable (node : TfLiteNode) (i : Nat) : Bool := node.inplaceOperator.testBit (i + 2)

/-- The complement of `kTfLiteInplaceOpDataUnmodified`. -/
def TfLiteNode.tensorChanged (node : TfLiteNode) : Bool := !node.inplaceOperator.testBit 0

/-- The first input whose buffer the first output may use. -/
def ArenaPlanner.shareableInput (p : ArenaPlanner) (g : GraphInfo) (node : TfLiteNode) (outputId : Nat) : Option Nat :=
  (node.inputs.take kTfLiteMaxSharableOpInputs).zipIdx.findSome? fun input =>
    input.1.filter fun id => node.inputShareable input.2 && p.inputTensorCanBeShared g id outputId node.tensorChanged

def ArenaPlanner.identifyInPlaceTensor (g : GraphInfo) (p : ArenaPlanner) (node : TfLiteNode) : ArenaPlanner :=
  match node.outputs.head? with
  | some (some outputId) =>
    if node.inplaceOperator = 0 then p
    else
      match p.shareableInput g node outputId with
      | none => p
      | some inputId =>
        let actual := p.findSharedTensor inputId
        if node.tensorChanged && p.refcounts actual > 1 then p
        else { p with actualTensorId := Function.update p.actualTensorId outputId (some actual) }
  | _ => p

def ArenaPlanner.identifyInPlaceTensors (p : ArenaPlanner) (g : GraphInfo) : ArenaPlanner :=
  g.nodes.foldl (identifyInPlaceTensor g) { p with actualTensorId := fun _ => none }

/-- The lambda `allocate` of `PlanAllocations`, with none where the status is an error. -/
def ArenaPlanner.allocate (p : ArenaPlanner) (node tensor : Nat) : Option ArenaPlanner :=
  if p.allocNode tensor ≠ kNodeNotAssigned then some p
  else if p.deallocNode tensor = kNodeNotAssigned then
    some { p with allocNode := Function.update p.allocNode tensor node }
  else none

def ArenaPlanner.deallocate (p : ArenaPlanner) (node tensor : Nat) : Option ArenaPlanner :=
  if p.allocNode tensor = kNodeNotAssigned then some p
  else if p.deallocNode tensor = kNodeNotAssigned then
    some { p with deallocNode := Function.update p.deallocNode tensor node }
  else none

def ArenaPlanner.queue (p : ArenaPlanner) (node tensor : Nat) : ArenaPlanner :=
  { p with nodesToTensors := Function.update p.nodesToTensors node ((p.nodesToTensors node).insert tensor) }

def addReference (refcounts : Nat → Int) (t : Nat) : Nat → Int := Function.update refcounts t (refcounts t + 1)

/-- Variables and graph inputs are allocated at the very beginning. -/
def ArenaPlanner.planSource (p : ArenaPlanner) (t : Nat) : Option ArenaPlanner := do
  let p ← { p with refcounts := addReference p.refcounts t }.allocate 0 t
  return p.queue 0 t

def ArenaPlanner.planOutput (i : Nat) (p : ArenaPlanner) (t : Nat) : Option ArenaPlanner := (p.queue i t).allocate i t

/-- The planner and the local copy `refcounts`. -/
def ArenaPlanner.planInput (i : Nat) (x : ArenaPlanner × (Nat → Int)) (t : Nat) :
    Option (ArenaPlanner × (Nat → Int)) := do
  let root := x.1.findSharedTensor t
  let refcounts := Function.update x.2 root (x.2 root - 1)
  if refcounts root = 0 then return (← x.1.deallocate i root, refcounts) else return (x.1, refcounts)

def ArenaPlanner.planNode (preserve : Bool) (i : Nat) (node : TfLiteNode) (x : ArenaPlanner × (Nat → Int)) :
    Option (ArenaPlanner × (Nat → Int)) := do
  let p ← node.outputs.reduceOption.foldlM (planOutput i) x.1
  if preserve then return (p, x.2) else node.inputs.reduceOption.foldlM (planInput i) (p, x.2)

def ArenaPlanner.planNodes (preserve : Bool) (i : Nat) :
    List TfLiteNode → ArenaPlanner × (Nat → Int) → Option (ArenaPlanner × (Nat → Int))
  | [], x => some x
  | node :: nodes, x => do planNodes preserve (i + 1) nodes (← planNode preserve i node x)

/-- Any existing data is invalidated; graph outputs get one reference that is never taken back. -/
def ArenaPlanner.beginPlan (p : ArenaPlanner) (g : GraphInfo) : ArenaPlanner :=
  { p.resetAllocations with
    allocNode := fun _ => kNodeNotAssigned
    deallocNode := fun _ => kNodeNotAssigned
    nodesToTensors := fun _ => []
    refcounts := g.outputs.reduceOption.foldl addReference fun _ => 0 }

def ArenaPlanner.planSources (p : ArenaPlanner) (g : GraphInfo) : Option ArenaPlanner := do
  let p ← g.variableTensors.foldlM planSource p
  g.inputs.reduceOption.foldlM planSource p

def GraphInfo.reads (g : GraphInfo) : List Nat := g.nodes.flatMap fun node => node.inputs.reduceOption

/-- The reads of the nodes are counted twice: in `refcounts_` to find what may be shared, and then in a
copy with the shared tensors in the place of those that use their buffers. -/
def ArenaPlanner.shareTensors (p : ArenaPlanner) (g : GraphInfo) : ArenaPlanner × (Nat → Int) :=
  let shared := { p with refcounts := g.reads.foldl addReference p.refcounts }.identifyInPlaceTensors g
  (shared, (g.reads.map shared.findSharedTensor).foldl addReference p.refcounts)

def ArenaPlanner.planAllocations (p : ArenaPlanner) (g : GraphInfo) : Option ArenaPlanner := do
  let p ← (p.beginPlan g).planSources g
  let x ← planNodes p.preserveAllTensors 0 g.nodes (p.shareTensors g)
  return x.1

/-- Temporary tensors live at their own node only. -/
def ArenaPlanner.planTemporary (i : Nat) (p : ArenaPlanner) (t : Nat) : ArenaPlanner :=
  let p := { p with allocNode := Function.update p.allocNode t i }.queue i t
  if p.preserveAllTensors then p else { p with deallocNode := Function.update p.deallocNode t i }

/-- The nodes of a batch. -/
def nodesFrom (firstNode lastNode : Nat) : List Nat := List.range' firstNode (lastNode + 1 - firstNode)

def ArenaPlanner.planNodeTemporaries (g : GraphInfo) (p : ArenaPlanner) (i : Nat) : ArenaPlanner :=
  match g.nodes[i]? with
  | some node => node.temporaries.foldl (planTemporary i) p
  | none => p

def ArenaPlanner.planTemporaries (p : ArenaPlanner) (g : GraphInfo) (firstNode lastNode : Nat) : ArenaPlanner :=
  (nodesFrom firstNode lastNode).foldl (planNodeTemporaries g) p

def ArenaPlanner.getTensorsToAllocate (p : ArenaPlanner) (firstNode lastNode : Nat) : List Nat :=
  (nodesFrom firstNode lastNode).flatMap p.nodesToTensors

/-- Whole-run tensors first, then by size, largest first, then by allocation time. -/
def ArenaPlanner.tensorCompare (p : ArenaPlanner) (g : GraphInfo) (idx1 idx2 : Nat) : Bool :=
  let whole idx := p.allocNode idx = 0 ∧ p.deallocNode idx = kNodeNotAssigned
  if whole idx1 then
    if whole idx2 then idx1 < idx2 else true
  else if whole idx2 then false
  else if (g.tensor idx1).bytes ≠ (g.tensor idx2).bytes then (g.tensor idx1).bytes > (g.tensor idx2).bytes
  else p.allocNode idx1 < p.allocNode idx2

def ArenaPlanner.needsAllocation (p : ArenaPlanner) (g : GraphInfo) (t : Nat) : Bool :=
  match (g.tensor t).allocationType with
  | .arenaRw => (p.allocs t).size < (g.tensor t).bytes
  | .arenaRwPersistent => true
  | _ => false

/-- A tensor that owns its buffer. -/
def ArenaPlanner.allocateOwner (p : ArenaPlanner) (g : GraphInfo) (t : Nat) : Option ArenaPlanner :=
  match (g.tensor t).allocationType with
  | .arenaRw => do
    let (arena, alloc) ← p.arena.allocate
      ⟨p.tensorAlignment, (g.tensor t).bytes, t, p.allocNode t, p.deallocNode t⟩
    return { p with arena := arena, allocs := Function.update p.allocs t alloc }
  | .arenaRwPersistent => do
    if (p.allocs t).size = 0 ∧ (p.allocs t).size < (g.tensor t).bytes then
      let (arena, alloc) ← p.persistentArena.allocate
        ⟨p.tensorAlignment, (g.tensor t).bytes, t, p.allocNode t, kNodeNotAssigned⟩
      return { p with persistentArena := arena, allocs := Function.update p.allocs t alloc }
    else return p
  | _ => some p

/-- A buffer is shared only if its owner is in the arena and has the same size. -/
def ArenaPlanner.allocateTensor (g : GraphInfo) (p : ArenaPlanner) (t : Nat) : Option ArenaPlanner :=
  match p.actualTensorId t with
  | some root =>
    if (g.tensor root).allocationType ≠ .arenaRw ∨ (g.tensor root).bytes ≠ (g.tensor t).bytes then
      { p with actualTensorId := Function.update p.actualTensorId t none }.allocateOwner g t
    else some p
  | none => p.allocateOwner g t

/-- `CalculateAllocations`, with `std::sort` as a parameter. -/
def ArenaPlanner.calculateAllocations (sort : (Nat → Nat → Bool) → List Nat → List Nat) (p : ArenaPlanner)
    (g : GraphInfo) (firstNode lastNode : Nat) : Option (ArenaPlanner × List Nat) := do
  let tensorsAllocated := (p.getTensorsToAllocate firstNode lastNode).filter (p.needsAllocation g)
  if tensorsAllocated = [] then return ({ p with lastActiveNode := lastNode }, [])
  let arena := if firstNode < p.lastActiveNode then p.arena.resetAllocs else p.arena.purgeActiveAllocs firstNode
  let tensorsAllocated := sort (p.tensorCompare g) tensorsAllocated
  let p ← tensorsAllocated.foldlM (allocateTensor g) { p with arena := arena }
  return ({ p with lastActiveNode := lastNode }, tensorsAllocated)

def ArenaPlanner.commit (p : ArenaPlanner) : ArenaPlanner :=
  { p with arena := p.arena.commit, persistentArena := p.persistentArena.commit }

def areTensorsAllocatedInSameArena (g : GraphInfo) (root t : Nat) : Bool :=
  let rootType := (g.tensor root).allocationType
  let type := (g.tensor t).allocationType
  (rootType = .arenaRw && type = .arenaRw) || (rootType = .arenaRwPersistent && type = .arenaRwPersistent)

/-- What a data pointer points into: an arena, or the tensor's own memory where it is in neither. -/
inductive Buffer
  | arena
  | persistentArena
  | own (tensor : Nat)
  deriving DecidableEq

/-- `ResolveTensorAllocation`: the data pointer of a tensor, none inside for a null pointer. The recursion
follows shared buffers to their owner. -/
def ArenaPlanner.resolveTensorAllocation (p : ArenaPlanner) (g : GraphInfo) :
    Nat → Nat → Option (Option (Buffer × Nat))
  | 0, _ => none
  | fuel + 1, t =>
    let root := p.findSharedTensor t
    if root ≠ t ∧ areTensorsAllocatedInSameArena g root t then
      -- the status of the owner is ignored
      some ((p.resolveTensorAllocation g fuel root).getD none)
    else
      match (g.tensor t).allocationType with
      | .arenaRw =>
        if (p.allocs t).size ≠ 0 then (p.arena.resolveAlloc (p.allocs t)).map (Option.map (Prod.mk .arena))
        else some none
      | .arenaRwPersistent =>
        (p.persistentArena.resolveAlloc (p.allocs t)).map (Option.map (Prod.mk .persistentArena))
      | _ => some (some (.own t, 0))

def ArenaPlanner.tensorData (p : ArenaPlanner) (g : GraphInfo) (t : Nat) : Option (Option (Buffer × Nat)) :=
  p.resolveTensorAllocation g (g.tensors.length + 1) t

def ArenaPlanner.executeAllocations (sort : (Nat → Nat → Bool) → List Nat → List Nat) (p : ArenaPlanner)
    (g : GraphInfo) (firstNode lastNode : Nat) : Option ArenaPlanner := do
  let p := p.planTemporaries g firstNode lastNode
  let (p, tensorsAllocated) ← p.calculateAllocations sort g firstNode lastNode
  -- the buffer of an arena moves when it grows
  let reallocated := p.arena.bufferSize < p.arena.highWaterMark ∨
    p.persistentArena.bufferSize < p.persistentArena.highWaterMark
  let p := p.commit
  let resolved := if reallocated then List.range g.tensors.length else tensorsAllocated
  if resolved.all fun t => (p.tensorData g t).isSome then return p else none

end AuroraVoice
