import AuroraVoice.Runs
import Mathlib.Data.List.Infix

namespace AuroraVoice

inductive TfLiteStatus
  | ok
  | error
  | delegateError
  | applicationError
  | delegateDataNotFound
  | delegateDataWriteError
  | delegateDataReadError
  | unresolvedOps
  | cancelled
  | outputShapeNotKnown
  deriving DecidableEq

/-- What a subgraph does to its nodes and its memory planner. `restart` resets the cursors, and `resize` says that
the node has resized a dynamic output. -/
inductive SubgraphEvent
  | restart
  | resetAllocations
  | prepare (node : Nat)
  | planAllocations
  | executeAllocations (firstNode lastNode : Nat) (ok : Bool)
  | invoke (node : Nat)
  | resize (node : Nat)
  | resetAllocationsAfter (node : Nat)
  deriving DecidableEq

/-- `ExecuteAllocations` can fail before the arenas are committed and after. -/
inductive AllocationAnswer
  | planFails
  | resolveFails
  | succeeds
  deriving DecidableEq

/-- What the kernels, the planner and the user's cancellation answer during one call, given all that happened before. -/
structure SubgraphEnvironment where
  dynamicInputs : List SubgraphEvent → Bool
  prepare : List SubgraphEvent → Nat → TfLiteStatus
  dynamicOutputs : List SubgraphEvent → Nat → Bool
  executeAllocations : List SubgraphEvent → Nat → Nat → AllocationAnswer
  lacksData : List SubgraphEvent → Nat → Bool
  cancels : List SubgraphEvent → Nat → Option TfLiteStatus
  invoke : List SubgraphEvent → Nat → TfLiteStatus
  resized : List SubgraphEvent → Nat → Bool

/-- The first `nodes` numbers are the indices of the execution plan, and the latest event comes first. -/
structure Subgraph where
  nodes : Nat
  invokable : Bool
  nextToPrepare : Nat
  nextToPlanAllocation : Nat
  hasPlanner : Bool
  hasNonPersistentMemory : Bool
  events : List SubgraphEvent

def Subgraph.new (nodes : Nat) : Subgraph := ⟨nodes, false, 0, 0, false, false, []⟩

def Subgraph.record (s : Subgraph) (e : SubgraphEvent) : Subgraph := { s with events := e :: s.events }

/-- Where and why a call fails. -/
inductive SubgraphError
  | prepareFails (node : Nat) (status : TfLiteStatus)
  | executeAllocationsFails
  | notReady
  | noNonPersistentMemory
  | prepareEnsure
  | lacksData (node : Nat)
  | cancelled (node : Nat) (status : TfLiteStatus)
  | invokeFails (node : Nat) (status : TfLiteStatus)
  deriving DecidableEq

/-- `PrepareOpsStartingAt` from node `i` with so many nodes to go: the last node that is prepared. -/
def Subgraph.prepareOpsStartingAt (e : SubgraphEnvironment) :
    Nat → Nat → Nat → Subgraph → Subgraph × Except SubgraphError Nat
  | 0, _, last, s => (s, .ok last)
  | todo + 1, i, _, s =>
    let status := e.prepare s.events i
    let s := s.record (.prepare i)
    if status ≠ .ok ∧ status ≠ .outputShapeNotKnown then (s, .error (.prepareFails i status))
    -- later nodes wait until this one has run
    else if e.dynamicOutputs s.events i ∨ status = .outputShapeNotKnown then (s, .ok i)
    else prepareOpsStartingAt e todo (i + 1) i s

/-- The planner is made at the first use. The status of `PlanAllocations` is not looked at. -/
def Subgraph.makePlanner (s : Subgraph) : Subgraph :=
  if s.hasPlanner then s else { s with hasPlanner := true }.record .planAllocations

def Subgraph.executeAllocations (e : SubgraphEnvironment) (last : Nat) (s : Subgraph) :
    Subgraph × Option SubgraphError :=
  let first := s.nextToPlanAllocation
  match e.executeAllocations s.events first last with
  | .planFails => (s.record (.executeAllocations first last false), some .executeAllocationsFails)
  | .resolveFails =>
    ({ s with hasNonPersistentMemory := true }.record (.executeAllocations first last false),
      some .executeAllocationsFails)
  | .succeeds =>
    ({ s with hasNonPersistentMemory := true, nextToPlanAllocation := last + 1 }.record
      (.executeAllocations first last true), none)

def Subgraph.prepareOpsAndTensors (e : SubgraphEnvironment) (s : Subgraph) : Subgraph × Option SubgraphError :=
  match s.prepareOpsStartingAt e (s.nodes - s.nextToPrepare) s.nextToPrepare 0 with
  | (s, .error failure) => (s, some failure)
  | (s, .ok last) => { s with nextToPrepare := last + 1 }.makePlanner.executeAllocations e last

/-- Any existing allocations are dropped. -/
def Subgraph.restart (s : Subgraph) : Subgraph :=
  let s := { s with nextToPrepare := 0, nextToPlanAllocation := 0 }.record .restart
  if s.hasPlanner then s.record .resetAllocations else s

def Subgraph.allocateTensors (e : SubgraphEnvironment) (s : Subgraph) : Subgraph × Option SubgraphError :=
  if s.invokable ∧ e.dynamicInputs s.events = false then
    (if s.hasPlanner ∧ s.hasNonPersistentMemory = false then { s with hasNonPersistentMemory := true } else s, none)
  else
    match s.restart.prepareOpsAndTensors e with
    | (s, none) => ({ s with invokable := true }, none)
    | failed => failed

/-- What comes before a node is looked at: nodes that could not be prepared earlier are now. -/
def Subgraph.prepareNode (e : SubgraphEnvironment) (i : Nat) (s : Subgraph) : Subgraph × Option SubgraphError :=
  if i = s.nextToPrepare then
    match s.prepareOpsAndTensors e with
    | (s, none) => (s, if s.nextToPrepare ≥ i then none else some .prepareEnsure)
    | failed => failed
  else (s, none)

/-- The node has resized a dynamic output, so everything after it is prepared and placed again. -/
def Subgraph.resized (i : Nat) (s : Subgraph) : Subgraph :=
  let s := { s with nextToPrepare := i + 1 }.record (.resize i)
  if s.nextToPlanAllocation > s.nextToPrepare then
    let s := { s with nextToPlanAllocation := s.nextToPrepare }
    if s.hasPlanner then s.record (.resetAllocationsAfter (s.nextToPlanAllocation - 1)) else s
  else s

def Subgraph.invokeNode (e : SubgraphEnvironment) (i : Nat) (s : Subgraph) : Subgraph × Option SubgraphError :=
  if e.lacksData s.events i then (s, some (.lacksData i))
  else
    match e.cancels s.events i with
    | some status => (s, some (.cancelled i status))
    | none =>
      let status := e.invoke s.events i
      let s := s.record (.invoke i)
      if status ≠ .ok then (s, some (.invokeFails i status))
      else if e.resized s.events i ∧ e.dynamicOutputs s.events i then (s.resized i, none)
      else (s, none)

/-- The loop of `InvokeImpl` from node `i` with so many nodes to go. -/
def Subgraph.invokeNodes (e : SubgraphEnvironment) : Nat → Nat → Subgraph → Subgraph × Option SubgraphError
  | 0, _, s => (s, none)
  | todo + 1, i, s =>
    match s.prepareNode e i with
    | (s, some failure) => (s, some failure)
    | (s, none) =>
      match s.invokeNode e i with
      | (s, some failure) => (s, some failure)
      | (s, none) => invokeNodes e todo (i + 1) s

def Subgraph.invoke (e : SubgraphEnvironment) (s : Subgraph) : Subgraph × Option SubgraphError :=
  if s.invokable = false then (s, some .notReady)
  else if s.hasPlanner ∧ s.hasNonPersistentMemory = false then (s, some .noNonPersistentMemory)
  else s.invokeNodes e s.nodes 0

/-- A `resizeInputTensor` changes something only if the dimensions do or the tensor has no memory yet. -/
inductive SubgraphCall
  | allocateTensors
  | invoke
  | resizeInputTensor (changes : Bool)
  | releaseNonPersistentMemory
  deriving DecidableEq

def Subgraph.call (s : Subgraph) (e : SubgraphEnvironment) : SubgraphCall → Subgraph × Option SubgraphError
  | .allocateTensors => s.allocateTensors e
  | .invoke => s.invoke e
  | .resizeInputTensor changes => (if changes then { s with invokable := false } else s, none)
  | .releaseNonPersistentMemory =>
    ({ s with invokable := false, hasNonPersistentMemory := false }, none)

def Subgraph.next (s : Subgraph) (a : SubgraphEnvironment × SubgraphCall) : Subgraph := (s.call a.1 a.2).1

/-- The node is prepared: no restart since, and no earlier node has resized its outputs since. -/
def nodePrepared (i : Nat) : List SubgraphEvent → Bool
  | [] => false
  | .restart :: _ => false
  | .prepare j :: past => j = i || nodePrepared i past
  | .resize j :: past => i ≤ j && nodePrepared i past
  | _ :: past => nodePrepared i past

/-- The tensors of the node have got their places, in the same sense. -/
def nodePlaced (i : Nat) : List SubgraphEvent → Bool
  | [] => false
  | .restart :: _ => false
  | .executeAllocations first last ok :: past => ok && first ≤ i && i ≤ last || nodePlaced i past
  | .resize j :: past => i ≤ j && nodePlaced i past
  | _ :: past => nodePlaced i past

/-- The latest `ExecuteAllocations` has failed. -/
def placementFailed : List SubgraphEvent → Bool
  | [] => false
  | .restart :: _ => false
  | .executeAllocations _ _ ok :: _ => !ok
  | _ :: past => placementFailed past

/-- Every node that has run was prepared by then, and had its places unless the planner failed. -/
def InvokedReady : List SubgraphEvent → Prop
  | [] => True
  | .invoke i :: past => (nodePrepared i past ∧ (nodePlaced i past ∨ placementFailed past)) ∧ InvokedReady past
  | _ :: past => InvokedReady past

section Events

theorem InvokedReady.of_suffix {events past : List SubgraphEvent} {i : Nat} (h : InvokedReady events)
    (suffix : .invoke i :: past <:+ events) :
    nodePrepared i past = true ∧ (nodePlaced i past = true ∨ placementFailed past = true) := by
  induction events with
  | nil => cases List.suffix_nil.mp suffix
  | cons e events ih =>
    rcases List.suffix_cons_iff.mp suffix with same | older
    · obtain ⟨rfl, rfl⟩ := List.cons.inj same
      exact h.1
    · cases e with
      | invoke j => exact ih h.2 older
      | _ => exact ih h older

variable (nodes : List Nat) (past : List SubgraphEvent)

theorem nodePrepared_prepares (i : Nat) :
    nodePrepared i (nodes.map .prepare ++ past) = true ↔ i ∈ nodes ∨ nodePrepared i past = true := by
  induction nodes with
  | nil => simp
  | cons j nodes ih =>
    show (decide (j = i) || nodePrepared i (nodes.map .prepare ++ past)) = true ↔ _
    rw [Bool.or_eq_true, decide_eq_true_eq, ih, List.mem_cons, or_assoc, eq_comm]

theorem nodePlaced_prepares (i : Nat) : nodePlaced i (nodes.map .prepare ++ past) = nodePlaced i past := by
  induction nodes with
  | nil => rfl
  | cons j nodes ih => exact ih

theorem placementFailed_prepares : placementFailed (nodes.map .prepare ++ past) = placementFailed past := by
  induction nodes with
  | nil => rfl
  | cons j nodes ih => exact ih

theorem invokedReady_prepares : InvokedReady (nodes.map .prepare ++ past) ↔ InvokedReady past := by
  induction nodes with
  | nil => exact Iff.rfl
  | cons j nodes ih => exact ih

end Events

section Schedule

variable {s : Subgraph} {e : SubgraphEnvironment} {i n : Nat}

/-- The nodes before `n` are prepared, and those before the other cursor have their places. -/
structure Subgraph.PreparedTo (n : Nat) (s : Subgraph) : Prop where
  prepared : ∀ i < n, i < s.nodes → nodePrepared i s.events = true
  placed : ∀ i < s.nextToPlanAllocation, i < s.nodes → nodePlaced i s.events = true
  le : s.nextToPlanAllocation ≤ n
  invoked : InvokedReady s.events
  memory : s.invokable = true → s.hasPlanner = true ∧ s.hasNonPersistentMemory = true

/-- Between two nodes: the cursors are apart only if the planner has failed. -/
structure Subgraph.Scheduled (s : Subgraph) : Prop extends s.PreparedTo s.nextToPrepare where
  gap : s.nextToPlanAllocation < s.nextToPrepare → placementFailed s.events = true

/-- The nodes that `PrepareOpsStartingAt` prepares follow one another. -/
theorem Subgraph.prepareOpsStartingAt_spec (e : SubgraphEnvironment) (todo i last : Nat) (s : Subgraph) :
    ∃ k ≤ todo, (s.prepareOpsStartingAt e todo i last).1 =
        { s with events := (List.range' i k).reverse.map .prepare ++ s.events } ∧
      (∀ l, (s.prepareOpsStartingAt e todo i last).2 = .ok l → todo = 0 ∧ k = 0 ∧ l = last ∨ 0 < k ∧ l + 1 = i + k) ∧
      ∀ f, (s.prepareOpsStartingAt e todo i last).2 = .error f → ∃ node status, f = .prepareFails node status := by
  induction todo generalizing i last s with
  | zero =>
    refine ⟨0, Nat.le_refl 0, rfl, fun l eq => Or.inl ⟨rfl, rfl, ?_⟩, fun f eq => by cases eq⟩
    cases eq
    rfl
  | succ todo ih =>
    unfold Subgraph.prepareOpsStartingAt
    dsimp only
    split
    next =>
      refine ⟨1, Nat.succ_pos todo, rfl, fun l eq => (by cases eq), fun f eq => ?_⟩
      cases eq
      exact ⟨i, _, rfl⟩
    next =>
      split
      next =>
        refine ⟨1, Nat.succ_pos todo, rfl, fun l eq => Or.inr ⟨Nat.one_pos, ?_⟩, fun f eq => by cases eq⟩
        cases eq
        rfl
      next =>
        obtain ⟨k, le, state, result, failure⟩ := ih (i + 1) i (s.record (.prepare i))
        refine ⟨k + 1, Nat.succ_le_succ le, ?_, fun l eq => Or.inr ⟨Nat.succ_pos k, ?_⟩, failure⟩
        · rw [state, List.range'_succ, List.reverse_cons, List.map_append, List.append_assoc]
          rfl
        · have last := result l eq
          omega

theorem Subgraph.PreparedTo.prepares (h : s.PreparedTo n) (k : Nat) :
    Subgraph.PreparedTo (n + k) { s with events := (List.range' n k).reverse.map .prepare ++ s.events } := by
  refine ⟨fun i lt inside => ?_, fun i lt inside => ?_, Nat.le_trans h.le (Nat.le_add_right n k),
    (invokedReady_prepares _ _).mpr h.invoked, h.memory⟩
  · rw [nodePrepared_prepares, List.mem_reverse, List.mem_range'_1]
    by_cases before : i < n
    · exact Or.inr (h.prepared i before inside)
    · exact Or.inl ⟨by omega, lt⟩
  · rw [nodePlaced_prepares]
    exact h.placed i lt inside

theorem Subgraph.PreparedTo.makePlanner (h : s.PreparedTo n) : s.makePlanner.PreparedTo n := by
  unfold Subgraph.makePlanner
  split
  next => exact h
  next => exact ⟨h.prepared, h.placed, h.le, h.invoked, fun on => ⟨rfl, (h.memory on).2⟩⟩

theorem Subgraph.makePlanner_frame (s : Subgraph) : s.makePlanner.hasPlanner = true ∧ s.makePlanner.nodes = s.nodes ∧
    s.makePlanner.nextToPrepare = s.nextToPrepare := by
  unfold Subgraph.makePlanner
  split
  next on => exact ⟨on, rfl, rfl⟩
  next => exact ⟨rfl, rfl, rfl⟩

/-- What `PrepareOpsAndTensors` leaves: if it succeeds, both cursors stand behind the last node that is prepared. -/
structure Subgraph.Prepares (s : Subgraph) (x : Subgraph × Option SubgraphError) : Prop where
  scheduled : x.1.Scheduled
  nodes : x.1.nodes = s.nodes
  memory : x.2 = none → x.1.hasPlanner = true ∧ x.1.hasNonPersistentMemory = true
  ahead : x.2 = none → s.nextToPrepare < x.1.nextToPrepare
  failure : x.2 ≠ some .prepareEnsure ∧ x.2 ≠ some .noNonPersistentMemory

theorem Subgraph.executeAllocations_prepares {last : Nat} (planner : s.hasPlanner = true)
    (cursor : s.nextToPrepare = last + 1) (h : s.PreparedTo (last + 1)) (e : SubgraphEnvironment) :
    (s.executeAllocations e last).1.Scheduled ∧ (s.executeAllocations e last).1.nodes = s.nodes ∧
      (s.executeAllocations e last).1.nextToPrepare = last + 1 ∧
      ((s.executeAllocations e last).2 = none →
        (s.executeAllocations e last).1.hasPlanner = true ∧ (s.executeAllocations e last).1.hasNonPersistentMemory = true) ∧
      ((s.executeAllocations e last).2 = none ∨ (s.executeAllocations e last).2 = some .executeAllocationsFails) := by
  have old : ∀ i < s.nextToPlanAllocation, i < s.nodes → ∀ ok,
      nodePlaced i (.executeAllocations s.nextToPlanAllocation last ok :: s.events) = true :=
    fun i lt inside ok => Bool.or_eq_true_iff.mpr (Or.inr (h.placed i lt inside))
  have upTo : ∀ i < s.nextToPrepare, i < s.nodes → nodePrepared i s.events = true := by
    rw [cursor]
    exact h.prepared
  have le : s.nextToPlanAllocation ≤ s.nextToPrepare := by
    rw [cursor]
    exact h.le
  unfold Subgraph.executeAllocations
  dsimp only
  split
  next =>
    exact ⟨⟨⟨upTo, fun i lt inside => old i lt inside false, le, h.invoked, h.memory⟩, fun _ => rfl⟩, rfl, cursor, nofun,
      Or.inr rfl⟩
  next =>
    exact ⟨⟨⟨upTo, fun i lt inside => old i lt inside false, le, h.invoked, fun on => ⟨(h.memory on).1, rfl⟩⟩, fun _ => rfl⟩,
      rfl, cursor, nofun, Or.inr rfl⟩
  next =>
    refine ⟨⟨⟨upTo, fun i lt inside => ?_, Nat.le_of_eq cursor.symm, h.invoked, fun on => ⟨(h.memory on).1, rfl⟩⟩,
      fun apart => ?_⟩, rfl, cursor, fun _ => ⟨planner, rfl⟩, Or.inl rfl⟩
    · by_cases before : i < s.nextToPlanAllocation
      · exact old i before inside true
      · have here : s.nextToPlanAllocation ≤ i ∧ i ≤ last := ⟨by omega, Nat.le_of_lt_succ lt⟩
        simp [Subgraph.record, nodePlaced, here]
    · have behind : last + 1 < s.nextToPrepare := apart
      omega

/-- `first` is where the cursor stands, and there is a node there or nothing has been prepared at all. -/
theorem Subgraph.Scheduled.prepareOpsAndTensors (h : s.Scheduled) (first : s.nextToPrepare = 0 ∨ s.nextToPrepare < s.nodes)
    (e : SubgraphEnvironment) : s.Prepares (s.prepareOpsAndTensors e) := by
  obtain ⟨k, _, state, result, failure⟩ := s.prepareOpsStartingAt_spec e (s.nodes - s.nextToPrepare) s.nextToPrepare 0
  have after := h.toPreparedTo.prepares k
  unfold Subgraph.prepareOpsAndTensors
  split
  next failed reason eq =>
    rw [eq] at state failure
    dsimp only at state
    subst state
    obtain ⟨node, status, rfl⟩ := failure reason rfl
    refine ⟨⟨⟨fun i lt inside => after.prepared i (Nat.lt_of_lt_of_le lt (Nat.le_add_right _ k)) inside, after.placed, h.le,
      after.invoked, after.memory⟩, fun apart => ?_⟩, rfl, nofun, nofun, nofun, nofun⟩
    rw [placementFailed_prepares]
    exact h.gap apart
  next prepared last eq =>
    rw [eq] at state result
    dsimp only at state
    subst state
    -- an empty plan counts as one node
    have ahead : s.nextToPrepare + k ≤ last + 1 ∧ s.nextToPrepare < last + 1 ∧ (s.nextToPrepare + k < last + 1 → s.nodes = 0) := by
      have last := result last rfl
      omega
    set mid : Subgraph := { s with
      nextToPrepare := last + 1
      events := (List.range' s.nextToPrepare k).reverse.map .prepare ++ s.events } with hmid
    have upTo : mid.PreparedTo (last + 1) := by
      refine ⟨fun i lt inside => ?_, after.placed, Nat.le_trans after.le ahead.1, after.invoked, after.memory⟩
      by_cases empty : s.nodes = 0
      · have none : i < s.nodes := inside
        omega
      · exact after.prepared i (by omega) inside
    obtain ⟨planner, nodes, cursor⟩ := mid.makePlanner_frame
    obtain ⟨scheduled, same, reached, memory, failures⟩ :=
      Subgraph.executeAllocations_prepares planner (cursor.trans rfl) upTo.makePlanner e
    refine ⟨scheduled, same.trans nodes, memory, fun _ => ?_, ?_⟩
    · rw [reached]
      exact ahead.2.1
    · rcases failures with eq | eq <;> rw [eq] <;> exact ⟨nofun, nofun⟩

theorem Subgraph.restart_cursor (s : Subgraph) : s.restart.nextToPrepare = 0 := by
  unfold Subgraph.restart
  dsimp only
  split <;> rfl

theorem Subgraph.Scheduled.restart (h : s.Scheduled) : s.restart.Scheduled := by
  unfold Subgraph.restart
  dsimp only
  split <;> exact ⟨⟨nofun, nofun, Nat.le_refl 0, h.invoked, h.memory⟩, nofun⟩

theorem Subgraph.Scheduled.allocateTensors (h : s.Scheduled) (e : SubgraphEnvironment) :
    (s.allocateTensors e).1.Scheduled := by
  unfold Subgraph.allocateTensors
  split
  next =>
    dsimp only
    split
    next missing => exact ⟨⟨h.prepared, h.placed, h.le, h.invoked, fun _ => ⟨missing.1, rfl⟩⟩, h.gap⟩
    next => exact h
  next =>
    have prepares := h.restart.prepareOpsAndTensors (Or.inl s.restart_cursor) e
    split
    next done eq =>
      rw [eq] at prepares
      have ready := prepares.scheduled
      exact ⟨⟨ready.prepared, ready.placed, ready.le, ready.invoked, fun _ => prepares.memory rfl⟩, ready.gap⟩
    next failed => exact prepares.scheduled

/-- The loop meets a node only when the cursor is not behind it, so that the node is prepared now or was before. -/
theorem Subgraph.Scheduled.prepareNode (h : s.Scheduled) (inside : i < s.nodes) (cursor : i ≤ s.nextToPrepare)
    (e : SubgraphEnvironment) : (s.prepareNode e i).1.Scheduled ∧ (s.prepareNode e i).1.nodes = s.nodes ∧
      ((s.prepareNode e i).2 = none → i < (s.prepareNode e i).1.nextToPrepare) ∧
      (s.prepareNode e i).2 ≠ some .prepareEnsure ∧ (s.prepareNode e i).2 ≠ some .noNonPersistentMemory := by
  unfold Subgraph.prepareNode
  split
  next here =>
    have prepares := h.prepareOpsAndTensors (Or.inr (here ▸ inside)) e
    split
    next done eq =>
      rw [eq] at prepares
      have ahead : i < done.nextToPrepare := by
        rw [here]
        exact prepares.ahead rfl
      rw [if_pos (Nat.le_of_lt ahead)]
      exact ⟨prepares.scheduled, prepares.nodes, fun _ => ahead, nofun, nofun⟩
    next failed failure =>
      refine ⟨prepares.scheduled, prepares.nodes, fun succeeded => ?_, prepares.failure⟩
      rw [here]
      exact prepares.ahead succeeded
  next other => exact ⟨h, rfl, fun _ => Nat.lt_of_le_of_ne cursor other, nofun, nofun⟩

theorem Subgraph.Scheduled.resized (h : s.Scheduled) (cursor : i < s.nextToPrepare) :
    (s.resized i).Scheduled ∧ (s.resized i).nextToPrepare = i + 1 ∧ (s.resized i).nodes = s.nodes := by
  have prepared : ∀ j < i + 1, j < s.nodes → nodePrepared j (.resize i :: s.events) = true := by
    intro j lt inside
    have kept := h.prepared j (by omega) inside
    simp [nodePrepared, kept, Nat.le_of_lt_succ lt]
  have placed : ∀ j < s.nextToPlanAllocation, j < i + 1 → j < s.nodes → nodePlaced j (.resize i :: s.events) = true := by
    intro j lt before inside
    have kept := h.placed j lt inside
    simp [nodePlaced, kept, Nat.le_of_lt_succ before]
  unfold Subgraph.resized
  dsimp only
  split
  next ahead =>
    have beyond : i + 1 < s.nextToPlanAllocation := ahead
    have moved : ∀ j < i + 1, j < s.nodes → nodePlaced j (.resize i :: s.events) = true :=
      fun j lt inside => placed j (by omega) lt inside
    split
    all_goals
      refine ⟨⟨⟨prepared, moved, Nat.le_refl (i + 1), h.invoked, h.memory⟩, fun apart => ?_⟩, rfl, rfl⟩
      exact absurd apart (Nat.lt_irrefl (i + 1))
  next behind =>
    have le : s.nextToPlanAllocation ≤ i + 1 := Nat.le_of_not_lt behind
    refine ⟨⟨⟨prepared, fun j lt inside => placed j lt (Nat.lt_of_lt_of_le lt le) inside, le, h.invoked, h.memory⟩,
      fun apart => ?_⟩, rfl, rfl⟩
    have before : s.nextToPlanAllocation < i + 1 := apart
    exact h.gap (by omega)

theorem Subgraph.Scheduled.invokeNode (h : s.Scheduled) (inside : i < s.nodes) (cursor : i < s.nextToPrepare)
    (e : SubgraphEnvironment) : (s.invokeNode e i).1.Scheduled ∧ (s.invokeNode e i).1.nodes = s.nodes ∧
      i < (s.invokeNode e i).1.nextToPrepare ∧
      (s.invokeNode e i).2 ≠ some .prepareEnsure ∧ (s.invokeNode e i).2 ≠ some .noNonPersistentMemory := by
  have ready : nodePlaced i s.events = true ∨ placementFailed s.events = true := by
    by_cases before : i < s.nextToPlanAllocation
    · exact Or.inl (h.placed i before inside)
    · exact Or.inr (h.gap (by omega))
  have ran : (s.record (.invoke i)).Scheduled :=
    ⟨⟨h.prepared, h.placed, h.le, ⟨⟨h.prepared i cursor inside, ready⟩, h.invoked⟩, h.memory⟩, h.gap⟩
  unfold Subgraph.invokeNode
  split
  next => exact ⟨h, rfl, cursor, nofun, nofun⟩
  next =>
    split
    next => exact ⟨h, rfl, cursor, nofun, nofun⟩
    next =>
      dsimp only
      split
      next => exact ⟨ran, rfl, cursor, nofun, nofun⟩
      next =>
        split
        next =>
          obtain ⟨again, reached, nodes⟩ := ran.resized cursor
          refine ⟨again, nodes, ?_, nofun, nofun⟩
          rw [reached]
          exact Nat.lt_succ_self i
        next => exact ⟨ran, rfl, cursor, nofun, nofun⟩

theorem Subgraph.Scheduled.invokeNodes (e : SubgraphEnvironment) {todo : Nat} (h : s.Scheduled)
    (total : i + todo = s.nodes) (cursor : i ≤ s.nextToPrepare) : (s.invokeNodes e todo i).1.Scheduled ∧
      (s.invokeNodes e todo i).2 ≠ some .prepareEnsure ∧ (s.invokeNodes e todo i).2 ≠ some .noNonPersistentMemory := by
  induction todo generalizing i s with
  | zero => exact ⟨h, nofun, nofun⟩
  | succ todo ih =>
    obtain ⟨prepared, nodes, ahead, failures⟩ := h.prepareNode (by omega) cursor e
    unfold Subgraph.invokeNodes
    split
    next failed failure eq =>
      rw [eq] at prepared failures
      exact ⟨prepared, failures⟩
    next ready eq =>
      rw [eq] at prepared nodes ahead
      dsimp only at prepared nodes
      obtain ⟨invoked, same, past, failures⟩ := prepared.invokeNode (by omega) (ahead rfl) e
      split
      next failed failure eq =>
        rw [eq] at invoked failures
        exact ⟨invoked, failures⟩
      next next eq =>
        rw [eq] at invoked same past
        dsimp only at same past
        exact ih invoked (by omega) past

theorem Subgraph.Scheduled.invoke (h : s.Scheduled) (e : SubgraphEnvironment) : (s.invoke e).1.Scheduled ∧
    (s.invoke e).2 ≠ some .prepareEnsure ∧ (s.invoke e).2 ≠ some .noNonPersistentMemory := by
  unfold Subgraph.invoke
  split
  next => exact ⟨h, nofun, nofun⟩
  next on =>
    have memory := h.memory (by simpa using on)
    rw [if_neg (by simp [memory])]
    exact h.invokeNodes e (Nat.zero_add s.nodes) (Nat.zero_le _)

theorem Subgraph.Scheduled.next (s : Subgraph) (a : SubgraphEnvironment × SubgraphCall) (h : s.Scheduled) :
    (s.next a).Scheduled := by
  obtain ⟨e, call⟩ := a
  cases call with
  | allocateTensors => exact h.allocateTensors e
  | invoke => exact (h.invoke e).1
  | resizeInputTensor changes =>
    cases changes with
    | true => exact ⟨⟨h.prepared, h.placed, h.le, h.invoked, nofun⟩, h.gap⟩
    | false => exact h
  | releaseNonPersistentMemory => exact ⟨⟨h.prepared, h.placed, h.le, h.invoked, nofun⟩, h.gap⟩

theorem Subgraph.scheduled_new (n : Nat) : (Subgraph.new n).Scheduled :=
  ⟨⟨nofun, nofun, Nat.le_refl 0, trivial, nofun⟩, nofun⟩

end Schedule

/-- Whatever kernels, planner and user do, in any order of calls: a node runs only prepared, after every later restart
and every resize of an earlier node's outputs, and with its tensors placed unless the latest placement failed.
The check after the preparation never fails, and the memory is there when `Invoke` asks for it. -/
theorem nodes_run_prepared (n : Nat) (calls : List (SubgraphEnvironment × SubgraphCall)) :
    let s := Runs.run Subgraph.next (Subgraph.new n) calls
    (∀ i past, .invoke i :: past <:+ s.events →
      nodePrepared i past = true ∧ (nodePlaced i past = true ∨ placementFailed past = true)) ∧
    ∀ e, (s.invoke e).2 ≠ some .prepareEnsure ∧ (s.invoke e).2 ≠ some .noNonPersistentMemory := by
  intro s
  have scheduled : s.Scheduled := Runs.run_induction Subgraph.Scheduled.next (Subgraph.scheduled_new n) calls
  exact ⟨fun i past suffix => scheduled.invoked.of_suffix suffix, fun e => (scheduled.invoke e).2⟩

/-- The shapes after the first node are not known before it has run, and the planner fails for the second one. -/
def failingPlanner : SubgraphEnvironment where
  dynamicInputs _ := false
  prepare _ i := if i = 0 then .outputShapeNotKnown else .ok
  dynamicOutputs _ _ := false
  executeAllocations _ first _ := if first = 0 then .succeeds else .planFails
  lacksData _ _ := false
  cancels _ _ := none
  invoke _ _ := .ok
  resized _ _ := false

-- the cursors are apart after a failed `Invoke`, and the next one runs a node that has no places
example : ∃ past, (Runs.run Subgraph.next (Subgraph.new 2) [(failingPlanner, .allocateTensors), (failingPlanner, .invoke),
      (failingPlanner, .invoke)]).events = .invoke 1 :: past ∧ nodePlaced 1 past = false :=
  ⟨_, rfl, rfl⟩

end AuroraVoice
