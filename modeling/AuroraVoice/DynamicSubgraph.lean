import AuroraVoice.ArenaResets
import AuroraVoice.Subgraph

namespace AuroraVoice

def SubgraphEvent.plannerCall : SubgraphEvent → Option PlannerCall
  | .planAllocations => some .planAllocations
  | .resetAllocations => some .resetAllocations
  | .executeAllocations firstNode lastNode _ => some (.executeAllocations firstNode lastNode)
  | .resetAllocationsAfter node => some (.resetAllocationsAfter node)
  | _ => none

/-- A graph whose tensors get other sizes as time goes on, and a new arena planner for it. -/
structure DynamicGraph where
  graph : GraphInfo
  sizes : List SubgraphEvent → GraphInfo
  start : ArenaPlanner
  sort : (Nat → Nat → Bool) → List Nat → List Nat
  sortAllocs : List ArenaAllocWithUsageInterval → List ArenaAllocWithUsageInterval
  wf : graph.WellFormed
  resized : ∀ past, graph.Resized (sizes past)
  pos : 0 < start.tensorAlignment
  aligned : start.tensorAlignment ≤ start.arena.bufferAlignment ∧
    start.tensorAlignment ≤ start.persistentArena.bufferAlignment
  perm : ∀ lt l, (sort lt l).Perm l
  sorts : ∀ l, (sortAllocs l).Perm l ∧ SortedAllocs (sortAllocs l)

namespace DynamicGraph

variable (d : DynamicGraph)

/-- The planner after one more call, with the sizes after these events. -/
def call (past : List SubgraphEvent) (r : PlannerRun) (call : PlannerCall) : PlannerRun :=
  r.next d.sort d.sortAllocs d.start.tensorAlignment (d.sizes past, call)

/-- The planner after the events of a subgraph. -/
def replay : List SubgraphEvent → PlannerRun
  | [] => PlannerRun.start d.graph d.start
  | e :: past =>
    match e.plannerCall with
    | some call => d.call past (replay past) call
    | none => replay past

/-- What `InOrder` asks of the sizes: tensors that have their places keep them while the places are in use, and the
requests do not wrap around. -/
def KeepsSizes (past : List SubgraphEvent) : PlannerCall → Prop
  | .planAllocations => True
  | .resetAllocations => True
  | .executeAllocations firstNode lastNode =>
    (d.replay past).graph.KeepsPlaced (d.sizes past) (d.replay past).placed (d.replay past).reached ∧
      (d.replay past).weight + (d.sizes past).batchWeight d.start.tensorAlignment firstNode lastNode < 2 ^ 64
  | .resetAllocationsAfter _ =>
    (d.replay past).graph.KeepsPlaced (d.sizes past) (d.replay past).placed (d.replay past).reached

/-- The sizes are kept at every call of the planner. -/
def Steady : List SubgraphEvent → Prop
  | [] => True
  | e :: past => (∀ call, e.plannerCall = some call → d.KeepsSizes past call) ∧ Steady past

/-- The planner of the subgraph is the arena planner. -/
def Plans (e : SubgraphEnvironment) : Prop :=
  ∀ events firstNode lastNode p,
    (d.call events (d.replay events) (.executeAllocations firstNode lastNode)).planner = some p →
      e.executeAllocations events firstNode lastNode = .succeeds

end DynamicGraph

section Replay

variable {d : DynamicGraph} {past : List SubgraphEvent}

theorem GraphInfo.Resized.between {g h k : GraphInfo} (first : g.Resized h) (second : g.Resized k) : h.Resized k :=
  ⟨second.nodes.trans first.nodes.symm, second.inputs.trans first.inputs.symm, second.outputs.trans first.outputs.symm,
    second.variableTensors.trans first.variableTensors.symm, fun t => (second.kinds t).trans (first.kinds t).symm⟩

theorem DynamicGraph.replay_silent (d : DynamicGraph) (past : List SubgraphEvent) {e : SubgraphEvent}
    (silent : e.plannerCall = none) : d.replay (e :: past) = d.replay past := by
  show (match e.plannerCall with
    | some call => d.call past (d.replay past) call
    | none => d.replay past) = d.replay past
  rw [silent]

theorem DynamicGraph.Steady.of_prepares {nodes : List Nat} (steady : d.Steady (nodes.map .prepare ++ past)) : d.Steady past := by
  induction nodes with
  | nil => exact steady
  | cons j nodes ih => exact ih steady.2

/-- The planner has done all that the events say. -/
structure DynamicGraph.Follows (d : DynamicGraph) (r : PlannerRun) : Prop where
  sound : ∃ p, r.Sound d.start.tensorAlignment p
  same : d.graph.Resized r.graph

theorem DynamicGraph.Follows.call {r : PlannerRun} (h : d.Follows r) {a : PlannerCall} (past : List SubgraphEvent)
    (order : r.graph.Resized (d.sizes past) → r.InOrder d.start.tensorAlignment (d.sizes past, a)) :
    d.Follows (d.call past r a) := by
  obtain ⟨p, sound⟩ := h.sound
  refine ⟨sound.next d.perm d.sorts d.pos (order (h.same.between (d.resized past))), ?_⟩
  cases a with
  | _ => exact d.resized past

theorem DynamicGraph.Follows.unplanned {r : PlannerRun} (h : d.Follows r) (off : r.planned = false) : r.placed = 0 := by
  obtain ⟨p, sound⟩ := h.sound
  by_contra begun
  have on := (sound.committed (Nat.pos_of_ne_zero begun)).1
  rw [off] at on
  cases on

end Replay

section InStep

variable {d : DynamicGraph} {s : Subgraph} {e : SubgraphEnvironment} {i : Nat}

/-- The planner has placed the nodes before its cursor, and it has never failed. -/
structure DynamicGraph.Placing (d : DynamicGraph) (s : Subgraph) : Prop where
  follows : d.Follows (d.replay s.events)
  planned : (d.replay s.events).planned = s.hasPlanner
  placed : (d.replay s.events).placed = s.nextToPlanAllocation
  nodes : s.nodes = d.graph.nodes.length
  succeeds : ∀ firstNode lastNode, .executeAllocations firstNode lastNode false ∉ s.events

/-- Between two nodes the cursors stand together. -/
structure DynamicGraph.InStep (d : DynamicGraph) (s : Subgraph) : Prop extends d.Placing s where
  cursors : s.nextToPlanAllocation = s.nextToPrepare
  inside : s.nextToPrepare ≤ max s.nodes 1

/-- Other events leave the planner alone. -/
theorem DynamicGraph.Placing.record (h : d.Placing s) {e : SubgraphEvent} (silent : e.plannerCall = none) :
    d.Placing (s.record e) := by
  have same : d.replay (s.record e).events = d.replay s.events := d.replay_silent s.events silent
  refine ⟨?_, ?_, ?_, h.nodes, fun firstNode lastNode mem => ?_⟩
  · rw [same]
    exact h.follows
  · rw [same]
    exact h.planned
  · rw [same]
    exact h.placed
  · rcases List.mem_cons.mp mem with rfl | old
    · cases silent
    · exact h.succeeds firstNode lastNode old

theorem DynamicGraph.Placing.prepares (h : d.Placing s) (nodes : List Nat) :
    d.Placing { s with events := nodes.map .prepare ++ s.events } := by
  induction nodes with
  | nil => exact h
  | cons j nodes ih => exact ih.record rfl

theorem DynamicGraph.Placing.makePlanner (h : d.Placing s) : d.Placing s.makePlanner := by
  unfold Subgraph.makePlanner
  split
  next => exact h
  next off =>
    have none : (d.replay s.events).planned = false := h.planned.trans (by simpa using off)
    have zero := h.placed.symm.trans (h.follows.unplanned none)
    refine ⟨h.follows.call s.events fun r => ⟨r, trivial⟩, rfl, zero.symm, h.nodes, fun firstNode lastNode => ?_⟩
    exact List.not_mem_cons_of_ne_of_not_mem (by simp) (h.succeeds firstNode lastNode)

theorem DynamicGraph.Steady.of_makePlanner (steady : d.Steady s.makePlanner.events) : d.Steady s.events := by
  unfold Subgraph.makePlanner at steady
  split at steady
  next => exact steady
  next => exact steady.2

/-- The planner is the arena planner, so it succeeds. -/
theorem DynamicGraph.Placing.executeAllocations (h : d.Placing s) (plans : d.Plans e) (planner : s.hasPlanner = true)
    {last : Nat} (cursor : s.nextToPrepare = last + 1) (le : s.nextToPlanAllocation ≤ last) (inside : last + 1 ≤ max s.nodes 1)
    (steady : d.Steady (s.executeAllocations e last).1.events) :
    (s.executeAllocations e last).2 = none ∧ d.InStep (s.executeAllocations e last).1 := by
  have kept : d.KeepsSizes s.events (.executeAllocations s.nextToPlanAllocation last) := by
    unfold Subgraph.executeAllocations at steady
    dsimp only at steady
    split at steady
    all_goals exact steady.1 _ rfl
  have after : d.Follows (d.call s.events (d.replay s.events) (.executeAllocations s.nextToPlanAllocation last)) := by
    refine h.follows.call s.events fun r => ⟨r, kept.1, h.planned.trans planner, h.placed.symm, le, ?_, kept.2⟩
    rw [(d.resized s.events).nodes, ← h.nodes]
    omega
  obtain ⟨q, sound⟩ := after.sound
  have answer := plans s.events s.nextToPlanAllocation last q sound.planner
  have eq : s.executeAllocations e last =
      ({ s with hasNonPersistentMemory := true, nextToPlanAllocation := last + 1 }.record
        (.executeAllocations s.nextToPlanAllocation last true), none) := by
    simp only [Subgraph.executeAllocations, answer]
  rw [eq]
  refine ⟨rfl, ⟨after, h.planned, rfl, h.nodes, fun firstNode lastNode => ?_⟩, cursor.symm, ?_⟩
  · exact List.not_mem_cons_of_ne_of_not_mem (by simp) (h.succeeds firstNode lastNode)
  · show s.nextToPrepare ≤ max s.nodes 1
    omega

/-- An invariant of runs with steady sizes. -/
def DynamicGraph.Holds (d : DynamicGraph) (s : Subgraph) : Prop := d.Steady s.events → d.InStep s

theorem DynamicGraph.Holds.prepareOpsAndTensors (h : d.Holds s) (plans : d.Plans e)
    (first : s.nextToPrepare = 0 ∨ s.nextToPrepare < s.nodes) : d.Holds (s.prepareOpsAndTensors e).1 := by
  obtain ⟨k, short, state, result, _⟩ := s.prepareOpsStartingAt_spec e (s.nodes - s.nextToPrepare) s.nextToPrepare 0
  unfold Subgraph.prepareOpsAndTensors
  split
  next failed reason eq =>
    rw [eq] at state
    dsimp only at state
    subst state
    intro steady
    have before := h (DynamicGraph.Steady.of_prepares steady)
    exact ⟨before.prepares _, before.cursors, before.inside⟩
  next prepared last eq =>
    rw [eq] at state result
    dsimp only at state
    subst state
    intro steady
    set mid : Subgraph := { s with
      nextToPrepare := last + 1
      events := (List.range' s.nextToPrepare k).reverse.map .prepare ++ s.events } with hmid
    have past : d.Steady mid.makePlanner.events := by
      unfold Subgraph.executeAllocations at steady
      dsimp only at steady
      split at steady
      all_goals exact steady.2
    have before := h (DynamicGraph.Steady.of_prepares (DynamicGraph.Steady.of_makePlanner past))
    have placing : d.Placing mid := by
      have prepared := before.prepares (List.range' s.nextToPrepare k).reverse
      exact ⟨prepared.follows, prepared.planned, prepared.placed, prepared.nodes, prepared.succeeds⟩
    obtain ⟨planner, nodes, cursor⟩ := mid.makePlanner_frame
    have at' : mid.makePlanner.nextToPlanAllocation = s.nextToPrepare := by
      unfold Subgraph.makePlanner
      split <;> exact before.cursors
    have bounds := result last rfl
    have same : mid.makePlanner.nodes = s.nodes := nodes
    exact (placing.makePlanner.executeAllocations plans planner cursor (by omega) (by omega) steady).2

theorem DynamicGraph.Holds.restart (h : d.Holds s) : d.Holds s.restart := by
  unfold Subgraph.restart
  dsimp only
  split
  next on =>
    intro steady
    have before := h steady.2.2
    have restarted := before.record (e := .restart) rfl
    refine ⟨⟨before.follows.call _ fun r => ⟨r, trivial⟩, before.planned, rfl, before.nodes, fun firstNode lastNode => ?_⟩,
      rfl, Nat.zero_le _⟩
    exact List.not_mem_cons_of_ne_of_not_mem (by simp) (restarted.succeeds firstNode lastNode)
  next off =>
    intro steady
    have before := h steady.2
    have none : (d.replay s.events).planned = false := before.planned.trans (by simpa [Subgraph.record] using off)
    have idle : d.Placing { s with nextToPrepare := 0, nextToPlanAllocation := 0 } :=
      ⟨before.follows, before.planned, before.follows.unplanned none, before.nodes, before.succeeds⟩
    exact ⟨idle.record rfl, rfl, Nat.zero_le _⟩

theorem DynamicGraph.Holds.flags (h : d.Holds s) (invokable memory : Bool) :
    d.Holds { s with invokable := invokable, hasNonPersistentMemory := memory } := by
  intro steady
  have before := h steady
  exact ⟨⟨before.follows, before.planned, before.placed, before.nodes, before.succeeds⟩, before.cursors, before.inside⟩

theorem DynamicGraph.Holds.allocateTensors (h : d.Holds s) (plans : d.Plans e) : d.Holds (s.allocateTensors e).1 := by
  unfold Subgraph.allocateTensors
  split
  next =>
    dsimp only
    split
    next => exact h.flags s.invokable true
    next => exact h
  next =>
    have prepared := h.restart.prepareOpsAndTensors plans (Or.inl s.restart_cursor)
    split
    next done eq =>
      rw [eq] at prepared
      exact prepared.flags true done.hasNonPersistentMemory
    next => exact prepared

theorem DynamicGraph.Holds.prepareNode (h : d.Holds s) (plans : d.Plans e) (inside : i < s.nodes) :
    d.Holds (s.prepareNode e i).1 := by
  unfold Subgraph.prepareNode
  split
  next here =>
    have prepared := h.prepareOpsAndTensors plans (Or.inr (here ▸ inside))
    split
    next done eq =>
      rw [eq] at prepared
      exact prepared
    next => exact prepared
  next => exact h

/-- Only a planner that has placed later nodes goes back. -/
theorem DynamicGraph.Holds.resized (h : d.Holds s) (cursor : i < s.nextToPrepare) : d.Holds (s.resized i) := by
  unfold Subgraph.resized
  dsimp only
  split
  next ahead =>
    have beyond : i + 1 < s.nextToPlanAllocation := ahead
    split
    next on =>
      intro steady
      have before := h steady.2.2
      have inside := before.inside
      have kept : d.KeepsSizes (.resize i :: s.events) (.resetAllocationsAfter i) := steady.1 _ rfl
      have behind : i < (d.replay s.events).placed := by
        rw [before.placed]
        omega
      refine ⟨⟨before.follows.call (.resize i :: s.events) fun r => ⟨r, kept, behind⟩, before.planned, rfl, before.nodes,
        fun firstNode lastNode => ?_⟩, rfl, ?_⟩
      · exact List.not_mem_cons_of_ne_of_not_mem (by simp) ((before.record (e := .resize i) rfl).succeeds firstNode lastNode)
      · show i + 1 ≤ max s.nodes 1
        omega
    next off =>
      intro steady
      have before := h steady.2
      have none : (d.replay s.events).planned = false := before.planned.trans (by simpa [Subgraph.record] using off)
      have zero := before.placed.symm.trans (before.follows.unplanned none)
      omega
  next behind =>
    intro steady
    have before := h steady.2
    have cursors := before.cursors
    have inside := before.inside
    have le : s.nextToPlanAllocation ≤ i + 1 := Nat.le_of_not_lt behind
    have again : d.Placing { s with nextToPrepare := i + 1 } :=
      ⟨before.follows, before.planned, before.placed, before.nodes, before.succeeds⟩
    refine ⟨again.record rfl, ?_, ?_⟩
    · show s.nextToPlanAllocation = i + 1
      omega
    · show i + 1 ≤ max s.nodes 1
      omega

theorem DynamicGraph.Holds.invoked (h : d.Holds s) (i : Nat) : d.Holds (s.record (.invoke i)) := by
  intro steady
  have before := h steady.2
  exact ⟨before.record rfl, before.cursors, before.inside⟩

theorem DynamicGraph.Holds.invokeNode (h : d.Holds s) (cursor : i < s.nextToPrepare) (e : SubgraphEnvironment) :
    d.Holds (s.invokeNode e i).1 := by
  have ran := h.invoked i
  unfold Subgraph.invokeNode
  split
  next => exact h
  next =>
    split
    next => exact h
    next =>
      dsimp only
      split
      next => exact ran
      next =>
        split
        next => exact ran.resized cursor
        next => exact ran

/-- The cursor is past every node that has run. -/
theorem DynamicGraph.Holds.invokeNodes {todo : Nat} (h : d.Holds s) (scheduled : s.Scheduled) (plans : d.Plans e)
    (total : i + todo = s.nodes) (cursor : i ≤ s.nextToPrepare) : d.Holds (s.invokeNodes e todo i).1 ∧
      ((s.invokeNodes e todo i).2 = none → (s.invokeNodes e todo i).1.nodes ≤ (s.invokeNodes e todo i).1.nextToPrepare) := by
  induction todo generalizing i s with
  | zero => exact ⟨h, fun _ => total ▸ cursor⟩
  | succ todo ih =>
    have prepared := h.prepareNode plans (i := i) (by omega)
    obtain ⟨ready, nodes, ahead, _⟩ := scheduled.prepareNode (by omega) cursor e
    unfold Subgraph.invokeNodes
    split
    next failed failure eq =>
      rw [eq] at prepared
      exact ⟨prepared, nofun⟩
    next here eq =>
      rw [eq] at prepared ready nodes ahead
      dsimp only at prepared ready nodes
      have past := ahead rfl
      have ran := prepared.invokeNode past e
      obtain ⟨invoked, same, beyond, _⟩ := ready.invokeNode (by omega) past e
      split
      next failed failure eq =>
        rw [eq] at ran
        exact ⟨ran, nofun⟩
      next next eq =>
        rw [eq] at ran invoked same beyond
        dsimp only at ran same beyond
        exact ih ran invoked (by omega) beyond

theorem DynamicGraph.Holds.invoke (h : d.Holds s) (scheduled : s.Scheduled) (plans : d.Plans e) :
    d.Holds (s.invoke e).1 ∧ ((s.invoke e).2 = none → (s.invoke e).1.nodes ≤ (s.invoke e).1.nextToPrepare) := by
  unfold Subgraph.invoke
  split
  next => exact ⟨h, nofun⟩
  next =>
    split
    next => exact ⟨h, nofun⟩
    next => exact h.invokeNodes scheduled plans (Nat.zero_add s.nodes) (Nat.zero_le _)

theorem DynamicGraph.Holds.next (h : d.Holds s) (scheduled : s.Scheduled) {a : SubgraphEnvironment × SubgraphCall}
    (plans : d.Plans a.1) (kept : a.2 ≠ .releaseNonPersistentMemory) : d.Holds (s.next a) := by
  obtain ⟨e, call⟩ := a
  cases call with
  | allocateTensors => exact h.allocateTensors plans
  | invoke => exact (h.invoke scheduled plans).1
  | resizeInputTensor changes =>
    cases changes with
    | true => exact h.flags false s.hasNonPersistentMemory
    | false => exact h
  | releaseNonPersistentMemory => exact absurd rfl kept

theorem DynamicGraph.Holds.run (h : d.Holds s) (scheduled : s.Scheduled) {calls : List (SubgraphEnvironment × SubgraphCall)}
    (plans : ∀ a ∈ calls, d.Plans a.1 ∧ a.2 ≠ .releaseNonPersistentMemory) :
    (Runs.run Subgraph.next s calls).Scheduled ∧ d.Holds (Runs.run Subgraph.next s calls) := by
  induction calls generalizing s with
  | nil => exact ⟨scheduled, h⟩
  | cons a calls ih =>
    obtain ⟨plan, kept⟩ := plans a List.mem_cons_self
    exact ih (h.next scheduled plan kept) (scheduled.next s a) fun b mem => plans b (List.mem_cons_of_mem a mem)

theorem DynamicGraph.holds_new (d : DynamicGraph) : d.Holds (Subgraph.new d.graph.nodes.length) := by
  intro _
  have sound : (d.replay []).Sound d.start.tensorAlignment d.start :=
    ⟨d.wf, rfl, ⟨rfl, d.aligned.1, d.aligned.2⟩, fun on => (by cases on), fun begun => absurd begun (Nat.not_lt_zero 0),
      Nat.two_pow_pos 64⟩
  exact ⟨⟨⟨⟨d.start, sound⟩, ⟨rfl, rfl, rfl, rfl, fun _ => rfl⟩⟩, rfl, rfl, rfl, fun _ _ => List.not_mem_nil⟩, rfl, Nat.zero_le _⟩

theorem placementFailed_of_succeeds {events : List SubgraphEvent}
    (succeeds : ∀ firstNode lastNode, .executeAllocations firstNode lastNode false ∉ events) :
    placementFailed events = false := by
  induction events with
  | nil => rfl
  | cons e events ih =>
    have past := ih fun firstNode lastNode mem => succeeds firstNode lastNode (List.mem_cons_of_mem e mem)
    cases e with
    | restart => rfl
    | executeAllocations firstNode lastNode ok =>
      cases ok with
      | true => rfl
      | false => exact absurd List.mem_cons_self (succeeds firstNode lastNode)
    | _ => exact past

end InStep

/-- Any calls of `AllocateTensors`, `ResizeInputTensor` and `Invoke`, with kernels that fail, that leave their outputs
unknown until they have run, or that resize them: the planner never fails, no node runs before its tensors have
places, and once an `Invoke` has come to its end the arenas serve every session of the graph with the sizes it has then,
if its in-place operators are safe. -/
theorem dynamic_sessions (d : DynamicGraph) (nonempty : 0 < d.graph.nodes.length)
    (calls : List (SubgraphEnvironment × SubgraphCall))
    (plans : ∀ a ∈ calls, d.Plans a.1 ∧ a.2 ≠ .releaseNonPersistentMemory) (e : SubgraphEnvironment) (plan : d.Plans e) :
    let x := (Runs.run Subgraph.next (Subgraph.new d.graph.nodes.length) calls).invoke e
    let r := d.replay x.1.events
    d.Steady x.1.events →
      (∀ i past, .invoke i :: past <:+ x.1.events → nodePlaced i past = true) ∧
      ∃ p, r.planner = some p ∧
        (x.2 = none → r.graph.KeepsPlaced (d.sizes x.1.events) r.placed r.reached → d.graph.InPlaceSafe →
          p.Computes (d.sizes x.1.events)) := by
  intro x r steady
  obtain ⟨scheduled, holds⟩ := d.holds_new.run (Subgraph.scheduled_new _) plans
  obtain ⟨after, covers⟩ := holds.invoke scheduled plan
  have inStep := after steady
  obtain ⟨p, sound⟩ := inStep.follows.sound
  refine ⟨fun i past suffix => ?_, p, sound.planner, fun done keeps safe => ?_⟩
  · have working : placementFailed past = false := placementFailed_of_succeeds fun firstNode lastNode mem =>
      inStep.succeeds firstNode lastNode (suffix.subset (List.mem_cons_of_mem _ mem))
    rcases (scheduled.invoke e).1.invoked.of_suffix suffix with ⟨_, placed | failed⟩
    · exact placed
    · rw [working] at failed
      cases failed
  · have resized := inStep.follows.same.between (d.resized x.1.events)
    have reached : d.graph.nodes.length ≤ r.placed :=
      calc d.graph.nodes.length = x.1.nodes := inStep.nodes.symm
        _ ≤ x.1.nextToPrepare := covers done
        _ = r.placed := inStep.cursors.symm.trans inStep.placed.symm
    obtain ⟨on, committed⟩ := sound.committed (Nat.lt_of_lt_of_le nonempty reached)
    obtain ⟨plan, planned, shares, ready⟩ := sound.ready on
    have wf := resized.wellFormed sound.wf
    have nodes : (d.sizes x.1.events).nodes.length = d.graph.nodes.length := congrArg List.length (d.resized x.1.events).nodes
    have placed := (ready.resize sound.wf shares resized keeps).placed wf ((d.resized _).safe safe) (resized.planned planned)
      (resized.nodes.symm ▸ resized.shares shares) sound.fits committed
      ⟨Nat.lt_of_lt_of_le nonempty reached, Nat.le_trans (Nat.le_of_eq nodes) reached⟩
    exact placed.computes

/-- A node that finds out how much there is to filter, and one whose output depends on it. -/
def filterNodes (found kept : Nat) : GraphInfo where
  tensors := [⟨16, .arenaRw⟩, ⟨found, .dynamic⟩, ⟨kept, .arenaRw⟩]
  nodes := [⟨[some 0], [some 1], [], 0⟩, ⟨[some 1], [some 2], [], 0⟩]
  inputs := [some 0]
  outputs := [some 2]
  variableTensors := []

section FilterNodes

open DynamicGraph

theorem filterNodes_node {i : Nat} {node : TfLiteNode} (hn : (filterNodes 16 16).nodes[i]? = some node) :
    (i = 0 ∧ node = ⟨[some 0], [some 1], [], 0⟩) ∨ (i = 1 ∧ node = ⟨[some 1], [some 2], [], 0⟩) := by
  match i, hn with
  | 0, hn => exact Or.inl ⟨rfl, (Option.some.inj hn).symm⟩
  | 1, hn => exact Or.inr ⟨rfl, (Option.some.inj hn).symm⟩
  | _ + 2, hn => simp [filterNodes] at hn

theorem filterNodes_produces {i t : Nat} (h : (filterNodes 16 16).Produces i t) : i < 2 ∧ t = i + 1 := by
  obtain ⟨node, hn, mem⟩ := h
  rcases filterNodes_node hn with ⟨rfl, rfl⟩ | ⟨rfl, rfl⟩ <;> simpa using mem

theorem filterNodes_reads {i t : Nat} (h : (filterNodes 16 16).Reads i t) : i < 2 ∧ t = i := by
  obtain ⟨node, hn, mem⟩ := h
  rcases filterNodes_node hn with ⟨rfl, rfl⟩ | ⟨rfl, rfl⟩ <;> simpa using mem

theorem filterNodes_temporary {i t : Nat} : ¬ (filterNodes 16 16).Temporary i t := by
  rintro ⟨node, hn, mem⟩
  rcases filterNodes_node hn with ⟨rfl, rfl⟩ | ⟨rfl, rfl⟩ <;> cases mem

theorem filterNodes_source {t : Nat} : (filterNodes 16 16).Source t ↔ t = 0 := by
  simp [GraphInfo.Source, filterNodes]

theorem filterNodes_inplace {node : TfLiteNode} (mem : node ∈ (filterNodes 16 16).nodes) : node.inplaceOperator = 0 := by
  obtain ⟨i, hn⟩ := List.getElem?_of_mem mem
  rcases filterNodes_node hn with ⟨_, rfl⟩ | ⟨_, rfl⟩ <;> rfl

theorem filterNodes_wellFormed : (filterNodes 16 16).WellFormed := by
  refine ⟨by decide, fun i j t hi hj => ?_, by decide, by decide, fun i t h source => ?_, fun i j t hi hj => ?_,
    fun t used inside => ?_, fun i t h => absurd h filterNodes_temporary, fun i j t h => absurd h filterNodes_temporary⟩
  · have first := filterNodes_produces hi
    have second := filterNodes_produces hj
    omega
  · have written := filterNodes_produces h
    have zero := filterNodes_source.mp source
    omega
  · have reads := filterNodes_reads hi
    have written := filterNodes_produces hj
    omega
  · rcases used with ⟨i, reads⟩ | output
    · obtain ⟨bound, rfl⟩ := filterNodes_reads reads
      match t, bound with
      | 0, _ => exact Or.inl (filterNodes_source.mpr rfl)
      | 1, _ => exact Or.inr ⟨0, _, rfl, List.mem_singleton_self _⟩
    · obtain rfl : t = 2 := by simpa [filterNodes] using output
      exact Or.inr ⟨1, _, rfl, List.mem_singleton_self _⟩

theorem filterNodes_safe : (filterNodes 16 16).InPlaceSafe := by
  constructor
  · exact fun node mem flag => absurd (filterNodes_inplace mem) flag
  · intro i x o node k place
    exact absurd (filterNodes_inplace (List.mem_of_getElem? place.position)) place.flag

theorem filterNodes_resized (found kept : Nat) : (filterNodes 16 16).Resized (filterNodes found kept) := by
  refine ⟨rfl, rfl, rfl, rfl, fun t => ?_⟩
  match t with
  | 0 => rfl
  | 1 => rfl
  | 2 => rfl
  | _ + 3 => rfl

/-- Dynamic tensors are not in the arena. -/
theorem filterNodes_keepsPlaced (found more kept placed reached : Nat) :
    (filterNodes found kept).KeepsPlaced (filterNodes more kept) placed reached := by
  intro t inside _
  match t with
  | 0 => rfl
  | 1 => rcases inside with kind | kind <;> cases kind
  | 2 => rfl
  | _ + 3 => rfl

/-- The output of the second node has no place yet. -/
theorem filterNodes_grows (found kept longer : Nat) :
    (filterNodes found kept).KeepsPlaced (filterNodes found longer) 1 2 := by
  intro t _ early
  match t with
  | 0 => rfl
  | 1 => rfl
  | 2 =>
    rcases early with ⟨i, before, queued⟩ | ⟨kind, _⟩
    · rcases queued with ⟨_, source⟩ | produces | temp
      · have zero := filterNodes_source.mp source
        omega
      · have written := filterNodes_produces produces
        omega
      · exact absurd temp filterNodes_temporary
    · cases kind
  | _ + 3 => rfl

/-- The first node finds more when it runs again, and the output of the second one follows when that is prepared again. -/
def growingNodes : DynamicGraph where
  graph := filterNodes 16 16
  sizes past := filterNodes (if past.count (.resize 0) < 2 then 16 else 32) (if .resetAllocationsAfter 0 ∈ past then 32 else 16)
  start := ArenaPlanner.new false 64
  sort lt l := l.mergeSort lt
  sortAllocs := sortByOffset
  wf := filterNodes_wellFormed
  resized _ := filterNodes_resized _ _
  pos := by decide
  aligned := by decide
  perm lt l := List.mergeSort_perm l lt
  sorts := sortByOffset_sorts

/-- The first node resizes its output each time it runs. -/
def firstResizes : SubgraphEnvironment where
  dynamicInputs _ := false
  prepare _ _ := .ok
  dynamicOutputs _ i := i = 0
  executeAllocations _ _ _ := .succeeds
  lacksData _ _ := false
  cancels _ _ := none
  invoke _ _ := .ok
  resized _ _ := true

variable {d : DynamicGraph} {past : List SubgraphEvent} {e : SubgraphEvent}

theorem DynamicGraph.steady_skip (silent : e.plannerCall = none) (steady : d.Steady past) : d.Steady (e :: past) := by
  refine ⟨fun call eq => ?_, steady⟩
  rw [silent] at eq
  cases eq

theorem DynamicGraph.steady_call {call : PlannerCall} (calls : e.plannerCall = some call) (kept : d.KeepsSizes past call)
    (steady : d.Steady past) : d.Steady (e :: past) := by
  refine ⟨fun other eq => ?_, steady⟩
  obtain rfl := Option.some.inj (calls.symm.trans eq)
  exact kept

/-- The nodes are placed one after the other, and the second one once more after the second `resize`. -/
theorem growingNodes_steady :
    growingNodes.Steady ((Runs.run Subgraph.next (Subgraph.new 2)
      [(firstResizes, .allocateTensors), (firstResizes, .invoke)]).invoke firstResizes).1.events := by
  refine steady_skip rfl (steady_call rfl ⟨filterNodes_grows 32 16 32, by decide⟩ (steady_skip rfl ?_))
  refine steady_call rfl (filterNodes_keepsPlaced 16 32 16 2 0) (steady_skip rfl (steady_skip rfl (steady_skip rfl ?_)))
  refine steady_call rfl ⟨filterNodes_keepsPlaced 16 16 16 1 0, by decide⟩ (steady_skip rfl (steady_skip rfl (steady_skip rfl ?_)))
  refine steady_call rfl ⟨filterNodes_keepsPlaced 16 16 16 0 0, by decide⟩ (steady_call rfl trivial ?_)
  exact steady_skip rfl (steady_skip rfl trivial)

end FilterNodes

/-- The second `Invoke` places the last node again. -/
theorem growing_nodes_sessions :
    let x := (Runs.run Subgraph.next (Subgraph.new 2) [(firstResizes, .allocateTensors), (firstResizes, .invoke)]).invoke
      firstResizes
    x.2 = none ∧ ∃ p, (growingNodes.replay x.1.events).planner = some p ∧ p.Computes (filterNodes 32 32) := by
  intro x
  have plans : growingNodes.Plans firstResizes := fun _ _ _ _ _ => rfl
  have done : x.2 = none := by decide
  obtain ⟨_, p, planner, computes⟩ := dynamic_sessions growingNodes (by decide)
    [(firstResizes, .allocateTensors), (firstResizes, .invoke)] (by simp [plans]) firstResizes plans growingNodes_steady
  exact ⟨done, p, planner, computes done (fun _ _ _ => rfl) filterNodes_safe⟩

end AuroraVoice
