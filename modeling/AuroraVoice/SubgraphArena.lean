import AuroraVoice.ArenaSessions
import AuroraVoice.Subgraph

namespace AuroraVoice

open Storage

/-- The arena planner after the events of a subgraph in which no tensor is resized. -/
def ArenaPlanner.replay (sort : (Nat → Nat → Bool) → List Nat → List Nat) (g : GraphInfo) (start : ArenaPlanner) :
    List SubgraphEvent → Option ArenaPlanner
  | [] => some start
  | .planAllocations :: past => do (← replay sort g start past).planAllocations g
  | .resetAllocations :: past => (replay sort g start past).map ArenaPlanner.resetAllocations
  | .executeAllocations first last _ :: past => do (← replay sort g start past).executeAllocations sort g first last
  | .resetAllocationsAfter _ :: _ => none
  | _ :: past => replay sort g start past

/-- The graph keeps its sizes: inputs are not dynamic, no node resizes its outputs, and the planner is the arena planner. -/
structure SubgraphEnvironment.Keeps (sort : (Nat → Nat → Bool) → List Nat → List Nat) (g : GraphInfo)
    (start : ArenaPlanner) (e : SubgraphEnvironment) : Prop where
  inputs : ∀ events, e.dynamicInputs events = false
  resized : ∀ events i, e.resized events i = false
  planner : ∀ events first last p q, ArenaPlanner.replay sort g start events = some p →
    p.executeAllocations sort g first last = some q → e.executeAllocations events first last = .succeeds

section Planning

variable {g : GraphInfo} {sort : (Nat → Nat → Bool) → List Nat → List Nat} {start planner p : ArenaPlanner} {m : Nat}

/-- The planner once the nodes before `m` are placed. -/
structure Planning (g : GraphInfo) (start planner : ArenaPlanner) (m : Nat) (p : ArenaPlanner) : Prop where
  plan : start.planAllocations g = some planner
  planned : Planned g planner
  shares : Shares g g.nodes.length planner.actualTensorId
  ready : BatchReady g planner m 0 (g.weight start.tensorAlignment m) p
  committed : 0 < m → Committed p
  alignment : p.tensorAlignment = start.tensorAlignment

theorem Planning.begin (wf : g.WellFormed) (pos : 0 < start.tensorAlignment)
    (aligned : start.tensorAlignment ≤ start.arena.bufferAlignment ∧
      start.tensorAlignment ≤ start.persistentArena.bufferAlignment) :
    ∃ planner, Planning g start planner 0 planner := by
  obtain ⟨planner, plan, planned, fresh⟩ := planAllocations_spec start g wf.small
  obtain ⟨counted, refs, shared⟩ := fresh.shared
  have shares : Shares g g.nodes.length planner.actualTensorId := shared ▸ identifyInPlaceTensors_shares wf refs
  exact ⟨planner, plan, planned, shares, fresh.ready planned pos aligned _, nofun, fresh.tensorAlignment⟩

variable (wf : g.WellFormed) (fits : g.weight start.tensorAlignment (max g.nodes.length 1) < 2 ^ 64)
include wf fits

theorem Planning.execute (perm : ∀ lt l, (sort lt l).Perm l) (h : Planning g start planner m p) {last : Nat}
    (le : m ≤ last) (inside : last + 1 ≤ max g.nodes.length 1) :
    ∃ q, p.executeAllocations sort g m last = some q ∧ Planning g start planner (last + 1) q := by
  have weight := weight_mono g start.tensorAlignment inside
  have total := weight_batch g start.tensorAlignment le
  obtain ⟨q, eq, ready, committed, alignment⟩ := h.ready.execute perm wf h.planned le (by rw [h.alignment]; omega)
  rw [h.alignment, ← total] at ready
  exact ⟨q, eq, h.plan, h.planned, h.shares, ready, fun _ => committed, alignment.trans h.alignment⟩

theorem Planning.placed (h : Planning g start planner (max g.nodes.length 1) p) (safe : g.InPlaceSafe) :
    Placed g planner p (max g.nodes.length 1) :=
  h.ready.placed wf safe h.planned h.shares fits (h.committed (by omega)) (by omega)

end Planning

section Follow

variable {g : GraphInfo} {sort : (Nat → Nat → Bool) → List Nat → List Nat} {start : ArenaPlanner} {s : Subgraph}
  {e : SubgraphEnvironment} {i : Nat}

theorem replay_prepares (nodes : List Nat) (past : List SubgraphEvent) :
    ArenaPlanner.replay sort g start (nodes.map .prepare ++ past) = ArenaPlanner.replay sort g start past := by
  induction nodes with
  | nil => rfl
  | cons j nodes ih => exact ih

/-- There is no planner yet, or it has placed the nodes before the cursor. -/
def Subgraph.PlannerAt (sort : (Nat → Nat → Bool) → List Nat → List Nat) (g : GraphInfo) (start : ArenaPlanner)
    (s : Subgraph) : Prop :=
  s.hasPlanner = false ∧ s.nextToPrepare = 0 ∧ ArenaPlanner.replay sort g start s.events = some start ∨
    s.hasPlanner = true ∧ ∃ planner p, ArenaPlanner.replay sort g start s.events = some p ∧
      Planning g start planner s.nextToPrepare p

/-- The cursors of a subgraph whose planner has not failed. -/
structure Subgraph.Together (g : GraphInfo) (s : Subgraph) : Prop where
  nodes : s.nodes = g.nodes.length
  cursors : s.nextToPlanAllocation = s.nextToPrepare
  inside : s.nextToPrepare ≤ max g.nodes.length 1

variable (wf : g.WellFormed) (fits : g.weight start.tensorAlignment (max g.nodes.length 1) < 2 ^ 64)
  (perm : ∀ lt l, (sort lt l).Perm l) (pos : 0 < start.tensorAlignment)
  (aligned : start.tensorAlignment ≤ start.arena.bufferAlignment ∧
    start.tensorAlignment ≤ start.persistentArena.bufferAlignment)
include wf fits perm pos aligned

/-- The planner is made if there is none, and then places the nodes that were prepared. -/
theorem Subgraph.PlannerAt.executeAllocations (h : s.PlannerAt sort g start) (keeps : e.Keeps sort g start)
    {k last : Nat} (le : s.nextToPrepare ≤ last) (inside : last + 1 ≤ max g.nodes.length 1)
    (cursors : s.nextToPlanAllocation = s.nextToPrepare) :
    let mid : Subgraph := { s with
      nextToPrepare := last + 1
      events := (List.range' s.nextToPrepare k).reverse.map .prepare ++ s.events }
    let x := mid.makePlanner.executeAllocations e last
    x.2 = none ∧ x.1.nodes = s.nodes ∧ x.1.invokable = s.invokable ∧ x.1.nextToPrepare = last + 1 ∧
      x.1.nextToPlanAllocation = last + 1 ∧ x.1.hasPlanner = true ∧ x.1.PlannerAt sort g start := by
  intro mid x
  have events : ArenaPlanner.replay sort g start mid.events = ArenaPlanner.replay sort g start s.events :=
    replay_prepares _ _
  obtain ⟨planner, p, replay, planning⟩ : ∃ planner p,
      ArenaPlanner.replay sort g start mid.makePlanner.events = some p ∧ Planning g start planner s.nextToPrepare p := by
    unfold Subgraph.makePlanner
    rcases h with ⟨none, zero, fresh⟩ | ⟨some, planner, p, replay, planning⟩
    · obtain ⟨planner, planning⟩ := Planning.begin wf pos aligned
      rw [if_neg (by simp [mid, none]), zero]
      refine ⟨planner, planner, ?_, planning⟩
      show (ArenaPlanner.replay sort g start mid.events).bind (ArenaPlanner.planAllocations · g) = _
      rw [events, fresh]
      exact planning.plan
    · rw [if_pos (show mid.hasPlanner = true from some), events]
      exact ⟨planner, p, replay, planning⟩
  obtain ⟨hasPlanner, nodes, reached⟩ := mid.makePlanner_frame
  have first : mid.makePlanner.nextToPlanAllocation = s.nextToPrepare := by
    unfold Subgraph.makePlanner
    split <;> exact cursors
  obtain ⟨q, executes, placed⟩ := planning.execute wf fits perm le inside
  have answer := keeps.planner _ s.nextToPrepare last p q replay executes
  have eq : x = ({ mid.makePlanner with hasNonPersistentMemory := true, nextToPlanAllocation := last + 1 }.record
      (.executeAllocations s.nextToPrepare last true), none) := by
    simp only [x, Subgraph.executeAllocations, first, answer]
  rw [eq]
  have invokable : mid.makePlanner.invokable = s.invokable := by
    unfold Subgraph.makePlanner
    split <;> rfl
  refine ⟨rfl, nodes, invokable, reached, rfl, hasPlanner, Or.inr ⟨hasPlanner, planner, q, ?_, ?_⟩⟩
  · show (ArenaPlanner.replay sort g start mid.makePlanner.events).bind
      (ArenaPlanner.executeAllocations sort · g s.nextToPrepare last) = _
    rw [replay]
    exact executes
  · show Planning g start planner mid.makePlanner.nextToPrepare q
    rw [reached]
    exact placed

/-- `PrepareOpsAndTensors` fails only in a kernel, and then has placed nothing. -/
theorem Subgraph.PlannerAt.prepareOpsAndTensors (h : s.PlannerAt sort g start) (together : s.Together g)
    (first : s.nextToPrepare = 0 ∨ s.nextToPrepare < s.nodes) (keeps : e.Keeps sort g start) :
    (s.prepareOpsAndTensors e).1.PlannerAt sort g start ∧ (s.prepareOpsAndTensors e).1.Together g ∧
      (s.prepareOpsAndTensors e).1.invokable = s.invokable ∧
      ((s.prepareOpsAndTensors e).2 = none → (s.prepareOpsAndTensors e).1.hasPlanner = true ∧
        s.nextToPrepare < (s.prepareOpsAndTensors e).1.nextToPrepare) ∧
      ((s.prepareOpsAndTensors e).2 ≠ none → (s.prepareOpsAndTensors e).1.hasPlanner = s.hasPlanner ∧
        (s.prepareOpsAndTensors e).1.nextToPrepare = s.nextToPrepare) := by
  obtain ⟨k, short, state, result, _⟩ := s.prepareOpsStartingAt_spec e (s.nodes - s.nextToPrepare) s.nextToPrepare 0
  have nodes := together.nodes
  unfold Subgraph.prepareOpsAndTensors
  split
  next failed reason eq =>
    rw [eq] at state
    dsimp only at state
    subst state
    refine ⟨?_, ⟨nodes, together.cursors, together.inside⟩, rfl, nofun, fun _ => ⟨rfl, rfl⟩⟩
    unfold Subgraph.PlannerAt
    rw [replay_prepares]
    exact h
  next prepared last eq =>
    rw [eq] at state result
    dsimp only at state
    subst state
    have bounds : s.nextToPrepare ≤ last ∧ last + 1 ≤ max g.nodes.length 1 := by
      have last := result last rfl
      omega
    obtain ⟨none, same, invokable, prepared, placed, planner, at'⟩ :=
      h.executeAllocations (k := k) wf fits perm pos aligned keeps bounds.1 bounds.2 together.cursors
    refine ⟨at', ⟨same.trans nodes, placed.trans prepared.symm, Nat.le_trans (Nat.le_of_eq prepared) bounds.2⟩, invokable, fun _ => ⟨planner, ?_⟩,
      fun failed => absurd none failed⟩
    rw [prepared]
    exact Nat.lt_succ_of_le bounds.1

end Follow

section Calls

variable {g : GraphInfo} {sort : (Nat → Nat → Bool) → List Nat → List Nat} {start : ArenaPlanner} {s : Subgraph}
  {e : SubgraphEnvironment} {i : Nat}

/-- Between two calls, and between two nodes: the planner is made by the first `AllocateTensors` that succeeds. -/
structure Subgraph.Follows (sort : (Nat → Nat → Bool) → List Nat → List Nat) (g : GraphInfo) (start : ArenaPlanner)
    (s : Subgraph) : Prop where
  planner : s.PlannerAt sort g start
  together : s.Together g
  made : s.hasPlanner = s.invokable
  begun : s.invokable = true → 0 < s.nextToPrepare

theorem Subgraph.Follows.record (h : s.Follows sort g start) (i : Nat) : (s.record (.invoke i)).Follows sort g start :=
  ⟨h.planner, ⟨h.together.nodes, h.together.cursors, h.together.inside⟩, h.made, h.begun⟩

/-- Nothing is resized, so a node leaves the cursors alone. -/
theorem Subgraph.invokeNode_keeps (keeps : e.Keeps sort g start) (i : Nat) (s : Subgraph) :
    (s.invokeNode e i).1 = s ∨ (s.invokeNode e i).1 = s.record (.invoke i) := by
  unfold Subgraph.invokeNode
  split
  next => exact Or.inl rfl
  next =>
    split
    next => exact Or.inl rfl
    next =>
      dsimp only
      split
      next => exact Or.inr rfl
      next =>
        rw [if_neg (by simp [keeps.resized])]
        exact Or.inr rfl

variable (wf : g.WellFormed) (fits : g.weight start.tensorAlignment (max g.nodes.length 1) < 2 ^ 64)
  (perm : ∀ lt l, (sort lt l).Perm l) (pos : 0 < start.tensorAlignment)
  (aligned : start.tensorAlignment ≤ start.arena.bufferAlignment ∧
    start.tensorAlignment ≤ start.persistentArena.bufferAlignment)
include wf fits perm pos aligned

theorem Subgraph.Follows.allocateTensors (h : s.Follows sort g start) (keeps : e.Keeps sort g start) :
    (s.allocateTensors e).1.Follows sort g start := by
  unfold Subgraph.allocateTensors
  split
  next =>
    dsimp only
    split
    next => exact ⟨h.planner, ⟨h.together.nodes, h.together.cursors, h.together.inside⟩, h.made, h.begun⟩
    next => exact h
  next again =>
    -- an `AllocateTensors` that failed before has made no planner
    have off : s.invokable = false := by
      simpa [keeps.inputs] using again
    have none : s.hasPlanner = false := h.made.trans off
    have fresh : ArenaPlanner.replay sort g start s.events = some start := by
      rcases h.planner with ⟨_, _, fresh⟩ | ⟨made, _⟩
      · exact fresh
      · rw [none] at made
        cases made
    set restarted : Subgraph := { s with nextToPrepare := 0, nextToPlanAllocation := 0 }.record .restart with hr
    have restart : s.restart = restarted := if_neg (by simp [Subgraph.record, none])
    rw [restart]
    obtain ⟨planner, together, invokable, success, failure⟩ :=
      Subgraph.PlannerAt.prepareOpsAndTensors (s := restarted) wf fits perm pos aligned (Or.inl ⟨none, rfl, fresh⟩)
        ⟨h.together.nodes, rfl, Nat.zero_le _⟩ (Or.inl rfl) keeps
    split
    next done eq =>
      rw [eq] at planner together success
      obtain ⟨made, ahead⟩ := success rfl
      exact ⟨planner, ⟨together.nodes, together.cursors, together.inside⟩, made,
        fun _ => Nat.lt_of_le_of_lt (Nat.zero_le _) ahead⟩
    next _ unlike =>
      have still : (restarted.prepareOpsAndTensors e).1.hasPlanner = false := by
        obtain ⟨same, _⟩ := failure fun eq => unlike _ (Prod.ext rfl eq)
        exact same.trans none
      have stopped : (restarted.prepareOpsAndTensors e).1.invokable = false := invokable.trans off
      refine ⟨planner, together, still.trans stopped.symm, fun on => ?_⟩
      rw [stopped] at on
      cases on

theorem Subgraph.Follows.prepareNode (h : s.Follows sort g start) (keeps : e.Keeps sort g start)
    (on : s.invokable = true) (inside : i < s.nodes) (cursor : i ≤ s.nextToPrepare) :
    (s.prepareNode e i).1.Follows sort g start ∧ (s.prepareNode e i).1.invokable = true ∧
      (s.prepareNode e i).1.nodes = s.nodes ∧
      ((s.prepareNode e i).2 = none → i < (s.prepareNode e i).1.nextToPrepare) := by
  unfold Subgraph.prepareNode
  split
  next here =>
    obtain ⟨planner, together, invokable, success, failure⟩ :=
      h.planner.prepareOpsAndTensors wf fits perm pos aligned h.together (Or.inr (here ▸ inside)) keeps
    have nodes : (s.prepareOpsAndTensors e).1.nodes = s.nodes := together.nodes.trans h.together.nodes.symm
    have follows : (s.prepareOpsAndTensors e).1.Follows sort g start := by
      refine ⟨planner, together, ?_, fun _ => ?_⟩
      · rw [invokable, on]
        by_cases done : (s.prepareOpsAndTensors e).2 = none
        · exact (success done).1
        · exact (failure done).1.trans (h.made.trans on)
      · have begun := h.begun on
        by_cases done : (s.prepareOpsAndTensors e).2 = none
        · exact Nat.lt_trans begun (success done).2
        · rw [(failure done).2]
          exact begun
    split
    next done eq =>
      rw [eq] at follows invokable nodes success
      exact ⟨follows, invokable.trans on, nodes, fun _ => Nat.lt_of_le_of_lt (Nat.le_of_eq here) (success rfl).2⟩
    next failed unlike =>
      exact ⟨follows, invokable.trans on, nodes, fun eq => (unlike _ (Prod.ext rfl eq)).elim⟩
  next other => exact ⟨h, on, rfl, fun _ => Nat.lt_of_le_of_ne cursor other⟩

theorem Subgraph.Follows.invokeNodes {todo : Nat} (h : s.Follows sort g start) (keeps : e.Keeps sort g start)
    (on : s.invokable = true) (total : i + todo = s.nodes) (cursor : i ≤ s.nextToPrepare) :
    (s.invokeNodes e todo i).1.Follows sort g start ∧ (s.invokeNodes e todo i).1.invokable = true ∧
      ((s.invokeNodes e todo i).2 = none → s.nodes ≤ (s.invokeNodes e todo i).1.nextToPrepare) := by
  induction todo generalizing i s with
  | zero => exact ⟨h, on, fun _ => total ▸ cursor⟩
  | succ todo ih =>
    obtain ⟨follows, still, nodes, ahead⟩ := h.prepareNode wf fits perm pos aligned keeps on (by omega) cursor
    unfold Subgraph.invokeNodes
    split
    next failed failure eq =>
      rw [eq] at follows still
      exact ⟨follows, still, nofun⟩
    next ready eq =>
      rw [eq] at follows still nodes ahead
      have past := ahead rfl
      dsimp only at follows still nodes past
      have node : (ready.invokeNode e i).1.Follows sort g start ∧ (ready.invokeNode e i).1.invokable = true ∧
          (ready.invokeNode e i).1.nodes = ready.nodes ∧ i < (ready.invokeNode e i).1.nextToPrepare := by
        rcases ready.invokeNode_keeps keeps i with same | same <;> rw [same]
        · exact ⟨follows, still, rfl, past⟩
        · exact ⟨follows.record i, still, rfl, past⟩
      split
      next failed failure eq =>
        rw [eq] at node
        exact ⟨node.1, node.2.1, nofun⟩
      next next eq =>
        rw [eq] at node
        dsimp only at node
        obtain ⟨follows, still, same, past⟩ := node
        obtain ⟨last, on, covers⟩ := ih follows still (by omega) past
        exact ⟨last, on, fun done => Nat.le_trans (Nat.le_of_eq (nodes.symm.trans same.symm)) (covers done)⟩

theorem Subgraph.Follows.invoke (h : s.Follows sort g start) (keeps : e.Keeps sort g start) :
    (s.invoke e).1.Follows sort g start ∧
      ((s.invoke e).2 = none → (s.invoke e).1.invokable = true ∧ s.nodes ≤ (s.invoke e).1.nextToPrepare) := by
  unfold Subgraph.invoke
  split
  next => exact ⟨h, nofun⟩
  next on =>
    split
    next => exact ⟨h, nofun⟩
    next =>
      obtain ⟨follows, still, covers⟩ := h.invokeNodes wf fits perm pos aligned keeps (by simpa using on)
        (Nat.zero_add s.nodes) (Nat.zero_le _)
      exact ⟨follows, fun done => ⟨still, covers done⟩⟩

end Calls

section Complete

variable {g : GraphInfo} {sort : (Nat → Nat → Bool) → List Nat → List Nat} {start p : ArenaPlanner} {s : Subgraph}
  {e : SubgraphEnvironment} {i : Nat}

/-- `AllocateTensors` and `Invoke` with tensors that keep their sizes. -/
def SubgraphCall.Plain (sort : (Nat → Nat → Bool) → List Nat → List Nat) (g : GraphInfo) (start : ArenaPlanner)
    (a : SubgraphEnvironment × SubgraphCall) : Prop :=
  a.1.Keeps sort g start ∧ (a.2 = .allocateTensors ∨ a.2 = .invoke)

theorem run_plain {I : Subgraph → Prop} (keep : ∀ s a, I s → SubgraphCall.Plain sort g start a → I (s.next a))
    {calls : List (SubgraphEnvironment × SubgraphCall)} (plain : ∀ a ∈ calls, SubgraphCall.Plain sort g start a) (h : I s) :
    I (Runs.run Subgraph.next s calls) := by
  induction calls generalizing s with
  | nil => exact h
  | cons a calls ih =>
    exact ih (fun b hb => plain b (List.mem_cons_of_mem a hb)) (keep s a h (plain a List.mem_cons_self))

theorem Subgraph.Follows.next (wf : g.WellFormed) (fits : g.weight start.tensorAlignment (max g.nodes.length 1) < 2 ^ 64)
    (perm : ∀ lt l, (sort lt l).Perm l) (pos : 0 < start.tensorAlignment)
    (aligned : start.tensorAlignment ≤ start.arena.bufferAlignment ∧
      start.tensorAlignment ≤ start.persistentArena.bufferAlignment)
    (h : s.Follows sort g start) {a : SubgraphEnvironment × SubgraphCall} (plain : SubgraphCall.Plain sort g start a) :
    (s.next a).Follows sort g start := by
  obtain ⟨e, call⟩ := a
  obtain ⟨keeps, rfl | rfl⟩ := plain
  · exact h.allocateTensors wf fits perm pos aligned keeps
  · exact (h.invoke wf fits perm pos aligned keeps).1

theorem Subgraph.follows_new (sort : (Nat → Nat → Bool) → List Nat → List Nat) (g : GraphInfo) (start : ArenaPlanner) :
    (Subgraph.new g.nodes.length).Follows sort g start :=
  ⟨Or.inl ⟨rfl, rfl, rfl⟩, ⟨rfl, rfl, Nat.zero_le _⟩, rfl, nofun⟩

/-- Every node has been placed, by the planner `p`. -/
structure Subgraph.Complete (sort : (Nat → Nat → Bool) → List Nat → List Nat) (g : GraphInfo) (start p : ArenaPlanner)
    (s : Subgraph) : Prop where
  invokable : s.invokable = true
  covers : s.nodes ≤ s.nextToPrepare
  replay : ArenaPlanner.replay sort g start s.events = some p

theorem Subgraph.Complete.invokeNodes {todo : Nat} (h : s.Complete sort g start p) (keeps : e.Keeps sort g start)
    (total : i + todo = s.nodes) : (s.invokeNodes e todo i).1.Complete sort g start p := by
  induction todo generalizing i s with
  | zero => exact h
  | succ todo ih =>
    have covers := h.covers
    have skip : s.prepareNode e i = (s, none) := if_neg (by omega)
    unfold Subgraph.invokeNodes
    rw [skip]
    have node : (s.invokeNode e i).1.Complete sort g start p ∧ (s.invokeNode e i).1.nodes = s.nodes := by
      rcases s.invokeNode_keeps keeps i with same | same <;> rw [same]
      · exact ⟨h, rfl⟩
      · exact ⟨⟨h.invokable, h.covers, h.replay⟩, rfl⟩
    dsimp only
    split
    next failed failure eq =>
      rw [eq] at node
      exact node.1
    next next eq =>
      rw [eq] at node
      dsimp only at node
      exact ih node.1 (by omega)

/-- A complete plan is never touched again. -/
theorem Subgraph.Complete.next (h : s.Complete sort g start p) {a : SubgraphEnvironment × SubgraphCall}
    (plain : SubgraphCall.Plain sort g start a) : (s.next a).Complete sort g start p := by
  obtain ⟨e, call⟩ := a
  obtain ⟨keeps, rfl | rfl⟩ := plain
  · show (s.allocateTensors e).1.Complete sort g start p
    unfold Subgraph.allocateTensors
    rw [if_pos ⟨h.invokable, keeps.inputs _⟩]
    dsimp only
    split
    next => exact ⟨h.invokable, h.covers, h.replay⟩
    next => exact h
  · show (s.invoke e).1.Complete sort g start p
    unfold Subgraph.invoke
    split
    next => exact h
    next =>
      split
      next => exact h
      next => exact h.invokeNodes keeps (Nat.zero_add s.nodes)

theorem Subgraph.Follows.complete (h : s.Follows sort g start) (on : s.invokable = true) (covers : s.nodes ≤ s.nextToPrepare) :
    ∃ planner p, s.Complete sort g start p ∧ Planning g start planner (max g.nodes.length 1) p := by
  have begun := h.begun on
  have inside := h.together.inside
  have nodes := h.together.nodes
  rcases h.planner with ⟨none, _⟩ | ⟨_, planner, p, replay, planning⟩
  · rw [h.made, on] at none
    cases none
  · have last : s.nextToPrepare = max g.nodes.length 1 := by omega
    exact ⟨planner, p, ⟨on, covers, replay⟩, last ▸ planning⟩

end Complete

/-- Any calls of `AllocateTensors` and `Invoke`, with kernels that fail or leave their outputs unknown until they have run:
once an `Invoke` has come to its end, the planner has placed every tensor, no later call touches the plan, and if the
in-place operators are safe the arenas serve every session, with invocations that fail or are cancelled in between. -/
theorem interpreter_sessions {g : GraphInfo} (wf : g.WellFormed) {sort : (Nat → Nat → Bool) → List Nat → List Nat}
    (perm : ∀ lt l, (sort lt l).Perm l) (start : ArenaPlanner) (pos : 0 < start.tensorAlignment)
    (aligned : start.tensorAlignment ≤ start.arena.bufferAlignment ∧
      start.tensorAlignment ≤ start.persistentArena.bufferAlignment)
    (fits : g.weight start.tensorAlignment (max g.nodes.length 1) < 2 ^ 64)
    (calls : List (SubgraphEnvironment × SubgraphCall)) (plain : ∀ a ∈ calls, SubgraphCall.Plain sort g start a)
    (e : SubgraphEnvironment) (keeps : e.Keeps sort g start) :
    let s := Runs.run Subgraph.next (Subgraph.new g.nodes.length) calls
    (s.invoke e).2 = none → ∃ p,
      (∀ more : List (SubgraphEnvironment × SubgraphCall), (∀ a ∈ more, SubgraphCall.Plain sort g start a) →
        ArenaPlanner.replay sort g start (Runs.run Subgraph.next (s.invoke e).1 more).events = some p) ∧
      (g.InPlaceSafe → p.Computes g) := by
  intro s done
  have follows : s.Follows sort g start := run_plain (fun _ _ h plain => h.next wf fits perm pos aligned plain)
    plain (Subgraph.follows_new sort g start)
  obtain ⟨after, success⟩ := follows.invoke wf fits perm pos aligned keeps
  obtain ⟨on, covers⟩ := success done
  have nodes : (s.invoke e).1.nodes = s.nodes := after.together.nodes.trans follows.together.nodes.symm
  obtain ⟨planner, p, complete, planning⟩ := after.complete on (nodes ▸ covers)
  refine ⟨p, fun more all => ?_, fun safe => (planning.placed wf fits safe).computes⟩
  have last : (Runs.run Subgraph.next (s.invoke e).1 more).Complete sort g start p :=
    run_plain (fun _ _ h plain => h.next plain) all complete
  exact last.replay

/-- The shapes after the second node are not known before it has run. -/
def lateShapes : SubgraphEnvironment where
  dynamicInputs _ := false
  prepare _ i := if i = 1 then .outputShapeNotKnown else .ok
  dynamicOutputs _ _ := false
  executeAllocations _ _ _ := .succeeds
  lacksData _ _ := false
  cancels _ _ := none
  invoke _ _ := .ok
  resized _ _ := false

/-- Two batches, the second of them during the first `Invoke`, and two more calls that leave the plan alone. -/
theorem four_nodes_interpreter :
    let s := Runs.run Subgraph.next (Subgraph.new 4) [(lateShapes, .allocateTensors)]
    (s.invoke lateShapes).2 = none ∧ ∃ p,
      ArenaPlanner.replay (fun lt l => l.mergeSort lt) fourNodes (ArenaPlanner.new false 64) (s.invoke lateShapes).1.events =
        some p ∧
      ArenaPlanner.replay (fun lt l => l.mergeSort lt) fourNodes (ArenaPlanner.new false 64)
        (Runs.run Subgraph.next (s.invoke lateShapes).1 [(lateShapes, .allocateTensors), (lateShapes, .invoke)]).events =
        some p ∧ p.Computes fourNodes := by
  have keeps : lateShapes.Keeps (fun lt l => l.mergeSort lt) fourNodes (ArenaPlanner.new false 64) :=
    ⟨fun _ => rfl, fun _ _ => rfl, fun _ _ _ _ _ _ _ => rfl⟩
  have done : ((Runs.run Subgraph.next (Subgraph.new 4) [(lateShapes, .allocateTensors)]).invoke lateShapes).2 = none := by
    decide
  obtain ⟨p, plan, computes⟩ := interpreter_sessions fourNodes_wellFormed (fun lt l => List.mergeSort_perm l lt)
    (ArenaPlanner.new false 64) (by decide) (by decide) (by decide) [(lateShapes, .allocateTensors)]
    (by simp [SubgraphCall.Plain, keeps]) lateShapes keeps done
  exact ⟨done, p, plan [] (by simp), plan [(lateShapes, .allocateTensors), (lateShapes, .invoke)]
    (by simp [SubgraphCall.Plain, keeps]), computes fourNodes_safe⟩

end AuroraVoice
