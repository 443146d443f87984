import AuroraVoice.ArenaSessions
import AuroraVoice.Runs

namespace AuroraVoice

open Storage

/-- `CalculateActiveAllocs`, with `std::sort` as a parameter. -/
def SimpleMemoryArena.calculateActiveAllocs
    (sortAllocs : List ArenaAllocWithUsageInterval → List ArenaAllocWithUsageInterval) (arena : SimpleMemoryArena)
    (allocs : List ArenaAllocWithUsageInterval) (node : Int) : SimpleMemoryArena :=
  { arena with activeAllocs := sortAllocs (allocs.filter fun a => a.firstNode ≤ node ∧ a.lastNode ≥ node) }

/-- The alloc of a tensor after `ResetAllocationsAfter`. -/
def ArenaPlanner.allocUpTo (p : ArenaPlanner) (g : GraphInfo) (node t : Nat) : ArenaAllocWithUsageInterval :=
  if (p.allocs t).firstNode > node ∧ (p.allocs t).size > 0 ∧ (g.tensor t).allocationType = .arenaRw then .reset
  else p.allocs t

def ArenaPlanner.resetAllocationsAfter
    (sortAllocs : List ArenaAllocWithUsageInterval → List ArenaAllocWithUsageInterval) (p : ArenaPlanner) (g : GraphInfo)
    (node : Nat) : ArenaPlanner :=
  let allocs := p.allocUpTo g node
  let arena :=
    if p.lastActiveNode > node then
      p.arena.calculateActiveAllocs sortAllocs ((List.range g.tensors.length).map allocs) node
    else p.arena.purgeAfter node
  { p with allocs := allocs, arena := arena, lastActiveNode := node }

/-- The same graph with other sizes of its tensors. -/
structure GraphInfo.Resized (g h : GraphInfo) : Prop where
  nodes : h.nodes = g.nodes
  inputs : h.inputs = g.inputs
  outputs : h.outputs = g.outputs
  variableTensors : h.variableTensors = g.variableTensors
  kinds : ∀ t, (h.tensor t).allocationType = (g.tensor t).allocationType

section Resized

variable {g h : GraphInfo}

theorem GraphInfo.Resized.eq (r : g.Resized h) : h = { g with tensors := h.tensors } := by
  obtain ⟨nodes, inputs, outputs, variableTensors, _⟩ := r
  cases h
  cases g
  simp_all

theorem GraphInfo.Resized.rw (r : g.Resized h) : h.Rw = g.Rw := by
  funext t
  unfold GraphInfo.Rw
  rw [r.kinds t]

theorem GraphInfo.Resized.persistent (r : g.Resized h) : h.Persistent = g.Persistent := by
  funext t
  unfold GraphInfo.Persistent
  rw [r.kinds t]

theorem GraphInfo.Resized.inArena (r : g.Resized h) (t : Nat) : (h.tensor t).InArena ↔ (g.tensor t).InArena := by
  unfold TfLiteTensor.InArena
  rw [r.kinds t]

theorem GraphInfo.Resized.produces (r : g.Resized h) : h.Produces = g.Produces := by
  rw [r.eq]
  rfl

theorem GraphInfo.Resized.reads (r : g.Resized h) : h.Reads = g.Reads := by
  rw [r.eq]
  rfl

theorem GraphInfo.Resized.source (r : g.Resized h) : h.Source = g.Source := by
  rw [r.eq]
  rfl

theorem GraphInfo.Resized.temporary (r : g.Resized h) : h.Temporary = g.Temporary := by
  rw [r.eq]
  rfl

theorem GraphInfo.Resized.queued (r : g.Resized h) : h.Queued = g.Queued := by
  rw [r.eq]
  rfl

theorem GraphInfo.Resized.references (r : g.Resized h) : h.references = g.references := by
  rw [r.eq]
  rfl

theorem GraphInfo.Resized.inPlace (r : g.Resized h) {i x o k : Nat} {node : TfLiteNode} :
    InPlace h i x o node k ↔ InPlace g i x o node k := by
  constructor
  · intro place
    exact ⟨r.nodes ▸ place.position, place.output, place.input, place.flag, place.shareable, r.outputs ▸ place.result,
      r.kinds x ▸ r.kinds o ▸ place.kind⟩
  · intro place
    exact ⟨r.nodes.symm ▸ place.position, place.output, place.input, place.flag, place.shareable,
      r.outputs.symm ▸ place.result, (r.kinds x).symm ▸ (r.kinds o).symm ▸ place.kind⟩

theorem GraphInfo.Resized.stems (r : g.Resized h) {owner t : Nat} (stems : Stems h owner t) : Stems g owner t := by
  induction stems with
  | self => exact .self
  | step _ place ih => exact .step ih (r.inPlace.mp place)

theorem GraphInfo.Resized.wellFormed (r : g.Resized h) (wf : g.WellFormed) : h.WellFormed := by
  have used : h.Used = g.Used := by
    unfold GraphInfo.Used
    rw [r.reads, r.outputs]
  refine ⟨r.nodes.symm ▸ wf.small, ?_, r.nodes.symm ▸ wf.distinct, r.inputs.symm ▸ wf.distinctInputs, ?_, ?_, ?_, ?_, ?_⟩
  · rw [r.produces]
    exact wf.once
  · rw [r.produces, r.source]
    exact wf.fresh
  · rw [r.reads, r.produces]
    exact wf.earlier
  · rw [used, r.source, r.produces]
    exact fun t use inside => wf.available t use ((r.inArena t).mp inside)
  · rw [r.temporary, r.source, used, r.produces]
    exact wf.temporary
  · rw [r.temporary]
    exact wf.temporaryOnce

theorem GraphInfo.Resized.safe (r : g.Resized h) (safe : g.InPlaceSafe) : h.InPlaceSafe := by
  constructor
  · rw [r.nodes]
    intro node mem flag o output
    rw [r.kinds o]
    exact safe.kind node mem flag o output
  · rw [r.produces, r.reads]
    intro i x o node k place changed owner t m j stemsX stemsT
    exact safe.overwrites i x o node k (r.inPlace.mp place) changed owner t m j (r.stems stemsX) (r.stems stemsT)

theorem GraphInfo.Resized.planned (r : g.Resized h) {planner : ArenaPlanner} (planned : Planned g planner) :
    Planned h planner := by
  refine ⟨?_, ?_, ?_, ?_, planned.nodup, ?_, ?_, ?_⟩
  · rw [r.source]
    exact planned.sourced
  · rw [r.produces]
    exact planned.allocated
  · rw [r.source, r.produces]
    exact planned.allocates
  · rw [r.source, r.produces]
    exact planned.queued
  · rw [r.source, r.outputs]
    exact planned.held
  · rw [r.reads]
    exact planned.read
  · rw [r.reads]
    exact planned.last

theorem GraphInfo.Resized.shares (r : g.Resized h) {n : Nat} {share : Nat → Option Nat} (shares : Shares g n share) :
    Shares h n share := by
  intro o owner eq
  obtain ⟨free, i, x, node, k, lt, place, root, read, counted⟩ := shares o owner eq
  refine ⟨free, i, x, node, k, lt, r.inPlace.mpr place, root, ?_, ?_⟩
  · rw [r.reads]
    exact read
  · rw [r.references]
    exact counted

end Resized

section Replanning

variable {g h : GraphInfo} {planner p : ArenaPlanner} {placed reached weight node : Nat}
  {sortAllocs : List ArenaAllocWithUsageInterval → List ArenaAllocWithUsageInterval}

/-- The tensors that have their places keep their sizes. -/
def GraphInfo.KeepsPlaced (g h : GraphInfo) (placed reached : Nat) : Prop :=
  ∀ t, (g.tensor t).InArena → g.QueuedBefore placed t ∨ (g.Persistent t ∧ g.QueuedBefore reached t) →
    (h.tensor t).bytes = (g.tensor t).bytes

/-- The owner of a buffer gets its place no later than the tensors that use it. -/
theorem Shares.owner_queued (wf : g.WellFormed) {n : Nat} {share : Nat → Option Nat} (shares : Shares g n share) {t r : Nat}
    (eq : share t = some r) (kind : g.Rw r) (queued : g.QueuedBefore placed t) : g.QueuedBefore placed r := by
  obtain ⟨_, i, x, node, k, _, place, _, ⟨j, le, read⟩, _⟩ := shares t r eq
  obtain ⟨i', before, queued⟩ := queued
  obtain rfl : i' = i := wf.queued_once queued (Or.inr (Or.inl place.produces))
  rcases wf.available r (Or.inl ⟨j, read⟩) (Or.inl kind) with source | ⟨m, produces⟩
  · exact ⟨0, by omega, Or.inl ⟨rfl, source⟩⟩
  · have order := wf.earlier j m r read produces
    exact ⟨m, by omega, Or.inr (Or.inl produces)⟩

/-- Other sizes of what has no place yet change nothing. -/
theorem BatchReady.resize (wf : g.WellFormed) (shares : Shares g g.nodes.length planner.actualTensorId)
    (ready : BatchReady g planner placed reached weight p) (r : g.Resized h) (keeps : g.KeepsPlaced h placed reached) :
    BatchReady h planner placed reached weight p := by
  have before : ∀ n, h.QueuedBefore n = g.QueuedBefore n := by
    intro n
    unfold GraphInfo.QueuedBefore
    rw [r.queued]
  have temporaries : ∀ n, h.TemporaryBefore n = g.TemporaryBefore n := by
    intro n
    unfold GraphInfo.TemporaryBefore
    rw [r.temporary]
  obtain ⟨⟨m, le, tabled⟩, laid, cursor⟩ := ready
  refine ⟨⟨m, le, ?_⟩, ?_, cursor⟩
  · refine ⟨?_, ?_, tabled.nodup, tabled.preserve, ?_, ?_⟩
    · rw [temporaries, r.temporary]
      exact tabled.entered
    · rw [temporaries, r.source, r.produces]
      exact tabled.queued
    · rw [temporaries]
      exact tabled.others
    · rw [temporaries]
      exact tabled.temporaries
  · refine ⟨r.rw ▸ laid.rw, r.persistent ▸ laid.persistent, laid.pos, laid.aligned, ?_, ?_, ?_, laid.shares, ?_⟩
    · rw [r.rw, before]
      exact laid.record
    · rw [r.persistent, before, before]
      intro t kind size
      obtain ⟨early, same, interval⟩ := laid.lasting t kind size
      have kept := keeps t (Or.inr kind) (early.imp_right fun seen => ⟨kind, seen⟩)
      exact ⟨early, same.trans kept.symm, interval⟩
    · intro t outside
      exact laid.vacant t fun inside => outside ((r.inArena t).mpr inside)
    · rw [before]
      intro t queued inside size
      have inArena := (r.inArena t).mp inside
      have kept := keeps t inArena (Or.inl queued)
      rcases laid.places t queued inArena (by omega) with ⟨owner, share, kind, bytes⟩ | ⟨own, same⟩
      · refine Or.inl ⟨owner, share, r.rw.symm ▸ kind, ?_⟩
        have plan : planner.actualTensorId t = some owner := by
          rcases laid.shares t with eq | none
          · exact eq.symm.trans share
          · cases none.symm.trans share
        have keptOwner := keeps owner (Or.inl kind) (Or.inl (shares.owner_queued wf plan kind queued))
        omega
      · exact Or.inr ⟨own, same.trans kept.symm⟩

/-- `ResetAllocations` leaves the tables of the plan. -/
theorem BatchReady.resetAllocations (ready : BatchReady g planner placed reached weight p) :
    BatchReady g planner 0 0 0 p.resetAllocations := by
  obtain ⟨⟨m, _, tabled⟩, laid, _⟩ := ready
  have empty : ArenaAllocWithUsageInterval.reset.size = 0 := rfl
  refine ⟨⟨m, Nat.zero_le m, tabled.same ⟨rfl, rfl, rfl, rfl, rfl⟩⟩, ⟨arenaHolds_reset _ _ _, arenaHolds_reset _ _ _, laid.pos,
    laid.aligned, fun t _ size => absurd size (by simp [ArenaPlanner.resetAllocations, empty]),
    fun t _ size => absurd size (by simp [ArenaPlanner.resetAllocations, empty]), fun t _ => rfl, laid.shares, ?_⟩, Or.inl rfl⟩
  rintro t ⟨i, before, _⟩
  omega

/-- The alloc of an arena tensor starts at the node that the tensor gets its place with. -/
theorem BatchReady.first_node (wf : g.WellFormed) (planned : Planned g planner)
    (ready : BatchReady g planner placed reached weight p) {t : Nat} (kind : g.Rw t) (size : 0 < (p.allocs t).size) :
    ∃ i < placed, g.Queued i t ∧ (p.allocs t).firstNode = i := by
  obtain ⟨m, le, tabled⟩ := ready.tabled
  obtain ⟨⟨i, before, queued⟩, first, _⟩ := ready.laid.record t kind size
  have mem : t ∈ p.nodesToTensors i := (tabled.queued i t).mpr (queued.imp_right (Or.imp_right fun temp => ⟨by omega, temp⟩))
  rw [tabled.allocNode wf planned mem] at first
  exact ⟨i, before, queued, first⟩

theorem allocUpTo_cases (p : ArenaPlanner) (g : GraphInfo) (node t : Nat) :
    p.allocUpTo g node t = p.allocs t ∨ (p.allocUpTo g node t = .reset ∧ g.Rw t ∧ 0 < (p.allocs t).size ∧
      (node : Int) < (p.allocs t).firstNode) := by
  unfold ArenaPlanner.allocUpTo
  split
  next gone => exact Or.inr ⟨rfl, gone.2.2, gone.2.1, gone.1⟩
  next => exact Or.inl rfl

/-- A tensor of a node up to `node` keeps its alloc, and a later one has none. -/
theorem BatchReady.allocUpTo (wf : g.WellFormed) (planned : Planned g planner)
    (ready : BatchReady g planner placed reached weight p) {t : Nat} (kind : g.Rw t)
    (size : 0 < (p.allocUpTo g node t).size) :
    p.allocUpTo g node t = p.allocs t ∧ ∃ i < node + 1, g.Queued i t ∧ (p.allocs t).firstNode = i := by
  rcases allocUpTo_cases p g node t with same | ⟨gone, _⟩
  · have still : ¬ ((p.allocs t).firstNode > node ∧ (p.allocs t).size > 0 ∧ (g.tensor t).allocationType = .arenaRw) := by
      intro late
      unfold ArenaPlanner.allocUpTo at size
      rw [if_pos late] at size
      cases size
    rw [same] at size
    obtain ⟨i, before, queued, first⟩ := ready.first_node wf planned kind size
    refine ⟨same, i, ?_, queued, first⟩
    by_contra late
    exact still ⟨by omega, size, kind⟩
  · rw [gone] at size
    cases size

theorem ArenaHolds.reactivate {arena : SimpleMemoryArena} {allocs next : Nat → ArenaAllocWithUsageInterval}
    {mine : Nat → Prop} {first last : Int} (holds : ArenaHolds arena allocs mine first weight)
    (same : ∀ t, mine t → next t = allocs t ∨ next t = .reset) {l : List ArenaAllocWithUsageInterval} (sorted : SortedAllocs l)
    (bounded : ∀ a ∈ l, a.offset + a.size ≤ weight)
    (active : ∀ t, mine t → 0 < (next t).size → next t ∈ l ∨ (next t).lastNode < last) :
    ArenaHolds { arena with activeAllocs := l } next mine last weight := by
  refine ⟨sorted, bounded, holds.mark, fun t own => ?_, fun t u ht hu ne => ?_, active, fun t own size => ?_,
    fun t own size => ?_⟩
  · rcases same t own with eq | eq <;> rw [eq]
    · exact holds.ends t own
    · exact Nat.zero_le _
  · rcases same t ht with eqT | eqT <;> rw [eqT]
    · rcases same u hu with eqU | eqU <;> rw [eqU]
      · exact holds.compatible t u ht hu ne
      · exact ArenaAllocWithUsageInterval.Compatible.symm (compatible_of_empty rfl rfl)
    · exact compatible_of_empty rfl rfl
  · rcases same t own with eq | eq <;> rw [eq] at size ⊢
    · exact holds.empty t own size
    · rfl
  · rcases same t own with eq | eq <;> rw [eq] at size ⊢
    · exact holds.tensor t own size
    · cases size

/-- Every alloc that there is ends below the weight, whichever arena it is in. -/
theorem Laid.alloc_ends {planned : Nat → Option Nat} {settled early : Nat → Prop} {firstNode : Nat}
    (laid : Laid g planned firstNode settled early weight p) (t : Nat) : (p.allocs t).offset + (p.allocs t).size ≤ weight := by
  by_cases inside : (g.tensor t).InArena
  · rcases inside with kind | kind
    · exact (laid.rw.ends t kind).trans laid.rw.mark
    · exact (laid.persistent.ends t kind).trans laid.persistent.mark
  · rw [laid.vacant t inside]
    exact Nat.zero_le _

variable (sorts : ∀ l, (sortAllocs l).Perm l ∧ SortedAllocs (sortAllocs l)) (wf : g.WellFormed) (planned : Planned g planner)
  (ready : BatchReady g planner placed reached weight p) (le : node + 1 ≤ placed)
include sorts wf planned ready le

/-- The allocs in use at `node` are active again, with those of persistent tensors among them, which only take up room. -/
theorem BatchReady.reset_holds :
    ArenaHolds (p.resetAllocationsAfter sortAllocs g node).arena (p.allocUpTo g node) g.Rw (node + 1 : Nat) weight := by
  have same : ∀ t, g.Rw t → p.allocUpTo g node t = p.allocs t ∨ p.allocUpTo g node t = .reset :=
    fun t _ => (allocUpTo_cases p g node t).imp_right And.left
  unfold ArenaPlanner.resetAllocationsAfter
  dsimp only
  split
  next =>
    obtain ⟨perm, sorted⟩ := sorts (((List.range g.tensors.length).map (p.allocUpTo g node)).filter fun a =>
      a.firstNode ≤ node ∧ a.lastNode ≥ node)
    refine ready.laid.rw.reactivate same sorted (fun a ha => ?_) fun t kind size => ?_
    · obtain ⟨mem, _⟩ := List.mem_filter.mp (perm.mem_iff.mp ha)
      obtain ⟨t, _, rfl⟩ := List.mem_map.mp mem
      rcases allocUpTo_cases p g node t with eq | ⟨eq, _⟩ <;> rw [eq]
      · exact ready.laid.alloc_ends t
      · exact Nat.zero_le _
    · obtain ⟨eq, i, early, _, first⟩ := ready.allocUpTo wf planned kind size
      by_cases gone : (p.allocUpTo g node t).lastNode < (node + 1 : Nat)
      · exact Or.inr gone
      · refine Or.inl (perm.mem_iff.mpr (List.mem_filter.mpr ⟨List.mem_map.mpr ⟨t, ?_, rfl⟩, ?_⟩))
        · exact List.mem_range.mpr (lt_tensors_of_rw kind)
        · rw [eq] at gone ⊢
          rw [decide_eq_true_eq]
          exact ⟨by omega, by omega⟩
  next last =>
    -- nothing was planned after `node`
    have cursor : placed = node + 1 := by
      rcases ready.cursor with start | after
      · omega
      · omega
    have sub := p.arena.purge_sublist fun a => a.firstNode > node
    refine ready.laid.rw.reactivate same (ready.laid.rw.sorted.sublist sub) (fun a ha => ready.laid.rw.bounded a (sub.subset ha))
      fun t kind size => ?_
    obtain ⟨eq, i, early, _, first⟩ := ready.allocUpTo wf planned kind size
    rw [eq] at size ⊢
    rcases ready.laid.rw.active t kind size with active | gone
    · left
      show p.allocs t ∈ (p.arena.purge fun a => a.firstNode > node).activeAllocs
      rw [SimpleMemoryArena.purge_allocs, List.mem_filter]
      have tensor := ready.laid.rw.tensor t kind size
      have kept : ¬ (p.allocs t).firstNode > node := by omega
      exact ⟨active, by simp [kept, tensor]⟩
    · right
      omega

theorem BatchReady.resetAllocationsAfter :
    BatchReady g planner (node + 1) (max reached placed) weight (p.resetAllocationsAfter sortAllocs g node) := by
  have holds := ready.reset_holds sorts wf planned le
  obtain ⟨m, inside, tabled⟩ := ready.tabled
  have laid := ready.laid
  have grow : ∀ {n t}, n ≤ placed ∨ n ≤ reached → g.QueuedBefore n t → g.QueuedBefore (max reached placed) t := by
    rintro n t small ⟨i, before, queued⟩
    exact ⟨i, by omega, queued⟩
  have kept : ∀ t, ¬ g.Rw t → p.allocUpTo g node t = p.allocs t := by
    intro t foreign
    rcases allocUpTo_cases p g node t with same | ⟨_, kind, _⟩
    · exact same
    · exact absurd kind foreign
  have persistent := laid.persistent.congr fun t kind => kept t (not_rw_of_persistent kind)
  have buffer : (p.resetAllocationsAfter sortAllocs g node).arena.bufferAlignment = p.arena.bufferAlignment := by
    unfold ArenaPlanner.resetAllocationsAfter
    dsimp only
    split <;> rfl
  refine ⟨⟨m, by omega, tabled.same ⟨rfl, rfl, rfl, rfl, rfl⟩⟩, ⟨holds, persistent, laid.pos, ⟨buffer ▸ laid.aligned.1, laid.aligned.2⟩,
    fun t kind size => ?_, fun t kind size => ?_, fun t outside => ?_, laid.shares, fun t queued inArena size => ?_⟩, Or.inr rfl⟩
  · obtain ⟨eq, i, early, queued, _⟩ := ready.allocUpTo wf planned kind size
    show _ ∧ (p.allocUpTo g node t).firstNode = p.allocNode t ∧ (p.allocUpTo g node t).lastNode = p.deallocNode t
    have before : 0 < (p.allocs t).size := eq ▸ size
    rw [eq]
    exact ⟨⟨i, early, queued⟩, (laid.record t kind before).2⟩
  · have eq := kept t (not_rw_of_persistent kind)
    have before : 0 < (p.allocs t).size := eq ▸ size
    obtain ⟨early, place⟩ := laid.lasting t kind before
    show _ ∧ (p.allocUpTo g node t).size = _ ∧ (p.allocUpTo g node t).firstNode ≤ _ ∧ (p.allocUpTo g node t).lastNode = _
    rw [eq]
    exact ⟨Or.inr (early.elim (grow (Or.inl (Nat.le_refl _))) (grow (Or.inr (Nat.le_refl _)))), place⟩
  · show p.allocUpTo g node t = .reset
    rw [kept t fun kind => outside (Or.inl kind)]
    exact laid.vacant t outside
  · obtain ⟨i, early, queued⟩ := queued
    have same : p.allocUpTo g node t = p.allocs t := by
      rcases allocUpTo_cases p g node t with same | ⟨_, kind, size, late⟩
      · exact same
      · obtain ⟨j, _, other, first⟩ := ready.first_node wf planned kind size
        have eq := wf.queued_once queued other
        omega
    have place := laid.places t ⟨i, by omega, queued⟩ inArena size
    unfold Situated at place ⊢
    show _ ∨ p.actualTensorId t = none ∧ (p.allocUpTo g node t).size = _
    rw [same]
    exact place

end Replanning

inductive PlannerCall
  | planAllocations
  | resetAllocations
  | executeAllocations (firstNode lastNode : Nat)
  | resetAllocationsAfter (node : Nat)
  deriving DecidableEq

def ArenaPlanner.call (sort : (Nat → Nat → Bool) → List Nat → List Nat)
    (sortAllocs : List ArenaAllocWithUsageInterval → List ArenaAllocWithUsageInterval) (p : ArenaPlanner) (g : GraphInfo) :
    PlannerCall → Option ArenaPlanner
  | .planAllocations => p.planAllocations g
  | .resetAllocations => some p.resetAllocations
  | .executeAllocations firstNode lastNode => p.executeAllocations sort g firstNode lastNode
  | .resetAllocationsAfter node => some (p.resetAllocationsAfter sortAllocs g node)

/-- A planner, and what its calls have come to: the graph of the latest one, the nodes that are placed, those that
were placed at any time since the last reset, and the bytes that were asked for since. -/
structure PlannerRun where
  graph : GraphInfo
  planned : Bool
  placed : Nat
  reached : Nat
  weight : Nat
  planner : Option ArenaPlanner

namespace PlannerRun

variable (sort : (Nat → Nat → Bool) → List Nat → List Nat)
  (sortAllocs : List ArenaAllocWithUsageInterval → List ArenaAllocWithUsageInterval) (alignment : Nat)

def start (g : GraphInfo) (p : ArenaPlanner) : PlannerRun := ⟨g, false, 0, 0, 0, some p⟩

/-- One call, with the graph as it is then. -/
def next (s : PlannerRun) (a : GraphInfo × PlannerCall) : PlannerRun :=
  let planner := s.planner.bind fun p => p.call sort sortAllocs a.1 a.2
  match a.2 with
  | .planAllocations => ⟨a.1, true, 0, 0, 0, planner⟩
  | .resetAllocations => ⟨a.1, s.planned, 0, 0, 0, planner⟩
  | .executeAllocations firstNode lastNode =>
    ⟨a.1, s.planned, lastNode + 1, s.reached, s.weight + a.1.batchWeight alignment firstNode lastNode, planner⟩
  | .resetAllocationsAfter node => ⟨a.1, s.planned, node + 1, max s.reached s.placed, s.weight, planner⟩

/-- The order that the interpreter keeps: `ExecuteAllocations` goes on where the last one ended or where
`ResetAllocationsAfter` went back to, and in between only tensors without a place get other sizes. -/
def InOrder (s : PlannerRun) (a : GraphInfo × PlannerCall) : Prop :=
  s.graph.Resized a.1 ∧
    match a.2 with
    | .planAllocations => True
    | .resetAllocations => True
    | .executeAllocations firstNode lastNode => s.graph.KeepsPlaced a.1 s.placed s.reached ∧ s.planned = true ∧
        firstNode = s.placed ∧ firstNode ≤ lastNode ∧ lastNode < max a.1.nodes.length 1 ∧
        s.weight + a.1.batchWeight alignment firstNode lastNode < 2 ^ 64
    | .resetAllocationsAfter node => s.graph.KeepsPlaced a.1 s.placed s.reached ∧ node < s.placed

end PlannerRun

section Calls

variable {g h : GraphInfo} {sort : (Nat → Nat → Bool) → List Nat → List Nat}
  {sortAllocs : List ArenaAllocWithUsageInterval → List ArenaAllocWithUsageInterval} {alignment : Nat}
  {s : PlannerRun} {p : ArenaPlanner}

/-- A planner for tensors of this alignment. -/
structure ArenaPlanner.Aligned (alignment : Nat) (p : ArenaPlanner) : Prop where
  tensor : p.tensorAlignment = alignment
  arena : alignment ≤ p.arena.bufferAlignment
  persistentArena : alignment ≤ p.persistentArena.bufferAlignment

/-- The planner of a run whose calls were in order. -/
structure PlannerRun.Sound (alignment : Nat) (s : PlannerRun) (p : ArenaPlanner) : Prop where
  wf : s.graph.WellFormed
  planner : s.planner = some p
  aligned : p.Aligned alignment
  ready : s.planned = true → ∃ plan, Planned s.graph plan ∧ Shares s.graph s.graph.nodes.length plan.actualTensorId ∧
    BatchReady s.graph plan s.placed s.reached s.weight p
  committed : 0 < s.placed → s.planned = true ∧ Committed p
  fits : s.weight < 2 ^ 64

theorem BatchReady.aligned {planner : ArenaPlanner} {placed reached weight : Nat}
    (ready : BatchReady g planner placed reached weight p) : p.Aligned p.tensorAlignment :=
  ⟨rfl, ready.laid.aligned.1, ready.laid.aligned.2⟩

theorem GraphInfo.keepsPlaced_zero (g h : GraphInfo) : g.KeepsPlaced h 0 0 := by
  rintro t _ (⟨i, before, _⟩ | ⟨_, i, before, _⟩) <;> omega

theorem PlannerRun.Sound.planAllocations (sound : s.Sound alignment p) (pos : 0 < alignment) (r : s.graph.Resized h) :
    ∃ q, p.planAllocations h = some q ∧
      PlannerRun.Sound alignment ⟨h, true, 0, 0, 0, some q⟩ q := by
  have wf := r.wellFormed sound.wf
  obtain ⟨q, plan, planned, fresh⟩ := planAllocations_spec p h wf.small
  obtain ⟨counted, refs, shared⟩ := fresh.shared
  have shares : Shares h h.nodes.length q.actualTensorId := shared ▸ identifyInPlaceTensors_shares wf refs
  have aligned := sound.aligned
  have same := aligned.tensor
  have ready : BatchReady h q 0 0 0 q :=
    fresh.ready planned (same ▸ pos) ⟨same ▸ aligned.arena, same ▸ aligned.persistentArena⟩ 0
  refine ⟨q, plan, wf, rfl, ?_, fun _ => ⟨q, planned, shares, ready⟩, fun begun => absurd begun (Nat.not_lt_zero 0), Nat.two_pow_pos 64⟩
  rw [← same, ← fresh.tensorAlignment]
  exact ready.aligned

theorem PlannerRun.Sound.resetAllocations (sound : s.Sound alignment p) (r : s.graph.Resized h) :
    PlannerRun.Sound alignment ⟨h, s.planned, 0, 0, 0, some p.resetAllocations⟩ p.resetAllocations := by
  refine ⟨r.wellFormed sound.wf, rfl, ⟨sound.aligned.tensor, sound.aligned.arena, sound.aligned.persistentArena⟩, fun on => ?_,
    fun begun => absurd begun (Nat.not_lt_zero 0), Nat.two_pow_pos 64⟩
  obtain ⟨plan, planned, shares, ready⟩ := sound.ready on
  exact ⟨plan, r.planned planned, r.nodes.symm ▸ r.shares shares,
    ready.resetAllocations.resize sound.wf shares r (s.graph.keepsPlaced_zero h)⟩

theorem PlannerRun.Sound.executeAllocations (perm : ∀ lt l, (sort lt l).Perm l) (sound : s.Sound alignment p)
    (r : s.graph.Resized h) {firstNode lastNode : Nat} (keeps : s.graph.KeepsPlaced h s.placed s.reached)
    (on : s.planned = true) (first : firstNode = s.placed) (le : firstNode ≤ lastNode)
    (fits : s.weight + h.batchWeight alignment firstNode lastNode < 2 ^ 64) :
    ∃ q, p.executeAllocations sort h firstNode lastNode = some q ∧
      PlannerRun.Sound alignment ⟨h, s.planned, lastNode + 1, s.reached,
        s.weight + h.batchWeight alignment firstNode lastNode, some q⟩ q := by
  subst first
  have wf := r.wellFormed sound.wf
  obtain ⟨plan, planned, shares, before⟩ := sound.ready on
  have same := sound.aligned.tensor
  have ready := before.resize sound.wf shares r keeps
  rw [← same] at fits ⊢
  obtain ⟨q, eq, after, committed, alignments⟩ := ready.execute perm wf (r.planned planned) le fits
  refine ⟨q, eq, wf, rfl, ?_, fun _ => ⟨plan, r.planned planned, r.nodes.symm ▸ r.shares shares, after⟩,
    fun _ => ⟨on, committed⟩, fits⟩
  rw [← alignments]
  exact after.aligned

theorem Committed.resetAllocationsAfter (committed : Committed p) (g : GraphInfo) (node : Nat) :
    Committed (p.resetAllocationsAfter sortAllocs g node) := by
  refine ⟨?_, committed.persistentArena⟩
  unfold ArenaPlanner.resetAllocationsAfter
  dsimp only
  split
  next => exact committed.arena
  next => exact committed.arena

theorem PlannerRun.Sound.resetAllocationsAfter (sorts : ∀ l, (sortAllocs l).Perm l ∧ SortedAllocs (sortAllocs l))
    (sound : s.Sound alignment p) (r : s.graph.Resized h) {node : Nat} (keeps : s.graph.KeepsPlaced h s.placed s.reached)
    (before : node < s.placed) :
    PlannerRun.Sound alignment ⟨h, s.planned, node + 1, max s.reached s.placed, s.weight,
      some (p.resetAllocationsAfter sortAllocs h node)⟩ (p.resetAllocationsAfter sortAllocs h node) := by
  have wf := r.wellFormed sound.wf
  obtain ⟨on, committed⟩ := sound.committed (by omega)
  obtain ⟨plan, planned, shares, ready⟩ := sound.ready on
  have after := (ready.resize sound.wf shares r keeps).resetAllocationsAfter sorts wf (r.planned planned) before
  refine ⟨wf, rfl, ?_, fun _ => ⟨plan, r.planned planned, r.nodes.symm ▸ r.shares shares, after⟩,
    fun _ => ⟨on, committed.resetAllocationsAfter h node⟩, sound.fits⟩
  rw [← sound.aligned.tensor]
  exact after.aligned

/-- A call in order succeeds. -/
theorem PlannerRun.Sound.next (perm : ∀ lt l, (sort lt l).Perm l)
    (sorts : ∀ l, (sortAllocs l).Perm l ∧ SortedAllocs (sortAllocs l)) (pos : 0 < alignment) (sound : s.Sound alignment p)
    {a : GraphInfo × PlannerCall} (order : s.InOrder alignment a) :
    ∃ q, (s.next sort sortAllocs alignment a).Sound alignment q := by
  obtain ⟨h, call⟩ := a
  obtain ⟨r, order⟩ := order
  unfold PlannerRun.next
  rw [sound.planner]
  cases call with
  | planAllocations =>
    obtain ⟨q, eq, after⟩ := sound.planAllocations pos r
    refine ⟨q, ?_⟩
    simp only [Option.bind_some, ArenaPlanner.call, eq]
    exact after
  | resetAllocations => exact ⟨_, sound.resetAllocations r⟩
  | executeAllocations firstNode lastNode =>
    obtain ⟨keeps, on, first, le, _, fits⟩ := order
    obtain ⟨q, eq, after⟩ := sound.executeAllocations perm r keeps on first le fits
    refine ⟨q, ?_⟩
    simp only [Option.bind_some, ArenaPlanner.call, eq]
    exact after
  | resetAllocationsAfter node => exact ⟨_, sound.resetAllocationsAfter sorts r order.1 order.2⟩

end Calls

/-- Any calls of the planner in the order of the interpreter, whatever sizes the tensors without a place get in between:
every call succeeds, the allocs of two arena tensors whose usage intervals meet never overlap, and whenever all nodes
are placed and the in-place operators are safe the arenas serve every session of the graph with the sizes it has then. -/
theorem replanned_sessions {g : GraphInfo} (wf : g.WellFormed) {sort : (Nat → Nat → Bool) → List Nat → List Nat}
    (perm : ∀ lt l, (sort lt l).Perm l)
    {sortAllocs : List ArenaAllocWithUsageInterval → List ArenaAllocWithUsageInterval}
    (sorts : ∀ l, (sortAllocs l).Perm l ∧ SortedAllocs (sortAllocs l)) (start : ArenaPlanner)
    (pos : 0 < start.tensorAlignment) (aligned : start.tensorAlignment ≤ start.arena.bufferAlignment ∧
      start.tensorAlignment ≤ start.persistentArena.bufferAlignment) (calls : List (GraphInfo × PlannerCall))
    (order : Runs.Along (PlannerRun.next sort sortAllocs start.tensorAlignment)
      (PlannerRun.InOrder start.tensorAlignment) (PlannerRun.start g start) calls) :
    let s := Runs.run (PlannerRun.next sort sortAllocs start.tensorAlignment) (PlannerRun.start g start) calls
    ∃ p, s.planner = some p ∧
      (s.planned = true → ∀ t u, s.graph.Rw t → s.graph.Rw u → t ≠ u → (p.allocs t).Compatible (p.allocs u)) ∧
      (max s.graph.nodes.length 1 ≤ s.placed → s.graph.InPlaceSafe → p.Computes s.graph) := by
  intro s
  have begin' : ∃ p, (PlannerRun.start g start).Sound start.tensorAlignment p :=
    ⟨start, wf, rfl, ⟨rfl, aligned.1, aligned.2⟩, fun on => (by cases on), fun begun => absurd begun (Nat.not_lt_zero 0),
      Nat.two_pow_pos 64⟩
  obtain ⟨p, sound⟩ : ∃ p, s.Sound start.tensorAlignment p :=
    Runs.along_induction (I := fun s => ∃ p, s.Sound start.tensorAlignment p)
      (fun _ _ ⟨_, sound⟩ order => sound.next perm sorts pos order) begin' order
  refine ⟨p, sound.planner, fun on t u kindT kindU ne => ?_, fun covers safe => ?_⟩
  · obtain ⟨_, _, _, ready⟩ := sound.ready on
    exact ready.laid.rw.compatible t u kindT kindU ne
  · obtain ⟨on, committed⟩ := sound.committed (by omega)
    obtain ⟨_, planned, shares, ready⟩ := sound.ready on
    exact (ready.placed sound.wf safe planned shares sound.fits committed (by omega)).computes

/-- The activation and the classifier of `fourNodes` have got longer outputs. -/
def grownNodes : GraphInfo :=
  { fourNodes with tensors := [⟨100, .arenaRw⟩, ⟨60, .arenaRw⟩, ⟨60, .arenaRw⟩, ⟨200, .arenaRw⟩, ⟨40, .arenaRw⟩, ⟨8, .mmapRo⟩,
    ⟨16, .arenaRw⟩] }

def sortByOffset (l : List ArenaAllocWithUsageInterval) : List ArenaAllocWithUsageInterval :=
  l.mergeSort fun a b => a.offset ≤ b.offset

section GrownNodes

theorem sortByOffset_sorts (l : List ArenaAllocWithUsageInterval) :
    (sortByOffset l).Perm l ∧ SortedAllocs (sortByOffset l) := by
  refine ⟨List.mergeSort_perm l _, ?_⟩
  have sorted : (sortByOffset l).Pairwise fun a b => decide (a.offset ≤ b.offset) = true := by
    apply List.pairwise_mergeSort
    · intro a b c hab hbc
      simp only [decide_eq_true_eq] at hab hbc ⊢
      omega
    · intro a b
      simp only [Bool.or_eq_true, decide_eq_true_eq]
      omega
  exact sorted.imp fun le => of_decide_eq_true le

theorem fourNodes_resized : fourNodes.Resized fourNodes := ⟨rfl, rfl, rfl, rfl, fun _ => rfl⟩

theorem grownNodes_resized : fourNodes.Resized grownNodes := by
  refine ⟨rfl, rfl, rfl, rfl, fun t => ?_⟩
  by_cases inside : t < 7
  · have kinds : ∀ t < 7, (grownNodes.tensor t).allocationType = (fourNodes.tensor t).allocationType := by decide
    exact kinds t inside
  · have four : fourNodes.tensors.length ≤ t := Nat.le_of_not_lt inside
    have grown : grownNodes.tensors.length ≤ t := Nat.le_of_not_lt inside
    unfold GraphInfo.tensor
    rw [List.getD_eq_getElem?_getD, List.getD_eq_getElem?_getD, List.getElem?_eq_none four, List.getElem?_eq_none grown]

theorem fourNodes_keepsPlaced (placed reached : Nat) : fourNodes.KeepsPlaced fourNodes placed reached := fun _ _ _ => rfl

theorem grownNodes_keepsPlaced : fourNodes.KeepsPlaced grownNodes 2 4 := by
  intro t inside early
  have kinds : ∀ t < 7, (fourNodes.tensor t).allocationType ≠ .arenaRwPersistent := by decide
  rcases early with ⟨i, before, ⟨rfl, source⟩ | produces | temp⟩ | ⟨kind, i, before, queued⟩
  · rw [fourNodes_source.mp source]
    rfl
  · obtain ⟨_, rfl⟩ := fourNodes_produces produces
    have same : ∀ i < 2, (grownNodes.tensor (i + 1)).bytes = (fourNodes.tensor (i + 1)).bytes := by decide
    exact same i before
  · obtain ⟨_, rfl⟩ := fourNodes_temporary temp
    rfl
  · have bound : t < 7 := by
      rcases queued with ⟨_, source⟩ | produces | temp
      · have zero := fourNodes_source.mp source
        omega
      · have written := fourNodes_produces produces
        omega
      · have scratch := fourNodes_temporary temp
        omega
    exact absurd kind (kinds t bound)

end GrownNodes

/-- All nodes are placed, the second one resizes its output, and the two nodes after it are placed again. -/
theorem grown_nodes_sessions : ∃ p,
    (Runs.run (PlannerRun.next (fun lt l => l.mergeSort lt) sortByOffset 64) (PlannerRun.start fourNodes (ArenaPlanner.new false 64))
      [(fourNodes, .planAllocations), (fourNodes, .executeAllocations 0 3), (fourNodes, .resetAllocationsAfter 1),
        (grownNodes, .executeAllocations 2 3)]).planner = some p ∧ p.Computes grownNodes := by
  obtain ⟨p, planner, _, computes⟩ := replanned_sessions fourNodes_wellFormed (fun lt l => List.mergeSort_perm l lt)
    sortByOffset_sorts (ArenaPlanner.new false 64) (by decide) (by decide)
    [(fourNodes, .planAllocations), (fourNodes, .executeAllocations 0 3), (fourNodes, .resetAllocationsAfter 1),
      (grownNodes, .executeAllocations 2 3)]
    ⟨⟨fourNodes_resized, trivial⟩,
      ⟨fourNodes_resized, fourNodes_keepsPlaced _ _, rfl, rfl, by decide, by decide, by decide⟩,
      ⟨fourNodes_resized, fourNodes_keepsPlaced _ _, by decide⟩,
      ⟨grownNodes_resized, grownNodes_keepsPlaced, rfl, rfl, by decide, by decide, by decide⟩, trivial⟩
  exact ⟨p, planner, computes (by decide) (grownNodes_resized.safe fourNodes_safe)⟩

/-- A node with a dynamic output, and one with a persistent temporary. -/
def twoNodes (bytes : Nat) : GraphInfo where
  tensors := [⟨16, .arenaRw⟩, ⟨16, .dynamic⟩, ⟨16, .arenaRw⟩, ⟨bytes, .arenaRwPersistent⟩]
  nodes := [⟨[some 0], [some 1], [], 0⟩, ⟨[some 1], [some 2], [3], 0⟩]
  inputs := [some 0]
  outputs := [some 2]
  variableTensors := []

/-- Why persistent tensors have to keep their sizes: a place of 8 bytes stays one of 8 bytes. -/
example : ((Runs.run (PlannerRun.next (fun _ l => l) id 64) (PlannerRun.start (twoNodes 8) (ArenaPlanner.new false 64))
    [(twoNodes 8, .planAllocations), (twoNodes 8, .executeAllocations 0 1), (twoNodes 8, .resetAllocationsAfter 0),
      (twoNodes 32, .executeAllocations 1 1)]).planner.map fun p => ((p.allocs 2).size, (p.allocs 3).size)) = some (16, 8) := by
  decide +kernel

end AuroraVoice
