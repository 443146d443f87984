import AuroraVoice.ArenaLayout
import Mathlib.Algebra.Order.Group.Nat

namespace AuroraVoice

section Weight

variable {g : GraphInfo} {alignment firstNode lastNode : Nat}

/-- The tensors that get their place with node `i`, as a list. -/
def GraphInfo.queued (g : GraphInfo) (i : Nat) : List Nat :=
  (if i = 0 then g.variableTensors ++ g.inputs.reduceOption else []) ++
    match g.nodes[i]? with
    | some node => node.outputs.reduceOption ++ node.temporaries
    | none => []

theorem mem_queued {i t : Nat} : t ∈ g.queued i ↔ g.Queued i t := by
  have sources : (t ∈ if i = 0 then g.variableTensors ++ g.inputs.reduceOption else []) ↔ i = 0 ∧ g.Source t := by
    by_cases zero : i = 0
    · simp [zero, GraphInfo.Source, List.reduceOption_mem_iff]
    · simp [zero]
  unfold GraphInfo.queued GraphInfo.Queued GraphInfo.Produces GraphInfo.Temporary
  rw [List.mem_append, sources]
  cases g.nodes[i]? with
  | none => simp
  | some node => simp [List.reduceOption_mem_iff]

/-- The bytes of all tensors of the nodes before `n`, with their padding. -/
def GraphInfo.weight (g : GraphInfo) (alignment n : Nat) : Nat :=
  (((List.range n).flatMap g.queued).map fun t => alignment + (g.tensor t).bytes).sum

def GraphInfo.batchWeight (g : GraphInfo) (alignment firstNode lastNode : Nat) : Nat :=
  (((nodesFrom firstNode lastNode).flatMap g.queued).map fun t => alignment + (g.tensor t).bytes).sum

theorem weight_batch (g : GraphInfo) (alignment : Nat) (le : firstNode ≤ lastNode) :
    g.weight alignment (lastNode + 1) = g.weight alignment firstNode + g.batchWeight alignment firstNode lastNode := by
  have split : List.range (lastNode + 1) = List.range firstNode ++ nodesFrom firstNode lastNode := by
    have count : firstNode + (lastNode + 1 - firstNode) = lastNode + 1 := by omega
    rw [nodesFrom, List.range_eq_range', List.range_eq_range', ← count, ← List.range'_append_1, Nat.zero_add, count]
  unfold GraphInfo.weight GraphInfo.batchWeight
  rw [split, List.flatMap_append, List.map_append, List.sum_append]

/-- Different tensors of the nodes of a batch weigh no more than the batch. -/
theorem weight_nodup {l : List Nat} (nodup : l.Nodup)
    (sub : ∀ t ∈ l, t ∈ (nodesFrom firstNode lastNode).flatMap g.queued) (f : Nat → Nat) :
    (l.map f).sum ≤ (((nodesFrom firstNode lastNode).flatMap g.queued).map f).sum := by
  obtain ⟨k, perm, sublist⟩ := nodup.subperm sub
  calc (l.map f).sum = (k.map f).sum := (perm.map f).sum_eq.symm
    _ ≤ _ := (sublist.map f).sum_le_sum fun _ _ => Nat.zero_le _

theorem mem_nodesFrom {i : Nat} : i ∈ nodesFrom firstNode lastNode ↔ firstNode ≤ i ∧ i ≤ lastNode := by
  unfold nodesFrom
  rw [List.mem_range'_1]
  omega

end Weight

section Batch

variable {g : GraphInfo} {planner p : ArenaPlanner} {firstNode lastNode reached : Nat} {early : Nat → Prop}

def GraphInfo.QueuedBefore (g : GraphInfo) (n t : Nat) : Prop := ∃ i < n, g.Queued i t

/-- The planner between two batches: the tensors of the nodes before `firstNode` have their places, persistent ones
perhaps those of the nodes before `reached`, and the tables may know temporaries of later nodes. -/
structure BatchReady (g : GraphInfo) (planner : ArenaPlanner) (firstNode reached weight : Nat) (p : ArenaPlanner) : Prop where
  tabled : ∃ m, firstNode ≤ m ∧ Tabled g planner (g.TemporaryBefore m) p
  laid : Laid g planner.actualTensorId firstNode (g.QueuedBefore firstNode) (g.QueuedBefore reached) weight p
  cursor : firstNode = 0 ∨ p.lastActiveNode + 1 = firstNode

/-- The buffers are as large as the plans. -/
structure Committed (p : ArenaPlanner) : Prop where
  arena : p.arena.committed = true ∧ p.arena.highWaterMark ≤ p.arena.bufferSize
  persistentArena : p.persistentArena.committed = true ∧ p.persistentArena.highWaterMark ≤ p.persistentArena.bufferSize

theorem Planned.produced (planned : Planned g planner) (wf : g.WellFormed) {i t : Nat} (h : g.Produces i t) :
    planner.allocNode t = i := by
  have le := planned.allocated i t h
  have inside : i < g.nodes.length := by
    obtain ⟨node, hn, _⟩ := h
    exact (List.getElem?_eq_some_iff.mp hn).1
  have small := wf.small
  rcases planned.allocates t (by omega) with ⟨source, _⟩ | produces
  · exact absurd source (wf.fresh i t h)
  · exact wf.once _ _ t produces h

/-- A tensor is allocated from the node on that it gets its place with. -/
theorem Tabled.allocNode (wf : g.WellFormed) (planned : Planned g planner) {n i t : Nat}
    (h : Tabled g planner (g.TemporaryBefore n) p) (queued : t ∈ p.nodesToTensors i) : p.allocNode t = i := by
  have permanent : (∀ j, ¬ g.Temporary j t) → p.allocNode t = planner.allocNode t :=
    fun no => (h.others t fun j hj => no j hj.2).1
  rcases (h.queued i t).mp queued with ⟨rfl, source⟩ | produces | temp
  · rw [permanent fun j hj => (wf.temporary j t hj).1 source]
    exact planned.sourced t source
  · rw [permanent fun j hj => (wf.temporary j t hj).2.2 i produces]
    exact planned.produced wf produces
  · exact (h.temporaries i t temp).1

/-- The entry of the temporaries of later nodes changes nothing that has its place. -/
theorem Laid.tables {weight n m k : Nat} (h : Laid g planner.actualTensorId firstNode (g.QueuedBefore n) early weight p)
    (wf : g.WellFormed) {q : ArenaPlanner} (before : Tabled g planner (g.TemporaryBefore m) p)
    (after : Tabled g planner (g.TemporaryBefore k) q) (inside : n ≤ m) (le : m ≤ k) (same : p.SamePlan q) :
    Laid g planner.actualTensorId firstNode (g.QueuedBefore n) early weight q := by
  have tables : ∀ t, g.QueuedBefore n t → q.allocNode t = p.allocNode t ∧ q.deallocNode t = p.deallocNode t := by
    rintro t ⟨i, hi, queued⟩
    by_cases temp : g.Temporary i t
    · have old := before.temporaries i t ⟨by omega, temp⟩
      have new := after.temporaries i t ⟨by omega, temp⟩
      exact ⟨new.1.trans old.1.symm, new.2.trans old.2.symm⟩
    · have none : ∀ j, ¬ g.Temporary j t := by
        intro j hj
        have eq := wf.queued_once queued (Or.inr (Or.inr hj))
        exact temp (eq ▸ hj)
      have old := before.others t fun j hj => none j hj.2
      have new := after.others t fun j hj => none j hj.2
      exact ⟨new.1.trans old.1.symm, new.2.trans old.2.symm⟩
  unfold ArenaPlanner.SamePlan at same
  rw [same]
  refine ⟨h.rw, h.persistent, h.pos, h.aligned, fun t kind size => ?_, h.lasting, h.vacant, h.shares, h.places⟩
  obtain ⟨settled, interval⟩ := h.record t kind size
  obtain ⟨alloc, dealloc⟩ := tables t settled
  simp only [alloc, dealloc]
  exact ⟨settled, interval⟩

theorem ArenaHolds.forward {arena : SimpleMemoryArena} {allocs : Nat → ArenaAllocWithUsageInterval} {mine : Nat → Prop}
    {first next : Int} {weight : Nat} (h : ArenaHolds arena allocs mine first weight) (le : first ≤ next) :
    ArenaHolds arena allocs mine next weight :=
  ⟨h.sorted, h.bounded, h.mark, h.ends, h.compatible,
    fun t own size => (h.active t own size).imp_right fun gone => by omega, h.empty, h.tensor⟩

/-- After a batch: everything in it that needs a place has one. -/
theorem Laid.forward {weight more n : Nat} {settled : Nat → Prop}
    (h : Laid g planner.actualTensorId firstNode settled early weight p) (le : firstNode ≤ n) (heavier : weight ≤ more)
    (all : ∀ t, g.QueuedBefore n t → (g.tensor t).InArena → 0 < (g.tensor t).bytes → settled t)
    (only : ∀ t, settled t → g.QueuedBefore n t) (last : Nat) :
    Laid g planner.actualTensorId n (g.QueuedBefore n) early more { p with lastActiveNode := last } := by
  refine ⟨(h.rw.mono heavier).forward (by omega), h.persistent.mono heavier, h.pos, h.aligned, fun t kind size => ?_,
    fun t kind size => ?_, h.vacant, h.shares,
    fun t queued inArena size => h.places t (all t queued inArena size) inArena size⟩
  · obtain ⟨settled, interval⟩ := h.record t kind size
    exact ⟨only t settled, interval⟩
  · obtain ⟨before, place⟩ := h.lasting t kind size
    exact ⟨before.imp_left (only t), place⟩

theorem needsAllocation_iff {t : Nat} (empty : g.Rw t → (p.allocs t).size = 0) :
    p.needsAllocation g t = true ↔ g.Persistent t ∨ (g.Rw t ∧ 0 < (g.tensor t).bytes) := by
  unfold ArenaPlanner.needsAllocation GraphInfo.Persistent GraphInfo.Rw
  split
  next kind => simp [kind, empty kind]
  next kind => simp [kind]
  next rw' persistent =>
    constructor
    · intro h
      cases h
    · rintro (h | h)
      · exact (persistent h).elim
      · exact (rw' h.1).elim

/-- The arena that a batch starts with: cleared before the first one, purged before the others. -/
theorem Laid.open {weight : Nat} (h : Laid g planner.actualTensorId firstNode (g.QueuedBefore firstNode) early weight p)
    (cursor : firstNode = 0 ∨ p.lastActiveNode ≤ firstNode) :
    Laid g planner.actualTensorId firstNode (g.QueuedBefore firstNode) early weight { p with
      arena := if firstNode < p.lastActiveNode then p.arena.resetAllocs else p.arena.purgeActiveAllocs firstNode } := by
  have arena : ArenaHolds (if firstNode < p.lastActiveNode then p.arena.resetAllocs
      else p.arena.purgeActiveAllocs firstNode) p.allocs g.Rw firstNode weight := by
    split
    next back =>
      have start : firstNode = 0 := cursor.resolve_right (by omega)
      refine h.rw.reset fun t own => ?_
      by_contra size
      obtain ⟨⟨i, before, _⟩, _⟩ := h.record t own (Nat.pos_of_ne_zero size)
      omega
    next => exact h.rw.purge (Int.le_refl _)
  have buffer : (if firstNode < p.lastActiveNode then p.arena.resetAllocs
      else p.arena.purgeActiveAllocs firstNode).bufferAlignment = p.arena.bufferAlignment := by
    split <;> rfl
  exact ⟨arena, h.persistent, h.pos, ⟨buffer ▸ h.aligned.1, h.aligned.2⟩, h.record, h.lasting, h.vacant, h.shares, h.places⟩

theorem GraphInfo.WellFormed.queued_le (wf : g.WellFormed) {i t : Nat} (queued : g.Queued i t) : i ≤ kNodeNotAssigned := by
  have small := wf.small
  rcases queued with ⟨rfl, _⟩ | ⟨node, hn, _⟩ | ⟨node, hn, _⟩
  · exact Nat.zero_le _
  · have inside := (List.getElem?_eq_some_iff.mp hn).1
    omega
  · have inside := (List.getElem?_eq_some_iff.mp hn).1
    omega

/-- The tensors of a batch are different ones, new, and of the nodes of the batch. -/
theorem Tabled.batch {m : Nat} (wf : g.WellFormed) (planned : Planned g planner)
    (h : Tabled g planner (g.TemporaryBefore m) p) :
    (p.getTensorsToAllocate firstNode lastNode).Nodup ∧ ∀ t ∈ p.getTensorsToAllocate firstNode lastNode,
      ¬ g.QueuedBefore firstNode t ∧ Due firstNode p t ∧ ∃ i ∈ nodesFrom firstNode lastNode, g.Queued i t := by
  constructor
  · unfold ArenaPlanner.getTensorsToAllocate
    refine List.nodup_flatMap.mpr ⟨fun i _ => h.nodup i, ?_⟩
    refine List.Pairwise.imp_of_mem (fun {i j} _ _ ne => ?_) List.nodup_range'
    intro t hi hj
    exact ne ((h.allocNode wf planned hi).symm.trans (h.allocNode wf planned hj))
  · intro t mem
    obtain ⟨i, hi, ht⟩ := List.mem_flatMap.mp mem
    have first := (mem_nodesFrom.mp hi).1
    have queued : g.Queued i t := by
      rcases (h.queued i t).mp ht with source | produces | temp
      · exact Or.inl source
      · exact Or.inr (Or.inl produces)
      · exact Or.inr (Or.inr temp.2)
    refine ⟨?_, ?_, i, hi, queued⟩
    · rintro ⟨j, before, other⟩
      have eq := wf.queued_once queued other
      omega
    · unfold Due
      rw [h.allocNode wf planned ht]
      exact ⟨first, wf.queued_le queued⟩

theorem Laid.calculate {sort : (Nat → Nat → Bool) → List Nat → List Nat} (perm : ∀ lt l, (sort lt l).Perm l)
    (wf : g.WellFormed) (planned : Planned g planner) {weight m : Nat}
    (h : Laid g planner.actualTensorId firstNode (g.QueuedBefore firstNode) early weight p)
    (tabled : Tabled g planner (g.TemporaryBefore m) p) (le : firstNode ≤ lastNode) (entered : lastNode < m)
    (cursor : firstNode = 0 ∨ p.lastActiveNode ≤ firstNode)
    (fits : weight + g.batchWeight p.tensorAlignment firstNode lastNode < 2 ^ 64) :
    ∃ q l, p.calculateAllocations sort g firstNode lastNode = some (q, l) ∧ SameTables p q ∧ q.lastActiveNode = lastNode ∧
      Laid g planner.actualTensorId (lastNode + 1) (g.QueuedBefore (lastNode + 1)) early
        (weight + g.batchWeight p.tensorAlignment firstNode lastNode) q := by
  obtain ⟨nodup, members⟩ : (p.getTensorsToAllocate firstNode lastNode).Nodup ∧ _ := tabled.batch wf planned
  set batch := (p.getTensorsToAllocate firstNode lastNode).filter (p.needsAllocation g) with hbatch
  have grow : ∀ t, g.QueuedBefore firstNode t → g.QueuedBefore (lastNode + 1) t := by
    rintro t ⟨i, before, queued⟩
    exact ⟨i, by omega, queued⟩
  have unplaced : ∀ t, ¬ g.QueuedBefore firstNode t → g.Rw t → (p.allocs t).size = 0 := by
    intro t new kind
    by_contra size
    exact new (h.record t kind (Nat.pos_of_ne_zero size)).1
  have fresh : ∀ t ∈ batch, ¬ g.QueuedBefore firstNode t ∧ (g.tensor t).InArena ∧ Due firstNode p t := by
    intro t ht
    obtain ⟨mem, needs⟩ := List.mem_filter.mp ht
    obtain ⟨new, due, _⟩ := members t mem
    rcases (needsAllocation_iff (unplaced t new)).mp needs with persistent | rw'
    · exact ⟨new, Or.inr persistent, due⟩
    · exact ⟨new, Or.inl rw'.1, due⟩
  -- whatever needs a place is in the batch
  have all : ∀ t, g.QueuedBefore (lastNode + 1) t → (g.tensor t).InArena → 0 < (g.tensor t).bytes →
      g.QueuedBefore firstNode t ∨ t ∈ batch := by
    rintro t ⟨i, hi, queued⟩ inArena size
    by_cases before : g.QueuedBefore firstNode t
    · exact Or.inl before
    · have first : firstNode ≤ i := by
        by_contra low
        exact before ⟨i, by omega, queued⟩
      have here : t ∈ p.nodesToTensors i := (tabled.queued i t).mpr
        (queued.imp_right (Or.imp_right fun temp => ⟨by omega, temp⟩))
      have mem : t ∈ p.getTensorsToAllocate firstNode lastNode :=
        List.mem_flatMap.mpr ⟨i, mem_nodesFrom.mpr ⟨first, by omega⟩, here⟩
      refine Or.inr (List.mem_filter.mpr ⟨mem, (needsAllocation_iff (unplaced t before)).mpr ?_⟩)
      rcases inArena with rw' | persistent
      · exact Or.inr ⟨rw', size⟩
      · exact Or.inl persistent
  have only : ∀ t ∈ batch, g.QueuedBefore (lastNode + 1) t := by
    intro t ht
    obtain ⟨_, _, i, hi, queued⟩ := members t (List.mem_filter.mp ht).1
    have last := (mem_nodesFrom.mp hi).2
    exact ⟨i, by omega, queued⟩
  unfold ArenaPlanner.calculateAllocations
  dsimp only
  rw [← hbatch]
  by_cases empty : batch = []
  · rw [if_pos empty]
    refine ⟨_, [], rfl, ⟨rfl, rfl, rfl, rfl, rfl⟩, rfl, h.forward (by omega) (by omega) (fun t queued inArena size => ?_)
      grow lastNode⟩
    rcases all t queued inArena size with before | now
    · exact before
    · rw [empty] at now
      cases now
  · rw [if_neg empty]
    set order := sort (p.tensorCompare g) batch with horder
    have same : order.Perm batch := perm _ _
    have weights : (order.map fun t => p.tensorAlignment + (g.tensor t).bytes).sum ≤
        g.batchWeight p.tensorAlignment firstNode lastNode := by
      refine weight_nodup (same.nodup_iff.mpr (nodup.filter _)) (fun t ht => ?_) _
      obtain ⟨_, _, i, hi, queued⟩ := members t (List.mem_filter.mp (same.mem_iff.mp ht)).1
      exact List.mem_flatMap.mpr ⟨i, hi, mem_queued.mpr queued⟩
    obtain ⟨q, run, tables, laid⟩ := (h.open cursor).allocateTensors (l := order)
      (same.nodup_iff.mpr (nodup.filter _)) (fun t ht => fresh t (same.mem_iff.mp ht)) (by simp only; omega)
    simp only [run, Option.bind_eq_bind, Option.bind_some]
    refine ⟨_, order, rfl, ⟨tables.allocNode, tables.deallocNode, tables.nodesToTensors, tables.tensorAlignment,
      tables.preserve⟩, rfl, laid.forward (by omega) (by simp only; omega) (fun t queued inArena size => ?_) ?_ lastNode⟩
    · exact (all t queued inArena size).imp_right same.mem_iff.mpr
    · intro t ht
      exact ht.elim (grow t) fun mem => only t (same.mem_iff.mp mem)

theorem resolveAlloc_holds {arena : SimpleMemoryArena} {allocs : Nat → ArenaAllocWithUsageInterval}
    {mine : Nat → Prop} {first : Int} {weight t : Nat} (h : ArenaHolds arena allocs mine first weight) (own : mine t)
    (fits : weight < 2 ^ 64) (committed : arena.committed = true ∧ arena.highWaterMark ≤ arena.bufferSize) :
    arena.resolveAlloc (allocs t) = some (if (allocs t).size = 0 then none else some (allocs t).offset) := by
  have ends := h.ends t own
  have mark := h.mark
  refine if_pos ⟨committed.1, ?_⟩
  rw [wrap_of_lt (by omega)]
  omega

/-- Every tensor resolves. -/
theorem Laid.resolves {planned : Nat → Option Nat} {settled : Nat → Prop} {weight : Nat}
    (h : Laid g planned firstNode settled early weight p) (committed : Committed p) (fits : weight < 2 ^ 64) (fuel t : Nat) :
    (p.resolveTensorAllocation g (fuel + 1) t).isSome = true := by
  unfold ArenaPlanner.resolveTensorAllocation
  dsimp only
  split
  next => rfl
  next =>
    split
    next kind =>
      split
      next => rw [resolveAlloc_holds h.rw kind fits committed.arena]; rfl
      next => rfl
    next kind => rw [resolveAlloc_holds h.persistent kind fits committed.persistentArena]; rfl
    next => rfl

theorem Committed.commit (p : ArenaPlanner) : Committed p.commit :=
  ⟨⟨rfl, Nat.le_max_right _ _⟩, ⟨rfl, Nat.le_max_right _ _⟩⟩

theorem ArenaHolds.commit {arena : SimpleMemoryArena} {allocs : Nat → ArenaAllocWithUsageInterval} {mine : Nat → Prop}
    {first : Int} {weight : Nat} (h : ArenaHolds arena allocs mine first weight) :
    ArenaHolds arena.commit allocs mine first weight :=
  ⟨h.sorted, h.bounded, h.mark, h.ends, h.compatible, h.active, h.empty, h.tensor⟩

theorem Laid.commit {planned : Nat → Option Nat} {settled : Nat → Prop} {weight : Nat}
    (h : Laid g planned firstNode settled early weight p) : Laid g planned firstNode settled early weight p.commit :=
  ⟨h.rw.commit, h.persistent.commit, h.pos, h.aligned, h.record, h.lasting, h.vacant, h.shares, h.places⟩

theorem Tabled.same {done : Nat → Nat → Prop} {q : ArenaPlanner} (h : Tabled g planner done p) (same : SameTables p q) :
    Tabled g planner done q := by
  refine ⟨h.entered, fun i t => ?_, fun i => ?_, same.preserve.trans h.preserve, fun t no => ?_, fun i t temp => ?_⟩
  · rw [same.nodesToTensors]
    exact h.queued i t
  · rw [same.nodesToTensors]
    exact h.nodup i
  · rw [same.allocNode, same.deallocNode]
    exact h.others t no
  · rw [same.allocNode, same.deallocNode]
    exact h.temporaries i t temp

/-- One `ExecuteAllocations`. -/
theorem BatchReady.execute {sort : (Nat → Nat → Bool) → List Nat → List Nat} (perm : ∀ lt l, (sort lt l).Perm l)
    (wf : g.WellFormed) (planned : Planned g planner) {weight : Nat} (h : BatchReady g planner firstNode reached weight p)
    (le : firstNode ≤ lastNode) (fits : weight + g.batchWeight p.tensorAlignment firstNode lastNode < 2 ^ 64) :
    ∃ q, p.executeAllocations sort g firstNode lastNode = some q ∧
      BatchReady g planner (lastNode + 1) reached (weight + g.batchWeight p.tensorAlignment firstNode lastNode) q ∧ Committed q ∧
      q.tensorAlignment = p.tensorAlignment := by
  obtain ⟨m, inside, before⟩ := h.tabled
  obtain ⟨tabled, same⟩ := before.planTemporaries wf inside le
  set mid := p.planTemporaries g firstNode lastNode with hmid
  have alignment : mid.tensorAlignment = p.tensorAlignment := by rw [same]
  have active : mid.lastActiveNode = p.lastActiveNode := by rw [same]
  have laid := h.laid.tables wf before tabled inside (Nat.le_max_left _ _) same
  have cursor : firstNode = 0 ∨ mid.lastActiveNode ≤ firstNode := by
    rw [active]
    exact h.cursor.imp_right fun last => by omega
  rw [← alignment] at fits ⊢
  obtain ⟨q, l, eq, tables, last, done⟩ := laid.calculate perm wf planned tabled le (by omega) cursor fits
  have resolves : ∀ t, (q.commit.tensorData g t).isSome = true := fun t =>
    done.commit.resolves (Committed.commit q) fits g.tensors.length t
  have kept : SameTables mid q.commit :=
    ⟨tables.allocNode, tables.deallocNode, tables.nodesToTensors, tables.tensorAlignment, tables.preserve⟩
  refine ⟨q.commit, ?_, ⟨⟨_, Nat.le_max_right _ _, tabled.same kept⟩, done.commit, Or.inr ?_⟩, Committed.commit q,
    tables.tensorAlignment⟩
  · unfold ArenaPlanner.executeAllocations
    simp only [← hmid, eq, Option.bind_eq_bind, Option.bind_some]
    exact if_pos (List.all_eq_true.mpr fun t _ => resolves t)
  · show q.lastActiveNode + 1 = lastNode + 1
    rw [last]

/-- The execution plan in batches: each `last` ends one, and the next begins after it. -/
def ArenaPlanner.executeBatches (sort : (Nat → Nat → Bool) → List Nat → List Nat) (g : GraphInfo) (firstNode : Nat) :
    List Nat → ArenaPlanner → Option ArenaPlanner
  | [], p => some p
  | last :: lasts, p => do executeBatches sort g (last + 1) lasts (← p.executeAllocations sort g firstNode last)

/-- The batches cover the nodes from `firstNode` up to `n`. -/
def Batches (n : Nat) : Nat → List Nat → Prop
  | firstNode, [] => firstNode = n
  | firstNode, last :: lasts => firstNode ≤ last ∧ Batches n (last + 1) lasts

theorem Batches.le {n : Nat} {lasts : List Nat} (h : Batches n firstNode lasts) : firstNode ≤ n := by
  induction lasts generalizing firstNode with
  | nil => exact h.le
  | cons last lasts ih =>
    have rest := ih h.2
    have first := h.1
    omega

theorem weight_mono (g : GraphInfo) (alignment : Nat) {m n : Nat} (le : m ≤ n) :
    g.weight alignment m ≤ g.weight alignment n := by
  cases n with
  | zero =>
    obtain rfl : m = 0 := by omega
    exact Nat.le_refl _
  | succ n =>
    by_cases eq : m = n + 1
    · rw [eq]
    · rw [weight_batch g alignment (show m ≤ n by omega)]
      exact Nat.le_add_right _ _

theorem BatchReady.batches {sort : (Nat → Nat → Bool) → List Nat → List Nat} (perm : ∀ lt l, (sort lt l).Perm l)
    (wf : g.WellFormed) (planned : Planned g planner) {n : Nat} {lasts : List Nat}
    (h : BatchReady g planner firstNode 0 (g.weight p.tensorAlignment firstNode) p)
    (covers : Batches n firstNode lasts) (fits : g.weight p.tensorAlignment n < 2 ^ 64) (begun : firstNode = n → Committed p) :
    ∃ q, ArenaPlanner.executeBatches sort g firstNode lasts p = some q ∧
      BatchReady g planner n 0 (g.weight p.tensorAlignment n) q ∧ Committed q ∧ q.tensorAlignment = p.tensorAlignment := by
  induction lasts generalizing p firstNode with
  | nil => exact ⟨p, rfl, covers ▸ h, begun covers, rfl⟩
  | cons last lasts ih =>
    have weight := weight_mono g p.tensorAlignment covers.2.le
    have total := weight_batch g p.tensorAlignment covers.1
    obtain ⟨mid, eq, ready, committed, alignment⟩ := h.execute perm wf planned covers.1 (by omega)
    rw [← total, ← alignment] at ready
    obtain ⟨q, run, done⟩ := ih ready covers.2 (alignment ▸ fits) fun _ => committed
    refine ⟨q, by simp [ArenaPlanner.executeBatches, eq, run], alignment ▸ done.1, done.2.1, done.2.2.trans alignment⟩

end Batch

end AuroraVoice
