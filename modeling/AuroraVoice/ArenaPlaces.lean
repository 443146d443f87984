import AuroraVoice.ArenaBatches

namespace AuroraVoice

/-- Where the bytes of a tensor are. -/
def ArenaPlanner.addresses (p : ArenaPlanner) (g : GraphInfo) (t : Nat) : List (Buffer × Nat) :=
  match p.tensorData g t with
  | some (some (buffer, offset)) => (List.range (g.tensor t).bytes).map fun k => (buffer, offset + k)
  | _ => []

section Start

variable {g : GraphInfo} {p q : ArenaPlanner}

theorem arenaHolds_reset (arena : SimpleMemoryArena) (mine : Nat → Prop) (weight : Nat) :
    ArenaHolds arena.clearPlan (fun _ => .reset) mine 0 weight := by
  have empty : ArenaAllocWithUsageInterval.reset.size = 0 := rfl
  exact ⟨.nil, nofun, Nat.zero_le _, fun _ _ => Nat.zero_le _, fun _ _ _ _ _ => compatible_of_empty rfl rfl,
    fun _ _ size => absurd size (by omega), fun _ _ _ => rfl, fun _ _ size => absurd size (by omega)⟩

/-- `PlanAllocations` leaves the planner ready for the first batch. -/
theorem Replanned.ready (planned : Planned g q) (fresh : Replanned g p q) (pos : 0 < p.tensorAlignment)
    (aligned : p.tensorAlignment ≤ p.arena.bufferAlignment ∧ p.tensorAlignment ≤ p.persistentArena.bufferAlignment)
    (weight : Nat) : BatchReady g q 0 0 weight q := by
  have none : ∀ i t, ¬ g.TemporaryBefore 0 i t := fun i t h => absurd h.1 (Nat.not_lt_zero i)
  have empty : ∀ t, (q.allocs t).size = 0 := by
    intro t
    rw [fresh.allocs]
    rfl
  have tabled : Tabled g q (g.TemporaryBefore 0) q := by
    refine ⟨fun i t h => absurd h (none i t), fun i t => ?_, planned.nodup, rfl, fun t _ => ⟨rfl, rfl⟩,
      fun i t h => absurd h (none i t)⟩
    rw [planned.queued]
    simp [none]
  refine ⟨⟨0, Nat.le_refl 0, tabled⟩, ⟨?_, ?_, ?_, ?_, fun t _ size => ?_, fun t _ size => ?_, fun t _ => ?_,
    fun t => Or.inl rfl, ?_⟩, Or.inl rfl⟩
  · rw [fresh.arena, fresh.allocs]
    exact arenaHolds_reset _ _ _
  · rw [fresh.persistentArena, fresh.allocs]
    exact arenaHolds_reset _ _ _
  · rw [fresh.tensorAlignment]
    exact pos
  · rw [fresh.tensorAlignment, fresh.arena, fresh.persistentArena]
    exact aligned
  · have zero := empty t
    omega
  · have zero := empty t
    omega
  · rw [fresh.allocs]
  · rintro t ⟨i, before, _⟩
    omega

end Start

section Places

variable {g : GraphInfo} {planner p : ArenaPlanner} {n : Nat}

/-- A plan of a well-formed graph that all its tensors have got their places in. -/
structure Placed (g : GraphInfo) (planner p : ArenaPlanner) (n : Nat) : Prop where
  wf : g.WellFormed
  safe : g.InPlaceSafe
  planned : Planned g planner
  shares : Shares g g.nodes.length planner.actualTensorId
  tabled : Tabled g planner (g.TemporaryBefore n) p
  laid : Laid g planner.actualTensorId n (g.QueuedBefore n) (fun _ => True) (2 ^ 64 - 1) p
  committed : Committed p
  covers : 0 < n ∧ g.nodes.length ≤ n

/-- All temporaries are entered once the nodes are placed. -/
theorem BatchReady.placed (wf : g.WellFormed) (safe : g.InPlaceSafe) (planned : Planned g planner)
    (shares : Shares g g.nodes.length planner.actualTensorId) {reached weight : Nat} (ready : BatchReady g planner n reached weight p)
    (fits : weight < 2 ^ 64) (committed : Committed p) (covers : 0 < n ∧ g.nodes.length ≤ n) : Placed g planner p n := by
  obtain ⟨m, le, tabled⟩ := ready.tabled
  have all : g.TemporaryBefore m = g.TemporaryBefore n := by
    funext i t
    apply propext
    constructor
    · rintro ⟨_, node, hn, mem⟩
      have inside := (List.getElem?_eq_some_iff.mp hn).1
      exact ⟨by omega, node, hn, mem⟩
    · exact fun h => ⟨by have := h.1; omega, h.2⟩
  exact ⟨wf, safe, planned, shares, all ▸ tabled, (ready.laid.mono (by omega)).sooner fun _ _ => trivial, committed, covers⟩

/-- The tensor has a value at some time: a source, the output of a node, or a temporary. -/
def GraphInfo.Appears (g : GraphInfo) (t : Nat) : Prop := ∃ i, g.Queued i t

theorem Placed.queuedBefore (h : Placed g planner p n) {t : Nat} (appears : g.Appears t) : g.QueuedBefore n t := by
  obtain ⟨i, queued⟩ := appears
  have covers := h.covers
  refine ⟨i, ?_, queued⟩
  rcases queued with ⟨rfl, _⟩ | ⟨node, hn, _⟩ | ⟨node, hn, _⟩
  · exact covers.1
  · have inside := (List.getElem?_eq_some_iff.mp hn).1
    omega
  · have inside := (List.getElem?_eq_some_iff.mp hn).1
    omega

/-- The owner of a buffer that is still shared is in the arena, has the same size and shares none itself. -/
theorem Placed.owner (h : Placed g planner p n) {t r : Nat} (share : p.actualTensorId t = some r)
    (rw' : g.Rw r) : planner.actualTensorId t = some r ∧ p.actualTensorId r = none ∧ g.Appears r := by
  have plan : planner.actualTensorId t = some r := by
    rcases h.laid.shares t with same | gone
    · exact same.symm.trans share
    · cases gone.symm.trans share
  obtain ⟨owner, i, x, node, k, _, _, _, ⟨j, _, read⟩, _⟩ := h.shares t r plan
  have free : p.actualTensorId r = none := by
    rcases h.laid.shares r with same | gone
    · exact same.trans owner
    · exact gone
  refine ⟨plan, free, ?_⟩
  rcases h.wf.available r (Or.inl ⟨j, read⟩) (Or.inl rw') with source | ⟨m, produces⟩
  · exact ⟨0, Or.inl ⟨rfl, source⟩⟩
  · exact ⟨m, Or.inr (Or.inl produces)⟩

/-- The output of an in-place operator is not in the persistent arena. -/
theorem Placed.inplace_kind (h : Placed g planner p n) {t r : Nat} (share : planner.actualTensorId t = some r) :
    ¬ g.Persistent t := by
  obtain ⟨_, i, x, node, k, _, place, _⟩ := h.shares t r share
  exact h.safe.kind node (List.mem_of_getElem? place.position) place.flag t place.output

theorem lt_tensors_of_rw {t : Nat} (rw' : g.Rw t) : t < g.tensors.length := by
  by_contra out
  unfold GraphInfo.Rw GraphInfo.tensor at rw'
  rw [List.getD_eq_getElem?_getD, List.getElem?_eq_none (by omega)] at rw'
  cases rw'

/-- The bytes of an arena tensor are those of the alloc of its owner. -/
theorem Placed.addresses_rw (h : Placed g planner p n) {t : Nat} (appears : g.Appears t) (rw' : g.Rw t)
    (size : 0 < (g.tensor t).bytes) :
    g.Rw (p.findSharedTensor t) ∧ (p.allocs (p.findSharedTensor t)).size = (g.tensor t).bytes ∧
      p.addresses g t = (List.range (g.tensor t).bytes).map fun k =>
        (Buffer.arena, (p.allocs (p.findSharedTensor t)).offset + k) := by
  have laid := h.laid
  -- a tensor that owns its buffer
  have own : ∀ u, g.Rw u → p.actualTensorId u = none → (p.allocs u).size = (g.tensor t).bytes → ∀ fuel,
      p.resolveTensorAllocation g (fuel + 1) u = some (some (.arena, (p.allocs u).offset)) := by
    intro u kind free same fuel
    have self : p.findSharedTensor u = u := by rw [ArenaPlanner.findSharedTensor, free, Option.getD_none]
    have kind' : (g.tensor u).allocationType = .arenaRw := kind
    have nonzero : (p.allocs u).size ≠ 0 := by omega
    unfold ArenaPlanner.resolveTensorAllocation
    simp only [self, ne_eq, not_true_eq_false, false_and, if_false, kind', nonzero, not_false_eq_true, if_true]
    rw [resolveAlloc_holds laid.rw kind (by omega) h.committed.arena, if_neg nonzero]
    rfl
  rcases laid.places t (h.queuedBefore appears) (Or.inl rw') size with ⟨r, share, kind, bytes⟩ | ⟨free, same⟩
  · obtain ⟨_, freeOwner, appearsOwner⟩ := h.owner share kind
    have root : p.findSharedTensor t = r := by rw [ArenaPlanner.findSharedTensor, share, Option.getD_some]
    have other : r ≠ t := by
      rintro rfl
      cases freeOwner.symm.trans share
    have sizeOwner : (p.allocs r).size = (g.tensor t).bytes := by
      rcases laid.places r (h.queuedBefore appearsOwner) (Or.inl kind) (by omega) with ⟨s, again, _⟩ | ⟨_, same⟩
      · cases freeOwner.symm.trans again
      · exact same.trans bytes
    obtain ⟨fuel, hfuel⟩ : ∃ fuel, g.tensors.length = fuel + 1 :=
      ⟨g.tensors.length - 1, by have := lt_tensors_of_rw rw'; omega⟩
    have kindOwner : (g.tensor r).allocationType = .arenaRw := kind
    have kindTensor : (g.tensor t).allocationType = .arenaRw := rw'
    have data : p.tensorData g t = some (some (.arena, (p.allocs r).offset)) := by
      unfold ArenaPlanner.tensorData
      rw [hfuel, ArenaPlanner.resolveTensorAllocation, root, own r kind freeOwner sizeOwner fuel]
      simp [other, areTensorsAllocatedInSameArena, kindOwner, kindTensor]
    rw [root, ArenaPlanner.addresses, data]
    exact ⟨kind, sizeOwner, rfl⟩
  · have root : p.findSharedTensor t = t := by rw [ArenaPlanner.findSharedTensor, free, Option.getD_none]
    have data : p.tensorData g t = some (some (.arena, (p.allocs t).offset)) := own t rw' free same _
    rw [root, ArenaPlanner.addresses, data]
    exact ⟨rw', same, rfl⟩

theorem Placed.addresses_persistent (h : Placed g planner p n) {t : Nat} (appears : g.Appears t)
    (kind : g.Persistent t) (size : 0 < (g.tensor t).bytes) :
    (p.allocs t).size = (g.tensor t).bytes ∧
      p.addresses g t = (List.range (g.tensor t).bytes).map fun k =>
        (Buffer.persistentArena, (p.allocs t).offset + k) := by
  have laid := h.laid
  have kind' : (g.tensor t).allocationType = .arenaRwPersistent := kind
  have free : p.actualTensorId t = none := by
    rcases laid.shares t with same | gone
    · cases plan : planner.actualTensorId t with
      | none => exact same.trans plan
      | some r => exact absurd kind (h.inplace_kind plan)
    · exact gone
  have same : (p.allocs t).size = (g.tensor t).bytes := by
    rcases laid.places t (h.queuedBefore appears) (Or.inr kind) size with ⟨r, share, _⟩ | ⟨_, same⟩
    · cases free.symm.trans share
    · exact same
  have self : p.findSharedTensor t = t := by rw [ArenaPlanner.findSharedTensor, free, Option.getD_none]
  have nonzero : (p.allocs t).size ≠ 0 := by omega
  have data : p.tensorData g t = some (some (.persistentArena, (p.allocs t).offset)) := by
    unfold ArenaPlanner.tensorData ArenaPlanner.resolveTensorAllocation
    simp only [self, ne_eq, not_true_eq_false, false_and, if_false, kind']
    rw [resolveAlloc_holds laid.persistent kind (by omega) h.committed.persistentArena, if_neg nonzero]
    rfl
  rw [ArenaPlanner.addresses, data]
  exact ⟨same, rfl⟩

theorem addresses_own (p : ArenaPlanner) {t : Nat} (outside : ¬ (g.tensor t).InArena) :
    p.addresses g t = (List.range (g.tensor t).bytes).map fun k => (Buffer.own t, 0 + k) := by
  have rw' : (g.tensor t).allocationType ≠ .arenaRw := fun kind => outside (Or.inl kind)
  have persistent : (g.tensor t).allocationType ≠ .arenaRwPersistent := fun kind => outside (Or.inr kind)
  have apart : areTensorsAllocatedInSameArena g (p.findSharedTensor t) t = false := by
    simp [areTensorsAllocatedInSameArena, rw', persistent]
  have data : p.tensorData g t = some (some (.own t, 0)) := by
    unfold ArenaPlanner.tensorData ArenaPlanner.resolveTensorAllocation
    simp only [apart, Bool.false_eq_true, and_false, if_false]
  rw [ArenaPlanner.addresses, data]

theorem addresses_empty (p : ArenaPlanner) {t : Nat} (empty : (g.tensor t).bytes = 0) : p.addresses g t = [] := by
  unfold ArenaPlanner.addresses
  rw [empty]
  split <;> rfl

/-- Two runs of bytes in one buffer. -/
theorem ranges_disjoint {buffer : Buffer} {a b m k : Nat} (h : a + m ≤ b ∨ b + k ≤ a) :
    ((List.range m).map fun j => (buffer, a + j)).Disjoint ((List.range k).map fun j => (buffer, b + j)) := by
  intro x hx hy
  simp only [List.mem_map, List.mem_range] at hx hy
  obtain ⟨i, hi, rfl⟩ := hx
  obtain ⟨j, hj, eq⟩ := hy
  have offsets : b + j = a + i := (Prod.mk.inj eq).2
  omega

theorem buffers_disjoint {x y : Buffer} (ne : x ≠ y) (a b m k : Nat) :
    ((List.range m).map fun j => (x, a + j)).Disjoint ((List.range k).map fun j => (y, b + j)) := by
  intro z hx hy
  simp only [List.mem_map] at hx hy
  obtain ⟨i, _, rfl⟩ := hx
  obtain ⟨j, _, eq⟩ := hy
  exact ne (Prod.mk.inj eq).1.symm

/-- Where a tensor with bytes lies. -/
inductive Lies (g : GraphInfo) (p : ArenaPlanner) (t : Nat) : Buffer → Nat → Prop
  | arena : g.Rw t → g.Rw (p.findSharedTensor t) → (p.allocs (p.findSharedTensor t)).size = (g.tensor t).bytes →
    Lies g p t .arena (p.allocs (p.findSharedTensor t)).offset
  | persistentArena : g.Persistent t → (p.allocs t).size = (g.tensor t).bytes →
    Lies g p t .persistentArena (p.allocs t).offset
  | own : Lies g p t (.own t) 0

/-- Constants have memory of their own; all other tensors have their place once they appear. -/
def GraphInfo.Located (g : GraphInfo) (t : Nat) : Prop := ¬ (g.tensor t).InArena ∨ g.Appears t

theorem Placed.lies (h : Placed g planner p n) {t : Nat} (located : g.Located t) (size : 0 < (g.tensor t).bytes) :
    ∃ buffer offset, Lies g p t buffer offset ∧
      p.addresses g t = (List.range (g.tensor t).bytes).map fun k => (buffer, offset + k) := by
  by_cases inside : (g.tensor t).InArena
  · have appears := located.resolve_left (not_not_intro inside)
    rcases inside with kind | kind
    · obtain ⟨owner, same, place⟩ := h.addresses_rw appears kind size
      exact ⟨_, _, .arena kind owner same, place⟩
    · obtain ⟨same, place⟩ := h.addresses_persistent appears kind size
      exact ⟨_, _, .persistentArena kind same, place⟩
  · exact ⟨_, _, .own, addresses_own p inside⟩

theorem Placed.allocNode (h : Placed g planner p n) {i t : Nat} (queued : g.Queued i t) :
    p.allocNode t = i ∧ i ≤ kNodeNotAssigned := by
  obtain ⟨j, before, other⟩ := h.queuedBefore ⟨i, queued⟩
  obtain rfl := h.wf.queued_once queued other
  have mem : t ∈ p.nodesToTensors i := (h.tabled.queued i t).mpr
    (queued.imp_right (Or.imp_right fun temp => ⟨before, temp⟩))
  exact ⟨h.tabled.allocNode h.wf h.planned mem, h.wf.queued_le queued⟩

/-- The buffer of the tensor is in use at node `i`. -/
def AliveAt (p : ArenaPlanner) (i t : Nat) : Prop :=
  (p.allocs t).firstNode ≤ (i : Int) ∧ (i : Int) ≤ (p.allocs t).lastNode

/-- Two tensors whose buffers are different and in use at one node have no byte in common. -/
theorem Placed.disjoint (h : Placed g planner p n) {t u i : Nat} (ht : g.Located t) (hu : g.Located u) (ne : t ≠ u)
    (apart : g.Rw t → g.Rw u → 0 < (g.tensor t).bytes → 0 < (g.tensor u).bytes →
      AliveAt p i (p.findSharedTensor t) ∧ AliveAt p i (p.findSharedTensor u) ∧
        p.findSharedTensor t ≠ p.findSharedTensor u) :
    (p.addresses g t).Disjoint (p.addresses g u) := by
  by_cases emptyT : (g.tensor t).bytes = 0
  · rw [addresses_empty p emptyT]
    exact List.disjoint_nil_left _
  by_cases emptyU : (g.tensor u).bytes = 0
  · rw [addresses_empty p emptyU]
    exact List.disjoint_nil_right _
  have posT := Nat.pos_of_ne_zero emptyT
  have posU := Nat.pos_of_ne_zero emptyU
  obtain ⟨x, a, liesT, placeT⟩ := h.lies ht posT
  obtain ⟨y, b, liesU, placeU⟩ := h.lies hu posU
  rw [placeT, placeU]
  by_cases same : x = y
  · subst same
    cases liesT with
    | arena kindT ownerT sizeT =>
      cases liesU with
      | arena kindU ownerU sizeU =>
        obtain ⟨aliveT, aliveU, owners⟩ := apart kindT kindU posT posU
        have clear := h.laid.rw.compatible _ _ ownerT ownerU owners
          ⟨aliveU.1.trans aliveT.2, aliveT.1.trans aliveU.2⟩
        unfold ArenaAllocWithUsageInterval.Clear at clear
        exact ranges_disjoint (by omega)
    | persistentArena kindT sizeT =>
      cases liesU with
      | persistentArena kindU sizeU =>
        have recordT := (h.laid.lasting t kindT (by omega)).2.2
        have recordU := (h.laid.lasting u kindU (by omega)).2.2
        have clear := h.laid.persistent.compatible t u kindT kindU ne ⟨by omega, by omega⟩
        unfold ArenaAllocWithUsageInterval.Clear at clear
        exact ranges_disjoint (by omega)
    | own =>
      cases liesU
      exact absurd rfl ne
  · exact buffers_disjoint same a b _ _

/-- Tensors with one owner lie at the same place. -/
theorem Placed.same_place (h : Placed g planner p n) {t u : Nat} (ht : g.Appears t) (hu : g.Appears u) (kindT : g.Rw t)
    (kindU : g.Rw u) (posT : 0 < (g.tensor t).bytes) (posU : 0 < (g.tensor u).bytes)
    (owner : p.findSharedTensor t = p.findSharedTensor u) : p.addresses g t = p.addresses g u := by
  obtain ⟨_, sizeT, placeT⟩ := h.addresses_rw ht kindT posT
  obtain ⟨_, sizeU, placeU⟩ := h.addresses_rw hu kindU posU
  rw [placeT, placeU, ← sizeT, ← sizeU, owner]

end Places

section Alive

variable {g : GraphInfo} {planner p : ArenaPlanner} {n : Nat}

theorem Placed.no_temporary (h : Placed g planner p n) {t : Nat} (used : g.Used t) : ∀ i, ¬ g.Temporary i t :=
  fun i temp => (h.wf.temporary i t temp).2.1 used

/-- What is read in a buffer is read in its owner. -/
theorem Placed.used_of_read (h : Placed g planner p n) {u r j : Nat} (reads : g.Reads j u)
    (root : planner.findSharedTensor u = r) : g.Used r := by
  unfold ArenaPlanner.findSharedTensor at root
  cases plan : planner.actualTensorId u with
  | none =>
    rw [plan, Option.getD_none] at root
    exact Or.inl ⟨j, root ▸ reads⟩
  | some s =>
    rw [plan, Option.getD_some] at root
    obtain ⟨_, _, _, _, _, _, _, _, ⟨k, _, read⟩, _⟩ := h.shares u s plan
    exact Or.inl ⟨k, root ▸ read⟩

/-- The owner of the buffer is the one of the plan, or the tensor itself. -/
theorem Placed.owner_cases (h : Placed g planner p n) (t : Nat) :
    p.findSharedTensor t = t ∨ ∃ r, r ≠ t ∧ p.findSharedTensor t = r ∧ planner.actualTensorId t = some r := by
  unfold ArenaPlanner.findSharedTensor
  rcases h.laid.shares t with same | gone
  · rw [same]
    cases plan : planner.actualTensorId t with
    | none => exact Or.inl rfl
    | some r =>
      refine Or.inr ⟨r, ?_, rfl, rfl⟩
      rintro rfl
      cases (h.shares r r plan).1.symm.trans plan
  · rw [gone]
    exact Or.inl rfl

/-- A tensor that shares a buffer, and its owner, were there before the node that writes it ended. -/
theorem Placed.shared (h : Placed g planner p n) {t r : Nat} (plan : planner.actualTensorId t = some r) (kind : g.Rw r) :
    ∃ i x node k, InPlace g i x t node k ∧ planner.findSharedTensor x = r ∧ g.Used r ∧ ∃ m ≤ i, g.Queued m r := by
  obtain ⟨_, i, x, node, k, _, place, root, ⟨j, hj, read⟩, _⟩ := h.shares t r plan
  refine ⟨i, x, node, k, place, root, Or.inl ⟨j, read⟩, ?_⟩
  rcases h.wf.available r (Or.inl ⟨j, read⟩) (Or.inl kind) with source | ⟨m, produces⟩
  · exact ⟨0, Nat.zero_le _, Or.inl ⟨rfl, source⟩⟩
  · have before := h.wf.earlier j m r read produces
    exact ⟨m, by omega, Or.inr (Or.inl produces)⟩

theorem Placed.permanent_dealloc (h : Placed g planner p n) {t : Nat} (permanent : ∀ i, ¬ g.Temporary i t) :
    p.deallocNode t = planner.deallocNode t :=
  (h.tabled.others t fun i temp => permanent i temp.2).2

theorem Placed.reads_lt (h : Placed g planner p n) {j u : Nat} (reads : g.Reads j u) : j < kNodeNotAssigned := by
  obtain ⟨node, hn, _⟩ := reads
  have inside := (List.getElem?_eq_some_iff.mp hn).1
  have small := h.wf.small
  omega

theorem Placed.dealloc_read (h : Placed g planner p n) {j u r : Nat} (reads : g.Reads j u)
    (root : planner.findSharedTensor u = r) : j ≤ planner.deallocNode r := by
  by_cases assigned : planner.deallocNode r ≠ kNodeNotAssigned
  · exact h.planned.last r assigned j u reads root
  · have never : planner.deallocNode r = kNodeNotAssigned := by simpa using assigned
    have inside := h.reads_lt reads
    omega

/-- A buffer that is given up is owned by the tensor, and read after the tensor is written. -/
theorem Placed.dealloc_own (h : Placed g planner p n) {t : Nat} (assigned : planner.deallocNode t ≠ kNodeNotAssigned) :
    planner.actualTensorId t = none ∧ g.Used t ∧ ∀ i, g.Produces i t → i < planner.deallocNode t := by
  obtain ⟨u, reads, root⟩ := h.planned.read t assigned
  refine ⟨?_, h.used_of_read reads root, fun i produces => ?_⟩
  · unfold ArenaPlanner.findSharedTensor at root
    cases plan : planner.actualTensorId u with
    | none =>
      rw [plan, Option.getD_none] at root
      exact root ▸ plan
    | some s =>
      rw [plan, Option.getD_some] at root
      exact root ▸ (h.shares u s plan).1
  · unfold ArenaPlanner.findSharedTensor at root
    cases plan : planner.actualTensorId u with
    | none =>
      rw [plan, Option.getD_none] at root
      exact h.wf.earlier _ i t (root ▸ reads) produces
    | some s =>
      rw [plan, Option.getD_some] at root
      subst root
      obtain ⟨_, m, x, node, k, _, place, _, ⟨j, hj, read⟩, _⟩ := h.shares u s plan
      have written := h.wf.earlier _ m u reads place.produces
      have before := h.wf.earlier j i s read produces
      omega

variable {t i m : Nat} (h : Placed g planner p n) (kind : g.Rw t) (size : 0 < (g.tensor t).bytes)
include h kind size

/-- The alloc of the owner starts no later than the tensor appears. -/
theorem Placed.first_le (queued : g.Queued m t) :
    (p.allocs (p.findSharedTensor t)).firstNode ≤ (m : Int) ∧
      (p.allocs (p.findSharedTensor t)).lastNode = p.deallocNode (p.findSharedTensor t) := by
  obtain ⟨kindOwner, same, _⟩ := h.addresses_rw ⟨m, queued⟩ kind size
  obtain ⟨_, first, last⟩ := h.laid.record (p.findSharedTensor t) kindOwner (by omega)
  refine ⟨?_, last⟩
  rw [first]
  rcases h.owner_cases t with self | ⟨r, _, root, plan⟩
  · rw [self, (h.allocNode queued).1]
  · rw [root] at kindOwner ⊢
    obtain ⟨i, x, node, k, place, _, _, j, hj, before⟩ := h.shared plan kindOwner
    have eq := h.wf.queued_once queued (Or.inr (Or.inl place.produces))
    rw [(h.allocNode before).1]
    omega

/-- The buffer of a tensor is in use until the last node that reads it, and to the end if it is a result or a
source. -/
theorem Placed.alive_used (queued : g.Queued m t) (le : m ≤ i) (bound : i ≤ kNodeNotAssigned)
    (used : (∃ j, i ≤ j ∧ g.Reads j t) ∨ some t ∈ g.outputs ∨ g.Source t) : AliveAt p i (p.findSharedTensor t) := by
  obtain ⟨first, last⟩ := h.first_le kind size queued
  obtain ⟨kindOwner, _, _⟩ := h.addresses_rw ⟨m, queued⟩ kind size
  have permanent : ∀ j, ¬ g.Temporary j t := by
    intro j temp
    obtain ⟨source, unused, _⟩ := h.wf.temporary j t temp
    rcases used with ⟨j, _, reads⟩ | output | held
    · exact unused (Or.inl ⟨j, reads⟩)
    · exact unused (Or.inr output)
    · exact source held
  suffices late : i ≤ p.deallocNode (p.findSharedTensor t) by
    refine ⟨by omega, ?_⟩
    rw [last]
    omega
  rcases h.owner_cases t with self | ⟨r, _, root, plan⟩
  · rw [self, h.permanent_dealloc permanent]
    by_contra early
    -- the buffer is given up, so it is read as its own
    obtain ⟨own, _, _⟩ := h.dealloc_own (t := t) (by omega)
    have held := h.planned.held t (by omega)
    rcases used with ⟨j, hj, reads⟩ | output | source
    · have until' := h.dealloc_read reads (show planner.findSharedTensor t = t by
        rw [ArenaPlanner.findSharedTensor, own, Option.getD_none])
      omega
    · exact held.2 output
    · exact held.1 source
  · rw [root] at kindOwner ⊢
    obtain ⟨_, _, _, _, place, _, usedOwner, _⟩ := h.shared plan kindOwner
    rw [h.permanent_dealloc (h.no_temporary usedOwner)]
    rcases used with ⟨j, hj, reads⟩ | output | source
    · have until' := h.dealloc_read reads (show planner.findSharedTensor t = r by
        rw [ArenaPlanner.findSharedTensor, plan, Option.getD_some])
      omega
    · exact absurd output place.result
    · exact absurd source (h.wf.fresh _ t place.produces)

/-- The buffer of a tensor is in use at the node that writes it. -/
theorem Placed.alive_written (written : g.Produces i t ∨ g.Temporary i t) : AliveAt p i (p.findSharedTensor t) := by
  have queued : g.Queued i t := Or.inr written
  obtain ⟨first, last⟩ := h.first_le kind size queued
  obtain ⟨kindOwner, _, _⟩ := h.addresses_rw ⟨i, queued⟩ kind size
  have bound := (h.allocNode queued).2
  suffices late : i ≤ p.deallocNode (p.findSharedTensor t) by
    refine ⟨first, ?_⟩
    rw [last]
    omega
  rcases h.owner_cases t with self | ⟨r, _, root, plan⟩
  · rw [self]
    have never : i ≤ planner.deallocNode t := by
      by_contra early
      obtain ⟨_, used, after⟩ := h.dealloc_own (t := t) (by omega)
      rcases written with produces | temp
      · have until' := after i produces
        omega
      · exact h.no_temporary used i temp
    rcases written with produces | temp
    · rw [(h.tabled.others t fun j temp => (h.wf.temporary j t temp.2).2.2 i produces).2]
      exact never
    · obtain ⟨j, before, other⟩ := h.queuedBefore ⟨i, queued⟩
      obtain rfl := h.wf.queued_once queued other
      rw [(h.tabled.temporaries i t ⟨before, temp⟩).2]
      split
      next => exact never
      next => exact Nat.le_refl i
  · rw [root] at kindOwner ⊢
    obtain ⟨j, x, node, k, place, source, usedOwner, _⟩ := h.shared plan kindOwner
    rw [h.permanent_dealloc (h.no_temporary usedOwner)]
    obtain rfl := h.wf.queued_once queued (Or.inr (Or.inl place.produces))
    exact h.dealloc_read place.reads source

end Alive

end AuroraVoice
