import AuroraVoice.Lifetimes
import Mathlib.Algebra.Order.BigOperators.Group.List
import Mathlib.Data.List.Perm.Subperm

namespace AuroraVoice

def GraphInfo.Temporary (g : GraphInfo) (i t : Nat) : Prop := ∃ node, g.nodes[i]? = some node ∧ t ∈ node.temporaries

/-- A node reads the tensor, or it is a result of the graph. -/
def GraphInfo.Used (g : GraphInfo) (t : Nat) : Prop := (∃ i, g.Reads i t) ∨ some t ∈ g.outputs

def TfLiteTensor.InArena (t : TfLiteTensor) : Prop :=
  t.allocationType = .arenaRw ∨ t.allocationType = .arenaRwPersistent

/-- The first output of node `i` may use the buffer of its input `x`. -/
structure InPlace (g : GraphInfo) (i x o : Nat) (node : TfLiteNode) (k : Nat) : Prop where
  position : g.nodes[i]? = some node
  output : node.outputs.head? = some (some o)
  input : node.inputs[k]? = some (some x)
  flag : node.inplaceOperator ≠ 0
  shareable : k < kTfLiteMaxSharableOpInputs ∧ node.inputShareable k = true
  result : some o ∉ g.outputs
  kind : (g.tensor x).allocationType = (g.tensor o).allocationType ∨ (g.tensor x).allocationType = .arenaRw

/-- The data of `t` come from `r` through in-place operators. -/
inductive Stems (g : GraphInfo) (r : Nat) : Nat → Prop
  | self : Stems g r r
  | step {i x o : Nat} {node : TfLiteNode} {k : Nat} : Stems g r x → InPlace g i x o node k → Stems g r o

/-- Nodes in topological order, each tensor written once, temporaries of one node only. -/
structure GraphInfo.WellFormed (g : GraphInfo) : Prop where
  small : g.nodes.length ≤ kNodeNotAssigned
  once : ∀ i j t, g.Produces i t → g.Produces j t → i = j
  distinct : ∀ node ∈ g.nodes, node.outputs.reduceOption.Nodup
  distinctInputs : g.inputs.reduceOption.Nodup
  fresh : ∀ i t, g.Produces i t → ¬ g.Source t
  earlier : ∀ i j t, g.Reads i t → g.Produces j t → j < i
  available : ∀ t, g.Used t → (g.tensor t).InArena → g.Source t ∨ ∃ i, g.Produces i t
  temporary : ∀ i t, g.Temporary i t → ¬ g.Source t ∧ ¬ g.Used t ∧ ∀ j, ¬ g.Produces j t
  temporaryOnce : ∀ i j t, g.Temporary i t → g.Temporary j t → i = j

/-- What `IdentifyInPlaceTensors` takes for granted: no in-place operator writes a persistent tensor, and when one
overwrites a buffer no tensor between its input and the owner of the buffer is read any more. The planner
counts the reads of these two only. -/
structure GraphInfo.InPlaceSafe (g : GraphInfo) : Prop where
  kind : ∀ node ∈ g.nodes, node.inplaceOperator ≠ 0 → ∀ o, node.outputs.head? = some (some o) →
    (g.tensor o).allocationType ≠ .arenaRwPersistent
  overwrites : ∀ i x o node k, InPlace g i x o node k → node.tensorChanged = true →
    ∀ r t m j, Stems g r x → Stems g r t → t ≠ r → t ≠ x → g.Produces m t → m < i → g.Reads j t → j ≤ i

section Sharing

variable {g : GraphInfo} {share : Nat → Option Nat} {n : Nat}

theorem InPlace.produces {i x o k : Nat} {node : TfLiteNode} (h : InPlace g i x o node k) : g.Produces i o :=
  ⟨node, h.position, List.mem_of_mem_head? h.output⟩

theorem InPlace.reads {i x o k : Nat} {node : TfLiteNode} (h : InPlace g i x o node k) : g.Reads i x :=
  ⟨node, h.position, List.mem_of_getElem? h.input⟩

/-- The buffers that the outputs of the first `n` nodes use. -/
def Shares (g : GraphInfo) (n : Nat) (share : Nat → Option Nat) : Prop :=
  ∀ o r, share o = some r → share r = none ∧
    ∃ i x node k, i < n ∧ InPlace g i x o node k ∧ (share x).getD x = r ∧ (∃ j ≤ i, g.Reads j r) ∧
      (node.tensorChanged = true → g.references x ≤ 1 ∧ g.references r ≤ 1)

theorem inputTensorCanBeShared_spec {p : ArenaPlanner} {inputId outputId : Nat} {changed : Bool}
    (h : p.inputTensorCanBeShared g inputId outputId changed = true) :
    some outputId ∉ g.outputs ∧ ((g.tensor inputId).allocationType = (g.tensor outputId).allocationType ∨
      (g.tensor inputId).allocationType = .arenaRw) ∧ (changed = true → p.refcounts inputId ≤ 1) := by
  unfold ArenaPlanner.inputTensorCanBeShared at h
  dsimp only at h
  split at h
  next => cases h
  next =>
    split at h
    next => cases h
    next counted =>
      split at h
      next => cases h
      next =>
        split at h
        next => cases h
        next result =>
          split at h
          next => cases h
          next kinds =>
            refine ⟨result, ?_, fun same => ?_⟩
            · by_contra neither
              exact kinds (by simpa using neither)
            · simpa [same] using counted

theorem shareableInput_spec {p : ArenaPlanner} {node : TfLiteNode} {x o : Nat}
    (h : p.shareableInput g node o = some x) :
    ∃ k, node.inputs[k]? = some (some x) ∧ (k < kTfLiteMaxSharableOpInputs ∧ node.inputShareable k = true) ∧
      p.inputTensorCanBeShared g x o node.tensorChanged = true := by
  unfold ArenaPlanner.shareableInput at h
  obtain ⟨⟨input, k⟩, mem, eq⟩ := List.exists_of_findSome?_eq_some h
  obtain ⟨rfl, both⟩ := Option.filter_eq_some_iff.mp eq
  have place := List.mk_mem_zipIdx_iff_getElem?.mp mem
  simp only [Bool.and_eq_true] at both
  have lt : k < kTfLiteMaxSharableOpInputs := by
    have bound := (List.getElem?_eq_some_iff.mp place).1
    rw [List.length_take] at bound
    omega
  rw [List.getElem?_take_of_lt lt] at place
  exact ⟨k, place, ⟨lt, both.1⟩, both.2⟩

/-- What `IdentifyInPlaceTensors` does at one node. -/
theorem identifyInPlaceTensor_cases (p : ArenaPlanner) {i : Nat} {node : TfLiteNode} (h : g.nodes[i]? = some node) :
    (p.identifyInPlaceTensor g node).actualTensorId = p.actualTensorId ∨
      ∃ x o k, InPlace g i x o node k ∧
        (node.tensorChanged = true → p.refcounts x ≤ 1 ∧ p.refcounts (p.findSharedTensor x) ≤ 1) ∧
        (p.identifyInPlaceTensor g node).actualTensorId =
          Function.update p.actualTensorId o (some (p.findSharedTensor x)) := by
  unfold ArenaPlanner.identifyInPlaceTensor
  split
  next o output =>
    split
    next => exact Or.inl rfl
    next flag =>
      split
      next => exact Or.inl rfl
      next x input =>
        dsimp only
        split
        next => exact Or.inl rfl
        next counted =>
          obtain ⟨k, place, shareable, can⟩ := shareableInput_spec input
          obtain ⟨result, kind, one⟩ := inputTensorCanBeShared_spec can
          refine Or.inr ⟨x, o, k, ⟨h, output, place, flag, shareable, result, kind⟩, fun changed => ?_, rfl⟩
          exact ⟨one changed, by simpa [changed] using counted⟩
  next => exact Or.inl rfl

theorem Shares.mono (h : Shares g n share) : Shares g (n + 1) share := by
  intro o r eq
  obtain ⟨owner, i, x, node, k, hi, rest⟩ := h o r eq
  exact ⟨owner, i, x, node, k, Nat.lt_succ_of_lt hi, rest⟩

/-- A tensor read by one of the first nodes keeps its buffer when a later output gets one. -/
theorem Shares.update (wf : g.WellFormed) (h : Shares g n share) {x o k : Nat} {node : TfLiteNode}
    (place : InPlace g n x o node k)
    (counted : node.tensorChanged = true → g.references x ≤ 1 ∧ g.references ((share x).getD x) ≤ 1) :
    Shares g (n + 1) (Function.update share o (some ((share x).getD x))) := by
  have kept : ∀ u, (∃ j ≤ n, g.Reads j u) → Function.update share o (some ((share x).getD x)) u = share u := by
    rintro u ⟨j, hj, reads⟩
    have other : u ≠ o := by
      rintro rfl
      have order := wf.earlier j n u reads place.produces
      omega
    exact Function.update_of_ne other _ _
  have own : ∃ j ≤ n, g.Reads j x := ⟨n, Nat.le_refl n, place.reads⟩
  have owner : share ((share x).getD x) = none ∧ ∃ j ≤ n, g.Reads j ((share x).getD x) := by
    cases hx : share x with
    | none => exact ⟨hx, own⟩
    | some s =>
      obtain ⟨owner, i, _, _, _, hi, _, _, ⟨j, hj, read⟩, _⟩ := h x s hx
      exact ⟨owner, j, by omega, read⟩
  intro u r eq
  by_cases hu : u = o
  · subst hu
    rw [Function.update_self, Option.some.injEq] at eq
    subst eq
    refine ⟨(kept _ owner.2).trans owner.1, n, x, node, k, Nat.lt_succ_self n, place, ?_, owner.2, counted⟩
    rw [kept x own]
  · rw [Function.update_of_ne hu] at eq
    obtain ⟨free, i, y, other, l, hi, before, root, ⟨j, hj, read⟩, counts⟩ := h u r eq
    refine ⟨(kept r ⟨j, by omega, read⟩).trans free, i, y, other, l, by omega, before, ?_, ⟨j, hj, read⟩, counts⟩
    rw [kept y ⟨i, by omega, before.reads⟩]
    exact root

theorem identifyInPlaceTensors_shares (wf : g.WellFormed) {p : ArenaPlanner}
    (refs : ∀ t, p.refcounts t = g.references t) :
    Shares g g.nodes.length (p.identifyInPlaceTensors g).actualTensorId := by
  have loop : ∀ (rest done : List TfLiteNode) (p : ArenaPlanner), g.nodes = done ++ rest →
      (∀ t, p.refcounts t = g.references t) → Shares g done.length p.actualTensorId →
      Shares g g.nodes.length (rest.foldl (ArenaPlanner.identifyInPlaceTensor g) p).actualTensorId := by
    intro rest
    induction rest with
    | nil =>
      intro done p split refs h
      rw [split, List.append_nil]
      exact h
    | cons node rest ih =>
      intro done p split refs h
      have here : g.nodes[done.length]? = some node := by rw [split]; simp
      refine ih (done ++ [node]) _ (by simp [split]) (fun t => ?_) ?_
      · rw [identifyInPlaceTensor_same]
        exact refs t
      rw [List.length_append, List.length_singleton]
      rcases identifyInPlaceTensor_cases p here with same | ⟨x, o, k, place, counted, eq⟩
      · rw [same]
        exact h.mono
      · rw [eq]
        refine h.update wf place fun changed => ?_
        obtain ⟨input, owner⟩ := counted changed
        rw [refs] at input owner
        exact ⟨by omega, by unfold ArenaPlanner.findSharedTensor at owner; omega⟩
  exact loop g.nodes [] { p with actualTensorId := fun _ => none } rfl refs nofun

end Sharing

section ArenaHolds

variable {arena : SimpleMemoryArena} {allocs : Nat → ArenaAllocWithUsageInterval} {mine : Nat → Prop}
  {firstNode : Int} {weight : Nat}

/-- The tensors that are `mine` have their allocs in the arena. Those that were purged are not in use from
`firstNode` on, and what else is active is in the way at most. -/
structure ArenaHolds (arena : SimpleMemoryArena) (allocs : Nat → ArenaAllocWithUsageInterval) (mine : Nat → Prop)
    (firstNode : Int) (weight : Nat) : Prop where
  sorted : SortedAllocs arena.activeAllocs
  bounded : ∀ a ∈ arena.activeAllocs, a.offset + a.size ≤ weight
  mark : arena.highWaterMark ≤ weight
  ends : ∀ t, mine t → (allocs t).offset + (allocs t).size ≤ arena.highWaterMark
  compatible : ∀ t u, mine t → mine u → t ≠ u → (allocs t).Compatible (allocs u)
  active : ∀ t, mine t → 0 < (allocs t).size → allocs t ∈ arena.activeAllocs ∨ (allocs t).lastNode < firstNode
  empty : ∀ t, mine t → (allocs t).size = 0 → (allocs t).offset = 0
  tensor : ∀ t, mine t → 0 < (allocs t).size → (allocs t).tensor ≠ -1

theorem compatible_of_empty {a b : ArenaAllocWithUsageInterval} (size : a.size = 0) (offset : a.offset = 0) :
    a.Compatible b :=
  fun _ => Or.inr (by omega)

theorem ArenaHolds.allocate (h : ArenaHolds arena allocs mine firstNode weight) {t : Nat} (own : mine t) {r : Request}
    (pos : 0 < r.alignment) (aligned : r.alignment ≤ arena.bufferAlignment)
    (room : weight + r.alignment + r.size < 2 ^ 64) (late : firstNode ≤ r.firstNode) (named : r.tensor ≠ -1) :
    ∃ next a, arena.allocate r = some (next, a) ∧ Serves r a ∧ next.bufferAlignment = arena.bufferAlignment ∧
      ArenaHolds next (Function.update allocs t a) mine firstNode (weight + r.alignment + r.size) := by
  obtain ⟨next, a, eq, one⟩ := arena.allocate_spec (r := r) h.sorted h.bounded h.mark ⟨pos, aligned, room⟩
  have grows := one.grows
  -- the new alloc is compatible with every other one, active, purged or empty
  have other : ∀ u, mine u → (allocs u).Compatible a := by
    intro u hu
    by_cases size : (allocs u).size = 0
    · exact compatible_of_empty size (h.empty u hu size)
    · rcases h.active u hu (Nat.pos_of_ne_zero size) with active | gone
      · exact one.clear _ active
      · intro meets
        have first := meets.1
        have interval := one.interval
        omega
  refine ⟨next, a, eq, ⟨one.interval, one.size, one.aligned⟩, one.buffer, one.sorted h.sorted, fun b hb => ?_, one.bounded,
    fun u hu => ?_, fun u v hu hv ne => ?_, fun u hu size => ?_, fun u hu size => ?_, fun u hu size => ?_⟩
  · rcases (one.active b).mp hb with ⟨rfl, _⟩ | hb
    · exact one.ends.trans one.bounded
    · have before := h.bounded b hb
      omega
  · by_cases hut : u = t
    · subst hut
      rw [Function.update_self]
      exact one.ends
    · rw [Function.update_of_ne hut]
      exact (h.ends u hu).trans grows
  · by_cases hut : u = t
    · subst hut
      rw [Function.update_self, Function.update_of_ne (Ne.symm ne)]
      exact (other v hv).symm
    · rw [Function.update_of_ne hut]
      by_cases hvt : v = t
      · subst hvt
        rw [Function.update_self]
        exact other u hu
      · rw [Function.update_of_ne hvt]
        exact h.compatible u v hu hv ne
  · by_cases hut : u = t
    · subst hut
      rw [Function.update_self] at size ⊢
      exact Or.inl ((one.active a).mpr (Or.inl ⟨rfl, one.size ▸ size⟩))
    · rw [Function.update_of_ne hut] at size ⊢
      exact (h.active u hu size).imp_left fun mem => (one.active _).mpr (Or.inr mem)
  · by_cases hut : u = t
    · subst hut
      rw [Function.update_self] at size ⊢
      exact one.empty (one.size.symm.trans size)
    · rw [Function.update_of_ne hut] at size ⊢
      exact h.empty u hu size
  · by_cases hut : u = t
    · subst hut
      rw [Function.update_self]
      rw [one.tensor]
      exact named
    · rw [Function.update_of_ne hut] at size ⊢
      exact h.tensor u hu size

theorem ArenaHolds.congr (h : ArenaHolds arena allocs mine firstNode weight) {next : Nat → ArenaAllocWithUsageInterval}
    (same : ∀ t, mine t → next t = allocs t) : ArenaHolds arena next mine firstNode weight := by
  refine ⟨h.sorted, h.bounded, h.mark, fun u hu => ?_, fun u v hu hv ne => ?_, fun u hu => ?_, fun u hu => ?_, fun u hu => ?_⟩
  · rw [same u hu]
    exact h.ends u hu
  · rw [same u hu, same v hv]
    exact h.compatible u v hu hv ne
  · rw [same u hu]
    exact h.active u hu
  · rw [same u hu]
    exact h.empty u hu
  · rw [same u hu]
    exact h.tensor u hu

/-- The allocs of the other arena do not matter. -/
theorem ArenaHolds.frame (h : ArenaHolds arena allocs mine firstNode weight) {t : Nat} (foreign : ¬ mine t)
    (a : ArenaAllocWithUsageInterval) : ArenaHolds arena (Function.update allocs t a) mine firstNode weight := by
  refine h.congr fun u hu => ?_
  have other : u ≠ t := fun eq => foreign (eq ▸ hu)
  exact Function.update_of_ne other _ _

theorem ArenaHolds.mono (h : ArenaHolds arena allocs mine firstNode weight) {more : Nat} (le : weight ≤ more) :
    ArenaHolds arena allocs mine firstNode more :=
  ⟨h.sorted, fun a ha => (h.bounded a ha).trans le, h.mark.trans le, h.ends, h.compatible, h.active, h.empty, h.tensor⟩

theorem ArenaHolds.purge (h : ArenaHolds arena allocs mine firstNode weight) {node : Int} (le : firstNode ≤ node) :
    ArenaHolds (arena.purgeActiveAllocs node) allocs mine node weight := by
  have sub := arena.purge_sublist fun a => a.lastNode < node
  refine ⟨h.sorted.sublist sub, fun a ha => h.bounded a (sub.subset ha), h.mark, h.ends, h.compatible, fun t own size => ?_,
    h.empty, h.tensor⟩
  by_cases gone : (allocs t).lastNode < node
  · exact Or.inr gone
  · rcases h.active t own size with active | before
    · left
      rw [SimpleMemoryArena.purgeActiveAllocs, SimpleMemoryArena.purge_allocs, List.mem_filter]
      have tensor := h.tensor t own size
      exact ⟨active, by simp [gone, tensor]⟩
    · omega

theorem ArenaHolds.reset (h : ArenaHolds arena allocs mine firstNode weight) (none : ∀ t, mine t → (allocs t).size = 0) :
    ArenaHolds arena.resetAllocs allocs mine firstNode weight := by
  refine ⟨.nil, nofun, h.mark, h.ends, h.compatible, fun t own size => ?_, h.empty, h.tensor⟩
  have zero := none t own
  omega

end ArenaHolds

section Tensor

variable {g : GraphInfo} {planned : Nat → Option Nat} {firstNode weight : Nat} {settled early : Nat → Prop} {p : ArenaPlanner}

def GraphInfo.Rw (g : GraphInfo) (t : Nat) : Prop := (g.tensor t).allocationType = .arenaRw

def GraphInfo.Persistent (g : GraphInfo) (t : Nat) : Prop := (g.tensor t).allocationType = .arenaRwPersistent

/-- The tensor uses the buffer of one of the same size, or has an alloc of its own size. -/
def Situated (g : GraphInfo) (p : ArenaPlanner) (t : Nat) : Prop :=
  (∃ r, p.actualTensorId t = some r ∧ g.Rw r ∧ (g.tensor r).bytes = (g.tensor t).bytes) ∨
    (p.actualTensorId t = none ∧ (p.allocs t).size = (g.tensor t).bytes)

/-- The planner while the tensors in `settled` have their places. Persistent tensors in `early` can have theirs before. -/
structure Laid (g : GraphInfo) (planned : Nat → Option Nat) (firstNode : Nat) (settled early : Nat → Prop) (weight : Nat)
    (p : ArenaPlanner) : Prop where
  rw : ArenaHolds p.arena p.allocs g.Rw firstNode weight
  persistent : ArenaHolds p.persistentArena p.allocs g.Persistent 0 weight
  pos : 0 < p.tensorAlignment
  aligned : p.tensorAlignment ≤ p.arena.bufferAlignment ∧ p.tensorAlignment ≤ p.persistentArena.bufferAlignment
  record : ∀ t, g.Rw t → 0 < (p.allocs t).size → settled t ∧ (p.allocs t).firstNode = p.allocNode t ∧
    (p.allocs t).lastNode = p.deallocNode t
  lasting : ∀ t, g.Persistent t → 0 < (p.allocs t).size → (settled t ∨ early t) ∧ (p.allocs t).size = (g.tensor t).bytes ∧
    (p.allocs t).firstNode ≤ kNodeNotAssigned ∧ (p.allocs t).lastNode = kNodeNotAssigned
  vacant : ∀ t, ¬ (g.tensor t).InArena → p.allocs t = .reset
  shares : ∀ t, p.actualTensorId t = planned t ∨ p.actualTensorId t = none
  places : ∀ t, settled t → (g.tensor t).InArena → 0 < (g.tensor t).bytes → Situated g p t

/-- What the allocation of tensors leaves alone. -/
structure SameTables (p q : ArenaPlanner) : Prop where
  allocNode : q.allocNode = p.allocNode
  deallocNode : q.deallocNode = p.deallocNode
  nodesToTensors : q.nodesToTensors = p.nodesToTensors
  tensorAlignment : q.tensorAlignment = p.tensorAlignment
  preserve : q.preserveAllTensors = p.preserveAllTensors

theorem SameTables.refl (p : ArenaPlanner) : SameTables p p := ⟨rfl, rfl, rfl, rfl, rfl⟩

theorem SameTables.trans {p q r : ArenaPlanner} (h : SameTables p q) (h' : SameTables q r) : SameTables p r :=
  ⟨h'.allocNode.trans h.allocNode, h'.deallocNode.trans h.deallocNode, h'.nodesToTensors.trans h.nodesToTensors,
    h'.tensorAlignment.trans h.tensorAlignment, h'.preserve.trans h.preserve⟩

theorem Laid.mono (h : Laid g planned firstNode settled early weight p) {more : Nat} (le : weight ≤ more) :
    Laid g planned firstNode settled early more p :=
  ⟨h.rw.mono le, h.persistent.mono le, h.pos, h.aligned, h.record, h.lasting, h.vacant, h.shares, h.places⟩

theorem Laid.sooner (h : Laid g planned firstNode settled early weight p) {sooner : Nat → Prop} (sub : ∀ t, early t → sooner t) :
    Laid g planned firstNode settled sooner weight p := by
  refine ⟨h.rw, h.persistent, h.pos, h.aligned, h.record, fun t kind size => ?_, h.vacant, h.shares, h.places⟩
  obtain ⟨before, place⟩ := h.lasting t kind size
  exact ⟨before.imp_right (sub t), place⟩

theorem not_rw_of_persistent {t : Nat} (h : g.Persistent t) : ¬ g.Rw t := by
  intro rw'
  cases rw'.symm.trans h

/-- One more tensor is settled, without a change of the plan. -/
theorem Laid.settle (h : Laid g planned firstNode settled early weight p) {t : Nat}
    (place : 0 < (g.tensor t).bytes → Situated g p t) : Laid g planned firstNode (fun u => settled u ∨ u = t) early weight p := by
  refine ⟨h.rw, h.persistent, h.pos, h.aligned, fun u own size => ?_, fun u own size => ?_, h.vacant, h.shares,
    fun u hu inArena size => ?_⟩
  · obtain ⟨before, interval⟩ := h.record u own size
    exact ⟨Or.inl before, interval⟩
  · obtain ⟨before, place⟩ := h.lasting u own size
    exact ⟨before.imp_left Or.inl, place⟩
  · rcases hu with hu | rfl
    · exact h.places u hu inArena size
    · exact place size

/-- A tensor is settled by an alloc of its size and lifetime in either arena. -/
theorem Laid.put (h : Laid g planned firstNode settled early weight p) {t more : Nat} (own : p.actualTensorId t = none)
    (inArena : (g.tensor t).InArena) {arena persistentArena : SimpleMemoryArena} {a : ArenaAllocWithUsageInterval}
    (rw' : ArenaHolds arena (Function.update p.allocs t a) g.Rw firstNode more)
    (persistent : ArenaHolds persistentArena (Function.update p.allocs t a) g.Persistent 0 more)
    (aligned : p.tensorAlignment ≤ arena.bufferAlignment ∧ p.tensorAlignment ≤ persistentArena.bufferAlignment)
    (size : a.size = (g.tensor t).bytes) (interval : g.Rw t → a.firstNode = p.allocNode t ∧ a.lastNode = p.deallocNode t)
    (lasting : g.Persistent t → a.firstNode ≤ kNodeNotAssigned ∧ a.lastNode = kNodeNotAssigned) :
    Laid g planned firstNode (fun u => settled u ∨ u = t) early more
      { p with arena := arena, persistentArena := persistentArena, allocs := Function.update p.allocs t a } := by
  refine ⟨rw', persistent, h.pos, aligned, fun u kind pos => ?_, fun u kind pos => ?_, fun u outside => ?_, h.shares,
    fun u hu inside pos => ?_⟩
  · by_cases hut : u = t
    · subst hut
      simp only [Function.update_self] at pos ⊢
      exact ⟨Or.inr trivial, interval kind⟩
    · simp only [Function.update_of_ne hut] at pos ⊢
      obtain ⟨before, interval⟩ := h.record u kind pos
      exact ⟨Or.inl before, interval⟩
  · by_cases hut : u = t
    · subst hut
      simp only [Function.update_self] at pos ⊢
      exact ⟨Or.inl (Or.inr trivial), size, lasting kind⟩
    · simp only [Function.update_of_ne hut] at pos ⊢
      obtain ⟨before, place⟩ := h.lasting u kind pos
      exact ⟨before.imp_left Or.inl, place⟩
  · have other : u ≠ t := by
      rintro rfl
      exact outside inArena
    simp only [Function.update_of_ne other]
    exact h.vacant u outside
  · by_cases hut : u = t
    · subst hut
      refine Or.inr ⟨own, ?_⟩
      simp only [Function.update_self]
      exact size
    · have before : settled u := hu.resolve_right hut
      unfold Situated
      simp only [Function.update_of_ne hut]
      exact h.places u before inside pos

/-- The node that a tensor of a batch is allocated at. -/
def Due (firstNode : Nat) (p : ArenaPlanner) (t : Nat) : Prop := firstNode ≤ p.allocNode t ∧ p.allocNode t ≤ kNodeNotAssigned

/-- A tensor that owns its buffer gets it from the arena of its kind. -/
theorem Laid.allocateOwner (h : Laid g planned firstNode settled early weight p) {t : Nat} (own : p.actualTensorId t = none)
    (inArena : (g.tensor t).InArena) (due : Due firstNode p t)
    (room : weight + p.tensorAlignment + (g.tensor t).bytes < 2 ^ 64) :
    ∃ q, p.allocateOwner g t = some q ∧ SameTables p q ∧ Laid g planned firstNode (fun u => settled u ∨ u = t)
      early (weight + p.tensorAlignment + (g.tensor t).bytes) q := by
  have more : weight ≤ weight + p.tensorAlignment + (g.tensor t).bytes := by omega
  have named : (t : Int) ≠ -1 := by omega
  obtain ⟨late, early⟩ := due
  unfold ArenaPlanner.allocateOwner
  rcases inArena with kind | kind
  · have foreign : ¬ g.Persistent t := fun persistent => not_rw_of_persistent persistent kind
    obtain ⟨next, a, eq, serves, buffer, holds⟩ := h.rw.allocate (t := t) kind
      (r := ⟨p.tensorAlignment, (g.tensor t).bytes, t, p.allocNode t, p.deallocNode t⟩) h.pos h.aligned.1 room
      (by simpa using late) named
    rw [kind]
    simp only [eq, Option.bind_eq_bind, Option.bind_some]
    refine ⟨_, rfl, ⟨rfl, rfl, rfl, rfl, rfl⟩, h.put own (Or.inl kind) holds ((h.persistent.frame foreign a).mono more) ?_
      serves.size (fun _ => serves.interval) fun persistent => absurd persistent foreign⟩
    exact ⟨buffer ▸ h.aligned.1, h.aligned.2⟩
  · have foreign : ¬ g.Rw t := not_rw_of_persistent kind
    rw [kind]
    by_cases new : (p.allocs t).size = 0 ∧ (p.allocs t).size < (g.tensor t).bytes
    · obtain ⟨next, a, eq, serves, buffer, holds⟩ := h.persistent.allocate (t := t) kind
        (r := ⟨p.tensorAlignment, (g.tensor t).bytes, t, p.allocNode t, kNodeNotAssigned⟩) h.pos h.aligned.2 room
        (by simp) named
      dsimp only
      rw [if_pos new, eq]
      refine ⟨_, rfl, ⟨rfl, rfl, rfl, rfl, rfl⟩, h.put own (Or.inr kind) ((h.rw.frame foreign a).mono more) holds ?_
        serves.size (fun rw' => absurd rw' foreign) fun _ => ⟨?_, serves.interval.2⟩⟩
      · exact ⟨h.aligned.1, buffer ▸ h.aligned.2⟩
      · rw [serves.interval.1]
        simpa using early
    · -- a persistent tensor keeps the place it has
      dsimp only
      rw [if_neg new]
      refine ⟨p, rfl, SameTables.refl p, (h.settle fun size => Or.inr ⟨own, ?_⟩).mono more⟩
      exact (h.lasting t kind (by omega)).2.1

theorem Laid.erase (h : Laid g planned firstNode settled early weight p) {t : Nat} (new : ¬ settled t) :
    Laid g planned firstNode settled early weight { p with actualTensorId := Function.update p.actualTensorId t none } := by
  refine ⟨h.rw, h.persistent, h.pos, h.aligned, h.record, h.lasting, h.vacant, fun u => ?_, fun u hu inArena pos => ?_⟩
  · by_cases hut : u = t
    · subst hut
      exact Or.inr (Function.update_self _ _ _)
    · simp only [Function.update_of_ne hut]
      exact h.shares u
  · have other : u ≠ t := fun eq => new (eq ▸ hu)
    unfold Situated
    simp only [Function.update_of_ne other]
    exact h.places u hu inArena pos

/-- One tensor of `CalculateAllocations`. A buffer is no longer shared once its owner has another size. -/
theorem Laid.allocateTensor (h : Laid g planned firstNode settled early weight p) {t : Nat} (new : ¬ settled t)
    (inArena : (g.tensor t).InArena) (due : Due firstNode p t)
    (room : weight + p.tensorAlignment + (g.tensor t).bytes < 2 ^ 64) :
    ∃ q, p.allocateTensor g t = some q ∧ SameTables p q ∧ Laid g planned firstNode (fun u => settled u ∨ u = t)
      early (weight + p.tensorAlignment + (g.tensor t).bytes) q := by
  have more : weight ≤ weight + p.tensorAlignment + (g.tensor t).bytes := by omega
  unfold ArenaPlanner.allocateTensor
  split
  next r share =>
    split
    next =>
      obtain ⟨q, eq, same, laid⟩ := (h.erase new).allocateOwner (t := t) (Function.update_self _ _ _) inArena due room
      exact ⟨q, eq, ⟨same.allocNode, same.deallocNode, same.nodesToTensors, same.tensorAlignment, same.preserve⟩, laid⟩
    next kept =>
      have owner : g.Rw r ∧ (g.tensor r).bytes = (g.tensor t).bytes := by
        simpa [GraphInfo.Rw] using kept
      exact ⟨p, rfl, SameTables.refl p, (h.settle fun _ => Or.inl ⟨r, share, owner⟩).mono more⟩
  next own => exact h.allocateOwner own inArena due room

/-- The tensors of a batch, in any order. -/
theorem Laid.allocateTensors (h : Laid g planned firstNode settled early weight p) {l : List Nat} (nodup : l.Nodup)
    (new : ∀ t ∈ l, ¬ settled t ∧ (g.tensor t).InArena ∧ Due firstNode p t)
    (room : weight + (l.map fun t => p.tensorAlignment + (g.tensor t).bytes).sum < 2 ^ 64) :
    ∃ q, l.foldlM (ArenaPlanner.allocateTensor g) p = some q ∧ SameTables p q ∧
      Laid g planned firstNode (fun u => settled u ∨ u ∈ l) early
        (weight + (l.map fun t => p.tensorAlignment + (g.tensor t).bytes).sum) q := by
  induction l generalizing p settled weight with
  | nil => exact ⟨p, rfl, SameTables.refl p, by simpa using h⟩
  | cons t l ih =>
    obtain ⟨fresh, rest⟩ := List.nodup_cons.mp nodup
    obtain ⟨free, inArena, due⟩ := new t List.mem_cons_self
    rw [List.map_cons, List.sum_cons] at room ⊢
    obtain ⟨mid, eq, same, laid⟩ := h.allocateTensor free inArena due (by omega)
    have later : ∀ u ∈ l, ¬ (settled u ∨ u = t) ∧ (g.tensor u).InArena ∧ Due firstNode mid u := by
      intro u hu
      obtain ⟨free, inArena, due⟩ := new u (List.mem_cons_of_mem t hu)
      have other : u ≠ t := by
        rintro rfl
        exact fresh hu
      unfold Due
      rw [same.allocNode]
      exact ⟨fun both => both.elim free other, inArena, due⟩
    obtain ⟨q, run, tables, last⟩ := ih laid rest later (by rw [same.tensorAlignment]; omega)
    refine ⟨q, by rw [List.foldlM_cons, eq]; exact run, same.trans tables, ?_⟩
    rw [same.tensorAlignment, Nat.add_assoc weight, Nat.add_assoc weight] at last
    have members : (fun u => (settled u ∨ u = t) ∨ u ∈ l) = fun u => settled u ∨ u ∈ t :: l := by
      funext u
      simp only [List.mem_cons, or_assoc]
    rw [members] at last
    exact last

end Tensor

section Tables

variable {g : GraphInfo} {planner p : ArenaPlanner} {done : Nat → Nat → Prop}

/-- The tensors that get their place with node `i`. -/
def GraphInfo.Queued (g : GraphInfo) (i t : Nat) : Prop := (i = 0 ∧ g.Source t) ∨ g.Produces i t ∨ g.Temporary i t

theorem GraphInfo.WellFormed.queued_once (wf : g.WellFormed) {i j t : Nat} (hi : g.Queued i t) (hj : g.Queued j t) :
    i = j := by
  rcases hi with ⟨rfl, si⟩ | pi | ti
  · rcases hj with ⟨rfl, _⟩ | pj | tj
    · rfl
    · exact absurd si (wf.fresh j t pj)
    · exact absurd si (wf.temporary j t tj).1
  · rcases hj with ⟨rfl, sj⟩ | pj | tj
    · exact absurd sj (wf.fresh i t pi)
    · exact wf.once i j t pi pj
    · exact absurd pi ((wf.temporary j t tj).2.2 i)
  · rcases hj with ⟨rfl, sj⟩ | pj | tj
    · exact absurd sj (wf.temporary i t ti).1
    · exact absurd pj ((wf.temporary i t ti).2.2 j)
    · exact wf.temporaryOnce i j t ti tj

/-- The tables once the temporaries in `done` are entered. -/
structure Tabled (g : GraphInfo) (planner : ArenaPlanner) (done : Nat → Nat → Prop) (p : ArenaPlanner) : Prop where
  entered : ∀ i t, done i t → g.Temporary i t
  queued : ∀ i t, t ∈ p.nodesToTensors i ↔ (i = 0 ∧ g.Source t) ∨ g.Produces i t ∨ done i t
  nodup : ∀ i, (p.nodesToTensors i).Nodup
  preserve : p.preserveAllTensors = planner.preserveAllTensors
  others : ∀ t, (∀ i, ¬ done i t) → p.allocNode t = planner.allocNode t ∧ p.deallocNode t = planner.deallocNode t
  temporaries : ∀ i t, done i t → p.allocNode t = i ∧
    p.deallocNode t = if planner.preserveAllTensors then planner.deallocNode t else i

theorem planTemporary_tables (p : ArenaPlanner) (i t : Nat) :
    (p.planTemporary i t).allocNode = Function.update p.allocNode t i ∧
      (p.planTemporary i t).deallocNode =
        Function.update p.deallocNode t (if p.preserveAllTensors then p.deallocNode t else i) ∧
      (p.planTemporary i t).nodesToTensors = (p.queue i t).nodesToTensors ∧ p.SamePlan (p.planTemporary i t) := by
  unfold ArenaPlanner.planTemporary
  dsimp only
  split
  next preserve =>
    have preserved : p.preserveAllTensors = true := preserve
    refine ⟨rfl, ?_, rfl, rfl⟩
    rw [if_pos preserved, Function.update_eq_self]
    rfl
  next dropped =>
    have reused : ¬ p.preserveAllTensors = true := dropped
    refine ⟨rfl, ?_, rfl, rfl⟩
    rw [if_neg reused]
    rfl

theorem Tabled.planTemporary (wf : g.WellFormed) (h : Tabled g planner done p) {i t : Nat} (temp : g.Temporary i t) :
    Tabled g planner (fun j u => done j u ∨ (j = i ∧ u = t)) (p.planTemporary i t) := by
  obtain ⟨alloc, dealloc, queue, same⟩ := planTemporary_tables p i t
  refine ⟨fun j u hu => ?_, fun j u => ?_, fun j => ?_, ?_, fun u no => ?_, fun j u hu => ?_⟩
  · rcases hu with hu | ⟨rfl, rfl⟩
    · exact h.entered j u hu
    · exact temp
  · rw [queue, mem_queue, h.queued]
    tauto
  · rw [queue]
    exact nodup_queue h.nodup i t j
  · rw [same]
    exact h.preserve
  · have other : u ≠ t := by
      rintro rfl
      exact no i (Or.inr ⟨rfl, rfl⟩)
    rw [alloc, dealloc, Function.update_of_ne other, Function.update_of_ne other]
    exact h.others u fun j hj => no j (Or.inl hj)
  · by_cases hut : u = t
    · subst hut
      have place : j = i := by
        rcases hu with hu | ⟨rfl, _⟩
        · exact wf.temporaryOnce j i u (h.entered j u hu) temp
        · rfl
      subst place
      rw [alloc, dealloc, Function.update_self, Function.update_self, h.preserve]
      refine ⟨rfl, ?_⟩
      by_cases before : done j u
      · rw [(h.temporaries j u before).2]
        split <;> rfl
      · have none : ∀ k, ¬ done k u := by
          intro k hk
          exact before (wf.temporaryOnce k j u (h.entered k u hk) temp ▸ hk)
        rw [(h.others u none).2]
    · rw [alloc, dealloc, Function.update_of_ne hut, Function.update_of_ne hut]
      exact h.temporaries j u (hu.resolve_right fun both => hut both.2)

/-- The temporaries of one node. -/
theorem Tabled.planNodeTemporaries (wf : g.WellFormed) (h : Tabled g planner done p) {i : Nat} {l : List Nat}
    (temps : ∀ t ∈ l, g.Temporary i t) :
    Tabled g planner (fun j u => done j u ∨ (j = i ∧ u ∈ l)) (l.foldl (ArenaPlanner.planTemporary i) p) ∧
      p.SamePlan (l.foldl (ArenaPlanner.planTemporary i) p) := by
  induction l generalizing p done with
  | nil => exact ⟨by simpa using h, rfl⟩
  | cons t l ih =>
    obtain ⟨_, _, _, same⟩ := planTemporary_tables p i t
    obtain ⟨tabled, rest⟩ := ih (h.planTemporary wf (temps t List.mem_cons_self))
      fun u hu => temps u (List.mem_cons_of_mem t hu)
    have members : (fun j u => (done j u ∨ (j = i ∧ u = t)) ∨ (j = i ∧ u ∈ l)) =
        fun j u => done j u ∨ (j = i ∧ u ∈ t :: l) := by
      funext j u
      simp only [List.mem_cons, or_assoc, and_or_left]
    rw [members] at tabled
    exact ⟨tabled, same.trans rest⟩

/-- The temporaries of the nodes before `n`. -/
def GraphInfo.TemporaryBefore (g : GraphInfo) (n i t : Nat) : Prop := i < n ∧ g.Temporary i t

theorem Tabled.planTemporaries (wf : g.WellFormed) {firstNode lastNode m : Nat}
    (h : Tabled g planner (g.TemporaryBefore m) p) (first : firstNode ≤ m) (le : firstNode ≤ lastNode) :
    Tabled g planner (g.TemporaryBefore (max m (lastNode + 1))) (p.planTemporaries g firstNode lastNode) ∧
      p.SamePlan (p.planTemporaries g firstNode lastNode) := by
  have loop : ∀ len first m (p : ArenaPlanner), first ≤ m → Tabled g planner (g.TemporaryBefore m) p →
      Tabled g planner (g.TemporaryBefore (max m (first + len)))
        ((List.range' first len).foldl (ArenaPlanner.planNodeTemporaries g) p) ∧
      p.SamePlan ((List.range' first len).foldl (ArenaPlanner.planNodeTemporaries g) p) := by
    intro len
    induction len with
    | zero =>
      intro first m p le h
      rw [Nat.add_zero, Nat.max_eq_left le]
      exact ⟨h, rfl⟩
    | succ len ih =>
      intro first m p le h
      have total : max m (first + (len + 1)) = max (max m (first + 1)) (first + 1 + len) := by omega
      rw [List.range'_succ, List.foldl_cons, total, ArenaPlanner.planNodeTemporaries]
      cases hn : g.nodes[first]? with
      | none =>
        have same : g.TemporaryBefore m = g.TemporaryBefore (max m (first + 1)) := by
          funext i t
          apply propext
          constructor
          · exact fun both => ⟨by have := both.1; omega, both.2⟩
          · rintro ⟨bound, temp⟩
            refine ⟨?_, temp⟩
            by_contra high
            obtain rfl : i = first := by omega
            obtain ⟨node, eq, _⟩ := temp
            cases eq.symm.trans hn
        exact ih (first + 1) _ p (Nat.le_max_right _ _) (same ▸ h)
      | some node =>
        have temps : ∀ t ∈ node.temporaries, g.Temporary first t := fun t ht => ⟨node, hn, ht⟩
        obtain ⟨tabled, same⟩ := h.planNodeTemporaries wf temps
        have members : (fun j u => g.TemporaryBefore m j u ∨ (j = first ∧ u ∈ node.temporaries)) =
            g.TemporaryBefore (max m (first + 1)) := by
          funext i t
          apply propext
          constructor
          · rintro (⟨bound, temp⟩ | ⟨rfl, mem⟩)
            · exact ⟨by omega, temp⟩
            · exact ⟨by omega, temps t mem⟩
          · rintro ⟨bound, temp⟩
            by_cases eq : i = first
            · subst eq
              obtain ⟨other, here, mem⟩ := temp
              cases Option.some.inj (here.symm.trans hn)
              exact Or.inr ⟨rfl, mem⟩
            · exact Or.inl ⟨by omega, temp⟩
        rw [members] at tabled
        obtain ⟨last, rest⟩ := ih (first + 1) _ _ (Nat.le_max_right _ _) tabled
        exact ⟨last, same.trans rest⟩
  have count : firstNode + (lastNode + 1 - firstNode) = lastNode + 1 := by omega
  have all := loop (lastNode + 1 - firstNode) firstNode m p first h
  rw [count] at all
  exact all

end Tables

end AuroraVoice
