import AuroraVoice.ArenaPlaces
import AuroraVoice.Storage

namespace AuroraVoice

open Storage

/-- A node with its computation, which writes the outputs only. -/
def TfLiteNode.operation (node : TfLiteNode) (kernel : List (List UInt8) → List (List UInt8)) : Operation Nat UInt8 where
  inputs := node.inputs.reduceOption
  outputs := node.outputs.reduceOption
  scratch := node.temporaries
  kernel := kernel

def operations (kernels : Nat → List (List UInt8) → List (List UInt8)) :
    Nat → List TfLiteNode → List (Operation Nat UInt8)
  | _, [] => []
  | i, node :: nodes => node.operation (kernels i) :: operations kernels (i + 1) nodes

/-- What a kernel may have written when it fails. An operator that leaves the data as they are has not touched its
first output, which may lie in the place of an input. -/
def TfLiteNode.spoils (node : TfLiteNode) : List Nat :=
  (if node.tensorChanged then node.outputs else node.outputs.tail).reduceOption ++ node.temporaries

/-- The nodes from `i` on, up to one that fails or before which the run is cancelled. -/
def Interrupted (loc : Nat → List (Buffer × Nat)) (kernels : Nat → List (List UInt8) → List (List UInt8)) :
    Nat → List TfLiteNode → (Buffer × Nat → UInt8) → (Buffer × Nat → UInt8) → Prop
  | _, [], memory, last => last = memory
  | i, node :: nodes, memory, last =>
    (∀ a, (∀ t ∈ node.spoils, a ∉ loc t) → last a = memory a) ∨
      ∃ next, (node.operation (kernels i)).Executes loc memory next ∧ Interrupted loc kernels (i + 1) nodes next last

/-- The kernels registered with `kTfLiteInplaceOpDataUnmodified` hand on the data of the input they share. -/
def Unmodified (g : GraphInfo) (kernels : Nat → List (List UInt8) → List (List UInt8)) : Prop :=
  ∀ i x o node k, InPlace g i x o node k → node.tensorChanged = false →
    ∀ env, (node.operation (kernels i)).eval env o = env x

section Live

variable {g : GraphInfo} {kernels : Nat → List (List UInt8) → List (List UInt8)} {i t : Nat}

/-- A tensor with memory of its own that no node writes. -/
def GraphInfo.Constant (g : GraphInfo) (t : Nat) : Prop :=
  ¬ (g.tensor t).InArena ∧ ∀ i, ¬ g.Produces i t ∧ ¬ g.Temporary i t

/-- The tensors whose values outlast a run. -/
def GraphInfo.Held (g : GraphInfo) (t : Nat) : Prop := some t ∈ g.outputs ∨ g.Source t ∨ g.Constant t

/-- Before node `i` the tensor has its value, and the value is still needed. -/
structure LiveAt (g : GraphInfo) (i t : Nat) : Prop where
  written : ∀ m, g.Produces m t → m < i
  needed : (∃ j, i ≤ j ∧ g.Reads j t) ∨ g.Held t

theorem nodes_at {node : TfLiteNode} {nodes : List TfLiteNode} (rest : g.nodes.drop i = node :: nodes) :
    g.nodes[i]? = some node ∧ g.nodes.drop (i + 1) = nodes := by
  constructor
  · have first : (g.nodes.drop i)[0]? = g.nodes[i + 0]? := List.getElem?_drop
    rw [rest, List.getElem?_cons_zero, Nat.add_zero] at first
    exact first.symm
  · rw [← List.drop_drop, rest]
    rfl

theorem LiveAt.before {node : TfLiteNode} (h : LiveAt g (i + 1) t) (hn : g.nodes[i]? = some node)
    (out : t ∉ node.outputs.reduceOption) : LiveAt g i t := by
  constructor
  · intro m produces
    have le := h.written m produces
    by_contra late
    obtain rfl : m = i := by omega
    obtain ⟨other, here, mem⟩ := produces
    cases Option.some.inj (here.symm.trans hn)
    exact out (List.reduceOption_mem_iff.mpr mem)
  · exact h.needed.imp_left fun ⟨j, hj, reads⟩ => ⟨j, by omega, reads⟩

theorem LiveAt.of_reads (wf : g.WellFormed) (reads : g.Reads i t) : LiveAt g i t :=
  ⟨fun m produces => wf.earlier i m t reads produces, Or.inl ⟨i, Nat.le_refl i, reads⟩⟩

/-- What the remaining nodes need. -/
theorem live_spec (wf : g.WellFormed) {nodes : List TfLiteNode} (rest : g.nodes.drop i = nodes)
    (live : Live g.Held (operations kernels i nodes) t) : LiveAt g i t := by
  induction nodes generalizing i with
  | nil =>
    refine ⟨fun m produces => ?_, Or.inr live⟩
    obtain ⟨node, hn, _⟩ := produces
    have inside := (List.getElem?_eq_some_iff.mp hn).1
    have short := List.drop_eq_nil_iff.mp rest
    omega
  | cons node nodes ih =>
    obtain ⟨hn, next⟩ := nodes_at rest
    rcases live with input | ⟨out, later⟩
    · exact LiveAt.of_reads wf ⟨node, hn, List.reduceOption_mem_iff.mp input⟩
    · exact (ih next later).before hn out

/-- What is needed before the first node is there from the start. -/
theorem LiveAt.start (wf : g.WellFormed) (h : LiveAt g 0 t) : g.Source t ∨ g.Constant t := by
  have none : ∀ m, ¬ g.Produces m t := fun m produces => absurd (h.written m produces) (Nat.not_lt_zero m)
  have used : g.Used t → g.Source t ∨ g.Constant t := by
    intro used
    by_cases inside : (g.tensor t).InArena
    · rcases wf.available t used inside with source | ⟨m, produces⟩
      · exact Or.inl source
      · exact absurd produces (none m)
    · exact Or.inr ⟨inside, fun m => ⟨none m, fun temp => (wf.temporary m t temp).2.1 used⟩⟩
  rcases h.needed with ⟨j, _, reads⟩ | output | held
  · exact used (Or.inl ⟨j, reads⟩)
  · exact used (Or.inr output)
  · exact held

theorem LiveAt.permanent (wf : g.WellFormed) (h : LiveAt g i t) : ∀ j, ¬ g.Temporary j t := by
  intro j temp
  obtain ⟨source, unused, _⟩ := wf.temporary j t temp
  rcases h.needed with ⟨k, _, reads⟩ | output | held | constant
  · exact unused (Or.inl ⟨k, reads⟩)
  · exact unused (Or.inr output)
  · exact source held
  · exact (constant.2 j).2 temp

theorem LiveAt.queued (wf : g.WellFormed) (h : LiveAt g (i + 1) t) (inside : (g.tensor t).InArena) :
    ∃ m ≤ i, g.Queued m t := by
  have used : g.Used t → ∃ m ≤ i, g.Queued m t := by
    intro used
    rcases wf.available t used inside with source | ⟨m, produces⟩
    · exact ⟨0, Nat.zero_le i, Or.inl ⟨rfl, source⟩⟩
    · have before := h.written m produces
      exact ⟨m, by omega, Or.inr (Or.inl produces)⟩
  rcases h.needed with ⟨j, _, reads⟩ | output | source | constant
  · exact used (Or.inl ⟨j, reads⟩)
  · exact used (Or.inr output)
  · exact ⟨0, Nat.zero_le i, Or.inl ⟨rfl, source⟩⟩
  · exact absurd inside constant.1

theorem LiveAt.located (wf : g.WellFormed) (h : LiveAt g (i + 1) t) : g.Located t := by
  by_cases inside : (g.tensor t).InArena
  · obtain ⟨m, _, queued⟩ := h.queued wf inside
    exact Or.inr ⟨m, queued⟩
  · exact Or.inl inside

/-- A tensor in the arena that is live has a use that keeps its buffer. -/
theorem LiveAt.uses (h : LiveAt g (i + 1) t) (kind : g.Rw t) :
    (∃ j, i < j ∧ g.Reads j t) ∨ some t ∈ g.outputs ∨ g.Source t := by
  rcases h.needed with ⟨j, hj, reads⟩ | output | source | constant
  · exact Or.inl ⟨j, hj, reads⟩
  · exact Or.inr (Or.inl output)
  · exact Or.inr (Or.inr source)
  · exact absurd (Or.inl kind) constant.1

end Live

section Values

variable {g : GraphInfo} {planner p : ArenaPlanner} {n : Nat} {kernels : Nat → List (List UInt8) → List (List UInt8)}

theorem one_read {nodes : List TfLiteNode} {node : TfLiteNode} {t : Nat} (mem : node ∈ nodes) (reads : some t ∈ node.inputs) :
    1 ≤ (nodes.flatMap fun node => node.inputs.reduceOption).count t :=
  List.count_pos_iff.mpr (List.mem_flatMap.mpr ⟨node, mem, List.reduceOption_mem_iff.mpr reads⟩)

theorem two_reads {i j t : Nat} (hi : g.Reads i t) (hj : g.Reads j t) (lt : i < j) : 2 ≤ g.reads.count t := by
  obtain ⟨first, hfirst, one⟩ := hi
  obtain ⟨second, hsecond, two⟩ := hj
  have before : first ∈ g.nodes.take j := by
    refine List.mem_of_getElem? (i := i) ?_
    rw [List.getElem?_take_of_lt lt]
    exact hfirst
  have after : second ∈ g.nodes.drop j := by
    refine List.mem_of_getElem? (i := 0) ?_
    rw [List.getElem?_drop, Nat.add_zero]
    exact hsecond
  have low := one_read before one
  have high := one_read after two
  rw [GraphInfo.reads, ← List.take_append_drop j g.nodes, List.flatMap_append, List.count_append]
  omega

/-- A tensor that is read and used in another way as well has two references. -/
theorem two_references {i t : Nat} (reads : g.Reads i t)
    (other : (∃ j, i < j ∧ g.Reads j t) ∨ some t ∈ g.outputs ∨ g.Source t) : 2 ≤ g.references t := by
  have one : 1 ≤ g.reads.count t := by
    obtain ⟨node, hn, mem⟩ := reads
    exact one_read (List.mem_of_getElem? hn) mem
  unfold GraphInfo.references
  rcases other with ⟨j, later, again⟩ | output | variable' | input
  · have two := two_reads reads again later
    omega
  · have held := List.count_pos_iff.mpr (List.reduceOption_mem_iff.mpr output)
    omega
  · have held := List.count_pos_iff.mpr variable'
    omega
  · have held := List.count_pos_iff.mpr (List.reduceOption_mem_iff.mpr input)
    omega

/-- The in-place operator behind a shared buffer is the node that writes the tensor. -/
theorem Placed.share_inplace (h : Placed g planner p n) {i t r : Nat} (plan : planner.actualTensorId t = some r)
    (produces : g.Produces i t) :
    ∃ x node k, InPlace g i x t node k ∧ planner.findSharedTensor x = r ∧ (∃ j ≤ i, g.Reads j r) ∧
      (node.tensorChanged = true → g.references x ≤ 1 ∧ g.references r ≤ 1) := by
  obtain ⟨_, j, x, node, k, _, place, root, read, counted⟩ := h.shares t r plan
  obtain rfl := h.wf.once i j t produces place.produces
  exact ⟨x, node, k, place, root, read, counted⟩

theorem Placed.share_produces (h : Placed g planner p n) {t r : Nat} (plan : planner.actualTensorId t = some r) :
    ∃ i, g.Produces i t ∧ some t ∉ g.outputs := by
  obtain ⟨_, i, x, node, k, _, place, _⟩ := h.shares t r plan
  exact ⟨i, place.produces, place.result⟩

theorem find_of_none {t : Nat} (plan : planner.actualTensorId t = none) : planner.findSharedTensor t = t := by
  rw [ArenaPlanner.findSharedTensor, plan, Option.getD_none]

theorem find_of_some {t r : Nat} (plan : planner.actualTensorId t = some r) : planner.findSharedTensor t = r := by
  rw [ArenaPlanner.findSharedTensor, plan, Option.getD_some]

/-- Tensors in one buffer have their data from its owner. -/
theorem Placed.stems (h : Placed g planner p n) {t r : Nat} (root : planner.findSharedTensor t = r) : Stems g r t := by
  have chain : ∀ i t, g.Produces i t → planner.findSharedTensor t = r → Stems g r t := by
    intro i
    induction i using Nat.strong_induction_on with
    | _ i ih =>
      intro t produces root
      cases plan : planner.actualTensorId t with
      | none =>
        rw [find_of_none plan] at root
        exact root ▸ .self
      | some s =>
        rw [find_of_some plan] at root
        subst root
        obtain ⟨x, node, k, place, owner, _⟩ := h.share_inplace plan produces
        refine .step ?_ place
        cases input : planner.actualTensorId x with
        | none =>
          rw [find_of_none input] at owner
          exact owner ▸ .self
        | some u =>
          obtain ⟨m, written, _⟩ := h.share_produces input
          exact ih m (h.wf.earlier i m x place.reads written) x written owner
  cases plan : planner.actualTensorId t with
  | none =>
    rw [find_of_none plan] at root
    exact root ▸ .self
  | some s =>
    obtain ⟨i, produces, _⟩ := h.share_produces plan
    exact chain i t produces root

/-- An operator that changes the data overwrites no other value that is still needed. -/
theorem Placed.overwrites (h : Placed g planner p n) {i x o r k u : Nat} {node : TfLiteNode}
    (place : InPlace g i x o node k) (changed : node.tensorChanged = true) (root : planner.findSharedTensor x = r)
    (owner : ∃ j ≤ i, g.Reads j r) (counted : g.references x ≤ 1 ∧ g.references r ≤ 1)
    (out : u ∉ node.outputs.reduceOption) (live : LiveAt g (i + 1) u) (kind : g.Rw u)
    (same : planner.findSharedTensor u = r) : False := by
  have uses := live.uses kind
  by_cases hr : u = r
  · subst hr
    obtain ⟨j, hj, reads⟩ := owner
    have two := two_references reads (uses.imp_left fun ⟨l, hl, again⟩ => ⟨l, by omega, again⟩)
    omega
  · have plan : planner.actualTensorId u = some r := by
      cases plan : planner.actualTensorId u with
      | none => exact absurd ((find_of_none plan).symm.trans same) hr
      | some s => rw [← same, find_of_some plan]
    obtain ⟨m, produces, noResult⟩ := h.share_produces plan
    have before := (live.before place.position out).written m produces
    rcases uses with ⟨j, hj, reads⟩ | output | source
    · by_cases hx : u = x
      · subst hx
        have two := two_references place.reads (Or.inl ⟨j, hj, reads⟩)
        omega
      · have last := h.safe.overwrites i x o node k place changed r u m j (h.stems root) (h.stems same) hr hx produces
          before reads
        omega
    · exact noResult output
    · exact h.wf.fresh m u produces source

/-- Live tensors in one buffer have one value. -/
def Coherent (g : GraphInfo) (planner : ArenaPlanner) (i : Nat) (env : Nat → List UInt8) : Prop :=
  ∀ t u, g.Rw t → g.Rw u → LiveAt g i t → LiveAt g i u →
    planner.findSharedTensor t = planner.findSharedTensor u → env t = env u

/-- A node that writes into the buffer of a live tensor writes the value of that tensor. -/
theorem Placed.written_value (h : Placed g planner p n) (keeps : Unmodified g kernels) {i o u : Nat} {node : TfLiteNode}
    {env : Nat → List UInt8} (coherent : Coherent g planner i env) (hn : g.nodes[i]? = some node)
    (ho : o ∈ node.outputs.reduceOption) (out : u ∉ node.outputs.reduceOption) (live : LiveAt g (i + 1) u)
    (kindO : g.Rw o) (kindU : g.Rw u) (owner : planner.findSharedTensor o = planner.findSharedTensor u) :
    (node.operation (kernels i)).eval env o = env u := by
  have produces : g.Produces i o := ⟨node, hn, List.reduceOption_mem_iff.mp ho⟩
  have before := live.before hn out
  cases plan : planner.actualTensorId o with
  | none =>
    -- then `u` would use the buffer of `o` before `o` is written
    rw [find_of_none plan] at owner
    cases other : planner.actualTensorId u with
    | none =>
      rw [find_of_none other] at owner
      exact absurd (owner ▸ ho) out
    | some s =>
      rw [find_of_some other] at owner
      subst owner
      obtain ⟨m, written, _⟩ := h.share_produces other
      obtain ⟨_, _, _, _, _, ⟨j, hj, reads⟩, _⟩ := h.share_inplace other written
      have early := before.written m written
      have late := h.wf.earlier j i o reads produces
      omega
  | some r =>
    rw [find_of_some plan] at owner
    obtain ⟨x, node', k, place, root, read, counted⟩ := h.share_inplace plan produces
    obtain rfl := Option.some.inj (place.position.symm.trans hn)
    cases changed : node'.tensorChanged with
    | true => exact (h.overwrites place changed root read (counted changed) out live kindU owner.symm).elim
    | false =>
      have kindX : g.Rw x := place.kind.elim (fun same => same.trans kindO) id
      calc (node'.operation (kernels i)).eval env o = env x := keeps i x o node' k place changed env
        _ = env u := coherent x u kindX kindU (LiveAt.of_reads h.wf place.reads) before (root.trans owner)

/-- Two outputs of a node have two owners. -/
theorem Placed.outputs_owner (h : Placed g planner p n) {i t u : Nat} (ht : g.Produces i t) (hu : g.Produces i u)
    (owner : planner.findSharedTensor t = planner.findSharedTensor u) : t = u := by
  have one : ∀ t u, g.Produces i t → g.Produces i u → planner.actualTensorId t = none →
      planner.findSharedTensor t = planner.findSharedTensor u → t = u := by
    intro t u ht hu own owner
    rw [find_of_none own] at owner
    cases plan : planner.actualTensorId u with
    | none => rw [owner, find_of_none plan]
    | some r =>
      rw [find_of_some plan] at owner
      subst owner
      obtain ⟨_, _, _, _, _, ⟨j, hj, reads⟩, _⟩ := h.share_inplace plan hu
      have late := h.wf.earlier j i t reads ht
      omega
  cases planT : planner.actualTensorId t with
  | none => exact one t u ht hu planT owner
  | some r =>
    cases planU : planner.actualTensorId u with
    | none => exact (one u t hu ht planU owner.symm).symm
    | some s =>
      obtain ⟨_, _, _, placeT, _⟩ := h.share_inplace planT ht
      obtain ⟨_, _, _, placeU, _⟩ := h.share_inplace planU hu
      obtain rfl := Option.some.inj (placeT.position.symm.trans placeU.position)
      exact Option.some.inj (Option.some.inj (placeT.output.symm.trans placeU.output))

theorem Placed.coherent_start (h : Placed g planner p n) (env : Nat → List UInt8) : Coherent g planner 0 env := by
  have own : ∀ t, LiveAt g 0 t → planner.findSharedTensor t = t := by
    intro t live
    cases plan : planner.actualTensorId t with
    | none => exact find_of_none plan
    | some r =>
      obtain ⟨m, produces, _⟩ := h.share_produces plan
      exact absurd (live.written m produces) (Nat.not_lt_zero m)
  intro t u _ _ liveT liveU owner
  rw [own t liveT, own u liveU] at owner
  rw [owner]

theorem Placed.coherent_step (h : Placed g planner p n) (keeps : Unmodified g kernels) {i : Nat} {node : TfLiteNode}
    {env : Nat → List UInt8} (coherent : Coherent g planner i env) (hn : g.nodes[i]? = some node) :
    Coherent g planner (i + 1) ((node.operation (kernels i)).eval env) := by
  have produces : ∀ t ∈ node.outputs.reduceOption, g.Produces i t :=
    fun t ht => ⟨node, hn, List.reduceOption_mem_iff.mp ht⟩
  -- one of the two is written by the node
  have mixed : ∀ t u, g.Rw t → g.Rw u → LiveAt g (i + 1) u → t ∈ node.outputs.reduceOption →
      u ∉ node.outputs.reduceOption → planner.findSharedTensor t = planner.findSharedTensor u →
      (node.operation (kernels i)).eval env t = (node.operation (kernels i)).eval env u := by
    intro t u kindT kindU live ht hu owner
    rw [h.written_value keeps coherent hn ht hu live kindT kindU owner, eval_outside (by exact hu)]
  intro t u kindT kindU liveT liveU owner
  by_cases ht : t ∈ node.outputs.reduceOption
  · by_cases hu : u ∈ node.outputs.reduceOption
    · rw [h.outputs_owner (produces t ht) (produces u hu) owner]
    · exact mixed t u kindT kindU liveU ht hu owner
  · by_cases hu : u ∈ node.outputs.reduceOption
    · exact (mixed u t kindU kindT liveT hu ht owner.symm).symm
    · rw [eval_outside (by exact ht), eval_outside (by exact hu)]
      exact coherent t u kindT kindU (liveT.before hn ht) (liveU.before hn hu) owner

end Values

section Spares

variable {g : GraphInfo} {planner p : ArenaPlanner} {n : Nat} {kernels : Nat → List (List UInt8) → List (List UInt8)}

/-- Tensors that still share a buffer shared it in the plan. -/
theorem Placed.planned_owner (h : Placed g planner p n) {t u : Nat} (ne : t ≠ u)
    (owner : p.findSharedTensor t = p.findSharedTensor u) : planner.findSharedTensor t = planner.findSharedTensor u := by
  rcases h.owner_cases t with selfT | ⟨r, _, rootT, planT⟩
  · rcases h.owner_cases u with selfU | ⟨s, _, rootU, planU⟩
    · exact absurd (selfT.symm.trans (owner.trans selfU)) ne
    · obtain rfl : t = s := selfT.symm.trans (owner.trans rootU)
      rw [find_of_some planU, find_of_none (h.shares u t planU).1]
  · rcases h.owner_cases u with selfU | ⟨s, _, rootU, planU⟩
    · obtain rfl : u = r := selfU.symm.trans (owner.symm.trans rootT)
      rw [find_of_some planT, find_of_none (h.shares t u planT).1]
    · rw [find_of_some planT, find_of_some planU]
      exact rootT.symm.trans (owner.trans rootU)

/-- A temporary shares its buffer with no tensor. -/
theorem Placed.temporary_owner (h : Placed g planner p n) {i s t : Nat} (temp : g.Temporary i s) (ne : t ≠ s) :
    p.findSharedTensor t ≠ p.findSharedTensor s := by
  obtain ⟨_, unused, unwritten⟩ := h.wf.temporary i s temp
  intro owner
  have selfS : p.findSharedTensor s = s := by
    rcases h.owner_cases s with self | ⟨r, _, _, plan⟩
    · exact self
    · obtain ⟨j, produces, _⟩ := h.share_produces plan
      exact absurd produces (unwritten j)
  rcases h.owner_cases t with selfT | ⟨r, _, root, plan⟩
  · exact ne (selfT.symm.trans (owner.trans selfS))
  · obtain rfl : s = r := selfS.symm.trans (owner.symm.trans root)
    obtain ⟨j, produces, _⟩ := h.share_produces plan
    obtain ⟨_, _, _, _, _, ⟨l, _, reads⟩, _⟩ := h.share_inplace plan produces
    exact unused (Or.inl ⟨l, reads⟩)

theorem node_lt {i : Nat} {node : TfLiteNode} (wf : g.WellFormed) (hn : g.nodes[i]? = some node) : i ≤ kNodeNotAssigned := by
  have inside := (List.getElem?_eq_some_iff.mp hn).1
  have small := wf.small
  omega

/-- The owner of the buffer of a live tensor is in use. -/
theorem Placed.alive_live (h : Placed g planner p n) {i t : Nat} {node : TfLiteNode} (hn : g.nodes[i]? = some node)
    (live : LiveAt g (i + 1) t) (kind : g.Rw t) (size : 0 < (g.tensor t).bytes) : AliveAt p i (p.findSharedTensor t) := by
  obtain ⟨m, le, queued⟩ := live.queued h.wf (Or.inl kind)
  exact h.alive_used kind size queued le (node_lt h.wf hn)
    ((live.uses kind).imp_left fun ⟨j, hj, reads⟩ => ⟨j, by omega, reads⟩)

/-- Outputs lie apart from the live tensors in other buffers. -/
theorem Placed.output_disjoint (h : Placed g planner p n) {i t o : Nat} {node : TfLiteNode} (hn : g.nodes[i]? = some node)
    (live : LiveAt g (i + 1) t) (mem : o ∈ node.outputs.reduceOption) (ne : t ≠ o)
    (foreign : g.Rw t → g.Rw o → 0 < (g.tensor t).bytes → 0 < (g.tensor o).bytes →
      p.findSharedTensor t ≠ p.findSharedTensor o) : (p.addresses g t).Disjoint (p.addresses g o) := by
  have produces : g.Produces i o := ⟨node, hn, List.reduceOption_mem_iff.mp mem⟩
  refine h.disjoint (i := i) (live.located h.wf) (Or.inr ⟨i, Or.inr (Or.inl produces)⟩) ne fun kindT kindO sizeT sizeO => ?_
  exact ⟨h.alive_live hn live kindT sizeT, h.alive_written kindO sizeO (Or.inl produces), foreign kindT kindO sizeT sizeO⟩

/-- Temporaries lie apart from all live tensors. -/
theorem Placed.temporary_disjoint (h : Placed g planner p n) {i t o : Nat} {node : TfLiteNode}
    (hn : g.nodes[i]? = some node) (live : LiveAt g (i + 1) t) (mem : o ∈ node.temporaries) :
    (p.addresses g t).Disjoint (p.addresses g o) := by
  have scratch : g.Temporary i o := ⟨node, hn, mem⟩
  have ne : t ≠ o := by
    rintro rfl
    exact live.permanent h.wf i scratch
  refine h.disjoint (i := i) (live.located h.wf) (Or.inr ⟨i, Or.inr (Or.inr scratch)⟩) ne fun kindT kindO sizeT sizeO => ?_
  exact ⟨h.alive_live hn live kindT sizeT, h.alive_written kindO sizeO (Or.inr scratch), h.temporary_owner scratch ne⟩

/-- A node touches the place of a live tensor only to write its value there again. -/
theorem Placed.spares (h : Placed g planner p n) (keeps : Unmodified g kernels) {i t : Nat} {node : TfLiteNode}
    {env : Nat → List UInt8} (coherent : Coherent g planner i env) (hn : g.nodes[i]? = some node)
    (live : LiveAt g (i + 1) t) (out : t ∉ node.outputs.reduceOption) :
    (node.operation (kernels i)).Spares (p.addresses g) env t := by
  by_cases shared : ∃ o ∈ node.outputs.reduceOption, g.Rw o ∧ g.Rw t ∧ 0 < (g.tensor o).bytes ∧ 0 < (g.tensor t).bytes ∧
      p.findSharedTensor t = p.findSharedTensor o
  · obtain ⟨o, ho, kindO, kindT, sizeO, sizeT, owner⟩ := shared
    have ne : t ≠ o := by
      rintro rfl
      exact out ho
    obtain ⟨m, _, queued⟩ := live.queued h.wf (Or.inl kindT)
    have appears : g.Appears o := ⟨i, Or.inr (Or.inl ⟨node, hn, List.reduceOption_mem_iff.mp ho⟩)⟩
    refine Or.inl ⟨o, ho, h.same_place ⟨m, queued⟩ appears kindT kindO sizeT sizeO owner, ?_⟩
    exact h.written_value keeps coherent hn ho out live kindO kindT (h.planned_owner ne owner).symm
  · refine Or.inr fun o mem => ?_
    rcases List.mem_append.mp mem with ho | temp
    · have ne : t ≠ o := by
        rintro rfl
        exact out ho
      exact h.output_disjoint hn live ho ne fun kindT kindO sizeT sizeO owner =>
        shared ⟨o, ho, kindO, kindT, sizeO, sizeT, owner⟩
    · exact h.temporary_disjoint hn live temp

theorem Placed.sparesLive (h : Placed g planner p n) (keeps : Unmodified g kernels) {nodes : List TfLiteNode} {i : Nat}
    {env : Nat → List UInt8} (rest : g.nodes.drop i = nodes) (coherent : Coherent g planner i env) :
    SparesLive (p.addresses g) g.Held env (operations kernels i nodes) := by
  induction nodes generalizing i env with
  | nil => trivial
  | cons node nodes ih =>
    obtain ⟨hn, next⟩ := nodes_at rest
    refine ⟨fun t live out => ?_, ih next (h.coherent_step keeps coherent hn)⟩
    exact h.spares keeps coherent hn (live_spec h.wf next live) out

/-- One node leaves all that is still needed as with memory for every tensor. -/
theorem Placed.node (h : Placed g planner p n) (keeps : Unmodified g kernels) {i : Nat} {node : TfLiteNode}
    {env : Nat → List UInt8} {memory next : Buffer × Nat → UInt8} (coherent : Coherent g planner i env)
    (hn : g.nodes[i]? = some node) (one : (node.operation (kernels i)).Executes (p.addresses g) memory next)
    (agree : ∀ t, LiveAt g i t → read (p.addresses g) memory t = env t) :
    ∀ t, LiveAt g (i + 1) t → read (p.addresses g) next t = (node.operation (kernels i)).eval env t := by
  show ∀ t, Live (LiveAt g (i + 1)) ([] : List (Operation Nat UInt8)) t → _
  refine one.agree (h.wf.distinct node (List.mem_of_getElem? hn)) (fun t live => agree t ?_)
    fun t live out => h.spares keeps coherent hn live out
  rcases live with input | ⟨out, later⟩
  · exact LiveAt.of_reads h.wf ⟨node, hn, List.reduceOption_mem_iff.mp input⟩
  · exact LiveAt.before later hn out

/-- What is there from the start is needed to the end. -/
theorem LiveAt.of_start (wf : g.WellFormed) {t : Nat} (there : g.Source t ∨ g.Constant t) (i : Nat) : LiveAt g i t := by
  refine ⟨fun m produces => ?_, Or.inr (Or.inr there)⟩
  rcases there with source | constant
  · exact absurd source (wf.fresh m t produces)
  · exact absurd produces (constant.2 m).1

theorem Placed.source_owner (h : Placed g planner p n) {t : Nat} (source : g.Source t) : p.findSharedTensor t = t := by
  rcases h.owner_cases t with self | ⟨r, _, _, plan⟩
  · exact self
  · obtain ⟨i, produces, _⟩ := h.share_produces plan
    exact absurd source (h.wf.fresh i t produces)

/-- An output in the buffer of a variable is the first one of an operator that leaves the data as they are. -/
theorem Placed.source_shared (h : Placed g planner p n) {i t o : Nat} {node : TfLiteNode} (hn : g.nodes[i]? = some node)
    (source : g.Source t) (mem : o ∈ node.outputs.reduceOption) (owner : p.findSharedTensor o = t) :
    node.tensorChanged = false ∧ node.outputs.head? = some (some o) := by
  have produces : g.Produces i o := ⟨node, hn, List.reduceOption_mem_iff.mp mem⟩
  rcases h.owner_cases o with self | ⟨r, _, root, plan⟩
  · obtain rfl := self.symm.trans owner
    exact absurd source (h.wf.fresh i o produces)
  · obtain rfl := root.symm.trans owner
    obtain ⟨x, other, k, place, _, ⟨j, _, reads⟩, counted⟩ := h.share_inplace plan produces
    obtain rfl := Option.some.inj (place.position.symm.trans hn)
    refine ⟨?_, place.output⟩
    cases changed : other.tensorChanged with
    | false => rfl
    | true =>
      have one := (counted changed).2
      have two := two_references reads (Or.inr (Or.inr source))
      omega

/-- A kernel that fails spoils nothing that is there from the start. -/
theorem Placed.unspoiled (h : Placed g planner p n) {i t o : Nat} {node : TfLiteNode} (hn : g.nodes[i]? = some node)
    (there : g.Source t ∨ g.Constant t) (mem : o ∈ node.spoils) : (p.addresses g t).Disjoint (p.addresses g o) := by
  have live := LiveAt.of_start h.wf there (i + 1)
  rcases List.mem_append.mp mem with out | temp
  · have ho : o ∈ node.outputs.reduceOption := by
      rw [List.reduceOption_mem_iff] at out ⊢
      split at out
      next => exact out
      next => exact List.mem_of_mem_tail out
    have ne : t ≠ o := by
      rintro rfl
      exact absurd ((LiveAt.of_start h.wf there 0).written i ⟨node, hn, List.reduceOption_mem_iff.mp ho⟩) (Nat.not_lt_zero i)
    refine h.output_disjoint hn live ho ne fun kindT _ _ _ owner => ?_
    have source : g.Source t := there.resolve_right fun constant => constant.1 (Or.inl kindT)
    obtain ⟨same, first⟩ := h.source_shared hn source ho (owner.symm.trans (h.source_owner source))
    -- the other outputs are different tensors
    obtain ⟨others, outputs⟩ := List.head?_eq_some_iff.mp first
    have distinct := h.wf.distinct node (List.mem_of_getElem? hn)
    rw [outputs, List.reduceOption_cons_of_some] at distinct
    rw [same, outputs] at out
    exact (List.nodup_cons.mp distinct).1 out
  · exact h.temporary_disjoint hn live temp

/-- A run that stops leaves what is there from the start. -/
theorem Placed.interrupted (h : Placed g planner p n) (keeps : Unmodified g kernels) {nodes : List TfLiteNode} {i : Nat}
    {memory last : Buffer × Nat → UInt8} {env : Nat → List UInt8} (rest : g.nodes.drop i = nodes)
    (coherent : Coherent g planner i env) (agree : ∀ t, LiveAt g i t → read (p.addresses g) memory t = env t)
    (run : Interrupted (p.addresses g) kernels i nodes memory last) :
    ∀ t, g.Source t ∨ g.Constant t → read (p.addresses g) last t = env t := by
  induction nodes generalizing i memory env with
  | nil =>
    intro t there
    rw [show last = memory from run]
    exact agree t (LiveAt.of_start h.wf there i)
  | cons node nodes ih =>
    obtain ⟨hn, next⟩ := nodes_at rest
    intro t there
    rcases run with stopped | ⟨after, one, later⟩
    · rw [← agree t (LiveAt.of_start h.wf there i)]
      exact List.map_congr_left fun a ha => stopped a fun o mem => h.unspoiled hn there mem ha
    · have written := ih next (h.coherent_step keeps coherent hn) (h.node keeps coherent hn one agree) later t there
      rw [written]
      refine eval_outside fun out => ?_
      exact absurd ((LiveAt.of_start h.wf there i).written i ⟨node, hn, List.reduceOption_mem_iff.mp out⟩) (Nat.lt_irrefl i)

theorem operation_node {i : Nat} {nodes : List TfLiteNode} {op : Operation Nat UInt8} (rest : g.nodes.drop i = nodes)
    (mem : op ∈ operations kernels i nodes) :
    ∃ (j : Nat) (node : TfLiteNode), g.nodes[j]? = some node ∧ op = node.operation (kernels j) := by
  induction nodes generalizing i with
  | nil => cases mem
  | cons node nodes ih =>
    obtain ⟨hn, next⟩ := nodes_at rest
    rcases List.mem_cons.mp mem with rfl | later
    · exact ⟨i, node, hn, rfl⟩
    · exact ih next later

/-- One run of the nodes leaves the results, and all that is to last, as with memory for every tensor. -/
theorem Placed.run (h : Placed g planner p n) (keeps : Unmodified g kernels) {memory last : Buffer × Nat → UInt8}
    {env : Nat → List UInt8} (run : ExecutesAll (p.addresses g) (operations kernels 0 g.nodes) memory last)
    (agree : ∀ t, g.Source t ∨ g.Constant t → read (p.addresses g) memory t = env t) :
    ∀ t, g.Held t → read (p.addresses g) last t = evalAll env (operations kernels 0 g.nodes) t := by
  refine run.results (fun op mem => ?_) (fun t live => ?_) (h.sparesLive keeps rfl (h.coherent_start env))
  · obtain ⟨_, node, hn, rfl⟩ := operation_node (g := g) rfl mem
    exact h.wf.distinct node (List.mem_of_getElem? hn)
  · exact agree t ((live_spec h.wf rfl live).start h.wf)

end Spares

end AuroraVoice
