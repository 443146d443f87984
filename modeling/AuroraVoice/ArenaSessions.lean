import AuroraVoice.ArenaExecution

namespace AuroraVoice

open Storage

section Session

variable {g : GraphInfo} {planner p : ArenaPlanner} {n : Nat} {kernels : Nat → List (List UInt8) → List (List UInt8)}

/-- The caller writes the graph inputs. -/
def GraphInfo.feed (g : GraphInfo) (values : List (List UInt8)) : Operation Nat UInt8 where
  inputs := []
  outputs := g.inputs.reduceOption
  scratch := []
  kernel := fun _ => values

def GraphInfo.invocation (g : GraphInfo) (kernels : Nat → List (List UInt8) → List (List UInt8))
    (values : List (List UInt8)) : List (Operation Nat UInt8) :=
  g.feed values :: operations kernels 0 g.nodes

/-- The values of the graph inputs, and whether the invocation comes to its end or stops on the way. -/
structure Invocation where
  values : List (List UInt8)
  completes : Bool

def Invocation.Executes (run : Invocation) (loc : Nat → List (Buffer × Nat)) (g : GraphInfo)
    (kernels : Nat → List (List UInt8) → List (List UInt8)) (memory last : Buffer × Nat → UInt8) : Prop :=
  ∃ fed, (g.feed run.values).Executes loc memory fed ∧
    if run.completes then ExecutesAll loc (operations kernels 0 g.nodes) fed last
    else Interrupted loc kernels 0 g.nodes fed last

/-- Invocations one after the other in one memory, with the graph outputs after each that comes to its end. -/
def Invokes (loc : Nat → List (Buffer × Nat)) (g : GraphInfo) (kernels : Nat → List (List UInt8) → List (List UInt8)) :
    List Invocation → (Buffer × Nat → UInt8) → List (Option (List (List UInt8))) → (Buffer × Nat → UInt8) → Prop
  | [], memory, results, last => results = [] ∧ last = memory
  | run :: runs, memory, results, last => ∃ next rest, run.Executes loc g kernels memory next ∧
      Invokes loc g kernels runs next rest last ∧
      results = (if run.completes then some (g.outputs.reduceOption.map (read loc next)) else none) :: rest

/-- What the invocation gives with memory for every tensor. -/
def Invocation.outputs (g : GraphInfo) (kernels : Nat → List (List UInt8) → List (List UInt8)) (env : Nat → List UInt8)
    (run : Invocation) : Option (List (List UInt8)) :=
  if run.completes then some (g.outputs.reduceOption.map (evalAll env (g.invocation kernels run.values))) else none

/-- The constants and the variables. -/
def GraphInfo.Kept (g : GraphInfo) (t : Nat) : Prop := (g.Source t ∨ g.Constant t) ∧ some t ∉ g.inputs

/-- A graph input lies apart from everything else that is there from the start. -/
theorem Placed.source_disjoint (h : Placed g planner p n) {t u : Nat} (ht : g.Source t ∨ g.Constant t) (hu : g.Source u)
    (ne : t ≠ u) : (p.addresses g t).Disjoint (p.addresses g u) := by
  have queued : ∀ {t}, g.Source t → g.Queued 0 t := fun source => Or.inl ⟨rfl, source⟩
  have located : g.Located t := by
    rcases ht with source | constant
    · exact Or.inr ⟨0, queued source⟩
    · exact Or.inl constant.1
  have alive : ∀ {t}, g.Source t → g.Rw t → 0 < (g.tensor t).bytes → AliveAt p 0 (p.findSharedTensor t) :=
    fun source kind size => h.alive_used kind size (queued source) (Nat.le_refl 0) (Nat.zero_le _) (Or.inr (Or.inr source))
  refine h.disjoint (i := 0) located (Or.inr ⟨0, queued hu⟩) ne fun kindT kindU sizeT sizeU => ?_
  have source : g.Source t := ht.resolve_right fun constant => constant.1 (Or.inl kindT)
  refine ⟨alive source kindT sizeT, alive hu kindU sizeU, ?_⟩
  rw [h.source_owner source, h.source_owner hu]
  exact ne

/-- After the inputs are written, everything that is there from the start has its value. -/
theorem Placed.fed (h : Placed g planner p n) {values : List (List UInt8)} {memory fed : Buffer × Nat → UInt8}
    {env : Nat → List UInt8} (feeds : (g.feed values).Executes (p.addresses g) memory fed)
    (agree : ∀ t, g.Kept t → read (p.addresses g) memory t = env t) :
    ∀ t, g.Source t ∨ g.Constant t → read (p.addresses g) fed t = (g.feed values).eval env t := by
  show ∀ t, Live (fun t => g.Source t ∨ g.Constant t) ([] : List (Operation Nat UInt8)) t → _
  refine feeds.agree h.wf.distinctInputs (fun t live => ?_) fun t there out => Or.inr fun u mem => ?_
  · rcases live with input | ⟨out, there⟩
    · cases input
    · exact agree t ⟨there, fun input => out (List.reduceOption_mem_iff.mpr input)⟩
  · have input : u ∈ g.inputs.reduceOption := by simpa [GraphInfo.feed] using mem
    refine h.source_disjoint there (Or.inr (List.reduceOption_mem_iff.mp input)) ?_
    rintro rfl
    exact out input

theorem unwritten {t : Nat} (there : g.Source t ∨ g.Constant t) (wf : g.WellFormed) :
    ∀ op ∈ operations kernels 0 g.nodes, t ∉ op.outputs := by
  intro op mem out
  obtain ⟨i, node, hn, rfl⟩ := operation_node (g := g) rfl mem
  have produces : g.Produces i t := ⟨node, hn, List.reduceOption_mem_iff.mp out⟩
  rcases there with source | constant
  · exact wf.fresh i t produces source
  · exact (constant.2 i).1 produces

/-- One invocation: the outputs are those of its own inputs, and the constants and variables stay. -/
theorem Placed.invocation (h : Placed g planner p n) (keeps : Unmodified g kernels) {run : Invocation}
    {memory last : Buffer × Nat → UInt8} {env : Nat → List UInt8}
    (executes : run.Executes (p.addresses g) g kernels memory last)
    (agree : ∀ t, g.Kept t → read (p.addresses g) memory t = env t) :
    (run.completes = true → g.outputs.reduceOption.map (read (p.addresses g) last) =
        g.outputs.reduceOption.map (evalAll env (g.invocation kernels run.values))) ∧
      ∀ t, g.Kept t → read (p.addresses g) last t = env t := by
  obtain ⟨fed, feeds, rest⟩ := executes
  have start := h.fed feeds agree
  have unfed : ∀ t, g.Kept t → (g.feed run.values).eval env t = env t :=
    fun t kept => eval_outside fun mem => kept.2 (List.reduceOption_mem_iff.mp mem)
  split at rest
  next =>
    have done := h.run keeps rest start
    refine ⟨fun _ => List.map_congr_left fun t mem => done t (Or.inl (List.reduceOption_mem_iff.mp mem)), fun t kept => ?_⟩
    calc read (p.addresses g) last t = evalAll ((g.feed run.values).eval env) (operations kernels 0 g.nodes) t :=
          done t (Or.inr kept.1)
      _ = (g.feed run.values).eval env t := evalAll_outside (unwritten kept.1 h.wf) _
      _ = env t := unfed t kept
  next stopped =>
    refine ⟨fun completes => absurd completes stopped, fun t kept => ?_⟩
    have left := h.interrupted keeps rfl (h.coherent_start _) (fun t live => start t (live.start h.wf)) rest
    rw [left t kept.1, unfed t kept]

/-- Any number of invocations. -/
theorem Placed.invokes (h : Placed g planner p n) (keeps : Unmodified g kernels) {runs : List Invocation}
    {results : List (Option (List (List UInt8)))} {memory last : Buffer × Nat → UInt8} {env : Nat → List UInt8}
    (session : Invokes (p.addresses g) g kernels runs memory results last)
    (agree : ∀ t, g.Kept t → read (p.addresses g) memory t = env t) :
    results = runs.map (Invocation.outputs g kernels env) ∧ ∀ t, g.Kept t → read (p.addresses g) last t = env t := by
  induction runs generalizing memory results with
  | nil =>
    obtain ⟨rfl, rfl⟩ := session
    exact ⟨rfl, agree⟩
  | cons run runs ih =>
    obtain ⟨next, rest, executes, later, rfl⟩ := session
    obtain ⟨outputs, kept⟩ := h.invocation keeps executes agree
    obtain ⟨rfl, stay⟩ := ih later kept
    refine ⟨?_, stay⟩
    rw [List.map_cons, Invocation.outputs]
    split
    next completes => rw [outputs completes]
    next => rfl

end Session

section Sizes

variable {g : GraphInfo} {planner p : ArenaPlanner} {n : Nat} {kernels : Nat → List (List UInt8) → List (List UInt8)}

/-- The values have the sizes of the tensors. -/
def GraphInfo.Fit (g : GraphInfo) (ts : List Nat) (values : List (List UInt8)) : Prop :=
  values.map List.length = ts.map fun t => (g.tensor t).bytes

def GraphInfo.SizedKernels (g : GraphInfo) (kernels : Nat → List (List UInt8) → List (List UInt8)) : Prop :=
  ∀ (i : Nat) (node : TfLiteNode), g.nodes[i]? = some node →
    ∀ args, g.Fit node.inputs.reduceOption args → g.Fit node.outputs.reduceOption (kernels i args)

theorem Placed.addresses_spec (h : Placed g planner p n) {t : Nat} (located : g.Located t) :
    (p.addresses g t).length = (g.tensor t).bytes ∧ (p.addresses g t).Nodup := by
  by_cases empty : (g.tensor t).bytes = 0
  · rw [addresses_empty p empty]
    exact ⟨empty.symm, List.nodup_nil⟩
  · obtain ⟨buffer, offset, _, place⟩ := h.lies located (Nat.pos_of_ne_zero empty)
    rw [place]
    refine ⟨by rw [List.length_map, List.length_range], List.nodup_range.map fun a b eq => ?_⟩
    have offsets := (Prod.mk.inj eq).2
    omega

theorem used_located (wf : g.WellFormed) {i t : Nat} (reads : g.Reads i t) : g.Located t := by
  by_cases inside : (g.tensor t).InArena
  · rcases wf.available t (Or.inl ⟨i, reads⟩) inside with source | ⟨m, produces⟩
    · exact Or.inr ⟨0, Or.inl ⟨rfl, source⟩⟩
    · exact Or.inr ⟨m, Or.inr (Or.inl produces)⟩
  · exact Or.inl inside

theorem Placed.fit (h : Placed g planner p n) {ts : List Nat} (located : ∀ t ∈ ts, g.Located t)
    (values : List (List UInt8)) :
    g.Fit ts values ↔ values.map List.length = ts.map fun t => (p.addresses g t).length := by
  have same : (ts.map fun t => (p.addresses g t).length) = ts.map fun t => (g.tensor t).bytes :=
    List.map_congr_left fun t ht => (h.addresses_spec (located t ht)).1
  rw [same]
  rfl

/-- The outputs of a node lie apart. -/
theorem Placed.outputs_apart (h : Placed g planner p n) {i : Nat} {node : TfLiteNode} (hn : g.nodes[i]? = some node) :
    node.outputs.reduceOption.Pairwise fun o u => (p.addresses g o).Disjoint (p.addresses g u) := by
  refine (h.wf.distinct node (List.mem_of_getElem? hn)).pairwise_of_forall_ne fun o ho u hu ne => ?_
  have writesO : g.Produces i o := ⟨node, hn, List.reduceOption_mem_iff.mp ho⟩
  have writesU : g.Produces i u := ⟨node, hn, List.reduceOption_mem_iff.mp hu⟩
  refine h.disjoint (i := i) (Or.inr ⟨i, Or.inr (Or.inl writesO)⟩) (Or.inr ⟨i, Or.inr (Or.inl writesU)⟩) ne
    fun kindO kindU sizeO sizeU => ⟨h.alive_written kindO sizeO (Or.inl writesO),
      h.alive_written kindU sizeU (Or.inl writesU), fun owner => ?_⟩
  exact ne (h.outputs_owner writesO writesU (h.planned_owner ne owner))

/-- Kernels that keep to the sizes of their tensors can run. -/
theorem Placed.runs (h : Placed g planner p n) (sized : g.SizedKernels kernels) {run : Invocation}
    (fit : g.Fit g.inputs.reduceOption run.values) (memory : Buffer × Nat → UInt8) :
    ∃ last, run.Executes (p.addresses g) g kernels memory last := by
  have source : ∀ t ∈ g.inputs.reduceOption, g.Source t := fun t ht => Or.inr (List.reduceOption_mem_iff.mp ht)
  have inputs : ∀ t ∈ g.inputs.reduceOption, g.Located t := fun t ht => Or.inr ⟨0, Or.inl ⟨rfl, source t ht⟩⟩
  have feeds : (g.feed run.values).Executes (p.addresses g) memory _ := Operation.executes
    (fun _ _ => (h.fit inputs run.values).mp fit)
    (h.wf.distinctInputs.pairwise_of_forall_ne fun t ht u hu ne =>
      h.source_disjoint (Or.inl (source t ht)) (source u hu) ne)
    (fun t ht => (h.addresses_spec (inputs t ht)).2) memory
  have outputs : ∀ {i : Nat} {node : TfLiteNode}, g.nodes[i]? = some node → ∀ t ∈ node.outputs.reduceOption, g.Located t :=
    fun hn t ht => Or.inr ⟨_, Or.inr (Or.inl ⟨_, hn, List.reduceOption_mem_iff.mp ht⟩)⟩
  have rest : ∀ fed, ∃ last, ExecutesAll (p.addresses g) (operations kernels 0 g.nodes) fed last := by
    refine executesAll (fun op mem args lengths => ?_) (fun op mem => ?_) fun op mem => ?_
    · obtain ⟨i, node, hn, rfl⟩ := operation_node (g := g) rfl mem
      have reads : ∀ t ∈ node.inputs.reduceOption, g.Located t :=
        fun t ht => used_located h.wf ⟨node, hn, List.reduceOption_mem_iff.mp ht⟩
      exact (h.fit (outputs hn) _).mp (sized i node hn args ((h.fit reads args).mpr lengths))
    · obtain ⟨i, node, hn, rfl⟩ := operation_node (g := g) rfl mem
      exact h.outputs_apart hn
    · obtain ⟨i, node, hn, rfl⟩ := operation_node (g := g) rfl mem
      exact fun t ht => (h.addresses_spec (outputs hn t ht)).2
  by_cases completes : run.completes = true
  · obtain ⟨last, runs⟩ := rest _
    exact ⟨last, _, feeds, by rwa [if_pos completes]⟩
  · -- an invocation that stops may stop at once
    have stops : ∀ fed, Interrupted (p.addresses g) kernels 0 g.nodes fed fed := by
      intro fed
      cases g.nodes with
      | nil => rfl
      | cons node nodes => exact Or.inl fun _ _ => rfl
    exact ⟨_, _, feeds, by rw [if_neg completes]; exact stops _⟩

theorem Placed.sessions (h : Placed g planner p n) (sized : g.SizedKernels kernels) (runs : List Invocation)
    (fit : ∀ run ∈ runs, g.Fit g.inputs.reduceOption run.values) (memory : Buffer × Nat → UInt8) :
    ∃ results last, Invokes (p.addresses g) g kernels runs memory results last := by
  induction runs generalizing memory with
  | nil => exact ⟨[], memory, rfl, rfl⟩
  | cons run runs ih =>
    obtain ⟨next, executes⟩ := h.runs sized (fit run List.mem_cons_self) memory
    obtain ⟨rest, last, later⟩ := ih (fun v hv => fit v (List.mem_cons_of_mem run hv)) next
    exact ⟨_, last, next, rest, executes, later, rfl⟩

/-- Tensors that share the arenas give every invocation of a session that comes to its end the outputs that its inputs
have with memory for every tensor, whatever stopped before it, and the constants and variables stay. -/
def ArenaPlanner.Computes (p : ArenaPlanner) (g : GraphInfo) : Prop :=
  ∀ kernels, Unmodified g kernels → ∀ runs,
    (g.SizedKernels kernels → (∀ run ∈ runs, g.Fit g.inputs.reduceOption run.values) →
      ∀ memory, ∃ results last, Invokes (p.addresses g) g kernels runs memory results last) ∧
    ∀ memory env results last, (∀ t, g.Kept t → read (p.addresses g) memory t = env t) →
      Invokes (p.addresses g) g kernels runs memory results last →
      results = runs.map (Invocation.outputs g kernels env) ∧ ∀ t, g.Kept t → read (p.addresses g) last t = env t

theorem Placed.computes (placed : Placed g planner p n) : p.Computes g :=
  fun _ keeps runs => ⟨fun sized fit memory => placed.sessions sized runs fit memory,
    fun _ _ _ _ agree session => placed.invokes keeps session agree⟩

end Sizes

section Planning

variable {g : GraphInfo} (wf : g.WellFormed) {sort : (Nat → Nat → Bool) → List Nat → List Nat}
  (perm : ∀ lt l, (sort lt l).Perm l) (start : ArenaPlanner) (pos : 0 < start.tensorAlignment)
  (aligned : start.tensorAlignment ≤ start.arena.bufferAlignment ∧
    start.tensorAlignment ≤ start.persistentArena.bufferAlignment)
  {lasts : List Nat} (batches : Batches (max g.nodes.length 1) 0 lasts)
  (fits : g.weight start.tensorAlignment (max g.nodes.length 1) < 2 ^ 64)
include wf perm pos aligned batches fits

theorem placed_of_batches : ∃ planner p, start.planAllocations g = some planner ∧
    ArenaPlanner.executeBatches sort g 0 lasts planner = some p ∧ (g.InPlaceSafe → Placed g planner p (max g.nodes.length 1)) := by
  obtain ⟨planner, plan, planned, fresh⟩ := planAllocations_spec start g wf.small
  obtain ⟨counted, refs, shared⟩ := fresh.shared
  have shares : Shares g g.nodes.length planner.actualTensorId := shared ▸ identifyInPlaceTensors_shares wf refs
  rw [← fresh.tensorAlignment] at fits
  obtain ⟨p, eq, ready, committed, _⟩ := (fresh.ready planned pos aligned _).batches perm wf planned batches fits (by omega)
  exact ⟨planner, p, plan, eq, fun safe => ready.placed wf safe planned shares fits committed (by omega)⟩

/-- Whatever was planned before, in any order of the tensors of a batch and in any batches: the plan of a well-formed
graph succeeds, and if its in-place operators are safe the arenas serve every session. -/
theorem arena_sessions : ∃ planner p, start.planAllocations g = some planner ∧
    ArenaPlanner.executeBatches sort g 0 lasts planner = some p ∧ (g.InPlaceSafe → p.Computes g) := by
  obtain ⟨planner, p, plan, eq, placed⟩ := placed_of_batches wf perm start pos aligned batches fits
  exact ⟨planner, p, plan, eq, fun safe => (placed safe).computes⟩

end Planning

/-- A convolution with a temporary, a reshape and an activation in place, and a classifier. -/
def fourNodes : GraphInfo where
  tensors := [⟨100, .arenaRw⟩, ⟨60, .arenaRw⟩, ⟨60, .arenaRw⟩, ⟨60, .arenaRw⟩, ⟨12, .arenaRw⟩, ⟨8, .mmapRo⟩, ⟨16, .arenaRw⟩]
  nodes := [⟨[some 0, some 5, none], [some 1], [6], 0⟩, ⟨[some 1], [some 2], [], 5⟩, ⟨[some 2], [some 3], [], 4⟩,
    ⟨[some 3], [some 4], [], 0⟩]
  inputs := [some 0]
  outputs := [some 4]
  variableTensors := []

def fourKernels : Nat → List (List UInt8) → List (List UInt8)
  | 0, args => [(args.headD []).take 60]
  | 1, args => args
  | 2, args => args.map (List.map (· + 1))
  | _, args => [(args.headD []).take 12]

section FourNodes

theorem fourNodes_node {i : Nat} {node : TfLiteNode} (hn : fourNodes.nodes[i]? = some node) :
    (i = 0 ∧ node = ⟨[some 0, some 5, none], [some 1], [6], 0⟩) ∨ (i = 1 ∧ node = ⟨[some 1], [some 2], [], 5⟩) ∨
      (i = 2 ∧ node = ⟨[some 2], [some 3], [], 4⟩) ∨ (i = 3 ∧ node = ⟨[some 3], [some 4], [], 0⟩) := by
  match i, hn with
  | 0, hn => exact Or.inl ⟨rfl, (Option.some.inj hn).symm⟩
  | 1, hn => exact Or.inr (Or.inl ⟨rfl, (Option.some.inj hn).symm⟩)
  | 2, hn => exact Or.inr (Or.inr (Or.inl ⟨rfl, (Option.some.inj hn).symm⟩))
  | 3, hn => exact Or.inr (Or.inr (Or.inr ⟨rfl, (Option.some.inj hn).symm⟩))
  | _ + 4, hn => simp [fourNodes] at hn

theorem fourNodes_produces {i t : Nat} (h : fourNodes.Produces i t) : i < 4 ∧ t = i + 1 := by
  obtain ⟨node, hn, mem⟩ := h
  rcases fourNodes_node hn with ⟨rfl, rfl⟩ | ⟨rfl, rfl⟩ | ⟨rfl, rfl⟩ | ⟨rfl, rfl⟩ <;> simpa using mem

theorem fourNodes_reads {i t : Nat} (h : fourNodes.Reads i t) : i < 4 ∧ (t = i ∨ t = 5) := by
  obtain ⟨node, hn, mem⟩ := h
  rcases fourNodes_node hn with ⟨rfl, rfl⟩ | ⟨rfl, rfl⟩ | ⟨rfl, rfl⟩ | ⟨rfl, rfl⟩
  · simpa using mem
  all_goals
    obtain rfl : t = _ := by simpa using mem
    omega

theorem fourNodes_temporary {i t : Nat} (h : fourNodes.Temporary i t) : i = 0 ∧ t = 6 := by
  obtain ⟨node, hn, mem⟩ := h
  rcases fourNodes_node hn with ⟨rfl, rfl⟩ | ⟨rfl, rfl⟩ | ⟨rfl, rfl⟩ | ⟨rfl, rfl⟩
  · exact ⟨rfl, List.mem_singleton.mp mem⟩
  all_goals cases mem

theorem fourNodes_source {t : Nat} : fourNodes.Source t ↔ t = 0 := by
  simp [GraphInfo.Source, fourNodes]

theorem fourNodes_inplace {i x o k : Nat} {node : TfLiteNode} (h : InPlace fourNodes i x o node k) :
    (i = 1 ∨ i = 2 ∧ node.tensorChanged = true) ∧ x = i ∧ o = i + 1 := by
  obtain ⟨_, written⟩ := fourNodes_produces h.produces
  have flag := h.flag
  have input := h.input
  rcases fourNodes_node h.position with ⟨rfl, rfl⟩ | ⟨rfl, rfl⟩ | ⟨rfl, rfl⟩ | ⟨rfl, rfl⟩
  · exact absurd rfl flag
  · refine ⟨Or.inl rfl, ?_, written⟩
    have mem := List.mem_of_getElem? input
    simpa using mem
  · refine ⟨Or.inr ⟨rfl, by decide⟩, ?_, written⟩
    have mem := List.mem_of_getElem? input
    simpa using mem
  · exact absurd rfl flag

theorem fourNodes_wellFormed : fourNodes.WellFormed := by
  refine ⟨by decide, fun i j t hi hj => ?_, by decide, by decide, fun i t h source => ?_, fun i j t hi hj => ?_,
    fun t used inside => ?_, fun i t h => ?_, fun i j t hi hj => ?_⟩
  · have first := fourNodes_produces hi
    have second := fourNodes_produces hj
    omega
  · have written := fourNodes_produces h
    have zero := fourNodes_source.mp source
    omega
  · have reads := fourNodes_reads hi
    have written := fourNodes_produces hj
    omega
  · have names : t < 4 ∨ t = 5 ∨ t = 4 := by
      rcases used with ⟨i, reads⟩ | output
      · have reads := fourNodes_reads reads
        omega
      · simp [fourNodes] at output
        omega
    match t, names, inside with
    | 0, _, _ => exact Or.inl (fourNodes_source.mpr rfl)
    | 1, _, _ => exact Or.inr ⟨0, _, rfl, by simp⟩
    | 2, _, _ => exact Or.inr ⟨1, _, rfl, by simp⟩
    | 3, _, _ => exact Or.inr ⟨2, _, rfl, by simp⟩
    | 4, _, _ => exact Or.inr ⟨3, _, rfl, by simp⟩
    | 5, _, inside => rcases inside with kind | kind <;> cases kind
    | _ + 6, names, _ => omega
  · obtain ⟨rfl, rfl⟩ := fourNodes_temporary h
    refine ⟨fun source => ?_, fun used => ?_, fun j produces => ?_⟩
    · have zero := fourNodes_source.mp source
      omega
    · rcases used with ⟨j, reads⟩ | output
      · have reads := fourNodes_reads reads
        omega
      · simp [fourNodes] at output
    · have written := fourNodes_produces produces
      omega
  · have first := fourNodes_temporary hi
    have second := fourNodes_temporary hj
    omega

theorem fourNodes_safe : fourNodes.InPlaceSafe := by
  refine ⟨fun node mem _ o output kind => ?_, ?_⟩
  · obtain ⟨i, hn⟩ := List.getElem?_of_mem mem
    have written := fourNodes_produces ⟨node, hn, List.mem_of_mem_head? output⟩
    have tensors : ∀ o < 5, (fourNodes.tensor o).allocationType ≠ .arenaRwPersistent := by decide
    exact tensors o (by omega) kind
  · intro i x o node k place changed r t m j stemsX stemsT hr hx produces before reads
    have written := fourNodes_produces produces
    obtain ⟨position, rfl, _⟩ := fourNodes_inplace place
    -- only tensor 1 is written before the input of the activation
    obtain rfl : t = 1 := by omega
    cases stemsT with
    | self => exact absurd rfl hr
    | step _ last =>
      have earlier := fourNodes_inplace last
      omega

theorem fourKernels_unmodified : Unmodified fourNodes fourKernels := by
  intro i x o node k place kept env
  obtain ⟨⟨rfl⟩ | ⟨rfl, changed⟩, rfl, rfl⟩ := fourNodes_inplace place
  · rcases fourNodes_node place.position with ⟨h, _⟩ | ⟨_, rfl⟩ | ⟨h, _⟩ | ⟨h, _⟩
    · omega
    · simp [Operation.eval, TfLiteNode.operation, fourKernels, assign]
    · omega
    · omega
  · cases changed.symm.trans kept

theorem fourKernels_sized : fourNodes.SizedKernels fourKernels := by
  intro i node hn args fit
  unfold GraphInfo.Fit at fit ⊢
  rcases fourNodes_node hn with ⟨rfl, rfl⟩ | ⟨rfl, rfl⟩ | ⟨rfl, rfl⟩ | ⟨rfl, rfl⟩
  · obtain ⟨a, _, rfl, size, _⟩ := List.map_eq_cons_iff.mp fit
    have taken : (a.take 60).length = 60 := by
      rw [List.length_take, size]
      rfl
    exact congrArg (· :: []) taken
  · exact fit
  · obtain ⟨a, rest, rfl, size, empty⟩ := List.map_eq_cons_iff.mp fit
    obtain rfl := List.map_eq_nil_iff.mp empty
    have same : (a.map (· + 1)).length = 60 := (List.length_map _).trans size
    exact congrArg (· :: []) same
  · obtain ⟨a, _, rfl, size, _⟩ := List.map_eq_cons_iff.mp fit
    have taken : (a.take 12).length = 12 := by
      rw [List.length_take, size]
      rfl
    exact congrArg (· :: []) taken

end FourNodes

/-- Three batches, and an invocation that stops between two others: these give the outputs of their own inputs. -/
theorem four_nodes_sessions :
    ∃ planner p, (ArenaPlanner.new false 64).planAllocations fourNodes = some planner ∧
      ArenaPlanner.executeBatches (fun lt l => l.mergeSort lt) fourNodes 0 [1, 2, 3] planner = some p ∧
      ∃ last, Invokes (p.addresses fourNodes) fourNodes fourKernels
        [⟨[List.replicate 100 0], true⟩, ⟨[List.replicate 100 3], false⟩, ⟨[List.replicate 100 7], true⟩] (fun _ => 1)
        [some [List.replicate 12 1], none, some [List.replicate 12 8]] last := by
  obtain ⟨planner, p, plan, placed, sessions⟩ := arena_sessions fourNodes_wellFormed
    (fun lt l => List.mergeSort_perm l lt) (ArenaPlanner.new false 64) (by decide) (by decide)
    (show Batches _ 0 [1, 2, 3] from ⟨by decide, by decide, by decide, rfl⟩) (by decide)
  obtain ⟨runs, values⟩ := sessions fourNodes_safe fourKernels fourKernels_unmodified
    [⟨[List.replicate 100 0], true⟩, ⟨[List.replicate 100 3], false⟩, ⟨[List.replicate 100 7], true⟩]
  have fit : ∀ run ∈ [Invocation.mk [List.replicate 100 (0 : UInt8)] true, ⟨[List.replicate 100 3], false⟩,
      ⟨[List.replicate 100 7], true⟩], fourNodes.Fit fourNodes.inputs.reduceOption run.values := by
    unfold GraphInfo.Fit
    decide
  obtain ⟨results, last, session⟩ := runs fourKernels_sized fit fun _ => 1
  obtain ⟨outputs, _⟩ := values _ (read (p.addresses fourNodes) fun _ => 1) results last (fun _ _ => rfl) session
  refine ⟨planner, p, plan, placed, last, ?_⟩
  rw [outputs] at session
  exact session

/-- The condition on what is overwritten is needed: after two reshapes in place, the activation writes tensor 4
into the buffer of tensor 2, which the last node still reads. -/
example : ((ArenaPlanner.new false 64).planAllocations {
      tensors := List.replicate 6 ⟨60, .arenaRw⟩
      nodes := [⟨[some 0], [some 1], [], 0⟩, ⟨[some 1], [some 2], [], 5⟩, ⟨[some 2], [some 3], [], 5⟩,
        ⟨[some 3], [some 4], [], 4⟩, ⟨[some 2, some 4], [some 5], [], 0⟩]
      inputs := [some 0]
      outputs := [some 5]
      variableTensors := [] }).map (fun q => (q.findSharedTensor 2, q.findSharedTensor 4)) = some (1, 1) := by
  decide +kernel

end AuroraVoice
