import AuroraVoice.ArenaSessions
import AuroraVoice.PluginHistory

namespace AuroraVoice

open Storage

/-- The graph of a loaded model with one input, and its kernels. -/
structure Network where
  graph : GraphInfo
  kernels : Nat → List (List UInt8) → List (List UInt8)
  input : Nat
  output : Nat
  wf : graph.WellFormed
  inputs : graph.inputs = [some input]
  outputs : some output ∈ graph.outputs
  keeps : Unmodified graph kernels
  sized : graph.SizedKernels kernels

/-- TFLite as a function: `Invoke` with memory for every tensor, or one that fails. -/
def Network.lite (net : Network) (env : Nat → List UInt8) (completes : Bool) : TfLite Unit where
  parses _ := true
  builds _ := true
  allocates _ := true
  inputSize _ := some (net.graph.tensor net.input).bytes
  invoke _ bytes :=
    if completes then some (some (evalAll env (net.graph.invocation net.kernels [bytes]) net.output)) else none

/-- The calls of `run_inference` that get as far as `Invoke`. -/
def Network.Accepts (net : Network) (x : PcmBuffer) : Prop :=
  x.samples.isSome ∧ 0 < x.length ∧ (net.graph.tensor net.input).bytes = x.length.toNatClampNeg * 2

/-- A buffer for `run_inference`, and whether `Invoke` would come to its end with it. -/
structure Inference where
  buffer : PcmBuffer
  completes : Bool

def Inference.invocation (x : Inference) : Invocation :=
  ⟨[pcmBytes (x.buffer.samples.getD []) x.buffer.length.toNatClampNeg], x.completes⟩

/-- `run_inference` with the tensors in the arenas. -/
structure Network.Infers (net : Network) (loc : Nat → List (Buffer × Nat)) (plugin : Plugin Unit) (x : Inference)
    (stray : BitVec 32) (memory last : Buffer × Nat → UInt8) (result : NativeResult Unit) : Prop where
  accepted : net.Accepts x.buffer → x.invocation.Executes loc net.graph net.kernels memory last
  refused : ¬ net.Accepts x.buffer → last = memory
  result : result = plugin.runInference x.buffer.samples x.buffer.length
    ⟨some (net.graph.tensor net.input).bytes,
      some (net.graph.tensor net.input).bytes == some (x.buffer.length.toNatClampNeg * 2), x.completes,
      some (read loc last net.output), stray⟩

/-- Calls of `run_inference` one after the other, with what they return. -/
def Network.Session (net : Network) (loc : Nat → List (Buffer × Nat)) :
    (Nat → BitVec 32) → Plugin Unit → List Inference → (Buffer × Nat → UInt8) → List Int → Prop
  | _, _, [], _, values => values = []
  | stray, plugin, x :: xs, memory, values => ∃ last result rest, net.Infers loc plugin x (stray 0) memory last result ∧
      net.Session loc (fun k => stray (k + 1)) result.plugin xs last rest ∧ values = result.value :: rest

section Refinement

variable {net : Network} {planner p : ArenaPlanner} {n : Nat} {env : Nat → List UInt8}

theorem Network.infer_eq {plugin : Plugin Unit} {x : Inference} (loaded : (net.lite env x.completes).Sized () plugin)
    (stray : BitVec 32) {out : List UInt8} (answer : net.Accepts x.buffer → x.completes = true →
      out = evalAll env (net.graph.invocation net.kernels x.invocation.values) net.output) :
    plugin.runInference x.buffer.samples x.buffer.length ⟨some (net.graph.tensor net.input).bytes,
      some (net.graph.tensor net.input).bytes == some (x.buffer.length.toNatClampNeg * 2), x.completes, some out, stray⟩ =
      (net.lite env x.completes).infer plugin x.buffer stray := by
  obtain ⟨i, hi, _, full⟩ := loaded
  obtain ⟨⟨samples, length, readable⟩, completes⟩ := x
  simp only [TfLite.infer, hi]
  by_cases accepted : net.Accepts ⟨samples, length, readable⟩
  · -- the copy fills the input tensor
    have whole : i.input.drop (length.toNatClampNeg * 2) = [] :=
      List.drop_eq_nil_iff.mpr (Nat.le_of_eq ((full _ rfl).trans accepted.2.2))
    simp only [TfLite.inferenceOutcome, whole, List.append_nil]
    cases completes with
    | true =>
      rw [answer accepted rfl]
      rfl
    | false =>
      -- the output tensor is not looked at after an `Invoke` that fails
      obtain ⟨given, pos, size⟩ := accepted
      cases samples with
      | none => cases given
      | some samples => simp [Plugin.runInference, hi, Network.lite]
  · -- nor after a check that refuses the call
    simp only [TfLite.inferenceOutcome, Plugin.runInference, hi, Network.lite]
    cases samples with
    | none => rfl
    | some samples =>
      by_cases empty : length ≤ 0
      · simp only [empty, if_true]
      · have short : (net.graph.tensor net.input).bytes ≠ length.toNatClampNeg * 2 :=
          fun same => accepted ⟨rfl, Int32.not_le.mp empty, same⟩
        have failed : (some (net.graph.tensor net.input).bytes == some (length.toNatClampNeg * 2)) = false := by
          simpa using short
        simp only [empty, failed, if_false, Bool.not_false, if_true]

theorem Network.Infers.step (placed : Placed net.graph planner p n) {plugin : Plugin Unit} {x : Inference}
    (loaded : (net.lite env x.completes).Sized () plugin) {stray : BitVec 32} {memory last : Buffer × Nat → UInt8}
    {result : NativeResult Unit} (infers : net.Infers (p.addresses net.graph) plugin x stray memory last result)
    (agree : ∀ t, net.graph.Kept t → read (p.addresses net.graph) memory t = env t) :
    result = (net.lite env x.completes).infer plugin x.buffer stray ∧
      ∀ t, net.graph.Kept t → read (p.addresses net.graph) last t = env t := by
  constructor
  · refine infers.result.trans (Network.infer_eq loaded stray fun accepted completes => ?_)
    have outputs := (placed.invocation net.keeps (infers.accepted accepted) agree).1 completes
    exact List.map_inj_left.mp outputs net.output (List.reduceOption_mem_iff.mpr net.outputs)
  · by_cases accepted : net.Accepts x.buffer
    · exact (placed.invocation net.keeps (infers.accepted accepted) agree).2
    · rw [infers.refused accepted]
      exact agree

theorem Network.Session.results (placed : Placed net.graph planner p n) {plugin : Plugin Unit}
    (loaded : ∀ completes, (net.lite env completes).Sized () plugin) {xs : List Inference} {stray : Nat → BitVec 32}
    {memory : Buffer × Nat → UInt8} {values : List Int}
    (session : net.Session (p.addresses net.graph) stray plugin xs memory values)
    (agree : ∀ t, net.graph.Kept t → read (p.addresses net.graph) memory t = env t) :
    values = xs.map fun x => (net.lite env x.completes).answer () x.buffer := by
  induction xs generalizing plugin stray memory values with
  | nil => exact session
  | cons x xs ih =>
    obtain ⟨last, result, rest, infers, later, rfl⟩ := session
    obtain ⟨rfl, kept⟩ := infers.step placed (loaded x.completes) agree
    obtain ⟨value, next⟩ := (net.lite env x.completes).infer_spec (loaded x.completes) x.buffer (stray 0)
    rw [List.map_cons, value, ih (fun _ => next) later kept]

theorem Network.sessions (placed : Placed net.graph planner p n) (xs : List Inference) (stray : Nat → BitVec 32)
    (plugin : Plugin Unit) (memory : Buffer × Nat → UInt8) :
    ∃ values, net.Session (p.addresses net.graph) stray plugin xs memory values := by
  induction xs generalizing stray plugin memory with
  | nil => exact ⟨[], rfl⟩
  | cons x xs ih =>
    have one : ∃ last, (net.Accepts x.buffer → x.invocation.Executes (p.addresses net.graph) net.graph net.kernels memory last) ∧
        (¬ net.Accepts x.buffer → last = memory) := by
      by_cases accepted : net.Accepts x.buffer
      · obtain ⟨samples, some', pos, size⟩ : ∃ samples, x.buffer.samples = some samples ∧ 0 < x.buffer.length ∧ _ :=
          ⟨_, (Option.some_get accepted.1).symm, accepted.2⟩
        have length := length_pcmBytes (x.buffer.readable samples some')
        have fit : net.graph.Fit net.graph.inputs.reduceOption x.invocation.values := by
          unfold GraphInfo.Fit
          rw [net.inputs, Inference.invocation, some']
          simp only [List.reduceOption_singleton, Option.toList_some, List.map_cons, List.map_nil, Option.getD_some, length, size]
        obtain ⟨last, run⟩ := placed.runs net.sized fit memory
        exact ⟨last, fun _ => run, fun refused => absurd accepted refused⟩
      · exact ⟨memory, fun a => absurd a accepted, fun _ => rfl⟩
    obtain ⟨last, accepted, refused⟩ := one
    obtain ⟨rest, later⟩ := ih (fun k => stray (k + 1)) _ last
    exact ⟨_, last, _, rest, ⟨accepted, refused, rfl⟩, later, rfl⟩

end Refinement

/-- However often the plugin is called, with null buffers, wrong sizes and an `Invoke` that fails in between: with the
tensors in the shared arenas each call answers as TFLite does as a function of its own buffer. -/
theorem plugin_answers_in_arena (net : Network) (safe : net.graph.InPlaceSafe)
    {sort : (Nat → Nat → Bool) → List Nat → List Nat} (perm : ∀ lt l, (sort lt l).Perm l) (start : ArenaPlanner)
    (pos : 0 < start.tensorAlignment) (aligned : start.tensorAlignment ≤ start.arena.bufferAlignment ∧
      start.tensorAlignment ≤ start.persistentArena.bufferAlignment)
    {lasts : List Nat} (batches : Batches (max net.graph.nodes.length 1) 0 lasts)
    (fits : net.graph.weight start.tensorAlignment (max net.graph.nodes.length 1) < 2 ^ 64) :
    ∃ planner p, start.planAllocations net.graph = some planner ∧
      ArenaPlanner.executeBatches sort net.graph 0 lasts planner = some p ∧
      ∀ plugin memory env, (net.lite env true).Sized () plugin →
        (∀ t, net.graph.Kept t → read (p.addresses net.graph) memory t = env t) → ∀ stray xs,
        (∃ values, net.Session (p.addresses net.graph) stray plugin xs memory values) ∧
        ∀ values, net.Session (p.addresses net.graph) stray plugin xs memory values →
          values = xs.map fun x => (net.lite env x.completes).answer () x.buffer := by
  obtain ⟨planner, p, plan, eq, place⟩ := placed_of_batches net.wf perm start pos aligned batches fits
  have placed := place safe
  refine ⟨planner, p, plan, eq, fun plugin memory env loaded agree stray xs => ⟨?_, fun values session => ?_⟩⟩
  · exact Network.sessions placed xs stray plugin memory
  · exact session.results placed (fun _ => loaded) agree

def fourNetwork : Network where
  graph := fourNodes
  kernels := fourKernels
  input := 0
  output := 4
  wf := fourNodes_wellFormed
  inputs := rfl
  outputs := List.mem_singleton.mpr rfl
  keeps := fourKernels_unmodified
  sized := fourKernels_sized

/-- A call with 50 samples, one with an `Invoke` that fails, one without a buffer, one that is too short, and
one whose second output is the largest. -/
def fiveInferences : List Inference :=
  [⟨⟨some (List.replicate 50 258), 50, by decide⟩, true⟩, ⟨⟨some (List.replicate 50 7), 50, by decide⟩, false⟩,
    ⟨⟨none, 50, nofun⟩, true⟩, ⟨⟨some (List.replicate 50 0), 49, by decide⟩, true⟩,
    ⟨⟨some (List.replicate 2 0 ++ List.replicate 48 16191), 50, by decide⟩, true⟩]

theorem four_network_answers :
    ∃ planner p, (ArenaPlanner.new false 64).planAllocations fourNodes = some planner ∧
      ArenaPlanner.executeBatches (fun lt l => l.mergeSort lt) fourNodes 0 [3] planner = some p ∧
      fourNetwork.Session (p.addresses fourNodes) (fun _ => 0)
        ⟨none, some ⟨2, 0, 1, (), true, List.replicate 100 0⟩, none, 3⟩ fiveInferences (fun _ => 0) [0, -1, -1, -1, 1] := by
  obtain ⟨planner, p, plan, placed, answers⟩ := plugin_answers_in_arena fourNetwork fourNodes_safe
    (fun lt l => List.mergeSort_perm l lt) (ArenaPlanner.new false 64) (by decide) (by decide)
    (show Batches _ 0 [3] from ⟨by decide, rfl⟩) (by decide)
  have constants : ∀ t, fourNodes.Kept t →
      read (p.addresses fourNodes) (fun _ => (0 : UInt8)) t = List.replicate (fourNodes.tensor t).bytes 0 := by
    rintro t ⟨source | constant, input⟩
    · obtain rfl := fourNodes_source.mp source
      exact absurd (List.mem_singleton.mpr rfl) input
    · unfold Storage.read
      rw [addresses_own p constant.1, List.map_const', List.length_map, List.length_range]
  obtain ⟨⟨values, session⟩, same⟩ := answers ⟨none, some ⟨2, 0, 1, (), true, List.replicate 100 0⟩, none, 3⟩ (fun _ => 0)
    (fun t => List.replicate (fourNodes.tensor t).bytes 0) ⟨_, rfl, rfl, by rintro n ⟨⟩; rfl⟩ constants (fun _ => 0)
    fiveInferences
  have computed : (fiveInferences.map fun x => (fourNetwork.lite (fun t => List.replicate (fourNodes.tensor t).bytes 0)
      x.completes).answer () x.buffer) = [0, -1, -1, -1, 1] := by
    decide +kernel
  rw [same values session, computed] at session
  exact ⟨planner, p, plan, placed, session⟩

end AuroraVoice
