import AuroraVoice.ArenaPlanner

namespace AuroraVoice

section Events

variable {share : Nat → Option Nat} {preserve : Bool}

/-- What the last loop of `PlanAllocations` comes to, in order. -/
inductive PlanEvent
  | output (node tensor : Nat)
  | input (node tensor : Nat)

def PlanEvent.node : PlanEvent → Nat
  | .output i _ => i
  | .input i _ => i

def planEvents (preserve : Bool) : Nat → List TfLiteNode → List PlanEvent
  | _, [] => []
  | i, node :: nodes =>
    node.outputs.reduceOption.map (.output i) ++
      ((if preserve then [] else node.inputs.reduceOption.map (.input i)) ++ planEvents preserve (i + 1) nodes)

def planEvent (x : ArenaPlanner × (Nat → Int)) : PlanEvent → Option (ArenaPlanner × (Nat → Int))
  | .output i t => (x.1.planOutput i t).map fun p => (p, x.2)
  | .input i t => ArenaPlanner.planInput i x t

theorem planOutputs_eq (i : Nat) (l : List Nat) (p : ArenaPlanner) (refcounts : Nat → Int) :
    (l.map (PlanEvent.output i)).foldlM planEvent (p, refcounts) =
      (l.foldlM (ArenaPlanner.planOutput i) p).map fun p => (p, refcounts) := by
  induction l generalizing p with
  | nil => rfl
  | cons t l ih =>
    simp only [List.map_cons, List.foldlM_cons, planEvent]
    cases h : p.planOutput i t with
    | none => rfl
    | some q => simpa using ih q

theorem planInputs_eq (i : Nat) (l : List Nat) (x : ArenaPlanner × (Nat → Int)) :
    (l.map (PlanEvent.input i)).foldlM planEvent x = l.foldlM (ArenaPlanner.planInput i) x := by
  rw [List.foldlM_map]
  rfl

theorem planNodes_eq (preserve : Bool) (i : Nat) (nodes : List TfLiteNode) (x : ArenaPlanner × (Nat → Int)) :
    ArenaPlanner.planNodes preserve i nodes x = (planEvents preserve i nodes).foldlM planEvent x := by
  induction nodes generalizing i x with
  | nil => rfl
  | cons node nodes ih =>
    simp only [ArenaPlanner.planNodes, planEvents, List.foldlM_append, ArenaPlanner.planNode]
    rw [planOutputs_eq i node.outputs.reduceOption x.1 x.2]
    cases h : node.outputs.reduceOption.foldlM (ArenaPlanner.planOutput i) x.1 with
    | none => rfl
    | some p =>
      cases preserve with
      | true => simpa using ih (i + 1) (p, x.2)
      | false => simp [planInputs_eq, ih]

theorem output_mem_planEvents {i j t : Nat} {nodes : List TfLiteNode} :
    PlanEvent.output j t ∈ planEvents preserve i nodes ↔
      ∃ k node, j = i + k ∧ nodes[k]? = some node ∧ some t ∈ node.outputs := by
  induction nodes generalizing i with
  | nil => simp [planEvents]
  | cons node nodes ih =>
    have none : ∀ (l : List Nat), PlanEvent.output j t ∉ if preserve then [] else l.map (PlanEvent.input i) := by
      intro l
      split <;> simp
    simp only [planEvents, List.mem_append, none, false_or, ih]
    constructor
    · rintro (here | ⟨k, other, rfl, hk, mem⟩)
      · obtain ⟨u, hu, eq⟩ := List.mem_map.mp here
        cases eq
        exact ⟨0, node, rfl, rfl, List.reduceOption_mem_iff.mp hu⟩
      · exact ⟨k + 1, other, by omega, hk, mem⟩
    · rintro ⟨k, other, rfl, hk, mem⟩
      cases k with
      | zero =>
        cases Option.some.inj hk
        exact Or.inl (List.mem_map.mpr ⟨t, List.reduceOption_mem_iff.mpr mem, rfl⟩)
      | succ k => exact Or.inr ⟨k, other, by omega, hk, mem⟩

theorem input_mem_planEvents {i j t : Nat} {nodes : List TfLiteNode} :
    PlanEvent.input j t ∈ planEvents preserve i nodes ↔
      preserve = false ∧ ∃ k node, j = i + k ∧ nodes[k]? = some node ∧ some t ∈ node.inputs := by
  induction nodes generalizing i with
  | nil => simp [planEvents]
  | cons node nodes ih =>
    have none : ∀ (l : List Nat), PlanEvent.input j t ∉ l.map (PlanEvent.output i) := by simp
    have here : (PlanEvent.input j t ∈ if preserve then [] else node.inputs.reduceOption.map (PlanEvent.input i)) ↔
        preserve = false ∧ j = i ∧ some t ∈ node.inputs := by
      cases preserve with
      | true => simp
      | false => simp [List.reduceOption_mem_iff, and_comm, eq_comm]
    simp only [planEvents, List.mem_append, none, false_or, here, ih]
    constructor
    · rintro (⟨hp, rfl, mem⟩ | ⟨hp, k, other, rfl, hk, mem⟩)
      · exact ⟨hp, 0, node, rfl, rfl, mem⟩
      · exact ⟨hp, k + 1, other, by omega, hk, mem⟩
    · rintro ⟨hp, k, other, rfl, hk, mem⟩
      cases k with
      | zero =>
        cases Option.some.inj hk
        exact Or.inl ⟨hp, rfl, mem⟩
      | succ k => exact Or.inr ⟨hp, k, other, by omega, hk, mem⟩

theorem planEvents_node {i : Nat} {nodes : List TfLiteNode} :
    ∀ e ∈ planEvents preserve i nodes, i ≤ e.node ∧ e.node < i + nodes.length := by
  intro e he
  cases e with
  | output j t =>
    obtain ⟨k, node, rfl, hk, _⟩ := output_mem_planEvents.mp he
    have bound := (List.getElem?_eq_some_iff.mp hk).1
    exact ⟨Nat.le_add_right _ _, by simpa [PlanEvent.node] using bound⟩
  | input j t =>
    obtain ⟨_, k, node, rfl, hk, _⟩ := input_mem_planEvents.mp he
    have bound := (List.getElem?_eq_some_iff.mp hk).1
    exact ⟨Nat.le_add_right _ _, by simpa [PlanEvent.node] using bound⟩

theorem planEvents_sorted (preserve : Bool) (i : Nat) (nodes : List TfLiteNode) :
    (planEvents preserve i nodes).Pairwise fun a b => a.node ≤ b.node := by
  induction nodes generalizing i with
  | nil => exact .nil
  | cons node nodes ih =>
    have flat : ∀ l : List PlanEvent, (∀ e ∈ l, e.node = i) → l.Pairwise fun a b => a.node ≤ b.node :=
      fun l h => List.pairwise_of_forall_mem_list fun a ha b hb => by rw [h a ha, h b hb]
    have outputs : ∀ e ∈ node.outputs.reduceOption.map (PlanEvent.output i), e.node = i := by
      simp only [List.mem_map, forall_exists_index, and_imp]
      rintro e t _ rfl
      rfl
    have inputs : ∀ e ∈ (if preserve then [] else node.inputs.reduceOption.map (PlanEvent.input i)), e.node = i := by
      cases preserve with
      | true => simp
      | false =>
        simp only [Bool.false_eq_true, if_false, List.mem_map, forall_exists_index, and_imp]
        rintro e t _ rfl
        rfl
    have later : ∀ e ∈ planEvents preserve (i + 1) nodes, i ≤ e.node := by
      intro e he
      have low := (planEvents_node e he).1
      omega
    rw [planEvents]
    refine List.pairwise_append.mpr ⟨flat _ outputs, List.pairwise_append.mpr ⟨flat _ inputs, ih (i + 1), ?_⟩, ?_⟩
    · intro a ha b hb
      rw [inputs a ha]
      exact later b hb
    · intro a ha b hb
      rw [outputs a ha]
      rcases List.mem_append.mp hb with hb | hb
      · exact (inputs b hb).ge
      · exact later b hb

end Events

section Loop

variable {g : GraphInfo} {share : Nat → Option Nat} {base : Nat → Int} {done rest : List PlanEvent}
  {x : ArenaPlanner × (Nat → Int)}

/-- Variables and graph inputs hold their values before the first node runs. -/
def GraphInfo.Source (g : GraphInfo) (t : Nat) : Prop := t ∈ g.variableTensors ∨ some t ∈ g.inputs

def PlanEvent.read (share : Nat → Option Nat) : PlanEvent → Option Nat
  | .input _ u => some ((share u).getD u)
  | .output _ _ => none

/-- The buffer is given up at node `d`, the last that reads a tensor in it. -/
structure Released (share : Nat → Option Nat) (base : Nat → Int) (done rest : List PlanEvent) (t d : Nat) : Prop where
  unheld : base t = 0
  last : t ∉ rest.filterMap (PlanEvent.read share)
  read : ∃ u, .input d u ∈ done ∧ (share u).getD u = t
  bounds : ∀ j u, .input j u ∈ done → (share u).getD u = t → j ≤ d

/-- The state after the events in `done`. -/
structure Progress (g : GraphInfo) (share : Nat → Option Nat) (base : Nat → Int) (done rest : List PlanEvent)
    (x : ArenaPlanner × (Nat → Int)) : Prop where
  shared : x.1.actualTensorId = share
  counts : ∀ t, x.2 t = base t + (rest.filterMap (PlanEvent.read share)).count t
  sourced : ∀ t, g.Source t → x.1.allocNode t = 0
  allocated : ∀ j t, .output j t ∈ done → x.1.allocNode t ≤ j
  allocates : ∀ t, x.1.allocNode t ≠ kNodeNotAssigned →
    (g.Source t ∧ x.1.allocNode t = 0) ∨ .output (x.1.allocNode t) t ∈ done
  queued : ∀ i t, t ∈ x.1.nodesToTensors i ↔ (i = 0 ∧ g.Source t) ∨ .output i t ∈ done
  nodup : ∀ i, (x.1.nodesToTensors i).Nodup
  held : ∀ t, x.1.deallocNode t ≠ kNodeNotAssigned → x.1.allocNode t ≠ kNodeNotAssigned
  released : ∀ t, x.1.deallocNode t ≠ kNodeNotAssigned → Released share base done rest t (x.1.deallocNode t)

/-- Everything but the three tables stays as it was. -/
def ArenaPlanner.SamePlan (p q : ArenaPlanner) : Prop :=
  q = { p with allocNode := q.allocNode, deallocNode := q.deallocNode, nodesToTensors := q.nodesToTensors }

theorem ArenaPlanner.SamePlan.trans {p q r : ArenaPlanner} (h : p.SamePlan q) (h' : q.SamePlan r) : p.SamePlan r := by
  unfold ArenaPlanner.SamePlan at *
  rw [h', h]

theorem mem_queue {p : ArenaPlanner} {i j t u : Nat} :
    u ∈ (p.queue i t).nodesToTensors j ↔ u ∈ p.nodesToTensors j ∨ (j = i ∧ u = t) := by
  unfold ArenaPlanner.queue
  by_cases hj : j = i
  · subst hj
    simp [List.mem_insert_iff, or_comm]
  · simp [hj]

theorem nodup_queue {p : ArenaPlanner} (h : ∀ i, (p.nodesToTensors i).Nodup) (i t j : Nat) :
    ((p.queue i t).nodesToTensors j).Nodup := by
  unfold ArenaPlanner.queue
  by_cases hj : j = i
  · subst hj
    simpa using (h j).insert
  · simpa [Function.update_of_ne hj] using h j

/-- What comes later does not change what was released. -/
theorem Released.later {e : PlanEvent} {t d : Nat} (h : Released share base done (e :: rest) t d) :
    Released share base (done ++ [e]) rest t d := by
  have gone : t ∉ (e :: rest).filterMap (PlanEvent.read share) := h.last
  refine ⟨h.unheld, fun mem => gone ?_, ?_, fun j u mem root => ?_⟩
  · obtain ⟨f, hf, eq⟩ := List.mem_filterMap.mp mem
    exact List.mem_filterMap.mpr ⟨f, List.mem_cons_of_mem e hf, eq⟩
  · obtain ⟨u, mem, root⟩ := h.read
    exact ⟨u, List.mem_append_left _ mem, root⟩
  · rcases List.mem_append.mp mem with mem | mem
    · exact h.bounds j u mem root
    · obtain rfl := List.mem_singleton.mp mem
      exact (gone (List.mem_filterMap.mpr ⟨_, List.mem_cons_self, congrArg some root⟩)).elim

theorem Progress.output {i t : Nat} (h : Progress g share base done (.output i t :: rest) x)
    (order : ∀ e ∈ done, e.node ≤ i) (small : i < kNodeNotAssigned) :
    ∃ p, x.1.planOutput i t = some p ∧ Progress g share base (done ++ [.output i t]) rest (p, x.2) ∧ x.1.SamePlan p := by
  have queued : ∀ j u, u ∈ (x.1.queue i t).nodesToTensors j ↔
      (j = 0 ∧ g.Source u) ∨ .output j u ∈ done ++ [.output i t] := by
    intro j u
    rw [mem_queue, h.queued, List.mem_append, List.mem_singleton]
    simp only [PlanEvent.output.injEq]
    tauto
  have counts : ∀ u, x.2 u = base u + (rest.filterMap (PlanEvent.read share)).count u := h.counts
  have released : ∀ u, x.1.deallocNode u ≠ kNodeNotAssigned →
      Released share base (done ++ [.output i t]) rest u (x.1.deallocNode u) := fun u hu => (h.released u hu).later
  unfold ArenaPlanner.planOutput ArenaPlanner.allocate
  by_cases assigned : x.1.allocNode t ≠ kNodeNotAssigned
  · have skip : (x.1.queue i t).allocNode t ≠ kNodeNotAssigned := assigned
    refine ⟨_, if_pos skip, ⟨h.shared, counts, h.sourced, fun j u mem => ?_, fun u hu => ?_, queued,
      nodup_queue h.nodup i t, h.held, released⟩, rfl⟩
    · rcases List.mem_append.mp mem with mem | mem
      · exact h.allocated j u mem
      · obtain ⟨rfl, rfl⟩ : j = i ∧ u = t := by simpa using mem
        rcases h.allocates u assigned with ⟨_, zero⟩ | before
        · exact zero.le.trans (Nat.zero_le _)
        · exact order _ before
    · exact (h.allocates u hu).imp_right (List.mem_append_left _)
  · have free : x.1.allocNode t = kNodeNotAssigned := by simpa using assigned
    have unreleased : x.1.deallocNode t = kNodeNotAssigned := by
      by_contra gone
      exact assigned (h.held t gone)
    have none : ¬ (x.1.queue i t).allocNode t ≠ kNodeNotAssigned := assigned
    have open' : (x.1.queue i t).deallocNode t = kNodeNotAssigned := unreleased
    rw [if_neg none, if_pos open']
    have value : ∀ u, Function.update (x.1.queue i t).allocNode t i u = if u = t then i else x.1.allocNode u := by
      intro u
      simp only [Function.update_apply]
      rfl
    have unsourced : ¬ g.Source t := by
      intro source
      rw [h.sourced t source] at free
      cases free
    refine ⟨_, rfl, ⟨h.shared, counts, fun u source => ?_, fun j u mem => ?_, fun u hu => ?_, queued,
      nodup_queue h.nodup i t, fun u hu => ?_, released⟩, rfl⟩
    · have other : u ≠ t := fun eq => unsourced (eq ▸ source)
      show Function.update (x.1.queue i t).allocNode t i u = 0
      rw [value, if_neg other]
      exact h.sourced u source
    · show Function.update (x.1.queue i t).allocNode t i u ≤ j
      rw [value]
      split
      next eq =>
        subst eq
        rcases List.mem_append.mp mem with mem | mem
        · have before := h.allocated j u mem
          have first := order _ mem
          rw [free] at before
          simp only [PlanEvent.node] at first
          omega
        · obtain ⟨rfl, _⟩ : j = i ∧ u = u := by simpa using mem
          exact Nat.le_refl _
      next other =>
        rcases List.mem_append.mp mem with mem | mem
        · exact h.allocated j u mem
        · exact absurd (by simpa using mem : j = i ∧ u = t).2 other
    · simp only [value] at hu ⊢
      split at hu
      next eq =>
        subst eq
        rw [if_pos rfl]
        exact Or.inr (List.mem_append_right _ (List.mem_singleton.mpr rfl))
      next other =>
        rw [if_neg other]
        exact (h.allocates u hu).imp_right (List.mem_append_left _)
    · simp only [value]
      split
      next => omega
      next => exact h.held u hu

theorem Progress.input {i t : Nat} (h : Progress g share base done (.input i t :: rest) x)
    (nonneg : ∀ u, 0 ≤ base u) (order : ∀ e ∈ done, e.node ≤ i) :
    ∃ y, ArenaPlanner.planInput i x t = some y ∧ Progress g share base (done ++ [.input i t]) rest y ∧
      x.1.SamePlan y.1 := by
  have root : x.1.findSharedTensor t = (share t).getD t := by rw [ArenaPlanner.findSharedTensor, h.shared]
  set r := (share t).getD t with hr
  have reads : (PlanEvent.input i t :: rest).filterMap (PlanEvent.read share) =
      r :: rest.filterMap (PlanEvent.read share) := rfl
  have counts : ∀ u, Function.update x.2 r (x.2 r - 1) u =
      base u + (rest.filterMap (PlanEvent.read share)).count u := by
    intro u
    have before := h.counts u
    rw [reads] at before
    by_cases hu : u = r
    · subst hu
      rw [List.count_cons_self] at before
      rw [Function.update_self]
      omega
    · rw [List.count_cons_of_ne (Ne.symm hu)] at before
      rw [Function.update_of_ne hu, before]
  have unreleased : x.1.deallocNode r = kNodeNotAssigned := by
    by_contra gone
    exact (h.released r gone).last (reads ▸ List.mem_cons_self)
  have released : ∀ u, x.1.deallocNode u ≠ kNodeNotAssigned →
      Released share base (done ++ [.input i t]) rest u (x.1.deallocNode u) := fun u hu => (h.released u hu).later
  have outputs : ∀ j u, .output j u ∈ done ++ [.input i t] ↔ .output j u ∈ done := by simp
  -- the tables of allocation do not change
  have same : ∀ dealloc : Nat → Nat, (∀ u, dealloc u ≠ kNodeNotAssigned → x.1.allocNode u ≠ kNodeNotAssigned) →
      (∀ u, dealloc u ≠ kNodeNotAssigned → Released share base (done ++ [.input i t]) rest u (dealloc u)) →
      Progress g share base (done ++ [.input i t]) rest
        ({ x.1 with deallocNode := dealloc }, Function.update x.2 r (x.2 r - 1)) := by
    intro dealloc held gone
    refine ⟨h.shared, counts, h.sourced, fun j u mem => h.allocated j u ((outputs j u).mp mem), fun u hu => ?_,
      fun j u => ?_, h.nodup, held, gone⟩
    · exact (h.allocates u hu).imp_right (outputs _ u).mpr
    · rw [outputs]
      exact h.queued j u
  unfold ArenaPlanner.planInput
  dsimp only
  rw [root]
  split
  next zero =>
    unfold ArenaPlanner.deallocate
    split
    next => exact ⟨_, rfl, same x.1.deallocNode h.held released, rfl⟩
    next assigned =>
      refine ⟨_, rfl, same _ (fun u hu => ?_) (fun u hu => ?_), rfl⟩
      · by_cases eq : u = r
        · subst eq
          exact assigned
        · rw [Function.update_of_ne eq] at hu
          exact h.held u hu
      · by_cases eq : u = r
        · subst eq
          have sum := counts r
          have held := nonneg r
          rw [zero] at sum
          have unheld : base r = 0 := by omega
          have count : (rest.filterMap (PlanEvent.read share)).count r = 0 := by omega
          rw [Function.update_self]
          refine ⟨unheld, List.count_eq_zero.mp count, ⟨t, by simp, hr.symm⟩, fun j v mem _ => ?_⟩
          rcases List.mem_append.mp mem with mem | mem
          · exact order _ mem
          · have eq : j = i ∧ v = t := by simpa using mem
            exact eq.1.le
        · rw [Function.update_of_ne eq] at hu ⊢
          exact released u hu
  next => exact ⟨_, rfl, same x.1.deallocNode h.held released, rfl⟩

/-- The loop ends without an error. -/
theorem Progress.run (h : Progress g share base done rest x) (nonneg : ∀ u, 0 ≤ base u)
    (sorted : (done ++ rest).Pairwise fun a b => a.node ≤ b.node) (small : ∀ e ∈ rest, e.node < kNodeNotAssigned) :
    ∃ y, rest.foldlM planEvent x = some y ∧ Progress g share base (done ++ rest) [] y ∧ x.1.SamePlan y.1 := by
  induction rest generalizing done x with
  | nil => exact ⟨x, rfl, by simpa using h, rfl⟩
  | cons e rest ih =>
    have order : ∀ a ∈ done, a.node ≤ e.node := fun a ha =>
      (List.pairwise_append.mp sorted).2.2 a ha e List.mem_cons_self
    have one : ∃ y, planEvent x e = some y ∧ Progress g share base (done ++ [e]) rest y ∧ x.1.SamePlan y.1 := by
      cases e with
      | output i t =>
        obtain ⟨p, eq, next, same⟩ := h.output order (small _ List.mem_cons_self)
        exact ⟨(p, x.2), by simp [planEvent, eq], next, same⟩
      | input i t => exact h.input nonneg order
    obtain ⟨y, eq, next, same⟩ := one
    have shift : done ++ e :: rest = done ++ [e] ++ rest := by simp
    obtain ⟨z, run, last, rest'⟩ := ih next (shift ▸ sorted) fun a ha => small a (List.mem_cons_of_mem e ha)
    refine ⟨z, ?_, shift ▸ last, same.trans rest'⟩
    rw [List.foldlM_cons, eq]
    exact run

end Loop

section Plan

variable {g : GraphInfo} {p q : ArenaPlanner}

theorem addReferences (l : List Nat) (refcounts : Nat → Int) (t : Nat) :
    l.foldl addReference refcounts t = refcounts t + l.count t := by
  induction l generalizing refcounts with
  | nil => simp
  | cons u l ih =>
    rw [List.foldl_cons, ih, addReference]
    by_cases eq : t = u
    · subst eq
      rw [Function.update_self, List.count_cons_self]
      omega
    · rw [Function.update_of_ne eq, List.count_cons_of_ne (Ne.symm eq)]

/-- The tables after the variables or the graph inputs `l`. -/
structure Sourced (l : List Nat) (p q : ArenaPlanner) : Prop where
  same : q = { p with allocNode := q.allocNode, nodesToTensors := q.nodesToTensors, refcounts := q.refcounts }
  refcounts : ∀ t, q.refcounts t = p.refcounts t + l.count t
  alloc : ∀ t, q.allocNode t = if t ∈ l ∧ p.allocNode t = kNodeNotAssigned then 0 else p.allocNode t
  queued : ∀ i t, t ∈ q.nodesToTensors i ↔ t ∈ p.nodesToTensors i ∨ (i = 0 ∧ t ∈ l)
  nodup : (∀ i, (p.nodesToTensors i).Nodup) → ∀ i, (q.nodesToTensors i).Nodup

theorem planSource_spec (free : ∀ t, p.deallocNode t = kNodeNotAssigned) (t : Nat) :
    ∃ q, p.planSource t = some q ∧ Sourced [t] p q := by
  have count : ∀ u, addReference p.refcounts t u = p.refcounts u + ([t].count u : Nat) :=
    fun u => addReferences [t] p.refcounts u
  unfold ArenaPlanner.planSource ArenaPlanner.allocate
  by_cases assigned : p.allocNode t ≠ kNodeNotAssigned
  · refine ⟨_, by rw [if_pos (by exact assigned)]; rfl, rfl, count, fun u => ?_, fun i u => ?_, fun h i => ?_⟩
    · by_cases eq : u = t
      · subst eq
        exact (if_neg fun both => assigned both.2).symm
      · exact (if_neg (by simp [eq])).symm
    · rw [mem_queue, List.mem_singleton]
    · exact nodup_queue (p := { p with refcounts := addReference p.refcounts t }) h 0 t i
  · have unset : p.allocNode t = kNodeNotAssigned := by simpa using assigned
    refine ⟨_, by rw [if_neg (by exact assigned), if_pos (by exact free t)]; rfl, rfl, count, fun u => ?_,
      fun i u => ?_, fun h i => ?_⟩
    · show Function.update p.allocNode t 0 u = _
      by_cases eq : u = t
      · subst eq
        rw [Function.update_self, if_pos ⟨List.mem_singleton.mpr rfl, unset⟩]
      · rw [Function.update_of_ne eq, if_neg (by simp [eq])]
    · rw [mem_queue, List.mem_singleton]
    · exact nodup_queue (p := { p with
        refcounts := addReference p.refcounts t, allocNode := Function.update p.allocNode t 0 }) h 0 t i

theorem planSources_spec (free : ∀ t, p.deallocNode t = kNodeNotAssigned) (l : List Nat) :
    ∃ q, l.foldlM ArenaPlanner.planSource p = some q ∧ Sourced l p q := by
  induction l generalizing p with
  | nil => exact ⟨p, rfl, rfl, by simp, by simp, by simp, id⟩
  | cons t l ih =>
    obtain ⟨mid, eq, one⟩ := planSource_spec free t
    have still : ∀ u, mid.deallocNode u = kNodeNotAssigned := by
      intro u
      rw [one.same]
      exact free u
    obtain ⟨q, run, rest⟩ := ih still
    refine ⟨q, by rw [List.foldlM_cons, eq]; exact run, ?_, fun u => ?_, fun u => ?_, fun i u => ?_, fun h => ?_⟩
    · rw [rest.same, one.same]
    · rw [rest.refcounts, one.refcounts, List.count_cons (l := l)]
      by_cases hu : t = u
      · subst hu
        simp
        omega
      · simp [hu]
    · rw [rest.alloc, one.alloc]
      by_cases hu : u = t
      · subst hu
        by_cases unset : p.allocNode u = kNodeNotAssigned
        · simp [unset, kNodeNotAssigned]
        · simp [unset]
      · simp [hu]
    · rw [rest.queued, one.queued]
      simp only [List.mem_cons, List.not_mem_nil, or_false]
      tauto
    · exact rest.nodup (one.nodup h)

theorem identifyInPlaceTensor_same (g : GraphInfo) (p : ArenaPlanner) (node : TfLiteNode) :
    p.identifyInPlaceTensor g node = { p with actualTensorId := (p.identifyInPlaceTensor g node).actualTensorId } := by
  unfold ArenaPlanner.identifyInPlaceTensor
  split
  next =>
    split
    next => rfl
    next =>
      split
      next => rfl
      next =>
        dsimp only
        split <;> rfl
  next => rfl

theorem identifyInPlaceTensors_same (g : GraphInfo) (p : ArenaPlanner) :
    p.identifyInPlaceTensors g = { p with actualTensorId := (p.identifyInPlaceTensors g).actualTensorId } := by
  have loop : ∀ (nodes : List TfLiteNode) (p : ArenaPlanner), nodes.foldl (ArenaPlanner.identifyInPlaceTensor g) p =
      { p with actualTensorId := (nodes.foldl (ArenaPlanner.identifyInPlaceTensor g) p).actualTensorId } := by
    intro nodes
    induction nodes with
    | nil => exact fun p => rfl
    | cons node nodes ih =>
      intro p
      rw [List.foldl_cons, ih, identifyInPlaceTensor_same]
  exact loop g.nodes { p with actualTensorId := fun _ => none }

def GraphInfo.Produces (g : GraphInfo) (i t : Nat) : Prop := ∃ node, g.nodes[i]? = some node ∧ some t ∈ node.outputs

def GraphInfo.Reads (g : GraphInfo) (i t : Nat) : Prop := ∃ node, g.nodes[i]? = some node ∧ some t ∈ node.inputs

/-- When the buffer of a tensor is allocated and given up. -/
structure Planned (g : GraphInfo) (p : ArenaPlanner) : Prop where
  sourced : ∀ t, g.Source t → p.allocNode t = 0
  allocated : ∀ i t, g.Produces i t → p.allocNode t ≤ i
  allocates : ∀ t, p.allocNode t ≠ kNodeNotAssigned → g.Source t ∧ p.allocNode t = 0 ∨ g.Produces (p.allocNode t) t
  queued : ∀ i t, t ∈ p.nodesToTensors i ↔ i = 0 ∧ g.Source t ∨ g.Produces i t
  nodup : ∀ i, (p.nodesToTensors i).Nodup
  held : ∀ t, p.deallocNode t ≠ kNodeNotAssigned → ¬ g.Source t ∧ some t ∉ g.outputs
  read : ∀ t, p.deallocNode t ≠ kNodeNotAssigned → ∃ u, g.Reads (p.deallocNode t) u ∧ p.findSharedTensor u = t
  last : ∀ t, p.deallocNode t ≠ kNodeNotAssigned → ∀ i u, g.Reads i u → p.findSharedTensor u = t → i ≤ p.deallocNode t

/-- The count of a tensor in `refcounts_`: its reads, and one each as a graph output, variable and graph input. -/
def GraphInfo.references (g : GraphInfo) (t : Nat) : Nat :=
  g.outputs.reduceOption.count t + g.variableTensors.count t + g.inputs.reduceOption.count t + g.reads.count t

/-- What `PlanAllocations` leaves of the state before it. -/
structure Replanned (g : GraphInfo) (p q : ArenaPlanner) : Prop where
  arena : q.arena = p.arena.clearPlan
  persistentArena : q.persistentArena = p.persistentArena.clearPlan
  allocs : q.allocs = fun _ => .reset
  lastActiveNode : q.lastActiveNode = kNodeNotAssigned
  tensorAlignment : q.tensorAlignment = p.tensorAlignment
  preserve : q.preserveAllTensors = p.preserveAllTensors
  shared : ∃ r : ArenaPlanner, (∀ t, r.refcounts t = g.references t) ∧
    q.actualTensorId = (r.identifyInPlaceTensors g).actualTensorId

theorem planEvents_reads (share : Nat → Option Nat) (preserve : Bool) (i : Nat) (nodes : List TfLiteNode) :
    (planEvents preserve i nodes).filterMap (PlanEvent.read share) =
      if preserve then []
      else (nodes.flatMap fun node => node.inputs.reduceOption).map fun t => (share t).getD t := by
  induction nodes generalizing i with
  | nil => simp [planEvents]
  | cons node nodes ih =>
    have outputs : (node.outputs.reduceOption.map (PlanEvent.output i)).filterMap (PlanEvent.read share) = [] := by
      simp [List.filterMap_eq_nil_iff, PlanEvent.read]
    have inputs : (node.inputs.reduceOption.map (PlanEvent.input i)).filterMap (PlanEvent.read share) =
        node.inputs.reduceOption.map fun t => (share t).getD t := by
      rw [List.filterMap_map]
      exact congrFun (List.filterMap_eq_map (f := fun t => (share t).getD t)) _
    rw [planEvents, List.filterMap_append, List.filterMap_append, outputs, ih]
    cases preserve with
    | true => rfl
    | false => simp only [Bool.false_eq_true, if_false, inputs, List.nil_append, List.flatMap_cons, List.map_append]

/-- The state that the last loop of `PlanAllocations` starts from. -/
theorem Progress.start {sources : ArenaPlanner} {share : Nat → Option Nat} {base refcounts : Nat → Int}
    {rest : List PlanEvent} (shared : sources.actualTensorId = share)
    (counts : ∀ t, refcounts t = base t + (rest.filterMap (PlanEvent.read share)).count t)
    (alloc : ∀ t, g.Source t → sources.allocNode t = 0)
    (unset : ∀ t, ¬ g.Source t → sources.allocNode t = kNodeNotAssigned)
    (dealloc : ∀ t, sources.deallocNode t = kNodeNotAssigned)
    (queued : ∀ i t, t ∈ sources.nodesToTensors i ↔ i = 0 ∧ g.Source t)
    (nodup : ∀ i, (sources.nodesToTensors i).Nodup) :
    Progress g share base [] rest (sources, refcounts) := by
  refine ⟨shared, counts, alloc, nofun, fun t ht => ?_, fun i t => ?_, nodup, fun t ht => absurd (dealloc t) ht,
    fun t ht => absurd (dealloc t) ht⟩
  · by_cases source : g.Source t
    · exact Or.inl ⟨source, alloc t source⟩
    · exact absurd (unset t source) ht
  · simpa using queued i t

/-- The state before the loop over the nodes. -/
structure Begun (g : GraphInfo) (p q : ArenaPlanner) : Prop where
  sourced : ∀ t, g.Source t → q.allocNode t = 0
  unset : ∀ t, ¬ g.Source t → q.allocNode t = kNodeNotAssigned
  dealloc : ∀ t, q.deallocNode t = kNodeNotAssigned
  queued : ∀ i t, t ∈ q.nodesToTensors i ↔ i = 0 ∧ g.Source t
  nodup : ∀ i, (q.nodesToTensors i).Nodup
  refcounts : ∀ t, q.refcounts t =
    g.outputs.reduceOption.count t + g.variableTensors.count t + g.inputs.reduceOption.count t
  same : q = { p.resetAllocations with
    allocNode := q.allocNode
    deallocNode := q.deallocNode
    nodesToTensors := q.nodesToTensors
    refcounts := q.refcounts }

theorem planSources_begun (p : ArenaPlanner) (g : GraphInfo) :
    ∃ q, (p.beginPlan g).planSources g = some q ∧ Begun g p q := by
  obtain ⟨mid, vars, first⟩ := planSources_spec (p := p.beginPlan g) (fun _ => rfl) g.variableTensors
  have free : ∀ t, mid.deallocNode t = kNodeNotAssigned := by
    intro t
    rw [first.same]
    rfl
  obtain ⟨q, ins, second⟩ := planSources_spec free g.inputs.reduceOption
  have begin' : ∀ t, (p.beginPlan g).allocNode t = kNodeNotAssigned := fun _ => rfl
  refine ⟨q, by simp [ArenaPlanner.planSources, vars, ins], fun t source => ?_, fun t source => ?_, fun t => ?_,
    fun i t => ?_, ?_, fun t => ?_, ?_⟩
  · rw [second.alloc, first.alloc, begin']
    by_cases var : t ∈ g.variableTensors
    · simp [var, kNodeNotAssigned]
    · have inp : some t ∈ g.inputs := source.resolve_left var
      simp [var, inp, List.reduceOption_mem_iff]
  · have var : t ∉ g.variableTensors := fun h => source (Or.inl h)
    have inp : some t ∉ g.inputs := fun h => source (Or.inr h)
    rw [second.alloc, first.alloc, begin']
    simp [var, inp, List.reduceOption_mem_iff]
  · rw [second.same]
    exact free t
  · have empty : (p.beginPlan g).nodesToTensors i = [] := rfl
    rw [second.queued, first.queued, List.reduceOption_mem_iff, GraphInfo.Source, empty]
    simp only [List.not_mem_nil, false_or]
    tauto
  · exact second.nodup (first.nodup fun _ => List.nodup_nil)
  · have begun : (p.beginPlan g).refcounts t = g.outputs.reduceOption.count t :=
      (addReferences _ _ t).trans (Int.zero_add _)
    rw [second.refcounts, first.refcounts, begun]
  · rw [second.same, first.same]
    rfl

theorem planAllocations_spec (p : ArenaPlanner) (g : GraphInfo) (small : g.nodes.length ≤ kNodeNotAssigned) :
    ∃ q, p.planAllocations g = some q ∧ Planned g q ∧ Replanned g p q := by
  obtain ⟨sources, eq, begun⟩ := planSources_begun p g
  set x := sources.shareTensors g with hx
  have kept : x.1 = { sources with refcounts := x.1.refcounts, actualTensorId := x.1.actualTensorId } := by
    rw [hx, ArenaPlanner.shareTensors, identifyInPlaceTensors_same]
  set rest := planEvents sources.preserveAllTensors 0 g.nodes with hrest
  -- the references that are never taken back
  set base : Nat → Int := fun t => x.2 t - (rest.filterMap (PlanEvent.read x.1.actualTensorId)).count t with hbase
  have low : ∀ t, sources.refcounts t ≤ base t := by
    intro t
    have total : x.2 t = sources.refcounts t + (g.reads.map x.1.findSharedTensor).count t := addReferences _ _ t
    have events := planEvents_reads x.1.actualTensorId sources.preserveAllTensors 0 g.nodes
    rw [← hrest] at events
    simp only [hbase, total, events]
    cases sources.preserveAllTensors with
    | true => simp only [if_true, List.count_nil]; omega
    | false => exact le_of_eq (Int.add_sub_cancel _ _).symm
  have refs := begun.refcounts
  have start : Progress g x.1.actualTensorId base [] rest (x.1, x.2) := by
    refine Progress.start rfl (fun t => (Int.sub_add_cancel _ _).symm) (fun t ht => ?_) (fun t ht => ?_)
      (fun t => ?_) (fun i t => ?_) fun i => ?_
    · rw [kept]
      exact begun.sourced t ht
    · rw [kept]
      exact begun.unset t ht
    · rw [kept]
      exact begun.dealloc t
    · rw [kept]
      exact begun.queued i t
    · rw [kept]
      exact begun.nodup i
  obtain ⟨y, run, ended, same⟩ := start.run (fun t => by have := low t; have := refs t; omega)
    (planEvents_sorted _ 0 g.nodes) fun e he => by
      have bound := (planEvents_node e he).2
      omega
  have result : p.planAllocations g = some y.1 := by
    rw [ArenaPlanner.planAllocations, eq]
    simp only [Option.bind_eq_bind, Option.bind_some, planNodes_eq, ← hx, ← hrest, run]
    rfl
  have produces : ∀ i t, PlanEvent.output i t ∈ [] ++ rest ↔ g.Produces i t := by
    intro i t
    rw [List.nil_append, hrest, output_mem_planEvents]
    simp [GraphInfo.Produces]
  have reads : ∀ i t, PlanEvent.input i t ∈ [] ++ rest ↔ sources.preserveAllTensors = false ∧ g.Reads i t := by
    intro i t
    rw [List.nil_append, hrest, input_mem_planEvents]
    simp [GraphInfo.Reads]
  have root : ∀ u, y.1.findSharedTensor u = (x.1.actualTensorId u).getD u := by
    intro u
    rw [ArenaPlanner.findSharedTensor, ended.shared]
  refine ⟨y.1, result, ⟨ended.sourced, fun i t h => ended.allocated i t ((produces i t).mpr h), fun t ht => ?_,
    fun i t => ?_, ended.nodup, fun t ht => ?_, fun t ht => ?_, fun t ht i u hr hu => ?_⟩, ?_⟩
  · exact (ended.allocates t ht).imp_right (produces _ t).mp
  · rw [ended.queued, produces]
  · have unheld := (ended.released t ht).unheld
    have bound := low t
    have sum := refs t
    have noOutput : g.outputs.reduceOption.count t = 0 := by omega
    have noVariable : g.variableTensors.count t = 0 := by omega
    have noInput : g.inputs.reduceOption.count t = 0 := by omega
    rw [List.count_eq_zero] at noOutput noVariable noInput
    refine ⟨fun source => source.elim noVariable fun h => noInput (List.reduceOption_mem_iff.mpr h), fun h => ?_⟩
    exact noOutput (List.reduceOption_mem_iff.mpr h)
  · obtain ⟨u, mem, hu⟩ := (ended.released t ht).read
    exact ⟨u, ((reads _ u).mp mem).2, (root u).trans hu⟩
  · obtain ⟨v, mem, _⟩ := (ended.released t ht).read
    have kept := ((reads _ v).mp mem).1
    exact (ended.released t ht).bounds i u ((reads i u).mpr ⟨kept, hr⟩) ((root u).symm.trans hu)
  · have whole : y.1 = { p.resetAllocations with
        allocNode := y.1.allocNode
        deallocNode := y.1.deallocNode
        nodesToTensors := y.1.nodesToTensors
        refcounts := y.1.refcounts
        actualTensorId := y.1.actualTensorId } := by
      unfold ArenaPlanner.SamePlan at same
      rw [same, kept, begun.same]
    have counted : ∀ t, g.reads.foldl addReference sources.refcounts t = g.references t := by
      intro t
      rw [addReferences, refs, GraphInfo.references, Int.natCast_add, Int.natCast_add, Int.natCast_add]
    refine ⟨?_, ?_, ?_, ?_, ?_, ?_, { sources with refcounts := g.reads.foldl addReference sources.refcounts },
      counted, ended.shared⟩
    all_goals
      rw [whole]
      rfl

end Plan

/-- `PlanAllocations` never fails, whatever the graph and whatever was planned before: a tensor is allocated
no later than at the node that writes it, its buffer is given up no earlier than at the last node that
reads it or a tensor that shares it, never without such a read, and not at all for graph inputs, graph
outputs and variables. -/
theorem plan_allocations_lifetimes (p : ArenaPlanner) (g : GraphInfo) (small : g.nodes.length ≤ kNodeNotAssigned) :
    ∃ q, p.planAllocations g = some q ∧ (∀ i t, g.Produces i t → q.allocNode t ≤ i) ∧
      (∀ i t, g.Reads i t → i ≤ q.deallocNode (q.findSharedTensor t)) ∧
      (∀ t, q.deallocNode t ≠ kNodeNotAssigned → ∃ u, g.Reads (q.deallocNode t) u ∧ q.findSharedTensor u = t) ∧
      ∀ t, g.Source t ∨ some t ∈ g.outputs → q.deallocNode t = kNodeNotAssigned := by
  obtain ⟨q, eq, planned, _⟩ := planAllocations_spec p g small
  refine ⟨q, eq, planned.allocated, fun i t reads => ?_, planned.read, fun t held => ?_⟩
  · by_cases assigned : q.deallocNode (q.findSharedTensor t) ≠ kNodeNotAssigned
    · exact planned.last _ assigned i t reads rfl
    · have never : q.deallocNode (q.findSharedTensor t) = kNodeNotAssigned := by simpa using assigned
      obtain ⟨node, hn, _⟩ := reads
      have inside := (List.getElem?_eq_some_iff.mp hn).1
      omega
  · by_contra assigned
    obtain ⟨source, output⟩ := planned.held t assigned
    exact held.elim source output

/-- A convolution, a reshape in place and a classifier, on tensors 0 to 3. -/
def threeNodes : GraphInfo where
  tensors := [⟨100, .arenaRw⟩, ⟨60, .arenaRw⟩, ⟨60, .arenaRw⟩, ⟨12, .arenaRw⟩, ⟨8, .mmapRo⟩]
  nodes := [⟨[some 0, some 4, none], [some 1], [], 0⟩, ⟨[some 1], [some 2], [], 5⟩, ⟨[some 2, some 4], [some 3], [], 0⟩]
  inputs := [some 0]
  outputs := [some 3]
  variableTensors := []

theorem three_nodes_lifetimes :
    ∃ q, (ArenaPlanner.new false 64).planAllocations threeNodes = some q ∧
      (∀ i t, threeNodes.Produces i t → q.allocNode t ≤ i) ∧
      (∀ i t, threeNodes.Reads i t → i ≤ q.deallocNode (q.findSharedTensor t)) ∧
      (∀ t, q.deallocNode t ≠ kNodeNotAssigned →
        ∃ u, threeNodes.Reads (q.deallocNode t) u ∧ q.findSharedTensor u = t) ∧
      ∀ t, threeNodes.Source t ∨ some t ∈ threeNodes.outputs → q.deallocNode t = kNodeNotAssigned :=
  plan_allocations_lifetimes (ArenaPlanner.new false 64) threeNodes (by decide)

/-- Tensor 2 shares the buffer of tensor 1, which lives until node 2. -/
example : ((ArenaPlanner.new false 64).planAllocations threeNodes).map (fun q =>
    (q.findSharedTensor 2, q.allocNode 1, q.deallocNode 1)) = some (1, 0, 2) := by decide

end AuroraVoice
