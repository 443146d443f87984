import Mathlib.Data.List.Basic
import Mathlib.Data.List.Nodup
import Mathlib.Logic.Function.Basic

namespace Storage

variable {τ α β δ : Type} [DecidableEq τ]

/-- An operation on named values: it computes its outputs from its inputs and may use scratch values. -/
structure Operation (τ β : Type) where
  inputs : List τ
  outputs : List τ
  scratch : List τ
  kernel : List (List β) → List (List β)

def assign (env : τ → δ) : List τ → List δ → τ → δ
  | o :: os, v :: vs => Function.update (assign env os vs) o v
  | _, _ => env

/-- The operation where every name has a value of its own. -/
def Operation.eval (env : τ → List β) (op : Operation τ β) : τ → List β :=
  assign env op.outputs (op.kernel (op.inputs.map env))

def evalAll (env : τ → List β) (ops : List (Operation τ β)) : τ → List β := ops.foldl Operation.eval env

/-- The value at the addresses of a name. -/
def read (loc : τ → List α) (memory : α → β) (t : τ) : List β := (loc t).map memory

/-- The operation where every name has a place in memory: the inputs are read before the outputs are
written, the scratch places may hold anything afterwards, and all else stays. -/
structure Operation.Executes (loc : τ → List α) (op : Operation τ β) (memory next : α → β) : Prop where
  outputs : op.outputs.map (read loc next) = op.kernel (op.inputs.map (read loc memory))
  frame : ∀ a, (∀ t ∈ op.outputs ++ op.scratch, a ∉ loc t) → next a = memory a

def ExecutesAll (loc : τ → List α) : List (Operation τ β) → (α → β) → (α → β) → Prop
  | [], memory, last => last = memory
  | op :: ops, memory, last => ∃ next, op.Executes loc memory next ∧ ExecutesAll loc ops next last

/-- The names whose values are still needed. -/
def Live (results : τ → Prop) : List (Operation τ β) → τ → Prop
  | [], t => results t
  | op :: ops, t => t ∈ op.inputs ∨ t ∉ op.outputs ∧ Live results ops t

/-- A write may reach the place of a value that is still needed only if it writes that value again. -/
def Operation.Spares (loc : τ → List α) (env : τ → List β) (op : Operation τ β) (t : τ) : Prop :=
  (∃ o ∈ op.outputs, loc t = loc o ∧ op.eval env o = env t) ∨ ∀ o ∈ op.outputs ++ op.scratch, (loc t).Disjoint (loc o)

/-- No operation spoils what is live after it. -/
def SparesLive (loc : τ → List α) (results : τ → Prop) : (τ → List β) → List (Operation τ β) → Prop
  | _, [] => True
  | env, op :: ops =>
    (∀ t, Live results ops t → t ∉ op.outputs → op.Spares loc env t) ∧ SparesLive loc results (op.eval env) ops

theorem assign_outside {env : τ → δ} {os : List τ} {t : τ} (h : t ∉ os) (vs : List δ) :
    assign env os vs t = env t := by
  induction os generalizing vs with
  | nil => rfl
  | cons o os ih =>
    cases vs with
    | nil => rfl
    | cons v vs =>
      have other : t ≠ o := fun eq => h (eq ▸ List.mem_cons_self)
      rw [assign, Function.update_of_ne other, ih fun mem => h (List.mem_cons_of_mem o mem)]

theorem assign_outputs {os : List τ} (nodup : os.Nodup) (env : τ → δ) {vs : List δ}
    (same : os.length = vs.length) : os.map (assign env os vs) = vs := by
  induction os generalizing vs with
  | nil => simpa using same.symm
  | cons o os ih =>
    cases vs with
    | nil => simp at same
    | cons v vs =>
      obtain ⟨fresh, rest⟩ := List.nodup_cons.mp nodup
      have tail : os.map (assign env (o :: os) (v :: vs)) = os.map (assign env os vs) := by
        refine List.map_congr_left fun t ht => ?_
        have other : t ≠ o := by
          rintro rfl
          exact fresh ht
        exact Function.update_of_ne other _ _
      rw [List.map_cons, tail, ih rest (by simpa using same)]
      simp [assign]

theorem eval_outside {env : τ → List β} {op : Operation τ β} {t : τ} (h : t ∉ op.outputs) : op.eval env t = env t :=
  assign_outside h _

theorem evalAll_outside {ops : List (Operation τ β)} {t : τ} (h : ∀ op ∈ ops, t ∉ op.outputs) (env : τ → List β) :
    evalAll env ops t = env t := by
  induction ops generalizing env with
  | nil => rfl
  | cons op ops ih =>
    have first : op.eval env t = env t := eval_outside (h op List.mem_cons_self)
    exact (ih (fun p hp => h p (List.mem_cons_of_mem op hp)) (op.eval env)).trans first

omit [DecidableEq τ] in
/-- A place that no output and no scratch value touches keeps its value. -/
theorem read_frame {loc : τ → List α} {op : Operation τ β} {memory next : α → β} {t : τ}
    (h : op.Executes loc memory next) (clear : ∀ o ∈ op.outputs ++ op.scratch, (loc t).Disjoint (loc o)) :
    read loc next t = read loc memory t :=
  List.map_congr_left fun a ha => h.frame a fun o ho => clear o ho ha

/-- One operation: the memory agrees with the values on what is live. -/
theorem Operation.Executes.agree {loc : τ → List α} {op : Operation τ β} {memory next : α → β} {env : τ → List β}
    {results : τ → Prop} {ops : List (Operation τ β)} (h : op.Executes loc memory next) (nodup : op.outputs.Nodup)
    (agree : ∀ t, Live results (op :: ops) t → read loc memory t = env t)
    (spares : ∀ t, Live results ops t → t ∉ op.outputs → op.Spares loc env t) :
    ∀ t, Live results ops t → read loc next t = op.eval env t := by
  have inputs : op.inputs.map (read loc memory) = op.inputs.map env :=
    List.map_congr_left fun t ht => agree t (Or.inl ht)
  have results : op.outputs.map (read loc next) = op.kernel (op.inputs.map env) := inputs ▸ h.outputs
  have lengths : op.outputs.length = (op.kernel (op.inputs.map env)).length := by
    rw [← results, List.length_map]
  have written : ∀ o ∈ op.outputs, read loc next o = op.eval env o := by
    have values : op.outputs.map (op.eval env) = op.kernel (op.inputs.map env) := assign_outputs nodup env lengths
    exact List.map_inj_left.mp (results.trans values.symm)
  intro t live
  by_cases out : t ∈ op.outputs
  · exact written t out
  · rw [eval_outside out]
    have before := agree t (Or.inr ⟨out, live⟩)
    rcases spares t live out with ⟨o, ho, place, value⟩ | clear
    · -- the operation writes the same value to the same place
      calc read loc next t = read loc next o := by unfold read; rw [place]
        _ = op.eval env o := written o ho
        _ = env t := value
    · rw [read_frame h clear, before]

/-- Programs on shared storage compute what they compute on storage of their own, if no operation spoils
what is live after it. -/
theorem ExecutesAll.results {loc : τ → List α} {results : τ → Prop} {ops : List (Operation τ β)} {memory last : α → β}
    {env : τ → List β} (h : ExecutesAll loc ops memory last) (nodup : ∀ op ∈ ops, op.outputs.Nodup)
    (agree : ∀ t, Live results ops t → read loc memory t = env t) (spares : SparesLive loc results env ops) :
    ∀ t, results t → read loc last t = evalAll env ops t := by
  induction ops generalizing memory env with
  | nil =>
    intro t ht
    rw [show last = memory from h]
    exact agree t ht
  | cons op ops ih =>
    obtain ⟨next, one, rest⟩ := h
    have after := one.agree (nodup op List.mem_cons_self) agree spares.1
    exact ih rest (fun p hp => nodup p (List.mem_cons_of_mem op hp)) after spares.2

section Running

variable [DecidableEq α] {loc : τ → List α} {os : List τ}

/-- The values at the places of their names. -/
def write (loc : τ → List α) (memory : α → β) : List τ → List (List β) → α → β
  | o :: os, v :: vs => assign (write loc memory os vs) (loc o) v
  | _, _ => memory

omit [DecidableEq τ] in
theorem write_outside {a : α} (h : ∀ o ∈ os, a ∉ loc o) (memory : α → β) (vs : List (List β)) :
    write loc memory os vs a = memory a := by
  induction os generalizing vs with
  | nil => rfl
  | cons o os ih =>
    cases vs with
    | nil => rfl
    | cons v vs =>
      rw [write, assign_outside (h o List.mem_cons_self)]
      exact ih (fun p hp => h p (List.mem_cons_of_mem o hp)) vs

omit [DecidableEq τ] in
theorem read_write (apart : os.Pairwise fun o p => (loc o).Disjoint (loc p)) (nodup : ∀ o ∈ os, (loc o).Nodup)
    (memory : α → β) {vs : List (List β)} (sizes : vs.map List.length = os.map fun o => (loc o).length) :
    os.map (read loc (write loc memory os vs)) = vs := by
  induction os generalizing vs with
  | nil => simpa using sizes.symm
  | cons o os ih =>
    cases vs with
    | nil => simp at sizes
    | cons v vs =>
      rw [List.map_cons, List.map_cons, List.cons.injEq] at sizes
      obtain ⟨clear, rest⟩ := List.pairwise_cons.mp apart
      have first : read loc (write loc memory (o :: os) (v :: vs)) o = v :=
        assign_outputs (nodup o List.mem_cons_self) _ sizes.1.symm
      have others : os.map (read loc (write loc memory (o :: os) (v :: vs))) = os.map (read loc (write loc memory os vs)) := by
        refine List.map_congr_left fun p hp => List.map_congr_left fun a ha => ?_
        exact assign_outside (fun mem => clear p hp mem ha) v
      rw [List.map_cons, first, others, ih rest (fun p hp => nodup p (List.mem_cons_of_mem o hp)) sizes.2]

/-- The kernel gives its outputs the sizes of their places. -/
def Operation.Sized (loc : τ → List α) (op : Operation τ β) : Prop :=
  ∀ args, args.map List.length = op.inputs.map (fun t => (loc t).length) →
    (op.kernel args).map List.length = op.outputs.map fun t => (loc t).length

omit [DecidableEq τ] in
theorem Operation.executes {op : Operation τ β} (sized : op.Sized loc)
    (apart : op.outputs.Pairwise fun o p => (loc o).Disjoint (loc p)) (nodup : ∀ o ∈ op.outputs, (loc o).Nodup)
    (memory : α → β) :
    op.Executes loc memory (write loc memory op.outputs (op.kernel (op.inputs.map (read loc memory)))) := by
  refine ⟨read_write apart nodup memory (sized _ ?_), fun a clear => ?_⟩
  · rw [List.map_map]
    exact List.map_congr_left fun t _ => List.length_map memory
  · exact write_outside (fun o ho => clear o (List.mem_append_left _ ho)) memory _

omit [DecidableEq τ] in
/-- A program whose outputs lie apart at each operation can run. -/
theorem executesAll {ops : List (Operation τ β)} (sized : ∀ op ∈ ops, op.Sized loc)
    (apart : ∀ op ∈ ops, op.outputs.Pairwise fun o p => (loc o).Disjoint (loc p))
    (nodup : ∀ op ∈ ops, ∀ o ∈ op.outputs, (loc o).Nodup) (memory : α → β) : ∃ last, ExecutesAll loc ops memory last := by
  induction ops generalizing memory with
  | nil => exact ⟨memory, rfl⟩
  | cons op ops ih =>
    have one := op.executes (sized op List.mem_cons_self) (apart op List.mem_cons_self) (nodup op List.mem_cons_self) memory
    obtain ⟨last, rest⟩ := ih (fun p hp => sized p (List.mem_cons_of_mem op hp))
      (fun p hp => apart p (List.mem_cons_of_mem op hp)) (fun p hp => nodup p (List.mem_cons_of_mem op hp)) _
    exact ⟨last, _, one, rest⟩

end Running

end Storage
