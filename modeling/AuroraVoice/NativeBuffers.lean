import AuroraVoice.Ledger
import AuroraVoice.Ownership

namespace AuroraVoice

/-- The native copy that `loadModel` and `runInference` of ffi_plugin.dart make of their argument. Reading `_bindings` before
it is assigned throws, and the copy is not freed. -/
def copyBuffers (bindings : Bool) (ptr : Nat) : List Ledger.Event :=
  .create ptr [] :: if bindings then [.use ptr, .delete ptr] else []

/-- The step is a call of `loadModel` or `runInference`. -/
def Task.copies : Task → Bool
  | .ready r (.initModelLength _ _) => r ≠ .threw
  | .blocked .runInference _ => true
  | _ => false

def Instances.buffers (c : Instances) (ptr : Nat) : InstanceLabel → List Ledger.Event
  | .step n _ =>
    match c.tasks[n]? with
    | some t => if t.2.copies then copyBuffers c.state.world.bindings ptr else []
    | none => []
  | .call _ => []

/-- All that happens to native copies in a run, with the addresses that `malloc` answers. -/
def bufferTrace : (Nat → Nat) → Instances → List InstanceLabel → List Ledger.Event
  | _, _, [] => []
  | malloc, c, l :: labels => c.buffers (malloc 0) l ++ bufferTrace (fun k => malloc (k + 1)) (c.next l) labels

section Buffers

variable {c : Instances} {owner : Option Nat}

theorem Task.copies_engaged {t : Task} (h : t.copies = true) : t.engaged = true := by
  cases t with
  | blocked op k =>
    cases op with
    | runInference => rfl
    | _ => cases h
  | ready r k =>
    cases k with
    | initModelLength c file =>
      have answered : r ≠ .threw := by simpa [Task.copies] using h
      exact Task.ready_engaged rfl answered
    | _ => cases h
  | done c => cases h

/-- A copy is made only with the bindings assigned: whoever makes it is the owner. -/
theorem Owned.buffers (h : Owned owner c) (fixed : owner = none ∨ c.state.world.bindings = true) (ptr : Nat)
    (l : InstanceLabel) : c.buffers ptr l = [] ∨ c.buffers ptr l = [.create ptr [], .use ptr, .delete ptr] := by
  cases l with
  | call k => exact Or.inl rfl
  | step n e =>
    unfold Instances.buffers
    dsimp only
    split
    next t ht =>
      split
      next copies =>
        have own := h.2 n t ht (Task.copies_engaged copies)
        have bound : c.state.world.bindings = true := by
          refine fixed.resolve_left fun none => ?_
          rw [none] at own
          cases own
        rw [bound]
        exact Or.inr rfl
      next => exact Or.inl rfl
    next => exact Or.inl rfl

theorem bufferTrace_legal (labels : List InstanceLabel) (malloc : Nat → Nat) (h : Owned owner c)
    (fixed : owner = none ∨ c.state.world.bindings = true) :
    Runs.Along Ledger.record Ledger.Legal [] (bufferTrace malloc c labels) ∧
      Runs.run Ledger.record [] (bufferTrace malloc c labels) = [] := by
  induction labels generalizing c owner malloc with
  | nil => exact ⟨trivial, rfl⟩
  | cons l labels ih =>
    obtain ⟨later, owned, bound, _⟩ := h.next fixed l
    obtain ⟨legal, empty⟩ := ih (fun k => malloc (k + 1)) owned bound
    have fresh : ¬ Ledger.IsLive [] (malloc 0) := Ledger.isLive_nil _
    have one : Runs.Along Ledger.record Ledger.Legal [] (c.buffers (malloc 0) l) ∧
        Runs.run Ledger.record [] (c.buffers (malloc 0) l) = [] := by
      rcases h.buffers fixed (malloc 0) l with eq | eq <;> rw [eq]
      · exact ⟨trivial, rfl⟩
      · have live : Ledger.IsLive [(malloc 0, [])] (malloc 0) := ⟨[], List.mem_singleton_self _⟩
        refine ⟨⟨⟨fresh, nofun⟩, live, ⟨live, ?_⟩, trivial⟩, Ledger.record_delete_last fresh⟩
        intro e he
        rw [List.mem_singleton.mp he]
        exact List.not_mem_nil
    rw [bufferTrace, Runs.along_append, Runs.run_append, one.2]
    exact ⟨⟨one.1, legal⟩, empty⟩

end Buffers

/-- In every interleaving of any calls on any number of services, whatever fails: the native copies of paths and samples
are used and freed exactly once each while they live, and none is left after any run. In particular
`loadModel` and `runInference` never find `_bindings` unassigned. -/
theorem native_copies_freed (labels : List InstanceLabel) (malloc : Nat → Nat) :
    Runs.Along Ledger.record Ledger.Legal [] (bufferTrace malloc Instances.initial labels) ∧
      Runs.run Ledger.record [] (bufferTrace malloc Instances.initial labels) = [] := by
  have start : Owned none Instances.initial := ⟨nofun, fun n t ht => by simp [Instances.initial] at ht⟩
  exact bufferTrace_legal labels malloc start (Or.inl rfl)

-- a load and an inference, at the same address
example : bufferTrace (fun _ => 7) Instances.initial (.call (0, .initModel) :: List.replicate 14 (.step 0 .fine) ++
      [.call (0, .startListening), .call (0, .tick 0), .step 2 .fine]) =
    [.create 7 [], .use 7, .delete 7, .create 7 [], .use 7, .delete 7] := by
  decide

end AuroraVoice
