import AuroraVoice.Ledger
import AuroraVoice.Plugin

namespace AuroraVoice

variable {Bytes : Type}

/-- What one library call does to the handles it is given and the handle it returns. -/
def TfLiteCall.events : TfLiteCall → List Ledger.Event
  | .modelCreateFromFile _ (some h) => [.create h []]
  | .modelCreateFromFile _ none => []
  | .modelDelete h => [.delete h]
  | .interpreterOptionsCreate h => [.create h []]
  | .interpreterOptionsSetNumThreads h _ => [.use h]
  | .interpreterOptionsDelete h => [.delete h]
  | .interpreterCreate m o (some h) => [.use m, .use o, .create h [m, o]]
  | .interpreterCreate m o none => [.use m, .use o]
  | .interpreterDelete h => [.delete h]
  | .interpreterAllocateTensors h => [.use h]
  | .interpreterGetInputTensor h => [.use h]
  | .interpreterInvoke h => [.use h]
  | .interpreterGetOutputTensor h => [.use h]
  | .tensorByteSize h => [.use h]
  | .tensorCopyFromBuffer h _ => [.use h]
  | .tensorData h => [.use h]

def Plugin.trace : Plugin Bytes → List (NativeCall Bytes) → List TfLiteCall
  | _, [] => []
  | p, c :: calls => (p.call c).calls ++ (p.next c).trace calls

def Plugin.statics (p : Plugin Bytes) : Ledger.Live :=
  (p.model.map fun m => (m.handle, [])).toList ++
    (p.options.map fun o => (o.handle, [])).toList ++
    (p.interpreter.map fun i => (i.handle, [i.model, i.options])).toList

def Plugin.BuiltFromStatics (p : Plugin Bytes) : Prop :=
  ∀ i, p.interpreter = some i →
    ∃ m o, p.model = some m ∧ p.options = some o ∧ i.model = m.handle ∧ i.options = o.handle

structure Plugin.Consistent (p : Plugin Bytes) : Prop where
  built : p.BuiltFromStatics
  below : ∀ e ∈ p.statics, e.1 < p.nextHandle
  increasing : (p.statics.map Prod.fst).Pairwise (· < ·)

/-- The calls are legal on the statics of `p` and turn them into those of `q`. -/
structure Plugin.Accounts (p : Plugin Bytes) (calls : List TfLiteCall) (q : Plugin Bytes) : Prop where
  legal : Runs.Along Ledger.record Ledger.Legal p.statics (calls.flatMap TfLiteCall.events)
  live : Runs.run Ledger.record p.statics (calls.flatMap TfLiteCall.events) = q.statics
  consistent : q.Consistent

theorem Plugin.Accounts.nil {p : Plugin Bytes} (h : p.Consistent) : p.Accounts [] p :=
  ⟨trivial, rfl, h⟩

theorem Plugin.Accounts.append {p q r : Plugin Bytes} {first second : List TfLiteCall}
    (h : p.Accounts first q) (h' : q.Accounts second r) : p.Accounts (first ++ second) r := by
  refine ⟨?_, ?_, h'.consistent⟩
  · rw [List.flatMap_append, Runs.along_append, h.live]
    exact ⟨h.legal, h'.legal⟩
  · rw [List.flatMap_append, Runs.run_append, h.live, h'.live]

theorem Plugin.initial_consistent : (Plugin.initial : Plugin Bytes).Consistent :=
  ⟨by simp [BuiltFromStatics, initial], by simp [statics, initial], by simp [statics, initial]⟩

/-- Deleting the youngest object is legal as long as it does not depend on itself. -/
theorem Plugin.Accounts.delete_last {p q : Plugin Bytes} {c : TfLiteCall} (h : Nat) (parents : List Nat)
    (hc : c.events = [.delete h]) (hp : p.Consistent) (hq : q.Consistent)
    (hs : p.statics = q.statics ++ [(h, parents)])
    (older : ∀ e ∈ q.statics ++ [(h, parents)], h ∉ e.2) : p.Accounts [c] q := by
  have fresh : ¬ Ledger.IsLive q.statics h := by
    rintro ⟨ps, hm⟩
    have increasing := hp.increasing
    rw [hs, List.map_append] at increasing
    have := (List.pairwise_append.mp increasing).2.2 h (List.mem_map_of_mem hm) h (by simp)
    omega
  refine ⟨?_, ?_, hq⟩
  · simp only [List.flatMap_cons, List.flatMap_nil, List.append_nil, hc, hs, Runs.along_cons]
    exact ⟨⟨by simp, older⟩, trivial⟩
  · simp only [List.flatMap_cons, List.flatMap_nil, List.append_nil, hc, hs, Runs.run_cons, Runs.run_nil]
    exact Ledger.record_delete_last fresh

theorem Plugin.releaseInterpreter_accounts {p : Plugin Bytes} (h : p.Consistent) :
    p.Accounts p.releaseInterpreter.2 p.releaseInterpreter.1 := by
  obtain ⟨model, interpreter, options, nextHandle⟩ := p
  cases interpreter with
  | none => exact Accounts.nil h
  | some i =>
    obtain ⟨m, o, hm, ho, him, hio⟩ := h.built i rfl
    cases hm
    cases ho
    have increasing := h.increasing
    have below := h.below
    simp [statics, him, hio] at increasing below
    change Accounts _ [.interpreterDelete i.handle] ⟨some m, none, some o, nextHandle⟩
    refine Accounts.delete_last i.handle [i.model, i.options] rfl h ⟨?_, ?_, ?_⟩ ?_ ?_
    · simp [BuiltFromStatics]
    · simp [statics]
      omega
    · simp [statics]
      omega
    · simp [statics]
    · simp [statics, him, hio]
      omega

theorem Plugin.releaseOptions_accounts {p : Plugin Bytes} (h : p.Consistent) (hi : p.interpreter = none) :
    p.Accounts p.releaseOptions.2 p.releaseOptions.1 := by
  obtain ⟨model, interpreter, options, nextHandle⟩ := p
  cases hi
  cases options with
  | none => exact Accounts.nil h
  | some o =>
    have increasing := h.increasing
    have below := h.below
    change Accounts _ [.interpreterOptionsDelete o.handle] ⟨model, none, none, nextHandle⟩
    refine Accounts.delete_last o.handle [] rfl h ⟨?_, ?_, ?_⟩ ?_ ?_
    · simp [BuiltFromStatics]
    · exact fun e he => below e (by simp [statics] at he ⊢; exact Or.inl he)
    · cases model <;> simp [statics]
    · simp [statics]
    · cases model <;> simp [statics]

theorem Plugin.releaseModel_accounts {p : Plugin Bytes} (h : p.Consistent) (hi : p.interpreter = none)
    (ho : p.options = none) : p.Accounts p.releaseModel.2 p.releaseModel.1 := by
  obtain ⟨model, interpreter, options, nextHandle⟩ := p
  cases hi
  cases ho
  cases model with
  | none => exact Accounts.nil h
  | some m =>
    change Accounts _ [.modelDelete m.handle] ⟨none, none, none, nextHandle⟩
    refine Accounts.delete_last m.handle [] rfl h ⟨?_, ?_, ?_⟩ ?_ ?_ <;>
      simp [BuiltFromStatics, statics]

theorem Plugin.release_accounts {p : Plugin Bytes} (h : p.Consistent) : p.Accounts p.release.2 p.release.1 := by
  have first := releaseInterpreter_accounts h
  have second := releaseOptions_accounts first.consistent (by simp [releaseInterpreter_eq])
  have third := releaseModel_accounts second.consistent
    (by simp [releaseOptions_eq, releaseInterpreter_eq]) (by simp [releaseOptions_eq])
  exact (first.append second).append third

theorem Plugin.unloadModel_accounts {p : Plugin Bytes} (h : p.Consistent) :
    p.Accounts p.unloadModel.calls p.unloadModel.plugin :=
  release_accounts h

/-- Past the releases of `load_model`, every exit leaves exactly what it created. -/
theorem Plugin.loadModel_accounts {p : Plugin Bytes} (h : p.Consistent) (path : Option String)
    (file : Option Bytes) (o : LoadOutcome) :
    p.Accounts (p.loadModel path file o).calls (p.loadModel path file o).plugin := by
  cases path with
  | none => exact Accounts.nil h
  | some path =>
    have released := release_accounts h
    rw [release_eq] at released
    simp only [loadModel, release_eq]
    split
    next => exact released.append ⟨trivial, rfl, released.consistent⟩
    next bytes _ =>
      have empty : (⟨none, none, none, p.nextHandle⟩ : Plugin Bytes).statics = [] := rfl
      split
      next =>
        -- the exit after a failed AllocateTensors leaves the same handles as the successful one
        split
        all_goals
          simp only [List.append_assoc]
          apply released.append
          refine ⟨?_, ?_, ?_, ?_, ?_⟩
          · simp [empty, TfLiteCall.events, Ledger.Legal]
          · simp [TfLiteCall.events, statics]
          · simp [BuiltFromStatics]
          · simp only [statics, Option.map_some, Option.toList_some, List.cons_append, List.nil_append,
              List.mem_cons, List.not_mem_nil, or_false, forall_eq_or_imp, forall_eq]
            omega
          · simp [statics]
      next =>
        simp only [List.append_assoc]
        apply released.append
        refine ⟨?_, ?_, ?_, ?_, ?_⟩
        · simp [empty, TfLiteCall.events, Ledger.Legal]
        · simp [TfLiteCall.events, statics]
        · simp [BuiltFromStatics]
        · simp [statics]
        · simp [statics]

theorem Plugin.Accounts.uses {p q : Plugin Bytes} {i : TfLiteInterpreter Bytes} {calls : List TfLiteCall}
    (hi : p.interpreter = some i) (hu : ∀ c ∈ calls, c.events = [.use i.handle])
    (hs : q.statics = p.statics) (hq : q.Consistent) : p.Accounts calls q := by
  have live : Ledger.IsLive p.statics i.handle := by simp [statics, hi]
  induction calls with
  | nil => exact ⟨trivial, hs.symm, hq⟩
  | cons c calls ih =>
    have rest := ih fun d hd => hu d (List.mem_cons_of_mem _ hd)
    have events : (c :: calls).flatMap TfLiteCall.events =
        .use i.handle :: calls.flatMap TfLiteCall.events := by
      simp [hu c List.mem_cons_self]
    refine ⟨?_, ?_, hq⟩
    · rw [events]
      exact ⟨live, rest.legal⟩
    · rw [events]
      exact rest.live

theorem Plugin.runInference_accounts {p : Plugin Bytes} (h : p.Consistent) (pcm : Option (List Int16))
    (length : Int32) (o : InferenceOutcome) :
    p.Accounts (p.runInference pcm length o).calls (p.runInference pcm length o).plugin := by
  cases hi : p.interpreter with
  | none =>
    rw [runInference_null hi]
    exact Accounts.nil h
  | some i =>
    apply Accounts.uses hi
    · intro c hc
      rcases runInference_calls hi hc with rfl | rfl | ⟨_, rfl⟩ | rfl | rfl | rfl <;> rfl
    · rcases runInference_plugin pcm length o hi with eq | ⟨input, eq⟩ <;> rw [eq]
      simp [statics, hi]
    · rcases runInference_plugin pcm length o hi with eq | ⟨input, eq⟩ <;> rw [eq]
      · exact h
      · obtain ⟨built, below, increasing⟩ := h
        refine ⟨?_, by simpa [statics, hi] using below, by simpa [statics, hi] using increasing⟩
        rintro _ ⟨⟩
        exact built i hi

theorem Plugin.call_accounts {p : Plugin Bytes} (h : p.Consistent) (c : NativeCall Bytes) :
    p.Accounts (p.call c).calls (p.next c) := by
  cases c with
  | loadModel path file o => exact loadModel_accounts h path file o
  | runInference pcm length o => exact runInference_accounts h pcm length o
  | unloadModel => exact unloadModel_accounts h

theorem Plugin.trace_accounts {p : Plugin Bytes} (h : p.Consistent) (calls : List (NativeCall Bytes)) :
    p.Accounts (p.trace calls) (Runs.run next p calls) := by
  induction calls generalizing p with
  | nil => exact Accounts.nil h
  | cons c calls ih =>
    have first := call_accounts h c
    exact first.append (ih first.consistent)

/-- From program start and over any sequence of native calls, whatever TFLite answers: every
library call is legal for the handles live at that moment, the live objects are exactly the
non-null statics, the interpreter stands on the current model and options, and nothing is
live once the last call is `unload_model`. -/
theorem native_handle_ledger (calls : List (NativeCall Bytes)) :
    Runs.Along Ledger.record Ledger.Legal []
        ((Plugin.initial.trace calls).flatMap TfLiteCall.events) ∧
      Runs.run Ledger.record [] ((Plugin.initial.trace calls).flatMap TfLiteCall.events) =
        (Runs.run Plugin.next Plugin.initial calls).statics ∧
      (Runs.run Plugin.next Plugin.initial calls).BuiltFromStatics ∧
      Runs.run Ledger.record []
        ((Plugin.initial.trace (calls ++ [.unloadModel])).flatMap TfLiteCall.events) = [] := by
  have start : (Plugin.initial : Plugin Bytes).Consistent := Plugin.initial_consistent
  have books := Plugin.trace_accounts start calls
  have closed := Plugin.trace_accounts start (calls ++ [.unloadModel])
  refine ⟨books.legal, books.live, books.consistent.built, closed.live.trans ?_⟩
  rw [Runs.run_append]
  simp [Plugin.next, Plugin.call, Plugin.unloadModel, Plugin.release_eq, Plugin.statics]

end AuroraVoice
