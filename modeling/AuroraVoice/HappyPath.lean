import AuroraVoice.ModelCalls
import AuroraVoice.Readiness
import AuroraVoice.Reachability
import AuroraVoice.TemporaryFiles

namespace AuroraVoice

/-- What the service is for: at most one model type is current. A call may change which, and returns
whether one is. -/
def ModelCall.answer (current : Option String) : ModelCall → Option String × Bool
  | .initModel => (some (current.getD modelFloat32), true)
  | .switchModel newType =>
    match current with
    | none => (none, false)
    | some _ => (some newType, true)

def Call.model : Call → Option ModelCall
  | .initModel => some .initModel
  | .switchModel newType => some (.switchModel newType)
  | _ => none

/-- The abstract machine run along a list of labels, with the answer to each call that has one. -/
structure Spec where
  current : Option String
  answers : List (Option Bool)

def Spec.initial : Spec := ⟨none, []⟩

def Spec.next (s : Spec) : Label → Spec
  | .call k =>
    match k.model with
    | some x => ⟨(x.answer s.current).1, s.answers ++ [some (x.answer s.current).2]⟩
    | none => ⟨s.current, s.answers ++ [none]⟩
  | .step _ _ => s

def Task.changing : Task → Bool
  | .blocked _ .runInference => false
  | .ready _ .runInference => false
  | .done _ => false
  | _ => true

def NoChange (c : Config) : Prop := ∀ t ∈ c.tasks, t.changing = false

instance decidableNoChange (c : Config) : Decidable (NoChange c) :=
  inferInstanceAs (Decidable (∀ t ∈ c.tasks, t.changing = false))

def Call.happy : Call → Bool
  | .setModelType _ => false
  | .dispose => false
  | _ => true

/-- No `setModelType`, no `dispose`, no two model changes at a time, and no step that fails. -/
def Happy (c : Config) : Label → Prop
  | .call k => k.happy = true ∧ (k.model.isSome = true → NoChange c)
  | .step i e => ∀ t, c.tasks[i]? = some t → Succeeds e c.state t

instance decidableHappy (c : Config) : ∀ l, Decidable (Happy c l)
  | .call k => inferInstanceAs (Decidable (k.happy = true ∧ (k.model.isSome = true → NoChange c)))
  | .step i e => inferInstanceAs (Decidable (Pool.Allowed (fun _ (_ : Call) => True) Succeeds c (.step i e)))

def Refines (current : Option String) (m : Machine) : Prop :=
  match current with
  | none => m.service.selectedModelType = modelFloat32 ∧ m.service.isInitialized = false ∧
      m.world.plugin.loaded = none ∧ NoFile m
  | some type => m.service.selectedModelType = type ∧ m.service.isInitialized = true ∧ Holds m type ∧
      ExactFile type m

/-- Between two model changes the service also knows its file, and its bindings are those there are. -/
def AtRest (current : Option String) (m : Machine) : Prop :=
  Refines current m ∧ m.service.currentModelFile = current.map modelPath ∧
    m.service.ffiInitialized = m.world.bindings

def Linked (m : Machine) : Task → Prop
  | .blocked _ (.switchModelExists _) => m.service.ffiInitialized = m.world.bindings
  | .ready _ (.switchModelExists _) => m.service.ffiInitialized = m.world.bindings
  | .blocked _ (.switchModelDelete _) => m.service.ffiInitialized = m.world.bindings
  | .ready _ (.switchModelDelete _) => m.service.ffiInitialized = m.world.bindings
  | .blocked _ (.initFfiPlugin _ _) => m.world.bindings = false
  | .ready _ (.initFfiPlugin _ _) => m.world.bindings = false
  | .ready _ (.initFfi _ _) => m.world.bindings = true
  | _ => m.service.ffiInitialized = true ∧ m.world.bindings = true

/-- Nothing changes but the timers, `isListening`, `inferenceResult` and the input tensor. -/
structure SameModel (m next : Machine) : Prop where
  view : next.view = m.view
  file : next.service.currentModelFile = m.service.currentModelFile
  files : next.world.files = m.world.files
  ffi : next.service.ffiInitialized = m.service.ffiInitialized
  bindings : next.world.bindings = m.world.bindings

def Task.Ticks (t : Task) : Prop :=
  t = .blocked .runInference .runInference ∨ (∃ r, t = .ready r .runInference) ∨ ∃ r, t = .done r

section Listening

variable {m next : Machine} {type : String} {t : Task}

theorem SameModel.refl (m : Machine) : SameModel m m := ⟨rfl, rfl, rfl, rfl, rfl⟩

theorem SameModel.selected (h : SameModel m next) :
    next.service.selectedModelType = m.service.selectedModelType := congrArg View.selected h.view

theorem SameModel.loaded (h : SameModel m next) : next.world.plugin.loaded = m.world.plugin.loaded :=
  congrArg View.loaded h.view

theorem SameModel.initialized (h : SameModel m next) : next.service.isInitialized = m.service.isInitialized :=
  congrArg View.initialized h.view

theorem SameModel.keeps (h : SameModel m next) (type : String) : Keeps type m next := by
  refine ⟨fun hs => h.selected.trans hs, fun hw => ⟨h.selected.trans hw.1, ?_⟩,
    fun hl => ⟨h.selected.trans hl.1, h.loaded.trans hl.2⟩, fun hi => h.initialized.trans hi⟩
  rw [h.files]
  exact hw.2

theorem SameModel.tidy (h : SameModel m next) (tidy : Tidy type m t) : Tidy type next t := by
  unfold Tidy at tidy ⊢
  simp only [HeldFile, FileThere, NoFile, FileOf, ExactFile, h.file, h.files] at tidy ⊢
  exact tidy

theorem SameModel.linked (h : SameModel m next) (linked : Linked m t) : Linked next t := by
  unfold Linked at linked ⊢
  simp only [h.ffi, h.bindings] at linked ⊢
  exact linked

theorem SameModel.atRest (h : SameModel m next) {current : Option String} (rest : AtRest current m) :
    AtRest current next := by
  obtain ⟨refines, file, bound⟩ := rest
  refine ⟨?_, h.file.trans file, (h.ffi.trans bound).trans h.bindings.symm⟩
  cases current with
  | none =>
    simp only [Refines, NoFile, h.selected, h.loaded, h.initialized, h.files] at refines ⊢
    exact refines
  | some type =>
    simp only [Refines, holds_iff, ExactFile, h.selected, h.loaded, h.initialized, h.files] at refines ⊢
    exact refines

theorem Task.Ticks.not_changing (h : t.Ticks) : t.changing = false := by
  rcases h with rfl | ⟨r, rfl⟩ | ⟨r, rfl⟩ <;> rfl

theorem Task.Ticks.advance (h : t.Ticks) (e : Environment) (m : Machine) :
    SameModel m (advance e m t).1 ∧ (advance e m t).2.Ticks := by
  rcases h with rfl | ⟨r, rfl⟩ | ⟨r, rfl⟩
  · obtain ⟨plugin, r, eq, loaded⟩ := perform_runInference e m.world
    simp only [AuroraVoice.advance, eq]
    exact ⟨⟨congrArg (View.mk _ _) loaded, rfl, rfl, rfl, rfl⟩, Or.inr (Or.inl ⟨r, rfl⟩)⟩
  · cases r with
    | result value => exact ⟨⟨rfl, rfl, rfl, rfl, rfl⟩, Or.inr (Or.inr ⟨_, rfl⟩)⟩
    | _ => exact ⟨SameModel.refl m, Or.inr (Or.inr ⟨_, rfl⟩)⟩
  · exact ⟨SameModel.refl m, Or.inr (Or.inr ⟨r, rfl⟩)⟩

theorem startListening_same (m : Machine) : SameModel m m.startListening := by
  unfold Machine.startListening
  split
  next => exact SameModel.refl m
  next => exact ⟨rfl, rfl, rfl, rfl, rfl⟩

theorem stopListening_same (m : Machine) : SameModel m m.stopListening := ⟨rfl, rfl, rfl, rfl, rfl⟩

theorem toggleListening_same (m : Machine) : SameModel m m.toggleListening := by
  unfold Machine.toggleListening
  split
  next => exact SameModel.refl m
  next =>
    split
    next => exact stopListening_same m
    next => exact startListening_same m

theorem start_same {k : Call} (happy : k.happy = true) (hk : k.model = none) (m : Machine) :
    SameModel m (m.start k).1 ∧ (m.start k).2.Ticks := by
  have finished : ∀ r, (Task.done r).Ticks := fun r => Or.inr (Or.inr ⟨r, rfl⟩)
  cases k with
  | initModel => cases hk
  | switchModel newType => cases hk
  | setModelType type => cases happy
  | dispose => cases happy
  | startListening => exact ⟨startListening_same m, finished _⟩
  | stopListening => exact ⟨stopListening_same m, finished _⟩
  | toggleListening => exact ⟨toggleListening_same m, finished _⟩
  | tick timer =>
    simp only [Machine.start, Machine.tick]
    split
    next => exact ⟨SameModel.refl m, Or.inl rfl⟩
    next => exact ⟨SameModel.refl m, finished _⟩

end Listening

section Worker

variable {m : Machine} {type : String} {c : Caller} {t : Task} {e : Environment}

theorem linked_switchModelInit (h : m.service.ffiInitialized = m.world.bindings) :
    Linked (m.switchModelInit type).1 (m.switchModelInit type).2 := by
  simp only [Machine.switchModelInit, Machine.initModel]
  split
  next hf => exact ⟨hf, h.symm.trans hf⟩
  next hf => exact h.symm.trans (by simpa using hf)

theorem Aims.linked_advanced (h : Aims type m c t) (linked : Linked m t) (ok : Succeeds e m t) :
    Linked (advance e m t).1 (advance e m t).2 := by
  cases t with
  | blocked op k =>
    have bound := perform_bindings e op m.world
    cases h <;> simp only [advance, Linked, bound] at linked ⊢ <;> exact linked
  | done result => exact linked
  | ready r k =>
    cases h with
    | probed b =>
      cases b with
      | false => exact linked_switchModelInit linked
      | true =>
        simp only [advance, resume, Machine.deleteCurrent]
        cases hf : m.service.currentModelFile with
        | none => simp [Succeeds, advance, resume, Machine.deleteCurrent, hf, Task.failed] at ok
        | some file => exact linked
    | deleted => exact linked_switchModelInit linked
    | plugin =>
      have free : m.world.bindings = false := linked
      simp only [advance, resume, free, Bool.false_eq_true, if_false]
      rfl
    | bound => exact ⟨rfl, linked⟩
    | measured =>
      have bound := World.loadModel_bindings m.world (modelPath type) e.load
      simp only [advance, resume]
      exact ⟨linked.1, bound.trans linked.2⟩
    | loaded =>
      cases c with
      | direct => exact linked
      | switchModel => exact linked
    | _ => exact linked

theorem ExactFile.there (h : ExactFile type m) : m.world.files (modelPath type) = some (.asset (assetOf type)) :=
  (h _ _).mpr ⟨rfl, rfl⟩

/-- A call that runs with no other is never stuck: its next step can succeed. -/
theorem Aims.progress (h : Aims type m c t) (tidy : Tidy type m t) (linked : Linked m t) :
    Succeeds Environment.fine m t := by
  cases h with
  | probe file =>
    simp only [Succeeds, advance, perform, Environment.fine]
    cases (m.world.files file).isSome <;> rfl
  | probed b =>
    cases b with
    | false =>
      simp only [Succeeds, advance, resume, Machine.switchModelInit, Machine.initModel]
      split <;> rfl
    | true =>
      obtain ⟨_, file, there⟩ := tidy
      simp [Succeeds, advance, resume, Machine.deleteCurrent, there.1, Task.failed]
  | delete file =>
    obtain ⟨_, _, same, there⟩ := tidy
    cases same
    simp [Succeeds, advance, perform, Environment.fine, there.2, Task.failed]
  | deleted =>
    simp only [Succeeds, advance, resume, Machine.switchModelInit, Machine.initModel]
    split <;> rfl
  | plugin =>
    have free : m.world.bindings = false := linked
    simp [Succeeds, advance, resume, free, Task.failed]
  | check => simp [Succeeds, advance, perform, Environment.fine, tidy.there, Task.failed]
  | length => simp [Succeeds, advance, perform, Environment.fine, tidy.there, Task.failed]
  | measured =>
    simp [Succeeds, advance, resume, World.loadModel, linked.2, tidy.there, Plugin.loadModel_value,
      Environment.fine, LoadOutcome.succeeds, Task.failed]
  | loaded =>
    cases c with
    | direct => rfl
    | switchModel => rfl
  | _ => rfl

theorem Aims.changing_or_done (h : Aims type m c t) : t.changing = true ∨ ∃ r, t = .done r := by
  cases h with
  | done => exact Or.inr ⟨_, rfl⟩
  | _ => exact Or.inl rfl

end Worker

section Start

variable {m : Machine} {current : Option String} {x : ModelCall}

theorem AtRest.initialized (h : AtRest current m) : m.service.isInitialized = current.isSome := by
  cases current with
  | none => exact h.1.2.1
  | some type => exact h.1.2.1

theorem AtRest.selected (h : AtRest current m) : m.service.selectedModelType = current.getD modelFloat32 := by
  cases current with
  | none => exact h.1.1
  | some type => exact h.1.1

theorem AtRest.fileOf (h : AtRest current m) : FileOf m.service.selectedModelType m := by
  cases current with
  | none => exact NoFile.fileOf h.1.2.2.2
  | some type =>
    rw [h.selected]
    exact ExactFile.fileOf h.1.2.2.2

theorem AtRest.answer_early (h : AtRest current m) (early : x.Early m.view) :
    x.answer current = (current, m.service.isInitialized) := by
  cases x with
  | initModel => exact early.elim
  | switchModel newType =>
    rw [h.initialized]
    cases current with
    | none => rfl
    | some type =>
      have same : newType = type := by
        rcases early with hn | hs
        · rw [Machine.view_initialized, h.initialized] at hn
          cases hn
        · exact hs.trans h.selected
      rw [same]
      rfl

theorem AtRest.answer_active (h : AtRest current m) (active : ¬ x.Early m.view) :
    x.answer current = (some (x.target m.service.selectedModelType), true) := by
  cases x with
  | initModel =>
    rw [h.selected]
    rfl
  | switchModel newType =>
    have hi : m.service.isInitialized = true := by simpa using (not_or.mp active).1
    rw [h.initialized] at hi
    obtain ⟨type, rfl⟩ := Option.isSome_iff_exists.mp hi
    rfl

theorem AtRest.start (h : AtRest current m) (active : ¬ x.Early m.view) :
    Tidy (x.target m.service.selectedModelType) (m.start x.call).1 (m.start x.call).2 ∧
      Linked (m.start x.call).1 (m.start x.call).2 ∧ (m.start x.call).2.changing = true := by
  obtain ⟨_, file, bound⟩ := id h
  cases x with
  | initModel =>
    simp only [Machine.start, ModelCall.call, Machine.initModel]
    split
    next hf => exact ⟨h.fileOf, ⟨hf, bound.symm.trans hf⟩, rfl⟩
    next hf => exact ⟨h.fileOf, bound.symm.trans (by simpa using hf), rfl⟩
  | switchModel newType =>
    have need : m.service.isInitialized = true ∧ newType ≠ m.service.selectedModelType := by
      simpa [ModelCall.Early] using active
    have hi := need.1
    rw [h.initialized] at hi
    obtain ⟨type, rfl⟩ := Option.isSome_iff_exists.mp hi
    have file : m.service.currentModelFile = some (modelPath type) := file
    have start := switchModel_active need.1 need.2 file
    have held : HeldFile ⟨m.service, m.world.unloadModel⟩ := by
      intro path data hd
      rw [World.unloadModel_files] at hd
      rw [((h.1.2.2.2 path data).mp hd).1]
      exact file
    simp only [Machine.start, ModelCall.call, start]
    exact ⟨⟨held, _, rfl, file⟩, bound.trans m.world.unloadModel_bindings.symm, rfl⟩

theorem Aims.atRest {type : String} {c : Caller} {r : Completion} (h : Aims type m c (.done r))
    (tidy : Tidy type m (.done r)) (linked : Linked m (.done r)) : r = .value true ∧ AtRest (some type) m := by
  cases h with
  | done _ h hi =>
    refine ⟨rfl, ⟨h.1, hi, (holds_iff m type).mpr h.2, tidy.1⟩, tidy.2, linked.1.trans linked.2.symm⟩

end Start

end AuroraVoice
