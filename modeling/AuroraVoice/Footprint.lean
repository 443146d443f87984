import AuroraVoice.Instances

namespace AuroraVoice

section Paths

variable {ok : String → Prop}

def IsModelFile (ok : String → Prop) (path : String) : Prop := ∃ type, ok type ∧ path = modelPath type

def Op.Within (ok : String → Prop) : Op → Prop
  | .writeAsBytes path _ => IsModelFile ok path
  | .exists path => IsModelFile ok path
  | .length path => IsModelFile ok path
  | .delete path => IsModelFile ok path
  | _ => True

def Cont.Within (ok : String → Prop) : Cont → Prop
  | .initModelWrite _ file => IsModelFile ok file
  | .initModelExists _ file => IsModelFile ok file
  | .initModelLength _ file => IsModelFile ok file
  | .switchModelExists newType => ok newType
  | .switchModelDelete newType => ok newType
  | _ => True

/-- A pending call names files of the types `ok` only. -/
def Task.Within (ok : String → Prop) : Task → Prop
  | .blocked op k => op.Within ok ∧ k.Within ok
  | .ready _ k => k.Within ok
  | .done _ => True

structure VoiceService.Within (ok : String → Prop) (s : VoiceService) : Prop where
  selected : ok s.selectedModelType
  file : ∀ file, s.currentModelFile = some file → IsModelFile ok file

def Call.Within (ok : String → Prop) : Call → Prop
  | .switchModel newType => ok newType
  | _ => True

/-- What a step may do: it leaves every other file alone, and stays within the types. -/
structure Confined (ok : String → Prop) (m : Machine) (x : Machine × Task) : Prop where
  files : ∀ path, ¬ IsModelFile ok path → x.1.world.files path = m.world.files path
  service : x.1.service.Within ok
  task : x.2.Within ok

theorem Caller.give_within (c : Caller) (b : Bool) : (c.give b).Within ok := by
  cases c <;> trivial

variable {m : Machine} (h : m.service.Within ok)
include h

theorem Machine.initModel_confined (c : Caller) : Confined ok m (m.initModel c) := by
  unfold Machine.initModel
  dsimp only
  split
  next => exact ⟨fun _ _ => rfl, h, trivial⟩
  next => exact ⟨fun _ _ => rfl, h, trivial, trivial⟩

theorem Machine.switchModelInit_confined {newType : String} (allowed : ok newType) :
    Confined ok m (m.switchModelInit newType) := by
  have within : { m.service with selectedModelType := newType }.Within ok := ⟨allowed, h.file⟩
  obtain ⟨files, service, task⟩ := Machine.initModel_confined
    (m := ⟨{ m.service with selectedModelType := newType }, m.world⟩) within .switchModel
  exact ⟨files, service, task⟩

theorem Machine.deleteCurrent_confined {k : Cont} (hk : k.Within ok) : Confined ok m (m.deleteCurrent k) := by
  unfold Machine.deleteCurrent
  split
  next file current => exact ⟨fun _ _ => rfl, h, h.file file current, hk⟩
  next => exact ⟨fun _ _ => rfl, h, trivial⟩

theorem Machine.disposeEnd_confined : Confined ok m m.disposeEnd :=
  ⟨fun _ _ => rfl, ⟨h.selected, h.file⟩, trivial⟩

theorem Machine.startListening_within : m.startListening.service.Within ok := by
  unfold Machine.startListening
  split
  next => exact h
  next => exact ⟨h.selected, h.file⟩

theorem Machine.stopListening_within : m.stopListening.service.Within ok := ⟨h.selected, h.file⟩

end Paths

section Step

variable {ok : String → Prop} {m : Machine}

/-- The files that a call leaves as they are while it runs up to its first `await`. -/
theorem start_files (m : Machine) (k : Call) : (m.start k).1.world.files = m.world.files := by
  obtain ⟨w, timers, nextTimer, rfl | rfl, eq⟩ := start_world m k
  · rw [eq]
  · rw [eq]
    exact m.world.unloadModel_files

theorem start_confined (builtin : ∀ type ∈ modelTypes, ok type) (h : m.service.Within ok) {k : Call} (hk : k.Within ok) :
    Confined ok m (m.start k) := by
  have files : ∀ path, ¬ IsModelFile ok path → (m.start k).1.world.files path = m.world.files path :=
    fun path _ => congrFun (start_files m k) path
  suffices both : (m.start k).1.service.Within ok ∧ (m.start k).2.Within ok from ⟨files, both.1, both.2⟩
  cases k with
  | initModel =>
    obtain ⟨_, service, task⟩ := Machine.initModel_confined h .direct
    exact ⟨service, task⟩
  | switchModel newType =>
    simp only [Machine.start, Machine.switchModel]
    split
    next => exact ⟨h, trivial⟩
    next =>
      split
      next => exact ⟨h, trivial⟩
      next =>
        split
        next file current => exact ⟨h, h.file file current, hk⟩
        next =>
          obtain ⟨_, service, task⟩ := Machine.switchModelInit_confined (m := ⟨m.service, m.world.unloadModel⟩) h hk
          exact ⟨service, task⟩
  | setModelType type =>
    simp only [Machine.start, Machine.setModelType]
    split
    next allowed => exact ⟨⟨builtin type allowed, h.file⟩, trivial⟩
    next => exact ⟨h, trivial⟩
  | startListening => exact ⟨Machine.startListening_within h, trivial⟩
  | stopListening => exact ⟨Machine.stopListening_within h, trivial⟩
  | toggleListening =>
    simp only [Machine.start, Machine.toggleListening]
    split
    next => exact ⟨h, trivial⟩
    next =>
      split
      next => exact ⟨Machine.stopListening_within h, trivial⟩
      next => exact ⟨Machine.startListening_within h, trivial⟩
  | dispose =>
    have stopped := Machine.stopListening_within h
    simp only [Machine.start, Machine.dispose]
    split
    next file current => exact ⟨stopped, stopped.file file current, trivial⟩
    next => exact ⟨⟨stopped.selected, stopped.file⟩, trivial⟩
  | tick timer =>
    simp only [Machine.start, Machine.tick]
    split
    next => exact ⟨h, trivial, trivial⟩
    next => exact ⟨h, trivial⟩

/-- An operation changes no file but the one it names. -/
theorem perform_within (e : Environment) {op : Op} (h : op.Within ok) (w : World) {path : String}
    (foreign : ¬ IsModelFile ok path) : (perform e op w).1.files path = w.files path := by
  have write : ∀ file data, IsModelFile ok file → (w.writeFile file data).files path = w.files path := by
    intro file data named
    have other : path ≠ file := fun eq => foreign (eq ▸ named)
    exact if_neg other
  have remove : ∀ file, IsModelFile ok file → (w.removeFile file).files path = w.files path := by
    intro file named
    have other : path ≠ file := fun eq => foreign (eq ▸ named)
    exact if_neg other
  unfold perform
  split
  all_goals first
    | rfl
    | exact write _ _ h
    | exact remove _ h
    | skip
  next =>
    split
    next => exact remove _ h
    next => rfl
  next => split <;> rfl

theorem resume_confined (h : m.service.Within ok) {k : Cont} (hk : k.Within ok) (e : Environment) (r : Reply) :
    Confined ok m (resume e k r m) := by
  have keep : ∀ {t : Task}, t.Within ok → Confined ok m (m, t) := fun within => ⟨fun _ _ => rfl, h, within⟩
  unfold resume
  split
  all_goals first
    | exact keep trivial
    | exact keep (Caller.give_within _ _)
    | exact keep ⟨trivial, trivial⟩
    | exact keep ⟨hk, hk⟩
    | exact Machine.switchModelInit_confined h hk
    | exact Machine.deleteCurrent_confined h hk
    | exact Machine.deleteCurrent_confined h trivial
    | exact Machine.disposeEnd_confined h
    | exact ⟨fun _ _ => rfl, ⟨h.selected, h.file⟩, trivial⟩
    | exact ⟨fun _ _ => rfl, ⟨h.selected, h.file⟩, Caller.give_within _ _⟩
    | skip
  next =>
    -- `_bindings` is assigned, or is already
    split
    next => exact keep trivial
    next => exact ⟨fun _ _ => rfl, h, trivial⟩
  next c data =>
    -- the file is named after the type that is selected
    have named : IsModelFile ok (modelPath m.service.selectedModelType) := ⟨_, h.selected, rfl⟩
    exact keep ⟨named, named⟩
  next c file threw =>
    refine ⟨fun path _ => congrFun (World.loadModel_files m.world file e.load) path, ⟨h.selected, fun other current => ?_⟩,
      trivial⟩
    cases current
    exact hk

theorem advance_confined (h : m.service.Within ok) {t : Task} (ht : t.Within ok) (e : Environment) :
    Confined ok m (advance e m t) := by
  cases t with
  | blocked op k => exact ⟨fun path foreign => perform_within e ht.1 m.world foreign, h, ht.2⟩
  | ready r k => exact resume_confined h ht e r
  | done c => exact ⟨fun _ _ => rfl, h, trivial⟩

end Step

section Run

variable {ok : String → Prop} {files : String → Option Contents}

/-- The types `ok` in every service and every pending call, and the files of all other names as they were. -/
def Instances.Within (ok : String → Prop) (files : String → Option Contents) (c : Instances) : Prop :=
  Pool.Sound (fun s => (∀ i, (s.services i).Within ok) ∧ ∀ path, ¬ IsModelFile ok path → s.world.files path = files path)
    (fun _ _ t => t.2.Within ok) c

theorem Isolate.put_within {s : Isolate} (h : ∀ i, (s.services i).Within ok) (i : Nat) {m : Machine}
    (hm : m.service.Within ok) : ∀ j, ((s.put i m).services j).Within ok := by
  intro j
  unfold Isolate.put
  dsimp only
  split
  next => exact hm
  next => exact h j

theorem Instances.Within.next (builtin : ∀ type ∈ modelTypes, ok type) {c : Instances} (h : c.Within ok files)
    {l : InstanceLabel} (hl : ∀ i newType, l = .call (i, .switchModel newType) → ok newType) :
    (c.next l).Within ok files := by
  cases l with
  | call k =>
    have within : k.2.Within ok := by
      obtain ⟨i, k⟩ := k
      cases k with
      | switchModel newType => exact hl i newType rfl
      | _ => trivial
    have one := start_confined (m := c.state.machine k.1) builtin (h.1.1 k.1) within
    refine Pool.Sound.call h k ⟨Isolate.put_within h.1.1 k.1 one.service, fun path foreign => ?_⟩ one.task
      fun _ _ _ ht => ht
    exact (one.files path foreign).trans (h.1.2 path foreign)
  | step n e =>
    refine Pool.Sound.step h e fun t _ within => ?_
    have one := advance_confined (m := c.state.machine t.1) (h.1.1 t.1) within e
    refine ⟨⟨Isolate.put_within h.1.1 t.1 one.service, fun path foreign => ?_⟩, one.task, fun _ _ _ _ hu => hu⟩
    exact (one.files path foreign).trans (h.1.2 path foreign)

end Run

/-- Services that nothing was called on yet, with any files in the system. -/
def Instances.fresh (files : String → Option Contents) : Instances :=
  ⟨⟨fun _ => VoiceService.initial, { World.initial with files := files }⟩, []⟩

/-- The built-in types, and those that a call asks for. -/
def Asked (labels : List InstanceLabel) (type : String) : Prop :=
  type ∈ modelTypes ∨ ∃ i, .call (i, .switchModel type) ∈ labels

/-- In every interleaving of any calls on any number of services, whatever fails, no file is created, written
or deleted but those named after one of the three model types or after an argument of `switchModel`. -/
theorem only_model_files (files : String → Option Contents) (labels : List InstanceLabel) {path : String}
    (foreign : ¬ IsModelFile (Asked labels) path) :
    ∀ c ∈ Runs.states Instances.next (Instances.fresh files) labels, c.state.world.files path = files path := by
  have keep : ∀ (rest : List InstanceLabel) (c : Instances), (∀ l ∈ rest, l ∈ labels) → c.Within (Asked labels) files →
      ∀ d ∈ Runs.states Instances.next c rest, d.state.world.files path = files path := by
    intro rest
    induction rest with
    | nil =>
      intro c _ within d hd
      rw [List.mem_singleton.mp hd]
      exact within.1.2 path foreign
    | cons l rest ih =>
      intro c sub within d hd
      rcases List.mem_cons.mp hd with rfl | later
      · exact within.1.2 path foreign
      · refine ih _ (fun k hk => sub k (List.mem_cons_of_mem l hk)) (within.next (fun type => Or.inl) ?_) d later
        rintro i newType rfl
        exact Or.inr ⟨i, sub _ List.mem_cons_self⟩
  have builtin : modelFloat32 ∈ modelTypes := List.mem_cons_self
  refine keep labels _ (fun _ => id) ⟨⟨fun i => ⟨Or.inl builtin, nofun⟩, fun _ _ => rfl⟩, fun n t ht => ?_⟩
  simp [Instances.fresh] at ht

/-- A load, a switch to another type and a disposal, each to its end. -/
def threeCalls : List InstanceLabel :=
  .call (0, .initModel) :: List.replicate 14 (.step 0 .fine) ++ .call (0, .switchModel "int8") ::
    List.replicate 18 (.step 1 .fine) ++ .call (0, .dispose) :: List.replicate 4 (.step 2 .fine)

/-- The files of both models are written and deleted, and a file of the user outlives that. -/
theorem user_file_untouched :
    let files := (Runs.run Instances.next (Instances.fresh fun _ => some .torn) threeCalls).state.world.files
    files (modelPath "float32") = none ∧ files (modelPath "int8") = none ∧ files "/home/user/notes" = some .torn := by
  refine ⟨by decide, by decide, only_model_files (fun _ => some .torn) _ ?_ _ (Runs.run_mem_states _ _)⟩
  rintro ⟨type, _, named⟩
  have second := congrArg (fun s : String => s.toList[1]?) named
  simp [modelPath] at second

end AuroraVoice
