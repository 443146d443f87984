import AuroraVoice.Overlap

namespace AuroraVoice

def Reaches (x y : Machine × Task) : Prop :=
  ∃ es, Runs.Along calls.alone (fun x e => Succeeds e x.1 x.2) x es ∧ Runs.run calls.alone x es = y

theorem Reaches.refl (x : Machine × Task) : Reaches x x := ⟨[], trivial, rfl⟩

theorem Reaches.trans {x y z : Machine × Task} (h : Reaches x y) (k : Reaches y z) : Reaches x z := by
  obtain ⟨es, ok, rfl⟩ := h
  obtain ⟨fs, good, rfl⟩ := k
  exact ⟨es ++ fs, (Runs.along_append _ _ _).mpr ⟨ok, good⟩, Runs.run_append _ _ _⟩

theorem Reaches.step {m : Machine} {t : Task} {y z : Machine × Task} (eq : advance Environment.fine m t = y)
    (ok : y.2.failed = false) (h : Reaches y z) : Reaches (m, t) z := by
  subst eq
  obtain ⟨es, good, rfl⟩ := h
  exact ⟨Environment.fine :: es, ⟨ok, good⟩, rfl⟩

theorem reaches_give (m : Machine) (c : Caller) : Reaches (m, c.give true) (m, .done (.value true)) := by
  cases c with
  | direct => exact Reaches.refl _
  | switchModel => exact Reaches.step rfl rfl (Reaches.refl _)

/-- From the moment the asset is chosen, `initModel` gets it loaded, whatever type is selected. -/
theorem reaches_loaded {m : Machine} (hb : m.world.bindings = true) (c : Caller) (path : String) :
    ∃ n, Reaches (m, .ready .done (.initModelFfi c path)) (n, .done (.value true)) ∧
      n.view = ⟨m.service.selectedModelType, true, some (.asset path)⟩ ∧ n.world.bindings = true := by
  let file := modelPath m.service.selectedModelType
  let w := m.world.writeFile file (.asset path)
  let loaded := { w with
    plugin := (w.plugin.loadModel (some file) (some (Contents.asset path)) Environment.fine.load).plugin }
  have present : w.files file = some (.asset path) := by simp [w, World.writeFile]
  have found : advance Environment.fine ⟨m.service, w⟩ (.blocked (.exists file) (.initModelExists c file)) =
      (⟨m.service, w⟩, .ready (.answer true) (.initModelExists c file)) := by
    simp [advance, perform, Environment.fine, present]
  have measured : advance Environment.fine ⟨m.service, w⟩ (.blocked (.length file) (.initModelLength c file)) =
      (⟨m.service, w⟩, .ready .done (.initModelLength c file)) := by
    simp [advance, perform, Environment.fine, present]
  have load : advance Environment.fine ⟨m.service, w⟩ (.ready .done (.initModelLength c file)) =
      (⟨{ m.service with currentModelFile := some file }, loaded⟩, .ready (.answer true) (.initModelLoad c)) := by
    have bound : w.bindings = true := hb
    have answer : w.loadModel file Environment.fine.load = (loaded, .answer true) := by
      simp [World.loadModel, bound, present, Plugin.loadModel_value, Environment.fine, LoadOutcome.succeeds, loaded]
    simp only [advance, resume, answer]
  refine ⟨⟨{ m.service with currentModelFile := some file, isInitialized := true }, loaded⟩, ?_, ?_, hb⟩
  · refine Reaches.step rfl rfl (Reaches.step rfl rfl (Reaches.step rfl rfl (Reaches.step rfl rfl ?_)))
    refine Reaches.step rfl rfl (Reaches.step found rfl (Reaches.step rfl rfl ?_))
    refine Reaches.step measured rfl (Reaches.step load rfl (Reaches.step rfl ?_ (reaches_give _ c)))
    cases c <;> rfl
  · simp [Machine.view, loaded, Plugin.loadModel_loaded, Environment.fine, LoadOutcome.succeeds]

theorem reaches_begun {m : Machine} (hf : m.service.ffiInitialized = true) {file : String}
    (current : m.service.currentModelFile = some file) (newType : String) :
    ∃ files, Reaches (m, .blocked (.exists file) (.switchModelExists newType))
      (⟨{ m.service with selectedModelType := newType }, { m.world with files := files }⟩,
        .ready .done (.initModelFfi .switchModel (assetOf newType))) := by
  have init : ∀ files, Machine.switchModelInit ⟨m.service, { m.world with files := files }⟩ newType =
      (⟨{ m.service with selectedModelType := newType }, { m.world with files := files }⟩,
        .ready .done (.initModelFfi .switchModel (assetOf newType))) := by
    intro files
    simp [Machine.switchModelInit, Machine.initModel, hf, VoiceService.getAssetPath]
  cases present : m.world.files file with
  | none =>
    refine ⟨m.world.files, ?_⟩
    have probed : advance Environment.fine m (.blocked (.exists file) (.switchModelExists newType)) =
        (m, .ready (.answer false) (.switchModelExists newType)) := by
      simp [advance, perform, Environment.fine, present]
    exact Reaches.step probed rfl (Reaches.step (init m.world.files) rfl (Reaches.refl _))
  | some data =>
    refine ⟨(m.world.removeFile file).files, ?_⟩
    have probed : advance Environment.fine m (.blocked (.exists file) (.switchModelExists newType)) =
        (m, .ready (.answer true) (.switchModelExists newType)) := by
      simp [advance, perform, Environment.fine, present]
    have found : advance Environment.fine m (.ready (.answer true) (.switchModelExists newType)) =
        (m, .blocked (.delete file) (.switchModelDelete newType)) := by
      simp [advance, resume, Machine.deleteCurrent, current]
    have deleted : advance Environment.fine m (.blocked (.delete file) (.switchModelDelete newType)) =
        (⟨m.service, m.world.removeFile file⟩, .ready .done (.switchModelDelete newType)) := by
      simp [advance, perform, Environment.fine, present]
    refine Reaches.step probed rfl (Reaches.step found rfl (Reaches.step deleted rfl ?_))
    exact Reaches.step (init _) rfl (Reaches.refl _)

theorem Reaches.steps {c : Config} {i : Nat} {t u : Task} {n : Machine} (h : c.tasks[i]? = some t)
    (k : Reaches (c.state, t) (n, u)) : ∃ steps, Runs.Along Config.stepped StepSucceeds c steps ∧
      Runs.run Config.stepped c steps = ⟨n, c.tasks.set i u⟩ := by
  obtain ⟨es, ok, eq⟩ := k
  refine ⟨es.map (i, ·), ?_, ?_⟩
  · have along : Runs.Along calls.next (Pool.Allowed AnyCall Succeeds) c (es.map (.step i)) :=
      (Pool.along_steps h es).mpr ok
    rw [Runs.along_map] at along ⊢
    exact along
  · have run := Pool.run_steps (S := calls) h es
    rw [eq] at run
    rw [← run, Runs.run_map, Runs.run_map]
    rfl

theorem stepped_trans {c d e : Config}
    (h : ∃ steps, Runs.Along Config.stepped StepSucceeds c steps ∧ Runs.run Config.stepped c steps = d)
    (k : ∃ steps, Runs.Along Config.stepped StepSucceeds d steps ∧ Runs.run Config.stepped d steps = e) :
    ∃ steps, Runs.Along Config.stepped StepSucceeds c steps ∧ Runs.run Config.stepped c steps = e := by
  obtain ⟨first, ok, rfl⟩ := h
  obtain ⟨second, good, rfl⟩ := k
  exact ⟨first ++ second, (Runs.along_append _ _ _).mpr ⟨ok, good⟩, Runs.run_append _ _ _⟩

/-- A `switchModel` completes while another call waits with its asset chosen, and that call goes on:
the type of the one stays selected, the asset of the other is loaded. -/
theorem crossed {c : Config} {i j : Nat} {caller : Caller} {path file newType : String} (hij : i ≠ j)
    (hi : c.tasks[i]? = some (.ready .done (.initModelFfi caller path)))
    (hj : c.tasks[j]? = some (.blocked (.exists file) (.switchModelExists newType)))
    (hf : c.state.service.ffiInitialized = true) (hb : c.state.world.bindings = true)
    (current : c.state.service.currentModelFile = some file) :
    ∃ last : Machine, last.view = ⟨newType, true, some (.asset path)⟩ ∧
      ∃ steps, Runs.Along Config.stepped StepSucceeds c steps ∧ Runs.run Config.stepped c steps =
        ⟨last, (c.tasks.set j (.done (.value true))).set i (.done (.value true))⟩ := by
  obtain ⟨files, begun⟩ := reaches_begun hf current newType
  obtain ⟨middle, loaded, view, bound⟩ := reaches_loaded
    (m := ⟨{ c.state.service with selectedModelType := newType }, { c.state.world with files := files }⟩)
    hb .switchModel (assetOf newType)
  obtain ⟨last, finished, seen, _⟩ := reaches_loaded bound caller path
  have selected : middle.service.selectedModelType = newType := congrArg View.selected view
  refine ⟨last, by rw [seen, selected], ?_⟩
  have waiting : (c.tasks.set j (.done (.value true)))[i]? = some (.ready .done (.initModelFfi caller path)) := by
    rw [List.getElem?_set_ne (Ne.symm hij), hi]
  exact stepped_trans ((begun.trans loaded).steps hj) (Reaches.steps (c := ⟨middle, _⟩) waiting finished)

theorem assetOf_injective : ∀ s ∈ modelTypes, ∀ t ∈ modelTypes, assetOf s = assetOf t → s = t := by
  decide

theorem View.change_form (type : String) (x : ModelCall) : ∃ last, ((View.inUse type).change x).1 = .inUse last := by
  by_cases early : x.Early (View.inUse type)
  · exact ⟨type, by rw [change_early early]⟩
  · exact ⟨_, by rw [change_active early]⟩

theorem View.changes_form {v : View} {x : ModelCall} (hx : ¬ x.Early v) (y : ModelCall) :
    (∃ last, (v.changes x y).1 = .inUse last) ∧ ∃ last, (v.changes y x).1 = .inUse last := by
  constructor
  · rw [View.changes, change_active hx]
    exact change_form _ y
  · by_cases early : y.Early v
    · rw [View.changes, change_early early, change_active hx]
      exact ⟨_, rfl⟩
    · rw [View.changes, change_active early]
      exact change_form _ x

/-- A view with the type of one call and the asset of another is the end of no order. -/
theorem not_serializable {m : Machine} {x y : ModelCall} {c : Config} {s t : String} (h : m.WellFormed)
    (hf : m.service.ffiInitialized = true) (hx : ¬ x.Early m.view) (hs : s ∈ modelTypes)
    (ht : t ∈ modelTypes) (apart : s ≠ t) (view : c.state.view = ⟨s, true, some (.asset (assetOf t))⟩) :
    ¬ Serializable m x y c := by
  have mixed : ∀ last, c.state.view ≠ .inUse last := by
    intro last eq
    rw [view, View.inUse, View.mk.injEq] at eq
    obtain ⟨rfl, _, loaded⟩ := eq
    exact apart (assetOf_injective t ht s hs (Contents.asset.inj (Option.some.inj loaded))).symm
  obtain ⟨⟨a, first⟩, ⟨b, second⟩⟩ := View.changes_form hx y
  rw [Serializable, inOrder_eq h hf, inOrder_eq h hf]
  rintro (eq | eq)
  · exact mixed a ((congrArg Prod.fst eq).trans first)
  · exact mixed b ((congrArg Prod.fst eq).trans second)

theorem reaches_chosen {m : Machine} {x : ModelCall} {file : String} (hf : m.service.ffiInitialized = true)
    (hb : m.world.bindings = true) (current : m.service.currentModelFile = some file) (hx : ¬ x.Early m.view) :
    ∃ n : Machine, Reaches (m.start x.call)
        (n, .ready .done (.initModelFfi x.caller (assetOf (x.target m.service.selectedModelType)))) ∧
      n.service = { m.service with selectedModelType := x.target m.service.selectedModelType } ∧
      n.world.bindings = true := by
  cases x with
  | initModel =>
    refine ⟨m, ?_, rfl, hb⟩
    simp only [Machine.start, ModelCall.call, Machine.initModel, hf, if_true]
    exact Reaches.refl _
  | switchModel newType =>
    have active : m.service.isInitialized = true ∧ newType ≠ m.service.selectedModelType := by
      simpa [ModelCall.Early] using hx
    obtain ⟨files, begun⟩ := reaches_begun (m := ⟨m.service, m.world.unloadModel⟩) hf current newType
    have bound : m.world.unloadModel.bindings = true := m.world.unloadModel_bindings.trans hb
    refine ⟨⟨_, { m.world.unloadModel with files := files }⟩, ?_, rfl, bound⟩
    simp only [Machine.start, ModelCall.call, switchModel_active active.1 active.2 current]
    exact begun

theorem target_valid {m : Machine} {x : ModelCall} (h : m.Valid) (vx : x.Valid) :
    x.target m.service.selectedModelType ∈ modelTypes := by
  cases x with
  | initModel => exact h.selected
  | switchModel newType => exact vx

theorem both_completed (m : Machine) : Completed ⟨m, [.done (.value true), .done (.value true)]⟩ := by
  simp [Completed, Task.isDone]

section Crossing

variable {m : Machine} {x y : ModelCall} {file newType : String}

/-- The second call is a `switchModel`: it completes while the first waits with its asset chosen. -/
theorem crossing_switchModel (h : m.Valid) (hf : m.service.ffiInitialized = true)
    (hi : m.service.isInitialized = true) (current : m.service.currentModelFile = some file)
    (hx : ¬ x.Early m.view) (vx : x.Valid) (valid : newType ∈ modelTypes)
    (apart : x.target m.service.selectedModelType ≠ newType) :
    ∃ first rest, Runs.Along Config.next AllSucceed ⟨m, []⟩ (overlap x (.switchModel newType) first rest) ∧
      Completed (Runs.run Config.next ⟨m, []⟩ (overlap x (.switchModel newType) first rest)) ∧
      ¬ Serializable m x (.switchModel newType)
        (Runs.run Config.next ⟨m, []⟩ (overlap x (.switchModel newType) first rest)) := by
  obtain ⟨n, chosen, service, bound⟩ := reaches_chosen hf (h.bound hf) current hx
  obtain ⟨first, good, run⟩ := Reaches.steps (c := begin m x) (i := 0) rfl chosen
  have start : n.switchModel newType =
      (⟨n.service, n.world.unloadModel⟩, .blocked (.exists file) (.switchModelExists newType)) := by
    apply switchModel_active
    · rw [service]; exact hi
    · rw [service]; exact Ne.symm apart
    · rw [service]; exact current
  obtain ⟨last, view, rest, later, ended⟩ := crossed (i := 0) (j := 1) (by decide) rfl rfl
    (c := ⟨⟨n.service, n.world.unloadModel⟩,
      [.ready .done (.initModelFfi x.caller (assetOf (x.target m.service.selectedModelType))),
        .blocked (.exists file) (.switchModelExists newType)]⟩)
    (by rw [service]; exact hf) (n.world.unloadModel_bindings.trans bound) (by rw [service]; exact current)
  have second : (Runs.run Config.stepped (begin m x) first).next (.call (ModelCall.switchModel newType).call) =
      ⟨⟨n.service, n.world.unloadModel⟩,
        [.ready .done (.initModelFfi x.caller (assetOf (x.target m.service.selectedModelType))),
          .blocked (.exists file) (.switchModelExists newType)]⟩ := by
    rw [run]
    simp only [begin, List.set_cons_zero, ModelCall.call, next_second, Machine.start, start]
  refine ⟨first, rest, (along_overlap ..).mpr ⟨good, by rw [second]; exact later⟩, ?_⟩
  rw [run_overlap, second, ended]
  have apart' : newType ≠ x.target m.service.selectedModelType := Ne.symm apart
  exact ⟨both_completed last, not_serializable (h.wellFormed hf) hf hx valid (target_valid h vx) apart' view⟩

/-- The second call is an `initModel`: it chooses its asset before the first has selected its type. -/
theorem crossing_initModel (h : m.Valid) (hf : m.service.ffiInitialized = true)
    (hi : m.service.isInitialized = true) (current : m.service.currentModelFile = some file)
    (valid : newType ∈ modelTypes) (apart : newType ≠ m.service.selectedModelType) :
    ∃ first rest, Runs.Along Config.next AllSucceed ⟨m, []⟩ (overlap (.switchModel newType) .initModel first rest) ∧
      Completed (Runs.run Config.next ⟨m, []⟩ (overlap (.switchModel newType) .initModel first rest)) ∧
      ¬ Serializable m (.switchModel newType) .initModel
        (Runs.run Config.next ⟨m, []⟩ (overlap (.switchModel newType) .initModel first rest)) := by
  have active : ¬ ModelCall.Early m.view (.switchModel newType) := by simp [ModelCall.Early, hi, apart]
  have start := switchModel_active hi apart current
  obtain ⟨last, view, rest, later, ended⟩ := crossed (i := 1) (j := 0) (by decide) rfl rfl
    (c := ⟨⟨m.service, m.world.unloadModel⟩, [.blocked (.exists file) (.switchModelExists newType),
      .ready .done (.initModelFfi .direct (assetOf m.service.selectedModelType))]⟩)
    hf (m.world.unloadModel_bindings.trans (h.bound hf)) current
  have second : (begin m (.switchModel newType)).next (.call ModelCall.initModel.call) =
      ⟨⟨m.service, m.world.unloadModel⟩, [.blocked (.exists file) (.switchModelExists newType),
        .ready .done (.initModelFfi .direct (assetOf m.service.selectedModelType))]⟩ := by
    simp [begin, ModelCall.call, next_second, Machine.start, start, Machine.initModel, hf,
      VoiceService.getAssetPath]
  refine ⟨[], rest, (along_overlap ..).mpr ⟨trivial, by rw [Runs.run_nil, second]; exact later⟩, ?_⟩
  rw [run_overlap, Runs.run_nil, second, ended]
  exact ⟨both_completed last, not_serializable (h.wellFormed hf) hf active valid h.selected apart view⟩

/-- Calls with different aims have an interleaving that no order explains. -/
theorem exists_crossing (h : m.Valid) (hf : m.service.ffiInitialized = true)
    (hi : m.service.isInitialized = true) (hx : ¬ x.Early m.view) (vx : x.Valid) (vy : y.Valid)
    (apart : x.target m.service.selectedModelType ≠ y.target m.service.selectedModelType) :
    ∃ first rest, Runs.Along Config.next AllSucceed ⟨m, []⟩ (overlap x y first rest) ∧
      Completed (Runs.run Config.next ⟨m, []⟩ (overlap x y first rest)) ∧
      ¬ Serializable m x y (Runs.run Config.next ⟨m, []⟩ (overlap x y first rest)) := by
  obtain ⟨file, current⟩ := Option.isSome_iff_exists.mp (h.file hi)
  cases y with
  | switchModel newType => exact crossing_switchModel h hf hi current hx vx vy apart
  | initModel =>
    cases x with
    | initModel => exact absurd rfl apart
    | switchModel newType => exact crossing_initModel h hf hi current vx apart

end Crossing

/-- Two overlapping model changes of an initialised service, from any reachable state with nothing
failing, always end as they would one after the other exactly when they have the same aim. -/
theorem overlap_serializable_iff {m : Machine} (reachable : Reachable m) (hf : m.service.ffiInitialized = true)
    (x y : ModelCall) (vx : x.Valid) (vy : y.Valid) :
    (∀ first rest, Runs.Along Config.next AllSucceed ⟨m, []⟩ (overlap x y first rest) →
      Completed (Runs.run Config.next ⟨m, []⟩ (overlap x y first rest)) →
      Serializable m x y (Runs.run Config.next ⟨m, []⟩ (overlap x y first rest))) ↔ SameAim m x y := by
  have valid := reachable.valid
  constructor
  · intro all hi
    by_contra differ
    rw [not_or] at differ
    have active : ¬ x.Early m.view := by
      cases x with
      | initModel => exact id
      | switchModel newType =>
        rintro (hn | same)
        · rw [Machine.view_initialized, hi] at hn
          cases hn
        · exact differ.1 (congrArg ModelCall.switchModel same)
    obtain ⟨first, rest, ok, ended, crossing⟩ := exists_crossing valid hf hi active vx vy differ.2
    exact crossing (all first rest ok ended)
  · intro same first rest ok ended
    exact serializable_of_sameAim (valid.wellFormed hf) hf same ok ended

instance decidableAllSucceed (c : Config) (l : Label) : Decidable (AllSucceed c l) :=
  inferInstanceAs (Decidable (Pool.Allowed AnyCall Succeeds c l))

instance decidableSerializable (m : Machine) (x y : ModelCall) (c : Config) : Decidable (Serializable m x y c) :=
  inferInstanceAs (Decidable (_ ∨ _))

def Machine.started : Machine :=
  (Runs.run Config.next Config.initial (.call .initModel :: List.replicate 13 (.step 0 Environment.fine))).state

theorem Machine.started_reachable : Reachable Machine.started := by
  refine ⟨_, ?_, rfl⟩
  simp [Pool.Allowed, ValidCall, Call.Valid, AnyStep, List.replicate]

/-- Two quick taps, int8 and then float16: the second switch completes while the first waits for
`rootBundle.load`, and the first goes on. -/
theorem two_taps_not_serializable :
    let rest := List.replicate 5 (0, Environment.fine) ++ List.replicate 13 (1, Environment.fine) ++
      List.replicate 10 (0, Environment.fine)
    let labels := overlap (.switchModel modelInt8) (.switchModel modelFloat16) [] rest
    Reachable Machine.started ∧ Machine.started.service.ffiInitialized = true ∧
      Runs.Along Config.next AllSucceed ⟨Machine.started, []⟩ labels ∧
      Completed (Runs.run Config.next ⟨Machine.started, []⟩ labels) ∧
      ¬ Serializable Machine.started (.switchModel modelInt8) (.switchModel modelFloat16)
        (Runs.run Config.next ⟨Machine.started, []⟩ labels) := by
  intro rest labels
  refine ⟨Machine.started_reachable, rfl, ?_, ?_, ?_⟩
  · decide
  · decide
  · decide

theorem same_tap_serializable :
    let x := ModelCall.switchModel modelInt8
    SameAim Machine.started x x ∧
      ∀ first rest, Runs.Along Config.next AllSucceed ⟨Machine.started, []⟩ (overlap x x first rest) →
        Completed (Runs.run Config.next ⟨Machine.started, []⟩ (overlap x x first rest)) →
        Serializable Machine.started x x (Runs.run Config.next ⟨Machine.started, []⟩ (overlap x x first rest)) := by
  intro x
  have same : SameAim Machine.started x x := fun _ => Or.inr rfl
  have valid : x.Valid := (by decide : modelInt8 ∈ modelTypes)
  exact ⟨same, (overlap_serializable_iff Machine.started_reachable rfl x x valid valid).mpr same⟩

end AuroraVoice
