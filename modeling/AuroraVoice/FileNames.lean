import AuroraVoice.Progress

namespace AuroraVoice

/-- One `initModel`, at place 0, among any number of `setModelType` calls, which complete at once. -/
def OnlySetModelType : Label → Prop
  | .call (.setModelType _) => True
  | .step i _ => i = 0
  | _ => False

/-- The next step of the call builds the file name from `_selectedModelType`. -/
def Task.naming : Task → Bool
  | .ready (.data _) (.initModelAsset _) => true
  | _ => false

/-- The file is named while a type of this asset is selected. -/
def NamedAs (asset : String) (c : Config) : Label → Prop
  | .step i _ => ∀ t ∈ c.tasks[i]?, t.naming = true → c.state.service.getAssetPath = asset
  | _ => True

instance decidableNamedAs (asset : String) (c : Config) : ∀ l, Decidable (NamedAs asset c l)
  | .step i _ =>
    inferInstanceAs (Decidable (∀ t ∈ c.tasks[i]?, t.naming = true → c.state.service.getAssetPath = asset))
  | .call _ => isTrue trivial

/-- The path is that of a type whose asset the file holds. -/
def NameMatches (w : World) (file : String) : Prop :=
  ∃ type, file = modelPath type ∧ w.files file = some (.asset (assetOf type))

theorem modelPath_injective {type other : String} (h : modelPath type = modelPath other) : type = other := by
  have same := congrArg String.toList h
  simp only [modelPath, String.toList_append, List.append_cancel_right_eq, List.append_cancel_left_eq] at same
  exact String.toList_inj.mp same

section Phases

variable {asset type : String} {w : World} {t : Task} {m : Machine}

/-- Before the file is named: the call knows which asset it chose. -/
def Task.Chosen (asset : String) : Task → Prop
  | .blocked _ (.initFfiPlugin _ path) => path = asset
  | .ready _ (.initFfiPlugin _ path) => path = asset
  | .ready _ (.initFfi _ path) => path = asset
  | .ready _ (.initModelFfi _ path) => path = asset
  | .blocked op (.initModelAsset _) => op = .loadAsset asset
  | .ready r (.initModelAsset _) => ∀ data, r = .data data → data = .asset asset
  | .ready _ .switchModelReturn => True
  | .done _ => True
  | _ => False

def FileHolds (asset type : String) (w : World) (file : String) : Prop :=
  file = modelPath type ∧ w.files file = some (.asset asset)

/-- After it is named for `type`: the file, once written, holds the chosen asset. -/
def Task.Named (asset type : String) (w : World) : Task → Prop
  | .blocked op (.initModelWrite _ file) => op = .writeAsBytes file (.asset asset) ∧ file = modelPath type
  | .ready r (.initModelWrite _ file) => r ≠ .threw → FileHolds asset type w file
  | .blocked op (.initModelExists _ file) => op = .exists file ∧ FileHolds asset type w file
  | .ready r (.initModelExists _ file) => r = .answer true → FileHolds asset type w file
  | .blocked op (.initModelLength _ file) => op = .length file ∧ FileHolds asset type w file
  | .ready r (.initModelLength _ file) => r ≠ .threw → FileHolds asset type w file
  | .ready _ (.initModelLoad _) => True
  | .ready _ .switchModelReturn => True
  | .done _ => True
  | _ => False

theorem Caller.give_chosen (c : Caller) (b : Bool) : (c.give b).Chosen asset := by
  cases c <;> trivial

theorem Caller.give_named (c : Caller) (b : Bool) : (c.give b).Named asset type w := by
  cases c <;> trivial

theorem Machine.initModel_chosen (m : Machine) (c : Caller) : (m.initModel c).2.Chosen m.service.getAssetPath := by
  unfold Machine.initModel
  dsimp only
  split <;> rfl

theorem Task.Chosen.perform {op : Op} {k : Cont} (h : (blocked op k).Chosen asset) (e : Environment) (w : World) :
    (ready (perform e op w).2 k).Chosen asset := by
  cases k with
  | initFfiPlugin c path => exact h
  | initModelAsset c =>
    obtain rfl : op = .loadAsset asset := h
    intro data hd
    rw [perform_loadAsset] at hd
    split at hd
    next => exact (Reply.data.inj hd).symm
    next => cases hd
  | _ => exact h.elim

theorem Task.Chosen.resume {k : Cont} {r : Reply} (h : (ready r k).Chosen asset)
    (unnamed : (ready r k).naming = false) (e : Environment) (m : Machine) :
    (resume e k r m).2.Chosen asset := by
  unfold AuroraVoice.resume
  split
  all_goals first
    | exact h
    | exact Caller.give_chosen _ _
    | exact h.elim
    | trivial
    | cases unnamed
    | skip
  next => split <;> exact h
  next => exact congrArg Op.loadAsset h

theorem Task.Chosen.advance (h : t.Chosen asset) (unnamed : t.naming = false) (e : Environment) (m : Machine) :
    (advance e m t).2.Chosen asset := by
  cases t with
  | blocked op k => exact h.perform e m.world
  | ready r k => exact h.resume unnamed e m
  | done c => trivial

/-- The step that names the file takes the type selected by then. -/
theorem Task.Chosen.name (h : t.Chosen asset) (naming : t.naming = true) (e : Environment) (m : Machine) :
    (AuroraVoice.advance e m t).2.Named asset m.service.selectedModelType (AuroraVoice.advance e m t).1.world := by
  unfold Task.naming at naming
  split at naming
  next data c =>
    obtain rfl := h data rfl
    exact ⟨rfl, rfl⟩
  next => cases naming

theorem Task.Named.perform {op : Op} {k : Cont} (h : (blocked op k).Named asset type w) (e : Environment) :
    (ready (perform e op w).2 k).Named asset type (perform e op w).1 := by
  cases k with
  | initModelWrite c file =>
    obtain ⟨rfl, name⟩ := h
    intro written
    rcases perform_writeAsBytes e w file (.asset asset) with threw | done
    · exact absurd threw written
    · rw [done]
      exact ⟨name, by simp [World.writeFile]⟩
  | initModelExists c file =>
    obtain ⟨rfl, holds⟩ := h
    intro found
    simp only [AuroraVoice.perform] at found ⊢
    split at found
    all_goals simp_all
  | initModelLength c file =>
    obtain ⟨rfl, holds⟩ := h
    intro found
    simp only [AuroraVoice.perform] at found ⊢
    split at found
    all_goals simp_all
  | _ => exact h.elim

theorem Task.Named.resume {k : Cont} {r : Reply} (h : (ready r k).Named asset type m.world) (e : Environment) :
    (resume e k r m).2.Named asset type (resume e k r m).1.world := by
  unfold AuroraVoice.resume
  split
  all_goals first
    | exact Caller.give_named _ _
    | exact h.elim
    | trivial
    | skip
  next threw => exact ⟨rfl, h threw⟩
  next => exact ⟨rfl, h rfl⟩

theorem Task.Named.advance (h : t.Named asset type m.world) (e : Environment) :
    (advance e m t).2.Named asset type (advance e m t).1.world := by
  cases t with
  | blocked op k => exact h.perform e
  | ready r k => exact h.resume e
  | done c => trivial

end Phases

section Run

variable {asset type : String} {c : Config} {t : Task}

theorem next_setModelType (h : c.tasks[0]? = some t) (type : String) :
    (c.next (.call (.setModelType type))).tasks[0]? = some t ∧
      (c.next (.call (.setModelType type))).state.world = c.state.world := by
  rcases Pool.next_at (S := calls) h (.call (.setModelType type)) with ⟨e, eq, _⟩ | ⟨_, own⟩
  · cases eq
  · refine ⟨own, ?_⟩
    change (c.state.setModelType type).world = c.state.world
    unfold Machine.setModelType
    split <;> rfl

theorem next_initModel (h : c.tasks[0]? = some t) (e : Environment) :
    (c.next (.step 0 e)).tasks[0]? = some (advance e c.state t).2 ∧
      (c.next (.step 0 e)).state = (advance e c.state t).1 := by
  rcases Pool.next_at (S := calls) h (.step 0 e) with ⟨_, eq, state, own⟩ | ⟨other, _⟩
  · cases eq
    exact ⟨own, state⟩
  · exact absurd rfl (other e)

theorem Task.Named.naming {w : World} (h : t.Named asset type w) : t.naming = false := by
  unfold Task.naming
  split
  next => exact h.elim
  next => rfl

theorem run_named {labels : List Label} (only : ∀ l ∈ labels, OnlySetModelType l) (h : c.tasks[0]? = some t)
    (named : t.Named asset type c.state.world) (chosen : String) :
    Runs.Along Config.next (NamedAs chosen) c labels ∧ ∃ u, (Runs.run Config.next c labels).tasks[0]? = some u ∧
      u.Named asset type (Runs.run Config.next c labels).state.world := by
  induction labels generalizing c t with
  | nil => exact ⟨trivial, t, h, named⟩
  | cons l labels ih =>
    have later := fun l hl => only l (List.mem_cons_of_mem _ hl)
    have allowed := only l List.mem_cons_self
    unfold OnlySetModelType at allowed
    split at allowed
    next =>
      obtain ⟨own, world⟩ := next_setModelType h _
      obtain ⟨along, rest⟩ := ih later own (world ▸ named)
      exact ⟨⟨trivial, along⟩, rest⟩
    next i e =>
      subst allowed
      obtain ⟨own, state⟩ := next_initModel h e
      obtain ⟨along, rest⟩ := ih later own (state ▸ named.advance e)
      exact ⟨⟨by simp [NamedAs, h, named.naming], along⟩, rest⟩
    next => exact allowed.elim

/-- Either the file has not been named yet, or it was named for the type selected at that moment. -/
theorem run_chosen {labels : List Label} (only : ∀ l ∈ labels, OnlySetModelType l) (h : c.tasks[0]? = some t)
    (chosen : t.Chosen asset) : ∃ u, (Runs.run Config.next c labels).tasks[0]? = some u ∧
      (u.Chosen asset ∨ ∃ type, u.Named asset type (Runs.run Config.next c labels).state.world ∧
        (Runs.Along Config.next (NamedAs asset) c labels ↔ assetOf type = asset)) := by
  induction labels generalizing c t with
  | nil => exact ⟨t, h, Or.inl chosen⟩
  | cons l labels ih =>
    have later := fun l hl => only l (List.mem_cons_of_mem _ hl)
    have allowed := only l List.mem_cons_self
    simp only [Runs.along_cons, Runs.run_cons]
    unfold OnlySetModelType at allowed
    split at allowed
    next =>
      obtain ⟨own, _⟩ := next_setModelType h _
      obtain ⟨u, hu, cases⟩ := ih later own chosen
      exact ⟨u, hu, by simpa [NamedAs] using cases⟩
    next i e =>
      subst allowed
      obtain ⟨own, state⟩ := next_initModel h e
      cases naming : t.naming with
      | false =>
        obtain ⟨u, hu, cases⟩ := ih later own (chosen.advance naming e c.state)
        exact ⟨u, hu, by simpa [NamedAs, h, naming] using cases⟩
      | true =>
        obtain ⟨along, u, hu, named⟩ := run_named later own (state ▸ chosen.name naming e c.state) asset
        refine ⟨u, hu, Or.inr ⟨_, named, ?_⟩⟩
        simp [along, NamedAs, h, naming, VoiceService.getAssetPath]
    next => exact allowed.elim

end Run

/-- One `initModel` among any number of `setModelType` calls, with any outcome of each step: when the
native load is reached, the file it is given holds the asset of the type in its name exactly when a
type with the asset chosen at the call was selected while the name was built. -/
theorem loaded_file_name_iff (m : Machine) (labels : List Label) (only : ∀ l ∈ labels, OnlySetModelType l)
    (r : Reply) (caller : Caller) (file : String) :
    let called := Config.next ⟨m, []⟩ (.call .initModel)
    let reached := Runs.run Config.next called labels
    reached.tasks[0]? = some (.ready r (.initModelLength caller file)) → r ≠ .threw →
      (NameMatches reached.state.world file ↔
        Runs.Along Config.next (NamedAs m.service.getAssetPath) called labels) := by
  intro called reached load threw
  have own : called.tasks[0]? = some (m.initModel .direct).2 := rfl
  obtain ⟨u, hu, cases⟩ := run_chosen only own (m.initModel_chosen .direct)
  obtain rfl := Option.some.inj (hu.symm.trans load)
  rcases cases with chosen | ⟨type, named, along⟩
  · exact chosen.elim
  · obtain ⟨name, holds⟩ := named threw
    rw [along]
    constructor
    · rintro ⟨other, path, content⟩
      obtain rfl := modelPath_injective (name.symm.trans path)
      simpa using (holds.symm.trans content).symm
    · intro same
      exact ⟨type, name, by rw [holds, same]⟩

/-- Another type is selected while `rootBundle.load` is pending, and the first one again before the file gets its name. -/
def selectedTwice : List Label :=
  List.replicate 4 (.step 0 Environment.fine) ++ [.call (.setModelType modelInt8), .step 0 Environment.fine,
    .call (.setModelType modelFloat32)] ++ List.replicate 6 (.step 0 Environment.fine)

theorem undisturbed_file_name : NameMatches (Runs.run Config.next (Config.initial.next (.call .initModel))
    selectedTwice).state.world "/tmp/model_float32.tflite" :=
  (loaded_file_name_iff Machine.initial selectedTwice (by simp [OnlySetModelType, selectedTwice]) .done .direct
    "/tmp/model_float32.tflite" (by decide) (by decide)).mpr (by decide)

/-- The reset button selects int8 while `rootBundle.load` of the float32 model is pending. -/
theorem reset_misnames_file :
    ¬ ∀ (m : Machine) (labels : List Label), (∀ l ∈ labels, OnlySetModelType l) →
      ∀ (r : Reply) (caller : Caller) (file : String),
        (Runs.run Config.next (Config.next ⟨m, []⟩ (.call .initModel)) labels).tasks[0]? =
            some (.ready r (.initModelLength caller file)) → r ≠ .threw →
          NameMatches (Runs.run Config.next (Config.next ⟨m, []⟩ (.call .initModel)) labels).state.world file := by
  intro all
  have matched := all Machine.initial
    (List.replicate 4 (.step 0 Environment.fine) ++ .call (.setModelType modelInt8) ::
      List.replicate 7 (.step 0 Environment.fine))
    (by simp [OnlySetModelType]) .done .direct (modelPath modelInt8) (by decide) (by decide)
  obtain ⟨type, name, holds⟩ := matched
  obtain rfl := modelPath_injective name
  revert holds
  decide

end AuroraVoice
