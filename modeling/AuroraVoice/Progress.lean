import AuroraVoice.Interleaving
import AuroraVoice.SequentialView

namespace AuroraVoice

/-- What the code treats as a failure: an exception, a file not found after it was written, and a
native load that returned 0. -/
def Task.failed : Task → Bool
  | .ready .threw _ => true
  | .ready (.answer false) (.initModelExists _ _) => true
  | .ready (.answer false) (.initModelLoad _) => true
  | .done .error => true
  | _ => false

def Succeeds (e : Environment) (m : Machine) (t : Task) : Prop := (advance e m t).2.failed = false

instance decidableSucceeds (e : Environment) (m : Machine) (t : Task) : Decidable (Succeeds e m t) :=
  inferInstanceAs (Decidable ((advance e m t).2.failed = false))

def Written (type : String) (m : Machine) : Prop :=
  m.service.selectedModelType = type ∧
    ∀ data, m.world.files (modelPath type) = some data → data = .asset (assetOf type)

def Loaded (type : String) (m : Machine) : Prop :=
  m.service.selectedModelType = type ∧ m.world.plugin.loaded = some (.asset (assetOf type))

/-- A call that, unless something fails, ends with the model of `type` selected and loaded:
`initModel` while `type` is selected, or a `switchModel` to it. -/
inductive Aims (type : String) (m : Machine) : Caller → Task → Prop
  | probe (file : String) : Aims type m .switchModel (.blocked (.exists file) (.switchModelExists type))
  | probed (b : Bool) : Aims type m .switchModel (.ready (.answer b) (.switchModelExists type))
  | delete (file : String) : Aims type m .switchModel (.blocked (.delete file) (.switchModelDelete type))
  | deleted : Aims type m .switchModel (.ready .done (.switchModelDelete type))
  | engine (c : Caller) (h : m.service.selectedModelType = type) :
      Aims type m c (.blocked .loadFfiEngine (.initFfiPlugin c (assetOf type)))
  | plugin (c : Caller) (h : m.service.selectedModelType = type) :
      Aims type m c (.ready .done (.initFfiPlugin c (assetOf type)))
  | bound (c : Caller) (h : m.service.selectedModelType = type) :
      Aims type m c (.ready .done (.initFfi c (assetOf type)))
  | begun (c : Caller) (h : m.service.selectedModelType = type) :
      Aims type m c (.ready .done (.initModelFfi c (assetOf type)))
  | asset (c : Caller) (h : m.service.selectedModelType = type) :
      Aims type m c (.blocked (.loadAsset (assetOf type)) (.initModelAsset c))
  | data (c : Caller) (h : m.service.selectedModelType = type) :
      Aims type m c (.ready (.data (.asset (assetOf type))) (.initModelAsset c))
  | write (c : Caller) (h : m.service.selectedModelType = type) :
      Aims type m c (.blocked (.writeAsBytes (modelPath type) (.asset (assetOf type)))
        (.initModelWrite c (modelPath type)))
  | written (c : Caller) (h : Written type m) :
      Aims type m c (.ready .done (.initModelWrite c (modelPath type)))
  | check (c : Caller) (h : Written type m) :
      Aims type m c (.blocked (.exists (modelPath type)) (.initModelExists c (modelPath type)))
  | checked (c : Caller) (h : Written type m) :
      Aims type m c (.ready (.answer true) (.initModelExists c (modelPath type)))
  | length (c : Caller) (h : Written type m) :
      Aims type m c (.blocked (.length (modelPath type)) (.initModelLength c (modelPath type)))
  | measured (c : Caller) (h : Written type m) :
      Aims type m c (.ready .done (.initModelLength c (modelPath type)))
  | loaded (c : Caller) (h : Loaded type m) : Aims type m c (.ready (.answer true) (.initModelLoad c))
  | returned (h : Loaded type m) (hi : m.service.isInitialized = true) :
      Aims type m .switchModel (.ready (.answer true) .switchModelReturn)
  | done (c : Caller) (h : Loaded type m) (hi : m.service.isInitialized = true) :
      Aims type m c (.done (.value true))

/-- What a call that aims at `type` leaves alone: from the moment `type` is selected, it stays
selected, its file is not spoilt, and once it is loaded it stays so. -/
structure Keeps (type : String) (m next : Machine) : Prop where
  selected : m.service.selectedModelType = type → next.service.selectedModelType = type
  written : Written type m → Written type next
  loaded : Loaded type m → Loaded type next
  initialized : m.service.isInitialized = true → next.service.isInitialized = true

theorem Keeps.refl (type : String) (m : Machine) : Keeps type m m := ⟨id, id, id, id⟩

theorem Keeps.trans {type : String} {m next last : Machine} (h : Keeps type m next) (k : Keeps type next last) :
    Keeps type m last :=
  ⟨k.selected ∘ h.selected, k.written ∘ h.written, k.loaded ∘ h.loaded, k.initialized ∘ h.initialized⟩

/-- The assertion of one call is not disturbed by another that keeps what it should. -/
theorem Aims.stable {type : String} {m next : Machine} {c : Caller} {t : Task} (h : Aims type m c t)
    (k : Keeps type m next) : Aims type next c t := by
  cases h with
  | probe file => exact .probe file
  | probed b => exact .probed b
  | delete file => exact .delete file
  | deleted => exact .deleted
  | engine _ h => exact .engine c (k.selected h)
  | plugin _ h => exact .plugin c (k.selected h)
  | bound _ h => exact .bound c (k.selected h)
  | begun _ h => exact .begun c (k.selected h)
  | asset _ h => exact .asset c (k.selected h)
  | data _ h => exact .data c (k.selected h)
  | write _ h => exact .write c (k.selected h)
  | written _ h => exact .written c (k.written h)
  | check _ h => exact .check c (k.written h)
  | checked _ h => exact .checked c (k.written h)
  | length _ h => exact .length c (k.written h)
  | measured _ h => exact .measured c (k.written h)
  | loaded _ h => exact .loaded c (k.loaded h)
  | returned h hi => exact .returned (k.loaded h) (k.initialized hi)
  | done _ h hi => exact .done c (k.loaded h) (k.initialized hi)

/-- Only a write puts anything into a file, and only an inference touches the plugin. -/
theorem perform_files (e : Environment) {op : Op} (hw : ∀ path data, op ≠ .writeAsBytes path data)
    (hr : op ≠ .runInference) (w : World) : ∃ files, (perform e op w).1 = { w with files := files } ∧
      ∀ path data, files path = some data → w.files path = some data := by
  have removed : ∀ file path data, (w.removeFile file).files path = some data → w.files path = some data := by
    intro file path data h
    simp only [World.removeFile] at h
    split at h
    next => cases h
    next => exact h
  have same : ∃ files, w = { w with files := files } ∧
      ∀ path data, files path = some data → w.files path = some data := ⟨w.files, rfl, fun _ _ => id⟩
  unfold perform
  split
  all_goals first
    | exact same
    | exact ⟨_, rfl, removed _⟩
    | exact absurd rfl (hw _ _)
    | exact absurd rfl hr
    | skip
  split
  next => exact ⟨_, rfl, removed _⟩
  next => exact same

theorem perform_exists (e : Environment) (w : World) (file : String) :
    (perform e (.exists file) w).2 = .threw ∨ ∃ b, (perform e (.exists file) w).2 = .answer b := by
  unfold perform
  split <;> simp_all

theorem perform_length (e : Environment) (w : World) (file : String) :
    (perform e (.length file) w).2 = .threw ∨ (perform e (.length file) w).2 = .done := by
  unfold perform
  split <;> try split
  all_goals simp_all

theorem perform_delete (e : Environment) (w : World) (file : String) :
    (perform e (.delete file) w).2 = .threw ∨ (perform e (.delete file) w).2 = .done := by
  unfold perform
  split <;> try split
  all_goals simp_all

theorem perform_writeAsBytes (e : Environment) (w : World) (file : String) (data : Contents) :
    (perform e (.writeAsBytes file data) w).2 = .threw ∨
      perform e (.writeAsBytes file data) w = (w.writeFile file data, .done) := by
  unfold perform
  split <;> simp_all

section Step

variable {type : String} {m : Machine} {c : Caller} {t : Task} {e : Environment}

theorem Keeps.of_world {w : World} (loaded : w.plugin.loaded = m.world.plugin.loaded)
    (files : ∀ data, w.files (modelPath type) = some data →
      m.world.files (modelPath type) = some data ∨ data = .asset (assetOf type)) :
    Keeps type m ⟨m.service, w⟩ := by
  refine ⟨id, fun h => ⟨h.1, fun data hd => ?_⟩, fun h => ⟨h.1, loaded.trans h.2⟩, id⟩
  rcases files data hd with old | new
  · exact h.2 data old
  · exact new

theorem Keeps.of_perform (op : Op) (hw : ∀ path data, op ≠ .writeAsBytes path data)
    (hr : op ≠ .runInference) : Keeps type m ⟨m.service, (perform e op m.world).1⟩ := by
  obtain ⟨files, eq, fewer⟩ := perform_files e hw hr m.world
  rw [eq]
  exact Keeps.of_world rfl fun data hd => Or.inl (fewer _ data hd)

theorem Aims.performed {op : Op} {k : Cont} (h : Aims type m c (.blocked op k))
    (ok : Succeeds e m (.blocked op k)) : Keeps type m (advance e m (.blocked op k)).1 ∧
      Aims type (advance e m (.blocked op k)).1 c (advance e m (.blocked op k)).2 := by
  simp only [Succeeds, advance] at ok ⊢
  cases h with
  | probe file =>
    have keeps : Keeps type m _ := Keeps.of_perform (e := e) (.exists file) (by simp) (by simp)
    refine ⟨keeps, ?_⟩
    rcases perform_exists e m.world file with threw | ⟨b, answer⟩
    · simp [threw, Task.failed] at ok
    · rw [answer]
      exact .probed b
  | delete file =>
    have keeps : Keeps type m _ := Keeps.of_perform (e := e) (.delete file) (by simp) (by simp)
    refine ⟨keeps, ?_⟩
    rcases perform_delete e m.world file with threw | done
    · simp [threw, Task.failed] at ok
    · rw [done]
      exact .deleted
  | engine _ h =>
    rw [perform_loadFfiEngine] at ok ⊢
    refine ⟨Keeps.refl type m, ?_⟩
    cases he : e.io.isOk with
    | false => simp [he, Task.failed] at ok
    | true => exact .plugin c h
  | asset _ h =>
    rw [perform_loadAsset] at ok ⊢
    refine ⟨Keeps.refl type m, ?_⟩
    cases he : e.io.isOk with
    | false => simp [he, Task.failed] at ok
    | true => exact .data c h
  | write _ h =>
    rcases perform_writeAsBytes e m.world (modelPath type) (.asset (assetOf type)) with threw | done
    · simp [threw, Task.failed] at ok
    · rw [done]
      have new : ∀ data, (m.world.writeFile (modelPath type) (.asset (assetOf type))).files (modelPath type) =
          some data → data = .asset (assetOf type) := by
        intro data hd
        simp only [World.writeFile, if_true, Option.some.injEq] at hd
        exact hd.symm
      exact ⟨Keeps.of_world rfl fun data hd => Or.inr (new data hd), .written c ⟨h, new⟩⟩
  | check _ h =>
    have keeps : Keeps type m _ := Keeps.of_perform (e := e) (.exists (modelPath type)) (by simp) (by simp)
    refine ⟨keeps, ?_⟩
    rcases perform_exists e m.world (modelPath type) with threw | ⟨b, answer⟩
    · simp [threw, Task.failed] at ok
    · rw [answer] at ok ⊢
      cases b with
      | false => simp [Task.failed] at ok
      | true => exact .checked c (keeps.written h)
  | length _ h =>
    have keeps : Keeps type m _ := Keeps.of_perform (e := e) (.length (modelPath type)) (by simp) (by simp)
    refine ⟨keeps, ?_⟩
    rcases perform_length e m.world (modelPath type) with threw | done
    · simp [threw, Task.failed] at ok
    · rw [done]
      exact .measured c (keeps.written h)

theorem Aims.initModel (h : m.service.selectedModelType = type) (c : Caller) : Aims type m c (m.initModel c).2 := by
  simp only [Machine.initModel, VoiceService.getAssetPath, h]
  split
  next => exact .begun c h
  next => exact .engine c h

theorem Aims.switchModelInit (type : String) (m : Machine) : Keeps type m (m.switchModelInit type).1 ∧
    Aims type (m.switchModelInit type).1 .switchModel (m.switchModelInit type).2 := by
  rw [Machine.switchModelInit_fst]
  refine ⟨⟨fun _ => rfl, fun h => ⟨rfl, h.2⟩, fun h => ⟨rfl, h.2⟩, id⟩, ?_⟩
  exact Aims.initModel (m := ⟨{ m.service with selectedModelType := type }, m.world⟩) rfl .switchModel

theorem World.loadModel_answer {w : World} {file : String} {o : LoadOutcome}
    (h : (w.loadModel file o).2 = .answer true) :
    (w.loadModel file o).1 = { w with plugin := (w.plugin.loadModel (some file) (w.files file) o).plugin } ∧
      (w.plugin.loadModel (some file) (w.files file) o).plugin.loaded = w.files file ∧
      (w.files file).isSome := by
  unfold World.loadModel at h ⊢
  split at h
  next hb =>
    simp only [Plugin.loadModel_value, Reply.answer.injEq, decide_eq_true_eq] at h
    have both : (w.files file).isSome = true ∧ o.succeeds = true := by
      by_contra no
      rw [if_neg no] at h
      exact h rfl
    refine ⟨by simp [hb], ?_, both.1⟩
    rw [Plugin.loadModel_loaded, if_pos both.2]
  next => cases h

theorem World.loadModel_reply (w : World) (file : String) (o : LoadOutcome) :
    (w.loadModel file o).2 = .threw ∨ ∃ b, (w.loadModel file o).2 = .answer b := by
  unfold World.loadModel
  split
  next => exact Or.inr ⟨_, rfl⟩
  next => exact Or.inl rfl

theorem Aims.resumed {r : Reply} {k : Cont} (h : Aims type m c (.ready r k))
    (ok : Succeeds e m (.ready r k)) : Keeps type m (advance e m (.ready r k)).1 ∧
      Aims type (advance e m (.ready r k)).1 c (advance e m (.ready r k)).2 := by
  simp only [Succeeds, advance] at ok ⊢
  cases h with
  | probed b =>
    cases b with
    | false => exact Aims.switchModelInit type m
    | true =>
      cases hf : m.service.currentModelFile with
      | none => simp [resume, Machine.deleteCurrent, hf, Task.failed] at ok
      | some file =>
        simp only [resume, Machine.deleteCurrent, hf]
        exact ⟨Keeps.refl type m, .delete file⟩
  | deleted => exact Aims.switchModelInit type m
  | plugin _ h =>
    simp only [resume] at ok ⊢
    split at ok
    next => simp [Task.failed] at ok
    next hb =>
      simp only [hb]
      exact ⟨⟨id, id, id, id⟩, .bound c h⟩
  | bound _ h => exact ⟨⟨id, id, id, id⟩, .begun c h⟩
  | begun _ h => exact ⟨Keeps.refl type m, .asset c h⟩
  | data _ h =>
    simp only [resume, h]
    exact ⟨Keeps.refl type m, .write c h⟩
  | written _ h => exact ⟨Keeps.refl type m, .check c h⟩
  | checked _ h => exact ⟨Keeps.refl type m, .length c h⟩
  | measured _ h =>
    simp only [resume] at ok ⊢
    rcases World.loadModel_reply m.world (modelPath type) e.load with threw | ⟨b, answer⟩
    · simp [threw, Task.failed] at ok
    · cases b with
      | false => simp [answer, Task.failed] at ok
      | true =>
        -- `Written` says what is in the file, `present` that it is still there
        obtain ⟨eq, loaded, present⟩ := World.loadModel_answer answer
        rw [answer, eq]
        obtain ⟨data, hd⟩ := Option.isSome_iff_exists.mp present
        rw [hd] at loaded
        have now : Loaded type ⟨{ m.service with currentModelFile := some (modelPath type) }, { m.world with
            plugin := (m.world.plugin.loadModel (some (modelPath type)) (m.world.files (modelPath type)) e.load).plugin }⟩ := by
          refine ⟨h.1, ?_⟩
          rw [hd, loaded, h.2 data hd]
        exact ⟨⟨id, id, fun _ => now, id⟩, .loaded c now⟩
  | loaded _ h =>
    refine ⟨⟨id, id, id, fun _ => rfl⟩, ?_⟩
    cases c with
    | direct => exact .done .direct h rfl
    | switchModel => exact .returned h rfl
  | returned h hi => exact ⟨Keeps.refl type m, .done .switchModel h hi⟩

/-- A step that succeeds keeps the call on its way and disturbs no other call with the same aim. -/
theorem Aims.advanced (h : Aims type m c t) (ok : Succeeds e m t) :
    Keeps type m (advance e m t).1 ∧ Aims type (advance e m t).1 c (advance e m t).2 := by
  cases t with
  | blocked op k => exact h.performed ok
  | ready r k => exact h.resumed ok
  | done result => exact ⟨Keeps.refl type m, h⟩

end Step

end AuroraVoice
