import AuroraVoice.Progress

namespace AuroraVoice

/-- The only temporary file is `_currentModelFile`. -/
def HeldFile (m : Machine) : Prop :=
  ∀ path data, m.world.files path = some data → m.service.currentModelFile = some path

def FileThere (m : Machine) (file : String) : Prop :=
  m.service.currentModelFile = some file ∧ (m.world.files file).isSome

def NoFile (m : Machine) : Prop := ∀ path, m.world.files path = none

def FileOf (type : String) (m : Machine) : Prop :=
  ∀ path data, m.world.files path = some data → path = modelPath type

def ExactFile (type : String) (m : Machine) : Prop :=
  ∀ path data, m.world.files path = some data ↔ path = modelPath type ∧ data = .asset (assetOf type)

/-- The temporary files at each point of a call that aims at `type` and runs with no other. -/
def Tidy (type : String) (m : Machine) : Task → Prop
  | .blocked op (.switchModelExists _) =>
    HeldFile m ∧ ∃ file, op = .exists file ∧ m.service.currentModelFile = some file
  | .ready r (.switchModelExists _) =>
    if r = .answer true then HeldFile m ∧ ∃ file, FileThere m file else NoFile m
  | .blocked op (.switchModelDelete _) => HeldFile m ∧ ∃ file, op = .delete file ∧ FileThere m file
  | .ready _ (.switchModelDelete _) => NoFile m
  | .ready _ (.initModelWrite _ _) => ExactFile type m
  | .blocked _ (.initModelExists _ _) => ExactFile type m
  | .ready _ (.initModelExists _ _) => ExactFile type m
  | .blocked _ (.initModelLength _ _) => ExactFile type m
  | .ready _ (.initModelLength _ _) => ExactFile type m
  | .ready _ (.initModelLoad _) => ExactFile type m ∧ m.service.currentModelFile = some (modelPath type)
  | .ready _ .switchModelReturn => ExactFile type m ∧ m.service.currentModelFile = some (modelPath type)
  | .done _ => ExactFile type m ∧ m.service.currentModelFile = some (modelPath type)
  | _ => FileOf type m

section Step

variable {type : String} {m : Machine} {c : Caller} {t : Task} {e : Environment}

theorem NoFile.fileOf (h : NoFile m) : FileOf type m := by
  intro path data hd
  rw [h path] at hd
  cases hd

theorem ExactFile.fileOf (h : ExactFile type m) : FileOf type m := fun path data hd => ((h path data).mp hd).1

theorem HeldFile.removed {file : String} (h : HeldFile m) (hf : m.service.currentModelFile = some file) :
    NoFile ⟨m.service, m.world.removeFile file⟩ := by
  intro path
  simp only [World.removeFile]
  split
  next => rfl
  next hp =>
    cases hd : m.world.files path with
    | none => rfl
    | some data =>
      have same := h path data hd
      rw [hf] at same
      exact absurd (Option.some.inj same).symm hp

theorem HeldFile.absent {file : String} (h : HeldFile m) (hf : m.service.currentModelFile = some file)
    (gone : m.world.files file = none) : NoFile m := by
  intro path
  cases hd : m.world.files path with
  | none => rfl
  | some data =>
    have same := h path data hd
    rw [hf, Option.some.injEq] at same
    rw [← same, gone] at hd
    cases hd

theorem FileOf.written (h : FileOf type m) :
    ExactFile type ⟨m.service, m.world.writeFile (modelPath type) (.asset (assetOf type))⟩ := by
  intro path data
  simp only [World.writeFile]
  split
  next hp => simp [hp, eq_comm]
  next hp =>
    constructor
    · intro hd
      exact absurd (h path data hd) hp
    · rintro ⟨eq, _⟩
      exact absurd eq hp

/-- `exists` on the one file: what it answers is what is there afterwards. -/
theorem HeldFile.probe {file : String} (h : HeldFile m) (hf : m.service.currentModelFile = some file)
    (ok : (perform e (.exists file) m.world).2 ≠ .threw) :
    ((perform e (.exists file) m.world).2 = .answer true ∧ (perform e (.exists file) m.world).1 = m.world ∧
      (m.world.files file).isSome) ∨
    ((perform e (.exists file) m.world).2 = .answer false ∧
      NoFile ⟨m.service, (perform e (.exists file) m.world).1⟩) := by
  obtain ⟨io, load, inference⟩ := e
  cases io with
  | ok =>
    cases hd : m.world.files file with
    | none => exact Or.inr ⟨by simp [perform, hd], h.absent hf hd⟩
    | some data => exact Or.inl ⟨by simp [perform, hd], rfl, rfl⟩
  | missing => exact Or.inr ⟨rfl, h.removed hf⟩
  | fail left => exact absurd rfl ok

theorem HeldFile.delete {file : String} (h : HeldFile m) (hf : m.service.currentModelFile = some file)
    (ok : (perform e (.delete file) m.world).2 = .done) :
    NoFile ⟨m.service, (perform e (.delete file) m.world).1⟩ := by
  obtain ⟨io, load, inference⟩ := e
  cases io with
  | ok =>
    simp only [perform] at ok ⊢
    split
    next => exact h.removed hf
    next gone => simp [gone] at ok
  | missing => cases ok
  | fail left => cases ok

theorem tidy_switchModelInit (h : NoFile m) :
    Tidy type (m.switchModelInit type).1 (m.switchModelInit type).2 := by
  have fileOf : FileOf type m := h.fileOf
  simp only [Machine.switchModelInit, Machine.initModel]
  split
  next => exact fileOf
  next => exact fileOf

/-- An operation that answers a question about the written file, and answers it well. -/
theorem perform_found {op : Op} {file : String} (hop : op = .exists file ∨ op = .length file)
    (ok : (perform e op m.world).2 = .answer true ∨ (perform e op m.world).2 = .done) :
    (perform e op m.world).1 = m.world := by
  obtain ⟨io, load, inference⟩ := e
  rcases hop with rfl | rfl
  · cases io <;> simp [perform] at ok ⊢
  · cases io <;> simp [perform] at ok ⊢

theorem Aims.tidy_performed {op : Op} {k : Cont} (h : Aims type m c (.blocked op k))
    (tidy : Tidy type m (.blocked op k)) (ok : Succeeds e m (.blocked op k)) :
    Tidy type (advance e m (.blocked op k)).1 (advance e m (.blocked op k)).2 := by
  cases h with
  | probe file =>
    obtain ⟨held, _, same, current⟩ := tidy
    cases same
    have answered : (perform e (.exists file) m.world).2 ≠ .threw := by
      intro threw
      simp [Succeeds, advance, threw, Task.failed] at ok
    rcases held.probe current answered with ⟨reply, world, there⟩ | ⟨reply, none⟩
    · simp only [advance, reply, world]
      exact ⟨held, file, current, there⟩
    · simp only [advance, reply]
      exact none
  | delete file =>
    obtain ⟨held, _, same, there⟩ := tidy
    cases same
    rcases perform_delete e m.world file with threw | done
    · simp [Succeeds, advance, threw, Task.failed] at ok
    · exact held.delete there.1 done
  | engine =>
    simp only [advance, perform_loadFfiEngine]
    exact tidy
  | asset =>
    simp only [advance, perform_loadAsset]
    exact tidy
  | write =>
    rcases perform_writeAsBytes e m.world (modelPath type) (.asset (assetOf type)) with threw | done
    · simp [Succeeds, advance, threw, Task.failed] at ok
    · simp only [advance, done]
      exact FileOf.written tidy
  | check =>
    have same : (perform e (.exists (modelPath type)) m.world).1 = m.world := by
      apply perform_found (Or.inl rfl)
      rcases perform_exists e m.world (modelPath type) with threw | ⟨b, answer⟩
      · simp [Succeeds, advance, threw, Task.failed] at ok
      · cases b with
        | false => simp [Succeeds, advance, answer, Task.failed] at ok
        | true => exact Or.inl answer
    simp only [advance, same]
    exact tidy
  | length =>
    have same : (perform e (.length (modelPath type)) m.world).1 = m.world := by
      apply perform_found (Or.inr rfl)
      rcases perform_length e m.world (modelPath type) with threw | done
      · simp [Succeeds, advance, threw, Task.failed] at ok
      · exact Or.inr done
    simp only [advance, same]
    exact tidy

theorem Aims.tidy_resumed {r : Reply} {k : Cont} (h : Aims type m c (.ready r k))
    (tidy : Tidy type m (.ready r k)) :
    Tidy type (advance e m (.ready r k)).1 (advance e m (.ready r k)).2 := by
  cases h with
  | probed b =>
    cases b with
    | false => exact tidy_switchModelInit tidy
    | true =>
      obtain ⟨held, file, there⟩ := tidy
      simp only [advance, resume, Machine.deleteCurrent, there.1]
      exact ⟨held, file, rfl, there⟩
  | deleted => exact tidy_switchModelInit tidy
  | plugin =>
    simp only [advance, resume]
    split
    next => exact tidy
    next => exact tidy
  | measured =>
    have files := World.loadModel_files m.world (modelPath type) e.load
    simp only [advance, resume]
    refine ⟨fun path data => ?_, rfl⟩
    rw [files]
    exact tidy path data
  | loaded =>
    cases c with
    | direct => exact tidy
    | switchModel => exact tidy
  | _ => exact tidy

theorem Aims.tidy_advanced (h : Aims type m c t) (tidy : Tidy type m t) (ok : Succeeds e m t) :
    Tidy type (advance e m t).1 (advance e m t).2 := by
  cases t with
  | blocked op k => exact h.tidy_performed tidy ok
  | ready r k => exact h.tidy_resumed tidy
  | done result => exact tidy

end Step

end AuroraVoice
