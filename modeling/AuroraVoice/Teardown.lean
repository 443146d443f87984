import AuroraVoice.Listening
import AuroraVoice.Reachability
import AuroraVoice.TemporaryFiles

namespace AuroraVoice

def Plugin.Empty (p : Plugin Contents) : Prop := p.model = none ∧ p.options = none ∧ p.interpreter = none

structure TornDown (m : Machine) : Prop where
  plugin : m.world.plugin.Empty
  timers : m.world.timers = []
  flag : m.service.isInitialized = false
  files : NoFile m

def Call.isTick : Call → Bool
  | .tick _ => true
  | _ => false

def deleteSucceeds (e : Environment) (m : Machine) : Task → Bool
  | .blocked (.delete file) _ => decide ((perform e (.delete file) m.world).2 = .done)
  | _ => true

/-- Nothing further is called, though timers may fire, and every file delete succeeds. -/
def Unattended (c : Config) (l : Label) : Prop :=
  Pool.Allowed (fun _ k => k.isTick = true) (fun e m t => deleteSucceeds e m t = true) c l

def Task.deletes : Task → Bool
  | .blocked _ .disposeExists => true
  | .ready (.answer true) .disposeExists => true
  | .blocked _ .disposeDelete => true
  | _ => false

/-- The step `e` of the call at place `i` leaves the `dispose` at place `n` alone: it writes to no
file but the one that `dispose` has still to delete, it does not call `load_model`, it does not
raise the flag once `dispose` is over, and it is not an `exists` of `dispose` that throws. -/
def undisturbed (n i : Nat) (c : Config) (e : Environment) : Task → Bool
  | .blocked (.writeAsBytes file _) _ =>
    decide (c.state.service.currentModelFile = some file) && (c.tasks[n]?).any Task.deletes
  | .blocked (.exists file) .disposeExists =>
    i != n || decide ((perform e (.exists file) c.state.world).2 ≠ .threw)
  | .ready r (.initModelLength _ _) => decide (r = .threw)
  | .ready r (.initModelLoad _) => decide (r ≠ .answer true) || (c.tasks[n]?).any fun u => !u.isDone
  | _ => true

def Undisturbed (n : Nat) (c : Config) : Label → Prop
  | .call _ => True
  | .step i e => ∀ t ∈ c.tasks[i]?, undisturbed n i c e t = true

section Plugin

variable {m : Machine}

theorem Plugin.unloadModel_empty (p : Plugin Contents) : p.unloadModel.plugin.Empty := by
  simp [unloadModel, release_eq, Empty]

def Vacant (m : Machine) : Prop := m.world.bindings = false → m.world.plugin.Empty

theorem Vacant.unloadModel (h : Vacant m) : m.world.unloadModel.plugin.Empty := by
  unfold World.unloadModel
  split
  next => exact Plugin.unloadModel_empty _
  next hb => exact h (by simpa using hb)

theorem Vacant.of_world {w : World} (h : Vacant m) (bindings : w.bindings = m.world.bindings)
    (plugin : w.plugin = m.world.plugin ∨ m.world.bindings = true) (s : VoiceService) : Vacant ⟨s, w⟩ := by
  intro hb
  have free : m.world.bindings = false := bindings.symm.trans hb
  rcases plugin with same | bound
  · rw [same]
    exact h free
  · rw [free] at bound
    cases bound

theorem perform_plugin (e : Environment) (op : Op) (w : World) :
    (perform e op w).1.plugin = w.plugin ∨ (op = .runInference ∧ w.bindings = true) := by
  unfold perform
  split <;> try split
  all_goals first
    | exact Or.inl rfl
    | exact Or.inr ⟨rfl, by assumption⟩

theorem advance_vacant (e : Environment) (m : Machine) (t : Task) (h : Vacant m) : Vacant (advance e m t).1 := by
  cases t with
  | blocked op k =>
    exact h.of_world (perform_bindings e op m.world) ((perform_plugin e op m.world).imp_right And.right) m.service
  | ready r k =>
    intro hb
    rcases resume_world e k r m with same | bound | ⟨c, file, _, _, loaded⟩
    · rw [advance, same] at hb ⊢
      exact h hb
    · rw [advance, bound] at hb
      cases hb
    · rw [advance, loaded] at hb ⊢
      rw [World.loadModel_bindings] at hb
      simp only [World.loadModel, hb, Bool.false_eq_true, if_false]
      exact h hb
  | done c => exact h

theorem start_vacant (m : Machine) (k : Call) (h : Vacant m) : Vacant (m.start k).1 := by
  obtain ⟨w, timers, nextTimer, rfl | rfl, eq⟩ := start_world m k
  · intro hb
    rw [eq] at hb ⊢
    exact h hb
  · intro _
    rw [eq]
    exact h.unloadModel

end Plugin

/-- Where `dispose` stands, and what it can count on there. -/
def Phase (m : Machine) : Task → Prop
  | .blocked op .disposeExists =>
    HeldFile m ∧ ∃ file, op = .exists file ∧ m.service.currentModelFile = some file
  | .ready r .disposeExists =>
    (r = .answer true ∧ HeldFile m ∧ ∃ file, m.service.currentModelFile = some file) ∨ (r = .answer false ∧ NoFile m)
  | .blocked op .disposeDelete =>
    HeldFile m ∧ ∃ file, op = .delete file ∧ m.service.currentModelFile = some file
  | .ready r .disposeDelete => r = .done ∧ NoFile m
  | .done _ => NoFile m ∧ m.service.isInitialized = false
  | _ => False

def Cleared (m : Machine) : Prop := m.world.plugin.Empty ∧ m.world.timers = []

section Dispose

variable {m next : Machine} {t u : Task} {e : Environment}

/-- No step brings a cleared plugin back unless it calls `load_model`. -/
theorem Cleared.advanced (h : Cleared m)
    (load : ∀ r c file, t = .ready r (.initModelLength c file) → r = .threw) : Cleared (advance e m t).1 := by
  have timers : (advance e m t).1.world.timers = m.world.timers := congrArg Clock.timers (advance_clock e m t)
  refine ⟨?_, timers.trans h.2⟩
  cases t with
  | blocked op k =>
    have same : (perform e op m.world).1.plugin = m.world.plugin := by
      rcases perform_plugin e op m.world with same | ⟨rfl, bound⟩
      · exact same
      · simp only [perform, bound, if_true]
        rw [Plugin.runInference_null h.1.2.2]
    rw [advance]
    exact same ▸ h.1
  | ready r k =>
    rcases resume_world e k r m with same | bound | ⟨c, file, rfl, threw, _⟩
    · rw [advance, same]
      exact h.1
    · rw [advance, bound]
      exact h.1
    · exact absurd (load r c file rfl) threw
  | done c => exact h.1

theorem HeldFile.fewer (h : HeldFile m) (file : next.service.currentModelFile = m.service.currentModelFile)
    (files : ∀ path data, next.world.files path = some data →
      m.world.files path = some data ∨ m.service.currentModelFile = some path) : HeldFile next := by
  intro path data hd
  rw [file]
  rcases files path data hd with old | held
  · exact h path data old
  · exact held

theorem NoFile.fewer (h : NoFile m)
    (files : ∀ path data, next.world.files path = some data → m.world.files path = some data) : NoFile next := by
  intro path
  cases hd : next.world.files path with
  | none => rfl
  | some data =>
    have old := files path data hd
    rw [h path] at old
    cases old

def Fewer (u : Task) (m next : Machine) : Prop :=
  (∀ path data, next.world.files path = some data → m.world.files path = some data) ∨
    (u.deletes = true ∧ ∀ path data, next.world.files path = some data →
      m.world.files path = some data ∨ m.service.currentModelFile = some path)

theorem Phase.stable (h : Phase m u) (file : next.service.currentModelFile = m.service.currentModelFile)
    (files : Fewer u m next)
    (flag : u.isDone = true → m.service.isInitialized = false → next.service.isInitialized = false) :
    Phase next u := by
  have held : HeldFile m → HeldFile next := by
    intro hm
    rcases files with fewer | ⟨_, fewer⟩
    · exact hm.fewer file fun path data hd => Or.inl (fewer path data hd)
    · exact hm.fewer file fewer
  have none : u.deletes = false → NoFile m → NoFile next := by
    intro hu hm
    rcases files with fewer | ⟨deletes, _⟩
    · exact hm.fewer fewer
    · rw [hu] at deletes
      cases deletes
  unfold Phase at h ⊢
  rw [file]
  split
  all_goals simp only at h ⊢
  next => exact ⟨held h.1, h.2⟩
  next =>
    rcases h with ⟨rfl, hm, some⟩ | ⟨rfl, hm⟩
    · exact Or.inl ⟨rfl, held hm, some⟩
    · exact Or.inr ⟨rfl, none rfl hm⟩
  next => exact ⟨held h.1, h.2⟩
  next =>
    obtain ⟨rfl, hm⟩ := h
    exact ⟨rfl, none rfl hm⟩
  next => exact ⟨none rfl h.1, flag rfl h.2⟩

theorem Phase.disposeEnd (h : NoFile m) : Phase m.disposeEnd.1 m.disposeEnd.2 := ⟨h, rfl⟩

theorem Phase.advanced (h : Phase m t)
    (probe : ∀ file, t = .blocked (.exists file) .disposeExists → (perform e (.exists file) m.world).2 ≠ .threw)
    (delete : ∀ file k, t = .blocked (.delete file) k → (perform e (.delete file) m.world).2 = .done) :
    Phase (advance e m t).1 (advance e m t).2 := by
  unfold Phase at h
  split at h
  next =>
    obtain ⟨held, file, rfl, current⟩ := h
    rcases held.probe current (probe file rfl) with ⟨reply, world, _⟩ | ⟨reply, none⟩
    · simp only [advance, reply, world]
      exact Or.inl ⟨rfl, held, file, current⟩
    · exact Or.inr ⟨reply, none⟩
  next =>
    rcases h with ⟨rfl, held, file, current⟩ | ⟨rfl, none⟩
    · simp only [advance, resume, Machine.deleteCurrent, current]
      exact ⟨held, file, rfl, current⟩
    · exact Phase.disposeEnd none
  next =>
    obtain ⟨held, file, rfl, current⟩ := h
    have done := delete file _ rfl
    exact ⟨done, held.delete current done⟩
  next =>
    obtain ⟨rfl, none⟩ := h
    exact Phase.disposeEnd none
  next => exact h
  next => exact h.elim

theorem perform_write_files (e : Environment) (w : World) (file : String) (data : Contents) :
    ∀ path d, (perform e (.writeAsBytes file data) w).1.files path = some d → w.files path = some d ∨ path = file := by
  have written : ∀ (left : Contents) path d, (w.writeFile file left).files path = some d →
      w.files path = some d ∨ path = file := by
    intro left path d hd
    simp only [World.writeFile] at hd
    split at hd
    next eq => exact Or.inr eq
    next => exact Or.inl hd
  obtain ⟨io, load, inference⟩ := e
  intro path d
  cases io with
  | ok => exact written data path d
  | missing => exact written data path d
  | fail left =>
    cases left with
    | none => exact Or.inl
    | some left => exact written left path d

theorem perform_fewer (e : Environment) (op : Op) (m : Machine)
    (write : ∀ file data, op = .writeAsBytes file data → m.service.currentModelFile = some file ∧ u.deletes = true) :
    Fewer u m ⟨m.service, (perform e op m.world).1⟩ := by
  by_cases hw : ∃ file data, op = .writeAsBytes file data
  · obtain ⟨file, data, rfl⟩ := hw
    obtain ⟨current, deletes⟩ := write file data rfl
    refine Or.inr ⟨deletes, fun path d hd => ?_⟩
    rcases perform_write_files e m.world file data path d hd with old | rfl
    · exact Or.inl old
    · exact Or.inr current
  · by_cases hr : op = .runInference
    · obtain ⟨plugin, r, eq, _⟩ := perform_runInference e m.world
      rw [hr, eq]
      exact Or.inl fun _ _ => id
    · obtain ⟨files, eq, fewer⟩ := perform_files e (fun path data same => hw ⟨path, data, same⟩) hr m.world
      rw [eq]
      exact Or.inl fewer

theorem Phase.other (h : Phase m u)
    (write : ∀ file data k, t = .blocked (.writeAsBytes file data) k →
      m.service.currentModelFile = some file ∧ u.deletes = true)
    (load : ∀ r c file, t = .ready r (.initModelLength c file) → r = .threw)
    (flag : ∀ c, t = .ready (.answer true) (.initModelLoad c) → u.isDone = false) :
    Phase (advance e m t).1 u := by
  cases t with
  | blocked op k =>
    exact h.stable rfl (perform_fewer e op m fun file data eq => write file data k (by rw [eq])) fun _ => id
  | ready r k =>
    refine h.stable ?_ (Or.inl ?_) fun finished low => ?_
    · rcases resume_file e k r m with same | ⟨c, file, rfl, threw⟩
      · exact same
      · exact absurd (load r c file rfl) threw
    · intro path data hd
      rcases resume_world e k r m with same | bound | ⟨c, file, rfl, threw, _⟩
      · rw [advance, same] at hd
        exact hd
      · rw [advance, bound] at hd
        exact hd
      · exact absurd (load r c file rfl) threw
    · cases raised : (advance e m (.ready r k)).1.service.isInitialized with
      | false => rfl
      | true =>
        rcases resume_flag e k r m raised with before | ⟨c, rfl, rfl⟩
        · rw [low] at before
          cases before
        · rw [flag c rfl] at finished
          cases finished
  | done c => exact h

end Dispose

section Run

variable {n : Nat} {c : Config}

def Disposing (n : Nat) (c : Config) : Prop :=
  n < c.tasks.length ∧ Pool.Sound Cleared (fun i m t => i = n → Phase m t) c

theorem disposing_tick (h : Disposing n c) (timer : Nat) : Disposing n (c.next (.call (.tick timer))) := by
  have same : (c.state.start (.tick timer)).1 = c.state := by
    simp only [Machine.start, Machine.tick]
    split <;> rfl
  have longer : n < (c.next (.call (.tick timer))).tasks.length := by
    simp only [Config.next, Pool.System.next, List.length_append]
    have := h.1
    omega
  refine ⟨longer, Pool.Sound.call (S := calls) h.2 (Call.tick timer) ?_ ?_ fun i t _ hp => ?_⟩
  · rw [calls_start, same]
    exact h.2.1
  · intro last
    have := h.1
    omega
  · rw [calls_start, same]
    exact hp

theorem disposing_step (h : Disposing n c) {i : Nat} {e : Environment} (ok : Unattended c (.step i e))
    (quiet : Undisturbed n c (.step i e)) : Disposing n (c.next (.step i e)) := by
  refine ⟨?_, h.2.step e fun t ht own => ?_⟩
  · cases ht : c.tasks[i]? with
    | none => rw [Config.next, Pool.next_idle ht]; exact h.1
    | some t => rw [Config.next, Pool.next_step ht, List.length_set]; exact h.1
  · have calm : undisturbed n i c e t = true := quiet t ht
    have load : ∀ r k file, t = .ready r (.initModelLength k file) → r = .threw := by
      rintro r k file rfl
      simpa [undisturbed] using calm
    refine ⟨h.2.1.advanced load, fun here => ?_, fun j u hj hu hp there => ?_⟩
    · -- the step is that of `dispose`
      subst here
      refine (own rfl).advanced ?_ ?_
      · rintro file rfl
        simpa [undisturbed] using calm
      · rintro file k rfl
        simpa [deleteSucceeds] using ok _ ht
    · -- the step is that of another call, at place `i`
      subst there
      refine (hp rfl).other ?_ load ?_
      · rintro file data k rfl
        simpa [undisturbed, hu] using calm
      · rintro k rfl
        simpa [undisturbed, hu] using calm

theorem disposing_next (c : Config) (l : Label) (h : Disposing n c) (ok : Unattended c l ∧ Undisturbed n c l) :
    Disposing n (c.next l) := by
  cases l with
  | call k =>
    cases k with
    | tick timer => exact disposing_tick h timer
    | _ => cases ok.1
  | step i e => exact disposing_step h ok.1 ok.2

theorem disposing_call {m : Machine} (vacant : Vacant m) (timers : ∀ t ∈ m.world.timers, m.service.timer = some t)
    (held : HeldFile m) : Cleared m.dispose.1 ∧ Phase m.dispose.1 m.dispose.2 := by
  let stopped : Machine := ⟨m.stopListening.service, m.stopListening.world.unloadModel⟩
  have empty : stopped.world.plugin.Empty := Vacant.unloadModel (m := m.stopListening) vacant
  have still : HeldFile stopped := by
    intro path data hd
    rw [World.unloadModel_files] at hd
    exact held path data hd
  have quiet : stopped.world.timers = [] := by
    rw [World.unloadModel_timers]
    simp only [Machine.stopListening, World.cancelTimer, List.filter_eq_nil_iff]
    intro t ht
    simp [timers t ht]
  cases hf : m.service.currentModelFile with
  | none =>
    have none : NoFile stopped := by
      intro path
      cases hd : stopped.world.files path with
      | none => rfl
      | some data =>
        have same : m.service.currentModelFile = some path := still path data hd
        rw [hf] at same
        cases same
    rw [dispose_none hf]
    exact ⟨⟨empty, quiet⟩, Phase.disposeEnd none⟩
  | some file =>
    rw [dispose_some hf]
    exact ⟨⟨empty, quiet⟩, still, file, rfl, hf⟩

/-- After any history and in any interleaving, once `dispose` and everything called before it have
completed nothing of the service is left, provided that the `_timer` and `_currentModelFile` which
`dispose` clears are all there is when it is called, and that the calls in flight leave it undisturbed. -/
theorem teardown_complete (past rest : List Label) :
    let c := Runs.run Config.next Config.initial past
    let last := Runs.run Config.next Config.initial (past ++ .call .dispose :: rest)
    (∀ t ∈ c.state.world.timers, c.state.service.timer = some t) → HeldFile c.state →
      Runs.Along Config.next (fun d l => Unattended d l ∧ Undisturbed c.tasks.length d l)
        (c.next (.call .dispose)) rest →
      Completed last → TornDown last.state := by
  intro c last timers held quiet ended
  have vacant : Vacant c.state :=
    Runs.run_induction (I := fun d : Config => Vacant d.state)
      (fun d l h => Pool.next_state (S := calls) start_vacant advance_vacant l h) (fun _ => ⟨rfl, rfl, rfl⟩) past
  have split : last = Runs.run Config.next (c.next (.call .dispose)) rest := Runs.run_append _ _ _
  rw [split] at ended ⊢
  obtain ⟨cleared, phase⟩ := disposing_call vacant timers held
  have start : Disposing c.tasks.length (c.next (.call .dispose)) := by
    refine ⟨by simp [Config.next, Pool.System.next], cleared, fun i t ht here => ?_⟩
    rcases Pool.getElem?_concat_cases ht with ⟨_, rfl⟩ | ⟨hi, _⟩
    · exact phase
    · omega
  obtain ⟨present, state, own⟩ := Runs.along_induction disposing_next start quiet
  have ht := List.getElem?_eq_getElem present
  obtain ⟨r, finished⟩ := Task.of_isDone (ended _ (List.mem_of_getElem? ht))
  rw [finished] at ht
  have last := own _ _ ht rfl
  exact ⟨state.1, state.2, last.2, last.1⟩

end Run

instance decidableUnattended (c : Config) (l : Label) : Decidable (Unattended c l) :=
  inferInstanceAs (Decidable (Pool.Allowed _ _ c l))

instance decidableUndisturbed (n : Nat) (c : Config) : ∀ l, Decidable (Undisturbed n c l)
  | .call _ => isTrue trivial
  | .step i e => inferInstanceAs (Decidable (∀ t ∈ c.tasks[i]?, undisturbed n i c e t = true))

theorem teardown_while_listening :
    let past := .call .initModel :: List.replicate 13 (.step 0 Environment.fine) ++ [.call .startListening]
    let rest := List.replicate 4 (.step 2 Environment.fine)
    TornDown (Runs.run Config.next Config.initial (past ++ .call .dispose :: rest)).state := by
  intro past rest
  have files : (Runs.run Config.next Config.initial past).state.world.files = fun path =>
      if path = modelPath modelFloat32 then some (.asset (assetOf modelFloat32)) else none := rfl
  refine teardown_complete past rest (by decide) ?_ (by decide) (by decide)
  intro path data hd
  simp only [files] at hd
  split at hd
  next same =>
    rw [same]
    rfl
  next => cases hd

/-- `dispose` is called while `initModel` waits for `rootBundle.load`, and `initModel` goes on. -/
theorem init_in_flight_survives_dispose :
    let past := .call .initModel :: List.replicate 4 (.step 0 Environment.fine)
    let rest := List.replicate 9 (.step 0 Environment.fine)
    let last := Runs.run Config.next Config.initial (past ++ .call .dispose :: rest)
    Runs.Along Config.next Unattended ((Runs.run Config.next Config.initial past).next (.call .dispose)) rest ∧
      Completed last ∧ last.state.service.isInitialized = true ∧ ¬ TornDown last.state := by
  intro past rest last
  have flag : last.state.service.isInitialized = true := by decide
  refine ⟨by decide, by decide, flag, fun down => ?_⟩
  rw [down.flag] at flag
  cases flag

end AuroraVoice
