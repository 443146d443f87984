import AuroraVoice.MountedScreens
import AuroraVoice.StopListening

namespace AuroraVoice

/-- The result of an inference on its way to `inferenceResult`. -/
def Task.result? : Task → Option Int
  | .ready (.result value) _ => some value
  | _ => none

/-- What `run_inference` returns in this step, if it is called. -/
def Config.inferred (c : Config) : Label → Option Int
  | .step i e =>
    match c.tasks[i]? with
    | some t => (advance e c.state t).2.result?
    | none => none
  | .call _ => none

section Results

variable {V : Int → Prop}

/-- The result that is stored and the results that wait are among those returned so far. -/
def Config.From (V : Int → Prop) (c : Config) : Prop :=
  Pool.Sound (fun m => ∀ value, m.service.inferenceResult = some value → V value)
    (fun _ _ t => ∀ value, t.result? = some value → V value) c

theorem Machine.initModel_result (m : Machine) (c : Caller) : (m.initModel c).2.result? = none := by
  unfold Machine.initModel
  dsimp only
  split <;> rfl

theorem start_result? (m : Machine) (k : Call) : (m.start k).2.result? = none := by
  cases k with
  | initModel => exact m.initModel_result .direct
  | switchModel newType =>
    simp only [Machine.start, Machine.switchModel]
    split
    next => rfl
    next =>
      split
      next => rfl
      next =>
        split
        next => rfl
        next => exact Machine.initModel_result _ _
  | dispose =>
    simp only [Machine.start, Machine.dispose]
    split <;> rfl
  | tick timer =>
    simp only [Machine.start, Machine.tick]
    split <;> rfl
  | _ => rfl

/-- `inferenceResult` is assigned from the reply of `runInference` only. -/
theorem advance_result (e : Environment) (m : Machine) (t : Task) :
    (advance e m t).1.service.inferenceResult = m.service.inferenceResult ∨
      (advance e m t).1.service.inferenceResult = t.result? := by
  cases t with
  | blocked op k => exact Or.inl rfl
  | ready r k =>
    cases stores : (Task.ready r k).stores with
    | false => exact Or.inl (resume_result stores)
    | true =>
      unfold Task.stores at stores
      split at stores
      next value eq =>
        cases eq
        exact Or.inr rfl
      next => cases stores
  | done c => exact Or.inl rfl

theorem Config.From.next {c : Config} (h : c.From V) (l : Label) (new : ∀ value, c.inferred l = some value → V value) :
    (c.next l).From V := by
  cases l with
  | call k =>
    refine Pool.Sound.call h k (fun value eq => ?_) (fun value eq => ?_) fun _ _ _ ht => ht
    · exact h.1 value ((start_result c.state k).symm.trans eq)
    · cases (start_result? c.state k).symm.trans eq
  | step i e =>
    refine Pool.Sound.step h e fun t ht own => ⟨fun value eq => ?_, fun value eq => ?_, fun _ _ _ _ hu => hu⟩
    · rcases advance_result e c.state t with same | stored
      · exact h.1 value (same.symm.trans eq)
      · exact own value (stored.symm.trans eq)
    · apply new
      simp only [Config.inferred, ht]
      exact eq

end Results

section App

variable {Metric : Type} {V : Int → Prop}

/-- The command that the screen shows, if any, is the one of a result returned so far. -/
def ScreenState.From (V : Int → Prop) : ScreenState Metric → Prop
  | .home s => ∀ command, s.detectedCommand = some command →
      ∃ result, V result ∧ 0 ≤ result ∧ HomeScreenState.commands[result.toNat]? = some command
  | _ => True

structure App.From (V : Int → Prop) (a : App Metric) : Prop where
  service : a.service.From V
  disposed : ∀ s ∈ a.disposed, s.From V
  shown : a.shown.From V

theorem Tab.createState_from (tab : Tab) : (tab.createState : ScreenState Metric).From V := by
  cases tab with
  | home => exact fun _ eq => by cases eq
  | performance => trivial
  | settings => trivial

theorem HomeScreenState.updateUI_from {s : HomeScreenState} (h : (ScreenState.home s : ScreenState Metric).From V)
    {result : Option Int} (hr : ∀ value, result = some value → V value) :
    (ScreenState.home (s.updateUI result) : ScreenState Metric).From V := by
  unfold HomeScreenState.updateUI
  split
  next value =>
    split
    next range => exact fun command eq => ⟨value, hr value rfl, range.1, eq⟩
    next => exact h
  next => exact h

/-- What `run_inference` returns during the event. -/
def App.inferred (a : App Metric) : AppEvent Metric → Option Int
  | .serviceStep i e => a.service.inferred (.step i e)
  | _ => none

theorem App.From.next {a : App Metric} (h : a.From V) (e : AppEvent Metric)
    (new : ∀ value, a.inferred e = some value → V value) : (a.next e).From V := by
  have call : ∀ k, (a.service.next (.call k)).From V := fun k => h.service.next _ nofun
  unfold App.next App.step
  split
  next => exact ⟨h.service.next _ new, h.disposed, h.shown⟩
  next => exact ⟨call _, h.disposed, h.shown⟩
  next tab =>
    simp only [App.selectTab]
    split
    next => exact h
    next =>
      refine ⟨h.service, fun s hs => ?_, tab.createState_from⟩
      rcases List.mem_append.mp hs with old | last
      · exact h.disposed s old
      · rw [List.mem_singleton.mp last]
        exact h.shown
  next t newMetric =>
    rcases a.onTimer_state t newMetric with same | ⟨s, shown, eq⟩ | ⟨s, shown, _, eq⟩ | ⟨_, _, _, _, _, eq⟩
    · rw [same]
      exact h
    · rw [eq]
      have home : (ScreenState.home s : ScreenState Metric).From V := shown ▸ h.shown
      exact ⟨h.service, h.disposed, HomeScreenState.updateUI_from home h.service.1⟩
    · rw [eq]
      exact ⟨h.service, h.disposed, trivial⟩
    · rw [eq]
      exact ⟨h.service, h.disposed, h.shown⟩
  next k =>
    obtain ⟨taps, eq⟩ := a.switched_state k
    rw [eq]
    exact ⟨h.service, h.disposed, h.shown⟩
  next s shown =>
    have home : (ScreenState.home s : ScreenState Metric).From V := shown ▸ h.shown
    simp only [App.toggleListening, HomeScreenState.toggleListening]
    split
    next => exact ⟨call _, h.disposed, home⟩
    next => exact ⟨call _, h.disposed, home⟩
  next => exact ⟨h.service, h.disposed, trivial⟩
  next => exact ⟨h.service, h.disposed, trivial⟩
  next =>
    split
    next => exact ⟨call _, h.disposed, h.shown⟩
    next => exact h
  next => exact ⟨h.service, h.disposed, trivial⟩
  next => exact ⟨call _, h.disposed, trivial⟩
  next => exact h

/-- All that `run_inference` returns during a run, in order. -/
def App.inferences : App Metric → List (AppEvent Metric) → List Int
  | _, [] => []
  | a, e :: events => (a.inferred e).toList ++ (a.next e).inferences events

theorem App.From.mono {U : Int → Prop} {a : App Metric} (h : a.From V) (sub : ∀ value, V value → U value) : a.From U := by
  have screen : ∀ {s : ScreenState Metric}, s.From V → s.From U := by
    intro s hs
    cases s with
    | home s =>
      intro command eq
      obtain ⟨result, returned, range⟩ := hs command eq
      exact ⟨result, sub result returned, range⟩
    | _ => trivial
  exact ⟨⟨fun value eq => sub value (h.service.1 value eq), fun i t ht value eq => sub value (h.service.2 i t ht value eq)⟩,
    fun s hs => screen (h.disposed s hs), screen h.shown⟩

theorem App.From.run {a : App Metric} {past : List Int} (events : List (AppEvent Metric)) (h : a.From (· ∈ past)) :
    (Runs.run App.next a events).From (· ∈ past ++ a.inferences events) := by
  induction events generalizing a past with
  | nil => exact h.mono fun value hv => List.mem_append_left _ hv
  | cons e events ih =>
    have next : (a.next e).From (· ∈ past ++ (a.inferred e).toList) := by
      refine (h.mono fun value hv => List.mem_append_left _ hv).next e fun value eq => ?_
      exact List.mem_append_right _ (by simp [eq])
    have last := ih next
    rwa [List.append_assoc] at last

end App

/-- In every run of the app, on every screen that was ever there: a command is shown only if `run_inference` has returned
its index before. In particular, while every inference fails no command is shown. -/
theorem commands_from_inferences {Metric : Type} (events : List (AppEvent Metric)) :
    let a := Runs.run App.next (App.initial : App Metric) events
    ∀ id s, a.state? id = some (.home s) → ∀ command, s.detectedCommand = some command →
      ∃ result ∈ (App.initial : App Metric).inferences events,
        0 ≤ result ∧ HomeScreenState.commands[result.toNat]? = some command := by
  intro a id s found command shows
  have start : (App.initial : App Metric).From (· ∈ ([] : List Int)) := by
    refine ⟨Config.From.next (c := Config.initial) ⟨nofun, fun i t ht => ?_⟩ _ nofun, nofun, fun _ eq => by cases eq⟩
    simp [Config.initial] at ht
  have last := start.run events
  rw [List.nil_append] at last
  have screen : (ScreenState.home s : ScreenState Metric).From (· ∈ (App.initial : App Metric).inferences events) := by
    rcases List.mem_append.mp (List.mem_of_getElem? found) with old | now
    · exact last.disposed _ old
    · rw [List.mem_singleton.mp now]
      exact last.shown
  exact screen command shows

/-- An inference whose second output is the largest. -/
def heardDown : Environment :=
  { Environment.fine with inference := ⟨some 32000, true, true, some [0, 0, 0, 0, 0, 0, 128, 63], 0⟩ }

/-- The model is loaded, the button tapped, one inference runs, and the screen is updated. -/
def downShown : List (AppEvent Unit) :=
  List.replicate 14 (.serviceStep 0 .fine) ++
    [.toggleListening, .serviceTick 0, .serviceStep 2 heardDown, .serviceStep 2 heardDown, .timer 0 ()]

theorem down_from_inference :
    ∃ result ∈ (App.initial : App Unit).inferences downShown,
      0 ≤ result ∧ HomeScreenState.commands[result.toNat]? = some "Down" :=
  commands_from_inferences downShown 0 _ rfl "Down" rfl

end AuroraVoice
