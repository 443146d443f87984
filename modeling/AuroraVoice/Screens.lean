import AuroraVoice.Interleaving
import AuroraVoice.PerformanceScreen

namespace AuroraVoice

/-- The fields of a `_HomeScreenState`. `audioLevel` only copies what the service never writes and is
left out. -/
structure HomeScreenState where
  isListening : Bool
  detectedCommand : Option String
  timer : Option Nat
  deriving DecidableEq

structure SettingsScreenState where
  audioPermission : Bool
  deriving DecidableEq

inductive Tab
  | home
  | performance
  | settings
  deriving DecidableEq

/-- The State objects of the three screens. -/
inductive ScreenState (Metric : Type)
  | home (s : HomeScreenState)
  | performance (s : PerformanceScreenState Metric)
  | settings (s : SettingsScreenState)

variable {Metric α : Type}

namespace HomeScreenState

def initial : HomeScreenState := ⟨false, none, none⟩

def commands : List String := ["Up", "Down", "Start", "Stop"]

def startUIUpdate (s : HomeScreenState) (owner : α) (timers : Timers α) : HomeScreenState × Timers α :=
  ({ s with timer := some timers.next }, timers.periodic owner)

def toggleListening (s : HomeScreenState) (owner : α) (timers : Timers α) (service : Config) :
    (HomeScreenState × Timers α) × Config :=
  let s := { s with isListening := !s.isListening }
  if s.isListening then (s.startUIUpdate owner timers, service.next (.call .startListening))
  else ((s, timers.cancel s.timer), service.next (.call .stopListening))

/-- What the timer callback does in its `setState`. -/
def updateUI (s : HomeScreenState) (inferenceResult : Option Int) : HomeScreenState :=
  match inferenceResult with
  | some result =>
    if 0 ≤ result ∧ result < commands.length then { s with detectedCommand := commands[result.toNat]? } else s
  | none => s

theorem updateUI_isListening (s : HomeScreenState) (result : Option Int) :
    (s.updateUI result).isListening = s.isListening := by
  unfold updateUI
  split
  next => split <;> rfl
  next => rfl

theorem updateUI_timer (s : HomeScreenState) (result : Option Int) : (s.updateUI result).timer = s.timer := by
  unfold updateUI
  split
  next => split <;> rfl
  next => rfl

end HomeScreenState

def ScreenState.tab : ScreenState Metric → Tab
  | .home _ => .home
  | .performance _ => .performance
  | .settings _ => .settings

def Tab.createState : Tab → ScreenState Metric
  | .home => .home HomeScreenState.initial
  | .performance => .performance PerformanceScreenState.initial
  | .settings => .settings ⟨true⟩

def ScreenState.dispose (timers : Timers α) : ScreenState Metric → Timers α
  | .home s => timers.cancel s.timer
  | .performance s => s.dispose timers
  | .settings _ => timers

/-- The running app: the service with its pending calls, the timers of the screens, each with the State its
callback belongs to, the States disposed so far, the one that is mounted, and the model option taps
that wait for their `switchModel`. A State is known by its place in the order of creation. -/
structure App (Metric : Type) where
  service : Config
  timers : Timers Nat
  disposed : List (ScreenState Metric)
  shown : ScreenState Metric
  taps : List (Nat × Nat)

/-- What can happen to the running app. `switched` is a model option tap that goes on after its `await`, and
`timer` a periodic timer of a screen that fires. -/
inductive AppEvent (Metric : Type)
  | serviceStep (i : Nat) (e : Environment)
  | serviceTick (timer : Nat)
  | selectTab (tab : Tab)
  | toggleListening
  | toggleMonitoring
  | resetMetrics
  | modelOption (value : String)
  | switched (k : Nat)
  | audioPermission (value : Bool)
  | resetSettings
  | timer (t : Nat) (newMetric : Metric)

namespace App

/-- `RootScreen.initState` starts `initModel` without waiting for it. -/
def initial : App Metric :=
  ⟨Config.initial.next (.call .initModel), Timers.none, [], .home HomeScreenState.initial, []⟩

def shownId (a : App Metric) : Nat := a.disposed.length

def mounted (a : App Metric) (id : Nat) : Bool := id = a.shownId

def state? (a : App Metric) (id : Nat) : Option (ScreenState Metric) := (a.disposed ++ [a.shown])[id]?

/-- The framework keeps nothing of a `setState` on a State that is disposed. -/
def put (a : App Metric) (id : Nat) (s : ScreenState Metric) : App Metric :=
  if a.mounted id then { a with shown := s } else a

/-- A tab change disposes the State that was shown and creates a fresh one. -/
def selectTab (a : App Metric) (tab : Tab) : App Metric :=
  if tab = a.shown.tab then a
  else { a with timers := a.shown.dispose a.timers, disposed := a.disposed ++ [a.shown], shown := tab.createState }

def toggleListening (a : App Metric) (s : HomeScreenState) : App Metric :=
  let x := s.toggleListening a.shownId a.timers a.service
  { a with shown := .home x.1.1, timers := x.1.2, service := x.2 }

def toggleMonitoring (a : App Metric) (s : PerformanceScreenState Metric) : App Metric :=
  let x := s.toggleMonitoring a.shownId a.timers
  { a with shown := .performance x.1, timers := x.2 }

def modelOptions : List String := [modelFloat32, modelInt8]

/-- `onTap` of a model option up to its `await`. -/
def modelOption (a : App Metric) (value : String) : App Metric :=
  { a with
    service := a.service.next (.call (.switchModel value))
    taps := a.taps ++ [(a.service.tasks.length, a.shownId)] }

/-- `onTap` once its `switchModel` has completed; an error ends it. -/
def switched (a : App Metric) (k : Nat) : App Metric × List Nat :=
  match a.taps[k]? with
  | none => (a, [])
  | some (i, id) =>
    match a.service.tasks[i]? with
    | some (.done (.value success)) => ({ a with taps := a.taps.eraseIdx k }, if success then [id] else [])
    | some (.done _) => ({ a with taps := a.taps.eraseIdx k }, [])
    | _ => (a, [])

/-- A live timer of a screen fires. -/
def onTimer (a : App Metric) (t : Nat) (newMetric : Metric) : App Metric × List Nat :=
  match a.timers.owner? t with
  | none => (a, [])
  | some id =>
    match a.state? id with
    | some (.home s) =>
      if !a.mounted id then (a, [])
      else (a.put id (.home (s.updateUI a.service.state.service.inferenceResult)), [id])
    | some (.performance s) =>
      let x := s.onTimer t newMetric a.timers
      ({ a.put id (.performance x.1) with timers := x.2 }, if s.isMonitoring then [id] else [])
    | _ => (a, [])

/-- One event of the app, with the States on which it calls `setState`. A tap goes to the screen that is
shown, and only to one that has the button. -/
def step (a : App Metric) (e : AppEvent Metric) : App Metric × List Nat :=
  match e, a.shown with
  | .serviceStep i e, _ => ({ a with service := a.service.next (.step i e) }, [])
  | .serviceTick timer, _ => ({ a with service := a.service.next (.call (.tick timer)) }, [])
  | .selectTab tab, _ => (a.selectTab tab, [])
  | .timer t newMetric, _ => a.onTimer t newMetric
  | .switched k, _ => a.switched k
  | .toggleListening, .home s => (a.toggleListening s, [a.shownId])
  | .toggleMonitoring, .performance s => (a.toggleMonitoring s, [a.shownId])
  | .resetMetrics, .performance s => ({ a with shown := .performance s.resetMetrics }, [a.shownId])
  | .modelOption value, .settings _ => (if value ∈ modelOptions then a.modelOption value else a, [])
  | .audioPermission value, .settings _ => ({ a with shown := .settings ⟨value⟩ }, [a.shownId])
  | .resetSettings, .settings _ =>
    ({ a with shown := .settings ⟨true⟩, service := a.service.next (.call (.setModelType modelInt8)) }, [a.shownId])
  | _, _ => (a, [])

def next (a : App Metric) (e : AppEvent Metric) : App Metric := (a.step e).1

theorem mounted_shownId (a : App Metric) : a.mounted a.shownId = true := decide_eq_true rfl

theorem state?_shown {a : App Metric} {id : Nat} (h : a.mounted id = true) : a.state? id = some a.shown := by
  have eq : id = a.disposed.length := of_decide_eq_true h
  simp [state?, eq]

theorem switched_state (a : App Metric) (k : Nat) : ∃ taps, (a.switched k).1 = { a with taps := taps } := by
  unfold switched
  split
  next => exact ⟨a.taps, rfl⟩
  next => split <;> exact ⟨_, rfl⟩

/-- What a firing timer changes: nothing, the screen that is shown, or, where its State does not monitor any
more, the timers alone. -/
theorem onTimer_state (a : App Metric) (t : Nat) (newMetric : Metric) :
    (a.onTimer t newMetric).1 = a ∨
      (∃ s, a.shown = .home s ∧ (a.onTimer t newMetric).1 =
        { a with shown := .home (s.updateUI a.service.state.service.inferenceResult) }) ∨
      (∃ s, a.shown = .performance s ∧ s.isMonitoring = true ∧ (a.onTimer t newMetric).1 =
        { a with shown := .performance (s.addMetric newMetric) }) ∨
      (∃ id s, a.timers.owner? t = some id ∧ a.state? id = some (.performance s) ∧ s.isMonitoring = false ∧
        (a.onTimer t newMetric).1 = { a with timers := a.timers.cancel (some t) }) := by
  unfold onTimer
  split
  next => exact Or.inl rfl
  next id owner =>
    split
    next s found =>
      cases live : a.mounted id with
      | false => exact Or.inl rfl
      | true =>
        have shown := (state?_shown live).symm.trans found
        exact Or.inr (Or.inl ⟨s, Option.some.inj shown, by simp [put, live]⟩)
    next s found =>
      cases on : s.isMonitoring with
      | false =>
        refine Or.inr (Or.inr (Or.inr ⟨id, s, owner, found, on, ?_⟩))
        cases live : a.mounted id with
        | false => simp [put, live, PerformanceScreenState.onTimer, on]
        | true =>
          have shown := Option.some.inj ((state?_shown live).symm.trans found)
          simp [put, live, PerformanceScreenState.onTimer, on, shown]
      | true =>
        simp only [PerformanceScreenState.onTimer_on on]
        cases live : a.mounted id with
        | false => exact Or.inl (by simp [put, live])
        | true =>
          have shown := (state?_shown live).symm.trans found
          exact Or.inr (Or.inr (Or.inl ⟨s, Option.some.inj shown, on, by simp [put, live]⟩))
    next => exact Or.inl rfl

end App

end AuroraVoice
