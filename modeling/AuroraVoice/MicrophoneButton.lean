import AuroraVoice.Listening
import AuroraVoice.Screens

namespace AuroraVoice

variable {Metric : Type}

/-- What the microphone button shows, while the home screen is mounted. -/
def ScreenState.button : ScreenState Metric → Option Bool
  | .home s => some s.isListening
  | _ => none

def Config.isListening (c : Config) : Bool := c.state.service.isListening

def App.ButtonAgrees (a : App Metric) : Prop := ∀ shows ∈ a.shown.button, shows = a.service.isListening

/-- The button is switched on only while the service is initialised, and the home screen is opened only
while the service is not listening. -/
def ButtonFollows (a : App Metric) : AppEvent Metric → Prop
  | .toggleListening => a.shown.button = some false → a.service.state.service.isInitialized = true
  | .selectTab tab => tab = .home → a.shown.tab ≠ .home → a.service.isListening = false
  | _ => True

section Service

variable (c : Config)

theorem isListening_step (i : Nat) (e : Environment) : (c.next (.step i e)).isListening = c.isListening :=
  congrArg Clock.isListening (step_clock c i e)

theorem isListening_call (k : Call) : (c.next (.call k)).isListening = (c.state.start k).1.clock.isListening := rfl

theorem isListening_start (off : c.isListening = false) :
    (c.next (.call .startListening)).isListening = c.state.service.isInitialized := by
  have off : c.state.service.isListening = false := off
  rw [isListening_call, start_clock]
  simp only [Machine.startListening]
  cases hi : c.state.service.isInitialized <;> simp [Machine.clock, off]

theorem isListening_stop : (c.next (.call .stopListening)).isListening = false := rfl

theorem isListening_other {k : Call}
    (hk : k ∉ [.startListening, .toggleListening, .stopListening, .dispose]) :
    (c.next (.call k)).isListening = c.isListening := by
  rw [isListening_call, start_clock]
  cases k <;> first | rfl | simp at hk

end Service

section Step

variable {a : App Metric}

theorem buttonAgrees_of_same {next : App Metric} (h : a.ButtonAgrees) (button : next.shown.button = a.shown.button)
    (service : next.service.isListening = a.service.isListening) : next.ButtonAgrees := by
  unfold App.ButtonAgrees
  rw [button, service]
  exact h

theorem buttonAgrees_onTimer (h : a.ButtonAgrees) (t : Nat) (newMetric : Metric) :
    (a.onTimer t newMetric).1.ButtonAgrees := by
  rcases a.onTimer_state t newMetric with same | ⟨s, shown, home⟩ | ⟨s, shown, _, performance⟩ |
      ⟨_, _, _, _, _, cancelled⟩
  · rwa [same]
  · rw [home]
    exact buttonAgrees_of_same h (by simp [shown, ScreenState.button, s.updateUI_isListening]) rfl
  · rw [performance]
    exact buttonAgrees_of_same h (by simp [shown, ScreenState.button]) rfl
  · rw [cancelled]
    exact h

theorem buttonAgrees_toggleListening {s : HomeScreenState} (shown : a.shown = .home s) (h : a.ButtonAgrees) :
    (a.toggleListening s).ButtonAgrees ↔ ButtonFollows a .toggleListening := by
  have agrees : s.isListening = a.service.isListening := h s.isListening (by simp [shown, ScreenState.button])
  cases on : s.isListening with
  | false =>
    have off : a.service.isListening = false := agrees.symm.trans on
    simp [App.toggleListening, HomeScreenState.toggleListening, on, App.ButtonAgrees, ScreenState.button,
      HomeScreenState.startUIUpdate, ButtonFollows, isListening_start _ off, shown]
  | true =>
    simp [App.toggleListening, HomeScreenState.toggleListening, on, App.ButtonAgrees, ScreenState.button,
      ButtonFollows, isListening_stop, shown]

theorem buttonAgrees_selectTab (h : a.ButtonAgrees) (tab : Tab) :
    (a.selectTab tab).ButtonAgrees ↔ ButtonFollows a (.selectTab tab) := by
  simp only [App.selectTab, ButtonFollows]
  by_cases same : tab = a.shown.tab
  · simp only [same, if_true]
    exact iff_of_true h fun home other => absurd home other
  · simp only [same, if_false]
    cases tab with
    | home =>
      have other : a.shown.tab ≠ .home := Ne.symm same
      constructor
      · intro agrees _ _
        exact (agrees false rfl).symm
      · rintro quiet shows ⟨⟩
        exact (quiet rfl other).symm
    | performance => simp [App.ButtonAgrees, Tab.createState, ScreenState.button]
    | settings => simp [App.ButtonAgrees, Tab.createState, ScreenState.button]

theorem buttonAgrees_switched (h : a.ButtonAgrees) (k : Nat) : (a.switched k).1.ButtonAgrees := by
  obtain ⟨taps, eq⟩ := a.switched_state k
  rw [eq]
  exact h

/-- A microphone tap hits nothing on another screen than the home screen. -/
theorem buttonFollows_missed {e : AppEvent Metric} (tap : ∀ s, e = .toggleListening → a.shown = .home s → False)
    (stay : ∀ tab, e = .selectTab tab → False) : ButtonFollows a e := by
  cases e with
  | toggleListening =>
    intro off
    cases shown : a.shown with
    | home s => exact (tap s rfl shown).elim
    | _ => simp [shown, ScreenState.button] at off
  | selectTab tab => exact (stay tab rfl).elim
  | _ => trivial

/-- Only a microphone tap and a tab change can set the two flags apart. -/
theorem buttonAgrees_next_iff (a : App Metric) (e : AppEvent Metric) (h : a.ButtonAgrees) :
    (a.next e).ButtonAgrees ↔ ButtonFollows a e := by
  unfold App.next App.step
  split
  next i e => exact iff_of_true (buttonAgrees_of_same h rfl (isListening_step a.service i e)) trivial
  next timer => exact iff_of_true (buttonAgrees_of_same h rfl (isListening_other a.service (by simp))) trivial
  next tab => exact buttonAgrees_selectTab h tab
  next t newMetric => exact iff_of_true (buttonAgrees_onTimer h t newMetric) trivial
  next k => exact iff_of_true (buttonAgrees_switched h k) trivial
  next s shown => exact buttonAgrees_toggleListening shown h
  next s shown => exact iff_of_true (buttonAgrees_of_same h (by rw [shown]; rfl) rfl) trivial
  next s shown => exact iff_of_true (buttonAgrees_of_same h (by rw [shown]; rfl) rfl) trivial
  next value s shown =>
    refine iff_of_true ?_ trivial
    split
    next => exact buttonAgrees_of_same h rfl (isListening_other a.service (by simp))
    next => exact h
  next value s shown => exact iff_of_true (buttonAgrees_of_same h (by rw [shown]; rfl) rfl) trivial
  next s shown =>
    have service := isListening_other a.service (k := .setModelType modelInt8) (by simp)
    exact iff_of_true (buttonAgrees_of_same h (by rw [shown]; rfl) service) trivial
  next => exact iff_of_true h (buttonFollows_missed (by assumption) (by assumption))

end Step

/-- In every order of taps, tab changes, timer ticks and steps of the service, the button of the mounted home
screen shows in every state what the service does exactly when it is switched on only while the
service is initialised and the screen is opened only while the service is not listening. -/
theorem button_shows_listening_iff (events : List (AppEvent Metric)) :
    (∀ a ∈ Runs.states App.next App.initial events, a.ButtonAgrees) ↔
      Runs.Along App.next ButtonFollows App.initial events := by
  have start : (App.initial : App Metric).ButtonAgrees := by
    rintro shows ⟨⟩
    rfl
  exact Runs.forall_states_iff_along (I := fun _ => True) (fun _ _ _ => trivial)
    (fun a e _ h => buttonAgrees_next_iff a e h) trivial start events

/-- The microphone is tapped while the model is still loading: the service refuses to start, and the button
shows that it listens. -/
theorem early_tap_shows_listening :
    ¬ ∀ (events : List (AppEvent Unit)), ∀ a ∈ Runs.states App.next App.initial events, a.ButtonAgrees := by
  intro all
  have last := all [.toggleListening] _ (Runs.run_mem_states _ _)
  exact absurd (last true rfl) (by decide)

end AuroraVoice
