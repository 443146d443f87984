import AuroraVoice.Screens

namespace AuroraVoice

variable {Metric α : Type}

/-- Every State on which the event calls `setState` is mounted. -/
def SetsMounted (a : App Metric) (e : AppEvent Metric) : Prop := ∀ id ∈ (a.step e).2, a.mounted id = true

/-- A model option tap whose `switchModel` returned true goes on while its settings screen is mounted. -/
def SwitchedMounted (a : App Metric) : AppEvent Metric → Prop
  | .switched k => ∀ i id, a.taps[k]? = some (i, id) → a.service.tasks[i]? = some (.done (.value true)) →
      a.mounted id = true
  | _ => True

/-- The only live timer is the one in the State's own field, and it runs while the State wants it. -/
def ScreenState.Timed (owner : α) (timers : Timers α) : ScreenState Metric → Prop
  | .home s => timers.Single s.isListening s.timer owner
  | .performance s => s.Timed owner timers
  | .settings _ => timers.live = []

def App.Timed (a : App Metric) : Prop := a.shown.Timed a.shownId a.timers

section Timers

variable {timers : Timers α} {owner : α}

theorem HomeScreenState.toggleListening_timed {s : HomeScreenState} (h : timers.Single s.isListening s.timer owner)
    (service : Config) : (s.toggleListening owner timers service).1.2.Single
      (s.toggleListening owner timers service).1.1.isListening
      (s.toggleListening owner timers service).1.1.timer owner := by
  unfold HomeScreenState.toggleListening
  cases on : s.isListening with
  | false =>
    rw [on] at h
    exact Timers.periodic_single h owner
  | true => exact h.cancel

/-- `dispose` leaves no timer behind. -/
theorem ScreenState.Timed.dispose {s : ScreenState Metric} (h : s.Timed owner timers) : (s.dispose timers).live = [] := by
  cases s with
  | home s => exact Timers.Single.cancel h
  | performance s => exact Timers.Single.cancel h
  | settings s => exact h

theorem Tab.createState_timed (tab : Tab) (h : timers.live = []) :
    (tab.createState : ScreenState Metric).Timed owner timers := by
  cases tab <;> exact h

/-- A timer that fires belongs to the State that is shown, and that State still wants it. -/
theorem ScreenState.Timed.fires_for {s : ScreenState Metric} (h : s.Timed owner timers) {t : Nat} {o : α}
    (fires : timers.owner? t = some o) : o = owner ∧ ∀ p, s = .performance p → p.isMonitoring = true := by
  cases s with
  | home s => exact ⟨(Timers.Single.fires_for h fires).2, nofun⟩
  | performance s =>
    obtain ⟨on, eq⟩ := Timers.Single.fires_for h fires
    refine ⟨eq, ?_⟩
    rintro p ⟨⟩
    exact on
  | settings s =>
    have empty : timers.live = [] := h
    simp [Timers.owner?, empty] at fires

end Timers

section Step

variable {a : App Metric}

theorem App.Timed.selectTab (h : a.Timed) (tab : Tab) : (a.selectTab tab).Timed := by
  unfold App.selectTab
  split
  next => exact h
  next => exact tab.createState_timed (ScreenState.Timed.dispose h)

theorem App.Timed.of_shown {s : ScreenState Metric} (h : a.Timed) (shown : a.shown = s) :
    s.Timed a.shownId a.timers := shown ▸ h

theorem App.Timed.onTimer (h : a.Timed) (t : Nat) (newMetric : Metric) : (a.onTimer t newMetric).1.Timed := by
  rcases a.onTimer_state t newMetric with same | ⟨s, shown, home⟩ | ⟨s, shown, _, performance⟩ |
      ⟨id, s, owner, found, off, _⟩
  · rwa [same]
  · have timed : a.timers.Single s.isListening s.timer a.shownId := h.of_shown shown
    rw [home]
    change a.timers.Single _ _ a.shownId
    rwa [s.updateUI_timer, s.updateUI_isListening]
  · have timed : s.Timed a.shownId a.timers := h.of_shown shown
    rw [performance]
    exact timed.addMetric newMetric
  · -- a timer of a State that does not monitor is not live
    obtain ⟨rfl, monitors⟩ := h.fires_for owner
    have shown := Option.some.inj ((App.state?_shown a.mounted_shownId).symm.trans found)
    cases off.symm.trans (monitors s shown)

theorem App.Timed.next (h : a.Timed) (e : AppEvent Metric) : (a.next e).Timed := by
  unfold App.next App.step
  split
  next => exact h
  next => exact h
  next tab => exact h.selectTab tab
  next t newMetric => exact h.onTimer t newMetric
  next k =>
    obtain ⟨taps, eq⟩ := a.switched_state k
    rw [eq]
    exact h
  next s shown => exact HomeScreenState.toggleListening_timed (h.of_shown shown) a.service
  next s shown => exact PerformanceScreenState.Timed.toggleMonitoring (h.of_shown shown)
  next s shown => exact PerformanceScreenState.Timed.resetMetrics (h.of_shown shown)
  next value s shown =>
    split
    next => exact h
    next => exact h
  next value s shown =>
    have empty : a.timers.live = [] := h.of_shown shown
    exact empty
  next s shown =>
    have empty : a.timers.live = [] := h.of_shown shown
    exact empty
  next => exact h

theorem setsMounted_onTimer (h : a.Timed) (t : Nat) (newMetric : Metric) :
    ∀ id ∈ (a.onTimer t newMetric).2, a.mounted id = true := by
  unfold App.onTimer
  split
  next => nofun
  next id owner =>
    obtain ⟨rfl, _⟩ := h.fires_for owner
    split
    next => simp [a.mounted_shownId]
    next =>
      dsimp only
      split <;> simp [a.mounted_shownId]
    next => nofun

/-- `onTap` looks at nothing but the result of `switchModel` before it calls `setState`. -/
theorem setsMounted_switched (a : App Metric) (k : Nat) :
    (∀ id ∈ (a.switched k).2, a.mounted id = true) ↔ SwitchedMounted a (.switched k) := by
  unfold App.switched SwitchedMounted
  split
  next none => simp [none]
  next i id tap =>
    constructor
    · intro all j other same returned
      obtain ⟨rfl, rfl⟩ := Prod.mk.inj (Option.some.inj (tap.symm.trans same))
      rw [returned] at all
      exact all id List.mem_cons_self
    · intro follows
      split
      next success returned =>
        cases success with
        | false => nofun
        | true =>
          rintro other (_ | ⟨_, ⟨⟩⟩)
          exact follows i id tap returned
      next => nofun
      next => nofun

theorem switchedMounted_other {e : AppEvent Metric} (h : ∀ k, e = .switched k → False) : SwitchedMounted a e := by
  cases e with
  | switched k => exact (h k rfl).elim
  | _ => trivial

theorem setsMounted_iff (a : App Metric) (e : AppEvent Metric) (h : a.Timed) :
    SetsMounted a e ↔ SwitchedMounted a e := by
  have shown : ∀ id ∈ [a.shownId], a.mounted id = true := by simp [a.mounted_shownId]
  unfold SetsMounted App.step
  split
  next => exact iff_of_true nofun trivial
  next => exact iff_of_true nofun trivial
  next => exact iff_of_true nofun trivial
  next t newMetric => exact iff_of_true (setsMounted_onTimer h t newMetric) trivial
  next k => exact setsMounted_switched a k
  next => exact iff_of_true shown trivial
  next => exact iff_of_true shown trivial
  next => exact iff_of_true shown trivial
  next => exact iff_of_true nofun trivial
  next => exact iff_of_true shown trivial
  next => exact iff_of_true shown trivial
  next => exact iff_of_true nofun (switchedMounted_other (by assumption))

end Step

/-- In every order of taps, tab changes, timer ticks and steps of the service, `setState` is called on mounted
States only, exactly when every model option tap whose switch succeeds goes on while its screen is
still mounted. -/
theorem set_state_mounted_iff (events : List (AppEvent Metric)) :
    Runs.Along App.next SetsMounted App.initial events ↔
      Runs.Along App.next SwitchedMounted App.initial events := by
  have start : (App.initial : App Metric).Timed := rfl
  exact Runs.along_congr (fun a e h => h.next e) setsMounted_iff start events

/-- The int8 model is chosen, and the settings tab is left before it is loaded. -/
theorem tab_left_during_switch : ¬ ∀ events : List (AppEvent Unit),
    Runs.Along App.next SetsMounted App.initial events := by
  intro all
  have mounted := all (List.replicate 13 (.serviceStep 0 Environment.fine) ++
    [.selectTab .settings, .modelOption modelInt8, .selectTab .home] ++
      List.replicate 17 (.serviceStep 1 Environment.fine) ++ [.switched 0])
  have last := ((Runs.along_append _ _ _).mp mounted).2.1
  exact absurd (last 1 (by decide)) (by decide)

end AuroraVoice
