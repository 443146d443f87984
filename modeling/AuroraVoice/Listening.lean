import AuroraVoice.Interleaving

namespace AuroraVoice

structure Clock where
  isListening : Bool
  timer : Option Nat
  timers : List Nat

def Machine.clock (m : Machine) : Clock := ⟨m.service.isListening, m.service.timer, m.world.timers⟩

theorem World.unloadModel_timers (w : World) : w.unloadModel.timers = w.timers := by
  unfold unloadModel
  split <;> rfl

theorem World.loadModel_timers (w : World) (file : String) (o : LoadOutcome) :
    (w.loadModel file o).1.timers = w.timers := by
  unfold loadModel
  split <;> rfl

theorem perform_timers (e : Environment) (op : Op) (w : World) : (perform e op w).1.timers = w.timers := by
  unfold perform
  split <;> try split
  all_goals rfl

theorem Machine.switchModel_clock (m : Machine) (newType : String) :
    (m.switchModel newType).1.clock = m.clock := by
  rcases m.switchModel_state newType with same | ⟨type, eq⟩
  · rw [same]
  · simp [eq, clock, World.unloadModel_timers]

theorem resume_clock (e : Environment) (k : Cont) (r : Reply) (m : Machine) :
    (resume e k r m).1.clock = m.clock := by
  unfold resume
  split
  all_goals first
    | rfl
    | rw [Machine.deleteCurrent_fst]
    | rw [Machine.switchModelInit_fst]; rfl
    | exact congrArg (Clock.mk _ _) (World.loadModel_timers _ _ _)
    | split <;> rfl

theorem advance_clock (e : Environment) (m : Machine) (t : Task) : (advance e m t).1.clock = m.clock := by
  cases t with
  | blocked op k => simp [advance, Machine.clock, perform_timers]
  | ready r k => exact resume_clock e k r m
  | done c => rfl

theorem step_clock (c : Config) (i : Nat) (e : Environment) : (c.next (.step i e)).state.clock = c.state.clock := by
  cases ht : c.tasks[i]? with
  | none => rw [Config.next, Pool.next_idle ht]
  | some t =>
    rw [Config.next, Pool.next_step ht]
    exact advance_clock e c.state t

theorem Machine.dispose_clock (m : Machine) : m.dispose.1.clock = m.stopListening.clock := by
  obtain ⟨initialized, ffi, eq⟩ := m.dispose_state
  simp [eq, clock, World.unloadModel_timers]

theorem start_clock (m : Machine) (k : Call) : (m.start k).1.clock =
    match k with
    | .startListening => m.startListening.clock
    | .toggleListening => m.toggleListening.clock
    | .stopListening => m.stopListening.clock
    | .dispose => m.stopListening.clock
    | _ => m.clock := by
  cases k with
  | initModel => exact congrArg Machine.clock (m.initModel_fst .direct)
  | switchModel newType => exact m.switchModel_clock newType
  | setModelType type =>
    simp only [Machine.start, Machine.setModelType]
    split <;> rfl
  | dispose => exact m.dispose_clock
  | tick timer =>
    simp only [Machine.start, Machine.tick]
    split <;> rfl
  | _ => rfl

/-- `isListening` and `_timer` agree, and `_timer` is a live timer. -/
def Clock.Consistent (k : Clock) : Prop :=
  k.isListening = k.timer.isSome ∧ ∀ t, k.timer = some t → t ∈ k.timers

def Clock.OneTimer (k : Clock) : Prop := k.timers.length = bif k.isListening then 1 else 0

theorem stopListening_consistent (m : Machine) : m.stopListening.clock.Consistent :=
  ⟨rfl, by simp [Machine.clock, Machine.stopListening]⟩

theorem startListening_consistent {m : Machine} (h : m.clock.Consistent) :
    m.startListening.clock.Consistent := by
  unfold Machine.startListening
  split
  next => exact h
  next => exact ⟨rfl, by simp [Machine.clock]⟩

theorem toggleListening_consistent {m : Machine} (h : m.clock.Consistent) :
    m.toggleListening.clock.Consistent := by
  unfold Machine.toggleListening
  split
  next => exact h
  next =>
    split
    next => exact stopListening_consistent m
    next => exact startListening_consistent h

theorem next_consistent (c : Config) (l : Label) (h : c.state.clock.Consistent) :
    (c.next l).state.clock.Consistent := by
  refine Pool.next_state (S := calls) (G := fun m => m.clock.Consistent) (fun m k hm => ?_)
    (fun e m t hm => ?_) l h
  · change (m.start k).1.clock.Consistent
    rw [start_clock]
    cases k with
    | startListening => exact startListening_consistent hm
    | toggleListening => exact toggleListening_consistent hm
    | stopListening => exact stopListening_consistent m
    | dispose => exact stopListening_consistent m
    | _ => exact hm
  · change (advance e m t).1.clock.Consistent
    rw [advance_clock]
    exact hm

theorem stopListening_oneTimer {m : Machine} (hc : m.clock.Consistent) (h : m.clock.OneTimer) :
    m.stopListening.clock.OneTimer := by
  obtain ⟨flag, live⟩ := hc
  simp only [Machine.clock, Clock.OneTimer] at h flag live
  simp only [Machine.clock, Clock.OneTimer, Machine.stopListening, World.cancelTimer]
  cases ht : m.service.timer with
  | none =>
    rw [ht] at flag
    rw [flag] at h
    simp_all
  | some t =>
    -- the one live timer is `_timer`, which is cancelled
    rw [flag, ht] at h
    obtain ⟨u, hu⟩ := List.length_eq_one_iff.mp h
    have mem := live t ht
    rw [hu, List.mem_singleton] at mem
    simp [hu, mem]

theorem startListening_oneTimer_iff {m : Machine} (h : m.clock.OneTimer) :
    m.startListening.clock.OneTimer ↔ (m.service.isInitialized = true → m.service.isListening = false) := by
  simp only [Machine.clock, Clock.OneTimer] at h
  cases hi : m.service.isInitialized with
  | false => simpa [Machine.startListening, hi, Clock.OneTimer, Machine.clock] using h
  | true =>
    simp only [Machine.startListening, hi, Clock.OneTimer, Machine.clock]
    cases hl : m.service.isListening <;> simp_all

theorem toggleListening_oneTimer {m : Machine} (hc : m.clock.Consistent) (h : m.clock.OneTimer) :
    m.toggleListening.clock.OneTimer := by
  unfold Machine.toggleListening
  split
  next => exact h
  next =>
    split
    next => exact stopListening_oneTimer hc h
    next hl => exact (startListening_oneTimer_iff h).mpr fun _ => by simpa using hl

/-- `startListening` gets past its guard only while the service is not listening. -/
def StartsOnce (c : Config) (l : Label) : Prop :=
  l = .call .startListening → c.state.service.isInitialized = true → c.state.service.isListening = false

instance decidableStartsOnce (c : Config) : ∀ l, Decidable (StartsOnce c l)
  | .call k =>
    if h : k = .startListening then
      decidable_of_iff (c.state.service.isInitialized = true → c.state.service.isListening = false)
        (by simp [StartsOnce, h])
    else isTrue fun eq => absurd (Pool.Label.call.inj eq) h
  | .step _ _ => isTrue nofun

theorem oneTimer_next_iff (c : Config) (l : Label) (hc : c.state.clock.Consistent)
    (h : c.state.clock.OneTimer) : (c.next l).state.clock.OneTimer ↔ StartsOnce c l := by
  cases l with
  | call k =>
    change (c.state.start k).1.clock.OneTimer ↔ _
    rw [start_clock]
    cases k with
    | startListening =>
      simp only [StartsOnce, true_implies]
      exact startListening_oneTimer_iff h
    | toggleListening => exact iff_of_true (toggleListening_oneTimer hc h) (by simp [StartsOnce])
    | stopListening => exact iff_of_true (stopListening_oneTimer hc h) (by simp [StartsOnce])
    | dispose => exact iff_of_true (stopListening_oneTimer hc h) (by simp [StartsOnce])
    | _ => exact iff_of_true h (by simp [StartsOnce])
  | step i e =>
    refine iff_of_true ?_ (by simp [StartsOnce])
    rwa [step_clock]

/-- In every interleaving of any calls and any outcomes there is one timer while listening and none
otherwise, in every state, exactly when no `startListening` runs while the service listens. -/
theorem one_timer_iff_startsOnce (labels : List Label) :
    (∀ c ∈ Runs.states Config.next Config.initial labels, c.state.clock.OneTimer) ↔
      Runs.Along Config.next StartsOnce Config.initial labels := by
  have consistent : Config.initial.state.clock.Consistent := ⟨rfl, fun t ht => by cases ht⟩
  exact Runs.forall_states_iff_along next_consistent oneTimer_next_iff consistent rfl labels

/-- Listening is started on the home screen, the tab is left and opened again, and the fresh screen
starts it once more. -/
theorem second_start_leaks_timer :
    ¬ ∀ c ∈ Runs.states Config.next Config.initial
        (.call .initModel :: List.replicate 13 (.step 0 Environment.fine) ++
          [.call .startListening, .call .startListening]), c.state.clock.OneTimer := by
  intro all
  have last := all _ (Runs.run_mem_states _ _)
  revert last
  unfold Clock.OneTimer
  decide

end AuroraVoice
