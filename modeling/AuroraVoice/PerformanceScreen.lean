import AuroraVoice.Runs
import AuroraVoice.Timers
import AuroraVoice.Window

namespace AuroraVoice

/-- The fields of a `_PerformanceScreenState`; a metric is random, so any value can come. -/
structure PerformanceScreenState (Metric : Type) where
  metrics : List Metric
  currentMetric : Option Metric
  isMonitoring : Bool
  frameCount : Nat
  monitoringTimer : Option Nat

variable {Metric α : Type}

namespace PerformanceScreenState

def initial : PerformanceScreenState Metric := ⟨[], none, false, 0, none⟩

def startMonitoring (s : PerformanceScreenState Metric) (owner : α) (timers : Timers α) :
    PerformanceScreenState Metric × Timers α :=
  let timers := timers.cancel s.monitoringTimer
  ({ s with monitoringTimer := some timers.next }, timers.periodic owner)

def toggleMonitoring (s : PerformanceScreenState Metric) (owner : α) (timers : Timers α) :
    PerformanceScreenState Metric × Timers α :=
  let s := { s with isMonitoring := !s.isMonitoring }
  if s.isMonitoring then s.startMonitoring owner timers
  else (s, timers.cancel s.monitoringTimer)

/-- What the timer callback does in its `setState`. -/
def addMetric (s : PerformanceScreenState Metric) (newMetric : Metric) : PerformanceScreenState Metric :=
  let metrics := s.metrics ++ [newMetric]
  { s with
    currentMetric := some newMetric
    metrics := if 200 < metrics.length then metrics.tail else metrics
    frameCount := s.frameCount + 1 }

/-- The callback of the periodic timer. -/
def onTimer (s : PerformanceScreenState Metric) (timer : Nat) (newMetric : Metric) (timers : Timers α) :
    PerformanceScreenState Metric × Timers α :=
  if !s.isMonitoring then (s, timers.cancel (some timer))
  else (s.addMetric newMetric, timers)

def resetMetrics (s : PerformanceScreenState Metric) : PerformanceScreenState Metric :=
  { s with metrics := [], currentMetric := none, frameCount := 0 }

def dispose (s : PerformanceScreenState Metric) (timers : Timers α) : Timers α := timers.cancel s.monitoringTimer

end PerformanceScreenState

def takeLast (xs : List α) (n : Nat) : List α := if xs.length ≤ n then xs else xs.drop (xs.length - n)

/-- The bars of the chart. -/
def PerformanceScreenState.chart (s : PerformanceScreenState Metric) : List Metric := takeLast s.metrics 100

theorem takeLast_eq (xs : List α) (n : Nat) : takeLast xs n = xs.drop (xs.length - n) := by
  unfold takeLast
  split
  next short => rw [Nat.sub_eq_zero_of_le short, List.drop_zero]
  next => rfl

section Timer

variable {s : PerformanceScreenState Metric} {timers : Timers α} {owner : α}

/-- The screen's timer runs exactly while it monitors. -/
def PerformanceScreenState.Timed (s : PerformanceScreenState Metric) (owner : α) (timers : Timers α) : Prop :=
  timers.Single s.isMonitoring s.monitoringTimer owner

theorem PerformanceScreenState.Timed.toggleMonitoring (h : s.Timed owner timers) :
    (s.toggleMonitoring owner timers).1.Timed owner (s.toggleMonitoring owner timers).2 := by
  have cancelled : (timers.cancel s.monitoringTimer).live = [] := Timers.Single.cancel h
  unfold PerformanceScreenState.toggleMonitoring
  cases on : s.isMonitoring with
  | false => exact Timers.periodic_single cancelled owner
  | true => exact cancelled

theorem PerformanceScreenState.onTimer_on (on : s.isMonitoring = true) (timer : Nat) (newMetric : Metric)
    (timers : Timers α) : s.onTimer timer newMetric timers = (s.addMetric newMetric, timers) := by
  simp [onTimer, on]

theorem PerformanceScreenState.Timed.addMetric (h : s.Timed owner timers) (newMetric : Metric) :
    (s.addMetric newMetric).Timed owner timers := h

theorem PerformanceScreenState.Timed.resetMetrics (h : s.Timed owner timers) : s.resetMetrics.Timed owner timers := h

end Timer

/-- One `_PerformanceScreenState` through its life. -/
structure Monitor (Metric : Type) where
  screen : PerformanceScreenState Metric
  timers : Timers Unit
  disposed : Bool

inductive MonitorEvent (Metric : Type)
  | toggleMonitoring
  | resetMetrics
  | tick (timer : Nat) (newMetric : Metric)
  | dispose
  deriving DecidableEq

namespace Monitor

def initial : Monitor Metric := ⟨PerformanceScreenState.initial, Timers.none, false⟩

def next (m : Monitor Metric) : MonitorEvent Metric → Monitor Metric
  | .toggleMonitoring =>
    { m with screen := (m.screen.toggleMonitoring () m.timers).1, timers := (m.screen.toggleMonitoring () m.timers).2 }
  | .resetMetrics => { m with screen := m.screen.resetMetrics }
  | .tick timer newMetric =>
    { m with
      screen := (m.screen.onTimer timer newMetric m.timers).1, timers := (m.screen.onTimer timer newMetric m.timers).2 }
  | .dispose => { m with timers := m.screen.dispose m.timers, disposed := true }

/-- Only live timers fire, and the framework delivers taps, and `dispose` once, to a State that is not disposed. -/
def Possible (m : Monitor Metric) : MonitorEvent Metric → Prop
  | .tick timer _ => m.timers.owner? timer = some ()
  | _ => m.disposed = false

instance decidablePossible (m : Monitor Metric) : ∀ e, Decidable (m.Possible e)
  | .tick timer _ => inferInstanceAs (Decidable (m.timers.owner? timer = some ()))
  | .toggleMonitoring => inferInstanceAs (Decidable (m.disposed = false))
  | .resetMetrics => inferInstanceAs (Decidable (m.disposed = false))
  | .dispose => inferInstanceAs (Decidable (m.disposed = false))

end Monitor

/-- The unbounded log: a reset empties it, and every tick adds its metric. -/
def MonitorEvent.log (log : List Metric) : MonitorEvent Metric → List Metric
  | .resetMetrics => []
  | .tick _ newMetric => log ++ [newMetric]
  | _ => log

/-- The metrics of all ticks since the last reset. -/
def recorded (events : List (MonitorEvent Metric)) : List Metric := Runs.run MonitorEvent.log [] events

/-- What the screen keeps of the log. -/
structure PerformanceScreenState.Keeps (s : PerformanceScreenState Metric) (log : List Metric) : Prop where
  metrics : Window.IsLast 200 log s.metrics
  frameCount : s.frameCount = log.length
  currentMetric : s.currentMetric = log.getLast?

/-- The timer is live exactly while the State is not disposed and monitors, so there is nothing
else that could tick. -/
structure Monitor.Shows (m : Monitor Metric) (log : List Metric) : Prop where
  keeps : m.screen.Keeps log
  chart : Window.IsLast 100 log m.screen.chart
  oneTimer : m.timers.live.length = if !m.disposed && m.screen.isMonitoring then 1 else 0
  ticks : ∀ timer newMetric, m.Possible (.tick timer newMetric) → m.disposed = false ∧ m.screen.isMonitoring = true

section Refinement

variable {s : PerformanceScreenState Metric} {m : Monitor Metric} {log : List Metric}

theorem PerformanceScreenState.Keeps.addMetric (h : s.Keeps log) (newMetric : Metric) :
    (s.addMetric newMetric).Keeps (log ++ [newMetric]) := by
  refine ⟨h.metrics.push newMetric, ?_, by simp [PerformanceScreenState.addMetric]⟩
  simp [PerformanceScreenState.addMetric, h.frameCount]

theorem PerformanceScreenState.Keeps.resetMetrics (s : PerformanceScreenState Metric) : s.resetMetrics.Keeps [] :=
  ⟨Window.isLast_nil 200, rfl, rfl⟩

theorem PerformanceScreenState.Keeps.toggleMonitoring (h : s.Keeps log) (owner : α) (timers : Timers α) :
    (s.toggleMonitoring owner timers).1.Keeps log := by
  unfold PerformanceScreenState.toggleMonitoring
  dsimp only
  split
  next => exact ⟨h.metrics, h.frameCount, h.currentMetric⟩
  next => exact ⟨h.metrics, h.frameCount, h.currentMetric⟩

/-- The invariant: while the State lives its one timer is the one in `_monitoringTimer`. -/
structure Monitor.Refines (m : Monitor Metric) (log : List Metric) : Prop where
  keeps : m.screen.Keeps log
  timed : m.disposed = false → m.screen.Timed () m.timers
  stopped : m.disposed = true → m.timers.live = []

theorem Monitor.Refines.fires (h : m.Refines log) {timer : Nat} (live : m.timers.owner? timer = some ()) :
    m.disposed = false ∧ m.screen.isMonitoring = true := by
  cases disposed : m.disposed with
  | true => simp [Timers.owner?, h.stopped disposed] at live
  | false => exact ⟨rfl, (Timers.Single.fires_for (h.timed disposed) live).1⟩

theorem Monitor.Refines.next (h : m.Refines log) {e : MonitorEvent Metric} (possible : m.Possible e) :
    (m.next e).Refines (e.log log) := by
  cases e with
  | toggleMonitoring =>
    have live : m.disposed = false := possible
    have timed := (h.timed live).toggleMonitoring
    refine ⟨h.keeps.toggleMonitoring () m.timers, fun _ => timed, fun disposed => ?_⟩
    cases live.symm.trans disposed
  | resetMetrics => exact ⟨.resetMetrics m.screen, fun live => (h.timed live).resetMetrics, h.stopped⟩
  | tick timer newMetric =>
    obtain ⟨live, on⟩ := h.fires possible
    have eq := PerformanceScreenState.onTimer_on on timer newMetric m.timers
    simp only [Monitor.next, eq]
    exact ⟨h.keeps.addMetric newMetric, fun live => (h.timed live).addMetric newMetric, h.stopped⟩
  | dispose =>
    have cancelled := Timers.Single.cancel (h.timed possible)
    exact ⟨h.keeps, nofun, fun _ => cancelled⟩

theorem Monitor.Refines.shows (h : m.Refines log) : m.Shows log := by
  refine ⟨h.keeps, ?_, ?_, fun timer _ live => h.fires live⟩
  · unfold PerformanceScreenState.chart
    rw [takeLast_eq]
    exact h.keeps.metrics.shorter (by decide)
  · cases disposed : m.disposed with
    | true => simp [h.stopped disposed]
    | false => simpa using Timers.Single.length (h.timed disposed)

end Refinement

/-- In every order of toggles, resets, ticks and the final `dispose`, the screen shows the last 200 metrics
of the log, counts all of them, and charts the last 100. -/
theorem monitor_refines_log (events : List (MonitorEvent Metric))
    (possible : Runs.Along Monitor.next Monitor.Possible Monitor.initial events) :
    (Runs.run Monitor.next Monitor.initial events).Shows (recorded events) := by
  have start : (Monitor.initial : Monitor Metric).Refines [] := ⟨⟨Window.isLast_nil 200, rfl, rfl⟩, fun _ => rfl, nofun⟩
  have keep : ∀ (m : Monitor Metric) (log : List Metric) (e : MonitorEvent Metric), m.Refines log → m.Possible e →
      (m.next e).Refines (e.log log) := fun m log e h ok => h.next ok
  exact (Runs.simulation keep start possible).shows

theorem toggled_twice_refines_log :
    (Runs.run Monitor.next Monitor.initial [.toggleMonitoring, .tick 0 'a', .tick 0 'b', .resetMetrics, .tick 0 'c',
        .toggleMonitoring, .toggleMonitoring, .tick 1 'd', .dispose]).Shows ['c', 'd'] :=
  monitor_refines_log [.toggleMonitoring, .tick 0 'a', .tick 0 'b', .resetMetrics, .tick 0 'c',
    .toggleMonitoring, .toggleMonitoring, .tick 1 'd', .dispose] (by decide)

end AuroraVoice
