import AuroraVoice.Listening

namespace AuroraVoice

/-- An inference that a tick has queued and whose result is not stored yet. -/
def Task.inferring : Task → Bool
  | .blocked _ .runInference => true
  | .ready _ .runInference => true
  | _ => false

/-- The next step of the call assigns `inferenceResult`. -/
def Task.stores : Task → Bool
  | .ready (.result _) .runInference => true
  | _ => false

/-- `stopListening`, also from `toggleListening` and from `dispose`. -/
def Call.stops (m : Machine) : Call → Bool
  | .stopListening => true
  | .dispose => true
  | .toggleListening => m.service.isInitialized && m.service.isListening
  | _ => false

def Stores (c : Config) : Label → Prop
  | .step i _ => ∃ t ∈ c.tasks[i]?, t.stores = true
  | .call _ => False

/-- Listening is stopped only while no inference is pending. -/
def StopsIdle (c : Config) : Label → Prop
  | .call k => k.stops c.state = true → ∀ t ∈ c.tasks, t.inferring = false
  | .step _ _ => True

instance decidableStopsIdle (c : Config) : ∀ l, Decidable (StopsIdle c l)
  | .call k => inferInstanceAs (Decidable (k.stops c.state = true → ∀ t ∈ c.tasks, t.inferring = false))
  | .step _ _ => isTrue trivial

/-- While `isListening` is false, as it is from every stop to the next start, the step leaves
`inferenceResult` alone. -/
def SilentWhenStopped (c : Config) (l : Label) : Prop :=
  c.state.service.isListening = false →
    ¬ Stores c l ∧ (c.next l).state.service.inferenceResult = c.state.service.inferenceResult

section Inferring

theorem Task.inferring_of_stores {t : Task} (h : t.stores = true) : t.inferring = true := by
  unfold Task.stores at h
  split at h
  next => rfl
  next => cases h

theorem Caller.give_inferring (c : Caller) (b : Bool) : (c.give b).inferring = false := by
  cases c <;> rfl

theorem Machine.initModel_inferring (m : Machine) (c : Caller) : (m.initModel c).2.inferring = false := by
  unfold Machine.initModel
  split <;> rfl

theorem resume_inferring (e : Environment) (k : Cont) (r : Reply) (m : Machine) :
    (resume e k r m).2.inferring = false := by
  unfold resume
  split
  all_goals first
    | rfl
    | exact Caller.give_inferring _ _
    | exact Machine.initModel_inferring _ _
    | (unfold Machine.deleteCurrent; split <;> rfl)
    | (split <;> rfl)

theorem advance_inferring {e : Environment} {m : Machine} {t : Task} (h : t.inferring = false) :
    (advance e m t).2.inferring = false := by
  cases t with
  | blocked op k => cases k <;> first | rfl | cases h
  | ready r k => exact resume_inferring e k r m
  | done c => rfl

/-- Only the tick of a live timer queues an inference. -/
theorem start_inferring {m : Machine} {k : Call} (h : (m.start k).2.inferring = true) :
    ∃ timer, k = .tick timer ∧ timer ∈ m.world.timers := by
  cases k with
  | initModel => simp [Machine.start, Machine.initModel_inferring] at h
  | switchModel newType =>
    simp only [Machine.start, Machine.switchModel] at h
    split at h
    next => cases h
    next =>
      split at h
      next => cases h
      next =>
        split at h
        next => cases h
        next => simp [Machine.switchModelInit, Machine.initModel_inferring] at h
  | dispose =>
    simp only [Machine.start, Machine.dispose] at h
    split at h <;> cases h
  | tick timer =>
    simp only [Machine.start, Machine.tick] at h
    split at h
    next live => exact ⟨timer, rfl, live.1⟩
    next => cases h
  | _ => cases h

end Inferring

section Result

theorem resume_result {e : Environment} {k : Cont} {r : Reply} {m : Machine}
    (h : (Task.ready r k).stores = false) :
    (resume e k r m).1.service.inferenceResult = m.service.inferenceResult := by
  unfold resume
  split
  all_goals first
    | rfl
    | rw [Machine.deleteCurrent_fst]
    | rw [Machine.switchModelInit_fst]
    | cases h
    | (split <;> rfl)

theorem start_result (m : Machine) (k : Call) :
    (m.start k).1.service.inferenceResult = m.service.inferenceResult := by
  cases k with
  | initModel => exact congrArg (·.service.inferenceResult) (m.initModel_fst .direct)
  | switchModel newType =>
    rcases m.switchModel_state newType with same | ⟨type, eq⟩
    · exact congrArg (·.service.inferenceResult) same
    · simp [Machine.start, eq]
  | dispose =>
    obtain ⟨initialized, ffi, eq⟩ := m.dispose_state
    simp [Machine.start, eq, Machine.stopListening]
  | setModelType type =>
    simp only [Machine.start, Machine.setModelType]
    split <;> rfl
  | startListening =>
    simp only [Machine.start, Machine.startListening]
    split <;> rfl
  | stopListening => rfl
  | toggleListening =>
    simp only [Machine.start, Machine.toggleListening, Machine.startListening]
    split
    next => rfl
    next => split <;> rfl
  | tick timer =>
    simp only [Machine.start, Machine.tick]
    split <;> rfl

/-- `inferenceResult` is assigned by no other step. -/
theorem next_result {c : Config} {l : Label} (h : ¬ Stores c l) :
    (c.next l).state.service.inferenceResult = c.state.service.inferenceResult := by
  cases l with
  | call k => exact start_result c.state k
  | step i e =>
    cases ht : c.tasks[i]? with
    | none => rw [Config.next, Pool.next_idle ht]
    | some t =>
      have quiet : t.stores = false := by simpa [Stores, ht] using h
      rw [Config.next, Pool.next_step ht]
      cases t with
      | blocked op k => rfl
      | ready r k => exact resume_result quiet
      | done r => rfl

end Result

section Silent

/-- A stopped service has no live timer and no inference in flight. -/
structure Settled (c : Config) : Prop where
  consistent : c.state.clock.Consistent
  oneTimer : c.state.clock.OneTimer
  idle : c.state.service.isListening = false → ∀ t ∈ c.tasks, t.inferring = false

/-- Only a stop ends the listening. -/
theorem start_isListening {m : Machine} {k : Call} (h : (m.start k).1.service.isListening = false)
    (on : m.service.isListening = true) : k.stops m = true := by
  have clock := congrArg Clock.isListening (start_clock m k)
  change (m.start k).1.service.isListening = _ at clock
  rw [h] at clock
  cases k with
  | stopListening => rfl
  | dispose => rfl
  | toggleListening =>
    cases hi : m.service.isInitialized with
    | false => simp [Machine.clock, Machine.toggleListening, hi, on] at clock
    | true => simp [Call.stops, hi, on]
  | startListening =>
    simp only [Machine.startListening] at clock
    split at clock <;> simp [Machine.clock, on] at clock
  | _ => simp [Machine.clock, on] at clock

theorem Settled.call {c : Config} (h : Settled c) {k : Call} (starts : StartsOnce c (.call k))
    (stops : StopsIdle c (.call k)) : Settled (c.next (.call k)) := by
  refine ⟨next_consistent c _ h.consistent, (oneTimer_next_iff c _ h.consistent h.oneTimer).mpr starts, ?_⟩
  intro off t ht
  rcases List.mem_append.mp ht with old | new
  · cases on : c.state.service.isListening with
    | false => exact h.idle on t old
    | true => exact stops (start_isListening off on) t old
  · rw [List.mem_singleton] at new
    rw [new, ← Bool.not_eq_true]
    intro inferring
    obtain ⟨timer, rfl, live⟩ := start_inferring inferring
    -- a timer is live, so the service is listening and a tick does not change that
    have clock := start_clock c.state (.tick timer)
    have listening : c.state.service.isListening = false := (congrArg Clock.isListening clock).symm.trans off
    have none : c.state.world.timers.length = 0 := by
      simpa [Clock.OneTimer, Machine.clock, listening] using h.oneTimer
    rw [List.length_eq_zero_iff.mp none] at live
    cases live

theorem Settled.step {c : Config} (h : Settled c) (i : Nat) (e : Environment) : Settled (c.next (.step i e)) := by
  have clock := step_clock c i e
  refine ⟨clock ▸ h.consistent, clock ▸ h.oneTimer, fun off t ht => ?_⟩
  have listening : c.state.service.isListening = false := (congrArg Clock.isListening clock).symm.trans off
  have idle := h.idle listening
  cases hu : c.tasks[i]? with
  | none =>
    rw [Config.next, Pool.next_idle hu] at ht
    exact idle t ht
  | some u =>
    rw [Config.next, Pool.next_step hu] at ht
    rcases List.mem_or_eq_of_mem_set ht with old | rfl
    · exact idle t old
    · exact advance_inferring (idle u (List.mem_of_getElem? hu))

theorem Settled.silent {c : Config} (h : Settled c) (l : Label) : SilentWhenStopped c l := by
  intro off
  have quiet : ¬ Stores c l := by
    cases l with
    | call k => exact id
    | step i e =>
      rintro ⟨t, ht, stores⟩
      have idle := h.idle off t (List.mem_of_getElem? ht)
      rw [Task.inferring_of_stores stores] at idle
      cases idle
  exact ⟨quiet, next_result quiet⟩

end Silent

/-- In every run in which `startListening` runs only while the service does not listen, and every stop
is made while no inference is pending, nothing is stored in `inferenceResult` between a stop and
the next start. -/
theorem stop_means_stop (labels : List Label) (starts : Runs.Along Config.next StartsOnce Config.initial labels)
    (stops : Runs.Along Config.next StopsIdle Config.initial labels) :
    Runs.Along Config.next SilentWhenStopped Config.initial labels := by
  have start : Settled Config.initial :=
    ⟨⟨rfl, fun t ht => by cases ht⟩, rfl, fun _ t ht => by cases ht⟩
  refine Runs.along_invariant (I := Settled) (fun c l h ok => ?_) (fun c l h _ => h.silent l) start
    (Runs.along_and starts stops)
  cases l with
  | call k => exact h.call ok.1 ok.2
  | step i e => exact h.step i e

theorem stop_after_inference_silent : Runs.Along Config.next SilentWhenStopped Config.initial
    (.call .initModel :: List.replicate 13 (.step 0 Environment.fine) ++ [.call .startListening, .call (.tick 0),
      .step 2 Environment.fine, .step 2 Environment.fine, .call .stopListening, .step 2 Environment.fine]) :=
  stop_means_stop _ (by decide) (by decide)

/-- The tick has queued its inference when listening is stopped; the event runs all the same and
stores its result. -/
theorem queued_inference_stores_after_stop :
    ¬ ∀ labels : List Label, Runs.Along Config.next StartsOnce Config.initial labels →
      Runs.Along Config.next SilentWhenStopped Config.initial labels := by
  intro all
  have silent := all ((.call .initModel :: List.replicate 13 (.step 0 Environment.fine) ++
    [.call .startListening, .call (.tick 0), .call .stopListening, .step 2 Environment.fine]) ++
      [.step 2 Environment.fine]) (by decide)
  have last := ((Runs.along_append _ _ _).mp silent).2.1 (by decide)
  exact last.1 ⟨.ready (.result (-1)) .runInference, by decide, rfl⟩

end AuroraVoice
