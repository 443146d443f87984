import AuroraVoice.Instances

namespace AuroraVoice

/-- The flags of a service that only a call past `_initFfi` raises. -/
def VoiceService.engaged (s : VoiceService) : Bool := s.ffiInitialized || s.isInitialized || s.isListening

def Cont.engaged : Cont → Bool
  | .initFfi _ _ => true
  | .initModelFfi _ _ => true
  | .initModelAsset _ => true
  | .initModelWrite _ _ => true
  | .initModelExists _ _ => true
  | .initModelLength _ _ => true
  | .initModelLoad _ => true
  | .runInference => true
  | _ => false

/-- The call has got past `_initFfi`, or runs an inference. -/
def Task.engaged : Task → Bool
  | .blocked (.writeAsBytes _ _) _ => true
  | .blocked .runInference _ => true
  | .blocked _ k => k.engaged
  | .ready .threw (.initFfi _ _) => false
  | .ready .threw (.initModelFfi _ _) => false
  | .ready _ k => k.engaged
  | .done _ => false

section Step

variable {m : Machine}

theorem Task.blocked_engaged {op : Op} {k : Cont} (h : k.engaged = true) : (Task.blocked op k).engaged = true := by
  cases op with
  | writeAsBytes path data => rfl
  | runInference => rfl
  | _ => exact h

theorem Task.ready_engaged {r : Reply} {k : Cont} (hk : k.engaged = true) (hr : r ≠ .threw) :
    (Task.ready r k).engaged = true := by
  cases r with
  | threw => exact absurd rfl hr
  | _ => exact hk

theorem Task.engaged_of_ready {r : Reply} {k : Cont} (h : (Task.ready r k).engaged = true) : k.engaged = true := by
  cases r with
  | threw =>
    cases k with
    | initFfi c path => rfl
    | initModelFfi c path => rfl
    | _ => exact h
  | _ => exact h

theorem Caller.give_engaged (c : Caller) (b : Bool) : (c.give b).engaged = false := by
  cases c <;> rfl

/-- `initModel` skips `_initFfi` only for a service that has been through it. -/
theorem Machine.initModel_engaged {c : Caller} (h : (m.initModel c).2.engaged = true) :
    m.service.ffiInitialized = true := by
  unfold Machine.initModel at h
  dsimp only at h
  split at h
  next hf => exact hf
  next => cases h

theorem VoiceService.engaged_of_ffi {s : VoiceService} (h : s.ffiInitialized = true) : s.engaged = true := by
  simp [engaged, h]

theorem VoiceService.engaged_of_initialized {s : VoiceService} (h : s.isInitialized = true) : s.engaged = true := by
  simp [engaged, h]

/-- What a step may raise: the flags, or the call's own standing, from one of the two it had before, or from
the one assignment of `_bindings`. -/
structure Engages (m : Machine) (before : Bool) (x : Machine × Task) : Prop where
  service : x.1.service.engaged = true → m.service.engaged = true ∨ before = true
  task : x.2.engaged = true → m.service.engaged = true ∨ before = true ∨
    (m.world.bindings = false ∧ x.1.world.bindings = true)

theorem Engages.idle {before : Bool} {t : Task} (ht : t.engaged = false) : Engages m before (m, t) := by
  refine ⟨Or.inl, fun h => ?_⟩
  rw [ht] at h
  cases h

/-- A call that is past `_initFfi` may do anything. -/
theorem Engages.active {before : Bool} (h : before = true) (x : Machine × Task) : Engages m before x :=
  ⟨fun _ => Or.inr h, fun _ => Or.inr (Or.inl h)⟩

theorem Machine.switchModelInit_engaged {newType : String} (h : (m.switchModelInit newType).2.engaged = true) :
    m.service.engaged = true := by
  have hf := initModel_engaged (m := { m with service := { m.service with selectedModelType := newType } }) h
  exact VoiceService.engaged_of_ffi hf

theorem Machine.switchModelInit_engages (m : Machine) (before : Bool) (newType : String) :
    Engages m before (m.switchModelInit newType) := by
  refine ⟨fun h => ?_, fun h => Or.inl (switchModelInit_engaged h)⟩
  rw [switchModelInit_fst] at h
  exact Or.inl h

theorem Machine.disposeEnd_engages (m : Machine) (before : Bool) : Engages m before m.disposeEnd := by
  refine ⟨fun h => ?_, fun h => by cases h⟩
  have hl : m.service.isListening = true := by simpa [Machine.disposeEnd, VoiceService.engaged] using h
  exact Or.inl (by simp [VoiceService.engaged, hl])

theorem Machine.deleteCurrent_engages (m : Machine) (before : Bool) {k : Cont} (hk : k.engaged = false) :
    Engages m before (m.deleteCurrent k) := by
  refine ⟨fun h => ?_, fun h => ?_⟩
  · rw [deleteCurrent_fst] at h
    exact Or.inl h
  · unfold Machine.deleteCurrent at h
    split at h
    next file _ =>
      have hf : (Task.blocked (.delete file) k).engaged = k.engaged := rfl
      rw [hf, hk] at h
      cases h
    next => cases h

theorem resume_engages (e : Environment) (k : Cont) (r : Reply) (m : Machine) :
    Engages m (Task.ready r k).engaged (resume e k r m) := by
  unfold resume
  split
  all_goals first
    | exact .idle rfl
    | exact .idle (Caller.give_engaged _ _)
    | exact m.switchModelInit_engages _ _
    | exact m.disposeEnd_engages _
    | exact m.deleteCurrent_engages _ rfl
    | exact .active rfl _
    | exact .active (Task.ready_engaged rfl (by assumption)) _
    | skip
  next =>
    split
    next => exact .idle rfl
    next free => exact ⟨Or.inl, fun _ => Or.inr (Or.inr ⟨by simpa using free, rfl⟩)⟩

theorem advance_engages (e : Environment) (m : Machine) (t : Task) : Engages m t.engaged (advance e m t) := by
  cases t with
  | blocked op k =>
    refine ⟨Or.inl, fun h => Or.inr (Or.inl ?_)⟩
    exact Task.blocked_engaged (Task.engaged_of_ready h)
  | ready r k => exact resume_engages e k r m
  | done c => exact .idle rfl

theorem Machine.startListening_engaged (h : m.startListening.service.engaged = true) : m.service.engaged = true := by
  cases hi : m.service.isInitialized with
  | true => exact VoiceService.engaged_of_initialized hi
  | false => simpa [Machine.startListening, hi] using h

theorem Machine.stopListening_engaged (h : m.stopListening.service.engaged = true) : m.service.engaged = true := by
  have flags : m.service.ffiInitialized = true ∨ m.service.isInitialized = true := by
    simpa [Machine.stopListening, VoiceService.engaged] using h
  rcases flags with hf | hi
  · exact VoiceService.engaged_of_ffi hf
  · exact VoiceService.engaged_of_initialized hi

/-- Nothing that a call does before its first `await` engages a service that was not engaged. -/
theorem start_engaged (m : Machine) (k : Call) :
    ((m.start k).1.service.engaged = true → m.service.engaged = true) ∧
      ((m.start k).2.engaged = true → m.service.engaged = true) := by
  have off : ∀ {c : Completion}, (Task.done c).engaged = true → m.service.engaged = true := fun h => by cases h
  cases k with
  | initModel =>
    refine ⟨fun h => ?_, fun h => VoiceService.engaged_of_ffi (Machine.initModel_engaged h)⟩
    rwa [Machine.start, Machine.initModel_fst] at h
  | switchModel newType =>
    simp only [Machine.start, Machine.switchModel]
    split
    next => exact ⟨id, off⟩
    next hi =>
      have on : m.service.engaged = true := VoiceService.engaged_of_initialized (by simpa using hi)
      exact ⟨fun _ => on, fun _ => on⟩
  | setModelType type =>
    refine ⟨fun h => ?_, off⟩
    simp only [Machine.start, Machine.setModelType] at h
    split at h
    next => exact h
    next => exact h
  | startListening => exact ⟨Machine.startListening_engaged, off⟩
  | stopListening => exact ⟨Machine.stopListening_engaged, off⟩
  | toggleListening =>
    refine ⟨fun h => ?_, off⟩
    simp only [Machine.start, Machine.toggleListening] at h
    split at h
    next => exact h
    next =>
      split at h
      next => exact Machine.stopListening_engaged h
      next => exact Machine.startListening_engaged h
  | dispose =>
    simp only [Machine.start, Machine.dispose]
    split
    next => exact ⟨Machine.stopListening_engaged, fun h => (by cases h)⟩
    next => exact ⟨fun h => (by cases h), fun h => (by cases h)⟩
  | tick timer =>
    simp only [Machine.start, Machine.tick]
    split
    next live => exact ⟨id, fun _ => VoiceService.engaged_of_initialized live.2⟩
    next => exact ⟨id, off⟩

/-- `_bindings` is assigned in one place of the code. -/
theorem resume_assigns (e : Environment) (k : Cont) (r : Reply) (m : Machine) :
    (resume e k r m).1.world.bindings = m.world.bindings ∨ (Task.ready r k).assignsBindings = true := by
  unfold resume
  split
  all_goals first
    | exact Or.inl rfl
    | (left; rw [Machine.deleteCurrent_fst])
    | (left; rw [Machine.switchModelInit_fst])
    | skip
  next answered => exact Or.inr (by simpa [Task.assignsBindings] using answered)
  next c file _ => exact Or.inl (m.world.loadModel_bindings file e.load)

theorem advance_assigns (e : Environment) (m : Machine) (t : Task) :
    (advance e m t).1.world.bindings = m.world.bindings ∨ t.assignsBindings = true := by
  cases t with
  | blocked op k => exact Or.inl (perform_bindings e op m.world)
  | ready r k => exact resume_assigns e k r m
  | done c => exact Or.inl rfl

end Step

section Owner

variable {c : Instances} {owner : Option Nat}

/-- Only one instance is engaged, by its flags or by a pending call. -/
def Owned (owner : Option Nat) (c : Instances) : Prop :=
  Pool.Sound (fun s => ∀ i, (s.services i).engaged = true → owner = some i)
    (fun _ _ t => t.2.engaged = true → owner = some t.1) c

theorem Isolate.put_engaged {s : Isolate} {i j : Nat} {m : Machine} (h : ((s.put i m).services j).engaged = true) :
    (j = i ∧ m.service.engaged = true) ∨ (s.services j).engaged = true := by
  simp only [Isolate.put] at h
  split at h
  next hj => exact Or.inl ⟨hj, h⟩
  next => exact Or.inr h

/-- While no instance is engaged, any may become the owner. -/
theorem Owned.free (h : Owned none c) (owner : Option Nat) : Owned owner c := by
  refine ⟨fun i hi => ?_, fun n t ht engaged => ?_⟩
  · cases h.1 i hi
  · cases h.2 n t ht engaged

theorem Owned.call (h : Owned owner c) (k : Nat × Call) : Owned owner (c.next (.call k)) := by
  obtain ⟨service, task⟩ := start_engaged (c.state.machine k.1) k.2
  have own : (c.state.services k.1).engaged = true → owner = some k.1 := h.1 k.1
  refine Pool.Sound.call h k (fun j hj => ?_) (fun engaged => own (task engaged)) (fun _ _ _ ht => ht)
  rcases Isolate.put_engaged hj with ⟨rfl, now⟩ | before
  · exact own (service now)
  · exact h.1 j before

/-- A step keeps the owner as long as the owner is the one who assigns `_bindings`. -/
theorem Owned.step (h : Owned owner c) {n : Nat} {e : Environment}
    (assigns : ∀ j t, c.tasks[n]? = some (j, t) → c.state.world.bindings = false →
      (advance e (c.state.machine j) t).1.world.bindings = true → owner = some j) :
    Owned owner (c.next (.step n e)) := by
  refine Pool.Sound.step h e fun t ht own => ?_
  obtain ⟨j, t⟩ := t
  have engages := advance_engages e (c.state.machine j) t
  have before : (c.state.services j).engaged = true ∨ t.engaged = true → owner = some j := by
    rintro (service | task)
    · exact h.1 j service
    · exact own task
  refine ⟨fun k hk => ?_, fun engaged => ?_, fun _ _ _ _ hu => hu⟩
  · rcases Isolate.put_engaged hk with ⟨rfl, now⟩ | same
    · exact before (engages.service now)
    · exact h.1 k same
  · rcases engages.task engaged with service | task | ⟨unset, set⟩
    · exact before (Or.inl service)
    · exact before (Or.inr task)
    · exact assigns j t ht unset set

/-- The next step is the one in which a call of instance `i` assigns `_bindings`. -/
def Instances.Assigns (c : Instances) (l : InstanceLabel) (i : Nat) : Prop :=
  ∃ n e t, l = .step n e ∧ c.tasks[n]? = some (i, t) ∧ t.assignsBindings = true ∧ c.state.world.bindings = false

/-- `_bindings` is assigned once, and whoever assigns it is the owner from then on. -/
theorem Owned.next (h : Owned owner c) (fixed : owner = none ∨ c.state.world.bindings = true) (l : InstanceLabel) :
    ∃ later, Owned later (c.next l) ∧ (later = none ∨ (c.next l).state.world.bindings = true) ∧
      (later = owner ∨ owner = none ∧ ∃ i, later = some i ∧ c.Assigns l i) := by
  have grows : owner = none ∨ (c.next l).state.world.bindings = true := fixed.imp_right (next_grows c l)
  cases l with
  | call k => exact ⟨owner, h.call k, grows, Or.inl rfl⟩
  | step n e =>
    by_cases assigned : c.state.world.bindings = false ∧ (c.next (.step n e)).state.world.bindings = true
    · have unowned : owner = none := fixed.resolve_right (by simp [assigned.1])
      subst unowned
      cases ht : c.tasks[n]? with
      | none =>
        have idle : c.next (.step n e) = c := Pool.next_idle ht e
        rw [idle, assigned.1] at assigned
        cases assigned.2
      | some t =>
        obtain ⟨j, t⟩ := t
        have set : (advance e (c.state.machine j) t).1.world.bindings = true := by
          have after := assigned.2
          rw [Instances.next, Pool.next_step ht] at after
          exact after
        have assigns : t.assignsBindings = true := by
          refine (advance_assigns e (c.state.machine j) t).resolve_left fun same => ?_
          rw [set] at same
          cases same.trans assigned.1
        refine ⟨some j, (h.free (some j)).step fun k u hu _ _ => ?_, Or.inr assigned.2,
          Or.inr ⟨rfl, j, rfl, n, e, t, rfl, ht, assigns, assigned.1⟩⟩
        have same := Option.some.inj (ht.symm.trans hu)
        exact congrArg some (Prod.mk.inj same).1
    · refine ⟨owner, h.step fun j t ht unset set => ?_, grows, Or.inl rfl⟩
      have now : (c.next (.step n e)).state.world = (advance e (c.state.machine j) t).1.world := by
        rw [Instances.next, Pool.next_step ht]
        rfl
      exact absurd ⟨unset, now ▸ set⟩ assigned

/-- The instance is engaged, or one of its pending calls is. -/
def Instances.Engaged (c : Instances) (i : Nat) : Prop :=
  (c.state.services i).engaged = true ∨ ∃ t, (i, t) ∈ c.tasks ∧ t.engaged = true

theorem Owned.engaged (h : Owned owner c) {i : Nat} (engaged : c.Engaged i) : owner = some i := by
  rcases engaged with service | ⟨t, mem, task⟩
  · exact h.1 i service
  · obtain ⟨n, hn⟩ := List.mem_iff_getElem?.mp mem
    exact h.2 n (i, t) hn task

/-- In one of these steps a call of instance `i` has assigned `_bindings`. -/
def AssignedBy (i : Nat) (labels : List InstanceLabel) : Prop :=
  ∃ past l rest, labels = past ++ l :: rest ∧ (Runs.run Instances.next Instances.initial past).Assigns l i

theorem AssignedBy.later {i : Nat} {labels : List InstanceLabel} (h : AssignedBy i labels) (more : List InstanceLabel) :
    AssignedBy i (labels ++ more) := by
  obtain ⟨past, l, rest, rfl, assigns⟩ := h
  refine ⟨past, l, rest ++ more, ?_, assigns⟩
  rw [List.append_assoc, List.cons_append]

/-- The owner after some steps stays the owner, and has assigned `_bindings` before it is engaged. -/
theorem run_owned (past labels : List InstanceLabel) (h : Owned owner (Runs.run Instances.next Instances.initial past))
    (fixed : owner = none ∨ (Runs.run Instances.next Instances.initial past).state.world.bindings = true)
    (assigned : ∀ i, owner = some i → AssignedBy i past) :
    ∃ last, (owner = none ∨ last = owner) ∧ ∀ now, now <+: labels → ∀ i,
      (Runs.run Instances.next Instances.initial (past ++ now)).Engaged i → last = some i ∧ AssignedBy i (past ++ now) := by
  induction labels generalizing past owner with
  | nil =>
    refine ⟨owner, Or.inr rfl, fun now hn i engaged => ?_⟩
    obtain rfl := List.prefix_nil.mp hn
    rw [List.append_nil] at engaged ⊢
    exact ⟨h.engaged engaged, assigned i (h.engaged engaged)⟩
  | cons l labels ih =>
    obtain ⟨later, hl, bound, kept⟩ := h.next fixed l
    have step : Runs.run Instances.next Instances.initial (past ++ [l]) =
        (Runs.run Instances.next Instances.initial past).next l := Runs.run_append _ _ _
    have assigns : ∀ i, later = some i → AssignedBy i (past ++ [l]) := by
      intro i own
      rcases kept with rfl | ⟨_, j, other, assigns⟩
      · exact (assigned i own).later [l]
      · obtain rfl : j = i := Option.some.inj (other.symm.trans own)
        exact ⟨past, l, [], rfl, assigns⟩
    obtain ⟨last, hlast, all⟩ := ih (past ++ [l]) (step ▸ hl) (step ▸ bound) assigns
    have settled : owner = none ∨ last = owner := by
      rcases kept with rfl | ⟨free, _⟩
      · exact hlast
      · exact Or.inl free
    refine ⟨last, settled, fun now hn i engaged => ?_⟩
    rcases List.prefix_cons_iff.mp hn with rfl | ⟨rest, rfl, short⟩
    · rw [List.append_nil] at engaged ⊢
      have own := h.engaged engaged
      rcases settled with free | same
      · cases free.symm.trans own
      · exact ⟨same.trans own, assigned i own⟩
    · have split : past ++ l :: rest = past ++ [l] ++ rest := by rw [List.append_assoc, List.singleton_append]
      rw [split] at engaged ⊢
      exact all rest short i engaged

end Owner

/-- In every interleaving of any calls on any number of services in one isolate, whatever fails, at most
one service is ever initialised, listens, writes a model file, calls `load_model` or runs an
inference, and it is the one that has assigned `_bindings` before. -/
theorem single_owner (labels : List InstanceLabel) :
    ∃ owner, ∀ past, past <+: labels → ∀ i, (Runs.run Instances.next Instances.initial past).Engaged i →
      i = owner ∧ AssignedBy i past := by
  have start : Owned none Instances.initial := ⟨nofun, fun n t ht => by simp [Instances.initial] at ht⟩
  obtain ⟨last, _, all⟩ := run_owned [] labels start (Or.inl rfl) fun i own => by cases own
  refine ⟨last.getD 0, fun past hp i engaged => ?_⟩
  obtain ⟨own, assigned⟩ := all past hp i engaged
  refine ⟨?_, assigned⟩
  rw [own]
  rfl

end AuroraVoice
