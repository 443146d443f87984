import AuroraVoice.Interleaving
import AuroraVoice.SequentialView

namespace AuroraVoice

/-- What every reachable state satisfies, whatever interleaves and whatever fails. -/
structure Machine.Valid (m : Machine) : Prop where
  bound : m.Bound
  selected : m.service.selectedModelType ∈ modelTypes
  file : m.service.isInitialized = true → m.service.currentModelFile.isSome

def Cont.Valid (m : Machine) (r : Option Reply) : Cont → Prop
  | .switchModelExists newType => newType ∈ modelTypes
  | .switchModelDelete newType => newType ∈ modelTypes
  | .initModelLoad _ => m.service.currentModelFile.isSome
  | .initFfi _ _ => r = some .threw ∨ m.world.bindings = true
  | _ => True

def Task.Valid (m : Machine) : Task → Prop
  | .blocked _ k => k.Valid m none
  | .ready r k => k.Valid m (some r)
  | .done _ => True

/-- The bindings and `_currentModelFile` are assigned and never cleared. -/
structure Grows (m next : Machine) : Prop where
  bindings : m.world.bindings = true → next.world.bindings = true
  file : m.service.currentModelFile.isSome → next.service.currentModelFile.isSome

theorem Grows.refl (m : Machine) : Grows m m := ⟨id, id⟩

theorem Task.Valid.stable {m next : Machine} {t : Task} (h : t.Valid m) (g : Grows m next) : t.Valid next := by
  have cont : ∀ r (k : Cont), k.Valid m r → k.Valid next r := by
    intro r k hk
    cases k with
    | initModelLoad c => exact g.file hk
    | initFfi c path => exact hk.imp_right g.bindings
    | _ => exact hk
  cases t with
  | blocked op k => exact cont _ k h
  | ready r k => exact cont _ k h
  | done c => trivial

theorem perform_bindings (e : Environment) (op : Op) (w : World) :
    (perform e op w).1.bindings = w.bindings := by
  unfold perform
  split <;> try split
  all_goals rfl

theorem World.loadModel_bindings (w : World) (file : String) (o : LoadOutcome) :
    (w.loadModel file o).1.bindings = w.bindings := by
  unfold World.loadModel
  split <;> rfl

theorem Caller.give_valid (c : Caller) (b : Bool) (m : Machine) : (c.give b).Valid m := by
  cases c <;> trivial

section Step

variable {m : Machine}

theorem Machine.initModel_valid (m : Machine) (c : Caller) : (m.initModel c).2.Valid m := by
  unfold Machine.initModel
  split <;> trivial

theorem Machine.Valid.switchModelInit (h : m.Valid) {newType : String} (valid : newType ∈ modelTypes) :
    (m.switchModelInit newType).1.Valid ∧ (m.switchModelInit newType).2.Valid (m.switchModelInit newType).1 ∧
      Grows m (m.switchModelInit newType).1 := by
  rw [switchModelInit_fst]
  exact ⟨⟨h.bound, valid, h.file⟩, initModel_valid _ .switchModel, id, id⟩

theorem Machine.Valid.disposeEnd (h : m.Valid) :
    m.disposeEnd.1.Valid ∧ m.disposeEnd.2.Valid m.disposeEnd.1 ∧ Grows m m.disposeEnd.1 :=
  ⟨⟨(fun hi => by cases hi), h.selected, (fun hi => by cases hi)⟩, trivial, id, id⟩

theorem Machine.Valid.deleteCurrent (h : m.Valid) {k : Cont} (hk : k.Valid m none) :
    (m.deleteCurrent k).1.Valid ∧ (m.deleteCurrent k).2.Valid (m.deleteCurrent k).1 ∧
      Grows m (m.deleteCurrent k).1 := by
  rw [deleteCurrent_fst]
  refine ⟨h, ?_, Grows.refl m⟩
  unfold Machine.deleteCurrent
  split
  next => exact hk
  next => trivial

theorem Machine.Valid.resume (h : m.Valid) (e : Environment) {k : Cont} {r : Reply} (hk : k.Valid m (some r)) :
    (resume e k r m).1.Valid ∧ (resume e k r m).2.Valid (resume e k r m).1 ∧ Grows m (resume e k r m).1 := by
  have give : ∀ (c : Caller) b, (c.give b).Valid m := fun c b => c.give_valid b m
  unfold AuroraVoice.resume
  split
  all_goals first
    | exact ⟨h, trivial, Grows.refl m⟩
    | exact ⟨h, give _ _, Grows.refl m⟩
    | exact ⟨h, Or.inl rfl, Grows.refl m⟩
    | exact h.disposeEnd
    | exact h.switchModelInit hk
    | exact h.deleteCurrent hk
    | exact h.deleteCurrent trivial
    | exact ⟨⟨h.bound, h.selected, h.file⟩, trivial, id, id⟩
    | skip
  next c path =>
    split
    next => exact ⟨h, Or.inl rfl, Grows.refl m⟩
    next => exact ⟨⟨fun _ => rfl, h.selected, h.file⟩, Or.inr rfl, fun _ => rfl, id⟩
  next c path hr =>
    have bound : m.world.bindings = true := hk.resolve_left (by simpa using hr)
    exact ⟨⟨fun _ => bound, h.selected, h.file⟩, trivial, id, id⟩
  next c file _ =>
    have bound := World.loadModel_bindings m.world file e.load
    exact ⟨⟨fun hi => bound.trans (h.bound hi), h.selected, fun _ => rfl⟩, rfl,
      fun hb => bound.trans hb, fun _ => rfl⟩
  next c => exact ⟨⟨h.bound, h.selected, fun _ => hk⟩, c.give_valid true _, id, id⟩

theorem Machine.Valid.advance (h : m.Valid) (e : Environment) {t : Task} (ht : t.Valid m) :
    (advance e m t).1.Valid ∧ (advance e m t).2.Valid (advance e m t).1 ∧ Grows m (advance e m t).1 := by
  cases t with
  | blocked op k =>
    have bound := perform_bindings e op m.world
    refine ⟨⟨fun hi => bound.trans (h.bound hi), h.selected, h.file⟩, ?_, fun hb => bound.trans hb, id⟩
    cases k with
    | initFfi c path => exact Or.inr (bound.trans (ht.resolve_left (by simp)))
    | _ => exact ht
  | ready r k => exact h.resume e ht
  | done c => exact ⟨h, trivial, Grows.refl m⟩

def Call.Valid : Call → Prop
  | .switchModel newType => newType ∈ modelTypes
  | _ => True

theorem Machine.Valid.switchModel (h : m.Valid) {newType : String} (valid : newType ∈ modelTypes) :
    (m.switchModel newType).1.Valid ∧ (m.switchModel newType).2.Valid (m.switchModel newType).1 ∧
      Grows m (m.switchModel newType).1 := by
  have bound := m.world.unloadModel_bindings
  have unloaded : Machine.Valid ⟨m.service, m.world.unloadModel⟩ :=
    ⟨fun hi => bound.trans (h.bound hi), h.selected, h.file⟩
  unfold Machine.switchModel
  split
  next => exact ⟨h, trivial, Grows.refl m⟩
  next =>
    split
    next => exact ⟨h, trivial, Grows.refl m⟩
    next =>
      dsimp only
      split
      next => exact ⟨unloaded, valid, fun hb => bound.trans hb, id⟩
      next =>
        obtain ⟨v, t, g⟩ := unloaded.switchModelInit valid
        exact ⟨v, t, fun hb => g.bindings (bound.trans hb), g.file⟩

theorem Machine.Valid.stopListening (h : m.Valid) : m.stopListening.Valid := ⟨h.bound, h.selected, h.file⟩

theorem Machine.Valid.startListening (h : m.Valid) : m.startListening.Valid ∧ Grows m m.startListening := by
  unfold Machine.startListening
  split
  next => exact ⟨h, Grows.refl m⟩
  next => exact ⟨⟨h.bound, h.selected, h.file⟩, id, id⟩

theorem Machine.Valid.dispose (h : m.Valid) :
    m.dispose.1.Valid ∧ m.dispose.2.Valid m.dispose.1 ∧ Grows m m.dispose.1 := by
  have bound := m.stopListening.world.unloadModel_bindings
  have unloaded : Machine.Valid ⟨m.stopListening.service, m.stopListening.world.unloadModel⟩ :=
    ⟨fun hi => bound.trans (h.bound hi), h.selected, h.file⟩
  unfold Machine.dispose
  dsimp only
  split
  next => exact ⟨unloaded, trivial, fun hb => bound.trans hb, id⟩
  next =>
    obtain ⟨v, t, g⟩ := unloaded.disposeEnd
    exact ⟨v, t, fun hb => g.bindings (bound.trans hb), g.file⟩

theorem Machine.Valid.start (h : m.Valid) {k : Call} (valid : k.Valid) :
    (m.start k).1.Valid ∧ (m.start k).2.Valid (m.start k).1 ∧ Grows m (m.start k).1 := by
  cases k with
  | initModel =>
    simp only [Machine.start, initModel_fst]
    exact ⟨h, initModel_valid m .direct, Grows.refl m⟩
  | switchModel newType => exact h.switchModel valid
  | setModelType type =>
    simp only [Machine.start, Machine.setModelType]
    split
    next ht => exact ⟨⟨h.bound, ht, h.file⟩, trivial, id, id⟩
    next => exact ⟨h, trivial, Grows.refl m⟩
  | startListening => exact ⟨h.startListening.1, trivial, h.startListening.2⟩
  | stopListening => exact ⟨h.stopListening, trivial, id, id⟩
  | toggleListening =>
    simp only [Machine.start, Machine.toggleListening]
    split
    next => exact ⟨h, trivial, Grows.refl m⟩
    next =>
      split
      next => exact ⟨h.stopListening, trivial, id, id⟩
      next => exact ⟨h.startListening.1, trivial, h.startListening.2⟩
  | dispose => exact h.dispose
  | tick timer =>
    simp only [Machine.start, Machine.tick]
    split
    next => exact ⟨h, trivial, Grows.refl m⟩
    next => exact ⟨h, trivial, Grows.refl m⟩

end Step

def ValidCall (_ : Machine) (k : Call) : Prop := k.Valid

def AnyStep (_ : Environment) (_ : Machine) (_ : Task) : Prop := True

def Reachable (m : Machine) : Prop :=
  ∃ labels, Runs.Along Config.next (Pool.Allowed ValidCall AnyStep) Config.initial labels ∧
    (Runs.run Config.next Config.initial labels).state = m

theorem next_valid (c : Config) (l : Label) (h : Pool.Sound Machine.Valid (fun _ m t => Task.Valid m t) c)
    (ok : Pool.Allowed ValidCall AnyStep c l) :
    Pool.Sound Machine.Valid (fun _ m t => Task.Valid m t) (c.next l) := by
  cases l with
  | call k =>
    obtain ⟨state, own, grows⟩ := h.1.start (k := k) ok
    exact h.call k state own fun _ _ _ ht => ht.stable grows
  | step i e =>
    refine h.step e fun t _ ht => ?_
    obtain ⟨state, own, grows⟩ := h.1.advance e ht
    exact ⟨state, own, fun _ _ _ _ hu => hu.stable grows⟩

theorem Reachable.valid {m : Machine} (h : Reachable m) : m.Valid := by
  obtain ⟨labels, ok, rfl⟩ := h
  have start : Pool.Sound Machine.Valid (fun _ m t => Task.Valid m t) Config.initial :=
    ⟨⟨fun hi => absurd hi (by decide), by decide, fun hi => absurd hi (by decide)⟩, fun i t ht => by
      simp [Config.initial] at ht⟩
  exact (Runs.along_induction next_valid start ok).1

end AuroraVoice
