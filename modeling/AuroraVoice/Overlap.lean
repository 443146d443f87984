import Mathlib.Data.List.Basic
import AuroraVoice.ModelCalls
import AuroraVoice.Reachability

namespace AuroraVoice

def inOrder (m : Machine) (x y : ModelCall) : View × List Task :=
  let a := m.call (x.call, Script.fine)
  let b := a.1.call (y.call, Script.fine)
  (b.1.view, [a.2, b.2])

def Serializable (m : Machine) (x y : ModelCall) (c : Config) : Prop :=
  (c.state.view, c.tasks) = inOrder m x y ∨ (c.state.view, c.tasks.reverse) = inOrder m y x

/-- `x` is called and takes some steps, `y` is called, and both run on in any order. -/
def overlap (x y : ModelCall) (first rest : List (Nat × Environment)) : List Label :=
  .call x.call :: (first.map stepOf ++ .call y.call :: rest.map stepOf)

def AnyCall (_ : Machine) (_ : Call) : Prop := True

instance decidableAnyCall (m : Machine) (k : Call) : Decidable (AnyCall m k) := isTrue trivial

def AllSucceed (c : Config) (l : Label) : Prop := Pool.Allowed AnyCall Succeeds c l

def Config.stepped (c : Config) (s : Nat × Environment) : Config := c.next (stepOf s)

def StepSucceeds (c : Config) (s : Nat × Environment) : Prop := AllSucceed c (stepOf s)

/-- A call is on its way to its type, or it was over from the start. -/
inductive Role
  | works (c : Caller)
  | finished (r : Completion)

def Role.Holds (type : String) (m : Machine) (t : Task) : Role → Prop
  | .works c => Aims type m c t
  | .finished r => t = .done r

section Steps

variable {type : String} {roles : Nat → Role} {c : Config}

theorem stepped_sound (s : Nat × Environment)
    (h : Pool.Sound (fun _ => True) (fun i m t => (roles i).Holds type m t) c) (ok : StepSucceeds c s) :
    Pool.Sound (fun _ => True) (fun i m t => (roles i).Holds type m t) (c.stepped s) := by
  refine h.step s.2 fun t ht own => ⟨trivial, ?_⟩
  have good : Succeeds s.2 c.state t := ok t ht
  cases hr : roles s.1 with
  | works caller =>
    simp only [hr, Role.Holds] at own
    obtain ⟨keeps, next⟩ := own.advanced good
    refine ⟨by simpa [hr, Role.Holds] using next, fun j u _ _ hu => ?_⟩
    cases hj : roles j with
    | works caller =>
      simp only [hj, Role.Holds] at hu ⊢
      exact hu.stable keeps
    | finished r => simpa [hj, Role.Holds] using hu
  | finished r =>
    simp only [hr, Role.Holds] at own
    subst own
    exact ⟨rfl, fun _ _ _ _ hu => hu⟩

theorem stepped_length (c : Config) (s : Nat × Environment) : (c.stepped s).tasks.length = c.tasks.length := by
  simp only [Config.stepped, Config.next, stepOf]
  cases ht : c.tasks[s.1]? with
  | none => rw [Pool.next_idle ht]
  | some t => rw [Pool.next_step ht, List.length_set]

theorem stepped_completed (h : Completed c) (s : Nat × Environment) : c.stepped s = c := by
  cases ht : c.tasks[s.1]? with
  | none => exact Pool.next_idle ht s.2
  | some t =>
    obtain ⟨r, rfl⟩ := Task.of_isDone (h t (List.mem_of_getElem? ht))
    exact next_done ht s.2

theorem run_completed (h : Completed c) (steps : List (Nat × Environment)) :
    Runs.run Config.stepped c steps = c :=
  Runs.run_induction (I := fun d => d = c) (fun d s hd => by rw [hd, stepped_completed h]) rfl steps

theorem pair_completed {m : Machine} {x y : Task} (rx ry : Role) {steps : List (Nat × Environment)}
    (hx : rx.Holds type m x) (hy : ry.Holds type m y)
    (ok : Runs.Along Config.stepped StepSucceeds ⟨m, [x, y]⟩ steps)
    (ended : Completed (Runs.run Config.stepped ⟨m, [x, y]⟩ steps)) :
    ∃ last a b, Runs.run Config.stepped ⟨m, [x, y]⟩ steps = ⟨last, [.done a, .done b]⟩ ∧
      rx.Holds type last (.done a) ∧ ry.Holds type last (.done b) := by
  have start : Pool.Sound (fun _ => True)
      (fun i m t => (if i = 0 then rx else ry : Role).Holds type m t) (⟨m, [x, y]⟩ : Config) := by
    refine ⟨trivial, fun i t ht => ?_⟩
    match i with
    | 0 => simpa [← Option.some.inj ht] using hx
    | 1 => simpa [← Option.some.inj ht] using hy
    | i + 2 => simp at ht
  have sound := Runs.along_induction (fun _ s hd good => stepped_sound s hd good) start ok
  have len : (Runs.run Config.stepped ⟨m, [x, y]⟩ steps).tasks.length = 2 :=
    Runs.run_induction (I := fun d => d.tasks.length = 2) (fun d s hd => (stepped_length d s).trans hd) rfl steps
  revert sound len ended
  obtain ⟨last, tasks⟩ := Runs.run Config.stepped ⟨m, [x, y]⟩ steps
  intro ended sound len
  obtain ⟨t, u, rfl⟩ := List.length_eq_two.mp len
  obtain ⟨a, rfl⟩ := Task.of_isDone (ended t (by simp))
  obtain ⟨b, rfl⟩ := Task.of_isDone (ended u (by simp))
  exact ⟨last, a, b, rfl, by simpa using sound.2 0 _ rfl, by simpa using sound.2 1 _ rfl⟩

theorem Aims.completed {m : Machine} {caller : Caller} {r : Completion} (h : Aims type m caller (.done r)) :
    r = .value true ∧ m.view = .inUse type := by
  cases h with
  | done _ h hi => exact ⟨rfl, by simp [Machine.view, View.inUse, h.1, h.2, hi]⟩

/-- The flag is raised only by the step that completes an `initModel`. -/
theorem Aims.flag {m : Machine} {caller : Caller} {t : Task} {e : Environment} (h : Aims type m caller t)
    (hc : caller = .switchModel → m.service.isInitialized = true) :
    (advance e m t).1.service.isInitialized = m.service.isInitialized ∨ (advance e m t).2 = .done (.value true) := by
  cases h with
  | loaded =>
    cases caller with
    | direct => exact Or.inr rfl
    | switchModel => exact Or.inl (hc rfl).symm
  | plugin =>
    left
    simp only [advance, resume]
    split <;> rfl
  | probed b => cases b <;> simp [advance, resume]
  | deleted => simp [advance, resume]
  | _ => exact Or.inl rfl

/-- One call that is on its way: as long as it is not done, the flag is what it was. -/
def Underway (type : String) (caller : Caller) (flag : Bool) (c : Config) : Prop :=
  ∃ t, c.tasks = [t] ∧ Aims type c.state caller t ∧ (caller = .switchModel → flag = true) ∧
    (c.state.service.isInitialized = flag ∨ t = .done (.value true))

theorem stepped_underway {caller : Caller} {flag : Bool} (s : Nat × Environment)
    (h : Underway type caller flag c) (ok : StepSucceeds c s) : Underway type caller flag (c.stepped s) := by
  obtain ⟨m, tasks⟩ := c
  obtain ⟨t, rfl, aims, hc, before⟩ := h
  obtain ⟨i, e⟩ := s
  cases i with
  | zero =>
    obtain ⟨_, next⟩ := aims.advanced (ok t rfl)
    refine ⟨(advance e m t).2, rfl, next, hc, ?_⟩
    rcases before with same | rfl
    · exact (aims.flag fun eq => same.trans (hc eq)).imp_left fun kept => kept.trans same
    · exact Or.inr rfl
  | succ i => exact ⟨t, rfl, aims, hc, before⟩

end Steps

section Good

variable {m : Machine} {x y : ModelCall}

def View.changes (v : View) (x y : ModelCall) : View × List Task :=
  (((v.change x).1.change y).1,
    [.done (.value (v.change x).2), .done (.value ((v.change x).1.change y).2)])

theorem inOrder_eq (h : m.WellFormed) (hf : m.service.ffiInitialized = true) (x y : ModelCall) :
    inOrder m x y = m.view.changes x y := by
  obtain ⟨first, value, wf, ffi⟩ := call_fine h hf x
  obtain ⟨second, last, _⟩ := call_fine wf ffi y
  simp only [inOrder, View.changes, second, first, value, last]

theorem second_alone {r : Completion} {steps : List (Nat × Environment)}
    (ok : Runs.Along Config.stepped StepSucceeds ⟨(m.start y.call).1, [.done r, (m.start y.call).2]⟩ steps)
    (ended : Completed (Runs.run Config.stepped ⟨(m.start y.call).1, [.done r, (m.start y.call).2]⟩ steps)) :
    let c := Runs.run Config.stepped ⟨(m.start y.call).1, [.done r, (m.start y.call).2]⟩ steps
    (c.state.view, c.tasks) = ((m.view.change y).1, [.done r, .done (.value (m.view.change y).2)]) := by
  by_cases early : y.Early m.view
  · rw [start_early early, View.change_early early]
    have finished : Completed (⟨m, [.done r, .done (.value m.service.isInitialized)]⟩ : Config) := by
      simp [Completed, Task.isDone]
    rw [run_completed finished]
    rfl
  · obtain ⟨_, aims, _⟩ := start_aims early
    obtain ⟨last, a, b, eq, ha, hb⟩ := pair_completed (.finished r) (.works y.caller) rfl aims ok ended
    obtain ⟨rfl, view⟩ := Aims.completed hb
    cases ha
    rw [eq, View.change_active early]
    exact congrArg (·, _) view

def begin (m : Machine) (x : ModelCall) : Config := ⟨(m.start x.call).1, [(m.start x.call).2]⟩

theorem next_second (m : Machine) (t : Task) (k : Call) :
    Config.next ⟨m, [t]⟩ (.call k) = ⟨(m.start k).1, [t, (m.start k).2]⟩ := rfl

theorem run_overlap (m : Machine) (x y : ModelCall) (first rest : List (Nat × Environment)) :
    Runs.run Config.next ⟨m, []⟩ (overlap x y first rest) =
      Runs.run Config.stepped ((Runs.run Config.stepped (begin m x) first).next (.call y.call)) rest := by
  simp only [overlap, Runs.run_cons, Runs.run_append, Runs.run_map]
  rfl

theorem along_overlap (m : Machine) (x y : ModelCall) (first rest : List (Nat × Environment)) :
    Runs.Along Config.next AllSucceed ⟨m, []⟩ (overlap x y first rest) ↔
      Runs.Along Config.stepped StepSucceeds (begin m x) first ∧
        Runs.Along Config.stepped StepSucceeds
          ((Runs.run Config.stepped (begin m x) first).next (.call y.call)) rest := by
  have called : ∀ (c : Config) k, AllSucceed c (.call k) := fun _ _ => trivial
  simp only [overlap, Runs.along_cons, Runs.along_append, Runs.along_map, Runs.run_map, called, true_and]
  rfl

theorem Aims.direct_selected {type : String} {t : Task} (h : Aims type m .direct t) :
    m.service.selectedModelType = type := by
  cases h with
  | written _ h => exact h.1
  | check _ h => exact h.1
  | checked _ h => exact h.1
  | length _ h => exact h.1
  | measured _ h => exact h.1
  | loaded _ h => exact h.1
  | done _ h => exact h.1
  | _ => assumption

/-- The two calls cannot end up apart: the second finds the first over or has the same aim. -/
def SameAim (m : Machine) (x y : ModelCall) : Prop :=
  m.service.isInitialized = true →
    x = .switchModel m.service.selectedModelType ∨
      x.target m.service.selectedModelType = y.target m.service.selectedModelType

theorem SameAim.of_active (h : SameAim m x y) (hx : ¬ x.Early m.view) (hi : m.service.isInitialized = true) :
    x.target m.service.selectedModelType = y.target m.service.selectedModelType := by
  refine (h hi).resolve_left fun eq => hx ?_
  rw [eq]
  exact Or.inr rfl

theorem SameAim.target {n : Machine} {t : Task} (h : SameAim m x y) (hx : ¬ x.Early m.view)
    (aims : Aims (x.target m.service.selectedModelType) n x.caller t)
    (flag : n.service.isInitialized = m.service.isInitialized) (hy : ¬ y.Early n.view) :
    y.target n.service.selectedModelType = x.target m.service.selectedModelType := by
  cases y with
  | initModel =>
    cases x with
    | initModel => exact aims.direct_selected
    | switchModel newType =>
      have active : m.service.isInitialized = true ∧ newType ≠ m.service.selectedModelType := by
        simpa [ModelCall.Early, Machine.view] using hx
      exact absurd (h.of_active hx active.1) active.2
  | switchModel newType =>
    have active : n.service.isInitialized = true ∧ newType ≠ n.service.selectedModelType := by
      simpa [ModelCall.Early, Machine.view] using hy
    exact (h.of_active hx (flag.symm.trans active.1)).symm

theorem second_during {n : Machine} {t : Task} {steps : List (Nat × Environment)} (hx : ¬ x.Early m.view)
    (same : SameAim m x y) (aims : Aims (x.target m.service.selectedModelType) n x.caller t)
    (flag : n.service.isInitialized = m.service.isInitialized)
    (ok : Runs.Along Config.stepped StepSucceeds ⟨(n.start y.call).1, [t, (n.start y.call).2]⟩ steps)
    (ended : Completed (Runs.run Config.stepped ⟨(n.start y.call).1, [t, (n.start y.call).2]⟩ steps)) :
    let c := Runs.run Config.stepped ⟨(n.start y.call).1, [t, (n.start y.call).2]⟩ steps
    (c.state.view, c.tasks) = m.view.changes x y ∨ (c.state.view, c.tasks.reverse) = m.view.changes y x := by
  by_cases early : y.Early n.view
  · rw [start_early early] at ok ended ⊢
    obtain ⟨last, a, b, eq, ha, hb⟩ := pair_completed (.works x.caller) (.finished _) aims rfl ok ended
    obtain ⟨rfl, view⟩ := Aims.completed ha
    cases hb
    rw [eq]
    cases y with
    | initModel => exact early.elim
    | switchModel newType =>
      cases hi : m.service.isInitialized with
      | false =>
        -- `y` found the service not initialised, as if it had come first
        have before : ModelCall.Early m.view (.switchModel newType) := Or.inl hi
        right
        simp [View.changes, View.change_early before, View.change_active hx, view, flag, hi]
      | true =>
        -- `y` found its type selected, as if `x` had completed
        have target : newType = x.target m.service.selectedModelType := (same.of_active hx hi).symm
        have second := View.change_inUse (x := .switchModel newType) target
        left
        simp [View.changes, View.change_active hx, second, view, flag, hi]
  · obtain ⟨keeps, second, _⟩ := start_aims early
    have target := same.target hx aims flag early
    rw [target] at keeps second
    obtain ⟨last, a, b, eq, ha, hb⟩ :=
      pair_completed (.works x.caller) (.works y.caller) (aims.stable keeps) second ok ended
    obtain ⟨rfl, view⟩ := Aims.completed ha
    obtain ⟨rfl, _⟩ := Aims.completed hb
    have again : y.target (x.target m.service.selectedModelType) = x.target m.service.selectedModelType := by
      cases y with
      | initModel => rfl
      | switchModel newType => exact target
    rw [eq]
    left
    simp [View.changes, View.change_active hx, View.change_inUse again, view]

theorem Machine.Valid.wellFormed (h : m.Valid) (hf : m.service.ffiInitialized = true) : m.WellFormed :=
  ⟨h.bound, fun hb => by rw [h.bound hf] at hb; cases hb⟩

theorem serializable_of_sameAim (h : m.WellFormed) (hf : m.service.ffiInitialized = true) (same : SameAim m x y)
    {first rest : List (Nat × Environment)}
    (ok : Runs.Along Config.next AllSucceed ⟨m, []⟩ (overlap x y first rest))
    (ended : Completed (Runs.run Config.next ⟨m, []⟩ (overlap x y first rest))) :
    Serializable m x y (Runs.run Config.next ⟨m, []⟩ (overlap x y first rest)) := by
  obtain ⟨good, later⟩ := (along_overlap m x y first rest).mp ok
  rw [Serializable, inOrder_eq h hf, inOrder_eq h hf]
  rw [run_overlap] at ended ⊢
  by_cases early : x.Early m.view
  · have begun : begin m x = ⟨m, [.done (.value m.service.isInitialized)]⟩ := by
      rw [begin, start_early early]
    have finished : Completed (begin m x) := by simp [begun, Completed, Task.isDone]
    rw [run_completed finished, begun, next_second] at later ended ⊢
    left
    have alone := second_alone later ended
    simpa [View.changes, View.change_early early] using alone
  · obtain ⟨_, aims, flag⟩ := start_aims early
    have underway : Underway (x.target m.service.selectedModelType) x.caller m.service.isInitialized (begin m x) := by
      refine ⟨_, rfl, aims, fun hc => ?_, Or.inl flag⟩
      cases x with
      | initModel => cases hc
      | switchModel newType => simpa [ModelCall.Early, Machine.view] using (not_or.mp early).1
    have reached := Runs.along_induction (fun _ s hd good => stepped_underway s hd good) underway good
    revert later ended reached
    obtain ⟨n, tasks⟩ := Runs.run Config.stepped (begin m x) first
    rintro ended later ⟨t, rfl, aims, _, before⟩
    rw [next_second] at ended later ⊢
    rcases before with flag | rfl
    · exact second_during early same aims flag later ended
    · left
      obtain ⟨_, view⟩ := aims.completed
      have alone := second_alone later ended
      simpa [View.changes, View.change_active early, view] using alone

end Good

end AuroraVoice
