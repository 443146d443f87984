import AuroraVoice.Runs
import AuroraVoice.Service

namespace AuroraVoice

/-- An upper bound for the steps a call has left once it is due to be resumed. -/
def Cont.rank : Cont → Nat
  | .switchModelReturn => 1
  | .initModelLoad _ => 2
  | .initModelLength _ _ => 3
  | .initModelExists _ _ => 5
  | .initModelWrite _ _ => 7
  | .initModelAsset _ => 9
  | .initModelFfi _ _ => 11
  | .initFfi _ _ => 12
  | .initFfiPlugin _ _ => 13
  | .switchModelDelete _ => 15
  | .switchModelExists _ => 17
  | .disposeDelete => 1
  | .disposeExists => 3
  | .runInference => 1

def Task.rank : Task → Nat
  | .blocked _ k => k.rank + 1
  | .ready _ k => k.rank
  | .done _ => 0

def stepsLeft (x : Machine × Task) : Nat := x.2.rank

def soloStep (env : Cont → Environment) (x : Machine × Task) : Machine × Task :=
  match x.2 with
  | .blocked _ k => advance (env k) x.1 x.2
  | .ready _ k => advance (env k) x.1 x.2
  | .done _ => x

/-- A call run to its end with nothing else running in between. -/
def solo (env : Cont → Environment) (x : Machine × Task) : Machine × Task :=
  Runs.settle (soloStep env) stepsLeft x

theorem Caller.give_rank (c : Caller) (b : Bool) : (c.give b).rank ≤ 1 := by
  cases c <;> simp [give, Task.rank, Cont.rank]

theorem Machine.initModel_rank (m : Machine) (c : Caller) : (m.initModel c).2.rank ≤ 14 := by
  unfold initModel
  split <;> simp [Task.rank, Cont.rank]

theorem Machine.deleteCurrent_rank (m : Machine) (k : Cont) : (m.deleteCurrent k).2.rank ≤ k.rank + 1 := by
  unfold deleteCurrent
  split <;> simp [Task.rank]

/-- Every step of the code brings the call closer to its end. -/
theorem resume_rank (e : Environment) (k : Cont) (r : Reply) (m : Machine) :
    (resume e k r m).2.rank < k.rank := by
  unfold resume
  split
  -- the ranks are numbers, but for the calls that are entered or left here
  all_goals first
    | exact Nat.le_of_ble_eq_true rfl
    | exact Nat.lt_of_le_of_lt (Caller.give_rank _ _) (Nat.le_of_ble_eq_true rfl)
    | exact Nat.lt_of_le_of_lt (Machine.initModel_rank _ _) (Nat.le_of_ble_eq_true rfl)
    | exact Nat.lt_of_le_of_lt (Machine.deleteCurrent_rank _ _) (Nat.le_of_ble_eq_true rfl)
    | skip
  next => split <;> exact Nat.lt_succ_self 12

theorem soloStep_rank (env : Cont → Environment) (x : Machine × Task) :
    soloStep env x = x ∨ stepsLeft (soloStep env x) < stepsLeft x := by
  obtain ⟨m, task⟩ := x
  cases task with
  | blocked op k => exact Or.inr (Nat.lt_succ_self _)
  | ready r k => exact Or.inr (resume_rank (env k) k r m)
  | done c => exact Or.inl rfl

theorem solo_step (env : Cont → Environment) (x : Machine × Task) :
    solo env x = solo env (soloStep env x) :=
  (Runs.settle_step (soloStep_rank env) x).symm

theorem solo_completes (env : Cont → Environment) (x : Machine × Task) :
    ∃ c, (solo env x).2 = .done c := by
  have fixed := Runs.settle_fixed (soloStep_rank env) x
  have same : stepsLeft (soloStep env (solo env x)) = stepsLeft (solo env x) := by rw [solo, fixed]
  cases h : (solo env x).2 with
  | done c => exact ⟨c, rfl⟩
  | blocked op k =>
    simp only [stepsLeft, soloStep, h, advance, Task.rank] at same
    omega
  | ready r k =>
    have lower := resume_rank (env k) k r (solo env x).1
    simp only [stepsLeft, soloStep, h, advance] at same
    have rank : (Task.ready r k).rank = k.rank := rfl
    omega

@[simp] theorem solo_done (env : Cont → Environment) (m : Machine) (c : Completion) :
    solo env (m, .done c) = (m, .done c) := rfl

theorem solo_blocked (env : Cont → Environment) (m : Machine) (op : Op) (k : Cont) :
    solo env (m, .blocked op k) =
      solo env ({ m with world := (perform (env k) op m.world).1 }, .ready (perform (env k) op m.world).2 k) :=
  solo_step env _

theorem solo_ready (env : Cont → Environment) (m : Machine) (r : Reply) (k : Cont) :
    solo env (m, .ready r k) = solo env (resume (env k) k r m) :=
  solo_step env _

@[simp] theorem solo_give (env : Cont → Environment) (m : Machine) (c : Caller) (b : Bool) :
    solo env (m, c.give b) = (m, .done (.value b)) := by
  cases c with
  | direct => rfl
  | switchModel => rw [Caller.give, solo_ready]; rfl

end AuroraVoice
