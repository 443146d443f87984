import Mathlib.Logic.Basic
import Mathlib.Logic.Function.Iterate

namespace Runs

variable {σ α : Type}

/-- The state a run ends in: `step` applied once for each action, in order. -/
def run (step : σ → α → σ) (s : σ) (actions : List α) : σ := actions.foldl step s

def states (step : σ → α → σ) : σ → List α → List σ
  | s, [] => [s]
  | s, a :: actions => s :: states step (step s a) actions

/-- Every action of the run meets `ok` in the state it is taken from. -/
def Along (step : σ → α → σ) (ok : σ → α → Prop) : σ → List α → Prop
  | _, [] => True
  | s, a :: actions => ok s a ∧ Along step ok (step s a) actions

instance decidableAlong (step : σ → α → σ) (ok : σ → α → Prop) [∀ s a, Decidable (ok s a)] :
    ∀ s actions, Decidable (Along step ok s actions)
  | _, [] => isTrue trivial
  | s, a :: actions =>
    @instDecidableAnd _ _ inferInstance (decidableAlong step ok (step s a) actions)

variable {step : σ → α → σ} {ok : σ → α → Prop} {I : σ → Prop}

@[simp] theorem run_nil (s : σ) : run step s [] = s := rfl

@[simp] theorem run_cons (s : σ) (a : α) (actions : List α) :
    run step s (a :: actions) = run step (step s a) actions := rfl

theorem run_append (s : σ) (first second : List α) :
    run step s (first ++ second) = run step (run step s first) second :=
  List.foldl_append

@[simp] theorem along_nil (s : σ) : Along step ok s [] := trivial

@[simp] theorem along_cons (s : σ) (a : α) (actions : List α) :
    Along step ok s (a :: actions) ↔ ok s a ∧ Along step ok (step s a) actions := Iff.rfl

theorem along_append (s : σ) (first second : List α) :
    Along step ok s (first ++ second) ↔
      Along step ok s first ∧ Along step ok (run step s first) second := by
  induction first generalizing s with
  | nil => simp
  | cons a first ih => simp [ih, and_assoc]

theorem run_map {β : Type} (f : β → α) (s : σ) (xs : List β) :
    run step s (xs.map f) = run (fun s x => step s (f x)) s xs :=
  List.foldl_map

theorem along_map {β : Type} (f : β → α) (s : σ) (xs : List β) :
    Along step ok s (xs.map f) ↔ Along (fun s x => step s (f x)) (fun s x => ok s (f x)) s xs := by
  induction xs generalizing s with
  | nil => exact Iff.rfl
  | cons x xs ih => rw [List.map_cons, along_cons, along_cons, ih]

theorem run_mem_states (s : σ) (actions : List α) : run step s actions ∈ states step s actions := by
  induction actions generalizing s with
  | nil => simp [states]
  | cons a actions ih => exact List.mem_cons_of_mem _ (ih (step s a))

theorem run_induction (keep : ∀ s a, I s → I (step s a)) {s : σ} (h : I s) (actions : List α) :
    I (run step s actions) := by
  induction actions generalizing s with
  | nil => exact h
  | cons a actions ih => exact ih (keep s a h)

theorem along_induction (keep : ∀ s a, I s → ok s a → I (step s a)) {s : σ} (h : I s)
    {actions : List α} (good : Along step ok s actions) : I (run step s actions) := by
  induction actions generalizing s with
  | nil => exact h
  | cons a actions ih => exact ih (keep s a h good.1) good.2

theorem along_and {good : σ → α → Prop} {s : σ} {actions : List α} (first : Along step ok s actions)
    (second : Along step good s actions) : Along step (fun s a => ok s a ∧ good s a) s actions := by
  induction actions generalizing s with
  | nil => trivial
  | cons a actions ih => exact ⟨⟨first.1, second.1⟩, ih first.2 second.2⟩

/-- Steps that meet `ok` also meet what it implies under an invariant they keep. -/
theorem along_invariant {good : σ → α → Prop} (keep : ∀ s a, I s → ok s a → I (step s a))
    (imp : ∀ s a, I s → ok s a → good s a) {s : σ} (h : I s) {actions : List α}
    (along : Along step ok s actions) : Along step good s actions := by
  induction actions generalizing s with
  | nil => trivial
  | cons a actions ih => exact ⟨imp s a h along.1, ih (keep s a h along.1) along.2⟩

/-- A relation that the steps meeting `ok` keep is a forward simulation. -/
theorem simulation {ρ : Type} {spec : ρ → α → ρ} {R : σ → ρ → Prop}
    (keep : ∀ s r a, R s r → ok s a → R (step s a) (spec r a)) {s : σ} {r : ρ} (h : R s r)
    {actions : List α} (good : Along step ok s actions) : R (run step s actions) (run spec r actions) := by
  induction actions generalizing s r with
  | nil => exact h
  | cons a actions ih => exact ih (keep s r a h good.1) good.2

/-- Two conditions that agree wherever an invariant holds pick out the same runs. -/
theorem along_congr {good : σ → α → Prop} (keep : ∀ s a, I s → I (step s a))
    (same : ∀ s a, I s → (ok s a ↔ good s a)) {s : σ} (h : I s) (actions : List α) :
    Along step ok s actions ↔ Along step good s actions := by
  induction actions generalizing s with
  | nil => exact Iff.rfl
  | cons a actions ih => rw [along_cons, along_cons, same s a h, ih (keep s a h)]

/-- Where `ok` is exactly the condition under which one step keeps the predicate `P`, the runs
that satisfy it in every state are exactly those whose steps all meet `ok`. -/
theorem forall_states_iff_along {P : σ → Prop} (keep : ∀ s a, I s → I (step s a))
    (sharp : ∀ s a, I s → P s → (P (step s a) ↔ ok s a)) {s : σ} (hi : I s) (h : P s)
    (actions : List α) : (∀ t ∈ states step s actions, P t) ↔ Along step ok s actions := by
  induction actions generalizing s with
  | nil => simpa [states] using h
  | cons a actions ih =>
    have later := keep s a hi
    constructor
    · intro all
      have next : P (step s a) := by
        apply all
        cases actions <;> simp [states]
      exact ⟨(sharp s a hi h).mp next, (ih later next).mp fun t ht => all t (List.mem_cons_of_mem _ ht)⟩
    · rintro ⟨good, rest⟩ t ht
      have next := (sharp s a hi h).mpr good
      rcases List.mem_cons.mp ht with eq | ht
      · exact eq ▸ h
      · exact (ih later next).mpr rest t ht

def settle (f : σ → σ) (rank : σ → Nat) (s : σ) : σ := f^[rank s] s

theorem settle_fixed {f : σ → σ} {rank : σ → Nat} (down : ∀ s, f s = s ∨ rank (f s) < rank s) (s : σ) :
    f (settle f rank s) = settle f rank s := by
  have stop : ∀ n s, rank s ≤ n → f (f^[n] s) = f^[n] s := by
    intro n
    induction n with
    | zero =>
      intro s h
      rcases down s with fixed | lower
      · exact fixed
      · omega
    | succ n ih =>
      intro s h
      rw [Function.iterate_succ_apply]
      rcases down s with fixed | lower
      · rw [fixed, Function.iterate_fixed fixed, fixed]
      · exact ih (f s) (by omega)
  exact stop (rank s) s (Nat.le_refl _)

theorem settle_step {f : σ → σ} {rank : σ → Nat} (down : ∀ s, f s = s ∨ rank (f s) < rank s) (s : σ) :
    settle f rank (f s) = settle f rank s := by
  rcases down s with fixed | lower
  · rw [fixed]
  · obtain ⟨k, hk⟩ : ∃ k, rank s = k + rank (f s) + 1 := ⟨rank s - rank (f s) - 1, by omega⟩
    have rest := Function.iterate_fixed (settle_fixed down (f s)) k
    calc settle f rank (f s) = f^[k] (f^[rank (f s)] (f s)) := rest.symm
      _ = f^[k + rank (f s)] (f s) := (Function.iterate_add_apply f k (rank (f s)) (f s)).symm
      _ = settle f rank s := by rw [settle, hk, Function.iterate_succ_apply]

end Runs
