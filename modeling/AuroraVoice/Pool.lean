import AuroraVoice.Runs

namespace Pool

/-- Calls that share a state: what a new call does at once, and what a pending one does next. -/
structure System (σ τ κ ε : Type) where
  start : σ → κ → σ × τ
  advance : ε → σ → τ → σ × τ

structure Config (σ τ : Type) where
  state : σ
  tasks : List τ

inductive Label (κ ε : Type)
  | call (k : κ)
  | step (i : Nat) (e : ε)
  deriving DecidableEq

variable {σ τ κ ε : Type}

/-- Any interleaving is a list of labels; a step of a call that does not exist changes nothing. -/
def System.next (S : System σ τ κ ε) (c : Config σ τ) : Label κ ε → Config σ τ
  | .call k => ⟨(S.start c.state k).1, c.tasks ++ [(S.start c.state k).2]⟩
  | .step i e =>
    match c.tasks[i]? with
    | some t => ⟨(S.advance e c.state t).1, c.tasks.set i (S.advance e c.state t).2⟩
    | none => c

def Allowed (callOk : σ → κ → Prop) (stepOk : ε → σ → τ → Prop) (c : Config σ τ) : Label κ ε → Prop
  | .call k => callOk c.state k
  | .step i e => ∀ t, c.tasks[i]? = some t → stepOk e c.state t

instance decidableAllowed (callOk : σ → κ → Prop) (stepOk : ε → σ → τ → Prop) [∀ s k, Decidable (callOk s k)]
    [∀ e s t, Decidable (stepOk e s t)] (c : Config σ τ) : ∀ l, Decidable (Allowed callOk stepOk c l)
  | .call k => inferInstanceAs (Decidable (callOk c.state k))
  | .step i e =>
    match h : c.tasks[i]? with
    | none => isTrue fun t ht => by rw [h] at ht; cases ht
    | some t => decidable_of_iff (stepOk e c.state t) (by simp [Allowed, h])

/-- The state satisfies `G`, and each call the assertion that belongs to its place. -/
def Sound (G : σ → Prop) (T : Nat → σ → τ → Prop) (c : Config σ τ) : Prop :=
  G c.state ∧ ∀ i t, c.tasks[i]? = some t → T i c.state t

variable {S : System σ τ κ ε} {callOk : σ → κ → Prop} {stepOk : ε → σ → τ → Prop}
  {G : σ → Prop} {T : Nat → σ → τ → Prop} {c : Config σ τ}

theorem getElem?_set_cases {l : List τ} {i j : Nat} {t u : τ} (h : (l.set i t)[j]? = some u) :
    (j = i ∧ u = t) ∨ (j ≠ i ∧ l[j]? = some u) := by
  by_cases hj : j = i
  · subst hj
    have hlt : j < l.length := by simpa using (List.getElem?_eq_some_iff.mp h).1
    rw [List.getElem?_set_self hlt] at h
    exact Or.inl ⟨rfl, (Option.some.inj h).symm⟩
  · rw [List.getElem?_set_ne (Ne.symm hj)] at h
    exact Or.inr ⟨hj, h⟩

theorem getElem?_concat_cases {l : List τ} {j : Nat} {t u : τ} (h : (l ++ [t])[j]? = some u) :
    (j = l.length ∧ u = t) ∨ (j < l.length ∧ l[j]? = some u) := by
  have hj : j < (l ++ [t]).length := (List.getElem?_eq_some_iff.mp h).1
  rw [List.length_append, List.length_singleton] at hj
  by_cases hl : j < l.length
  · rw [List.getElem?_append_left hl] at h
    exact Or.inr ⟨hl, h⟩
  · have last : j = l.length := by omega
    subst last
    simp only [List.getElem?_concat_length, Option.some.injEq] at h
    exact Or.inl ⟨rfl, h.symm⟩

theorem next_step {i : Nat} {t : τ} (h : c.tasks[i]? = some t) (e : ε) :
    S.next c (.step i e) = ⟨(S.advance e c.state t).1, c.tasks.set i (S.advance e c.state t).2⟩ := by
  simp [System.next, h]

theorem next_idle {i : Nat} (h : c.tasks[i]? = none) (e : ε) : S.next c (.step i e) = c := by
  simp [System.next, h]

/-- A call moves by its own steps only. -/
theorem next_at {i : Nat} {t : τ} (h : c.tasks[i]? = some t) (l : Label κ ε) :
    (∃ e, l = .step i e ∧ (S.next c l).state = (S.advance e c.state t).1 ∧
        (S.next c l).tasks[i]? = some (S.advance e c.state t).2) ∨
      ((∀ e, l ≠ .step i e) ∧ (S.next c l).tasks[i]? = some t) := by
  have hlt := (List.getElem?_eq_some_iff.mp h).1
  cases l with
  | call k =>
    refine Or.inr ⟨by simp, ?_⟩
    simpa [System.next, List.getElem?_append_left hlt] using h
  | step j e =>
    by_cases hj : j = i
    · subst hj
      refine Or.inl ⟨e, rfl, ?_⟩
      rw [next_step h]
      exact ⟨rfl, List.getElem?_set_self hlt⟩
    · refine Or.inr ⟨by simp [hj], ?_⟩
      cases hu : c.tasks[j]? with
      | none => rwa [next_idle hu]
      | some u =>
        rw [next_step hu]
        exact (List.getElem?_set_ne hj).trans h

theorem next_state (call : ∀ s k, G s → G (S.start s k).1)
    (step : ∀ e s t, G s → G (S.advance e s t).1) (l : Label κ ε) (h : G c.state) :
    G (S.next c l).state := by
  cases l with
  | call k => exact call _ k h
  | step i e =>
    cases ht : c.tasks[i]? with
    | none => rw [next_idle ht]; exact h
    | some t => rw [next_step ht]; exact step e _ t h

/-- The assertions survive a call that establishes its own and disturbs no other. -/
theorem Sound.call (h : Sound G T c) (k : κ) (state : G (S.start c.state k).1)
    (own : T c.tasks.length (S.start c.state k).1 (S.start c.state k).2)
    (others : ∀ i t, c.tasks[i]? = some t → T i c.state t → T i (S.start c.state k).1 t) :
    Sound G T (S.next c (.call k)) := by
  refine ⟨state, fun i t ht => ?_⟩
  rcases getElem?_concat_cases ht with ⟨rfl, rfl⟩ | ⟨_, ht⟩
  · exact own
  · exact others i t ht (h.2 i t ht)

/-- The assertions survive a step that keeps its own and disturbs no other. -/
theorem Sound.step (h : Sound G T c) {i : Nat} (e : ε)
    (keep : ∀ t, c.tasks[i]? = some t → T i c.state t →
      G (S.advance e c.state t).1 ∧ T i (S.advance e c.state t).1 (S.advance e c.state t).2 ∧
        ∀ j u, j ≠ i → c.tasks[j]? = some u → T j c.state u → T j (S.advance e c.state t).1 u) :
    Sound G T (S.next c (.step i e)) := by
  cases ht : c.tasks[i]? with
  | none => rw [next_idle ht]; exact h
  | some t =>
    obtain ⟨state, own, others⟩ := keep t ht (h.2 i t ht)
    rw [next_step ht]
    refine ⟨state, fun j u hu => ?_⟩
    rcases getElem?_set_cases hu with ⟨rfl, rfl⟩ | ⟨hj, hu⟩
    · exact own
    · exact others j u hj hu (h.2 j u hu)

def System.alone (S : System σ τ κ ε) (x : σ × τ) (e : ε) : σ × τ := S.advance e x.1 x.2

theorem run_steps {i : Nat} {t : τ} (h : c.tasks[i]? = some t) (es : List ε) :
    Runs.run S.next c (es.map (.step i)) =
      ⟨(Runs.run S.alone (c.state, t) es).1, c.tasks.set i (Runs.run S.alone (c.state, t) es).2⟩ := by
  induction es generalizing c t with
  | nil =>
    obtain ⟨hi, ht⟩ := List.getElem?_eq_some_iff.mp h
    simp [← ht]
  | cons e es ih =>
    have hlt := (List.getElem?_eq_some_iff.mp h).1
    rw [List.map_cons, Runs.run_cons, next_step h, ih (List.getElem?_set_self hlt)]
    simp [System.alone]

theorem along_steps {i : Nat} {t : τ} (h : c.tasks[i]? = some t) (es : List ε) :
    Runs.Along S.next (Allowed callOk stepOk) c (es.map (.step i)) ↔
      Runs.Along S.alone (fun x e => stepOk e x.1 x.2) (c.state, t) es := by
  induction es generalizing c t with
  | nil => simp
  | cons e es ih =>
    have hlt := (List.getElem?_eq_some_iff.mp h).1
    rw [List.map_cons, Runs.along_cons, Runs.along_cons, next_step h, ih (List.getElem?_set_self hlt)]
    simp [System.alone, Allowed, h]

end Pool
