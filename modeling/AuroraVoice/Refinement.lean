import AuroraVoice.HappyPath
import AuroraVoice.Solo

namespace AuroraVoice

/-- A call that the abstract machine answers has completed with that answer or is on its way to
it; any other call is a callback or is over. -/
def Answered (s : Spec) (m : Machine) (i : Nat) (t : Task) : Prop :=
  match s.answers[i]? with
  | some (some b) => t = .done (.value b) ∨ (b = true ∧ ∃ type caller, s.current = some type ∧
      Aims type m caller t ∧ Tidy type m t ∧ Linked m t ∧ t.changing = true)
  | _ => t.Ticks

/-- The relation between the service and the abstract machine, in every state of a run. -/
structure Simulates (c : Config) (s : Spec) : Prop where
  length : c.tasks.length = s.answers.length
  answered : ∀ i t, c.tasks[i]? = some t → Answered s c.state i t
  single : ∀ (i j : Nat) (t u : Task), c.tasks[i]? = some t → c.tasks[j]? = some u →
    t.changing = true → u.changing = true → i = j
  rest : NoChange c → AtRest s.current c.state

section Step

variable {c : Config} {s : Spec}

theorem Answered.same {m next : Machine} {i : Nat} {t : Task} (h : Answered s m i t) (same : SameModel m next) :
    Answered s next i t := by
  unfold Answered at h ⊢
  split at h
  next =>
    rcases h with finished | ⟨hb, type, caller, current, aims, tidy, linked, changing⟩
    · exact Or.inl finished
    · exact Or.inr ⟨hb, type, caller, current, aims.stable (same.keeps type), same.tidy tidy,
        same.linked linked, changing⟩
  next => exact h

theorem Answered.still {m next : Machine} {r : Spec} {i : Nat} {t : Task} (h : Answered s m i t)
    (idle : t.changing = false) (answers : r.answers[i]? = s.answers[i]?) : Answered r next i t := by
  unfold Answered at h ⊢
  rw [answers]
  split at h
  next =>
    rcases h with finished | ⟨_, _, _, _, _, _, _, changing⟩
    · exact Or.inl finished
    · rw [idle] at changing
      cases changing
  next => exact h

theorem NoChange.of_set {i : Nat} {t : Task} (hi : i < c.tasks.length) {m : Machine}
    (h : NoChange ⟨m, c.tasks.set i t⟩) :
    t.changing = false ∧ ∀ j u, j ≠ i → c.tasks[j]? = some u → u.changing = false := by
  refine ⟨h t (List.mem_of_getElem? (List.getElem?_set_self hi)), fun j u hj hu => h u ?_⟩
  exact List.mem_of_getElem? ((List.getElem?_set_ne (Ne.symm hj)).trans hu)

theorem Simulates.tick (h : Simulates c s) {i : Nat} {t : Task} (ht : c.tasks[i]? = some t) (ticks : t.Ticks)
    (noAnswer : ∀ b, s.answers[i]? ≠ some (some b)) (e : Environment) : Simulates (c.next (.step i e)) s := by
  obtain ⟨same, next⟩ := ticks.advance e c.state
  have hi : i < c.tasks.length := (List.getElem?_eq_some_iff.mp ht).1
  have own : Answered s (advance e c.state t).1 i (advance e c.state t).2 := by
    unfold Answered
    split
    next b hb => exact absurd hb (noAnswer b)
    next => exact next
  rw [Config.next, Pool.next_step ht]
  refine ⟨by simpa using h.length, fun j u hu => ?_, fun j k u v hu hv cu cv => ?_, fun idle => ?_⟩
  · rcases Pool.getElem?_set_cases hu with ⟨rfl, rfl⟩ | ⟨_, hu⟩
    · exact own
    · exact (h.answered j u hu).same same
  · rcases Pool.getElem?_set_cases hu with ⟨_, rfl⟩ | ⟨_, hu⟩
    · rw [calls_advance, next.not_changing] at cu
      cases cu
    · rcases Pool.getElem?_set_cases hv with ⟨_, rfl⟩ | ⟨_, hv⟩
      · rw [calls_advance, next.not_changing] at cv
        cases cv
      · exact h.single j k u v hu hv cu cv
  · have before : NoChange c := by
      intro u hu
      obtain ⟨j, hj⟩ := List.mem_iff_getElem?.mp hu
      by_cases eq : j = i
      · subst eq
        rw [ht] at hj
        exact Option.some.inj hj ▸ ticks.not_changing
      · exact (NoChange.of_set hi idle).2 j u eq hj
    exact same.atRest (h.rest before)

theorem Simulates.work (h : Simulates c s) {i : Nat} {t : Task} (ht : c.tasks[i]? = some t) {type : String}
    {caller : Caller} (answer : s.answers[i]? = some (some true)) (current : s.current = some type)
    (aims : Aims type c.state caller t) (tidy : Tidy type c.state t) (linked : Linked c.state t)
    (changing : t.changing = true) {e : Environment} (ok : Succeeds e c.state t) :
    Simulates (c.next (.step i e)) s := by
  obtain ⟨_, next⟩ := aims.advanced ok
  have tidy' := aims.tidy_advanced tidy ok
  have linked' := aims.linked_advanced linked ok
  have hi : i < c.tasks.length := (List.getElem?_eq_some_iff.mp ht).1
  have others : ∀ j u, j ≠ i → c.tasks[j]? = some u → u.changing = false := by
    intro j u hj hu
    cases hc : u.changing with
    | false => rfl
    | true => exact absurd (h.single j i u t hu ht hc changing) hj
  rw [Config.next, Pool.next_step ht]
  refine ⟨by simpa using h.length, fun j u hu => ?_, fun j k u v hu hv cu cv => ?_, fun idle => ?_⟩
  · rcases Pool.getElem?_set_cases hu with ⟨rfl, rfl⟩ | ⟨hj, hu⟩
    · simp only [Answered, answer]
      rcases next.changing_or_done with busy | ⟨r, finished⟩
      · exact Or.inr ⟨trivial, type, caller, current, next, tidy', linked', busy⟩
      · rw [finished] at next tidy' linked'
        rw [calls_advance, finished, (next.atRest tidy' linked').1]
        exact Or.inl rfl
    · exact (h.answered j u hu).still (others j u hj hu) rfl
  · have only : ∀ j u, (c.tasks.set i (advance e c.state t).2)[j]? = some u → u.changing = true → j = i := by
      intro j u hu hc
      rcases Pool.getElem?_set_cases hu with ⟨rfl, _⟩ | ⟨hj, hu⟩
      · rfl
      · rw [others j u hj hu] at hc
        cases hc
    rw [only j u hu cu, only k v hv cv]
  · have quiet := (NoChange.of_set hi idle).1
    rcases next.changing_or_done with busy | ⟨r, finished⟩
    · rw [calls_advance, busy] at quiet
      cases quiet
    · rw [finished] at next tidy' linked'
      rw [current]
      exact (next.atRest tidy' linked').2

theorem next_call (c : Config) (k : Call) :
    c.next (.call k) = ⟨(c.state.start k).1, c.tasks ++ [(c.state.start k).2]⟩ := rfl

theorem NoChange.of_concat {m : Machine} {t : Task} (h : NoChange ⟨m, c.tasks ++ [t]⟩) :
    t.changing = false ∧ NoChange c :=
  ⟨h t (by simp), fun u hu => h u (by simp [hu])⟩

theorem answers_concat (h : Simulates c s) (a : Option Bool) {i : Nat} (hi : i < c.tasks.length) :
    (s.answers ++ [a])[i]? = s.answers[i]? :=
  List.getElem?_append_left (h.length ▸ hi)

/-- A listening call or a tick comes in, between or in the middle of the model changes. -/
theorem Simulates.listen (h : Simulates c s) {k : Call} (happy : k.happy = true) (hk : k.model = none) :
    Simulates (c.next (.call k)) (s.next (.call k)) := by
  obtain ⟨same, ticks⟩ := start_same happy hk c.state
  have spec : s.next (.call k) = ⟨s.current, s.answers ++ [none]⟩ := by simp [Spec.next, hk]
  rw [next_call, spec]
  refine ⟨by simp [h.length], fun j u hu => ?_, fun j l u v hu hv cu cv => ?_, fun idle => ?_⟩
  · rcases Pool.getElem?_concat_cases hu with ⟨rfl, rfl⟩ | ⟨hj, hu⟩
    · simp only [Answered, h.length, List.getElem?_concat_length]
      exact ticks
    · have before := (h.answered j u hu).same same
      unfold Answered at before ⊢
      rw [answers_concat h none hj]
      exact before
  · rcases Pool.getElem?_concat_cases hu with ⟨_, rfl⟩ | ⟨_, hu⟩
    · rw [ticks.not_changing] at cu
      cases cu
    · rcases Pool.getElem?_concat_cases hv with ⟨_, rfl⟩ | ⟨_, hv⟩
      · rw [ticks.not_changing] at cv
        cases cv
      · exact h.single j l u v hu hv cu cv
  · exact same.atRest (h.rest (NoChange.of_concat idle).2)

theorem Simulates.change (h : Simulates c s) {x : ModelCall} (idle : NoChange c) :
    Simulates ⟨(c.state.start x.call).1, c.tasks ++ [(c.state.start x.call).2]⟩
      ⟨(x.answer s.current).1, s.answers ++ [some (x.answer s.current).2]⟩ := by
  have rest := h.rest idle
  have old : ∀ (j : Nat) (u : Task), c.tasks[j]? = some u → u.changing = false :=
    fun j u hu => idle u (List.mem_of_getElem? hu)
  have only : ∀ j u, (c.tasks ++ [(c.state.start x.call).2])[j]? = some u → u.changing = true → j = c.tasks.length := by
    intro j u hu hc
    rcases Pool.getElem?_concat_cases hu with ⟨rfl, _⟩ | ⟨_, hu⟩
    · rfl
    · rw [old j u hu] at hc
      cases hc
  refine ⟨by simp [h.length], fun j u hu => ?_, fun j l u v hu hv cu cv => ?_, fun quiet => ?_⟩
  · rcases Pool.getElem?_concat_cases hu with ⟨rfl, rfl⟩ | ⟨hj, hu⟩
    · simp only [Answered, h.length, List.getElem?_concat_length]
      by_cases early : x.Early c.state.view
      · left
        rw [start_early early, rest.answer_early early]
      · right
        obtain ⟨_, aims, _⟩ := start_aims early
        obtain ⟨tidy, linked, changing⟩ := rest.start early
        rw [rest.answer_active early]
        exact ⟨rfl, _, x.caller, rfl, aims, tidy, linked, changing⟩
    · exact (h.answered j u hu).still (old j u hu) (answers_concat h _ hj)
  · rw [only j u hu cu, only l v hv cv]
  · by_cases early : x.Early c.state.view
    · simp only [start_early early, rest.answer_early early]
      exact rest
    · have busy := (rest.start early).2.2
      rw [(NoChange.of_concat quiet).1] at busy
      cases busy

theorem simulates_next (c : Config) (s : Spec) (l : Label) (h : Simulates c s) (happy : Happy c l) :
    Simulates (c.next l) (s.next l) := by
  cases l with
  | call k =>
    cases hk : k.model with
    | none => exact h.listen happy.1 hk
    | some x =>
      have call : k = x.call := by
        cases k with
        | initModel => cases hk; rfl
        | switchModel newType => cases hk; rfl
        | _ => cases hk
      have idle : NoChange c := happy.2 (by rw [hk]; rfl)
      have spec : s.next (.call k) = ⟨(x.answer s.current).1, s.answers ++ [some (x.answer s.current).2]⟩ := by
        simp [Spec.next, hk]
      rw [next_call, spec, call]
      exact h.change idle
  | step i e =>
    change Simulates (c.next (.step i e)) s
    cases ht : c.tasks[i]? with
    | none => rw [Config.next, Pool.next_idle ht]; exact h
    | some t =>
      have answered := h.answered i t ht
      unfold Answered at answered
      split at answered
      next b hb =>
        rcases answered with rfl | ⟨rfl, type, caller, current, aims, tidy, linked, changing⟩
        · rw [next_done ht]; exact h
        · exact h.work ht hb current aims tidy linked changing (happy t ht)
      next hb => exact h.tick ht answered hb e

theorem Simulates.initial : Simulates Config.initial Spec.initial := by
  have empty : ∀ (i : Nat) (t : Task), Config.initial.tasks[i]? ≠ some t := by simp [Config.initial]
  refine ⟨rfl, fun i t ht => absurd ht (empty i t), fun i _ t _ ht => absurd ht (empty i t), fun _ => ?_⟩
  exact ⟨⟨rfl, rfl, rfl, fun _ => rfl⟩, rfl, rfl⟩

theorem Simulates.worker (h : Simulates c s) {i : Nat} {t : Task} (ht : c.tasks[i]? = some t)
    (changing : t.changing = true) :
    ∃ type caller, Aims type c.state caller t ∧ Tidy type c.state t ∧ Linked c.state t := by
  have answered := h.answered i t ht
  unfold Answered at answered
  split at answered
  next =>
    rcases answered with rfl | ⟨_, type, caller, _, aims, tidy, linked, _⟩
    · cases changing
    · exact ⟨type, caller, aims, tidy, linked⟩
  next =>
    rw [answered.not_changing] at changing
    cases changing

theorem advance_rank {t : Task} (h : t.changing = true) (e : Environment) (m : Machine) :
    (advance e m t).2.rank < t.rank := by
  cases t with
  | blocked op k => exact Nat.lt_succ_self _
  | ready r k => exact resume_rank e k r m
  | done r => cases h

theorem NoChange.of_not (h : ¬ NoChange c) : ∃ (i : Nat) (t : Task), c.tasks[i]? = some t ∧ t.changing = true := by
  obtain ⟨t, mem, changing⟩ : ∃ t ∈ c.tasks, t.changing = true := by
    simpa [NoChange] using h
  obtain ⟨i, ht⟩ := List.mem_iff_getElem?.mp mem
  exact ⟨i, t, ht, changing⟩

/-- The pending model change can take a step, and has fewer left to take. -/
theorem Simulates.progress (h : Simulates c s) {i : Nat} {t : Task} (ht : c.tasks[i]? = some t)
    (changing : t.changing = true) : Happy c (.step i Environment.fine) ∧
      ∀ u ∈ (c.next (.step i Environment.fine)).tasks, u.changing = true → u.rank < t.rank := by
  obtain ⟨type, caller, aims, tidy, linked⟩ := h.worker ht changing
  constructor
  · intro u hu
    rw [ht] at hu
    exact Option.some.inj hu ▸ aims.progress tidy linked
  · intro u hu hc
    rw [Config.next, Pool.next_step ht] at hu
    obtain ⟨j, hj⟩ := List.mem_iff_getElem?.mp hu
    rcases Pool.getElem?_set_cases hj with ⟨_, rfl⟩ | ⟨ne, hj⟩
    · exact advance_rank changing Environment.fine c.state
    · exact absurd (h.single j i u t hj ht hc changing) ne

/-- A model change that is under way can be brought to its end, by induction on the steps it has left. -/
theorem Simulates.completes_within (n : Nat) : ∀ {c : Config}, Simulates c s →
    (∀ t ∈ c.tasks, t.changing = true → t.rank ≤ n) → ∃ rest : List (Nat × Environment),
      Runs.Along Config.next Happy c (rest.map stepOf) ∧ NoChange (Runs.run Config.next c (rest.map stepOf)) := by
  induction n with
  | zero =>
    intro c _ low
    refine ⟨[], trivial, fun t ht => ?_⟩
    cases changing : t.changing with
    | false => rfl
    | true =>
      have fewer := advance_rank changing Environment.fine c.state
      have none := low t ht changing
      omega
  | succ n ih =>
    intro c h low
    by_cases quiet : NoChange c
    · exact ⟨[], trivial, quiet⟩
    · obtain ⟨i, t, ht, changing⟩ := NoChange.of_not quiet
      obtain ⟨happy, lower⟩ := h.progress ht changing
      have before := low t (List.mem_of_getElem? ht) changing
      have next : Simulates (c.next (.step i Environment.fine)) s := simulates_next c s _ h happy
      obtain ⟨rest, along, ended⟩ := ih next fun u hu hc => by
        have fewer := lower u hu hc
        omega
      exact ⟨(i, Environment.fine) :: rest, ⟨happy, along⟩, ended⟩

theorem Simulates.completes (h : Simulates c s) : ∃ rest : List (Nat × Environment),
    Runs.Along Config.next Happy c (rest.map stepOf) ∧ NoChange (Runs.run Config.next c (rest.map stepOf)) := by
  by_cases quiet : NoChange c
  · exact ⟨[], trivial, quiet⟩
  · obtain ⟨i, t, ht, changing⟩ := NoChange.of_not quiet
    refine h.completes_within t.rank fun u hu hc => ?_
    obtain ⟨j, hj⟩ := List.mem_iff_getElem?.mp hu
    have same := h.single j i u t hj ht hc changing
    subst same
    rw [ht] at hj
    exact Option.some.inj hj ▸ Nat.le_refl _

end Step

/-- On the happy path the service refines the machine that only has a current type: whenever no
model change is pending it agrees with it in state, temporary files and every value returned, and
a pending model change can always be brought to its end. -/
theorem happy_path_refinement (labels : List Label)
    (happy : Runs.Along Config.next Happy Config.initial labels) :
    let c := Runs.run Config.next Config.initial labels
    let s := Runs.run Spec.next Spec.initial labels
    (NoChange c → Refines s.current c.state ∧
      ∀ (i : Nat) (b : Bool), s.answers[i]? = some (some b) → c.tasks[i]? = some (.done (.value b))) ∧
      ∃ rest : List (Nat × Environment), Runs.Along Config.next Happy c (rest.map stepOf) ∧
        NoChange (Runs.run Config.next c (rest.map stepOf)) := by
  intro c s
  have sim : Simulates c s := Runs.simulation simulates_next Simulates.initial happy
  refine ⟨fun quiet => ⟨(sim.rest quiet).1, fun i b hb => ?_⟩, sim.completes⟩
  have hi : i < c.tasks.length := by
    rw [sim.length]
    exact (List.getElem?_eq_some_iff.mp hb).1
  have answered := sim.answered i _ (List.getElem?_eq_getElem hi)
  simp only [Answered, hb] at answered
  rcases answered with finished | ⟨_, _, _, _, _, _, _, changing⟩
  · rw [List.getElem?_eq_getElem hi, finished]
  · rw [quiet _ (List.getElem_mem hi)] at changing
    cases changing

/-- A switch to int8 while the service listens, with a tick in the middle of it. -/
theorem switch_while_listening_refines :
    let labels := .call .initModel :: List.replicate 13 (.step 0 Environment.fine) ++
      [.call .startListening, .call (.switchModel modelInt8), .step 2 Environment.fine, .call (.tick 0),
        .step 3 Environment.fine, .step 3 Environment.fine] ++ List.replicate 14 (.step 2 Environment.fine)
    Runs.Along Config.next Happy Config.initial labels ∧
      Refines (some modelInt8) (Runs.run Config.next Config.initial labels).state := by
  intro labels
  have happy : Runs.Along Config.next Happy Config.initial labels := by decide
  exact ⟨happy, ((happy_path_refinement labels happy).1 (by decide)).1⟩

end AuroraVoice
