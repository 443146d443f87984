import AuroraVoice.InputTransfer
import AuroraVoice.PluginGuard

namespace AuroraVoice

variable {Bytes : Type}

/-- An output tensor with its elements in memory. A float32 tensor holds no NaN. -/
structure OutputTensor where
  type : ElementType
  count : Nat
  data : List UInt8
  size : data.length = type.bytes * count
  positive : 1 ≤ count
  bounded : count < 2 ^ 31
  ordered : type = .float32 → ∀ k < count, Binary32.isNaN (floatAt data k) = false

/-- The value of element `k` in the tensor's own type; a float32 counts in units of 2^-149. -/
def OutputTensor.element (t : OutputTensor) (k : Nat) : Int :=
  match t.type with
  | .float32 => Binary32.value (floatAt t.data k)
  | .int8 => (t.data.getD k 0).toInt8.toInt

/-- `r` is the least index in `[0, n)` at which `f` is maximal. -/
def LeastMaximal (f : Nat → Int) (n r : Nat) : Prop :=
  r < n ∧ (∀ k < n, f k ≤ f r) ∧ ∀ k < r, f k < f r

/-- The words `output_data[i]` that `run_inference` reads, each of four bytes. -/
def wordsRead (data : List UInt8) : List Nat := 0 :: List.range' 1 ((outputSize data.length).toNat - 1)

def ReadsInside (data : List UInt8) : Prop := ∀ k ∈ wordsRead data, 4 * k + 4 ≤ data.length

def OutputTensor.Predicts (t : OutputTensor) (value : Int) : Prop :=
  ReadsInside t.data ∧ ∃ r : Nat, value = r ∧ LeastMaximal t.element t.count r

/-- `r` is the first greatest of the words `w 0 .. w (n - 1)` for a `>` that is false on NaNs: later
NaNs never count, and a NaN at 0 is never beaten. -/
def FirstGreatest (w : Nat → BitVec 32) (n r : Nat) : Prop :=
  r < n ∧ if Binary32.isNaN (w 0) then r = 0 else Binary32.isNaN (w r) = false ∧
    ∀ k < n, Binary32.isNaN (w k) = false →
      Binary32.value (w k) ≤ Binary32.value (w r) ∧ (k < r → Binary32.value (w k) < Binary32.value (w r))

/-- A float32 tensor, or an int8 tensor of at least four elements whose maximal element has, by chance,
the index of the first greatest of the words that its bytes make up. -/
def OutputTensor.ReadAsFloats (t : OutputTensor) : Prop :=
  match t.type with
  | .float32 => True
  | .int8 => 4 ≤ t.count ∧ ∃ r, LeastMaximal t.element t.count r ∧ FirstGreatest (floatAt t.data) (t.count / 4) r

/-- The input was accepted and `Invoke` succeeded. -/
def Invoked (p : Plugin Bytes) (pcm : Option (List Int16)) (length : Int32) (o : InferenceOutcome) : Prop :=
  p.interpreter.isSome ∧ PassesChecks pcm length o ∧ o.copy = true ∧ o.invoke = true

theorem LeastMaximal.unique {f : Nat → Int} {n r s : Nat} (hr : LeastMaximal f n r) (hs : LeastMaximal f n s) :
    r = s := by
  obtain ⟨rn, rmax, rfirst⟩ := hr
  obtain ⟨sn, smax, sfirst⟩ := hs
  rcases Nat.lt_trichotomy r s with lt | eq | gt
  · have below := sfirst r lt
    have above := rmax s sn
    omega
  · exact eq
  · have below := rfirst s gt
    have above := smax r rn
    omega

section Loop

variable {w : Nat → BitVec 32} {n r : Nat}

theorem FirstGreatest.unique {s : Nat} (hr : FirstGreatest w n r) (hs : FirstGreatest w n s) : r = s := by
  obtain ⟨rn, hr⟩ := hr
  obtain ⟨sn, hs⟩ := hs
  cases nan : Binary32.isNaN (w 0) with
  | true =>
    simp only [nan, if_true] at hr hs
    rw [hr, hs]
  | false =>
    simp only [nan, Bool.false_eq_true, if_false] at hr hs
    have below := hr.2 s sn hs.1
    have above := hs.2 r rn hr.1
    rcases Nat.lt_trichotomy r s with lt | eq | gt
    · have := above.2 lt
      omega
    · exact eq
    · have := below.2 gt
      omega

theorem FirstGreatest.beaten (h : FirstGreatest w n r) (greater : Binary32.gt (w n) (w r) = true) :
    FirstGreatest w (n + 1) n := by
  obtain ⟨hr, h⟩ := h
  obtain ⟨number, other, less⟩ := (Binary32.gt_iff _ _).mp greater
  refine ⟨Nat.lt_succ_self n, ?_⟩
  cases nan : Binary32.isNaN (w 0) with
  | true =>
    simp only [nan, if_true] at h
    rw [h, nan] at other
    cases other
  | false =>
    simp only [nan, Bool.false_eq_true, if_false] at h ⊢
    refine ⟨number, fun k hk hn => ?_⟩
    rcases Nat.lt_succ_iff_lt_or_eq.mp hk with earlier | rfl
    · have before := (h.2 k earlier hn).1
      omega
    · omega

theorem FirstGreatest.unbeaten (h : FirstGreatest w n r) (least : ¬ Binary32.gt (w n) (w r) = true) :
    FirstGreatest w (n + 1) r := by
  obtain ⟨hr, h⟩ := h
  refine ⟨Nat.lt_succ_of_lt hr, ?_⟩
  cases nan : Binary32.isNaN (w 0) with
  | true => simpa only [nan, if_true] using h
  | false =>
    simp only [nan, Bool.false_eq_true, if_false] at h ⊢
    refine ⟨h.1, fun k hk hn => ?_⟩
    rcases Nat.lt_succ_iff_lt_or_eq.mp hk with earlier | rfl
    · exact h.2 k earlier hn
    · have order : ¬ Binary32.value (w r) < Binary32.value (w k) := by
        intro less
        exact least ((Binary32.gt_iff _ _).mpr ⟨hn, h.1, less⟩)
      omega

/-- After `i` has run over `1 .. m`, `max_value` is the word at `max_index`, the first greatest so far. -/
theorem argmax_invariant (data : List UInt8) (m : Nat) :
    let best := (List.range' 1 m).foldl (argmaxStep data) (0, floatAt data 0)
    best.2 = floatAt data best.1 ∧ FirstGreatest (floatAt data) (m + 1) best.1 := by
  induction m with
  | zero =>
    refine ⟨rfl, Nat.one_pos, ?_⟩
    cases nan : Binary32.isNaN (floatAt data 0) with
    | true => simp
    | false =>
      simp only [List.range'_zero, List.foldl_nil, nan, Bool.false_eq_true, if_false, true_and]
      intro k hk _
      have zero : k = 0 := by omega
      subst zero
      omega
  | succ m ih =>
    obtain ⟨value, first⟩ := ih
    have last : 1 + 1 * m = m + 1 := by omega
    simp only [List.range'_concat, List.foldl_append, List.foldl_cons, List.foldl_nil, last]
    generalize (List.range' 1 m).foldl (argmaxStep data) (0, floatAt data 0) = best at value first
    unfold argmaxStep
    rw [value]
    split
    next greater => exact ⟨rfl, first.beaten greater⟩
    next least => exact ⟨value, first.unbeaten least⟩

end Loop

theorem outputSize_eq {bytes : Nat} (h : bytes / 4 < 2 ^ 31) : outputSize bytes = (bytes / 4 : Nat) := by
  unfold outputSize
  apply Int.bmod_eq_of_le
  · omega
  · omega

theorem outputSize_toNat {bytes : Nat} (h : bytes / 4 < 2 ^ 31) : (outputSize bytes).toNat = bytes / 4 := by
  rw [outputSize_eq h, Int.toNat_natCast]

theorem argmax_firstGreatest {data : List UInt8} (long : 4 ≤ data.length) (small : data.length / 4 < 2 ^ 31)
    (stray : BitVec 32) : FirstGreatest (floatAt data) (data.length / 4) (argmax data stray) := by
  have words : data.length / 4 - 1 + 1 = data.length / 4 := by omega
  have inside : ¬ data.length < 4 := by omega
  have loop : argmax data stray =
      ((List.range' 1 (data.length / 4 - 1)).foldl (argmaxStep data) (0, floatAt data 0)).1 := by
    rw [argmax, argmaxLoop, outputSize_toNat small, if_neg inside]
  rw [loop, ← words]
  exact (argmax_invariant data (data.length / 4 - 1)).2

theorem readsInside_iff {data : List UInt8} (small : data.length / 4 < 2 ^ 31) : ReadsInside data ↔ 4 ≤ data.length := by
  simp only [ReadsInside, wordsRead, outputSize_toNat small, List.mem_cons, List.mem_range'_1, forall_eq_or_imp]
  constructor
  · intro h
    omega
  · intro long
    refine ⟨by omega, fun k hk => ?_⟩
    omega

theorem Plugin.runInference_invoked {p : Plugin Bytes} {pcm : Option (List Int16)} {length : Int32}
    {o : InferenceOutcome} (h : Invoked p pcm length o) {data : List UInt8} (output : o.output = some data) :
    (p.runInference pcm length o).value = argmax data o.stray := by
  obtain ⟨interpreter, ⟨buffer, positive, bytes, input, fits⟩, copy, invoke⟩ := h
  obtain ⟨i, hi⟩ := Option.isSome_iff_exists.mp interpreter
  obtain ⟨samples, rfl⟩ := Option.isSome_iff_exists.mp buffer
  have some : ¬ length ≤ 0 := by simpa using positive
  have fits : ¬ bytes < length.toNatClampNeg * 2 := by omega
  simp only [runInference, hi, if_neg some, input, if_neg fits, copy, invoke, output, Bool.not_true,
    Bool.false_eq_true, if_false]

section Tensor

variable {t : OutputTensor}

theorem OutputTensor.words (t : OutputTensor) : t.data.length / 4 < 2 ^ 31 := by
  have size := t.size
  have bounded := t.bounded
  cases type : t.type with
  | float32 =>
    rw [type, ElementType.bytes] at size
    omega
  | int8 =>
    rw [type, ElementType.bytes] at size
    omega

/-- On the numbers of a float32 tensor the first greatest word is the first maximal element. -/
theorem OutputTensor.leastMaximal_float32 (float : t.type = .float32) {r : Nat}
    (h : FirstGreatest (floatAt t.data) t.count r) : LeastMaximal t.element t.count r := by
  have numbers := t.ordered float
  have value : ∀ k, t.element k = Binary32.value (floatAt t.data k) := by
    intro k
    simp [element, float]
  obtain ⟨hr, h⟩ := h
  simp only [numbers 0 t.positive, Bool.false_eq_true, if_false] at h
  refine ⟨hr, fun k hk => ?_, fun k hk => ?_⟩
  · rw [value, value]
    exact (h.2 k hk (numbers k hk)).1
  · have inside : k < t.count := by omega
    rw [value, value]
    exact (h.2 k inside (numbers k inside)).2 hk

end Tensor

/-- `run_inference` reads every output tensor as floats, so it finds the label of a float32 tensor, and
that of an int8 tensor only by chance. -/
theorem predicted_label_iff (t : OutputTensor) {p : Plugin Bytes} {pcm : Option (List Int16)} {length : Int32}
    {o : InferenceOutcome} (invoked : Invoked p pcm length o) (output : o.output = some t.data) :
    t.Predicts (p.runInference pcm length o).value ↔ t.ReadAsFloats := by
  rw [Plugin.runInference_invoked invoked output]
  have size := t.size
  have positive := t.positive
  unfold OutputTensor.Predicts OutputTensor.ReadAsFloats
  rw [readsInside_iff t.words]
  cases type : t.type with
  | float32 =>
    rw [type, ElementType.bytes] at size
    have long : 4 ≤ t.data.length := by omega
    have first := argmax_firstGreatest long t.words o.stray
    have words : t.data.length / 4 = t.count := by omega
    rw [words] at first
    exact iff_of_true ⟨long, _, rfl, OutputTensor.leastMaximal_float32 type first⟩ trivial
  | int8 =>
    rw [type, ElementType.bytes, Nat.one_mul] at size
    rw [size]
    refine and_congr_right fun long => ?_
    have first := argmax_firstGreatest (by omega) t.words o.stray
    rw [size] at first
    constructor
    · rintro ⟨r, value, maximal⟩
      exact ⟨r, maximal, Int.ofNat.inj value ▸ first⟩
    · rintro ⟨r, maximal, greatest⟩
      exact ⟨r, congrArg Nat.cast (first.unique greatest), maximal⟩

/-- The 21 labels of the int8 model, with the last one predicted. -/
def OutputTensor.lastLabel : OutputTensor :=
  ⟨.int8, 21, List.replicate 20 0 ++ [1], rfl, by decide, by decide, fun h => by cases h⟩

def OutputTensor.twoFloats : OutputTensor :=
  ⟨.float32, 2, [0, 0, 128, 63, 0, 0, 0, 64], rfl, by decide, by decide, fun _ => by decide⟩

def InferenceOutcome.gives (data : List UInt8) : InferenceOutcome := ⟨some 2, true, true, some data, 0⟩

def Plugin.oneSample : Plugin Unit := ⟨some ⟨0, ()⟩, some ⟨2, 0, 1, (), true, [0, 0]⟩, some ⟨1, 2⟩, 3⟩

theorem Plugin.oneSample_invoked (data : List UInt8) :
    Invoked Plugin.oneSample (some [0]) 1 (.gives data) :=
  ⟨rfl, ⟨rfl, by decide, 2, rfl, by decide⟩, rfl, rfl⟩

/-- Labels past the fifth of 21 are never found in an int8 tensor. -/
theorem last_label_missed : Invoked Plugin.oneSample (some [0]) 1 (.gives OutputTensor.lastLabel.data) ∧
    ¬ OutputTensor.lastLabel.Predicts
      (Plugin.oneSample.runInference (some [0]) 1 (.gives OutputTensor.lastLabel.data)).value := by
  refine ⟨Plugin.oneSample_invoked _, ?_⟩
  rintro ⟨_, r, value, _, maximal, _⟩
  rw [Plugin.runInference_invoked (Plugin.oneSample_invoked _) rfl] at value
  have zero : r = 0 := (Int.ofNat.inj value).symm.trans (by decide)
  have above := maximal 20 (by decide)
  rw [zero] at above
  revert above
  decide

theorem two_floats_labelled : OutputTensor.twoFloats.Predicts
    (Plugin.oneSample.runInference (some [0]) 1 (.gives OutputTensor.twoFloats.data)).value :=
  (predicted_label_iff OutputTensor.twoFloats (Plugin.oneSample_invoked _) rfl).mpr trivial

end AuroraVoice
