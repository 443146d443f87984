import AuroraVoice.PluginHistory

namespace AuroraVoice

variable {Bytes : Type}

/-- The element types of the tensors in the bundled models. -/
inductive ElementType
  | float32
  | int8
  deriving DecidableEq

def ElementType.bytes : ElementType → Nat
  | .float32 => 4
  | .int8 => 1

def PcmBuffer.count (x : PcmBuffer) : Nat := x.length.toNatClampNeg

def NativeResult.Invokes (r : NativeResult Bytes) : Prop := ∃ i, .interpreterInvoke i ∈ r.calls

/-- The whole buffer is what the first input tensor holds, and `Invoke` is called on it. -/
def NativeResult.Transfers (r : NativeResult Bytes) (x : PcmBuffer) : Prop :=
  r.Invokes ∧ ∃ i samples, r.plugin.interpreter = some i ∧ x.samples = some samples ∧
    i.input = pcmBytes samples x.count

/-- One sample for each of the `n` elements of the input tensor is accepted, and no other length. -/
def InputTransfer (n : Nat) (x : PcmBuffer) (r : NativeResult Bytes) : Prop :=
  (r.Transfers x ↔ x.count = n) ∧ (x.count ≠ n → r.value = -1 ∧ ¬ r.Invokes)

theorem PcmBuffer.count_pos {x : PcmBuffer} (h : 0 < x.length) : 0 < x.count := by
  have positive : 0 < x.length.toInt := by simpa using Int32.lt_iff_toInt_lt.mp h
  have same : x.count = x.length.toInt.toNat := rfl
  omega

section Copy

variable {T : TfLite Bytes} {p : Plugin Bytes} {file : Bytes} {x : PcmBuffer} {samples : List Int16} {size : Nat}

theorem TfLite.infer_refused (loaded : T.Sized file p) (tensor : T.inputSize file = some size)
    (buffer : x.samples = some samples) (positive : 0 < x.length) (differ : x.count * 2 ≠ size) (stray : BitVec 32) :
    (T.infer p x stray).value = -1 ∧ ¬ (T.infer p x stray).Invokes := by
  obtain ⟨i, hi, rfl, _⟩ := loaded
  have some : ¬ x.length ≤ 0 := by simpa using positive
  have refused : (T.inferenceOutcome i x stray).copy = false := by
    simpa [inferenceOutcome, tensor, PcmBuffer.count] using Ne.symm differ
  have input : (T.inferenceOutcome i x stray).input = .some size := tensor
  simp only [infer, hi, Plugin.runInference, buffer, some, if_false, input, refused, Bool.not_false, if_true]
  split
  next => exact ⟨rfl, by simp [NativeResult.Invokes]⟩
  next => exact ⟨rfl, by simp [NativeResult.Invokes]⟩

theorem TfLite.infer_copied (loaded : T.Sized file p) (tensor : T.inputSize file = some size)
    (buffer : x.samples = some samples) (positive : 0 < x.length) (same : x.count * 2 = size) (stray : BitVec 32) :
    (T.infer p x stray).Transfers x := by
  obtain ⟨i, hi, rfl, sized⟩ := loaded
  have some : ¬ x.length ≤ 0 := by simpa using positive
  have copied : (T.inferenceOutcome i x stray).copy = true := by
    simpa [inferenceOutcome, tensor, PcmBuffer.count] using same.symm
  have input : (T.inferenceOutcome i x stray).input = .some size := tensor
  have fits : ¬ size < x.length.toNatClampNeg * 2 := by
    have : x.length.toNatClampNeg * 2 = size := same
    omega
  have whole : i.input.drop (x.length.toNatClampNeg * 2) = [] := by
    have : x.length.toNatClampNeg * 2 = size := same
    rw [this, List.drop_eq_nil_iff]
    exact Nat.le_of_eq (sized size tensor)
  simp only [infer, hi, Plugin.runInference, buffer, some, if_false, input, copied, fits, Bool.not_true,
    Bool.false_eq_true, whole, List.append_nil]
  split
  next => exact ⟨⟨i.handle, by simp⟩, _, samples, rfl, buffer, rfl⟩
  next =>
    split
    next => exact ⟨⟨i.handle, by simp⟩, _, samples, rfl, buffer, rfl⟩
    next => exact ⟨⟨i.handle, by simp⟩, _, samples, rfl, buffer, rfl⟩

end Copy

/-- The two size checks count bytes and never look at the element type, so the one length that gets
through is half the byte size of the tensor. -/
theorem input_transfer_iff (T : TfLite Bytes) {p : Plugin Bytes} {file : Bytes} (loaded : T.Sized file p)
    {type : ElementType} {n : Nat} (tensor : T.inputSize file = some (type.bytes * n)) {x : PcmBuffer}
    {samples : List Int16} (buffer : x.samples = some samples) (positive : 0 < x.length) (stray : BitVec 32) :
    InputTransfer n x (T.infer p x stray) ↔ x.count ≠ n ∧ x.count * 2 ≠ type.bytes * n := by
  have some : 0 < x.count := PcmBuffer.count_pos positive
  by_cases same : x.count * 2 = type.bytes * n
  · have copied := TfLite.infer_copied loaded tensor buffer positive same stray
    have differ : x.count ≠ n := by
      intro eq
      rw [eq] at same some
      cases type <;> simp only [ElementType.bytes] at same <;> omega
    refine iff_of_false ?_ fun h => h.2 same
    intro h
    exact differ (h.1.mp copied)
  · obtain ⟨value, idle⟩ := TfLite.infer_refused loaded tensor buffer positive same stray
    have none : ¬ (T.infer p x stray).Transfers x := fun h => idle h.1
    constructor
    · intro h
      exact ⟨fun eq => none (h.1.mpr eq), same⟩
    · intro h
      exact ⟨iff_of_false none h.1, fun _ => ⟨value, idle⟩⟩

/-- The float32 and float16 models take 128 by 32 elements of type float32. -/
def TfLite.bundled : TfLite Unit :=
  ⟨fun _ => true, fun _ => true, fun _ => true, fun _ => some 16384, fun _ _ => none⟩

def Plugin.bundled : Plugin Unit :=
  ⟨some ⟨0, ()⟩, some ⟨2, 0, 1, (), true, List.replicate 16384 0⟩, some ⟨1, 2⟩, 3⟩

theorem Plugin.bundled_sized : TfLite.bundled.Sized () Plugin.bundled := by
  refine ⟨_, rfl, rfl, fun n hn => ?_⟩
  rw [List.length_replicate]
  exact Option.some.inj hn

/-- A buffer of zeros, as `_runInference` sends it. -/
def PcmBuffer.zeros (length : Int32) : PcmBuffer :=
  ⟨some (List.replicate length.toNatClampNeg 0), length, by simp⟩

/-- A sample for each element: the copy refuses the buffer. -/
theorem one_sample_per_element_refused :
    ¬ InputTransfer 4096 (PcmBuffer.zeros 4096) (TfLite.bundled.infer Plugin.bundled (PcmBuffer.zeros 4096) 0) := by
  intro h
  have count : (PcmBuffer.zeros 4096).count = 4096 := by decide
  obtain ⟨_, idle⟩ := TfLite.infer_refused (x := PcmBuffer.zeros 4096) Plugin.bundled_sized rfl rfl (by decide)
    (by rw [count]; decide) 0
  exact idle (h.1.mpr count).1

/-- The 16000 samples that the app always sends are refused. -/
theorem second_of_audio_refused :
    InputTransfer 4096 (PcmBuffer.zeros 16000) (TfLite.bundled.infer Plugin.bundled (PcmBuffer.zeros 16000) 0) := by
  have count : (PcmBuffer.zeros 16000).count = 16000 := by decide
  have tensor : TfLite.bundled.inputSize () = some (ElementType.float32.bytes * 4096) := rfl
  refine (input_transfer_iff TfLite.bundled Plugin.bundled_sized tensor rfl (by decide) 0).mpr ?_
  rw [count]
  decide

end AuroraVoice
