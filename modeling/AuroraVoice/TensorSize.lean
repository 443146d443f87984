import AuroraVoice.ArenaPlanner
import AuroraVoice.Runs
import Mathlib.Algebra.BigOperators.Group.List.Basic

namespace AuroraVoice

inductive TfLiteType
  | noType
  | float32
  | int32
  | uint8
  | int64
  | string
  | bool
  | int16
  | complex64
  | int8
  | float16
  | float64
  | complex128
  | uint64
  | resource
  | variant
  | uint32
  | uint16
  | int4
  | bfloat16
  | int2
  | uint4
  deriving DecidableEq

/-- The size of one unpacked element, none for the types that have no fixed size. -/
def getSizeOfType : TfLiteType → Option Nat
  | .float32 => some 4
  | .int32 => some 4
  | .uint32 => some 4
  | .uint8 => some 1
  | .int64 => some 8
  | .uint64 => some 8
  | .bool => some 1
  | .complex64 => some 8
  | .complex128 => some 16
  | .uint16 => some 2
  | .int16 => some 2
  | .int8 => some 1
  | .float16 => some 2
  | .bfloat16 => some 2
  | .float64 => some 8
  | .uint4 => some 1
  | .int4 => some 1
  | .int2 => some 1
  | _ => none

/-- The product, and whether the status is `kTfLiteOk`. -/
def multiplyAndCheckOverflow (a b : Nat) : Bool × Nat :=
  let product := wrap (a * b)
  if (a ||| b) >>> 32 ≠ 0 then (!(a ≠ 0 && product / a ≠ b), product) else (true, product)

/-- A dimension as a `size_t`: negative ones are very large. -/
def dimSize (d : Int) : Nat := (d % 2 ^ 64).toNat

def countElements : Nat → List Int → Option Nat
  | count, [] => some count
  | count, d :: dims =>
    match multiplyAndCheckOverflow count (dimSize d) with
    | (true, count) => countElements count dims
    | (false, _) => none

inductive SizeError
  | elementsOverflowed
  | unsupportedType
  | bytesOverflowed
  deriving DecidableEq

/-- Two or four elements in a byte, rounded up. -/
def TfLiteType.pack (type : TfLiteType) (bytes : Nat) : Nat :=
  if type = .int4 ∨ type = .uint4 then wrap (bytes + 1) / 2
  else if type = .int2 then wrap (bytes + 3) / 4
  else bytes

/-- `BytesRequired` with the value `*bytes` has before, which an early error leaves as it is. -/
def bytesRequired (type : TfLiteType) (dims : List Int) (bytes : Nat) : Option SizeError × Nat :=
  match countElements 1 dims with
  | none => (some .elementsOverflowed, bytes)
  | some count =>
    match getSizeOfType type with
    | none => (some .unsupportedType, bytes)
    | some typeSize =>
      match multiplyAndCheckOverflow typeSize count with
      | (false, product) => (some .bytesOverflowed, product)
      | (true, product) => (none, type.pack product)

section Size

theorem multiplyAndCheckOverflow_snd (a b : Nat) : (multiplyAndCheckOverflow a b).2 = wrap (a * b) := by
  unfold multiplyAndCheckOverflow
  dsimp only
  split <;> rfl

/-- The quick test on the upper halves and the division agree with the true product. -/
theorem multiplyAndCheckOverflow_fst (a b : Nat) :
    (multiplyAndCheckOverflow a b).1 = true ↔ a * b < 2 ^ 64 := by
  unfold multiplyAndCheckOverflow
  dsimp only
  split
  next large =>
    by_cases zero : a = 0
    · simp [zero]
    · have pos : 0 < a := Nat.pos_of_ne_zero zero
      constructor
      · intro same
        have quotient : wrap (a * b) / a = b := by simpa [zero] using same
        calc a * b = a * (wrap (a * b) / a) := by rw [quotient]
          _ ≤ wrap (a * b) := Nat.mul_div_le _ _
          _ < 2 ^ 64 := Nat.mod_lt _ (by decide)
      · intro small
        have exact' : wrap (a * b) = a * b := Nat.mod_eq_of_lt small
        simp [exact', Nat.mul_div_cancel_left b pos]
  next small =>
    have zero : (a ||| b) >>> 32 = 0 := by simpa using small
    have halves : a ||| b < 2 ^ 32 := by
      rw [Nat.shiftRight_eq_div_pow] at zero
      omega
    have left : a < 2 ^ 32 := Nat.lt_of_le_of_lt Nat.left_le_or halves
    have right : b < 2 ^ 32 := Nat.lt_of_le_of_lt Nat.right_le_or halves
    refine ⟨fun _ => ?_, fun _ => rfl⟩
    calc a * b < 2 ^ 32 * 2 ^ 32 := Nat.mul_lt_mul'' left right
      _ = 2 ^ 64 := by decide

/-- The loop fails at the first prefix whose product does not fit. -/
theorem countElements_eq {count n : Nat} (dims : List Int) (hc : count < 2 ^ 64) :
    countElements count dims = some n ↔
      (∀ p, p <+: dims → count * (p.map dimSize).prod < 2 ^ 64) ∧ n = count * (dims.map dimSize).prod := by
  induction dims generalizing count with
  | nil =>
    simp only [countElements, List.prefix_nil, forall_eq, List.map_nil, List.prod_nil, Nat.mul_one, Option.some.injEq]
    exact ⟨fun eq => ⟨hc, eq.symm⟩, fun h => h.2.symm⟩
  | cons d dims ih =>
    have fst := multiplyAndCheckOverflow_fst count (dimSize d)
    have snd := multiplyAndCheckOverflow_snd count (dimSize d)
    unfold countElements
    split
    next product eq =>
      rw [eq] at fst snd
      have small : count * dimSize d < 2 ^ 64 := fst.mp rfl
      obtain rfl : product = count * dimSize d := snd.trans (Nat.mod_eq_of_lt small)
      rw [ih small, List.map_cons, List.prod_cons, Nat.mul_assoc]
      refine and_congr_left fun _ => ⟨fun all p prefix' => ?_, fun all p prefix' => ?_⟩
      · rcases List.prefix_cons_iff.mp prefix' with rfl | ⟨q, rfl, rest⟩
        · simpa using hc
        · rw [List.map_cons, List.prod_cons, ← Nat.mul_assoc]
          exact all q rest
      · have whole := all (d :: p) (List.cons_prefix_cons.mpr ⟨rfl, prefix'⟩)
        rw [List.map_cons, List.prod_cons, ← Nat.mul_assoc] at whole
        exact whole
    next product eq =>
      rw [eq] at fst
      refine ⟨nofun, fun h => ?_⟩
      have first := h.1 [d] (List.cons_prefix_cons.mpr ⟨rfl, List.nil_prefix⟩)
      rw [List.map_singleton, List.prod_singleton] at first
      cases fst.mpr first

/-- Below the last few sizes, packing rounds up. -/
theorem TfLiteType.pack_eq (type : TfLiteType) {n : Nat} (small : n + 3 < 2 ^ 64) : type.pack n =
    if type = .int4 ∨ type = .uint4 then (n + 1) / 2 else if type = .int2 then (n + 3) / 4 else n := by
  unfold TfLiteType.pack
  rw [wrap, wrap, Nat.mod_eq_of_lt small, Nat.mod_eq_of_lt (Nat.lt_of_le_of_lt (by omega) small)]

end Size

/-- For every type and all dimensions, also zeros and negative ones: the size is refused exactly when the type has none,
when a leading product of the dimensions does not fit into 64 bits, or when the bytes do not; else it is exact, and
packed elements are rounded up to bytes except for the last three sizes, where the rounding wraps around. -/
theorem bytes_required_exact (type : TfLiteType) (dims : List Int) (before : Nat) :
    ((bytesRequired type dims before).1 = none ↔ ∃ typeSize, getSizeOfType type = some typeSize ∧
      (∀ p, p <+: dims → (p.map dimSize).prod < 2 ^ 64) ∧ typeSize * (dims.map dimSize).prod < 2 ^ 64) ∧
    ∀ bytes, bytesRequired type dims before = (none, bytes) → ∃ typeSize, getSizeOfType type = some typeSize ∧
      bytes = type.pack (typeSize * (dims.map dimSize).prod) ∧
      (typeSize * (dims.map dimSize).prod + 3 < 2 ^ 64 → bytes =
        if type = .int4 ∨ type = .uint4 then (typeSize * (dims.map dimSize).prod + 1) / 2
        else if type = .int2 then (typeSize * (dims.map dimSize).prod + 3) / 4
        else typeSize * (dims.map dimSize).prod) := by
  have count : ∀ n, countElements 1 dims = some n ↔
      (∀ p, p <+: dims → (p.map dimSize).prod < 2 ^ 64) ∧ n = (dims.map dimSize).prod := by
    intro n
    simpa only [Nat.one_mul] using countElements_eq (n := n) dims (by decide : 1 < 2 ^ 64)
  unfold bytesRequired
  split
  next failed =>
    refine ⟨⟨nofun, ?_⟩, nofun⟩
    rintro ⟨_, _, fits, _⟩
    rw [(count _).mpr ⟨fits, rfl⟩] at failed
    cases failed
  next n counted =>
    obtain ⟨fits, rfl⟩ := (count n).mp counted
    split
    next unsupported =>
      refine ⟨⟨nofun, ?_⟩, nofun⟩
      rintro ⟨_, eq, _⟩
      rw [unsupported] at eq
      cases eq
    next typeSize size =>
      have fst := multiplyAndCheckOverflow_fst typeSize (dims.map dimSize).prod
      have snd := multiplyAndCheckOverflow_snd typeSize (dims.map dimSize).prod
      split
      next product eq =>
        rw [eq] at fst
        refine ⟨⟨nofun, ?_⟩, nofun⟩
        rintro ⟨_, same, _, small⟩
        obtain rfl := Option.some.inj (size.symm.trans same)
        cases fst.mpr small
      next product eq =>
        rw [eq] at fst snd
        have small := fst.mp rfl
        refine ⟨⟨fun _ => ⟨typeSize, size, fits, small⟩, fun _ => rfl⟩, fun bytes same => ⟨typeSize, size, ?_⟩⟩
        obtain rfl : product = typeSize * (dims.map dimSize).prod := snd.trans (Nat.mod_eq_of_lt small)
        obtain rfl := (Prod.mk.inj same).2
        exact ⟨rfl, fun room => type.pack_eq room⟩

-- a product that is zero in the end is refused all the same
example : (bytesRequired .int8 [2 ^ 31 - 1, 2 ^ 31 - 1, 2 ^ 31 - 1, 0] 0).1 = some .elementsOverflowed := by decide

/-- A tensor with its type and dimensions. `data` is none for a null pointer, and else the size of the block where
that is on the heap. -/
structure ShapedTensor extends TfLiteTensor where
  type : TfLiteType
  dims : List Int
  data : Option Nat

def TfLiteType.sized (type : TfLiteType) : Bool := type ≠ .string && type ≠ .resource && type ≠ .variant

def TfLiteAllocationType.onHeap (type : TfLiteAllocationType) : Bool := type = .dynamic || type = .persistentRo

/-- `SetTensorParametersReadWrite`, none where the status is an error. -/
def setTensorParametersReadWrite (type : TfLiteType) (dims : List Int) (isVariable : Bool) : Option ShapedTensor :=
  if type.sized then
    match bytesRequired type dims 0 with
    | (none, bytes) => some ⟨⟨bytes, if isVariable then .arenaRwPersistent else .arenaRw⟩, type, dims, none⟩
    | _ => none
  else if isVariable then none
  else some ⟨⟨0, .dynamic⟩, type, dims, none⟩

def kXnnExtraBytes : Nat := 16

/-- `TfLiteTensorResizeMaybeCopy` with what `malloc` answers. -/
def ShapedTensor.resizeMaybeCopy (numBytes : Nat) (malloc : Bool) (t : ShapedTensor) : ShapedTensor :=
  if t.allocationType.onHeap then
    let block := if malloc then some (wrap (numBytes + kXnnExtraBytes)) else none
    { t with
      data := match t.data with
        | none => block
        | some capacity => if numBytes > t.bytes then block else some capacity
      bytes := numBytes }
  else t

/-- Arena tensors lose their place and get a new one later. -/
def ShapedTensor.reshape (newSize : List Int) (t : ShapedTensor) : ShapedTensor :=
  { t with
    dims := newSize
    data := if t.allocationType = .arenaRw ∨ t.allocationType = .arenaRwPersistent then none else t.data }

/-- `ResizeTensorImpl`, with none where the status is an error. The status of `ResizeMaybeCopy` is not looked at. -/
def ShapedTensor.resizeTensorImpl (newSize : List Int) (malloc : Bool) (t : ShapedTensor) : Option ShapedTensor :=
  if t.allocationType ∈ [.arenaRw, .dynamic, .arenaRwPersistent, .persistentRo, .custom, .nonCpu] then
    if t.type.sized then
      match bytesRequired t.type newSize 0 with
      | (none, bytes) => some ({ t.resizeMaybeCopy bytes malloc with bytes := bytes }.reshape newSize)
      | _ => none
    else some (t.reshape newSize)
  else none

/-- The dimensions and the size do not change, so the memory can stay. -/
def ShapedTensor.canReuseAllocation (newSize : List Int) (t : ShapedTensor) : Bool :=
  t.data.isSome && t.dims = newSize && (!t.type.sized || (bytesRequired t.type t.dims 0).2 = t.bytes)

def ShapedTensor.resizeTensor (newSize : List Int) (malloc : Bool) (t : ShapedTensor) : Option ShapedTensor :=
  if t.canReuseAllocation newSize then some { t with dims := newSize } else t.resizeTensorImpl newSize malloc

def ShapedTensor.dataFree (t : ShapedTensor) : ShapedTensor := { t with data := none }

/-- `SetTensorToDynamic` and `SetTensorToPersistentRo`. -/
def ShapedTensor.setAllocationType (kind : TfLiteAllocationType) (t : ShapedTensor) : ShapedTensor :=
  if t.allocationType = kind then t else { t.dataFree with allocationType := kind }

/-- `MayAllocateOpOutput` for one output. -/
def ShapedTensor.mayAllocate (malloc : Bool) (t : ShapedTensor) : ShapedTensor :=
  if t.data = none ∧ t.allocationType = .dynamic then t.resizeMaybeCopy t.bytes malloc else t

/-- What happens to one tensor: `resolve` is the planner that gives it a place in an arena. -/
inductive TensorStep
  | resizeTensor (newSize : List Int) (malloc : Bool)
  | setTensorToDynamic
  | setTensorToPersistentRo
  | dataFree
  | mayAllocate (malloc : Bool)
  | resolve

def ShapedTensor.next (t : ShapedTensor) : TensorStep → ShapedTensor
  | .resizeTensor newSize malloc => (t.resizeTensor newSize malloc).getD t
  | .setTensorToDynamic => t.setAllocationType .dynamic
  | .setTensorToPersistentRo => t.setAllocationType .persistentRo
  | .dataFree => t.dataFree
  | .mayAllocate malloc => t.mayAllocate malloc
  | .resolve => if t.allocationType.onHeap then t else { t with data := some t.bytes }

section Resize

variable {t : ShapedTensor}

/-- The size is the one that type and dimensions require. -/
def ShapedTensor.Exact (t : ShapedTensor) : Prop := t.type.sized = true → bytesRequired t.type t.dims 0 = (none, t.bytes)

/-- A block on the heap holds the tensor and the bytes that may be read behind it. -/
def ShapedTensor.Backed (t : ShapedTensor) : Prop :=
  t.allocationType.onHeap = true → ∀ capacity, t.data = some capacity → t.bytes + kXnnExtraBytes ≤ capacity

/-- A resize asks for a size that leaves room for these bytes. -/
def TensorStep.Fits (t : ShapedTensor) : TensorStep → Prop
  | .resizeTensor newSize _ => ∀ bytes, bytesRequired t.type newSize 0 = (none, bytes) → bytes + kXnnExtraBytes < 2 ^ 64
  | _ => True

theorem ShapedTensor.resizeMaybeCopy_frame (n : Nat) (malloc : Bool) (t : ShapedTensor) :
    (t.resizeMaybeCopy n malloc).type = t.type ∧ (t.resizeMaybeCopy n malloc).dims = t.dims ∧
      (t.resizeMaybeCopy n malloc).allocationType = t.allocationType := by
  unfold ShapedTensor.resizeMaybeCopy
  split <;> exact ⟨rfl, rfl, rfl⟩

/-- What a successful resize leaves: the two ways to get there agree on everything but the memory. -/
theorem ShapedTensor.resizeTensor_spec {newSize : List Int} {malloc : Bool} {u : ShapedTensor} (h : t.Exact)
    (eq : t.resizeTensor newSize malloc = some u) :
    u.type = t.type ∧ u.dims = newSize ∧ u.allocationType = t.allocationType ∧ u.Exact := by
  unfold ShapedTensor.resizeTensor at eq
  split at eq
  next reuse =>
    obtain rfl := Option.some.inj eq
    have same : t.dims = newSize := by
      simp only [ShapedTensor.canReuseAllocation, Bool.and_eq_true, decide_eq_true_eq] at reuse
      exact reuse.1.2
    exact ⟨rfl, rfl, rfl, same ▸ h⟩
  next =>
    unfold ShapedTensor.resizeTensorImpl at eq
    split at eq
    next =>
      split at eq
      next sized =>
        split at eq
        next bytes required =>
          obtain rfl := Option.some.inj eq
          obtain ⟨type, _, kind⟩ := t.resizeMaybeCopy_frame bytes malloc
          refine ⟨type, rfl, kind, fun _ => ?_⟩
          show bytesRequired (t.resizeMaybeCopy bytes malloc).type newSize 0 = _
          rw [type]
          exact required
        next => cases eq
      next unsized =>
        obtain rfl := Option.some.inj eq
        exact ⟨rfl, rfl, rfl, fun sized => absurd sized unsized⟩
    next => cases eq

theorem ShapedTensor.Exact.next (t : ShapedTensor) (step : TensorStep) (h : t.Exact) : (t.next step).Exact := by
  cases step with
  | resizeTensor newSize malloc =>
    simp only [ShapedTensor.next]
    cases eq : t.resizeTensor newSize malloc with
    | none => exact h
    | some u => exact (ShapedTensor.resizeTensor_spec h eq).2.2.2
  | setTensorToDynamic =>
    simp only [ShapedTensor.next, ShapedTensor.setAllocationType]
    split <;> exact h
  | setTensorToPersistentRo =>
    simp only [ShapedTensor.next, ShapedTensor.setAllocationType]
    split <;> exact h
  | dataFree => exact h
  | mayAllocate malloc =>
    simp only [ShapedTensor.next, ShapedTensor.mayAllocate]
    split
    next =>
      unfold ShapedTensor.resizeMaybeCopy
      split <;> exact h
    next => exact h
  | resolve =>
    simp only [ShapedTensor.next]
    split <;> exact h

/-- A new block is large enough, and an old one is kept only for a size that is no larger. -/
theorem ShapedTensor.Backed.resizeMaybeCopy (h : t.Backed) {n : Nat} (room : n + kXnnExtraBytes < 2 ^ 64) (malloc : Bool) :
    Backed { t.resizeMaybeCopy n malloc with bytes := n } := by
  have fresh : ∀ capacity, (if malloc then some (wrap (n + kXnnExtraBytes)) else none) = some capacity →
      n + kXnnExtraBytes ≤ capacity := by
    intro capacity eq
    cases malloc with
    | true =>
      obtain rfl := Option.some.inj eq
      rw [wrap, Nat.mod_eq_of_lt room]
    | false => cases eq
  intro onHeap capacity eq
  obtain ⟨_, _, kind⟩ := t.resizeMaybeCopy_frame n malloc
  have heap : t.allocationType.onHeap = true := kind ▸ onHeap
  simp only [ShapedTensor.resizeMaybeCopy, heap, if_true] at eq
  split at eq
  next => exact fresh capacity eq
  next old data =>
    split at eq
    next => exact fresh capacity eq
    next smaller =>
      obtain rfl := Option.some.inj eq
      have large := h heap old data
      show n + kXnnExtraBytes ≤ old
      omega

theorem ShapedTensor.Backed.reshape (h : t.Backed) (newSize : List Int) : (t.reshape newSize).Backed := by
  intro onHeap capacity eq
  refine h onHeap capacity ?_
  unfold ShapedTensor.reshape at eq
  dsimp only at eq
  split at eq
  next => cases eq
  next => exact eq

theorem ShapedTensor.Backed.setAllocationType (h : t.Backed) (kind : TfLiteAllocationType) :
    (t.setAllocationType kind).Backed := by
  unfold ShapedTensor.setAllocationType
  split
  next => exact h
  next => exact fun _ capacity eq => by cases eq

/-- Backed, with room for the next block of the same size. -/
def ShapedTensor.Roomy (t : ShapedTensor) : Prop := t.Exact ∧ t.Backed ∧ t.bytes + kXnnExtraBytes < 2 ^ 64

theorem ShapedTensor.Roomy.next (t : ShapedTensor) (step : TensorStep) (h : t.Roomy) (fits : step.Fits t) :
    (t.next step).Roomy := by
  obtain ⟨exact', backed, room⟩ := h
  refine ⟨ShapedTensor.Exact.next t step exact', ?_⟩
  cases step with
  | resizeTensor newSize malloc =>
    simp only [ShapedTensor.next, ShapedTensor.resizeTensor]
    split
    next => exact ⟨backed, room⟩
    next =>
      unfold ShapedTensor.resizeTensorImpl
      split
      next =>
        split
        next =>
          split
          next bytes required =>
            have fit := fits bytes required
            exact ⟨(backed.resizeMaybeCopy fit malloc).reshape newSize, fit⟩
          next => exact ⟨backed, room⟩
        next => exact ⟨backed.reshape newSize, room⟩
      next => exact ⟨backed, room⟩
  | setTensorToDynamic =>
    refine ⟨backed.setAllocationType _, ?_⟩
    simp only [ShapedTensor.next, ShapedTensor.setAllocationType]
    split <;> exact room
  | setTensorToPersistentRo =>
    refine ⟨backed.setAllocationType _, ?_⟩
    simp only [ShapedTensor.next, ShapedTensor.setAllocationType]
    split <;> exact room
  | dataFree => exact ⟨fun _ _ eq => (by cases eq), room⟩
  | mayAllocate malloc =>
    simp only [ShapedTensor.next, ShapedTensor.mayAllocate]
    split
    next =>
      have same : { t.resizeMaybeCopy t.bytes malloc with bytes := t.bytes } = t.resizeMaybeCopy t.bytes malloc := by
        unfold ShapedTensor.resizeMaybeCopy
        split <;> rfl
      exact same ▸ ⟨backed.resizeMaybeCopy room malloc, room⟩
    next => exact ⟨backed, room⟩
  | resolve =>
    simp only [ShapedTensor.next]
    split
    next => exact ⟨backed, room⟩
    next off => exact ⟨fun on => absurd on off, room⟩

theorem setTensorParametersReadWrite_exact {type : TfLiteType} {dims : List Int} {isVariable : Bool}
    (made : setTensorParametersReadWrite type dims isVariable = some t) : t.Exact ∧ t.Backed := by
  unfold setTensorParametersReadWrite at made
  split at made
  next =>
    split at made
    next bytes required =>
      obtain rfl := Option.some.inj made
      exact ⟨fun _ => required, fun _ _ eq => by cases eq⟩
    next => cases made
  next unsized =>
    split at made
    next => cases made
    next =>
      obtain rfl := Option.some.inj made
      exact ⟨fun sized => absurd sized unsized, fun _ _ eq => by cases eq⟩

end Resize

/-- A tensor through any run of resizes, of changes of its allocation type and of allocations that may fail: its size is always
the one its type and dimensions require, a resize to the dimensions it has changes nothing, and, as long as no size is asked
for that leaves no room for the extra bytes, a block on the heap holds it. -/
theorem tensor_sizes {type : TfLiteType} {dims : List Int} {isVariable : Bool} {t : ShapedTensor}
    (made : setTensorParametersReadWrite type dims isVariable = some t) (steps : List TensorStep) :
    let u := Runs.run ShapedTensor.next t steps
    (u.type.sized = true → bytesRequired u.type u.dims 0 = (none, u.bytes)) ∧
      (u.data.isSome = true → ∀ malloc, u.resizeTensor u.dims malloc = some u) ∧
      (t.bytes + kXnnExtraBytes < 2 ^ 64 → Runs.Along ShapedTensor.next TensorStep.Fits t steps → u.Backed) := by
  intro u
  obtain ⟨exact', backed⟩ := setTensorParametersReadWrite_exact made
  have sizes : u.Exact := Runs.run_induction ShapedTensor.Exact.next exact' steps
  refine ⟨sizes, fun there malloc => ?_, fun room fits => ?_⟩
  · have reuse : u.canReuseAllocation u.dims = true := by
      unfold ShapedTensor.canReuseAllocation
      cases sized : u.type.sized with
      | true => simp [there, sizes sized]
      | false => simp [there]
    exact if_pos reuse
  · have roomy : u.Roomy := Runs.along_induction ShapedTensor.Roomy.next ⟨exact', backed, room⟩ fits
    exact roomy.2.1

/-- A dynamic tensor that grows, shrinks and grows again. -/
theorem growing_tensor_sizes :
    let t : ShapedTensor := ⟨⟨40, .arenaRw⟩, .float32, [1, 10], none⟩
    let steps : List TensorStep := [.setTensorToDynamic, .resizeTensor [2, 10] true, .resizeTensor [1] true,
      .resizeTensor [5, 5] true]
    setTensorParametersReadWrite .float32 [1, 10] false = some t ∧
      (Runs.run ShapedTensor.next t steps).data = some 116 ∧ (Runs.run ShapedTensor.next t steps).Backed := by
  refine ⟨rfl, rfl, ?_⟩
  obtain ⟨_, _, backed⟩ := @tensor_sizes .float32 [1, 10] false ⟨⟨40, .arenaRw⟩, .float32, [1, 10], none⟩ rfl
    [.setTensorToDynamic, .resizeTensor [2, 10] true, .resizeTensor [1] true, .resizeTensor [5, 5] true]
  refine backed (by decide) ⟨trivial, ?_, ?_, ?_, trivial⟩
  all_goals
    intro bytes required
    obtain rfl := (Prod.mk.inj required).2
    decide

-- a dimension of -1 asks for 2^64 - 1 bytes and gets a block of 15
example : let t : ShapedTensor := ⟨⟨1, .dynamic⟩, .int8, [1], none⟩
    (t.next (.resizeTensor [-1] true)).bytes = 2 ^ 64 - 1 ∧ (t.next (.resizeTensor [-1] true)).data = some 15 := by
  decide

end AuroraVoice
