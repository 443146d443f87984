import Mathlib.Algebra.Group.Nat.Defs

namespace Binary32

/-- Four bytes of memory read as one little-endian word. -/
def ofBytes (b0 b1 b2 b3 : UInt8) : BitVec 32 :=
  b3.toBitVec ++ b2.toBitVec ++ b1.toBitVec ++ b0.toBitVec

def isNaN (x : BitVec 32) : Bool :=
  x.extractLsb' 23 8 == 255#8 && x.extractLsb' 0 23 != 0#23

/-- Sign and magnitude as one integer: the numeric order on words that are no NaN, with both zeros
at the same place. -/
def key (x : BitVec 32) : Int :=
  if x.msb then -((x.extractLsb' 0 31).toNat : Int) else ((x.extractLsb' 0 31).toNat : Int)

/-- The comparison `x > y` of the hardware: false as soon as one side is a NaN. -/
def gt (x y : BitVec 32) : Bool :=
  !isNaN x && !isNaN y && decide (key y < key x)

/-- The value of a word without its sign in units of 2^-149, the least positive number of the format:
every finite number is a whole count of these. Infinity comes out above all of them. -/
def magnitude (bits : Nat) : Nat :=
  if bits / 2 ^ 23 = 0 then bits % 2 ^ 23 else (2 ^ 23 + bits % 2 ^ 23) * 2 ^ (bits / 2 ^ 23 - 1)

def value (x : BitVec 32) : Int :=
  if x.msb then -(magnitude (x.extractLsb' 0 31).toNat : Int) else (magnitude (x.extractLsb' 0 31).toNat : Int)

theorem magnitude_lt_succ_exponent (bits : Nat) : magnitude bits < 2 ^ 23 * 2 ^ (bits / 2 ^ 23) := by
  have low : bits % 2 ^ 23 < 2 ^ 23 := Nat.mod_lt _ (by decide)
  unfold magnitude
  split
  next zero =>
    rw [zero, Nat.pow_zero, Nat.mul_one]
    exact low
  next exponent =>
    obtain ⟨e, he⟩ := Nat.exists_eq_succ_of_ne_zero exponent
    rw [he, Nat.succ_sub_one]
    calc (2 ^ 23 + bits % 2 ^ 23) * 2 ^ e
        < (2 ^ 23 * 2) * 2 ^ e := Nat.mul_lt_mul_of_pos_right (by omega) (Nat.two_pow_pos e)
      _ = 2 ^ 23 * 2 ^ (e + 1) := by rw [Nat.mul_assoc, Nat.pow_succ' (n := e)]

theorem le_magnitude {bits : Nat} (h : bits / 2 ^ 23 ≠ 0) : 2 ^ 23 * 2 ^ (bits / 2 ^ 23 - 1) ≤ magnitude bits := by
  rw [magnitude, if_neg h]
  exact Nat.mul_le_mul_right _ (Nat.le_add_right _ _)

theorem magnitude_lt {a b : Nat} (h : a < b) : magnitude a < magnitude b := by
  have exponents : a / 2 ^ 23 ≤ b / 2 ^ 23 := Nat.div_le_div_right (Nat.le_of_lt h)
  rcases Nat.lt_or_eq_of_le exponents with lower | same
  · have low := magnitude_lt_succ_exponent a
    have high : 2 ^ 23 * 2 ^ (b / 2 ^ 23 - 1) ≤ magnitude b := le_magnitude (by omega)
    have between : 2 ^ (a / 2 ^ 23) ≤ 2 ^ (b / 2 ^ 23 - 1) := Nat.pow_le_pow_right (by decide) (by omega)
    exact Nat.lt_of_lt_of_le low (Nat.le_trans (Nat.mul_le_mul_left _ between) high)
  · have fraction : a % 2 ^ 23 < b % 2 ^ 23 := by omega
    unfold magnitude
    rw [same]
    split
    next => exact fraction
    next => exact Nat.mul_lt_mul_of_pos_right (by omega) (Nat.two_pow_pos _)

theorem magnitude_lt_iff {a b : Nat} : magnitude a < magnitude b ↔ a < b := by
  refine ⟨fun h => ?_, magnitude_lt⟩
  rcases Nat.lt_trichotomy a b with lt | rfl | gt
  · exact lt
  · omega
  · have := magnitude_lt gt
    omega

/-- The words are in the order of the numbers they stand for. -/
theorem key_lt_key_iff (x y : BitVec 32) : key x < key y ↔ value x < value y := by
  have zero : magnitude 0 = 0 := rfl
  have order := magnitude_lt_iff (a := (x.extractLsb' 0 31).toNat) (b := (y.extractLsb' 0 31).toNat)
  have reverse := magnitude_lt_iff (a := (y.extractLsb' 0 31).toNat) (b := (x.extractLsb' 0 31).toNat)
  have left := magnitude_lt_iff (a := 0) (b := (x.extractLsb' 0 31).toNat)
  have right := magnitude_lt_iff (a := 0) (b := (y.extractLsb' 0 31).toNat)
  rw [zero] at left right
  unfold key value
  cases x.msb <;> cases y.msb <;> simp only [Bool.false_eq_true, if_true, if_false] <;> omega

theorem gt_iff (x y : BitVec 32) : gt x y = true ↔ isNaN x = false ∧ isNaN y = false ∧ value y < value x := by
  simp only [gt, Bool.and_eq_true, Bool.not_eq_true', decide_eq_true_eq, key_lt_key_iff, and_assoc]

end Binary32
