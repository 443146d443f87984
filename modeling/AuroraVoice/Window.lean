import Mathlib.Data.List.Basic

namespace Window

variable {α : Type} {n : Nat} {log xs : List α}

/-- `xs` is the last `n` elements of the log in order, or the whole log while it is shorter. -/
def IsLast (n : Nat) (log xs : List α) : Prop := xs <:+ log ∧ xs.length = min n log.length

theorem isLast_nil (n : Nat) : IsLast n ([] : List α) [] := ⟨List.suffix_rfl, by simp⟩

/-- A window that appends and then drops its oldest element when it has grown too long. -/
theorem IsLast.push (h : IsLast n log xs) (a : α) :
    IsLast n (log ++ [a]) (if n < (xs ++ [a]).length then (xs ++ [a]).tail else xs ++ [a]) := by
  obtain ⟨suffix, length⟩ := h
  have longer : xs ++ [a] <:+ log ++ [a] := List.suffix_append_self_iff.mpr suffix
  split
  next full =>
    refine ⟨(List.tail_suffix _).trans longer, ?_⟩
    rw [List.length_append, List.length_singleton] at full
    simp only [List.length_tail, List.length_append, List.length_singleton]
    omega
  next room =>
    refine ⟨longer, ?_⟩
    rw [List.length_append, List.length_singleton] at room
    simp only [List.length_append, List.length_singleton]
    omega

/-- A shorter window of the log is a window of the longer one. -/
theorem IsLast.shorter {k : Nat} (h : IsLast n log xs) (hk : k ≤ n) : IsLast k log (xs.drop (xs.length - k)) := by
  obtain ⟨suffix, length⟩ := h
  refine ⟨(List.drop_suffix _ _).trans suffix, ?_⟩
  rw [List.length_drop]
  omega

end Window
