import Mathlib.Data.List.Basic

/-- The periodic timers that have been started and not cancelled, each with what its callback belongs to. -/
structure Timers (α : Type) where
  live : List (Nat × α)
  next : Nat

namespace Timers

variable {α : Type} {owner : α} {timer : Option Nat} {timers : Timers α}

def none : Timers α := ⟨[], 0⟩

def periodic (timers : Timers α) (owner : α) : Timers α := ⟨timers.live ++ [(timers.next, owner)], timers.next + 1⟩

/-- `timer?.cancel()`. -/
def cancel (timers : Timers α) (timer : Option Nat) : Timers α :=
  { timers with live := timers.live.filter fun t => some t.1 ≠ timer }

/-- Whose callback the timer runs when it fires. -/
def owner? (timers : Timers α) (t : Nat) : Option α := (timers.live.find? fun u => u.1 = t).map Prod.snd

/-- While `on` the timer in the field is live, runs for `owner` and is the only one; otherwise none is. -/
def Single (timers : Timers α) (on : Bool) (timer : Option Nat) (owner : α) : Prop :=
  if on then ∃ t, timer = some t ∧ timers.live = [(t, owner)] else timers.live = []

theorem Single.cancel {on : Bool} (h : timers.Single on timer owner) : (timers.cancel timer).live = [] := by
  cases on with
  | false =>
    have empty : timers.live = [] := h
    simp [Timers.cancel, empty]
  | true =>
    obtain ⟨t, rfl, live⟩ := h
    simp [Timers.cancel, live]

theorem periodic_single (h : timers.live = []) (owner : α) :
    (timers.periodic owner).Single true (some timers.next) owner :=
  ⟨timers.next, rfl, by simp [periodic, h]⟩

theorem Single.fires_for {on : Bool} (h : timers.Single on timer owner) {t : Nat} {o : α}
    (fires : timers.owner? t = some o) : on = true ∧ o = owner := by
  cases on with
  | false =>
    have empty : timers.live = [] := h
    simp [owner?, empty] at fires
  | true =>
    obtain ⟨u, _, live⟩ := h
    simp only [owner?, live, List.find?_singleton] at fires
    split at fires
    next => exact ⟨rfl, (Option.some.inj fires).symm⟩
    next => cases fires

theorem Single.length {on : Bool} (h : timers.Single on timer owner) :
    timers.live.length = if on then 1 else 0 := by
  cases on with
  | false => exact List.length_eq_zero_iff.mpr h
  | true =>
    obtain ⟨t, _, live⟩ := h
    simp [live]

end Timers
