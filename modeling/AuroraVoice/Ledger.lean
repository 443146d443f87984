import AuroraVoice.Runs

namespace Ledger

/-- What happens to handles: one is created from parents it depends on, used, or deleted. -/
inductive Event
  | create (handle : Nat) (parents : List Nat)
  | use (handle : Nat)
  | delete (handle : Nat)
  deriving DecidableEq

/-- The handles created and not yet deleted, oldest first, each with its parents. -/
abbrev Live := List (Nat × List Nat)

def record (live : Live) : Event → Live
  | .create h parents => live ++ [(h, parents)]
  | .use _ => live
  | .delete h => live.filter fun e => e.1 ≠ h

def IsLive (live : Live) (h : Nat) : Prop := ∃ parents, (h, parents) ∈ live

/-- A handle is created fresh and from live parents, used while it lives, and deleted while it
lives and nothing alive depends on it. -/
def Legal (live : Live) : Event → Prop
  | .create h parents => ¬ IsLive live h ∧ ∀ p ∈ parents, IsLive live p
  | .use h => IsLive live h
  | .delete h => IsLive live h ∧ ∀ e ∈ live, h ∉ e.2

@[simp] theorem record_create (live : Live) (h : Nat) (parents : List Nat) :
    record live (.create h parents) = live ++ [(h, parents)] := rfl

@[simp] theorem record_use (live : Live) (h : Nat) : record live (.use h) = live := rfl

@[simp] theorem isLive_nil (h : Nat) : ¬ IsLive [] h := by simp [IsLive]

@[simp] theorem isLive_cons (e : Nat × List Nat) (live : Live) (h : Nat) :
    IsLive (e :: live) h ↔ h = e.1 ∨ IsLive live h := by
  obtain ⟨k, parents⟩ := e
  simp [IsLive, exists_or]

@[simp] theorem isLive_append (first second : Live) (h : Nat) :
    IsLive (first ++ second) h ↔ IsLive first h ∨ IsLive second h := by
  simp [IsLive, exists_or]

theorem record_delete_last {live : Live} {h : Nat} {parents : List Nat} (fresh : ¬ IsLive live h) :
    record (live ++ [(h, parents)]) (.delete h) = live := by
  have keep : ∀ e ∈ live, decide (e.1 ≠ h) = true := by
    intro e he
    have : e.1 ≠ h := fun eq => fresh ⟨e.2, eq ▸ he⟩
    simpa using this
  simp only [record, List.filter_append, List.filter_eq_self.mpr keep]
  simp

end Ledger
