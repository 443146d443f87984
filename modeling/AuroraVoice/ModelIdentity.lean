import AuroraVoice.SequentialView

namespace AuroraVoice

/-- A loaded model is the one of the asset that `_getAssetPath` gives for the selected type. -/
def ModelIdentity (m : Machine) : Prop :=
  ∀ data, m.world.plugin.loaded = some data → data = .asset m.service.getAssetPath

/-- `setModelType` to a type with another asset is called only while no model is loaded. -/
def KeepsIdentity (m : Machine) (c : Call × Script) : Prop :=
  ∀ type, c.1 = .setModelType type → type ∈ modelTypes →
    assetOf type = m.service.getAssetPath ∨ m.world.plugin.loaded = none

theorem View.identity_iff (m : Machine) :
    ModelIdentity m ↔ ∀ data, m.view.loaded = some data → data = .asset (assetOf m.view.selected) :=
  Iff.rfl

theorem Script.initView_identity (sc : Script) (m : Machine) (type : String) (loaded : Option Contents)
    (h : ∀ data, loaded = some data → data = .asset (assetOf type)) :
    ∀ data, (sc.initView m type loaded).loaded = some data →
      data = .asset (assetOf (sc.initView m type loaded).selected) := by
  intro data hd
  simp only [initView] at hd ⊢
  split at hd
  next =>
    split at hd
    next => exact (Option.some.inj hd).symm
    next => simp at hd
  next => exact h data hd

/-- Of all the calls, only `setModelType` can part the selected type from the loaded model. -/
theorem modelIdentity_next_iff (m : Machine) (c : Call × Script) (h : m.WellFormed) (hm : ModelIdentity m) :
    ModelIdentity (m.next c) ↔ KeepsIdentity m c := by
  have view := (view_next h c).1
  rw [View.identity_iff, view]
  obtain ⟨call, sc⟩ := c
  have other : (∀ type, call ≠ .setModelType type) → KeepsIdentity m (call, sc) :=
    fun hn type eq => absurd eq (hn type)
  cases call with
  | initModel =>
    refine iff_of_true ?_ (other (by simp))
    exact sc.initView_identity m _ _ hm
  | switchModel newType =>
    refine iff_of_true ?_ (other (by simp))
    simp only [Machine.viewAfter]
    split
    next => exact hm
    next =>
      split
      next => exact sc.initView_identity m newType none (by simp)
      next => simp
  | setModelType type =>
    simp only [Machine.viewAfter, KeepsIdentity, Call.setModelType.injEq, forall_eq']
    split
    next valid =>
      simp only [valid, true_implies]
      constructor
      · -- a model that is loaded before and after belongs to both types
        intro same
        cases hl : m.world.plugin.loaded with
        | none => exact Or.inr rfl
        | some data =>
          have old := hm data hl
          have new := same data hl
          rw [old] at new
          exact Or.inl (Contents.asset.inj new).symm
      · rintro (same | empty) data hd
        · rw [hm data hd, ← same]
        · rw [show m.view.loaded = none from empty] at hd
          cases hd
    next invalid => exact iff_of_true hm (fun valid => absurd valid invalid)
  | startListening => exact iff_of_true hm (other (by simp))
  | stopListening => exact iff_of_true hm (other (by simp))
  | toggleListening => exact iff_of_true hm (other (by simp))
  | dispose =>
    refine iff_of_true ?_ (other (by simp))
    simp only [Machine.viewAfter]
    split <;> simp
  | tick timer => exact iff_of_true hm (other (by simp))

/-- In every run of calls made one after the other, whatever fails on the way, the loaded model is
that of the selected type in every state exactly when no `setModelType` moves the selection
away from a loaded model. -/
theorem model_identity_iff_setModelType (calls : List (Call × Script)) :
    (∀ m ∈ Runs.states Machine.next Machine.initial calls, ModelIdentity m) ↔
      Runs.Along Machine.next KeepsIdentity Machine.initial calls := by
  have start : ModelIdentity Machine.initial := fun data hd => by cases hd
  exact Runs.forall_states_iff_along next_wellFormed modelIdentity_next_iff
    Machine.initial_wellFormed start calls

def Script.fine : Script :=
  ⟨.ok, .ok, .ok, .ok, .ok, .ok, .ok, ⟨true, true, true, []⟩, ⟨none, false, false, none, 0⟩⟩

/-- The reset button of the settings screen after a successful start. -/
theorem reset_button_breaks_identity :
    ¬ ∀ m ∈ Runs.states Machine.next Machine.initial
        [(.initModel, Script.fine), (.setModelType modelInt8, Script.fine)], ModelIdentity m := by
  intro all
  have last := all _ (Runs.run_mem_states _ _) (.asset "assets/models/model_float32.tflite") (by decide)
  revert last
  decide

end AuroraVoice
