/-
ProvenoGateway/Transitions.lean

Labelled transition systems, as a library of its own.

`Walk step s ls s'`: by the steps labelled `ls`, the system gets from `s` to
`s'`.  An invariant may speak of the labels so far (`Walk.keeps`); a property
of states that no step leaves constrains every later label (`Walk.stays`).
-/
import Mathlib.Init

namespace Transitions

variable {State Label : Type} {step : State → Label → State → Prop}

inductive Walk (step : State → Label → State → Prop) : State → List Label → State → Prop
  | nil (s : State) : Walk step s [] s
  | cons {s s' s'' : State} (l : Label) {ls : List Label} :
      step s l s' → Walk step s' ls s'' → Walk step s (l :: ls) s''

/-- A walk can be cut anywhere. -/
theorem Walk.split {s s'' : State} {ls ls' : List Label} (h : Walk step s (ls ++ ls') s'') :
    ∃ s', Walk step s ls s' ∧ Walk step s' ls' s'' := by
  induction ls generalizing s with
  | nil => exact ⟨s, .nil s, h⟩
  | cons l ls ih =>
    cases h with
    | cons _ hstep htail =>
      obtain ⟨s', hfirst, hlast⟩ := ih htail
      exact ⟨s', .cons l hstep hfirst, hlast⟩

/-- What each step preserves, along with the labels so far, a walk
preserves. -/
theorem Walk.keeps {Inv : List Label → State → Prop}
    (hstep : ∀ past s l s', Inv past s → step s l s' → Inv (past ++ [l]) s') {s s' : State}
    {ls : List Label} (h : Walk step s ls s') {past : List Label} (hs : Inv past s) :
    Inv (past ++ ls) s' := by
  induction h generalizing past with
  | nil s =>
    rw [List.append_nil]
    exact hs
  | cons l hl _ ih =>
    have hrest := ih (hstep _ _ _ _ hs hl)
    rw [List.append_assoc] at hrest
    exact hrest

/-- No step leaves `Q`, and in `Q` every step's label satisfies `P`. -/
theorem Walk.stays {Q : State → Prop} {P : Label → Prop}
    (hstep : ∀ s l s', Q s → step s l s' → P l ∧ Q s') {s s' : State} {ls : List Label}
    (h : Walk step s ls s') (hs : Q s) : (∀ l ∈ ls, P l) ∧ Q s' := by
  induction h with
  | nil s =>
    refine ⟨?_, hs⟩
    simp
  | cons l hl _ ih =>
    obtain ⟨hp, hq⟩ := hstep _ _ _ hs hl
    obtain ⟨hall, hlast⟩ := ih hq
    exact ⟨List.forall_mem_cons.mpr ⟨hp, hall⟩, hlast⟩

end Transitions
