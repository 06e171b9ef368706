import Mathlib.Logic.Relation

/-!
Runs of a transition system whose steps are labelled by events. A run starts
in an initial state and takes only allowed steps; what an allowed step
preserves holds in every state a run reaches. States, events and the
allowance are arbitrary.
-/

namespace Run

variable {σ ε : Type*}

inductive Reach (init : σ → Prop) (allowed : σ → ε → Prop) (step : σ → ε → σ) : σ → Prop where
  | start {s : σ} (h : init s) : Reach init allowed step s
  | next {s : σ} (h : Reach init allowed step s) (e : ε) (he : allowed s e) :
      Reach init allowed step (step s e)

variable {init : σ → Prop} {allowed allowed' : σ → ε → Prop} {step : σ → ε → σ} {s : σ}

theorem Reach.invariant (P : σ → Prop) (hinit : ∀ s, init s → P s)
    (hstep : ∀ s e, allowed s e → P s → P (step s e)) (h : Reach init allowed step s) : P s := by
  induction h with
  | start h => exact hinit _ h
  | next _ e he ih => exact hstep _ e he ih

theorem Reach.mono (hle : ∀ s e, allowed s e → allowed' s e) (h : Reach init allowed step s) :
    Reach init allowed' step s := by
  induction h with
  | start h => exact .start h
  | next _ e he ih => exact .next ih e (hle _ e he)

/-- Every step of a list of events is allowed where it is taken. -/
def Allowed (allowed : σ → ε → Prop) (step : σ → ε → σ) : σ → List ε → Prop
  | _, [] => True
  | s, e :: es => allowed s e ∧ Allowed allowed step (step s e) es

instance decidableAllowed [∀ s e, Decidable (allowed s e)] : (s : σ) → (es : List ε) →
    Decidable (Allowed allowed step s es)
  | _, [] => inferInstanceAs (Decidable True)
  | s, e :: es =>
    @instDecidableAnd _ _ inferInstance (decidableAllowed (step s e) es)

theorem Allowed.all (step : σ → ε → σ) (s : σ) (es : List ε) :
    Allowed (fun _ _ => True) step s es := by
  induction es generalizing s with
  | nil => trivial
  | cons e es ih => exact ⟨trivial, ih (step s e)⟩

/-- A list of allowed steps leads from a reached state to a reached state. -/
theorem Reach.foldl (h : Reach init allowed step s) (es : List ε)
    (hes : Allowed allowed step s es) : Reach init allowed step (es.foldl step s) := by
  induction es generalizing s with
  | nil => exact h
  | cons e es ih => exact ih (.next h e hes.1) hes.2

end Run
