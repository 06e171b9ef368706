import Mathlib.Data.List.FinRange
import Mathlib.Logic.Function.Basic

/-!
Tables with a fixed number of slots, scanned from the first slot to the last.
`first` is the search for a slot that passes a test, `each` runs a state
through all slots in order. The number of slots and the states are arbitrary.
-/

namespace Slots

variable {n : Nat} {σ : Type*}

/-- The first slot that passes the test. -/
def first (p : Fin n → Bool) : Option (Fin n) := (List.finRange n).find? p

theorem first_some {p : Fin n → Bool} {i : Fin n} (h : first p = some i) : p i = true :=
  List.find?_some h

theorem first_none {p : Fin n → Bool} (h : first p = none) (i : Fin n) : p i = false := by
  have hall := List.find?_eq_none.mp h i (List.mem_finRange i)
  simpa using hall

/-- Visit every slot in order. -/
def each (f : σ → Fin n → σ) (s : σ) : σ := (List.finRange n).foldl f s

/-- What every visit preserves holds after all of them. -/
theorem each_invariant {f : σ → Fin n → σ} {P : σ → Prop} (hstep : ∀ s i, P s → P (f s i))
    {s : σ} (hs : P s) : P (each f s) :=
  List.foldlRecOn (List.finRange n) f hs fun s hs i _ => hstep s i hs

/-- What the visit of a slot establishes, and the other visits preserve, holds
of every slot after all of them. -/
theorem each_all {f : σ → Fin n → σ} {P : σ → Prop} {Q : Fin n → σ → Prop}
    (hstep : ∀ s i, P s → P (f s i)) (hvisit : ∀ s i, P s → Q i (f s i))
    (hkeep : ∀ s i j, P s → Q i s → Q i (f s j)) {s : σ} (hs : P s) (i : Fin n) :
    Q i (each f s) := by
  suffices hlist : ∀ (l : List (Fin n)) (s : σ), P s → (i ∈ l ∨ Q i s) → Q i (l.foldl f s) from
    hlist _ s hs (Or.inl (List.mem_finRange i))
  intro l
  induction l with
  | nil =>
    intro s _ h
    rcases h with h | h
    · cases h
    · exact h
  | cons j l ih =>
    intro s hs h
    refine ih (f s j) (hstep s j hs) ?_
    rcases h with h | h
    · rcases List.mem_cons.mp h with rfl | h
      · exact Or.inr (hvisit s i hs)
      · exact Or.inl h
    · exact Or.inr (hkeep s i j hs h)

end Slots
