import Mathlib.Tactic.Common

/-!
Computations that can stop at a fault. `Post F Q m` says that `m` stops only at
faults that satisfy `F`, and otherwise returns a value that satisfies `Q`: with
`F` always true this is partial, with `F` always false total correctness. The
rules follow the way computations are built. Faults, values and states are
arbitrary.
-/

namespace Checked

universe u v w

variable {φ : Type v} {α β σ : Type u} {ε : Type w}

/-- Which faults a computation may stop at, and what it returns. -/
def Post (F : φ → Prop) (Q : α → Prop) : Except φ α → Prop
  | .ok a => Q a
  | .error f => F f

variable {F F' : φ → Prop} {P Q Q' : α → Prop} {R : β → Prop} {m : Except φ α}
  {f : α → Except φ β} {a : α}

@[simp] theorem ok_bind (a : α) (f : α → Except φ β) : ((.ok a : Except φ α) >>= f) = f a := rfl

theorem Post.ok (h : Q a) : Post F Q (.ok a : Except φ α) := h

theorem Post.pure (h : Q a) : Post F Q (Pure.pure a : Except φ α) := h

theorem Post.bind (hm : Post F P m) (hf : ∀ a, P a → Post F R (f a)) : Post F R (m >>= f) := by
  cases m with
  | ok a => exact hf a hm
  | error e => exact hm

theorem Post.mono (h : Post F Q m) (hF : ∀ e, F e → F' e) (hQ : ∀ a, Q a → Q' a) :
    Post F' Q' m := by
  cases m with
  | ok a => exact hQ a h
  | error e => exact hF e h

theorem Post.imp (h : Post F Q m) (hQ : ∀ a, Q a → Q' a) : Post F Q' m := h.mono (fun _ he => he) hQ

theorem Post.and (h : Post F Q m) (h' : Post F' Q' m) :
    Post (fun e => F e ∧ F' e) (fun a => Q a ∧ Q' a) m := by
  cases m with
  | ok a => exact ⟨h, h'⟩
  | error e => exact ⟨h, h'⟩

/-- A computation that returned satisfies its postcondition. -/
theorem Post.of_ok (h : Post F Q m) (hm : m = .ok a) : Q a := by
  rw [hm] at h
  exact h

theorem Post.exists_ok (h : Post (fun _ => False) Q m) : ∃ a, m = .ok a ∧ Q a := by
  cases m with
  | ok a => exact ⟨a, rfl, h⟩
  | error e => exact absurd h id

theorem bind_ok_iff {b : β} : (m >>= f) = .ok b ↔ ∃ a, m = .ok a ∧ f a = .ok b := by
  cases m with
  | ok a =>
    constructor
    · intro h
      exact ⟨a, rfl, h⟩
    · rintro ⟨_, ⟨⟩, h⟩
      exact h
  | error e =>
    constructor
    · intro h
      cases h
    · rintro ⟨_, h, _⟩
      cases h

/-- What every round keeps holds after a loop over a list. -/
theorem Post.foldlM {I : σ → Prop} {g : σ → α → Except φ σ} (l : List α)
    (hstep : ∀ s x, x ∈ l → I s → Post F I (g s x)) {s : σ} (hs : I s) :
    Post F I (l.foldlM g s) := by
  induction l generalizing s with
  | nil => exact hs
  | cons x l ih =>
    rw [List.foldlM_cons]
    refine Post.bind (hstep s x List.mem_cons_self hs) fun s hs => ?_
    exact ih (fun s y hy => hstep s y (List.mem_cons_of_mem _ hy)) hs

/-! ### Runs -/

inductive Reach (init : σ → Prop) (allowed : σ → ε → Prop) (step : σ → ε → Except φ σ) :
    σ → Prop where
  | start {s : σ} (h : init s) : Reach init allowed step s
  | next {s s' : σ} (h : Reach init allowed step s) (e : ε) (he : allowed s e)
      (hs : step s e = .ok s') : Reach init allowed step s'

variable {init : σ → Prop} {allowed : σ → ε → Prop} {step : σ → ε → Except φ σ} {s : σ}

theorem Reach.invariant (I : σ → Prop) (hinit : ∀ s, init s → I s)
    (hstep : ∀ s e, allowed s e → I s → Post (fun _ => True) I (step s e))
    (h : Reach init allowed step s) : I s := by
  induction h with
  | start h => exact hinit _ h
  | next _ e he hs ih => exact (hstep _ e he ih).of_ok hs

/-- A list of allowed steps from a reached state, none of which faults, leads
to a reached state. -/
theorem Reach.foldlM {s' : σ} (h : Reach init allowed step s) (es : List ε)
    (hall : ∀ s e, e ∈ es → allowed s e) (hrun : es.foldlM step s = .ok s') :
    Reach init allowed step s' := by
  induction es generalizing s with
  | nil =>
    cases hrun
    exact h
  | cons e es ih =>
    rw [List.foldlM_cons, bind_ok_iff] at hrun
    obtain ⟨t, ht, hrun⟩ := hrun
    exact ih (.next h e (hall s e List.mem_cons_self) ht)
      (fun s y hy => hall s y (List.mem_cons_of_mem _ hy)) hrun

end Checked
