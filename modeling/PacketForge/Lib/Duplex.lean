import Mathlib.Data.List.Pairwise
import Mathlib.Order.Nat

/-!
Two parties number what they send and acknowledge what they have taken. Each has a
line to the other that loses nothing and keeps the order. A message may carry numbers
that were sent before, but it leaves no gap, and whoever hears it takes it to its end.

So the receiver comes to each message with exactly what the sender had used when it
sent the message: a message that stands at the end of all that its sender had used
stands at the end of what the receiver has taken.
-/

namespace Duplex

/-- A message: it carries the numbers from `first` to `stop` and may acknowledge
all below `ack`. It is `last` if it stands at the end of all that its sender has
used. -/
structure Item where
  first : Nat
  stop : Nat
  ack : Option Nat
  last : Bool

/-- The sender has used what is below `t`, and at most `w` numbers are unacknowledged at
a time. -/
structure Item.Meets (w : Nat) (i : Item) (t : Nat) : Prop where
  first : i.first ≤ t
  stop : i.first ≤ i.stop
  near : t ≤ i.first + w
  last : i.last = true → i.first = t

/-- Where the messages lead a receiver that has taken what is below `t`. -/
def Chain (w u : Nat) : Nat → List Item → Prop
  | t, [] => t = u
  | t, i :: l => i.Meets w t ∧ Chain w u (max t i.stop) l

theorem Chain.le {w u t : Nat} {l : List Item} (h : Chain w u t l) : t ≤ u := by
  induction l generalizing t with
  | nil => exact Nat.le_of_eq h
  | cons i l ih => exact (Nat.le_max_left t i.stop).trans (ih h.2)

theorem Chain.append {w u u' t : Nat} {l m : List Item} (h : Chain w u t l)
    (hm : Chain w u' u m) : Chain w u' t (l ++ m) := by
  induction l generalizing t with
  | nil =>
    cases h
    exact hm
  | cons i l ih => exact ⟨h.1, ih h.2⟩

/-- No acknowledgement is taken back. -/
def Follows (x y : Item) : Prop := ∀ a ∈ x.ack, ∀ b ∈ y.ack, a ≤ b

/-- One party. Below `base` all it sent is acknowledged, and below `used` it has
sent. Of the other's numbers it has taken those below `taken`. A message that says
nothing is `none` on the line. -/
structure Party where
  base : Nat
  used : Nat
  taken : Nat
  line : List (Option Item)

def items (line : List (Option Item)) : List Item := line.filterMap id

theorem mem_items {line : List (Option Item)} {i : Item} : i ∈ items line ↔ some i ∈ line := by
  simp [items]

theorem items_append (l m : List (Option Item)) : items (l ++ m) = items l ++ items m := by
  simp [items]

/-- What `p` has sent to `q`, and how far `q` has come with it. -/
structure Linked (w : Nat) (p q : Party) : Prop where
  base : p.base ≤ q.taken
  flight : p.used ≤ p.base + w
  chain : Chain w p.used q.taken (items p.line)
  ack : ∀ i ∈ items p.line, ∀ a ∈ i.ack, q.base ≤ a ∧ a ≤ p.taken
  order : (items p.line).Pairwise Follows

/-- What `p` has said so far in its turn. Now `b` is its base, it has used what is
below `u` and taken what is below `t`. -/
structure Spoken (w : Nat) (p : Party) (b u t : Nat) (out : List (Option Item)) : Prop where
  flight : u ≤ b + w
  taken : p.taken ≤ t
  chain : Chain w u p.used (items out)
  ack : ∀ i ∈ items out, ∀ a ∈ i.ack, p.taken ≤ a ∧ a ≤ t
  order : (items out).Pairwise Follows

namespace Spoken

variable {w b u t : Nat} {p : Party} {out : List (Option Item)}

theorem start (h : p.used ≤ p.base + w) : Spoken w p p.base p.used p.taken [] where
  flight := h
  taken := Nat.le_refl _
  chain := rfl
  ack := by simp [items]
  order := List.Pairwise.nil

/-- A message that goes on from what is used, and acknowledges what is taken by then. -/
theorem say (h : Spoken w p b u t out) {i : Item} {u' : Nat} (hu : u' = max u i.stop)
    (hfit : u' ≤ b + w) (hmeets : i.Meets w u) (hack : ∀ a ∈ i.ack, a = t) :
    Spoken w p b u' t (out ++ [some i]) := by
  have hitems : items (out ++ [some i]) = items out ++ [i] := items_append out [some i]
  refine ⟨hfit, h.taken, ?_, ?_, ?_⟩
  all_goals rw [hitems]
  · exact h.chain.append ⟨hmeets, hu.symm⟩
  · intro x hx a ha
    rcases List.mem_append.mp hx with hold | hnew
    · exact h.ack x hold a ha
    · cases List.mem_singleton.mp hnew
      rw [hack a ha]
      exact ⟨h.taken, Nat.le_refl _⟩
  · refine List.pairwise_append.mpr ⟨h.order, List.pairwise_singleton _ _, ?_⟩
    intro x hx y hy a ha a' ha'
    cases List.mem_singleton.mp hy
    rw [hack a' ha']
    exact (h.ack x hx a ha).2

theorem mute (h : Spoken w p b u t out) : Spoken w p b u t (out ++ [none]) := by
  have hitems : items (out ++ [none]) = items out := by simp [items]
  exact ⟨h.flight, h.taken, hitems ▸ h.chain, hitems ▸ h.ack, hitems ▸ h.order⟩

theorem take (h : Spoken w p b u t out) {t' : Nat} (ht : t ≤ t') :
    Spoken w p b u t' out := by
  refine ⟨h.flight, h.taken.trans ht, h.chain, ?_, h.order⟩
  intro i hi a ha
  obtain ⟨hlo, hhi⟩ := h.ack i hi a ha
  exact ⟨hlo, hhi.trans ht⟩

/-- An acknowledgement is heard before anything is said. -/
theorem acked (h : Spoken w p b u t []) {b' : Nat} (hb : b ≤ b') :
    Spoken w p b' u t [] := by
  have hflight := h.flight
  exact ⟨by omega, h.taken, h.chain, h.ack, h.order⟩

end Spoken

/-- What a party has taken once it has heard a message. -/
def heardTo (t : Nat) : Option Item → Nat
  | none => t
  | some i => max t i.stop

theorem le_heardTo (t : Nat) (got : Option Item) : t ≤ heardTo t got := by
  cases got with
  | none => exact Nat.le_refl t
  | some i => exact Nat.le_max_left t i.stop

/-- A party acts, on the message `got` or on its own. -/
structure Turn (w : Nat) (got : Option Item) (p p' : Party) (out : List (Option Item)) : Prop
    extends Spoken w p p'.base p'.used p'.taken out where
  line : p'.line = p.line ++ out
  base : p'.base = p.base ∨ ∃ i ∈ got, p'.base ∈ i.ack
  hears : p'.taken = heardTo p.taken got

namespace Turn

variable {w : Nat} {got : Option Item} {p p' q : Party} {out : List (Option Item)}

/-- The line of the party that acts. -/
theorem speaks (h : Turn w got p p' out) (hpq : Linked w p q) (hqp : Linked w q p)
    (hgot : ∀ i ∈ got, ∀ a ∈ i.ack, a ≤ q.taken) : Linked w p' q := by
  refine ⟨?_, h.flight, ?_, ?_, ?_⟩
  · rcases h.base with hsame | ⟨i, hi, hack⟩
    · rw [hsame]
      exact hpq.base
    · exact hgot i hi _ hack
  all_goals rw [h.line, items_append]
  · exact hpq.chain.append h.chain
  · intro i hi a ha
    rcases List.mem_append.mp hi with hold | hnew
    · obtain ⟨hlo, hhi⟩ := hpq.ack i hold a ha
      exact ⟨hlo, hhi.trans h.taken⟩
    · obtain ⟨hlo, hhi⟩ := h.ack i hnew a ha
      exact ⟨hqp.base.trans hlo, hhi⟩
  · refine List.pairwise_append.mpr ⟨hpq.order, h.order, ?_⟩
    intro x hx y hy a ha b hb
    exact (hpq.ack x hx a ha).2.trans (h.ack y hy b hb).1

/-- The line to the party that acts, from which `heard` has been taken. -/
theorem hears_line (h : Turn w got p p' out) {heard rest : List (Option Item)}
    (hheard : items heard = got.toList) (hqp : Linked w { q with line := heard ++ rest } p) :
    Linked w { q with line := rest } p' := by
  have hitems : items (heard ++ rest) = got.toList ++ items rest := by
    rw [items_append, hheard]
  have hmem {i : Item} (hi : i ∈ items rest) : i ∈ items (heard ++ rest) := by
    rw [hitems]
    exact List.mem_append_right _ hi
  have hchain := hqp.chain
  have horder := hqp.order
  change Chain w q.used p.taken (items (heard ++ rest)) at hchain
  change (items (heard ++ rest)).Pairwise Follows at horder
  rw [hitems] at hchain horder
  rw [List.pairwise_append] at horder
  refine ⟨hqp.base.trans h.taken, hqp.flight, ?_, ?_, horder.2.1⟩
  · rw [h.hears]
    cases got with
    | none => exact hchain
    | some i => exact hchain.2
  · intro j hj b hb
    refine ⟨?_, (hqp.ack j (hmem hj) b hb).2⟩
    rcases h.base with hsame | ⟨i, hi, hack⟩
    · rw [hsame]
      exact (hqp.ack j (hmem hj) b hb).1
    · exact horder.2.2 i (Option.mem_toList.mpr hi) j hj _ hack b hb

end Turn

theorem Linked.head {w : Nat} {p q : Party} {i : Item} {rest : List (Option Item)}
    (h : Linked w p q) (hline : p.line = some i :: rest) : i.Meets w q.taken := by
  have hchain := h.chain
  rw [hline] at hchain
  exact hchain.1

end Duplex
