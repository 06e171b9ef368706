import Mathlib.Data.List.Nodup
import Mathlib.Data.List.TakeWhile
import Mathlib.Logic.Function.Basic

/-!
Singly linked queues with a head, a tail and a count, in a memory of cells.
`Holds` says that the links lead through a list of addresses and that tail and
count agree with it. The queue is popped at its head; a cell is linked in where
a walk along the links stopped, be that the head of the queue or the link of a
cell. Addresses, values and faults are arbitrary.
-/

namespace LinkedQueue

structure Cell (A β : Type) where
  next : Option A
  val : β

structure Queue (A β : Type) where
  cells : A → Cell A β
  head : Option A
  tail : Option A
  n : Nat

/-- A place where a pointer to a cell is kept. -/
inductive Link (A : Type) where
  | head
  | next (a : A)

variable {A β φ : Type}

namespace Queue

def read (q : Queue A β) : Link A → Option A
  | .head => q.head
  | .next a => (q.cells a).next

/-- The walk along the links past the cells that pass the test. -/
def place (e : φ) (before : β → Bool) (q : Queue A β) : Nat → Link A → Except φ (Link A)
  | 0, _ => .error e
  | fuel + 1, pp =>
    match q.read pp with
    | none => .ok pp
    | some a => if before (q.cells a).val then place e before q fuel (.next a) else .ok pp

/-- Whether some cell from a pointer on passes the test. -/
def anyFrom (e : φ) (test : β → Bool) (q : Queue A β) : Nat → Option A → Except φ Bool
  | _, none => .ok false
  | 0, some _ => .error e
  | fuel + 1, some a =>
    if test (q.cells a).val then .ok true else anyFrom e test q fuel (q.cells a).next

end Queue

/-! ### What a queue holds -/

/-- The links lead from one pointer through the addresses to another. -/
def Leads (cells : A → Cell A β) : Option A → List A → Option A → Prop
  | p, [], r => p = r
  | p, a :: l, r => p = some a ∧ Leads cells (cells a).next l r

/-- The queue consists of the cells at these addresses. -/
structure Queue.Holds (q : Queue A β) (l : List A) : Prop where
  path : Leads q.cells q.head l none
  nodup : l.Nodup
  tail : q.tail = l.getLast?
  count : q.n = l.length

def Queue.vals (q : Queue A β) (l : List A) : List β := l.map fun a => (q.cells a).val

variable {cells cells' : A → Cell A β} {p r : Option A} {l l₁ l₂ : List A} {a : A} {q : Queue A β}

theorem Leads.congr (h : Leads cells p l r) (hsame : ∀ a ∈ l, (cells' a).next = (cells a).next) :
    Leads cells' p l r := by
  induction l generalizing p with
  | nil => exact h
  | cons a l ih =>
    refine ⟨h.1, ?_⟩
    rw [hsame a List.mem_cons_self]
    exact ih h.2 fun b hb => hsame b (List.mem_cons_of_mem a hb)

theorem leads_append :
    Leads cells p (l₁ ++ l₂) r ↔ ∃ s, Leads cells p l₁ s ∧ Leads cells s l₂ r := by
  induction l₁ generalizing p with
  | nil => exact ⟨fun h => ⟨p, rfl, h⟩, fun ⟨_, hs, h⟩ => hs ▸ h⟩
  | cons a l ih =>
    constructor
    · rintro ⟨hp, h⟩
      obtain ⟨s, hl, hr⟩ := ih.mp h
      exact ⟨s, ⟨hp, hl⟩, hr⟩
    · rintro ⟨s, ⟨hp, hl⟩, hr⟩
      exact ⟨hp, ih.mpr ⟨s, hl, hr⟩⟩

theorem Leads.isNone (h : Leads cells p l none) : p.isNone = l.isEmpty := by
  cases l with
  | nil =>
    rw [show p = none from h]
    rfl
  | cons a l =>
    rw [h.1]
    rfl

theorem Leads.unique (h₁ : Leads cells p l₁ none) (h₂ : Leads cells p l₂ none) : l₁ = l₂ := by
  induction l₁ generalizing p l₂ with
  | nil =>
    cases h₁
    cases l₂ with
    | nil => rfl
    | cons a l => cases h₂.1
  | cons a l ih =>
    cases h₁.1
    cases l₂ with
    | nil => cases h₂
    | cons b l' =>
      cases h₂.1
      rw [ih h₁.2 h₂.2]

theorem Queue.Holds.head (h : q.Holds (a :: l)) : q.head = some a := h.path.1

theorem tail_link (hp : Leads cells p l₂ none) {tail : Option A}
    (htail : tail = (l₁ ++ l₂).getLast?) :
    (if p.isNone then some a else tail) = (l₁ ++ a :: l₂).getLast? := by
  rw [hp.isNone, htail]
  cases l₂ with
  | nil => rw [List.getLast?_concat]; rfl
  | cons b l =>
    rw [List.getLast?_append, List.getLast?_append, List.getLast?_cons_cons]
    rfl

/-! ### Walks -/

/-- The place a walk has come to after some cells. -/
def Link.after (pp : Link A) (l : List A) : Link A := l.foldl (fun _ a => .next a) pp

variable {e : φ} {test : β → Bool}

theorem place_eq (l : List A) (pp : Link A) (h : Leads q.cells (q.read pp) l none) {fuel : Nat}
    (hfuel : l.length < fuel) :
    q.place e test fuel pp = .ok (pp.after (l.takeWhile fun a => test (q.cells a).val)) := by
  induction l generalizing pp fuel with
  | nil =>
    cases fuel with
    | zero => exact absurd hfuel (Nat.not_lt_zero _)
    | succ fuel =>
      rw [Queue.place, show q.read pp = none from h]
      rfl
  | cons a l ih =>
    cases fuel with
    | zero => exact absurd hfuel (Nat.not_lt_zero _)
    | succ fuel =>
      have hread : q.read pp = some a := h.1
      rw [Queue.place, hread]
      simp only
      split
      · rename_i htest
        rw [ih (.next a) h.2 (Nat.lt_of_succ_lt_succ hfuel), List.takeWhile_cons, if_pos htest]
        rfl
      · rename_i htest
        rw [List.takeWhile_cons, if_neg htest]
        rfl

theorem anyFrom_eq (l : List A) (h : Leads q.cells p l none) {fuel : Nat}
    (hfuel : l.length ≤ fuel) : q.anyFrom e test fuel p = .ok ((q.vals l).any test) := by
  induction l generalizing p fuel with
  | nil =>
    rw [show p = none from h]
    cases fuel <;> rfl
  | cons a l ih =>
    cases fuel with
    | zero => exact absurd hfuel (Nat.not_succ_le_zero _)
    | succ fuel =>
      rw [h.1, Queue.anyFrom, Queue.vals, List.map_cons, List.any_cons]
      split
      · rename_i htest
        rw [htest]
        rfl
      · rename_i htest
        rw [ih h.2 (Nat.le_of_succ_le_succ hfuel), Bool.not_eq_true] at *
        rw [htest, Bool.false_or]
        rfl

/-! ### Changes -/

section Changes

variable [DecidableEq A]

namespace Queue

def setNext (q : Queue A β) (a : A) (p : Option A) : Queue A β :=
  { q with cells := Function.update q.cells a { q.cells a with next := p } }

def setVal (q : Queue A β) (a : A) (x : β) : Queue A β :=
  { q with cells := Function.update q.cells a { q.cells a with val := x } }

def pop (q : Queue A β) : Queue A β × Option A :=
  match q.head with
  | none => (q, none)
  | some a =>
    let head := (q.cells a).next
    let q := { q with head := head, tail := if head.isNone then none else q.tail }
    ({ q.setNext a none with n := q.n - 1 }, some a)

def write (q : Queue A β) (p : Option A) : Link A → Queue A β
  | .head => { q with head := p }
  | .next a => q.setNext a p

def link (q : Queue A β) (a : A) (pp : Link A) : Queue A β :=
  let q := (q.setNext a (q.read pp)).write (some a) pp
  { q with tail := if (q.cells a).next.isNone then some a else q.tail, n := q.n + 1 }

end Queue

/-- A value in a cell that is not linked in changes nothing. -/
theorem Queue.Holds.setVal (h : q.Holds l) (a : A) (x : β) : (q.setVal a x).Holds l := by
  refine ⟨h.path.congr ?_, h.nodup, h.tail, h.count⟩
  intro b _
  by_cases hb : b = a
  · subst hb
    simp only [Queue.setVal, Function.update_self]
  · simp only [Queue.setVal, Function.update_of_ne hb]

theorem Queue.setVal_vals (ha : a ∉ l) (x : β) : (q.setVal a x).vals l = q.vals l := by
  refine List.map_congr_left fun b hb => ?_
  have hne : b ≠ a := fun heq => ha (heq ▸ hb)
  simp only [Queue.setVal, Function.update_of_ne hne]

theorem Queue.setNext_val (q : Queue A β) (a b : A) (p : Option A) :
    ((q.setNext a p).cells b).val = (q.cells b).val := by
  by_cases hb : b = a
  · subst hb
    simp only [setNext, Function.update_self]
  · simp only [setNext, Function.update_of_ne hb]

theorem Queue.setNext_next_of_ne {b : A} (hb : b ≠ a) :
    ((q.setNext a p).cells b).next = (q.cells b).next := by
  simp only [setNext, Function.update_of_ne hb]

theorem Queue.setNext_next_self : ((q.setNext a p).cells a).next = p := by
  simp only [setNext, Function.update_self]

theorem Queue.Holds.pop (h : q.Holds (a :: l)) :
    q.pop.2 = some a ∧ q.pop.1.Holds l ∧ ∀ m, q.pop.1.vals m = q.vals m := by
  obtain ⟨ha, hnodup⟩ := List.nodup_cons.mp h.nodup
  have hpath := h.path.2
  unfold Queue.pop
  rw [h.head]
  refine ⟨rfl, ⟨?_, hnodup, ?_, ?_⟩, ?_⟩
  · refine hpath.congr fun b hb => ?_
    exact Queue.setNext_next_of_ne (q := q) fun heq => ha (heq ▸ hb)
  · change (if (q.cells a).next.isNone then none else q.tail) = l.getLast?
    rw [hpath.isNone, h.tail]
    cases l with
    | nil => rfl
    | cons b l => rw [List.getLast?_cons_cons]; rfl
  · change q.n - 1 = l.length
    rw [h.count, List.length_cons, Nat.add_sub_cancel]
  · intro m
    exact List.map_congr_left fun b _ => q.setNext_val a b none

theorem Queue.link_val (q : Queue A β) (a b : A) (pp : Link A) :
    ((q.link a pp).cells b).val = (q.cells b).val := by
  cases pp with
  | head => exact q.setNext_val a b _
  | next c => exact ((q.setNext a _).setNext_val c b _).trans (q.setNext_val a b _)

theorem Queue.Holds.link (h : q.Holds (l₁ ++ l₂)) (ha : a ∉ l₁ ++ l₂) :
    (q.link a (Link.head.after l₁)).Holds (l₁ ++ a :: l₂) := by
  obtain ⟨s, hleft, hright⟩ := leads_append.mp h.path
  have hnodup : (l₁ ++ a :: l₂).Nodup := by
    rw [List.nodup_middle, List.nodup_cons]
    exact ⟨ha, h.nodup⟩
  have hcount : q.n + 1 = (l₁ ++ a :: l₂).length := by
    rw [h.count, List.length_append, List.length_append, List.length_cons, Nat.add_assoc]
  have hl₂ : a ∉ l₂ := fun hm => ha (List.mem_append_right l₁ hm)
  rcases List.eq_nil_or_concat' l₁ with rfl | ⟨k, b, rfl⟩
  · -- the cell becomes the head
    obtain rfl : q.head = s := hleft
    refine ⟨⟨rfl, ?_⟩, hnodup, ?_, hcount⟩
    · change Leads (q.setNext a q.head).cells ((q.setNext a q.head).cells a).next l₂ none
      rw [Queue.setNext_next_self]
      exact hright.congr fun c hc => Queue.setNext_next_of_ne fun heq => hl₂ (heq ▸ hc)
    · change (if ((q.setNext a q.head).cells a).next.isNone then some a else q.tail) = _
      rw [Queue.setNext_next_self]
      exact tail_link hright h.tail
  · -- the cell comes behind another one
    obtain ⟨t, hk, hb⟩ := leads_append.mp hleft
    obtain ⟨rfl, rfl⟩ : t = some b ∧ (q.cells b).next = s := hb
    have hplace : Link.head.after (k ++ [b]) = .next b := by
      rw [Link.after, List.foldl_append]
      rfl
    have hba : b ≠ a := by
      rintro rfl
      exact ha (by simp)
    have hbl : b ∉ k ∧ b ∉ l₂ := by
      have hnd := h.nodup
      rw [List.append_assoc, List.singleton_append, List.nodup_middle, List.nodup_cons,
        List.mem_append, not_or] at hnd
      exact hnd.1
    have hak : a ∉ k := fun hm => ha (by simp [hm])
    rw [hplace]
    have hnext : (((q.setNext a (q.cells b).next).setNext b (some a)).cells a).next =
        (q.cells b).next := by
      rw [Queue.setNext_next_of_ne hba.symm, Queue.setNext_next_self]
    have hother (c : A) (hcb : c ≠ b) (hca : c ≠ a) :
        (((q.setNext a (q.cells b).next).setNext b (some a)).cells c).next = (q.cells c).next := by
      rw [Queue.setNext_next_of_ne hcb, Queue.setNext_next_of_ne hca]
    refine ⟨?_, hnodup, ?_, hcount⟩
    · change Leads ((q.setNext a (q.cells b).next).setNext b (some a)).cells q.head _ none
      rw [List.append_assoc, leads_append]
      refine ⟨some b, hk.congr ?_, rfl, ?_⟩
      · intro c hc
        exact hother c (fun heq => hbl.1 (heq ▸ hc)) fun heq => hak (heq ▸ hc)
      · rw [Queue.setNext_next_self]
        refine ⟨rfl, ?_⟩
        rw [hnext]
        refine hright.congr fun c hc => ?_
        exact hother c (fun heq => hbl.2 (heq ▸ hc)) fun heq => hl₂ (heq ▸ hc)
    · change (if (((q.setNext a (q.cells b).next).setNext b (some a)).cells a).next.isNone
        then some a else q.tail) = _
      rw [hnext]
      exact tail_link hright h.tail

end Changes

end LinkedQueue
