import Mathlib.Order.Lattice
import Mathlib.Order.MinMax
import Mathlib.Data.List.Basic

/-!
Sorted lists of disjoint half-open intervals over a linear order. `insertApart`
puts an interval into its place unless it meets one of the list, and `coalesce`
joins neighbours that touch. The points covered by the result are those that
were covered and those of the new interval; a coalesced list that covers
exactly one interval is that interval.
-/

namespace Intervals

variable {α : Type*} [LinearOrder α]

/-- The point lies in the half-open interval. -/
def Holds (r : α × α) (x : α) : Prop := r.1 ≤ x ∧ x < r.2

def Covers (l : List (α × α)) (x : α) : Prop := ∃ r ∈ l, Holds r x

def Avoids (r s : α × α) : Prop := r.2 ≤ s.1 ∨ s.2 ≤ r.1

/-- Non-empty intervals in order, none of which meets another. -/
structure Apart (l : List (α × α)) : Prop where
  pos : ∀ r ∈ l, r.1 < r.2
  sorted : l.Pairwise (fun r s => r.2 ≤ s.1)

/-- Non-empty intervals in order with a gap between any two. -/
structure Separated (l : List (α × α)) : Prop where
  pos : ∀ r ∈ l, r.1 < r.2
  sorted : l.Pairwise (fun r s => r.2 < s.1)

/-- Put an interval into its place in a sorted list, `none` where it meets an
interval that is looked at on the way. -/
def insertApart (x : α × α) : List (α × α) → Option (List (α × α))
  | [] => some [x]
  | r :: l =>
    if x.1 < r.2 ∧ r.1 < x.2 then none
    else if x.2 ≤ r.1 then some (x :: r :: l)
    else (insertApart x l).map (r :: ·)

/-- Join neighbours that touch, from the right. -/
def coalesce : List (α × α) → List (α × α)
  | [] => []
  | r :: l =>
    match coalesce l with
    | [] => [r]
    | s :: l' => if r.2 = s.1 then (r.1, s.2) :: l' else r :: s :: l'

section Basic

variable {r s x : α × α} {l l' : List (α × α)} {a : α}

theorem covers_cons : Covers (r :: l) a ↔ Holds r a ∨ Covers l a := by
  simp [Covers]

theorem not_covers_nil : ¬ Covers ([] : List (α × α)) a := by
  simp [Covers]

theorem Avoids.symm (h : Avoids r s) : Avoids s r := Or.symm h

/-- Intervals that share no point are disjoint, unless one of them is empty. -/
theorem avoids_of_holds (hr : r.1 < r.2) (hs : s.1 < s.2) (h : ∀ a, Holds r a → ¬ Holds s a) :
    Avoids r s := by
  by_contra hmeet
  simp only [Avoids, not_or, not_le] at hmeet
  apply h (max r.1 s.1)
  · exact ⟨le_max_left _ _, max_lt hr hmeet.1⟩
  · exact ⟨le_max_right _ _, max_lt hmeet.2 hs⟩

theorem Avoids.not_holds (h : Avoids r s) (hr : Holds r a) : ¬ Holds s a := by
  intro hs
  rcases h with h | h
  · exact absurd (hr.2.trans_le (h.trans hs.1)) (lt_irrefl a)
  · exact absurd (hs.2.trans_le (h.trans hr.1)) (lt_irrefl a)

theorem Separated.apart (h : Separated l) : Apart l :=
  ⟨h.pos, h.sorted.imp (fun hlt => hlt.le)⟩

theorem Apart.tail (h : Apart (r :: l)) : Apart l :=
  ⟨fun t ht => h.pos t (List.mem_cons_of_mem _ ht), (List.pairwise_cons.mp h.sorted).2⟩

theorem Apart.cons (hr : r.1 < r.2) (hl : Apart l) (h : ∀ t ∈ l, r.2 ≤ t.1) : Apart (r :: l) := by
  refine ⟨?_, List.pairwise_cons.mpr ⟨h, hl.sorted⟩⟩
  intro t ht
  rcases List.mem_cons.mp ht with rfl | ht
  · exact hr
  · exact hl.pos t ht

end Basic

/-! ### Insertion -/

section Insertion

variable {x : α × α} {l l' : List (α × α)}

theorem insertApart_isSome (h : ∀ r ∈ l, Avoids x r) : (insertApart x l).isSome := by
  induction l with
  | nil => rfl
  | cons r l ih =>
    have hr := h r List.mem_cons_self
    have hmeet : ¬ (x.1 < r.2 ∧ r.1 < x.2) := by
      rintro ⟨h1, h2⟩
      rcases hr with hr | hr
      · exact absurd h2 (not_lt.mpr hr)
      · exact absurd h1 (not_lt.mpr hr)
    unfold insertApart
    rw [if_neg hmeet]
    split
    · rfl
    · rw [Option.isSome_map]
      exact ih (fun t ht => h t (List.mem_cons_of_mem _ ht))

/-- What is inserted is apart from the rest, and the list covers its points
besides those it covered before. -/
theorem insertApart_some (hx : x.1 < x.2) (hl : Apart l) (h : insertApart x l = some l') :
    Apart l' ∧ (∀ r ∈ l, Avoids x r) ∧ (∀ a, Covers l' a ↔ Covers l a ∨ Holds x a) ∧
      ∀ b, (∀ r ∈ l, b ≤ r.1) → b ≤ x.1 → ∀ r ∈ l', b ≤ r.1 := by
  induction l generalizing l' with
  | nil =>
    cases h
    refine ⟨Apart.cons hx ⟨by simp, List.Pairwise.nil⟩ (by simp), by simp, ?_, by simp⟩
    intro a
    rw [covers_cons]
    exact or_comm
  | cons r l ih =>
    unfold insertApart at h
    split at h
    · cases h
    rename_i hmeet
    have hr := hl.pos r List.mem_cons_self
    have hafter := (List.pairwise_cons.mp hl.sorted).1
    split at h
    · -- the interval stands before all others
      rename_i hbefore
      cases h
      have hall : ∀ t ∈ r :: l, x.2 ≤ t.1 := by
        intro t ht
        rcases List.mem_cons.mp ht with rfl | ht
        · exact hbefore
        · exact (hbefore.trans hr.le).trans (hafter t ht)
      refine ⟨Apart.cons hx hl hall, fun t ht => Or.inl (hall t ht), ?_, ?_⟩
      · intro a
        rw [covers_cons]
        exact or_comm
      · intro b hb hbx t ht
        rcases List.mem_cons.mp ht with rfl | ht
        · exact hbx
        · exact hb t ht
    · rename_i hbefore
      obtain ⟨m, hm, rfl⟩ := Option.map_eq_some_iff.mp h
      obtain ⟨hapart, hdisj, hcov, hlow⟩ := ih hl.tail hm
      have hrx : r.2 ≤ x.1 := by
        by_contra hlt
        exact hmeet ⟨not_le.mp hlt, not_le.mp hbefore⟩
      refine ⟨Apart.cons hr hapart (hlow r.2 hafter hrx), ?_, ?_, ?_⟩
      · intro t ht
        rcases List.mem_cons.mp ht with rfl | ht
        · exact Or.inr hrx
        · exact hdisj t ht
      · intro a
        rw [covers_cons, hcov, covers_cons, or_assoc]
      · intro b hb hbx t ht
        rcases List.mem_cons.mp ht with rfl | ht
        · exact hb t List.mem_cons_self
        · exact hlow b (fun u hu => hb u (List.mem_cons_of_mem _ hu)) hbx t ht

end Insertion

/-! ### Coalescing -/

section Coalescing

variable {l : List (α × α)}

theorem coalesce_spec (hl : Apart l) :
    Separated (coalesce l) ∧ (∀ a, Covers (coalesce l) a ↔ Covers l a) ∧
      ∀ b, (∀ r ∈ l, b ≤ r.1) → ∀ r ∈ coalesce l, b ≤ r.1 := by
  induction l with
  | nil => exact ⟨⟨by simp [coalesce], List.Pairwise.nil⟩, fun a => Iff.rfl, by simp [coalesce]⟩
  | cons r l ih =>
    have hr := hl.pos r List.mem_cons_self
    have hafter := (List.pairwise_cons.mp hl.sorted).1
    obtain ⟨hsep, hcov, hlow⟩ := ih hl.tail
    unfold coalesce
    cases hc : coalesce l with
    | nil =>
      rw [hc] at hcov
      refine ⟨⟨by simpa using hr, List.pairwise_singleton _ _⟩, ?_, ?_⟩
      · intro a
        rw [covers_cons, covers_cons, hcov]
      · intro b hb t ht
        rw [List.mem_singleton.mp ht]
        exact hb r List.mem_cons_self
    | cons s l' =>
      rw [hc] at hsep hcov hlow
      have hs := hsep.pos s List.mem_cons_self
      have hrs : r.2 ≤ s.1 := hlow r.2 hafter s List.mem_cons_self
      obtain ⟨hgap, hsorted⟩ := List.pairwise_cons.mp hsep.sorted
      have htail : ∀ t ∈ l', t.1 < t.2 := fun t ht => hsep.pos t (List.mem_cons_of_mem _ ht)
      simp only
      split
      · -- the two intervals touch
        rename_i htouch
        refine ⟨⟨?_, List.pairwise_cons.mpr ⟨hgap, hsorted⟩⟩, ?_, ?_⟩
        · intro t ht
          rcases List.mem_cons.mp ht with rfl | ht
          · exact hr.trans (htouch ▸ hs)
          · exact htail t ht
        · intro a
          rw [covers_cons, covers_cons, ← hcov, covers_cons, ← or_assoc]
          refine or_congr_left ?_
          constructor
          · rintro ⟨h1, h2⟩
            rcases lt_or_ge a r.2 with hlt | hge
            · exact Or.inl ⟨h1, hlt⟩
            · exact Or.inr ⟨htouch ▸ hge, h2⟩
          · rintro (⟨h1, h2⟩ | ⟨h1, h2⟩)
            · exact ⟨h1, h2.trans (htouch ▸ hs)⟩
            · exact ⟨hr.le.trans (htouch ▸ h1), h2⟩
        · intro b hb t ht
          rcases List.mem_cons.mp ht with rfl | ht
          · exact hb r List.mem_cons_self
          · exact hlow b (fun u hu => hb u (List.mem_cons_of_mem _ hu)) t
              (List.mem_cons_of_mem _ ht)
      · rename_i hgap'
        have hlt : r.2 < s.1 := lt_of_le_of_ne hrs hgap'
        refine ⟨⟨?_, List.pairwise_cons.mpr ⟨?_, hsep.sorted⟩⟩, ?_, ?_⟩
        · intro t ht
          rcases List.mem_cons.mp ht with rfl | ht
          · exact hr
          · exact hsep.pos t ht
        · intro t ht
          rcases List.mem_cons.mp ht with rfl | ht
          · exact hlt
          · exact (hlt.trans hs).trans (hgap t ht)
        · intro a
          exact covers_cons.trans ((or_congr_right (hcov a)).trans covers_cons.symm)
        · intro b hb t ht
          rcases List.mem_cons.mp ht with rfl | ht
          · exact hb t List.mem_cons_self
          · exact hlow b (fun u hu => hb u (List.mem_cons_of_mem _ hu)) t ht

/-- A separated list that covers exactly one interval is that interval. -/
theorem Separated.eq_singleton (h : Separated l) {a b : α} (hab : a < b)
    (hcov : ∀ x, Covers l x ↔ Holds (a, b) x) : l = [(a, b)] := by
  cases l with
  | nil => exact absurd ((hcov a).mpr ⟨le_rfl, hab⟩) not_covers_nil
  | cons r l =>
    have hr := h.pos r List.mem_cons_self
    obtain ⟨hgap, -⟩ := List.pairwise_cons.mp h.sorted
    have hra : a ≤ r.1 := ((hcov r.1).mp (covers_cons.mpr (Or.inl ⟨le_rfl, hr⟩))).1
    -- the end of the first interval is not covered
    have hend : ¬ Covers (r :: l) r.2 := by
      rw [covers_cons]
      rintro (hin | ⟨t, ht, hin⟩)
      · exact absurd hin.2 (lt_irrefl _)
      · exact absurd hin.1 (not_le.mpr (hgap t ht))
    have hb : b ≤ r.2 := by
      by_contra hlt
      exact hend ((hcov r.2).mpr ⟨hra.trans hr.le, not_le.mp hlt⟩)
    have hnil : l = [] := by
      cases l with
      | nil => rfl
      | cons t l =>
        have ht := h.pos t (List.mem_cons_of_mem _ List.mem_cons_self)
        have hin := (hcov t.1).mp
          (covers_cons.mpr (Or.inr (covers_cons.mpr (Or.inl ⟨le_rfl, ht⟩))))
        have hgt := hgap t List.mem_cons_self
        exact absurd (hin.2.trans_le (hb.trans hgt.le)) (lt_irrefl _)
    subst hnil
    have hone (x : α) : Holds r x ↔ Holds (a, b) x := by
      rw [← hcov, covers_cons]
      exact ⟨Or.inl, fun hc => hc.resolve_right not_covers_nil⟩
    have ha : r.1 ≤ a := ((hone a).mpr ⟨le_rfl, hab⟩).1
    have hb' : r.2 ≤ b := by
      by_contra hlt
      have hin := (hone (max r.1 b)).mp ⟨le_max_left _ _, max_lt hr (not_le.mp hlt)⟩
      exact absurd (hin.2.trans_le (le_max_right _ _)) (lt_irrefl _)
    exact congrArg (fun t => [t]) (Prod.ext (le_antisymm ha hra) (le_antisymm hb' hb))

end Coalescing

end Intervals
