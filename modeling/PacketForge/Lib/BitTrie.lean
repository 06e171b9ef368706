import Mathlib.Data.List.TakeDrop

/-!
Binary tries. A node may carry a value and has a subtree for each bit; a path
of bits leads to at most one node. The operations are those of a trie that is
updated in place: nodes are created along a path, the value at a node is
replaced, and a removal prunes the branches it leaves empty. As a map from
paths to values a trie is the same before and after nodes are created or
pruned. The longest match along a path is the last value met on it. A walk
visits a node before its subtrees, and so the values in the order of their paths.
-/

variable {α : Type*}

/-- A trie; `nil` is the absent node. -/
inductive BitTrie (α : Type*) where
  | nil
  | node (value : Option α) (zero one : BitTrie α)
deriving DecidableEq

namespace BitTrie

def child (b : Bool) : BitTrie α → BitTrie α
  | nil => nil
  | node _ zero one => if b then one else zero

def setChild (b : Bool) : BitTrie α → BitTrie α → BitTrie α
  | nil, _ => nil
  | node v zero one, t => if b then node v zero t else node v t one

/-- The value at the end of a path. -/
def get : BitTrie α → List Bool → Option α
  | nil, _ => none
  | node v _ _, [] => v
  | node _ zero one, b :: p => if b then one.get p else zero.get p

/-- The node itself, or an empty one in its place. -/
def orEmpty : BitTrie α → BitTrie α
  | nil => node none nil nil
  | t => t

/-- Create the missing nodes along a path. -/
def create : List Bool → BitTrie α → BitTrie α
  | [], t => t.orEmpty
  | b :: p, t => t.orEmpty.setChild b (create p (t.child b))

/-- Replace the value at the end of a path that exists. -/
def set : List Bool → Option α → BitTrie α → BitTrie α
  | _, _, nil => nil
  | [], v, node _ zero one => node v zero one
  | b :: p, v, t@(node _ _ _) => t.setChild b (set p v (t.child b))

/-- A node without value and subtrees. -/
def isBare : BitTrie α → Bool
  | node none nil nil => true
  | _ => false

/-- Remove the value at the end of a path, and every node below the root that
is left bare by it. -/
def erase (below : Bool) : List Bool → BitTrie α → BitTrie α
  | _, nil => nil
  | [], node _ zero one =>
    let t := node none zero one
    if below && t.isBare then nil else t
  | b :: p, t@(node _ _ _) =>
    let t := t.setChild b (erase true p (t.child b))
    if below && t.isBare then nil else t

/-- The last value met along a path, or `best` if there is none. -/
def longest : BitTrie α → List Bool → Option α → Option α
  | nil, _, best => best
  | node v _ _, [], best => v.or best
  | node v zero one, b :: p, best =>
    if b then one.longest p (v.or best) else zero.longest p (v.or best)

/-- Visit the values: that of the node, then those of its subtrees. -/
def walk {σ : Type*} (visit : σ → α → σ) : BitTrie α → σ → σ
  | nil, s => s
  | node v zero one, s => one.walk visit (zero.walk visit (v.elim s (visit s)))

/-! ### Reading back -/

variable (p : List Bool) {t : BitTrie α}

@[simp] theorem get_nil : (nil : BitTrie α).get p = none := by
  cases p <;> rfl

theorem get_child (t : BitTrie α) (b : Bool) (p : List Bool) :
    (t.child b).get p = t.get (b :: p) := by
  cases t with
  | nil => simp [child]
  | node v zero one => cases b <;> rfl

theorem get_orEmpty (t : BitTrie α) (p : List Bool) : t.orEmpty.get p = t.get p := by
  cases t with
  | nil =>
    cases p with
    | nil => rfl
    | cons b p => cases b <;> simp [orEmpty, get]
  | node v zero one => rfl

theorem orEmpty_ne_nil (t : BitTrie α) : t.orEmpty ≠ nil := by
  cases t <;> simp [orEmpty]

/-- Replacing a subtree is seen only by the paths that enter it. -/
theorem get_setChild (ht : t ≠ nil) (b : Bool) (s : BitTrie α) (q : List Bool) :
    (t.setChild b s).get q =
      match q with
      | [] => t.get []
      | c :: q => if c = b then s.get q else t.get (c :: q) := by
  cases t with
  | nil => exact absurd rfl ht
  | node v zero one =>
    cases q with
    | nil => cases b <;> rfl
    | cons c q => cases b <;> cases c <;> rfl

theorem get_create (t : BitTrie α) (q : List Bool) : (create p t).get q = t.get q := by
  induction p generalizing t q with
  | nil => exact get_orEmpty t q
  | cons b p ih =>
    rw [create, get_setChild (orEmpty_ne_nil t)]
    cases q with
    | nil => exact get_orEmpty t []
    | cons c q =>
      simp only
      split
      · rename_i hc
        rw [ih, get_child, hc]
      · exact get_orEmpty t (c :: q)

theorem setChild_ne_nil (ht : t ≠ nil) (b : Bool) (s : BitTrie α) : t.setChild b s ≠ nil := by
  cases t with
  | nil => exact absurd rfl ht
  | node v zero one => cases b <;> simp [setChild]

theorem create_ne_nil (t : BitTrie α) : create p t ≠ nil := by
  cases p with
  | nil => exact orEmpty_ne_nil t
  | cons b p => exact setChild_ne_nil (orEmpty_ne_nil t) b _

theorem child_setChild (ht : t ≠ nil) (b : Bool) (s : BitTrie α) :
    (t.setChild b s).child b = s := by
  cases t with
  | nil => exact absurd rfl ht
  | node v zero one => cases b <;> rfl

theorem set_cons (ht : t ≠ nil) (b : Bool) (p : List Bool) (v : Option α) :
    set (b :: p) v t = t.setChild b (set p v (t.child b)) := by
  cases t with
  | nil => exact absurd rfl ht
  | node w zero one => rfl

theorem set_nil (ht : t ≠ nil) (v : Option α) (q : List Bool) :
    (set [] v t).get q = if q = [] then v else t.get q := by
  cases t with
  | nil => exact absurd rfl ht
  | node w zero one =>
    cases q with
    | nil => simp [set, get]
    | cons c q => simp [set, get]

theorem get_set_create (v : Option α) (t : BitTrie α) (q : List Bool) :
    (set p v (create p t)).get q = if q = p then v else t.get q := by
  induction p generalizing t q with
  | nil =>
    rw [set_nil (create_ne_nil [] t), get_create]
  | cons b p ih =>
    have hne := orEmpty_ne_nil t
    have hne' : t.orEmpty.setChild b (create p (t.child b)) ≠ nil := setChild_ne_nil hne b _
    rw [create, set_cons hne', child_setChild hne, get_setChild hne']
    cases q with
    | nil =>
      rw [get_setChild hne]
      simp [get_orEmpty]
    | cons c q =>
      simp only [List.cons.injEq]
      by_cases hc : c = b
      · subst hc
        rw [if_pos rfl, ih, get_child]
        simp
      · rw [if_neg hc, get_setChild hne]
        simp [hc, get_orEmpty]

/-! ### Removal -/

theorem get_of_isBare (h : t.isBare = true) (q : List Bool) : t.get q = none := by
  unfold isBare at h
  split at h
  · cases q with
    | nil => rfl
    | cons c q => cases c <;> simp [get]
  · cases h

theorem get_prune (t : BitTrie α) (below : Bool) (q : List Bool) :
    (if below && t.isBare then nil else t).get q = t.get q := by
  split
  · rename_i h
    rw [Bool.and_eq_true] at h
    rw [get_nil, get_of_isBare h.2]
  · rfl

/-- Removal forgets one path and keeps every other one. -/
theorem get_erase (below : Bool) (p : List Bool) (t : BitTrie α) (q : List Bool) :
    (erase below p t).get q = if q = p then none else t.get q := by
  induction p generalizing below t q with
  | nil =>
    cases t with
    | nil => simp [erase]
    | node v zero one =>
      simp only [erase]
      rw [get_prune]
      cases q with
      | nil => simp [get]
      | cons c q => simp [get]
  | cons b p ih =>
    cases t with
    | nil => simp [erase]
    | node v zero one =>
      simp only [erase]
      rw [get_prune, get_setChild (by simp)]
      cases q with
      | nil => simp
      | cons c q =>
        simp only [List.cons.injEq]
        by_cases hc : c = b
        · subst hc
          rw [if_pos rfl, ih, get_child]
          simp
        · simp [hc]

/-! ### Tries without dead branches -/

def sub : BitTrie α → List Bool → BitTrie α
  | t, [] => t
  | t, b :: p => (t.child b).sub p

theorem get_sub (t : BitTrie α) (p q : List Bool) : (t.sub p).get q = t.get (p ++ q) := by
  induction p generalizing t with
  | nil => rfl
  | cons b p ih =>
    rw [sub, ih, get_child]
    rfl

/-- Every node has a value at or below it. -/
def Dense (t : BitTrie α) : Prop := ∀ p, t.sub p ≠ nil → ∃ q, (t.get (p ++ q)).isSome = true

/-- Every node below the root has a value at or below it. -/
def Minimal (t : BitTrie α) : Prop :=
  ∀ p, p ≠ [] → t.sub p ≠ nil → ∃ q, (t.get (p ++ q)).isSome = true

theorem Dense.child (h : t.Dense) (b : Bool) : (t.child b).Dense := by
  intro p hp
  obtain ⟨q, hq⟩ := h (b :: p) hp
  refine ⟨q, ?_⟩
  rw [get_child]
  exact hq

/-- Below the root minimal is the same as dense. -/
theorem minimal_iff (t : BitTrie α) : t.Minimal ↔ ∀ b, (t.child b).Dense := by
  constructor
  · intro h b p hp
    obtain ⟨q, hq⟩ := h (b :: p) (List.cons_ne_nil b p) hp
    refine ⟨q, ?_⟩
    rw [get_child]
    exact hq
  · intro h p hne hp
    cases p with
    | nil => exact absurd rfl hne
    | cons b p =>
      obtain ⟨q, hq⟩ := h b p hp
      refine ⟨q, ?_⟩
      rw [get_child] at hq
      exact hq

theorem sub_nil : (nil : BitTrie α).sub p = nil := by
  induction p with
  | nil => rfl
  | cons b p ih => exact ih

theorem dense_nil : (nil : BitTrie α).Dense := fun p hp => absurd (sub_nil p) hp

theorem minimal_nil : (nil : BitTrie α).Minimal :=
  (minimal_iff nil).mpr fun _ => dense_nil

/-- A node is dense if its subtrees are and there is a value somewhere. -/
theorem dense_of_children (hchild : ∀ b, (t.child b).Dense) {q : List Bool}
    (hq : (t.get q).isSome = true) : t.Dense := by
  intro p hp
  cases p with
  | nil => exact ⟨q, hq⟩
  | cons b p => exact (minimal_iff t).mpr hchild (b :: p) (List.cons_ne_nil b p) hp

theorem setChild_children (ht : t ≠ nil) {b : Bool} {s : BitTrie α} (hs : s.Dense)
    (hchild : ∀ c, (t.child c).Dense) (c : Bool) : ((t.setChild b s).child c).Dense := by
  by_cases hc : c = b
  · rw [hc, child_setChild ht]
    exact hs
  · have hother : (t.setChild b s).child c = t.child c := by
      cases t with
      | nil => exact absurd rfl ht
      | node v zero one => cases b <;> cases c <;> first | rfl | exact absurd rfl hc
    rw [hother]
    exact hchild c

/-- A node that is not bare and has dense subtrees has a value somewhere. -/
theorem exists_value (hne : t ≠ nil) (hbare : t.isBare = false) (hchild : ∀ b, (t.child b).Dense) :
    ∃ q, (t.get q).isSome = true := by
  have hbelow (b : Bool) (hb : t.child b ≠ nil) : ∃ q, (t.get q).isSome = true := by
    obtain ⟨q, hq⟩ := hchild b [] hb
    rw [List.nil_append, get_child] at hq
    exact ⟨b :: q, hq⟩
  cases t with
  | nil => exact absurd rfl hne
  | node v zero one =>
    cases v with
    | some v => exact ⟨[], rfl⟩
    | none =>
      cases zero with
      | node v' zero' one' => exact hbelow false (by simp [BitTrie.child])
      | nil =>
        cases one with
        | node v' zero' one' => exact hbelow true (by simp [BitTrie.child])
        | nil => cases hbare

theorem dense_prune (hne : t ≠ nil) (hchild : ∀ b, (t.child b).Dense) :
    (if t.isBare then nil else t).Dense := by
  split
  · exact dense_nil
  · rename_i hbare
    obtain ⟨q, hq⟩ := exists_value hne (by simpa using hbare) hchild
    exact dense_of_children hchild hq

/-- Removal prunes every branch it leaves dead. -/
theorem dense_erase (t : BitTrie α) (h : t.Dense) : (erase true p t).Dense := by
  induction p generalizing t with
  | nil =>
    cases t with
    | nil => exact dense_nil
    | node v zero one =>
      simp only [erase, Bool.true_and]
      exact dense_prune (by simp) fun b => h.child b
  | cons b p ih =>
    cases t with
    | nil => exact dense_nil
    | node v zero one =>
      simp only [erase, Bool.true_and]
      exact dense_prune (setChild_ne_nil (by simp) b _)
        (setChild_children (by simp) (ih _ (h.child b)) h.child)

theorem minimal_erase (t : BitTrie α) (h : t.Minimal) : (erase false p t).Minimal := by
  rw [minimal_iff] at h ⊢
  cases t with
  | nil =>
    intro b
    cases p <;> exact dense_nil
  | node v zero one =>
    cases p with
    | nil => exact h
    | cons b p =>
      intro c
      exact setChild_children (t := node v zero one) (by simp) (dense_erase p _ (h b)) h c

theorem child_orEmpty (t : BitTrie α) (b : Bool) : t.orEmpty.child b = t.child b := by
  cases t with
  | nil => cases b <;> rfl
  | node v zero one => rfl

theorem setChild_setChild (t : BitTrie α) (b : Bool) (s s' : BitTrie α) :
    (t.setChild b s).setChild b s' = t.setChild b s' := by
  cases t with
  | nil => rfl
  | node v zero one => cases b <;> rfl

/-- A value makes every node on the way to it alive. -/
theorem minimal_set_create (v : α) (t : BitTrie α) (h : t.Minimal) :
    (set p (some v) (create p t)).Minimal := by
  rw [minimal_iff] at h ⊢
  induction p generalizing t with
  | nil =>
    intro b
    have hchild : (set [] (some v) (create [] t)).child b = t.child b := by
      cases t with
      | nil => cases b <;> rfl
      | node w zero one => rfl
    rw [hchild]
    exact h b
  | cons b p ih =>
    have hne := orEmpty_ne_nil t
    have hvalue : ((set p (some v) (create p (t.child b))).get p).isSome = true := by
      rw [get_set_create, if_pos rfl]
      rfl
    have hsub : (set p (some v) (create p (t.child b))).Dense :=
      dense_of_children (ih _ (h b).child) hvalue
    rw [create, set_cons (setChild_ne_nil hne b _), child_setChild hne, setChild_setChild]
    apply setChild_children hne hsub
    intro c
    rw [child_orEmpty]
    exact h c

theorem create_eq_self (t : BitTrie α) (h : t.sub p ≠ nil) : create p t = t := by
  induction p generalizing t with
  | nil =>
    cases t with
    | nil => exact absurd rfl h
    | node v zero one => rfl
  | cons b p ih =>
    cases t with
    | nil => exact absurd (ih nil h) (create_ne_nil p nil)
    | node v zero one =>
      rw [create, ih _ h]
      cases b <;> rfl

theorem sub_create (t : BitTrie α) : (create p t).sub p ≠ nil := by
  induction p generalizing t with
  | nil => exact orEmpty_ne_nil t
  | cons b p ih =>
    rw [create, sub, child_setChild (orEmpty_ne_nil t)]
    exact ih (t.child b)

/-! ### Longest match -/

/-- The longest match of a path is `v`, found at the node `n` bits down: no
node further down the path carries a value. -/
structure MatchAt (t : BitTrie α) (p : List Bool) (n : Nat) (v : α) : Prop where
  le : n ≤ p.length
  value : t.get (p.take n) = some v
  last : ∀ m, n < m → m ≤ p.length → t.get (p.take m) = none

theorem MatchAt.cons {b : Bool} {p : List Bool} {n : Nat} {v : α} (h : MatchAt (t.child b) p n v) :
    MatchAt t (b :: p) (n + 1) v := by
  refine ⟨by simpa using h.le, ?_, ?_⟩
  · rw [List.take_succ_cons, ← get_child]
    exact h.value
  · intro m hnm hm
    obtain ⟨k, rfl⟩ : ∃ k, m = k + 1 := ⟨m - 1, by omega⟩
    rw [List.take_succ_cons, ← get_child]
    exact h.last k (by omega) (by simpa using hm)

/-- The longest match, and the default where no node on the path has a
value. -/
theorem longest_spec (t : BitTrie α) (p : List Bool) (best : Option α) :
    (∃ n v, MatchAt t p n v ∧ t.longest p best = some v) ∨
      (∀ n, n ≤ p.length → t.get (p.take n) = none) ∧ t.longest p best = best := by
  induction p generalizing t best with
  | nil =>
    cases t with
    | nil => exact Or.inr ⟨by simp, rfl⟩
    | node v zero one =>
      cases v with
      | none => exact Or.inr ⟨by simp [get], rfl⟩
      | some v =>
        refine Or.inl ⟨0, v, ⟨Nat.le_refl 0, rfl, ?_⟩, rfl⟩
        intro m hm hle
        simp only [List.length_nil] at hle
        omega
  | cons b p ih =>
    cases t with
    | nil => exact Or.inr ⟨by simp, rfl⟩
    | node v zero one =>
      have hstep : (node v zero one).longest (b :: p) best =
          ((node v zero one).child b).longest p (v.or best) := by
        cases b <;> rfl
      rw [hstep]
      rcases ih ((node v zero one).child b) (v.or best) with ⟨n, w, hm, hl⟩ | ⟨hnone, hl⟩
      · exact Or.inl ⟨n + 1, w, hm.cons, hl⟩
      · have hbelow (k : Nat) (hk : k ≤ p.length) :
            (node v zero one).get ((b :: p).take (k + 1)) = none := by
          rw [List.take_succ_cons, ← get_child]
          exact hnone k hk
        rw [hl]
        cases v with
        | some w =>
          refine Or.inl ⟨0, w, ⟨Nat.zero_le _, rfl, ?_⟩, rfl⟩
          intro m hm hle
          obtain ⟨k, rfl⟩ : ∃ k, m = k + 1 := ⟨m - 1, by omega⟩
          exact hbelow k (by simpa using hle)
        | none =>
          refine Or.inr ⟨?_, rfl⟩
          intro n hn
          cases n with
          | zero => rfl
          | succ k => exact hbelow k (by simpa using hn)

/-! ### Walks -/

/-- The values with their paths, in the order of a walk. -/
def entries : BitTrie α → List (List Bool × α)
  | nil => []
  | node v zero one =>
    (v.toList.map fun a => ([], a)) ++
      ((zero.entries.map fun e => (false :: e.1, e.2)) ++
        one.entries.map fun e => (true :: e.1, e.2))

theorem walk_eq {σ : Type*} (visit : σ → α → σ) (t : BitTrie α) (s : σ) :
    t.walk visit s = (t.entries.map Prod.snd).foldl visit s := by
  induction t generalizing s with
  | nil => rfl
  | node v zero one ihzero ihone =>
    have hvalue : (v.toList).foldl visit s = v.elim s (visit s) := by cases v <;> rfl
    simp only [walk, entries, List.map_append, List.map_map, List.foldl_append, Function.comp_def]
    rw [ihzero, ihone, List.map_id', hvalue]

theorem mem_entries {p : List Bool} {a : α} : (p, a) ∈ t.entries ↔ t.get p = some a := by
  induction t generalizing p with
  | nil => simp [entries]
  | node v zero one ihzero ihone =>
    cases p with
    | nil => simp [entries, get]
    | cons b p => cases b <;> simp [entries, get, ihzero, ihone]

/-- A prefix comes before its extensions, and the zero branch before the one branch. -/
theorem entries_sorted (t : BitTrie α) :
    t.entries.Pairwise fun e e' => List.Lex (· < ·) e.1 e'.1 := by
  induction t with
  | nil => exact List.Pairwise.nil
  | node v zero one ihzero ihone =>
    have hchild {l : List (List Bool × α)} (b : Bool)
        (hl : l.Pairwise fun e e' => List.Lex (· < ·) e.1 e'.1) :
        (l.map fun e => (b :: e.1, e.2)).Pairwise fun e e' => List.Lex (· < ·) e.1 e'.1 := by
      rw [List.pairwise_map]
      exact hl.imp List.Lex.cons
    have hvalue : (v.toList.map fun a => (([] : List Bool), a)).Pairwise
        fun e e' => List.Lex (· < ·) e.1 e'.1 := by
      cases v with
      | none => exact List.Pairwise.nil
      | some a => exact List.pairwise_singleton _ _
    refine List.pairwise_append.mpr
      ⟨hvalue, List.pairwise_append.mpr ⟨hchild false ihzero, hchild true ihone, ?_⟩, ?_⟩
    · intro e he e' he'
      obtain ⟨x, -, rfl⟩ := List.mem_map.mp he
      obtain ⟨y, -, rfl⟩ := List.mem_map.mp he'
      exact List.Lex.rel (by decide)
    · intro e he e' he'
      obtain ⟨a, -, rfl⟩ := List.mem_map.mp he
      rcases List.mem_append.mp he' with hy | hy
      · obtain ⟨y, -, rfl⟩ := List.mem_map.mp hy
        exact List.Lex.nil
      · obtain ⟨y, -, rfl⟩ := List.mem_map.mp hy
        exact List.Lex.nil

end BitTrie
