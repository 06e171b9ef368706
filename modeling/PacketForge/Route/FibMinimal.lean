import PacketForge.Route.FibRefine

/-!
The shape of the trie. Removal prunes what it leaves empty and a route keeps
every node on its way alive, so after calls that succeed every node below the
root has a route in its subtree. `fib_add` creates the nodes of a path before it
looks for a pool entry, and does not take them back when there is none: that is
the one way to a dead branch.
-/

namespace PacketForge

/-- The calls that change a FIB. -/
inductive RouteOp where
  | add (addr : UInt32) (plen : UInt8) (nextHop : UInt32) (dev : Option DevIdx) (connected : Bool)
  | addVia (addr : UInt32) (plen : UInt8) (nextHop : UInt32)
  | del (addr : UInt32) (plen : UInt8)

namespace RouteOp

def adds : RouteOp → Bool
  | add .. | addVia .. => true
  | del .. => false

end RouteOp

namespace Fib

def call (f : Fib) : RouteOp → Fib × Int
  | .add addr plen nextHop dev connected => fibAdd f addr plen nextHop dev connected
  | .addVia addr plen nextHop => fibAddVia f addr plen nextHop
  | .del addr plen => fibDel f addr plen

def after (f : Fib) (op : RouteOp) : Fib := (f.call op).1

abbrev Reach (allowed : Fib → RouteOp → Prop) : Fib → Prop := Run.Reach (· = Fib.init) allowed after

/-- Every trie node other than the root has an installed route in its subtree. -/
def NoDeadBranch (f : Fib) : Prop :=
  ∀ p, p ≠ [] → f.root.sub p ≠ .nil →
    ∃ q i, f.root.get (p ++ q) = some i ∧ (f.pool i).inUse = true

/-- `fib_add` with these arguments would create nodes and then find the pool
exhausted. -/
def Strands (f : Fib) (addr : UInt32) (plen : UInt8) (dev : Option DevIdx) : Prop :=
  plen ≤ 32 ∧ dev ≠ none ∧
    f.root.sub (bitPath (addr &&& prefixMask plen) plen.toNat) = .nil ∧ poolAlloc f = none

/-- A call that leaves nodes without a route. -/
def DeadEnds (f : Fib) : RouteOp → Prop
  | .add addr plen _ dev _ => f.Strands addr plen dev
  | .addVia addr plen nextHop =>
    ∃ i, fibLookup f nextHop = some i ∧ (f.pool i).connected = true ∧
      f.Strands addr plen (f.pool i).dev
  | .del _ _ => False

end Fib

/-! ### The calls on a represented map -/

variable {f : Fib} {m : RouteMap}

theorem fibAdd_represents (h : FibRepresents f m) (addr : UInt32) (plen : UInt8) (nextHop : UInt32)
    (dev : Option DevIdx) (connected : Bool) :
    ∃ m', FibRepresents (fibAdd f addr plen nextHop dev connected).1 m' := by
  rcases fibAdd_cases h addr plen nextHop dev connected with ⟨-, hrep, -⟩ | ⟨-, _, _, -, -, -, hrep⟩
  · exact ⟨_, hrep⟩
  · exact ⟨_, hrep⟩

/-- `fib_add_via` is refused, or is a `fib_add` on the device of the next hop. -/
theorem fibAddVia_eq (f : Fib) (addr : UInt32) (plen : UInt8) (nextHop : UInt32) :
    fibAddVia f addr plen nextHop = (f, -1) ∧
        (∀ i, fibLookup f nextHop = some i → (f.pool i).connected = false) ∨
      ∃ i, fibLookup f nextHop = some i ∧ (f.pool i).connected = true ∧
        fibAddVia f addr plen nextHop = fibAdd f addr plen nextHop (f.pool i).dev false := by
  unfold fibAddVia
  cases hlook : fibLookup f nextHop with
  | none => exact Or.inl ⟨rfl, fun i hi => by cases hi⟩
  | some i =>
    cases hconn : (f.pool i).connected with
    | true => exact Or.inr ⟨i, rfl, hconn, by simp [hconn]⟩
    | false =>
      refine Or.inl ⟨by simp [hconn], fun j hj => ?_⟩
      cases hj
      exact hconn

theorem call_represents (h : FibRepresents f m) (op : RouteOp) :
    ∃ m', FibRepresents (f.after op) m' := by
  cases op with
  | add addr plen nextHop dev connected => exact fibAdd_represents h addr plen nextHop dev connected
  | addVia addr plen nextHop =>
    change ∃ m', FibRepresents (fibAddVia f addr plen nextHop).1 m'
    rcases fibAddVia_eq f addr plen nextHop with ⟨heq, -⟩ | ⟨i, -, -, heq⟩
    · rw [heq]
      exact ⟨m, h⟩
    · rw [heq]
      exact fibAdd_represents h addr plen nextHop _ false
  | del addr plen =>
    rcases fibDel_cases h addr plen with ⟨-, hrep, -⟩ | ⟨-, _, _, -, -, hrep⟩
    · exact ⟨_, hrep⟩
    · exact ⟨_, hrep⟩

/-- A value of the trie is an installed route, so the two notions agree. -/
theorem noDeadBranch_iff (h : FibRepresents f m) : f.NoDeadBranch ↔ f.root.Minimal := by
  constructor
  · intro hdead p hne hp
    obtain ⟨q, i, hget, -⟩ := hdead p hne hp
    exact ⟨q, by rw [hget]; rfl⟩
  · intro hmin p hne hp
    obtain ⟨q, hq⟩ := hmin p hne hp
    obtain ⟨i, hget⟩ := Option.isSome_iff_exists.mp hq
    obtain ⟨k, r, hpath, -⟩ := h.node _ _ hget
    obtain ⟨r', -, hpool⟩ := h.entry (hpath ▸ hget)
    exact ⟨q, i, hget, by rw [hpool]; rfl⟩

/-! ### What a call does to the shape -/

/-- A `fib_add` that does not strand nodes keeps the trie minimal, and changes
nothing if it is refused. -/
theorem fibAdd_minimal (hmin : f.root.Minimal) (addr : UInt32) (plen : UInt8) (nextHop : UInt32)
    (dev : Option DevIdx) (connected : Bool) (hok : ¬ f.Strands addr plen dev) :
    (fibAdd f addr plen nextHop dev connected).1.root.Minimal ∧
      ((fibAdd f addr plen nextHop dev connected).2 = -1 →
        (fibAdd f addr plen nextHop dev connected).1 = f) := by
  unfold fibAdd
  split
  · exact ⟨hmin, fun _ => rfl⟩
  rename_i hgood
  simp only [not_or] at hgood
  set path := bitPath (addr &&& prefixMask plen) plen.toNat
  simp only
  split
  · -- the prefix has a route already, so its nodes exist
    rename_i i hget
    have hpath : f.root.sub path ≠ .nil := by
      intro hnil
      have hnone : (f.root.sub path).get [] = none := by rw [hnil]; rfl
      rw [BitTrie.get_create] at hget
      rw [BitTrie.get_sub, List.append_nil, hget] at hnone
      cases hnone
    refine ⟨?_, fun h => absurd (show (0 : Int) = -1 from h) (by decide)⟩
    change (f.root.create path).Minimal
    rw [BitTrie.create_eq_self path f.root hpath]
    exact hmin
  · split
    · rename_i hpool
      have hpath : f.root.sub path ≠ .nil := fun hnil =>
        hok ⟨UInt8.not_lt.mp hgood.1, hgood.2, hnil, hpool⟩
      rw [BitTrie.create_eq_self path f.root hpath]
      exact ⟨hmin, fun _ => rfl⟩
    · exact ⟨BitTrie.minimal_set_create path _ f.root hmin,
        fun h => absurd (show (0 : Int) = -1 from h) (by decide)⟩

/-- A `fib_add` that strands nodes is refused and has changed the trie. -/
theorem fibAdd_strands {addr : UInt32} {plen : UInt8} {dev : Option DevIdx}
    (h : f.Strands addr plen dev) (nextHop : UInt32) (connected : Bool) :
    (fibAdd f addr plen nextHop dev connected).2 = -1 ∧
      (fibAdd f addr plen nextHop dev connected).1 ≠ f := by
  obtain ⟨hplen, hdev, hnil, hpool⟩ := h
  have hget : (f.root.create (bitPath (addr &&& prefixMask plen) plen.toNat)).get
      (bitPath (addr &&& prefixMask plen) plen.toNat) = none := by
    rw [BitTrie.get_create, ← List.append_nil (bitPath _ _), ← BitTrie.get_sub, hnil]
    rfl
  have heq : fibAdd f addr plen nextHop dev connected =
      ({ f with root := f.root.create (bitPath (addr &&& prefixMask plen) plen.toNat) }, -1) := by
    unfold fibAdd
    rw [if_neg (by simp only [not_or]; exact ⟨UInt8.not_lt.mpr hplen, hdev⟩)]
    simp only [hget, hpool]
  rw [heq]
  refine ⟨rfl, fun hsame => ?_⟩
  have hroot := congrArg Fib.root hsame
  have hsub := BitTrie.sub_create (bitPath (addr &&& prefixMask plen) plen.toNat) f.root
  simp only at hroot
  rw [hroot] at hsub
  exact hsub hnil

theorem call_minimal (hmin : f.root.Minimal) {op : RouteOp} (hok : ¬ f.DeadEnds op) :
    (f.after op).root.Minimal ∧ (op.adds = true → (f.call op).2 = -1 → f.after op = f) := by
  cases op with
  | add addr plen nextHop dev connected =>
    obtain ⟨hroot, hsame⟩ := fibAdd_minimal hmin addr plen nextHop dev connected hok
    exact ⟨hroot, fun _ => hsame⟩
  | addVia addr plen nextHop =>
    simp only [Fib.after, Fib.call]
    rcases fibAddVia_eq f addr plen nextHop with ⟨heq, -⟩ | ⟨i, hlook, hconn, heq⟩
    · rw [heq]
      exact ⟨hmin, fun _ _ => rfl⟩
    · rw [heq]
      obtain ⟨hroot, hsame⟩ := fibAdd_minimal hmin addr plen nextHop (f.pool i).dev false
        (fun hs => hok ⟨i, hlook, hconn, hs⟩)
      exact ⟨hroot, fun _ => hsame⟩
  | del addr plen =>
    refine ⟨?_, fun h => Bool.noConfusion h⟩
    simp only [Fib.after, Fib.call, fibDel]
    split
    · exact hmin
    · split <;> exact BitTrie.minimal_erase _ f.root hmin

theorem call_deadEnds {op : RouteOp} (h : f.DeadEnds op) :
    op.adds = true ∧ (f.call op).2 = -1 ∧ f.after op ≠ f := by
  cases op with
  | add addr plen nextHop dev connected => exact ⟨rfl, fibAdd_strands h nextHop connected⟩
  | addVia addr plen nextHop =>
    obtain ⟨i, hlook, hconn, hs⟩ := h
    refine ⟨rfl, ?_⟩
    simp only [Fib.after, Fib.call]
    rcases fibAddVia_eq f addr plen nextHop with ⟨-, hno⟩ | ⟨j, hlook', -, heq⟩
    · rw [hno i hlook] at hconn
      cases hconn
    · rw [hlook, Option.some.injEq] at hlook'
      rw [heq, ← hlook']
      exact fibAdd_strands hs nextHop false
  | del => exact h.elim

/-! ### Runs -/

theorem Fib.init_reach (allowed : Fib → RouteOp → Prop) : Fib.Reach allowed Fib.init := .start rfl

theorem Fib.Reach.sound (h : Fib.Reach (fun f op => ¬ f.DeadEnds op) f) :
    (∃ m, FibRepresents f m) ∧ f.root.Minimal := by
  refine Run.Reach.invariant (fun f : Fib => (∃ m, FibRepresents f m) ∧ f.root.Minimal) ?_ ?_ h
  · rintro f rfl
    exact ⟨⟨_, FibRepresents.init⟩, BitTrie.minimal_nil⟩
  · rintro f op hok ⟨⟨m, hrep⟩, hmin⟩
    exact ⟨call_represents hrep op, (call_minimal hmin hok).1⟩

/-- As long as no add has run out of pool entries on a new path the trie has no
dead branch; and a call leaves none, and changes nothing if it is an add that
is refused, exactly if it does not do so itself. -/
theorem trie_minimal_iff {f : Fib} (h : Fib.Reach (fun f op => ¬ f.DeadEnds op) f) :
    f.NoDeadBranch ∧
      ∀ op, ((f.after op).NoDeadBranch ∧
          (op.adds = true → (f.call op).2 = -1 → f.after op = f)) ↔ ¬ f.DeadEnds op := by
  obtain ⟨⟨m, hrep⟩, hmin⟩ := h.sound
  refine ⟨(noDeadBranch_iff hrep).mpr hmin, fun op => ⟨?_, ?_⟩⟩
  · rintro ⟨-, hsame⟩ hdead
    obtain ⟨hadds, hrc, hne⟩ := call_deadEnds hdead
    exact hne (hsame hadds hrc)
  · intro hok
    obtain ⟨m', hrep'⟩ := call_represents hrep op
    obtain ⟨hmin', hsame⟩ := call_minimal hmin hok
    exact ⟨(noDeadBranch_iff hrep').mpr hmin', hsame⟩

/-- A route that was taken out again. -/
theorem trie_minimal_iff_one_route :
    let f := (Fib.init.after (.add 0x0a000000 8 2 (some 1) true)).after (.del 0x0a000000 8)
    f.NoDeadBranch ∧
      (((f.after (.add 0 0 1 (some 0) false)).NoDeadBranch ∧
        (RouteOp.adds (.add 0 0 1 (some 0) false) = true →
          (f.call (.add 0 0 1 (some 0) false)).2 = -1 →
          f.after (.add 0 0 1 (some 0) false) = f)) ↔
        ¬ f.DeadEnds (.add 0 0 1 (some 0) false)) := by
  have hroom : ¬ Fib.init.DeadEnds (.add 0x0a000000 8 2 (some 1) true) := by
    rintro ⟨-, -, -, hpool⟩
    exact absurd hpool (by decide)
  have hreach : Fib.Reach (fun f op => ¬ f.DeadEnds op)
      ((Fib.init.after (.add 0x0a000000 8 2 (some 1) true)).after (.del 0x0a000000 8)) :=
    ((Fib.init_reach _).next _ hroom).next _ (fun h => h)
  exact ⟨(trie_minimal_iff hreach).1, (trie_minimal_iff hreach).2 _⟩

/-- Routes to the first 64 networks of length 8. -/
def fullFib : Fib :=
  ((List.range 64).map fun i =>
    RouteOp.add (UInt32.ofNat (i * 16777216)) 8 1 (some ⟨0, pfMaxDevs_pos⟩) true).foldl
    Fib.after Fib.init

/-- With the pool full a new route is refused, but the eight nodes on its way
stay behind. -/
theorem refused_add_leaves_nodes :
    let op := RouteOp.add 0xff000000 8 1 (some 0) true
    Fib.Reach (fun _ _ => True) fullFib ∧ (fullFib.call op).2 = -1 ∧
      fullFib.root.sub (bitPath 0xff000000 8) = .nil ∧
      (fullFib.after op).root.sub (bitPath 0xff000000 8) = .node none .nil .nil ∧
      ¬ (fullFib.after op).NoDeadBranch := by
  have hreach : Fib.Reach (fun _ _ => True) fullFib :=
    (Fib.init_reach _).foldl _ (Run.Allowed.all _ _ _)
  have hbare : (fullFib.after (.add 0xff000000 8 1 (some 0) true)).root.sub (bitPath 0xff000000 8) =
      .node none .nil .nil := by decide +kernel
  refine ⟨hreach, by decide +kernel, by decide +kernel, hbare, fun hlive => ?_⟩
  obtain ⟨q, i, hget, -⟩ := hlive (bitPath 0xff000000 8) (by decide) (by rw [hbare]; simp)
  rw [← BitTrie.get_sub, hbare, BitTrie.get_of_isBare rfl] at hget
  cases hget

end PacketForge
