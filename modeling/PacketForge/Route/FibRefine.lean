import Mathlib.SetTheory.Cardinal.Finite
import PacketForge.Lib.Run
import PacketForge.Route.Fib

/-!
What the FIB is for: a partial map from prefixes to routes with longest-prefix
lookup. A `RouteKey` is a prefix in the form in which routes are filed, with no
bit set beyond its length; as a path of bits it determines one node of the
trie. `FibRepresents` says that trie and pool together are such a map: every
route filed is at its node and fills the pool entry the node points to, and no
other node or pool entry is in use.
-/

namespace PacketForge

open Function

/-! ### Bits of addresses -/

theorem bitAt_eq (addr : UInt32) {d : Nat} (hd : d < 32) :
    bitAt addr d = addr.toBitVec.getMsbD d := by
  have hbits : (addr >>> UInt32.ofNat (31 - d) &&& 1).toBitVec =
      BitVec.setWidth 32 (BitVec.ofBool (addr.toBitVec.getMsbD d)) := by
    have hone : (1 : UInt32).toBitVec = 1#32 := rfl
    have hmod : (31 - d) % 32 = 31 - d := Nat.mod_eq_of_lt (by omega)
    rw [UInt32.toBitVec_and, UInt32.toBitVec_shiftRight, hone,
      BitVec.and_one_eq_setWidth_ofBool_getLsbD]
    simp [BitVec.getMsbD, hd, hmod]
  unfold bitAt
  rw [Bool.eq_iff_iff, beq_iff_eq, ← UInt32.toBitVec_inj, hbits]
  cases addr.toBitVec.getMsbD d <;> decide

theorem prefixMask_bit {plen : UInt8} (hp : plen ≤ 32) (d : Nat) :
    (prefixMask plen).toBitVec.getMsbD d = decide (d < plen.toNat) := by
  unfold prefixMask
  split
  · rename_i h
    subst h
    simp
  · rename_i h
    have hpos : plen.toNat ≠ 0 := fun h' => h (UInt8.toNat_inj.mp h')
    have hle : plen.toNat ≤ 32 := hp
    have hmod : (4294967296 - plen.toNat) % 32 = 32 - plen.toNat := by omega
    have hshift : (0xffffffff <<< (32 - plen.toUInt32) : UInt32).toBitVec =
        BitVec.allOnes 32 <<< (32 - plen.toNat) := by
      simp [UInt32.toBitVec_shiftLeft, hmod]
    rw [hshift, BitVec.getMsbD_shiftLeft, BitVec.getMsbD_allOnes, decide_eq_decide]
    omega

theorem masked_bit {plen : UInt8} (hp : plen ≤ 32) (addr : UInt32) {d : Nat} (hd : d < 32) :
    bitAt (addr &&& prefixMask plen) d = (bitAt addr d && decide (d < plen.toNat)) := by
  rw [bitAt_eq _ hd, bitAt_eq _ hd, UInt32.toBitVec_and, BitVec.getMsbD_and, prefixMask_bit hp d]

theorem eq_of_bitAt {x y : UInt32} (h : ∀ d, d < 32 → bitAt x d = bitAt y d) : x = y := by
  apply UInt32.toBitVec_inj.mp
  apply BitVec.eq_of_getMsbD_eq
  intro d hd
  rw [← bitAt_eq x hd, ← bitAt_eq y hd]
  exact h d hd

@[simp] theorem bitPath_length (addr : UInt32) (n : Nat) : (bitPath addr n).length = n := by
  simp [bitPath]

theorem bitPath_take (addr : UInt32) {n m : Nat} (h : n ≤ m) :
    (bitPath addr m).take n = bitPath addr n := by
  rw [bitPath, ← List.map_take, List.take_range, Nat.min_eq_left h, bitPath]

theorem bitPath_inj {x y : UInt32} {n : Nat} (h : bitPath x n = bitPath y n) {d : Nat}
    (hd : d < n) : bitAt x d = bitAt y d :=
  List.map_inj_left.mp h d (List.mem_range.mpr hd)

/-! ### Prefixes and routes -/

/-- A prefix with no bit set beyond its length. -/
structure RouteKey where
  addr : UInt32
  plen : UInt8
  le : plen ≤ 32
  masked : addr &&& prefixMask plen = addr
deriving DecidableEq

namespace RouteKey

def of (addr : UInt32) (plen : UInt8) (h : plen ≤ 32) : RouteKey where
  addr := addr &&& prefixMask plen
  plen := plen
  le := h
  masked := by rw [UInt32.and_assoc, UInt32.and_self]

/-- The prefix a call names, if its length is one. -/
def of? (addr : UInt32) (plen : UInt8) : Option RouteKey :=
  if h : plen ≤ 32 then some (of addr plen h) else none

/-- The node at which a prefix is filed. -/
def path (k : RouteKey) : List Bool := bitPath k.addr k.plen.toNat

/-- The prefix covers an address. -/
def Covers (k : RouteKey) (dst : UInt32) : Prop := dst &&& prefixMask k.plen = k.addr

theorem plen_le (k : RouteKey) : k.plen.toNat ≤ 32 := k.le

/-- A path leads to the node of at most one prefix. -/
theorem path_inj {k k' : RouteKey} (h : k.path = k'.path) : k = k' := by
  have hlen := congrArg List.length h
  simp only [path, bitPath_length] at hlen
  have hplen : k.plen = k'.plen := UInt8.toNat_inj.mp hlen
  have hpath : bitPath k.addr k.plen.toNat = bitPath k'.addr k.plen.toNat := by
    rw [hplen]
    simpa only [path, hplen] using h
  have haddr : k.addr = k'.addr := by
    apply eq_of_bitAt
    intro d hd
    rw [← k.masked, ← k'.masked, masked_bit k.le _ hd, masked_bit k'.le _ hd, ← hplen]
    by_cases hlt : d < k.plen.toNat
    · rw [bitPath_inj hpath hlt]
    · simp [hlt]
  cases k
  cases k'
  simp_all

/-- A prefix covers the addresses whose walk passes its node. -/
theorem covers_iff (k : RouteKey) (dst : UInt32) :
    k.Covers dst ↔ (bitPath dst 32).take k.plen.toNat = k.path := by
  rw [bitPath_take dst k.plen_le]
  constructor
  · intro h
    unfold path
    rw [← h]
    apply List.map_inj_left.mpr
    intro d hd
    have hlt := List.mem_range.mp hd
    have hle := k.plen_le
    rw [masked_bit k.le dst (by omega)]
    simp [hlt]
  · intro h
    unfold Covers
    apply eq_of_bitAt
    intro d hd
    rw [← k.masked, masked_bit k.le _ hd, masked_bit k.le _ hd]
    by_cases hlt : d < k.plen.toNat
    · rw [bitPath_inj h hlt]
    · simp [hlt]

end RouteKey

/-- What is filed under a prefix. -/
structure Route where
  nextHop : UInt32
  dev : DevIdx
  connected : Bool

def Route.entry (r : Route) (k : RouteKey) : FibEntry where
  inUse := true
  addr := k.addr
  plen := k.plen
  nextHop := r.nextHop
  dev := some r.dev
  connected := r.connected

theorem Route.entry_inj {r r' : Route} {k k' : RouteKey} (h : r.entry k = r'.entry k') :
    k = k' ∧ r = r' := by
  cases k
  cases k'
  cases r
  cases r'
  simp_all [Route.entry]

/-- A forwarding table: the routes filed, by prefix. -/
abbrev RouteMap := RouteKey → Option Route

/-- How many routes are filed. -/
noncomputable def RouteMap.size (m : RouteMap) : Nat := Nat.card {k // (m k).isSome = true}

/-- Trie and pool hold exactly the routes of the map. -/
structure FibRepresents (f : Fib) (m : RouteMap) : Prop where
  filed : ∀ k r, m k = some r → ∃ i, f.root.get k.path = some i ∧ f.pool i = r.entry k
  node : ∀ p i, f.root.get p = some i → ∃ k r, p = k.path ∧ m k = some r
  used : ∀ i, (f.pool i).inUse = true → ∃ k r, m k = some r ∧ f.root.get k.path = some i

namespace FibRepresents

variable {f : Fib} {m : RouteMap}

theorem init : FibRepresents Fib.init fun _ => none where
  filed := by simp
  node := by simp [Fib.init]
  used := by simp [Fib.init, FibEntry.zero]

theorem entry (h : FibRepresents f m) {k : RouteKey} {i : Fin fibMaxRoutes}
    (hget : f.root.get k.path = some i) : ∃ r, m k = some r ∧ f.pool i = r.entry k := by
  obtain ⟨k', r, hpath, hm⟩ := h.node _ _ hget
  obtain rfl := RouteKey.path_inj hpath
  obtain ⟨j, hj, hpool⟩ := h.filed _ _ hm
  rw [hget, Option.some.injEq] at hj
  exact ⟨r, hm, hj ▸ hpool⟩

theorem get_none (h : FibRepresents f m) {k : RouteKey} (hm : m k = none) :
    f.root.get k.path = none := by
  cases hget : f.root.get k.path with
  | none => rfl
  | some i =>
    obtain ⟨r, hr, -⟩ := h.entry hget
    rw [hm] at hr
    cases hr

/-- Two nodes do not share a pool entry. -/
theorem node_inj (h : FibRepresents f m) {k k' : RouteKey} {i : Fin fibMaxRoutes}
    (hk : f.root.get k.path = some i) (hk' : f.root.get k'.path = some i) : k = k' := by
  obtain ⟨r, -, hpool⟩ := h.entry hk
  obtain ⟨r', -, hpool'⟩ := h.entry hk'
  exact (Route.entry_inj (hpool.symm.trans hpool')).1

/-- The trie may be replaced by one with the same values. -/
theorem of_get (h : FibRepresents f m) {root : BitTrie (Fin fibMaxRoutes)}
    (hroot : ∀ p, root.get p = f.root.get p) : FibRepresents { f with root := root } m where
  filed k r hm := by
    obtain ⟨i, hi, hpool⟩ := h.filed k r hm
    exact ⟨i, (hroot _).trans hi, hpool⟩
  node p i hget := h.node p i ((hroot p).symm.trans hget)
  used i hi := by
    obtain ⟨k, r, hm, hget⟩ := h.used i hi
    exact ⟨k, r, hm, (hroot _).trans hget⟩

/-- File a route in a pool entry that is free, or that held the same prefix. -/
theorem insert (h : FibRepresents f m) {root : BitTrie (Fin fibMaxRoutes)} {k : RouteKey}
    {i : Fin fibMaxRoutes} (r : Route)
    (hroot : ∀ p, root.get p = if p = k.path then some i else f.root.get p)
    (hfree : (f.pool i).inUse = false ∧ m k = none ∨ f.root.get k.path = some i) :
    FibRepresents { root := root, pool := update f.pool i (r.entry k) }
      (update m k (some r)) := by
  -- a pool entry that another prefix uses is not the one that is written
  have hother (k' : RouteKey) (j : Fin fibMaxRoutes) (hk : k' ≠ k)
      (hget : f.root.get k'.path = some j) : j ≠ i := by
    rintro rfl
    obtain ⟨r', -, hpool⟩ := h.entry hget
    rcases hfree with ⟨hfree, -⟩ | hfree
    · rw [hpool] at hfree
      cases hfree
    · exact hk (h.node_inj hget hfree)
  have hpath (k' : RouteKey) (hk : k' ≠ k) : k'.path ≠ k.path := fun hp => hk (RouteKey.path_inj hp)
  refine ⟨?_, ?_, ?_⟩
  · intro k' r' hm
    by_cases hk : k' = k
    · subst hk
      rw [update_self, Option.some.injEq] at hm
      subst hm
      exact ⟨i, by simp [hroot], by simp⟩
    · rw [update_of_ne hk] at hm
      obtain ⟨j, hj, hpool⟩ := h.filed _ _ hm
      refine ⟨j, by simp [hroot, hpath k' hk, hj], ?_⟩
      simp only [update_of_ne (hother k' j hk hj), hpool]
  · intro p j hget
    simp only [hroot] at hget
    split at hget
    · rename_i hp
      exact ⟨k, r, hp, by simp⟩
    · rename_i hp
      obtain ⟨k', r', rfl, hm⟩ := h.node _ _ hget
      have hk : k' ≠ k := by
        rintro rfl
        exact hp rfl
      exact ⟨k', r', rfl, by rw [update_of_ne hk, hm]⟩
  · intro j hj
    by_cases hij : j = i
    · subst hij
      exact ⟨k, r, by simp, by simp [hroot]⟩
    · simp only [update_of_ne hij] at hj
      obtain ⟨k', r', hm, hget⟩ := h.used j hj
      have hk : k' ≠ k := by
        rintro rfl
        rcases hfree with ⟨-, hnew⟩ | hfree
        · rw [hm] at hnew
          cases hnew
        · rw [hget, Option.some.injEq] at hfree
          exact hij hfree
      exact ⟨k', r', by rw [update_of_ne hk, hm], by simp [hroot, hpath k' hk, hget]⟩

theorem remove (h : FibRepresents f m) {root : BitTrie (Fin fibMaxRoutes)} {k : RouteKey}
    {i : Fin fibMaxRoutes} {e : FibEntry}
    (hroot : ∀ p, root.get p = if p = k.path then none else f.root.get p)
    (hi : f.root.get k.path = some i) (he : e.inUse = false) :
    FibRepresents { root := root, pool := update f.pool i e } (update m k none) := by
  have hother (k' : RouteKey) (j : Fin fibMaxRoutes) (hk : k' ≠ k)
      (hget : f.root.get k'.path = some j) : j ≠ i := by
    rintro rfl
    exact hk (h.node_inj hget hi)
  have hpath (k' : RouteKey) (hk : k' ≠ k) : k'.path ≠ k.path := fun hp => hk (RouteKey.path_inj hp)
  refine ⟨?_, ?_, ?_⟩
  · intro k' r' hm
    by_cases hk : k' = k
    · subst hk
      simp at hm
    · rw [update_of_ne hk] at hm
      obtain ⟨j, hj, hpool⟩ := h.filed _ _ hm
      refine ⟨j, by simp [hroot, hpath k' hk, hj], ?_⟩
      simp only [update_of_ne (hother k' j hk hj), hpool]
  · intro p j hget
    simp only [hroot] at hget
    split at hget
    · cases hget
    · rename_i hp
      obtain ⟨k', r', rfl, hm⟩ := h.node _ _ hget
      have hk : k' ≠ k := by
        rintro rfl
        exact hp rfl
      exact ⟨k', r', rfl, by rw [update_of_ne hk, hm]⟩
  · intro j hj
    by_cases hij : j = i
    · subst hij
      simp [he] at hj
    · simp only [update_of_ne hij] at hj
      obtain ⟨k', r', hm, hget⟩ := h.used j hj
      have hk : k' ≠ k := by
        rintro rfl
        rw [hi, Option.some.injEq] at hget
        exact hij hget.symm
      exact ⟨k', r', by rw [update_of_ne hk, hm], by simp [hroot, hpath k' hk, hget]⟩

/-! ### Counting -/

/-- The nodes with an entry and the pool entries in use correspond. -/
theorem nodes_equiv (h : FibRepresents f m) :
    ∃ e : {p // (f.root.get p).isSome = true} ≃ {i // (f.pool i).inUse = true},
      ∀ p, f.root.get p.1 = some (e p).1 := by
  have hused (p : List Bool) (i : Fin fibMaxRoutes) (hp : f.root.get p = some i) :
      (f.pool i).inUse = true := by
    obtain ⟨k, r, rfl, -⟩ := h.node p i hp
    obtain ⟨r', -, hpool⟩ := h.entry hp
    rw [hpool]
    rfl
  let g : {p // (f.root.get p).isSome = true} → {i // (f.pool i).inUse = true} := fun p =>
    ⟨(f.root.get p.1).get p.2, hused p.1 _ (Option.some_get p.2).symm⟩
  have hg (p : {p // (f.root.get p).isSome = true}) : f.root.get p.1 = some (g p).1 :=
    (Option.some_get p.2).symm
  have hinj : Function.Injective g := by
    intro p q hpq
    obtain ⟨k, r, hp, -⟩ := h.node p.1 _ (hg p)
    obtain ⟨k', r', hq, -⟩ := h.node q.1 _ (hg q)
    have hk : k = k' := by
      apply h.node_inj (i := (g p).1)
      · rw [← hp, hg p]
      · rw [← hq, hg q, hpq]
    exact Subtype.ext (by rw [hp, hq, hk])
  have hsurj : Function.Surjective g := by
    intro i
    obtain ⟨k, r, -, hget⟩ := h.used i.1 i.2
    refine ⟨⟨k.path, by rw [hget]; rfl⟩, Subtype.ext ?_⟩
    have hsome := hg ⟨k.path, by rw [hget]; rfl⟩
    exact Option.some.inj (hsome.symm.trans hget)
  exact ⟨Equiv.ofBijective g ⟨hinj, hsurj⟩, hg⟩

theorem size_eq (h : FibRepresents f m) :
    RouteMap.size m = Nat.card {i // (f.pool i).inUse = true} := by
  obtain ⟨e, -⟩ := h.nodes_equiv
  have hkey (k : RouteKey) : (m k).isSome = true ↔ (f.root.get k.path).isSome = true := by
    constructor
    · intro hk
      obtain ⟨r, hr⟩ := Option.isSome_iff_exists.mp hk
      obtain ⟨i, hi, -⟩ := h.filed k r hr
      rw [hi]
      rfl
    · intro hk
      obtain ⟨i, hi⟩ := Option.isSome_iff_exists.mp hk
      obtain ⟨r, hr, -⟩ := h.entry hi
      rw [hr]
      rfl
  let g : {k // (m k).isSome = true} → {p // (f.root.get p).isSome = true} := fun k =>
    ⟨k.1.path, (hkey k.1).mp k.2⟩
  have hinj : Function.Injective g := by
    intro k k' hk
    exact Subtype.ext (RouteKey.path_inj (congrArg Subtype.val hk))
  have hsurj : Function.Surjective g := by
    intro p
    obtain ⟨i, hi⟩ := Option.isSome_iff_exists.mp p.2
    obtain ⟨k, r, hp, hm⟩ := h.node p.1 i hi
    exact ⟨⟨k, by rw [hm]; rfl⟩, Subtype.ext hp.symm⟩
  exact Nat.card_congr ((Equiv.ofBijective g ⟨hinj, hsurj⟩).trans e)

/-- The pool runs out when as many routes are filed as it has entries. -/
theorem poolAlloc_none (h : FibRepresents f m) :
    poolAlloc f = none ↔ RouteMap.size m = fibMaxRoutes := by
  rw [h.size_eq]
  constructor
  · intro hnone
    have hall (i : Fin fibMaxRoutes) : (f.pool i).inUse = true := by
      simpa using Slots.first_none hnone i
    rw [Nat.card_congr (Equiv.subtypeUnivEquiv hall), Nat.card_eq_fintype_card, Fintype.card_fin]
  · intro hcard
    cases hsome : poolAlloc f with
    | none => rfl
    | some i =>
      have hfree : (f.pool i).inUse = false := by simpa using Slots.first_some hsome
      have hlt : Fintype.card {i // (f.pool i).inUse = true} < Fintype.card (Fin fibMaxRoutes) :=
        Fintype.card_subtype_lt (x := i) (by simp [hfree])
      rw [Nat.card_eq_fintype_card] at hcard
      rw [hcard, Fintype.card_fin] at hlt
      exact absurd hlt (Nat.lt_irrefl _)

/-! ### Lookup -/

/-- The longest match is the route of the longest prefix that covers the
destination. -/
theorem lookup (h : FibRepresents f m) (dst : UInt32) :
    (∃ i k r, fibLookup f dst = some i ∧ m k = some r ∧ f.pool i = r.entry k ∧ k.Covers dst ∧
      ∀ k' r', m k' = some r' → k'.Covers dst → k'.plen ≤ k.plen) ∨
    fibLookup f dst = none ∧ ∀ k r, m k = some r → ¬ k.Covers dst := by
  -- a filed prefix that covers the destination is met on the walk
  have hmet (k : RouteKey) (r : Route) (hm : m k = some r) (hc : k.Covers dst) :
      f.root.get ((bitPath dst 32).take k.plen.toNat) ≠ none := by
    obtain ⟨i, hi, -⟩ := h.filed k r hm
    rw [(k.covers_iff dst).mp hc, hi]
    simp
  rcases f.root.longest_spec (bitPath dst 32) none with ⟨n, i, hmatch, hl⟩ | ⟨hnone, hl⟩
  · left
    obtain ⟨k, r, hpath, hm⟩ := h.node _ _ hmatch.value
    have hle := hmatch.le
    rw [bitPath_length] at hle
    have hn : n = k.plen.toNat := by
      have hlen := congrArg List.length hpath
      rw [List.length_take, bitPath_length, RouteKey.path, bitPath_length] at hlen
      omega
    have hget : f.root.get k.path = some i := hpath ▸ hmatch.value
    obtain ⟨r', hr', hpool⟩ := h.entry hget
    refine ⟨i, k, r', hl, hr', hpool, (k.covers_iff dst).mpr (hn ▸ hpath), ?_⟩
    intro k' r'' hm' hc'
    by_contra hlt
    have hlt' : n < k'.plen.toNat := by
      rw [hn]
      exact Nat.lt_of_not_le hlt
    have hk' := k'.plen_le
    refine hmet k' r'' hm' hc' (hmatch.last _ hlt' ?_)
    rw [bitPath_length]
    exact hk'
  · right
    refine ⟨hl, ?_⟩
    intro k r hm hc
    have hk := k.plen_le
    refine hmet k r hm hc (hnone _ ?_)
    rw [bitPath_length]
    exact hk

end FibRepresents

/-! ### The calls -/

/-- `fib_add` as an operation on the map: it is refused for a bad length or
device, and for want of room when the prefix is new; otherwise the route is
filed. -/
theorem fibAdd_cases {f : Fib} {m : RouteMap} (h : FibRepresents f m) (addr : UInt32) (plen : UInt8)
    (nextHop : UInt32) (dev : Option DevIdx) (connected : Bool) :
    (fibAdd f addr plen nextHop dev connected).2 = -1 ∧
      FibRepresents (fibAdd f addr plen nextHop dev connected).1 m ∧
      (plen > 32 ∨ dev = none ∨
        ∃ k, RouteKey.of? addr plen = some k ∧ m k = none ∧ RouteMap.size m = fibMaxRoutes) ∨
    (fibAdd f addr plen nextHop dev connected).2 = 0 ∧
      ∃ k d, RouteKey.of? addr plen = some k ∧ dev = some d ∧
        (m k = none → RouteMap.size m ≠ fibMaxRoutes) ∧
        FibRepresents (fibAdd f addr plen nextHop dev connected).1
          (update m k (some ⟨nextHop, d, connected⟩)) := by
  unfold fibAdd
  split
  · rename_i hbad
    rcases hbad with hbad | hbad
    · exact Or.inl ⟨rfl, h, Or.inl hbad⟩
    · exact Or.inl ⟨rfl, h, Or.inr (Or.inl hbad)⟩
  rename_i hgood
  simp only [not_or] at hgood
  obtain ⟨hplen, hdev⟩ := hgood
  obtain ⟨d, rfl⟩ := Option.ne_none_iff_exists'.mp hdev
  have hle : plen ≤ 32 := UInt8.not_lt.mp hplen
  have hof : RouteKey.of? addr plen = some (RouteKey.of addr plen hle) := by
    simp [RouteKey.of?, hle]
  let k := RouteKey.of addr plen hle
  have hpath : bitPath (addr &&& prefixMask plen) plen.toNat = k.path := rfl
  have hentry : (⟨true, addr &&& prefixMask plen, plen, nextHop, some d, connected⟩ : FibEntry) =
      Route.entry ⟨nextHop, d, connected⟩ k := rfl
  simp only [hpath, hentry, BitTrie.get_create]
  split
  · rename_i i hget
    right
    refine ⟨rfl, k, d, hof, rfl, ?_, ?_⟩
    · intro hnone
      rw [h.get_none hnone] at hget
      cases hget
    · apply h.insert _ _ (Or.inr hget)
      intro p
      rw [BitTrie.get_create]
      split
      · rename_i hp
        rw [hp, hget]
      · rfl
  · rename_i hget
    have hnew : m k = none := by
      cases hm : m k with
      | none => rfl
      | some r =>
        obtain ⟨i, hi, -⟩ := h.filed k r hm
        rw [hget] at hi
        cases hi
    split
    · rename_i hpool
      exact Or.inl ⟨rfl, h.of_get (BitTrie.get_create _ _),
        Or.inr (Or.inr ⟨k, hof, hnew, h.poolAlloc_none.mp hpool⟩)⟩
    · rename_i i hpool
      right
      refine ⟨rfl, k, d, hof, rfl, ?_, ?_⟩
      · intro _ hsize
        rw [h.poolAlloc_none.mpr hsize] at hpool
        cases hpool
      · have hfree : (f.pool i).inUse = false := by simpa using Slots.first_some hpool
        exact h.insert _ (BitTrie.get_set_create _ _ _) (Or.inl ⟨hfree, hnew⟩)

/-- `fib_del` as an operation on the map. -/
theorem fibDel_cases {f : Fib} {m : RouteMap} (h : FibRepresents f m) (addr : UInt32)
    (plen : UInt8) : (fibDel f addr plen).2 = -1 ∧ FibRepresents (fibDel f addr plen).1 m ∧
      (∀ k, RouteKey.of? addr plen = some k → m k = none) ∨
    (fibDel f addr plen).2 = 0 ∧
      ∃ k r, RouteKey.of? addr plen = some k ∧ m k = some r ∧
        FibRepresents (fibDel f addr plen).1 (update m k none) := by
  unfold fibDel
  split
  · rename_i hplen
    left
    refine ⟨rfl, h, ?_⟩
    intro k hk
    simp [RouteKey.of?, UInt8.not_le.mpr hplen] at hk
  rename_i hplen
  have hle : plen ≤ 32 := UInt8.not_lt.mp hplen
  have hof : RouteKey.of? addr plen = some (RouteKey.of addr plen hle) := by
    simp [RouteKey.of?, hle]
  let k := RouteKey.of addr plen hle
  have hpath : bitPath (addr &&& prefixMask plen) plen.toNat = k.path := rfl
  simp only [hpath]
  split
  · rename_i hget
    left
    have hsame (p : List Bool) : (f.root.erase false k.path).get p = f.root.get p := by
      rw [BitTrie.get_erase]
      split
      · rename_i hp
        rw [hp, hget]
      · rfl
    refine ⟨rfl, h.of_get hsame, ?_⟩
    intro k' hk'
    rw [hof, Option.some.injEq] at hk'
    cases hm : m k' with
    | none => rfl
    | some r =>
      obtain ⟨i, hi, -⟩ := h.filed k' r hm
      rw [← hk', hget] at hi
      cases hi
  · rename_i i hget
    right
    obtain ⟨r, hr, -⟩ := h.entry hget
    exact ⟨rfl, k, r, hof, hr, h.remove (BitTrie.get_erase _ _ _) hget rfl⟩

/-! ### Runs -/

inductive FibOp where
  | add (addr : UInt32) (plen : UInt8) (nextHop : UInt32) (dev : Option DevIdx) (connected : Bool)
  | del (addr : UInt32) (plen : UInt8)

/-- A FIB with the routes of the adds that succeeded and were not deleted or
replaced since. -/
structure FibHist where
  fib : Fib
  routes : RouteMap

namespace FibHist

def init : FibHist where
  fib := Fib.init
  routes := fun _ => none

/-- One call, and what its return value says about the map. -/
def step (s : FibHist) : FibOp → FibHist
  | .add addr plen nextHop dev connected =>
    let r := fibAdd s.fib addr plen nextHop dev connected
    match r.2, RouteKey.of? addr plen, dev with
    | 0, some k, some d => ⟨r.1, update s.routes k (some ⟨nextHop, d, connected⟩)⟩
    | _, _, _ => ⟨r.1, s.routes⟩
  | .del addr plen =>
    let r := fibDel s.fib addr plen
    match r.2, RouteKey.of? addr plen with
    | 0, some k => ⟨r.1, update s.routes k none⟩
    | _, _ => ⟨r.1, s.routes⟩

abbrev Reach : FibHist → Prop := Run.Reach (· = init) (fun _ _ => True) step

theorem step_represents {s : FibHist} (h : FibRepresents s.fib s.routes) (op : FibOp) :
    FibRepresents (s.step op).fib (s.step op).routes := by
  cases op with
  | add addr plen nextHop dev connected =>
    rcases fibAdd_cases h addr plen nextHop dev connected with
      ⟨hrc, hrep, -⟩ | ⟨hrc, k, d, hof, rfl, -, hrep⟩
    · simpa only [step, hrc] using hrep
    · simpa only [step, hrc, hof] using hrep
  | del addr plen =>
    rcases fibDel_cases h addr plen with ⟨hrc, hrep, -⟩ | ⟨hrc, k, r, hof, -, hrep⟩
    · simpa only [step, hrc] using hrep
    · simpa only [step, hrc, hof] using hrep

theorem Reach.represents {s : FibHist} (h : Reach s) : FibRepresents s.fib s.routes := by
  refine Run.Reach.invariant (fun s => FibRepresents s.fib s.routes) ?_ ?_ h
  · rintro s rfl
    exact FibRepresents.init
  · intro s op _ hs
    exact step_represents hs op

end FibHist

/-- Every sequence of adds and deletes leaves trie and pool representing the
map of its successful calls, with the nodes that carry an entry in bijection
with the pool entries in use. The return values say what the calls did to the
map, and a lookup finds the longest filed prefix that covers the address. -/
theorem fib_refines_map (s : FibHist) (h : s.Reach) :
    FibRepresents s.fib s.routes ∧
    (∃ e : {p // (s.fib.root.get p).isSome = true} ≃ {i // (s.fib.pool i).inUse = true},
      ∀ p, s.fib.root.get p.1 = some (e p).1) ∧
    (∀ addr plen nextHop dev connected,
      (fibAdd s.fib addr plen nextHop dev connected).2 = -1 ↔
        plen > 32 ∨ dev = none ∨
          ∃ k, RouteKey.of? addr plen = some k ∧ s.routes k = none ∧
            RouteMap.size s.routes = fibMaxRoutes) ∧
    (∀ addr plen, (fibDel s.fib addr plen).2 = 0 ↔
      ∃ k r, RouteKey.of? addr plen = some k ∧ s.routes k = some r) ∧
    ∀ dst,
      (∃ i k r, fibLookup s.fib dst = some i ∧ s.routes k = some r ∧ s.fib.pool i = r.entry k ∧
        k.Covers dst ∧ ∀ k' r', s.routes k' = some r' → k'.Covers dst → k'.plen ≤ k.plen) ∨
      fibLookup s.fib dst = none ∧ ∀ k r, s.routes k = some r → ¬ k.Covers dst := by
  have hrep := h.represents
  refine ⟨hrep, hrep.nodes_equiv, ?_, ?_, hrep.lookup⟩
  · intro addr plen nextHop dev connected
    rcases fibAdd_cases hrep addr plen nextHop dev connected with
      ⟨hrc, -, hwhy⟩ | ⟨hrc, k, d, hof, rfl, hroom, -⟩
    · exact iff_of_true hrc hwhy
    · refine iff_of_false (by rw [hrc]; decide) ?_
      rintro (hplen | hdev | ⟨k', hof', hnew, hfull⟩)
      · simp [RouteKey.of?, UInt8.not_le.mpr hplen] at hof
      · cases hdev
      · rw [hof, Option.some.injEq] at hof'
        subst hof'
        exact hroom hnew hfull
  · intro addr plen
    rcases fibDel_cases hrep addr plen with ⟨hrc, -, hnone⟩ | ⟨hrc, k, r, hof, hr, -⟩
    · refine iff_of_false (by rw [hrc]; decide) ?_
      rintro ⟨k, r, hof, hr⟩
      rw [hnone k hof] at hr
      cases hr
    · exact iff_of_true hrc ⟨k, r, hof, hr⟩

/-- A default route and a more specific one. -/
def twoRoutes : FibHist :=
  (FibHist.init.step (.add 0 0 1 (some 0) false)).step (.add 0x0a000000 8 2 (some 1) true)

theorem fib_refines_map_two_routes :
    twoRoutes.Reach ∧ FibRepresents twoRoutes.fib twoRoutes.routes ∧
      fibLookup twoRoutes.fib 0x0a010203 = some 1 ∧ fibLookup twoRoutes.fib 0x0b000000 = some 0 ∧
      (fibDel twoRoutes.fib 0x0a000000 8).2 = 0 ∧ (fibDel twoRoutes.fib 0x0b000000 8).2 = -1 := by
  have hinit : FibHist.init.Reach := .start rfl
  have hone := hinit.next (.add 0 0 1 (some 0) false) trivial
  have hreach : twoRoutes.Reach := hone.next (.add 0x0a000000 8 2 (some 1) true) trivial
  exact ⟨hreach, (fib_refines_map twoRoutes hreach).1, by decide, by decide, by decide, by decide⟩

end PacketForge
