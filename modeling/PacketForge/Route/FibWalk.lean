import Mathlib.Data.Nat.Bitwise
import PacketForge.Route.FibRefine

/-!
The order of a walk. The nodes are visited in the lexicographic order of their
paths, where a path comes before its extensions. The bits of a prefix beyond its
length are zero, so this is the order of the prefixes as numbers, and of their
lengths where the numbers agree.
-/

namespace PacketForge

/-- By the prefix as a number, then by its length. -/
def FibEntry.Before (e e' : FibEntry) : Prop :=
  e.addr < e'.addr ∨ e.addr = e'.addr ∧ e.plen < e'.plen

/-! ### Bits and numbers -/

theorem bitAt_testBit (addr : UInt32) {d : Nat} (hd : d < 32) :
    bitAt addr d = addr.toNat.testBit (31 - d) := by
  rw [bitAt_eq addr hd, BitVec.getMsbD]
  have hwidth : 32 - 1 - d = 31 - d := rfl
  simp only [hd, decide_true, Bool.true_and, hwidth]
  rfl

/-- The first bit in which two addresses differ decides. -/
theorem lt_of_bitAt {x y : UInt32} {d : Nat} (hd : d < 32)
    (hsame : ∀ e, e < d → bitAt x e = bitAt y e) (hx : bitAt x d = false) (hy : bitAt y d = true) :
    x < y := by
  rw [bitAt_testBit x hd] at hx
  rw [bitAt_testBit y hd] at hy
  rw [UInt32.lt_iff_toNat_lt]
  refine Nat.lt_of_testBit (31 - d) hx hy ?_
  intro j hj
  rcases Nat.lt_or_ge j 32 with hlt | hge
  · have hbit := hsame (31 - j) (by omega)
    rw [bitAt_testBit x (by omega), bitAt_testBit y (by omega)] at hbit
    rwa [show 31 - (31 - j) = j by omega] at hbit
  · have hhigh (z : UInt32) : z.toNat.testBit j = false :=
      Nat.testBit_lt_two_pow (Nat.lt_of_lt_of_le z.toNat_lt (Nat.pow_le_pow_right (by decide) hge))
    rw [hhigh x, hhigh y]

theorem bitPath_getElem? (addr : UInt32) {n d : Nat} (hd : d < n) :
    (bitPath addr n)[d]? = some (bitAt addr d) := by
  rw [bitPath, List.getElem?_map, List.getElem?_range hd, Option.map_some]

/-- One path continues the other, or they part at a bit. -/
theorem lex_cases {p q : List Bool} (h : List.Lex (· < ·) p q) :
    p.length < q.length ∧ p = q.take p.length ∨
      ∃ d, p.take d = q.take d ∧ p[d]? = some false ∧ q[d]? = some true := by
  induction h with
  | nil => exact Or.inl ⟨Nat.succ_pos _, rfl⟩
  | rel hlt =>
    right
    refine ⟨0, rfl, ?_⟩
    obtain ⟨ha, hb⟩ := Bool.lt_iff.mp hlt
    subst ha
    subst hb
    exact ⟨rfl, rfl⟩
  | cons _ ih =>
    rcases ih with ⟨hlen, hpre⟩ | ⟨d, htake, hp, hq⟩
    · left
      refine ⟨Nat.succ_lt_succ hlen, ?_⟩
      rw [List.length_cons, List.take_succ_cons, ← hpre]
    · right
      refine ⟨d + 1, ?_, ?_, ?_⟩
      · rw [List.take_succ_cons, List.take_succ_cons, htake]
      · rw [List.getElem?_cons_succ, hp]
      · rw [List.getElem?_cons_succ, hq]

/-- A prefix of an address is not above it. -/
theorem RouteKey.Covers.le {k : RouteKey} {dst : UInt32} (h : k.Covers dst) : k.addr ≤ dst := by
  rw [← h, UInt32.le_iff_toNat_le, UInt32.toNat_and]
  exact Nat.and_le_left

/-- Paths in order lead to prefixes in order. -/
theorem RouteKey.before_of_path {k k' : RouteKey} (h : List.Lex (· < ·) k.path k'.path) :
    k.addr < k'.addr ∨ k.addr = k'.addr ∧ k.plen < k'.plen := by
  have hlen (x : RouteKey) : x.path.length = x.plen.toNat := bitPath_length _ _
  rcases lex_cases h with ⟨hshort, hpre⟩ | ⟨d, htake, hp, hq⟩
  · rw [hlen, hlen] at hshort
    have hcovers : k.Covers k'.addr := by
      rw [k.covers_iff, bitPath_take _ k.plen_le, hpre, hlen]
      exact (bitPath_take _ hshort.le).symm
    rcases Nat.lt_or_eq_of_le (UInt32.le_iff_toNat_le.mp hcovers.le) with hlt | heq
    · exact Or.inl (UInt32.lt_iff_toNat_lt.mpr hlt)
    · exact Or.inr ⟨UInt32.toNat_inj.mp heq, UInt8.lt_iff_toNat_lt.mpr hshort⟩
  · left
    have hd : d < k.plen.toNat := by
      rw [← hlen k]
      exact (List.getElem?_eq_some_iff.mp hp).1
    have hd' : d < k'.plen.toNat := by
      rw [← hlen k']
      exact (List.getElem?_eq_some_iff.mp hq).1
    have hle := k.plen_le
    rw [path, path, bitPath_take _ hd.le, bitPath_take _ hd'.le] at htake
    rw [path, bitPath_getElem? _ hd, Option.some.injEq] at hp
    rw [path, bitPath_getElem? _ hd', Option.some.injEq] at hq
    exact lt_of_bitAt (by omega) (fun e he => bitPath_inj htake he) hp hq

/-! ### The walk -/

/-- A walk calls its callback with the routes filed, each of them once, in increasing order of
prefix and length. -/
theorem fib_walk_exact (s : FibHist) (h : s.Reach) :
    ∃ calls : List FibEntry,
      (∀ (σ : Type*) (cb : σ → FibEntry → σ) (arg : σ), fibWalk s.fib cb arg = calls.foldl cb arg) ∧
      (∀ e, e ∈ calls ↔ ∃ k r, s.routes k = some r ∧ e = r.entry k) ∧
      calls.Pairwise FibEntry.Before := by
  have hrep := h.represents
  -- what stands at a node of the trie
  have hentry (x : List Bool × Fin fibMaxRoutes) (hx : x ∈ s.fib.root.entries) :
      ∃ k r, x.1 = k.path ∧ s.routes k = some r ∧ s.fib.pool x.2 = r.entry k := by
    have hget : s.fib.root.get x.1 = some x.2 := BitTrie.mem_entries.mp hx
    obtain ⟨k, r, hpath, -⟩ := hrep.node _ _ hget
    rw [hpath] at hget
    obtain ⟨r', hr', hpool⟩ := hrep.entry hget
    exact ⟨k, r', hpath, hr', hpool⟩
  refine ⟨s.fib.root.entries.map fun x => s.fib.pool x.2, ?_, ?_, ?_⟩
  · intro σ cb arg
    rw [fibWalk, BitTrie.walk_eq, List.foldl_map, List.foldl_map]
  · intro e
    rw [List.mem_map]
    constructor
    · rintro ⟨x, hx, rfl⟩
      obtain ⟨k, r, -, hr, hpool⟩ := hentry x hx
      exact ⟨k, r, hr, hpool⟩
    · rintro ⟨k, r, hr, rfl⟩
      obtain ⟨i, hi, hpool⟩ := hrep.filed k r hr
      exact ⟨(k.path, i), BitTrie.mem_entries.mpr hi, hpool⟩
  · rw [List.pairwise_map]
    refine s.fib.root.entries_sorted.imp_of_mem ?_
    intro x y hx hy hlex
    obtain ⟨k, r, hpath, -, hpool⟩ := hentry x hx
    obtain ⟨k', r', hpath', -, hpool'⟩ := hentry y hy
    rw [hpath, hpath'] at hlex
    rw [hpool, hpool']
    exact RouteKey.before_of_path hlex

/-- The default route is called before the more specific one. -/
theorem fib_walk_exact_two_routes :
    twoRoutes.Reach ∧
      (∃ calls : List FibEntry,
        (∀ (cb : Nat → FibEntry → Nat) (arg : Nat),
          fibWalk twoRoutes.fib cb arg = calls.foldl cb arg) ∧
        (∀ e, e ∈ calls ↔ ∃ k r, twoRoutes.routes k = some r ∧ e = r.entry k) ∧
        calls.Pairwise FibEntry.Before) ∧
      fibWalk twoRoutes.fib (fun l e => l ++ [(e.addr, e.plen)]) [] =
        [(0, 0), (0x0a000000, 8)] := by
  have hinit : FibHist.init.Reach := .start rfl
  have hone := hinit.next (.add 0 0 1 (some 0) false) trivial
  have hreach : twoRoutes.Reach := hone.next (.add 0x0a000000 8 2 (some 1) true) trivial
  obtain ⟨calls, hwalk, hmem, hsorted⟩ := fib_walk_exact twoRoutes hreach
  exact ⟨hreach, ⟨calls, hwalk Nat, hmem, hsorted⟩, by decide⟩

end PacketForge
