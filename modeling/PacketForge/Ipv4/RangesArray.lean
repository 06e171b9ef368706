import PacketForge.Core.Pkt
import PacketForge.Ipv4.Collect
import PacketForge.Lib.Checked
import PacketForge.Lib.FixedArray

/-!
`ranges_insert` as the source runs it: on an array of 32 ranges, with loops over
indices and two `memmove`s. Every access stays inside the array, and the loops
compute the insertion and the joining of neighbours of `rangesInsert`.
-/

namespace PacketForge

open Checked FixedArray Intervals

structure ByteRange where
  start : UInt16
  stop : UInt16

def ByteRange.pair (r : ByteRange) : Nat × Nat := (r.start.toNat, r.stop.toNat)

structure RangeArray where
  ranges : Fin ipReassMaxRanges → ByteRange
  nranges : Nat

def RangeArray.live (c : RangeArray) : List (Nat × Nat) :=
  ((List.ofFn c.ranges).take c.nranges).map ByteRange.pair

/-! ### The loops of the source -/

/-- The scan for the place of a range, with the rounds still to come and the index; `none` where
the range meets one that is stored. -/
def rangesScan (c : RangeArray) (x : ByteRange) : Nat → Nat → Except Fault (Option Nat)
  | 0, _ => .ok (some c.nranges)
  | rounds + 1, i => do
    let r ← FixedArray.get .read c.ranges i
    if x.start < r.stop ∧ r.start < x.stop then return none
    else if x.stop ≤ r.start then return some i
    else rangesScan c x rounds (i + 1)

/-- The coalescing loop, which runs down to index 0. -/
def rangesCoalesce : Nat → RangeArray → Except Fault RangeArray
  | 0, c => .ok c
  | i + 1, c => do
    let r ← FixedArray.get .read c.ranges i
    let s ← FixedArray.get .read c.ranges (i + 1)
    if r.stop = s.start then
      let ranges ← FixedArray.set .write c.ranges i { r with stop := s.stop }
      let ranges ← FixedArray.move .write ranges (i + 1) (i + 2) ((c.nranges : Int) - i - 2)
      rangesCoalesce i ⟨ranges, c.nranges - 1⟩
    else rangesCoalesce i c

/-- `ranges_insert`: what it returns, and the array. -/
def rangesInsertArray (c : RangeArray) (x : ByteRange) : Except Fault (Bool × RangeArray) := do
  match ← rangesScan c x c.nranges 0 with
  | none => return (false, c)
  | some pos =>
    if c.nranges ≥ ipReassMaxRanges then return (false, c)
    else
      let ranges ← FixedArray.move .write c.ranges (pos + 1) pos ((c.nranges : Int) - pos)
      let ranges ← FixedArray.set .write ranges pos x
      let c ← rangesCoalesce c.nranges ⟨ranges, c.nranges + 1⟩
      return (true, c)

/-! ### What the loops compute -/

structure RangeArray.Stores (c : RangeArray) (l : List ByteRange) : Prop where
  starts : Starts c.ranges l
  count : c.nranges = l.length

theorem RangeArray.Stores.live {c : RangeArray} {l : List ByteRange} (h : c.Stores l) :
    c.live = l.map ByteRange.pair := by
  rw [RangeArray.live, h.count, h.starts.eq_take]

theorem RangeArray.exists_stores {c : RangeArray} (h : c.nranges ≤ ipReassMaxRanges) :
    ∃ l, c.Stores l := by
  refine ⟨(List.ofFn c.ranges).take c.nranges, starts_take c.ranges c.nranges, ?_⟩
  rw [List.length_take, List.length_ofFn]
  omega

/-- The scan finds the place at which `insertApart` puts the range. -/
theorem rangesScan_eq {c : RangeArray} {l m : List ByteRange} (x : ByteRange)
    (h : c.Stores (l ++ m)) :
    (rangesScan c x m.length l.length = .ok none ∧
      insertApart x.pair (m.map ByteRange.pair) = none) ∨
    ∃ m₁ m₂, m = m₁ ++ m₂ ∧
      rangesScan c x m.length l.length = .ok (some (l.length + m₁.length)) ∧
      insertApart x.pair (m.map ByteRange.pair) =
        some (m₁.map ByteRange.pair ++ x.pair :: m₂.map ByteRange.pair) := by
  induction m generalizing l with
  | nil =>
    refine Or.inr ⟨[], [], rfl, ?_, rfl⟩
    rw [List.append_nil] at h
    change Except.ok (some c.nranges) = _
    rw [h.count]
    rfl
  | cons r m ih =>
    have hget : FixedArray.get Fault.read c.ranges l.length = .ok r := h.starts.get
    -- the tests are those of the list
    have hmeet : (x.start < r.stop ∧ r.start < x.stop) ↔
        (x.pair.1 < r.pair.2 ∧ r.pair.1 < x.pair.2) := Iff.rfl
    have hbefore : x.stop ≤ r.start ↔ x.pair.2 ≤ r.pair.1 := Iff.rfl
    rw [List.length_cons, rangesScan, hget, ok_bind, List.map_cons, insertApart]
    simp only [← hmeet, ← hbefore]
    split
    · exact Or.inl ⟨rfl, rfl⟩
    split
    · exact Or.inr ⟨[], r :: m, rfl, rfl, rfl⟩
    · have hnext : c.Stores ((l ++ [r]) ++ m) := by
        rw [List.append_assoc]
        exact h
      have hlen : (l ++ [r]).length = l.length + 1 := List.length_append
      have hrec := ih hnext
      rw [hlen] at hrec
      rcases hrec with ⟨hscan, hins⟩ | ⟨m₁, m₂, rfl, hscan, hins⟩
      · refine Or.inl ⟨hscan, ?_⟩
        rw [hins]
        rfl
      · refine Or.inr ⟨r :: m₁, m₂, rfl, ?_, ?_⟩
        · rw [hscan, List.length_cons, Nat.add_assoc, Nat.add_comm 1]
        · rw [hins]
          rfl

/-- From an index down: what stands behind the index is joined already. -/
theorem rangesCoalesce_eq (l : List ByteRange) {m : List (Nat × Nat)} {s : ByteRange}
    {t : List ByteRange} {c : RangeArray} (h : c.Stores (l ++ s :: t))
    (hm : (s :: t).map ByteRange.pair = coalesce m) :
    ∃ c' k, rangesCoalesce l.length c = .ok c' ∧ c'.Stores k ∧
      k.map ByteRange.pair = coalesce (l.map ByteRange.pair ++ m) := by
  induction l using List.reverseRecOn generalizing m s t c with
  | nil => exact ⟨c, s :: t, rfl, h, hm⟩
  | append_singleton l r ih =>
    have hstart : Starts c.ranges (l ++ r :: s :: t) := by
      have hs := h.starts
      rw [List.append_assoc] at hs
      exact hs
    have hr : FixedArray.get Fault.read c.ranges l.length = .ok r := hstart.get
    have hlen : (l ++ [r]).length = l.length + 1 := List.length_append
    have hs : FixedArray.get Fault.read c.ranges (l.length + 1) = .ok s := by
      rw [← hlen]
      exact h.starts.get
    have hcount : c.nranges = l.length + 1 + (t.length + 1) := by
      rw [h.count, List.length_append, hlen, List.length_cons]
    have htouch : r.stop = s.start ↔ r.pair.2 = s.pair.1 := UInt16.toNat_inj.symm
    have hjoin : coalesce (r.pair :: m) =
        if r.stop = s.start then (r.pair.1, s.pair.2) :: t.map ByteRange.pair
        else r.pair :: s.pair :: t.map ByteRange.pair := by
      rw [coalesce, ← hm, List.map_cons]
      simp only [htouch]
    have hassoc : (l ++ [r]).map ByteRange.pair ++ m = l.map ByteRange.pair ++ r.pair :: m := by
      rw [List.map_append, List.append_assoc]
      rfl
    rw [hlen, rangesCoalesce, hr, ok_bind, hs, ok_bind, hassoc]
    split
    · rename_i heq
      obtain ⟨a, hset, ha⟩ := hstart.set (e := Fault.write) (x := { r with stop := s.stop })
      have hsplit : Starts a ((l ++ [{ r with stop := s.stop }]) ++ s :: t) := by
        rw [List.append_assoc]
        exact ha
      obtain ⟨b, hmove, hb⟩ := hsplit.move_left (e := Fault.write)
      rw [List.length_append, List.length_singleton] at hmove
      have hn : (c.nranges : Int) - l.length - 2 = t.length := by omega
      rw [hset, ok_bind, hn, hmove, ok_bind]
      refine ih (s := { r with stop := s.stop }) (t := t) ⟨?_, ?_⟩ ?_
      · rw [List.append_assoc] at hb
        exact hb
      · change c.nranges - 1 = _
        rw [hcount, List.length_append, List.length_cons]
        omega
      · rw [hjoin, if_pos heq]
        rfl
    · rename_i hne
      refine ih (s := r) (t := s :: t) ⟨hstart, ?_⟩ ?_
      · rw [hcount, List.length_append, List.length_cons, List.length_cons]
        omega
      · rw [hjoin, if_neg hne]
        rfl

/-- The function on the array is that on the list; it makes no access outside the array. -/
theorem rangesInsertArray_refines {c : RangeArray} (x : ByteRange)
    (hn : c.nranges ≤ ipReassMaxRanges) :
    (rangesInsertArray c x = .ok (false, c) ∧ rangesInsert c.live x.pair = none) ∨
    ∃ c', rangesInsertArray c x = .ok (true, c') ∧ c'.nranges ≤ ipReassMaxRanges ∧
      rangesInsert c.live x.pair = some c'.live := by
  obtain ⟨l, hl⟩ := RangeArray.exists_stores hn
  have hlive : (c.live).length = c.nranges := by rw [hl.live, List.length_map, hl.count]
  have hscan := rangesScan_eq (l := []) (m := l) x hl
  rw [← hl.live, List.length_nil, ← hl.count] at hscan
  unfold rangesInsertArray rangesInsert
  rw [hlive]
  rcases hscan with ⟨hscan, hins⟩ | ⟨l₁, l₂, rfl, hscan, hins⟩
  · rw [hscan, hins]
    exact Or.inl ⟨rfl, rfl⟩
  rw [hscan, ok_bind, hins, Nat.zero_add]
  simp only
  by_cases hfull : c.nranges ≥ ipReassMaxRanges
  · rw [if_pos hfull, if_pos hfull]
    exact Or.inl ⟨rfl, rfl⟩
  rw [if_neg hfull, if_neg hfull]
  have hcount := hl.count
  rw [List.length_append] at hcount
  obtain ⟨a, y, hmove, ha⟩ := hl.starts.move_right (e := Fault.write) (by omega)
  obtain ⟨b, hset, hb⟩ := ha.set (e := Fault.write) (x := x)
  -- the loop starts at the last range of all
  have hnew : (⟨b, c.nranges + 1⟩ : RangeArray).Stores (l₁ ++ x :: l₂) := by
    refine ⟨hb, ?_⟩
    change c.nranges + 1 = _
    rw [hcount, List.length_append, List.length_cons, Nat.add_assoc]
  obtain ⟨k, s, hk⟩ : ∃ k s, l₁ ++ x :: l₂ = k ++ [s] :=
    ⟨_, _, (List.dropLast_append_getLast (by simp)).symm⟩
  rw [hk] at hnew
  have hrounds : k.length = c.nranges := by
    have hlen := hnew.count
    rw [List.length_append, List.length_singleton] at hlen
    exact (Nat.succ.inj hlen).symm
  obtain ⟨c', k', hjoined, hstores, hpairs⟩ := rangesCoalesce_eq k (m := [s.pair]) hnew rfl
  rw [hrounds] at hjoined
  have hmoved : (c.nranges : Int) - l₁.length = l₂.length := by omega
  refine Or.inr ⟨c', ?_, ?_, ?_⟩
  · rw [hmoved, hmove, ok_bind, hset, ok_bind, hjoined]
    rfl
  · rw [hstores.count]
    exact hstores.starts.length_le
  · rw [hstores.live, hpairs]
    have hmap := congrArg (List.map ByteRange.pair) hk
    rw [List.map_append, List.map_append, List.map_cons] at hmap
    rw [hmap]
    rfl

/-! ### Exactness -/

theorem rangesInsert_room {ranges ranges' : List (Nat × Nat)} {x : Nat × Nat}
    (h : rangesInsert ranges x = some ranges') : ranges.length < ipReassMaxRanges := by
  unfold rangesInsert at h
  split at h
  · cases h
  split at h
  · cases h
  · rename_i hroom
    exact Nat.not_le.mp hroom

/-- `ranges_insert` on a list of ranges in order with gaps between them makes no access outside
the array. It refuses a range exactly when that meets a stored one or the array is full, and
leaves the array as it is then. Otherwise the ranges are again in order with gaps between them,
and cover the bytes they covered and those of the new range. -/
theorem ranges_insert_exact (c : RangeArray) (start stop : UInt16) (hsep : Separated c.live)
    (hn : c.nranges ≤ ipReassMaxRanges) (hlt : start < stop) :
    ∃ ok c', rangesInsertArray c ⟨start, stop⟩ = .ok (ok, c') ∧
      (ok = false ↔
        (∃ r ∈ c.live, ∃ a, Holds r a ∧ Holds (start.toNat, stop.toNat) a) ∨
          c.nranges = ipReassMaxRanges) ∧
      (ok = false → c' = c) ∧
      (ok = true → Separated c'.live ∧ c'.nranges ≤ ipReassMaxRanges ∧
        ∀ a, Covers c'.live a ↔ Covers c.live a ∨ Holds (start.toNat, stop.toNat) a) := by
  have hx : start.toNat < stop.toNat := UInt16.lt_iff_toNat_lt.mp hlt
  have hlive : c.live.length = c.nranges := by
    obtain ⟨l, hl⟩ := RangeArray.exists_stores hn
    rw [hl.live, List.length_map, hl.count]
  rcases rangesInsertArray_refines ⟨start, stop⟩ hn with ⟨hrun, hnone⟩ | ⟨c', hrun, hn', hsome⟩
  · refine ⟨false, c, hrun, iff_of_true rfl ?_, fun _ => rfl, fun htrue => absurd htrue (by decide)⟩
    by_contra hno
    rw [not_or] at hno
    have hclear (r : Nat × Nat) (hr : r ∈ c.live) : Avoids (start.toNat, stop.toNat) r :=
      avoids_of_holds hx (hsep.pos r hr) fun a ha har => hno.1 ⟨r, hr, a, har, ha⟩
    have hroom : c.live.length < ipReassMaxRanges := by omega
    obtain ⟨ranges, hins⟩ := rangesInsert_isSome hroom hclear
    exact Option.some_ne_none ranges (hins.symm.trans hnone)
  · obtain ⟨hsep', hdisj, hcov⟩ := rangesInsert_some hx hsep hsome
    refine ⟨true, c', hrun, iff_of_false (by decide) ?_, fun hfalse => absurd hfalse (by decide),
      fun _ => ⟨hsep', hn', hcov⟩⟩
    rintro (⟨r, hr, a, har, ha⟩ | hfull)
    · exact (hdisj r hr).not_holds ha har
    · have hroom := rangesInsert_room hsome
      omega

/-- Two ranges with a gap of eight bytes. -/
def gapArray : RangeArray where
  ranges := fun i => if i.val = 0 then ⟨0, 8⟩ else ⟨16, 24⟩
  nranges := 2

theorem ranges_insert_exact_gap :
    Separated gapArray.live ∧ ∃ c', rangesInsertArray gapArray ⟨8, 16⟩ = .ok (true, c') ∧
      ∀ a, Covers c'.live a ↔ Covers gapArray.live a ∨ Holds (8, 16) a := by
  have hlive : gapArray.live = [(0, 8), (16, 24)] := by decide
  have hsep : Separated gapArray.live := by
    rw [hlive]
    exact ⟨by decide, by decide⟩
  obtain ⟨ok, c', hrun, hiff, -, hcov⟩ :=
    ranges_insert_exact gapArray 8 16 hsep (by decide) (by decide)
  have htrue : ok = true := by
    rw [← Bool.not_eq_false, hiff, hlive]
    rintro (⟨r, hr, a, har, ha⟩ | hfull)
    · have hcases : r = (0, 8) ∨ r = (16, 24) := by simpa using hr
      have h8 : 8 ≤ a := ha.1
      have h16 : a < 16 := ha.2
      rcases hcases with rfl | rfl
      · exact absurd har.2 (Nat.not_lt.mpr h8)
      · exact absurd har.1 (Nat.not_le.mpr h16)
    · exact absurd hfull (by decide)
  subst htrue
  exact ⟨hsep, c', hrun, (hcov rfl).2.2⟩

end PacketForge
