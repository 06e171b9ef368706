import PacketForge.Ipv4.ReassSound

/-!
Reassembly is complete: the fragments of a payload, in any order and among
fragments of other keys, give the payload back when the last of them arrives,
unless a context is evicted or times out, or the bytes received fall into too
many runs.
-/

namespace PacketForge

open Intervals

/-! ### Splitting a payload -/

/-- The datagrams carry the pieces of a payload from an offset on. -/
inductive Splits (k : ReassKey) : Nat → List UInt8 → List Datagram → Prop where
  | last {off : Nat} {d : Datagram} (hkey : d.key = k) (hoff : d.off = off) (hmf : d.mf = false)
      (hpos : 0 < d.paylen) : Splits k off d.payload [d]
  | more {off : Nat} {d : Datagram} {payload : List UInt8} {parts : List Datagram}
      (hkey : d.key = k) (hoff : d.off = off) (hmf : d.mf = true) (hpos : 0 < d.paylen)
      (haligned : d.paylen % 8 = 0) (hrest : Splits k (off + d.paylen) payload parts) :
      Splits k off (d.payload ++ payload) (d :: parts)

/-- The number of separate runs of bytes: the fragments that follow no other. -/
def runs (fs : List Datagram) : Nat := (fs.filter fun f => fs.all fun g => g.stop ≠ f.off).length

namespace Splits

variable {k : ReassKey} {off : Nat} {payload : List UInt8} {parts : List Datagram} {d : Datagram}

theorem part (h : Splits k off payload parts) (hd : d ∈ parts) :
    d.key = k ∧ d.wellFormed = true ∧ off ≤ d.off ∧ d.stop ≤ off + payload.length ∧
      (d.mf = false → d.stop = off + payload.length) := by
  induction h with
  | last hkey hoff hmf hpos =>
    rw [List.mem_singleton.mp hd]
    have hgood : Datagram.wellFormed _ = true :=
      decide_eq_true ⟨Nat.ne_of_gt hpos, fun h => by rw [hmf] at h; cases h⟩
    refine ⟨hkey, hgood, hoff.ge, ?_, fun _ => ?_⟩
    · rw [← hoff]
      exact le_rfl
    · rw [← hoff]
      rfl
  | more hkey hoff hmf hpos haligned hrest ih =>
    rw [List.length_append]
    rcases List.mem_cons.mp hd with rfl | hd
    · have hgood : d.wellFormed = true := decide_eq_true ⟨Nat.ne_of_gt hpos, fun _ => haligned⟩
      refine ⟨hkey, hgood, hoff.ge, ?_, fun h => by rw [hmf] at h; cases h⟩
      change d.off + d.paylen ≤ _ + (d.paylen + _)
      omega
    · obtain ⟨hk, hgood, hle, hstop, hlast⟩ := ih hd
      unfold Datagram.paylen at hle hstop hlast
      refine ⟨hk, hgood, by omega, by omega, fun h => ?_⟩
      have hend := hlast h
      omega

theorem pos (h : Splits k off payload parts) : 0 < payload.length := by
  cases h with
  | last _ _ _ hpos => exact hpos
  | more _ _ _ hpos =>
    rw [List.length_append]
    exact Nat.add_pos_left hpos _

theorem disjoint (h : Splits k off payload parts) :
    parts.Pairwise fun f g => Avoids f.range g.range := by
  induction h with
  | last => exact List.pairwise_singleton _ _
  | more hkey hoff hmf hpos haligned hrest ih =>
    refine List.pairwise_cons.mpr ⟨?_, ih⟩
    intro g hg
    left
    change Datagram.off _ + Datagram.paylen _ ≤ g.off
    rw [hoff]
    exact (hrest.part hg).2.2.1

theorem covers (h : Splits k off payload parts) (x : Nat) :
    Covers (parts.map (·.range)) x ↔ off ≤ x ∧ x < off + payload.length := by
  induction h with
  | @last off d hkey hoff hmf hpos =>
    rw [List.map_singleton, covers_cons, or_iff_left not_covers_nil, ← hoff]
    rfl
  | @more off d payload parts hkey hoff hmf hpos haligned hrest ih =>
    have hd : Holds d.range x ↔ off ≤ x ∧ x < off + d.paylen := by
      rw [← hoff]
      rfl
    rw [List.map_cons, covers_cons, ih, hd, List.length_append]
    unfold Datagram.paylen
    omega

theorem bytes (h : Splits k off payload parts) (hd : d ∈ parts) {x : Nat} (hx : Holds d.range x) :
    payload[x - off]? = d.payload[x - d.off]? := by
  induction h with
  | last hkey hoff =>
    rw [List.mem_singleton.mp hd, hoff]
  | @more off f payload parts hkey hoff hmf hpos haligned hrest ih =>
    rcases List.mem_cons.mp hd with rfl | hd
    · have hlt : x - off < d.payload.length := by
        have h1 : d.off ≤ x := hx.1
        have h2 : x < d.off + d.payload.length := hx.2
        omega
      rw [List.getElem?_append_left hlt, hoff]
    · have hge : off + f.payload.length ≤ x := (hrest.part hd).2.2.1.trans hx.1
      rw [List.getElem?_append_right (by omega), ← ih hd]
      congr 1
      unfold Datagram.paylen
      omega

theorem exists_last (h : Splits k off payload parts) : ∃ d ∈ parts, d.mf = false := by
  induction h with
  | last _ _ hmf => exact ⟨_, List.mem_singleton_self _, hmf⟩
  | more _ _ _ _ _ _ ih =>
    obtain ⟨d, hd, hmf⟩ := ih
    exact ⟨d, List.mem_cons_of_mem _ hd, hmf⟩

theorem exists_first (h : Splits k off payload parts) : ∃ d ∈ parts, d.off = off := by
  cases h with
  | last _ hoff => exact ⟨_, List.mem_singleton_self _, hoff⟩
  | more _ hoff => exact ⟨_, List.mem_cons_self, hoff⟩

end Splits

/-! ### Runs of bytes -/

/-- The byte before a range is not there. -/
theorem separated_before {l : List (Nat × Nat)} (hl : Separated l) {r : Nat × Nat} (hr : r ∈ l)
    {x : Nat} (hx : x + 1 = r.1) : ¬ Covers l x := by
  rintro ⟨s, hs, h1, h2⟩
  have hrpos := hl.pos r hr
  have hne : s ≠ r := by
    rintro rfl
    omega
  have hsymm : Std.Symm fun a b : Nat × Nat => a.2 < b.1 ∨ b.2 < a.1 := ⟨fun _ _ => Or.symm⟩
  have hgap : s.2 < r.1 ∨ r.2 < s.1 :=
    List.Pairwise.forall (R := fun a b : Nat × Nat => a.2 < b.1 ∨ b.2 < a.1)
      (hl.sorted.imp Or.inl) hs hr hne
  omega

/-- A context has as many ranges as there are runs among its fragments. -/
theorem Collects.ranges_length {fs : List Datagram} {c : ReassCtx} (h : Collects fs c) :
    c.ranges.length ≤ runs fs := by
  have hnodup : (c.ranges.map Prod.fst).Nodup := by
    rw [List.nodup_iff_pairwise_ne, List.pairwise_map]
    refine List.Pairwise.imp_of_mem ?_ h.separated.sorted
    intro a b ha _ hab
    have hpos := h.separated.pos a ha
    omega
  have hsub : c.ranges.map Prod.fst ⊆
      (fs.filter fun f => fs.all fun g => g.stop ≠ f.off).map (·.off) := by
    intro a ha
    obtain ⟨r, hr, rfl⟩ := List.mem_map.mp ha
    have hbefore {x : Nat} (hx : x + 1 = r.1) {f : Datagram} (hf : f ∈ fs)
        (hfx : Holds f.range x) : False :=
      separated_before h.separated hr hx ((h.covers x).mpr ⟨f.range, List.mem_map_of_mem hf, hfx⟩)
    obtain ⟨q, hq, hin⟩ := (h.covers r.1).mp ⟨r, hr, le_rfl, h.separated.pos r hr⟩
    obtain ⟨f, hf, rfl⟩ := List.mem_map.mp hq
    have h1 : f.off ≤ r.1 := hin.1
    have h2 : r.1 < f.stop := hin.2
    have hoff : f.off = r.1 := by
      by_contra hne
      have hlast : Holds f.range (r.1 - 1) := by
        change f.off ≤ r.1 - 1 ∧ r.1 - 1 < f.stop
        omega
      exact hbefore (by omega) hf hlast
    refine List.mem_map.mpr ⟨f, List.mem_filter.mpr ⟨hf, ?_⟩, hoff⟩
    refine List.all_eq_true.mpr ?_
    intro g hg
    refine decide_eq_true ?_
    intro hstop
    have hgpos : g.off < g.stop := h.pos g hg
    have hlast : Holds g.range (r.1 - 1) := by
      change g.off ≤ r.1 - 1 ∧ r.1 - 1 < g.stop
      omega
    exact hbefore (by omega) hg hlast
  have hle := (hnodup.subperm hsub).length_le
  rwa [List.length_map, List.length_map] at hle

/-! ### One fragment of the payload -/

section Part

variable {k : ReassKey} {payload : List UInt8} {parts got rest : List Datagram} {d : Datagram}
  {c c' : ReassCtx}

/-- The total is that of the payload as soon as it is pinned. -/
theorem Collects.total_eq (hsplit : Splits k 0 payload parts) (hcol : Collects got c)
    (hgot : ∀ f ∈ got, f ∈ parts) {total : Nat} (htotal : c.expectedTotal = some total) :
    total = payload.length := by
  have hlast := hcol.last
  rw [htotal] at hlast
  obtain ⟨f, hf, hstop⟩ := List.map_eq_singleton_iff.mp hlast
  have hmem : f ∈ got.filter (!·.mf) := by
    rw [hf]
    exact List.mem_singleton_self f
  obtain ⟨hfgot, hmf⟩ := List.mem_filter.mp hmem
  have hend := (hsplit.part (hgot f hfgot)).2.2.2.2 (by simpa using hmf)
  omega

/-- A fragment of the payload that is not there yet is taken. -/
theorem Splits.takes (hsplit : Splits k 0 payload parts) (hlen : payload.length ≤ ipReassMaxPayload)
    (hcol : Collects got c) (hperm : (got ++ d :: rest).Perm parts)
    (hruns : runs got < ipReassMaxRanges) : ∃ ranges, CtxTakes c d ranges := by
  have hgot (f : Datagram) (hf : f ∈ got) : f ∈ parts :=
    hperm.mem_iff.mp (List.mem_append_left _ hf)
  have hd : d ∈ parts := hperm.mem_iff.mp (List.mem_append_right _ List.mem_cons_self)
  obtain ⟨hkey, hgood, -, hstop, hlast⟩ := hsplit.part hd
  have hdisj : ∀ f ∈ got, Avoids f.range d.range := by
    have hpair := (hperm.pairwise_iff (fun {f g} h => Avoids.symm h)).mpr hsplit.disjoint
    intro f hf
    exact (List.pairwise_append.mp hpair).2.2 f hf d List.mem_cons_self
  have hclear : ∀ r ∈ c.ranges, Avoids d.range r := by
    intro r hr
    refine avoids_of_holds (Datagram.wellFormed_pos hgood) (hcol.separated.pos r hr) ?_
    intro x hdx hrx
    obtain ⟨q, hq, hqx⟩ := (hcol.covers x).mp ⟨r, hr, hrx⟩
    obtain ⟨f, hf, rfl⟩ := List.mem_map.mp hq
    exact (hdisj f hf).not_holds hqx hdx
  obtain ⟨ranges, hins⟩ := rangesInsert_isSome (hcol.ranges_length.trans_lt hruns) hclear
  refine ⟨ranges, ?_, ?_, ?_, hins⟩
  · omega
  · intro hmf total htotal
    have heq := hcol.total_eq hsplit hgot htotal
    have hend := hlast hmf
    omega
  · intro _ total htotal
    have heq := hcol.total_eq hsplit hgot htotal
    omega

/-- The context is complete with the last fragment of the payload and not
before. -/
theorem Splits.complete_iff (hsplit : Splits k 0 payload parts) (hcol : Collects got c)
    (hperm : (got ++ rest).Perm parts) : c.complete = true ↔ rest = [] := by
  have hgot (f : Datagram) (hf : f ∈ got) : f ∈ parts :=
    hperm.mem_iff.mp (List.mem_append_left _ hf)
  rw [ReassCtx.complete_iff]
  constructor
  · -- a missing fragment starts at a byte that is not there
    rintro ⟨-, total, htotal, hranges⟩
    by_contra hne
    obtain ⟨e, he⟩ := List.exists_mem_of_ne_nil _ hne
    have hmem : e ∈ parts := hperm.mem_iff.mp (List.mem_append_right _ he)
    obtain ⟨-, hgood, -, hstop, -⟩ := hsplit.part hmem
    have hpos : e.off < e.stop := Datagram.wellFormed_pos hgood
    have htot := hcol.total_eq hsplit hgot htotal
    have hthere : Covers c.ranges e.off := by
      rw [hranges]
      exact ⟨_, List.mem_singleton_self _, Nat.zero_le _, by change e.off < total; omega⟩
    obtain ⟨q, hq, hqx⟩ := (hcol.covers e.off).mp hthere
    obtain ⟨f, hf, rfl⟩ := List.mem_map.mp hq
    have hpair := (hperm.pairwise_iff (fun {f g} h => Avoids.symm h)).mpr hsplit.disjoint
    exact ((List.pairwise_append.mp hpair).2.2 f hf e he).not_holds hqx ⟨le_rfl, hpos⟩
  · rintro rfl
    rw [List.append_nil] at hperm
    obtain ⟨l, hl, hlmf⟩ := hsplit.exists_last
    obtain ⟨f, hf, hfoff⟩ := hsplit.exists_first
    have hfirst : c.haveFirst = true := by
      by_contra hno
      have hnil := hcol.first
      rw [if_neg hno, List.map_eq_nil_iff, List.filter_eq_nil_iff] at hnil
      exact hnil f (hperm.mem_iff.mpr hf) (decide_eq_true hfoff)
    obtain ⟨total, htotal⟩ : ∃ total, c.expectedTotal = some total := by
      rw [← Option.ne_none_iff_exists']
      intro hno
      have hnil := hcol.last
      rw [hno, Option.toList_none, List.map_eq_nil_iff, List.filter_eq_nil_iff] at hnil
      exact hnil l (hperm.mem_iff.mpr hl) (by rw [hlmf]; rfl)
    refine ⟨hfirst, total, htotal, ?_⟩
    rw [hcol.total_eq hsplit hgot htotal]
    refine hcol.separated.eq_singleton hsplit.pos ?_
    intro x
    have hsame : Covers (got.map (·.range)) x ↔ Covers (parts.map (·.range)) x := by
      simp only [Covers, (hperm.map _).mem_iff]
    rw [hcol.covers, hsame, hsplit.covers, Nat.zero_add]
    rfl

theorem Splits.handed (hsplit : Splits k 0 payload parts) (hperm : got.Perm parts)
    {hdr handed : List UInt8} (h : Reassembled k got hdr handed) : handed = payload := by
  have hlt (x : Nat) : x < handed.length ↔ x < payload.length := by
    have hsame : Covers (got.map (·.range)) x ↔ Covers (parts.map (·.range)) x := by
      simp only [Covers, (hperm.map _).mem_iff]
    rw [← h.tiles, hsame, hsplit.covers]
    omega
  apply List.ext_getElem?
  intro x
  by_cases hx : x < handed.length
  · obtain ⟨q, hq, hqx⟩ := (h.tiles x).mpr hx
    obtain ⟨f, hf, rfl⟩ := List.mem_map.mp hq
    rw [h.bytes f hf x hqx, ← hsplit.bytes (hperm.mem_iff.mp hf) hqx, Nat.sub_zero]
  · have hx' : ¬ x < payload.length := fun hlt' => hx ((hlt x).mpr hlt')
    rw [List.getElem?_eq_none (Nat.not_lt.mp hx), List.getElem?_eq_none (Nat.not_lt.mp hx')]

end Part

/-! ### The table -/

/-- The fragments of a key among the events. -/
def brought (k : ReassKey) (es : List ReassEvent) : List Datagram := es.flatMap (·.brings k)

/-- The datagrams of a key handed to `ip_local_deliver`. -/
def Reass.handed (r : Reass) (k : ReassKey) : List (List UInt8) :=
  (r.delivered.map Prod.snd).filter (ipKey · = k)

/-- The event evicts no context and lets none time out. -/
def Calm (r : Reass) : ReassEvent → Prop
  | .frag _ _ _ d => d.wellFormed = true → ctxFind r d.key = none → ∃ i, (r.ctxs i).inUse = false
  | .tick now => ∀ i, (r.ctxs i).inUse = true → now < (r.ctxs i).deadline

/-- The key has a context with these fragments, or none if there are none. -/
def Waits (k : ReassKey) (got : List Datagram) (r : Reass) : Prop :=
  match ctxFind r k with
  | none => got = []
  | some i => got ≠ [] ∧ Collects got (r.ctxs i)

section Table

variable {k : ReassKey} {payload : List UInt8} {parts got rest : List Datagram} {d : Datagram}
  {r : Reass} {e : ReassEvent} {now : Nat} {dev : Option DevIdx} {heap : Nat → UInt8}

theorem Waits.picked (h : Waits k got r) {i : Fin ipReassCtxs} {c : ReassCtx}
    (hpick : Picks r now dev heap k i c) : Collects got c := by
  unfold Waits at h
  cases hpick with
  | found hf =>
    rw [hf] at h
    exact h.2
  | free hf =>
    rw [hf] at h
    rw [show got = [] from h]
    exact Collects.empty rfl rfl rfl
  | evicted hf =>
    rw [hf] at h
    rw [show got = [] from h]
    exact Collects.empty rfl rfl rfl

theorem ipReassTick_calm (h : Calm r (.tick now)) : ipReassTick r now = r := by
  refine Slots.each_invariant (P := (· = r)) ?_ rfl
  rintro _ i rfl
  unfold ipReassExpire
  dsimp only
  refine if_pos ?_
  cases hi : (Reass.ctxs _ i).inUse with
  | false => exact Or.inl rfl
  | true => exact Or.inr (h i hi)

/-- What is looked up for a key does not depend on a context of another key. -/
theorem ctxFind_update {r' : Reass} (ok' : TableOk r') {i : Fin ipReassCtxs}
    {c' : ReassCtx} (hctxs : r'.ctxs = Function.update r.ctxs i c')
    (hold : (r.ctxs i).inUse = true → (r.ctxs i).key ≠ k)
    (hnew : c'.inUse = true → c'.key ≠ k) :
    ctxFind r' k = ctxFind r k ∧ ∀ j, ctxFind r k = some j → r'.ctxs j = r.ctxs j := by
  have hsame {j : Fin ipReassCtxs} (hj : ctxFind r k = some j) : r'.ctxs j = r.ctxs j := by
    obtain ⟨huse, hkey⟩ := ctxFind_some hj
    have hji : j ≠ i := by
      rintro rfl
      exact hold huse hkey
    rw [hctxs, Function.update_of_ne hji]
  refine ⟨?_, fun j hj => hsame hj⟩
  cases hf : ctxFind r k with
  | some j =>
    obtain ⟨huse, hkey⟩ := ctxFind_some hf
    have hj := hsame hf
    exact ok'.ctxFind_eq (hj ▸ huse) (hj ▸ hkey)
  | none =>
    cases hf' : ctxFind r' k with
    | none => rfl
    | some j =>
      obtain ⟨huse, hkey⟩ := ctxFind_some hf'
      rw [hctxs, Function.update_apply] at huse hkey
      split at huse
      · rename_i hji
        rw [if_pos hji] at hkey
        exact absurd hkey (hnew huse)
      · rename_i hji
        rw [if_neg hji] at hkey
        exact absurd hkey (ctxFind_none hf j huse)

/-- An event that brings no fragment of a key leaves its context alone and hands
nothing up for it. -/
theorem Waits.frame (ok : TableOk r) (hr : Gathered r) (hcalm : Calm r e)
    (hbrings : e.brings k = []) (h : Waits k got r) :
    Waits k got (reassStep r e) ∧ (reassStep r e).handed k = r.handed k := by
  cases e with
  | tick now =>
    change Waits k got (ipReassTick r now) ∧ (ipReassTick r now).handed k = _
    rw [ipReassTick_calm hcalm]
    exact ⟨h, rfl⟩
  | frag now dev heap d =>
    have hne : d.key ≠ k := by
      intro hk
      rw [ReassEvent.brings, if_pos hk] at hbrings
      cases hbrings
    have hgoods := ipReassInput_input ok now dev heap d
    have ok' := ok.step (.frag now dev heap d)
    change Waits k got (ipReassInput r now dev heap d) ∧
      (ipReassInput r now dev heap d).handed k = _
    change TableOk (ipReassInput r now dev heap d) at ok'
    generalize ipReassInput r now dev heap d = r' at hgoods ok' ⊢
    have hnothing (hdel : r'.delivered = r.delivered) : r'.handed k = r.handed k := by
      rw [Reass.handed, hdel, Reass.handed]
    have hframe {i : Fin ipReassCtxs} {c c' : ReassCtx} (hgood : d.wellFormed = true)
        (hpick : Picks r now dev heap d.key i c)
        (hctxs : r'.ctxs = Function.update r.ctxs i c')
        (hnew : c'.inUse = true → c'.key ≠ k) : Waits k got r' := by
      have hold : (r.ctxs i).inUse = true → (r.ctxs i).key ≠ k := by
        cases hpick with
        | found hf =>
          rw [(ctxFind_some hf).2]
          exact fun _ => hne
        | free _ hfree =>
          rw [hfree]
          exact fun h => by cases h
        | evicted hnone hfull =>
          obtain ⟨j, hj⟩ := hcalm hgood hnone
          rw [hfull j] at hj
          cases hj
      obtain ⟨hfind, hsame⟩ := ctxFind_update ok' hctxs hold hnew
      unfold Waits at h ⊢
      rw [hfind]
      cases hf : ctxFind r k with
      | none =>
        rw [hf] at h
        exact h
      | some j =>
        rw [hf] at h
        simp only
        rw [hsame j hf]
        exact h
    cases hgoods with
    | ignored _ hctxs hdel =>
      refine ⟨?_, hnothing hdel⟩
      have hfind : ctxFind r' k = ctxFind r k := by
        unfold ctxFind
        rw [hctxs]
      unfold Waits at h ⊢
      rw [hfind, hctxs]
      exact h
    | dropped hgood hpick _ hctxs hdel =>
      exact ⟨hframe hgood hpick hctxs (fun h => by cases h), hnothing hdel⟩
    | kept hgood hpick hadd _ hctxs hdel =>
      refine ⟨hframe hgood hpick hctxs ?_, hnothing hdel⟩
      rw [(ctxAdd_inUse hadd).2, hpick.inUse.2]
      exact fun _ => hne
    | @completed i c c' hgood hpick hadd hdone hctxs hdel =>
      refine ⟨hframe hgood hpick hctxs (fun h => by cases h), ?_⟩
      obtain ⟨fs, hcol⟩ := hr.added hgood hpick hadd
      obtain ⟨_, _, -, hkey, -⟩ := hcol.reassembled hdone
      rw [(ctxAdd_inUse hadd).2, hpick.inUse.2] at hkey
      have hother : ¬ ipKey c'.datagram = k := by
        rw [hkey]
        exact hne
      rw [Reass.handed, hdel, List.map_append, List.filter_append, List.map_singleton,
        List.filter_singleton, decide_eq_false hother, cond_false, List.append_nil, Reass.handed]

/-- A fragment of the payload joins the others; the last one completes it. -/
theorem Waits.part (ok : TableOk r) (hsplit : Splits k 0 payload parts)
    (hlen : payload.length ≤ ipReassMaxPayload) (now : Nat) (dev : Option DevIdx)
    (heap : Nat → UInt8) (h : Waits k got r)
    (hperm : (got ++ d :: rest).Perm parts) (hruns : runs got < ipReassMaxRanges) :
    (rest ≠ [] → Waits k (got ++ [d]) (ipReassInput r now dev heap d) ∧
      (ipReassInput r now dev heap d).handed k = r.handed k) ∧
    (rest = [] → Waits k [] (ipReassInput r now dev heap d) ∧
      ∃ hdr, ipHdrLen hdr = hdr.length ∧
        (ipReassInput r now dev heap d).handed k = r.handed k ++ [hdr ++ payload]) := by
  have hd : d ∈ parts := hperm.mem_iff.mp (List.mem_append_right _ List.mem_cons_self)
  obtain ⟨hkey, hgood, -⟩ := hsplit.part hd
  have hperm' : ((got ++ [d]) ++ rest).Perm parts := by
    rwa [List.append_assoc, List.singleton_append]
  -- the context that takes the fragment, and what it holds then
  have htaken {i : Fin ipReassCtxs} {c : ReassCtx} (hpick : Picks r now dev heap d.key i c) :
      ∃ ranges, CtxTakes c d ranges ∧ Collects (got ++ [d]) ((c.pin d).store d ranges) := by
    have hcol := h.picked (hkey ▸ hpick)
    obtain ⟨ranges, htakes⟩ := hsplit.takes hlen hcol hperm hruns
    exact ⟨ranges, htakes, hcol.add hpick.inUse.2.symm (Datagram.wellFormed_pos hgood) htakes⟩
  have hstep := ipReassInput_input ok now dev heap d
  have ok' := ok.step (.frag now dev heap d)
  change TableOk (ipReassInput r now dev heap d) at ok'
  generalize ipReassInput r now dev heap d = r' at hstep ok' ⊢
  cases hstep with
  | ignored hbad =>
    rw [hgood] at hbad
    cases hbad
  | dropped _ hpick herr =>
    obtain ⟨ranges, htakes, -⟩ := htaken hpick
    rw [ctxAdd_ok.mpr ⟨ranges, htakes, rfl⟩] at herr
    cases herr
  | @kept i c c' _ hpick hadd hopen hctxs hdel =>
    obtain ⟨ranges, htakes, hcol⟩ := htaken hpick
    rw [ctxAdd_ok.mpr ⟨ranges, htakes, rfl⟩] at hadd
    cases hadd
    have hdone := hsplit.complete_iff hcol hperm'
    rw [hopen] at hdone
    refine ⟨fun _ => ⟨?_, ?_⟩, fun hnil => by cases hdone.mpr hnil⟩
    · have hat : r'.ctxs i = (c.pin d).store d ranges := by rw [hctxs, Function.update_self]
      have hin := ctxAdd_inUse (ctxAdd_ok.mpr ⟨ranges, htakes, rfl⟩)
      have hfind : ctxFind r' k = some i := by
        refine ok'.ctxFind_eq ?_ ?_
        · rw [hat]
          exact hin.1.trans hpick.inUse.1
        · rw [hat, ← hkey]
          exact hin.2.trans hpick.inUse.2
      unfold Waits
      rw [hfind]
      exact ⟨by simp, hat ▸ hcol⟩
    · rw [Reass.handed, hdel, Reass.handed]
  | @completed i c c' _ hpick hadd hdone hctxs hdel =>
    obtain ⟨ranges, htakes, hcol⟩ := htaken hpick
    have hin := ctxAdd_inUse hadd
    rw [ctxAdd_ok.mpr ⟨ranges, htakes, rfl⟩] at hadd
    cases hadd
    have hnil := (hsplit.complete_iff hcol hperm').mp hdone
    refine ⟨fun hne => absurd hnil hne, fun _ => ⟨?_, ?_⟩⟩
    · -- the context of the key is cleared
      have hnone : ctxFind r' k = none := by
        cases hf : ctxFind r' k with
        | none => rfl
        | some j =>
          obtain ⟨huse, hjk⟩ := ctxFind_some hf
          rw [hctxs, Function.update_apply] at huse hjk
          split at huse
          · cases huse
          · rename_i hji
            rw [if_neg hji] at hjk
            exact absurd (hpick.other ok j huse (hjk.trans hkey.symm)) hji
      unfold Waits
      rw [hnone]
    · obtain ⟨hdr, handed, hdata, hdkey, hre⟩ := hcol.reassembled hdone
      have hck : ((c.pin d).store d ranges).key = k := (hin.2.trans hpick.inUse.2).trans hkey
      rw [hck] at hdkey hre
      rw [hnil, List.append_nil] at hperm'
      refine ⟨hdr, hre.hdrLen, ?_⟩
      rw [Reass.handed, hdel, List.map_append, List.filter_append, List.map_singleton,
        List.filter_singleton, decide_eq_true hdkey, cond_true, hdata, hsplit.handed hperm' hre,
        Reass.handed]

theorem brought_cons (k : ReassKey) (e : ReassEvent) (es : List ReassEvent) :
    brought k (e :: es) = e.brings k ++ brought k es := List.flatMap_cons

theorem ReassEvent.brings_cases (e : ReassEvent) (k : ReassKey) : e.brings k = [] ∨
    ∃ now dev heap d, e = .frag now dev heap d ∧ d.key = k ∧ e.brings k = [d] := by
  cases e with
  | tick => exact Or.inl rfl
  | frag now dev heap d =>
    by_cases hk : d.key = k
    · exact Or.inr ⟨now, dev, heap, d, rfl, hk, if_pos hk⟩
    · exact Or.inl (if_neg hk)

/-- Events that bring no fragment of a key leave its context alone. -/
theorem Waits.idle (ok : TableOk r) (hr : Gathered r) {es : List ReassEvent}
    (hcalm : Run.Allowed Calm reassStep r es) (hbrought : brought k es = [])
    (h : Waits k got r) :
    Waits k got (es.foldl reassStep r) ∧ (es.foldl reassStep r).handed k = r.handed k := by
  induction es generalizing r with
  | nil => exact ⟨h, rfl⟩
  | cons e es ih =>
    rw [brought_cons, List.append_eq_nil_iff] at hbrought
    obtain ⟨hstep, hhanded⟩ := h.frame ok hr hcalm.1 hbrought.1
    obtain ⟨hrun, hsame⟩ := ih (ok.step e) (hr.step ok e) hcalm.2 hbrought.2 hstep
    exact ⟨hrun, hsame.trans hhanded⟩

/-- The run up to the last fragment of the payload. -/
theorem Waits.run (ok : TableOk r) (hr : Gathered r) (hsplit : Splits k 0 payload parts)
    (hlen : payload.length ≤ ipReassMaxPayload) {es : List ReassEvent}
    (hcalm : Run.Allowed Calm reassStep r es) (h : Waits k got r)
    (hperm : (got ++ brought k es).Perm parts) (hmore : brought k es ≠ [])
    (hruns : ∀ pre d post, brought k es = pre ++ d :: post → runs (got ++ pre) < ipReassMaxRanges) :
    ∃ pre e post hdr, es = pre ++ e :: post ∧ e.brings k ≠ [] ∧ brought k post = [] ∧
      (pre.foldl reassStep r).handed k = r.handed k ∧
      ipHdrLen hdr = hdr.length ∧
      (reassStep (pre.foldl reassStep r) e).handed k = r.handed k ++ [hdr ++ payload] ∧
      Waits k [] (reassStep (pre.foldl reassStep r) e) ∧
      Waits k [] (es.foldl reassStep r) ∧
      (es.foldl reassStep r).handed k = r.handed k ++ [hdr ++ payload] := by
  -- along the events; `got` is what has arrived
  induction es generalizing r got with
  | nil => exact absurd rfl hmore
  | cons e es ih =>
    rw [brought_cons] at hperm hmore hruns
    rcases e.brings_cases k with hnone | ⟨now, dev, heap, d, rfl, hkey, hone⟩
    · rw [hnone, List.nil_append] at hperm hmore hruns
      obtain ⟨hstep, hhanded⟩ := h.frame ok hr hcalm.1 hnone
      obtain ⟨pre, f, post, hdr, rfl, hf, hpost, hbefore, hlength, hafter, hclear, hend, htotal⟩ :=
        ih (ok.step e) (hr.step ok e) hcalm.2 hstep hperm hmore hruns
      rw [hhanded] at hbefore hafter htotal
      exact ⟨e :: pre, f, post, hdr, rfl, hf, hpost, hbefore, hlength, hafter, hclear, hend, htotal⟩
    · rw [hone, List.singleton_append] at hperm hmore hruns
      have hnow : runs got < ipReassMaxRanges := by
        have hnil := hruns [] d (brought k es) rfl
        rwa [List.append_nil] at hnil
      have hpart := h.part ok hsplit hlen now dev heap hperm hnow
      have ok' := ok.step (.frag now dev heap d)
      have hr' := hr.step ok (.frag now dev heap d)
      by_cases hrest : brought k es = []
      · obtain ⟨hclear, hdr, hlength, hhanded⟩ := hpart.2 hrest
        obtain ⟨hend, hsame⟩ := Waits.idle ok' hr' hcalm.2 hrest hclear
        have hbrings : (ReassEvent.frag now dev heap d).brings k ≠ [] := by
          rw [hone]
          exact List.cons_ne_nil _ _
        exact ⟨[], _, es, hdr, rfl, hbrings, hrest, rfl, hlength, hhanded, hclear, hend,
          hsame.trans hhanded⟩
      · obtain ⟨hstep, hhanded⟩ := hpart.1 hrest
        have hperm' : ((got ++ [d]) ++ brought k es).Perm parts := by
          rwa [List.append_assoc, List.singleton_append]
        have hruns' (pre : List Datagram) (f : Datagram) (post : List Datagram)
            (heq : brought k es = pre ++ f :: post) :
            runs ((got ++ [d]) ++ pre) < ipReassMaxRanges := by
          rw [List.append_assoc, List.singleton_append]
          exact hruns (d :: pre) f post (by rw [heq]; rfl)
        obtain ⟨pre, f, post, hdr, rfl, hf, hpost, hbefore, hlength, hafter, hclear, hend,
          htotal⟩ :=
          ih ok' hr' hcalm.2 hstep hperm' hrest hruns'
        change _ = (ipReassInput r now dev heap d).handed k at hbefore
        change _ = (ipReassInput r now dev heap d).handed k ++ _ at hafter htotal
        rw [hhanded] at hbefore hafter htotal
        exact ⟨_ :: pre, f, post, hdr, rfl, hf, hpost, hbefore, hlength, hafter, hclear, hend,
          htotal⟩

theorem Waits.none (h : Waits k [] r) : ctxFind r k = none := by
  unfold Waits at h
  cases hf : ctxFind r k with
  | none => rfl
  | some i =>
    rw [hf] at h
    exact absurd rfl h.1

end Table

/-- From any reachable table without a context for the key: when the fragments
of a payload arrive once each, in any order among other events, exactly one
datagram of the key is handed up. It carries the payload, it is handed up at
the arrival of the last fragment, and the context is released. -/
theorem fragments_give_payload_back {r : Reass} (hr : Reass.Reach (fun _ _ => True) r)
    {k : ReassKey} {payload : List UInt8} {parts : List Datagram}
    (hsplit : Splits k 0 payload parts) (hlen : payload.length ≤ ipReassMaxPayload)
    (hnone : ctxFind r k = none) {es : List ReassEvent} (hperm : (brought k es).Perm parts)
    (hcalm : Run.Allowed Calm reassStep r es)
    (hruns : ∀ pre d post, brought k es = pre ++ d :: post → runs pre < ipReassMaxRanges) :
    ∃ pre e post hdr, es = pre ++ e :: post ∧ e.brings k ≠ [] ∧ brought k post = [] ∧
      ipHdrLen hdr = hdr.length ∧
      (pre.foldl reassStep r).handed k = r.handed k ∧
      (reassStep (pre.foldl reassStep r) e).handed k = r.handed k ++ [hdr ++ payload] ∧
      ctxFind (reassStep (pre.foldl reassStep r) e) k = none ∧
      (es.foldl reassStep r).handed k = r.handed k ++ [hdr ++ payload] ∧
      ctxFind (es.foldl reassStep r) k = none := by
  obtain ⟨ok, hgathered⟩ := Reass.Reach.sound hr
  have hstart : Waits k [] r := by
    unfold Waits
    rw [hnone]
  have hmore : brought k es ≠ [] := by
    obtain ⟨d, hd, -⟩ := hsplit.exists_last
    exact List.ne_nil_of_mem (hperm.mem_iff.mpr hd)
  obtain ⟨pre, e, post, hdr, hes, he, hpost, hbefore, hlength, hafter, hclear, hend, htotal⟩ :=
    Waits.run ok hgathered hsplit hlen hcalm hstart (by rwa [List.nil_append]) hmore
      (by simpa only [List.nil_append] using hruns)
  exact ⟨pre, e, post, hdr, hes, he, hpost, hlength, hbefore, hafter, hclear.none, htotal,
    hend.none⟩

/-- The two halves of a payload, the second one first, with a tick between. -/
def halves : List ReassEvent := [sampleEvent 0 1 2, .tick 5, sampleEvent 0x20 0 1]

theorem runs_le (fs : List Datagram) : runs fs ≤ fs.length := List.length_filter_le _ _

theorem fragments_give_payload_back_halves : ∃ hdr,
    (halves.foldl reassStep (Reass.init Stats.zero)).handed (sampleFrag 0 1 2).key =
      [hdr ++ ((sampleFrag 0x20 0 1).payload ++ (sampleFrag 0 1 2).payload)] := by
  have hsplit : Splits (sampleFrag 0 1 2).key 0
      ((sampleFrag 0x20 0 1).payload ++ (sampleFrag 0 1 2).payload)
      [sampleFrag 0x20 0 1, sampleFrag 0 1 2] :=
    .more (by decide +kernel) (by decide +kernel) (by decide +kernel) (by decide +kernel)
      (by decide +kernel)
      (.last rfl (by decide +kernel) (by decide +kernel) (by decide +kernel))
  have hbrought :
      brought (sampleFrag 0 1 2).key halves = [sampleFrag 0 1 2, sampleFrag 0x20 0 1] := by
    have hkey : (sampleFrag 0x20 0 1).key = (sampleFrag 0 1 2).key := by decide +kernel
    simp only [brought, halves, sampleEvent, List.flatMap_cons, List.flatMap_nil, ReassEvent.brings,
      hkey, if_true, List.nil_append, List.append_nil, List.singleton_append]
  have hlive : ∀ i, ((reassStep (Reass.init Stats.zero) (sampleEvent 0 1 2)).ctxs i).inUse = true →
      5 < ((reassStep (Reass.init Stats.zero) (sampleEvent 0 1 2)).ctxs i).deadline := by
    decide +kernel
  have hcalm : Run.Allowed Calm reassStep (Reass.init Stats.zero) halves :=
    ⟨fun _ _ => ⟨0, rfl⟩, hlive, fun _ _ => ⟨1, by decide +kernel⟩, trivial⟩
  obtain ⟨_, _, _, hdr, -, -, -, -, -, -, -, htotal, -⟩ := fragments_give_payload_back
    (.start ⟨Stats.zero, rfl⟩) hsplit (by decide +kernel) (ctxFind_init _ _)
    (by rw [hbrought]; exact List.Perm.swap _ _ _) hcalm (by
      intro pre d post heq
      have hlen := congrArg List.length heq
      rw [hbrought, List.length_append] at hlen
      have hle := runs_le pre
      simp only [List.length_cons, List.length_nil] at hlen
      exact Nat.lt_of_le_of_lt (hle.trans (by omega : pre.length ≤ 1)) (by decide))
  exact ⟨hdr, htotal⟩

end PacketForge
