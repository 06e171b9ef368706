import PacketForge.Ipv4.Collect

/-!
The table of contexts under fragments and ticks. No two contexts in use have
the same key, and a context that is not in use is clear. A fragment changes one
context, which is then cleared, kept, or handed up and cleared.
-/

namespace PacketForge

open Intervals

def ReassCtx.fresh (k : ReassKey) (dev : Option DevIdx) (deadline : Nat) (heap : Nat → UInt8) :
    ReassCtx where
  inUse := true
  key := k
  dev := dev
  deadline := deadline
  haveFirst := false
  expectedTotal := none
  ranges := []
  hdr := []
  payload := heap

structure TableOk (r : Reass) : Prop where
  idle : ∀ i, (r.ctxs i).inUse = false → r.ctxs i = ReassCtx.zero
  unique : ∀ i j, (r.ctxs i).inUse = true → (r.ctxs j).inUse = true →
    (r.ctxs i).key = (r.ctxs j).key → i = j

variable {r r' : Reass} {k : ReassKey} {i : Fin ipReassCtxs} {now : Nat} {dev : Option DevIdx}
  {heap : Nat → UInt8} {d : Datagram} {c c' : ReassCtx}

/-! ### Finding a context -/

theorem ctxFind_some (h : ctxFind r k = some i) : (r.ctxs i).inUse = true ∧ (r.ctxs i).key = k :=
  of_decide_eq_true (Slots.first_some h)

theorem ctxFind_none (h : ctxFind r k = none) (i : Fin ipReassCtxs)
    (hi : (r.ctxs i).inUse = true) : (r.ctxs i).key ≠ k := by
  intro hk
  exact of_decide_eq_false (Slots.first_none h i) ⟨hi, hk⟩

theorem TableOk.ctxFind_eq (ok : TableOk r) (hi : (r.ctxs i).inUse = true)
    (hk : (r.ctxs i).key = k) : ctxFind r k = some i := by
  cases hf : ctxFind r k with
  | none => exact absurd hk (ctxFind_none hf i hi)
  | some j =>
    obtain ⟨hj, hjk⟩ := ctxFind_some hf
    rw [ok.unique j i hj hi (hjk.trans hk.symm)]

/-! ### Picking a context -/

/-- The context that a fragment goes to, as it is before the fragment. -/
inductive Picks (r : Reass) (now : Nat) (dev : Option DevIdx) (heap : Nat → UInt8)
    (k : ReassKey) : Fin ipReassCtxs → ReassCtx → Prop where
  | found {i : Fin ipReassCtxs} (h : ctxFind r k = some i) : Picks r now dev heap k i (r.ctxs i)
  | free {i : Fin ipReassCtxs} (hnone : ctxFind r k = none) (hfree : (r.ctxs i).inUse = false) :
      Picks r now dev heap k i (ReassCtx.fresh k dev (now + ipReassTimeoutMs) heap)
  | evicted (hnone : ctxFind r k = none) (hfull : ∀ j, (r.ctxs j).inUse = true) :
      Picks r now dev heap k (ctxVictim r) (ReassCtx.fresh k dev (now + ipReassTimeoutMs) heap)

theorem ctxFor_picks (ok : TableOk r) (now : Nat) (dev : Option DevIdx) (heap : Nat → UInt8)
    (d : Datagram) : ∃ i c, Picks r now dev heap d.key i c ∧ (ctxFor r now dev heap d).1 = i ∧
      (ctxFor r now dev heap d).2.ctxs = Function.update r.ctxs i c ∧
      (ctxFor r now dev heap d).2.delivered = r.delivered := by
  cases hf : ctxFind r d.key with
  | some i =>
    refine ⟨i, r.ctxs i, .found hf, ?_⟩
    rw [ctxFor, hf]
    exact ⟨rfl, (Function.update_eq_self i r.ctxs).symm, rfl⟩
  | none =>
    rw [ctxFor, hf, ctxAlloc]
    cases hfree : Slots.first fun i => !(r.ctxs i).inUse with
    | some i =>
      have hidle : (r.ctxs i).inUse = false := by simpa using Slots.first_some hfree
      refine ⟨i, _, .free hf hidle, rfl, ?_, rfl⟩
      simp [ctxTake, Reass.setCtx, ok.idle i hidle, ReassCtx.zero, ReassCtx.fresh]
    | none =>
      have hfull (j : Fin ipReassCtxs) : (r.ctxs j).inUse = true := by
        simpa using Slots.first_none hfree j
      refine ⟨ctxVictim r, _, .evicted hf hfull, rfl, ?_, rfl⟩
      simp [ctxTake, ctxRelease, Reass.setCtx, Reass.count, ReassCtx.zero, ReassCtx.fresh]

theorem Picks.inUse (h : Picks r now dev heap k i c) : c.inUse = true ∧ c.key = k := by
  cases h with
  | found h => exact ctxFind_some h
  | free => exact ⟨rfl, rfl⟩
  | evicted => exact ⟨rfl, rfl⟩

theorem Picks.other (ok : TableOk r) (h : Picks r now dev heap k i c) (j : Fin ipReassCtxs)
    (hj : (r.ctxs j).inUse = true) (hk : (r.ctxs j).key = k) : j = i := by
  cases h with
  | found h =>
    obtain ⟨hi, hik⟩ := ctxFind_some h
    exact ok.unique j i hj hi (hk.trans hik.symm)
  | free hnone => exact absurd hk (ctxFind_none hnone j hj)
  | evicted hnone => exact absurd hk (ctxFind_none hnone j hj)

theorem TableOk.update (ok : TableOk r) (h : Picks r now dev heap k i c)
    (hctxs : r'.ctxs = Function.update r.ctxs i c')
    (hc : c' = ReassCtx.zero ∨ (c'.inUse = true ∧ c'.key = k)) : TableOk r' := by
  have hat (j : Fin ipReassCtxs) : r'.ctxs j = if j = i then c' else r.ctxs j := by
    rw [hctxs, Function.update_apply]
  constructor
  · intro j hj
    rw [hat] at hj ⊢
    split at hj
    · rename_i hji
      rw [if_pos hji]
      rcases hc with rfl | ⟨hc, -⟩
      · rfl
      · rw [hc] at hj
        cases hj
    · rename_i hji
      rw [if_neg hji]
      exact ok.idle j hj
  · -- two contexts in use with one key are not the changed one and another
    have hone (j l : Fin ipReassCtxs) (hji : j = i) (hl : (r'.ctxs l).inUse = true)
        (hj : (r'.ctxs j).inUse = true) (hkey : (r'.ctxs j).key = (r'.ctxs l).key) : l = i := by
      by_contra hli
      rw [hat, if_pos hji] at hj hkey
      rw [hat, if_neg hli] at hl hkey
      rcases hc with rfl | ⟨-, hck⟩
      · cases hj
      · exact hli (h.other ok l hl (hkey.symm.trans hck))
    intro j l hj hl hkey
    by_cases hji : j = i
    · rw [hji, hone j l hji hl hj hkey]
    · by_cases hli : l = i
      · exact absurd (hone l j hli hj hl hkey.symm) hji
      · rw [hat, if_neg hji] at hj hkey
        rw [hat, if_neg hli] at hl hkey
        exact ok.unique j l hj hl hkey

/-! ### What a fragment does -/

/-- The fragments that are ignored, and the fates of the picked context. -/
inductive Input (r : Reass) (now : Nat) (dev : Option DevIdx) (heap : Nat → UInt8) (d : Datagram)
    (r' : Reass) : Prop where
  | ignored (hbad : d.wellFormed = false) (hctxs : r'.ctxs = r.ctxs)
      (hdel : r'.delivered = r.delivered)
  | dropped {i : Fin ipReassCtxs} {c : ReassCtx} {s : Stat} (hgood : d.wellFormed = true)
      (hpick : Picks r now dev heap d.key i c) (hadd : ctxAdd c d = .error s)
      (hctxs : r'.ctxs = Function.update r.ctxs i ReassCtx.zero) (hdel : r'.delivered = r.delivered)
  | kept {i : Fin ipReassCtxs} {c c' : ReassCtx} (hgood : d.wellFormed = true)
      (hpick : Picks r now dev heap d.key i c) (hadd : ctxAdd c d = .ok c')
      (hopen : c'.complete = false) (hctxs : r'.ctxs = Function.update r.ctxs i c')
      (hdel : r'.delivered = r.delivered)
  | completed {i : Fin ipReassCtxs} {c c' : ReassCtx} (hgood : d.wellFormed = true)
      (hpick : Picks r now dev heap d.key i c) (hadd : ctxAdd c d = .ok c')
      (hdone : c'.complete = true) (hctxs : r'.ctxs = Function.update r.ctxs i ReassCtx.zero)
      (hdel : r'.delivered = r.delivered ++ [(c'.dev, c'.datagram)])

theorem ipReassInput_input (ok : TableOk r) (now : Nat) (dev : Option DevIdx) (heap : Nat → UInt8)
    (d : Datagram) : Input r now dev heap d (ipReassInput r now dev heap d) := by
  unfold ipReassInput
  split
  · rename_i hbad
    exact .ignored (by simpa using hbad) rfl rfl
  rename_i hgood
  have hgood : d.wellFormed = true := by simpa using hgood
  obtain ⟨i, c, hpick, hi, hctxs, hdel⟩ := ctxFor_picks ok now dev heap d
  generalize ctxFor r now dev heap d = picked at hi hctxs hdel ⊢
  obtain ⟨j, r1⟩ := picked
  simp only at hi hctxs hdel ⊢
  subst hi
  have hc : r1.ctxs j = c := by rw [hctxs, Function.update_self]
  have hset (c' : ReassCtx) : Function.update r1.ctxs j c' = Function.update r.ctxs j c' := by
    rw [hctxs, Function.update_idem]
  rw [hc]
  cases hadd : ctxAdd c d with
  | error s => exact .dropped hgood hpick hadd (hset _) hdel
  | ok c' =>
    simp only
    split
    · rename_i hdone
      refine .completed hgood hpick hadd hdone ?_ ?_
      · simp [deliverComplete, ctxRelease, Reass.setCtx, Reass.count, hset]
      · simp [deliverComplete, ctxRelease, Reass.setCtx, Reass.count, hdel]
    · rename_i hopen
      exact .kept hgood hpick hadd (by simpa using hopen) (hset c') hdel

theorem ctxAdd_inUse (h : ctxAdd c d = .ok c') : c'.inUse = c.inUse ∧ c'.key = c.key := by
  obtain ⟨ranges, -, rfl⟩ := ctxAdd_ok.mp h
  unfold ReassCtx.pin
  split <;> exact ⟨rfl, rfl⟩

theorem TableOk.input (ok : TableOk r) (h : Input r now dev heap d r') : TableOk r' := by
  cases h with
  | ignored _ hctxs => exact ⟨hctxs ▸ ok.idle, hctxs ▸ ok.unique⟩
  | dropped _ hpick _ hctxs => exact ok.update hpick hctxs (Or.inl rfl)
  | kept _ hpick hadd _ hctxs =>
    obtain ⟨huse, hkey⟩ := ctxAdd_inUse hadd
    refine ok.update hpick hctxs (Or.inr ⟨huse.trans hpick.inUse.1, hkey.trans hpick.inUse.2⟩)
  | completed _ hpick _ _ hctxs => exact ok.update hpick hctxs (Or.inl rfl)

/-! ### What a tick does -/

theorem ipReassTick_ctxs (r : Reass) (now : Nat) :
    (∀ i, (ipReassTick r now).ctxs i = r.ctxs i ∨ (ipReassTick r now).ctxs i = ReassCtx.zero) ∧
      (ipReassTick r now).delivered = r.delivered := by
  refine Slots.each_invariant (P := fun s : Reass =>
    (∀ i, s.ctxs i = r.ctxs i ∨ s.ctxs i = ReassCtx.zero) ∧ s.delivered = r.delivered) ?_
    ⟨fun i => Or.inl rfl, rfl⟩
  rintro s j ⟨hctxs, hdel⟩
  unfold ipReassExpire
  dsimp only
  split
  · exact ⟨hctxs, hdel⟩
  constructor
  · intro i
    by_cases hij : i = j
    · right
      subst hij
      simp [ctxRelease, Reass.setCtx]
    · rcases hctxs i with h | h
      · left
        split <;> simpa [ctxRelease, Reass.setCtx, Reass.count, hij] using h
      · right
        split <;> simpa [ctxRelease, Reass.setCtx, Reass.count, hij] using h
  · split <;> exact hdel

theorem TableOk.tick (ok : TableOk r) (now : Nat) : TableOk (ipReassTick r now) := by
  obtain ⟨hctxs, -⟩ := ipReassTick_ctxs r now
  have hback (i : Fin ipReassCtxs) (hi : ((ipReassTick r now).ctxs i).inUse = true) :
      (ipReassTick r now).ctxs i = r.ctxs i := by
    rcases hctxs i with h | h
    · exact h
    · rw [h] at hi
      cases hi
  constructor
  · intro i hi
    rcases hctxs i with h | h
    · rw [h] at hi ⊢
      exact ok.idle i hi
    · exact h
  · intro i j hi hj hkey
    have hbi := hback i hi
    have hbj := hback j hj
    rw [hbi] at hi hkey
    rw [hbj] at hj hkey
    exact ok.unique i j hi hj hkey

theorem TableOk.init (stats : Stats) : TableOk (Reass.init stats) where
  idle := fun _ _ => rfl
  unique := by
    intro i j hi
    cases hi

theorem TableOk.step (ok : TableOk r) (e : ReassEvent) : TableOk (reassStep r e) := by
  cases e with
  | frag now dev heap d => exact ok.input (ipReassInput_input ok now dev heap d)
  | tick now => exact ok.tick now

/-- A property of contexts in use that taking a fragment keeps holds after every
event. -/
theorem contexts_step {P : ReassCtx → Prop} (ok : TableOk r) (e : ReassEvent)
    (hold : ∀ i, (r.ctxs i).inUse = true → P (r.ctxs i))
    (hadd : ∀ now dev heap d i c c', e = .frag now dev heap d → d.wellFormed = true →
      Picks r now dev heap d.key i c → ctxAdd c d = .ok c' → c'.complete = false → P c') :
    ∀ i, ((reassStep r e).ctxs i).inUse = true → P ((reassStep r e).ctxs i) := by
  intro i hi
  cases e with
  | tick now =>
    rcases (ipReassTick_ctxs r now).1 i with hc | hc
    · change P ((ipReassTick r now).ctxs i)
      change ((ipReassTick r now).ctxs i).inUse = true at hi
      rw [hc] at hi ⊢
      exact hold i hi
    · change ((ipReassTick r now).ctxs i).inUse = true at hi
      rw [hc] at hi
      cases hi
  | frag now dev heap d =>
    change P ((ipReassInput r now dev heap d).ctxs i)
    change ((ipReassInput r now dev heap d).ctxs i).inUse = true at hi
    have hupdate {j : Fin ipReassCtxs} {c : ReassCtx} (hc : c.inUse = true → P c)
        (hctxs : (ipReassInput r now dev heap d).ctxs = Function.update r.ctxs j c) :
        P ((ipReassInput r now dev heap d).ctxs i) := by
      rw [hctxs, Function.update_apply] at hi ⊢
      split at hi
      · rename_i hij
        rw [if_pos hij]
        exact hc hi
      · rename_i hij
        rw [if_neg hij]
        exact hold i hi
    cases ipReassInput_input ok now dev heap d with
    | ignored _ hctxs =>
      rw [hctxs] at hi ⊢
      exact hold i hi
    | dropped _ _ _ hctxs => exact hupdate (fun h => by cases h) hctxs
    | completed _ _ _ _ hctxs => exact hupdate (fun h => by cases h) hctxs
    | kept hgood hpick hok hopen hctxs =>
      exact hupdate (fun _ => hadd _ _ _ _ _ _ _ rfl hgood hpick hok hopen) hctxs

/-! ### What the contexts hold -/

/-- Every context in use holds some fragments. -/
def Gathered (r : Reass) : Prop := ∀ i, (r.ctxs i).inUse = true → ∃ fs, Collects fs (r.ctxs i)

theorem Gathered.separated (hr : Gathered r) (i : Fin ipReassCtxs)
    (hi : (r.ctxs i).inUse = true) : Separated (r.ctxs i).ranges := by
  obtain ⟨fs, hcol⟩ := hr i hi
  exact hcol.separated

theorem Gathered.picked (hr : Gathered r) (h : Picks r now dev heap k i c) :
    ∃ fs, Collects fs c := by
  cases h with
  | found h => exact hr _ (ctxFind_some h).1
  | free => exact ⟨[], Collects.empty rfl rfl rfl⟩
  | evicted => exact ⟨[], Collects.empty rfl rfl rfl⟩

theorem Gathered.added (hr : Gathered r) (hgood : d.wellFormed = true)
    (hpick : Picks r now dev heap d.key i c) (hadd : ctxAdd c d = .ok c') :
    ∃ fs, Collects fs c' := by
  obtain ⟨fs, hcol⟩ := hr.picked hpick
  obtain ⟨ranges, htakes, rfl⟩ := ctxAdd_ok.mp hadd
  exact ⟨fs ++ [d], hcol.add hpick.inUse.2.symm (Datagram.wellFormed_pos hgood) htakes⟩

theorem Gathered.step (hr : Gathered r) (ok : TableOk r) (e : ReassEvent) :
    Gathered (reassStep r e) := by
  refine contexts_step (P := fun c => ∃ fs, Collects fs c) ok e hr ?_
  intro now dev heap d i c c' _ hgood hpick hadd _
  exact hr.added hgood hpick hadd

/-- The tables reached from an empty one by steps that are allowed. -/
abbrev Reass.Reach (allowed : Reass → ReassEvent → Prop) : Reass → Prop :=
  Run.Reach (fun r => ∃ stats, r = Reass.init stats) allowed reassStep

theorem Reass.Reach.sound {allowed : Reass → ReassEvent → Prop} (h : Reass.Reach allowed r) :
    TableOk r ∧ Gathered r := by
  refine Run.Reach.invariant (fun r => TableOk r ∧ Gathered r) ?_ ?_ h
  · rintro _ ⟨stats, rfl⟩
    refine ⟨TableOk.init stats, ?_⟩
    intro i hi
    cases hi
  · rintro s e _ ⟨ok, hr⟩
    exact ⟨ok.step e, hr.step ok e⟩

end PacketForge
