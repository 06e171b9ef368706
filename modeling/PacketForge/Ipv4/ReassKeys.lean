import PacketForge.Ipv4.ReassComplete
import Mathlib.Data.Finset.Card
import Mathlib.Data.Fintype.Fin

/-!
Reassembly of one key does not depend on the others. What the table does for a
key is a machine of its own, `keyStep`, that sees one context or none: as long as
no context is evicted, the table is a family of such machines that run side by
side, whatever slots their contexts stand in.
-/

namespace PacketForge

open Function

open Intervals

abbrev Handed := Option DevIdx × List UInt8

/-! ### The machine of one key -/

/-- What becomes of a context that is given a fragment, and what is handed up. -/
def keyTake (c : ReassCtx) (d : Datagram) : Option ReassCtx × List Handed :=
  match ctxAdd c d with
  | .error _ => (none, [])
  | .ok c => if c.complete then (none, [(c.dev, c.datagram)]) else (some c, [])

/-- A step of the machine of a key. -/
def keyStep (k : ReassKey) (held : Option ReassCtx) : ReassEvent → Option ReassCtx × List Handed
  | .frag now dev heap d =>
    if d.key = k ∧ d.wellFormed then
      keyTake (held.getD (ReassCtx.fresh k dev (now + ipReassTimeoutMs) heap)) d
    else (held, [])
  | .tick now => (held.filter (now < ·.deadline), [])

section KeyStep

variable {k : ReassKey} {held : Option ReassCtx} {now : Nat} {dev : Option DevIdx}
  {heap : Nat → UInt8} {d : Datagram}

theorem keyStep_own (hk : d.key = k) (hgood : d.wellFormed = true) :
    keyStep k held (.frag now dev heap d) =
      keyTake (held.getD (ReassCtx.fresh k dev (now + ipReassTimeoutMs) heap)) d :=
  if_pos ⟨hk, hgood⟩

theorem keyStep_other (hk : d.key ≠ k) : keyStep k held (.frag now dev heap d) = (held, []) :=
  if_neg fun h => hk h.1

theorem keyStep_bad (hbad : d.wellFormed = false) :
    keyStep k held (.frag now dev heap d) = (held, []) :=
  if_neg fun h => Bool.false_ne_true (hbad.symm.trans h.2)

end KeyStep

def Reass.held (r : Reass) (k : ReassKey) : Option ReassCtx := (ctxFind r k).map r.ctxs

def Reass.liveKeys (r : Reass) : Finset ReassKey :=
  (Finset.univ.filter fun i => (r.ctxs i).inUse).image fun i => (r.ctxs i).key

/-- There is room in the table for the keys that are live when the event happens. -/
def HasRoom (r : Reass) : ReassEvent → Prop
  | .frag _ _ _ d => d.wellFormed → (insert d.key r.liveKeys).card ≤ ipReassCtxs
  | .tick _ => True

instance (r : Reass) : (e : ReassEvent) → Decidable (HasRoom r e)
  | .frag _ _ _ d => inferInstanceAs (Decidable (d.wellFormed → _ ≤ _))
  | .tick _ => inferInstanceAs (Decidable True)

section Held

variable {r r' : Reass} {k : ReassKey} {i : Fin ipReassCtxs} {c c' : ReassCtx} {d : Datagram}
  {now : Nat} {dev : Option DevIdx} {heap : Nat → UInt8}

theorem TableOk.held_eq (ok : TableOk r) (hi : (r.ctxs i).inUse = true)
    (hk : (r.ctxs i).key = k) : r.held k = some (r.ctxs i) := by
  rw [Reass.held, ok.ctxFind_eq hi hk]
  rfl

theorem held_eq_none (h : ∀ i, (r.ctxs i).inUse = true → (r.ctxs i).key ≠ k) :
    r.held k = none := by
  cases hf : ctxFind r k with
  | none => rw [Reass.held, hf]; rfl
  | some i =>
    obtain ⟨hi, hk⟩ := ctxFind_some hf
    exact absurd hk (h i hi)

/-- With room for the fragment's key, it takes no context away from another one. -/
theorem HasRoom.not_full (ok : TableOk r) (hroom : HasRoom r (.frag now dev heap d))
    (hgood : d.wellFormed = true) (hnone : ctxFind r d.key = none) :
    ¬ ∀ j, (r.ctxs j).inUse = true := by
  intro hfull
  have hnew : d.key ∉ r.liveKeys := by
    intro hmem
    obtain ⟨j, hj, hk⟩ := Finset.mem_image.mp hmem
    exact ctxFind_none hnone j (hfull j) hk
  have hcard : r.liveKeys.card = ipReassCtxs := by
    have hall : (Finset.univ.filter fun i => (r.ctxs i).inUse = true) = Finset.univ :=
      Finset.filter_true_of_mem fun j _ => hfull j
    rw [Reass.liveKeys, hall, Finset.card_image_of_injective, Finset.card_univ, Fintype.card_fin]
    intro i j hij
    exact ok.unique i j (hfull i) (hfull j) hij
  have hle := hroom hgood
  rw [Finset.card_insert_of_notMem hnew, hcard] at hle
  exact Nat.not_succ_le_self _ hle

/-- The context that a fragment goes to is that of its key, or a new one. -/
theorem Picks.eq_held (h : Picks r now dev heap k i c) :
    c = (r.held k).getD (ReassCtx.fresh k dev (now + ipReassTimeoutMs) heap) := by
  cases h with
  | found h => rw [Reass.held, h]; rfl
  | free h => rw [Reass.held, h]; rfl
  | evicted h => rw [Reass.held, h]; rfl

theorem Picks.held_update (ok : TableOk r) (hpick : Picks r now dev heap k i c)
    (hctxs : r'.ctxs = update r.ctxs i c') :
    (c'.inUse = false → r'.held k = none) ∧
      (TableOk r' → c'.inUse = true → c'.key = k → r'.held k = some c') := by
  have hat : r'.ctxs i = c' := by rw [hctxs, update_self]
  constructor
  · intro hidle
    refine held_eq_none fun j hj hk => ?_
    by_cases hji : j = i
    · rw [hji, hat, hidle] at hj
      cases hj
    · rw [hctxs, update_of_ne hji] at hj hk
      exact hji (hpick.other ok j hj hk)
  · intro ok' huse hkey
    rw [ok'.held_eq (i := i) (hat.symm ▸ huse) (hat.symm ▸ hkey), hat]

theorem Picks.held_other {k' : ReassKey} (hk : k' ≠ k) (hpick : Picks r now dev heap k i c)
    (hfull : ctxFind r k = none → ¬ ∀ j, (r.ctxs j).inUse = true) (ok' : TableOk r')
    (hctxs : r'.ctxs = update r.ctxs i c')
    (hnew : c'.inUse = true → c'.key = k) : r'.held k' = r.held k' := by
  have hold : (r.ctxs i).inUse = true → (r.ctxs i).key ≠ k' := by
    intro hi hik
    cases hpick with
    | found h => exact hk (hik.symm.trans (ctxFind_some h).2)
    | free _ hfree =>
      rw [hfree] at hi
      cases hi
    | evicted hnone hall => exact hfull hnone hall
  obtain ⟨hfind, hsame⟩ := ctxFind_update ok' hctxs hold fun hc he => hk (he.symm.trans (hnew hc))
  rw [Reass.held, Reass.held, hfind]
  cases hf : ctxFind r k' with
  | none => rfl
  | some j => exact congrArg some (hsame j hf)

end Held

/-! ### What a tick does to a slot -/

def ReassCtx.expire (now : Nat) (c : ReassCtx) : ReassCtx :=
  if !c.inUse ∨ now < c.deadline then c else ReassCtx.zero

theorem ReassCtx.expire_expire (now : Nat) (c : ReassCtx) :
    (c.expire now).expire now = c.expire now := by
  by_cases h : !c.inUse ∨ now < c.deadline
  · have hkeep : c.expire now = c := if_pos h
    rw [hkeep, hkeep]
  · have hzero : c.expire now = ReassCtx.zero := if_neg h
    rw [hzero]
    rfl

theorem ipReassExpire_ctxs (now : Nat) (r : Reass) (i : Fin ipReassCtxs) :
    (ipReassExpire now r i).ctxs = update r.ctxs i ((r.ctxs i).expire now) := by
  unfold ipReassExpire ReassCtx.expire
  simp only
  split
  · exact (update_eq_self i r.ctxs).symm
  · split <;> rfl

theorem ipReassTick_at (r : Reass) (now : Nat) (i : Fin ipReassCtxs) :
    (ipReassTick r now).ctxs i = (r.ctxs i).expire now := by
  -- a slot is as it was before the tick, or as its visit left it
  refine Slots.each_all (f := ipReassExpire now)
    (P := fun s => ∀ j, s.ctxs j = r.ctxs j ∨ s.ctxs j = (r.ctxs j).expire now)
    (Q := fun j s => s.ctxs j = (r.ctxs j).expire now) ?_ ?_ ?_ (fun j => Or.inl rfl) i
  · intro s j hs l
    rw [ipReassExpire_ctxs, update_apply]
    split
    · rename_i hlj
      subst hlj
      rcases hs l with h | h
      · exact Or.inr (by rw [h])
      · exact Or.inr (by rw [h, ReassCtx.expire_expire])
    · exact hs l
  · intro s j hs
    rw [ipReassExpire_ctxs, update_self]
    rcases hs j with h | h
    · rw [h]
    · rw [h, ReassCtx.expire_expire]
  · intro s j l hs hj
    rw [ipReassExpire_ctxs, update_apply]
    split
    · rename_i hjl
      rw [← hjl, hj, ReassCtx.expire_expire]
    · exact hj

theorem held_tick {r : Reass} (ok : TableOk r) (now : Nat) (k : ReassKey) :
    (ipReassTick r now).held k = (r.held k).filter (now < ·.deadline) := by
  cases hf : ctxFind r k with
  | none =>
    have hnone : (ipReassTick r now).held k = none := by
      refine held_eq_none fun i hi => ?_
      rw [ipReassTick_at, ReassCtx.expire] at hi ⊢
      split at hi
      · rename_i hkeep
        rw [if_pos hkeep]
        exact ctxFind_none hf i hi
      · cases hi
    rw [hnone, Reass.held, hf]
    rfl
  | some i =>
    obtain ⟨hi, hk⟩ := ctxFind_some hf
    have hat := ipReassTick_at r now i
    rw [ok.held_eq hi hk, Option.filter_some]
    unfold ReassCtx.expire at hat
    rw [hi] at hat
    by_cases hlive : now < (r.ctxs i).deadline
    · rw [if_pos (Or.inr hlive)] at hat
      rw [if_pos (decide_eq_true hlive),
        (ok.tick now).held_eq (i := i) (by rw [hat, hi]) (by rw [hat, hk]), hat]
    · rw [if_neg (by simp [hlive])] at hat
      rw [if_neg (by simp [hlive])]
      refine held_eq_none fun j hj hjk => ?_
      -- only the slot that expired had the key
      have hji : j = i := by
        have hback := ipReassTick_at r now j
        unfold ReassCtx.expire at hback
        split at hback
        · rw [hback] at hj hjk
          exact ok.unique j i hj hi (hjk.trans hk.symm)
        · rw [hback] at hj
          cases hj
      rw [hji, hat] at hj
      cases hj

/-! ### The table as a family of machines -/

/-- What an event hands up. -/
def handsUp (r : Reass) (e : ReassEvent) : List Handed :=
  (reassStep r e).delivered.drop r.delivered.length

/-- A table in order that knows what its contexts hold steps as the machine of
every key does. -/
theorem reassStep_key {r : Reass} (ok : TableOk r) (hr : Gathered r) {e : ReassEvent}
    (hroom : HasRoom r e) (k : ReassKey) :
    (reassStep r e).held k = (keyStep k (r.held k) e).1 ∧
      (handsUp r e).filter (ipKey ·.2 = k) = (keyStep k (r.held k) e).2 := by
  have ok' := ok.step e
  cases e with
  | tick now =>
    refine ⟨held_tick ok now k, ?_⟩
    rw [handsUp, reassStep, (ipReassTick_ctxs r now).2, List.drop_length]
    rfl
  | frag now dev heap d =>
    unfold handsUp
    unfold reassStep at ok' ⊢
    have hnothing {x : Reass} (hdel : x.delivered = r.delivered) :
        (x.delivered.drop r.delivered.length).filter (ipKey ·.2 = k) = [] := by
      rw [hdel, List.drop_length]
      rfl
    have hidle : ReassCtx.zero.inUse = true → ReassCtx.zero.key = d.key := by
      intro h
      cases h
    cases ipReassInput_input ok now dev heap d with
    | ignored hbad hctxs hdel =>
      rw [keyStep_bad hbad, hnothing hdel, Reass.held, Reass.held, ctxFind, hctxs]
      exact ⟨rfl, rfl⟩
    | dropped hgood hpick hadd hctxs hdel =>
      rw [hnothing hdel]
      by_cases hk : d.key = k
      · subst hk
        rw [keyStep_own rfl hgood, ← hpick.eq_held, keyTake, hadd]
        exact ⟨(hpick.held_update ok hctxs).1 rfl, rfl⟩
      · rw [keyStep_other hk]
        exact ⟨hpick.held_other (Ne.symm hk) (hroom.not_full ok hgood) ok' hctxs hidle, rfl⟩
    | kept hgood hpick hadd hopen hctxs hdel =>
      obtain ⟨huse, hkey⟩ := ctxAdd_inUse hadd
      rw [hpick.inUse.1] at huse
      rw [hpick.inUse.2] at hkey
      rw [hnothing hdel]
      by_cases hk : d.key = k
      · subst hk
        rw [keyStep_own rfl hgood, ← hpick.eq_held, keyTake, hadd]
        simp only [hopen, Bool.false_eq_true, if_false]
        exact ⟨(hpick.held_update ok hctxs).2 ok' huse hkey, trivial⟩
      · rw [keyStep_other hk]
        exact ⟨hpick.held_other (Ne.symm hk) (hroom.not_full ok hgood) ok' hctxs fun _ => hkey, rfl⟩
    | completed hgood hpick hadd hdone hctxs hdel =>
      obtain ⟨fs, hcol⟩ := hr.added hgood hpick hadd
      obtain ⟨-, -, -, hkey, -⟩ := hcol.reassembled hdone
      rw [(ctxAdd_inUse hadd).2, hpick.inUse.2] at hkey
      rw [hdel, List.drop_left]
      by_cases hk : d.key = k
      · subst hk
        rw [keyStep_own rfl hgood, ← hpick.eq_held, keyTake, hadd]
        simp only [hdone, if_true]
        refine ⟨(hpick.held_update ok hctxs).1 rfl, List.filter_eq_self.mpr fun x hx => ?_⟩
        rw [List.mem_singleton.mp hx]
        exact decide_eq_true hkey
      · rw [keyStep_other hk]
        refine ⟨hpick.held_other (Ne.symm hk) (hroom.not_full ok hgood) ok' hctxs hidle,
          List.filter_eq_nil_iff.mpr fun x hx => ?_⟩
        rw [List.mem_singleton.mp hx, hkey]
        exact fun h => hk (of_decide_eq_true h)

/-! ### What `malloc` leaves in a buffer does not matter -/

/-- The contexts differ at most in bytes that no fragment wrote. -/
def ReassCtx.Same (c c' : ReassCtx) : Prop :=
  ∃ p, c' = { c with payload := p } ∧ ∀ x, Covers c.ranges x → p x = c.payload x

section Same

variable {c c' : ReassCtx} {d : Datagram} {p : Nat → UInt8}

theorem ctxAdd_payload (c : ReassCtx) (d : Datagram) (p : Nat → UInt8) :
    ctxAdd { c with payload := p } d =
      (ctxAdd c d).map fun c' => { c' with payload := copyPayload p d } := by
  have hpin : ({ c with payload := p } : ReassCtx).pin d = { c.pin d with payload := p } := by
    unfold ReassCtx.pin
    split <;> rfl
  unfold ctxAdd
  rw [hpin]
  simp only
  split
  · rfl
  split
  · rfl
  split
  · rfl
  cases rangesInsert c.ranges d.range <;> rfl

theorem ReassCtx.datagram_payload (hdone : c.complete = true)
    (hp : ∀ x, Covers c.ranges x → p x = c.payload x) :
    ({ c with payload := p } : ReassCtx).datagram = c.datagram := by
  obtain ⟨-, total, htotal, hranges⟩ := ReassCtx.complete_iff.mp hdone
  have hbytes : (List.range total).map p = (List.range total).map c.payload := by
    refine List.map_congr_left fun x hx => hp x ?_
    rw [hranges]
    exact ⟨(0, total), List.mem_singleton_self _, Nat.zero_le x, List.mem_range.mp hx⟩
  unfold ReassCtx.datagram
  simp only [htotal, Option.getD_some, hbytes]

/-- A fragment does the same to both. -/
theorem keyTake_same (hsame : c.Same c') (hsep : Separated c.ranges) (hgood : d.wellFormed = true) :
    Option.Rel ReassCtx.Same (keyTake c d).1 (keyTake c' d).1 ∧
      (keyTake c d).2 = (keyTake c' d).2 := by
  obtain ⟨p, rfl, hp⟩ := hsame
  unfold keyTake
  rw [ctxAdd_payload c d p]
  cases hadd : ctxAdd c d with
  | error s => exact ⟨.none, rfl⟩
  | ok b =>
    have hwritten (x : Nat) (hx : Covers b.ranges x) : copyPayload p d x = b.payload x := by
      obtain ⟨ranges, htakes, rfl⟩ := ctxAdd_ok.mp hadd
      have hpin : (c.pin d).payload = c.payload := by
        unfold ReassCtx.pin
        split <;> rfl
      have hcov := (rangesInsert_some (Datagram.wellFormed_pos hgood) hsep htakes.inserted).2.2 x
      change copyPayload p d x = copyPayload (c.pin d).payload d x
      unfold copyPayload
      split
      · rfl
      · rename_i hout
        rw [hpin]
        exact hp x ((hcov.mp hx).resolve_right hout)
    have hcomplete : ({ b with payload := copyPayload p d } : ReassCtx).complete = b.complete := rfl
    simp only [Except.map, hcomplete]
    split
    · rename_i hdone
      exact ⟨.none, by rw [ReassCtx.datagram_payload hdone hwritten]⟩
    · exact ⟨.some ⟨_, rfl, hwritten⟩, rfl⟩

end Same

/-! ### Two runs -/

/-- `es'` is `es` without the fragments of the other keys. What `malloc` leaves
in the buffers may differ. -/
inductive Alone (k : ReassKey) : List ReassEvent → List ReassEvent → Prop where
  | nil : Alone k [] []
  | tick {es es' : List ReassEvent} (now : Nat) (h : Alone k es es') :
      Alone k (.tick now :: es) (.tick now :: es')
  | own {es es' : List ReassEvent} (now : Nat) (dev : Option DevIdx) (heap heap' : Nat → UInt8)
      (d : Datagram) (hd : d.key = k) (h : Alone k es es') :
      Alone k (.frag now dev heap d :: es) (.frag now dev heap' d :: es')
  | other {es es' : List ReassEvent} (now : Nat) (dev : Option DevIdx) (heap : Nat → UInt8)
      (d : Datagram) (hd : d.key ≠ k) (h : Alone k es es') :
      Alone k (.frag now dev heap d :: es) es'

def ReassEvent.now : ReassEvent → Nat
  | .frag now _ _ _ => now
  | .tick now => now

def deliveries (k : ReassKey) : Reass → List ReassEvent → List (Nat × Handed)
  | _, [] => []
  | r, e :: es =>
    ((handsUp r e).filter (ipKey ·.2 = k)).map (e.now, ·) ++ deliveries k (reassStep r e) es

/-- The run with all keys and the run with one key side by side. -/
structure Alike (k : ReassKey) (r r' : Reass) : Prop where
  ok : TableOk r
  gathered : Gathered r
  ok' : TableOk r'
  gathered' : Gathered r'
  only : ∀ i, (r'.ctxs i).inUse = true → (r'.ctxs i).key = k
  held : Option.Rel ReassCtx.Same (r.held k) (r'.held k)

namespace Alike

variable {k : ReassKey} {r r' : Reass}

theorem init (k : ReassKey) (stats stats' : Stats) :
    Alike k (Reass.init stats) (Reass.init stats') where
  ok := TableOk.init stats
  gathered := fun _ hi => by cases hi
  ok' := TableOk.init stats'
  gathered' := fun _ hi => by cases hi
  only := fun _ hi => by cases hi
  held := by
    rw [Reass.held, Reass.held, ctxFind_init, ctxFind_init]
    exact .none

theorem hasRoom (h : Alike k r r') {e : ReassEvent}
    (he : ∀ now dev heap d, e = .frag now dev heap d → d.key = k) : HasRoom r' e := by
  cases e with
  | tick now => trivial
  | frag now dev heap d =>
    intro _
    have hd := he now dev heap d rfl
    have hsub : insert d.key r'.liveKeys ⊆ {k} := by
      intro x hx
      rcases Finset.mem_insert.mp hx with rfl | hx
      · exact Finset.mem_singleton.mpr hd
      · obtain ⟨i, hi, rfl⟩ := Finset.mem_image.mp hx
        exact Finset.mem_singleton.mpr (h.only i (Finset.mem_filter.mp hi).2)
    calc (insert d.key r'.liveKeys).card ≤ ({k} : Finset ReassKey).card := Finset.card_le_card hsub
      _ = 1 := Finset.card_singleton k
      _ ≤ ipReassCtxs := Nat.succ_le_of_lt ipReassCtxs_pos

/-- The context that a fragment of the key goes to has its ranges in order. -/
theorem separated (h : Alike k r r') (dev : Option DevIdx) (deadline : Nat) (heap : Nat → UInt8) :
    Separated ((r.held k).getD (ReassCtx.fresh k dev deadline heap)).ranges := by
  cases hf : ctxFind r k with
  | none =>
    rw [Reass.held, hf]
    exact ⟨fun _ hx => absurd hx List.not_mem_nil, .nil⟩
  | some i =>
    rw [Reass.held, hf]
    exact h.gathered.separated i (ctxFind_some hf).1

/-- A fragment of another key changes nothing that concerns this one. -/
theorem other (h : Alike k r r') {now : Nat} {dev : Option DevIdx} {heap : Nat → UInt8}
    {d : Datagram} (hd : d.key ≠ k) (hroom : HasRoom r (.frag now dev heap d)) :
    Alike k (reassStep r (.frag now dev heap d)) r' ∧
      (handsUp r (.frag now dev heap d)).filter (ipKey ·.2 = k) = [] := by
  obtain ⟨hheld, hup⟩ := reassStep_key h.ok h.gathered hroom k
  rw [keyStep_other hd] at hheld hup
  refine ⟨⟨h.ok.step _, h.gathered.step h.ok _, h.ok', h.gathered', h.only, ?_⟩, hup⟩
  rw [hheld]
  exact h.held

/-- Steps that the machine of the key does not tell apart. -/
theorem step (h : Alike k r r') {e e' : ReassEvent} (hroom : HasRoom r e)
    (he : ∀ now dev heap d, e' = .frag now dev heap d → d.key = k)
    (hkey : Option.Rel ReassCtx.Same (keyStep k (r.held k) e).1 (keyStep k (r'.held k) e').1 ∧
      (keyStep k (r.held k) e).2 = (keyStep k (r'.held k) e').2) :
    Alike k (reassStep r e) (reassStep r' e') ∧
      (handsUp r e).filter (ipKey ·.2 = k) = (handsUp r' e').filter (ipKey ·.2 = k) := by
  obtain ⟨hheld, hup⟩ := reassStep_key h.ok h.gathered hroom k
  obtain ⟨hheld', hup'⟩ := reassStep_key h.ok' h.gathered' (h.hasRoom he) k
  have honly := contexts_step (P := fun c => c.key = k) h.ok' e' h.only (by
    intro now dev heap d i c c' hev _ hpick hadd _
    rw [(ctxAdd_inUse hadd).2, hpick.inUse.2]
    exact he now dev heap d hev)
  refine ⟨⟨h.ok.step e, h.gathered.step h.ok e, h.ok'.step e', h.gathered'.step h.ok' e', honly,
    ?_⟩, ?_⟩
  · rw [hheld, hheld']
    exact hkey.1
  · rw [hup, hup']
    exact hkey.2

theorem own (h : Alike k r r') {now : Nat} {dev : Option DevIdx} {heap : Nat → UInt8}
    (heap' : Nat → UInt8) {d : Datagram} (hd : d.key = k)
    (hroom : HasRoom r (.frag now dev heap d)) :
    Alike k (reassStep r (.frag now dev heap d)) (reassStep r' (.frag now dev heap' d)) ∧
      (handsUp r (.frag now dev heap d)).filter (ipKey ·.2 = k) =
        (handsUp r' (.frag now dev heap' d)).filter (ipKey ·.2 = k) := by
  refine h.step hroom (fun _ _ _ _ hev => by cases hev; exact hd) ?_
  cases hgood : d.wellFormed with
  | false =>
    rw [keyStep_bad hgood, keyStep_bad hgood]
    exact ⟨h.held, rfl⟩
  | true =>
    rw [keyStep_own hd hgood, keyStep_own hd hgood]
    refine keyTake_same ?_ (h.separated _ _ _) hgood
    have hheld := h.held
    generalize r.held k = held at hheld ⊢
    generalize r'.held k = held' at hheld ⊢
    cases hheld with
    | some hsame => exact hsame
    | none => exact ⟨heap', rfl, fun x hx => absurd hx not_covers_nil⟩

theorem tick (h : Alike k r r') (now : Nat) :
    Alike k (reassStep r (.tick now)) (reassStep r' (.tick now)) ∧
      (handsUp r (.tick now)).filter (ipKey ·.2 = k) =
        (handsUp r' (.tick now)).filter (ipKey ·.2 = k) := by
  refine h.step trivial (fun _ _ _ _ hev => by cases hev) ⟨?_, rfl⟩
  have hheld := h.held
  change Option.Rel ReassCtx.Same ((r.held k).filter (now < ·.deadline))
    ((r'.held k).filter (now < ·.deadline))
  generalize r.held k = held at hheld ⊢
  generalize r'.held k = held' at hheld ⊢
  cases hheld with
  | none => exact .none
  | some hsame =>
    obtain ⟨p, rfl, hp⟩ := hsame
    rw [Option.filter_some, Option.filter_some]
    split
    · exact .some ⟨p, rfl, hp⟩
    · exact .none

/-- By induction on the events: the two runs stay alike and hand up the same. -/
theorem run (h : Alike k r r') {es es' : List ReassEvent} (halone : Alone k es es')
    (hroom : Run.Allowed HasRoom reassStep r es) : deliveries k r es = deliveries k r' es' := by
  induction halone generalizing r r' with
  | nil => rfl
  | tick now _ ih =>
    obtain ⟨hnext, hup⟩ := h.tick now
    rw [deliveries, deliveries, hup, ih hnext hroom.2]
  | own now dev heap heap' d hd _ ih =>
    obtain ⟨hnext, hup⟩ := h.own heap' hd hroom.1
    rw [deliveries, deliveries, hup, ih hnext hroom.2]
    rfl
  | other now dev heap d hd _ ih =>
    obtain ⟨hnext, hup⟩ := h.other hd hroom.1
    rw [deliveries, hup, ih hnext hroom.2]
    rfl

end Alike

/-- In a run in which there is always room for the live keys, no two contexts
have the same key, and what is handed up for a key, and when, is what the run
with the fragments of that key alone hands up. -/
theorem reassembly_keys_apart (k : ReassKey) (stats stats' : Stats) {es es' : List ReassEvent}
    (hroom : Run.Allowed HasRoom reassStep (Reass.init stats) es) (halone : Alone k es es') :
    (∀ n i j, let r := (es.take n).foldl reassStep (Reass.init stats)
      (r.ctxs i).inUse = true → (r.ctxs j).inUse = true → (r.ctxs i).key = (r.ctxs j).key → i = j) ∧
    deliveries k (Reass.init stats) es = deliveries k (Reass.init stats') es' := by
  constructor
  · intro n
    have hreach : Reass.Reach (fun _ _ => True) (Reass.init stats) := .start ⟨stats, rfl⟩
    have hnext := hreach.foldl (es.take n) (Run.Allowed.all _ _ _)
    exact (Reass.Reach.sound hnext).1.unique
  · exact (Alike.init k stats stats').run halone hroom

/-- A fragment of another datagram with the same addresses. -/
def strayBytes : List UInt8 := (sampleBytes 0x20 0 (List.replicate 8 9)).set 5 8

theorem strayBytes_hdrLen : ipHdrLen strayBytes = 20 := by decide +kernel

theorem strayBytes_length : strayBytes.length = 28 := by decide +kernel

def strayFrag : Datagram where
  bytes := strayBytes
  hdr_min := strayBytes_hdrLen.ge
  hdr_le := by
    rw [strayBytes_hdrLen, strayBytes_length]
    exact Nat.le_add_left 20 8
  len_lt := by
    rw [strayBytes_length]
    exact Nat.lt_of_sub_ne_zero (Nat.succ_ne_zero _)

/-- A datagram in two halves, with a fragment of another one in between. -/
def mixedHalves : List ReassEvent :=
  [sampleEvent 0 1 2, .frag 3 none (fun _ => 0) strayFrag, .tick 5, sampleEvent 0x20 0 1]

theorem mixedHalves_keys : (sampleFrag 0 1 2).key = (sampleFrag 0x20 0 1).key ∧
    strayFrag.key ≠ (sampleFrag 0x20 0 1).key := by
  decide +kernel

theorem reassembly_keys_apart_mixed :
    (deliveries (sampleFrag 0x20 0 1).key (Reass.init Stats.zero) mixedHalves).length = 1 ∧
      deliveries (sampleFrag 0x20 0 1).key (Reass.init Stats.zero) mixedHalves =
        deliveries (sampleFrag 0x20 0 1).key (Reass.init Stats.zero) halves := by
  have hroom : Run.Allowed HasRoom reassStep (Reass.init Stats.zero) mixedHalves := by
    decide +kernel
  have halone : Alone (sampleFrag 0x20 0 1).key mixedHalves halves :=
    .own 0 none _ _ _ mixedHalves_keys.1 (.other 3 none _ _ mixedHalves_keys.2
      (.tick 5 (.own 0 none _ _ _ rfl .nil)))
  refine ⟨by decide +kernel, ?_⟩
  exact (reassembly_keys_apart _ Stats.zero Stats.zero hroom halone).2

/-! ### A fragment beyond the buffer

The context is looked for, and made, before the size of the fragment is looked
at. Where the table is full, a fragment that is then dropped has already evicted
another datagram. -/

section TooBig

variable (r : Reass) (now : Nat) (dev : Option DevIdx) (heap : Nat → UInt8) (d : Datagram)

theorem ctxFor_other (j : Fin ipReassCtxs) (hj : j ≠ (ctxFor r now dev heap d).1) :
    (ctxFor r now dev heap d).2.ctxs j = r.ctxs j := by
  cases hfind : ctxFind r d.key with
  | some i => simp only [ctxFor, hfind]
  | none =>
    cases hfree : Slots.first fun i => !(r.ctxs i).inUse with
    | some i =>
      simp only [ctxFor, hfind, ctxAlloc, hfree] at hj ⊢
      exact (update_of_ne hj _ _).trans (update_of_ne hj _ _)
    | none =>
      simp only [ctxFor, hfind, ctxAlloc, hfree] at hj ⊢
      exact (update_of_ne hj _ _).trans
        ((update_of_ne hj _ _).trans (update_of_ne hj _ _))

/-- The slot a fragment goes to holds its key, is free, or is a victim of a
table that is full of other keys. -/
theorem ctxFor_slot :
    (r.ctxs (ctxFor r now dev heap d).1).key = d.key ∨
      (r.ctxs (ctxFor r now dev heap d).1).inUse = false ∨
      ∀ i, (r.ctxs i).inUse = true ∧ (r.ctxs i).key ≠ d.key := by
  unfold ctxFor
  cases hfind : ctxFind r d.key with
  | some i => exact Or.inl (ctxFind_some hfind).2
  | none =>
    unfold ctxAlloc
    cases hfree : Slots.first fun i => !(r.ctxs i).inUse with
    | some i => exact Or.inr (Or.inl (by simpa using Slots.first_some hfree))
    | none =>
      have hfull (i : Fin ipReassCtxs) : (r.ctxs i).inUse = true := by
        simpa using Slots.first_none hfree i
      exact Or.inr (Or.inr fun i => ⟨hfull i, ctxFind_none hfind i (hfull i)⟩)

variable {d}

theorem ipReassInput_tooBig (hgood : d.wellFormed = true) (hbig : ipReassMaxPayload < d.stop) :
    (ipReassInput r now dev heap d).ctxs =
      update r.ctxs (ctxFor r now dev heap d).1 ReassCtx.zero := by
  have hother := ctxFor_other r now dev heap d
  unfold ipReassInput
  rw [hgood]
  generalize ctxFor r now dev heap d = picked at hother ⊢
  obtain ⟨i, r1⟩ := picked
  have hadd : ctxAdd (r1.ctxs i) d = .error .ipReassTooBig := if_pos hbig
  simp only [Bool.not_true, Bool.false_eq_true, if_false, hadd]
  funext j
  change update r1.ctxs i ReassCtx.zero j = update r.ctxs i ReassCtx.zero j
  rcases eq_or_ne j i with rfl | hne
  · rw [update_self, update_self]
  · rw [update_of_ne hne, update_of_ne hne]
    exact hother j hne

/-- A fragment dropped for its size leaves the contexts of all other keys alone,
in any table, exactly if some context is free or has the fragment's key. -/
theorem tooBig_spares_others_iff (hgood : d.wellFormed = true)
    (hbig : ipReassMaxPayload < d.stop) :
    (∀ i, (r.ctxs i).inUse = true → (r.ctxs i).key ≠ d.key →
        (ipReassInput r now dev heap d).ctxs i = r.ctxs i) ↔
      ∃ i, (r.ctxs i).inUse = false ∨ (r.ctxs i).key = d.key := by
  rw [ipReassInput_tooBig r now dev heap hgood hbig]
  constructor
  · intro hspares
    by_contra hfull
    push Not at hfull
    -- the victim was in use, and is clear now
    set i := (ctxFor r now dev heap d).1
    have hin : (r.ctxs i).inUse = true := by simpa using (hfull i).1
    have hsame := hspares i hin (hfull i).2
    rw [Function.update_self] at hsame
    rw [← hsame] at hin
    cases hin
  · rintro ⟨i, hi⟩ j hj hkey
    rw [Function.update_of_ne]
    rintro rfl
    rcases ctxFor_slot r now dev heap d with hown | hfree | hfull
    · exact hkey hown
    · rw [hfree] at hj
      cases hj
    · rcases hi with hidle | hown
      · rw [(hfull i).1] at hidle
        cases hidle
      · exact (hfull i).2 hown

end TooBig

/-- A fragment of eight bytes with the identification `id`. -/
def keyedBytes (id hi lo : UInt8) : List UInt8 := (sampleBytes hi lo (List.replicate 8 1)).set 5 id

theorem keyedBytes_hdrLen (id hi lo : UInt8) : ipHdrLen (keyedBytes id hi lo) = 20 := by
  have hfirst :
      (keyedBytes id hi lo).getD 0 0 = (sampleBytes hi lo (List.replicate 8 1)).getD 0 0 := by
    rw [keyedBytes, List.getD_eq_getElem?_getD, List.getElem?_set_ne (Nat.succ_ne_zero 4),
      List.getD_eq_getElem?_getD]
  rw [ipHdrLen, hfirst]
  exact sampleBytes_hdrLen hi lo _

theorem keyedBytes_length (id hi lo : UInt8) : (keyedBytes id hi lo).length = 28 := by
  rw [keyedBytes, List.length_set, sampleBytes_length, List.length_replicate]

def keyedFrag (id hi lo : UInt8) : Datagram where
  bytes := keyedBytes id hi lo
  hdr_min := (keyedBytes_hdrLen id hi lo).ge
  hdr_le := by
    rw [keyedBytes_hdrLen, keyedBytes_length]
    exact Nat.le_add_left 20 8
  len_lt := by
    rw [keyedBytes_length]
    exact Nat.lt_of_sub_ne_zero (Nat.succ_ne_zero _)

/-- The table after the first fragments of `n` datagrams. -/
def crowded (n : Nat) : Reass :=
  ((List.range n).map fun id =>
    ReassEvent.frag 0 none (fun _ => 0) (keyedFrag (UInt8.ofNat id) 0x20 0)).foldl reassStep
      (Reass.init Stats.zero)

/-- With seven datagrams in the table there is room for a fragment that ends
beyond the buffer. -/
theorem tooBig_spares_others_iff_seven :
    (∀ i, ((crowded 7).ctxs i).inUse = true →
        ((crowded 7).ctxs i).key ≠ (keyedFrag 8 0x21 0xf4).key →
        (ipReassInput (crowded 7) 1 none (fun _ => 0) (keyedFrag 8 0x21 0xf4)).ctxs i =
          (crowded 7).ctxs i) ↔
      ∃ i, ((crowded 7).ctxs i).inUse = false ∨
        ((crowded 7).ctxs i).key = (keyedFrag 8 0x21 0xf4).key :=
  tooBig_spares_others_iff (crowded 7) 1 none (fun _ => 0) (by decide +kernel) (by decide +kernel)

/-- With eight it evicts the first of them. -/
theorem tooBig_evicts :
    Reass.Reach (fun _ _ => True) (crowded 8) ∧ (keyedFrag 8 0x21 0xf4).wellFormed = true ∧
      ipReassMaxPayload < (keyedFrag 8 0x21 0xf4).stop ∧
      ((crowded 8).ctxs 0).inUse = true ∧
      ((crowded 8).ctxs 0).key ≠ (keyedFrag 8 0x21 0xf4).key ∧
      ((ipReassInput (crowded 8) 1 none (fun _ => 0) (keyedFrag 8 0x21 0xf4)).ctxs 0).inUse =
        false ∧
      (ipReassInput (crowded 8) 1 none (fun _ => 0) (keyedFrag 8 0x21 0xf4)).stats .ipReassTooBig =
        1 := by
  have hreach : Reass.Reach (fun _ _ => True) (crowded 8) :=
    Run.Reach.foldl (.start ⟨Stats.zero, rfl⟩) _ (Run.Allowed.all _ _ _)
  exact ⟨hreach, by decide +kernel, by decide +kernel, by decide +kernel, by decide +kernel,
    by decide +kernel, by decide +kernel⟩

end PacketForge
