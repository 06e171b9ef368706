import PacketForge.Arp.Coherent
import Mathlib.Algebra.BigOperators.Fin

/-!
The ledger of parked packets. Every packet that was parked has been sent when
its address was resolved, was counted as dropped, or still waits; and those
sent for one next hop were sent in the order they were parked. The one change
that does not balance is the eviction of an entry with packets behind it.
-/

namespace PacketForge

open Checked

/-! ### Accounts -/

def flushedCount (acts : List ArpAct) : Nat :=
  acts.countP fun x => match x with | .flushed _ _ _ => true | _ => false

def parkedNow (c : ArpCache) : Nat := ∑ i, (c i).waitq.length

/-- The packets parked behind the resolution of an address, newest first. -/
def parkedFor (ip : UInt32) (acts : List ArpAct) : List WaitPkt :=
  acts.filterMap fun x =>
    match x with
    | .parked ip' q => if ip' = ip then some q else none
    | _ => none

/-- Those of them that were sent, newest first. -/
def flushedFor (ip : UInt32) (acts : List ArpAct) : List WaitPkt :=
  acts.filterMap fun x =>
    match x with | .flushed ip' _ q => if ip' = ip then some q else none | _ => none

def Balanced (k : ArpBook) : Prop :=
  k.queued = UInt64.ofNat (flushedCount k.acts) + k.drops + UInt64.ofNat (parkedNow k.entries)

/-- What was sent for an address, and then what still waits, is in the order in
which it was parked. -/
structure QueueOrder (k : ArpBook) : Prop where
  sent : ∀ ip, (flushedFor ip k.acts).Sublist (parkedFor ip k.acts)
  waiting : ∀ i, (k.entries i).state = .pending →
    ((k.entries i).waitq.reverse ++ flushedFor (k.entries i).ip k.acts).Sublist
      (parkedFor (k.entries i).ip k.acts)

theorem parkedNow_update (c : ArpCache) (i : ArpIdx) (e : ArpEntry) :
    parkedNow (Function.update c i e) + (c i).waitq.length = parkedNow c + e.waitq.length := by
  unfold parkedNow
  have hsplit (c : ArpCache) : ∑ j, (c j).waitq.length =
      (c i).waitq.length + ∑ j ∈ Finset.univ.erase i, (c j).waitq.length :=
    (Finset.add_sum_erase _ _ (Finset.mem_univ i)).symm
  have hrest : ∑ j ∈ Finset.univ.erase i, (Function.update c i e j).waitq.length =
      ∑ j ∈ Finset.univ.erase i, (c j).waitq.length := by
    refine Finset.sum_congr rfl fun j hj => ?_
    rw [Function.update_of_ne (Finset.ne_of_mem_erase hj)]
  rw [hsplit (Function.update c i e), hsplit c, hrest, Function.update_self]
  omega

theorem flushedCount_flushed (ip : UInt32) (dev : DevIdx) (qs : List WaitPkt) (acts : List ArpAct) :
    flushedCount ((qs.map (.flushed ip dev)).reverse ++ acts) = qs.length + flushedCount acts := by
  rw [← List.map_reverse, ← qs.length_reverse]
  induction qs.reverse with
  | nil => simp
  | cons q qs ih =>
    rw [List.map_cons, List.cons_append, flushedCount, List.countP_cons_of_pos rfl,
      ← flushedCount, ih, List.length_cons]
    omega

theorem parkedFor_flushed (ip ip' : UInt32) (dev : DevIdx) (qs : List WaitPkt)
    (acts : List ArpAct) :
    parkedFor ip ((qs.map (.flushed ip' dev)).reverse ++ acts) = parkedFor ip acts := by
  rw [← List.map_reverse]
  induction qs.reverse with
  | nil => rfl
  | cons q qs ih => exact ih

theorem flushedFor_flushed (ip ip' : UInt32) (dev : DevIdx) (qs : List WaitPkt)
    (acts : List ArpAct) :
    flushedFor ip ((qs.map (.flushed ip' dev)).reverse ++ acts) =
      (if ip' = ip then qs.reverse else []) ++ flushedFor ip acts := by
  rw [← List.map_reverse]
  induction qs.reverse with
  | nil => simp
  | cons q qs ih =>
    by_cases hip : ip' = ip
    · simp only [hip, if_true] at ih ⊢
      rw [List.map_cons, List.cons_append, flushedFor, List.filterMap_cons_some (by simp; rfl),
        ← flushedFor, ih]
      rfl
    · simp only [hip, if_false] at ih ⊢
      rw [List.map_cons, List.cons_append, flushedFor, List.filterMap_cons_none (by simp [hip]),
        ← flushedFor, ih]

/-! ### What is missing -/

/-- The parked packets that were neither sent nor counted as dropped and do not
wait any more. -/
def missing (k : ArpBook) : UInt64 :=
  k.queued - (UInt64.ofNat (flushedCount k.acts) + k.drops + UInt64.ofNat (parkedNow k.entries))

theorem balanced_iff (k : ArpBook) : Balanced k ↔ missing k = 0 := by
  unfold Balanced missing
  constructor
  · intro h
    grind
  · intro h
    grind

section Turns

variable {k k' : ArpBook}

/-- A change of one entry that queued `q` packets, dropped `d` and sent `f`. -/
theorem missing_shift {m : ArpBook} {q d f : Nat} {i : ArpIdx} {e : ArpEntry}
    (hentries : m.entries = Function.update k.entries i e)
    (hq : m.queued = k.queued + UInt64.ofNat q) (hd : m.drops = k.drops + UInt64.ofNat d)
    (hf : flushedCount m.acts = f + flushedCount k.acts) :
    missing m + UInt64.ofNat (f + d + e.waitq.length) =
      missing k + UInt64.ofNat (q + (k.entries i).waitq.length) := by
  have hn' := congrArg UInt64.ofNat (parkedNow_update k.entries i e)
  unfold missing
  rw [hq, hd, hf, hentries]
  simp only [UInt64.ofNat_add] at hn' ⊢
  grind

theorem missing_note {x : ArpAct} (hx : flushedCount (x :: k.acts) = flushedCount k.acts) :
    missing (k.note x) = missing k := by
  unfold missing
  change _ - (UInt64.ofNat (flushedCount (x :: k.acts)) + _ + _) = _
  rw [hx]
  rfl

/-- What the entry that is written over held is sent or lost. -/
theorem missing_resolve (i : ArpIdx) {e : ArpEntry} (dev : DevIdx) (mac : Mac) (now : Nat)
    (hq : e.state ≠ .pending → e.waitq = []) :
    missing (k.resolve i e dev mac now) + UInt64.ofNat e.waitq.length =
      missing k + UInt64.ofNat (k.entries i).waitq.length := by
  have hempty : (if e.state = .pending then [] else e.waitq) = [] := by
    split
    · rfl
    · rename_i hst
      exact hq hst
  have hflushed : flushedCount (k.resolve i e dev mac now).acts =
      e.waitq.length + flushedCount k.acts := by
    unfold ArpBook.resolve
    simp only
    split
    · exact flushedCount_flushed e.ip dev e.waitq k.acts
    · rename_i hst
      rw [hq hst]
      simp
  have hshift := missing_shift (m := k.resolve i e dev mac now) (q := 0) (d := 0) rfl
    (UInt64.add_zero _).symm (UInt64.add_zero _).symm hflushed
  simpa [hempty] using hshift

theorem missing_openEntry (hbase : k.base.waitq = []) (dev : DevIdx) (nextHop : UInt32)
    (now : Nat) :
    missing (k.openEntry dev nextHop now) =
      missing k + UInt64.ofNat (k.entries k.slot).waitq.length := by
  have hf : flushedCount (k.openEntry dev nextHop now).acts = 0 + flushedCount k.acts := by
    simp [ArpBook.openEntry, ArpBook.note, ArpBook.setEntry, flushedCount]
  have hshift := missing_shift (m := k.openEntry dev nextHop now) (q := 0) (d := 0) rfl
    (UInt64.add_zero _).symm (UInt64.add_zero _).symm hf
  simpa [hbase] using hshift

theorem missing_park (i : ArpIdx) (q : WaitPkt) : missing (k.park i q) = missing k := by
  have hf : flushedCount (k.park i q).acts = 0 + flushedCount k.acts := by
    simp [ArpBook.park, flushedCount]
  by_cases hfull : (k.entries i).waitq.length ≥ arpWaitqMax
  · have hpos : 8 ≤ (k.entries i).waitq.length := hfull
    have hdrops : (k.park i q).drops = k.drops + UInt64.ofNat 1 := if_pos hfull
    have hshift := missing_shift (m := k.park i q) (q := 1) rfl rfl hdrops hf
    simp only [hfull, if_true, List.length_append, List.length_tail, List.length_singleton]
      at hshift
    rw [show 0 + 1 + ((k.entries i).waitq.length - 1 + 1) = 1 + (k.entries i).waitq.length by omega]
      at hshift
    exact (UInt64.add_left_inj _).mp hshift
  · have hdrops : (k.park i q).drops = k.drops + UInt64.ofNat 0 :=
      (if_neg hfull).trans (UInt64.add_zero _).symm
    have hshift := missing_shift (m := k.park i q) (q := 1) rfl rfl hdrops hf
    simp only [hfull, if_false, List.length_append, List.length_singleton] at hshift
    rw [show 0 + 0 + ((k.entries i).waitq.length + 1) = 1 + (k.entries i).waitq.length by omega]
      at hshift
    exact (UInt64.add_left_inj _).mp hshift

theorem missing_visit {now : Nat} (hv : ArpVisit now k k') : missing k' = missing k := by
  have hzero (x : UInt64) : x = x + UInt64.ofNat 0 := (UInt64.add_zero x).symm
  cases hv with
  | expire i hst =>
    have hshift :=
      missing_shift (m := k.expire i) (q := 0) (d := 0) (f := 0) rfl (hzero _) (hzero _)
        (Nat.zero_add _).symm
    simp only [Nat.zero_add] at hshift
    exact (UInt64.add_left_inj _).mp hshift
  | giveUp i hst hmax =>
    have hshift := missing_shift (m := k.giveUp i) (q := 0) (f := 0) rfl (hzero _) rfl
      (Nat.zero_add _).symm
    simp only [Nat.zero_add, List.length_nil, Nat.add_zero] at hshift
    exact (UInt64.add_left_inj _).mp hshift
  | retry i dev hst hmax hdev =>
    have hf : flushedCount (k.retry i dev now).acts = 0 + flushedCount k.acts := by
      simp [ArpBook.retry, ArpBook.note, ArpBook.setEntry, flushedCount]
    have hshift :=
      missing_shift (m := k.retry i dev now) (q := 0) (d := 0) rfl (hzero _) (hzero _) hf
    simp only [Nat.zero_add] at hshift
    exact (UInt64.add_left_inj _).mp hshift

def NeedsEntry (k : ArpBook) : ArpEvent → Prop
  | .input devs _ dev p => ∃ q, arpReads p q ∧ q.spa ≠ 0 ∧ arpLookup k.entries q.spa = none ∧
      q.forUs (devs dev) = true
  | .resolve _ _ _ nextHop _ => arpLookup k.entries nextHop = none
  | .tick _ _ => False

/-- The call evicts an entry that has packets parked behind it. -/
def EvictsParked (k : ArpBook) (e : ArpEvent) : Prop :=
  NeedsEntry k e ∧ arpFreeSlot k.entries = none ∧ (k.entries (arpVictim k.entries)).waitq ≠ []

/-- A new entry is written over one with packets behind it only by eviction. -/
theorem slot_waitq (hok : CacheOk k) :
    (k.entries k.slot).waitq = [] ↔
      ¬ (arpFreeSlot k.entries = none ∧ (k.entries (arpVictim k.entries)).waitq ≠ []) := by
  unfold ArpBook.slot
  cases hfree : arpFreeSlot k.entries with
  | none => simp
  | some i =>
    have hst : (k.entries i).state = .free := by simpa using Slots.first_some hfree
    simp [hok.waitq_nil (i := i) (by simp [hst])]

theorem ofNat_waitq_eq_zero (hok : CacheOk k) (i : ArpIdx) :
    UInt64.ofNat (k.entries i).waitq.length = 0 ↔ (k.entries i).waitq = [] := by
  have hbound : (k.entries i).waitq.length ≤ 8 := (hok.entry i).bound
  have hlt : (k.entries i).waitq.length < UInt64.size := Nat.lt_of_le_of_lt hbound (by decide)
  rw [← List.length_eq_zero_iff, ← UInt64.toNat_inj, UInt64.toNat_ofNat_of_lt' hlt]
  rfl

/-- From a balanced book a call leads to a balanced book unless it evicts
parked packets. -/
theorem Balanced.turn (hok : CacheOk k) (h : Balanced k) {e : ArpEvent} (ht : ArpTurn k e k') :
    Balanced k' ↔ ¬ EvictsParked k e := by
  rw [balanced_iff] at h ⊢
  have hheard (dev : DevIdx) (q : ArpPkt) : missing (k.hear dev q) = 0 :=
    (missing_note (by simp [flushedCount])).trans h
  -- a call that needs no entry evicts nothing
  have hcalm (hneed : ¬ NeedsEntry k e) (hk : missing k' = 0) :
      missing k' = 0 ↔ ¬ EvictsParked k e := ⟨fun _ he => hneed he.1, fun _ => hk⟩
  -- one that needs an entry loses what was behind the old one
  have hloss (hneed : NeedsEntry k e)
      (hk : missing k' = UInt64.ofNat (k.entries k.slot).waitq.length) :
      missing k' = 0 ↔ ¬ EvictsParked k e := by
    rw [hk, ofNat_waitq_eq_zero hok, slot_waitq hok]
    simp [EvictsParked, hneed]
  cases ht with
  | malformed devs now dev p hp =>
    refine hcalm ?_ h
    rintro ⟨q, hq, -⟩
    exact hp q hq
  | ignored devs now dev p q hp hq =>
    refine hcalm ?_ (hheard dev q)
    rintro ⟨q', hp', hspa, hnone, hus⟩
    have hsame : q' = q := Option.some.inj (hp'.2.symm.trans hp.2)
    subst hsame
    rcases hq with hq | ⟨-, hq⟩
    · exact hspa hq
    · rw [hus] at hq
      cases hq
  | merged devs now dev p q i hp hspa hfind =>
    refine hcalm ?_ ?_
    · rintro ⟨q', hp', -, hnone, -⟩
      have hsame : q' = q := Option.some.inj (hp'.2.symm.trans hp.2)
      rw [hsame, hfind] at hnone
      cases hnone
    · have hres := missing_resolve (k := k.hear dev q) i (e := k.entries i) dev q.sha now
        fun hst => hok.waitq_nil hst
      rw [hheard] at hres
      exact (UInt64.add_left_inj _).mp hres
  | learnt devs now dev p q hp hspa hfind hus =>
    refine hloss ⟨q, hp, hspa, hfind, hus⟩ ?_
    have hres := missing_resolve (k := k.hear dev q) k.slot (e := { k.base with ip := q.spa }) dev
      q.sha now fun _ => hok.base.2
    rw [hheard, hok.base.2] at hres
    simp only [List.length_nil, UInt64.zero_add] at hres
    exact (UInt64.add_zero _).symm.trans hres
  | answered devs now dev nextHop p i hfind hst =>
    refine hcalm ?_ ((missing_note (by simp [flushedCount])).trans h)
    intro hnone
    rw [NeedsEntry, hfind] at hnone
    cases hnone
  | waited devs now dev nextHop p i hfind hst =>
    refine hcalm ?_ ?_
    · intro hnone
      rw [NeedsEntry, hfind] at hnone
      cases hnone
    · cases p with
      | none => exact h
      | some p => exact (missing_park i ⟨dev, p⟩).trans h
  | opened devs now dev nextHop p hfind =>
    refine hloss hfind ?_
    have hopen := missing_openEntry hok.base.2 dev nextHop now
    rw [h, UInt64.zero_add] at hopen
    cases p with
    | none => exact hopen
    | some p => exact (missing_park k.slot ⟨dev, p⟩).trans hopen
  | ticked devs now hvisits =>
    refine hcalm id ?_
    clear hcalm hloss
    induction hvisits with
    | refl => exact h
    | tail _ hv ih => exact (missing_visit hv).trans ih

/-! ### Order -/

theorem parkedFor_mono (ip : UInt32) (x : ArpAct) (acts : List ArpAct) :
    (parkedFor ip acts).Sublist (parkedFor ip (x :: acts)) :=
  (List.sublist_cons_self x acts).filterMap _

/-- An act that neither parks nor sends a packet, and a change of an entry that
does not wait, leave the order alone. -/
theorem QueueOrder.update (h : QueueOrder k) {i : ArpIdx} {e : ArpEntry} {acts : List ArpAct}
    (queued drops : UInt64) (hp : ∀ ip, (parkedFor ip k.acts).Sublist (parkedFor ip acts))
    (hf : ∀ ip, flushedFor ip acts = flushedFor ip k.acts)
    (he : e.state = .pending →
      (e.waitq.reverse ++ flushedFor e.ip acts).Sublist (parkedFor e.ip acts)) :
    QueueOrder
      { entries := Function.update k.entries i e, queued := queued, drops := drops,
        acts := acts } := by
  constructor
  · intro ip
    rw [hf]
    exact (h.sent ip).trans (hp ip)
  · intro j hj
    by_cases hji : j = i
    · subst hji
      simp only [Function.update_self] at hj ⊢
      exact he hj
    · simp only [Function.update_of_ne hji] at hj ⊢
      rw [hf]
      exact (h.waiting j hj).trans (hp _)

theorem QueueOrder.note (h : QueueOrder k) {x : ArpAct}
    (hp : ∀ ip, parkedFor ip (x :: k.acts) = parkedFor ip k.acts)
    (hf : ∀ ip, flushedFor ip (x :: k.acts) = flushedFor ip k.acts) : QueueOrder (k.note x) := by
  constructor
  · intro ip
    change (flushedFor ip (x :: k.acts)).Sublist (parkedFor ip (x :: k.acts))
    rw [hp, hf]
    exact h.sent ip
  · intro i hi
    change (_ ++ flushedFor _ (x :: k.acts)).Sublist (parkedFor _ (x :: k.acts))
    rw [hp, hf]
    exact h.waiting i hi

theorem QueueOrder.resolve (h : QueueOrder k) (i : ArpIdx) {e : ArpEntry} (dev : DevIdx) (mac : Mac)
    (now : Nat) (hip : ∀ j, j ≠ i → (k.entries j).state = .pending → (k.entries j).ip ≠ e.ip)
    (he : e.state = .pending →
      (e.waitq.reverse ++ flushedFor e.ip k.acts).Sublist (parkedFor e.ip k.acts)) :
    QueueOrder (k.resolve i e dev mac now) := by
  have hacts : (k.resolve i e dev mac now).acts =
      (if e.state = .pending then (e.waitq.map (.flushed e.ip dev)).reverse else []) ++
        k.acts := rfl
  have hother (ip : UInt32) (hne : ip ≠ e.ip) :
      flushedFor ip (k.resolve i e dev mac now).acts = flushedFor ip k.acts := by
    rw [hacts]
    split
    · rw [flushedFor_flushed, if_neg hne.symm, List.nil_append]
    · rfl
  have hparked (ip : UInt32) :
      parkedFor ip (k.resolve i e dev mac now).acts = parkedFor ip k.acts := by
    rw [hacts]
    split
    · exact parkedFor_flushed ip e.ip dev e.waitq k.acts
    · rfl
  constructor
  · intro ip
    rw [hparked]
    by_cases heq : ip = e.ip
    · rw [hacts, heq]
      split
      · rename_i hst
        rw [flushedFor_flushed, if_pos rfl]
        exact he hst
      · exact h.sent e.ip
    · rw [hother ip heq]
      exact h.sent ip
  · intro j hj
    have hji : j ≠ i := by
      rintro rfl
      simp [ArpBook.resolve, ArpBook.setEntry] at hj
    have hsame : (k.resolve i e dev mac now).entries j = k.entries j :=
      Function.update_of_ne hji _ _
    rw [hsame] at hj ⊢
    rw [hparked, hother _ (hip j hji hj)]
    exact h.waiting j hj

theorem QueueOrder.park (h : QueueOrder k) {i : ArpIdx} (q : WaitPkt)
    (hst : (k.entries i).state = .pending) : QueueOrder (k.park i q) := by
  refine h.update _ _ (fun ip => parkedFor_mono ip _ _) (fun ip => rfl) fun _ => ?_
  have hhead : parkedFor (k.entries i).ip (.parked (k.entries i).ip q :: k.acts) =
      q :: parkedFor (k.entries i).ip k.acts := by
    simp [parkedFor]
  have hflushed : flushedFor (k.entries i).ip (.parked (k.entries i).ip q :: k.acts) =
      flushedFor (k.entries i).ip k.acts := rfl
  simp only [hhead, hflushed, List.reverse_append, List.reverse_singleton, List.cons_append,
    List.nil_append]
  refine List.Sublist.cons_cons q (List.Sublist.trans ?_ (h.waiting i hst))
  refine List.Sublist.append_right ?_ _
  split
  · exact (List.tail_sublist _).reverse
  · exact List.Sublist.refl _

theorem QueueOrder.visit (h : QueueOrder k) {now : Nat} (hv : ArpVisit now k k') :
    QueueOrder k' := by
  have hrefl (ip : UInt32) : (parkedFor ip k.acts).Sublist (parkedFor ip k.acts) :=
    List.Sublist.refl _
  cases hv with
  | expire i hst => exact h.update _ _ hrefl (fun _ => rfl) fun hp => by cases hp
  | giveUp i hst hmax => exact h.update _ _ hrefl (fun _ => rfl) fun hp => by cases hp
  | retry i dev hst hmax hdev => exact h.update _ _ hrefl (fun _ => rfl) fun _ => h.waiting i hst

theorem QueueOrder.turn (hok : CacheOk k) (h : QueueOrder k) {e : ArpEvent} (ht : ArpTurn k e k') :
    QueueOrder k' := by
  have hheard (dev : DevIdx) (q : ArpPkt) : QueueOrder (k.hear dev q) :=
    h.note (fun _ => rfl) fun _ => rfl
  have hpend {j : ArpIdx} (hj : (k.entries j).state = .pending) : (k.entries j).state ≠ .free := by
    simp [hj]
  cases ht with
  | malformed devs now dev p hp => exact h
  | ignored devs now dev p q hp hq => exact hheard dev q
  | merged devs now dev p q i hp hspa hfind =>
    refine (hheard dev q).resolve i dev q.sha now ?_ fun hst => (hheard dev q).waiting i hst
    intro j hji hj
    exact hok.apart (arpLookup_spec hfind).1 j hji (hpend hj)
  | learnt devs now dev p q hp hspa hfind hus =>
    refine (hheard dev q).resolve k.slot dev q.sha now ?_ fun hst => ?_
    · intro j _ hj
      exact arpLookup_none hfind j (hpend hj)
    · cases hok.base.1.symm.trans hst
  | answered devs now dev nextHop p i hfind hst => exact h.note (fun _ => rfl) fun _ => rfl
  | waited devs now dev nextHop p i hfind hst =>
    cases p with
    | none => exact h
    | some p => exact h.park ⟨dev, p⟩ hst
  | opened devs now dev nextHop p hfind =>
    have hopen : QueueOrder (k.openEntry dev nextHop now) := by
      refine h.update _ _ (fun ip => List.Sublist.refl _) (fun _ => rfl) fun _ => ?_
      simp only [hok.base.2]
      exact h.sent nextHop
    cases p with
    | none => exact hopen
    | some p =>
      refine hopen.park ⟨dev, p⟩ ?_
      simp [ArpBook.openEntry, ArpBook.note, ArpBook.setEntry]
  | ticked devs now hvisits =>
    clear hheard hpend hok
    induction hvisits with
    | refl => exact h
    | tail _ hv ih => exact ih.visit hv

end Turns

/-! ### Runs -/

/-- The ledger balances, and what was sent for a next hop was sent in the order
in which it was parked, each packet at most once. -/
def Conserved (a : Arp) : Prop :=
  a.stats .arpPktsQueued =
      UInt64.ofNat (flushedCount a.acts) + a.stats .arpWaitqDrops +
        UInt64.ofNat (parkedNow a.entries) ∧
    ∀ ip, (flushedFor ip a.acts).Sublist (parkedFor ip a.acts)

theorem Arp.Reach.queueOrder {allowed : Arp → ArpEvent → Prop} {a : Arp}
    (hr : Arp.Reach allowed a) : QueueOrder a.book := by
  induction hr with
  | start h =>
    subst h
    refine ⟨fun ip => List.Sublist.refl _, fun i hst => ?_⟩
    cases hst
  | next hr e _ hs ih => exact ih.turn (Arp.Reach.cacheOk hr) (arpStep_turn hs)

theorem parkedNow_init (st : Stats) : parkedNow (Arp.init st).entries = 0 :=
  Finset.sum_eq_zero fun _ _ => rfl

theorem Arp.Reach.balanced {a : Arp} (hr : Arp.Reach (fun a e => ¬ EvictsParked a.book e) a) :
    Balanced a.book := by
  induction hr with
  | start h =>
    subst h
    have hnow := parkedNow_init Stats.zero
    change (0 : UInt64) = UInt64.ofNat 0 + 0 +
      UInt64.ofNat (parkedNow (Arp.init Stats.zero).entries)
    rw [hnow]
    rfl
  | next hr e he hs ih => exact (ih.turn (Arp.Reach.cacheOk hr) (arpStep_turn hs)).mpr he

/-- As long as no call evicts an entry with packets parked behind it, every
parked packet is accounted for, and the call that does so is the one that loses
packets uncounted. -/
theorem parked_packets_conserved {a : Arp}
    (hr : Arp.Reach (fun a e => ¬ EvictsParked a.book e) a) :
    Conserved a ∧ ∀ e b, arpStep a e = .ok b → (Conserved b ↔ ¬ EvictsParked a.book e) := by
  have hbal := hr.balanced
  have hord := hr.queueOrder
  refine ⟨⟨hbal, hord.sent⟩, fun e b hs => ?_⟩
  have hturn := arpStep_turn hs
  have hiff := hbal.turn hr.cacheOk hturn
  constructor
  · intro hb
    exact hiff.mp hb.1
  · intro he
    exact ⟨hiff.mpr he, (hord.turn hr.cacheOk hturn).sent⟩

theorem not_evictsParked_of_free {k : ArpBook} {e : ArpEvent} {i : ArpIdx}
    (hfree : arpFreeSlot k.entries = some i) : ¬ EvictsParked k e := by
  rintro ⟨-, hnone, -⟩
  cases hfree.symm.trans hnone

/-- Two packets wait for a neighbour, and its reply sends both (newest first in
the history). -/
theorem parked_packets_conserved_flush :
    ∃ a b c, arpStep (Arp.init Stats.zero) sampleResolve = .ok a ∧
      arpStep a (.resolve sampleDevs 5 sampleNear 0x0a000002 (some (samplePkt 8))) = .ok b ∧
      arpStep b (sampleReply sampleNear) = .ok c ∧ b.stats .arpPktsQueued = 2 ∧
      flushedFor 0x0a000002 c.acts =
        [⟨sampleNear, samplePkt 8⟩, ⟨sampleNear, samplePkt 7⟩] ∧ Conserved c := by
  have hstart : Arp.Reach (fun a e => ¬ EvictsParked a.book e) (Arp.init Stats.zero) := .start rfl
  have hone := hstart.next sampleResolve
    (not_evictsParked_of_free (i := ⟨0, arpCacheSize_pos⟩) rfl) rfl
  have htwo := hone.next (.resolve sampleDevs 5 sampleNear 0x0a000002 (some (samplePkt 8)))
    (not_evictsParked_of_free (i := ⟨1, by decide⟩) rfl) rfl
  refine ⟨_, _, _, rfl, rfl, rfl, rfl, rfl, ?_⟩
  exact ((parked_packets_conserved htwo).2 (sampleReply sampleNear) _ rfl).mpr
    (not_evictsParked_of_free (i := ⟨1, by decide⟩) rfl)

/-- A packet is parked for each of 65 next hops. -/
def floodEvents : List ArpEvent :=
  (List.range 65).map fun n =>
    .resolve sampleDevs n sampleNear (0x0a000100 + UInt32.ofNat n) (some (samplePkt 7))

theorem flood_accounts :
    (floodEvents.foldlM arpStep (Arp.init Stats.zero)).toOption.map
      (fun a => (a.stats .arpPktsQueued, flushedCount a.acts, a.stats .arpWaitqDrops,
        parkedNow a.entries)) = some (65, 0, 0, 64) := by
  decide +kernel

/-- The 65th next hop evicts the first, and the packet behind it is neither
sent nor counted as dropped. -/
theorem evicted_packet_uncounted : ∃ a, Arp.Reach (fun _ _ => True) a ∧ ¬ Conserved a := by
  have hflood := flood_accounts
  cases hrun : floodEvents.foldlM arpStep (Arp.init Stats.zero) with
  | error f =>
    rw [hrun] at hflood
    cases hflood
  | ok a =>
    rw [hrun] at hflood
    obtain ⟨hq, hf, hd, hn⟩ : a.stats .arpPktsQueued = 65 ∧ flushedCount a.acts = 0 ∧
        a.stats .arpWaitqDrops = 0 ∧ parkedNow a.entries = 64 := by
      simpa [Except.toOption] using hflood
    refine ⟨a, Checked.Reach.foldlM (.start rfl) floodEvents (fun _ _ _ => trivial) hrun, ?_⟩
    rintro ⟨hbal, -⟩
    rw [hq, hf, hd, hn] at hbal
    cases hbal

end PacketForge
