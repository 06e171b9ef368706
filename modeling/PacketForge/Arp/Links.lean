import PacketForge.Arp.Ledger

/-!
Which interface an answer belongs to. The cache is keyed by address alone. An
entry that is resolved holds what was last heard of its address, with the
interface it was heard on; a caller gets the right link exactly if that is the
interface it asks for, and a parked packet stays on its link exactly if the
answer arrives there.
-/

namespace PacketForge

open Checked

/-- Who last advertised an address, and on which interface. -/
def lastHeard (ip : UInt32) : List ArpAct → Option (DevIdx × Mac)
  | [] => none
  | .heard dev ip' mac :: acts => if ip' = ip then some (dev, mac) else lastHeard ip acts
  | .opened _ :: acts | .asked _ _ :: acts | .parked _ _ :: acts | .flushed _ _ _ :: acts
  | .answered _ _ _ :: acts => lastHeard ip acts

/-- Every parked packet that was sent went out on the interface it was parked
for, and every address a caller was given had been supplied by an ARP packet on
the interface it asked for. -/
def OnLink : List ArpAct → Prop
  | [] => True
  | .flushed _ dev q :: acts => q.dev = dev ∧ OnLink acts
  | .answered dev ip mac :: acts => lastHeard ip acts = some (dev, mac) ∧ OnLink acts
  | .opened _ :: acts | .asked _ _ :: acts | .parked _ _ :: acts | .heard _ _ _ :: acts =>
    OnLink acts

/-- A resolved entry holds what was last heard of its address. -/
def Learnt (k : ArpBook) : Prop :=
  ∀ i, (k.entries i).state = .resolved → (k.entries i).ip ≠ 0 ∧
    ∃ d, (k.entries i).dev = some d ∧
      lastHeard (k.entries i).ip k.acts = some (d, (k.entries i).mac)

/-- A parked packet would be sent on another interface than the one it was
parked for, or a caller given an address from another interface. -/
def CrossesLinks (k : ArpBook) : ArpEvent → Prop
  | .input _ _ dev p => ∃ q i, arpReads p q ∧ q.spa ≠ 0 ∧ arpLookup k.entries q.spa = some i ∧
      (k.entries i).state = .pending ∧ ∃ r ∈ (k.entries i).waitq, r.dev ≠ dev
  | .resolve _ _ dev nextHop _ => ∃ i, arpLookup k.entries nextHop = some i ∧
      (k.entries i).state = .resolved ∧ (k.entries i).dev ≠ some dev
  | .tick _ _ => False

theorem lastHeard_flushed (ip ip' : UInt32) (dev : DevIdx) (qs : List WaitPkt)
    (acts : List ArpAct) :
    lastHeard ip ((qs.map (.flushed ip' dev)).reverse ++ acts) = lastHeard ip acts := by
  rw [← List.map_reverse]
  induction qs.reverse with
  | nil => rfl
  | cons q qs ih => exact ih

theorem onLink_flushed (ip : UInt32) (dev : DevIdx) (qs : List WaitPkt) (acts : List ArpAct) :
    OnLink ((qs.map (.flushed ip dev)).reverse ++ acts) ↔ (∀ q ∈ qs, q.dev = dev) ∧
      OnLink acts := by
  have hrev : (∀ q ∈ qs, q.dev = dev) ↔ ∀ q ∈ qs.reverse, q.dev = dev := by simp
  rw [← List.map_reverse, hrev]
  clear hrev
  induction qs.reverse with
  | nil => simp
  | cons q qs ih =>
    rw [List.forall_mem_cons, and_assoc]
    exact and_congr_right fun _ => ih

section Turns

variable {k k' : ArpBook}

theorem lastHeard_resolve (ip : UInt32) (i : ArpIdx) (e : ArpEntry) (dev : DevIdx) (mac : Mac)
    (now : Nat) : lastHeard ip (k.resolve i e dev mac now).acts = lastHeard ip k.acts := by
  change lastHeard ip ((if e.state = .pending then _ else []) ++ k.acts) = _
  split
  · exact lastHeard_flushed ip e.ip dev e.waitq k.acts
  · rfl

/-- A change of one entry keeps what the others have learnt, as long as nothing
new was heard of them. -/
theorem Learnt.update (h : Learnt k) {i : ArpIdx} {e : ArpEntry} {acts : List ArpAct}
    (queued drops : UInt64)
    (he : e.state = .resolved → e.ip ≠ 0 ∧
      ∃ d, e.dev = some d ∧ lastHeard e.ip acts = some (d, e.mac))
    (hacts : ∀ j, j ≠ i → (k.entries j).state = .resolved →
      lastHeard (k.entries j).ip acts = lastHeard (k.entries j).ip k.acts) :
    Learnt
      { entries := Function.update k.entries i e, queued := queued, drops := drops,
        acts := acts } := by
  intro j hj
  by_cases hji : j = i
  · subst hji
    simp only [Function.update_self] at hj ⊢
    exact he hj
  · simp only [Function.update_of_ne hji] at hj ⊢
    rw [hacts j hji hj]
    exact h j hj

/-- What an ARP packet supplies is what was last heard. -/
theorem Learnt.resolve (h : Learnt k) (i : ArpIdx) {e : ArpEntry} (dev : DevIdx) (q : ArpPkt)
    (now : Nat) (hspa : q.spa ≠ 0) (hip : e.ip = q.spa)
    (hother : ∀ j, j ≠ i → (k.entries j).state ≠ .free → (k.entries j).ip ≠ q.spa) :
    Learnt ((k.hear dev q).resolve i e dev q.sha now) := by
  have hacts (ip : UInt32) : lastHeard ip ((k.hear dev q).resolve i e dev q.sha now).acts =
      if q.spa = ip then some (dev, q.sha) else lastHeard ip k.acts :=
    lastHeard_resolve ip i e dev q.sha now
  refine h.update _ _ (fun _ => ⟨hip.trans_ne hspa, dev, rfl, ?_⟩) fun j hji hj => ?_
  · exact (hacts e.ip).trans (if_pos hip.symm)
  · exact (hacts _).trans (if_neg (hother j hji (by simp [hj])).symm)

theorem Learnt.turn (hok : CacheOk k) (h : Learnt k) {e : ArpEvent} (ht : ArpTurn k e k') :
    Learnt k' := by
  have hpark {k : ArpBook} (h : Learnt k) (i : ArpIdx) (q : WaitPkt)
      (hst : (k.entries i).state = .pending) : Learnt (k.park i q) := by
    refine h.update _ _ (fun hres => ?_) fun _ _ _ => rfl
    cases hst.symm.trans hres
  cases ht with
  | malformed devs now dev p hp => exact h
  | ignored devs now dev p q hp hq =>
    intro i hi
    have hst : (k.entries i).state = .resolved := hi
    obtain ⟨hne, d, hd, hlast⟩ := h i hst
    have hspa : q.spa ≠ (k.entries i).ip := by
      rcases hq with hq | ⟨hq, -⟩
      · rw [hq]
        exact hne.symm
      · exact (arpLookup_none hq i (by simp [hst])).symm
    exact ⟨hne, d, hd, (if_neg hspa).trans hlast⟩
  | merged devs now dev p q i hp hspa hfind =>
    obtain ⟨hst, hip⟩ := arpLookup_spec hfind
    refine h.resolve i dev q now hspa hip fun j hji hj => ?_
    rw [← hip]
    exact hok.apart hst j hji hj
  | learnt devs now dev p q hp hspa hfind hus =>
    exact h.resolve k.slot dev q now hspa rfl fun j _ hj => arpLookup_none hfind j hj
  | answered devs now dev nextHop p i hfind hst => exact h
  | waited devs now dev nextHop p i hfind hst =>
    cases p with
    | none => exact h
    | some p => exact hpark h i ⟨dev, p⟩ hst
  | opened devs now dev nextHop p hfind =>
    have hopen : Learnt (k.openEntry dev nextHop now) :=
      h.update _ _ (fun hres => by cases hres) fun _ _ _ => rfl
    cases p with
    | none => exact hopen
    | some p =>
      refine hpark hopen k.slot ⟨dev, p⟩ ?_
      simp [ArpBook.openEntry, ArpBook.note, ArpBook.setEntry]
  | ticked devs now hvisits =>
    clear hok hpark
    induction hvisits with
    | refl => exact h
    | tail _ hv ih =>
      cases hv with
      | expire i hst => exact ih.update _ _ (fun hres => by cases hres) fun _ _ _ => rfl
      | giveUp i hst hmax => exact ih.update _ _ (fun hres => by cases hres) fun _ _ _ => rfl
      | retry i dev hst hmax hdev =>
        exact ih.update _ _ (fun hres => by cases hst.symm.trans hres) fun _ _ _ => rfl

theorem onLink_visits {now : Nat} (hv : Relation.ReflTransGen (ArpVisit now) k k') :
    OnLink k'.acts ↔ OnLink k.acts := by
  induction hv with
  | refl => exact Iff.rfl
  | tail _ hv ih =>
    rw [← ih]
    cases hv <;> exact Iff.rfl

/-- From a book whose links are respected a call leads to another unless it
crosses links. -/
theorem OnLink.turn (hok : CacheOk k) (hl : Learnt k) (h : OnLink k.acts) {e : ArpEvent}
    (ht : ArpTurn k e k') : OnLink k'.acts ↔ ¬ CrossesLinks k e := by
  cases ht with
  | malformed devs now dev p hp =>
    refine ⟨fun _ hc => ?_, fun _ => h⟩
    obtain ⟨q, i, hq, -⟩ := hc
    exact hp q hq
  | ignored devs now dev p q hp hq =>
    refine ⟨fun _ hc => ?_, fun _ => h⟩
    obtain ⟨q', i, hp', hspa, hfind, -⟩ := hc
    have hsame : q' = q := Option.some.inj (hp'.2.symm.trans hp.2)
    subst hsame
    rcases hq with hq | ⟨hq, -⟩
    · exact hspa hq
    · cases hq.symm.trans hfind
  | merged devs now dev p q i hp hspa hfind =>
    have hcross : CrossesLinks k (.input devs now dev p) ↔
        (k.entries i).state = .pending ∧ ∃ r ∈ (k.entries i).waitq, r.dev ≠ dev := by
      constructor
      · rintro ⟨q', i', hp', -, hfind', hst, hr⟩
        have hsame : q' = q := Option.some.inj (hp'.2.symm.trans hp.2)
        have hi : i' = i := Option.some.inj (hfind'.symm.trans (hsame ▸ hfind))
        rw [hi] at hst hr
        exact ⟨hst, hr⟩
      · rintro ⟨hst, hr⟩
        exact ⟨q, i, hp, hspa, hfind, hst, hr⟩
    have hacts : OnLink ((k.hear dev q).resolve i (k.entries i) dev q.sha now).acts ↔
        ((k.entries i).state = .pending → ∀ r ∈ (k.entries i).waitq, r.dev = dev) := by
      change OnLink ((if (k.entries i).state = .pending then _ else []) ++ _) ↔ _
      split
      · rename_i hst
        rw [onLink_flushed]
        exact ⟨fun ho _ => ho.1, fun ho => ⟨ho hst, h⟩⟩
      · rename_i hst
        exact ⟨fun _ hp => absurd hp hst, fun _ => h⟩
    rw [hcross, hacts]
    push Not
    exact Iff.rfl
  | learnt devs now dev p q hp hspa hfind hus =>
    refine ⟨fun _ hc => ?_, fun _ => ?_⟩
    · obtain ⟨q', i, hp', -, hfind', -⟩ := hc
      have hsame : q' = q := Option.some.inj (hp'.2.symm.trans hp.2)
      rw [hsame, hfind] at hfind'
      cases hfind'
    · change OnLink ((if k.base.state = .pending then _ else []) ++ _)
      rw [if_neg (by simp [hok.base.1])]
      exact h
  | answered devs now dev nextHop p i hfind hst =>
    obtain ⟨-, d, hd, hlast⟩ := hl i hst
    rw [(arpLookup_spec hfind).2] at hlast
    have hcross : CrossesLinks k (.resolve devs now dev nextHop p) ↔ d ≠ dev := by
      constructor
      · rintro ⟨i', hfind', -, hne⟩ rfl
        rw [Option.some.inj (hfind'.symm.trans hfind)] at hne
        exact hne hd
      · intro hne
        exact ⟨i, hfind, hst, fun heq => hne (Option.some.inj (hd.symm.trans heq))⟩
    change lastHeard nextHop k.acts = _ ∧ OnLink k.acts ↔ _
    rw [hcross, hlast, not_not]
    simp [h]
  | waited devs now dev nextHop p i hfind hst =>
    refine ⟨fun _ hc => ?_, fun _ => ?_⟩
    · obtain ⟨i', hfind', hst', -⟩ := hc
      rw [Option.some.inj (hfind'.symm.trans hfind)] at hst'
      cases hst.symm.trans hst'
    · cases p <;> exact h
  | opened devs now dev nextHop p hfind =>
    refine ⟨fun _ hc => ?_, fun _ => ?_⟩
    · obtain ⟨i, hfind', -⟩ := hc
      cases hfind.symm.trans hfind'
    · cases p <;> exact h
  | ticked devs now hvisits =>
    rw [onLink_visits hvisits]
    exact ⟨fun _ hc => hc, fun _ => h⟩

end Turns

/-! ### Runs -/

theorem Arp.Reach.learnt {allowed : Arp → ArpEvent → Prop} {a : Arp} (hr : Arp.Reach allowed a) :
    Learnt a.book := by
  induction hr with
  | start h =>
    subst h
    intro i hi
    cases hi
  | next hr e _ hs ih => exact ih.turn (Arp.Reach.cacheOk hr) (arpStep_turn hs)

/-- As long as no answer arrives on another interface than the one packets wait
for, and no address is asked for on another interface than it was learnt on,
parked packets stay on their interface and callers get addresses of theirs. The
first call that breaks this breaks the rule. -/
theorem arp_stays_on_link {a : Arp} (hr : Arp.Reach (fun a e => ¬ CrossesLinks a.book e) a) :
    OnLink a.acts ∧ ∀ e b, arpStep a e = .ok b → (OnLink b.acts ↔ ¬ CrossesLinks a.book e) := by
  have hlink : OnLink a.book.acts := by
    induction hr with
    | start h =>
      subst h
      trivial
    | next hr e he hs ih =>
      exact (ih.turn (Arp.Reach.cacheOk hr) (Arp.Reach.learnt hr) (arpStep_turn hs)).mpr he
  exact ⟨hlink, fun e b hs => hlink.turn hr.cacheOk hr.learnt (arpStep_turn hs)⟩

/-- The packet parked for the near link is sent there when the answer arrives,
and the next lookup is answered. -/
theorem arp_stays_on_link_answered :
    ∃ a b c, arpStep (Arp.init Stats.zero) sampleResolve = .ok a ∧
      arpStep a (sampleReply sampleNear) = .ok b ∧
      arpStep b (.resolve sampleDevs 7 sampleNear 0x0a000002 none) = .ok c ∧
      c.acts = .answered sampleNear 0x0a000002 ⟨2, 0, 0, 0, 0, 9⟩ :: b.acts ∧
      .flushed 0x0a000002 sampleNear ⟨sampleNear, samplePkt 7⟩ ∈ b.acts ∧ OnLink c.acts := by
  have hstart : Arp.Reach (fun a e => ¬ CrossesLinks a.book e) (Arp.init Stats.zero) := .start rfl
  obtain ⟨a, ha, hwait⟩ : ∃ a, arpStep (Arp.init Stats.zero) sampleResolve = .ok a ∧
      ∀ i, ∀ r ∈ (a.book.entries i).waitq, r.dev = sampleNear := ⟨_, rfl, by decide +kernel⟩
  obtain ⟨b, hb, hdev, hsent⟩ : ∃ b, arpStep a (sampleReply sampleNear) = .ok b ∧
      (∀ i, (b.book.entries i).state = .resolved → (b.book.entries i).dev = some sampleNear) ∧
      .flushed 0x0a000002 sampleNear ⟨sampleNear, samplePkt 7⟩ ∈ b.acts := by
    cases ha
    exact ⟨_, rfl, by decide +kernel, List.mem_cons_self⟩
  obtain ⟨c, hc, hacts⟩ :
      ∃ c, arpStep b (.resolve sampleDevs 7 sampleNear 0x0a000002 none) = .ok c ∧
        c.acts = .answered sampleNear 0x0a000002 ⟨2, 0, 0, 0, 0, 9⟩ :: b.acts := by
    cases ha
    cases hb
    exact ⟨_, rfl, rfl⟩
  have hask := hstart.next sampleResolve (by
    rintro ⟨i, hfind, -⟩
    have hnone : arpLookup (Arp.init Stats.zero).book.entries 0x0a000002 = none := rfl
    cases hnone.symm.trans hfind) ha
  have hreply := hask.next (sampleReply sampleNear) (by
    rintro ⟨q, i, -, -, -, -, r, hr, hne⟩
    exact hne (hwait i r hr)) hb
  refine ⟨a, b, c, ha, hb, hc, hacts, hsent, ((arp_stays_on_link hreply).2 _ c hc).mpr ?_⟩
  rintro ⟨i, -, hst, hne⟩
  exact hne (hdev i hst)

/-- The packet parked for the near link is sent on the far one. -/
theorem parked_packet_redirected :
    ∃ a, Arp.Reach (fun _ _ => True) a ∧ ¬ OnLink a.acts ∧
      a.acts.head? = some (.flushed 0x0a000002 sampleFar ⟨sampleNear, samplePkt 7⟩) := by
  have hstart : Arp.Reach (fun _ _ => True) (Arp.init Stats.zero) := .start rfl
  have hask := hstart.next sampleResolve trivial rfl
  have hstray := hask.next (sampleReply sampleFar) trivial rfl
  refine ⟨_, hstray, ?_, rfl⟩
  rintro ⟨hdev, -⟩
  exact absurd hdev (by decide)

end PacketForge
