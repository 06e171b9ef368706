import PacketForge.Arp.Book

/-!
The coherence of the ARP cache: one entry for an address, packets parked only
behind entries that wait for an answer and never too many, and a count of
tries that is the number of requests sent.
-/

namespace PacketForge

open Checked

/-- The requests sent for an address since its entry last became PENDING. -/
def requestsSince (ip : UInt32) : List ArpAct → Nat
  | [] => 0
  | .opened ip' :: acts => if ip' = ip then 0 else requestsSince ip acts
  | .asked _ ip' :: acts => if ip' = ip then requestsSince ip acts + 1 else requestsSince ip acts
  | .parked _ _ :: acts | .flushed _ _ _ :: acts | .heard _ _ _ :: acts | .answered _ _ _ :: acts =>
    requestsSince ip acts

structure EntryOk (acts : List ArpAct) (e : ArpEntry) : Prop where
  queue : e.waitq ≠ [] → e.state = .pending
  bound : e.waitq.length ≤ arpWaitqMax
  tries : e.state = .pending → 1 ≤ e.tries ∧ e.tries ≤ arpPendingMaxTries
  asked : e.state = .pending → e.tries.toNat = requestsSince e.ip acts

structure CacheOk (k : ArpBook) : Prop where
  unique : ∀ i j, (k.entries i).state ≠ .free → (k.entries j).state ≠ .free →
    (k.entries i).ip = (k.entries j).ip → i = j
  entry : ∀ i, EntryOk k.acts (k.entries i)

/-! ### Changes of one entry -/

section Update

variable {k : ArpBook} {i : ArpIdx}

/-- An entry whose address no other entry holds can be written, as long as the
requests for other addresses stay counted. -/
theorem CacheOk.update (h : CacheOk k) {e : ArpEntry} {acts : List ArpAct} (queued drops : UInt64)
    (hip : e.state ≠ .free → ∀ j, j ≠ i → (k.entries j).state ≠ .free → (k.entries j).ip ≠ e.ip)
    (he : EntryOk acts e)
    (hacts : ∀ j, j ≠ i → (k.entries j).state = .pending →
      requestsSince (k.entries j).ip acts = requestsSince (k.entries j).ip k.acts) :
    CacheOk
      { entries := Function.update k.entries i e, queued := queued, drops := drops,
        acts := acts } := by
  constructor
  · intro j l hj hl heq
    simp only [Function.update_apply] at hj hl heq
    by_cases hji : j = i <;> by_cases hli : l = i <;>
      simp only [hji, hli, if_true, if_false] at hj hl heq
    · rw [hji, hli]
    · exact absurd heq.symm (hip hj l hli hl)
    · exact absurd heq (hip hl j hji hj)
    · exact h.unique j l hj hl heq
  · intro j
    by_cases hji : j = i
    · simp only [hji, Function.update_self]
      exact he
    · simp only [Function.update_of_ne hji]
      have hj := h.entry j
      refine ⟨hj.queue, hj.bound, hj.tries, fun hst => ?_⟩
      rw [hacts j hji hst]
      exact hj.asked hst

/-- An act that is not a request changes no count. -/
theorem CacheOk.note (h : CacheOk k) {x : ArpAct}
    (hx : ∀ ip acts, requestsSince ip (x :: acts) = requestsSince ip acts) :
    CacheOk (k.note x) := by
  refine ⟨h.unique, fun i => ?_⟩
  have hi := h.entry i
  refine ⟨hi.queue, hi.bound, hi.tries, fun hst => ?_⟩
  change _ = requestsSince _ (x :: k.acts)
  rw [hx]
  exact hi.asked hst

/-- No other entry holds the address of one in use. -/
theorem CacheOk.apart (h : CacheOk k) (hi : (k.entries i).state ≠ .free) (j : ArpIdx) (hji : j ≠ i)
    (hj : (k.entries j).state ≠ .free) : (k.entries j).ip ≠ (k.entries i).ip :=
  fun heq => hji (h.unique j i hj hi heq)

/-- Nothing is parked behind an entry that does not wait. -/
theorem CacheOk.waitq_nil (h : CacheOk k) (hi : (k.entries i).state ≠ .pending) :
    (k.entries i).waitq = [] := by
  by_contra hne
  exact hi ((h.entry i).queue hne)

theorem CacheOk.base (h : CacheOk k) : k.base.state = .free ∧ k.base.waitq = [] := by
  unfold ArpBook.base
  split
  · rename_i i hfree
    have hst : (k.entries i).state = .free := by simpa using Slots.first_some hfree
    exact ⟨hst, h.waitq_nil (by simp [hst])⟩
  · exact ⟨rfl, rfl⟩

theorem requestsSince_flushed (ip ip' : UInt32) (dev : DevIdx) (qs : List WaitPkt)
    (acts : List ArpAct) :
    requestsSince ip ((qs.map (.flushed ip' dev)).reverse ++ acts) = requestsSince ip acts := by
  rw [← List.map_reverse]
  induction qs.reverse with
  | nil => rfl
  | cons q qs ih => exact ih

end Update

/-! ### One call -/

section Turns

variable {k k' : ArpBook}

theorem CacheOk.resolve (h : CacheOk k) (i : ArpIdx) {e : ArpEntry} (dev : DevIdx) (mac : Mac)
    (now : Nat) (hip : ∀ j, j ≠ i → (k.entries j).state ≠ .free → (k.entries j).ip ≠ e.ip)
    (hq : e.state ≠ .pending → e.waitq = []) : CacheOk (k.resolve i e dev mac now) := by
  have hacts (ip : UInt32) : requestsSince ip
      ((if e.state = .pending then (e.waitq.map (.flushed e.ip dev)).reverse else []) ++ k.acts) =
      requestsSince ip k.acts := by
    split
    · exact requestsSince_flushed ip e.ip dev e.waitq k.acts
    · rfl
  have hempty : (if e.state = .pending then [] else e.waitq) = [] := by
    split
    · rfl
    · rename_i hst
      exact hq hst
  refine h.update k.queued k.drops (fun _ => hip) ?_ fun j _ _ => hacts _
  constructor
  · intro hne
    exact absurd hempty hne
  · simp only [hempty]
    exact Nat.zero_le _
  · intro hst
    cases hst
  · intro hst
    cases hst

theorem CacheOk.openEntry (h : CacheOk k) (dev : DevIdx) {nextHop : UInt32} (now : Nat)
    (hfind : arpLookup k.entries nextHop = none) : CacheOk (k.openEntry dev nextHop now) := by
  refine h.update k.queued k.drops (fun _ j _ hj => arpLookup_none hfind j hj) ?_ ?_
  · constructor
    · intro _
      rfl
    · simp only [h.base.2]
      exact Nat.zero_le _
    · intro _
      change (1 : UInt8) ≤ 1 ∧ (1 : UInt8) ≤ 3
      decide
    · intro _
      simp [ArpBook.note, requestsSince]
  · intro j _ hst
    have hne : nextHop ≠ (k.entries j).ip := (arpLookup_none hfind j (by simp [hst])).symm
    simp [ArpBook.note, ArpBook.setEntry, requestsSince, hne]

theorem CacheOk.park (h : CacheOk k) {i : ArpIdx} (q : WaitPkt)
    (hst : (k.entries i).state = .pending) : CacheOk (k.park i q) := by
  have hi := h.entry i
  have hbound : (k.entries i).waitq.length ≤ 8 := hi.bound
  refine h.update _ _ (fun _ => h.apart (by simp [hst])) ?_ fun j _ _ => rfl
  refine ⟨fun _ => hst, ?_, hi.tries, hi.asked⟩
  rw [List.length_append, List.length_singleton]
  change _ + 1 ≤ 8
  split
  · rw [List.length_tail]
    omega
  · rename_i hfull
    have hlt : (k.entries i).waitq.length < 8 := Nat.lt_of_not_le hfull
    omega

theorem CacheOk.visit (h : CacheOk k) {now : Nat} (hv : ArpVisit now k k') : CacheOk k' := by
  cases hv with
  | expire i hst =>
    have hq : (k.entries i).waitq = [] := h.waitq_nil (by simp [hst])
    refine h.update _ _ (fun hne => absurd rfl hne) ?_ fun j _ _ => rfl
    refine ⟨fun hne => absurd hq hne, (h.entry i).bound, fun hp => ?_, fun hp => ?_⟩ <;> cases hp
  | giveUp i hst hmax =>
    refine h.update _ _ (fun hne => absurd rfl hne) ?_ fun j _ _ => rfl
    refine ⟨fun hne => absurd rfl hne, Nat.zero_le _, fun hp => ?_, fun hp => ?_⟩ <;> cases hp
  | retry i dev hst hmax hdev =>
    have hi := h.entry i
    have hlt : (k.entries i).tries.toNat < 3 := hmax
    have hadd : ((k.entries i).tries + 1).toNat = (k.entries i).tries.toNat + 1 := by
      rw [UInt8.toNat_add]
      change ((k.entries i).tries.toNat + 1) % 256 = _
      omega
    have hfree : (k.entries i).state ≠ .free := by simp [hst]
    refine h.update _ _ (fun _ => h.apart hfree) ?_ fun j hji hj => ?_
    · refine ⟨hi.queue, hi.bound, fun _ => ?_, fun _ => ?_⟩
      · simp only [UInt8.le_iff_toNat_le, hadd]
        change 1 ≤ _ ∧ _ ≤ 3
        omega
      · change ((k.entries i).tries + 1).toNat = requestsSince _ (.asked dev _ :: k.acts)
        rw [hadd, hi.asked hst]
        simp [requestsSince]
    · have hne := (h.apart hfree j hji (by simp [hj])).symm
      simp [ArpBook.setEntry, requestsSince, hne]

theorem CacheOk.turn (h : CacheOk k) {e : ArpEvent} (ht : ArpTurn k e k') : CacheOk k' := by
  have hheard (dev : DevIdx) (q : ArpPkt) : CacheOk (k.hear dev q) := h.note fun _ _ => rfl
  cases ht with
  | malformed devs now dev p hp => exact h
  | ignored devs now dev p q hp hq => exact hheard dev q
  | merged devs now dev p q i hp hspa hfind =>
    refine (hheard dev q).resolve i dev q.sha now ?_ fun hst => h.waitq_nil hst
    exact h.apart (arpLookup_spec hfind).1
  | learnt devs now dev p q hp hspa hfind hus =>
    refine (hheard dev q).resolve k.slot dev q.sha now ?_ fun _ => h.base.2
    intro j _ hj
    exact arpLookup_none hfind j hj
  | answered devs now dev nextHop p i hfind hst => exact h.note fun _ _ => rfl
  | waited devs now dev nextHop p i hfind hst =>
    cases p with
    | none => exact h
    | some p => exact h.park ⟨dev, p⟩ hst
  | opened devs now dev nextHop p hfind =>
    have hopen := h.openEntry dev now hfind
    cases p with
    | none => exact hopen
    | some p =>
      refine hopen.park ⟨dev, p⟩ ?_
      simp [ArpBook.openEntry, ArpBook.note, ArpBook.setEntry]
  | ticked devs now hvisits =>
    induction hvisits with
    | refl => exact h
    | tail _ hv ih => exact ih.visit hv

end Turns

/-! ### Runs -/

abbrev Arp.Reach (allowed : Arp → ArpEvent → Prop) : Arp → Prop :=
  Checked.Reach (· = Arp.init Stats.zero) allowed arpStep

theorem Arp.init_cacheOk (st : Stats) : CacheOk (Arp.init st).book := by
  constructor
  · intro i j hi
    exact absurd rfl hi
  · intro i
    refine ⟨fun hne => absurd rfl hne, Nat.zero_le _, fun hst => ?_, fun hst => ?_⟩ <;> cases hst

theorem Arp.Reach.cacheOk {allowed : Arp → ArpEvent → Prop} {a : Arp} (hr : Arp.Reach allowed a) :
    CacheOk a.book := by
  induction hr with
  | start h =>
    rw [h]
    exact Arp.init_cacheOk _
  | next _ e _ hs ih => exact ih.turn (arpStep_turn hs)

def cachedIps (c : ArpCache) : Set UInt32 := {ip | ∃ i, (c i).state ≠ .free ∧ (c i).ip = ip}

theorem cachedIps_update {c : ArpCache} {i : ArpIdx} {e : ArpEntry} (hi : (c i).state ≠ .free)
    (he : e.state ≠ .free) (hip : e.ip = (c i).ip) :
    cachedIps (Function.update c i e) = cachedIps c := by
  ext ip
  constructor
  · rintro ⟨j, hj, hjip⟩
    by_cases hji : j = i
    · rw [hji, Function.update_self] at hjip
      exact ⟨i, hi, hip.symm.trans hjip⟩
    · rw [Function.update_of_ne hji] at hj hjip
      exact ⟨j, hj, hjip⟩
  · rintro ⟨j, hj, hjip⟩
    by_cases hji : j = i
    · refine ⟨i, ?_, ?_⟩ <;> rw [Function.update_self]
      · exact he
      · rw [hip, ← hji]
        exact hjip
    · refine ⟨j, ?_, ?_⟩ <;> rw [Function.update_of_ne hji]
      · exact hj
      · exact hjip

/-- A packet that is not for the receiving interface neither adds an address to
the cache nor removes one. -/
theorem cachedIps_input {k k' : ArpBook} {devs : Devs} {now : Nat} {dev : DevIdx} {p : Pkt}
    {q : ArpPkt} (hp : arpReads p q) (htpa : q.tpa ≠ (devs dev).ip)
    (ht : ArpTurn k (.input devs now dev p) k') : cachedIps k'.entries = cachedIps k.entries := by
  cases ht with
  | malformed _ _ _ _ hbad => exact absurd hp (hbad q)
  | ignored _ _ _ _ q' hp' hq => rfl
  | merged _ _ _ _ q' i hp' hspa hfind =>
    exact cachedIps_update (arpLookup_spec hfind).1 (by simp) rfl
  | learnt _ _ _ _ q' hp' hspa hfind hus =>
    have hsame : q' = q := Option.some.inj (hp'.2.symm.trans hp.2)
    simp [ArpPkt.forUs, hsame, htpa] at hus

/-- After any sequence of calls: no two entries in use hold the same address; a
wait queue is empty unless its entry is PENDING, and never longer than its
limit; the tries of a PENDING entry are the requests sent for it, at least one
and at most three. And a received packet that is not for the receiving
interface leaves the set of cached addresses as it was. -/
theorem arp_cache_coherent {a : Arp} (hr : Arp.Reach (fun _ _ => True) a) :
    (∀ i j, (a.entries i).state ≠ .free → (a.entries j).state ≠ .free →
      (a.entries i).ip = (a.entries j).ip → i = j) ∧
    (∀ i, (a.entries i).waitq ≠ [] → (a.entries i).state = .pending) ∧
    (∀ i, (a.entries i).waitq.length ≤ arpWaitqMax) ∧
    (∀ i, (a.entries i).state = .pending →
      1 ≤ (a.entries i).tries ∧ (a.entries i).tries ≤ arpPendingMaxTries ∧
        (a.entries i).tries.toNat = requestsSince (a.entries i).ip a.acts) ∧
    ∀ devs now dev p q b, arpReads p q → q.tpa ≠ (devs dev).ip →
      arpStep a (.input devs now dev p) = .ok b → cachedIps b.entries = cachedIps a.entries := by
  have h := hr.cacheOk
  refine ⟨h.unique, fun i => (h.entry i).queue, fun i => (h.entry i).bound, fun i hst => ?_, ?_⟩
  · exact ⟨((h.entry i).tries hst).1, ((h.entry i).tries hst).2, (h.entry i).asked hst⟩
  · intro devs now dev p q b hp htpa hs
    exact cachedIps_input hp htpa (arpStep_turn hs)

/-! A host on two links, and a packet with one byte. -/

theorem pfMaxDevs_two : 1 < pfMaxDevs := by decide

def sampleNear : DevIdx := ⟨0, Nat.lt_of_succ_lt pfMaxDevs_two⟩

def sampleFar : DevIdx := ⟨1, pfMaxDevs_two⟩

def sampleDevs : Devs := fun d =>
  { mac := ⟨2, 0, 0, 0, 0, UInt8.ofNat d.val⟩
    ip := 0x0a000001 + 256 * UInt32.ofNat d.val
    mask := 0xffffff00
    mtu := 1500 }

theorem samplePkt_fits (x : UInt8) : pktTxHeadroom + [x].length ≤ pktBufSize := by
  change 128 + 1 ≤ 4096
  decide

def samplePkt (x : UInt8) : Pkt := ⟨pktTxHeadroom, [x], samplePkt_fits x⟩

/-- A neighbour is looked up for a packet. -/
def sampleResolve : ArpEvent := .resolve sampleDevs 5 sampleNear 0x0a000002 (some (samplePkt 7))

theorem sampleReply_fits (sha tha : Mac) (spa tpa : UInt32) :
    16 + (arpBytes arpOpReply sha spa tha tpa).length ≤ pktBufSize := by
  rw [arpBytes_length]
  decide

/-- The neighbour's reply arrives on an interface. -/
def sampleReply (dev : DevIdx) : ArpEvent :=
  .input sampleDevs 6 dev
    ⟨16, arpBytes arpOpReply ⟨2, 0, 0, 0, 0, 9⟩ 0x0a000002 (sampleDevs dev).mac (sampleDevs dev).ip,
      sampleReply_fits _ _ _ _⟩

theorem arp_cache_coherent_pending :
    ∃ a, Arp.Reach (fun _ _ => True) a ∧ (a.entries ⟨0, arpCacheSize_pos⟩).state = .pending ∧
      (a.entries ⟨0, arpCacheSize_pos⟩).tries.toNat =
        requestsSince (a.entries ⟨0, arpCacheSize_pos⟩).ip a.acts := by
  have hstart : Arp.Reach (fun _ _ => True) (Arp.init Stats.zero) := .start rfl
  have hstep := hstart.next sampleResolve trivial rfl
  exact ⟨_, hstep, rfl, ((arp_cache_coherent hstep).2.2.2.1 _ rfl).2.2⟩

end PacketForge
