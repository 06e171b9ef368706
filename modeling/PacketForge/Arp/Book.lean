import PacketForge.Arp.Cache
import Mathlib.Logic.Relation

/-!
What a call can do to the ARP cache. The book of the module is what the results
below are about: the entries, the two counters of parked packets and the record
of acts. `ArpTurn` lists the changes of the book that a call can make, with the
guards under which it makes them, and `arpStep_turn` says that there are no
others.
-/

namespace PacketForge

open Function

open Checked

@[ext]
structure ArpBook where
  entries : ArpCache
  queued : UInt64
  drops : UInt64
  acts : List ArpAct

def Arp.book (a : Arp) : ArpBook where
  entries := a.entries
  queued := a.stats .arpPktsQueued
  drops := a.stats .arpWaitqDrops
  acts := a.acts

namespace ArpBook

variable (k : ArpBook)

def setEntry (i : ArpIdx) (e : ArpEntry) : ArpBook :=
  { k with entries := update k.entries i e }

def note (x : ArpAct) : ArpBook := { k with acts := x :: k.acts }

def hear (dev : DevIdx) (q : ArpPkt) : ArpBook := k.note (.heard dev q.spa q.sha)

def slot : ArpIdx := (arpFreeSlot k.entries).getD (arpVictim k.entries)

/-- The entry a new one is written over: a free one as it was left, or that of
an evicted address, cleared. -/
def base : ArpEntry :=
  match arpFreeSlot k.entries with
  | some i => k.entries i
  | none => ArpEntry.zero

def resolve (i : ArpIdx) (e : ArpEntry) (dev : DevIdx) (mac : Mac) (now : Nat) : ArpBook :=
  { k.setEntry i
      { e with
        state := .resolved
        mac := mac
        dev := some dev
        deadlineMs := now + arpCacheTtlMs
        tries := 0
        waitq := if e.state = .pending then [] else e.waitq } with
    acts :=
      (if e.state = .pending then (e.waitq.map (.flushed e.ip dev)).reverse else []) ++ k.acts }

/-- A new entry becomes PENDING and the first request goes out. -/
def openEntry (dev : DevIdx) (nextHop : UInt32) (now : Nat) : ArpBook :=
  ((k.setEntry k.slot
    { k.base with
      state := .pending
      ip := nextHop
      dev := some dev
      tries := 1
      deadlineMs := now + arpPendingRetryMs }).note (.opened nextHop)).note (.asked dev nextHop)

def park (i : ArpIdx) (q : WaitPkt) : ArpBook :=
  let e := k.entries i
  let full := e.waitq.length ≥ arpWaitqMax
  { k.setEntry i { e with waitq := (if full then e.waitq.tail else e.waitq) ++ [q] } with
    queued := k.queued + 1
    drops := if full then k.drops + 1 else k.drops
    acts := .parked e.ip q :: k.acts }

def expire (i : ArpIdx) : ArpBook := k.setEntry i { k.entries i with state := .free }

/-- An address is given up, with what was parked behind it. -/
def giveUp (i : ArpIdx) : ArpBook :=
  { k.setEntry i { k.entries i with waitq := [], state := .free } with
    drops := k.drops + UInt64.ofNat (k.entries i).waitq.length }

def retry (i : ArpIdx) (dev : DevIdx) (now : Nat) : ArpBook :=
  (k.setEntry i
    { k.entries i with
      tries := (k.entries i).tries + 1
      deadlineMs := now + arpPendingRetryMs }).note (.asked dev (k.entries i).ip)

end ArpBook

/-- The packet is a well-formed ARP packet. -/
def arpReads (p : Pkt) (q : ArpPkt) : Prop :=
  arpHdrLen ≤ p.len ∧ arpParse (p.data.take arpHdrLen) = some q

inductive ArpVisit (now : Nat) (k : ArpBook) : ArpBook → Prop where
  | expire (i : ArpIdx) (hst : (k.entries i).state = .resolved) : ArpVisit now k (k.expire i)
  | giveUp (i : ArpIdx) (hst : (k.entries i).state = .pending)
      (hmax : (k.entries i).tries ≥ arpPendingMaxTries) : ArpVisit now k (k.giveUp i)
  | retry (i : ArpIdx) (dev : DevIdx) (hst : (k.entries i).state = .pending)
      (hmax : (k.entries i).tries < arpPendingMaxTries) (hdev : (k.entries i).dev = some dev) :
      ArpVisit now k (k.retry i dev now)

inductive ArpTurn (k : ArpBook) : ArpEvent → ArpBook → Prop where
  | malformed (devs : Devs) (now : Nat) (dev : DevIdx) (p : Pkt) (hp : ∀ q, ¬ arpReads p q) :
      ArpTurn k (.input devs now dev p) k
  | ignored (devs : Devs) (now : Nat) (dev : DevIdx) (p : Pkt) (q : ArpPkt) (hp : arpReads p q)
      (hq : q.spa = 0 ∨ arpLookup k.entries q.spa = none ∧ q.forUs (devs dev) = false) :
      ArpTurn k (.input devs now dev p) (k.hear dev q)
  | merged (devs : Devs) (now : Nat) (dev : DevIdx) (p : Pkt) (q : ArpPkt) (i : ArpIdx)
      (hp : arpReads p q) (hspa : q.spa ≠ 0) (hfind : arpLookup k.entries q.spa = some i) :
      ArpTurn k (.input devs now dev p) ((k.hear dev q).resolve i (k.entries i) dev q.sha now)
  | learnt (devs : Devs) (now : Nat) (dev : DevIdx) (p : Pkt) (q : ArpPkt) (hp : arpReads p q)
      (hspa : q.spa ≠ 0) (hfind : arpLookup k.entries q.spa = none)
      (hus : q.forUs (devs dev) = true) :
      ArpTurn k (.input devs now dev p)
        ((k.hear dev q).resolve k.slot { k.base with ip := q.spa } dev q.sha now)
  | answered (devs : Devs) (now : Nat) (dev : DevIdx) (nextHop : UInt32) (p : Option Pkt)
      (i : ArpIdx) (hfind : arpLookup k.entries nextHop = some i)
      (hst : (k.entries i).state = .resolved) :
      ArpTurn k (.resolve devs now dev nextHop p)
        (k.note (.answered dev nextHop (k.entries i).mac))
  | waited (devs : Devs) (now : Nat) (dev : DevIdx) (nextHop : UInt32) (p : Option Pkt)
      (i : ArpIdx) (hfind : arpLookup k.entries nextHop = some i)
      (hst : (k.entries i).state = .pending) :
      ArpTurn k (.resolve devs now dev nextHop p) (p.elim k fun p => k.park i ⟨dev, p⟩)
  | opened (devs : Devs) (now : Nat) (dev : DevIdx) (nextHop : UInt32) (p : Option Pkt)
      (hfind : arpLookup k.entries nextHop = none) :
      ArpTurn k (.resolve devs now dev nextHop p)
        (p.elim (k.openEntry dev nextHop now) fun p =>
          (k.openEntry dev nextHop now).park k.slot ⟨dev, p⟩)
  | ticked (devs : Devs) (now : Nat) {k' : ArpBook}
      (hvisits : Relation.ReflTransGen (ArpVisit now) k k') : ArpTurn k (.tick devs now) k'

/-! ### The code makes these changes -/

theorem arpLookup_spec {c : ArpCache} {ip : UInt32} {i : ArpIdx} (h : arpLookup c ip = some i) :
    (c i).state ≠ .free ∧ (c i).ip = ip := by
  have hi := Slots.first_some h
  simpa using hi

theorem arpLookup_none {c : ArpCache} {ip : UInt32} (h : arpLookup c ip = none) (i : ArpIdx)
    (hst : (c i).state ≠ .free) : (c i).ip ≠ ip := by
  have hi := Slots.first_none h i
  intro hip
  simp [hst, hip] at hi

variable (a : Arp) (devs : Devs) (i : ArpIdx) (now : Nat) (dev : DevIdx)

/-- Counting anything else and transmitting leave the book alone. -/
theorem Arp.book_count {s : Stat} (hq : s ≠ .arpPktsQueued) (hd : s ≠ .arpWaitqDrops) :
    (a.count s).book = a.book := by
  have hstat {x : Stat} (hx : s ≠ x) : (a.count s).stats x = a.stats x :=
    a.stats.inc_of_ne hx.symm
  simp only [Arp.book, hstat hq, hstat hd]
  rfl

theorem Arp.book_queued :
    (a.count .arpPktsQueued).book = { a.book with queued := a.book.queued + 1 } := by
  have hdrops : (a.count .arpPktsQueued).stats .arpWaitqDrops = a.stats .arpWaitqDrops :=
    a.stats.inc_of_ne (c := .arpPktsQueued) (d := .arpWaitqDrops) (by decide)
  exact ArpBook.ext rfl (a.stats.inc_self .arpPktsQueued) hdrops rfl

theorem Arp.book_drops (n : UInt64) :
    (a.countBy .arpWaitqDrops n).book = { a.book with drops := a.book.drops + n } := by
  have hqueued : (a.countBy .arpWaitqDrops n).stats .arpPktsQueued = a.stats .arpPktsQueued :=
    a.stats.add_of_ne (c := .arpWaitqDrops) (d := .arpPktsQueued) n (by decide)
  exact ArpBook.ext rfl hqueued (a.stats.add_self .arpWaitqDrops n) rfl

theorem Arp.book_note (x : ArpAct) : (a.note x).book = a.book.note x := rfl

theorem Arp.book_setEntry (e : ArpEntry) : (a.setEntry i e).book = a.book.setEntry i e := rfl

theorem Arp.ethOutput_book (dst : Mac) (type : UInt16) (p : Pkt) :
    Post (fun _ => True) (fun b => b.book = a.book) (a.ethOutput devs dev dst type p) := by
  unfold Arp.ethOutput
  refine Post.bind (P := fun _ => True) ?_ fun f _ => ?_
  · cases ethFrame devs dev dst type p <;> trivial
  · exact a.book_count (s := .ethTxFrames) (by decide) (by decide)

theorem arpBytes_length (op : UInt16) (sha : Mac) (spa : UInt32) (tha : Mac) (tpa : UInt32) :
    (arpBytes op sha spa tha tpa).length = arpHdrLen := rfl

theorem arpSendRequest_book (ip : UInt32) (a : Arp) :
    Post (fun _ => True) (fun b => b.book = a.book.note (.asked dev ip))
      (arpSendRequest devs dev ip a) := by
  unfold arpSendRequest
  refine Post.bind (P := fun _ => True) ?_ fun p _ => ?_
  · exact (pktTx_post (by rw [arpBytes_length]; decide) _).imp fun _ _ => trivial
  · refine Post.bind (Arp.ethOutput_book _ devs dev _ _ p) fun b hb => ?_
    rw [a.book_count (by decide) (by decide)] at hb
    change (b.note _).book = _
    rw [Arp.book_note, hb]

theorem arpSendReply_book (sha : Mac) (spa : UInt32) (a : Arp) :
    Post (fun _ => True) (fun b => b.book = a.book) (arpSendReply devs dev sha spa a) := by
  unfold arpSendReply
  refine Post.bind (P := fun _ => True) ?_ fun p _ => ?_
  · exact (pktTx_post (by rw [arpBytes_length]; decide) _).imp fun _ _ => trivial
  · refine (Arp.ethOutput_book _ devs dev _ _ p).imp fun b hb => ?_
    rw [hb, a.book_count (by decide) (by decide)]

theorem arpAnswer_book (q : ArpPkt) (a : Arp) :
    Post (fun _ => True) (fun b => b.book = a.book) (arpAnswer devs dev q a) := by
  unfold arpAnswer
  split
  · refine (arpSendReply_book devs dev q.sha q.spa _).imp fun b hb => ?_
    rw [hb, a.book_count (by decide) (by decide)]
  split
  · exact a.book_count (by decide) (by decide)
  · exact rfl

/-- The loop empties the queue, in order. -/
theorem arpFlush_book (qs : List WaitPkt) (a : Arp) (hqs : (a.entries i).waitq = qs) :
    Post (fun _ => True)
      (fun b => b.book =
        { a.book.setEntry i { a.entries i with waitq := [] } with
          acts := (qs.map (.flushed (a.entries i).ip dev)).reverse ++ a.acts })
      (arpFlush devs i dev qs a) := by
  induction qs generalizing a with
  | nil =>
    have hsame : update a.entries i { a.entries i with waitq := [] } = a.entries := by
      rw [← hqs]
      exact update_eq_self i a.entries
    change a.book = _
    simp only [ArpBook.setEntry, Arp.book, hsame]
    rfl
  | cons q qs ih =>
    unfold arpFlush
    refine Post.bind (Arp.ethOutput_book _ devs dev _ _ q.pkt) fun b hb => ?_
    have hentries : (b.note (.flushed (a.entries i).ip dev q)).entries =
        update a.entries i { a.entries i with waitq := qs } :=
      congrArg ArpBook.entries hb
    have hi : (b.note (.flushed (a.entries i).ip dev q)).entries i =
        { a.entries i with waitq := qs } := by
      rw [hentries, update_self]
    have hacts : (b.note (.flushed (a.entries i).ip dev q)).acts =
        .flushed (a.entries i).ip dev q :: a.acts := by
      rw [← show b.acts = a.acts from congrArg ArpBook.acts hb]
      rfl
    refine (ih _ (by rw [hi])).imp fun c hc => ?_
    rw [hc, hi, hacts]
    refine ArpBook.ext ?_ (congrArg ArpBook.queued hb :) (congrArg ArpBook.drops hb :) ?_
    · simp only [ArpBook.setEntry, Arp.book, hentries, update_idem]
    · simp

theorem arpEntryResolve_book (mac : Mac) (now : Nat) (a : Arp) :
    Post (fun _ => True) (fun b => b.book = a.book.resolve i (a.entries i) dev mac now)
      (arpEntryResolve devs i dev mac now a) := by
  unfold arpEntryResolve ArpBook.resolve
  simp only
  split
  · refine (arpFlush_book devs i dev _ _ (by simp [Arp.setEntry])).imp fun b hb => ?_
    rw [hb]
    refine ArpBook.ext ?_ rfl rfl ?_
    · simp only [ArpBook.setEntry, Arp.book, Arp.setEntry, update_self,
        update_idem]
    · simp [Arp.setEntry, Arp.book]
  · exact rfl

/-- Whatever entry the slot held, it is written over. -/
theorem ArpBook.resolve_setEntry (k : ArpBook) (i : ArpIdx) (e e' : ArpEntry) (dev : DevIdx)
    (mac : Mac) (now : Nat) :
    (k.setEntry i e).resolve i e' dev mac now = k.resolve i e' dev mac now := by
  simp only [ArpBook.resolve, ArpBook.setEntry, update_idem]

theorem arpAllocEntry_book :
    (arpAllocEntry a).1 = a.book.slot ∧
      (arpAllocEntry a).2.book = a.book.setEntry a.book.slot a.book.base := by
  unfold arpAllocEntry ArpBook.slot ArpBook.base
  have hentries : a.book.entries = a.entries := rfl
  rw [hentries]
  cases hfree : arpFreeSlot a.entries with
  | some i =>
    refine ⟨rfl, ?_⟩
    have hsame : update a.entries i (a.entries i) = a.entries :=
      update_eq_self i a.entries
    simp only [Option.getD_some, ArpBook.setEntry, hentries, hsame]
    rfl
  | none =>
    refine ⟨rfl, ?_⟩
    simp only [Arp.book_setEntry, Option.getD_none]
    rw [a.book_count (by decide) (by decide)]

theorem arpMerge_turn (p : Pkt) (q : ArpPkt) (a : Arp) {k : ArpBook} (hp : arpReads p q)
    (hk : a.book = k.hear dev q) :
    Post (fun _ => True) (fun b => ArpTurn k (.input devs now dev p) b.book)
      (arpMerge devs now dev q a) := by
  have hentries : a.entries = k.entries := congrArg ArpBook.entries hk
  unfold arpMerge
  split
  · rename_i hspa
    change ArpTurn k _ a.book
    rw [hk]
    exact .ignored devs now dev p q hp (Or.inl hspa)
  rename_i hspa
  rw [hentries]
  cases hfind : arpLookup k.entries q.spa with
  | some i =>
    refine (arpEntryResolve_book devs i dev q.sha now a).imp fun b hb => ?_
    rw [hb, hk, hentries]
    exact .merged devs now dev p q i hp hspa hfind
  | none =>
    simp only
    split
    · rename_i hus
      obtain ⟨hslot, halloc⟩ := arpAllocEntry_book a
      -- neither the slot nor what it held depends on the record of acts
      have hslot' : (arpAllocEntry a).1 = k.slot := by rw [hslot, hk]; rfl
      have hbase : (arpAllocEntry a).2.entries k.slot = k.base := by
        have h := congrFun (congrArg ArpBook.entries halloc) k.slot
        rw [hk] at h
        exact h.trans (update_self _ _ _)
      rw [hslot']
      refine (arpEntryResolve_book devs _ dev q.sha now _).imp fun b hb => ?_
      have hi : ((arpAllocEntry a).2.setEntry k.slot
          { (arpAllocEntry a).2.entries k.slot with ip := q.spa }).entries k.slot =
          { k.base with ip := q.spa } := by
        rw [hbase]
        exact update_self _ _ _
      rw [hb, hi, Arp.book_setEntry, ArpBook.resolve_setEntry, halloc, hk]
      exact (ArpBook.resolve_setEntry (k.hear dev q) _ _ _ _ _ _).symm ▸
        ArpTurn.learnt devs now dev p q hp hspa hfind hus
    · rename_i hus
      change ArpTurn k _ a.book
      rw [hk]
      exact .ignored devs now dev p q hp (Or.inr ⟨hfind, by simpa using hus⟩)

theorem arpInput_turn (p : Pkt) (a : Arp) :
    Post (fun _ => True) (fun b => ArpTurn a.book (.input devs now dev p) b.book)
      (arpInput devs now dev p a) := by
  have hrx : (a.count .arpRx).book = a.book := a.book_count (by decide) (by decide)
  have hbad : ((a.count .arpRx).count .arpRxMalformed).book = a.book :=
    ((a.count .arpRx).book_count (by decide) (by decide)).trans hrx
  unfold arpInput
  simp only
  split
  · rename_i hlen
    change ArpTurn a.book _ _
    rw [hbad]
    exact .malformed devs now dev p fun q hq => absurd hq.1 (Nat.not_le_of_lt hlen)
  rename_i hlen
  refine Post.bind (P := fun ah => ah = p.data.take arpHdrLen) ?_ fun ah hah => ?_
  · rw [Pkt.view_ok (by omega), List.drop_zero]
    exact rfl
  rw [hah]
  cases hparse : arpParse (p.data.take arpHdrLen) with
  | none =>
    change ArpTurn a.book _ _
    rw [hbad]
    refine .malformed devs now dev p fun q hq => ?_
    cases hparse.symm.trans hq.2
  | some q =>
    have hp : arpReads p q := ⟨Nat.le_of_not_lt hlen, hparse⟩
    refine Post.bind (arpMerge_turn devs now dev p q _ hp (by rw [Arp.book_note, hrx]; rfl))
      fun b hb => ?_
    refine (arpAnswer_book devs dev q b).imp fun c hc => ?_
    rw [hc]
    exact hb

theorem arpPark_book (q : WaitPkt) (a : Arp) : (arpPark i q a).book = a.book.park i q := by
  have hentries : a.book.entries = a.entries := rfl
  have hdrop : (a.count .arpWaitqDrops).book = { a.book with drops := a.book.drops + 1 } :=
    a.book_drops 1
  unfold arpPark ArpBook.park
  simp only [hentries]
  split
  · rw [Arp.book_note, Arp.book_queued, Arp.book_setEntry, hdrop]
    rfl
  · rw [Arp.book_note, Arp.book_queued, Arp.book_setEntry]
    rfl

theorem arpOpen_book (nextHop : UInt32) (a : Arp) :
    Post (fun _ => True)
      (fun r => r.1 = a.book.slot ∧ r.2.book = a.book.openEntry dev nextHop now)
      (arpOpen devs now dev nextHop a) := by
  obtain ⟨hslot, halloc⟩ := arpAllocEntry_book a
  have hbase : (arpAllocEntry a).2.entries a.book.slot = a.book.base :=
    (congrFun (congrArg ArpBook.entries halloc) a.book.slot).trans (update_self _ _ _)
  unfold arpOpen
  simp only
  refine Post.bind (arpSendRequest_book devs dev nextHop _) fun b hb => ?_
  refine ⟨hslot, hb.trans ?_⟩
  rw [Arp.book_note, Arp.book_setEntry, halloc, hslot, hbase]
  simp only [ArpBook.openEntry, ArpBook.setEntry, update_idem]

theorem arpResolve_turn (nextHop : UInt32) (p : Option Pkt) (a : Arp) :
    Post (fun _ => True) (fun r => ArpTurn a.book (.resolve devs now dev nextHop p) r.1.book)
      (arpResolve devs now dev nextHop p a) := by
  unfold arpResolve
  cases hfind : arpLookup a.entries nextHop with
  | some i =>
    simp only
    split
    · rename_i hst
      exact .answered devs now dev nextHop p i hfind hst
    · rename_i hst
      have hpend : (a.book.entries i).state = .pending := by
        have hfree := (arpLookup_spec hfind).1
        cases h : (a.entries i).state with
        | free => exact absurd h hfree
        | resolved => exact absurd h hst
        | pending => exact h
      have hturn := ArpTurn.waited devs now dev nextHop p i hfind hpend
      cases p with
      | none => exact hturn
      | some p =>
        change ArpTurn _ _ (arpPark i ⟨dev, p⟩ a).book
        rw [arpPark_book]
        exact hturn
  | none =>
    refine Post.bind (arpOpen_book devs now dev nextHop a) fun r hr => ?_
    obtain ⟨hslot, hbook⟩ := hr
    have hturn := ArpTurn.opened (k := a.book) devs now dev nextHop p hfind
    cases p with
    | none =>
      change ArpTurn _ _ r.2.book
      rw [hbook]
      exact hturn
    | some p =>
      change ArpTurn _ _ (arpPark r.1 ⟨dev, p⟩ r.2).book
      rw [arpPark_book, hbook, hslot]
      exact hturn

theorem arpVisit_book (a : Arp) (i : ArpIdx) :
    Post (fun _ => True) (fun b => Relation.ReflTransGen (ArpVisit now) a.book b.book)
      (arpVisit devs now a i) := by
  unfold arpVisit
  simp only
  split
  · exact .refl
  rename_i hdue
  split
  · rename_i hst
    change Relation.ReflTransGen _ _ (Arp.book _)
    rw [Arp.book_count _ (by decide) (by decide), Arp.book_setEntry]
    exact .single (.expire i hst)
  rename_i hst
  have hpend : (a.entries i).state = .pending := by
    cases h : (a.entries i).state with
    | free => exact absurd (Or.inl h) hdue
    | resolved => exact absurd h hst
    | pending => rfl
  split
  · rename_i hmax
    refine .single ?_
    rw [Arp.book_setEntry, Arp.book_drops, Arp.book_count _ (by decide) (by decide)]
    exact .giveUp i hpend hmax
  · rename_i hmax
    cases hdev : (a.entries i).dev with
    | none => trivial
    | some dev =>
      refine (arpSendRequest_book devs dev _ _).imp fun b hb => ?_
      have hvisit : ArpVisit now a.book (a.book.retry i dev now) :=
        .retry i dev hpend (UInt8.not_le.mp hmax) hdev
      rw [hb, Arp.book_setEntry, ← hdev]
      exact .single hvisit

theorem arpStep_turn {a b : Arp} {e : ArpEvent} (h : arpStep a e = .ok b) :
    ArpTurn a.book e b.book := by
  cases e with
  | input devs now dev p => exact (arpInput_turn devs now dev p a).of_ok h
  | resolve devs now dev nextHop p =>
    cases hr : arpResolve devs now dev nextHop p a with
    | error f =>
      simp only [arpStep, hr] at h
      cases h
    | ok r =>
      simp only [arpStep, hr] at h
      cases h
      exact (arpResolve_turn devs now dev nextHop p a).of_ok hr
  | tick devs now =>
    have hticks : Post (fun _ => True)
        (fun b => Relation.ReflTransGen (ArpVisit now) a.book b.book) (arpTick devs now a) := by
      refine Post.foldlM _ (fun b i _ hb => ?_) .refl
      exact (arpVisit_book devs now b i).imp fun c hc => hb.trans hc
    exact .ticked devs now (hticks.of_ok h)

end PacketForge
