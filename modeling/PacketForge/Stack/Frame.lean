import PacketForge.Stack.Action

/-!
What sending leaves alone. The output path touches the ARP cache, its own
counters, the frames transmitted and the bookkeeping of IP and ICMP, and nothing
else; in particular none of the counters of received packets. It stops at no
access outside a buffer.
-/

namespace PacketForge

open Checked

/-- The fault is not an access outside a packet or a buffer. -/
def Fault.inBounds (f : Fault) : Prop := f ≠ .read ∧ f ≠ .negative ∧ f ≠ .write

theorem Fault.inBounds_assert (op : PktOp) : (Fault.assert op).inBounds := by
  simp [Fault.inBounds]

theorem Fault.inBounds_null : Fault.null.inBounds := by simp [Fault.inBounds]

theorem Fault.inBounds_stuck : Fault.stuck.inBounds := by simp [Fault.inBounds]

/-! ### ARP -/

section Arp

variable {devs : Devs} {now : Nat} {dev : DevIdx} {st : Stats}

theorem ethFrame_inBounds (devs : Devs) (dev : DevIdx) (dst : Mac) (type : UInt16) (p : Pkt) :
    Post Fault.inBounds (fun _ => True) (ethFrame devs dev dst type p) := by
  rw [ethFrame_eq]
  split
  · trivial
  · exact Fault.inBounds_assert _

theorem pktTx_inBounds (bytes : List UInt8) :
    Post Fault.inBounds (fun _ => True) (pktTx bytes) := by
  by_cases h : bytes.length ≤ pktBufSize - pktTxHeadroom
  · exact (pktTx_post h _).imp fun _ _ => trivial
  · rw [pktTx_error (Nat.lt_of_not_le h)]
    exact Fault.inBounds_assert _

theorem Arp.ethOutput_same {a : Arp} (h : st.Same a.stats) (devs : Devs) (dev : DevIdx) (dst : Mac)
    (type : UInt16) (p : Pkt) :
    Post Fault.inBounds (fun a' => st.Same a'.stats) (a.ethOutput devs dev dst type p) :=
  Post.bind (ethFrame_inBounds devs dev dst type p) fun _ _ => h.inc rfl

theorem arpFlush_same (i : ArpIdx) (l : List WaitPkt) {a : Arp} (h : st.Same a.stats) :
    Post Fault.inBounds (fun a' => st.Same a'.stats) (arpFlush devs i dev l a) := by
  induction l generalizing a with
  | nil => exact h
  | cons q rest ih =>
    refine Post.bind (Arp.ethOutput_same (a := a.setEntry i _) h devs dev _ _ _) fun a' ha' => ?_
    exact ih ha'

theorem arpEntryResolve_same (i : ArpIdx) (mac : Mac) {a : Arp} (h : st.Same a.stats) :
    Post Fault.inBounds (fun a' => st.Same a'.stats) (arpEntryResolve devs i dev mac now a) := by
  unfold arpEntryResolve
  simp only
  split
  · exact arpFlush_same i _ h
  · exact h

theorem arpAllocEntry_same {a : Arp} (h : st.Same a.stats) : st.Same (arpAllocEntry a).2.stats := by
  unfold arpAllocEntry
  split
  · exact h
  · exact h.inc rfl

theorem arpSendRequest_same (ip : UInt32) {a : Arp} (h : st.Same a.stats) :
    Post Fault.inBounds (fun a' => st.Same a'.stats) (arpSendRequest devs dev ip a) := by
  refine Post.bind (pktTx_inBounds _) fun p _ => ?_
  refine Post.bind (Arp.ethOutput_same (a := a.count _) (h.inc rfl) devs dev _ _ p) fun a' ha' => ?_
  exact ha'

theorem arpSendReply_same (sha : Mac) (spa : UInt32) {a : Arp} (h : st.Same a.stats) :
    Post Fault.inBounds (fun a' => st.Same a'.stats) (arpSendReply devs dev sha spa a) := by
  refine Post.bind (pktTx_inBounds _) fun p _ => ?_
  exact Arp.ethOutput_same (a := a.count _) (h.inc rfl) devs dev _ _ p

theorem arpPark_same (i : ArpIdx) (q : WaitPkt) {a : Arp} (h : st.Same a.stats) :
    st.Same (arpPark i q a).stats := by
  unfold arpPark
  simp only
  split
  · exact (h.inc rfl).inc rfl
  · exact h.inc rfl

theorem arpResolve_same (nextHop : UInt32) (p : Option Pkt) {a : Arp} (h : st.Same a.stats) :
    Post Fault.inBounds (fun r => st.Same r.1.stats) (arpResolve devs now dev nextHop p a) := by
  have hpark (i : ArpIdx) {b : Arp} (hb : st.Same b.stats) :
      st.Same (p.elim b fun p => arpPark i ⟨dev, p⟩ b).stats := by
    cases p with
    | none => exact hb
    | some p => exact arpPark_same i _ hb
  unfold arpResolve
  split
  · simp only
    split
    · exact h
    · exact hpark _ h
  · unfold arpOpen
    have halloc := arpAllocEntry_same h
    generalize arpAllocEntry a = r at halloc
    simp only [bind_assoc]
    refine Post.bind (arpSendRequest_same nextHop (a := Arp.note _ _) halloc) fun a' ha' => ?_
    exact hpark _ ha'

theorem arpMerge_same (q : ArpPkt) {a : Arp} (h : st.Same a.stats) :
    Post Fault.inBounds (fun a' => st.Same a'.stats) (arpMerge devs now dev q a) := by
  unfold arpMerge
  split
  · exact h
  split
  · exact arpEntryResolve_same _ _ h
  split
  · exact arpEntryResolve_same _ _ (arpAllocEntry_same h)
  · exact h

theorem arpAnswer_same (q : ArpPkt) {a : Arp} (h : st.Same a.stats) :
    Post Fault.inBounds (fun a' => st.Same a'.stats) (arpAnswer devs dev q a) := by
  unfold arpAnswer
  split
  · exact arpSendReply_same _ _ (h.inc rfl)
  split
  · exact h.inc rfl
  · exact h

theorem arpInput_same (p : Pkt) (a : Arp) :
    Post Fault.inBounds (fun a' => (a.stats.inc .arpRx).Same a'.stats)
      (arpInput devs now dev p a) := by
  have h : (a.stats.inc .arpRx).Same (a.count .arpRx).stats := Stats.Same.refl _
  unfold arpInput
  simp only
  split
  · exact h.inc rfl
  · rename_i hlen
    rw [Pkt.view_ok (by omega), ok_bind]
    cases arpParse _ with
    | none => exact h.inc rfl
    | some q =>
      refine Post.bind (arpMerge_same q (a := Arp.note _ _) h) fun a' ha' => ?_
      exact arpAnswer_same q ha'

theorem arpTick_same {a : Arp} (h : st.Same a.stats) :
    Post Fault.inBounds (fun a' => st.Same a'.stats) (arpTick devs now a) := by
  refine Post.foldlM _ (fun a i _ ha => ?_) h
  unfold arpVisit
  simp only
  split
  · exact ha
  split
  · exact ha.inc rfl
  split
  · exact (ha.inc rfl).add rfl _
  split
  · exact Fault.inBounds_null
  · exact arpSendRequest_same _ (a := Arp.setEntry _ _ _) ha

end Arp

/-! ### IP -/

/-- The stack without what sending changes. -/
def Stack.rest (s : Stack) : Stack :=
  { s with
    cache := fun _ => ArpEntry.zero
    ipId := 0
    icmpLastErrMs := 0
    stats := Stats.zero
    tx := []
    acts := []
    errors := [] }

/-- What sending can do to a stack. -/
structure Sent (s s' : Stack) : Prop where
  rest : s'.rest = s.rest
  stats : s.stats.Same s'.stats

namespace Sent

variable {s s' s'' : Stack}

theorem refl (s : Stack) : Sent s s := ⟨rfl, Stats.Same.refl _⟩

theorem trans (h : Sent s s') (h' : Sent s' s'') : Sent s s'' :=
  ⟨h'.rest.trans h.rest, h.stats.trans h'.stats⟩

theorem count (h : Sent s s') {c : Stat} (hc : c.received = false) : Sent s (s'.count c) :=
  ⟨h.rest, h.stats.inc hc⟩

theorem putArp (h : Sent s s') {a : Arp} (ha : s'.stats.Same a.stats) : Sent s (s'.putArp a) :=
  ⟨h.rest, h.stats.trans ha⟩

theorem noteError (h : Sent s s') (e : IcmpError) : Sent s (s'.noteError e) := by
  unfold Stack.noteError
  split
  · exact ⟨h.rest, h.stats⟩
  · exact h

theorem devs (h : Sent s s') : s'.devs = s.devs :=
  show s'.rest.devs = s.rest.devs by rw [h.rest]

theorem fib (h : Sent s s') : s'.fib = s.fib :=
  show s'.rest.fib = s.rest.fib by rw [h.rest]

theorem ctxs (h : Sent s s') : s'.ctxs = s.ctxs :=
  show s'.rest.ctxs = s.rest.ctxs by rw [h.rest]

theorem tcbs (h : Sent s s') : s'.tcbs = s.tcbs :=
  show s'.rest.tcbs = s.rest.tcbs by rw [h.rest]

theorem socks (h : Sent s s') : s'.socks = s.socks :=
  show s'.rest.socks = s.rest.socks by rw [h.rest]

end Sent

/-- The property survives what sending does to a stack. -/
structure TransmitKept (I : Stack → Prop) : Prop where
  count {s : Stack} {c : Stat} : c.received = false → I s → I (s.count c)
  putArp {s : Stack} {a : Arp} : s.stats.Same a.stats → I s → I (s.putArp a)
  ipId {s : Stack} (id : UInt16) : I s → I { s with ipId := id }

theorem Sent.transmitKept (t : Stack) : TransmitKept (Sent t) where
  count hc h := h.count hc
  putArp ha h := h.putArp ha
  ipId _ h := ⟨h.rest, h.stats⟩

theorem pktPush_inBounds (p : Pkt) (hdr : List UInt8) :
    Post Fault.inBounds (fun _ => True) (pktPush p hdr) := by
  unfold pktPush
  split
  · trivial
  · exact Fault.inBounds_assert _

namespace TransmitKept

variable {I : Stack → Prop} {s : Stack} {now : Nat} {dev : DevIdx}

theorem arpOutput (hI : TransmitKept I) (h : I s) (nextHop : UInt32) (p : Pkt) :
    Post Fault.inBounds I (arpOutput s now dev nextHop p) := by
  refine Post.bind (arpResolve_same nextHop (some p) (a := s.arp) (Stats.Same.refl _))
    fun r hr => ?_
  obtain ⟨a, mac⟩ := r
  cases mac with
  | none => exact hI.putArp hr h
  | some mac =>
    refine Post.bind (Arp.ethOutput_same hr s.devs dev mac _ p) fun a' ha' => ?_
    exact hI.putArp ha' h

theorem ipOutputOne (hI : TransmitKept I) (h : I s) (nextHop src dst : UInt32) (proto ttl : UInt8)
    (id frag : UInt16) (p : Pkt) :
    Post Fault.inBounds I (ipOutputOne s now dev nextHop src dst proto ttl id frag p) := by
  refine Post.bind (pktPush_inBounds p _) fun p _ => ?_
  have hcount : I (s.count .ipTx) := hI.count rfl h
  simp only
  split
  · refine Post.bind (Arp.ethOutput_same (Stats.Same.refl _) _ dev _ _ p) fun a' ha' => ?_
    exact hI.putArp ha' hcount
  · exact hI.arpOutput hcount nextHop p

theorem ipFragLoop (hI : TransmitKept I) {send : Stack → UInt16 → Pkt → Except Fault Stack}
    (hsend : ∀ s field p, I s → Post Fault.inBounds I (send s field p))
    (payload : List UInt8) (chunk fuel off : Nat) (h : I s) :
    Post Fault.inBounds I (ipFragLoop send payload chunk fuel off s) := by
  induction fuel generalizing off s with
  | zero =>
    unfold PacketForge.ipFragLoop
    split
    · exact Fault.inBounds_stuck
    · exact h
  | succ fuel ih =>
    unfold PacketForge.ipFragLoop
    split
    · refine Post.bind (pktTx_inBounds _) fun fp _ => ?_
      exact Post.bind (hsend _ _ fp (hI.count rfl h)) fun s' hs' => ih _ hs'
    · exact h

theorem ipOutput (hI : TransmitKept I) (h : I s) (src dst : UInt32) (proto ttl : UInt8) (p : Pkt) :
    Post Fault.inBounds I (ipOutput s now src dst proto ttl p) := by
  unfold PacketForge.ipOutput
  split
  · exact hI.count rfl h
  simp only
  split
  · exact hI.count rfl h
  have hid : I { s with ipId := s.ipId + 1 } := hI.ipId _ h
  split
  · exact hI.ipOutputOne hid _ _ _ _ _ _ _ p
  · exact hI.ipFragLoop (fun s' field fp hs' => hI.ipOutputOne hs' _ _ _ _ _ _ _ fp) _ _ _ _ hid

theorem tcpTransmit (hI : TransmitKept I) (h : I s) (g : Seg) :
    Post Fault.inBounds I (tcpTransmit now s g) :=
  Post.bind (pktTx_inBounds _) fun p _ => hI.ipOutput h _ _ _ _ p

theorem runHost (hI : TransmitKept I) (f : Host → Host) (h : I (s.putHost (f s.host))) :
    Post Fault.inBounds I (s.runHost now f) := by
  unfold Stack.runHost
  simp only
  split
  · exact Fault.inBounds_assert _
  · exact Post.foldlM _ (fun s' g _ hs' => hI.tcpTransmit hs' g) h

end TransmitKept

section Output

variable {s t : Stack} {now : Nat} {dev : DevIdx}

theorem arpOutput_sent (h : Sent t s) (nextHop : UInt32) (p : Pkt) :
    Post Fault.inBounds (Sent t) (arpOutput s now dev nextHop p) :=
  (Sent.transmitKept t).arpOutput h nextHop p

theorem ipOutput_sent (h : Sent t s) (src dst : UInt32) (proto ttl : UInt8) (p : Pkt) :
    Post Fault.inBounds (Sent t) (ipOutput s now src dst proto ttl p) :=
  (Sent.transmitKept t).ipOutput h src dst proto ttl p

theorem icmpTransmitError_sent (h : Sent t s) (orig : List UInt8) (type code : UInt8) :
    Post Fault.inBounds (Sent t) (icmpTransmitError s now orig type code) := by
  unfold icmpTransmitError
  rw [readAt_take (Nat.min_le_left _ _), ok_bind]
  refine Post.bind (pktTx_inBounds _) fun p _ => ?_
  have hlast : Sent t { s.count .icmpErrTx with icmpLastErrMs := now } := ⟨h.rest, h.stats.inc rfl⟩
  exact ipOutput_sent (hlast.noteError _) _ _ _ _ p

theorem icmpSendError_sent (h : Sent t s) (orig : List UInt8) (type code : UInt8) :
    Post Fault.inBounds (Sent t) (icmpSendError s now orig type code) := by
  rw [icmpSendError_eq]
  split
  · split
    · exact h.count rfl
    · exact icmpTransmitError_sent h orig type code
  · exact h

theorem runHost_sent (s : Stack) (now : Nat) (f : Host → Host) :
    Post Fault.inBounds (Sent (s.putHost (f s.host))) (s.runHost now f) :=
  (Sent.transmitKept _).runHost f (Sent.refl _)

end Output

end PacketForge
