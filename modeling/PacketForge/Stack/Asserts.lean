import PacketForge.Arp.Book
import PacketForge.Stack.Errors
import PacketForge.Stack.Verdict

/-!
The assertions of the packet buffers (`pkt.c`). What the stack builds starts behind
128 bytes of headroom, enough for all headers, and what it forwards had its Ethernet
header stripped; so nothing that is pushed runs out of room, parked packets included.
Appending is another matter: a reply to an echo request carries the whole message,
and a message may be longer than what fits behind the headroom.
-/

namespace PacketForge

open Checked

/-- The fault is not a failed assertion of a packet buffer. -/
def Fault.noAssert (f : Fault) : Prop := ∀ op, f ≠ .assert op

theorem Fault.noAssert_null : Fault.null.noAssert := nofun

theorem Fault.noAssert_stuck : Fault.stuck.noAssert := nofun

theorem Fault.noAssert_write : Fault.write.noAssert := nofun

theorem pktTx_noAssert {bytes : List UInt8} (h : bytes.length ≤ pktBufSize - pktTxHeadroom) :
    Post Fault.noAssert (fun p => p.head = pktTxHeadroom ∧ p.data = bytes) (pktTx bytes) :=
  pktTx_post h _

/-! ### ARP -/

/-- Every parked packet has room for the Ethernet header. -/
def Roomy (c : ArpCache) : Prop := ∀ i, ∀ q ∈ (c i).waitq, ethHdrLen ≤ q.pkt.head

theorem Roomy.update {c : ArpCache} (h : Roomy c) (i : ArpIdx) {e : ArpEntry}
    (he : ∀ q ∈ e.waitq, ethHdrLen ≤ q.pkt.head) : Roomy (Function.update c i e) := by
  intro j
  rcases eq_or_ne j i with rfl | hj
  · rw [Function.update_self]
    exact he
  · rw [Function.update_of_ne hj]
    exact h j

/-- The call fails no assertion and leaves room in front of what is parked. -/
abbrev KeepsRoom (m : Except Fault Arp) : Prop := Post Fault.noAssert (fun a => Roomy a.entries) m

section Arp

variable (devs : Devs) (now : Nat) (dev : DevIdx) (a : Arp) (i : ArpIdx)

theorem ethOutput_keepsRoom (dst : Mac) (type : UInt16) {p : Pkt} (hp : ethHdrLen ≤ p.head)
    (h : Roomy a.entries) : KeepsRoom (a.ethOutput devs dev dst type p) := by
  unfold Arp.ethOutput
  rw [ethFrame_eq, if_pos hp]
  exact h

theorem arpFlush_keepsRoom {l : List WaitPkt} (hl : ∀ q ∈ l, ethHdrLen ≤ q.pkt.head)
    (h : Roomy a.entries) : KeepsRoom (arpFlush devs i dev l a) := by
  induction l generalizing a with
  | nil => exact h
  | cons q rest ih =>
    have hrest : ∀ q ∈ rest, ethHdrLen ≤ q.pkt.head := fun x hx => hl x (List.mem_cons_of_mem _ hx)
    unfold arpFlush
    refine Post.bind (ethOutput_keepsRoom devs dev _ _ _ (hl q List.mem_cons_self) ?_)
      fun b hb => ?_
    · exact h.update i hrest
    · exact ih _ hrest hb

theorem arpEntryResolve_keepsRoom (mac : Mac) (h : Roomy a.entries) :
    KeepsRoom (arpEntryResolve devs i dev mac now a) := by
  unfold arpEntryResolve
  simp only
  split
  · exact arpFlush_keepsRoom devs dev _ i (h i) (h.update i (h i))
  · exact h.update i (h i)

theorem arpAllocEntry_roomy (h : Roomy a.entries) : Roomy (arpAllocEntry a).2.entries := by
  unfold arpAllocEntry
  split
  · exact h
  · exact h.update _ nofun

theorem arpSendRequest_keepsRoom (ip : UInt32) (h : Roomy a.entries) :
    KeepsRoom (arpSendRequest devs dev ip a) := by
  refine Post.bind (pktTx_noAssert (by rw [arpBytes_length]; decide)) fun p hp => ?_
  have hroom : ethHdrLen ≤ p.head := hp.1 ▸ by decide
  exact Post.bind (ethOutput_keepsRoom devs dev (a.count .arpRequestsTx) _ _ hroom h) fun b hb => hb

theorem arpSendReply_keepsRoom (sha : Mac) (spa : UInt32) (h : Roomy a.entries) :
    KeepsRoom (arpSendReply devs dev sha spa a) := by
  refine Post.bind (pktTx_noAssert (by rw [arpBytes_length]; decide)) fun p hp => ?_
  have hroom : ethHdrLen ≤ p.head := hp.1 ▸ by decide
  exact ethOutput_keepsRoom devs dev (a.count .arpRepliesTx) _ _ hroom h

theorem arpMerge_keepsRoom (q : ArpPkt) (h : Roomy a.entries) :
    KeepsRoom (arpMerge devs now dev q a) := by
  unfold arpMerge
  split
  · exact h
  split
  · exact arpEntryResolve_keepsRoom devs now dev a _ _ h
  split
  · have halloc := arpAllocEntry_roomy a h
    generalize arpAllocEntry a = picked at halloc
    exact arpEntryResolve_keepsRoom devs now dev _ _ _ (halloc.update picked.1 (halloc picked.1))
  · exact h

theorem arpAnswer_keepsRoom (q : ArpPkt) (h : Roomy a.entries) :
    KeepsRoom (arpAnswer devs dev q a) := by
  unfold arpAnswer
  split
  · exact arpSendReply_keepsRoom devs dev (a.count .arpReqForUs) _ _ h
  split
  · exact h
  · exact h

theorem arpInput_keepsRoom (p : Pkt) (h : Roomy a.entries) :
    KeepsRoom (arpInput devs now dev p a) := by
  unfold arpInput
  simp only
  split
  · exact h
  · rename_i hlen
    rw [Pkt.view_ok (by omega), ok_bind]
    cases arpParse _ with
    | none => exact h
    | some q =>
      refine Post.bind (arpMerge_keepsRoom devs now dev _ q ?_) fun b hb => ?_
      · exact h
      · exact arpAnswer_keepsRoom devs dev b q hb

theorem arpPark_roomy {q : WaitPkt} (hq : ethHdrLen ≤ q.pkt.head) (h : Roomy a.entries) :
    Roomy (arpPark i q a).entries := by
  have hadd {l : List WaitPkt} (hl : ∀ x ∈ l, ethHdrLen ≤ x.pkt.head) :
      ∀ x ∈ l ++ [q], ethHdrLen ≤ x.pkt.head := by
    intro x hx
    rcases List.mem_append.mp hx with hx | hx
    · exact hl x hx
    · rw [List.mem_singleton.mp hx]
      exact hq
  unfold arpPark
  simp only
  split
  · exact h.update i (hadd fun x hx => h i x (List.mem_of_mem_tail hx))
  · exact h.update i (hadd (h i))

theorem arpResolve_keepsRoom (nextHop : UInt32) {p : Pkt} (hp : ethHdrLen ≤ p.head)
    (h : Roomy a.entries) :
    Post Fault.noAssert (fun r => Roomy r.1.entries)
      (arpResolve devs now dev nextHop (some p) a) := by
  unfold arpResolve
  split
  · simp only
    split
    · exact h
    · exact arpPark_roomy a _ (q := ⟨dev, p⟩) hp h
  · unfold arpOpen
    have halloc := arpAllocEntry_roomy a h
    generalize arpAllocEntry a = picked at halloc
    simp only [bind_assoc]
    refine Post.bind (arpSendRequest_keepsRoom devs dev _ nextHop ?_) fun b hb => ?_
    · exact halloc.update picked.1 (halloc picked.1)
    · exact arpPark_roomy b _ (q := ⟨dev, p⟩) hp hb

theorem arpTick_keepsRoom (h : Roomy a.entries) : KeepsRoom (arpTick devs now a) := by
  refine Post.foldlM _ (fun a i _ h => ?_) h
  unfold arpVisit
  simp only
  split
  · exact h
  split
  · exact h.update i (h i)
  split
  · exact h.update i nofun
  split
  · exact Fault.noAssert_null
  · exact arpSendRequest_keepsRoom devs _ _ _ (h.update i (h i))

end Arp

/-! ### IP -/

/-- A stack on links of MTU 1500 that has opened no socket. -/
structure Passive (s : Stack) : Prop where
  roomy : Roomy s.cache
  mtu : ∀ dev, (s.devs dev).mtu = 1500
  idle : ∀ i, (s.tcbs i).active = false

theorem maxChunk_ethernet {d : NetDev} (h : d.mtu = 1500) : maxChunk d = 1480 := by
  rw [maxChunk, h]
  rfl

theorem tcbLookup_idle {h : Host} (hidle : ∀ i, (h.tcbs i).active = false) (lip : UInt32)
    (lport : UInt16) (rip : UInt32) (rport : UInt16) : tcbLookup h lip lport rip rport = none := by
  unfold tcbLookup
  induction List.finRange tcpMaxConns with
  | nil => rfl
  | cons i rest ih =>
    simp only [tcbLookupLoop, hidle, Bool.not_false, if_true, ih]

/-- Without a connection every segment is answered by a reset. -/
theorem tcpInput_idle {h : Host} (hidle : ∀ i, (h.tcbs i).active = false) (now : Nat) (g : Seg) :
    tcpInput now g h = ((h.count .tcpRxSegs).count .tcpRxNoMatch).sendResetFor g := by
  have hnone : tcbLookup (h.count .tcpRxSegs) g.dst g.dport g.src g.sport = none :=
    tcbLookup_idle (h := h.count _) hidle _ _ _ _
  simp only [tcpInput, hnone]

theorem tcpTick_idle {h : Host} (hidle : ∀ i, (h.tcbs i).active = false) (now : Nat) :
    tcpTick now h = h := by
  refine Slots.each_invariant (P := (· = h)) ?_ rfl
  rintro _ i rfl
  rw [hidle i]
  rfl

namespace Passive

variable {s : Stack} {now : Nat} {dev : DevIdx}

theorem count (h : Passive s) (c : Stat) : Passive (s.count c) := ⟨h.roomy, h.mtu, h.idle⟩

theorem counts (h : Passive s) (cs : List Stat) : Passive (s.counts cs) := by
  rw [Stack.counts_eq]
  exact ⟨h.roomy, h.mtu, h.idle⟩

theorem putArp (h : Passive s) {a : Arp} (ha : Roomy a.entries) : Passive (s.putArp a) :=
  ⟨ha, h.mtu, h.idle⟩

theorem putReass (h : Passive s) (r : Reass) : Passive (s.putReass r) := ⟨h.roomy, h.mtu, h.idle⟩

theorem noteError (h : Passive s) (e : IcmpError) : Passive (s.noteError e) := by
  unfold Stack.noteError
  split
  · exact ⟨h.roomy, h.mtu, h.idle⟩
  · exact h

theorem arpOutput (h : Passive s) (nextHop : UInt32) {p : Pkt} (hp : ethHdrLen ≤ p.head) :
    Post Fault.noAssert Passive (arpOutput s now dev nextHop p) := by
  refine Post.bind (arpResolve_keepsRoom s.devs now dev s.arp nextHop hp h.roomy) fun r hr => ?_
  obtain ⟨a, mac⟩ := r
  cases mac with
  | none => exact h.putArp hr
  | some mac =>
    refine Post.bind (ethOutput_keepsRoom s.devs dev a mac _ hp hr) fun b hb => ?_
    exact h.putArp hb

theorem ipOutputOne (h : Passive s) (nextHop src dst : UInt32) (proto ttl : UInt8)
    (id frag : UInt16) {p : Pkt} (hp : ipv4HdrMin + ethHdrLen ≤ p.head) :
    Post Fault.noAssert Passive (ipOutputOne s now dev nextHop src dst proto ttl id frag p) := by
  refine Post.bind (pktPush_post (Nat.le_trans (Nat.le_add_right _ _) hp) _) fun q hq => ?_
  have hroom : ethHdrLen ≤ q.head := by
    rw [hq.1]
    exact Nat.le_sub_of_add_le' hp
  have hcount : Passive (s.count .ipTx) := h.count _
  simp only
  split
  · refine Post.bind (ethOutput_keepsRoom _ dev _ _ _ hroom hcount.roomy) fun b hb => ?_
    exact hcount.putArp hb
  · exact hcount.arpOutput nextHop hroom

theorem ipFragLoop {send : Stack → UInt16 → Pkt → Except Fault Stack}
    (hsend : ∀ s field p, Passive s → p.head = pktTxHeadroom →
      Post Fault.noAssert Passive (send s field p))
    (payload : List UInt8) {chunk : Nat} (hchunk : chunk ≤ pktBufSize - pktTxHeadroom)
    (fuel off : Nat)
    (h : Passive s) : Post Fault.noAssert Passive (ipFragLoop send payload chunk fuel off s) := by
  induction fuel generalizing off s with
  | zero =>
    unfold PacketForge.ipFragLoop
    split
    · exact Fault.noAssert_stuck
    · exact h
  | succ fuel ih =>
    unfold PacketForge.ipFragLoop
    split
    · have hfits : ((payload.drop off).take (min chunk (payload.length - off))).length ≤
          pktBufSize - pktTxHeadroom :=
        (List.length_take_le _ _).trans ((Nat.min_le_left _ _).trans hchunk)
      refine Post.bind (pktTx_noAssert hfits) fun fp hfp => ?_
      exact Post.bind (hsend _ _ fp (h.count _) hfp.1) fun s' hs' => ih _ hs'
    · exact h

theorem ipOutput (h : Passive s) (src dst : UInt32) (proto ttl : UInt8) {p : Pkt}
    (hp : p.head = pktTxHeadroom) :
    Post Fault.noAssert Passive (ipOutput s now src dst proto ttl p) := by
  have hroom {q : Pkt} (hq : q.head = pktTxHeadroom) : ipv4HdrMin + ethHdrLen ≤ q.head :=
    hq ▸ by decide
  unfold PacketForge.ipOutput
  split
  · exact h.count _
  rename_i dev nextHop _
  simp only
  split
  · exact h.count _
  have hid : Passive { s with ipId := s.ipId + 1 } := ⟨h.roomy, h.mtu, h.idle⟩
  split
  · exact hid.ipOutputOne _ _ _ _ _ _ _ (hroom hp)
  · have hchunk : maxChunk (s.devs dev) ≤ pktBufSize - pktTxHeadroom := by
      rw [maxChunk_ethernet (h.mtu dev)]
      decide
    exact ipFragLoop (fun s' field fp hs' hfp => hs'.ipOutputOne _ _ _ _ _ _ _ (hroom hfp)) _ hchunk
      _ _ hid

/-- An error quotes at most a header with all options and 8 bytes. -/
theorem icmpSendError (h : Passive s) (orig : List UInt8) (type code : UInt8) :
    Post Fault.noAssert Passive (icmpSendError s now orig type code) := by
  rw [icmpSendError_eq]
  split
  · split
    · exact h.count _
    · unfold icmpTransmitError
      rw [readAt_take (Nat.min_le_left _ _), ok_bind]
      have hfits :
          (icmpErrorMsg (orig.take (min orig.length (ipHdrLen orig + 8))) type code).length ≤
            pktBufSize - pktTxHeadroom := by
        have hihl := ipHdrLen_le orig
        rw [icmpErrorMsg_length, List.length_take]
        change _ ≤ 3968
        omega
      refine Post.bind (pktTx_noAssert hfits) fun p hp => ?_
      have hlast : Passive { s.count .icmpErrTx with icmpLastErrMs := now } :=
        ⟨h.roomy, h.mtu, h.idle⟩
      exact (hlast.noteError _).ipOutput _ _ _ _ hp.1
  · exact h

theorem tcpTransmit (h : Passive s) {g : Seg} (hopts : g.opts = []) (hpayload : g.payload = []) :
    Post Fault.noAssert Passive (tcpTransmit now s g) := by
  have hfits : (tcpBytes g).length ≤ pktBufSize - pktTxHeadroom := by
    rw [tcpBytes_length, hopts, hpayload]
    decide
  exact Post.bind (pktTx_noAssert hfits) fun p hp => h.ipOutput _ _ _ _ hp.1

theorem segment (h : Passive s) (g : Seg) :
    Post Fault.noAssert Passive (s.runHost now (tcpInput now g)) := by
  have hput (st : Stats) : Passive { s with stats := st } := ⟨h.roomy, h.mtu, h.idle⟩
  unfold Stack.runHost
  rw [tcpInput_idle h.idle]
  unfold Host.sendResetFor
  cases hreset : tcpResetFor g with
  | none => exact hput _
  | some r =>
    have hbare : r.opts = [] ∧ r.payload = [] := by
      unfold tcpResetFor at hreset
      split at hreset
      · cases hreset
      · cases hreset
        exact ⟨rfl, rfl⟩
    refine Post.bind ((hput _).tcpTransmit hbare.1 hbare.2) fun s' hs' => ?_
    exact hs'

theorem tick (h : Passive s) : Post Fault.noAssert Passive (pfTick s now) := by
  refine Post.bind (arpTick_keepsRoom s.devs now s.arp h.roomy) fun a ha => ?_
  have hreass : Post Fault.noAssert Passive (ipReassTickStack (s.putArp a) now) := by
    refine Post.foldlM _ (fun t quote _ ht => ?_) ((h.putArp ha).putReass _)
    unfold writeAt
    split
    · exact ht.icmpSendError quote _ _
    · exact Fault.noAssert_write
  refine Post.bind hreass fun t ht => ?_
  unfold Stack.runHost
  rw [tcpTick_idle ht.idle]
  exact ⟨ht.roomy, ht.mtu, ht.idle⟩

end Passive

/-! ### What a frame asks for -/

/-- A packet to forward has room for the Ethernet header. -/
def Action.HopFits : Action → Prop
  | .hop _ _ p => ethHdrLen ≤ p.head
  | _ => True

/-- The answer to an echo request fits a packet. -/
def Action.EchoFits : Action → Prop
  | .echo d => d.payload.length ≤ pktBufSize - pktTxHeadroom
  | _ => True

instance : DecidablePred Action.EchoFits
  | .echo _ => inferInstanceAs (Decidable (_ ≤ _))
  | .quiet | .error _ _ _ | .hop _ _ _ | .queue _ _ | .segment _ | .null => .isTrue trivial

theorem Delivers.hopFits {d : Datagram} {a : Action} (h : Delivers d a) : a.HopFits := by
  cases h <;> trivial

theorem ipParse_head {p : Pkt} {q : IpPkt} (h : ipParse p = .ok q) : q.pkt.head = p.head := by
  unfold ipParse at h
  simp only at h
  repeat' split at h
  all_goals cases h
  rfl

/-- The room of a packet to forward is that of the frame and its header. -/
theorem frameActs_hopFits (s : Stack) (now : Nat) (heap : Nat → UInt8) (dev : DevIdx)
    (f : RxFrame) : ∀ a ∈ frameActs s now heap dev f, a.HopFits := by
  intro a ha
  unfold frameActs at ha
  simp only at ha
  have hjudged := ethVerdict_judged s dev f.pkt
  generalize s.counts (ethVerdict s dev f.pkt).1 = t at ha
  generalize (ethVerdict s dev f.pkt).2 = v at hjudged ha
  cases hjudged with
  | quiet =>
    cases List.mem_singleton.mp ha
    trivial
  | arp hdr => cases ha
  | @forward q harrives _ _ _ =>
    cases List.mem_singleton.mp ha
    have hforwards := forwardAct_forwards s dev q
    generalize (forwardAct s dev q).2 = a at hforwards ⊢
    cases hforwards with
    | hop out nextHop =>
      have hhead := ipParse_head harrives.parse
      exact Nat.le_trans (Nat.le_add_left _ _) hhead.ge
    | quiet => trivial
    | error => trivial
    | null => trivial
  | deliver =>
    cases List.mem_singleton.mp ha
    exact (deliverAct_delivers s _).hopFits
  | frag =>
    obtain ⟨whole, -, rfl⟩ := List.mem_map.mp ha
    exact (deliverAct_delivers _ whole).hopFits

theorem perform_passive {s : Stack} (h : Passive s) (now : Nat) {a : Action} (hhop : a.HopFits)
    (hecho : a.EchoFits) : Post Fault.noAssert Passive (perform s now a) := by
  cases a with
  | quiet => exact h
  | echo d =>
    have hfits : (icmpEchoReply d.payload).length ≤ pktBufSize - pktTxHeadroom := by
      rw [icmpEchoReply_length]
      exact hecho
    exact Post.bind (pktTx_noAssert hfits) fun p hp => h.ipOutput _ _ _ _ hp.1
  | error orig type code => exact h.icmpSendError orig type code
  | hop out nextHop p => exact h.arpOutput nextHop hhop
  | queue sk x => exact ⟨h.roomy, h.mtu, h.idle⟩
  | segment g => exact h.segment g
  | null => exact Fault.noAssert_null

/-- A longer request ends at the assertion of `pkt_put`. -/
theorem perform_huge (s : Stack) (now : Nat) {a : Action} (h : ¬ a.EchoFits) :
    perform s now a = .error (.assert .put) := by
  cases a with
  | echo d =>
    have hlong : pktBufSize - pktTxHeadroom < (icmpEchoReply d.payload).length := by
      rw [icmpEchoReply_length]
      exact Nat.not_le.mp h
    unfold perform
    simp only
    rw [pktTx_error hlong]
    rfl
  | quiet | error | hop | queue | segment | null => exact absurd trivial h

section Runs

variable {s : Stack} {now : Nat} {acts : List Action} {m : Except Fault Stack}

theorem Runs.passive (hrun : Runs s now acts m) (h : Passive s) (hhop : ∀ a ∈ acts, a.HopFits)
    (hecho : ∀ a ∈ acts, a.EchoFits) : Post Fault.noAssert Passive m := by
  cases hrun with
  | act a => exact perform_passive h now (hhop a List.mem_cons_self) (hecho a List.mem_cons_self)
  | arp dev p =>
    refine Post.bind (arpInput_keepsRoom s.devs now dev s.arp p h.roomy) fun a ha => ?_
    exact h.putArp ha
  | held r => exact h.putReass r
  | handed r whole =>
    exact perform_passive ((h.putReass r).counts _) now (hhop _ List.mem_cons_self)
      (hecho _ List.mem_cons_self)

theorem Runs.huge (hrun : Runs s now acts m) (h : ∃ a ∈ acts, ¬ a.EchoFits) :
    m = .error (.assert .put) := by
  obtain ⟨a, ha, hlong⟩ := h
  cases hrun with
  | act b =>
    cases List.mem_singleton.mp ha
    exact perform_huge s now hlong
  | arp dev p => cases ha
  | held r => cases ha
  | handed r whole =>
    cases List.mem_singleton.mp ha
    exact perform_huge _ now hlong

end Runs

/-! ### Runs without an application -/

/-- What happens to a stack whose application makes no call. -/
def StackEvent.External : StackEvent → Prop
  | .frame _ _ _ _ | .tick _ => True
  | _ => False

/-- A stack that was started with interfaces of MTU 1500. -/
def FreshEthernet (s : Stack) : Prop := Fresh s ∧ ∀ dev, (s.devs dev).mtu = 1500

/-- The frame is an echo request, or completes one, whose message is longer than what
fits a packet behind the transmit headroom. -/
def HugeEcho (s : Stack) : StackEvent → Prop
  | .frame now heap dev f => ∃ a ∈ frameActs s now heap dev f, ¬ a.EchoFits
  | _ => False

theorem stackStep_passive {s : Stack} (hok : ReassOk s) (h : Passive s) {e : StackEvent}
    (he : e.External) (hecho : ¬ HugeEcho s e) : Post Fault.noAssert Passive (stackStep s e) := by
  cases e with
  | frame now heap dev f =>
    refine (frame_runs hok now heap dev f).passive (h.counts _)
      (frameActs_hopFits s now heap dev f) ?_
    intro a ha
    by_contra hlong
    exact hecho ⟨a, ha, hlong⟩
  | tick now => exact h.tick
  | call | resume | sendto | recvfrom | config => exact he.elim

theorem stackStep_huge {s : Stack} (hok : ReassOk s) {e : StackEvent} (hecho : HugeEcho s e) :
    stackStep s e = .error (.assert .put) := by
  cases e with
  | frame now heap dev f => exact (frame_runs hok now heap dev f).huge hecho
  | tick | call | resume | sendto | recvfrom | config => exact hecho.elim

theorem FreshEthernet.passive {s : Stack} (h : FreshEthernet s) : Passive s := by
  obtain ⟨⟨devs, ndevs, forwarding, fib, -, rfl⟩, hmtu⟩ := h
  exact ⟨fun _ _ hq => absurd hq List.not_mem_nil, hmtu, fun _ => rfl⟩

theorem reach_passive {s : Stack}
    (h : Checked.Reach FreshEthernet (fun _ e => e.External) stackStep s) :
    ReassOk s ∧ Passive s := by
  refine h.invariant (fun s => ReassOk s ∧ Passive s) (fun s hs => ⟨hs.1.reassOk, hs.passive⟩) ?_
  intro s e he hs
  have hok : Post (fun _ => True) ReassOk (stackStep s e) :=
    (stackStep_ok hs.1 e).mono (fun _ _ => trivial) fun _ h => h
  by_cases hecho : HugeEcho s e
  · rw [stackStep_huge hs.1 hecho]
    trivial
  · have hpassive := stackStep_passive hs.1 hs.2 he hecho
    exact (hok.and hpassive).mono (fun _ _ => trivial) fun _ h => h

/-- Frames and ticks fail an assertion of a packet buffer exactly where an echo request
is too long to be answered. -/
theorem asserts_hold_iff {s : Stack}
    (hr : Checked.Reach FreshEthernet (fun _ e => e.External) stackStep s) {e : StackEvent}
    (he : e.External) : (∀ op, stackStep s e ≠ .error (.assert op)) ↔ ¬ HugeEcho s e := by
  obtain ⟨hok, hpassive⟩ := reach_passive hr
  constructor
  · intro h hecho
    exact h .put (stackStep_huge hok hecho)
  · intro hecho op herr
    have hpost := stackStep_passive hok hpassive he hecho
    rw [herr] at hpost
    exact hpost op rfl

theorem lanStack_freshEthernet : FreshEthernet lanStack := ⟨lanStack_fresh, fun _ => rfl⟩

/-- An echo request from 10.0.0.9; the length of the datagram and the header
checksum vary. -/
def longPing (len csum : UInt8) (n : Nat) : List UInt8 :=
  lanEthHdr ++
    [0x45, 0, 0x0f, len, 0, 0, 0, 0, 64, 1, 0x57, csum, 10, 0, 0, 9, 10, 0, 0, 1] ++
    [8, 0, 0xf7, 0xff] ++ List.replicate n 0

theorem longPing_fits (len csum : UInt8) {n : Nat} (h : n ≤ 4000) :
    (longPing len csum n).length ≤ pktBufSize - pktRxOffset := by
  rw [longPing, List.length_append, List.length_replicate]
  change 38 + n ≤ 4094
  omega

/-- The longest message that can be answered, 3968 bytes. -/
def edgePing : RxFrame := ⟨longPing 0x94 0x60 3964, longPing_fits _ _ (by decide)⟩

/-- The host's request for our address is answered, and then its longest ping. -/
theorem asserts_hold_iff_edge :
    ∃ s, stackStep lanStack (.frame 1000 (fun _ => 0) lanDev hostArp) = .ok s ∧
      (stackStep s (.frame 1010 (fun _ => 0) lanDev edgePing)).toOption.map
        (fun s' => s'.stats .icmpEchoReplyTx) = some 1 ∧
      ∀ op, stackStep s (.frame 1010 (fun _ => 0) lanDev edgePing) ≠ .error (.assert op) := by
  obtain ⟨s, hs, hanswers, hedge⟩ : ∃ s,
      stackStep lanStack (.frame 1000 (fun _ => 0) lanDev hostArp) = .ok s ∧
      (stackStep s (.frame 1010 (fun _ => 0) lanDev edgePing)).toOption.map
        (fun s' => s'.stats .icmpEchoReplyTx) = some 1 ∧
      ¬ ∃ a ∈ frameActs s 1010 (fun _ => 0) lanDev edgePing, ¬ a.EchoFits :=
    ⟨_, rfl, by decide +kernel, by decide +kernel⟩
  have hr : Checked.Reach FreshEthernet (fun _ e => e.External) stackStep s :=
    .next (.start lanStack_freshEthernet) (.frame 1000 (fun _ => 0) lanDev hostArp) trivial hs
  have hiff := asserts_hold_iff hr (e := .frame 1010 (fun _ => 0) lanDev edgePing) trivial
  exact ⟨s, hs, hanswers, hiff.mpr hedge⟩

/-- A message of 3969 bytes. -/
def hugePing : RxFrame := ⟨longPing 0x95 0x5f 3965, longPing_fits _ _ (by decide)⟩

theorem hugePing_huge :
    ∃ a ∈ frameActs lanStack 1000 (fun _ => 0) lanDev hugePing, ¬ a.EchoFits := by
  decide +kernel

/-- The answer does not fit behind the headroom. -/
theorem huge_ping_asserts :
    FreshEthernet lanStack ∧
      stackStep lanStack (.frame 1000 (fun _ => 0) lanDev hugePing) =
        .error (.assert .put) :=
  ⟨lanStack_freshEthernet, stackStep_huge lanStack_fresh.reassOk hugePing_huge⟩

end PacketForge
