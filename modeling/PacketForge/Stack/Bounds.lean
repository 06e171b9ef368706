import PacketForge.Ipv4.ReassKeys
import PacketForge.Stack.Frame

/-!
The parsers stay inside the packet. The contexts of reassembly hold fragments
that fit together, whatever the stack does, so that a rebuilt datagram is one
that the transport protocols can take apart; with that no step of the input path
reads or writes outside a buffer or subtracts a length from a smaller one.
-/

namespace PacketForge

open Checked Intervals

structure ReassOk (s : Stack) : Prop where
  table : TableOk s.reass
  gathered : Gathered s.reass

theorem ReassOk.of_ctxs {s s' : Stack} (h : ReassOk s) (hctxs : s'.ctxs = s.ctxs) : ReassOk s' := by
  have hr : s'.reass.ctxs = s.reass.ctxs := hctxs
  refine ⟨⟨?_, ?_⟩, ?_⟩
  · rw [hr]
    exact h.table.idle
  · rw [hr]
    exact h.table.unique
  · unfold Gathered
    rw [hr]
    exact h.gathered

theorem ReassOk.step {s : Stack} (h : ReassOk s) (e : ReassEvent) :
    ReassOk (s.putReass (reassStep s.reass e)) := by
  have htable := h.table.step e
  have hgathered := h.gathered.step h.table e
  exact ⟨⟨htable.idle, htable.unique⟩, hgathered⟩

/-! ### What reassembly hands up -/

/-- A datagram that reassembly built from fragments with a key. -/
structure Rebuilt (k : ReassKey) (d : Datagram) : Prop where
  fits : d.bytes.length ≤ pktBufSize - pktRxOffset
  key : d.key = k
  whole : d.frag = 0

theorem Collects.rebuilt {fs : List Datagram} {c : ReassCtx} (h : Collects fs c)
    (hdone : c.complete = true) : ∃ d : Datagram, d.bytes = c.datagram ∧ Rebuilt c.key d := by
  obtain ⟨hdr, payload, hdata, hkey, hre⟩ := h.reassembled hdone
  obtain ⟨f, csum, hf, hhdr⟩ := hre.header
  have hlen : hdr.length = f.hdrLen := by
    rw [hhdr, putBe16_length, putBe16_length, putBe16_length, f.hdr_length]
  have hmin : 20 ≤ hdr.length := hlen ▸ f.hdr_min
  have hmax : hdr.length ≤ 60 := hlen ▸ ipHdrLen_le f.bytes
  have hpay : payload.length ≤ 4000 := hre.bound
  have hihl : ipHdrLen c.datagram = hdr.length := by
    rw [hdata, ← hre.hdrLen, ipHdrLen, ipHdrLen, getD_append_left (by omega)]
  have htotal : c.datagram.length = hdr.length + payload.length := by
    rw [hdata, List.length_append]
  refine ⟨⟨c.datagram, by omega, by omega, by omega⟩, rfl, ?_, hkey, ?_⟩
  · change c.datagram.length ≤ 4094
    omega
  · change be16 c.datagram 6 = 0
    rw [hdata, be16, getD_append_left (by omega), getD_append_left (by omega)]
    exact hre.unfragmented

/-- What a fragment makes of the contexts, and what is then delivered. -/
inductive Reassembles (s : Stack) (now : Nat) (heap : Nat → UInt8) (dev : DevIdx) (d : Datagram) :
    Except Fault Stack → Prop where
  | held (hdel : (ipReassInput s.reass now (some dev) heap d).delivered = []) :
      Reassembles s now heap dev d
        (.ok (s.putReass (ipReassInput s.reass now (some dev) heap d)))
  | handed {whole : Datagram} {src : Option DevIdx} (hwhole : Rebuilt d.key whole)
      (hdel : (ipReassInput s.reass now (some dev) heap d).delivered = [(src, whole.bytes)]) :
      Reassembles s now heap dev d
        (deliver (s.putReass (ipReassInput s.reass now (some dev) heap d)) now whole)

theorem deliverAll_one (s : Stack) (now : Nat) {k : ReassKey} {d : Datagram} (h : Rebuilt k d)
    (src : Option DevIdx) : deliverAll now s [(src, d.bytes)] = deliver s now d := by
  have hroom : d.bytes.length ≤ pktAlloc.tailroom := h.fits
  obtain ⟨p, hp, -, hdata⟩ := (pktPut_post hroom fun _ => False).exists_ok
  have hbytes : p.data = d.bytes := hdata
  have hmin : ipv4HdrMin ≤ ipHdrLen p.data := hbytes ▸ d.hdr_min
  have hle : ipHdrLen p.data ≤ p.len := by
    rw [Pkt.len, hbytes]
    exact d.hdr_le
  have heq : (IpPkt.mk p hmin hle).datagram = d := by
    cases d
    simp only [IpPkt.datagram, hbytes]
  rw [deliverAll, List.foldlM_cons, hp, ok_bind, ipLocalDeliver_eq s now ⟨p, hmin, hle⟩, heq]
  cases deliver s now d <;> rfl

theorem reassemble_cases {s : Stack} (h : ReassOk s) (now : Nat) (heap : Nat → UInt8) (dev : DevIdx)
    (d : Datagram) : Reassembles s now heap dev d (reassemble s now heap dev d) := by
  have hnothing
      (hdel : (ipReassInput s.reass now (some dev) heap d).delivered = s.reass.delivered) :
      Reassembles s now heap dev d (reassemble s now heap dev d) := by
    have hnil : (ipReassInput s.reass now (some dev) heap d).delivered = [] := hdel
    have heq : reassemble s now heap dev d =
        .ok (s.putReass (ipReassInput s.reass now (some dev) heap d)) := by
      rw [reassemble, hnil]
      rfl
    rw [heq]
    exact .held hnil
  cases ipReassInput_input h.table now (some dev) heap d with
  | ignored _ _ hdel => exact hnothing hdel
  | dropped _ _ _ _ hdel => exact hnothing hdel
  | kept _ _ _ _ _ hdel => exact hnothing hdel
  | completed hgood hpick hadd hdone _ hdel =>
    obtain ⟨fs, hcol⟩ := h.gathered.added hgood hpick hadd
    obtain ⟨whole, hbytes, hwhole⟩ := hcol.rebuilt hdone
    rw [(ctxAdd_inUse hadd).2, hpick.inUse.2] at hwhole
    rw [← hbytes] at hdel
    have heq : reassemble s now heap dev d =
        deliver (s.putReass (ipReassInput s.reass now (some dev) heap d)) now whole := by
      rw [reassemble, hdel]
      exact deliverAll_one _ now hwhole _
    rw [heq]
    exact .handed hwhole hdel

/-! ### What times out -/

section TimedOut

variable {r : Reass} {now : Nat}

/-- What the tick asks ICMP for an error about. -/
def timedOut (r : Reass) (now : Nat) (i : Fin ipReassCtxs) : Option (List UInt8) :=
  let c := r.ctxs i
  if c.inUse ∧ c.deadline ≤ now ∧ c.haveFirst then some c.quote else none

theorem ipReassTick_timedOut (r : Reass) (now : Nat) : (ipReassTick r now).timeExceeded =
    r.timeExceeded ++ (List.finRange ipReassCtxs).filterMap (timedOut r now) := by
  -- the slots still to visit are as they were before the tick
  suffices hlist : ∀ (l : List (Fin ipReassCtxs)) (t : Reass), l.Nodup →
      (∀ j ∈ l, t.ctxs j = r.ctxs j) →
      (l.foldl (ipReassExpire now) t).timeExceeded = t.timeExceeded ++
        l.filterMap (timedOut r now) from
    hlist _ r (List.nodup_finRange _) fun _ _ => rfl
  intro l
  induction l with
  | nil =>
    intro t _ _
    rw [List.filterMap_nil, List.append_nil]
    rfl
  | cons i l ih =>
    intro t hnd ht
    obtain ⟨hi, hl⟩ := List.nodup_cons.mp hnd
    have hrest : ∀ j ∈ l, (ipReassExpire now t i).ctxs j = r.ctxs j := by
      intro j hj
      have hji : j ≠ i := fun h => hi (h ▸ hj)
      rw [ipReassExpire_ctxs, Function.update_of_ne hji]
      exact ht j (List.mem_cons_of_mem i hj)
    have hquote : (ipReassExpire now t i).timeExceeded =
        t.timeExceeded ++ (timedOut r now i).toList := by
      unfold ipReassExpire timedOut
      simp only [ht i List.mem_cons_self]
      by_cases huse : (r.ctxs i).inUse = true <;> by_cases hdl : now < (r.ctxs i).deadline <;>
        by_cases hfirst : (r.ctxs i).haveFirst = true <;>
        simp [huse, hdl, hfirst, Reass.count, ctxRelease, Reass.setCtx, Nat.not_le.mpr,
          Nat.not_lt.mp]
    rw [List.foldl_cons, ih _ hl hrest, hquote, List.append_assoc]
    congr 1
    cases htimed : timedOut r now i with
    | none => rw [List.filterMap_cons_none htimed]; rfl
    | some q => rw [List.filterMap_cons_some htimed]; rfl

/-- A context that times out has the header of a first fragment. -/
theorem timedOut_length (h : Gathered r) {q : List UInt8} {i : Fin ipReassCtxs}
    (hq : timedOut r now i = some q) : q.length ≤ ipv4HdrMax + 8 := by
  unfold timedOut at hq
  simp only [Option.ite_none_right_eq_some, Option.some.injEq] at hq
  obtain ⟨⟨huse, -, hfirst⟩, rfl⟩ := hq
  obtain ⟨fs, hcol⟩ := h i huse
  have hhdr := hcol.first
  rw [if_pos hfirst] at hhdr
  obtain ⟨f, -, hf⟩ := List.map_eq_singleton_iff.mp hhdr
  have hlen : (r.ctxs i).hdr.length ≤ 60 := by
    rw [← hf, f.hdr_length]
    exact ipHdrLen_le f.bytes
  unfold ReassCtx.quote
  simp only [List.length_append, List.length_map, List.length_range]
  refine Nat.add_le_add hlen ?_
  split
  · exact Nat.min_le_left _ _
  · exact Nat.zero_le _

end TimedOut

/-! ### Steps keep the contexts in order -/

theorem Stack.counts_ctxs (s : Stack) (cs : List Stat) : (s.counts cs).ctxs = s.ctxs := by
  rw [Stack.counts_eq]

/-- The property survives what frames and ticks do: sending, a change of the
reassembly contexts, a datagram queued on a socket and what TCP does with a segment or
a tick. -/
structure Kept (I : Stack → Prop) : Prop where
  rest {s s' : Stack} : s'.rest = s.rest → I s → I s'
  ctxs {s : Stack} (ctxs : Fin ipReassCtxs → ReassCtx) : I s → I { s with ctxs := ctxs }
  queue {s : Stack} (sk : SockIdx) (x : RxPkt) : I s → I (s.pushRx sk x)
  segment {s : Stack} (now : Nat) (g : Seg) : I s → I (s.putHost (tcpInput now g s.host))
  tick {s : Stack} (now : Nat) : I s → I (s.putHost (tcpTick now s.host))

theorem Kept.true : Kept fun _ => True :=
  ⟨fun _ => id, fun _ => id, fun _ _ => id, fun _ _ => id, fun _ => id⟩

namespace Kept

variable {I : Stack → Prop} {s t : Stack} {now : Nat}

theorem sent (hI : Kept I) (h : Sent s t) (hs : ReassOk s ∧ I s) : ReassOk t ∧ I t :=
  ⟨hs.1.of_ctxs h.ctxs, hI.rest h.rest hs.2⟩

theorem counts (hI : Kept I) (cs : List Stat) (hs : ReassOk s ∧ I s) :
    ReassOk (s.counts cs) ∧ I (s.counts cs) := by
  refine ⟨hs.1.of_ctxs (Stack.counts_ctxs s cs), hI.rest ?_ hs.2⟩
  rw [Stack.counts_eq]
  rfl

theorem reass (hI : Kept I) (e : ReassEvent) (hs : ReassOk s ∧ I s) :
    ReassOk (s.putReass (reassStep s.reass e)) ∧ I (s.putReass (reassStep s.reass e)) :=
  ⟨hs.1.step e, hI.rest (s := { s with ctxs := (reassStep s.reass e).ctxs }) rfl (hI.ctxs _ hs.2)⟩

theorem perform (hI : Kept I) (a : Action) (hs : ReassOk s ∧ I s) :
    Post Fault.inBounds (fun s => ReassOk s ∧ I s) (perform s now a) := by
  have hsent {m : Except Fault Stack} (h : Post Fault.inBounds (Sent s) m) :
      Post Fault.inBounds (fun s => ReassOk s ∧ I s) m := h.imp fun _ h => hI.sent h hs
  cases a with
  | quiet => exact hs
  | echo d =>
    exact hsent (Post.bind (pktTx_inBounds _) fun p _ => ipOutput_sent (Sent.refl s) _ _ _ _ p)
  | error orig type code => exact hsent (icmpSendError_sent (Sent.refl s) orig type code)
  | hop out nextHop p => exact hsent (arpOutput_sent (Sent.refl s) nextHop p)
  | queue sk x => exact ⟨hs.1.of_ctxs rfl, hI.queue sk x hs.2⟩
  | segment g =>
    exact (runHost_sent s now _).imp fun _ h => hI.sent h ⟨hs.1.of_ctxs rfl, hI.segment now g hs.2⟩
  | null => exact Fault.inBounds_null

theorem ethInput (hI : Kept I) (heap : Nat → UInt8) (dev : DevIdx) (p : Pkt)
    (hs : ReassOk s ∧ I s) :
    Post Fault.inBounds (fun s => ReassOk s ∧ I s) (ethInput s now heap dev p) := by
  have hcounts := hI.counts (ethVerdict s dev p).1 hs
  rw [ethInput_eq]
  generalize s.counts (ethVerdict s dev p).1 = t at hcounts
  cases (ethVerdict s dev p).2 with
  | act a => exact hI.perform a hcounts
  | arp p =>
    refine Post.bind (arpInput_same p t.arp) fun a _ => ?_
    exact Post.ok ⟨hcounts.1.of_ctxs rfl, hI.rest (s := t) rfl hcounts.2⟩
  | frag d =>
    have hnext := hI.reass (.frag now (some dev) heap d) hcounts
    have hcases := reassemble_cases hcounts.1 now heap dev d
    change Post Fault.inBounds _ (reassemble t now heap dev d)
    generalize reassemble t now heap dev d = m at hcases ⊢
    cases hcases with
    | held => exact hnext
    | handed => exact hI.perform _ (hI.counts _ hnext)

theorem pfTick (hI : Kept I) (hs : ReassOk s ∧ I s) :
    Post Fault.inBounds (fun s => ReassOk s ∧ I s) (pfTick s now) := by
  refine Post.bind (arpTick_same (a := s.arp) (Stats.Same.refl _)) fun a ha => ?_
  have harp := hI.sent ((Sent.refl s).putArp ha) hs
  have hreass :
      Post Fault.inBounds (fun s => ReassOk s ∧ I s) (ipReassTickStack (s.putArp a) now) := by
    unfold ipReassTickStack
    refine Post.foldlM _ (fun t q hq ht => ?_) (hI.reass (.tick now) harp)
    rw [ipReassTick_timedOut] at hq
    obtain ⟨i, -, hi⟩ := List.mem_filterMap.mp hq
    have hlen := timedOut_length harp.1.gathered hi
    rw [writeAt_ok (by rw [Nat.zero_add]; exact hlen), ok_bind]
    exact (icmpSendError_sent (Sent.refl t) q _ _).imp fun _ hsent => hI.sent hsent ht
  refine Post.bind hreass fun t ht => ?_
  exact (runHost_sent t now _).imp fun _ hsent =>
    hI.sent hsent ⟨ht.1.of_ctxs rfl, hI.tick now ht.2⟩

end Kept

section Steps

variable {s : Stack} {now : Nat}

theorem ethInput_ok (h : ReassOk s) (heap : Nat → UInt8) (dev : DevIdx) (p : Pkt) :
    Post Fault.inBounds ReassOk (ethInput s now heap dev p) :=
  (Kept.true.ethInput heap dev p ⟨h, trivial⟩).imp fun _ hs => hs.1

theorem TransmitKept.udpOutput {I : Stack → Prop} (hI : TransmitKept I) (h : I s) (srcIp : UInt32)
    (sport : UInt16) (dstIp : UInt32) (dport : UInt16) (p : Pkt) :
    Post Fault.inBounds I (udpOutput s now srcIp sport dstIp dport p) := by
  refine Post.bind (pktPush_inBounds p _) fun q _ => ?_
  split
  · exact hI.count rfl h
  · exact hI.ipOutput (hI.count rfl h) _ _ _ _ _

theorem TransmitKept.pfSendto {I : Stack → Prop} (hI : TransmitKept I) (sock : Int)
    (buf : List UInt8) (dstIp : UInt32) (dstPort : UInt16)
    (h : I (s.putHost (sendtoSock sock buf.length dstPort s.host).1)) :
    Post Fault.inBounds I (pfSendto s now sock buf dstIp dstPort) := by
  unfold PacketForge.pfSendto
  simp only
  split
  · exact h
  · exact Post.bind (pktTx_inBounds _) fun p _ => hI.udpOutput h _ _ _ _ p

theorem pfSendto_sent (s : Stack) (now : Nat) (sock : Int) (buf : List UInt8) (dstIp : UInt32)
    (dstPort : UInt16) :
    Post Fault.inBounds (Sent (s.putHost (sendtoSock sock buf.length dstPort s.host).1))
      (pfSendto s now sock buf dstIp dstPort) :=
  (Sent.transmitKept _).pfSendto sock buf dstIp dstPort (Sent.refl _)

theorem configure_ctxs (s : Stack) (op : ConfigOp) : (configure s op).ctxs = s.ctxs := by
  cases op with
  | addr => rfl
  | route op => cases op <;> rfl
  | forwarding => rfl

theorem stackStep_ok (h : ReassOk s) (e : StackEvent) :
    Post Fault.inBounds ReassOk (stackStep s e) := by
  cases e with
  | frame now heap dev f => exact ethInput_ok h heap dev f.pkt
  | tick now => exact (Kept.true.pfTick ⟨h, trivial⟩).imp fun _ hs => hs.1
  | call now c =>
    unfold stackStep
    exact (runHost_sent s now _).imp fun _ hs => h.of_ctxs hs.ctxs
  | resume now expired =>
    unfold stackStep
    exact (runHost_sent s now _).imp fun _ hs => h.of_ctxs hs.ctxs
  | sendto now sock buf dstIp dstPort =>
    unfold stackStep
    simp only
    split
    · exact (pfSendto_sent s now sock buf dstIp dstPort).imp fun _ hs => h.of_ctxs hs.ctxs
    · exact h
  | recvfrom sock =>
    refine h.of_ctxs ?_
    unfold pfRecvfrom
    split
    · rfl
    split <;> rfl
  | config op => exact h.of_ctxs (configure_ctxs s op)

theorem Fresh.reassOk (h : Fresh s) : ReassOk s := by
  obtain ⟨devs, ndevs, forwarding, fib, -, rfl⟩ := h
  refine ⟨⟨fun _ _ => rfl, ?_⟩, ?_⟩
  · intro i j hi
    cases hi
  · intro i hi
    cases hi

theorem Stack.Reach.reassOk (h : s.Reach) : ReassOk s :=
  Checked.Reach.invariant ReassOk (fun _ h => h.reassOk)
    (fun _ e _ h => (stackStep_ok h e).mono (fun _ _ => trivial) fun _ h => h) h

end Steps

/-- Whatever the bytes of a frame are, and in whatever state it finds the stack,
no function of the input path reads a byte outside the received packet, subtracts
a length from a smaller one, or writes outside the buffers of reassembly. -/
theorem input_path_in_bounds {s : Stack} (h : s.Reach) (now : Nat) (heap : Nat → UInt8)
    (dev : DevIdx) (f : RxFrame) :
    ethInput s now heap dev f.pkt ≠ .error .read ∧
      ethInput s now heap dev f.pkt ≠ .error .negative ∧
        ethInput s now heap dev f.pkt ≠ .error .write := by
  have hok : Post Fault.inBounds ReassOk (ethInput s now heap dev f.pkt) :=
    ethInput_ok h.reassOk heap dev f.pkt
  refine ⟨?_, ?_, ?_⟩
  · intro hfault
    rw [hfault] at hok
    exact hok.1 rfl
  · intro hfault
    rw [hfault] at hok
    exact hok.2.1 rfl
  · intro hfault
    rw [hfault] at hok
    exact hok.2.2 rfl

theorem tornFrame_fits : (lanEthHdr ++ [0x4f]).length ≤ pktBufSize - pktRxOffset := by decide

/-- A frame that ends after the byte which claims a header of 60 bytes. -/
def tornFrame : RxFrame := ⟨lanEthHdr ++ [0x4f], tornFrame_fits⟩

theorem input_path_in_bounds_torn :
    ethInput lanStack 0 (fun _ => 0) lanDev tornFrame.pkt ≠ .error .read :=
  (input_path_in_bounds lanStack_reach 0 (fun _ => 0) lanDev tornFrame).1

end PacketForge
