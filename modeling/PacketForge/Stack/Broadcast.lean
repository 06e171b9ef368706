import PacketForge.Arp.Book
import PacketForge.Host.Traffic
import PacketForge.Stack.Bounds
import PacketForge.Stack.Verdict

/-!
Replies that leave as broadcasts. A reply goes to the source of the datagram that
elicited it, and `ip_output` decides from the address alone whether it is sent as
a link-layer broadcast. Since a datagram with the directed broadcast of one of our
networks as its source passes the checks of `ip_input`, such replies exist; here
is exactly when.
-/

namespace PacketForge

open Function

open Checked

/-! ### Next hops -/

/-- The next hop is resolved, to the broadcast address. -/
def ToBcast (c : ArpCache) (nextHop : UInt32) : Prop :=
  ∃ i, arpLookup c nextHop = some i ∧ (c i).state = .resolved ∧ (c i).mac = ethBcast

section Resolve

variable {a : Arp} {nextHop : UInt32}

theorem ToBcast.of_some {c : ArpCache} {i : ArpIdx} (hfind : arpLookup c nextHop = some i) :
    ToBcast c nextHop ↔ (c i).state = .resolved ∧ (c i).mac = ethBcast := by
  constructor
  · rintro ⟨j, hj, h⟩
    rw [hfind] at hj
    cases hj
    exact h
  · exact fun h => ⟨i, hfind, h⟩

theorem ToBcast.of_none {c : ArpCache} (hfind : arpLookup c nextHop = none) :
    ¬ ToBcast c nextHop := by
  rintro ⟨j, hj, -⟩
  rw [hfind] at hj
  cases hj

/-- Parking changes a queue and nothing that a lookup sees. -/
theorem arpPark_entry (i : ArpIdx) (q : WaitPkt) (a : Arp) (j : ArpIdx) :
    ((arpPark i q a).entries j).state = (a.entries j).state ∧
      ((arpPark i q a).entries j).ip = (a.entries j).ip ∧
      ((arpPark i q a).entries j).mac = (a.entries j).mac := by
  have hupdate (w : List WaitPkt) :
      (update a.entries i { a.entries i with waitq := w } j).state = (a.entries j).state ∧
        (update a.entries i { a.entries i with waitq := w } j).ip = (a.entries j).ip ∧
        (update a.entries i { a.entries i with waitq := w } j).mac = (a.entries j).mac := by
    by_cases hj : j = i
    · rw [hj, update_self]
      exact ⟨rfl, rfl, rfl⟩
    · rw [update_of_ne hj]
      exact ⟨rfl, rfl, rfl⟩
  unfold arpPark
  simp only
  split
  · exact hupdate _
  · exact hupdate _

theorem arpPark_toBcast (i : ArpIdx) (q : WaitPkt) (a : Arp) :
    ToBcast (arpPark i q a).entries nextHop ↔ ToBcast a.entries nextHop := by
  have hlookup : arpLookup (arpPark i q a).entries nextHop = arpLookup a.entries nextHop := by
    unfold arpLookup
    simp only [(arpPark_entry i q a _).1, (arpPark_entry i q a _).2.1]
  unfold ToBcast
  simp only [hlookup, (arpPark_entry i q a _).1, (arpPark_entry i q a _).2.2]

theorem arpPark_tx (i : ArpIdx) (q : WaitPkt) (a : Arp) : (arpPark i q a).tx = a.tx := by
  unfold arpPark
  simp only
  split <;> rfl

theorem arpAllocEntry_frame (a : Arp) : (arpAllocEntry a).2.tx = a.tx ∧
    ∀ j, j ≠ (arpAllocEntry a).1 → (arpAllocEntry a).2.entries j = a.entries j := by
  unfold arpAllocEntry
  split
  · exact ⟨rfl, fun _ _ => rfl⟩
  · exact ⟨rfl, fun j hj => update_of_ne hj _ _⟩

theorem arpSendRequest_frames (devs : Devs) (dev : DevIdx) (ip : UInt32) (a : Arp) :
    Post (fun _ => True)
      (fun b => b.entries = a.entries ∧ ∃ f, b.tx = a.tx ++ [f] ∧ f.type = ethTypeArp)
      (arpSendRequest devs dev ip a) := by
  unfold arpSendRequest Arp.ethOutput
  refine Post.bind ((pktTx_inBounds _).mono (fun _ _ => trivial) fun _ h => h) fun p _ => ?_
  rw [ethFrame_eq]
  split
  · exact ⟨rfl, _, rfl, rfl⟩
  · trivial

/-- What `arp_resolve` answers, and what it leaves for the next time. -/
theorem arpResolve_toBcast (devs : Devs) (now : Nat) (dev : DevIdx) (nextHop : UInt32) (p : Pkt)
    (a : Arp) :
    Post (fun _ => True)
      (fun r => (r.2 = some ethBcast ↔ ToBcast a.entries nextHop) ∧
        (ToBcast r.1.entries nextHop ↔ ToBcast a.entries nextHop) ∧
        ∃ fs, r.1.tx = a.tx ++ fs ∧ ∀ f ∈ fs, f.type = ethTypeArp)
      (arpResolve devs now dev nextHop (some p) a) := by
  have hnothing : ∃ fs : List EthFrame, a.tx = a.tx ++ fs ∧ ∀ f ∈ fs, f.type = ethTypeArp :=
    ⟨[], (List.append_nil _).symm, fun _ hf => absurd hf List.not_mem_nil⟩
  unfold arpResolve
  cases hfind : arpLookup a.entries nextHop with
  | some i =>
    simp only
    split
    · rename_i hst
      refine ⟨?_, Iff.rfl, hnothing⟩
      rw [ToBcast.of_some hfind, Option.some.injEq]
      exact ⟨fun h => ⟨hst, h⟩, fun h => h.2⟩
    · rename_i hst
      refine ⟨iff_of_false (by simp) fun h => ?_, arpPark_toBcast i _ a, ?_⟩
      · exact hst ((ToBcast.of_some hfind).mp h).1
      · change ∃ fs, (arpPark i ⟨dev, p⟩ a).tx = a.tx ++ fs ∧ _
        rw [arpPark_tx]
        exact hnothing
  | none =>
    have hno := ToBcast.of_none hfind
    obtain ⟨htx, hframe⟩ := arpAllocEntry_frame a
    unfold arpOpen
    generalize arpAllocEntry a = picked at htx hframe
    obtain ⟨i, b⟩ := picked
    simp only at htx hframe ⊢
    simp only [bind_assoc]
    refine Post.bind (arpSendRequest_frames devs dev nextHop _) fun c hc => ?_
    obtain ⟨hentries, f, hctx, hf⟩ := hc
    refine ⟨iff_of_false (by simp) hno, ?_, [f], ?_, ?_⟩
    · change ToBcast (arpPark i ⟨dev, p⟩ c).entries nextHop ↔ _
      rw [arpPark_toBcast]
      refine iff_of_false ?_ hno
      rintro ⟨j, hj, hst, -⟩
      obtain ⟨hfree, hip⟩ := arpLookup_spec hj
      rw [hentries] at hst hip
      by_cases hji : j = i
      · -- the entry that was just opened
        rw [hji] at hst
        change (update b.entries i _ i).state = _ at hst
        rw [update_self] at hst
        cases hst
      · change (update b.entries i _ j).state = _ at hst
        change (update b.entries i _ j).ip = _ at hip
        rw [update_of_ne hji, hframe j hji] at hst hip
        exact arpLookup_none hfind j (by rw [hst]; decide) hip
    · change (arpPark i ⟨dev, p⟩ c).tx = _
      rw [arpPark_tx, hctx]
      change b.tx ++ [f] = _
      rw [htx]
    · intro f' hf'
      rw [List.mem_singleton.mp hf']
      exact hf

end Resolve

/-! ### What is transmitted -/

/-- An IPv4 frame to the broadcast address. -/
def EthFrame.ipBcast (f : EthFrame) : Prop := f.type = ethTypeIp4 ∧ f.dst = ethBcast

/-- The frames transmitted between two states include such a frame just when `b`. -/
def Emits (b : Prop) (tx tx' : List EthFrame) : Prop :=
  ∃ fs, tx' = tx ++ fs ∧ ((∃ f ∈ fs, f.ipBcast) ↔ b)

section Emits

variable {a b : Prop} {tx tx' tx'' : List EthFrame}

theorem Emits.congr (h : Emits a tx tx') (hab : a ↔ b) : Emits b tx tx' := propext hab ▸ h

theorem Emits.none (hb : ¬ b) {fs : List EthFrame} (hfs : ∀ f ∈ fs, f.type = ethTypeArp) :
    Emits b tx (tx ++ fs) := by
  refine ⟨fs, rfl, iff_of_false ?_ hb⟩
  rintro ⟨f, hf, hip, -⟩
  rw [hfs f hf] at hip
  cases hip

theorem Emits.nil (hb : ¬ b) : Emits b tx tx := by
  have h : Emits b tx (tx ++ []) := Emits.none hb fun _ hf => absurd hf List.not_mem_nil
  rwa [List.append_nil] at h

theorem Emits.trans (h : Emits a tx tx') (h' : Emits b tx' tx'') : Emits (a ∨ b) tx tx'' := by
  obtain ⟨fs, hfs, ha⟩ := h
  obtain ⟨gs, hgs, hb⟩ := h'
  refine ⟨fs ++ gs, by rw [hgs, hfs, List.append_assoc], ?_⟩
  simp only [List.mem_append, or_and_right, exists_or, ha, hb]

theorem Arp.ethOutput_emits (k : Arp) (devs : Devs) (dev : DevIdx) (mac : Mac) (p : Pkt) :
    Post (fun _ => True) (fun k' => k'.entries = k.entries ∧ Emits (mac = ethBcast) k.tx k'.tx)
      (k.ethOutput devs dev mac ethTypeIp4 p) := by
  unfold Arp.ethOutput
  rw [ethFrame_eq]
  split
  · refine ⟨rfl, [_], rfl, ?_⟩
    simp [EthFrame.ipBcast]
  · trivial

end Emits

/-- Sending that leaves `V` as it was, and transmits a broadcast just when `b`. -/
structure Tells (V : Stack → Prop) (b : Prop) (s s' : Stack) : Prop where
  sent : Sent s s'
  keeps : V s' ↔ V s
  emits : Emits b s.tx s'.tx

section Tells

variable {V : Stack → Prop} {a b : Prop} {s t u : Stack}

theorem Tells.trans (h : Tells V a s t) (h' : Tells V b t u) : Tells V (a ∨ b) s u :=
  ⟨h.sent.trans h'.sent, h'.keeps.trans h.keeps, h.emits.trans h'.emits⟩

theorem Tells.congr (h : Tells V a s t) (hab : a ↔ b) : Tells V b s t := propext hab ▸ h

theorem Tells.after (h : Tells V a t u) (hsent : Sent s t) (hV : V t ↔ V s) (htx : t.tx = s.tx) :
    Tells V a s u :=
  ⟨hsent.trans h.sent, h.keeps.trans hV, htx ▸ h.emits⟩

end Tells

/-! ### Datagrams -/

/-- A datagram for the address is sent to the broadcast address of the link. -/
def BcastVia (dev : DevIdx) (nextHop dst : UInt32) (s : Stack) : Prop :=
  (s.devs dev).broadcasts dst = true ∨ ToBcast s.cache nextHop

/-- What `ip_output` sends to the address is broadcast. -/
def Broadcasts (dst : UInt32) (s : Stack) : Prop :=
  ∃ dev nextHop, ipRouteLookup s dst = some (dev, nextHop) ∧ dst ≠ (s.devs dev).ip ∧
    BcastVia dev nextHop dst s

section Output

variable {now : Nat} {dev : DevIdx}

theorem Tells.of_post {V : Stack → Prop} {b : Prop} {s : Stack} {m : Except Fault Stack}
    (hsent : Post Fault.inBounds (Sent s) m)
    (h : Post (fun _ => True) (fun s' => (V s' ↔ V s) ∧ Emits b s.tx s'.tx) m) :
    Post (fun _ => True) (Tells V b s) m :=
  (hsent.and h).mono (fun _ _ => trivial) fun _ h => ⟨h.1, h.2.1, h.2.2⟩

theorem arpOutput_tells (s : Stack) (nextHop : UInt32) (p : Pkt) :
    Post (fun _ => True) (Tells (fun s => ToBcast s.cache nextHop) (ToBcast s.cache nextHop) s)
      (arpOutput s now dev nextHop p) := by
  refine Tells.of_post (arpOutput_sent (Sent.refl s) nextHop p) ?_
  refine Post.bind (arpResolve_toBcast s.devs now dev nextHop p s.arp) fun r hr => ?_
  obtain ⟨a, mac⟩ := r
  obtain ⟨hmac, hkeeps, fs, hfs, harp⟩ := hr
  change (ToBcast a.entries nextHop ↔ ToBcast s.cache nextHop) at hkeeps
  change a.tx = s.tx ++ fs at hfs
  cases mac with
  | none =>
    have hno : ¬ ToBcast s.cache nextHop := fun h => by cases hmac.mpr h
    refine ⟨hkeeps, ?_⟩
    change Emits _ s.tx a.tx
    rw [hfs]
    exact Emits.none hno harp
  | some mac =>
    refine Post.bind (Arp.ethOutput_emits a s.devs dev mac p) fun a' ha' => ?_
    have hasked : Emits False s.tx a.tx := hfs ▸ Emits.none id harp
    refine ⟨?_, (hasked.trans ha'.2).congr ?_⟩
    · change ToBcast a'.entries nextHop ↔ _
      rw [ha'.1]
      exact hkeeps
    · rw [false_or, ← Option.some.injEq]
      exact hmac

theorem ipOutputOne_tells (s : Stack) (nextHop src dst : UInt32) (proto ttl : UInt8)
    (id frag : UInt16) (p : Pkt) :
    Post (fun _ => True) (Tells (BcastVia dev nextHop dst) (BcastVia dev nextHop dst s) s)
      (ipOutputOne s now dev nextHop src dst proto ttl id frag p) := by
  have hsent : Sent s (s.count .ipTx) := (Sent.refl s).count rfl
  refine Post.bind ((pktPush_inBounds p _).mono (fun _ _ => trivial) fun _ h => h) fun p _ => ?_
  simp only
  split
  · rename_i hdst
    have hvia : BcastVia dev nextHop dst s := Or.inl hdst
    refine Tells.of_post ?_ (Post.bind (Arp.ethOutput_emits _ _ dev ethBcast p) fun a ha => ?_)
    · refine Post.bind (Arp.ethOutput_same (Stats.Same.refl _) _ dev _ _ p) fun a ha => ?_
      exact hsent.putArp ha
    · exact ⟨iff_of_true (Or.inl hdst) hvia, ha.2.congr (iff_of_true rfl hvia)⟩
  · rename_i hdst
    have hdev (t : Stack) (ht : t.devs = s.devs) :
        BcastVia dev nextHop dst t ↔ ToBcast t.cache nextHop := by
      unfold BcastVia
      rw [ht]
      exact or_iff_right hdst
    refine (arpOutput_tells (s.count .ipTx) nextHop p).imp fun s' h => ?_
    have hcache : ToBcast s'.cache nextHop ↔ ToBcast s.cache nextHop := h.keeps
    refine ⟨hsent.trans h.sent, ?_, h.emits.congr (hdev s rfl).symm⟩
    rw [hdev s' h.sent.devs, hdev s rfl]
    exact hcache

/-- Every round of the loop says what the datagram says. -/
theorem ipFragLoop_tells {send : Stack → UInt16 → Pkt → Except Fault Stack} {V : Stack → Prop}
    (hsend : ∀ s field p, Post (fun _ => True) (Tells V (V s) s) (send s field p))
    (hcount : ∀ s, V (s.count .ipTxFrags) ↔ V s) (payload : List UInt8) (chunk fuel off : Nat)
    (s : Stack) :
    Post (fun _ => True) (Tells V (off < payload.length ∧ V s) s)
      (ipFragLoop send payload chunk fuel off s) := by
  have hdone (s : Stack) (off : Nat) (h : ¬ off < payload.length) :
      Tells V (off < payload.length ∧ V s) s s :=
    ⟨Sent.refl s, Iff.rfl, Emits.nil fun hlt => h hlt.1⟩
  induction fuel generalizing off s with
  | zero =>
    unfold ipFragLoop
    split
    · trivial
    · exact hdone s off (by assumption)
  | succ fuel ih =>
    unfold ipFragLoop
    split
    · rename_i hlt
      refine Post.bind ((pktTx_inBounds _).mono (fun _ _ => trivial) fun _ h => h) fun fp _ => ?_
      refine Post.bind (hsend _ _ fp) fun s1 hs1 => ?_
      have hs1 := hs1.after ((Sent.refl s).count rfl) (hcount s) rfl
      refine (ih _ s1).imp fun s2 hs2 => (hs1.trans hs2).congr ?_
      rw [hs1.keeps, hcount]
      exact ⟨fun h => ⟨hlt, h.elim id And.right⟩, fun h => Or.inl h.2⟩
    · exact hdone s off (by assumption)

theorem ipOutput_tells (s : Stack) (src dst : UInt32) (proto ttl : UInt8) (p : Pkt)
    (hp : 0 < p.data.length) :
    Post (fun _ => True) (Tells (Broadcasts dst) (Broadcasts dst s) s)
      (ipOutput s now src dst proto ttl p) := by
  have hquiet (hno : ¬ Broadcasts dst s) :
      Tells (Broadcasts dst) (Broadcasts dst s) s (s.count .ipTxNoRoute) :=
    ⟨(Sent.refl s).count rfl, Iff.rfl, Emits.nil hno⟩
  unfold ipOutput
  cases hroute : ipRouteLookup s dst with
  | none =>
    refine hquiet ?_
    rintro ⟨dev, nextHop, h, -⟩
    rw [hroute] at h
    cases h
  | some r =>
    obtain ⟨dev, nextHop⟩ := r
    have hvia (t : Stack) (ht : Sent s t) :
        Broadcasts dst t ↔ dst ≠ (s.devs dev).ip ∧ BcastVia dev nextHop dst t := by
      have hsame : ipRouteLookup t dst = some (dev, nextHop) := by
        rw [← hroute, ipRouteLookup, ipRouteLookup, ht.fib]
      unfold Broadcasts
      rw [hsame, ← ht.devs]
      constructor
      · rintro ⟨_, _, heq, h⟩
        cases heq
        exact h
      · exact fun h => ⟨dev, nextHop, rfl, h⟩
    simp only
    split
    · rename_i hown
      exact hquiet fun h => ((hvia s (Sent.refl s)).mp h).1 hown
    rename_i hown
    have hid : Sent s { s with ipId := s.ipId + 1 } := ⟨rfl, Stats.Same.refl _⟩
    have hlift {m : Except Fault Stack} (h : Post (fun _ => True)
        (Tells (BcastVia dev nextHop dst) (BcastVia dev nextHop dst s)
          { s with ipId := s.ipId + 1 })
        m) : Post (fun _ => True) (Tells (Broadcasts dst) (Broadcasts dst s) s) m := by
      refine h.imp fun s' hs' => ?_
      have hs' := hs'.after hid Iff.rfl rfl
      refine ⟨hs'.sent, ?_, hs'.emits.congr ?_⟩
      · rw [hvia s' hs'.sent, hvia s (Sent.refl s), hs'.keeps]
      · rw [hvia s (Sent.refl s)]
        exact (and_iff_right hown).symm
    split
    · exact hlift (ipOutputOne_tells _ _ _ _ _ _ _ _ _)
    · refine hlift ((ipFragLoop_tells (fun s field p => ipOutputOne_tells s _ _ _ _ _ _ field p)
        (fun _ => Iff.rfl) _ _ _ 0 _).imp fun s' hs' => hs'.congr ?_)
      exact and_iff_right hp

end Output

/-! ### Replies -/

/-- What is done about a packet transmits an IPv4 broadcast. -/
def Action.Reflects (s : Stack) (now : Nat) : Action → Prop
  | .quiet => False
  | .echo d => Broadcasts (ipSaddr d.bytes) s
  | .error orig _ _ =>
    errorAllowed orig ∧ icmpTooSoon s now = false ∧ Broadcasts (ipSaddr orig) s
  | .hop _ nextHop _ => ToBcast s.cache nextHop
  | .queue _ _ => False
  | .segment g => (tcpInput now g s.host).out ≠ [] ∧ Broadcasts g.src s
  | .null => False

section Replies

variable {s : Stack} {now : Nat}

theorem pktTx_data (bytes : List UInt8) :
    Post (fun _ => True) (fun p => p.data = bytes) (pktTx bytes) := by
  by_cases h : bytes.length ≤ pktBufSize - pktTxHeadroom
  · exact (pktTx_post h _).imp fun _ hp => hp.2
  · rw [pktTx_error (Nat.not_le.mp h)]
    trivial

theorem reply_tells (s : Stack) (src dst : UInt32) (proto ttl : UInt8) {bytes : List UInt8}
    (hbytes : 0 < bytes.length) :
    Post (fun _ => True) (Tells (Broadcasts dst) (Broadcasts dst s) s)
      (pktTx bytes >>= ipOutput s now src dst proto ttl) := by
  refine Post.bind (pktTx_data bytes) fun p hp => ?_
  exact ipOutput_tells s src dst proto ttl p (hp ▸ hbytes)

theorem Stack.noteError_eq (s : Stack) (e : IcmpError) :
    ∃ es, s.noteError e = { s with errors := es } := by
  unfold Stack.noteError
  split
  · exact ⟨_, rfl⟩
  · exact ⟨s.errors, rfl⟩

theorem icmpSendError_emits (s : Stack) (orig : List UInt8) (type code : UInt8) :
    Post (fun _ => True)
      (fun s' => Emits (errorAllowed orig ∧ icmpTooSoon s now = false ∧ Broadcasts (ipSaddr orig) s)
        s.tx s'.tx)
      (icmpSendError s now orig type code) := by
  rw [icmpSendError_eq]
  split
  · rename_i hallowed
    split
    · rename_i hsoon
      refine Emits.nil fun h => ?_
      rw [h.2.1] at hsoon
      cases hsoon
    · rename_i hsoon
      unfold icmpTransmitError
      rw [readAt_take (Nat.min_le_left _ _), ok_bind]
      have hlen : 0 < (icmpErrorMsg (orig.take (min orig.length (ipHdrLen orig + 8))) type
          code).length := by
        rw [icmpErrorMsg_length]
        exact Nat.succ_pos _
      obtain ⟨es, hes⟩ := Stack.noteError_eq { s.count .icmpErrTx with icmpLastErrMs := now }
        ⟨type, code, orig⟩
      simp only [hes]
      refine (reply_tells _ _ _ _ _ hlen).imp fun s' hs' => hs'.emits.congr ?_
      rw [and_iff_right hallowed, and_iff_right (Bool.not_eq_true _ ▸ hsoon)]
      rfl
  · rename_i hno
    exact Emits.nil fun h => hno h.1

/-- The segments of an answer all go to one peer. -/
theorem tcpTransmit_tells (peer : UInt32) (out : List Seg) (hout : ∀ g ∈ out, g.dst = peer)
    (s : Stack) :
    Post (fun _ => True) (Tells (Broadcasts peer) (out ≠ [] ∧ Broadcasts peer s) s)
      (out.foldlM (tcpTransmit now) s) := by
  induction out generalizing s with
  | nil => exact ⟨Sent.refl s, Iff.rfl, Emits.nil fun h => h.1 rfl⟩
  | cons g out ih =>
    have hdst : g.dst = peer := hout g List.mem_cons_self
    rw [List.foldlM_cons]
    have hlen : 0 < (tcpBytes g).length := by
      rw [tcpBytes_length, Nat.add_assoc]
      exact Nat.add_pos_left (by decide) _
    have htells : Post (fun _ => True) (Tells (Broadcasts g.dst) (Broadcasts g.dst s) s)
        (tcpTransmit now s g) := reply_tells s g.src g.dst ipProtoTcp ipDefaultTtl hlen
    rw [hdst] at htells
    refine Post.bind htells fun s1 hs1 => ?_
    refine (ih (fun g hg => hout g (List.mem_cons_of_mem _ hg)) s1).imp fun s2 hs2 => ?_
    refine (hs1.trans hs2).congr ?_
    rw [hs1.keeps]
    exact ⟨fun h => ⟨List.cons_ne_nil _ _, h.elim id And.right⟩, fun h => Or.inl h.2⟩

/-- The action answers an echo request that has a message. -/
def Action.Filled : Action → Prop
  | .echo d => 0 < d.payload.length
  | _ => True

theorem perform_emits (s : Stack) {a : Action} (ha : a.Filled) :
    Post (fun _ => True) (fun s' => Emits (a.Reflects s now) s.tx s'.tx) (perform s now a) := by
  cases a with
  | quiet => exact Emits.nil id
  | echo d =>
    have hlen : 0 < (icmpEchoReply d.payload).length := by
      rw [icmpEchoReply_length]
      exact ha
    exact (reply_tells s _ _ _ _ hlen).imp fun _ h => h.emits
  | error orig type code => exact icmpSendError_emits s orig type code
  | hop out nextHop p => exact (arpOutput_tells s nextHop p).imp fun _ h => h.emits
  | queue sk x => exact Emits.nil id
  | segment g =>
    have hdst : ∀ r ∈ (tcpInput now g s.host).out, r.dst = g.src := tcpInput_dst now rfl
    unfold perform Stack.runHost
    simp only
    split
    · trivial
    · exact (tcpTransmit_tells g.src _ hdst _).imp fun _ h => h.emits
  | null => trivial

theorem deliverAct_filled (s : Stack) (d : Datagram) : (deliverAct s d).2.Filled := by
  have hdelivers := deliverAct_delivers s d
  generalize (deliverAct s d).2 = a at hdelivers
  cases hdelivers with
  | echo _ hlen => exact Nat.lt_of_lt_of_le (by decide) hlen
  | _ => trivial

theorem deliver_emits (s : Stack) (d : Datagram) :
    Post (fun _ => True)
      (fun s' => Emits ((deliverAct s d).2.Reflects (s.counts (deliverAct s d).1) now) s.tx s'.tx)
      (deliver s now d) := by
  have htx : (s.counts (deliverAct s d).1).tx = s.tx := by rw [Stack.counts_eq]
  rw [← htx]
  exact perform_emits _ (deliverAct_filled s d)

end Replies

/-! ### Parked packets -/

/-- An ARP packet lets packets go that wait for the address it advertises, with
the broadcast address as its hardware address. -/
def FlushesToBcast (c : ArpCache) (p : Pkt) : Prop :=
  ∃ q i, arpReads p q ∧ q.sha = ethBcast ∧ q.spa ≠ 0 ∧ arpLookup c q.spa = some i ∧
    (c i).state = .pending ∧ (c i).waitq ≠ []

section Flush

variable {devs : Devs} {now : Nat} {dev : DevIdx}

theorem Arp.setEntry_self (a : Arp) (i : ArpIdx) (e : ArpEntry) :
    (a.setEntry i e).entries i = e := by
  simp only [Arp.setEntry, update_self]

theorem arpFlush_emits (i : ArpIdx) (l : List WaitPkt) (a : Arp) :
    Post (fun _ => True) (fun b => Emits ((a.entries i).mac = ethBcast ∧ l ≠ []) a.tx b.tx)
      (arpFlush devs i dev l a) := by
  induction l generalizing a with
  | nil => exact Emits.nil fun h => h.2 rfl
  | cons q rest ih =>
    unfold arpFlush
    refine Post.bind (Arp.ethOutput_emits _ _ dev _ q.pkt) fun b hb => ?_
    obtain ⟨hentries, hemits⟩ := hb
    have hmac : ((b.note (.flushed (a.entries i).ip dev q)).entries i).mac = (a.entries i).mac := by
      change (b.entries i).mac = _
      rw [hentries, Arp.setEntry_self]
    refine (ih _).imp fun c hc => (hemits.trans hc).congr ?_
    rw [hmac]
    exact ⟨fun h => ⟨h.elim id And.left, List.cons_ne_nil _ _⟩, fun h => Or.inl h.1⟩

theorem arpEntryResolve_emits (i : ArpIdx) (mac : Mac) (a : Arp) :
    Post (fun _ => True)
      (fun b => Emits (mac = ethBcast ∧ (a.entries i).state = .pending ∧ (a.entries i).waitq ≠ [])
        a.tx b.tx)
      (arpEntryResolve devs i dev mac now a) := by
  unfold arpEntryResolve
  simp only
  split
  · rename_i hpend
    refine (arpFlush_emits i _ _).imp fun b hb => hb.congr ?_
    rw [Arp.setEntry_self]
    exact and_congr_right fun _ => (and_iff_right hpend).symm
  · rename_i hpend
    exact Emits.nil fun h => hpend h.2.1

theorem arpSendReply_emits (sha : Mac) (spa : UInt32) (a : Arp) :
    Post (fun _ => True) (fun b => Emits False a.tx b.tx) (arpSendReply devs dev sha spa a) := by
  unfold arpSendReply Arp.ethOutput
  refine Post.bind (pktTx_data _) fun p _ => ?_
  rw [ethFrame_eq]
  split
  · exact Emits.none id fun f hf => by rw [List.mem_singleton.mp hf]
  · trivial

theorem arpAnswer_emits (q : ArpPkt) (a : Arp) :
    Post (fun _ => True) (fun b => Emits False a.tx b.tx) (arpAnswer devs dev q a) := by
  unfold arpAnswer
  split
  · exact arpSendReply_emits _ _ (a.count .arpReqForUs)
  split
  · exact Emits.nil id
  · exact Emits.nil id

theorem arpAllocEntry_free (a : Arp) :
    ((arpAllocEntry a).2.entries (arpAllocEntry a).1).state = .free := by
  unfold arpAllocEntry
  split
  · rename_i i hi
    exact of_decide_eq_true (Slots.first_some hi)
  · rw [Arp.setEntry_self]
    rfl

theorem arpMerge_emits (q : ArpPkt) (a : Arp) :
    Post (fun _ => True)
      (fun b => Emits (∃ i, q.sha = ethBcast ∧ q.spa ≠ 0 ∧ arpLookup a.entries q.spa = some i ∧
        (a.entries i).state = .pending ∧ (a.entries i).waitq ≠ []) a.tx b.tx)
      (arpMerge devs now dev q a) := by
  unfold arpMerge
  split
  · rename_i hzero
    exact Emits.nil fun ⟨_, _, h, _⟩ => h hzero
  rename_i hspa
  cases hfind : arpLookup a.entries q.spa with
  | some i =>
    refine (arpEntryResolve_emits i q.sha a).imp fun b hb => hb.congr ?_
    constructor
    · exact fun ⟨hsha, hpend, hq⟩ => ⟨i, hsha, hspa, rfl, hpend, hq⟩
    · rintro ⟨j, hsha, -, hj, hpend, hq⟩
      cases hj
      exact ⟨hsha, hpend, hq⟩
  | none =>
    simp only
    split
    · have hfree := arpAllocEntry_free a
      have htx := (arpAllocEntry_frame a).1
      generalize arpAllocEntry a = picked at hfree htx ⊢
      obtain ⟨i, b⟩ := picked
      refine (arpEntryResolve_emits i q.sha _).imp fun c hc => ?_
      change Emits _ b.tx c.tx at hc
      rw [← htx]
      refine hc.congr (iff_of_false ?_ ?_)
      · rintro ⟨-, hpend, -⟩
        rw [Arp.setEntry_self] at hpend
        cases hfree.symm.trans hpend
      · rintro ⟨_, _, _, h, _⟩
        cases h
    · refine Emits.nil ?_
      rintro ⟨_, _, _, h, _⟩
      cases h

theorem arpInput_emits (p : Pkt) (a : Arp) :
    Post (fun _ => True) (fun b => Emits (FlushesToBcast a.entries p) a.tx b.tx)
      (arpInput devs now dev p a) := by
  unfold arpInput
  simp only
  split
  · rename_i hlen
    refine Emits.nil ?_
    rintro ⟨q, i, hq, -⟩
    exact absurd hq.1 (Nat.not_le_of_lt hlen)
  rename_i hlen
  rw [Pkt.view_ok (by omega), List.drop_zero, ok_bind]
  cases hparse : arpParse (p.data.take arpHdrLen) with
  | none =>
    refine Emits.nil ?_
    rintro ⟨q, i, hq, -⟩
    cases hparse.symm.trans hq.2
  | some q =>
    have hp : arpReads p q := ⟨Nat.le_of_not_lt hlen, hparse⟩
    refine Post.bind (arpMerge_emits q _) fun b hb => ?_
    refine (arpAnswer_emits q b).imp fun c hc => (hb.trans hc).congr ?_
    rw [or_false]
    constructor
    · exact fun ⟨i, h⟩ => ⟨q, i, hp, h⟩
    · rintro ⟨q', i, hq', h⟩
      cases hparse.symm.trans hq'.2
      exact ⟨i, h⟩

end Flush

/-! ### Frames -/

/-- What is done about a frame transmits an IPv4 broadcast: the reply that it
elicits, whole or as the last fragment of a datagram, or a packet that it lets go. -/
def Verdict.Reflects (s : Stack) (now : Nat) (heap : Nat → UInt8) (dev : DevIdx) : Verdict → Prop
  | .act a => a.Reflects s now
  | .arp p => FlushesToBcast s.cache p
  | .frag d =>
    let r := ipReassInput s.reass now (some dev) heap d
    let t := s.putReass r
    ∃ whole src, r.delivered = [(src, Datagram.bytes whole)] ∧
      (deliverAct t whole).2.Reflects (t.counts (deliverAct t whole).1) now

section Frames

variable {s : Stack} {now : Nat}

theorem Datagram.ext_bytes {d d' : Datagram} (h : d.bytes = d'.bytes) : d = d' := by
  cases d
  cases d'
  cases h
  rfl

theorem reassemble_emits (h : ReassOk s) (heap : Nat → UInt8) (dev : DevIdx) (d : Datagram) :
    Post (fun _ => True)
      (fun s' => Emits ((Verdict.frag d).Reflects s now heap dev) s.tx s'.tx)
      (reassemble s now heap dev d) := by
  have hcases := reassemble_cases h now heap dev d
  generalize reassemble s now heap dev d = m at hcases ⊢
  cases hcases with
  | held hdel =>
    refine Emits.nil ?_
    rintro ⟨whole, src, hdel', -⟩
    cases hdel.symm.trans hdel'
  | handed hwhole hdel =>
    rename_i whole src
    refine (deliver_emits _ whole).imp fun s' hs' => hs'.congr ?_
    constructor
    · exact fun hr => ⟨whole, src, hdel, hr⟩
    · rintro ⟨whole', src', hdel', hr⟩
      have hbytes : whole.bytes = whole'.bytes := by
        have hlist := hdel.symm.trans hdel'
        simp only [List.cons.injEq, Prod.mk.injEq] at hlist
        exact hlist.1.2
      rw [Datagram.ext_bytes hbytes]
      exact hr

theorem runVerdict_emits (h : ReassOk s) (heap : Nat → UInt8) (dev : DevIdx) {p : Pkt} {v : Verdict}
    {t : Stack} (hv : Judged t dev p v) :
    Post (fun _ => True) (fun s' => Emits (v.Reflects s now heap dev) s.tx s'.tx)
      (runVerdict s now heap dev v) := by
  have hact (a : Action) (ha : a.Filled) : Post (fun _ => True)
      (fun s' => Emits ((Verdict.act a).Reflects s now heap dev) s.tx s'.tx)
      (runVerdict s now heap dev (.act a)) := perform_emits s ha
  cases hv with
  | quiet => exact hact .quiet trivial
  | arp hdr => exact Post.bind (arpInput_emits _ s.arp) fun a ha => ha
  | @forward q =>
    refine hact _ ?_
    have hforwards := forwardAct_forwards t dev q
    generalize (forwardAct t dev q).2 = a at hforwards
    cases hforwards with
    | quiet => trivial
    | error => trivial
    | hop => trivial
    | null => trivial
  | @deliver q => exact hact _ (deliverAct_filled t q.datagram)
  | @frag q => exact reassemble_emits h heap dev q.datagram

/-- Receiving a frame transmits no IPv4 broadcast, except where the frame makes
the stack send to a broadcast address or next hop. -/
theorem no_broadcast_reflected {s' : Stack} (h : s.Reach) {heap : Nat → UInt8} {dev : DevIdx}
    {f : RxFrame} (hrun : ethInput s now heap dev f.pkt = .ok s') :
    (∀ fr ∈ s'.tx.drop s.tx.length, fr.type = ethTypeIp4 → fr.dst ≠ ethBcast) ↔
      ¬ (ethVerdict s dev f.pkt).2.Reflects (s.counts (ethVerdict s dev f.pkt).1) now heap dev := by
  have hok : ReassOk (s.counts (ethVerdict s dev f.pkt).1) :=
    h.reassOk.of_ctxs (Stack.counts_ctxs _ _)
  have hemits := (runVerdict_emits hok heap dev (ethVerdict_judged s dev f.pkt)).of_ok
    (ethInput_eq s now heap dev f.pkt ▸ hrun)
  have htx : (s.counts (ethVerdict s dev f.pkt).1).tx = s.tx := by rw [Stack.counts_eq]
  rw [htx] at hemits
  obtain ⟨fs, hfs, hiff⟩ := hemits
  rw [← hiff, hfs, List.drop_left]
  constructor
  · rintro hall ⟨f, hf, hip, hdst⟩
    exact hall f hf hip hdst
  · exact fun hno fr hfr hip hdst => hno ⟨fr, hfr, hip, hdst⟩

end Frames

/-- An empty echo request to 10.0.0.1; the source and the header checksum vary. -/
def echoRequest (csum srcHost : List UInt8) : List UInt8 :=
  lanEthHdr ++ [0x45, 0, 0, 28, 0, 0, 0, 0, 64, 1] ++ csum ++ [10, 0, 0] ++ srcHost ++
    [10, 0, 0, 1, 8, 0, 0xf7, 0xff, 0, 0, 0, 0]

theorem hostEcho_fits :
    (echoRequest [0x66, 0xd8] [9]).length ≤ pktBufSize - pktRxOffset := by decide

/-- From the host 10.0.0.9. -/
def hostEcho : RxFrame := ⟨echoRequest [0x66, 0xd8] [9], hostEcho_fits⟩

/-- The host's address is known, so the reply leaves at once, to it alone. -/
theorem no_broadcast_reflected_host :
    ∃ s s' fr, stackStep lanStack (.frame 4 (fun _ => 0) lanDev hostArp) = .ok s ∧
      ethInput s 5 (fun _ => 0) lanDev hostEcho.pkt = .ok s' ∧
      s'.tx.drop s.tx.length = [fr] ∧ fr.type = ethTypeIp4 ∧ fr.dst = ⟨2, 0, 0, 0, 0, 9⟩ ∧
      ¬ (ethVerdict s lanDev hostEcho.pkt).2.Reflects
        (s.counts (ethVerdict s lanDev hostEcho.pkt).1) 5 (fun _ => 0) lanDev := by
  obtain ⟨s, s', fr, hs, hrun, hsent, htype, hdst⟩ : ∃ s s' fr,
      stackStep lanStack (.frame 4 (fun _ => 0) lanDev hostArp) = .ok s ∧
      ethInput s 5 (fun _ => 0) lanDev hostEcho.pkt = .ok s' ∧
      s'.tx.drop s.tx.length = [fr] ∧ fr.type = ethTypeIp4 ∧ fr.dst = ⟨2, 0, 0, 0, 0, 9⟩ :=
    ⟨_, _, _, rfl, rfl, rfl, rfl, rfl⟩
  have hr : s.Reach := lanStack_reach.next (.frame 4 (fun _ => 0) lanDev hostArp) trivial hs
  refine ⟨s, s', fr, hs, hrun, hsent, htype, hdst, (no_broadcast_reflected hr hrun).mp ?_⟩
  intro x hx _
  rw [hsent, List.mem_singleton] at hx
  rw [hx, hdst]
  decide

theorem smurfEcho_fits :
    (echoRequest [0x65, 0xe2] [255]).length ≤ pktBufSize - pktRxOffset := by decide

/-- From the directed broadcast address 10.0.0.255 of our network. -/
def smurfEcho : RxFrame := ⟨echoRequest [0x65, 0xe2] [255], smurfEcho_fits⟩

theorem echo_reply_broadcast :
    lanStack.Reach ∧ ∃ s' fr, ethInput lanStack 5 (fun _ => 0) lanDev smurfEcho.pkt = .ok s' ∧
      fr ∈ s'.tx.drop lanStack.tx.length ∧ fr.type = ethTypeIp4 ∧ fr.dst = ethBcast ∧
      ipProto fr.payload = ipProtoIcmp ∧ ipDaddr fr.payload = 0x0a0000ff := by
  refine ⟨lanStack_reach, _, _, rfl, List.mem_cons_self, ?_, ?_, ?_, ?_⟩
  · rfl
  · rfl
  · rfl
  · rfl

end PacketForge
