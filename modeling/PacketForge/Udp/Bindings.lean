import PacketForge.Host.Calls
import PacketForge.Udp.Socket

/-!
UDP bindings never overlap. A step can change what sockets are bound to only in
the ways `BindMove` lists; each keeps any two UDP sockets apart, so that at most
one socket matches a destination and the order of the slots does not matter to
the lookup.
-/

namespace PacketForge

/-! ### What leaves the bindings alone -/

section Frame

variable (h : Host)

/-- What TCP leaves alone holds the bindings. -/
theorem Host.bindings_of_api {h k : Host} (heq : k.api = h.api) : k.bindings = h.bindings := by
  have hview := congrArg (fun v : ApiView => fun s => (v.socks s).binding) heq
  exact hview

theorem tcpInput_bindings (now : Nat) (g : Seg) : (tcpInput now g h).bindings = h.bindings :=
  Host.bindings_of_api (tcpInput_api h now g)

theorem tcpTick_bindings (now : Nat) : (tcpTick now h).bindings = h.bindings :=
  Host.bindings_of_api (tcpTick_api h now)

end Frame

/-! ### The calls -/

section Calls

variable (h : Host)

/-- An ephemeral port is one that no UDP socket holds. -/
theorem ephemeralLoop_free (fuel : Nat) (next : UInt16)
    (hport : (ephemeralLoop h fuel next).1 ≠ 0) :
    ¬ h.bindings.inUse .udp 0 (ephemeralLoop h fuel next).1 := by
  induction fuel generalizing next with
  | zero => exact absurd rfl hport
  | succ fuel ih =>
    unfold ephemeralLoop at hport ⊢
    simp only at hport ⊢
    split
    · rename_i hfree
      simp only [Bool.and_eq_true, Bool.not_eq_true'] at hfree
      rw [← pfSockPortInUse_iff, hfree.1.2]
      exact Bool.false_ne_true
    · rename_i hused
      rw [if_neg hused] at hport
      exact ih _ hport

variable (sock : Int)

theorem hostStep_bindings (e : HostEvent) : BindMoves h.bindings (hostStep h e).bindings := by
  unfold hostStep
  simp only
  split
  · rw [tcpInput_bindings]
    exact .refl
  · rw [tcpTick_bindings]
    exact .refl
  · exact (hostCall_ops { h with out := [] } _ _).bindings
  · exact .refl
  · exact (hostResume_ops { h with out := [] } _ _ _).bindMoves.bindings
  · exact .refl

theorem sendtoSock_bindings (len : Nat) (dstPort : UInt16) :
    BindMoves h.bindings (sendtoSock sock len dstPort h).1.bindings := by
  unfold sendtoSock
  split
  · exact .refl
  rename_i s _
  split
  · exact .refl
  rename_i hguard
  split
  · exact .refl
  split
  · have htype : (h.bindings s).type = .udp := by
      by_contra hne
      exact hguard (.inl hne)
    have hfree := ephemeralLoop_free h 16384 h.ephemeralNext
    unfold pfSockEphemeralPort
    simp only
    generalize (ephemeralLoop h 16384 h.ephemeralNext).1 = port at hfree ⊢
    split
    · exact .refl
    · rename_i hport
      have hmove := BindMove.auto s port htype (hfree hport)
      rw [← htype] at hmove
      exact (Host.bindings_setSock _ s _ : _ = _) ▸ .single hmove
  · exact .refl

theorem sockStep_bindings (e : SockEvent) : BindMoves h.bindings (sockStep h e).bindings := by
  cases e with
  | host e => exact hostStep_bindings h e
  | sendto sock len dstPort =>
    unfold sockStep
    simp only
    split
    · exact sendtoSock_bindings h sock len dstPort
    · exact .refl

end Calls

/-! ### UDP sockets stay apart -/

/-- Two UDP sockets with one port are bound to different addresses, neither of
them the wildcard. -/
def UdpApart (b : Bindings) : Prop :=
  ∀ s t, s ≠ t → (b s).type = .udp → (b t).type = .udp → (b s).port = (b t).port →
    (b s).port ≠ 0 → (b s).ip ≠ 0 ∧ (b t).ip ≠ 0 ∧ (b s).ip ≠ (b t).ip

/-- A socket may be bound anew as long as the binding keeps apart from those of
the other UDP sockets. -/
theorem UdpApart.update {b : Bindings} (hb : UdpApart b) (s : SockIdx) (x : Binding)
    (hx : x.type = .udp → x.port ≠ 0 → ∀ t, t ≠ s → (b t).type = .udp → (b t).port = x.port →
      x.ip ≠ 0 ∧ (b t).ip ≠ 0 ∧ x.ip ≠ (b t).ip) :
    UdpApart (Function.update b s x) := by
  intro i j hij hi hj hport hne
  by_cases his : i = s
  · subst his
    rw [Function.update_self] at hi hport hne ⊢
    rw [Function.update_of_ne hij.symm] at hj hport ⊢
    exact hx hi hne j hij.symm hj hport.symm
  · rw [Function.update_of_ne his] at hi hport hne ⊢
    by_cases hjs : j = s
    · subst hjs
      rw [Function.update_self] at hj hport ⊢
      obtain ⟨hz, hbz, hd⟩ := hx hj (hport ▸ hne) i his hi hport
      exact ⟨hbz, hz, hd.symm⟩
    · rw [Function.update_of_ne hjs] at hj hport ⊢
      exact hb i j hij hi hj hport hne

theorem UdpApart.move {b b' : Bindings} (hb : UdpApart b) (hm : BindMove b b') : UdpApart b' := by
  cases hm with
  | close s => exact hb.update s _ (fun _ h0 => absurd rfl h0)
  | create s type => exact hb.update s _ (fun _ h0 => absurd rfl h0)
  | tcp s ip port _ =>
    refine hb.update s _ (fun htype => ?_)
    cases htype
  | bind s ip port hfree =>
    refine hb.update s _ (fun htype _ t _ ht hport => ?_)
    refine ⟨fun hz => ?_, fun hz => ?_, fun he => ?_⟩
    · exact hfree ⟨t, ht.trans htype.symm, hport, .inr (.inl hz)⟩
    · exact hfree ⟨t, ht.trans htype.symm, hport, .inl hz⟩
    · exact hfree ⟨t, ht.trans htype.symm, hport, .inr (.inr he.symm)⟩
  | auto s port _ hfree =>
    refine hb.update s _ (fun _ _ t _ ht hport => ?_)
    exact absurd ⟨t, ht, hport, .inr (.inl rfl)⟩ hfree

theorem UdpApart.moves {b b' : Bindings} (hb : UdpApart b) (hm : BindMoves b b') :
    UdpApart b' := by
  induction hm with
  | refl => exact hb
  | tail _ hmove ih => exact ih.move hmove

/-! ### The lookup -/

/-- Whether a datagram for the address and port is one for the socket. -/
def Host.udpMatches (h : Host) (ip : UInt32) (port : UInt16) (s : SockIdx) : Prop :=
  (h.socks s).type = .udp ∧ (h.socks s).localPort = port ∧
    ((h.socks s).localIp = ip ∨ (h.socks s).localIp = 0)

instance (h : Host) (ip : UInt32) (port : UInt16) (s : SockIdx) :
    Decidable (h.udpMatches ip port s) := inferInstanceAs (Decidable (_ ∧ _))

section Lookup

variable {h : Host} {ip : UInt32} {port : UInt16}

theorem UdpApart.match_unique (hb : UdpApart h.bindings) (hport : port ≠ 0) {s t : SockIdx}
    (hs : h.udpMatches ip port s) (ht : h.udpMatches ip port t) : s = t := by
  by_contra hne
  obtain ⟨hs0, ht0, hd⟩ := hb s t hne hs.1 ht.1 (hs.2.1.trans ht.2.1.symm)
    (fun h0 => hport (hs.2.1.symm.trans h0))
  have hsip : (h.socks s).localIp = ip := hs.2.2.resolve_right hs0
  have htip : (h.socks t).localIp = ip := ht.2.2.resolve_right ht0
  exact hd (hsip.trans htip.symm)

/-- The loop finds a socket that matches, or returns the wildcard it was given. -/
theorem udpLookupLoop_matches {order : List SockIdx} {w : Option SockIdx} {s : SockIdx}
    (hs : udpLookupLoop h ip port order w = some s) : w = some s ∨ h.udpMatches ip port s := by
  induction order generalizing w with
  | nil => exact Or.inl hs
  | cons t rest ih =>
    unfold udpLookupLoop at hs
    simp only at hs
    split at hs
    · exact ih hs
    rename_i hudp
    simp only [ne_eq, not_or, not_not] at hudp
    split at hs
    · rename_i hip
      cases hs
      exact Or.inr ⟨hudp.1, hudp.2, Or.inl hip⟩
    rcases ih hs with hw | hmatch
    · split at hw
      · rename_i hz
        cases hw
        exact Or.inr ⟨hudp.1, hudp.2, Or.inr hz⟩
      · exact Or.inl hw
    · exact Or.inr hmatch

theorem pfSockLookupUdp_matches {s : SockIdx} (hs : pfSockLookupUdp h ip port = some s) :
    h.udpMatches ip port s :=
  (udpLookupLoop_matches hs).resolve_left nofun

theorem udpLookupLoop_none {order : List SockIdx} (hno : ∀ s ∈ order, ¬ h.udpMatches ip port s)
    (w : Option SockIdx) : udpLookupLoop h ip port order w = w := by
  induction order generalizing w with
  | nil => rfl
  | cons s rest ih =>
    have hs := hno s List.mem_cons_self
    have hrest := ih (fun t ht => hno t (List.mem_cons_of_mem s ht))
    unfold Host.udpMatches at hs
    unfold udpLookupLoop
    simp only
    split
    · exact hrest w
    rename_i hudp
    rw [if_neg (by tauto), if_neg (by tauto)]
    exact hrest w

/-- The loop finds the one socket that matches, wherever it stands. -/
theorem udpLookupLoop_some {s : SockIdx} (hs : h.udpMatches ip port s)
    (honly : ∀ t, h.udpMatches ip port t → t = s) {order : List SockIdx} (hmem : s ∈ order)
    (w : Option SockIdx) : udpLookupLoop h ip port order w = some s := by
  -- Once the wildcard socket is found, further matches can only be itself.
  have hkeep (order : List SockIdx) : udpLookupLoop h ip port order (some s) = some s := by
    induction order with
    | nil => rfl
    | cons t rest ih =>
      unfold udpLookupLoop
      simp only
      split
      · exact ih
      rename_i hudp
      simp only [ne_eq, not_or, not_not] at hudp
      split
      · rename_i hip
        rw [honly t ⟨hudp.1, hudp.2, .inl hip⟩]
      split
      · rename_i hz
        rw [honly t ⟨hudp.1, hudp.2, .inr hz⟩]
        exact ih
      · exact ih
  induction order generalizing w with
  | nil => cases hmem
  | cons t rest ih =>
    unfold udpLookupLoop
    simp only
    by_cases hts : t = s
    · subst hts
      rw [if_neg (by simp [hs.1, hs.2.1])]
      split
      · rfl
      · rename_i hip
        rw [if_pos (hs.2.2.resolve_left hip)]
        exact hkeep rest
    · have hno : ¬ h.udpMatches ip port t := fun hm => hts (honly t hm)
      have hrest := ih ((List.mem_cons.mp hmem).resolve_left (Ne.symm hts))
      unfold Host.udpMatches at hno
      split
      · exact hrest w
      rw [if_neg (by tauto)]
      exact hrest _

theorem UdpApart.lookup_order (hb : UdpApart h.bindings) (hport : port ≠ 0)
    {order order' : List SockIdx} (hperm : order.Perm order') :
    udpLookupLoop h ip port order none = udpLookupLoop h ip port order' none := by
  by_cases hany : ∃ s ∈ order, h.udpMatches ip port s
  · obtain ⟨s, hmem, hs⟩ := hany
    have honly (t : SockIdx) (ht : h.udpMatches ip port t) : t = s :=
      hb.match_unique hport ht hs
    rw [udpLookupLoop_some hs honly hmem, udpLookupLoop_some hs honly (hperm.mem_iff.mp hmem)]
  · have hno : ∀ s ∈ order, ¬ h.udpMatches ip port s := fun s hmem hs => hany ⟨s, hmem, hs⟩
    rw [udpLookupLoop_none hno, udpLookupLoop_none (fun s hs => hno s (hperm.mem_iff.mpr hs))]

end Lookup

/-! ### Whole runs -/

/-- The states that socket calls, segments and ticks lead to. -/
def SockReach (h : Host) : Prop :=
  Run.Reach (· = Host.init) (fun _ _ => True) sockStep h

theorem SockReach.apart {h : Host} (hr : SockReach h) : UdpApart h.bindings := by
  refine Run.Reach.invariant (fun h : Host => UdpApart h.bindings) (fun h h0 => ?_)
    (fun h e _ hb => hb.moves (sockStep_bindings h e)) hr
  subst h0
  intro s t _ hs
  cases hs

/-- In every state of a run two UDP sockets with one port are bound to different
addresses, so that a destination matches at most one of them and
`pf_sock_lookup_udp` gives the same answer in whatever order it visits the slots. -/
theorem udp_bindings_apart {h : Host} (hr : SockReach h) :
    (∀ s t, s ≠ t → (h.socks s).type = .udp → (h.socks t).type = .udp →
      (h.socks s).localPort = (h.socks t).localPort → (h.socks s).localPort ≠ 0 →
      (h.socks s).localIp ≠ 0 ∧ (h.socks t).localIp ≠ 0 ∧
        (h.socks s).localIp ≠ (h.socks t).localIp) ∧
    (∀ ip port, port ≠ 0 → ∀ s t, h.udpMatches ip port s → h.udpMatches ip port t → s = t) ∧
    ∀ ip port, port ≠ 0 → ∀ order : List SockIdx, order.Perm (List.finRange pfSockMax) →
      udpLookupLoop h ip port order none = pfSockLookupUdp h ip port := by
  refine ⟨hr.apart, ?_, ?_⟩
  · intro ip port hport s t hs ht
    exact hr.apart.match_unique hport hs ht
  · intro ip port hport order hperm
    exact hr.apart.lookup_order hport hperm

/-- Two servers on one port, each on an address of its own. A third socket may
not take the wildcard, and is given an ephemeral port when it sends. -/
def twoServers : List SockEvent :=
  [.host (.call 0 (.socket .udp)), .host (.call 0 (.bind 0 0x0a000001 7)),
    .host (.call 0 (.socket .udp)), .host (.call 0 (.bind 1 0x0a000002 7)),
    .host (.call 0 (.socket .udp)), .host (.call 0 (.bind 2 0 7)), .sendto 2 5 9]

theorem twoServers_binds :
    let h := twoServers.foldl sockStep Host.init
    (h.bindings 0 = ⟨.udp, 0x0a000001, 7⟩ ∧ h.bindings 1 = ⟨.udp, 0x0a000002, 7⟩) ∧
      h.bindings 2 = ⟨.udp, 0, 49152⟩ := by
  decide +kernel

theorem twoServers_reach : SockReach (twoServers.foldl sockStep Host.init) := by
  have hstart : SockReach Host.init := Run.Reach.start rfl
  exact Run.Reach.foldl hstart twoServers
    ⟨trivial, trivial, trivial, trivial, trivial, trivial, trivial, trivial⟩

theorem udp_bindings_apart_servers :
    let h := twoServers.foldl sockStep Host.init
    SockReach h ∧ (h.socks 0).localIp ≠ (h.socks 1).localIp ∧
      udpLookupLoop h 0x0a000002 7 (List.finRange pfSockMax).reverse none =
        pfSockLookupUdp h 0x0a000002 7 := by
  intro h
  have hr : SockReach h := twoServers_reach
  obtain ⟨⟨h0, h1⟩, -⟩ := twoServers_binds
  obtain ⟨hapart, -, horder⟩ := udp_bindings_apart hr
  have hports : (h.bindings 0).port = (h.bindings 1).port := by rw [h0, h1]
  have hport : (h.bindings 0).port ≠ 0 := by
    rw [h0]
    decide
  have hudp0 : (h.bindings 0).type = .udp := by rw [h0]
  have hudp1 : (h.bindings 1).type = .udp := by rw [h1]
  exact ⟨hr, (hapart 0 1 (by decide) hudp0 hudp1 hports hport).2.2,
    horder 0x0a000002 7 (by decide) _ (List.reverse_perm _)⟩

end PacketForge
