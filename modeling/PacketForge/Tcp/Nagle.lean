import PacketForge.Tcp.SenderRun

/-!
Nagle's algorithm in `tcp_output`. The rule is that no data segment shorter
than the MSS leaves while earlier data is unacknowledged. The loop holds such a
segment back only where it would empty the buffer, so a chunk cut short by the
send window goes out all the same. The condition under which that happens in a
call is the one on its entry state below.
-/

namespace PacketForge

/-- No short data segment among `out` was sent behind unacknowledged data.
`tcp_output` sends data at `snd_nxt` and leaves `snd_una` alone, so what was in
flight when a segment left is the distance of its sequence number from `una`. -/
def NagleOk (una : UInt32) (mss : UInt16) (out : List Seg) : Prop :=
  ∀ g ∈ out, g.payload ≠ [] → 0 < (g.seq - una).toNat → mss.toNat ≤ g.payload.length

/-- The window ends inside the queued data, off the grid of full segments that
starts at the data in flight, and behind some data. -/
def WindowCuts (t : Tcb) (wnd : UInt32) : Prop :=
  let inFlight := (t.sndNxt - t.sndUna).toNat
  let room := wnd.toNat - inFlight
  t.finSent = false ∧ 0 < t.mss.toNat ∧ inFlight < wnd.toNat ∧
    room < (t.sndLen - tcpDataInFlight t).toNat ∧ room % t.mss.toNat ≠ 0 ∧
    (0 < inFlight ∨ t.mss.toNat ≤ room)

instance (una : UInt32) (mss : UInt16) (out : List Seg) : Decidable (NagleOk una mss out) :=
  inferInstanceAs (Decidable (∀ g ∈ out, _ → _ → _))

instance (t : Tcb) (wnd : UInt32) : Decidable (WindowCuts t wnd) :=
  inferInstanceAs (Decidable (_ ∧ _ ∧ _ ∧ _ ∧ _ ∧ _))

theorem NagleOk.append_singleton (una : UInt32) (mss : UInt16) (out : List Seg) (g : Seg) :
    NagleOk una mss (out ++ [g]) ↔
      NagleOk una mss out ∧
        (g.payload ≠ [] → 0 < (g.seq - una).toNat → mss.toNat ≤ g.payload.length) := by
  unfold NagleOk
  simp only [List.forall_mem_append, List.forall_mem_singleton]

theorem tcpDataInFlight_of_unsent {t : Tcb} (h : t.finSent = false) :
    tcpDataInFlight t = t.sndNxt - t.sndUna := by
  simp [tcpDataInFlight, h]

/-! ### One round of the loop -/

/-- Where the loop stops, the window cuts nothing off. -/
theorem not_windowCuts_of_stop {t : Tcb} {wnd : UInt32}
    (h : tcpNextChunk t wnd = none) : ¬ WindowCuts t wnd := by
  rintro ⟨hfin, hmss, hroom, hcut, hoff, -⟩
  rw [tcpNextChunk_eq, if_pos] at h
  · cases h
  have hlen : chunkLen t wnd ≤ wnd.toNat - (t.sndNxt - t.sndUna).toNat := by
    unfold chunkLen
    omega
  refine ⟨hfin, ?_, ?_⟩
  · unfold chunkLen
    omega
  · rintro ⟨-, -, -, hall⟩
    omega

/-- The arithmetic of one round, on the bytes in flight `f`, the bytes queued
behind them `a`, the window `w` and the MSS `m`. A chunk of `k` bytes breaks
the rule only if the window cuts it, and otherwise the rest of the call is cut
just as the whole was. -/
theorem round_cuts {f a w m k : Nat} (hm : 0 < m) (hk : k = min (min a m) (w - f)) (hpos : 0 < k)
    (hheld : ¬ (0 < f ∧ k < m ∧ k = a)) :
    (f < w ∧ w - f < a ∧ (w - f) % m ≠ 0 ∧ (0 < f ∨ m ≤ w - f)) ↔
      (0 < f ∧ k < m) ∨
        (f + k < w ∧ w - (f + k) < a - k ∧ (w - (f + k)) % m ≠ 0 ∧
          (0 < f + k ∨ m ≤ w - (f + k))) := by
  by_cases hfull : k = m
  · -- a full segment: the room shrinks by one MSS and keeps its remainder
    have hmod : (w - f) % m = (w - (f + k)) % m := by
      rw [hfull, ← Nat.sub_sub]
      exact Nat.mod_eq_sub_mod (by omega)
    rw [hmod]
    constructor
    · rintro ⟨-, hcut, hoff, -⟩
      have hne : w - (f + k) ≠ 0 := by
        intro hz
        rw [hz, Nat.zero_mod] at hoff
        exact hoff rfl
      exact Or.inr ⟨by omega, by omega, hoff, by omega⟩
    · rintro (⟨-, hlt⟩ | ⟨hroom, hcut, hoff, -⟩)
      · omega
      · exact ⟨by omega, by omega, hoff, by omega⟩
  · have hlt : k < m := by omega
    constructor
    · rintro ⟨-, hcut, -, hlate⟩
      exact Or.inl ⟨by omega, hlt⟩
    · rintro (⟨hf, -⟩ | ⟨hroom, hcut, -, -⟩)
      · have hroom : w - f = k := by omega
        have hmod : (w - f) % m = k := by rw [hroom, Nat.mod_eq_of_lt hlt]
        exact ⟨by omega, by omega, by omega, Or.inl hf⟩
      · omega

/-- One round: the segment it sends breaks the rule, or what it leaves is cut,
exactly if the window cuts what it found. -/
theorem tcpOutputChunk_cuts (now : Nat) (c : Conn) {wnd : UInt32} {chunk : UInt16}
    (hn : c.tcb.nodelay = false) (hsome : tcpNextChunk c.tcb wnd = some chunk) :
    WindowCuts c.tcb wnd ↔
      (0 < (c.tcb.sndNxt - c.tcb.sndUna).toNat ∧ chunk.toNat < c.tcb.mss.toNat) ∨
        WindowCuts (tcpOutputChunk now c chunk).tcb wnd := by
  obtain ⟨hfin, hpos, havail, -, -⟩ := tcpNextChunk_some hsome
  have h := hsome
  rw [tcpNextChunk_eq] at h
  split at h
  case isFalse => cases h
  rename_i hsend
  obtain ⟨-, hlen, hheld⟩ := hsend
  have hdata := tcpDataInFlight_of_unsent hfin
  have hm : chunkLen c.tcb wnd ≤ c.tcb.mss.toNat := by
    unfold chunkLen
    omega
  have hmlt := c.tcb.mss.toNat_lt
  have hk : chunk.toNat = chunkLen c.tcb wnd := by
    cases h
    rw [UInt16.toNat_ofNat']
    exact Nat.mod_eq_of_lt (by omega)
  have hview := tcpOutputChunk_send now c chunk
  have hrest := tcpOutputChunk_rest now c chunk
  have hflight := tcpOutputChunk_flight now c hsome
  set d := tcpOutputChunk now c chunk
  have hnxt : d.tcb.sndNxt = c.tcb.sndNxt + chunk.toUInt32 := congrArg SendView.nxt hview
  have huna : d.tcb.sndUna = c.tcb.sndUna := congrArg SendView.una hview
  have hfin' : d.tcb.finSent = false := (congrArg SendView.finSent hview).trans hfin
  have hslen : d.tcb.sndLen = c.tcb.sndLen := congrArg SendView.len hview
  have hmss' : d.tcb.mss = c.tcb.mss := Conn.rest_mss hrest
  have hdata' := tcpDataInFlight_of_unsent hfin'
  have hleft : (d.tcb.sndLen - tcpDataInFlight d.tcb).toNat =
      (c.tcb.sndLen - tcpDataInFlight c.tcb).toNat - chunk.toNat := by
    have hsub : c.tcb.sndLen - (c.tcb.sndNxt + chunk.toUInt32 - c.tcb.sndUna) =
        c.tcb.sndLen - (c.tcb.sndNxt - c.tcb.sndUna) - chunk.toUInt32 := by grind
    rw [hdata', hslen, hnxt, huna, hsub, hdata, ← UInt16.toNat_toUInt32 chunk]
    rw [hdata] at havail
    exact UInt32.toNat_sub_of_le _ _ havail
  have hround := round_cuts (f := (c.tcb.sndNxt - c.tcb.sndUna).toNat)
    (a := (c.tcb.sndLen - tcpDataInFlight c.tcb).toNat) (w := wnd.toNat) (m := c.tcb.mss.toNat)
    (k := chunk.toNat) (by omega) hk (by omega)
    (fun hheld' => hheld ⟨hn, by rw [hdata]; exact hheld'.1, by omega, by omega⟩)
  unfold WindowCuts
  simp only [hfin, hfin', hmss', hflight, hleft, true_and]
  rw [and_iff_right (show 0 < c.tcb.mss.toNat by omega),
    and_iff_right (show 0 < c.tcb.mss.toNat by omega)]
  exact hround

/-! ### The call -/

theorem tcpOutputLoop_nagle (now : Nat) (wnd : UInt32) (fuel : Nat) (c : Conn)
    (hn : c.tcb.nodelay = false)
    (hfuel : wnd.toNat ≤ (c.tcb.sndNxt - c.tcb.sndUna).toNat + fuel) :
    NagleOk c.tcb.sndUna c.tcb.mss (tcpOutputLoop now wnd fuel c).out ↔
      NagleOk c.tcb.sndUna c.tcb.mss c.out ∧ ¬ WindowCuts c.tcb wnd := by
  induction fuel generalizing c with
  | zero =>
    -- no room is left, so nothing is cut
    have hnone : ¬ WindowCuts c.tcb wnd := fun ⟨_, _, hroom, _⟩ => by omega
    exact (and_iff_left hnone).symm
  | succ fuel ih =>
    unfold tcpOutputLoop
    split
    · rename_i hnone
      exact (and_iff_left (not_windowCuts_of_stop hnone)).symm
    · rename_i chunk hchunk
      obtain ⟨-, hpos, -, -, hfit⟩ := tcpNextChunk_some hchunk
      rw [UInt32.lt_iff_toNat_lt, UInt16.toNat_toUInt32, UInt32.toNat_zero] at hpos
      have hcuts := tcpOutputChunk_cuts now c hn hchunk
      have hflight := tcpOutputChunk_flight now c hchunk
      have hview := tcpOutputChunk_send now c chunk
      have hrest := tcpOutputChunk_rest now c chunk
      set d := tcpOutputChunk now c chunk
      have huna : d.tcb.sndUna = c.tcb.sndUna := congrArg SendView.una hview
      have hmss : d.tcb.mss = c.tcb.mss := Conn.rest_mss hrest
      have hn' : d.tcb.nodelay = false :=
        (Conn.of_rest (fun x => x.tcb.nodelay) (fun _ => rfl) hrest).trans hn
      have hout : d.out = _ := congrArg SendView.out hview
      have hrec := ih d hn' (by omega)
      rw [huna, hmss, hout, NagleOk.append_singleton, tcpSegment_payload_length] at hrec
      rw [hrec, hcuts, and_assoc]
      apply and_congr_right
      intro _
      rw [not_or]
      apply and_congr_left
      intro _
      have hne : (tcpSegment c.tcb (dataFlags (chunk.toUInt32 == c.tcb.sndLen -
          tcpDataInFlight c.tcb)) c.tcb.sndNxt (tcpDataInFlight c.tcb) chunk).payload ≠ [] := by
        apply List.ne_nil_of_length_pos
        rw [tcpSegment_payload_length]
        exact hpos
      constructor
      · rintro hfull ⟨hf, hshort⟩
        exact absurd (hfull hne hf) (by omega)
      · intro hrule _ hf
        change 0 < (c.tcb.sndNxt - c.tcb.sndUna).toNat at hf
        by_contra hshort
        exact hrule ⟨hf, by omega⟩

theorem tcpOutputFin_nagle (now : Nat) (c : Conn) (una : UInt32) (mss : UInt16) :
    NagleOk una mss (tcpOutputFin now c).out ↔ NagleOk una mss c.out := by
  unfold tcpOutputFin
  split
  · have hout : (tcpSendFin now c).out = _ := congrArg SendView.out (tcpSendFin_send now c)
    rw [hout, NagleOk.append_singleton]
    apply and_iff_left
    intro hne
    exact absurd (List.eq_nil_of_length_eq_zero (tcpSegment_payload_length _ _ _ _ _)) hne
  · rfl

/-- A call of `tcp_output` with Nagle's algorithm on keeps the rule exactly if
the connection may not send or the smaller of the two windows does not cut the
queued data short behind other data. -/
theorem nagle_iff (now : Nat) (t : Tcb) (st : Stats) (hn : t.nodelay = false) :
    NagleOk t.sndUna t.mss (tcpOutput now (Conn.start t st)).out ↔
      ¬ (t.state.sends = true ∧ WindowCuts t (pfMin t.sndWnd t.cwnd)) := by
  have hempty : NagleOk t.sndUna t.mss [] := fun g hg => absurd hg List.not_mem_nil
  unfold tcpOutput
  by_cases hst : t.state.sends = true
  · rw [if_pos (show (Conn.start t st).tcb.state.sends = true from hst), tcpOutputFin_nagle]
    have hloop := tcpOutputLoop_nagle now (pfMin t.sndWnd t.cwnd) (pfMin t.sndWnd t.cwnd).toNat
      (Conn.start t st) hn (Nat.le_add_left _ _)
    rw [and_iff_right hst]
    exact hloop.trans (and_iff_right hempty)
  · rw [if_neg (show ¬ (Conn.start t st).tcb.state.sends = true from hst)]
    exact iff_of_true hempty (fun h => hst h.1)

/-- Behind a byte in flight, a full segment of the 540 bytes written goes out, and
the four that are left wait. -/
theorem nagle_iff_short_tail :
    let h := (establishedHist 1000).step (.send 2 [1])
    let t := (sndAppend (List.replicate 540 7) h.conn).tcb
    tcpDataInFlight t = 1 ∧ t.sndLen - tcpDataInFlight t = 540 ∧
      (tcpOutput 3 (Conn.start t Stats.zero)).out.map (fun g => (g.seq, g.payload.length)) =
        [(102, 536)] ∧
      NagleOk t.sndUna t.mss (tcpOutput 3 (Conn.start t Stats.zero)).out := by
  refine ⟨by decide +kernel, by decide +kernel, by decide +kernel, ?_⟩
  exact (nagle_iff 3 _ Stats.zero (by decide +kernel)).mpr (by decide +kernel)

/-- In a reachable connection with a window of three bytes and two of them in
flight, two more bytes written are not held back: the one that still fits goes
out alone. -/
theorem short_segment_behind_data :
    let h := (establishedHist 3).step (.send 2 [1, 2])
    let t := (sndAppend [3, 4] h.conn).tcb
    SendHist.Reach h ∧ (h.step (.send 3 [3, 4])).conn.out =
        (tcpOutput 3 (Conn.start t h.conn.stats)).out ∧
      t.nodelay = false ∧ t.mss = 536 ∧ tcpDataInFlight t = 2 ∧
      (tcpOutput 3 (Conn.start t h.conn.stats)).out.map (fun g => (g.seq, g.payload)) =
        [(103, [3])] ∧
      ¬ NagleOk t.sndUna t.mss (tcpOutput 3 (Conn.start t h.conn.stats)).out := by
  have hreach : SendHist.Reach ((establishedHist 3).step (.send 2 [1, 2])) :=
    .next (establishedHist_reach 3) _ (CloseAfterHandshake.send _ _ _)
  exact ⟨hreach, by rfl, by decide +kernel, by decide +kernel, by decide +kernel,
    by decide +kernel, by decide +kernel⟩

end PacketForge
