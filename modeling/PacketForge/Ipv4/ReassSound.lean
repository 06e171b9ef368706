import PacketForge.Ipv4.ReassTable

/-!
What the reassembler hands up. A run keeps, for every key that has a context,
the fragments of the key received since the context was made. Every datagram
that is handed up is put together from such fragments: they tile its payload,
and its header is the first one's with length, fragmentation and checksum
corrected.

The other half is about fragments past the declared end. A context keeps none
as long as no last fragment pins a total short of data that is already there.
-/

namespace PacketForge

open Intervals

/-! ### Fields of a rebuilt header -/

section Fields

variable {l : List UInt8} {i j : Nat} {x y : UInt16}

theorem ipKey_putBe16 (h : i = 2 ∨ i = 6 ∨ i = 10) : ipKey (putBe16 l i x) = ipKey l := by
  unfold ipKey be32
  have hfield (j : Nat) (hj : j = 4 ∨ 12 ≤ j) : be16 (putBe16 l i x) j = be16 l j :=
    be16_putBe16_other (by omega)
  rw [hfield 12 (by omega), hfield 14 (by omega), hfield 16 (by omega), hfield 18 (by omega),
    hfield 4 (by omega), getD_putBe16 (by omega) (by omega)]

theorem getD_append_left (h : j < l.length) (m : List UInt8) : (l ++ m).getD j 0 = l.getD j 0 := by
  rw [List.getD_eq_getElem?_getD, List.getElem?_append_left h, List.getD_eq_getElem?_getD]

theorem ipHdrLen_putBe16 (h : i ≠ 0) : ipHdrLen (putBe16 l i x) = ipHdrLen l := by
  rw [ipHdrLen, getD_putBe16 (Ne.symm h) (Nat.zero_ne_add_one i), ipHdrLen]

theorem ipKey_append (h : 20 ≤ l.length) (m : List UInt8) : ipKey (l ++ m) = ipKey l := by
  have hfield (j : Nat) (hj : j < 19) : be16 (l ++ m) j = be16 l j := by
    rw [be16, getD_append_left (by omega), getD_append_left (by omega), be16]
  unfold ipKey be32
  rw [hfield 12 (by omega), hfield 14 (by omega), hfield 16 (by omega), hfield 18 (by omega),
    hfield 4 (by omega), getD_append_left (by omega)]

end Fields

theorem Datagram.ipKey_hdr (d : Datagram) : ipKey d.hdr = d.key := by
  have hmin : 20 ≤ d.hdr.length := d.hdr_length.symm ▸ d.hdr_min
  rw [← ipKey_append hmin d.payload, hdr, payload, List.take_append_drop, key]

theorem Datagram.ipHdrLen_hdr (d : Datagram) : ipHdrLen d.hdr = d.hdr.length := by
  have hpos : 0 < d.hdr.length := by
    have hmin : 20 ≤ d.hdrLen := d.hdr_min
    rw [d.hdr_length]
    omega
  have hhead : d.hdr.getD 0 0 = d.bytes.getD 0 0 := by
    rw [← getD_append_left hpos d.payload, hdr, payload, List.take_append_drop]
  rw [d.hdr_length, ipHdrLen, hhead, hdrLen, ipHdrLen]

theorem rebuiltHdr_spec {hdr : List UInt8} (hmin : 20 ≤ hdr.length) (hmax : hdr.length ≤ 60)
    {total : Nat} (htotal : total ≤ 4000) :
    (∃ csum, rebuiltHdr hdr total =
      putBe16 (putBe16 (putBe16 hdr 2 (UInt16.ofNat (hdr.length + total))) 6 0) 10 csum) ∧
    (be16 (rebuiltHdr hdr total) 2).toNat = hdr.length + total ∧
    be16 (rebuiltHdr hdr total) 6 = 0 ∧ inetCsum (rebuiltHdr hdr total) = 0 ∧
    ipKey (rebuiltHdr hdr total) = ipKey hdr ∧
    ipHdrLen (rebuiltHdr hdr total) = ipHdrLen hdr ∧
    (rebuiltHdr hdr total).length = hdr.length := by
  have hcheck : inetCsum (rebuiltHdr hdr total) = 0 := by
    refine inetCsum_putBe16 _ 5 ?_ ?_ ?_
    · simp only [putBe16_length]
      omega
    · simp only [putBe16_length]
      exact hmax
    · exact be16_putBe16 (by simp only [putBe16_length]; omega)
  refine ⟨⟨_, putBe16_putBe16⟩, ?_, ?_, hcheck, ?_, ?_, ?_⟩
  · rw [rebuiltHdr, putBe16_putBe16, be16_putBe16_other (by omega), be16_putBe16_other (by omega),
      be16_putBe16 (by omega)]
    exact Nat.mod_eq_of_lt (by omega)
  · rw [rebuiltHdr, putBe16_putBe16, be16_putBe16_other (by omega),
      be16_putBe16 (by rw [putBe16_length]; omega)]
  · rw [rebuiltHdr, putBe16_putBe16, ipKey_putBe16 (by omega), ipKey_putBe16 (by omega),
      ipKey_putBe16 (by omega)]
  · rw [rebuiltHdr, putBe16_putBe16, ipHdrLen_putBe16 (by omega), ipHdrLen_putBe16 (by omega),
      ipHdrLen_putBe16 (by omega)]
  · simp only [rebuiltHdr, putBe16_length]

/-! ### What is handed up -/

/-- A datagram put together from the fragments of a list. -/
structure Reassembled (k : ReassKey) (fs : List Datagram) (hdr payload : List UInt8) : Prop where
  key : ∀ f ∈ fs, f.key = k
  disjoint : fs.Pairwise fun f g => Avoids f.range g.range
  tiles : ∀ x, Covers (fs.map (·.range)) x ↔ x < payload.length
  bytes : ∀ f ∈ fs, ∀ x, Holds f.range x → payload[x]? = f.payload[x - f.off]?
  last : ∃ f, fs.filter (!·.mf) = [f] ∧ f.stop = payload.length
  bound : payload.length ≤ ipReassMaxPayload
  header : ∃ f csum, fs.filter (·.off = 0) = [f] ∧ hdr = putBe16 (putBe16 (putBe16 f.hdr 2
    (UInt16.ofNat (f.hdrLen + payload.length))) 6 0) 10 csum
  hdrLen : ipHdrLen hdr = hdr.length
  totalLen : (be16 hdr 2).toNat = hdr.length + payload.length
  unfragmented : be16 hdr 6 = 0
  verifies : inetCsum hdr = 0

variable {fs : List Datagram} {c : ReassCtx}

/-- A byte inside a fragment's range is one of its payload. -/
theorem Datagram.payload_of_holds {f : Datagram} {x : Nat} (h : Holds f.range x) :
    f.payload[x - f.off]? = some (f.payload.getD (x - f.off) 0) := by
  have hlt : x - f.off < f.payload.length := by
    have h1 : f.off ≤ x := h.1
    have h2 : x < f.off + f.payload.length := h.2
    omega
  rw [List.getD_eq_getElem?_getD, List.getElem?_eq_getElem hlt]
  rfl

theorem ReassCtx.complete_iff : c.complete = true ↔
    c.haveFirst = true ∧ ∃ total, c.expectedTotal = some total ∧ c.ranges = [(0, total)] := by
  unfold ReassCtx.complete
  rw [decide_eq_true_iff, Option.any_eq_true]
  simp only [decide_eq_true_eq]

/-- A complete context hands up what its fragments make. -/
theorem Collects.reassembled (h : Collects fs c) (hdone : c.complete = true) :
    ∃ hdr payload, c.datagram = hdr ++ payload ∧ ipKey c.datagram = c.key ∧
      Reassembled c.key fs hdr payload := by
  obtain ⟨hfirst, total, htotal, hranges⟩ := ReassCtx.complete_iff.mp hdone
  obtain ⟨l, hl, hlstop⟩ : ∃ f, fs.filter (!·.mf) = [f] ∧ f.stop = total := by
    have hlast := h.last
    rw [htotal] at hlast
    exact List.map_eq_singleton_iff.mp hlast
  obtain ⟨f, hf, hfhdr⟩ : ∃ f, fs.filter (·.off = 0) = [f] ∧ f.hdr = c.hdr := by
    have hfst := h.first
    rw [if_pos hfirst] at hfst
    exact List.map_eq_singleton_iff.mp hfst
  have hmem : f ∈ fs := by
    have hmem : f ∈ fs.filter (·.off = 0) := by rw [hf]; exact List.mem_singleton_self f
    exact (List.mem_filter.mp hmem).1
  have hlmem : l ∈ fs := by
    have hmem : l ∈ fs.filter (!·.mf) := by rw [hl]; exact List.mem_singleton_self l
    exact (List.mem_filter.mp hmem).1
  have hbound : total ≤ 4000 := hlstop ▸ h.fits l hlmem
  have hlen : c.hdr.length = f.hdrLen := by rw [← hfhdr, f.hdr_length]
  have hmin : 20 ≤ c.hdr.length := by
    rw [hlen]
    exact f.hdr_min
  have hmax : c.hdr.length ≤ 60 := by
    rw [hlen]
    exact ipHdrLen_le f.bytes
  obtain ⟨⟨csum, hcsum⟩, hlen2, hfrag, hcheck, hkey, hihl, hlength⟩ :=
    rebuiltHdr_spec hmin hmax hbound
  have hdata : c.datagram = rebuiltHdr c.hdr total ++ (List.range total).map c.payload := by
    rw [ReassCtx.datagram, htotal]
    rfl
  have hpay : ((List.range total).map c.payload).length = total := by
    rw [List.length_map, List.length_range]
  refine ⟨_, _, hdata, ?_, ?_⟩
  · rw [hdata, ipKey_append (hlength.symm ▸ hmin), hkey, ← hfhdr, f.ipKey_hdr]
    exact h.key f hmem
  · refine ⟨h.key, h.disjoint, ?_, ?_, ⟨l, hl, hlstop.trans hpay.symm⟩, hpay.trans_le hbound,
      ⟨f, csum, hf, ?_⟩, ?_, ?_, hfrag, hcheck⟩
    · intro x
      rw [← h.covers, hranges, hpay]
      simp [Covers, Holds]
    · intro g hg x hx
      have hxt : x < total := by
        have hcov := (h.covers x).mpr ⟨g.range, List.mem_map_of_mem hg, hx⟩
        rw [hranges] at hcov
        obtain ⟨r, hr, hrx⟩ := hcov
        rw [List.mem_singleton.mp hr] at hrx
        exact hrx.2
      rw [Datagram.payload_of_holds hx, ← h.bytes g hg x hx, List.getElem?_map,
        List.getElem?_range hxt]
      rfl
    · rw [hpay, ← hlen, hfhdr]
      exact hcsum
    · rw [hihl, hlength, ← hfhdr, f.ipHdrLen_hdr]
    · rw [hpay, hlength]
      exact hlen2

/-! ### Runs with the fragments received -/

def ReassEvent.brings : ReassEvent → ReassKey → List Datagram
  | .frag _ _ _ d, k => if d.key = k then [d] else []
  | .tick _, _ => []

/-- The table, and for each key that has a context the fragments of the key
received since the context was made. -/
structure ReassHist where
  table : Reass
  since : ReassKey → List Datagram

namespace ReassHist

def step (h : ReassHist) (e : ReassEvent) : ReassHist where
  table := reassStep h.table e
  since := fun k =>
    if (ctxFind (reassStep h.table e) k).isSome then h.since k ++ e.brings k else []

abbrev Reach : ReassHist → Prop :=
  Run.Reach (fun h => ∃ stats, h = ⟨Reass.init stats, fun _ => []⟩) (fun _ _ => True) step

/-- Every context holds fragments received since it was made. -/
structure Ok (h : ReassHist) : Prop where
  table : TableOk h.table
  holds : ∀ i, (h.table.ctxs i).inUse = true →
    ∃ fs, fs.Sublist (h.since (h.table.ctxs i).key) ∧ Collects fs (h.table.ctxs i)

variable {h : ReassHist}

theorem Ok.picked (ok : h.Ok) {now : Nat} {dev : Option DevIdx} {heap : Nat → UInt8} {k : ReassKey}
    {i : Fin ipReassCtxs} {c : ReassCtx} (hpick : Picks h.table now dev heap k i c) :
    ∃ fs, fs.Sublist (h.since k) ∧ Collects fs c := by
  cases hpick with
  | found hf =>
    obtain ⟨hi, hk⟩ := ctxFind_some hf
    obtain ⟨fs, hsub, hcol⟩ := ok.holds i hi
    exact ⟨fs, hk ▸ hsub, hcol⟩
  | free => exact ⟨[], List.nil_sublist _, Collects.empty rfl rfl rfl⟩
  | evicted => exact ⟨[], List.nil_sublist _, Collects.empty rfl rfl rfl⟩

theorem Ok.taken (ok : h.Ok) {now : Nat} {dev : Option DevIdx} {heap : Nat → UInt8} {d : Datagram}
    {i : Fin ipReassCtxs} {c c' : ReassCtx} (hgood : d.wellFormed = true)
    (hpick : Picks h.table now dev heap d.key i c) (hadd : ctxAdd c d = .ok c') :
    ∃ fs, fs.Sublist (h.since d.key ++ [d]) ∧ Collects fs c' := by
  obtain ⟨fs, hsub, hcol⟩ := ok.picked hpick
  obtain ⟨ranges, htakes, rfl⟩ := ctxAdd_ok.mp hadd
  exact ⟨fs ++ [d], hsub.append (List.Sublist.refl _),
    hcol.add hpick.inUse.2.symm (Datagram.wellFormed_pos hgood) htakes⟩

/-- A context that an event leaves alone still holds fragments received since
it was made. -/
theorem Ok.untouched (ok : h.Ok) {e : ReassEvent} {i : Fin ipReassCtxs}
    (hsame : (reassStep h.table e).ctxs i = h.table.ctxs i)
    (hi : ((reassStep h.table e).ctxs i).inUse = true) :
    ∃ fs, fs.Sublist ((h.step e).since ((h.step e).table.ctxs i).key) ∧
      Collects fs ((h.step e).table.ctxs i) := by
  have hfind := (ok.table.step e).ctxFind_eq hi rfl
  have hsince : (h.step e).since ((h.step e).table.ctxs i).key =
      h.since ((h.step e).table.ctxs i).key ++ e.brings ((h.step e).table.ctxs i).key :=
    if_pos (Option.isSome_iff_exists.mpr ⟨i, hfind⟩)
  have htable : (h.step e).table.ctxs i = h.table.ctxs i := hsame
  obtain ⟨fs, hsub, hcol⟩ := ok.holds i (hsame ▸ hi)
  rw [hsince, htable]
  exact ⟨fs, hsub.trans (List.sublist_append_left _ _), hcol⟩

theorem Ok.step (ok : h.Ok) (e : ReassEvent) : (h.step e).Ok := by
  refine ⟨ok.table.step e, ?_⟩
  intro i hi
  have hzero (hc : (reassStep h.table e).ctxs i = ReassCtx.zero) : False := by
    have hi' : ((reassStep h.table e).ctxs i).inUse = true := hi
    rw [hc] at hi'
    cases hi'
  cases e with
  | tick now =>
    rcases (ipReassTick_ctxs h.table now).1 i with hc | hc
    · exact ok.untouched hc hi
    · exact (hzero hc).elim
  | frag now dev heap d =>
    -- a change of one context leaves the others alone
    have hother {j : Fin ipReassCtxs} {c : ReassCtx} (hij : i ≠ j)
        (hctxs : (ipReassInput h.table now dev heap d).ctxs = Function.update h.table.ctxs j c) :
        (reassStep h.table (.frag now dev heap d)).ctxs i = h.table.ctxs i := by
      change (ipReassInput h.table now dev heap d).ctxs i = _
      rw [hctxs, Function.update_of_ne hij]
    have hcleared {j : Fin ipReassCtxs}
        (hctxs : (ipReassInput h.table now dev heap d).ctxs =
          Function.update h.table.ctxs j ReassCtx.zero) : i ≠ j := by
      rintro rfl
      apply hzero
      change (ipReassInput h.table now dev heap d).ctxs i = _
      rw [hctxs, Function.update_self]
    cases ipReassInput_input ok.table now dev heap d with
    | ignored _ hctxs => exact ok.untouched (congrFun hctxs i) hi
    | dropped _ _ _ hctxs => exact ok.untouched (hother (hcleared hctxs) hctxs) hi
    | completed _ _ _ _ hctxs => exact ok.untouched (hother (hcleared hctxs) hctxs) hi
    | @kept j c c' hgood hpick hadd hopen hctxs =>
      by_cases hij : i = j
      · subst hij
        have hc : (h.step (.frag now dev heap d)).table.ctxs i = c' := by
          change (ipReassInput h.table now dev heap d).ctxs i = c'
          rw [hctxs, Function.update_self]
        have hkey : c'.key = d.key := (ctxAdd_inUse hadd).2.trans hpick.inUse.2
        have hfind := (ok.table.step (.frag now dev heap d)).ctxFind_eq hi
          ((congrArg ReassCtx.key hc).trans hkey)
        have hsince : (h.step (.frag now dev heap d)).since d.key = h.since d.key ++ [d] := by
          refine (if_pos (Option.isSome_iff_exists.mpr ⟨i, hfind⟩)).trans ?_
          rw [ReassEvent.brings, if_pos rfl]
        obtain ⟨fs, hsub, hcol⟩ := ok.taken hgood hpick hadd
        rw [hc, hkey, hsince]
        exact ⟨fs, hsub, hcol⟩
      · exact ok.untouched (hother hij hctxs) hi

theorem Reach.ok (hr : Reach h) : h.Ok := by
  refine Run.Reach.invariant Ok ?_ (fun _ e _ ok => ok.step e) hr
  rintro _ ⟨stats, rfl⟩
  refine ⟨TableOk.init stats, ?_⟩
  intro i hi
  cases hi

end ReassHist

/-- In every run, an event hands up nothing or one datagram, put together from
fragments of one key received since the context of the key was made, the last
of them by this event. -/
theorem handed_up_is_reassembled {h : ReassHist} (hr : ReassHist.Reach h) (e : ReassEvent) :
    (h.step e).table.delivered = h.table.delivered ∨
      ∃ k dev hdr payload fs,
        (h.step e).table.delivered = h.table.delivered ++ [(dev, hdr ++ payload)] ∧
        ipKey (hdr ++ payload) = k ∧ fs.Sublist (h.since k ++ e.brings k) ∧
        Reassembled k fs hdr payload := by
  have ok := hr.ok
  cases e with
  | tick now => exact Or.inl (ipReassTick_ctxs h.table now).2
  | frag now dev heap d =>
    cases ipReassInput_input ok.table now dev heap d with
    | ignored _ _ hdel => exact Or.inl hdel
    | dropped _ _ _ _ hdel => exact Or.inl hdel
    | kept _ _ _ _ _ hdel => exact Or.inl hdel
    | @completed i c c' hgood hpick hadd hdone hctxs hdel =>
      have hkey : c'.key = d.key := (ctxAdd_inUse hadd).2.trans hpick.inUse.2
      obtain ⟨fs, hsub, hcol⟩ := ok.taken hgood hpick hadd
      obtain ⟨hdr, payload, hdata, hdkey, hre⟩ := hcol.reassembled hdone
      rw [hkey] at hre hdkey
      rw [hdata] at hdel hdkey
      refine Or.inr ⟨d.key, c'.dev, hdr, payload, fs, hdel, hdkey, ?_, hre⟩
      rw [ReassEvent.brings, if_pos rfl]
      exact hsub

/-! ### Datagrams for the runs below -/

/-- A header without options from 10.0.0.2 to 10.0.0.1, with the two bytes of
`frag_off`, and a payload. -/
def sampleBytes (hi lo : UInt8) (payload : List UInt8) : List UInt8 :=
  let hdr := [0x45, 0, 0, UInt8.ofNat (20 + payload.length), 0, 7, hi, lo, 64, 17, 0, 0,
    10, 0, 0, 2, 10, 0, 0, 1]
  putBe16 hdr 10 (inetCsum hdr) ++ payload

theorem sampleBytes_hdrLen (hi lo : UInt8) (payload : List UInt8) :
    ipHdrLen (sampleBytes hi lo payload) = 20 := by
  have hlen : 0 < [0x45, 0, 0, UInt8.ofNat (20 + payload.length), 0, 7, hi, lo, 64, 17, 0, 0,
      10, 0, 0, 2, 10, 0, 0, 1].length := Nat.succ_pos _
  rw [ipHdrLen, sampleBytes, getD_append_left ((putBe16_length _ _ _).symm ▸ hlen),
    getD_putBe16 (Nat.zero_ne_add_one 9) (Nat.zero_ne_add_one 10), List.getD_cons_zero]
  decide

theorem sampleBytes_length (hi lo : UInt8) (payload : List UInt8) :
    (sampleBytes hi lo payload).length = payload.length + 20 := by
  rw [sampleBytes, List.length_append, putBe16_length]
  exact Nat.add_comm _ _

/-- The header followed by eight bytes of payload. -/
def sampleFrag (hi lo : UInt8) (x : UInt8) : Datagram where
  bytes := sampleBytes hi lo (List.replicate 8 x)
  hdr_min := (sampleBytes_hdrLen hi lo _).ge
  hdr_le := by
    rw [sampleBytes_hdrLen, sampleBytes_length]
    exact Nat.le_add_left _ _
  len_lt := by
    rw [sampleBytes_length, List.length_replicate]
    exact Nat.lt_of_sub_ne_zero (Nat.succ_ne_zero _)

def sampleEvent (hi lo : UInt8) (x : UInt8) : ReassEvent :=
  .frag 0 none (fun _ => 0) (sampleFrag hi lo x)

/-- The second half first, then the first half. -/
def halfHist : ReassHist := ReassHist.step ⟨Reass.init Stats.zero, fun _ => []⟩ (sampleEvent 0 1 2)

theorem halfHist_hands_up : ∃ k dev hdr payload fs,
    (halfHist.step (sampleEvent 0x20 0 1)).table.delivered =
      halfHist.table.delivered ++ [(dev, hdr ++ payload)] ∧
    ipKey (hdr ++ payload) = k ∧
    fs.Sublist (halfHist.since k ++ (sampleEvent 0x20 0 1).brings k) ∧
    Reassembled k fs hdr payload := by
  have hreach : ReassHist.Reach halfHist := .next (.start ⟨_, rfl⟩) _ trivial
  refine (handed_up_is_reassembled hreach (sampleEvent 0x20 0 1)).resolve_left ?_
  decide +kernel

/-! ### Data past the declared end -/

/-- No data past the total is kept. -/
def ReassCtx.EndsByTotal (c : ReassCtx) : Prop :=
  ∀ total, c.expectedTotal = some total → ∀ x ∈ c.ranges, x.2 ≤ total

/-- No context in use keeps data past its total. -/
def Reass.EndsByTotal (r : Reass) : Prop := ∀ i, (r.ctxs i).inUse = true → (r.ctxs i).EndsByTotal

/-- A last fragment fits its context, but pins a total short of data that is
already there. -/
def PinsShort (r : Reass) : ReassEvent → Prop
  | .frag _ _ _ d => d.wellFormed = true ∧ d.mf = false ∧ d.stop ≤ ipReassMaxPayload ∧
      ∃ i, ctxFind r d.key = some i ∧ (r.ctxs i).expectedTotal = none ∧
        (∃ x ∈ (r.ctxs i).ranges, d.stop < x.2) ∧ (rangesInsert (r.ctxs i).ranges d.range).isSome
  | .tick _ => False

/-- The ranges of a context end by a bound when its bytes do. -/
theorem separated_ends_by {l : List (Nat × Nat)} (hl : Separated l) {t : Nat} :
    (∀ x ∈ l, x.2 ≤ t) ↔ ∀ a, Covers l a → a < t := by
  constructor
  · rintro h a ⟨x, hx, ha⟩
    exact ha.2.trans_le (h x hx)
  · intro h x hx
    have hpos := hl.pos x hx
    have hlast := h (x.2 - 1) ⟨x, hx, by constructor <;> omega⟩
    omega

variable {r : Reass}

/-- Taking a fragment keeps data past the total out, unless a last fragment
pins a total short of data that is there. -/
theorem endsByTotal_add {c : ReassCtx} {d : Datagram} {ranges : List (Nat × Nat)}
    (hd : d.range.1 < d.range.2) (hsep : Separated c.ranges) (hc : c.EndsByTotal)
    (htakes : CtxTakes c d ranges) : ((c.pin d).store d ranges).EndsByTotal ↔
      ¬ (d.mf = false ∧ c.expectedTotal = none ∧ ∃ x ∈ c.ranges, d.stop < x.2) := by
  obtain ⟨hsep', -, hcov⟩ := rangesInsert_some hd hsep htakes.inserted
  -- the ranges end by a bound when the old ones and the new one do
  have hends (t : Nat) : (∀ x ∈ ranges, x.2 ≤ t) ↔ (∀ x ∈ c.ranges, x.2 ≤ t) ∧ d.stop ≤ t := by
    rw [separated_ends_by hsep', separated_ends_by hsep]
    constructor
    · intro h
      refine ⟨fun a ha => h a ((hcov a).mpr (Or.inl ha)), ?_⟩
      have hlast := h (d.stop - 1) ((hcov _).mpr (Or.inr (by
        change d.off ≤ d.stop - 1 ∧ d.stop - 1 < d.stop
        change d.off < d.stop at hd
        omega)))
      omega
    · rintro ⟨hold, hnew⟩ a ha
      rcases (hcov a).mp ha with ha | ha
      · exact hold a ha
      · exact ha.2.trans_le hnew
  change (∀ total, (c.pin d).expectedTotal = some total → ∀ x ∈ ranges, x.2 ≤ total) ↔ _
  simp only [hends]
  unfold ReassCtx.pin
  cases hmf : d.mf with
  | true =>
    rw [if_pos rfl]
    refine iff_of_true ?_ (fun h => by cases h.1)
    intro total htotal
    exact ⟨hc total htotal, htakes.within hmf total htotal⟩
  | false =>
    rw [if_neg (Bool.false_ne_true)]
    simp only [Option.some.injEq, forall_eq', le_refl, and_true, true_and, not_and, not_exists,
      not_lt]
    constructor
    · intro h _ x hx
      exact h x hx
    · intro h x hx
      cases htotal : c.expectedTotal with
      | none => exact h htotal x hx
      | some total => exact htakes.agrees hmf total htotal ▸ hc total htotal x hx

/-- A complete context keeps no data past its total. -/
theorem ReassCtx.EndsByTotal.of_complete {c : ReassCtx} (h : c.complete = true) :
    c.EndsByTotal := by
  obtain ⟨-, total, htotal, hranges⟩ := ReassCtx.complete_iff.mp h
  intro t ht x hx
  rw [htotal] at ht
  cases ht
  rw [hranges] at hx
  rw [List.mem_singleton.mp hx]

theorem endsByTotal_step (ok : TableOk r) (hr : Gathered r) (hends : r.EndsByTotal)
    (e : ReassEvent) : (reassStep r e).EndsByTotal ↔ ¬ PinsShort r e := by
  constructor
  · -- a total pinned short stays in the table
    intro hafter hpins
    cases e with
    | tick now => exact hpins
    | frag now dev heap d =>
      obtain ⟨hgood, hmf, hfits, i, hfind, hnone, hpast, hins⟩ := hpins
      obtain ⟨ranges, hins⟩ := Option.isSome_iff_exists.mp hins
      have hi := (ctxFind_some hfind).1
      have htakes : CtxTakes (r.ctxs i) d ranges := by
        refine ⟨hfits, ?_, ?_, hins⟩ <;>
        · intro _ total htotal
          rw [hnone] at htotal
          cases htotal
      have hshort : ¬ (((r.ctxs i).pin d).store d ranges).EndsByTotal := by
        rw [endsByTotal_add (Datagram.wellFormed_pos hgood) (hr.separated i hi) (hends i hi) htakes]
        exact not_not.mpr ⟨hmf, hnone, hpast⟩
      have hadd := ctxAdd_ok.mpr ⟨ranges, htakes, rfl⟩
      have hpicked {j : Fin ipReassCtxs} {c : ReassCtx} (hp : Picks r now dev heap d.key j c) :
          j = i ∧ c = r.ctxs i := by
        cases hp with
        | found hf =>
          rw [hfind] at hf
          cases hf
          exact ⟨rfl, rfl⟩
        | free hf =>
          rw [hfind] at hf
          cases hf
        | evicted hf =>
          rw [hfind] at hf
          cases hf
      cases ipReassInput_input ok now dev heap d with
      | ignored hbad =>
        rw [hgood] at hbad
        cases hbad
      | dropped _ hp herr =>
        obtain ⟨rfl, rfl⟩ := hpicked hp
        rw [hadd] at herr
        cases herr
      | completed _ hp hok hdone =>
        obtain ⟨rfl, rfl⟩ := hpicked hp
        rw [hadd] at hok
        cases hok
        exact hshort (.of_complete hdone)
      | @kept j _ _ _ hp hok _ hctxs =>
        obtain ⟨rfl, rfl⟩ := hpicked hp
        rw [hadd] at hok
        cases hok
        have hat := hafter j
        change ((ipReassInput r now dev heap d).ctxs j).inUse = true →
          ((ipReassInput r now dev heap d).ctxs j).EndsByTotal at hat
        rw [hctxs, Function.update_self] at hat
        exact hshort (hat ((ctxAdd_inUse hadd).1.trans hi))
  · intro hpins
    refine contexts_step ok e hends ?_
    rintro now dev heap d i c c' rfl hgood hpick hadd _
    obtain ⟨ranges, htakes, rfl⟩ := ctxAdd_ok.mp hadd
    have hc : c.EndsByTotal := by
      cases hpick with
      | found hf => exact hends _ (ctxFind_some hf).1
      | free =>
        intro total htotal
        cases htotal
      | evicted =>
        intro total htotal
        cases htotal
    obtain ⟨fs, hcol⟩ := hr.picked hpick
    rw [endsByTotal_add (Datagram.wellFormed_pos hgood) hcol.separated hc htakes]
    rintro ⟨hmf, hnone, hpast⟩
    cases hpick with
    | found hf =>
      exact hpins ⟨hgood, hmf, htakes.fits, i, hf, hnone, hpast,
        Option.isSome_iff_exists.mpr ⟨ranges, htakes.inserted⟩⟩
    | free =>
      obtain ⟨x, hx, -⟩ := hpast
      cases hx
    | evicted =>
      obtain ⟨x, hx, -⟩ := hpast
      cases hx

/-- In every run in which no last fragment pins a total short of data already
there, no context ever keeps data past its total, and the next event leads to
one that does exactly if it is such a fragment. -/
theorem kept_data_ends_by_total {r : Reass} (h : Reass.Reach (fun r e => ¬ PinsShort r e) r) :
    r.EndsByTotal ∧ ∀ e, (reassStep r e).EndsByTotal ↔ ¬ PinsShort r e := by
  have hends : r.EndsByTotal := by
    induction h with
    | start h =>
      obtain ⟨stats, rfl⟩ := h
      intro i hi
      cases hi
    | next h e he ih =>
      obtain ⟨ok, hr⟩ := Reass.Reach.sound h
      exact (endsByTotal_step ok hr ih e).mpr he
  obtain ⟨ok, hr⟩ := Reass.Reach.sound h
  exact ⟨hends, endsByTotal_step ok hr hends⟩

theorem ctxFind_init (stats : Stats) (k : ReassKey) : ctxFind (Reass.init stats) k = none := by
  cases h : ctxFind (Reass.init stats) k with
  | none => rfl
  | some i => cases (ctxFind_some h).1

theorem kept_data_ends_by_total_last_alone :
    (reassStep (Reass.init Stats.zero) (sampleEvent 0 1 2)).EndsByTotal ∧
      ((reassStep (Reass.init Stats.zero) (sampleEvent 0 1 2)).ctxs 0).expectedTotal = some 16 := by
  refine ⟨(kept_data_ends_by_total (.next (.start ⟨Stats.zero, rfl⟩) _ ?_)).1, by decide +kernel⟩
  rintro ⟨-, -, -, i, hfind, -⟩
  rw [ctxFind_init] at hfind
  cases hfind

/-- Bytes 24 to 32 of a datagram, and then a last fragment that ends at 16. -/
def excessFirst : Reass :=
  [sampleEvent 0x20 3 1, sampleEvent 0 1 2].foldl reassStep (Reass.init Stats.zero)

/-- The same fragments the other way round. -/
def excessSecond : Reass :=
  [sampleEvent 0 1 2, sampleEvent 0x20 3 1].foldl reassStep (Reass.init Stats.zero)

theorem excessFirst_total : (excessFirst.ctxs 0).inUse = true ∧
    (excessFirst.ctxs 0).expectedTotal = some 16 ∧ (8, 16) ∈ (excessFirst.ctxs 0).ranges ∧
    (24, 32) ∈ (excessFirst.ctxs 0).ranges := by
  decide +kernel

/-- The excess is kept where it comes before the last fragment, while it takes
the context down where it comes after. -/
theorem excess_kept_before_last_fragment : Reass.Reach (fun _ _ => True) excessFirst ∧
    ¬ excessFirst.EndsByTotal ∧ ∀ i, (excessSecond.ctxs i).inUse = false := by
  refine ⟨Run.Reach.foldl (.start ⟨Stats.zero, rfl⟩) [sampleEvent 0x20 3 1, sampleEvent 0 1 2]
    ⟨trivial, trivial, trivial⟩, ?_, by decide +kernel⟩
  obtain ⟨huse, htotal, -, hmem⟩ := excessFirst_total
  intro h
  exact absurd (h 0 huse 16 htotal (24, 32) hmem) (by decide)

end PacketForge
