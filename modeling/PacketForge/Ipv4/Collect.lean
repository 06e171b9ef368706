import PacketForge.Ipv4.Reass

/-!
What a reassembly context stands for: the fragments it has taken. They are
disjoint, the recorded ranges cover exactly their bytes, the buffer holds these
bytes, and the total and the header come from the one fragment that is last and
the one that is first. Taking a fragment adds it to the collection.
-/

namespace PacketForge

open Intervals

/-! ### Fragments -/

namespace Datagram

variable {d : Datagram}

theorem wellFormed_pos (h : d.wellFormed = true) : d.range.1 < d.range.2 := by
  have hlen : d.paylen ≠ 0 := (of_decide_eq_true h).1
  change d.off < d.off + d.paylen
  omega

theorem hdr_length (d : Datagram) : d.hdr.length = d.hdrLen := by
  have hle : d.hdrLen ≤ d.bytes.length := d.hdr_le
  rw [hdr, List.length_take]
  exact Nat.min_eq_left hle

end Datagram

theorem ipHdrLen_le (l : List UInt8) : ipHdrLen l ≤ 60 := by
  have hmask : (l.getD 0 0 &&& 0x0f).toNat ≤ 15 := by
    rw [UInt8.toNat_and]
    exact Nat.and_le_right
  unfold ipHdrLen
  rw [UInt8.toNat_mul]
  change _ * 4 % 2 ^ 8 ≤ 60
  omega

/-! ### Inserting a range -/

theorem rangesInsert_some {ranges ranges' : List (Nat × Nat)} {x : Nat × Nat} (hx : x.1 < x.2)
    (hsep : Separated ranges) (h : rangesInsert ranges x = some ranges') :
    Separated ranges' ∧ (∀ r ∈ ranges, Avoids x r) ∧
      ∀ a, Covers ranges' a ↔ Covers ranges a ∨ Holds x a := by
  unfold rangesInsert at h
  split at h
  · cases h
  · rename_i l hl
    split at h
    · cases h
    · cases h
      obtain ⟨hapart, hdisj, hcov, -⟩ := insertApart_some hx hsep.apart hl
      obtain ⟨hsep', hcov', -⟩ := coalesce_spec hapart
      exact ⟨hsep', hdisj, fun a => (hcov' a).trans (hcov a)⟩

theorem rangesInsert_isSome {ranges : List (Nat × Nat)} {x : Nat × Nat}
    (hlen : ranges.length < ipReassMaxRanges) (hdisj : ∀ r ∈ ranges, Avoids x r) :
    ∃ ranges', rangesInsert ranges x = some ranges' := by
  obtain ⟨l, hl⟩ := Option.isSome_iff_exists.mp (insertApart_isSome hdisj)
  refine ⟨coalesce l, ?_⟩
  rw [rangesInsert, hl]
  exact if_neg (Nat.not_le.mpr hlen)

/-! ### Taking a fragment -/

/-- What it means that a context takes a fragment. -/
structure CtxTakes (c : ReassCtx) (d : Datagram) (ranges : List (Nat × Nat)) : Prop where
  fits : d.stop ≤ ipReassMaxPayload
  agrees : d.mf = false → ∀ total, c.expectedTotal = some total → total = d.stop
  within : d.mf = true → ∀ total, c.expectedTotal = some total → d.stop ≤ total
  inserted : rangesInsert c.ranges d.range = some ranges

theorem ctxAdd_ok {c c' : ReassCtx} {d : Datagram} :
    ctxAdd c d = .ok c' ↔ ∃ ranges, CtxTakes c d ranges ∧ c' = (c.pin d).store d ranges := by
  constructor
  · intro h
    unfold ctxAdd at h
    split at h
    · cases h
    rename_i hfits
    split at h
    · cases h
    rename_i hagrees
    split at h
    · cases h
    rename_i hwithin
    split at h
    · cases h
    rename_i ranges hins
    cases h
    refine ⟨ranges, ⟨Nat.not_lt.mp hfits, ?_, ?_, hins⟩, rfl⟩
    · intro hmf total htotal
      by_contra hne
      exact hagrees ⟨by rw [hmf]; rfl, by rw [htotal]; exact decide_eq_true hne⟩
    · intro hmf total htotal
      have hpin : c.pin d = c := if_pos hmf
      rw [hpin, htotal] at hwithin
      exact Nat.not_lt.mp (fun hlt => hwithin (decide_eq_true hlt))
  · rintro ⟨ranges, htakes, rfl⟩
    unfold ctxAdd
    rw [if_neg (Nat.not_lt.mpr htakes.fits)]
    rw [if_neg, if_neg, htakes.inserted]
    · unfold ReassCtx.pin
      cases hmf : d.mf with
      | false => simp
      | true =>
        cases htotal : c.expectedTotal with
        | none => simp [htotal]
        | some total =>
          have hin := htakes.within hmf total htotal
          simpa [htotal] using hin
    · rintro ⟨hmf, hany⟩
      cases htotal : c.expectedTotal with
      | none => simp [htotal] at hany
      | some total =>
        have hsame := htakes.agrees (by simpa using hmf) total htotal
        simp [htotal, hsame] at hany

/-! ### Collections -/

/-- The context holds exactly the fragments of the list. -/
structure Collects (fs : List Datagram) (c : ReassCtx) : Prop where
  key : ∀ f ∈ fs, f.key = c.key
  pos : ∀ f ∈ fs, f.range.1 < f.range.2
  fits : ∀ f ∈ fs, f.stop ≤ ipReassMaxPayload
  disjoint : fs.Pairwise fun f g => Avoids f.range g.range
  separated : Separated c.ranges
  covers : ∀ x, Covers c.ranges x ↔ Covers (fs.map (·.range)) x
  bytes : ∀ f ∈ fs, ∀ x, Holds f.range x → c.payload x = f.payload.getD (x - f.off) 0
  last : (fs.filter (!·.mf)).map (·.stop) = c.expectedTotal.toList
  first : (fs.filter (·.off = 0)).map (·.hdr) = if c.haveFirst then [c.hdr] else []

namespace Collects

variable {fs : List Datagram} {c : ReassCtx} {d : Datagram} {ranges : List (Nat × Nat)}

theorem empty (hranges : c.ranges = []) (htotal : c.expectedTotal = none)
    (hfirst : c.haveFirst = false) : Collects [] c where
  key := by simp
  pos := by simp
  fits := by simp
  disjoint := List.Pairwise.nil
  separated := by
    rw [hranges]
    exact ⟨by simp, List.Pairwise.nil⟩
  covers := by simp [hranges, Covers]
  bytes := by simp
  last := by simp [htotal]
  first := by simp [hfirst]

theorem apart (h : Collects fs c) (hd : d.range.1 < d.range.2)
    (hdisj : ∀ r ∈ c.ranges, Avoids d.range r) : ∀ f ∈ fs, Avoids f.range d.range := by
  intro f hf
  apply avoids_of_holds (h.pos f hf) hd
  intro x hfx hdx
  obtain ⟨r, hr, hrx⟩ := (h.covers x).mpr ⟨f.range, List.mem_map_of_mem hf, hfx⟩
  exact (hdisj r hr).not_holds hdx hrx

/-- Fragments that are disjoint are not both first. -/
theorem first_unique (h : Collects fs c) (hd : d.range.1 < d.range.2) (hoff : d.off = 0)
    (hdisj : ∀ f ∈ fs, Avoids f.range d.range) : fs.filter (·.off = 0) = [] := by
  rw [List.filter_eq_nil_iff]
  intro f hf hzero
  have hpos := h.pos f hf
  have hf0 : f.range.1 = 0 := of_decide_eq_true hzero
  have hd0 : d.range.1 = 0 := hoff
  rcases hdisj f hf with hlt | hlt
  · omega
  · omega

/-- A fragment that ends where another ends meets it. -/
theorem last_unique (h : Collects fs c) (hd : d.range.1 < d.range.2) (hmf : d.mf = false)
    (htakes : CtxTakes c d ranges) (hdisj : ∀ f ∈ fs, Avoids f.range d.range) :
    fs.filter (!·.mf) = [] := by
  by_contra hne
  obtain ⟨f, hf⟩ := List.exists_mem_of_ne_nil _ hne
  have hstop : f.stop ∈ c.expectedTotal.toList := by
    rw [← h.last]
    exact List.mem_map_of_mem hf
  have heq : f.range.2 = d.range.2 := htakes.agrees hmf _ (Option.mem_toList.mp hstop)
  have hmem := (List.mem_filter.mp hf).1
  have hpos := h.pos f hmem
  rcases hdisj f hmem with hlt | hlt
  · omega
  · omega

theorem add (h : Collects fs c) (hkey : d.key = c.key) (hd : d.range.1 < d.range.2)
    (htakes : CtxTakes c d ranges) : Collects (fs ++ [d]) ((c.pin d).store d ranges) := by
  obtain ⟨hsep, hdisj, hcov⟩ := rangesInsert_some hd h.separated htakes.inserted
  have hfs := h.apart hd hdisj
  have hpinkey : (c.pin d).key = c.key := by
    unfold ReassCtx.pin
    split <;> rfl
  have hpinpay : (c.pin d).payload = c.payload := by
    unfold ReassCtx.pin
    split <;> rfl
  have hpinfirst : (c.pin d).haveFirst = c.haveFirst ∧ (c.pin d).hdr = c.hdr := by
    unfold ReassCtx.pin
    split <;> exact ⟨rfl, rfl⟩
  have hall {P : Datagram → Prop} (hold : ∀ f ∈ fs, P f) (hnew : P d) : ∀ f ∈ fs ++ [d], P f := by
    intro f hf
    rcases List.mem_append.mp hf with hf | hf
    · exact hold f hf
    · rw [List.mem_singleton.mp hf]
      exact hnew
  refine ⟨?_, hall h.pos hd, hall h.fits htakes.fits, ?_, hsep, ?_, ?_, ?_, ?_⟩
  · change ∀ f ∈ fs ++ [d], f.key = (c.pin d).key
    rw [hpinkey]
    exact hall h.key hkey
  · rw [List.pairwise_append]
    refine ⟨h.disjoint, List.pairwise_singleton _ _, ?_⟩
    intro f hf g hg
    rw [List.mem_singleton.mp hg]
    exact hfs f hf
  · intro x
    change Covers ranges x ↔ _
    rw [hcov, h.covers, List.map_append]
    simp only [Covers, List.mem_append, or_and_right, exists_or, List.map_singleton,
      List.mem_singleton, exists_eq_left]
  · change ∀ f ∈ fs ++ [d], ∀ x, Holds f.range x → copyPayload (c.pin d).payload d x = _
    rw [hpinpay]
    refine hall ?_ ?_
    · intro f hf x hx
      have hout : ¬ (d.off ≤ x ∧ x < d.stop) := (hfs f hf).not_holds hx
      rw [copyPayload, if_neg hout]
      exact h.bytes f hf x hx
    · intro x hx
      exact if_pos hx
  · rw [List.filter_append, List.map_append]
    change _ = (c.pin d).expectedTotal.toList
    unfold ReassCtx.pin
    cases hmf : d.mf with
    | true => simpa [hmf] using h.last
    | false =>
      rw [h.last_unique hd hmf htakes hfs]
      simp [hmf]
  · rw [List.filter_append, List.map_append]
    change _ = if (c.pin d).haveFirst || d.off = 0 then [if d.off = 0 then d.hdr else (c.pin d).hdr]
      else []
    rw [hpinfirst.1, hpinfirst.2]
    by_cases hoff : d.off = 0
    · rw [h.first_unique hd hoff hfs]
      simp [hoff]
    · simpa [hoff] using h.first

end Collects

end PacketForge
