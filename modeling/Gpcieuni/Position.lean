-- SUMMARY: File positions: how a BAR and an offset are put into a position and taken out of it, how a transfer moves it, and what a transfer returns at the end of a BAR.
import Gpcieuni.TransferSpec

/-!
# File positions

User space adds an offset to an entry of `PCIEUNI_BAR_OFFSETS`; the check takes
the sum apart again with an arithmetic shift and a mask. The VFS admits no
negative position, and the sign bit is the one bit that neither half looks at.
-/

namespace Gpcieuni

/-! ## Taking a position apart -/

/-- The BAR number that the check reads off a position. -/
def positionBar (virtualOffset : BitVec 64) : BitVec 32 :=
  (virtualOffset.sshiftRight 60 &&& 7#64).setWidth 32

/-- The offset that the check reads off a position. -/
def positionOffset (virtualOffset : BitVec 64) : BitVec 64 := virtualOffset &&& 0x0FFFFFFFFFFFFFFF#64

/-- The check uses a position only through these two and the alignment. -/
theorem check_eq (dv : PcieuniDev) (count virtualOffset : BitVec 64) :
    checkAndCalculateTransferInformation dv count virtualOffset =
      if dv.devSts = 0 then .inl (-efault)
      else if virtualOffset.srem 4 ≠ 0 then .inl (-efault)
      else if count % 4 ≠ 0 then .inl (-efault)
      else if hbar : (positionBar virtualOffset).toNat < 6 then
        match (barStartAndSize (dv.bar ⟨_, hbar⟩)).1 with
        | none => .inl (-efault)
        | some barStart =>
          let barSizeInBytes := (barStartAndSize (dv.bar ⟨_, hbar⟩)).2
          let offset := positionOffset virtualOffset
          if barSizeInBytes < offset then .inl (-efault)
          else
            .inr
              { bar := positionBar virtualOffset, offset, barSizeInBytes, barStart
                barEnd := barSizeInBytes / 4
                nBytesToTransfer :=
                  if barSizeInBytes < offset + count then (barSizeInBytes - offset).setWidth 32
                  else count.setWidth 32 }
      else .inl (-efault) := rfl

theorem positionBar_toNat (v : BitVec 64) : (positionBar v).toNat = v.toNat / 2 ^ 60 % 8 :=
  barNumber_toNat v

theorem positionOffset_toNat (v : BitVec 64) : (positionOffset v).toNat = v.toNat % 2 ^ 60 :=
  Word.and_low60_toNat v

/-- What an accepted request has read off its position. -/
theorem check_position {dv : PcieuniDev} {count pos : BitVec 64} {ti : TransferInformation}
    (h : checkAndCalculateTransferInformation dv count pos = .inr ti) :
    ti.bar = positionBar pos ∧ ti.offset = positionOffset pos ∧ ti.bar.toNat < 6 ∧
      ti.offset.toNat < 2 ^ 32 := by
  obtain ⟨n, hacc⟩ := check_inr h
  have hoffset : ti.offset = positionOffset pos := by
    apply BitVec.eq_of_toNat_eq
    rw [hacc.offset, positionOffset_toNat]
  have hbar : ti.bar = positionBar pos := by
    simp only [check_eq] at h
    repeat' split at h
    all_goals cases h
    all_goals rfl
  refine ⟨hbar, hoffset, ?_, ?_⟩
  · rw [hbar, positionBar_toNat, ← hacc.bar]
    exact n.isLt
  · have hle := hacc.offset_le
    rw [hacc.size] at hle
    exact lt_of_le_of_lt hle (BitVec.isLt _)

/-! ## The encoding and its inverse -/

/-- The check finds the BAR and the offset that user space put in. -/
theorem position_decode (n : Fin 6) {o : BitVec 64} (ho : o.toNat < 2 ^ 60) :
    positionBar (pcieuniBarOffsets n + o) = BitVec.ofNat 32 n ∧
      positionOffset (pcieuniBarOffsets n + o) = o := by
  have hn := n.isLt
  have hpos : (pcieuniBarOffsets n + o).toNat = n * 2 ^ 60 + o.toNat := by
    have hnat := position_toNat n ho
    rwa [BitVec.ofNat_toNat, BitVec.setWidth_eq] at hnat
  constructor
  · apply BitVec.eq_of_toNat_eq
    rw [positionBar_toNat, hpos, BitVec.toNat_ofNat]
    omega
  · apply BitVec.eq_of_toNat_eq
    rw [positionOffset_toNat, hpos]
    omega

/-- A position that is not negative is what user space builds from the BAR and
the offset that are read off it. -/
theorem position_encode {pos : BitVec 64} {n : Fin 6} (hpos : 0 ≤ pos.toInt)
    (hn : positionBar pos = BitVec.ofNat 32 n) : pos = pcieuniBarOffsets n + positionOffset pos := by
  have hlt : pos.toNat < 2 ^ 63 := by
    rw [BitVec.toInt_eq_toNat_cond] at hpos
    have := pos.isLt
    split at hpos <;> omega
  have hbar : pos.toNat / 2 ^ 60 % 8 = n := by
    have hnat := congrArg BitVec.toNat hn
    rw [positionBar_toNat, BitVec.toNat_ofNat] at hnat
    omega
  have hoff := positionOffset_toNat pos
  have hsum := position_toNat n (o := (positionOffset pos).toNat) (by omega)
  rw [BitVec.ofNat_toNat, BitVec.setWidth_eq] at hsum
  apply BitVec.eq_of_toNat_eq
  rw [hsum]
  omega

/-! ## Moving a position -/

/-- A transfer of fewer than `2 ^ 32` bytes does not carry into the BAR bits: the
offset of an accepted request lies below `2 ^ 32` as well. -/
theorem positionBar_advance {dv : PcieuniDev} {count pos : BitVec 64} {ti : TransferInformation}
    (h : checkAndCalculateTransferInformation dv count pos = .inr ti) (k : BitVec 32) :
    positionBar (pos + k.setWidth 64) = ti.bar := by
  obtain ⟨hbar, hoffset, -, hsmall⟩ := check_position h
  have hk := k.isLt
  have hpos := pos.isLt
  rw [hoffset, positionOffset_toNat] at hsmall
  have hadd : (pos + k.setWidth 64).toNat = (pos.toNat + k.toNat) % 2 ^ 64 := by
    rw [BitVec.toNat_add, BitVec.toNat_setWidth_of_le (by decide)]
  rw [hbar]
  apply BitVec.eq_of_toNat_eq
  rw [positionBar_toNat, positionBar_toNat, hadd]
  omega

theorem positionBar_read {env : ReadEnv} {regs : Regs} {dv dv' : PcieuniDev} {buf : UserMem}
    {count pos : BitVec 64} {ti : TransferInformation} {r : ReadRet}
    (hcheck : checkAndCalculateTransferInformation dv count pos = .inr ti)
    (h : pcieuniReadNoStructExp env regs dv buf count pos = .ok (dv', r)) :
    positionBar r.fPos = ti.bar := by
  unfold pcieuniReadNoStructExp at h
  simp only [hcheck] at h
  split at h
  · cases h
    exact (check_position hcheck).1.symm
  · cases h
  · split at h
    · cases h
    · cases h
      exact positionBar_advance hcheck _

theorem positionBar_write {env : WriteEnv} {regs : Regs} {dv dv' : PcieuniDev} {buf : UserMem}
    {count pos : BitVec 64} {ti : TransferInformation} {r : WriteRet}
    (hcheck : checkAndCalculateTransferInformation dv count pos = .inr ti)
    (h : pcieuniWriteNoStructExp env regs dv buf count pos = .ok (dv', r)) :
    positionBar r.fPos = ti.bar := by
  unfold pcieuniWriteNoStructExp at h
  simp only [hcheck] at h
  split at h
  · cases h
    exact (check_position hcheck).1.symm
  · cases h
  · split at h
    · cases h
    · cases h
      exact positionBar_advance hcheck _

/-- A request at an offset of a mapped BAR is accepted as one for that BAR and that
offset. -/
theorem check_encoded {dv : PcieuniDev} {count : BitVec 64} {n : Fin 6} {m : Iomem} {o : BitVec 64}
    (hsts : dv.devSts ≠ 0) (hm : (dv.bar n).memmoryBase = some m) (ho : o.toNat % 4 = 0)
    (hoL : o.toNat < (dv.bar n).length) (hcount : count.toNat % 4 = 0) :
    ∃ ti, checkAndCalculateTransferInformation dv count (pcieuniBarOffsets n + o) = .inr ti ∧
      ti.bar = BitVec.ofNat 32 n ∧ ti.offset = o := by
  have hL : (dv.bar n).length ≤ 2 ^ 32 := ((dv.bar n).memBaseEnd - (dv.bar n).memBase).isLt
  have hreq := (addresses_of_offset hsts hm ho hoL hcount).1
  rw [BitVec.ofNat_toNat, BitVec.setWidth_eq] at hreq
  obtain ⟨ti, hcheck, -⟩ := hreq.check
  obtain ⟨hbar, hoffset, -, -⟩ := check_position hcheck
  obtain ⟨hn, hback⟩ := position_decode n (o := o) (by omega)
  exact ⟨ti, hcheck, hbar.trans hn, hoffset.trans hback⟩

/-- Encoding and decoding of positions are inverse to each other, an offset of a
mapped BAR is accepted, an accepted position is the only one for its register, and
no transfer moves a position to another BAR. -/
theorem position_roundTrip :
    (∀ (n : Fin 6) (o : BitVec 64), o.toNat < 2 ^ 60 →
      positionBar (pcieuniBarOffsets n + o) = BitVec.ofNat 32 n ∧
        positionOffset (pcieuniBarOffsets n + o) = o) ∧
    (∀ (dv : PcieuniDev) (count : BitVec 64) (n : Fin 6) (m : Iomem) (o : BitVec 64),
      dv.devSts ≠ 0 → (dv.bar n).memmoryBase = some m → o.toNat % 4 = 0 →
      o.toNat < (dv.bar n).length → count.toNat % 4 = 0 →
      ∃ ti, checkAndCalculateTransferInformation dv count (pcieuniBarOffsets n + o) = .inr ti ∧
        ti.bar = BitVec.ofNat 32 n ∧ ti.offset = o) ∧
    (∀ dv count pos ti, checkAndCalculateTransferInformation dv count pos = .inr ti →
      ti.bar = positionBar pos ∧ ti.offset = positionOffset pos ∧
        (0 ≤ pos.toInt →
          ∃ n : Fin 6, ti.bar = BitVec.ofNat 32 n ∧ pos = pcieuniBarOffsets n + ti.offset)) ∧
    (∀ dv count count' pos pos' ti ti',
      checkAndCalculateTransferInformation dv count pos = .inr ti →
      checkAndCalculateTransferInformation dv count' pos' = .inr ti' →
      0 ≤ pos.toInt → 0 ≤ pos'.toInt → ti.bar = ti'.bar → ti.offset = ti'.offset → pos = pos') ∧
    (∀ env regs dv dv' buf count pos ti r,
      checkAndCalculateTransferInformation dv count pos = .inr ti →
      pcieuniReadNoStructExp env regs dv buf count pos = .ok (dv', r) →
      positionBar r.fPos = ti.bar) ∧
    (∀ env regs dv dv' buf count pos ti r,
      checkAndCalculateTransferInformation dv count pos = .inr ti →
      pcieuniWriteNoStructExp env regs dv buf count pos = .ok (dv', r) →
      positionBar r.fPos = ti.bar) := by
  have hencode : ∀ dv count pos ti, checkAndCalculateTransferInformation dv count pos = .inr ti →
      0 ≤ pos.toInt →
      ∃ n : Fin 6, ti.bar = BitVec.ofNat 32 n ∧ pos = pcieuniBarOffsets n + ti.offset := by
    intro dv count pos ti hcheck hpos
    obtain ⟨hbar, hoffset, hlt, -⟩ := check_position hcheck
    have hn : ti.bar = BitVec.ofNat 32 (⟨ti.bar.toNat, hlt⟩ : Fin 6) := by simp
    refine ⟨⟨ti.bar.toNat, hlt⟩, hn, ?_⟩
    rw [hoffset]
    exact position_encode hpos (hbar.symm.trans hn)
  refine ⟨fun n o => position_decode n, fun dv count n m o => check_encoded, ?_, ?_, ?_, ?_⟩
  · intro dv count pos ti hcheck
    obtain ⟨hbar, hoffset, -, -⟩ := check_position hcheck
    exact ⟨hbar, hoffset, hencode dv count pos ti hcheck⟩
  · intro dv count count' pos pos' ti ti' hcheck hcheck' hpos hpos' hbar hoffset
    obtain ⟨n, hn, hsum⟩ := hencode dv count pos ti hcheck hpos
    obtain ⟨n', hn', hsum'⟩ := hencode dv count' pos' ti' hcheck' hpos'
    have hnat := congrArg BitVec.toNat (hn.symm.trans (hbar.trans hn'))
    rw [BitVec.toNat_ofNat, BitVec.toNat_ofNat] at hnat
    have hnn : n = n' := by
      apply Fin.ext
      have := n.isLt
      have := n'.isLt
      omega
    rw [hsum, hsum', hnn, hoffset]
  · intro env regs dv dv' buf count pos ti r hcheck h
    exact positionBar_read hcheck h
  · intro env regs dv dv' buf count pos ti r hcheck h
    exact positionBar_write hcheck h

/-- A bound device with one BAR, BAR 5, of four kilobytes. -/
private def bar5Dev : PcieuniDev :=
  { devSts := 1
    bar := fun n =>
      if n = 5 then
        { memBase := 0x1000, memBaseEnd := 0x1fff, memmoryBase := some ⟨7, 5, 0⟩ }
      else {} }

/-- The last word of BAR 5, the request for it, and the position after a read of it. -/
theorem position_roundTrip_lastWord :
    positionBar (pcieuniBarOffsets 5 + 0xffc) = 5 ∧
      positionOffset (pcieuniBarOffsets 5 + 0xffc) = 0xffc ∧
      (∃ ti, checkAndCalculateTransferInformation bar5Dev 8 (pcieuniBarOffsets 5 + 0xffc) =
        .inr ti ∧ ti.bar = 5 ∧ ti.offset = 0xffc) ∧
      ∃ r, pcieuniReadNoStructExp { fuel := 2 } (fun _ _ _ => 0) bar5Dev (fun _ => 0) 8
        (pcieuniBarOffsets 5 + 0xffc) = .ok (bar5Dev, r) ∧ positionBar r.fPos = 5 :=
  ⟨(position_roundTrip.1 5 0xffc (by decide)).1, (position_roundTrip.1 5 0xffc (by decide)).2,
    position_roundTrip.2.1 bar5Dev 8 5 ⟨7, 5, 0⟩ 0xffc (by decide) rfl (by decide) (by decide)
      (by decide),
    _, rfl, position_roundTrip.2.2.2.2.1 { fuel := 2 } (fun _ _ _ => 0) bar5Dev bar5Dev (fun _ => 0) 8
      (pcieuniBarOffsets 5 + 0xffc) _ _ rfl rfl⟩

/-! ## The end of a BAR -/

/-- What a caller that reads or writes until it gets zero relies on: zero is
returned at the end of the BAR and nowhere before it. -/
def ZeroMeansEnd (ret : Int) (o L : Nat) : Prop :=
  (ret = 0 ↔ o = L) ∧ (o < L → 0 < ret ∨ ret < 0)

/-- At the end of a BAR a request fails: the size that the check compares with is
one less than the length. -/
theorem check_end (dv : PcieuniDev) (count : BitVec 64) (n : Fin 6) :
    checkAndCalculateTransferInformation dv count
      (pcieuniBarOffsets n + BitVec.ofNat 64 (dv.bar n).length) = .inl (-efault) := by
  cases hcheck : checkAndCalculateTransferInformation dv count
      (pcieuniBarOffsets n + BitVec.ofNat 64 (dv.bar n).length) with
  | inl err => rw [check_inl hcheck]
  | inr ti =>
      obtain ⟨n', hacc⟩ := check_inr hcheck
      have hL : (dv.bar n).length ≤ 2 ^ 32 := ((dv.bar n).memBaseEnd - (dv.bar n).memBase).isLt
      have hpos := position_toNat n (o := (dv.bar n).length) (by omega)
      have hn := n.isLt
      have hn' : n' = n := Fin.ext (by have := hacc.bar; omega)
      subst hn'
      have hle := hacc.offset_le
      rw [hacc.offset, hacc.size] at hle
      have hlen : (dv.bar n').length = ((dv.bar n').memBaseEnd - (dv.bar n').memBase).toNat + 1 :=
        rfl
      omega

/-- A value that is four times the number of words moved before the end or the
first fault. -/
theorem zeroMeansEnd_words {fault : Nat → Prop} {o L W k : Nat} (hoL : o < L) (hW : 0 < W)
    (h : StopsAt fault 0 W k) : ZeroMeansEnd (4 * k) o L ↔ ¬ fault 0 := by
  constructor
  · rintro ⟨hzero, -⟩ hfault
    have hk : k = 0 := by
      by_contra hne
      exact h.before 0 (le_refl 0) (by omega) hfault
    have := hzero.mp (by omega)
    omega
  · intro hfault
    have hk : k ≠ 0 := by
      rintro rfl
      exact hfault (h.atFault hW)
    exact ⟨⟨fun hzero => by omega, fun hend => by omega⟩, fun _ => .inl (by omega)⟩

theorem zeroMeansEnd_error {L : Nat} : ¬ ZeroMeansEnd (-efault) L L := by
  rintro ⟨hzero, -⟩
  exact absurd (hzero.mpr rfl) (by decide)

/-- Zero means the end of the BAR exactly where the request starts before that end
and the first word is copied. -/
theorem transfers_zeroMeansEnd_iff {renv : ReadEnv} {wenv : WriteEnv} {regs : Regs}
    {dv : PcieuniDev} {buf : UserMem} {count : BitVec 64} {n : Fin 6} {m : Iomem} {o : Nat}
    (hsts : dv.devSts ≠ 0) (hm : (dv.bar n).memmoryBase = some m)
    (hlen : (dv.bar n).length % 4 = 0) (ho : o % 4 = 0) (hoL : o ≤ (dv.bar n).length)
    (hpositive : 0 < count.toNat) (hcount4 : count.toNat % 4 = 0)
    (hcount : count.toNat ≤ 0x7ffff000)
    (hrlock : mutexLockInterruptible dv.devMut renv.intr = .acquired)
    (hwlock : mutexLockInterruptible dv.devMut wenv.intr = .acquired)
    (hrfuel : 2 ^ 29 ≤ renv.fuel) (hwfuel : 2 ^ 29 ≤ wenv.fuel) :
    (∃ r, pcieuniReadNoStructExp renv regs dv buf count (pcieuniBarOffsets n + BitVec.ofNat 64 o) =
        .ok (dv, r) ∧
      (ZeroMeansEnd r.ret o (dv.bar n).length ↔ o < (dv.bar n).length ∧ renv.left 0 = 0)) ∧
    (∃ r, pcieuniWriteNoStructExp wenv regs dv buf count (pcieuniBarOffsets n + BitVec.ofNat 64 o) =
        .ok (dv, r) ∧
      (ZeroMeansEnd r.ret o (dv.bar n).length ↔
        o < (dv.bar n).length ∧ wenv.fault 0 = false)) := by
  rcases Nat.lt_or_eq_of_le hoL with hlt | rfl
  · obtain ⟨ti, hcheck, -, hcov⟩ := check_covers hsts hm hlen ho hlt hcount4 hcount
    have hW : 0 < min count.toNat ((dv.bar n).length - o) / 4 := by omega
    constructor
    · obtain ⟨k, r, hr, hstop, hret, -⟩ := read_of_covers regs buf hcheck hcov hrlock (by omega)
      refine ⟨r, hr, ?_⟩
      rw [hret, zeroMeansEnd_words hlt hW hstop]
      simp [hlt]
    · obtain ⟨k, r, hr, hstop, hret, -⟩ := write_of_covers regs buf hcheck hcov hwlock (by omega)
      refine ⟨r, hr, ?_⟩
      rw [hret, zeroMeansEnd_words hlt hW hstop]
      simp [hlt]
  · have hcheck := check_end dv count n
    constructor
    · unfold pcieuniReadNoStructExp
      rw [hcheck]
      exact ⟨_, rfl, by simp [zeroMeansEnd_error]⟩
    · unfold pcieuniWriteNoStructExp
      rw [hcheck]
      exact ⟨_, rfl, by simp [zeroMeansEnd_error]⟩

/-- A read and a write of the whole BAR, with the copy of the second word faulting. -/
theorem transfers_zeroMeansEnd_iff_secondWord :
    (∃ r, pcieuniReadNoStructExp { left := fun b => if b = 4 then 2 else 0, fuel := 2 ^ 29 }
        (fun _ _ _ => 0) bar5Dev (fun _ => 0) 0x1000 (pcieuniBarOffsets 5 + BitVec.ofNat 64 0) =
          .ok (bar5Dev, r) ∧
      (ZeroMeansEnd r.ret 0 (bar5Dev.bar 5).length ↔
        0 < (bar5Dev.bar 5).length ∧ (if 0 = 4 then 2 else 0) = 0)) ∧
    (∃ r, pcieuniWriteNoStructExp { fault := fun b => b == 4, fuel := 2 ^ 29 }
        (fun _ _ _ => 0) bar5Dev (fun _ => 0) 0x1000 (pcieuniBarOffsets 5 + BitVec.ofNat 64 0) =
          .ok (bar5Dev, r) ∧
      (ZeroMeansEnd r.ret 0 (bar5Dev.bar 5).length ↔
        0 < (bar5Dev.bar 5).length ∧ (0 == 4) = false)) :=
  transfers_zeroMeansEnd_iff (by decide) rfl (by decide) (by decide) (by decide) (by decide)
    (by decide) (by decide) rfl rfl (le_refl _) (le_refl _)

/-- At the end of the BAR a read returns `-EFAULT`, and at its beginning a read
whose first word cannot be copied returns zero. -/
theorem read_zero_not_end :
    (∃ r, pcieuniReadNoStructExp { fuel := 1 } (fun _ _ _ => 0) bar5Dev (fun _ => 0) 4
        (pcieuniBarOffsets 5 + BitVec.ofNat 64 0x1000) = .ok (bar5Dev, r) ∧
      (bar5Dev.bar 5).length = 0x1000 ∧ r.ret = -efault ∧ ¬ ZeroMeansEnd r.ret 0x1000 0x1000) ∧
    (∃ r, pcieuniReadNoStructExp { left := fun _ => 4, fuel := 1 } (fun _ _ _ => 0) bar5Dev
        (fun _ => 0) 4 (pcieuniBarOffsets 5 + BitVec.ofNat 64 0) = .ok (bar5Dev, r) ∧
      r.ret = 0 ∧ ¬ ZeroMeansEnd r.ret 0 0x1000) := by
  refine ⟨⟨_, rfl, rfl, rfl, ?_⟩, ⟨_, rfl, rfl, ?_⟩⟩
  · rintro ⟨hzero, -⟩
    exact absurd (hzero.mpr rfl) (by decide)
  · rintro ⟨hzero, -⟩
    exact absurd (hzero.mp rfl) (by decide)

end Gpcieuni
