-- SUMMARY: What probe records and maps of a BAR, compared with the 64-bit resource and with the accesses of the register transfers.
import Gpcieuni.ProbeSpec
import Gpcieuni.TransferSpec

/-!
# The window onto a BAR

A resource has 64-bit addresses, and its end is the address of its last byte.
Probe narrows both addresses to `u32` before it looks at them. Their difference
is what it passes to `pci_iomap` and what a transfer takes for the size of the
BAR: one less than the length.
-/

namespace Gpcieuni

/-- The length of a resource. -/
def PciResource.length (r : PciResource) : Nat := r.stop.toNat - r.start.toNat + 1

/-- The number of bytes that `pci_iomap` maps of a BAR of that length. A `maxlen`
of zero asks for the whole BAR. -/
def pciIomapBytes (length : Nat) (maxlen : BitVec 32) : Nat :=
  if maxlen.toNat = 0 then length else min length maxlen.toNat

/-! ## What probe records -/

section Recorded

variable {env : ProbeEnv} {d : PciDev} {n : Fin 6}

theorem implements_iff : env.Implements n ↔ ¬ 2 ^ 32 ∣ (env.resource n).start.toNat := by
  unfold ProbeEnv.Implements
  rw [not_iff_not, Nat.dvd_iff_mod_eq_zero]
  constructor
  · intro hzero
    have hnat := congrArg BitVec.toNat hzero
    simpa [BitVec.toNat_setWidth] using hnat
  · intro hmod
    apply BitVec.eq_of_toNat_eq
    simpa [BitVec.toNat_setWidth] using hmod

theorem maxlen_toNat (h : (env.resource n).start.toNat ≤ (env.resource n).stop.toNat) :
    (env.maxlen n).toNat =
      ((env.resource n).stop.toNat - (env.resource n).start.toNat) % 2 ^ 32 := by
  simp only [ProbeEnv.maxlen, BitVec.toNat_sub, BitVec.toNat_setWidth]
  omega

/-- The BARs of the struct that a successful probe leaves. -/
theorem probe_bars {s s' : Driver} {r : ProbeRet} {k : Slot}
    (hprobe : pcieuniProbeExp env d s = .ok (s', r)) (hret : r.ret = 0)
    (hk : s'.drvdata d = some k) :
    (s'.dev k).bar n = probedBar env d n ((s.dev k).bar n) := by
  obtain ⟨i, dv, o, devSts, slotNum, -, -, rfl⟩ := pcieuniProbeExp_ok hprobe hret
  simp only [Function.update_self, Option.some.injEq] at hk
  subst hk
  have hdev : (s.setDev i.castSucc dv).dev i.castSucc = dv := Driver.setDev_dev_self ..
  simp only [hdev, o.bar n]

theorem probedBar_size {b : Bar}
    (hle : (env.resource n).start.toNat ≤ (env.resource n).stop.toNat)
    (hlen : (env.resource n).length ≤ 2 ^ 32) :
    (barStartAndSize (probedBar env d n b)).2 =
      (env.resource n).stop - (env.resource n).start := by
  have hmax : (env.maxlen n).toNat =
      (env.resource n).stop.toNat - (env.resource n).start.toNat := by
    rw [maxlen_toNat hle]
    unfold PciResource.length at hlen
    omega
  have hstart := (env.resource n).start.isLt
  have hstop := (env.resource n).stop.isLt
  apply BitVec.eq_of_toNat_eq
  have hwiden : (barStartAndSize (probedBar env d n b)).2 = (env.maxlen n).setWidth 64 := rfl
  rw [hwiden, BitVec.toNat_setWidth, hmax, BitVec.toNat_sub]
  omega

/-- For a resource of at most 4 GiB that gets mapped, probe records the BAR and its
size exactly when the resource does not start at a multiple of 4 GiB. -/
theorem probe_records_bar_iff {s s' : Driver} {r : ProbeRet} {k : Slot} {addr : Nat}
    (hprobe : pcieuniProbeExp env d s = .ok (s', r)) (hret : r.ret = 0)
    (hk : s'.drvdata d = some k)
    (hlen : 4 ≤ (env.resource n).length ∧ (env.resource n).length ≤ 2 ^ 32)
    (hiomap : env.iomap n = some addr) :
    (((s'.dev k).bar n).memmoryBase ≠ none ∧
      (barStartAndSize ((s'.dev k).bar n)).2 =
        (env.resource n).stop - (env.resource n).start) ↔
      ¬ 2 ^ 32 ∣ (env.resource n).start.toNat := by
  have hle : (env.resource n).start.toNat ≤ (env.resource n).stop.toNat := by
    have hfour := hlen.1
    unfold PciResource.length at hfour
    omega
  rw [probe_bars hprobe hret hk, ← implements_iff]
  constructor
  · rintro ⟨hmapped, -⟩
    obtain ⟨m, hm⟩ := Option.ne_none_iff_exists'.mp hmapped
    exact (probedBar_memmoryBase.mp hm).1
  · intro himp
    refine ⟨?_, probedBar_size hle hlen.2⟩
    have hm : (probedBar env d n ((s.dev k).bar n)).memmoryBase = some ⟨d, n, addr⟩ :=
      probedBar_memmoryBase.mpr ⟨himp, rfl, rfl, hiomap⟩
    rw [hm]
    exact Option.some_ne_none _

end Recorded

/-- A device whose BAR 0 is the 64 KiB at `start`. -/
def oneBarEnv (start : BitVec 64) : ProbeEnv :=
  { resource := fun n => if n = 0 then { start, stop := start + 0xFFFF } else {}
    iomap := fun n => if n = 0 then some 0x10000 else none
    fuel := 1 }

/-- The driver before its first probe, on hardware whose registers are zero. -/
def freshDriver : Driver := Driver.initial 240 1 0 fun _ _ _ => 0

theorem probe_records_bar_low :
    ∃ s' r, pcieuniProbeExp (oneBarEnv 0xF0000000) 7 freshDriver = .ok (s', r) ∧
      ((s'.dev 0).bar 0).memmoryBase ≠ none ∧ (barStartAndSize ((s'.dev 0).bar 0)).2 = 0xFFFF := by
  obtain ⟨s', r, hprobe, hret, hk⟩ : ∃ s' r, pcieuniProbeExp (oneBarEnv 0xF0000000) 7 freshDriver =
      .ok (s', r) ∧ r.ret = 0 ∧ s'.drvdata 7 = some 0 := ⟨_, _, rfl, rfl, rfl⟩
  refine ⟨s', r, hprobe, ?_⟩
  have hiff := probe_records_bar_iff (n := 0) hprobe hret hk (by decide) rfl
  exact hiff.mpr (by decide)

/-- A BAR at 4 GiB is taken for one that is not there. -/
theorem probe_loses_bar_high :
    0 < ((oneBarEnv 0x100000000).resource 0).start.toNat ∧
    ((oneBarEnv 0x100000000).resource 0).length = 0x10000 ∧
    (oneBarEnv 0x100000000).iomap 0 = some 0x10000 ∧
    ∃ s' r, pcieuniProbeExp (oneBarEnv 0x100000000) 7 freshDriver = .ok (s', r) ∧ r.ret = 0 ∧
      s'.drvdata 7 = some 0 ∧ ((s'.dev 0).bar 0).memmoryBase = none :=
  ⟨by decide, by decide, rfl, _, _, rfl, rfl, rfl, rfl⟩

/-! ## What transfers access -/

section Accessed

variable {dv : PcieuniDev} {count pos : BitVec 64} {len : Iomem → Nat}

/-- Every access of a read or a write of `count` bytes at `pos` is inside. -/
def TransfersInside (dv : PcieuniDev) (count pos : BitVec 64) (len : Iomem → Nat) : Prop :=
  (∀ env regs buf dv' r, pcieuniReadNoStructExp env regs dv buf count pos = .ok (dv', r) →
    ∀ e ∈ r.log, e.Inside len) ∧
  ∀ env regs buf dv' r, pcieuniWriteNoStructExp env regs dv buf count pos = .ok (dv', r) →
    ∀ e ∈ r.log, e.Inside len

theorem transfersInside_of_inl {err : Int}
    (h : checkAndCalculateTransferInformation dv count pos = .inl err) :
    TransfersInside dv count pos len := by
  constructor
  · intro env regs buf dv' r hok
    simp only [pcieuniReadNoStructExp, h] at hok
    cases hok
    intro e he
    cases he
  · intro env regs buf dv' r hok
    simp only [pcieuniWriteNoStructExp, h] at hok
    cases hok
    intro e he
    cases he

theorem transfersInside_of_covers {ti : TransferInformation} {o W : Nat}
    (hcheck : checkAndCalculateTransferInformation dv count pos = .inr ti) (hti : ti.Covers o W)
    (hW : ∀ j < W, o + 4 * j + 4 ≤ len ti.barStart) : TransfersInside dv count pos len := by
  constructor
  · intro env regs buf dv' r hok
    simp only [pcieuniReadNoStructExp, hcheck] at hok
    split at hok
    · cases hok
      intro e he
      cases he
    · cases hok
    · split at hok
      · cases hok
      rename_i rl hloop
      cases hok
      intro e he
      obtain ⟨j, hj, rfl⟩ := readLoop_words (i := 0) hti (Nat.zero_le W) hloop e he
      have hroom := hW j hj
      exact ⟨by omega, by omega⟩
  · intro env regs buf dv' r hok
    simp only [pcieuniWriteNoStructExp, hcheck] at hok
    split at hok
    · cases hok
      intro e he
      cases he
    · cases hok
    · split at hok
      · cases hok
      rename_i rl hloop
      cases hok
      intro e he
      obtain ⟨j, hj, w, rfl⟩ := writeLoop_words (i := 0) hti (Nat.zero_le W) hloop e he
      have hroom := hW j hj
      exact ⟨by omega, by omega⟩

/-- A read that nothing interrupts accesses every word that it covers. -/
theorem covers_of_transfersInside {ti : TransferInformation} {o W : Nat}
    (hcheck : checkAndCalculateTransferInformation dv count pos = .inr ti) (hti : ti.Covers o W)
    (hmut : dv.devMut = false) (h : TransfersInside dv count pos len) :
    ∀ j < W, o + 4 * j + 4 ≤ len ti.barStart := by
  intro j hj
  obtain ⟨k, r, hok, hstop, -, -, hlog, -⟩ :=
    @read_of_covers { fuel := W + 1 } _ (fun _ _ _ => 0) (fun _ => 0) _ _ _ _ _ hcheck hti
      (by rw [hmut]; rfl) (Nat.lt_succ_self W)
  have hall : k = W := hstop.eq_of_no_fault (by simp)
  have hmem : .ioread32 ti.barStart (o + 4 * j : Nat) ∈ r.log := by
    rw [hlog, List.mem_map]
    exact ⟨j, List.mem_range.mpr (by omega), rfl⟩
  have hinside := (h.1 _ _ _ _ _ hok _ hmem).2
  omega

end Accessed

section Window

variable {env : ProbeEnv} {d : PciDev} {n : Fin 6}

/-- What probe asks for is one byte short of the length that transfers go by. -/
theorem pciIomapBytes_maxlen {b : Bar}
    (hle : (env.resource n).start.toNat ≤ (env.resource n).stop.toNat)
    (hlen : (env.resource n).length % 4 = 0) :
    (probedBar env d n b).length % 4 = 0 ∧
      pciIomapBytes (env.resource n).length (env.maxlen n) + 1 = (probedBar env d n b).length := by
  have hmax := maxlen_toNat hle
  have hlength : (probedBar env d n b).length = (env.maxlen n).toNat + 1 := rfl
  unfold PciResource.length at hlen ⊢
  rw [hlength, pciIomapBytes]
  split <;> omega

/-- After a probe that mapped BAR `n`, the accesses of a transfer of whole words
stay inside what `pci_iomap` was asked to map exactly when the transfer does not
reach the last word of the BAR. -/
theorem transfers_inside_window_iff {s s' : Driver} {r : ProbeRet} {k : Slot} {m : Iomem}
    {maxlen : BitVec 32} {addr : Option Nat} {dv : PcieuniDev} {count pos : BitVec 64}
    (hprobe : pcieuniProbeExp env d s = .ok (s', r)) (hret : r.ret = 0)
    (hk : s'.drvdata d = some k) (hmap : .pciIomap d n maxlen addr ∈ r.log)
    (hle : (env.resource n).start.toNat ≤ (env.resource n).stop.toNat)
    (hlen : (env.resource n).length % 4 = 0)
    (hbar : dv.bar n = (s'.dev k).bar n) (hm : (dv.bar n).memmoryBase = some m)
    (hsts : dv.devSts ≠ 0) (hmut : dv.devMut = false)
    (hpos : pos.toNat / 2 ^ 60 % 8 = n) (hcount4 : count.toNat % 4 = 0)
    (hcount : count.toNat ≤ 0x7ffff000) :
    TransfersInside dv count pos
        (fun _ => pciIomapBytes (env.resource n).length maxlen) ↔
      (pos.toNat % 4 = 0 → pos.toNat % 2 ^ 60 < (dv.bar n).length → 0 < count.toNat →
        pos.toNat % 2 ^ 60 + count.toNat < (dv.bar n).length) := by
  obtain ⟨hL4, hwindow⟩ := pciIomapBytes_maxlen (d := d) (b := (s.dev k).bar n) hle hlen
  rw [← probe_bars hprobe hret hk, ← hbar] at hL4 hwindow
  have hmaxlen : maxlen = env.maxlen n := by
    obtain ⟨i, dv', o, devSts, slotNum, -, hlog, -⟩ := pcieuniProbeExp_ok hprobe hret
    rw [hlog, List.mem_append] at hmap
    rcases hmap with hfirst | hrest
    · simp at hfirst
    · exact (o.mem_pciIomap hrest).2.1
  subst hmaxlen
  have hlength : (dv.bar n).length = ((dv.bar n).memBaseEnd - (dv.bar n).memBase).toNat + 1 := rfl
  cases hcheck : checkAndCalculateTransferInformation dv count pos with
  | inl err =>
      refine ⟨fun _ hpos4 ho _ => ?_, fun _ => transfersInside_of_inl hcheck⟩
      obtain ⟨ti, hti⟩ := check_inr_of count pos hsts hpos4 hcount4 hpos.symm hm (by omega)
      rw [hcheck] at hti
      cases hti
  | inr ti =>
      obtain ⟨n', hacc⟩ := check_inr hcheck
      have hn' : n' = n := Fin.ext (hacc.bar.trans hpos)
      subst hn'
      have hcov := covers_of_check hacc hcount hL4
      have hpos4 := hacc.posAligned
      have hoff := hacc.offset_le
      rw [hacc.offset, hacc.size] at hoff
      constructor
      · intro hinside _ ho hpositive
        by_contra hreach
        -- the last word that is covered ends with the BAR, one byte behind the window
        have hlast := covers_of_transfersInside hcheck hcov hmut hinside
          (min count.toNat (((dv.bar n').memBaseEnd - (dv.bar n').memBase).toNat + 1
            - pos.toNat % 2 ^ 60) / 4 - 1) (by omega)
        omega
      · intro hshort
        apply transfersInside_of_covers hcheck hcov
        intro j hj
        have hpositive : 0 < count.toNat := by omega
        have hend := hshort hpos4 (by omega) hpositive
        omega

end Window

theorem transfers_inside_window_firstWord :
    ∃ s' r, pcieuniProbeExp (oneBarEnv 0xF0000000) 7 freshDriver = .ok (s', r) ∧
      TransfersInside (s'.dev 0) 4 0 (fun _ => pciIomapBytes 0x10000 0xFFFF) := by
  obtain ⟨s', r, hprobe, hret, hk, hmap, hm, hsts, hmut, hlen⟩ :
      ∃ s' r, pcieuniProbeExp (oneBarEnv 0xF0000000) 7 freshDriver = .ok (s', r) ∧ r.ret = 0 ∧
        s'.drvdata 7 = some 0 ∧ .pciIomap 7 0 0xFFFF (some 0x10000) ∈ r.log ∧
        ((s'.dev 0).bar 0).memmoryBase = some ⟨7, 0, 0x10000⟩ ∧ (s'.dev 0).devSts ≠ 0 ∧
        (s'.dev 0).devMut = false ∧ ((s'.dev 0).bar 0).length = 0x10000 :=
    ⟨_, _, rfl, rfl, rfl, by decide, rfl, by decide, rfl, by decide⟩
  refine ⟨s', r, hprobe, ?_⟩
  refine (transfers_inside_window_iff (n := 0) hprobe hret hk hmap (by decide) (by decide) rfl hm
    hsts hmut (by decide) (by decide) (by decide)).mpr ?_
  rw [hlen]
  decide

/-- The last word of a 64 KiB BAR: probe asks for 0xFFFF bytes, and the read
accesses the four bytes that end at 0x10000. -/
theorem read_outside_window_lastWord :
    ∃ s' r, pcieuniProbeExp (oneBarEnv 0xF0000000) 7 freshDriver = .ok (s', r) ∧ r.ret = 0 ∧
      ((oneBarEnv 0xF0000000).resource 0).length = 0x10000 ∧
      .pciIomap 7 0 0xFFFF (some 0x10000) ∈ r.log ∧
      ∃ dv' rd, pcieuniReadNoStructExp { fuel := 2 } s'.regs (s'.dev 0) (fun _ => 0) 4 0xFFFC =
          .ok (dv', rd) ∧
        .ioread32 ⟨7, 0, 0x10000⟩ 0xFFFC ∈ rd.log ∧
        ¬ (Effect.ioread32 ⟨7, 0, 0x10000⟩ 0xFFFC).Inside (fun _ => pciIomapBytes 0x10000 0xFFFF) :=
  ⟨_, _, rfl, rfl, by decide, by decide, _, _, rfl, by decide,
    fun h => absurd h.2 (by decide)⟩

end Gpcieuni
