-- SUMMARY: What a register transfer does: the meaning of the check on natural numbers, the word loops, the exact read, and the write-read round trip.
import Gpcieuni.Transfer

/-!
# Register transfers: specification

The check is first restated on natural numbers (`check_inr`, `check_inr_of`).
Both word loops are then described by the same data: the byte offset at which
the transfer starts, and the number of words it covers
(`TransferInformation.Covers`). The clipped byte count is one less than a
multiple of four at the end of a BAR, and the loops round it up again;
`covers_of_check` is where these two cancel.
-/

namespace Gpcieuni

/-! ## The check on natural numbers -/

/-- What a request that passes the check looks like. -/
structure Accepted (dv : PcieuniDev) (count pos : BitVec 64) (ti : TransferInformation)
    (n : Fin 6) : Prop where
  devSts : dv.devSts ≠ 0
  bar : (n : Nat) = pos.toNat / 2 ^ 60 % 8
  barStart : (dv.bar n).memmoryBase = some ti.barStart
  posAligned : pos.toNat % 4 = 0
  countAligned : count.toNat % 4 = 0
  offset : ti.offset.toNat = pos.toNat % 2 ^ 60
  size : ti.barSizeInBytes.toNat = ((dv.bar n).memBaseEnd - (dv.bar n).memBase).toNat
  offset_le : ti.offset.toNat ≤ ti.barSizeInBytes.toNat
  nBytes : ti.nBytesToTransfer =
    if ti.barSizeInBytes < ti.offset + count then (ti.barSizeInBytes - ti.offset).setWidth 32
    else count.setWidth 32

theorem barNumber_toNat (pos : BitVec 64) :
    ((pos.sshiftRight 60 &&& 7#64).setWidth 32).toNat = pos.toNat / 2 ^ 60 % 8 := by
  rw [BitVec.toNat_setWidth, Word.sshiftRight_and_seven_toNat]
  omega

private theorem barSize_toNat (b : Bar) :
    (barStartAndSize b).2.toNat = (b.memBaseEnd - b.memBase).toNat := by
  simp only [barStartAndSize, BitVec.toNat_setWidth]
  have := (b.memBaseEnd - b.memBase).isLt
  omega

theorem check_inr {dv : PcieuniDev} {count pos : BitVec 64} {ti : TransferInformation}
    (h : checkAndCalculateTransferInformation dv count pos = .inr ti) :
    ∃ n, Accepted dv count pos ti n := by
  simp only [checkAndCalculateTransferInformation] at h
  split at h
  · cases h
  rename_i hsts
  split at h
  · cases h
  rename_i hpos
  split at h
  · cases h
  rename_i hcount
  split at h
  · rename_i hbar
    split at h
    · cases h
    rename_i m hm
    split at h
    · cases h
    rename_i hle
    cases h
    refine ⟨⟨_, hbar⟩, hsts, barNumber_toNat pos, hm, ?_, ?_, Word.and_low60_toNat pos,
      barSize_toNat _, by simpa [BitVec.lt_def] using hle, rfl⟩
    · exact Word.srem_four_eq_zero.mp (by simpa using hpos)
    · exact Word.umod_four_eq_zero.mp (by simpa using hcount)
  · cases h

theorem check_inr_of {dv : PcieuniDev} (count pos : BitVec 64) {n : Fin 6} {m : Iomem}
    (hsts : dv.devSts ≠ 0) (hpos : pos.toNat % 4 = 0) (hcount : count.toNat % 4 = 0)
    (hn : (n : Nat) = pos.toNat / 2 ^ 60 % 8) (hm : (dv.bar n).memmoryBase = some m)
    (hle : pos.toNat % 2 ^ 60 ≤ ((dv.bar n).memBaseEnd - (dv.bar n).memBase).toNat) :
    ∃ ti, checkAndCalculateTransferInformation dv count pos = .inr ti := by
  have hbar := barNumber_toNat pos
  have hlt : ((pos.sshiftRight 60 &&& 7#64).setWidth 32).toNat < 6 := by
    rw [hbar, ← hn]; exact n.isLt
  have hfin : (⟨((pos.sshiftRight 60 &&& 7#64).setWidth 32).toNat, hlt⟩ : Fin 6) = n :=
    Fin.ext (hbar.trans hn.symm)
  have hsize : ¬ (barStartAndSize (dv.bar n)).2 < pos &&& 0x0FFFFFFFFFFFFFFF#64 := by
    rw [BitVec.lt_def, barSize_toNat, Word.and_low60_toNat]
    omega
  have hstart : (barStartAndSize (dv.bar n)).1 = some m := hm
  simp only [checkAndCalculateTransferInformation, hsts, Word.srem_four_eq_zero.mpr hpos,
    Word.umod_four_eq_zero.mpr hcount, hlt, hfin, hstart, hsize, ne_eq, not_true_eq_false,
    if_false, dif_pos]
  exact ⟨_, rfl⟩

/-- The check fails only with `-EFAULT`. -/
theorem check_inl {dv : PcieuniDev} {count pos : BitVec 64} {err : Int}
    (h : checkAndCalculateTransferInformation dv count pos = .inl err) : err = -efault := by
  simp only [checkAndCalculateTransferInformation] at h
  repeat' split at h
  all_goals cases h
  all_goals rfl

theorem check_of_devSts {dv : PcieuniDev} {count pos : BitVec 64} (h : dv.devSts = 0) :
    checkAndCalculateTransferInformation dv count pos = .inl (-efault) := by
  simp [checkAndCalculateTransferInformation, h]

/-! ## What a transfer leaves alone -/

theorem readLoop_log {regs : Regs} {left : Nat → Nat} {ti : TransferInformation} {fuel : Nat}
    {n : BitVec 32} {buf : UserMem} {r : ReadLoop} (h : readLoop regs left ti fuel n buf = .ok r)
    {e : Effect} (he : e ∈ r.log) : e.accesses = some ti.barStart.dev := by
  induction fuel generalizing n buf r with
  | zero => cases h
  | succ fuel ih =>
      simp only [readLoop] at h
      split at h
      · split at h
        · cases h
          rw [List.mem_singleton.mp he]
          rfl
        · split at h
          · cases h
          · rename_i r' hrest
            cases h
            rcases List.mem_cons.mp he with rfl | hmem
            · rfl
            · exact ih hrest hmem
      · cases h
        cases he

theorem writeLoop_log {buf : UserMem} {fault : Nat → Bool} {ti : TransferInformation} {fuel : Nat}
    {n : BitVec 32} {regs : Regs} {r : WriteLoop} (h : writeLoop buf fault ti fuel n regs = .ok r)
    {e : Effect} (he : e ∈ r.log) : e.accesses = some ti.barStart.dev := by
  induction fuel generalizing n regs r with
  | zero => cases h
  | succ fuel ih =>
      simp only [writeLoop] at h
      split at h
      · split at h
        · cases h
          cases he
        · split at h
          · cases h
          · rename_i r' hrest
            cases h
            rcases List.mem_cons.mp he with rfl | hmem
            · rfl
            · exact ih hrest hmem
      · cases h
        cases he

/-- A transfer that returns leaves the device struct as it was, it accesses only
the device behind a mapped BAR, and it fails on a device that is gone. -/
structure Transferred (dv dv' : PcieuniDev) (ret : Int) (log : List Effect) : Prop where
  same : dv' = dv
  gone : dv.devSts = 0 → ret = -efault ∧ log = []
  accesses : ∀ e ∈ log, ∃ n m, (dv.bar n).memmoryBase = some m ∧ e.accesses = some m.dev

theorem pcieuniReadNoStructExp_cases {env : ReadEnv} {regs : Regs} {dv dv' : PcieuniDev}
    {buf : UserMem} {count pos : BitVec 64} {r : ReadRet}
    (h : pcieuniReadNoStructExp env regs dv buf count pos = .ok (dv', r)) :
    Transferred dv dv' r.ret r.log := by
  simp only [pcieuniReadNoStructExp] at h
  split at h
  · rename_i err hcheck
    cases h
    exact ⟨rfl, fun _ => ⟨check_inl hcheck, rfl⟩, by simp⟩
  rename_i ti hcheck
  obtain ⟨n, hacc⟩ := check_inr hcheck
  split at h
  · cases h
    exact ⟨rfl, fun h0 => absurd h0 hacc.devSts, by simp⟩
  · cases h
  · rename_i hlock
    have hfree := (mutexLockInterruptible_acquired.mp hlock).1
    split at h
    · cases h
    · rename_i rl hloop
      cases h
      refine ⟨by rw [← hfree], fun h0 => absurd h0 hacc.devSts, fun e he => ?_⟩
      exact ⟨n, ti.barStart, hacc.barStart, readLoop_log hloop he⟩

theorem pcieuniWriteNoStructExp_cases {env : WriteEnv} {regs : Regs} {dv dv' : PcieuniDev}
    {buf : UserMem} {count pos : BitVec 64} {r : WriteRet}
    (h : pcieuniWriteNoStructExp env regs dv buf count pos = .ok (dv', r)) :
    Transferred dv dv' r.ret r.log := by
  simp only [pcieuniWriteNoStructExp] at h
  split at h
  · rename_i err hcheck
    cases h
    exact ⟨rfl, fun _ => ⟨check_inl hcheck, rfl⟩, by simp⟩
  rename_i ti hcheck
  obtain ⟨n, hacc⟩ := check_inr hcheck
  split at h
  · cases h
    exact ⟨rfl, fun h0 => absurd h0 hacc.devSts, by simp⟩
  · cases h
  · rename_i hlock
    have hfree := (mutexLockInterruptible_acquired.mp hlock).1
    split at h
    · cases h
    · rename_i rl hloop
      cases h
      refine ⟨by rw [← hfree], fun h0 => absurd h0 hacc.devSts, fun e he => ?_⟩
      exact ⟨n, ti.barStart, hacc.barStart, writeLoop_log hloop he⟩

/-! ## The words of a transfer -/

/-- The word loops on `ti` start at byte `o` of the BAR and cover `W` words,
and none of the loop's arithmetic wraps on the way. -/
structure TransferInformation.Covers (ti : TransferInformation) (o W : Nat) : Prop where
  offset : ti.offset.toNat = o
  aligned : o % 4 = 0
  words : ∀ i, 4 * i < ti.nBytesToTransfer.toNat ↔ i < W
  counterFits : 4 * W < 2 ^ 32
  offsetFits : o + 4 * W < 2 ^ 64

/-- A loop over the words from `i` to `W` stops at word `k`: no word before `k`
faults, and `k` faults unless it is the end. -/
structure StopsAt (fault : Nat → Prop) (i W k : Nat) : Prop where
  lower : i ≤ k
  upper : k ≤ W
  before : ∀ j, i ≤ j → j < k → ¬ fault j
  atFault : k < W → fault k

theorem StopsAt.of_fault {fault : Nat → Prop} {i W : Nat} (hi : i < W) (h : fault i) :
    StopsAt fault i W i :=
  ⟨le_refl i, hi.le, fun j hij hji => absurd hij (by omega), fun _ => h⟩

theorem StopsAt.done (fault : Nat → Prop) (W : Nat) : StopsAt fault W W W :=
  ⟨le_refl W, le_refl W, fun j hij hji => absurd hij (by omega), fun h => absurd h (by omega)⟩

theorem StopsAt.cons {fault : Nat → Prop} {i W k : Nat} (hi : ¬ fault i)
    (h : StopsAt fault (i + 1) W k) : StopsAt fault i W k where
  lower := by have := h.lower; omega
  upper := h.upper
  before j hij hjk := by
    by_cases hj : j = i
    · rw [hj]; exact hi
    · exact h.before j (by omega) hjk
  atFault := h.atFault

/-- The clipped byte count, rounded up by the loops, is the whole words that the
request and the rest of the BAR have in common. -/
theorem covers_of_check {dv : PcieuniDev} {count pos : BitVec 64} {ti : TransferInformation}
    {n : Fin 6} (h : Accepted dv count pos ti n) (hcount : count.toNat ≤ 0x7ffff000)
    (hlen : (((dv.bar n).memBaseEnd - (dv.bar n).memBase).toNat + 1) % 4 = 0) :
    ti.Covers (pos.toNat % 2 ^ 60)
      (min count.toNat (((dv.bar n).memBaseEnd - (dv.bar n).memBase).toNat + 1
        - pos.toNat % 2 ^ 60) / 4) := by
  have hsize := h.size
  have hoff := h.offset
  have hle := h.offset_le
  have hcnt := h.countAligned
  have hpos := h.posAligned
  have h32 := ((dv.bar n).memBaseEnd - (dv.bar n).memBase).isLt
  generalize ((dv.bar n).memBaseEnd - (dv.bar n).memBase).toNat = size at *
  have hadd : (ti.offset + count).toNat = ti.offset.toNat + count.toNat := by
    rw [BitVec.toNat_add]; omega
  have hsub : (ti.barSizeInBytes - ti.offset).toNat = size - ti.offset.toNat := by
    rw [BitVec.toNat_sub]; omega
  have hbytes : ti.nBytesToTransfer.toNat =
      if size < pos.toNat % 2 ^ 60 + count.toNat then size - pos.toNat % 2 ^ 60
      else count.toNat := by
    have hclip : ti.barSizeInBytes < ti.offset + count ↔
        size < pos.toNat % 2 ^ 60 + count.toNat := by
      rw [BitVec.lt_def, hadd, hsize, hoff]
    simp only [h.nBytes, hclip]
    split
    · rw [BitVec.toNat_setWidth, hsub]; omega
    · rw [BitVec.toNat_setWidth]; omega
  refine ⟨hoff, by omega, ?_, by omega, by omega⟩
  intro i
  rw [hbytes]
  split <;> omega

theorem counter_toNat {i : Nat} (hi : 4 * i < 2 ^ 32) :
    (BitVec.ofNat 32 (4 * i)).toNat = 4 * i := by
  rw [BitVec.toNat_ofNat]; omega

theorem counter_setWidth {i : Nat} (hi : 4 * i < 2 ^ 32) :
    (BitVec.ofNat 32 (4 * i)).setWidth 64 = BitVec.ofNat 64 (4 * i) := by
  apply BitVec.eq_of_toNat_eq
  rw [BitVec.toNat_setWidth, counter_toNat hi, BitVec.toNat_ofNat]

/-- The counter of the loops, one word on. -/
theorem counter_succ (i : Nat) :
    BitVec.ofNat 32 (4 * i) + 4 = BitVec.ofNat 32 (4 * (i + 1)) := by
  apply BitVec.eq_of_toNat_eq
  simp only [BitVec.toNat_add, BitVec.toNat_ofNat, show BitVec.toNat (4 : BitVec 32) = 4 from rfl]
  omega

/-- The condition of the loops. -/
theorem TransferInformation.Covers.counter_lt_iff {ti : TransferInformation} {o W i : Nat}
    (h : ti.Covers o W) (hi : i ≤ W) :
    BitVec.ofNat 32 (4 * i) < ti.nBytesToTransfer ↔ i < W := by
  have hfit := h.counterFits
  rw [BitVec.lt_def, counter_toNat (by omega)]
  exact h.words i

theorem TransferInformation.Covers.wordOffset {ti : TransferInformation} {o W i : Nat}
    (h : ti.Covers o W) (hi : i < W) :
    ti.wordOffset (BitVec.ofNat 32 (4 * i)) = (o + 4 * i : Nat) := by
  have hfit := h.counterFits
  have hoff := h.offsetFits
  have halign := h.aligned
  have hsum : ((ti.offset + (BitVec.ofNat 32 (4 * i)).setWidth 64) / 4).toNat = (o + 4 * i) / 4 := by
    rw [BitVec.toNat_udiv, BitVec.toNat_add, BitVec.toNat_setWidth, counter_toNat (by omega),
      h.offset, show BitVec.toNat (4 : BitVec 64) = 4 from rfl]
    omega
  rw [TransferInformation.wordOffset, hsum]
  omega

/-! ## The read loop -/

/-- The word that a transfer through mapping `m` finds at word `i` after byte `o`. -/
def wordAt (regs : Regs) (m : Iomem) (o i : Nat) : BitVec 32 := regs m.dev m.bar (o + 4 * i : Nat)

/-- The read loop from word `i` on. It reads the words in order up to and
including the one whose copy faults, and it has copied exactly the words before
that one. -/
theorem readLoop_spec (regs : Regs) (left : Nat → Nat) {ti : TransferInformation} {o W : Nat}
    (hti : ti.Covers o W) :
    ∀ {fuel i : Nat} (buf : UserMem), i ≤ W → W - i < fuel →
      ∃ k r, readLoop regs left ti fuel (BitVec.ofNat 32 (4 * i)) buf = .ok r ∧
        StopsAt (fun j => left (4 * j) ≠ 0) i W k ∧
        r.n = BitVec.ofNat 32 (4 * k) ∧
        r.log = (List.range' i (min (k + 1) W - i)).map
          (fun j => .ioread32 ti.barStart (o + 4 * j : Nat)) ∧
        (∀ j, i ≤ j → j < k → ∀ b < 4, r.buf (4 * j + b) = Word.byte (wordAt regs ti.barStart o j) b) ∧
        (∀ b, b < 4 * i ∨ 4 * min (k + 1) W ≤ b → r.buf b = buf b) := by
  intro fuel
  induction fuel with
  | zero => intro i buf _ hfuel; omega
  | succ fuel ih =>
      intro i buf hi hfuel
      have hfit := hti.counterFits
      have hcounter : (BitVec.ofNat 32 (4 * i)).toNat = 4 * i := counter_toNat (by omega)
      rcases Nat.lt_or_eq_of_le hi with hlt | rfl
      · have hcond := (hti.counter_lt_iff hi).mpr hlt
        simp only [readLoop, hcond, if_true, hcounter, hti.wordOffset hlt]
        by_cases hfault : left (4 * i) = 0
        · -- the copy of word `i` succeeds: the rest of the loop starts at word `i + 1`
          obtain ⟨k, r, hr, hstop, hn, hlog, hcopied, hframe⟩ :=
            ih (i := i + 1) (copyToUser (left (4 * i)) buf (4 * i)
              (regs.ioread32 ti.barStart (o + 4 * i : Nat))) hlt (by omega)
          have hlower := hstop.lower
          have hupper := hstop.upper
          simp only [hfault, ne_eq, not_true_eq_false, if_false, counter_succ]
          rw [hfault] at hr
          rw [hr]
          refine ⟨k, _, rfl, hstop.cons (by simpa using hfault), hn, ?_, ?_, ?_⟩
          · have hlen : min (k + 1) W - i = (min (k + 1) W - (i + 1)) + 1 := by omega
            rw [hlog, hlen, List.range'_succ, List.map_cons]
          · intro j hij hjk b hb
            by_cases hj : j = i
            · subst hj
              rw [hframe _ (Or.inl (by omega)), hfault, copyToUser_inside hb]
              rfl
            · exact hcopied j (by omega) hjk b hb
          · intro b hb
            rw [hframe b (by omega), copyToUser_outside (by omega)]
        · simp only [hfault, ne_eq, not_false_eq_true, if_true]
          refine ⟨i, _, rfl, .of_fault hlt hfault, rfl, ?_, ?_, ?_⟩
          · have hlen : min (i + 1) W - i = 1 := by omega
            rw [hlen]
            rfl
          · intro j hij hji; omega
          · intro b hb
            exact copyToUser_outside (by omega)
      · have hcond := mt (hti.counter_lt_iff hi).mp (lt_irrefl i)
        simp only [readLoop, hcond, if_false]
        refine ⟨i, _, rfl, .done _ i, rfl, ?_, ?_, ?_⟩
        · simp
        · intro j hij hji; omega
        · intro b _; rfl

/-- A read whose check passed and which gets the mutex. -/
theorem read_of_covers {env : ReadEnv} {dv : PcieuniDev} (regs : Regs) (buf : UserMem)
    {count pos : BitVec 64} {ti : TransferInformation} {o W : Nat}
    (hcheck : checkAndCalculateTransferInformation dv count pos = .inr ti) (hti : ti.Covers o W)
    (hlock : mutexLockInterruptible dv.devMut env.intr = .acquired) (hfuel : W < env.fuel) :
    ∃ k r, pcieuniReadNoStructExp env regs dv buf count pos = .ok (dv, r) ∧
      StopsAt (fun j => env.left (4 * j) ≠ 0) 0 W k ∧
      r.ret = 4 * k ∧ r.fPos = pos + BitVec.ofNat 64 (4 * k) ∧
      r.log = (List.range (min (k + 1) W)).map
        (fun j => .ioread32 ti.barStart (o + 4 * j : Nat)) ∧
      (∀ j < k, ∀ b < 4, r.buf (4 * j + b) = Word.byte (wordAt regs ti.barStart o j) b) ∧
      (∀ b, 4 * min (k + 1) W ≤ b → r.buf b = buf b) := by
  obtain ⟨k, r, hr, hstop, hn, hlog, hcopied, hframe⟩ :=
    readLoop_spec regs env.left hti buf (Nat.zero_le W) (by simpa using hfuel)
  have hfit : 4 * k < 2 ^ 32 := by
    have hupper := hstop.upper
    have hfit := hti.counterFits
    omega
  have hr' : readLoop regs env.left ti env.fuel 0 buf = .ok r := hr
  simp only [pcieuniReadNoStructExp, hcheck, hlock, hr', hn, counter_setWidth hfit,
    counter_toNat hfit, PcieuniDev.unlocked (mutexLockInterruptible_acquired.mp hlock).1]
  refine ⟨k, _, rfl, hstop, by simp, rfl, ?_, ?_, ?_⟩
  · simpa [List.range_eq_range'] using hlog
  · intro j hj b hb
    exact hcopied j (Nat.zero_le j) hj b hb
  · intro b hb
    exact hframe b (Or.inr hb)

/-- Whatever the fuel, a read loop that ends has read words that it covers. -/
theorem readLoop_words {regs : Regs} {left : Nat → Nat} {ti : TransferInformation} {o W fuel i : Nat}
    {buf : UserMem} {r : ReadLoop} (hti : ti.Covers o W) (hi : i ≤ W)
    (h : readLoop regs left ti fuel (BitVec.ofNat 32 (4 * i)) buf = .ok r) :
    ∀ e ∈ r.log, ∃ j < W, e = .ioread32 ti.barStart (o + 4 * j : Nat) := by
  induction fuel generalizing i buf r with
  | zero => cases h
  | succ fuel ih =>
      simp only [readLoop] at h
      split at h
      · rename_i hcond
        have hlt := (hti.counter_lt_iff hi).mp hcond
        rw [hti.wordOffset hlt] at h
        split at h
        · cases h
          intro e he
          exact ⟨i, hlt, List.mem_singleton.mp he⟩
        · split at h
          · cases h
          rename_i r' hrest
          rw [counter_succ] at hrest
          cases h
          intro e he
          rcases List.mem_cons.mp he with rfl | hmem
          · exact ⟨i, hlt, rfl⟩
          · exact ih hlt hrest e hmem
      · cases h
        intro e he
        cases he

/-! ## The exact read -/

/-- The length of a BAR: the resource's end is inclusive. -/
def Bar.length (b : Bar) : Nat := (b.memBaseEnd - b.memBase).toNat + 1

/-- What a read of `count` bytes at byte `o` of a BAR of length `L` does. The
request and the BAR have `min count (L - o) / 4` words in common; the read stops
at the first of them whose copy faults. -/
structure ExactRead (env : ReadEnv) (regs : Regs) (dv : PcieuniDev) (buf : UserMem)
    (count pos : BitVec 64) (m : Iomem) (o L : Nat) : Prop where
  /-- The loop's counter, the offset and the position stay below their bounds. -/
  noWrap : ∃ ti, checkAndCalculateTransferInformation dv count pos = .inr ti ∧ ti.barStart = m ∧
    ti.Covers o (min count.toNat (L - o) / 4) ∧ o + count.toNat < 2 ^ 64 ∧
    pos.toNat + 4 * (min count.toNat (L - o) / 4) < 2 ^ 63
  inside : ∀ j < min count.toNat (L - o) / 4, o + 4 * j + 4 ≤ L
  result : mutexLockInterruptible dv.devMut env.intr = .acquired →
    ∃ k r, pcieuniReadNoStructExp env regs dv buf count pos = .ok (dv, r) ∧
      StopsAt (fun j => env.left (4 * j) ≠ 0) 0 (min count.toNat (L - o) / 4) k ∧
      r.ret = 4 * k ∧ r.fPos.toNat = pos.toNat + 4 * k ∧
      r.log = (List.range (min (k + 1) (min count.toNat (L - o) / 4))).map
        (fun j => .ioread32 m (o + 4 * j : Nat)) ∧
      (∀ j < k, ∀ b < 4,
        r.buf (4 * j + b) = Word.byte (regs m.dev m.bar (o + 4 * j : Nat)) b) ∧
      (∀ b, 4 * min (k + 1) (min count.toNat (L - o) / 4) ≤ b → r.buf b = buf b)
  /-- A signal during the lock attempt ends the call before any access. -/
  interrupted : mutexLockInterruptible dv.devMut env.intr = .interrupted →
    pcieuniReadNoStructExp env regs dv buf count pos = .ok (dv, ⟨-erestartsys, pos, buf, []⟩)

theorem position_toNat (n : Fin 6) {o : Nat} (ho : o < 2 ^ 60) :
    (pcieuniBarOffsets n + BitVec.ofNat 64 o).toNat = n * 2 ^ 60 + o := by
  have hn := n.isLt
  rw [BitVec.toNat_add, pcieuniBarOffsets, BitVec.toNat_shiftLeft, BitVec.toNat_ofNat,
    BitVec.toNat_ofNat, Nat.shiftLeft_eq]
  omega

/-- The request is for whole words of BAR `n`, which is mapped at `m`, and starts
inside it. -/
structure Addresses (dv : PcieuniDev) (count pos : BitVec 64) (n : Fin 6) (m : Iomem) : Prop where
  devSts : dv.devSts ≠ 0
  bar : (n : Nat) = pos.toNat / 2 ^ 60 % 8
  mapped : (dv.bar n).memmoryBase = some m
  posAligned : pos.toNat % 4 = 0
  countAligned : count.toNat % 4 = 0
  inside : pos.toNat % 2 ^ 60 < (dv.bar n).length

/-- Such a request passes the check. -/
theorem Addresses.check {dv : PcieuniDev} {count pos : BitVec 64} {n : Fin 6} {m : Iomem}
    (h : Addresses dv count pos n m) :
    ∃ ti, checkAndCalculateTransferInformation dv count pos = .inr ti ∧
      Accepted dv count pos ti n := by
  obtain ⟨ti, hcheck⟩ := check_inr_of count pos h.devSts h.posAligned h.countAligned h.bar h.mapped
    (Nat.le_of_lt_succ h.inside)
  obtain ⟨n', hacc⟩ := check_inr hcheck
  obtain rfl : n' = n := Fin.ext (hacc.bar.trans h.bar.symm)
  exact ⟨ti, hcheck, hacc⟩

/-- A position that user space builds for a byte of a mapped BAR. -/
theorem addresses_of_offset {dv : PcieuniDev} {count : BitVec 64} {n : Fin 6} {m : Iomem} {o : Nat}
    (hsts : dv.devSts ≠ 0) (hm : (dv.bar n).memmoryBase = some m) (ho : o % 4 = 0)
    (hoL : o < (dv.bar n).length) (hcount4 : count.toNat % 4 = 0) :
    Addresses dv count (pcieuniBarOffsets n + BitVec.ofNat 64 o) n m ∧
      (pcieuniBarOffsets n + BitVec.ofNat 64 o).toNat % 2 ^ 60 = o := by
  have hL : (dv.bar n).length ≤ 2 ^ 32 := ((dv.bar n).memBaseEnd - (dv.bar n).memBase).isLt
  have hpos := position_toNat n (o := o) (by omega)
  have hn := n.isLt
  have hmod : (pcieuniBarOffsets n + BitVec.ofNat 64 o).toNat % 2 ^ 60 = o := by omega
  exact ⟨⟨hsts, by omega, hm, by omega, hcount4, by rw [hmod]; exact hoL⟩, hmod⟩

/-- A request at byte `o` of BAR `n`, not beyond its last byte, passes the check. -/
theorem check_covers {dv : PcieuniDev} {count : BitVec 64} {n : Fin 6} {m : Iomem} {o : Nat}
    (hsts : dv.devSts ≠ 0) (hm : (dv.bar n).memmoryBase = some m)
    (hlen : (dv.bar n).length % 4 = 0) (ho : o % 4 = 0) (hoL : o < (dv.bar n).length)
    (hcount4 : count.toNat % 4 = 0) (hcount : count.toNat ≤ 0x7ffff000) :
    ∃ ti, checkAndCalculateTransferInformation dv count (pcieuniBarOffsets n + BitVec.ofNat 64 o) =
      .inr ti ∧ ti.barStart = m ∧ ti.Covers o (min count.toNat ((dv.bar n).length - o) / 4) := by
  obtain ⟨hreq, hmod⟩ := addresses_of_offset hsts hm ho hoL hcount4
  obtain ⟨ti, hcheck, hacc⟩ := hreq.check
  have hcov := covers_of_check hacc hcount hlen
  rw [hmod] at hcov
  exact ⟨ti, hcheck, Option.some.inj (hacc.barStart.symm.trans hm), hcov⟩

/-- Reading whole words at byte `o` of BAR `n`: for every length, offset, count
and pattern of copy faults, the read is exact. The fuel covers every count that
the VFS lets through. -/
theorem pcieuniReadNoStructExp_exact {env : ReadEnv} {regs : Regs} {dv : PcieuniDev}
    {buf : UserMem} {count : BitVec 64} {n : Fin 6} {m : Iomem} {o : Nat}
    (hsts : dv.devSts = 1) (hm : (dv.bar n).memmoryBase = some m)
    (hlen : (dv.bar n).length % 4 = 0) (ho : o % 4 = 0) (hoL : o < (dv.bar n).length)
    (hcount4 : count.toNat % 4 = 0) (hcount : count.toNat ≤ 0x7ffff000)
    (hfuel : 2 ^ 29 ≤ env.fuel) :
    ExactRead env regs dv buf count (pcieuniBarOffsets n + BitVec.ofNat 64 o) m o
      (dv.bar n).length := by
  have hL : (dv.bar n).length ≤ 2 ^ 32 := ((dv.bar n).memBaseEnd - (dv.bar n).memBase).isLt
  have hpos := position_toNat n (o := o) (by omega)
  have hn := n.isLt
  obtain ⟨ti, hcheck, hstart, hcov⟩ :=
    check_covers (by rw [hsts]; decide) hm hlen ho hoL hcount4 hcount
  have hW : min count.toNat ((dv.bar n).length - o) / 4 < 2 ^ 29 := by omega
  refine ⟨⟨ti, hcheck, hstart, hcov, by omega, by omega⟩, by omega, ?_, ?_⟩
  · intro hlock
    obtain ⟨k, r, hr, hstop, hret, hfpos, hlog, hcopied, hframe⟩ :=
      read_of_covers regs buf hcheck hcov hlock (by omega)
    have hupper := hstop.upper
    subst hstart
    refine ⟨k, r, hr, hstop, hret, ?_, hlog, hcopied, hframe⟩
    rw [hfpos, BitVec.toNat_add, BitVec.toNat_ofNat]
    omega
  · intro hlock
    simp only [pcieuniReadNoStructExp, hcheck, hlock]

/-- A bound device with one BAR, BAR 1, of four kilobytes. -/
private def oneBarDev : PcieuniDev :=
  { devSts := 1
    bar := fun n =>
      if n = 1 then
        { memBase := 0x1000, memBaseEnd := 0x1fff, memmoryBase := some ⟨7, 1, 0⟩ }
      else {} }

/-- A request for four words of which the BAR has only two, the second faulting. -/
theorem pcieuniReadNoStructExp_exact_lastWords :
    ExactRead { left := fun b => if b = 4 then 2 else 0, fuel := 2 ^ 29 } (fun _ _ _ => 0xcafe)
      oneBarDev (fun _ => 0) 16 (pcieuniBarOffsets 1 + BitVec.ofNat 64 0xff8) ⟨7, 1, 0⟩ 0xff8
      (oneBarDev.bar 1).length :=
  pcieuniReadNoStructExp_exact (n := 1) rfl rfl (by decide) (by decide) (by decide) (by decide)
    (by decide) (le_refl _)

/-! ## The write loop -/

/-- The write loop from word `i` on. It changes exactly the words before the one
whose copy faults. -/
theorem writeLoop_spec (buf : UserMem) (fault : Nat → Bool) {ti : TransferInformation} {o W : Nat}
    (hti : ti.Covers o W) :
    ∀ {fuel i : Nat} (regs : Regs), i ≤ W → W - i < fuel →
      ∃ k r, writeLoop buf fault ti fuel (BitVec.ofNat 32 (4 * i)) regs = .ok r ∧
        StopsAt (fun j => fault (4 * j) = true) i W k ∧
        r.n = BitVec.ofNat 32 (4 * k) ∧
        r.log = (List.range' i (k - i)).map
          (fun j => .iowrite32 ti.barStart (o + 4 * j : Nat) (copyFromUser buf (4 * j))) ∧
        (∀ j, i ≤ j → j < k → wordAt r.regs ti.barStart o j = copyFromUser buf (4 * j)) ∧
        (∀ d b (off : Int), ¬ (d = ti.barStart.dev ∧ b = ti.barStart.bar ∧
          ∃ j, i ≤ j ∧ j < k ∧ off = (o + 4 * j : Nat)) → r.regs d b off = regs d b off) := by
  intro fuel
  induction fuel with
  | zero => intro i regs _ hfuel; omega
  | succ fuel ih =>
      intro i regs hi hfuel
      have hfit := hti.counterFits
      have hcounter : (BitVec.ofNat 32 (4 * i)).toNat = 4 * i := counter_toNat (by omega)
      rcases Nat.lt_or_eq_of_le hi with hlt | rfl
      · have hcond := (hti.counter_lt_iff hi).mpr hlt
        simp only [writeLoop, hcond, if_true, hcounter, hti.wordOffset hlt]
        cases hfault : fault (4 * i) with
        | false =>
          obtain ⟨k, r, hr, hstop, hn, hlog, hwritten, hframe⟩ :=
            ih (i := i + 1) (regs.iowrite32 ti.barStart (o + 4 * i : Nat)
              (copyFromUser buf (4 * i))) hlt (by omega)
          have hlower := hstop.lower
          simp only [counter_succ, hr, Bool.false_eq_true, if_false]
          refine ⟨k, _, rfl, hstop.cons (by simp [hfault]), hn, ?_, ?_, ?_⟩
          · have hlen : k - i = (k - (i + 1)) + 1 := by omega
            rw [hlog, hlen, List.range'_succ, List.map_cons]
          · intro j hij hjk
            by_cases hj : j = i
            · -- later words lie at other offsets, so word `i` keeps what was written
              subst hj
              have hkeep := hframe ti.barStart.dev ti.barStart.bar (o + 4 * j : Nat) (by
                rintro ⟨-, -, l, hl, -, heq⟩
                omega)
              rw [wordAt, hkeep, Regs.iowrite32_same]
            · exact hwritten j (by omega) hjk
          · intro d b off hout
            rw [hframe d b off, Regs.iowrite32_ne]
            · rintro ⟨hd, hb, hoff⟩
              exact hout ⟨hd, hb, i, le_refl i, by omega, hoff⟩
            · rintro ⟨hd, hb, j, hij, hjk, hoff⟩
              exact hout ⟨hd, hb, j, by omega, hjk, hoff⟩
        | true =>
          simp only [if_true]
          refine ⟨i, _, rfl, .of_fault hlt hfault, rfl, by simp, ?_, ?_⟩
          · intro j hij hji; omega
          · intro d b off _; rfl
      · have hcond := mt (hti.counter_lt_iff hi).mp (lt_irrefl i)
        simp only [writeLoop, hcond, if_false]
        refine ⟨i, _, rfl, .done _ i, rfl, by simp, ?_, ?_⟩
        · intro j hij hji; omega
        · intro d b off _; rfl

/-- A write whose check passed and which gets the mutex. -/
theorem write_of_covers {env : WriteEnv} {dv : PcieuniDev} (regs : Regs) (buf : UserMem)
    {count pos : BitVec 64} {ti : TransferInformation} {o W : Nat}
    (hcheck : checkAndCalculateTransferInformation dv count pos = .inr ti) (hti : ti.Covers o W)
    (hlock : mutexLockInterruptible dv.devMut env.intr = .acquired) (hfuel : W < env.fuel) :
    ∃ k r, pcieuniWriteNoStructExp env regs dv buf count pos = .ok (dv, r) ∧
      StopsAt (fun j => env.fault (4 * j) = true) 0 W k ∧
      r.ret = 4 * k ∧ r.fPos = pos + BitVec.ofNat 64 (4 * k) ∧
      r.log = (List.range k).map
        (fun j => .iowrite32 ti.barStart (o + 4 * j : Nat) (copyFromUser buf (4 * j))) ∧
      (∀ j < k, wordAt r.regs ti.barStart o j = copyFromUser buf (4 * j)) ∧
      (∀ d b (off : Int), ¬ (d = ti.barStart.dev ∧ b = ti.barStart.bar ∧
        ∃ j < k, off = (o + 4 * j : Nat)) → r.regs d b off = regs d b off) := by
  obtain ⟨k, r, hr, hstop, hn, hlog, hwritten, hframe⟩ :=
    writeLoop_spec buf env.fault hti regs (Nat.zero_le W) (by simpa using hfuel)
  have hfit : 4 * k < 2 ^ 32 := by
    have hupper := hstop.upper
    have hfit := hti.counterFits
    omega
  have hr' : writeLoop buf env.fault ti env.fuel 0 regs = .ok r := hr
  simp only [pcieuniWriteNoStructExp, hcheck, hlock, hr', hn, counter_setWidth hfit,
    counter_toNat hfit, PcieuniDev.unlocked (mutexLockInterruptible_acquired.mp hlock).1]
  refine ⟨k, _, rfl, hstop, by simp, rfl, ?_, ?_, ?_⟩
  · simpa [List.range_eq_range'] using hlog
  · intro j hj
    exact hwritten j (Nat.zero_le j) hj
  · intro d b off hout
    apply hframe d b off
    rintro ⟨hd, hb, j, -, hjk, hoff⟩
    exact hout ⟨hd, hb, j, hjk, hoff⟩

/-- Whatever the fuel, a write loop that ends has written words that it covers. -/
theorem writeLoop_words {buf : UserMem} {fault : Nat → Bool} {ti : TransferInformation}
    {o W fuel i : Nat} {regs : Regs} {r : WriteLoop} (hti : ti.Covers o W) (hi : i ≤ W)
    (h : writeLoop buf fault ti fuel (BitVec.ofNat 32 (4 * i)) regs = .ok r) :
    ∀ e ∈ r.log, ∃ j < W, ∃ w, e = .iowrite32 ti.barStart (o + 4 * j : Nat) w := by
  induction fuel generalizing i regs r with
  | zero => cases h
  | succ fuel ih =>
      simp only [writeLoop] at h
      split at h
      · rename_i hcond
        have hlt := (hti.counter_lt_iff hi).mp hcond
        rw [hti.wordOffset hlt] at h
        split at h
        · cases h
          intro e he
          cases he
        · split at h
          · cases h
          rename_i r' hrest
          rw [counter_succ] at hrest
          cases h
          intro e he
          rcases List.mem_cons.mp he with rfl | hmem
          · exact ⟨i, hlt, _, rfl⟩
          · exact ih hlt hrest e hmem
      · cases h
        intro e he
        cases he

/-! ## The round trip -/

/-- The `4 * k` bytes of `buf` stand in the words of a mapping from byte `o` on,
and every other word of every BAR is as it was. -/
structure Stored (regs regs' : Regs) (m : Iomem) (o k : Nat) (buf : UserMem) : Prop where
  holds : ∀ j < k, ∀ b < 4, Word.byte (regs' m.dev m.bar (o + 4 * j : Nat)) b = buf (4 * j + b)
  frame : ∀ d b (off : Int), ¬ (d = m.dev ∧ b = m.bar ∧ ∃ j < k, off = (o + 4 * j : Nat)) →
    regs' d b off = regs d b off

/-- Without faults a loop runs to its end. -/
theorem StopsAt.eq_of_no_fault {fault : Nat → Prop} {i W k : Nat} (h : StopsAt fault i W k)
    (hno : ∀ j, ¬ fault j) : k = W := by
  by_contra hne
  exact hno k (h.atFault (lt_of_le_of_ne h.upper hne))

/-- A loop over `W` words of which word `l` is the only one to fault stops there. -/
theorem StopsAt.eq_of_single {fault : Nat → Prop} {l W k : Nat} (h : StopsAt fault 0 W k)
    (hl : l ≤ W) (hfault : ∀ j, fault j ↔ j = l) : k = l := by
  rcases Nat.lt_or_eq_of_le h.upper with hlt | rfl
  · exact (hfault k).mp (h.atFault hlt)
  · by_contra hne
    exact h.before l (Nat.zero_le _) (by omega) ((hfault l).mpr rfl)

/-- A fault-free read of `4 * k` bytes that lie inside the BAR returns them all. -/
theorem read_back {env : ReadEnv} {dv : PcieuniDev} (regs : Regs) (buf : UserMem)
    {count pos : BitVec 64} {ti : TransferInformation} {n : Fin 6} {k : Nat}
    (hacc : Accepted dv count pos ti n) (hlen : (dv.bar n).length % 4 = 0)
    (hk : pos.toNat % 2 ^ 60 + 4 * k ≤ (dv.bar n).length) (hk31 : 4 * k ≤ 0x7ffff000)
    (hlock : mutexLockInterruptible dv.devMut env.intr = .acquired)
    (hleft : ∀ b, env.left b = 0) (hfuel : 2 ^ 29 ≤ env.fuel) :
    ∃ r, pcieuniReadNoStructExp env regs dv buf (BitVec.ofNat 64 (4 * k)) pos = .ok (dv, r) ∧
      r.ret = 4 * k ∧
      ∀ j < k, ∀ b < 4,
        r.buf (4 * j + b) = Word.byte (wordAt regs ti.barStart (pos.toNat % 2 ^ 60) j) b := by
  have hk64 : (BitVec.ofNat 64 (4 * k)).toNat = 4 * k := by rw [BitVec.toNat_ofNat]; omega
  have hoff := hacc.offset_le
  rw [hacc.offset, hacc.size] at hoff
  have hreq : Addresses dv (BitVec.ofNat 64 (4 * k)) pos n ti.barStart :=
    ⟨hacc.devSts, hacc.bar, hacc.barStart, hacc.posAligned, by omega, Nat.lt_succ_of_le hoff⟩
  obtain ⟨ti', hcheck, hacc'⟩ := hreq.check
  have hstart : ti'.barStart = ti.barStart :=
    Option.some.inj (hacc'.barStart.symm.trans hacc.barStart)
  have hcov := covers_of_check hacc' (by omega) hlen
  have hwords : min (BitVec.ofNat 64 (4 * k)).toNat
      (((dv.bar n).memBaseEnd - (dv.bar n).memBase).toNat + 1 - pos.toNat % 2 ^ 60) / 4 = k := by
    simp only [Bar.length] at hk
    omega
  rw [hwords] at hcov
  obtain ⟨k', r, hr, hstop, hret, -, -, hcopied, -⟩ :=
    read_of_covers regs buf hcheck hcov hlock (by omega)
  obtain rfl : k' = k := hstop.eq_of_no_fault (fun j h => h (hleft _))
  exact ⟨r, hr, hret, fun j hj b hb => by rw [hcopied j hj b hb, hstart]⟩

/-- What a write to the device `dv` does, and what a read of the same bytes finds.
A write that returns `r ≥ 0` has stored the first `r` bytes of the buffer at
`[o, o + r)` of the addressed BAR, and a fault-free read of `r` bytes at the same
position returns them. A fault-free write stores all words that the request and
the BAR have in common. -/
structure RoundTrip (env : WriteEnv) (regs : Regs) (dv : PcieuniDev) (buf : UserMem)
    (count pos : BitVec 64) : Prop where
  returns : mutexLockInterruptible dv.devMut env.intr ≠ .blocked →
    ∃ r, pcieuniWriteNoStructExp env regs dv buf count pos = .ok (dv, r)
  failed : ∀ dv' r, pcieuniWriteNoStructExp env regs dv buf count pos = .ok (dv', r) →
    r.ret < 0 → r.regs = regs ∧ r.fPos = pos
  stored : ∀ dv' r, pcieuniWriteNoStructExp env regs dv buf count pos = .ok (dv', r) →
    0 ≤ r.ret → ∃ (n : Fin 6) (m : Iomem) (k : Nat),
      (n : Nat) = pos.toNat / 2 ^ 60 % 8 ∧ (dv.bar n).memmoryBase = some m ∧
      r.ret = 4 * k ∧ r.fPos.toNat = pos.toNat + 4 * k ∧
      pos.toNat % 2 ^ 60 + 4 * k ≤ (dv.bar n).length ∧
      Stored regs r.regs m (pos.toNat % 2 ^ 60) k buf ∧
      ∀ (renv : ReadEnv) (buf' : UserMem), renv.intr = false → (∀ b, renv.left b = 0) →
        2 ^ 29 ≤ renv.fuel →
        ∃ r', pcieuniReadNoStructExp renv r.regs dv' buf' (BitVec.ofInt 64 r.ret) pos
            = .ok (dv', r') ∧
          r'.ret = r.ret ∧ ∀ b < 4 * k, r'.buf b = buf b
  full : ∀ n m, Addresses dv count pos n m →
    mutexLockInterruptible dv.devMut env.intr = .acquired → (∀ b, env.fault b = false) →
    ∃ r, pcieuniWriteNoStructExp env regs dv buf count pos = .ok (dv, r) ∧
      r.ret = (min count.toNat ((dv.bar n).length - pos.toNat % 2 ^ 60) : Nat)

/-- A write that only returns an error. -/
theorem RoundTrip.of_error {env : WriteEnv} {regs : Regs} {dv : PcieuniDev} {buf : UserMem}
    {count pos : BitVec 64} {err : Int} (herr : err < 0)
    (hcause : ∀ n m, Addresses dv count pos n m →
      mutexLockInterruptible dv.devMut env.intr ≠ .acquired)
    (h : pcieuniWriteNoStructExp env regs dv buf count pos = .ok (dv, ⟨err, pos, regs, []⟩)) :
    RoundTrip env regs dv buf count pos := by
  refine ⟨fun _ => ⟨_, h⟩, fun dv' r hr _ => ?_, fun dv' r hr hnonneg => ?_,
    fun n m hreq hlock _ => absurd hlock (hcause n m hreq)⟩
  · cases h.symm.trans hr
    exact ⟨rfl, rfl⟩
  · cases h.symm.trans hr
    exact absurd hnonneg (not_le.mpr herr)

/-- A write that passes the check and gets the mutex. -/
theorem RoundTrip.of_acquired {env : WriteEnv} {regs : Regs} {dv : PcieuniDev} {buf : UserMem}
    {count pos : BitVec 64} {ti : TransferInformation} {n : Fin 6}
    (hcheck : checkAndCalculateTransferInformation dv count pos = .inr ti)
    (hacc : Accepted dv count pos ti n) (hlen : (dv.bar n).length % 4 = 0)
    (hcount : count.toNat ≤ 0x7ffff000) (hfuel : 2 ^ 29 ≤ env.fuel)
    (hlock : mutexLockInterruptible dv.devMut env.intr = .acquired) :
    RoundTrip env regs dv buf count pos := by
  have hoff := hacc.offset_le
  rw [hacc.offset, hacc.size] at hoff
  have h32 := ((dv.bar n).memBaseEnd - (dv.bar n).memBase).isLt
  have hpos64 := pos.isLt
  obtain ⟨k, r, hr, hstop, hret, hfpos, -, hwritten, hframe⟩ :=
    write_of_covers regs buf hcheck (covers_of_check hacc hcount hlen) hlock (by omega)
  have hk := hstop.upper
  have hkL : pos.toNat % 2 ^ 60 + 4 * k ≤ (dv.bar n).length := by
    simp only [Bar.length]; omega
  have hstored : Stored regs r.regs ti.barStart (pos.toNat % 2 ^ 60) k buf := by
    refine ⟨fun j hj b hb => ?_, hframe⟩
    have hword := hwritten j hj
    rw [wordAt] at hword
    rw [hword, copyFromUser, Word.byte_ofBytes _ hb]
  refine ⟨fun _ => ⟨r, hr⟩, fun dv' r' hr' hneg => ?_, fun dv' r' hr' _ => ?_,
    fun n' m hreq _ hno => ⟨r, hr, ?_⟩⟩
  · cases hr.symm.trans hr'
    exact absurd hneg (by omega)
  · cases hr.symm.trans hr'
    refine ⟨n, ti.barStart, k, hacc.bar, hacc.barStart, hret, ?_, hkL, hstored, ?_⟩
    · rw [hfpos, BitVec.toNat_add, BitVec.toNat_ofNat]; omega
    · intro renv buf' hrintr hleft hrfuel
      have hrlock : mutexLockInterruptible dv.devMut renv.intr = .acquired :=
        mutexLockInterruptible_acquired.mpr
          ⟨(mutexLockInterruptible_acquired.mp hlock).1, hrintr⟩
      obtain ⟨r', hr', hret', hbytes⟩ :=
        read_back r.regs buf' hacc hlen hkL (by omega) hrlock hleft hrfuel
      have hcnt : BitVec.ofInt 64 r.ret = BitVec.ofNat 64 (4 * k) := by
        rw [hret]; exact BitVec.ofInt_natCast 64 (4 * k)
      rw [hcnt]
      refine ⟨r', hr', by rw [hret', hret], fun b hb => ?_⟩
      have hsplit : b = 4 * (b / 4) + b % 4 := by omega
      rw [hsplit, hbytes (b / 4) (by omega) (b % 4) (by omega), wordAt,
        hstored.holds (b / 4) (by omega) (b % 4) (by omega)]
  · -- no word faults, so the loop has come to its end
    obtain rfl : n' = n := Fin.ext (hreq.bar.trans hacc.bar.symm)
    have hall := hstop.eq_of_no_fault fun j => by simp [hno]
    have hcountAligned := hreq.countAligned
    have hposAligned := hreq.posAligned
    rw [hret, hall]
    simp only [Bar.length] at hlen ⊢
    omega

/-- For every position, count, buffer and pattern of copy faults, what a write
stores is what a read finds. -/
theorem pcieuniWriteNoStructExp_roundTrip {env : WriteEnv} {regs : Regs} {dv : PcieuniDev}
    {buf : UserMem} {count pos : BitVec 64}
    (hlen : ∀ n m, (dv.bar n).memmoryBase = some m → (dv.bar n).length % 4 = 0)
    (hcount : count.toNat ≤ 0x7ffff000) (hfuel : 2 ^ 29 ≤ env.fuel) :
    RoundTrip env regs dv buf count pos := by
  cases hcheck : checkAndCalculateTransferInformation dv count pos with
  | inl err =>
    have hfailed : pcieuniWriteNoStructExp env regs dv buf count pos
        = .ok (dv, ⟨err, pos, regs, []⟩) := by
      simp only [pcieuniWriteNoStructExp, hcheck]
    refine .of_error (by simp [check_inl hcheck, efault]) (fun n m hreq => ?_) hfailed
    obtain ⟨ti, hin, -⟩ := hreq.check
    cases hcheck.symm.trans hin
  | inr ti =>
    obtain ⟨n, hacc⟩ := check_inr hcheck
    cases hlock : mutexLockInterruptible dv.devMut env.intr with
    | interrupted =>
      have hfailed : pcieuniWriteNoStructExp env regs dv buf count pos
          = .ok (dv, ⟨-erestartsys, pos, regs, []⟩) := by
        simp only [pcieuniWriteNoStructExp, hcheck, hlock]
      exact .of_error (by simp [erestartsys]) (fun _ _ _ => by simp [hlock]) hfailed
    | blocked =>
      have hblocked : pcieuniWriteNoStructExp env regs dv buf count pos = .error .blocked := by
        simp only [pcieuniWriteNoStructExp, hcheck, hlock]
      refine ⟨fun h => absurd hlock h, fun dv' r hr => ?_, fun dv' r hr => ?_,
        fun _ _ _ hfree => by simp [hlock] at hfree⟩
      · cases hblocked.symm.trans hr
      · cases hblocked.symm.trans hr
    | acquired => exact .of_acquired hcheck hacc (hlen n _ hacc.barStart) hcount hfuel hlock

/-- A write of two words to the end of the BAR, with the second word faulting, and
one of four words, which the end of the BAR cuts to two. -/
theorem pcieuniWriteNoStructExp_roundTrip_fault :
    RoundTrip { fault := fun b => b == 4, fuel := 2 ^ 29 } (fun _ _ _ => 0) oneBarDev
      (fun b => BitVec.ofNat 8 b) 8 (pcieuniBarOffsets 1 + 0xff8#64) ∧
    ∃ r, pcieuniWriteNoStructExp { fuel := 2 ^ 29 } (fun _ _ _ => 0) oneBarDev
        (fun b => BitVec.ofNat 8 b) 16 (pcieuniBarOffsets 1 + 0xff8#64) = .ok (oneBarDev, r) ∧
      r.ret = 8 := by
  have hlen : ∀ n m, (oneBarDev.bar n).memmoryBase = some m →
      (oneBarDev.bar n).length % 4 = 0 := by
    intro n m hm
    by_cases hn : n = 1
    · subst hn; decide
    · simp [oneBarDev, hn] at hm
  exact ⟨pcieuniWriteNoStructExp_roundTrip hlen (by decide) (le_refl _),
    (pcieuniWriteNoStructExp_roundTrip hlen (by decide) (le_refl _)).full 1 ⟨7, 1, 0⟩
      ⟨by decide, by decide, rfl, by decide, by decide, by decide⟩ rfl fun _ => rfl⟩

/-! ## One word -/

/-- A request for one word that lies inside the BAR covers one word, also when it
is the last one and the byte count is clipped to three. -/
theorem covers_word {dv : PcieuniDev} {pos : BitVec 64} {ti : TransferInformation} {n : Fin 6}
    (h : Accepted dv 4 pos ti n) (hin : pos.toNat % 2 ^ 60 + 4 ≤ (dv.bar n).length) :
    ti.Covers (pos.toNat % 2 ^ 60) 1 := by
  have hsize := h.size
  have hoff := h.offset
  have haligned := h.posAligned
  have hlt := ((dv.bar n).memBaseEnd - (dv.bar n).memBase).isLt
  unfold Bar.length at hin
  have hfour : BitVec.toNat (4 : BitVec 64) = 4 := rfl
  have hsum : (ti.offset + 4).toNat = ti.offset.toNat + 4 := by
    rw [BitVec.toNat_add, hfour]
    omega
  have hbytes : ti.nBytesToTransfer.toNat = 3 ∨ ti.nBytesToTransfer.toNat = 4 := by
    rw [h.nBytes]
    split
    · rename_i hclip
      rw [BitVec.lt_def, hsum] at hclip
      left
      rw [BitVec.toNat_setWidth, BitVec.toNat_sub_of_le (BitVec.le_def.mpr h.offset_le)]
      omega
    · exact .inr rfl
  exact ⟨hoff, by omega, fun i => by omega, by omega, by omega⟩

/-- The request for the word at byte `o` of BAR `n`. -/
theorem check_word {dv : PcieuniDev} {n : Fin 6} {m : Iomem} {o : Nat} (hsts : dv.devSts ≠ 0)
    (hm : (dv.bar n).memmoryBase = some m) (ho : o % 4 = 0) (hin : o + 4 ≤ (dv.bar n).length) :
    ∃ ti, checkAndCalculateTransferInformation dv 4 (pcieuniBarOffsets n + BitVec.ofNat 64 o) =
      .inr ti ∧ ti.Covers o 1 ∧ ti.barStart = m := by
  obtain ⟨hreq, hmod⟩ := addresses_of_offset hsts hm ho (by omega) (show BitVec.toNat (4 : BitVec 64) % 4 = 0 from rfl)
  obtain ⟨ti, hcheck, hacc⟩ := hreq.check
  have hcov := covers_word hacc (by rw [hmod]; exact hin)
  rw [hmod] at hcov
  exact ⟨ti, hcheck, hcov, Option.some.inj (hacc.barStart.symm.trans hm)⟩

section OneWord

variable {dv : PcieuniDev} {n : Fin 6} {m : Iomem} {o : Nat} (hsts : dv.devSts ≠ 0)
  (hm : (dv.bar n).memmoryBase = some m) (ho : o % 4 = 0) (hin : o + 4 ≤ (dv.bar n).length)

include hsts hm ho hin

/-- Reading the word at byte `o` of a BAR reads the register at byte `o` of its
mapping. -/
theorem read_word {env : ReadEnv} (regs : Regs) (buf : UserMem)
    (hlock : mutexLockInterruptible dv.devMut env.intr = .acquired) (hfuel : 1 < env.fuel) :
    ∃ r, pcieuniReadNoStructExp env regs dv buf 4 (pcieuniBarOffsets n + BitVec.ofNat 64 o) =
      .ok (dv, r) ∧ r.log = [.ioread32 m o] := by
  obtain ⟨ti, hcheck, hcov, rfl⟩ := check_word hsts hm ho hin
  obtain ⟨k, r, hr, -, -, -, hlog, -, -⟩ := read_of_covers regs buf hcheck hcov hlock hfuel
  refine ⟨r, hr, ?_⟩
  rw [hlog, show min (k + 1) 1 = 1 by omega]
  rfl

/-- Writing the word at byte `o` of a BAR writes the register at byte `o` of its
mapping. -/
theorem write_word {env : WriteEnv} (regs : Regs) (buf : UserMem)
    (hlock : mutexLockInterruptible dv.devMut env.intr = .acquired) (hfuel : 1 < env.fuel)
    (hfault : env.fault 0 = false) :
    ∃ r, pcieuniWriteNoStructExp env regs dv buf 4 (pcieuniBarOffsets n + BitVec.ofNat 64 o) =
      .ok (dv, r) ∧ r.log = [.iowrite32 m o (copyFromUser buf 0)] := by
  obtain ⟨ti, hcheck, hcov, rfl⟩ := check_word hsts hm ho hin
  obtain ⟨k, r, hr, hstop, -, -, hlog, -⟩ := write_of_covers regs buf hcheck hcov hlock hfuel
  have hk : k = 1 := by
    have hupper := hstop.upper
    by_contra hne
    obtain rfl : k = 0 := by omega
    have hzero : env.fault 0 = true := hstop.atFault (by omega)
    rw [hfault] at hzero
    cases hzero
  refine ⟨r, hr, ?_⟩
  rw [hlog, hk]
  rfl

end OneWord

/-! ## What a transfer depends on -/

/-- A read loop sees the registers of its own device only. -/
theorem readLoop_congr {regs regs' : Regs} (left : Nat → Nat) {ti : TransferInformation}
    (hregs : regs' ti.barStart.dev = regs ti.barStart.dev) (fuel : Nat) (n : BitVec 32)
    (buf : UserMem) : readLoop regs' left ti fuel n buf = readLoop regs left ti fuel n buf := by
  induction fuel generalizing n buf with
  | zero => rfl
  | succ fuel ih =>
      have hword : regs'.ioread32 ti.barStart (ti.wordOffset n) =
          regs.ioread32 ti.barStart (ti.wordOffset n) := by simp only [Regs.ioread32, hregs]
      simp only [readLoop, hword, ih]

/-- A write loop leaves the registers of other devices alone, and what it does to its
own device depends on nothing else. -/
theorem writeLoop_local {buf : UserMem} {fault : Nat → Bool} {ti : TransferInformation}
    {fuel : Nat} {n : BitVec 32} {regs regs' : Regs} {r : WriteLoop}
    (hregs : regs' ti.barStart.dev = regs ti.barStart.dev)
    (h : writeLoop buf fault ti fuel n regs = .ok r) :
    (∀ d, d ≠ ti.barStart.dev → r.regs d = regs d) ∧
    ∃ regs₁, writeLoop buf fault ti fuel n regs' = .ok { r with regs := regs₁ } ∧
      regs₁ ti.barStart.dev = r.regs ti.barStart.dev := by
  induction fuel generalizing n regs regs' r with
  | zero => cases h
  | succ fuel ih =>
      simp only [writeLoop] at h ⊢
      split at h
      · rename_i hcond
        split at h
        · rename_i hfault
          cases h
          refine ⟨fun _ _ => rfl, regs', ?_, hregs⟩
          simp only [hcond, hfault, if_true]
        · rename_i hfault
          split at h
          · cases h
          rename_i r₁ hrest
          cases h
          have hregs₁ : (regs'.iowrite32 ti.barStart (ti.wordOffset n)
                (copyFromUser buf n.toNat)) ti.barStart.dev =
              (regs.iowrite32 ti.barStart (ti.wordOffset n)
                (copyFromUser buf n.toNat)) ti.barStart.dev := by
            funext b off
            simp only [Regs.iowrite32, hregs]
          obtain ⟨hframe, regs₁, hrun, hown⟩ := ih hregs₁ hrest
          refine ⟨fun d hd => ?_, regs₁, ?_, hown⟩
          · rw [hframe d hd]
            funext b off
            exact Regs.iowrite32_ne fun hsame => hd hsame.1
          · simp only [hcond, hfault, if_true, Bool.false_eq_true, if_false, hrun]
      · rename_i hcond
        cases h
        refine ⟨fun _ _ => rfl, regs', ?_, hregs⟩
        simp only [hcond, if_false]

section Local

variable {dv : PcieuniDev} {d : PciDev} {regs regs' : Regs} (hregs : regs' d = regs d)
  (hmapped : ∀ n m, (dv.bar n).memmoryBase = some m → m.dev = d)

include hregs hmapped

/-- What a read does is decided by the struct and by the registers of its device. -/
theorem pcieuniReadNoStructExp_congr (env : ReadEnv) (buf : UserMem) (count pos : BitVec 64) :
    pcieuniReadNoStructExp env regs' dv buf count pos =
      pcieuniReadNoStructExp env regs dv buf count pos := by
  cases hcheck : checkAndCalculateTransferInformation dv count pos with
  | inl err => simp only [pcieuniReadNoStructExp, hcheck]
  | inr ti =>
      obtain ⟨n, hacc⟩ := check_inr hcheck
      obtain rfl := hmapped n _ hacc.barStart
      simp only [pcieuniReadNoStructExp, hcheck, readLoop_congr env.left hregs]

/-- What a write does is decided by the struct and by the registers of its device, and
the registers of other devices stay. -/
theorem pcieuniWriteNoStructExp_local {env : WriteEnv} {buf : UserMem} {count pos : BitVec 64}
    {dv' : PcieuniDev} {r : WriteRet}
    (h : pcieuniWriteNoStructExp env regs dv buf count pos = .ok (dv', r)) :
    (∀ d', d' ≠ d → r.regs d' = regs d') ∧
    ∃ regs₁, pcieuniWriteNoStructExp env regs' dv buf count pos =
      .ok (dv', { r with regs := regs₁ }) ∧ regs₁ d = r.regs d := by
  cases hcheck : checkAndCalculateTransferInformation dv count pos with
  | inl err =>
      simp only [pcieuniWriteNoStructExp, hcheck] at h ⊢
      cases h
      exact ⟨fun _ _ => rfl, regs', rfl, hregs⟩
  | inr ti =>
      obtain ⟨n, hacc⟩ := check_inr hcheck
      obtain rfl := hmapped n _ hacc.barStart
      cases hlock : mutexLockInterruptible dv.devMut env.intr with
      | interrupted =>
          simp only [pcieuniWriteNoStructExp, hcheck, hlock] at h ⊢
          cases h
          exact ⟨fun _ _ => rfl, regs', rfl, hregs⟩
      | blocked =>
          simp only [pcieuniWriteNoStructExp, hcheck, hlock] at h
          cases h
      | acquired =>
          cases hloop : writeLoop buf env.fault ti env.fuel 0 regs with
          | error e =>
              simp only [pcieuniWriteNoStructExp, hcheck, hlock, hloop] at h
              cases h
          | ok rl =>
              obtain ⟨hframe, regs₁, hrun, hown⟩ := writeLoop_local hregs hloop
              simp only [pcieuniWriteNoStructExp, hcheck, hlock, hloop, hrun] at h ⊢
              cases h
              exact ⟨hframe, regs₁, rfl, hown⟩

end Local

end Gpcieuni
