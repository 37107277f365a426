-- SUMMARY: Where a BAR number leads: the transfers reach the mapping that the probe made for the BAR, `pcieuni_get_baddress` only for BAR 0.
import Gpcieuni.Exports
import Gpcieuni.ProbeSpec
import Gpcieuni.Driver.Mutex
import Gpcieuni.Driver.Slots

/-!
# The meaning of a BAR number

A bound device was bound by a probe of the run and not removed since, and its
BARs are still those that this probe set up (`run_lastProbe`). So the mapping
that a transfer goes through can be compared with the one that `pci_iomap`
returned.
-/

namespace Gpcieuni

namespace Driver

/-! ## The probe that bound a device -/

/-- A device that is bound after a call was bound by it, or it was bound before
and its BARs are as they were. -/
theorem exec_bound {s s' : Driver} {op : Op} {r : OpRet} (hs : s.SlotInv)
    (hadm : s.Admissible op) (h : s.exec op = .ok (s', r)) {d : PciDev} (hd : d ∈ s'.bound) :
    (∃ env, op = .probe env d ∧ r.ret = 0) ∨
    (d ∈ s.bound ∧ (∀ devName, op ≠ .remove devName d) ∧
      ∀ k, s.Serves d k → (s'.dev k).bar = (s.dev k).bar) := by
  rcases exec_slots h with ⟨hsame, -, hop⟩ | ⟨env, d', i, drvdata, rfl, hfree, -, -, -, rfl⟩ |
      ⟨env, d', i, dv, rfl, hfree, -, -, hret, -, rfl⟩ |
      ⟨devName, d', j, dv, files, rfl, hj, -, rfl⟩
  · exact .inr ⟨hsame.bound ▸ hd, fun devName => hop devName d, fun k _ => (hsame.dev k).2.2.2⟩
  · refine .inr ⟨hd, by simp, fun k hk => ?_⟩
    exact (sameDevice_setDev_ne (hk.ne_free hfree)).2.2.2
  · rcases List.mem_cons.mp hd with rfl | hmem
    · exact .inl ⟨env, rfl, hret⟩
    · refine .inr ⟨hmem, by simp, fun k hk => ?_⟩
      exact (sameDevice_setDev_ne (hk.ne_free hfree)).2.2.2
  · obtain ⟨hne, hmem⟩ := hs.nodup.mem_erase_iff.mp hd
    refine .inr ⟨hmem, by rintro _ heq; cases heq; exact hne rfl, fun k hk => ?_⟩
    exact (sameDevice_setDev_ne (hk.slot_ne (hs.serves_of_drvdata hadm hj) hne)).2.2.2

/-- The last probe of `d` in a run: it succeeded, and `d` was not removed after it. -/
structure LastProbe (tr : List (Transition Driver Op OpRet)) (d : PciDev) (env : ProbeEnv)
    (t : Transition Driver Op OpRet) : Prop where
  act : t.act = .probe env d
  succeeds : t.out.ret = 0
  last : ∃ tr₁ tr₂, tr = tr₁ ++ t :: tr₂ ∧ ∀ u ∈ tr₂, ∀ devName, u.act ≠ .remove devName d

theorem run_lastProbe {s s' : Driver} {tr : List (Transition Driver Op OpRet)}
    (h : driverLts.Run s tr s') (hs : s.SlotInv) (hadm : ∀ t ∈ tr, t.pre.Admissible t.act)
    {d : PciDev} {k : Slot} (hd : s'.Serves d k) :
    (s.Serves d k ∧ (∀ t ∈ tr, ∀ devName, t.act ≠ .remove devName d) ∧
      (s'.dev k).bar = (s.dev k).bar) ∨
    ∃ env t, LastProbe tr d env t ∧ t.post.Serves d k ∧ (s'.dev k).bar = (t.post.dev k).bar := by
  induction h with
  | nil => exact .inl ⟨hd, by simp, rfl⟩
  | @cons s₁ s₂ _ op r tr hstep hrest ih =>
      have hexec := driverLts_step.mp hstep
      have hadm₁ := hadm _ (List.mem_cons_self ..)
      rcases ih (hs.exec hadm₁ hexec) (fun t ht => hadm t (List.mem_cons_of_mem _ ht)) hd with
        ⟨hserves, hnone, hbar⟩ | ⟨env, t, ⟨hact, hret, tr₁, tr₂, htr, hlast⟩, hserves, hbar⟩
      · rcases exec_bound hs hadm₁ hexec hserves.bound with ⟨env, rfl, hret⟩ | ⟨hmem, hop, hsame⟩
        · exact .inr ⟨env, _, ⟨rfl, hret, [], tr, rfl, hnone⟩, hserves, hbar⟩
        · obtain ⟨k', hk'⟩ := hs.serves d hmem
          have hk₂ := exec_serves hs hadm₁ hexec hk' hop
          obtain rfl : k' = k := Option.some.inj (hk₂.drvdata.symm.trans hserves.drvdata)
          refine .inl ⟨hk', fun t ht => ?_, hbar.trans (hsame k' hk')⟩
          cases ht with
          | head => exact hop
          | tail _ hmem' => exact hnone t hmem'
      · exact .inr ⟨env, t, ⟨hact, hret, _ :: tr₁, tr₂, by rw [htr]; rfl, hlast⟩, hserves, hbar⟩

/-- The BARs of a device that a probe has just bound, and the mappings it got
from `pci_iomap`. -/
theorem exec_probe_bars {s s' : Driver} {env : ProbeEnv} {d : PciDev} {r : OpRet}
    (h : s.exec (.probe env d) = .ok (s', r)) (hret : r.ret = 0) {k : Slot}
    (hk : s'.drvdata d = some k) :
    (∀ n m, ((s'.dev k).bar n).memmoryBase = some m → m.bar = n) ∧
    ∀ n len addr, .pciIomap d n len (some addr) ∈ r.log →
      ((s'.dev k).bar n).memmoryBase = some ⟨d, n, addr⟩ := by
  obtain ⟨i, dv, o, devSts, slotNum, -, hlog, rfl⟩ := exec_probe_ok h hret
  obtain rfl : i.castSucc = k := by simpa using hk
  simp only [setDev_dev_self, o.bar, probedBar_memmoryBase]
  refine ⟨fun n m hm => hm.2.2.1, fun n len addr hmap => ?_⟩
  rw [hlog] at hmap
  simp only [List.cons_append, List.nil_append, List.mem_cons, reduceCtorEq, false_or] at hmap
  obtain ⟨himp, -, haddr⟩ := o.mem_pciIomap hmap
  exact ⟨himp, trivial, trivial, haddr.symm⟩

/-! ## The addresses -/

/-- A read and a write of the word at byte `o` of BAR `n` reach byte `o` of the
mapping `m`. -/
structure TransfersReach (dv : PcieuniDev) (n : Fin 6) (o : Nat) (m : Iomem) : Prop where
  read : ∀ (env : ReadEnv) (regs : Regs) (buf : UserMem), env.intr = false → 1 < env.fuel →
    ∃ r, pcieuniReadNoStructExp env regs dv buf 4 (pcieuniBarOffsets n + BitVec.ofNat 64 o) =
      .ok (dv, r) ∧ r.log = [.ioread32 m o]
  write : ∀ (env : WriteEnv) (regs : Regs) (buf : UserMem), env.intr = false → 1 < env.fuel →
    env.fault 0 = false →
    ∃ r, pcieuniWriteNoStructExp env regs dv buf 4 (pcieuniBarOffsets n + BitVec.ofNat 64 o) =
      .ok (dv, r) ∧ r.log = [.iowrite32 m o (copyFromUser buf 0)]

/-- The three ways from a BAR number to an address lead to the mapping `m`. -/
structure OneAddress (dv : PcieuniDev) (n : Fin 6) (o : Nat) (m : Iomem) : Prop where
  baddress : pcieuniGetBaddress n dv = some m
  transfers : TransfersReach dv n o m

theorem Serves.transfersReach {s : Driver} {d : PciDev} {k : Slot} (h : s.Serves d k)
    (hfree : (s.dev k).devMut = false) {n : Fin 6} {o : Nat} {m : Iomem}
    (hm : ((s.dev k).bar n).memmoryBase = some m) (ho : o % 4 = 0)
    (hin : o + 4 ≤ ((s.dev k).bar n).length) : TransfersReach (s.dev k) n o m := by
  have hsts : (s.dev k).devSts ≠ 0 := by rw [h.devSts]; decide
  refine ⟨fun env regs buf hintr hfuel => ?_, fun env regs buf hintr hfuel hfault => ?_⟩
  · exact read_word hsts hm ho hin regs buf
      (mutexLockInterruptible_acquired.mpr ⟨hfree, hintr⟩) hfuel
  · exact write_word hsts hm ho hin regs buf
      (mutexLockInterruptible_acquired.mpr ⟨hfree, hintr⟩) hfuel hfault

/-- Only BAR 0 is where `pcieuni_get_baddress` says it is. -/
theorem pcieuniGetBaddress_iff {dv : PcieuniDev} {d : PciDev} {n : Fin 6} {addr : Nat}
    (hmapped : ∀ n m, (dv.bar n).memmoryBase = some m → m.bar = n)
    (hm : (dv.bar n).memmoryBase = some ⟨d, n, addr⟩) :
    pcieuniGetBaddress n dv = some ⟨d, n, addr⟩ ↔ n = 0 := by
  rw [pcieuniGetBaddress_fin]
  constructor
  · intro hzero
    exact hmapped 0 _ hzero
  · rintro rfl
    exact hm

/-- The call is a probe or a remove. -/
def IsPlug : Op → Prop
  | .probe .. | .remove .. => True
  | _ => False

theorem MutexFree.exec_plug {s s' : Driver} {op : Op} {r : OpRet} (hs : s.MutexFree)
    (hop : IsPlug op) (h : s.exec op = .ok (s', r)) : s'.MutexFree := by
  apply (hs.exec_iff h).mpr
  cases op with
  | probe | remove => trivial
  | openFile | release | read | write | ioctl => cases hop

/-- In every state after probes and removes: for a bound device, a BAR that its
probe mapped, and a word of it, the transfers reach the mapping that `pci_iomap`
returned. The address of `pcieuni_get_baddress` is the same one if and only if the
BAR is BAR 0. -/
theorem run_oneAddress_iff {s s' : Driver} {tr : List (Transition Driver Op OpRet)}
    (h : driverLts.Run s tr s') (hinit : driverLts.init s)
    (hadm : ∀ t ∈ tr, t.pre.Admissible t.act ∧ IsPlug t.act) {d : PciDev} {k : Slot}
    (hd : d ∈ s'.bound) (hk : s'.drvdata d = some k) :
    ∃ env t, LastProbe tr d env t ∧
      ∀ n len addr, .pciIomap d n len (some addr) ∈ t.out.log →
      ∀ o, o % 4 = 0 → o + 4 ≤ ((s'.dev k).bar n).length →
        TransfersReach (s'.dev k) n o ⟨d, n, addr⟩ ∧
        (OneAddress (s'.dev k) n o ⟨d, n, addr⟩ ↔ n = 0) := by
  have hpres : ∀ s a s' e, SlotInv s ∧ MutexFree s → Admissible s a ∧ IsPlug a →
      driverLts.step s a = some (s', e) → SlotInv s' ∧ MutexFree s' := by
    rintro s a s' e ⟨hs, hfree⟩ ⟨hadm, hop⟩ hstep
    have hexec := driverLts_step.mp hstep
    exact ⟨hs.exec hadm hexec, hfree.exec_plug hop hexec⟩
  have hfree₀ : s.MutexFree := by
    obtain ⟨major, verMaj, verMin, regs, rfl⟩ := hinit
    exact initial_mutexFree major verMaj verMin regs
  obtain ⟨hslots, hfree⟩ := (h.preserves hpres ⟨.of_init hinit, hfree₀⟩ hadm).1
  have hserves := hslots.serves_of_drvdata hd hk
  rcases run_lastProbe h (.of_init hinit) (fun t ht => (hadm t ht).1) hserves with
    ⟨hold, -, -⟩ | ⟨env, t, hlast, hpost, hbar⟩
  · obtain ⟨major, verMaj, verMin, regs, rfl⟩ := hinit
    cases hold.bound
  refine ⟨env, t, hlast, fun n len addr hmap o ho hin => ?_⟩
  obtain ⟨tr₁, tr₂, htr, -⟩ := hlast.last
  have hexec := driverLts_step.mp (h.step_of_mem (t := t) (by simp [htr]))
  rw [hlast.act] at hexec
  obtain ⟨hmapped, hiomap⟩ := exec_probe_bars hexec hlast.succeeds hpost.drvdata
  rw [← hbar] at hmapped hiomap
  have hm := hiomap n len addr hmap
  have hreach := hserves.transfersReach (hfree k) hm ho hin
  refine ⟨hreach, ?_⟩
  rw [← pcieuniGetBaddress_iff hmapped hm]
  exact ⟨fun hone => hone.baddress, fun hbase => ⟨hbase, hreach⟩⟩

/-- A card with BARs 0 and 2. -/
private def twoBarEnv : ProbeEnv where
  resource n :=
    if n = 0 then { start := 0x1000, stop := 0x1fff }
    else if n = 2 then { start := 0x8000, stop := 0x8fff }
    else {}
  iomap n := if n = 0 then some 0x10000 else if n = 2 then some 0x20000 else none
  fuel := 1

/-- The word at byte 8 of BAR 0 of that card. -/
theorem run_oneAddress_iff_bar0 : ∃ tr s',
    driverLts.Run (initial 250 1 0 fun _ _ _ => 0) tr s' ∧
    tr.map (·.act) = [.probe twoBarEnv 7] ∧
    OneAddress (s'.dev 0) 0 8 ⟨7, 0, 0x10000⟩ := by
  obtain ⟨tr, s', hrun, hacts, hend⟩ := Lts.Run.of_exec_map (M := driverLts)
    (g := fun r => (r.1.all fun t => decide (t.pre.Admissible t.act ∧
        .pciIomap 7 0 0xfff (some 0x10000) ∈ t.out.log),
      r.2.bound, r.2.drvdata 7, ((r.2.dev 0).bar 0).length))
    (v := (true, [7], some 0, 4096)) (s := initial 250 1 0 fun _ _ _ => 0)
    (l := [.probe twoBarEnv 7]) (by decide +kernel)
  simp only [Prod.mk.injEq, List.all_eq_true, decide_eq_true_eq] at hend
  obtain ⟨hall, hbound, hdrv, hlen⟩ := hend
  have hplug : ∀ t ∈ tr, IsPlug t.act := by
    intro t ht
    have hact : t.act ∈ tr.map (·.act) := List.mem_map_of_mem ht
    rw [hacts, List.mem_singleton] at hact
    rw [hact]
    trivial
  obtain ⟨env, t, hlast, haddr⟩ := run_oneAddress_iff hrun ⟨250, 1, 0, _, rfl⟩
    (fun t ht => ⟨(hall t ht).1, hplug t ht⟩) (d := 7) (k := 0) (by simp [hbound]) hdrv
  obtain ⟨tr₁, tr₂, htr, -⟩ := hlast.last
  have hmap := (hall t (by simp [htr])).2
  exact ⟨tr, s', hrun, hacts, (haddr 0 _ _ hmap 8 rfl (by rw [hlen]; decide)).2.mpr rfl⟩

/-- BAR 2 of that card: a client that asks for its address gets BAR 0. -/
theorem getBaddress_bar2_is_bar0 : ∃ tr s',
    driverLts.Run (initial 250 1 0 fun _ _ _ => 0) tr s' ∧
    tr.map (·.act) = [.probe twoBarEnv 7] ∧ s'.bound = [7] ∧ s'.drvdata 7 = some 0 ∧
    (∀ t ∈ tr, t.pre.Admissible t.act ∧ .pciIomap 7 2 0xfff (some 0x20000) ∈ t.out.log) ∧
    pcieuniGetBaddress 2 (s'.dev 0) = some ⟨7, 0, 0x10000⟩ ∧
    ¬ OneAddress (s'.dev 0) 2 0 ⟨7, 2, 0x20000⟩ := by
  obtain ⟨tr, s', hrun, hacts, hend⟩ := Lts.Run.of_exec_map (M := driverLts)
    (g := fun r => (r.1.all fun t => decide (t.pre.Admissible t.act ∧
        .pciIomap 7 2 0xfff (some 0x20000) ∈ t.out.log),
      r.2.bound, r.2.drvdata 7, pcieuniGetBaddress 2 (r.2.dev 0)))
    (v := (true, [7], some 0, some ⟨7, 0, 0x10000⟩)) (s := initial 250 1 0 fun _ _ _ => 0)
    (l := [.probe twoBarEnv 7]) (by decide +kernel)
  simp only [Prod.mk.injEq, List.all_eq_true, decide_eq_true_eq] at hend
  obtain ⟨hall, hbound, hdrv, hbase⟩ := hend
  refine ⟨tr, s', hrun, hacts, hbound, hdrv, hall, hbase, fun hone => ?_⟩
  have hsame := hbase.symm.trans hone.baddress
  cases hsame

end Driver

end Gpcieuni
