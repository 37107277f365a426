-- SUMMARY: What probe and remove leave in the device struct, field by field, and which kernel calls they make.
import Gpcieuni.Remove

/-!
# Probe and remove, field by field

`Probed` and `Removed` are what the rest of the driver depends on. Here is the
whole of it: each BAR after the six set-up blocks as a function of what it was
before (`probedBar`), the calls that map and unmap, and inversions of the two
entry points that keep the log.
-/

namespace Gpcieuni

/-! ## The BARs -/

/-- BAR `n` is there: its resource starts at an address that is not zero in 32 bits. -/
def ProbeEnv.Implements (env : ProbeEnv) (n : Fin 6) : Prop :=
  (env.resource n).start.setWidth 32 ≠ 0#32

instance (env : ProbeEnv) (n : Fin 6) : Decidable (env.Implements n) :=
  inferInstanceAs (Decidable (_ ≠ _))

/-- The size that a BAR is mapped with. -/
def ProbeEnv.maxlen (env : ProbeEnv) (n : Fin 6) : BitVec 32 :=
  (env.resource n).stop.setWidth 32 - (env.resource n).start.setWidth 32

/-- BAR `n` after its set-up, when it was `b`. -/
def probedBar (env : ProbeEnv) (d : PciDev) (n : Fin 6) (b : Bar) : Bar where
  memBase := (env.resource n).start.setWidth 32
  memBaseEnd := (env.resource n).stop.setWidth 32
  memBaseFlag := (env.resource n).flags.setWidth 32
  memmoryBase := if env.Implements n then (env.iomap n).map fun addr => ⟨d, n, addr⟩ else none
  rwOff := if env.Implements n then (env.maxlen n).setWidth 64 else if (n : Nat) < 2 then 0 else b.rwOff

theorem probedBar_memmoryBase {env : ProbeEnv} {d : PciDev} {n : Fin 6} {b : Bar} {m : Iomem} :
    (probedBar env d n b).memmoryBase = some m ↔
      env.Implements n ∧ m.dev = d ∧ m.bar = n ∧ env.iomap n = some m.addr := by
  obtain ⟨d', n', addr⟩ := m
  by_cases h : env.Implements n
  · simp only [probedBar, if_pos h, Option.map_eq_some_iff, Iomem.mk.injEq]
    constructor
    · rintro ⟨a, ha, rfl, rfl, rfl⟩
      exact ⟨h, rfl, rfl, ha⟩
    · rintro ⟨-, rfl, rfl, ha⟩
      exact ⟨addr, ha, rfl, rfl, rfl⟩
  · simp [probedBar, h]

/-- The call that maps BAR `n`. -/
def iomapCalls (env : ProbeEnv) (d : PciDev) (n : Fin 6) : List Effect :=
  if env.Implements n then [.pciIomap d n (env.maxlen n) (env.iomap n)] else []

theorem setupBar_eq (env : ProbeEnv) (d : PciDev) (n : Fin 6) (dv : PcieuniDev) :
    (setupBar env d n dv).1.bar n = probedBar env d n (dv.bar n) ∧
      (setupBar env d n dv).2 = iomapCalls env d n := by
  by_cases h : (env.resource n).start.setWidth 32 = 0#32
  · simp [setupBar, probedBar, iomapCalls, ProbeEnv.Implements, h]
  · simp [setupBar, probedBar, iomapCalls, ProbeEnv.Implements, ProbeEnv.maxlen, h]

theorem setupBars_bar (env : ProbeEnv) (d : PciDev) {ns : List (Fin 6)} (hns : ns.Nodup)
    (n : Fin 6) (dv : PcieuniDev) :
    (setupBars env d ns dv).1.bar n = if n ∈ ns then probedBar env d n (dv.bar n) else dv.bar n := by
  induction ns generalizing dv with
  | nil => rfl
  | cons n' ns ih =>
      obtain ⟨hnew, hns⟩ := List.nodup_cons.mp hns
      simp only [setupBars]
      rw [ih hns]
      by_cases hn : n = n'
      · subst hn
        simp [hnew, (setupBar_eq env d n dv).1]
      · simp [hn, setupBar_ne hn]

theorem setupBars_calls (env : ProbeEnv) (d : PciDev) (ns : List (Fin 6)) (dv : PcieuniDev) :
    (setupBars env d ns dv).2 = ns.flatMap (iomapCalls env d) := by
  induction ns generalizing dv with
  | nil => rfl
  | cons n ns ih =>
      simp only [setupBars, List.flatMap_cons]
      rw [ih, (setupBar_eq env d n dv).2]

/-- The call that unmaps a BAR. -/
def iounmapCalls (b : Bar) : List Effect := (b.memmoryBase.map Effect.pciIounmap).toList

theorem unmapBars_calls {ns : List (Fin 6)} (hns : ns.Nodup) (dv : PcieuniDev) :
    (unmapBars ns dv).2 = ns.flatMap fun n => iounmapCalls (dv.bar n) := by
  induction ns generalizing dv with
  | nil => rfl
  | cons n ns ih =>
      obtain ⟨hnew, hns⟩ := List.nodup_cons.mp hns
      have hbar : (unmapBar n dv).2 = iounmapCalls (dv.bar n) := by
        simp only [unmapBar]
        cases hm : (dv.bar n).memmoryBase <;> simp [iounmapCalls, hm]
      have hrest : (ns.flatMap fun n' => iounmapCalls ((unmapBar n dv).1.bar n')) =
          ns.flatMap fun n' => iounmapCalls (dv.bar n') :=
        List.flatMap_congr fun n' hn' => by
          have hne : n' ≠ n := fun heq => hnew (heq ▸ hn')
          rw [unmapBar_ne hne]
      simp only [unmapBars, List.flatMap_cons]
      rw [ih hns, hbar, hrest]

theorem allBars_nodup : allBars.Nodup := by decide

/-! ## Probe -/

/-- The calls that prepare the interrupts. -/
def msiCalls (env : ProbeEnv) (d : PciDev) : List Effect :=
  if env.configPciMsi then [.pciEnableMsi d env.enableMsi] else []

/-- The value of `msi` after a probe, when it was `msi`. -/
def probedMsi (env : ProbeEnv) (msi : BitVec 8) : BitVec 8 :=
  if env.configPciMsi then (if env.enableMsi = 0 then 1 else 0) else msi

theorem setupMsi_eq (env : ProbeEnv) (d : PciDev) (dv : PcieuniDev) :
    ∃ irqFlag, (setupMsi env d dv).1 =
        { dv with msi := probedMsi env dv.msi, irqFlag, pciDevIrq := env.irq, irqMode := 0 } ∧
      (setupMsi env d dv).2 = msiCalls env d := by
  simp only [setupMsi, probedMsi, msiCalls]
  split
  · split <;> exact ⟨_, rfl, rfl⟩
  · exact ⟨_, rfl, rfl⟩

/-- The calls that make the device node and the proc entry. -/
def nodeCalls (env : ProbeEnv) (major : Int) (k : Slot) (devSts slotNum : Int) : List Effect :=
  (if devSts ≠ 0 then [.deviceDestroy (mkdev major k)] else []) ++
    [.deviceCreate (mkdev major k) (entryName env.devName slotNum),
      .procCreate (entryName env.devName slotNum) k]

/-- What a probe of `d` leaves in a struct that was `dv`. The discovery started
from `found`, the struct with its BARs set up, and ended in `found'`. -/
structure ProbeOutcome (env : ProbeEnv) (regs : Regs) (d : PciDev) (dv dv' : PcieuniDev) where
  found : PcieuniDev
  found' : PcieuniDev
  logInfo : List Effect
  foundBar : ∀ n, found.bar n = probedBar env d n (dv.bar n)
  foundInfo : found.brdInfoList = dv.brdInfoList ∧ found.prjInfoList = dv.prjInfoList ∧
    found.startupPrjNum = dv.startupPrjNum
  discovered : discover env regs found = .ok (found', logInfo)
  info : dv'.brdInfoList = found'.brdInfoList ∧ dv'.prjInfoList = found'.prjInfoList ∧
    dv'.startupBrd = found'.startupBrd ∧ dv'.startupPrjNum = found'.startupPrjNum
  bar : ∀ n, dv'.bar n = probedBar env d n (dv.bar n)
  devDma64mask : dv'.devDma64mask =
    if env.setMask64 = 0 then 1 else if env.setMask32 = 0 then 0 else dv.devDma64mask
  slotNum : dv'.slotNum = (env.sltCap >>> 19).toNat
  brdNum : dv'.brdNum = dv.brdNum
  binded : dv'.binded = dv.binded
  msi : dv'.msi = probedMsi env dv.msi
  irqMode : dv'.irqMode = 0
  pciDevIrq : dv'.pciDevIrq = env.irq

theorem probeDevice_outcome {env : ProbeEnv} {regs : Regs} {major : Int} {d : PciDev} {k : Slot}
    {dv dv' : PcieuniDev} {log : List Effect}
    (h : probeDevice env regs major d k dv = .ok (dv', log)) :
    ∃ o : ProbeOutcome env regs d dv dv', ∃ devSts slotNum, log =
      allBars.flatMap (iomapCalls env d) ++ o.logInfo ++ msiCalls env d ++
        nodeCalls env major k devSts slotNum := by
  obtain ⟨found', logInfo, hdisc, rfl, rfl⟩ := probeDevice_steps h
  have hbars := setupBars_barsOnly env d allBars (setupIdentity env d dv)
  have hbar := fun n => setupBars_bar env d allBars_nodup n (setupIdentity env d dv)
  rw [setupBars_calls]
  generalize (setupBars env d allBars (setupIdentity env d dv)).1 = found at hdisc hbars hbar
  have hinfo := discover_infoOnly hdisc
  obtain ⟨irqFlag, hmsi, hmsiCalls⟩ := setupMsi_eq env d found'
  rw [hmsi, hmsiCalls]
  unfold PcieuniDev.InfoOnly at hinfo
  unfold PcieuniDev.BarsOnly at hbars
  have hfound : ∀ n, found.bar n = probedBar env d n (dv.bar n) := by
    intro n
    rw [hbar n, if_pos (mem_allBars n)]
    rfl
  refine ⟨⟨found, found', logInfo, hfound, ?_, hdisc, ⟨rfl, rfl, rfl, rfl⟩, ?_, ?_, ?_, ?_, ?_, ?_,
    rfl, rfl⟩, found'.devSts, found'.slotNum, ?_⟩
  · rw [hbars]; exact ⟨rfl, rfl, rfl⟩
  · intro n
    rw [← hfound n, hinfo]
  · rw [hinfo, hbars]; rfl
  · rw [hinfo, hbars]; rfl
  · rw [hinfo, hbars]; rfl
  · rw [hinfo, hbars]; rfl
  · rw [hinfo, hbars]; rfl
  · simp only [nodeCalls, List.append_assoc]

/-- The BAR of a call that maps. -/
theorem ProbeOutcome.mem_pciIomap {env : ProbeEnv} {regs : Regs} {d d' : PciDev}
    {dv dv' : PcieuniDev} (o : ProbeOutcome env regs d dv dv') {major : Int} {k : Slot}
    {devSts slotNum : Int} {n : Fin 6} {len : BitVec 32} {addr : Option Nat}
    (h : .pciIomap d' n len addr ∈ allBars.flatMap (iomapCalls env d) ++ o.logInfo ++
      msiCalls env d ++ nodeCalls env major k devSts slotNum) :
    env.Implements n ∧ len = env.maxlen n ∧ addr = env.iomap n := by
  simp only [List.mem_append, or_assoc] at h
  rcases h with hbars | hinfo | hmsi | hnode
  · obtain ⟨n', -, hn'⟩ := List.mem_flatMap.mp hbars
    by_cases himp : env.Implements n'
    · simp only [iomapCalls, if_pos himp, List.mem_singleton] at hn'
      cases hn'
      exact ⟨himp, rfl, rfl⟩
    · simp [iomapCalls, himp] at hn'
  · obtain ⟨-, m, -, hthrough⟩ := discover_log o.discovered hinfo
    cases hthrough
  · simp only [msiCalls] at hmsi
    split at hmsi <;> simp at hmsi
  · simp only [nodeCalls] at hnode
    split at hnode <;> simp at hnode

/-- A probe that succeeds, with the calls that it makes. -/
theorem pcieuniProbeExp_ok {env : ProbeEnv} {d : PciDev} {s s' : Driver} {r : ProbeRet}
    (h : pcieuniProbeExp env d s = .ok (s', r)) (hret : r.ret = 0) :
    ∃ i dv, ∃ o : ProbeOutcome env s.regs d { s.dev i.castSucc with binded := 1 } dv,
      ∃ devSts slotNum, s.freeSlot = some i ∧
      r.log = [.pciEnableDevice d 0, .pciRequestRegions d 0] ++
        (allBars.flatMap (iomapCalls env d) ++ o.logInfo ++ msiCalls env d ++
          nodeCalls env s.pcieuniMajor i.castSucc devSts slotNum) ∧
      s' = { s.setDev i.castSucc dv with
        drvdata := Function.update s.drvdata d (some i.castSucc)
        pcieuniModuleNum := s.pcieuniModuleNum + 1 } := by
  rcases pcieuniProbeExp_exits h with ⟨-, -, rfl⟩ | ⟨i, -, henable, -, rfl⟩ |
      ⟨i, -, -, hregions, -, rfl⟩ | ⟨i, dv, log, hfree, -, -, hdev, rfl, rfl⟩
  · cases hret
  · exact absurd hret henable
  · exact absurd hret hregions
  · obtain ⟨o, devSts, slotNum, rfl⟩ := probeDevice_outcome hdev
    exact ⟨i, dv, o, devSts, slotNum, hfree, rfl, rfl⟩

/-- The struct that the discovery of a probe starts from. -/
theorem setupBars_start (env : ProbeEnv) (d : PciDev) (dv : PcieuniDev) :
    (∀ n, (setupBars env d allBars (setupIdentity env d dv)).1.bar n =
        probedBar env d n (dv.bar n)) ∧
      (setupBars env d allBars (setupIdentity env d dv)).1.brdInfoList = dv.brdInfoList ∧
      (setupBars env d allBars (setupIdentity env d dv)).1.prjInfoList = dv.prjInfoList := by
  have hbars := setupBars_barsOnly env d allBars (setupIdentity env d dv)
  have hbar := fun n => setupBars_bar env d allBars_nodup n (setupIdentity env d dv)
  generalize (setupBars env d allBars (setupIdentity env d dv)).1 = found at hbars hbar ⊢
  refine ⟨fun n => ?_, ?_, ?_⟩
  · rw [hbar n, if_pos (mem_allBars n)]
    rfl
  · rw [hbars]; rfl
  · rw [hbars]; rfl

/-- When the resources are there, a probe returns if discovery does. -/
theorem pcieuniProbeExp_returns {env : ProbeEnv} {d : PciDev} {s : Driver}
    {i : Fin pcieuniNrDevs} {found' : PcieuniDev} {log : List Effect}
    (hfree : s.freeSlot = some i) (henable : env.enableDevice = 0)
    (hregions : env.requestRegions = 0)
    (hdisc : discover env s.regs (setupBars env d allBars
      (setupIdentity env d { s.dev i.castSucc with binded := 1 })).1 = .ok (found', log)) :
    ∃ s' r, pcieuniProbeExp env d s = .ok (s', r) ∧ r.ret = 0 := by
  have hregs : (s.setDev i.castSucc { s.dev i.castSucc with binded := 1 }).regs = s.regs := rfl
  simp only [pcieuniProbeExp, hfree, henable, hregions, ne_eq, not_true_eq_false, if_false,
    probeDevice, hregs, Driver.setDev_dev_self, hdisc]
  exact ⟨_, _, rfl, rfl⟩

/-- The calls of a probe that fails. -/
theorem pcieuniProbeExp_failed {env : ProbeEnv} {d : PciDev} {s s' : Driver} {r : ProbeRet}
    (h : pcieuniProbeExp env d s = .ok (s', r)) (hret : r.ret ≠ 0) :
    r.log = [] ∨ (∃ err, err ≠ 0 ∧ r.log = [.pciEnableDevice d err]) ∨
      ∃ err, err ≠ 0 ∧ r.log =
        [.pciEnableDevice d 0, .pciRequestRegions d err, .pciDisableDevice d] := by
  rcases pcieuniProbeExp_exits h with ⟨-, -, rfl⟩ | ⟨i, -, henable, -, rfl⟩ |
      ⟨i, -, -, hregions, -, rfl⟩ | ⟨i, dv, log, -, -, -, -, -, rfl⟩
  · exact .inl rfl
  · exact .inr (.inl ⟨_, henable, rfl⟩)
  · exact .inr (.inr ⟨_, hregions, rfl⟩)
  · exact absurd rfl hret

/-! ## Remove -/

/-- A remove that returns, with the calls that it makes. -/
theorem pcieuniRemoveExp_ok {devName : String} {d : PciDev} {s s' : Driver} {r : RemoveRet}
    (h : pcieuniRemoveExp devName d s = .ok (s', r)) :
    ∃ k p devno name, s.drvdata d = some k ∧ (s.dev k).pcieuniPciDev = some p ∧
      (s'.dev k).prjInfoList = [] ∧ (s'.dev k).brdInfoList = (s.dev k).brdInfoList ∧
      (s'.dev k).msi = (s.dev k).msi ∧
      r.log = releaseInterrupts k (s.dev k) ++
        (allBars.flatMap fun n => iounmapCalls ((s.dev k).bar n)) ++
        [.pciReleaseRegions p, .deviceDestroy devno, .procRemove name, .pciDisableDevice d] ++
        (s.dev k).devFileList.map fun e => .setPrivateData e.filp nullSlot := by
  obtain ⟨k, p, dv, logBars, hk, -, hp, hunmap, rfl, -, -, hlog⟩ := pcieuniRemoveExp_exit h
  have hbars := unmapBars_barsOnly allBars { s.dev k with prjInfoList := [], devMut := true }
  have hcalls := unmapBars_calls allBars_nodup { s.dev k with prjInfoList := [], devMut := true }
  simp only [hunmap, PcieuniDev.BarsOnly] at hbars hcalls
  refine ⟨k, p, mkdev s.pcieuniMajor (s.dev k).brdNum, entryName devName (s.dev k).slotNum, hk, hp,
    ?_, ?_, ?_, ?_⟩
  · rw [Driver.setDev_dev_self, hbars]
  · rw [Driver.setDev_dev_self, hbars]
  · rw [Driver.setDev_dev_self, hbars]
  · rw [hlog, hcalls]

end Gpcieuni
