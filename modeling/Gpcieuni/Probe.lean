-- SUMMARY: Binding a PCI device: `pcieuni_probe_exp` with the search for a free slot, the set-up of the BARs, and its failure exits.
import Mathlib.Data.List.FinRange
import Gpcieuni.Discovery

/-!
# Probe

The search for a free slot, the two kernel calls that can make a probe fail, and
the set-up of the device struct are separate functions, in the order of the
source. A resource is described by 64-bit values, which the driver narrows to
`u32` before it looks at them.
-/

namespace Gpcieuni

/-- `IRQF_SHARED`. -/
def irqfShared : BitVec 32 := 0x80

/-- What `pci_resource_start`, `pci_resource_end` and `pci_resource_flags` return. -/
structure PciResource where
  start : BitVec 64 := 0
  stop : BitVec 64 := 0
  flags : BitVec 64 := 0
  deriving DecidableEq, Repr

/-- What the kernel and the hardware decide during a probe. -/
structure ProbeEnv where
  devName : String := "gpcieuni"
  enableDevice : Int := 0
  requestRegions : Int := 0
  devfn : BitVec 32 := 0
  busNumber : BitVec 32 := 0
  /-- The slot capabilities of the upstream bridge. -/
  sltCap : BitVec 32 := 0
  setMask64 : Int := 0
  setMask32 : Int := 0
  vendorId : BitVec 16 := 0
  deviceId : BitVec 16 := 0
  subvendorId : BitVec 16 := 0
  subdeviceId : BitVec 16 := 0
  classCode : BitVec 16 := 0
  revision : BitVec 8 := 0
  irqLine : BitVec 8 := 0
  irqPin : BitVec 8 := 0
  resource : Fin 6 → PciResource := fun _ => {}
  /-- The address that `pci_iomap` returns, or the null pointer. -/
  iomap : Fin 6 → Option Nat := fun _ => none
  configPciMsi : Bool := true
  enableMsi : Int := 0
  irq : BitVec 32 := 0
  alloc : Nat → Bool := fun _ => true
  fuel : Nat

/-- `sprintf("%ss%d", dev_name, slot)`. -/
def entryName (devName : String) (slotNum : Int) : String := devName ++ "s" ++ toString slotNum

/-! ## The BARs -/

/-- One of the six blocks that set up a BAR. The first two blocks reset
`rw_off` of a BAR that is absent, the others leave it; the first block assigns
`pcieuni_all_mems` and the others add to it. -/
def setupBar (env : ProbeEnv) (d : PciDev) (n : Fin 6) (dv : PcieuniDev) :
    PcieuniDev × List Effect :=
  let resStart : BitVec 32 := (env.resource n).start.setWidth 32
  let resEnd : BitVec 32 := (env.resource n).stop.setWidth 32
  let resFlag : BitVec 32 := (env.resource n).flags.setWidth 32
  let b := { dv.bar n with memBase := resStart, memBaseEnd := resEnd, memBaseFlag := resFlag }
  if resStart ≠ 0 then
    let dv := dv.setBar n
      { b with
        memmoryBase := (env.iomap n).map fun addr => ⟨d, n, addr⟩
        rwOff := (resEnd - resStart).setWidth 64 }
    ({ dv with pcieuniAllMems := if n = 0 then 1 else dv.pcieuniAllMems + 2 ^ (n : Nat) },
      [.pciIomap d n (resEnd - resStart) (env.iomap n)])
  else
    (dv.setBar n { b with memmoryBase := none, rwOff := if (n : Nat) < 2 then 0 else b.rwOff }, [])

/-- The six blocks, one after the other. -/
def setupBars (env : ProbeEnv) (d : PciDev) :
    List (Fin 6) → PcieuniDev → PcieuniDev × List Effect
  | [], dv => (dv, [])
  | n :: ns, dv =>
    let r := setupBar env d n dv
    let rs := setupBars env d ns r.1
    (rs.1, r.2 ++ rs.2)

/-! ## The device struct -/

/-- The identity of the device: where it sits, what it is, and how it does DMA. -/
def setupIdentity (env : ProbeEnv) (d : PciDev) (dv : PcieuniDev) : PcieuniDev :=
  let slotNum : Int := (env.sltCap >>> 19).toNat
  let devNumber := (env.devfn >>> 3) &&& 0x1f
  { dv with
    slotNum
    devNum := slotNum
    busFunc := (((env.busNumber &&& 0xff) <<< 8) + (devNumber &&& 0xff)).toNat
    pcieuniPciDev := some d
    devDma64mask :=
      if env.setMask64 = 0 then 1 else if env.setMask32 = 0 then 0 else dv.devDma64mask
    pcieuniAllMems := 0
    vendorId := env.vendorId
    deviceId := env.deviceId
    subvendorId := env.subvendorId
    subdeviceId := env.subdeviceId
    classCode := env.classCode
    revision := env.revision
    irqLine := env.irqLine
    irqPin := env.irqPin }

/-- The preparation of interrupts. -/
def setupMsi (env : ProbeEnv) (d : PciDev) (dv : PcieuniDev) : PcieuniDev × List Effect :=
  let dv := { dv with irqFlag := irqfShared, pciDevIrq := env.irq, irqMode := 0 }
  if env.configPciMsi then
    if env.enableMsi = 0 then
      ({ dv with msi := 1, irqFlag := dv.irqFlag &&& ~~~irqfShared }, [.pciEnableMsi d env.enableMsi])
    else ({ dv with msi := 0 }, [.pciEnableMsi d env.enableMsi])
  else (dv, [])

/-- Board discovery, followed by project discovery when there is a board. -/
def discover (env : ProbeEnv) (regs : Regs) (dv : PcieuniDev) : Call (PcieuniDev × List Effect) :=
  let (dv, log) := pcieuniGetBrdinfo regs dv
  if dv.startupBrd ≠ 0 then
    match pcieuniGetPrjinfo regs env.alloc env.fuel dv with
    | .error e => .error e
    | .ok (dv, log') => .ok (dv, log ++ log')
  else .ok (dv, log)

/-- The part of a probe after the resources have been acquired, on the device
struct of slot `k`. -/
def probeDevice (env : ProbeEnv) (regs : Regs) (major : Int) (d : PciDev) (k : Slot)
    (dv : PcieuniDev) : Call (PcieuniDev × List Effect) :=
  let dv := setupIdentity env d dv
  let (dv, logBars) := setupBars env d allBars dv
  match discover env regs dv with
  | .error e => .error e
  | .ok (dv, logInfo) =>
    let (dv, logMsi) := setupMsi env d dv
    let logOld := if dv.devSts ≠ 0 then [Effect.deviceDestroy (mkdev major k)] else []
    let name := entryName env.devName dv.slotNum
    .ok ({ dv with devSts := 1, name },
      logBars ++ logInfo ++ logMsi ++ logOld ++
        [.deviceCreate (mkdev major k) name, .procCreate name k])

/-! ## The call -/

/-- The first slot below the null device whose `binded` flag is clear. -/
def Driver.freeSlot (s : Driver) : Option (Fin pcieuniNrDevs) :=
  (List.finRange pcieuniNrDevs).find? fun k => (s.dev k.castSucc).binded = 0

/-- The result of a probe: the returned value and what it wrote to `*brd_num`. -/
structure ProbeRet where
  ret : Int
  brdNum : Option Int
  log : List Effect

/-- `pcieuni_probe_exp`. -/
def pcieuniProbeExp (env : ProbeEnv) (d : PciDev) (s : Driver) : Call (Driver × ProbeRet) :=
  match s.freeSlot with
  | none => .ok (s, ⟨-1, none, []⟩)
  | some i =>
    let k : Slot := i.castSucc
    let s := s.setDev k { s.dev k with binded := 1 }
    if env.enableDevice ≠ 0 then
      .ok (s, ⟨env.enableDevice, some k, [.pciEnableDevice d env.enableDevice]⟩)
    else if env.requestRegions ≠ 0 then
      .ok ({ s with drvdata := Function.update s.drvdata d none },
        ⟨env.requestRegions, some k, [.pciEnableDevice d env.enableDevice,
          .pciRequestRegions d env.requestRegions, .pciDisableDevice d]⟩)
    else
      match probeDevice env s.regs s.pcieuniMajor d k (s.dev k) with
      | .error e => .error e
      | .ok (dv, log) =>
        .ok ({ s.setDev k dv with
            drvdata := Function.update s.drvdata d (some k)
            pcieuniModuleNum := s.pcieuniModuleNum + 1 },
          ⟨0, some k, [.pciEnableDevice d env.enableDevice,
            .pciRequestRegions d env.requestRegions] ++ log⟩)

/-! ## What a probe establishes -/

/-- The set-up and the release of BARs touch nothing else of the struct than the
fields of the BARs and the mask of those present. -/
def PcieuniDev.BarsOnly (dv dv' : PcieuniDev) : Prop :=
  dv' = { dv with bar := dv'.bar, pcieuniAllMems := dv'.pcieuniAllMems }

theorem PcieuniDev.BarsOnly.trans {dv₁ dv₂ dv₃ : PcieuniDev} (h : dv₁.BarsOnly dv₂)
    (h' : dv₂.BarsOnly dv₃) : dv₁.BarsOnly dv₃ := by
  unfold PcieuniDev.BarsOnly at *
  rw [h'] at *
  rw [h]

theorem setupBar_barsOnly (env : ProbeEnv) (d : PciDev) (n : Fin 6) (dv : PcieuniDev) :
    dv.BarsOnly (setupBar env d n dv).1 := by
  simp only [setupBar]
  split <;> rfl

theorem setupBar_ne {env : ProbeEnv} {d : PciDev} {m n : Fin 6} {dv : PcieuniDev} (h : m ≠ n) :
    (setupBar env d n dv).1.bar m = dv.bar m := by
  simp only [setupBar]
  split
  · simp [PcieuniDev.setBar, h]
  · simp [h]

/-- The mapping of a BAR that was just set up maps that BAR of that device. -/
theorem setupBar_mapped {env : ProbeEnv} {d : PciDev} {n : Fin 6} {dv : PcieuniDev} {m : Iomem}
    (h : ((setupBar env d n dv).1.bar n).memmoryBase = some m) : m.dev = d ∧ m.bar = n := by
  simp only [setupBar] at h
  split at h
  · simp only [PcieuniDev.setBar, Function.update_self, Option.map_eq_some_iff] at h
    obtain ⟨addr, -, rfl⟩ := h
    exact ⟨rfl, rfl⟩
  · simp at h

theorem setupBars_barsOnly (env : ProbeEnv) (d : PciDev) (ns : List (Fin 6)) (dv : PcieuniDev) :
    dv.BarsOnly (setupBars env d ns dv).1 := by
  induction ns generalizing dv with
  | nil => rfl
  | cons n ns ih => exact (setupBar_barsOnly env d n dv).trans (ih _)

theorem setupBars_mapped (env : ProbeEnv) (d : PciDev) (ns : List (Fin 6)) (dv : PcieuniDev)
    {n : Fin 6} {m : Iomem}
    (h : ((setupBars env d ns dv).1.bar n).memmoryBase = some m) :
    (m.dev = d ∧ m.bar = n) ∨ (n ∉ ns ∧ (dv.bar n).memmoryBase = some m) := by
  induction ns generalizing dv with
  | nil => exact .inr ⟨by simp, h⟩
  | cons n' ns ih =>
      rcases ih (setupBar env d n' dv).1 h with hnew | ⟨hmem, hold⟩
      · exact .inl hnew
      · by_cases hn : n = n'
        · subst hn
          exact .inl (setupBar_mapped hold)
        · rw [setupBar_ne hn] at hold
          exact .inr ⟨by simp [hn, hmem], hold⟩

theorem discover_infoOnly {env : ProbeEnv} {regs : Regs} {dv dv' : PcieuniDev} {log : List Effect}
    (h : discover env regs dv = .ok (dv', log)) : dv.InfoOnly dv' := by
  have hbrd := pcieuniGetBrdinfo_infoOnly regs dv
  simp only [discover] at h
  split at h
  · split at h
    · cases h
    · rename_i dv₁ log₁ hprj
      cases h
      exact hbrd.trans (pcieuniGetPrjinfo_infoOnly hprj)
  · cases h
    exact hbrd

/-- The struct after a successful probe of `d`, as far as the rest of the driver
depends on it. -/
structure Probed (d : PciDev) (dv dv' : PcieuniDev) : Prop where
  binded : dv'.binded = dv.binded
  pcieuniPciDev : dv'.pcieuniPciDev = some d
  devSts : dv'.devSts = 1
  mapped : ∀ n m, (dv'.bar n).memmoryBase = some m → m.dev = d ∧ m.bar = n
  devMut : dv'.devMut = dv.devMut
  devFileRef : dv'.devFileRef = dv.devFileRef
  devFileList : dv'.devFileList = dv.devFileList
  brdNum : dv'.brdNum = dv.brdNum

/-- The set-up of a device struct goes through discovery. -/
theorem probeDevice_steps {env : ProbeEnv} {regs : Regs} {major : Int} {d : PciDev} {k : Slot}
    {dv dv' : PcieuniDev} {log : List Effect}
    (h : probeDevice env regs major d k dv = .ok (dv', log)) :
    ∃ found' logInfo,
      discover env regs (setupBars env d allBars (setupIdentity env d dv)).1 =
        .ok (found', logInfo) ∧
      dv' = { (setupMsi env d found').1 with
        devSts := 1
        name := entryName env.devName (setupMsi env d found').1.slotNum } ∧
      log = (setupBars env d allBars (setupIdentity env d dv)).2 ++ logInfo ++
        (setupMsi env d found').2 ++
        (if (setupMsi env d found').1.devSts ≠ 0 then [.deviceDestroy (mkdev major k)] else []) ++
        [.deviceCreate (mkdev major k) (entryName env.devName (setupMsi env d found').1.slotNum),
          .procCreate (entryName env.devName (setupMsi env d found').1.slotNum) k] := by
  simp only [probeDevice] at h
  split at h
  · cases h
  rename_i found' logInfo hdisc
  cases h
  exact ⟨found', logInfo, hdisc, rfl, rfl⟩

theorem probeDevice_probed {env : ProbeEnv} {regs : Regs} {major : Int} {d : PciDev} {k : Slot}
    {dv dv' : PcieuniDev} {log : List Effect}
    (h : probeDevice env regs major d k dv = .ok (dv', log)) : Probed d dv dv' := by
  obtain ⟨dv₂, logInfo, hdisc, rfl, -⟩ := probeDevice_steps h
  have hbars := setupBars_barsOnly env d allBars (setupIdentity env d dv)
  have hmapped := fun n m => setupBars_mapped env d allBars (setupIdentity env d dv) (n := n) (m := m)
  generalize (setupBars env d allBars (setupIdentity env d dv)).1 = dv₁ at hdisc hbars hmapped
  have hinfo := discover_infoOnly hdisc
  have hmsi : ∃ msi irqFlag, (setupMsi env d dv₂).1 =
      { dv₂ with msi, irqFlag, pciDevIrq := env.irq, irqMode := 0 } := by
    simp only [setupMsi]
    split
    · split <;> exact ⟨_, _, rfl⟩
    · exact ⟨_, _, rfl⟩
  obtain ⟨msi, irqFlag, hmsi⟩ := hmsi
  rw [hmsi]
  unfold PcieuniDev.InfoOnly at hinfo
  unfold PcieuniDev.BarsOnly at hbars
  refine ⟨?_, ?_, rfl, ?_, ?_, ?_, ?_, ?_⟩
  · rw [hinfo, hbars]; rfl
  · rw [hinfo, hbars]; rfl
  · intro n m hm
    have hbar : dv₂.bar = dv₁.bar := by rw [hinfo]
    rcases hmapped n m (by simpa [hbar] using hm) with hnew | ⟨habs, -⟩
    · exact hnew
    · exact absurd (mem_allBars n) habs
  · rw [hinfo, hbars]; rfl
  · rw [hinfo, hbars]; rfl
  · rw [hinfo, hbars]; rfl
  · rw [hinfo, hbars]; rfl

theorem setupBars_log {env : ProbeEnv} {d : PciDev} {ns : List (Fin 6)} {dv : PcieuniDev}
    {e : Effect} (he : e ∈ (setupBars env d ns dv).2) : e.through = none := by
  induction ns generalizing dv with
  | nil => cases he
  | cons n ns ih =>
      simp only [setupBars, List.mem_append] at he
      rcases he with hbar | hrest
      · simp only [setupBar] at hbar
        split at hbar
        · rw [List.mem_singleton.mp hbar]
          rfl
        · cases hbar
      · exact ih hrest

theorem discover_log {env : ProbeEnv} {regs : Regs} {dv dv' : PcieuniDev} {log : List Effect}
    (h : discover env regs dv = .ok (dv', log)) {e : Effect} (he : e ∈ log) :
    ∃ n m, (dv.bar n).memmoryBase = some m ∧ e.through = some m := by
  have hbrd := pcieuniGetBrdinfo_infoOnly regs dv
  have hbar : (pcieuniGetBrdinfo regs dv).1.bar = dv.bar := by rw [hbrd]
  simp only [discover] at h
  split at h
  · split at h
    · cases h
    · rename_i dv₁ log₁ hprj
      cases h
      rcases List.mem_append.mp he with hmem | hmem
      · exact pcieuniGetBrdinfo_log hmem
      · obtain ⟨n, m, hm, hthrough⟩ := pcieuniGetPrjinfo_log hprj hmem
        exact ⟨n, m, by rw [← hbar]; exact hm, hthrough⟩
  · cases h
    exact pcieuniGetBrdinfo_log he

/-- A probe accesses registers only through the mappings that it has made. -/
theorem probeDevice_log {env : ProbeEnv} {regs : Regs} {major : Int} {d : PciDev} {k : Slot}
    {dv dv' : PcieuniDev} {log : List Effect}
    (h : probeDevice env regs major d k dv = .ok (dv', log)) {e : Effect} (he : e ∈ log)
    {m : Iomem} (hm : e.through = some m) : ∃ n, (dv'.bar n).memmoryBase = some m := by
  obtain ⟨dv₂, logInfo, hdisc, rfl, rfl⟩ := probeDevice_steps h
  have hmsi : (setupMsi env d dv₂).1.bar = dv₂.bar ∧
      ∀ e ∈ (setupMsi env d dv₂).2, e.through = none := by
    simp only [setupMsi]
    split
    · split <;> exact ⟨rfl, by simp [Effect.through]⟩
    · exact ⟨rfl, by simp⟩
  have hinfo : dv₂.bar = (setupBars env d allBars (setupIdentity env d dv)).1.bar := by
    rw [discover_infoOnly hdisc]
  simp only [List.mem_append] at he
  rcases he with (((hbars | hinfoLog) | hmsiLog) | hold) | hnew
  · rw [setupBars_log hbars] at hm
    cases hm
  · obtain ⟨n, m', hmapped, hthrough⟩ := discover_log hdisc hinfoLog
    obtain rfl : m' = m := Option.some.inj (hthrough.symm.trans hm)
    refine ⟨n, ?_⟩
    change ((setupMsi env d dv₂).1.bar n).memmoryBase = some m'
    rw [hmsi.1, hinfo]
    exact hmapped
  · rw [hmsi.2 e hmsiLog] at hm
    cases hm
  · split at hold
    · rw [List.mem_singleton.mp hold] at hm
      cases hm
    · cases hold
  · simp only [List.mem_cons, List.not_mem_nil, or_false] at hnew
    rcases hnew with rfl | rfl <;> cases hm

/-! ## The free slot -/

theorem Driver.freeSlot_some {s : Driver} {i : Fin pcieuniNrDevs} (h : s.freeSlot = some i) :
    (s.dev i.castSucc).binded = 0 := by
  simpa using List.find?_some h

theorem Driver.freeSlot_none {s : Driver} :
    s.freeSlot = none ↔ ∀ i : Fin pcieuniNrDevs, (s.dev i.castSucc).binded ≠ 0 := by
  simp [Driver.freeSlot, List.find?_eq_none, List.mem_finRange]

/-- The four exits of a probe: the table is full, the device cannot be enabled, its
regions are taken, or it is set up. -/
theorem pcieuniProbeExp_exits {env : ProbeEnv} {d : PciDev} {s s' : Driver} {r : ProbeRet}
    (h : pcieuniProbeExp env d s = .ok (s', r)) :
    (s.freeSlot = none ∧ s' = s ∧ r = ⟨-1, none, []⟩) ∨
    (∃ i, s.freeSlot = some i ∧ env.enableDevice ≠ 0 ∧
      s' = s.setDev i.castSucc { s.dev i.castSucc with binded := 1 } ∧
      r = ⟨env.enableDevice, some i.castSucc, [.pciEnableDevice d env.enableDevice]⟩) ∨
    (∃ i, s.freeSlot = some i ∧ env.enableDevice = 0 ∧ env.requestRegions ≠ 0 ∧
      s' = { s.setDev i.castSucc { s.dev i.castSucc with binded := 1 } with
        drvdata := Function.update s.drvdata d none } ∧
      r = ⟨env.requestRegions, some i.castSucc, [.pciEnableDevice d 0,
        .pciRequestRegions d env.requestRegions, .pciDisableDevice d]⟩) ∨
    (∃ i dv log, s.freeSlot = some i ∧ env.enableDevice = 0 ∧ env.requestRegions = 0 ∧
      probeDevice env s.regs s.pcieuniMajor d i.castSucc { s.dev i.castSucc with binded := 1 } =
        .ok (dv, log) ∧
      s' = { s.setDev i.castSucc dv with
        drvdata := Function.update s.drvdata d (some i.castSucc)
        pcieuniModuleNum := s.pcieuniModuleNum + 1 } ∧
      r = ⟨0, some i.castSucc, [.pciEnableDevice d 0, .pciRequestRegions d 0] ++ log⟩) := by
  simp only [pcieuniProbeExp] at h
  split at h
  · rename_i hfree
    cases h
    exact .inl ⟨hfree, rfl, rfl⟩
  rename_i i hfree
  split at h
  · rename_i henable
    cases h
    exact .inr (.inl ⟨i, hfree, henable, rfl, rfl⟩)
  rename_i henable
  replace henable : env.enableDevice = 0 := by simpa using henable
  split at h
  · rename_i hregions
    cases h
    exact .inr (.inr (.inl ⟨i, hfree, henable, hregions, rfl, by rw [henable]⟩))
  rename_i hregions
  replace hregions : env.requestRegions = 0 := by simpa using hregions
  split at h
  · cases h
  rename_i dv log hdev
  cases h
  rw [Driver.setDev_dev_self] at hdev
  exact .inr (.inr (.inr ⟨i, dv, log, hfree, henable, hregions, hdev, by simp [Driver.setDev],
    by rw [henable, hregions]⟩))

/-- What a probe that returns did. -/
theorem pcieuniProbeExp_cases {env : ProbeEnv} {d : PciDev} {s s' : Driver} {r : ProbeRet}
    (h : pcieuniProbeExp env d s = .ok (s', r)) :
    (s.freeSlot = none ∧ s' = s ∧ r.ret = -1) ∨
    (∃ i drvdata, s.freeSlot = some i ∧ (env.enableDevice ≠ 0 ∨ env.requestRegions ≠ 0) ∧
      r.ret ≠ 0 ∧ (∀ d', d' ≠ d → drvdata d' = s.drvdata d') ∧
      s' = { s.setDev i.castSucc { s.dev i.castSucc with binded := 1 } with drvdata }) ∨
    (∃ i dv, s.freeSlot = some i ∧ env.enableDevice = 0 ∧ env.requestRegions = 0 ∧ r.ret = 0 ∧
      Probed d { s.dev i.castSucc with binded := 1 } dv ∧
      s' = { s.setDev i.castSucc dv with
        drvdata := Function.update s.drvdata d (some i.castSucc)
        pcieuniModuleNum := s.pcieuniModuleNum + 1 }) := by
  rcases pcieuniProbeExp_exits h with ⟨hfree, rfl, rfl⟩ | ⟨i, hfree, henable, rfl, rfl⟩ |
      ⟨i, hfree, -, hregions, rfl, rfl⟩ | ⟨i, dv, log, hfree, henable, hregions, hdev, rfl, rfl⟩
  · exact .inl ⟨hfree, rfl, rfl⟩
  · exact .inr (.inl ⟨i, s.drvdata, hfree, .inl henable, henable, fun _ _ => rfl, rfl⟩)
  · refine .inr (.inl ⟨i, _, hfree, .inr hregions, hregions, fun d' hd' => ?_, rfl⟩)
    simp [hd']
  · exact .inr (.inr ⟨i, dv, hfree, henable, hregions, rfl, probeDevice_probed hdev, rfl⟩)

end Gpcieuni
