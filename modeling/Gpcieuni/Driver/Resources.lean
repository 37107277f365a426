-- SUMMARY: The PCI resources of the devices over whole runs of probes, interrupt set-ups and removes: what is held is what the structs say, and a remove releases it once.
import Gpcieuni.Lib.Ledger
import Gpcieuni.Exports
import Gpcieuni.Driver.Slots

/-!
# PCI resources

The ledger counts every call that acquires or releases a resource. What it says
is compared with what the driver has written down: the bound devices, the
mappings in their structs, and the answers of `request_irq` and
`pci_enable_msi`. First what a probe and a remove add to the ledger, then runs.
-/

namespace Gpcieuni

/-! ## Resources -/

/-- What a PCI device can hold. An interrupt is requested for a slot. -/
inductive Resource where
  | enabled (d : PciDev)
  | regions (d : PciDev)
  | mapping (m : Iomem)
  | msi (d : PciDev)
  | irq (n : BitVec 32) (k : Slot)
  deriving DecidableEq

/-- The resource that an effect acquires or releases. -/
def Effect.entry : Effect → Option (Ledger.Entry Resource)
  | .pciEnableDevice d err => if err = 0 then some (.acquire (.enabled d)) else none
  | .pciDisableDevice d => some (.release (.enabled d))
  | .pciRequestRegions d err => if err = 0 then some (.acquire (.regions d)) else none
  | .pciReleaseRegions d => some (.release (.regions d))
  | .pciIomap d n _ addr => addr.map fun a => .acquire (.mapping ⟨d, n, a⟩)
  | .pciIounmap m => some (.release (.mapping m))
  | .pciEnableMsi d err => if err = 0 then some (.acquire (.msi d)) else none
  | .pciDisableMsi d => d.map fun d => .release (.msi d)
  | .freeIrq n k => some (.release (.irq n k))
  | _ => none

theorem Effect.entry_of_through {e : Effect} {m : Iomem} (h : e.through = some m) :
    e.entry = none := by
  cases e with
  | ioread32 | iowrite32 => rfl
  | _ => cases h

theorem Effect.entry_msi {e : Effect} {d : PciDev} :
    e.entry = some (.acquire (.msi d)) ↔ e = .pciEnableMsi d 0 := by
  constructor
  · intro h
    cases e with
    | pciEnableMsi d' err =>
        simp only [Effect.entry] at h
        split at h
        · rename_i herr
          cases h
          rw [herr]
        · cases h
    | pciEnableDevice | pciRequestRegions =>
        simp only [Effect.entry] at h
        split at h <;> cases h
    | pciIomap d' n len addr => cases addr <;> cases h
    | pciDisableMsi d' => cases d' <;> cases h
    | _ => cases h
  · rintro rfl
    rfl

/-! ## The ledger of a probe -/

/-- What a probe of `d` that succeeds acquires. -/
def ProbeGains (env : ProbeEnv) (d : PciDev) : Resource → Prop
  | .enabled d' => d' = d
  | .regions d' => d' = d
  | .mapping m => (probedBar env d m.bar {}).memmoryBase = some m
  | .msi d' => d' = d ∧ env.configPciMsi = true ∧ env.enableMsi = 0
  | .irq .. => False

instance (env : ProbeEnv) (d : PciDev) (r : Resource) : Decidable (ProbeGains env d r) :=
  match r with
  | .enabled d' | .regions d' => inferInstanceAs (Decidable (d' = d))
  | .mapping m => inferInstanceAs (Decidable ((probedBar env d m.bar {}).memmoryBase = some m))
  | .msi d' => inferInstanceAs (Decidable (d' = d ∧ env.configPciMsi = true ∧ env.enableMsi = 0))
  | .irq .. => inferInstanceAs (Decidable False)

theorem iomapCalls_tally (env : ProbeEnv) (d : PciDev) (m : Iomem) :
    Ledger.tally Effect.entry (allBars.flatMap (iomapCalls env d)) (.acquire (.mapping m)) =
      if ProbeGains env d (.mapping m) then 1 else 0 := by
  rw [Ledger.tally_flatMap allBars_nodup (mem_allBars m.bar)]
  · simp only [ProbeGains, probedBar_memmoryBase, iomapCalls]
    obtain ⟨d', n, a⟩ := m
    by_cases himp : env.Implements n
    · cases env.iomap n with
      | none => simp [himp, Ledger.tally_cons, Effect.entry]
      | some a' => simp [himp, Ledger.tally_cons, Effect.entry, eq_comm]
    · simp [himp]
  · intro n hn e he
    simp only [iomapCalls] at he
    split at he
    · rw [List.mem_singleton.mp he]
      cases env.iomap n with
      | none => simp [Effect.entry]
      | some a =>
          simp only [Effect.entry, Option.map_some, ne_eq, Option.some.injEq,
            Ledger.Entry.acquire.injEq, Resource.mapping.injEq]
          rintro rfl
          exact hn rfl
    · cases he

theorem iomapCalls_tally_other (env : ProbeEnv) (d : PciDev) {x : Ledger.Entry Resource}
    (hx : ∀ m, x ≠ .acquire (.mapping m)) :
    Ledger.tally Effect.entry (allBars.flatMap (iomapCalls env d)) x = 0 := by
  apply Ledger.tally_eq_zero
  intro e he heq
  obtain ⟨n, -, hn⟩ := List.mem_flatMap.mp he
  simp only [iomapCalls] at hn
  split at hn
  · rw [List.mem_singleton.mp hn, Effect.entry, Option.map_eq_some_iff] at heq
    obtain ⟨a, -, rfl⟩ := heq
    exact hx _ rfl
  · cases hn

theorem nodeCalls_tally (env : ProbeEnv) (major : Int) (k : Slot) (devSts slotNum : Int)
    (x : Ledger.Entry Resource) :
    Ledger.tally Effect.entry (nodeCalls env major k devSts slotNum) x = 0 := by
  apply Ledger.tally_eq_zero
  intro e he
  have hnone : e.entry = none := by
    simp only [nodeCalls, List.mem_append, List.mem_cons, List.not_mem_nil, or_false] at he
    rcases he with hold | rfl | rfl
    · split at hold
      · rw [List.mem_singleton.mp hold]; rfl
      · cases hold
    · rfl
    · rfl
  simp [hnone]

theorem ProbeOutcome.logInfo_tally {env : ProbeEnv} {regs : Regs} {d : PciDev}
    {dv dv' : PcieuniDev} (o : ProbeOutcome env regs d dv dv') (x : Ledger.Entry Resource) :
    Ledger.tally Effect.entry o.logInfo x = 0 := by
  apply Ledger.tally_eq_zero
  intro e he
  obtain ⟨-, m, -, hthrough⟩ := discover_log o.discovered he
  simp [Effect.entry_of_through hthrough]

theorem msiCalls_tally (env : ProbeEnv) (d d' : PciDev) :
    Ledger.tally Effect.entry (msiCalls env d) (.acquire (.msi d')) =
      if ProbeGains env d (.msi d') then 1 else 0 := by
  simp only [msiCalls, ProbeGains]
  by_cases hconfig : env.configPciMsi = true
  · by_cases herr : env.enableMsi = 0
    · simp [hconfig, herr, Ledger.tally_cons, Effect.entry, eq_comm]
    · simp [hconfig, herr, Ledger.tally_cons, Effect.entry]
  · simp [hconfig]

theorem msiCalls_tally_other (env : ProbeEnv) (d : PciDev) {x : Ledger.Entry Resource}
    (hx : ∀ d', x ≠ .acquire (.msi d')) : Ledger.tally Effect.entry (msiCalls env d) x = 0 := by
  apply Ledger.tally_eq_zero
  intro e he heq
  simp only [msiCalls] at he
  split at he
  · rw [List.mem_singleton.mp he, Effect.entry] at heq
    split at heq
    · exact hx d (Option.some.inj heq).symm
    · cases heq
  · cases he

/-- The calls of a probe that succeeds. -/
def probeCalls {env : ProbeEnv} {regs : Regs} {d : PciDev} {dv dv' : PcieuniDev}
    (o : ProbeOutcome env regs d dv dv') (major : Int) (k : Slot) (devSts slotNum : Int) :
    List Effect :=
  [.pciEnableDevice d 0, .pciRequestRegions d 0] ++
    (allBars.flatMap (iomapCalls env d) ++ o.logInfo ++ msiCalls env d ++
      nodeCalls env major k devSts slotNum)

section Probe

variable {env : ProbeEnv} {regs : Regs} {d : PciDev} {dv dv' : PcieuniDev}
  (o : ProbeOutcome env regs d dv dv') (major : Int) (k : Slot) (devSts slotNum : Int)

/-- A probe that succeeds acquires this, each once. -/
theorem probe_acquires (r : Resource) :
    Ledger.tally Effect.entry (probeCalls o major k devSts slotNum) (.acquire r) =
      if ProbeGains env d r then 1 else 0 := by
  simp only [probeCalls, Ledger.tally_append, Ledger.tally_cons, Ledger.tally_nil, Effect.entry,
    nodeCalls_tally, o.logInfo_tally]
  cases r with
  | enabled d' | regions d' =>
      simp [iomapCalls_tally_other, msiCalls_tally_other, ProbeGains, eq_comm]
  | mapping m => simp [iomapCalls_tally, msiCalls_tally_other]
  | msi d' => simp [iomapCalls_tally_other, msiCalls_tally]
  | irq n k => simp [iomapCalls_tally_other, msiCalls_tally_other, ProbeGains]

theorem probe_msi : .pciEnableMsi d 0 ∈ probeCalls o major k devSts slotNum ↔
    env.configPciMsi = true ∧ env.enableMsi = 0 := by
  have htally := probe_acquires o major k devSts slotNum (.msi d)
  have hpos : (∃ e ∈ probeCalls o major k devSts slotNum, e.entry = some (.acquire (.msi d))) ↔
      ProbeGains env d (.msi d) := by
    rw [← Ledger.tally_pos, htally]
    by_cases h : ProbeGains env d (.msi d) <;> simp [h]
  simpa [Effect.entry_msi, ProbeGains] using hpos

theorem probe_releases (r : Resource) :
    Ledger.tally Effect.entry (probeCalls o major k devSts slotNum) (.release r) = 0 := by
  simp [probeCalls, Ledger.tally_cons, Effect.entry, nodeCalls_tally, o.logInfo_tally,
    iomapCalls_tally_other, msiCalls_tally_other]

end Probe

/-! ## The ledger of a remove -/

/-- What a remove releases, when the struct of its slot `k` is `dv`. -/
def RemoveGives (d : PciDev) (k : Slot) (dv : PcieuniDev) : Resource → Prop
  | .enabled d' => d' = d
  | .regions d' => dv.pcieuniPciDev = some d'
  | .mapping m => (dv.bar m.bar).memmoryBase = some m
  | .msi d' => dv.msi ≠ 0 ∧ dv.pcieuniPciDev = some d'
  | .irq n k' => dv.irqMode ≠ 0 ∧ n = dv.pciDevIrq ∧ k' = k

instance (d : PciDev) (k : Slot) (dv : PcieuniDev) (r : Resource) :
    Decidable (RemoveGives d k dv r) :=
  match r with
  | .enabled d' => inferInstanceAs (Decidable (d' = d))
  | .regions d' => inferInstanceAs (Decidable (dv.pcieuniPciDev = some d'))
  | .mapping m => inferInstanceAs (Decidable ((dv.bar m.bar).memmoryBase = some m))
  | .msi d' => inferInstanceAs (Decidable (dv.msi ≠ 0 ∧ dv.pcieuniPciDev = some d'))
  | .irq n k' => inferInstanceAs (Decidable (dv.irqMode ≠ 0 ∧ n = dv.pciDevIrq ∧ k' = k))

theorem releaseInterrupts_tally (k : Slot) (dv : PcieuniDev) (x : Ledger.Entry Resource) :
    Ledger.tally Effect.entry (releaseInterrupts k dv) x =
      (if dv.irqMode ≠ 0 ∧ .release (.irq dv.pciDevIrq k) = x then 1 else 0) +
      (if dv.msi ≠ 0 ∧ (dv.pcieuniPciDev.map fun d => .release (.msi d)) = some x then 1 else 0) := by
  simp only [releaseInterrupts, Ledger.tally_append]
  congr 1
  · by_cases h : dv.irqMode ≠ 0
    · rw [if_pos h, Ledger.tally_cons, Ledger.tally_nil]
      simp only [Effect.entry, Option.some.injEq, h, ne_eq, not_false_eq_true, true_and,
        Nat.add_zero]
    · rw [if_neg h, Ledger.tally_nil, if_neg (fun hx => h hx.1)]
  · by_cases h : dv.msi ≠ 0
    · rw [if_pos h, Ledger.tally_cons, Ledger.tally_nil]
      simp only [Effect.entry, h, ne_eq, not_false_eq_true, true_and, Nat.add_zero]
      congr
    · rw [if_neg h, Ledger.tally_nil, if_neg (fun hx => h hx.1)]

theorem iounmapCalls_tally {dv : PcieuniDev}
    (hmapped : ∀ n m, (dv.bar n).memmoryBase = some m → m.bar = n) (m : Iomem) :
    Ledger.tally Effect.entry (allBars.flatMap fun n => iounmapCalls (dv.bar n))
      (.release (.mapping m)) = if (dv.bar m.bar).memmoryBase = some m then 1 else 0 := by
  rw [Ledger.tally_flatMap allBars_nodup (mem_allBars m.bar)]
  · cases hm : (dv.bar m.bar).memmoryBase with
    | none => simp [iounmapCalls, hm]
    | some m' => simp [iounmapCalls, hm, Ledger.tally_cons, Effect.entry]
  · intro n hn e he
    simp only [iounmapCalls, Option.mem_toList, Option.map_eq_some_iff] at he
    obtain ⟨m', hm', rfl⟩ := he
    simp only [Effect.entry, ne_eq, Option.some.injEq, Ledger.Entry.release.injEq,
      Resource.mapping.injEq]
    rintro rfl
    exact hn (hmapped n _ hm').symm

theorem iounmapCalls_tally_other (dv : PcieuniDev) {x : Ledger.Entry Resource}
    (hx : ∀ m, x ≠ .release (.mapping m)) :
    Ledger.tally Effect.entry (allBars.flatMap fun n => iounmapCalls (dv.bar n)) x = 0 := by
  apply Ledger.tally_eq_zero
  intro e he heq
  obtain ⟨n, -, hn⟩ := List.mem_flatMap.mp he
  simp only [iounmapCalls, Option.mem_toList, Option.map_eq_some_iff] at hn
  obtain ⟨m, -, rfl⟩ := hn
  exact hx m (Option.some.inj heq).symm

/-- The calls of a remove. -/
def removeCalls (d p : PciDev) (k : Slot) (dv : PcieuniDev) (devno : Int) (name : String) :
    List Effect :=
  releaseInterrupts k dv ++ (allBars.flatMap fun n => iounmapCalls (dv.bar n)) ++
    [.pciReleaseRegions p, .deviceDestroy devno, .procRemove name, .pciDisableDevice d] ++
    dv.devFileList.map fun e => .setPrivateData e.filp nullSlot

theorem setPrivateData_tally (es : List FileEntry) (x : Ledger.Entry Resource) :
    Ledger.tally Effect.entry (es.map fun e => .setPrivateData e.filp nullSlot) x = 0 := by
  apply Ledger.tally_eq_zero
  intro e he
  obtain ⟨entry, -, rfl⟩ := List.mem_map.mp he
  simp [Effect.entry]

section Remove

variable {d : PciDev} {k : Slot} {dv : PcieuniDev} (hdev : dv.pcieuniPciDev = some d)
  (devno : Int) (name : String)

include hdev

/-- A remove releases this, each once. -/
theorem remove_releases (hmapped : ∀ n m, (dv.bar n).memmoryBase = some m → m.bar = n)
    (r : Resource) :
    Ledger.tally Effect.entry (removeCalls d d k dv devno name) (.release r) =
      if RemoveGives d k dv r then 1 else 0 := by
  simp only [removeCalls, Ledger.tally_append, Ledger.tally_cons, Ledger.tally_nil, Effect.entry,
    releaseInterrupts_tally, setPrivateData_tally, hdev]
  cases r with
  | enabled d' =>
      by_cases h : d' = d
      · simp [iounmapCalls_tally_other, RemoveGives, h]
      · simp [iounmapCalls_tally_other, RemoveGives, h, Ne.symm h]
  | regions d' => simp [iounmapCalls_tally_other, RemoveGives, hdev]
  | mapping m =>
      by_cases h : (dv.bar m.bar).memmoryBase = some m
      · simp [iounmapCalls_tally hmapped, RemoveGives, h]
      · simp [iounmapCalls_tally hmapped, RemoveGives, h]
  | msi d' => simp [iounmapCalls_tally_other, RemoveGives, hdev]
  | irq n k' =>
      have hswap : (dv.pciDevIrq = n ∧ k = k') ↔ (n = dv.pciDevIrq ∧ k' = k) :=
        and_congr eq_comm eq_comm
      simp only [RemoveGives, ← hswap]
      simp [iounmapCalls_tally_other]

omit hdev in
theorem remove_acquires (r : Resource) :
    Ledger.tally Effect.entry (removeCalls d d k dv devno name) (.acquire r) = 0 := by
  simp [removeCalls, Ledger.tally_cons, Effect.entry, releaseInterrupts_tally,
    setPrivateData_tally, iounmapCalls_tally_other]

end Remove

/-! ## Probes, interrupt set-ups and removes as a system -/

/-- A call of the kernel: an effect of a probe or a remove, or `request_irq` with
its answer. -/
inductive PlugCall where
  | effect (e : Effect)
  | requestIrq (n : BitVec 32) (k : Slot) (err : Int)

def PlugCall.entry : PlugCall → Option (Ledger.Entry Resource)
  | .effect e => e.entry
  | .requestIrq n k err => if err = 0 then some (.acquire (.irq n k)) else none

theorem tally_effects (log : List Effect) (x : Ledger.Entry Resource) :
    Ledger.tally PlugCall.entry (log.map .effect) x = Ledger.tally Effect.entry log x :=
  Ledger.tally_map _ _

/-- One of the three calls; `err` is the answer of `request_irq`. -/
inductive PlugOp where
  | probe (env : ProbeEnv) (d : PciDev)
  | setupInterrupt (err : Int) (d : PciDev)
  | remove (devName : String) (d : PciDev)

structure PlugRet where
  ret : Int
  log : List PlugCall

/-- The driver with the ledger, and what the last probe of each device and the
set-up after it have returned. -/
structure Plugged where
  driver : Driver
  held : Resource → Int
  /-- What `pcieuni_setup_interrupt` returned since the last probe of the device. -/
  setup : PciDev → Option Int
  /-- The last probe of the device called `pci_enable_msi`, which succeeded. -/
  msi : PciDev → Bool

namespace Plugged

/-- The ledger after a log of calls. -/
def post (s : Plugged) (log : List PlugCall) : Resource → Int := fun r =>
  s.held r + Ledger.balance PlugCall.entry log r

def step (s : Plugged) : PlugOp → Option (Plugged × PlugRet)
  | .probe env d =>
    match s.driver.exec (.probe env d) with
    | .error _ => none
    | .ok (driver, r) =>
      let log := r.log.map .effect
      some ({ driver
              held := s.post log
              setup := Function.update s.setup d none
              msi := Function.update s.msi d (decide (.pciEnableMsi d 0 ∈ r.log)) }, ⟨r.ret, log⟩)
  | .setupInterrupt err d =>
    match s.driver.drvdata d with
    | none => none
    | some k =>
      let (dv, ret) := pcieuniSetupInterrupt err (s.driver.dev k)
      let log := [.requestIrq (s.driver.dev k).pciDevIrq k err]
      some ({ s with
              driver := s.driver.setDev k dv
              held := s.post log
              setup := Function.update s.setup d (some ret) }, ⟨ret, log⟩)
  | .remove devName d =>
    match s.driver.exec (.remove devName d) with
    | .error _ => none
    | .ok (driver, r) =>
      let log := r.log.map .effect
      some ({ s with driver, held := s.post log }, ⟨r.ret, log⟩)

/-- How the calls are made: a device is probed when it is not bound, its interrupt
is set up at most once while it is, and it is removed when it is. `config` says
whether the driver is compiled with MSI. -/
def Admissible (config : Bool) (s : Plugged) : PlugOp → Prop
  | .probe env d => d ∉ s.driver.bound ∧ env.configPciMsi = config
  | .setupInterrupt _ d => d ∈ s.driver.bound ∧ s.setup d = none
  | .remove _ d => d ∈ s.driver.bound

instance (config : Bool) (s : Plugged) (op : PlugOp) : Decidable (s.Admissible config op) :=
  match op with
  | .probe env d => inferInstanceAs (Decidable (d ∉ s.driver.bound ∧ env.configPciMsi = config))
  | .setupInterrupt _ d => inferInstanceAs (Decidable (d ∈ s.driver.bound ∧ s.setup d = none))
  | .remove _ d => inferInstanceAs (Decidable (d ∈ s.driver.bound))

/-- The device `d` is bound to slot `k`. -/
def BoundAt (s : Plugged) (d : PciDev) (k : Slot) : Prop :=
  d ∈ s.driver.bound ∧ s.driver.drvdata d = some k

/-- What is held, by what the driver knows: a bound device is enabled and has its
regions, every mapping in its struct, its interrupt if the set-up succeeded, and
MSI if it could be enabled. -/
def Holds (s : Plugged) : Resource → Prop
  | .enabled d => d ∈ s.driver.bound
  | .regions d => d ∈ s.driver.bound
  | .mapping m => ∃ d k n, s.BoundAt d k ∧ ((s.driver.dev k).bar n).memmoryBase = some m
  | .msi d => d ∈ s.driver.bound ∧ s.msi d = true
  | .irq n k => ∃ d, s.BoundAt d k ∧ (s.driver.dev k).pciDevIrq = n ∧ s.setup d = some 0

/-- The resources of the device `d`. An interrupt belongs to the device that has
its slot. -/
def BelongsTo (s : Plugged) (d : PciDev) : Resource → Prop
  | .enabled d' => d' = d
  | .regions d' => d' = d
  | .mapping m => m.dev = d
  | .msi d' => d' = d
  | .irq _ k => s.BoundAt d k

end Plugged

/-- The driver with its ledger, from the initialisation on. -/
def plugLts : Lts Plugged PlugOp PlugRet where
  init s := driverLts.init s.driver ∧ s.held = (fun _ => 0) ∧ s.setup = (fun _ => none) ∧
    s.msi = fun _ => false
  step := Plugged.step

end Gpcieuni
