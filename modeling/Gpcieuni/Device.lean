-- SUMMARY: The driver's data model: the device struct with its six BARs, the slot table, the open files, and the effects of a call on the kernel and the hardware.
import Mathlib.Logic.Function.Basic
import Mathlib.Data.List.Basic
import Gpcieuni.Kernel

/-!
# Data model

The structures of `pcieuni_ufn.h`. The source spells out `mem_base0` to
`mem_base5` and their companions as single fields; here they are one family
indexed by the BAR number. Fields that no modelled function reads or writes are
left out.
-/

namespace Gpcieuni

/-- `PCIEUNI_NR_DEVS`, the number of slots for PCI devices. -/
def pcieuniNrDevs : Nat := 15

/-- An index of `pcieuni_dev_m`. The last one is the null device. -/
abbrev Slot := Fin (pcieuniNrDevs + 1)

/-- The slot that stands for "the device has gone". -/
def nullSlot : Slot := Fin.last pcieuniNrDevs

/-- `MKDEV`: the device number of a major and a minor number. -/
def mkdev (major minor : Int) : Int := major * 2 ^ 20 + minor

/-- The numerals for the six BARs. -/
instance instNeZeroSix : NeZero (6 : Nat) := ⟨by decide⟩

/-- The identity of a `struct pci_dev`. -/
abbrev PciDev := Nat

/-- The identity of a `struct file`. -/
abbrev FilePtr := Nat

/-- A mapping made by `pci_iomap`: the resource it maps and the address it was
given. -/
structure Iomem where
  dev : PciDev
  bar : Fin 6
  addr : Nat
  deriving DecidableEq, Repr

/-! ## The device struct -/

/-- The fields `mem_baseN`, `mem_baseN_end`, `mem_baseN_flag`, `rw_offN` and
`memmory_baseN` of one BAR. A mapping that is `none` is the null pointer. -/
structure Bar where
  memBase : BitVec 32 := 0
  memBaseEnd : BitVec 32 := 0
  memBaseFlag : BitVec 32 := 0
  rwOff : BitVec 64 := 0
  memmoryBase : Option Iomem := none
  deriving DecidableEq, Repr

/-- `pcieuni_file_list`: an entry of a device's list of open files. -/
structure FileEntry where
  filp : FilePtr
  fileCnt : Int
  deriving DecidableEq, Repr

/-- `pcieuni_brd_info`. -/
structure BrdInfo where
  boardId : BitVec 32 := 0
  boardVersion : BitVec 32 := 0
  boardDate : BitVec 32 := 0
  hwVersion : BitVec 32 := 0
  boardReserved : BitVec 32 := 0
  projNext : BitVec 32 := 0
  deriving DecidableEq, Repr

/-- `pcieuni_prj_info`. -/
structure PrjInfo where
  projId : BitVec 32 := 0
  projVersion : BitVec 32 := 0
  projDate : BitVec 32 := 0
  projReserved : BitVec 32 := 0
  projNext : BitVec 32 := 0
  deriving DecidableEq, Repr

/-- `pcieuni_dev`. The defaults are the zeros that `kzalloc` leaves. -/
structure PcieuniDev where
  name : String := ""
  /-- The mutex is held. -/
  devMut : Bool := false
  binded : Int := 0
  pcieuniPciDev : Option PciDev := none
  devNum : Int := 0
  brdNum : Int := 0
  devMinor : Int := 0
  devSts : Int := 0
  devFileRef : Int := 0
  nullDev : Int := 0
  devFileList : List FileEntry := []
  slotNum : Int := 0
  vendorId : BitVec 16 := 0
  deviceId : BitVec 16 := 0
  subvendorId : BitVec 16 := 0
  subdeviceId : BitVec 16 := 0
  classCode : BitVec 16 := 0
  revision : BitVec 8 := 0
  busFunc : Int := 0
  bar : Fin 6 → Bar := fun _ => {}
  devDma64mask : Int := 0
  pcieuniAllMems : Int := 0
  msi : BitVec 8 := 0
  irqFlag : BitVec 32 := 0
  irqMode : BitVec 16 := 0
  irqLine : BitVec 8 := 0
  irqPin : BitVec 8 := 0
  pciDevIrq : BitVec 32 := 0
  brdInfoList : BrdInfo := {}
  prjInfoList : List PrjInfo := []
  startupBrd : Int := 0
  startupPrjNum : Int := 0

namespace PcieuniDev

/-- Replace the fields of BAR `n`. -/
def setBar (dv : PcieuniDev) (n : Fin 6) (b : Bar) : PcieuniDev :=
  { dv with bar := Function.update dv.bar n b }

@[simp] theorem setBar_bar_self (dv : PcieuniDev) (n : Fin 6) (b : Bar) :
    (dv.setBar n b).bar n = b := by simp [setBar]

@[simp] theorem setBar_bar_ne {dv : PcieuniDev} {m n : Fin 6} {b : Bar} (h : m ≠ n) :
    (dv.setBar n b).bar m = dv.bar m := by simp [setBar, h]

/-- Unlocking a struct whose mutex was free gives back the struct. -/
theorem unlocked {dv : PcieuniDev} (h : dv.devMut = false) : { dv with devMut := false } = dv := by
  rw [← h]

end PcieuniDev

/-- The BARs in the order in which the source goes through them. -/
def allBars : List (Fin 6) := [0, 1, 2, 3, 4, 5]

theorem mem_allBars (n : Fin 6) : n ∈ allBars := by revert n; decide

/-! ## Registers -/

/-- The registers of all devices: the word at a byte offset of a BAR. -/
abbrev Regs := PciDev → Fin 6 → Int → BitVec 32

/-- `ioread32` at byte offset `off` of a mapping. -/
def Regs.ioread32 (regs : Regs) (m : Iomem) (off : Int) : BitVec 32 := regs m.dev m.bar off

/-- `iowrite32`, for registers that are plain memory. -/
def Regs.iowrite32 (regs : Regs) (m : Iomem) (off : Int) (w : BitVec 32) : Regs :=
  fun d n i => if d = m.dev ∧ n = m.bar ∧ i = off then w else regs d n i

@[simp] theorem Regs.iowrite32_same (regs : Regs) (m : Iomem) (off : Int) (w : BitVec 32) :
    regs.iowrite32 m off w m.dev m.bar off = w := by simp [Regs.iowrite32]

theorem Regs.iowrite32_ne {regs : Regs} {m : Iomem} {off i : Int} {w : BitVec 32} {d : PciDev}
    {n : Fin 6} (h : ¬ (d = m.dev ∧ n = m.bar ∧ i = off)) :
    regs.iowrite32 m off w d n i = regs d n i := by simp [Regs.iowrite32, h]

/-! ## Effects -/

/-- What a call does outside the driver's own structures, in program order. A
call that acquires something carries the kernel's answer. -/
inductive Effect where
  | pciEnableDevice (d : PciDev) (err : Int)
  | pciDisableDevice (d : PciDev)
  | pciRequestRegions (d : PciDev) (err : Int)
  | pciReleaseRegions (d : PciDev)
  | pciIomap (d : PciDev) (bar : Fin 6) (maxlen : BitVec 32) (addr : Option Nat)
  | pciIounmap (m : Iomem)
  | pciEnableMsi (d : PciDev) (err : Int)
  | pciDisableMsi (d : Option PciDev)
  | freeIrq (irq : BitVec 32) (k : Slot)
  | deviceCreate (devno : Int) (name : String)
  | deviceDestroy (devno : Int)
  | procCreate (name : String) (k : Slot)
  | procRemove (name : String)
  | setPrivateData (filp : FilePtr) (k : Slot)
  | ioread32 (m : Iomem) (off : Int)
  | iowrite32 (m : Iomem) (off : Int) (w : BitVec 32)
  | pciReadConfigByte (d : PciDev)
  deriving DecidableEq, Repr

/-- The PCI device whose registers or configuration space an effect accesses. -/
def Effect.accesses : Effect → Option PciDev
  | .ioread32 m _ => some m.dev
  | .iowrite32 m _ _ => some m.dev
  | .pciReadConfigByte d => some d
  | _ => none

/-- The mapping through which an effect accesses a register. -/
def Effect.through : Effect → Option Iomem
  | .ioread32 m _ => some m
  | .iowrite32 m _ _ => some m
  | _ => none

/-- The effect accesses no register, or four bytes at a byte offset between 0 and
`length - 4`, where `len` gives the length behind a mapping. -/
def Effect.Inside (len : Iomem → Nat) : Effect → Prop
  | .ioread32 m off => 0 ≤ off ∧ off + 4 ≤ len m
  | .iowrite32 m off _ => 0 ≤ off ∧ off + 4 ≤ len m
  | _ => True

/-! ## The driver -/

/-- A file that user space has open, with the slot its `private_data` names. -/
structure OpenFile where
  filp : FilePtr
  privateData : Slot
  deriving DecidableEq, Repr

/-- The state of the driver and of the part of the kernel it works with. -/
structure Driver where
  /-- `pcieuni_dev_m` -/
  dev : Slot → PcieuniDev
  pcieuniMajor : Int
  pcieuniModuleNum : Int
  pcieuniDrvVerMaj : BitVec 16
  pcieuniDrvVerMin : BitVec 16
  /-- The driver data that each PCI device carries. -/
  drvdata : PciDev → Option Slot
  /-- The PCI devices that the driver core has bound to this driver. -/
  bound : List PciDev
  files : List OpenFile
  regs : Regs

namespace Driver

/-- Replace the device struct of slot `k`. -/
def setDev (s : Driver) (k : Slot) (dv : PcieuniDev) : Driver :=
  { s with dev := Function.update s.dev k dv }

@[simp] theorem setDev_dev_self (s : Driver) (k : Slot) (dv : PcieuniDev) :
    (s.setDev k dv).dev k = dv := by simp [setDev]

@[simp] theorem setDev_dev_ne {s : Driver} {j k : Slot} {dv : PcieuniDev} (h : j ≠ k) :
    (s.setDev k dv).dev j = s.dev j := by simp [setDev, h]

@[simp] theorem setDev_pcieuniModuleNum (s : Driver) (k : Slot) (dv : PcieuniDev) :
    (s.setDev k dv).pcieuniModuleNum = s.pcieuniModuleNum := rfl

@[simp] theorem setDev_drvdata (s : Driver) (k : Slot) (dv : PcieuniDev) :
    (s.setDev k dv).drvdata = s.drvdata := rfl

@[simp] theorem setDev_bound (s : Driver) (k : Slot) (dv : PcieuniDev) :
    (s.setDev k dv).bound = s.bound := rfl

@[simp] theorem setDev_files (s : Driver) (k : Slot) (dv : PcieuniDev) :
    (s.setDev k dv).files = s.files := rfl

/-- What holds of the new struct and of every other slot holds of every slot. -/
theorem setDev_forall {s : Driver} {k : Slot} {dv : PcieuniDev} {Q : Slot → PcieuniDev → Prop}
    (hk : Q k dv) (hne : ∀ j, j ≠ k → Q j (s.dev j)) : ∀ j, Q j ((s.setDev k dv).dev j) := by
  intro j
  by_cases h : j = k
  · subst h; simpa using hk
  · simpa [h] using hne j h

/-- The slot that an open file's `private_data` names. -/
def privateData (s : Driver) (f : FilePtr) : Option Slot :=
  (s.files.find? (·.filp = f)).map (·.privateData)

/-- The state after a successful `pcieuni_init_module_exp`: every slot is free
and the null device takes the last one. -/
def initial (major : Int) (verMaj verMin : BitVec 16) (regs : Regs) : Driver where
  dev k :=
    { devNum := mkdev major k
      brdNum := k
      devMinor := k
      binded := if k = nullSlot then 1 else 0
      nullDev := if k = nullSlot then 1 else 0 }
  pcieuniMajor := major
  pcieuniModuleNum := 0
  pcieuniDrvVerMaj := verMaj
  pcieuniDrvVerMin := verMin
  drvdata _ := none
  bound := []
  files := []
  regs := regs

end Driver

end Gpcieuni
