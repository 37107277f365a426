-- SUMMARY: The functions of `pcieuni_ufn.c` that a client driver calls on a bound device: its board number, the address of a BAR, the write of a register, the set-up of the interrupt, and the text of the proc entry.
import Gpcieuni.Device

/-!
# Exported helpers

What a driver that is built on this one uses between a probe and a remove.
-/

namespace Gpcieuni

/-! ## The board number -/

/-- `pcieuni_get_brdnum`. -/
def pcieuniGetBrdnum (d : PciDev) (s : Driver) : Call Int :=
  match s.drvdata d with
  | none => .error .oops
  | some k => .ok (s.dev k).brdNum

/-! ## The address of a BAR -/

/-- `pcieuni_get_baddress`. Every case returns the mapping of BAR 0. -/
def pcieuniGetBaddress (brNum : Int) (dv : PcieuniDev) : Option Iomem :=
  match brNum with
  | 0 => (dv.bar 0).memmoryBase
  | 1 => (dv.bar 0).memmoryBase
  | 2 => (dv.bar 0).memmoryBase
  | 3 => (dv.bar 0).memmoryBase
  | 4 => (dv.bar 0).memmoryBase
  | 5 => (dv.bar 0).memmoryBase
  | _ => none

theorem pcieuniGetBaddress_fin (n : Fin 6) (dv : PcieuniDev) :
    pcieuniGetBaddress n dv = (dv.bar 0).memmoryBase := by
  match n with
  | 0 | 1 | 2 | 3 | 4 | 5 => rfl

/-! ## A register write -/

/-- `pcieuni_register_write32` through the mapping `bar`. The result is the registers,
the returned value and the accesses. -/
def pcieuniRegisterWrite32 (regs : Regs) (bar : Iomem) (offset value : BitVec 32)
    (ensureFlush : Bool) : Regs × Int × List Effect :=
  let regs := regs.iowrite32 bar offset.toNat value
  -- the value that comes back is not used
  let readback := if ensureFlush then [.ioread32 bar 0] else []
  (regs, 0, .iowrite32 bar offset.toNat value :: readback)

/-! ## The interrupt -/

/-- `pcieuni_setup_interrupt`, when `request_irq` returns `err`. The result is the
struct and the returned value. -/
def pcieuniSetupInterrupt (err : Int) (dv : PcieuniDev) : PcieuniDev × Int :=
  let dv := { dv with irqMode := 1 }
  if err ≠ 0 then ({ dv with irqMode := 0 }, err) else (dv, err)

/-! ## The proc entry -/

/-- The version numbers in `pcieuni_cdev`. -/
structure CdevVersions where
  gpcieuniVerMaj : BitVec 16
  gpcieuniVerMin : BitVec 16
  pcieuniDrvVerMaj : BitVec 16
  pcieuniDrvVerMin : BitVec 16

/-- The conversion `%X`. -/
def upperHex (w : BitVec 32) : String := String.ofList ((Nat.toDigits 16 w.toNat).map Char.toUpper)

/-- One `seq_printf` of a name and a value. -/
def procLine (name value : String) : String := name ++ ":\t" ++ value ++ "\n"

/-- The lines of one project record. -/
def prjLines (p : PrjInfo) : String :=
  procLine "Project ID" (upperHex p.projId) ++
    procLine "Project Version" (upperHex p.projVersion) ++
    procLine "Project Date" (upperHex p.projDate) ++
    procLine "Project Reserved" (upperHex p.projReserved) ++
    procLine "Project Next" (upperHex p.projNext)

/-- `pcieuni_procinfo`: the text that it prints for a device. -/
def pcieuniProcinfo (v : CdevVersions) (dv : PcieuniDev) : String :=
  procLine "GPCIEUNI Driver Version"
      (toString v.gpcieuniVerMaj.toNat ++ "." ++ toString v.gpcieuniVerMin.toNat) ++
    procLine "Driver Version"
      (toString v.pcieuniDrvVerMaj.toNat ++ "." ++ toString v.pcieuniDrvVerMin.toNat) ++
    procLine "Board NUM" (toString dv.brdNum) ++
    procLine "Slot NUM" (toString dv.slotNum) ++
    procLine "Board ID" (upperHex dv.brdInfoList.boardId) ++
    procLine "Board Version" (upperHex dv.brdInfoList.boardVersion) ++
    procLine "Board Date" (upperHex dv.brdInfoList.boardDate) ++
    procLine "Board HW Ver" (upperHex dv.brdInfoList.hwVersion) ++
    procLine "Board Next Prj" (upperHex dv.brdInfoList.projNext) ++
    procLine "Board Reserved" (upperHex dv.brdInfoList.boardReserved) ++
    procLine "Number of Proj" (toString dv.startupPrjNum) ++
    String.join (dv.prjInfoList.map prjLines)

end Gpcieuni
