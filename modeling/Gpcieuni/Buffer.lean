-- SUMMARY: The memory side of `pcieuni_buffer.c`: creating and destroying a DMA buffer, and what the calls they make do to the kernel's memory.
import Gpcieuni.BufferList
import Gpcieuni.Device
import Gpcieuni.Lib.Registry
import Mathlib.Data.Nat.Size

/-!
# DMA buffers

`pcieuni_buffer_create` computes the size of a buffer by a shift of the `int`
constant 1 before it knows whether there is memory of that order. A shift that
overflows has no value: the size is `none` then, and so is the result of a call
that goes on to use it.
-/

namespace Gpcieuni

/-! ## What the kernel does -/

def pageShift : Nat := 12

def pageSize : Nat := 1 <<< pageShift

/-- `get_order`: `fls64` of the last byte's page number. -/
def getOrder (size : BitVec 64) : Nat := ((size - 1) >>> pageShift).toNat.size

/-- `virt_to_page`: the number of the page that holds an address. -/
def virtToPage (a : BitVec 64) : BitVec 64 := a >>> pageShift

/-- A call of the kernel's memory functions that takes effect. -/
inductive MemCall where
  | kzalloc (p : BitVec 64)
  | getFreePages (kaddr : BitVec 64) (order : BitVec 32)
  | setPageReserved (page : BitVec 64)
  | dmaMapSingle (d : PciDev) (handle kaddr size : BitVec 64)
  | dmaUnmapSingle (d : PciDev) (handle size : BitVec 64)
  | clearPageReserved (page : BitVec 64)
  | freePages (kaddr : BitVec 64) (order : BitVec 32)
  | kfree (p : BitVec 64)
  deriving DecidableEq, Repr

/-- The kernel's memory as far as the driver acts on it. -/
structure Memory where
  /-- The objects that `kzalloc` has handed out. -/
  objects : Registry (BitVec 64) Unit
  /-- The blocks of pages that are handed out, with their orders. -/
  blocks : Registry (BitVec 64) (BitVec 32)
  /-- `PageReserved` -/
  reserved : BitVec 64 → Bool
  /-- The block and the size that a device has mapped under a handle. -/
  mappings : Registry (PciDev × BitVec 64) (BitVec 64 × BitVec 64)

/-- The effect of a call. There is none if the call gives back what is not held
in that form. -/
def Memory.call (m : Memory) : MemCall → Option Memory
  | .kzalloc p => some { m with objects := m.objects.add p () }
  | .getFreePages kaddr order => some { m with blocks := m.blocks.add kaddr order }
  | .setPageReserved page => some { m with reserved := Function.update m.reserved page true }
  | .dmaMapSingle d handle kaddr size =>
    some { m with mappings := m.mappings.add (d, handle) (kaddr, size) }
  | .dmaUnmapSingle d handle size =>
    if (m.mappings (d, handle)).map (·.2) = some size then
      some { m with mappings := m.mappings.remove (d, handle) }
    else none
  | .clearPageReserved page => some { m with reserved := Function.update m.reserved page false }
  | .freePages kaddr order =>
    if m.blocks kaddr = some order then some { m with blocks := m.blocks.remove kaddr } else none
  | .kfree p =>
    if m.objects p = some () then some { m with objects := m.objects.remove p } else none

/-- The effect of a sequence of calls. -/
def Memory.run (m : Memory) : List MemCall → Option Memory
  | [] => some m
  | c :: log =>
    match m.call c with
    | none => none
    | some m' => m'.run log

/-! ## The driver -/

/-- `1 << n` as an `int`, widened to `unsigned long`. -/
def intOneShiftLeft (n : BitVec 32) : Option (BitVec 64) :=
  if n.toNat < 31 then some (1#64 <<< n.toNat) else none

/-- `pcieuni_buffer`, at the address `addr`. -/
structure PcieuniBuffer where
  addr : BitVec 64
  size : Option (BitVec 64)
  order : BitVec 32
  kaddr : BitVec 64 := 0
  dmaHandle : BitVec 64 := 0
  state : BitVec 64
  deriving DecidableEq, Repr

/-- The pages that the loop over a block of `size` bytes comes to from byte `iter`
on. `iter` does not wrap: an `int` shift leaves a `size` below `2 ^ 31`. -/
def pageLoop (kaddr : BitVec 64) (size iter : Nat) : List (BitVec 64) :=
  if iter < size then
    virtToPage (kaddr + BitVec.ofNat 64 iter) :: pageLoop kaddr size (iter + pageSize)
  else []
termination_by size - iter
decreasing_by simp only [pageSize, pageShift]; omega

/-- `pcieuni_buffer_destroy` with `d` for `dev->pcieuni_pci_dev`: the calls that
it makes. `mappingError` is `dma_mapping_error`. -/
def pcieuniBufferDestroy (mappingError : BitVec 64 → Bool) (d : PciDev) :
    Option PcieuniBuffer → Option (List MemCall)
  | none => some []
  | some buffer =>
    if buffer.kaddr ≠ 0 then
      match buffer.size with
      | none => none
      | some size =>
        let unmap :=
          if mappingError buffer.dmaHandle then [] else [.dmaUnmapSingle d buffer.dmaHandle size]
        some (unmap ++ (pageLoop buffer.kaddr size.toNat 0).map .clearPageReserved ++
          [.freePages buffer.kaddr buffer.order, .kfree buffer.addr])
    else some [.kfree buffer.addr]

/-- What the kernel answers during `pcieuni_buffer_create`. -/
structure BufferEnv where
  /-- The structure, if there is memory for it. -/
  kzalloc : Option (BitVec 64)
  /-- The address of a block of that order, or 0. -/
  getFreePages : BitVec 32 → BitVec 64
  /-- The handle, which `dma_mapping_error` tells from an error. -/
  dmaMapSingle : BitVec 64

/-- The result of `pcieuni_buffer_create`: the buffer or the error in the pointer,
and the calls. -/
structure BufferRet where
  ret : Int ⊕ PcieuniBuffer
  log : List MemCall

/-- `pcieuni_buffer_create` with `d` for `dev->pcieuni_pci_dev`. -/
def pcieuniBufferCreate (env : BufferEnv) (mappingError : BitVec 64 → Bool) (d : PciDev)
    (bufSize : BitVec 64) : Option BufferRet :=
  match env.kzalloc with
  | none => some ⟨.inl (-enomem), []⟩
  | some p =>
    let order := BitVec.ofNat 32 (getOrder bufSize)
    let buffer : PcieuniBuffer :=
      { addr := p
        order
        size := intOneShiftLeft (order + BitVec.ofNat 32 pageShift)
        state := BufferList.createdState
        kaddr := env.getFreePages order }
    if buffer.kaddr = 0 then
      match pcieuniBufferDestroy mappingError d (some buffer) with
      | none => none
      | some log => some ⟨.inl (-enomem), .kzalloc p :: log⟩
    else
      match buffer.size with
      | none => none
      | some size =>
        let buffer := { buffer with dmaHandle := env.dmaMapSingle }
        let log := .kzalloc p :: .getFreePages buffer.kaddr order ::
          (pageLoop buffer.kaddr size.toNat 0).map .setPageReserved
        if mappingError buffer.dmaHandle then
          match pcieuniBufferDestroy mappingError d (some buffer) with
          | none => none
          | some log' => some ⟨.inl (-enomem), log ++ log'⟩
        else some ⟨.inr buffer, log ++ [.dmaMapSingle d buffer.dmaHandle buffer.kaddr size]⟩

end Gpcieuni
