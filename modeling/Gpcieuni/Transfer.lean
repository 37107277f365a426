-- SUMMARY: The read and write entry points of `pcieuni_rw_no_struct_exp.c`: the check of a request and the word loops.
import Gpcieuni.Device

/-!
# Register transfers

`loff_t`, `size_t` and `unsigned long` are 64 bits wide, `unsigned int` and
`u32` are 32 bits wide, and every operation wraps as the source's does. The word
loops run on a 32-bit byte counter, so nothing in their text bounds the number
of iterations; they take the number of iterations as fuel.
-/

namespace Gpcieuni

/-- `PCIEUNI_BAR_OFFSETS`: where each BAR starts in the address space of the
character device. -/
def pcieuniBarOffsets (n : Fin 6) : BitVec 64 := BitVec.ofNat 64 n <<< 60

/-! ## The check -/

/-- `transfer_information`. The two pointers into the BAR are a mapping and a
number of words. -/
structure TransferInformation where
  bar : BitVec 32
  offset : BitVec 64
  barSizeInBytes : BitVec 64
  barStart : Iomem
  barEnd : BitVec 64
  nBytesToTransfer : BitVec 32
  deriving DecidableEq, Repr

/-- `DEFINE_BAR_START_AND_SIZE`: the start of a BAR and its size. The size is
the difference of the two `u32` fields, widened afterwards. -/
def barStartAndSize (b : Bar) : Option Iomem × BitVec 64 :=
  (b.memmoryBase, (b.memBaseEnd - b.memBase).setWidth 64)

/-- `checkAndCalculateTransferInformation`. The left result is the error that it
returns. -/
def checkAndCalculateTransferInformation (dv : PcieuniDev) (count virtualOffset : BitVec 64) :
    Int ⊕ TransferInformation :=
  if dv.devSts = 0 then .inl (-efault)
  else if virtualOffset.srem 4 ≠ 0 then .inl (-efault)
  else if count % 4 ≠ 0 then .inl (-efault)
  else
    let bar : BitVec 32 := (virtualOffset.sshiftRight 60 &&& 7#64).setWidth 32
    let offset := virtualOffset &&& 0x0FFFFFFFFFFFFFFF#64
    if hbar : bar.toNat < 6 then
      let (start, barSizeInBytes) := barStartAndSize (dv.bar ⟨bar.toNat, hbar⟩)
      match start with
      | none => .inl (-efault)
      | some barStart =>
        if barSizeInBytes < offset then .inl (-efault)
        else
          .inr
            { bar, offset, barSizeInBytes, barStart
              barEnd := barSizeInBytes / 4
              nBytesToTransfer :=
                if barSizeInBytes < offset + count then (barSizeInBytes - offset).setWidth 32
                else count.setWidth 32 }
    else .inl (-efault)

/-- The byte offset, inside the mapping, of the word that a transfer accesses
when its byte counter stands at `n`. `barStart` points to words, so the source
divides by the size of a word and the compiler multiplies by it again. -/
def TransferInformation.wordOffset (ti : TransferInformation) (n : BitVec 32) : Int :=
  ((ti.offset + n.setWidth 64) / 4).toNat * 4

/-! ## Reading -/

/-- What the environment decides during a read. `left n` is the number of bytes
that `copy_to_user` leaves uncopied at byte `n` of the buffer. -/
structure ReadEnv where
  intr : Bool := false
  left : Nat → Nat := fun _ => 0
  fuel : Nat

/-- The state of the read loop when it ends. -/
structure ReadLoop where
  n : BitVec 32
  buf : UserMem
  log : List Effect

/-- The word loop of `pcieuni_read_no_struct_exp`. -/
def readLoop (regs : Regs) (left : Nat → Nat) (ti : TransferInformation) :
    (fuel : Nat) → (n : BitVec 32) → UserMem → Call ReadLoop
  | 0, _, _ => .error .unfinished
  | fuel + 1, n, buf =>
    if n < ti.nBytesToTransfer then
      let off := ti.wordOffset n
      let outputWord := regs.ioread32 ti.barStart off
      let buf' := copyToUser (left n.toNat) buf n.toNat outputWord
      -- the copy failed: report the bytes that were read before it
      if left n.toNat ≠ 0 then .ok ⟨n, buf', [.ioread32 ti.barStart off]⟩
      else
        match readLoop regs left ti fuel (n + 4) buf' with
        | .error e => .error e
        | .ok r => .ok { r with log := .ioread32 ti.barStart off :: r.log }
    else .ok ⟨n, buf, []⟩

/-- The result of a read: the returned value, the new file position, and the
contents of the user buffer. -/
structure ReadRet where
  ret : Int
  fPos : BitVec 64
  buf : UserMem
  log : List Effect

/-- `pcieuni_read_no_struct_exp` on the device that the file's `private_data`
names. -/
def pcieuniReadNoStructExp (env : ReadEnv) (regs : Regs) (dv : PcieuniDev) (buf : UserMem)
    (count fPos : BitVec 64) : Call (PcieuniDev × ReadRet) :=
  match checkAndCalculateTransferInformation dv count fPos with
  | .inl err => .ok (dv, ⟨err, fPos, buf, []⟩)
  | .inr ti =>
    match mutexLockInterruptible dv.devMut env.intr with
    | .interrupted => .ok (dv, ⟨-erestartsys, fPos, buf, []⟩)
    | .blocked => .error .blocked
    | .acquired =>
      let dv := { dv with devMut := true }
      match readLoop regs env.left ti env.fuel 0 buf with
      | .error e => .error e
      | .ok r =>
        .ok ({ dv with devMut := false }, ⟨r.n.toNat, fPos + r.n.setWidth 64, r.buf, r.log⟩)

/-! ## Writing -/

/-- What the environment decides during a write. `fault n` says that
`copy_from_user` fails at byte `n` of the buffer. -/
structure WriteEnv where
  intr : Bool := false
  fault : Nat → Bool := fun _ => false
  fuel : Nat

/-- The state of the write loop when it ends. -/
structure WriteLoop where
  n : BitVec 32
  regs : Regs
  log : List Effect

/-- The word loop of `pcieuni_write_no_struct_exp`. -/
def writeLoop (buf : UserMem) (fault : Nat → Bool) (ti : TransferInformation) :
    (fuel : Nat) → (n : BitVec 32) → Regs → Call WriteLoop
  | 0, _, _ => .error .unfinished
  | fuel + 1, n, regs =>
    if n < ti.nBytesToTransfer then
      if fault n.toNat then .ok ⟨n, regs, []⟩
      else
        let inputWord := copyFromUser buf n.toNat
        let off := ti.wordOffset n
        match writeLoop buf fault ti fuel (n + 4) (regs.iowrite32 ti.barStart off inputWord) with
        | .error e => .error e
        | .ok r => .ok { r with log := .iowrite32 ti.barStart off inputWord :: r.log }
    else .ok ⟨n, regs, []⟩

/-- The result of a write: the returned value, the new file position, and the
registers. -/
structure WriteRet where
  ret : Int
  fPos : BitVec 64
  regs : Regs
  log : List Effect

/-- `pcieuni_write_no_struct_exp` on the device that the file's `private_data`
names. -/
def pcieuniWriteNoStructExp (env : WriteEnv) (regs : Regs) (dv : PcieuniDev) (buf : UserMem)
    (count fPos : BitVec 64) : Call (PcieuniDev × WriteRet) :=
  match checkAndCalculateTransferInformation dv count fPos with
  | .inl err => .ok (dv, ⟨err, fPos, regs, []⟩)
  | .inr ti =>
    match mutexLockInterruptible dv.devMut env.intr with
    | .interrupted => .ok (dv, ⟨-erestartsys, fPos, regs, []⟩)
    | .blocked => .error .blocked
    | .acquired =>
      let dv := { dv with devMut := true }
      match writeLoop buf env.fault ti env.fuel 0 regs with
      | .error e => .error e
      | .ok r =>
        .ok ({ dv with devMut := false }, ⟨r.n.toNat, fPos + r.n.setWidth 64, r.regs, r.log⟩)

end Gpcieuni
