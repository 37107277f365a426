-- SUMMARY: The ioctl entry point of `pcieuni_ioctl_exp.c` with its command numbers and the struct it copies.
import Gpcieuni.Device

/-!
# Ioctl

Every path that takes the device mutex is written with its own unlock, as in the
source.
-/

namespace Gpcieuni

/-! ## Command numbers -/

/-- `_IOWR(type, nr, int)`. -/
def iowr (type nr : Nat) : BitVec 32 := BitVec.ofNat 32 (3 * 2 ^ 30 + 4 * 2 ^ 16 + type * 2 ^ 8 + nr)

/-- `PCIEUNI_IOC` is the character `U`. -/
def pcieuniIoc : Nat := 'U'.toNat

def pcieuniPhysicalSlot : BitVec 32 := iowr pcieuniIoc 60
def pcieuniDriverVersion : BitVec 32 := iowr pcieuniIoc 61
def pcieuniFirmwareVersion : BitVec 32 := iowr pcieuniIoc 62

/-- `_IOC_SIZE`. -/
def iocSize (cmd : BitVec 32) : BitVec 32 := (cmd >>> 16) &&& 0x3fff

/-- The commands that the switch of `pcieuni_ioctl_exp` has a case for. -/
def KnownCommand (cmd : BitVec 32) : Prop :=
  cmd = pcieuniPhysicalSlot ∨ cmd = pcieuniDriverVersion ∨ cmd = pcieuniFirmwareVersion

instance (cmd : BitVec 32) : Decidable (KnownCommand cmd) :=
  inferInstanceAs (Decidable (_ ∨ _ ∨ _))

/-! ## The call -/

/-- `device_ioctrl_data`. -/
structure DeviceIoctrlData where
  offset : BitVec 32
  data : BitVec 32
  cmd : BitVec 32
  reserved : BitVec 32
  deriving DecidableEq, Repr

/-- The sixteen bytes of the struct in memory. -/
def DeviceIoctrlData.bytes (x : DeviceIoctrlData) : List (BitVec 8) :=
  [x.offset, x.data, x.cmd, x.reserved].flatMap fun w => (List.range 4).map (Word.byte w)

/-- What the environment decides during an ioctl. -/
structure IoctlEnv where
  intr : Bool := false
  /-- `access_ok` of an address and a size -/
  accessOk : BitVec 64 → BitVec 32 → Bool := fun _ _ => true
  /-- The struct that `copy_from_user` reads, or a fault. -/
  copyIn : Option DeviceIoctrlData
  /-- The number of bytes that `copy_to_user` leaves uncopied. -/
  left : Nat := 0
  /-- The revision byte in the device's configuration space. -/
  revision : BitVec 8 := 0
  /-- What the uninitialised local `data` holds on entry. -/
  stack : DeviceIoctrlData

/-- The result of an ioctl: the returned value and the bytes copied to user space. -/
structure IoctlRet where
  ret : Int
  copied : List (BitVec 8)
  log : List Effect

/-- The last part of each known command: copy the struct out and unlock. -/
def ioctlCopyOut (env : IoctlEnv) (dv : PcieuniDev) (data : DeviceIoctrlData) (log : List Effect) :
    PcieuniDev × IoctlRet :=
  let copied := data.bytes.take (16 - env.left)
  if env.left ≠ 0 then ({ dv with devMut := false }, ⟨-efault, copied, log⟩)
  else ({ dv with devMut := false }, ⟨0, copied, log⟩)

/-- `pcieuni_ioctl_exp` on the device that the file's `private_data` names. -/
def pcieuniIoctlExp (env : IoctlEnv) (verMaj verMin : BitVec 16) (dv : PcieuniDev)
    (cmd : BitVec 32) (arg : BitVec 64) : Call (PcieuniDev × IoctlRet) :=
  if dv.devSts = 0 then .ok (dv, ⟨-efault, [], []⟩)
  else if !env.accessOk arg (iocSize cmd) then .ok (dv, ⟨-efault, [], []⟩)
  else
    match mutexLockInterruptible dv.devMut env.intr with
    | .interrupted => .ok (dv, ⟨-erestartsys, [], []⟩)
    | .blocked => .error .blocked
    | .acquired =>
      let dv := { dv with devMut := true }
      if cmd = pcieuniPhysicalSlot then
        match env.copyIn with
        | none => .ok ({ dv with devMut := false }, ⟨-efault, [], []⟩)
        | some data =>
          .ok (ioctlCopyOut env dv
            { data with data := BitVec.ofInt 32 dv.slotNum, cmd := pcieuniPhysicalSlot } [])
      else if cmd = pcieuniDriverVersion then
        .ok (ioctlCopyOut env dv
          { env.stack with data := verMaj.setWidth 32, offset := verMin.setWidth 32 } [])
      else if cmd = pcieuniFirmwareVersion then
        match dv.pcieuniPciDev with
        | none => .error .oops
        | some d =>
          .ok (ioctlCopyOut env dv
            { env.stack with data := env.revision.setWidth 32, offset := dv.revision.setWidth 32 }
            [.pciReadConfigByte d])
      else
        -- the default case returns without `mutex_unlock`
        .ok (dv, ⟨-enotty, [], []⟩)

/-- What an ioctl that returns did to the device struct, and what it accessed. -/
theorem pcieuniIoctlExp_cases {env : IoctlEnv} {verMaj verMin : BitVec 16} {dv dv' : PcieuniDev}
    {cmd : BitVec 32} {arg : BitVec 64} {r : IoctlRet}
    (h : pcieuniIoctlExp env verMaj verMin dv cmd arg = .ok (dv', r)) :
    (∀ e ∈ r.log, e.accesses = none ∨ e.accesses = dv.pcieuniPciDev) ∧
    ((dv' = dv ∧ (dv.devSts = 0 → r.ret = -efault ∧ r.log = [] ∧ r.copied = []) ∧
        (dv.devSts = 0 ∨ env.accessOk arg (iocSize cmd) = false ∨ env.intr = true)) ∨
      (dv.devSts ≠ 0 ∧ env.accessOk arg (iocSize cmd) = true ∧ dv.devMut = false ∧
        env.intr = false ∧
        ((KnownCommand cmd ∧ dv' = { dv with devMut := false }) ∨
          (¬ KnownCommand cmd ∧ dv' = { dv with devMut := true } ∧ r.ret = -enotty)))) := by
  simp only [pcieuniIoctlExp] at h
  split at h
  · rename_i hsts
    obtain ⟨rfl, rfl⟩ : dv = dv' ∧ _ = r := by simpa using h
    exact ⟨by simp, .inl ⟨rfl, by simp, .inl hsts⟩⟩
  rename_i hsts
  split at h
  · rename_i hacc
    obtain ⟨rfl, rfl⟩ : dv = dv' ∧ _ = r := by simpa using h
    exact ⟨by simp, .inl ⟨rfl, fun h0 => absurd h0 hsts, .inr (.inl (by simpa using hacc))⟩⟩
  rename_i hacc
  replace hacc : env.accessOk arg (iocSize cmd) = true := by simpa using hacc
  split at h
  · rename_i hlock
    obtain ⟨rfl, rfl⟩ : dv = dv' ∧ _ = r := by simpa using h
    exact ⟨by simp, .inl ⟨rfl, fun h0 => absurd h0 hsts,
      .inr (.inr (mutexLockInterruptible_interrupted.mp hlock))⟩⟩
  · cases h
  · rename_i hlock
    obtain ⟨hfree, hintr⟩ := mutexLockInterruptible_acquired.mp hlock
    -- the four cases of the switch
    split at h
    · rename_i hcmd
      have hdv : dv' = { dv with devMut := false } ∧ r.log = [] := by
        split at h
        · cases h; exact ⟨rfl, rfl⟩
        · simp only [ioctlCopyOut] at h
          split at h <;> cases h <;> exact ⟨rfl, rfl⟩
      exact ⟨by simp [hdv.2], .inr ⟨hsts, hacc, hfree, hintr, .inl ⟨.inl hcmd, hdv.1⟩⟩⟩
    rename_i hslot
    split at h
    · rename_i hcmd
      have hdv : dv' = { dv with devMut := false } ∧ r.log = [] := by
        simp only [ioctlCopyOut] at h
        split at h <;> cases h <;> exact ⟨rfl, rfl⟩
      exact ⟨by simp [hdv.2], .inr ⟨hsts, hacc, hfree, hintr, .inl ⟨.inr (.inl hcmd), hdv.1⟩⟩⟩
    rename_i hversion
    split at h
    · rename_i hcmd
      split at h
      · cases h
      · rename_i d hd
        have hdv : dv' = { dv with devMut := false } ∧ r.log = [.pciReadConfigByte d] := by
          simp only [ioctlCopyOut] at h
          split at h <;> cases h <;> exact ⟨rfl, rfl⟩
        refine ⟨?_, .inr ⟨hsts, hacc, hfree, hintr, .inl ⟨.inr (.inr hcmd), hdv.1⟩⟩⟩
        simp [hdv.2, Effect.accesses, hd]
    · rename_i hfirmware
      cases h
      refine ⟨by simp, .inr ⟨hsts, hacc, hfree, hintr, .inr ⟨?_, rfl, rfl⟩⟩⟩
      simp [KnownCommand, hslot, hversion, hfirmware]

/-- Of the outside world an ioctl reads at most the configuration space. -/
theorem pcieuniIoctlExp_log {env : IoctlEnv} {verMaj verMin : BitVec 16} {dv dv' : PcieuniDev}
    {cmd : BitVec 32} {arg : BitVec 64} {r : IoctlRet}
    (h : pcieuniIoctlExp env verMaj verMin dv cmd arg = .ok (dv', r)) :
    ∀ e ∈ r.log, ∃ d, e = .pciReadConfigByte d := by
  have hcopy : ∀ dv₁ data log, (ioctlCopyOut env dv₁ data log).2.log = log := by
    intro dv₁ data log
    simp only [ioctlCopyOut]
    split <;> rfl
  simp only [pcieuniIoctlExp] at h
  split at h
  · cases h; simp
  split at h
  · cases h; simp
  split at h
  · cases h; simp
  · cases h
  split at h
  · split at h
    · cases h; simp
    · have hlog := congrArg (·.2.log) (Except.ok.inj h)
      simp only [hcopy] at hlog
      simp [← hlog]
  split at h
  · have hlog := congrArg (·.2.log) (Except.ok.inj h)
    simp only [hcopy] at hlog
    simp [← hlog]
  split at h
  · split at h
    · cases h
    · have hlog := congrArg (·.2.log) (Except.ok.inj h)
      simp only [hcopy] at hlog
      simp [← hlog]
  · cases h; simp

/-! ## What user space sees of the stack

The two commands that report a version copy out the whole struct after they have
set two of its four fields. `PCIEUNI_PHYSICAL_SLOT` fills the struct from user
space first.
-/

/-- What user space sees of an ioctl: the returned value and the copied bytes. -/
def ioctlSeen (r : Call (PcieuniDev × IoctlRet)) : Call (Int × List (BitVec 8)) :=
  r.map fun p => (p.2.ret, p.2.copied)

/-- The call gets as far as copying out a version. -/
structure CopiesVersion (env : IoctlEnv) (dv : PcieuniDev) (cmd : BitVec 32) (arg : BitVec 64) :
    Prop where
  present : dv.devSts ≠ 0
  accessOk : env.accessOk arg (iocSize cmd) = true
  acquired : mutexLockInterruptible dv.devMut env.intr = .acquired
  version : cmd = pcieuniDriverVersion ∨
    cmd = pcieuniFirmwareVersion ∧ dv.pcieuniPciDev.isSome = true

section Stack

variable {env : IoctlEnv} {verMaj verMin : BitVec 16} {dv : PcieuniDev} {cmd : BitVec 32}
  {arg : BitVec 64}

theorem pcieuniIoctlExp_copiesVersion (verMaj verMin : BitVec 16) (h : CopiesVersion env dv cmd arg) :
    ∃ data offset log, ∀ x : DeviceIoctrlData,
      pcieuniIoctlExp { env with stack := x } verMaj verMin dv cmd arg =
        .ok (ioctlCopyOut env { dv with devMut := true } { x with data, offset } log) := by
  obtain ⟨hpresent, hacc, hlock, rfl | ⟨rfl, hdev⟩⟩ := h
  · refine ⟨verMaj.setWidth 32, verMin.setWidth 32, [], fun x => ?_⟩
    have hslot : pcieuniDriverVersion ≠ pcieuniPhysicalSlot := by decide
    simp [pcieuniIoctlExp, hpresent, hacc, hlock, hslot, ioctlCopyOut]
  · obtain ⟨d, hd⟩ := Option.isSome_iff_exists.mp hdev
    refine ⟨env.revision.setWidth 32, dv.revision.setWidth 32, [.pciReadConfigByte d], fun x => ?_⟩
    have hslot : pcieuniFirmwareVersion ≠ pcieuniPhysicalSlot := by decide
    have hversion : pcieuniFirmwareVersion ≠ pcieuniDriverVersion := by decide
    simp [pcieuniIoctlExp, hpresent, hacc, hlock, hd, hslot, hversion, ioctlCopyOut]

/-- Every other path does not look at the stack. -/
theorem pcieuniIoctlExp_stack (h : ¬ CopiesVersion env dv cmd arg) (x : DeviceIoctrlData) :
    pcieuniIoctlExp { env with stack := x } verMaj verMin dv cmd arg =
      pcieuniIoctlExp env verMaj verMin dv cmd arg := by
  by_cases hpresent : dv.devSts = 0
  · simp [pcieuniIoctlExp, hpresent]
  by_cases hacc : env.accessOk arg (iocSize cmd) = true
  · cases hlock : mutexLockInterruptible dv.devMut env.intr with
    | interrupted => simp [pcieuniIoctlExp, hpresent, hacc, hlock]
    | blocked => simp [pcieuniIoctlExp, hpresent, hacc, hlock]
    | acquired =>
        have hversion : cmd ≠ pcieuniDriverVersion := fun hver =>
          h ⟨hpresent, hacc, hlock, .inl hver⟩
        have hfirmware : cmd = pcieuniFirmwareVersion → dv.pcieuniPciDev = none := by
          intro hver
          by_contra hdev
          exact h ⟨hpresent, hacc, hlock, .inr ⟨hver, Option.isSome_iff_ne_none.mpr hdev⟩⟩
        by_cases hcmd : cmd = pcieuniFirmwareVersion
        · simp [pcieuniIoctlExp, hpresent, hacc, hlock, hversion, hfirmware hcmd, ioctlCopyOut]
        · simp [pcieuniIoctlExp, hpresent, hacc, hlock, hversion, hcmd, ioctlCopyOut]
  · simp [pcieuniIoctlExp, hpresent, hacc]

/-- The first eight bytes are the two fields that every command sets. -/
theorem DeviceIoctrlData.take_bytes {x y : DeviceIoctrlData} {data offset : BitVec 32} {n : Nat}
    (hn : n ≤ 8) :
    ({ x with data, offset } : DeviceIoctrlData).bytes.take n =
      ({ y with data, offset } : DeviceIoctrlData).bytes.take n := by
  have hfirst : ∀ z : DeviceIoctrlData, z.bytes.take n =
      ([z.offset, z.data].flatMap fun w => (List.range 4).map (Word.byte w)).take n := by
    intro z
    have hsplit : z.bytes = ([z.offset, z.data].flatMap fun w => (List.range 4).map (Word.byte w)) ++
        ([z.cmd, z.reserved].flatMap fun w => (List.range 4).map (Word.byte w)) := by
      rw [← List.flatMap_append]
      rfl
    rw [hsplit, List.take_append_of_le_length (by simpa using hn)]
  rw [hfirst, hfirst]

theorem DeviceIoctrlData.bytes_eight (x : DeviceIoctrlData) :
    x.bytes[8]? = some (Word.byte x.cmd 0) := rfl

/-- The returned value and the copied bytes do not depend on the stack if and only
if the call does not copy out a version, or the copy stops within the first eight
bytes. -/
theorem ioctlSeen_stack_iff :
    (∀ x y : DeviceIoctrlData,
      ioctlSeen (pcieuniIoctlExp { env with stack := x } verMaj verMin dv cmd arg) =
        ioctlSeen (pcieuniIoctlExp { env with stack := y } verMaj verMin dv cmd arg)) ↔
    ¬ (CopiesVersion env dv cmd arg ∧ env.left < 8) := by
  by_cases hcopies : CopiesVersion env dv cmd arg
  · obtain ⟨data, offset, log, heq⟩ := pcieuniIoctlExp_copiesVersion verMaj verMin hcopies
    have hseen : ∀ x : DeviceIoctrlData,
        ioctlSeen (pcieuniIoctlExp { env with stack := x } verMaj verMin dv cmd arg) =
          .ok (if env.left ≠ 0 then -efault else 0,
            ({ x with data, offset } : DeviceIoctrlData).bytes.take (16 - env.left)) := by
      intro x
      rw [heq]
      simp only [ioctlSeen, ioctlCopyOut]
      split <;> rfl
    constructor
    · rintro hsame ⟨-, hleft⟩
      -- two stacks that differ in the first byte of `cmd`
      have hbytes := hsame ⟨0, 0, 0, 0⟩ ⟨0, 0, 1, 0⟩
      rw [hseen, hseen] at hbytes
      have htake := (Prod.mk.inj (Except.ok.inj hbytes)).2
      have hbyte := congrArg (·[8]?) htake
      simp only [List.getElem?_take_of_lt (show 8 < 16 - env.left by omega),
        DeviceIoctrlData.bytes_eight] at hbyte
      revert hbyte
      decide
    · intro hleft x y
      have hn : 16 - env.left ≤ 8 := by
        have : ¬ env.left < 8 := fun hlt => hleft ⟨hcopies, hlt⟩
        omega
      rw [hseen, hseen, DeviceIoctrlData.take_bytes hn]
  · refine ⟨fun _ hdisc => hcopies hdisc.1, fun _ x y => ?_⟩
    rw [pcieuniIoctlExp_stack hcopies x, pcieuniIoctlExp_stack hcopies y]

end Stack

/-- The driver version of a present device, asked for on two different stacks. -/
theorem driverVersion_discloses_stack :
    ioctlSeen (pcieuniIoctlExp { copyIn := none, stack := ⟨0, 0, 0, 0⟩ } 1 1 { devSts := 1 }
      pcieuniDriverVersion 0) ≠
    ioctlSeen (pcieuniIoctlExp { copyIn := none, stack := ⟨0, 0, 0xC0FFEE, 0xFFFF8881⟩ } 1 1
      { devSts := 1 } pcieuniDriverVersion 0) := by
  decide +kernel

end Gpcieuni
