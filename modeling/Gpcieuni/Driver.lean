-- SUMMARY: The driver as a transition system: the entry points as operations on the whole state, what each of them does, and the admissible operations.
import Gpcieuni.Lib.Lts
import Gpcieuni.TransferSpec
import Gpcieuni.Ioctl
import Gpcieuni.ProbeSpec
import Gpcieuni.File

/-!
# The driver as a system

One step is one call that returns. Around the driver's own function it does what
the driver core and the VFS do: a successful probe binds the device, a remove
unbinds it, an open that succeeds makes a file, and a release frees its file
whatever it returns.
-/

namespace Gpcieuni

/-- A call of one of the entry points, with the choices of its environment. -/
inductive Op where
  | probe (env : ProbeEnv) (d : PciDev)
  | remove (devName : String) (d : PciDev)
  | openFile (env : OpenEnv) (k : Slot) (f : FilePtr)
  | release (intr : Bool) (f : FilePtr)
  | read (env : ReadEnv) (f : FilePtr) (buf : UserMem) (count fPos : BitVec 64)
  | write (env : WriteEnv) (f : FilePtr) (buf : UserMem) (count fPos : BitVec 64)
  | ioctl (env : IoctlEnv) (f : FilePtr) (cmd : BitVec 32) (arg : BitVec 64)

/-- What an observer sees of a call: the returned value and its effects. -/
structure OpRet where
  ret : Int
  log : List Effect

namespace Driver

/-- Perform one call. -/
def exec (s : Driver) : Op → Call (Driver × OpRet)
  | .probe env d =>
    match pcieuniProbeExp env d s with
    | .error e => .error e
    | .ok (s', r) =>
      .ok (if r.ret = 0 then { s' with bound := d :: s'.bound } else s', ⟨r.ret, r.log⟩)
  | .remove devName d =>
    match pcieuniRemoveExp devName d s with
    | .error e => .error e
    | .ok (s', r) => .ok ({ s' with bound := s'.bound.erase d }, ⟨r.ret, r.log⟩)
  | .openFile env k f =>
    match pcieuniOpenExp env k f (s.dev k) with
    | .error e => .error e
    | .ok (dv, ret) =>
      .ok ({ s.setDev k dv with files := if ret = 0 then ⟨f, k⟩ :: s.files else s.files },
        ⟨ret, []⟩)
  | .release intr f =>
    match s.privateData f with
    | none => .error .oops
    | some k =>
      match pcieuniReleaseExp intr f (s.dev k) with
      | .error e => .error e
      | .ok (dv, ret) =>
        .ok ({ s.setDev k dv with files := s.files.filter (·.filp ≠ f) }, ⟨ret, []⟩)
  | .read env f buf count fPos =>
    match s.privateData f with
    | none => .error .oops
    | some k =>
      match pcieuniReadNoStructExp env s.regs (s.dev k) buf count fPos with
      | .error e => .error e
      | .ok (dv, r) => .ok (s.setDev k dv, ⟨r.ret, r.log⟩)
  | .write env f buf count fPos =>
    match s.privateData f with
    | none => .error .oops
    | some k =>
      match pcieuniWriteNoStructExp env s.regs (s.dev k) buf count fPos with
      | .error e => .error e
      | .ok (dv, r) => .ok ({ s.setDev k dv with regs := r.regs }, ⟨r.ret, r.log⟩)
  | .ioctl env f cmd arg =>
    match s.privateData f with
    | none => .error .oops
    | some k =>
      match pcieuniIoctlExp env s.pcieuniDrvVerMaj s.pcieuniDrvVerMin (s.dev k) cmd arg with
      | .error e => .error e
      | .ok (dv, r) => .ok (s.setDev k dv, ⟨r.ret, r.log⟩)

/-- The calls that the kernel makes: it probes devices that are not bound and
removes devices that are, and it opens a file that is not open. -/
def Admissible (s : Driver) : Op → Prop
  | .probe _ d => d ∉ s.bound
  | .remove _ d => d ∈ s.bound
  | .openFile _ _ f => s.privateData f = none
  | _ => True

instance (s : Driver) (op : Op) : Decidable (s.Admissible op) :=
  match op with
  | .probe _ d => inferInstanceAs (Decidable (d ∉ s.bound))
  | .remove _ d => inferInstanceAs (Decidable (d ∈ s.bound))
  | .openFile _ _ f => inferInstanceAs (Decidable (s.privateData f = none))
  | .release .. | .read .. | .write .. | .ioctl .. => isTrue trivial

end Driver

/-- The driver after its initialisation, under any sequence of calls that return. -/
def driverLts : Lts Driver Op OpRet where
  init s := ∃ major verMaj verMin regs, s = Driver.initial major verMaj verMin regs
  step s op := (s.exec op).toOption

theorem driverLts_step {s s' : Driver} {op : Op} {r : OpRet} :
    driverLts.step s op = some (s', r) ↔ s.exec op = .ok (s', r) := by
  simp only [driverLts]
  cases s.exec op <;> simp [Except.toOption]

/-! ## What one call does -/

namespace Driver

theorem setDev_self (s : Driver) (k : Slot) : s.setDev k (s.dev k) = s := by
  simp [setDev]

/-- A probe is the call of `pcieuni_probe_exp`, and binds the device if that returns 0. -/
theorem exec_probe_call {env : ProbeEnv} {d : PciDev} {s s' : Driver} {r : OpRet}
    (h : s.exec (.probe env d) = .ok (s', r)) :
    ∃ s₁ r₁, pcieuniProbeExp env d s = .ok (s₁, r₁) ∧ r = ⟨r₁.ret, r₁.log⟩ ∧
      s' = if r₁.ret = 0 then { s₁ with bound := d :: s₁.bound } else s₁ := by
  simp only [exec] at h
  split at h
  · cases h
  rename_i s₁ r₁ hprobe
  cases h
  exact ⟨s₁, r₁, hprobe, rfl, rfl⟩

/-- A remove is the call of `pcieuni_remove_exp`, and unbinds the device. -/
theorem exec_remove_call {devName : String} {d : PciDev} {s s' : Driver} {r : OpRet}
    (h : s.exec (.remove devName d) = .ok (s', r)) :
    ∃ s₁ r₁, pcieuniRemoveExp devName d s = .ok (s₁, r₁) ∧ r = ⟨r₁.ret, r₁.log⟩ ∧
      s' = { s₁ with bound := s₁.bound.erase d } := by
  simp only [exec] at h
  split at h
  · cases h
  rename_i s₁ r₁ hremove
  cases h
  exact ⟨s₁, r₁, hremove, rfl, rfl⟩

theorem exec_probe {env : ProbeEnv} {d : PciDev} {s s' : Driver} {r : OpRet}
    (h : s.exec (.probe env d) = .ok (s', r)) :
    (s.freeSlot = none ∧ s' = s ∧ r.ret = -1) ∨
    (∃ i drvdata, s.freeSlot = some i ∧ (env.enableDevice ≠ 0 ∨ env.requestRegions ≠ 0) ∧
      r.ret ≠ 0 ∧ (∀ d', d' ≠ d → drvdata d' = s.drvdata d') ∧
      s' = { s.setDev i.castSucc { s.dev i.castSucc with binded := 1 } with drvdata }) ∨
    (∃ i dv, s.freeSlot = some i ∧ env.enableDevice = 0 ∧ env.requestRegions = 0 ∧ r.ret = 0 ∧
      Probed d { s.dev i.castSucc with binded := 1 } dv ∧
      s' = { s.setDev i.castSucc dv with
        drvdata := Function.update s.drvdata d (some i.castSucc)
        pcieuniModuleNum := s.pcieuniModuleNum + 1
        bound := d :: s.bound }) := by
  obtain ⟨s₁, r₁, hprobe, rfl, rfl⟩ := exec_probe_call h
  rcases pcieuniProbeExp_cases hprobe with ⟨hfree, rfl, hret⟩ |
      ⟨i, drvdata, hfree, hfail, hret, hdrv, rfl⟩ | ⟨i, dv, hfree, hen, hreg, hret, hprobed, rfl⟩
  · exact .inl ⟨hfree, by simp [hret], hret⟩
  · exact .inr (.inl ⟨i, drvdata, hfree, hfail, hret, hdrv, by simp [hret]⟩)
  · exact .inr (.inr ⟨i, dv, hfree, hen, hreg, hret, hprobed, by simp [hret, setDev]⟩)

/-- A probe that succeeds, with its calls and all that it leaves in the struct. -/
theorem exec_probe_ok {env : ProbeEnv} {d : PciDev} {s s' : Driver} {r : OpRet}
    (h : s.exec (.probe env d) = .ok (s', r)) (hret : r.ret = 0) :
    ∃ i dv, ∃ o : ProbeOutcome env s.regs d { s.dev i.castSucc with binded := 1 } dv,
      ∃ devSts slotNum, s.freeSlot = some i ∧
      r.log = [.pciEnableDevice d 0, .pciRequestRegions d 0] ++
        (allBars.flatMap (iomapCalls env d) ++ o.logInfo ++ msiCalls env d ++
          nodeCalls env s.pcieuniMajor i.castSucc devSts slotNum) ∧
      s' = { s.setDev i.castSucc dv with
        drvdata := Function.update s.drvdata d (some i.castSucc)
        pcieuniModuleNum := s.pcieuniModuleNum + 1
        bound := d :: s.bound } := by
  obtain ⟨s₁, r₁, hprobe, rfl, rfl⟩ := exec_probe_call h
  obtain ⟨i, dv, o, devSts, slotNum, hfree, hlog, rfl⟩ := pcieuniProbeExp_ok hprobe hret
  refine ⟨i, dv, o, devSts, slotNum, hfree, hlog, ?_⟩
  rw [if_pos hret]
  rfl

theorem exec_probe_failed {env : ProbeEnv} {d : PciDev} {s s' : Driver} {r : OpRet}
    (h : s.exec (.probe env d) = .ok (s', r)) (hret : r.ret ≠ 0) :
    r.log = [] ∨ (∃ err, err ≠ 0 ∧ r.log = [.pciEnableDevice d err]) ∨
      ∃ err, err ≠ 0 ∧ r.log =
        [.pciEnableDevice d 0, .pciRequestRegions d err, .pciDisableDevice d] := by
  obtain ⟨s₁, r₁, hprobe, rfl, rfl⟩ := exec_probe_call h
  exact pcieuniProbeExp_failed hprobe hret

theorem exec_remove {devName : String} {d : PciDev} {s s' : Driver} {r : OpRet}
    (h : s.exec (.remove devName d) = .ok (s', r)) :
    ∃ k dv, s.drvdata d = some k ∧ (s.dev k).devMut = false ∧ r.ret = 0 ∧
      Removed (s.dev k) dv ∧
      (∀ f j, .setPrivateData f j ∈ r.log → f ∈ (s.dev k).devFileList.map (·.filp)) ∧
      s' = { s.setDev k dv with
        pcieuniModuleNum := s.pcieuniModuleNum - 1
        files := detachFiles (s.dev k).devFileList s.files
        bound := s.bound.erase d } := by
  obtain ⟨s₁, r₁, hremove, rfl, rfl⟩ := exec_remove_call h
  obtain ⟨k, dv, hk, hfree, hret, hrem, hlog, rfl⟩ := pcieuniRemoveExp_cases hremove
  exact ⟨k, dv, hk, hfree, hret, hrem, hlog, rfl⟩

/-- A remove with its calls. -/
theorem exec_remove_ok {devName : String} {d : PciDev} {s s' : Driver} {r : OpRet}
    (h : s.exec (.remove devName d) = .ok (s', r)) :
    ∃ k p devno name, s.drvdata d = some k ∧ (s.dev k).pcieuniPciDev = some p ∧
      (s'.dev k).prjInfoList = [] ∧ (s'.dev k).brdInfoList = (s.dev k).brdInfoList ∧
      (s'.dev k).msi = (s.dev k).msi ∧
      r.log = releaseInterrupts k (s.dev k) ++
        (allBars.flatMap fun n => iounmapCalls ((s.dev k).bar n)) ++
        [.pciReleaseRegions p, .deviceDestroy devno, .procRemove name, .pciDisableDevice d] ++
        (s.dev k).devFileList.map fun e => .setPrivateData e.filp nullSlot := by
  obtain ⟨s₁, r₁, hremove, rfl, rfl⟩ := exec_remove_call h
  obtain ⟨k, p, devno, name, hk, hp, hprj, hbrd, hmsi, hlog⟩ := pcieuniRemoveExp_ok hremove
  exact ⟨k, p, devno, name, hk, hp, hprj, hbrd, hmsi, hlog⟩

theorem exec_openFile {env : OpenEnv} {k : Slot} {f : FilePtr} {s s' : Driver} {r : OpRet}
    (h : s.exec (.openFile env k f) = .ok (s', r)) :
    (env.intr = true ∧ r.ret = -erestartsys ∧ s' = s.setDev k { s.dev k with devMinor := k }) ∨
    (env.intr = false ∧ (s.dev k).devMut = false ∧ r.ret = 0 ∧
      s' = { s.setDev k { s.dev k with
          devMinor := k
          devFileRef := (s.dev k).devFileRef + 1
          devFileList := ⟨f, (s.dev k).devFileRef + 1⟩ :: (s.dev k).devFileList } with
        files := ⟨f, k⟩ :: s.files }) := by
  simp only [exec] at h
  split at h
  · cases h
  rename_i dv ret hopen
  cases h
  rcases pcieuniOpenExp_cases hopen with ⟨hintr, rfl, rfl⟩ | ⟨hintr, hfree, rfl, rfl⟩
  · exact .inl ⟨hintr, rfl, by simp [erestartsys, setDev]⟩
  · exact .inr ⟨hintr, hfree, rfl, by simp⟩

theorem exec_release {intr : Bool} {f : FilePtr} {s s' : Driver} {r : OpRet}
    (h : s.exec (.release intr f) = .ok (s', r)) :
    ∃ k, s.privateData f = some k ∧
      ((intr = true ∧ r.ret = -erestartsys ∧
        s' = { s with files := s.files.filter (·.filp ≠ f) }) ∨
      (intr = false ∧ (s.dev k).devMut = false ∧ r.ret = 0 ∧
        s' = { s.setDev k { s.dev k with
            devFileRef := (s.dev k).devFileRef - 1
            devFileList := (s.dev k).devFileList.filter (·.filp ≠ f) } with
          files := s.files.filter (·.filp ≠ f) })) := by
  simp only [exec] at h
  split at h
  · cases h
  rename_i k hk
  split at h
  · cases h
  rename_i dv ret hrel
  cases h
  refine ⟨k, hk, ?_⟩
  rcases pcieuniReleaseExp_cases hrel with ⟨hintr, rfl, rfl⟩ | ⟨hintr, hfree, rfl, rfl⟩
  · exact .inl ⟨hintr, rfl, by rw [setDev_self]⟩
  · exact .inr ⟨hintr, hfree, rfl, rfl⟩

theorem exec_read {env : ReadEnv} {f : FilePtr} {buf : UserMem} {count fPos : BitVec 64}
    {s s' : Driver} {r : OpRet} (h : s.exec (.read env f buf count fPos) = .ok (s', r)) :
    ∃ k, s.privateData f = some k ∧ s' = s ∧ Transferred (s.dev k) (s.dev k) r.ret r.log := by
  simp only [exec] at h
  split at h
  · cases h
  rename_i k hk
  split at h
  · cases h
  rename_i dv rr hread
  cases h
  have htr := pcieuniReadNoStructExp_cases hread
  obtain rfl := htr.same
  exact ⟨k, hk, setDev_self s k, htr⟩

theorem exec_write {env : WriteEnv} {f : FilePtr} {buf : UserMem} {count fPos : BitVec 64}
    {s s' : Driver} {r : OpRet} (h : s.exec (.write env f buf count fPos) = .ok (s', r)) :
    ∃ k regs, s.privateData f = some k ∧ s' = { s with regs } ∧
      Transferred (s.dev k) (s.dev k) r.ret r.log := by
  simp only [exec] at h
  split at h
  · cases h
  rename_i k hk
  split at h
  · cases h
  rename_i dv rr hwrite
  cases h
  have htr := pcieuniWriteNoStructExp_cases hwrite
  obtain rfl := htr.same
  exact ⟨k, rr.regs, hk, by rw [setDev_self], htr⟩

theorem exec_ioctl {env : IoctlEnv} {f : FilePtr} {cmd : BitVec 32} {arg : BitVec 64}
    {s s' : Driver} {r : OpRet} (h : s.exec (.ioctl env f cmd arg) = .ok (s', r)) :
    ∃ k, s.privateData f = some k ∧
      (∀ e ∈ r.log, e.accesses = none ∨ e.accesses = (s.dev k).pcieuniPciDev) ∧
      ((s.dev k).devSts = 0 → r.ret = -efault ∧ r.log = []) ∧
      ((s' = s ∧ ((s.dev k).devSts = 0 ∨ env.accessOk arg (iocSize cmd) = false ∨
          env.intr = true ∨ KnownCommand cmd)) ∨
        ((s.dev k).devSts ≠ 0 ∧ env.accessOk arg (iocSize cmd) = true ∧ env.intr = false ∧
          ¬ KnownCommand cmd ∧ s' = s.setDev k { s.dev k with devMut := true })) := by
  simp only [exec] at h
  split at h
  · cases h
  rename_i k hk
  split at h
  · cases h
  rename_i dv rr hioctl
  cases h
  obtain ⟨hacc, ⟨rfl, hgone, hwhy⟩ | ⟨hsts, hok, hfree, hintr, ⟨hcmd, rfl⟩ | ⟨hcmd, rfl, -⟩⟩⟩ :=
    pcieuniIoctlExp_cases hioctl
  · refine ⟨k, hk, hacc, fun h0 => ⟨(hgone h0).1, (hgone h0).2.1⟩, .inl ⟨setDev_self s k, ?_⟩⟩
    rcases hwhy with hsts | hok | hintr
    · exact .inl hsts
    · exact .inr (.inl hok)
    · exact .inr (.inr (.inl hintr))
  · refine ⟨k, hk, hacc, fun h0 => absurd h0 hsts, .inl ⟨?_, .inr (.inr (.inr hcmd))⟩⟩
    rw [← hfree]
    exact setDev_self s k
  · exact ⟨k, hk, hacc, fun h0 => absurd h0 hsts, .inr ⟨hsts, hok, hintr, hcmd, rfl⟩⟩

end Driver

end Gpcieuni
