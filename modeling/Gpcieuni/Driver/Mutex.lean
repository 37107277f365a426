-- SUMMARY: The balance of the device mutexes: which calls return without `mutex_unlock`, and that nothing blocks in a run without them.
import Gpcieuni.Driver

/-!
# Device mutexes

Calls are sequential here, so a mutex that is held between two calls is held by
nobody who could release it. The only way to get there is the default case of
the switch in `pcieuni_ioctl_exp`.
-/

namespace Gpcieuni

/-! ## Calls that find their mutex free -/

theorem readLoop_error {regs : Regs} {left : Nat → Nat} {ti : TransferInformation} {fuel : Nat}
    {n : BitVec 32} {buf : UserMem} {e : Stuck} (h : readLoop regs left ti fuel n buf = .error e) :
    e = .unfinished := by
  induction fuel generalizing n buf with
  | zero => cases h; rfl
  | succ fuel ih =>
      simp only [readLoop] at h
      split at h
      · split at h
        · cases h
        · split at h
          · rename_i e' hrest
            cases h
            exact ih hrest
          · cases h
      · cases h

theorem writeLoop_error {buf : UserMem} {fault : Nat → Bool} {ti : TransferInformation}
    {fuel : Nat} {n : BitVec 32} {regs : Regs} {e : Stuck}
    (h : writeLoop buf fault ti fuel n regs = .error e) : e = .unfinished := by
  induction fuel generalizing n regs with
  | zero => cases h; rfl
  | succ fuel ih =>
      simp only [writeLoop] at h
      split at h
      · split at h
        · cases h
        · split at h
          · rename_i e' hrest
            cases h
            exact ih hrest
          · cases h
      · cases h

section Free

variable {dv : PcieuniDev} (hfree : dv.devMut = false)

include hfree

theorem pcieuniReadNoStructExp_not_blocked (env : ReadEnv) (regs : Regs) (buf : UserMem)
    (count pos : BitVec 64) :
    pcieuniReadNoStructExp env regs dv buf count pos ≠ .error .blocked := by
  intro h
  simp only [pcieuniReadNoStructExp, hfree] at h
  split at h
  · cases h
  split at h
  · cases h
  · rename_i hlock
    exact mutexLockInterruptible_free _ hlock
  · split at h
    · rename_i e hloop
      cases h
      cases readLoop_error hloop
    · cases h

theorem pcieuniWriteNoStructExp_not_blocked (env : WriteEnv) (regs : Regs) (buf : UserMem)
    (count pos : BitVec 64) :
    pcieuniWriteNoStructExp env regs dv buf count pos ≠ .error .blocked := by
  intro h
  simp only [pcieuniWriteNoStructExp, hfree] at h
  split at h
  · cases h
  split at h
  · cases h
  · rename_i hlock
    exact mutexLockInterruptible_free _ hlock
  · split at h
    · rename_i e hloop
      cases h
      cases writeLoop_error hloop
    · cases h

theorem pcieuniIoctlExp_not_blocked (env : IoctlEnv) (verMaj verMin : BitVec 16)
    (cmd : BitVec 32) (arg : BitVec 64) :
    pcieuniIoctlExp env verMaj verMin dv cmd arg ≠ .error .blocked := by
  intro h
  simp only [pcieuniIoctlExp, hfree] at h
  split at h
  · cases h
  split at h
  · cases h
  split at h
  · cases h
  · rename_i hlock
    exact mutexLockInterruptible_free _ hlock
  · repeat' split at h
    all_goals cases h

theorem pcieuniOpenExp_not_blocked (env : OpenEnv) (k : Slot) (f : FilePtr) :
    pcieuniOpenExp env k f dv ≠ .error .blocked := by
  intro h
  simp only [pcieuniOpenExp, hfree] at h
  split at h
  · cases h
  · rename_i hlock
    exact mutexLockInterruptible_free _ hlock
  · split at h <;> cases h

theorem pcieuniReleaseExp_not_blocked (intr : Bool) (f : FilePtr) :
    pcieuniReleaseExp intr f dv ≠ .error .blocked := by
  intro h
  simp only [pcieuniReleaseExp, hfree] at h
  split at h
  · cases h
  · rename_i hlock
    exact mutexLockInterruptible_free _ hlock
  · cases h

end Free

theorem pcieuniFillPrjInfo_not_blocked (regs : Regs) (alloc : Nat → Bool) (m : Iomem) (base : Int)
    (dv : PcieuniDev) : pcieuniFillPrjInfo regs alloc m base dv ≠ .error .blocked := by
  intro h
  simp only [pcieuniFillPrjInfo] at h
  repeat' split at h
  all_goals cases h

theorem prjWalk_not_blocked (regs : Regs) (alloc : Nat → Bool) (m : Iomem) (fuel : Nat)
    (next : Int) (dv : PcieuniDev) : prjWalk regs alloc m fuel next dv ≠ .error .blocked := by
  induction fuel generalizing next dv with
  | zero => intro h; cases h
  | succ fuel ih =>
      intro h
      simp only [prjWalk] at h
      split at h
      · cases h
      split at h
      · rename_i e hfill
        cases h
        exact pcieuniFillPrjInfo_not_blocked _ _ _ _ _ hfill
      split at h
      · rename_i e hrest
        cases h
        exact ih _ _ hrest
      · cases h

theorem prjWalkBar_not_blocked (regs : Regs) (alloc : Nat → Bool) (m : Iomem) (fuel : Nat)
    (dv : PcieuniDev) : prjWalkBar regs alloc m fuel dv ≠ .error .blocked := by
  induction fuel generalizing dv with
  | zero => intro h; cases h
  | succ fuel ih =>
      intro h
      simp only [prjWalkBar] at h
      split at h
      · rename_i e hfill
        cases h
        exact pcieuniFillPrjInfo_not_blocked _ _ _ _ _ hfill
      split at h
      · cases h
      split at h
      · rename_i e hrest
        cases h
        exact ih _ hrest
      · cases h

theorem prjWalkBars_not_blocked (regs : Regs) (alloc : Nat → Bool) (fuel : Nat)
    (ns : List (Fin 6)) (dv : PcieuniDev) :
    prjWalkBars regs alloc fuel ns dv ≠ .error .blocked := by
  induction ns generalizing dv with
  | nil => intro h; cases h
  | cons n ns ih =>
      intro h
      simp only [prjWalkBars] at h
      split at h
      · exact ih _ h
      split at h
      · rename_i e hbar
        cases h
        exact prjWalkBar_not_blocked _ _ _ _ _ hbar
      split at h
      · rename_i e hrest
        cases h
        exact ih _ hrest
      · cases h

theorem pcieuniGetPrjinfo_not_blocked (regs : Regs) (alloc : Nat → Bool) (fuel : Nat)
    (dv : PcieuniDev) : pcieuniGetPrjinfo regs alloc fuel dv ≠ .error .blocked := by
  intro h
  simp only [pcieuniGetPrjinfo] at h
  split at h
  · split at h
    · cases h
    · exact prjWalk_not_blocked _ _ _ _ _ _ h
  · exact prjWalkBars_not_blocked _ _ _ _ _ h

theorem discover_not_blocked (env : ProbeEnv) (regs : Regs) (dv : PcieuniDev) :
    discover env regs dv ≠ .error .blocked := by
  intro h
  simp only [discover] at h
  split at h
  · split at h
    · rename_i e hprj
      cases h
      exact pcieuniGetPrjinfo_not_blocked _ _ _ _ hprj
    · cases h
  · cases h

theorem probeDevice_not_blocked (env : ProbeEnv) (regs : Regs) (major : Int) (d : PciDev)
    (k : Slot) (dv : PcieuniDev) : probeDevice env regs major d k dv ≠ .error .blocked := by
  intro h
  simp only [probeDevice] at h
  split at h
  · rename_i e hdisc
    cases h
    exact discover_not_blocked _ _ _ hdisc
  · cases h

/-- A probe takes no device mutex. -/
theorem pcieuniProbeExp_not_blocked (env : ProbeEnv) (d : PciDev) (s : Driver) :
    pcieuniProbeExp env d s ≠ .error .blocked := by
  intro h
  simp only [pcieuniProbeExp] at h
  split at h
  · cases h
  split at h
  · cases h
  split at h
  · cases h
  split at h
  · rename_i e hdev
    cases h
    exact probeDevice_not_blocked _ _ _ _ _ _ hdev
  · cases h

theorem pcieuniRemoveExp_not_blocked (devName : String) (d : PciDev) {s : Driver}
    (hfree : ∀ k, (s.dev k).devMut = false) :
    pcieuniRemoveExp devName d s ≠ .error .blocked := by
  intro h
  simp only [pcieuniRemoveExp] at h
  split at h
  · cases h
  rename_i k _
  have hlock : mutexLock (s.dev k).devMut = .acquired := mutexLock_acquired.mpr (hfree k)
  rw [hlock] at h
  split at h
  · cases h
  · cases h
  · rename_i hsome hnone
    cases hp : (s.dev k).pcieuniPciDev with
    | none => exact hnone rfl hp
    | some p => exact hsome p rfl hp

/-! ## The balance -/

namespace Driver

/-- Nobody holds a device mutex. -/
def MutexFree (s : Driver) : Prop := ∀ k, (s.dev k).devMut = false

instance (s : Driver) : Decidable s.MutexFree :=
  inferInstanceAs (Decidable (∀ k, (s.dev k).devMut = false))

/-- The call is not an ioctl that takes the mutex of a device that is present
and then finds no case for its command. -/
def ReleasesMutex (s : Driver) : Op → Prop
  | .ioctl env f cmd arg => ∀ k, s.privateData f = some k → (s.dev k).devSts ≠ 0 →
      env.accessOk arg (iocSize cmd) = true → env.intr = false → KnownCommand cmd
  | _ => True

theorem MutexFree.setDev {s : Driver} (hs : s.MutexFree) {k : Slot} {dv : PcieuniDev}
    (h : dv.devMut = false) : (s.setDev k dv).MutexFree :=
  setDev_forall (Q := fun _ dv => dv.devMut = false) h (fun j _ => hs j)

/-- With every mutex free no call blocks. -/
theorem MutexFree.not_blocked {s : Driver} (hs : s.MutexFree) (op : Op) :
    s.exec op ≠ .error .blocked := by
  intro h
  cases op with
  | probe env d =>
      simp only [exec] at h
      split at h
      · rename_i e hcall
        cases h
        exact pcieuniProbeExp_not_blocked env d s hcall
      · cases h
  | remove devName d =>
      simp only [exec] at h
      split at h
      · rename_i e hcall
        cases h
        exact pcieuniRemoveExp_not_blocked devName d hs hcall
      · cases h
  | openFile env k f =>
      simp only [exec] at h
      split at h
      · rename_i e hcall
        cases h
        exact pcieuniOpenExp_not_blocked (hs k) env k f hcall
      · cases h
  | release intr f =>
      simp only [exec] at h
      split at h
      · cases h
      split at h
      · rename_i e hcall
        cases h
        exact pcieuniReleaseExp_not_blocked (hs _) intr f hcall
      · cases h
  | read env f buf count fPos =>
      simp only [exec] at h
      split at h
      · cases h
      split at h
      · rename_i e hcall
        cases h
        exact pcieuniReadNoStructExp_not_blocked (hs _) _ _ _ _ _ hcall
      · cases h
  | write env f buf count fPos =>
      simp only [exec] at h
      split at h
      · cases h
      split at h
      · rename_i e hcall
        cases h
        exact pcieuniWriteNoStructExp_not_blocked (hs _) _ _ _ _ _ hcall
      · cases h
  | ioctl env f cmd arg =>
      simp only [exec] at h
      split at h
      · cases h
      split at h
      · rename_i e hcall
        cases h
        exact pcieuniIoctlExp_not_blocked (hs _) _ _ _ _ _ hcall
      · cases h

/-- A call that returns leaves every mutex free exactly when it is not such an
ioctl. -/
theorem MutexFree.exec_iff {s s' : Driver} {op : Op} {r : OpRet} (hs : s.MutexFree)
    (h : s.exec op = .ok (s', r)) : s'.MutexFree ↔ s.ReleasesMutex op := by
  cases op with
  | probe env d =>
      refine iff_of_true ?_ trivial
      rcases exec_probe h with ⟨-, rfl, -⟩ | ⟨i, drvdata, -, -, -, -, rfl⟩ |
          ⟨i, dv, -, -, -, -, hprobed, rfl⟩
      · exact hs
      · exact hs.setDev (hs _)
      · exact hs.setDev (hprobed.devMut.trans (hs _))
  | remove devName d =>
      obtain ⟨k, dv, -, -, -, hrem, -, rfl⟩ := exec_remove h
      exact iff_of_true (hs.setDev hrem.devMut) trivial
  | openFile env k f =>
      refine iff_of_true ?_ trivial
      rcases exec_openFile h with ⟨-, -, rfl⟩ | ⟨-, -, -, rfl⟩
      · exact hs.setDev (hs k)
      · exact hs.setDev (hs k)
  | release intr f =>
      refine iff_of_true ?_ trivial
      obtain ⟨k, -, ⟨-, -, rfl⟩ | ⟨-, -, -, rfl⟩⟩ := exec_release h
      · exact hs
      · exact hs.setDev (hs k)
  | read env f buf count fPos =>
      obtain ⟨k, -, rfl, -⟩ := exec_read h
      exact iff_of_true hs trivial
  | write env f buf count fPos =>
      obtain ⟨k, regs, -, rfl, -⟩ := exec_write h
      exact iff_of_true hs trivial
  | ioctl env f cmd arg =>
      obtain ⟨k, hk, -, -, ⟨rfl, hwhy⟩ | ⟨hsts, hok, hintr, hcmd, rfl⟩⟩ := exec_ioctl h
      · apply iff_of_true hs
        intro k' hk' hsts hok hintr
        obtain rfl : k = k' := Option.some.inj (hk.symm.trans hk')
        rcases hwhy with h0 | h0 | h0 | hcmd
        · exact absurd h0 hsts
        · simp [hok] at h0
        · simp [hintr] at h0
        · exact hcmd
      · refine iff_of_false ?_ ?_
        · intro hfree
          have := hfree k
          simp at this
        · intro hrel
          exact hcmd (hrel k hk hsts hok hintr)

/-- In a run that starts with every mutex free, every call leaves them free if
and only if no ioctl on a device that is present comes to the default case; and
after such a run no call blocks. -/
theorem run_mutexFree_iff {s s' : Driver} {tr : List (Transition Driver Op OpRet)}
    (h : driverLts.Run s tr s') (hs : s.MutexFree) :
    ((∀ t ∈ tr, t.post.MutexFree) ↔ ∀ t ∈ tr, t.pre.ReleasesMutex t.act) ∧
      ((∀ t ∈ tr, t.pre.ReleasesMutex t.act) → ∀ op, s'.exec op ≠ .error .blocked) := by
  have hpres : ∀ s a s' e, MutexFree s → ReleasesMutex s a →
      driverLts.step s a = some (s', e) → MutexFree s' := by
    intro s a s' e hs hrel hstep
    exact (hs.exec_iff (driverLts_step.mp hstep)).mpr hrel
  refine ⟨h.always_iff (A := fun _ _ => True) (fun _ hs => hs)
    (fun s a s' e hs _ => hpres s a s' e hs) ?_ hs (fun _ _ => trivial), ?_⟩
  · intro s a s' e hs _ hrel hstep hfree
    exact hrel ((hs.exec_iff (driverLts_step.mp hstep)).mp hfree)
  · intro hrel op
    exact (h.preserves hpres hs hrel).1.not_blocked op

theorem initial_mutexFree (major : Int) (verMaj verMin : BitVec 16) (regs : Regs) :
    (initial major verMaj verMin regs).MutexFree := fun _ => rfl

/-- A run that opens a device, asks for the driver version, and removes the
device; then it can be probed again. -/
theorem run_mutexFree_iff_version : ∃ tr s',
    driverLts.Run (initial 250 1 0 fun _ _ _ => 0) tr s' ∧
    tr.map (·.act) = [.probe { fuel := 1 } 7, .openFile {} 0 1,
      .ioctl { copyIn := none, stack := ⟨0, 0, 0, 0⟩ } 1 pcieuniDriverVersion 0,
      .remove "gpcieuni" 7] ∧
    (∀ t ∈ tr, t.post.MutexFree) ∧ s'.exec (.probe { fuel := 1 } 7) ≠ .error .blocked := by
  obtain ⟨tr, s', hrun, hacts, hfree⟩ := Lts.Run.of_exec_map (M := driverLts)
    (g := fun r => r.1.all fun t => decide t.post.MutexFree) (v := true)
    (s := initial 250 1 0 fun _ _ _ => 0)
    (l := [.probe { fuel := 1 } 7, .openFile {} 0 1,
      .ioctl { copyIn := none, stack := ⟨0, 0, 0, 0⟩ } 1 pcieuniDriverVersion 0,
      .remove "gpcieuni" 7]) (by decide +kernel)
  obtain ⟨hiff, hblock⟩ := run_mutexFree_iff hrun (initial_mutexFree 250 1 0 fun _ _ _ => 0)
  have hall : ∀ t ∈ tr, t.post.MutexFree := by simpa using hfree
  exact ⟨tr, s', hrun, hacts, hall, hblock (hiff.mp hall) _⟩

/-- One ioctl with an unknown command, and the next open of the device blocks. -/
theorem ioctl_unknown_keeps_mutex : ∃ tr s',
    driverLts.Run (initial 250 1 0 fun _ _ _ => 0) tr s' ∧
    tr.map (·.act) = [.probe { fuel := 1 } 7, .openFile {} 0 1,
      .ioctl { copyIn := none, stack := ⟨0, 0, 0, 0⟩ } 1 0 0] ∧
    (initial 250 1 0 fun _ _ _ => 0).MutexFree ∧
    ¬ (∀ t ∈ tr, t.post.MutexFree) ∧ s'.exec (.openFile {} 0 2) = .error .blocked := by
  obtain ⟨tr, s', hrun, hacts, hend⟩ := Lts.Run.of_exec_map (M := driverLts)
    (g := fun r => (r.2.dev 0).devMut) (v := true)
    (s := initial 250 1 0 fun _ _ _ => 0)
    (l := [.probe { fuel := 1 } 7, .openFile {} 0 1,
      .ioctl { copyIn := none, stack := ⟨0, 0, 0, 0⟩ } 1 0 0]) (by decide +kernel)
  have hheld : (s'.dev 0).devMut = true := hend
  obtain ⟨t, ht, hpost⟩ := hrun.end_mem (by intro h; simp [h] at hacts)
  refine ⟨tr, s', hrun, hacts, initial_mutexFree 250 1 0 _, fun hall => ?_, ?_⟩
  · have := hall t ht 0
    rw [hpost, hheld] at this
    cases this
  · simp [exec, pcieuniOpenExp, hheld, mutexLockInterruptible]

end Driver

end Gpcieuni
