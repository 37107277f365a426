-- SUMMARY: One ioctl with an unknown command takes its device out of service for good: nothing reaches it any more, and it cannot be removed.
import Gpcieuni.Driver.Mutex
import Gpcieuni.Driver.Noninterference

/-!
# A wedged device

The default case of the switch in `pcieuni_ioctl_exp` returns with the mutex of the
device. No call can give it back: whatever is called afterwards, on whatever file,
either fails before it takes the mutex or does not return. `Wedged` is the invariant of
this, and the device cannot leave it by being unplugged, because `pcieuni_remove_exp`
waits for the mutex too.
-/

namespace Gpcieuni

/-! ## Calls that find their mutex held -/

section Held

variable {dv dv' : PcieuniDev} (hheld : dv.devMut = true)

include hheld

theorem pcieuniReadNoStructExp_held {env : ReadEnv} {regs : Regs} {buf : UserMem}
    {count pos : BitVec 64} {r : ReadRet}
    (h : pcieuniReadNoStructExp env regs dv buf count pos = .ok (dv', r)) :
    r.ret < 0 ∧ r.log = [] ∧ r.fPos = pos ∧ r.buf = buf := by
  simp only [pcieuniReadNoStructExp, hheld] at h
  split at h
  · rename_i hcheck
    cases h
    exact ⟨by simp [check_inl hcheck, efault], rfl, rfl, rfl⟩
  split at h
  · cases h
    exact ⟨by simp [erestartsys], rfl, rfl, rfl⟩
  · cases h
  · rename_i hlock
    exact absurd hlock (mutexLockInterruptible_held _)

theorem pcieuniWriteNoStructExp_held {env : WriteEnv} {regs : Regs} {buf : UserMem}
    {count pos : BitVec 64} {r : WriteRet}
    (h : pcieuniWriteNoStructExp env regs dv buf count pos = .ok (dv', r)) :
    r.ret < 0 ∧ r.log = [] ∧ r.fPos = pos ∧ r.regs = regs := by
  simp only [pcieuniWriteNoStructExp, hheld] at h
  split at h
  · rename_i hcheck
    cases h
    exact ⟨by simp [check_inl hcheck, efault], rfl, rfl, rfl⟩
  split at h
  · cases h
    exact ⟨by simp [erestartsys], rfl, rfl, rfl⟩
  · cases h
  · rename_i hlock
    exact absurd hlock (mutexLockInterruptible_held _)

theorem pcieuniIoctlExp_held {env : IoctlEnv} {verMaj verMin : BitVec 16} {cmd : BitVec 32}
    {arg : BitVec 64} {r : IoctlRet}
    (h : pcieuniIoctlExp env verMaj verMin dv cmd arg = .ok (dv', r)) :
    r.ret < 0 ∧ r.log = [] ∧ r.copied = [] := by
  simp only [pcieuniIoctlExp, hheld] at h
  split at h
  · cases h
    exact ⟨by simp [efault], rfl, rfl⟩
  split at h
  · cases h
    exact ⟨by simp [efault], rfl, rfl⟩
  split at h
  · cases h
    exact ⟨by simp [erestartsys], rfl, rfl⟩
  · cases h
  · rename_i hlock
    exact absurd hlock (mutexLockInterruptible_held _)

end Held

/-- The default case of the switch keeps the mutex of a device that is present. -/
theorem pcieuniIoctlExp_enotty {env : IoctlEnv} {verMaj verMin : BitVec 16} {dv dv' : PcieuniDev}
    {cmd : BitVec 32} {arg : BitVec 64} {r : IoctlRet}
    (h : pcieuniIoctlExp env verMaj verMin dv cmd arg = .ok (dv', r)) (hret : r.ret = -enotty) :
    dv.devSts ≠ 0 ∧ dv'.devMut = true := by
  have hcopy : ∀ {dv₁ data log}, ioctlCopyOut env dv₁ data log = (dv', r) → False := by
    intro dv₁ data log hout
    simp only [ioctlCopyOut] at hout
    split at hout <;> cases hout <;> cases hret
  simp only [pcieuniIoctlExp] at h
  split at h
  · cases h; cases hret
  rename_i hsts
  refine ⟨hsts, ?_⟩
  split at h
  · cases h; cases hret
  split at h
  · cases h; cases hret
  · cases h
  split at h
  · split at h
    · cases h; cases hret
    · exact (hcopy (Except.ok.inj h)).elim
  split at h
  · exact (hcopy (Except.ok.inj h)).elim
  split at h
  · split at h
    · cases h
    · exact (hcopy (Except.ok.inj h)).elim
  · cases h; rfl

namespace Driver

/-! ## The invariant -/

/-- The device `d` is bound to slot `k`, and a call that has returned holds its mutex. -/
structure Wedged (s : Driver) (d : PciDev) (k : Slot) : Prop where
  serves : s.Serves d k
  held : (s.dev k).devMut = true

/-- What the caller has when the call has done nothing. -/
def undelivered : Op → Delivery
  | .read _ _ buf _ fPos => .transfer fPos buf
  | .write _ _ buf _ fPos => .transfer fPos buf
  | .ioctl .. => .struct []
  | .probe .. | .remove .. | .openFile .. | .release .. => .nothing

/-- The call has failed without an access to the hardware, and handed over nothing. -/
structure Refused (t : Transition Driver Op OpRet) : Prop where
  ret : t.out.ret < 0
  log : t.out.log = []
  delivered : t.pre.delivered t.act = undelivered t.act
  regs : t.post.regs = t.pre.regs

section Wedged

variable {d : PciDev} {k : Slot} {s s' : Driver} {op : Op} {r : OpRet} (hw : s.Wedged d k)
  (h : s.exec op = .ok (s', r))

include hw

/-- The remove waits for the mutex, and no signal ends that. -/
theorem Wedged.remove_blocks (devName : String) : s.exec (.remove devName d) = .error .blocked := by
  have hlock : mutexLock (s.dev k).devMut = .blocked := by
    rw [hw.held]
    rfl
  simp only [exec, pcieuniRemoveExp, hw.serves.drvdata, hlock]

include h

theorem Wedged.not_removed (devName : String) : op ≠ .remove devName d := by
  rintro rfl
  rw [hw.remove_blocks devName] at h
  cases h

theorem Wedged.exec_held (hs : s.SlotInv) (hadm : s.Admissible op) : (s'.dev k).devMut = true := by
  have hother : ∀ {j : Slot} {dv : PcieuniDev}, k ≠ j → ((s.setDev j dv).dev k).devMut = true := by
    intro j dv hne
    rw [setDev_dev_ne hne]
    exact hw.held
  -- who takes a mutex that is free does not take this one
  have hfree : ∀ {j : Slot} {dv : PcieuniDev}, (s.dev j).devMut = false →
      ((s.setDev j dv).dev k).devMut = true := by
    intro j dv hj
    refine hother fun hjk => ?_
    rw [← hjk, hw.held] at hj
    cases hj
  cases op with
  | probe env d' =>
      rcases exec_probe h with ⟨-, rfl, -⟩ | ⟨i, drvdata, hslot, -, -, -, rfl⟩ |
          ⟨i, dv, hslot, -, -, -, -, rfl⟩
      · exact hw.held
      · exact hother (hw.serves.ne_free hslot)
      · exact hother (hw.serves.ne_free hslot)
  | remove devName d' =>
      obtain ⟨j, dv, -, hj, -, -, -, rfl⟩ := exec_remove h
      exact hfree hj
  | openFile env j f =>
      rcases exec_openFile h with ⟨-, -, rfl⟩ | ⟨-, hj, -, rfl⟩
      · exact setDev_forall (Q := fun i dv => i = k → dv.devMut = true)
          (fun hjk => hjk ▸ hw.held) (fun i _ hik => hik ▸ hw.held) k rfl
      · exact hfree hj
  | release intr f =>
      obtain ⟨j, -, ⟨-, -, rfl⟩ | ⟨-, hj, -, rfl⟩⟩ := exec_release h
      · exact hw.held
      · exact hfree hj
  | read env f buf count fPos =>
      obtain ⟨j, -, rfl, -⟩ := exec_read h
      exact hw.held
  | write env f buf count fPos =>
      obtain ⟨j, regs, -, rfl, -⟩ := exec_write h
      exact hw.held
  | ioctl env f cmd arg =>
      obtain ⟨j, -, -, -, ⟨rfl, -⟩ | ⟨-, -, -, -, rfl⟩⟩ := exec_ioctl h
      · exact hw.held
      · exact setDev_forall (Q := fun i dv => i = k → dv.devMut = true)
          (fun _ => rfl) (fun i _ hik => hik ▸ hw.held) k rfl

/-- No call gives the mutex back. -/
theorem Wedged.exec (hs : s.SlotInv) (hadm : s.Admissible op) : s'.Wedged d k :=
  ⟨exec_serves hs hadm h hw.serves (hw.not_removed h), hw.exec_held h hs hadm⟩

/-- The calls on the slot fail, if they return. -/
theorem Wedged.refused (hon : s.onSlot k op = true) : Refused ⟨s, op, r, s'⟩ := by
  cases op with
  | openFile env j f =>
      obtain rfl : j = k := by simpa [onSlot] using hon
      have hlog : r.log = [] := by
        simp only [Driver.exec] at h
        split at h
        · cases h
        · cases h; rfl
      rcases exec_openFile h with ⟨-, hret, rfl⟩ | ⟨-, hfree, -, -⟩
      · exact ⟨by simp [hret, erestartsys], hlog, rfl, rfl⟩
      · rw [hw.held] at hfree
        cases hfree
  | release intr f =>
      obtain ⟨j, hj, hcases⟩ := exec_release h
      have hlog : r.log = [] := by
        simp only [Driver.exec, hj] at h
        split at h
        · cases h
        · cases h; rfl
      rcases hcases with ⟨-, hret, rfl⟩ | ⟨-, hfree, -, -⟩
      · exact ⟨by simp [hret, erestartsys], hlog, rfl, rfl⟩
      · obtain rfl : j = k := by simpa [onSlot, hj] using hon
        rw [hw.held] at hfree
        cases hfree
  | read env f buf count fPos =>
      have hf : s.privateData f = some k := by simpa [onSlot] using hon
      simp only [Driver.exec, hf] at h
      cases hread : pcieuniReadNoStructExp env s.regs (s.dev k) buf count fPos with
      | error e => rw [hread] at h; cases h
      | ok x =>
          obtain ⟨hret, hlog, hpos, hbuf⟩ := pcieuniReadNoStructExp_held hw.held hread
          simp only [hread] at h
          cases h
          refine ⟨hret, hlog, ?_, rfl⟩
          simp only [delivered, undelivered, hf, hread, hpos, hbuf]
  | write env f buf count fPos =>
      have hf : s.privateData f = some k := by simpa [onSlot] using hon
      simp only [Driver.exec, hf] at h
      cases hwrite : pcieuniWriteNoStructExp env s.regs (s.dev k) buf count fPos with
      | error e => rw [hwrite] at h; cases h
      | ok x =>
          obtain ⟨hret, hlog, hpos, hregs⟩ := pcieuniWriteNoStructExp_held hw.held hwrite
          simp only [hwrite] at h
          cases h
          refine ⟨hret, hlog, ?_, hregs⟩
          simp only [delivered, undelivered, hf, hwrite, hpos]
  | ioctl env f cmd arg =>
      have hf : s.privateData f = some k := by simpa [onSlot] using hon
      simp only [Driver.exec, hf] at h
      cases hioctl : pcieuniIoctlExp env s.pcieuniDrvVerMaj s.pcieuniDrvVerMin (s.dev k) cmd arg with
      | error e => rw [hioctl] at h; cases h
      | ok x =>
          obtain ⟨hret, hlog, hcopied⟩ := pcieuniIoctlExp_held hw.held hioctl
          simp only [hioctl] at h
          cases h
          refine ⟨hret, hlog, ?_, rfl⟩
          simp only [delivered, undelivered, hf, hioctl, hcopied]
  | probe | remove => cases hon

end Wedged

/-! ## After an unknown command -/

/-- An ioctl that finds no case for its command wedges the device of its file. -/
theorem wedged_of_enotty {s s' : Driver} {env : IoctlEnv} {f : FilePtr} {cmd : BitVec 32}
    {arg : BitVec 64} {k : Slot} {r : OpRet} (hs : s.SlotInv) (hu : s.InUse)
    (hf : s.privateData f = some k) (h : s.exec (.ioctl env f cmd arg) = .ok (s', r))
    (hret : r.ret = -enotty) : ∃ d, s'.Wedged d k := by
  have hcall := h
  simp only [Driver.exec, hf] at hcall
  cases hioctl : pcieuniIoctlExp env s.pcieuniDrvVerMaj s.pcieuniDrvVerMin (s.dev k) cmd arg with
  | error e => rw [hioctl] at hcall; cases hcall
  | ok x =>
      simp only [hioctl] at hcall
      cases hcall
      obtain ⟨hsts, hheld⟩ := pcieuniIoctlExp_enotty hioctl hret
      obtain ⟨d, hd⟩ := hu k hsts
      have hadm : s.Admissible (.ioctl env f cmd arg) := trivial
      exact ⟨d, exec_serves hs hadm h hd (by simp), by simpa using hheld⟩

/-- Whatever is called after such an ioctl, the device `d` stays bound and its slot `k`
stays taken. No remove of it returns, and every call on the slot that returns has
failed without an access to the hardware. -/
theorem run_wedged {s s₁ s' : Driver} {env : IoctlEnv} {f : FilePtr} {cmd : BitVec 32}
    {arg : BitVec 64} {k : Slot} {r : OpRet} {tr : List (Transition Driver Op OpRet)}
    (hreach : driverLts.Reachable Admissible s) (hf : s.privateData f = some k)
    (h : s.exec (.ioctl env f cmd arg) = .ok (s₁, r)) (hret : r.ret = -enotty)
    (hrun : driverLts.Run s₁ tr s') (hadm : ∀ t ∈ tr, t.pre.Admissible t.act) :
    ∃ d, s'.Serves d k ∧
      (∀ t ∈ tr, (∀ devName, t.act ≠ .remove devName d) ∧
        (t.pre.onSlot k t.act = true → Refused t)) ∧
      ∀ devName, s'.exec (.remove devName d) = .error .blocked := by
  obtain ⟨hs, hu⟩ := hreach.invariant (I := fun s => s.SlotInv ∧ s.InUse)
    (fun _ hinit => ⟨.of_init hinit, .of_init hinit⟩) fun _ _ _ _ ⟨hs, hu⟩ hadm hstep =>
      ⟨hs.exec hadm (driverLts_step.mp hstep), hu.exec hs hadm (driverLts_step.mp hstep)⟩
  have hioctl : s.Admissible (.ioctl env f cmd arg) := trivial
  obtain ⟨d, hw⟩ := wedged_of_enotty hs hu hf h hret
  obtain ⟨⟨-, hw'⟩, hall⟩ := hrun.preserves (I := fun s => s.SlotInv ∧ s.Wedged d k)
    (P := Admissible)
    (fun _ _ _ _ ⟨hs, hw⟩ hadm hstep =>
      ⟨hs.exec hadm (driverLts_step.mp hstep), hw.exec (driverLts_step.mp hstep) hs hadm⟩)
    ⟨hs.exec hioctl h, hw⟩ hadm
  refine ⟨d, hw'.serves, fun t ht => ?_, hw'.remove_blocks⟩
  have hstep := driverLts_step.mp (hrun.step_of_mem ht)
  have hpre := (hall t ht).1.2
  exact ⟨hpre.not_removed hstep, hpre.refused hstep⟩

/-- Two devices of one kind. After an ioctl with command 0 on the first, a read and an
open of it are broken off by a signal, while the second goes on and is unplugged. -/
theorem run_wedged_two : ∃ s s₁ r tr s',
    driverLts.Reachable Admissible s ∧ s.privateData 1 = some 0 ∧
    s.exec (.ioctl { copyIn := none, stack := ⟨0, 0, 0, 0⟩ } 1 0 0) = .ok (s₁, r) ∧
    driverLts.Run s₁ tr s' ∧
    tr.map (·.act) = [.read { intr := true, fuel := 2 } 1 (fun _ => 0) 4 0,
      .openFile { intr := true } 0 3, .read { fuel := 2 } 2 (fun _ => 0) 4 0,
      .remove "gpcieuni" 8] ∧
    ∃ d, s'.Serves d 0 ∧
      (∀ t ∈ tr, (∀ devName, t.act ≠ .remove devName d) ∧
        (t.pre.onSlot 0 t.act = true → Refused t)) ∧
      ∀ devName, s'.exec (.remove devName d) = .error .blocked := by
  have hexec : (driverLts.exec (initial 250 1 0 fun _ _ _ => 0)
      [.probe (oneBarEnv 0x1000) 7, .probe (oneBarEnv 0x2000) 8, .openFile {} 0 1,
        .openFile {} 1 2]).map (fun r₁ =>
        (r₁.1.all fun t => decide (t.pre.Admissible t.act), decide (r₁.2.privateData 1 = some 0),
          (driverLts.exec r₁.2 [.ioctl { copyIn := none, stack := ⟨0, 0, 0, 0⟩ } 1 0 0,
            .read { intr := true, fuel := 2 } 1 (fun _ => 0) 4 0, .openFile { intr := true } 0 3,
            .read { fuel := 2 } 2 (fun _ => 0) 4 0, .remove "gpcieuni" 8]).map fun r₂ =>
              (r₂.1.map (fun t => t.out.ret),
                r₂.1.all fun t => decide (t.pre.Admissible t.act)))) =
      some (true, true, some ([-enotty, -erestartsys, -erestartsys, 4, 0], true)) := by
    decide +kernel
  obtain ⟨tr₁, s, hrun₁, hacts₁, hend₁⟩ := Lts.Run.of_exec_map hexec
  obtain ⟨hadm₁, hrest⟩ := Prod.mk.inj hend₁
  obtain ⟨hf, hrest⟩ := Prod.mk.inj hrest
  obtain ⟨tr₂, s', hrun₂, hacts₂, hend₂⟩ := Lts.Run.of_exec_map hrest
  obtain ⟨hrets, hadm₂⟩ := Prod.mk.inj hend₂
  have hmem : ∀ {l : List (Transition Driver Op OpRet)},
      (l.all fun t => decide (t.pre.Admissible t.act)) = true →
      ∀ t ∈ l, t.pre.Admissible t.act := by
    intro l hall t ht
    exact of_decide_eq_true (List.all_eq_true.mp hall t ht)
  have hreach : driverLts.Reachable Admissible s :=
    ⟨_, tr₁, ⟨250, 1, 0, _, rfl⟩, hrun₁, hmem hadm₁⟩
  replace hf : s.privateData 1 = some 0 := of_decide_eq_true hf
  cases hrun₂ with
  | nil => cases hacts₂
  | @cons _ s₁ _ op r tr hstep hrun =>
      obtain ⟨rfl, hacts⟩ := List.cons.inj hacts₂
      obtain ⟨hret, -⟩ := List.cons.inj hrets
      have hioctl := driverLts_step.mp hstep
      exact ⟨s, s₁, r, tr, s', hreach, hf, hioctl, hrun, hacts,
        run_wedged hreach hf hioctl hret hrun fun t ht =>
          hmem hadm₂ t (List.mem_cons_of_mem _ ht)⟩

end Driver

end Gpcieuni
