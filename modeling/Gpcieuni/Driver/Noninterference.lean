-- SUMMARY: What the users of one device see does not depend on what happens on the other slots.
import Gpcieuni.Lib.Simulation
import Gpcieuni.Driver.Files
import Gpcieuni.Window

/-!
# Noninterference

Two devices share the driver, its slot table and its list of open files, and the
mutexes are the only locks. `Agree` says that two states of the driver cannot be
told apart through slot `k`. A call on the slot gives the same answers in both
and keeps them so (`Agree.exec`), and a call elsewhere, be it a transfer, a probe
or a remove of another device, cannot be noticed (`exec_elsewhere`). Hence a run
can be purged of everything that does not happen on the slot.
-/

namespace Gpcieuni

namespace Driver

/-! ## Calls on a slot -/

/-- The call opens a file on slot `k`, or is made on a file that names it. -/
def onSlot (s : Driver) (k : Slot) : Op → Bool
  | .openFile _ j _ => j = k
  | .release _ f => s.privateData f = some k
  | .read _ f _ _ _ => s.privateData f = some k
  | .write _ f _ _ _ => s.privateData f = some k
  | .ioctl _ f _ _ => s.privateData f = some k
  | .probe .. => false
  | .remove .. => false

/-- What a call leaves with its caller besides the returned value. -/
inductive Delivery where
  | nothing
  /-- The file position and the user buffer. -/
  | transfer (fPos : BitVec 64) (buf : UserMem)
  /-- The bytes of the struct of an ioctl. -/
  | struct (copied : List (BitVec 8))

/-- The position and the data that a call hands to its caller. -/
def delivered (s : Driver) : Op → Delivery
  | .read env f buf count fPos =>
    match s.privateData f with
    | none => .nothing
    | some k =>
      match pcieuniReadNoStructExp env s.regs (s.dev k) buf count fPos with
      | .error _ => .nothing
      | .ok (_, r) => .transfer r.fPos r.buf
  | .write env f buf count fPos =>
    match s.privateData f with
    | none => .nothing
    | some k =>
      match pcieuniWriteNoStructExp env s.regs (s.dev k) buf count fPos with
      | .error _ => .nothing
      | .ok (_, r) => .transfer r.fPos buf
  | .ioctl env f cmd arg =>
    match s.privateData f with
    | none => .nothing
    | some k =>
      match pcieuniIoctlExp env s.pcieuniDrvVerMaj s.pcieuniDrvVerMin (s.dev k) cmd arg with
      | .error _ => .nothing
      | .ok (_, r) => .struct r.copied
  | .probe .. | .remove .. | .openFile .. | .release .. => .nothing

/-- The states `s` and `p` look the same to the users of device `d` at slot `k`. -/
structure Agree (d : PciDev) (k : Slot) (s p : Driver) : Prop where
  dev : p.dev k = s.dev k
  regs : p.regs d = s.regs d
  files : ∀ f, p.privateData f = some k ↔ s.privateData f = some k
  verMaj : p.pcieuniDrvVerMaj = s.pcieuniDrvVerMaj
  verMin : p.pcieuniDrvVerMin = s.pcieuniDrvVerMin

theorem Agree.refl (d : PciDev) (k : Slot) (s : Driver) : Agree d k s s :=
  ⟨rfl, rfl, fun _ => Iff.rfl, rfl, rfl⟩

theorem Agree.trans {d : PciDev} {k : Slot} {s₁ s₂ s₃ : Driver} (h : Agree d k s₁ s₂)
    (h' : Agree d k s₂ s₃) : Agree d k s₁ s₃ :=
  ⟨h'.dev.trans h.dev, h'.regs.trans h.regs, fun f => (h'.files f).trans (h.files f),
    h'.verMaj.trans h.verMaj, h'.verMin.trans h.verMin⟩

theorem Agree.symm {d : PciDev} {k : Slot} {s p : Driver} (h : Agree d k s p) : Agree d k p s :=
  ⟨h.dev.symm, h.regs.symm, fun f => (h.files f).symm, h.verMaj.symm, h.verMin.symm⟩

/-- No file is open on another slot. -/
def OnlyOn (k : Slot) (s : Driver) : Prop := ∀ f j, s.privateData f = some j → j = k

/-! ## The files of a slot -/

theorem privateData_cons {s s' : Driver} {f : FilePtr} {k : Slot}
    (h : s'.files = ⟨f, k⟩ :: s.files) (g : FilePtr) :
    s'.privateData g = if f = g then some k else s.privateData g := by
  by_cases hg : f = g
  · simp [privateData, h, hg]
  · simp [privateData, h, hg]

theorem privateData_filter {s s' : Driver} {f : FilePtr}
    (h : s'.files = s.files.filter (·.filp ≠ f)) (g : FilePtr) :
    s'.privateData g = if f = g then none else s.privateData g := by
  simp only [privateData, h, List.find?_filter]
  by_cases hg : f = g
  · subst hg
    simp
  · rw [if_neg hg]
    congr 2
    funext o
    by_cases ho : o.filp = g
    · simp [ho, Ne.symm hg]
    · simp [ho]

/-- A remove that takes no file of slot `k` with it leaves them all. -/
theorem privateData_detachFiles {s s' : Driver} {es : List FileEntry} {k : Slot}
    (hs : (s.files.map (·.filp)).Nodup) (h : s'.files = detachFiles es s.files)
    (hk : k ≠ nullSlot) (hes : ∀ f, s.privateData f = some k → f ∉ es.map (·.filp))
    (g : FilePtr) : s'.privateData g = some k ↔ s.privateData g = some k := by
  have hs' : (s'.files.map (·.filp)).Nodup := by rw [h, map_filp_detachFiles]; exact hs
  constructor
  · intro hg
    have hmem := mem_files_of_privateData hg
    rw [h, mem_detachFiles] at hmem
    rcases hmem with ⟨-, hmem⟩ | ⟨-, hnull, -⟩
    · exact privateData_of_mem_files hs hmem
    · exact absurd hnull hk
  · intro hg
    apply privateData_of_mem_files hs'
    rw [h, mem_detachFiles]
    exact .inl ⟨hes g hg, mem_files_of_privateData hg⟩

/-! ## A call on the slot -/

section OnTheSlot

variable {d : PciDev} {k : Slot} {s p s' : Driver} {op : Op} {r : OpRet}

theorem Agree.files_cons {p' : Driver} {f : FilePtr} (ha : Agree d k s p)
    (hp : p'.files = ⟨f, k⟩ :: p.files) (hs : s'.files = ⟨f, k⟩ :: s.files) (g : FilePtr) :
    p'.privateData g = some k ↔ s'.privateData g = some k := by
  rw [privateData_cons hp, privateData_cons hs]
  split
  · exact Iff.rfl
  · exact ha.files g

theorem Agree.files_filter {p' : Driver} {f : FilePtr} (ha : Agree d k s p)
    (hp : p'.files = p.files.filter (·.filp ≠ f)) (hs : s'.files = s.files.filter (·.filp ≠ f))
    (g : FilePtr) : p'.privateData g = some k ↔ s'.privateData g = some k := by
  rw [privateData_filter hp, privateData_filter hs]
  split
  · exact iff_of_false (by simp) (by simp)
  · exact ha.files g

/-- A call on the slot gives the same answer in both states and leaves them alike. -/
theorem Agree.exec (ha : Agree d k s p) (hd : s.Serves d k) (hon : s.onSlot k op = true)
    (h : s.exec op = .ok (s', r)) : ∃ p', p.exec op = .ok (p', r) ∧ Agree d k s' p' := by
  cases op with
  | openFile env j f =>
      obtain rfl : j = k := by simpa [onSlot] using hon
      simp only [Driver.exec] at h ⊢
      rw [ha.dev]
      cases hopen : pcieuniOpenExp env j f (s.dev j) with
      | error e => rw [hopen] at h; cases h
      | ok x =>
          simp only [hopen] at h ⊢
          cases h
          refine ⟨_, rfl, by simp, ha.regs, ?_, ha.verMaj, ha.verMin⟩
          by_cases hret : x.2 = 0
          · exact ha.files_cons (f := f) (by simp [hret]) (by simp [hret])
          · simpa [hret, privateData] using ha.files
  | release intr f =>
      have hs : s.privateData f = some k := by simpa [onSlot] using hon
      simp only [Driver.exec, hs] at h
      simp only [Driver.exec, (ha.files f).mpr hs, ha.dev]
      cases hrel : pcieuniReleaseExp intr f (s.dev k) with
      | error e => rw [hrel] at h; cases h
      | ok x =>
          simp only [hrel] at h ⊢
          cases h
          exact ⟨_, rfl, by simp, ha.regs, ha.files_filter rfl rfl, ha.verMaj, ha.verMin⟩
  | read env f buf count fPos =>
      have hs : s.privateData f = some k := by simpa [onSlot] using hon
      simp only [Driver.exec, hs] at h
      simp only [Driver.exec, (ha.files f).mpr hs, ha.dev,
        pcieuniReadNoStructExp_congr ha.regs hd.mapped]
      cases hread : pcieuniReadNoStructExp env s.regs (s.dev k) buf count fPos with
      | error e => rw [hread] at h; cases h
      | ok x =>
          simp only [hread] at h ⊢
          cases h
          exact ⟨_, rfl, by simp, ha.regs, ha.files, ha.verMaj, ha.verMin⟩
  | write env f buf count fPos =>
      have hs : s.privateData f = some k := by simpa [onSlot] using hon
      simp only [Driver.exec, hs] at h
      simp only [Driver.exec, (ha.files f).mpr hs, ha.dev]
      cases hwrite : pcieuniWriteNoStructExp env s.regs (s.dev k) buf count fPos with
      | error e => rw [hwrite] at h; cases h
      | ok x =>
          simp only [hwrite] at h
          cases h
          obtain ⟨-, regs₁, hrun, hown⟩ := pcieuniWriteNoStructExp_local ha.regs hd.mapped hwrite
          simp only [hrun]
          exact ⟨_, rfl, by simp, hown, ha.files, ha.verMaj, ha.verMin⟩
  | ioctl env f cmd arg =>
      have hs : s.privateData f = some k := by simpa [onSlot] using hon
      simp only [Driver.exec, hs] at h
      simp only [Driver.exec, (ha.files f).mpr hs, ha.dev, ha.verMaj, ha.verMin]
      cases hioctl : pcieuniIoctlExp env s.pcieuniDrvVerMaj s.pcieuniDrvVerMin (s.dev k) cmd arg with
      | error e => rw [hioctl] at h; cases h
      | ok x =>
          simp only [hioctl] at h ⊢
          cases h
          exact ⟨_, rfl, by simp, ha.regs, ha.files, ha.verMaj, ha.verMin⟩
  | probe | remove => cases hon

/-- A call on the slot hands over the same data in both states. -/
theorem Agree.delivered (ha : Agree d k s p) (hd : s.Serves d k) (hon : s.onSlot k op = true) :
    p.delivered op = s.delivered op := by
  cases op with
  | read env f buf count fPos =>
      have hs : s.privateData f = some k := by simpa [onSlot] using hon
      simp only [Driver.delivered, hs, (ha.files f).mpr hs, ha.dev,
        pcieuniReadNoStructExp_congr ha.regs hd.mapped]
  | write env f buf count fPos =>
      have hs : s.privateData f = some k := by simpa [onSlot] using hon
      simp only [Driver.delivered, hs, (ha.files f).mpr hs, ha.dev]
      cases hwrite : pcieuniWriteNoStructExp env s.regs (s.dev k) buf count fPos with
      | ok x =>
          obtain ⟨-, regs₁, hrun, -⟩ := pcieuniWriteNoStructExp_local ha.regs hd.mapped hwrite
          rw [hrun]
      | error e =>
          cases hwrite' : pcieuniWriteNoStructExp env p.regs (s.dev k) buf count fPos with
          | error e' => rfl
          | ok x =>
              obtain ⟨-, regs₁, hrun, -⟩ :=
                pcieuniWriteNoStructExp_local ha.regs.symm hd.mapped hwrite'
              rw [hwrite] at hrun
              cases hrun
  | ioctl env f cmd arg =>
      have hs : s.privateData f = some k := by simpa [onSlot] using hon
      simp only [Driver.delivered, hs, (ha.files f).mpr hs, ha.dev, ha.verMaj, ha.verMin]
  | probe | remove | openFile | release => rfl

end OnTheSlot

/-! ## A call elsewhere -/

/-- A slot that does not answer `-EFAULT` is set up for a bound device. -/
def InUse (s : Driver) : Prop := ∀ j, (s.dev j).devSts ≠ 0 → ∃ d, s.Serves d j

theorem InUse.of_init {s : Driver} (h : driverLts.init s) : s.InUse := by
  obtain ⟨major, verMaj, verMin, regs, rfl⟩ := h
  exact fun j hj => absurd rfl hj

theorem InUse.exec {s s' : Driver} {op : Op} {r : OpRet} (hu : s.InUse) (hs : s.SlotInv)
    (hadm : s.Admissible op) (h : s.exec op = .ok (s', r)) : s'.InUse := by
  have hkeep := fun d k => exec_serves hs hadm h (d := d) (k := k)
  intro j hj
  rcases exec_slots h with ⟨hsame, -, hop⟩ | ⟨env, d', i, drvdata, rfl, hfree, -, -, -, rfl⟩ |
      ⟨env, d', i, dv, rfl, hfree, -, -, -, hprobed, rfl⟩ |
      ⟨devName, d', k, dv, files, rfl, hk, hrem, rfl⟩
  · rw [(hsame.dev j).2.2.1] at hj
    obtain ⟨d, hd⟩ := hu j hj
    exact ⟨d, hkeep d j hd fun devName => hop devName d⟩
  · by_cases hji : j = i.castSucc
    · subst hji
      obtain ⟨d, hd⟩ := hu i.castSucc (by simpa using hj)
      exact absurd rfl (hd.ne_free hfree)
    · obtain ⟨d, hd⟩ := hu j (by simpa [setDev, hji] using hj)
      exact ⟨d, hkeep d j hd (by simp)⟩
  · by_cases hji : j = i.castSucc
    · subst hji
      exact ⟨d', serves_of_probed hprobed⟩
    · obtain ⟨d, hd⟩ := hu j (by simpa [setDev, hji] using hj)
      exact ⟨d, hkeep d j hd (by simp)⟩
  · by_cases hjk : j = k
    · subst hjk
      exact absurd (by simp [setDev, hrem.devSts]) hj
    · obtain ⟨d, hd⟩ := hu j (by simpa [setDev, hjk] using hj)
      refine ⟨d, hkeep d j hd ?_⟩
      rintro _ heq
      cases heq
      exact hjk (Option.some.inj (hd.drvdata.symm.trans hk))

/-- The steps in which no release leaves a stale entry behind, and which do not remove
the device `d`. -/
def Spares (d : PciDev) (s : Driver) (op : Op) : Prop :=
  (s.Admissible op ∧ s.ReleaseUnlists op) ∧ ∀ devName, op ≠ .remove devName d

/-- What the arguments about one slot need of the others. -/
structure Tidy (s : Driver) : Prop where
  slots : s.SlotInv
  lists : s.ListInv
  inUse : s.InUse

theorem Tidy.of_init {s : Driver} (h : driverLts.init s) : s.Tidy :=
  ⟨.of_init h, .of_init h, .of_init h⟩

theorem Tidy.exec {s s' : Driver} {op : Op} {r : OpRet} (hs : s.Tidy)
    (hop : s.Admissible op ∧ s.ReleaseUnlists op) (h : s.exec op = .ok (s', r)) : s'.Tidy :=
  ⟨hs.slots.exec hop.1 h, hs.lists.exec hop.1 hop.2 h, hs.inUse.exec hs.slots hop.1 h⟩

section Elsewhere

variable {d : PciDev} {k : Slot} {s s' : Driver} {op : Op} {r : OpRet} (hs : s.Tidy)
  (hd : s.Serves d k) (hop : Spares d s op) (hoff : s.onSlot k op = false)
  (h : s.exec op = .ok (s', r))

include hs hd hop hoff h

theorem exec_elsewhere_files (g : FilePtr) : s'.privateData g = some k ↔ s.privateData g = some k := by
  obtain ⟨⟨hadm, -⟩, hrem⟩ := hop
  have hreleased : ∀ {f : FilePtr} {j : Slot}, s.privateData f = some j →
      s.privateData f ≠ some k → s'.files = s.files.filter (·.filp ≠ f) →
      (s'.privateData g = some k ↔ s.privateData g = some k) := by
    intro f j hj hne hfiles
    rw [privateData_filter hfiles]
    split
    · rename_i hfg
      exact iff_of_false (by simp) (hfg ▸ hne)
    · exact Iff.rfl
  rcases exec_files h with ⟨hsame, -, -⟩ | ⟨env, j, f, rfl, hnew⟩ | ⟨f, j, rfl, hj, hnew⟩ |
      ⟨f, j, rfl, hj, hnew⟩ | ⟨devName, d', j, rfl, hj, hnew⟩
  · simp only [privateData, hsame.files]
  · have hjk : j ≠ k := by simpa [onSlot] using hoff
    rw [privateData_cons hnew.files]
    split
    · rename_i hfg
      refine iff_of_false (by simpa using hjk) ?_
      rw [← hfg, show s.privateData f = none from hadm]
      simp
    · exact Iff.rfl
  · exact hreleased hj (by simpa [onSlot] using hoff) hnew.files
  · exact hreleased hj (by simpa [onSlot] using hoff) hnew.files
  · refine privateData_detachFiles hs.lists.nodup hnew.files hd.ne_null (fun f hf hlisted => ?_) g
    obtain ⟨e, he, rfl⟩ := List.mem_map.mp hlisted
    have hjk : k ≠ j := hd.slot_ne (hs.slots.serves_of_drvdata hadm hj)
      fun heq => hrem devName (heq ▸ rfl)
    exact hjk (hs.lists.slot_unique (mem_files_of_privateData hf) (hs.lists.entries j e he))

/-- What happens on the other slots cannot be noticed on this one. -/
theorem exec_elsewhere : Agree d k s s' := by
  have hfiles := exec_elsewhere_files hs hd hop hoff h
  obtain ⟨⟨hadm, -⟩, hrem⟩ := hop
  cases op with
  | probe env d' =>
      rcases exec_probe h with ⟨-, rfl, -⟩ | ⟨i, drvdata, hfree, -, -, -, rfl⟩ |
          ⟨i, dv, hfree, -, -, -, -, rfl⟩
      · exact .refl d k s'
      · exact ⟨setDev_dev_ne (hd.ne_free hfree), rfl, hfiles, rfl, rfl⟩
      · exact ⟨setDev_dev_ne (hd.ne_free hfree), rfl, hfiles, rfl, rfl⟩
  | remove devName d' =>
      obtain ⟨j, dv, hj, -, -, -, -, rfl⟩ := exec_remove h
      have hjk : k ≠ j := hd.slot_ne (hs.slots.serves_of_drvdata hadm hj)
        fun heq => hrem devName (heq ▸ rfl)
      exact ⟨setDev_dev_ne hjk, rfl, hfiles, rfl, rfl⟩
  | openFile env j f =>
      have hjk : j ≠ k := by simpa [onSlot] using hoff
      rcases exec_openFile h with ⟨-, -, rfl⟩ | ⟨-, -, -, rfl⟩
      · exact ⟨setDev_dev_ne hjk.symm, rfl, hfiles, rfl, rfl⟩
      · exact ⟨setDev_dev_ne hjk.symm, rfl, hfiles, rfl, rfl⟩
  | release intr f =>
      obtain ⟨j, hj, ⟨-, -, rfl⟩ | ⟨-, -, -, rfl⟩⟩ := exec_release h
      · exact ⟨rfl, rfl, hfiles, rfl, rfl⟩
      · have hjk : j ≠ k := by simpa [onSlot, hj] using hoff
        exact ⟨setDev_dev_ne hjk.symm, rfl, hfiles, rfl, rfl⟩
  | read env f buf count fPos =>
      obtain ⟨j, -, rfl, -⟩ := exec_read h
      exact .refl d k s'
  | write env f buf count fPos =>
      obtain ⟨j, regs, hj, rfl, -⟩ := exec_write h
      have hjk : j ≠ k := by simpa [onSlot, hj] using hoff
      refine ⟨rfl, ?_, hfiles, rfl, rfl⟩
      simp only [Driver.exec, hj] at h
      cases hwrite : pcieuniWriteNoStructExp env s.regs (s.dev j) buf count fPos with
      | error e => rw [hwrite] at h; cases h
      | ok x =>
          simp only [hwrite] at h
          obtain rfl : x.2.regs = regs := congrArg (fun y => Driver.regs y.1) (Except.ok.inj h)
          by_cases hsts : (s.dev j).devSts = 0
          -- the slot has no device, and the write fails its check
          · simp only [pcieuniWriteNoStructExp, check_of_devSts hsts] at hwrite
            cases hwrite
            rfl
          · obtain ⟨d', hd'⟩ := hs.inUse j hsts
            have hne : d ≠ d' := by
              rintro rfl
              exact hjk (Option.some.inj (hd'.drvdata.symm.trans hd.drvdata))
            have hsame : s.regs d' = s.regs d' := rfl
            exact (pcieuniWriteNoStructExp_local hsame hd'.mapped hwrite).1 d hne
  | ioctl env f cmd arg =>
      obtain ⟨j, hj, -, -, ⟨rfl, -⟩ | ⟨-, -, -, -, rfl⟩⟩ := exec_ioctl h
      · exact .refl d k s'
      · have hjk : j ≠ k := by simpa [onSlot, hj] using hoff
        exact ⟨setDev_dev_ne hjk.symm, rfl, hfiles, rfl, rfl⟩

end Elsewhere

/-! ## Purged runs -/

section Purged

variable {d : PciDev} {k : Slot} {s p s' : Driver} {op : Op} {r : OpRet}

theorem Agree.onSlot (ha : Agree d k s p) (op : Op) : p.onSlot k op = s.onSlot k op := by
  cases op <;> simp [Driver.onSlot, ha.files]

/-- A file that is new to the one state is new to the other, unless it is open there
on another slot. -/
theorem Agree.admissible (ha : Agree d k s p) (ho : OnlyOn k p) (hon : s.onSlot k op = true)
    (hadm : s.Admissible op) : p.Admissible op := by
  cases op with
  | openFile env j f =>
      cases hf : p.privateData f with
      | none => exact hf
      | some i =>
          rw [ho f i hf] at hf
          have hs := (ha.files f).mp hf
          rw [show s.privateData f = none from hadm] at hs
          cases hs
  | probe | remove => cases hon
  | release | read | write | ioctl => trivial

theorem OnlyOn.exec (ho : OnlyOn k s) (hon : s.onSlot k op = true)
    (h : s.exec op = .ok (s', r)) : OnlyOn k s' := by
  intro g i hg
  have hreleased : ∀ {f : FilePtr}, s'.files = s.files.filter (·.filp ≠ f) → i = k := by
    intro f hfiles
    rw [privateData_filter hfiles] at hg
    split at hg
    · cases hg
    · exact ho g i hg
  rcases exec_files h with ⟨hsame, -, -⟩ | ⟨env, j, f, rfl, hnew⟩ | ⟨f, j, rfl, -, hnew⟩ |
      ⟨f, j, rfl, -, hnew⟩ | ⟨devName, d', j, rfl, -, -⟩
  · apply ho g i
    simpa only [privateData, hsame.files] using hg
  · obtain rfl : j = k := by simpa [Driver.onSlot] using hon
    rw [privateData_cons hnew.files] at hg
    split at hg
    · exact (Option.some.inj hg).symm
    · exact ho g i hg
  · exact hreleased hnew.files
  · exact hreleased hnew.files
  · cases hon

/-- Runs that spare the device are simulated by their calls on its slot. When `only`
says that no file is open on another slot at first, none is later. -/
def slotSimulation (d : PciDev) (k : Slot) (only : Prop) :
    Lts.Simulation driverLts driverLts (fun t => Spares d t.pre t.act) where
  rel s p := s.Tidy ∧ s.Serves d k ∧ Agree d k s p ∧ (only → OnlyOn k p)
  labels t := if t.pre.onSlot k t.act then [t.label] else []
  step s op s' r p := by
    rintro ⟨hs, hd, ha, ho⟩ hop hstep
    have h := driverLts_step.mp hstep
    have hs' := hs.exec hop.1 h
    have hd' := exec_serves hs.slots hop.1.1 h hd hop.2
    cases hon : s.onSlot k op with
    | true =>
        obtain ⟨p', hp, ha'⟩ := ha.exec hd hon h
        exact ⟨_, p', .single (driverLts_step.mpr hp), by simp [Transition.label], hs', hd',
          ha', fun honly => (ho honly).exec ((ha.onSlot op).trans hon) hp⟩
    | false =>
        have ha' := (exec_elsewhere hs hd hop hon h).symm.trans ha
        exact ⟨[], p, .nil p, by simp, hs', hd', ha', ho⟩

/-- The same call, with the same answer and the same data for its caller. -/
structure SameCall (t u : Transition Driver Op OpRet) : Prop where
  act : u.act = t.act
  out : u.out = t.out
  delivered : u.pre.delivered u.act = t.pre.delivered t.act

/-- A device `d` is bound to slot `k`, and calls of any kind follow, on this slot and
elsewhere. As long as `d` stays and no release leaves a stale entry behind, the calls
on the slot have the same results when they are made alone, in any state `p` that
looks the same at the slot, and they end in states that look the same. When no file
is open in `p` on another slot, the calls are admissible there too. -/
theorem run_purged {tr : List (Transition Driver Op OpRet)}
    (hreach : driverLts.Reachable (fun s a => s.Admissible a ∧ s.ReleaseUnlists a) s)
    (hd : s.Serves d k) (h : driverLts.Run s tr s') (htr : ∀ t ∈ tr, Spares d t.pre t.act)
    (ha : Agree d k s p) :
    ∃ tr' p', driverLts.Run p tr' p' ∧
      List.Forall₂ (fun t u => SameCall t u ∧ (OnlyOn k p → u.pre.Admissible u.act))
        (tr.filter fun t => t.pre.onSlot k t.act) tr' ∧ Agree d k s' p' := by
  have hs : s.Tidy := hreach.invariant (fun _ => .of_init) fun _ _ _ _ hs hop hstep =>
    hs.exec hop (driverLts_step.mp hstep)
  obtain ⟨ws, p', hmatch, hrun, -, -, ha', -⟩ :=
    (slotSimulation d k (OnlyOn k p)).run h (p := p) ⟨hs, hd, ha, id⟩ htr
  refine ⟨ws.flatten, p', hrun, ?_, ha'⟩
  have hvisible : ∀ t, (slotSimulation d k (OnlyOn k p)).labels t =
      if t.pre.onSlot k t.act then [t.label] else [] := fun _ => rfl
  have hcalls := Lts.Simulation.forall₂_filter hvisible hmatch
  refine List.forall₂_iff_zip.mpr ⟨hcalls.length_eq, fun {t u} hmem => ?_⟩
  obtain ⟨hlabel, -, hd, ha, ho⟩ := (List.forall₂_iff_zip.mp hcalls).2 hmem
  obtain ⟨ht, hon⟩ := List.mem_filter.mp (List.of_mem_zip hmem).1
  obtain ⟨hact, hout⟩ := Prod.mk.inj hlabel
  refine ⟨⟨hact, hout, ?_⟩, fun honly => ?_⟩
  · rw [hact]
    exact ha.delivered hd hon
  · rw [hact]
    exact ha.admissible (ho honly) hon (htr t ht).1.1

/-- Two devices of one kind. While the user of the second writes to it and until it is
unplugged, the user of the first reads as if the second were idle. -/
theorem run_purged_two : ∃ tr₁ s tr s',
    driverLts.Run (initial 250 1 0 fun _ _ _ => 0) tr₁ s ∧
    tr₁.map (·.act) = [.probe (oneBarEnv 0x1000) 7, .probe (oneBarEnv 0x2000) 8] ∧
    driverLts.Run s tr s' ∧
    tr.map (·.act) = [.openFile {} 0 1, .openFile {} 1 2,
      .write { fuel := 2 } 2 (fun _ => 5) 4 0, .read { fuel := 2 } 1 (fun _ => 0) 4 0,
      .remove "gpcieuni" 8, .read { fuel := 2 } 1 (fun _ => 0) 4 4] ∧
    tr.map (fun t => t.pre.onSlot 0 t.act) = [true, false, false, true, false, true] ∧
    ∃ tr' p', driverLts.Run s tr' p' ∧
      List.Forall₂ (fun t u => SameCall t u ∧ (OnlyOn 0 s → u.pre.Admissible u.act))
        (tr.filter fun t => t.pre.onSlot 0 t.act) tr' ∧ Agree 7 0 s' p' := by
  have hexec : (driverLts.exec (initial 250 1 0 fun _ _ _ => 0)
      [.probe (oneBarEnv 0x1000) 7, .probe (oneBarEnv 0x2000) 8]).map (fun r₁ =>
        (r₁.1.all fun t => decide (t.pre.Admissible t.act ∧ t.act.Uninterrupted),
          decide (7 ∈ r₁.2.bound ∧ r₁.2.drvdata 7 = some 0),
          (driverLts.exec r₁.2 [.openFile {} 0 1, .openFile {} 1 2,
            .write { fuel := 2 } 2 (fun _ => 5) 4 0, .read { fuel := 2 } 1 (fun _ => 0) 4 0,
            .remove "gpcieuni" 8, .read { fuel := 2 } 1 (fun _ => 0) 4 4]).map fun r₂ =>
              (r₂.1.all fun t => decide (t.pre.Admissible t.act ∧ t.act.Uninterrupted),
                r₂.1.map fun t => t.pre.onSlot 0 t.act))) =
      some (true, true, some (true, [true, false, false, true, false, true])) := by
    decide +kernel
  obtain ⟨tr₁, s, hrun₁, hacts₁, hend₁⟩ := Lts.Run.of_exec_map hexec
  obtain ⟨hcalm₁, hrest⟩ := Prod.mk.inj hend₁
  obtain ⟨hslot, hrest⟩ := Prod.mk.inj hrest
  obtain ⟨hbound, hdrv⟩ := of_decide_eq_true hslot
  obtain ⟨tr, s', hrun, hacts, hend⟩ := Lts.Run.of_exec_map hrest
  obtain ⟨hcalm, hon⟩ := Prod.mk.inj hend
  have hunlists : ∀ {l : List (Transition Driver Op OpRet)},
      (l.all fun t => decide (t.pre.Admissible t.act ∧ t.act.Uninterrupted)) = true →
      ∀ t ∈ l, t.pre.Admissible t.act ∧ t.pre.ReleaseUnlists t.act := by
    intro l hall t ht
    obtain ⟨hadm, hintr⟩ := of_decide_eq_true (List.all_eq_true.mp hall t ht)
    refine ⟨hadm, ?_⟩
    cases hact : t.act with
    | release intr f =>
        rw [hact] at hintr
        exact fun htrue => absurd (htrue.symm.trans hintr) (by simp)
    | probe | remove | openFile | read | write | ioctl => trivial
  have hreach : driverLts.Reachable (fun s a => s.Admissible a ∧ s.ReleaseUnlists a) s :=
    ⟨_, tr₁, ⟨250, 1, 0, _, rfl⟩, hrun₁, hunlists hcalm₁⟩
  have hslots : s.SlotInv := hreach.invariant (fun _ => .of_init) fun _ _ _ _ hs hop hstep =>
    hs.exec hop.1 (driverLts_step.mp hstep)
  have hspares : ∀ t ∈ tr, Spares 7 t.pre t.act := by
    intro t ht
    refine ⟨hunlists hcalm t ht, fun devName hrem => ?_⟩
    have hact : t.act ∈ tr.map (·.act) := List.mem_map_of_mem ht
    simp [hacts, hrem] at hact
  exact ⟨tr₁, s, tr, s', hrun₁, hacts₁, hrun, hacts, hon,
    run_purged hreach (hslots.serves_of_drvdata hbound hdrv) hrun hspares (.refl 7 0 s)⟩

end Purged

end Driver

end Gpcieuni
