-- SUMMARY: Open files across hot-unplug: a file reaches the device it was opened on until that device is removed, and nothing afterwards.
import Gpcieuni.Driver.Files

/-!
# Isolation of open files

A file that was opened on a slot with device `d` goes through two phases. It is
attached to `d` until `d` is removed (`Attached`), and from then on it belongs to
the null device (`Detached`), also when its old slot gets another device. The
step lemmas say which calls move a file from the one to the other; the run lemma
follows a file through a run.
-/

namespace Gpcieuni

/-- The call is a read, a write, or an ioctl on the file `f`. -/
def Op.UsesFile (f : FilePtr) : Op → Prop
  | .read _ g _ _ _ => g = f
  | .write _ g _ _ _ => g = f
  | .ioctl _ g _ _ => g = f
  | _ => False

namespace Driver

/-! ## The two phases of a file -/

/-- File `f` names slot `k`, which is set up for the device `d`. -/
structure Attached (s : Driver) (f : FilePtr) (d : PciDev) (k : Slot) : Prop where
  file : ⟨f, k⟩ ∈ s.files
  serves : s.Serves d k

/-- File `f` names the null device. -/
def Detached (s : Driver) (f : FilePtr) : Prop := ⟨f, nullSlot⟩ ∈ s.files

theorem mem_files_of_release_ne {files : List OpenFile} {f g : FilePtr} {k : Slot}
    (h : ⟨f, k⟩ ∈ files) (hne : g ≠ f) : ⟨f, k⟩ ∈ files.filter (·.filp ≠ g) :=
  List.mem_filter.mpr ⟨h, by simpa using hne.symm⟩

theorem Attached.exec {s s' : Driver} {op : Op} {r : OpRet} {f : FilePtr} {d : PciDev} {k : Slot}
    (hslots : s.SlotInv) (hs : s.FileInv) (hadm : s.Admissible op) (h : s.exec op = .ok (s', r))
    (hf : s.Attached f d k) (hrel : ∀ intr, op ≠ .release intr f)
    (hrem : ∀ devName, op ≠ .remove devName d) : s'.Attached f d k := by
  refine ⟨?_, exec_serves hslots hadm h hf.serves hrem⟩
  rcases exec_files h with ⟨hsame, -, -⟩ | ⟨env, j, g, rfl, hnew⟩ | ⟨g, j, rfl, hj, hnew⟩ |
      ⟨g, j, rfl, hj, hnew⟩ | ⟨devName, d', j, rfl, hj, hnew⟩
  · rw [hsame.files]
    exact hf.file
  · rw [hnew.files]
    exact List.mem_cons_of_mem _ hf.file
  · rw [hnew.files]
    exact mem_files_of_release_ne hf.file fun heq => hrel true (heq ▸ rfl)
  · rw [hnew.files]
    exact mem_files_of_release_ne hf.file fun heq => hrel false (heq ▸ rfl)
  -- another device is removed, and its slot does not list the file
  · have hne : d ≠ d' := fun heq => hrem devName (heq ▸ rfl)
    have hslot : k ≠ j := hf.serves.slot_ne (hslots.serves_of_drvdata hadm hj) hne
    rw [hnew.files]
    refine mem_detachFiles.mpr (.inl ⟨fun hlisted => ?_, hf.file⟩)
    obtain ⟨e, he, rfl⟩ := List.mem_map.mp hlisted
    exact hslot (hs.slot_unique hf.file (hs.entries j e he))

theorem Attached.exec_remove {s s' : Driver} {r : OpRet} {f : FilePtr} {d : PciDev} {k : Slot}
    {devName : String} (hs : s.FileInv) (h : s.exec (.remove devName d) = .ok (s', r))
    (hf : s.Attached f d k) : s'.Detached f := by
  obtain ⟨j, dv, hj, -, -, -, -, rfl⟩ := Driver.exec_remove h
  obtain rfl : k = j := Option.some.inj (hf.serves.drvdata.symm.trans hj)
  exact mem_detachFiles.mpr
    (.inr ⟨hs.listed f k hf.file hf.serves.ne_null, rfl, List.mem_map.mpr ⟨_, hf.file, rfl⟩⟩)

/-- A file stays with the null device until it is released. -/
theorem Detached.exec {s s' : Driver} {op : Op} {r : OpRet} {f : FilePtr}
    (h : s.exec op = .ok (s', r)) (hf : s.Detached f) (hrel : ∀ intr, op ≠ .release intr f) :
    s'.Detached f := by
  unfold Detached at hf ⊢
  rcases exec_files h with ⟨hsame, -, -⟩ | ⟨env, j, g, rfl, hnew⟩ | ⟨g, j, rfl, -, hnew⟩ |
      ⟨g, j, rfl, -, hnew⟩ | ⟨devName, d', j, rfl, -, hnew⟩
  · rw [hsame.files]
    exact hf
  · rw [hnew.files]
    exact List.mem_cons_of_mem _ hf
  · rw [hnew.files]
    exact mem_files_of_release_ne hf fun heq => hrel true (heq ▸ rfl)
  · rw [hnew.files]
    exact mem_files_of_release_ne hf fun heq => hrel false (heq ▸ rfl)
  · rw [hnew.files]
    by_cases hlisted : f ∈ (s.dev j).devFileList.map (·.filp)
    · exact mem_detachFiles.mpr (.inr ⟨hlisted, rfl, List.mem_map.mpr ⟨_, hf, rfl⟩⟩)
    · exact mem_detachFiles.mpr (.inl ⟨hlisted, hf⟩)

/-! ## What a call on a file does in each phase -/

theorem Attached.accesses {s s' : Driver} {op : Op} {r : OpRet} {f : FilePtr} {d : PciDev}
    {k : Slot} (hs : s.FileInv) (hf : s.Attached f d k) (hop : op.UsesFile f)
    (h : s.exec op = .ok (s', r)) {e : Effect} (he : e ∈ r.log) {d' : PciDev}
    (hd' : e.accesses = some d') : d' = d := by
  have hpd := privateData_of_mem_files hs.nodup hf.file
  have hmapped : ∀ n m, ((s.dev k).bar n).memmoryBase = some m → e.accesses = some m.dev →
      d' = d := by
    intro n m hm heq
    rw [heq, hf.serves.mapped n m hm] at hd'
    exact (Option.some.inj hd').symm
  cases op with
  | read env g buf count fPos =>
      obtain rfl : g = f := hop
      obtain ⟨j, hj, -, htr⟩ := exec_read h
      obtain rfl : k = j := Option.some.inj (hpd.symm.trans hj)
      obtain ⟨n, m, hm, heq⟩ := htr.accesses e he
      exact hmapped n m hm heq
  | write env g buf count fPos =>
      obtain rfl : g = f := hop
      obtain ⟨j, regs, hj, -, htr⟩ := exec_write h
      obtain rfl : k = j := Option.some.inj (hpd.symm.trans hj)
      obtain ⟨n, m, hm, heq⟩ := htr.accesses e he
      exact hmapped n m hm heq
  | ioctl env g cmd arg =>
      obtain rfl : g = f := hop
      obtain ⟨j, hj, hacc, -, -⟩ := exec_ioctl h
      obtain rfl : k = j := Option.some.inj (hpd.symm.trans hj)
      rcases hacc e he with hnone | hsome
      · rw [hnone] at hd'
        cases hd'
      · rw [hsome, hf.serves.pcieuniPciDev] at hd'
        exact (Option.some.inj hd').symm
  | probe | remove | openFile | release => cases hop

/-- A call on a file of the null device returns at once and touches nothing. -/
theorem Detached.fails {s : Driver} {op : Op} {f : FilePtr} (hslots : s.SlotInv) (hs : s.FileInv)
    (hf : s.Detached f) (hop : op.UsesFile f) : s.exec op = .ok (s, ⟨-efault, []⟩) := by
  have hpd := privateData_of_mem_files hs.nodup hf
  have hnull := hslots.null
  cases op with
  | read env g buf count fPos =>
      obtain rfl : g = f := hop
      simp only [Driver.exec, hpd, pcieuniReadNoStructExp, check_of_devSts hnull, setDev_self]
  | write env g buf count fPos =>
      obtain rfl : g = f := hop
      simp only [Driver.exec, hpd, pcieuniWriteNoStructExp, check_of_devSts hnull, setDev_self]
  | ioctl env g cmd arg =>
      obtain rfl : g = f := hop
      simp only [Driver.exec, hpd, pcieuniIoctlExp, hnull, if_true, setDev_self]
  | probe | remove | openFile | release => cases hop

/-! ## A file along a run -/

/-- The admissible calls, without interruptions, that do not release the file `f`. -/
def KeepsFile (f : FilePtr) (s : Driver) (op : Op) : Prop :=
  (s.Admissible op ∧ op.Uninterrupted) ∧ ∀ intr, op ≠ .release intr f

theorem inv_exec {s s' : Driver} {op : Op} {r : OpRet} (hs : s.SlotInv ∧ s.FileInv)
    (hop : s.Admissible op ∧ op.Uninterrupted) (h : s.exec op = .ok (s', r)) :
    s'.SlotInv ∧ s'.FileInv :=
  ⟨hs.1.exec hop.1 h, hs.2.exec hop.1 hop.2 h⟩

theorem Detached.run {s s' : Driver} {tr : List (Transition Driver Op OpRet)} {f : FilePtr}
    (h : driverLts.Run s tr s') (hs : s.SlotInv ∧ s.FileInv)
    (htr : ∀ t ∈ tr, KeepsFile f t.pre t.act) (hf : s.Detached f) :
    (s'.SlotInv ∧ s'.FileInv) ∧ s'.Detached f := by
  have hend := h.preserves (I := fun s => (s.SlotInv ∧ s.FileInv) ∧ s.Detached f)
    (P := KeepsFile f) ?_ ⟨hs, hf⟩ htr
  · exact hend.1
  rintro s op s' r ⟨hs, hf⟩ ⟨hop, hrel⟩ hstep
  have hexec := driverLts_step.mp hstep
  exact ⟨inv_exec hs hop hexec, hf.exec hexec hrel⟩

/-- The phase of a file at the end of a run is decided by whether its device was
removed on the way. -/
theorem Attached.run {s s' : Driver} {tr : List (Transition Driver Op OpRet)} {f : FilePtr}
    {d : PciDev} {k : Slot} (h : driverLts.Run s tr s') (hs : s.SlotInv ∧ s.FileInv)
    (htr : ∀ t ∈ tr, KeepsFile f t.pre t.act) (hf : s.Attached f d k) :
    (s'.SlotInv ∧ s'.FileInv) ∧
      ((s'.Attached f d k ∧ ∀ t ∈ tr, ∀ devName, t.act ≠ .remove devName d) ∨
        (s'.Detached f ∧ ∃ t ∈ tr, ∃ devName, t.act = .remove devName d)) := by
  induction h with
  | nil => exact ⟨hs, .inl ⟨hf, by simp⟩⟩
  | @cons s₁ s₂ _ op r tr hstep hrun ih =>
      have hexec := driverLts_step.mp hstep
      obtain ⟨hop, hrel⟩ := htr _ (List.mem_cons_self ..)
      have hs₂ := inv_exec hs hop hexec
      have htr' : ∀ t ∈ tr, KeepsFile f t.pre t.act :=
        fun t ht => htr t (List.mem_cons_of_mem _ ht)
      by_cases hrem : ∃ devName, op = .remove devName d
      · obtain ⟨devName, rfl⟩ := hrem
        obtain ⟨hs', hf'⟩ := Detached.run hrun hs₂ htr' (hf.exec_remove hs.2 hexec)
        exact ⟨hs', .inr ⟨hf', _, List.mem_cons_self .., devName, rfl⟩⟩
      · have hne : ∀ devName, op ≠ .remove devName d := not_exists.mp hrem
        obtain ⟨hs', hphase⟩ := ih hs₂ htr' (hf.exec hs.1 hs.2 hop.1 hexec hrel hne)
        refine ⟨hs', ?_⟩
        rcases hphase with ⟨hf', hall⟩ | ⟨hf', t, ht, hact⟩
        · refine .inl ⟨hf', fun t ht => ?_⟩
          rcases List.mem_cons.mp ht with rfl | hmem
          · exact hne
          · exact hall t hmem
        · exact .inr ⟨hf', t, List.mem_cons_of_mem _ ht, hact⟩

/-- A file `f` is opened on slot `k` while `d` is bound to it, and after any
further calls that do not release it there is a read, write, or ioctl on `f`. If
that call accesses a device, the device is `d`, it is still bound, and it has not
been removed since; and once `d` has been removed, the call returns `-EFAULT`. -/
theorem openFile_isolated {s₁ s₂ s₃ : Driver} {env : OpenEnv} {k : Slot} {f : FilePtr}
    {d : PciDev} {r : OpRet} {tr : List (Transition Driver Op OpRet)} {op : Op}
    (hreach : driverLts.Reachable (fun s a => s.Admissible a ∧ a.Uninterrupted) s₁)
    (hbound : d ∈ s₁.bound) (hslot : s₁.drvdata d = some k)
    (hadm : s₁.Admissible (.openFile env k f)) (hintr : env.intr = false)
    (hopen : s₁.exec (.openFile env k f) = .ok (s₂, r))
    (hrun : driverLts.Run s₂ tr s₃)
    (htr : ∀ t ∈ tr, (t.pre.Admissible t.act ∧ t.act.Uninterrupted) ∧
      ∀ intr, t.act ≠ .release intr f)
    (hop : op.UsesFile f) :
    (∀ s₄ r, s₃.exec op = .ok (s₄, r) → ∀ e ∈ r.log, ∀ d', e.accesses = some d' →
      d' = d ∧ d ∈ s₃.bound ∧ ∀ t ∈ tr, ∀ devName, t.act ≠ .remove devName d) ∧
    ((∃ t ∈ tr, ∃ devName, t.act = .remove devName d) →
      s₃.exec op = .ok (s₃, ⟨-efault, []⟩)) := by
  have hs₁ : s₁.SlotInv ∧ s₁.FileInv := by
    refine hreach.invariant (I := fun s => s.SlotInv ∧ s.FileInv)
      (fun s h => ⟨.of_init h, .of_init h⟩) ?_
    exact fun s a s' e hs hP hstep => inv_exec hs hP (driverLts_step.mp hstep)
  have hserves := exec_serves hs₁.1 hadm hopen (hs₁.1.serves_of_drvdata hbound hslot) (by simp)
  have hf : s₂.Attached f d k := by
    rcases exec_openFile hopen with ⟨htrue, -⟩ | ⟨-, -, -, hs₂⟩
    · rw [hintr] at htrue; cases htrue
    · exact ⟨by rw [hs₂]; exact List.mem_cons_self .., hserves⟩
  obtain ⟨hs₃, ⟨hf₃, hkept⟩ | ⟨hf₃, hrem⟩⟩ :=
    Attached.run hrun (inv_exec hs₁ ⟨hadm, hintr⟩ hopen) htr hf
  · refine ⟨fun s₄ r h e he d' hd' => ?_, ?_⟩
    · exact ⟨hf₃.accesses hs₃.2 hop h he hd', hf₃.serves.bound, hkept⟩
    · rintro ⟨t, ht, devName, hact⟩
      exact absurd hact (hkept t ht devName)
  · have hfail := hf₃.fails hs₃.1 hs₃.2 hop
    refine ⟨fun s₄ r h e he => ?_, fun _ => hfail⟩
    rw [hfail] at h
    cases h
    cases he

/-- The slot of a removed device gets another device, and the old file still
fails. -/
theorem openFile_isolated_replug : ∃ tr₁ s₁ s₂ r tr s₃,
    driverLts.Run (initial 250 1 0 fun _ _ _ => 0) tr₁ s₁ ∧
    tr₁.map (·.act) = [.probe { fuel := 1 } 7] ∧
    s₁.exec (.openFile {} 0 1) = .ok (s₂, r) ∧ driverLts.Run s₂ tr s₃ ∧
    tr.map (·.act) = [.remove "gpcieuni" 7, .probe { fuel := 1 } 8] ∧
    s₃.drvdata 8 = some 0 ∧
    s₃.exec (.read { fuel := 1 } 1 (fun _ => 0) 4 0) = .ok (s₃, ⟨-efault, []⟩) := by
  have hexec : (driverLts.exec (initial 250 1 0 fun _ _ _ => 0) [.probe { fuel := 1 } 7]).map
      (fun r₁ => (r₁.1.all fun t => decide (t.pre.Admissible t.act ∧ t.act.Uninterrupted),
        decide (7 ∈ r₁.2.bound ∧ r₁.2.drvdata 7 = some 0 ∧ r₁.2.Admissible (.openFile {} 0 1)),
        (driverLts.step r₁.2 (.openFile {} 0 1)).map fun r₂ =>
          (driverLts.exec r₂.1 [.remove "gpcieuni" 7, .probe { fuel := 1 } 8]).map fun r₃ =>
            (r₃.1.all fun t => decide (t.pre.Admissible t.act ∧ t.act.Uninterrupted),
              decide (r₃.2.drvdata 8 = some 0)))) =
      some (true, true, some (some (true, true))) := by decide +kernel
  obtain ⟨tr₁, s₁, hrun₁, hacts₁, hend₁⟩ := Lts.Run.of_exec_map hexec
  obtain ⟨hcalm₁, hrest⟩ := Prod.mk.inj hend₁
  obtain ⟨hslot, hopen⟩ := Prod.mk.inj hrest
  obtain ⟨hbound, hdrv, hadm⟩ := of_decide_eq_true hslot
  obtain ⟨⟨s₂, r⟩, hopen, hrest⟩ := Option.map_eq_some_iff.mp hopen
  obtain ⟨tr, s₃, hrun, hacts, hend⟩ := Lts.Run.of_exec_map hrest
  obtain ⟨hcalm, hdrv'⟩ := Prod.mk.inj hend
  have hsteps : ∀ t ∈ tr, (t.pre.Admissible t.act ∧ t.act.Uninterrupted) ∧
      ∀ intr, t.act ≠ .release intr 1 := by
    intro t ht
    have hact : t.act ∈ tr.map (·.act) := List.mem_map_of_mem ht
    simp only [hacts, List.mem_cons, List.not_mem_nil, or_false] at hact
    refine ⟨by simpa using List.all_eq_true.mp hcalm t ht, fun intr => ?_⟩
    rcases hact with hact | hact
    · rw [hact]; simp
    · rw [hact]; simp
  have hremoved : ∃ t ∈ tr, ∃ devName, t.act = .remove devName 7 := by
    obtain ⟨t, tr', rfl, hact, -⟩ := List.map_eq_cons_iff.mp hacts
    exact ⟨t, List.mem_cons_self .., _, hact⟩
  replace hopen := driverLts_step.mp hopen
  have huses : Op.UsesFile 1 (.read { fuel := 1 } 1 (fun _ => 0) 4 0) := rfl
  obtain ⟨-, hfails⟩ := openFile_isolated
    ⟨_, tr₁, ⟨250, 1, 0, _, rfl⟩, hrun₁, by simpa using hcalm₁⟩ hbound hdrv hadm rfl hopen hrun
    hsteps huses
  exact ⟨tr₁, s₁, s₂, r, tr, s₃, hrun₁, hacts₁, hopen, hrun, hacts,
    of_decide_eq_true hdrv', hfails hremoved⟩

end Driver

end Gpcieuni
