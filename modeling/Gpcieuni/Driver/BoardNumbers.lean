-- SUMMARY: The board number of a device over whole runs: what probe and remove write to `*brd_num`, and what `pcieuni_get_brdnum` returns in between.
import Gpcieuni.Driver.Addresses
import Gpcieuni.Driver.Names

/-!
# Board numbers

Probe and `pcieuni_get_brdnum` report the index of the slot that a device has,
remove reports the slot number that the probe has read from the upstream bridge
(`run_boardNumbers_iff`).
-/

namespace Gpcieuni

namespace Driver

/-! ## The three reports -/

/-- The step is a probe, and it writes `n` to `*brd_num`. -/
def ProbeWrites (t : Transition Driver Op OpRet) (n : Int) : Prop :=
  ∃ env d s r, t.act = .probe env d ∧ pcieuniProbeExp env d t.pre = .ok (s, r) ∧ r.brdNum = some n

/-- The step is a remove, and it writes `n` to `*brd_num`. -/
def RemoveWrites (t : Transition Driver Op OpRet) (n : Int) : Prop :=
  ∃ devName d s r, t.act = .remove devName d ∧ pcieuniRemoveExp devName d t.pre = .ok (s, r) ∧
    r.brdNum = n

/-- The board number of `d` is `n` by all reports: when it was bound in the run `tr`,
in the state `s` that the run ends in, and if the next step removes it. -/
structure BoardNumber (tr : List (Transition Driver Op OpRet)) (s : Driver)
    (next : Option (Transition Driver Op OpRet)) (d : PciDev) (n : Int) : Prop where
  below : 0 ≤ n ∧ n < pcieuniNrDevs
  probe : ∃ env t, LastProbe tr d env t ∧ ProbeWrites t n
  get : pcieuniGetBrdnum d s = .ok n
  remove : ∀ t ∈ next, ∀ devName, t.act = .remove devName d → RemoveWrites t n

/-- Every probe of the run writes a number in range, also one that fails, and at
every point of the run every bound device has one board number. -/
structure BoardNumbersAgree (s : Driver) (tr : List (Transition Driver Op OpRet)) : Prop where
  written : ∀ t ∈ tr, ∀ n, ProbeWrites t n → 0 ≤ n ∧ n < pcieuniNrDevs
  bound : ∀ tr₁ tr₂ s₁, tr = tr₁ ++ tr₂ → driverLts.Run s tr₁ s₁ →
    ∀ d ∈ s₁.bound, ∃ n, BoardNumber tr₁ s₁ tr₂.head? d n

/-- A device that is removed had come to the slot with the index of its slot number. -/
def RemovedFromIndex (tr : List (Transition Driver Op OpRet)) : Prop :=
  ∀ tr₁ t tr₂ devName d, tr = tr₁ ++ t :: tr₂ → t.act = .remove devName d →
    ∀ env u i, LastProbe tr₁ d env u → u.pre.freeSlot = some i → env.slotNum = i

/-! ## What each call writes -/

theorem ProbeWrites.below {t : Transition Driver Op OpRet} {n : Int} (h : ProbeWrites t n) :
    0 ≤ n ∧ n < pcieuniNrDevs := by
  obtain ⟨env, d, s, r, -, hprobe, hn⟩ := h
  rw [pcieuniProbeExp_brdNum hprobe] at hn
  obtain ⟨i, -, rfl⟩ := Option.map_eq_some_iff.mp hn
  rw [Fin.val_castSucc]
  exact ⟨by omega, by omega⟩

section Writes

variable {t : Transition Driver Op OpRet} {d : PciDev}
  (hstep : driverLts.step t.pre t.act = some (t.post, t.out))

include hstep

theorem probeWrites_of_free {env : ProbeEnv} (hact : t.act = .probe env d)
    {i : Fin pcieuniNrDevs} (hfree : t.pre.freeSlot = some i) : ProbeWrites t i := by
  have hexec := driverLts_step.mp hstep
  rw [hact] at hexec
  obtain ⟨s, r, hprobe, -, -⟩ := exec_probe_call hexec
  refine ⟨env, d, s, r, hact, hprobe, ?_⟩
  rw [pcieuniProbeExp_brdNum hprobe, hfree]
  rfl

theorem removeWrites_iff {devName : String} (hact : t.act = .remove devName d) {k : Slot}
    (hk : t.pre.drvdata d = some k) {n : Int} :
    RemoveWrites t n ↔ (t.pre.dev k).slotNum = n := by
  constructor
  · rintro ⟨devName', d', s, r, hact', hremove, rfl⟩
    cases hact.symm.trans hact'
    obtain ⟨k', hk', hwrites, -⟩ := pcieuniRemoveExp_names hremove
    obtain rfl : k' = k := Option.some.inj (hk'.symm.trans hk)
    exact hwrites.symm
  · rintro rfl
    have hexec := driverLts_step.mp hstep
    rw [hact] at hexec
    obtain ⟨s, r, hremove, -, -⟩ := exec_remove_call hexec
    obtain ⟨k', hk', hwrites, -⟩ := pcieuniRemoveExp_names hremove
    obtain rfl : k' = k := Option.some.inj (hk'.symm.trans hk)
    exact ⟨devName, d, s, r, hact, hremove, hwrites⟩

end Writes

theorem pcieuniGetBrdnum_eq {s : Driver} (hs : s.Indexed) {d : PciDev} {k : Slot}
    (hk : s.drvdata d = some k) : pcieuniGetBrdnum d s = .ok k := by
  simp only [pcieuniGetBrdnum, hk, hs.brdNum]

/-! ## Since the last probe -/

/-- A device keeps its slot and its name in a run that does not remove it. -/
theorem run_keepsName {s s' : Driver} {tr : List (Transition Driver Op OpRet)}
    (h : driverLts.Run s tr s') (hs : s.SlotInv) (hadm : ∀ t ∈ tr, t.pre.Admissible t.act)
    {d : PciDev} {k : Slot} (hd : s.Serves d k)
    (hkeep : ∀ t ∈ tr, ∀ devName, t.act ≠ .remove devName d) :
    s'.Serves d k ∧ (s'.dev k).slotNum = (s.dev k).slotNum := by
  have hpres : ∀ s₁ a s₂ e,
      (SlotInv s₁ ∧ s₁.Serves d k ∧ (s₁.dev k).slotNum = (s.dev k).slotNum) →
      (Admissible s₁ a ∧ ∀ devName, a ≠ .remove devName d) →
      driverLts.step s₁ a = some (s₂, e) →
      SlotInv s₂ ∧ s₂.Serves d k ∧ (s₂.dev k).slotNum = (s.dev k).slotNum := by
    rintro s₁ a s₂ e ⟨hs, hd, hslot⟩ ⟨hadm, hop⟩ hstep
    have hexec := driverLts_step.mp hstep
    exact ⟨hs.exec hadm hexec, exec_serves hs hadm hexec hd hop,
      (exec_keepsName hs hadm hexec hd hop).1.trans hslot⟩
  exact (h.preserves hpres ⟨hs, hd, rfl⟩ fun t ht => ⟨hadm t ht, hkeep t ht⟩).1.2

/-- A device has the slot that its last probe found, and its slot number is the one
that this probe read. -/
theorem LastProbe.slot {s s' : Driver} {tr : List (Transition Driver Op OpRet)} {d : PciDev}
    {env : ProbeEnv} {u : Transition Driver Op OpRet} (hlast : LastProbe tr d env u)
    (h : driverLts.Run s tr s') (hs : s.SlotInv) (hindexed : s.Indexed)
    (hadm : ∀ t ∈ tr, t.pre.Admissible t.act) :
    ∃ i, u.pre.freeSlot = some i ∧ ProbeWrites u i ∧ s'.Serves d i.castSucc ∧
      (s'.dev i.castSucc).slotNum = env.slotNum := by
  obtain ⟨hact, hret, tr₁, tr₂, rfl, hkeep⟩ := hlast
  obtain ⟨s₁, hbefore, hrest⟩ := h.of_append
  obtain ⟨rfl, hstep, hafter⟩ := hrest.of_cons
  have hslots := (run_indexed hbefore hs hindexed fun t ht => hadm t (by simp [ht])).1
  have hadmu := hadm u (by simp)
  have hexec := driverLts_step.mp hstep
  have hslots' := hslots.exec hadmu hexec
  rw [hact] at hexec
  obtain ⟨i, dv, devSts, hfree, -, hslot, -, -, heq⟩ := exec_probe_names hexec hret
  have hserves : u.post.Serves d i.castSucc := by
    apply hslots'.serves_of_drvdata
    · rw [heq]
      exact List.mem_cons_self ..
    · rw [heq]
      exact Function.update_self ..
  have hnum : (u.post.dev i.castSucc).slotNum = env.slotNum := by
    rw [heq, ← hslot]
    exact congrArg _ (setDev_dev_self ..)
  obtain ⟨hend, hkept⟩ := run_keepsName hafter hslots' (fun t ht => hadm t (by simp [ht])) hserves
    hkeep
  exact ⟨i, hfree, probeWrites_of_free hstep hact hfree, hend, hkept.trans hnum⟩

/-! ## Runs -/

/-- In every run: what probe writes, what `pcieuni_get_brdnum` returns while the
device is bound and what remove writes are one number below `PCIEUNI_NR_DEVS`, if
and only if every device that is removed had come to the slot with the index of its
slot number. -/
theorem run_boardNumbers_iff {s s' : Driver} {tr : List (Transition Driver Op OpRet)}
    (h : driverLts.Run s tr s') (hinit : driverLts.init s)
    (hadm : ∀ t ∈ tr, t.pre.Admissible t.act) :
    BoardNumbersAgree s tr ↔ RemovedFromIndex tr := by
  constructor
  · rintro hagree tr₁ t tr₂ devName d rfl hact env u i hlast hfree
    obtain ⟨s₁, hbefore, hrest⟩ := h.of_append
    obtain ⟨rfl, hstep, -⟩ := hrest.of_cons
    have hadm₁ : ∀ t ∈ tr₁, t.pre.Admissible t.act := fun t ht => hadm t (by simp [ht])
    have hindexed := (run_indexed hbefore (.of_init hinit) (.of_init hinit) hadm₁).2
    obtain ⟨i', hfree', -, hserves, hnum⟩ :=
      hlast.slot hbefore (.of_init hinit) (.of_init hinit) hadm₁
    obtain rfl : i' = i := Option.some.inj (hfree'.symm.trans hfree)
    obtain ⟨n, hn⟩ := hagree.bound tr₁ (t :: tr₂) t.pre rfl hbefore d hserves.bound
    obtain rfl : (i'.castSucc : Slot) = n :=
      Except.ok.inj ((pcieuniGetBrdnum_eq hindexed hserves.drvdata).symm.trans hn.get)
    rw [← hnum]
    exact (removeWrites_iff hstep hact hserves.drvdata).mp (hn.remove t rfl devName hact)
  · intro hindex
    refine ⟨fun t _ n hwrites => hwrites.below, ?_⟩
    intro tr₁ tr₂ s₁ htr hrun d hd
    have hadm₁ : ∀ t ∈ tr₁, t.pre.Admissible t.act := fun t ht => hadm t (by simp [htr, ht])
    obtain ⟨hslots, hindexed⟩ := run_indexed hrun (.of_init hinit) (.of_init hinit) hadm₁
    obtain ⟨k, hk⟩ := hslots.serves d hd
    rcases run_lastProbe hrun (.of_init hinit) hadm₁ hk with ⟨hold, -, -⟩ | ⟨env, u, hlast, -, -⟩
    · obtain ⟨major, verMaj, verMin, regs, rfl⟩ := hinit
      cases hold.bound
    obtain ⟨i, hfree, hwrites, hserves, hnum⟩ :=
      hlast.slot hrun (.of_init hinit) (.of_init hinit) hadm₁
    refine ⟨i, hwrites.below, ⟨env, u, hlast, hwrites⟩,
      pcieuniGetBrdnum_eq hindexed hserves.drvdata, ?_⟩
    intro t ht devName hact
    obtain ⟨tr₃, rfl⟩ := List.head?_eq_some_iff.mp ht
    subst htr
    obtain ⟨s₂, hfirst, hrest⟩ := h.of_append
    obtain rfl := hfirst.end_unique hrun
    obtain ⟨rfl, hstep, -⟩ := hrest.of_cons
    apply (removeWrites_iff hstep hact hserves.drvdata).mpr
    rw [hnum]
    exact hindex tr₁ t tr₃ devName d rfl hact env u i hlast hfree

/-- The step is not a probe, or the slot number that it reads is the index of the free
slot. -/
private def readsIndex (t : Transition Driver Op OpRet) : Bool :=
  match t.act with
  | .probe env _ => t.pre.freeSlot.all fun i => env.slotNum = i
  | _ => true

/-- Two cards whose slot numbers are the indices of their slots, of which the
second is removed. -/
theorem run_boardNumbers_iff_twoCards : ∃ tr s',
    driverLts.Run (initial 250 1 0 fun _ _ _ => 0) tr s' ∧
    tr.map (·.act) = [.probe { fuel := 1 } 7, .probe { fuel := 1, sltCap := 1#32 <<< 19 } 8,
      .remove "gpcieuni" 8] ∧
    BoardNumbersAgree (initial 250 1 0 fun _ _ _ => 0) tr := by
  obtain ⟨tr, s', hrun, hacts, hend⟩ := Lts.Run.of_exec_map (M := driverLts)
    (g := fun r => r.1.all fun t => decide (t.pre.Admissible t.act ∧ readsIndex t = true))
    (v := true) (s := initial 250 1 0 fun _ _ _ => 0)
    (l := [.probe { fuel := 1 } 7, .probe { fuel := 1, sltCap := 1#32 <<< 19 } 8,
      .remove "gpcieuni" 8]) (by decide +kernel)
  simp only [List.all_eq_true, decide_eq_true_eq] at hend
  refine ⟨tr, s', hrun, hacts, (run_boardNumbers_iff hrun ⟨250, 1, 0, _, rfl⟩
    fun t ht => (hend t ht).1).mpr ?_⟩
  rintro tr₁ t tr₂ devName d rfl - env u i ⟨hact, -, tr₃, tr₄, rfl, -⟩ hfree
  have hreads := (hend u (by simp)).2
  simpa [readsIndex, hact, hfree] using hreads

/-- A card in the physical slot 5 that gets the first free slot: its board number is
0 until it is removed, and 5 then. -/
theorem remove_writes_slotNum : ∃ t₁ t₂ s',
    driverLts.Run (initial 250 1 0 fun _ _ _ => 0) [t₁, t₂] s' ∧
    t₁.act = .probe { fuel := 1, sltCap := 5#32 <<< 19 } 7 ∧ t₂.act = .remove "gpcieuni" 7 ∧
    t₁.pre.Admissible t₁.act ∧ t₂.pre.Admissible t₂.act ∧
    ProbeWrites t₁ 0 ∧ pcieuniGetBrdnum 7 t₂.pre = .ok 0 ∧ RemoveWrites t₂ 5 ∧
    ¬ BoardNumbersAgree (initial 250 1 0 fun _ _ _ => 0) [t₁, t₂] := by
  obtain ⟨tr, s', hrun, hacts, hend⟩ := Lts.Run.of_exec_map (M := driverLts)
    (g := fun r => ((r.1.all fun t => decide (t.pre.Admissible t.act)),
      decide ((r.1.map fun t => (t.pre.freeSlot.map Fin.val, t.pre.drvdata 7, (t.pre.dev 0).brdNum,
        (t.pre.dev 0).slotNum)) = [(some 0, none, 0, 0), (some 1, some 0, 0, 5)])))
    (v := (true, true))
    (s := initial 250 1 0 fun _ _ _ => 0)
    (l := [.probe { fuel := 1, sltCap := 5#32 <<< 19 } 7, .remove "gpcieuni" 7])
    (by decide +kernel)
  obtain ⟨t₁, tr, rfl, hact₁, htr⟩ := List.map_eq_cons_iff.mp hacts
  obtain ⟨t₂, rfl, hact₂⟩ := List.map_eq_singleton_iff.mp htr
  simp only [Prod.mk.injEq, List.all_cons, List.all_nil, Bool.and_true, Bool.and_eq_true,
    decide_eq_true_eq, List.map_cons, List.map_nil, List.cons.injEq, and_true] at hend
  obtain ⟨⟨hadm₁, hadm₂⟩, ⟨hfree, -⟩, -, hdrv, hbrd, hslot⟩ := hend
  have hprobe : ProbeWrites t₁ 0 := by
    obtain ⟨i, hi, hzero⟩ := Option.map_eq_some_iff.mp hfree
    have hwrites := probeWrites_of_free (hrun.step_of_mem (by simp)) hact₁ hi
    rwa [hzero] at hwrites
  have hremove := fun n =>
    removeWrites_iff (n := n) (hrun.step_of_mem (t := t₂) (by simp)) hact₂ hdrv
  have hget : pcieuniGetBrdnum 7 t₂.pre = .ok 0 := by
    simp only [pcieuniGetBrdnum, hdrv, hbrd]
  refine ⟨t₁, t₂, s', hrun, hact₁, hact₂, hadm₁, hadm₂, hprobe, hget, (hremove 5).mpr hslot, ?_⟩
  intro hagree
  have hsplit : driverLts.Run _ ([t₁] ++ [t₂]) s' := hrun
  obtain ⟨s₁, hfirst, hrest⟩ := hsplit.of_append
  obtain ⟨rfl, -, -⟩ := hrest.of_cons
  have hbound : 7 ∈ t₂.pre.bound := by
    rw [hact₂] at hadm₂
    exact hadm₂
  obtain ⟨n, hn⟩ := hagree.bound [t₁] [t₂] t₂.pre rfl hfirst 7 hbound
  obtain rfl : 0 = n := Except.ok.inj (hget.symm.trans hn.get)
  have hfive := (hremove 0).mp (hn.remove t₂ rfl _ hact₂)
  rw [hslot] at hfive
  cases hfive

end Driver

end Gpcieuni
