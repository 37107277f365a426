-- SUMMARY: The map from bound PCI devices to slots over whole runs: it is injective, a probe takes the least free slot, and the null device is never assigned.
import Gpcieuni.Driver.Slots

/-!
# The assignment of slots

`Serves` already says that a bound device has a slot of its own. What is added
here is what no call changes (`brd_num` is the index of its slot) and what the
`binded` flag can be, so that the slot of a device can be read off its fields.
-/

namespace Gpcieuni

namespace Driver

/-! ## The fields that name a slot -/

/-- Every slot carries its index, and its `binded` flag is a flag. -/
structure Indexed (s : Driver) : Prop where
  brdNum : ∀ k : Slot, (s.dev k).brdNum = k
  binded : ∀ k, (s.dev k).binded = 0 ∨ (s.dev k).binded = 1

theorem exec_brdNum {s s' : Driver} {op : Op} {r : OpRet} (h : s.exec op = .ok (s', r)) :
    ∀ k, (s'.dev k).brdNum = (s.dev k).brdNum := by
  have hset : ∀ {j : Slot} {dv : PcieuniDev}, dv.brdNum = (s.dev j).brdNum →
      ∀ k, ((s.setDev j dv).dev k).brdNum = (s.dev k).brdNum := fun hdv =>
    setDev_forall (Q := fun k dv => dv.brdNum = (s.dev k).brdNum) hdv (fun _ _ => rfl)
  cases op with
  | probe env d =>
      rcases exec_probe h with ⟨-, rfl, -⟩ | ⟨i, drvdata, -, -, -, -, rfl⟩ |
          ⟨i, dv, -, -, -, -, hprobed, rfl⟩
      · exact fun _ => rfl
      · exact hset rfl
      · exact hset hprobed.brdNum
  | remove devName d =>
      obtain ⟨k, dv, -, -, -, hrem, -, rfl⟩ := exec_remove h
      exact hset hrem.brdNum
  | openFile env j f =>
      rcases exec_openFile h with ⟨-, -, rfl⟩ | ⟨-, -, -, rfl⟩
      · exact hset rfl
      · exact hset rfl
  | release intr f =>
      obtain ⟨j, -, ⟨-, -, rfl⟩ | ⟨-, -, -, rfl⟩⟩ := exec_release h
      · exact fun _ => rfl
      · exact hset rfl
  | read env f buf count fPos =>
      obtain ⟨j, -, rfl, -⟩ := exec_read h
      exact fun _ => rfl
  | write env f buf count fPos =>
      obtain ⟨j, regs, -, rfl, -⟩ := exec_write h
      exact fun _ => rfl
  | ioctl env f cmd arg =>
      obtain ⟨j, -, -, -, ⟨rfl, -⟩ | ⟨-, -, -, -, rfl⟩⟩ := exec_ioctl h
      · exact fun _ => rfl
      · exact hset rfl

theorem Indexed.exec {s s' : Driver} {op : Op} {r : OpRet} (hs : s.Indexed)
    (h : s.exec op = .ok (s', r)) : s'.Indexed := by
  refine ⟨fun k => (exec_brdNum h k).trans (hs.brdNum k), ?_⟩
  have hset : ∀ {j : Slot} {dv : PcieuniDev}, dv.binded = 0 ∨ dv.binded = 1 →
      ∀ k, ((s.setDev j dv).dev k).binded = 0 ∨ ((s.setDev j dv).dev k).binded = 1 := fun hdv =>
    setDev_forall (Q := fun _ dv => dv.binded = 0 ∨ dv.binded = 1) hdv (fun k _ => hs.binded k)
  rcases exec_slots h with ⟨hsame, -, -⟩ | ⟨env, d, i, drvdata, rfl, -, -, -, -, rfl⟩ |
      ⟨env, d, i, dv, rfl, -, -, -, -, hprobed, rfl⟩ | ⟨devName, d, j, dv, files, rfl, -, hrem, rfl⟩
  · intro k
    rw [(hsame.dev k).2.1]
    exact hs.binded k
  · exact hset (.inr rfl)
  · exact hset (.inr hprobed.binded)
  · exact hset (.inl hrem.binded)

theorem Indexed.of_init {s : Driver} (h : driverLts.init s) : s.Indexed := by
  obtain ⟨major, verMaj, verMin, regs, rfl⟩ := h
  refine ⟨fun _ => rfl, fun k => ?_⟩
  by_cases hk : k = nullSlot
  · exact .inr (by simp [initial, hk])
  · exact .inl (by simp [initial, hk])

/-! ## The least free slot -/

theorem freeSlot_least {s : Driver} {i : Fin pcieuniNrDevs} (h : s.freeSlot = some i) :
    ∀ j < i, (s.dev j.castSucc).binded ≠ 0 := by
  obtain ⟨n, hn, hi, hbefore⟩ := List.find?_eq_some_iff_getElem.mp h |>.2
  intro j hj
  obtain rfl : n = i := by simpa using congrArg Fin.val hi
  simpa using hbefore j hj

/-! ## Runs -/

/-- The map from bound devices to slots. -/
structure Assignment (s : Driver) : Prop where
  assigned : ∀ d ∈ s.bound, (s.drvdata d).isSome
  injective : Set.InjOn s.drvdata { d | d ∈ s.bound }
  slot : ∀ d ∈ s.bound, ∀ k, s.drvdata d = some k →
    (k : Nat) < pcieuniNrDevs ∧ (s.dev k).brdNum = k ∧ (s.dev k).binded = 1 ∧
      (s.dev k).devSts = 1 ∧ (s.dev k).pcieuniPciDev = some d
  null : (∀ d ∈ s.bound, s.drvdata d ≠ some nullSlot) ∧ (s.dev nullSlot).devSts = 0

theorem SlotInv.assignment {s : Driver} (hs : s.SlotInv) (hindexed : s.Indexed) :
    s.Assignment := by
  refine ⟨?_, ?_, ?_, ?_, hs.null⟩
  · intro d hd
    obtain ⟨k, hk⟩ := hs.serves d hd
    simp [hk.drvdata]
  · intro d hd d' hd' heq
    obtain ⟨k, hk⟩ := hs.serves d hd
    have hk' := hs.serves_of_drvdata hd' (heq.symm.trans hk.drvdata)
    by_contra hne
    exact hk.slot_ne hk' hne rfl
  · intro d hd k hk
    have hserves := hs.serves_of_drvdata hd hk
    refine ⟨Fin.val_lt_last hserves.ne_null, hindexed.brdNum k, ?_, hserves.devSts,
      hserves.pcieuniPciDev⟩
    exact (hindexed.binded k).resolve_left hserves.binded
  · intro d hd hk
    exact (hs.serves_of_drvdata hd hk).ne_null rfl

/-- The probe of `d` takes the least free slot and leaves the other slots alone. -/
structure TakesLeast (s s' : Driver) (d : PciDev) (i : Fin pcieuniNrDevs) : Prop where
  free : (s.dev i.castSucc).binded = 0
  least : ∀ j < i, (s.dev j.castSucc).binded ≠ 0
  takes : s'.drvdata d = some i.castSucc
  others : ∀ k, k ≠ i.castSucc → s'.dev k = s.dev k

theorem exec_probe_takesLeast {s s' : Driver} {env : ProbeEnv} {d : PciDev} {r : OpRet}
    (h : s.exec (.probe env d) = .ok (s', r)) (hret : r.ret = 0) : ∃ i, TakesLeast s s' d i := by
  rcases exec_probe h with ⟨-, -, hfail⟩ | ⟨i, drvdata, -, -, hfail, -, -⟩ |
      ⟨i, dv, hfree, -, -, -, -, rfl⟩
  · rw [hret] at hfail
    cases hfail
  · exact absurd hret hfail
  · exact ⟨i, freeSlot_some hfree, freeSlot_least hfree, Function.update_self ..,
      fun k hk => setDev_dev_ne hk⟩

theorem run_indexed {s s' : Driver} {tr : List (Transition Driver Op OpRet)}
    (h : driverLts.Run s tr s') (hs : s.SlotInv) (hindexed : s.Indexed)
    (hadm : ∀ t ∈ tr, t.pre.Admissible t.act) : s'.SlotInv ∧ s'.Indexed := by
  have hpres : ∀ s a s' e, SlotInv s ∧ Indexed s → Admissible s a →
      driverLts.step s a = some (s', e) → SlotInv s' ∧ Indexed s' := by
    rintro s a s' e ⟨hs, hindexed⟩ hadm hstep
    have hexec := driverLts_step.mp hstep
    exact ⟨hs.exec hadm hexec, hindexed.exec hexec⟩
  exact (h.preserves hpres ⟨hs, hindexed⟩ hadm).1

/-- After every run: the bound devices have slots of their own, whose fields agree
with them, and none of them has the null device. Every probe that succeeds on the
way takes the least slot that is free. -/
theorem run_assignment {s s' : Driver} {tr : List (Transition Driver Op OpRet)}
    (h : driverLts.Run s tr s') (hinit : driverLts.init s)
    (hadm : ∀ t ∈ tr, t.pre.Admissible t.act) :
    s'.Assignment ∧
    ∀ t ∈ tr, ∀ env d, t.act = .probe env d → t.out.ret = 0 → ∃ i, TakesLeast t.pre t.post d i := by
  obtain ⟨hslots, hindexed⟩ := run_indexed h (.of_init hinit) (.of_init hinit) hadm
  refine ⟨hslots.assignment hindexed, fun t ht env d hact hret => ?_⟩
  have hexec := driverLts_step.mp (h.step_of_mem ht)
  rw [hact] at hexec
  exact exec_probe_takesLeast hexec hret

/-- The first device fails with its slot claimed, two more come, one of them
goes, and its slot is taken again. -/
theorem run_assignment_reused : ∃ tr s',
    driverLts.Run (initial 250 1 0 fun _ _ _ => 0) tr s' ∧
    tr.map (·.act) = [.probe { fuel := 1, enableDevice := -5 } 6, .probe { fuel := 1 } 7,
      .probe { fuel := 1 } 8, .remove "gpcieuni" 7, .probe { fuel := 1 } 9] ∧
    s'.Assignment ∧ (s'.drvdata 8, s'.drvdata 9) = (some 2, some 1) := by
  obtain ⟨tr, s', hrun, hacts, hend⟩ := Lts.Run.of_exec_map (M := driverLts)
    (g := fun r => (r.1.all fun t => decide (t.pre.Admissible t.act), r.2.drvdata 8,
      r.2.drvdata 9))
    (v := (true, some 2, some 1)) (s := initial 250 1 0 fun _ _ _ => 0)
    (l := [.probe { fuel := 1, enableDevice := -5 } 6, .probe { fuel := 1 } 7,
      .probe { fuel := 1 } 8, .remove "gpcieuni" 7, .probe { fuel := 1 } 9]) (by decide +kernel)
  obtain ⟨hadm, hslots⟩ := Prod.mk.inj hend
  exact ⟨tr, s', hrun, hacts, (run_assignment hrun ⟨250, 1, 0, _, rfl⟩ (by simpa using hadm)).1,
    hslots⟩

end Driver

end Gpcieuni
