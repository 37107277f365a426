-- SUMMARY: The slot table over whole runs: every bound device has a slot of its own, and when the count of claimed slots agrees with the count of bound devices.
import Mathlib.Data.Fintype.Card
import Gpcieuni.Driver

/-!
# The slot table

`Serves` says what the driver has set up for a bound device. It survives every
call but the removal of that device (`exec_serves`), whatever the outcomes of
the probes in between; the counts of the slot table do not survive a probe that
fails after it has claimed its slot (`run_slots_iff`).
-/

namespace Gpcieuni

/-- The fields that tie a device struct to its PCI device. -/
def PcieuniDev.SameDevice (dv dv' : PcieuniDev) : Prop :=
  dv'.pcieuniPciDev = dv.pcieuniPciDev ∧ dv'.binded = dv.binded ∧ dv'.devSts = dv.devSts ∧
    dv'.bar = dv.bar

theorem PcieuniDev.SameDevice.refl (dv : PcieuniDev) : dv.SameDevice dv := ⟨rfl, rfl, rfl, rfl⟩

namespace Driver

/-- The part of the state that only probes and removes change. -/
structure SameSlots (s s' : Driver) : Prop where
  bound : s'.bound = s.bound
  drvdata : s'.drvdata = s.drvdata
  pcieuniModuleNum : s'.pcieuniModuleNum = s.pcieuniModuleNum
  dev : ∀ k, (s.dev k).SameDevice (s'.dev k)

/-- Slot `k` is set up for the device `d`. -/
structure Serves (s : Driver) (d : PciDev) (k : Slot) : Prop where
  bound : d ∈ s.bound
  drvdata : s.drvdata d = some k
  ne_null : k ≠ nullSlot
  pcieuniPciDev : (s.dev k).pcieuniPciDev = some d
  binded : (s.dev k).binded ≠ 0
  devSts : (s.dev k).devSts = 1
  mapped : ∀ n m, ((s.dev k).bar n).memmoryBase = some m → m.dev = d

/-- The invariant of the slot table: every bound device is bound once and has a
slot, and the null device stays without hardware. -/
structure SlotInv (s : Driver) : Prop where
  nodup : s.bound.Nodup
  serves : ∀ d ∈ s.bound, ∃ k, s.Serves d k
  null : (s.dev nullSlot).devSts = 0

theorem SlotInv.serves_of_drvdata {s : Driver} (hs : s.SlotInv) {d : PciDev} {k : Slot}
    (hd : d ∈ s.bound) (hk : s.drvdata d = some k) : s.Serves d k := by
  obtain ⟨k', hk'⟩ := hs.serves d hd
  obtain rfl : k' = k := Option.some.inj (hk'.drvdata.symm.trans hk)
  exact hk'

/-- Two devices have two slots. -/
theorem Serves.slot_ne {s : Driver} {d d' : PciDev} {k k' : Slot} (h : s.Serves d k)
    (h' : s.Serves d' k') (hne : d ≠ d') : k ≠ k' := by
  rintro rfl
  exact hne (Option.some.inj (h.pcieuniPciDev.symm.trans h'.pcieuniPciDev))

theorem Serves.ne_free {s : Driver} {d : PciDev} {k : Slot} {i : Fin pcieuniNrDevs}
    (h : s.Serves d k) (hi : s.freeSlot = some i) : k ≠ i.castSucc := by
  rintro rfl
  exact h.binded (freeSlot_some hi)

/-! ## What a call does to a slot in use -/

/-- A slot whose struct is replaced by one for the same device, and any other
slot, still belong to their devices. -/
theorem sameDevice_setDev {s : Driver} {j k : Slot} {dv : PcieuniDev}
    (h : (s.dev j).SameDevice dv) : (s.dev k).SameDevice ((s.setDev j dv).dev k) :=
  setDev_forall (Q := fun k dv => (s.dev k).SameDevice dv) h (fun k _ => .refl (s.dev k)) k

theorem sameDevice_setDev_ne {s : Driver} {j k : Slot} {dv : PcieuniDev} (h : k ≠ j) :
    (s.dev k).SameDevice ((s.setDev j dv).dev k) := by
  rw [setDev_dev_ne h]
  exact .refl (s.dev k)

/-- What a call does to the slot table: nothing, or it is a probe that fails with
its slot claimed, a probe that succeeds, or a remove. -/
theorem exec_slots {s s' : Driver} {op : Op} {r : OpRet} (h : s.exec op = .ok (s', r)) :
    (s.SameSlots s' ∧ (∀ env d, op = .probe env d → s.freeSlot = none) ∧
      ∀ devName d, op ≠ .remove devName d) ∨
    (∃ env d i drvdata, op = .probe env d ∧ s.freeSlot = some i ∧
      (env.enableDevice ≠ 0 ∨ env.requestRegions ≠ 0) ∧ r.ret ≠ 0 ∧
      (∀ d', d' ≠ d → drvdata d' = s.drvdata d') ∧
      s' = { s.setDev i.castSucc { s.dev i.castSucc with binded := 1 } with drvdata }) ∨
    (∃ env d i dv, op = .probe env d ∧ s.freeSlot = some i ∧ env.enableDevice = 0 ∧
      env.requestRegions = 0 ∧ r.ret = 0 ∧ Probed d { s.dev i.castSucc with binded := 1 } dv ∧
      s' = { s.setDev i.castSucc dv with
        drvdata := Function.update s.drvdata d (some i.castSucc)
        pcieuniModuleNum := s.pcieuniModuleNum + 1
        bound := d :: s.bound }) ∨
    (∃ devName d k dv files, op = .remove devName d ∧ s.drvdata d = some k ∧
      Removed (s.dev k) dv ∧
      s' = { s.setDev k dv with
        pcieuniModuleNum := s.pcieuniModuleNum - 1
        files
        bound := s.bound.erase d }) := by
  cases op with
  | probe env d =>
      rcases exec_probe h with ⟨hfree, rfl, -⟩ | ⟨i, drvdata, hfree, hfail, hret, hdrv, rfl⟩ |
          ⟨i, dv, hfree, hen, hreg, hret, hprobed, rfl⟩
      · exact .inl ⟨⟨rfl, rfl, rfl, fun _ => .refl _⟩, fun _ _ _ => hfree, by simp⟩
      · exact .inr (.inl ⟨env, d, i, drvdata, rfl, hfree, hfail, hret, hdrv, rfl⟩)
      · exact .inr (.inr (.inl ⟨env, d, i, dv, rfl, hfree, hen, hreg, hret, hprobed, rfl⟩))
  | remove devName d =>
      obtain ⟨k, dv, hk, -, -, hrem, -, rfl⟩ := exec_remove h
      exact .inr (.inr (.inr ⟨devName, d, k, dv, _, rfl, hk, hrem, rfl⟩))
  | openFile env j f =>
      refine .inl ⟨?_, by simp, by simp⟩
      rcases exec_openFile h with ⟨-, -, rfl⟩ | ⟨-, -, -, rfl⟩
      · exact ⟨rfl, rfl, rfl, fun k => sameDevice_setDev ⟨rfl, rfl, rfl, rfl⟩⟩
      · exact ⟨rfl, rfl, rfl, fun k => sameDevice_setDev ⟨rfl, rfl, rfl, rfl⟩⟩
  | release intr f =>
      refine .inl ⟨?_, by simp, by simp⟩
      obtain ⟨j, -, ⟨-, -, rfl⟩ | ⟨-, -, -, rfl⟩⟩ := exec_release h
      · exact ⟨rfl, rfl, rfl, fun _ => .refl _⟩
      · exact ⟨rfl, rfl, rfl, fun k => sameDevice_setDev ⟨rfl, rfl, rfl, rfl⟩⟩
  | read env f buf count fPos =>
      obtain ⟨j, -, rfl, -⟩ := exec_read h
      exact .inl ⟨⟨rfl, rfl, rfl, fun _ => .refl _⟩, by simp, by simp⟩
  | write env f buf count fPos =>
      obtain ⟨j, regs, -, rfl, -⟩ := exec_write h
      exact .inl ⟨⟨rfl, rfl, rfl, fun _ => .refl _⟩, by simp, by simp⟩
  | ioctl env f cmd arg =>
      refine .inl ⟨?_, by simp, by simp⟩
      obtain ⟨j, -, -, -, ⟨rfl, -⟩ | ⟨-, -, -, -, rfl⟩⟩ := exec_ioctl h
      · exact ⟨rfl, rfl, rfl, fun _ => .refl _⟩
      · exact ⟨rfl, rfl, rfl, fun k => sameDevice_setDev ⟨rfl, rfl, rfl, rfl⟩⟩

theorem Serves.congr {s s' : Driver} {d : PciDev} {k : Slot} (h : s.Serves d k)
    (hbound : d ∈ s'.bound) (hdrv : s'.drvdata d = s.drvdata d)
    (hdev : (s.dev k).SameDevice (s'.dev k)) : s'.Serves d k := by
  obtain ⟨hpci, hbinded, hsts, hbar⟩ := hdev
  refine ⟨hbound, hdrv.trans h.drvdata, h.ne_null, hpci.trans h.pcieuniPciDev, ?_,
    hsts.trans h.devSts, ?_⟩
  · rw [hbinded]; exact h.binded
  · rw [hbar]; exact h.mapped

/-- A device keeps its slot under every call that does not remove it. -/
theorem exec_serves {s s' : Driver} {op : Op} {r : OpRet} (hs : s.SlotInv)
    (hadm : s.Admissible op) (h : s.exec op = .ok (s', r)) {d : PciDev} {k : Slot}
    (hd : s.Serves d k) (hop : ∀ devName, op ≠ .remove devName d) : s'.Serves d k := by
  rcases exec_slots h with ⟨hsame, -, -⟩ | ⟨env, d', i, drvdata, rfl, hfree, -, -, hdrv, rfl⟩ |
      ⟨env, d', i, dv, rfl, hfree, -, -, -, -, rfl⟩ | ⟨devName, d', j, dv, files, rfl, hj, -, rfl⟩
  · exact hd.congr (hsame.bound ▸ hd.bound) (by rw [hsame.drvdata]) (hsame.dev k)
  · have hne : d ≠ d' := fun heq => hadm (heq ▸ hd.bound)
    exact hd.congr hd.bound (hdrv d hne) (sameDevice_setDev_ne (hd.ne_free hfree))
  · have hne : d ≠ d' := fun heq => hadm (heq ▸ hd.bound)
    exact hd.congr (List.mem_cons_of_mem _ hd.bound) (Function.update_of_ne hne _ _)
      (sameDevice_setDev_ne (hd.ne_free hfree))
  · have hne : d ≠ d' := fun heq => hop devName (heq ▸ rfl)
    have hslot : k ≠ j := hd.slot_ne (hs.serves_of_drvdata hadm hj) hne
    exact hd.congr ((List.mem_erase_of_ne hne).mpr hd.bound) rfl (sameDevice_setDev_ne hslot)

/-- A successful probe sets up its slot. -/
theorem serves_of_probed {s : Driver} {d : PciDev} {i : Fin pcieuniNrDevs} {dv : PcieuniDev}
    {n : Int} (h : Probed d { s.dev i.castSucc with binded := 1 } dv) :
    Serves { s.setDev i.castSucc dv with
      drvdata := Function.update s.drvdata d (some i.castSucc)
      pcieuniModuleNum := n
      bound := d :: s.bound } d i.castSucc := by
  refine ⟨List.mem_cons_self .., Function.update_self .., i.castSucc_ne_last, ?_, ?_, ?_, ?_⟩
  · simp [h.pcieuniPciDev]
  · simp [h.binded]
  · simp [h.devSts]
  · intro n m hm
    rw [setDev_dev_self] at hm
    exact (h.mapped n m hm).1

/-- Every admissible call keeps the invariant, whatever its outcome. -/
theorem SlotInv.exec {s s' : Driver} {op : Op} {r : OpRet} (hs : s.SlotInv)
    (hadm : s.Admissible op) (h : s.exec op = .ok (s', r)) : s'.SlotInv := by
  have hkeep := fun d k => exec_serves hs hadm h (d := d) (k := k)
  rcases exec_slots h with ⟨hsame, -, hop⟩ | ⟨env, d', i, drvdata, rfl, hfree, -, -, hdrv, rfl⟩ |
      ⟨env, d', i, dv, rfl, hfree, -, -, -, hprobed, rfl⟩ |
      ⟨devName, d', j, dv, files, rfl, hj, -, rfl⟩
  · refine ⟨hsame.bound ▸ hs.nodup, fun d hd => ?_, (hsame.dev nullSlot).2.2.1.trans hs.null⟩
    obtain ⟨k, hk⟩ := hs.serves d (hsame.bound ▸ hd)
    exact ⟨k, hkeep d k hk fun devName => hop devName d⟩
  · refine ⟨hs.nodup, fun d hd => ?_, ?_⟩
    · obtain ⟨k, hk⟩ := hs.serves d hd
      exact ⟨k, hkeep d k hk (by simp)⟩
    · exact (sameDevice_setDev_ne i.castSucc_ne_last.symm).2.2.1.trans hs.null
  · refine ⟨List.nodup_cons.mpr ⟨hadm, hs.nodup⟩, fun d hd => ?_, ?_⟩
    · rcases List.mem_cons.mp hd with rfl | hmem
      · exact ⟨_, serves_of_probed hprobed⟩
      · obtain ⟨k, hk⟩ := hs.serves d hmem
        exact ⟨k, hkeep d k hk (by simp)⟩
    · exact (sameDevice_setDev_ne i.castSucc_ne_last.symm).2.2.1.trans hs.null
  · refine ⟨hs.nodup.erase d', fun d hd => ?_, ?_⟩
    · obtain ⟨hne, hmem⟩ := hs.nodup.mem_erase_iff.mp hd
      obtain ⟨k, hk⟩ := hs.serves d hmem
      exact ⟨k, hkeep d k hk (by rintro _ heq; cases heq; exact hne rfl)⟩
    · have hnull := (hs.serves_of_drvdata hadm hj).ne_null
      exact (sameDevice_setDev_ne hnull.symm).2.2.1.trans hs.null

theorem SlotInv.of_init {s : Driver} (h : driverLts.init s) : s.SlotInv := by
  obtain ⟨major, verMaj, verMin, regs, rfl⟩ := h
  exact ⟨List.nodup_nil, by simp [initial], rfl⟩

/-! ## Counting slots -/

/-- The number of slots below the null device whose `binded` flag is set. -/
def bindedSlots (s : Driver) : Nat :=
  (Finset.univ.filter fun i : Fin pcieuniNrDevs => (s.dev i.castSucc).binded ≠ 0).card

theorem bindedSlots_congr {s s' : Driver} (h : ∀ k, (s'.dev k).binded = (s.dev k).binded) :
    s'.bindedSlots = s.bindedSlots := by
  simp only [bindedSlots, h]

/-- Claiming a free slot adds one to the count; read from right to left, giving
a slot up takes one off. -/
theorem bindedSlots_claim {s s' : Driver} {i : Fin pcieuniNrDevs}
    (hfree : (s.dev i.castSucc).binded = 0) (hclaim : (s'.dev i.castSucc).binded ≠ 0)
    (hrest : ∀ k, k ≠ i.castSucc → (s'.dev k).binded = (s.dev k).binded) :
    s'.bindedSlots = s.bindedSlots + 1 := by
  have hinsert : (Finset.univ.filter fun j : Fin pcieuniNrDevs => (s'.dev j.castSucc).binded ≠ 0) =
      insert i (Finset.univ.filter fun j : Fin pcieuniNrDevs => (s.dev j.castSucc).binded ≠ 0) := by
    ext j
    by_cases hj : j = i
    · subst hj
      simp [hclaim]
    · have := hrest j.castSucc (fun h => hj (Fin.castSucc_injective _ h))
      simp [hj, this]
  rw [bindedSlots, hinsert, Finset.card_insert_of_notMem (by simp [hfree])]
  rfl

theorem bindedSlots_of_freeSlot_none {s : Driver} (h : s.freeSlot = none) :
    s.bindedSlots = pcieuniNrDevs := by
  have hall := freeSlot_none.mp h
  simp [bindedSlots, hall]

/-- The counts of the slot table agree with the devices that are bound. -/
structure CountsAgree (s : Driver) : Prop where
  moduleNum : s.pcieuniModuleNum = s.bound.length
  slots : (s.bindedSlots : Int) = s.pcieuniModuleNum

/-- The call is not a probe that fails after it has found a free slot. -/
def ProbeSucceeds (s : Driver) : Op → Prop
  | .probe env _ => s.freeSlot = none ∨ env.enableDevice = 0 ∧ env.requestRegions = 0
  | _ => True

theorem CountsAgree.exec {s s' : Driver} {op : Op} {r : OpRet} (hs : s.SlotInv)
    (hadm : s.Admissible op) (hcounts : s.CountsAgree) (hprobe : s.ProbeSucceeds op)
    (h : s.exec op = .ok (s', r)) : s'.CountsAgree := by
  obtain ⟨hnum, hslots⟩ := hcounts
  rcases exec_slots h with ⟨hsame, -, -⟩ | ⟨env, d, i, drvdata, rfl, hfree, hfail, -, -, -⟩ |
      ⟨env, d, i, dv, rfl, hfree, -, -, -, hprobed, rfl⟩ |
      ⟨devName, d, k, dv, files, rfl, hk, hrem, rfl⟩
  · refine ⟨by rw [hsame.pcieuniModuleNum, hsame.bound, hnum], ?_⟩
    rw [bindedSlots_congr fun k => (hsame.dev k).2.1, hsame.pcieuniModuleNum, hslots]
  · rcases hprobe with hnone | ⟨hen, hreg⟩
    · rw [hnone] at hfree; cases hfree
    · rcases hfail with hfail | hfail
      · exact absurd hen hfail
      · exact absurd hreg hfail
  · have hclaim : (s.setDev i.castSucc dv).bindedSlots = s.bindedSlots + 1 := bindedSlots_claim
      (freeSlot_some hfree) (by simp [hprobed.binded]) (fun k hne => by rw [setDev_dev_ne hne])
    refine ⟨by simp [hnum], ?_⟩
    change ((s.setDev i.castSucc dv).bindedSlots : Int) = s.pcieuniModuleNum + 1
    rw [hclaim]
    push_cast
    rw [hslots]
  · have hserves := hs.serves_of_drvdata hadm hk
    obtain ⟨i, rfl⟩ := Fin.exists_castSucc_eq.mpr hserves.ne_null
    have hgive : s.bindedSlots = (s.setDev i.castSucc dv).bindedSlots + 1 := bindedSlots_claim
      (by simp [hrem.binded]) hserves.binded (fun k hne => by rw [setDev_dev_ne hne])
    have hlen := List.length_erase_add_one hadm
    refine ⟨?_, ?_⟩
    · change s.pcieuniModuleNum - 1 = (s.bound.erase d).length
      omega
    · change ((s.setDev i.castSucc dv).bindedSlots : Int) = s.pcieuniModuleNum - 1
      omega

/-- A probe that fails after it has claimed its slot leaves the flag behind. -/
theorem not_probeSucceeds {s s' : Driver} {op : Op} {r : OpRet} (hprobe : ¬ s.ProbeSucceeds op)
    (h : s.exec op = .ok (s', r)) :
    ∃ i, s.freeSlot = some i ∧ r.ret ≠ 0 ∧ (s'.dev i.castSucc).binded = 1 ∧
      s'.bindedSlots = s.bindedSlots + 1 ∧ s'.pcieuniModuleNum = s.pcieuniModuleNum := by
  rcases exec_slots h with ⟨-, hnone, -⟩ | ⟨env, d, i, drvdata, rfl, hfree, -, hret, -, rfl⟩ |
      ⟨env, d, i, dv, rfl, -, hen, hreg, -, -, -⟩ | ⟨devName, d, k, dv, files, rfl, -, -, -⟩
  · cases op with
    | probe env d => exact absurd (.inl (hnone env d rfl)) hprobe
    | remove | openFile | release | read | write | ioctl => exact absurd trivial hprobe
  · refine ⟨i, hfree, hret, by simp, ?_, rfl⟩
    exact bindedSlots_claim (freeSlot_some hfree) (by simp) (fun k hne => by simp [hne])
  · exact absurd (.inr ⟨hen, hreg⟩) hprobe
  · exact absurd trivial hprobe

/-- A probe that returns an error leaves every flag and the count of modules. -/
def FailedProbeKeeps (t : Transition Driver Op OpRet) : Prop :=
  ∀ env d, t.act = .probe env d → t.out.ret ≠ 0 →
    (∀ k, (t.post.dev k).binded = (t.pre.dev k).binded) ∧
      t.post.pcieuniModuleNum = t.pre.pcieuniModuleNum

theorem failedProbeKeeps_iff {t : Transition Driver Op OpRet}
    (h : t.pre.exec t.act = .ok (t.post, t.out)) :
    FailedProbeKeeps t ↔ t.pre.ProbeSucceeds t.act := by
  constructor
  · intro hkeeps
    by_contra hprobe
    obtain ⟨i, hfree, hret, hset, -, -⟩ := not_probeSucceeds hprobe h
    cases hact : t.act with
    | probe env d =>
        have := (hkeeps env d hact hret).1 i.castSucc
        rw [hset, freeSlot_some hfree] at this
        cases this
    | remove | openFile | release | read | write | ioctl =>
        rw [hact] at hprobe
        exact hprobe trivial
  · rintro hprobe env d hact hret
    rw [hact] at hprobe h
    rcases exec_probe h with ⟨-, hsame, -⟩ | ⟨i, drvdata, hfree, hfail, -, -, -⟩ |
        ⟨i, dv, -, -, -, hzero, -, -⟩
    · exact ⟨fun k => by rw [hsame], by rw [hsame]⟩
    · rcases hprobe with hnone | ⟨hen, hreg⟩
      · rw [hnone] at hfree; cases hfree
      · rcases hfail with hfail | hfail
        · exact absurd hen hfail
        · exact absurd hreg hfail
    · exact absurd hzero hret

/-- In every run after the initialisation: failed probes leave the slot table as
it was, and the number of claimed slots stays equal to `pcieuniModuleNum`, if
and only if no probe fails after it has found a free slot. In such a run the
table is full only while `PCIEUNI_NR_DEVS` devices are bound. -/
theorem run_slots_iff {s s' : Driver} {tr : List (Transition Driver Op OpRet)}
    (h : driverLts.Run s tr s') (hinit : driverLts.init s)
    (hadm : ∀ t ∈ tr, t.pre.Admissible t.act) :
    ((∀ t ∈ tr, FailedProbeKeeps t) ↔ ∀ t ∈ tr, t.pre.ProbeSucceeds t.act) ∧
    ((∀ t ∈ tr, (t.post.bindedSlots : Int) = t.post.pcieuniModuleNum) ↔
      ∀ t ∈ tr, t.pre.ProbeSucceeds t.act) ∧
    ((∀ t ∈ tr, t.pre.ProbeSucceeds t.act) →
      ∀ t ∈ tr, t.pre.freeSlot = none → t.pre.bound.length = pcieuniNrDevs) := by
  have hstart : s.SlotInv ∧ s.CountsAgree := by
    refine ⟨.of_init hinit, ?_⟩
    obtain ⟨major, verMaj, verMin, regs, rfl⟩ := hinit
    refine ⟨rfl, ?_⟩
    simp [bindedSlots, initial, nullSlot, Fin.castSucc_ne_last]
  have hpres : ∀ s a s' e, SlotInv s ∧ CountsAgree s → Admissible s a → ProbeSucceeds s a →
      driverLts.step s a = some (s', e) → SlotInv s' ∧ CountsAgree s' := by
    rintro s a s' e ⟨hs, hcounts⟩ hadm hprobe hstep
    have hexec := driverLts_step.mp hstep
    exact ⟨hs.exec hadm hexec, hcounts.exec hs hadm hprobe hexec⟩
  refine ⟨?_, ?_, ?_⟩
  · refine forall₂_congr fun t ht => failedProbeKeeps_iff ?_
    exact driverLts_step.mp (h.step_of_mem ht)
  · refine h.always_iff (fun _ hs => hs.2.slots) hpres ?_ hstart hadm
    rintro s a s' e ⟨-, hcounts⟩ - hprobe hstep heq
    obtain ⟨i, -, -, -, hslots, hnum⟩ := not_probeSucceeds hprobe (driverLts_step.mp hstep)
    have := hcounts.slots
    omega
  · intro hprobe t ht hnone
    have hall := h.preserves (P := fun s a => s.Admissible a ∧ s.ProbeSucceeds a)
      (fun s a s' e hs hP => hpres s a s' e hs hP.1 hP.2) hstart
      (fun t ht => ⟨hadm t ht, hprobe t ht⟩)
    have hcounts := (hall.2 t ht).1.2
    have hfull := bindedSlots_of_freeSlot_none hnone
    have := hcounts.moduleNum
    have := hcounts.slots
    omega

/-- Two probes, of which the second finds the table as the first left it, and a
remove. -/
theorem run_slots_iff_twoDevices : ∃ tr s',
    driverLts.Run (initial 250 1 0 fun _ _ _ => 0) tr s' ∧
    tr.map (·.act) = [.probe { fuel := 1 } 7, .probe { fuel := 1 } 8, .remove "gpcieuni" 7] ∧
    (∀ t ∈ tr, FailedProbeKeeps t) ∧
    (∀ t ∈ tr, (t.post.bindedSlots : Int) = t.post.pcieuniModuleNum) ∧
    s'.bindedSlots = 1 := by
  obtain ⟨tr, s', hrun, hacts, hend⟩ := Lts.Run.of_exec_map (M := driverLts)
    (g := fun r => (r.1.all fun t => decide (t.pre.Admissible t.act), r.2.bindedSlots))
    (v := (true, 1)) (s := initial 250 1 0 fun _ _ _ => 0)
    (l := [.probe { fuel := 1 } 7, .probe { fuel := 1 } 8, .remove "gpcieuni" 7])
    (by decide +kernel)
  obtain ⟨hadm, hone⟩ := Prod.mk.inj hend
  obtain ⟨hkeeps, hcount, -⟩ := run_slots_iff hrun ⟨250, 1, 0, _, rfl⟩ (by simpa using hadm)
  have hprobe : ∀ t ∈ tr, t.pre.ProbeSucceeds t.act := by
    intro t ht
    have hact : t.act ∈ tr.map (·.act) := List.mem_map_of_mem ht
    simp only [hacts, List.mem_cons, List.not_mem_nil, or_false] at hact
    rcases hact with hact | hact | hact
    · rw [hact]; exact .inr ⟨rfl, rfl⟩
    · rw [hact]; exact .inr ⟨rfl, rfl⟩
    · rw [hact]; trivial
  exact ⟨tr, s', hrun, hacts, hkeeps.mpr hprobe, hcount.mpr hprobe, hone⟩

/-- `pci_enable_device` fails, and the slot stays claimed with no device bound. -/
theorem failed_probe_keeps_slot : ∃ tr s',
    driverLts.Run (initial 250 1 0 fun _ _ _ => 0) tr s' ∧
    tr.map (·.act) = [.probe { fuel := 1, enableDevice := -5 } 7] ∧
    (∀ t ∈ tr, t.pre.Admissible t.act) ∧ ¬ (∀ t ∈ tr, FailedProbeKeeps t) ∧
    s'.bindedSlots = 1 ∧ s'.pcieuniModuleNum = 0 := by
  obtain ⟨tr, s', hrun, hacts, hend⟩ := Lts.Run.of_exec_map (M := driverLts)
    (g := fun r => (r.1.all fun t => decide (t.pre.Admissible t.act ∧ t.out.ret = -5 ∧
      (t.post.dev 0).binded ≠ (t.pre.dev 0).binded), r.2.bindedSlots, r.2.pcieuniModuleNum))
    (v := (true, 1, 0)) (s := initial 250 1 0 fun _ _ _ => 0)
    (l := [.probe { fuel := 1, enableDevice := -5 } 7]) (by decide +kernel)
  obtain ⟨hsteps, hcounts⟩ := Prod.mk.inj hend
  obtain ⟨hslots, hnum⟩ := Prod.mk.inj hcounts
  have hall : ∀ t ∈ tr, t.pre.Admissible t.act ∧ t.out.ret = -5 ∧
      (t.post.dev 0).binded ≠ (t.pre.dev 0).binded := by simpa using hsteps
  refine ⟨tr, s', hrun, hacts, fun t ht => (hall t ht).1, fun hkeeps => ?_, hslots, hnum⟩
  obtain ⟨t, rfl, hact⟩ := List.map_eq_singleton_iff.mp hacts
  obtain ⟨-, hret, hflag⟩ := hall t (List.mem_singleton_self t)
  refine hflag ((hkeeps t (List.mem_singleton_self t) _ _ hact ?_).1 0)
  rw [hret]
  decide

end Driver

end Gpcieuni
