-- SUMMARY: The names that the driver gives to its device nodes and proc entries: which calls make and remove them, and from which fields of the struct.
import Gpcieuni.Driver.Assignment

/-!
# Names

A node and a proc entry are named after the slot number that the probe has read
from the upstream bridge, and a remove makes the same name again from the field
`slot_num`. Here is what each call does to that field and to the names; what this
means for the nodes and the entries over a run is in `Driver.Entries`.
-/

namespace Gpcieuni

/-- `tmp_slot_num`: the physical slot number in the slot capabilities. -/
def ProbeEnv.slotNum (env : ProbeEnv) : Int := (env.sltCap >>> 19).toNat

/-! ## The calls that make and remove names -/

/-- The effect makes or removes a device node or a proc entry. -/
def Effect.isNaming : Effect → Bool
  | .deviceCreate .. | .deviceDestroy _ | .procCreate .. | .procRemove _ => true
  | _ => false

/-- The calls of a log that make and remove names. -/
def namingCalls (log : List Effect) : List Effect := log.filter Effect.isNaming

@[simp] theorem namingCalls_append (log log' : List Effect) :
    namingCalls (log ++ log') = namingCalls log ++ namingCalls log' :=
  List.filter_append log log'

theorem namingCalls_eq_nil {log : List Effect} (h : ∀ e ∈ log, e.isNaming = false) :
    namingCalls log = [] := by
  apply List.filter_eq_nil_iff.mpr
  intro e he
  simp [h e he]

theorem Effect.isNaming_of_accesses {e : Effect} {d : PciDev} (h : e.accesses = some d) :
    e.isNaming = false := by
  cases e <;> first | rfl | cases h

theorem Effect.isNaming_of_through {e : Effect} {m : Iomem} (h : e.through = some m) :
    e.isNaming = false := by
  cases e <;> first | rfl | cases h

theorem Transferred.naming {dv dv' : PcieuniDev} {ret : Int} {log : List Effect}
    (h : Transferred dv dv' ret log) : namingCalls log = [] := by
  apply namingCalls_eq_nil
  intro e he
  obtain ⟨n, m, -, hacc⟩ := h.accesses e he
  exact Effect.isNaming_of_accesses hacc

/-! ## Probe -/

theorem iomapCalls_naming (env : ProbeEnv) (d : PciDev) (ns : List (Fin 6)) :
    namingCalls (ns.flatMap (iomapCalls env d)) = [] := by
  apply namingCalls_eq_nil
  intro e he
  obtain ⟨n, -, hn⟩ := List.mem_flatMap.mp he
  simp only [iomapCalls] at hn
  split at hn
  · rw [List.mem_singleton.mp hn]
    rfl
  · cases hn

theorem discover_naming {env : ProbeEnv} {regs : Regs} {dv dv' : PcieuniDev} {log : List Effect}
    (h : discover env regs dv = .ok (dv', log)) : namingCalls log = [] := by
  apply namingCalls_eq_nil
  intro e he
  obtain ⟨n, m, -, hthrough⟩ := discover_log h he
  exact Effect.isNaming_of_through hthrough

theorem msiCalls_naming (env : ProbeEnv) (d : PciDev) : namingCalls (msiCalls env d) = [] := by
  simp only [msiCalls]
  split <;> rfl

theorem nodeCalls_naming (env : ProbeEnv) (major : Int) (k : Slot) (devSts slotNum : Int) :
    namingCalls (nodeCalls env major k devSts slotNum) =
      nodeCalls env major k devSts slotNum := by
  simp only [nodeCalls]
  split <;> rfl

/-- The struct and the node are named after the slot number. -/
theorem probeDevice_names {env : ProbeEnv} {regs : Regs} {major : Int} {d : PciDev} {k : Slot}
    {dv dv' : PcieuniDev} {log : List Effect}
    (h : probeDevice env regs major d k dv = .ok (dv', log)) :
    dv'.slotNum = env.slotNum ∧ dv'.name = entryName env.devName env.slotNum ∧
      ∃ devSts, namingCalls log = nodeCalls env major k devSts env.slotNum := by
  obtain ⟨found', logInfo, hdisc, rfl, rfl⟩ := probeDevice_steps h
  obtain ⟨irqFlag, hmsi, hmsiCalls⟩ := setupMsi_eq env d found'
  have hbars := setupBars_barsOnly env d allBars (setupIdentity env d dv)
  have hinfo := discover_infoOnly hdisc
  unfold PcieuniDev.InfoOnly at hinfo
  unfold PcieuniDev.BarsOnly at hbars
  have hslot : found'.slotNum = env.slotNum := by
    rw [hinfo, hbars]
    rfl
  rw [hmsi, hmsiCalls, setupBars_calls]
  refine ⟨hslot, congrArg (entryName env.devName) hslot, found'.devSts, ?_⟩
  rw [← nodeCalls_naming]
  simp only [nodeCalls, namingCalls_append, iomapCalls_naming, discover_naming hdisc,
    msiCalls_naming, hslot, List.append_assoc, List.nil_append]

/-- A probe that binds its device. -/
theorem pcieuniProbeExp_names {env : ProbeEnv} {d : PciDev} {s s' : Driver} {r : ProbeRet}
    (h : pcieuniProbeExp env d s = .ok (s', r)) (hret : r.ret = 0) :
    ∃ i dv devSts, s.freeSlot = some i ∧ env.enableDevice = 0 ∧ env.requestRegions = 0 ∧
      dv.slotNum = env.slotNum ∧ dv.name = entryName env.devName env.slotNum ∧
      namingCalls r.log = nodeCalls env s.pcieuniMajor i.castSucc devSts env.slotNum ∧
      s' = { s.setDev i.castSucc dv with
        drvdata := Function.update s.drvdata d (some i.castSucc)
        pcieuniModuleNum := s.pcieuniModuleNum + 1 } := by
  rcases pcieuniProbeExp_exits h with ⟨-, -, rfl⟩ | ⟨i, -, henable, -, rfl⟩ |
      ⟨i, -, -, hregions, -, rfl⟩ | ⟨i, dv, log, hfree, henable, hregions, hdev, rfl, rfl⟩
  · cases hret
  · exact absurd hret henable
  · exact absurd hret hregions
  · obtain ⟨hslot, hname, devSts, hcalls⟩ := probeDevice_names hdev
    refine ⟨i, dv, devSts, hfree, henable, hregions, hslot, hname, ?_, rfl⟩
    rw [namingCalls_append, hcalls]
    rfl

/-- What a probe writes to `*brd_num`: the index of the free slot that it found. -/
theorem pcieuniProbeExp_brdNum {env : ProbeEnv} {d : PciDev} {s s' : Driver} {r : ProbeRet}
    (h : pcieuniProbeExp env d s = .ok (s', r)) :
    r.brdNum = s.freeSlot.map fun i => ((i.castSucc : Slot) : Int) := by
  rcases pcieuniProbeExp_exits h with ⟨hfree, -, rfl⟩ | ⟨i, hfree, -, -, rfl⟩ |
      ⟨i, hfree, -, -, -, rfl⟩ | ⟨i, dv, log, hfree, -, -, -, -, rfl⟩
  · rw [hfree]; rfl
  · rw [hfree]; rfl
  · rw [hfree]; rfl
  · rw [hfree]; rfl

/-! ## Remove -/

/-- The struct keeps its name and its slot number. From the latter the remove
makes the name of the proc entry, and it is what it writes to `*brd_num`. -/
theorem pcieuniRemoveExp_names {devName : String} {d : PciDev} {s s' : Driver} {r : RemoveRet}
    (h : pcieuniRemoveExp devName d s = .ok (s', r)) :
    ∃ k, s.drvdata d = some k ∧ r.brdNum = (s.dev k).slotNum ∧
      (s'.dev k).slotNum = (s.dev k).slotNum ∧ (s'.dev k).name = (s.dev k).name ∧
      namingCalls r.log = [.deviceDestroy (mkdev s.pcieuniMajor (s.dev k).brdNum),
        .procRemove (entryName devName (s.dev k).slotNum)] := by
  obtain ⟨k, p, dv, logBars, hk, -, -, hunmap, rfl, -, hbrd, hlog⟩ := pcieuniRemoveExp_exit h
  have hbars := unmapBars_barsOnly allBars { s.dev k with prjInfoList := [], devMut := true }
  have hmaps := fun e => unmapBars_log allBars (e := e)
    { s.dev k with prjInfoList := [], devMut := true }
  simp only [hunmap, PcieuniDev.BarsOnly] at hbars hmaps
  have hirqs : namingCalls (releaseInterrupts k (s.dev k)) = [] := by
    apply namingCalls_eq_nil
    intro e he
    rcases releaseInterrupts_log he with rfl | rfl <;> rfl
  have hbarCalls : namingCalls logBars = [] := by
    apply namingCalls_eq_nil
    intro e he
    obtain ⟨m, rfl⟩ := hmaps e he
    rfl
  have hfiles : namingCalls
      ((s.dev k).devFileList.map fun e => .setPrivateData e.filp nullSlot) = [] := by
    apply namingCalls_eq_nil
    intro e he
    obtain ⟨entry, -, rfl⟩ := List.mem_map.mp he
    rfl
  refine ⟨k, hk, hbrd, ?_, ?_, ?_⟩
  · rw [Driver.setDev_dev_self, hbars]
  · rw [Driver.setDev_dev_self, hbars]
  · simp only [hlog, namingCalls_append, hirqs, hbarCalls, hfiles]
    rfl

/-! ## Every call -/

/-- The fields of a struct that have to do with names. -/
def PcieuniDev.SameName (dv dv' : PcieuniDev) : Prop :=
  dv'.slotNum = dv.slotNum ∧ dv'.name = dv.name

namespace Driver

/-- The part of the state that has to do with names. -/
structure SameNames (s s' : Driver) : Prop where
  bound : s'.bound = s.bound
  drvdata : ∀ d ∈ s.bound, s'.drvdata d = s.drvdata d
  pcieuniMajor : s'.pcieuniMajor = s.pcieuniMajor
  dev : ∀ k, (s.dev k).SameName (s'.dev k)

/-- A probe finds a free slot, and the kernel gives it the device. -/
structure Claims (s : Driver) (env : ProbeEnv) : Prop where
  free : s.freeSlot ≠ none
  enableDevice : env.enableDevice = 0
  requestRegions : env.requestRegions = 0

theorem sameName_setDev {s : Driver} {j : Slot} {dv : PcieuniDev} (h : (s.dev j).SameName dv)
    (k : Slot) : (s.dev k).SameName ((s.setDev j dv).dev k) :=
  setDev_forall (Q := fun k dv => (s.dev k).SameName dv) h (fun _ _ => ⟨rfl, rfl⟩) k

theorem exec_probe_names {env : ProbeEnv} {d : PciDev} {s s' : Driver} {r : OpRet}
    (h : s.exec (.probe env d) = .ok (s', r)) (hret : r.ret = 0) :
    ∃ i dv devSts, s.freeSlot = some i ∧ s.Claims env ∧
      dv.slotNum = env.slotNum ∧ dv.name = entryName env.devName env.slotNum ∧
      namingCalls r.log = nodeCalls env s.pcieuniMajor i.castSucc devSts env.slotNum ∧
      s' = { s.setDev i.castSucc dv with
        drvdata := Function.update s.drvdata d (some i.castSucc)
        pcieuniModuleNum := s.pcieuniModuleNum + 1
        bound := d :: s.bound } := by
  obtain ⟨s₁, r₁, hprobe, rfl, rfl⟩ := exec_probe_call h
  obtain ⟨i, dv, devSts, hfree, hen, hreg, hslot, hname, hcalls, rfl⟩ :=
    pcieuniProbeExp_names hprobe hret
  refine ⟨i, dv, devSts, hfree, ⟨by simp [hfree], hen, hreg⟩, hslot, hname, hcalls, ?_⟩
  rw [if_pos hret]
  rfl

/-- A probe that fails has not got as far as the names. -/
theorem exec_probe_sameNames {env : ProbeEnv} {d : PciDev} {s s' : Driver} {r : OpRet}
    (hadm : d ∉ s.bound) (h : s.exec (.probe env d) = .ok (s', r)) (hret : r.ret ≠ 0) :
    s.SameNames s' ∧ namingCalls r.log = [] ∧ ¬ s.Claims env := by
  have hcalls : namingCalls r.log = [] := by
    rcases exec_probe_failed h hret with hlog | ⟨err, -, hlog⟩ | ⟨err, -, hlog⟩
    · rw [hlog]; rfl
    · rw [hlog]; rfl
    · rw [hlog]; rfl
  rcases exec_probe h with ⟨hfree, rfl, -⟩ | ⟨i, drvdata, -, hfail, -, hdrv, rfl⟩ |
      ⟨i, dv, -, -, -, hzero, -, -⟩
  · exact ⟨⟨rfl, fun _ _ => rfl, rfl, fun _ => ⟨rfl, rfl⟩⟩, hcalls, fun hc => hc.free hfree⟩
  · refine ⟨⟨rfl, fun d' hd' => hdrv d' ?_, rfl, sameName_setDev ⟨rfl, rfl⟩⟩, hcalls, ?_⟩
    · rintro rfl
      exact hadm hd'
    · intro hc
      rcases hfail with hen | hreg
      · exact hen hc.enableDevice
      · exact hreg hc.requestRegions
  · exact absurd hzero hret

theorem exec_remove_names {devName : String} {d : PciDev} {s s' : Driver} {r : OpRet}
    (h : s.exec (.remove devName d) = .ok (s', r)) :
    ∃ k dv files, s.drvdata d = some k ∧ (s.dev k).SameName dv ∧
      namingCalls r.log = [.deviceDestroy (mkdev s.pcieuniMajor (s.dev k).brdNum),
        .procRemove (entryName devName (s.dev k).slotNum)] ∧
      s' = { s.setDev k dv with
        pcieuniModuleNum := s.pcieuniModuleNum - 1
        files
        bound := s.bound.erase d } := by
  obtain ⟨k, dv, hk, -, -, -, -, heq⟩ := exec_remove h
  obtain ⟨s₁, r₁, hremove, rfl, rfl⟩ := exec_remove_call h
  obtain ⟨k₁, hk₁, -, hslot, hname, hcalls⟩ := pcieuniRemoveExp_names hremove
  obtain rfl : k₁ = k := Option.some.inj (hk₁.symm.trans hk)
  have hdev : s₁.dev k₁ = dv := by simpa using congrArg (fun s => s.dev k₁) heq
  rw [hdev] at hslot hname
  exact ⟨k₁, dv, _, hk, ⟨hslot, hname⟩, hcalls, heq⟩

/-- No other call makes or removes a name. -/
theorem exec_naming_other {s s' : Driver} {op : Op} {r : OpRet} (h : s.exec op = .ok (s', r))
    (hprobe : ∀ env d, op ≠ .probe env d) (hremove : ∀ devName d, op ≠ .remove devName d) :
    namingCalls r.log = [] := by
  cases op with
  | probe env d => exact absurd rfl (hprobe env d)
  | remove devName d => exact absurd rfl (hremove devName d)
  | openFile env j f =>
      simp only [exec] at h
      split at h <;> cases h
      rfl
  | release intr f =>
      simp only [exec] at h
      split at h
      · cases h
      split at h <;> cases h
      rfl
  | read env f buf count fPos =>
      obtain ⟨k, -, -, htr⟩ := exec_read h
      exact htr.naming
  | write env f buf count fPos =>
      obtain ⟨k, regs, -, -, htr⟩ := exec_write h
      exact htr.naming
  | ioctl env f cmd arg =>
      simp only [exec] at h
      split at h
      · cases h
      split at h
      · cases h
      rename_i dv rr hioctl
      cases h
      apply namingCalls_eq_nil
      intro e he
      obtain ⟨d, rfl⟩ := pcieuniIoctlExp_log hioctl e he
      rfl

/-- What a call does to the names: nothing, or it is a probe that binds its device,
or a remove. -/
theorem exec_names {s s' : Driver} {op : Op} {r : OpRet} (hadm : s.Admissible op)
    (h : s.exec op = .ok (s', r)) :
    (s.SameNames s' ∧ namingCalls r.log = [] ∧ (∀ env d, op = .probe env d → ¬ s.Claims env) ∧
      ∀ devName d, op ≠ .remove devName d) ∨
    (∃ env d i dv devSts, op = .probe env d ∧ s.freeSlot = some i ∧ s.Claims env ∧
      dv.slotNum = env.slotNum ∧ dv.name = entryName env.devName env.slotNum ∧
      namingCalls r.log = nodeCalls env s.pcieuniMajor i.castSucc devSts env.slotNum ∧
      s' = { s.setDev i.castSucc dv with
        drvdata := Function.update s.drvdata d (some i.castSucc)
        pcieuniModuleNum := s.pcieuniModuleNum + 1
        bound := d :: s.bound }) ∨
    (∃ devName d k dv files, op = .remove devName d ∧ s.drvdata d = some k ∧
      (s.dev k).SameName dv ∧
      namingCalls r.log = [.deviceDestroy (mkdev s.pcieuniMajor (s.dev k).brdNum),
        .procRemove (entryName devName (s.dev k).slotNum)] ∧
      s' = { s.setDev k dv with
        pcieuniModuleNum := s.pcieuniModuleNum - 1
        files
        bound := s.bound.erase d }) := by
  have hother := exec_naming_other h
  cases op with
  | probe env d =>
      by_cases hret : r.ret = 0
      · obtain ⟨i, dv, devSts, hprobe⟩ := exec_probe_names h hret
        exact .inr (.inl ⟨env, d, i, dv, devSts, rfl, hprobe⟩)
      · obtain ⟨hsame, hcalls, hclaims⟩ := exec_probe_sameNames hadm h hret
        exact .inl ⟨hsame, hcalls, fun _ _ heq => by cases heq; exact hclaims, by simp⟩
  | remove devName d =>
      obtain ⟨k, dv, files, hremove⟩ := exec_remove_names h
      exact .inr (.inr ⟨devName, d, k, dv, files, rfl, hremove⟩)
  | openFile env j f =>
      refine .inl ⟨?_, hother (by simp) (by simp), by simp, by simp⟩
      rcases exec_openFile h with ⟨-, -, rfl⟩ | ⟨-, -, -, rfl⟩
      · exact ⟨rfl, fun _ _ => rfl, rfl, sameName_setDev ⟨rfl, rfl⟩⟩
      · exact ⟨rfl, fun _ _ => rfl, rfl, sameName_setDev ⟨rfl, rfl⟩⟩
  | release intr f =>
      refine .inl ⟨?_, hother (by simp) (by simp), by simp, by simp⟩
      obtain ⟨j, -, ⟨-, -, rfl⟩ | ⟨-, -, -, rfl⟩⟩ := exec_release h
      · exact ⟨rfl, fun _ _ => rfl, rfl, fun _ => ⟨rfl, rfl⟩⟩
      · exact ⟨rfl, fun _ _ => rfl, rfl, sameName_setDev ⟨rfl, rfl⟩⟩
  | read env f buf count fPos =>
      obtain ⟨j, -, rfl, -⟩ := exec_read h
      exact .inl ⟨⟨rfl, fun _ _ => rfl, rfl, fun _ => ⟨rfl, rfl⟩⟩, hother (by simp) (by simp),
        by simp, by simp⟩
  | write env f buf count fPos =>
      obtain ⟨j, regs, -, rfl, -⟩ := exec_write h
      exact .inl ⟨⟨rfl, fun _ _ => rfl, rfl, fun _ => ⟨rfl, rfl⟩⟩, hother (by simp) (by simp),
        by simp, by simp⟩
  | ioctl env f cmd arg =>
      refine .inl ⟨?_, hother (by simp) (by simp), by simp, by simp⟩
      obtain ⟨j, -, -, -, ⟨rfl, -⟩ | ⟨-, -, -, -, rfl⟩⟩ := exec_ioctl h
      · exact ⟨rfl, fun _ _ => rfl, rfl, fun _ => ⟨rfl, rfl⟩⟩
      · exact ⟨rfl, fun _ _ => rfl, rfl, sameName_setDev ⟨rfl, rfl⟩⟩

/-- A bound device keeps its name under every call that does not remove it. -/
theorem exec_keepsName {s s' : Driver} {op : Op} {r : OpRet} (hs : s.SlotInv)
    (hadm : s.Admissible op) (h : s.exec op = .ok (s', r)) {d : PciDev} {k : Slot}
    (hd : s.Serves d k) (hop : ∀ devName, op ≠ .remove devName d) :
    (s.dev k).SameName (s'.dev k) := by
  rcases exec_names hadm h with ⟨hsame, -⟩ |
      ⟨env, d', i, dv, devSts, rfl, hfree, -, -, -, -, rfl⟩ |
      ⟨devName, d', j, dv, files, rfl, hj, -, -, rfl⟩
  · exact hsame.dev k
  · simp only [setDev_dev_ne (hd.ne_free hfree)]
    exact ⟨rfl, rfl⟩
  · have hne : d ≠ d' := fun heq => hop devName (heq ▸ rfl)
    have hslot : k ≠ j := hd.slot_ne (hs.serves_of_drvdata hadm hj) hne
    simp only [setDev_dev_ne hslot]
    exact ⟨rfl, rfl⟩

end Driver

end Gpcieuni
