-- SUMMARY: The answers of ioctls over whole runs: as long as a device is bound, they are what its probe found and what the caller asked with.
import Gpcieuni.Driver.Noninterference
import Gpcieuni.Driver.ProcText

/-!
# Answers

An ioctl answers with a struct of sixteen bytes, of which a fault of the copy may let
only the first ones through. What it answers is decided by the probe of the device and
by the version of the driver (`run_answers`), however the calls on this and on other
devices are mixed.
-/

namespace Gpcieuni

/-! ## The struct in user space -/

/-- A struct read back from its bytes. -/
def DeviceIoctrlData.ofBytes (l : List (BitVec 8)) : Option DeviceIoctrlData :=
  if l.length = 16 then
    let word n := Word.ofBytes fun i => l.getD (n + i) 0
    some ⟨word 0, word 4, word 8, word 12⟩
  else none

theorem DeviceIoctrlData.length_bytes (x : DeviceIoctrlData) : x.bytes.length = 16 := rfl

theorem DeviceIoctrlData.ofBytes_bytes (x : DeviceIoctrlData) : ofBytes x.bytes = some x := by
  obtain ⟨offset, data, cmd, reserved⟩ := x
  rw [ofBytes, if_pos (length_bytes _)]
  refine congrArg some ?_
  have hoffset := Word.ofBytes_byte offset
  have hdata := Word.ofBytes_byte data
  have hcmd := Word.ofBytes_byte cmd
  have hreserved := Word.ofBytes_byte reserved
  exact mk.injEq .. ▸ ⟨hoffset, hdata, hcmd, hreserved⟩

/-! ## One call -/

/-- `x` answers the command, on a device with this slot number and revision. -/
def Answers (env : IoctlEnv) (verMaj verMin : BitVec 16) (slotNum : Int) (revision : BitVec 8)
    (cmd : BitVec 32) (x : DeviceIoctrlData) : Prop :=
  (cmd = pcieuniPhysicalSlot ∧ ∃ asked, env.copyIn = some asked ∧
    x = { asked with data := BitVec.ofInt 32 slotNum, cmd := pcieuniPhysicalSlot }) ∨
  (cmd = pcieuniDriverVersion ∧ x.data = verMaj.setWidth 32 ∧ x.offset = verMin.setWidth 32) ∨
  (cmd = pcieuniFirmwareVersion ∧ x.data = env.revision.setWidth 32 ∧
    x.offset = revision.setWidth 32)

/-- The bytes are the first ones of an answer, and all of them if the call returns 0. -/
structure Tells (answers : DeviceIoctrlData → Prop) (ret : Int) (bytes : List (BitVec 8)) :
    Prop where
  some_answer : bytes ≠ [] → ∃ x, answers x ∧ bytes <+: x.bytes
  full_answer : ret = 0 → ∃ x, answers x ∧ DeviceIoctrlData.ofBytes bytes = some x

section OneCall

variable {env : IoctlEnv} {verMaj verMin : BitVec 16} {dv dv' : PcieuniDev} {cmd : BitVec 32}
  {arg : BitVec 64} {r : IoctlRet}

theorem tells_nothing {answers : DeviceIoctrlData → Prop} {ret : Int} (hret : ret ≠ 0) :
    Tells answers ret [] :=
  ⟨fun h => absurd rfl h, fun h => absurd h hret⟩

theorem ioctlCopyOut_tells {answers : DeviceIoctrlData → Prop} {x : DeviceIoctrlData}
    (hx : answers x) (dv : PcieuniDev) (log : List Effect) :
    Tells answers (ioctlCopyOut env dv x log).2.ret (ioctlCopyOut env dv x log).2.copied := by
  simp only [ioctlCopyOut]
  split
  · exact ⟨fun _ => ⟨x, hx, List.take_prefix ..⟩, fun h => by cases h⟩
  · rename_i hleft
    have hall : x.bytes.take (16 - env.left) = x.bytes := by
      rw [Decidable.not_not.mp hleft]
      rfl
    simp only [hall]
    exact ⟨fun _ => ⟨x, hx, List.prefix_rfl⟩, fun _ => ⟨x, hx, x.ofBytes_bytes⟩⟩

theorem pcieuniIoctlExp_tells (h : pcieuniIoctlExp env verMaj verMin dv cmd arg = .ok (dv', r)) :
    Tells (Answers env verMaj verMin dv.slotNum dv.revision cmd) r.ret r.copied := by
  simp only [pcieuniIoctlExp] at h
  split at h
  · cases h
    exact tells_nothing (by decide)
  split at h
  · cases h
    exact tells_nothing (by decide)
  split at h
  · cases h
    exact tells_nothing (by decide)
  · cases h
  have hcopy : ∀ {dv₁ : PcieuniDev} {data : DeviceIoctrlData} {log : List Effect},
      Answers env verMaj verMin dv.slotNum dv.revision cmd data →
      ioctlCopyOut env dv₁ data log = (dv', r) →
      Tells (Answers env verMaj verMin dv.slotNum dv.revision cmd) r.ret r.copied := by
    intro dv₁ data log hdata heq
    have hr : (ioctlCopyOut env dv₁ data log).2 = r := congrArg Prod.snd heq
    rw [← hr]
    exact ioctlCopyOut_tells hdata dv₁ log
  split at h
  · rename_i hcmd
    split at h
    · cases h
      exact tells_nothing (by decide)
    · rename_i asked hasked
      exact hcopy (.inl ⟨hcmd, asked, hasked, rfl⟩) (Except.ok.inj h)
  split at h
  · rename_i hcmd
    exact hcopy (.inr (.inl ⟨hcmd, rfl, rfl⟩)) (Except.ok.inj h)
  split at h
  · rename_i hcmd
    split at h
    · cases h
    · exact hcopy (.inr (.inr ⟨hcmd, rfl, rfl⟩)) (Except.ok.inj h)
  · cases h
    exact tells_nothing (by decide)

end OneCall

/-! ## Whole runs -/

/-- What a probe has recorded of the device that ioctls answer with. -/
theorem probeDevice_identity {env : ProbeEnv} {regs : Regs} {major : Int} {d : PciDev} {k : Slot}
    {dv dv' : PcieuniDev} {log : List Effect}
    (h : probeDevice env regs major d k dv = .ok (dv', log)) :
    dv'.slotNum = (env.sltCap >>> 19).toNat ∧ dv'.revision = env.revision := by
  obtain ⟨found', logInfo, hdisc, rfl, -⟩ := probeDevice_steps h
  have hbars := setupBars_barsOnly env d allBars (setupIdentity env d dv)
  generalize (setupBars env d allBars (setupIdentity env d dv)).1 = found at hdisc hbars
  obtain ⟨irqFlag, hmsi, -⟩ := setupMsi_eq env d found'
  have hinfo := discover_infoOnly hdisc
  unfold PcieuniDev.InfoOnly at hinfo
  unfold PcieuniDev.BarsOnly at hbars
  rw [hmsi]
  constructor
  · exact (congrArg (·.slotNum) hinfo).trans (congrArg (·.slotNum) hbars)
  · exact (congrArg (·.revision) hinfo).trans (congrArg (·.revision) hbars)

namespace Driver

variable {s s' : Driver} {r : OpRet}

/-- The slot of a successful probe knows the device. -/
theorem exec_probe_identity {env : ProbeEnv} {d : PciDev} {k : Slot}
    (h : s.exec (.probe env d) = .ok (s', r)) (hret : r.ret = 0) (hk : s'.drvdata d = some k) :
    (s'.dev k).slotNum = (env.sltCap >>> 19).toNat ∧ (s'.dev k).revision = env.revision := by
  obtain ⟨s₁, r₁, hprobe, rfl, rfl⟩ := exec_probe_call h
  rcases pcieuniProbeExp_exits hprobe with ⟨-, -, rfl⟩ | ⟨i, -, henable, -, rfl⟩ |
      ⟨i, -, -, hregions, -, rfl⟩ | ⟨i, dv, log, -, -, -, hdev, rfl, rfl⟩
  · cases hret
  · exact absurd hret henable
  · exact absurd hret hregions
  · replace hk : Function.update s.drvdata d (some i.castSucc) d = some k := hk
    rw [Function.update_self] at hk
    obtain rfl := Option.some.inj hk
    simpa using probeDevice_identity hdev

/-- Every ioctl on a file of the device, from its probe to its remove, tells what the
probe found, what the caller asked with, and the version of the driver. -/
theorem run_answers {s₀ : Driver} {r₀ : OpRet} {penv : ProbeEnv} {d : PciDev} {k : Slot}
    {tr : List (Transition Driver Op OpRet)} (hreach : driverLts.Reachable Admissible s₀)
    (hadm : s₀.Admissible (.probe penv d)) (hprobe : s₀.exec (.probe penv d) = .ok (s, r₀))
    (hret : r₀.ret = 0) (hk : s.drvdata d = some k) (hrun : driverLts.Run s tr s')
    (htr : ∀ t ∈ tr, t.pre.Admissible t.act ∧ ∀ devName, t.act ≠ .remove devName d) :
    ∀ t ∈ tr, ∀ (env : IoctlEnv) f cmd arg, t.act = .ioctl env f cmd arg →
      t.pre.privateData f = some k →
      ∃ bytes, t.pre.delivered t.act = .struct bytes ∧
        Tells (Answers env s₀.pcieuniDrvVerMaj s₀.pcieuniDrvVerMin (penv.sltCap >>> 19).toNat
          penv.revision cmd) t.out.ret bytes := by
  have hs₀ : s₀.SlotInv := hreach.invariant (fun _ => .of_init) fun _ _ _ _ hs hadm hstep =>
    hs.exec hadm (driverLts_step.mp hstep)
  have hbound : d ∈ s.bound := by
    rcases exec_probe hprobe with ⟨-, -, hneg⟩ | ⟨-, -, -, -, hne, -⟩ | ⟨i, dv, -, -, -, -, -, rfl⟩
    · rw [hret] at hneg
      cases hneg
    · exact absurd hret hne
    · exact List.mem_cons_self ..
  obtain ⟨hslotNum, hrevision⟩ := exec_probe_identity hprobe hret hk
  obtain ⟨hverMaj, hverMin⟩ := exec_versions hprobe
  have hs := hs₀.exec hadm hprobe
  have hall := (hrun.preserves stillBound_preserved
    (.refl hs (hs.serves_of_drvdata hbound hk)) htr).2
  intro t ht env f cmd arg hact hf
  have hstill := (hall t ht).1
  have hexec := driverLts_step.mp (hrun.step_of_mem ht)
  rw [hact] at hexec ⊢
  simp only [exec, hf] at hexec
  simp only [delivered, hf]
  cases hioctl : pcieuniIoctlExp env t.pre.pcieuniDrvVerMaj t.pre.pcieuniDrvVerMin (t.pre.dev k)
      cmd arg with
  | error e => rw [hioctl] at hexec; cases hexec
  | ok x =>
      have htells := pcieuniIoctlExp_tells hioctl
      rw [hstill.verMaj, hstill.verMin, hverMaj, hverMin, congrArg (·.slotNum) hstill.sameCard,
        congrArg (·.revision) hstill.sameCard] at htells
      rw [hslotNum, hrevision] at htells
      simp only [hioctl] at hexec
      have hout : x.2.ret = t.out.ret := congrArg (·.2.ret) (Except.ok.inj hexec)
      refine ⟨x.2.copied, rfl, ?_⟩
      rw [← hout]
      exact htells

/-- A card of revision 3 in slot 5 is asked for its place and for its firmware, with
another card coming and going. -/
theorem run_answers_two : ∃ s tr s',
    driverLts.Run s tr s' ∧ s.drvdata 7 = some 0 ∧
    tr.map (·.act) = [.openFile {} 0 1, .probe { fuel := 1 } 8,
      .ioctl { copyIn := some ⟨9, 0, 0, 11⟩, stack := ⟨0, 0, 0, 0⟩ } 1 pcieuniPhysicalSlot 0,
      .remove "gpcieuni" 8,
      .ioctl { copyIn := none, revision := 4, stack := ⟨1, 1, 1, 1⟩ } 1 pcieuniFirmwareVersion 0] ∧
    tr.map (·.out.ret) = [0, 0, 0, 0, 0] ∧
    ∀ t ∈ tr, ∀ (env : IoctlEnv) f cmd arg, t.act = .ioctl env f cmd arg →
      t.pre.privateData f = some 0 →
      ∃ bytes, t.pre.delivered t.act = .struct bytes ∧
        Tells (Answers env 1 2 5 3 cmd) t.out.ret bytes := by
  obtain ⟨s, r₀, hprobe, hret, hk, hrest⟩ : ∃ s r₀,
      (initial 250 1 2 fun _ _ _ => 0).exec
        (.probe { sltCap := 0x280000, revision := 3, fuel := 1 } 7) = .ok (s, r₀) ∧
      r₀.ret = 0 ∧ s.drvdata 7 = some 0 ∧ (driverLts.exec s [.openFile {} 0 1,
        .probe { fuel := 1 } 8,
        .ioctl { copyIn := some ⟨9, 0, 0, 11⟩, stack := ⟨0, 0, 0, 0⟩ } 1 pcieuniPhysicalSlot 0,
        .remove "gpcieuni" 8,
        .ioctl { copyIn := none, revision := 4, stack := ⟨1, 1, 1, 1⟩ } 1 pcieuniFirmwareVersion
          0]).map (fun r => (r.1.all fun t => decide (t.pre.Admissible t.act),
            r.1.map (·.out.ret))) = some (true, [0, 0, 0, 0, 0]) :=
    ⟨_, _, rfl, rfl, rfl, by decide +kernel⟩
  obtain ⟨tr, s', hrun, hacts, hend⟩ := Lts.Run.of_exec_map hrest
  obtain ⟨hadm, hrets⟩ := Prod.mk.inj hend
  refine ⟨s, tr, s', hrun, hk, hacts, hrets, ?_⟩
  apply run_answers ⟨_, [], ⟨250, 1, 2, _, rfl⟩, .nil _, by simp⟩ List.not_mem_nil hprobe hret hk
    hrun
  intro t ht
  refine ⟨of_decide_eq_true (List.all_eq_true.mp hadm t ht), fun devName hrem => ?_⟩
  have hact : t.act ∈ tr.map (·.act) := List.mem_map_of_mem ht
  simp [hacts, hrem] at hact

end Driver

end Gpcieuni
