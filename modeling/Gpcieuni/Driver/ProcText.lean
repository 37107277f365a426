-- SUMMARY: The text of the proc entry: it can be read back, and it does not change while the device is bound.
import Gpcieuni.Lib.PrefixCode
import Gpcieuni.Exports
import Gpcieuni.Driver.Slots

/-!
# The proc text

`pcieuni_procinfo` prints the record of a device line by line, and as many lines more
as there are projects. Each line ends at its newline, so the text can be taken apart
again from the front (`pcieuniProcinfo_iff`). No call between the probe of a device
and its remove changes what is printed (`exec_sameCard`).
-/

namespace Gpcieuni

attribute [ext] BrdInfo PrjInfo CdevVersions

/-! ## The values -/

theorem toString_nat_injective : Function.Injective fun n : Nat => (toString n).toList := by
  intro m n h
  have hdigits : Nat.toDigits 10 m = Nat.toDigits 10 n := by
    simpa [Nat.toString_eq_ofList_toDigits] using h
  rw [← Nat.ofDigitChars_ten_toDigits (n := m), hdigits, Nat.ofDigitChars_ten_toDigits]

theorem notMem_toString_nat {c : Char} (hc : c.isDigit = false) (n : Nat) :
    c ∉ (toString n).toList := by
  intro h
  have hdigit : c ∈ Nat.toDigits 10 n := by simpa [Nat.toString_eq_ofList_toDigits] using h
  rw [Nat.isDigit_of_mem_toDigits (by decide) (by decide) hdigit] at hc
  cases hc

/-- A number below zero is a sign and the digits of its absolute value. -/
theorem toString_int_toList (a : Int) : (toString a).toList =
    if 0 ≤ a then (toString a.toNat).toList else '-' :: (toString (-a).toNat).toList := by
  rw [Int.toString_eq_repr, Int.repr_eq_if]
  split
  · rfl
  · simp

theorem toString_int_injective : Function.Injective fun a : Int => (toString a).toList := by
  intro a b h
  have hsign : ∀ {l : List Char} {n : Nat}, '-' :: l ≠ (toString n).toList := by
    intro l n heq
    exact notMem_toString_nat (c := '-') (by decide) n (heq ▸ List.mem_cons_self ..)
  simp only [toString_int_toList] at h
  by_cases ha : 0 ≤ a
  · by_cases hb : 0 ≤ b
    · rw [if_pos ha, if_pos hb] at h
      have := toString_nat_injective h
      omega
    · rw [if_pos ha, if_neg hb] at h
      exact absurd h.symm hsign
  · by_cases hb : 0 ≤ b
    · rw [if_neg ha, if_pos hb] at h
      exact absurd h hsign
    · rw [if_neg ha, if_neg hb] at h
      have := toString_nat_injective (List.cons.inj h).2
      omega

theorem notMem_toString_int {c : Char} (hc : c.isDigit = false) (hsign : c ≠ '-') (a : Int) :
    c ∉ (toString a).toList := by
  rw [toString_int_toList]
  split
  · exact notMem_toString_nat hc _
  · simpa [hsign] using notMem_toString_nat hc _

theorem upperHex_injective : Function.Injective fun w => (upperHex w).toList := by
  intro w w' h
  have hdigit : ∀ x < 16, ∀ y < 16,
      (Nat.digitChar x).toUpper = (Nat.digitChar y).toUpper → x = y := by decide
  have hmap : (Nat.toDigits 16 w.toNat).map Char.toUpper =
      (Nat.toDigits 16 w'.toNat).map Char.toUpper := by
    simpa [upperHex] using h
  exact BitVec.eq_of_toNat_eq (Numeral.map_toDigits_injective (by decide) hdigit hmap)

theorem newline_notMem_upperHex (w : BitVec 32) : '\n' ∉ (upperHex w).toList := by
  intro h
  have hdigit : ∀ x < 16, (Nat.digitChar x).toUpper ≠ '\n' := by decide
  have hmem : '\n' ∈ (Nat.toDigits 16 w.toNat).map Char.toUpper := by simpa [upperHex] using h
  obtain ⟨c, hc, heq⟩ := List.mem_map.mp hmem
  obtain ⟨x, hx, rfl⟩ := Numeral.mem_toDigits (by decide) hc
  exact hdigit x hx heq

/-! ## The lines -/

theorem procLine_prefixCode {β : Type} {value : β → String} (name : String)
    (hinj : Function.Injective fun x => (value x).toList) (hnl : ∀ x, '\n' ∉ (value x).toList) :
    PrefixCode fun x => (procLine name (value x)).toList := by
  have hline := (PrefixCode.terminated hinj hnl).headed (name.toList ++ [':', '\t'])
  have heq : (fun x => (procLine name (value x)).toList) =
      fun x => name.toList ++ [':', '\t'] ++ ((value x).toList ++ ['\n']) := by
    funext x
    simp [procLine]
  rw [heq]
  exact hline

theorem intLine_prefixCode (name : String) :
    PrefixCode fun a : Int => (procLine name (toString a)).toList :=
  procLine_prefixCode name toString_int_injective (notMem_toString_int (by decide) (by decide))

theorem hexLine_prefixCode (name : String) :
    PrefixCode fun w => (procLine name (upperHex w)).toList :=
  procLine_prefixCode name upperHex_injective newline_notMem_upperHex

/-- The two parts of a version are told apart by the dot. -/
theorem versionLine_prefixCode (name : String) :
    PrefixCode fun p : BitVec 16 × BitVec 16 =>
      (procLine name (toString p.1.toNat ++ "." ++ toString p.2.toNat)).toList := by
  refine procLine_prefixCode name ?_ ?_
  · rintro ⟨major, minor⟩ ⟨major', minor'⟩ h
    have hdot := PrefixCode.terminated toString_nat_injective
      (notMem_toString_nat (c := '.') (by decide))
    have htext : (toString major.toNat).toList ++ ['.'] ++ (toString minor.toNat).toList =
        (toString major'.toNat).toList ++ ['.'] ++ (toString minor'.toNat).toList := by
      simpa using h
    obtain ⟨hmajor, hrest⟩ := hdot htext
    exact Prod.ext (BitVec.eq_of_toNat_eq hmajor)
      (BitVec.eq_of_toNat_eq (toString_nat_injective hrest))
  · rintro ⟨major, minor⟩ h
    have hmem : '\n' ∈ (toString major.toNat).toList ∨ '\n' ∈ (toString minor.toNat).toList := by
      simpa using h
    exact hmem.elim (notMem_toString_nat (by decide) _) (notMem_toString_nat (by decide) _)

theorem prjLines_prefixCode : PrefixCode fun p => (prjLines p).toList := by
  intro p q r r' h
  simp only [prjLines, String.toList_append, List.append_assoc] at h
  obtain ⟨hId, h₁⟩ := hexLine_prefixCode _ h
  obtain ⟨hVersion, h₂⟩ := hexLine_prefixCode _ h₁
  obtain ⟨hDate, h₃⟩ := hexLine_prefixCode _ h₂
  obtain ⟨hReserved, h₄⟩ := hexLine_prefixCode _ h₃
  obtain ⟨hNext, hrest⟩ := hexLine_prefixCode _ h₄
  exact ⟨PrjInfo.ext hId hVersion hDate hReserved hNext, hrest⟩

theorem prjLines_ne_nil (p : PrjInfo) : (prjLines p).toList ≠ [] := by
  simp [prjLines, procLine]

/-! ## The text -/

/-- The fields of the struct that the text shows. -/
structure PcieuniDev.SameReport (dv dv' : PcieuniDev) : Prop where
  brdNum : dv'.brdNum = dv.brdNum
  slotNum : dv'.slotNum = dv.slotNum
  brdInfoList : dv'.brdInfoList = dv.brdInfoList
  startupPrjNum : dv'.startupPrjNum = dv.startupPrjNum
  prjInfoList : dv'.prjInfoList = dv.prjInfoList

namespace PcieuniDev

variable {dv dv' dv'' : PcieuniDev}

theorem SameReport.refl (dv : PcieuniDev) : dv.SameReport dv := ⟨rfl, rfl, rfl, rfl, rfl⟩

theorem SameReport.symm (h : dv.SameReport dv') : dv'.SameReport dv :=
  ⟨h.brdNum.symm, h.slotNum.symm, h.brdInfoList.symm, h.startupPrjNum.symm, h.prjInfoList.symm⟩

theorem SameReport.trans (h : dv.SameReport dv') (h' : dv'.SameReport dv'') :
    dv.SameReport dv'' :=
  ⟨h'.brdNum.trans h.brdNum, h'.slotNum.trans h.slotNum, h'.brdInfoList.trans h.brdInfoList,
    h'.startupPrjNum.trans h.startupPrjNum, h'.prjInfoList.trans h.prjInfoList⟩

end PcieuniDev

/-- Two texts are the same exactly if they show the same. -/
theorem pcieuniProcinfo_eq_iff {v v' : CdevVersions} {dv dv' : PcieuniDev} :
    pcieuniProcinfo v' dv' = pcieuniProcinfo v dv ↔ v' = v ∧ dv.SameReport dv' := by
  constructor
  · intro h
    have h := congrArg String.toList h
    simp only [pcieuniProcinfo, String.toList_append, String.toList_join, List.flatMap_map,
      List.append_assoc] at h
    obtain ⟨hgpcieuni, h₁⟩ :=
      @versionLine_prefixCode _ (v'.gpcieuniVerMaj, _) (v.gpcieuniVerMaj, _) _ _ h
    obtain ⟨hdriver, h₂⟩ :=
      @versionLine_prefixCode _ (v'.pcieuniDrvVerMaj, _) (v.pcieuniDrvVerMaj, _) _ _ h₁
    obtain ⟨hbrdNum, h₃⟩ := intLine_prefixCode _ h₂
    obtain ⟨hslotNum, h₄⟩ := intLine_prefixCode _ h₃
    obtain ⟨hboardId, h₅⟩ := hexLine_prefixCode _ h₄
    obtain ⟨hboardVersion, h₆⟩ := hexLine_prefixCode _ h₅
    obtain ⟨hboardDate, h₇⟩ := hexLine_prefixCode _ h₆
    obtain ⟨hhwVersion, h₈⟩ := hexLine_prefixCode _ h₇
    obtain ⟨hprojNext, h₉⟩ := hexLine_prefixCode _ h₈
    obtain ⟨hboardReserved, h₁₀⟩ := hexLine_prefixCode _ h₉
    obtain ⟨hnum, hprojects⟩ := intLine_prefixCode _ h₁₀
    have hprj := prjLines_prefixCode.flatMap_injective prjLines_ne_nil hprojects
    have hbrd : dv'.brdInfoList = dv.brdInfoList :=
      BrdInfo.ext hboardId hboardVersion hboardDate hhwVersion hboardReserved hprojNext
    have hversions : v' = v :=
      CdevVersions.ext (Prod.mk.inj hgpcieuni).1 (Prod.mk.inj hgpcieuni).2
        (Prod.mk.inj hdriver).1 (Prod.mk.inj hdriver).2
    exact ⟨hversions, hbrdNum, hslotNum, hbrd, hnum, hprj⟩
  · rintro ⟨rfl, hbrdNum, hslotNum, hbrd, hnum, hprj⟩
    simp only [pcieuniProcinfo, hbrdNum, hslotNum, hbrd, hnum, hprj]

/-! ## While the device is bound -/

/-- Only the mutex, the minor number and what belongs to the open files differ. -/
def PcieuniDev.SameCard (dv dv' : PcieuniDev) : Prop :=
  dv' = { dv with
    devMut := dv'.devMut
    devMinor := dv'.devMinor
    devFileRef := dv'.devFileRef
    devFileList := dv'.devFileList }

namespace PcieuniDev

variable {dv dv' dv'' : PcieuniDev}

theorem SameCard.refl (dv : PcieuniDev) : dv.SameCard dv := rfl

theorem SameCard.trans (h : dv.SameCard dv') (h' : dv'.SameCard dv'') : dv.SameCard dv'' := by
  unfold SameCard at h h' ⊢
  rw [h', h]

theorem SameCard.sameReport (h : dv.SameCard dv') : dv.SameReport dv' where
  brdNum := congrArg (·.brdNum) h
  slotNum := congrArg (·.slotNum) h
  brdInfoList := congrArg (·.brdInfoList) h
  startupPrjNum := congrArg (·.startupPrjNum) h
  prjInfoList := congrArg (·.prjInfoList) h

end PcieuniDev

namespace Driver

theorem sameCard_setDev {s : Driver} {j k : Slot} {dv : PcieuniDev}
    (h : (s.dev j).SameCard dv) : (s.dev k).SameCard ((s.setDev j dv).dev k) :=
  setDev_forall (Q := fun k dv => (s.dev k).SameCard dv) h (fun k _ => .refl (s.dev k)) k

/-- No call but the remove of a device changes what the driver knows of it. -/
theorem exec_sameCard {s s' : Driver} {op : Op} {r : OpRet} {d : PciDev} {k : Slot}
    (hs : s.SlotInv) (hadm : s.Admissible op) (h : s.exec op = .ok (s', r)) (hd : s.Serves d k)
    (hop : ∀ devName, op ≠ .remove devName d) : (s.dev k).SameCard (s'.dev k) := by
  have hother : ∀ {j : Slot} {dv : PcieuniDev}, k ≠ j →
      (s.dev k).SameCard ((s.setDev j dv).dev k) := by
    intro j dv hne
    rw [setDev_dev_ne hne]
    exact .refl _
  cases op with
  | probe env d' =>
      rcases exec_probe h with ⟨-, rfl, -⟩ | ⟨i, drvdata, hslot, -, -, -, rfl⟩ |
          ⟨i, dv, hslot, -, -, -, -, rfl⟩
      · exact .refl _
      · exact hother (hd.ne_free hslot)
      · exact hother (hd.ne_free hslot)
  | remove devName d' =>
      obtain ⟨j, dv, hj, -, -, -, -, rfl⟩ := exec_remove h
      have hne : d ≠ d' := fun heq => hop devName (heq ▸ rfl)
      exact hother (hd.slot_ne (hs.serves_of_drvdata hadm hj) hne)
  | openFile env j f =>
      rcases exec_openFile h with ⟨-, -, rfl⟩ | ⟨-, -, -, rfl⟩
      · exact sameCard_setDev rfl
      · exact sameCard_setDev (s := s) rfl
  | release intr f =>
      obtain ⟨j, -, ⟨-, -, rfl⟩ | ⟨-, -, -, rfl⟩⟩ := exec_release h
      · exact .refl _
      · exact sameCard_setDev (s := s) rfl
  | read env f buf count fPos =>
      obtain ⟨j, -, rfl, -⟩ := exec_read h
      exact .refl _
  | write env f buf count fPos =>
      obtain ⟨j, regs, -, rfl, -⟩ := exec_write h
      exact .refl _
  | ioctl env f cmd arg =>
      obtain ⟨j, -, -, -, ⟨rfl, -⟩ | ⟨-, -, -, -, rfl⟩⟩ := exec_ioctl h
      · exact .refl _
      · exact sameCard_setDev rfl

/-- The version of the driver stays what it was at its initialisation. -/
theorem exec_versions {s s' : Driver} {op : Op} {r : OpRet} (h : s.exec op = .ok (s', r)) :
    s'.pcieuniDrvVerMaj = s.pcieuniDrvVerMaj ∧ s'.pcieuniDrvVerMin = s.pcieuniDrvVerMin := by
  cases op with
  | probe env d =>
      rcases exec_probe h with ⟨-, rfl, -⟩ | ⟨i, drvdata, -, -, -, -, rfl⟩ |
          ⟨i, dv, -, -, -, -, -, rfl⟩ <;> exact ⟨rfl, rfl⟩
  | remove devName d =>
      obtain ⟨k, dv, -, -, -, -, -, rfl⟩ := exec_remove h
      exact ⟨rfl, rfl⟩
  | openFile env k f =>
      rcases exec_openFile h with ⟨-, -, rfl⟩ | ⟨-, -, -, rfl⟩ <;> exact ⟨rfl, rfl⟩
  | release intr f =>
      obtain ⟨k, -, ⟨-, -, rfl⟩ | ⟨-, -, -, rfl⟩⟩ := exec_release h <;> exact ⟨rfl, rfl⟩
  | read env f buf count fPos =>
      obtain ⟨k, -, rfl, -⟩ := exec_read h
      exact ⟨rfl, rfl⟩
  | write env f buf count fPos =>
      obtain ⟨k, regs, -, rfl, -⟩ := exec_write h
      exact ⟨rfl, rfl⟩
  | ioctl env f cmd arg =>
      obtain ⟨k, -, -, -, ⟨rfl, -⟩ | ⟨-, -, -, -, rfl⟩⟩ := exec_ioctl h <;> exact ⟨rfl, rfl⟩

/-- The device `d` is bound to slot `k`, as it was in the state `s`. -/
structure StillBound (s : Driver) (d : PciDev) (k : Slot) (s' : Driver) : Prop where
  slots : s'.SlotInv
  serves : s'.Serves d k
  sameCard : (s.dev k).SameCard (s'.dev k)
  verMaj : s'.pcieuniDrvVerMaj = s.pcieuniDrvVerMaj
  verMin : s'.pcieuniDrvVerMin = s.pcieuniDrvVerMin

section StillBound

variable {d : PciDev} {k : Slot} {s s' : Driver}

theorem StillBound.refl (hs : s.SlotInv) (hd : s.Serves d k) : StillBound s d k s :=
  ⟨hs, hd, .refl _, rfl, rfl⟩

theorem stillBound_preserved : ∀ s₁ a s₂ e, StillBound s d k s₁ →
    s₁.Admissible a ∧ (∀ devName, a ≠ .remove devName d) →
    driverLts.step s₁ a = some (s₂, e) → StillBound s d k s₂ := by
  rintro s₁ a s₂ e hs₁ ⟨hadm, hop⟩ hstep
  have h := driverLts_step.mp hstep
  obtain ⟨hmaj, hmin⟩ := exec_versions h
  exact ⟨hs₁.slots.exec hadm h, exec_serves hs₁.slots hadm h hs₁.serves hop,
    hs₁.sameCard.trans (exec_sameCard hs₁.slots hadm h hs₁.serves hop), hmaj.trans hs₁.verMaj,
    hmin.trans hs₁.verMin⟩

/-- As long as the device `d` stays bound, a text is the one of its proc entry exactly if
it shows the record that the device had when it was bound. -/
theorem run_procText_iff {tr : List (Transition Driver Op OpRet)}
    (hreach : driverLts.Reachable Admissible s) (hd : s.Serves d k) (hrun : driverLts.Run s tr s')
    (htr : ∀ t ∈ tr, t.pre.Admissible t.act ∧ ∀ devName, t.act ≠ .remove devName d)
    (v v' : CdevVersions) (dv : PcieuniDev) :
    pcieuniProcinfo v' dv = pcieuniProcinfo v (s'.dev k) ↔ v' = v ∧ (s.dev k).SameReport dv := by
  have hs : s.SlotInv := hreach.invariant (fun _ => .of_init) fun _ _ _ _ hs hadm hstep =>
    hs.exec hadm (driverLts_step.mp hstep)
  have hsame := (hrun.preserves stillBound_preserved (.refl hs hd) htr).1.sameCard.sameReport
  rw [pcieuniProcinfo_eq_iff]
  constructor
  · rintro ⟨hv, hdv⟩
    exact ⟨hv, hsame.trans hdv⟩
  · rintro ⟨hv, hdv⟩
    exact ⟨hv, hsame.symm.trans hdv⟩

end StillBound

/-- The entry of the first of two devices, while its file is used and the other device
is removed. -/
theorem run_procText_iff_two : ∃ s tr s', driverLts.Reachable Admissible s ∧ s.Serves 7 0 ∧
    driverLts.Run s tr s' ∧
    tr.map (·.act) = [.openFile {} 0 1, .write { fuel := 2 } 1 (fun _ => 5) 4 0,
      .remove "gpcieuni" 8, .release false 1] ∧
    ∀ v v' dv, pcieuniProcinfo v' dv = pcieuniProcinfo v (s'.dev 0) ↔
      v' = v ∧ (s.dev 0).SameReport dv := by
  have hexec : (driverLts.exec (initial 250 1 0 fun _ _ _ => 0)
      [.probe { fuel := 1 } 7, .probe { fuel := 1 } 8]).map (fun r₁ =>
        (r₁.1.all fun t => decide (t.pre.Admissible t.act),
          decide (7 ∈ r₁.2.bound ∧ r₁.2.drvdata 7 = some 0),
          (driverLts.exec r₁.2 [.openFile {} 0 1, .write { fuel := 2 } 1 (fun _ => 5) 4 0,
            .remove "gpcieuni" 8, .release false 1]).map fun r₂ =>
              r₂.1.all fun t => decide (t.pre.Admissible t.act))) =
      some (true, true, some true) := by
    decide +kernel
  obtain ⟨tr₁, s, hrun₁, -, hend₁⟩ := Lts.Run.of_exec_map hexec
  obtain ⟨hadm₁, hrest⟩ := Prod.mk.inj hend₁
  obtain ⟨hslot, hrest⟩ := Prod.mk.inj hrest
  obtain ⟨hbound, hdrv⟩ := of_decide_eq_true hslot
  obtain ⟨tr, s', hrun, hacts, hadm⟩ := Lts.Run.of_exec_map hrest
  have hreach : driverLts.Reachable Admissible s :=
    ⟨_, tr₁, ⟨250, 1, 0, _, rfl⟩, hrun₁, fun t ht =>
      of_decide_eq_true (List.all_eq_true.mp hadm₁ t ht)⟩
  have hslots : s.SlotInv := hreach.invariant (fun _ => .of_init) fun _ _ _ _ hs hadm hstep =>
    hs.exec hadm (driverLts_step.mp hstep)
  have hd := hslots.serves_of_drvdata hbound hdrv
  refine ⟨s, tr, s', hreach, hd, hrun, hacts, run_procText_iff hreach hd hrun fun t ht => ?_⟩
  refine ⟨of_decide_eq_true (List.all_eq_true.mp hadm t ht), fun devName hrem => ?_⟩
  have hact : t.act ∈ tr.map (·.act) := List.mem_map_of_mem ht
  simp [hacts, hrem] at hact

end Driver

end Gpcieuni
