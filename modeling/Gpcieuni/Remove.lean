-- SUMMARY: Unbinding a PCI device: `pcieuni_remove_exp`.
import Gpcieuni.Probe

/-!
# Remove

The part of `pcieuni_remove_exp` that runs under the device mutex is split at
the places where another thread can see the device: each BAR is unmapped on its
own, then the slot is closed and its files are handed to the null device.
-/

namespace Gpcieuni

/-- Give up BAR `n` if it is mapped. A BAR that is not mapped keeps its fields. -/
def unmapBar (n : Fin 6) (dv : PcieuniDev) : PcieuniDev × List Effect :=
  match (dv.bar n).memmoryBase with
  | none => (dv, [])
  | some m => (dv.setBar n {}, [.pciIounmap m])

/-- The six blocks that unmap a BAR, one after the other. -/
def unmapBars : List (Fin 6) → PcieuniDev → PcieuniDev × List Effect
  | [], dv => (dv, [])
  | n :: ns, dv =>
    let r := unmapBar n dv
    let rs := unmapBars ns r.1
    (rs.1, r.2 ++ rs.2)

/-- The interrupt is released if it was requested, and MSI is disabled if it was
enabled. -/
def releaseInterrupts (k : Slot) (dv : PcieuniDev) : List Effect :=
  (if dv.irqMode ≠ 0 then [Effect.freeIrq dv.pciDevIrq k] else []) ++
    (if dv.msi ≠ 0 then [Effect.pciDisableMsi dv.pcieuniPciDev] else [])

/-- Point the `private_data` of every file on a list to the null device. -/
def detachFiles (es : List FileEntry) (files : List OpenFile) : List OpenFile :=
  files.map fun o => if o.filp ∈ es.map (·.filp) then { o with privateData := nullSlot } else o

/-- The result of a remove: the returned value and what it wrote to `*brd_num`. -/
structure RemoveRet where
  ret : Int
  brdNum : Int
  log : List Effect

/-- `pcieuni_remove_exp`. -/
def pcieuniRemoveExp (devName : String) (d : PciDev) (s : Driver) : Call (Driver × RemoveRet) :=
  match s.drvdata d with
  | none => .error .oops
  | some k =>
    let dv := s.dev k
    let slotNum := dv.slotNum
    let dv := { dv with prjInfoList := [] }
    let logIrq := releaseInterrupts k dv
    match mutexLock dv.devMut, dv.pcieuniPciDev with
    | .acquired, some p =>
      let dv := { dv with devMut := true }
      let (dv, logBars) := unmapBars allBars dv
      let es := dv.devFileList
      let dv := { dv with devSts := 0, binded := 0, devFileList := [], devMut := false }
      .ok ({ s.setDev k dv with
          pcieuniModuleNum := s.pcieuniModuleNum - 1
          files := detachFiles es s.files },
        { ret := 0
          brdNum := slotNum
          log := logIrq ++ logBars ++
            [.pciReleaseRegions p, .deviceDestroy (mkdev s.pcieuniMajor dv.brdNum),
              .procRemove (entryName devName slotNum), .pciDisableDevice d] ++
            es.map fun e => .setPrivateData e.filp nullSlot })
    | .acquired, none => .error .oops
    | _, _ => .error .blocked

/-! ## What a remove establishes -/

theorem unmapBar_barsOnly (n : Fin 6) (dv : PcieuniDev) : dv.BarsOnly (unmapBar n dv).1 := by
  simp only [unmapBar]
  split <;> rfl

theorem unmapBar_ne {m n : Fin 6} {dv : PcieuniDev} (h : m ≠ n) :
    (unmapBar n dv).1.bar m = dv.bar m := by
  simp only [unmapBar]
  split
  · rfl
  · simp [h]

theorem unmapBar_self (n : Fin 6) (dv : PcieuniDev) :
    ((unmapBar n dv).1.bar n).memmoryBase = none := by
  simp only [unmapBar]
  split
  · assumption
  · simp

theorem unmapBars_barsOnly (ns : List (Fin 6)) (dv : PcieuniDev) :
    dv.BarsOnly (unmapBars ns dv).1 := by
  induction ns generalizing dv with
  | nil => rfl
  | cons n ns ih => exact (unmapBar_barsOnly n dv).trans (ih _)

/-- A BAR without a mapping stays so, and a BAR on the list loses its mapping. -/
theorem unmapBars_unmapped (ns : List (Fin 6)) {n : Fin 6} (dv : PcieuniDev)
    (h : n ∈ ns ∨ (dv.bar n).memmoryBase = none) :
    ((unmapBars ns dv).1.bar n).memmoryBase = none := by
  induction ns generalizing dv with
  | nil => simpa [unmapBars] using h
  | cons n' ns ih =>
      apply ih (unmapBar n' dv).1
      by_cases hn : n = n'
      · subst hn
        exact .inr (unmapBar_self n dv)
      · rcases h with hmem | hnone
        · exact .inl (by simpa [hn] using hmem)
        · exact .inr (by rw [unmapBar_ne hn]; exact hnone)

/-- Unmapping only unmaps. -/
theorem unmapBars_log (ns : List (Fin 6)) (dv : PcieuniDev) {e : Effect}
    (h : e ∈ (unmapBars ns dv).2) : ∃ m, e = .pciIounmap m := by
  induction ns generalizing dv with
  | nil => simp [unmapBars] at h
  | cons n ns ih =>
      simp only [unmapBars, List.mem_append] at h
      rcases h with hbar | hrest
      · simp only [unmapBar] at hbar
        split at hbar
        · simp at hbar
        · rename_i m _
          exact ⟨m, by simpa using hbar⟩
      · exact ih _ hrest

theorem releaseInterrupts_log {k : Slot} {dv : PcieuniDev} {e : Effect}
    (h : e ∈ releaseInterrupts k dv) :
    e = .freeIrq dv.pciDevIrq k ∨ e = .pciDisableMsi dv.pcieuniPciDev := by
  simp only [releaseInterrupts, List.mem_append] at h
  rcases h with hirq | hmsi
  · split at hirq
    · exact .inl (by simpa using hirq)
    · simp at hirq
  · split at hmsi
    · exact .inr (by simpa using hmsi)
    · simp at hmsi

/-- The struct after a remove, as far as the rest of the driver depends on it. -/
structure Removed (dv dv' : PcieuniDev) : Prop where
  binded : dv'.binded = 0
  devSts : dv'.devSts = 0
  unmapped : ∀ n, (dv'.bar n).memmoryBase = none
  devMut : dv'.devMut = false
  devFileRef : dv'.devFileRef = dv.devFileRef
  devFileList : dv'.devFileList = []
  brdNum : dv'.brdNum = dv.brdNum

/-- A remove that returns has gone all the way. -/
theorem pcieuniRemoveExp_exit {devName : String} {d : PciDev} {s s' : Driver} {r : RemoveRet}
    (h : pcieuniRemoveExp devName d s = .ok (s', r)) :
    ∃ k p dv logBars, s.drvdata d = some k ∧ (s.dev k).devMut = false ∧
      (s.dev k).pcieuniPciDev = some p ∧
      unmapBars allBars { s.dev k with prjInfoList := [], devMut := true } = (dv, logBars) ∧
      s' = { s.setDev k { dv with devSts := 0, binded := 0, devFileList := [], devMut := false } with
        pcieuniModuleNum := s.pcieuniModuleNum - 1
        files := detachFiles (s.dev k).devFileList s.files } ∧
      r.ret = 0 ∧ r.brdNum = (s.dev k).slotNum ∧
      r.log = releaseInterrupts k (s.dev k) ++ logBars ++
        [.pciReleaseRegions p, .deviceDestroy (mkdev s.pcieuniMajor (s.dev k).brdNum),
          .procRemove (entryName devName (s.dev k).slotNum), .pciDisableDevice d] ++
        (s.dev k).devFileList.map fun e => .setPrivateData e.filp nullSlot := by
  simp only [pcieuniRemoveExp] at h
  split at h
  · cases h
  rename_i k hk
  split at h
  · rename_i p hlock hp
    have hbars := unmapBars_barsOnly allBars { s.dev k with prjInfoList := [], devMut := true }
    generalize hres : unmapBars allBars { s.dev k with prjInfoList := [], devMut := true } = res
      at h hbars
    obtain ⟨dv, logBars⟩ := res
    unfold PcieuniDev.BarsOnly at hbars
    simp only at h hbars
    have hfiles : dv.devFileList = (s.dev k).devFileList := by rw [hbars]
    have hbrd : dv.brdNum = (s.dev k).brdNum := by rw [hbars]
    cases h
    refine ⟨k, p, dv, logBars, hk, mutexLock_acquired.mp hlock, hp, hres, by rw [hfiles], rfl, rfl, ?_⟩
    simp only [hfiles, hbrd]
    rfl
  · cases h
  · cases h

/-- What a remove that returns did. The writes to `private_data` are those of the
files on the slot's list. -/
theorem pcieuniRemoveExp_cases {devName : String} {d : PciDev} {s s' : Driver} {r : RemoveRet}
    (h : pcieuniRemoveExp devName d s = .ok (s', r)) :
    ∃ k dv, s.drvdata d = some k ∧ (s.dev k).devMut = false ∧ r.ret = 0 ∧
      Removed (s.dev k) dv ∧
      (∀ f j, .setPrivateData f j ∈ r.log → f ∈ (s.dev k).devFileList.map (·.filp)) ∧
      s' = { s.setDev k dv with
        pcieuniModuleNum := s.pcieuniModuleNum - 1
        files := detachFiles (s.dev k).devFileList s.files } := by
  obtain ⟨k, p, dv, logBars, hk, hfree, -, hunmap, rfl, hret, -, hlog⟩ := pcieuniRemoveExp_exit h
  have hbars := unmapBars_barsOnly allBars { s.dev k with prjInfoList := [], devMut := true }
  have hnone := fun n => unmapBars_unmapped allBars
    { s.dev k with prjInfoList := [], devMut := true } (.inl (mem_allBars n))
  have hmaps := fun e => unmapBars_log allBars (e := e)
    { s.dev k with prjInfoList := [], devMut := true }
  simp only [hunmap, PcieuniDev.BarsOnly] at hbars hnone hmaps
  have hremoved : Removed (s.dev k)
      { dv with devSts := 0, binded := 0, devFileList := [], devMut := false } :=
    ⟨rfl, rfl, hnone, rfl, by rw [hbars], rfl, by rw [hbars]⟩
  refine ⟨k, _, hk, hfree, hret, hremoved, ?_, rfl⟩
  intro f j hmem
  simp only [hlog, List.mem_append, List.mem_map] at hmem
  rcases hmem with ((hirq | hbar) | hfix) | ⟨e, he, heq⟩
  · rcases releaseInterrupts_log hirq with heq | heq <;> cases heq
  · obtain ⟨m, heq⟩ := hmaps _ hbar
    cases heq
  · simp at hfix
  · cases heq
    exact List.mem_map_of_mem he

end Gpcieuni
