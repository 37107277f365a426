-- SUMMARY: Board and project discovery of `pcieuni_ufn.c`: the board header, the project records, and the walks over the project chains.
import Gpcieuni.Device

/-!
# Board and project discovery

Discovery reads the standard register set of the firmware while a device is
probed. The loops end on a value that they read from the hardware, so they take
fuel. A pointer that comes out of a register passes through a signed `int`.
-/

namespace Gpcieuni

def asciiBoardMagicNum : BitVec 32 := 0x424F5244
def asciiProjMagicNum : BitVec 32 := 0x50524F4A
def asciiBoardMagicNumL : BitVec 32 := 0x626F7264

def wordBoardId : Int := 0x04
def wordBoardVersion : Int := 0x08
def wordBoardDate : Int := 0x0C
def wordBoardHwVersion : Int := 0x10
def wordBoardToProj : Int := 0x18

def wordProjId : Int := 0x04
def wordProjVersion : Int := 0x08
def wordProjDate : Int := 0x0C
def wordProjReserved : Int := 0x10
def wordProjNext : Int := 0x18

/-! ## The board -/

/-- `pcieuni_get_brdinfo`. Its result is the field `startup_brd`. A board
without the magic number leaves the board record as it was. -/
def pcieuniGetBrdinfo (regs : Regs) (dv : PcieuniDev) : PcieuniDev × List Effect :=
  let dv := { dv with startupBrd := 0 }
  match (dv.bar 0).memmoryBase with
  | none => (dv, [])
  | some m =>
    let magic := regs.ioread32 m 0
    if magic = asciiBoardMagicNum ∨ magic = asciiBoardMagicNumL then
      ({ dv with
          startupBrd := 1
          brdInfoList :=
            { dv.brdInfoList with
              boardId := regs.ioread32 m wordBoardId
              boardVersion := regs.ioread32 m wordBoardVersion
              boardDate := regs.ioread32 m wordBoardDate
              hwVersion := regs.ioread32 m wordBoardHwVersion
              projNext := regs.ioread32 m wordBoardToProj } },
        [.ioread32 m 0, .ioread32 m wordBoardId, .ioread32 m wordBoardVersion,
          .ioread32 m wordBoardDate, .ioread32 m wordBoardHwVersion, .ioread32 m wordBoardToProj])
    else (dv, [.ioread32 m 0])

/-! ## The projects -/

/-- The result of one `pcieuni_fill_prj_info`: the struct and the returned `int`. -/
structure FillRet where
  dv : PcieuniDev
  next : Int
  log : List Effect

/-- `pcieuni_fill_prj_info` at byte `base` of a mapping. `alloc i` says that the
`i`-th allocation of the walk succeeds; the result is used without a test. -/
def pcieuniFillPrjInfo (regs : Regs) (alloc : Nat → Bool) (m : Iomem) (base : Int)
    (dv : PcieuniDev) : Call FillRet :=
  if regs.ioread32 m base = asciiProjMagicNum then
    let dv := { dv with startupPrjNum := dv.startupPrjNum + 1 }
    if alloc dv.startupPrjNum.toNat then
      let next := regs.ioread32 m (base + wordProjNext)
      let prj : PrjInfo :=
        { projId := regs.ioread32 m (base + wordProjId)
          projVersion := regs.ioread32 m (base + wordProjVersion)
          projDate := regs.ioread32 m (base + wordProjDate)
          projReserved := regs.ioread32 m (base + wordProjReserved)
          projNext := next }
      .ok
        { dv :=
            { dv with
              brdInfoList := { dv.brdInfoList with projNext := 0 }
              prjInfoList := prj :: dv.prjInfoList }
          next := next.toInt
          log := [.ioread32 m base, .ioread32 m (base + wordProjId),
            .ioread32 m (base + wordProjVersion), .ioread32 m (base + wordProjDate),
            .ioread32 m (base + wordProjReserved), .ioread32 m (base + wordProjNext)] }
    else .error .oops
  else .ok { dv, next := 0, log := [.ioread32 m base] }

/-- The loop of `pcieuni_get_prjinfo` over the chain in BAR 0, from the offset
`next` on. -/
def prjWalk (regs : Regs) (alloc : Nat → Bool) (m : Iomem) :
    (fuel : Nat) → (next : Int) → PcieuniDev → Call (PcieuniDev × List Effect)
  | 0, _, _ => .error .unfinished
  | fuel + 1, next, dv =>
    if next = 0 then .ok (dv, [])
    else
      match pcieuniFillPrjInfo regs alloc m next dv with
      | .error e => .error e
      | .ok r =>
        match prjWalk regs alloc m fuel r.next r.dv with
        | .error e => .error e
        | .ok (dv, log) => .ok (dv, r.log ++ log)

/-- The loop of `pcieuni_get_prjinfo` over one of the BARs 1 to 5. Its second
variable stays zero, so every turn looks at the start of the BAR. -/
def prjWalkBar (regs : Regs) (alloc : Nat → Bool) (m : Iomem) :
    (fuel : Nat) → PcieuniDev → Call (PcieuniDev × List Effect)
  | 0, _ => .error .unfinished
  | fuel + 1, dv =>
    match pcieuniFillPrjInfo regs alloc m 0 dv with
    | .error e => .error e
    | .ok r =>
      if r.next = 0 then .ok (r.dv, r.log)
      else
        match prjWalkBar regs alloc m fuel r.dv with
        | .error e => .error e
        | .ok (dv, log) => .ok (dv, r.log ++ log)

/-- The walks over the BARs of a list, for those that are mapped. -/
def prjWalkBars (regs : Regs) (alloc : Nat → Bool) (fuel : Nat) :
    List (Fin 6) → PcieuniDev → Call (PcieuniDev × List Effect)
  | [], dv => .ok (dv, [])
  | n :: ns, dv =>
    match (dv.bar n).memmoryBase with
    | none => prjWalkBars regs alloc fuel ns dv
    | some m =>
      match prjWalkBar regs alloc m fuel dv with
      | .error e => .error e
      | .ok (dv, log) =>
        match prjWalkBars regs alloc fuel ns dv with
        | .error e => .error e
        | .ok (dv, log') => .ok (dv, log ++ log')

/-- `pcieuni_get_prjinfo`. Its result is the field `startup_prj_num`. -/
def pcieuniGetPrjinfo (regs : Regs) (alloc : Nat → Bool) (fuel : Nat) (dv : PcieuniDev) :
    Call (PcieuniDev × List Effect) :=
  let dv := { dv with startupPrjNum := 0 }
  let next := dv.brdInfoList.projNext.toInt
  if next ≠ 0 then
    match (dv.bar 0).memmoryBase with
    | none => .error .oops
    | some m => prjWalk regs alloc m fuel next dv
  else prjWalkBars regs alloc fuel [1, 2, 3, 4, 5] dv

/-! ## Walks as sequences of fills -/

/-- Calls of `pcieuni_fill_prj_info` one after the other, each on a mapping in
`M`, with what they read. -/
inductive Fills (regs : Regs) (alloc : Nat → Bool) (M : Iomem → Prop) :
    PcieuniDev → PcieuniDev → List Effect → Prop where
  | nil (dv : PcieuniDev) : Fills regs alloc M dv dv []
  | cons {m : Iomem} {base : Int} {dv dv' : PcieuniDev} {r : FillRet} {log : List Effect} :
      M m → pcieuniFillPrjInfo regs alloc m base dv = .ok r → Fills regs alloc M r.dv dv' log →
      Fills regs alloc M dv dv' (r.log ++ log)

section Fills

variable {regs : Regs} {alloc : Nat → Bool} {M : Iomem → Prop} {dv dv' : PcieuniDev}
  {log : List Effect}

theorem Fills.single {m : Iomem} {base : Int} {r : FillRet} (hm : M m)
    (h : pcieuniFillPrjInfo regs alloc m base dv = .ok r) :
    Fills regs alloc M dv r.dv r.log := by
  have hfills := Fills.cons hm h (.nil r.dv)
  rwa [List.append_nil] at hfills

theorem Fills.append {dv'' : PcieuniDev} {log' : List Effect} (h : Fills regs alloc M dv dv' log)
    (h' : Fills regs alloc M dv' dv'' log') : Fills regs alloc M dv dv'' (log ++ log') := by
  induction h with
  | nil => exact h'
  | cons hm hfill _ ih =>
      rw [List.append_assoc]
      exact .cons hm hfill (ih h')

theorem prjWalk_fills {m : Iomem} {fuel : Nat} {next : Int} (hm : M m)
    (h : prjWalk regs alloc m fuel next dv = .ok (dv', log)) : Fills regs alloc M dv dv' log := by
  induction fuel generalizing next dv log with
  | zero => cases h
  | succ fuel ih =>
      simp only [prjWalk] at h
      split at h
      · cases h; exact .nil _
      split at h
      · cases h
      rename_i r hr
      split at h
      · cases h
      rename_i dv₁ log₁ hrest
      cases h
      exact .cons hm hr (ih hrest)

theorem prjWalkBar_fills {m : Iomem} {fuel : Nat} (hm : M m)
    (h : prjWalkBar regs alloc m fuel dv = .ok (dv', log)) : Fills regs alloc M dv dv' log := by
  induction fuel generalizing dv log with
  | zero => cases h
  | succ fuel ih =>
      simp only [prjWalkBar] at h
      split at h
      · cases h
      rename_i r hr
      split at h
      · cases h; exact .single hm hr
      split at h
      · cases h
      rename_i dv₁ log₁ hrest
      cases h
      exact .cons hm hr (ih hrest)

/-! ## What discovery leaves alone -/

/-- Discovery writes the board record and the project records and nothing else
of the struct. -/
def PcieuniDev.InfoOnly (dv dv' : PcieuniDev) : Prop :=
  dv' = { dv with
    brdInfoList := dv'.brdInfoList
    prjInfoList := dv'.prjInfoList
    startupBrd := dv'.startupBrd
    startupPrjNum := dv'.startupPrjNum }

theorem PcieuniDev.InfoOnly.trans {dv₁ dv₂ dv₃ : PcieuniDev} (h : dv₁.InfoOnly dv₂)
    (h' : dv₂.InfoOnly dv₃) : dv₁.InfoOnly dv₃ := by
  unfold PcieuniDev.InfoOnly at *
  rw [h'] at *
  rw [h]

theorem pcieuniGetBrdinfo_infoOnly (regs : Regs) (dv : PcieuniDev) :
    dv.InfoOnly (pcieuniGetBrdinfo regs dv).1 := by
  simp only [pcieuniGetBrdinfo]
  split
  · rfl
  · split <;> rfl

theorem pcieuniFillPrjInfo_infoOnly {m : Iomem} {base : Int} {r : FillRet}
    (h : pcieuniFillPrjInfo regs alloc m base dv = .ok r) : dv.InfoOnly r.dv := by
  simp only [pcieuniFillPrjInfo] at h
  split at h
  · split at h
    · cases h; rfl
    · cases h
  · cases h; rfl

theorem Fills.infoOnly (h : Fills regs alloc M dv dv' log) : dv.InfoOnly dv' := by
  induction h with
  | nil => rfl
  | cons _ hfill _ ih => exact (pcieuniFillPrjInfo_infoOnly hfill).trans ih

theorem prjWalkBars_fills {fuel : Nat} {ns : List (Fin 6)}
    (hM : ∀ n m, (dv.bar n).memmoryBase = some m → M m)
    (h : prjWalkBars regs alloc fuel ns dv = .ok (dv', log)) : Fills regs alloc M dv dv' log := by
  induction ns generalizing dv log with
  | nil => cases h; exact .nil _
  | cons n ns ih =>
      simp only [prjWalkBars] at h
      split at h
      · exact ih hM h
      rename_i m hm
      split at h
      · cases h
      rename_i dv₁ log₁ hbar
      split at h
      · cases h
      rename_i dv₂ log₂ hrest
      cases h
      have hfills := prjWalkBar_fills (M := M) (hM n m hm) hbar
      have hsame : dv₁.bar = dv.bar := by rw [hfills.infoOnly]
      exact hfills.append (ih (by rw [hsame]; exact hM) hrest)

/-- Project discovery is a sequence of fills on the BARs that are mapped. -/
theorem pcieuniGetPrjinfo_fills {fuel : Nat}
    (h : pcieuniGetPrjinfo regs alloc fuel dv = .ok (dv', log)) :
    Fills regs alloc (fun m => ∃ n, (dv.bar n).memmoryBase = some m)
      { dv with startupPrjNum := 0 } dv' log := by
  simp only [pcieuniGetPrjinfo] at h
  split at h
  · split at h
    · cases h
    · rename_i m hm
      exact prjWalk_fills ⟨0, hm⟩ h
  · exact prjWalkBars_fills (fun n m hm => ⟨n, hm⟩) h

theorem pcieuniGetPrjinfo_infoOnly {fuel : Nat}
    (h : pcieuniGetPrjinfo regs alloc fuel dv = .ok (dv', log)) : dv.InfoOnly dv' := by
  have hreset : dv.InfoOnly { dv with startupPrjNum := 0 } := rfl
  exact hreset.trans (pcieuniGetPrjinfo_fills h).infoOnly

/-! ## What discovery reads -/

theorem pcieuniGetBrdinfo_log {e : Effect} (he : e ∈ (pcieuniGetBrdinfo regs dv).2) :
    ∃ n m, (dv.bar n).memmoryBase = some m ∧ e.through = some m := by
  simp only [pcieuniGetBrdinfo] at he
  split at he
  · cases he
  · rename_i m hm
    refine ⟨0, m, hm, ?_⟩
    split at he
    · simp only [List.mem_cons, List.not_mem_nil, or_false] at he
      rcases he with rfl | rfl | rfl | rfl | rfl | rfl <;> rfl
    · rw [List.mem_singleton.mp he]
      rfl

theorem pcieuniFillPrjInfo_log {m : Iomem} {base : Int} {r : FillRet}
    (h : pcieuniFillPrjInfo regs alloc m base dv = .ok r) {e : Effect} (he : e ∈ r.log) :
    e.through = some m := by
  simp only [pcieuniFillPrjInfo] at h
  split at h
  · split at h
    · cases h
      simp only [List.mem_cons, List.not_mem_nil, or_false] at he
      rcases he with rfl | rfl | rfl | rfl | rfl | rfl <;> rfl
    · cases h
  · cases h
    rw [List.mem_singleton.mp he]
    rfl

theorem Fills.through (h : Fills regs alloc M dv dv' log) {e : Effect} (he : e ∈ log) :
    ∃ m, M m ∧ e.through = some m := by
  induction h with
  | nil => cases he
  | @cons m _ _ _ _ _ hm hfill _ ih =>
      rcases List.mem_append.mp he with hmem | hmem
      · exact ⟨m, hm, pcieuniFillPrjInfo_log hfill hmem⟩
      · exact ih hmem

theorem pcieuniGetPrjinfo_log {fuel : Nat}
    (h : pcieuniGetPrjinfo regs alloc fuel dv = .ok (dv', log)) {e : Effect} (he : e ∈ log) :
    ∃ n m, (dv.bar n).memmoryBase = some m ∧ e.through = some m := by
  obtain ⟨m, ⟨n, hm⟩, hthrough⟩ := (pcieuniGetPrjinfo_fills h).through he
  exact ⟨n, m, hm, hthrough⟩

end Fills

end Gpcieuni
