-- SUMMARY: What project discovery finds: the chain of project blocks in BAR 0, and the list of records that the walk builds from it.
import Gpcieuni.Discovery

/-!
# Discovery: specification

A chain is what the firmware lays out: project blocks that point to each other.
It is finite when it can be built by `Chain`, whose list holds the records in
the order of the chain. The walk inserts at the head, so it ends with the list
reversed.
-/

namespace Gpcieuni

/-! ## Chains -/

/-- The record of the project block at byte `off` of a mapping. -/
def prjAt (regs : Regs) (m : Iomem) (off : Int) : PrjInfo where
  projId := regs.ioread32 m (off + wordProjId)
  projVersion := regs.ioread32 m (off + wordProjVersion)
  projDate := regs.ioread32 m (off + wordProjDate)
  projReserved := regs.ioread32 m (off + wordProjReserved)
  projNext := regs.ioread32 m (off + wordProjNext)

/-- The chain from the pointer `off` on: it ends at a zero pointer or at a block
without the magic number, and every pointer to a block fits a signed `int`. -/
inductive Chain (regs : Regs) (m : Iomem) : (off : BitVec 32) → List PrjInfo → Prop where
  | zero : Chain regs m 0 []
  | noMagic {off : BitVec 32} (hne : off ≠ 0) (hfit : off.toNat < 2 ^ 31)
      (hmagic : regs.ioread32 m off.toNat ≠ asciiProjMagicNum) : Chain regs m off []
  | block {off : BitVec 32} {l : List PrjInfo} (hne : off ≠ 0) (hfit : off.toNat < 2 ^ 31)
      (hmagic : regs.ioread32 m off.toNat = asciiProjMagicNum)
      (hrest : Chain regs m (regs.ioread32 m (off.toNat + wordProjNext)) l) :
      Chain regs m off (prjAt regs m off.toNat :: l)

/-! ## The walk -/

section Walk

variable {regs : Regs} {alloc : Nat → Bool} {m : Iomem}

theorem pcieuniFillPrjInfo_magic {base : Int} (dv : PcieuniDev)
    (h : regs.ioread32 m base = asciiProjMagicNum)
    (halloc : alloc (dv.startupPrjNum + 1).toNat = true) :
    ∃ r, pcieuniFillPrjInfo regs alloc m base dv = .ok r ∧
      r.next = (regs.ioread32 m (base + wordProjNext)).toInt ∧
      r.dv.prjInfoList = prjAt regs m base :: dv.prjInfoList ∧
      r.dv.startupPrjNum = dv.startupPrjNum + 1 := by
  simp only [pcieuniFillPrjInfo, if_pos h, if_pos halloc]
  exact ⟨_, rfl, rfl, rfl, rfl⟩

theorem pcieuniFillPrjInfo_noMagic {base : Int} {dv : PcieuniDev}
    (h : regs.ioread32 m base ≠ asciiProjMagicNum) :
    pcieuniFillPrjInfo regs alloc m base dv = .ok ⟨dv, 0, [.ioread32 m base]⟩ := by
  simp only [pcieuniFillPrjInfo, if_neg h]

/-- The turn of the walk that looks at a block. -/
theorem prjWalk_succ {fuel : Nat} {next : Int} {dv dv' : PcieuniDev} {r : FillRet}
    {log : List Effect} (hne : next ≠ 0) (hfill : pcieuniFillPrjInfo regs alloc m next dv = .ok r)
    (hrest : prjWalk regs alloc m fuel r.next r.dv = .ok (dv', log)) :
    prjWalk regs alloc m (fuel + 1) next dv = .ok (dv', r.log ++ log) := by
  simp only [prjWalk, if_neg hne, hfill, hrest]

private theorem pointer_toInt {off : BitVec 32} (hne : off ≠ 0) (hfit : off.toNat < 2 ^ 31) :
    off.toInt = off.toNat ∧ off.toInt ≠ 0 := by
  have hint : off.toInt = off.toNat := BitVec.toInt_eq_toNat_of_lt (by omega)
  refine ⟨hint, fun hzero => hne (BitVec.eq_of_toNat_eq ?_)⟩
  simpa using hint.symm.trans hzero

/-- The walk over a chain puts its records in front of those that were there. -/
theorem prjWalk_chain {off : BitVec 32} {l : List PrjInfo} (h : Chain regs m off l) :
    ∀ (fuel : Nat) (dv : PcieuniDev), l.length + 1 < fuel →
      (∀ i < l.length, alloc (dv.startupPrjNum + (i + 1 : Nat)).toNat = true) →
      ∃ dv' log, prjWalk regs alloc m fuel off.toInt dv = .ok (dv', log) ∧
        dv'.prjInfoList = l.reverse ++ dv.prjInfoList ∧
        dv'.startupPrjNum = dv.startupPrjNum + l.length := by
  induction h with
  | zero =>
      intro fuel dv hfuel _
      obtain ⟨fuel, rfl⟩ : ∃ f, fuel = f + 1 := ⟨fuel - 1, by omega⟩
      exact ⟨dv, [], rfl, rfl, by simp⟩
  | noMagic hne hfit hmagic =>
      intro fuel dv hfuel _
      obtain ⟨fuel, rfl⟩ : ∃ f, fuel = f + 2 := ⟨fuel - 2, by simp at hfuel; omega⟩
      obtain ⟨hint, hzero⟩ := pointer_toInt hne hfit
      rw [← hint] at hmagic
      exact ⟨dv, _, prjWalk_succ hzero (pcieuniFillPrjInfo_noMagic hmagic) rfl, rfl, by simp⟩
  | @block off l hne hfit hmagic _ ih =>
      intro fuel dv hfuel halloc
      obtain ⟨fuel, rfl⟩ : ∃ f, fuel = f + 1 := ⟨fuel - 1, by omega⟩
      obtain ⟨hint, hzero⟩ := pointer_toInt hne hfit
      rw [← hint] at hmagic ih ⊢
      obtain ⟨r, hfill, hnext, hlist, hnum⟩ :=
        pcieuniFillPrjInfo_magic dv hmagic (by simpa using halloc 0 (by simp))
      have halloc' : ∀ i < l.length, alloc (r.dv.startupPrjNum + (i + 1 : Nat)).toNat = true := by
        intro i hi
        have hidx : r.dv.startupPrjNum + (i + 1 : Nat) =
            dv.startupPrjNum + (i + 1 + 1 : Nat) := by rw [hnum]; push_cast; omega
        rw [hidx]
        exact halloc (i + 1) (by simpa using hi)
      obtain ⟨dv', log, hwalk, hlist', hnum'⟩ := ih fuel r.dv (by simpa using hfuel) halloc'
      rw [← hnext] at hwalk
      refine ⟨dv', _, prjWalk_succ hzero hfill hwalk, ?_, ?_⟩
      · rw [hlist', hlist]
        simp
      · rw [hnum', hnum, List.length_cons]
        push_cast
        omega

/-- Project discovery on a device whose board record points to a chain. -/
theorem pcieuniGetPrjinfo_chain {dv : PcieuniDev} {l : List PrjInfo} {fuel : Nat}
    (hm : (dv.bar 0).memmoryBase = some m) (hnext : dv.brdInfoList.projNext ≠ 0)
    (hchain : Chain regs m dv.brdInfoList.projNext l)
    (halloc : ∀ i < l.length, alloc (i + 1) = true) (hfuel : l.length + 1 < fuel) :
    ∃ dv' log, pcieuniGetPrjinfo regs alloc fuel dv = .ok (dv', log) ∧
      dv'.prjInfoList = l.reverse ++ dv.prjInfoList ∧ dv'.startupPrjNum = l.length := by
  have hpointer : dv.brdInfoList.projNext.toInt ≠ 0 := by
    intro hzero
    exact hnext (BitVec.eq_of_toInt_eq (by simpa using hzero))
  obtain ⟨dv', log, hwalk, hlist, hnum⟩ := prjWalk_chain hchain fuel { dv with startupPrjNum := 0 }
    hfuel (fun i hi => by simpa using halloc i hi)
  refine ⟨dv', log, ?_, hlist, by simpa using hnum⟩
  simp only [pcieuniGetPrjinfo, if_pos hpointer, hm]
  exact hwalk

end Walk

/-! ## What project discovery depends on -/

/-- The same mappings, and the same records found so far. -/
structure PcieuniDev.SameInfo (dv₁ dv₂ : PcieuniDev) : Prop where
  mapped : ∀ n, (dv₂.bar n).memmoryBase = (dv₁.bar n).memmoryBase
  brdInfoList : dv₂.brdInfoList = dv₁.brdInfoList
  prjInfoList : dv₂.prjInfoList = dv₁.prjInfoList
  startupBrd : dv₂.startupBrd = dv₁.startupBrd
  startupPrjNum : dv₂.startupPrjNum = dv₁.startupPrjNum

section SameInfo

variable {regs : Regs} {alloc : Nat → Bool} {dv₁ dv₂ dv₁' : PcieuniDev} {log : List Effect}

theorem pcieuniFillPrjInfo_congr {m : Iomem} {base : Int} {r₁ : FillRet} (h : dv₁.SameInfo dv₂)
    (hok : pcieuniFillPrjInfo regs alloc m base dv₁ = .ok r₁) :
    ∃ r₂, pcieuniFillPrjInfo regs alloc m base dv₂ = .ok r₂ ∧ r₁.dv.SameInfo r₂.dv ∧
      r₂.next = r₁.next ∧ r₂.log = r₁.log := by
  obtain ⟨hmapped, hbrd, hprj, hstartup, hnum⟩ := h
  simp only [pcieuniFillPrjInfo] at hok ⊢
  split at hok
  · rename_i hmagic
    split at hok
    · rename_i halloc
      cases hok
      rw [if_pos hmagic, hnum, if_pos halloc]
      exact ⟨_, rfl, ⟨hmapped, by simp only [hbrd], by simp only [hprj], hstartup, rfl⟩, rfl, rfl⟩
    · cases hok
  · rename_i hmagic
    cases hok
    rw [if_neg hmagic]
    exact ⟨_, rfl, ⟨hmapped, hbrd, hprj, hstartup, hnum⟩, rfl, rfl⟩

theorem prjWalk_congr {m : Iomem} {fuel : Nat} {next : Int} (h : dv₁.SameInfo dv₂)
    (hok : prjWalk regs alloc m fuel next dv₁ = .ok (dv₁', log)) :
    ∃ dv₂', prjWalk regs alloc m fuel next dv₂ = .ok (dv₂', log) ∧ dv₁'.SameInfo dv₂' := by
  induction fuel generalizing next dv₁ dv₂ log with
  | zero => cases hok
  | succ fuel ih =>
      simp only [prjWalk] at hok ⊢
      split at hok
      · rename_i hzero
        cases hok
        exact ⟨dv₂, by rw [if_pos hzero], h⟩
      rename_i hzero
      split at hok
      · cases hok
      rename_i r₁ hfill
      split at hok
      · cases hok
      rename_i dv log₁ hrest
      cases hok
      obtain ⟨r₂, hfill₂, hsame, hnext, hlog⟩ := pcieuniFillPrjInfo_congr h hfill
      obtain ⟨dv₂', hrest₂, hsame'⟩ := ih hsame hrest
      refine ⟨dv₂', ?_, hsame'⟩
      rw [← hnext] at hrest₂
      simp only [if_neg hzero, hfill₂, hrest₂, hlog]

theorem prjWalkBar_congr {m : Iomem} {fuel : Nat} (h : dv₁.SameInfo dv₂)
    (hok : prjWalkBar regs alloc m fuel dv₁ = .ok (dv₁', log)) :
    ∃ dv₂', prjWalkBar regs alloc m fuel dv₂ = .ok (dv₂', log) ∧ dv₁'.SameInfo dv₂' := by
  induction fuel generalizing dv₁ dv₂ log with
  | zero => cases hok
  | succ fuel ih =>
      simp only [prjWalkBar] at hok ⊢
      split at hok
      · cases hok
      rename_i r₁ hfill
      obtain ⟨r₂, hfill₂, hsame, hnext, hlog⟩ := pcieuniFillPrjInfo_congr h hfill
      split at hok
      · rename_i hzero
        cases hok
        exact ⟨r₂.dv, by simp only [hfill₂, hnext, if_pos hzero, hlog], hsame⟩
      rename_i hzero
      split at hok
      · cases hok
      rename_i dv log₁ hrest
      cases hok
      obtain ⟨dv₂', hrest₂, hsame'⟩ := ih hsame hrest
      exact ⟨dv₂', by simp only [hfill₂, hnext, if_neg hzero, hrest₂, hlog], hsame'⟩

theorem prjWalkBars_congr {fuel : Nat} {ns : List (Fin 6)} (h : dv₁.SameInfo dv₂)
    (hok : prjWalkBars regs alloc fuel ns dv₁ = .ok (dv₁', log)) :
    ∃ dv₂', prjWalkBars regs alloc fuel ns dv₂ = .ok (dv₂', log) ∧ dv₁'.SameInfo dv₂' := by
  induction ns generalizing dv₁ dv₂ log with
  | nil =>
      cases hok
      exact ⟨dv₂, rfl, h⟩
  | cons n ns ih =>
      have hmapped := h.mapped n
      simp only [prjWalkBars] at hok ⊢
      cases hm : (dv₁.bar n).memmoryBase with
      | none =>
          simp only [hmapped, hm] at hok ⊢
          exact ih h hok
      | some m =>
          simp only [hmapped, hm] at hok ⊢
          split at hok
          · cases hok
          rename_i dv log₁ hbar
          split at hok
          · cases hok
          rename_i dv' log₂ hrest
          cases hok
          obtain ⟨dv₂', hbar₂, hsame⟩ := prjWalkBar_congr h hbar
          obtain ⟨dv₂'', hrest₂, hsame'⟩ := ih hsame hrest
          exact ⟨dv₂'', by simp only [hbar₂, hrest₂], hsame'⟩

/-- Project discovery starts its count anew. -/
theorem pcieuniGetPrjinfo_congr {fuel : Nat}
    (hmapped : ∀ n, (dv₂.bar n).memmoryBase = (dv₁.bar n).memmoryBase)
    (hbrd : dv₂.brdInfoList = dv₁.brdInfoList) (hprj : dv₂.prjInfoList = dv₁.prjInfoList)
    (hstartup : dv₂.startupBrd = dv₁.startupBrd)
    (hok : pcieuniGetPrjinfo regs alloc fuel dv₁ = .ok (dv₁', log)) :
    ∃ dv₂', pcieuniGetPrjinfo regs alloc fuel dv₂ = .ok (dv₂', log) ∧ dv₁'.SameInfo dv₂' := by
  have hsame : PcieuniDev.SameInfo { dv₁ with startupPrjNum := 0 } { dv₂ with startupPrjNum := 0 } :=
    ⟨hmapped, hbrd, hprj, hstartup, rfl⟩
  have hpointer : dv₂.brdInfoList.projNext.toInt = dv₁.brdInfoList.projNext.toInt := by rw [hbrd]
  by_cases hnext : dv₁.brdInfoList.projNext.toInt ≠ 0
  · simp only [pcieuniGetPrjinfo, hpointer, if_pos hnext] at hok ⊢
    rw [hmapped 0]
    cases hm : (dv₁.bar 0).memmoryBase with
    | none => simp [hm] at hok
    | some m =>
        simp only [hm] at hok ⊢
        exact prjWalk_congr hsame hok
  · simp only [pcieuniGetPrjinfo, hpointer, if_neg hnext] at hok ⊢
    exact prjWalkBars_congr hsame hok

end SameInfo

/-! ## Board and projects -/

/-- The board header has the magic number. -/
def BoardMagic (regs : Regs) (m : Iomem) : Prop :=
  regs.ioread32 m 0 = asciiBoardMagicNum ∨ regs.ioread32 m 0 = asciiBoardMagicNumL

instance (regs : Regs) (m : Iomem) : Decidable (BoardMagic regs m) :=
  inferInstanceAs (Decidable (_ ∨ _))

/-- Board discovery on a board with the magic number. -/
theorem pcieuniGetBrdinfo_magic {regs : Regs} {m : Iomem} {dv : PcieuniDev}
    (hm : (dv.bar 0).memmoryBase = some m) (hmagic : BoardMagic regs m) :
    (pcieuniGetBrdinfo regs dv).1 =
      { dv with
        startupBrd := 1
        brdInfoList :=
          { boardId := regs.ioread32 m wordBoardId
            boardVersion := regs.ioread32 m wordBoardVersion
            boardDate := regs.ioread32 m wordBoardDate
            hwVersion := regs.ioread32 m wordBoardHwVersion
            boardReserved := dv.brdInfoList.boardReserved
            projNext := regs.ioread32 m wordBoardToProj } } := by
  unfold BoardMagic at hmagic
  simp only [pcieuniGetBrdinfo, hm, if_pos hmagic]

/-- Board discovery when there is no such board. -/
theorem pcieuniGetBrdinfo_noMagic {regs : Regs} {dv : PcieuniDev}
    (h : ∀ m, (dv.bar 0).memmoryBase = some m → ¬ BoardMagic regs m) :
    (pcieuniGetBrdinfo regs dv).1 = { dv with startupBrd := 0 } := by
  unfold BoardMagic at h
  simp only [pcieuniGetBrdinfo]
  split
  · rfl
  · rename_i m hm
    rw [if_neg (h m hm)]

/-! ## The reserved word of the board record -/

theorem pcieuniGetBrdinfo_boardReserved (regs : Regs) (dv : PcieuniDev) :
    (pcieuniGetBrdinfo regs dv).1.brdInfoList.boardReserved = dv.brdInfoList.boardReserved := by
  simp only [pcieuniGetBrdinfo]
  split
  · rfl
  · split <;> rfl

theorem Fills.boardReserved {regs : Regs} {alloc : Nat → Bool} {M : Iomem → Prop}
    {dv dv' : PcieuniDev} {log : List Effect} (h : Fills regs alloc M dv dv' log) :
    dv'.brdInfoList.boardReserved = dv.brdInfoList.boardReserved := by
  induction h with
  | nil => rfl
  | cons _ hfill _ ih =>
      rw [ih]
      simp only [pcieuniFillPrjInfo] at hfill
      split at hfill
      · split at hfill
        · cases hfill; rfl
        · cases hfill
      · cases hfill; rfl

/-! ## A board with a chain of projects -/

/-- A board whose header points to a finite chain: discovery ends, with one record
for each block of the chain, the last block first. -/
theorem discovery_chain {regs : Regs} {alloc : Nat → Bool} {m : Iomem} {dv : PcieuniDev}
    {l : List PrjInfo} {fuel : Nat} (hm : (dv.bar 0).memmoryBase = some m)
    (hempty : dv.prjInfoList = []) (hmagic : BoardMagic regs m)
    (hnext : regs.ioread32 m wordBoardToProj ≠ 0)
    (hchain : Chain regs m (regs.ioread32 m wordBoardToProj) l)
    (halloc : ∀ i < l.length, alloc (i + 1) = true) (hfuel : l.length + 1 < fuel) :
    (pcieuniGetBrdinfo regs dv).1.startupBrd = 1 ∧
    ∃ dv' log, pcieuniGetPrjinfo regs alloc fuel (pcieuniGetBrdinfo regs dv).1 = .ok (dv', log) ∧
      dv'.prjInfoList = l.reverse ∧ dv'.startupPrjNum = l.length := by
  have hbrd := pcieuniGetBrdinfo_magic hm hmagic
  generalize (pcieuniGetBrdinfo regs dv).1 = dv₁ at hbrd ⊢
  have hm₁ : (dv₁.bar 0).memmoryBase = some m := by rw [hbrd]; exact hm
  have hnext₁ : dv₁.brdInfoList.projNext = regs.ioread32 m wordBoardToProj := by rw [hbrd]
  have hempty₁ : dv₁.prjInfoList = [] := by rw [hbrd]; exact hempty
  rw [← hnext₁] at hnext hchain
  obtain ⟨dv', log, hok, hlist, hnum⟩ := pcieuniGetPrjinfo_chain hm₁ hnext hchain halloc hfuel
  refine ⟨by rw [hbrd], dv', log, hok, ?_, hnum⟩
  rw [hlist, hempty₁, List.append_nil]

/-- The registers of a board with projects at 0x40 and 0x80; the second points
to a block without the magic number. -/
private def twoProjects : Regs := fun _ _ off =>
  if off = 0 then asciiBoardMagicNum
  else if off = 0x18 then 0x40
  else if off = 0x40 ∨ off = 0x80 then asciiProjMagicNum
  else if off = 0x44 then 0xA1
  else if off = 0x58 then 0x80
  else if off = 0x84 then 0xA2
  else if off = 0x98 then 0xC0
  else 0

theorem discovery_chain_twoProjects :
    ∃ dv' log, pcieuniGetPrjinfo twoProjects (fun _ => true) 4 (pcieuniGetBrdinfo twoProjects
        { bar := fun _ => { memmoryBase := some ⟨7, 0, 0x10000⟩ } }).1 = .ok (dv', log) ∧
      dv'.prjInfoList.map (·.projId) = [0xA2, 0xA1] ∧ dv'.startupPrjNum = 2 := by
  have hchain : Chain twoProjects ⟨7, 0, 0x10000⟩
      (twoProjects.ioread32 ⟨7, 0, 0x10000⟩ wordBoardToProj)
      [prjAt twoProjects ⟨7, 0, 0x10000⟩ 0x40, prjAt twoProjects ⟨7, 0, 0x10000⟩ 0x80] :=
    .block (by decide) (by decide) (by decide)
      (.block (by decide) (by decide) (by decide) (.noMagic (by decide) (by decide) (by decide)))
  obtain ⟨-, dv', log, hok, hlist, hnum⟩ := @discovery_chain twoProjects (fun _ => true) _
    { bar := fun _ => { memmoryBase := some ⟨7, 0, 0x10000⟩ } } _ 4 rfl rfl (.inl rfl) (by decide)
    hchain (fun _ _ => rfl) (by decide)
  exact ⟨dv', log, hok, by rw [hlist]; rfl, hnum⟩

end Gpcieuni
