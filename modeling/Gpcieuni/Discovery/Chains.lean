-- SUMMARY: When the walks of project discovery end, what they find in the BARs 1 to 5, and what they do to the board record.
import Gpcieuni.Lib.Orbit
import Gpcieuni.DiscoverySpec

/-!
# Chains of projects

The registers hold a graph of pointers. The walk over BAR 0 follows it from the
board's project pointer on, and nothing but the graph ends it. The walks over
the other BARs look at their first block only, again and again.
-/

namespace Gpcieuni

/-! ## The pointers of BAR 0 -/

/-- The pointer that follows `p`. There is none after a zero pointer and after a
pointer to a block without the magic number. -/
def nextPrj (regs : Regs) (m : Iomem) (p : BitVec 32) : Option (BitVec 32) :=
  if p ≠ 0 ∧ regs.ioread32 m p.toInt = asciiProjMagicNum then
    some (regs.ioread32 m (p.toInt + wordProjNext))
  else none

instance finite_pointers : Finite (BitVec 32) :=
  Finite.of_injective BitVec.toFin fun _ _ => BitVec.eq_of_toFin_eq

section Ending

variable {regs : Regs} {alloc : Nat → Bool} {m : Iomem} {p : BitVec 32} {dv : PcieuniDev}

theorem toInt_ne_zero {p : BitVec 32} : p.toInt ≠ 0 ↔ p ≠ 0 := by
  rw [not_iff_not]
  constructor
  · intro hzero
    exact BitVec.eq_of_toInt_eq (hzero.trans BitVec.toInt_zero.symm)
  · rintro rfl
    exact BitVec.toInt_zero

theorem nextPrj_some {q : BitVec 32} (h : nextPrj regs m p = some q) :
    p ≠ 0 ∧ regs.ioread32 m p.toInt = asciiProjMagicNum ∧
      q = regs.ioread32 m (p.toInt + wordProjNext) := by
  unfold nextPrj at h
  split at h
  · rename_i hblock
    exact ⟨hblock.1, hblock.2, (Option.some.inj h).symm⟩
  · cases h

theorem nextPrj_none (h : nextPrj regs m p = none) :
    p = 0 ∨ (p ≠ 0 ∧ regs.ioread32 m p.toInt ≠ asciiProjMagicNum) := by
  by_cases hzero : p = 0
  · exact .inl hzero
  · refine .inr ⟨hzero, fun hmagic => ?_⟩
    rw [nextPrj, if_pos ⟨hzero, hmagic⟩] at h
    cases h

/-- A fill at a block fails, or it goes on to the next pointer. -/
theorem pcieuniFillPrjInfo_next (alloc : Nat → Bool) (dv : PcieuniDev) {q : BitVec 32}
    (h : nextPrj regs m p = some q) :
    pcieuniFillPrjInfo regs alloc m p.toInt dv = .error .oops ∨
      ∃ r, pcieuniFillPrjInfo regs alloc m p.toInt dv = .ok r ∧ r.next = q.toInt := by
  obtain ⟨-, hmagic, rfl⟩ := nextPrj_some h
  by_cases halloc : alloc (dv.startupPrjNum + 1).toNat = true
  · obtain ⟨r, hfill, hnext, -⟩ := pcieuniFillPrjInfo_magic dv hmagic halloc
    exact .inr ⟨r, hfill, hnext⟩
  · left
    simp only [pcieuniFillPrjInfo, if_pos hmagic, if_neg halloc]

theorem pcieuniGetPrjinfo_walk {fuel : Nat} (hm : (dv.bar 0).memmoryBase = some m)
    (hnext : dv.brdInfoList.projNext ≠ 0) :
    pcieuniGetPrjinfo regs alloc fuel dv =
      prjWalk regs alloc m fuel dv.brdInfoList.projNext.toInt { dv with startupPrjNum := 0 } := by
  simp only [pcieuniGetPrjinfo, if_pos (toInt_ne_zero.mpr hnext), hm]

end Ending

/-- A board whose only project block is at 0x40, with the pointer `next`. -/
def oneProject (next : BitVec 32) : Regs := fun _ _ off =>
  if off = 0 then asciiBoardMagicNum
  else if off = 0x18 then 0x40
  else if off = 0x40 then asciiProjMagicNum
  else if off = 0x58 then next
  else 0

/-- A device with all six BARs mapped, after board discovery. -/
def mappedBoard (regs : Regs) : PcieuniDev :=
  (pcieuniGetBrdinfo regs { bar := fun n => { memmoryBase := some ⟨7, n, 0x10000⟩ } }).1

section Board

variable {regs : Regs} {alloc : Nat → Bool} {dv dv' : PcieuniDev} {log : List Effect}

theorem pcieuniFillPrjInfo_brdInfoList {m : Iomem} {base : Int} {r : FillRet}
    (h : pcieuniFillPrjInfo regs alloc m base dv = .ok r) :
    r.dv.brdInfoList =
      if regs.ioread32 m base = asciiProjMagicNum then { dv.brdInfoList with projNext := 0 }
      else dv.brdInfoList := by
  simp only [pcieuniFillPrjInfo] at h
  split at h
  · rename_i hmagic
    split at h
    · cases h; rw [if_pos hmagic]
    · cases h
  · rename_i hmagic
    cases h
    rw [if_neg hmagic]

/-- Fills leave the board record alone, up to its project pointer, which they
clear. -/
theorem Fills.brdInfoList {M : Iomem → Prop} (h : Fills regs alloc M dv dv' log) :
    dv'.brdInfoList = dv.brdInfoList ∨
      dv'.brdInfoList = { dv.brdInfoList with projNext := 0 } := by
  induction h with
  | nil => exact .inl rfl
  | cons _ hfill _ ih =>
      have hbrd := pcieuniFillPrjInfo_brdInfoList hfill
      split at hbrd
      · right
        rcases ih with hsame | hclear
        · rw [hsame, hbrd]
        · rw [hclear, hbrd]
      · rwa [hbrd] at ih

theorem Fills.brdInfoList_zero {M : Iomem → Prop} (h : Fills regs alloc M dv dv' log)
    (hzero : dv.brdInfoList.projNext = 0) : dv'.brdInfoList = dv.brdInfoList := by
  rcases h.brdInfoList with hsame | hclear
  · exact hsame
  · rw [hclear, ← hzero]

/-- The walk over BAR 0 keeps the board record exactly when its first block is
no project. -/
theorem prjWalk_brdInfoList_iff {m : Iomem} {fuel : Nat} (hnext : dv.brdInfoList.projNext ≠ 0)
    (h : prjWalk regs alloc m fuel dv.brdInfoList.projNext.toInt dv = .ok (dv', log)) :
    dv'.brdInfoList = dv.brdInfoList ↔
      regs.ioread32 m dv.brdInfoList.projNext.toInt ≠ asciiProjMagicNum := by
  cases fuel with
  | zero => cases h
  | succ fuel =>
      simp only [prjWalk, if_neg (toInt_ne_zero.mpr hnext)] at h
      split at h
      · cases h
      rename_i r hfill
      split at h
      · cases h
      rename_i dv₁ log₁ hrest
      cases h
      have hbrd := pcieuniFillPrjInfo_brdInfoList hfill
      by_cases hmagic : regs.ioread32 m dv.brdInfoList.projNext.toInt = asciiProjMagicNum
      · rw [if_pos hmagic] at hbrd
        have hfills := prjWalk_fills (M := fun _ => True) trivial hrest
        have hend := hfills.brdInfoList_zero (by rw [hbrd])
        simp only [hmagic, ne_eq, not_true_eq_false, iff_false]
        intro hsame
        rw [← hsame, hend, hbrd] at hnext
        exact hnext rfl
      · rw [pcieuniFillPrjInfo_noMagic hmagic] at hfill
        cases hfill
        cases fuel with
        | zero => cases hrest
        | succ fuel =>
            simp only [prjWalk, if_pos] at hrest
            cases hrest
            simp only [ne_eq, hmagic, not_false_eq_true]

/-- Project discovery keeps the board record exactly when the board's pointer
leads to no project. -/
theorem pcieuniGetPrjinfo_brdInfoList_iff {fuel : Nat}
    (hok : pcieuniGetPrjinfo regs alloc fuel dv = .ok (dv', log)) :
    dv'.brdInfoList = dv.brdInfoList ↔
      (dv.brdInfoList.projNext ≠ 0 → ∀ m, (dv.bar 0).memmoryBase = some m →
        regs.ioread32 m dv.brdInfoList.projNext.toInt ≠ asciiProjMagicNum) := by
  by_cases hnext : dv.brdInfoList.projNext = 0
  · have hfills := pcieuniGetPrjinfo_fills hok
    simp only [hnext, ne_eq, not_true_eq_false, false_implies, iff_true]
    exact hfills.brdInfoList_zero hnext
  · cases hm : (dv.bar 0).memmoryBase with
    | none => simp [pcieuniGetPrjinfo, hm, toInt_ne_zero.mpr hnext] at hok
    | some m =>
        rw [pcieuniGetPrjinfo_walk hm hnext] at hok
        rw [@prjWalk_brdInfoList_iff _ _ { dv with startupPrjNum := 0 } _ _ _ _ hnext hok]
        constructor
        · rintro hmagic - m' hm'
          cases hm'
          exact hmagic
        · intro hmagic
          exact hmagic hnext m rfl

end Board

/-- A board whose pointer leads to a block without the magic number. -/
def noProject : Regs := fun _ _ off => if off = 0 then asciiBoardMagicNum else 0x40

theorem pcieuniGetPrjinfo_brdInfoList_noProject :
    ∃ dv' log, pcieuniGetPrjinfo noProject (fun _ => true) 2 (mappedBoard noProject) =
        .ok (dv', log) ∧
      dv'.brdInfoList = (mappedBoard noProject).brdInfoList := by
  obtain ⟨dv', log, hok⟩ : ∃ dv' log, pcieuniGetPrjinfo noProject (fun _ => true) 2
      (mappedBoard noProject) = .ok (dv', log) := ⟨_, _, rfl⟩
  refine ⟨dv', log, hok, (pcieuniGetPrjinfo_brdInfoList_iff hok).mpr ?_⟩
  rintro - m hm
  cases hm
  decide

/-- The board points to a project, and discovery loses the pointer. -/
theorem pcieuniGetPrjinfo_clears_oneProject :
    ∃ dv' log, pcieuniGetPrjinfo (oneProject 0) (fun _ => true) 3 (mappedBoard (oneProject 0)) =
        .ok (dv', log) ∧
      (mappedBoard (oneProject 0)).brdInfoList.projNext = 0x40 ∧
      dv'.brdInfoList.projNext = 0 ∧
      dv'.brdInfoList ≠ (mappedBoard (oneProject 0)).brdInfoList :=
  ⟨_, _, rfl, by decide, by decide, by decide⟩

/-! ## The BARs 1 to 5 -/

/-- The chain that starts with the block at byte `off`: it ends at a zero pointer
or at a block without the magic number. -/
inductive BlockChain (regs : Regs) (m : Iomem) : (off : Int) → List PrjInfo → Prop where
  | noMagic {off : Int} (hmagic : regs.ioread32 m off ≠ asciiProjMagicNum) : BlockChain regs m off []
  | last {off : Int} (hmagic : regs.ioread32 m off = asciiProjMagicNum)
      (hnext : regs.ioread32 m (off + wordProjNext) = 0) :
      BlockChain regs m off [prjAt regs m off]
  | block {off : Int} {l : List PrjInfo} (hmagic : regs.ioread32 m off = asciiProjMagicNum)
      (hnext : regs.ioread32 m (off + wordProjNext) ≠ 0)
      (hrest : BlockChain regs m (regs.ioread32 m (off + wordProjNext)).toNat l) :
      BlockChain regs m off (prjAt regs m off :: l)

/-- The chain of a BAR. A BAR that is not implemented has none. -/
def BarChain (regs : Regs) (b : Bar) (l : List PrjInfo) : Prop :=
  match b.memmoryBase with
  | none => l = []
  | some m => BlockChain regs m 0 l

/-- A project at the start of the BAR is the last of its chain. -/
def FirstIsLast (regs : Regs) (m : Iomem) : Prop :=
  regs.ioread32 m 0 = asciiProjMagicNum → regs.ioread32 m wordProjNext = 0

instance firstIsLastDecidable (regs : Regs) (m : Iomem) : Decidable (FirstIsLast regs m) :=
  inferInstanceAs (Decidable (_ → _))

/-- The BARs that discovery looks at when the board has no project pointer. -/
def prjBars : List (Fin 6) := [1, 2, 3, 4, 5]

section Bars

variable {regs : Regs} {alloc : Nat → Bool} {m : Iomem} {dv : PcieuniDev}

/-- A chain with one block or none. -/
theorem prjWalkBar_firstIsLast (alloc : Nat → Bool) (dv : PcieuniDev) (fuel : Nat)
    {l : List PrjInfo} (hfirst : FirstIsLast regs m)
    (hchain : BlockChain regs m 0 l)
    (halloc : ∀ i < l.length, alloc (dv.startupPrjNum + (i + 1 : Nat)).toNat = true) :
    ∃ dv' log, prjWalkBar regs alloc m (fuel + 1) dv = .ok (dv', log) ∧
      dv'.prjInfoList = l.reverse ++ dv.prjInfoList ∧
      dv'.startupPrjNum = dv.startupPrjNum + l.length := by
  cases hchain with
  | noMagic hmagic =>
      simp only [prjWalkBar, pcieuniFillPrjInfo_noMagic hmagic]
      exact ⟨dv, _, rfl, rfl, by simp⟩
  | last hmagic hnext =>
      obtain ⟨r, hfill, hr, hlist, hnum⟩ :=
        pcieuniFillPrjInfo_magic dv hmagic (by simpa using halloc 0 (by simp))
      have hzero : r.next = 0 := by
        rw [hr, hnext]
        exact BitVec.toInt_zero
      simp only [prjWalkBar, hfill, if_pos hzero]
      exact ⟨r.dv, _, rfl, hlist, hnum⟩
  | block hmagic hnext _ =>
      rw [Int.zero_add] at hnext
      exact absurd (hfirst hmagic) hnext

/-- The loop never leaves a block that points to another one. -/
theorem firstIsLast_of_prjWalkBar {fuel : Nat} {dv' : PcieuniDev} {log : List Effect}
    (h : prjWalkBar regs alloc m fuel dv = .ok (dv', log)) : FirstIsLast regs m := by
  intro hmagic
  induction fuel generalizing dv dv' log with
  | zero => cases h
  | succ fuel ih =>
      unfold prjWalkBar at h
      split at h
      · cases h
      rename_i r hfill
      split at h
      · rename_i hzero
        simp only [pcieuniFillPrjInfo, if_pos hmagic] at hfill
        split at hfill
        · cases hfill
          rw [Int.zero_add] at hzero
          exact BitVec.eq_of_toInt_eq (hzero.trans BitVec.toInt_zero.symm)
        · cases hfill
      · split at h
        · cases h
        rename_i dv₁ log₁ hrest
        exact ih hrest

theorem prjWalkBars_firstIsLast (alloc : Nat → Bool) (dv : PcieuniDev) (fuel : Nat)
    {ns : List (Fin 6)} {chain : Fin 6 → List PrjInfo}
    (hfirst : ∀ n ∈ ns, ∀ m, (dv.bar n).memmoryBase = some m → FirstIsLast regs m)
    (hchain : ∀ n ∈ ns, BarChain regs (dv.bar n) (chain n))
    (halloc : ∀ i < (ns.flatMap chain).length,
      alloc (dv.startupPrjNum + (i + 1 : Nat)).toNat = true) :
    ∃ dv' log, prjWalkBars regs alloc (fuel + 1) ns dv = .ok (dv', log) ∧
      dv'.prjInfoList = (ns.flatMap chain).reverse ++ dv.prjInfoList ∧
      dv'.startupPrjNum = dv.startupPrjNum + (ns.flatMap chain).length := by
  induction ns generalizing dv with
  | nil => exact ⟨dv, [], rfl, by simp, by simp⟩
  | cons n ns ih =>
      have hhere := hchain n (List.mem_cons_self ..)
      have hrest : ∀ n' ∈ ns, BarChain regs (dv.bar n') (chain n') :=
        fun n' hn' => hchain n' (List.mem_cons_of_mem _ hn')
      have hfirst' : ∀ n' ∈ ns, ∀ m, (dv.bar n').memmoryBase = some m → FirstIsLast regs m :=
        fun n' hn' => hfirst n' (List.mem_cons_of_mem _ hn')
      simp only [List.flatMap_cons, List.length_append] at halloc ⊢
      cases hm : (dv.bar n).memmoryBase with
      | none =>
        simp only [BarChain, hm] at hhere
        simp only [prjWalkBars, hm, hhere, List.nil_append, List.length_nil, Nat.zero_add] at halloc ⊢
        exact ih dv hfirst' hrest halloc
      | some m =>
        simp only [BarChain, hm] at hhere
        obtain ⟨dv₁, log₁, hbar, hlist₁, hnum₁⟩ :=
          prjWalkBar_firstIsLast alloc dv fuel (hfirst n (List.mem_cons_self ..) m hm) hhere
            (fun i hi => halloc i (by omega))
        have hsame : dv₁.bar = dv.bar := by
          rw [(prjWalkBar_fills (M := fun _ => True) trivial hbar).infoOnly]
        have halloc₁ : ∀ i < (ns.flatMap chain).length,
            alloc (dv₁.startupPrjNum + (i + 1 : Nat)).toNat = true := by
          intro i hi
          have hidx : dv₁.startupPrjNum + (i + 1 : Nat) =
              dv.startupPrjNum + ((chain n).length + i + 1 : Nat) := by
            rw [hnum₁]; push_cast; omega
          rw [hidx]
          exact halloc _ (by omega)
        obtain ⟨dv₂, log₂, hbars, hlist₂, hnum₂⟩ :=
          ih dv₁ (by rw [hsame]; exact hfirst') (by rw [hsame]; exact hrest) halloc₁
        simp only [prjWalkBars, hm, hbar, hbars]
        refine ⟨dv₂, _, rfl, ?_, ?_⟩
        · rw [hlist₂, hlist₁, List.reverse_append, List.append_assoc]
        · rw [hnum₂, hnum₁]; push_cast; omega

theorem firstIsLast_of_prjWalkBars {ns : List (Fin 6)} {fuel : Nat} {dv' : PcieuniDev}
    {log : List Effect} (h : prjWalkBars regs alloc fuel ns dv = .ok (dv', log)) :
    ∀ n ∈ ns, ∀ m, (dv.bar n).memmoryBase = some m → FirstIsLast regs m := by
  induction ns generalizing dv dv' log with
  | nil => intro n hn; cases hn
  | cons n ns ih =>
      intro n' hn' m' hm'
      unfold prjWalkBars at h
      split at h
      · rename_i hm
        cases hn' with
        | head => rw [hm] at hm'; cases hm'
        | tail _ hmem => exact ih h n' hmem m' hm'
      · rename_i m hm
        split at h
        · cases h
        rename_i dv₁ log₁ hbar
        split at h
        · cases h
        rename_i dv₂ log₂ hbars
        have hsame : dv₁.bar = dv.bar := by
          rw [(prjWalkBar_fills (M := fun _ => True) trivial hbar).infoOnly]
        cases hn' with
        | head =>
            rw [hm] at hm'
            cases hm'
            exact firstIsLast_of_prjWalkBar hbar
        | tail _ hmem => exact ih hbars n' hmem m' (by rw [hsame]; exact hm')

/-- On a board without a project pointer and with a finite chain in each of the
BARs 1 to 5, project discovery finds these chains exactly when no first block
points on. -/
theorem pcieuniGetPrjinfo_bars_iff {chain : Fin 6 → List PrjInfo}
    (hpointer : dv.brdInfoList.projNext = 0)
    (hchain : ∀ n ∈ prjBars, BarChain regs (dv.bar n) (chain n))
    (halloc : ∀ i < (prjBars.flatMap chain).length, alloc (i + 1) = true) :
    (∃ fuel dv' log, pcieuniGetPrjinfo regs alloc fuel dv = .ok (dv', log) ∧
      dv'.prjInfoList = (prjBars.flatMap chain).reverse ++ dv.prjInfoList ∧
      dv'.startupPrjNum = (prjBars.flatMap chain).length) ↔
      ∀ n ∈ prjBars, ∀ m, (dv.bar n).memmoryBase = some m → FirstIsLast regs m := by
  have hbars : ∀ fuel, pcieuniGetPrjinfo regs alloc fuel dv =
      prjWalkBars regs alloc fuel prjBars { dv with startupPrjNum := 0 } := by
    intro fuel
    simp only [pcieuniGetPrjinfo, hpointer, prjBars]
    rfl
  constructor
  · rintro ⟨fuel, dv', log, hok, -, -⟩
    rw [hbars] at hok
    have hfirst := firstIsLast_of_prjWalkBars hok
    exact hfirst
  · intro hfirst
    obtain ⟨dv', log, hok, hlist, hnum⟩ :=
      prjWalkBars_firstIsLast alloc { dv with startupPrjNum := 0 } 0
        hfirst hchain (fun i hi => by simpa using halloc i hi)
    exact ⟨1, dv', log, by rw [hbars]; exact hok, hlist, by simpa using hnum⟩

end Bars

/-- A board without a project pointer. BAR 2 has a project at its start, which
points to `next`, and a last one at 0x40. -/
def barProjects (next : BitVec 32) : Regs := fun _ n off =>
  if n = 0 ∧ off = 0 then asciiBoardMagicNum
  else if n = 2 ∧ (off = 0 ∨ off = 0x40) then asciiProjMagicNum
  else if n = 2 ∧ off = 0x18 then next
  else 0

private def barTwo : Iomem := ⟨7, 2, 0x10000⟩

private theorem barProjects_chain (next : BitVec 32) {l : List PrjInfo}
    (h : BlockChain (barProjects next) barTwo 0 l) :
    ∀ n ∈ prjBars, BarChain (barProjects next) ((mappedBoard (barProjects next)).bar n)
      (if n = 2 then l else []) := by
  intro n hn
  simp only [prjBars, List.mem_cons, List.not_mem_nil, or_false] at hn
  rcases hn with rfl | rfl | rfl | rfl | rfl
  · exact .noMagic (by simp [Regs.ioread32, barProjects, asciiProjMagicNum])
  · exact h
  · exact .noMagic (by simp [Regs.ioread32, barProjects, asciiProjMagicNum])
  · exact .noMagic (by simp [Regs.ioread32, barProjects, asciiProjMagicNum])
  · exact .noMagic (by simp [Regs.ioread32, barProjects, asciiProjMagicNum])

theorem pcieuniGetPrjinfo_bars_oneBlock :
    ∃ fuel dv' log, pcieuniGetPrjinfo (barProjects 0) (fun _ => true) fuel
        (mappedBoard (barProjects 0)) = .ok (dv', log) ∧
      dv'.prjInfoList = [prjAt (barProjects 0) barTwo 0] ∧ dv'.startupPrjNum = 1 := by
  have hchain := barProjects_chain 0 (.last (by decide) (by decide))
  apply (pcieuniGetPrjinfo_bars_iff (by decide) hchain (fun _ _ => rfl)).mpr
  intro n hn m hm
  cases hm
  revert n
  decide

/-- A chain of two blocks in BAR 2: discovery does not come to an end. -/
theorem pcieuniGetPrjinfo_bars_twoBlocks :
    (mappedBoard (barProjects 0x40)).brdInfoList.projNext = 0 ∧
    (∀ n ∈ prjBars, BarChain (barProjects 0x40) ((mappedBoard (barProjects 0x40)).bar n)
      (if n = 2 then [prjAt (barProjects 0x40) barTwo 0, prjAt (barProjects 0x40) barTwo 0x40]
        else [])) ∧
    ¬ ∃ fuel dv' log, pcieuniGetPrjinfo (barProjects 0x40) (fun _ => true) fuel
      (mappedBoard (barProjects 0x40)) = .ok (dv', log) := by
  refine ⟨by decide, barProjects_chain 0x40 (.block (by decide) (by decide)
    (.last (by decide) (by decide))), ?_⟩
  rintro ⟨fuel, dv', log, hok⟩
  have hfirst := firstIsLast_of_prjWalkBars hok 2 (by decide) barTwo (by decide)
  exact absurd (hfirst (by decide)) (by decide)

end Gpcieuni
