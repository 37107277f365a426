-- SUMMARY: What opening a file and discovering projects leave behind when an allocation fails.
import Gpcieuni.Discovery.Chains
import Gpcieuni.File

/-!
# Failing allocations

`pcieuni_open_exp` and `pcieuni_fill_prj_info` count first and allocate
afterwards, and neither looks at the pointer that `kzalloc` returns. The blocks
that discovery comes to are a function of the registers alone, so they are
known whatever the allocator does.
-/

namespace Gpcieuni

/-! ## The blocks that discovery comes to -/

/-- The project blocks of the walk over BAR 0 from the offset `next` on. -/
def walkBlocks (regs : Regs) (m : Iomem) : (fuel : Nat) → (next : Int) → List PrjInfo
  | 0, _ => []
  | fuel + 1, next =>
    if next ≠ 0 ∧ regs.ioread32 m next = asciiProjMagicNum then
      prjAt regs m next :: walkBlocks regs m fuel (regs.ioread32 m (next + wordProjNext)).toInt
    else []

/-- The project blocks of the walk over one of the BARs 1 to 5. -/
def barBlocks (regs : Regs) (m : Iomem) : (fuel : Nat) → List PrjInfo
  | 0 => []
  | fuel + 1 =>
    if regs.ioread32 m 0 = asciiProjMagicNum then
      prjAt regs m 0 ::
        if (regs.ioread32 m wordProjNext).toInt = 0 then [] else barBlocks regs m fuel
    else []

/-- The project blocks at the start of the BARs of a list. -/
def barsBlocks (regs : Regs) (fuel : Nat) (dv : PcieuniDev) (ns : List (Fin 6)) : List PrjInfo :=
  ns.flatMap fun n => ((dv.bar n).memmoryBase.map fun m => barBlocks regs m fuel).getD []

/-- The project blocks that `pcieuni_get_prjinfo` comes to, in their order. -/
def prjBlocks (regs : Regs) (fuel : Nat) (dv : PcieuniDev) : List PrjInfo :=
  if dv.brdInfoList.projNext.toInt ≠ 0 then
    ((dv.bar 0).memmoryBase.map fun m =>
      walkBlocks regs m fuel dv.brdInfoList.projNext.toInt).getD []
  else barsBlocks regs fuel dv [1, 2, 3, 4, 5]

/-! ## Allocations in order -/

/-- The `n` allocations after the first `s` succeed. -/
def Granted (alloc : Nat → Bool) (s : Int) (n : Nat) : Prop :=
  ∀ i < n, alloc (s + (i + 1 : Nat)).toNat = true

instance grantedDecidable (alloc : Nat → Bool) (s : Int) (n : Nat) : Decidable (Granted alloc s n) :=
  inferInstanceAs (Decidable (∀ i < n, _))

theorem Granted.zero (alloc : Nat → Bool) (s : Int) : Granted alloc s 0 :=
  fun i hi => absurd hi (Nat.not_lt_zero i)

theorem granted_add {alloc : Nat → Bool} {s : Int} {n n' : Nat} :
    Granted alloc s (n + n') ↔ Granted alloc s n ∧ Granted alloc (s + n) n' := by
  have hidx : ∀ i : Nat, s + n + (i + 1 : Nat) = s + (n + i + 1 : Nat) := by
    intro i
    push_cast
    omega
  constructor
  · intro h
    refine ⟨fun i hi => h i (by omega), fun i hi => ?_⟩
    rw [hidx]
    exact h (n + i) (by omega)
  · rintro ⟨h, h'⟩ i hi
    by_cases hin : i < n
    · exact h i hin
    · have hlast := h' (i - n) (by omega)
      rwa [hidx, show n + (i - n) = i by omega] at hlast

theorem granted_one {alloc : Nat → Bool} {s : Int} :
    Granted alloc s 1 ↔ alloc (s + 1).toNat = true := by
  constructor
  · intro h
    exact h 0 (by decide)
  · intro h i hi
    obtain rfl : i = 0 := by omega
    exact h

/-! ## The walks -/

section Walks

variable {regs : Regs} {m : Iomem} {dv : PcieuniDev}

/-- A call that makes the records `l` and ends with `r` if every allocation
succeeds: it ends so if those for `l` do, and it writes through a null pointer at
the first that fails. -/
structure AllocDecides (alloc : Nat → Bool) (dv : PcieuniDev) (l : List PrjInfo)
    (r : PcieuniDev × List Effect) (c : Call (PcieuniDev × List Effect)) : Prop where
  list : r.1.prjInfoList = l.reverse ++ dv.prjInfoList
  count : r.1.startupPrjNum = dv.startupPrjNum + l.length
  granted : Granted alloc dv.startupPrjNum l.length → c = .ok r
  refused : ¬ Granted alloc dv.startupPrjNum l.length → c = .error .oops

/-- A call that makes no record. -/
theorem AllocDecides.nil (alloc : Nat → Bool) {log : List Effect}
    {c : Call (PcieuniDev × List Effect)} (hc : c = .ok (dv, log)) :
    AllocDecides alloc dv [] (dv, log) c := by
  refine ⟨rfl, (Int.add_zero _).symm, fun _ => hc, ?_⟩
  intro hrefused
  exact absurd (Granted.zero alloc _) hrefused

/-- One call after the other, with what both read. -/
def seqCalls (c : Call (PcieuniDev × List Effect))
    (rest : PcieuniDev → Call (PcieuniDev × List Effect)) : Call (PcieuniDev × List Effect) :=
  match c with
  | .error e => .error e
  | .ok (dv, log) =>
    match rest dv with
    | .error e => .error e
    | .ok (dv', log') => .ok (dv', log ++ log')

theorem seqCalls_ok {c : Call (PcieuniDev × List Effect)}
    {rest : PcieuniDev → Call (PcieuniDev × List Effect)} {r : PcieuniDev × List Effect}
    (h : seqCalls c rest = .ok r) :
    ∃ r₁ r₂, c = .ok r₁ ∧ rest r₁.1 = .ok r₂ ∧ r = (r₂.1, r₁.2 ++ r₂.2) := by
  cases hc : c with
  | error e => simp only [seqCalls, hc] at h; cases h
  | ok r₁ =>
    cases hrest : rest r₁.1 with
    | error e => simp only [seqCalls, hc, hrest] at h; cases h
    | ok r₂ =>
      simp only [seqCalls, hc, hrest] at h
      cases h
      exact ⟨r₁, r₂, rfl, hrest, rfl⟩

theorem AllocDecides.seq {alloc : Nat → Bool} {c : Call (PcieuniDev × List Effect)}
    {rest : PcieuniDev → Call (PcieuniDev × List Effect)} {l l' : List PrjInfo}
    {r r' : PcieuniDev × List Effect} (h : AllocDecides alloc dv l r c)
    (hrest : AllocDecides alloc r.1 l' r' (rest r.1)) :
    AllocDecides alloc dv (l ++ l') (r'.1, r.2 ++ r'.2) (seqCalls c rest) := by
  have hsecond := hrest.refused
  have hboth := hrest.granted
  rw [h.count] at hsecond hboth
  constructor
  case list => rw [hrest.list, h.list, List.reverse_append, List.append_assoc]
  case count =>
    rw [hrest.count, h.count, List.length_append]
    push_cast
    omega
  case granted =>
    intro hgranted
    rw [List.length_append, granted_add] at hgranted
    simp only [seqCalls, h.granted hgranted.1, hboth hgranted.2]
  case refused =>
    intro hrefused
    rw [List.length_append, granted_add] at hrefused
    by_cases hfirst : Granted alloc dv.startupPrjNum l.length
    · simp only [seqCalls, h.granted hfirst, hsecond fun hlast => hrefused ⟨hfirst, hlast⟩]
    · simp only [seqCalls, h.refused hfirst]

/-- One fill, as a call. -/
def fillCall (regs : Regs) (alloc : Nat → Bool) (m : Iomem) (base : Int) (dv : PcieuniDev) :
    Call (PcieuniDev × List Effect) :=
  match pcieuniFillPrjInfo regs alloc m base dv with
  | .error e => .error e
  | .ok r => .ok (r.dv, r.log)

/-- The fill of a block makes one record. -/
theorem fillCall_decides {base : Int} (alloc : Nat → Bool) {r : PcieuniDev × List Effect}
    (hmagic : regs.ioread32 m base = asciiProjMagicNum)
    (h : fillCall regs (fun _ => true) m base dv = .ok r) :
    AllocDecides alloc dv [prjAt regs m base] r (fillCall regs alloc m base dv) := by
  simp only [fillCall, pcieuniFillPrjInfo, if_pos hmagic, if_true] at h
  cases h
  refine ⟨rfl, rfl, ?_, ?_⟩
  · intro hgranted
    simp only [fillCall, pcieuniFillPrjInfo, if_pos hmagic, if_pos (granted_one.mp hgranted)]
  · intro hrefused
    simp only [fillCall, pcieuniFillPrjInfo, if_pos hmagic, if_neg (mt granted_one.mpr hrefused)]

/-- A turn of the walk over BAR 0 that comes to a block. -/
theorem prjWalk_block {next : Int} (alloc : Nat → Bool) (fuel : Nat) (dv : PcieuniDev)
    (hne : next ≠ 0) (h : regs.ioread32 m next = asciiProjMagicNum) :
    prjWalk regs alloc m (fuel + 1) next dv =
      seqCalls (fillCall regs alloc m next dv)
        (prjWalk regs alloc m fuel (regs.ioread32 m (next + wordProjNext)).toInt) := by
  by_cases halloc : alloc (dv.startupPrjNum + 1).toNat = true
  · obtain ⟨r, hfill, hnext, -, -⟩ := pcieuniFillPrjInfo_magic dv h halloc
    rw [← hnext]
    cases hrest : prjWalk regs alloc m fuel r.next r.dv with
    | error e => simp only [prjWalk, if_neg hne, fillCall, hfill, seqCalls, hrest]
    | ok rest => simp only [prjWalk, if_neg hne, fillCall, hfill, seqCalls, hrest]
  · simp only [prjWalk, if_neg hne, fillCall, pcieuniFillPrjInfo, if_pos h, if_neg halloc, seqCalls]

theorem prjWalk_decides (alloc : Nat → Bool) {fuel : Nat} {next : Int} {r : PcieuniDev × List Effect}
    (h : prjWalk regs (fun _ => true) m fuel next dv = .ok r) :
    AllocDecides alloc dv (walkBlocks regs m fuel next) r (prjWalk regs alloc m fuel next dv) := by
  induction fuel generalizing next dv r with
  | zero => cases h
  | succ fuel ih =>
      by_cases hblock : next ≠ 0 ∧ regs.ioread32 m next = asciiProjMagicNum
      · rw [walkBlocks, if_pos hblock, prjWalk_block alloc fuel dv hblock.1 hblock.2]
        rw [prjWalk_block (fun _ => true) fuel dv hblock.1 hblock.2] at h
        obtain ⟨r₁, r₂, hfill, hrest, rfl⟩ := seqCalls_ok h
        exact (fillCall_decides alloc hblock.2 hfill).seq (ih hrest)
      · rw [walkBlocks, if_neg hblock]
        by_cases hzero : next = 0
        · simp only [prjWalk, if_pos hzero] at h ⊢
          cases h
          exact .nil alloc rfl
        · have hmagic : regs.ioread32 m next ≠ asciiProjMagicNum := fun heq => hblock ⟨hzero, heq⟩
          cases fuel with
          | zero =>
              simp only [prjWalk, if_neg hzero, pcieuniFillPrjInfo_noMagic hmagic] at h
              cases h
          | succ fuel =>
              simp only [prjWalk, if_neg hzero, pcieuniFillPrjInfo_noMagic hmagic, if_true] at h ⊢
              cases h
              exact .nil alloc rfl

/-- A turn of the walk over one of the BARs 1 to 5 that finds a block. -/
theorem prjWalkBar_block (alloc : Nat → Bool) (fuel : Nat) (dv : PcieuniDev)
    (h : regs.ioread32 m 0 = asciiProjMagicNum) :
    prjWalkBar regs alloc m (fuel + 1) dv =
      if (regs.ioread32 m wordProjNext).toInt = 0 then fillCall regs alloc m 0 dv
      else seqCalls (fillCall regs alloc m 0 dv) (prjWalkBar regs alloc m fuel) := by
  by_cases halloc : alloc (dv.startupPrjNum + 1).toNat = true
  · obtain ⟨r, hfill, hnext, -, -⟩ := pcieuniFillPrjInfo_magic dv h halloc
    rw [Int.zero_add] at hnext
    rw [← hnext]
    by_cases hzero : r.next = 0
    · simp only [prjWalkBar, fillCall, hfill, if_pos hzero]
    · cases hrest : prjWalkBar regs alloc m fuel r.dv with
      | error e => simp only [prjWalkBar, fillCall, hfill, if_neg hzero, seqCalls, hrest]
      | ok rest => simp only [prjWalkBar, fillCall, hfill, if_neg hzero, seqCalls, hrest]
  · by_cases hzero : (regs.ioread32 m wordProjNext).toInt = 0
    · simp only [prjWalkBar, fillCall, pcieuniFillPrjInfo, if_pos h, if_neg halloc, if_pos hzero]
    · simp only [prjWalkBar, fillCall, pcieuniFillPrjInfo, if_pos h, if_neg halloc, if_neg hzero,
        seqCalls]

theorem prjWalkBar_decides (alloc : Nat → Bool) {fuel : Nat} {r : PcieuniDev × List Effect}
    (h : prjWalkBar regs (fun _ => true) m fuel dv = .ok r) :
    AllocDecides alloc dv (barBlocks regs m fuel) r (prjWalkBar regs alloc m fuel dv) := by
  induction fuel generalizing dv r with
  | zero => cases h
  | succ fuel ih =>
      by_cases hmagic : regs.ioread32 m 0 = asciiProjMagicNum
      · rw [barBlocks, if_pos hmagic, prjWalkBar_block alloc fuel dv hmagic]
        rw [prjWalkBar_block (fun _ => true) fuel dv hmagic] at h
        by_cases hzero : (regs.ioread32 m wordProjNext).toInt = 0
        · rw [if_pos hzero] at h ⊢
          rw [if_pos hzero]
          exact fillCall_decides alloc hmagic h
        · rw [if_neg hzero] at h ⊢
          rw [if_neg hzero]
          obtain ⟨r₁, r₂, hfill, hrest, rfl⟩ := seqCalls_ok h
          exact (fillCall_decides alloc hmagic hfill).seq (ih hrest)
      · rw [barBlocks, if_neg hmagic]
        simp only [prjWalkBar, pcieuniFillPrjInfo_noMagic hmagic, if_true] at h ⊢
        cases h
        exact .nil alloc rfl

theorem prjWalkBars_mapped {n : Fin 6} {ns : List (Fin 6)} (alloc : Nat → Bool) (fuel : Nat)
    (hm : (dv.bar n).memmoryBase = some m) :
    prjWalkBars regs alloc fuel (n :: ns) dv =
      seqCalls (prjWalkBar regs alloc m fuel dv) (prjWalkBars regs alloc fuel ns) := by
  cases hbar : prjWalkBar regs alloc m fuel dv with
  | error e => simp only [prjWalkBars, hm, hbar, seqCalls]
  | ok first =>
    cases hrest : prjWalkBars regs alloc fuel ns first.1 with
    | error e => simp only [prjWalkBars, hm, hbar, seqCalls, hrest]
    | ok rest => simp only [prjWalkBars, hm, hbar, seqCalls, hrest]

theorem prjWalkBars_decides (alloc : Nat → Bool) {fuel : Nat} {ns : List (Fin 6)}
    {r : PcieuniDev × List Effect} (h : prjWalkBars regs (fun _ => true) fuel ns dv = .ok r) :
    AllocDecides alloc dv (barsBlocks regs fuel dv ns) r (prjWalkBars regs alloc fuel ns dv) := by
  induction ns generalizing dv r with
  | nil =>
      cases h
      exact .nil alloc rfl
  | cons n ns ih =>
      rw [barsBlocks, List.flatMap_cons]
      cases hm : (dv.bar n).memmoryBase with
      | none =>
        simp only [prjWalkBars, hm] at h ⊢
        exact ih h
      | some m =>
        rw [prjWalkBars_mapped _ fuel hm] at h ⊢
        obtain ⟨r₁, r₂, hbar, hrest, rfl⟩ := seqCalls_ok h
        have hsame : r₁.1.bar = dv.bar := by
          rw [(prjWalkBar_fills (M := fun _ => True) trivial hbar).infoOnly]
        have hblocks : barsBlocks regs fuel r₁.1 ns = barsBlocks regs fuel dv ns := by
          simp only [barsBlocks, hsame]
        have hlater := ih hrest
        rw [hblocks] at hlater
        exact (prjWalkBar_decides alloc hbar).seq hlater

/-- Project discovery makes the records of its blocks, or it follows the null
pointer of an allocation that failed. -/
theorem pcieuniGetPrjinfo_decides (alloc : Nat → Bool) {fuel : Nat} {r : PcieuniDev × List Effect}
    (h : pcieuniGetPrjinfo regs (fun _ => true) fuel dv = .ok r) :
    AllocDecides alloc { dv with startupPrjNum := 0 } (prjBlocks regs fuel dv) r
      (pcieuniGetPrjinfo regs alloc fuel dv) := by
  by_cases hnext : dv.brdInfoList.projNext.toInt ≠ 0
  · simp only [pcieuniGetPrjinfo, prjBlocks, if_pos hnext] at h ⊢
    cases hm : (dv.bar 0).memmoryBase with
    | none => simp [hm] at h
    | some m =>
      simp only [hm] at h ⊢
      exact prjWalk_decides alloc h
  · simp only [pcieuniGetPrjinfo, prjBlocks, if_neg hnext] at h ⊢
    exact prjWalkBars_decides alloc h

end Walks

/-! ## Counters and lists -/

/-- What an open of file `f` leaves of the struct `dv`: one more file with its
entry and no error, or the same files and an error. An open that waits for the
mutex has left nothing yet. -/
def OpenKept (f : FilePtr) (dv : PcieuniDev) : Call (PcieuniDev × Int) → Prop
  | .ok (dv', r) =>
    (r = 0 ∧ dv'.devFileRef = dv.devFileRef + 1 ∧
      ∃ cnt, dv'.devFileList = ⟨f, cnt⟩ :: dv.devFileList) ∨
    (r < 0 ∧ dv'.devFileRef = dv.devFileRef ∧ dv'.devFileList = dv.devFileList)
  | .error .blocked => True
  | .error _ => False

/-- What project discovery leaves of the struct `dv`: as many new records as it
counts. -/
def PrjKept (dv : PcieuniDev) : Call (PcieuniDev × List Effect) → Prop
  | .ok (dv', _) => ∃ added, dv'.prjInfoList = added ++ dv.prjInfoList ∧
      dv'.startupPrjNum = added.length
  | .error _ => False

theorem pcieuniOpenExp_kept_iff (env : OpenEnv) (k : Slot) (f : FilePtr) (dv : PcieuniDev) :
    OpenKept f dv (pcieuniOpenExp env k f dv) ↔
      (mutexLockInterruptible dv.devMut env.intr = .acquired → env.alloc = true) := by
  cases hlock : mutexLockInterruptible dv.devMut env.intr with
  | interrupted =>
    simp only [pcieuniOpenExp, hlock]
    exact ⟨fun _ h => (LockOutcome.noConfusion h), fun _ => .inr ⟨by decide, rfl, rfl⟩⟩
  | blocked =>
    simp only [pcieuniOpenExp, hlock]
    exact ⟨fun _ h => (LockOutcome.noConfusion h), fun _ => trivial⟩
  | acquired =>
    cases halloc : env.alloc with
    | true =>
      simp only [pcieuniOpenExp, hlock, halloc, if_true]
      exact ⟨fun _ _ => trivial, fun _ => .inl ⟨rfl, rfl, _, rfl⟩⟩
    | false =>
      simp only [pcieuniOpenExp, hlock, halloc, Bool.false_eq_true, if_false]
      exact ⟨fun h => h.elim, fun h => absurd (h trivial) (by decide)⟩

/-- Counters and lists stay together, and no null pointer is followed, exactly
when no allocation fails that the two functions make. -/
theorem allocations_kept_iff {env : OpenEnv} {k : Slot} {f : FilePtr} {regs : Regs}
    {alloc : Nat → Bool} {fuel : Nat} {dv : PcieuniDev} {r : PcieuniDev × List Effect}
    (hends : pcieuniGetPrjinfo regs (fun _ => true) fuel dv = .ok r) :
    (OpenKept f dv (pcieuniOpenExp env k f dv) ↔
      (mutexLockInterruptible dv.devMut env.intr = .acquired → env.alloc = true)) ∧
    (PrjKept dv (pcieuniGetPrjinfo regs alloc fuel dv) ↔
      ∀ i < (prjBlocks regs fuel dv).length, alloc (i + 1) = true) := by
  refine ⟨pcieuniOpenExp_kept_iff env k f dv, ?_⟩
  have hdecides := pcieuniGetPrjinfo_decides alloc hends
  have hgranted : Granted alloc 0 (prjBlocks regs fuel dv).length ↔
      ∀ i < (prjBlocks regs fuel dv).length, alloc (i + 1) = true := by
    simp only [Granted, Int.zero_add, Int.toNat_natCast]
  rw [← hgranted]
  constructor
  · intro hkept
    by_contra hrefused
    rw [hdecides.refused hrefused] at hkept
    exact hkept
  · intro hall
    rw [hdecides.granted hall]
    refine ⟨(prjBlocks regs fuel dv).reverse, hdecides.list, ?_⟩
    rw [hdecides.count, List.length_reverse]
    exact Int.zero_add _

/-- An open, and the discovery of one project, with memory for both. -/
theorem allocations_kept_iff_oneProject :
    (OpenKept 1 (mappedBoard (oneProject 0)) (pcieuniOpenExp {} 0 1 (mappedBoard (oneProject 0))) ↔
      (mutexLockInterruptible (mappedBoard (oneProject 0)).devMut false = .acquired →
        true = true)) ∧
    (PrjKept (mappedBoard (oneProject 0))
        (pcieuniGetPrjinfo (oneProject 0) (fun _ => true) 2 (mappedBoard (oneProject 0))) ↔
      ∀ i < (prjBlocks (oneProject 0) 2 (mappedBoard (oneProject 0))).length, true = true) :=
  allocations_kept_iff (by rfl)

/-- An open without memory for the list entry, and the discovery of one project
without memory for its record. -/
theorem failed_allocation_followed :
    (pcieuniOpenExp { alloc := false } 0 1 {} = .error .oops ∧
      ¬ OpenKept 1 {} (pcieuniOpenExp { alloc := false } 0 1 {})) ∧
    (∃ r, pcieuniGetPrjinfo (oneProject 0) (fun _ => true) 2 (mappedBoard (oneProject 0)) = .ok r) ∧
    pcieuniGetPrjinfo (oneProject 0) (fun _ => false) 2 (mappedBoard (oneProject 0)) =
      .error .oops ∧
    ¬ PrjKept (mappedBoard (oneProject 0))
      (pcieuniGetPrjinfo (oneProject 0) (fun _ => false) 2 (mappedBoard (oneProject 0))) :=
  ⟨⟨rfl, id⟩, ⟨_, rfl⟩, rfl, id⟩

end Gpcieuni
