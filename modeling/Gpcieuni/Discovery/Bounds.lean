-- SUMMARY: The reads that discovery issues, also in a walk that does not end, and exactly when all of them lie inside the BARs.
import Gpcieuni.Discovery.Chains
import Gpcieuni.Probe

/-!
# Discovery and the length of the BARs

Discovery looks at no length. What it reads is determined by the registers, so
the layout of the registers alone decides whether it stays inside. A walk that
does not end returns no log; its reads are collected here turn by turn, and they
agree with the log of a walk that does end.
-/

namespace Gpcieuni

/-! ## Reads -/

/-- The reads of one `pcieuni_fill_prj_info`, where `ok` says that its allocation
succeeds. A null pointer is noticed at the first store, after the read of the
project's ID. -/
def fillReads (regs : Regs) (ok : Bool) (m : Iomem) (base : Int) : List Effect :=
  if regs.ioread32 m base = asciiProjMagicNum then
    if ok then
      [.ioread32 m base, .ioread32 m (base + wordProjId), .ioread32 m (base + wordProjVersion),
        .ioread32 m (base + wordProjDate), .ioread32 m (base + wordProjReserved),
        .ioread32 m (base + wordProjNext)]
    else [.ioread32 m base, .ioread32 m (base + wordProjId)]
  else [.ioread32 m base]

/-- Whether the next allocation of a walk succeeds. -/
def nextAlloc (alloc : Nat → Bool) (dv : PcieuniDev) : Bool :=
  alloc (dv.startupPrjNum + 1).toNat

/-- The reads of the first turns of the walk over BAR 0. -/
def prjWalkReads (regs : Regs) (alloc : Nat → Bool) (m : Iomem) :
    (fuel : Nat) → (next : Int) → PcieuniDev → List Effect
  | 0, _, _ => []
  | fuel + 1, next, dv =>
    if next = 0 then []
    else
      fillReads regs (nextAlloc alloc dv) m next ++
        match pcieuniFillPrjInfo regs alloc m next dv with
        | .error _ => []
        | .ok r => prjWalkReads regs alloc m fuel r.next r.dv

/-- The reads of the first turns of the walk over one of the BARs 1 to 5. -/
def prjWalkBarReads (regs : Regs) (alloc : Nat → Bool) (m : Iomem) :
    (fuel : Nat) → PcieuniDev → List Effect
  | 0, _ => []
  | fuel + 1, dv =>
    fillReads regs (nextAlloc alloc dv) m 0 ++
      match pcieuniFillPrjInfo regs alloc m 0 dv with
      | .error _ => []
      | .ok r => if r.next = 0 then [] else prjWalkBarReads regs alloc m fuel r.dv

/-- The reads of the walks over the BARs of a list. The walk over a BAR starts
when the one before it has ended. -/
def prjWalkBarsReads (regs : Regs) (alloc : Nat → Bool) (fuel : Nat) :
    List (Fin 6) → PcieuniDev → List Effect
  | [], _ => []
  | n :: ns, dv =>
    match (dv.bar n).memmoryBase with
    | none => prjWalkBarsReads regs alloc fuel ns dv
    | some m =>
      prjWalkBarReads regs alloc m fuel dv ++
        match prjWalkBar regs alloc m fuel dv with
        | .error _ => []
        | .ok (dv, _) => prjWalkBarsReads regs alloc fuel ns dv

/-- The reads of `pcieuni_get_prjinfo`. -/
def getPrjinfoReads (regs : Regs) (alloc : Nat → Bool) (fuel : Nat) (dv : PcieuniDev) :
    List Effect :=
  let dv := { dv with startupPrjNum := 0 }
  let next := dv.brdInfoList.projNext.toInt
  if next ≠ 0 then
    match (dv.bar 0).memmoryBase with
    | none => []
    | some m => prjWalkReads regs alloc m fuel next dv
  else prjWalkBarsReads regs alloc fuel prjBars dv

/-- The reads of board discovery and of the project discovery after it. -/
def discoverReads (regs : Regs) (alloc : Nat → Bool) (fuel : Nat) (dv : PcieuniDev) :
    List Effect :=
  let (dv, log) := pcieuniGetBrdinfo regs dv
  if dv.startupBrd ≠ 0 then log ++ getPrjinfoReads regs alloc fuel dv else log

section Log

variable {regs : Regs} {alloc : Nat → Bool} {m : Iomem} {fuel : Nat} {dv dv' : PcieuniDev}
  {log : List Effect}

theorem fillReads_eq_log {base : Int} {r : FillRet}
    (h : pcieuniFillPrjInfo regs alloc m base dv = .ok r) :
    fillReads regs (nextAlloc alloc dv) m base = r.log := by
  simp only [pcieuniFillPrjInfo] at h
  split at h
  · rename_i hmagic
    split at h
    · rename_i halloc
      cases h
      simp only [fillReads, nextAlloc, if_pos hmagic, halloc, ↓reduceIte]
    · cases h
  · rename_i hmagic
    cases h
    simp only [fillReads, if_neg hmagic]

theorem prjWalkReads_eq_log {next : Int}
    (h : prjWalk regs alloc m fuel next dv = .ok (dv', log)) :
    prjWalkReads regs alloc m fuel next dv = log := by
  induction fuel generalizing next dv log with
  | zero => cases h
  | succ fuel ih =>
      unfold prjWalk at h
      split at h
      · rename_i hzero
        cases h
        simp only [prjWalkReads, if_pos hzero]
      rename_i hzero
      split at h
      · cases h
      rename_i r hfill
      split at h
      · cases h
      rename_i dv₁ log₁ hrest
      cases h
      simp only [prjWalkReads, if_neg hzero, hfill, fillReads_eq_log hfill, ih hrest]

theorem prjWalkBarReads_eq_log (h : prjWalkBar regs alloc m fuel dv = .ok (dv', log)) :
    prjWalkBarReads regs alloc m fuel dv = log := by
  induction fuel generalizing dv log with
  | zero => cases h
  | succ fuel ih =>
      unfold prjWalkBar at h
      split at h
      · cases h
      rename_i r hfill
      split at h
      · rename_i hzero
        cases h
        simp only [prjWalkBarReads, hfill, if_pos hzero, fillReads_eq_log hfill, List.append_nil]
      rename_i hzero
      split at h
      · cases h
      rename_i dv₁ log₁ hrest
      cases h
      simp only [prjWalkBarReads, hfill, if_neg hzero, fillReads_eq_log hfill, ih hrest]

theorem prjWalkBarsReads_eq_log {ns : List (Fin 6)}
    (h : prjWalkBars regs alloc fuel ns dv = .ok (dv', log)) :
    prjWalkBarsReads regs alloc fuel ns dv = log := by
  induction ns generalizing dv log with
  | nil => cases h; rfl
  | cons n ns ih =>
      cases hm : (dv.bar n).memmoryBase with
      | none =>
          simp only [prjWalkBars, hm] at h
          simp only [prjWalkBarsReads, hm]
          exact ih h
      | some m =>
          simp only [prjWalkBars, hm] at h
          split at h
          · cases h
          rename_i dv₁ log₁ hbar
          split at h
          · cases h
          rename_i dv₂ log₂ hrest
          cases h
          simp only [prjWalkBarsReads, hm, hbar, prjWalkBarReads_eq_log hbar, ih hrest]

theorem getPrjinfoReads_eq_log (h : pcieuniGetPrjinfo regs alloc fuel dv = .ok (dv', log)) :
    getPrjinfoReads regs alloc fuel dv = log := by
  simp only [pcieuniGetPrjinfo] at h
  split at h
  · rename_i hnext
    cases hm : (dv.bar 0).memmoryBase with
    | none =>
        simp only [hm] at h
        cases h
    | some m =>
        simp only [hm] at h
        simp only [getPrjinfoReads, if_pos hnext, hm]
        exact prjWalkReads_eq_log h
  · rename_i hnext
    simp only [getPrjinfoReads, if_neg hnext]
    exact prjWalkBarsReads_eq_log h

/-- The reads of a discovery that comes to its end are those of its log. -/
theorem discoverReads_eq_log {env : ProbeEnv} (h : discover env regs dv = .ok (dv', log)) :
    discoverReads regs env.alloc env.fuel dv = log := by
  simp only [discover] at h
  simp only [discoverReads]
  split at h
  · rename_i hboard
    rw [if_pos hboard]
    split at h
    · cases h
    rename_i dv₁ log₁ hprj
    cases h
    rw [getPrjinfoReads_eq_log hprj]
  · rename_i hboard
    cases h
    rw [if_neg hboard]

end Log

/-! ## Staying inside -/

/-- The BAR has room for the block at `off`: for its magic number, and for the
words of a project if it is one. -/
def BlockFits (regs : Regs) (len : Iomem → Nat) (m : Iomem) (off : Int) : Prop :=
  0 ≤ off ∧ off + 4 ≤ len m ∧
    (regs.ioread32 m off = asciiProjMagicNum → off + wordProjNext + 4 ≤ len m)

/-- The BAR has room for the board header. -/
def HeaderFits (regs : Regs) (len : Iomem → Nat) (m : Iomem) : Prop :=
  4 ≤ len m ∧ (BoardMagic regs m → wordBoardToProj + 4 ≤ len m)

/-- The first block of each of the BARs in `ns` fits, up to the first BAR whose
first block points on. -/
def BarsFit (regs : Regs) (len : Iomem → Nat) (ns : List (Fin 6)) (dv : PcieuniDev) : Prop :=
  ∀ n ∈ ns, ∀ m, (dv.bar n).memmoryBase = some m →
    (∀ n' ∈ ns, n' < n → ∀ m', (dv.bar n').memmoryBase = some m' → FirstIsLast regs m') →
    BlockFits regs len m 0

/-- The header, and then the blocks that it leads to, fit into their BARs. -/
def DiscoveryFits (regs : Regs) (len : Iomem → Nat) (dv : PcieuniDev) : Prop :=
  ∀ m, (dv.bar 0).memmoryBase = some m →
    HeaderFits regs len m ∧
    (BoardMagic regs m →
      (regs.ioread32 m wordBoardToProj = 0 → BarsFit regs len prjBars dv) ∧
      ∀ p, Orbit.Visits (nextPrj regs m) (regs.ioread32 m wordBoardToProj) p → p ≠ 0 →
        BlockFits regs len m p.toInt)

section Inside

variable {regs : Regs} {alloc : Nat → Bool} {len : Iomem → Nat} {m : Iomem} {fuel : Nat}
  {dv : PcieuniDev}

theorem fillReads_inside {ok : Bool} {base : Int} (h : BlockFits regs len m base) :
    ∀ e ∈ fillReads regs ok m base, e.Inside len := by
  obtain ⟨hnonneg, hfirst, hmagic⟩ := h
  intro e he
  unfold fillReads at he
  split at he
  · rename_i hproj
    have hroom := hmagic hproj
    unfold wordProjNext at hroom
    cases ok with
    | true =>
        simp only [↓reduceIte, List.mem_cons, List.not_mem_nil, or_false] at he
        rcases he with rfl | rfl | rfl | rfl | rfl | rfl <;>
          simp only [Effect.Inside, wordProjId, wordProjVersion, wordProjDate, wordProjReserved,
            wordProjNext] <;> omega
    | false =>
        simp only [Bool.false_eq_true, ↓reduceIte, List.mem_cons, List.not_mem_nil,
          or_false] at he
        rcases he with rfl | rfl <;> simp only [Effect.Inside, wordProjId] <;> omega
  · rw [List.mem_singleton.mp he]
    exact ⟨hnonneg, hfirst⟩

/-- Where the allocation succeeds, the reads find out whether the block fits. -/
theorem blockFits_of_fillReads {base : Int}
    (h : ∀ e ∈ fillReads regs true m base, e.Inside len) : BlockFits regs len m base := by
  by_cases hmagic : regs.ioread32 m base = asciiProjMagicNum
  · simp only [fillReads, if_pos hmagic, ↓reduceIte] at h
    have hfirst : (Effect.ioread32 m base).Inside len := h _ (by simp)
    have hlast : (Effect.ioread32 m (base + wordProjNext)).Inside len := h _ (by simp)
    exact ⟨hfirst.1, hfirst.2, fun _ => hlast.2⟩
  · simp only [fillReads, if_neg hmagic] at h
    have hfirst : (Effect.ioread32 m base).Inside len := h _ (by simp)
    exact ⟨hfirst.1, hfirst.2, fun hproj => absurd hproj hmagic⟩

/-! ## The walk over BAR 0 -/

theorem prjWalkReads_inside {p : BitVec 32}
    (h : ∀ q, Orbit.Visits (nextPrj regs m) p q → q ≠ 0 → BlockFits regs len m q.toInt) :
    ∀ e ∈ prjWalkReads regs alloc m fuel p.toInt dv, e.Inside len := by
  induction fuel generalizing p dv with
  | zero => intro e he; cases he
  | succ fuel ih =>
      intro e he
      unfold prjWalkReads at he
      split at he
      · cases he
      rename_i hnext
      have hne := toInt_ne_zero.mp hnext
      rcases List.mem_append.mp he with hmem | hmem
      · exact fillReads_inside (h p .refl hne) e hmem
      cases hq : nextPrj regs m p with
      | none =>
          rcases nextPrj_none hq with hzero | ⟨-, hmagic⟩
          · exact absurd hzero hne
          · rw [pcieuniFillPrjInfo_noMagic hmagic] at hmem
            have hstop : prjWalkReads regs alloc m fuel 0 dv = [] := by
              cases fuel <;> simp [prjWalkReads]
            simp only [hstop] at hmem
            cases hmem
      | some q =>
          rcases pcieuniFillPrjInfo_next alloc dv hq with hfill | ⟨r, hfill, hr⟩
          · simp only [hfill] at hmem
            cases hmem
          · simp only [hfill, hr] at hmem
            exact ih (fun q' hvisit => h q' (hvisit.head hq)) e hmem

/-- Where allocations succeed, the walk reads every block that it visits. -/
theorem fillReads_subset_prjWalkReads {p q : BitVec 32} {n : Nat}
    (hvisit : Orbit.visit (nextPrj regs m) p n = some q) (hq : q ≠ 0) :
    ∀ e ∈ fillReads regs true m q.toInt,
      e ∈ prjWalkReads regs (fun _ => true) m (n + 1) p.toInt dv := by
  induction n generalizing p dv with
  | zero =>
      cases hvisit
      intro e he
      rw [prjWalkReads, if_neg (toInt_ne_zero.mpr hq)]
      exact List.mem_append_left _ he
  | succ n ih =>
      rw [Orbit.visit_succ] at hvisit
      cases hp : nextPrj regs m p with
      | none => rw [hp] at hvisit; cases hvisit
      | some p' =>
          rw [hp] at hvisit
          obtain ⟨hne, hmagic, rfl⟩ := nextPrj_some hp
          obtain ⟨r, hfill, hr, -⟩ :=
            @pcieuniFillPrjInfo_magic _ (fun _ => true) _ _ dv hmagic rfl
          intro e he
          rw [prjWalkReads, if_neg (toInt_ne_zero.mpr hne)]
          apply List.mem_append_right _
          simp only [hfill, hr]
          exact ih hvisit e he

/-! ## The walks over the BARs 1 to 5 -/

theorem prjWalkBarReads_inside (h : BlockFits regs len m 0) :
    ∀ e ∈ prjWalkBarReads regs alloc m fuel dv, e.Inside len := by
  induction fuel generalizing dv with
  | zero => intro e he; cases he
  | succ fuel ih =>
      intro e he
      unfold prjWalkBarReads at he
      rcases List.mem_append.mp he with hmem | hmem
      · exact fillReads_inside h e hmem
      split at hmem
      · cases hmem
      split at hmem
      · cases hmem
      · exact ih e hmem

theorem prjWalkBar_one (dv : PcieuniDev) (hfirst : FirstIsLast regs m) :
    ∃ dv' log, prjWalkBar regs (fun _ => true) m 1 dv = .ok (dv', log) := by
  have hchain : ∃ l, BlockChain regs m 0 l := by
    by_cases hmagic : regs.ioread32 m 0 = asciiProjMagicNum
    · exact ⟨_, .last hmagic (by rw [Int.zero_add]; exact hfirst hmagic)⟩
    · exact ⟨_, .noMagic hmagic⟩
  obtain ⟨l, hl⟩ := hchain
  obtain ⟨dv', log, hok, -⟩ :=
    prjWalkBar_firstIsLast (fun _ => true) dv 0 hfirst hl
      (fun _ _ => rfl)
  exact ⟨dv', log, hok⟩

private theorem prjWalkBar_bar {dv' : PcieuniDev} {log : List Effect}
    (h : prjWalkBar regs alloc m fuel dv = .ok (dv', log)) : dv'.bar = dv.bar := by
  rw [(prjWalkBar_fills (M := fun _ => True) trivial h).infoOnly]

theorem prjWalkBarsReads_inside {ns : List (Fin 6)} (hsorted : ns.Pairwise (· < ·))
    (h : BarsFit regs len ns dv) :
    ∀ e ∈ prjWalkBarsReads regs alloc fuel ns dv, e.Inside len := by
  induction ns generalizing dv with
  | nil => intro e he; cases he
  | cons n ns ih =>
      obtain ⟨hlt, hsorted'⟩ := List.pairwise_cons.mp hsorted
      have hrest : (∀ m, (dv.bar n).memmoryBase = some m → FirstIsLast regs m) →
          BarsFit regs len ns dv := by
        intro hhere n' hn' m' hm' hbefore
        apply h n' (List.mem_cons_of_mem _ hn') m' hm'
        intro n'' hn'' hlt''
        cases hn'' with
        | head => exact hhere
        | tail _ hmem => exact hbefore n'' hmem hlt''
      intro e he
      unfold prjWalkBarsReads at he
      split at he
      · rename_i hm
        exact ih hsorted' (hrest (by simp [hm])) e he
      rename_i m hm
      have hfits : BlockFits regs len m 0 := by
        apply h n (List.mem_cons_self ..) m hm
        intro n' hn' hlt'
        cases hn' with
        | head => exact absurd hlt' (Fin.lt_irrefl _)
        | tail _ hmem => exact absurd (hlt n' hmem) (Fin.lt_asymm hlt')
      rcases List.mem_append.mp he with hmem | hmem
      · exact prjWalkBarReads_inside hfits e hmem
      split at hmem
      · cases hmem
      rename_i dv₁ log₁ hbar
      have hlast := firstIsLast_of_prjWalkBar hbar
      have hfit₁ := hrest (by rw [hm]; rintro _ ⟨⟩; exact hlast)
      refine ih hsorted' ?_ e hmem
      unfold BarsFit at hfit₁ ⊢
      rwa [prjWalkBar_bar hbar]

theorem barsFit_of_prjWalkBarsReads {ns : List (Fin 6)} (hsorted : ns.Pairwise (· < ·))
    (h : ∀ e ∈ prjWalkBarsReads regs (fun _ => true) 1 ns dv, e.Inside len) :
    BarsFit regs len ns dv := by
  induction ns generalizing dv with
  | nil => intro n hn; cases hn
  | cons n ns ih =>
      obtain ⟨hlt, hsorted'⟩ := List.pairwise_cons.mp hsorted
      intro n' hn' m' hm' hbefore
      unfold prjWalkBarsReads at h
      cases hn' with
      | head =>
          simp only [hm'] at h
          refine blockFits_of_fillReads fun e he => h e (List.mem_append_left _ ?_)
          exact List.mem_append_left _ he
      | tail _ hmem =>
          have hbefore' := fun n'' hn'' => hbefore n'' (List.mem_cons_of_mem _ hn'')
          cases hm : (dv.bar n).memmoryBase with
          | none =>
              simp only [hm] at h
              exact ih hsorted' h n' hmem m' hm' hbefore'
          | some m =>
              -- the walk over BAR `n` ends, so the BARs after it are looked at
              obtain ⟨dv₁, log₁, hbar⟩ := prjWalkBar_one dv
                (hbefore n (List.mem_cons_self ..) (hlt n' hmem) m hm)
              simp only [hm, hbar] at h
              have hsame := prjWalkBar_bar hbar
              refine @ih dv₁ hsorted' (fun e he => h e (List.mem_append_right _ he))
                n' hmem m' ?_ ?_
              · rw [hsame]; exact hm'
              · rw [hsame]; exact hbefore'

/-! ## The whole of discovery -/

theorem pcieuniGetBrdinfo_inside_iff (regs : Regs) (len : Iomem → Nat)
    (hm : (dv.bar 0).memmoryBase = some m) :
    (∀ e ∈ (pcieuniGetBrdinfo regs dv).2, e.Inside len) ↔ HeaderFits regs len m := by
  by_cases hmagic : BoardMagic regs m
  · have hif := hmagic
    unfold BoardMagic at hif
    simp only [pcieuniGetBrdinfo, hm, if_pos hif, HeaderFits, hmagic, true_implies,
      List.forall_mem_cons, List.not_mem_nil, false_implies, implies_true, and_true, Effect.Inside,
      wordBoardId, wordBoardVersion, wordBoardDate, wordBoardHwVersion, wordBoardToProj]
    omega
  · have hif := hmagic
    unfold BoardMagic at hif
    simp only [pcieuniGetBrdinfo, hm, if_neg hif, HeaderFits, hmagic, false_implies, and_true,
      List.forall_mem_cons, List.not_mem_nil, implies_true, Effect.Inside]
    omega

/-- Project discovery, from the mappings and the project pointer that board
discovery leaves. -/
theorem getPrjinfoReads_inside_iff (regs : Regs) (len : Iomem → Nat) (dv : PcieuniDev)
    (hm : (dv.bar 0).memmoryBase = some m) :
    (∀ alloc fuel, ∀ e ∈ getPrjinfoReads regs alloc fuel dv, e.Inside len) ↔
      (dv.brdInfoList.projNext = 0 → BarsFit regs len prjBars dv) ∧
      ∀ p, Orbit.Visits (nextPrj regs m) dv.brdInfoList.projNext p → p ≠ 0 →
        BlockFits regs len m p.toInt := by
  have hsorted : prjBars.Pairwise (· < ·) := by decide
  by_cases hnext : dv.brdInfoList.projNext = 0
  · have hzero : ¬ dv.brdInfoList.projNext.toInt ≠ 0 := fun h => toInt_ne_zero.mp h hnext
    have hstay : ∀ p, Orbit.Visits (nextPrj regs m) dv.brdInfoList.projNext p → p = 0 := by
      rintro p ⟨n, hn⟩
      cases n with
      | zero => cases hn; exact hnext
      | succ n =>
          rw [Orbit.visit_succ, hnext] at hn
          simp [nextPrj] at hn
    simp only [getPrjinfoReads, if_neg hzero]
    constructor
    · intro h
      refine ⟨fun _ => ?_, fun p hvisit hp => absurd (hstay p hvisit) hp⟩
      have hbars := barsFit_of_prjWalkBarsReads hsorted (h (fun _ => true) 1)
      exact hbars
    · rintro ⟨hbars, -⟩ alloc fuel
      exact prjWalkBarsReads_inside hsorted (hbars hnext)
  · simp only [getPrjinfoReads, if_pos (toInt_ne_zero.mpr hnext), hm]
    constructor
    · intro h
      refine ⟨fun hzero => absurd hzero hnext, ?_⟩
      rintro p ⟨n, hvisit⟩ hp
      apply blockFits_of_fillReads
      intro e he
      apply h (fun _ => true) (n + 1) e
      exact fillReads_subset_prjWalkReads hvisit hp e he
    · rintro ⟨-, hfits⟩ alloc fuel
      exact prjWalkReads_inside hfits

/-- Every read of discovery lies inside its BAR, for every allocator and through
every turn of its loops, exactly when the registers are laid out so. -/
theorem discoverReads_inside_iff (regs : Regs) (len : Iomem → Nat) (dv : PcieuniDev) :
    (∀ alloc fuel, ∀ e ∈ discoverReads regs alloc fuel dv, e.Inside len) ↔
      DiscoveryFits regs len dv := by
  cases hm : (dv.bar 0).memmoryBase with
  | none => simp [discoverReads, pcieuniGetBrdinfo, hm, DiscoveryFits]
  | some m =>
      have hheader := pcieuniGetBrdinfo_inside_iff regs len hm
      by_cases hmagic : BoardMagic regs m
      · have hbrd := pcieuniGetBrdinfo_magic hm hmagic
        have hprj := getPrjinfoReads_inside_iff regs len (pcieuniGetBrdinfo regs dv).1
          (m := m) (by rw [hbrd]; exact hm)
        have hboard : (pcieuniGetBrdinfo regs dv).1.startupBrd ≠ 0 := by
          rw [hbrd]
          exact Int.one_ne_zero
        have hnext : (pcieuniGetBrdinfo regs dv).1.brdInfoList.projNext =
            regs.ioread32 m wordBoardToProj := by rw [hbrd]
        have hbars : BarsFit regs len prjBars (pcieuniGetBrdinfo regs dv).1 ↔
            BarsFit regs len prjBars dv := by rw [hbrd]; rfl
        rw [hnext, hbars] at hprj
        simp only [discoverReads, if_pos hboard, List.forall_mem_append, DiscoveryFits, hm,
          Option.some.injEq, forall_eq', hmagic, true_implies, ← hheader, ← hprj]
        exact ⟨fun h => ⟨(h (fun _ => true) 0).1, fun alloc fuel => (h alloc fuel).2⟩,
          fun h alloc fuel => ⟨h.1, h.2 alloc fuel⟩⟩
      · have hbrd := pcieuniGetBrdinfo_noMagic fun m' hm' => by
          rw [hm] at hm'
          cases hm'
          exact hmagic
        have hboard : ¬ (pcieuniGetBrdinfo regs dv).1.startupBrd ≠ 0 := by
          rw [hbrd]
          exact fun hne => hne rfl
        simp only [discoverReads, if_neg hboard, DiscoveryFits, hm, Option.some.injEq, forall_eq',
          hmagic, false_implies, and_true, ← hheader]
        exact ⟨fun h => h (fun _ => true) 0, fun h _ _ => h⟩

end Inside

/-- A board header with the project pointer `p`, and nothing else. -/
def pointerTo (p : BitVec 32) : Regs := fun _ _ off =>
  if off = 0 then asciiBoardMagicNum else if off = wordBoardToProj then p else 0

/-- A pointer of -4 makes discovery read the four bytes before the BAR. -/
theorem discoverReads_negative :
    Effect.ioread32 ⟨7, 0, 0x10000⟩ (-4) ∈ discoverReads (pointerTo 0xFFFFFFFC) (fun _ => true) 1
      { bar := fun n => { memmoryBase := some ⟨7, n, 0x10000⟩ } } ∧
    ¬ (Effect.ioread32 ⟨7, 0, 0x10000⟩ (-4)).Inside (fun _ => 0x1000) :=
  ⟨by decide, fun h => absurd h.1 (by decide)⟩

end Gpcieuni
