-- SUMMARY: Whether a probe depends on the earlier use of its slot: which fields a probe overwrites, and for which cards two histories of the slot leave the same struct.
import Gpcieuni.DiscoverySpec
import Gpcieuni.Exports
import Gpcieuni.Driver

/-!
# The history of a slot

The structs live as long as the module, so a probe finds in its slot what the
last device left there. A remove gives up the mappings and the project list. The
rest depends on the probe, which writes `rw_off` of the BARs 2 to 5, the DMA
flag and the board record in some of its branches only. `historyIndependent_iff`
says for which cards these branches are all taken.
-/

namespace Gpcieuni

/-! ## Histories -/

/-- A probe, a remove, or a call of one of the discovery functions on a slot. -/
inductive HistoryOp where
  | probe (env : ProbeEnv) (d : PciDev)
  | remove (devName : String) (d : PciDev)
  | getBrdinfo (k : Slot)
  | getPrjinfo (alloc : Nat → Bool) (fuel : Nat) (k : Slot)

namespace Driver

def history (s : Driver) : HistoryOp → Call Driver
  | .probe env d =>
    match s.exec (.probe env d) with
    | .error e => .error e
    | .ok (s', _) => .ok s'
  | .remove devName d =>
    match s.exec (.remove devName d) with
    | .error e => .error e
    | .ok (s', _) => .ok s'
  | .getBrdinfo k => .ok (s.setDev k (pcieuniGetBrdinfo s.regs (s.dev k)).1)
  | .getPrjinfo alloc fuel k =>
    match pcieuniGetPrjinfo s.regs alloc fuel (s.dev k) with
    | .error e => .error e
    | .ok (dv, _) => .ok (s.setDev k dv)

/-- The kernel probes devices that are not bound and removes devices that are. -/
def HistoryAdmissible (s : Driver) : HistoryOp → Prop
  | .probe _ d => d ∉ s.bound
  | .remove _ d => d ∈ s.bound
  | _ => True

instance (s : Driver) (op : HistoryOp) : Decidable (s.HistoryAdmissible op) :=
  match op with
  | .probe _ d => inferInstanceAs (Decidable (d ∉ s.bound))
  | .remove _ d => inferInstanceAs (Decidable (d ∈ s.bound))
  | .getBrdinfo .. | .getPrjinfo .. => isTrue trivial

end Driver

/-- The driver under any sequence of probes, removes and discoveries. -/
def historyLts : Lts Driver HistoryOp Unit where
  init := driverLts.init
  step s op := (s.history op).toOption.map (·, ())

theorem historyLts_step {s s' : Driver} {op : HistoryOp} {u : Unit}
    (h : historyLts.step s op = some (s', u)) : s.history op = .ok s' := by
  simp only [historyLts] at h
  cases hop : s.history op with
  | error e => simp [hop, Except.toOption] at h
  | ok s₁ => simpa [hop, Except.toOption] using h

namespace Driver

/-- A history that ends in `s`. -/
def AfterHistory (s : Driver) : Prop := historyLts.Reachable HistoryAdmissible s

/-! ## What is left in a slot -/

/-- What holds of the struct of slot `k` after every history. -/
structure SlotHistory (k : Slot) (dv : PcieuniDev) : Prop where
  brdNum : dv.brdNum = k
  boardReserved : dv.brdInfoList.boardReserved = 0
  unmapped : dv.binded = 0 → ∀ n, (dv.bar n).memmoryBase = none
  prjInfoList : dv.binded = 0 → dv.prjInfoList = []

theorem SlotHistory.setDev {s : Driver} (hs : ∀ k, SlotHistory k (s.dev k)) {k : Slot}
    {dv : PcieuniDev} (h : SlotHistory k dv) : ∀ j, SlotHistory j ((s.setDev k dv).dev j) :=
  setDev_forall h (fun j _ => hs j)

theorem discover_boardReserved {env : ProbeEnv} {regs : Regs} {dv dv' : PcieuniDev}
    {log : List Effect} (h : discover env regs dv = .ok (dv', log)) :
    dv'.brdInfoList.boardReserved = dv.brdInfoList.boardReserved := by
  have hbrd := pcieuniGetBrdinfo_boardReserved regs dv
  simp only [discover] at h
  split at h
  · split at h
    · cases h
    · rename_i dv₁ log₁ hprj
      cases h
      exact (pcieuniGetPrjinfo_fills hprj).boardReserved.trans hbrd
  · cases h
    exact hbrd

theorem SlotHistory.probe {env : ProbeEnv} {d : PciDev} {s s' : Driver} {r : OpRet}
    (hs : ∀ k, SlotHistory k (s.dev k)) (h : s.exec (.probe env d) = .ok (s', r)) :
    ∀ k, SlotHistory k (s'.dev k) := by
  by_cases hret : r.ret = 0
  · obtain ⟨i, dv, o, -, -, -, -, rfl⟩ := exec_probe_ok h hret
    have hbinded : dv.binded ≠ 0 := by simp [o.binded]
    refine SlotHistory.setDev hs ⟨o.brdNum.trans (hs _).brdNum, ?_, fun hzero => absurd hzero hbinded,
      fun hzero => absurd hzero hbinded⟩
    rw [o.info.1, discover_boardReserved o.discovered, o.foundInfo.1]
    exact (hs _).boardReserved
  · rcases exec_probe h with ⟨-, rfl, -⟩ | ⟨i, drvdata, -, -, -, -, rfl⟩ |
        ⟨i, dv, -, -, -, hzero, -, -⟩
    · exact hs
    · exact SlotHistory.setDev hs ⟨(hs _).brdNum, (hs _).boardReserved, by simp, by simp⟩
    · exact absurd hzero hret

theorem SlotHistory.remove {devName : String} {d : PciDev} {s s' : Driver} {r : OpRet}
    (hs : ∀ k, SlotHistory k (s.dev k)) (h : s.exec (.remove devName d) = .ok (s', r)) :
    ∀ k, SlotHistory k (s'.dev k) := by
  obtain ⟨k₁, -, -, -, hk₁, -, hprj, hbrd, -, -⟩ := exec_remove_ok h
  obtain ⟨k, dv, hk, -, -, hrem, -, rfl⟩ := exec_remove h
  obtain rfl : k₁ = k := Option.some.inj (hk₁.symm.trans hk)
  simp only [setDev_dev_self] at hprj hbrd
  refine SlotHistory.setDev hs ⟨hrem.brdNum.trans (hs _).brdNum, ?_, fun _ => hrem.unmapped,
    fun _ => hprj⟩
  rw [hbrd]
  exact (hs _).boardReserved

theorem SlotHistory.getBrdinfo {k : Slot} {dv : PcieuniDev} (h : SlotHistory k dv) (regs : Regs) :
    SlotHistory k (pcieuniGetBrdinfo regs dv).1 := by
  have hinfo := pcieuniGetBrdinfo_infoOnly regs dv
  have hreserved := pcieuniGetBrdinfo_boardReserved regs dv
  have hprj : (pcieuniGetBrdinfo regs dv).1.prjInfoList = dv.prjInfoList := by
    simp only [pcieuniGetBrdinfo]
    split
    · rfl
    · split <;> rfl
  generalize (pcieuniGetBrdinfo regs dv).1 = dv' at hinfo hreserved hprj ⊢
  unfold PcieuniDev.InfoOnly at hinfo
  refine ⟨?_, hreserved.trans h.boardReserved, ?_, ?_⟩
  · rw [hinfo]; exact h.brdNum
  · rw [hinfo]; exact h.unmapped
  · intro hfree
    rw [hinfo] at hfree
    exact hprj.trans (h.prjInfoList hfree)

/-- On a slot without mappings project discovery finds nothing. -/
theorem SlotHistory.getPrjinfo {k : Slot} {dv dv' : PcieuniDev} {regs : Regs}
    {alloc : Nat → Bool} {fuel : Nat} {log : List Effect} (h : SlotHistory k dv)
    (hok : pcieuniGetPrjinfo regs alloc fuel dv = .ok (dv', log)) : SlotHistory k dv' := by
  have hinfo := pcieuniGetPrjinfo_infoOnly hok
  have hfills := pcieuniGetPrjinfo_fills hok
  have hreserved : dv'.brdInfoList.boardReserved = 0 := hfills.boardReserved.trans h.boardReserved
  unfold PcieuniDev.InfoOnly at hinfo
  have hbinded : dv'.binded = dv.binded := by rw [hinfo]
  refine ⟨by rw [hinfo]; exact h.brdNum, hreserved, ?_, ?_⟩
  · rw [hinfo]; exact h.unmapped
  · intro hfree
    rw [hbinded] at hfree
    cases hfills with
    | nil => exact h.prjInfoList hfree
    | cons hm _ _ =>
        obtain ⟨n, hm⟩ := hm
        rw [h.unmapped hfree n] at hm
        cases hm

theorem AfterHistory.slot {s : Driver} (h : s.AfterHistory) (k : Slot) : SlotHistory k (s.dev k) := by
  refine Lts.Reachable.invariant (I := fun s => ∀ k, SlotHistory k (s.dev k)) ?_ ?_ h k
  · rintro s ⟨major, verMaj, verMin, regs, rfl⟩ k
    exact ⟨rfl, rfl, fun _ _ => rfl, fun _ => rfl⟩
  · rintro s op s' u hs - hstep
    have hop := historyLts_step hstep
    cases op with
    | probe env d =>
        simp only [history] at hop
        split at hop
        · cases hop
        · rename_i hexec
          cases hop
          exact SlotHistory.probe hs hexec
    | remove devName d =>
        simp only [history] at hop
        split at hop
        · cases hop
        · rename_i hexec
          cases hop
          exact SlotHistory.remove hs hexec
    | getBrdinfo j =>
        cases hop
        exact SlotHistory.setDev hs ((hs j).getBrdinfo s.regs)
    | getPrjinfo alloc fuel j =>
        simp only [history] at hop
        split at hop
        · cases hop
        · rename_i hprj
          cases hop
          exact SlotHistory.setDev hs ((hs j).getPrjinfo hprj)

end Driver

/-! ## What a probe overwrites -/

/-- BAR 0 can be mapped and starts with the magic number of a board. -/
def ProbeEnv.FindsBoard (env : ProbeEnv) (d : PciDev) (regs : Regs) : Prop :=
  env.Implements 0 ∧ env.iomap 0 ≠ none ∧
    (regs d 0 0 = asciiBoardMagicNum ∨ regs d 0 0 = asciiBoardMagicNumL)

/-- The card takes every branch of the probe that writes to the struct: it has the
BARs 2 to 5, it can do DMA, and it shows a board. -/
structure ProbeEnv.Overwrites (env : ProbeEnv) (d : PciDev) (regs : Regs) : Prop where
  bars : ∀ n : Fin 6, 2 ≤ n → env.Implements n
  mask : env.setMask64 = 0 ∨ env.setMask32 = 0
  board : env.FindsBoard d regs

section Probe

variable {env : ProbeEnv} {d : PciDev} {regs : Regs}

theorem ProbeEnv.findsBoard_iff {b : Bar} : env.FindsBoard d regs ↔
    ∃ m, (probedBar env d 0 b).memmoryBase = some m ∧ BoardMagic regs m := by
  simp only [probedBar_memmoryBase]
  constructor
  · rintro ⟨himp, hmap, hmagic⟩
    obtain ⟨addr, haddr⟩ := Option.ne_none_iff_exists'.mp hmap
    exact ⟨⟨d, 0, addr⟩, ⟨himp, rfl, rfl, haddr⟩, hmagic⟩
  · rintro ⟨⟨d', n, addr⟩, ⟨himp, rfl, rfl, haddr⟩, hmagic⟩
    exact ⟨himp, by rw [haddr]; simp, hmagic⟩

theorem discover_noBoard {dv : PcieuniDev}
    (h : ¬ ∃ m, (dv.bar 0).memmoryBase = some m ∧ BoardMagic regs m) :
    ∃ log, discover env regs dv = .ok ({ dv with startupBrd := 0 }, log) := by
  have hbrd := pcieuniGetBrdinfo_noMagic fun m hm hmagic => h ⟨m, hm, hmagic⟩
  simp only [discover, hbrd, ne_eq, not_true_eq_false, if_false]
  exact ⟨_, rfl⟩

/-- With a board in BAR 0 discovery does not depend on the board record, nor on
the number of projects. -/
theorem discover_board {dv₁ dv₂ dv₁' : PcieuniDev} {m : Iomem} {log : List Effect}
    (hm : (dv₁.bar 0).memmoryBase = some m) (hmagic : BoardMagic regs m)
    (hmapped : ∀ n, (dv₂.bar n).memmoryBase = (dv₁.bar n).memmoryBase)
    (hreserved : dv₂.brdInfoList.boardReserved = dv₁.brdInfoList.boardReserved)
    (hprj : dv₂.prjInfoList = dv₁.prjInfoList)
    (hok : discover env regs dv₁ = .ok (dv₁', log)) :
    ∃ dv₂' log', discover env regs dv₂ = .ok (dv₂', log') ∧ dv₁'.SameInfo dv₂' := by
  have hbrd₁ := pcieuniGetBrdinfo_magic hm hmagic
  have hbrd₂ := pcieuniGetBrdinfo_magic ((hmapped 0).trans hm) hmagic
  simp only [discover] at hok ⊢
  generalize pcieuniGetBrdinfo regs dv₁ = g₁ at hok hbrd₁
  generalize pcieuniGetBrdinfo regs dv₂ = g₂ at hbrd₂ ⊢
  obtain ⟨g₁, log₁⟩ := g₁
  obtain ⟨g₂, log₂⟩ := g₂
  simp only at hok hbrd₁ hbrd₂ ⊢
  have hstart₁ : g₁.startupBrd ≠ 0 := by simp [hbrd₁]
  have hstart₂ : g₂.startupBrd ≠ 0 := by simp [hbrd₂]
  rw [if_pos hstart₁] at hok
  rw [if_pos hstart₂]
  split at hok
  · cases hok
  rename_i dv log' hget
  cases hok
  have hmapped' : ∀ n, (g₂.bar n).memmoryBase = (g₁.bar n).memmoryBase := by
    rw [hbrd₁, hbrd₂]; exact hmapped
  have hbrd : g₂.brdInfoList = g₁.brdInfoList := by rw [hbrd₁, hbrd₂]; simp only [hreserved]
  have hprj' : g₂.prjInfoList = g₁.prjInfoList := by rw [hbrd₁, hbrd₂]; exact hprj
  have hstart : g₂.startupBrd = g₁.startupBrd := by rw [hbrd₁, hbrd₂]
  obtain ⟨dv₂', hget₂, hsame⟩ := pcieuniGetPrjinfo_congr hmapped' hbrd hprj' hstart hget
  exact ⟨dv₂', log₂ ++ log', by simp only [hget₂], hsame⟩

/-- The discovery of a probe that found a board, started from another struct. -/
theorem ProbeOutcome.discover_again {dv dv' start : PcieuniDev} {b : Fin 6 → Bar}
    (o : ProbeOutcome env regs d dv dv') (hboard : env.FindsBoard d regs)
    (hbar : ∀ n, start.bar n = probedBar env d n (b n))
    (hreserved : start.brdInfoList.boardReserved = dv.brdInfoList.boardReserved)
    (hprj : start.prjInfoList = dv.prjInfoList) :
    ∃ found log, discover env regs start = .ok (found, log) ∧ o.found'.SameInfo found := by
  obtain ⟨m, hm, hmagic⟩ := ProbeEnv.findsBoard_iff.mp hboard
  have hm' : (o.found.bar 0).memmoryBase = some m := by
    rw [o.foundBar]
    exact hm
  have hmapped : ∀ n, (start.bar n).memmoryBase = (o.found.bar n).memmoryBase := by
    intro n
    rw [o.foundBar, hbar]
    rfl
  refine discover_board hm' hmagic hmapped ?_ ?_ o.discovered
  · rw [o.foundInfo.1, hreserved]
  · rw [o.foundInfo.2.1, hprj]

/-- What a probe leaves of the fields that it writes in some branches only. -/
theorem ProbeOutcome.kept {dv dv' : PcieuniDev} (o : ProbeOutcome env regs d dv dv') :
    (∀ n : Fin 6, 2 ≤ n → ¬ env.Implements n → (dv'.bar n).rwOff = (dv.bar n).rwOff) ∧
    (¬ (env.setMask64 = 0 ∨ env.setMask32 = 0) → dv'.devDma64mask = dv.devDma64mask) ∧
    (¬ env.FindsBoard d regs → dv'.brdInfoList = dv.brdInfoList) := by
  refine ⟨fun n hn himp => ?_, fun hmask => ?_, fun hboard => ?_⟩
  · have hge : ¬ (n : Nat) < 2 := Nat.not_lt.mpr (Fin.le_def.mp hn)
    rw [o.bar]
    simp [probedBar, himp, hge]
  · obtain ⟨h64, h32⟩ := not_or.mp hmask
    rw [o.devDma64mask, if_neg h64, if_neg h32]
  · have hnone : ¬ ∃ m, (o.found.bar 0).memmoryBase = some m ∧ BoardMagic regs m := by
      rw [o.foundBar, ← ProbeEnv.findsBoard_iff]
      exact hboard
    obtain ⟨log, hok⟩ := discover_noBoard hnone
    have hfound : { o.found with startupBrd := 0 } = o.found' :=
      (Prod.mk.inj (Except.ok.inj (hok.symm.trans o.discovered))).1
    rw [o.info.1, ← hfound]
    exact o.foundInfo.1

end Probe

/-- What a probe leaves in the struct, with what `pcieuni_procinfo` prints of it. -/
structure PcieuniDev.SameProbe (dv₁ dv₂ : PcieuniDev) : Prop where
  bar : ∀ n, dv₂.bar n = dv₁.bar n
  devDma64mask : dv₂.devDma64mask = dv₁.devDma64mask
  startupBrd : dv₂.startupBrd = dv₁.startupBrd
  brdInfoList : dv₂.brdInfoList = dv₁.brdInfoList
  startupPrjNum : dv₂.startupPrjNum = dv₁.startupPrjNum
  prjInfoList : dv₂.prjInfoList = dv₁.prjInfoList
  procinfo : ∀ v, pcieuniProcinfo v dv₂ = pcieuniProcinfo v dv₁

namespace Driver

section TwoHistories

variable {env : ProbeEnv} {d : PciDev} {regs : Regs} {k : Slot} {dv₁ dv₂ dv₁' dv₂' : PcieuniDev}

/-- Two free slots after a probe of a card that overwrites everything. -/
theorem sameProbe_of_overwrites (h : env.Overwrites d regs) (h₁ : SlotHistory k dv₁)
    (h₂ : SlotHistory k dv₂) (hfree₁ : dv₁.binded = 0) (hfree₂ : dv₂.binded = 0)
    (o₁ : ProbeOutcome env regs d { dv₁ with binded := 1 } dv₁')
    (o₂ : ProbeOutcome env regs d { dv₂ with binded := 1 } dv₂') : dv₁'.SameProbe dv₂' := by
  have hreserved : o₂.found.brdInfoList.boardReserved = dv₁.brdInfoList.boardReserved := by
    rw [o₂.foundInfo.1]
    exact h₂.boardReserved.trans h₁.boardReserved.symm
  have hempty : o₂.found.prjInfoList = dv₁.prjInfoList := by
    rw [o₂.foundInfo.2.1]
    exact (h₂.prjInfoList hfree₂).trans (h₁.prjInfoList hfree₁).symm
  obtain ⟨found₂, log, hdisc, hsame⟩ := o₁.discover_again h.board o₂.foundBar hreserved hempty
  obtain rfl : found₂ = o₂.found' := by
    have heq := hdisc.symm.trans o₂.discovered
    cases heq
    rfl
  have hbar : ∀ n, dv₂'.bar n = dv₁'.bar n := by
    intro n
    rw [o₁.bar, o₂.bar]
    by_cases himp : env.Implements n
    · simp [probedBar, himp]
    · have hlt : (n : Nat) < 2 := by
        by_contra hge
        exact himp (h.bars n (Fin.le_def.mpr (Nat.not_lt.mp hge)))
      simp [probedBar, himp, hlt]
  have hbrd : dv₂'.brdInfoList = dv₁'.brdInfoList := by
    rw [o₁.info.1, o₂.info.1, hsame.brdInfoList]
  have hprj : dv₂'.prjInfoList = dv₁'.prjInfoList := by
    rw [o₁.info.2.1, o₂.info.2.1, hsame.prjInfoList]
  have hnum : dv₂'.startupPrjNum = dv₁'.startupPrjNum := by
    rw [o₁.info.2.2.2, o₂.info.2.2.2, hsame.startupPrjNum]
  refine ⟨hbar, ?_, ?_, hbrd, hnum, hprj, fun v => ?_⟩
  · rw [o₁.devDma64mask, o₂.devDma64mask]
    rcases h.mask with hmask | hmask
    · simp [hmask]
    · simp [hmask]
  · rw [o₁.info.2.2.1, o₂.info.2.2.1, hsame.startupBrd]
  · have hnumber : dv₂'.brdNum = dv₁'.brdNum := by
      rw [o₁.brdNum, o₂.brdNum]
      exact h₂.brdNum.trans h₁.brdNum.symm
    have hslot : dv₂'.slotNum = dv₁'.slotNum := by rw [o₁.slotNum, o₂.slotNum]
    simp only [pcieuniProcinfo, hnumber, hslot, hbrd, hprj, hnum]

/-- A card that is probed with success from one history is so from every other. -/
theorem probe_returns_anywhere {s : Driver} {i : Fin pcieuniNrDevs} (hs : s.AfterHistory)
    (hfree : s.freeSlot = some i) (henable : env.enableDevice = 0)
    (hregions : env.requestRegions = 0) (h₁ : SlotHistory k dv₁) (hfree₁ : dv₁.binded = 0)
    (o₁ : ProbeOutcome env regs d { dv₁ with binded := 1 } dv₁') :
    ∃ s' r, { s with regs }.exec (.probe env d) = .ok (s', r) ∧ r.ret = 0 := by
  have h₂ := hs.slot i.castSucc
  have hfree₂ := freeSlot_some hfree
  obtain ⟨hbar, hbrd, hprj⟩ := setupBars_start env d { s.dev i.castSucc with binded := 1 }
  have hdisc : ∃ found log, discover env regs (setupBars env d allBars
      (setupIdentity env d { s.dev i.castSucc with binded := 1 })).1 = .ok (found, log) := by
    generalize (setupBars env d allBars (setupIdentity env d
      { s.dev i.castSucc with binded := 1 })).1 = start at hbar hbrd hprj ⊢
    by_cases hboard : env.FindsBoard d regs
    · have hreserved : start.brdInfoList.boardReserved = dv₁.brdInfoList.boardReserved := by
        rw [hbrd]
        exact h₂.boardReserved.trans h₁.boardReserved.symm
      have hempty : start.prjInfoList = dv₁.prjInfoList := by
        rw [hprj]
        exact (h₂.prjInfoList hfree₂).trans (h₁.prjInfoList hfree₁).symm
      obtain ⟨found, log, hok, -⟩ := o₁.discover_again hboard hbar hreserved hempty
      exact ⟨found, log, hok⟩
    · have hnone : ¬ ∃ m, (start.bar 0).memmoryBase = some m ∧ BoardMagic regs m := by
        rw [hbar, ← ProbeEnv.findsBoard_iff]
        exact hboard
      obtain ⟨log, hok⟩ := discover_noBoard hnone
      exact ⟨_, log, hok⟩
  obtain ⟨found, log, hok⟩ := hdisc
  obtain ⟨s', r, hprobe, hret⟩ := pcieuniProbeExp_returns (s := { s with regs }) hfree henable
    hregions hok
  simp only [exec, hprobe, hret, if_true]
  exact ⟨_, _, rfl, rfl⟩

end TwoHistories

/-! ## Two histories that differ -/

/-- A card with BAR 0 and the BARs 2 to 5, of which only BAR 0 can be mapped. -/
private def wornCard : ProbeEnv where
  resource n := if n = 1 then {} else { start := 0x1000, stop := 0x1fff }
  iomap n := if n = 0 then some 0x10000 else none
  fuel := 1

/-- Its registers: a board with the id 1 and without projects. -/
private def wornBoard : Regs := fun _ _ off =>
  if off = 0 then asciiBoardMagicNum else if off = wordBoardId then 1 else 0

/-- The slots below `i` are lost to probes that fail, and the calls `l` follow. -/
private def upToSlot (i : Fin pcieuniNrDevs) (l : List HistoryOp) : List HistoryOp :=
  List.replicate i (.probe { enableDevice := -5, fuel := 1 } 6) ++ l

/-- What a history has left in a slot, where later probes can find it. -/
private structure Leftovers where
  freeSlot : Option (Fin pcieuniNrDevs)
  bound : List PciDev
  devDma64mask : Int
  boardId : BitVec 32
  rwOffs : List (BitVec 64)
  deriving DecidableEq

private def leftIn (i : Fin pcieuniNrDevs) (s : Driver) : Leftovers where
  freeSlot := s.freeSlot
  bound := s.bound
  devDma64mask := (s.dev i.castSucc).devDma64mask
  boardId := (s.dev i.castSucc).brdInfoList.boardId
  rwOffs := allBars.map fun n => ((s.dev i.castSucc).bar n).rwOff

private theorem afterHistory_of_exec {i : Fin pcieuniNrDevs} {l : List HistoryOp} {v : Leftovers}
    (h : (historyLts.exec (initial 250 1 0 wornBoard) l).map (fun r =>
      (r.1.all fun t => decide (t.pre.HistoryAdmissible t.act), leftIn i r.2)) = some (true, v)) :
    ∃ s : Driver, s.AfterHistory ∧ leftIn i s = v := by
  obtain ⟨tr, s, hrun, -, hend⟩ := Lts.Run.of_exec_map h
  obtain ⟨hadm, hleft⟩ := Prod.mk.inj hend
  exact ⟨s, ⟨_, tr, ⟨250, 1, 0, wornBoard, rfl⟩, hrun, by simpa using hadm⟩, hleft⟩

private theorem exists_fresh (i : Fin pcieuniNrDevs) : ∃ s : Driver, s.AfterHistory ∧
    leftIn i s = ⟨some i, [], 0, 0, [0, 0, 0, 0, 0, 0]⟩ := by
  apply afterHistory_of_exec (l := upToSlot i [])
  revert i
  decide +kernel

private theorem exists_worn (i : Fin pcieuniNrDevs) : ∃ s : Driver, s.AfterHistory ∧
    leftIn i s = ⟨some i, [], 1, 1, [0, 0, 0xfff, 0xfff, 0xfff, 0xfff]⟩ := by
  apply afterHistory_of_exec (l := upToSlot i [.probe wornCard 7, .remove "gpcieuni" 7])
  revert i
  decide +kernel

/-! ## History independence -/

/-- The struct `dv` is what a successful probe of `d` leaves in slot `i` after some
history that ends with this slot free. The registers are those at the probe. -/
def ProbedAfter (i : Fin pcieuniNrDevs) (env : ProbeEnv) (d : PciDev) (regs : Regs)
    (dv : PcieuniDev) : Prop :=
  ∃ s s' r, AfterHistory s ∧ s.freeSlot = some i ∧ d ∉ s.bound ∧
    { s with regs }.exec (.probe env d) = .ok (s', r) ∧ r.ret = 0 ∧ s'.dev i.castSucc = dv

/-- Every two histories lead to the same struct. -/
def HistoryIndependent (i : Fin pcieuniNrDevs) (env : ProbeEnv) (d : PciDev) (regs : Regs) : Prop :=
  ∀ dv₁ dv₂, ProbedAfter i env d regs dv₁ → ProbedAfter i env d regs dv₂ → dv₁.SameProbe dv₂

section Independence

variable {i : Fin pcieuniNrDevs} {env : ProbeEnv} {d : PciDev} {regs : Regs} {dv dv' : PcieuniDev}

theorem outcome_of_exec {s s' : Driver} {r : OpRet} (hfree : s.freeSlot = some i)
    (h : { s with regs }.exec (.probe env d) = .ok (s', r)) (hret : r.ret = 0) :
    Nonempty (ProbeOutcome env regs d { s.dev i.castSucc with binded := 1 } (s'.dev i.castSucc)) := by
  obtain ⟨j, dv, o, -, -, hj, -, rfl⟩ := exec_probe_ok h hret
  obtain rfl : i = j := Option.some.inj (hfree.symm.trans hj)
  simp only [setDev_dev_self]
  exact ⟨o⟩

private theorem rwOff_of_map {f : Fin 6 → BitVec 64} {a : BitVec 64}
    (h : allBars.map f = [0, 0, a, a, a, a]) : ∀ n : Fin 6, 2 ≤ n → f n = a := by
  simp only [allBars, List.map_cons, List.map_nil, List.cons.injEq] at h
  obtain ⟨-, -, h2, h3, h4, h5, -⟩ := h
  intro n hn
  match n, hn with
  | 2, _ => exact h2
  | 3, _ => exact h3
  | 4, _ => exact h4
  | 5, _ => exact h5

/-- A slot that is fresh and one that was used before tell the cards apart that
leave something as it was. -/
theorem HistoryIndependent.overwrites (h : HistoryIndependent i env d regs)
    (henable : env.enableDevice = 0) (hregions : env.requestRegions = 0) {k : Slot}
    (hdv : SlotHistory k dv) (hfree : dv.binded = 0)
    (o : ProbeOutcome env regs d { dv with binded := 1 } dv') : env.Overwrites d regs := by
  have hprobe : ∀ s : Driver, s.AfterHistory → s.freeSlot = some i → s.bound = [] →
      ∃ dv₁, ProbedAfter i env d regs dv₁ ∧
        Nonempty (ProbeOutcome env regs d { s.dev i.castSucc with binded := 1 } dv₁) := by
    intro s hs hi hbound
    obtain ⟨s', r, hexec, hret⟩ := probe_returns_anywhere hs hi henable hregions hdv hfree o
    exact ⟨s'.dev i.castSucc, ⟨s, s', r, hs, hi, by simp [hbound], hexec, hret, rfl⟩,
      outcome_of_exec hi hexec hret⟩
  obtain ⟨s₁, hs₁, hleft₁⟩ := exists_fresh i
  obtain ⟨s₂, hs₂, hleft₂⟩ := exists_worn i
  simp only [leftIn, Leftovers.mk.injEq] at hleft₁ hleft₂
  obtain ⟨hi₁, hbound₁, hmask₁, hid₁, hoffs₁⟩ := hleft₁
  obtain ⟨hi₂, hbound₂, hmask₂, hid₂, hoffs₂⟩ := hleft₂
  obtain ⟨dv₁, hafter₁, ⟨o₁⟩⟩ := hprobe s₁ hs₁ hi₁ hbound₁
  obtain ⟨dv₂, hafter₂, ⟨o₂⟩⟩ := hprobe s₂ hs₂ hi₂ hbound₂
  have hsame := h dv₁ dv₂ hafter₁ hafter₂
  obtain ⟨hrwOff₁, hflag₁, hbrd₁⟩ := o₁.kept
  obtain ⟨hrwOff₂, hflag₂, hbrd₂⟩ := o₂.kept
  refine ⟨fun n hn => ?_, ?_, ?_⟩
  · by_contra himp
    have heq : (0 : BitVec 64) = 0xfff := by
      calc (0 : BitVec 64) = ((s₁.dev i.castSucc).bar n).rwOff := (rwOff_of_map hoffs₁ n hn).symm
        _ = (dv₁.bar n).rwOff := (hrwOff₁ n hn himp).symm
        _ = (dv₂.bar n).rwOff := by rw [hsame.bar n]
        _ = ((s₂.dev i.castSucc).bar n).rwOff := hrwOff₂ n hn himp
        _ = 0xfff := rwOff_of_map hoffs₂ n hn
    exact absurd heq (by decide)
  · by_contra hmask
    have heq : (0 : Int) = 1 := by
      calc (0 : Int) = (s₁.dev i.castSucc).devDma64mask := hmask₁.symm
        _ = dv₁.devDma64mask := (hflag₁ hmask).symm
        _ = dv₂.devDma64mask := hsame.devDma64mask.symm
        _ = (s₂.dev i.castSucc).devDma64mask := hflag₂ hmask
        _ = 1 := hmask₂
    exact absurd heq (by decide)
  · by_contra hboard
    have heq : (0 : BitVec 32) = 1 := by
      calc (0 : BitVec 32) = (s₁.dev i.castSucc).brdInfoList.boardId := hid₁.symm
        _ = dv₁.brdInfoList.boardId := by rw [hbrd₁ hboard]
        _ = dv₂.brdInfoList.boardId := by rw [hsame.brdInfoList]
        _ = (s₂.dev i.castSucc).brdInfoList.boardId := by rw [hbrd₂ hboard]
        _ = 1 := hid₂
    exact absurd heq (by decide)

/-- The same for a card whose probe succeeds on a driver that was just loaded. -/
theorem overwrites_of_exec {major : Int} {verMaj verMin : BitVec 16} {s' : Driver} {r : OpRet}
    (hok : (initial major verMaj verMin regs).exec (.probe env d) = .ok (s', r)) (hret : r.ret = 0)
    (h : HistoryIndependent i env d regs) : env.Overwrites d regs := by
  have hinit : AfterHistory (initial major verMaj verMin regs) :=
    ⟨_, [], ⟨_, _, _, _, rfl⟩, .nil _, by simp⟩
  obtain ⟨j, dv, o, -, -, hj, -, -⟩ := exec_probe_ok hok hret
  rcases exec_probe hok with ⟨hnone, -, -⟩ | ⟨-, -, -, -, hfailed, -, -⟩ |
      ⟨-, -, -, henable, hregions, -, -, -⟩
  · rw [hj] at hnone
    cases hnone
  · exact absurd hret hfailed
  · exact h.overwrites henable hregions (hinit.slot j.castSucc) (freeSlot_some hj) o

/-- For a card whose probe succeeds on a driver that was just loaded: the probe is
independent of the history of its slot, whichever slot it is, if and only if the
card overwrites what the history can have left. -/
theorem historyIndependent_iff {major : Int} {verMaj verMin : BitVec 16} {s' : Driver} {r : OpRet}
    (hok : (initial major verMaj verMin regs).exec (.probe env d) = .ok (s', r)) (hret : r.ret = 0) :
    HistoryIndependent i env d regs ↔ env.Overwrites d regs := by
  refine ⟨overwrites_of_exec hok hret, ?_⟩
  rintro h dv₁ dv₂ ⟨s₁, s₁', r₁, hs₁, hi₁, -, hexec₁, hret₁, rfl⟩
    ⟨s₂, s₂', r₂, hs₂, hi₂, -, hexec₂, hret₂, rfl⟩
  obtain ⟨o₁⟩ := outcome_of_exec hi₁ hexec₁ hret₁
  obtain ⟨o₂⟩ := outcome_of_exec hi₂ hexec₂ hret₂
  exact sameProbe_of_overwrites h (hs₁.slot _) (hs₂.slot _) (freeSlot_some hi₁)
    (freeSlot_some hi₂) o₁ o₂

end Independence

/-- A card with all six BARs and a board. -/
private def fullCard : ProbeEnv where
  resource _ := { start := 0x1000, stop := 0x1fff }
  iomap _ := some 0x10000
  fuel := 1

private theorem exec_of_toOption {s : Driver} {a : Op}
    (h : (s.exec a).toOption.map (·.2.ret) = some 0) :
    ∃ s' r, s.exec a = .ok (s', r) ∧ r.ret = 0 := by
  cases hexec : s.exec a with
  | error e => simp [hexec, Except.toOption] at h
  | ok q => exact ⟨q.1, q.2, rfl, by simpa [hexec, Except.toOption] using h⟩

theorem historyIndependent_iff_fullCard :
    HistoryIndependent ⟨3, by decide⟩ fullCard 8 wornBoard := by
  obtain ⟨s', r, hok, hret⟩ := exec_of_toOption (s := initial 250 1 0 wornBoard)
    (a := .probe fullCard 8) (by decide +kernel)
  exact (historyIndependent_iff hok hret).mpr
    ⟨by decide +kernel, .inl rfl, by decide, by decide, .inl rfl⟩

/-- A card without BARs. In a slot that had another card before, `pcieuni_procinfo`
prints the board of that card for it. -/
theorem probe_prints_old_board : ∃ tr₁ s₁ tr₂ s₂,
    historyLts.Run (initial 250 1 0 wornBoard) tr₁ s₁ ∧
    tr₁.map (·.act) = [.probe { fuel := 1 } 8] ∧
    historyLts.Run (initial 250 1 0 wornBoard) tr₂ s₂ ∧
    tr₂.map (·.act) = [.probe wornCard 7, .remove "gpcieuni" 7, .probe { fuel := 1 } 8] ∧
    s₁.drvdata 8 = some 0 ∧ s₂.drvdata 8 = some 0 ∧
    pcieuniProcinfo ⟨1, 0, 1, 0⟩ (s₁.dev 0) ≠ pcieuniProcinfo ⟨1, 0, 1, 0⟩ (s₂.dev 0) ∧
    ¬ HistoryIndependent ⟨0, by decide⟩ { fuel := 1 } 8 wornBoard := by
  obtain ⟨tr₁, s₁, hrun₁, hacts₁, hend₁⟩ := Lts.Run.of_exec_map (M := historyLts)
    (g := fun r => (r.2.drvdata 8, pcieuniProcinfo ⟨1, 0, 1, 0⟩ (r.2.dev 0)))
    (v := (some 0, pcieuniProcinfo ⟨1, 0, 1, 0⟩ {}))
    (s := initial 250 1 0 wornBoard) (l := [.probe { fuel := 1 } 8]) (by decide +kernel)
  obtain ⟨tr₂, s₂, hrun₂, hacts₂, hend₂⟩ := Lts.Run.of_exec_map (M := historyLts)
    (g := fun r => (r.2.drvdata 8, pcieuniProcinfo ⟨1, 0, 1, 0⟩ (r.2.dev 0)))
    (v := (some 0, pcieuniProcinfo ⟨1, 0, 1, 0⟩ { brdInfoList := { boardId := 1 } }))
    (s := initial 250 1 0 wornBoard)
    (l := [.probe wornCard 7, .remove "gpcieuni" 7, .probe { fuel := 1 } 8]) (by decide +kernel)
  obtain ⟨hdrv₁, htext₁⟩ := Prod.mk.inj hend₁
  obtain ⟨hdrv₂, htext₂⟩ := Prod.mk.inj hend₂
  obtain ⟨s', r, hok, hret⟩ := exec_of_toOption (s := initial 250 1 0 wornBoard)
    (a := .probe { fuel := 1 } 8) (by decide +kernel)
  refine ⟨tr₁, s₁, tr₂, s₂, hrun₁, hacts₁, hrun₂, hacts₂, hdrv₁, hdrv₂, ?_, fun h => ?_⟩
  · rw [htext₁, htext₂]
    decide +kernel
  · exact (overwrites_of_exec hok hret h).board.1 rfl

end Driver

end Gpcieuni
