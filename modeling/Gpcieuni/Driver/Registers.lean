-- SUMMARY: The registers over whole runs: only writes change them, each change is an access on the bus, and a read gets what was written last.
import Gpcieuni.Lib.WriteLog
import Gpcieuni.Exports
import Gpcieuni.Session
import Gpcieuni.Driver.Noninterference

/-!
# The registers

User space writes registers through the character device, and a driver that is built
on this one writes them with `pcieuni_register_write32`. Everything else, from the
discovery of a probe to the release of the BARs, only reads them. So the accesses of
a run, replayed in their order, give the registers at its end.
-/

namespace Gpcieuni

/-- A register: a byte offset in a BAR of a device. -/
abbrev Register := PciDev × Fin 6 × Int

/-- The registers as one memory. -/
def Regs.cells (regs : Regs) : Register → BitVec 32 := fun x => regs x.1 x.2.1 x.2.2

/-- The register that an access writes, and the value. -/
def Effect.stores : Effect → Option (Register × BitVec 32)
  | .iowrite32 m off w => some ((m.dev, m.bar, off), w)
  | _ => none

theorem Regs.cells_iowrite32 (regs : Regs) (m : Iomem) (off : Int) (w : BitVec 32) :
    (regs.iowrite32 m off w).cells =
      WriteLog.step Effect.stores regs.cells (.iowrite32 m off w) := by
  funext ⟨d, n, i⟩
  by_cases hx : d = m.dev ∧ n = m.bar ∧ i = off
  · obtain ⟨rfl, rfl, rfl⟩ := hx
    simp [Regs.cells, WriteLog.step, Effect.stores]
  · have hne : (d, n, i) ≠ (m.dev, m.bar, off) := by simpa using hx
    simp only [Regs.cells, WriteLog.step, Effect.stores]
    rw [Regs.iowrite32_ne hx, Function.update_of_ne hne]
    rfl

/-- The accesses of a log account for what happened to the registers. -/
def Accounted (regs regs' : Regs) (log : List Effect) : Prop :=
  regs'.cells = WriteLog.replay Effect.stores regs.cells log

theorem Accounted.of_no_store {regs : Regs} {log : List Effect}
    (h : ∀ e ∈ log, e.stores = none) : Accounted regs regs log :=
  (WriteLog.replay_of_none h).symm

theorem Accounted.append {regs₁ regs₂ regs₃ : Regs} {log log' : List Effect}
    (h : Accounted regs₁ regs₂ log) (h' : Accounted regs₂ regs₃ log') :
    Accounted regs₁ regs₃ (log ++ log') := by
  rw [Accounted, WriteLog.replay_append, ← h]
  exact h'

/-! ## The calls -/

theorem readLoop_stores {regs : Regs} {left : Nat → Nat} {ti : TransferInformation} {fuel : Nat}
    {n : BitVec 32} {buf : UserMem} {r : ReadLoop}
    (h : readLoop regs left ti fuel n buf = .ok r) : ∀ e ∈ r.log, e.stores = none := by
  induction fuel generalizing n buf r with
  | zero => cases h
  | succ fuel ih =>
      simp only [readLoop] at h
      split at h
      · split at h
        · cases h
          simp [Effect.stores]
        · split at h
          · cases h
          rename_i r' hrest
          cases h
          intro e he
          rcases List.mem_cons.mp he with rfl | hmem
          · rfl
          · exact ih hrest e hmem
      · cases h
        simp

theorem writeLoop_accounted {buf : UserMem} {fault : Nat → Bool} {ti : TransferInformation}
    {fuel : Nat} {n : BitVec 32} {regs : Regs} {r : WriteLoop}
    (h : writeLoop buf fault ti fuel n regs = .ok r) : Accounted regs r.regs r.log := by
  induction fuel generalizing n regs r with
  | zero => cases h
  | succ fuel ih =>
      simp only [writeLoop] at h
      split at h
      · split at h
        · cases h
          exact .of_no_store (by simp)
        · split at h
          · cases h
          rename_i r' hrest
          cases h
          rw [Accounted, WriteLog.replay_cons, ← Regs.cells_iowrite32]
          exact ih hrest
      · cases h
        exact .of_no_store (by simp)

theorem pcieuniReadNoStructExp_stores {env : ReadEnv} {regs : Regs} {dv dv' : PcieuniDev}
    {buf : UserMem} {count pos : BitVec 64} {r : ReadRet}
    (h : pcieuniReadNoStructExp env regs dv buf count pos = .ok (dv', r)) :
    ∀ e ∈ r.log, e.stores = none := by
  simp only [pcieuniReadNoStructExp] at h
  split at h
  · cases h
    simp
  split at h
  · cases h
    simp
  · cases h
  · split at h
    · cases h
    rename_i r' hloop
    cases h
    exact readLoop_stores hloop

theorem pcieuniWriteNoStructExp_accounted {env : WriteEnv} {regs : Regs} {dv dv' : PcieuniDev}
    {buf : UserMem} {count pos : BitVec 64} {r : WriteRet}
    (h : pcieuniWriteNoStructExp env regs dv buf count pos = .ok (dv', r)) :
    Accounted regs r.regs r.log := by
  simp only [pcieuniWriteNoStructExp] at h
  split at h
  · cases h
    exact .of_no_store (by simp)
  split at h
  · cases h
    exact .of_no_store (by simp)
  · cases h
  · split at h
    · cases h
    rename_i r' hloop
    cases h
    exact writeLoop_accounted hloop

theorem pcieuniRegisterWrite32_accounted (regs : Regs) (bar : Iomem) (offset value : BitVec 32)
    (ensureFlush : Bool) :
    Accounted regs (pcieuniRegisterWrite32 regs bar offset value ensureFlush).1
      (pcieuniRegisterWrite32 regs bar offset value ensureFlush).2.2 := by
  simp only [pcieuniRegisterWrite32, Accounted, WriteLog.replay_cons, ← Regs.cells_iowrite32]
  refine (WriteLog.replay_of_none fun e he => ?_).symm
  split at he
  · rw [List.mem_singleton.mp he]
    rfl
  · cases he

theorem pcieuniFillPrjInfo_stores {regs : Regs} {alloc : Nat → Bool} {m : Iomem} {base : Int}
    {dv : PcieuniDev} {r : FillRet} (h : pcieuniFillPrjInfo regs alloc m base dv = .ok r) :
    ∀ e ∈ r.log, e.stores = none := by
  simp only [pcieuniFillPrjInfo] at h
  split at h
  · split at h
    · cases h
      simp [Effect.stores]
    · cases h
  · cases h
    simp [Effect.stores]

theorem Fills.stores {regs : Regs} {alloc : Nat → Bool} {M : Iomem → Prop} {dv dv' : PcieuniDev}
    {log : List Effect} (h : Fills regs alloc M dv dv' log) : ∀ e ∈ log, e.stores = none := by
  induction h with
  | nil => simp
  | cons _ hfill _ ih =>
      intro e he
      rcases List.mem_append.mp he with hmem | hmem
      · exact pcieuniFillPrjInfo_stores hfill e hmem
      · exact ih e hmem

theorem pcieuniGetBrdinfo_stores (regs : Regs) (dv : PcieuniDev) :
    ∀ e ∈ (pcieuniGetBrdinfo regs dv).2, e.stores = none := by
  simp only [pcieuniGetBrdinfo]
  split
  · simp
  · split <;> simp [Effect.stores]

/-- Discovery only reads. -/
theorem discover_stores {env : ProbeEnv} {regs : Regs} {dv dv' : PcieuniDev} {log : List Effect}
    (h : discover env regs dv = .ok (dv', log)) : ∀ e ∈ log, e.stores = none := by
  simp only [discover] at h
  split at h
  · split at h
    · cases h
    rename_i hprj
    cases h
    intro e he
    rcases List.mem_append.mp he with hmem | hmem
    · exact pcieuniGetBrdinfo_stores regs dv e hmem
    · exact (pcieuniGetPrjinfo_fills hprj).stores e hmem
  · cases h
    exact pcieuniGetBrdinfo_stores regs dv

/-- The call is a write. -/
def Op.writes : Op → Bool
  | .write .. => true
  | .probe .. | .remove .. | .openFile .. | .release .. | .read .. | .ioctl .. => false

namespace Driver

variable {s s' : Driver} {op : Op} {r : OpRet}

theorem exec_probe_stores {env : ProbeEnv} {d : PciDev} (h : s.exec (.probe env d) = .ok (s', r)) :
    ∀ e ∈ r.log, e.stores = none := by
  by_cases hret : r.ret = 0
  · obtain ⟨i, dv, o, devSts, slotNum, -, hlog, -⟩ := exec_probe_ok h hret
    rw [hlog]
    intro e he
    simp only [List.mem_append, List.mem_cons, List.not_mem_nil, or_false, List.mem_flatMap] at he
    rcases he with (rfl | rfl) | (((⟨n, -, hn⟩ | hinfo) | hmsi) | hnode)
    · rfl
    · rfl
    · simp only [iomapCalls] at hn
      split at hn
      · rw [List.mem_singleton.mp hn]
        rfl
      · cases hn
    · exact discover_stores o.discovered e hinfo
    · simp only [msiCalls] at hmsi
      split at hmsi
      · rw [List.mem_singleton.mp hmsi]
        rfl
      · cases hmsi
    · simp only [nodeCalls, List.mem_append, List.mem_cons, List.not_mem_nil, or_false] at hnode
      rcases hnode with hold | rfl | rfl
      · split at hold
        · rw [List.mem_singleton.mp hold]
          rfl
        · cases hold
      · rfl
      · rfl
  · rcases exec_probe_failed h hret with hlog | ⟨err, -, hlog⟩ | ⟨err, -, hlog⟩
    · simp [hlog]
    · simp [hlog, Effect.stores]
    · simp [hlog, Effect.stores]

theorem exec_remove_stores {devName : String} {d : PciDev}
    (h : s.exec (.remove devName d) = .ok (s', r)) : ∀ e ∈ r.log, e.stores = none := by
  obtain ⟨k, p, devno, name, -, -, -, -, -, hlog⟩ := exec_remove_ok h
  rw [hlog]
  intro e he
  simp only [List.mem_append, List.mem_cons, List.not_mem_nil, or_false, List.mem_flatMap,
    List.mem_map] at he
  rcases he with ((hintr | ⟨n, -, hn⟩) | rfl | rfl | rfl | rfl) | ⟨entry, -, rfl⟩
  · simp only [releaseInterrupts, List.mem_append] at hintr
    rcases hintr with hirq | hmsi
    · split at hirq
      · rw [List.mem_singleton.mp hirq]
        rfl
      · cases hirq
    · split at hmsi
      · rw [List.mem_singleton.mp hmsi]
        rfl
      · cases hmsi
  · simp only [iounmapCalls, Option.mem_toList, Option.map_eq_some_iff] at hn
    obtain ⟨m, -, rfl⟩ := hn
    rfl
  all_goals rfl

/-- Of the calls, only a write stores. -/
theorem exec_stores (h : s.exec op = .ok (s', r)) (hop : op.writes = false) :
    s'.regs = s.regs ∧ ∀ e ∈ r.log, e.stores = none := by
  cases op with
  | probe env d =>
      refine ⟨?_, exec_probe_stores h⟩
      rcases exec_probe h with ⟨-, rfl, -⟩ | ⟨i, drvdata, -, -, -, -, rfl⟩ |
          ⟨i, dv, -, -, -, -, -, rfl⟩ <;> rfl
  | remove devName d =>
      refine ⟨?_, exec_remove_stores h⟩
      obtain ⟨j, dv, -, -, -, -, -, rfl⟩ := exec_remove h
      rfl
  | openFile env j f =>
      simp only [Driver.exec] at h
      split at h
      · cases h
      · cases h
        exact ⟨rfl, by simp⟩
  | release intr f =>
      simp only [Driver.exec] at h
      split at h
      · cases h
      split at h
      · cases h
      · cases h
        exact ⟨rfl, by simp⟩
  | read env f buf count fPos =>
      simp only [Driver.exec] at h
      split at h
      · cases h
      split at h
      · cases h
      · rename_i hread
        cases h
        exact ⟨rfl, pcieuniReadNoStructExp_stores hread⟩
  | ioctl env f cmd arg =>
      simp only [Driver.exec] at h
      split at h
      · cases h
      split at h
      · cases h
      · rename_i hioctl
        cases h
        refine ⟨rfl, fun e he => ?_⟩
        obtain ⟨d, rfl⟩ := pcieuniIoctlExp_log hioctl e he
        rfl
  | write => cases hop

theorem exec_accounted (h : s.exec op = .ok (s', r)) : Accounted s.regs s'.regs r.log := by
  cases hop : op.writes with
  | false =>
      obtain ⟨hregs, hlog⟩ := exec_stores h hop
      rw [hregs]
      exact .of_no_store hlog
  | true =>
      cases op with
      | write env f buf count fPos =>
          simp only [Driver.exec] at h
          split at h
          · cases h
          split at h
          · cases h
          · rename_i hwrite
            cases h
            exact pcieuniWriteNoStructExp_accounted hwrite
      | probe | remove | openFile | release | read | ioctl => cases hop

end Driver

/-! ## The driver and its clients -/

/-- A call of the driver, or a register write of a driver that is built on it. -/
inductive ClientOp where
  | call (op : Op)
  | registerWrite32 (bar : Iomem) (offset value : BitVec 32) (ensureFlush : Bool)

def ClientOp.writes : ClientOp → Bool
  | .call op => op.writes
  | .registerWrite32 .. => true

namespace Driver

def execClient (s : Driver) : ClientOp → Call (Driver × OpRet)
  | .call op => s.exec op
  | .registerWrite32 bar offset value ensureFlush =>
    let (regs, ret, log) := pcieuniRegisterWrite32 s.regs bar offset value ensureFlush
    .ok ({ s with regs }, ⟨ret, log⟩)

end Driver

/-- The driver under any sequence of calls of both kinds. -/
def clientLts : Lts Driver ClientOp OpRet where
  init := driverLts.init
  step s a := (s.execClient a).toOption

theorem clientLts_step {s s' : Driver} {a : ClientOp} {r : OpRet} :
    clientLts.step s a = some (s', r) ↔ s.execClient a = .ok (s', r) := by
  simp only [clientLts]
  cases s.execClient a <;> simp [Except.toOption]

/-- The accesses of a run. -/
def busLog (tr : List (Transition Driver ClientOp OpRet)) : List Effect :=
  tr.flatMap (·.out.log)

namespace Driver

/-- A read that returns finds `value` in the registers of the BAR, as far as it reads.
The counts are those that the VFS lets through, and the BARs are made of words. -/
def ReadsValues (s : Driver) (value : Register → BitVec 32) : Prop :=
  ∀ (env : ReadEnv) (f : FilePtr) (k : Slot) (buf out : UserMem) (count pos fPos : BitVec 64)
    (s' : Driver) (r : OpRet) (n : Fin 6) (m : Iomem),
    count.toNat ≤ 0x7ffff000 → 2 ^ 29 ≤ env.fuel →
    (∀ n m, ((s.dev k).bar n).memmoryBase = some m → ((s.dev k).bar n).length % 4 = 0) →
    s.privateData f = some k → (n : Nat) = pos.toNat / 2 ^ 60 % 8 →
    ((s.dev k).bar n).memmoryBase = some m →
    s.exec (.read env f buf count pos) = .ok (s', r) →
    s.delivered (.read env f buf count pos) = .transfer fPos out →
    ∀ j b, ((4 * j + 4 : Nat) : Int) ≤ r.ret → b < 4 →
      out (4 * j + b) = Word.byte (value (m.dev, m.bar, (pos.toNat % 2 ^ 60 + 4 * j : Nat))) b

theorem readsValues_cells (s : Driver) : s.ReadsValues s.regs.cells := by
  intro env f k buf out count pos fPos s' r n m hcount hfuel hlen hf hn hm h hout j b hj hb
  simp only [exec, hf] at h
  simp only [delivered, hf] at hout
  cases hread : pcieuniReadNoStructExp env s.regs (s.dev k) buf count pos with
  | error e => rw [hread] at h; cases h
  | ok x =>
      simp only [hread] at h hout
      cases h
      cases hout
      obtain ⟨l, hret, hfetched⟩ := read_returned hlen hcount hfuel hread
      replace hj : ((4 * j + 4 : Nat) : Int) ≤ x.2.ret := hj
      rcases hfetched with rfl | ⟨m', ⟨-, -, n', hn', hm', -⟩, hbytes⟩
      · omega
      · obtain rfl : n' = n := Fin.ext (hn'.trans hn.symm)
        obtain rfl : m = m' := Option.some.inj (hm.symm.trans hm')
        exact hbytes j (by omega) b hb

variable {s s' : Driver} {a : ClientOp} {r : OpRet}

theorem execClient_accounted (h : s.execClient a = .ok (s', r)) :
    Accounted s.regs s'.regs r.log := by
  cases a with
  | call op => exact exec_accounted h
  | registerWrite32 bar offset value ensureFlush =>
      cases h
      exact pcieuniRegisterWrite32_accounted s.regs bar offset value ensureFlush

theorem run_accounted {tr : List (Transition Driver ClientOp OpRet)}
    (h : clientLts.Run s tr s') : Accounted s.regs s'.regs (busLog tr) := by
  induction h with
  | nil s => exact .of_no_store (by simp [busLog])
  | cons hstep _ ih => exact (execClient_accounted (clientLts_step.mp hstep)).append ih

/-- After any calls, each register holds what an access of the run wrote to it last, or
what it held before. Only writes have such accesses, and a read gets these values. -/
theorem run_coherent {tr : List (Transition Driver ClientOp OpRet)} (h : clientLts.Run s tr s') :
    (∀ x, s'.regs.cells x = (WriteLog.last Effect.stores (busLog tr) x).getD (s.regs.cells x)) ∧
    (∀ t ∈ tr, ∀ e ∈ t.out.log, e.stores ≠ none → t.act.writes = true) ∧
    s'.ReadsValues fun x =>
      (WriteLog.last Effect.stores (busLog tr) x).getD (s.regs.cells x) := by
  have hcells : s'.regs.cells = fun x =>
      (WriteLog.last Effect.stores (busLog tr) x).getD (s.regs.cells x) := by
    funext x
    rw [run_accounted h, WriteLog.replay_apply]
  refine ⟨fun x => by rw [hcells], fun t ht e he hstore => ?_, hcells ▸ s'.readsValues_cells⟩
  by_contra hwrites
  have hstep := clientLts_step.mp (h.step_of_mem ht)
  generalize hact : t.act = act at hstep hwrites
  cases act with
  | call op => exact hstore ((exec_stores hstep (by simpa [ClientOp.writes] using hwrites)).2 e he)
  | registerWrite32 => exact hwrites rfl

/-- A driver on top writes a register and flushes it, and then user space writes the
register after it through the character device. -/
theorem run_coherent_both : ∃ tr s',
    clientLts.Run (initial 250 1 0 fun _ _ _ => 0) tr s' ∧
    tr.map (·.act) = [.call (.probe (oneBarEnv 0x1000) 7), .call (.openFile {} 0 1),
      .registerWrite32 ⟨7, 0, 0⟩ 4 0xCAFE true,
      .call (.write { fuel := 2 } 1 (fun _ => 5) 4 8)] ∧
    s'.regs.cells (7, 0, 4) = 0xCAFE ∧ s'.regs.cells (7, 0, 8) = 0x05050505 ∧
    s'.ReadsValues fun x => (WriteLog.last Effect.stores (busLog tr) x).getD 0 := by
  obtain ⟨tr, s', hrun, hacts, hend⟩ := Lts.Run.of_exec_map (M := clientLts)
    (g := fun r => (r.2.regs.cells (7, 0, 4), r.2.regs.cells (7, 0, 8)))
    (v := (0xCAFE, 0x05050505)) (s := initial 250 1 0 fun _ _ _ => 0)
    (l := [.call (.probe (oneBarEnv 0x1000) 7), .call (.openFile {} 0 1),
      .registerWrite32 ⟨7, 0, 0⟩ 4 0xCAFE true,
      .call (.write { fuel := 2 } 1 (fun _ => 5) 4 8)]) (by decide +kernel)
  obtain ⟨hfour, height⟩ := Prod.mk.inj hend
  obtain ⟨-, -, hreads⟩ := run_coherent hrun
  exact ⟨tr, s', hrun, hacts, hfour, height, hreads⟩

end Driver

end Gpcieuni
