-- SUMMARY: Transfers interleaved with hot-unplug: reads, writes, removes, and probes of one slot as threads that are preempted between their steps.
import Gpcieuni.Lib.Lts
import Gpcieuni.Lib.Threads
import Gpcieuni.TransferSpec
import Gpcieuni.Remove

/-!
# Transfers and hot-unplug

The calls on one slot run concurrently. A transfer is cut where another thread
can come in between: the check, which takes no lock, the attempt to get the
device mutex, and the words of the loop. A remove is cut at its lock and, because
the check does not wait for it, wherever what the check sees changes: for each BAR
at `pci_iounmap`, which releases the mapping, and at the statements that clear
`memmory_baseN` and the fields beside it, then where it marks the slot as free,
and at its end. A probe takes no lock either, but nothing can be checked against
the struct before it sets `dev_sts` at its end, so it is one step.
-/

namespace Gpcieuni

namespace Hotplug

inductive Direction where
  | read
  | write
  deriving DecidableEq, Repr

/-- Where a thread stands. The points `transferring`, `removing`, `clearing` and
`closing` are inside the device mutex. At `clearing` the mapping `m` of BAR `n` is
released, and the struct still points to it. -/
inductive Pc where
  | idle
  | checked (dir : Direction) (ti : TransferInformation)
  | transferring (dir : Direction) (ti : TransferInformation) (n : BitVec 32)
  | removing (bars : List (Fin 6))
  | clearing (n : Fin 6) (m : Iomem) (bars : List (Fin 6))
  | closing
  deriving DecidableEq, Repr

/-- The slot, the device bound to it, the mappings that `pci_iounmap` has
released, and the threads. -/
structure State where
  dv : PcieuniDev
  bound : Option PciDev
  regs : Regs
  released : List Iomem
  thread : Tid → Pc

/-- The step that is taken next, with the choices of its environment. -/
inductive Act where
  | probe (env : ProbeEnv) (d : PciDev)
  | check (t : Tid) (dir : Direction) (count pos : BitVec 64)
  | lock (t : Tid) (intr : Bool)
  | word (t : Tid) (fault : Bool) (w : BitVec 32)
  | removeLock (t : Tid)
  | remove (t : Tid)

namespace State

def goto (s : State) (t : Tid) (pc : Pc) : State :=
  { s with thread := Function.update s.thread t pc }

/-- Thread `t` returns after `mutex_unlock`. -/
def unlock (s : State) (t : Tid) : State :=
  { s.goto t .idle with dv := { s.dv with devMut := false } }

/-- A probe into the slot. What `pci_iomap` returns names a new mapping, never
one that was released. -/
def probe (s : State) (major : Int) (k : Slot) (env : ProbeEnv) (d : PciDev) :
    Option (State × List Effect) :=
  if s.bound = none ∧ s.dv.binded = 0 then
    let dv := { s.dv with binded := 1 }
    if env.enableDevice ≠ 0 ∨ env.requestRegions ≠ 0 then some ({ s with dv }, [])
    else
      match probeDevice env s.regs major d k dv with
      | .error _ => none
      | .ok (dv, log) =>
        if ∀ n, ∀ m ∈ (dv.bar n).memmoryBase, m ∉ s.released then
          some ({ s with dv, bound := some d }, log)
        else none
  else none

/-- One turn of the word loop, or the end of the transfer. -/
def word (s : State) (t : Tid) (fault : Bool) (w : BitVec 32) : Option (State × List Effect) :=
  match s.thread t with
  | .transferring dir ti n =>
    if n < ti.nBytesToTransfer then
      let off := ti.wordOffset n
      match dir with
      | .read =>
        -- the register is read before the copy can fail
        let log := [.ioread32 ti.barStart off]
        if fault then some (s.unlock t, log)
        else some (s.goto t (.transferring .read ti (n + 4)), log)
      | .write =>
        if fault then some (s.unlock t, [])
        else
          some ({ s.goto t (.transferring .write ti (n + 4)) with
              regs := s.regs.iowrite32 ti.barStart off w },
            [.iowrite32 ti.barStart off w])
    else some (s.unlock t, [])
  | _ => none

/-- The steps of a remove under the mutex. -/
def remove (s : State) (t : Tid) : Option (State × List Effect) :=
  match s.thread t with
  | .removing (n :: bars) =>
    match (s.dv.bar n).memmoryBase with
    | none => some (s.goto t (.removing bars), [])
    | some m =>
      some ({ s.goto t (.clearing n m bars) with released := m :: s.released }, [.pciIounmap m])
  | .clearing n _ bars => some ({ s.goto t (.removing bars) with dv := s.dv.setBar n {} }, [])
  | .removing [] =>
    -- from here on a probe can take the slot
    some ({ s.goto t .closing with dv := { s.dv with devSts := 0, binded := 0 }, bound := none },
      [])
  | .closing =>
    some ({ s.goto t .idle with dv := { s.dv with devFileList := [], devMut := false } }, [])
  | _ => none

/-- One step of the slot `k`. A step that has to wait is disabled. -/
def step (major : Int) (k : Slot) (s : State) : Act → Option (State × List Effect)
  | .probe env d => s.probe major k env d
  | .check t dir count pos =>
    match s.thread t with
    | .idle =>
      match checkAndCalculateTransferInformation s.dv count pos with
      | .inl _ => some (s, [])
      | .inr ti => some (s.goto t (.checked dir ti), [])
    | _ => none
  | .lock t intr =>
    match s.thread t with
    | .checked dir ti =>
      match mutexLockInterruptible s.dv.devMut intr with
      | .interrupted => some (s.goto t .idle, [])
      | .blocked => none
      | .acquired =>
        some ({ s.goto t (.transferring dir ti 0) with dv := { s.dv with devMut := true } }, [])
    | _ => none
  | .word t fault w => s.word t fault w
  | .removeLock t =>
    match s.thread t, s.bound, mutexLock s.dv.devMut with
    | .idle, some _, .acquired =>
      some ({ s.goto t (.removing allBars) with
          dv := { s.dv with prjInfoList := [], devMut := true } },
        releaseInterrupts k s.dv)
    | _, _, _ => none
  | .remove t => s.remove t

end State

/-- The slot `k` from the initialisation of the driver on. -/
def hotplugLts (major : Int) (k : Slot) : Lts State Act (List Effect) where
  init s := ∃ verMaj verMin, s.dv = (Driver.initial major verMaj verMin s.regs).dev k ∧
    s.bound = none ∧ s.released = [] ∧ ∀ t, s.thread t = .idle
  step := State.step major k

/-! ## What a step moves -/

section Moves

variable {s s' : State} {major : Int} {k : Slot} {a : Act} {log : List Effect}

/-- A step moves one thread at most, and what it releases stays released. A thread
that has a pointer to clear has released the mapping. -/
theorem step_moves (h : s.step major k a = some (s', log)) :
    (s'.thread = s.thread ∨ ∃ t pc, s'.thread = Function.update s.thread t pc ∧
      ∀ n m bars, pc = .clearing n m bars → m ∈ s'.released) ∧ s.released ⊆ s'.released := by
  have hmoved : ∀ (s₁ : State) t pc, (∀ n m bars, pc ≠ Pc.clearing n m bars) →
      s₁.thread = Function.update s.thread t pc → s₁.released = s.released →
      (s₁.thread = s.thread ∨ ∃ t pc, s₁.thread = Function.update s.thread t pc ∧
        ∀ n m bars, pc = .clearing n m bars → m ∈ s₁.released) ∧ s.released ⊆ s₁.released :=
    fun s₁ t pc hpc hthread hrel => ⟨.inr ⟨t, pc, hthread, fun n m bars heq => absurd heq
      (hpc n m bars)⟩, by rw [hrel]; exact List.Subset.refl _⟩
  cases a with
  | probe env d =>
      simp only [State.step, State.probe] at h
      repeat' split at h
      all_goals cases h
      all_goals exact ⟨.inl rfl, List.Subset.refl _⟩
  | check t dir count pos =>
      simp only [State.step] at h
      repeat' split at h
      all_goals cases h
      · exact ⟨.inl rfl, List.Subset.refl _⟩
      · exact hmoved _ t _ (by simp) rfl rfl
  | lock t intr =>
      simp only [State.step] at h
      repeat' split at h
      all_goals cases h
      all_goals exact hmoved _ t _ (by simp) rfl rfl
  | word t fault w =>
      simp only [State.step, State.word] at h
      repeat' split at h
      all_goals cases h
      all_goals exact hmoved _ t _ (by simp) rfl rfl
  | removeLock t =>
      simp only [State.step] at h
      split at h
      · cases h
        exact hmoved _ t _ (by simp) rfl rfl
      · cases h
  | remove t =>
      simp only [State.step, State.remove] at h
      split at h
      · rename_i n bars ht
        split at h
        · cases h
          exact hmoved _ t _ (by simp) rfl rfl
        · rename_i m hm
          cases h
          refine ⟨.inr ⟨t, _, rfl, ?_⟩, List.subset_cons_self m _⟩
          rintro n' m' bars' ⟨⟩
          exact List.mem_cons_self ..
      all_goals cases h
      all_goals exact hmoved _ t _ (by simp) rfl rfl

/-- A thread comes to a pointer that it has to clear when it has released the mapping. -/
theorem step_clearing (h : s.step major k a = some (s', log)) {t : Tid} {n : Fin 6} {m : Iomem}
    {bars : List (Fin 6)} (ht : s'.thread t = .clearing n m bars) :
    s.thread t = .clearing n m bars ∨ m ∈ s'.released := by
  rcases (step_moves h).1 with hsame | ⟨u, pc, hthread, hpc⟩
  · exact .inl (hsame ▸ ht)
  · by_cases heq : pc = .clearing n m bars
    · exact .inr (hpc n m bars heq)
    · exact .inl (Threads.eq_of_update (hthread ▸ ht) heq)

end Moves

/-! ## The calls as sequences of steps -/

section Sequential

variable (major : Int) (k : Slot)

/-- One BAR is unmapped as `unmapBar` does it, in one step or in two. -/
theorem unmapBar_run {s : State} {t : Tid} {n : Fin 6} {bars : List (Fin 6)}
    (ht : s.thread t = .removing (n :: bars)) :
    ∃ tr s', (hotplugLts major k).Run s tr s' ∧ s'.dv = (unmapBar n s.dv).1 ∧
      tr.flatMap (·.out) = (unmapBar n s.dv).2 ∧
      s'.thread = Function.update s.thread t (.removing bars) ∧ s.released ⊆ s'.released := by
  simp only [unmapBar]
  cases hm : (s.dv.bar n).memmoryBase with
  | none =>
      have hstep : (hotplugLts major k).step s (.remove t) =
          some (s.goto t (.removing bars), []) := by
        simp only [hotplugLts, State.step, State.remove, ht, hm]
      exact ⟨_, _, .single hstep, rfl, rfl, rfl, fun _ hr => hr⟩
  | some m =>
      let s₁ : State := { s.goto t (.clearing n m bars) with released := m :: s.released }
      have hunmap : (hotplugLts major k).step s (.remove t) = some (s₁, [.pciIounmap m]) := by
        simp only [hotplugLts, State.step, State.remove, ht, hm]
        rfl
      have hclear : (hotplugLts major k).step s₁ (.remove t) =
          some ({ s₁.goto t (.removing bars) with dv := s₁.dv.setBar n {} }, []) := by
        simp [hotplugLts, State.step, State.remove, s₁, State.goto]
      refine ⟨_, _, .cons hunmap (.single hclear), rfl, rfl, ?_, fun _ hr => ?_⟩
      · simp [s₁, State.goto]
      · exact List.mem_cons_of_mem m hr

/-- The struct is what `unmapBars` makes of it, and nobody else moved. -/
theorem unmapBars_run {s : State} {t : Tid} (bars : List (Fin 6))
    (ht : s.thread t = .removing bars) :
    ∃ tr s', (hotplugLts major k).Run s tr s' ∧ s'.dv = (unmapBars bars s.dv).1 ∧
      tr.flatMap (·.out) = (unmapBars bars s.dv).2 ∧
      s'.thread = Function.update s.thread t (.removing []) ∧ s.released ⊆ s'.released := by
  induction bars generalizing s with
  | nil =>
      refine ⟨[], s, .nil s, rfl, rfl, ?_, fun _ hm => hm⟩
      rw [← ht, Function.update_eq_self]
  | cons n bars ih =>
      obtain ⟨tr₁, s₁, hrun₁, hdv₁, hlog₁, hthread₁, hrel₁⟩ := unmapBar_run major k ht
      obtain ⟨tr, s', hrun, hdv, hlog, hthread, hrel⟩ := ih (s := s₁) (by simp [hthread₁])
      refine ⟨tr₁ ++ tr, s', hrun₁.append hrun, ?_, ?_, ?_, fun m hm => hrel (hrel₁ hm)⟩
      · rw [hdv, hdv₁]
        rfl
      · rw [List.flatMap_append, hlog₁, hlog, hdv₁]
        rfl
      · rw [hthread, hthread₁, Function.update_idem]

/-- The remove marks the slot as free, and then gives the mutex back. -/
theorem close_run {s : State} {t : Tid} (ht : s.thread t = .removing []) :
    ∃ tr, (hotplugLts major k).Run s tr { s.goto t .idle with
        dv := { s.dv with devSts := 0, binded := 0, devFileList := [], devMut := false }
        bound := none } ∧ tr.flatMap (·.out) = [] := by
  let s₁ : State := { s.goto t .closing with
    dv := { s.dv with devSts := 0, binded := 0 }, bound := none }
  have hmark : (hotplugLts major k).step s (.remove t) = some (s₁, []) := by
    simp only [hotplugLts, State.step, State.remove, ht]
    rfl
  have hend : (hotplugLts major k).step s₁ (.remove t) = some ({ s.goto t .idle with
      dv := { s.dv with devSts := 0, binded := 0, devFileList := [], devMut := false }
      bound := none }, []) := by
    simp [hotplugLts, State.step, State.remove, s₁, State.goto]
  exact ⟨_, .cons hmark (.single hend), rfl⟩

/-- The rest of a remove from any of its BARs on. -/
theorem remove_run {s : State} {t : Tid} {bars : List (Fin 6)}
    (ht : s.thread t = .removing bars) :
    ∃ tr s', (hotplugLts major k).Run s tr s' ∧ s'.dv.devMut = false ∧
      s'.thread = Function.update s.thread t .idle ∧ s.released ⊆ s'.released := by
  obtain ⟨tr, s₁, hrun, -, -, hthread, hrel⟩ := unmapBars_run major k bars ht
  obtain ⟨tr', hclose, -⟩ := close_run major k (s := s₁) (t := t) (by simp [hthread])
  refine ⟨_, _, hrun.append hclose, rfl, ?_, hrel⟩
  simp [State.goto, hthread]

/-- The words of a read are the steps of its loop. -/
theorem readLoop_run {s : State} {t : Tid} {left : Nat → Nat} {ti : TransferInformation}
    {fuel : Nat} {n : BitVec 32} {buf : UserMem} {r : ReadLoop}
    (h : readLoop s.regs left ti fuel n buf = .ok r) (ht : s.thread t = .transferring .read ti n) :
    ∃ tr, (hotplugLts major k).Run s tr (s.unlock t) ∧ tr.flatMap (·.out) = r.log := by
  induction fuel generalizing s n buf r with
  | zero => cases h
  | succ fuel ih =>
      simp only [readLoop] at h
      split at h
      · rename_i hlt
        split at h
        · cases h
          refine ⟨_, .single (a := .word t true 0)
            (e := [.ioread32 ti.barStart (ti.wordOffset n)]) ?_, rfl⟩
          simp [hotplugLts, State.step, State.word, ht, hlt]
        · split at h
          · cases h
          · rename_i r' hrest
            cases h
            obtain ⟨tr, hrun, hlog⟩ := ih (s := s.goto t (.transferring .read ti (n + 4))) hrest
              (by simp [State.goto])
            have hend : (s.goto t (.transferring .read ti (n + 4))).unlock t = s.unlock t := by
              simp [State.unlock, State.goto]
            rw [hend] at hrun
            refine ⟨_, .cons (a := .word t false 0) (e := [.ioread32 ti.barStart (ti.wordOffset n)])
              ?_ hrun, ?_⟩
            · simp [hotplugLts, State.step, State.word, ht, hlt]
            · rw [List.flatMap_cons, hlog]
              rfl
      · rename_i hge
        cases h
        refine ⟨_, .single (a := .word t false 0) (e := []) ?_, rfl⟩
        simp [hotplugLts, State.step, State.word, ht, hge]

/-- The words of a write are the steps of its loop. -/
theorem writeLoop_run {s : State} {t : Tid} {buf : UserMem} {fault : Nat → Bool}
    {ti : TransferInformation} {fuel : Nat} {n : BitVec 32} {r : WriteLoop}
    (h : writeLoop buf fault ti fuel n s.regs = .ok r)
    (ht : s.thread t = .transferring .write ti n) :
    ∃ tr, (hotplugLts major k).Run s tr { s.unlock t with regs := r.regs } ∧
      tr.flatMap (·.out) = r.log := by
  induction fuel generalizing s n r with
  | zero => cases h
  | succ fuel ih =>
      simp only [writeLoop] at h
      split at h
      · rename_i hlt
        split at h
        · cases h
          refine ⟨_, .single (a := .word t true 0) (e := []) ?_, rfl⟩
          simp [hotplugLts, State.step, State.word, ht, hlt, State.unlock, State.goto]
        · split at h
          · cases h
          · rename_i r' hrest
            cases h
            let w := copyFromUser buf n.toNat
            let s₁ : State := { s.goto t (.transferring .write ti (n + 4)) with
              regs := s.regs.iowrite32 ti.barStart (ti.wordOffset n) w }
            obtain ⟨tr, hrun, hlog⟩ := ih (s := s₁) hrest (by simp [s₁, State.goto])
            have hend : { s₁.unlock t with regs := r'.regs } =
                { s.unlock t with regs := r'.regs } := by
              simp [s₁, State.unlock, State.goto]
            rw [hend] at hrun
            refine ⟨_, .cons (a := .word t false w)
              (e := [.iowrite32 ti.barStart (ti.wordOffset n) w]) ?_ hrun, ?_⟩
            · simp [hotplugLts, State.step, State.word, ht, hlt, s₁]
            · rw [List.flatMap_cons, hlog]
              rfl
      · rename_i hge
        cases h
        refine ⟨_, .single (a := .word t false 0) (e := []) ?_, rfl⟩
        simp [hotplugLts, State.step, State.word, ht, hge, State.unlock, State.goto]

section Transfer

variable {s : State} {t : Tid} {count pos : BitVec 64} (ht : s.thread t = .idle)

include ht

theorem check_run (dir : Direction) {err : Int}
    (hcheck : checkAndCalculateTransferInformation s.dv count pos = .inl err) :
    ∃ tr, (hotplugLts major k).Run s tr s ∧ tr.flatMap (·.out) = [] := by
  refine ⟨_, .single (a := .check t dir count pos) (e := []) ?_, rfl⟩
  simp [hotplugLts, State.step, ht, hcheck]

/-- The steps of a transfer up to its attempt to get the mutex. -/
theorem checkLock_run (dir : Direction) (intr : Bool) {ti : TransferInformation}
    (hcheck : checkAndCalculateTransferInformation s.dv count pos = .inr ti)
    (hlock : mutexLockInterruptible s.dv.devMut intr ≠ .blocked) :
    ∃ tr, (hotplugLts major k).Run s tr (if intr then s else
        { s.goto t (.transferring dir ti 0) with dv := { s.dv with devMut := true } }) ∧
      tr.flatMap (·.out) = [] := by
  have hback : Function.update s.thread t .idle = s.thread := by
    rw [← ht, Function.update_eq_self]
  have hchecked : (hotplugLts major k).step s (.check t dir count pos) =
      some (s.goto t (.checked dir ti), []) := by
    simp [hotplugLts, State.step, ht, hcheck]
  refine ⟨_, .cons hchecked (.single (a := .lock t intr) (e := []) ?_), rfl⟩
  cases intr with
  | true => simp [hotplugLts, State.step, State.goto, mutexLockInterruptible, hback]
  | false =>
      have hfree : s.dv.devMut = false := by
        cases hdev : s.dv.devMut with
        | false => rfl
        | true => exact absurd (by simp [mutexLockInterruptible, hdev]) hlock
      simp [hotplugLts, State.step, State.goto, mutexLockInterruptible, hfree]

/-- Without anybody in between, the steps of a read make the call of the
sequential model. -/
theorem pcieuniReadNoStructExp_run {env : ReadEnv} {buf : UserMem} {dv : PcieuniDev} {r : ReadRet}
    (h : pcieuniReadNoStructExp env s.regs s.dv buf count pos = .ok (dv, r)) :
    ∃ tr, (hotplugLts major k).Run s tr { s with dv } ∧ tr.flatMap (·.out) = r.log := by
  simp only [pcieuniReadNoStructExp] at h
  split at h
  · rename_i err hcheck
    cases h
    exact check_run major k ht .read hcheck
  rename_i ti hcheck
  split at h
  · rename_i hlock
    cases h
    have hrun := checkLock_run major k ht .read env.intr hcheck (by simp [hlock])
    rwa [mutexLockInterruptible_interrupted.mp hlock, if_pos rfl] at hrun
  · cases h
  · rename_i hlock
    split at h
    · cases h
    rename_i rl hloop
    cases h
    obtain ⟨tr, hrun, hlog⟩ :=
      checkLock_run major k ht .read env.intr hcheck (by simp [hlock])
    rw [(mutexLockInterruptible_acquired.mp hlock).2, if_neg Bool.false_ne_true] at hrun
    obtain ⟨tr', hrun', hlog'⟩ := readLoop_run major k (t := t)
      (s := { s.goto t (.transferring .read ti 0) with dv := { s.dv with devMut := true } }) hloop
      (by simp [State.goto])
    have hend : State.unlock { s.goto t (.transferring .read ti 0) with
        dv := { s.dv with devMut := true } } t =
        { s with dv := { s.dv with devMut := false } } := by
      simp [State.unlock, State.goto, ← ht]
    rw [hend] at hrun'
    exact ⟨_, hrun.append hrun', by simp [hlog, hlog']⟩

/-- Without anybody in between, the steps of a write make the call of the
sequential model. -/
theorem pcieuniWriteNoStructExp_run {env : WriteEnv} {buf : UserMem} {dv : PcieuniDev}
    {r : WriteRet} (h : pcieuniWriteNoStructExp env s.regs s.dv buf count pos = .ok (dv, r)) :
    ∃ tr, (hotplugLts major k).Run s tr { s with dv, regs := r.regs } ∧
      tr.flatMap (·.out) = r.log := by
  simp only [pcieuniWriteNoStructExp] at h
  split at h
  · rename_i err hcheck
    cases h
    exact check_run major k ht .write hcheck
  rename_i ti hcheck
  split at h
  · rename_i hlock
    cases h
    have hrun := checkLock_run major k ht .write env.intr hcheck (by simp [hlock])
    rwa [mutexLockInterruptible_interrupted.mp hlock, if_pos rfl] at hrun
  · cases h
  · rename_i hlock
    split at h
    · cases h
    rename_i rl hloop
    cases h
    obtain ⟨tr, hrun, hlog⟩ :=
      checkLock_run major k ht .write env.intr hcheck (by simp [hlock])
    rw [(mutexLockInterruptible_acquired.mp hlock).2, if_neg Bool.false_ne_true] at hrun
    obtain ⟨tr', hrun', hlog'⟩ := writeLoop_run major k (t := t)
      (s := { s.goto t (.transferring .write ti 0) with dv := { s.dv with devMut := true } }) hloop
      (by simp [State.goto])
    have hend : { State.unlock { s.goto t (.transferring .write ti 0) with
        dv := { s.dv with devMut := true } } t with regs := rl.regs } =
        { s with dv := { s.dv with devMut := false }, regs := rl.regs } := by
      simp [State.unlock, State.goto, ← ht]
    rw [hend] at hrun'
    exact ⟨_, hrun.append hrun', by simp [hlog, hlog']⟩

end Transfer

/-- Without anybody in between, the steps of a remove leave the struct as the
call of the sequential model does. -/
theorem pcieuniRemoveExp_run {s : State} {t : Tid} {d : PciDev} {devName : String}
    {drv drv' : Driver} {r : RemoveRet} (ht : s.thread t = .idle) (hbound : s.bound = some d)
    (hk : drv.drvdata d = some k) (hdv : drv.dev k = s.dv)
    (h : pcieuniRemoveExp devName d drv = .ok (drv', r)) :
    ∃ tr s', (hotplugLts major k).Run s tr s' ∧ s'.dv = drv'.dev k ∧ s'.bound = none ∧
      s'.thread = s.thread ∧ tr.flatMap (·.out) <+: r.log := by
  simp only [pcieuniRemoveExp, hk, hdv] at h
  split at h
  · rename_i p hlock _
    cases h
    let s₁ : State := { s.goto t (.removing allBars) with
      dv := { s.dv with prjInfoList := [], devMut := true } }
    have hlocked : (hotplugLts major k).step s (.removeLock t) =
        some (s₁, releaseInterrupts k s.dv) := by
      simp [hotplugLts, State.step, ht, hbound, hlock, s₁]
    obtain ⟨tr, s₂, hrun, hdv₂, hlog, hthread, -⟩ := unmapBars_run major k
      (s := s₁) (t := t) allBars (by simp [s₁, State.goto])
    obtain ⟨tr', hclose, hlog'⟩ := close_run major k (s := s₂) (t := t) (by simp [hthread])
    refine ⟨_, _, .cons hlocked (hrun.append hclose), ?_, rfl, ?_, ?_⟩
    · simp [hdv₂, s₁]
    · simp [State.goto, hthread, s₁, ← ht]
    · simp only [List.flatMap_cons, List.flatMap_append, hlog, hlog', List.append_nil, s₁]
      exact ⟨_, (List.append_assoc _ _ _).symm⟩
  · cases h
  · cases h

end Sequential

end Hotplug

end Gpcieuni
