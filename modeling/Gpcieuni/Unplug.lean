-- SUMMARY: Opens, releases, probes and removes as threads that are preempted at the device mutexes, in the search for a slot and between the entries of a file list.
import Gpcieuni.Lib.Threads
import Gpcieuni.Driver

/-!
# Files and unplug

An open stores the minor number and a release reads `private_data` before they wait for
the mutex of the device. A probe takes no lock: it looks at the `binded` of one slot after
the other until it finds one clear, sets it, and fills the slot. A remove clears `binded` before it hands the files of
its slot to the null device one by one. What a remove does to the struct before that is
seen by no other call of these, and is one step with its lock; so is what a probe does
after it has set `binded`.
-/

namespace Gpcieuni

namespace Unplug

/-- Where a thread stands. Inside a mutex it is only when it takes entries off a list. -/
inductive Pc where
  | idle
  | opening (k : Slot) (f : FilePtr)
  | releasing (k : Slot) (f : FilePtr)
  /-- A probe has the slots `is` left to look at. -/
  | searching (d : PciDev) (is : List (Fin pcieuniNrDevs))
  /-- It has found a slot. -/
  | probing (d : PciDev) (i : Fin pcieuniNrDevs)
  /-- It has set `binded` there. -/
  | filling (d : PciDev) (i : Fin pcieuniNrDevs)
  | detaching (d : PciDev) (k : Slot)
  deriving DecidableEq, Repr

structure State where
  drv : Driver
  thread : Tid → Pc

/-- The step that is taken next, with the choices of its environment. -/
inductive Act where
  | callProbe (t : Tid) (d : PciDev)
  | look (t : Tid)
  | claim (t : Tid)
  | fill (t : Tid) (env : ProbeEnv)
  | callOpen (t : Tid) (k : Slot) (f : FilePtr)
  | lockOpen (t : Tid) (intr : Bool)
  | callRelease (t : Tid) (f : FilePtr)
  | lockRelease (t : Tid) (intr : Bool)
  | lockRemove (t : Tid) (d : PciDev)
  | detach (t : Tid)

namespace State

def goto (s : State) (t : Tid) (pc : Pc) : State :=
  { s with thread := Function.update s.thread t pc }

/-- A probe looks at the next slot. It gives up behind the last one. -/
def look (s : State) (t : Tid) : Option (State × Option Int) :=
  match s.thread t with
  | .searching d (i :: is) =>
    if (s.drv.dev i.castSucc).binded = 0 then some (s.goto t (.probing d i), none)
    else some (s.goto t (.searching d is), none)
  | .searching _ [] => some (s.goto t .idle, some (-1))
  | _ => none

/-- It takes the slot that it has found, without another look. -/
def claim (s : State) (t : Tid) : Option (State × Option Int) :=
  match s.thread t with
  | .probing d i =>
    let k : Slot := i.castSucc
    some ({ s.goto t (.filling d i) with
      drv := s.drv.setDev k { s.drv.dev k with binded := 1 } }, none)
  | _ => none

/-- The rest of a probe. If it succeeds, the device is bound. -/
def fill (s : State) (t : Tid) (env : ProbeEnv) : Option (State × Option Int) :=
  match s.thread t with
  | .filling d i =>
    let k : Slot := i.castSucc
    if env.enableDevice ≠ 0 then some (s.goto t .idle, some env.enableDevice)
    else if env.requestRegions ≠ 0 then
      some ({ s.goto t .idle with
          drv := { s.drv with drvdata := Function.update s.drv.drvdata d none } },
        some env.requestRegions)
    else
      match probeDevice env s.drv.regs s.drv.pcieuniMajor d k (s.drv.dev k) with
      | .error _ => none
      | .ok (dv, _) =>
        some ({ s.goto t .idle with
            drv := { s.drv.setDev k dv with
              drvdata := Function.update s.drv.drvdata d (some k)
              pcieuniModuleNum := s.drv.pcieuniModuleNum + 1
              bound := d :: s.drv.bound } },
          some 0)
  | _ => none

/-- An open goes for the mutex, and makes its entry if it gets it. -/
def lockOpen (s : State) (t : Tid) (intr : Bool) : Option (State × Option Int) :=
  match s.thread t with
  | .opening k f =>
    let dv := s.drv.dev k
    match mutexLockInterruptible dv.devMut intr with
    | .interrupted => some (s.goto t .idle, some (-erestartsys))
    | .blocked => none
    | .acquired =>
      let dv := { dv with devFileRef := dv.devFileRef + 1 }
      let dv := { dv with devFileList := ⟨f, dv.devFileRef⟩ :: dv.devFileList }
      some ({ s.goto t .idle with
          drv := { s.drv.setDev k dv with files := ⟨f, k⟩ :: s.drv.files } },
        some 0)
  | _ => none

/-- A release goes for the mutex, and takes its entry off if it gets it. The file is gone
in both cases. -/
def lockRelease (s : State) (t : Tid) (intr : Bool) : Option (State × Option Int) :=
  match s.thread t with
  | .releasing k f =>
    let dv := s.drv.dev k
    let files := s.drv.files.filter (·.filp ≠ f)
    match mutexLockInterruptible dv.devMut intr with
    | .interrupted =>
      some ({ s.goto t .idle with drv := { s.drv with files } }, some (-erestartsys))
    | .blocked => none
    | .acquired =>
      let dv := { dv with devFileRef := dv.devFileRef - 1 }
      let dv := { dv with devFileList := dv.devFileList.filter (·.filp ≠ f) }
      some ({ s.goto t .idle with drv := { s.drv.setDev k dv with files } }, some 0)
  | _ => none

/-- A remove up to its loop over the file list. -/
def lockRemove (s : State) (t : Tid) (d : PciDev) : Option (State × Option Int) :=
  match s.thread t, s.drv.drvdata d with
  | .idle, some k =>
    let dv := { s.drv.dev k with prjInfoList := [] }
    match mutexLock dv.devMut, dv.pcieuniPciDev with
    | .acquired, some _ =>
      let dv := (unmapBars allBars { dv with devMut := true }).1
      let dv := { dv with devSts := 0, binded := 0 }
      some ({ s.goto t (.detaching d k) with
          drv := { s.drv.setDev k dv with pcieuniModuleNum := s.drv.pcieuniModuleNum - 1 } },
        none)
    | _, _ => none
  | _, _ => none

/-- One turn of the loop, or the end of the remove, which unbinds the device. -/
def detach (s : State) (t : Tid) : Option (State × Option Int) :=
  match s.thread t with
  | .detaching d k =>
    let dv := s.drv.dev k
    match dv.devFileList with
    | e :: es =>
      some ({ s with drv := { s.drv.setDev k { dv with devFileList := es } with
          files := detachFiles [e] s.drv.files } }, none)
    | [] =>
      some ({ s.goto t .idle with
          drv := { s.drv.setDev k { dv with devMut := false } with
            bound := s.drv.bound.erase d } },
        some 0)
  | _ => none

/-- One step. A step that has to wait is disabled. It shows the returned value if it is
the last one of its call. -/
def step (s : State) : Act → Option (State × Option Int)
  | .callProbe t d =>
    match s.thread t with
    | .idle => some (s.goto t (.searching d (List.finRange pcieuniNrDevs)), none)
    | _ => none
  | .look t => s.look t
  | .claim t => s.claim t
  | .fill t env => s.fill t env
  | .callOpen t k f =>
    match s.thread t with
    | .idle =>
      some ({ s.goto t (.opening k f) with
        drv := s.drv.setDev k { s.drv.dev k with devMinor := k } }, none)
    | _ => none
  | .lockOpen t intr => s.lockOpen t intr
  | .callRelease t f =>
    match s.thread t, s.drv.privateData f with
    | .idle, some k => some (s.goto t (.releasing k f), none)
    | _, _ => none
  | .lockRelease t intr => s.lockRelease t intr
  | .lockRemove t d => s.lockRemove t d
  | .detach t => s.detach t

end State

end Unplug

/-- The driver after its initialisation, with any number of threads. -/
def unplugLts : Lts Unplug.State Unplug.Act (Option Int) where
  init s := driverLts.init s.drv ∧ ∀ t, s.thread t = .idle
  step := Unplug.State.step

namespace Unplug

/-! ## The calls as sequences of steps -/

theorem State.goto_goto (s : State) (t : Tid) (pc pc' : Pc) :
    (s.goto t pc).goto t pc' = s.goto t pc' := by
  simp [State.goto]

section Sequential

variable {s : State} {t : Tid} (ht : s.thread t = .idle)

include ht

theorem goto_back (pc : Pc) :
    Function.update (Function.update s.thread t pc) t .idle = s.thread := by
  rw [Function.update_idem, ← ht, Function.update_eq_self]

/-- Without anybody in between, the steps of an open make the call of the sequential
model. -/
theorem openFile_run {env : OpenEnv} {k : Slot} {f : FilePtr} {drv : Driver} {r : OpRet}
    (h : s.drv.exec (.openFile env k f) = .ok (drv, r)) :
    ∃ tr, unplugLts.Run s tr { s with drv } ∧
      tr.map (·.act) = [.callOpen t k f, .lockOpen t env.intr] ∧
      tr.map (·.out) = [none, some r.ret] := by
  have hcall : unplugLts.step s (.callOpen t k f) = some ({ s.goto t (.opening k f) with
      drv := s.drv.setDev k { s.drv.dev k with devMinor := k } }, none) := by
    simp only [unplugLts, State.step, ht]
  refine ⟨_, .cons hcall (.single (a := .lockOpen t env.intr) (e := some r.ret) ?_), rfl, rfl⟩
  rcases Driver.exec_openFile h with ⟨hintr, hret, rfl⟩ | ⟨hintr, hfree, hret, rfl⟩
  · simp [unplugLts, State.step, State.lockOpen, State.goto, hintr, mutexLockInterruptible, hret,
      goto_back ht]
  · simp [unplugLts, State.step, State.lockOpen, State.goto, hintr, hfree, mutexLockInterruptible,
      hret, goto_back ht, Driver.setDev]

/-- Without anybody in between, the steps of a release make the call of the sequential
model. -/
theorem release_run {intr : Bool} {f : FilePtr} {drv : Driver} {r : OpRet}
    (h : s.drv.exec (.release intr f) = .ok (drv, r)) :
    ∃ tr, unplugLts.Run s tr { s with drv } ∧
      tr.map (·.act) = [.callRelease t f, .lockRelease t intr] ∧
      tr.map (·.out) = [none, some r.ret] := by
  obtain ⟨k, hk, hcases⟩ := Driver.exec_release h
  have hcall : unplugLts.step s (.callRelease t f) = some (s.goto t (.releasing k f), none) := by
    simp only [unplugLts, State.step, ht, hk]
  refine ⟨_, .cons hcall (.single (a := .lockRelease t intr) (e := some r.ret) ?_), rfl, rfl⟩
  rcases hcases with ⟨hintr, hret, rfl⟩ | ⟨hintr, hfree, hret, rfl⟩
  · simp [unplugLts, State.step, State.lockRelease, State.goto, hintr, mutexLockInterruptible, hret,
      goto_back ht]
  · simp [unplugLts, State.step, State.lockRelease, State.goto, hintr, hfree,
      mutexLockInterruptible, hret, goto_back ht]

omit ht in
/-- The search of a probe, when nobody comes in between. -/
theorem search_run {d : PciDev} (is : List (Fin pcieuniNrDevs))
    (ht : s.thread t = .searching d is) :
    ∃ tr n, unplugLts.Run s tr (s.goto t
        ((is.find? fun i => (s.drv.dev i.castSucc).binded = 0).elim .idle (.probing d))) ∧
      tr.map (·.act) = List.replicate n (.look t) ∧
      ((is.find? fun i => (s.drv.dev i.castSucc).binded = 0) = none →
        (tr.map (·.out)).getLast? = some (some (-1))) := by
  induction is generalizing s with
  | nil =>
      have hstep : unplugLts.step s (.look t) = some (s.goto t .idle, some (-1)) := by
        simp only [unplugLts, State.step, State.look, ht]
      exact ⟨_, 1, .single hstep, rfl, fun _ => rfl⟩
  | cons i is ih =>
      by_cases hfree : (s.drv.dev i.castSucc).binded = 0
      · have hstep : unplugLts.step s (.look t) = some (s.goto t (.probing d i), none) := by
          simp only [unplugLts, State.step, State.look, ht, if_pos hfree]
        simp only [List.find?_cons, hfree, decide_true, Option.elim_some]
        exact ⟨_, 1, .single hstep, rfl, fun hnone => by cases hnone⟩
      · have hstep : unplugLts.step s (.look t) = some (s.goto t (.searching d is), none) := by
          simp only [unplugLts, State.step, State.look, ht, if_neg hfree]
        obtain ⟨tr, n, hrun, hacts, hlast⟩ := ih (s := s.goto t (.searching d is))
          (by simp [State.goto])
        simp only [List.find?_cons, hfree, decide_false]
        rw [State.goto_goto] at hrun
        refine ⟨_ :: tr, n + 1, .cons hstep hrun, by simp [hacts, List.replicate_succ],
          fun hnone => ?_⟩
        rw [List.map_cons, List.getLast?_cons, hlast hnone]
        rfl

/-- Without anybody in between, the steps of a probe make the call of the sequential
model. -/
theorem probe_run {env : ProbeEnv} {d : PciDev} {drv : Driver} {r : OpRet}
    (h : s.drv.exec (.probe env d) = .ok (drv, r)) :
    ∃ tr n l, unplugLts.Run s tr { s with drv } ∧
      tr.map (·.act) = .callProbe t d :: List.replicate n (.look t) ++ l ∧
      l <+: [.claim t, .fill t env] ∧ (tr.map (·.out)).getLast? = some (some r.ret) := by
  obtain ⟨s₁, r₁, hprobe, rfl, rfl⟩ := Driver.exec_probe_call h
  have hcall : unplugLts.step s (.callProbe t d) =
      some (s.goto t (.searching d (List.finRange pcieuniNrDevs)), none) := by
    simp only [unplugLts, State.step, ht]
  obtain ⟨tr, n, hsearch, hacts, hlast⟩ := search_run
    (s := s.goto t (.searching d (List.finRange pcieuniNrDevs))) (t := t) (d := d) _
    (Function.update_self ..)
  rw [State.goto_goto] at hsearch
  replace hsearch : unplugLts.Run (s.goto t (.searching d (List.finRange pcieuniNrDevs))) tr
    (s.goto t (s.drv.freeSlot.elim .idle (.probing d))) := hsearch
  -- the probe has found a slot, and goes on with it
  have hfound : ∀ i drv' ret, s.drv.freeSlot = some i →
      unplugLts.step { s.goto t (.filling d i) with
          drv := s.drv.setDev i.castSucc { s.drv.dev i.castSucc with binded := 1 } }
        (.fill t env) = some ({ s with drv := drv' }, some ret) →
      ∃ tr n l, unplugLts.Run s tr { s with drv := drv' } ∧
        tr.map (·.act) = .callProbe t d :: List.replicate n (.look t) ++ l ∧
        l <+: [.claim t, .fill t env] ∧ (tr.map (·.out)).getLast? = some (some ret) := by
    intro i drv' ret hi hfill
    have hclaim : unplugLts.step (s.goto t (.probing d i)) (.claim t) =
        some ({ s.goto t (.filling d i) with
          drv := s.drv.setDev i.castSucc { s.drv.dev i.castSucc with binded := 1 } }, none) := by
      simp [unplugLts, State.step, State.claim, State.goto]
    rw [hi] at hsearch
    refine ⟨_ :: (tr ++ [_, _]), n, [.claim t, .fill t env],
      .cons hcall (hsearch.append (.cons hclaim (.single hfill))), ?_, List.prefix_rfl, ?_⟩
    · simp [hacts]
    · simp [List.getLast?_cons, List.getLast?_append]
  rcases pcieuniProbeExp_exits hprobe with ⟨hfree, rfl, rfl⟩ | ⟨i, hi, henable, rfl, rfl⟩ |
      ⟨i, hi, henable, hregions, rfl, rfl⟩ | ⟨i, dv, log, hi, henable, hregions, hdev, rfl, rfl⟩
  · have hend : s.goto t (s.drv.freeSlot.elim Pc.idle (.probing d)) = s := by
      simp [State.goto, hfree, ← ht]
    rw [hend] at hsearch
    refine ⟨_ :: tr, n, [], .cons hcall hsearch, by simp [hacts], List.nil_prefix, ?_⟩
    rw [List.map_cons, List.getLast?_cons, hlast hfree]
    rfl
  · apply hfound i _ _ hi
    simp [unplugLts, State.step, State.fill, State.goto, henable, goto_back ht]
  · apply hfound i _ _ hi
    simp [unplugLts, State.step, State.fill, State.goto, henable, hregions, goto_back ht]
  · apply hfound i _ _ hi
    simp [unplugLts, State.step, State.fill, State.goto, henable, hregions, hdev, goto_back ht,
      Driver.setDev]

end Sequential

theorem detachFiles_cons (e : FileEntry) (es : List FileEntry) (files : List OpenFile) :
    detachFiles es (detachFiles [e] files) = detachFiles (e :: es) files := by
  simp only [detachFiles, List.map_map]
  apply List.map_congr_left
  intro o _
  by_cases ho : o.filp = e.filp
  · simp [ho]
  · simp [ho]

/-- The loop over the list of a slot, when nobody comes in between. -/
theorem detach_run {s : State} {t : Tid} {d : PciDev} {k : Slot}
    (ht : s.thread t = .detaching d k) (es : List FileEntry)
    (hes : (s.drv.dev k).devFileList = es) :
    ∃ tr, unplugLts.Run s tr { s.goto t .idle with
        drv := { s.drv.setDev k { s.drv.dev k with devFileList := [], devMut := false } with
          files := detachFiles es s.drv.files
          bound := s.drv.bound.erase d } } ∧
      tr.map (·.act) = List.replicate (es.length + 1) (.detach t) := by
  induction es generalizing s with
  | nil =>
      refine ⟨_, .single (a := .detach t) (e := some 0) ?_, rfl⟩
      have hnone : detachFiles [] s.drv.files = s.drv.files := by simp [detachFiles]
      simp [unplugLts, State.step, State.detach, ht, hes, hnone, Driver.setDev]
  | cons e es ih =>
      let s₁ : State := { s with
        drv := { s.drv.setDev k { s.drv.dev k with devFileList := es } with
          files := detachFiles [e] s.drv.files } }
      have hstep : unplugLts.step s (.detach t) = some (s₁, none) := by
        simp only [unplugLts, State.step, State.detach, ht, hes]
        rfl
      obtain ⟨tr, hrun, hacts⟩ := ih (s := s₁) ht (by simp [s₁])
      refine ⟨_ :: tr, .cons hstep ?_, by simp [hacts, List.replicate_succ]⟩
      convert hrun using 1
      simp [s₁, State.goto, detachFiles_cons, Driver.setDev]

/-- Without anybody in between, the steps of a remove make the call of the sequential
model. -/
theorem remove_run {s : State} {t : Tid} (ht : s.thread t = .idle) {devName : String} {d : PciDev}
    {drv : Driver} {r : OpRet} (h : s.drv.exec (.remove devName d) = .ok (drv, r)) :
    ∃ tr n, unplugLts.Run s tr { s with drv } ∧
      tr.map (·.act) = .lockRemove t d :: List.replicate n (.detach t) := by
  obtain ⟨s₁, r₁, hremove, -, rfl⟩ := Driver.exec_remove_call h
  simp only [pcieuniRemoveExp] at hremove
  split at hremove
  · cases hremove
  rename_i k hk
  split at hremove
  · rename_i p hlock hp
    cases hremove
    let dv := (unmapBars allBars { s.drv.dev k with prjInfoList := [], devMut := true }).1
    let s₂ : State := { s.goto t (.detaching d k) with
      drv := { s.drv.setDev k { dv with devSts := 0, binded := 0 } with
        pcieuniModuleNum := s.drv.pcieuniModuleNum - 1 } }
    have hlocked : unplugLts.step s (.lockRemove t d) = some (s₂, none) := by
      simp only [unplugLts, State.step, State.lockRemove, ht, hk]
      split
      · rfl
      · rename_i hno
        exact (hno p hlock hp).elim
    obtain ⟨tr, hrun, hacts⟩ := detach_run (s := s₂) (t := t) (d := d) (k := k)
      (by simp [s₂, State.goto]) dv.devFileList (by simp [s₂])
    refine ⟨_, _, .cons hlocked ?_, congrArg _ hacts⟩
    convert hrun using 1
    simp [s₂, State.goto, goto_back ht, Driver.setDev, dv]
  · cases hremove
  · cases hremove

end Unplug

end Gpcieuni
