-- SUMMARY: What each step of the threads on files, probes and removes does to the slots, to their lists, to the files and to the devices.
import Gpcieuni.Unplug
import Gpcieuni.Driver.Service

/-!
# The moves

`step_move` says once what a step can do, as far as devices and files are concerned. The
invariants are derived from it, and not from the code of the steps.
-/

namespace Gpcieuni

namespace Unplug

/-- The thread that takes the step. -/
def Act.tid : Act → Tid
  | .callProbe t _ | .look t | .claim t | .fill t _ => t
  | .callOpen t .. | .lockOpen t _ | .callRelease t _ | .lockRelease t _ => t
  | .lockRemove t _ | .detach t => t

/-- The device that a thread probes or removes. -/
def Pc.device : Pc → Option PciDev
  | .searching d _ => some d
  | .probing d _ => some d
  | .filling d _ => some d
  | .detaching d _ => some d
  | .idle | .opening .. | .releasing .. => none

/-- The file `f` is on the list of slot `k`. -/
def State.Listed (s : State) (f : FilePtr) (k : Slot) : Prop :=
  f ∈ (s.drv.dev k).devFileList.map (·.filp)

/-- The slots keep the devices that they have, and stay taken. -/
structure SamePlaces (s s' : State) : Prop where
  devSts : ∀ j, (s'.drv.dev j).devSts = (s.drv.dev j).devSts
  pcieuniPciDev : ∀ j, (s'.drv.dev j).pcieuniPciDev = (s.drv.dev j).pcieuniPciDev
  binded : ∀ j, (s.drv.dev j).binded ≠ 0 → (s'.drv.dev j).binded ≠ 0

/-- The devices keep their slots, and stay bound or unbound. -/
structure SameDevices (s s' : State) : Prop where
  drvdata : s'.drv.drvdata = s.drv.drvdata
  bound : s'.drv.bound = s.drv.bound

/-- Nothing is taken off a list, unless `off` says so. -/
def Lists (off : FilePtr → Slot → Prop) (s s' : State) : Prop :=
  ∀ g j, ¬ off g j → s.Listed g j → s'.Listed g j

/-- What a step does to the slots, to their lists and to the files. The thread that takes
it goes from a point to another. -/
inductive Move (s s' : State) : Act → Option Int → Prop where
  | calm {a : Act} {r : Option Int} (pc : Pc) (before : (s.thread a.tid).device = none)
      (after : pc.device = none) (threads : s'.thread = Function.update s.thread a.tid pc)
      (places : SamePlaces s s') (devices : SameDevices s s')
      (lists : Lists (fun _ _ => False) s s') (files : s'.drv.files = s.drv.files)
      (quiet : ∀ u, a ≠ .claim u ∧ ∀ env, a ≠ .fill u env) : Move s s' a r
  | searches {t : Tid} {r : Option Int} (d : PciDev) (is : List (Fin pcieuniNrDevs))
      (before : s.thread t = .idle) (drv : s'.drv = s.drv)
      (threads : s'.thread = Function.update s.thread t (.searching d is)) :
      Move s s' (.callProbe t d) r
  | looks {t : Tid} {r : Option Int} (d : PciDev) (is : List (Fin pcieuniNrDevs)) (pc : Pc)
      (before : s.thread t = .searching d is)
      (after : pc = .idle ∨ (∃ i, pc = .probing d i) ∨ ∃ is', pc = .searching d is')
      (drv : s'.drv = s.drv) (threads : s'.thread = Function.update s.thread t pc) :
      Move s s' (.look t) r
  | claims {t : Tid} {r : Option Int} (d : PciDev) (i : Fin pcieuniNrDevs)
      (before : s.thread t = .probing d i)
      (threads : s'.thread = Function.update s.thread t (.filling d i))
      (places : SamePlaces s s') (devices : SameDevices s s')
      (flag : (s'.drv.dev i.castSucc).binded ≠ 0) (lists : Lists (fun _ _ => False) s s')
      (files : s'.drv.files = s.drv.files) : Move s s' (.claim t) r
  | spoils {t : Tid} {env : ProbeEnv} {r : Option Int} (d : PciDev) (i : Fin pcieuniNrDevs)
      (before : s.thread t = .filling d i)
      (threads : s'.thread = Function.update s.thread t .idle)
      (dev : s'.drv.dev = s.drv.dev)
      (drvdata : ∀ d', d' ≠ d → s'.drv.drvdata d' = s.drv.drvdata d')
      (bound : s'.drv.bound = s.drv.bound) (files : s'.drv.files = s.drv.files)
      (ret : r ≠ some 0) : Move s s' (.fill t env) r
  | fills {t : Tid} {env : ProbeEnv} (d : PciDev) (i : Fin pcieuniNrDevs)
      (before : s.thread t = .filling d i)
      (threads : s'.thread = Function.update s.thread t .idle)
      (others : ∀ j, j ≠ i.castSucc → s'.drv.dev j = s.drv.dev j)
      (here : s'.drv.occupant i.castSucc = some d)
      (binded : (s'.drv.dev i.castSucc).binded = (s.drv.dev i.castSucc).binded)
      (drvdata : s'.drv.drvdata = Function.update s.drv.drvdata d (some i.castSucc))
      (bound : s'.drv.bound = d :: s.drv.bound) (lists : Lists (fun _ _ => False) s s')
      (files : s'.drv.files = s.drv.files) : Move s s' (.fill t env) (some 0)
  | opens {t : Tid} {r : Option Int} (k : Slot) (f : FilePtr) (before : s.thread t = .opening k f)
      (threads : s'.thread = Function.update s.thread t .idle)
      (places : SamePlaces s s') (devices : SameDevices s s')
      (lists : Lists (fun _ _ => False) s s') (entry : s'.Listed f k)
      (files : s'.drv.files = ⟨f, k⟩ :: s.drv.files) : Move s s' (.lockOpen t false) r
  | releases {t : Tid} {intr : Bool} {r : Option Int} (k : Slot) (f : FilePtr)
      (before : s.thread t = .releasing k f)
      (threads : s'.thread = Function.update s.thread t .idle)
      (places : SamePlaces s s') (devices : SameDevices s s')
      (lists : Lists (fun g _ => g = f) s s')
      (files : s'.drv.files = s.drv.files.filter (·.filp ≠ f)) :
      Move s s' (.lockRelease t intr) r
  | closes {t : Tid} {d : PciDev} {r : Option Int} (k : Slot) (before : s.thread t = .idle)
      (threads : s'.thread = Function.update s.thread t (.detaching d k))
      (slot : s.drv.drvdata d = some k) (others : ∀ j, j ≠ k → s'.drv.dev j = s.drv.dev j)
      (gone : (s'.drv.dev k).devSts = 0) (devices : SameDevices s s')
      (lists : Lists (fun _ _ => False) s s')
      (files : s'.drv.files = s.drv.files) : Move s s' (.lockRemove t d) r
  | detaches {t : Tid} {r : Option Int} (d : PciDev) (k : Slot) (e : FileEntry)
      (before : s.thread t = .detaching d k) (threads : s'.thread = s.thread)
      (places : SamePlaces s s') (devices : SameDevices s s')
      (lists : Lists (fun g j => g = e.filp ∧ j = k) s s')
      (files : s'.drv.files = detachFiles [e] s.drv.files) : Move s s' (.detach t) r
  | ends {t : Tid} {r : Option Int} (d : PciDev) (k : Slot) (before : s.thread t = .detaching d k)
      (threads : s'.thread = Function.update s.thread t .idle)
      (places : SamePlaces s s') (drvdata : s'.drv.drvdata = s.drv.drvdata)
      (bound : s'.drv.bound = s.drv.bound.erase d)
      (empty : ∀ g, ¬ s.Listed g k) (lists : Lists (fun _ _ => False) s s')
      (files : s'.drv.files = s.drv.files) : Move s s' (.detach t) r

section Step

variable {s s' : State} {t : Tid} {r : Option Int}

section Slot

variable {k : Slot} {dv : PcieuniDev} (h : s'.drv.dev = (s.drv.setDev k dv).dev)

include h

/-- A write to a slot that keeps the fields that say which device it has. -/
theorem samePlaces_setDev (hsts : dv.devSts = (s.drv.dev k).devSts)
    (hpci : dv.pcieuniPciDev = (s.drv.dev k).pcieuniPciDev)
    (hbinded : (s.drv.dev k).binded ≠ 0 → dv.binded ≠ 0) : SamePlaces s s' := by
  have hall : ∀ j, (s'.drv.dev j).devSts = (s.drv.dev j).devSts ∧
      (s'.drv.dev j).pcieuniPciDev = (s.drv.dev j).pcieuniPciDev ∧
      ((s.drv.dev j).binded ≠ 0 → (s'.drv.dev j).binded ≠ 0) := by
    rw [h]
    exact Driver.setDev_forall (Q := fun j dv => dv.devSts = (s.drv.dev j).devSts ∧
      dv.pcieuniPciDev = (s.drv.dev j).pcieuniPciDev ∧ ((s.drv.dev j).binded ≠ 0 → dv.binded ≠ 0))
      ⟨hsts, hpci, hbinded⟩ fun _ _ => ⟨rfl, rfl, id⟩
  exact ⟨fun j => (hall j).1, fun j => (hall j).2.1, fun j => (hall j).2.2⟩

theorem lists_setDev {off : FilePtr → Slot → Prop}
    (hdv : ∀ g, ¬ off g k → s.Listed g k → g ∈ dv.devFileList.map (·.filp)) : Lists off s s' := by
  intro g j hoff hg
  rw [State.Listed, h]
  by_cases hj : j = k
  · subst hj
    rw [Driver.setDev_dev_self]
    exact hdv g hoff hg
  · rw [Driver.setDev_dev_ne hj]
    exact hg

end Slot

theorem samePlaces_of_dev (h : s'.drv.dev = s.drv.dev) : SamePlaces s s' := by
  constructor <;> intro j <;> rw [h]
  exact id

theorem unmapBars_devFileList (ns : List (Fin 6)) (dv : PcieuniDev) :
    (unmapBars ns dv).1.devFileList = dv.devFileList := by
  have hbars := unmapBars_barsOnly ns dv
  rw [PcieuniDev.BarsOnly] at hbars
  rw [hbars]

theorem callProbe_move {d : PciDev} (h : unplugLts.step s (.callProbe t d) = some (s', r)) :
    Move s s' (.callProbe t d) r := by
  simp only [unplugLts, State.step] at h
  split at h
  · rename_i ht
    cases h
    exact .searches d _ ht rfl rfl
  · cases h

theorem look_move (h : s.look t = some (s', r)) : Move s s' (.look t) r := by
  simp only [State.look] at h
  split at h
  · rename_i d i is ht
    split at h
    · cases h
      exact .looks d _ _ ht (.inr (.inl ⟨i, rfl⟩)) rfl rfl
    · cases h
      exact .looks d _ _ ht (.inr (.inr ⟨is, rfl⟩)) rfl rfl
  · rename_i d ht
    cases h
    exact .looks d _ _ ht (.inl rfl) rfl rfl
  · cases h

theorem claim_move (h : s.claim t = some (s', r)) : Move s s' (.claim t) r := by
  simp only [State.claim] at h
  split at h
  · rename_i d i ht
    cases h
    refine .claims d i ht rfl (samePlaces_setDev rfl rfl rfl (by simp)) ⟨rfl, rfl⟩ (by simp)
      (lists_setDev rfl fun _ _ hg => ?_) rfl
    exact hg
  · cases h

theorem fill_move {env : ProbeEnv} (h : s.fill t env = some (s', r)) :
    Move s s' (.fill t env) r := by
  simp only [State.fill] at h
  split at h
  · rename_i d i ht
    split at h
    · rename_i henable
      cases h
      exact .spoils d i ht rfl rfl (fun _ _ => rfl) rfl rfl (by simpa using henable)
    · split at h
      · rename_i hregions
        cases h
        exact .spoils d i ht rfl rfl (fun d' hd' => Function.update_of_ne hd' ..) rfl rfl
          (by simpa using hregions)
      · split at h
        · cases h
        · rename_i dv log hdev
          have hprobed := probeDevice_probed hdev
          cases h
          refine .fills d i ht rfl (fun j hj => Driver.setDev_dev_ne hj) ?_ ?_ rfl rfl
            (lists_setDev rfl fun g _ hg => ?_) rfl
          · simp [Driver.occupant, hprobed.devSts, hprobed.pcieuniPciDev]
          · simp [hprobed.binded]
          · rw [hprobed.devFileList]
            exact hg
  · cases h

theorem callOpen_move {k : Slot} {f : FilePtr}
    (h : unplugLts.step s (.callOpen t k f) = some (s', r)) : Move s s' (.callOpen t k f) r := by
  simp only [unplugLts, State.step] at h
  split at h
  · rename_i ht
    cases h
    refine .calm (.opening k f) (by simp [Act.tid, ht, Pc.device]) rfl rfl
      (samePlaces_setDev rfl rfl rfl id) ⟨rfl, rfl⟩ (lists_setDev rfl fun _ _ hg => ?_) rfl
      (by simp)
    exact hg
  · cases h

theorem lockOpen_move {intr : Bool} (h : s.lockOpen t intr = some (s', r)) :
    Move s s' (.lockOpen t intr) r := by
  simp only [State.lockOpen] at h
  split at h
  · rename_i k f ht
    split at h
    · cases h
      exact .calm .idle (by simp [Act.tid, ht, Pc.device]) rfl rfl (samePlaces_of_dev rfl)
        ⟨rfl, rfl⟩ (fun _ _ _ hg => hg) rfl (by simp)
    · cases h
    · rename_i hlock
      obtain rfl : intr = false := (mutexLockInterruptible_acquired.mp hlock).2
      cases h
      refine .opens k f ht rfl (samePlaces_setDev rfl rfl rfl id) ⟨rfl, rfl⟩
        (lists_setDev rfl fun _ _ hg => ?_) (by simp [State.Listed]) rfl
      exact List.mem_cons_of_mem _ hg
  · cases h

theorem callRelease_move {f : FilePtr} (h : unplugLts.step s (.callRelease t f) = some (s', r)) :
    Move s s' (.callRelease t f) r := by
  simp only [unplugLts, State.step] at h
  split at h
  · rename_i k ht _
    cases h
    exact .calm (.releasing k f) (by simp [Act.tid, ht, Pc.device]) rfl rfl (samePlaces_of_dev rfl)
      ⟨rfl, rfl⟩ (fun _ _ _ hg => hg) rfl (by simp)
  · cases h

theorem lockRelease_move {intr : Bool} (h : s.lockRelease t intr = some (s', r)) :
    Move s s' (.lockRelease t intr) r := by
  simp only [State.lockRelease] at h
  split at h
  · rename_i k f ht
    split at h
    · cases h
      exact .releases k f ht rfl (samePlaces_of_dev rfl) ⟨rfl, rfl⟩ (fun _ _ _ hg => hg) rfl
    · cases h
    · cases h
      refine .releases k f ht rfl (samePlaces_setDev rfl rfl rfl id) ⟨rfl, rfl⟩
        (lists_setDev rfl fun g hgf hg => ?_) rfl
      obtain ⟨e, he, rfl⟩ := List.mem_map.mp hg
      exact List.mem_map_of_mem (List.mem_filter.mpr ⟨he, by simpa using hgf⟩)
  · cases h

theorem lockRemove_move {d : PciDev} (h : s.lockRemove t d = some (s', r)) :
    Move s s' (.lockRemove t d) r := by
  simp only [State.lockRemove] at h
  split at h
  · rename_i k ht hk
    split at h
    · cases h
      refine .closes k ht rfl hk (fun j hj => Driver.setDev_dev_ne hj) (by simp) ⟨rfl, rfl⟩
        (lists_setDev rfl fun g _ hg => ?_) rfl
      change g ∈ (unmapBars allBars _).1.devFileList.map _
      rw [unmapBars_devFileList]
      exact hg
    · cases h
  · cases h

theorem detach_move (h : s.detach t = some (s', r)) : Move s s' (.detach t) r := by
  simp only [State.detach] at h
  split at h
  · rename_i d k ht
    split at h
    · rename_i e es hes
      cases h
      refine .detaches d k e ht rfl (samePlaces_setDev rfl rfl rfl id) ⟨rfl, rfl⟩
        (lists_setDev rfl fun g hne hg => ?_) rfl
      rw [State.Listed, hes, List.map_cons, List.mem_cons] at hg
      exact hg.resolve_left fun hge => hne ⟨hge, rfl⟩
    · rename_i hes
      cases h
      refine .ends d k ht rfl (samePlaces_setDev rfl rfl rfl id) rfl rfl
        (by simp [State.Listed, hes]) (lists_setDev rfl fun _ _ hg => ?_) rfl
      exact hg
  · cases h

/-- Every step is one of the moves. -/
theorem step_move {a : Act} (h : unplugLts.step s a = some (s', r)) : Move s s' a r := by
  cases a with
  | callProbe t d => exact callProbe_move h
  | look t => exact look_move h
  | claim t => exact claim_move h
  | fill t env => exact fill_move h
  | callOpen t k f => exact callOpen_move h
  | lockOpen t intr => exact lockOpen_move h
  | callRelease t f => exact callRelease_move h
  | lockRelease t intr => exact lockRelease_move h
  | lockRemove t d => exact lockRemove_move h
  | detach t => exact detach_move h

end Step

/-- A step moves its own thread. -/
theorem step_thread {s s' : State} {a : Act} {r : Option Int}
    (h : unplugLts.step s a = some (s', r)) {u : Tid} (hu : u ≠ a.tid) :
    s'.thread u = s.thread u := by
  cases step_move h with
  | calm _ _ _ threads | searches _ _ _ _ threads | looks _ _ _ _ _ _ threads
  | claims _ _ _ threads | spoils _ _ _ threads | fills _ _ _ threads
  | opens _ _ _ threads | releases _ _ _ threads | closes _ _ threads
  | ends _ _ _ threads =>
      rw [threads]
      exact Function.update_of_ne hu ..
  | detaches _ _ _ _ threads => rw [threads]

end Unplug

end Gpcieuni
