-- SUMMARY: Loading and unloading: `pcieuni_init_module_exp` with its failure exits, `pcieuni_cleanup_module_exp`, and the resources that they acquire and release.
import Gpcieuni.Lib.Ledger
import Gpcieuni.Driver

/-!
# The life of the module

Init acquires five kinds of resources, two of them once for each slot. Its exits
give back different parts of them (`initLoop_cases`); cleanup is compared with
what a successful init has acquired.
-/

namespace Gpcieuni

/-! ## Resources -/

/-- What init acquires: the two allocations, the character region, the class, and
the registrations of the character devices. -/
inductive ModuleResource where
  | cdevStruct
  | chrdevRegion
  | pcieuniClass
  | devStruct (i : Slot)
  | cdev (i : Slot)
  deriving DecidableEq

/-- A call of the kernel with its answer. No function of the driver calls
`cdev_del`. -/
inductive ModuleCall where
  | kzallocCdev (ok : Bool)
  | kfreeCdev
  | allocChrdevRegion (err : Int)
  | unregisterChrdevRegion (devno : Int)
  | classCreate (ok : Bool)
  | classDestroy
  | kzallocDev (i : Slot) (ok : Bool)
  | kfreeDev (i : Slot)
  | cdevAdd (i : Slot) (devno err : Int)
  | cdevDel (i : Slot)
  deriving DecidableEq

/-- The resource that a call acquires or releases. -/
def ModuleCall.entry : ModuleCall → Option (Ledger.Entry ModuleResource)
  | .kzallocCdev ok => if ok then some (.acquire .cdevStruct) else none
  | .kfreeCdev => some (.release .cdevStruct)
  | .allocChrdevRegion err => if err = 0 then some (.acquire .chrdevRegion) else none
  | .unregisterChrdevRegion _ => some (.release .chrdevRegion)
  | .classCreate ok => if ok then some (.acquire .pcieuniClass) else none
  | .classDestroy => some (.release .pcieuniClass)
  | .kzallocDev i ok => if ok then some (.acquire (.devStruct i)) else none
  | .kfreeDev i => some (.release (.devStruct i))
  | .cdevAdd i _ err => if err = 0 then some (.acquire (.cdev i)) else none
  | .cdevDel i => some (.release (.cdev i))

/-- How often a resource is held after a log of calls, if it was not held before. -/
def heldAfter (log : List ModuleCall) (r : ModuleResource) : Int :=
  Ledger.balance ModuleCall.entry log r

theorem heldAfter_append (l l' : List ModuleCall) (r : ModuleResource) :
    heldAfter (l ++ l') r = heldAfter l r + heldAfter l' r :=
  Ledger.balance_append l l' r

/-! ## Init -/

/-- What the kernel answers during init. -/
structure InitEnv where
  cdevAlloc : Bool := true
  /-- The result of `alloc_chrdev_region`, and the major number when it succeeds. -/
  chrdevRegion : Int := 0
  major : Int
  classCreate : Bool := true
  drvVerMaj : BitVec 16 := 1
  drvVerMin : BitVec 16 := 1
  devAlloc : Slot → Bool := fun _ => true
  cdevAdd : Slot → Int := fun _ => 0

/-- What `*pcieuni_cdev_pp` holds: what it did before the call, the address of the
struct that init allocated, or the null pointer. -/
inductive CdevPp where
  | untouched
  | cdev
  | null
  deriving DecidableEq

/-- The struct of slot `i` at the end of its turn of the loop. -/
def initDev (major : Int) (i : Slot) : PcieuniDev where
  devNum := mkdev major i
  devMinor := i
  devSts := 0
  devFileRef := 0
  irqMode := 0
  msi := 0
  devDma64mask := 0
  pcieuniAllMems := 0
  brdNum := i
  binded := if i = nullSlot then 1 else 0
  nullDev := if i = nullSlot then 1 else 0

/-- The calls of `kfree` on the structs in a table that are not null. -/
def kfreeDevs (ks : List Slot) (devM : Slot → Option PcieuniDev) : List ModuleCall :=
  ks.flatMap fun k => if (devM k).isSome then [.kfreeDev k] else []

/-- The result of the loop: the returned value, the table, and the calls. -/
structure InitLoop where
  ret : Int
  devM : Slot → Option PcieuniDev
  log : List ModuleCall

/-- The loop of init over the slots `is`, when it has gone through `done`. -/
def initLoop (env : InitEnv) (major : Int) :
    (is done : List Slot) → (devM : Slot → Option PcieuniDev) → (result : Int) → InitLoop
  | [], _, devM, result => ⟨result, devM, []⟩
  | i :: is, done, devM, _ =>
    if env.devAlloc i then
      let devno := mkdev major i
      let result := env.cdevAdd i
      if result ≠ 0 then
        -- this exit gives nothing back
        ⟨1, Function.update devM i (some { devNum := devno, devMinor := i }),
          [.kzallocDev i true, .cdevAdd i devno result]⟩
      else
        let r := initLoop env major is (done ++ [i])
          (Function.update devM i (some (initDev major i))) result
        { r with log := [.kzallocDev i true, .cdevAdd i devno result] ++ r.log }
    else
      -- this one gives the memory back, and leaves what was registered with it
      ⟨-enomem, devM, [.kzallocDev i false] ++ kfreeDevs done devM ++ [.kfreeCdev]⟩

/-- The result of init: the returned value, `*pcieuni_cdev_pp`, the major number
and the table in the struct, and the calls. -/
structure InitRet where
  ret : Int
  cdevPp : CdevPp
  pcieuniMajor : Int
  devM : Slot → Option PcieuniDev
  log : List ModuleCall

/-- `pcieuni_init_module_exp`. The results of `alloc_chrdev_region` and of
`class_create` are not looked at. -/
def pcieuniInitModuleExp (env : InitEnv) : InitRet :=
  if env.cdevAlloc then
    let result := env.chrdevRegion
    -- `devt` keeps its initial zero if there is no region
    let major := if result = 0 then env.major else 0
    let r := initLoop env major (List.finRange (pcieuniNrDevs + 1)) [] (fun _ => none) result
    { ret := r.ret
      cdevPp := .cdev
      pcieuniMajor := major
      devM := r.devM
      log := [.kzallocCdev true, .allocChrdevRegion result, .classCreate env.classCreate] ++ r.log }
  else
    { ret := -enomem
      cdevPp := .untouched
      pcieuniMajor := 0
      devM := fun _ => none
      log := [.kzallocCdev false] }

/-! ## Cleanup -/

/-- The result of cleanup. -/
structure CleanupRet where
  cdevPp : CdevPp
  log : List ModuleCall

/-- `pcieuni_cleanup_module_exp`. -/
def pcieuniCleanupModuleExp (major : Int) (devM : Slot → Option PcieuniDev) : CleanupRet where
  cdevPp := .null
  log := [.unregisterChrdevRegion (mkdev major 0), .classDestroy] ++
    kfreeDevs (List.finRange (pcieuniNrDevs + 1)) devM ++ [.kfreeCdev]

/-! ## What init leaves behind -/

theorem kfreeDevs_entry {ks : List Slot} {devM : Slot → Option PcieuniDev} {c : ModuleCall}
    (h : c ∈ kfreeDevs ks devM) : ∃ k, c = .kfreeDev k := by
  obtain ⟨k, -, hk⟩ := List.mem_flatMap.mp h
  split at hk
  · exact ⟨k, List.mem_singleton.mp hk⟩
  · cases hk

/-- The calls of a turn that succeeds. -/
def addCalls (major : Int) (i : Slot) : List ModuleCall :=
  [.kzallocDev i true, .cdevAdd i (mkdev major i) 0]

/-- Freeing the structs releases nothing else. -/
theorem kfreeDevs_tally_other (ks : List Slot) (devM : Slot → Option PcieuniDev)
    {x : Ledger.Entry ModuleResource} (hx : ∀ k, x ≠ .release (.devStruct k)) :
    Ledger.tally ModuleCall.entry (kfreeDevs ks devM) x = 0 := by
  apply Ledger.tally_eq_zero
  intro c hc heq
  obtain ⟨k, rfl⟩ := kfreeDevs_entry hc
  exact hx k (Option.some.inj heq).symm

theorem kfreeDevs_held (ks : List Slot) (devM : Slot → Option PcieuniDev) :
    heldAfter (kfreeDevs ks devM) .cdevStruct = 0 := by
  simp [heldAfter, Ledger.balance, kfreeDevs_tally_other]

/-- The three ways out of the loop: the memory of a struct is missing, a character
device cannot be added, or every turn succeeds. -/
theorem initLoop_cases (env : InitEnv) (major : Int) (is done : List Slot)
    (devM : Slot → Option PcieuniDev) (result : Int) :
    ((initLoop env major is done devM result).ret = -enomem ∧
      heldAfter (initLoop env major is done devM result).log .cdevStruct = -1) ∨
    ((initLoop env major is done devM result).ret = 1 ∧
      heldAfter (initLoop env major is done devM result).log .cdevStruct = 0) ∨
    ((∀ i ∈ is, env.devAlloc i = true ∧ env.cdevAdd i = 0) ∧
      (initLoop env major is done devM result).ret = (if is = [] then result else 0) ∧
      (initLoop env major is done devM result).log = is.flatMap (addCalls major) ∧
      ∀ k, (initLoop env major is done devM result).devM k =
        if k ∈ is then some (initDev major k) else devM k) := by
  induction is generalizing done devM result with
  | nil => exact .inr (.inr ⟨by simp, rfl, rfl, fun k => by simp [initLoop]⟩)
  | cons i is ih =>
      by_cases halloc : env.devAlloc i = true
      · by_cases hadd : env.cdevAdd i = 0
        · have hturn : initLoop env major (i :: is) done devM result =
              { initLoop env major is (done ++ [i])
                  (Function.update devM i (some (initDev major i))) 0 with
                log := addCalls major i ++ (initLoop env major is (done ++ [i])
                  (Function.update devM i (some (initDev major i))) 0).log } := by
            simp [initLoop, halloc, hadd, addCalls]
          have hheld : heldAfter (addCalls major i) .cdevStruct = 0 := by
            simp [addCalls, heldAfter, Ledger.balance, Ledger.tally_cons, ModuleCall.entry]
          rw [hturn]
          simp only [heldAfter_append, hheld, Int.zero_add]
          rcases ih (done ++ [i]) (Function.update devM i (some (initDev major i))) 0 with
            hmem | hcdev | ⟨hall, hret, hlog, hdev⟩
          · exact .inl hmem
          · exact .inr (.inl hcdev)
          · refine .inr (.inr ⟨?_, ?_, ?_, ?_⟩)
            · intro j hj
              rcases List.mem_cons.mp hj with rfl | hmem
              · exact ⟨halloc, hadd⟩
              · exact hall j hmem
            · simp [hret]
            · rw [hlog]
              rfl
            · intro k
              rw [hdev k]
              by_cases hk : k = i
              · subst hk
                simp
              · simp [hk]
        · refine .inr (.inl ?_)
          simp [initLoop, halloc, hadd, heldAfter, Ledger.balance, Ledger.tally_cons, ModuleCall.entry]
      · refine .inl ⟨by simp [initLoop, halloc], ?_⟩
        simp only [initLoop, if_neg halloc, heldAfter_append, kfreeDevs_held]
        simp [heldAfter, Ledger.balance, Ledger.tally_cons, ModuleCall.entry]

/-- The struct `pcieuni_cdev` was allocated, and a later step of init fails. -/
def InitEnv.StepFails (env : InitEnv) : Prop :=
  env.cdevAlloc = true ∧ (env.chrdevRegion ≠ 0 ∨ env.classCreate = false ∨
    ∃ i, env.devAlloc i = false ∨ env.cdevAdd i ≠ 0)

/-- A failed init leaves nothing behind: it reports an error, holds what it held
before, no registered character device lies in freed memory, and
`*pcieuni_cdev_pp` does not point to freed memory. -/
structure InitRet.Atomic (r : InitRet) : Prop where
  error : r.ret ≠ 0
  held : ∀ res, heldAfter r.log res = 0
  embedded : ∀ i, 0 < heldAfter r.log (.cdev i) → 0 < heldAfter r.log (.devStruct i)
  pointer : r.cdevPp = .cdev → 0 < heldAfter r.log .cdevStruct

/-- The exits of init once the struct is allocated: the struct is freed and still
pointed to, or an error is returned and the struct is still held, or init
succeeds. -/
theorem pcieuniInitModuleExp_cases {env : InitEnv} (h : env.cdevAlloc = true) :
    (pcieuniInitModuleExp env).cdevPp = .cdev ∧
    (((pcieuniInitModuleExp env).ret = -enomem ∧
      heldAfter (pcieuniInitModuleExp env).log .cdevStruct = 0) ∨
    ((pcieuniInitModuleExp env).ret = 1 ∧
      heldAfter (pcieuniInitModuleExp env).log .cdevStruct = 1) ∨
    ((pcieuniInitModuleExp env).ret = 0 ∧
      (pcieuniInitModuleExp env).log = [.kzallocCdev true, .allocChrdevRegion env.chrdevRegion,
        .classCreate env.classCreate] ++ (List.finRange (pcieuniNrDevs + 1)).flatMap
          (addCalls (pcieuniInitModuleExp env).pcieuniMajor) ∧
      ∀ k, (pcieuniInitModuleExp env).devM k =
        some (initDev (pcieuniInitModuleExp env).pcieuniMajor k))) := by
  have hfirst : heldAfter [.kzallocCdev true, .allocChrdevRegion env.chrdevRegion,
      .classCreate env.classCreate] .cdevStruct = 1 := by
    simp [heldAfter, Ledger.balance, Ledger.tally_cons, ModuleCall.entry, ite_eq_iff]
  simp only [pcieuniInitModuleExp, if_pos h, heldAfter_append, hfirst, true_and]
  generalize (if env.chrdevRegion = 0 then env.major else 0) = major
  rcases initLoop_cases env major (List.finRange (pcieuniNrDevs + 1)) [] (fun _ => none)
    env.chrdevRegion with ⟨hret, hmem⟩ | ⟨hret, hcdev⟩ | ⟨-, hret, hlog, hdev⟩
  · exact .inl ⟨hret, by rw [hmem]; rfl⟩
  · exact .inr (.inl ⟨hret, by rw [hcdev]; rfl⟩)
  · refine .inr (.inr ⟨hret, by rw [hlog], fun k => ?_⟩)
    rw [hdev k, if_pos (List.mem_finRange k)]

/-- Whatever step fails, init is not atomic. -/
theorem init_not_atomic {env : InitEnv} (h : env.StepFails) : ¬ (pcieuniInitModuleExp env).Atomic := by
  rintro ⟨herror, hheld, -, hpointer⟩
  obtain ⟨hpp, ⟨-, hfreed⟩ | ⟨-, hkept⟩ | ⟨hret, -, -⟩⟩ := pcieuniInitModuleExp_cases h.1
  · exact absurd hfreed (hpointer hpp).ne'
  · rw [hheld] at hkept
    cases hkept
  · exact herror hret

/-- The character region is not available, and init reports success. -/
theorem init_not_atomic_region :
    (pcieuniInitModuleExp { major := 250, chrdevRegion := -16 }).ret = 0 ∧
    ¬ (pcieuniInitModuleExp { major := 250, chrdevRegion := -16 }).Atomic :=
  ⟨by decide +kernel, init_not_atomic ⟨rfl, .inl (by decide)⟩⟩

/-- The fourth struct cannot be allocated. The first three character devices stay
registered in memory that is freed, and the region and the class are kept. -/
theorem init_leaves_cdevs_in_freed_memory :
    let r := pcieuniInitModuleExp { major := 250, devAlloc := fun i => decide (i ≠ 3) }
    r.ret = -enomem ∧ r.cdevPp = .cdev ∧ heldAfter r.log .cdevStruct = 0 ∧
    heldAfter r.log .chrdevRegion = 1 ∧ heldAfter r.log .pcieuniClass = 1 ∧
    (∀ i < 3, heldAfter r.log (.cdev i) = 1 ∧ heldAfter r.log (.devStruct i) = 0) ∧
    ¬ r.Atomic := by
  refine ⟨by decide +kernel, by decide +kernel, by decide +kernel, by decide +kernel,
    by decide +kernel, by decide +kernel, fun hatomic => ?_⟩
  have hregion := hatomic.held .chrdevRegion
  revert hregion
  decide +kernel

/-! ## What cleanup gives back -/

/-- What a successful init has done. -/
theorem pcieuniInitModuleExp_ok {env : InitEnv} (h : (pcieuniInitModuleExp env).ret = 0) :
    (pcieuniInitModuleExp env).log = [.kzallocCdev true, .allocChrdevRegion env.chrdevRegion,
      .classCreate env.classCreate] ++ (List.finRange (pcieuniNrDevs + 1)).flatMap
        (addCalls (pcieuniInitModuleExp env).pcieuniMajor) ∧
    ∀ k, (pcieuniInitModuleExp env).devM k =
      some (initDev (pcieuniInitModuleExp env).pcieuniMajor k) := by
  have halloc : env.cdevAlloc = true := by
    by_contra hnone
    simp [pcieuniInitModuleExp, hnone, enomem] at h
  obtain ⟨-, ⟨hret, -⟩ | ⟨hret, -⟩ | ⟨-, hok⟩⟩ := pcieuniInitModuleExp_cases halloc
  · rw [h] at hret
    cases hret
  · rw [h] at hret
    cases hret
  · exact hok

/-- The driver that a successful init hands over, with the registers `regs`. -/
def InitRet.driver (r : InitRet) (env : InitEnv) (regs : Regs) : Driver :=
  Driver.initial r.pcieuniMajor env.drvVerMaj env.drvVerMin regs

/-- The table after a successful init is the one the driver starts from. -/
theorem init_devM {env : InitEnv} (h : (pcieuniInitModuleExp env).ret = 0) (regs : Regs)
    (k : Slot) : (pcieuniInitModuleExp env).devM k =
      some (((pcieuniInitModuleExp env).driver env regs).dev k) :=
  (pcieuniInitModuleExp_ok h).2 k

/-- Cleanup undoes init: each resource is released as often as it was acquired, and
no character device stays registered in memory that is freed. -/
structure Undoes (initLog cleanupLog : List ModuleCall) : Prop where
  released : ∀ res, Ledger.tally ModuleCall.entry cleanupLog (.release res) =
    Ledger.tally ModuleCall.entry initLog (.acquire res)
  embedded : ∀ i, 0 < heldAfter (initLog ++ cleanupLog) (.cdev i) →
    0 < heldAfter (initLog ++ cleanupLog) (.devStruct i)

/-- The calls of init that succeed for each slot: each character device is
registered once and its struct is allocated once, and nothing is released. -/
theorem addCalls_tally (major : Int) (i : Slot) {x : Ledger.Entry ModuleResource}
    (hx : x = .acquire (.cdev i) ∨ x = .acquire (.devStruct i)) :
    Ledger.tally ModuleCall.entry ((List.finRange (pcieuniNrDevs + 1)).flatMap (addCalls major)) x =
      1 := by
  rw [Ledger.tally_flatMap (List.nodup_finRange _) (List.mem_finRange i)]
  · rcases hx with rfl | rfl <;> simp [addCalls, Ledger.tally_cons, ModuleCall.entry]
  · intro j hj e he
    simp only [addCalls, List.mem_cons, List.not_mem_nil, or_false] at he
    rcases hx with rfl | rfl <;> rcases he with rfl | rfl <;> simp [ModuleCall.entry, hj]

theorem addCalls_not_release (major : Int) (r : ModuleResource) :
    Ledger.tally ModuleCall.entry ((List.finRange (pcieuniNrDevs + 1)).flatMap (addCalls major))
      (.release r) = 0 := by
  apply Ledger.tally_eq_zero
  intro e he
  obtain ⟨j, -, hj⟩ := List.mem_flatMap.mp he
  simp only [addCalls, List.mem_cons, List.not_mem_nil, or_false] at hj
  rcases hj with rfl | rfl <;> simp [ModuleCall.entry]

/-- What init has done to the two resources of slot `i`. -/
theorem init_held {env : InitEnv} (h : (pcieuniInitModuleExp env).ret = 0) (i : Slot) :
    heldAfter (pcieuniInitModuleExp env).log (.cdev i) = 1 ∧
      heldAfter (pcieuniInitModuleExp env).log (.devStruct i) = 1 := by
  rw [(pcieuniInitModuleExp_ok h).1]
  constructor
  · simp [heldAfter, Ledger.balance, Ledger.tally_cons, ModuleCall.entry, addCalls_tally,
      addCalls_not_release, ite_eq_iff]
  · simp [heldAfter, Ledger.balance, Ledger.tally_cons, ModuleCall.entry, addCalls_tally,
      addCalls_not_release, ite_eq_iff]

/-- A full table is freed once. -/
theorem kfreeDevs_tally (devM : Slot → PcieuniDev) (i : Slot) :
    Ledger.tally ModuleCall.entry
      (kfreeDevs (List.finRange (pcieuniNrDevs + 1)) fun k => some (devM k))
      (.release (.devStruct i)) = 1 := by
  rw [kfreeDevs, Ledger.tally_flatMap (List.nodup_finRange _) (List.mem_finRange i)]
  · simp [Ledger.tally_cons, ModuleCall.entry]
  · intro j hj e he
    simp only [Option.isSome_some, if_true, List.mem_singleton] at he
    rw [he]
    simp [ModuleCall.entry, hj]

/-- What cleanup does to them: the struct is freed, the registration stays. -/
theorem cleanup_held (major : Int) (devM : Slot → PcieuniDev) (i : Slot) :
    heldAfter (pcieuniCleanupModuleExp major fun k => some (devM k)).log (.cdev i) = 0 ∧
      heldAfter (pcieuniCleanupModuleExp major fun k => some (devM k)).log (.devStruct i) = -1 := by
  constructor
  · simp [pcieuniCleanupModuleExp, heldAfter, Ledger.balance, Ledger.tally_cons, ModuleCall.entry,
      kfreeDevs_tally_other]
  · simp [pcieuniCleanupModuleExp, heldAfter, Ledger.balance, Ledger.tally_cons, ModuleCall.entry,
      kfreeDevs_tally_other, kfreeDevs_tally]

/-- After every successful init, whatever the driver did before all devices and
files were gone: cleanup does not undo init. Every character device stays
registered, and its struct is freed. -/
theorem cleanup_not_undoes {env : InitEnv} (h : (pcieuniInitModuleExp env).ret = 0) (regs : Regs)
    (tr : List (Transition Driver Op OpRet)) (s : Driver) :
    driverLts.Run ((pcieuniInitModuleExp env).driver env regs) tr s →
    s.bound = [] → s.files = [] →
    ¬ Undoes (pcieuniInitModuleExp env).log
      (pcieuniCleanupModuleExp s.pcieuniMajor fun k => some (s.dev k)).log ∧
    ∀ i, heldAfter ((pcieuniInitModuleExp env).log ++
          (pcieuniCleanupModuleExp s.pcieuniMajor fun k => some (s.dev k)).log) (.cdev i) = 1 ∧
        heldAfter ((pcieuniInitModuleExp env).log ++
          (pcieuniCleanupModuleExp s.pcieuniMajor fun k => some (s.dev k)).log) (.devStruct i) = 0 := by
  intro _ _ _
  have hheld : ∀ i, heldAfter ((pcieuniInitModuleExp env).log ++
          (pcieuniCleanupModuleExp s.pcieuniMajor fun k => some (s.dev k)).log) (.cdev i) = 1 ∧
        heldAfter ((pcieuniInitModuleExp env).log ++
          (pcieuniCleanupModuleExp s.pcieuniMajor fun k => some (s.dev k)).log) (.devStruct i) =
            0 := by
    intro i
    simp only [heldAfter_append, init_held h, cleanup_held]
    decide
  refine ⟨fun hundo => ?_, hheld⟩
  obtain ⟨hcdev, hdev⟩ := hheld 0
  have hembedded := hundo.embedded 0 (by rw [hcdev]; decide)
  rw [hdev] at hembedded
  cases hembedded

/-- A card comes and goes, a file is opened and closed, and the module is unloaded. -/
theorem cleanup_not_undoes_used : ∃ tr s,
    driverLts.Run ((pcieuniInitModuleExp { major := 250 }).driver { major := 250 }
      fun _ _ _ => 0) tr s ∧
    tr.map (·.act) = [.probe { fuel := 1 } 7, .openFile {} 0 1, .release false 1,
      .remove "gpcieuni" 7] ∧
    ¬ Undoes (pcieuniInitModuleExp { major := 250 }).log
      (pcieuniCleanupModuleExp s.pcieuniMajor fun k => some (s.dev k)).log := by
  obtain ⟨tr, s, hrun, hacts, hend⟩ := Lts.Run.of_exec_map (M := driverLts)
    (g := fun r => (r.2.bound, r.2.files)) (v := ([], []))
    (s := (pcieuniInitModuleExp { major := 250 }).driver { major := 250 } fun _ _ _ => 0)
    (l := [.probe { fuel := 1 } 7, .openFile {} 0 1, .release false 1, .remove "gpcieuni" 7])
    (by decide +kernel)
  obtain ⟨hbound, hfiles⟩ := Prod.mk.inj hend
  exact ⟨tr, s, hrun, hacts,
    (cleanup_not_undoes (by decide +kernel) _ tr s hrun hbound hfiles).1⟩

/-- The module is loaded and unloaded, and minor 0 leads into freed memory. -/
theorem cleanup_leaves_cdev :
    let r := pcieuniInitModuleExp { major := 250 }
    let c := pcieuniCleanupModuleExp r.pcieuniMajor r.devM
    r.ret = 0 ∧ heldAfter (r.log ++ c.log) (.cdev 0) = 1 ∧
    heldAfter (r.log ++ c.log) (.devStruct 0) = 0 ∧ ¬ Undoes r.log c.log := by
  refine ⟨by decide +kernel, by decide +kernel, by decide +kernel, fun hundo => ?_⟩
  have hreleased := hundo.released (.cdev 0)
  revert hreleased
  decide +kernel

end Gpcieuni
