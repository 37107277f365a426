-- SUMMARY: Device nodes and proc entries over whole runs: when every bound device has a node and an entry of its own, and a remove takes away no others.
import Mathlib
import Gpcieuni.Lib.Registry
import Gpcieuni.Driver.Names

/-!
# Nodes and proc entries

`device_create` and `proc_create_data` refuse a name that exists, and the driver
looks at neither answer. A node is destroyed by its device number, which belongs
to the slot, and a proc entry by its name. So the entries stay those of the bound
devices as long as every new name is new (`run_ownEntries_iff`).
-/

namespace Gpcieuni

/-- The device nodes of the driver's class and the entries it has in `/proc`. A node
leads to a device number, a proc entry shows the struct that it was made with. -/
structure Entries where
  node : Registry String Int
  proc : Registry String Slot

namespace Entries

def empty : Entries := ⟨fun _ => none, fun _ => none⟩

/-- What an effect does to the nodes and the entries. -/
def apply (c : Entries) : Effect → Entries
  | .deviceCreate devno name => { c with node := c.node.add name devno }
  | .deviceDestroy devno => { c with node := c.node.removeValue devno }
  | .procCreate name k => { c with proc := c.proc.add name k }
  | .procRemove name => { c with proc := c.proc.remove name }
  | _ => c

/-- The effects of a log, one after the other. -/
def replay (c : Entries) (log : List Effect) : Entries := log.foldl apply c

theorem replay_namingCalls (c : Entries) (log : List Effect) :
    c.replay (namingCalls log) = c.replay log := by
  induction log generalizing c with
  | nil => rfl
  | cons e log ih =>
      cases hname : e.isNaming with
      | true =>
          simp only [namingCalls, List.filter_cons_of_pos hname]
          exact ih (c.apply e)
      | false =>
          have hkeep : c.apply e = c := by cases e <;> first | rfl | cases hname
          simp only [namingCalls, List.filter_cons_of_neg (by simp [hname] : ¬ e.isNaming = true)]
          simp only [replay, List.foldl_cons, hkeep]
          exact ih c

/-- The node of an earlier device in the slot is destroyed first. -/
theorem replay_nodeCalls {c : Entries} {env : ProbeEnv} {major : Int} {k : Slot}
    (devSts slotNum : Int) (h : ∀ name, c.node name ≠ some (mkdev major k)) :
    c.replay (nodeCalls env major k devSts slotNum) =
      { node := c.node.add (entryName env.devName slotNum) (mkdev major k)
        proc := c.proc.add (entryName env.devName slotNum) k } := by
  unfold nodeCalls
  split
  · simp only [replay, List.cons_append, List.nil_append, List.foldl_cons, List.foldl_nil, apply,
      Registry.removeValue_of_unused h]
  · rfl

end Entries

/-! ## The system -/

/-- The driver with the nodes and the entries that it has made. -/
structure Published where
  driver : Driver
  entries : Entries

/-- The calls of the driver, with what their effects do to the entries. -/
def publishedLts : Lts Published Op OpRet where
  init s := driverLts.init s.driver ∧ s.entries = .empty
  step s op :=
    match s.driver.exec op with
    | .error _ => none
    | .ok (driver, r) => some (⟨driver, s.entries.replay r.log⟩, r)

theorem publishedLts_step {s s' : Published} {op : Op} {r : OpRet}
    (h : publishedLts.step s op = some (s', r)) :
    s.driver.exec op = .ok (s'.driver, r) ∧ s'.entries = s.entries.replay (namingCalls r.log) := by
  simp only [publishedLts] at h
  split at h
  · cases h
  · rename_i driver r₁ hexec
    cases h
    exact ⟨hexec, (s.entries.replay_namingCalls r.log).symm⟩

/-- The call passes the module's own `dev_name`. -/
def Op.Passes (devName : String) : Op → Prop
  | .probe env _ => env.devName = devName
  | .remove devName' _ => devName' = devName
  | _ => True

instance instDecidablePasses (devName : String) (op : Op) : Decidable (op.Passes devName) :=
  match op with
  | .probe env _ => inferInstanceAs (Decidable (env.devName = devName))
  | .remove devName' _ => inferInstanceAs (Decidable (devName' = devName))
  | .openFile .. | .release .. | .read .. | .write .. | .ioctl .. => isTrue trivial

namespace Driver

/-- The slots of the bound devices. -/
def usedSlots (s : Driver) : Set Slot := { k | ∃ d ∈ s.bound, s.drvdata d = some k }

/-- The call is not a probe that gets a device whose slot number a bound device
has. -/
def FreshNumber (s : Driver) : Op → Prop
  | .probe env _ => s.Claims env →
      ∀ d ∈ s.bound, ∀ k, s.drvdata d = some k → (s.dev k).slotNum ≠ env.slotNum
  | _ => True

instance instDecidableClaims (s : Driver) (env : ProbeEnv) : Decidable (s.Claims env) :=
  decidable_of_iff (s.freeSlot ≠ none ∧ env.enableDevice = 0 ∧ env.requestRegions = 0)
    ⟨fun h => ⟨h.1, h.2.1, h.2.2⟩, fun h => ⟨h.free, h.enableDevice, h.requestRegions⟩⟩

instance instDecidableFreshNumber (s : Driver) (op : Op) : Decidable (s.FreshNumber op) :=
  match op with
  | .probe env _ => inferInstanceAs (Decidable (s.Claims env →
      ∀ d ∈ s.bound, ∀ k, s.drvdata d = some k → (s.dev k).slotNum ≠ env.slotNum))
  | .remove .. | .openFile .. | .release .. | .read .. | .write .. | .ioctl .. => isTrue trivial

end Driver

/-! ## The property -/

/-- Every bound device has a node and a proc entry under its name. The node leads
to its slot, and the entry shows its struct. -/
def OwnEntries (s : Published) : Prop :=
  ∀ d ∈ s.driver.bound, ∃ k, s.driver.drvdata d = some k ∧
    s.entries.node (s.driver.dev k).name = some (mkdev s.driver.pcieuniMajor k) ∧
    s.entries.proc (s.driver.dev k).name = some k

/-- The step is not a remove, or it removes the node and the entry of its device,
and nothing else. -/
def RemovesOwn (t : Transition Published Op OpRet) : Prop :=
  ∀ devName d k, t.act = .remove devName d → t.pre.driver.drvdata d = some k →
    (∀ name devno, t.post.entries.node name = some devno ↔
      t.pre.entries.node name = some devno ∧ devno ≠ mkdev t.pre.driver.pcieuniMajor k) ∧
    ∀ name j, t.post.entries.proc name = some j ↔ t.pre.entries.proc name = some j ∧ j ≠ k

/-! ## The slots in use -/

namespace Driver

theorem SlotInv.serves_used {s : Driver} (hs : s.SlotInv) {k : Slot} (hk : k ∈ s.usedSlots) :
    ∃ d, s.Serves d k := by
  obtain ⟨d, hd, hdrv⟩ := hk
  exact ⟨d, hs.serves_of_drvdata hd hdrv⟩

theorem Serves.used {s : Driver} {d : PciDev} {k : Slot} (h : s.Serves d k) : k ∈ s.usedSlots :=
  ⟨d, h.bound, h.drvdata⟩

theorem SlotInv.used_ne_free {s : Driver} (hs : s.SlotInv) {i : Fin pcieuniNrDevs}
    (hfree : s.freeSlot = some i) {k : Slot} (hk : k ∈ s.usedSlots) : k ≠ i.castSucc := by
  obtain ⟨d, hd⟩ := hs.serves_used hk
  exact hd.ne_free hfree

theorem SameNames.usedSlots {s s' : Driver} (h : s.SameNames s') : s'.usedSlots = s.usedSlots := by
  ext k
  simp only [Driver.usedSlots, h.bound, Set.mem_ofPred_eq]
  refine exists_congr fun d => and_congr_right fun hd => ?_
  rw [h.drvdata d hd]

/-- A device that is bound to slot `k` adds it to the slots in use. -/
theorem usedSlots_bind {s s' : Driver} {d : PciDev} {k : Slot} (hd : d ∉ s.bound)
    (hbound : s'.bound = d :: s.bound)
    (hdrv : s'.drvdata = Function.update s.drvdata d (some k)) :
    s'.usedSlots = insert k s.usedSlots := by
  ext j
  simp only [usedSlots, hbound, hdrv, Set.mem_ofPred_eq, Set.mem_insert_iff, List.mem_cons,
    exists_eq_or_imp, Function.update_self, Option.some.injEq, eq_comm (a := k)]
  refine or_congr_right (exists_congr fun d' => and_congr_right fun hd' => ?_)
  rw [Function.update_of_ne]
  rintro rfl
  exact hd hd'

/-- A device that is unbound gives up its slot, which is nobody else's. -/
theorem SlotInv.usedSlots_unbind {s s' : Driver} (hs : s.SlotInv) {d : PciDev} {k : Slot}
    (hd : s.Serves d k) (hbound : s'.bound = s.bound.erase d) (hdrv : s'.drvdata = s.drvdata) :
    s'.usedSlots = s.usedSlots \ {k} := by
  ext j
  simp only [usedSlots, hbound, hdrv, Set.mem_ofPred_eq, Set.mem_sdiff, Set.mem_singleton_iff,
    hs.nodup.mem_erase_iff]
  constructor
  · rintro ⟨d', ⟨hne, hd'⟩, hj⟩
    exact ⟨⟨d', hd', hj⟩, (hs.serves_of_drvdata hd' hj).slot_ne hd hne⟩
  · rintro ⟨⟨d', hd', hj⟩, hne⟩
    refine ⟨d', ⟨?_, hd'⟩, hj⟩
    rintro rfl
    exact hne (Option.some.inj (hj.symm.trans hd.drvdata))

end Driver

/-! ## The invariant -/

theorem entryName_injective (devName : String) : Function.Injective (entryName devName) := by
  intro m n h
  exact Int.repr_injective ((String.append_right_inj _).mp h)

theorem mkdev_slot_injective (major : Int) : Function.Injective fun k : Slot => mkdev major k := by
  intro j k h
  simp only [mkdev] at h
  exact Fin.ext (by omega)

namespace Published

/-- The nodes and the entries are those of the slots in use, whose names are made
from their slot numbers. -/
structure Inv (devName : String) (s : Published) : Prop where
  slots : s.driver.SlotInv
  indexed : s.driver.Indexed
  name : ∀ k ∈ s.driver.usedSlots,
    (s.driver.dev k).name = entryName devName (s.driver.dev k).slotNum
  node : s.entries.node.Lists s.driver.usedSlots (fun k => (s.driver.dev k).name)
    (fun k => mkdev s.driver.pcieuniMajor k)
  proc : s.entries.proc.Lists s.driver.usedSlots (fun k => (s.driver.dev k).name) id

variable {devName : String} {s s' : Published} {op : Op} {r : OpRet}

theorem Inv.ownEntries (hs : s.Inv devName) : OwnEntries s := by
  intro d hd
  obtain ⟨k, hk⟩ := hs.slots.serves d hd
  exact ⟨k, hk.drvdata, hs.node.get hk.used, hs.proc.get hk.used⟩

theorem Inv.names_injOn (hs : s.Inv devName) :
    Set.InjOn (fun k => (s.driver.dev k).name) s.driver.usedSlots :=
  hs.proc.injOn Function.injective_id.injOn

theorem Inv.devno_unused (hs : s.Inv devName) {i : Fin pcieuniNrDevs}
    (hfree : s.driver.freeSlot = some i) (name : String) :
    s.entries.node name ≠ some (mkdev s.driver.pcieuniMajor i.castSucc) := by
  apply hs.node.value_unused (x := i.castSucc)
  intro k hk heq
  exact hs.slots.used_ne_free hfree hk (mkdev_slot_injective _ heq)

theorem Inv.sameNames (hs : s.Inv devName) (hslots : s'.driver.SlotInv)
    (hindexed : s'.driver.Indexed) (hsame : s.driver.SameNames s'.driver)
    (hentries : s'.entries = s.entries) : s'.Inv devName := by
  have hname : ∀ k, (s'.driver.dev k).name = (s.driver.dev k).name := fun k => (hsame.dev k).2
  refine ⟨hslots, hindexed, ?_, ?_, ?_⟩
  · intro k hk
    rw [hsame.usedSlots] at hk
    rw [hname k, (hsame.dev k).1]
    exact hs.name k hk
  · rw [hentries, hsame.usedSlots, hsame.pcieuniMajor]
    exact hs.node.congr (fun k _ => hname k) (fun _ _ => rfl)
  · rw [hentries, hsame.usedSlots]
    exact hs.proc.congr (fun k _ => hname k) (fun _ _ => rfl)

/-- A device that is bound under a new name. -/
theorem Inv.bind (hs : s.Inv devName) (hslots : s'.driver.SlotInv) (hindexed : s'.driver.Indexed)
    {i : Fin pcieuniNrDevs} {n : Int} (hfree : s.driver.freeSlot = some i)
    (hused : s'.driver.usedSlots = insert i.castSucc s.driver.usedSlots)
    (hmajor : s'.driver.pcieuniMajor = s.driver.pcieuniMajor)
    (hdev : ∀ k, k ≠ i.castSucc → s'.driver.dev k = s.driver.dev k)
    (hslot : (s'.driver.dev i.castSucc).slotNum = n)
    (hname : (s'.driver.dev i.castSucc).name = entryName devName n)
    (hfresh : ∀ k ∈ s.driver.usedSlots, (s.driver.dev k).slotNum ≠ n)
    (hentries : s'.entries =
      { node := s.entries.node.add (entryName devName n)
          (mkdev s.driver.pcieuniMajor i.castSucc)
        proc := s.entries.proc.add (entryName devName n) i.castSucc }) :
    s'.Inv devName := by
  have hkeep : ∀ k ∈ s.driver.usedSlots, s'.driver.dev k = s.driver.dev k := fun k hk =>
    hdev k (hs.slots.used_ne_free hfree hk)
  have hold : ∀ k ∈ s.driver.usedSlots, (s'.driver.dev k).name = (s.driver.dev k).name :=
    fun k hk => by rw [hkeep k hk]
  have hnew : ∀ k ∈ s.driver.usedSlots,
      (s'.driver.dev k).name ≠ (s'.driver.dev i.castSucc).name := by
    intro k hk heq
    rw [hold k hk, hs.name k hk, hname] at heq
    exact hfresh k hk (entryName_injective devName heq)
  refine ⟨hslots, hindexed, ?_, ?_, ?_⟩
  · intro k hk
    rw [hused] at hk
    rcases hk with rfl | hk
    · rw [hname, hslot]
    · rw [hkeep k hk]
      exact hs.name k hk
  · rw [hentries, hused, hmajor, ← hname]
    exact (hs.node.congr hold (fun _ _ => rfl)).add hnew
  · rw [hentries, hused, ← hname]
    exact (hs.proc.congr hold (fun _ _ => rfl)).add hnew

/-- A device that is unbound takes its node and its entry with it. -/
theorem Inv.unbind (hs : s.Inv devName) (hslots : s'.driver.SlotInv)
    (hindexed : s'.driver.Indexed) {k : Slot} (hk : k ∈ s.driver.usedSlots)
    (hused : s'.driver.usedSlots = s.driver.usedSlots \ {k})
    (hmajor : s'.driver.pcieuniMajor = s.driver.pcieuniMajor)
    (hdev : ∀ j, j ≠ k → s'.driver.dev j = s.driver.dev j)
    (hentries : s'.entries =
      { node := s.entries.node.removeValue (mkdev s.driver.pcieuniMajor k)
        proc := s.entries.proc.remove (s.driver.dev k).name }) :
    s'.Inv devName := by
  have hkeep : ∀ j ∈ s.driver.usedSlots \ {k}, s'.driver.dev j = s.driver.dev j := fun j hj =>
    hdev j hj.2
  have hold : ∀ j ∈ s.driver.usedSlots \ {k}, (s'.driver.dev j).name = (s.driver.dev j).name :=
    fun j hj => by rw [hkeep j hj]
  refine ⟨hslots, hindexed, ?_, ?_, ?_⟩
  · intro j hj
    rw [hused] at hj
    rw [hkeep j hj]
    exact hs.name j hj.1
  · rw [hentries, hused, hmajor]
    exact (hs.node.removeValue (mkdev_slot_injective _).injOn hk).congr hold (fun _ _ => rfl)
  · rw [hentries, hused]
    exact (hs.proc.remove hs.names_injOn hk).congr hold (fun _ _ => rfl)

/-- What a remove does to the entries. -/
theorem Inv.remove_entries (hs : s.Inv devName) {d : PciDev}
    (hadm : s.driver.Admissible (.remove devName d))
    (hstep : publishedLts.step s (.remove devName d) = some (s', r)) :
    ∃ k, s.driver.Serves d k ∧ s'.entries =
      { node := s.entries.node.removeValue (mkdev s.driver.pcieuniMajor k)
        proc := s.entries.proc.remove (s.driver.dev k).name } := by
  obtain ⟨hexec, hentries⟩ := publishedLts_step hstep
  obtain ⟨k, dv, files, hk, -, hcalls, -⟩ := Driver.exec_remove_names hexec
  have hserves := hs.slots.serves_of_drvdata hadm hk
  refine ⟨k, hserves, ?_⟩
  rw [hentries, hcalls, hs.indexed.brdNum k, ← hs.name k hserves.used]
  rfl

theorem Inv.step (hs : s.Inv devName) (hadm : s.driver.Admissible op) (hpass : op.Passes devName)
    (hfresh : s.driver.FreshNumber op) (hstep : publishedLts.step s op = some (s', r)) :
    s'.Inv devName := by
  obtain ⟨hexec, hentries⟩ := publishedLts_step hstep
  have hslots := hs.slots.exec hadm hexec
  have hindexed := hs.indexed.exec hexec
  rcases Driver.exec_names hadm hexec with ⟨hsame, hcalls, -⟩ |
      ⟨env, d, i, dv, devSts, rfl, hfree, hclaims, hslot, hname, hcalls, heq⟩ |
      ⟨devName', d, k, dv, files, rfl, hk, -, -, heq⟩
  · apply hs.sameNames hslots hindexed hsame
    rw [hentries, hcalls]
    rfl
  · obtain rfl : env.devName = devName := hpass
    apply hs.bind hslots hindexed hfree (n := env.slotNum)
    · apply Driver.usedSlots_bind hadm
      · rw [heq]
      · rw [heq]
    · rw [heq]; rfl
    · intro j hj
      rw [heq]
      exact Driver.setDev_dev_ne hj
    · rw [heq, ← hslot]
      exact congrArg _ (Driver.setDev_dev_self ..)
    · rw [heq, ← hname]
      exact congrArg _ (Driver.setDev_dev_self ..)
    · rintro j ⟨d', hd', hj⟩
      exact hfresh hclaims d' hd' j hj
    · rw [hentries, hcalls]
      exact Entries.replay_nodeCalls devSts env.slotNum (hs.devno_unused hfree)
  · obtain rfl : devName' = devName := hpass
    obtain ⟨k₁, hserves, hentries⟩ := hs.remove_entries hadm hstep
    obtain rfl : k₁ = k := Option.some.inj (hserves.drvdata.symm.trans hk)
    refine hs.unbind hslots hindexed hserves.used ?_ ?_ ?_ hentries
    · apply hs.slots.usedSlots_unbind hserves
      · rw [heq]
      · rw [heq]; rfl
    · rw [heq]; rfl
    · intro j hj
      rw [heq]
      exact Driver.setDev_dev_ne hj

theorem Inv.removesOwn (hs : s.Inv devName) (hadm : s.driver.Admissible op)
    (hpass : op.Passes devName) (hstep : publishedLts.step s op = some (s', r)) :
    RemovesOwn ⟨s, op, r, s'⟩ := by
  rintro devName' d k rfl hk
  obtain rfl : devName' = devName := hpass
  obtain ⟨k₁, hserves, hentries⟩ := hs.remove_entries hadm hstep
  obtain rfl : k₁ = k := Option.some.inj (hserves.drvdata.symm.trans hk)
  simp only [hentries, Registry.removeValue_eq_some, true_and, implies_true]
  intro name j
  rw [Registry.remove_eq_some]
  refine and_congr_right fun hj => not_congr ?_
  -- the entry under the name of the device is its own, and it has no other
  constructor
  · rintro rfl
    exact Option.some.inj (hj.symm.trans (hs.proc.get hserves.used))
  · rintro rfl
    obtain ⟨j', -, rfl, rfl⟩ := (hs.proc name j).mp hj
    rfl

/-- A probe whose name is taken leaves the node with the device that has it. -/
theorem Inv.not_ownEntries (hs : s.Inv devName) (hadm : s.driver.Admissible op)
    (hpass : op.Passes devName) (hfresh : ¬ s.driver.FreshNumber op)
    (hstep : publishedLts.step s op = some (s', r)) : ¬ OwnEntries s' := by
  obtain ⟨hexec, hentries⟩ := publishedLts_step hstep
  cases op with
  | probe env d =>
      obtain rfl : env.devName = devName := hpass
      simp only [Driver.FreshNumber, not_forall, not_not] at hfresh
      obtain ⟨hclaims, d', hd', k, hk, hnum⟩ := hfresh
      have hused : k ∈ s.driver.usedSlots := ⟨d', hd', hk⟩
      rcases Driver.exec_names hadm hexec with ⟨-, -, hno, -⟩ |
          ⟨env, d, i, dv, devSts, hop, hfree, -, -, hname, hcalls, heq⟩ |
          ⟨devName', d, k, dv, files, hop, -, -, -, -⟩
      · exact absurd hclaims (hno env d rfl)
      · cases hop
        intro hown
        obtain ⟨j, hj, hnode, -⟩ := hown d (by rw [heq]; exact List.mem_cons_self ..)
        obtain rfl : i.castSucc = j := by simpa [heq] using hj
        -- both devices have this name
        have hold : (s.driver.dev k).name = entryName env.devName env.slotNum := by
          rw [hs.name k hused, hnum]
        have hnew : (s'.driver.dev i.castSucc).name = entryName env.devName env.slotNum := by
          rw [heq, ← hname]
          exact congrArg _ (Driver.setDev_dev_self ..)
        have hget : s.entries.node (entryName env.devName env.slotNum) =
            some (mkdev s.driver.pcieuniMajor k) := hold ▸ hs.node.get hused
        have hsame : s'.entries.node = s.entries.node := by
          rw [hentries, hcalls, Entries.replay_nodeCalls devSts env.slotNum (hs.devno_unused hfree)]
          exact Registry.add_of_taken (by simp [hget])
        have hmajor : s'.driver.pcieuniMajor = s.driver.pcieuniMajor := by
          rw [heq]
          rfl
        rw [hsame, hnew, hget, hmajor] at hnode
        exact hs.slots.used_ne_free hfree hused
          (mkdev_slot_injective _ (Option.some.inj hnode))
      · cases hop
  | remove | openFile | release | read | write | ioctl => exact absurd trivial hfresh

theorem Inv.of_init (h : publishedLts.init s) : s.Inv devName := by
  obtain ⟨hinit, hentries⟩ := h
  have hused : s.driver.usedSlots = ∅ := by
    obtain ⟨major, verMaj, verMin, regs, heq⟩ := hinit
    simp [Driver.usedSlots, heq, Driver.initial]
  refine ⟨.of_init hinit, .of_init hinit, ?_, ?_, ?_⟩
  · simp [hused]
  · rw [hentries, hused]
    exact Registry.lists_empty
  · rw [hentries, hused]
    exact Registry.lists_empty

/-! ## Runs -/

/-- In every run of a module that passes one `dev_name`: after every call each bound
device has a node and a proc entry of its own, and every remove takes away those of
its device and no others, if and only if no probe gets a device whose slot number a
bound device has. -/
theorem run_ownEntries_iff {s s' : Published} {tr : List (Transition Published Op OpRet)}
    (devName : String) (h : publishedLts.Run s tr s') (hinit : publishedLts.init s)
    (hadm : ∀ t ∈ tr, t.pre.driver.Admissible t.act ∧ t.act.Passes devName) :
    (∀ t ∈ tr, OwnEntries t.post ∧ RemovesOwn t) ↔
      ∀ t ∈ tr, t.pre.driver.FreshNumber t.act := by
  have hpres : ∀ s a s' e, Inv devName s → s.driver.Admissible a ∧ a.Passes devName →
      s.driver.FreshNumber a → publishedLts.step s a = some (s', e) → Inv devName s' :=
    fun s a s' e hs hadm hfresh hstep => hs.step hadm.1 hadm.2 hfresh hstep
  have hown := h.always_iff (I := OwnEntries) (fun s hs => hs.ownEntries) hpres
    (fun s a s' e hs hadm hfresh hstep => hs.not_ownEntries hadm.1 hadm.2 hfresh hstep)
    (.of_init hinit) hadm
  constructor
  · intro hall
    exact hown.mp fun t ht => (hall t ht).1
  · intro hfresh t ht
    refine ⟨hown.mpr hfresh t ht, ?_⟩
    have hinv := (h.preserves (P := fun s a => (s.driver.Admissible a ∧ a.Passes devName) ∧
        s.driver.FreshNumber a) (fun s a s' e hs hP => hpres s a s' e hs hP.1 hP.2)
      (.of_init hinit) (fun t ht => ⟨hadm t ht, hfresh t ht⟩)).2 t ht
    exact hinv.1.removesOwn (hadm t ht).1 (hadm t ht).2 (h.step_of_mem ht)

/-- The driver before the first probe. -/
private def unplugged : Published := ⟨.initial 250 1 0 fun _ _ _ => 0, .empty⟩

private theorem unplugged_init : publishedLts.init unplugged := ⟨⟨250, 1, 0, _, rfl⟩, rfl⟩

/-- Two cards in the slots 3 and 5, of which the first goes and comes back. -/
theorem run_ownEntries_iff_twoSlots : ∃ tr s', publishedLts.Run unplugged tr s' ∧
    tr.map (·.act) = [.probe { fuel := 1, sltCap := 3#32 <<< 19 } 7,
      .probe { fuel := 1, sltCap := 5#32 <<< 19 } 8, .remove "gpcieuni" 7,
      .probe { fuel := 1, sltCap := 3#32 <<< 19 } 7] ∧
    s'.entries.proc "gpcieunis3" = some 0 ∧ s'.entries.proc "gpcieunis5" = some 1 ∧
    ∀ t ∈ tr, OwnEntries t.post ∧ RemovesOwn t := by
  obtain ⟨tr, s', hrun, hacts, hend⟩ := Lts.Run.of_exec_map (M := publishedLts)
    (g := fun r => (r.1.all fun t => decide ((t.pre.driver.Admissible t.act ∧
        t.act.Passes "gpcieuni") ∧ t.pre.driver.FreshNumber t.act),
      r.2.entries.proc "gpcieunis3", r.2.entries.proc "gpcieunis5"))
    (v := (true, some 0, some 1)) (s := unplugged)
    (l := [.probe { fuel := 1, sltCap := 3#32 <<< 19 } 7,
      .probe { fuel := 1, sltCap := 5#32 <<< 19 } 8, .remove "gpcieuni" 7,
      .probe { fuel := 1, sltCap := 3#32 <<< 19 } 7]) (by decide +kernel)
  simp only [Prod.mk.injEq, List.all_eq_true, decide_eq_true_eq] at hend
  obtain ⟨hall, hfirst, hsecond⟩ := hend
  exact ⟨tr, s', hrun, hacts, hfirst, hsecond, (run_ownEntries_iff "gpcieuni" hrun unplugged_init
    fun t ht => (hall t ht).1).mpr fun t ht => (hall t ht).2⟩

/-- Two cards behind bridges that report slot 0. The second has neither node nor
entry, and its remove takes the entry of the first. -/
theorem second_card_removes_entry : ∃ tr s', publishedLts.Run unplugged tr s' ∧
    tr.map (·.act) = [.probe { fuel := 1 } 7, .probe { fuel := 1 } 8, .remove "gpcieuni" 8] ∧
    (∀ t ∈ tr, t.pre.driver.Admissible t.act ∧ t.act.Passes "gpcieuni") ∧
    s'.driver.bound = [7] ∧ s'.driver.drvdata 7 = some 0 ∧
    (s'.driver.dev 0).name = "gpcieunis0" ∧ s'.entries.proc "gpcieunis0" = none ∧
    ¬ ∀ t ∈ tr, OwnEntries t.post ∧ RemovesOwn t := by
  obtain ⟨tr, s', hrun, hacts, hend⟩ := Lts.Run.of_exec_map (M := publishedLts)
    (g := fun r => (r.1.all fun t => decide (t.pre.driver.Admissible t.act ∧
        t.act.Passes "gpcieuni"),
      r.2.driver.bound, r.2.driver.drvdata 7, (r.2.driver.dev 0).name,
      r.2.entries.proc "gpcieunis0"))
    (v := (true, [7], some 0, "gpcieunis0", none)) (s := unplugged)
    (l := [.probe { fuel := 1 } 7, .probe { fuel := 1 } 8, .remove "gpcieuni" 8])
    (by decide +kernel)
  simp only [Prod.mk.injEq, List.all_eq_true, decide_eq_true_eq] at hend
  obtain ⟨hall, hbound, hdrv, hname, hproc⟩ := hend
  refine ⟨tr, s', hrun, hacts, hall, hbound, hdrv, hname, hproc, fun hown => ?_⟩
  obtain ⟨t, ht, rfl⟩ := hrun.end_mem (by rintro rfl; cases hacts)
  obtain ⟨k, hk, -, hentry⟩ := (hown t ht).1 7 (by simp [hbound])
  obtain rfl : k = 0 := Option.some.inj (hk.symm.trans hdrv)
  rw [hname, hproc] at hentry
  cases hentry

end Published

end Gpcieuni
