-- SUMMARY: The open files over whole runs: how `private_data`, the file lists, and the reference counts of the slots hang together.
import Mathlib.Data.List.Nodup
import Gpcieuni.Driver.Slots

/-!
# Open files

A slot keeps a list of the files that name it in their `private_data`, and a
count of them beside the list. `exec_files` says what each call does to the
three. The list is right as long as no release of a listed file is interrupted
(`run_entriesOpen_iff`), the count as long as no device is removed under an open
file (`run_refsAgree_iff`).
-/

namespace Gpcieuni

/-- No signal interrupts the call while it waits to open or to release a file. -/
def Op.Uninterrupted : Op → Prop
  | .openFile env _ _ => env.intr = false
  | .release intr _ => intr = false
  | _ => True

instance (op : Op) : Decidable op.Uninterrupted :=
  match op with
  | .openFile env _ _ => inferInstanceAs (Decidable (env.intr = false))
  | .release intr _ => inferInstanceAs (Decidable (intr = false))
  | .probe .. | .remove .. | .read .. | .write .. | .ioctl .. => isTrue trivial

namespace Driver

/-! ## Finding a file -/

theorem privateData_eq_none {s : Driver} {f : FilePtr} :
    s.privateData f = none ↔ f ∉ s.files.map (·.filp) := by
  simp [privateData, List.find?_eq_none]

theorem mem_files_of_privateData {s : Driver} {f : FilePtr} {k : Slot}
    (h : s.privateData f = some k) : ⟨f, k⟩ ∈ s.files := by
  obtain ⟨o, hfind, rfl⟩ := Option.map_eq_some_iff.mp h
  obtain rfl : o.filp = f := by simpa using List.find?_some hfind
  exact List.mem_of_find?_eq_some hfind

theorem privateData_of_mem_files {s : Driver} (hnodup : (s.files.map (·.filp)).Nodup)
    {f : FilePtr} {k : Slot} (h : ⟨f, k⟩ ∈ s.files) : s.privateData f = some k := by
  cases hf : s.privateData f with
  | none => exact absurd (List.mem_map_of_mem h) (privateData_eq_none.mp hf)
  | some k' =>
      have heq := List.inj_on_of_nodup_map hnodup (mem_files_of_privateData hf) h rfl
      cases heq
      rfl

theorem map_filp_detachFiles (es : List FileEntry) (files : List OpenFile) :
    (detachFiles es files).map (·.filp) = files.map (·.filp) := by
  simp only [detachFiles, List.map_map]
  apply List.map_congr_left
  intro o _
  simp only [Function.comp_apply]
  split <;> rfl

theorem mem_detachFiles {es : List FileEntry} {files : List OpenFile} {f : FilePtr} {k : Slot} :
    ⟨f, k⟩ ∈ detachFiles es files ↔
      (f ∉ es.map (·.filp) ∧ ⟨f, k⟩ ∈ files) ∨
      (f ∈ es.map (·.filp) ∧ k = nullSlot ∧ f ∈ files.map (·.filp)) := by
  simp only [detachFiles, List.mem_map (l := files)]
  constructor
  · rintro ⟨o, ho, heq⟩
    split at heq
    · rename_i hlisted
      cases heq
      exact .inr ⟨hlisted, rfl, o, ho, rfl⟩
    · rename_i hlisted
      subst heq
      exact .inl ⟨hlisted, ho⟩
  · rintro (⟨hlisted, ho⟩ | ⟨hlisted, rfl, o, ho, rfl⟩)
    · exact ⟨_, ho, by rw [if_neg hlisted]⟩
    · exact ⟨o, ho, by rw [if_pos hlisted]⟩

/-! ## What a call does to the open files -/

/-- Nothing changes about the open files. -/
structure SameFiles (s s' : Driver) : Prop where
  files : s'.files = s.files
  list : ∀ k, (s'.dev k).devFileList = (s.dev k).devFileList
  ref : ∀ k, (s'.dev k).devFileRef = (s.dev k).devFileRef

/-- The open files, and the list and the count of slot `k`, get new values. -/
structure NewFiles (s s' : Driver) (k : Slot) (files : List OpenFile) (list : List FileEntry)
    (ref : Int) : Prop where
  files : s'.files = files
  list : (s'.dev k).devFileList = list
  ref : (s'.dev k).devFileRef = ref
  others : ∀ j, j ≠ k → (s'.dev j).devFileList = (s.dev j).devFileList ∧
    (s'.dev j).devFileRef = (s.dev j).devFileRef

theorem NewFiles.of_setDev {s s' : Driver} {k : Slot} {dv : PcieuniDev} {files : List OpenFile}
    {list : List FileEntry} {ref : Int} (h : s'.dev = (s.setDev k dv).dev)
    (hfiles : s'.files = files) (hlist : dv.devFileList = list) (href : dv.devFileRef = ref) :
    NewFiles s s' k files list ref where
  files := hfiles
  list := by rw [h, setDev_dev_self, hlist]
  ref := by rw [h, setDev_dev_self, href]
  others j hj := by rw [h, setDev_dev_ne hj]; exact ⟨rfl, rfl⟩

theorem SameFiles.of_setDev {s s' : Driver} {k : Slot} {dv : PcieuniDev}
    (h : s'.dev = (s.setDev k dv).dev) (hfiles : s'.files = s.files)
    (hlist : dv.devFileList = (s.dev k).devFileList) (href : dv.devFileRef = (s.dev k).devFileRef) :
    s.SameFiles s' := by
  refine ⟨hfiles, ?_, ?_⟩
  · rw [h]
    exact setDev_forall (Q := fun j dv => dv.devFileList = (s.dev j).devFileList) hlist
      (fun _ _ => rfl)
  · rw [h]
    exact setDev_forall (Q := fun j dv => dv.devFileRef = (s.dev j).devFileRef) href
      (fun _ _ => rfl)

/-- What a call does to the open files: nothing, or it is an open or a release
that gets the mutex, a release that does not, or a remove. -/
theorem exec_files {s s' : Driver} {op : Op} {r : OpRet} (h : s.exec op = .ok (s', r)) :
    (s.SameFiles s' ∧ (∀ intr f, op ≠ .release intr f) ∧ ∀ devName d, op ≠ .remove devName d) ∨
    (∃ env k f, op = .openFile env k f ∧
      s.NewFiles s' k (⟨f, k⟩ :: s.files)
        (⟨f, (s.dev k).devFileRef + 1⟩ :: (s.dev k).devFileList) ((s.dev k).devFileRef + 1)) ∨
    (∃ f k, op = .release true f ∧ s.privateData f = some k ∧
      s.NewFiles s' k (s.files.filter (·.filp ≠ f)) (s.dev k).devFileList (s.dev k).devFileRef) ∨
    (∃ f k, op = .release false f ∧ s.privateData f = some k ∧
      s.NewFiles s' k (s.files.filter (·.filp ≠ f))
        ((s.dev k).devFileList.filter (·.filp ≠ f)) ((s.dev k).devFileRef - 1)) ∨
    (∃ devName d k, op = .remove devName d ∧ s.drvdata d = some k ∧
      s.NewFiles s' k (detachFiles (s.dev k).devFileList s.files) [] (s.dev k).devFileRef) := by
  cases op with
  | probe env d =>
      refine .inl ⟨?_, by simp, by simp⟩
      rcases exec_probe h with ⟨-, rfl, -⟩ | ⟨i, drvdata, -, -, -, -, rfl⟩ |
          ⟨i, dv, -, -, -, -, hprobed, rfl⟩
      · exact ⟨rfl, fun _ => rfl, fun _ => rfl⟩
      · exact .of_setDev rfl rfl rfl rfl
      · exact .of_setDev rfl rfl hprobed.devFileList hprobed.devFileRef
  | remove devName d =>
      obtain ⟨k, dv, hk, -, -, hrem, -, rfl⟩ := exec_remove h
      exact .inr (.inr (.inr (.inr ⟨devName, d, k, rfl, hk,
        .of_setDev rfl rfl hrem.devFileList hrem.devFileRef⟩)))
  | openFile env k f =>
      rcases exec_openFile h with ⟨-, -, rfl⟩ | ⟨-, -, -, rfl⟩
      · exact .inl ⟨.of_setDev rfl rfl rfl rfl, by simp, by simp⟩
      · exact .inr (.inl ⟨env, k, f, rfl, .of_setDev rfl rfl rfl rfl⟩)
  | release intr f =>
      obtain ⟨k, hk, ⟨rfl, -, rfl⟩ | ⟨rfl, -, -, rfl⟩⟩ := exec_release h
      · exact .inr (.inr (.inl ⟨f, k, rfl, hk, rfl, rfl, rfl, fun _ _ => ⟨rfl, rfl⟩⟩))
      · exact .inr (.inr (.inr (.inl ⟨f, k, rfl, hk, .of_setDev rfl rfl rfl rfl⟩)))
  | read env f buf count fPos =>
      obtain ⟨k, -, rfl, -⟩ := exec_read h
      exact .inl ⟨⟨rfl, fun _ => rfl, fun _ => rfl⟩, by simp, by simp⟩
  | write env f buf count fPos =>
      obtain ⟨k, regs, -, rfl, -⟩ := exec_write h
      exact .inl ⟨⟨rfl, fun _ => rfl, fun _ => rfl⟩, by simp, by simp⟩
  | ioctl env f cmd arg =>
      refine .inl ⟨?_, by simp, by simp⟩
      obtain ⟨k, -, -, -, ⟨rfl, -⟩ | ⟨-, -, -, -, rfl⟩⟩ := exec_ioctl h
      · exact ⟨rfl, fun _ => rfl, fun _ => rfl⟩
      · exact .of_setDev rfl rfl rfl rfl

/-! ## The lists -/

/-- The files are open once each, and a file on a slot's list is open and names
that slot. -/
structure ListInv (s : Driver) : Prop where
  nodup : (s.files.map (·.filp)).Nodup
  entries : ∀ k, ∀ e ∈ (s.dev k).devFileList, ⟨e.filp, k⟩ ∈ s.files

/-- The call is not an interrupted release of a file that is still on the list
of the slot it names. -/
def ReleaseUnlists (s : Driver) : Op → Prop
  | .release intr f => intr = true → ∀ k, s.privateData f = some k →
      f ∉ (s.dev k).devFileList.map (·.filp)
  | _ => True

theorem ListInv.slot_unique {s : Driver} (hs : s.ListInv) {f : FilePtr} {j k : Slot}
    (hj : ⟨f, j⟩ ∈ s.files) (hk : ⟨f, k⟩ ∈ s.files) : j = k :=
  congrArg OpenFile.privateData (List.inj_on_of_nodup_map hs.nodup hj hk rfl)

theorem nodup_filp_filter {files : List OpenFile} (h : (files.map (·.filp)).Nodup) (f : FilePtr) :
    ((files.filter (·.filp ≠ f)).map (·.filp)).Nodup :=
  h.sublist (List.filter_sublist.map _)

theorem ListInv.exec {s s' : Driver} {op : Op} {r : OpRet} (hs : s.ListInv)
    (hadm : s.Admissible op) (hrel : s.ReleaseUnlists op) (h : s.exec op = .ok (s', r)) :
    s'.ListInv := by
  rcases exec_files h with ⟨hsame, -, -⟩ | ⟨env, k, f, rfl, hnew⟩ | ⟨f, k, rfl, hk, hnew⟩ |
      ⟨f, k, rfl, hk, hnew⟩ | ⟨devName, d, k, rfl, -, hnew⟩
  · refine ⟨by rw [hsame.files]; exact hs.nodup, fun j e he => ?_⟩
    rw [hsame.list] at he
    rw [hsame.files]
    exact hs.entries j e he
  · refine ⟨?_, fun j e he => ?_⟩
    · rw [hnew.files, List.map_cons]
      exact List.nodup_cons.mpr ⟨privateData_eq_none.mp hadm, hs.nodup⟩
    rw [hnew.files]
    by_cases hj : j = k
    · subst hj
      rw [hnew.list] at he
      rcases List.mem_cons.mp he with rfl | hmem
      · exact List.mem_cons_self ..
      · exact List.mem_cons_of_mem _ (hs.entries _ e hmem)
    · rw [(hnew.others j hj).1] at he
      exact List.mem_cons_of_mem _ (hs.entries j e he)
  -- the interrupted release keeps its entry, so the file must not have had one
  · refine ⟨by rw [hnew.files]; exact nodup_filp_filter hs.nodup f, fun j e he => ?_⟩
    have hlist : (s'.dev j).devFileList = (s.dev j).devFileList := by
      by_cases hj : j = k
      · subst hj; exact hnew.list
      · exact (hnew.others j hj).1
    rw [hlist] at he
    have hmem := hs.entries j e he
    rw [hnew.files]
    refine List.mem_filter.mpr ⟨hmem, ?_⟩
    have hne : e.filp ≠ f := by
      rintro rfl
      obtain rfl := hs.slot_unique hmem (mem_files_of_privateData hk)
      exact hrel rfl _ hk (List.mem_map_of_mem he)
    simpa using hne
  · refine ⟨by rw [hnew.files]; exact nodup_filp_filter hs.nodup f, fun j e he => ?_⟩
    rw [hnew.files]
    by_cases hj : j = k
    · subst hj
      rw [hnew.list] at he
      obtain ⟨hmem, hne⟩ := List.mem_filter.mp he
      exact List.mem_filter.mpr ⟨hs.entries _ e hmem, hne⟩
    · rw [(hnew.others j hj).1] at he
      have hmem := hs.entries j e he
      refine List.mem_filter.mpr ⟨hmem, ?_⟩
      have hne : e.filp ≠ f := by
        rintro rfl
        exact hj (hs.slot_unique hmem (mem_files_of_privateData hk))
      simpa using hne
  · refine ⟨by rw [hnew.files, map_filp_detachFiles]; exact hs.nodup, fun j e he => ?_⟩
    by_cases hj : j = k
    · subst hj
      rw [hnew.list] at he
      cases he
    · rw [(hnew.others j hj).1] at he
      have hmem := hs.entries j e he
      rw [hnew.files]
      refine mem_detachFiles.mpr (.inl ⟨fun hlisted => ?_, hmem⟩)
      obtain ⟨e', he', hfilp⟩ := List.mem_map.mp hlisted
      exact hj (hs.slot_unique hmem (hfilp ▸ hs.entries k e' he'))

theorem ListInv.of_init {s : Driver} (h : driverLts.init s) : s.ListInv := by
  obtain ⟨major, verMaj, verMin, regs, rfl⟩ := h
  exact ⟨List.nodup_nil, fun k e he => by cases he⟩

/-- Every entry of every slot's list refers to an open file. -/
def EntriesOpen (s : Driver) : Prop :=
  ∀ k, ∀ e ∈ (s.dev k).devFileList, s.privateData e.filp ≠ none

instance (s : Driver) : Decidable s.EntriesOpen :=
  inferInstanceAs (Decidable (∀ k, ∀ e ∈ (s.dev k).devFileList, s.privateData e.filp ≠ none))

theorem ListInv.entriesOpen {s : Driver} (hs : s.ListInv) : s.EntriesOpen := by
  intro k e he hnone
  exact privateData_eq_none.mp hnone (List.mem_map_of_mem (hs.entries k e he))

/-- An interrupted release of a listed file leaves an entry for a file that is
gone. -/
theorem not_releaseUnlists {s s' : Driver} {op : Op} {r : OpRet} (hrel : ¬ s.ReleaseUnlists op)
    (h : s.exec op = .ok (s', r)) : ¬ s'.EntriesOpen := by
  cases op with
  | release intr f =>
      simp only [ReleaseUnlists, not_forall, not_not] at hrel
      obtain ⟨rfl, k, hk, hlisted⟩ := hrel
      obtain ⟨e, he, rfl⟩ := List.mem_map.mp hlisted
      obtain ⟨k', -, ⟨-, -, rfl⟩ | ⟨hfalse, -⟩⟩ := exec_release h
      · intro hopen
        refine hopen k e he (privateData_eq_none.mpr ?_)
        simp
      · cases hfalse
  | probe | remove | openFile | read | write | ioctl => exact absurd trivial hrel

/-- In every run after the initialisation the lists hold only open files if and
only if no release is interrupted while its file is listed. In such a run a
remove writes the `private_data` of open files only. -/
theorem run_entriesOpen_iff {s s' : Driver} {tr : List (Transition Driver Op OpRet)}
    (h : driverLts.Run s tr s') (hinit : driverLts.init s)
    (hadm : ∀ t ∈ tr, t.pre.Admissible t.act) :
    ((∀ t ∈ tr, t.post.EntriesOpen) ↔ ∀ t ∈ tr, t.pre.ReleaseUnlists t.act) ∧
    ((∀ t ∈ tr, t.pre.ReleaseUnlists t.act) → ∀ t ∈ tr, ∀ devName d, t.act = .remove devName d →
      ∀ f k, .setPrivateData f k ∈ t.out.log → t.pre.privateData f ≠ none) := by
  have hpres : ∀ s a s' e, ListInv s → Admissible s a → ReleaseUnlists s a →
      driverLts.step s a = some (s', e) → ListInv s' :=
    fun s a s' e hs hadm hrel hstep => hs.exec hadm hrel (driverLts_step.mp hstep)
  refine ⟨h.always_iff (fun _ hs => hs.entriesOpen) hpres ?_ (.of_init hinit) hadm, ?_⟩
  · intro s a s' e _ _ hrel hstep
    exact not_releaseUnlists hrel (driverLts_step.mp hstep)
  · intro hrel t ht devName d hact f k hlog
    have hall := h.preserves (P := fun s a => s.Admissible a ∧ s.ReleaseUnlists a)
      (fun s a s' e hs hP => hpres s a s' e hs hP.1 hP.2) (.of_init hinit)
      (fun t ht => ⟨hadm t ht, hrel t ht⟩)
    have hstep := driverLts_step.mp (h.step_of_mem ht)
    rw [hact] at hstep
    obtain ⟨j, dv, -, -, -, -, hwrites, -⟩ := exec_remove hstep
    obtain ⟨e, he, rfl⟩ := List.mem_map.mp (hwrites f k hlog)
    exact (hall.2 t ht).1.entriesOpen j e he

/-- An open and an interrupted open, a release, and a remove under an open file. -/
theorem run_entriesOpen_iff_removed : ∃ tr s',
    driverLts.Run (initial 250 1 0 fun _ _ _ => 0) tr s' ∧
    tr.map (·.act) = [.probe { fuel := 1 } 7, .openFile {} 0 1, .openFile { intr := true } 0 2,
      .openFile {} 0 3, .release false 1, .remove "gpcieuni" 7] ∧
    (∀ t ∈ tr, t.pre.ReleaseUnlists t.act) ∧
    ∀ t ∈ tr, ∀ devName d, t.act = .remove devName d →
      ∀ f k, .setPrivateData f k ∈ t.out.log → t.pre.privateData f ≠ none := by
  obtain ⟨tr, s', hrun, hacts, hsteps⟩ := Lts.Run.of_exec_map (M := driverLts)
    (g := fun r => r.1.all fun t => decide (t.pre.Admissible t.act ∧ t.post.EntriesOpen))
    (v := true) (s := initial 250 1 0 fun _ _ _ => 0)
    (l := [.probe { fuel := 1 } 7, .openFile {} 0 1, .openFile { intr := true } 0 2,
      .openFile {} 0 3, .release false 1, .remove "gpcieuni" 7]) (by decide +kernel)
  have hall : ∀ t ∈ tr, t.pre.Admissible t.act ∧ t.post.EntriesOpen := by simpa using hsteps
  obtain ⟨hiff, hwrites⟩ := run_entriesOpen_iff hrun ⟨250, 1, 0, _, rfl⟩ fun t ht => (hall t ht).1
  have hrel := hiff.mp fun t ht => (hall t ht).2
  exact ⟨tr, s', hrun, hacts, hrel, hwrites hrel⟩

/-- A release that a signal interrupts leaves its entry on the list, and the next
remove writes to the freed file. -/
theorem interrupted_release_leaves_entry : ∃ tr s',
    driverLts.Run (initial 250 1 0 fun _ _ _ => 0) tr s' ∧
    tr.map (·.act) = [.probe { fuel := 1 } 7, .openFile {} 0 1, .release true 1,
      .remove "gpcieuni" 7] ∧
    (∀ t ∈ tr, t.pre.Admissible t.act) ∧ ¬ (∀ t ∈ tr, t.post.EntriesOpen) ∧
    ∃ t ∈ tr, .setPrivateData 1 nullSlot ∈ t.out.log ∧ t.pre.privateData 1 = none := by
  obtain ⟨tr, s', hrun, hacts, hend⟩ := Lts.Run.of_exec_map (M := driverLts)
    (g := fun r => (r.1.all fun t => decide (t.pre.Admissible t.act),
      r.1.all fun t => decide t.post.EntriesOpen,
      r.1.any fun t => decide (.setPrivateData 1 nullSlot ∈ t.out.log ∧
        t.pre.privateData 1 = none)))
    (v := (true, false, true)) (s := initial 250 1 0 fun _ _ _ => 0)
    (l := [.probe { fuel := 1 } 7, .openFile {} 0 1, .release true 1, .remove "gpcieuni" 7])
    (by decide +kernel)
  obtain ⟨hadm, hrest⟩ := Prod.mk.inj hend
  obtain ⟨hopen, hwrite⟩ := Prod.mk.inj hrest
  refine ⟨tr, s', hrun, hacts, by simpa using hadm, fun hall => ?_, by simpa using hwrite⟩
  have htrue : (tr.all fun t => decide t.post.EntriesOpen) = true := by simpa using hall
  rw [hopen] at htrue
  cases htrue

/-! ## The reference counts -/

/-- The lists are right, and every open file that names a slot of a PCI device is
on its list. -/
structure FileInv (s : Driver) : Prop extends ListInv s where
  listed : ∀ f k, ⟨f, k⟩ ∈ s.files → k ≠ nullSlot → f ∈ (s.dev k).devFileList.map (·.filp)

theorem releaseUnlists_of_uninterrupted {s : Driver} {op : Op} (h : op.Uninterrupted) :
    s.ReleaseUnlists op := by
  cases op with
  | release intr f =>
      intro hintr
      cases hintr.symm.trans h
  | probe | remove | openFile | read | write | ioctl => trivial

theorem FileInv.exec {s s' : Driver} {op : Op} {r : OpRet} (hs : s.FileInv)
    (hadm : s.Admissible op) (hop : op.Uninterrupted) (h : s.exec op = .ok (s', r)) :
    s'.FileInv := by
  refine ⟨hs.toListInv.exec hadm (releaseUnlists_of_uninterrupted hop) h, fun g j hg hj => ?_⟩
  rcases exec_files h with ⟨hsame, -, -⟩ | ⟨env, k, f, rfl, hnew⟩ | ⟨f, k, rfl, hk, hnew⟩ |
      ⟨f, k, rfl, hk, hnew⟩ | ⟨devName, d, k, rfl, -, hnew⟩
  · rw [hsame.files] at hg
    rw [hsame.list]
    exact hs.listed g j hg hj
  · rw [hnew.files] at hg
    by_cases hjk : j = k
    · subst hjk
      rw [hnew.list]
      rcases List.mem_cons.mp hg with heq | hmem
      · cases heq
        exact List.mem_cons_self ..
      · exact List.mem_cons_of_mem _ (hs.listed g j hmem hj)
    · rw [(hnew.others j hjk).1]
      rcases List.mem_cons.mp hg with heq | hmem
      · cases heq
        exact absurd rfl hjk
      · exact hs.listed g j hmem hj
  · cases hop
  · rw [hnew.files] at hg
    obtain ⟨hmem, hne⟩ := List.mem_filter.mp hg
    have hlisted := hs.listed g j hmem hj
    by_cases hjk : j = k
    · subst hjk
      obtain ⟨e, he, rfl⟩ := List.mem_map.mp hlisted
      rw [hnew.list]
      exact List.mem_map_of_mem (List.mem_filter.mpr ⟨he, hne⟩)
    · rw [(hnew.others j hjk).1]
      exact hlisted
  -- a file that still names a slot after the remove was not on the list that was emptied
  · rw [hnew.files] at hg
    rcases mem_detachFiles.mp hg with ⟨hunlisted, hmem⟩ | ⟨-, rfl, -⟩
    · have hlisted := hs.listed g j hmem hj
      by_cases hjk : j = k
      · subst hjk
        exact absurd hlisted hunlisted
      · rw [(hnew.others j hjk).1]
        exact hlisted
    · exact absurd rfl hj

theorem FileInv.of_init {s : Driver} (h : driverLts.init s) : s.FileInv := by
  refine ⟨.of_init h, ?_⟩
  obtain ⟨major, verMaj, verMin, regs, rfl⟩ := h
  intro f k hf
  cases hf

/-- The number of open files that name slot `k`. -/
def openFiles (s : Driver) (k : Slot) : Nat := s.files.countP (·.privateData = k)

/-- The reference count of every slot is the number of open files that name it. -/
def RefsAgree (s : Driver) : Prop := ∀ k, (s.dev k).devFileRef = s.openFiles k

instance (s : Driver) : Decidable s.RefsAgree :=
  inferInstanceAs (Decidable (∀ k, (s.dev k).devFileRef = s.openFiles k))

/-- The call does not remove a device whose slot an open file names. -/
def RemovesUnopened (s : Driver) : Op → Prop
  | .remove _ d => ∀ k, s.drvdata d = some k → ∀ f, ⟨f, k⟩ ∉ s.files
  | _ => True

theorem countP_release {files : List OpenFile} {f : FilePtr} {k : Slot}
    (hnodup : (files.map (·.filp)).Nodup) (hmem : ⟨f, k⟩ ∈ files) (j : Slot) :
    (files.filter (·.filp ≠ f)).countP (·.privateData = j) + (if j = k then 1 else 0) =
      files.countP (·.privateData = j) := by
  induction files with
  | nil => cases hmem
  | cons o files ih =>
      obtain ⟨hnew, hrest⟩ : o.filp ∉ files.map (·.filp) ∧ (files.map (·.filp)).Nodup :=
        List.nodup_cons.mp hnodup
      rcases List.mem_cons.mp hmem with rfl | hmem
      · have hkeep : files.filter (·.filp ≠ f) = files := by
          apply List.filter_eq_self.mpr
          intro o ho
          have hne : o.filp ≠ f := by
            rintro rfl
            exact hnew (List.mem_map.mpr ⟨o, ho, rfl⟩)
          simpa using hne
        rw [List.filter_cons_of_neg (by simp), hkeep, List.countP_cons]
        simp [eq_comm]
      · have hne : o.filp ≠ f := by
          rintro rfl
          exact hnew (List.mem_map.mpr ⟨_, hmem, rfl⟩)
        rw [List.filter_cons_of_pos (by simpa using hne), List.countP_cons, List.countP_cons,
          ← ih hrest hmem]
        omega

theorem RefsAgree.exec {s s' : Driver} {op : Op} {r : OpRet} (hs : s.FileInv)
    (hrefs : s.RefsAgree) (hop : op.Uninterrupted) (hrem : s.RemovesUnopened op)
    (h : s.exec op = .ok (s', r)) : s'.RefsAgree := by
  intro j
  have href := hrefs j
  rcases exec_files h with ⟨hsame, -, -⟩ | ⟨env, k, f, rfl, hnew⟩ | ⟨f, k, rfl, hk, hnew⟩ |
      ⟨f, k, rfl, hk, hnew⟩ | ⟨devName, d, k, rfl, hk, hnew⟩
  · rw [hsame.ref, openFiles, hsame.files]
    exact href
  · rw [openFiles, hnew.files, List.countP_cons]
    by_cases hj : j = k
    · subst hj
      rw [hnew.ref, href]
      simp [openFiles]
    · rw [(hnew.others j hj).2, href]
      simp [openFiles, Ne.symm hj]
  · cases hop
  · have hcount := countP_release hs.nodup (mem_files_of_privateData hk) j
    rw [openFiles] at href ⊢
    rw [hnew.files]
    by_cases hj : j = k
    · subst hj
      rw [hnew.ref]
      rw [if_pos rfl] at hcount
      omega
    · rw [(hnew.others j hj).2]
      rw [if_neg hj] at hcount
      omega
  · have hnone : (s.dev k).devFileList = [] := by
      apply List.eq_nil_iff_forall_not_mem.mpr
      intro e he
      exact hrem k hk e.filp (hs.entries k e he)
    have hfiles : s'.files = s.files := by
      rw [hnew.files, hnone]
      simp [detachFiles]
    rw [openFiles, hfiles]
    by_cases hj : j = k
    · subst hj
      rw [hnew.ref]
      exact href
    · rw [(hnew.others j hj).2]
      exact href

/-- A remove under open files moves them to the null device and leaves the count
behind. -/
theorem not_removesUnopened {s s' : Driver} {op : Op} {r : OpRet} (hslots : s.SlotInv)
    (hs : s.FileInv) (hrefs : s.RefsAgree) (hadm : s.Admissible op)
    (hrem : ¬ s.RemovesUnopened op) (h : s.exec op = .ok (s', r)) : ¬ s'.RefsAgree := by
  cases op with
  | remove devName d =>
      simp only [RemovesUnopened, not_forall, not_not] at hrem
      obtain ⟨k, hk, f, hf⟩ := hrem
      have hnull : k ≠ nullSlot := (hslots.serves_of_drvdata hadm hk).ne_null
      rcases exec_files h with ⟨-, -, hop⟩ | ⟨_, _, _, heq, -⟩ | ⟨_, _, heq, -⟩ | ⟨_, _, heq, -⟩ |
          ⟨devName', d', k', heq, hk', hnew⟩
      · exact absurd rfl (hop devName d)
      · cases heq
      · cases heq
      · cases heq
      cases heq
      obtain rfl : k = k' := Option.some.inj (hk.symm.trans hk')
      intro hrefs'
      have hbefore : 0 < s.openFiles k := List.countP_pos_iff.mpr ⟨⟨f, k⟩, hf, by simp⟩
      have hafter : s'.openFiles k = 0 := by
        rw [openFiles, hnew.files, List.countP_eq_zero]
        rintro ⟨g, j⟩ hg
        rcases mem_detachFiles.mp hg with ⟨hunlisted, hmem⟩ | ⟨-, rfl, -⟩
        · simp only [decide_eq_true_eq]
          rintro rfl
          exact hunlisted (hs.listed g j hmem hnull)
        · simpa using hnull.symm
      have hcount := hrefs' k
      rw [hnew.ref, hrefs k, hafter] at hcount
      omega
  | probe | openFile | release | read | write | ioctl => exact absurd trivial hrem

/-- In every run after the initialisation without interruptions, the reference
counts are right if and only if no device is removed while an open file names
its slot. -/
theorem run_refsAgree_iff {s s' : Driver} {tr : List (Transition Driver Op OpRet)}
    (h : driverLts.Run s tr s') (hinit : driverLts.init s)
    (hadm : ∀ t ∈ tr, t.pre.Admissible t.act ∧ t.act.Uninterrupted) :
    (∀ t ∈ tr, t.post.RefsAgree) ↔ ∀ t ∈ tr, t.pre.RemovesUnopened t.act := by
  have hstart : s.SlotInv ∧ s.FileInv ∧ s.RefsAgree := by
    refine ⟨.of_init hinit, .of_init hinit, ?_⟩
    obtain ⟨major, verMaj, verMin, regs, rfl⟩ := hinit
    exact fun _ => rfl
  refine h.always_iff (A := fun s a => s.Admissible a ∧ a.Uninterrupted) (I := RefsAgree)
    (J := fun s => s.SlotInv ∧ s.FileInv ∧ s.RefsAgree) (fun _ hs => hs.2.2) ?_ ?_ hstart hadm
  · rintro s a s' e ⟨hslots, hs, hrefs⟩ ⟨hadm, hop⟩ hrem hstep
    have hexec := driverLts_step.mp hstep
    exact ⟨hslots.exec hadm hexec, hs.exec hadm hop hexec, hrefs.exec hs hop hrem hexec⟩
  · rintro s a s' e ⟨hslots, hs, hrefs⟩ ⟨hadm, -⟩ hrem hstep
    exact not_removesUnopened hslots hs hrefs hadm hrem (driverLts_step.mp hstep)

/-- A file that is closed before its device is removed. -/
theorem run_refsAgree_iff_closed : ∃ tr s',
    driverLts.Run (initial 250 1 0 fun _ _ _ => 0) tr s' ∧
    tr.map (·.act) = [.probe { fuel := 1 } 7, .openFile {} 0 1, .release false 1,
      .remove "gpcieuni" 7, .openFile {} nullSlot 2] ∧
    ∀ t ∈ tr, t.pre.RemovesUnopened t.act := by
  obtain ⟨tr, s', hrun, hacts, hsteps⟩ := Lts.Run.of_exec_map (M := driverLts)
    (g := fun r => r.1.all fun t => decide ((t.pre.Admissible t.act ∧ t.act.Uninterrupted) ∧
      t.post.RefsAgree))
    (v := true) (s := initial 250 1 0 fun _ _ _ => 0)
    (l := [.probe { fuel := 1 } 7, .openFile {} 0 1, .release false 1, .remove "gpcieuni" 7,
      .openFile {} nullSlot 2]) (by decide +kernel)
  have hall : ∀ t ∈ tr, (t.pre.Admissible t.act ∧ t.act.Uninterrupted) ∧ t.post.RefsAgree := by
    simpa using hsteps
  have hiff := run_refsAgree_iff hrun ⟨250, 1, 0, _, rfl⟩ fun t ht => (hall t ht).1
  exact ⟨tr, s', hrun, hacts, hiff.mp fun t ht => (hall t ht).2⟩

/-- A device is removed under an open file, which is then closed: the slot counts
one file too many, and the null device counts minus one. -/
theorem remove_keeps_devFileRef : ∃ tr s',
    driverLts.Run (initial 250 1 0 fun _ _ _ => 0) tr s' ∧
    tr.map (·.act) = [.probe { fuel := 1 } 7, .openFile {} 0 1, .remove "gpcieuni" 7,
      .release false 1] ∧
    (∀ t ∈ tr, t.pre.Admissible t.act ∧ t.act.Uninterrupted) ∧
    ¬ (∀ t ∈ tr, t.post.RefsAgree) ∧ s'.files = [] ∧
    (s'.dev 0).devFileRef = 1 ∧ (s'.dev nullSlot).devFileRef = -1 := by
  obtain ⟨tr, s', hrun, hacts, hend⟩ := Lts.Run.of_exec_map (M := driverLts)
    (g := fun r => (r.1.all fun t => decide (t.pre.Admissible t.act ∧ t.act.Uninterrupted),
      r.2.files, (r.2.dev 0).devFileRef, (r.2.dev nullSlot).devFileRef))
    (v := (true, [], 1, -1)) (s := initial 250 1 0 fun _ _ _ => 0)
    (l := [.probe { fuel := 1 } 7, .openFile {} 0 1, .remove "gpcieuni" 7, .release false 1])
    (by decide +kernel)
  obtain ⟨hadm, hrest⟩ := Prod.mk.inj hend
  obtain ⟨hfiles, hrest⟩ := Prod.mk.inj hrest
  obtain ⟨hslot, hnull⟩ := Prod.mk.inj hrest
  replace hfiles : s'.files = [] := hfiles
  replace hslot : (s'.dev 0).devFileRef = 1 := hslot
  refine ⟨tr, s', hrun, hacts, by simpa using hadm, fun hall => ?_, hfiles, hslot, hnull⟩
  obtain ⟨t, ht, rfl⟩ := hrun.end_mem (by intro h; simp [h] at hacts)
  have hcount := hall t ht 0
  rw [hslot, openFiles, hfiles] at hcount
  simp at hcount

end Driver

end Gpcieuni
