-- SUMMARY: Register accesses and released mappings: the invariant of the slot under concurrent transfers, and the race between a checked transfer and a remove.
import Gpcieuni.Hotplug

/-!
# Accesses after an unmap

A transfer keeps the mapping that its check found, and it holds the device mutex
only from a later step on. The mutex protects the transfers inside the loop from
a remove. Nothing protects those that wait for it, and those whose check comes
between the release of a mapping and the end of the pointer to it. `Inv` says what
is true as long as no step leaves a transfer in one of these two ways.
-/

namespace Gpcieuni

namespace Hotplug

/-- The program points inside the device mutex. -/
def Pc.Locked : Pc → Prop
  | .idle | .checked .. => False
  | .transferring .. | .removing _ | .clearing .. | .closing => True

/-- The transfer that a thread has checked and not yet finished. -/
def Pc.transfer : Pc → Option TransferInformation
  | .checked _ ti | .transferring _ ti _ => some ti
  | .idle | .removing _ | .clearing .. | .closing => none

/-- A remove has released the mapping `m` of BAR `n` and has not cleared its pointer. -/
def State.Clearing (s : State) (n : Fin 6) (m : Iomem) : Prop :=
  ∃ t bars, s.thread t = .clearing n m bars

structure Inv (s : State) : Prop where
  mutex : ∃ holder, s.dv.devMut = holder.isSome ∧ Threads.Guards holder Pc.Locked s.thread
  mapped : ∀ n m, (s.dv.bar n).memmoryBase = some m →
    m.bar = n ∧ (m ∈ s.released → s.Clearing n m)
  transfers : ∀ t ti, (s.thread t).transfer = some ti → ti.nBytesToTransfer ≠ 0 →
    ti.barStart ∉ s.released

/-- A step does not access a register through a released mapping. -/
def Safe (s : State) (log : List Effect) : Prop :=
  ∀ e ∈ log, ∀ m, e.through = some m → m ∉ s.released

/-- The step does not release a mapping while a transfer with words to move has passed
its check on it and waits for the mutex, and it is not the check of such a transfer on
a mapping that is released while the struct still points to it. -/
def StrandsNobody (s : State) : Act → Prop
  | .remove t => ∀ n bars, s.thread t = .removing (n :: bars) →
      ∀ m, (s.dv.bar n).memmoryBase = some m →
        ∀ u dir ti, s.thread u = .checked dir ti → ti.nBytesToTransfer ≠ 0 → ti.barStart ≠ m
  | .check _ _ count pos => ∀ ti,
      checkAndCalculateTransferInformation s.dv count pos = .inr ti → ti.nBytesToTransfer ≠ 0 →
        ∀ n, ¬ s.Clearing n ti.barStart
  | _ => True

/-! ## The steps -/

section Step

variable {s s' : State} {t : Tid} {log : List Effect}

/-- The pointer is still to be cleared when another thread has moved. -/
theorem State.Clearing.update {n : Fin 6} {m : Iomem} {pc : Pc} (h : s.Clearing n m)
    (threads : s'.thread = Function.update s.thread t pc)
    (hne : ∀ bars, s.thread t ≠ .clearing n m bars) : s'.Clearing n m := by
  obtain ⟨u, bars, hu⟩ := h
  refine ⟨u, bars, ?_⟩
  rw [threads, Function.update_of_ne, hu]
  rintro rfl
  exact hne bars hu

variable (hs : Inv s)

include hs

theorem Inv.holder_none (h : s.dv.devMut = false) : Threads.Guards none Pc.Locked s.thread := by
  obtain ⟨holder, hdev, hguards⟩ := hs.mutex
  cases holder with
  | none => exact hguards
  | some u => rw [h] at hdev; cases hdev

/-- The transfers of the other threads are as they were. -/
theorem Inv.transfers_goto {pc : Pc}
    (hpc : ∀ ti, pc.transfer = some ti → ti.nBytesToTransfer ≠ 0 → ti.barStart ∉ s.released) :
    ∀ u ti, ((s.goto t pc).thread u).transfer = some ti → ti.nBytesToTransfer ≠ 0 →
      ti.barStart ∉ s.released :=
  Threads.forall_update (Q := fun _ pc => ∀ ti, Pc.transfer pc = some ti →
    ti.nBytesToTransfer ≠ 0 → ti.barStart ∉ s.released) hpc (fun u _ => hs.transfers u)

/-- The pointers are as they were when a thread moves that has none to clear. -/
theorem Inv.mapped_goto {pc : Pc} (hout : ∀ n m bars, s.thread t ≠ .clearing n m bars) :
    ∀ n m, (s.dv.bar n).memmoryBase = some m →
      m.bar = n ∧ (m ∈ s.released → (s.goto t pc).Clearing n m) := by
  intro n m hm
  obtain ⟨hbar, hclearing⟩ := hs.mapped n m hm
  exact ⟨hbar, fun hrel => (hclearing hrel).update rfl (hout n m)⟩

/-- A thread gives the mutex back and returns. -/
theorem Inv.unlock (ht : (s.thread t).Locked)
    (hout : ∀ n m bars, s.thread t ≠ .clearing n m bars) : Inv (s.unlock t) := by
  obtain ⟨holder, -, hguards⟩ := hs.mutex
  refine ⟨⟨none, rfl, hguards.release ht id⟩, hs.mapped_goto hout, hs.transfers_goto ?_⟩
  intro ti hti
  cases hti

/-- A thread moves on inside the mutex, or outside of it, with its transfer. -/
theorem Inv.goto {pc : Pc} (hlocked : pc.Locked ↔ (s.thread t).Locked)
    (hout : ∀ n m bars, s.thread t ≠ .clearing n m bars)
    (hpc : ∀ ti, pc.transfer = some ti → ti.nBytesToTransfer ≠ 0 → ti.barStart ∉ s.released) :
    Inv (s.goto t pc) := by
  obtain ⟨holder, hdev, hguards⟩ := hs.mutex
  exact ⟨⟨holder, hdev, hguards.move hlocked⟩, hs.mapped_goto hout, hs.transfers_goto hpc⟩

theorem Inv.probe {major : Int} {k : Slot} {env : ProbeEnv} {d : PciDev}
    (h : s.probe major k env d = some (s', log)) : Inv s' ∧ Safe s log := by
  simp only [State.probe] at h
  split at h
  · split at h
    · cases h
      exact ⟨⟨hs.mutex, hs.mapped, hs.transfers⟩, by simp [Safe]⟩
    split at h
    · cases h
    rename_i dv log₁ hprobe
    split at h
    · rename_i hnew
      cases h
      have hprobed := probeDevice_probed hprobe
      refine ⟨⟨?_, ?_, hs.transfers⟩, ?_⟩
      · obtain ⟨holder, hdev, hguards⟩ := hs.mutex
        exact ⟨holder, hprobed.devMut.trans hdev, hguards⟩
      · exact fun n m hm => ⟨(hprobed.mapped n m hm).2, fun hrel => absurd hrel (hnew n m hm)⟩
      · intro e he m hm
        obtain ⟨n, hn⟩ := probeDevice_log hprobe he hm
        exact hnew n m hn
    · cases h
  · cases h

theorem Inv.word {fault : Bool} {w : BitVec 32} (h : s.word t fault w = some (s', log)) :
    Inv s' ∧ Safe s log := by
  simp only [State.word] at h
  split at h
  · rename_i dir ti n ht
    have hlocked : (s.thread t).Locked := by rw [ht]; trivial
    have hunlock := hs.unlock hlocked (by simp [ht])
    have hmine : ti.nBytesToTransfer ≠ 0 → ti.barStart ∉ s.released :=
      hs.transfers t ti (by rw [ht]; rfl)
    have hnext : Inv (s.goto t (.transferring dir ti (n + 4))) := by
      refine hs.goto (iff_of_true trivial hlocked) (by simp [ht]) ?_
      intro ti' hti'
      cases hti'
      exact hmine
    split at h
    · rename_i hlt
      -- the loop runs, so there is a word to move and the mapping is not released
      have hlive : ti.barStart ∉ s.released := by
        apply hmine
        intro hzero
        rw [hzero] at hlt
        simp [BitVec.lt_def] at hlt
      have hread : ∀ off, Safe s [.ioread32 ti.barStart off] := by
        intro off e he m hm
        rw [List.mem_singleton.mp he] at hm
        cases hm
        exact hlive
      split at h
      · split at h
        · cases h; exact ⟨hunlock, hread _⟩
        · cases h; exact ⟨hnext, hread _⟩
      · split at h
        · cases h; exact ⟨hunlock, by simp [Safe]⟩
        · cases h
          refine ⟨⟨hnext.mutex, hnext.mapped, hnext.transfers⟩, ?_⟩
          intro e he m hm
          rw [List.mem_singleton.mp he] at hm
          cases hm
          exact hlive
    · cases h
      exact ⟨hunlock, by simp [Safe]⟩
  · cases h

/-- `pci_iounmap` releases a mapping that no transfer keeps. -/
theorem Inv.unmap {n : Fin 6} {m : Iomem} {bars : List (Fin 6)}
    (ht : s.thread t = .removing (n :: bars)) (hm : (s.dv.bar n).memmoryBase = some m)
    (hnone : ∀ u dir ti, s.thread u = .checked dir ti → ti.nBytesToTransfer ≠ 0 →
      ti.barStart ≠ m) :
    Inv { s.goto t (.clearing n m bars) with released := m :: s.released } := by
  obtain ⟨holder, hdev, hguards⟩ := hs.mutex
  have hlocked : (s.thread t).Locked := by rw [ht]; trivial
  refine ⟨⟨holder, hdev, hguards.move (iff_of_true trivial hlocked)⟩, ?_, ?_⟩
  · intro n' m' hm'
    obtain ⟨hbar', hclearing⟩ := hs.mapped n' m' hm'
    refine ⟨hbar', fun hmem => ?_⟩
    rcases List.mem_cons.mp hmem with rfl | hold
    · -- two BARs never share a mapping
      obtain rfl : n = n' := (hs.mapped n m' hm).1.symm.trans hbar'
      exact ⟨t, bars, Function.update_self ..⟩
    · exact (hclearing hold).update rfl (by simp [ht])
  · refine Threads.forall_update (Q := fun _ pc => ∀ ti, Pc.transfer pc = some ti →
      ti.nBytesToTransfer ≠ 0 → ti.barStart ∉ m :: s.released) (fun ti hti => by cases hti) ?_
    intro u hu ti hti hbytes hmem
    rcases List.mem_cons.mp hmem with hnew | hold
    · cases hpc : s.thread u with
      | idle | removing | clearing | closing => rw [hpc] at hti; cases hti
      | checked dir ti' =>
          rw [hpc] at hti
          cases hti
          exact hnone u dir ti hpc hbytes hnew
      | transferring dir ti' n' => exact hu (hguards.unique (by rw [hpc]; trivial) hlocked)
    · exact hs.transfers u ti hti hbytes hold

/-- The pointer to a released mapping is cleared. -/
theorem Inv.clear {n : Fin 6} {m : Iomem} {bars : List (Fin 6)}
    (ht : s.thread t = .clearing n m bars) :
    Inv { s.goto t (.removing bars) with dv := s.dv.setBar n {} } := by
  obtain ⟨holder, hdev, hguards⟩ := hs.mutex
  have hlocked : (s.thread t).Locked := by rw [ht]; trivial
  refine ⟨⟨holder, hdev, hguards.move (iff_of_true trivial hlocked)⟩, ?_,
    hs.transfers_goto fun ti hti => by cases hti⟩
  intro n' m' hm'
  by_cases hn : n' = n
  · subst hn
    rw [PcieuniDev.setBar_bar_self] at hm'
    cases hm'
  · rw [PcieuniDev.setBar_bar_ne hn] at hm'
    obtain ⟨hbar', hclearing⟩ := hs.mapped n' m' hm'
    refine ⟨hbar', fun hrel => (hclearing hrel).update rfl fun bars' hpc => ?_⟩
    rw [ht] at hpc
    cases hpc
    exact hn rfl

theorem Inv.remove (hstrands : StrandsNobody s (.remove t)) (h : s.remove t = some (s', log)) :
    Inv s' ∧ Safe s log := by
  simp only [State.remove] at h
  split at h
  · rename_i n bars ht
    have hlocked : (s.thread t).Locked := by rw [ht]; trivial
    split at h
    · cases h
      have hnext : Inv (s.goto t (.removing bars)) :=
        hs.goto (iff_of_true trivial hlocked) (by simp [ht]) (by rintro ti ⟨⟩)
      exact ⟨hnext, by simp [Safe]⟩
    · rename_i m hm
      cases h
      refine ⟨hs.unmap ht hm (hstrands n bars ht m hm), fun e he m' hm' => ?_⟩
      rw [List.mem_singleton.mp he] at hm'
      cases hm'
  · rename_i n m bars ht
    cases h
    exact ⟨hs.clear ht, by simp [Safe]⟩
  · rename_i ht
    have hlocked : (s.thread t).Locked := by rw [ht]; trivial
    cases h
    have hnext : Inv (s.goto t .closing) :=
      hs.goto (iff_of_true trivial hlocked) (by simp [ht]) (by rintro ti ⟨⟩)
    exact ⟨⟨hnext.mutex, hnext.mapped, hnext.transfers⟩, by simp [Safe]⟩
  · rename_i ht
    have hlocked : (s.thread t).Locked := by rw [ht]; trivial
    cases h
    have hdone := hs.unlock hlocked (by simp [ht])
    exact ⟨⟨hdone.mutex, hdone.mapped, hdone.transfers⟩, by simp [Safe]⟩
  · cases h

theorem Inv.step {major : Int} {k : Slot} {a : Act} (hstrands : StrandsNobody s a)
    (h : s.step major k a = some (s', log)) : Inv s' ∧ Safe s log := by
  cases a with
  | probe env d => exact hs.probe h
  | check t dir count pos =>
      simp only [State.step] at h
      split at h
      · rename_i ht
        split at h
        · cases h
          exact ⟨hs, by simp [Safe]⟩
        · rename_i ti hcheck
          obtain ⟨n, hacc⟩ := check_inr hcheck
          cases h
          refine ⟨hs.goto (by simp [Pc.Locked, ht]) (by simp [ht]) ?_, by simp [Safe]⟩
          intro ti' hti' hbytes hrel
          cases hti'
          exact hstrands ti hcheck hbytes n ((hs.mapped n _ hacc.barStart).2 hrel)
      · cases h
  | lock t intr =>
      simp only [State.step] at h
      split at h
      · rename_i dir ti ht
        have hmine : ∀ ti', some ti = some ti' → ti'.nBytesToTransfer ≠ 0 →
            ti'.barStart ∉ s.released :=
          fun ti' hti' => hs.transfers t ti' (by rw [ht]; exact hti')
        split at h
        · cases h
          refine ⟨hs.goto (by simp [Pc.Locked, ht]) (by simp [ht]) ?_, by simp [Safe]⟩
          intro ti' hti'
          cases hti'
        · cases h
        · rename_i hlock
          have hnone := hs.holder_none (mutexLockInterruptible_acquired.mp hlock).1
          cases h
          exact ⟨⟨⟨some t, rfl, hnone.acquire trivial⟩, hs.mapped_goto (by simp [ht]),
            hs.transfers_goto hmine⟩, by simp [Safe]⟩
      · cases h
  | word t fault w => exact hs.word h
  | removeLock t =>
      simp only [State.step] at h
      split at h
      · rename_i d ht hbound hlock
        have hnone := hs.holder_none (mutexLock_acquired.mp hlock)
        cases h
        refine ⟨⟨⟨some t, rfl, hnone.acquire trivial⟩, hs.mapped_goto (by simp [ht]),
          hs.transfers_goto ?_⟩, ?_⟩
        · intro ti hti
          cases hti
        · intro e he m hm
          rcases releaseInterrupts_log he with rfl | rfl <;> cases hm
      · cases h
  | remove t => exact hs.remove hstrands h

end Step

theorem Inv.of_init {major : Int} {k : Slot} {s : State} (h : (hotplugLts major k).init s) :
    Inv s := by
  obtain ⟨verMaj, verMin, hdv, -, -, hidle⟩ := h
  refine ⟨⟨none, by rw [hdv]; rfl, fun t => ?_⟩, fun n m hm => ?_, fun t ti hti => ?_⟩
  · rw [hidle t]
    simp [Pc.Locked]
  · rw [hdv] at hm
    cases hm
  · rw [hidle t] at hti
    cases hti

/-! ## When a transfer is stranded -/

/-- A run can go on from `s` to an access through a released mapping. -/
def CanAccessReleased (major : Int) (k : Slot) (s : State) : Prop :=
  ∃ tr s', (hotplugLts major k).Run s tr s' ∧
    ∃ u ∈ tr, ∃ e ∈ u.out, ∃ m, e.through = some m ∧ m ∈ u.pre.released

section Stranded

variable {major : Int} {k : Slot} {s s' : State} {u : Tid} {dir : Direction}
  {ti : TransferInformation}

theorem CanAccessReleased.of_run {tr : List (Transition State Act (List Effect))}
    (hrun : (hotplugLts major k).Run s tr s') (h : CanAccessReleased major k s') :
    CanAccessReleased major k s := by
  obtain ⟨tr', s'', hrun', x, hx, hbad⟩ := h
  exact ⟨tr ++ tr', s'', hrun.append hrun', x, List.mem_append_right tr hx, hbad⟩

/-- A transfer with words to move gets the mutex, and its first word goes through the
released mapping. -/
theorem canAccessReleased_of_free (hfree : s.dv.devMut = false) (hu : s.thread u = .checked dir ti)
    (hbytes : ti.nBytesToTransfer ≠ 0) (hrel : ti.barStart ∈ s.released) :
    CanAccessReleased major k s := by
  let s₁ : State := { s.goto u (.transferring dir ti 0) with dv := { s.dv with devMut := true } }
  have hlock : (hotplugLts major k).step s (.lock u false) = some (s₁, []) := by
    have hgets := mutexLockInterruptible_acquired.mpr ⟨hfree, rfl⟩
    simp only [hotplugLts, State.step, hu, hgets]
    rfl
  have hu₁ : s₁.thread u = .transferring dir ti 0 := by simp [s₁, State.goto]
  have hpos : 0 < ti.nBytesToTransfer := by
    rw [BitVec.lt_def]
    exact Nat.pos_of_ne_zero fun h0 => hbytes (BitVec.eq_of_toNat_eq h0)
  obtain ⟨s₂, e, hword, hthrough⟩ : ∃ s₂ e,
      (hotplugLts major k).step s₁ (.word u false 0) = some (s₂, [e]) ∧
        e.through = some ti.barStart := by
    simp only [hotplugLts, State.step, State.word, hu₁, if_pos hpos]
    cases dir with
    | read => exact ⟨_, .ioread32 ti.barStart (ti.wordOffset 0), rfl, rfl⟩
    | write => exact ⟨_, .iowrite32 ti.barStart (ti.wordOffset 0) 0, rfl, rfl⟩
  exact ⟨_, s₂, .cons hlock (.single hword), ⟨s₁, .word u false 0, [e], s₂⟩,
    List.mem_cons_of_mem _ (List.mem_singleton_self _), e, List.mem_singleton_self e, _, hthrough,
    hrel⟩

/-- The remove whose pointer is to be cleared goes on to its end, and then the transfer
follows. -/
theorem canAccessReleased_of_clearing {t : Tid} {n : Fin 6} {m : Iomem} {bars : List (Fin 6)}
    (ht : s.thread t = .clearing n m bars) (hu : s.thread u = .checked dir ti)
    (hbytes : ti.nBytesToTransfer ≠ 0) (hrel : ti.barStart ∈ s.released) :
    CanAccessReleased major k s := by
  have hne : u ≠ t := by
    rintro rfl
    rw [ht] at hu
    cases hu
  let s₁ : State := { s.goto t (.removing bars) with dv := s.dv.setBar n {} }
  have hclear : (hotplugLts major k).step s (.remove t) = some (s₁, []) := by
    simp only [hotplugLts, State.step, State.remove, ht]
    rfl
  have ht₁ : s₁.thread t = .removing bars := by simp [s₁, State.goto]
  obtain ⟨tr, s₂, hrun, hfree, hthread, hrel₂⟩ := remove_run major k ht₁
  have hu₂ : s₂.thread u = .checked dir ti := by simp [hthread, s₁, State.goto, hne, hu]
  exact .of_run (.cons hclear hrun) (canAccessReleased_of_free hfree hu₂ hbytes (hrel₂ hrel))

/-- The mappings whose pointers are to be cleared are released. -/
def ClearsReleased (s : State) : Prop := ∀ n m, s.Clearing n m → m ∈ s.released

theorem ClearsReleased.step {a : Act} {log : List Effect} (hs : ClearsReleased s)
    (h : s.step major k a = some (s', log)) : ClearsReleased s' := by
  rintro n m ⟨t, bars, ht⟩
  rcases step_clearing h ht with hbefore | hnow
  · exact (step_moves h).2 (hs n m ⟨t, bars, hbefore⟩)
  · exact hnow

theorem clearsReleased {tr : List (Transition State Act (List Effect))}
    (h : (hotplugLts major k).Run s tr s') (hinit : (hotplugLts major k).init s) :
    ClearsReleased s' ∧ ∀ t ∈ tr, ClearsReleased t.pre ∧ ClearsReleased t.post := by
  have hidle : ClearsReleased s := by
    obtain ⟨-, -, -, -, -, hidle⟩ := hinit
    rintro n m ⟨u, bars, hu⟩
    rw [hidle u] at hu
    cases hu
  exact h.preserves (P := fun _ _ => True) (fun _ _ _ _ hs _ hstep => hs.step hstep) hidle
    fun _ _ => trivial

/-- The two ways in which a step strands a transfer both lead to a bad access. -/
theorem canAccessReleased_of_strands {a : Act} {log : List Effect} (hs : ClearsReleased s)
    (hstrands : ¬ StrandsNobody s a) (h : s.step major k a = some (s', log)) :
    CanAccessReleased major k s' := by
  cases a with
  | remove t =>
      simp only [StrandsNobody, not_forall, not_not] at hstrands
      obtain ⟨n, bars, ht, m, hm, u, dir, ti, hu, hbytes, rfl⟩ := hstrands
      have hne : u ≠ t := by
        rintro rfl
        rw [ht] at hu
        cases hu
      simp only [State.step, State.remove, ht, hm] at h
      cases h
      have hu' : (s.goto t (.clearing n ti.barStart bars)).thread u = .checked dir ti := by
        simp [State.goto, hne, hu]
      exact canAccessReleased_of_clearing (t := t) (Function.update_self ..) hu' hbytes
        (List.mem_cons_self ..)
  | check u dir count pos =>
      simp only [StrandsNobody, not_forall, not_not] at hstrands
      obtain ⟨ti, hcheck, hbytes, n, hclearing⟩ := hstrands
      obtain ⟨t, bars, ht⟩ := hclearing
      simp only [State.step, hcheck] at h
      split at h
      · rename_i hidle
        cases h
        have hne : t ≠ u := by
          rintro rfl
          rw [ht] at hidle
          cases hidle
        have ht' : (s.goto u (.checked dir ti)).thread t = .clearing n ti.barStart bars := by
          simp [State.goto, hne, ht]
        exact canAccessReleased_of_clearing ht' (Function.update_self ..) hbytes
          (hs n _ ⟨t, bars, ht⟩)
      · cases h
  | probe | lock | word | removeLock => exact absurd trivial hstrands

end Stranded

/-- In every run whose steps strand no transfer, no register is accessed through a
released mapping; and from any step that strands one, the run can go on to such an
access. -/
theorem run_safe {major : Int} {k : Slot} {s s' : State}
    {tr : List (Transition State Act (List Effect))} (h : (hotplugLts major k).Run s tr s')
    (hinit : (hotplugLts major k).init s) :
    ((∀ t ∈ tr, StrandsNobody t.pre t.act) →
      ∀ t ∈ tr, ∀ e ∈ t.out, ∀ m, e.through = some m → m ∉ t.pre.released) ∧
    (∀ t ∈ tr, ¬ StrandsNobody t.pre t.act → CanAccessReleased major k t.post) := by
  constructor
  · intro hstrands t ht
    have hall := h.preserves (I := Inv) (P := StrandsNobody)
      (fun s a s' e hs hstrands hstep => (hs.step hstrands hstep).1) (.of_init hinit) hstrands
    exact ((hall.2 t ht).1.step (hstrands t ht) (h.step_of_mem ht)).2
  · intro t ht hstrands
    exact canAccessReleased_of_strands ((clearsReleased h hinit).2 t ht).1 hstrands
      (h.step_of_mem ht)

/-! ## The race -/

/-- A card with one BAR of 4 KiB. -/
def oneBar : ProbeEnv where
  resource n := if n = 0 then ⟨0x1000, 0x1fff, 0x200⟩ else {}
  iomap _ := some 0
  fuel := 1

/-- The free slot, before any card is plugged in. -/
def emptySlot : State where
  dv := (Driver.initial 250 1 0 fun _ _ _ => 0).dev 0
  bound := none
  regs := fun _ _ _ => 0
  released := []
  thread := fun _ => .idle

theorem emptySlot_init : (hotplugLts 250 0).init emptySlot := ⟨1, 0, rfl, rfl, rfl, fun _ => rfl⟩

/-- A read that gets the mutex before the remove does. -/
theorem run_safe_read : ∃ tr s',
    (hotplugLts 250 0).Run emptySlot tr s' ∧
    tr.map (·.act) = [.probe oneBar 7, .check 0 .read 4 8, .lock 0 false, .word 0 false 0,
      .word 0 false 0, .removeLock 1] ∧
    .ioread32 ⟨7, 0, 0⟩ 8 ∈ tr.flatMap (·.out) ∧
    ∀ t ∈ tr, ∀ e ∈ t.out, ∀ m, e.through = some m → m ∉ t.pre.released := by
  obtain ⟨tr, s', hrun, hacts, hend⟩ := Lts.Run.of_exec_map (M := hotplugLts 250 0)
    (g := fun r => (decide (Effect.ioread32 ⟨7, 0, 0⟩ 8 ∈ r.1.flatMap (·.out)),
      r.1.all fun t => decide (t.pre.released = []))) (v := (true, true))
    (s := emptySlot)
    (l := [.probe oneBar 7, .check 0 .read 4 8, .lock 0 false, .word 0 false 0, .word 0 false 0,
      .removeLock 1]) (by decide +kernel)
  simp only [Prod.mk.injEq] at hend
  refine ⟨tr, s', hrun, hacts, of_decide_eq_true hend.1,
    (run_safe hrun emptySlot_init).1 fun t ht => ?_⟩
  have hclear := (clearsReleased hrun emptySlot_init).2 t ht
  have hnone : t.pre.released = [] := of_decide_eq_true (List.all_eq_true.mp hend.2 t ht)
  have hact : t.act ∈ tr.map (·.act) := List.mem_map_of_mem ht
  simp only [hacts, List.mem_cons, List.not_mem_nil, or_false] at hact
  rcases hact with hact | hact | hact | hact | hact | hact <;> rw [hact]
  all_goals try trivial
  intro ti _ _ n hclearing
  have hmem := hclear.1 n _ hclearing
  rw [hnone] at hmem
  cases hmem

/-- A whole remove between the check of a read and its lock: the read then goes
through the mapping that the remove has released. -/
theorem read_through_released : ∃ tr s',
    (hotplugLts 250 0).Run emptySlot tr s' ∧ (hotplugLts 250 0).init emptySlot ∧
    tr.map (·.act) = [.probe oneBar 7, .check 0 .read 4 0, .removeLock 1, .remove 1, .remove 1,
      .remove 1, .remove 1, .remove 1, .remove 1, .remove 1, .remove 1, .remove 1, .lock 0 false,
      .word 0 false 0] ∧
    ¬ ∀ t ∈ tr, ∀ e ∈ t.out, ∀ m, e.through = some m → m ∉ t.pre.released := by
  obtain ⟨tr, s', hrun, hacts, hlast⟩ := Lts.Run.of_exec_map (M := hotplugLts 250 0)
    (g := fun r => r.1.any fun t => decide (⟨7, 0, 0⟩ ∈ t.pre.released) &&
      decide (.ioread32 ⟨7, 0, 0⟩ 0 ∈ t.out)) (v := true)
    (s := emptySlot)
    (l := [.probe oneBar 7, .check 0 .read 4 0, .removeLock 1, .remove 1, .remove 1, .remove 1,
      .remove 1, .remove 1, .remove 1, .remove 1, .remove 1, .remove 1, .lock 0 false,
      .word 0 false 0]) (by decide +kernel)
  refine ⟨tr, s', hrun, emptySlot_init, hacts, fun hsafe => ?_⟩
  obtain ⟨t, ht, hbad⟩ := List.any_eq_true.mp hlast
  obtain ⟨hreleased, haccess⟩ := Bool.and_eq_true_iff.mp hbad
  exact hsafe t ht _ (of_decide_eq_true haccess) _ rfl (of_decide_eq_true hreleased)

end Hotplug

end Gpcieuni
