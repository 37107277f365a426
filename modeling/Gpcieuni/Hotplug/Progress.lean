-- SUMMARY: Transfers and removes come to an end: no deadlock on the device mutex, and a bound on the steps until every call has returned.
import Mathlib.Algebra.Order.BigOperators.Group.Finset
import Gpcieuni.Hotplug.Serial

/-!
# Progress

A call that is under way is at its lock attempt, in the word loop, or in a remove
under the mutex. Whoever holds the device mutex can go on, so some call can always
take a step, and each step brings the calls nearer to their ends: a loop has as many
turns left as words, because its 32-bit counter does not wrap for the counts that
the VFS lets through.
-/

namespace Gpcieuni

namespace Hotplug

/-- The step goes on with a call that is under way. -/
def Continues : Act → Prop
  | .lock .. | .word .. | .remove _ => True
  | .probe .. | .check .. | .removeLock _ => False

theorem Continues.admitted {a : Act} (h : Continues a) : Admitted a := by
  cases a with
  | lock | word | remove => trivial
  | probe | check | removeLock => cases h

/-- The number of steps that a thread at this point has before it at most. -/
def Pc.stepsLeft : Pc → Nat
  | .idle => 0
  | .checked _ ti => wordCount ti + 2
  | .transferring _ ti n => wordCount ti - n.toNat / 4 + 1
  | .removing bars => 2 * bars.length + 2
  | .clearing _ _ bars => 2 * bars.length + 3
  | .closing => 1

/-- The steps before the threads in `T`. -/
def State.stepsLeft (s : State) (T : Finset Tid) : Nat := ∑ t ∈ T, (s.thread t).stepsLeft

/-- All calls under way are calls of threads in `T`. -/
def CallsOf (T : Finset Tid) (s : State) : Prop := ∀ t, s.thread t ≠ .idle → t ∈ T

/-! ## What a step does to the calls -/

section Step

variable {regs₀ : Regs} {h : History} {s s' : State} {a : Act} {log : List Effect} {major : Int}
  {k : Slot}

/-- A thread in its loop has words before it, or it is at the end. -/
theorem Recorded.counter (hs : Recorded regs₀ h s) {t : Tid} {dir : Direction}
    {ti : TransferInformation} {n : BitVec 32} (ht : s.thread t = .transferring dir ti n)
    (hlt : n < ti.nBytesToTransfer) :
    n.toNat / 4 < wordCount ti ∧ (n + 4).toNat / 4 = n.toNat / 4 + 1 := by
  obtain ⟨regs, -, hunder⟩ := hs.serial
  obtain ⟨hn, hle, -⟩ := hunder.moving t dir ti n ht
  obtain ⟨-, hcount, hcheck⟩ := hs.asked t dir ti (by rw [ht]; rfl)
  have hcov := covers_of_count hcheck hcount
  have hfit := hcov.counterFits
  have hmoved : h.moved.length < wordCount ti := by
    rw [hn] at hlt
    exact (hcov.counter_lt_iff hle).mp hlt
  have hn' : n.toNat = 4 * h.moved.length := by
    rw [hn, BitVec.toNat_ofNat]
    omega
  refine ⟨by omega, ?_⟩
  rw [BitVec.toNat_add, show BitVec.toNat (4 : BitVec 32) = 4 from rfl]
  omega

/-- A step of a call under way brings it nearer to its end. -/
theorem Recorded.continues (hs : Recorded regs₀ h s) (ha : Continues a)
    (hstep : (hotplugLts major k).step s a = some (s', log)) :
    ∃ t pc, s'.thread = Function.update s.thread t pc ∧ pc.stepsLeft < (s.thread t).stepsLeft := by
  cases a with
  | lock t intr =>
      simp only [hotplugLts, State.step] at hstep
      split at hstep
      · rename_i dir ti ht
        split at hstep
        · cases hstep
          exact ⟨t, .idle, rfl, by simp [ht, Pc.stepsLeft]⟩
        · cases hstep
        · cases hstep
          exact ⟨t, .transferring dir ti 0, rfl, by simp [ht, Pc.stepsLeft]⟩
      · cases hstep
  | word t fault w =>
      simp only [hotplugLts, State.step, State.word] at hstep
      split at hstep
      · rename_i dir ti n ht
        have hend : Pc.stepsLeft .idle < (s.thread t).stepsLeft := by simp [ht, Pc.stepsLeft]
        split at hstep
        · rename_i hlt
          obtain ⟨hmore, hnext⟩ := hs.counter ht hlt
          have hturn : (Pc.transferring dir ti (n + 4)).stepsLeft < (s.thread t).stepsLeft := by
            simp only [ht, Pc.stepsLeft, hnext]
            omega
          split at hstep
          · split at hstep
            · cases hstep
              exact ⟨t, .idle, rfl, hend⟩
            · cases hstep
              exact ⟨t, _, rfl, hturn⟩
          · split at hstep
            · cases hstep
              exact ⟨t, .idle, rfl, hend⟩
            · cases hstep
              exact ⟨t, _, rfl, hturn⟩
        · cases hstep
          exact ⟨t, .idle, rfl, hend⟩
      · cases hstep
  | remove t =>
      simp only [hotplugLts, State.step, State.remove] at hstep
      split at hstep
      · rename_i n bars ht
        split at hstep
        · cases hstep
          exact ⟨t, .removing bars, rfl, by simp [ht, Pc.stepsLeft]⟩
        · rename_i m hm
          cases hstep
          exact ⟨t, .clearing n m bars, rfl, by simp [ht, Pc.stepsLeft]; omega⟩
      · rename_i n m bars ht
        cases hstep
        exact ⟨t, .removing bars, rfl, by simp [ht, Pc.stepsLeft]⟩
      · rename_i ht
        cases hstep
        exact ⟨t, .closing, rfl, by simp [ht, Pc.stepsLeft]⟩
      · rename_i ht
        cases hstep
        exact ⟨t, .idle, rfl, by simp [ht, Pc.stepsLeft]⟩
      · cases hstep
  | probe | check | removeLock => cases ha

/-- As long as a call is under way, some call can take a step: whoever holds the mutex,
or any of those that want it. -/
theorem Recorded.progress (hs : Recorded regs₀ h s) {t : Tid} (ht : s.thread t ≠ .idle) :
    ∃ a, Continues a ∧ (hotplugLts major k).step s a ≠ none := by
  obtain ⟨holder, hdev, hguards⟩ := hs.mutex
  cases holder with
  | some u =>
      have hlocked := (hguards u).mpr rfl
      cases hu : s.thread u with
      | idle | checked => rw [hu] at hlocked; cases hlocked
      | transferring dir ti n =>
          refine ⟨.word u true 0, trivial, ?_⟩
          simp only [hotplugLts, State.step, State.word, hu]
          split
          · cases dir <;> simp
          · simp
      | removing bars =>
          refine ⟨.remove u, trivial, ?_⟩
          cases bars with
          | nil => simp [hotplugLts, State.step, State.remove, hu]
          | cons n bars =>
              simp only [hotplugLts, State.step, State.remove, hu]
              split <;> simp
      | clearing | closing =>
          exact ⟨.remove u, trivial, by simp [hotplugLts, State.step, State.remove, hu]⟩
  | none =>
      cases hpc : s.thread t with
      | idle => exact absurd hpc ht
      | checked dir ti =>
          have hlock : mutexLockInterruptible s.dv.devMut false = .acquired :=
            mutexLockInterruptible_acquired.mpr ⟨hdev, rfl⟩
          refine ⟨.lock t false, trivial, ?_⟩
          simp [hotplugLts, State.step, hpc, hlock]
      | transferring | removing | clearing | closing =>
          have hlocked : (s.thread t).Locked := by rw [hpc]; trivial
          cases (hguards t).mp hlocked

/-- When every call has returned, the mutex is free. -/
theorem Recorded.free_of_idle (hs : Recorded regs₀ h s) (hidle : ∀ t, s.thread t = .idle) :
    s.dv.devMut = false := by
  obtain ⟨holder, hdev, hguards⟩ := hs.mutex
  cases holder with
  | none => exact hdev
  | some u =>
      have hlocked := (hguards u).mpr rfl
      rw [hidle u] at hlocked
      cases hlocked

end Step

/-! ## Runs -/

theorem stepsLeft_lt {s s' : State} {T : Finset Tid} {t : Tid} {pc : Pc}
    (hT : CallsOf T s) (hthread : s'.thread = Function.update s.thread t pc)
    (hlt : pc.stepsLeft < (s.thread t).stepsLeft) :
    CallsOf T s' ∧ s'.stepsLeft T < s.stepsLeft T := by
  have hidle : s.thread t ≠ .idle := by
    intro h
    rw [h] at hlt
    exact Nat.not_lt_zero _ hlt
  have hle : ∀ u, (s'.thread u).stepsLeft ≤ (s.thread u).stepsLeft := by
    rw [hthread]
    exact Threads.forall_update (Q := fun u pc => Pc.stepsLeft pc ≤ (s.thread u).stepsLeft) hlt.le
      fun u _ => le_refl _
  refine ⟨?_, Finset.sum_lt_sum (fun u _ => hle u) ⟨t, hT t hidle, ?_⟩⟩
  · rw [CallsOf, hthread]
    exact Threads.forall_update (Q := fun u (pc : Pc) => pc ≠ .idle → u ∈ T) (fun _ => hT t hidle)
      fun u _ => hT u
  · rw [hthread, Function.update_self]
    exact hlt

/-- The steps that the calls under way have before them are bounded, in whatever order
their threads run, and when none of them can take a step any more, all have returned
and the mutex is free. -/
structure Finishes (major : Int) (k : Slot) (s : State) (N : Nat) : Prop where
  bound : ∀ tr s', (hotplugLts major k).Run s tr s' → (∀ t ∈ tr, Continues t.act) → tr.length ≤ N
  returned : ∀ tr s', (hotplugLts major k).Run s tr s' → (∀ t ∈ tr, Continues t.act) →
    (∀ a, Continues a → (hotplugLts major k).step s' a = none) →
    (∀ t, s'.thread t = .idle) ∧ s'.dv.devMut = false

/-- At any time, whatever has happened to the slot: reads, writes and removes that are
under way do not block each other for ever, and each comes to its end. -/
theorem run_finishes {major : Int} {k : Slot} {s s' : State}
    {tr : List (Transition State Act (List Effect))} (h : (hotplugLts major k).Run s tr s')
    (hinit : (hotplugLts major k).init s) (hcount : ∀ t ∈ tr, Admitted t.act) :
    ∃ N, Finishes major k s' N := by
  have hrecorded : ∃ g, Recorded s.regs g s' :=
    (h.preserves (I := fun s₁ => ∃ g, Recorded s.regs g s₁) (P := fun _ a => Admitted a)
      (fun _ _ _ _ ⟨_, hs⟩ ha hstep => ⟨_, hs.step ha hstep⟩) ⟨_, .of_init hinit⟩ hcount).1
  obtain ⟨T, hT⟩ : ∃ T, CallsOf T s' := by
    refine (h.preserves (I := fun s₁ => ∃ T, CallsOf T s₁) (P := fun _ _ => True) ?_ ?_
      fun _ _ => trivial).1
    · rintro s₁ a s₂ log ⟨T, hT⟩ - hstep
      rcases (step_moves hstep).1 with hsame | ⟨t, pc, hthread, -⟩
      · exact ⟨T, by rw [CallsOf, hsame]; exact hT⟩
      · refine ⟨insert t T, ?_⟩
        rw [CallsOf, hthread]
        exact Threads.forall_update (Q := fun u (pc : Pc) => pc ≠ .idle → u ∈ insert t T)
          (fun _ => Finset.mem_insert_self t T) fun u _ hu => Finset.mem_insert_of_mem (hT u hu)
    · obtain ⟨-, -, -, -, -, hidle⟩ := hinit
      exact ⟨∅, fun t ht => absurd (hidle t) ht⟩
  have hall : ∀ {tr'} {s'' : State}, (hotplugLts major k).Run s' tr' s'' →
      (∀ t ∈ tr', Continues t.act) → (∃ g, Recorded s.regs g s'') ∧
        ∀ t ∈ tr', t.post.stepsLeft T < t.pre.stepsLeft T := by
    intro tr' s'' hrun hcont
    have hinv := hrun.preserves (I := fun s₁ => (∃ g, Recorded s.regs g s₁) ∧ CallsOf T s₁)
      (P := fun _ a => Continues a) ?_ ⟨hrecorded, hT⟩ hcont
    · refine ⟨hinv.1.1, fun t ht => ?_⟩
      obtain ⟨⟨g, hs⟩, hpre⟩ := (hinv.2 t ht).1
      obtain ⟨u, pc, hthread, hlt⟩ := hs.continues (hcont t ht) (hrun.step_of_mem ht)
      exact (stepsLeft_lt hpre hthread hlt).2
    · rintro s₁ a s₂ log ⟨⟨g, hs⟩, hpre⟩ ha hstep
      obtain ⟨u, pc, hthread, hlt⟩ := hs.continues ha hstep
      exact ⟨⟨_, hs.step ha.admitted hstep⟩, (stepsLeft_lt hpre hthread hlt).1⟩
  refine ⟨s'.stepsLeft T, ⟨?_, ?_⟩⟩
  · intro tr' s'' hrun hcont
    have hlen := hrun.length_le (φ := fun s => s.stepsLeft T) (hall hrun hcont).2
    omega
  · intro tr' s'' hrun hcont hstuck
    obtain ⟨⟨g, hs⟩, -⟩ := hall hrun hcont
    have hidle : ∀ t, s''.thread t = .idle := by
      by_contra hne
      obtain ⟨t, ht⟩ := not_forall.mp hne
      obtain ⟨a, ha, hstep⟩ : ∃ a, Continues a ∧ (hotplugLts major k).step s'' a ≠ none :=
        hs.progress ht
      exact hstep (hstuck a ha)
    exact ⟨hidle, hs.free_of_idle hidle⟩

/-- A write is under way and a read waits for it. -/
theorem run_finishes_two : ∃ tr s',
    (hotplugLts 250 0).Run emptySlot tr s' ∧
    tr.map (·.act) = [.probe oneBar 7, .check 0 .write 8 16, .lock 0 false, .word 0 false 5,
      .check 1 .read 8 16] ∧
    s'.dv.devMut = true ∧ ∃ N, Finishes 250 0 s' N := by
  obtain ⟨tr, s', hrun, hacts, hheld⟩ := Lts.Run.of_exec_map (M := hotplugLts 250 0)
    (g := fun r => r.2.dv.devMut) (v := true) (s := emptySlot)
    (l := [.probe oneBar 7, .check 0 .write 8 16, .lock 0 false, .word 0 false 5,
      .check 1 .read 8 16]) (by decide +kernel)
  refine ⟨tr, s', hrun, hacts, hheld, run_finishes hrun emptySlot_init fun t ht => ?_⟩
  have hact : t.act ∈ tr.map (·.act) := List.mem_map_of_mem ht
  simp only [hacts, List.mem_cons, List.not_mem_nil, or_false] at hact
  rcases hact with h | h | h | h | h <;> rw [h]
  · trivial
  · exact (by decide : BitVec.toNat (8 : BitVec 64) ≤ 0x7ffff000)
  · trivial
  · trivial
  · exact (by decide : BitVec.toNat (8 : BitVec 64) ≤ 0x7ffff000)

end Hotplug

end Gpcieuni
