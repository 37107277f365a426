-- SUMMARY: The balance of the list lock: which return leaves it held, and that every other run gives it back.
import Gpcieuni.BufferList

/-!
# The list lock

The lock guards the points behind a `spin_lock`. Every rule respects that but
one: a get_free that has waited and finds the list shut down returns from inside
the lock.
-/

namespace Gpcieuni

namespace BufferList

/-- The program points at which a thread holds the list lock. -/
def Pc.Inside : Pc → Prop
  | .append _ | .getFree | .getFreeAgain | .setFree _ | .clear | .clearLoop .. | .fault => True
  | _ => False

theorem Pc.inside_of_behindLock {pc pc' : Pc} (h : pc.behindLock = some pc') : pc'.Inside := by
  cases pc <;> cases h <;> trivial

theorem State.Faulty.inside {s : State} {pc : Pc} (h : s.Faulty pc) : pc.Inside := by
  cases pc <;> trivial

/-- The step is not a get_free that retakes the lock after its wait and finds the
list shut down. -/
def WaiterFindsOpen (s : State) : Act → Prop
  | .run t => s.thread t = .getFreeAgain → s.shutDownFlag = 0
  | _ => True

instance (s : State) (a : Act) : Decidable (WaiterFindsOpen s a) :=
  match a with
  | .run t => inferInstanceAs (Decidable (s.thread t = .getFreeAgain → s.shutDownFlag = 0))
  | .create _ | .call .. | .wait .. | .recheck _ => isTrue trivial

theorem Step.guards {s s' : State} {a : Act} {out : List Event} (h : Step s a s' out)
    (hs : Threads.Guards s.lock Pc.Inside s.thread) (hopen : WaiterFindsOpen s a) :
    Threads.Guards s'.lock Pc.Inside s'.thread := by
  cases h with
  | create => exact hs
  | callAppend ht => exact hs.move (by simp [ht, Pc.Inside])
  | callGetFree ht => exact hs.move (by simp [ht, Pc.Inside])
  | callSetFree ht => exact hs.move (by simp [ht, Pc.Inside])
  | callClear ht => exact hs.move (by simp [ht, Pc.Inside])
  | lock ht hlock =>
      rw [hlock] at hs
      exact hs.acquire (Pc.inside_of_behindLock ht)
  | append ht => exact hs.release (by rw [ht]; trivial) id
  | refuse ht => exact hs.release (by rw [ht]; trivial) id
  | refuseLocked ht hflag => exact absurd (hopen ht) hflag
  | handOut ht => exact hs.release (by rcases ht with ht | ht <;> rw [ht] <;> trivial) id
  | beginWait ht => exact hs.release (by rcases ht with ht | ht <;> rw [ht] <;> trivial) id
  | giveUp ht => exact hs.move (by simp [ht, Pc.Inside])
  | woken ht => exact hs.move (by simp [ht, Pc.Inside])
  | setFree ht => exact hs.release (by rw [ht]; trivial) id
  | wake ht => exact hs.move (by simp [ht, Pc.Inside])
  | clear ht => exact hs.move (by simp [ht, Pc.Inside, State.loopAt])
  | cleared ht => exact hs.release (by rw [ht]; trivial) id
  | destroy ht => exact hs.move (by simp [ht, Pc.Inside, State.loopAt])
  | leak ht => exact hs.move (by simp [ht, Pc.Inside, State.loopAt])
  | clearBusy ht => exact hs.release (by rw [ht]; trivial) id
  | clearWaited ht => exact hs.move (by simp [ht, Pc.Inside])
  | recheck => exact hs
  | fault hfault => exact hs.move (iff_of_true trivial hfault.inside)

/-- A thread that is in none of the functions does not hold the lock. -/
def LockReturned (s : State) : Prop := ∀ t, s.thread t = .idle → s.lock ≠ some t

theorem lockReturned_of_guards {s : State} (hs : Threads.Guards s.lock Pc.Inside s.thread) :
    LockReturned s := by
  intro t ht hlock
  have hin := (hs t).mpr hlock
  rw [ht] at hin
  exact hin

/-- In every run from the initialisation, every call that has returned has given
the lock back if and only if no get_free retakes the lock after its wait and
finds the list shut down. -/
theorem run_lockReturned_iff {s s' : State} {tr : List (Transition State Act (List Event))}
    (h : bufferLts.Run s tr s') (hinit : bufferLts.init s) :
    (∀ t ∈ tr, LockReturned t.post) ↔ ∀ t ∈ tr, WaiterFindsOpen t.pre t.act := by
  have hstart : Threads.Guards s.lock Pc.Inside s.thread := by
    obtain rfl : s = State.initial := hinit
    exact fun t => iff_of_false id (by simp [State.initial])
  refine h.always_iff (I := LockReturned) (A := fun _ _ => True)
    (J := fun s => Threads.Guards s.lock Pc.Inside s.thread)
    (fun _ hs => lockReturned_of_guards hs) ?_ ?_ hstart (fun _ _ => trivial)
  · intro s a s' e hs _ hopen hstep
    exact (step_rules hstep).guards hs hopen
  · intro s a s' e hs _ hclosed hstep hreturned
    cases a with
    | run t =>
        simp only [WaiterFindsOpen, not_forall] at hclosed
        obtain ⟨ht, hflag⟩ := hclosed
        have hlock : s.lock = some t := (hs t).mp (by rw [ht]; trivial)
        simp only [bufferLts, State.step, State.run, ht, if_pos hflag, Option.some.injEq,
          Prod.mk.injEq] at hstep
        obtain ⟨rfl, -⟩ := hstep
        exact hreturned t (by simp [State.goto]) hlock
    | create | call | wait | recheck => exact hclosed trivial

/-- A waiter that is woken by a set_free and gets the buffer. -/
theorem run_lockReturned_iff_woken : ∃ tr s',
    bufferLts.Run State.initial tr s' ∧
    tr.map (·.act) = [.create 0, .call 0 (.append 0), .run 0, .run 0, .call 0 .getFree, .run 0,
      .run 0, .call 1 .getFree, .run 1, .run 1, .call 0 (.setFree 0), .run 0, .run 0, .wait 1 5,
      .run 1, .run 1] ∧
    [.returned 1 (.buffer 0)] ∈ tr.map (·.out) ∧ ∀ t ∈ tr, LockReturned t.post := by
  obtain ⟨tr, s', hrun, hacts, hend⟩ := Lts.Run.of_exec_map (M := bufferLts)
    (g := fun r => (r.1.all fun t => decide (WaiterFindsOpen t.pre t.act),
      decide ([Event.returned 1 (.buffer 0)] ∈ r.1.map (·.out)))) (v := (true, true))
    (s := State.initial)
    (l := [.create 0, .call 0 (.append 0), .run 0, .run 0, .call 0 .getFree, .run 0, .run 0,
      .call 1 .getFree, .run 1, .run 1, .call 0 (.setFree 0), .run 0, .run 0, .wait 1 5, .run 1,
      .run 1]) (by decide +kernel)
  obtain ⟨hopen, hgot⟩ := Prod.mk.inj hend
  exact ⟨tr, s', hrun, hacts, of_decide_eq_true hgot,
    (run_lockReturned_iff hrun rfl).mpr (by simpa using hopen)⟩

/-- The list is cleared while thread 1 waits for the only buffer. The buffer is
given back, thread 1 wakes up, and its get_free returns with the lock held. -/
theorem getFree_returns_locked : ∃ tr s',
    bufferLts.Run State.initial tr s' ∧
    tr.map (·.act) = [.create 0, .call 0 (.append 0), .run 0, .run 0, .call 0 .getFree, .run 0,
      .run 0, .call 1 .getFree, .run 1, .run 1, .call 2 .clear, .run 2, .run 2, .run 2,
      .call 0 (.setFree 0), .run 0, .run 0, .wait 1 5, .run 1, .run 1] ∧
    s'.thread 1 = .idle ∧ s'.lock = some 1 ∧ ¬ ∀ t ∈ tr, LockReturned t.post := by
  obtain ⟨tr, s', hrun, hacts, hend⟩ := Lts.Run.of_exec_map (M := bufferLts)
    (g := fun r => (r.2.thread 1, r.2.lock)) (v := (.idle, some 1))
    (s := State.initial)
    (l := [.create 0, .call 0 (.append 0), .run 0, .run 0, .call 0 .getFree, .run 0, .run 0,
      .call 1 .getFree, .run 1, .run 1, .call 2 .clear, .run 2, .run 2, .run 2,
      .call 0 (.setFree 0), .run 0, .run 0, .wait 1 5, .run 1, .run 1]) (by decide +kernel)
  obtain ⟨hidle, hlock⟩ := Prod.mk.inj hend
  refine ⟨tr, s', hrun, hacts, hidle, hlock, fun hall => ?_⟩
  obtain ⟨t, ht, rfl⟩ := hrun.end_mem (by intro h; simp [h] at hacts)
  exact hall t ht 1 hidle hlock

end BufferList

end Gpcieuni
