-- SUMMARY: A memory and the log of its writes: replaying the log leaves in each cell what was written to it last.
import Mathlib.Logic.Function.Basic
import Mathlib.Data.List.Induction

/-!
# Write logs

The events of a log may write a cell of a memory. The memory after the log is the
memory before it with the writes done in their order (`replay`), and a cell holds the
value of the last event that wrote it (`replay_apply`).
-/

namespace WriteLog

variable {ε κ ν : Type} [DecidableEq κ]

/-- The memory after one event. -/
def step (write : ε → Option (κ × ν)) (mem : κ → ν) (e : ε) : κ → ν :=
  match write e with
  | none => mem
  | some (k, v) => Function.update mem k v

/-- The memory after all events of a log. -/
def replay (write : ε → Option (κ × ν)) (mem : κ → ν) (log : List ε) : κ → ν :=
  log.foldl (step write) mem

/-- What an event writes to the cell `k`. -/
def writesTo (write : ε → Option (κ × ν)) (k : κ) (e : ε) : Option ν :=
  match write e with
  | none => none
  | some (k', v) => if k' = k then some v else none

/-- What the last event of a log that writes the cell `k` writes to it. -/
def last (write : ε → Option (κ × ν)) (log : List ε) (k : κ) : Option ν :=
  log.reverse.findSome? (writesTo write k)

section Lemmas

variable {write : ε → Option (κ × ν)} {mem : κ → ν} {log log' : List ε} {e : ε} {k : κ}

@[simp] theorem replay_nil : replay write mem [] = mem := rfl

theorem replay_cons : replay write mem (e :: log) = replay write (step write mem e) log := rfl

theorem replay_append :
    replay write mem (log ++ log') = replay write (replay write mem log) log' :=
  List.foldl_append

theorem step_of_none (h : write e = none) : step write mem e = mem := by
  simp only [step, h]

/-- A log without writes leaves the memory as it is. -/
theorem replay_of_none (h : ∀ e ∈ log, write e = none) : replay write mem log = mem := by
  induction log with
  | nil => rfl
  | cons e log ih =>
      rw [replay_cons, step_of_none (h e (List.mem_cons_self ..))]
      exact ih fun e he => h e (List.mem_cons_of_mem _ he)

theorem step_apply : step write mem e k = (writesTo write k e).getD (mem k) := by
  simp only [step, writesTo]
  cases write e with
  | none => rfl
  | some w =>
      by_cases hk : w.1 = k
      · subst hk
        simp
      · simp [hk, Function.update_of_ne (Ne.symm hk)]

/-- The last write wins. -/
theorem replay_apply : replay write mem log k = (last write log k).getD (mem k) := by
  induction log using List.reverseRecOn generalizing mem with
  | nil => rfl
  | append_singleton log e ih =>
      rw [replay_append, replay_cons, replay_nil, step_apply, ih]
      cases hw : writesTo write k e with
      | none => simp [last, hw]
      | some v => simp [last, hw]

end Lemmas

end WriteLog
