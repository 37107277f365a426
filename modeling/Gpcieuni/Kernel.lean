-- SUMMARY: What the driver model takes from the Linux kernel: error numbers, the ways a call can fail to return, mutexes, and user copies.
import Gpcieuni.Lib.Word

/-!
# The kernel interface

The driver is modelled as functions on explicit state. Everything the kernel,
the hardware, or user space decides during a call is an argument of the call.
-/

namespace Gpcieuni

/-! ## Error numbers -/

def eintr : Int := 4
def enomem : Int := 12
def efault : Int := 14
def ebusy : Int := 16
def enotty : Int := 25
def erestartsys : Int := 512

/-! ## Calls that do not return -/

/-- Why a call has no result: it waits for a lock that nobody will release, it
follows a pointer that is null or dangling, or it has not finished within the
number of loop iterations it was given. -/
inductive Stuck where
  | blocked
  | oops
  | unfinished
  deriving DecidableEq, Repr

abbrev Call (α : Type) := Except Stuck α

/-- The identity of a thread in the kernel. -/
abbrev Tid := Nat

/-! ## Mutexes -/

inductive LockOutcome where
  | acquired
  | interrupted
  | blocked
  deriving DecidableEq, Repr

/-- An attempt to take a mutex. `held` says that somebody holds it, `intr` that
a signal ends the attempt. -/
def mutexLockInterruptible (held intr : Bool) : LockOutcome :=
  if intr then .interrupted else if held then .blocked else .acquired

/-- `mutex_lock` does not listen to signals. -/
def mutexLock (held : Bool) : LockOutcome := mutexLockInterruptible held false

theorem mutexLockInterruptible_acquired {held intr : Bool} :
    mutexLockInterruptible held intr = .acquired ↔ held = false ∧ intr = false := by
  cases held <;> cases intr <;> decide

theorem mutexLockInterruptible_interrupted {held intr : Bool} :
    mutexLockInterruptible held intr = .interrupted ↔ intr = true := by
  cases held <;> cases intr <;> decide

theorem mutexLockInterruptible_free (intr : Bool) :
    mutexLockInterruptible false intr ≠ .blocked := by
  cases intr <;> decide

theorem mutexLockInterruptible_held (intr : Bool) :
    mutexLockInterruptible true intr ≠ .acquired := by
  cases intr <;> decide

theorem mutexLock_acquired {held : Bool} : mutexLock held = .acquired ↔ held = false := by
  simp [mutexLock, mutexLockInterruptible_acquired]

/-! ## User copies -/

/-- The bytes of a user buffer, indexed from the pointer the caller passed. -/
abbrev UserMem := Nat → BitVec 8

/-- `copy_to_user` of one word to byte `off` of the buffer when it leaves `left`
of the four bytes uncopied. It copies from the front. -/
def copyToUser (left : Nat) (buf : UserMem) (off : Nat) (w : BitVec 32) : UserMem := fun i =>
  if off ≤ i ∧ i < off + (4 - left) then Word.byte w (i - off) else buf i

/-- The word that a complete `copy_from_user` reads at byte `off`. -/
def copyFromUser (buf : UserMem) (off : Nat) : BitVec 32 := Word.ofBytes fun i => buf (off + i)

theorem copyToUser_outside {left : Nat} {buf : UserMem} {off i : Nat} {w : BitVec 32}
    (h : i < off ∨ off + 4 ≤ i) : copyToUser left buf off w i = buf i := by
  simp only [copyToUser]
  rw [if_neg (by omega)]

theorem copyToUser_inside {buf : UserMem} {off i : Nat} {w : BitVec 32} (hi : i < 4) :
    copyToUser 0 buf off w (off + i) = Word.byte w i := by
  simp [copyToUser, hi]

end Gpcieuni
