-- SUMMARY: The list of DMA buffers of `pcieuni_buffer.c`: append, get_free, set_free, and clear as threads that are preempted at the list lock and at their waits.
import Gpcieuni.Lib.Lts
import Gpcieuni.Lib.Threads
import Gpcieuni.Kernel

/-!
# The buffer list

Any number of threads call the four functions. A thread can be preempted before
it takes the list lock, after it has taken it, in its wait, and after it has
dropped the lock; the loop of `pcieuni_bufferList_clear` can be preempted at
each turn. What runs under the lock in one go is one step.

A pointer that is null, freed, or poisoned by `list_del`, and the linking of an
entry that is already linked, send the thread to the point `fault`, from which
it does not return.
-/

namespace Gpcieuni

namespace BufferList

/-- The identity of a `pcieuni_buffer`. -/
abbrev BufId := Nat

/-! ## Buffers -/

/-- `BUFFER_STATE_AVAILABLE` and `BUFFER_STATE_WAITING` are written as masks, but
`set_bit`, `clear_bit` and `test_bit` take them as numbers of bits. -/
def bufferStateAvailable : Nat := 1 <<< 0

def bufferStateWaiting : Nat := 1 <<< 1

/-- The memory of a buffer: the field `state` while the buffer is allocated. -/
inductive Cell where
  | unborn
  | live (state : BitVec 64)
  | destroyed
  deriving DecidableEq, Repr

/-- The state that `pcieuni_buffer_create` leaves. -/
def createdState : BitVec 64 :=
  Word.clearBit bufferStateWaiting (Word.setBit bufferStateAvailable 0)

/-- The state after `pcieuni_bufferList_get_free` has reserved the buffer. -/
def reservedState (state : BitVec 64) : BitVec 64 :=
  Word.setBit bufferStateWaiting (Word.clearBit bufferStateAvailable state)

/-- The state after `pcieuni_bufferList_set_free`. -/
def freedState (state : BitVec 64) : BitVec 64 :=
  Word.setBit bufferStateAvailable (Word.clearBit bufferStateWaiting state)

/-! ## The state -/

/-- The `next` pointer of the entry `b`. It is `none` when it points to the head
of the list. -/
def after : List BufId → BufId → Option BufId
  | [], _ => none
  | a :: l, b => if a = b then l.head? else after l b

/-- Where a thread stands. A name that ends in `Lock` or `Relock` is the point
before a `spin_lock`, one that ends in `Wait` is inside `wait_event_timeout`. -/
inductive Pc where
  | idle
  | appendLock (b : BufId)
  | append (b : BufId)
  | getFreeLock
  | getFree
  | getFreeWait (b : BufId)
  | getFreeRelock
  | getFreeAgain
  | setFreeLock (b : BufId)
  | setFree (b : BufId)
  | setFreeWake
  | clearLock
  | clear
  | clearLoop (pos tpos : Option BufId) (code : Int)
  | clearWait (b : BufId) (tpos : Option BufId)
  | clearRelock (b : BufId) (tpos : Option BufId) (code : Int)
  | fault
  deriving DecidableEq, Repr

/-- The list with its lock, the memory of the buffers, and the threads. The last
four fields record what the callers have done. -/
structure State where
  cell : BufId → Cell
  list : List BufId
  next : Option BufId
  lock : Option Tid
  shutDownFlag : Int
  thread : Tid → Pc
  /-- The buffers that some caller has passed to append. -/
  appendCalled : BufId → Bool
  /-- Some append has returned. -/
  appendDone : Bool
  /-- The buffers that get_free has returned and that were not yet passed to set_free. -/
  held : BufId → Bool
  clearCalled : Bool

/-- A call of one of the four functions. -/
inductive Request where
  | append (b : BufId)
  | getFree
  | setFree (b : BufId)
  | clear
  deriving DecidableEq, Repr

/-- What a call returns. -/
inductive Ret where
  | void
  | buffer (b : BufId)
  | error (err : Int)
  deriving DecidableEq, Repr

inductive Event where
  | returned (t : Tid) (r : Ret)
  | destroyed (b : BufId)
  deriving DecidableEq, Repr

/-- The step that is taken next: a buffer is created, a call starts, a thread
runs on, a wait returns, or a waiting thread is woken and goes back to sleep. -/
inductive Act where
  | create (b : BufId)
  | call (t : Tid) (c : Request)
  | run (t : Tid)
  | wait (t : Tid) (code : Int)
  | recheck (t : Tid)
  deriving DecidableEq, Repr

namespace State

def goto (s : State) (t : Tid) (pc : Pc) : State :=
  { s with thread := Function.update s.thread t pc }

/-- `spin_lock`. It is disabled while somebody holds the lock. -/
def acquire (s : State) (t : Tid) (pc : Pc) : Option (State × List Event) :=
  if s.lock = none then some ({ s.goto t pc with lock := some t }, []) else none

/-- `spin_unlock`. -/
def unlock (s : State) (t : Tid) (pc : Pc) : State := { s.goto t pc with lock := none }

def fault (s : State) (t : Tid) : State × List Event := (s.goto t .fault, [])

/-- The buffer `b` is allocated. -/
def Live (s : State) (b : BufId) : Prop := ∃ state, s.cell b = .live state

instance (s : State) (b : BufId) : Decidable (s.Live b) :=
  match h : s.cell b with
  | .live state => isTrue ⟨state, h⟩
  | .unborn => isFalse fun ⟨_, hlive⟩ => Cell.noConfusion (h.symm.trans hlive)
  | .destroyed => isFalse fun ⟨_, hlive⟩ => Cell.noConfusion (h.symm.trans hlive)

/-! ## The functions -/

/-- `pcieuni_bufferList_append` under the lock. -/
def appendBody (s : State) (t : Tid) (b : BufId) : State × List Event :=
  match s.cell b with
  | .live _ =>
    if b ∉ s.list then
      let list := s.list ++ [b]
      ({ s.unlock t .idle with
          list
          next := if list.length = 1 then list.head? else s.next
          appendDone := true },
        [.returned t .void])
    else s.fault t
  | _ => s.fault t

/-- `pcieuni_bufferList_get_free` from the choice of a buffer on. The buffer is
handed out if it is available, otherwise the thread waits for it. -/
def takeNext (s : State) (t : Tid) : State × List Event :=
  match s.next with
  | none => s.fault t
  | some b =>
    match s.cell b with
    | .live state =>
      if Word.testBit bufferStateAvailable state then
        if b ∈ s.list then
          ({ s.unlock t .idle with
              cell := Function.update s.cell b (.live (reservedState state))
              next :=
                match after s.list b with
                | none => s.list.head?
                | some c => some c
              held := Function.update s.held b true },
            [.returned t (.buffer b)])
        else s.fault t
      else (s.unlock t (.getFreeWait b), [])
    | _ => s.fault t

/-- `pcieuni_bufferList_set_free` under the lock. -/
def setFreeBody (s : State) (t : Tid) (b : BufId) : State × List Event :=
  match s.cell b with
  | .live state =>
    ({ s.unlock t .setFreeWake with
        cell := Function.update s.cell b (.live (freedState state)) }, [])
  | _ => s.fault t

/-- The head of `list_for_each_safe`: the entry after `pos` is looked up before
the body runs. -/
def loopAt (list : List BufId) (pos : Option BufId) : Pc := .clearLoop pos (pos.bind (after list)) 1

/-- One turn of the loop of `pcieuni_bufferList_clear`. -/
def clearBody (s : State) (t : Tid) (pos tpos : Option BufId) (code : Int) : State × List Event :=
  match pos with
  | none => (s.unlock t .idle, [.returned t .void])
  | some b =>
    match s.cell b with
    | .live state =>
      if Word.testBit bufferStateAvailable state then
        if b ∈ s.list then
          let list := s.list.erase b
          let s := { s.goto t (loopAt list tpos) with list }
          if 0 < code then
            ({ s with cell := Function.update s.cell b .destroyed }, [.destroyed b])
          else (s, [])
        else s.fault t
      else (s.unlock t (.clearWait b tpos), [])
    | _ => s.fault t

/-- A thread outside of a wait runs on. -/
def run (s : State) (t : Tid) : Option (State × List Event) :=
  match s.thread t with
  | .appendLock b => s.acquire t (.append b)
  | .append b => some (s.appendBody t b)
  | .getFreeLock => s.acquire t .getFree
  | .getFree =>
    if s.shutDownFlag ≠ 0 then some (s.unlock t .idle, [.returned t (.error (-enomem))])
    else some (s.takeNext t)
  | .getFreeRelock => s.acquire t .getFreeAgain
  | .getFreeAgain =>
    -- this return has no `spin_unlock`
    if s.shutDownFlag ≠ 0 then some (s.goto t .idle, [.returned t (.error (-eintr))])
    else some (s.takeNext t)
  | .setFreeLock b => s.acquire t (.setFree b)
  | .setFree b => some (s.setFreeBody t b)
  | .setFreeWake => some (s.goto t .idle, [.returned t .void])
  | .clearLock => s.acquire t .clear
  | .clear => some ({ s.goto t (loopAt s.list s.list.head?) with shutDownFlag := 1 }, [])
  | .clearLoop pos tpos code => some (s.clearBody t pos tpos code)
  | .clearRelock b tpos code => s.acquire t (.clearLoop (some b) tpos code)
  | .idle | .getFreeWait _ | .clearWait .. | .fault => none

/-- The values that `wait_event_timeout` can return when it waits for `b`: zero
only while the buffer is not available, a positive value only when it is. The
callers expect a negative value too. The memory of a destroyed buffer can read as
anything. -/
def waitReturns (s : State) (b : BufId) (code : Int) : Bool :=
  match s.cell b with
  | .live state =>
    if Word.testBit bufferStateAvailable state then code ≠ 0 else code ≤ 0
  | _ => true

/-- `wait_event_timeout` returns `code` to the thread `t`. -/
def wait (s : State) (t : Tid) (code : Int) : Option (State × List Event) :=
  match s.thread t with
  | .getFreeWait b =>
    if s.waitReturns b code then
      if code = 0 then some (s.goto t .idle, [.returned t (.error (-ebusy))])
      else if code < 0 then some (s.goto t .idle, [.returned t (.error (-eintr))])
      else some (s.goto t .getFreeRelock, [])
    else none
  | .clearWait b tpos =>
    if s.waitReturns b code then some (s.goto t (.clearRelock b tpos code), []) else none
  | _ => none

/-- A waiting thread looks at its buffer and goes on waiting. -/
def recheck (s : State) (t : Tid) : Option (State × List Event) :=
  match s.thread t with
  | .getFreeWait b | .clearWait b _ => if s.waitReturns b 0 then some (s, []) else none
  | _ => none

/-- A call starts. -/
def call (s : State) (t : Tid) (c : Request) : Option (State × List Event) :=
  match s.thread t with
  | .idle =>
    match c with
    | .append b =>
      some ({ s.goto t (.appendLock b) with
        appendCalled := Function.update s.appendCalled b true }, [])
    | .getFree => some (s.goto t .getFreeLock, [])
    | .setFree b =>
      some ({ s.goto t (.setFreeLock b) with held := Function.update s.held b false }, [])
    | .clear => some ({ s.goto t .clearLock with clearCalled := true }, [])
  | _ => none

def step (s : State) : Act → Option (State × List Event)
  | .create b =>
    match s.cell b with
    | .unborn => some ({ s with cell := Function.update s.cell b (.live createdState) }, [])
    | _ => none
  | .call t c => s.call t c
  | .run t => s.run t
  | .wait t code => s.wait t code
  | .recheck t => s.recheck t

/-- `pcieuni_bufferList_init`, before any buffer exists. -/
def initial : State where
  cell _ := .unborn
  list := []
  next := none
  lock := none
  shutDownFlag := 0
  thread _ := .idle
  appendCalled _ := false
  appendDone := false
  held _ := false
  clearCalled := false

end State

/-- The buffer list from its initialisation on, under any calls of any threads. -/
def bufferLts : Lts State Act (List Event) where
  init s := s = State.initial
  step := State.step

/-- Every buffer is appended once, a buffer is given back once by whoever holds
it, and the list is cleared once. -/
def Orderly (s : State) : Act → Prop
  | .call _ (.append b) => s.Live b ∧ s.appendCalled b = false
  | .call _ (.setFree b) => s.held b = true
  | .call _ .clear => s.clearCalled = false
  | _ => True

/-- How the driver uses the list: every buffer is appended once, buffers are
asked for when some append has returned, a buffer is given back once by whoever
holds it, and the list is cleared once. -/
def Disciplined (s : State) : Act → Prop
  | .call _ (.append b) => s.Live b ∧ s.appendCalled b = false
  | .call _ .getFree => s.appendDone = true
  | .call _ (.setFree b) => s.held b = true
  | .call _ .clear => s.clearCalled = false
  | _ => True

instance (s : State) (a : Act) : Decidable (Disciplined s a) :=
  match a with
  | .call _ (.append b) => inferInstanceAs (Decidable (s.Live b ∧ s.appendCalled b = false))
  | .call _ .getFree => inferInstanceAs (Decidable (s.appendDone = true))
  | .call _ (.setFree b) => inferInstanceAs (Decidable (s.held b = true))
  | .call _ .clear => inferInstanceAs (Decidable (s.clearCalled = false))
  | .create _ | .run _ | .wait .. | .recheck _ => isTrue trivial

instance (s : State) (a : Act) : Decidable (Orderly s a) :=
  match a with
  | .call _ (.append b) => inferInstanceAs (Decidable (s.Live b ∧ s.appendCalled b = false))
  | .call _ (.setFree b) => inferInstanceAs (Decidable (s.held b = true))
  | .call _ .clear => inferInstanceAs (Decidable (s.clearCalled = false))
  | .call _ .getFree | .create _ | .run _ | .wait .. | .recheck _ => isTrue trivial

theorem Disciplined.orderly {s : State} {a : Act} (h : Disciplined s a) : Orderly s a := by
  cases a with
  | call t c =>
      cases c with
      | getFree => exact trivial
      | append | setFree | clear => exact h
  | create | run | wait | recheck => exact trivial

/-! ## The steps as rules -/

/-- The point behind the `spin_lock` that a thread is about to take. -/
def Pc.behindLock : Pc → Option Pc
  | .appendLock b => some (.append b)
  | .getFreeLock => some .getFree
  | .getFreeRelock => some .getFreeAgain
  | .setFreeLock b => some (.setFree b)
  | .clearLock => some .clear
  | .clearRelock b tpos code => some (.clearLoop (some b) tpos code)
  | _ => none

/-- What makes a thread fault at its point. -/
def State.Faulty (s : State) : Pc → Prop
  | .append b => ¬ s.Live b ∨ b ∈ s.list
  | .getFree | .getFreeAgain => s.shutDownFlag = 0 ∧ ∀ b ∈ s.next, s.Live b → b ∉ s.list
  | .setFree b => ¬ s.Live b
  | .clearLoop (some b) _ _ => ¬ s.Live b ∨ b ∉ s.list
  | _ => False

/-- The steps of the list, one rule for each kind. -/
inductive Step (s : State) : Act → State → List Event → Prop where
  | create {b : BufId} (hcell : s.cell b = .unborn) :
      Step s (.create b) { s with cell := Function.update s.cell b (.live createdState) } []
  | callAppend {t : Tid} {b : BufId} (ht : s.thread t = .idle) :
      Step s (.call t (.append b)) { s.goto t (.appendLock b) with
        appendCalled := Function.update s.appendCalled b true } []
  | callGetFree {t : Tid} (ht : s.thread t = .idle) :
      Step s (.call t .getFree) (s.goto t .getFreeLock) []
  | callSetFree {t : Tid} {b : BufId} (ht : s.thread t = .idle) :
      Step s (.call t (.setFree b)) { s.goto t (.setFreeLock b) with
        held := Function.update s.held b false } []
  | callClear {t : Tid} (ht : s.thread t = .idle) :
      Step s (.call t .clear) { s.goto t .clearLock with clearCalled := true } []
  | lock {t : Tid} {pc : Pc} (ht : (s.thread t).behindLock = some pc) (hlock : s.lock = none) :
      Step s (.run t) { s.goto t pc with lock := some t } []
  | append {t : Tid} {b : BufId} (ht : s.thread t = .append b) (hlive : s.Live b)
      (hnew : b ∉ s.list) :
      Step s (.run t) { s.unlock t .idle with
        list := s.list ++ [b]
        next := if (s.list ++ [b]).length = 1 then (s.list ++ [b]).head? else s.next
        appendDone := true } [.returned t .void]
  | refuse {t : Tid} (ht : s.thread t = .getFree) (hflag : s.shutDownFlag ≠ 0) :
      Step s (.run t) (s.unlock t .idle) [.returned t (.error (-enomem))]
  | refuseLocked {t : Tid} (ht : s.thread t = .getFreeAgain) (hflag : s.shutDownFlag ≠ 0) :
      Step s (.run t) (s.goto t .idle) [.returned t (.error (-eintr))]
  | handOut {t : Tid} {b : BufId} {state : BitVec 64}
      (ht : s.thread t = .getFree ∨ s.thread t = .getFreeAgain) (hflag : s.shutDownFlag = 0)
      (hnext : s.next = some b) (hcell : s.cell b = .live state)
      (havail : Word.testBit bufferStateAvailable state = true) (hmem : b ∈ s.list) :
      Step s (.run t) { s.unlock t .idle with
        cell := Function.update s.cell b (.live (reservedState state))
        next :=
          match after s.list b with
          | none => s.list.head?
          | some c => some c
        held := Function.update s.held b true } [.returned t (.buffer b)]
  | beginWait {t : Tid} {b : BufId} {state : BitVec 64}
      (ht : s.thread t = .getFree ∨ s.thread t = .getFreeAgain) (hflag : s.shutDownFlag = 0)
      (hnext : s.next = some b) (hcell : s.cell b = .live state)
      (havail : Word.testBit bufferStateAvailable state = false) :
      Step s (.run t) (s.unlock t (.getFreeWait b)) []
  | giveUp {t : Tid} {b : BufId} {code : Int} (ht : s.thread t = .getFreeWait b)
      (hwait : s.waitReturns b code = true) (hcode : code ≤ 0) :
      Step s (.wait t code) (s.goto t .idle)
        [.returned t (.error (if code = 0 then -ebusy else -eintr))]
  | woken {t : Tid} {b : BufId} {code : Int} (ht : s.thread t = .getFreeWait b)
      (hwait : s.waitReturns b code = true) (hcode : 0 < code) :
      Step s (.wait t code) (s.goto t .getFreeRelock) []
  | setFree {t : Tid} {b : BufId} {state : BitVec 64} (ht : s.thread t = .setFree b)
      (hcell : s.cell b = .live state) :
      Step s (.run t) { s.unlock t .setFreeWake with
        cell := Function.update s.cell b (.live (freedState state)) } []
  | wake {t : Tid} (ht : s.thread t = .setFreeWake) :
      Step s (.run t) (s.goto t .idle) [.returned t .void]
  | clear {t : Tid} (ht : s.thread t = .clear) :
      Step s (.run t) { s.goto t (State.loopAt s.list s.list.head?) with shutDownFlag := 1 } []
  | cleared {t : Tid} {tpos : Option BufId} {code : Int} (ht : s.thread t = .clearLoop none tpos code) :
      Step s (.run t) (s.unlock t .idle) [.returned t .void]
  | destroy {t : Tid} {b : BufId} {tpos : Option BufId} {code : Int} {state : BitVec 64}
      (ht : s.thread t = .clearLoop (some b) tpos code) (hcell : s.cell b = .live state)
      (havail : Word.testBit bufferStateAvailable state = true) (hmem : b ∈ s.list)
      (hcode : 0 < code) :
      Step s (.run t) { s.goto t (State.loopAt (s.list.erase b) tpos) with
        list := s.list.erase b
        cell := Function.update s.cell b .destroyed } [.destroyed b]
  | leak {t : Tid} {b : BufId} {tpos : Option BufId} {code : Int} {state : BitVec 64}
      (ht : s.thread t = .clearLoop (some b) tpos code) (hcell : s.cell b = .live state)
      (havail : Word.testBit bufferStateAvailable state = true) (hmem : b ∈ s.list)
      (hcode : code ≤ 0) :
      Step s (.run t) { s.goto t (State.loopAt (s.list.erase b) tpos) with
        list := s.list.erase b } []
  | clearBusy {t : Tid} {b : BufId} {tpos : Option BufId} {code : Int} {state : BitVec 64}
      (ht : s.thread t = .clearLoop (some b) tpos code) (hcell : s.cell b = .live state)
      (havail : Word.testBit bufferStateAvailable state = false) :
      Step s (.run t) (s.unlock t (.clearWait b tpos)) []
  | clearWaited {t : Tid} {b : BufId} {tpos : Option BufId} {code : Int}
      (ht : s.thread t = .clearWait b tpos) (hwait : s.waitReturns b code = true) :
      Step s (.wait t code) (s.goto t (.clearRelock b tpos code)) []
  | recheck {t : Tid} {b : BufId}
      (ht : s.thread t = .getFreeWait b ∨ ∃ tpos, s.thread t = .clearWait b tpos)
      (hwait : s.waitReturns b 0 = true) :
      Step s (.recheck t) s []
  | fault {t : Tid} (hfault : s.Faulty (s.thread t)) : Step s (.run t) (s.goto t .fault) []

namespace Step

theorem of_acquire {s s' : State} {t : Tid} {pc : Pc} {out : List Event}
    (hpc : (s.thread t).behindLock = some pc) (h : s.acquire t pc = some (s', out)) :
    Step s (.run t) s' out := by
  simp only [State.acquire] at h
  split at h
  · rename_i hlock
    cases h
    exact .lock hpc hlock
  · cases h

theorem of_appendBody {s : State} {t : Tid} {b : BufId} (ht : s.thread t = .append b) :
    Step s (.run t) (s.appendBody t b).1 (s.appendBody t b).2 := by
  simp only [State.appendBody]
  split
  · rename_i state hcell
    split
    · rename_i hnew
      exact .append ht ⟨state, hcell⟩ hnew
    · rename_i hold
      apply Step.fault
      rw [ht]
      exact .inr (by simpa using hold)
  · rename_i hcell
    apply Step.fault
    rw [ht]
    exact .inl fun ⟨state, hlive⟩ => hcell state hlive

theorem of_takeNext {s : State} {t : Tid} (ht : s.thread t = .getFree ∨ s.thread t = .getFreeAgain)
    (hflag : s.shutDownFlag = 0) : Step s (.run t) (s.takeNext t).1 (s.takeNext t).2 := by
  have hfault : (∀ b ∈ s.next, s.Live b → b ∉ s.list) → Step s (.run t) (s.goto t .fault) [] := by
    intro hwhy
    apply Step.fault
    rcases ht with ht | ht <;> rw [ht] <;> exact ⟨hflag, hwhy⟩
  simp only [State.takeNext]
  split
  · rename_i hnext
    apply hfault
    intro b hb
    rw [hnext] at hb
    cases hb
  · rename_i b hnext
    split
    · rename_i state hcell
      split
      · rename_i havail
        split
        · rename_i hmem
          exact .handOut ht hflag hnext hcell havail hmem
        · rename_i hmem
          apply hfault
          intro b' hb' _
          obtain rfl : b = b' := Option.some.inj (hnext.symm.trans hb')
          exact hmem
      · rename_i havail
        exact .beginWait ht hflag hnext hcell (by simpa using havail)
    · rename_i hcell
      refine hfault fun b' hb' ⟨state, hlive⟩ => ?_
      obtain rfl : b = b' := Option.some.inj (hnext.symm.trans hb')
      exact absurd hlive (hcell state)

theorem of_clearBody {s : State} {t : Tid} {pos tpos : Option BufId} {code : Int}
    (ht : s.thread t = .clearLoop pos tpos code) :
    Step s (.run t) (s.clearBody t pos tpos code).1 (s.clearBody t pos tpos code).2 := by
  simp only [State.clearBody]
  split
  · exact .cleared ht
  · rename_i b
    split
    · rename_i state hcell
      split
      · rename_i havail
        split
        · rename_i hmem
          split
          · rename_i hcode
            exact .destroy ht hcell havail hmem hcode
          · rename_i hcode
            exact .leak ht hcell havail hmem (by omega)
        · rename_i hmem
          apply Step.fault
          rw [ht]
          exact .inr hmem
      · rename_i havail
        exact .clearBusy ht hcell (by simpa using havail)
    · rename_i hcell
      apply Step.fault
      rw [ht]
      exact .inl fun ⟨state, hlive⟩ => hcell state hlive

/-- A thread that runs on follows one of the rules. -/
theorem of_run {s s' : State} {t : Tid} {out : List Event} (h : s.run t = some (s', out)) :
    Step s (.run t) s' out := by
  have hbody : ∀ r : State × List Event, some r = some (s', out) → Step s (.run t) r.1 r.2 →
      Step s (.run t) s' out := by
    rintro r hr hstep
    cases hr
    exact hstep
  simp only [State.run] at h
  split at h
  · rename_i b ht
    exact of_acquire (by rw [ht]; rfl) h
  · rename_i b ht
    exact hbody _ h (of_appendBody ht)
  · rename_i ht
    exact of_acquire (by rw [ht]; rfl) h
  · rename_i ht
    split at h
    · rename_i hflag
      exact hbody _ h (.refuse ht hflag)
    · rename_i hflag
      exact hbody _ h (of_takeNext (.inl ht) (by simpa using hflag))
  · rename_i ht
    exact of_acquire (by rw [ht]; rfl) h
  · rename_i ht
    split at h
    · rename_i hflag
      exact hbody _ h (.refuseLocked ht hflag)
    · rename_i hflag
      exact hbody _ h (of_takeNext (.inr ht) (by simpa using hflag))
  · rename_i b ht
    exact of_acquire (by rw [ht]; rfl) h
  · rename_i b ht
    apply hbody _ h
    simp only [State.setFreeBody]
    split
    · rename_i state hcell
      exact .setFree ht hcell
    · rename_i hcell
      apply Step.fault
      rw [ht]
      exact fun ⟨state, hlive⟩ => hcell state hlive
  · rename_i ht
    exact hbody _ h (.wake ht)
  · rename_i ht
    exact of_acquire (by rw [ht]; rfl) h
  · rename_i ht
    exact hbody _ h (.clear ht)
  · rename_i pos tpos code ht
    exact hbody _ h (of_clearBody ht)
  · rename_i b tpos code ht
    exact of_acquire (by rw [ht]; rfl) h
  all_goals cases h

theorem of_wait {s s' : State} {t : Tid} {code : Int} {out : List Event}
    (h : s.wait t code = some (s', out)) : Step s (.wait t code) s' out := by
  simp only [State.wait] at h
  split at h
  · rename_i b ht
    split at h
    · rename_i hwait
      split at h
      · rename_i hcode
        cases h
        have hstep := Step.giveUp ht hwait hcode.le
        rwa [if_pos hcode] at hstep
      · rename_i hcode
        split at h
        · rename_i hneg
          cases h
          have hstep := Step.giveUp ht hwait hneg.le
          rwa [if_neg hcode] at hstep
        · rename_i hneg
          cases h
          exact .woken ht hwait (by omega)
    · cases h
  · rename_i b tpos ht
    split at h
    · rename_i hwait
      cases h
      exact .clearWaited ht hwait
    · cases h
  · cases h

theorem of_call {s s' : State} {t : Tid} {c : Request} {out : List Event}
    (h : s.call t c = some (s', out)) : Step s (.call t c) s' out := by
  simp only [State.call] at h
  split at h
  · rename_i ht
    cases c with
    | append b => cases h; exact .callAppend ht
    | getFree => cases h; exact .callGetFree ht
    | setFree b => cases h; exact .callSetFree ht
    | clear => cases h; exact .callClear ht
  · cases h

theorem of_recheck {s s' : State} {t : Tid} {out : List Event}
    (h : s.recheck t = some (s', out)) : Step s (.recheck t) s' out := by
  simp only [State.recheck] at h
  split at h
  · rename_i b ht
    split at h
    · rename_i hwait
      cases h
      exact .recheck (.inl ht) hwait
    · cases h
  · rename_i b tpos ht
    split at h
    · rename_i hwait
      cases h
      exact .recheck (.inr ⟨tpos, ht⟩) hwait
    · cases h
  · cases h

end Step

/-- Every step of the system follows one of the rules. -/
theorem step_rules {s s' : State} {a : Act} {out : List Event}
    (h : bufferLts.step s a = some (s', out)) : Step s a s' out := by
  cases a with
  | create b =>
      simp only [bufferLts, State.step] at h
      split at h
      · rename_i hcell
        cases h
        exact .create hcell
      · cases h
  | call t c => exact .of_call h
  | run t => exact .of_run h
  | wait t code => exact .of_wait h
  | recheck t => exact .of_recheck h

end BufferList

end Gpcieuni
