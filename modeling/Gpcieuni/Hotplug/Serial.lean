-- SUMMARY: Reads and writes as atomic operations: under any interleaving, the calls that have returned are the sequential calls in the order of their return.
import Gpcieuni.Hotplug.Unmapped

/-!
# Serial transfers

The words of a transfer are accessed one by one, and any other thread can run in
between. The device mutex keeps the loops of two transfers apart, so the outcome
is the one of whole calls made one after the other. What a call does not take
under the mutex is its check: it is made on the struct as it was before.
-/

namespace Gpcieuni

namespace Hotplug

/-! ## What is recorded of a run -/

/-- A call of the read or write entry point, and the struct that its check saw. -/
structure Request where
  dir : Direction
  dv : PcieuniDev
  count : BitVec 64
  pos : BitVec 64

/-- The struct with its mutex free. -/
def Request.freeDev (req : Request) : PcieuniDev := { req.dv with devMut := false }

/-- The check does not look at the mutex. -/
theorem Request.check_freeDev (req : Request) (count pos : BitVec 64) :
    checkAndCalculateTransferInformation req.freeDev count pos =
      checkAndCalculateTransferInformation req.dv count pos := rfl

/-- A call that has returned: its value, the file position that it leaves, and the words
that it has moved. -/
structure Returned where
  req : Request
  ret : Int
  fPos : BitVec 64
  words : List (BitVec 32)

/-- The last request of each thread, the words that the transfer under the mutex
has moved, and the calls that have returned, in the order of their return. -/
structure History where
  request : Tid → Request
  moved : List (BitVec 32)
  returned : List Returned

namespace History

/-- Nothing has happened, and the request of a thread means nothing. -/
def empty : History := ⟨fun _ => ⟨.read, {}, 0, 0⟩, [], []⟩

/-- The call of thread `u` returns an error and leaves its file position alone. -/
def fail (h : History) (u : Tid) (err : Int) : History :=
  { h with returned := h.returned ++ [⟨h.request u, err, (h.request u).pos, []⟩] }

/-- The call of thread `u` returns the byte count `n` and adds it to its file position. -/
def close (h : History) (u : Tid) (n : BitVec 32) : History :=
  { h with returned := h.returned ++
      [⟨h.request u, n.toNat, (h.request u).pos + n.setWidth 64, h.moved⟩] }

/-- What one step adds to the history. -/
def note (h : History) (t : Transition State Act (List Effect)) : History :=
  match t.act with
  | .check u dir count pos =>
    let h := { h with request := Function.update h.request u ⟨dir, t.pre.dv, count, pos⟩ }
    match checkAndCalculateTransferInformation t.pre.dv count pos with
    | .inl err => h.fail u err
    | .inr _ => h
  | .lock u intr => if intr then h.fail u (-erestartsys) else { h with moved := [] }
  | .word u fault w =>
    match t.pre.thread u with
    | .transferring dir ti n =>
      if n < ti.nBytesToTransfer ∧ fault = false then
        let word :=
          match dir with
          | .read => t.pre.regs.ioread32 ti.barStart (ti.wordOffset n)
          | .write => w
        { h with moved := h.moved ++ [word] }
      else h.close u n
    | _ => h
  | .probe .. | .removeLock _ | .remove _ => h

end History

/-- The history of a run. -/
def history (tr : List (Transition State Act (List Effect))) : History :=
  tr.foldl History.note .empty

/-! ## The sequential meaning -/

/-- The words are in the user buffer, one after the other. -/
def Holds (buf : UserMem) (ws : List (BitVec 32)) : Prop :=
  ∀ j w, ws[j]? = some w → ∀ b < 4, buf (4 * j + b) = Word.byte w b

/-- The call `c` is the sequential call on the struct that its check saw and on the
registers `regs`, and leaves `regs'`: it returns the same value and leaves the same file
position. A read puts the words of `c` into the user buffer and changes nothing behind
the word at which it stops; a write does so from every buffer that holds the words. -/
def Returned.Alone (c : Returned) (regs regs' : Regs) : Prop :=
  (c.ret < 0 ∧ c.words = [] ∧ c.fPos = c.req.pos ∨
    c.ret = 4 * c.words.length ∧
      c.fPos = c.req.pos + BitVec.ofNat 64 (4 * c.words.length)) ∧
  match c.req.dir with
  | .read => regs' = regs ∧ ∃ env, ∀ buf, ∃ r,
      pcieuniReadNoStructExp env regs c.req.freeDev buf c.req.count c.req.pos =
        .ok (c.req.freeDev, r) ∧
        r.ret = c.ret ∧ r.fPos = c.fPos ∧ Holds r.buf c.words ∧
        ∀ b, 4 * (c.words.length + 1) ≤ b → r.buf b = buf b
  | .write => (∃ buf, Holds buf c.words) ∧ ∃ env, ∀ buf, Holds buf c.words → ∃ r,
      pcieuniWriteNoStructExp env regs c.req.freeDev buf c.req.count c.req.pos =
        .ok (c.req.freeDev, r) ∧
        r.ret = c.ret ∧ r.fPos = c.fPos ∧ r.regs = regs'

/-- The calls are made one after the other, each alone. -/
inductive Serially (regs : Regs) : List Returned → Regs → Prop where
  | nil : Serially regs [] regs
  | snoc {cs : List Returned} {c : Returned} {regs₁ regs₂ : Regs} :
      Serially regs cs regs₁ → c.Alone regs₁ regs₂ → Serially regs (cs ++ [c]) regs₂

/-! ## The words of one transfer -/

/-- The number of words in a transfer: its byte count, rounded up by the loops. -/
def wordCount (ti : TransferInformation) : Nat := (ti.nBytesToTransfer.toNat + 3) / 4

/-- A count that the VFS lets through keeps the counter of the loops from wrapping. -/
theorem covers_of_count {dv : PcieuniDev} {count pos : BitVec 64} {ti : TransferInformation}
    (hcheck : checkAndCalculateTransferInformation dv count pos = .inr ti)
    (hcount : count.toNat ≤ 0x7ffff000) : ti.Covers ti.offset.toNat (wordCount ti) := by
  obtain ⟨n, hacc⟩ := check_inr hcheck
  have hoff := hacc.offset
  have haligned := hacc.posAligned
  have hadd : (ti.offset + count).toNat = ti.offset.toNat + count.toNat := by
    rw [BitVec.toNat_add]
    omega
  have hbytes : ti.nBytesToTransfer.toNat ≤ count.toNat := by
    rw [hacc.nBytes]
    split
    · rename_i hclip
      rw [BitVec.lt_def, hadd] at hclip
      rw [BitVec.toNat_setWidth, BitVec.toNat_sub_of_le (BitVec.le_def.mpr hacc.offset_le)]
      omega
    · rw [BitVec.toNat_setWidth]
      exact Nat.mod_le _ _
  unfold wordCount
  exact ⟨rfl, by omega, fun i => by omega, by omega, by omega⟩

/-- The words `ws` are those that a transfer has moved since the registers were `regs`. -/
def Moved (dir : Direction) (ti : TransferInformation) (ws : List (BitVec 32))
    (regs regs' : Regs) : Prop :=
  match dir with
  | .read => regs' = regs ∧
      ∀ j w, ws[j]? = some w → wordAt regs ti.barStart ti.offset.toNat j = w
  | .write => (∀ j w, ws[j]? = some w → wordAt regs' ti.barStart ti.offset.toNat j = w) ∧
      ∀ d b (off : Int), ¬ (d = ti.barStart.dev ∧ b = ti.barStart.bar ∧
        ∃ j < ws.length, off = (ti.offset.toNat + 4 * j : Nat)) → regs' d b off = regs d b off

theorem getElem?_snoc {ws : List (BitVec 32)} {v w : BitVec 32} {j : Nat}
    (h : (ws ++ [w])[j]? = some v) : ws[j]? = some v ∨ (j = ws.length ∧ v = w) := by
  rcases Nat.lt_trichotomy j ws.length with hlt | rfl | hgt
  · exact .inl (by rwa [List.getElem?_append_left hlt] at h)
  · exact .inr ⟨rfl, by simpa using h.symm⟩
  · rw [List.getElem?_eq_none (by simp; omega)] at h
    cases h

namespace Moved

variable {dir : Direction} {ti : TransferInformation} {ws : List (BitVec 32)} {regs regs' : Regs}

theorem nil : Moved dir ti [] regs regs := by
  cases dir with
  | read => exact ⟨rfl, fun j w hw => by simp at hw⟩
  | write => exact ⟨fun j w hw => by simp at hw, fun _ _ _ _ => rfl⟩

theorem read_snoc (h : Moved .read ti ws regs regs') :
    Moved .read ti (ws ++ [wordAt regs' ti.barStart ti.offset.toNat ws.length]) regs regs' := by
  obtain ⟨rfl, hwords⟩ := h
  refine ⟨rfl, fun j w hw => ?_⟩
  rcases getElem?_snoc hw with hold | ⟨rfl, rfl⟩
  · exact hwords j w hold
  · rfl

theorem write_snoc (h : Moved .write ti ws regs regs') (w : BitVec 32) :
    Moved .write ti (ws ++ [w]) regs
      (regs'.iowrite32 ti.barStart (ti.offset.toNat + 4 * ws.length : Nat) w) := by
  obtain ⟨hwords, hframe⟩ := h
  refine ⟨fun j v hv => ?_, fun d b off hout => ?_⟩
  · rcases getElem?_snoc hv with hold | ⟨rfl, rfl⟩
    · have hlt : j < ws.length := (List.getElem?_eq_some_iff.mp hold).1
      rw [wordAt, Regs.iowrite32_ne (by omega)]
      exact hwords j v hold
    · rw [wordAt, Regs.iowrite32_same]
  · rw [Regs.iowrite32_ne, hframe d b off]
    · rintro ⟨hd, hb, j, hj, hoff⟩
      exact hout ⟨hd, hb, j, by simp; omega, hoff⟩
    · rintro ⟨hd, hb, hoff⟩
      exact hout ⟨hd, hb, ws.length, by simp, hoff⟩

end Moved

/-- The buffer that holds the words `ws`. -/
def bufferOf (ws : List (BitVec 32)) : UserMem := fun i => Word.byte (ws.getD (i / 4) 0) (i % 4)

theorem holds_bufferOf (ws : List (BitVec 32)) : Holds (bufferOf ws) ws := by
  intro j w h b hb
  simp only [bufferOf, show (4 * j + b) / 4 = j by omega, show (4 * j + b) % 4 = b by omega,
    List.getD_eq_getElem?_getD, h, Option.getD_some]

theorem Holds.copyFromUser {buf : UserMem} {ws : List (BitVec 32)} (hbuf : Holds buf ws) {j : Nat}
    {w : BitVec 32} (h : ws[j]? = some w) : copyFromUser buf (4 * j) = w := by
  rw [← Word.ofBytes_byte w]
  simp only [Gpcieuni.copyFromUser, Word.ofBytes]
  have hbytes := hbuf j w h
  rw [← hbytes 0 (by omega), ← hbytes 1 (by omega), ← hbytes 2 (by omega), ← hbytes 3 (by omega)]

/-- What a finished transfer has moved is what the sequential call moves. -/
theorem Moved.alone {req : Request} {ti : TransferInformation} {ws : List (BitVec 32)}
    {regs regs' : Regs} (hm : Moved req.dir ti ws regs regs')
    (hcheck : checkAndCalculateTransferInformation req.dv req.count req.pos = .inr ti)
    (hcov : ti.Covers ti.offset.toNat (wordCount ti)) (hle : ws.length ≤ wordCount ti) :
    Returned.Alone ⟨req, 4 * ws.length, req.pos + BitVec.ofNat 64 (4 * ws.length), ws⟩
      regs regs' := by
  have hlt : ∀ {j w}, ws[j]? = some w → j < ws.length := fun h => (List.getElem?_eq_some_iff.mp h).1
  rw [← req.check_freeDev] at hcheck
  refine ⟨.inr ⟨rfl, rfl⟩, ?_⟩
  cases hdir : req.dir with
  | read =>
      rw [hdir] at hm
      obtain ⟨hregs, hwords⟩ := hm
      let env : ReadEnv := ⟨false, fun b => if b = 4 * ws.length then 1 else 0, wordCount ti + 1⟩
      refine ⟨hregs, env, fun buf => ?_⟩
      have hlock : mutexLockInterruptible req.freeDev.devMut env.intr = .acquired := rfl
      obtain ⟨k, r, hr, hstop, hret, hpos, -, hcopied, hframe⟩ :=
        read_of_covers regs buf hcheck hcov hlock (Nat.lt_succ_self _)
      obtain rfl : k = ws.length := hstop.eq_of_single hle (fun j => by simp [env])
      refine ⟨r, hr, hret, hpos, fun j w hw b hb => ?_, fun b hb => hframe b ?_⟩
      · rw [hcopied j (hlt hw) b hb, hwords j w hw]
      · exact le_trans (Nat.mul_le_mul_left 4 (min_le_left ..)) hb
  | write =>
      rw [hdir] at hm
      obtain ⟨hwords, hframe⟩ := hm
      let env : WriteEnv := ⟨false, fun b => b == 4 * ws.length, wordCount ti + 1⟩
      refine ⟨⟨_, holds_bufferOf ws⟩, env, fun buf hbuf => ?_⟩
      have hlock : mutexLockInterruptible req.freeDev.devMut env.intr = .acquired := rfl
      obtain ⟨k, r, hr, hstop, hret, hpos, -, hwritten, hframe'⟩ :=
        write_of_covers regs buf hcheck hcov hlock (Nat.lt_succ_self _)
      obtain rfl : k = ws.length := hstop.eq_of_single hle (fun j => by simp [env])
      refine ⟨r, hr, hret, hpos, ?_⟩
      funext d b off
      by_cases hin : d = ti.barStart.dev ∧ b = ti.barStart.bar ∧
          ∃ j < ws.length, off = (ti.offset.toNat + 4 * j : Nat)
      · obtain ⟨rfl, rfl, j, hj, rfl⟩ := hin
        have hw : ws[j]? = some ws[j] := List.getElem?_eq_getElem hj
        exact (hwritten j hj).trans ((hbuf.copyFromUser hw).trans (hwords j _ hw).symm)
      · rw [hframe' d b off hin, hframe d b off hin]

/-- A sequential call that fails returns its error and leaves the file position, the user
buffer and the registers alone. -/
theorem alone_of_fail {req : Request} {err : Int} {regs : Regs} (herr : err < 0) (intr : Bool)
    (hread : ∀ buf, pcieuniReadNoStructExp ⟨intr, fun _ => 0, 0⟩ regs req.freeDev buf req.count
      req.pos = .ok (req.freeDev, ⟨err, req.pos, buf, []⟩))
    (hwrite : ∀ buf, pcieuniWriteNoStructExp ⟨intr, fun _ => false, 0⟩ regs req.freeDev buf
      req.count req.pos = .ok (req.freeDev, ⟨err, req.pos, regs, []⟩)) :
    Returned.Alone ⟨req, err, req.pos, []⟩ regs regs := by
  have hnone : ∀ buf, Holds buf [] := fun buf j w hw => by simp at hw
  refine ⟨.inl ⟨herr, rfl, rfl⟩, ?_⟩
  cases req.dir with
  | read => exact ⟨rfl, _, fun buf => ⟨_, hread buf, rfl, rfl, hnone buf, fun _ _ => rfl⟩⟩
  | write =>
      exact ⟨⟨fun _ => 0, hnone _⟩, _, fun buf _ => ⟨_, hwrite buf, rfl, rfl, rfl⟩⟩

/-- A request that fails its check. -/
theorem alone_of_check {req : Request} {err : Int} {regs : Regs}
    (hcheck : checkAndCalculateTransferInformation req.dv req.count req.pos = .inl err) :
    Returned.Alone ⟨req, err, req.pos, []⟩ regs regs := by
  have herr : err < 0 := by simp [check_inl hcheck, efault]
  rw [← req.check_freeDev] at hcheck
  refine alone_of_fail herr false (fun buf => ?_) fun buf => ?_
  · simp only [pcieuniReadNoStructExp, hcheck]
  · simp only [pcieuniWriteNoStructExp, hcheck]

/-- A request that is interrupted when it waits for the mutex. -/
theorem alone_of_signal {req : Request} {ti : TransferInformation} {regs : Regs}
    (hcheck : checkAndCalculateTransferInformation req.dv req.count req.pos = .inr ti) :
    Returned.Alone ⟨req, -erestartsys, req.pos, []⟩ regs regs := by
  rw [← req.check_freeDev] at hcheck
  have hlock : mutexLockInterruptible req.freeDev.devMut true = .interrupted := rfl
  refine alone_of_fail (by simp [erestartsys]) true (fun buf => ?_) fun buf => ?_
  · simp only [pcieuniReadNoStructExp, hcheck, hlock]
  · simp only [pcieuniWriteNoStructExp, hcheck, hlock]

/-! ## The invariant -/

/-- The loop of a transfer runs. -/
def Pc.InLoop : Pc → Prop
  | .transferring .. => True
  | _ => False

theorem Pc.InLoop.locked {pc : Pc} (h : pc.InLoop) : pc.Locked := by
  cases pc with
  | transferring => trivial
  | idle | checked | removing | clearing | closing => cases h

/-- The transfer that a thread is in, with its direction. -/
def Pc.asks : Pc → Option (Direction × TransferInformation)
  | .checked dir ti | .transferring dir ti _ => some (dir, ti)
  | .idle | .removing _ | .clearing .. | .closing => none

/-- The request that a transfer was made for. -/
def Asked (req : Request) (dir : Direction) (ti : TransferInformation) : Prop :=
  req.dir = dir ∧ req.count.toNat ≤ 0x7ffff000 ∧
    checkAndCalculateTransferInformation req.dv req.count req.pos = .inr ti

/-- The registers are `regs`, and what the transfer in its loop has done to them. -/
structure Underway (h : History) (s : State) (regs : Regs) : Prop where
  quiet : (∀ u, ¬ (s.thread u).InLoop) → s.regs = regs
  moving : ∀ u dir ti n, s.thread u = .transferring dir ti n →
    n = BitVec.ofNat 32 (4 * h.moved.length) ∧ h.moved.length ≤ wordCount ti ∧
      Moved dir ti h.moved regs s.regs

structure Recorded (regs₀ : Regs) (h : History) (s : State) : Prop where
  mutex : ∃ holder, s.dv.devMut = holder.isSome ∧ Threads.Guards holder Pc.Locked s.thread
  asked : ∀ u dir ti, (s.thread u).asks = some (dir, ti) → Asked (h.request u) dir ti
  serial : ∃ regs, Serially regs₀ h.returned regs ∧ Underway h s regs

/-- The counts that the VFS lets through. -/
def Admitted : Act → Prop
  | .check _ _ count _ => count.toNat ≤ 0x7ffff000
  | _ => True

section Step

variable {regs₀ : Regs} {h h' : History} {s s' : State} {u : Tid} {pc : Pc}

/-- A thread moves outside of the loop, and nobody touches a register. -/
theorem Underway.move {regs : Regs} (hs : Underway h s regs) (hmoved : h'.moved = h.moved)
    (hregs : s'.regs = s.regs) (hthread : s'.thread = Function.update s.thread u pc)
    (hu : ¬ (s.thread u).InLoop) (hpc : ¬ pc.InLoop) : Underway h' s' regs := by
  refine ⟨fun hquiet => ?_, fun v dir ti n hv => ?_⟩
  · rw [hregs]
    apply hs.quiet
    intro v hv
    by_cases hvu : v = u
    · exact hu (hvu ▸ hv)
    · apply hquiet v
      rwa [hthread, Function.update_of_ne hvu]
  · rw [hthread] at hv
    rw [hmoved, hregs]
    exact hs.moving v dir ti n (Threads.eq_of_update hv (by rintro rfl; exact hpc trivial))

/-- One thread is in its loop. -/
theorem Underway.of_inLoop {regs : Regs} {dir : Direction} {ti : TransferInformation}
    (hthread : s'.thread = Function.update s.thread u
      (.transferring dir ti (BitVec.ofNat 32 (4 * h'.moved.length))))
    (hothers : ∀ v, v ≠ u → ¬ (s.thread v).InLoop) (hle : h'.moved.length ≤ wordCount ti)
    (hm : Moved dir ti h'.moved regs s'.regs) : Underway h' s' regs := by
  refine ⟨fun hquiet => ?_, fun v dir' ti' n hv => ?_⟩
  · refine absurd ?_ (hquiet u)
    rw [hthread, Function.update_self]
    trivial
  · by_cases hvu : v = u
    · subst hvu
      rw [hthread, Function.update_self] at hv
      cases hv
      exact ⟨rfl, hle, hm⟩
    · rw [hthread, Function.update_of_ne hvu] at hv
      exact absurd (by rw [hv]; trivial) (hothers v hvu)

/-- The thread in its loop has returned. -/
theorem Underway.of_idle (hthread : s'.thread = Function.update s.thread u .idle)
    (hothers : ∀ v, v ≠ u → ¬ (s.thread v).InLoop) : Underway h' s' s'.regs := by
  refine ⟨fun _ => rfl, fun v dir ti n hv => ?_⟩
  rw [hthread] at hv
  by_cases hvu : v = u
  · subst hvu
    rw [Function.update_self] at hv
    cases hv
  · rw [Function.update_of_ne hvu] at hv
    exact absurd (by rw [hv]; trivial) (hothers v hvu)

/-- The requests stay when a thread goes on with its own, or drops it. -/
theorem asked_move
    (hs : ∀ v dir ti, (s.thread v).asks = some (dir, ti) → Asked (h.request v) dir ti)
    (hrequest : h'.request = h.request) (hthread : s'.thread = Function.update s.thread u pc)
    (hpc : pc.asks = none ∨ pc.asks = (s.thread u).asks) :
    ∀ v dir ti, (s'.thread v).asks = some (dir, ti) → Asked (h'.request v) dir ti := by
  rw [hthread]
  refine Threads.forall_update (Q := fun v pc => ∀ dir ti, Pc.asks pc = some (dir, ti) →
    Asked (h'.request v) dir ti) ?_ ?_
  · intro dir ti hti
    rcases hpc with hnone | hsame
    · rw [hnone] at hti
      cases hti
    · rw [hrequest]
      exact hs u dir ti (hsame ▸ hti)
  · intro v _ dir ti hti
    rw [hrequest]
    exact hs v dir ti hti

variable {log : List Effect} (hs : Recorded regs₀ h s)

include hs

theorem Recorded.mutex_move (hdev : s'.dv.devMut = s.dv.devMut)
    (hthread : s'.thread = Function.update s.thread u pc)
    (hpc : pc.Locked ↔ (s.thread u).Locked) :
    ∃ holder, s'.dv.devMut = holder.isSome ∧ Threads.Guards holder Pc.Locked s'.thread := by
  obtain ⟨holder, hmut, hguards⟩ := hs.mutex
  exact ⟨holder, hdev.trans hmut, by rw [hthread]; exact hguards.move hpc⟩

theorem Recorded.holder_none (hfree : s.dv.devMut = false) :
    Threads.Guards none Pc.Locked s.thread := by
  obtain ⟨holder, hmut, hguards⟩ := hs.mutex
  cases holder with
  | none => exact hguards
  | some v => rw [hfree] at hmut; cases hmut

/-- Nobody else is in the loop. -/
theorem Recorded.alone_inLoop (hu : (s.thread u).Locked) {v : Tid} (hv : (s.thread v).InLoop) :
    v = u := by
  obtain ⟨holder, -, hguards⟩ := hs.mutex
  exact hguards.unique hv.locked hu

theorem Recorded.check {dir : Direction} {count pos : BitVec 64} {major : Int} {k : Slot}
    (hcount : count.toNat ≤ 0x7ffff000)
    (hstep : s.step major k (.check u dir count pos) = some (s', log)) :
    Recorded regs₀ (h.note ⟨s, .check u dir count pos, log, s'⟩) s' := by
  obtain ⟨regs, hserial, hunder⟩ := hs.serial
  simp only [State.step] at hstep
  split at hstep
  · rename_i hidle
    have hnew : ∀ v dir' ti, v ≠ u → (s.thread v).asks = some (dir', ti) →
        Asked (Function.update h.request u ⟨dir, s.dv, count, pos⟩ v) dir' ti := by
      intro v dir' ti hv hti
      rw [Function.update_of_ne hv]
      exact hs.asked v dir' ti hti
    cases hcheck : checkAndCalculateTransferInformation s.dv count pos with
    | inl err =>
        simp only [hcheck] at hstep
        cases hstep
        simp only [History.note, hcheck, History.fail, Function.update_self]
        refine ⟨hs.mutex, ?_, regs, hserial.snoc (alone_of_check hcheck), hunder.quiet,
          hunder.moving⟩
        intro v dir' ti hti
        refine hnew v dir' ti ?_ hti
        rintro rfl
        rw [hidle] at hti
        cases hti
    | inr ti =>
        simp only [hcheck] at hstep
        cases hstep
        simp only [History.note, hcheck]
        refine ⟨hs.mutex_move rfl rfl (by simp [hidle, Pc.Locked]), ?_, regs, hserial,
          hunder.move rfl rfl rfl (by simp [hidle, Pc.InLoop]) (by simp [Pc.InLoop])⟩
        refine Threads.forall_update (Q := fun v pc => ∀ dir' ti', Pc.asks pc = some (dir', ti') →
          Asked (Function.update h.request u ⟨dir, s.dv, count, pos⟩ v) dir' ti') ?_
          (fun v hv dir' ti' => hnew v dir' ti' hv)
        rintro dir' ti' ⟨⟩
        rw [Function.update_self]
        exact ⟨rfl, hcount, hcheck⟩
  · cases hstep

theorem Recorded.lock {intr : Bool} {major : Int} {k : Slot}
    (hstep : s.step major k (.lock u intr) = some (s', log)) :
    Recorded regs₀ (h.note ⟨s, .lock u intr, log, s'⟩) s' := by
  obtain ⟨regs, hserial, hunder⟩ := hs.serial
  simp only [State.step] at hstep
  split at hstep
  · rename_i dir ti ht
    obtain ⟨-, -, hcheck⟩ := hs.asked u dir ti (by rw [ht]; rfl)
    cases hlock : mutexLockInterruptible s.dv.devMut intr with
    | interrupted =>
        simp only [hlock] at hstep
        cases hstep
        obtain rfl := mutexLockInterruptible_interrupted.mp hlock
        simp only [History.note, if_true, History.fail]
        exact ⟨hs.mutex_move rfl rfl (by simp [ht, Pc.Locked]),
          asked_move hs.asked rfl rfl (.inl rfl), regs, hserial.snoc (alone_of_signal hcheck),
          hunder.move rfl rfl rfl (by simp [ht, Pc.InLoop]) (by simp [Pc.InLoop])⟩
    | blocked =>
        simp only [hlock] at hstep
        cases hstep
    | acquired =>
        simp only [hlock] at hstep
        cases hstep
        obtain ⟨hfree, rfl⟩ := mutexLockInterruptible_acquired.mp hlock
        have hnone := hs.holder_none hfree
        -- nobody was in the loop, so the words start to be counted here
        have hregs : s.regs = regs := hunder.quiet fun v hv => by cases (hnone v).mp hv.locked
        simp only [History.note, Bool.false_eq_true, if_false]
        refine ⟨⟨some u, rfl, hnone.acquire trivial⟩, asked_move hs.asked rfl rfl (.inr ?_), regs,
          hserial, .of_inLoop rfl ?_ (Nat.zero_le _) (by rw [← hregs]; exact .nil)⟩
        · rw [ht]
          rfl
        · intro v _ hv
          cases (hnone v).mp hv.locked
  · cases hstep

/-- A thread gives the mutex back and returns. -/
theorem Recorded.unlock {regs : Regs} (hu : (s.thread u).Locked) (hdev : s'.dv.devMut = false)
    (hthread : s'.thread = Function.update s.thread u .idle) (hrequest : h'.request = h.request)
    (hserial : Serially regs₀ h'.returned regs) (hunder : Underway h' s' regs) :
    Recorded regs₀ h' s' := by
  obtain ⟨holder, -, hguards⟩ := hs.mutex
  refine ⟨⟨none, hdev, ?_⟩, asked_move hs.asked hrequest hthread (.inl rfl), regs, hserial, hunder⟩
  rw [hthread]
  exact hguards.release hu id

theorem Recorded.word {fault : Bool} {w : BitVec 32} {major : Int} {k : Slot}
    (hstep : s.step major k (.word u fault w) = some (s', log)) :
    Recorded regs₀ (h.note ⟨s, .word u fault w, log, s'⟩) s' := by
  obtain ⟨regs, hserial, hunder⟩ := hs.serial
  simp only [State.step, State.word] at hstep
  split at hstep
  · rename_i dir ti n ht
    have hlocked : (s.thread u).Locked := by rw [ht]; trivial
    have hothers : ∀ v, v ≠ u → ¬ (s.thread v).InLoop := fun v hv hin =>
      hv (hs.alone_inLoop hlocked hin)
    obtain ⟨rfl, hle, hm⟩ := hunder.moving u dir ti n ht
    obtain ⟨rfl, hcount, hcheck⟩ := hs.asked u dir ti (by rw [ht]; rfl)
    have hcov := covers_of_count hcheck hcount
    have hfit := hcov.counterFits
    -- the call returns with the words that it has moved
    have hreturn : ∀ s' : State, s'.dv.devMut = false →
        s'.thread = Function.update s.thread u .idle → s'.regs = s.regs →
        Recorded regs₀ (h.close u (BitVec.ofNat 32 (4 * h.moved.length))) s' := by
      intro s' hdev hthread hregs
      have hfits : 4 * h.moved.length < 2 ^ 32 := by omega
      refine hs.unlock hlocked hdev hthread rfl ?_ (.of_idle hthread hothers)
      simp only [History.close, counter_toNat hfits, counter_setWidth hfits, Nat.cast_mul,
        Nat.cast_ofNat]
      rw [hregs]
      exact hserial.snoc (hm.alone hcheck hcov hle)
    by_cases hlt : BitVec.ofNat 32 (4 * h.moved.length) < ti.nBytesToTransfer
    · have hword := (hcov.counter_lt_iff hle).mp hlt
      simp only [hlt, if_true, hcov.wordOffset hword] at hstep
      simp only [History.note, ht, hlt, true_and, hcov.wordOffset hword]
      cases fault with
      | true =>
          simp only [if_true] at hstep
          simp only [Bool.true_eq_false, if_false]
          cases hdir : (h.request u).dir with
          | read =>
              simp only [hdir] at hstep
              cases hstep
              exact hreturn _ rfl rfl rfl
          | write =>
              simp only [hdir] at hstep
              cases hstep
              exact hreturn _ rfl rfl rfl
      | false =>
          simp only [Bool.false_eq_true, if_false] at hstep
          simp only [if_true]
          -- the thread stays in the loop, with one word more
          have hnext : ∀ (w : BitVec 32) (s' : State), s'.dv.devMut = s.dv.devMut →
              s'.thread = Function.update s.thread u (.transferring (h.request u).dir ti
                (BitVec.ofNat 32 (4 * h.moved.length) + 4)) →
              Moved (h.request u).dir ti (h.moved ++ [w]) regs s'.regs →
              Recorded regs₀ { h with moved := h.moved ++ [w] } s' := by
            intro w s' hdev hthread hm'
            refine ⟨hs.mutex_move hdev hthread (iff_of_true trivial hlocked),
              asked_move hs.asked rfl hthread (.inr (by rw [ht]; rfl)), regs, hserial, ?_⟩
            have hlen : (h.moved ++ [w]).length = h.moved.length + 1 := by simp
            refine .of_inLoop ?_ hothers (by rw [hlen]; exact hword) hm'
            rw [hthread, hlen, counter_succ]
          cases hdir : (h.request u).dir with
          | read =>
              simp only [hdir] at hstep
              cases hstep
              rw [hdir] at hm hnext
              exact hnext _ _ rfl rfl hm.read_snoc
          | write =>
              simp only [hdir] at hstep
              cases hstep
              rw [hdir] at hm hnext
              exact hnext _ _ rfl rfl (hm.write_snoc w)
    · simp only [hlt, if_false] at hstep
      cases hstep
      simp only [History.note, ht, hlt, false_and, if_false]
      exact hreturn _ rfl rfl rfl
  · cases hstep

/-- A remove touches no register and no transfer. -/
theorem Recorded.remove {major : Int} {k : Slot}
    (hstep : s.step major k (.remove u) = some (s', log)) :
    Recorded regs₀ (h.note ⟨s, .remove u, log, s'⟩) s' := by
  obtain ⟨regs, hserial, hunder⟩ := hs.serial
  have hmove : ∀ {pc pc' : Pc}, s.thread u = pc → s'.thread = Function.update s.thread u pc' →
      s'.dv.devMut = s.dv.devMut → s'.regs = s.regs → pc.Locked → ¬ pc.InLoop → pc'.Locked →
      pc'.asks = none → ¬ pc'.InLoop → Recorded regs₀ h s' := by
    rintro pc pc' rfl hthread hdev hregs hin hout hin' hasks hout'
    exact ⟨hs.mutex_move hdev hthread (iff_of_true hin' hin),
      asked_move hs.asked rfl hthread (.inl hasks), regs, hserial,
      hunder.move rfl hregs hthread hout hout'⟩
  simp only [State.step, State.remove] at hstep
  split at hstep
  · rename_i n bars ht
    split at hstep
    · cases hstep
      exact hmove ht rfl rfl rfl trivial id trivial rfl id
    · cases hstep
      exact hmove ht rfl rfl rfl trivial id trivial rfl id
  · rename_i n m bars ht
    cases hstep
    exact hmove ht rfl rfl rfl trivial id trivial rfl id
  · rename_i ht
    cases hstep
    exact hmove ht rfl rfl rfl trivial id trivial rfl id
  · rename_i ht
    cases hstep
    exact hs.unlock (by rw [ht]; trivial) rfl rfl rfl hserial
      (hunder.move rfl rfl rfl (by simp [ht, Pc.InLoop]) (by simp [Pc.InLoop]))
  · cases hstep

theorem Recorded.step {a : Act} {major : Int} {k : Slot} (ha : Admitted a)
    (hstep : s.step major k a = some (s', log)) :
    Recorded regs₀ (h.note ⟨s, a, log, s'⟩) s' := by
  obtain ⟨regs, hserial, hunder⟩ := hs.serial
  cases a with
  | check u dir count pos => exact hs.check ha hstep
  | lock u intr => exact hs.lock hstep
  | word u fault w => exact hs.word hstep
  | probe env d =>
      simp only [State.step, State.probe] at hstep
      split at hstep
      · split at hstep
        · cases hstep
          exact ⟨hs.mutex, hs.asked, regs, hserial, hunder.quiet, hunder.moving⟩
        split at hstep
        · cases hstep
        rename_i dv log₁ hprobe
        split at hstep
        · cases hstep
          have hdev := (probeDevice_probed hprobe).devMut
          obtain ⟨holder, hmut, hguards⟩ := hs.mutex
          exact ⟨⟨holder, hdev.trans hmut, hguards⟩, hs.asked, regs, hserial, hunder.quiet,
            hunder.moving⟩
        · cases hstep
      · cases hstep
  | removeLock u =>
      simp only [State.step] at hstep
      split at hstep
      · rename_i d ht hbound hlock
        have hnone := hs.holder_none (mutexLock_acquired.mp hlock)
        cases hstep
        exact ⟨⟨some u, rfl, hnone.acquire trivial⟩, asked_move hs.asked rfl rfl (.inl rfl), regs,
          hserial, hunder.move rfl rfl rfl (by simp [ht, Pc.InLoop]) (by simp [Pc.InLoop])⟩
      · cases hstep
  | remove u => exact hs.remove hstep

end Step

theorem Recorded.of_init {major : Int} {k : Slot} {s : State} (h : (hotplugLts major k).init s) :
    Recorded s.regs .empty s := by
  obtain ⟨verMaj, verMin, hdv, -, -, hidle⟩ := h
  refine ⟨⟨none, by rw [hdv]; rfl, fun t => by simp [hidle t, Pc.Locked]⟩, fun u dir ti hti => ?_,
    s.regs, .nil, fun _ => rfl, fun u dir ti n hu => ?_⟩
  · rw [hidle u] at hti
    cases hti
  · rw [hidle u] at hu
    cases hu

/-- In every run, the calls that have returned are sequential calls, made one after
the other in the order of their return, each on the struct that its check saw and
on the registers that the calls before it left. The registers are what these calls
leave, and what the transfer that is in its loop has done to them. -/
theorem run_serial {major : Int} {k : Slot} {s s' : State}
    {tr : List (Transition State Act (List Effect))} (h : (hotplugLts major k).Run s tr s')
    (hinit : (hotplugLts major k).init s) (hcount : ∀ t ∈ tr, Admitted t.act) :
    ∃ regs, Serially s.regs (history tr).returned regs ∧ Underway (history tr) s' regs := by
  have hs := h.foldl_preserves (J := Recorded s.regs) (P := fun _ a => Admitted a)
    (fun _ _ _ _ _ hs ha hstep => hs.step ha hstep) (.of_init hinit) hcount
  exact hs.serial

/-- A write of two words into which a read of the same words comes: the read has
passed its check and waits for the mutex until the write is done. -/
theorem run_serial_two : ∃ tr s',
    (hotplugLts 250 0).Run emptySlot tr s' ∧
    tr.map (·.act) = [.probe oneBar 7, .check 0 .write 8 16, .lock 0 false, .word 0 false 5,
      .check 1 .read 8 16, .word 0 false 6, .word 0 false 0, .lock 1 false, .word 1 false 0,
      .word 1 false 0, .word 1 false 0] ∧
    (history tr).returned.map (fun c => (c.ret, c.fPos, c.words)) =
      [(8, 24, [5, 6]), (8, 24, [5, 6])] ∧
    ∃ regs, Serially emptySlot.regs (history tr).returned regs ∧ Underway (history tr) s' regs := by
  obtain ⟨tr, s', hrun, hacts, hret⟩ := Lts.Run.of_exec_map (M := hotplugLts 250 0)
    (g := fun r => (history r.1).returned.map fun c => (c.ret, c.fPos, c.words))
    (v := [(8, 24, [5, 6]), (8, 24, [5, 6])]) (s := emptySlot)
    (l := [.probe oneBar 7, .check 0 .write 8 16, .lock 0 false, .word 0 false 5,
      .check 1 .read 8 16, .word 0 false 6, .word 0 false 0, .lock 1 false, .word 1 false 0,
      .word 1 false 0, .word 1 false 0]) (by decide +kernel)
  refine ⟨tr, s', hrun, hacts, hret, run_serial hrun emptySlot_init fun t ht => ?_⟩
  have hact : t.act ∈ tr.map (·.act) := List.mem_map_of_mem ht
  simp only [hacts, List.mem_cons, List.not_mem_nil, or_false] at hact
  rcases hact with hact | hact | hact | hact | hact | hact | hact | hact | hact | hact | hact
  all_goals rw [hact]; simp [Admitted]

end Hotplug

end Gpcieuni
