-- SUMMARY: Transfers in pieces: however a client cuts a transfer, and wherever its calls break off, the pieces together are one transfer.
import Gpcieuni.TransferSpec

/-!
# Sessions

A `read` or `write` may move less than it was asked for: the end of the BAR cuts it
short, a copy faults, a signal ends it before it begins. A client calls again, at the
position that the last call left and with the rest of its buffer. `readAll` and
`writeAll` are these loops, for any sequence of counts and any behaviour of the
environment.
-/

namespace Gpcieuni

/-! ## The loops of a client -/

/-- One call of a client that writes. -/
structure WriteCall where
  env : WriteEnv
  count : BitVec 64

/-- One call of a client that reads. -/
structure ReadCall where
  env : ReadEnv
  count : BitVec 64

/-- Where a client stands: the bytes that it has moved, its file position, what the
transfers change, and the accesses to the hardware so far. -/
structure Session (α : Type) where
  done : Nat
  pos : BitVec 64
  mem : α
  log : List Effect

/-- Write `buf` call by call. A call that fails has moved nothing. -/
def writeAll (dv : PcieuniDev) (buf : UserMem) :
    List WriteCall → Session Regs → Call (Session Regs)
  | [], s => .ok s
  | c :: calls, s =>
    match pcieuniWriteNoStructExp c.env s.mem dv (fun b => buf (s.done + b)) c.count s.pos with
    | .error e => .error e
    | .ok (_, r) => writeAll dv buf calls ⟨s.done + r.ret.toNat, r.fPos, r.regs, s.log ++ r.log⟩

/-- What a read leaves in the buffer of a client that has `done` bytes already. -/
def fillFrom (done : Nat) (mem rest : UserMem) : UserMem :=
  fun b => if b < done then mem b else rest (b - done)

/-- Read into a buffer call by call. -/
def readAll (dv : PcieuniDev) (regs : Regs) :
    List ReadCall → Session UserMem → Call (Session UserMem)
  | [], s => .ok s
  | c :: calls, s =>
    match pcieuniReadNoStructExp c.env regs dv (fun b => s.mem (s.done + b)) c.count s.pos with
    | .error e => .error e
    | .ok (_, r) =>
      readAll dv regs calls
        ⟨s.done + r.ret.toNat, r.fPos, fillFrom s.done s.mem r.buf, s.log ++ r.log⟩

theorem fillFrom_zero (mem rest : UserMem) : fillFrom 0 mem rest = rest := by
  funext b
  simp [fillFrom]

theorem fillFrom_fillFrom (done n : Nat) (mem buf rest : UserMem) :
    fillFrom (done + n) (fillFrom done mem buf) rest = fillFrom done mem (fillFrom n buf rest) := by
  funext b
  by_cases hdone : b < done
  · simp [fillFrom, hdone, Nat.lt_add_right n hdone]
  · by_cases hn : b < done + n
    · simp [fillFrom, hdone, hn, show b - done < n by omega]
    · simp [fillFrom, hdone, hn, show ¬ b - done < n by omega, Nat.sub_sub]

/-! ## Where the pieces lie -/

/-- The `4 * k` bytes from the position `pos` on are registers of the mapping `m`. -/
def LiesIn (dv : PcieuniDev) (pos : BitVec 64) (k : Nat) (m : Iomem) : Prop :=
  dv.devSts ≠ 0 ∧ pos.toNat % 4 = 0 ∧ ∃ n : Fin 6, (n : Nat) = pos.toNat / 2 ^ 60 % 8 ∧
    (dv.bar n).memmoryBase = some m ∧ pos.toNat % 2 ^ 60 + 4 * k ≤ (dv.bar n).length

section LiesIn

variable {dv : PcieuniDev} {pos : BitVec 64} {k l : Nat} {m m' : Iomem}

theorem LiesIn.unique (h : LiesIn dv pos k m) (h' : LiesIn dv pos l m') : m' = m := by
  obtain ⟨-, -, n, hn, hm, -⟩ := h
  obtain ⟨-, -, n', hn', hm', -⟩ := h'
  obtain rfl : n' = n := Fin.ext (hn'.trans hn.symm)
  exact Option.some.inj (hm'.symm.trans hm)

/-- The position after `k` words of a BAR is one in the same BAR. -/
theorem LiesIn.advance_toNat (h : LiesIn dv pos k m) :
    (pos + BitVec.ofNat 64 (4 * k)).toNat = pos.toNat + 4 * k ∧
      (pos.toNat + 4 * k) % 2 ^ 60 = pos.toNat % 2 ^ 60 + 4 * k := by
  obtain ⟨-, -, n, -, -, hin⟩ := h
  have hL : (dv.bar n).length ≤ 2 ^ 32 := ((dv.bar n).memBaseEnd - (dv.bar n).memBase).isLt
  have hlt := pos.isLt
  have hmod : (pos.toNat + 4 * k) % 2 ^ 60 = pos.toNat % 2 ^ 60 + 4 * k := by omega
  refine ⟨?_, hmod⟩
  rw [BitVec.toNat_add, BitVec.toNat_ofNat]
  omega

/-- Two pieces, the second where the first one ended, lie in one mapping. -/
theorem LiesIn.append (h : LiesIn dv pos k m)
    (h' : LiesIn dv (pos + BitVec.ofNat 64 (4 * k)) l m') : m' = m ∧ LiesIn dv pos (k + l) m := by
  obtain ⟨hadd, hmod⟩ := h.advance_toNat
  obtain ⟨hsts, hpos, n, hn, hm, hin⟩ := h
  obtain ⟨-, -, n', hn', hm', hin'⟩ := h'
  rw [hadd] at hn' hin'
  obtain rfl : n' = n := Fin.ext (by omega)
  exact ⟨Option.some.inj (hm'.symm.trans hm), hsts, hpos, n', hn, hm, by omega⟩

theorem LiesIn.of_accepted {count : BitVec 64} {ti : TransferInformation} {n : Fin 6}
    (h : Accepted dv count pos ti n) (hin : pos.toNat % 2 ^ 60 + 4 * k ≤ (dv.bar n).length) :
    LiesIn dv pos k ti.barStart :=
  ⟨h.devSts, h.posAligned, n, h.bar, h.barStart, hin⟩

/-- A request for exactly these registers passes the check and covers them. -/
theorem LiesIn.covers (h : LiesIn dv pos k m) (hk : 0 < k) (hk31 : 4 * k ≤ 0x7ffff000)
    (hlen : ∀ n m, (dv.bar n).memmoryBase = some m → (dv.bar n).length % 4 = 0) :
    ∃ ti, checkAndCalculateTransferInformation dv (BitVec.ofNat 64 (4 * k)) pos = .inr ti ∧
      ti.barStart = m ∧ ti.Covers (pos.toNat % 2 ^ 60) k := by
  obtain ⟨hsts, hpos, n, hn, hm, hin⟩ := h
  have hk64 : (BitVec.ofNat 64 (4 * k)).toNat = 4 * k := by rw [BitVec.toNat_ofNat]; omega
  have hsize : pos.toNat % 2 ^ 60 ≤ ((dv.bar n).memBaseEnd - (dv.bar n).memBase).toNat := by
    unfold Bar.length at hin
    omega
  obtain ⟨ti, hcheck⟩ := check_inr_of (BitVec.ofNat 64 (4 * k)) pos hsts hpos (by omega) hn hm hsize
  obtain ⟨n', hacc⟩ := check_inr hcheck
  obtain rfl : n' = n := Fin.ext (hacc.bar.trans hn.symm)
  have hcov := covers_of_check hacc (by omega) (hlen n' _ hm)
  have hwords : min (BitVec.ofNat 64 (4 * k)).toNat
      (((dv.bar n').memBaseEnd - (dv.bar n').memBase).toNat + 1 - pos.toNat % 2 ^ 60) / 4 = k := by
    unfold Bar.length at hin
    omega
  rw [hwords] at hcov
  exact ⟨ti, hcheck, Option.some.inj (hacc.barStart.symm.trans hm), hcov⟩

end LiesIn

/-! ## What the pieces move -/

/-- The registers from `pos` on have taken the first `4 * k` bytes of `buf`, and
nothing else has changed. -/
def Written (dv : PcieuniDev) (buf : UserMem) (pos : BitVec 64) (k : Nat) (regs regs' : Regs) :
    Prop :=
  (k = 0 ∧ regs' = regs) ∨ ∃ m, LiesIn dv pos k m ∧ Stored regs regs' m (pos.toNat % 2 ^ 60) k buf

/-- The first `4 * k` bytes of `buf` are those of the registers from `pos` on. -/
def Fetched (dv : PcieuniDev) (regs : Regs) (pos : BitVec 64) (k : Nat) (buf : UserMem) : Prop :=
  k = 0 ∨ ∃ m, LiesIn dv pos k m ∧
    ∀ j < k, ∀ b < 4, buf (4 * j + b) = Word.byte (wordAt regs m (pos.toNat % 2 ^ 60) j) b

/-- The `k` registers from `pos` on have been accessed once each and in order. -/
def AccessedOnce (dv : PcieuniDev) (pos : BitVec 64) (k : Nat)
    (access : Nat → Iomem → Int → Effect) (log : List Effect) : Prop :=
  (k = 0 ∧ log = []) ∨ ∃ m, LiesIn dv pos k m ∧
    log = (List.range k).map fun j => access j m (pos.toNat % 2 ^ 60 + 4 * j : Nat)

section Pieces

variable {dv : PcieuniDev} {pos : BitVec 64} {k l : Nat}

theorem Stored.append {regs regs₁ regs₂ : Regs} {m : Iomem} {o : Nat} {buf : UserMem}
    (h : Stored regs regs₁ m o k buf)
    (h' : Stored regs₁ regs₂ m (o + 4 * k) l fun b => buf (4 * k + b)) :
    Stored regs regs₂ m o (k + l) buf := by
  constructor
  · intro j hj b hb
    by_cases hjk : j < k
    -- the second piece lies behind the first
    · rw [h'.frame, h.holds j hjk b hb]
      rintro ⟨-, -, i, -, hi⟩
      omega
    · have hbyte := h'.holds (j - k) (by omega) b hb
      rw [show o + 4 * k + 4 * (j - k) = o + 4 * j by omega,
        show 4 * k + (4 * (j - k) + b) = 4 * j + b by omega] at hbyte
      exact hbyte
  · intro d b off hout
    rw [h'.frame, h.frame]
    · rintro ⟨hd, hb, j, hj, hoff⟩
      exact hout ⟨hd, hb, j, by omega, hoff⟩
    · rintro ⟨hd, hb, j, hj, hoff⟩
      exact hout ⟨hd, hb, k + j, by omega, by rw [hoff]; congr 1; omega⟩

/-- What is stored says what all registers are. -/
theorem Stored.unique {regs regs₁ regs₂ : Regs} {m : Iomem} {o : Nat} {buf : UserMem}
    (h₁ : Stored regs regs₁ m o k buf) (h₂ : Stored regs regs₂ m o k buf) : regs₁ = regs₂ := by
  funext d b off
  by_cases hin : d = m.dev ∧ b = m.bar ∧ ∃ j < k, off = (o + 4 * j : Nat)
  · obtain ⟨rfl, rfl, j, hj, rfl⟩ := hin
    have hbyte : ∀ b < 4, Word.byte (regs₁ m.dev m.bar (o + 4 * j : Nat)) b =
        Word.byte (regs₂ m.dev m.bar (o + 4 * j : Nat)) b := fun b hb =>
      (h₁.holds j hj b hb).trans (h₂.holds j hj b hb).symm
    rw [← Word.ofBytes_byte (regs₁ _ _ _), ← Word.ofBytes_byte (regs₂ _ _ _)]
    simp only [Word.ofBytes, hbyte 0 (by decide), hbyte 1 (by decide), hbyte 2 (by decide),
      hbyte 3 (by decide)]
  · rw [h₁.frame d b off hin, h₂.frame d b off hin]

theorem Written.append {regs regs₁ regs₂ : Regs} {buf : UserMem}
    (h : Written dv buf pos k regs regs₁)
    (h' : Written dv (fun b => buf (4 * k + b)) (pos + BitVec.ofNat 64 (4 * k)) l regs₁ regs₂) :
    Written dv buf pos (k + l) regs regs₂ := by
  rcases h with ⟨rfl, rfl⟩ | ⟨m, hm, hstored⟩
  · simpa using h'
  · rcases h' with ⟨rfl, rfl⟩ | ⟨m', hm', hstored'⟩
    · exact .inr ⟨m, hm, hstored⟩
    · obtain ⟨rfl, hlies⟩ := hm.append hm'
      obtain ⟨hadd, hmod⟩ := hm.advance_toNat
      rw [hadd, hmod] at hstored'
      exact .inr ⟨m', hlies, hstored.append hstored'⟩

/-- Nothing has changed where nothing was moved. -/
theorem Written.regs_eq {regs regs' : Regs} {buf : UserMem}
    (h : Written dv buf pos 0 regs regs') : regs' = regs := by
  rcases h with ⟨-, rfl⟩ | ⟨m, -, hstored⟩
  · rfl
  · funext d b off
    exact hstored.frame d b off fun ⟨_, _, j, hj, _⟩ => absurd hj (Nat.not_lt_zero j)

theorem Fetched.append {regs : Regs} {buf rest : UserMem} (h : Fetched dv regs pos k buf)
    (h' : Fetched dv regs (pos + BitVec.ofNat 64 (4 * k)) l rest) :
    Fetched dv regs pos (k + l) (fillFrom (4 * k) buf rest) := by
  have hkept : ∀ j < k, ∀ b < 4, fillFrom (4 * k) buf rest (4 * j + b) = buf (4 * j + b) := by
    intro j hj b hb
    exact if_pos (by omega)
  have hnew : ∀ j, k ≤ j → ∀ b, fillFrom (4 * k) buf rest (4 * j + b) = rest (4 * (j - k) + b) := by
    intro j hj b
    rw [fillFrom, if_neg (by omega)]
    congr 1
    omega
  rcases h with rfl | ⟨m, hm, hbytes⟩
  · simpa [fillFrom_zero] using h'
  refine .inr ⟨m, ?_⟩
  rcases h' with rfl | ⟨m', hm', hbytes'⟩
  · refine ⟨hm, fun j hj b hb => ?_⟩
    rw [hkept j hj b hb, hbytes j hj b hb]
  · obtain ⟨rfl, hlies⟩ := hm.append hm'
    obtain ⟨hadd, hmod⟩ := hm.advance_toNat
    refine ⟨hlies, fun j hj b hb => ?_⟩
    by_cases hjk : j < k
    · rw [hkept j hjk b hb, hbytes j hjk b hb]
    · rw [hnew j (by omega) b, hbytes' (j - k) (by omega) b hb, hadd, hmod, wordAt, wordAt]
      congr 3
      omega

theorem AccessedOnce.append {access : Nat → Iomem → Int → Effect} {log log' : List Effect}
    (h : AccessedOnce dv pos k access log)
    (h' : AccessedOnce dv (pos + BitVec.ofNat 64 (4 * k)) l (fun j => access (k + j)) log') :
    AccessedOnce dv pos (k + l) access (log ++ log') := by
  rcases h with ⟨rfl, rfl⟩ | ⟨m, hm, rfl⟩
  · simpa using h'
  · rcases h' with ⟨rfl, rfl⟩ | ⟨m', hm', rfl⟩
    · exact .inr ⟨m, hm, by simp⟩
    · obtain ⟨rfl, hlies⟩ := hm.append hm'
      obtain ⟨hadd, hmod⟩ := hm.advance_toNat
      refine .inr ⟨m', hlies, ?_⟩
      rw [List.range_add, List.map_append, List.map_map]
      congr 1
      apply List.map_congr_left
      intro j _
      simp only [hadd, hmod, Function.comp_apply]
      congr 2
      omega

end Pieces

/-! ## One call -/

section OneCall

variable {dv : PcieuniDev} {pos : BitVec 64} {k : Nat} {m : Iomem} {count : BitVec 64}
  (hfree : dv.devMut = false)
  (hlen : ∀ n m, (dv.bar n).memmoryBase = some m → (dv.bar n).length % 4 = 0)

include hfree hlen

omit hfree in
/-- What one call of a client that writes does, whatever becomes of it. -/
theorem write_call {env : WriteEnv} (regs : Regs) (buf : UserMem) (pos : BitVec 64)
    (hcount : count.toNat ≤ 0x7ffff000) (hfuel : 2 ^ 29 ≤ env.fuel)
    (hreturns : mutexLockInterruptible dv.devMut env.intr ≠ .blocked) :
    ∃ k r, pcieuniWriteNoStructExp env regs dv buf count pos = .ok (dv, r) ∧
      r.ret.toNat = 4 * k ∧ r.fPos = pos + BitVec.ofNat 64 (4 * k) ∧
      Written dv buf pos k regs r.regs ∧
      AccessedOnce dv pos k (fun j m off => .iowrite32 m off (copyFromUser buf (4 * j))) r.log := by
  cases hcheck : checkAndCalculateTransferInformation dv count pos with
  | inl err =>
      refine ⟨0, ⟨err, pos, regs, []⟩, ?_, ?_, by simp, .inl ⟨rfl, rfl⟩, .inl ⟨rfl, rfl⟩⟩
      · simp only [pcieuniWriteNoStructExp, hcheck]
      · simp [check_inl hcheck, efault]
  | inr ti =>
      obtain ⟨n, hacc⟩ := check_inr hcheck
      cases hlock : mutexLockInterruptible dv.devMut env.intr with
      | interrupted =>
          refine ⟨0, ⟨-erestartsys, pos, regs, []⟩, ?_, ?_, by simp, .inl ⟨rfl, rfl⟩, .inl ⟨rfl, rfl⟩⟩
          · simp only [pcieuniWriteNoStructExp, hcheck, hlock]
          · simp [erestartsys]
      | blocked => exact absurd hlock hreturns
      | acquired =>
          have hlen' := hlen n _ hacc.barStart
          have hoff := hacc.offset_le
          rw [hacc.offset, hacc.size] at hoff
          obtain ⟨k, r, hr, hstop, hret, hfpos, hlog, hwritten, hframe⟩ :=
            write_of_covers regs buf hcheck (covers_of_check hacc hcount hlen') hlock (by omega)
          have hk := hstop.upper
          have hlies : LiesIn dv pos k ti.barStart :=
            .of_accepted hacc (by unfold Bar.length; omega)
          refine ⟨k, r, hr, by omega, hfpos, .inr ⟨_, hlies, fun j hj b hb => ?_, hframe⟩,
            .inr ⟨_, hlies, hlog⟩⟩
          have hword := hwritten j hj
          rw [wordAt] at hword
          rw [hword, copyFromUser, Word.byte_ofBytes _ hb]

omit hfree in
/-- What one call of a client that reads does, whatever becomes of it. -/
theorem read_call {env : ReadEnv} (regs : Regs) (buf : UserMem) (pos : BitVec 64)
    (hcount : count.toNat ≤ 0x7ffff000) (hfuel : 2 ^ 29 ≤ env.fuel)
    (hreturns : mutexLockInterruptible dv.devMut env.intr ≠ .blocked) :
    ∃ k r, pcieuniReadNoStructExp env regs dv buf count pos = .ok (dv, r) ∧
      r.ret.toNat = 4 * k ∧ r.fPos = pos + BitVec.ofNat 64 (4 * k) ∧
      Fetched dv regs pos k r.buf ∧
      ((∀ b, env.left b = 0) → AccessedOnce dv pos k (fun _ m off => .ioread32 m off) r.log) := by
  cases hcheck : checkAndCalculateTransferInformation dv count pos with
  | inl err =>
      refine ⟨0, ⟨err, pos, buf, []⟩, ?_, ?_, by simp, .inl rfl, fun _ => .inl ⟨rfl, rfl⟩⟩
      · simp only [pcieuniReadNoStructExp, hcheck]
      · simp [check_inl hcheck, efault]
  | inr ti =>
      obtain ⟨n, hacc⟩ := check_inr hcheck
      cases hlock : mutexLockInterruptible dv.devMut env.intr with
      | interrupted =>
          refine ⟨0, ⟨-erestartsys, pos, buf, []⟩, ?_, ?_, by simp, .inl rfl,
            fun _ => .inl ⟨rfl, rfl⟩⟩
          · simp only [pcieuniReadNoStructExp, hcheck, hlock]
          · simp [erestartsys]
      | blocked => exact absurd hlock hreturns
      | acquired =>
          have hlen' := hlen n _ hacc.barStart
          have hoff := hacc.offset_le
          rw [hacc.offset, hacc.size] at hoff
          obtain ⟨k, r, hr, hstop, hret, hfpos, hlog, hcopied, -⟩ :=
            read_of_covers regs buf hcheck (covers_of_check hacc hcount hlen') hlock (by omega)
          have hk := hstop.upper
          have hlies : LiesIn dv pos k ti.barStart :=
            .of_accepted hacc (by unfold Bar.length; omega)
          refine ⟨k, r, hr, by omega, hfpos, .inr ⟨_, hlies, hcopied⟩, fun hleft => ?_⟩
          obtain rfl := hstop.eq_of_no_fault fun j h => h (hleft _)
          rw [Nat.min_eq_right (Nat.le_succ _)] at hlog
          exact .inr ⟨_, hlies, hlog⟩

omit hfree in
/-- What a write that has returned did. -/
theorem write_returned {env : WriteEnv} {regs : Regs} {buf : UserMem} {dv' : PcieuniDev}
    {r : WriteRet} (hcount : count.toNat ≤ 0x7ffff000) (hfuel : 2 ^ 29 ≤ env.fuel)
    (h : pcieuniWriteNoStructExp env regs dv buf count pos = .ok (dv', r)) :
    ∃ k, r.ret.toNat = 4 * k ∧ Written dv buf pos k regs r.regs := by
  by_cases hblocked : mutexLockInterruptible dv.devMut env.intr = .blocked
  -- it has failed the check
  · simp only [pcieuniWriteNoStructExp, hblocked] at h
    split at h
    · rename_i hcheck
      cases h
      exact ⟨0, by simp [check_inl hcheck, efault], .inl ⟨rfl, rfl⟩⟩
    · cases h
  · obtain ⟨k, r', hr, hret, -, hwritten, -⟩ :=
      write_call hlen regs buf pos hcount hfuel hblocked
    cases hr.symm.trans h
    exact ⟨k, hret, hwritten⟩

omit hfree in
/-- What a read that has returned did. -/
theorem read_returned {env : ReadEnv} {regs : Regs} {buf : UserMem} {dv' : PcieuniDev}
    {r : ReadRet} (hcount : count.toNat ≤ 0x7ffff000) (hfuel : 2 ^ 29 ≤ env.fuel)
    (h : pcieuniReadNoStructExp env regs dv buf count pos = .ok (dv', r)) :
    ∃ k, r.ret.toNat = 4 * k ∧ Fetched dv regs pos k r.buf := by
  by_cases hblocked : mutexLockInterruptible dv.devMut env.intr = .blocked
  -- it has failed the check
  · simp only [pcieuniReadNoStructExp, hblocked] at h
    split at h
    · rename_i hcheck
      cases h
      exact ⟨0, by simp [check_inl hcheck, efault], .inl rfl⟩
    · cases h
  · obtain ⟨k, r', hr, hret, -, hfetched, -⟩ :=
      read_call hlen regs buf pos hcount hfuel hblocked
    cases hr.symm.trans h
    exact ⟨k, hret, hfetched⟩

/-- A single write that nothing disturbs. -/
theorem write_undisturbed {env : WriteEnv} (regs : Regs) (buf : UserMem) (h : LiesIn dv pos k m)
    (hk : 0 < k) (hk31 : 4 * k ≤ 0x7ffff000) (hintr : env.intr = false)
    (hfault : ∀ b, env.fault b = false) (hfuel : 2 ^ 29 ≤ env.fuel) :
    ∃ r, pcieuniWriteNoStructExp env regs dv buf (BitVec.ofNat 64 (4 * k)) pos = .ok (dv, r) ∧
      r.ret = 4 * k ∧ r.fPos = pos + BitVec.ofNat 64 (4 * k) ∧
      Stored regs r.regs m (pos.toNat % 2 ^ 60) k buf ∧
      r.log = (List.range k).map fun j =>
        .iowrite32 m (pos.toNat % 2 ^ 60 + 4 * j : Nat) (copyFromUser buf (4 * j)) := by
  obtain ⟨ti, hcheck, rfl, hcov⟩ := h.covers hk hk31 hlen
  have hlock := mutexLockInterruptible_acquired.mpr ⟨hfree, hintr⟩
  obtain ⟨k', r, hr, hstop, hret, hfpos, hlog, hwritten, hframe⟩ :=
    write_of_covers regs buf hcheck hcov hlock (by omega)
  obtain rfl : k' = k := hstop.eq_of_no_fault fun j => by simp [hfault]
  refine ⟨r, hr, hret, hfpos, ⟨fun j hj b hb => ?_, hframe⟩, hlog⟩
  have hword := hwritten j hj
  rw [wordAt] at hword
  rw [hword, copyFromUser, Word.byte_ofBytes _ hb]

/-- A single read that nothing disturbs. -/
theorem read_undisturbed {env : ReadEnv} (regs : Regs) (buf : UserMem) (h : LiesIn dv pos k m)
    (hk : 0 < k) (hk31 : 4 * k ≤ 0x7ffff000) (hintr : env.intr = false)
    (hleft : ∀ b, env.left b = 0) (hfuel : 2 ^ 29 ≤ env.fuel) :
    ∃ r, pcieuniReadNoStructExp env regs dv buf (BitVec.ofNat 64 (4 * k)) pos = .ok (dv, r) ∧
      r.ret = 4 * k ∧ r.fPos = pos + BitVec.ofNat 64 (4 * k) ∧
      (∀ j < k, ∀ b < 4, r.buf (4 * j + b) = Word.byte (wordAt regs m (pos.toNat % 2 ^ 60) j) b) ∧
      r.log = (List.range k).map fun j => .ioread32 m (pos.toNat % 2 ^ 60 + 4 * j : Nat) := by
  obtain ⟨ti, hcheck, rfl, hcov⟩ := h.covers hk hk31 hlen
  have hlock := mutexLockInterruptible_acquired.mpr ⟨hfree, hintr⟩
  obtain ⟨k', r, hr, hstop, hret, hfpos, hlog, hcopied, -⟩ :=
    read_of_covers regs buf hcheck hcov hlock (by omega)
  obtain rfl : k' = k := hstop.eq_of_no_fault fun j h => h (hleft _)
  rw [Nat.min_eq_right (Nat.le_succ _)] at hlog
  exact ⟨r, hr, hret, hfpos, hcopied, hlog⟩

end OneCall

/-! ## The session -/

/-- What the VFS lets through, with fuel for all of it. -/
def WriteCall.Admitted (c : WriteCall) : Prop :=
  c.count.toNat ≤ 0x7ffff000 ∧ 2 ^ 29 ≤ c.env.fuel

def ReadCall.Admitted (c : ReadCall) : Prop :=
  c.count.toNat ≤ 0x7ffff000 ∧ 2 ^ 29 ≤ c.env.fuel

/-- No signal ends the call, and no copy faults. -/
def WriteEnv.Undisturbed (env : WriteEnv) : Prop :=
  env.intr = false ∧ (∀ b, env.fault b = false) ∧ 2 ^ 29 ≤ env.fuel

def ReadEnv.Undisturbed (env : ReadEnv) : Prop :=
  env.intr = false ∧ (∀ b, env.left b = 0) ∧ 2 ^ 29 ≤ env.fuel

/-- One write of the first `4 * k` bytes of `buf` does what the session has done. -/
def AsOneWrite (dv : PcieuniDev) (buf : UserMem) (pos : BitVec 64) (k : Nat) (regs regs' : Regs)
    (log : List Effect) : Prop :=
  ∀ env : WriteEnv, env.Undisturbed → 0 < k → 4 * k ≤ 0x7ffff000 →
    pcieuniWriteNoStructExp env regs dv buf (BitVec.ofNat 64 (4 * k)) pos =
      .ok (dv, ⟨4 * k, pos + BitVec.ofNat 64 (4 * k), regs', log⟩)

/-- One read of `4 * k` bytes gets what the session has got, and accesses the hardware
as it has, if no copy of the session faulted. -/
def AsOneRead (dv : PcieuniDev) (regs : Regs) (pos : BitVec 64) (k : Nat) (out : UserMem)
    (faultFree : Prop) (log : List Effect) : Prop :=
  ∀ (env : ReadEnv) (buf : UserMem), env.Undisturbed → 0 < k → 4 * k ≤ 0x7ffff000 →
    ∃ r, pcieuniReadNoStructExp env regs dv buf (BitVec.ofNat 64 (4 * k)) pos = .ok (dv, r) ∧
      r.ret = 4 * k ∧ r.fPos = pos + BitVec.ofNat 64 (4 * k) ∧
      (∀ b < 4 * k, r.buf b = out b) ∧ (faultFree → r.log = log)

theorem copyFromUser_shift (buf : UserMem) (n off : Nat) :
    copyFromUser (fun b => buf (n + b)) off = copyFromUser buf (n + off) := by
  simp only [copyFromUser, Nat.add_assoc]

theorem advance_add (pos : BitVec 64) (k l : Nat) :
    pos + BitVec.ofNat 64 (4 * k) + BitVec.ofNat 64 (4 * l) =
      pos + BitVec.ofNat 64 (4 * (k + l)) := by
  rw [BitVec.add_assoc, ← BitVec.ofNat_add, ← Nat.mul_add]

section Sessions

variable {dv : PcieuniDev} (hfree : dv.devMut = false)
  (hlen : ∀ n m, (dv.bar n).memmoryBase = some m → (dv.bar n).length % 4 = 0)

include hfree hlen

/-- However the calls of a client that writes break off, they write the buffer from
where it stands, each register once and in order. -/
theorem writeAll_spec (buf : UserMem) {calls : List WriteCall} (hcalls : ∀ c ∈ calls, c.Admitted)
    (s : Session Regs) :
    ∃ k regs' log, writeAll dv buf calls s =
        .ok ⟨s.done + 4 * k, s.pos + BitVec.ofNat 64 (4 * k), regs', s.log ++ log⟩ ∧
      Written dv (fun b => buf (s.done + b)) s.pos k s.mem regs' ∧
      AccessedOnce dv s.pos k
        (fun j m off => .iowrite32 m off (copyFromUser buf (s.done + 4 * j))) log := by
  induction calls generalizing s with
  | nil => exact ⟨0, s.mem, [], by simp [writeAll], .inl ⟨rfl, rfl⟩, .inl ⟨rfl, rfl⟩⟩
  | cons c calls ih =>
      obtain ⟨hcount, hfuel⟩ := hcalls c (List.mem_cons_self ..)
      obtain ⟨k, r, hr, hret, hfpos, hwritten, honce⟩ :=
        write_call hlen s.mem (fun b => buf (s.done + b)) s.pos hcount hfuel
          (by rw [hfree]; exact mutexLockInterruptible_free _)
      obtain ⟨l, regs', log, hrest, hwritten', honce'⟩ :=
        ih (fun c hc => hcalls c (List.mem_cons_of_mem _ hc))
          ⟨s.done + 4 * k, s.pos + BitVec.ofNat 64 (4 * k), r.regs, s.log ++ r.log⟩
      refine ⟨k + l, regs', r.log ++ log, ?_, ?_, ?_⟩
      · simp only [writeAll, hr, hret, hfpos, hrest, advance_add, List.append_assoc]
        congr 2
        omega
      · apply hwritten.append
        simpa only [Nat.add_assoc] using hwritten'
      · simp only [copyFromUser_shift] at honce
        apply honce.append
        simpa only [Nat.add_assoc, Nat.mul_add] using honce'

/-- However the calls of a client that reads break off, they fill the buffer from where
it stands, and without faults they read each register once and in order. -/
theorem readAll_spec (regs : Regs) {calls : List ReadCall} (hcalls : ∀ c ∈ calls, c.Admitted)
    (s : Session UserMem) :
    ∃ k rest log, readAll dv regs calls s =
        .ok ⟨s.done + 4 * k, s.pos + BitVec.ofNat 64 (4 * k), fillFrom s.done s.mem rest,
          s.log ++ log⟩ ∧
      Fetched dv regs s.pos k rest ∧
      ((∀ c ∈ calls, ∀ b, c.env.left b = 0) →
        AccessedOnce dv s.pos k (fun _ m off => .ioread32 m off) log) := by
  induction calls generalizing s with
  | nil =>
      have hfill : fillFrom s.done s.mem (fun b => s.mem (s.done + b)) = s.mem := by
        funext b
        by_cases hb : b < s.done
        · exact if_pos hb
        · rw [fillFrom, if_neg hb, Nat.add_sub_cancel' (by omega)]
      exact ⟨0, fun b => s.mem (s.done + b), [], by simp [readAll, hfill], .inl rfl,
        fun _ => .inl ⟨rfl, rfl⟩⟩
  | cons c calls ih =>
      obtain ⟨hcount, hfuel⟩ := hcalls c (List.mem_cons_self ..)
      obtain ⟨k, r, hr, hret, hfpos, hfetched, honce⟩ :=
        read_call hlen regs (fun b => s.mem (s.done + b)) s.pos hcount hfuel
          (by rw [hfree]; exact mutexLockInterruptible_free _)
      obtain ⟨l, rest, log, hrest, hfetched', honce'⟩ :=
        ih (fun c hc => hcalls c (List.mem_cons_of_mem _ hc))
          ⟨s.done + 4 * k, s.pos + BitVec.ofNat 64 (4 * k), fillFrom s.done s.mem r.buf,
            s.log ++ r.log⟩
      refine ⟨k + l, fillFrom (4 * k) r.buf rest, r.log ++ log, ?_, hfetched.append hfetched', ?_⟩
      · simp only [readAll, hr, hret, hfpos, hrest, advance_add, fillFrom_fillFrom,
          List.append_assoc]
        congr 2
        omega
      · intro hleft
        exact (honce (hleft c (List.mem_cons_self ..))).append
          (honce' fun c hc => hleft c (List.mem_cons_of_mem _ hc))

/-- However a client cuts a write into calls, and whichever of them break off or fail,
the calls together are one write of the bytes that they report, down to the accesses
on the bus; and what a client then reads, in calls cut in whatever other way, is one
read and finds these bytes. -/
theorem session_roundTrip (regs : Regs) (buf out₀ : UserMem) (pos : BitVec 64)
    {writes : List WriteCall} {reads : List ReadCall} (hwrites : ∀ c ∈ writes, c.Admitted)
    (hreads : ∀ c ∈ reads, c.Admitted) :
    ∃ k l regs' out wlog rlog,
      writeAll dv buf writes ⟨0, pos, regs, []⟩ =
        .ok ⟨4 * k, pos + BitVec.ofNat 64 (4 * k), regs', wlog⟩ ∧
      readAll dv regs' reads ⟨0, pos, out₀, []⟩ =
        .ok ⟨4 * l, pos + BitVec.ofNat 64 (4 * l), out, rlog⟩ ∧
      (∀ b < 4 * min k l, out b = buf b) ∧
      (k = 0 → regs' = regs ∧ wlog = []) ∧
      AsOneWrite dv buf pos k regs regs' wlog ∧
      AsOneRead dv regs' pos l out (∀ c ∈ reads, ∀ b, c.env.left b = 0) rlog := by
  obtain ⟨k, regs', wlog, hwrite, hwritten, hwonce⟩ :=
    writeAll_spec hfree hlen buf hwrites ⟨0, pos, regs, []⟩
  obtain ⟨l, out, rlog, hread, hfetched, hronce⟩ :=
    readAll_spec hfree hlen regs' hreads ⟨0, pos, out₀, []⟩
  simp only [Nat.zero_add, List.nil_append, fillFrom_zero] at hwrite hwritten hwonce hread
  refine ⟨k, l, regs', out, wlog, rlog, hwrite, hread, ?_, ?_, ?_, ?_⟩
  · intro b hb
    rcases hwritten with ⟨rfl, -⟩ | ⟨m, hm, hstored⟩
    · omega
    rcases hfetched with rfl | ⟨m', hm', hbytes⟩
    · omega
    obtain rfl := hm.unique hm'
    have hsplit : b = 4 * (b / 4) + b % 4 := by omega
    rw [hsplit, hbytes (b / 4) (by omega) (b % 4) (by omega), wordAt,
      hstored.holds (b / 4) (by omega) (b % 4) (by omega)]
  · rintro rfl
    constructor
    · exact hwritten.regs_eq
    · rcases hwonce with ⟨-, rfl⟩ | ⟨m, -, rfl⟩ <;> rfl
  · rintro env ⟨hintr, hfault, hfuel⟩ hk hk31
    rcases hwritten with ⟨rfl, -⟩ | ⟨m, hm, hstored⟩
    · cases hk
    rcases hwonce with ⟨rfl, -⟩ | ⟨m', hm', rfl⟩
    · cases hk
    obtain rfl := hm.unique hm'
    obtain ⟨⟨ret, fPos, regs₁, log⟩, hr, rfl, rfl, hstored₁, rfl⟩ :=
      write_undisturbed hfree hlen regs buf hm hk hk31 hintr hfault hfuel
    obtain rfl := hstored.unique hstored₁
    exact hr
  · rintro env buf₁ ⟨hintr, hleft, hfuel⟩ hl hl31
    rcases hfetched with rfl | ⟨m, hm, hbytes⟩
    · cases hl
    obtain ⟨r, hr, hret, hfpos, hbytes₁, hlog⟩ :=
      read_undisturbed hfree hlen regs' buf₁ hm hl hl31 hintr hleft hfuel
    refine ⟨r, hr, hret, hfpos, fun b hb => ?_, fun hfaultFree => ?_⟩
    · have hsplit : b = 4 * (b / 4) + b % 4 := by omega
      rw [hsplit, hbytes₁ (b / 4) (by omega) (b % 4) (by omega),
        hbytes (b / 4) (by omega) (b % 4) (by omega)]
    · rcases hronce hfaultFree with ⟨rfl, -⟩ | ⟨m', hm', rfl⟩
      · cases hl
      · obtain rfl := hm.unique hm'
        exact hlog

end Sessions

/-- A bound device with one BAR, BAR 2, of four words. -/
private def fourWords : PcieuniDev :=
  { devSts := 1
    bar := fun n =>
      if n = 2 then
        { memBase := 0x1000, memBaseEnd := 0x100f, memmoryBase := some ⟨7, 2, 0⟩ }
      else {} }

/-- A write that is broken off by a signal, then by a fault of its second word, and then
asks for more than there is; read back in two calls. -/
theorem session_roundTrip_pieces : ∃ k l regs' out wlog rlog,
    writeAll fourWords (fun b => BitVec.ofNat 8 b)
        [⟨{ intr := true, fuel := 2 ^ 29 }, 16⟩, ⟨{ fault := fun b => b == 4, fuel := 2 ^ 29 }, 16⟩,
          ⟨{ fuel := 2 ^ 29 }, 64⟩] ⟨0, pcieuniBarOffsets 2, fun _ _ _ => 0, []⟩ =
      .ok ⟨4 * k, pcieuniBarOffsets 2 + BitVec.ofNat 64 (4 * k), regs', wlog⟩ ∧
    readAll fourWords regs' [⟨{ fuel := 2 ^ 29 }, 12⟩, ⟨{ fuel := 2 ^ 29 }, 12⟩]
        ⟨0, pcieuniBarOffsets 2, fun _ => 0, []⟩ =
      .ok ⟨4 * l, pcieuniBarOffsets 2 + BitVec.ofNat 64 (4 * l), out, rlog⟩ ∧
    (∀ b < 4 * min k l, out b = BitVec.ofNat 8 b) ∧
    AsOneWrite fourWords (fun b => BitVec.ofNat 8 b) (pcieuniBarOffsets 2) k (fun _ _ _ => 0) regs'
      wlog := by
  have hlen : ∀ n m, (fourWords.bar n).memmoryBase = some m → (fourWords.bar n).length % 4 = 0 := by
    intro n m hm
    by_cases hn : n = 2
    · subst hn
      decide
    · simp [fourWords, hn] at hm
  have hwrites : ∀ c ∈ [(⟨{ intr := true, fuel := 2 ^ 29 }, 16⟩ : WriteCall),
      ⟨{ fault := fun b => b == 4, fuel := 2 ^ 29 }, 16⟩, ⟨{ fuel := 2 ^ 29 }, 64⟩], c.Admitted := by
    simp [WriteCall.Admitted]
  have hreads : ∀ c ∈ [(⟨{ fuel := 2 ^ 29 }, 12⟩ : ReadCall), ⟨{ fuel := 2 ^ 29 }, 12⟩],
      c.Admitted := by
    simp [ReadCall.Admitted]
  obtain ⟨k, l, regs', out, wlog, rlog, hwrite, hread, hbytes, -, hone, -⟩ :=
    session_roundTrip rfl hlen (fun _ _ _ => 0) (fun b => BitVec.ofNat 8 b) (fun _ => 0)
      (pcieuniBarOffsets 2) hwrites hreads
  exact ⟨k, l, regs', out, wlog, rlog, hwrite, hread, hbytes, hone⟩

end Gpcieuni
