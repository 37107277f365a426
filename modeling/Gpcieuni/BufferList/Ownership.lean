-- SUMMARY: Who owns a DMA buffer: the flags of the buffers, the holders, and the set_free calls under way.
import Gpcieuni.BufferList

/-!
# Ownership of buffers

A buffer that is not available belongs to somebody: to a holder, or to the one
set_free that is on its way to give it back. The invariant holds whatever the
other threads do between the sections of a call, because only a set_free of that
buffer can make it available again.
-/

namespace Gpcieuni

namespace BufferList

/-- What a thread is doing, as far as other threads depend on it. A walk of clear
is the entry it looks at and the one that it will go to next. -/
inductive Role where
  | outside
  | appending (b : BufId)
  | gettingFree
  | releasing (b : BufId)
  | clearing (walk : Option (Option BufId × Option BufId))
  | faulted

def Pc.role : Pc → Role
  | .idle | .setFreeWake => .outside
  | .appendLock b | .append b => .appending b
  | .getFreeLock | .getFree | .getFreeWait _ | .getFreeRelock | .getFreeAgain => .gettingFree
  | .setFreeLock b | .setFree b => .releasing b
  | .clearLock | .clear => .clearing none
  | .clearLoop pos tpos _ => .clearing (some (pos, tpos))
  | .clearWait b tpos | .clearRelock b tpos _ => .clearing (some (some b, tpos))
  | .fault => .faulted

theorem Pc.role_behindLock {pc pc' : Pc} (h : pc.behindLock = some pc') : pc'.role = pc.role := by
  cases pc <;> cases h <;> rfl

/-- The buffer `b` is allocated and not available. -/
def State.Reserved (s : State) (b : BufId) : Prop :=
  ∃ state, s.cell b = .live state ∧ Word.testBit bufferStateAvailable state = false

/-- The ownership invariant. -/
structure Owned (s : State) : Prop where
  /-- Exactly one of the two flags is set. -/
  flags : ∀ b state, s.cell b = .live state →
    Word.testBit bufferStateAvailable state = !Word.testBit bufferStateWaiting state
  held : ∀ b, s.held b = true → s.Reserved b
  releasing : ∀ t b, (s.thread t).role = .releasing b → s.Reserved b ∧ s.held b = false
  once : ∀ t u b, (s.thread t).role = .releasing b → (s.thread u).role = .releasing b → t = u

/-! ## Flags -/

@[simp] theorem available_createdState :
    Word.testBit bufferStateAvailable createdState = true := by decide

@[simp] theorem waiting_createdState : Word.testBit bufferStateWaiting createdState = false := by
  decide

@[simp] theorem available_reservedState (state : BitVec 64) :
    Word.testBit bufferStateAvailable (reservedState state) = false := by
  simp [reservedState, bufferStateAvailable, bufferStateWaiting]

@[simp] theorem waiting_reservedState (state : BitVec 64) :
    Word.testBit bufferStateWaiting (reservedState state) = true := by
  simp [reservedState, bufferStateAvailable, bufferStateWaiting]

@[simp] theorem available_freedState (state : BitVec 64) :
    Word.testBit bufferStateAvailable (freedState state) = true := by
  simp [freedState, bufferStateAvailable, bufferStateWaiting]

@[simp] theorem waiting_freedState (state : BitVec 64) :
    Word.testBit bufferStateWaiting (freedState state) = false := by
  simp [freedState, bufferStateAvailable, bufferStateWaiting]

/-! ## The rules -/

/-- A change of the memory of one buffer does not reserve or free another. -/
theorem State.Reserved.update {s s' : State} {b c : BufId} {cell : Cell} (h : s.Reserved c)
    (hne : c ≠ b) (hcell : s'.cell = Function.update s.cell b cell) : s'.Reserved c := by
  obtain ⟨state, hc, havail⟩ := h
  exact ⟨state, by rw [hcell, Function.update_of_ne hne, hc], havail⟩

/-- A buffer with a known state that is available or not allocated is not reserved. -/
theorem State.Reserved.ne {s : State} {b c : BufId} (h : s.Reserved c)
    (hb : ∀ state, s.cell b = .live state → Word.testBit bufferStateAvailable state = true) :
    c ≠ b := by
  rintro rfl
  obtain ⟨state, hcell, havail⟩ := h
  rw [hb state hcell] at havail
  cases havail

/-- The flags stay exclusive when one buffer gets a state with exclusive flags. -/
theorem Owned.flags_update {s : State} (hs : Owned s) {b : BufId} {cell : Cell}
    (hcell : ∀ state, cell = .live state →
      Word.testBit bufferStateAvailable state = !Word.testBit bufferStateWaiting state) :
    ∀ c state, Function.update s.cell b cell c = .live state →
      Word.testBit bufferStateAvailable state = !Word.testBit bufferStateWaiting state :=
  Threads.forall_update (Q := fun _ cell => ∀ state, cell = Cell.live state →
    Word.testBit bufferStateAvailable state = !Word.testBit bufferStateWaiting state) hcell
    (fun c _ => hs.flags c)

/-- One thread moves without touching buffers or holders, and it keeps its role
or takes one that releases nothing. -/
theorem Owned.move {s s' : State} (hs : Owned s) {t : Tid} {pc : Pc} (hcell : s'.cell = s.cell)
    (hheld : s'.held = s.held) (hthread : s'.thread = Function.update s.thread t pc)
    (hrole : pc.role = (s.thread t).role ∨ ∀ b, pc.role ≠ .releasing b) : Owned s' := by
  have hback : ∀ u b, (s'.thread u).role = .releasing b → (s.thread u).role = .releasing b := by
    rw [hthread]
    refine Threads.forall_update (Q := fun u pc => ∀ b, Pc.role pc = .releasing b →
      (s.thread u).role = .releasing b) ?_ (fun u _ b h => h)
    intro b hb
    rcases hrole with hsame | hnone
    · rw [← hsame]; exact hb
    · exact absurd hb (hnone b)
  have hreserved : ∀ b, s.Reserved b → s'.Reserved b := by
    rintro b ⟨state, hb, havail⟩
    exact ⟨state, by rw [hcell]; exact hb, havail⟩
  refine ⟨by rw [hcell]; exact hs.flags, ?_, ?_, ?_⟩
  · intro b hb
    rw [hheld] at hb
    exact hreserved b (hs.held b hb)
  · intro u b hb
    obtain ⟨hres, hfree⟩ := hs.releasing u b (hback u b hb)
    exact ⟨hreserved b hres, by rw [hheld]; exact hfree⟩
  · intro u v b hu hv
    exact hs.once u v b (hback u b hu) (hback v b hv)

/-- The memory of `b` changes while nobody holds or releases it: what the others
own stays reserved. -/
theorem Owned.change {s s' : State} (hs : Owned s) {t : Tid} {pc : Pc} {b : BufId} {cell : Cell}
    (hcell : s'.cell = Function.update s.cell b cell)
    (hflags : ∀ state, cell = .live state →
      Word.testBit bufferStateAvailable state = !Word.testBit bufferStateWaiting state)
    (hheld : ∀ c, s'.held c = true → c ≠ b ∧ s.held c = true ∨ c = b ∧ s'.Reserved b)
    (hnot : ∀ c, c ≠ b → s.held c = false → s'.held c = false)
    (hthread : s'.thread = Function.update s.thread t pc) (hpc : ∀ c, pc.role ≠ .releasing c)
    (hothers : ∀ u c, u ≠ t → (s.thread u).role = .releasing c → c ≠ b) : Owned s' := by
  have hback : ∀ u c, (s'.thread u).role = .releasing c →
      u ≠ t ∧ (s.thread u).role = .releasing c := by
    rw [hthread]
    refine Threads.forall_update (Q := fun u pc => ∀ c, Pc.role pc = .releasing c →
      u ≠ t ∧ (s.thread u).role = .releasing c) (fun c hc => absurd hc (hpc c)) ?_
    exact fun u hu c hc => ⟨hu, hc⟩
  refine ⟨by rw [hcell]; exact hs.flags_update hflags, ?_, ?_, ?_⟩
  · intro c hc
    rcases hheld c hc with ⟨hne, hold⟩ | ⟨rfl, hres⟩
    · exact (hs.held c hold).update hne hcell
    · exact hres
  · intro u c hc
    obtain ⟨hu, hold⟩ := hback u c hc
    have hne := hothers u c hu hold
    obtain ⟨hres, hfree⟩ := hs.releasing u c hold
    exact ⟨hres.update hne hcell, hnot c hne hfree⟩
  · intro u v c hu hv
    exact hs.once u v c (hback u c hu).2 (hback v c hv).2

/-- A buffer that is created is neither held nor being released. -/
theorem Owned.create {s : State} (hs : Owned s) {b : BufId} (hcell : s.cell b = .unborn) :
    Owned { s with cell := Function.update s.cell b (.live createdState) } := by
  have hne : ∀ c, s.Reserved c → c ≠ b := fun c hc =>
    hc.ne fun state hlive => by rw [hcell] at hlive; cases hlive
  refine ⟨hs.flags_update ?_, ?_, ?_, hs.once⟩
  · rintro state ⟨⟩
    simp
  · exact fun c hc => (hs.held c hc).update (hne c (hs.held c hc)) rfl
  · intro t c hc
    obtain ⟨hres, hfree⟩ := hs.releasing t c hc
    exact ⟨hres.update (hne c hres) rfl, hfree⟩

/-- The holder gives its buffer to a set_free; no other set_free of this buffer is
under way. -/
theorem Owned.callSetFree {s : State} (hs : Owned s) {t : Tid} {b : BufId}
    (hb : s.held b = true) :
    Owned { s.goto t (.setFreeLock b) with held := Function.update s.held b false } := by
  have hother : ∀ u, (s.thread u).role ≠ .releasing b := by
    intro u hu
    have := (hs.releasing u b hu).2
    rw [hb] at this
    cases this
  have hcases : ∀ u c, ((s.goto t (.setFreeLock b)).thread u).role = .releasing c →
      (u = t ∧ c = b) ∨ (s.thread u).role = .releasing c ∧ c ≠ b := by
    refine Threads.forall_update (Q := fun u pc => ∀ c, Pc.role pc = .releasing c →
      (u = t ∧ c = b) ∨ (s.thread u).role = .releasing c ∧ c ≠ b) ?_ ?_
    · rintro c ⟨⟩
      exact .inl ⟨rfl, rfl⟩
    · intro u _ c hc
      exact .inr ⟨hc, fun heq => hother u (heq ▸ hc)⟩
  refine ⟨hs.flags, ?_, ?_, ?_⟩
  · intro c hc
    by_cases hcb : c = b
    · subst hcb
      simp at hc
    · exact hs.held c (by simpa [hcb] using hc)
  · intro u c hc
    rcases hcases u c hc with ⟨rfl, rfl⟩ | ⟨hold, hne⟩
    · exact ⟨hs.held _ hb, by simp⟩
    · exact ⟨(hs.releasing u c hold).1, by simpa [hne] using (hs.releasing u c hold).2⟩
  · intro u v c hu hv
    rcases hcases u c hu with ⟨rfl, rfl⟩ | ⟨hu', hne⟩
    · rcases hcases v _ hv with ⟨rfl, -⟩ | ⟨-, hne⟩
      · rfl
      · exact absurd rfl hne
    · rcases hcases v c hv with ⟨-, rfl⟩ | ⟨hv', -⟩
      · exact absurd rfl hne
      · exact hs.once u v c hu' hv'

theorem Step.owned {s s' : State} {a : Act} {out : List Event} (h : Step s a s' out)
    (hs : Owned s) (hcall : Orderly s a) : Owned s' := by
  cases h with
  | create hcell => exact hs.create hcell
  | callAppend ht => exact hs.move rfl rfl rfl (.inr (by simp [Pc.role]))
  | callGetFree ht => exact hs.move rfl rfl rfl (.inr (by simp [Pc.role]))
  | callSetFree ht => exact hs.callSetFree hcall
  | callClear ht => exact hs.move rfl rfl rfl (.inr (by simp [Pc.role]))
  | lock ht => exact hs.move rfl rfl rfl (.inl (Pc.role_behindLock ht))
  | append ht => exact hs.move rfl rfl rfl (.inr (by simp [Pc.role]))
  | refuse ht => exact hs.move rfl rfl rfl (.inr (by simp [Pc.role]))
  | refuseLocked ht => exact hs.move rfl rfl rfl (.inr (by simp [Pc.role]))
  | @handOut t b state ht hflag hnext hcell havail hmem =>
      have hfree : ∀ c, s.Reserved c → c ≠ b := fun c hc =>
        hc.ne fun state' hlive => by rw [hcell] at hlive; cases hlive; exact havail
      refine hs.change rfl ?_ ?_ ?_ rfl (by simp [Pc.role]) ?_
      · rintro state' ⟨⟩
        simp
      · intro c hc
        by_cases hcb : c = b
        · subst hcb
          exact .inr ⟨rfl, _, Function.update_self .., by simp⟩
        · exact .inl ⟨hcb, by simpa [hcb] using hc⟩
      · intro c hne hfalse
        simpa [hne] using hfalse
      · exact fun u c _ hc => hfree c (hs.releasing u c hc).1
  | beginWait ht => exact hs.move rfl rfl rfl (.inr (by simp [Pc.role]))
  | giveUp ht => exact hs.move rfl rfl rfl (.inr (by simp [Pc.role]))
  | woken ht => exact hs.move rfl rfl rfl (.inr (by simp [Pc.role]))
  | @setFree t b state ht hcell =>
      have hrole : (s.thread t).role = .releasing b := by rw [ht]; rfl
      have hfree := (hs.releasing t b hrole).2
      refine hs.change rfl ?_ ?_ (fun c _ hc => hc) rfl (by simp [Pc.role]) ?_
      · rintro state' ⟨⟩
        simp
      · intro c hc
        refine .inl ⟨?_, hc⟩
        rintro rfl
        exact absurd (hc.symm.trans hfree) (by simp)
      · rintro u c hu hc rfl
        exact hu (hs.once u t c hc hrole)
  | wake ht => exact hs.move rfl rfl rfl (.inr (by simp [Pc.role]))
  | clear ht => exact hs.move rfl rfl rfl (.inr (by simp [Pc.role, State.loopAt]))
  | cleared ht => exact hs.move rfl rfl rfl (.inr (by simp [Pc.role]))
  | @destroy t b tpos code state ht hcell havail hmem hcode =>
      have hfree : ∀ c, s.Reserved c → c ≠ b := fun c hc =>
        hc.ne fun state' hlive => by rw [hcell] at hlive; cases hlive; exact havail
      refine hs.change rfl (by rintro state' ⟨⟩) ?_ (fun c _ hc => hc) rfl
        (by simp [Pc.role, State.loopAt]) ?_
      · exact fun c hc => .inl ⟨hfree c (hs.held c hc), hc⟩
      · exact fun u c _ hc => hfree c (hs.releasing u c hc).1
  | leak ht => exact hs.move rfl rfl rfl (.inr (by simp [Pc.role, State.loopAt]))
  | clearBusy ht => exact hs.move rfl rfl rfl (.inr (by simp [Pc.role]))
  | clearWaited ht => exact hs.move rfl rfl rfl (.inr (by simp [Pc.role]))
  | recheck => exact hs
  | fault => exact hs.move rfl rfl rfl (.inr (by simp [Pc.role]))

theorem Owned.of_init {s : State} (h : bufferLts.init s) : Owned s := by
  obtain rfl : s = State.initial := h
  exact ⟨by simp [State.initial], by simp [State.initial], by simp [State.initial, Pc.role],
    by simp [State.initial, Pc.role]⟩

/-! ## Handing out and destroying -/

/-- An available buffer is not held. -/
theorem Owned.not_held {s : State} (hs : Owned s) {b : BufId} {state : BitVec 64}
    (hcell : s.cell b = .live state) (havail : Word.testBit bufferStateAvailable state = true) :
    s.held b = false := by
  cases hheld : s.held b with
  | false => rfl
  | true =>
      refine absurd rfl ((hs.held b hheld).ne (b := b) fun state' hlive => ?_)
      rw [hcell] at hlive
      cases hlive
      exact havail

theorem Step.handOut_free {s s' : State} {a : Act} {out : List Event} (h : Step s a s' out)
    (hs : Owned s) {t : Tid} {b : BufId} (hout : .returned t (.buffer b) ∈ out) :
    s.held b = false := by
  cases h with
  | @handOut u c state ht hflag hnext hcell havail hmem =>
      obtain ⟨rfl, rfl⟩ : t = u ∧ b = c := by simpa using hout
      exact hs.not_held hcell havail
  | _ => simp at hout

theorem Step.destroy_free {s s' : State} {a : Act} {out : List Event} (h : Step s a s' out)
    (hs : Owned s) {b : BufId} (hout : .destroyed b ∈ out) : s.held b = false := by
  cases h with
  | @destroy t c tpos code state ht hcell havail hmem hcode =>
      obtain rfl : b = c := by simpa using hout
      exact hs.not_held hcell havail
  | _ => simp at hout

end BufferList

end Gpcieuni
