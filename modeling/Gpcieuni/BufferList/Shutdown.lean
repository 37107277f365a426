-- SUMMARY: What clear does with the buffers that it takes off the list: it destroys them once, unless they are given back too late.
import Gpcieuni.BufferList.Destroyed
import Gpcieuni.BufferList.Lock

/-!
# Shutting the list down

Clear takes a buffer off the list as soon as it finds it available, and destroys
it if the last wait for it was a success. A buffer that is given back between a
wait that timed out and the lock after it is therefore taken off the list and not
destroyed.
-/

namespace Gpcieuni

namespace BufferList

/-- The buffer `b` is allocated and available. -/
def State.Available (s : State) (b : BufId) : Prop :=
  ∃ state, s.cell b = .live state ∧ Word.testBit bufferStateAvailable state = true

/-- `test_bit(BUFFER_STATE_AVAILABLE, …)` on an allocated buffer. -/
def State.isAvailable (s : State) (b : BufId) : Bool :=
  match s.cell b with
  | .live state => Word.testBit bufferStateAvailable state
  | _ => false

theorem State.isAvailable_iff {s : State} {b : BufId} : s.isAvailable b = true ↔ s.Available b := by
  unfold State.isAvailable State.Available
  cases s.cell b <;> simp

theorem State.Available.not_reserved {s : State} {b : BufId} (h : s.Available b) :
    ¬ s.Reserved b := by
  rintro ⟨state, hcell, hres⟩
  obtain ⟨state', hcell', havail⟩ := h
  rw [hcell] at hcell'
  cases hcell'
  rw [hres] at havail
  cases havail

theorem State.Live.available_or_reserved {s : State} {b : BufId} (h : s.Live b) :
    s.Available b ∨ s.Reserved b := by
  obtain ⟨state, hcell⟩ := h
  cases havail : Word.testBit bufferStateAvailable state with
  | true => exact .inl ⟨state, hcell, havail⟩
  | false => exact .inr ⟨state, hcell, havail⟩

/-! ## Mutual exclusion -/

/-- Only the holder of the lock is at a point behind a `spin_lock`. -/
theorem Step.excludes {s s' : State} {a : Act} {out : List Event} (h : Step s a s' out)
    (hs : Threads.Excludes s.lock Pc.Inside s.thread) :
    Threads.Excludes s'.lock Pc.Inside s'.thread := by
  cases h with
  | create => exact hs
  | callAppend => exact hs.move (by simp [Pc.Inside])
  | callGetFree => exact hs.move (by simp [Pc.Inside])
  | callSetFree => exact hs.move (by simp [Pc.Inside])
  | callClear => exact hs.move (by simp [Pc.Inside])
  | lock ht hlock =>
      rw [hlock] at hs
      exact hs.acquire
  | append ht => exact hs.release (by rw [ht]; trivial) id
  | refuse ht => exact hs.release (by rw [ht]; trivial) id
  | refuseLocked => exact hs.move (by simp [Pc.Inside])
  | handOut ht => exact hs.release (by rcases ht with ht | ht <;> rw [ht] <;> trivial) id
  | beginWait ht => exact hs.release (by rcases ht with ht | ht <;> rw [ht] <;> trivial) id
  | giveUp => exact hs.move (by simp [Pc.Inside])
  | woken => exact hs.move (by simp [Pc.Inside])
  | setFree ht => exact hs.release (by rw [ht]; trivial) id
  | wake => exact hs.move (by simp [Pc.Inside])
  | clear ht => exact hs.move (by simp [ht, Pc.Inside, State.loopAt])
  | cleared ht => exact hs.release (by rw [ht]; trivial) id
  | destroy ht => exact hs.move (by simp [ht, Pc.Inside, State.loopAt])
  | leak ht => exact hs.move (by simp [ht, Pc.Inside, State.loopAt])
  | clearBusy ht => exact hs.release (by rw [ht]; trivial) id
  | clearWaited => exact hs.move (by simp [Pc.Inside])
  | recheck => exact hs
  | fault hfault => exact hs.move (fun _ => hfault.inside)

theorem excludes_of_init {s : State} (h : bufferLts.init s) :
    Threads.Excludes s.lock Pc.Inside s.thread := by
  obtain rfl : s = State.initial := h
  exact fun t hin => absurd hin id

/-- Only clear raises the shutdown flag, and nobody lowers it. -/
theorem Step.shutDownFlag {s s' : State} {a : Act} {out : List Event} (h : Step s a s' out) :
    s'.shutDownFlag = s.shutDownFlag ∨
      s'.shutDownFlag = 1 ∧ ∃ t, a = .run t ∧ s.thread t = .clear := by
  cases h with
  | @clear t ht => exact .inr ⟨rfl, t, rfl, ht⟩
  | _ => exact .inl rfl

/-! ## Which buffers become available -/

/-- A buffer whose flag is `v` after a change of the memory of one buffer had it
before, unless it is that buffer. -/
theorem flag_of_update {s s' : State} {b c : BufId} {cell : Cell} {v : Bool}
    (hb : ∃ state, s'.cell b = .live state ∧ Word.testBit bufferStateAvailable state = v)
    (hcell : s'.cell = Function.update s.cell c cell)
    (hc : b = c → ∀ state, cell = .live state → Word.testBit bufferStateAvailable state ≠ v) :
    ∃ state, s.cell b = .live state ∧ Word.testBit bufferStateAvailable state = v := by
  obtain ⟨state, hlive, hflag⟩ := hb
  rw [hcell] at hlive
  by_cases hbc : b = c
  · rw [hbc, Function.update_self] at hlive
    exact absurd hflag (hc hbc state hlive)
  · rw [Function.update_of_ne hbc] at hlive
    exact ⟨state, hlive, hflag⟩

/-- A step makes a buffer available when it creates it or gives it back. -/
theorem Step.available {s s' : State} {a : Act} {out : List Event} (h : Step s a s' out)
    {b : BufId} (hb : s'.Available b) :
    s.Available b ∨ a = .create b ∧ s.cell b = .unborn ∨
      ∃ t, a = .run t ∧ s.thread t = .setFree b := by
  cases h with
  | @create c hcell =>
      by_cases hbc : b = c
      · subst hbc
        exact .inr (.inl ⟨rfl, hcell⟩)
      · exact .inl (flag_of_update hb rfl fun heq => absurd heq hbc)
  | @handOut t c state =>
      refine .inl (flag_of_update (c := c) hb rfl fun _ state' hstate => ?_)
      cases hstate
      simp
  | @setFree t c state ht =>
      by_cases hbc : b = c
      · subst hbc
        exact .inr (.inr ⟨t, rfl, ht⟩)
      · exact .inl (flag_of_update hb rfl fun heq => absurd heq hbc)
  | @destroy t c => exact .inl (flag_of_update (c := c) hb rfl fun _ state hstate => by cases hstate)
  | _ => exact .inl hb

/-- A reserved buffer stays reserved until it is given back. -/
theorem Step.reserved {s s' : State} {a : Act} {out : List Event} (h : Step s a s' out)
    {b : BufId} (hb : s.Reserved b) (hkept : ∀ t, a = .run t → s.thread t ≠ .setFree b) :
    s'.Reserved b := by
  have hfree : ∀ {c : BufId} {state : BitVec 64}, s.cell c = .live state →
      Word.testBit bufferStateAvailable state = true → b ≠ c := by
    intro c state hcell havail
    apply hb.ne
    intro state' hcell'
    rw [hcell] at hcell'
    cases hcell'
    exact havail
  cases h with
  | @create c hcell =>
      refine hb.update (b := c) (hb.ne fun state hlive => ?_) rfl
      rw [hcell] at hlive
      cases hlive
  | handOut _ _ _ hcell havail => exact hb.update (hfree hcell havail) rfl
  | @setFree t c state ht =>
      refine hb.update (b := c) ?_ rfl
      rintro rfl
      exact hkept t rfl ht
  | destroy _ hcell havail => exact hb.update (hfree hcell havail) rfl
  | _ => exact hb

/-- Clear looks at `b`, or is about to, and the last wait for it was no success. -/
def State.TimedOutAt (s : State) (t : Tid) (b : BufId) : Prop :=
  ∃ tpos code, code ≤ 0 ∧
    (s.thread t = .clearRelock b tpos code ∨ s.thread t = .clearLoop (some b) tpos code)

/-- A thread comes to the point after a wait of clear from that wait. -/
theorem Step.clearRelock {s s' : State} {a : Act} {out : List Event} (h : Step s a s' out)
    {t : Tid} {b : BufId} {tpos : Option BufId} {code : Int}
    (ht : s'.thread t = .clearRelock b tpos code) :
    s.thread t = .clearRelock b tpos code ∨
      a = .wait t code ∧ s.thread t = .clearWait b tpos ∧ s.waitReturns b code = true ∧
        s'.cell = s.cell := by
  cases h with
  | create => exact .inl ht
  | recheck => exact .inl ht
  | @lock u pc hpc =>
      refine .inl (Threads.eq_of_update ht ?_)
      rintro rfl
      cases hs : s.thread u <;> rw [hs] at hpc <;> cases hpc
  | @clearWaited u c tpos' code' hu hwait =>
      by_cases htu : t = u
      · subst htu
        simp only [State.goto, Function.update_self, Pc.clearRelock.injEq] at ht
        obtain ⟨rfl, rfl, rfl⟩ := ht
        exact .inr ⟨rfl, hu, hwait, rfl⟩
      · simp only [State.goto, Function.update_of_ne htu] at ht
        exact .inl ht
  | _ => exact .inl (Threads.eq_of_update ht (by simp [State.loopAt]))

/-- A thread comes to a turn of the loop that follows a wait from the lock after it. -/
theorem Step.clearLoop {s s' : State} {a : Act} {out : List Event} (h : Step s a s' out)
    {t : Tid} {b : BufId} {tpos : Option BufId} {code : Int}
    (ht : s'.thread t = .clearLoop (some b) tpos code) (hcode : code ≠ 1) :
    s.thread t = .clearLoop (some b) tpos code ∨ s.thread t = .clearRelock b tpos code := by
  have hloop : ∀ (list : List BufId) (pos : Option BufId),
      State.loopAt list pos ≠ .clearLoop (some b) tpos code := by
    intro list pos heq
    simp only [State.loopAt, Pc.clearLoop.injEq] at heq
    exact hcode heq.2.2.symm
  cases h with
  | create => exact .inl ht
  | recheck => exact .inl ht
  | @lock u pc hpc =>
      by_cases htu : t = u
      · subst htu
        simp only [State.goto, Function.update_self] at ht
        subst ht
        cases hs : s.thread t <;> rw [hs] at hpc <;> cases hpc
        exact .inr rfl
      · simp only [State.goto, Function.update_of_ne htu] at ht
        exact .inl ht
  | clear => exact .inl (Threads.eq_of_update ht (hloop _ _))
  | destroy => exact .inl (Threads.eq_of_update ht (hloop _ _))
  | leak => exact .inl (Threads.eq_of_update ht (hloop _ _))
  | _ => exact .inl (Threads.eq_of_update ht (by simp))

/-- A thread comes to such a point from a wait. -/
theorem Step.timedOutAt {s s' : State} {a : Act} {out : List Event} (h : Step s a s' out)
    {t : Tid} {b : BufId} (hb : s'.TimedOutAt t b) :
    s.TimedOutAt t b ∨
      ∃ tpos code, a = .wait t code ∧ code ≤ 0 ∧ s.thread t = .clearWait b tpos ∧
        s.waitReturns b code = true ∧ s'.cell = s.cell := by
  obtain ⟨tpos, code, hcode, hpc | hpc⟩ := hb
  · rcases h.clearRelock hpc with hold | ⟨ha, ht, hwait, hcell⟩
    · exact .inl ⟨tpos, code, hcode, .inl hold⟩
    · exact .inr ⟨tpos, code, ha, hcode, ht, hwait, hcell⟩
  · rcases h.clearLoop hpc (by omega) with hold | hlock
    · exact .inl ⟨tpos, code, hcode, .inr hold⟩
    · exact .inl ⟨tpos, code, hcode, .inl hlock⟩

/-! ## Buffers that are given back too late -/

/-- The step does not give back a buffer between a wait for it that timed out and
the lock that clear takes after it, and it is not a wait of clear that fails
although the buffer is available. -/
def NoLateRelease (s : State) : Act → Prop
  | .run u => ∀ b, s.thread u = .setFree b →
      ∀ t tpos code, s.thread t = .clearRelock b tpos code → 0 < code
  | .wait t code => ∀ b tpos, s.thread t = .clearWait b tpos → s.Available b → 0 < code
  | _ => True

/-- A buffer that clear has waited for without success is not available. -/
def TimedOutBusy (s : State) : Prop := ∀ t b, s.TimedOutAt t b → ¬ s.Available b

theorem State.TimedOutAt.role {s : State} {t : Tid} {b : BufId} (h : s.TimedOutAt t b) :
    ∃ tpos, (s.thread t).role = .clearing (some (some b, tpos)) := by
  obtain ⟨tpos, code, -, hpc | hpc⟩ := h
  · exact ⟨tpos, by rw [hpc]; rfl⟩
  · exact ⟨tpos, by rw [hpc]; rfl⟩

theorem Step.timedOutBusy {s s' : State} {a : Act} {out : List Event} (h : Step s a s' out)
    (hlinked : Linked s) (hexcl : Threads.Excludes s.lock Pc.Inside s.thread)
    (hs : TimedOutBusy s) (hlate : NoLateRelease s a) : TimedOutBusy s' := by
  intro t b htimed havail
  rcases h.timedOutAt htimed with hold | ⟨tpos, code, rfl, hcode, hwait, -, hcell⟩
  · rcases h.available havail with hbefore | ⟨rfl, hunborn⟩ | ⟨u, rfl, hu⟩
    · exact hs t b hold hbefore
    · obtain ⟨tpos, hrole⟩ := hold.role
      obtain ⟨state, hlive⟩ := hlinked.live b ((hlinked.walk t _ _ hrole).2.1 b rfl)
      rw [hunborn] at hlive
      cases hlive
    · obtain ⟨tpos, code, hcode, hpc | hpc⟩ := hold
      · have := hlate b hu t tpos code hpc
        omega
      · -- both would hold the lock
        have htu : t = u := hexcl.unique (by rw [hpc]; trivial) (by rw [hu]; trivial)
        subst htu
        rw [hpc] at hu
        cases hu
  · have hbefore : s.Available b := by
      obtain ⟨state, hlive, hbit⟩ := havail
      exact ⟨state, by rw [← hcell]; exact hlive, hbit⟩
    have := hlate b tpos hwait hbefore
    omega

/-- A buffer leaves the list when clear finds it available. It is destroyed, or
the last wait for it was no success. -/
theorem Step.unlinks {s s' : State} {a : Act} {out : List Event} (h : Step s a s' out)
    {b : BufId} (hb : b ∈ s.list) (hgone : b ∉ s'.list) :
    s.Available b ∧ (.destroyed b ∈ out ∨
      ∃ t tpos code, a = .run t ∧ s.thread t = .clearLoop (some b) tpos code ∧ code ≤ 0 ∧
        out = []) := by
  cases h with
  | append => exact absurd (List.mem_append_left _ hb) hgone
  | @destroy t c tpos code state ht hcell havail hmem hcode =>
      have hbc : b = c := by
        by_contra hne
        exact hgone ((List.mem_erase_of_ne hne).mpr hb)
      subst hbc
      exact ⟨⟨state, hcell, havail⟩, .inl (List.mem_singleton_self _)⟩
  | @leak t c tpos code state ht hcell havail hmem hcode =>
      have hbc : b = c := by
        by_contra hne
        exact hgone ((List.mem_erase_of_ne hne).mpr hb)
      subst hbc
      exact ⟨⟨state, hcell, havail⟩, .inr ⟨t, tpos, code, rfl, ht, hcode, rfl⟩⟩
  | _ => exact absurd hb hgone

/-! ## A buffer is destroyed once -/

theorem Step.destroyed {s s' : State} {a : Act} {out : List Event} (h : Step s a s' out)
    {b : BufId} (hout : .destroyed b ∈ out) :
    s.Available b ∧ s'.cell b = .destroyed ∧ out = [.destroyed b] := by
  cases h with
  | @destroy t c tpos code state ht hcell havail hmem hcode =>
      obtain rfl : b = c := by simpa using hout
      exact ⟨⟨state, hcell, havail⟩, Function.update_self .., rfl⟩
  | _ => simp at hout

theorem Step.stays_destroyed {s s' : State} {a : Act} {out : List Event} (h : Step s a s' out)
    {b : BufId} (hb : s.cell b = .destroyed) : s'.cell b = .destroyed := by
  have hother : ∀ {c : BufId} {cell : Cell}, s.cell c ≠ .destroyed →
      s'.cell = Function.update s.cell c cell → s'.cell b = .destroyed := by
    intro c cell hc hcell
    have hbc : b ≠ c := by
      rintro rfl
      exact hc hb
    rw [hcell, Function.update_of_ne hbc, hb]
  cases h with
  | create hcell => exact hother (by rw [hcell]; exact Cell.noConfusion) rfl
  | handOut _ _ _ hcell => exact hother (by rw [hcell]; exact Cell.noConfusion) rfl
  | setFree _ hcell => exact hother (by rw [hcell]; exact Cell.noConfusion) rfl
  | destroy _ hcell => exact hother (by rw [hcell]; exact Cell.noConfusion) rfl
  | _ => exact hb

/-- How often `b` is destroyed in a run. -/
def destructions (tr : List (Transition State Act (List Event))) (b : BufId) : Nat :=
  (tr.flatMap (·.out)).count (.destroyed b)

theorem destructions_of_destroyed {s s' : State} {tr : List (Transition State Act (List Event))}
    (h : bufferLts.Run s tr s') {b : BufId} (hb : s.cell b = .destroyed) :
    destructions tr b = 0 := by
  induction h with
  | nil => rfl
  | cons hstep _ ih =>
      have hrule := step_rules hstep
      have hrest := ih (hrule.stays_destroyed hb)
      simp only [destructions, List.flatMap_cons, List.count_append] at hrest ⊢
      rw [hrest, Nat.add_zero]
      apply List.count_eq_zero.mpr
      intro hout
      obtain ⟨⟨state, hlive, -⟩, -⟩ := hrule.destroyed hout
      rw [hb] at hlive
      cases hlive

/-- A buffer whose destruction is seen in a run is destroyed once in it. -/
theorem destructions_eq_one {s s' : State} {tr : List (Transition State Act (List Event))}
    (h : bufferLts.Run s tr s') {b : BufId} {x : Transition State Act (List Event)} (hx : x ∈ tr)
    (hout : .destroyed b ∈ x.out) : destructions tr b = 1 := by
  induction h with
  | nil => cases hx
  | @cons s₁ s₂ _ a e tr hstep hrest ih =>
      have hrule := step_rules hstep
      simp only [destructions, List.flatMap_cons, List.count_append] at ih ⊢
      by_cases hhere : .destroyed b ∈ e
      · obtain ⟨-, hdead, heq⟩ := hrule.destroyed hhere
        have hafter := destructions_of_destroyed hrest hdead
        rw [destructions] at hafter
        rw [hafter, heq, List.count_singleton_self]
      · rw [List.count_eq_zero.mpr hhere, Nat.zero_add]
        cases hx with
        | head => exact absurd hout hhere
        | tail _ hmem => exact ih hmem

/-! ## No leak -/

/-- The invariants of the list together. -/
structure ListInv (s : State) : Prop where
  owned : Owned s
  linked : Linked s
  excludes : Threads.Excludes s.lock Pc.Inside s.thread

theorem ListInv.of_init {s : State} (h : bufferLts.init s) : ListInv s :=
  ⟨.of_init h, .of_init h, excludes_of_init h⟩

theorem Step.inv {s s' : State} {a : Act} {out : List Event} (h : Step s a s' out) (hs : ListInv s)
    (hdisc : Disciplined s a) : ListInv s' :=
  ⟨h.owned hs.owned hdisc.orderly, h.linked hs.owned hs.linked hdisc, h.excludes hs.excludes⟩

/-- Every buffer that the step takes off the list, it destroys, and the run does
so once. -/
def UnlinksDestroy (tr : List (Transition State Act (List Event)))
    (x : Transition State Act (List Event)) : Prop :=
  ∀ b ∈ x.pre.list, b ∉ x.post.list →
    x.pre.Available b ∧ .destroyed b ∈ x.out ∧ destructions tr b = 1

/-! ### Late releases leak -/

/-- The thread that takes a step. -/
def Act.tid : Act → Option Tid
  | .create _ => none
  | .call t _ | .run t | .wait t _ | .recheck t => some t

theorem Step.thread_of_ne {s s' : State} {a : Act} {out : List Event} (h : Step s a s' out)
    {t : Tid} (ha : a.tid ≠ some t) : s'.thread t = s.thread t := by
  have hother : ∀ {u : Tid} {pc : Pc}, some u ≠ some t →
      Function.update s.thread u pc t = s.thread t := by
    intro u pc hne
    exact Function.update_of_ne (fun heq => hne (congrArg some heq.symm)) _ _
  cases h with
  | create => rfl
  | recheck => rfl
  | _ => exact hother ha

/-- Before the shutdown a buffer can be handed out; after it, it stays available
until it is destroyed. -/
theorem Step.still_available {s s' : State} {a : Act} {out : List Event} (h : Step s a s' out)
    {b : BufId} (hb : s.Available b) (hflag : s.shutDownFlag ≠ 0) :
    s'.Available b ∨ .destroyed b ∈ out := by
  have hupdate : ∀ {c : BufId} {cell : Cell}, (b = c → ∃ state, cell = .live state ∧
      Word.testBit bufferStateAvailable state = true) →
      s'.cell = Function.update s.cell c cell → s'.Available b := by
    intro c cell hc hcell
    by_cases hbc : b = c
    · obtain ⟨state, rfl, havail⟩ := hc hbc
      exact ⟨state, by rw [hcell, hbc, Function.update_self], havail⟩
    · obtain ⟨state, hlive, havail⟩ := hb
      exact ⟨state, by rw [hcell, Function.update_of_ne hbc, hlive], havail⟩
  cases h with
  | create => exact .inl (hupdate (fun _ => ⟨_, rfl, available_createdState⟩) rfl)
  | handOut _ hopen => exact absurd hopen hflag
  | setFree => exact .inl (hupdate (fun _ => ⟨_, rfl, available_freedState _⟩) rfl)
  | @destroy t c =>
      by_cases hbc : b = c
      · subst hbc
        exact .inr (List.mem_singleton_self _)
      · exact .inl (hupdate (fun heq => absurd heq hbc) rfl)
  | _ => exact .inl hb

/-- Once a buffer is available behind a wait that timed out, clear takes it off
the list without destroying it as soon as it goes on. -/
theorem timedOut_available_step {s s' : State} {a : Act} {out : List Event} (hinv : ListInv s)
    {t : Tid} {b : BufId} (htimed : s.TimedOutAt t b) (havail : s.Available b)
    (h : bufferLts.step s a = some (s', out)) :
    (s'.TimedOutAt t b ∧ s'.Available b) ∨ b ∈ s.list ∧ b ∉ s'.list ∧ .destroyed b ∉ out := by
  have hrule := step_rules h
  obtain ⟨tpos₀, hrole⟩ := htimed.role
  obtain ⟨hflag, hpos, -⟩ := hinv.linked.walk t _ _ hrole
  have hmem := hpos b rfl
  by_cases ha : a.tid = some t
  · obtain ⟨tpos, code, hcode, hpc | hpc⟩ := htimed
    · -- the thread waits for the lock
      cases a with
      | create c => cases ha
      | run u =>
          cases ha
          simp only [bufferLts, State.step, State.run, hpc, State.acquire] at h
          split at h
          · cases h
            exact .inl ⟨⟨tpos, code, hcode, .inr (by simp [State.goto])⟩, havail⟩
          · cases h
      | call u c => cases ha; simp [bufferLts, State.step, State.call, hpc] at h
      | wait u code => cases ha; simp [bufferLts, State.step, State.wait, hpc] at h
      | recheck u => cases ha; simp [bufferLts, State.step, State.recheck, hpc] at h
    · cases a with
      | create c => cases ha
      | run u =>
          cases ha
          obtain ⟨state, hcell, hbit⟩ := havail
          have hnot : ¬ 0 < code := by omega
          simp only [bufferLts, State.step, State.run, hpc, State.clearBody, hcell, hbit, hmem,
            hnot, if_true, if_false] at h
          cases h
          exact .inr ⟨hmem, hinv.linked.nodup.not_mem_erase, by simp⟩
      | call u c => cases ha; simp [bufferLts, State.step, State.call, hpc] at h
      | wait u code => cases ha; simp [bufferLts, State.step, State.wait, hpc] at h
      | recheck u => cases ha; simp [bufferLts, State.step, State.recheck, hpc] at h
  · have hsame := hrule.thread_of_ne ha
    rcases hrule.still_available havail hflag with hafter | hout
    · left
      refine ⟨?_, hafter⟩
      unfold State.TimedOutAt at htimed ⊢
      rwa [hsame]
    · -- only one thread clears the list
      cases hrule with
      | @destroy u c tpos code state hu =>
          have htu := hinv.linked.clearOnce t u _ _ hrole (by rw [hu]; rfl)
          exact absurd (congrArg some htu.symm) ha
      | _ => simp at hout

/-- A late release leaves its buffer available behind the wait that timed out. -/
theorem timedOut_available_of_late {s s' : State} {a : Act} {out : List Event} (hinv : ListInv s)
    (hlate : ¬ NoLateRelease s a) (h : bufferLts.step s a = some (s', out)) :
    ∃ t b, s'.TimedOutAt t b ∧ s'.Available b := by
  cases a with
  | run u =>
      simp only [NoLateRelease, not_forall] at hlate
      obtain ⟨b, hu, t, tpos, code, ht, hcode⟩ := hlate
      have htu : t ≠ u := by
        rintro rfl
        rw [ht] at hu
        cases hu
      obtain ⟨state, hcell, -⟩ := (hinv.owned.releasing u b (by rw [hu]; rfl)).1
      simp only [bufferLts, State.step, State.run, hu, State.setFreeBody, hcell] at h
      cases h
      refine ⟨t, b, ⟨tpos, code, by omega, .inl ?_⟩, ⟨freedState state, ?_, ?_⟩⟩
      · simp [State.unlock, State.goto, htu, ht]
      · exact Function.update_self ..
      · exact available_freedState state
  | wait t code =>
      simp only [NoLateRelease, not_forall] at hlate
      obtain ⟨b, tpos, ht, havail, hcode⟩ := hlate
      simp only [bufferLts, State.step, State.wait, ht] at h
      split at h
      · cases h
        exact ⟨t, b, ⟨tpos, code, by omega, .inl (by simp [State.goto])⟩, havail⟩
      · cases h
  | create | call | recheck => exact absurd trivial hlate

/-- A buffer that is available behind a wait that timed out has leaked when clear
is over. -/
theorem leaks_of_timedOut_available {s s' : State}
    {tr : List (Transition State Act (List Event))} (h : bufferLts.Run s tr s') (hinv : ListInv s)
    (hdisc : ∀ x ∈ tr, Disciplined x.pre x.act)
    (hover : ∀ t walk, (s'.thread t).role ≠ .clearing walk) {t : Tid} {b : BufId}
    (htimed : s.TimedOutAt t b) (havail : s.Available b) :
    ∃ x ∈ tr, b ∈ x.pre.list ∧ b ∉ x.post.list ∧ .destroyed b ∉ x.out := by
  induction h with
  | nil =>
      obtain ⟨tpos, hrole⟩ := htimed.role
      exact absurd hrole (hover t _)
  | @cons s₁ s₂ _ a e tr hstep _ ih =>
      rcases timedOut_available_step hinv htimed havail hstep with ⟨htimed', havail'⟩ | hleak
      · have hinv' := (step_rules hstep).inv hinv (hdisc _ (List.mem_cons_self ..))
        obtain ⟨x, hx, hleak⟩ := ih hinv' (fun x hx => hdisc x (List.mem_cons_of_mem _ hx)) hover
          htimed' havail'
        exact ⟨x, List.mem_cons_of_mem _ hx, hleak⟩
      · exact ⟨_, List.mem_cons_self .., hleak⟩

theorem noLateRelease_of_unlinks {s s' : State} {tr : List (Transition State Act (List Event))}
    (h : bufferLts.Run s tr s') (hinv : ListInv s) (hdisc : ∀ x ∈ tr, Disciplined x.pre x.act)
    (hover : ∀ t walk, (s'.thread t).role ≠ .clearing walk)
    (hunlink : ∀ x ∈ tr, ∀ b ∈ x.pre.list, b ∉ x.post.list → .destroyed b ∈ x.out) :
    ∀ x ∈ tr, NoLateRelease x.pre x.act := by
  induction h with
  | nil => simp
  | @cons s₁ s₂ _ a e tr hstep hrest ih =>
      have hinv' := (step_rules hstep).inv hinv (hdisc _ (List.mem_cons_self ..))
      have hdisc' : ∀ x ∈ tr, Disciplined x.pre x.act :=
        fun x hx => hdisc x (List.mem_cons_of_mem _ hx)
      have hhere : NoLateRelease s₁ a := by
        by_contra hlate
        obtain ⟨t, b, htimed, havail⟩ := timedOut_available_of_late hinv hlate hstep
        obtain ⟨x, hx, hin, hout, hkept⟩ :=
          leaks_of_timedOut_available hrest hinv' hdisc' hover htimed havail
        exact hkept (hunlink x (List.mem_cons_of_mem _ hx) b hin hout)
      intro x hx
      cases hx with
      | head => exact hhere
      | tail _ hmem =>
          exact ih hinv' hdisc' hover (fun x hx => hunlink x (List.mem_cons_of_mem _ hx)) x hmem

/-- In a run without late releases, clear destroys every buffer that it takes off
the list. -/
theorem unlinksDestroy_of_noLateRelease {s s' : State} {tr : List (Transition State Act (List Event))}
    (h : bufferLts.Run s tr s') (hinit : bufferLts.init s)
    (hdisc : ∀ x ∈ tr, Disciplined x.pre x.act) (hlate : ∀ x ∈ tr, NoLateRelease x.pre x.act) :
    ∀ x ∈ tr, UnlinksDestroy tr x := by
  have hstart : ListInv s ∧ TimedOutBusy s := by
    refine ⟨.of_init hinit, ?_⟩
    obtain rfl : s = State.initial := hinit
    rintro t b ⟨tpos, code, -, hpc | hpc⟩ <;> cases hpc
  have hall := h.preserves (I := fun s => ListInv s ∧ TimedOutBusy s)
    (P := fun s a => Disciplined s a ∧ NoLateRelease s a) ?_ hstart
    (fun x hx => ⟨hdisc x hx, hlate x hx⟩)
  · intro x hx b hb hgone
    have hrule := step_rules (h.step_of_mem hx)
    obtain ⟨havail, hdestroyed | ⟨t, tpos, code, -, ht, hcode, -⟩⟩ := hrule.unlinks hb hgone
    · exact ⟨havail, hdestroyed, destructions_eq_one h hx hdestroyed⟩
    · exact absurd havail ((hall.2 x hx).1.2 t b ⟨tpos, code, hcode, .inr ht⟩)
  · rintro s a s' e ⟨hs, hbusy⟩ ⟨hd, hl⟩ hstep
    have hrule := step_rules hstep
    exact ⟨hrule.inv hs hd, hrule.timedOutBusy hs.linked hs.excludes hbusy hl⟩

/-- In every run of disciplined callers without late releases, every buffer that
clear takes off the list is available and is destroyed once. A run in which clear
has come to its end has this property only if it has no late release. -/
theorem run_unlinksDestroy {s s' : State} {tr : List (Transition State Act (List Event))}
    (h : bufferLts.Run s tr s') (hinit : bufferLts.init s)
    (hdisc : ∀ x ∈ tr, Disciplined x.pre x.act) :
    ((∀ x ∈ tr, NoLateRelease x.pre x.act) → ∀ x ∈ tr, UnlinksDestroy tr x) ∧
    ((∀ t walk, (s'.thread t).role ≠ .clearing walk) → (∀ x ∈ tr, UnlinksDestroy tr x) →
      ∀ x ∈ tr, NoLateRelease x.pre x.act) := by
  refine ⟨unlinksDestroy_of_noLateRelease h hinit hdisc, fun hover hunlink => ?_⟩
  exact noLateRelease_of_unlinks h (.of_init hinit) hdisc hover
    (fun x hx b hb hgone => (hunlink x hx b hb hgone).2.1)

/-! ## Waits that succeed -/

/-- The step is not a wait of clear that ends without success. -/
def WaitSucceeds (s : State) : Act → Prop
  | .wait t code =>
    match s.thread t with
    | .clearWait .. => 0 < code
    | _ => True
  | _ => True

instance waitSucceedsDecidable (s : State) (a : Act) : Decidable (WaitSucceeds s a) :=
  match a with
  | .wait t code =>
    match h : s.thread t with
    | .clearWait .. => decidable_of_iff (0 < code) (by simp only [WaitSucceeds, h])
    | .idle | .appendLock _ | .append _ | .getFreeLock | .getFree | .getFreeWait _
    | .getFreeRelock | .getFreeAgain | .setFreeLock _ | .setFree _ | .setFreeWake | .clearLock
    | .clear | .clearLoop .. | .clearRelock .. | .fault =>
      isTrue (by simp only [WaitSucceeds, h])
  | .create _ | .call .. | .run _ | .recheck _ => isTrue trivial

theorem WaitSucceeds.pos {s : State} {t : Tid} {code : Int} {b : BufId} {tpos : Option BufId}
    (h : WaitSucceeds s (.wait t code)) (ht : s.thread t = .clearWait b tpos) : 0 < code := by
  simp only [WaitSucceeds, ht] at h
  exact h

/-- No wait of clear has ended without success. -/
def NoTimeout (s : State) : Prop := ∀ t b, ¬ s.TimedOutAt t b

theorem NoTimeout.of_init {s : State} (h : bufferLts.init s) : NoTimeout s := by
  obtain rfl : s = State.initial := h
  rintro t b ⟨tpos, code, -, hpc | hpc⟩ <;> cases hpc

theorem Step.noTimeout {s s' : State} {a : Act} {out : List Event} (h : Step s a s' out)
    (hs : NoTimeout s) (hwait : WaitSucceeds s a) : NoTimeout s' := by
  intro t b htimed
  rcases h.timedOutAt htimed with hold | ⟨tpos, code, rfl, hcode, ht, -⟩
  · exact hs t b hold
  · have := hwait.pos ht
    omega

theorem NoTimeout.noLateRelease {s : State} {a : Act} (hs : NoTimeout s)
    (hwait : WaitSucceeds s a) : NoLateRelease s a := by
  cases a with
  | run u =>
      intro b _ t tpos code ht
      by_contra hcode
      exact hs t b ⟨tpos, code, by omega, .inl ht⟩
  | wait t code => exact fun b tpos ht _ => hwait.pos ht
  | create | call | recheck => trivial

/-- In a run whose waits succeed nothing is released late. -/
theorem noLateRelease_of_waitSucceeds {s s' : State}
    {tr : List (Transition State Act (List Event))} (h : bufferLts.Run s tr s')
    (hs : NoTimeout s) (hwait : ∀ x ∈ tr, WaitSucceeds x.pre x.act) :
    ∀ x ∈ tr, NoLateRelease x.pre x.act := by
  have hall := h.preserves (I := NoTimeout) (P := WaitSucceeds)
    (fun s a s' e hs hw hstep => (step_rules hstep).noTimeout hs hw) hs hwait
  exact fun x hx => (hall.2 x hx).1.noLateRelease (hwait x hx)

/-- Clear waits for a buffer that its holder gives back in time. -/
theorem run_unlinksDestroy_inTime : ∃ tr s',
    bufferLts.Run State.initial tr s' ∧
    tr.map (·.act) = [.create 0, .call 0 (.append 0), .run 0, .run 0, .call 0 .getFree, .run 0,
      .run 0, .call 1 .clear, .run 1, .run 1, .run 1, .call 0 (.setFree 0), .run 0, .run 0,
      .wait 1 5, .run 1, .run 1, .run 1] ∧
    s'.list = [] ∧ ∀ x ∈ tr, UnlinksDestroy tr x := by
  obtain ⟨tr, s', hrun, hacts, hend⟩ := Lts.Run.of_exec_map (M := bufferLts)
    (g := fun r => (r.1.all fun x => decide (Disciplined x.pre x.act),
      r.1.all fun x => decide (WaitSucceeds x.pre x.act), r.2.list)) (v := (true, true, []))
    (s := State.initial)
    (l := [.create 0, .call 0 (.append 0), .run 0, .run 0, .call 0 .getFree, .run 0, .run 0,
      .call 1 .clear, .run 1, .run 1, .run 1, .call 0 (.setFree 0), .run 0, .run 0, .wait 1 5,
      .run 1, .run 1, .run 1]) (by decide +kernel)
  obtain ⟨hdisc, hrest⟩ := Prod.mk.inj hend
  obtain ⟨hwait, hlist⟩ := Prod.mk.inj hrest
  refine ⟨tr, s', hrun, hacts, hlist, (run_unlinksDestroy hrun rfl (by simpa using hdisc)).1 ?_⟩
  exact noLateRelease_of_waitSucceeds hrun (.of_init rfl) (by simpa using hwait)

/-- The holder gives its buffer back right after the wait of clear timed out. The
buffer is available when clear takes it off the list, and it is not destroyed. -/
theorem clear_leaks_late_release : ∃ tr s',
    bufferLts.Run State.initial tr s' ∧
    tr.map (·.act) = [.create 0, .call 0 (.append 0), .run 0, .run 0, .call 0 .getFree, .run 0,
      .run 0, .call 1 .clear, .run 1, .run 1, .run 1, .wait 1 0, .call 0 (.setFree 0), .run 0,
      .run 0, .run 1, .run 1, .run 1] ∧
    (∀ x ∈ tr, Disciplined x.pre x.act) ∧ s'.list = [] ∧ s'.cell 0 = .live (freedState
      (reservedState createdState)) ∧ ¬ ∀ x ∈ tr, UnlinksDestroy tr x := by
  obtain ⟨tr, s', hrun, hacts, hend⟩ := Lts.Run.of_exec_map (M := bufferLts)
    (g := fun r => (r.1.all fun x => decide (Disciplined x.pre x.act), r.2.list, r.2.cell 0,
      r.1.any fun x => decide (0 ∈ x.pre.list ∧ 0 ∉ x.post.list ∧ .destroyed 0 ∉ x.out)))
    (v := (true, [], .live (freedState (reservedState createdState)), true))
    (s := State.initial)
    (l := [.create 0, .call 0 (.append 0), .run 0, .run 0, .call 0 .getFree, .run 0, .run 0,
      .call 1 .clear, .run 1, .run 1, .run 1, .wait 1 0, .call 0 (.setFree 0), .run 0, .run 0,
      .run 1, .run 1, .run 1]) (by decide +kernel)
  obtain ⟨hdisc, hrest⟩ := Prod.mk.inj hend
  obtain ⟨hlist, hrest⟩ := Prod.mk.inj hrest
  obtain ⟨hcell, hleak⟩ := Prod.mk.inj hrest
  refine ⟨tr, s', hrun, hacts, by simpa using hdisc, hlist, hcell, fun hall => ?_⟩
  obtain ⟨x, hx, hkept⟩ := List.any_eq_true.mp hleak
  obtain ⟨hin, hgone, hnot⟩ := of_decide_eq_true hkept
  exact hnot (hall x hx 0 hin hgone).2.1

end BufferList

end Gpcieuni
