-- SUMMARY: get_free on a list without buffers: it is refused once clear has begun, and follows a null cursor before that.
import Gpcieuni.BufferList.Cyclic
import Gpcieuni.BufferList.Shutdown

/-!
# get_free on an empty list

The only thing that get_free checks before it follows the cursor is the shutdown
flag. The list is empty with the flag raised after clear, and with the flag down
before the first append; then the cursor is null. Before any of that, get_free has
to get the list lock, which a get_free that waited may have kept for ever. Nothing
here depends on how the callers use the list.
-/

namespace Gpcieuni

namespace BufferList

/-- Before the shutdown the cursor of an empty list is null. -/
def NullCursor (s : State) : Prop := s.shutDownFlag = 0 → s.list = [] → s.next = none

theorem Step.nullCursor {s s' : State} {a : Act} {out : List Event} (h : Step s a s' out)
    (hordered : Ordered s) (hs : NullCursor s) : NullCursor s' := by
  intro hflag hnil
  obtain ⟨hflag', hadv⟩ := h.advance hordered hflag
  cases hadv with
  | stay hlist hnext =>
      rw [hnext]
      exact hs hflag' (by rw [← hlist]; exact hnil)
  | append _ hlist =>
      rw [hlist] at hnil
      simp at hnil
  | handOut _ hmem hlist =>
      rw [hlist] at hnil
      rw [hnil] at hmem
      cases hmem

/-- Clear raises the shutdown flag in this step. -/
def BeginsClear (x : Transition State Act (List Event)) : Prop :=
  ∃ t, x.act = .run t ∧ x.pre.thread t = .clear

theorem BeginsClear.flag {x : Transition State Act (List Event)} (h : BeginsClear x)
    (hstep : bufferLts.step x.pre x.act = some (x.post, x.out)) : x.post.shutDownFlag ≠ 0 := by
  obtain ⟨t, ha, ht⟩ := h
  simp only [bufferLts, State.step, ha, State.run, ht, Option.some.injEq, Prod.mk.injEq] at hstep
  rw [← hstep.1]
  exact one_ne_zero

/-- The flag is up at the end of a run if it was before or if clear has begun in it. -/
theorem shutDownFlag_iff {s s' : State} {tr : List (Transition State Act (List Event))}
    (h : bufferLts.Run s tr s') :
    s'.shutDownFlag ≠ 0 ↔ s.shutDownFlag ≠ 0 ∨ ∃ x ∈ tr, BeginsClear x := by
  induction h with
  | nil => simp
  | @cons s₁ s₂ _ a e tr hstep _ ih =>
      have hhere : s₂.shutDownFlag ≠ 0 ↔ s₁.shutDownFlag ≠ 0 ∨ BeginsClear ⟨s₁, a, e, s₂⟩ := by
        constructor
        · intro hup
          rcases (step_rules hstep).shutDownFlag with hsame | ⟨-, hbegins⟩
          · exact .inl (by rw [← hsame]; exact hup)
          · exact .inr hbegins
        · rintro (hup | hbegins)
          · rcases (step_rules hstep).shutDownFlag with hsame | ⟨hone, -⟩
            · rw [hsame]; exact hup
            · rw [hone]; exact one_ne_zero
          · exact hbegins.flag hstep
      rw [ih, hhere, or_assoc]
      simp

/-- On an empty list get_free follows a null cursor unless the flag is up. -/
theorem step_getFree_empty {s : State} {t : Tid} (ht : s.thread t = .getFree)
    (hcursor : NullCursor s) (hnil : s.list = []) :
    bufferLts.step s (.run t) =
      if s.shutDownFlag ≠ 0 then some (s.unlock t .idle, [.returned t (.error (-enomem))])
      else some (s.goto t .fault, []) := by
  simp only [bufferLts, State.step, State.run, ht]
  split
  · rfl
  · rename_i hflag
    simp only [State.takeNext, hcursor (by simpa using hflag) hnil, State.fault]

/-! ## The lock -/

/-- Somebody holds the lock, and nobody is under it. -/
def Leaked (s : State) : Prop := s.lock ≠ none ∧ ∀ u, ¬ (s.thread u).Inside

/-- A lock that is lost stays so: nobody gets it, and nobody is there to give it back. -/
theorem Step.leaked {s s' : State} {a : Act} {out : List Event} (h : Step s a s' out)
    (hs : Leaked s) : Leaked s' := by
  obtain ⟨hlock, hout⟩ := hs
  have hgoto : ∀ {t : Tid} {pc : Pc}, ¬ pc.Inside →
      ∀ u, ¬ ((s.goto t pc).thread u).Inside := fun hpc =>
    Threads.forall_update (Q := fun _ (pc : Pc) => ¬ pc.Inside) hpc fun u _ => hout u
  have hinside : ∀ {t : Tid} {pc : Pc}, s.thread t = pc → ¬ pc.Inside := fun ht => ht ▸ hout _
  cases h with
  | create | recheck => exact ⟨hlock, hout⟩
  | callAppend | callGetFree | callSetFree | callClear | giveUp | woken | wake | clearWaited =>
      exact ⟨hlock, hgoto id⟩
  | lock _ hfree => exact absurd hfree hlock
  | append ht | refuse ht | refuseLocked ht | setFree ht | clear ht | cleared ht | destroy ht
  | leak ht | clearBusy ht => exact absurd trivial (hinside ht)
  | handOut ht | beginWait ht => rcases ht with ht | ht <;> exact absurd trivial (hinside ht)
  | fault hfault => exact absurd hfault.inside (hout _)

/-- A get_free that retakes the lock after its wait and finds the list shut down returns
with it. -/
theorem leaked_of_shut {s s' : State} {a : Act} {out : List Event}
    (hs : Threads.Guards s.lock Pc.Inside s.thread) (hshut : ¬ WaiterFindsOpen s a)
    (h : bufferLts.step s a = some (s', out)) : Leaked s' := by
  cases a with
  | run t =>
      simp only [WaiterFindsOpen, not_forall] at hshut
      obtain ⟨ht, hflag⟩ := hshut
      have hlock : s.lock = some t := (hs t).mp (by rw [ht]; trivial)
      simp only [bufferLts, State.step, State.run, ht, if_pos hflag, Option.some.injEq,
        Prod.mk.injEq] at h
      obtain ⟨rfl, -⟩ := h
      refine ⟨by simp [State.goto, hlock], Threads.forall_update
        (Q := fun _ (pc : Pc) => ¬ pc.Inside) id fun u hu hin => ?_⟩
      rw [(hs u).mp hin] at hlock
      exact hu (Option.some.inj hlock)
  | create | call | wait | recheck => exact absurd trivial hshut

/-- At the end of a run the lock guards the points under it, unless some get_free has
returned with it. -/
theorem guards_or_leaked {s s' : State} {tr : List (Transition State Act (List Event))}
    (h : bufferLts.Run s tr s') (hs : Threads.Guards s.lock Pc.Inside s.thread) :
    ((∀ x ∈ tr, WaiterFindsOpen x.pre x.act) ∧ Threads.Guards s'.lock Pc.Inside s'.thread) ∨
      ((¬ ∀ x ∈ tr, WaiterFindsOpen x.pre x.act) ∧ Leaked s') := by
  induction h with
  | nil => exact .inl ⟨by simp, hs⟩
  | @cons s₁ s₂ s₃ a out tr hstep hrest ih =>
      by_cases hopen : WaiterFindsOpen s₁ a
      · rcases ih ((step_rules hstep).guards hs hopen) with ⟨hall, hend⟩ | ⟨hnot, hend⟩
        · exact .inl ⟨by simpa [hopen] using hall, hend⟩
        · exact .inr ⟨fun hall => hnot fun x hx => hall x (List.mem_cons_of_mem _ hx), hend⟩
      · refine .inr ⟨fun hall => hopen (hall _ (List.mem_cons_self ..)), ?_⟩
        exact (hrest.preserves (I := Leaked) (P := fun _ _ => True)
          (fun _ _ _ _ hs _ hstep => (step_rules hstep).leaked hs)
          (leaked_of_shut hs hopen hstep) fun _ _ => trivial).1

/-! ## The call -/

/-- The get_free of thread `t`, which stands before its `spin_lock`, gets the lock,
returns -ENOMEM, and follows no pointer. -/
def RefusesUntouched (s : State) (t : Tid) : Prop :=
  ∃ s₁ s₂, bufferLts.step s (.run t) = some (s₁, []) ∧ s.touched (.run t) = [] ∧
    bufferLts.step s₁ (.run t) = some (s₂, [.returned t (.error (-enomem))]) ∧
    s₁.touched (.run t) = []

theorem refusesUntouched_iff {s : State} {t : Tid} (ht : s.thread t = .getFreeLock)
    (hcursor : NullCursor s) (hnil : s.list = []) :
    RefusesUntouched s t ↔ s.shutDownFlag ≠ 0 ∧ s.lock = none := by
  have hlock : bufferLts.step s (.run t) =
      if s.lock = none then some ({ s.goto t .getFree with lock := some t }, []) else none := by
    simp only [bufferLts, State.step, State.run, ht, State.acquire]
  have hbody := step_getFree_empty (s := { s.goto t .getFree with lock := some t }) (t := t)
    (Function.update_self ..) hcursor hnil
  constructor
  · rintro ⟨s₁, s₂, htakes, -, hreturns, -⟩
    rw [hlock] at htakes
    split at htakes
    · rename_i hfree
      cases htakes
      rw [hbody] at hreturns
      split at hreturns
      · rename_i hflag
        exact ⟨hflag, hfree⟩
      · cases hreturns
    · cases htakes
  · rintro ⟨hflag, hfree⟩
    exact ⟨_, _, hlock.trans (if_pos hfree), by simp [State.touched, ht],
      hbody.trans (if_pos hflag), by simp [State.touched, State.goto, hflag]⟩

/-- In every state without buffers that any calls lead to, the get_free that a thread has
called and that stands before its `spin_lock` gets the lock, returns -ENOMEM and follows
no pointer if and only if clear has begun before and the lock is free. When nobody is
under the lock, it is free exactly if no get_free has returned with it. -/
theorem getFree_empty_iff {s s' : State} {tr : List (Transition State Act (List Event))} {t : Tid}
    (h : bufferLts.Run s tr s') (hinit : bufferLts.init s) (hnil : s'.list = [])
    (ht : s'.thread t = .getFreeLock) :
    (RefusesUntouched s' t ↔ (∃ x ∈ tr, BeginsClear x) ∧ s'.lock = none) ∧
      ((∀ u, ¬ (s'.thread u).Inside) →
        (s'.lock = none ↔ ∀ x ∈ tr, WaiterFindsOpen x.pre x.act)) := by
  obtain rfl : s = State.initial := hinit
  have hcursor : NullCursor s' := by
    exact (h.preserves (I := fun s => Ordered s ∧ NullCursor s) (P := fun _ _ => True)
      (fun s a s' e hs _ hstep => ⟨(step_rules hstep).ordered hs.1,
        (step_rules hstep).nullCursor hs.1 hs.2⟩) ⟨.of_init rfl, fun _ _ => rfl⟩
      (fun _ _ => trivial)).1.2
  have hflag : s'.shutDownFlag ≠ 0 ↔ ∃ x ∈ tr, BeginsClear x := by
    rw [shutDownFlag_iff h]
    simp [State.initial]
  have hstart : Threads.Guards State.initial.lock Pc.Inside State.initial.thread :=
    fun u => iff_of_false id (by simp [State.initial])
  refine ⟨by rw [refusesUntouched_iff ht hcursor hnil, hflag], fun hrest => ?_⟩
  rcases guards_or_leaked h hstart with ⟨hopen, hguards⟩ | ⟨hshut, hleaked⟩
  · refine iff_of_true ?_ hopen
    cases hlock : s'.lock with
    | none => rfl
    | some u => exact absurd ((hguards u).mpr hlock) (hrest u)
  · exact iff_of_false hleaked.1 hshut

/-- A get_free after the list was cleared. -/
theorem getFree_empty_iff_cleared : ∃ tr s',
    bufferLts.Run State.initial tr s' ∧
    tr.map (·.act) = [.create 0, .call 0 (.append 0), .run 0, .run 0, .call 0 .clear, .run 0,
      .run 0, .run 0, .run 0, .call 1 .getFree] ∧
    s'.list = [] ∧ s'.thread 1 = .getFreeLock ∧ RefusesUntouched s' 1 := by
  obtain ⟨tr, s', hrun, hacts, hend⟩ := Lts.Run.of_exec_map (M := bufferLts)
    (g := fun r => (r.2.list, r.2.thread 1, r.2.lock,
      r.1.any fun x => decide (x.act = .run 0 ∧ x.pre.thread 0 = .clear)))
    (v := ([], .getFreeLock, none, true)) (s := State.initial)
    (l := [.create 0, .call 0 (.append 0), .run 0, .run 0, .call 0 .clear, .run 0, .run 0, .run 0,
      .run 0, .call 1 .getFree]) (by decide +kernel)
  simp only [Prod.mk.injEq] at hend
  obtain ⟨hnil, ht, hfree, hclear⟩ := hend
  obtain ⟨x, hx, hbegins⟩ := List.any_eq_true.mp hclear
  exact ⟨tr, s', hrun, hacts, hnil, ht, (getFree_empty_iff hrun rfl hnil ht).1.mpr
    ⟨⟨x, hx, 0, of_decide_eq_true hbegins⟩, hfree⟩⟩

/-- A get_free before the first append follows a null pointer. -/
theorem getFree_follows_null : ∃ tr s' s'',
    bufferLts.Run State.initial tr s' ∧ tr.map (·.act) = [.call 0 .getFree] ∧
    s'.list = [] ∧ s'.next = none ∧ s'.thread 0 = .getFreeLock ∧
    bufferLts.step s' (.run 0) = some (s'', []) ∧
    bufferLts.step s'' (.run 0) = some (s''.goto 0 .fault, []) ∧ ¬ RefusesUntouched s' 0 := by
  obtain ⟨tr, s', hrun, hacts, hend⟩ := Lts.Run.of_exec_map (M := bufferLts)
    (g := fun r => (r.2.list, r.2.next, r.2.thread 0, r.2.shutDownFlag, r.2.lock))
    (v := ([], none, .getFreeLock, 0, none)) (s := State.initial) (l := [.call 0 .getFree])
    (by decide +kernel)
  simp only [Prod.mk.injEq] at hend
  obtain ⟨hnil, hnext, ht, hflag, hfree⟩ := hend
  have hlock : bufferLts.step s' (.run 0) =
      some ({ s'.goto 0 .getFree with lock := some 0 }, []) := by
    simp only [bufferLts, State.step, State.run, ht, State.acquire, if_pos hfree]
  have hbody := step_getFree_empty (s := { s'.goto 0 .getFree with lock := some 0 }) (t := 0)
    (by simp [State.goto]) (fun _ _ => hnext) hnil
  refine ⟨tr, s', _, hrun, hacts, hnil, hnext, ht, hlock,
    hbody.trans (if_neg fun hup => hup hflag), fun hrefuses => ?_⟩
  exact ((refusesUntouched_iff ht (fun _ _ => hnext) hnil).mp hrefuses).1 hflag

end BufferList

end Gpcieuni
