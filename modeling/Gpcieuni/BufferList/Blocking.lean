-- SUMMARY: When get_free blocks: what must hold of the order in which buffers are given back for it to wait, and to time out, only while nothing is free.
import Mathlib.Data.List.Infix
import Gpcieuni.BufferList.Cyclic
import Gpcieuni.BufferList.Shutdown

/-!
# When get_free blocks

Before the shutdown get_free looks at the buffer under the cursor only. It waits
although another buffer is free if that buffer has overtaken the one under the
cursor: it was handed out later and given back earlier, or it was appended behind
the back of the cursor. And it times out although another buffer is free if that
one is given back, or appended, during the wait.
-/

namespace Gpcieuni

namespace BufferList

/-! ## What steps do to buffers -/

/-- The step is the part of a set_free of `b` under the lock. -/
def GivesBack (x : Transition State Act (List Event)) (b : BufId) : Prop :=
  ∃ t, x.act = .run t ∧ x.pre.thread t = .setFree b

/-- The step is the part of an append of `b` under the lock. -/
def Links (x : Transition State Act (List Event)) (b : BufId) : Prop :=
  ∃ t, x.act = .run t ∧ x.pre.thread t = .append b

theorem Step.reserved_back {s s' : State} {a : Act} {out : List Event} (h : Step s a s' out)
    {b : BufId} (hb : s'.Reserved b) : s.Reserved b ∨ b ∈ handedOut out := by
  cases h with
  | @create c =>
      refine .inl (flag_of_update (c := c) hb rfl fun _ state hstate => ?_)
      cases hstate
      simp
  | @handOut t c =>
      by_cases hbc : b = c
      · subst hbc
        exact .inr (List.mem_singleton_self _)
      · exact .inl (flag_of_update (c := c) hb rfl fun heq => absurd heq hbc)
  | @setFree t c state =>
      refine .inl (flag_of_update (c := c) hb rfl fun _ state hstate => ?_)
      cases hstate
      simp
  | @destroy t c => exact .inl (flag_of_update (c := c) hb rfl fun _ state hstate => by cases hstate)
  | _ => exact .inl hb

theorem Step.handedOut {s s' : State} {a : Act} {out : List Event} (h : Step s a s' out)
    {b : BufId} (hb : b ∈ BufferList.handedOut out) : s.Available b ∧ s'.Reserved b := by
  cases h with
  | @handOut t c state ht hflag hnext hcell havail hmem =>
      obtain rfl := List.mem_singleton.mp hb
      exact ⟨⟨state, hcell, havail⟩, _, Function.update_self .., available_reservedState state⟩
  | _ => cases hb

theorem Step.mem_list {s s' : State} {a : Act} {out : List Event} (h : Step s a s' out)
    {b : BufId} (hb : b ∈ s'.list) :
    b ∈ s.list ∨ ∃ t, a = .run t ∧ s.thread t = .append b := by
  cases h with
  | @append t c ht =>
      rcases List.mem_append.mp hb with hold | hnew
      · exact .inl hold
      · obtain rfl := List.mem_singleton.mp hnew
        exact .inr ⟨t, rfl, ht⟩
  | destroy => exact .inl (List.mem_of_mem_erase hb)
  | leak => exact .inl (List.mem_of_mem_erase hb)
  | _ => exact .inl hb

theorem Advance.mem {s s' : State} {out : List Event} (h : Advance s s' out) {b : BufId}
    (hb : b ∈ s.list) : b ∈ s'.list := by
  cases h with
  | stay hlist => rwa [hlist]
  | append _ hlist => rw [hlist]; exact List.mem_append_left _ hb
  | handOut _ _ hlist => rwa [hlist]

/-! ## Runs before the shutdown -/

/-- What holds before the shutdown. -/
structure Serving (s : State) : Prop where
  inv : ListInv s
  ordered : Ordered s
  reserved : ∀ b, s.Reserved b → b ∈ s.list

theorem Step.serving {s s' : State} {a : Act} {out : List Event} (h : Step s a s' out)
    (hs : Serving s) (hdisc : Disciplined s a) (hflag : s'.shutDownFlag = 0) : Serving s' := by
  have hadv := (h.advance hs.ordered hflag).2
  refine ⟨h.inv hs.inv hdisc, h.ordered hs.ordered, fun b hb => ?_⟩
  rcases h.reserved_back hb with hbefore | hhere
  · exact hadv.mem (hs.reserved b hbefore)
  · exact hadv.mem (hadv.of_handedOut hhere).2.1

/-- A step of a run of disciplined callers before the shutdown. -/
structure Served (x : Transition State Act (List Event)) : Prop where
  step : bufferLts.step x.pre x.act = some (x.post, x.out)
  pre : Serving x.pre
  post : Serving x.post
  flag : x.post.shutDownFlag = 0
  advance : Advance x.pre x.post x.out

theorem run_served {s s' : State} {tr : List (Transition State Act (List Event))}
    (h : bufferLts.Run s tr s') (hinit : bufferLts.init s)
    (hdisc : ∀ x ∈ tr, Disciplined x.pre x.act) (hflag : s'.shutDownFlag = 0) :
    ∀ x ∈ tr, Served x := by
  have hall := (run_advances h (.of_init hinit) hflag).2
  have hserving := (h.preserves (I := Serving)
    (P := fun s a => Disciplined s a ∧ ∀ s' e, bufferLts.step s a = some (s', e) →
      s'.shutDownFlag = 0) ?_ ?_ ?_).2
  · intro x hx
    obtain ⟨-, -, hflag, hadv⟩ := hall x hx
    exact ⟨h.step_of_mem hx, (hserving x hx).1, (hserving x hx).2, hflag, hadv⟩
  · rintro s a s' e hs ⟨hdisc, hopen⟩ hstep
    exact (step_rules hstep).serving hs hdisc (hopen _ _ hstep)
  · refine ⟨.of_init hinit, .of_init hinit, ?_⟩
    obtain rfl : s = State.initial := hinit
    rintro b ⟨state, hcell, -⟩
    cases hcell
  · intro x hx
    refine ⟨hdisc x hx, fun s' e hstep => ?_⟩
    rw [h.step_of_mem hx] at hstep
    cases hstep
    exact (hall x hx).2.2.1

namespace Served

variable {x : Transition State Act (List Event)} (h : Served x) {b : BufId}

include h

/-- What is given back is on the list and available. -/
theorem givesBack (hb : GivesBack x b) : x.post.Available b ∧ b ∈ x.post.list := by
  obtain ⟨t, ha, ht⟩ := hb
  have hres := (h.pre.inv.owned.releasing t b (by rw [ht]; rfl)).1
  have hmem := h.advance.mem (h.pre.reserved b hres)
  obtain ⟨state, hcell, -⟩ := hres
  have hstep := h.step
  simp only [bufferLts, State.step, ha, State.run, ht, State.setFreeBody, hcell,
    Option.some.injEq, Prod.mk.injEq] at hstep
  refine ⟨⟨freedState state, ?_, available_freedState state⟩, hmem⟩
  rw [← hstep.1]
  exact Function.update_self ..

/-- What is appended is on the list and available. -/
theorem links (hb : Links x b) : x.post.Available b ∧ b ∈ x.post.list := by
  obtain ⟨t, ha, ht⟩ := hb
  obtain ⟨hlive, hnew, -⟩ := h.pre.inv.linked.appending t b (by rw [ht]; rfl)
  obtain ⟨state, hcell⟩ := hlive
  have hstep := h.step
  simp only [bufferLts, State.step, ha, State.run, ht, State.appendBody, hcell, hnew,
    not_false_eq_true, if_true, Option.some.injEq, Prod.mk.injEq] at hstep
  obtain ⟨hpost, -⟩ := hstep
  constructor
  · rcases State.Live.available_or_reserved ⟨state, hcell⟩ with ⟨state', hcell', havail⟩ | hres
    · exact ⟨state', by rw [← hpost]; exact hcell', havail⟩
    · exact absurd (h.pre.reserved b hres) hnew
  · rw [← hpost]
    exact List.mem_append_right _ (List.mem_singleton_self b)

theorem handedOut (hb : b ∈ BufferList.handedOut x.out) :
    x.pre.Available b ∧ x.post.Reserved b ∧ b ∈ x.post.list := by
  obtain ⟨havail, hres⟩ := (step_rules h.step).handedOut hb
  exact ⟨havail, hres, h.post.reserved b hres⟩

theorem reserved_unless (hb : x.pre.Reserved b) (hback : ¬ GivesBack x b) : x.post.Reserved b :=
  (step_rules h.step).reserved hb fun t ha ht => hback ⟨t, ha, ht⟩

end Served

/-! ## What a run does to a buffer -/

section Buffer

variable {s s' : State} {tr : List (Transition State Act (List Event))} {b : BufId}

end Buffer

/-! ## Overtaking -/

/-- Another buffer has overtaken `b` in the run `tr`: since `b` was handed out, and
while it was not given back, that buffer was handed out and given back, or it was
appended and not handed out. -/
def Overtaken (tr : List (Transition State Act (List Event))) (b : BufId) : Prop :=
  ∃ tr₁ y tr₂ c, tr = tr₁ ++ y :: tr₂ ∧ b ∈ handedOut y.out ∧ (∀ x ∈ tr₂, ¬ GivesBack x b) ∧
    ((∃ w₁ z w₂, tr₂ = w₁ ++ z :: w₂ ∧ c ∈ handedOut z.out ∧ ∃ x ∈ w₂, GivesBack x c) ∨
      (∃ x ∈ tr₂, Links x c) ∧ c ∉ handOuts tr₂)

/-- Thread `t` finds the buffer `b` reserved and goes to wait for it. -/
def BeginsWait (x : Transition State Act (List Event)) (t : Tid) (b : BufId) : Prop :=
  x.act = .run t ∧ x.post.thread t = .getFreeWait b

/-- A run with a wait of thread `t` for `b` that begins in the step `x` and times out
in the step `y`, so that get_free returns -EBUSY. -/
structure TimesOut (tr : List (Transition State Act (List Event)))
    (x : Transition State Act (List Event)) (w : List (Transition State Act (List Event)))
    (y : Transition State Act (List Event)) (t : Tid) (b : BufId) : Prop where
  split : ∃ tr₁ tr₂, tr = tr₁ ++ x :: (w ++ y :: tr₂)
  begins : BeginsWait x t b
  waiting : ∀ z ∈ w, z.post.thread t = .getFreeWait b
  busy : y.act = .wait t 0 ∧ y.out = [.returned t (.error (-ebusy))]

/-- No buffer on the list is available. -/
def NothingFree (s : State) : Prop := ∀ c ∈ s.list, ¬ s.Available c

/-- get_free does not wait for a buffer that another one has overtaken, and nothing is
given back or appended during a wait that times out. -/
structure GivenBackInTurn (tr : List (Transition State Act (List Event))) : Prop where
  waits : ∀ tr₁ x tr₂ t b, tr = tr₁ ++ x :: tr₂ → BeginsWait x t b → ¬ Overtaken tr₁ b
  busy : ∀ x w y t b, TimesOut tr x w y t b → ∀ z ∈ w, ∀ c, ¬ GivesBack z c ∧ ¬ Links z c

/-- Something becomes free only when it is given back or appended. -/
theorem Served.nothingFree {x : Transition State Act (List Event)} (h : Served x)
    (hs : NothingFree x.pre) (hquiet : ∀ c, ¬ GivesBack x c ∧ ¬ Links x c) : NothingFree x.post := by
  intro c hmem havail
  have hrule := step_rules h.step
  rcases hrule.mem_list hmem with hbefore | hlinks
  · rcases hrule.available havail with hfree | ⟨-, hunborn⟩ | hback
    · exact hs c hbefore hfree
    · obtain ⟨state, hlive⟩ := h.pre.inv.linked.live c hbefore
      rw [hunborn] at hlive
      cases hlive
    · exact (hquiet c).1 hback
  · exact (hquiet c).2 hlinks

section Waits

variable {s s' : State} {tr : List (Transition State Act (List Event))}
  (h : bufferLts.Run s tr s') (hinit : bufferLts.init s) (hall : ∀ x ∈ tr, Served x)

include h hall

/-- A wait that times out in a run, as a run of its own. -/
theorem TimesOut.run {x y : Transition State Act (List Event)}
    {w : List (Transition State Act (List Event))} {t : Tid} {b : BufId}
    (hout : TimesOut tr x w y t b) :
    Served x ∧ (∀ z ∈ w, Served z) ∧ bufferLts.Run x.post w y.pre := by
  obtain ⟨tr₁, tr₂, rfl⟩ := hout.split
  obtain ⟨s₁, -, hrest⟩ := h.of_append
  obtain ⟨-, -, hrun⟩ := hrest.of_cons
  obtain ⟨s₂, hwait, hlast⟩ := hrun.of_append
  obtain ⟨hpre, -, -⟩ := hlast.of_cons
  exact ⟨hall x (by simp), fun z hz => hall z (by simp [hz]), by rw [hpre]; exact hwait⟩

/-- What becomes free during a wait is free in the next state of the wait. -/
theorem TimesOut.quiet {x y : Transition State Act (List Event)}
    {w : List (Transition State Act (List Event))} {t : Tid} {b : BufId}
    (hout : TimesOut tr x w y t b) (hfree : ∀ z ∈ w ++ [y], NothingFree z.pre) :
    ∀ z ∈ w, ∀ c, ¬ GivesBack z c ∧ ¬ Links z c := by
  obtain ⟨-, hw, hrun⟩ := hout.run h hall
  intro z hz c
  obtain ⟨w₁, w₂, rfl⟩ := List.append_of_mem hz
  obtain ⟨s₁, -, hrest⟩ := hrun.of_append
  obtain ⟨-, -, hafter⟩ := hrest.of_cons
  have hpost : NothingFree z.post := by
    cases w₂ with
    | nil =>
        have hend : z.post = y.pre := by
          generalize y.pre = s₂ at hafter
          cases hafter
          rfl
        rw [hend]
        exact hfree y (by simp)
    | cons z' w₂ =>
        obtain ⟨hpre, -, -⟩ := hafter.of_cons
        rw [← hpre]
        exact hfree z' (by simp)
  refine ⟨fun hback => ?_, fun hlinks => ?_⟩
  · obtain ⟨havail, hmem⟩ := (hw z hz).givesBack hback
    exact hpost c hmem havail
  · obtain ⟨havail, hmem⟩ := (hw z hz).links hlinks
    exact hpost c hmem havail

end Waits

/-! ## Deciding the condition -/

section Decide

variable {x : Transition State Act (List Event)} {tr : List (Transition State Act (List Event))}
  {b : BufId}

/-- The thread that runs on in the step. -/
def Act.runner : Act → Option Tid
  | .run t => some t
  | _ => none

def Pc.givesBack : Pc → Option BufId
  | .setFree b => some b
  | _ => none

def Pc.links : Pc → Option BufId
  | .append b => some b
  | _ => none

def Pc.waitsFor : Pc → Option BufId
  | .getFreeWait b => some b
  | _ => none

@[simp] theorem Act.runner_eq_some {a : Act} {t : Tid} : a.runner = some t ↔ a = .run t := by
  cases a <;> simp [runner]

@[simp] theorem Pc.givesBack_eq_some {pc : Pc} : pc.givesBack = some b ↔ pc = .setFree b := by
  cases pc <;> simp [givesBack]

@[simp] theorem Pc.links_eq_some {pc : Pc} : pc.links = some b ↔ pc = .append b := by
  cases pc <;> simp [links]

@[simp] theorem Pc.waitsFor_eq_some {pc : Pc} : pc.waitsFor = some b ↔ pc = .getFreeWait b := by
  cases pc <;> simp [waitsFor]

/-- The buffer that the step gives back. -/
def givenBack (x : Transition State Act (List Event)) : Option BufId :=
  x.act.runner.bind fun t => (x.pre.thread t).givesBack

/-- The buffer that the step appends. -/
def linked (x : Transition State Act (List Event)) : Option BufId :=
  x.act.runner.bind fun t => (x.pre.thread t).links

/-- The thread that goes to wait in the step, and what it waits for. -/
def waitBegun (x : Transition State Act (List Event)) : Option (Tid × BufId) :=
  x.act.runner.bind fun t => (x.post.thread t).waitsFor.map fun b => (t, b)

theorem givesBack_iff : GivesBack x b ↔ givenBack x = some b := by
  simp [GivesBack, givenBack, Option.bind_eq_some_iff]

theorem links_iff : Links x b ↔ linked x = some b := by
  simp [Links, linked, Option.bind_eq_some_iff]

theorem beginsWait_iff {t : Tid} : BeginsWait x t b ↔ waitBegun x = some (t, b) := by
  simp [BeginsWait, waitBegun, Option.bind_eq_some_iff]

instance : Decidable (GivesBack x b) := decidable_of_iff _ givesBack_iff.symm

theorem quiet_iff : (∀ c, ¬ GivesBack x c ∧ ¬ Links x c) ↔ givenBack x = none ∧ linked x = none := by
  simp only [givesBack_iff, links_iff, Option.eq_none_iff_forall_ne_some]
  exact forall_and

/-- What the first step hands out is given back later. -/
def ComesBack : List (Transition State Act (List Event)) → Prop
  | [] => False
  | z :: w => ∃ c ∈ handedOut z.out, ∃ x ∈ w, GivesBack x c

instance : DecidablePred ComesBack
  | [] => isFalse id
  | z :: w => inferInstanceAs (Decidable (∃ c ∈ handedOut z.out, ∃ x ∈ w, GivesBack x c))

/-- The first step hands out `b`, and then another buffer overtakes it. -/
def OvertakenFrom (b : BufId) : List (Transition State Act (List Event)) → Prop
  | [] => False
  | y :: w => b ∈ handedOut y.out ∧ (∀ x ∈ w, ¬ GivesBack x b) ∧
      ((∃ l ∈ w.tails, ComesBack l) ∨ ∃ x ∈ w, ∃ c ∈ linked x, c ∉ handOuts w)

instance : DecidablePred (OvertakenFrom b)
  | [] => isFalse id
  | y :: w => inferInstanceAs (Decidable (b ∈ handedOut y.out ∧ (∀ x ∈ w, ¬ GivesBack x b) ∧
      ((∃ l ∈ w.tails, ComesBack l) ∨ ∃ x ∈ w, ∃ c ∈ linked x, c ∉ handOuts w)))

theorem overtaken_iff : Overtaken tr b ↔ ∃ l ∈ tr.tails, OvertakenFrom b l := by
  constructor
  · rintro ⟨tr₁, y, tr₂, c, rfl, hout, hback, hcase⟩
    refine ⟨y :: tr₂, (List.mem_tails _ _).mpr ⟨tr₁, rfl⟩, hout, hback, ?_⟩
    rcases hcase with ⟨w₁, z, w₂, rfl, hc, x, hx, hgives⟩ | ⟨⟨x, hx, hlinks⟩, hc⟩
    · exact .inl ⟨z :: w₂, (List.mem_tails _ _).mpr ⟨w₁, rfl⟩, c, hc, x, hx, hgives⟩
    · exact .inr ⟨x, hx, c, links_iff.mp hlinks, hc⟩
  · rintro ⟨l, hl, hover⟩
    obtain ⟨tr₁, rfl⟩ := (List.mem_tails _ _).mp hl
    cases l with
    | nil => cases hover
    | cons y w =>
        obtain ⟨hout, hback, ⟨l', hl', hcomes⟩ | ⟨x, hx, c, hc, hnot⟩⟩ := hover
        · obtain ⟨w₁, rfl⟩ := (List.mem_tails _ _).mp hl'
          cases l' with
          | nil => cases hcomes
          | cons z w₂ =>
              obtain ⟨c, hc, hgives⟩ := hcomes
              exact ⟨tr₁, y, _, c, rfl, hout, hback, .inl ⟨w₁, z, w₂, rfl, hc, hgives⟩⟩
        · exact ⟨tr₁, y, w, c, rfl, hout, hback, .inr ⟨⟨x, hx, links_iff.mpr hc⟩, hnot⟩⟩

instance : Decidable (Overtaken tr b) := decidable_of_iff _ overtaken_iff.symm

/-- No wait of `rest` begins at a buffer that was overtaken since the start of `done`. -/
def WaitsInTurn (done : List (Transition State Act (List Event))) :
    List (Transition State Act (List Event)) → Prop
  | [] => True
  | x :: rest => (∀ p ∈ waitBegun x, ¬ Overtaken done p.2) ∧ WaitsInTurn (done ++ [x]) rest

instance decidableWaitsInTurn (done : List (Transition State Act (List Event))) :
    DecidablePred (WaitsInTurn done)
  | [] => isTrue trivial
  | x :: rest =>
    have := decidableWaitsInTurn (done ++ [x]) rest
    inferInstanceAs (Decidable ((∀ p ∈ waitBegun x, ¬ Overtaken done p.2) ∧
      WaitsInTurn (done ++ [x]) rest))

theorem waitsInTurn_iff {done rest : List (Transition State Act (List Event))} :
    WaitsInTurn done rest ↔ ∀ tr₁ x tr₂ t b, rest = tr₁ ++ x :: tr₂ → BeginsWait x t b →
      ¬ Overtaken (done ++ tr₁) b := by
  induction rest generalizing done with
  | nil => simp [WaitsInTurn]
  | cons x rest ih =>
      rw [WaitsInTurn, ih]
      constructor
      · rintro ⟨hhere, hrest⟩ tr₁ y tr₂ t b hsplit hy
        cases tr₁ with
        | nil =>
            obtain ⟨rfl, -⟩ := List.cons.inj hsplit
            simpa using hhere (t, b) (beginsWait_iff.mp hy)
        | cons z tr₁ =>
            obtain ⟨rfl, hrest'⟩ := List.cons.inj hsplit
            simpa using hrest tr₁ y tr₂ t b hrest' hy
      · intro hall
        refine ⟨fun p hp => ?_, fun tr₁ y tr₂ t b hsplit hy => ?_⟩
        · simpa using hall [] x rest p.1 p.2 rfl (beginsWait_iff.mpr hp)
        · simpa using hall (x :: tr₁) y tr₂ t b (by rw [hsplit]; rfl) hy

/-- If a wait begins in the first step and times out, it is quiet until then. -/
def QuietWait : List (Transition State Act (List Event)) → Prop
  | [] => True
  | x :: l => ∀ p ∈ waitBegun x, ∀ n < l.length,
      (∀ z ∈ l.take n, z.post.thread p.1 = .getFreeWait p.2) →
      (∀ y ∈ l[n]?, y.act = .wait p.1 0 ∧ y.out = [.returned p.1 (.error (-ebusy))]) →
      ∀ z ∈ l.take n, givenBack z = none ∧ linked z = none

instance : DecidablePred QuietWait
  | [] => isTrue trivial
  | x :: l => inferInstanceAs (Decidable (∀ p ∈ waitBegun x, ∀ n < l.length,
      (∀ z ∈ l.take n, z.post.thread p.1 = .getFreeWait p.2) →
      (∀ y ∈ l[n]?, y.act = .wait p.1 0 ∧ y.out = [.returned p.1 (.error (-ebusy))]) →
      ∀ z ∈ l.take n, givenBack z = none ∧ linked z = none))

theorem quietWaits_iff :
    (∀ x w y t b, TimesOut tr x w y t b → ∀ z ∈ w, ∀ c, ¬ GivesBack z c ∧ ¬ Links z c) ↔
      ∀ l ∈ tr.tails, QuietWait l := by
  constructor
  · intro hall l hl
    obtain ⟨tr₁, rfl⟩ := (List.mem_tails _ _).mp hl
    cases l with
    | nil => trivial
    | cons x l =>
        rintro ⟨t, b⟩ hp n hn hwaiting hbusy z hz
        have hsplit : l = l.take n ++ l[n] :: l.drop (n + 1) := by simp
        refine quiet_iff.mp (hall x (l.take n) l[n] t b ⟨⟨tr₁, l.drop (n + 1), ?_⟩,
          beginsWait_iff.mpr hp, hwaiting, hbusy _ (by simp [hn])⟩ z hz)
        rw [← hsplit]
  · rintro hall x w y t b ⟨⟨tr₁, tr₂, rfl⟩, hbegins, hwaiting, hbusy⟩ z hz
    have hquiet := hall (x :: (w ++ y :: tr₂)) ((List.mem_tails _ _).mpr ⟨tr₁, rfl⟩) (t, b)
      (beginsWait_iff.mp hbegins) w.length (by simp)
    rw [List.take_left] at hquiet
    refine quiet_iff.mpr (hquiet hwaiting (fun y' hy' => ?_) z hz)
    obtain rfl : y = y' := by simpa using hy'
    exact hbusy

theorem givenBackInTurn_iff :
    GivenBackInTurn tr ↔ WaitsInTurn [] tr ∧ ∀ l ∈ tr.tails, QuietWait l := by
  rw [waitsInTurn_iff, ← quietWaits_iff]
  exact ⟨fun h => ⟨h.waits, h.busy⟩, fun h => ⟨h.1, h.2⟩⟩

instance : Decidable (GivenBackInTurn tr) := decidable_of_iff _ givenBackInTurn_iff.symm

end Decide

/-! ## Every run -/

end BufferList

end Gpcieuni
