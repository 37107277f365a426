-- SUMMARY: The buffer list refines a pool with atomic operations, and what that says of callers that give buffers back in the order of the hand-outs.
import Gpcieuni.Lib.Simulation
import Gpcieuni.BufferList.Pool
import Gpcieuni.BufferList.Blocking

/-!
# The buffer list as a pool

Before the shutdown the list with its cursor is a ring, and the flags of the
buffers say which of them are free. Each call takes effect in one step under the
list lock; everything else that its thread does is internal.
-/

namespace Gpcieuni

namespace BufferList

/-! ## The abstraction -/

/-- The operation that a step performs on the pool. -/
def poolOp (x : Transition State Act (List Event)) : List (Pool.Op BufId) :=
  match x.act with
  | .run t =>
    match x.pre.thread t with
    | .append b => [.append b]
    | .setFree b => [.release b]
    | .getFree | .getFreeAgain =>
      match x.post.thread t with
      | .getFreeWait b => [.wait b]
      | _ => (handedOut x.out).map .take
    | _ => []
  | _ => []

/-- The operations of a run, in their order. -/
def poolOps (tr : List (Transition State Act (List Event))) : List (Pool.Op BufId) :=
  tr.flatMap poolOp

/-- The list is the ring of the pool, and the buffers that are not free are reserved. -/
structure Represents (s : State) (p : Pool BufId) : Prop where
  list : p.ring.toList = s.list
  cursor : s.list ≠ [] → p.ring.current = s.next
  free : ∀ b, p.free b = false ↔ s.Reserved b

/-- The reserved buffers after a step. -/
theorem Served.reserved_iff {x : Transition State Act (List Event)} (h : Served x) (b : BufId) :
    x.post.Reserved b ↔
      (x.pre.Reserved b ∧ ¬ GivesBack x b) ∨ b ∈ BufferList.handedOut x.out := by
  constructor
  · intro hb
    rcases (step_rules h.step).reserved_back hb with hbefore | hhere
    · exact .inl ⟨hbefore, fun hback => (h.givesBack hback).1.not_reserved hb⟩
    · exact .inr hhere
  · rintro (⟨hbefore, hback⟩ | hhere)
    · exact h.reserved_unless hbefore hback
    · exact (h.handedOut hhere).2.1

/-- The cursor on an entry splits the ring there. -/
theorem Represents.current {s : State} {p : Pool BufId} (h : Represents s p) {b : BufId}
    (hnext : s.next = some b) (hmem : b ∈ s.list) : p.ring.current = some b := by
  rw [h.cursor (List.ne_nil_of_mem hmem), hnext]

section Step

variable {x : Transition State Act (List Event)} (hx : Served x) {p : Pool BufId}
  (h : Represents x.pre p) {b : BufId}

include hx h

/-- A step that moves neither list nor cursor and gives nothing back. -/
theorem Represents.internal (hlist : x.post.list = x.pre.list) (hnext : x.post.next = x.pre.next)
    (hout : handedOut x.out = []) (hback : ∀ b, ¬ GivesBack x b) : Represents x.post p := by
  refine ⟨h.list.trans hlist.symm, fun hne => ?_, fun b => ?_⟩
  · rw [hnext]
    exact h.cursor (hlist ▸ hne)
  · rw [h.free b, hx.reserved_iff b, hout]
    simp [hback b]

theorem Represents.append (hlist : x.post.list = x.pre.list ++ [b])
    (hnext : x.post.next = if x.pre.list = [] then some b else x.pre.next)
    (hout : handedOut x.out = []) (hback : ∀ b, ¬ GivesBack x b) (hnew : b ∉ x.pre.list) :
    ∃ p', Pool.lts.step p (.append b) = some (p', ()) ∧ Represents x.post p' := by
  have hring : b ∉ p.ring.toList := by rw [h.list]; exact hnew
  refine ⟨p.mark (p.ring.push b) b true, by simp [Pool.lts, Pool.step, hring], ?_, ?_, ?_⟩
  · rw [Pool.mark_ring, RingList.toList_push, h.list, hlist]
  · intro _
    rw [Pool.mark_ring, RingList.current_push, h.list, hnext]
    by_cases hnil : x.pre.list = []
    · rw [if_pos hnil, if_pos hnil]
    · rw [if_neg hnil, if_neg hnil, h.cursor hnil]
  · intro c
    rw [hx.reserved_iff c, hout]
    by_cases hcb : c = b
    · subst hcb
      simp only [Pool.mark_free_self, Bool.true_eq_false, List.not_mem_nil, or_false, false_iff,
        not_and]
      exact fun hres => absurd (hx.pre.reserved c hres) hnew
    · rw [Pool.mark_free_ne hcb, h.free c]
      simp [hback c]

theorem Represents.take (hcursor : x.pre.next = some b) (hmem : b ∈ x.pre.list)
    (hlist : x.post.list = x.pre.list) (hnext : x.post.next = wrapped x.pre.list b)
    (hout : handedOut x.out = [b]) (hback : ∀ b, ¬ GivesBack x b) :
    ∃ p', Pool.lts.step p (.take b) = some (p', ()) ∧ Represents x.post p' := by
  have hcurrent := h.current hcursor hmem
  have hfree : p.free b = true := by
    have havail := (hx.handedOut (b := b) (by rw [hout]; exact List.mem_singleton_self b)).1
    rw [← Bool.not_eq_false, h.free b]
    exact havail.not_reserved
  obtain ⟨w, hahead⟩ : ∃ w, p.ring.ahead = b :: w := List.head?_eq_some_iff.mp hcurrent
  refine ⟨p.mark p.ring.advance b false, by simp [Pool.lts, Pool.step, hcurrent, hfree], ?_, ?_,
    fun c => ?_⟩
  · rw [Pool.mark_ring, RingList.toList_advance, h.list, hlist]
  · intro _
    have hsplit : x.pre.list = p.ring.passed ++ b :: w := by
      rw [← h.list, RingList.toList, hahead]
    rw [Pool.mark_ring, RingList.current_advance hahead, h.list, hnext, wrapped,
      after_of_split hx.pre.ordered.nodup hsplit]
    cases w <;> rfl
  · rw [hx.reserved_iff c, hout]
    by_cases hcb : c = b
    · subst hcb
      simp
    · rw [Pool.mark_free_ne hcb, h.free c]
      simp [hback c, hcb]

theorem Represents.release (hgives : GivesBack x b) (hlist : x.post.list = x.pre.list)
    (hnext : x.post.next = x.pre.next) (hout : handedOut x.out = []) :
    ∃ p', Pool.lts.step p (.release b) = some (p', ()) ∧ Represents x.post p' := by
  obtain ⟨t, ha, ht⟩ := hgives
  have hres := (hx.pre.inv.owned.releasing t b (by rw [ht]; rfl)).1
  have hmem : b ∈ p.ring.toList := by rw [h.list]; exact hx.pre.reserved b hres
  refine ⟨p.mark p.ring b true, by simp [Pool.lts, Pool.step, hmem, (h.free b).mpr hres],
    h.list.trans hlist.symm, fun hne => ?_, fun c => ?_⟩
  · rw [hnext]
    exact h.cursor (hlist ▸ hne)
  · rw [hx.reserved_iff c, hout]
    by_cases hcb : c = b
    · subst hcb
      rw [Pool.mark_free_self]
      refine iff_of_false (by simp) ?_
      rintro (⟨-, hnot⟩ | hin)
      · exact hnot ⟨t, ha, ht⟩
      · cases hin
    · have hback : ¬ GivesBack x c := by
        rintro ⟨u, hu, hc⟩
        obtain rfl : t = u := Act.run.inj (ha.symm.trans hu)
        exact hcb (Pc.setFree.inj (hc.symm.trans ht))
      rw [Pool.mark_free_ne hcb, h.free c]
      simp [hback]

theorem Represents.wait (hcursor : x.pre.next = some b) (hres : x.pre.Reserved b) :
    Pool.lts.step p (.wait b) = some (p, ()) := by
  have hcurrent := h.current hcursor (hx.pre.reserved b hres)
  simp [Pool.lts, Pool.step, hcurrent, (h.free b).mpr hres]

end Step

/-- Every step of the list is one operation of the pool, or none. -/
theorem Represents.step {s s' : State} {a : Act} {out : List Event} {p : Pool BufId}
    (h : Represents s p) (hx : Served ⟨s, a, out, s'⟩) :
    ∃ tr p', Pool.lts.Run p tr p' ∧
      tr.map (·.label) = (poolOp ⟨s, a, out, s'⟩).map (·, ()) ∧ Represents s' p' := by
  have hinternal : poolOp ⟨s, a, out, s'⟩ = [] → s'.list = s.list → s'.next = s.next →
      handedOut out = [] → (∀ b, ¬ GivesBack ⟨s, a, out, s'⟩ b) →
      ∃ tr p', Pool.lts.Run p tr p' ∧
        tr.map (·.label) = (poolOp ⟨s, a, out, s'⟩).map (·, ()) ∧ Represents s' p' := by
    intro hop hlist hnext hout hback
    exact ⟨[], p, .nil p, by rw [hop]; rfl, h.internal hx hlist hnext hout hback⟩
  have hoperation : ∀ op p', poolOp ⟨s, a, out, s'⟩ = [op] →
      Pool.lts.step p op = some (p', ()) → Represents s' p' →
      ∃ tr p', Pool.lts.Run p tr p' ∧
        tr.map (·.label) = (poolOp ⟨s, a, out, s'⟩).map (·, ()) ∧ Represents s' p' := by
    intro op p' hop hstep hrel
    exact ⟨_, p', .single hstep, by rw [hop]; rfl, hrel⟩
  -- only a thread at `setFree` gives a buffer back
  have hback : ∀ {t : Tid} {pc : Pc}, s.thread t = pc → (∀ b, pc ≠ .setFree b) → a = .run t →
      ∀ b, ¬ GivesBack ⟨s, a, out, s'⟩ b := by
    rintro t pc ht hpc rfl b ⟨u, hu, hb⟩
    obtain rfl : t = u := Act.run.inj hu
    exact hpc b (ht.symm.trans hb)
  have hrule : Step s a s' out := step_rules hx.step
  cases hrule with
  | create => exact hinternal rfl rfl rfl rfl (by rintro b ⟨u, hu, -⟩; cases hu)
  | callAppend => exact hinternal rfl rfl rfl rfl (by rintro b ⟨u, hu, -⟩; cases hu)
  | callGetFree => exact hinternal rfl rfl rfl rfl (by rintro b ⟨u, hu, -⟩; cases hu)
  | callSetFree => exact hinternal rfl rfl rfl rfl (by rintro b ⟨u, hu, -⟩; cases hu)
  | callClear => exact hinternal rfl rfl rfl rfl (by rintro b ⟨u, hu, -⟩; cases hu)
  | @lock t pc ht hlock =>
      refine hinternal ?_ rfl rfl rfl (hback rfl ?_ rfl)
      · cases hpc : s.thread t <;> simp [hpc, Pc.behindLock] at ht <;> simp [poolOp, hpc]
      · intro b hb
        rw [hb] at ht
        cases ht
  | @append t b ht hlive hnew =>
      have hnext : (if (s.list ++ [b]).length = 1 then (s.list ++ [b]).head? else s.next) =
          if s.list = [] then some b else s.next := by
        cases hl : s.list with
        | nil => simp
        | cons c l => simp
      obtain ⟨p', hstep, hrel⟩ := h.append hx rfl hnext rfl (hback ht (by simp) rfl) hnew
      exact hoperation _ p' (by simp [poolOp, ht]) hstep hrel
  | @refuse t ht =>
      exact hinternal (by simp [poolOp, ht, State.unlock, State.goto, handedOut]) rfl rfl rfl
        (hback ht (by simp) rfl)
  | refuseLocked ht =>
      exact hinternal (by simp [poolOp, ht, State.goto, handedOut]) rfl rfl rfl
        (hback ht (by simp) rfl)
  | @handOut t b state ht hflag hnext hcell havail hmem =>
      have hnotBack := hback (t := t) rfl (by rcases ht with ht | ht <;> simp [ht]) rfl
      obtain ⟨p', hstep, hrel⟩ := h.take hx hnext hmem rfl rfl rfl hnotBack
      refine hoperation _ p' ?_ hstep hrel
      rcases ht with ht | ht <;> simp [poolOp, ht, State.unlock, State.goto, handedOut]
  | @beginWait t b state ht hflag hnext hcell havail =>
      have hnotBack := hback (t := t) rfl (by rcases ht with ht | ht <;> simp [ht]) rfl
      refine hoperation (.wait b) p ?_ (h.wait hx hnext ⟨state, hcell, havail⟩)
        (h.internal hx rfl rfl rfl hnotBack)
      rcases ht with ht | ht <;> simp [poolOp, ht, State.unlock, State.goto]
  | giveUp => exact hinternal rfl rfl rfl rfl (by rintro b ⟨u, hu, -⟩; cases hu)
  | woken => exact hinternal rfl rfl rfl rfl (by rintro b ⟨u, hu, -⟩; cases hu)
  | @setFree t b state ht hcell =>
      obtain ⟨p', hstep, hrel⟩ := h.release hx ⟨t, rfl, ht⟩ rfl rfl rfl
      exact hoperation _ p' (by simp [poolOp, ht]) hstep hrel
  | wake ht => exact hinternal (by simp [poolOp, ht]) rfl rfl rfl (hback ht (by simp) rfl)
  | clear ht => cases hx.flag
  | cleared ht => exact hinternal (by simp [poolOp, ht]) rfl rfl rfl (hback ht (by simp) rfl)
  | destroy ht => exact absurd hx.flag (hx.pre.ordered.walking _ _ (by rw [ht]; rfl))
  | leak ht => exact absurd hx.flag (hx.pre.ordered.walking _ _ (by rw [ht]; rfl))
  | clearBusy ht => exact hinternal (by simp [poolOp, ht]) rfl rfl rfl (hback ht (by simp) rfl)
  | clearWaited => exact hinternal rfl rfl rfl rfl (by rintro b ⟨u, hu, -⟩; cases hu)
  | recheck => exact hinternal rfl rfl rfl rfl (by rintro b ⟨u, hu, -⟩; cases hu)
  | fault hfault => exact absurd hfault (hx.pre.inv.linked.not_faulty hx.pre.inv.owned _)

theorem Represents.of_init {s : State} (h : bufferLts.init s) : Represents s .empty := by
  obtain rfl : s = State.initial := h
  refine ⟨rfl, fun hne => absurd rfl hne, fun b => iff_of_false (by simp [Pool.empty]) ?_⟩
  rintro ⟨state, hcell, -⟩
  cases hcell

/-- Before the shutdown, the pool simulates the list. -/
def poolSimulation : Lts.Simulation bufferLts (Pool.lts (α := BufId)) Served where
  rel := Represents
  labels x := (poolOp x).map (·, ())
  step _ _ _ _ _ hrel hx _ := hrel.step hx

/-! ## Operations and events -/

theorem Step.taken {s s' : State} {a : Act} {out : List Event} (h : Step s a s' out) :
    (poolOp ⟨s, a, out, s'⟩).filterMap (·.taken) = BufferList.handedOut out := by
  cases h with
  | @lock t pc ht hlock =>
      cases hpc : s.thread t <;> simp [hpc, Pc.behindLock] at ht <;>
        simp [poolOp, hpc, BufferList.handedOut]
  | refuse ht => simp [poolOp, ht, State.unlock, State.goto, BufferList.handedOut]
  | refuseLocked ht => simp [poolOp, ht, State.goto, BufferList.handedOut]
  | handOut ht =>
      rcases ht with ht | ht <;>
        simp [poolOp, ht, State.unlock, State.goto, BufferList.handedOut, Pool.Op.taken]
  | beginWait ht =>
      rcases ht with ht | ht <;>
        simp [poolOp, ht, State.unlock, State.goto, BufferList.handedOut, Pool.Op.taken]
  | @fault t =>
      cases hpc : s.thread t <;> simp [poolOp, hpc, State.goto, BufferList.handedOut, Pool.Op.taken]
  | append ht => simp [poolOp, ht, BufferList.handedOut, Pool.Op.taken]
  | setFree ht => simp [poolOp, ht, BufferList.handedOut, Pool.Op.taken]
  | wake ht => simp [poolOp, ht, BufferList.handedOut]
  | clear ht => simp [poolOp, ht, BufferList.handedOut]
  | cleared ht => simp [poolOp, ht, BufferList.handedOut]
  | destroy ht => simp [poolOp, ht, BufferList.handedOut]
  | leak ht => simp [poolOp, ht, BufferList.handedOut]
  | clearBusy ht => simp [poolOp, ht, BufferList.handedOut]
  | _ => simp [poolOp, BufferList.handedOut]

theorem Step.poolOp_wait {s s' : State} {t : Tid} {b : BufId} {out : List Event}
    (h : Step s (.run t) s' out) (ht : s'.thread t = .getFreeWait b) :
    poolOp ⟨s, .run t, out, s'⟩ = [.wait b] := by
  have hself : ∀ {pc : Pc}, Function.update s.thread t pc t = .getFreeWait b →
      pc = .getFreeWait b := by
    intro pc hpc
    rwa [Function.update_self] at hpc
  cases h with
  | lock hpc =>
      rw [hself ht] at hpc
      cases hs : s.thread t <;> rw [hs] at hpc <;> cases hpc
  | beginWait hpc =>
      obtain rfl := Pc.getFreeWait.inj (hself ht)
      rcases hpc with hpc | hpc <;> simp [poolOp, hpc, State.unlock, State.goto]
  | _ => cases hself ht

theorem links_of_poolOp {x : Transition State Act (List Event)} {b : BufId}
    (h : .append b ∈ poolOp x) : Links x b ∧ poolOp x = [.append b] := by
  cases ha : x.act with
  | run t =>
      have hget : (x.pre.thread t = .getFree ∨ x.pre.thread t = .getFreeAgain) → False := by
        intro ht
        cases hpost : x.post.thread t <;> rcases ht with ht | ht <;>
          simp [poolOp, ha, ht, hpost] at h
      cases ht : x.pre.thread t with
      | append c =>
          obtain rfl : b = c := by simpa [poolOp, ha, ht] using h
          exact ⟨⟨t, ha, ht⟩, by simp [poolOp, ha, ht]⟩
      | getFree => exact (hget (.inl ht)).elim
      | getFreeAgain => exact (hget (.inr ht)).elim
      | _ => simp [poolOp, ha, ht] at h
  | _ => simp [poolOp, ha] at h

theorem Represents.idle {s : State} {p : Pool BufId} (h : Represents s p)
    (hs : ∀ c ∈ s.list, s.Available c) : p.Idle := by
  intro c hc
  rw [h.list] at hc
  rw [← Bool.not_eq_false, h.free c]
  exact (hs c hc).not_reserved

theorem Represents.nothingFree {s : State} {p : Pool BufId} (h : Represents s p)
    (hp : p.Exhausted) : NothingFree s := by
  intro c hc havail
  rw [← h.list] at hc
  exact havail.not_reserved ((h.free c).mp (hp c hc))

/-- The buffers that are given back in a run, in their order. -/
def giveBacks (tr : List (Transition State Act (List Event))) : List BufId :=
  (poolOps tr).filterMap (·.released)

/-! ## Runs -/

section Matching

variable {tr : List (Transition State Act (List Event))}
  {ws : List (List (Transition (Pool BufId) (Pool.Op BufId) Unit))}

theorem acts_flatten (h : List.Forall₂ poolSimulation.Matches tr ws) :
    ws.flatten.map (·.act) = poolOps tr := by
  have hlabels := congrArg (List.map Prod.fst) (poolSimulation.labels_flatten h)
  simpa [poolSimulation, Transition.label, poolOps, List.map_flatMap, Function.comp_def] using
    hlabels

theorem taken_poolOps (h : ∀ x ∈ tr, Served x) : (poolOps tr).filterMap (·.taken) = handOuts tr := by
  induction tr with
  | nil => rfl
  | cons x tr ih =>
      have hhere := (step_rules (h x (List.mem_cons_self ..)).step).taken
      have hrest := ih fun y hy => h y (List.mem_cons_of_mem _ hy)
      simp only [poolOps, handOuts, List.flatMap_cons, List.filterMap_append] at hrest ⊢
      rw [hhere, hrest]

end Matching

section Run

variable {s s' : State} {tr : List (Transition State Act (List Event))}
  (h : bufferLts.Run s tr s') (hinit : bufferLts.init s)
  (hdisc : ∀ x ∈ tr, Disciplined x.pre x.act) (hflag : s'.shutDownFlag = 0)

include h hinit hdisc hflag

/-- Whatever the interleaving of disciplined callers, the calls take effect one after
the other, as operations of the pool, and the list is what they leave. -/
theorem run_refines_pool : ∃ w p, Pool.lts.Run Pool.empty w p ∧ w.map (·.act) = poolOps tr ∧
    Represents s' p := by
  obtain ⟨ws, p, hmatch, hrun, hrel⟩ :=
    poolSimulation.run h (.of_init hinit) (run_served h hinit hdisc hflag)
  exact ⟨ws.flatten, p, hrun, acts_flatten hmatch, hrel⟩

/-- When buffers are appended only while all are available, and are given back in the
order in which they were handed out, get_free waits only if nothing is free. -/
theorem run_waits_exhausted (hturn : giveBacks tr <+: handOuts tr)
    (hidle : ∀ x ∈ tr, ∀ b, Links x b → ∀ c ∈ x.pre.list, x.pre.Available c) :
    ∀ x ∈ tr, ∀ t b, BeginsWait x t b → NothingFree x.pre := by
  have hall := run_served h hinit hdisc hflag
  obtain ⟨ws, p, hmatch, hrun, -⟩ := poolSimulation.run h (.of_init hinit) hall
  have hacts := acts_flatten hmatch
  have hprefix : ws.flatten.filterMap (·.act.released) <+:
      [] ++ ws.flatten.filterMap (·.act.taken) := by
    have hmap : ∀ f : Pool.Op BufId → Option BufId,
        ws.flatten.filterMap (fun u => f u.act) = (poolOps tr).filterMap f := by
      intro f
      rw [← hacts, List.filterMap_map]
      rfl
    rw [hmap, hmap, taken_poolOps hall]
    exact hturn
  have hexhausted := Pool.run_inTurn hrun .of_empty hprefix fun u hu b hb => ?_
  · intro x hx t b hw
    obtain ⟨w, hwx, hsub⟩ := poolSimulation.matches_of_mem hmatch hx
    have hrule := step_rules (hall x hx).step
    rw [hw.1] at hrule
    have hop := hrule.poolOp_wait hw.2
    rw [← hw.1] at hop
    obtain ⟨u, rfl, hu, hrel⟩ := poolSimulation.matches_single (l := (.wait b, ())) hwx
      (by simp [poolSimulation, hop])
    exact hrel.nothingFree (hexhausted u (hsub u (List.mem_singleton_self u)) b
      (congrArg Prod.fst hu))
  · obtain ⟨x, hx, w, hwx, huw⟩ := poolSimulation.matches_of_mem_flatten hmatch hu
    have hlabel := poolSimulation.label_mem_of_matches hwx huw
    obtain ⟨hlinks, hop⟩ : Links x b ∧ poolOp x = [.append b] := by
      apply links_of_poolOp
      obtain ⟨op, hop, hlop⟩ := List.mem_map.mp hlabel
      have hact : op = u.act := congrArg Prod.fst hlop
      rw [← hb, ← hact]
      exact hop
    obtain ⟨u', rfl, -, hrel⟩ := poolSimulation.matches_single (l := (.append b, ())) hwx
      (by simp [poolSimulation, hop])
    obtain rfl := List.mem_singleton.mp huw
    exact hrel.idle (hidle x hx b hlinks)

end Run

/-- Two threads use two buffers. Thread 0 gives its buffer back and gets it again, so
that thread 2 finds both reserved and waits for that of thread 1. -/
theorem run_refines_pool_two : ∃ tr s',
    bufferLts.Run State.initial tr s' ∧
    tr.map (·.act) = [.create 0, .create 1, .call 0 (.append 0), .call 1 (.append 1), .run 0,
      .run 0, .run 1, .run 1, .call 0 .getFree, .call 1 .getFree, .run 0, .run 0, .run 1, .run 1,
      .call 0 (.setFree 0), .run 0, .run 0, .run 0, .call 0 .getFree, .run 0, .run 0,
      .call 2 .getFree, .run 2, .run 2] ∧
    poolOps tr = [.append 0, .append 1, .take 0, .take 1, .release 0, .take 0, .wait 1] ∧
    ∃ w p, Pool.lts.Run Pool.empty w p ∧ w.map (·.act) = poolOps tr ∧ Represents s' p := by
  obtain ⟨tr, s', hrun, hacts, hend⟩ := Lts.Run.of_exec_map (M := bufferLts)
    (g := fun r => decide ((∀ x ∈ r.1, Disciplined x.pre x.act) ∧ r.2.shutDownFlag = 0 ∧
      poolOps r.1 = [.append 0, .append 1, .take 0, .take 1, .release 0, .take 0, .wait 1]))
    (v := true) (s := State.initial)
    (l := [.create 0, .create 1, .call 0 (.append 0), .call 1 (.append 1), .run 0,
      .run 0, .run 1, .run 1, .call 0 .getFree, .call 1 .getFree, .run 0, .run 0, .run 1, .run 1,
      .call 0 (.setFree 0), .run 0, .run 0, .run 0, .call 0 .getFree, .run 0, .run 0,
      .call 2 .getFree, .run 2, .run 2]) (by decide +kernel)
  obtain ⟨hdisc, hflag, hops⟩ := of_decide_eq_true hend
  exact ⟨tr, s', hrun, hacts, hops, run_refines_pool hrun rfl hdisc hflag⟩

/-- In the same run the buffers are given back in turn. -/
theorem run_waits_exhausted_two : ∃ tr s',
    bufferLts.Run State.initial tr s' ∧
    tr.map (·.act) = [.create 0, .create 1, .call 0 (.append 0), .call 1 (.append 1), .run 0,
      .run 0, .run 1, .run 1, .call 0 .getFree, .call 1 .getFree, .run 0, .run 0, .run 1, .run 1,
      .call 0 (.setFree 0), .run 0, .run 0, .run 0, .call 0 .getFree, .run 0, .run 0,
      .call 2 .getFree, .run 2, .run 2] ∧
    s'.thread 2 = .getFreeWait 1 ∧
    ∀ x ∈ tr, ∀ t b, BeginsWait x t b → NothingFree x.pre := by
  obtain ⟨tr, s', hrun, hacts, hend⟩ := Lts.Run.of_exec_map (M := bufferLts)
    (g := fun r => decide ((∀ x ∈ r.1, Disciplined x.pre x.act) ∧ r.2.shutDownFlag = 0 ∧
      r.2.thread 2 = .getFreeWait 1 ∧ giveBacks r.1 <+: handOuts r.1 ∧
      ∀ x ∈ r.1, (poolOp x).filterMap (·.appended) = [] ∨
        ∀ c ∈ x.pre.list, x.pre.isAvailable c = true))
    (v := true) (s := State.initial)
    (l := [.create 0, .create 1, .call 0 (.append 0), .call 1 (.append 1), .run 0,
      .run 0, .run 1, .run 1, .call 0 .getFree, .call 1 .getFree, .run 0, .run 0, .run 1, .run 1,
      .call 0 (.setFree 0), .run 0, .run 0, .run 0, .call 0 .getFree, .run 0, .run 0,
      .call 2 .getFree, .run 2, .run 2]) (by decide +kernel)
  obtain ⟨hdisc, hflag, hwaits, hturn, hidle⟩ := of_decide_eq_true hend
  refine ⟨tr, s', hrun, hacts, hwaits, run_waits_exhausted hrun rfl hdisc hflag hturn ?_⟩
  rintro x hx b ⟨t, ha, ht⟩ c hc
  rcases hidle x hx with hnone | hall
  · simp [poolOp, ha, ht, Pool.Op.appended] at hnone
  · exact State.isAvailable_iff.mp (hall c hc)

end BufferList

end Gpcieuni
