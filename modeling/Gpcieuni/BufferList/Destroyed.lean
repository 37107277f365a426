-- SUMMARY: Uses of destroyed buffers: which memory a step of the list touches, and the race between a waiting get_free and clear.
import Gpcieuni.BufferList.Linked

/-!
# Destroyed buffers

Everything that runs under the list lock stays on linked buffers or on a buffer
that somebody owns. A get_free that waits has dropped the lock and keeps the
pointer to the buffer it chose; nothing stops clear from destroying that buffer
when it becomes available.
-/

namespace Gpcieuni

namespace BufferList

/-! ## What a step touches -/

/-- The entries beside `b` on a list. -/
def neighbours (l : List BufId) (b : BufId) : List BufId :=
  (after l.reverse b).toList ++ (after l b).toList

/-- The buffers whose state or links a step reads or writes. `list_add_tail` and
`list_del` write to the neighbours of their entry, and `list_for_each_safe` reads
the link of the entry that comes next. -/
def State.touched (s : State) : Act → List BufId
  | .create b => [b]
  | .call .. => []
  | .run t =>
    match s.thread t with
    | .append b => b :: s.list.getLast?.toList
    | .getFree | .getFreeAgain => if s.shutDownFlag ≠ 0 then [] else s.next.toList
    | .setFree b => [b]
    | .clear => s.list.head?.toList
    | .clearLoop (some b) tpos _ => b :: (neighbours s.list b ++ tpos.toList)
    | _ => []
  | .wait t _ | .recheck t =>
    match s.thread t with
    | .getFreeWait b | .clearWait b _ => [b]
    | _ => []

/-- No step that can be taken next touches a buffer that was destroyed. -/
def TouchesLive (s : State) : Prop :=
  ∀ a, (bufferLts.step s a).isSome → ∀ b ∈ s.touched a, s.cell b ≠ .destroyed

/-- The buffer that thread `t` destroys when it runs on. -/
def State.destroys (s : State) (t : Tid) : Option BufId :=
  match s.thread t with
  | .clearLoop (some b) _ code =>
    match s.cell b with
    | .live state =>
      if 0 < code ∧ Word.testBit bufferStateAvailable state = true then some b else none
    | _ => none
  | _ => none

/-- The step does not destroy a buffer that a get_free waits for. -/
def NobodyWaitsFor (s : State) : Act → Prop
  | .run t => ∀ b ∈ s.destroys t, ∀ u, s.thread u ≠ .getFreeWait b
  | _ => True

theorem mem_of_neighbours {l : List BufId} {b c : BufId} (h : c ∈ neighbours l b) : c ∈ l := by
  rcases List.mem_append.mp h with hbefore | hafter
  · exact List.mem_reverse.mp (after_mem (by simpa using hbefore))
  · exact after_mem (by simpa using hafter)

theorem State.Live.ne_destroyed {s : State} {b : BufId} (h : s.Live b) : s.cell b ≠ .destroyed := by
  obtain ⟨state, hlive⟩ := h
  rw [hlive]
  exact Cell.noConfusion

/-! ## Waiting threads -/

/-- The buffer that a waiting get_free has chosen is allocated. -/
def WaitersLive (s : State) : Prop := ∀ t b, s.thread t = .getFreeWait b → s.Live b

/-- A buffer stays allocated until a step destroys it. -/
theorem Step.live {s s' : State} {a : Act} {out : List Event} (h : Step s a s' out) {c : BufId}
    (hc : s.Live c) (hout : .destroyed c ∉ out) : s'.Live c := by
  cases h with
  | create => exact hc.update rfl fun _ => ⟨_, rfl⟩
  | handOut => exact hc.update rfl fun _ => ⟨_, rfl⟩
  | setFree => exact hc.update rfl fun _ => ⟨_, rfl⟩
  | @destroy t b =>
      apply hc.update rfl
      intro heq
      subst heq
      exact absurd (List.mem_singleton_self _) hout
  | _ => exact hc

/-- A thread waits for a buffer since before the step, or it has just looked at
that buffer. -/
theorem Step.getFreeWait {s s' : State} {a : Act} {out : List Event} (h : Step s a s' out)
    {u : Tid} {c : BufId} (hu : s'.thread u = .getFreeWait c) :
    s.thread u = .getFreeWait c ∨ s.Live c ∧ out = [] := by
  cases h with
  | create => exact .inl hu
  | recheck => exact .inl hu
  | @lock t pc ht hlock =>
      refine .inl (Threads.eq_of_update hu ?_)
      rintro rfl
      cases hpc : s.thread t <;> rw [hpc] at ht <;> cases ht
  | @beginWait t b state ht hflag hnext hcell havail =>
      by_cases hcb : c = b
      · subst hcb
        exact .inr ⟨⟨state, hcell⟩, rfl⟩
      · exact .inl (Threads.eq_of_update hu (by simpa using Ne.symm hcb))
  | _ => exact .inl (Threads.eq_of_update hu (by simp [State.loopAt]))

theorem Step.waitersLive {s s' : State} {a : Act} {out : List Event} (h : Step s a s' out)
    (hs : WaitersLive s) (hwait : NobodyWaitsFor s a) : WaitersLive s' := by
  intro u c hu
  rcases h.getFreeWait hu with hold | ⟨hlive, rfl⟩
  · apply h.live (hs u c hold)
    intro hout
    cases h with
    | @destroy t b tpos code state ht hcell havail hmem hcode =>
        obtain rfl : c = b := by simpa using hout
        refine hwait c ?_ u hold
        simp [State.destroys, ht, hcell, hcode, havail]
    | _ => simp at hout
  · exact h.live hlive (by simp)

/-! ## The steps are safe -/

/-- What a get_free with the lock looks at is linked. Before the first append it
looks at nothing. -/
theorem WellLinked.mem_of_cursor {s : State} (h : WellLinked s) {b : BufId}
    (hb : b ∈ if s.shutDownFlag ≠ 0 then [] else s.next.toList) : b ∈ s.list := by
  split at hb
  · cases hb
  rename_i hflag
  cases hdone : s.appendDone with
  | false =>
      rw [(h.undone hdone).2] at hb
      cases hb
  | true =>
      obtain ⟨c, hc, hnext⟩ := h.cursor (by simpa using hflag) hdone
      obtain rfl : b = c := by simpa [hnext, eq_comm] using hb
      exact hc

theorem touchesLive_of_inv {s : State} (howned : Owned s) (hlinked : WellLinked s)
    (hwaiters : WaitersLive s) : TouchesLive s := by
  intro a hstep b hb
  have hmem : ∀ c ∈ s.list, s.cell c ≠ .destroyed := fun c hc => (hlinked.live c hc).ne_destroyed
  have hwait : ∀ t, b ∈ (match s.thread t with
      | .getFreeWait b | .clearWait b _ => [b]
      | _ => []) → s.cell b ≠ .destroyed := by
    intro t hb
    split at hb
    · rename_i c ht
      rw [List.mem_singleton.mp hb]
      exact (hwaiters t c ht).ne_destroyed
    · rename_i c tpos ht
      rw [List.mem_singleton.mp hb]
      exact hmem c ((hlinked.walk t _ _ (by rw [ht]; rfl)).2.1 c rfl)
    · cases hb
  cases a with
  | create c =>
      obtain rfl := List.mem_singleton.mp hb
      intro hcell
      simp [bufferLts, State.step, hcell] at hstep
  | call t c => cases hb
  | wait t code => exact hwait t hb
  | recheck t => exact hwait t hb
  | run t =>
      simp only [State.touched] at hb
      split at hb
      · rename_i c ht
        rcases List.mem_cons.mp hb with rfl | hlast
        · exact (hlinked.appending t _ (by rw [ht]; rfl)).1.ne_destroyed
        · exact hmem b (List.mem_of_getLast? (by simpa using hlast))
      · exact hmem b (hlinked.mem_of_cursor hb)
      · exact hmem b (hlinked.mem_of_cursor hb)
      · rename_i c ht
        obtain ⟨state, hlive, -⟩ := (howned.releasing t c (by rw [ht]; rfl)).1
        rw [List.mem_singleton.mp hb, hlive]
        exact Cell.noConfusion
      · exact hmem b (List.mem_of_mem_head? (by simpa using hb))
      · rename_i c tpos code ht
        obtain ⟨-, hpos, htpos⟩ := hlinked.walk t _ _ (by rw [ht]; rfl)
        rcases List.mem_cons.mp hb with rfl | hb
        · exact hmem b (hpos b rfl)
        rcases List.mem_append.mp hb with hnext | hnext
        · exact hmem b (mem_of_neighbours hnext)
        · exact hmem b (htpos b (by simpa using hnext)).1
      · cases hb

/-- When clear destroys a buffer under a waiting get_free, the next look of that
thread at its buffer goes to freed memory. -/
theorem not_touchesLive_of_waiting {s s' : State} {a : Act} {out : List Event} (hlinked : WellLinked s)
    (hwait : ¬ NobodyWaitsFor s a) (h : bufferLts.step s a = some (s', out)) :
    ¬ TouchesLive s' := by
  cases a with
  | run t =>
      simp only [NobodyWaitsFor, not_forall, not_not] at hwait
      obtain ⟨b, hb, u, hu⟩ := hwait
      simp only [State.destroys] at hb
      split at hb
      · rename_i c tpos code ht
        split at hb
        · rename_i state hcell
          split at hb
          · rename_i hcond
            obtain rfl : c = b := by simpa using hb
            have hmem : c ∈ s.list := (hlinked.walk t _ _ (by rw [ht]; rfl)).2.1 c rfl
            simp only [bufferLts, State.step, State.run, ht, State.clearBody, hcell, hcond.1,
              hcond.2, hmem, if_true, Option.some.injEq, Prod.mk.injEq] at h
            obtain ⟨rfl, -⟩ := h
            have hne : u ≠ t := by
              rintro rfl
              rw [ht] at hu
              cases hu
            intro hsafe
            refine hsafe (.recheck u) ?_ c ?_ (Function.update_self ..)
            · simp [bufferLts, State.step, State.recheck, State.goto, hne, hu, State.waitReturns]
            · simp [State.touched, State.goto, hne, hu]
          · cases hb
        · cases hb
      · cases hb
  | create | call | wait | recheck => exact absurd trivial hwait

/-- In every run of orderly callers: no thread can come to touch a destroyed
buffer if and only if clear destroys no buffer that a get_free waits for; and in
such a run no step has touched one. -/
theorem run_touchesLive_iff {s s' : State} {tr : List (Transition State Act (List Event))}
    (h : bufferLts.Run s tr s') (hinit : bufferLts.init s)
    (hcall : ∀ t ∈ tr, Orderly t.pre t.act) :
    ((∀ t ∈ tr, TouchesLive t.post) ↔ ∀ t ∈ tr, NobodyWaitsFor t.pre t.act) ∧
    ((∀ t ∈ tr, NobodyWaitsFor t.pre t.act) →
      ∀ t ∈ tr, ∀ b ∈ t.pre.touched t.act, t.pre.cell b ≠ .destroyed) := by
  have hstart : (Owned s ∧ WellLinked s) ∧ WaitersLive s := by
    refine ⟨⟨.of_init hinit, .of_init hinit⟩, ?_⟩
    obtain rfl : s = State.initial := hinit
    intro t b ht
    cases ht
  have hpres : ∀ s a s' e, (Owned s ∧ WellLinked s) ∧ WaitersLive s → Orderly s a →
      NobodyWaitsFor s a → bufferLts.step s a = some (s', e) →
      (Owned s' ∧ WellLinked s') ∧ WaitersLive s' := by
    rintro s a s' e ⟨⟨howned, hlinked⟩, hwaiters⟩ hcall hwait hstep
    have hrule := step_rules hstep
    exact ⟨⟨hrule.owned howned hcall, hrule.wellLinked hlinked hcall⟩,
      hrule.waitersLive hwaiters hwait⟩
  refine ⟨h.always_iff (fun _ hs => touchesLive_of_inv hs.1.1 hs.1.2 hs.2) hpres ?_ hstart hcall, ?_⟩
  · intro s a s' e hs _ hwait hstep
    exact not_touchesLive_of_waiting hs.1.2 hwait hstep
  · intro hwait t ht
    have hall := h.preserves (P := fun s a => Orderly s a ∧ NobodyWaitsFor s a)
      (fun s a s' e hs hP => hpres s a s' e hs hP.1 hP.2) hstart
      (fun t ht => ⟨hcall t ht, hwait t ht⟩)
    obtain ⟨⟨howned, hlinked⟩, hwaiters⟩ := (hall.2 t ht).1
    apply touchesLive_of_inv howned hlinked hwaiters t.act
    rw [h.step_of_mem ht]
    rfl

/-- Clear and a get_free, which is called before the append, wait for the same
buffer, and the get_free is woken and leaves before clear goes on. -/
theorem run_touchesLive_iff_woken : ∃ tr s',
    bufferLts.Run State.initial tr s' ∧
    tr.map (·.act) = [.create 0, .call 1 .getFree, .call 0 (.append 0), .run 0, .run 0,
      .call 0 .getFree, .run 0, .run 0, .run 1, .run 1, .call 2 .clear, .run 2, .run 2, .run 2,
      .recheck 1, .call 0 (.setFree 0), .run 0, .run 0, .wait 1 5, .wait 2 4] ∧
    ∀ t ∈ tr, ∀ b ∈ t.pre.touched t.act, t.pre.cell b ≠ .destroyed := by
  obtain ⟨tr, s', hrun, hacts, hend⟩ := Lts.Run.of_exec_map (M := bufferLts)
    (g := fun r => (r.1.all fun t => decide (Orderly t.pre t.act),
      r.1.all fun t => [0, 1, 2].all fun u => decide (t.pre.destroys u = none)))
    (v := (true, true)) (s := State.initial)
    (l := [.create 0, .call 1 .getFree, .call 0 (.append 0), .run 0, .run 0, .call 0 .getFree,
      .run 0, .run 0, .run 1, .run 1, .call 2 .clear, .run 2, .run 2, .run 2, .recheck 1,
      .call 0 (.setFree 0), .run 0, .run 0, .wait 1 5, .wait 2 4]) (by decide +kernel)
  obtain ⟨hcall, hnone⟩ := Prod.mk.inj hend
  refine ⟨tr, s', hrun, hacts, (run_touchesLive_iff hrun rfl (by simpa using hcall)).2 ?_⟩
  intro t ht
  have hdestroys : t.pre.destroys 0 = none ∧ t.pre.destroys 1 = none ∧ t.pre.destroys 2 = none := by
    simpa using List.all_eq_true.mp hnone t ht
  have hact : t.act ∈ tr.map (·.act) := List.mem_map_of_mem ht
  rw [hacts] at hact
  cases hrunact : t.act with
  | run u =>
      rw [hrunact] at hact
      have hu : u = 0 ∨ u = 1 ∨ u = 2 := by
        simp only [List.mem_cons, Act.run.injEq, reduceCtorEq, List.not_mem_nil] at hact
        tauto
      intro b hb
      rcases hu with rfl | rfl | rfl
      · rw [hdestroys.1] at hb; cases hb
      · rw [hdestroys.2.1] at hb; cases hb
      · rw [hdestroys.2.2] at hb; cases hb
  | create | call | wait | recheck => trivial

/-- Clear and thread 1 wait for the same buffer. Clear comes first and destroys
it, and thread 1 looks at the freed memory. -/
theorem getFree_rechecks_destroyed : ∃ tr s',
    bufferLts.Run State.initial tr s' ∧
    tr.map (·.act) = [.create 0, .call 0 (.append 0), .run 0, .run 0, .call 0 .getFree, .run 0,
      .run 0, .call 1 .getFree, .run 1, .run 1, .call 2 .clear, .run 2, .run 2, .run 2,
      .call 0 (.setFree 0), .run 0, .run 0, .wait 2 5, .run 2, .run 2, .recheck 1] ∧
    (∀ t ∈ tr, Disciplined t.pre t.act) ∧
    ¬ ∀ t ∈ tr, ∀ b ∈ t.pre.touched t.act, t.pre.cell b ≠ .destroyed := by
  obtain ⟨tr, s', hrun, hacts, hend⟩ := Lts.Run.of_exec_map (M := bufferLts)
    (g := fun r => (r.1.all fun t => decide (Disciplined t.pre t.act),
      r.1.all fun t => (t.pre.touched t.act).all fun b => decide (t.pre.cell b ≠ .destroyed)))
    (v := (true, false)) (s := State.initial)
    (l := [.create 0, .call 0 (.append 0), .run 0, .run 0, .call 0 .getFree, .run 0, .run 0,
      .call 1 .getFree, .run 1, .run 1, .call 2 .clear, .run 2, .run 2, .run 2,
      .call 0 (.setFree 0), .run 0, .run 0, .wait 2 5, .run 2, .run 2, .recheck 1])
    (by decide +kernel)
  obtain ⟨hdisc, huse⟩ := Prod.mk.inj hend
  refine ⟨tr, s', hrun, hacts, by simpa using hdisc, fun hsafe => ?_⟩
  have htrue : (tr.all fun t => (t.pre.touched t.act).all fun b =>
      decide (t.pre.cell b ≠ .destroyed)) = true := by simpa using hsafe
  rw [huse] at htrue
  cases htrue

end BufferList

end Gpcieuni
