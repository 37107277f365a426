-- SUMMARY: The order in which get_free hands out buffers: the cursor goes around the list, and between two hand-outs of a buffer it passes every other one once.
import Mathlib.Data.List.Nodup
import Gpcieuni.BufferList.Linked

/-!
# The order of hand-outs

Before a shutdown the list only grows, and it grows at its tail. A round starts
when a buffer is handed out. The cursor first goes to the tail, which can move
away from it, and then wraps to the head; what is appended after that belongs to
a later round. The callers need no discipline for this.
-/

namespace Gpcieuni

namespace BufferList

/-- The buffers that are handed out in a step. -/
def handedOut (out : List Event) : List BufId :=
  out.filterMap fun e =>
    match e with
    | .returned _ (.buffer b) => some b
    | _ => none

/-- The buffers that are handed out in a run, in their order. -/
def handOuts (tr : List (Transition State Act (List Event))) : List BufId :=
  tr.flatMap fun t => handedOut t.out

/-! ## The next entry -/

theorem after_append {x y : List BufId} {b : BufId} (hb : b ∉ x) :
    after (x ++ b :: y) b = y.head? := by
  induction x with
  | nil => simp [after]
  | cons a x ih =>
      obtain ⟨hne, hx⟩ : b ≠ a ∧ b ∉ x := by simpa using hb
      simp only [List.cons_append, after, if_neg hne.symm]
      exact ih hx

/-- The cursor after `b` is handed out: the next entry, or the first one. -/
def wrapped (l : List BufId) (b : BufId) : Option BufId :=
  match after l b with
  | none => l.head?
  | some c => some c

/-! ## What a step does to the cursor -/

/-- What is true of the list and its cursor whatever the callers do. -/
structure Ordered (s : State) : Prop where
  nodup : s.list.Nodup
  walking : ∀ t walk, (s.thread t).role = .clearing (some walk) → s.shutDownFlag ≠ 0
  cursor : s.shutDownFlag = 0 → s.list ≠ [] → ∃ b ∈ s.list, s.next = some b

/-- The list and the cursor stay, or a buffer is appended, or one is handed out. -/
inductive Advance (s s' : State) (out : List Event) : Prop where
  | stay (hlist : s'.list = s.list) (hnext : s'.next = s.next) (hout : handedOut out = [])
  | append {b : BufId} (hnew : b ∉ s.list) (hlist : s'.list = s.list ++ [b])
      (hnext : s'.next = if s.list = [] then some b else s.next) (hout : handedOut out = [])
  | handOut {b : BufId} (hcursor : s.next = some b) (hmem : b ∈ s.list)
      (hlist : s'.list = s.list) (hnext : s'.next = wrapped s.list b) (hout : handedOut out = [b])

/-- Before the shutdown a step advances the cursor or leaves it. -/
theorem Step.advance {s s' : State} {a : Act} {out : List Event} (h : Step s a s' out)
    (hs : Ordered s) (hflag : s'.shutDownFlag = 0) : s.shutDownFlag = 0 ∧ Advance s s' out := by
  cases h with
  | @append t b ht hlive hnew =>
      refine ⟨hflag, .append hnew rfl ?_ rfl⟩
      cases hl : s.list with
      | nil => simp
      | cons c l => simp
  | handOut ht hflag' hnext hcell havail hmem =>
      exact ⟨hflag, .handOut hnext hmem rfl rfl rfl⟩
  | clear => cases hflag
  | destroy ht => exact absurd hflag (hs.walking _ _ (by rw [ht]; rfl))
  | leak ht => exact absurd hflag (hs.walking _ _ (by rw [ht]; rfl))
  | _ => exact ⟨hflag, .stay rfl rfl rfl⟩

theorem wrapped_mem {l : List BufId} {b : BufId} (hb : b ∈ l) : ∃ c ∈ l, wrapped l b = some c := by
  cases hafter : after l b with
  | some c => exact ⟨c, after_mem hafter, by simp [wrapped, hafter]⟩
  | none =>
      cases l with
      | nil => cases hb
      | cons a l => exact ⟨a, List.mem_cons_self .., by simp [wrapped, hafter]⟩

/-- A walk of clear starts in a step that raises the shutdown flag. -/
theorem Step.walking {s s' : State} {a : Act} {out : List Event} (h : Step s a s' out)
    (hs : ∀ t walk, (s.thread t).role = .clearing (some walk) → s.shutDownFlag ≠ 0) :
    ∀ t walk, (s'.thread t).role = .clearing (some walk) → s'.shutDownFlag ≠ 0 := by
  have hmove : ∀ {t : Tid} {pc : Pc},
      (∀ walk, pc.role = .clearing (some walk) → s.shutDownFlag ≠ 0) →
      ∀ u walk, (Function.update s.thread t pc u).role = .clearing (some walk) →
        s.shutDownFlag ≠ 0 := fun hpc =>
    Threads.forall_update (Q := fun _ pc => ∀ walk, Pc.role pc = .clearing (some walk) →
      s.shutDownFlag ≠ 0) hpc (fun u _ => hs u)
  cases h with
  | create => exact hs
  | recheck => exact hs
  | clear => exact fun _ _ _ => one_ne_zero
  | lock ht => exact hmove fun walk hpc => hs _ walk (by rw [← Pc.role_behindLock ht, hpc])
  | destroy ht => exact hmove fun _ _ => hs _ _ (by rw [ht]; rfl)
  | leak ht => exact hmove fun _ _ => hs _ _ (by rw [ht]; rfl)
  | clearBusy ht => exact hmove fun _ _ => hs _ _ (by rw [ht]; rfl)
  | clearWaited ht => exact hmove fun _ _ => hs _ _ (by rw [ht]; rfl)
  | _ => exact hmove (by simp [Pc.role])

theorem Step.nodup {s s' : State} {a : Act} {out : List Event} (h : Step s a s' out)
    (hs : s.list.Nodup) : s'.list.Nodup := by
  cases h with
  | append ht hlive hnew =>
      exact List.Nodup.append hs (List.nodup_singleton _) (by simpa using hnew)
  | destroy => exact hs.erase _
  | leak => exact hs.erase _
  | _ => exact hs

theorem Step.ordered {s s' : State} {a : Act} {out : List Event} (h : Step s a s' out)
    (hs : Ordered s) : Ordered s' := by
  refine ⟨h.nodup hs.nodup, h.walking hs.walking, fun hflag hne => ?_⟩
  obtain ⟨hflag', hadv⟩ := h.advance hs hflag
  cases hadv with
  | stay hlist hnext =>
      rw [hlist] at hne ⊢
      rw [hnext]
      exact hs.cursor hflag' hne
  | @append b hnew hlist hnext =>
      rw [hlist, hnext]
      by_cases hnil : s.list = []
      · exact ⟨b, by simp, by simp [hnil]⟩
      · obtain ⟨c, hc, hcur⟩ := hs.cursor hflag' hnil
        exact ⟨c, List.mem_append_left _ hc, by rw [if_neg hnil, hcur]⟩
  | handOut hcursor hmem hlist hnext =>
      rw [hlist, hnext]
      exact wrapped_mem hmem

theorem Ordered.of_init {s : State} (h : bufferLts.init s) : Ordered s := by
  obtain rfl : s = State.initial := h
  exact ⟨List.nodup_nil, by simp [State.initial, Pc.role], by simp [State.initial]⟩

/-! ## A round -/

/-- Where the cursor stands in the round that began when `b` was handed out from
the list `l`; `done` are the buffers handed out since. -/
inductive Round (l : List BufId) (b : BufId) (done : List BufId) (s : State) : Prop where
  | toTail {u w : List BufId} (hlist : s.list = u ++ b :: (done ++ w)) (hw : w ≠ [])
      (hinitial : l <+: s.list) (hnext : s.next = w.head?)
  | fromHead {u x v w : List BufId} (hlist : s.list = (u ++ x) ++ b :: (v ++ w))
      (hinitial : l <+: (u ++ x) ++ b :: v) (hdone : done = v ++ u)
      (hnext : s.next = (x ++ [b]).head?)

theorem after_of_split {l u w : List BufId} {b : BufId} (hl : l.Nodup) (hsplit : l = u ++ b :: w) :
    after l b = w.head? := by
  subst hsplit
  apply after_append
  intro hin
  exact List.disjoint_of_nodup_append hl hin (List.mem_cons_self ..)

/-- The hand-out of `b` opens a round. -/
theorem Round.start {s s' : State} {b : BufId} (hs : s.list.Nodup) (hmem : b ∈ s.list)
    (hlist : s'.list = s.list) (hnext : s'.next = wrapped s.list b) : Round s.list b [] s' := by
  obtain ⟨u, w, hsplit⟩ := List.append_of_mem hmem
  have hafter : after s.list b = w.head? := after_of_split hs hsplit
  cases w with
  | nil =>
      refine .fromHead (u := []) (x := u) (v := []) (w := []) (by rw [hlist, hsplit]; rfl)
        (by rw [hsplit]; exact List.prefix_refl _) rfl ?_
      rw [hnext, wrapped, hafter, hsplit]
      rfl
  | cons c w =>
      refine .toTail (u := u) (w := c :: w) (by rw [hlist, hsplit]; rfl) (by simp)
        ⟨[], by rw [hlist, List.append_nil]⟩ ?_
      rw [hnext, wrapped, hafter]
      rfl

/-- The hand-out of another buffer goes on with the round. -/
theorem Round.handOut {l done : List BufId} {b c : BufId} {s s' : State} (h : Round l b done s)
    (hs : s.list.Nodup) (hcursor : s.next = some c) (hcb : c ≠ b) (hlist : s'.list = s.list)
    (hnext : s'.next = wrapped s.list c) : Round l b (done ++ [c]) s' := by
  cases h with
  | @toTail u w hl hw hinitial hn =>
      obtain ⟨w', rfl⟩ : ∃ w', w = c :: w' := by
        rw [hcursor] at hn
        exact List.head?_eq_some_iff.mp hn.symm
      have hl' : s.list = (u ++ b :: done) ++ c :: w' := by rw [hl]; simp
      have hafter : after s.list c = w'.head? := after_of_split hs hl'
      cases w' with
      | nil =>
          -- the tail was handed out, so the cursor wraps to the head
          refine .fromHead (u := []) (x := u) (v := done ++ [c]) (w := [])
            (by rw [hlist, hl]; simp) (by simpa [hl] using hinitial) (by simp) ?_
          rw [hnext, wrapped, hafter, hl]
          cases u with
          | nil => rfl
          | cons a u => rfl
      | cons d w' =>
          refine .toTail (u := u) (w := d :: w') (by rw [hlist, hl]; simp) (by simp)
            (by rw [hlist]; exact hinitial) ?_
          rw [hnext, wrapped, hafter]
          rfl
  | @fromHead u x v w hl hinitial hdone hn =>
      obtain ⟨y, rfl⟩ : ∃ y, x = c :: y := by
        cases x with
        | nil =>
            rw [hcursor] at hn
            exact absurd (Option.some.inj hn) hcb
        | cons a x =>
            rw [hcursor] at hn
            obtain rfl : c = a := Option.some.inj hn
            exact ⟨x, rfl⟩
      have hl' : s.list = u ++ c :: (y ++ b :: (v ++ w)) := by rw [hl]; simp
      have hafter : after s.list c = (y ++ b :: (v ++ w)).head? := after_of_split hs hl'
      refine .fromHead (u := u ++ [c]) (x := y) (v := v) (w := w) (by rw [hlist, hl]; simp)
        (by simpa using hinitial) (by simp [hdone]) ?_
      rw [hnext, wrapped, hafter]
      cases y with
      | nil => rfl
      | cons a y => rfl

/-- A step that does not hand out `b` goes on with the round. -/
theorem Round.advance {l done : List BufId} {b : BufId} {s s' : State} {out : List Event}
    (h : Round l b done s) (hs : s.list.Nodup) (hadv : Advance s s' out)
    (hb : b ∉ handedOut out) : Round l b (done ++ handedOut out) s' := by
  cases hadv with
  | stay hlist hnext hout =>
      rw [hout, List.append_nil]
      cases h with
      | toTail hl hw hinitial hn =>
          exact .toTail (hlist.trans hl) hw (by rw [hlist]; exact hinitial) (hnext.trans hn)
      | fromHead hl hinitial hdone hn =>
          exact .fromHead (hlist.trans hl) hinitial hdone (hnext.trans hn)
  | @append c hnew hlist hnext hout =>
      have hne : s.list ≠ [] := by cases h <;> simp [*]
      rw [if_neg hne] at hnext
      rw [hout, List.append_nil]
      cases h with
      | @toTail u w hl hw hinitial hn =>
          refine .toTail (u := u) (w := w ++ [c]) (by rw [hlist, hl]; simp) (by simp)
            (by rw [hlist]; exact hinitial.trans (List.prefix_append _ _)) ?_
          rw [hnext, hn, List.head?_append_of_ne_nil _ hw]
      | @fromHead u x v w hl hinitial hdone hn =>
          exact .fromHead (u := u) (x := x) (v := v) (w := w ++ [c]) (by rw [hlist, hl]; simp)
            hinitial hdone (hnext.trans hn)
  | @handOut c hcursor hmem hlist hnext hout =>
      have hcb : c ≠ b := by
        rintro rfl
        exact hb (by rw [hout]; exact List.mem_singleton_self _)
      rw [hout]
      exact h.handOut hs hcursor hcb hlist hnext

/-- The buffers `done` are those of the list `l'` up to some entry, in list order
from `b` on with a wrap from that entry to the head; the list `l` ends before it. -/
def InListOrder (l l' : List BufId) (b : BufId) (done : List BufId) : Prop :=
  ∃ u v w, l' = u ++ b :: (v ++ w) ∧ l <+: u ++ b :: v ∧ done = v ++ u

/-- The round ends when the cursor is back at `b`. -/
theorem Round.finish {l done : List BufId} {b : BufId} {s : State} (h : Round l b done s)
    (hs : s.list.Nodup) (hnext : s.next = some b) : InListOrder l s.list b done := by
  cases h with
  | @toTail u w hl hw hinitial hn =>
      rw [hnext] at hn
      obtain ⟨w', rfl⟩ := List.head?_eq_some_iff.mp hn.symm
      rw [hl] at hs
      have hnot := (List.nodup_cons.mp (List.Nodup.of_append_right hs)).1
      exact absurd (by simp) hnot
  | @fromHead u x v w hl hinitial hdone hn =>
      cases x with
      | nil => exact ⟨u, v, w, by rw [hl, List.append_nil], by simpa using hinitial, hdone⟩
      | cons a x =>
          rw [hnext] at hn
          obtain rfl : b = a := Option.some.inj hn
          rw [hl] at hs
          have hdisj := List.disjoint_of_nodup_append hs
          exact absurd (List.mem_cons_self ..) (hdisj (by simp))

/-- Nothing is handed out twice in a round, and nothing of the old list is left out. -/
theorem InListOrder.count {l l' done : List BufId} {b : BufId} (h : InListOrder l l' b done)
    (hl' : l'.Nodup) :
    (∀ c ∈ l, c ≠ b → done.count c = 1) ∧ ∀ c, done.count c ≤ 1 := by
  obtain ⟨u, v, w, rfl, hinitial, rfl⟩ := h
  have hnodup : (v ++ u).Nodup := by
    have hperm : (u ++ b :: (v ++ w)).Perm (b :: w ++ (v ++ u)) := by
      rw [List.perm_iff_count]
      intro c
      simp only [List.count_append, List.count_cons]
      omega
    exact List.Nodup.of_append_right (hperm.nodup_iff.mp hl')
  refine ⟨fun c hc hcb => List.count_eq_one_of_mem hnodup ?_, fun c =>
    List.nodup_iff_count_le_one.mp hnodup c⟩
  have hin := hinitial.subset hc
  simp only [List.mem_append, List.mem_cons] at hin ⊢
  rcases hin with hin | rfl | hin
  · exact .inr hin
  · exact absurd rfl hcb
  · exact .inl hin

/-! ## Whole runs -/

/-- A run that ends before the shutdown advances the cursor in every step. -/
theorem run_advances {s s' : State} {tr : List (Transition State Act (List Event))}
    (h : bufferLts.Run s tr s') (hs : Ordered s) (hflag : s'.shutDownFlag = 0) :
    s.shutDownFlag = 0 ∧ ∀ t ∈ tr,
      Ordered t.pre ∧ Ordered t.post ∧ t.post.shutDownFlag = 0 ∧ Advance t.pre t.post t.out := by
  induction h with
  | nil => exact ⟨hflag, by simp⟩
  | cons hstep _ ih =>
      have hordered := (step_rules hstep).ordered hs
      obtain ⟨hflag', hall⟩ := ih hordered hflag
      obtain ⟨hflag₀, hadv⟩ := (step_rules hstep).advance hs hflag'
      refine ⟨hflag₀, fun t ht => ?_⟩
      cases ht with
      | head => exact ⟨hs, hordered, hflag', hadv⟩
      | tail _ hmem => exact hall t hmem

/-- A run in which `b` is not handed out stays in the round of `b`. -/
theorem Round.run {l done : List BufId} {b : BufId} {s s' : State}
    {tr : List (Transition State Act (List Event))} (h : bufferLts.Run s tr s')
    (hadv : ∀ t ∈ tr, Ordered t.pre ∧ Advance t.pre t.post t.out) (hr : Round l b done s)
    (hb : b ∉ handOuts tr) : Round l b (done ++ handOuts tr) s' := by
  induction h generalizing done with
  | nil => simpa [handOuts] using hr
  | @cons s₁ s₂ _ a e tr hstep _ ih =>
      obtain ⟨hb₁, hb₂⟩ : b ∉ handedOut e ∧ b ∉ handOuts tr := by simpa [handOuts] using hb
      obtain ⟨hordered, hadv₁⟩ := hadv _ (List.mem_cons_self ..)
      have hnext := ih (fun t ht => hadv t (List.mem_cons_of_mem _ ht))
        (hr.advance hordered.nodup hadv₁ hb₁) hb₂
      rw [List.append_assoc] at hnext
      exact hnext

theorem Advance.of_handedOut {s s' : State} {out : List Event} {b : BufId} (h : Advance s s' out)
    (hb : b ∈ handedOut out) :
    s.next = some b ∧ b ∈ s.list ∧ s'.list = s.list ∧ s'.next = wrapped s.list b := by
  cases h with
  | stay _ _ hout => rw [hout] at hb; cases hb
  | append _ _ _ hout => rw [hout] at hb; cases hb
  | handOut hcursor hmem hlist hnext hout =>
      rw [hout] at hb
      obtain rfl := List.mem_singleton.mp hb
      exact ⟨hcursor, hmem, hlist, hnext⟩

/-- The cursor is on an entry of the list as soon as there is one. Between one
hand-out of `b` and the next, the buffers are handed out in list order with a wrap
at the tail: each other buffer that was there before once, a new one at most once. -/
theorem run_cyclic {s s' : State} {tr : List (Transition State Act (List Event))}
    (h : bufferLts.Run s tr s') (hinit : bufferLts.init s) (hflag : s'.shutDownFlag = 0) :
    (∀ t ∈ tr, t.post.list ≠ [] → ∃ b ∈ t.post.list, t.post.next = some b) ∧
    ∀ tr₁ t₁ tr₂ t₂ tr₃ b, tr = tr₁ ++ t₁ :: (tr₂ ++ t₂ :: tr₃) →
      b ∈ handedOut t₁.out → b ∈ handedOut t₂.out → b ∉ handOuts tr₂ →
      InListOrder t₁.pre.list t₂.pre.list b (handOuts tr₂) ∧
      (∀ c ∈ t₁.pre.list, c ≠ b → (handOuts tr₂).count c = 1) ∧
      ∀ c, c ∉ t₁.pre.list → (handOuts tr₂).count c ≤ 1 := by
  have hall := (run_advances h (.of_init hinit) hflag).2
  refine ⟨fun t ht => (hall t ht).2.1.cursor (hall t ht).2.2.1, ?_⟩
  rintro tr₁ t₁ tr₂ t₂ tr₃ b rfl hb₁ hb₂ hb
  obtain ⟨_, _, hrun₁⟩ := h.of_append
  obtain ⟨-, -, hrun₂⟩ := hrun₁.of_cons
  obtain ⟨s₂, hmiddle, hlast⟩ := hrun₂.of_append
  obtain ⟨hpre, -, -⟩ := hlast.of_cons
  obtain ⟨hordered₁, -, -, hadv₁⟩ := hall t₁ (by simp)
  obtain ⟨hordered₂, -, -, hadv₂⟩ := hall t₂ (by simp)
  obtain ⟨-, hmem, hlist, hnext⟩ := hadv₁.of_handedOut hb₁
  have hround := Round.run hmiddle (fun t ht => ⟨(hall t (by simp [ht])).1,
    (hall t (by simp [ht])).2.2.2⟩) (Round.start hordered₁.nodup hmem hlist hnext) hb
  rw [← hpre, List.nil_append] at hround
  have horder := hround.finish hordered₂.nodup (hadv₂.of_handedOut hb₂).1
  obtain ⟨hold, hany⟩ := horder.count hordered₂.nodup
  exact ⟨horder, hold, fun c _ => hany c⟩

/-- Two buffers, of which the first is handed out, given back, and handed out again. -/
theorem run_cyclic_two : ∃ tr s',
    bufferLts.Run State.initial tr s' ∧
    tr.map (·.act) = [.create 0, .create 1, .call 0 (.append 0), .run 0, .run 0,
      .call 0 (.append 1), .run 0, .run 0, .call 0 .getFree, .run 0, .run 0,
      .call 1 .getFree, .run 1, .run 1, .call 0 (.setFree 0), .run 0, .run 0, .run 0,
      .call 0 .getFree, .run 0, .run 0] ∧
    handOuts tr = [0, 1, 0] ∧
    ∀ tr₁ t₁ tr₂ t₂ tr₃ b, tr = tr₁ ++ t₁ :: (tr₂ ++ t₂ :: tr₃) →
      b ∈ handedOut t₁.out → b ∈ handedOut t₂.out → b ∉ handOuts tr₂ →
      ∀ c ∈ t₁.pre.list, c ≠ b → (handOuts tr₂).count c = 1 := by
  obtain ⟨tr, s', hrun, hacts, hend⟩ := Lts.Run.of_exec_map (M := bufferLts)
    (g := fun r => (handOuts r.1, r.2.shutDownFlag)) (v := ([0, 1, 0], 0)) (s := State.initial)
    (l := [.create 0, .create 1, .call 0 (.append 0), .run 0, .run 0,
      .call 0 (.append 1), .run 0, .run 0, .call 0 .getFree, .run 0, .run 0,
      .call 1 .getFree, .run 1, .run 1, .call 0 (.setFree 0), .run 0, .run 0, .run 0,
      .call 0 .getFree, .run 0, .run 0]) (by decide +kernel)
  obtain ⟨hout, hflag⟩ := Prod.mk.inj hend
  refine ⟨tr, s', hrun, hacts, hout, ?_⟩
  intro tr₁ t₁ tr₂ t₂ tr₃ b htr hb₁ hb₂ hb
  exact ((run_cyclic hrun rfl hflag).2 tr₁ t₁ tr₂ t₂ tr₃ b htr hb₁ hb₂ hb).2.1

end BufferList

end Gpcieuni
