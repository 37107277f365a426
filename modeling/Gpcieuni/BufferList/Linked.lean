-- SUMMARY: The links of the buffer list: the cursor and the walk of clear stay on linked buffers, no thread faults, and buffers are exclusive.
import Mathlib.Data.List.Nodup
import Gpcieuni.BufferList.Ownership

/-!
# The links of the buffer list

Only clear takes entries off the list, and it raises the shutdown flag before it
takes the first one. So the cursor stays on a linked buffer as long as anybody
follows it, and the walk of clear is disturbed by appends only, which leave the
entries it has already looked up in place.
-/

namespace Gpcieuni

namespace BufferList

/-! ## The next entry -/

theorem after_mem {l : List BufId} {b c : BufId} (h : after l b = some c) : c ∈ l := by
  induction l with
  | nil => cases h
  | cons a l ih =>
      simp only [after] at h
      split at h
      · exact List.mem_cons_of_mem _ (List.mem_of_mem_head? h)
      · exact List.mem_cons_of_mem _ (ih h)

theorem after_ne {l : List BufId} (hl : l.Nodup) {b c : BufId} (h : after l b = some c) :
    b ≠ c := by
  induction l with
  | nil => cases h
  | cons a l ih =>
      obtain ⟨ha, hl'⟩ := List.nodup_cons.mp hl
      simp only [after] at h
      split at h
      · rename_i heq
        subst heq
        rintro rfl
        exact ha (List.mem_of_mem_head? h)
      · exact ih hl' h

/-! ## The invariant -/

/-- The invariant of the links. -/
structure WellLinked (s : State) : Prop where
  nodup : s.list.Nodup
  live : ∀ b ∈ s.list, s.Live b
  called : ∀ b ∈ s.list, s.appendCalled b = true
  appending : ∀ t b, (s.thread t).role = .appending b →
    s.Live b ∧ b ∉ s.list ∧ s.appendCalled b = true
  appendOnce : ∀ t u b, (s.thread t).role = .appending b → (s.thread u).role = .appending b → t = u
  undone : s.appendDone = false → s.list = [] ∧ s.next = none
  cursor : s.shutDownFlag = 0 → s.appendDone = true → ∃ b ∈ s.list, s.next = some b
  clearing : ∀ t walk, (s.thread t).role = .clearing walk → s.clearCalled = true
  clearOnce : ∀ t u walk walk', (s.thread t).role = .clearing walk →
    (s.thread u).role = .clearing walk' → t = u
  walk : ∀ t pos tpos, (s.thread t).role = .clearing (some (pos, tpos)) →
    s.shutDownFlag ≠ 0 ∧ (∀ b ∈ pos, b ∈ s.list) ∧ ∀ c ∈ tpos, c ∈ s.list ∧ pos ≠ some c

/-- The invariant if nobody asks for a buffer before the first append. -/
structure Linked (s : State) : Prop extends WellLinked s where
  gettingFree : ∀ t, (s.thread t).role = .gettingFree → s.appendDone = true
  noFault : ∀ t, (s.thread t).role ≠ .faulted

/-- The roles that the links do not depend on. -/
def Role.Beside : Role → Prop
  | .outside | .releasing _ | .gettingFree | .faulted => True
  | _ => False

/-- One thread moves within its role, or leaves it, and the list stays as it is. -/
theorem WellLinked.move {s s' : State} (hs : WellLinked s) {t : Tid} {pc : Pc}
    (hlive : ∀ b, s.Live b → s'.Live b) (hlist : s'.list = s.list)
    (hcursor : s'.shutDownFlag = 0 → s'.appendDone = true → ∃ b ∈ s'.list, s'.next = some b)
    (hflag : s'.shutDownFlag = s.shutDownFlag) (hcalled : s'.appendCalled = s.appendCalled)
    (hdone : s'.appendDone = s.appendDone) (hclear : s'.clearCalled = s.clearCalled)
    (hthread : s'.thread = Function.update s.thread t pc)
    (hundone : s'.appendDone = false → s'.next = none)
    (hrole : pc.role = (s.thread t).role ∨ pc.role.Beside) : WellLinked s' := by
  have hback : ∀ u role, (s'.thread u).role = role → ¬ role.Beside →
      (s.thread u).role = role := by
    rw [hthread]
    refine Threads.forall_update (Q := fun u pc => ∀ role, Pc.role pc = role → ¬ role.Beside →
      (s.thread u).role = role) ?_ (fun u _ role h _ => h)
    rintro role rfl hnot
    rcases hrole with hsame | hdet
    · exact hsame.symm
    · exact absurd hdet hnot
  refine ⟨by rw [hlist]; exact hs.nodup, ?_, ?_, ?_, ?_, ?_, hcursor, ?_, ?_, ?_⟩
  · rw [hlist]
    exact fun b hb => hlive b (hs.live b hb)
  · rw [hlist, hcalled]
    exact hs.called
  · intro u b hb
    obtain ⟨hold, hnew, hc⟩ := hs.appending u b (hback u _ hb id)
    exact ⟨hlive b hold, by rw [hlist]; exact hnew, by rw [hcalled]; exact hc⟩
  · exact fun u v b hu hv => hs.appendOnce u v b (hback u _ hu id) (hback v _ hv id)
  · intro hnot
    rw [hlist]
    exact ⟨(hs.undone (hdone ▸ hnot)).1, hundone hnot⟩
  · intro u walk hu
    rw [hclear]
    exact hs.clearing u walk (hback u _ hu id)
  · exact fun u v walk walk' hu hv =>
      hs.clearOnce u v walk walk' (hback u _ hu id) (hback v _ hv id)
  · intro u pos tpos hu
    rw [hflag, hlist]
    exact hs.walk u pos tpos (hback u _ hu id)

/-- The role of a thread after one thread moved: its new one if it is that
thread, the old one otherwise. -/
theorem role_of_goto {s : State} {t u : Tid} {pc : Pc} {role : Role}
    (h : ((s.goto t pc).thread u).role = role) :
    (u = t ∧ pc.role = role) ∨ (u ≠ t ∧ (s.thread u).role = role) := by
  by_cases hu : u = t
  · subst hu
    exact .inl ⟨rfl, by simpa [State.goto] using h⟩
  · exact .inr ⟨hu, by simpa [State.goto, hu] using h⟩

/-- A thread that takes on a role keeps the clauses about all other roles. -/
theorem role_of_goto_ne {s : State} {t u : Tid} {pc : Pc} {role : Role}
    (h : ((s.goto t pc).thread u).role = role) (hne : pc.role ≠ role) :
    u ≠ t ∧ (s.thread u).role = role := by
  rcases role_of_goto h with ⟨-, hrole⟩ | hold
  · exact absurd hrole hne
  · exact hold

/-! ## The rules that change a role or the list -/

section Rules

variable {s : State} {t : Tid} {b : BufId} (hs : WellLinked s)

include hs

theorem WellLinked.callAppend (hlive : s.Live b) (hfresh : s.appendCalled b = false) :
    WellLinked { s.goto t (.appendLock b) with
      appendCalled := Function.update s.appendCalled b true } := by
  have hcalled : ∀ c, s.appendCalled c = true → Function.update s.appendCalled b true c = true := by
    intro c hc
    by_cases hcb : c = b
    · subst hcb; simp
    · simpa [hcb] using hc
  have hother : ∀ u, (s.thread u).role ≠ .appending b := by
    intro u hu
    have := (hs.appending u b hu).2.2
    rw [hfresh] at this
    cases this
  refine ⟨hs.nodup, hs.live, fun c hc => hcalled c (hs.called c hc), ?_, ?_, hs.undone, hs.cursor,
    ?_, ?_, ?_⟩
  · intro u c hc
    rcases role_of_goto hc with ⟨-, heq⟩ | ⟨-, hold⟩
    · cases heq
      refine ⟨hlive, fun hmem => ?_, by simp⟩
      rw [hs.called b hmem] at hfresh
      cases hfresh
    · obtain ⟨hl, hn, hc'⟩ := hs.appending u c hold
      exact ⟨hl, hn, hcalled c hc'⟩
  · intro u v c hu hv
    rcases role_of_goto hu with ⟨rfl, heq⟩ | ⟨-, hu'⟩
    · cases heq
      rcases role_of_goto hv with ⟨rfl, -⟩ | ⟨-, hv'⟩
      · rfl
      · exact absurd hv' (hother v)
    · rcases role_of_goto hv with ⟨-, heq⟩ | ⟨-, hv'⟩
      · cases heq
        exact absurd hu' (hother u)
      · exact hs.appendOnce u v c hu' hv'
  · exact fun u walk hu => hs.clearing u walk (role_of_goto_ne hu (by simp [Pc.role])).2
  · exact fun u v walk walk' hu hv => hs.clearOnce u v walk walk'
      (role_of_goto_ne hu (by simp [Pc.role])).2 (role_of_goto_ne hv (by simp [Pc.role])).2
  · exact fun u pos tpos hu => hs.walk u pos tpos (role_of_goto_ne hu (by simp [Pc.role])).2

theorem WellLinked.callClear (hfirst : s.clearCalled = false) :
    WellLinked { s.goto t .clearLock with clearCalled := true } := by
  have hother : ∀ u walk, (s.thread u).role ≠ .clearing walk := by
    intro u walk hu
    have := hs.clearing u walk hu
    rw [hfirst] at this
    cases this
  refine ⟨hs.nodup, hs.live, hs.called, ?_, ?_, hs.undone, hs.cursor, fun _ _ _ => rfl, ?_, ?_⟩
  · exact fun u c hu => hs.appending u c (role_of_goto_ne hu (by simp [Pc.role])).2
  · exact fun u v c hu hv => hs.appendOnce u v c
      (role_of_goto_ne hu (by simp [Pc.role])).2 (role_of_goto_ne hv (by simp [Pc.role])).2
  · intro u v walk walk' hu hv
    rcases role_of_goto hu with ⟨rfl, -⟩ | ⟨-, hu'⟩
    · rcases role_of_goto hv with ⟨rfl, -⟩ | ⟨-, hv'⟩
      · rfl
      · exact absurd hv' (hother v walk')
    · exact absurd hu' (hother u walk)
  · exact fun u pos tpos hu => hs.walk u pos tpos (role_of_goto_ne hu (by simp [Pc.role])).2

theorem WellLinked.append (ht : (s.thread t).role = .appending b) :
    WellLinked { s.unlock t .idle with
      list := s.list ++ [b]
      next := if (s.list ++ [b]).length = 1 then (s.list ++ [b]).head? else s.next
      appendDone := true } := by
  obtain ⟨hlive, hnew, hcalled⟩ := hs.appending t b ht
  have hmem : ∀ c, c ∈ s.list ++ [b] → c ∈ s.list ∨ c = b := fun c hc => by simpa using hc
  refine ⟨?_, ?_, ?_, ?_, ?_, by simp, ?_, ?_, ?_, ?_⟩
  · exact List.Nodup.append hs.nodup (List.nodup_singleton b) (by simpa using hnew)
  · intro c hc
    rcases hmem c hc with hold | rfl
    · exact hs.live c hold
    · exact hlive
  · intro c hc
    rcases hmem c hc with hold | rfl
    · exact hs.called c hold
    · exact hcalled
  · intro u c hu
    obtain ⟨hne, hold⟩ := role_of_goto_ne hu (by simp [Pc.role])
    obtain ⟨hl, hn, hc⟩ := hs.appending u c hold
    refine ⟨hl, fun hin => ?_, hc⟩
    rcases hmem c hin with hin | rfl
    · exact hn hin
    · exact hne (hs.appendOnce u t c hold ht)
  · exact fun u v c hu hv => hs.appendOnce u v c
      (role_of_goto_ne hu (by simp [Pc.role])).2 (role_of_goto_ne hv (by simp [Pc.role])).2
  · intro hflag _
    cases hl : s.list with
    | nil => exact ⟨b, by simp, by simp⟩
    | cons a l =>
        -- the list was not empty, so the cursor was on it
        have hdone : s.appendDone = true := by
          cases hd : s.appendDone with
          | true => rfl
          | false => rw [(hs.undone hd).1] at hl; cases hl
        obtain ⟨c, hc, hnext⟩ := hs.cursor hflag hdone
        refine ⟨c, ?_, by simpa using hnext⟩
        rw [hl] at hc
        exact List.mem_append_left _ hc
  · exact fun u walk hu => hs.clearing u walk (role_of_goto_ne hu (by simp [Pc.role])).2
  · exact fun u v walk walk' hu hv => hs.clearOnce u v walk walk'
      (role_of_goto_ne hu (by simp [Pc.role])).2 (role_of_goto_ne hv (by simp [Pc.role])).2
  · intro u pos tpos hu
    obtain ⟨hflag, hpos, htpos⟩ := hs.walk u pos tpos (role_of_goto_ne hu (by simp [Pc.role])).2
    refine ⟨hflag, fun c hc => List.mem_append_left _ (hpos c hc), fun c hc => ?_⟩
    exact ⟨List.mem_append_left _ (htpos c hc).1, (htpos c hc).2⟩

/-- Clear starts a walk, or takes the entry `b` off the list and goes on to the
next one. -/
theorem WellLinked.walkOn {s' : State} {list : List BufId} {pos : Option BufId}
    {walk : Option (Option BufId × Option BufId)} (ht : (s.thread t).role = .clearing walk)
    (hthread : s'.thread = (s.goto t (State.loopAt list pos)).thread) (hlist : s'.list = list)
    (hsub : list.Sublist s.list) (hpos : ∀ c ∈ pos, c ∈ list)
    (hlive : ∀ c ∈ list, s'.Live c) (hlive' : ∀ c, c ∉ s.list → s.Live c → s'.Live c)
    (hflag : s'.shutDownFlag ≠ 0) (hcalled : s'.appendCalled = s.appendCalled)
    (hdone : s'.appendDone = s.appendDone) (hclear : s'.clearCalled = s.clearCalled)
    (hnext : s'.next = s.next) : WellLinked s' := by
  have hnodup := hs.nodup.sublist hsub
  have hrole : ∀ u role, (s'.thread u).role = role → (∀ w, role ≠ .clearing w) →
      (s.thread u).role = role := by
    intro u role hu hnot
    rw [hthread] at hu
    exact (role_of_goto_ne hu fun heq => hnot _ heq.symm).2
  have hmine : ∀ u w, (s'.thread u).role = .clearing w → u = t := by
    intro u w hu
    rw [hthread] at hu
    rcases role_of_goto hu with ⟨rfl, -⟩ | ⟨-, hold⟩
    · rfl
    · exact hs.clearOnce u t w walk hold ht
  refine ⟨by rw [hlist]; exact hnodup, by rw [hlist]; exact hlive, ?_, ?_, ?_, ?_,
    fun h0 => absurd h0 hflag, ?_, ?_, ?_⟩
  · rw [hlist, hcalled]
    exact fun c hc => hs.called c (hsub.subset hc)
  · intro u c hu
    obtain ⟨hl, hn, hc⟩ := hs.appending u c (hrole u _ hu (by simp))
    exact ⟨hlive' c hn hl, by rw [hlist]; exact fun hin => hn (hsub.subset hin),
      by rw [hcalled]; exact hc⟩
  · exact fun u v c hu hv => hs.appendOnce u v c (hrole u _ hu (by simp)) (hrole v _ hv (by simp))
  · intro hd
    rw [hdone] at hd
    obtain ⟨hnil, hnone⟩ := hs.undone hd
    rw [hlist, hnext]
    rw [hnil] at hsub
    exact ⟨List.sublist_nil.mp hsub, hnone⟩
  · intro u w hu
    rw [hclear]
    exact hs.clearing t walk ht
  · exact fun u v w w' hu hv => (hmine u w hu).trans (hmine v w' hv).symm
  · intro u pos' tpos' hu
    obtain rfl := hmine u _ hu
    rw [hthread] at hu
    rcases role_of_goto hu with ⟨-, heq⟩ | ⟨hne, -⟩
    · cases heq
      refine ⟨hflag, by rw [hlist]; exact hpos, fun c hc => ?_⟩
      obtain ⟨b', rfl, hafter⟩ := Option.bind_eq_some_iff.mp hc
      rw [hlist]
      refine ⟨after_mem hafter, fun heq => ?_⟩
      exact after_ne hnodup hafter (Option.some.inj heq)
    · exact absurd rfl hne

end Rules

/-- The entry that clear goes to after `b` stays on the list when `b` is taken off. -/
theorem WellLinked.mem_erase {s : State} (hs : WellLinked s) {t : Tid} {b c : BufId} {tpos : Option BufId}
    (ht : (s.thread t).role = .clearing (some (some b, tpos))) (hc : c ∈ tpos) :
    c ∈ s.list.erase b := by
  obtain ⟨-, -, htpos⟩ := hs.walk t _ _ ht
  obtain ⟨hin, hne⟩ := htpos c hc
  have hcb : c ≠ b := fun heq => hne (congrArg some heq.symm)
  exact (List.mem_erase_of_ne hcb).mpr hin

/-! ## Every run -/

theorem State.Live.update {s s' : State} {b c : BufId} {cell : Cell} (h : s.Live c)
    (hcell : s'.cell = Function.update s.cell b cell) (hb : c = b → ∃ state, cell = .live state) :
    s'.Live c := by
  by_cases hcb : c = b
  · subst hcb
    obtain ⟨state, rfl⟩ := hb rfl
    exact ⟨state, by rw [hcell, Function.update_self]⟩
  · obtain ⟨state, hlive⟩ := h
    exact ⟨state, by rw [hcell, Function.update_of_ne hcb, hlive]⟩

theorem Step.wellLinked {s s' : State} {a : Act} {out : List Event} (h : Step s a s' out)
    (hs : WellLinked s) (hcall : Orderly s a) : WellLinked s' := by
  have hnone : s.appendDone = false → s.next = none := fun hd => (hs.undone hd).2
  have hsame : ∀ b, s.Live b → s.Live b := fun _ hb => hb
  cases h with
  | @create b hcell =>
      have hlive : ∀ c, s.Live c → State.Live { s with
          cell := Function.update s.cell b (.live createdState) } c :=
        fun c hc => hc.update rfl fun _ => ⟨_, rfl⟩
      refine ⟨hs.nodup, fun c hc => hlive c (hs.live c hc), hs.called, ?_, hs.appendOnce, hs.undone,
        hs.cursor, hs.clearing, hs.clearOnce, hs.walk⟩
      intro t c hc
      obtain ⟨hl, hn, hcalled⟩ := hs.appending t c hc
      exact ⟨hlive c hl, hn, hcalled⟩
  | callAppend ht => exact hs.callAppend hcall.1 hcall.2
  | callGetFree ht => exact hs.move hsame rfl hs.cursor rfl rfl rfl rfl rfl hnone (.inr trivial)
  | callSetFree ht => exact hs.move hsame rfl hs.cursor rfl rfl rfl rfl rfl hnone (.inr trivial)
  | callClear ht => exact hs.callClear hcall
  | lock ht =>
      exact hs.move hsame rfl hs.cursor rfl rfl rfl rfl rfl hnone (.inl (Pc.role_behindLock ht))
  | append ht => exact hs.append (by rw [ht]; rfl)
  | refuse ht => exact hs.move hsame rfl hs.cursor rfl rfl rfl rfl rfl hnone (.inr trivial)
  | refuseLocked ht => exact hs.move hsame rfl hs.cursor rfl rfl rfl rfl rfl hnone (.inr trivial)
  | @handOut t b state ht hflag hnext hcell havail hmem =>
      refine hs.move (fun c hc => hc.update rfl fun _ => ⟨_, rfl⟩) rfl ?_ rfl rfl rfl rfl rfl ?_
        (.inr trivial)
      swap
      · intro hd
        rw [hnone hd] at hnext
        cases hnext
      intro _ _
      -- the cursor moves to the next entry, or wraps to the first one
      cases hafter : after s.list b with
      | none =>
          obtain ⟨c, hc⟩ : ∃ c, s.list.head? = some c := by
            cases hl : s.list with
            | nil => rw [hl] at hmem; cases hmem
            | cons a l => exact ⟨a, rfl⟩
          exact ⟨c, List.mem_of_mem_head? hc, by simp only [hc]⟩
      | some c => exact ⟨c, after_mem hafter, rfl⟩
  | beginWait ht =>
      refine hs.move hsame rfl hs.cursor rfl rfl rfl rfl rfl hnone (.inl ?_)
      rcases ht with ht | ht <;> rw [ht] <;> rfl
  | giveUp ht => exact hs.move hsame rfl hs.cursor rfl rfl rfl rfl rfl hnone (.inr trivial)
  | woken ht =>
      exact hs.move hsame rfl hs.cursor rfl rfl rfl rfl rfl hnone (.inl (by rw [ht]; rfl))
  | setFree ht hcell =>
      exact hs.move (fun c hc => hc.update rfl fun _ => ⟨_, rfl⟩) rfl hs.cursor rfl rfl rfl rfl
        rfl hnone (.inr trivial)
  | wake ht => exact hs.move hsame rfl hs.cursor rfl rfl rfl rfl rfl hnone (.inr trivial)
  | @clear t ht =>
      have hrole : (s.thread t).role = .clearing none := by rw [ht]; rfl
      exact hs.walkOn hrole rfl rfl (List.Sublist.refl _)
        (fun c hc => List.mem_of_mem_head? hc) hs.live (fun _ _ hc => hc) one_ne_zero rfl rfl rfl rfl
  | cleared ht => exact hs.move hsame rfl hs.cursor rfl rfl rfl rfl rfl hnone (.inr trivial)
  | @destroy t b tpos code state ht hcell havail hmem hcode =>
      have hrole : (s.thread t).role = .clearing (some (some b, tpos)) := by rw [ht]; rfl
      refine hs.walkOn hrole rfl rfl List.erase_sublist (fun c hc => hs.mem_erase hrole hc) ?_ ?_
        (hs.walk t _ _ hrole).1 rfl rfl rfl rfl
      · intro c hc
        obtain ⟨hne, hin⟩ := hs.nodup.mem_erase_iff.mp hc
        exact (hs.live c hin).update rfl fun heq => absurd heq hne
      · intro c hnot hc
        exact hc.update rfl fun heq => absurd (heq ▸ hmem) hnot
  | @leak t b tpos code state ht hcell havail hmem hcode =>
      have hrole : (s.thread t).role = .clearing (some (some b, tpos)) := by rw [ht]; rfl
      exact hs.walkOn hrole rfl rfl List.erase_sublist (fun c hc => hs.mem_erase hrole hc)
        (fun c hc => hs.live c (List.mem_of_mem_erase hc)) (fun _ _ hc => hc)
        (hs.walk t _ _ hrole).1 rfl rfl rfl rfl
  | clearBusy ht =>
      exact hs.move hsame rfl hs.cursor rfl rfl rfl rfl rfl hnone (.inl (by rw [ht]; rfl))
  | clearWaited ht =>
      exact hs.move hsame rfl hs.cursor rfl rfl rfl rfl rfl hnone (.inl (by rw [ht]; rfl))
  | recheck => exact hs
  | fault => exact hs.move hsame rfl hs.cursor rfl rfl rfl rfl rfl hnone (.inr trivial)

theorem WellLinked.of_init {s : State} (h : bufferLts.init s) : WellLinked s := by
  obtain rfl : s = State.initial := h
  have hrole : ∀ t, (State.initial.thread t).role = .outside := fun _ => rfl
  exact ⟨List.nodup_nil, by simp [State.initial], by simp [State.initial], by simp [hrole],
    by simp [hrole], fun _ => ⟨rfl, rfl⟩, by simp [State.initial], by simp [hrole], by simp [hrole],
    by simp [hrole]⟩

/-! ## Faults -/

/-- Nothing that a thread does under the discipline is a fault. -/
theorem Linked.not_faulty {s : State} (hs : Linked s) (howned : Owned s) (t : Tid) :
    ¬ s.Faulty (s.thread t) := by
  intro hfault
  have hget : s.shutDownFlag = 0 → s.appendDone = true →
      ¬ ∀ b ∈ s.next, s.Live b → b ∉ s.list := by
    intro hflag hdone hall
    obtain ⟨b, hb, hnext⟩ := hs.cursor hflag hdone
    exact hall b hnext (hs.live b hb) hb
  cases hpc : s.thread t with
  | append b =>
      obtain ⟨hlive, hnew, -⟩ := hs.appending t b (by rw [hpc]; rfl)
      rw [hpc] at hfault
      rcases hfault with hdead | hold
      · exact hdead hlive
      · exact hnew hold
  | getFree =>
      have hdone := hs.gettingFree t (by rw [hpc]; rfl)
      rw [hpc] at hfault
      exact hget hfault.1 hdone hfault.2
  | getFreeAgain =>
      have hdone := hs.gettingFree t (by rw [hpc]; rfl)
      rw [hpc] at hfault
      exact hget hfault.1 hdone hfault.2
  | setFree b =>
      obtain ⟨state, hlive, -⟩ := (howned.releasing t b (by rw [hpc]; rfl)).1
      rw [hpc] at hfault
      exact hfault ⟨state, hlive⟩
  | clearLoop pos tpos code =>
      obtain ⟨-, hpos, -⟩ := hs.walk t pos tpos (by rw [hpc]; rfl)
      rw [hpc] at hfault
      cases pos with
      | none => exact hfault
      | some b =>
          rcases hfault with hdead | hgone
          · exact hdead (hs.live b (hpos b rfl))
          · exact hgone (hpos b rfl)
  | _ => rw [hpc] at hfault; exact hfault

/-- A thread is in get_free since before the step, or it calls it. -/
theorem Step.role_gettingFree {s s' : State} {a : Act} {out : List Event} (h : Step s a s' out)
    {u : Tid} (hu : (s'.thread u).role = .gettingFree) :
    (s.thread u).role = .gettingFree ∨ a = .call u .getFree := by
  cases h with
  | create | recheck => exact .inl hu
  | callGetFree =>
      rcases role_of_goto hu with ⟨rfl, -⟩ | ⟨-, hold⟩
      · exact .inr rfl
      · exact .inl hold
  | lock ht =>
      rcases role_of_goto hu with ⟨rfl, heq⟩ | ⟨-, hold⟩
      · exact .inl ((Pc.role_behindLock ht).symm.trans heq)
      · exact .inl hold
  | beginWait ht =>
      rcases role_of_goto hu with ⟨rfl, -⟩ | ⟨-, hold⟩
      · rcases ht with ht | ht <;> exact .inl (by rw [ht]; rfl)
      · exact .inl hold
  | woken ht =>
      rcases role_of_goto hu with ⟨rfl, -⟩ | ⟨-, hold⟩
      · exact .inl (by rw [ht]; rfl)
      · exact .inl hold
  | _ => exact .inl (role_of_goto_ne hu (by simp [Pc.role, State.loopAt])).2

/-- A thread faults at the step that is a fault. -/
theorem Step.role_faulted {s s' : State} {a : Act} {out : List Event} (h : Step s a s' out)
    {u : Tid} (hu : (s'.thread u).role = .faulted) :
    (s.thread u).role = .faulted ∨ s.Faulty (s.thread u) := by
  cases h with
  | create | recheck => exact .inl hu
  | lock ht =>
      rcases role_of_goto hu with ⟨rfl, heq⟩ | ⟨-, hold⟩
      · exact .inl ((Pc.role_behindLock ht).symm.trans heq)
      · exact .inl hold
  | fault hfault =>
      rcases role_of_goto hu with ⟨rfl, -⟩ | ⟨-, hold⟩
      · exact .inr hfault
      · exact .inl hold
  | _ => exact .inl (role_of_goto_ne hu (by simp [Pc.role, State.loopAt])).2

theorem Step.appendDone {s s' : State} {a : Act} {out : List Event} (h : Step s a s' out)
    (hdone : s.appendDone = true) : s'.appendDone = true := by
  cases h with
  | append => rfl
  | _ => exact hdone

theorem Step.linked {s s' : State} {a : Act} {out : List Event} (h : Step s a s' out)
    (howned : Owned s) (hs : Linked s) (hdisc : Disciplined s a) : Linked s' := by
  refine ⟨h.wellLinked hs.toWellLinked hdisc.orderly, fun u hu => h.appendDone ?_, fun u hu => ?_⟩
  · rcases h.role_gettingFree hu with hold | rfl
    · exact hs.gettingFree u hold
    · exact hdisc
  · rcases h.role_faulted hu with hold | hfault
    · exact hs.noFault u hold
    · exact hs.not_faulty howned u hfault

theorem Linked.of_init {s : State} (h : bufferLts.init s) : Linked s := by
  refine ⟨.of_init h, fun t ht => ?_, fun t ht => ?_⟩
  all_goals
    obtain rfl : s = State.initial := h
    cases ht

theorem reachable_inv {s : State} (h : bufferLts.Reachable Disciplined s) : Owned s ∧ Linked s := by
  refine h.invariant (I := fun s => Owned s ∧ Linked s)
    (fun s hinit => ⟨.of_init hinit, .of_init hinit⟩) ?_
  rintro s a s' e ⟨howned, hlinked⟩ hdisc hstep
  have hrule := step_rules hstep
  exact ⟨hrule.owned howned hdisc.orderly, hrule.linked howned hlinked hdisc⟩

/-- In every state that disciplined callers reach: a get_free returns only
buffers that nobody holds, every allocated buffer has exactly one of its two
flags set, clear destroys only buffers that nobody holds, and no thread has run
into a fault. -/
theorem buffers_exclusive {s : State} (h : bufferLts.Reachable Disciplined s) :
    (∀ a s' out t b, bufferLts.step s a = some (s', out) → .returned t (.buffer b) ∈ out →
      s.held b = false) ∧
    (∀ b state, s.cell b = .live state →
      (Word.testBit bufferStateAvailable state = true ∧
          Word.testBit bufferStateWaiting state = false) ∨
        (Word.testBit bufferStateAvailable state = false ∧
          Word.testBit bufferStateWaiting state = true)) ∧
    (∀ a s' out b, bufferLts.step s a = some (s', out) → .destroyed b ∈ out →
      s.held b = false) ∧
    ∀ t, s.thread t ≠ .fault := by
  obtain ⟨howned, hlinked⟩ := reachable_inv h
  refine ⟨?_, ?_, ?_, ?_⟩
  · exact fun a s' out t b hstep hout => (step_rules hstep).handOut_free howned hout
  · intro b state hcell
    have hflags := howned.flags b state hcell
    cases hwait : Word.testBit bufferStateWaiting state with
    | false => exact .inl ⟨by rw [hflags, hwait]; rfl, rfl⟩
    | true => exact .inr ⟨by rw [hflags, hwait]; rfl, rfl⟩
  · exact fun a s' out b hstep hout => (step_rules hstep).destroy_free howned hout
  · intro t ht
    exact hlinked.noFault t (by rw [ht]; rfl)

/-- Thread 0 holds the only buffer, thread 1 waits for it in get_free and thread 2
in clear: no step hands it out again or destroys it. -/
theorem buffers_exclusive_waiting : ∃ tr s,
    bufferLts.Run State.initial tr s ∧
    tr.map (·.act) = [.create 0, .call 0 (.append 0), .run 0, .run 0, .call 0 .getFree, .run 0,
      .run 0, .call 1 .getFree, .run 1, .run 1, .call 2 .clear, .run 2, .run 2, .run 2] ∧
    s.held 0 = true ∧ s.thread 1 = .getFreeWait 0 ∧ s.thread 2 = .clearWait 0 none ∧
    ∀ a s' out, bufferLts.step s a = some (s', out) →
      (∀ t, .returned t (.buffer 0) ∉ out) ∧ .destroyed 0 ∉ out := by
  obtain ⟨tr, s, hrun, hacts, hend⟩ := Lts.Run.of_exec_map (M := bufferLts)
    (g := fun r => (r.1.all fun t => decide (Disciplined t.pre t.act), r.2.held 0, r.2.thread 1,
      r.2.thread 2)) (v := (true, true, .getFreeWait 0, .clearWait 0 none))
    (s := State.initial)
    (l := [.create 0, .call 0 (.append 0), .run 0, .run 0, .call 0 .getFree, .run 0, .run 0,
      .call 1 .getFree, .run 1, .run 1, .call 2 .clear, .run 2, .run 2, .run 2])
    (by decide +kernel)
  obtain ⟨hdisc, hrest⟩ := Prod.mk.inj hend
  obtain ⟨hheld, hrest⟩ := Prod.mk.inj hrest
  obtain ⟨hget, hclear⟩ := Prod.mk.inj hrest
  replace hheld : s.held 0 = true := hheld
  obtain ⟨hout, -, hdestroy, -⟩ := buffers_exclusive (s := s)
    ⟨State.initial, tr, rfl, hrun, by simpa using hdisc⟩
  refine ⟨tr, s, hrun, hacts, hheld, hget, hclear, fun a s' out hstep => ⟨fun t hmem => ?_, ?_⟩⟩
  · have := hout a s' out t 0 hstep hmem
    rw [hheld] at this
    cases this
  · intro hmem
    have := hdestroy a s' out 0 hstep hmem
    rw [hheld] at this
    cases this

end BufferList

end Gpcieuni
