-- SUMMARY: When clear comes to its end: the walk while only set_free calls are made, the number of steps it takes, and the buffers that are never released.
import Gpcieuni.BufferList.Shutdown

/-!
# The end of clear

The list is shut down by one clear while holders give their buffers back. The
walk of clear is then always at the head of the list, so the list is empty when
the walk is over. Every step of clear but one lowers the number of steps that
clear can still take: a wait that times out sends it back to wait for the same
buffer.
-/

namespace Gpcieuni

namespace BufferList

/-! ## Shutting down -/

/-- The calls that are made while thread `c` shuts the list down: its clear, and
set_free of buffers that are held. -/
def ShuttingDown (c : Tid) (s : State) : Act → Prop
  | .call t .clear => t = c ∧ s.clearCalled = false
  | .call _ (.setFree b) => s.held b = true
  | .call _ (.append _) | .call _ .getFree | .create _ => False
  | .run _ | .wait .. | .recheck _ => True

instance shuttingDownDecidable (c : Tid) (s : State) (a : Act) : Decidable (ShuttingDown c s a) :=
  match a with
  | .call t .clear => inferInstanceAs (Decidable (t = c ∧ s.clearCalled = false))
  | .call _ (.setFree b) => inferInstanceAs (Decidable (s.held b = true))
  | .call _ (.append _) | .call _ .getFree | .create _ => isFalse id
  | .run _ | .wait .. | .recheck _ => isTrue trivial

theorem ShuttingDown.disciplined {c : Tid} {s : State} {a : Act} (h : ShuttingDown c s a) :
    Disciplined s a := by
  cases a with
  | call t r =>
      cases r with
      | append b => exact absurd h id
      | getFree => exact absurd h id
      | setFree b => exact h
      | clear => exact h.2
  | create b => exact absurd h id
  | run | wait | recheck => trivial

/-- The roles of threads that are in no append, no get_free and no clear. -/
def Role.Detached : Role → Prop
  | .outside | .releasing _ => True
  | _ => False

/-- The walk of clear is at the head of the list, and when it is over the list is
empty. -/
def WalkAtHead (c : Tid) (s : State) : Prop :=
  (∀ pos tpos, (s.thread c).role = .clearing (some (pos, tpos)) →
    pos = s.list.head? ∧ tpos = s.list.tail.head?) ∧
  (s.clearCalled = true → (∃ walk, (s.thread c).role = .clearing walk) ∨ s.list = [])

/-- The thread that clears keeps its role, or it was outside of clear and stays so. -/
theorem WalkAtHead.move {c : Tid} {s s' : State} (hs : WalkAtHead c s) (hlist : s'.list = s.list)
    (hcalled : s'.clearCalled = s.clearCalled)
    (hrole : (s'.thread c).role = (s.thread c).role ∨
      (∀ walk, (s.thread c).role ≠ .clearing walk) ∧ (s'.thread c).role.Detached) :
    WalkAtHead c s' := by
  unfold WalkAtHead
  rw [hlist, hcalled]
  rcases hrole with hsame | ⟨hout, hdet⟩
  · rw [hsame]
    exact hs
  · refine ⟨fun pos tpos hw => ?_, fun hc => ?_⟩
    · rw [hw] at hdet
      exact absurd hdet id
    · rcases hs.2 hc with ⟨walk, hw⟩ | hnil
      · exact absurd hw (hout walk)
      · exact .inr hnil

/-- Clear goes to the head of the list. -/
theorem WalkAtHead.loopAt {c : Tid} {s' : State} {list : List BufId} {pos : Option BufId}
    (hlist : s'.list = list) (hthread : s'.thread c = State.loopAt list pos)
    (hpos : pos = list.head?) (htpos : pos.bind (after list) = list.tail.head?) :
    WalkAtHead c s' := by
  have hrole : (s'.thread c).role = .clearing (some (pos, pos.bind (after list))) := by
    rw [hthread]
    rfl
  refine ⟨fun pos' tpos' hw => ?_, fun _ => .inl ⟨_, hrole⟩⟩
  rw [hrole] at hw
  cases hw
  rw [hlist]
  exact ⟨hpos, htpos⟩

/-- What holds while thread `c` shuts the list down. -/
structure Closing (c : Tid) (s : State) : Prop where
  inv : ListInv s
  guards : Threads.Guards s.lock Pc.Inside s.thread
  roles : ∀ t, (s.thread t).role.Detached ∨ t = c ∧ ∃ walk, (s.thread t).role = .clearing walk
  head : WalkAtHead c s

namespace Closing

variable {c : Tid} {s : State} (h : Closing c s)

include h

theorem not_gettingFree (t : Tid) : (s.thread t).role ≠ .gettingFree := by
  intro ht
  rcases h.roles t with hdet | ⟨-, walk, hw⟩
  · rw [ht] at hdet; exact hdet
  · rw [ht] at hw; cases hw

theorem not_appending (t : Tid) (b : BufId) : (s.thread t).role ≠ .appending b := by
  intro ht
  rcases h.roles t with hdet | ⟨-, walk, hw⟩
  · rw [ht] at hdet; exact hdet
  · rw [ht] at hw; cases hw

theorem eq_of_clearing {t : Tid} {walk : Option (Option BufId × Option BufId)}
    (ht : (s.thread t).role = .clearing walk) : t = c := by
  rcases h.roles t with hdet | ⟨heq, -⟩
  · rw [ht] at hdet; exact absurd hdet id
  · exact heq

/-- The steps of the other threads: they give buffers back. -/
theorem frame {s' : State} {a : Act} {out : List Event} (hstep : Step s a s' out)
    (hact : ShuttingDown c s a) (ha : a.tid ≠ some c) :
    s'.list = s.list ∧ s'.clearCalled = s.clearCalled ∧ s'.thread c = s.thread c := by
  refine ⟨?_, ?_, hstep.thread_of_ne ha⟩
  · cases hstep with
    | append ht => exact absurd (by rw [ht]; rfl) (h.not_appending _ _)
    | @destroy t b tpos code state ht =>
        exact absurd (congrArg some (h.eq_of_clearing (t := t) (by rw [ht]; rfl))) ha
    | @leak t b tpos code state ht =>
        exact absurd (congrArg some (h.eq_of_clearing (t := t) (by rw [ht]; rfl))) ha
    | _ => rfl
  · cases hstep with
    | callClear => exact absurd (congrArg some hact.1) ha
    | _ => rfl

end Closing

/-- The walk starts at the head of the list. -/
theorem after_head? (l : List BufId) : l.head?.bind (after l) = l.tail.head? := by
  cases l with
  | nil => rfl
  | cons a l => simp [after]

/-- Nobody but `c` takes on a role that the walk of clear depends on. -/
theorem Step.closing_roles {c : Tid} {s s' : State} {a : Act} {out : List Event}
    (h : Step s a s' out) (hs : Closing c s) (hact : ShuttingDown c s a) :
    ∀ t, (s'.thread t).role.Detached ∨ t = c ∧ ∃ walk, (s'.thread t).role = .clearing walk := by
  have hmove : ∀ {t : Tid} {pc : Pc},
      (pc.role.Detached ∨ t = c ∧ ∃ walk, pc.role = .clearing walk) →
      ∀ u, (Function.update s.thread t pc u).role.Detached ∨
        u = c ∧ ∃ walk, (Function.update s.thread t pc u).role = .clearing walk := by
    intro t pc hpc
    exact Threads.forall_update (Q := fun u pc => (Pc.role pc).Detached ∨
      u = c ∧ ∃ walk, Pc.role pc = .clearing walk) hpc (fun u _ => hs.roles u)
  cases h with
  | create => exact absurd hact id
  | callAppend => exact absurd hact id
  | callGetFree => exact absurd hact id
  | callSetFree => exact hmove (.inl trivial)
  | callClear => exact hmove (.inr ⟨hact.1, none, rfl⟩)
  | @lock t pc ht =>
      apply hmove
      rw [Pc.role_behindLock ht]
      exact hs.roles t
  | @beginWait t b state ht =>
      refine absurd ?_ (hs.not_gettingFree t)
      rcases ht with ht | ht <;> rw [ht] <;> rfl
  | woken ht => exact absurd (by rw [ht]; rfl) (hs.not_gettingFree _)
  | @clear t ht => exact hmove (.inr ⟨hs.eq_of_clearing (t := t) (by rw [ht]; rfl), _, rfl⟩)
  | @destroy t b tpos code state ht =>
      exact hmove (.inr ⟨hs.eq_of_clearing (t := t) (by rw [ht]; rfl), _, rfl⟩)
  | @leak t b tpos code state ht =>
      exact hmove (.inr ⟨hs.eq_of_clearing (t := t) (by rw [ht]; rfl), _, rfl⟩)
  | @clearBusy t b tpos code state ht =>
      exact hmove (.inr ⟨hs.eq_of_clearing (t := t) (by rw [ht]; rfl), _, rfl⟩)
  | @clearWaited t b tpos code ht =>
      exact hmove (.inr ⟨hs.eq_of_clearing (t := t) (by rw [ht]; rfl), _, rfl⟩)
  | recheck => exact hs.roles
  | fault hfault => exact absurd hfault (hs.inv.linked.not_faulty hs.inv.owned _)
  | _ => exact hmove (.inl trivial)

/-- Where clear goes after it has taken the head off the list. -/
theorem Closing.walk_erase {c : Tid} {s : State} (hs : Closing c s) {b : BufId}
    {tpos : Option BufId} (hrole : (s.thread c).role = .clearing (some (some b, tpos))) :
    tpos = (s.list.erase b).head? ∧
      tpos.bind (after (s.list.erase b)) = (s.list.erase b).tail.head? ∧
      (s.list.erase b).length + 1 = s.list.length := by
  obtain ⟨hpos, htpos⟩ := hs.head.1 _ _ hrole
  cases hl : s.list with
  | nil => rw [hl] at hpos; cases hpos
  | cons a l =>
      rw [hl] at hpos htpos
      obtain rfl : b = a := Option.some.inj hpos
      have herase : (b :: l).erase b = l := List.erase_cons_head ..
      rw [herase, htpos, List.tail_cons]
      exact ⟨rfl, after_head? l, rfl⟩

theorem Step.walkAtHead {c : Tid} {s s' : State} {a : Act} {out : List Event} (h : Step s a s' out)
    (hs : Closing c s) (hact : ShuttingDown c s a) : WalkAtHead c s' := by
  have hwalk := hs.head
  by_cases ha : a.tid = some c
  swap
  · obtain ⟨hlist, hcalled, hthread⟩ := hs.frame h hact ha
    exact hwalk.move hlist hcalled (.inl (by rw [hthread]))
  have hself : ∀ pc, (Function.update s.thread c pc c) = pc := fun pc => Function.update_self ..
  -- a thread that is at a point outside of clear and goes to another one
  have hstay : ∀ {pc pc' : Pc}, s.thread c = pc → (∀ walk, pc.role ≠ .clearing walk) →
      pc'.role.Detached →
      (Function.update s.thread c pc' c).role = (s.thread c).role ∨
        (∀ walk, (s.thread c).role ≠ .clearing walk) ∧
          (Function.update s.thread c pc' c).role.Detached := by
    intro pc pc' hpc hout hdet
    refine .inr ⟨by rw [hpc]; exact hout, ?_⟩
    rw [hself]
    exact hdet
  cases h with
  | create => exact absurd hact id
  | callAppend => exact absurd hact id
  | callGetFree => exact absurd hact id
  | callSetFree ht =>
      cases ha
      exact hwalk.move rfl rfl (hstay ht (by simp [Pc.role]) trivial)
  | callClear ht =>
      cases ha
      have hrole : ((s.goto c .clearLock).thread c).role = .clearing none := by
        simp only [State.goto, hself]
        rfl
      refine ⟨fun pos tpos hw => ?_, fun _ => .inl ⟨none, hrole⟩⟩
      cases hrole.symm.trans hw
  | @lock t pc ht =>
      cases ha
      refine hwalk.move rfl rfl (.inl ?_)
      simp only [State.goto, hself]
      exact Pc.role_behindLock ht
  | append ht => exact absurd (by rw [ht]; rfl) (hs.not_appending _ _)
  | refuse ht => exact absurd (by rw [ht]; rfl) (hs.not_gettingFree _)
  | refuseLocked ht => exact absurd (by rw [ht]; rfl) (hs.not_gettingFree _)
  | @handOut t b state ht =>
      refine absurd ?_ (hs.not_gettingFree t)
      rcases ht with ht | ht <;> rw [ht] <;> rfl
  | @beginWait t b state ht =>
      refine absurd ?_ (hs.not_gettingFree t)
      rcases ht with ht | ht <;> rw [ht] <;> rfl
  | giveUp ht => exact absurd (by rw [ht]; rfl) (hs.not_gettingFree _)
  | woken ht => exact absurd (by rw [ht]; rfl) (hs.not_gettingFree _)
  | setFree ht =>
      cases ha
      exact hwalk.move rfl rfl (hstay ht (by simp [Pc.role]) trivial)
  | wake ht =>
      cases ha
      exact hwalk.move rfl rfl (hstay ht (by simp [Pc.role]) trivial)
  | clear ht =>
      cases ha
      exact .loopAt rfl (hself _) rfl (after_head? s.list)
  | @cleared t tpos code ht =>
      cases ha
      have hnil : s.list = [] := by
        have hhead := (hs.head.1 none tpos (by rw [ht]; rfl)).1
        exact List.head?_eq_none_iff.mp hhead.symm
      refine ⟨fun pos tpos' hw => ?_, fun _ => .inr hnil⟩
      simp only [State.unlock, State.goto, hself] at hw
      cases hw
  | @destroy t b tpos code state ht =>
      cases ha
      obtain ⟨hpos, htpos, -⟩ := hs.walk_erase (b := b) (by rw [ht]; rfl)
      exact .loopAt rfl (hself _) hpos htpos
  | @leak t b tpos code state ht =>
      cases ha
      obtain ⟨hpos, htpos, -⟩ := hs.walk_erase (b := b) (by rw [ht]; rfl)
      exact .loopAt rfl (hself _) hpos htpos
  | clearBusy ht =>
      cases ha
      refine hwalk.move rfl rfl (.inl ?_)
      simp only [State.unlock, State.goto, hself, ht]
      rfl
  | clearWaited ht =>
      cases ha
      refine hwalk.move rfl rfl (.inl ?_)
      simp only [State.goto, hself, ht]
      rfl
  | recheck => exact hwalk
  | fault hfault => exact absurd hfault (hs.inv.linked.not_faulty hs.inv.owned _)

theorem Step.closing {c : Tid} {s s' : State} {a : Act} {out : List Event} (h : Step s a s' out)
    (hs : Closing c s) (hact : ShuttingDown c s a) : Closing c s' := by
  have hopen : WaiterFindsOpen s a := by
    cases a with
    | run t => exact fun ht => absurd (by rw [ht]; rfl) (hs.not_gettingFree t)
    | create | call | wait | recheck => trivial
  exact ⟨h.inv hs.inv hact.disciplined, h.guards hs.guards hopen, h.closing_roles hs hact,
    h.walkAtHead hs hact⟩

/-! ## The steps that are left -/

def Pc.isClearing : Pc → Bool
  | .clearLock | .clear | .clearLoop .. | .clearWait .. | .clearRelock .. => true
  | _ => false

theorem Pc.isClearing_of_role {pc : Pc} {walk : Option (Option BufId × Option BufId)}
    (h : pc.role = .clearing walk) : pc.isClearing = true := by
  cases pc <;> first | rfl | cases h

theorem Pc.not_isClearing_of_detached {pc : Pc} (h : pc.role.Detached) :
    pc.isClearing = false := by
  cases pc <;> first | rfl | exact absurd h id

/-- The turns of the loop and the return after them: a buffer that is available
takes one step, one that is not takes four. -/
def State.loopCost (s : State) : Option BufId → Nat
  | none => 1
  | some b => if s.isAvailable b then 4 * s.list.length - 2 else 4 * s.list.length + 1

/-- How many steps thread `c` can still take for its clear if its waits succeed. -/
def State.clearCost (c : Tid) (s : State) : Nat :=
  match s.thread c with
  | .clearLock => 4 * s.list.length + 3
  | .clear => 4 * s.list.length + 2
  | .clearLoop pos _ _ => s.loopCost pos
  | .clearWait .. => 4 * s.list.length
  | .clearRelock .. => 4 * s.list.length - 1
  | _ => if s.clearCalled then 0 else 4 * s.list.length + 4

/-- A step of the clear of thread `c`. -/
def clearStep (c : Tid) (x : Transition State Act (List Event)) : Bool :=
  match x.act with
  | .call t .clear => t = c
  | .run t | .wait t _ => t = c && (x.pre.thread c).isClearing
  | _ => false

theorem State.loopCost_le (s : State) (pos : Option BufId) :
    s.loopCost pos ≤ 4 * s.list.length + 1 := by
  unfold State.loopCost
  split
  · omega
  · split <;> omega

theorem clearCost_outside {c : Tid} {s : State} (h : (s.thread c).isClearing = false) :
    s.clearCost c = if s.clearCalled then 0 else 4 * s.list.length + 4 := by
  unfold State.clearCost
  split <;> simp_all [Pc.isClearing]

theorem clearStep_of_ne {c : Tid} {x : Transition State Act (List Event)}
    (h : x.act.tid ≠ some c) : clearStep c x = false := by
  unfold clearStep
  split <;> simp_all [Act.tid]

/-- No wait of clear has timed out, and what clear has waited for is there. -/
structure Prompt (c : Tid) (s : State) : Prop where
  noTimeout : NoTimeout s
  woken : ∀ b tpos code, s.thread c = .clearRelock b tpos code → s.Available b

theorem Step.prompt {c : Tid} {s s' : State} {a : Act} {out : List Event} (h : Step s a s' out)
    (hs : Closing c s) (hp : Prompt c s) (hwait : WaitSucceeds s a) : Prompt c s' := by
  refine ⟨h.noTimeout hp.noTimeout hwait, fun b tpos code hc => ?_⟩
  rcases h.clearRelock hc with hold | ⟨rfl, hold, hreturns, hcell⟩
  · have hrole : (s.thread c).role = .clearing (some (some b, tpos)) := by rw [hold]; rfl
    have hflag := (hs.inv.linked.walk c _ _ hrole).1
    rcases h.still_available (hp.woken b tpos code hold) hflag with havail | hout
    · exact havail
    · cases h with
      | @destroy u b' tpos' code' state hu =>
          have huc := hs.eq_of_clearing (t := u) (by rw [hu]; rfl)
          subst huc
          rw [hu] at hold
          cases hold
      | _ => simp at hout
  · have hrole : (s.thread c).role = .clearing (some (some b, tpos)) := by rw [hold]; rfl
    have hpos := hwait.pos hold
    obtain ⟨state, hlive⟩ := hs.inv.linked.live b ((hs.inv.linked.walk c _ _ hrole).2.1 b rfl)
    refine ⟨state, by rw [hcell]; exact hlive, ?_⟩
    simp only [State.waitReturns, hlive] at hreturns
    split at hreturns
    · assumption
    · have hle := of_decide_eq_true hreturns
      omega

/-- The other threads do not make clear take longer. -/
theorem Step.clearCost_other {c : Tid} {s s' : State} {a : Act} {out : List Event}
    (h : Step s a s' out) (hs : Closing c s) (hact : ShuttingDown c s a) (ha : a.tid ≠ some c) :
    s'.clearCost c ≤ s.clearCost c := by
  obtain ⟨hlist, hcalled, hthread⟩ := hs.frame h hact ha
  have hloop : ∀ pos tpos code, s.thread c = .clearLoop pos tpos code →
      s'.loopCost pos ≤ s.loopCost pos := by
    intro pos tpos code hc
    have hrole : (s.thread c).role = .clearing (some (pos, tpos)) := by rw [hc]; rfl
    cases pos with
    | none => exact Nat.le_refl _
    | some b =>
        simp only [State.loopCost, hlist]
        by_cases havail : s.isAvailable b = true
        · -- nobody takes the buffer away again
          have hflag := (hs.inv.linked.walk c _ _ hrole).1
          have hafter : s'.isAvailable b = true := by
            rw [State.isAvailable_iff] at havail ⊢
            rcases h.still_available havail hflag with hafter | hout
            · exact hafter
            · cases h with
              | @destroy u b' tpos' code' state hu =>
                  have huc := hs.eq_of_clearing (t := u) (by rw [hu]; rfl)
                  exact absurd (congrArg some huc) ha
              | _ => simp at hout
          rw [if_pos havail, if_pos hafter]
        · rw [if_neg havail]
          split <;> omega
  simp only [State.clearCost, hthread, hlist, hcalled]
  split <;> first | exact Nat.le_refl _ | skip
  rename_i pos tpos code hc
  exact hloop pos tpos code hc

theorem Closing.length_pos {c : Tid} {s : State} (hs : Closing c s) {b : BufId}
    {tpos : Option BufId} (hc : (s.thread c).role = .clearing (some (some b, tpos))) :
    0 < s.list.length :=
  List.length_pos_of_mem ((hs.inv.linked.walk c _ _ hc).2.1 b rfl)

/-- A step of thread `c` in another of its calls. -/
theorem clearCost_aside {c : Tid} {s s' : State} (hpc : (s.thread c).isClearing = false)
    (hpc' : (s'.thread c).isClearing = false) (hlist : s'.list = s.list)
    (hcalled : s'.clearCalled = s.clearCalled) : s'.clearCost c = s.clearCost c := by
  rw [clearCost_outside hpc', clearCost_outside hpc, hlist, hcalled]

/-- The step that calls clear. -/
theorem clearCost_called {c : Tid} {s : State} (hc : s.thread c = .idle)
    (hcalled : s.clearCalled = false) :
    State.clearCost c { s.goto c .clearLock with clearCalled := true } < s.clearCost c := by
  rw [clearCost_outside (s := s) (by rw [hc]; rfl), if_neg (by simp [hcalled])]
  simp only [State.clearCost, State.goto, Function.update_self]
  omega

/-- The step that takes the lock for the first time. -/
theorem clearCost_locked {c : Tid} {s : State} (hc : s.thread c = .clearLock) :
    State.clearCost c { s.goto c .clear with lock := some c } < s.clearCost c := by
  simp only [State.clearCost, State.goto, Function.update_self, hc]
  omega

/-- The step that raises the flag and goes to the first buffer. -/
theorem clearCost_begun {c : Tid} {s : State} (hc : s.thread c = .clear) :
    State.clearCost c { s.goto c (State.loopAt s.list s.list.head?) with shutDownFlag := 1 } <
      s.clearCost c := by
  have hle := State.loopCost_le { s.goto c (State.loopAt s.list s.list.head?) with
    shutDownFlag := 1 } s.list.head?
  simp only [State.clearCost, State.goto, Function.update_self, hc, State.loopAt] at hle ⊢
  omega

/-- The step that drops the lock to wait for a buffer that is still out. -/
theorem clearCost_waits {c : Tid} {s : State} {b : BufId} {tpos : Option BufId} {code : Int}
    (hc : s.thread c = .clearLoop (some b) tpos code) (hbusy : ¬ s.isAvailable b = true) :
    (s.unlock c (.clearWait b tpos)).clearCost c < s.clearCost c := by
  simp only [State.clearCost, State.unlock, State.goto, Function.update_self, hc, State.loopCost]
  rw [if_neg hbusy]
  omega

/-- The step that ends the wait. -/
theorem Closing.clearCost_waited {c : Tid} {s : State} (hs : Closing c s) {b : BufId}
    {tpos : Option BufId} (code : Int) (hc : s.thread c = .clearWait b tpos) :
    (s.goto c (.clearRelock b tpos code)).clearCost c < s.clearCost c := by
  have hpos := hs.length_pos (congrArg Pc.role hc)
  simp only [State.clearCost, State.goto, Function.update_self, hc]
  omega

/-- The step that retakes the lock after a wait. The buffer that clear has waited for is
there, so the next turn of the loop takes one step. -/
theorem Closing.clearCost_relocked {c : Tid} {s : State} (hs : Closing c s) (hp : Prompt c s)
    {b : BufId} {tpos : Option BufId} {code : Int} (hc : s.thread c = .clearRelock b tpos code) :
    State.clearCost c { s.goto c (.clearLoop (some b) tpos code) with lock := some c } <
      s.clearCost c := by
  have hpos := hs.length_pos (congrArg Pc.role hc)
  have hcost : State.loopCost { s.goto c (.clearLoop (some b) tpos code) with
      lock := some c } (some b) = 4 * s.list.length - 2 :=
    if_pos (State.isAvailable_iff.mpr (hp.woken b tpos code hc))
  simp only [State.clearCost, State.goto, Function.update_self, hc] at hcost ⊢
  omega

/-- The step that destroys a buffer and goes to the next. -/
theorem Closing.clearCost_destroyed {c : Tid} {s : State} (hs : Closing c s) {b : BufId}
    {tpos : Option BufId} {code : Int} (hc : s.thread c = .clearLoop (some b) tpos code)
    (havail : s.isAvailable b = true) :
    State.clearCost c { s.goto c (State.loopAt (s.list.erase b) tpos) with
      list := s.list.erase b, cell := Function.update s.cell b .destroyed } < s.clearCost c := by
  obtain ⟨-, -, hlen⟩ := hs.walk_erase (b := b) (by rw [hc]; rfl)
  have hle := State.loopCost_le { s.goto c (State.loopAt (s.list.erase b) tpos) with
    list := s.list.erase b, cell := Function.update s.cell b .destroyed } tpos
  have hcost : s.loopCost (some b) = 4 * s.list.length - 2 := by
    rw [State.loopCost, if_pos havail]
  simp only [State.clearCost, State.goto, Function.update_self, hc, State.loopAt] at hle ⊢
  omega

/-- The step that returns. -/
theorem Closing.clearCost_cleared {c : Tid} {s : State} (hs : Closing c s) {tpos : Option BufId}
    {code : Int} (hc : s.thread c = .clearLoop none tpos code) :
    (s.unlock c .idle).clearCost c < s.clearCost c := by
  have hcalled := hs.inv.linked.clearing c _ (by rw [hc]; rfl)
  simp [State.clearCost, State.unlock, State.goto, hc, hcalled, State.loopCost]

/-- A `spin_lock` of thread `c`, by clear or by a set_free. -/
theorem Closing.clearCost_lock {c : Tid} {s : State} (hs : Closing c s) (hp : Prompt c s) {pc : Pc}
    (hpc : (s.thread c).behindLock = some pc) :
    State.clearCost c { s.goto c pc with lock := some c } < s.clearCost c ∨
      State.clearCost c { s.goto c pc with lock := some c } = s.clearCost c ∧
        (s.thread c).isClearing = false := by
  have hself : Function.update s.thread c pc c = pc := Function.update_self ..
  cases hc : s.thread c <;> rw [hc] at hpc <;> cases hpc
  case appendLock.refl b => exact absurd (by rw [hc]; rfl) (hs.not_appending c b)
  case getFreeLock.refl => exact absurd (by rw [hc]; rfl) (hs.not_gettingFree c)
  case getFreeRelock.refl => exact absurd (by rw [hc]; rfl) (hs.not_gettingFree c)
  case setFreeLock.refl b =>
    refine .inr ⟨clearCost_aside (by rw [hc]; rfl) ?_ rfl rfl, rfl⟩
    simp only [State.goto, hself, Pc.isClearing]
  case clearLock.refl => exact .inl (clearCost_locked hc)
  case clearRelock.refl b tpos code => exact .inl (hs.clearCost_relocked hp hc)

/-- Every step of clear itself brings it nearer to its end. -/
theorem Step.clearCost_own {c : Tid} {s s' : State} {a : Act} {out : List Event}
    (h : Step s a s' out) (hs : Closing c s) (hact : ShuttingDown c s a) (hp : Prompt c s)
    (ha : a.tid = some c) :
    s'.clearCost c < s.clearCost c ∨
      s'.clearCost c = s.clearCost c ∧ clearStep c ⟨s, a, out, s'⟩ = false := by
  have hself : ∀ pc, (Function.update s.thread c pc c) = pc := fun pc => Function.update_self ..
  -- a step of a set_free of the same thread
  have haside : ∀ {pc pc' : Pc}, s.thread c = pc → s'.thread c = pc' → pc.isClearing = false →
      pc'.isClearing = false → s'.list = s.list → s'.clearCalled = s.clearCalled →
      s'.clearCost c = s.clearCost c := fun hpc hpc' hout hout' =>
    clearCost_aside (by rw [hpc]; exact hout) (by rw [hpc']; exact hout')
  cases h with
  | create => exact absurd hact id
  | callAppend => exact absurd hact id
  | callGetFree => exact absurd hact id
  | callSetFree ht => cases ha; exact .inr ⟨haside ht (hself _) rfl rfl rfl rfl, rfl⟩
  | callClear ht => cases ha; exact .inl (clearCost_called ht hact.2)
  | lock hpc =>
      cases ha
      rcases hs.clearCost_lock hp hpc with hlt | ⟨heq, hout⟩
      · exact .inl hlt
      · exact .inr ⟨heq, by simp [clearStep, hout]⟩
  | append ht => exact absurd (by rw [ht]; rfl) (hs.not_appending _ _)
  | refuse ht => exact absurd (by rw [ht]; rfl) (hs.not_gettingFree _)
  | refuseLocked ht => exact absurd (by rw [ht]; rfl) (hs.not_gettingFree _)
  | @handOut t b state ht =>
      refine absurd ?_ (hs.not_gettingFree t)
      rcases ht with ht | ht <;> rw [ht] <;> rfl
  | @beginWait t b state ht =>
      refine absurd ?_ (hs.not_gettingFree t)
      rcases ht with ht | ht <;> rw [ht] <;> rfl
  | giveUp ht => exact absurd (by rw [ht]; rfl) (hs.not_gettingFree _)
  | woken ht => exact absurd (by rw [ht]; rfl) (hs.not_gettingFree _)
  | setFree ht =>
      cases ha
      refine .inr ⟨haside ht (hself _) rfl rfl rfl rfl, ?_⟩
      simp [clearStep, ht, Pc.isClearing]
  | wake ht =>
      cases ha
      refine .inr ⟨haside ht (hself _) rfl rfl rfl rfl, ?_⟩
      simp [clearStep, ht, Pc.isClearing]
  | clear ht => cases ha; exact .inl (clearCost_begun ht)
  | cleared ht => cases ha; exact .inl (hs.clearCost_cleared ht)
  | destroy ht hcell havail =>
      cases ha
      exact .inl (hs.clearCost_destroyed ht (State.isAvailable_iff.mpr ⟨_, hcell, havail⟩))
  | @leak t b tpos code state ht hcell havail hmem hcode =>
      exact absurd ⟨tpos, code, hcode, .inr ht⟩ (hp.noTimeout t b)
  | clearBusy ht hcell havail =>
      cases ha
      exact .inl (clearCost_waits ht (by simp [State.isAvailable, hcell, havail]))
  | clearWaited ht => cases ha; exact .inl (hs.clearCost_waited _ ht)
  | recheck => exact .inr ⟨rfl, rfl⟩
  | fault hfault => exact absurd hfault (hs.inv.linked.not_faulty hs.inv.owned _)

/-- The steps of clear are bounded if its waits succeed. -/
theorem clearSteps_le {c : Tid} {s s' : State} {tr : List (Transition State Act (List Event))}
    (h : bufferLts.Run s tr s') (hs : Closing c s) (hp : Prompt c s)
    (hact : ∀ x ∈ tr, ShuttingDown c x.pre x.act)
    (hwait : ∀ x ∈ tr, WaitSucceeds x.pre x.act) :
    (tr.filter (clearStep c)).length ≤ s.clearCost c := by
  have hall := h.preserves (I := fun s => Closing c s ∧ Prompt c s)
    (P := fun s a => ShuttingDown c s a ∧ WaitSucceeds s a)
    (fun s a s' e ⟨hs, hp⟩ ⟨ha, hw⟩ hstep =>
      ⟨(step_rules hstep).closing hs ha, (step_rules hstep).prompt hs hp hw⟩)
    ⟨hs, hp⟩ (fun x hx => ⟨hact x hx, hwait x hx⟩)
  have hcost : ∀ x ∈ tr, x.post.clearCost c < x.pre.clearCost c ∨
      x.post.clearCost c ≤ x.pre.clearCost c ∧ clearStep c x = false := by
    intro x hx
    have hrule := step_rules (h.step_of_mem hx)
    obtain ⟨⟨hclosing, hprompt⟩, -⟩ := hall.2 x hx
    by_cases ha : x.act.tid = some c
    · rcases hrule.clearCost_own hclosing (hact x hx) hprompt ha with hlt | ⟨heq, hnot⟩
      · exact .inl hlt
      · exact .inr ⟨by rw [heq], hnot⟩
    · exact .inr ⟨hrule.clearCost_other hclosing (hact x hx) ha, clearStep_of_ne ha⟩
  have hle := @Lts.Run.length_filter_le _ _ _ _ (State.clearCost c) (clearStep c) _ _ _ h ?_ ?_
  · omega
  · intro x hx hmine
    rcases hcost x hx with hlt | ⟨-, hnot⟩
    · exact hlt
    · rw [hmine] at hnot
      cases hnot
  · intro x hx
    rcases hcost x hx with hlt | ⟨hle, -⟩
    · exact Nat.le_of_lt hlt
    · exact hle

/-! ## Progress -/

/-- Whoever holds the lock can run on. -/
theorem run_isSome_of_inside {s : State} {t : Tid} (h : (s.thread t).Inside)
    (hfault : s.thread t ≠ .fault) : (s.run t).isSome = true := by
  unfold State.run
  split <;> simp_all [Pc.Inside]
  · split <;> rfl
  · split <;> rfl

/-- Clear can go on, unless another thread holds the lock, and then that one can. -/
theorem Closing.goes_on {c : Tid} {s : State} (hs : Closing c s)
    (hc : (s.thread c).isClearing = true) :
    ∃ u, (u = c ∨ s.lock = some u) ∧
      ((bufferLts.step s (.run u)).isSome = true ∨
        ∃ code, (bufferLts.step s (.wait u code)).isSome = true) := by
  have hrun : ∀ {u : Tid}, (s.thread u).Inside → (bufferLts.step s (.run u)).isSome = true := by
    intro u hin
    apply run_isSome_of_inside hin
    intro hfault
    exact hs.inv.linked.noFault u (by rw [hfault]; rfl)
  -- a thread that is about to take the lock
  have hlock : ∀ pc : Pc, s.run c = s.acquire c pc →
      ∃ u, (u = c ∨ s.lock = some u) ∧
        ((bufferLts.step s (.run u)).isSome = true ∨
          ∃ code, (bufferLts.step s (.wait u code)).isSome = true) := by
    intro pc hacquire
    cases hholder : s.lock with
    | none =>
        refine ⟨c, .inl rfl, .inl ?_⟩
        simp [bufferLts, State.step, hacquire, State.acquire, hholder]
    | some u => exact ⟨u, .inr rfl, .inl (hrun ((hs.guards u).mpr hholder))⟩
  cases hpc : s.thread c with
  | clearLock => exact hlock .clear (by simp [State.run, hpc])
  | clearRelock b tpos code =>
      exact hlock (.clearLoop (some b) tpos code) (by simp [State.run, hpc])
  | clear => exact ⟨c, .inl rfl, .inl (hrun (by rw [hpc]; trivial))⟩
  | clearLoop pos tpos code => exact ⟨c, .inl rfl, .inl (hrun (by rw [hpc]; trivial))⟩
  | clearWait b tpos =>
      have hrole : (s.thread c).role = .clearing (some (some b, tpos)) := by rw [hpc]; rfl
      obtain ⟨state, hcell⟩ := hs.inv.linked.live b ((hs.inv.linked.walk c _ _ hrole).2.1 b rfl)
      refine ⟨c, .inl rfl, .inr ?_⟩
      cases havail : Word.testBit bufferStateAvailable state with
      | true => exact ⟨1, by simp [bufferLts, State.step, State.wait, hpc, State.waitReturns,
          hcell, havail]⟩
      | false => exact ⟨0, by simp [bufferLts, State.step, State.wait, hpc, State.waitReturns,
          hcell, havail]⟩
  | _ => rw [hpc] at hc; cases hc

/-! ## Before the shutdown -/

/-- Until the list is shut down, nobody returns from inside the lock. -/
structure Open (s : State) : Prop where
  guards : s.shutDownFlag = 0 → Threads.Guards s.lock Pc.Inside s.thread
  flag : s.clearCalled = false → s.shutDownFlag = 0

theorem Step.open {s s' : State} {a : Act} {out : List Event} (h : Step s a s' out)
    (hlinked : Linked s) (hs : Open s) : Open s' := by
  refine ⟨fun hflag => ?_, fun hcalled => ?_⟩
  · have hbefore : s.shutDownFlag = 0 := by
      rcases h.shutDownFlag with hsame | ⟨hone, -⟩ <;> omega
    apply h.guards (hs.guards hbefore)
    cases a with
    | run t => exact fun _ => hbefore
    | create | call | wait | recheck => trivial
  · have hfirst : s.clearCalled = false := by
      cases h with
      | callClear => cases hcalled
      | _ => exact hcalled
    rcases h.shutDownFlag with hsame | ⟨-, t, -, ht⟩
    · rw [hsame]
      exact hs.flag hfirst
    · have := hlinked.clearing t none (by rw [ht]; rfl)
      rw [hfirst] at this
      cases this

theorem reachable_open {s : State} (h : bufferLts.Reachable Disciplined s) :
    ListInv s ∧ Open s := by
  refine h.invariant (I := fun s => ListInv s ∧ Open s) (P := Disciplined) ?_ ?_
  · intro s hinit
    refine ⟨.of_init hinit, ?_⟩
    obtain rfl : s = State.initial := hinit
    exact ⟨fun _ t => iff_of_false id (by simp [State.initial]), fun _ => rfl⟩
  · rintro s a s' e ⟨hinv, hopen⟩ hdisc hstep
    exact ⟨(step_rules hstep).inv hinv hdisc, (step_rules hstep).open hinv.linked hopen⟩

/-- The list before it is shut down: disciplined callers have filled it, no append
and no get_free is under way, and clear was not called. -/
structure BeforeShutdown (s : State) : Prop where
  reachable : bufferLts.Reachable Disciplined s
  detached : ∀ t, (s.thread t).role.Detached
  first : s.clearCalled = false

namespace BeforeShutdown

variable {s : State} (h : BeforeShutdown s)

include h

theorem not_clearing (t : Tid) (walk : Option (Option BufId × Option BufId)) :
    (s.thread t).role ≠ .clearing walk := by
  intro hrole
  have hdet := h.detached t
  rw [hrole] at hdet
  exact hdet

theorem closing (c : Tid) : Closing c s := by
  obtain ⟨hinv, hopen⟩ := reachable_open h.reachable
  refine ⟨hinv, hopen.guards (hopen.flag h.first), fun t => .inl (h.detached t), ?_⟩
  refine ⟨fun pos tpos hrole => absurd hrole (h.not_clearing c _), fun hcalled => ?_⟩
  rw [h.first] at hcalled
  cases hcalled

theorem prompt (c : Tid) : Prompt c s := by
  refine ⟨fun t b htimed => ?_, fun b tpos code hc => ?_⟩
  · obtain ⟨tpos, hrole⟩ := htimed.role
    exact h.not_clearing t _ hrole
  · exact absurd (by rw [hc]; rfl) (h.not_clearing c (some (some b, tpos)))

theorem clearCost (c : Tid) : s.clearCost c = 4 * s.list.length + 4 := by
  rw [clearCost_outside (Pc.not_isClearing_of_detached (h.detached c)), if_neg (by simp [h.first])]

end BeforeShutdown

/-! ## Buffers that are never released -/

/-- The buffer is reserved at the start, and no set_free in the run releases it. -/
def NeverReleased (s : State) (tr : List (Transition State Act (List Event))) (b : BufId) : Prop :=
  s.Reserved b ∧ ∀ x ∈ tr, ∀ t, x.act = .run t → x.pre.thread t ≠ .setFree b

/-- A buffer that is never released stays on the list. -/
theorem NeverReleased.stays {s s' : State} {tr : List (Transition State Act (List Event))}
    (h : bufferLts.Run s tr s') {b : BufId} (hb : NeverReleased s tr b) (hmem : b ∈ s.list) :
    b ∈ s'.list := by
  refine (h.preserves (I := fun s => s.Reserved b ∧ b ∈ s.list)
    (P := fun s a => ∀ t, a = .run t → s.thread t ≠ .setFree b) ?_ ⟨hb.1, hmem⟩ hb.2).1.2
  rintro s a s' e ⟨hres, hmem⟩ hkept hstep
  have hrule := step_rules hstep
  refine ⟨hrule.reserved hres hkept, ?_⟩
  by_contra hgone
  exact (hrule.unlinks hmem hgone).1.not_reserved hres

/-! ## Past the stuck buffers -/

/-- Clear was called and has returned. -/
def Over (c : Tid) (s : State) : Prop :=
  s.clearCalled = true ∧ (s.thread c).isClearing = false

/-- Clear waits for the buffer `b`. -/
def State.ClearWaits (s : State) (c : Tid) (b : BufId) : Prop :=
  ∃ tpos, s.thread c = .clearWait b tpos

/-- Clear gets past the buffers that are not given back. The run `tr` starts at
`s₀`, before clear is called, and has led to `s`. -/
structure GetsPast (c : Tid) (s₀ : State) (tr : List (Transition State Act (List Event)))
    (s : State) : Prop where
  /-- A wait for a buffer that ends without success is the last one for it. -/
  waitsOnce : ∀ tr₁ x tr₂, tr = tr₁ ++ x :: tr₂ → ∀ b code, x.act = .wait c code → code ≤ 0 →
    x.pre.ClearWaits c b → ∀ y ∈ tr₂, ¬ y.pre.ClearWaits c b
  steps : (tr.filter (clearStep c)).length ≤ 4 * s₀.list.length + 4
  goesOn : (s.thread c).isClearing = true → ∃ u, (u = c ∨ s.lock = some u) ∧
    ((bufferLts.step s (.run u)).isSome = true ∨
      ∃ code, (bufferLts.step s (.wait u code)).isSome = true)
  done : Over c s → s.list = [] ∧
    ∀ b ∈ s₀.list, s.cell b ≠ .destroyed ↔ NeverReleased s₀ tr b

theorem Closing.over {c : Tid} {s : State} (hs : Closing c s) (hover : Over c s) : s.list = [] := by
  rcases hs.head.2 hover.1 with ⟨walk, hrole⟩ | hnil
  · have hout := hover.2
    rw [Pc.isClearing_of_role hrole] at hout
    cases hout
  · exact hnil

/-- What leaves the list is destroyed if no wait has timed out. -/
theorem Step.linked_or_destroyed {c : Tid} {s s' : State} {a : Act} {out : List Event}
    (h : Step s a s' out) (hp : Prompt c s) {b : BufId}
    (hb : b ∈ s.list ∨ s.cell b = .destroyed) : b ∈ s'.list ∨ s'.cell b = .destroyed := by
  rcases hb with hmem | hdead
  · by_cases hgone : b ∈ s'.list
    · exact .inl hgone
    · obtain ⟨-, hout | ⟨t, tpos, code, -, ht, hcode, -⟩⟩ := h.unlinks hmem hgone
      · exact .inr (h.destroyed hout).2.1
      · exact absurd ⟨tpos, code, hcode, .inr ht⟩ (hp.noTimeout t b)
  · exact .inr (h.stays_destroyed hdead)

theorem getsPast_of_waitSucceeds {c : Tid} {s₀ s : State}
    {tr : List (Transition State Act (List Event))} (h : bufferLts.Run s₀ tr s)
    (hstart : BeforeShutdown s₀) (hact : ∀ x ∈ tr, ShuttingDown c x.pre x.act)
    (hwait : ∀ x ∈ tr, WaitSucceeds x.pre x.act) : GetsPast c s₀ tr s := by
  have hend := (h.preserves (I := fun s => Closing c s ∧ Prompt c s ∧
      ∀ b ∈ s₀.list, b ∈ s.list ∨ s.cell b = .destroyed)
    (P := fun s a => ShuttingDown c s a ∧ WaitSucceeds s a) ?_
    ⟨hstart.closing c, hstart.prompt c, fun b hb => .inl hb⟩
    (fun x hx => ⟨hact x hx, hwait x hx⟩)).1
  · obtain ⟨hclosing, -, hbuffers⟩ := hend
    refine ⟨?_, ?_, hclosing.goes_on, fun hover => ?_⟩
    · rintro tr₁ x tr₂ rfl b code ha hcode ⟨tpos, ht⟩
      have hsuccess := hwait x (by simp)
      rw [ha] at hsuccess
      have := hsuccess.pos ht
      omega
    · rw [← hstart.clearCost c]
      exact clearSteps_le h (hstart.closing c) (hstart.prompt c) hact hwait
    · have hnil := hclosing.over hover
      refine ⟨hnil, fun b hb => iff_of_false (fun hne => ?_) (fun hnever => ?_)⟩
      · rcases hbuffers b hb with hmem | hdead
        · rw [hnil] at hmem
          cases hmem
        · exact hne hdead
      · have hmem := hnever.stays h hb
        rw [hnil] at hmem
        cases hmem
  · rintro s a s' e ⟨hs, hp, hbuffers⟩ ⟨ha, hw⟩ hstep
    have hrule := step_rules hstep
    exact ⟨hrule.closing hs ha, hrule.prompt hs hp hw,
      fun b hb => hrule.linked_or_destroyed hp (hbuffers b hb)⟩

/-- After a wait that timed out clear waits again, or it takes the buffer off the
list and leaves it allocated. -/
theorem Closing.after_timeout {c : Tid} {s s' : State} {a : Act} {out : List Event}
    (hs : Closing c s) (h : bufferLts.step s a = some (s', out)) {b : BufId}
    (htimed : s.TimedOutAt c b) :
    s'.TimedOutAt c b ∨ s'.ClearWaits c b ∨ b ∉ s'.list ∧ s'.Live b := by
  have hself : ∀ pc, (Function.update s.thread c pc c) = pc := fun pc => Function.update_self ..
  by_cases ha : a.tid = some c
  swap
  · left
    unfold State.TimedOutAt at htimed ⊢
    rwa [(step_rules h).thread_of_ne ha]
  obtain ⟨tpos, code, hcode, hpc⟩ := htimed
  cases a with
  | create => cases ha
  | call => cases ha; rcases hpc with hpc | hpc <;> simp [bufferLts, State.step, State.call, hpc] at h
  | wait => cases ha; rcases hpc with hpc | hpc <;> simp [bufferLts, State.step, State.wait, hpc] at h
  | recheck =>
      cases ha
      rcases hpc with hpc | hpc <;> simp [bufferLts, State.step, State.recheck, hpc] at h
  | run =>
      cases ha
      rcases hpc with hpc | hpc
      · simp only [bufferLts, State.step, State.run, hpc, State.acquire] at h
        split at h
        · cases h
          exact .inl ⟨tpos, code, hcode, .inr (hself _)⟩
        · cases h
      · have hrole : (s.thread c).role = .clearing (some (some b, tpos)) := by rw [hpc]; rfl
        have hmem := (hs.inv.linked.walk c _ _ hrole).2.1 b rfl
        obtain ⟨state, hcell⟩ := hs.inv.linked.live b hmem
        have hnot : ¬ 0 < code := by omega
        simp only [bufferLts, State.step, State.run, hpc, State.clearBody, hcell, hmem, hnot,
          if_true, if_false] at h
        split at h
        · cases h
          exact .inr (.inr ⟨hs.inv.linked.nodup.not_mem_erase, state, hcell⟩)
        · cases h
          exact .inr (.inl ⟨tpos, hself _⟩)

/-- What clear has left allocated off the list, it does not destroy any more. -/
theorem Closing.stays_leaked {c : Tid} {s s' : State} {a : Act} {out : List Event}
    (hs : Closing c s) (h : Step s a s' out) {b : BufId} (hb : b ∉ s.list ∧ s.Live b) :
    b ∉ s'.list ∧ s'.Live b := by
  refine ⟨?_, h.live hb.2 fun hout => ?_⟩
  · cases h with
    | append ht => exact absurd (by rw [ht]; rfl) (hs.not_appending _ _)
    | destroy => exact fun hmem => hb.1 (List.mem_of_mem_erase hmem)
    | leak => exact fun hmem => hb.1 (List.mem_of_mem_erase hmem)
    | _ => exact hb.1
  · cases h with
    | destroy _ _ _ hmem =>
        obtain rfl := by simpa using hout
        exact hb.1 hmem
    | _ => simp at hout

/-- If clear comes to its end after a wait that timed out, it has waited for the
same buffer again or leaked it. -/
theorem waits_or_leaks {c : Tid} {s s' : State} {tr : List (Transition State Act (List Event))}
    (h : bufferLts.Run s tr s') (hs : Closing c s) (hact : ∀ x ∈ tr, ShuttingDown c x.pre x.act)
    (hover : Over c s') {b : BufId} (htimed : s.TimedOutAt c b) :
    (∃ y ∈ tr, y.pre.ClearWaits c b) ∨ s'.Live b := by
  induction h with
  | nil =>
      obtain ⟨tpos, hrole⟩ := htimed.role
      have hout := hover.2
      rw [Pc.isClearing_of_role hrole] at hout
      cases hout
  | @cons s₁ s₂ s₃ a e tr hstep hrest ih =>
      have hrule := step_rules hstep
      have hs' := hrule.closing hs (hact _ (List.mem_cons_self ..))
      have hact' : ∀ x ∈ tr, ShuttingDown c x.pre x.act :=
        fun x hx => hact x (List.mem_cons_of_mem _ hx)
      rcases hs.after_timeout hstep htimed with htimed' | ⟨tpos, hwaits⟩ | hleaked
      · rcases ih hs' hact' hover htimed' with ⟨y, hy, hwaits⟩ | hlive
        · exact .inl ⟨y, List.mem_cons_of_mem _ hy, hwaits⟩
        · exact .inr hlive
      · -- the run goes on, since clear is not over while it waits
        cases hrest with
        | nil =>
            have hout := hover.2
            rw [hwaits] at hout
            cases hout
        | cons => exact .inl ⟨_, List.mem_cons_of_mem _ (List.mem_cons_self ..), tpos, hwaits⟩
      · have hend := (hrest.preserves (I := fun s => Closing c s ∧ b ∉ s.list ∧ s.Live b)
          (P := ShuttingDown c) ?_ ⟨hs', hleaked⟩ hact').1
        · exact .inr hend.2.2
        · rintro s a s' e ⟨hs, hb⟩ ha hstep
          exact ⟨(step_rules hstep).closing hs ha, hs.stays_leaked (step_rules hstep) hb⟩

/-- A buffer that is on the list during the shutdown was there before it. -/
theorem Closing.list_subset {c : Tid} {s s' : State} {a : Act} {out : List Event}
    (hs : Closing c s) (h : Step s a s' out) : ∀ b ∈ s'.list, b ∈ s.list := by
  cases h with
  | append ht => exact absurd (by rw [ht]; rfl) (hs.not_appending _ _)
  | destroy => exact fun b hb => List.mem_of_mem_erase hb
  | leak => exact fun b hb => List.mem_of_mem_erase hb
  | _ => exact fun b hb => hb

theorem timeout_of_not_waitSucceeds {s : State} {a : Act} (h : ¬ WaitSucceeds s a) :
    ∃ t code b tpos, a = .wait t code ∧ code ≤ 0 ∧ s.thread t = .clearWait b tpos := by
  cases a with
  | wait t code =>
      cases ht : s.thread t with
      | clearWait b tpos =>
          simp only [WaitSucceeds, ht] at h
          exact ⟨t, code, b, tpos, rfl, by omega, ht⟩
      | _ => simp [WaitSucceeds, ht] at h
  | create | call | run | recheck => exact absurd trivial h

theorem waitSucceeds_of_getsPast {c : Tid} {s₀ s : State}
    {tr : List (Transition State Act (List Event))} (h : bufferLts.Run s₀ tr s)
    (hstart : BeforeShutdown s₀) (hact : ∀ x ∈ tr, ShuttingDown c x.pre x.act) (hover : Over c s)
    (hpast : GetsPast c s₀ tr s) : ∀ x ∈ tr, WaitSucceeds x.pre x.act := by
  intro x hx
  by_contra hfail
  obtain ⟨t, code, b, tpos, ha, hcode, ht⟩ := timeout_of_not_waitSucceeds hfail
  obtain ⟨tr₁, tr₂, rfl⟩ := List.append_of_mem hx
  obtain ⟨s₁, hfirst, hrest⟩ := h.of_append
  obtain ⟨hpre, hstep, hsecond⟩ := hrest.of_cons
  have hbefore := (hfirst.preserves
    (I := fun s => Closing c s ∧ ∀ b ∈ s.list, b ∈ s₀.list) (P := ShuttingDown c)
    (fun s a s' e ⟨hs, hsub⟩ ha hstep => ⟨(step_rules hstep).closing hs ha,
      fun b hb => hsub b (hs.list_subset (step_rules hstep) b hb)⟩)
    ⟨hstart.closing c, fun _ hb => hb⟩ (fun y hy => hact y (by simp [hy]))).1
  obtain ⟨hclosing, hsub⟩ := hbefore
  rw [hpre] at ht
  have hrole : (s₁.thread t).role = .clearing (some (some b, tpos)) := by rw [ht]; rfl
  obtain rfl : t = c := hclosing.eq_of_clearing hrole
  have hmem : b ∈ s₀.list := hsub b ((hclosing.inv.linked.walk t _ _ hrole).2.1 b rfl)
  have htimed : x.post.TimedOutAt t b := by
    rw [ha] at hstep
    simp only [bufferLts, State.step, State.wait, ht] at hstep
    split at hstep
    · obtain ⟨hpost, -⟩ := Prod.mk.inj (Option.some.inj hstep)
      rw [← hpost]
      exact ⟨tpos, code, hcode, .inl (Function.update_self ..)⟩
    · cases hstep
  have hclosing' := (step_rules hstep).closing hclosing (hpre ▸ hact x hx)
  rcases waits_or_leaks hsecond hclosing' (fun y hy => hact y (by simp [hy])) hover htimed with
    ⟨y, hy, hwaits⟩ | hlive
  · exact hpast.waitsOnce tr₁ x tr₂ rfl b code ha hcode ⟨tpos, by rw [hpre]; exact ht⟩ y hy hwaits
  · obtain ⟨hnil, hexact⟩ := hpast.done hover
    have hleft := ((hexact b hmem).mp hlive.ne_destroyed).stays h hmem
    rw [hnil] at hleft
    cases hleft

/-- In every run of one clear among set_free calls in which the waits of clear
succeed, clear gets past all buffers. A run in which clear has come to its end is
like that only if its waits have succeeded. And clear does not come to its end if
a buffer on the list is never released. -/
theorem clear_getsPast {c : Tid} {s₀ s : State} {tr : List (Transition State Act (List Event))}
    (h : bufferLts.Run s₀ tr s) (hstart : BeforeShutdown s₀)
    (hact : ∀ x ∈ tr, ShuttingDown c x.pre x.act) :
    ((∀ x ∈ tr, WaitSucceeds x.pre x.act) → GetsPast c s₀ tr s) ∧
    (Over c s → (GetsPast c s₀ tr s ↔ ∀ x ∈ tr, WaitSucceeds x.pre x.act)) ∧
    ((∃ b ∈ s₀.list, NeverReleased s₀ tr b) → ¬ Over c s) := by
  refine ⟨getsPast_of_waitSucceeds h hstart hact, fun hover => ⟨?_, ?_⟩, ?_⟩
  · exact waitSucceeds_of_getsPast h hstart hact hover
  · exact getsPast_of_waitSucceeds h hstart hact
  · rintro ⟨b, hb, hnever⟩ hover
    have hend := (h.preserves (I := Closing c) (P := ShuttingDown c)
      (fun s a s' e hs ha hstep => (step_rules hstep).closing hs ha) (hstart.closing c) hact).1
    have hleft := hnever.stays h hb
    rw [hend.over hover] at hleft
    cases hleft

/-- Thread 0 appends a buffer and gets it. -/
def handOutFirst : List Act :=
  [.create 0, .call 0 (.append 0), .run 0, .run 0, .call 0 .getFree, .run 0, .run 0]

/-- A run that is executed after the first buffer was handed out. -/
theorem run_of_handOutFirst {β : Type} {l : List Act}
    {g : List (Transition State Act (List Event)) × State → β} {v : β}
    (h : ((bufferLts.exec State.initial handOutFirst).bind fun r =>
      (bufferLts.exec r.2 l).map g) = some v) :
    ∃ s₀ tr s, BeforeShutdown s₀ ∧ s₀.list = [0] ∧ s₀.Reserved 0 ∧ bufferLts.Run s₀ tr s ∧
      tr.map (·.act) = l ∧ g (tr, s) = v := by
  obtain ⟨⟨tr₀, s₀⟩, hfirst, hexec⟩ := Option.bind_eq_some_iff.mp h
  obtain ⟨hfill, hacts⟩ := Lts.Run.of_exec hfirst
  have hend : (bufferLts.exec State.initial handOutFirst).map (fun r =>
      (r.1.all fun x => decide (Disciplined x.pre x.act), r.2.thread 0, r.2.clearCalled, r.2.list,
        r.2.cell 0)) = some (true, .idle, false, [0], .live (reservedState createdState)) := by
    decide +kernel
  rw [hfirst] at hend
  simp only [Option.map_some, Option.some.injEq, Prod.mk.injEq] at hend
  obtain ⟨hdisc, hidle, hfirst, hlist, hcell⟩ := hend
  obtain ⟨tr, s, hrun, hacts', hv⟩ := Lts.Run.of_exec_map hexec
  refine ⟨s₀, tr, s, ⟨⟨_, tr₀, rfl, hfill, by simpa using hdisc⟩, fun t => ?_, hfirst⟩, hlist,
    ⟨_, hcell, available_reservedState _⟩, hrun, hacts', hv⟩
  by_cases ht : t = 0
  · rw [ht, hidle]
    trivial
  · -- no other thread has done anything
    have hsame := (hfill.preserves (I := fun s => s.thread t = .idle) (P := fun _ a => a.tid ≠ some t)
      (fun s a s' e hs ha hstep => ((step_rules hstep).thread_of_ne ha).trans hs) rfl ?_).1
    · rw [hsame]
      trivial
    · intro x hx
      have hmem : x.act ∈ tr₀.map (·.act) := List.mem_map_of_mem hx
      rw [hacts, handOutFirst] at hmem
      have ht' : 0 ≠ t := fun heq => ht heq.symm
      simp only [List.mem_cons, List.not_mem_nil, or_false] at hmem
      rcases hmem with heq | heq | heq | heq | heq | heq | heq <;> simp [heq, Act.tid, ht']

/-- The holder of the only buffer gives it back while clear waits for it. -/
theorem clear_getsPast_inTime : ∃ s₀ tr s, BeforeShutdown s₀ ∧ bufferLts.Run s₀ tr s ∧
    tr.map (·.act) = [.call 1 .clear, .run 1, .run 1, .run 1, .call 0 (.setFree 0), .run 0, .run 0,
      .wait 1 5, .run 1, .run 1, .run 1] ∧
    (∀ x ∈ tr, ShuttingDown 1 x.pre x.act) ∧ s₀.list = [0] ∧ Over 1 s ∧ GetsPast 1 s₀ tr s := by
  obtain ⟨s₀, tr, s, hstart, hlist, -, hrun, hacts, hend⟩ := run_of_handOutFirst
    (g := fun r => (r.1.all fun x => decide (ShuttingDown 1 x.pre x.act),
      r.1.all fun x => decide (WaitSucceeds x.pre x.act), r.2.clearCalled,
      (r.2.thread 1).isClearing)) (v := (true, true, true, false))
    (l := [.call 1 .clear, .run 1, .run 1, .run 1, .call 0 (.setFree 0), .run 0, .run 0,
      .wait 1 5, .run 1, .run 1, .run 1]) (by decide +kernel)
  simp only [Prod.mk.injEq] at hend
  obtain ⟨hact, hwait, hover⟩ := hend
  have hact' : ∀ x ∈ tr, ShuttingDown 1 x.pre x.act := by simpa using hact
  exact ⟨s₀, tr, s, hstart, hrun, hacts, hact', hlist, hover,
    (clear_getsPast hrun hstart hact').1 (by simpa using hwait)⟩

/-- The holder of the only buffer does not give it back. The wait of clear times
out, and clear waits for the buffer again. -/
theorem clear_waits_again : ∃ s₀ tr s, BeforeShutdown s₀ ∧ bufferLts.Run s₀ tr s ∧
    tr.map (·.act) = [.call 1 .clear, .run 1, .run 1, .run 1, .wait 1 0, .run 1, .run 1,
      .wait 1 0, .run 1, .run 1] ∧
    (∀ x ∈ tr, ShuttingDown 1 x.pre x.act) ∧ s₀.list = [0] ∧ NeverReleased s₀ tr 0 ∧
    s.list = [0] ∧ s.thread 1 = .clearWait 0 none ∧ ¬ GetsPast 1 s₀ tr s := by
  obtain ⟨s₀, tr, s, hstart, hlist, hres, hrun, hacts, hend⟩ := run_of_handOutFirst
    (g := fun r => (r.1.all fun x => decide (ShuttingDown 1 x.pre x.act),
      r.1.all fun x => decide (x.act.tid = some 1 ∧ x.pre.thread 1 ≠ .setFree 0),
      decide (r.2.list = [0] ∧ r.2.thread 1 = .clearWait 0 none),
      r.1.map fun x => (x.act, x.pre.thread 1)))
    (v := (true, true, true,
      [(.call 1 .clear, .idle), (.run 1, .clearLock), (.run 1, .clear),
        (.run 1, .clearLoop (some 0) none 1)] ++ (.wait 1 0, .clearWait 0 none) ::
      [(.run 1, .clearRelock 0 none 0), (.run 1, .clearLoop (some 0) none 0),
        (.wait 1 0, .clearWait 0 none), (.run 1, .clearRelock 0 none 0),
        (.run 1, .clearLoop (some 0) none 0)]))
    (l := [.call 1 .clear, .run 1, .run 1, .run 1, .wait 1 0, .run 1, .run 1, .wait 1 0, .run 1,
      .run 1]) (by decide +kernel)
  simp only [Prod.mk.injEq] at hend
  obtain ⟨hact, hkept, hstate, htrace⟩ := hend
  obtain ⟨hlist', hthread⟩ := of_decide_eq_true hstate
  refine ⟨s₀, tr, s, hstart, hrun, hacts, by simpa using hact, hlist, ⟨hres, ?_⟩, hlist', hthread, ?_⟩
  · intro x hx t ha ht
    obtain ⟨htid, hnot⟩ : x.act.tid = some 1 ∧ x.pre.thread 1 ≠ .setFree 0 := by
      simpa using List.all_eq_true.mp hkept x hx
    rw [ha] at htid
    cases htid
    exact hnot ht
  · intro hpast
    obtain ⟨tr₁, rest, rfl, -, hrest⟩ := List.map_eq_append_iff.mp htrace
    obtain ⟨x, tr₂, rfl, hx, hafter⟩ := List.map_eq_cons_iff.mp hrest
    obtain ⟨ha, hpre⟩ := Prod.mk.inj hx
    have hagain : (Act.wait 1 0, Pc.clearWait 0 none) ∈
        tr₂.map fun x => (x.act, x.pre.thread 1) := by
      rw [hafter]
      simp
    obtain ⟨y, hy, hyeq⟩ := List.mem_map.mp hagain
    exact hpast.waitsOnce tr₁ x tr₂ rfl 0 0 ha (by decide) ⟨none, hpre⟩ y hy
      ⟨none, (Prod.mk.inj hyeq).2⟩

end BufferList

end Gpcieuni
