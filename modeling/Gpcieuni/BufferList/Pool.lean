-- SUMMARY: What the buffer list is for: a pool whose members are taken in ring order, its operations, and the discipline under which waiting means that nothing is free.
import Gpcieuni.Lib.Lts
import Gpcieuni.Lib.RingList

/-!
# Pools

A pool is a ring of members, each of them free or taken. The member under the
cursor is the only one that can be taken, and it is waited for when it is not
free. So it matters in which order the members come back: when they come back in
the order in which they were taken, the free ones are always those from the cursor
on.
-/

namespace Gpcieuni

/-- A ring of members, and which of them are free. -/
structure Pool (α : Type) where
  ring : RingList α
  free : α → Bool

namespace Pool

variable {α : Type}

/-- The atomic operations. To wait for a member changes nothing. -/
inductive Op (α : Type) where
  | append (a : α)
  | take (a : α)
  | release (a : α)
  | wait (a : α)
  deriving DecidableEq, Repr

/-- The member that an operation appends. -/
def Op.appended : Op α → Option α
  | .append a => some a
  | _ => none

/-- The member that an operation takes. -/
def Op.taken : Op α → Option α
  | .take a => some a
  | _ => none

/-- The member that an operation gives back. -/
def Op.released : Op α → Option α
  | .release a => some a
  | _ => none

def empty : Pool α := ⟨.empty, fun _ => true⟩

/-- No member is free. -/
def Exhausted (p : Pool α) : Prop := ∀ a ∈ p.ring.toList, p.free a = false

/-- Every member is free. -/
def Idle (p : Pool α) : Prop := ∀ a ∈ p.ring.toList, p.free a = true

section Mark

variable [DecidableEq α]

/-- Mark the member `a` as free or taken, in the ring `r`. -/
def mark (p : Pool α) (r : RingList α) (a : α) (v : Bool) : Pool α := ⟨r, Function.update p.free a v⟩

@[simp] theorem mark_ring (p : Pool α) (r : RingList α) (a : α) (v : Bool) :
    (p.mark r a v).ring = r := rfl

@[simp] theorem mark_free_self (p : Pool α) (r : RingList α) (a : α) (v : Bool) :
    (p.mark r a v).free a = v := Function.update_self ..

theorem mark_free_ne {p : Pool α} {r : RingList α} {a b : α} {v : Bool} (h : b ≠ a) :
    (p.mark r a v).free b = p.free b := Function.update_of_ne h ..

def step (p : Pool α) : Op α → Option (Pool α × Unit)
  | .append a => if a ∉ p.ring.toList then some (p.mark (p.ring.push a) a true, ()) else none
  | .take a =>
    if p.ring.current = some a ∧ p.free a = true then some (p.mark p.ring.advance a false, ())
    else none
  | .release a =>
    if a ∈ p.ring.toList ∧ p.free a = false then some (p.mark p.ring a true, ()) else none
  | .wait a => if p.ring.current = some a ∧ p.free a = false then some (p, ()) else none

/-- The pool from its beginning without members on. -/
def lts : Lts (Pool α) (Op α) Unit where
  init p := p = empty
  step := step

end Mark

/-! ## Members that come back in turn -/

/-- The members `q` are taken, in this order, and all others are free: the cursor
meets the free ones first. -/
structure InTurn (p : Pool α) (q : List α) : Prop where
  nodup : p.ring.round.Nodup
  split : ∃ f, p.ring.round = f ++ q ∧ (∀ a ∈ f, p.free a = true) ∧ ∀ a ∈ q, p.free a = false

namespace InTurn

variable {p p' : Pool α} {q : List α} {a : α} {e : Unit}

theorem of_empty : InTurn (empty : Pool α) [] :=
  ⟨List.nodup_nil, [], rfl, by simp, by simp⟩

/-- A member that is not free is one of those taken. -/
theorem mem_taken (h : InTurn p q) (ha : a ∈ p.ring.toList) (hfree : p.free a = false) : a ∈ q := by
  obtain ⟨f, hround, hf, -⟩ := h.split
  have hmem : a ∈ f ++ q := by rw [← hround]; exact RingList.mem_round.mpr ha
  rcases List.mem_append.mp hmem with hin | hin
  · rw [hf a hin] at hfree
    cases hfree
  · exact hin

/-- When every member is free, none is taken. -/
theorem nil_of_idle (h : InTurn p q) (hidle : p.Idle) : q = [] := by
  obtain ⟨f, hround, -, hq⟩ := h.split
  rw [List.eq_nil_iff_forall_not_mem]
  intro a ha
  have hfree := hidle a (RingList.mem_round.mp (by rw [hround]; exact List.mem_append_right _ ha))
  rw [hq a ha] at hfree
  cases hfree

variable [DecidableEq α]

theorem append (h : InTurn p q) (hidle : p.Idle) (hstep : p.step (.append a) = some (p', e)) :
    InTurn p' q := by
  obtain rfl := h.nil_of_idle hidle
  simp only [step] at hstep
  split at hstep
  · rename_i hnew
    cases hstep
    refine ⟨?_, _, (List.append_nil _).symm, ?_, by simp⟩
    · rw [mark_ring, RingList.nodup_round, RingList.toList_push]
      exact List.Nodup.append (RingList.nodup_round.mp h.nodup) (List.nodup_singleton a)
        (by simpa using hnew)
    · intro b hb
      by_cases hba : b = a
      · subst hba
        simp
      · rw [mark_free_ne hba]
        rw [mark_ring, RingList.mem_round, RingList.toList_push, List.mem_append] at hb
        exact hidle b (hb.resolve_right (by simpa using hba))
  · cases hstep

theorem take (h : InTurn p q) (hstep : p.step (.take a) = some (p', e)) : InTurn p' (q ++ [a]) := by
  simp only [step] at hstep
  split at hstep
  · rename_i hcur
    obtain ⟨hcurrent, hfree⟩ := hcur
    cases hstep
    obtain ⟨l, hround⟩ := RingList.current_eq_some.mp hcurrent
    obtain ⟨f, hsplit, hf, hq⟩ := h.split
    have hnodup := h.nodup
    rw [hround] at hsplit hnodup
    obtain ⟨hal, hl⟩ := List.nodup_cons.mp hnodup
    have hkeep : ∀ b ∈ l, (p.mark p.ring.advance a false).free b = p.free b := by
      intro b hb
      apply mark_free_ne
      rintro rfl
      exact hal hb
    cases f with
    | nil =>
        -- the current member is free, so it is not the first of those taken
        rw [hq a (by rw [← List.nil_append q, ← hsplit]; simp)] at hfree
        cases hfree
    | cons b f =>
        obtain ⟨rfl, rfl⟩ : a = b ∧ l = f ++ q := by simpa using hsplit
        refine ⟨?_, f, ?_, ?_, ?_⟩
        · rw [mark_ring, RingList.nodup_round, RingList.toList_advance]
          exact RingList.nodup_round.mp h.nodup
        · rw [mark_ring, RingList.round_advance hround, List.append_assoc]
        · intro b hb
          rw [hkeep b (List.mem_append_left _ hb)]
          exact hf b (List.mem_cons_of_mem _ hb)
        · intro b hb
          rcases List.mem_append.mp hb with hb | hb
          · rw [hkeep b (List.mem_append_right _ hb)]
            exact hq b hb
          · rw [List.mem_singleton.mp hb, mark_free_self]
  · cases hstep

/-- The member that was taken first comes back. -/
theorem release (h : InTurn p (a :: q)) (hstep : p.step (.release a) = some (p', e)) :
    InTurn p' q := by
  simp only [step] at hstep
  split at hstep
  · cases hstep
    obtain ⟨f, hsplit, hf, hq⟩ := h.split
    have hnodup := h.nodup
    rw [hsplit] at hnodup
    have haq : a ∉ q := (List.nodup_cons.mp (List.Nodup.of_append_right hnodup)).1
    refine ⟨h.nodup, f ++ [a], by rw [mark_ring, hsplit]; simp, ?_, ?_⟩
    · intro b hb
      by_cases hba : b = a
      · subst hba
        simp
      · rw [mark_free_ne hba]
        exact hf b (by simpa [hba] using hb)
    · intro b hb
      have hba : b ≠ a := by
        rintro rfl
        exact haq hb
      rw [mark_free_ne hba]
      exact hq b (List.mem_cons_of_mem _ hb)
  · cases hstep

/-- A member is waited for only when nothing is free. -/
theorem wait (h : InTurn p q) (hstep : p.step (.wait a) = some (p', e)) :
    p' = p ∧ p.Exhausted := by
  simp only [step] at hstep
  split at hstep
  · rename_i hcur
    obtain ⟨hcurrent, hfree⟩ := hcur
    cases hstep
    obtain ⟨l, hround⟩ := RingList.current_eq_some.mp hcurrent
    obtain ⟨f, hsplit, hf, hq⟩ := h.split
    refine ⟨rfl, fun b hb => ?_⟩
    cases f with
    | nil => exact hq b (by rw [← List.nil_append q, ← hsplit]; exact RingList.mem_round.mpr hb)
    | cons c f =>
        rw [hround] at hsplit
        obtain ⟨rfl, -⟩ : a = c ∧ l = f ++ q := by simpa using hsplit
        rw [hf a (List.mem_cons_self ..)] at hfree
        cases hfree
  · cases hstep

end InTurn

/-- In a run in which members are appended only while all are free and come back in
the order in which they were taken, a member is waited for only when none is free. -/
theorem run_inTurn [DecidableEq α] {p p' : Pool α} {q : List α}
    {tr : List (Transition (Pool α) (Op α) Unit)}
    (h : lts.Run p tr p') (hp : InTurn p q)
    (hturn : tr.filterMap (·.act.released) <+: q ++ tr.filterMap (·.act.taken))
    (hidle : ∀ t ∈ tr, ∀ a, t.act = .append a → t.pre.Idle) :
    ∀ t ∈ tr, ∀ a, t.act = .wait a → t.pre.Exhausted := by
  induction h generalizing q with
  | nil => simp
  | @cons p p₁ p' op e tr hstep _ ih =>
      have htail := fun q' hq' hturn' => ih (q := q') hq' hturn'
        fun t ht => hidle t (List.mem_cons_of_mem _ ht)
      -- the rest of the run goes on with the members that are taken now
      have hrest : ∀ q', InTurn p₁ q' →
          tr.filterMap (·.act.released) <+: q' ++ tr.filterMap (·.act.taken) →
          (∀ a, op = .wait a → p.Exhausted) →
          ∀ t ∈ (⟨p, op, e, p₁⟩ : Transition _ _ _) :: tr, ∀ a, t.act = .wait a →
            t.pre.Exhausted := by
        intro q' hq' hturn' hhere t ht
        cases ht with
        | head => exact hhere
        | tail _ hmem => exact htail q' hq' hturn' t hmem
      cases op with
      | append a =>
          have hp₁ := hp.append (hidle _ (List.mem_cons_self ..) a rfl) hstep
          exact hrest q hp₁ hturn (by simp)
      | take a =>
          refine hrest (q ++ [a]) (hp.take hstep) ?_ (by simp)
          rw [List.append_assoc]
          exact hturn
      | release a =>
          have hreleased : a :: tr.filterMap (·.act.released) <+:
              q ++ tr.filterMap (·.act.taken) := hturn
          have hmem : a ∈ q := by
            simp only [lts, step] at hstep
            split at hstep
            · rename_i hout
              exact hp.mem_taken hout.1 hout.2
            · cases hstep
          cases q with
          | nil => cases hmem
          | cons b q =>
              obtain ⟨rfl, hprefix⟩ := List.cons_prefix_cons.mp hreleased
              exact hrest q (hp.release hstep) hprefix (by simp)
      | wait a =>
          obtain ⟨rfl, hout⟩ := hp.wait hstep
          exact hrest q hp hturn fun _ _ => hout

end Pool

end Gpcieuni
