-- SUMMARY: Rings: lists with a cursor that goes around, insertion at the end of the list, and the order in which the cursor meets the entries.
import Mathlib.Data.List.Nodup

/-!
# Rings

A ring is a list with a cursor on one of its entries. The cursor goes to the next
entry, and from the last one to the first. `RingList.round` is the list as the cursor
sees it: the entries from the cursor on, once around. In this view an advance is
a rotation by one.
-/

/-- A list with a cursor: the entries before the cursor, and those from it on. -/
structure RingList (α : Type) where
  passed : List α
  ahead : List α
  /-- The cursor is on an entry as soon as there is one. -/
  wrapped : ahead = [] → passed = []

namespace RingList

variable {α : Type}

def empty : RingList α := ⟨[], [], fun _ => rfl⟩

def toList (r : RingList α) : List α := r.passed ++ r.ahead

/-- The entry under the cursor. -/
def current (r : RingList α) : Option α := r.ahead.head?

/-- The entries from the cursor on, once around. -/
def round (r : RingList α) : List α := r.ahead ++ r.passed

/-- Insert an entry at the end of the list. -/
def push (r : RingList α) (a : α) : RingList α := ⟨r.passed, r.ahead ++ [a], by simp⟩

/-- Move the cursor to the next entry. -/
def advance (r : RingList α) : RingList α :=
  match r.ahead with
  | [] => r
  | [a] => ⟨[], r.passed ++ [a], fun _ => rfl⟩
  | a :: b :: l => ⟨r.passed ++ [a], b :: l, by simp⟩

@[simp] theorem toList_empty : (empty : RingList α).toList = [] := rfl

@[simp] theorem round_empty : (empty : RingList α).round = [] := rfl

@[simp] theorem toList_push (r : RingList α) (a : α) : (r.push a).toList = r.toList ++ [a] := by
  simp [toList, push]

@[simp] theorem toList_advance (r : RingList α) : r.advance.toList = r.toList := by
  unfold advance
  split
  · rfl
  · rename_i hahead
    simp [toList, hahead]
  · rename_i hahead
    simp [toList, hahead]

@[simp] theorem mem_round {r : RingList α} {a : α} : a ∈ r.round ↔ a ∈ r.toList := by
  simp only [round, toList, List.mem_append]
  exact or_comm

theorem nodup_round {r : RingList α} : r.round.Nodup ↔ r.toList.Nodup :=
  List.nodup_append_comm

theorem current_eq_head (r : RingList α) : r.current = r.round.head? := by
  cases hahead : r.ahead with
  | nil => simp [current, round, hahead, r.wrapped hahead]
  | cons a l => simp [current, round, hahead]

theorem current_eq_some {r : RingList α} {a : α} : r.current = some a ↔ ∃ l, r.round = a :: l := by
  rw [current_eq_head]
  exact List.head?_eq_some_iff

/-- The current entry becomes the last one of the round. -/
theorem round_advance {r : RingList α} {a : α} {l : List α} (h : r.round = a :: l) :
    r.advance.round = l ++ [a] := by
  cases hahead : r.ahead with
  | nil => simp [round, hahead, r.wrapped hahead] at h
  | cons b m =>
      simp only [round, hahead, List.cons_append, List.cons.injEq] at h
      obtain ⟨rfl, rfl⟩ := h
      cases m with
      | nil => simp [advance, hahead, round]
      | cons c m => simp [advance, hahead, round]

/-- The cursor after an advance, in terms of the list. -/
theorem current_advance {r : RingList α} {a : α} {w : List α} (hahead : r.ahead = a :: w) :
    r.advance.current = match w.head? with
      | none => r.toList.head?
      | some b => some b := by
  cases w with
  | nil => simp [advance, hahead, current, toList]
  | cons b w => simp [advance, hahead, current]

/-- The cursor after a push. -/
theorem current_push (r : RingList α) (a : α) :
    (r.push a).current = if r.toList = [] then some a else r.current := by
  cases hahead : r.ahead with
  | nil => simp [push, current, toList, hahead, r.wrapped hahead]
  | cons b l => simp [push, current, toList, hahead]

end RingList
