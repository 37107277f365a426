-- SUMMARY: Threads as program points indexed by thread names, and the lock that guards a set of program points.
import Mathlib.Logic.Function.Basic

/-!
# Threads and a lock

A family of threads is a function from names to program points; one thread moves
by an update at its name. `Guards` relates the holder of a lock to the program
points from which the lock is held, and the rules below are the ways in which a
single thread can move without breaking that relation.
-/

namespace Threads

variable {ι π : Type} [DecidableEq ι] {pcs : ι → π} {t : ι} {p : π}

/-- What holds of the thread that moved and of every other thread holds of all. -/
theorem forall_update {Q : ι → π → Prop} (hself : Q t p) (hrest : ∀ u, u ≠ t → Q u (pcs u)) (u : ι) :
    Q u (Function.update pcs t p u) := by
  by_cases h : u = t
  · subst h
    rw [Function.update_self]
    exact hself
  · rw [Function.update_of_ne h]
    exact hrest u h

/-- A thread that is at `q` after one thread went elsewhere was there before. -/
theorem eq_of_update {u : ι} {q : π} (h : Function.update pcs t p u = q) (hne : p ≠ q) :
    pcs u = q := by
  by_cases hu : u = t
  · subst hu
    rw [Function.update_self] at h
    exact absurd h hne
  · rwa [Function.update_of_ne hu] at h

/-- A thread is at a point in `inside` exactly when it holds the lock. -/
def Guards (holder : Option ι) (inside : π → Prop) (pcs : ι → π) : Prop :=
  ∀ t, inside (pcs t) ↔ holder = some t

namespace Guards

variable {holder : Option ι} {inside : π → Prop}

/-- A move that neither enters nor leaves the guarded points. -/
theorem move (h : Guards holder inside pcs) (hp : inside p ↔ inside (pcs t)) :
    Guards holder inside (Function.update pcs t p) :=
  forall_update (Q := fun u q => inside q ↔ holder = some u) (hp.trans (h t)) (fun u _ => h u)

theorem acquire (h : Guards none inside pcs) (hp : inside p) :
    Guards (some t) inside (Function.update pcs t p) := by
  apply forall_update (Q := fun u q => inside q ↔ some t = some u) (iff_of_true hp rfl)
  intro u hu
  refine iff_of_false (fun hin => ?_) (fun heq => hu (Option.some.inj heq).symm)
  cases (h u).mp hin

theorem release (h : Guards holder inside pcs) (ht : inside (pcs t)) (hp : ¬ inside p) :
    Guards none inside (Function.update pcs t p) := by
  apply forall_update (Q := fun u q => inside q ↔ none = some u) (iff_of_false hp (by simp))
  intro u hu
  refine iff_of_false (fun hin => ?_) (by simp)
  exact hu (Option.some.inj ((h u).mp hin ▸ (h t).mp ht))

omit [DecidableEq ι] in
/-- No two threads are inside at once. -/
theorem unique (h : Guards holder inside pcs) {u : ι} (ht : inside (pcs t)) (hu : inside (pcs u)) :
    t = u :=
  Option.some.inj (((h t).mp ht).symm.trans ((h u).mp hu))

end Guards

/-- A thread at a point in `inside` holds the lock. Unlike `Guards`, this allows a
thread to keep the lock when it leaves. -/
def Excludes (holder : Option ι) (inside : π → Prop) (pcs : ι → π) : Prop :=
  ∀ t, inside (pcs t) → holder = some t

namespace Excludes

variable {holder : Option ι} {inside : π → Prop}

theorem move (h : Excludes holder inside pcs) (hp : inside p → inside (pcs t)) :
    Excludes holder inside (Function.update pcs t p) :=
  forall_update (Q := fun u q => inside q → holder = some u) (fun hin => h t (hp hin))
    (fun u _ => h u)

theorem acquire (h : Excludes none inside pcs) :
    Excludes (some t) inside (Function.update pcs t p) := by
  apply forall_update (Q := fun u q => inside q → some t = some u) (fun _ => rfl)
  intro u _ hin
  cases h u hin

theorem release (h : Excludes holder inside pcs) (ht : inside (pcs t)) (hp : ¬ inside p) :
    Excludes none inside (Function.update pcs t p) := by
  apply forall_update (Q := fun u q => inside q → none = some u) (fun hin => absurd hin hp)
  intro u hu hin
  exact absurd (Option.some.inj ((h u hin).symm.trans (h t ht))) hu

omit [DecidableEq ι] in
/-- No two threads are inside at once. -/
theorem unique (h : Excludes holder inside pcs) {u : ι} (ht : inside (pcs t))
    (hu : inside (pcs u)) : t = u :=
  Option.some.inj ((h t ht).symm.trans (h u hu))

end Excludes

end Threads
