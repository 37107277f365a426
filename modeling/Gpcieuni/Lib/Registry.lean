-- SUMMARY: Registries: partial maps in which an entry is added under a key that must be free, and removed by its key or by its value.
import Mathlib.Data.Set.Function

/-!
# Registries

A registry holds at most one entry under each key. Adding under a key that is
taken leaves the registry as it is, and so does removing under a key that is
free: a caller that does not look at the answer goes on with whatever is there.
Entries can also be removed by their value (`removeValue`).

`Lists` is the case in which all goes well: the registry has the entry of each
member of a set and no other. Adding a member keeps it if its key is new, and
removing a member keeps it as long as keys, or values, are distinct. `Extends` is
the same on top of entries that belong to somebody else.
-/

/-- The entry under each key. -/
abbrev Registry (κ ν : Type) := κ → Option ν

namespace Registry

variable {κ ν : Type} [DecidableEq κ]

/-- Add an entry. A taken key refuses it. -/
def add (r : Registry κ ν) (k : κ) (v : ν) : Registry κ ν :=
  if r k = none then Function.update r k (some v) else r

/-- Remove the entry under a key. -/
def remove (r : Registry κ ν) (k : κ) : Registry κ ν := Function.update r k none

/-- Remove the entries that have a value. -/
def removeValue [DecidableEq ν] (r : Registry κ ν) (v : ν) : Registry κ ν := fun k =>
  if r k = some v then none else r k

variable {r : Registry κ ν} {k k' : κ} {v v' : ν}

theorem add_of_free (h : r k = none) : r.add k v = Function.update r k (some v) := if_pos h

theorem add_of_taken (h : r k ≠ none) : r.add k v = r := if_neg h

theorem add_self (h : r k = none) : r.add k v k = some v := by
  rw [add_of_free h, Function.update_self]

theorem add_ne (h : k' ≠ k) : r.add k v k' = r k' := by
  unfold add
  split
  · exact Function.update_of_ne h _ _
  · rfl

@[simp] theorem remove_self : r.remove k k = none := by
  unfold remove
  exact Function.update_self k none r

theorem remove_ne (h : k' ≠ k) : r.remove k k' = r k' := by
  unfold remove
  exact Function.update_of_ne h none r

/-- An entry is there afterwards if it was there with another key. -/
theorem remove_eq_some : r.remove k k' = some v ↔ r k' = some v ∧ k' ≠ k := by
  by_cases h : k' = k
  · subst h
    simp
  · rw [remove_ne h]
    exact ⟨fun hv => ⟨hv, h⟩, And.left⟩

omit [DecidableEq κ] in
/-- An entry is there afterwards if it was there with another value. -/
theorem removeValue_eq_some [DecidableEq ν] :
    r.removeValue v k = some v' ↔ r k = some v' ∧ v' ≠ v := by
  unfold removeValue
  split
  · rename_i hv
    simp only [reduceCtorEq, false_iff, hv]
    rintro ⟨heq, hne⟩
    exact hne (Option.some.inj heq).symm
  · rename_i hv
    refine ⟨fun hv' => ⟨hv', ?_⟩, And.left⟩
    rintro rfl
    exact hv hv'

omit [DecidableEq κ] in
theorem removeValue_of_unused [DecidableEq ν] (h : ∀ k, r k ≠ some v) : r.removeValue v = r := by
  funext k
  exact if_neg (h k)

/-- Removing what was just added under a free key gives back the registry. -/
theorem remove_add (h : r k = none) : (r.add k v).remove k = r := by
  rw [add_of_free h, remove, Function.update_idem, ← h, Function.update_eq_self]

/-! ## The registry of a set -/

section Lists

variable {ι : Type} {S : Set ι} {f f' : ι → κ} {g g' : ι → ν} {x : ι}

/-- The registry has the entry `g x` under the key `f x` for every `x` in `S`, and
no others. -/
def Lists (r : Registry κ ν) (S : Set ι) (f : ι → κ) (g : ι → ν) : Prop :=
  ∀ k v, r k = some v ↔ ∃ x ∈ S, f x = k ∧ g x = v

omit [DecidableEq κ] in
theorem lists_empty : Lists (fun _ => none) ∅ f g := by
  intro k v
  simp

omit [DecidableEq κ] in
theorem Lists.get (h : r.Lists S f g) (hx : x ∈ S) : r (f x) = some (g x) :=
  (h (f x) (g x)).mpr ⟨x, hx, rfl, rfl⟩

omit [DecidableEq κ] in
theorem Lists.congr (h : r.Lists S f g) (hf : ∀ x ∈ S, f' x = f x) (hg : ∀ x ∈ S, g' x = g x) :
    r.Lists S f' g' := by
  intro k v
  rw [h k v]
  constructor
  · rintro ⟨x, hx, rfl, rfl⟩
    exact ⟨x, hx, hf x hx, hg x hx⟩
  · rintro ⟨x, hx, rfl, rfl⟩
    exact ⟨x, hx, (hf x hx).symm, (hg x hx).symm⟩

omit [DecidableEq κ] in
/-- Members with different values have different keys. -/
theorem Lists.injOn (h : r.Lists S f g) (hg : Set.InjOn g S) : Set.InjOn f S := by
  intro x hx y hy heq
  apply hg hx hy
  apply Option.some.inj
  rw [← h.get hx, ← h.get hy, heq]

omit [DecidableEq κ] in
/-- The value of a member to be is not in use. -/
theorem Lists.value_unused (h : r.Lists S f g) (hx : ∀ y ∈ S, g y ≠ g x) (k : κ) :
    r k ≠ some (g x) := by
  intro hk
  obtain ⟨y, hy, -, heq⟩ := (h k (g x)).mp hk
  exact hx y hy heq

theorem Lists.add (h : r.Lists S f g) (hx : ∀ y ∈ S, f y ≠ f x) :
    (r.add (f x) (g x)).Lists (insert x S) f g := by
  have hfree : r (f x) = none := by
    apply Option.eq_none_iff_forall_ne_some.mpr
    intro v hv
    obtain ⟨y, hy, heq, -⟩ := (h (f x) v).mp hv
    exact hx y hy heq
  intro k v
  simp only [Set.mem_insert_iff, exists_eq_or_imp]
  by_cases hk : k = f x
  · subst hk
    rw [add_self hfree]
    constructor
    · intro hv
      exact .inl ⟨rfl, Option.some.inj hv⟩
    · rintro (⟨-, rfl⟩ | ⟨y, hy, heq, -⟩)
      · rfl
      · exact absurd heq (hx y hy)
  · rw [add_ne hk, h k v]
    constructor
    · exact .inr
    · rintro (⟨heq, -⟩ | hother)
      · exact absurd heq.symm hk
      · exact hother

theorem Lists.remove (h : r.Lists S f g) (hf : Set.InjOn f S) (hx : x ∈ S) :
    (r.remove (f x)).Lists (S \ {x}) f g := by
  intro k v
  rw [remove_eq_some, h k v]
  constructor
  · rintro ⟨⟨y, hy, rfl, rfl⟩, hne⟩
    exact ⟨y, ⟨hy, fun heq => hne (congrArg f heq)⟩, rfl, rfl⟩
  · rintro ⟨y, ⟨hy, hne⟩, rfl, rfl⟩
    exact ⟨⟨y, hy, rfl, rfl⟩, fun heq => hne (hf hy hx heq)⟩

omit [DecidableEq κ] in
theorem Lists.removeValue [DecidableEq ν] (h : r.Lists S f g) (hg : Set.InjOn g S) (hx : x ∈ S) :
    (r.removeValue (g x)).Lists (S \ {x}) f g := by
  intro k v
  rw [removeValue_eq_some, h k v]
  constructor
  · rintro ⟨⟨y, hy, rfl, rfl⟩, hne⟩
    exact ⟨y, ⟨hy, fun heq => hne (congrArg g heq)⟩, rfl, rfl⟩
  · rintro ⟨y, ⟨hy, hne⟩, rfl, rfl⟩
    exact ⟨⟨y, hy, rfl, rfl⟩, fun heq => hne (hg hy hx heq)⟩

end Lists

/-! ## Entries on top of a registry -/

section Extends

variable {ι β : Type} [DecidableEq ι] {r₀ : Registry κ ν} {own : ι → Option β} {key : β → κ}
  {val : β → ν} {i : ι} {x : β}

/-- The registry `r` is `r₀` and an entry for each owner, all under different keys. -/
structure Extends (r₀ r : Registry κ ν) (own : ι → Option β) (key : β → κ) (val : β → ν) :
    Prop where
  get : ∀ i x, own i = some x → r (key x) = some (val x) ∧ r₀ (key x) = none
  unique : ∀ i j x y, own i = some x → own j = some y → key x = key y → i = j
  rest : ∀ k, (∀ i x, own i = some x → key x ≠ k) → r k = r₀ k

omit [DecidableEq κ] [DecidableEq ι] in
theorem extends_refl (hown : ∀ i, own i = none) : Extends r r own key val where
  get i x hx := by rw [hown i] at hx; cases hx
  unique i j x y hx := by rw [hown i] at hx; cases hx
  rest _ _ := rfl

omit [DecidableEq κ] [DecidableEq ι] in
/-- Without owners nothing is left on top. -/
theorem Extends.eq_of_none (h : Extends r₀ r own key val) (hown : ∀ i, own i = none) : r = r₀ := by
  funext k
  apply h.rest k
  intro i x hx
  rw [hown i] at hx
  cases hx

omit [DecidableEq κ] [DecidableEq ι] in
/-- A key that is free has no owner and was free before. -/
theorem Extends.of_free (h : Extends r₀ r own key val) {k : κ} (hk : r k = none) :
    r₀ k = none ∧ ∀ i x, own i = some x → key x ≠ k := by
  have hne : ∀ i x, own i = some x → key x ≠ k := by
    rintro i x hx rfl
    rw [(h.get i x hx).1] at hk
    cases hk
  exact ⟨(h.rest k hne).symm.trans hk, hne⟩

theorem Extends.add (h : Extends r₀ r own key val) (hi : own i = none) (hx : r (key x) = none) :
    Extends r₀ (r.add (key x) (val x)) (Function.update own i (some x)) key val := by
  obtain ⟨hfree, hne⟩ := h.of_free hx
  have hcases : ∀ {j y}, Function.update own i (some x) j = some y →
      (j = i ∧ y = x) ∨ (j ≠ i ∧ own j = some y) := by
    intro j y hj
    by_cases hji : j = i
    · subst hji
      rw [Function.update_self] at hj
      exact .inl ⟨rfl, (Option.some.inj hj).symm⟩
    · rw [Function.update_of_ne hji] at hj
      exact .inr ⟨hji, hj⟩
  refine ⟨?_, ?_, ?_⟩
  · intro j y hj
    rcases hcases hj with ⟨rfl, rfl⟩ | ⟨-, hj⟩
    · exact ⟨add_self hx, hfree⟩
    · rw [add_ne (hne j y hj)]
      exact h.get j y hj
  · intro j l y z hj hl hkey
    rcases hcases hj with ⟨hji, hyx⟩ | ⟨-, hj'⟩ <;> rcases hcases hl with ⟨hli, hzx⟩ | ⟨-, hl'⟩
    · exact hji.trans hli.symm
    · exact absurd (hkey.symm.trans (congrArg key hyx)) (hne l z hl')
    · exact absurd (hkey.trans (congrArg key hzx)) (hne j y hj')
    · exact h.unique j l y z hj' hl' hkey
  · intro k hk
    have hkx : k ≠ key x := fun heq => hk i x (by rw [Function.update_self]) heq.symm
    rw [add_ne hkx]
    apply h.rest k
    intro j y hj
    have hji : j ≠ i := by
      rintro rfl
      rw [hi] at hj
      cases hj
    exact hk j y (by rw [Function.update_of_ne hji, hj])

theorem Extends.remove (h : Extends r₀ r own key val) (hi : own i = some x) :
    Extends r₀ (r.remove (key x)) (Function.update own i none) key val := by
  have hcases : ∀ {j y}, Function.update own i none j = some y → j ≠ i ∧ own j = some y := by
    intro j y hj
    by_cases hji : j = i
    · subst hji
      rw [Function.update_self] at hj
      cases hj
    · rw [Function.update_of_ne hji] at hj
      exact ⟨hji, hj⟩
  refine ⟨?_, ?_, ?_⟩
  · intro j y hj
    obtain ⟨hji, hj⟩ := hcases hj
    have hkey : key y ≠ key x := fun heq => hji (h.unique j i y x hj hi heq)
    rw [remove_ne hkey]
    exact h.get j y hj
  · intro j l y z hj hl hkey
    exact h.unique j l y z (hcases hj).2 (hcases hl).2 hkey
  · intro k hk
    by_cases hkx : k = key x
    · subst hkx
      rw [remove_self]
      exact (h.get i x hi).2.symm
    · rw [remove_ne hkx]
      apply h.rest k
      intro j y hj
      by_cases hji : j = i
      · subst hji
        obtain rfl := Option.some.inj (hi.symm.trans hj)
        exact fun heq => hkx heq.symm
      · exact hk j y (by rw [Function.update_of_ne hji, hj])

end Extends

end Registry
