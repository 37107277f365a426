-- SUMMARY: Resource ledgers: the acquisitions and releases in a log, their counts, and the balance of each resource.
import Mathlib.Data.List.Basic

/-!
# Ledgers

A log of calls is read as a list of entries, each of which acquires or releases
one resource. The counts are additive over logs, so what a call does to every
resource is found from the calls it is made of. A balance is an integer: a
resource that is released too often has a negative one.
-/

namespace Ledger

/-- An acquisition or a release of a resource. -/
inductive Entry (ρ : Type) where
  | acquire (r : ρ)
  | release (r : ρ)
  deriving DecidableEq

variable {δ ε ι ρ : Type} [DecidableEq ρ]

/-- How often an entry stands in a log, when `f` reads off the entry of a call. -/
def tally (f : ε → Option (Entry ρ)) (log : List ε) (x : Entry ρ) : Nat :=
  (log.filterMap f).count x

/-- What a log adds to the number of times `r` is held. -/
def balance (f : ε → Option (Entry ρ)) (log : List ε) (r : ρ) : Int :=
  tally f log (.acquire r) - tally f log (.release r)

variable {f : ε → Option (Entry ρ)} {x : Entry ρ}

@[simp] theorem tally_nil : tally f [] x = 0 := rfl

@[simp] theorem tally_append (l l' : List ε) : tally f (l ++ l') x = tally f l x + tally f l' x := by
  simp [tally]

theorem tally_map (g : δ → ε) (l : List δ) : tally f (l.map g) x = tally (f ∘ g) l x := by
  simp [tally, List.filterMap_map]

theorem tally_cons (e : ε) (l : List ε) :
    tally f (e :: l) x = (if f e = some x then 1 else 0) + tally f l x := by
  rw [← List.singleton_append, tally_append]
  congr 1
  cases h : f e with
  | none => simp [tally, h]
  | some y => simp [tally, h, List.count_singleton]

theorem balance_append (l l' : List ε) (r : ρ) :
    balance f (l ++ l') r = balance f l r + balance f l' r := by
  simp only [balance, tally_append]
  omega

theorem tally_pos {l : List ε} : 0 < tally f l x ↔ ∃ e ∈ l, f e = some x := by
  rw [tally, List.count_pos_iff, List.mem_filterMap]

theorem tally_eq_zero {l : List ε} (h : ∀ e ∈ l, f e ≠ some x) : tally f l x = 0 := by
  apply List.count_eq_zero.mpr
  intro hmem
  obtain ⟨e, he, hfe⟩ := List.mem_filterMap.mp hmem
  exact h e he hfe

/-- A family of logs in which only the log of `i` can have the entry. -/
theorem tally_flatMap {is : List ι} {g : ι → List ε} {i : ι} (his : is.Nodup) (hi : i ∈ is)
    (h : ∀ j, j ≠ i → ∀ e ∈ g j, f e ≠ some x) : tally f (is.flatMap g) x = tally f (g i) x := by
  induction is with
  | nil => cases hi
  | cons j is ih =>
      obtain ⟨hj, his⟩ := List.nodup_cons.mp his
      rw [List.flatMap_cons, tally_append]
      by_cases hji : j = i
      · subst hji
        have hrest : tally f (is.flatMap g) x = 0 := by
          apply tally_eq_zero
          intro e he
          obtain ⟨j', hj', he'⟩ := List.mem_flatMap.mp he
          exact h j' (fun heq => hj (heq ▸ hj')) e he'
        rw [hrest, Nat.add_zero]
      · rw [tally_eq_zero (h j hji), Nat.zero_add]
        exact ih his (List.mem_of_ne_of_mem (Ne.symm hji) hi)

/-! ## Accounts -/

/-- The count `n` is right for a resource that is held once if `H`, and not at all
otherwise. -/
def Account (H : Prop) (n : Int) : Prop := (H → n = 1) ∧ (¬ H → n = 0)

/-- A resource that was not held is acquired once. -/
theorem Account.gain {H H' G : Prop} [Decidable G] {n : Int} {a : Nat} (h : Account H n)
    (ha : a = if G then 1 else 0) (hnew : G → ¬ H) (hH' : H' ↔ H ∨ G) : Account H' (n + a) := by
  by_cases hG : G
  · rw [if_pos hG] at ha
    rw [h.2 (hnew hG), ha]
    exact ⟨fun _ => rfl, fun hn => absurd (hH'.mpr (.inr hG)) hn⟩
  · rw [if_neg hG] at ha
    subst ha
    refine ⟨fun hheld => ?_, fun hnot => ?_⟩
    · simpa using h.1 ((hH'.mp hheld).resolve_right hG)
    · simpa using h.2 (fun hheld => hnot (hH'.mpr (.inl hheld)))

/-- A resource that was held is released once. -/
theorem Account.give {H H' L : Prop} [Decidable L] {n : Int} {b : Nat} (h : Account H n)
    (hb : b = if L then 1 else 0) (hold : L → H) (hH' : H' ↔ H ∧ ¬ L) : Account H' (n - b) := by
  by_cases hL : L
  · rw [if_pos hL] at hb
    rw [h.1 (hold hL), hb]
    exact ⟨fun hheld => absurd hL (hH'.mp hheld).2, fun _ => rfl⟩
  · rw [if_neg hL] at hb
    subst hb
    refine ⟨fun hheld => ?_, fun hnot => ?_⟩
    · simpa using h.1 (hH'.mp hheld).1
    · simpa using h.2 (fun hheld => hnot (hH'.mpr ⟨hheld, hL⟩))

end Ledger
