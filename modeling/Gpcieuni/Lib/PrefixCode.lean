-- SUMMARY: Codewords that tell where they end, texts made of them, and numerals as such codewords.
import Mathlib.Data.List.Basic

/-!
# Prefix codes

A function that writes values as lists is a prefix code if what it has written can be
taken off the front of a text in one way only. Then a sequence of codewords can be
read back, without a table of lengths.
-/

/-- What `f` writes for a value can be taken off the front of a text in one way. -/
def PrefixCode {α β : Type} (f : β → List α) : Prop :=
  ∀ ⦃x y : β⦄ ⦃r r' : List α⦄, f x ++ r = f y ++ r' → x = y ∧ r = r'

namespace PrefixCode

section General

variable {α β : Type} {f : β → List α}

/-- A value that is written without `sep` ends at the next `sep`. -/
theorem terminated {sep : α} (hinj : Function.Injective f) (hsep : ∀ x, sep ∉ f x) :
    PrefixCode fun x => f x ++ [sep] := by
  intro x y r r' h
  simp only [List.append_assoc, List.singleton_append] at h
  rcases List.append_eq_append_iff.mp h with ⟨c, hy, hc⟩ | ⟨c, hx, hc⟩
  · cases c with
    | nil =>
        simp only [List.append_nil, List.nil_append, List.cons.injEq, true_and] at hy hc
        exact ⟨hinj hy.symm, hc⟩
    | cons a c =>
        obtain rfl : sep = a := (List.cons.inj hc).1
        exact absurd (hy ▸ by simp) (hsep y)
  · cases c with
    | nil =>
        simp only [List.append_nil, List.nil_append, List.cons.injEq, true_and] at hx hc
        exact ⟨hinj hx, hc.symm⟩
    | cons a c =>
        obtain rfl : sep = a := (List.cons.inj hc).1
        exact absurd (hx ▸ by simp) (hsep x)

/-- A heading before the codeword. -/
theorem headed (hf : PrefixCode f) (heading : List α) : PrefixCode fun x => heading ++ f x := by
  intro x y r r' h
  simp only [List.append_assoc, List.append_cancel_left_eq] at h
  exact hf h

/-- A sequence of codewords can be read back, if none of them is empty. -/
theorem flatMap_injective (hf : PrefixCode f) (hne : ∀ x, f x ≠ []) :
    Function.Injective fun xs : List β => xs.flatMap f := by
  intro xs ys h
  induction xs generalizing ys with
  | nil =>
      cases ys with
      | nil => rfl
      | cons y ys =>
          have hnil : f y ++ ys.flatMap f = [] := by simpa using h.symm
          exact absurd (List.append_eq_nil_iff.mp hnil).1 (hne y)
  | cons x xs ih =>
      cases ys with
      | nil =>
          have hnil : f x ++ xs.flatMap f = [] := by simpa using h
          exact absurd (List.append_eq_nil_iff.mp hnil).1 (hne x)
      | cons y ys =>
          simp only [List.flatMap_cons] at h
          obtain ⟨rfl, hrest⟩ := hf h
          rw [ih hrest]

end General

end PrefixCode

/-! ## Numerals -/

namespace Numeral

variable {b : Nat} (hb : 1 < b)

include hb

theorem mem_toDigits {n : Nat} {c : Char} (h : c ∈ Nat.toDigits b n) :
    ∃ x < b, c = Nat.digitChar x := by
  induction n using Nat.strongRecOn with
  | ind n ih =>
      rw [Nat.toDigits_eq_if hb] at h
      split at h
      · rename_i hlt
        exact ⟨n, hlt, by simpa using h⟩
      · rename_i hge
        rcases List.mem_append.mp h with h | h
        · exact ih (n / b) (Nat.div_lt_self (by omega) hb) h
        · exact ⟨n % b, Nat.mod_lt n (by omega), by simpa using h⟩

/-- Whatever alphabet `D` the digits of base `b` are turned into, a number can be read
off its numeral. -/
theorem map_toDigits_injective {α : Type} {D : Char → α}
    (hD : ∀ x < b, ∀ y < b, D (Nat.digitChar x) = D (Nat.digitChar y) → x = y) :
    Function.Injective fun n => (Nat.toDigits b n).map D := by
  intro m n h
  induction m using Nat.strongRecOn generalizing n with
  | ind m ih =>
      simp only [Nat.toDigits_eq_if hb (n := m), Nat.toDigits_eq_if hb (n := n)] at h
      by_cases hm : m < b
      · by_cases hn : n < b
        · exact hD m hm n hn (by simpa [hm, hn] using h)
        · have hlen := congrArg List.length h
          have hpos := Nat.length_toDigits_pos (b := b) (n := n / b)
          simp only [hm, hn, if_true, if_false, List.map_append, List.length_append,
            List.length_map, List.length_cons, List.length_nil] at hlen
          omega
      · by_cases hn : n < b
        · have hlen := congrArg List.length h
          have hpos := Nat.length_toDigits_pos (b := b) (n := m / b)
          simp only [hm, hn, if_true, if_false, List.map_append, List.length_append,
            List.length_map, List.length_cons, List.length_nil] at hlen
          omega
        · simp only [hm, hn, if_false, List.map_append, List.map_cons, List.map_nil] at h
          obtain ⟨hdiv, hmod⟩ := List.append_inj' h rfl
          have hquot := ih (m / b) (Nat.div_lt_self (by omega) hb) hdiv
          have hrem := hD _ (Nat.mod_lt m (by omega)) _ (Nat.mod_lt n (by omega))
            (List.singleton_inj.mp hmod)
          rw [← Nat.div_add_mod m b, ← Nat.div_add_mod n b, hquot, hrem]

end Numeral
