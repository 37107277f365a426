-- SUMMARY: Machine words: single-bit operations on a 64-bit word, the bytes of a 32-bit word, and shift-and-mask field extraction.
import Mathlib.Data.Nat.Bits
import Mathlib.Tactic.IntervalCases

/-!
# Machine words

Words are `BitVec`s. This file has the operations that drivers use on them
beyond plain arithmetic, each with the equations that let later proofs treat it
as a function on bits or on natural numbers.
-/

namespace Word

/-! ## Single bits -/

/-- Set bit `n` of `w`. -/
def setBit (n : Nat) (w : BitVec 64) : BitVec 64 := w ||| (1#64 <<< n)

/-- Clear bit `n` of `w`. -/
def clearBit (n : Nat) (w : BitVec 64) : BitVec 64 := w &&& ~~~(1#64 <<< n)

/-- Read bit `n` of `w`. -/
def testBit (n : Nat) (w : BitVec 64) : Bool := w.getLsbD n

private theorem getLsbD_one_shiftLeft {n i : Nat} (hn : n < 64) :
    (1#64 <<< n).getLsbD i = decide (i = n) := by
  rw [BitVec.getLsbD_shiftLeft, BitVec.getLsbD_one]
  by_cases h : i = n
  · subst h; simp [hn]
  · have hsub : i < n ∨ i - n ≠ 0 := by omega
    rcases hsub with hlt | hne <;> simp [*]

@[simp] theorem testBit_setBit {m n : Nat} {w : BitVec 64} (hn : n < 64) :
    testBit m (setBit n w) = (testBit m w || decide (m = n)) := by
  simp [testBit, setBit, BitVec.getLsbD_or, getLsbD_one_shiftLeft hn]

@[simp] theorem testBit_clearBit {m n : Nat} {w : BitVec 64} (hn : n < 64) :
    testBit m (clearBit n w) = (testBit m w && !decide (m = n)) := by
  simp only [testBit, clearBit, BitVec.getLsbD_and, BitVec.getLsbD_not, getLsbD_one_shiftLeft hn]
  by_cases hm : m < 64
  · simp [hm]
  · simp [BitVec.getLsbD_of_ge w m (by omega)]

/-! ## The bytes of a 32-bit word, least significant first -/

/-- Byte `i` of `w`. -/
def byte (w : BitVec 32) (i : Nat) : BitVec 8 := w.extractLsb' (8 * i) 8

/-- The word with the bytes `b 0`, `b 1`, `b 2`, `b 3`. -/
def ofBytes (b : Nat → BitVec 8) : BitVec 32 := b 3 ++ b 2 ++ b 1 ++ b 0

theorem byte_ofBytes (b : Nat → BitVec 8) {i : Nat} (hi : i < 4) : byte (ofBytes b) i = b i := by
  apply BitVec.eq_of_getLsbD_eq
  intro j hj
  simp only [byte, ofBytes, BitVec.getLsbD_extractLsb', BitVec.getLsbD_append]
  interval_cases i <;> simp [hj, show ¬ 16 + j < 8 by omega, show ¬ 24 + j < 8 by omega,
    show ¬ 8 + j < 8 by omega, show 8 + j - 8 = j by omega,
    show 16 + j - 8 = 8 + j by omega, show 24 + j - 8 = 16 + j by omega]

theorem ofBytes_byte (w : BitVec 32) : ofBytes (byte w) = w := by
  apply BitVec.eq_of_getLsbD_eq
  intro i hi
  simp only [byte, ofBytes, BitVec.getLsbD_append, BitVec.getLsbD_extractLsb']
  by_cases h₀ : i < 8
  · simp [h₀]
  by_cases h₁ : i - 8 < 8
  · simp [h₀, h₁, show 8 + (i - 8) = i by omega]
  by_cases h₂ : i - 8 - 8 < 8
  · simp [h₀, h₁, h₂, show 16 + (i - 8 - 8) = i by omega]
  · simp [h₀, h₁, h₂, show i - 8 - 8 - 8 < 8 by omega, show 24 + (i - 8 - 8 - 8) = i by omega]

/-! ## Fields -/

/-- The three bits below the sign bit of a 64-bit word, taken by an arithmetic
shift and a mask. -/
theorem sshiftRight_and_seven_toNat (v : BitVec 64) :
    (v.sshiftRight 60 &&& 7#64).toNat = v.toNat / 2 ^ 60 % 8 := by
  have hlow : ∀ i, i < 3 → (v.sshiftRight 60).toNat.testBit i = (v.toNat >>> 60).testBit i := by
    intro i hi
    have := BitVec.getLsbD_sshiftRight v 60 i
    simp only [BitVec.getLsbD] at this
    rw [this]
    simp [show i < 64 by omega, show 60 + i < 64 by omega, Nat.testBit_shiftRight]
  rw [BitVec.toNat_and, show (7#64).toNat = 2 ^ 3 - 1 from rfl, Nat.and_two_pow_sub_one_eq_mod,
    ← Nat.shiftRight_eq_div_pow, show (8 : Nat) = 2 ^ 3 from rfl]
  apply Nat.eq_of_testBit_eq
  intro i
  simp only [Nat.testBit_mod_two_pow]
  by_cases hi : i < 3
  · simp [hi, hlow i hi]
  · simp [hi]

/-- Masking with the low 60 bits is the remainder modulo `2 ^ 60`. -/
theorem and_low60_toNat (v : BitVec 64) :
    (v &&& 0x0FFFFFFFFFFFFFFF#64).toNat = v.toNat % 2 ^ 60 := by
  rw [BitVec.toNat_and, show (0x0FFFFFFFFFFFFFFF#64).toNat = 2 ^ 60 - 1 from rfl,
    Nat.and_two_pow_sub_one_eq_mod]

/-- A signed remainder by four vanishes exactly on the multiples of four. -/
theorem srem_four_eq_zero {v : BitVec 64} : v.srem 4 = 0 ↔ v.toNat % 4 = 0 := by
  have hint : v.srem 4 = 0 ↔ v.toInt.tmod 4 = 0 := by
    rw [← BitVec.toInt_inj, BitVec.toInt_srem]
    exact Iff.rfl
  rw [hint, ← Int.dvd_iff_tmod_eq_zero, BitVec.toInt_eq_toNat_cond]
  have hlt := v.isLt
  split <;> omega

theorem umod_four_eq_zero {v : BitVec 64} : v % 4 = 0 ↔ v.toNat % 4 = 0 := by
  rw [← BitVec.toNat_inj, BitVec.toNat_umod]
  rfl

end Word
