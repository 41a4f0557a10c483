import Maxcso.Library.RoundUp
import Mathlib.Data.Nat.Log

/-!
# Addressing blocks by shift and mask

A position in a sequence of blocks has a block number and an offset.  Both
can be had by division, or by a shift and a mask that are right when the block
size is a power of two.  This file says for which sizes and lengths the two
agree at every multiple of a unit.
-/

namespace ShiftMask

open RoundUp

/-- Shift and mask give the quotient and the remainder. -/
def Agrees (blockSize position : Nat) : Prop :=
  position / 2 ^ Nat.log2 blockSize = position / blockSize ∧
    position &&& (blockSize - 1) = position % blockSize

theorem agrees_of_isPowerOfTwo
    {blockSize : Nat} (power : blockSize.isPowerOfTwo) (position : Nat) :
    Agrees blockSize position := by
  obtain ⟨shift, rfl⟩ := power
  refine ⟨?_, Nat.and_two_pow_sub_one_eq_mod position shift⟩
  rw [Nat.log2_two_pow]

theorem log2_bounds
    {blockSize : Nat} (positive : 0 < blockSize)
    (noPower : ¬ blockSize.isPowerOfTwo) :
    2 ^ Nat.log2 blockSize < blockSize ∧
      blockSize < 2 ^ (Nat.log2 blockSize + 1) := by
  have low := Nat.log2_self_le (Nat.ne_of_gt positive)
  refine ⟨lt_of_le_of_ne low ?_, Nat.lt_log2_self⟩
  intro same
  exact noPower ⟨_, same.symm⟩

/-! ## The bits of the mask -/

section

variable {blockSize unit : Nat}

/-- Above the unit, the mask is one less than the rounded size. -/
theorem mask_div
    (positive : 0 < blockSize) {power quotient : Nat} (above : unit ≤ power)
    (rounded : roundUp (2 ^ unit) blockSize = 2 ^ power * quotient) :
    (blockSize - 1) / 2 ^ power = quotient - 1 := by
  have low := le_roundUp (2 ^ unit) blockSize
  have high := roundUp_lt_add (Nat.two_pow_pos unit) blockSize
  have wide : 2 ^ unit ≤ 2 ^ power := Nat.pow_le_pow_right (by decide) above
  rw [rounded] at low high
  have some : 0 < quotient := by
    apply Nat.pos_of_ne_zero
    intro none
    rw [none, Nat.mul_zero] at low
    omega
  have split : 2 ^ power * quotient = 2 ^ power * (quotient - 1) + 2 ^ power := by
    rw [← Nat.mul_succ]
    congr 1
    omega
  apply Nat.div_eq_of_lt_le
  · rw [Nat.mul_comm]
    omega
  · rw [Nat.mul_comm, Nat.mul_succ]
    omega

/-- The rounded size is divisible by the powers of two whose bits, from the
unit on, are all in the mask. -/
theorem dvd_roundUp_iff
    (positive : 0 < blockSize) {power : Nat} (above : unit ≤ power) :
    2 ^ power ∣ roundUp (2 ^ unit) blockSize ↔
      ∀ bit, unit ≤ bit → bit < power →
        (blockSize - 1).testBit bit = true := by
  induction power, above using Nat.le_induction with
  | base =>
      constructor
      · intro _ bit from_ below
        omega
      · intro _
        exact dvd_roundUp (Nat.two_pow_pos unit) blockSize
  | succ power above inductionHypothesis =>
      have bit_iff :
          ∀ quotient, roundUp (2 ^ unit) blockSize = 2 ^ power * quotient →
            ((blockSize - 1).testBit power = true ↔ 2 ∣ quotient) := by
        intro quotient rounded
        have low := le_roundUp (2 ^ unit) blockSize
        have some : quotient ≠ 0 := by
          intro none
          rw [rounded, none, Nat.mul_zero] at low
          omega
        rw [Nat.testBit_eq_decide_div_mod_eq,
          mask_div positive above rounded, decide_eq_true_eq]
        omega
      constructor
      · intro divides bit from_ below
        have divides' : 2 ^ power ∣ roundUp (2 ^ unit) blockSize :=
          dvd_trans (Nat.pow_dvd_pow 2 (Nat.le_succ power)) divides
        by_cases last : bit = power
        · obtain ⟨quotient, rounded⟩ := divides'
          rw [last, bit_iff quotient rounded]
          rw [rounded, Nat.pow_succ] at divides
          exact Nat.dvd_of_mul_dvd_mul_left (Nat.two_pow_pos power) divides
        · exact inductionHypothesis.mp divides' bit from_ (by omega)
      · intro bits
        have divides' :=
          inductionHypothesis.mpr fun bit from_ below =>
            bits bit from_ (by omega)
        obtain ⟨quotient, rounded⟩ := divides'
        have even := (bit_iff quotient rounded).mp (bits power above (by omega))
        rw [rounded, Nat.pow_succ]
        exact Nat.mul_dvd_mul_left _ even

/-- A mask that has all bits of a range keeps the positions in the range. -/
theorem and_mask_eq_self
    {position power : Nat} (divides : 2 ^ unit ∣ position)
    (small : position < 2 ^ power)
    (bits : ∀ bit, unit ≤ bit → bit < power →
      (blockSize - 1).testBit bit = true) :
    position &&& (blockSize - 1) = position := by
  apply Nat.eq_of_testBit_eq
  intro bit
  rw [Nat.testBit_and]
  by_cases low : bit < unit
  · obtain ⟨units, rfl⟩ := divides
    rw [Nat.testBit_two_pow_mul, decide_eq_false (by omega), Bool.false_and,
      Bool.false_and]
  · by_cases high : bit < power
    · rw [bits bit (by omega) high, Bool.and_true]
    · have none : position.testBit bit = false := by
        apply Nat.testBit_lt_two_pow
        exact lt_of_lt_of_le small
          (Nat.pow_le_pow_right (by decide) (by omega))
      rw [none, Bool.false_and]

end

/-! ## Sizes that are no powers of two -/

section

variable {blockSize length unit : Nat}
variable (large : 2 ^ unit ≤ blockSize)
variable (noPower : ¬ blockSize.isPowerOfTwo)
include large noPower

/-- When shift and mask agree with division, the sequence ends before the
block size without its low bits, and the mask has all bits below its end. -/
theorem short_of_agrees
    (agrees : ∀ position, position < length → 2 ^ unit ∣ position →
      Agrees blockSize position) :
    length ≤ 2 ^ Nat.log2 blockSize ∧
      ∃ power, 2 ^ power ∣ roundUp (2 ^ unit) blockSize ∧
        length ≤ 2 ^ power := by
  have positive := lt_of_lt_of_le (Nat.two_pow_pos unit) large
  obtain ⟨low, high⟩ := log2_bounds positive noPower
  have above : unit ≤ Nat.log2 blockSize :=
    (Nat.le_log2 (Nat.ne_of_gt positive)).mpr large
  have short : length ≤ 2 ^ Nat.log2 blockSize := by
    by_contra long
    obtain ⟨quotients, _⟩ :=
      agrees (2 ^ Nat.log2 blockSize) (by omega) (Nat.pow_dvd_pow 2 above)
    rw [Nat.div_self (Nat.two_pow_pos _), Nat.div_eq_of_lt low] at quotients
    exact absurd quotients Nat.one_ne_zero
  refine ⟨short, max unit (Nat.clog 2 length), ?_, ?_⟩
  · rw [dvd_roundUp_iff positive (Nat.le_max_left _ _)]
    intro bit from_ below
    have inClog : bit < Nat.clog 2 length := by omega
    have inside : 2 ^ bit < length :=
      (Nat.lt_clog_iff_pow_lt Nat.one_lt_two).mp inClog
    obtain ⟨_, remainders⟩ :=
      agrees (2 ^ bit) inside (Nat.pow_dvd_pow 2 from_)
    rw [Nat.mod_eq_of_lt (by omega)] at remainders
    have same := congrArg (fun word => Nat.testBit word bit) remainders
    simpa using same
  · exact (Nat.le_pow_clog Nat.one_lt_two length).trans
      (Nat.pow_le_pow_right (by decide) (Nat.le_max_right _ _))

/-- A short sequence counts as one block when it fits, with the block size,
below the next power of two. -/
theorem count_iff_of_short
    (short : length ≤ 2 ^ Nat.log2 blockSize) :
    (length + blockSize - 1) / 2 ^ Nat.log2 blockSize =
        (length + blockSize - 1) / blockSize ↔
      0 < length ∧ length + blockSize ≤ 2 ^ (Nat.log2 blockSize + 1) := by
  have positive := lt_of_lt_of_le (Nat.two_pow_pos unit) large
  obtain ⟨low, high⟩ := log2_bounds positive noPower
  rw [Nat.pow_succ] at high ⊢
  generalize 2 ^ Nat.log2 blockSize = power at *
  by_cases none : length = 0
  · have one : (length + blockSize - 1) / power = 1 :=
      Nat.div_eq_of_lt_le (by omega) (by omega)
    rw [one, Nat.div_eq_of_lt (by omega)]
    omega
  · have one : (length + blockSize - 1) / blockSize = 1 :=
      Nat.div_eq_of_lt_le (by omega) (by omega)
    rw [one]
    constructor
    · intro count
      have bound := Nat.lt_mul_div_succ (length + blockSize - 1)
        (show 0 < power by omega)
      rw [count] at bound
      omega
    · intro fits
      exact Nat.div_eq_of_lt_le (by omega) (by omega)

/-- For a size that is no power of two, shift and mask count and address the
blocks of a sequence as division does only if there is one block, its rounded
size is no power of two either, and the sequence ends within a power of two
that divides that size. -/
theorem addresses_iff
    (divides : 2 ^ unit ∣ length) :
    ((length + blockSize - 1) / 2 ^ Nat.log2 blockSize =
          (length + blockSize - 1) / blockSize ∧
        ∀ position, position < length → 2 ^ unit ∣ position →
          Agrees blockSize position) ↔
      0 < length ∧ ¬ (roundUp (2 ^ unit) blockSize).isPowerOfTwo ∧
        ∃ power, 2 ^ power ∣ roundUp (2 ^ unit) blockSize ∧
          length ≤ 2 ^ power := by
  have positive := lt_of_lt_of_le (Nat.two_pow_pos unit) large
  obtain ⟨low, high⟩ := log2_bounds positive noPower
  have above : unit ≤ Nat.log2 blockSize :=
    (Nat.le_log2 (Nat.ne_of_gt positive)).mpr large
  have unitDivides : 2 ^ unit ∣ 2 ^ (Nat.log2 blockSize + 1) :=
    Nat.pow_dvd_pow 2 (by omega)
  have rounded := le_roundUp (2 ^ unit) blockSize
  constructor
  · rintro ⟨count, agrees⟩
    obtain ⟨short, bits⟩ := short_of_agrees large noPower agrees
    obtain ⟨some, fits⟩ :=
      (count_iff_of_short large noPower short).mp count
    refine ⟨some, ?_, bits⟩
    rintro ⟨shift, power⟩
    have unitLe := Nat.le_of_dvd some divides
    have below : roundUp (2 ^ unit) blockSize + 2 ^ unit ≤
        2 ^ (Nat.log2 blockSize + 1) := by
      have bound := @roundUp_le_of_dvd (2 ^ unit) blockSize
        (2 ^ (Nat.log2 blockSize + 1) - 2 ^ unit)
        (Nat.dvd_sub unitDivides (dvd_refl _)) (by omega)
      omega
    have unitPositive := Nat.two_pow_pos unit
    rw [power] at rounded below
    have first : Nat.log2 blockSize < shift :=
      (Nat.pow_lt_pow_iff_right Nat.one_lt_two).mp
        (lt_of_lt_of_le low rounded)
    have second : shift < Nat.log2 blockSize + 1 :=
      (Nat.pow_lt_pow_iff_right Nat.one_lt_two).mp (by omega)
    omega
  · rintro ⟨some, unrounded, power, powerDivides, inside⟩
    have bound : roundUp (2 ^ unit) blockSize ≤
        2 ^ (Nat.log2 blockSize + 1) :=
      roundUp_le_of_dvd unitDivides (Nat.le_of_lt high)
    have strict : roundUp (2 ^ unit) blockSize <
        2 ^ (Nat.log2 blockSize + 1) :=
      lt_of_le_of_ne bound fun same => unrounded ⟨_, same⟩
    have roundedPositive : 0 < roundUp (2 ^ unit) blockSize :=
      lt_of_lt_of_le positive rounded
    have powerLe := Nat.le_of_dvd roundedPositive powerDivides
    have exponent : power < Nat.log2 blockSize + 1 :=
      (Nat.pow_lt_pow_iff_right Nat.one_lt_two).mp (by omega)
    have powerLow : 2 ^ power ≤ 2 ^ Nat.log2 blockSize :=
      Nat.pow_le_pow_right (by decide) (by omega)
    have short : length ≤ 2 ^ Nat.log2 blockSize := by omega
    have room : roundUp (2 ^ unit) blockSize + 2 ^ power ≤
        2 ^ (Nat.log2 blockSize + 1) := by
      obtain ⟨quotient, quotientEq⟩ := powerDivides
      obtain ⟨limit, limitEq⟩ :=
        Nat.pow_dvd_pow 2 (Nat.le_of_lt exponent)
      rw [quotientEq, limitEq] at strict ⊢
      have fewer := Nat.lt_of_mul_lt_mul_left strict
      rw [← Nat.mul_succ]
      exact Nat.mul_le_mul_left _ fewer
    refine ⟨(count_iff_of_short large noPower short).mpr
      ⟨some, by omega⟩, ?_⟩
    intro position before positionDivides
    refine ⟨?_, ?_⟩
    · rw [Nat.div_eq_of_lt (by omega), Nat.div_eq_of_lt (by omega)]
    · rw [Nat.mod_eq_of_lt (by omega)]
      by_cases range : unit ≤ power
      · exact and_mask_eq_self positionDivides (by omega)
          ((dvd_roundUp_iff positive range).mp powerDivides)
      · have none : position = 0 := by
          apply Nat.eq_zero_of_dvd_of_lt positionDivides
          have wide : 2 ^ power ≤ 2 ^ unit :=
            Nat.pow_le_pow_right (by decide) (by omega)
          omega
        rw [none, Nat.zero_and]

end

end ShiftMask
