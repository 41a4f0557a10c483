import Mathlib.Data.Nat.Bitwise
import Mathlib.Tactic.Common

/-!
# Words of flags

Unsigned words as sets of bits: the word of a list of members that each stand
for some bits, and the word without the bits of another.
-/

namespace FlagWord

universe u

variable {alpha : Type u}

/-- The bits of all members. -/
def union (mask : alpha → Nat) (members : List alpha) : Nat :=
  members.foldl (fun word member => word ||| mask member) 0

/-- `word & ~mask` in a word of `width` bits. -/
def without (width word mask : Nat) : Nat :=
  word &&& (2 ^ width - 1 ^^^ mask)

theorem testBit_foldl
    (mask : alpha → Nat) (members : List alpha) (word bit : Nat) :
    (members.foldl (fun word member => word ||| mask member) word).testBit
        bit =
      (word.testBit bit || members.any fun member =>
        (mask member).testBit bit) := by
  induction members generalizing word with
  | nil => simp
  | cons member members inductionHypothesis =>
      rw [List.foldl_cons, inductionHypothesis, Nat.testBit_or,
        List.any_cons, Bool.or_assoc]

@[simp]
theorem testBit_union
    (mask : alpha → Nat) (members : List alpha) (bit : Nat) :
    (union mask members).testBit bit =
      members.any fun member => (mask member).testBit bit := by
  rw [union, testBit_foldl, Nat.zero_testBit, Bool.false_or]

theorem testBit_without
    {width bit : Nat} (inside : bit < width) (word mask : Nat) :
    (without width word mask).testBit bit =
      (word.testBit bit && !mask.testBit bit) := by
  rw [without, Nat.testBit_and, Nat.testBit_xor,
    Nat.testBit_two_pow_sub_one]
  simp [inside]

/-- A word has a flag when it shares a bit with its mask. -/
theorem and_eq_zero_iff (word mask : Nat) :
    word &&& mask = 0 ↔
      ∀ bit, mask.testBit bit = true → word.testBit bit = false := by
  constructor
  · intro none bit set
    have off := congrArg (fun both => both.testBit bit) none
    simpa [set] using off
  · intro off
    apply Nat.eq_of_testBit_eq
    intro bit
    rw [Nat.testBit_and, Nat.zero_testBit]
    cases set : mask.testBit bit with
    | false => exact Bool.and_false _
    | true => rw [off bit set, Bool.false_and]

/-- A word has all flags of a mask. -/
theorem and_eq_mask_iff (word mask : Nat) :
    word &&& mask = mask ↔
      ∀ bit, mask.testBit bit = true → word.testBit bit = true := by
  constructor
  · intro all bit set
    have on := congrArg (fun both => both.testBit bit) all
    simpa [set] using on
  · intro on
    apply Nat.eq_of_testBit_eq
    intro bit
    rw [Nat.testBit_and]
    cases set : mask.testBit bit with
    | false => exact Bool.and_false _
    | true => rw [on bit set, Bool.true_and]

theorem and_two_pow_eq_zero_iff (word bit : Nat) :
    word &&& 2 ^ bit = 0 ↔ word.testBit bit = false := by
  rw [and_eq_zero_iff]
  constructor
  · intro off
    exact off bit (by rw [Nat.testBit_two_pow_self])
  · intro off other set
    rw [Nat.testBit_two_pow, decide_eq_true_eq] at set
    rwa [← set]

theorem and_or_eq_zero_iff (word first second : Nat) :
    word &&& (first ||| second) = 0 ↔
      word &&& first = 0 ∧ word &&& second = 0 := by
  rw [Nat.and_or_distrib_left, Nat.or_eq_zero_iff]

end FlagWord
