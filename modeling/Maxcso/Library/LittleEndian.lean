import Mathlib.Data.List.Basic
import Mathlib.Tactic.Common
import Mathlib.Tactic.Ring

/-!
# Little-endian words

Fixed-width little-endian byte strings of natural numbers.
-/

namespace LittleEndian

/-- The low `width` bytes of `value`, least significant first. -/
def encode : (width value : Nat) → List UInt8
  | 0, _ => []
  | width + 1, value =>
      UInt8.ofNat (value % 256) :: encode width (value / 256)

def decode : List UInt8 → Nat
  | [] => 0
  | byte :: rest => byte.toNat + 256 * decode rest

@[simp]
theorem length_encode (width value : Nat) :
    (encode width value).length = width := by
  induction width generalizing value with
  | zero => rfl
  | succ width inductionHypothesis =>
      simp [encode, inductionHypothesis]

theorem decode_encode (width value : Nat) :
    decode (encode width value) = value % 256 ^ width := by
  induction width generalizing value with
  | zero =>
      simp [encode, decode, Nat.mod_one]
  | succ width inductionHypothesis =>
      have low : (UInt8.ofNat (value % 256)).toNat = value % 256 := by
        simp
      rw [encode, decode, low, inductionHypothesis, Nat.pow_succ',
        Nat.mod_mul]

theorem decode_encode_of_lt
    {width value : Nat} (small : value < 256 ^ width) :
    decode (encode width value) = value := by
  rw [decode_encode, Nat.mod_eq_of_lt small]

theorem decode_lt (bytes : List UInt8) :
    decode bytes < 256 ^ bytes.length := by
  induction bytes with
  | nil => simp [decode]
  | cons byte rest inductionHypothesis =>
      have byteBound : byte.toNat < 256 := byte.toNat_lt
      rw [decode, List.length_cons, Nat.pow_succ']
      omega

end LittleEndian
