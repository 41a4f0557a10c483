import Mathlib.Algebra.Order.Group.Nat
import Mathlib.Tactic.Common
import Mathlib.Tactic.Ring

/-!
# Rounding up to a multiple

`roundUp step value` is the least multiple of `step` that is at least
`value`.
-/

namespace RoundUp

def roundUp (step value : Nat) : Nat :=
  if value % step = 0 then value else value + (step - value % step)

theorem le_roundUp (step value : Nat) : value ≤ roundUp step value := by
  unfold roundUp
  split <;> omega

theorem dvd_roundUp {step : Nat} (positive : 0 < step) (value : Nat) :
    step ∣ roundUp step value := by
  unfold roundUp
  split
  · exact Nat.dvd_of_mod_eq_zero ‹_›
  · have small := Nat.mod_lt value positive
    have split := Nat.div_add_mod value step
    refine ⟨value / step + 1, ?_⟩
    rw [Nat.mul_add, Nat.mul_one]
    omega

theorem roundUp_eq_self {step value : Nat} (aligned : step ∣ value) :
    roundUp step value = value := by
  simp [roundUp, Nat.mod_eq_zero_of_dvd aligned]

theorem roundUp_lt_add
    {step : Nat} (positive : 0 < step) (value : Nat) :
    roundUp step value < value + step := by
  unfold roundUp
  split <;> omega

/-- Minimality: a multiple of `step` above `value` is above its round-up. -/
theorem roundUp_le_of_dvd
    {step value bound : Nat} (aligned : step ∣ bound)
    (above : value ≤ bound) :
    roundUp step value ≤ bound := by
  rcases Nat.eq_zero_or_pos step with rfl | positive
  · have zero : bound = 0 := Nat.eq_zero_of_zero_dvd aligned
    have valueZero : value = 0 := by omega
    simp [roundUp, zero, valueZero]
  · obtain ⟨first, firstEq⟩ := dvd_roundUp positive value
    obtain ⟨second, rfl⟩ := aligned
    have strict := roundUp_lt_add positive value
    rw [firstEq] at strict ⊢
    have quotient : first < second + 1 := by
      by_contra large
      have wide : step * (second + 1) ≤ step * first :=
        Nat.mul_le_mul_left step (by omega)
      rw [Nat.mul_add] at wide
      omega
    exact Nat.mul_le_mul_left step (by omega)

theorem roundUp_mono {step first second : Nat} (positive : 0 < step)
    (order : first ≤ second) :
    roundUp step first ≤ roundUp step second :=
  roundUp_le_of_dvd (dvd_roundUp positive second)
    (order.trans (le_roundUp step second))

theorem roundUp_add_left
    {step base : Nat} (aligned : step ∣ base) (value : Nat) :
    roundUp step (base + value) = base + roundUp step value := by
  obtain ⟨factor, rfl⟩ := aligned
  unfold roundUp
  rw [Nat.mul_add_mod]
  split <;> omega

end RoundUp
