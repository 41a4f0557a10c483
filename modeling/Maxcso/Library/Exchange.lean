import Mathlib.Algebra.Group.Basic
import Mathlib.Tactic.Common

/-!
# Exchanges of resources

An account is a property of the resources that its holders have together.  A
step exchanges resources when it takes some of them and leaves others,
whatever is held besides.
-/

universe u

variable {Resource : Type u} [AddCommMonoid Resource]

/-- Whoever held `given` under the account before holds `kept` under the one
after. -/
def Exchange (before : Resource → Prop) (given : Resource)
    (after : Resource → Prop) (kept : Resource) : Prop :=
  ∀ others, before (given + others) → after (kept + others)

namespace Exchange

variable {first second third : Resource → Prop}
variable {given kept last : Resource}

theorem refl (account : Resource → Prop) (held : Resource) :
    Exchange account held account held :=
  fun _ holds => holds

theorem trans (before : Exchange first given second kept)
    (after : Exchange second kept third last) :
    Exchange first given third last :=
  fun others holds => after others (before others holds)

/-- What is held besides does not matter. -/
theorem frame (exchange : Exchange first given second kept)
    (more : Resource) :
    Exchange first (given + more) second (kept + more) := by
  intro others holds
  rw [add_assoc] at holds ⊢
  exact exchange (more + others) holds

/-- The same with what is held besides in front. -/
theorem frame_left (more : Resource)
    (exchange : Exchange first given second kept) :
    Exchange first (more + given) second (more + kept) := by
  rw [add_comm more given, add_comm more kept]
  exact exchange.frame more

/-- What is kept under another description. -/
theorem keeping {other : Resource}
    (exchange : Exchange first given second kept) (same : other = kept) :
    Exchange first given second other := by
  rw [same]
  exact exchange

/-- Nothing is lost, so no excuse is needed. -/
theorem lossless {excuse : Prop}
    (exchange : Exchange first given second kept) :
    ∃ lost, Exchange first given second (kept + lost) ∧
      (lost = 0 ∨ excuse) :=
  ⟨0, exchange.keeping (add_zero kept), Or.inl rfl⟩

end Exchange
