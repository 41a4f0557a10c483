import Mathlib.Algebra.BigOperators.Group.Finset.Basic
import Mathlib.Algebra.Order.BigOperators.Group.Finset
import Mathlib.Algebra.BigOperators.Intervals
import Maxcso.Library.Pipeline

/-!
# The work left in a pipeline

When every stage has a cost, the costs of the live items add up to a measure
that decreases as items move on to cheaper stages and leave.
-/

open Finset

universe u v

namespace Pipeline

variable {Worker : Type u} {Stage : Type v}
variable (cost : Stage → Nat) (pipeline : Pipeline Worker Stage)

def work : Nat :=
  ∑ item ∈ Ico pipeline.first pipeline.last, cost (pipeline.stage item)

section

variable {cost pipeline} {worker : Worker} {item count : Nat}
variable {stage : Stage}

/-- A live item goes to another stage. -/
theorem work_setStage (holds : pipeline.Holds worker item) :
    (pipeline.setStage item stage).work cost + cost (pipeline.stage item) =
      pipeline.work cost + cost stage := by
  have live : item ∈ Ico pipeline.first pipeline.last :=
    mem_Ico.mpr ⟨holds.1, holds.lt_last⟩
  have others : ∀ other ∈ (Ico pipeline.first pipeline.last).erase item,
      cost ((pipeline.setStage item stage).stage other) =
        cost (pipeline.stage other) := by
    intro other member
    rw [setStage_stage_of_ne (ne_of_mem_erase member)]
  have before := add_sum_erase (Ico pipeline.first pipeline.last)
    (fun item => cost (pipeline.stage item)) live
  have after := add_sum_erase (Ico pipeline.first pipeline.last)
    (fun other => cost ((pipeline.setStage item stage).stage other)) live
  rw [sum_congr rfl others] at after
  simp only [setStage_stage_self] at after
  have bounds : (pipeline.setStage item stage).work cost =
      ∑ other ∈ Ico pipeline.first pipeline.last,
        cost ((pipeline.setStage item stage).stage other) := rfl
  rw [bounds, work]
  omega

/-- A new item is taken up. -/
theorem work_claim :
    (pipeline.claim worker stage).work cost =
      pipeline.work cost + cost stage := by
  have live : pipeline.first ≤ pipeline.last := Nat.le_add_right _ _
  have others : ∀ item ∈ Ico pipeline.first pipeline.last,
      cost ((pipeline.claim worker stage).stage item) =
        cost (pipeline.stage item) := by
    intro item member
    have different : item ≠ pipeline.last :=
      Nat.ne_of_lt (mem_Ico.mp member).2
    exact congrArg cost (Function.update_of_ne different _ _)
  have bounds : (pipeline.claim worker stage).work cost =
      ∑ item ∈ Ico pipeline.first (pipeline.last + 1),
        cost ((pipeline.claim worker stage).stage item) := by
    rw [work, claim_last]
    rfl
  rw [bounds, sum_Ico_succ_top live, sum_congr rfl others,
    claim_stage_last, work]

/-- The first item of a pipeline has its share. -/
theorem work_first (live : pipeline.first < pipeline.last) :
    pipeline.work cost = cost (pipeline.stage pipeline.first) +
      ∑ item ∈ Ico (pipeline.first + 1) pipeline.last,
        cost (pipeline.stage item) :=
  sum_eq_sum_Ico_succ_bot live _

/-- The first items go to a stage without cost. -/
theorem work_mark_add_le
    (free : cost stage = 0) (positive : 0 < count)
    (live : pipeline.first < pipeline.last) :
    (pipeline.mark count stage).work cost +
        cost (pipeline.stage pipeline.first) ≤
      pipeline.work cost := by
  have less : ∀ item ∈ Ico (pipeline.first + 1) pipeline.last,
      cost ((pipeline.mark count stage).stage item) ≤
        cost (pipeline.stage item) := by
    intro item _
    by_cases inside : item < pipeline.first + count
    · rw [mark_stage_of_lt inside, free]
      exact Nat.zero_le _
    · rw [mark_stage_of_le (Nat.not_lt.mp inside)]
  have head : cost ((pipeline.mark count stage).stage pipeline.first) = 0 := by
    rw [mark_stage_of_lt (Nat.lt_add_of_pos_right positive), free]
  have marked : (pipeline.mark count stage).work cost =
      cost ((pipeline.mark count stage).stage pipeline.first) +
        ∑ item ∈ Ico (pipeline.first + 1) pipeline.last,
          cost ((pipeline.mark count stage).stage item) :=
    work_first live
  rw [marked, head, work_first live]
  have rest := sum_le_sum less
  omega

/-- The first items leave. -/
theorem work_retire_add_le
    (positive : 0 < count) (live : pipeline.first < pipeline.last)
    (enough : count ≤ pipeline.owners.length) :
    (pipeline.retire count).work cost +
        cost (pipeline.stage pipeline.first) ≤
      pipeline.work cost := by
  have bounds : (pipeline.retire count).work cost =
      ∑ item ∈ Ico (pipeline.first + count) pipeline.last,
        cost (pipeline.stage item) := by
    rw [work, retire_last enough]
    rfl
  have fewer : ∑ item ∈ Ico (pipeline.first + count) pipeline.last,
        cost (pipeline.stage item) ≤
      ∑ item ∈ Ico (pipeline.first + 1) pipeline.last,
        cost (pipeline.stage item) := by
    apply sum_le_sum_of_subset
    exact Ico_subset_Ico_left (by omega)
  rw [bounds, work_first live]
  omega

end

end Pipeline
