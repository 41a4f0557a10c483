import Mathlib.Data.List.Perm.Basic
import Mathlib.Logic.Function.Basic
import Mathlib.Tactic.Common

/-!
# Pipelines with a window of live items

Items are numbered.  The items from `first` on that have been taken up are
live, each of them is held by a worker and is in some stage.  Items are taken
up in order and retired in order; in between their stages change in any order.

A container that lists live items by a label is described by `Tracks`: its
members are the items that are in certain stages.
-/

universe u v w

structure Pipeline (Worker : Type u) (Stage : Type v) where
  first : Nat
  /-- The holders of the live items, in the order of the items. -/
  owners : List Worker
  stage : Nat → Stage

namespace Pipeline

variable {Worker : Type u} {Stage : Type v} {Label : Type w}
variable (pipeline : Pipeline Worker Stage)

/-- The first item that has not been taken up. -/
def last : Nat := pipeline.first + pipeline.owners.length

/-- The worker holds the live item. -/
def Holds (worker : Worker) (item : Nat) : Prop :=
  pipeline.first ≤ item ∧
    pipeline.owners[item - pipeline.first]? = some worker

def empty (stage : Stage) : Pipeline Worker Stage :=
  ⟨0, [], fun _ => stage⟩

def claim (worker : Worker) (stage : Stage) : Pipeline Worker Stage where
  first := pipeline.first
  owners := pipeline.owners ++ [worker]
  stage := Function.update pipeline.stage pipeline.last stage

def setStage (item : Nat) (stage : Stage) : Pipeline Worker Stage where
  first := pipeline.first
  owners := pipeline.owners
  stage := Function.update pipeline.stage item stage

/-- The first live items change their stage together. -/
def mark (count : Nat) (stage : Stage) : Pipeline Worker Stage where
  first := pipeline.first
  owners := pipeline.owners
  stage := fun item =>
    if item < pipeline.first + count then stage else pipeline.stage item

def retire (count : Nat) : Pipeline Worker Stage where
  first := pipeline.first + count
  owners := pipeline.owners.drop count
  stage := pipeline.stage

section

variable {pipeline} {worker other : Worker} {item item' count : Nat}
variable {stage : Stage}

theorem Holds.lt_last (holds : pipeline.Holds worker item) :
    item < pipeline.last := by
  obtain ⟨inside, _⟩ := List.getElem?_eq_some_iff.mp holds.2
  have above := holds.1
  rw [last]
  omega

theorem exists_holds
    (above : pipeline.first ≤ item) (below : item < pipeline.last) :
    ∃ worker, pipeline.Holds worker item := by
  rw [last] at below
  have inside : item - pipeline.first < pipeline.owners.length := by omega
  exact ⟨_, above, List.getElem?_eq_getElem inside⟩

theorem Holds.worker_unique
    (holds : pipeline.Holds worker item)
    (holds' : pipeline.Holds other item) :
    worker = other :=
  Option.some.inj (holds.2.symm.trans holds'.2)

theorem Holds.item_unique
    (nodup : pipeline.owners.Nodup) (holds : pipeline.Holds worker item)
    (holds' : pipeline.Holds worker item') :
    item = item' := by
  have inside := (List.getElem?_eq_some_iff.mp holds.2).1
  have same := (List.getElem?_inj inside nodup).mp
    (holds.2.trans holds'.2.symm)
  have above := holds.1
  have above' := holds'.1
  omega

theorem Holds.mem (holds : pipeline.Holds worker item) :
    worker ∈ pipeline.owners :=
  List.mem_of_getElem? holds.2

theorem holds_first :
    pipeline.Holds worker pipeline.first ↔
      pipeline.owners.head? = some worker := by
  rw [Holds, Nat.sub_self, List.head?_eq_getElem?]
  exact and_iff_right (Nat.le_refl _)

@[simp]
theorem claim_last : (pipeline.claim worker stage).last =
    pipeline.last + 1 := by
  simp [last, claim, Nat.add_assoc]

@[simp]
theorem setStage_last : (pipeline.setStage item stage).last =
    pipeline.last := rfl

@[simp]
theorem mark_last : (pipeline.mark count stage).last = pipeline.last := rfl

@[simp]
theorem holds_mark :
    (pipeline.mark count stage).Holds worker item ↔
      pipeline.Holds worker item :=
  Iff.rfl

theorem mark_stage_of_lt (inside : item < pipeline.first + count) :
    (pipeline.mark count stage).stage item = stage :=
  if_pos inside

theorem mark_stage_of_le (outside : pipeline.first + count ≤ item) :
    (pipeline.mark count stage).stage item = pipeline.stage item :=
  if_neg (Nat.not_lt.mpr outside)

theorem retire_last (enough : count ≤ pipeline.owners.length) :
    (pipeline.retire count).last = pipeline.last := by
  simp only [last, retire, List.length_drop]
  omega

theorem holds_claim :
    (pipeline.claim worker stage).Holds other item ↔
      pipeline.Holds other item ∨
        (other = worker ∧ item = pipeline.last) := by
  simp only [Holds, claim, last]
  by_cases inside : item - pipeline.first < pipeline.owners.length
  · rw [List.getElem?_append_left inside]
    constructor
    · exact Or.inl
    · rintro (holds | ⟨_, rfl⟩)
      · exact holds
      · omega
  · rw [List.getElem?_append_right (Nat.not_lt.mp inside),
      List.getElem?_eq_none (Nat.not_lt.mp inside)]
    constructor
    · rintro ⟨above, found⟩
      obtain ⟨bound, same⟩ := List.getElem?_eq_some_iff.mp found
      simp only [List.length_singleton] at bound
      refine Or.inr ⟨?_, by omega⟩
      simpa using same.symm
    · rintro (missing | ⟨rfl, rfl⟩)
      · exact nomatch missing.2
      · simp

@[simp]
theorem holds_setStage :
    (pipeline.setStage item stage).Holds worker item' ↔
      pipeline.Holds worker item' :=
  Iff.rfl

theorem holds_retire :
    (pipeline.retire count).Holds worker item ↔
      pipeline.first + count ≤ item ∧ pipeline.Holds worker item := by
  simp only [Holds, retire, List.getElem?_drop]
  constructor
  · rintro ⟨above, found⟩
    have index : count + (item - (pipeline.first + count)) =
        item - pipeline.first := by omega
    rw [index] at found
    exact ⟨above, by omega, found⟩
  · rintro ⟨above, _, found⟩
    have index : count + (item - (pipeline.first + count)) =
        item - pipeline.first := by omega
    rw [index]
    exact ⟨above, found⟩

@[simp]
theorem claim_stage_last :
    (pipeline.claim worker stage).stage pipeline.last = stage :=
  Function.update_self _ _ _

theorem claim_stage_of_holds (holds : pipeline.Holds other item) :
    (pipeline.claim worker stage).stage item = pipeline.stage item :=
  Function.update_of_ne (Nat.ne_of_lt holds.lt_last) _ _

@[simp]
theorem setStage_stage_self :
    (pipeline.setStage item stage).stage item = stage :=
  Function.update_self _ _ _

theorem setStage_stage_of_ne (different : item' ≠ item) :
    (pipeline.setStage item stage).stage item' = pipeline.stage item' :=
  Function.update_of_ne different _ _

end

section

variable {pipeline} {worker : Worker} {item count : Nat}
variable {stage stage' : Stage}

@[simp]
theorem setStage_setStage :
    (pipeline.setStage item stage).setStage item stage' =
      pipeline.setStage item stage' := by
  simp [setStage]

/-- One more item is marked. -/
theorem mark_succ :
    (pipeline.mark count stage).setStage (pipeline.first + count) stage =
      pipeline.mark (count + 1) stage := by
  unfold setStage mark
  simp only [mk.injEq, true_and]
  funext item
  by_cases last : item = pipeline.first + count
  · subst last
    rw [Function.update_self, if_pos (by omega)]
  · rw [Function.update_of_ne last]
    by_cases inside : item < pipeline.first + count
    · rw [if_pos inside, if_pos (by omega)]
    · rw [if_neg inside, if_neg (by omega)]

end

/-! ## Containers of live items -/

/-- The members of a container are the live items in certain stages, each
under its label and with its worker. -/
def Tracks (label : Nat → Label) (staged : Stage → Prop)
    (member : Label → Worker → Prop) : Prop :=
  ∀ tag worker, member tag worker ↔
    ∃ item, tag = label item ∧ pipeline.Holds worker item ∧
      staged (pipeline.stage item)

/-- Different live items have different labels. -/
def Distinguishes (label : Nat → Label) : Prop :=
  ∀ item item', pipeline.first ≤ item → item < pipeline.last →
    pipeline.first ≤ item' → item' < pipeline.last →
      label item = label item' → item = item'

section

variable {pipeline} {label : Nat → Label} {staged : Stage → Prop}
variable {member member' : Label → Worker → Prop}
variable {worker : Worker} {item count : Nat} {stage : Stage}

theorem Tracks.of_holds
    (tracks : pipeline.Tracks label staged member)
    (holds : pipeline.Holds worker item)
    (inStage : staged (pipeline.stage item)) :
    member (label item) worker :=
  (tracks _ _).mpr ⟨item, rfl, holds, inStage⟩

/-- A container sees which live items are in its stages, and no more. -/
theorem Tracks.congr
    (tracks : pipeline.Tracks label staged member)
    {other : Pipeline Worker Stage} (first : other.first = pipeline.first)
    (owners : other.owners = pipeline.owners)
    (stages : ∀ item, pipeline.first ≤ item → item < pipeline.last →
      (staged (other.stage item) ↔ staged (pipeline.stage item))) :
    other.Tracks label staged member := by
  intro tag worker
  rw [tracks tag worker]
  apply exists_congr
  intro item
  have holds : other.Holds worker item ↔ pipeline.Holds worker item := by
    rw [Holds, Holds, first, owners]
  rw [holds]
  refine and_congr_right fun _ => and_congr_right fun held => ?_
  exact (stages item held.1 held.lt_last).symm

/-- A container of other stages does not notice a change of stage. -/
theorem Tracks.setStage_other
    (tracks : pipeline.Tracks label staged member)
    (same : staged stage ↔ staged (pipeline.stage item)) :
    (pipeline.setStage item stage).Tracks label staged member := by
  intro tag worker
  rw [tracks tag worker]
  apply exists_congr
  intro item'
  rw [holds_setStage]
  by_cases hit : item' = item
  · subst hit
    rw [setStage_stage_self, same]
  · rw [setStage_stage_of_ne hit]

/-- An item enters the stages of a container. -/
theorem Tracks.setStage_add
    (tracks : pipeline.Tracks label staged member)
    (holds : pipeline.Holds worker item) (enters : staged stage)
    (absent : ¬ staged (pipeline.stage item))
    (added : ∀ tag other, member' tag other ↔
      (tag = label item ∧ other = worker) ∨ member tag other) :
    (pipeline.setStage item stage).Tracks label staged member' := by
  intro tag other
  rw [added, tracks]
  constructor
  · rintro (⟨rfl, rfl⟩ | ⟨item', same, holds', inStage⟩)
    · exact ⟨item, rfl, holds, by rwa [setStage_stage_self]⟩
    · have different : item' ≠ item := by
        rintro rfl
        exact absent inStage
      exact ⟨item', same, holds', by rwa [setStage_stage_of_ne different]⟩
  · rintro ⟨item', same, holds', inStage⟩
    by_cases hit : item' = item
    · subst hit
      exact Or.inl ⟨same, Holds.worker_unique holds' holds⟩
    · rw [setStage_stage_of_ne hit] at inStage
      exact Or.inr ⟨item', same, holds', inStage⟩

/-- An item leaves the stages of a container. -/
theorem Tracks.setStage_remove
    (tracks : pipeline.Tracks label staged member)
    (leaves : ¬ staged stage)
    (removed : ∀ tag other, member' tag other ↔
      member tag other ∧ ¬ (tag = label item ∧ pipeline.Holds other item))
    (distinguishes : pipeline.Distinguishes label)
    (holds : pipeline.Holds worker item) :
    (pipeline.setStage item stage).Tracks label staged member' := by
  intro tag other
  rw [removed, tracks]
  constructor
  · rintro ⟨⟨item', rfl, holds', inStage⟩, kept⟩
    have different : item' ≠ item := by
      rintro rfl
      exact kept ⟨rfl, holds'⟩
    exact ⟨item', rfl, holds', by rwa [setStage_stage_of_ne different]⟩
  · rintro ⟨item', rfl, holds', inStage⟩
    by_cases hit : item' = item
    · subst hit
      rw [setStage_stage_self] at inStage
      exact absurd inStage leaves
    · rw [setStage_stage_of_ne hit] at inStage
      refine ⟨⟨item', rfl, holds', inStage⟩, fun same => hit ?_⟩
      exact distinguishes _ _ holds'.1 (Holds.lt_last holds') holds.1
        (Holds.lt_last holds) same.1

/-- A new item in another stage. -/
theorem Tracks.claim_other
    (tracks : pipeline.Tracks label staged member)
    (outside : ¬ staged stage) :
    (pipeline.claim worker stage).Tracks label staged member := by
  intro tag other
  rw [tracks tag other]
  apply exists_congr
  intro item
  rw [holds_claim]
  constructor
  · rintro ⟨same, holds, inStage⟩
    exact ⟨same, Or.inl holds, by rwa [claim_stage_of_holds holds]⟩
  · rintro ⟨same, holds | ⟨rfl, rfl⟩, inStage⟩
    · rw [claim_stage_of_holds holds] at inStage
      exact ⟨same, holds, inStage⟩
    · rw [claim_stage_last] at inStage
      exact absurd inStage outside

/-- A new item in a stage of the container. -/
theorem Tracks.claim_add
    (tracks : pipeline.Tracks label staged member) (enters : staged stage)
    (added : ∀ tag other, member' tag other ↔
      (tag = label pipeline.last ∧ other = worker) ∨ member tag other) :
    (pipeline.claim worker stage).Tracks label staged member' := by
  intro tag other
  rw [added, tracks]
  constructor
  · rintro (⟨rfl, rfl⟩ | ⟨item, same, holds, inStage⟩)
    · exact ⟨pipeline.last, rfl, holds_claim.mpr (Or.inr ⟨rfl, rfl⟩),
        by rwa [claim_stage_last]⟩
    · exact ⟨item, same, holds_claim.mpr (Or.inl holds),
        by rwa [claim_stage_of_holds holds]⟩
  · rintro ⟨item, same, holds, inStage⟩
    rcases holds_claim.mp holds with holds | ⟨rfl, rfl⟩
    · rw [claim_stage_of_holds holds] at inStage
      exact Or.inr ⟨item, same, holds, inStage⟩
    · exact Or.inl ⟨same, rfl⟩

/-- Items outside the stages of a container are retired. -/
theorem Tracks.retire
    (tracks : pipeline.Tracks label staged member)
    (outside : ∀ item, pipeline.first ≤ item →
      item < pipeline.first + count → ¬ staged (pipeline.stage item)) :
    (pipeline.retire count).Tracks label staged member := by
  intro tag other
  rw [tracks tag other]
  apply exists_congr
  intro item
  rw [holds_retire]
  constructor
  · rintro ⟨same, holds, inStage⟩
    refine ⟨same, ⟨?_, holds⟩, inStage⟩
    by_contra early
    exact outside item holds.1 (by omega) inStage
  · rintro ⟨same, ⟨_, holds⟩, inStage⟩
    exact ⟨same, holds, inStage⟩

end

end Pipeline
