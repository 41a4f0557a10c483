import Mathlib.Algebra.Order.Ring.Int
import Mathlib.Data.List.Nodup
import Maxcso.Library.OrderedMap

/-!
# Reordering queues

Values belong to the multiples of a stride, and arrive in any order.  Those
that come too early wait in a map that is ordered by position, and leave it
as soon as all values before them have come.
-/

namespace ReorderQueue

universe u

variable {Value : Type u}

/-- The position that is expected next, and what came too early. -/
structure Queue (Value : Type u) where
  next : Int
  waiting : List (Int × Value)

/-- The values at the front of the map that follow on. -/
def flush (stride : Int) :
    Int → List (Int × Value) → List Value × Queue Value
  | next, [] => ([], ⟨next, []⟩)
  | next, (key, value) :: waiting =>
      if key = next then
        let rest := flush stride (next + stride) waiting
        (value :: rest.1, rest.2)
      else
        ([], ⟨next, (key, value) :: waiting⟩)

/-- A value leaves at once when it is expected, with those that follow on. -/
def arrive (stride : Int) (queue : Queue Value) (key : Int)
    (value : Value) : List Value × Queue Value :=
  if queue.next = key then
    let rest := flush stride (queue.next + stride) queue.waiting
    (value :: rest.1, rest.2)
  else
    ([], { queue with waiting := OrderedMap.insert key value queue.waiting })

/-- The first so many values have left, and the others that came wait. -/
structure InOrder (stride : Int) (values : Nat → Value) (seen : List Nat)
    (count : Nat) (queue : Queue Value) : Prop where
  next : queue.next = stride * count
  before : ∀ index < count, index ∈ seen
  absent : count ∉ seen
  sorted : OrderedMap.Sorted queue.waiting
  waiting : ∀ key value, (key, value) ∈ queue.waiting ↔
    ∃ index ∈ seen, count < index ∧ key = stride * index ∧
      value = values index

section

variable {stride : Int} {values : Nat → Value} {seen : List Nat}
variable {count : Nat} {queue : Queue Value}

theorem inOrder_nil : InOrder stride values [] 0 ⟨0, []⟩ where
  next := by simp
  before := nofun
  absent := nofun
  sorted := List.Pairwise.nil
  waiting := by simp

theorem stride_lt (positive : 0 < stride) {first second : Nat} :
    stride * (first : Int) < stride * second ↔ first < second := by
  rw [mul_lt_mul_iff_right₀ positive, Int.ofNat_lt]

theorem stride_inj (positive : 0 < stride) {first second : Nat} :
    stride * (first : Int) = stride * second ↔ first = second := by
  rw [mul_right_inj' positive.ne', Int.ofNat_inj]

/-- Flushing lets go of consecutive values, up to the first that has not
come. -/
theorem flush_inOrder (positive : 0 < stride) {waiting : List (Int × Value)}
    (sorted : OrderedMap.Sorted waiting)
    (before : ∀ index < count, index ∈ seen)
    (same : ∀ key value, (key, value) ∈ waiting ↔
      ∃ index ∈ seen, count ≤ index ∧ key = stride * index ∧
        value = values index) :
    ∃ more, (flush stride (stride * count) waiting).1 =
        (List.range' count more).map values ∧
      InOrder stride values seen (count + more)
        (flush stride (stride * count) waiting).2 := by
  induction waiting generalizing count with
  | nil =>
      refine ⟨0, by simp [flush], ?_⟩
      have absent : ∀ index ∈ seen, ¬ count ≤ index := by
        intro index member below
        exact nomatch (same _ _).mpr ⟨index, member, below, rfl, rfl⟩
      rw [flush]
      refine ⟨rfl, before, fun member => absent count member (Nat.le_refl _),
        sorted, ?_⟩
      intro key value
      refine iff_of_false List.not_mem_nil ?_
      rintro ⟨index, member, above, _⟩
      exact absent index member above.le
  | cons entry waiting inductionHypothesis =>
      obtain ⟨key, value⟩ := entry
      obtain ⟨above, sorted'⟩ := List.pairwise_cons.mp sorted
      obtain ⟨first, member, le, place, content⟩ :=
        (same key value).mp List.mem_cons_self
      rw [flush]
      by_cases expected : key = stride * count
      · obtain rfl : first = count :=
          (stride_inj positive).mp (place.symm.trans expected)
        have rest : ∀ key' value', (key', value') ∈ waiting ↔
            ∃ index ∈ seen, first + 1 ≤ index ∧ key' = stride * index ∧
              value' = values index := by
          intro key' value'
          constructor
          · intro inside
            obtain ⟨index, member', _, rfl, rfl⟩ :=
              (same _ _).mp (List.mem_cons_of_mem _ inside)
            have later := above _ inside
            rw [place] at later
            exact ⟨index, member', (stride_lt positive).mp later, rfl, rfl⟩
          · rintro ⟨index, member', later, rfl, rfl⟩
            have inside := (same _ _).mpr
              ⟨index, member', Nat.le_of_succ_le later, rfl, rfl⟩
            rcases List.mem_cons.mp inside with first | inside
            · have equal := congrArg Prod.fst first
              rw [place] at equal
              have := (stride_inj positive).mp equal
              omega
            · exact inside
        obtain ⟨more, emitted, ordered⟩ := inductionHypothesis sorted'
          (fun index below => by
            rcases Nat.lt_succ_iff_lt_or_eq.mp below with below | rfl
            · exact before index below
            · exact member) rest
        have advance : stride * (first : Int) + stride =
            stride * (first + 1 : Nat) := by
          rw [Int.natCast_add, Int.mul_add, Int.natCast_one, Int.mul_one]
        simp only [if_pos expected, advance]
        refine ⟨more + 1, ?_, ?_⟩
        · rw [emitted, content, List.range'_succ, List.map_cons]
        · rw [show first + (more + 1) = first + 1 + more by omega]
          exact ordered
      · simp only [if_neg expected]
        have less : count < first :=
          Nat.lt_of_le_of_ne le fun equal => expected (equal ▸ place)
        have absent : count ∉ seen := by
          intro inside
          rcases List.mem_cons.mp
            ((same _ _).mpr ⟨count, inside, Nat.le_refl _, rfl, rfl⟩) with
            first' | later
          · exact expected (congrArg Prod.fst first').symm
          · have ahead := above _ later
            rw [place] at ahead
            have := (stride_lt positive).mp ahead
            omega
        refine ⟨0, by simp, rfl, before, absent, sorted, ?_⟩
        intro key' value'
        rw [same]
        constructor
        · rintro ⟨index, inside, below, rest⟩
          refine ⟨index, inside, Nat.lt_of_le_of_ne below ?_, rest⟩
          rintro rfl
          exact absent inside
        · rintro ⟨index, inside, below, rest⟩
          exact ⟨index, inside, below.le, rest⟩

/-- What arrives is let go of in order. -/
theorem arrive_inOrder (positive : 0 < stride)
    (ordered : InOrder stride values seen count queue) {index : Nat}
    (fresh : index ∉ seen) :
    ∃ more, (arrive stride queue (stride * index) (values index)).1 =
        (List.range' count more).map values ∧
      InOrder stride values (seen ++ [index]) (count + more)
        (arrive stride queue (stride * index) (values index)).2 := by
  obtain ⟨next, waiting⟩ := queue
  obtain ⟨rfl, before, absent, sorted, same⟩ := ordered
  have before' : ∀ other < count, other ∈ seen ++ [index] :=
    fun other below => List.mem_append_left _ (before other below)
  unfold arrive
  by_cases expected : stride * (count : Int) = stride * index
  · obtain rfl : count = index := (stride_inj positive).mp expected
    have advance : stride * (count : Int) + stride =
        stride * (count + 1 : Nat) := by
      rw [Int.natCast_add, Int.mul_add, Int.natCast_one, Int.mul_one]
    have same' : ∀ key value, (key, value) ∈ waiting ↔
        ∃ other ∈ seen ++ [count], count + 1 ≤ other ∧
          key = stride * other ∧ value = values other := by
      intro key value
      rw [same]
      constructor
      · rintro ⟨other, inside, rest⟩
        exact ⟨other, List.mem_append_left _ inside, rest⟩
      · rintro ⟨other, inside, later, rest⟩
        rcases List.mem_append.mp inside with inside | last
        · exact ⟨other, inside, later, rest⟩
        · have := List.mem_singleton.mp last
          omega
    obtain ⟨more, emitted, ordered⟩ := flush_inOrder positive sorted
      (fun other below => by
        rcases Nat.lt_succ_iff_lt_or_eq.mp below with below | rfl
        · exact before' other below
        · simp) same'
    simp only [if_true, advance]
    refine ⟨more + 1, ?_, ?_⟩
    · rw [emitted, List.range'_succ, List.map_cons]
    · rw [show count + (more + 1) = count + 1 + more by omega]
      exact ordered
  · have other : count ≠ index := fun same => expected (same ▸ rfl)
    rw [if_neg expected]
    refine ⟨0, rfl, rfl, before', ?_, OrderedMap.sorted_insert sorted, ?_⟩
    · simpa using ⟨absent, other⟩
    · intro key value
      have above : count < index ∨ index < count :=
        Nat.lt_or_gt_of_ne other
      have later : count < index :=
        above.resolve_right fun below => fresh (before index below)
      simp only [OrderedMap.mem_insert, same, List.mem_append,
        List.mem_singleton]
      constructor
      · rintro (⟨rfl, rfl⟩ | ⟨_, held, inside, rest⟩)
        · exact ⟨index, Or.inr rfl, later, rfl, rfl⟩
        · exact ⟨held, Or.inl inside, rest⟩
      · rintro ⟨held, inside | rfl, below, rfl, rfl⟩
        · refine Or.inr ⟨fun same => ?_, held, inside, below, rfl, rfl⟩
          exact fresh ((stride_inj positive).mp same ▸ inside)
        · exact Or.inl ⟨rfl, rfl⟩

/-- What came has left or waits. -/
theorem InOrder.waiting_perm (positive : 0 < stride)
    (ordered : InOrder stride values seen count queue)
    (nodup : seen.Nodup) :
    queue.waiting.Perm
        ((seen.filter (count < ·)).map fun (index : Nat) =>
          (stride * (index : Int), values index)) ∧
      seen.Perm (List.range count ++ seen.filter (count < ·)) := by
  constructor
  · refine (List.perm_ext_iff_of_nodup ?_ ?_).mpr ?_
    · exact ordered.sorted.imp fun less same => absurd less (by simp [same])
    · refine List.Nodup.map ?_ (nodup.filter _)
      intro first second same
      exact (stride_inj positive).mp (congrArg Prod.fst same)
    · rintro ⟨key, value⟩
      rw [ordered.waiting, List.mem_map]
      constructor
      · rintro ⟨index, member, later, rfl, rfl⟩
        exact ⟨index, List.mem_filter.mpr ⟨member, decide_eq_true later⟩, rfl⟩
      · rintro ⟨index, member, same⟩
        obtain ⟨member, later⟩ := List.mem_filter.mp member
        exact ⟨index, member, of_decide_eq_true later,
          (congrArg Prod.fst same).symm, (congrArg Prod.snd same).symm⟩
  · refine (List.perm_ext_iff_of_nodup nodup ?_).mpr ?_
    · refine List.nodup_append.mpr
        ⟨List.nodup_range, nodup.filter _, ?_⟩
      intro first early second late
      have := List.mem_range.mp early
      have := of_decide_eq_true (List.mem_filter.mp late).2
      omega
    · intro index
      rw [List.mem_append, List.mem_range, List.mem_filter,
        decide_eq_true_eq]
      constructor
      · intro member
        have other : index ≠ count :=
          fun same => ordered.absent (same ▸ member)
        rcases Nat.lt_or_ge index count with below | above
        · exact Or.inl below
        · exact Or.inr ⟨member, by omega⟩
      · rintro (below | ⟨member, _⟩)
        · exact ordered.before index below
        · exact member

/-- When all have come, all have left. -/
theorem InOrder.complete
    (ordered : InOrder stride values seen count queue) {total : Nat}
    (all : seen.Perm (List.range total)) :
    count = total ∧ queue.waiting = [] := by
  have inside : ∀ index, index ∈ seen ↔ index < total :=
    fun index => all.mem_iff.trans List.mem_range
  have most : count ≤ total := by
    by_contra beyond
    have := (inside total).mp (ordered.before total (by omega))
    omega
  have least : ¬ count < total :=
    fun below => ordered.absent ((inside count).mpr below)
  refine ⟨by omega, List.eq_nil_iff_forall_not_mem.mpr ?_⟩
  rintro ⟨key, value⟩ member
  obtain ⟨index, came, later, _⟩ := (ordered.waiting key value).mp member
  have := (inside index).mp came
  omega

/-- Before all have come, not all have left. -/
theorem InOrder.incomplete
    (ordered : InOrder stride values seen count queue) {total index : Nat}
    (missing : index < total) (absent : index ∉ seen) :
    count < total := by
  rcases Nat.lt_or_ge index count with below | least
  · exact absurd (ordered.before index below) absent
  · omega

end

end ReorderQueue
