import Mathlib.Data.List.Perm.Basic
import Mathlib.Order.Lattice
import Mathlib.Tactic.Common

/-!
# Ordered association lists

A finite map as the list of its entries in increasing order of their keys, as
an iterator over a sorted container visits them.
-/

namespace OrderedMap

universe u v

variable {Key : Type u} {Value : Type v} [LinearOrder Key]

/-- Insert an entry, replacing one with the same key. -/
def insert (key : Key) (value : Value) (entries : List (Key × Value)) :
    List (Key × Value) :=
  (entries.filter fun entry => entry.1 < key) ++
    (key, value) :: entries.filter fun entry => key < entry.1

def erase (key : Key) (entries : List (Key × Value)) :
    List (Key × Value) :=
  entries.filter fun entry => entry.1 ≠ key

def find (key : Key) (entries : List (Key × Value)) : Option Value :=
  (entries.find? fun entry => entry.1 = key).map Prod.snd

/-- The keys increase. -/
def Sorted (entries : List (Key × Value)) : Prop :=
  entries.Pairwise fun first second => first.1 < second.1

variable {key other : Key} {value otherValue : Value}
variable {entries : List (Key × Value)}

@[simp]
theorem mem_insert :
    (other, otherValue) ∈ insert key value entries ↔
      (other = key ∧ otherValue = value) ∨
        (other ≠ key ∧ (other, otherValue) ∈ entries) := by
  simp only [insert, List.mem_append, List.mem_filter, List.mem_cons,
    Prod.mk.injEq, decide_eq_true_eq]
  constructor
  · rintro (⟨member, below⟩ | same | ⟨member, above⟩)
    · exact Or.inr ⟨below.ne, member⟩
    · exact Or.inl same
    · exact Or.inr ⟨above.ne', member⟩
  · rintro (same | ⟨different, member⟩)
    · exact Or.inr (Or.inl same)
    · rcases lt_or_gt_of_ne different with below | above
      · exact Or.inl ⟨member, below⟩
      · exact Or.inr (Or.inr ⟨member, above⟩)

@[simp]
theorem mem_erase :
    (other, otherValue) ∈ erase key entries ↔
      other ≠ key ∧ (other, otherValue) ∈ entries := by
  simp [erase, and_comm]

theorem sorted_insert (sorted : Sorted entries) :
    Sorted (insert key value entries) := by
  refine List.pairwise_append.mpr ⟨sorted.filter _,
    List.pairwise_cons.mpr ⟨?_, sorted.filter _⟩, ?_⟩
  · intro entry member
    simpa using (List.mem_filter.mp member).2
  · intro first before second after
    have below : first.1 < key := by
      simpa using (List.mem_filter.mp before).2
    rcases List.mem_cons.mp after with rfl | after
    · exact below
    · have above : key < second.1 := by
        simpa using (List.mem_filter.mp after).2
      exact below.trans above

theorem sorted_erase (sorted : Sorted entries) :
    Sorted (erase key entries) :=
  sorted.filter _

/-- Erasing the first entry. -/
theorem erase_head (sorted : Sorted ((key, value) :: entries)) :
    erase key ((key, value) :: entries) = entries := by
  obtain ⟨above, _⟩ := List.pairwise_cons.mp sorted
  rw [erase, List.filter_cons_of_neg (by simp), List.filter_eq_self]
  intro entry member
  simpa using (above entry member).ne'

theorem find_eq_some_iff (sorted : Sorted entries) :
    find key entries = some value ↔ (key, value) ∈ entries := by
  induction entries with
  | nil => simp [find]
  | cons entry entries inductionHypothesis =>
      obtain ⟨above, sorted⟩ := List.pairwise_cons.mp sorted
      by_cases same : entry.1 = key
      · have absent : (key, value) ∉ entries := fun member =>
          absurd same (above _ member).ne
        obtain ⟨entryKey, entryValue⟩ := entry
        obtain rfl : entryKey = key := same
        simp [find, absent, eq_comm]
      · have different : (key, value) ≠ entry := by
          rintro rfl
          exact same rfl
        simpa [find, same, different] using inductionHypothesis sorted

theorem find_eq_none_iff :
    find key entries = none ↔ ∀ value, (key, value) ∉ entries := by
  simp only [find, Option.map_eq_none_iff, List.find?_eq_none,
    decide_eq_true_eq]
  constructor
  · intro absent value member
    exact absent (key, value) member rfl
  · rintro absent ⟨entryKey, entryValue⟩ member rfl
    exact absent entryValue member

end OrderedMap
