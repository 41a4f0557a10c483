import Mathlib.Data.List.GetD
import Mathlib.Tactic.Common

/-!
# Flat memories

A buffer of unknown previous content is a total function from offsets to
values.  Reading a range gives a list; writing a list overlays it and leaves
every other offset alone.
-/

namespace FlatMemory

universe u

variable {alpha : Type u}

/-- The values at `offset, ..., offset + length - 1`. -/
def read (memory : Nat → alpha) (offset length : Nat) : List alpha :=
  (List.range length).map fun index => memory (offset + index)

/-- Overlay `values` from `offset` on. -/
def write (memory : Nat → alpha) (offset : Nat) (values : List alpha) :
    Nat → alpha :=
  fun index =>
    if offset ≤ index then
      (values[index - offset]?).getD (memory index)
    else
      memory index

@[simp]
theorem length_read (memory : Nat → alpha) (offset length : Nat) :
    (read memory offset length).length = length := by
  simp [read]

theorem getElem_read (memory : Nat → alpha) (offset length index : Nat)
    (inside : index < (read memory offset length).length) :
    (read memory offset length)[index] = memory (offset + index) := by
  simp [read]

/-- Two memories that agree on a range read the same there. -/
theorem read_congr
    {first second : Nat → alpha} {offset length : Nat}
    (agree : ∀ index, index < length →
      first (offset + index) = second (offset + index)) :
    read first offset length = read second offset length := by
  apply List.map_congr_left
  intro index member
  exact agree index (List.mem_range.mp member)

theorem read_add (memory : Nat → alpha) (offset first second : Nat) :
    read memory offset (first + second) =
      read memory offset first ++ read memory (offset + first) second := by
  simp [read, List.range_add, Function.comp_def, Nat.add_assoc]

theorem take_read (memory : Nat → alpha) {offset length count : Nat}
    (fits : count ≤ length) :
    (read memory offset length).take count = read memory offset count := by
  obtain ⟨rest, rfl⟩ := Nat.exists_eq_add_of_le fits
  rw [read_add, List.take_left' (by simp)]

theorem drop_read (memory : Nat → alpha) {offset length count : Nat}
    (fits : count ≤ length) :
    (read memory offset length).drop count =
      read memory (offset + count) (length - count) := by
  obtain ⟨rest, rfl⟩ := Nat.exists_eq_add_of_le fits
  rw [read_add, List.drop_left' (by simp), Nat.add_sub_cancel_left]

theorem write_apply_of_lt
    (memory : Nat → alpha) {offset index : Nat} (values : List alpha)
    (before : index < offset) :
    write memory offset values index = memory index := by
  simp [write, Nat.not_le.mpr before]

theorem write_apply_of_ge
    (memory : Nat → alpha) {offset index : Nat} {values : List alpha}
    (after : offset + values.length ≤ index) :
    write memory offset values index = memory index := by
  have outside : values.length ≤ index - offset := by omega
  simp [write, List.getElem?_eq_none outside]

theorem write_apply_of_mem
    (memory : Nat → alpha) {offset index : Nat} {values : List alpha}
    (inside : index < values.length) :
    write memory offset values (offset + index) = values[index] := by
  simp [write, inside]

/-- A range read back from inside a write is that part of the written list. -/
theorem read_write_of_le
    (memory : Nat → alpha) (offset : Nat) {values : List alpha}
    {start length : Nat} (fits : start + length ≤ values.length) :
    read (write memory offset values) (offset + start) length =
      (values.drop start).take length := by
  apply List.ext_getElem
  · rw [length_read, List.length_take, List.length_drop]
    omega
  · intro index inside _
    rw [length_read] at inside
    have bound : start + index < values.length := by omega
    rw [getElem_read, List.getElem_take, List.getElem_drop, Nat.add_assoc,
      write_apply_of_mem memory bound]

theorem read_write_self
    (memory : Nat → alpha) (offset : Nat) (values : List alpha) :
    read (write memory offset values) offset values.length = values := by
  have whole :=
    @read_write_of_le alpha memory offset values 0 values.length (by omega)
  simpa using whole

/-- The head of a write at the start. -/
theorem take_write_zero
    (memory : Nat → alpha) {values : List alpha} {length : Nat}
    (fits : length ≤ values.length) :
    read (write memory 0 values) 0 length = values.take length := by
  have head :=
    @read_write_of_le alpha memory 0 values 0 length (by omega)
  simpa using head

/-- Reads that end before a write are unaffected by it. -/
theorem read_write_of_before
    (memory : Nat → alpha) {offset start length : Nat} (values : List alpha)
    (before : start + length ≤ offset) :
    read (write memory offset values) start length =
      read memory start length :=
  read_congr fun index inside =>
    write_apply_of_lt memory values (by omega)

/-- Reads that start after a write are unaffected by it. -/
theorem read_write_of_after
    (memory : Nat → alpha) {offset start : Nat} (length : Nat)
    {values : List alpha}
    (after : offset + values.length ≤ start) :
    read (write memory offset values) start length =
      read memory start length :=
  read_congr fun index _ =>
    write_apply_of_ge memory (by omega)

/-- A write directly after a range extends what is read from its start. -/
theorem read_write_append
    (memory : Nat → alpha) (offset length : Nat) (values : List alpha) :
    read (write memory (offset + length) values) offset
        (length + values.length) =
      read memory offset length ++ values := by
  rw [read_add, read_write_of_before memory values (Nat.le_refl _),
    read_write_self]

end FlatMemory
