import Maxcso.Library.FileBytes
import Maxcso.Library.FlatMemory

/-!
# Windows on a file

A memory that shows a stretch of a file, as far as the file reaches.
-/

namespace FileBytes

universe u

variable {alpha : Type u}

/-- The first `size` values of a memory are those of the file from `offset`
on, up to the end of the file. -/
def Shows (file : List alpha) (memory : Nat → alpha)
    (offset size : Nat) : Prop :=
  ∀ index, index < size →
    ∀ inside : offset + index < file.length,
      memory index = file[offset + index]

/-- Reading into a memory makes it a window. -/
theorem shows_write
    (file : List alpha) (memory : Nat → alpha) (offset size : Nat) :
    Shows file (FlatMemory.write memory 0 (pread file offset size)) offset
      size := by
  intro index small inside
  have bound : index < (pread file offset size).length := by
    rw [length_pread]
    omega
  have written :=
    @FlatMemory.write_apply_of_mem alpha memory 0 index _ bound
  rw [Nat.zero_add] at written
  rw [written]
  simp [pread]

/-- A range of the file that lies in the window is read from the memory. -/
theorem read_of_shows
    {file : List alpha} {memory : Nat → alpha} {offset size : Nat}
    (shown : Shows file memory offset size) {start length : Nat}
    (inWindow : start + length ≤ size)
    (inFile : length = 0 ∨ offset + start + length ≤ file.length) :
    FlatMemory.read memory start length =
      pread file (offset + start) length := by
  apply List.ext_getElem
  · rw [FlatMemory.length_read, length_pread]
    omega
  · intro index inside _
    rw [FlatMemory.length_read] at inside
    have bound : offset + (start + index) < file.length := by omega
    simp only [FlatMemory.getElem_read, pread, List.getElem_take,
      List.getElem_drop, Nat.add_assoc]
    exact shown _ (by omega) bound

end FileBytes
