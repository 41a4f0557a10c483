import Maxcso.Library.FileBytes

/-!
# Images assembled from blocks

The first entries of a sequence of blocks of one length.  What is read inside
a block is read of the block's content; the content may go on past the end of
the image.
-/

namespace BlockImage

open FileBytes

universe u

variable {alpha : Type u} [Inhabited alpha]

/-- The first `size` entries of blocks of `unit` entries. -/
def assemble (unit size : Nat) (content : Nat → List alpha) : List alpha :=
  (List.range size).map fun index =>
    (content (index / unit)).getD (index % unit) default

variable {unit size block offset length : Nat}
variable {content : Nat → List alpha}

@[simp]
theorem length_assemble :
    (assemble unit size content).length = size := by
  simp [assemble]

theorem getElem_assemble
    (within : offset < unit) (inside : unit * block + offset < size) :
    (assemble unit size content)[unit * block + offset]? =
      some ((content block).getD offset default) := by
  have quotient : (unit * block + offset) / unit = block := by
    rw [Nat.mul_add_div (by omega), Nat.div_eq_of_lt within, Nat.add_zero]
  have remainder : (unit * block + offset) % unit = offset := by
    rw [Nat.mul_add_mod, Nat.mod_eq_of_lt within]
  rw [assemble, List.getElem?_map, List.getElem?_range inside]
  simp [quotient, remainder]

theorem pread_assemble
    (within : offset + length ≤ unit)
    (inside : unit * block + offset + length ≤ size)
    (has : offset + length ≤ (content block).length) :
    pread (assemble unit size content) (unit * block + offset) length =
      pread (content block) offset length := by
  apply List.ext_getElem?
  intro index
  by_cases below : index < length
  · have entry : unit * block + offset + index =
        unit * block + (offset + index) := Nat.add_assoc _ _ _
    have present : offset + index < (content block).length := by omega
    rw [pread, pread, List.getElem?_take_of_lt below,
      List.getElem?_take_of_lt below, List.getElem?_drop,
      List.getElem?_drop, entry,
      getElem_assemble (by omega) (by omega),
      List.getD_eq_getElem?_getD,
      List.getElem?_eq_getElem present, Option.getD_some]
  · have short := length_pread (assemble unit size content)
      (unit * block + offset) length
    have short' := length_pread (content block) offset length
    rw [List.getElem?_eq_none (by omega), List.getElem?_eq_none (by omega)]

/-- What the image has of a block is a head of its content. -/
theorem pread_assemble_prefix
    (within : (content block).length ≤ unit) :
    pread (assemble unit size content) (unit * block)
        (content block).length <+:
      content block := by
  by_cases inside : unit * block + (content block).length ≤ size
  · have whole := @pread_assemble alpha _ unit size block 0
      (content block).length content (by omega) (by omega) (by omega)
    rw [Nat.add_zero] at whole
    rw [whole, pread, List.drop_zero]
    exact List.take_prefix _ _
  · have cut : pread (assemble unit size content) (unit * block)
          (content block).length =
        pread (assemble unit size content) (unit * block)
          (size - unit * block) := by
      rw [pread, pread, List.take_of_length_le (by simp; omega),
        List.take_of_length_le (by simp)]
    rw [cut]
    by_cases none : size ≤ unit * block
    · rw [Nat.sub_eq_zero_of_le none, pread, List.take_zero]
      exact List.nil_prefix
    · have part := @pread_assemble alpha _ unit size block 0
        (size - unit * block) content (by omega) (by omega) (by omega)
      rw [Nat.add_zero] at part
      rw [part, pread, List.drop_zero]
      exact List.take_prefix _ _

/-- Blocks that have their parts of an image make up that image. -/
theorem assemble_eq
    {image : List alpha} (positive : 0 < unit)
    (parts : ∀ block, unit * block < image.length →
      pread image (unit * block) unit <+: content block) :
    assemble unit image.length content = image := by
  apply List.ext_getElem
  · simp
  intro index inside below
  have within := Nat.mod_lt index positive
  have split := Nat.div_add_mod index unit
  have start : unit * (index / unit) < image.length := by omega
  obtain ⟨rest, whole⟩ := parts (index / unit) start
  have entry :
      (content (index / unit))[index % unit]? = some image[index] := by
    rw [← whole, pread, List.getElem?_append_left (by simp; omega),
      List.getElem?_take_of_lt within, List.getElem?_drop, split,
      List.getElem?_eq_getElem below]
  simp [assemble, List.getD_eq_getElem?_getD, entry]

end BlockImage
