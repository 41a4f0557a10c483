import Mathlib.Data.List.Basic
import Mathlib.Tactic.Common

/-!
# Positioned reads and writes of a file

A file is the list of its bytes.  `pread` returns what the file holds of a
range, so a short result means the end of the file was met; `pwrite` extends
the file with zeros when it starts beyond the end.
-/

namespace FileBytes

universe u

variable {alpha : Type u}

def pread (file : List alpha) (offset length : Nat) : List alpha :=
  (file.drop offset).take length

def pwrite (zero : alpha) (file : List alpha) (offset : Nat)
    (data : List alpha) : List alpha :=
  file.take offset ++ List.replicate (offset - file.length) zero ++ data ++
    file.drop (offset + data.length)

theorem length_pread (file : List alpha) (offset length : Nat) :
    (pread file offset length).length = min length (file.length - offset) := by
  simp [pread]

theorem length_pread_of_le
    {file : List alpha} {offset length : Nat}
    (fits : offset + length ≤ file.length) :
    (pread file offset length).length = length := by
  rw [length_pread]
  omega

theorem pread_add (file : List alpha) (offset first second : Nat) :
    pread file offset (first + second) =
      pread file offset first ++ pread file (offset + first) second := by
  rw [pread, pread, pread, List.take_add, List.drop_drop]

theorem pread_append_left
    {first second : List alpha} {offset length : Nat}
    (fits : offset + length ≤ first.length) :
    pread (first ++ second) offset length = pread first offset length := by
  rw [pread, pread, List.drop_append_of_le_length (by omega),
    List.take_append_of_le_length]
  rw [List.length_drop]
  omega

theorem pread_append_right
    {first second : List alpha} {offset length : Nat} :
    pread (first ++ second) (first.length + offset) length =
      pread second offset length := by
  rw [pread, pread, List.drop_append, List.drop_eq_nil_of_le (by omega)]
  simp

/-- A read of a longer file goes on where that of the file ends. -/
theorem pread_prefix_append
    (file rest : List alpha) (offset length : Nat) :
    pread file offset length <+: pread (file ++ rest) offset length := by
  rw [pread, pread, List.drop_append, List.take_append]
  exact List.prefix_append _ _

/-- The part of a longer read that starts inside it. -/
theorem drop_take_pread
    (file : List alpha) {offset length start count : Nat}
    (fits : start + count ≤ length) :
    ((pread file offset length).drop start).take count =
      pread file (offset + start) count := by
  rw [pread, pread, List.drop_take, List.take_take, List.drop_drop,
    Nat.min_eq_left (by omega)]

theorem take_pread
    (file : List alpha) {offset length count : Nat} (fits : count ≤ length) :
    (pread file offset length).take count = pread file offset count := by
  rw [pread, pread, List.take_take, Nat.min_eq_left fits]

/-- Writing just past the current end, with the gap filled by zeros. -/
theorem pwrite_of_length_le
    (zero : alpha) {file : List alpha} {offset : Nat} (data : List alpha)
    (beyond : file.length ≤ offset) :
    pwrite zero file offset data =
      file ++ List.replicate (offset - file.length) zero ++ data := by
  rw [pwrite, List.take_of_length_le beyond,
    List.drop_eq_nil_of_le (by omega), List.append_nil]

theorem pwrite_zero_nil (zero : alpha) (data : List alpha) :
    pwrite zero [] 0 data = data := by
  simp [pwrite]

/-- Going on where the last write ended. -/
theorem pwrite_pwrite
    (zero : alpha) (file : List alpha) (offset : Nat)
    (first second : List alpha) :
    pwrite zero (pwrite zero file offset first) (offset + first.length)
        second =
      pwrite zero file offset (first ++ second) := by
  have front : (file.take offset ++
      List.replicate (offset - file.length) zero).length = offset := by
    rw [List.length_append, List.length_take, List.length_replicate]
    omega
  have before : (file.take offset ++
      List.replicate (offset - file.length) zero ++ first).length =
        offset + first.length := by
    rw [List.length_append, front]
  have none : offset + first.length -
      (pwrite zero file offset first).length = 0 := by
    rw [pwrite, List.length_append, before]
    omega
  rw [pwrite, none, List.replicate_zero, List.append_nil, pwrite,
    List.take_left' before, ← List.drop_drop, List.drop_left' before,
    List.drop_drop, pwrite, List.length_append, ← Nat.add_assoc,
    List.append_assoc _ first second]

/-- A write to the gap before the data. -/
theorem pwrite_gap
    (zero : alpha) {head : List alpha} {offset : Nat} (data : List alpha)
    (fits : head.length ≤ offset) :
    pwrite zero (pwrite zero [] offset data) 0 head =
      pwrite zero head offset data := by
  rw [pwrite_of_length_le zero data fits,
    pwrite_of_length_le zero data (Nat.zero_le offset), List.length_nil,
    Nat.sub_zero, List.nil_append, pwrite, List.take_zero, Nat.zero_sub,
    List.replicate_zero, List.append_nil, List.nil_append, Nat.zero_add,
    List.drop_append_of_le_length (by rwa [List.length_replicate]),
    List.drop_replicate, List.append_assoc]

end FileBytes
