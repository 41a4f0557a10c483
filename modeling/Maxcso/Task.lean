import Maxcso.Cli
import Maxcso.Output.Positions

/-!
# Tasks

`compress.h` and `compress.cpp`: the block size of a task, the buffers that go
with it, and the format of its output.
-/

namespace Maxcso

/-- `Task` without its paths and callbacks.  The costs are those that the
percentages come to for a block size. -/
structure Task where
  blockSize : Nat
  flags : Nat
  origMaxCost : Nat → Nat
  lz4MaxCost : Nat → Nat

namespace CompressionTask

/-- `SMALL_BLOCK_SIZE` -/
abbrev smallBlockSize : Nat := 2048

/-- `LARGE_BLOCK_SIZE` -/
abbrev largeBlockSize : Nat := 16384

/-- `LARGE_BLOCK_SIZE_THRESH` -/
abbrev largeBlockSizeThresh : Nat := 0x80000000

/-- The block size that `Enqueue` starts with. -/
def firstBlockSize (task : Task) : Except String Nat :=
  if task.blockSize = defaultBlockSize then
    if hasFlag task.flags taskflagFmtDax then
      .ok daxFrameSize
    else
      -- Start with a small block size.  We'll re-evaluate later.
      .ok smallBlockSize
  else if maxBlockSize < task.blockSize then
    .error "Block size too large"
  else if task.blockSize < sectorSize then
    .error "Block size too small, must be at least 2048"
  else if task.blockSize &&& (task.blockSize - 1) ≠ 0 then
    .error "Block size must be a power of two"
  else
    .ok task.blockSize

/-- The buffers are made twice as large as a block. -/
def resize (pool : BufferPool) (blockSize : Nat) :
    BufferPool × Except String Nat :=
  let resized := pool.setBufferSize (blockSize * 2)
  if resized.2 then
    (resized.1, .ok blockSize)
  else
    (resized.1,
      .error "Unable to update buffer size to match block size")

/-- `Enqueue` up to the opening of the files. -/
def enqueue (task : Task) (pool : BufferPool) :
    BufferPool × Except String Nat :=
  match firstBlockSize task with
  | .error reason => (pool, .error reason)
  | .ok blockSize => resize pool blockSize

/-- The format that the flags ask for. -/
def format (flags : Nat) : CsoFormat :=
  if hasFlag flags taskflagFmtCso2 then .cso2
  else if hasFlag flags taskflagFmtZso then .zso
  else if hasFlag flags taskflagFmtDax then .dax
  else .cso1

/-- The callback for the size of the image, up to the call of `SetFile`. -/
def begin (task : Task) (blockSize : Nat) (pool : BufferPool) (size : Int) :
    BufferPool × Except String Nat :=
  -- Now that we know the file size, check if we should resize the blockSize_.
  if hasFlag task.flags taskflagDecompress = false ∧
      task.blockSize = defaultBlockSize ∧ largeBlockSizeThresh ≤ size then
    resize pool largeBlockSize
  else
    (pool, .ok blockSize)

/-- The settings that the writer of a task is opened with. -/
structure Opens (task : Task) (config : WriterConfig) : Prop where
  flags : config.flags = task.flags
  fmt : config.fmt = format task.flags
  noFile : config.noFile = hasFlag task.flags taskflagMeasure
  blockSize : ∃ pool pool' first,
    (enqueue task pool).2 = .ok first ∧
      (begin task first pool' config.srcSize).2 = .ok config.blockSize
  origMaxCost : config.origMaxCost = task.origMaxCost config.blockSize
  lz4MaxCost : config.lz4MaxCost = task.lz4MaxCost config.blockSize

/-! ## Block sizes -/

theorem two_pow_of_firstBlockSize
    {task : Task} {blockSize : Nat}
    (accepted : firstBlockSize task = .ok blockSize) :
    ∃ shift, 11 ≤ shift ∧ shift ≤ 18 ∧ blockSize = 2 ^ shift := by
  unfold firstBlockSize at accepted
  split at accepted
  · split at accepted
    · exact ⟨13, by decide, by decide, (Except.ok.inj accepted).symm⟩
    · exact ⟨11, by decide, by decide, (Except.ok.inj accepted).symm⟩
  · split at accepted
    · exact nomatch accepted
    · rename_i small
      split at accepted
      · exact nomatch accepted
      · rename_i large
        split at accepted
        · exact nomatch accepted
        · rename_i mask
          obtain rfl := Except.ok.inj accepted
          have positive : task.blockSize ≠ 0 := by
            simp only [sectorSize] at large
            omega
          obtain ⟨shift, power⟩ :=
            (Nat.and_sub_one_eq_zero_iff_isPowerOfTwo positive).mp
              (not_not.mp mask)
          rw [power] at small large ⊢
          refine ⟨shift, ?_, ?_, rfl⟩
          · by_contra short
            have less : 2 ^ shift < 2 ^ 11 :=
              Nat.pow_lt_pow_right (by decide) (by omega)
            exact large less
          · by_contra long
            have more : 2 ^ 18 < 2 ^ shift :=
              Nat.pow_lt_pow_right (by decide) (by omega)
            exact small more

theorem of_resize
    {pool : BufferPool} {blockSize size : Nat}
    (accepted : (resize pool blockSize).2 = .ok size) :
    size = blockSize ∧
      (resize pool blockSize).1.bufferSize =
        max (blockSize * 2) minSize := by
  unfold resize at accepted ⊢
  dsimp only at accepted ⊢
  rcases pool.setBufferSize_cases (blockSize * 2) with
    ⟨done, resized⟩ | ⟨failed, _⟩
  · rw [if_pos done] at accepted ⊢
    exact ⟨(Except.ok.inj accepted).symm, resized⟩
  · rw [failed, if_neg Bool.false_ne_true] at accepted
    exact nomatch accepted

/-- The flags decide whether the output is a DAX file. -/
theorem daxFlag_of_format {flags : Nat} (dax : format flags = .dax) :
    hasFlag flags taskflagFmtDax = true := by
  by_contra other
  unfold format at dax
  split at dax
  · exact nomatch dax
  · split at dax
    · exact nomatch dax
    · exact nomatch dax

end CompressionTask

end Maxcso
