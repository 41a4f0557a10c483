import Maxcso.Output.Positions

/-!
# The file of an image

What is stored for every block of an image and where, as a function of the
image, the settings and the compressors alone.
-/

namespace Maxcso

open RoundUp

/-- An image that is written with accepted settings. -/
structure Archive extends WriterConfig where
  env : Environment
  image : Bytes
  length : image.length = toWriterConfig.sourceSize
  accepted : toWriterConfig.Accepted env

namespace Output

/-- Why `UpdateIndex` refuses a format. -/
def refusal : CsoFormat → SectorFormat → Option String
  | .cso1, .lz4 => some "LZ4 format not supported within CSO v1 file"
  | .zso, .deflate => some "Deflate format not supported within ZSO file"
  | .dax, .orig => some "Sector format must be ZLIB for entire file"
  | .dax, .lz4 => some "Sector format must be ZLIB for entire file"
  | _, _ => none

/-- The entry that `UpdateIndex` stores. -/
def indexWord (fmt : CsoFormat) (shift : Nat) (dstPos : Int)
    (format : SectorFormat) : Nat :=
  let word := toUint32 (dstPos / 2 ^ shift)
  match fmt, format with
  | .cso1, .orig | .zso, .orig => word ||| csoIndexUncompressed
  | .cso2, .lz4 => word ||| cso2IndexLz4
  | _, _ => word

theorem updateIndex_eq
    (output : Output) (srcPos dstPos : Int) (format : SectorFormat) :
    output.updateIndex srcPos dstPos format =
      ({ output with
          index := Function.update output.index
            (toUint32 (srcPos / 2 ^ output.blockShift))
            (indexWord output.fmt output.indexShift dstPos format) },
        refusal output.fmt format) := by
  unfold updateIndex indexWord refusal
  cases output.fmt <;> cases format <;> rfl

/-- The settings that no function changes after `SetFile`. -/
structure SameFile (base output : Output) : Prop where
  flags : output.flags = base.flags
  fmt : output.fmt = base.fmt
  noFile : output.noFile = base.noFile
  srcSize : output.srcSize = base.srcSize
  indexShift : output.indexShift = base.indexShift
  indexAlign : output.indexAlign = base.indexAlign
  blockSize : output.blockSize = base.blockSize
  blockShift : output.blockShift = base.blockShift

section

variable {base output : Output}

theorem SameFile.trans {other : Output}
    (same : SameFile base output) (same' : SameFile output other) :
    SameFile base other :=
  ⟨same'.flags.trans same.flags, same'.fmt.trans same.fmt,
    same'.noFile.trans same.noFile, same'.srcSize.trans same.srcSize,
    same'.indexShift.trans same.indexShift,
    same'.indexAlign.trans same.indexAlign,
    same'.blockSize.trans same.blockSize,
    same'.blockShift.trans same.blockShift⟩

theorem SameFile.storedSize
    (same : SameFile base output) (dstPos : Int) (size : Nat) :
    output.storedSize dstPos size = base.storedSize dstPos size := by
  simp only [Output.storedSize, decompressing, same.flags, same.srcSize]
  rfl

theorem SameFile.align
    (same : SameFile base output) (pos : Int) :
    output.align pos = base.align pos := by
  simp only [Output.align, same.indexAlign]

theorem SameFile.totalBlocks (same : SameFile base output) :
    output.totalBlocks = base.totalBlocks := by
  simp only [Output.totalBlocks, srcSizeAligned, same.srcSize,
    same.blockSize, same.blockShift]

end

end Output

namespace Archive

variable (archive : Archive)

/-- The writer after `SetFile`. -/
def base : Output := archive.toWriterConfig.base archive.env

/-- The image, and enough zeros for its last block. -/
def padded : Bytes :=
  archive.image ++ List.replicate archive.blockSize 0

def content (block : Nat) : Bytes :=
  FileBytes.pread archive.padded (block * archive.blockSize)
    archive.blockSize

/-- The format and the bytes that are kept for a block. -/
def stored (block : Nat) : SectorFormat × Bytes :=
  if archive.decompressing then
    (.orig, archive.content block)
  else
    archive.template.result archive.env
      (block * archive.blockSize : Nat) (archive.content block)

def size (block : Nat) : Nat := (archive.stored block).2.length

/-- Where a block starts in the file. -/
def pos (block : Nat) : Int :=
  archive.base.positions archive.size block

/-- How much of what is kept for a block is written. -/
def written (block : Nat) : Nat :=
  archive.base.storedSize (archive.pos block) (archive.size block)

/-- What is written for a block, with its padding. -/
def chunk (block : Nat) : Bytes :=
  (archive.stored block).2.take (archive.written block) ++
    List.replicate (archive.pos (block + 1) -
      (archive.pos block + archive.written block)).toNat 0

/-- The data of some blocks. -/
def body (first count : Nat) : Bytes :=
  (List.range' first count).flatMap archive.chunk

/-- The entry of a block in the index. -/
def entry (block : Nat) : Nat :=
  if block < archive.blocks then
    Output.indexWord archive.fmt archive.indexShift
      (archive.pos block) (archive.stored block).1
  else
    toUint32 (archive.pos block / 2 ^ archive.indexShift)

/-- Why `UpdateIndex` refuses one of some blocks. -/
def failure (first count : Nat) : Option String :=
  (List.range' first count).findSome? fun block =>
    Output.refusal archive.fmt (archive.stored block).1

/-- The writer with a complete index. -/
def indexed : Output := { archive.base with index := archive.entry }

/-- The write of the header and the tables. -/
def indexWrite : IndexWrite :=
  match archive.fmt with
  | .cso1 | .cso2 | .zso =>
      { data := archive.base.csoHeader.encode ++
          Output.tableBuffer 4 (archive.blocks + 1) archive.entry
        totalBytes := csoHeaderSize + (archive.blocks + 1) * 4 }
  | .dax =>
      { data := archive.base.daxHeader.encode ++
          Output.tableBuffer 4 archive.blocks archive.entry ++
          Output.tableBuffer 2 archive.blocks
            (archive.indexed.daxSizes archive.env)
        totalBytes := daxHeaderSize + archive.blocks * (4 + 2) }

/-- The number of entries of the index, counted in 32 bits. -/
def entries : Nat := (archive.blocks % 2 ^ 32 + 1) % 2 ^ 32

/-- The entries of the blocks, and the one of the end, are in the array that
`SetFile` has allocated. -/
def IndexInside : Prop :=
  ∀ block ≤ archive.blocks,
    0 ≤ toInt32 block ∧ toInt32 block < archive.entries

/-- How many bytes the header and the tables have. -/
def indexTotal : Nat :=
  match archive.fmt with
  | .cso1 | .cso2 | .zso => csoHeaderSize + archive.entries * 4
  | .dax => daxHeaderSize + archive.blocks * (4 + 2)

/-- How many of them are passed to the write. -/
def indexPassed : Nat :=
  match archive.fmt with
  | .cso1 | .cso2 | .zso =>
      csoHeaderSize + Output.uvBufLength (archive.entries * 4)
  | .dax => daxHeaderSize + archive.blocks * (4 + 2)

/-- What `WriteDAXIndex` reports about frames that are too long. -/
def oversized : List OutputCall :=
  ((List.range archive.blocks).filter fun frame =>
    2 ^ 16 ≤ archive.indexed.daxFrameLength frame).map fun _ =>
      OutputCall.finish false "Compressed sector larger than 16 bits"

/-- Every block is kept in a format that the container has, and in at least
one byte. -/
structure Admissible : Prop where
  format : ∀ block < archive.blocks,
    Output.refusal archive.fmt (archive.stored block).1 = none
  nonempty : ∀ block < archive.blocks, (archive.stored block).2 ≠ []

section

variable {archive}

theorem base_eq :
    archive.base =
      { Output.create archive.env archive.flags with
        noFile := archive.noFile
        srcSize := archive.srcSize
        fmt := archive.fmt
        blockSize := archive.blockSize
        blockShift := archive.shift
        indexShift := archive.indexShift
        indexAlign := archive.indexAlign
        dstPos := (roundUp archive.indexAlign
          archive.first : Nat)
        stateHasFile := true
        sectors := fun id =>
          if id ∈ List.range queueSize then archive.template
          else Sector.create archive.flags } :=
  WriterConfig.base_eq archive.accepted

theorem length_content {block : Nat} (inside : block < archive.blocks) :
    (archive.content block).length = archive.blockSize := by
  have size := archive.srcSize_bounds
  have whole := archive.srcSize_le_sourceSize
  have length := archive.length
  have next : (block + 1) * archive.blockSize ≤
      archive.blocks * archive.blockSize :=
    Nat.mul_le_mul_right _ inside
  rw [Nat.add_mul, Nat.one_mul] at next
  apply FileBytes.length_pread_of_le
  rw [padded, List.length_append, List.length_replicate, length]
  omega

theorem base_align (value : Nat) :
    archive.base.align value = (roundUp archive.indexAlign value : Nat) := by
  have bounds := archive.indexAlign_bounds
  rw [base_eq]
  exact Output.align_natCast bounds.1 bounds.2 value

theorem le_base_align {pos : Int} (nonneg : 0 ≤ pos) :
    pos ≤ archive.base.align pos := by
  obtain ⟨value, rfl⟩ := Int.eq_ofNat_of_zero_le nonneg
  rw [base_align]
  exact_mod_cast le_roundUp _ _

theorem pos_succ (block : Nat) :
    archive.pos (block + 1) =
      archive.base.align (archive.pos block + archive.written block) := rfl

theorem pos_nonneg (block : Nat) : 0 ≤ archive.pos block := by
  induction block with
  | zero =>
      have start : archive.pos 0 = (roundUp archive.indexAlign
          archive.first : Nat) := by
        rw [pos, base_eq]
        rfl
      rw [start]
      exact Int.natCast_nonneg _
  | succ block inductionHypothesis =>
      have sum : 0 ≤ archive.pos block + archive.written block := by
        omega
      rw [pos_succ]
      exact sum.trans (le_base_align sum)

theorem pos_le_succ (block : Nat) :
    archive.pos block + archive.written block ≤ archive.pos (block + 1) := by
  have nonneg := archive.pos_nonneg block
  rw [pos_succ]
  exact le_base_align (by omega)

/-- Without alignment blocks follow each other. -/
theorem pos_succ_of_align (align : archive.indexAlign = 1) (block : Nat) :
    archive.pos (block + 1) = archive.pos block + archive.written block := by
  have nonneg := archive.pos_nonneg block
  obtain ⟨sum, same⟩ := Int.eq_ofNat_of_zero_le
    (show 0 ≤ archive.pos block + archive.written block by omega)
  rw [pos_succ, same, base_align, align, roundUp_eq_self (one_dvd _)]

theorem pos_mono {first second : Nat} (order : first ≤ second) :
    archive.pos first ≤ archive.pos second := by
  induction order with
  | refl => exact Int.le_refl _
  | @step block _ inductionHypothesis =>
      have next := archive.pos_le_succ block
      rw [Nat.succ_eq_add_one]
      omega

theorem written_compressed
    (compresses : archive.decompressing = false) (block : Nat) :
    archive.written block = archive.size block := by
  have flags : archive.base.decompressing = false := by
    rw [base_eq]
    exact compresses
  simp [written, Output.storedSize, flags]

theorem stored_decompressed
    (decompresses : archive.decompressing = true) (block : Nat) :
    archive.stored block = (.orig, archive.content block) := by
  rw [stored, if_pos decompresses]

/-- A decompressed block is written where it was in the image. -/
theorem written_decompressed
    (decompresses : archive.decompressing = true) {block : Nat}
    (inside : block < archive.blocks) :
    archive.pos block = (block * archive.blockSize : Nat) ∧
      archive.written block =
        min archive.blockSize
          (archive.srcSize - block * archive.blockSize) := by
  have flags : archive.base.decompressing = true := by
    rw [base_eq]
    exact decompresses
  have srcSize : archive.base.srcSize = archive.srcSize := by
    rw [base_eq]
  have sizeEq : ∀ block < archive.blocks,
      archive.size block = archive.blockSize := by
    intro block inside
    rw [size, stored_decompressed decompresses, length_content inside]
  have bounds := archive.blockSize_bounds
  have total := archive.srcSize_bounds
  have nonempty := archive.nonempty
  have writtenEq : ∀ block < archive.blocks,
      archive.pos block = (block * archive.blockSize : Nat) →
        archive.written block =
          min archive.blockSize
            (archive.srcSize - block * archive.blockSize) := by
    intro block inside start
    have next : (block + 1) * archive.blockSize ≤
        archive.blocks * archive.blockSize :=
      Nat.mul_le_mul_right _ inside
    rw [Nat.add_mul, Nat.one_mul] at next
    simp only [written, Output.storedSize, flags, srcSize, start,
      sizeEq block inside, true_and]
    by_cases short : (archive.srcSize : Int) <
        (block * archive.blockSize : Nat) + (archive.blockSize : Nat)
    · have rest : (archive.srcSize : Int) -
          (block * archive.blockSize : Nat) =
            (archive.srcSize - block * archive.blockSize : Nat) := by
        omega
      rw [if_pos short, rest, toUint32_of_lt (by omega)]
      omega
    · rw [if_neg short]
      omega
  have noShift : archive.indexAlign = 1 := by
    rw [WriterConfig.indexAlign, WriterConfig.indexShift, decompresses]
    rfl
  have start : archive.pos block = (block * archive.blockSize : Nat) := by
    induction block with
    | zero =>
        have none : archive.first = 0 := by
          unfold WriterConfig.decompressing at decompresses
          rw [WriterConfig.first, Output.dstFirstSectorPos, decompresses]
          rfl
        rw [pos, base_eq]
        simp [Output.positions, none, roundUp]
    | succ block inductionHypothesis =>
        have before := inductionHypothesis (by omega)
        have next : (block + 1 + 1) * archive.blockSize ≤
            archive.blocks * archive.blockSize :=
          Nat.mul_le_mul_right _ inside
        have sum : (archive.pos block + archive.written block : Int) =
            ((block + 1) * archive.blockSize : Nat) := by
          rw [writtenEq block (by omega) before, before]
          rw [Nat.add_mul, Nat.one_mul] at next ⊢
          rw [Nat.add_mul, Nat.one_mul] at next
          omega
        have whole : archive.indexAlign ∣ (block + 1) * archive.blockSize := by
          rw [noShift]
          exact one_dvd _
        rw [pos_succ, sum, base_align, roundUp_eq_self whole]
  exact ⟨start, writtenEq block inside start⟩

theorem written_le {block : Nat} (inside : block < archive.blocks) :
    archive.written block ≤ archive.size block := by
  cases mode : archive.decompressing with
  | false => rw [written_compressed mode]
  | true =>
      rw [(written_decompressed mode inside).2, size,
        stored_decompressed mode, length_content inside]
      exact Nat.min_le_left _ _

/-- Something is written for every block that something is kept of. -/
theorem written_pos {block : Nat}
    (some : (archive.stored block).2 ≠ []) (inside : block < archive.blocks) :
    0 < archive.written block := by
  cases mode : archive.decompressing with
  | false =>
      rw [written_compressed mode]
      exact List.length_pos_iff.mpr some
  | true =>
      have bounds := archive.blockSize_bounds
      have total := archive.srcSize_bounds
      have next : (block + 1) * archive.blockSize ≤
          archive.blocks * archive.blockSize :=
        Nat.mul_le_mul_right _ inside
      rw [Nat.add_mul, Nat.one_mul] at next
      rw [(written_decompressed mode inside).2]
      omega

theorem length_chunk {block : Nat} (inside : block < archive.blocks) :
    ((archive.chunk block).length : Int) =
      archive.pos (block + 1) - archive.pos block := by
  have next := archive.pos_le_succ block
  have short : archive.written block ≤ (archive.stored block).2.length :=
    archive.written_le inside
  rw [chunk, List.length_append, List.length_take, List.length_replicate,
    Nat.min_eq_left short]
  omega

theorem body_succ (first count : Nat) :
    archive.body first (count + 1) =
      archive.chunk first ++ archive.body (first + 1) count := by
  simp [body, List.range'_succ]

theorem body_add (first count more : Nat) :
    archive.body first (count + more) =
      archive.body first count ++ archive.body (first + count) more := by
  rw [body, body, body, ← List.flatMap_append,
    List.range'_append_1]

theorem length_body
    {first count : Nat} (inside : first + count ≤ archive.blocks) :
    ((archive.body first count).length : Int) =
      archive.pos (first + count) - archive.pos first := by
  induction count generalizing first with
  | zero => simp [body]
  | succ count inductionHypothesis =>
      have rest := @inductionHypothesis (first + 1) (by omega)
      rw [Nat.add_assoc, Nat.add_comm 1 count] at rest
      rw [body_succ, List.length_append, Nat.cast_add,
        length_chunk (by omega), rest]
      omega

/-- The entries of some blocks recorded in an index. -/
def recordEntries (archive : Archive) :
    Nat → Nat → (Nat → Nat) → Nat → Nat
  | _, 0, index => index
  | block, count + 1, index =>
      archive.recordEntries (block + 1) count
        (Function.update index (block % 2 ^ 32) (archive.entry block))

theorem recordEntries_apply
    (few : archive.blocks ≤ 2 ^ 32) {first count : Nat}
    (inside : first + count ≤ archive.blocks) (index : Nat → Nat)
    (block : Nat) :
    archive.recordEntries first count index block =
      if first ≤ block ∧ block < first + count then archive.entry block
      else index block := by
  induction count generalizing first index with
  | zero => rw [recordEntries, if_neg (by omega)]
  | succ count inductionHypothesis =>
      rw [recordEntries, inductionHypothesis (by omega),
        Nat.mod_eq_of_lt (by omega)]
      by_cases same : block = first
      · subst same
        rw [if_neg (by omega), if_pos (by omega), Function.update_self]
      · rw [Function.update_of_ne same]
        by_cases within : first + 1 ≤ block ∧ block < first + 1 + count
        · rw [if_pos within, if_pos (by omega)]
        · rw [if_neg within, if_neg (by omega)]

theorem srcPos_block (block : Nat) :
    ((block * archive.blockSize : Nat) : Int) / 2 ^ archive.shift = block := by
  have whole : ((block * archive.blockSize : Nat) : Int) / 2 ^ archive.shift =
      (block * archive.blockSize / 2 ^ archive.shift : Nat) := by
    rw [Int.natCast_div]
    push_cast
    rfl
  rw [whole, WriterConfig.blockSize, Nat.mul_div_cancel _
    (Nat.two_pow_pos _)]

theorem failure_succ (first count : Nat) :
    archive.failure first (count + 1) =
      (Output.refusal archive.fmt (archive.stored first).1).or
        (archive.failure (first + 1) count) := by
  unfold failure
  rw [List.range'_succ, List.findSome?_cons]
  cases Output.refusal archive.fmt (archive.stored first).1 with
  | none => rfl
  | some reason => rfl

theorem failure_eq_none
    (format : ∀ block < archive.blocks,
      Output.refusal archive.fmt (archive.stored block).1 = none)
    {first count : Nat} (inside : first + count ≤ archive.blocks) :
    archive.failure first count = none := by
  unfold failure
  rw [List.findSome?_eq_none_iff]
  intro block member
  have below := List.mem_range'_1.mp member
  exact format block (by omega)

theorem align_pos (block : Nat) :
    archive.base.align (archive.pos block) = archive.pos block := by
  have bounds := archive.indexAlign_bounds
  have again : ∀ value : Nat,
      archive.base.align (roundUp archive.indexAlign value : Nat) =
        (roundUp archive.indexAlign value : Nat) := by
    intro value
    rw [base_align, roundUp_eq_self (dvd_roundUp bounds.1 value)]
  cases block with
  | zero =>
      have start : archive.pos 0 = (roundUp archive.indexAlign
          archive.first : Nat) := by
        rw [pos, base_eq]
        rfl
      rw [start]
      exact again _
  | succ block =>
      have nonneg := archive.pos_nonneg block
      obtain ⟨value, sum⟩ := Int.eq_ofNat_of_zero_le
        (show 0 ≤ archive.pos block + archive.written block by omega)
      rw [pos_succ, sum, base_align]
      exact again _

/-- Nothing is written for a block that nothing is kept of. -/
theorem pos_succ_of_written
    {block : Nat} (nothing : archive.written block = 0) :
    archive.pos (block + 1) = archive.pos block ∧
      archive.chunk block = [] := by
  have next : archive.pos (block + 1) = archive.pos block := by
    rw [pos_succ, nothing, Int.natCast_zero, Int.add_zero, align_pos]
  refine ⟨next, ?_⟩
  rw [chunk, next, nothing]
  simp

/-- A sector that holds a block in a batch. -/
def HoldsFrom (archive : Archive) (output : Output) (first : Nat)
    (ids : List SectorId) : Prop :=
  ∀ index id, ids[index]? = some id →
    Sector.Holds archive.template
      ((first + index) * archive.blockSize : Nat)
      (archive.stored (first + index)) (output.sectors id)

theorem HoldsFrom.tail
    {output other : Output} {first : Nat} {id : SectorId}
    {ids : List SectorId} (holds : archive.HoldsFrom output first (id :: ids))
    (same : other.sectors = output.sectors) :
    archive.HoldsFrom other (first + 1) ids := by
  intro index id found
  have held := holds (index + 1) id found
  rw [same]
  rwa [Nat.add_comm index 1, ← Nat.add_assoc] at held

/-- `UpdateIndex` for a sector that holds a block. -/
theorem updateIndex_holds
    {output : Output} (same : Output.SameFile archive.base output)
    {sector : Sector} {block : Nat} (inside : block < archive.blocks)
    (held : Sector.Holds archive.template
      (block * archive.blockSize : Nat) (archive.stored block) sector) :
    output.updateIndex sector.pos (archive.pos block) sector.bestFmt =
      ({ output with
          index := Function.update output.index (block % 2 ^ 32)
            (archive.entry block) },
        Output.refusal archive.fmt (archive.stored block).1) := by
  have fmt : output.fmt = archive.fmt := by
    rw [same.fmt, base_eq]
  have shift : output.indexShift = archive.indexShift := by
    rw [same.indexShift, base_eq]
  have number : toUint32 (((block * archive.blockSize : Nat) : Int) /
      2 ^ output.blockShift) = block % 2 ^ 32 := by
    have blockShift : output.blockShift = archive.shift := by
      rw [same.blockShift, base_eq]
    rw [blockShift, srcPos_block, toUint32_natCast]
  have entry : Output.indexWord output.fmt output.indexShift
      (archive.pos block) (archive.stored block).1 =
        archive.entry block := by
    rw [Archive.entry, if_pos inside, fmt, shift]
  rw [Output.updateIndex_eq, held.pos, held.format, entry, number, fmt]

/-- A batch of sectors that hold consecutive blocks is laid out as the blocks
are. -/
theorem layoutSectors_eq
    {output : Output} (same : Output.SameFile archive.base output)
    {ids : List SectorId} {first : Nat}
    (inside : first + ids.length ≤ archive.blocks)
    (accepted : archive.failure first ids.length = none)
    (holds : archive.HoldsFrom output first ids) :
    output.layoutSectors (archive.pos first) ids =
      ⟨{ output with
          index := archive.recordEntries first ids.length output.index },
        archive.pos (first + ids.length), archive.body first ids.length,
        none⟩ := by
  induction ids generalizing output first with
  | nil => rfl
  | cons id ids inductionHypothesis =>
      rw [List.length_cons] at inside accepted
      have held := holds 0 id rfl
      rw [Nat.add_zero] at held
      have below : first < archive.blocks := by omega
      obtain ⟨formatFits, restFits⟩ :=
        Option.or_eq_none_iff.mp ((failure_succ _ _).symm.trans accepted)
      have updated := updateIndex_holds same below held
      rw [formatFits] at updated
      have bytes : (output.sectors id).bestBytes (archive.written first) =
          (archive.stored first).2.take (archive.written first) := by
        rw [← held.bytes]
        exact (Sector.take_bestBytes _ (archive.written_le below)).symm
      let next : Output :=
        { output with
          index := Function.update output.index (first % 2 ^ 32)
            (archive.entry first) }
      have sameNext : Output.SameFile archive.base next :=
        ⟨same.flags, same.fmt, same.noFile, same.srcSize, same.indexShift,
          same.indexAlign, same.blockSize, same.blockShift⟩
      have written : next.storedSize (archive.pos first)
          (output.sectors id).bestSize = archive.written first := by
        rw [sameNext.storedSize, held.size]
        rfl
      have rest := @inductionHypothesis next sameNext (first + 1) (by omega)
        restFits (holds.tail rfl)
      rw [Output.layoutSectors, updated]
      dsimp only
      rw [written]
      by_cases nothing : archive.written first = 0
      · obtain ⟨stays, none⟩ := pos_succ_of_written nothing
        rw [if_pos nothing, ← stays, rest]
        simp only [List.length_cons, recordEntries, body_succ, none, next]
        rw [Nat.add_assoc, Nat.add_comm 1 ids.length, List.nil_append]
      · rw [if_neg nothing, sameNext.align, ← pos_succ, rest, bytes]
        simp only [List.length_cons, recordEntries, body_succ, chunk, next]
        rw [Nat.add_assoc, Nat.add_comm 1 ids.length]

/-- When the format of a block is refused only entries of the batch have
changed. -/
theorem layoutSectors_refused
    {output : Output} (same : Output.SameFile archive.base output)
    {ids : List SectorId} {first : Nat}
    (inside : first + ids.length ≤ archive.blocks) {reason : String}
    (refused : archive.failure first ids.length = some reason)
    (holds : archive.HoldsFrom output first ids) :
    ∃ index, (output.layoutSectors (archive.pos first) ids).output =
        { output with index := index } ∧
      (output.layoutSectors (archive.pos first) ids).failure =
        some reason ∧
      (archive.blocks ≤ 2 ^ 32 →
        ∀ block < first, index block = output.index block) := by
  induction ids generalizing output first with
  | nil => exact nomatch refused
  | cons id ids inductionHypothesis =>
      rw [List.length_cons] at inside refused
      have held := holds 0 id rfl
      rw [Nat.add_zero] at held
      have below : first < archive.blocks := by omega
      have updated := updateIndex_holds same below held
      rw [failure_succ] at refused
      let next : Output :=
        { output with
          index := Function.update output.index (first % 2 ^ 32)
            (archive.entry first) }
      have sameNext : Output.SameFile archive.base next :=
        ⟨same.flags, same.fmt, same.noFile, same.srcSize, same.indexShift,
          same.indexAlign, same.blockSize, same.blockShift⟩
      have earlier : archive.blocks ≤ 2 ^ 32 →
          ∀ block < first, next.index block = output.index block := by
        intro few block before
        apply Function.update_of_ne
        omega
      rw [Output.layoutSectors, updated]
      cases format : Output.refusal archive.fmt (archive.stored first).1 with
      | some first =>
          rw [format] at refused
          exact ⟨_, rfl, refused, earlier⟩
      | none =>
          rw [format] at refused
          obtain ⟨index, left, failed, before⟩ :=
            @inductionHypothesis next sameNext (first + 1) (by omega) refused
              (holds.tail rfl)
          have kept : archive.blocks ≤ 2 ^ 32 →
              ∀ block < first, index block = output.index block := by
            intro few block below
            exact (before few block (by omega)).trans
              (earlier few block below)
          have written : next.storedSize (archive.pos first)
              (output.sectors id).bestSize = archive.written first := by
            rw [sameNext.storedSize, held.size]
            rfl
          dsimp only
          rw [written]
          by_cases nothing : archive.written first = 0
          · rw [if_pos nothing, ← (pos_succ_of_written nothing).1]
            exact ⟨index, left, failed, kept⟩
          · rw [if_neg nothing, sameNext.align, ← pos_succ]
            exact ⟨index, left, failed, kept⟩

end

end Archive

end Maxcso
