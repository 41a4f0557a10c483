import Maxcso.Writer.Measuring

/-!
# Schedules

The file does not depend on the order in which compressions and writes
complete.
-/

namespace Maxcso

open FileBytes

namespace Archive

variable (archive : Archive)

/-- The whole file: header and tables, and from the aligned first position on
the blocks with their padding. -/
def file : Bytes :=
  archive.indexWrite.data ++
    List.replicate (archive.pos 0 - archive.indexWrite.data.length).toNat 0 ++
      archive.body 0 archive.blocks

/-- Where the index starts. -/
def tableStart : Nat :=
  match archive.fmt with
  | .cso1 | .cso2 | .zso => csoHeaderSize
  | .dax => daxHeaderSize

/-- The settings of a run that compresses to a file of a size that CSO and DAX
files can have. -/
structure Ordinary (archive : Archive) : Prop where
  chosen : archive.fmt = CompressionTask.format archive.flags
  compresses : archive.decompressing = false
  hasFile : archive.noFile = false
  small : csoHeaderSize + 4 * (archive.blocks + 1) + archive.srcSize < 2 ^ 42
  positions : ∀ block ≤ archive.blocks,
    archive.pos block / 2 ^ archive.indexShift < 2 ^ 31

section

variable {archive : Archive}

theorem Ordinary.few (ordinary : archive.Ordinary) : archive.Few := by
  have size := archive.srcSize_bounds
  have bounds := archive.blockSize_bounds
  have small := ordinary.small
  unfold Few
  by_contra many
  have wide : (2 ^ 32 - 1) * archive.blockSize ≤
      archive.blocks * archive.blockSize :=
    Nat.mul_le_mul_right _ (by omega)
  omega

theorem Ordinary.entries (ordinary : archive.Ordinary) :
    archive.entries = archive.blocks + 1 := by
  have few := ordinary.few
  unfold Few at few
  unfold Archive.entries
  omega

theorem Ordinary.immediate (ordinary : archive.Ordinary) :
    archive.immediate = false := by
  rw [Archive.immediate, ordinary.compresses, ordinary.hasFile]
  rfl

theorem Ordinary.indexPasses_iff (ordinary : archive.Ordinary) :
    archive.IndexPasses ↔
      archive.fmt = .dax ∨ archive.blocks + 1 < 2 ^ 30 := by
  rw [Archive.indexPasses_iff, ordinary.immediate, ordinary.entries]
  have scale : (archive.blocks + 1) * 4 < 2 ^ 32 ↔
      archive.blocks + 1 < 2 ^ 30 := by
    omega
  rw [scale]
  simp

/-- The data end where the file ends. -/
theorem fileWith_index
    (fits : (archive.indexWrite.data.length : Int) ≤ archive.pos 0) :
    archive.fileWith archive.indexWrite.data archive.blocks =
      archive.file := by
  have positive := archive.blocks_pos
  rw [fileWith, if_neg (by omega), pwrite_of_length_le _ _ (by omega), file]
  have gap : (archive.pos 0).toNat - archive.indexWrite.data.length =
      (archive.pos 0 - archive.indexWrite.data.length).toNat := by
    omega
  rw [gap]

/-! ## Entries -/

theorem entry_lt (block : Nat) : archive.entry block < 2 ^ 32 := by
  have word : ∀ value : Int, toUint32 value < 2 ^ 32 := by
    intro value
    unfold toUint32
    omega
  unfold entry Output.indexWord
  split
  · dsimp only
    split
    · exact Nat.or_lt_two_pow (word _) (by decide)
    · exact Nat.or_lt_two_pow (word _) (by decide)
    · exact Nat.or_lt_two_pow (word _) (by decide)
    · exact word _
  · exact word _

/-- Apart from the flag bit an entry is the shifted position. -/
theorem Ordinary.entry_mod
    (ordinary : archive.Ordinary) {block : Nat}
    (inside : block ≤ archive.blocks) :
    ((archive.entry block % 2 ^ 31 : Nat) : Int) =
      archive.pos block / 2 ^ archive.indexShift := by
  have high := ordinary.positions block inside
  have low : 0 ≤ archive.pos block / 2 ^ archive.indexShift :=
    Int.ediv_nonneg (archive.pos_nonneg block) (Int.pow_nonneg (by decide))
  have word : toUint32 (archive.pos block / 2 ^ archive.indexShift) %
      2 ^ 31 = (archive.pos block / 2 ^ archive.indexShift).toNat := by
    unfold toUint32
    omega
  have flagged : ∀ word : Nat, (word ||| 0x80000000) % 2 ^ 31 =
      word % 2 ^ 31 := by
    intro word
    rw [Nat.or_mod_two_pow]
    exact Nat.or_zero _
  have same : archive.entry block % 2 ^ 31 =
      toUint32 (archive.pos block / 2 ^ archive.indexShift) % 2 ^ 31 := by
    unfold entry Output.indexWord
    split
    · dsimp only
      split
      · exact flagged _
      · exact flagged _
      · exact flagged _
      · rfl
    · rfl
  rw [same, word]
  omega

/-- The word of the table for a block. -/
theorem wordAt_index
    (passes : archive.fmt = .dax ∨ archive.blocks + 1 < 2 ^ 30)
    {block : Nat} (inside : block < archive.blocks) :
    wordAt archive.indexWrite.data (archive.tableStart + 4 * block) 4 =
      archive.entry block := by
  have read : ∀ (header rest : Bytes) (count : Nat), block < count →
      wordAt (header ++ encodeTable 4 count archive.entry ++ rest)
          (header.length + 4 * block) 4 = archive.entry block := by
    intro header rest count below
    have fits : 4 * block + 4 ≤
        (encodeTable 4 count archive.entry).length := by
      rw [length_encodeTable]
      omega
    rw [wordAt, List.append_assoc, ← List.drop_drop, List.drop_left,
      List.drop_append_of_le_length (by omega),
      List.take_append_of_le_length (by rw [List.length_drop]; omega),
      slice_encodeTable 4 archive.entry below,
      LittleEndian.decode_encode_of_lt (entry_lt block)]
  have uncut : ∀ count, count * 4 < 2 ^ 32 →
      Output.tableBuffer 4 count archive.entry =
        encodeTable 4 count archive.entry := by
    intro count small
    rw [Output.tableBuffer, Output.uvBufLength, Nat.mod_eq_of_lt small]
    apply List.take_of_length_le
    rw [length_encodeTable, Nat.mul_comm]
  have cso := Output.length_csoHeader archive.base
  have dax := Output.length_daxHeader archive.base
  unfold indexWrite tableStart
  cases fmt : archive.fmt with
  | dax =>
      have small := blocks_of_dax fmt
      have word := read archive.base.daxHeader.encode
        (Output.tableBuffer 2 archive.blocks
          (archive.indexed.daxSizes archive.env)) archive.blocks inside
      rw [dax] at word
      dsimp only
      rw [uncut _ (by omega)]
      exact word
  | _ =>
      have few : archive.blocks + 1 < 2 ^ 30 :=
        passes.resolve_left (by rw [fmt]; exact CsoFormat.noConfusion)
      have word := read archive.base.csoHeader.encode []
        (archive.blocks + 1) (by omega)
      rw [cso, List.append_nil] at word
      dsimp only
      rw [uncut _ (by omega)]
      exact word

/-- Blocks that are left behind in no more than a block's room are at most as
far from the tables as raw ones. -/
theorem pos_le (forCso : archive.ForCso) {formats : Nat → SectorFormat}
    (left : ∀ block < archive.blocks,
      archive.LeftBehind (formats block) (archive.size block))
    {block : Nat} (inside : block ≤ archive.blocks) :
    archive.pos block ≤ (RoundUp.roundUp archive.indexAlign
      archive.tableEnd + block * archive.blockSize : Nat) := by
  have place : archive.pos block =
      (archive.place archive.size block : Nat) :=
    WriterConfig.place_natCast archive.accepted forCso.compresses block
  rw [place]
  exact Int.ofNat_le.mpr (forCso.place_le left inside)

theorem ordinary_of_leftBehind
    (chosen : archive.fmt = CompressionTask.format archive.flags)
    (hasFile : archive.noFile = false) (forCso : archive.ForCso)
    (left : ∀ block < archive.blocks,
      archive.LeftBehind (archive.stored block).1 (archive.size block))
    (fits : archive.tableEnd + archive.indexAlign +
        archive.blocks * archive.blockSize <
      2 ^ 31 * 2 ^ archive.indexShift) :
    archive.Ordinary := by
  refine ⟨chosen, forCso.compresses, hasFile, forCso.small, ?_⟩
  intro block inside
  have high := pos_le forCso left inside
  have start := RoundUp.roundUp_lt_add archive.indexAlign_bounds.1
    archive.tableEnd
  have last : block * archive.blockSize ≤
      archive.blocks * archive.blockSize := Nat.mul_le_mul_right _ inside
  have above := lt_of_le_of_lt high (Int.ofNat_lt.mpr
    (show _ < 2 ^ 31 * 2 ^ archive.indexShift by omega))
  apply Int.ediv_lt_of_lt_mul
  · exact Int.pow_pos (by decide)
  · push_cast at above
    exact above

end

end Archive

namespace Writer

/-- What has been written at any moment of a run. -/
structure Orderly (archive : Archive) (writer : Writer) : Prop where
  batches : ∃ first, Batches archive first (dataNotes writer.notes)
  tables : indexNotes writer.notes = [] ∨
    indexNotes writer.notes = [archive.indexWrite.data]
  success : successNotes writer.notes ≠ [] →
    successNotes writer.notes = [archive.pos archive.blocks] ∧
      Batches archive archive.blocks (dataNotes writer.notes) ∧
      indexNotes writer.notes = [archive.indexWrite.data] ∧
      writer.output.dataWrites = [] ∧ writer.output.indexWrites = [] ∧
      writer.file = archive.file

/-- Every run can be completed, has written whole batches one after the other
at any moment, reports success once, after the last write, and leaves the same
file; the entries of the index say where the blocks are. -/
structure WritesOneFile (archive : Archive) : Prop where
  completes : ∀ {pool : BufferPool} {events : List WriterEvent}
    {writer : Writer}, archive.blockSize ≤ pool.bufferSize →
      Run archive.toWriterConfig archive.env archive.image .full
        (start archive.env archive.toWriterConfig pool) events writer →
        ∃ more last, Run archive.toWriterConfig archive.env archive.image
          .full writer more last ∧ last.Done
  orderly : ∀ {pool : BufferPool} {events : List WriterEvent}
    {writer : Writer}, archive.blockSize ≤ pool.bufferSize →
      Run archive.toWriterConfig archive.env archive.image .full
        (start archive.env archive.toWriterConfig pool) events writer →
        Orderly archive writer ∧
          (writer.Done → successNotes writer.notes ≠ [])
  apart : (archive.indexWrite.data.length : Int) ≤ archive.pos 0
  entries : ∀ block < archive.blocks,
    ((wordAt archive.indexWrite.data (archive.tableStart + 4 * block) 4 %
      2 ^ 31 : Nat) : Int) = archive.pos block / 2 ^ archive.indexShift

section

variable {archive : Archive} {writer : Writer}

/-- Once success is noted everything has been written. -/
theorem OnCourse.orderly
    (few : archive.Few) (waits : archive.immediate = false)
    (hasFile : archive.noFile = false)
    (apart : (archive.indexWrite.data.length : Int) ≤ archive.pos 0)
    (onCourse : OnCourse archive (Course.Succeeding archive) writer) :
    Orderly archive writer := by
  obtain ⟨pipeline, filled, _, sound, succeeding⟩ := onCourse
  obtain ⟨head, filed⟩ := succeeding.filed hasFile
  have known : ∀ write, Course.Expected archive write →
      head = write.data → head = archive.indexWrite.data := by
    intro write expected same
    rw [same, expected.whole few]
  refine ⟨⟨_, filed.batches⟩, ?_, ?_⟩
  · by_cases done : Course.IndexFiled archive (writer.course pipeline filled)
    · obtain ⟨tables, write, expected, same⟩ := filed.filed done
      rw [known write expected same] at tables
      exact Or.inr tables
    · exact Or.inl (filed.unfiled done).2
  · intro reported
    have some : 0 < (writer.course pipeline filled).notes.countP
        Course.isSuccessNote := by
      rw [← length_successNotes]
      exact List.length_pos_iff.mpr reported
    obtain ⟨once, first, _, none, unissued, ready⟩ :=
      sound.all_written (Nat.add_pos_right _ some)
    obtain ⟨tables, write, expected, same⟩ :=
      filed.filed ⟨waits, ready, unissued⟩
    have head := known write expected same
    subst head
    have file := filed.file
    have batches := filed.batches
    rw [first] at file batches
    exact ⟨succeeding.totalled.single (by omega), batches, tables, none,
      unissued, file.trans (Archive.fileWith_index apart)⟩

/-- Without the index there is no success. -/
theorem not_writesOneFile
    (hasFile : archive.noFile = false) (cut : ¬ archive.IndexPasses) :
    ¬ WritesOneFile archive := by
  intro writes
  let pool : BufferPool := ⟨archive.blockSize, 0, [], 0⟩
  have room : archive.blockSize ≤ pool.bufferSize := Nat.le_refl _
  obtain ⟨_, last, run, done⟩ := writes.completes room (.nil _)
  exact (writes.orderly room run).2 done
    (successNotes_of_cut Completions.capped_full hasFile cut room run)

end

/-- Whatever the order of the completions, a run writes the same file, exactly
when the index is not cut by `uv_buf_init`. -/
theorem writes_one_file
    {archive : Archive} (ordinary : archive.Ordinary)
    (admissible : archive.Admissible) :
    WritesOneFile archive ↔
      archive.fmt = .dax ∨ archive.blocks + 1 < 2 ^ 30 := by
  rw [← ordinary.indexPasses_iff]
  constructor
  · intro writes
    by_contra cut
    exact not_writesOneFile ordinary.hasFile cut writes
  · intro passes
    have leads := Archive.leads ordinary.chosen
    have expected := Output.indexWrite_expected ordinary.few
    have apart : (archive.indexWrite.data.length : Int) ≤ archive.pos 0 := by
      rw [expected.length]
      exact leads ordinary.immediate
    refine ⟨?_, ?_, apart, ?_⟩
    · intro pool events writer room run
      exact completes Completions.possible_full room run
    · intro pool events writer room run
      have onCourse := onCourse_succeeding admissible passes leads room run
      refine ⟨onCourse.orderly ordinary.few ordinary.immediate
        ordinary.hasFile apart, ?_⟩
      intro done
      rw [(onCourse.succeeded done).1]
      exact List.cons_ne_nil _ _
    · intro block inside
      rw [Archive.wordAt_index (ordinary.indexPasses_iff.mp passes) inside]
      exact ordinary.entry_mod (Nat.le_of_lt inside)

theorem mixedArchive_forCso : mixedArchive.ForCso := by
  refine ⟨CsoFormat.noConfusion, (by decide : hasFlag 0 taskflagFmtDax = false),
    (by decide : hasFlag 0 taskflagDecompress = false), ?_⟩
  rw [mixedArchive_blocks]
  decide

/-- A stream with its padding is shorter than a block. -/
theorem mixedArchive_leftBehind {block : Nat}
    (inside : block < mixedArchive.blocks) :
    mixedArchive.LeftBehind (mixedArchive.stored block).1
      (mixedArchive.size block) := by
  have length := Archive.length_content inside
  rw [Archive.size, mixedArchive_stored]
  split_ifs
  · refine Or.inr ⟨SectorFormat.noConfusion, ?_⟩
    rw [mixedArchive_indexAlign]
    decide
  · exact Or.inl ⟨rfl, length⟩

theorem mixedArchive_ordinary : mixedArchive.Ordinary := by
  apply Archive.ordinary_of_leftBehind
    (by decide : CsoFormat.cso1 = CompressionTask.format 0) rfl
    mixedArchive_forCso
  · intro block inside
    exact mixedArchive_leftBehind inside
  · have shift : mixedArchive.indexShift = 3 := by decide
    rw [WriterConfig.tableEnd, mixedArchive_blocks, WriterConfig.indexAlign,
      shift]
    decide

theorem writes_one_file_mixed : WritesOneFile mixedArchive := by
  apply (writes_one_file mixedArchive_ordinary mixedArchive_admissible).mpr
  rw [mixedArchive_blocks]
  decide

section

variable {blocks : Nat} {positive : 0 < blocks}

theorem zeroConfig_forCso (few : blocks < 2 ^ 30) :
    (zeroConfig blocks positive).ForCso := by
  have count := zeroConfig_blocks blocks positive
  have size : (zeroConfig blocks positive).srcSize = blocks * 2048 := rfl
  refine ⟨CsoFormat.noConfusion, (by decide : hasFlag 0 taskflagFmtDax = false),
    (by decide : hasFlag 0 taskflagDecompress = false), ?_⟩
  rw [count, size, csoHeaderSize]
  omega

theorem zeroArchive_ordinary (few : blocks < 2 ^ 30)
    (fits : 24 + 4 * (blocks + 1) +
        2 ^ (zeroConfig blocks positive).indexShift + blocks * 2048 <
      2 ^ 31 * 2 ^ (zeroConfig blocks positive).indexShift) :
    (zeroArchive blocks positive).Ordinary := by
  have forCso := @zeroConfig_forCso blocks positive few
  have count := zeroConfig_blocks blocks positive
  apply Archive.ordinary_of_leftBehind
    (by decide : CsoFormat.cso1 = CompressionTask.format 0) rfl forCso
  · intro block inside
    have length := Archive.length_content inside
    rw [Archive.size, zeroArchive_stored]
    exact Or.inl ⟨rfl, length⟩
  · have width : (zeroArchive blocks positive).blockSize = 2048 := rfl
    have whole : (zeroArchive blocks positive).blocks = blocks := count
    rw [WriterConfig.tableEnd, WriterConfig.indexAlign, width, whole,
      csoHeaderSize]
    exact fits

end

theorem wideArchive_ordinary : wideArchive.Ordinary :=
  @zeroArchive_ordinary (2 ^ 30 - 1) (by decide) (by omega)
    (by decide)

/-- Nothing of an index of 4 GiB is passed to its write, and the run does not
end with success. -/
theorem wide_index_not_written :
    wideArchive.Ordinary ∧ wideArchive.Admissible ∧
      ¬ WritesOneFile wideArchive := by
  refine ⟨wideArchive_ordinary, zeroArchive_admissible _ _,
    not_writesOneFile rfl fun passes => ?_⟩
  rcases wideArchive_ordinary.indexPasses_iff.mp passes with dax | few
  · exact nomatch dax
  · rw [wideArchive_blocks] at few
    exact absurd few (by decide)

end Writer

end Maxcso
