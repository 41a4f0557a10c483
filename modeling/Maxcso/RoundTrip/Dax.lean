import Maxcso.Reader.Frames
import Maxcso.RoundTrip.Files
import Maxcso.Writer.Finality

/-!
# DAX files there and back

The DAX file that the writer leaves is well formed and is read back as the
image.
-/

namespace Maxcso

open FileBytes Transition

namespace WriterConfig

/-- The settings for a DAX file that stays small. -/
structure ForDax (config : WriterConfig) : Prop where
  fmt : config.fmt = .dax
  chosen : config.fmt = CompressionTask.format config.flags
  compresses : config.decompressing = false
  hasFile : config.noFile = false
  blockSize : config.shift = 13
  sectors : sectorSize ∣ config.srcSize
  small : daxHeaderSize + 6 * config.blocks + config.srcSize < 2 ^ 31

section

variable {config : WriterConfig} {env : Environment}

theorem ForDax.size (settings : config.ForDax) :
    config.blockSize = daxFrameSize := by
  rw [WriterConfig.blockSize, settings.blockSize]
  rfl

theorem ForDax.first_eq (settings : config.ForDax) :
    config.first = daxHeaderSize + 6 * config.blocks := by
  have flag :=
    CompressionTask.daxFlag_of_format (settings.chosen.symm.trans settings.fmt)
  have compresses : hasFlag config.flags taskflagDecompress = false :=
    settings.compresses
  have small := settings.small
  rw [first, Output.dstFirstSectorPos, compresses, flag,
    config.blocks_eq _ config.blockShift, toUint32_natCast]
  simp only [Bool.false_eq_true, if_false, if_true]
  omega

theorem ForDax.shift_eq (settings : config.ForDax) :
    config.indexShift = 0 := by
  have small := settings.small
  have compresses := settings.compresses
  have sum : (config.first : Int) + config.srcSize =
      ((daxHeaderSize + 6 * config.blocks + config.srcSize : Nat) : Int) := by
    rw [settings.first_eq]
    omega
  have log : Nat.log2
      (daxHeaderSize + 6 * config.blocks + config.srcSize) < 31 :=
    (Nat.log2_lt (by simp only [daxHeaderSize]; omega)).mpr small
  rw [indexShift, if_neg (by rw [compresses]; exact Bool.false_ne_true), sum,
    Output.shiftForSize_eq (by omega)]
  omega

theorem ForDax.accepted (settings : config.ForDax) : config.Accepted env := by
  have small := settings.small
  exact accepted_iff.mpr fun _ =>
    ⟨settings.shift_eq, by omega, settings.size⟩

end

end WriterConfig

/-- What the compressor may leave for the frames of an image: zlib streams of
at most 16384 bytes. -/
structure ZlibFrames (config : WriterConfig) (env : Environment)
    (image : Bytes) (zlib : Bytes → Bytes → Prop) : Prop where
  deflate : ∀ frame < config.blocks,
    (config.kept env image frame).1 = .deflate
  short : ∀ frame < config.blocks,
    (config.kept env image frame).2.length ≤ 16384
  zlib : ∀ frame < config.blocks,
    zlib (config.kept env image frame).2
      (pread (image ++ List.replicate config.blockSize 0)
        (frame * config.blockSize) config.blockSize)

namespace Archive

variable {archive : Archive}

/-- The DAX file that is written. -/
def daxFile (archive : Archive) : DaxFile where
  header := archive.base.daxHeader
  areas := []
  position := fun frame => (archive.pos frame).toNat
  data := fun frame => (archive.stored frame).2
  content := archive.content

section

variable {zlib : Bytes → Bytes → Prop}

theorem daxFile_frames (settings : archive.ForDax) :
    archive.daxFile.header.uncompressedSize = archive.srcSize ∧
      archive.daxFile.frames = archive.blocks := by
  have small := settings.small
  have size : archive.daxFile.header.uncompressedSize = archive.srcSize := by
    show toUint32 archive.base.srcSize = archive.srcSize
    rw [base_eq]
    exact toUint32_of_lt (by omega)
  refine ⟨size, ?_⟩
  rw [DaxFile.frames, size, WriterConfig.blocks, settings.size]

theorem frames_pos (settings : archive.ForDax) :
    archive.pos 0 = (daxHeaderSize + 6 * archive.blocks : Nat) := by
  rw [pos_zero, WriterConfig.indexAlign, settings.shift_eq, settings.first_eq,
    Nat.pow_zero, RoundUp.roundUp_eq_self (one_dvd _)]

/-- Frames of 16384 bytes stay below 4 GiB. -/
theorem frame_pos_le
    (settings : archive.ForDax)
    (frames : ZlibFrames archive.toWriterConfig archive.env archive.image zlib)
    {frame : Nat} (inside : frame ≤ archive.blocks) :
    archive.pos frame ≤
      (daxHeaderSize + 6 * archive.blocks + 16384 * frame : Nat) := by
  induction frame with
  | zero => exact (frames_pos settings).le
  | succ frame inductionHypothesis =>
      have before := inductionHypothesis (by omega)
      have short : archive.size frame ≤ 16384 := frames.short frame inside
      rw [pos_succ_dax settings.fmt,
        written_compressed settings.compresses]
      omega

theorem frame_pos_lt
    (settings : archive.ForDax)
    (frames : ZlibFrames archive.toWriterConfig archive.env archive.image zlib)
    {frame : Nat} (inside : frame ≤ archive.blocks) :
    archive.pos frame < 2 ^ 32 := by
  have high := frame_pos_le settings frames inside
  have small := settings.small
  have bounds := archive.srcSize_bounds
  rw [settings.size] at bounds
  simp only [daxFrameSize, daxHeaderSize] at *
  omega

/-- The entries of the index are the positions of the frames. -/
theorem frame_entry
    (settings : archive.ForDax)
    (frames : ZlibFrames archive.toWriterConfig archive.env archive.image zlib)
    {frame : Nat} (inside : frame ≤ archive.blocks) :
    archive.entry frame = archive.daxFile.position frame := by
  have low := archive.pos_nonneg frame
  have high := frame_pos_lt settings frames inside
  show archive.entry frame = (archive.pos frame).toNat
  rw [entry_dax settings.fmt]
  unfold toUint32
  omega

/-- The sizes that are worked out from the entries are those of the frames. -/
theorem frame_size
    (settings : archive.ForDax)
    (frames : ZlibFrames archive.toWriterConfig archive.env archive.image zlib)
    {frame : Nat} (inside : frame < archive.blocks) :
    archive.indexed.daxSizes archive.env frame =
      (archive.daxFile.data frame).length := by
  have short : archive.size frame ≤ 16384 := frames.short frame inside
  have length := frameLength_dax settings.fmt settings.compresses frame
  rw [Nat.mod_eq_of_lt (by omega)] at length
  rw [Output.daxSizes, length, if_pos (by omega)]
  rfl

/-- The tables follow the header. -/
theorem indexWrite_dax
    (settings : archive.ForDax)
    (frames : ZlibFrames archive.toWriterConfig archive.env archive.image zlib) :
    archive.indexWrite.data =
      archive.daxFile.header.encode ++
        encodeTable 4 archive.blocks archive.daxFile.position ++
        encodeTable 2 archive.blocks fun frame =>
          (archive.daxFile.data frame).length := by
  have small := settings.small
  have uncut : ∀ (width : Nat) (table : Nat → Nat), width ≤ 4 →
      Output.tableBuffer width archive.blocks table =
        encodeTable width archive.blocks table := by
    intro width table narrow
    have wide : archive.blocks * width ≤ archive.blocks * 4 :=
      Nat.mul_le_mul_left _ narrow
    rw [Output.tableBuffer, Output.uvBufLength, Nat.mod_eq_of_lt (by omega)]
    apply List.take_of_length_le
    rw [length_encodeTable, Nat.mul_comm]
  have positions : encodeTable 4 archive.blocks archive.entry =
      encodeTable 4 archive.blocks archive.daxFile.position :=
    Output.encodeTable_congr fun frame inside =>
      frame_entry settings frames (Nat.le_of_lt inside)
  have sizes : encodeTable 2 archive.blocks
        (archive.indexed.daxSizes archive.env) =
      encodeTable 2 archive.blocks fun frame =>
        (archive.daxFile.data frame).length :=
    Output.encodeTable_congr fun frame inside =>
      frame_size settings frames inside
  unfold indexWrite
  rw [settings.fmt]
  dsimp only
  rw [uncut 4 _ (Nat.le_refl _), uncut 2 _ (by decide), positions, sizes]
  rfl

theorem daxFile_encodable (settings : archive.ForDax) :
    archive.daxFile.header.Encodable := by
  have small := settings.small
  have size := (daxFile_frames settings).1
  refine ⟨rfl, ?_, ?_, ?_, rfl⟩
  · rw [size]
    omega
  · exact Nat.two_pow_pos 32
  · exact Nat.two_pow_pos 32

/-- The file that is written is a well-formed DAX file for the image. -/
theorem daxFile_describes
    (settings : archive.ForDax)
    (whole : archive.image.length = archive.srcSize)
    (frames : ZlibFrames archive.toWriterConfig archive.env archive.image zlib)
    (apart : archive.Apart) :
    archive.daxFile.Describes zlib archive.file archive.image := by
  obtain ⟨size, count⟩ := daxFile_frames settings
  have small := settings.small
  have nonempty := archive.nonempty
  have header := Output.length_daxHeader archive.base
  have head := indexWrite_dax settings frames
  have start := frames_pos settings
  have total := archive.srcSize_bounds
  rw [settings.size] at total
  have length : archive.indexWrite.data.length =
      daxHeaderSize + 4 * archive.blocks + 2 * archive.blocks := by
    rw [head, List.length_append, List.length_append, length_encodeTable,
      length_encodeTable]
    exact congrArg (· + _ + _) header
  have front : archive.daxFile.header.encode.length = daxHeaderSize := header
  have none : ∀ frame, ¬ archive.daxFile.Uncompressed frame := by
    rintro frame ⟨version, _⟩
    exact nomatch version
  refine ⟨?_, daxFile_encodable settings, rfl, Nat.zero_le _, ?_, ?_, ?_,
    ?_, ?_, ?_, ?_, ?_⟩
  · rw [pread_file_head (by omega), head, List.append_assoc,
      pread_append_left (by omega), pread, List.drop_zero]
    exact List.take_of_length_le front.le
  · exact size.trans whole.symm
  · omega
  · rw [whole]
    exact settings.sectors
  · have place : daxHeaderSize = archive.daxFile.header.encode.length + 0 :=
      front.symm
    rw [count, pread_file_head (by omega), head, List.append_assoc]
    conv_lhs => rw [place]
    rw [pread_append_right,
      pread_append_left (by rw [length_encodeTable]; omega), pread,
      List.drop_zero]
    exact List.take_of_length_le (length_encodeTable ..).le
  · have place : daxHeaderSize + 4 * archive.blocks =
        (archive.daxFile.header.encode ++ encodeTable 4 archive.blocks
          archive.daxFile.position).length + 0 := by
      rw [List.length_append, front, length_encodeTable]
      rfl
    rw [count, pread_file_head (by omega), head]
    conv_lhs => rw [place]
    rw [pread_append_right, pread, List.drop_zero]
    exact List.take_of_length_le (length_encodeTable ..).le
  · intro version
    exact nomatch version
  · show (archive.pos 0).toNat < archive.image.length
    rw [start, Int.toNat_natCast, whole]
    obtain ⟨sectors, same⟩ := settings.sectors
    simp only [daxFrameSize, daxHeaderSize, sectorSize] at *
    omega
  · intro frame inside
    rw [count] at inside
    have low := archive.pos_nonneg frame
    have high := frame_pos_lt settings frames (Nat.le_of_lt inside)
    have content := length_content inside
    rw [settings.size] at content
    refine ⟨?_, pread_file_stored settings.compresses apart inside, ?_, ?_,
      fun raw => absurd raw (none frame), fun _ => ⟨?_, ?_⟩⟩
    · show (archive.pos frame).toNat < 2 ^ 32
      omega
    · show pread archive.image (daxFrameSize * frame) daxFrameSize <+:
        archive.content frame
      rw [Archive.content, padded, settings.size, Nat.mul_comm]
      exact pread_prefix_append _ _ _ _
    · exact content.le
    · exact frames.zlib frame inside
    · exact frames.short frame inside

end

end Archive

namespace Writer

/-- Every run with the settings can be completed and leaves a well-formed DAX
file, which is read back as the image. -/
structure DaxRoundTrip (config : WriterConfig) (env : Environment)
    (image : Bytes) (zlib : Bytes → Bytes → Prop) : Prop where
  completes : ∀ {pool : BufferPool} {events : List WriterEvent}
    {writer : Writer}, config.blockSize ≤ pool.bufferSize →
      Run config env image .full (start env config pool) events writer →
        ∃ more last, Run config env image .full writer more last ∧ last.Done
  leaves : ∀ {pool : BufferPool} {events : List WriterEvent}
    {writer : Writer}, config.blockSize ≤ pool.bufferSize →
      Run config env image .full (start env config pool) events writer →
        writer.Done →
          successNotes writer.notes = [(writer.file.length : Int)] ∧
            ∃ dax : DaxFile, dax.Describes zlib writer.file image ∧
              ∀ frame < dax.frames, dax.position frame < 2 ^ 32 ∧
                (dax.data frame).length < 2 ^ 16
  reads : ∀ {pool : BufferPool} {events : List WriterEvent}
    {writer : Writer}, config.blockSize ≤ pool.bufferSize →
      Run config env image .full (start env config pool) events writer →
        writer.Done → ∀ {env' : Environment} {pool' : BufferPool}
          {events' : List ReaderEvent} {reader : Reader},
          DaxFile.Inflates env' zlib → env'.CompleteReads writer.file →
            (∀ count, env'.workStatus count ≠ -1) →
              daxFrameSize ≤ pool'.bufferSize →
                Execution (Reader.step Input.fetchCached env')
                    Reader.KeepsRoom (Reader.start env' pool') events'
                    reader →
                  reader.Delivers env' image events'

/-- Images are written to DAX files and read back. -/
theorem dax_round_trip
    {config : WriterConfig} (settings : config.ForDax) {env : Environment}
    {image : Bytes} (whole : image.length = config.srcSize)
    {zlib : Bytes → Bytes → Prop}
    (nonempty : ∀ data content, zlib data content → data ≠ [])
    (frames : ZlibFrames config env image zlib) :
    DaxRoundTrip config env image zlib := by
  let archive : Archive :=
    { config with
      env := env
      image := image
      length := whole.trans (config.sourceSize_eq settings.sectors).symm
      accepted := settings.accepted }
  have immediate : archive.immediate = false := by
    rw [Archive.immediate,
      show archive.decompressing = false from settings.compresses,
      show archive.noFile = false from settings.hasFile]
    rfl
  have admissible : archive.Admissible := by
    refine ⟨fun frame inside => ?_, fun frame inside => ?_⟩
    · have format : (archive.stored frame).1 = .deflate :=
        frames.deflate frame inside
      rw [format, show archive.fmt = .dax from settings.fmt]
      rfl
    · exact nonempty _ _ (frames.zlib frame inside)
  have passes : archive.IndexPasses :=
    Archive.indexPasses_iff.mpr (Or.inr (Or.inl settings.fmt))
  have ends : ∀ {pool : BufferPool} {events : List WriterEvent}
      {writer : Writer}, config.blockSize ≤ pool.bufferSize →
        Run config env image .full (start env config pool) events writer →
          writer.Done →
            archive.daxFile.Describes zlib writer.file image ∧
              successNotes writer.notes = [(writer.file.length : Int)] := by
    intro pool events writer room run done
    obtain ⟨apart, reported, file⟩ :=
      @file_of_done archive admissible settings.chosen immediate
        (Archive.few_of_dax settings.fmt) passes pool room events writer run
        done
    rw [reported, file, Archive.length_file apart]
    exact ⟨Archive.daxFile_describes settings whole frames apart, rfl⟩
  refine ⟨fun room run => ?_, fun room run done => ?_,
    fun room run done => ?_⟩
  · exact @completes archive _ .full Completions.possible_full _ room _ run
  · obtain ⟨described, reported⟩ := ends room run done
    refine ⟨reported, archive.daxFile, described, fun frame inside => ?_⟩
    have count := (@Archive.daxFile_frames archive settings).2
    have short := frames.short frame (count ▸ inside)
    refine ⟨(described.holds frame inside).position, ?_⟩
    exact Nat.lt_of_le_of_lt short (by decide)
  · intro env' pool' events' reader inflates complete works room' run'
    exact (Reader.delivers_dax inflates complete works
      (ends room run done).1 room' run').1

/-- The zlib stream of 8192 zero bytes. -/
def zeroFrameStream : Bytes :=
  [0x78, 0xDA, 0xED, 0xC1, 0x01, 0x0D, 0x00, 0x00, 0x00, 0xC2, 0xA0,
    0xF7, 0x4F, 0x6D, 0x0E, 0x37, 0xA0, 0x00, 0x00, 0x00, 0x00, 0x00,
    0x00, 0x00, 0x80, 0x77, 0x03, 0x20, 0x00, 0x00, 0x01]

theorem dax_round_trip_oneFrame :
    DaxRoundTrip (frameArchive zeroFrameStream).toWriterConfig
      (frameArchive zeroFrameStream).env
      (frameArchive zeroFrameStream).image
      (fun data content => data = zeroFrameStream ∧
        content = List.replicate daxFrameSize 0) := by
  have kept : ∀ block, (frameArchive zeroFrameStream).kept
      (frameArchive zeroFrameStream).env
      (frameArchive zeroFrameStream).image block =
        (.deflate, zeroFrameStream) := frameArchive_stored zeroFrameStream
  have blocks : (frameArchive zeroFrameStream).blocks = 1 := by decide
  have whole : (frameArchive zeroFrameStream).image.length =
      (frameArchive zeroFrameStream).srcSize := List.length_replicate
  refine dax_round_trip ⟨rfl, by decide, by decide, rfl, rfl, by decide, ?_⟩
    whole ?_ ⟨?_, ?_, ?_⟩
  · rw [blocks]
    decide
  · rintro _ _ ⟨rfl, _⟩
    decide
  · intro block _
    rw [kept]
  · intro block _
    rw [kept]
    decide
  · intro block inside
    obtain rfl : block = 0 := by omega
    rw [kept]
    refine ⟨rfl, ?_⟩
    show FileBytes.pread (List.replicate daxFrameSize 0 ++ _) (0 * _) _ = _
    rw [Nat.zero_mul, pread, List.drop_zero]
    exact List.take_left' List.length_replicate

end Writer

end Maxcso
