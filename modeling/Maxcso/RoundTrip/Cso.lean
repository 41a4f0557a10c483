import Maxcso.Reader.Documented
import Maxcso.RoundTrip.Files

/-!
# CSO and ZSO files there and back

The CSO or ZSO file that the writer leaves is well formed, within the limits
of the reader, and read back as the image.
-/

namespace Maxcso

open FileBytes RoundUp Transition

/-- The compressed forms of a block in a format. -/
def Codecs.form (codecs : Codecs) : SectorFormat → Bytes → Bytes → Prop
  | .orig => fun _ _ => False
  | .deflate => codecs.deflated
  | .lz4 => codecs.lz4

namespace Archive

/-- The results of the methods are compressed forms of the blocks, in buffers
of the pool. -/
structure CompressedWith (archive : Archive) (codecs : Codecs) : Prop where
  form : ∀ block < archive.blocks, ∀ trial ∈ archive.env.trials
    (block * archive.blockSize : Nat) (archive.content block),
      codecs.form trial.format trial.data (archive.content block)
  fits : ∀ block < archive.blocks, ∀ trial ∈ archive.env.trials
    (block * archive.blockSize : Nat) (archive.content block),
      trial.data.length ≤ maxBlockSize * 2

/-- The settings for a CSO or ZSO file of an image of whole sectors. -/
structure ForCsoFile (archive : Archive) : Prop extends archive.Ordinary where
  noDaxFlag : hasFlag archive.flags taskflagFmtDax = false
  sectors : sectorSize ∣ archive.srcSize

section

variable {archive : Archive} {codecs : Codecs}

theorem ForCsoFile.notDax (settings : archive.ForCsoFile) :
    archive.fmt ≠ .dax := by
  intro dax
  have set :=
    CompressionTask.daxFlag_of_format (settings.chosen.symm.trans dax)
  exact nomatch settings.noDaxFlag.symm.trans set

/-! ## The layout -/

/-- There are no more blocks than sectors. -/
theorem ForCsoFile.blocks_le (settings : archive.ForCsoFile) :
    sectorSize * archive.blocks ≤ archive.srcSize := by
  have bounds := archive.blockSize_bounds
  have size := archive.srcSize_bounds
  obtain ⟨count, same⟩ := settings.sectors
  rw [same]
  refine Nat.mul_le_mul_left _ ?_
  by_contra more
  have least : (count + 1) * archive.blockSize ≤
      archive.blocks * archive.blockSize :=
    Nat.mul_le_mul_right _ (by omega)
  have wide : sectorSize * count ≤ count * archive.blockSize := by
    rw [Nat.mul_comm]
    exact Nat.mul_le_mul_left _ bounds.1
  rw [Nat.add_mul] at least
  omega

theorem ForCsoFile.first_eq (settings : archive.ForCsoFile) :
    archive.first = csoHeaderSize + 4 * (archive.blocks + 1) := by
  have few := settings.few
  have compresses : hasFlag archive.flags taskflagDecompress = false :=
    settings.compresses
  unfold Few at few
  rw [WriterConfig.first, Output.dstFirstSectorPos, compresses,
    settings.noDaxFlag, archive.blocks_eq _ archive.blockShift,
    toUint32_natCast]
  simp only [Bool.false_eq_true, if_false]
  omega

/-- Blocks are aligned to at most 2048 bytes, and to more than one only in
images of more than 1 GiB. -/
theorem ForCsoFile.shift_bounds (settings : archive.ForCsoFile) :
    archive.indexShift ≤ 11 ∧
      (archive.indexShift = 0 ∨ 2 ^ 30 ≤ archive.srcSize) := by
  have small := settings.small
  have first := settings.first_eq
  have few := settings.blocks_le
  have compresses := settings.compresses
  have sum : (archive.first : Int) + archive.srcSize =
      ((archive.first + archive.srcSize : Nat) : Int) := rfl
  have below : archive.first + archive.srcSize < 2 ^ 42 := by omega
  have positive : archive.first + archive.srcSize ≠ 0 := by
    have nonempty := archive.nonempty
    omega
  have high : Nat.log2 (archive.first + archive.srcSize) < 42 :=
    (Nat.log2_lt positive).mpr below
  rw [WriterConfig.indexShift,
    if_neg (by rw [compresses]; exact Bool.false_ne_true), sum,
    Output.shiftForSize_eq (by omega)]
  refine ⟨by omega, ?_⟩
  by_cases large : archive.first + archive.srcSize < 2 ^ 31
  · have low : Nat.log2 (archive.first + archive.srcSize) < 31 :=
      (Nat.log2_lt positive).mpr large
    omega
  · right
    simp only [sectorSize, csoHeaderSize] at *
    omega

theorem ForCsoFile.align_bounds (settings : archive.ForCsoFile) :
    archive.indexAlign ≤ 2048 ∧ archive.indexAlign ∣ archive.blockSize := by
  have shift := settings.shift_bounds.1
  have large := archive.shiftBounds.1
  exact ⟨Nat.pow_le_pow_right (by decide) shift,
    Nat.pow_dvd_pow 2 (shift.trans large)⟩

/-- Every block starts at a multiple of the alignment. -/
theorem exists_pos (archive : Archive) (block : Nat) :
    ∃ place, archive.pos block = (place : Nat) ∧
      archive.indexAlign ∣ place := by
  have positive := archive.indexAlign_bounds.1
  cases block with
  | zero => exact ⟨_, pos_zero, dvd_roundUp positive _⟩
  | succ block =>
      have nonneg := archive.pos_nonneg block
      obtain ⟨sum, same⟩ := Int.eq_ofNat_of_zero_le
        (show 0 ≤ archive.pos block + archive.written block by omega)
      rw [pos_succ, same, base_align]
      exact ⟨_, rfl, dvd_roundUp positive _⟩

/-- A block takes up what is kept for it and its padding. -/
theorem ForCsoFile.pos_succ
    (settings : archive.ForCsoFile) (block : Nat) :
    archive.pos (block + 1) = archive.pos block +
      (roundUp archive.indexAlign (archive.size block) : Nat) := by
  obtain ⟨place, same, aligned⟩ := exists_pos archive block
  rw [Archive.pos_succ, written_compressed settings.compresses, same,
    ← Int.natCast_add, base_align, roundUp_add_left aligned,
    Int.natCast_add]

/-! ## What is kept -/

/-- A block is kept raw, or as a compressed form of less than its size. -/
theorem ForCsoFile.stored_cases
    (settings : archive.ForCsoFile)
    (compressed : archive.CompressedWith codecs) {block : Nat}
    (inside : block < archive.blocks) :
    archive.stored block = (.orig, archive.content block) ∨
      ∃ format data, archive.stored block = (format, data) ∧
        codecs.form format data (archive.content block) ∧
        roundUp archive.indexAlign data.length < archive.blockSize := by
  have align := settings.align_bounds.1
  have positive := archive.indexAlign_bounds.1
  rw [stored, if_neg (by rw [settings.compresses]; exact Bool.false_ne_true)]
  rcases Sector.result_cases archive.env archive.template
      (block * archive.blockSize : Nat) (archive.content block) with
    raw | ⟨trial, member, same, small⟩
  · exact Or.inl raw
  · have fits := compressed.fits block inside trial member
    have less := small settings.noDaxFlag
    have aligned := @Sector.alignedBestSize_eq
      { archive.template with bestSize := trial.data.length }
      archive.indexAlign positive (by
        show trial.data.length + _ ≤ _
        simp only [maxBlockSize] at fits
        omega)
    refine Or.inr ⟨trial.format, trial.data, same,
      compressed.form block inside trial member, ?_⟩
    exact lt_of_eq_of_lt aligned.symm less

/-- No block takes up more than its size. -/
theorem ForCsoFile.roundUp_size_le
    (settings : archive.ForCsoFile)
    (compressed : archive.CompressedWith codecs) {block : Nat}
    (inside : block < archive.blocks) :
    roundUp archive.indexAlign (archive.size block) ≤ archive.blockSize := by
  rcases settings.stored_cases compressed inside with
    raw | ⟨format, data, same, _, small⟩
  · rw [size, raw, length_content inside,
      roundUp_eq_self settings.align_bounds.2]
  · rw [size, same]
    exact Nat.le_of_lt small

end

/-! ## The file -/

/-- The CSO or ZSO file that is written. -/
def csoFile (archive : Archive) : CsoFile where
  format := archive.fmt
  header := archive.base.csoHeader
  entry := archive.entry
  data := fun block => (archive.stored block).2
  content := archive.content

section

variable {archive : Archive} {codecs : Codecs}

theorem csoFile_header (settings : archive.ForCsoFile) :
    archive.csoFile.header =
      { magic := if archive.fmt = .zso then zsoMagic else csoMagic
        headerSize := csoHeaderSize
        uncompressedSize := archive.srcSize
        sectorSize := archive.blockSize
        version := if archive.fmt = .cso2 then 2 else 1
        indexShift := archive.indexShift
        unused := [0, 0] } := by
  have small := settings.small
  show archive.base.csoHeader = _
  rw [base_eq, Output.csoHeader]
  have size : ((archive.srcSize : Int) % 2 ^ 64).toNat = archive.srcSize := by
    omega
  dsimp only
  rw [size]

theorem csoFile_blocks (settings : archive.ForCsoFile) :
    archive.csoFile.blocks = archive.blocks := by
  rw [CsoFile.blocks, csoFile_header settings]
  rfl

/-- The entries say where the blocks are. -/
theorem csoFile_position
    (settings : archive.ForCsoFile) {block : Nat}
    (inside : block ≤ archive.blocks) :
    (archive.csoFile.position block : Int) = archive.pos block := by
  obtain ⟨place, same, factor, product⟩ := exists_pos archive block
  have entry := settings.entry_mod inside
  have power : ((archive.indexAlign : Nat) : Int) =
      2 ^ archive.indexShift := by
    rw [WriterConfig.indexAlign, Int.natCast_pow]
    rfl
  have shift : archive.csoFile.header.indexShift = archive.indexShift := by
    rw [csoFile_header settings]
  have positive : (2 : Int) ^ archive.indexShift ≠ 0 :=
    Int.ne_of_gt (Int.pow_pos (by decide))
  rw [same, product, Int.natCast_mul, power,
    Int.mul_ediv_cancel_left _ positive] at entry
  rw [CsoFile.position, shift, Int.natCast_mul]
  show ((archive.entry block % 2 ^ 31 : Nat) : Int) * _ = _
  rw [entry, same, product, Int.natCast_mul, power, Int.natCast_pow,
    Int.mul_comm]
  rfl

theorem csoFile_length
    (settings : archive.ForCsoFile) {block : Nat}
    (inside : block < archive.blocks) :
    archive.csoFile.length block =
      roundUp archive.indexAlign (archive.size block) := by
  have start := csoFile_position settings (Nat.le_of_lt inside)
  have stop := @csoFile_position archive settings (block + 1) inside
  have next := settings.pos_succ block
  rw [CsoFile.length]
  omega

/-- Which entries have their highest bit set. -/
def flagged : CsoFormat → SectorFormat → Bool
  | .cso1, .orig | .zso, .orig | .cso2, .lz4 => true
  | _, _ => false

theorem csoFile_highBit
    (settings : archive.ForCsoFile) {block : Nat}
    (inside : block < archive.blocks) :
    archive.csoFile.highBit block =
      flagged archive.fmt (archive.stored block).1 := by
  have high := settings.positions block (Nat.le_of_lt inside)
  have low : 0 ≤ archive.pos block / 2 ^ archive.indexShift :=
    Int.ediv_nonneg (archive.pos_nonneg block) (Int.pow_nonneg (by decide))
  have clear : (toUint32 (archive.pos block / 2 ^ archive.indexShift)).testBit
      31 = false := by
    refine Nat.testBit_lt_two_pow ?_
    unfold toUint32
    omega
  have set : ∀ word : Nat, (word ||| 0x80000000).testBit 31 = true := by
    intro word
    rw [Nat.testBit_or]
    exact Bool.or_true _
  show (archive.entry block).testBit 31 = _
  rw [entry, if_pos inside]
  unfold Output.indexWord
  cases archive.fmt with
  | cso1 | zso =>
      cases (archive.stored block).1 with
      | orig => exact set _
      | deflate | lz4 => exact clear
  | cso2 =>
      cases (archive.stored block).1 with
      | lz4 => exact set _
      | orig | deflate => exact clear
  | dax => exact clear

theorem csoFile_lastEntry (settings : archive.ForCsoFile) :
    archive.csoFile.highBit archive.csoFile.blocks = false := by
  have high := settings.positions archive.blocks (Nat.le_refl _)
  have low : 0 ≤ archive.pos archive.blocks / 2 ^ archive.indexShift :=
    Int.ediv_nonneg (archive.pos_nonneg _) (Int.pow_nonneg (by decide))
  rw [csoFile_blocks settings]
  show (archive.entry archive.blocks).testBit 31 = false
  rw [entry, if_neg (Nat.lt_irrefl _)]
  refine Nat.testBit_lt_two_pow ?_
  unfold toUint32
  omega

/-- The reader takes a block for uncompressed exactly when it was kept so. -/
theorem csoFile_uncompressed
    (settings : archive.ForCsoFile)
    (compressed : archive.CompressedWith codecs) {block : Nat}
    (inside : block < archive.blocks) :
    archive.csoFile.uncompressed block =
      decide ((archive.stored block).1 = .orig) := by
  have bit := csoFile_highBit settings inside
  have length := csoFile_length settings inside
  have width : archive.csoFile.header.sectorSize = archive.blockSize := by
    rw [csoFile_header settings]
  have format : archive.csoFile.format = archive.fmt := rfl
  unfold CsoFile.uncompressed
  rw [format, bit, length, width]
  cases fmt : archive.fmt with
  | cso1 | zso => cases (archive.stored block).1 <;> rfl
  | dax => exact absurd fmt settings.notDax
  | cso2 =>
      dsimp only
      rw [decide_eq_decide]
      rcases settings.stored_cases compressed inside with
        raw | ⟨form, data, same, encoded, small⟩
      · have whole : roundUp archive.indexAlign (archive.size block) =
            archive.blockSize := by
          rw [size, raw, length_content inside,
            roundUp_eq_self settings.align_bounds.2]
        rw [raw, whole]
        exact iff_of_true (Nat.le_refl _) rfl
      · rw [size, same]
        refine iff_of_false (Nat.not_le.mpr small) ?_
        rintro rfl
        exact encoded

/-- The data of a block are a compressed form in a format of the file. -/
theorem csoFile_compressedAs
    (settings : archive.ForCsoFile)
    (admissible : archive.Admissible) {block : Nat}
    (inside : block < archive.blocks) {format : SectorFormat} {data : Bytes}
    (same : archive.stored block = (format, data))
    (encoded : codecs.form format data (archive.content block)) :
    archive.csoFile.compressedAs codecs block data
      (archive.content block) := by
  have bit := csoFile_highBit settings inside
  have accepted := admissible.format block inside
  have kind : archive.csoFile.format = archive.fmt := rfl
  unfold CsoFile.compressedAs
  rw [same] at bit accepted
  rw [kind, bit]
  cases fmt : archive.fmt with
  | dax => exact absurd fmt settings.notDax
  | cso1 | cso2 | zso =>
      rw [fmt] at accepted
      cases format with
      | orig => exact encoded.elim
      | deflate | lz4 =>
          first
          | exact encoded
          | exact nomatch accepted

theorem csoFile_holds
    (settings : archive.ForCsoFile) (admissible : archive.Admissible)
    (compressed : archive.CompressedWith codecs) (apart : archive.Apart)
    {block : Nat} (inside : block < archive.blocks) :
    archive.csoFile.HoldsBlock codecs archive.file archive.image block := by
  have start := csoFile_position settings (Nat.le_of_lt inside)
  have stop := @csoFile_position archive settings (block + 1) inside
  have next := settings.pos_succ block
  have some := written_pos (admissible.nonempty _ inside) inside
  have length := length_chunk inside
  have width : archive.csoFile.header.sectorSize = archive.blockSize := by
    rw [csoFile_header settings]
  rw [written_compressed settings.compresses] at some
  have least := le_roundUp archive.indexAlign (archive.size block)
  have cases := settings.stored_cases compressed inside
  have raw := csoFile_uncompressed settings compressed inside
  refine ⟨by omega, ?_, ?_, ?_, ?_⟩
  · have place : archive.csoFile.position block =
        (archive.pos block).toNat := by
      omega
    have extent : archive.csoFile.length block =
        (archive.chunk block).length := by
      rw [CsoFile.length]
      omega
    rw [place, extent, pread_file_chunk apart inside (Nat.le_refl _),
      List.take_length, chunk, written_compressed settings.compresses,
      size, List.take_length]
    exact ⟨_, rfl⟩
  · rw [width]
    exact pread_prefix_append _ _ _ _
  · intro isRaw
    rw [raw, decide_eq_true_eq] at isRaw
    rcases cases with same | ⟨format, data, same, encoded, _⟩
    · exact congrArg Prod.snd same
    · rw [same] at isRaw
      obtain rfl : format = .orig := isRaw
      exact encoded.elim
  · intro notRaw
    rw [raw, decide_eq_false_iff_not] at notRaw
    refine ⟨?_, (length_content inside).trans width.symm⟩
    rcases cases with same | ⟨format, data, same, encoded, _⟩
    · exact absurd (congrArg Prod.fst same) notRaw
    · have data' : archive.csoFile.data block = data :=
        congrArg Prod.snd same
      rw [data']
      exact csoFile_compressedAs settings admissible inside same encoded

theorem csoFile_headerFits (settings : archive.ForCsoFile) :
    archive.csoFile.HeaderFits := by
  have kind : archive.csoFile.format = archive.fmt := rfl
  unfold CsoFile.HeaderFits
  rw [csoFile_header settings, kind]
  cases fmt : archive.fmt with
  | dax => exact absurd fmt settings.notDax
  | cso1 => exact ⟨rfl, Nat.le_refl _⟩
  | cso2 | zso => exact ⟨rfl, rfl, rfl, rfl⟩

theorem csoFile_encodable (settings : archive.ForCsoFile) :
    archive.csoFile.header.Encodable := by
  have small := settings.small
  have bounds := archive.blockSize_bounds
  have shift := settings.shift_bounds.1
  rw [csoFile_header settings]
  refine ⟨?_, Nat.lt_of_lt_of_le (by decide : csoHeaderSize < 2 ^ 5)
    (Nat.pow_le_pow_right (by decide) (by decide)), ?_, ?_, ?_, ?_, rfl⟩
  · dsimp only
    split <;> rfl
  · dsimp only
    omega
  · dsimp only
    omega
  · dsimp only
    split <;> decide
  · dsimp only
    omega

/-- The index follows the header. -/
theorem indexWrite_cso
    (settings : archive.ForCsoFile) (few : archive.blocks + 1 < 2 ^ 30) :
    archive.indexWrite.data = archive.csoFile.header.encode ++
      encodeTable 4 (archive.blocks + 1) archive.entry := by
  have uncut : Output.tableBuffer 4 (archive.blocks + 1) archive.entry =
      encodeTable 4 (archive.blocks + 1) archive.entry := by
    rw [Output.tableBuffer, Output.uvBufLength, Nat.mod_eq_of_lt (by omega)]
    apply List.take_of_length_le
    rw [length_encodeTable, Nat.mul_comm]
  unfold indexWrite
  cases fmt : archive.fmt with
  | dax => exact absurd fmt settings.notDax
  | _ =>
      dsimp only
      rw [uncut]
      rfl

/-- The file that is written is a well-formed CSO or ZSO file for the
image. -/
theorem csoFile_describes
    (settings : archive.ForCsoFile) (admissible : archive.Admissible)
    (compressed : archive.CompressedWith codecs)
    (few : archive.blocks + 1 < 2 ^ 30) (apart : archive.Apart) :
    archive.csoFile.Describes codecs archive.file archive.image := by
  have header := csoFile_header settings
  have count := csoFile_blocks settings
  have small := settings.small
  have shift := settings.shift_bounds.1
  have nonempty := archive.nonempty
  have whole : archive.image.length = archive.srcSize :=
    archive.length.trans (archive.sourceSize_eq settings.sectors)
  have head := indexWrite_cso settings few
  have front : archive.csoFile.header.encode.length = csoHeaderSize :=
    CsoHeader.length_encode (csoFile_encodable settings)
  have length : archive.indexWrite.data.length =
      csoHeaderSize + 4 * (archive.blocks + 1) := by
    rw [head, List.length_append, length_encodeTable, front]
  have start := @csoFile_position archive settings 0 (Nat.zero_le _)
  have stop := @csoFile_position archive settings archive.blocks
    (Nat.le_refl _)
  have total := length_file apart
  refine ⟨?_, csoFile_encodable settings, csoFile_headerFits settings, ?_,
    ?_, ?_, ?_, ?_, ?_, fun block _ => entry_lt block, ?_, ?_, ?_, ?_, ?_⟩
  · rw [pread_file_head (by omega), head, pread_append_left (by omega),
      pread, List.drop_zero]
    exact List.take_of_length_le front.le
  · rw [header]
    exact ⟨archive.shift, archive.shiftBounds.1, archive.shiftBounds.2, rfl⟩
  · rw [header]
    dsimp only
    omega
  · rw [header]
    exact whole.symm
  · omega
  · rw [whole]
    exact settings.sectors
  · omega
  · have place : csoHeaderSize =
        archive.csoFile.header.encode.length + 0 := front.symm
    rw [count, pread_file_head (by omega), head]
    conv_lhs => rw [place]
    rw [pread_append_right, pread, List.drop_zero]
    exact List.take_of_length_le (length_encodeTable ..).le
  · rw [count]
    unfold Apart at apart
    omega
  · rw [count]
    omega
  · intro _
    exact csoFile_lastEntry settings
  · intro block inside
    exact csoFile_holds settings admissible compressed apart
      (count ▸ inside)

theorem le_growCacheSize (fuel size : Nat) :
    size ≤ Input.growCacheSize fuel size := by
  induction fuel generalizing size with
  | zero => exact Nat.le_refl _
  | succ fuel inductionHypothesis =>
      have next := inductionHypothesis (size * 2)
      rw [Input.growCacheSize]
      split
      · omega
      · exact Nat.le_refl _

/-- The file is within the limits of the reader. -/
theorem csoFile_withinLimits
    (settings : archive.ForCsoFile)
    (compressed : archive.CompressedWith codecs)
    (few : archive.blocks + 1 < 2 ^ 30) {bufferSize : Nat}
    (large : archive.blockSize * 2 ≤ bufferSize) :
    archive.csoFile.WithinLimits bufferSize := by
  have count := csoFile_blocks settings
  have bounds := archive.blockSize_bounds
  have header := csoFile_header settings
  have width : archive.csoFile.header.sectorSize = archive.blockSize := by
    rw [header]
  have cacheSize : archive.blockSize ≤ archive.csoFile.cacheSize := by
    rw [CsoFile.cacheSize, width]
    exact le_growCacheSize _ _
  have readLength : ∀ block < archive.blocks,
      archive.csoFile.readLength block = archive.csoFile.length block ∧
        archive.csoFile.length block ≤ archive.blockSize := by
    intro block inside
    have most := settings.roundUp_size_le compressed inside
    have length := csoFile_length settings inside
    rw [CsoFile.readLength]
    omega
  refine ⟨by omega, ?_, ?_⟩
  · intro block inside
    rw [count] at inside
    obtain ⟨same, most⟩ := readLength block inside
    have least := le_roundUp archive.indexAlign (archive.size block)
    have length := csoFile_length settings inside
    refine ⟨?_, by omega, fun _ => by omega, ?_⟩
    · show archive.size block ≤ _
      omega
    · intro format raw
      unfold CsoFile.uncompressed at raw
      rw [format, decide_eq_true_eq] at raw
      omega
  · rintro ⟨beyond, _⟩
    have start := @csoFile_position archive settings 0 (Nat.zero_le _)
    have first := settings.first_eq
    have sectors := settings.blocks_le
    have align := settings.align_bounds.1
    have shift := settings.shift_bounds.2
    have next := roundUp_lt_add archive.indexAlign_bounds.1 archive.first
    have size : archive.csoFile.header.uncompressedSize =
        archive.srcSize := by
      rw [header]
    have positive := archive.blocks_pos
    have one : archive.indexShift = 0 → archive.indexAlign = 1 := by
      intro zero
      rw [WriterConfig.indexAlign, zero, Nat.pow_zero]
    rw [pos_zero] at start
    simp only [sectorSize, csoHeaderSize] at *
    omega

end

end Archive

namespace Writer

/-- Every run can be completed and leaves a file that is read back as the
image, however the reader is paused and resumed. -/
structure CsoRoundTrip (archive : Archive) (codecs : Codecs) : Prop where
  completes : ∀ {pool : BufferPool} {events : List WriterEvent}
    {writer : Writer}, archive.blockSize ≤ pool.bufferSize →
      Run archive.toWriterConfig archive.env archive.image .full
        (start archive.env archive.toWriterConfig pool) events writer →
        ∃ more last, Run archive.toWriterConfig archive.env archive.image
          .full writer more last ∧ last.Done
  leaves : ∀ {pool : BufferPool} {events : List WriterEvent}
    {writer : Writer}, archive.blockSize ≤ pool.bufferSize →
      Run archive.toWriterConfig archive.env archive.image .full
        (start archive.env archive.toWriterConfig pool) events writer →
        writer.Done →
          successNotes writer.notes = [(writer.file.length : Int)]
  reads : ∀ {pool : BufferPool} {events : List WriterEvent}
    {writer : Writer}, archive.blockSize ≤ pool.bufferSize →
      Run archive.toWriterConfig archive.env archive.image .full
        (start archive.env archive.toWriterConfig pool) events writer →
        writer.Done → ∀ {env : Environment} {pool' : BufferPool}
          {events' : List ReaderEvent} {reader : Reader},
          (env.DecodesPadded codecs fun padding =>
              ∃ count, padding = List.replicate count 0) →
            env.CompleteReads writer.file →
              (∀ count, env.workStatus count ≠ -1) →
                archive.blockSize * 2 ≤ pool'.bufferSize →
                  Execution (Reader.step Input.fetchCached env)
                      Reader.KeepsPool (Reader.start env pool') events'
                      reader →
                    reader.Delivers env archive.image events'

section

variable {archive : Archive} {codecs : Codecs}

/-- Only zeros follow the data of a block. -/
theorem csoFile_paddedBy
    (settings : archive.ForCsoFile) (apart : archive.Apart) :
    archive.csoFile.PaddedBy archive.file fun padding =>
      ∃ count, padding = List.replicate count 0 := by
  intro block inside padding count stored
  rw [Archive.csoFile_blocks settings] at inside
  have start := Archive.csoFile_position settings (Nat.le_of_lt inside)
  have stop :=
    @Archive.csoFile_position archive settings (block + 1) inside
  have length := Archive.length_chunk inside
  have place : archive.csoFile.position block =
      (archive.pos block).toNat := by
    omega
  have extent : archive.csoFile.length block =
      (archive.chunk block).length := by
    rw [CsoFile.length]
    omega
  rw [place, extent, Archive.pread_file_chunk apart inside (Nat.le_refl _),
    List.take_length, Archive.chunk,
    archive.written_compressed settings.compresses, Archive.size,
    List.take_length] at stored
  have zeros := List.append_cancel_left stored
  rw [← zeros, List.take_replicate]
  exact ⟨_, rfl⟩

/-- Without the index there is no success. -/
theorem not_csoRoundTrip
    (hasFile : archive.noFile = false) (cut : ¬ archive.IndexPasses) :
    ¬ CsoRoundTrip archive codecs := by
  intro trip
  let pool : BufferPool := ⟨archive.blockSize, 0, [], 0⟩
  have room : archive.blockSize ≤ pool.bufferSize := Nat.le_refl _
  obtain ⟨_, last, run, done⟩ := trip.completes room (.nil _)
  have reported := trip.leaves room run done
  rw [successNotes_of_cut Completions.capped_full hasFile cut room run]
    at reported
  exact nomatch reported

end

/-- What is written is read back exactly when the index is not cut by
`uv_buf_init`. -/
theorem cso_round_trip
    {archive : Archive} (settings : archive.ForCsoFile)
    (admissible : archive.Admissible) {codecs : Codecs}
    (compressed : archive.CompressedWith codecs) :
    CsoRoundTrip archive codecs ↔ archive.blocks + 1 < 2 ^ 30 := by
  have passes_iff : archive.IndexPasses ↔ archive.blocks + 1 < 2 ^ 30 :=
    settings.indexPasses_iff.trans (or_iff_right settings.notDax)
  rw [← passes_iff]
  constructor
  · intro trip
    by_contra cut
    exact not_csoRoundTrip settings.hasFile cut trip
  · intro passes
    have few := passes_iff.mp passes
    have ends : ∀ {pool : BufferPool} {events : List WriterEvent}
        {writer : Writer}, archive.blockSize ≤ pool.bufferSize →
          Run archive.toWriterConfig archive.env archive.image .full
            (start archive.env archive.toWriterConfig pool) events writer →
            writer.Done →
              archive.Apart ∧
                successNotes writer.notes = [archive.pos archive.blocks] ∧
                writer.file = archive.file := fun room run done =>
      file_of_done admissible settings.chosen settings.immediate
        settings.few passes room run done
    refine ⟨fun room run => completes Completions.possible_full room run,
      fun room run done => ?_, fun room run done => ?_⟩
    · obtain ⟨apart, reported, file⟩ := ends room run done
      rw [reported, file, Archive.length_file apart]
    · obtain ⟨apart, _, file⟩ := ends room run done
      intro env pool' events' reader decodes complete works large run'
      rw [file] at complete
      have width : archive.csoFile.header.sectorSize =
          archive.blockSize := by
        rw [Archive.csoFile_header settings]
      have described := Archive.csoFile_describes settings admissible
        compressed few apart
      exact Reader.delivers_image
        (described.readable (csoFile_paddedBy settings apart) decodes
          complete works (width ▸ large)
          (Archive.csoFile_withinLimits settings compressed few large)) run'

/-- The deflate stream of 2048 zero bytes. -/
def zeroSectorStream : Bytes :=
  [0x63, 0x60, 0x18, 0x05, 0xA3, 0x60, 0x14, 0x8C, 0x82, 0x51, 0x30, 0x0A,
    0x46, 0xC1, 0x48, 0x03, 0x00]

/-- A sector of zeros, for which a method returns that stream. -/
def deflateArchive : Archive :=
  { zeroConfig 1 Nat.one_pos with
    env := { Environment.ofFile [] with
      trials := fun _ _ => [⟨zeroSectorStream, .deflate⟩] }
    image := List.replicate 2048 0
    length := (zeroArchive 1 Nat.one_pos).length
    accepted := WriterConfig.accepted_of_not_dax nofun }

/-- Only that stream is known, and what it stands for. -/
def zeroSectorCodecs : Codecs where
  deflated data content :=
    data = zeroSectorStream ∧ content = List.replicate 2048 0
  lz4 _ _ := False

theorem deflateArchive_stored (block : Nat) :
    deflateArchive.stored block = (.deflate, zeroSectorStream) := by
  have compresses : deflateArchive.decompressing = false :=
    (by decide : hasFlag 0 taskflagDecompress = false)
  have align : deflateArchive.template.align = 1 :=
    (by decide : deflateArchive.indexAlign = 1)
  have better : (Sector.better
      { deflateArchive.template with bestSize := 2048, bestFmt := .orig }
      zeroSectorStream.length .deflate) = true := by
    decide
  have trials : ∀ (pos : Int) (content : Bytes),
      deflateArchive.env.trials pos content =
        [⟨zeroSectorStream, .deflate⟩] := fun _ _ => rfl
  have size : deflateArchive.template.blockSize = 2048 := rfl
  rw [Archive.stored, compresses, if_neg Bool.false_ne_true, Sector.result,
    Sector.bestOf, trials, align, size, List.foldl_cons, List.foldl_nil,
    Sector.submit, if_pos better, Sector.finalize]
  dsimp only
  rw [size, if_neg]
  · rfl
  · rintro ⟨large, _⟩
    exact absurd large (by decide)

theorem deflateArchive_settings : deflateArchive.ForCsoFile := by
  have blocks : deflateArchive.blocks = 1 := by decide
  have align : deflateArchive.indexAlign = 1 := by decide
  have start : deflateArchive.pos 0 = 32 := by
    rw [Archive.pos_zero, align]
    decide
  have next : deflateArchive.pos 1 = 32 + 17 := by
    rw [Archive.pos_succ_of_align align,
      Archive.written_compressed (by decide), Archive.size,
      deflateArchive_stored, start]
    rfl
  refine ⟨⟨(by decide : CsoFormat.cso1 = CompressionTask.format 0),
    by decide, rfl, by decide, ?_⟩, by decide, Nat.dvd_refl _⟩
  intro block inside
  have few : block = 0 ∨ block = 1 := by omega
  have shift : deflateArchive.indexShift = 0 := by decide
  rw [shift]
  rcases few with rfl | rfl
  · rw [start]
    decide
  · rw [next]
    decide

theorem cso_round_trip_deflate :
    CsoRoundTrip deflateArchive zeroSectorCodecs := by
  refine (cso_round_trip deflateArchive_settings ⟨?_, ?_⟩ ⟨?_, ?_⟩).mpr ?_
  · intro block _
    rw [deflateArchive_stored]
    rfl
  · intro block _
    rw [deflateArchive_stored]
    decide
  · intro block inside trial member
    obtain rfl : block = 0 := by
      have blocks : deflateArchive.blocks = 1 := by decide
      omega
    obtain rfl := List.mem_singleton.mp member
    refine ⟨rfl, ?_⟩
    rw [Archive.content, Nat.zero_mul, pread, List.drop_zero]
    exact List.take_left' List.length_replicate
  · intro block _ trial member
    obtain rfl := List.mem_singleton.mp member
    decide
  · decide

/-- Nothing of an index of 4 GiB is written, so that there is nothing to
read back. -/
theorem wide_index_no_round_trip :
    wideArchive.ForCsoFile ∧ wideArchive.Admissible ∧
      wideArchive.CompressedWith zeroSectorCodecs ∧
        ¬ CsoRoundTrip wideArchive zeroSectorCodecs := by
  refine ⟨⟨wideArchive_ordinary, by decide, ?_⟩, zeroArchive_admissible _ _,
    ⟨?_, ?_⟩, not_csoRoundTrip rfl fun passes => ?_⟩
  · exact Nat.dvd_mul_left _ _
  · intro _ _ trial none
    exact absurd none List.not_mem_nil
  · intro _ _ trial none
    exact absurd none List.not_mem_nil
  · rcases wideArchive_ordinary.indexPasses_iff.mp passes with dax | few
    · exact nomatch dax
    · rw [wideArchive_blocks] at few
      exact absurd few (by decide)

end Writer

end Maxcso
