import Maxcso.Reader.Indexed

/-!
# The documented format

CSO and ZSO files as README_CSO.md and README_ZSO.md describe them, without
regard to the reader, and the files among them that the reader delivers.
-/

namespace Maxcso

open Transition

/-- Which bytes are compressed forms of which blocks. -/
structure Codecs where
  deflated : Bytes → Bytes → Prop
  lz4 : Bytes → Bytes → Prop

/-- The decompressors return the block of compressed data that padding may
follow. -/
structure Environment.Decodes (env : Environment) (codecs : Codecs) :
    Prop where
  inflate : ∀ data content padding capacity,
    codecs.deflated data content → content.length ≤ capacity →
      env.inflate false capacity (data ++ padding) = .ok content
  lz4 : ∀ data content padding, codecs.lz4 data content →
    env.lz4DecompressSafePartial (data ++ padding) content.length =
      some content

/-- The decompressors return the block of compressed data that such padding
may follow. -/
structure Environment.DecodesPadded (env : Environment) (codecs : Codecs)
    (padded : Bytes → Prop) : Prop where
  inflate : ∀ data content padding capacity,
    codecs.deflated data content → padded padding →
      content.length ≤ capacity →
        env.inflate false capacity (data ++ padding) = .ok content
  lz4 : ∀ data content padding, codecs.lz4 data content → padded padding →
    env.lz4DecompressSafePartial (data ++ padding) content.length =
      some content

theorem Environment.Decodes.padded
    {env : Environment} {codecs : Codecs} (decodes : env.Decodes codecs) :
    env.DecodesPadded codecs fun _ => True :=
  ⟨fun data content padding capacity deflated _ =>
      decodes.inflate data content padding capacity deflated,
    fun data content padding compressed _ =>
      decodes.lz4 data content padding compressed⟩

/-- A CSO or ZSO file: its header, its index entries, and for every block the
stored data without padding and the block they stand for. -/
structure CsoFile where
  format : CsoFormat
  header : CsoHeader
  entry : Nat → Nat
  data : Nat → Bytes
  content : Nat → Bytes

namespace CsoFile

def blocks (cso : CsoFile) : Nat :=
  (cso.header.uncompressedSize + cso.header.sectorSize - 1) /
    cso.header.sectorSize

/-- The lower 31 bits of an entry, shifted left. -/
def position (cso : CsoFile) (block : Nat) : Nat :=
  cso.entry block % 2 ^ 31 * 2 ^ cso.header.indexShift

/-- The length of a block with its padding. -/
def length (cso : CsoFile) (block : Nat) : Nat :=
  cso.position (block + 1) - cso.position block

def highBit (cso : CsoFile) (block : Nat) : Bool :=
  (cso.entry block).testBit 31

def uncompressed (cso : CsoFile) (block : Nat) : Bool :=
  match cso.format with
  | .cso2 => cso.header.sectorSize ≤ cso.length block
  | _ => cso.highBit block

/-- How a compressed block is compressed. -/
def compressedAs (cso : CsoFile) (codecs : Codecs) (block : Nat) :
    Bytes → Bytes → Prop :=
  match cso.format with
  | .cso1 => codecs.deflated
  | .cso2 => if cso.highBit block then codecs.lz4 else codecs.deflated
  | .zso => codecs.lz4
  | .dax => fun _ _ => False

def HeaderFits (cso : CsoFile) : Prop :=
  match cso.format with
  | .cso1 => cso.header.magic = csoMagic ∧ cso.header.version ≤ 1
  | .cso2 =>
      cso.header.magic = csoMagic ∧ cso.header.version = 2 ∧
        cso.header.headerSize = 24 ∧ cso.header.unused = [0, 0]
  | .zso =>
      cso.header.magic = zsoMagic ∧ cso.header.version = 1 ∧
        cso.header.headerSize = 24 ∧ cso.header.unused = [0, 0]
  | .dax => False

/-- The stored data of a block stand for its part of the image. -/
structure HoldsBlock (cso : CsoFile) (codecs : Codecs) (file image : Bytes)
    (block : Nat) : Prop where
  increasing : cso.position block < cso.position (block + 1)
  stored : ∃ padding,
    FileBytes.pread file (cso.position block) (cso.length block) =
      cso.data block ++ padding
  part : FileBytes.pread image (block * cso.header.sectorSize)
    cso.header.sectorSize <+: cso.content block
  raw : cso.uncompressed block = true → cso.data block = cso.content block
  compressed : cso.uncompressed block = false →
    cso.compressedAs codecs block (cso.data block) (cso.content block) ∧
      (cso.content block).length = cso.header.sectorSize

/-- The file is well formed and stands for the image. -/
structure Describes (cso : CsoFile) (codecs : Codecs) (file image : Bytes) :
    Prop where
  header : FileBytes.pread file 0 csoHeaderSize = cso.header.encode
  encodable : cso.header.Encodable
  headerFits : cso.HeaderFits
  blockSize : ∃ shift, 11 ≤ shift ∧ shift ≤ 18 ∧
    cso.header.sectorSize = 2 ^ shift
  indexShift : cso.header.indexShift ≤ 31
  size : cso.header.uncompressedSize = image.length
  positive : 0 < image.length
  aligned : sectorSize ∣ image.length
  small : image.length < 2 ^ 42
  entries : ∀ block ≤ cso.blocks, cso.entry block < 2 ^ 32
  index : FileBytes.pread file csoHeaderSize (4 * (cso.blocks + 1)) =
    encodeTable 4 (cso.blocks + 1) cso.entry
  start : csoHeaderSize + 4 * (cso.blocks + 1) ≤ cso.position 0
  finish : cso.position cso.blocks ≤ file.length
  lastEntry : cso.format = .cso2 → cso.highBit cso.blocks = false
  holds : ∀ block < cso.blocks, cso.HoldsBlock codecs file image block

/-- What follows the data of the blocks is padding of a kind. -/
def PaddedBy (cso : CsoFile) (file : Bytes) (padded : Bytes → Prop) : Prop :=
  ∀ block < cso.blocks, ∀ padding count,
    FileBytes.pread file (cso.position block) (cso.length block) =
      cso.data block ++ padding → padded (padding.take count)

/-- The cache for blocks of this size. -/
def cacheSize (cso : CsoFile) : Nat :=
  Input.growCacheSize 4 cso.header.sectorSize

/-- The length of a block as the reader works it out. -/
def readLength (cso : CsoFile) (block : Nat) : Nat :=
  cso.length block % 2 ^ 32

/-- The limits of the reader on one block. -/
structure BlockWithinLimits (cso : CsoFile) (bufferSize block : Nat) :
    Prop where
  covered : (cso.data block).length ≤ cso.readLength block
  cached : cso.readLength block ≤ cso.cacheSize
  /-- A raw block is copied to a buffer of the pool. -/
  copied : cso.uncompressed block = true →
    cso.readLength block ≤ bufferSize
  recognized : cso.format = .cso2 → cso.uncompressed block = true →
    cso.header.sectorSize ≤ cso.readLength block

/-- The limits of the reader. -/
structure WithinLimits (cso : CsoFile) (bufferSize : Nat) : Prop where
  index : 4 * (cso.blocks + 1) < 2 ^ 32
  block : ∀ block < cso.blocks, cso.BlockWithinLimits bufferSize block
  /-- The first block does not lie in the window that the cache starts
  with. -/
  first : ¬ (cso.header.uncompressedSize ≤ cso.position 0 ∧
    cso.position 0 + cso.readLength 0 ≤
      cso.header.uncompressedSize + cso.cacheSize)

/-! ## The reader finds what the documentation describes -/

section

variable {cso : CsoFile} {codecs : Codecs} {file image : Bytes}
variable {padded : Bytes → Prop}

/-- The base state of the reader for a described file. -/
def base (cso : CsoFile) (env : Environment) : Input :=
  Input.csoBase env cso.header (encodeTable 4 (cso.blocks + 1) cso.entry)

theorem Describes.blockSize_pos
    (described : cso.Describes codecs file image) :
    2048 ≤ cso.header.sectorSize ∧ cso.header.sectorSize ≤ 2 ^ 18 := by
  obtain ⟨shift, low, high, blockSize⟩ := described.blockSize
  have least : 2 ^ 11 ≤ 2 ^ shift := Nat.pow_le_pow_right (by decide) low
  have most : 2 ^ shift ≤ 2 ^ 18 := Nat.pow_le_pow_right (by decide) high
  omega

theorem Describes.accepts
    (described : cso.Describes codecs file image) :
    Input.Accepts cso.header := by
  have bounds := described.blockSize_pos
  have aligned := described.aligned
  have size := described.size
  have fits := described.headerFits
  refine ⟨described.encodable, ?_, ?_⟩
  · unfold HeaderFits at fits
    split at fits
    · exact Or.inl fits.1
    · exact Or.inl fits.1
    · exact Or.inr fits.1
    · exact fits.elim
  · have version : cso.header.version ≤ 2 := by
      unfold HeaderFits at fits
      split at fits
      · exact Nat.le_succ_of_le fits.2
      · exact Nat.le_of_eq fits.2.1
      · omega
      · exact fits.elim
    have whole : cso.header.uncompressedSize % (sectorMask + 1) = 0 := by
      rw [size]
      exact Nat.mod_eq_zero_of_dvd aligned
    simp only [Input.csoRejection, sectorSize, maxBlockSize, whole]
    rw [if_neg (by omega), if_neg (by omega), if_neg (by simp)]

theorem Describes.fileType
    (described : cso.Describes codecs file image) :
    match cso.format with
    | .cso1 => Input.csoFileType cso.header = .cso1
    | .cso2 => Input.csoFileType cso.header = .cso2
    | .zso => Input.csoFileType cso.header = .zso
    | .dax => False := by
  have fits := described.headerFits
  have different : csoMagic ≠ zsoMagic := by decide
  unfold HeaderFits at fits
  split at fits
  · rw [Input.csoFileType, fits.1, if_neg different, if_neg (by omega)]
  · rw [Input.csoFileType, fits.1, if_neg different, if_pos fits.2.1]
  · rw [Input.csoFileType, fits.1, if_pos rfl]
  · exact fits

theorem Describes.blocks_lt
    (described : cso.Describes codecs file image) :
    cso.blocks < 2 ^ 31 := by
  have bounds := described.blockSize_pos
  have size := described.size
  have small := described.small
  obtain ⟨sectors, sectorsEq⟩ := described.aligned
  by_contra many
  have reached : 2 ^ 31 * cso.header.sectorSize ≤
      cso.header.uncompressedSize + cso.header.sectorSize - 1 :=
    (Nat.le_div_iff_mul_le (by omega)).mp (Nat.not_lt.mp many)
  simp only [sectorSize] at sectorsEq
  omega

theorem Describes.lt_blocks
    (described : cso.Describes codecs file image) {block : Nat}
    (below : block * cso.header.sectorSize < image.length) :
    block < cso.blocks := by
  have bounds := described.blockSize_pos
  rw [blocks, described.size, Nat.lt_iff_add_one_le,
    Nat.le_div_iff_mul_le (by omega), Nat.add_mul]
  omega

theorem Describes.indexBytes
    (described : cso.Describes codecs file image) (env : Environment)
    (fits : 4 * (cso.blocks + 1) < 2 ^ 32) :
    ((Input.create env).withHeader cso.header).indexBytes =
      4 * (cso.blocks + 1) := by
  obtain ⟨shift, low, high, blockSize⟩ := described.blockSize
  have bounds := described.blockSize_pos
  have few := described.blocks_lt
  have size := described.size
  have small := described.small
  have sizeEq : ((Input.create env).withHeader cso.header).sizeAligned =
      ((cso.header.uncompressedSize + cso.header.sectorSize - 1 : Nat) :
        Int) := by
    have signed :=
      @toInt64_of_lt cso.header.uncompressedSize (by omega)
    simp only [Input.sizeAligned, Input.withHeader, Input.withCsoHeader,
      Input.setupCache, signed]
    omega
  have shiftEq : ((Input.create env).withHeader cso.header).csoBlockShift =
      shift := by
    simp only [Input.withHeader, Input.withCsoHeader, Input.setupCache,
      blockSize]
    exact Nat.log2_two_pow
  have blocksEq :
      ((cso.header.uncompressedSize + cso.header.sectorSize - 1 : Nat) :
        Int) / 2 ^ shift = cso.blocks := by
    rw [blocks, Int.natCast_div, blockSize]
    push_cast
    rfl
  simp only [Input.indexBytes, sizeEq, shiftEq, blocksEq, toUint32]
  omega

theorem Describes.blockPos
    (described : cso.Describes codecs file image) (env : Environment)
    {block : Nat} (inside : block ≤ cso.blocks) :
    (cso.base env).blockPos block = cso.position block := by
  have shift := described.indexShift
  have entry : (cso.base env).index block = cso.entry block :=
    decodeTable_encodeTable env.newIndex (by omega)
      (described.entries block inside)
  have low : cso.entry block % 2 ^ 31 < 2 ^ 31 := Nat.mod_lt _ (by decide)
  have power : 2 ^ cso.header.indexShift ≤ 2 ^ 31 :=
    Nat.pow_le_pow_right (by decide) shift
  have small : cso.position block < 2 ^ 63 := by
    have product : cso.position block ≤ 2 ^ 31 * 2 ^ 31 :=
      Nat.mul_le_mul (Nat.le_of_lt low) power
    omega
  have shiftEq : cso.header.indexShift % 64 = cso.header.indexShift :=
    Nat.mod_eq_of_lt (by omega)
  show toInt64 ((cso.base env).index block % 2 ^ 31 *
    2 ^ (cso.header.indexShift % 64)) = _
  rw [entry, shiftEq]
  exact toInt64_of_lt small

theorem Describes.blockLen
    (described : cso.Describes codecs file image) (env : Environment)
    {block : Nat} (inside : block < cso.blocks) :
    (cso.base env).blockLen block = cso.readLength block := by
  have increasing := (described.holds block inside).increasing
  rw [Input.blockLen, described.blockPos env (Nat.le_of_lt inside),
    described.blockPos env (by omega), readLength, length, toUint32]
  omega

theorem Describes.blockCodec
    (described : cso.Describes codecs file image) (env : Environment)
    {bufferSize block : Nat} (inside : block < cso.blocks)
    (limits : cso.BlockWithinLimits bufferSize block) :
    Input.isRaw ((cso.base env).blockCodec block) =
        cso.uncompressed block ∧
      (cso.uncompressed block = false →
        match cso.format with
        | .cso1 => ((cso.base env).blockCodec block).2 = false
        | .cso2 =>
            ((cso.base env).blockCodec block).2 = cso.highBit block
        | .zso => ((cso.base env).blockCodec block).2 = true
        | .dax => False) := by
  have fileType := described.fileType
  have entry : (cso.base env).index block = cso.entry block :=
    decodeTable_encodeTable env.newIndex (by omega)
      (described.entries block (Nat.le_of_lt inside))
  have len := described.blockLen env inside
  have type : (cso.base env).fileType = Input.csoFileType cso.header := rfl
  have blockSize : (cso.base env).csoBlockSize = cso.header.sectorSize := rfl
  unfold uncompressed Input.blockCodec Input.csoCodec
  rw [entry, len, type, blockSize]
  cases format : cso.format with
  | cso1 =>
      rw [format] at fileType
      rw [fileType]
      dsimp only [highBit]
      cases (cso.entry block).testBit 31 <;> decide
  | cso2 =>
      rw [format] at fileType
      rw [fileType]
      have recognized := limits.recognized format
      have whole : cso.readLength block < cso.header.sectorSize ↔
          cso.length block < cso.header.sectorSize := by
        unfold uncompressed at recognized
        rw [format] at recognized
        simp only [decide_eq_true_eq] at recognized
        unfold readLength at recognized ⊢
        omega
      have short : decide (cso.readLength block < cso.header.sectorSize) =
          !decide (cso.header.sectorSize ≤ cso.length block) := by
        rw [← decide_not, decide_eq_decide, Nat.not_le]
        exact whole
      dsimp only [highBit]
      cases (cso.entry block).testBit 31 with
      | true => simp [Input.isRaw, short]
      | false => simp [Input.isRaw, short]
  | zso =>
      rw [format] at fileType
      rw [fileType]
      dsimp only [highBit]
      cases (cso.entry block).testBit 31 <;> decide
  | dax =>
      rw [format] at fileType
      exact fileType.elim

theorem Describes.position_le
    (described : cso.Describes codecs file image) {block : Nat}
    (inside : block ≤ cso.blocks) :
    cso.position block ≤ cso.position cso.blocks := by
  induction inside using Nat.decreasingInduction with
  | self => exact Nat.le_refl _
  | of_succ block below inductionHypothesis =>
      have increasing := (described.holds block below).increasing
      omega

/-- The bytes that the reader takes start with the data of the block. -/
theorem Describes.blockBytes
    (described : cso.Describes codecs file image)
    (paddedBy : cso.PaddedBy file padded) (env : Environment)
    {bufferSize block : Nat} (inside : block < cso.blocks)
    (limits : cso.BlockWithinLimits bufferSize block) :
    ∃ padding, padded padding ∧
      (cso.base env).blockBytes file block = cso.data block ++ padding := by
  obtain ⟨padding, stored⟩ := (described.holds block inside).stored
  have shorter : cso.readLength block ≤ cso.length block :=
    Nat.mod_le _ _
  refine ⟨padding.take (cso.readLength block - (cso.data block).length),
    paddedBy block inside padding _ stored, ?_⟩
  rw [Input.blockBytes, described.blockPos env (Nat.le_of_lt inside),
    described.blockLen env inside, Int.toNat_natCast,
    ← FileBytes.take_pread file shorter, stored,
    List.take_append, List.take_of_length_le limits.covered]

/-- Every sector of a raw block is in its place. -/
theorem Describes.raw_sector
    (described : cso.Describes codecs file image)
    {bufferSize block : Nat} (inside : block < cso.blocks)
    (limits : cso.BlockWithinLimits bufferSize block)
    (raw : cso.uncompressed block = true) {offset : Nat}
    (divides : sectorSize ∣ offset)
    (within : offset < cso.header.sectorSize)
    (below : block * cso.header.sectorSize + offset < image.length) :
    offset + sectorSize ≤ cso.readLength block ∧
      FileBytes.pread file (cso.position block + offset) sectorSize =
        sectorAt image (block * cso.header.sectorSize + offset) := by
  have holds := described.holds block inside
  obtain ⟨padding, stored⟩ := holds.stored
  have part := holds.part
  rw [← holds.raw raw] at part
  obtain ⟨shift, low, high, blockSize⟩ := described.blockSize
  have whole : sectorSize ∣ cso.header.sectorSize := by
    rw [blockSize]
    exact Nat.pow_dvd_pow 2 low
  obtain ⟨sectors, sectorsEq⟩ := whole
  obtain ⟨imageSectors, imageEq⟩ := described.aligned
  obtain ⟨index, rfl⟩ := divides
  have fits : sectorSize * index + sectorSize ≤ cso.header.sectorSize := by
    simp only [sectorSize] at *
    omega
  have ends : block * cso.header.sectorSize + sectorSize * index +
      sectorSize ≤ image.length := by
    have start : block * cso.header.sectorSize =
        sectorSize * (block * sectors) := by
      rw [sectorsEq]
      exact Nat.mul_left_comm _ _ _
    rw [start] at below ⊢
    rw [imageEq] at below ⊢
    simp only [sectorSize] at *
    omega
  have longPart := part.length_le
  rw [FileBytes.length_pread] at longPart
  have covered := limits.covered
  have shorter : cso.readLength block ≤ cso.length block :=
    Nat.mod_le _ _
  have room : sectorSize * index + sectorSize ≤
      (cso.data block).length := by
    omega
  refine ⟨by omega, ?_⟩
  rw [← @FileBytes.drop_take_pread UInt8 file (cso.position block)
    (cso.length block) (sectorSize * index) sectorSize (by omega), stored,
    List.drop_append_of_le_length (by omega),
    List.take_append_of_le_length (by rw [List.length_drop]; omega)]
  exact Reader.sector_of_block part fits ends

/-- A compressed block is decompressed. -/
theorem Describes.decompressed
    (described : cso.Describes codecs file image)
    (paddedBy : cso.PaddedBy file padded) {env : Environment}
    (decodes : env.DecodesPadded codecs padded) {bufferSize block : Nat}
    (inside : block < cso.blocks)
    (limits : cso.BlockWithinLimits bufferSize block)
    (compressed : cso.uncompressed block = false) {pool : BufferPool}
    (large : cso.header.sectorSize ≤ pool.bufferSize) :
    (cso.base env).decompressWork env pool
        ((cso.base env).blockBytes file block)
        ((cso.base env).blockCodec block).2 =
      .ok (cso.content block) := by
  obtain ⟨padding, fine, bytes⟩ :=
    described.blockBytes paddedBy env inside limits
  obtain ⟨encoded, length⟩ :=
    (described.holds block inside).compressed compressed
  have codec := (described.blockCodec env inside limits).2 compressed
  have fileType := described.fileType
  have bounds := described.blockSize_pos
  have type : (cso.base env).fileType = Input.csoFileType cso.header := rfl
  have blockSize : (cso.base env).csoBlockSize = cso.header.sectorSize := rfl
  have deflate :
      codecs.deflated (cso.data block) (cso.content block) →
        (cso.base env).fileType ≠ .dax →
          (cso.base env).decompressSectorDeflate env pool
              (cso.data block ++ padding) = .ok (cso.content block) := by
    intro deflated notDax
    have inflated := decodes.inflate _ _ padding pool.bufferSize deflated
      fine (by omega)
    simp only [Input.decompressSectorDeflate, notDax, decide_false, inflated]
    rw [if_neg (by simp only [sectorSize]; omega)]
  have lz4 :
      codecs.lz4 (cso.data block) (cso.content block) →
        (cso.base env).decompressSectorLz4 env
            (cso.data block ++ padding) = .ok (cso.content block) := by
    intro compressedLz4
    have partial_ := decodes.lz4 _ _ padding compressedLz4 fine
    rw [length] at partial_
    simp only [Input.decompressSectorLz4, blockSize, partial_]
  rw [bytes]
  unfold compressedAs at encoded
  unfold Input.decompressWork
  cases format : cso.format with
  | cso1 =>
      rw [format] at fileType codec encoded
      dsimp only at fileType codec encoded
      rw [codec]
      exact deflate encoded (by rw [type, fileType]; decide)
  | cso2 =>
      rw [format] at fileType codec encoded
      dsimp only at fileType codec encoded
      rw [codec]
      cases bit : cso.highBit block with
      | true =>
          rw [bit, if_pos rfl] at encoded
          exact lz4 encoded
      | false =>
          rw [bit, if_neg Bool.false_ne_true] at encoded
          exact deflate encoded (by rw [type, fileType]; decide)
  | zso =>
      rw [format] at codec encoded
      dsimp only at codec encoded
      rw [codec]
      exact lz4 encoded
  | dax =>
      rw [format] at fileType
      exact fileType.elim

theorem Describes.indexed
    (described : cso.Describes codecs file image)
    (paddedBy : cso.PaddedBy file padded) {env : Environment}
    (decodes : env.DecodesPadded codecs padded) {bufferSize : Nat}
    (large : cso.header.sectorSize * 2 ≤ bufferSize)
    (limits : cso.WithinLimits bufferSize) :
    (cso.base env).Indexed env file image bufferSize := by
  obtain ⟨shift, low, high, blockSize⟩ := described.blockSize
  have fileType := described.fileType
  have shiftEq : (cso.base env).csoBlockShift = shift := by
    show Nat.log2 cso.header.sectorSize = shift
    rw [blockSize]
    exact Nat.log2_two_pow
  constructor
  · show Input.csoFileType cso.header = _ ∨ _
    cases format : cso.format with
    | cso1 =>
        rw [format] at fileType
        exact Or.inl fileType
    | cso2 =>
        rw [format] at fileType
        exact Or.inr (Or.inl fileType)
    | zso =>
        rw [format] at fileType
        exact Or.inr (Or.inr fileType)
    | dax =>
        rw [format] at fileType
        exact fileType.elim
  · rw [shiftEq]
    exact ⟨low, high⟩
  · rw [shiftEq]
    exact blockSize
  · show toInt64 cso.header.uncompressedSize = image.length
    have small := described.small
    rw [described.size]
    exact toInt64_of_lt (by omega)
  · exact described.small
  · intro block below
    have inside := described.lt_blocks below
    have blockLimits := limits.block block inside
    have position := described.blockPos env (Nat.le_of_lt inside)
    have len := described.blockLen env inside
    have codec := described.blockCodec env inside blockLimits
    constructor
    · rw [position]
      exact Int.natCast_nonneg _
    · have increasing := (described.holds block inside).increasing
      have next := @Describes.position_le _ _ _ _ described (block + 1)
        (by omega)
      have finish := described.finish
      have shorter : cso.readLength block ≤ cso.length block :=
        Nat.mod_le _ _
      rw [position, len, Int.toNat_natCast]
      unfold length at shorter
      omega
    · rw [len]
      exact blockLimits.cached
    · intro raw offset divides within inImage
      rw [codec.1] at raw
      rw [position, len, Int.toNat_natCast]
      exact described.raw_sector inside blockLimits raw divides within
        inImage
    · intro compressed
      rw [codec.1] at compressed
      have holds := described.holds block inside
      refine ⟨cso.content block, (holds.compressed compressed).2, holds.part,
        fun pool sameSize => ?_⟩
      exact described.decompressed paddedBy decodes inside blockLimits
        compressed (by omega)

/-- The first block is not mistaken for one that is cached. -/
theorem Describes.first_misses
    (described : cso.Describes codecs file image) {env : Environment}
    {bufferSize : Nat}
    (indexed : (cso.base env).Indexed env file image bufferSize)
    (limits : cso.WithinLimits bufferSize) :
    ({ cso.base env with cachePos := (cso.base env).size }).cacheHit
      (cso.base env).request = false := by
  have positive := described.positive
  have small := described.small
  have first : 0 < cso.blocks :=
    described.lt_blocks (by omega)
  have bounds := described.blockSize_pos
  have request := @Input.csoRequest_seek (cso.base env) indexed.blockSize
    indexed.blockShift.1 0 0 (by
      show 0 < cso.header.sectorSize
      omega) (by omega)
  rw [← Input.request_of_indexed (by exact indexed.fileType)] at request
  have atStart : (cso.base env).seek
      ((0 * (cso.base env).csoBlockSize + 0 : Nat) : Int) =
        cso.base env := by
    rw [Nat.zero_mul]
    rfl
  have length : toUint32 ((cso.readLength 0 : Int) - (0 : Nat)) =
      cso.readLength 0 := by
    unfold readLength toUint32
    omega
  rw [atStart, described.blockPos env (Nat.zero_le _),
    described.blockLen env first, Request.skipRaw] at request
  have range : (cso.base env).request.pos = cso.position 0 ∧
      (cso.base env).request.len = cso.readLength 0 := by
    rw [request]
    split
    · exact ⟨Int.add_zero _, length⟩
    · exact ⟨rfl, rfl⟩
  have outside := limits.first
  rw [described.size] at outside
  have cacheSize : (cso.base env).cacheSize = cso.cacheSize := rfl
  rw [Input.cacheHit, range.1, range.2, decide_eq_false_iff_not]
  dsimp only
  rw [indexed.size, cacheSize]
  omega

theorem Describes.readable
    (described : cso.Describes codecs file image)
    (paddedBy : cso.PaddedBy file padded) {env : Environment}
    (decodes : env.DecodesPadded codecs padded)
    (complete : env.CompleteReads file)
    (works : ∀ count, env.workStatus count ≠ -1) {pool : BufferPool}
    (large : cso.header.sectorSize * 2 ≤ pool.bufferSize)
    (limits : cso.WithinLimits pool.bufferSize) :
    Readable env file image pool (cso.base env) := by
  have indexed := described.indexed paddedBy decodes large limits
  have bytes := described.indexBytes env limits.index
  have size := indexed.size
  refine ⟨⟨complete, works, by omega,
    fun _ => described.first_misses indexed limits, ?_⟩, ⟨2, ?_⟩⟩
  · intro pos nonneg more aligned
    exact indexed.supplies nonneg more aligned
  · refine Input.leads_cso complete described.accepts described.header large
      ?_ ?_
    · rw [bytes]
      exact described.index
    · rw [bytes, length_encodeTable]

end

end CsoFile

namespace Reader

/-- A documented file within the limits of the reader is read back, however
the reader is paused and resumed. -/
theorem delivers_documented
    {env : Environment} {codecs : Codecs} (decodes : env.Decodes codecs)
    {file image : Bytes} (complete : env.CompleteReads file)
    (works : ∀ count, env.workStatus count ≠ -1) {cso : CsoFile}
    (described : cso.Describes codecs file image) {pool : BufferPool}
    (large : cso.header.sectorSize * 2 ≤ pool.bufferSize)
    (limits : cso.WithinLimits pool.bufferSize)
    {events : List ReaderEvent} {target : Reader}
    (run : Execution (step Input.fetchCached env) KeepsPool
      (start env pool) events target) :
    target.Delivers env image events :=
  delivers_image (described.readable (fun _ _ _ _ _ => trivial)
    decodes.padded complete works large limits) run

end Reader

/-! ## A documented file of three blocks -/

namespace CsoFile

open Reader

/-- `threeBlockFile` as the documentation describes it. -/
def threeBlocks : CsoFile where
  format := .cso1
  header := threeBlockHeader
  entry := threeBlockEntry
  data := fun block =>
    if block = 1 then List.replicate 4096 7 else zeroBlockStream
  content := fun block =>
    if block = 1 then List.replicate 4096 7 else List.replicate 4096 0

/-- Its image has no second half of the last block. -/
def threeBlockImage : Bytes :=
  List.replicate 4096 0 ++ List.replicate 4096 7 ++ List.replicate 2048 0

/-- Only the stream of a block of zeros is known. -/
def zeroBlockCodecs : Codecs where
  deflated data content :=
    data = zeroBlockStream ∧ content = List.replicate 4096 0
  lz4 _ _ := False

theorem threeBlock_decodes : threeBlockEnv.Decodes zeroBlockCodecs := by
  refine ⟨?_, ?_⟩
  · intro data content padding capacity deflated _
    obtain ⟨rfl, rfl⟩ := deflated
    apply threeBlockEnv_inflates
    exact List.take_left' rfl
  · intro data content padding none
    exact none.elim

theorem threeBlocks_blocks : threeBlocks.blocks = 3 := by
  show (10240 + 4096 - 1) / 4096 = 3
  decide

theorem threeBlocks_positions :
    threeBlocks.position 0 = 40 ∧ threeBlocks.position 1 = 64 ∧
      threeBlocks.position 2 = 4160 ∧ threeBlocks.position 3 = 4180 := by
  decide

theorem threeBlocks_uncompressed :
    threeBlocks.uncompressed 0 = false ∧
      threeBlocks.uncompressed 1 = true ∧
      threeBlocks.uncompressed 2 = false := by
  decide

theorem length_threeBlockImage : threeBlockImage.length = 10240 := by
  simp only [threeBlockImage, List.length_append, List.length_replicate]

theorem threeBlockImage_parts :
    FileBytes.pread threeBlockImage (0 * 4096) 4096 =
        List.replicate 4096 0 ∧
      FileBytes.pread threeBlockImage (1 * 4096) 4096 =
        List.replicate 4096 7 ∧
      FileBytes.pread threeBlockImage (2 * 4096) 4096 =
        List.replicate 2048 0 := by
  have zeros : (List.replicate 4096 (0 : UInt8)).length = 4096 :=
    List.length_replicate
  have sevens : (List.replicate 4096 (7 : UInt8)).length = 4096 :=
    List.length_replicate
  refine ⟨?_, ?_, ?_⟩
  · rw [threeBlockImage, FileBytes.pread, Nat.zero_mul, List.drop_zero,
      List.append_assoc]
    exact List.take_left' zeros
  · rw [threeBlockImage, FileBytes.pread, Nat.one_mul, List.append_assoc,
      List.drop_left' zeros]
    exact List.take_left' sevens
  · rw [threeBlockImage, FileBytes.pread, List.drop_left']
    · apply List.take_of_length_le
      rw [List.length_replicate]
      decide
    · rw [List.length_append, zeros, sevens]

theorem threeBlocks_holds {block : Nat} (inside : block < 3) :
    threeBlocks.HoldsBlock zeroBlockCodecs threeBlockFile threeBlockImage
      block := by
  obtain ⟨start, second, third, finish⟩ := threeBlocks_positions
  obtain ⟨first, raw, last⟩ := threeBlocks_uncompressed
  obtain ⟨stream, sevens, stream'⟩ := threeBlockFile_bytes
  obtain ⟨zeros, middle, half⟩ := threeBlockImage_parts
  have compressed :
      zeroBlockCodecs.deflated zeroBlockStream (List.replicate 4096 0) ∧
        (List.replicate 4096 (0 : UInt8)).length = 4096 :=
    ⟨⟨rfl, rfl⟩, List.length_replicate⟩
  obtain rfl | rfl | rfl : block = 0 ∨ block = 1 ∨ block = 2 := by omega
  · refine ⟨?_, ⟨List.replicate 4 0, ?_⟩, ?_, ?_, fun _ => compressed⟩
    · rw [start, second]
      decide
    · rw [CsoFile.length, start, second]
      exact stream
    · exact zeros ▸ List.prefix_refl _
    · rw [first]
      exact Bool.noConfusion
  · refine ⟨?_, ⟨[], ?_⟩, ?_, fun _ => rfl, ?_⟩
    · rw [second, third]
      decide
    · rw [CsoFile.length, second, third, List.append_nil]
      exact sevens
    · exact middle ▸ List.prefix_refl _
    · rw [raw]
      exact Bool.noConfusion
  · refine ⟨?_, ⟨[], ?_⟩, ?_, ?_, fun _ => compressed⟩
    · rw [third, finish]
      decide
    · rw [CsoFile.length, third, finish, List.append_nil]
      exact stream'
    · show FileBytes.pread threeBlockImage (2 * 4096) 4096 <+:
        List.replicate 4096 0
      rw [half]
      exact ⟨List.replicate 2048 0, List.replicate_append_replicate⟩
    · rw [last]
      exact Bool.noConfusion

theorem threeBlockHeader_encodable : threeBlockHeader.Encodable :=
  ⟨rfl, by decide, by decide, by decide, by decide, by decide, rfl⟩

theorem threeBlocks_describes :
    threeBlocks.Describes zeroBlockCodecs threeBlockFile
      threeBlockImage := by
  have headerLength := CsoHeader.length_encode threeBlockHeader_encodable
  obtain ⟨start, _, _, finish⟩ := threeBlocks_positions
  have length := length_threeBlockImage
  constructor
  · rw [threeBlockFile, FileBytes.pread, List.drop_zero]
    simp only [List.append_assoc]
    exact List.take_left' headerLength
  · exact threeBlockHeader_encodable
  · exact ⟨rfl, Nat.le_refl _⟩
  · exact ⟨12, by decide, by decide, rfl⟩
  · show 2 ≤ 31
    decide
  · exact length.symm
  · rw [length]
    decide
  · rw [length]
    decide
  · rw [length]
    decide
  · intro block _
    show threeBlockEntry block < 2 ^ 32
    unfold threeBlockEntry
    split_ifs <;> decide
  · rw [threeBlocks_blocks, threeBlockFile, FileBytes.pread]
    simp only [List.append_assoc]
    rw [List.drop_left' headerLength]
    exact List.take_left' (length_encodeTable 4 4 _)
  · rw [threeBlocks_blocks, start]
  · rw [threeBlocks_blocks, finish, threeBlockFile_length]
  · exact CsoFormat.noConfusion
  · intro block inside
    rw [threeBlocks_blocks] at inside
    exact threeBlocks_holds inside

theorem threeBlocks_limits {bufferSize : Nat} (large : 4096 ≤ bufferSize) :
    threeBlocks.WithinLimits bufferSize := by
  have lengths : threeBlocks.readLength 0 = 24 ∧
      threeBlocks.readLength 1 = 4096 ∧ threeBlocks.readLength 2 = 20 := by
    decide
  obtain ⟨first, second, third⟩ := lengths
  have cached : threeBlocks.cacheSize = 32768 := by decide
  refine ⟨by rw [threeBlocks_blocks]; decide, ?_, by decide⟩
  intro block inside
  rw [threeBlocks_blocks] at inside
  obtain rfl | rfl | rfl : block = 0 ∨ block = 1 ∨ block = 2 := by omega
  · refine ⟨?_, ?_, ?_, CsoFormat.noConfusion⟩
    · rw [first]
      decide
    · rw [first, cached]
      decide
    · rw [first]
      exact fun _ => (show _ ≤ 4096 by decide).trans large
  · refine ⟨?_, ?_, ?_, CsoFormat.noConfusion⟩
    · rw [second]
      exact List.length_replicate.le
    · rw [second, cached]
      decide
    · rw [second]
      exact fun _ => large
  · refine ⟨?_, ?_, ?_, CsoFormat.noConfusion⟩
    · rw [third]
      decide
    · rw [third, cached]
      decide
    · rw [third]
      exact fun _ => (show _ ≤ 4096 by decide).trans large

end CsoFile

namespace Reader

theorem keepsPool_of_stepCheck
    {env : Environment} {length : Nat} {reader : Reader}
    {event : ReaderEvent}
    (checked : reader.stepCheck env length event = true) :
    reader.KeepsPool event := by
  cases event with
  | otherPool pool => cases checked
  | _ => trivial

theorem delivers_documented_threeBlockFile :
    ∃ target : Reader,
      target.finished = [(true, "")] ∧ target.delivered.length = 5 ∧
        target.Delivers threeBlockEnv CsoFile.threeBlockImage
          threeBlockEvents := by
  obtain ⟨target, ran, finished, count, _⟩ := threeBlock_reached
  refine ⟨target, finished, count, ?_⟩
  exact delivers_documented CsoFile.threeBlock_decodes
    threeBlockEnv_completeReads (fun _ => show (0 : Int) ≠ -1 by decide)
    CsoFile.threeBlocks_describes (by decide)
    (CsoFile.threeBlocks_limits (by decide))
    (Execution.of_runEvents
      (fun _ _ checked => keepsPool_of_stepCheck checked) ran)

end Reader

/-! ## Files of one raw sector -/

/-- The events by which the reader itself goes on. -/
def ReaderEvent.own : ReaderEvent → Bool
  | run | complete _ => true
  | _ => false

namespace CsoFile

def oneSectorHeader : CsoHeader := ⟨csoMagic, 24, 2048, 2048, 1, 0, [0, 0]⟩

theorem oneSectorHeader_encodable : oneSectorHeader.Encodable :=
  ⟨rfl, by decide, by decide, by decide, by decide, by decide, rfl⟩

/-- One sector, stored raw at a position. -/
def oneSector (position : Nat) : CsoFile where
  format := .cso1
  header := oneSectorHeader
  entry := fun block =>
    if block = 0 then 2 ^ 31 + position else position + 2048
  data := fun _ => List.replicate 2048 7
  content := fun _ => List.replicate 2048 7

def oneSectorFile (position : Nat) : Bytes :=
  (oneSector position).header.encode ++
    encodeTable 4 2 (oneSector position).entry ++
    List.replicate (position - 32) 0 ++ List.replicate 2048 7

theorem oneSector_positions
    {position : Nat} (small : position < 2 ^ 20) :
    (oneSector position).position 0 = position ∧
      (oneSector position).position 1 = position + 2048 := by
  have shift : (oneSector position).header.indexShift = 0 := rfl
  have first : (oneSector position).entry 0 = 2 ^ 31 + position := rfl
  have second : (oneSector position).entry 1 = position + 2048 := rfl
  unfold CsoFile.position
  rw [shift, first, second]
  omega

theorem oneSector_describes
    (codecs : Codecs) {position : Nat} (start : 32 ≤ position)
    (small : position < 2 ^ 20) :
    (oneSector position).Describes codecs (oneSectorFile position)
      (List.replicate 2048 7) := by
  obtain ⟨first, second⟩ := oneSector_positions small
  have encodable : (oneSector position).header.Encodable :=
    oneSectorHeader_encodable
  have headerLength := CsoHeader.length_encode encodable
  have blocks : (oneSector position).blocks = 1 := by
    show (2048 + 2048 - 1) / 2048 = 1
    decide
  have bit : (oneSector position).highBit 0 = true := by
    show (2 ^ 31 + position).testBit 31 = true
    rw [Nat.testBit_two_pow_add_eq, Nat.testBit_lt_two_pow (by omega)]
    rfl
  have before : ((oneSector position).header.encode ++
      encodeTable 4 2 (oneSector position).entry ++
      List.replicate (position - 32) (0 : UInt8)).length = position := by
    rw [List.length_append, List.length_append, headerLength,
      length_encodeTable, List.length_replicate, csoHeaderSize]
    omega
  constructor
  · rw [oneSectorFile, FileBytes.pread, List.drop_zero, List.append_assoc,
      List.append_assoc, List.take_left' headerLength]
  · exact encodable
  · exact ⟨rfl, Nat.le_refl _⟩
  · exact ⟨11, by decide, by decide, rfl⟩
  · exact Nat.zero_le _
  · exact List.length_replicate.symm
  · rw [List.length_replicate]
    decide
  · rw [List.length_replicate]
  · rw [List.length_replicate]
    decide
  · intro block _
    show (if block = 0 then 2 ^ 31 + position else position + 2048) < 2 ^ 32
    split <;> omega
  · rw [blocks, oneSectorFile, FileBytes.pread, List.append_assoc,
      List.append_assoc, List.drop_left' headerLength,
      List.take_left' (length_encodeTable 4 2 _)]
  · rw [first, blocks, csoHeaderSize]
    exact start
  · rw [blocks, second, oneSectorFile, List.length_append, before,
      List.length_replicate]
  · exact CsoFormat.noConfusion
  · intro block inside
    obtain rfl : block = 0 := by omega
    constructor
    · rw [first, second]
      omega
    · refine ⟨[], ?_⟩
      rw [CsoFile.length, first, second, oneSectorFile, FileBytes.pread,
        List.drop_left' before, List.append_nil, Nat.add_sub_cancel_left]
      exact List.take_of_length_le (by rw [List.length_replicate])
    · rw [Nat.zero_mul, FileBytes.pread, List.drop_zero]
      exact List.take_prefix _ _
    · exact fun _ => rfl
    · intro compressed
      have raw : (oneSector position).uncompressed 0 = true := bit
      rw [raw] at compressed
      cases compressed

/-- No data is compressed. -/
def noCodecs : Codecs := ⟨fun _ _ => False, fun _ _ => False⟩

end CsoFile

namespace Reader

theorem keepsPool_of_own
    (reader : Reader) (event : ReaderEvent) (own : event.own = true) :
    reader.KeepsPool event := by
  cases event with
  | otherPool => exact nomatch own
  | _ => trivial

/-- A documented file whose block lies in the window that the cache starts
with: the reader delivers what `new` left in the cache. -/
theorem oneSectorFile_delivers_garbage :
    (CsoFile.oneSector 2048).Describes CsoFile.noCodecs
        (CsoFile.oneSectorFile 2048) (List.replicate 2048 7) ∧
      ∃ target : Reader,
        Execution
            (step Input.fetchCached (.ofFile (CsoFile.oneSectorFile 2048)))
            KeepsPool
            (start (.ofFile (CsoFile.oneSectorFile 2048)) .initial)
            [.complete 0, .complete 0, .run, .run, .run, .run, .run, .run]
            target ∧
          target.finished = [(true, "")] ∧
          target.delivered.map Delivery.content ≠
            sectorsOf (List.replicate 2048 7) 1 := by
  refine ⟨CsoFile.oneSector_describes CsoFile.noCodecs (by decide)
    (by decide), ?_⟩
  have reached :
      (runEvents
        (guarded (fun _ => ReaderEvent.own)
          (step Input.fetchCached (.ofFile (CsoFile.oneSectorFile 2048))))
        (start (.ofFile (CsoFile.oneSectorFile 2048)) .initial)
        [.complete 0, .complete 0, .run, .run, .run, .run, .run,
          .run]).any (fun target =>
          target.finished = [(true, "")] ∧
            target.delivered.map (fun delivery => delivery.sector[0]?) =
              [some (0 : UInt8)]) = true := by
    decide +kernel
  obtain ⟨target, ran, facts⟩ := (Option.any_eq_true _ _).mp reached
  simp only [decide_eq_true_eq] at facts
  refine ⟨target, Execution.of_runEvents keepsPool_of_own ran, facts.1, ?_⟩
  intro same
  have bytes := congrArg (List.map fun content => content.2[0]?) same
  rw [List.map_map] at bytes
  have first : target.delivered.map (fun delivery => delivery.sector[0]?) =
      [some (7 : UInt8)] := bytes.trans (by decide)
  rw [facts.2] at first
  exact absurd first (by decide)

end Reader

end Maxcso
