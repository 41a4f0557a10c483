import Mathlib.Algebra.Order.Ring.Int
import Maxcso.Reader.Delivery

/-!
# Files with an index

What has to be stored for each block of a CSO or ZSO file so that the reader
finds every sector of the image in it.
-/

namespace Maxcso

namespace Input

/-- The codec of an index word is none. -/
def isRaw (codec : Bool × Bool) : Bool := !codec.1 && !codec.2

/-- Where the data of a block are, and how many bytes the reader takes. -/
def blockPos (base : Input) (block : Nat) : Int :=
  indexPos base.csoIndexShift (base.index block)

def blockLen (base : Input) (block : Nat) : Nat :=
  toUint32 (base.blockPos (block + 1) - base.blockPos block)

def blockCodec (base : Input) (block : Nat) : Bool × Bool :=
  base.csoCodec (base.index block) (base.blockLen block)

/-- The bytes that the reader takes for a block. -/
def blockBytes (base : Input) (file : Bytes) (block : Nat) : Bytes :=
  FileBytes.pread file (base.blockPos block).toNat (base.blockLen block)

/-- A block from which the reader can take its sectors. -/
structure BlockStored (base : Input) (env : Environment)
    (file image : Bytes) (bufferSize block : Nat) : Prop where
  nonneg : 0 ≤ base.blockPos block
  contained : (base.blockPos block).toNat + base.blockLen block ≤ file.length
  fits : base.blockLen block ≤ base.cacheSize
  raw : isRaw (base.blockCodec block) = true →
    ∀ offset, sectorSize ∣ offset → offset < base.csoBlockSize →
      block * base.csoBlockSize + offset < image.length →
        offset + sectorSize ≤ base.blockLen block ∧
          FileBytes.pread file ((base.blockPos block).toNat + offset)
              sectorSize =
            sectorAt image (block * base.csoBlockSize + offset)
  decoded : isRaw (base.blockCodec block) = false →
    ∃ content : Bytes,
      content.length = base.csoBlockSize ∧
        FileBytes.pread image (block * base.csoBlockSize)
          base.csoBlockSize <+: content ∧
        ∀ pool : BufferPool, pool.bufferSize = bufferSize →
          base.decompressWork env pool (base.blockBytes file block)
            (base.blockCodec block).2 = .ok content

/-- An index that describes where the blocks of an image are. -/
structure Indexed (base : Input) (env : Environment) (file image : Bytes)
    (bufferSize : Nat) : Prop where
  fileType : base.fileType = .cso1 ∨ base.fileType = .cso2 ∨
    base.fileType = .zso
  blockShift : 11 ≤ base.csoBlockShift ∧ base.csoBlockShift ≤ 18
  blockSize : base.csoBlockSize = 2 ^ base.csoBlockShift
  size : base.size = image.length
  small : image.length < 2 ^ 42
  stored : ∀ block, block * base.csoBlockSize < image.length →
    base.BlockStored env file image bufferSize block

/-! ## The request for a sector -/

theorem request_of_indexed
    {base : Input}
    (fileType : base.fileType = .cso1 ∨ base.fileType = .cso2 ∨
      base.fileType = .zso) :
    base.request = base.csoRequest := by
  rcases fileType with same | same | same <;> simp [request, same]

/-- The block and the offset in it of a position. -/
theorem csoRequest_seek
    {base : Input} (blockSize : base.csoBlockSize = 2 ^ base.csoBlockShift)
    (blockShift : 11 ≤ base.csoBlockShift) {block offset : Nat}
    (inside : offset < base.csoBlockSize)
    (small : block * base.csoBlockSize + offset < 2 ^ 42) :
    (base.seek
        ((block * base.csoBlockSize + offset : Nat) : Int)).csoRequest =
      Request.skipRaw
        ⟨base.blockPos block, base.blockLen block, offset,
          (base.blockCodec block).1, (base.blockCodec block).2⟩ := by
  have positive : 0 < base.csoBlockSize := by omega
  have quotient :
      (block * base.csoBlockSize + offset) / base.csoBlockSize = block := by
    rw [Nat.mul_comm, Nat.mul_add_div positive, Nat.div_eq_of_lt inside,
      Nat.add_zero]
  have large : 2 ^ 11 ≤ base.csoBlockSize := by
    rw [blockSize]
    exact Nat.pow_le_pow_right (by decide) blockShift
  have few : block < 2 ^ 31 := by
    have product : block * 2 ^ 11 ≤ block * base.csoBlockSize :=
      Nat.mul_le_mul_left block large
    omega
  have blockEq :
      toUint32 (((block * base.csoBlockSize + offset : Nat) : Int) /
        2 ^ base.csoBlockShift) = block := by
    have cast :
        ((block * base.csoBlockSize + offset : Nat) : Int) /
            2 ^ base.csoBlockShift =
          (((block * base.csoBlockSize + offset) / base.csoBlockSize :
            Nat) : Int) := by
      rw [Int.natCast_div, blockSize]
      push_cast
      rfl
    rw [cast, quotient, toUint32]
    omega
  have next : (block + 1) % 2 ^ 32 = block + 1 :=
    Nat.mod_eq_of_lt (by omega)
  have offsetEq :
      (((block * base.csoBlockSize + offset : Nat) : Int) % 2 ^ 64).toNat &&&
          (base.csoBlockSize - 1) = offset := by
    have word :
        (((block * base.csoBlockSize + offset : Nat) : Int) % 2 ^ 64).toNat =
          block * base.csoBlockSize + offset := by
      omega
    rw [word, blockSize, Nat.and_two_pow_sub_one_eq_mod, ← blockSize,
      Nat.mul_comm, Nat.mul_add_mod, Nat.mod_eq_of_lt inside]
  simp only [csoRequest, seek, blockEq, next, offsetEq]
  rfl

section

variable {base : Input} {env : Environment} {file image : Bytes}
variable {bufferSize block offset : Nat}

theorem blockLen_lt (base : Input) (block : Nat) :
    base.blockLen block < 2 ^ 32 := by
  unfold blockLen toUint32
  omega

/-- A sector of a raw block is read from the middle of the block. -/
theorem BlockStored.supplies_raw
    (stored : base.BlockStored env file image bufferSize block)
    {input : Input} (cacheSize : input.cacheSize = base.cacheSize)
    (pos : input.pos = (block * base.csoBlockSize + offset : Nat))
    (raw : isRaw (base.blockCodec block) = true)
    (request : input.request =
      Request.skipRaw
        ⟨base.blockPos block, base.blockLen block, offset,
          (base.blockCodec block).1, (base.blockCodec block).2⟩)
    (divides : sectorSize ∣ offset) (inside : offset < base.csoBlockSize)
    (below : block * base.csoBlockSize + offset < image.length) :
    input.Supplies env file image bufferSize := by
  obtain ⟨room, same⟩ := stored.raw raw offset divides inside below
  have nonneg := stored.nonneg
  have contained := stored.contained
  have fits := stored.fits
  have small := base.blockLen_lt block
  have length :
      toUint32 ((base.blockLen block : Int) - offset) =
        base.blockLen block - offset := by
    unfold toUint32
    omega
  have start :
      (base.blockPos block + offset).toNat =
        (base.blockPos block).toNat + offset := by
    omega
  rw [Request.skipRaw_of_raw (by exact raw), length] at request
  constructor
  · rw [request]
    dsimp only
    omega
  · rw [request, Request.Contained, Request.bytes]
    dsimp only
    rw [start, FileBytes.length_pread]
    omega
  · rw [request]
    dsimp only
    omega
  · intro _
    rw [request, Request.bytes]
    dsimp only
    rw [start, FileBytes.take_pread file (by omega), same, pos,
      Int.toNat_natCast]
  · intro compressed
    rw [request] at compressed
    have compressed' : isRaw (base.blockCodec block) = false := compressed
    rw [raw] at compressed'
    cases compressed'

theorem BlockStored.supplies_compressed
    (stored : base.BlockStored env file image bufferSize block)
    (pos : Int) (position : pos = (block * base.csoBlockSize + offset : Nat))
    (compressed : isRaw (base.blockCodec block) = false)
    (request : (base.seek pos).request =
      ⟨base.blockPos block, base.blockLen block, offset,
        (base.blockCodec block).1, (base.blockCodec block).2⟩)
    (divides : sectorSize ∣ base.csoBlockSize)
    (inside : offset < base.csoBlockSize) :
    (base.seek pos).Supplies env file image bufferSize := by
  obtain ⟨content, length, matching, decodes⟩ := stored.decoded compressed
  have contained := stored.contained
  constructor
  · rw [request]
    exact stored.nonneg
  · rw [request, Request.Contained, Request.bytes]
    dsimp only
    rw [FileBytes.length_pread]
    omega
  · rw [request]
    exact stored.fits
  · intro raw
    rw [request] at raw
    have raw' : isRaw (base.blockCodec block) = true := raw
    rw [compressed] at raw'
    cases raw'
  · intro _
    rw [request]
    refine ⟨content, decodes, ?_, ?_, ?_, ?_⟩
    · rw [length]
      exact Or.inl divides
    · rw [length]
      exact inside
    · exact Nat.le_of_eq length
    · have start :
          ((base.seek pos).pos - (offset : Int)).toNat =
            block * base.csoBlockSize := by
        simp only [seek]
        omega
      dsimp only
      rw [start, length]
      exact matching

/-- Every sector of the image can be read. -/
theorem Indexed.supplies
    (indexed : base.Indexed env file image bufferSize) {pos : Int}
    (nonneg : 0 ≤ pos) (more : pos < base.size)
    (aligned : pos % sectorSize = 0) :
    (base.seek pos).Supplies env file image bufferSize := by
  have blockSize := indexed.blockSize
  have size := indexed.size
  have small := indexed.small
  have divides : sectorSize ∣ base.csoBlockSize := by
    rw [blockSize]
    exact Nat.pow_dvd_pow 2 indexed.blockShift.1
  have positive : 0 < base.csoBlockSize := by
    rw [blockSize]
    exact Nat.two_pow_pos _
  obtain ⟨position, rfl⟩ := Int.eq_ofNat_of_zero_le nonneg
  have split := Nat.div_add_mod position base.csoBlockSize
  rw [Nat.mul_comm] at split
  have inside := Nat.mod_lt position positive
  have offsetDivides : sectorSize ∣ position % base.csoBlockSize := by
    apply (Nat.dvd_mod_iff divides).mpr
    simp only [sectorSize] at *
    omega
  generalize position / base.csoBlockSize = block at split
  generalize position % base.csoBlockSize = offset at *
  subst split
  have stored := indexed.stored block (by omega)
  have request := @csoRequest_seek base blockSize indexed.blockShift.1 block
    offset inside (by omega)
  rw [← request_of_indexed (by exact indexed.fileType)] at request
  cases raw : isRaw (base.blockCodec block) with
  | true =>
      exact stored.supplies_raw rfl rfl raw request offsetDivides inside
        (by omega)
  | false =>
      have same : Request.skipRaw
          ⟨base.blockPos block, base.blockLen block, offset,
            (base.blockCodec block).1, (base.blockCodec block).2⟩ =
          ⟨base.blockPos block, base.blockLen block, offset,
            (base.blockCodec block).1, (base.blockCodec block).2⟩ :=
        if_neg (by rw [Bool.not_eq_true]; exact raw)
      rw [same] at request
      exact stored.supplies_compressed _ rfl raw request divides inside

end

end Input

/-! ## Detecting the format -/

namespace CsoHeader

/-- A header whose fields have their widths. -/
structure Encodable (header : CsoHeader) : Prop where
  magic : header.magic.length = 4
  headerSize : header.headerSize < 2 ^ 32
  uncompressedSize : header.uncompressedSize < 2 ^ 64
  sectorSize : header.sectorSize < 2 ^ 32
  version : header.version < 2 ^ 8
  indexShift : header.indexShift < 2 ^ 8
  unused : header.unused.length = 2

theorem length_encode {header : CsoHeader} (encodable : header.Encodable) :
    header.encode.length = csoHeaderSize := by
  simp [encode, encodable.magic, encodable.unused]

theorem wordAt_append
    (before rest : Bytes) {offset width value : Nat}
    (start : before.length = offset) (small : value < 256 ^ width) :
    wordAt (before ++ LittleEndian.encode width value ++ rest) offset width =
      value := by
  rw [wordAt, List.append_assoc, List.drop_left' start,
    List.take_left' (LittleEndian.length_encode width value),
    LittleEndian.decode_encode_of_lt small]

theorem decode_encode
    {header : CsoHeader} (encodable : header.Encodable) :
    decode header.encode = header := by
  obtain ⟨magic, headerSize, uncompressedSize, sectorSize, version,
    indexShift, unused⟩ := header
  have magicLength : magic.length = 4 := encodable.magic
  have unusedLength : unused.length = 2 := encodable.unused
  have fields := encodable
  simp only [decode, encode, CsoHeader.mk.injEq]
  refine ⟨?_, ?_, ?_, ?_, ?_, ?_, ?_⟩
  · simp only [List.append_assoc]
    exact List.take_left' magicLength
  · have word := @wordAt_append magic
      (LittleEndian.encode 8 uncompressedSize ++
        LittleEndian.encode 4 sectorSize ++ LittleEndian.encode 1 version ++
        LittleEndian.encode 1 indexShift ++ unused)
      4 4 headerSize magicLength fields.headerSize
    simpa only [List.append_assoc] using word
  · have word := @wordAt_append (magic ++ LittleEndian.encode 4 headerSize)
      (LittleEndian.encode 4 sectorSize ++ LittleEndian.encode 1 version ++
        LittleEndian.encode 1 indexShift ++ unused)
      8 8 uncompressedSize (by simp [magicLength]) fields.uncompressedSize
    simpa only [List.append_assoc] using word
  · have word := @wordAt_append (magic ++ LittleEndian.encode 4 headerSize ++
        LittleEndian.encode 8 uncompressedSize)
      (LittleEndian.encode 1 version ++ LittleEndian.encode 1 indexShift ++
        unused)
      16 4 sectorSize (by simp [magicLength]) fields.sectorSize
    simpa only [List.append_assoc] using word
  · have word := @wordAt_append (magic ++ LittleEndian.encode 4 headerSize ++
        LittleEndian.encode 8 uncompressedSize ++
        LittleEndian.encode 4 sectorSize)
      (LittleEndian.encode 1 indexShift ++ unused)
      20 1 version (by simp [magicLength]) fields.version
    simpa only [List.append_assoc] using word
  · have word := @wordAt_append (magic ++ LittleEndian.encode 4 headerSize ++
        LittleEndian.encode 8 uncompressedSize ++
        LittleEndian.encode 4 sectorSize ++ LittleEndian.encode 1 version)
      unused 21 1 indexShift (by simp [magicLength]) fields.indexShift
    simpa only [List.append_assoc] using word
  · have start :
        (magic ++ LittleEndian.encode 4 headerSize ++
          LittleEndian.encode 8 uncompressedSize ++
          LittleEndian.encode 4 sectorSize ++ LittleEndian.encode 1 version ++
          LittleEndian.encode 1 indexShift).length = 22 := by
      simp [magicLength]
    rw [List.drop_left' start, List.take_of_length_le (by omega)]

end CsoHeader

namespace Input

/-- The reader after the header of a CSO file. -/
def withHeader (input : Input) (header : CsoHeader) : Input :=
  ({ input with fileType := csoFileType header }.withCsoHeader
    header).setupCache header.sectorSize

/-- The reader that has found a CSO file with the given index. -/
def csoBase (env : Environment) (header : CsoHeader) (index : Bytes) :
    Input :=
  { (create env).withHeader header with
    index := decodeTable 4 (FlatMemory.write env.newIndex 0 index) }.found

/-- A header that names a CSO or ZSO file. -/
structure Accepts (header : CsoHeader) : Prop where
  encodable : header.Encodable
  magic : header.magic = csoMagic ∨ header.magic = zsoMagic
  accepted : csoRejection header = none

theorem detectCso_accepts
    {header : CsoHeader} (accepts : Accepts header) (input : Input)
    {pool : BufferPool} (large : header.sectorSize * 2 ≤ pool.bufferSize)
    (headerBuf : Buffer) :
    input.onHeaderRead pool headerBuf (some header.encode) =
      ⟨(input.withHeader header).ask
          (.readIndex (input.withHeader header).indexBytes),
        pool.release (headerBuf.filled header.encode), []⟩ := by
  have length := CsoHeader.length_encode accepts.encodable
  have taken : header.encode.take 4 = header.magic := by
    rw [CsoHeader.encode]
    simp only [List.append_assoc]
    exact List.take_left' accepts.encodable.magic
  have magic : header.magic = zsoMagic ∨ header.magic = csoMagic :=
    accepts.magic.symm
  have enough :
      ¬ (pool.release (headerBuf.filled header.encode)).bufferSize <
        header.sectorSize * 2 := Nat.not_lt.mpr large
  simp only [onHeaderRead, length, csoHeaderSize, ne_eq, not_true_eq_false,
    if_false, taken, magic, if_true, CsoHeader.decode_encode
      accepts.encodable, detectCso, accepts.accepted, growPool, enough]
  rfl

theorem leads_cso
    {env : Environment} {file index : Bytes} {header : CsoHeader}
    {pool : BufferPool} (complete : env.CompleteReads file)
    (accepts : Accepts header)
    (headerRead : FileBytes.pread file 0 csoHeaderSize = header.encode)
    (large : header.sectorSize * 2 ≤ pool.bufferSize)
    (indexRead : FileBytes.pread file csoHeaderSize
      ((create env).withHeader header).indexBytes = index)
    (indexLength : index.length =
      ((create env).withHeader header).indexBytes) :
    LeadsTo env pool.bufferSize (csoBase env header index) 2
      (Reader.start env pool).input
      (.readHeader (pool.alloc env.heap).1) := by
  refine ⟨rfl, fun input pool' found cachePos idle sameSize => ?_⟩
  have fresh : input.found = (create env).found := found
  have bytesEq : (input.withHeader header).indexBytes =
      ((create env).withHeader header).indexBytes := rfl
  have headed :
      input.complete env pool' (.readHeader (pool.alloc env.heap).1) =
        ⟨({ input with reads := input.reads + 1 }.withHeader header).ask
            (.readIndex (input.withHeader header).indexBytes),
          pool'.release ((pool.alloc env.heap).1.filled header.encode),
          []⟩ := by
    have read := complete input.reads 0 csoHeaderSize (Int.le_refl 0)
    simp only [Int.toNat_zero, headerRead] at read
    simp only [Input.complete, readRange, read]
    exact detectCso_accepts accepts _ (by rw [sameSize]; exact large) _
  rw [headed]
  refine ⟨sameSize, Or.inr ⟨.readIndex
    (input.withHeader header).indexBytes, ?_, rfl, ?_⟩⟩
  · simp [InputResult.phase, ask, withHeader, withCsoHeader, setupCache, idle]
  · intro input' pool'' found' cachePos' idle' sameSize'
    have read := complete input'.reads csoHeaderSize
      ((create env).withHeader header).indexBytes (by decide)
    rw [Int.toNat_natCast, indexRead] at read
    have started :
        input'.complete env pool''
            (.readIndex (input.withHeader header).indexBytes) =
          ⟨{ input' with
              reads := input'.reads + 1
              index :=
                decodeTable 4 (FlatMemory.write env.newIndex 0 index) },
            pool'', [.begin input'.size, .readSector]⟩ := by
      rw [bytesEq]
      simp only [Input.complete, readRange, read, onIndexRead, indexLength,
        ne_eq, not_true_eq_false, if_false]
    rw [started]
    refine ⟨sameSize', Or.inl ⟨input'.size, rfl, ?_, ?_⟩⟩
    · have same : input'.found = ((create env).withHeader header).found :=
        found'.trans
          (congrArg (fun other => (other.withHeader header).found) fresh)
      exact congrArg
        (fun other : Input =>
          { other with
            index :=
              decodeTable 4 (FlatMemory.write env.newIndex 0 index) }) same
    · have size : (csoBase env header index).size =
          (input.withHeader header).size := rfl
      rw [size]
      exact cachePos'

end Input

end Maxcso
