import Mathlib.Logic.Function.Basic
import Maxcso.BufferPool
import Maxcso.Environment

/-!
# The reader

`input.h` and `input.cpp`.  As in the writer, what a function leaves to be
done after a callback is returned as a list of calls, and requests that the
event loop completes later are kept in `inFlight`.
-/

namespace Maxcso

inductive FileType where
  | unknown
  | iso
  | cso1
  | cso2
  | zso
  | dax
  deriving DecidableEq, Repr

/-- What `ReadSector` works out about the sector at `pos_`: the position and
length of the data in the file, the offset of the sector in the decompressed
block, and the codec if there is one. -/
structure Request where
  pos : Int
  len : Nat
  offset : Nat
  compressedDeflate : Bool
  compressedLz4 : Bool
  deriving DecidableEq, Repr

def Request.raw (request : Request) : Bool :=
  !request.compressedDeflate && !request.compressedLz4

/-- The raw data of a block starts at the wanted sector. -/
def Request.skipRaw (request : Request) : Request :=
  if request.raw then
    { request with
      pos := request.pos + request.offset
      len := toUint32 (request.len - request.offset : Int)
      offset := 0 }
  else
    request

/-- An outstanding request of the reader. -/
inductive InputRequest where
  | readHeader (headerBuf : Buffer)
  | readIndex (bytes : Nat)
  | readTables (frames : Nat) (areas : Option Nat) (bytes : Nat)
  | stat
  | readBlock (request : Request) (size : Nat)
  | decompress (actualBuf : Buffer) (source : Bytes) (offset : Nat)
      (isLz4 : Bool)

/-- The state of the loop that passes on the sectors of a decompressed block.
`supplied` is the number of bytes that the codec produced. -/
structure SubBlock where
  actualBuf : Buffer
  suboffset : Nat
  resultSize : Nat
  supplied : Nat

def SubBlock.last (block : SubBlock) : Bool :=
  block.resultSize ≤ block.suboffset + sectorSize

/-- `supplied` in a callback is the number of bytes, from the start of the
buffer, that come from the block. -/
inductive InputCall where
  | readSector
  | callback (pos : Int) (sector : Buffer) (supplied : Nat)
  | rawDelivered
  | subBlock (block : SubBlock)
  | subDelivered (block : SubBlock)
  | begin (size : Int)
  | finish (success : Bool) (reason : String)

/-- A use of file data: copied out, or handed to a decompressor. -/
structure Fetch where
  request : Request
  data : Bytes
  deriving DecidableEq, Repr

structure Input where
  fileType : FileType
  paused : Bool
  resumeShouldRead : Bool
  pos : Int
  size : Int
  cache : Nat → UInt8
  cachePos : Int
  cacheSize : Nat
  csoIndexShift : Nat
  csoBlockShift : Nat
  csoBlockSize : Nat
  /-- `csoIndex_` or `daxIndex_`, which share storage. -/
  index : Nat → Nat
  daxSize : Nat → Nat
  daxIsNC : Nat → Bool
  inFlight : List InputRequest
  /-- How many reads and how many decompressions have completed. -/
  reads : Nat
  works : Nat
  /-- How often a block read has filled the cache. -/
  cacheFills : Nat
  /-- Every use of file data so far. -/
  fetches : List Fetch

/-- The buffer with bytes at its front. -/
def Buffer.filled (buffer : Buffer) (bytes : Bytes) : Buffer :=
  { buffer with memory := FlatMemory.write buffer.memory 0 bytes }

structure InputResult where
  input : Input
  pool : BufferPool
  calls : List InputCall

namespace Input

def create (env : Environment) : Input where
  fileType := .unknown
  paused := false
  resumeShouldRead := false
  pos := 0
  size := -1
  cache := env.newCache
  cachePos := 0
  cacheSize := 0
  csoIndexShift := 0
  csoBlockShift := 0
  csoBlockSize := 0
  index := fun _ => 0
  daxSize := fun _ => 0
  daxIsNC := fun _ => false
  inFlight := []
  reads := 0
  works := 0
  cacheFills := 0
  fetches := []

def ask (input : Input) (request : InputRequest) : Input :=
  { input with inFlight := input.inFlight ++ [request] }

/-- `Pipe` and the first step of `DetectFormat`. -/
def pipe (env : Environment) (input : Input) (pool : BufferPool) :
    Input × BufferPool :=
  let (headerBuf, pool) := pool.alloc env.heap
  ({ input with pos := 0 }.ask (.readHeader headerBuf), pool)

/-! ## Detecting the format -/

/-- The loop of `SetupCache`; four rounds are enough from 2048 on. -/
def growCacheSize : Nat → Nat → Nat
  | 0, minSize => minSize
  | fuel + 1, minSize =>
      if minSize < 32768 then growCacheSize fuel (minSize * 2) else minSize

/-- `SetupCache` -/
def setupCache (input : Input) (minSize : Nat) : Input :=
  { input with
    cachePos := input.size
    cacheSize := growCacheSize 4 minSize }

def sizeAligned (input : Input) : Int :=
  input.size + input.csoBlockSize - 1

def csoFileType (header : CsoHeader) : FileType :=
  if header.magic = zsoMagic then .zso
  else if header.version = 2 then .cso2
  else .cso1

/-- Why a CSO or ZSO header is refused. -/
def csoRejection (header : CsoHeader) : Option String :=
  if 2 < header.version then
    some "CSO header indicates unsupported version"
  else if header.sectorSize < sectorSize ∨
      maxBlockSize < header.sectorSize then
    some "CSO header indicates unsupported sector size"
  else if header.uncompressedSize % (sectorMask + 1) ≠ 0 then
    some "CSO uncompressed size not aligned to sector size"
  else
    none

/-- The fields that `DetectFormat` takes from an accepted header. -/
def withCsoHeader (input : Input) (header : CsoHeader) : Input :=
  { input with
    size := toInt64 header.uncompressedSize
    csoIndexShift := header.indexShift
    csoBlockSize := header.sectorSize
    csoBlockShift := Nat.log2 header.sectorSize }

/-- The length of the index read, computed in 32 bits. -/
def indexBytes (input : Input) : Nat :=
  let sectors := toUint32 (input.sizeAligned / 2 ^ input.csoBlockShift)
  (sectors + 1) % 2 ^ 32 * 4 % 2 ^ 32

/-- Over-allocate a bit in case of inefficient padding between blocks. -/
def growPool (pool : BufferPool) (blockSize : Nat) : BufferPool × Bool :=
  if pool.bufferSize < blockSize * 2 then
    pool.setBufferSize (blockSize * 2)
  else
    (pool, true)

/-- The part of `DetectFormat` for a CSO or ZSO header; the header buffer has
been released when the pool is resized. -/
def detectCso (input : Input) (pool : BufferPool) (headerBuf : Buffer)
    (header : CsoHeader) : InputResult :=
  let input := { input with fileType := csoFileType header }
  let pool := pool.release headerBuf
  match csoRejection header with
  | some reason => ⟨input, pool, [.finish false reason]⟩
  | none =>
      let input := input.withCsoHeader header
      let grown := growPool pool header.sectorSize
      if grown.2 then
        ⟨(input.setupCache header.sectorSize).ask
            (.readIndex input.indexBytes),
          grown.1, []⟩
      else
        ⟨{ input with size := -1 }, grown.1,
          [.finish false
            "Unable to update buffer size to match decompress block size"]⟩

/-- Why a DAX header is refused. -/
def daxRejection (header : DaxHeader) : Option String :=
  if 1 < header.version then
    some "DAX header indicates unsupported version"
  else if header.uncompressedSize % (sectorMask + 1) ≠ 0 then
    some "DAX uncompressed size not aligned to sector size"
  else
    none

/-- The number of frames of a DAX file. -/
def daxFrames (size : Int) : Nat :=
  toUint32 ((size + daxFrameSize - 1) / 2 ^ daxFrameShift)

/-- The number of areas is read as an `int`, so a large one means none. -/
def daxAreas (header : DaxHeader) : Option Nat :=
  if 1 ≤ header.version ∧ 0 < header.ncAreas ∧
      header.ncAreas < 2 ^ 31 then
    some header.ncAreas
  else
    none

/-- The part of `DetectFormat` for a DAX header. -/
def detectDax (input : Input) (pool : BufferPool) (headerBuf : Buffer)
    (header : DaxHeader) : InputResult :=
  let input := { input with fileType := .dax }
  let pool := pool.release headerBuf
  match daxRejection header with
  | some reason => ⟨input, pool, [.finish false reason]⟩
  | none =>
      let input :=
        { input with
          size := header.uncompressedSize
          csoBlockSize := daxFrameSize }
      let frames := daxFrames input.size
      let areas := daxAreas header
      let bytes := (frames * 6 + areas.getD 0 * 8) % 2 ^ 32
      ⟨(input.setupCache daxFrameSize).ask (.readTables frames areas bytes),
        pool, []⟩

/-- The callback of the header read. -/
def onHeaderRead (input : Input) (pool : BufferPool) (headerBuf : Buffer)
    (result : Option Bytes) : InputResult :=
  match result with
  | none =>
      ⟨input, pool.release headerBuf,
        [.finish false "Not able to read first 24 bytes"]⟩
  | some bytes =>
      let headerBuf := headerBuf.filled bytes
      if bytes.length ≠ 24 then
        ⟨input, pool.release headerBuf,
          [.finish false "Not able to read first 24 bytes"]⟩
      else if bytes.take 4 = zsoMagic ∨ bytes.take 4 = csoMagic then
        input.detectCso pool headerBuf (CsoHeader.decode bytes)
      else if bytes.take 4 = daxMagic then
        input.detectDax pool headerBuf (DaxHeader.decode bytes)
      else
        ⟨{ input with fileType := .iso }.ask .stat,
          pool.release headerBuf, []⟩

/-- The callback of the CSO index read. -/
def onIndexRead (env : Environment) (input : Input) (pool : BufferPool)
    (bytes : Nat) (result : Option Bytes) : InputResult :=
  match result with
  | none => ⟨input, pool, [.finish false "Unable to read entire index"]⟩
  | some data =>
      if data.length ≠ bytes then
        ⟨input, pool, [.finish false "Unable to read entire index"]⟩
      else
        let memory := FlatMemory.write env.newIndex 0 data
        ⟨{ input with index := decodeTable 4 memory }, pool,
          [.begin input.size, .readSector]⟩

/-- Mark the frames of one NC area; the frame number wraps. -/
def markArea (start count : Nat) (isNC : Nat → Bool) : Nat → Bool :=
  (List.range count).foldl
    (fun marked frame =>
      Function.update marked ((start + frame) % 2 ^ 32) true) isNC

/-- Map the areas to an index.  Marks past the end of the array, which in the
source overwrite other memory, reach nothing else here. -/
def markAreas (areas : Nat → UInt8) (count : Nat) : Nat → Bool :=
  (List.range count).foldl
    (fun marked area =>
      markArea (decodeTable 4 areas (2 * area))
        (decodeTable 4 areas (2 * area + 1)) marked)
    fun _ => false

/-- The size of the buffers of the DAX table read, each of which is cut to 32
bits by `uv_buf_init`. -/
def tableBytes (frames : Nat) (areas : Option Nat) : Nat :=
  frames * 4 % 2 ^ 32 + frames * 2 % 2 ^ 32 + areas.getD 0 * 8 % 2 ^ 32

/-- The callback of the DAX table read: the data fills positions, sizes and
areas in turn. -/
def onTablesRead (env : Environment) (input : Input) (pool : BufferPool)
    (frames : Nat) (areas : Option Nat) (bytes : Nat)
    (result : Option Bytes) : InputResult :=
  match result with
  | none => ⟨input, pool, [.finish false "Unable to read entire index"]⟩
  | some data =>
      if data.length ≠ bytes then
        ⟨input, pool, [.finish false "Unable to read entire index"]⟩
      else
        let positions := data.take (frames * 4)
        let sizes := (data.drop (frames * 4)).take (frames * 2)
        let ncAreas := data.drop (frames * 4 + frames * 2)
        ⟨{ input with
            index :=
              decodeTable 4 (FlatMemory.write env.newIndex 0 positions)
            daxSize := decodeTable 2 (FlatMemory.write env.newSizes 0 sizes)
            daxIsNC :=
              markAreas (FlatMemory.write env.newAreas 0 ncAreas)
                (areas.getD 0) },
          pool, [.begin input.size, .readSector]⟩

/-- The callback of `fstat`. -/
def onStat (input : Input) (pool : BufferPool) (result : Option Nat) :
    InputResult :=
  match result with
  | none =>
      ⟨input, pool, [.finish false "ISO file not aligned to sector size"]⟩
  | some size =>
      if size % (sectorMask + 1) ≠ 0 then
        ⟨input, pool, [.finish false "ISO file not aligned to sector size"]⟩
      else
        ⟨{ input with size := size }.setupCache sectorSize, pool,
          [.begin size, .readSector]⟩

/-! ## Reading sectors -/

/-- `static_cast<uint64_t>(word & 0x7FFFFFFF) << csoIndexShift_` as an
`int64_t`, with the shift count reduced as the processor does. -/
def indexPos (shift word : Nat) : Int :=
  toInt64 (word % 2 ^ 31 * 2 ^ (shift % 64))

/-- Which codec, if any, an index word and a length call for. -/
def csoCodec (input : Input) (word len : Nat) : Bool × Bool :=
  match input.fileType with
  | .cso1 => (!word.testBit 31, false)
  | .cso2 =>
      -- In v2, only smaller than csoBlockSize_ is compressed.
      if word.testBit 31 then
        (false, decide (len < input.csoBlockSize))
      else
        (decide (len < input.csoBlockSize), false)
  | .zso => (false, !word.testBit 31)
  | _ => (false, false)

def csoRequest (input : Input) : Request :=
  let block := toUint32 (input.pos / 2 ^ input.csoBlockShift)
  let word := input.index block
  let nextWord := input.index ((block + 1) % 2 ^ 32)
  let pos := indexPos input.csoIndexShift word
  let nextPos := indexPos input.csoIndexShift nextWord
  let len := toUint32 (nextPos - pos)
  let offset := (input.pos % 2 ^ 64).toNat &&& (input.csoBlockSize - 1)
  let codec := input.csoCodec word len
  Request.skipRaw ⟨pos, len, offset, codec.1, codec.2⟩

def daxRequest (input : Input) : Request :=
  let frame := toUint32 (input.pos / 2 ^ daxFrameShift)
  let offset := (input.pos % daxFrameSize).toNat
  Request.skipRaw
    ⟨input.index frame, input.daxSize frame, offset,
      !input.daxIsNC frame, false⟩

/-- Position and length of the data for the sector at `pos_`. -/
def request (input : Input) : Request :=
  match input.fileType with
  | .iso | .unknown => ⟨input.pos, sectorSize, 0, false, false⟩
  | .cso1 | .cso2 | .zso => input.csoRequest
  | .dax => input.daxRequest

/-- `EnqueueDecompressSector`; the bytes at `src` are those handed to the
worker. -/
def enqueueDecompressSector (env : Environment) (input : Input)
    (pool : BufferPool) (source : Bytes) (offset : Nat) (isLz4 : Bool) :
    InputResult :=
  let (actualBuf, pool) := pool.alloc env.heap
  ⟨input.ask (.decompress actualBuf source offset isLz4), pool, []⟩

/-- What `ReadSector` does with the data of the block, from either place.  Data
that are longer than the buffer run past its end in the source; here they
reach nothing else, and results about what follows ask that they fit. -/
def useData (env : Environment) (input : Input) (pool : BufferPool)
    (request : Request) (data : Bytes) : InputResult :=
  let input :=
    { input with fetches := input.fetches ++ [⟨request, data⟩] }
  if request.raw then
    let (readBuf, pool) := pool.alloc env.heap
    let readBuf :=
      { readBuf with memory := FlatMemory.write readBuf.memory 0 data }
    ⟨input, pool,
      [.callback input.pos readBuf data.length, .rawDelivered]⟩
  else
    input.enqueueDecompressSector env pool data request.offset
      request.compressedLz4

/-- Whether the wanted range lies in the window of the cache. -/
def cacheHit (input : Input) (request : Request) : Bool :=
  decide (input.cachePos ≤ request.pos ∧
    request.pos + request.len ≤ input.cachePos + input.cacheSize)

/-- Where `ReadSector` gets the data of a request from. -/
inductive FetchDecision where
  | use (data : Bytes)
  | read (cachePos : Int) (size : Nat)
  deriving DecidableEq, Repr

abbrev FetchPolicy := Input → Request → FetchDecision

/-- The end of `ReadSector`: take the data from the cache, or read into it. -/
def fetchCached : FetchPolicy := fun input request =>
  if input.cacheHit request then
    .use (FlatMemory.read input.cache
      (request.pos - input.cachePos).toNat request.len)
  else
    .read request.pos input.cacheSize

/-- Carry out a decision. -/
def fetch (policy : FetchPolicy) (env : Environment) (input : Input)
    (pool : BufferPool) (request : Request) : InputResult :=
  match policy input request with
  | .use data => input.useData env pool request data
  | .read cachePos size =>
      ⟨{ input with cachePos := cachePos }.ask (.readBlock request size),
        pool, []⟩

/-- `ReadSector`, with the way it gets at the data as a parameter. -/
def readSectorWith (policy : FetchPolicy) (env : Environment)
    (input : Input) (pool : BufferPool) : InputResult :=
  -- At the end of the file, all done.
  if input.size ≤ input.pos then
    ⟨input, pool, [.finish true ""]⟩
  else if input.paused then
    ⟨{ input with resumeShouldRead := true }, pool, []⟩
  else
    let result := input.fetch policy env pool input.request
    if input.fileType = .unknown then
      { result with
        calls :=
          .finish false "Unexpected input file type" :: result.calls }
    else
      result

/-- `ReadSector` -/
def readSector (env : Environment) (input : Input) (pool : BufferPool) :
    InputResult :=
  readSectorWith fetchCached env input pool

/-- The callback of the block read. -/
def onBlockRead (env : Environment) (input : Input) (pool : BufferPool)
    (request : Request) (result : Option Bytes) : InputResult :=
  match result with
  | none => ⟨input, pool, [.finish false "Unable to read entire sector"]⟩
  | some data =>
      let input :=
        { input with
          cache := FlatMemory.write input.cache 0 data
          cacheFills := input.cacheFills + 1 }
      if data.length < request.len then
        ⟨input, pool, [.finish false "Unable to read entire sector"]⟩
      else
        input.useData env pool request
          (FlatMemory.read input.cache 0 request.len)

/-- `DecompressSectorDeflate` -/
def decompressSectorDeflate (env : Environment) (input : Input)
    (pool : BufferPool) (source : Bytes) : Except String Bytes :=
  match env.inflate (input.fileType = .dax) pool.bufferSize source with
  | .error message => .error message
  | .ok data =>
      if data.length < sectorSize then
        .error "Expected to decompress into at least a full sector"
      else
        .ok data

/-- `DecompressSectorLZ4` -/
def decompressSectorLz4 (env : Environment) (input : Input)
    (source : Bytes) : Except String Bytes :=
  match env.lz4DecompressSafePartial source input.csoBlockSize with
  | none => .error "LZ4 decompression failed."
  | some data => .ok data

/-- The work that `EnqueueDecompressSector` queues. -/
def decompressWork (env : Environment) (input : Input) (pool : BufferPool)
    (source : Bytes) (isLz4 : Bool) : Except String Bytes :=
  if isLz4 then
    input.decompressSectorLz4 env source
  else
    input.decompressSectorDeflate env pool source

/-- The part of a decompressed block that lies below `size_`. -/
def trimmedSize (input : Input) (offset supplied : Nat) : Nat :=
  let sectorPos := input.pos - offset
  if input.size < sectorPos + supplied then
    -- Ignore the padding at the end of the last block.
    toUint32 (input.size - sectorPos)
  else
    supplied

/-- Why the callback of a successful decompression refuses its result. -/
def rejection (env : Environment) (input : Input) (data : Bytes) :
    Option String :=
  if env.workStatus input.works = -1 then
    some "Decompression work failed"
  else if input.csoBlockSize < data.length then
    some "Decompression produced more data than expected"
  else
    none

/-- The callback of the queued decompression up to its loop. -/
def onDecompressed (env : Environment) (input : Input) (pool : BufferPool)
    (actualBuf : Buffer) (offset : Nat) (result : Except String Bytes) :
    InputResult :=
  let counted := { input with works := input.works + 1 }
  match result with
  | .error message =>
      let reason := if message = "" then "Unknown error" else message
      ⟨counted, pool.release actualBuf, [.finish false reason]⟩
  | .ok data =>
      match input.rejection env data with
      | some reason =>
          ⟨counted, pool.release actualBuf, [.finish false reason]⟩
      | none =>
          let actualBuf :=
            { actualBuf with
              memory := FlatMemory.write actualBuf.memory 0 data }
          ⟨counted, pool,
            [.subBlock
              { actualBuf := actualBuf
                suboffset := offset
                resultSize := input.trimmedSize offset data.length
                supplied := data.length }]⟩

/-- The loop head and the body up to the callback: the last sector moves to
the front of the buffer, the others are copied out. -/
def subBlock (env : Environment) (input : Input) (pool : BufferPool)
    (block : SubBlock) : InputResult :=
  if block.suboffset < block.resultSize then
    let sector :=
      FlatMemory.read block.actualBuf.memory block.suboffset sectorSize
    let (subBuf, pool) :=
      if block.last then (block.actualBuf, pool) else pool.alloc env.heap
    let subBuf :=
      { subBuf with memory := FlatMemory.write subBuf.memory 0 sector }
    ⟨input, pool,
      [.callback input.pos subBuf (block.supplied - block.suboffset),
        .subDelivered block]⟩
  else
    ⟨input, pool, [.readSector]⟩

/-- The rest of the loop body. -/
def subDelivered (input : Input) (pool : BufferPool) (block : SubBlock) :
    InputResult :=
  let input := { input with pos := input.pos + sectorSize }
  if input.paused ∧ ¬ block.last then
    -- We may have filled early.  In this case, we have to bail and
    -- re-decompress part of this block.
    ⟨input, pool.release block.actualBuf, [.readSector]⟩
  else
    ⟨input, pool,
      [.subBlock { block with suboffset := block.suboffset + sectorSize }]⟩

/-- The raw path of `ReadSector` after the callback. -/
def rawDelivered (input : Input) (pool : BufferPool) : InputResult :=
  ⟨{ input with pos := input.pos + sectorSize }, pool, [.readSector]⟩

/-- `Pause` -/
def pause (input : Input) : Input :=
  { input with paused := true }

/-- `Resume` -/
def resume (input : Input) : Input × List InputCall :=
  if input.resumeShouldRead then
    ({ input with paused := false, resumeShouldRead := false },
      [.readSector])
  else
    ({ input with paused := false }, [])

/-! ## Completions -/

/-- The number of bytes of the buffers of a read and its offset. -/
def readRange (request : InputRequest) : Option (Int × Nat) :=
  match request with
  | .readHeader _ => some (0, 24)
  | .readIndex bytes => some (csoHeaderSize, bytes)
  | .readTables frames areas _ =>
      some (daxHeaderSize, tableBytes frames areas)
  | .readBlock request size => some (request.pos, size)
  | .stat | .decompress .. => none

/-- The event loop delivers the completion of a request that has been taken
off `inFlight`. -/
def complete (env : Environment) (input : Input) (pool : BufferPool)
    (request : InputRequest) : InputResult :=
  let data :=
    match readRange request with
    | some (offset, length) => env.fsRead input.reads offset length
    | none => none
  let counted := { input with reads := input.reads + 1 }
  match request with
  | .readHeader headerBuf => counted.onHeaderRead pool headerBuf data
  | .readIndex bytes => counted.onIndexRead env pool bytes data
  | .readTables frames areas bytes =>
      counted.onTablesRead env pool frames areas bytes data
  | .stat => input.onStat pool env.fsStat
  | .readBlock request _ => counted.onBlockRead env pool request data
  | .decompress actualBuf source offset isLz4 =>
      input.onDecompressed env pool actualBuf offset
        (input.decompressWork env pool source isLz4)

end Input

end Maxcso
