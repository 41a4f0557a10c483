import Mathlib.Logic.Function.Basic
import Maxcso.Library.OrderedMap
import Maxcso.Sector

/-!
# The writer

`output.h` and `output.cpp`.  Sectors are named by their index among the 32
that the constructor makes.  A function that calls back into its owner, or
that goes on after such a call, returns what is left to do as a list of calls;
the machine that drives the writer runs them in order.
-/

namespace Maxcso

abbrev SectorId := Nat

/-- `QUEUE_SIZE` -/
abbrev queueSize : Nat := 32

/-- `MAX_BUFS` -/
abbrev maxBufs : Nat := 16

/-- Queued work: the sector and the block its callback captured. -/
structure CompressJob where
  sector : SectorId
  block : Nat
  deriving DecidableEq, Repr

/-- An `fs_write` of block data with what its callback captured. -/
structure DataWrite where
  sectors : List SectorId
  nextPos : Int
  totalWrite : Int
  offset : Int
  data : Bytes
  deriving DecidableEq, Repr

/-- The `fs_write` of the header and tables at offset 0. -/
structure IndexWrite where
  data : Bytes
  totalBytes : Nat
  deriving DecidableEq, Repr

inductive OutputCall where
  | pad (sector : SectorId) (block : Nat) (padPos : Int)
  | sectorReady (sector : SectorId) (block : Nat)
  | progress (pos total written : Int)
  | afterProgress (nextPos : Int)
  | finish (success : Bool) (reason : String)

structure Output where
  flags : Nat
  stateHasFile : Bool
  stateIndexReady : Bool
  stateIndexWritten : Bool
  stateDataWritten : Bool
  fmt : CsoFormat
  /-- `file_ < 0` -/
  noFile : Bool
  srcSize : Int
  srcPos : Int
  dstPos : Int
  index : Nat → Nat
  indexShift : Nat
  indexAlign : Nat
  blockSize : Nat
  blockShift : Nat
  freeSectors : List SectorId
  pendingSectors : List (Int × SectorId)
  partialSectors : List (Nat × SectorId)
  sectors : SectorId → Sector
  jobs : List CompressJob
  dataWrites : List DataWrite
  indexWrites : List IndexWrite
  /-- Set when `freeSectors_.back()` was taken of an empty list. -/
  underflow : Bool

structure OutputResult where
  output : Output
  pool : BufferPool
  calls : List OutputCall

namespace Output

def create (env : Environment) (flags : Nat) : Output where
  flags := flags
  stateHasFile := false
  stateIndexReady := false
  stateIndexWritten := false
  stateDataWritten := false
  fmt := .cso1
  noFile := true
  srcSize := -1
  srcPos := 0
  dstPos := 0
  index := decodeTable 4 env.newIndex
  indexShift := 0
  indexAlign := 1
  blockSize := 0
  blockShift := 0
  freeSectors := List.range queueSize
  pendingSectors := []
  partialSectors := []
  sectors := fun _ => Sector.create flags
  jobs := []
  dataWrites := []
  indexWrites := []
  underflow := false

def decompressing (output : Output) : Bool :=
  hasFlag output.flags taskflagDecompress

/-! ## Layout -/

/-- The shift that the loop over `i` from 62 down to 31 finds. -/
def shiftForSize (worstSize : Int) : Nat :=
  match ((List.range 32).map (62 - ·)).find? (fun i => 2 ^ i ≤ worstSize) with
  | some i => i + 1 - 31
  | none => 0

/-- `DstFirstSectorPos`; `totalSectors + 1` is computed in 32 bits. -/
def dstFirstSectorPos (flags totalSectors : Nat) : Nat :=
  if hasFlag flags taskflagDecompress then
    0
  else if hasFlag flags taskflagFmtDax then
    daxHeaderSize + totalSectors * (4 + 2)
  else
    csoHeaderSize + (totalSectors + 1) % 2 ^ 32 * 4

/-- `Align`: the position moved up to a multiple of `indexAlign_`. -/
def align (output : Output) (pos : Int) : Int :=
  let off := toUint32 (pos % output.indexAlign)
  if off ≠ 0 then pos + (output.indexAlign - off) else pos

def srcSizeAligned (output : Output) : Int :=
  output.srcSize + output.blockSize - 1

/-- The number of blocks, `SrcSizeAligned() >> blockShift_` in 32 bits. -/
def totalBlocks (output : Output) : Nat :=
  toUint32 (output.srcSizeAligned / 2 ^ output.blockShift)

/-- `SetFile` -/
def setFile (output : Output) (noFile : Bool) (srcSize : Int)
    (blockSize : Nat) (fmt : CsoFormat) (origMaxCost lz4MaxCost : Nat) :
    Output × List OutputCall :=
  let output :=
    { output with
      noFile := noFile
      srcSize := srcSize
      srcPos := 0
      fmt := fmt
      blockSize := blockSize
      blockShift := Nat.log2 blockSize }
  let first : Int := dstFirstSectorPos output.flags output.totalBlocks
  let indexShift :=
    if output.decompressing then 0 else shiftForSize (first + srcSize)
  let output :=
    { output with
      dstPos := first
      indexShift := indexShift }
  if fmt = .dax ∧ (indexShift ≠ 0 ∨ (toUint32 srcSize : Int) < srcSize) then
    (output, [.finish false "File too large to compress as DAX"])
  else if fmt = .dax ∧ blockSize ≠ daxFrameSize then
    (output, [.finish false "DAX requires a block size of 8192"])
  else
    let output := { output with indexAlign := 2 ^ indexShift }
    let setup (id : SectorId) : Sector :=
      if id ∈ output.freeSectors then
        (output.sectors id).setup blockSize output.indexAlign
          origMaxCost lz4MaxCost
      else
        output.sectors id
    ({ output with
        dstPos := output.align first
        stateHasFile := true
        sectors := setup },
      [])

/-! ## Index and header -/

/-- `UpdateIndex`; a format that the container has no entry for is reported
after the entry has been written.  The source has an `int32_t` for the entry
and an array of as many as a `uint32_t` counts; entries outside, which blocks
from 2 ^ 31 on have, are no array accesses here. -/
def updateIndex (output : Output) (srcPos dstPos : Int)
    (format : SectorFormat) : Output × Option String :=
  let entry := toUint32 (srcPos / 2 ^ output.blockShift)
  let word := toUint32 (dstPos / 2 ^ output.indexShift)
  -- CSO2 doesn't use a flag for uncompressed, only the size of the block.
  let flagged :=
    if format = .orig ∧ output.fmt ≠ .cso2 ∧ output.fmt ≠ .dax then
      word ||| csoIndexUncompressed
    else
      word
  let store (value : Nat) : Output :=
    { output with index := Function.update output.index entry value }
  match output.fmt, format with
  | .cso1, .lz4 =>
      (store flagged, some "LZ4 format not supported within CSO v1 file")
  | .zso, .deflate =>
      (store flagged, some "Deflate format not supported within ZSO file")
  | .cso2, .lz4 => (store (flagged ||| cso2IndexLz4), none)
  | .dax, .orig =>
      (store flagged, some "Sector format must be ZLIB for entire file")
  | .dax, .lz4 =>
      (store flagged, some "Sector format must be ZLIB for entire file")
  | _, _ => (store flagged, none)

/-- `CheckFinish` -/
def checkFinish (output : Output) : List OutputCall :=
  if output.stateIndexWritten ∧ output.stateDataWritten then
    [.finish true ""]
  else
    []

/-- `uv_buf_init` takes its length as an `unsigned int`. -/
def uvBufLength (length : Nat) : Nat := length % 2 ^ 32

/-- A table as the buffer that `uv_buf_init` makes of it. -/
def tableBuffer (width count : Nat) (table : Nat → Nat) : Bytes :=
  (encodeTable width count table).take (uvBufLength (count * width))

def csoHeader (output : Output) : CsoHeader where
  magic := if output.fmt = .zso then zsoMagic else csoMagic
  headerSize := csoHeaderSize
  uncompressedSize := (output.srcSize % 2 ^ 64).toNat
  sectorSize := output.blockSize
  version := if output.fmt = .cso2 then 2 else 1
  indexShift := output.indexShift
  unused := [0, 0]

/-- `WriteCSOIndex` -/
def writeCsoIndex (output : Output) : Output × List OutputCall :=
  let entries := (output.totalBlocks + 1) % 2 ^ 32
  if output.noFile then
    let output := { output with stateIndexWritten := true }
    (output, output.checkFinish)
  else
    ({ output with
        indexWrites := output.indexWrites ++
          [{ data := output.csoHeader.encode ++
                tableBuffer 4 entries output.index
             totalBytes := csoHeaderSize + entries * 4 }] },
      [])

def daxHeader (output : Output) : DaxHeader where
  magic := daxMagic
  uncompressedSize := toUint32 output.srcSize
  version := 0
  ncAreas := 0
  unused := [0, 0, 0, 0]

/-- The stored size of a frame, as the difference of consecutive entries. -/
def daxFrameLength (output : Output) (frame : Nat) : Nat :=
  (output.index (frame + 1) + 2 ^ 32 - output.index frame) % 2 ^ 32

/-- `sizes`, in which a frame of 16 bits or more keeps what `new` left. -/
def daxSizes (env : Environment) (output : Output) (frame : Nat) : Nat :=
  if output.daxFrameLength frame < 2 ^ 16 then
    output.daxFrameLength frame
  else
    decodeTable 2 env.newSizes frame

/-- `WriteDAXIndex`: a frame that is too long is reported, and the table is
written nevertheless. -/
def writeDaxIndex (env : Environment) (output : Output) :
    Output × List OutputCall :=
  let frames := output.totalBlocks
  let oversized :=
    ((List.range frames).filter fun frame =>
      2 ^ 16 ≤ output.daxFrameLength frame).map fun _ =>
        OutputCall.finish false "Compressed sector larger than 16 bits"
  if output.noFile then
    let output := { output with stateIndexWritten := true }
    (output, oversized ++ output.checkFinish)
  else
    ({ output with
        indexWrites := output.indexWrites ++
          [{ data := output.daxHeader.encode ++
                tableBuffer 4 frames output.index ++
                tableBuffer 2 frames (output.daxSizes env)
             totalBytes := daxHeaderSize + frames * (4 + 2) }] },
      oversized)

/-- `Flush` -/
def flush (env : Environment) (output : Output) : Output × List OutputCall :=
  if ¬ output.stateIndexReady then
    (output, [.finish false "Flush called before index finalized"])
  else if output.decompressing then
    -- No header or index to write when decompressing.
    let output := { output with stateIndexWritten := true }
    (output, output.checkFinish)
  else
    match output.fmt with
    | .cso1 | .cso2 | .zso => output.writeCsoIndex
    | .dax => output.writeDaxIndex env

/-! ## Writing blocks -/

/-- The sectors pending directly after `nextPos`, at most `fuel` of them. -/
def gather (blockSize : Nat) :
    Nat → Int → List (Int × SectorId) →
      List SectorId × List (Int × SectorId) × Int
  | 0, nextPos, pending => ([], pending, nextPos)
  | fuel + 1, nextPos, pending =>
      match OrderedMap.find nextPos pending with
      | none => ([], pending, nextPos)
      | some id =>
          let rest :=
            gather blockSize fuel (nextPos + blockSize)
              (OrderedMap.erase nextPos pending)
          (id :: rest.1, rest.2)

/-- How much of a block is written: padding in the compressed file is
discarded. -/
def storedSize (output : Output) (dstPos : Int) (bestSize : Nat) : Nat :=
  if output.decompressing ∧ output.srcSize < dstPos + bestSize then
    toUint32 (output.srcSize - dstPos)
  else
    bestSize

/-- How the loop over the gathered sectors ends. -/
structure BatchLayout where
  output : Output
  dstPos : Int
  data : Bytes
  failure : Option String

/-- The loop that records each sector in the index and appends its buffer and
its padding. -/
def layoutSectors (output : Output) (dstPos : Int) :
    List SectorId → BatchLayout
  | [] => ⟨output, dstPos, [], none⟩
  | id :: rest =>
      let sector := output.sectors id
      match output.updateIndex sector.pos dstPos sector.bestFmt with
      | (output, some reason) => ⟨output, dstPos, [], some reason⟩
      | (output, none) =>
          let size := output.storedSize dstPos sector.bestSize
          if size = 0 then
            layoutSectors output dstPos rest
          else
            let stop := dstPos + size
            let aligned := output.align stop
            let tail := layoutSectors output aligned rest
            { tail with
              data := sector.bestBytes size ++
                List.replicate (aligned - stop).toNat 0 ++ tail.data }

def releaseSectors (output : Output) (pool : BufferPool) :
    List SectorId → Output × BufferPool
  | [] => (output, pool)
  | id :: rest =>
      let (sector, pool) := (output.sectors id).release pool
      releaseSectors
        { output with
          sectors := Function.update output.sectors id sector
          freeSectors := output.freeSectors ++ [id] }
        pool rest

/-- `HandleWrittenSectors` up to and including the call of `progress_`. -/
def handleWrittenSectors (output : Output) (pool : BufferPool)
    (success : Bool) (sectors : List SectorId) (nextPos totalWrite : Int) :
    OutputResult :=
  let (output, pool) := output.releaseSectors pool sectors
  if ¬ success then
    ⟨output, pool, []⟩
  else
    let output :=
      { output with
        srcPos := nextPos
        dstPos := output.dstPos + totalWrite }
    ⟨output, pool,
      [.progress output.srcPos output.srcSize output.dstPos,
        .afterProgress nextPos]⟩

/-- `HandleReadySector` from the sector whose turn it is. -/
def writeFrom (env : Environment) (output : Output) (pool : BufferPool)
    (id : SectorId) : OutputResult :=
  let (more, pending, nextPos) :=
    gather output.blockSize (maxBufs - 1)
      (output.srcPos + output.blockSize) output.pendingSectors
  let sectors := id :: more
  let layout :=
    layoutSectors { output with pendingSectors := pending }
      output.dstPos sectors
  match layout.failure with
  | some reason => ⟨layout.output, pool, [.finish false reason]⟩
  | none =>
      let (output, flushed) :=
        if layout.output.srcSize ≤ nextPos then
          let entry := layout.output.totalBlocks
          let word := toUint32 (layout.dstPos / 2 ^ layout.output.indexShift)
          flush env
            { layout.output with
              index := Function.update layout.output.index entry word
              stateIndexReady := true }
        else
          (layout.output, [])
      let totalWrite := layout.dstPos - output.dstPos
      if output.noFile then
        let result :=
          output.handleWrittenSectors pool true sectors nextPos totalWrite
        { result with calls := flushed ++ result.calls }
      else if layout.data = [] then
        -- uv_fs_write refuses an empty list of buffers.
        ⟨output, pool, flushed⟩
      else
        ⟨{ output with
            dataWrites := output.dataWrites ++
              [{ sectors := sectors
                 nextPos := nextPos
                 totalWrite := totalWrite
                 offset := output.dstPos
                 data := layout.data }] },
          pool, flushed⟩

/-- `HandleReadySector`; without a sector it looks at the first one queued. -/
def handleReadySector (env : Environment) (output : Output)
    (pool : BufferPool) (sector : Option SectorId) : OutputResult :=
  match sector with
  | some id =>
      let pos := (output.sectors id).pos
      if output.srcPos ≠ pos then
        -- We're not there yet in the file stream.
        ⟨{ output with
            pendingSectors :=
              OrderedMap.insert pos id output.pendingSectors },
          pool, []⟩
      else
        output.writeFrom env pool id
  | none =>
      match output.pendingSectors with
      | [] => ⟨output, pool, []⟩
      | (_, id) :: rest =>
          if output.srcPos ≠ (output.sectors id).pos then
            ⟨output, pool, []⟩
          else
            { output with pendingSectors := rest }.writeFrom env pool id

/-- `HandleWrittenSectors` after `progress_` has returned. -/
def afterProgress (env : Environment) (output : Output) (pool : BufferPool)
    (nextPos : Int) : OutputResult :=
  if output.srcSize ≤ nextPos then
    let output := { output with stateDataWritten := true }
    ⟨output, pool, output.checkFinish⟩
  else
    output.handleReadySector env pool none

/-- The callback of the data write; `result` is `req->result`. -/
def onDataWritten (output : Output) (pool : BufferPool)
    (write : DataWrite) (result : Int) : OutputResult :=
  let success := result = write.totalWrite
  let handled :=
    output.handleWrittenSectors pool success write.sectors
      write.nextPos write.totalWrite
  if success then
    handled
  else
    { handled with
      calls := handled.calls ++
        [.finish false "Data could not be written to output file"] }

/-- The callback of the header and index write. -/
def onIndexWritten (output : Output) (pool : BufferPool)
    (write : IndexWrite) (result : Int) : OutputResult :=
  if result ≠ write.totalBytes then
    ⟨output, pool, [.finish false "Unable to write header data"]⟩
  else
    let output := { output with stateIndexWritten := true }
    ⟨output, pool, output.checkFinish⟩

/-! ## Accepting sectors -/

def queueFull (output : Output) : Bool := output.freeSectors.isEmpty

/-- `freeSectors_.back()` and `pop_back()`. -/
def takeFree (output : Output) : Output × SectorId :=
  match output.freeSectors.getLast? with
  | some id =>
      ({ output with freeSectors := output.freeSectors.dropLast }, id)
  | none => ({ output with underflow := true }, 0)

/-- The sector that the block at `pos` is assembled in. -/
def sectorFor (output : Output) (block : Nat) : Output × SectorId :=
  if output.blockSize ≠ sectorSize then
    match OrderedMap.find block output.partialSectors with
    | some id => (output, id)
    | none =>
        let (output, id) := output.takeFree
        ({ output with
            partialSectors :=
              OrderedMap.insert block id output.partialSectors },
          id)
  else
    output.takeFree

/-- What follows a call of `Process` on a sector. -/
def afterProcess (output : Output) (id : SectorId) (block : Nat)
    (processed : Sector × BufferPool × Sector.ProcessOutcome) :
    OutputResult :=
  let output :=
    { output with
      sectors := Function.update output.sectors id processed.1 }
  match processed.2.2 with
  | .waiting => ⟨output, processed.2.1, []⟩
  | .queued =>
      ⟨{ output with jobs := output.jobs ++ [⟨id, block⟩] },
        processed.2.1, []⟩
  | .ready => ⟨output, processed.2.1, [.sectorReady id block]⟩
  | .failed reason => ⟨output, processed.2.1, [.finish false reason]⟩

/-- `Enqueue` -/
def enqueue (env : Environment) (output : Output) (pool : BufferPool)
    (pos : Int) (buffer : Buffer) : OutputResult :=
  let block := toUint32 (pos / 2 ^ output.blockShift)
  let (output, id) := output.sectorFor block
  let sector :=
    if output.decompressing then
      (output.sectors id).disableCompress
    else
      output.sectors id
  let result :=
    output.afterProcess id block (sector.process env pool pos buffer)
  if output.blockSize ≠ sectorSize ∧ output.srcSize ≤ pos + sectorSize then
    -- Our src may not be aligned to the blockSize_, so this sector might
    -- never wake up.
    { result with calls := result.calls ++ [.pad id block output.srcSize] }
  else
    result

/-- One round of the loop that sends in padding. -/
def pad (env : Environment) (output : Output) (pool : BufferPool)
    (id : SectorId) (block : Nat) (padPos : Int) : OutputResult :=
  let paddedSize :=
    output.srcSizeAligned - output.srcSizeAligned % output.blockSize
  if padPos < paddedSize then
    let (padBuffer, pool) := pool.alloc env.heap
    let padBuffer :=
      { padBuffer with
        memory :=
          FlatMemory.write padBuffer.memory 0
            (List.replicate sectorSize 0) }
    let result :=
      output.afterProcess id block
        ((output.sectors id).process env pool padPos padBuffer)
    { result with
      calls := result.calls ++ [.pad id block (padPos + sectorSize)] }
  else
    ⟨output, pool, []⟩

/-- The callback that `Enqueue` gives to `Process`, with status true. -/
def sectorReady (env : Environment) (output : Output) (pool : BufferPool)
    (id : SectorId) (block : Nat) : OutputResult :=
  let output :=
    if output.blockSize ≠ sectorSize then
      -- Not in progress anymore.
      { output with
        partialSectors := OrderedMap.erase block output.partialSectors }
    else
      output
  output.handleReadySector env pool (some id)

/-- The callback of the queued compression. -/
def onCompressed (env : Environment) (output : Output) (pool : BufferPool)
    (job : CompressJob) (status : Int) : OutputResult :=
  if status < 0 then
    ⟨output, pool, [.finish false "Failed to compress sector"]⟩
  else
    let (sector, pool) := (output.sectors job.sector).compressWork env pool
    ⟨{ output with
        sectors := Function.update output.sectors job.sector sector },
      pool, [.sectorReady job.sector job.block]⟩

end Output

end Maxcso
