import Maxcso.BufferPool
import Maxcso.Environment

/-!
# Sectors

`sector.h` and `sector.cpp`: one `Sector` object assembles a block from the
2048-byte sectors it is given, runs the compressors over it and keeps the best
result.
-/

namespace Maxcso

structure Sector where
  flags : Nat
  align : Nat
  origMaxCost : Nat
  lz4MaxCost : Nat
  busy : Bool
  enqueued : Bool
  compress : Bool
  blockSize : Nat
  readySize : Nat
  pos : Int
  buffer : Option Buffer
  best : Option Buffer
  bestSize : Nat
  bestFmt : SectorFormat

namespace Sector

/-- A sector as the constructor leaves it.  `align_`, `blockSize_`, `pos_` and
the best size and format are set before they are read. -/
def create (flags : Nat) : Sector where
  flags := flags
  align := 0
  origMaxCost := 0
  lz4MaxCost := 0
  busy := false
  enqueued := false
  compress := true
  blockSize := 0
  readySize := 0
  pos := 0
  buffer := none
  best := none
  bestSize := 0
  bestFmt := .orig

def setup (sector : Sector)
    (blockSize align origMaxCost lz4MaxCost : Nat) : Sector :=
  { sector with
    blockSize := blockSize
    align := align
    origMaxCost := origMaxCost
    lz4MaxCost := lz4MaxCost }

def disableCompress (sector : Sector) : Sector :=
  { sector with compress := false }

/-- The bytes of `BestBuffer()` up to a size. -/
def bestBytes (sector : Sector) (size : Nat) : Bytes :=
  match sector.best, sector.buffer with
  | some best, _ => FlatMemory.read best.memory 0 size
  | none, some buffer => FlatMemory.read buffer.memory 0 size
  | none, none => []

def alignedBestSize (sector : Sector) (align : Nat) : Nat :=
  if sector.bestSize % align ≠ 0 then
    (sector.bestSize + align - sector.bestSize % align) % 2 ^ 32
  else
    sector.bestSize

/-! ## Compression -/

/-- Whether `SubmitTrial` prefers a result of this size and format over the
current best. -/
def better (sector : Sector) (size : Nat) (format : SectorFormat) : Bool :=
  let smaller := (size + sector.origMaxCost) % 2 ^ 32 < sector.bestSize
  match format, sector.bestFmt with
  | .lz4, .deflate =>
      -- Allow lz4 to make it larger by a max cost.
      size ≤ (sector.bestSize + sector.lz4MaxCost) % 2 ^ 32
  | .deflate, .lz4 => (size + sector.lz4MaxCost) % 2 ^ 32 < sector.bestSize
  | _, .orig => smaller || hasFlag sector.flags taskflagFmtDax
  | _, _ => smaller

/-- `SubmitTrial`: takes ownership of `result` and releases the loser. -/
def submitTrial (sector : Sector) (pool : BufferPool)
    (result : Buffer) (size : Nat) (format : SectorFormat) :
    Sector × BufferPool :=
  if sector.better size format then
    let pool :=
      match sector.best with
      | some best => pool.release best
      | none => pool
    ({ sector with
        bestSize := size
        best := some result
        bestFmt := format },
      pool)
  else
    (sector, pool.release result)

/-- One method of `Compress`: a pool buffer receives the compressed bytes and
is submitted. -/
def runTrial (heap : Nat → Nat → UInt8)
    (state : Sector × BufferPool) (trial : Trial) : Sector × BufferPool :=
  let (result, pool) := state.2.alloc heap
  let result :=
    { result with memory := FlatMemory.write result.memory 0 trial.data }
  state.1.submitTrial pool result trial.data.length trial.format

/-- `Compress`, given the results that its methods submit. -/
def compressWith (heap : Nat → Nat → UInt8)
    (sector : Sector) (pool : BufferPool) (trials : List Trial) :
    Sector × BufferPool :=
  trials.foldl (runTrial heap) (sector, pool)

def finalizeBest (sector : Sector) (pool : BufferPool) (align : Nat) :
    Sector × BufferPool :=
  match sector.best with
  | none => (sector, pool)
  | some best =>
      if sector.blockSize ≤ sector.alignedBestSize align ∧
          ¬ hasFlag sector.flags taskflagFmtDax then
        ({ sector with
            best := none
            bestSize := sector.blockSize
            bestFmt := .orig },
          pool.release best)
      else
        (sector, pool)

/-- The bytes of the assembled block that the compressors look at. -/
def blockBytes (sector : Sector) : Bytes :=
  match sector.buffer with
  | some buffer => FlatMemory.read buffer.memory 0 sector.blockSize
  | none => []

/-- The work queued by `Process`: `Compress(); FinalizeBest(align_);`. -/
def compressWork (env : Environment) (sector : Sector) (pool : BufferPool) :
    Sector × BufferPool :=
  let compressed :=
    sector.compressWith env.heap pool
      (env.trials sector.pos sector.blockBytes)
  compressed.1.finalizeBest compressed.2 sector.align

/-! ## Assembly -/

/-- What a call of `Process` ends in. -/
inductive ProcessOutcome where
  | waiting
  | queued
  | ready
  | failed (reason : String)
  deriving DecidableEq, Repr

/-- `Process`: the first call after a release takes the block's position from
its sector, later ones copy their sector into place. -/
def process (env : Environment) (sector : Sector) (pool : BufferPool)
    (pos : Int) (buffer : Buffer) :
    Sector × BufferPool × ProcessOutcome :=
  if ¬ sector.busy then
    let start : Int := pos - pos % sector.blockSize
    let sector :=
      { sector with
        busy := true
        pos := start
        bestSize := sector.blockSize
        bestFmt := .orig }
    if sector.blockSize = sectorSize then
      accept { sector with buffer := some buffer } pool
    else
      let (assembly, pool) := pool.alloc env.heap
      accept { sector with buffer := some (copyInto assembly start) }
        (pool.release buffer)
  else if toUint64 (pos - sector.pos) < pool.bufferSize then
    accept
      { sector with
        buffer := sector.buffer.map fun block => copyInto block sector.pos }
      (pool.release buffer)
  else
    (sector, pool, .failed "Invalid buffer pos for this sector block")
where
  toUint64 (value : Int) : Nat := (value % 2 ^ 64).toNat
  /-- `memcpy(buffer_ + pos - pos_, buffer, SECTOR_SIZE)` -/
  copyInto (block : Buffer) (start : Int) : Buffer :=
    { block with
      memory :=
        FlatMemory.write block.memory (pos - start).toNat
          (FlatMemory.read buffer.memory 0 sectorSize) }
  accept (sector : Sector) (pool : BufferPool) :
      Sector × BufferPool × ProcessOutcome :=
    let sector :=
      { sector with readySize := sector.readySize + sectorSize }
    if sector.readySize < sector.blockSize then
      (sector, pool, .waiting)
    else if sector.enqueued then
      (sector, pool, .failed "Sector already waiting for queued operation")
    else if sector.compress then
      ({ sector with enqueued := true }, pool, .queued)
    else
      (sector, pool, .ready)

/-- `Release` -/
def release (sector : Sector) (pool : BufferPool) : Sector × BufferPool :=
  let pool :=
    match sector.best with
    | some best => pool.release best
    | none => pool
  let pool :=
    match sector.buffer with
    | some buffer => pool.release buffer
    | none => pool
  ({ sector with
      best := none
      buffer := none
      busy := false
      enqueued := false
      compress := true
      readySize := 0 },
    pool)

end Sector

end Maxcso
