import Maxcso.Reader

/-!
# One thread of control in the reader

The reader never has more than one thing to do: it waits for one outstanding
request, is parked by a pause, has stopped, or runs one activation of
`ReadSector` or of the delivery loop.  `Phase` names these situations, and
`Move` lists what every event does in each of them.
-/

namespace Maxcso

open Transition

/-- What the reader is doing. -/
inductive Phase where
  | waiting (request : InputRequest)
  | parked
  | stopped
  | reading
  | rawCallback (pos : Int) (sector : Buffer) (supplied : Nat)
  | rawDelivered
  | looping (block : SubBlock)
  | subCallback (pos : Int) (sector : Buffer) (supplied : Nat)
      (block : SubBlock)
  | subDelivered (block : SubBlock)
  | beginning (size : Int)
  | finishing (success : Bool) (reason : String)

namespace Phase

def calls : Phase → List InputCall
  | waiting _ | parked | stopped => []
  | reading => [.readSector]
  | rawCallback pos sector supplied =>
      [.callback pos sector supplied, .rawDelivered]
  | rawDelivered => [.rawDelivered]
  | looping block => [.subBlock block]
  | subCallback pos sector supplied block =>
      [.callback pos sector supplied, .subDelivered block]
  | subDelivered block => [.subDelivered block]
  | beginning size => [.begin size, .readSector]
  | finishing success reason => [.finish success reason]

def requests : Phase → List InputRequest
  | waiting request => [request]
  | _ => []

def isParked : Phase → Bool
  | parked => true
  | _ => false

/-- The phases that are entered only after the format has been detected. -/
def knowsFormat : Phase → Bool
  | waiting (.readHeader _) | stopped | finishing _ _ => false
  | _ => true

end Phase

namespace InputRequest

/-- The requests made while the format is detected. -/
def detects : InputRequest → Bool
  | readHeader _ | readIndex _ | readTables .. | stat => true
  | readBlock .. | decompress .. => false

end InputRequest

/-- The phase that a result of `Input.complete` leads to. -/
def InputResult.phase (result : InputResult) : Phase :=
  match result.calls, result.input.inFlight with
  | .finish success reason :: _, _ => .finishing success reason
  | .begin size :: _, _ => .beginning size
  | _, request :: _ => .waiting request
  | _, [] => .stopped

namespace Reader

/-- The reader in a phase; the phase fixes the calls, the outstanding
requests and `resumeShouldRead_`. -/
def enter (core : Reader) (phase : Phase) : Reader :=
  { core with
    calls := phase.calls
    input :=
      { core.input with
        inFlight := phase.requests
        resumeShouldRead := phase.isParked } }

def decision (core : Reader) (policy : Input.FetchPolicy) :
    Input.FetchDecision :=
  policy (core.enter .reading).input core.input.request

/-- The completion of a request made while the format is detected. -/
def detected (env : Environment) (core : Reader) (request : InputRequest) :
    InputResult :=
  { core.input with inFlight := [], resumeShouldRead := false }.complete env
    core.pool request

/-- The reader after data has been used. -/
def afterUse (env : Environment) (core : Reader) (request : Request)
    (data : Bytes) : Reader :=
  { core with
    input :=
      { core.input with
        fetches := core.input.fetches ++ [⟨request, data⟩] }
    pool := (core.pool.alloc env.heap).2 }

/-- The phase after data has been used. -/
def usePhase (env : Environment) (core : Reader) (request : Request)
    (data : Bytes) : Phase :=
  let buffer := (core.pool.alloc env.heap).1
  if request.raw then
    .rawCallback core.input.pos
      { buffer with memory := FlatMemory.write buffer.memory 0 data }
      data.length
  else
    .waiting
      (.decompress buffer data request.offset request.compressedLz4)

/-- The reader after a block read that put `data` into the cache. -/
def afterRead (core : Reader) (data : Bytes) : Reader :=
  { core with
    input :=
      { core.input with
        reads := core.input.reads + 1
        cache := FlatMemory.write core.input.cache 0 data
        cacheFills := core.input.cacheFills + 1 } }

/-- The reader after the callback of a decompression. -/
def afterWork (core : Reader) (pool : BufferPool) : Reader :=
  { core with
    input := { core.input with works := core.input.works + 1 }
    pool := pool }

/-- The reader after a sector has been passed on. -/
def deliver (core : Reader) (pos : Int) (sector : Buffer)
    (supplied : Nat) : Reader :=
  { core with
    delivered := core.delivered ++
      [⟨pos, FlatMemory.read sector.memory 0 sectorSize, supplied⟩] }

/-- The reader after `pos_ += SECTOR_SIZE`. -/
def advance (core : Reader) : Reader :=
  { core with
    input := { core.input with pos := core.input.pos + sectorSize } }

/-- The buffer that a sector of a block is passed on in. -/
def subBuffer (env : Environment) (core : Reader) (block : SubBlock) :
    Buffer × BufferPool :=
  if block.last then (block.actualBuf, core.pool)
  else core.pool.alloc env.heap

end Reader

/-- What every event does in each phase. -/
inductive Move (policy : Input.FetchPolicy) (env : Environment) :
    Reader → Phase → ReaderEvent → Reader → Phase → Prop
  | pause (core : Reader) (phase : Phase) :
      Move policy env core phase .pause
        { core with input := { core.input with paused := true } } phase
  | resume (core : Reader) (phase : Phase) :
      phase.isParked = false →
      Move policy env core phase .resume
        { core with input := { core.input with paused := false } } phase
  | unpark (core : Reader) :
      Move policy env core .parked .resume
        { core with input := { core.input with paused := false } } .reading
  | otherPool (core : Reader) (phase : Phase) (pool : BufferPool) :
      Move policy env core phase (.otherPool pool)
        { core with pool := pool } phase
  | detect (core : Reader) (request : InputRequest) :
      request.detects = true →
      Move policy env core (.waiting request) (.complete 0)
        { core with
          input := (core.detected env request).input
          pool := (core.detected env request).pool }
        (core.detected env request).phase
  | begin (core : Reader) (size : Int) :
      Move policy env core (.beginning size) .run
        { core with begun := core.begun ++ [size] } .reading
  | finish (core : Reader) (success : Bool) (reason : String) :
      Move policy env core (.finishing success reason) .run
        { core with finished := core.finished ++ [(success, reason)] }
        .stopped
  | atEnd (core : Reader) :
      core.input.size ≤ core.input.pos →
      Move policy env core .reading .run core (.finishing true "")
  | park (core : Reader) :
      core.input.pos < core.input.size →
      core.input.paused = true →
      Move policy env core .reading .run core .parked
  | use (core : Reader) (data : Bytes) :
      core.input.pos < core.input.size →
      core.input.paused = false →
      core.decision policy = .use data →
      Move policy env core .reading .run
        (core.afterUse env core.input.request data)
        (core.usePhase env core.input.request data)
  | ask (core : Reader) (cachePos : Int) (size : Nat) :
      core.input.pos < core.input.size →
      core.input.paused = false →
      core.decision policy = .read cachePos size →
      Move policy env core .reading .run
        { core with input := { core.input with cachePos := cachePos } }
        (.waiting (.readBlock core.input.request size))
  | blockMissing (core : Reader) (request : Request) (size : Nat) :
      env.fsRead core.input.reads request.pos size = none →
      Move policy env core (.waiting (.readBlock request size)) (.complete 0)
        { core with
          input := { core.input with reads := core.input.reads + 1 } }
        (.finishing false "Unable to read entire sector")
  | blockShort (core : Reader) (request : Request) (size : Nat)
      (data : Bytes) :
      env.fsRead core.input.reads request.pos size = some data →
      data.length < request.len →
      Move policy env core (.waiting (.readBlock request size)) (.complete 0)
        (core.afterRead data)
        (.finishing false "Unable to read entire sector")
  | blockRead (core : Reader) (request : Request) (size : Nat)
      (data : Bytes) :
      env.fsRead core.input.reads request.pos size = some data →
      request.len ≤ data.length →
      Move policy env core (.waiting (.readBlock request size)) (.complete 0)
        ((core.afterRead data).afterUse env request (data.take request.len))
        ((core.afterRead data).usePhase env request (data.take request.len))
  | workFailed (core : Reader) (actualBuf : Buffer) (source : Bytes)
      (offset : Nat) (isLz4 : Bool) (message : String) :
      core.input.decompressWork env core.pool source isLz4 =
        .error message →
      Move policy env core
        (.waiting (.decompress actualBuf source offset isLz4)) (.complete 0)
        (core.afterWork (core.pool.release actualBuf))
        (.finishing false
          (if message = "" then "Unknown error" else message))
  | workRejected (core : Reader) (actualBuf : Buffer) (source : Bytes)
      (offset : Nat) (isLz4 : Bool) (data : Bytes) (reason : String) :
      core.input.decompressWork env core.pool source isLz4 = .ok data →
      core.input.rejection env data = some reason →
      Move policy env core
        (.waiting (.decompress actualBuf source offset isLz4)) (.complete 0)
        (core.afterWork (core.pool.release actualBuf))
        (.finishing false reason)
  | decompressed (core : Reader) (actualBuf : Buffer) (source : Bytes)
      (offset : Nat) (isLz4 : Bool) (data : Bytes) :
      core.input.decompressWork env core.pool source isLz4 = .ok data →
      core.input.rejection env data = none →
      Move policy env core
        (.waiting (.decompress actualBuf source offset isLz4)) (.complete 0)
        (core.afterWork core.pool)
        (.looping
          { actualBuf :=
              { actualBuf with
                memory := FlatMemory.write actualBuf.memory 0 data }
            suboffset := offset
            resultSize := core.input.trimmedSize offset data.length
            supplied := data.length })
  | rawCallback (core : Reader) (pos : Int) (sector : Buffer)
      (supplied : Nat) :
      Move policy env core (.rawCallback pos sector supplied) .run
        (core.deliver pos sector supplied) .rawDelivered
  | rawDelivered (core : Reader) :
      Move policy env core .rawDelivered .run core.advance .reading
  | subBlock (core : Reader) (block : SubBlock) :
      block.suboffset < block.resultSize →
      Move policy env core (.looping block) .run
        { core with pool := (core.subBuffer env block).2 }
        (.subCallback core.input.pos
          { (core.subBuffer env block).1 with
            memory :=
              FlatMemory.write (core.subBuffer env block).1.memory 0
                (FlatMemory.read block.actualBuf.memory block.suboffset
                  sectorSize) }
          (block.supplied - block.suboffset) block)
  | loopDone (core : Reader) (block : SubBlock) :
      block.resultSize ≤ block.suboffset →
      Move policy env core (.looping block) .run core .reading
  | subCallback (core : Reader) (pos : Int) (sector : Buffer)
      (supplied : Nat) (block : SubBlock) :
      Move policy env core (.subCallback pos sector supplied block) .run
        (core.deliver pos sector supplied) (.subDelivered block)
  | bail (core : Reader) (block : SubBlock) :
      core.input.paused = true →
      block.last = false →
      Move policy env core (.subDelivered block) .run
        { core.advance with pool := core.pool.release block.actualBuf }
        .reading
  | nextSub (core : Reader) (block : SubBlock) :
      ¬ (core.input.paused = true ∧ block.last = false) →
      Move policy env core (.subDelivered block) .run core.advance
        (.looping { block with suboffset := block.suboffset + sectorSize })

end Maxcso
