import Maxcso.Library.FileBytes
import Maxcso.Library.Transition
import Maxcso.Output.Positions

/-!
# Runs of the writer

The writer with its owner.  The source passes the sectors of the image on in
increasing order.  The owner looks at `QueueFull` after each of them, pauses
the source when the queue is full or an error is reported, and resumes it from
the progress callback.  A source that is not paused goes on to its next
sector, which then arrives whether or not the source has been paused since.  A
resumed source may pass on sectors at once, before the function that reported
progress goes on.
-/

namespace Maxcso

/-- What the code that is running still has to do. -/
inductive WriterCall where
  | output (call : OutputCall)
  /-- The owner's look at `QueueFull` after a call of `Enqueue`. -/
  | checkQueue

/-- What the file and the owner have seen. -/
inductive WriterNote where
  | wroteData (offset : Int) (data : Bytes)
  | wroteIndex (data : Bytes)
  | progressed (pos total written : Int)
  /-- `finish_` was called when `Written()` had this value. -/
  | finished (success : Bool) (reason : String) (written : Int)
  deriving DecidableEq, Repr

structure Writer where
  output : Output
  pool : BufferPool
  calls : List WriterCall
  /-- The source of the sectors is paused. -/
  paused : Bool
  /-- The source has gone on to its next sector. -/
  fetching : Bool
  /-- The position of the sector that the source passes on next. -/
  nextPos : Nat
  file : Bytes
  notes : List WriterNote

inductive WriterEvent where
  /-- The source goes on to its next sector. -/
  | fetch
  /-- The source passes on the sector. -/
  | enqueue (buffer : Buffer)
  /-- Run the next call. -/
  | run
  /-- The event loop delivers a completion. -/
  | compressed (position : Nat) (status : Int)
  | dataWritten (position : Nat) (result : Int)
  | indexWritten (position : Nat) (result : Int)
  /-- Another holder of the pool has used it. -/
  | otherPool (pool : BufferPool)

namespace Writer

def start (env : Environment) (config : WriterConfig) (pool : BufferPool) :
    Writer where
  output := config.base env
  pool := pool
  calls := (config.opened env).2.map .output
  paused := false
  fetching := false
  nextPos := 0
  file := []
  notes := []

/-- Continue with the result of a function of `Output`. -/
def continueWith (writer : Writer) (result : OutputResult)
    (rest : List WriterCall) : Writer :=
  { writer with
    output := result.output
    pool := result.pool
    calls := result.calls.map .output ++ rest }

def isCheckQueue : WriterCall → Bool
  | .checkQueue => true
  | .output _ => false

/-- The source runs between two events of the loop, or when it has been
resumed by the progress callback. -/
def resumable : List WriterCall → Bool
  | [] => true
  | .output (.afterProgress _) :: rest => !rest.any isCheckQueue
  | _ => false

/-- The owner's callback for a sector of the source. -/
def enqueue (env : Environment) (writer : Writer) (buffer : Buffer) :
    Writer :=
  { writer.continueWith
      (writer.output.enqueue env writer.pool writer.nextPos buffer)
      (.checkQueue :: writer.calls) with
    fetching := false
    nextPos := writer.nextPos + sectorSize }

def runCall (env : Environment) (writer : Writer) (call : WriterCall)
    (rest : List WriterCall) : Writer :=
  match call with
  | .checkQueue =>
      { writer with
        calls := rest
        paused := writer.paused || writer.output.queueFull }
  | .output (.pad sector block padPos) =>
      writer.continueWith
        (writer.output.pad env writer.pool sector block padPos) rest
  | .output (.sectorReady sector block) =>
      writer.continueWith
        (writer.output.sectorReady env writer.pool sector block) rest
  | .output (.progress pos total written) =>
      { writer with
        calls := rest
        paused := false
        notes := writer.notes ++ [.progressed pos total written] }
  | .output (.afterProgress nextPos) =>
      writer.continueWith
        (writer.output.afterProgress env writer.pool nextPos) rest
  | .output (.finish success reason) =>
      { writer with
        calls := rest
        paused := writer.paused || !success
        notes := writer.notes ++
          [.finished success reason writer.output.dstPos] }

/-- The part of a request that a result says was written. -/
def writtenPart (data : Bytes) (result : Int) : Bytes :=
  data.take result.toNat

def step (env : Environment) (writer : Writer) :
    WriterEvent → Option Writer
  | .fetch =>
      if writer.fetching = false ∧ writer.paused = false ∧
          resumable writer.calls = true ∧
          (writer.nextPos : Int) < writer.output.srcSize then
        some { writer with fetching := true }
      else
        none
  | .enqueue buffer =>
      if writer.fetching = true ∧ resumable writer.calls = true then
        some (writer.enqueue env buffer)
      else
        none
  | .run =>
      match writer.calls with
      | [] => none
      | call :: rest => some (writer.runCall env call rest)
  | .compressed position status =>
      match writer.calls, writer.output.jobs[position]? with
      | [], some job =>
          let taken :=
            { writer.output with
              jobs := writer.output.jobs.eraseIdx position }
          some (writer.continueWith
            (taken.onCompressed env writer.pool job status) [])
      | _, _ => none
  | .dataWritten position result =>
      match writer.calls, writer.output.dataWrites[position]? with
      | [], some write =>
          let taken :=
            { writer.output with
              dataWrites := writer.output.dataWrites.eraseIdx position }
          let data := writtenPart write.data result
          some
            { writer.continueWith
                (taken.onDataWritten writer.pool write result) [] with
              file :=
                FileBytes.pwrite 0 writer.file write.offset.toNat data
              notes := writer.notes ++ [.wroteData write.offset data] }
      | _, _ => none
  | .indexWritten position result =>
      match writer.calls, writer.output.indexWrites[position]? with
      | [], some write =>
          let taken :=
            { writer.output with
              indexWrites := writer.output.indexWrites.eraseIdx position }
          let data := writtenPart write.data result
          some
            { writer.continueWith
                (taken.onIndexWritten writer.pool write result) [] with
              file := FileBytes.pwrite 0 writer.file 0 data
              notes := writer.notes ++ [.wroteIndex data] }
      | _, _ => none
  | .otherPool pool => some { writer with pool := pool }

/-- The results that completions may have. -/
structure Completions where
  compressed : Int → Prop
  dataWritten : DataWrite → Int → Prop
  indexWritten : IndexWrite → Int → Prop

/-- Anything may fail, and writes may be short. -/
def Completions.any : Completions :=
  ⟨fun _ => True, fun _ _ => True, fun _ _ => True⟩

/-- Everything succeeds, and what was asked for is written. -/
def Completions.full : Completions :=
  ⟨fun status => 0 ≤ status, fun write result => result = write.data.length,
    fun write result => result = write.data.length⟩

/-- The source passes on the sectors of the image, completions have the
results that they may have, and other holders of the pool leave buffers that
a block fits into. -/
def Allowed (config : WriterConfig) (image : Bytes) (may : Completions)
    (writer : Writer) : WriterEvent → Prop
  | .enqueue buffer => FlatMemory.read buffer.memory 0 sectorSize =
      FileBytes.pread image writer.nextPos sectorSize
  | .compressed _ status => may.compressed status
  | .dataWritten position result => ∀ write,
      writer.output.dataWrites[position]? = some write →
        may.dataWritten write result
  | .indexWritten position result => ∀ write,
      writer.output.indexWrites[position]? = some write →
        may.indexWritten write result
  | .otherPool pool => config.blockSize ≤ pool.bufferSize
  | _ => True

/-- Nothing is running or outstanding, and the source will pass on no more
sectors. -/
structure Done (writer : Writer) : Prop where
  calls : writer.calls = []
  jobs : writer.output.jobs = []
  dataWrites : writer.output.dataWrites = []
  indexWrites : writer.output.indexWrites = []
  fetching : writer.fetching = false
  source : writer.paused = true ∨
    writer.output.srcSize ≤ (writer.nextPos : Int)

end Writer

end Maxcso
