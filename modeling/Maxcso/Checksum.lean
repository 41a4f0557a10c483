import Maxcso.BufferPool
import Maxcso.Environment
import Maxcso.Library.FlatMemory
import Maxcso.Library.OrderedMap

/-!
# Checksums

`checksum.cpp`: the task of `--crc` reads a whole image and reports its
CRC-32.  The sectors that arrive too early wait in a map.
-/

namespace Maxcso

/-- `crc32` of zlib: the value that it starts from, which it returns for a null
buffer, and what more bytes make of a value. -/
structure Crc32 where
  start : Nat
  update : Nat → Bytes → Nat

/-- What the task reports; a result is reported as an error with the status of
a success. -/
inductive ChecksumNote where
  | inProgress (pos total written : Int)
  | success (reason : String)
  | invalidData (reason : String)
  deriving DecidableEq, Repr

structure ChecksumTask where
  pos : Int
  size : Int
  crc : Nat
  pendingBuffers : List (Int × Buffer)
  notes : List ChecksumNote

namespace ChecksumTask

/-- `sprintf` with `%08x`. -/
def hexadecimal (value : Nat) : String :=
  let digits := Nat.toDigits 16 value
  String.ofList (List.replicate (8 - digits.length) '0' ++ digits)

/-- `BeginProcessing`; `size_` and `crc_` are set before they are read. -/
def beginProcessing : ChecksumTask where
  pos := 0
  size := 0
  crc := 0
  pendingBuffers := []
  notes := []

def notify (task : ChecksumTask) (note : ChecksumNote) : ChecksumTask :=
  { task with notes := task.notes ++ [note] }

/-- The callback of `OnBegin`. -/
def onBegin (crc32 : Crc32) (task : ChecksumTask) (size : Int) :
    ChecksumTask :=
  { task with crc := crc32.start, size := size }.notify
    (.inProgress 0 size 0)

/-- The callback of `OnFinish`. -/
def onFinish (task : ChecksumTask) (success : Bool) (reason : String) :
    ChecksumTask :=
  if success then task else task.notify (.invalidData reason)

/-- A buffer is folded in and released. -/
def fold (crc32 : Crc32) (task : ChecksumTask) (pool : BufferPool)
    (buffer : Buffer) : ChecksumTask × BufferPool :=
  ({ task with
      crc := crc32.update task.crc (FlatMemory.read buffer.memory 0 sectorSize)
      pos := task.pos + sectorSize },
    pool.release buffer)

/-- The loop over the pending buffers, which ends with those it used
erased. -/
def flushPending (crc32 : Crc32) :
    List (Int × Buffer) → ChecksumTask → BufferPool →
      ChecksumTask × BufferPool
  | [], task, pool => ({ task with pendingBuffers := [] }, pool)
  | (pos, buffer) :: pending, task, pool =>
      if pos ≠ task.pos then
        ({ task with pendingBuffers := (pos, buffer) :: pending }, pool)
      else
        let (task, pool) := task.fold crc32 pool buffer
        flushPending crc32 pending task pool

/-- `HandleBuffer` -/
def handleBuffer (crc32 : Crc32) (task : ChecksumTask) (pool : BufferPool)
    (buffer : Buffer) : ChecksumTask × BufferPool :=
  let (task, pool) := task.fold crc32 pool buffer
  -- Flush any in the queue that we can now use.
  let (task, pool) := flushPending crc32 task.pendingBuffers task pool
  let task := task.notify (.inProgress task.pos task.size 0)
  if task.pos = task.size then
    (task.notify (.success ("CRC32: " ++ hexadecimal task.crc)), pool)
  else
    (task, pool)

/-- The callback of `Pipe`. -/
def receive (crc32 : Crc32) (task : ChecksumTask) (pool : BufferPool)
    (pos : Int) (buffer : Buffer) : ChecksumTask × BufferPool :=
  -- In case we allow the buffers to come out of order, let's use a queue.
  if task.pos = pos then
    task.handleBuffer crc32 pool buffer
  else
    ({ task with
        pendingBuffers :=
          OrderedMap.insert pos buffer task.pendingBuffers },
      pool)

/-- `Cleanup` -/
def cleanup (task : ChecksumTask) (pool : BufferPool) :
    ChecksumTask × BufferPool :=
  ({ task with pendingBuffers := [] },
    task.pendingBuffers.foldl (fun pool entry => pool.release entry.2) pool)

/-- All sectors that arrive, in the order in which they do. -/
def receiveAll (crc32 : Crc32) (task : ChecksumTask) (pool : BufferPool)
    (arrivals : List (Int × Buffer)) : ChecksumTask × BufferPool :=
  arrivals.foldl
    (fun state arrival => state.1.receive crc32 state.2 arrival.1 arrival.2)
    (task, pool)

end ChecksumTask

end Maxcso
