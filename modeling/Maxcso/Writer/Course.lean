import Maxcso.Library.Pipeline
import Maxcso.Writer
import Maxcso.Writer.Archive

/-!
# The course of a run

The writer as a pipeline of blocks.  A block is taken up with its first
sector, filled, compressed, and written together with blocks that follow it.
What is written for a block does not depend on when that happens, so the
buffers and the containers of the writer are left out; the calls that are
still to be run, the writes in flight and what the owner sees are kept.
-/

namespace Maxcso

/-- What happens to a block. -/
inductive BlockStage where
  | filling
  | compressing
  /-- Its compression has failed. -/
  | failed
  /-- The callback of its sector is about to run. -/
  | ready
  | pending
  | writing
  /-- It has been taken off the pending ones and is not written. -/
  | lost
  deriving DecidableEq, Repr

abbrev BlockPipeline := Pipeline SectorId BlockStage

structure Course where
  pipeline : BlockPipeline
  /-- Where the next sector or the next padding goes. -/
  filled : Nat
  srcPos : Int
  dstPos : Int
  indexReady : Bool
  indexWritten : Bool
  dataWritten : Bool
  dataWrites : List DataWrite
  indexWrites : List IndexWrite
  calls : List WriterCall
  paused : Bool
  fetching : Bool
  nextPos : Nat
  file : Bytes
  notes : List WriterNote

namespace Archive

variable (archive : Archive)

/-- The first position after the padding. -/
def paddedSize : Nat := archive.blocks * archive.blockSize

/-- The stage of a block that has been filled up to a position. -/
def stageAt (filled : Nat) : BlockStage :=
  if filled % archive.blockSize ≠ 0 then .filling
  else if archive.decompressing then .ready
  else .compressing

/-- The write of the first blocks of a pipeline. -/
def batchWrite (pipeline : BlockPipeline) (count : Nat) : DataWrite where
  sectors := pipeline.owners.take count
  nextPos := ((pipeline.first + count) * archive.blockSize : Nat)
  totalWrite :=
    archive.pos (pipeline.first + count) - archive.pos pipeline.first
  offset := archive.pos pipeline.first
  data := archive.body pipeline.first count

/-- The header and the index are not written. -/
def immediate : Bool := archive.decompressing || archive.noFile

/-- What `WriteDAXIndex` reports about the frames. -/
def report : List WriterCall :=
  if archive.decompressing = false ∧ archive.fmt = .dax then
    archive.oversized.map .output
  else
    []

end Archive

namespace Course

def start (archive : Archive) : Course where
  pipeline := .empty .filling
  filled := 0
  srcPos := 0
  dstPos := archive.pos 0
  indexReady := false
  indexWritten := false
  dataWritten := false
  dataWrites := []
  indexWrites := []
  calls := []
  paused := false
  fetching := false
  nextPos := 0
  file := []
  notes := []

section

variable (archive : Archive) (course : Course)

def first : Nat := course.pipeline.first

def last : Nat := course.pipeline.last

/-- The block that the next sector belongs to. -/
def block : Nat := course.filled / archive.blockSize

def readyCall (id : SectorId) (block : Nat) : WriterCall :=
  .output (.sectorReady id (block % 2 ^ 32))

def padCall (id : SectorId) (block : Nat) (pos : Int) : WriterCall :=
  .output (.pad id (block % 2 ^ 32) pos)

/-- The sector object that the next sector goes to. -/
def Takes (id : SectorId) : Prop :=
  if course.filled % archive.blockSize = 0 then
    id ∉ course.pipeline.owners
  else
    course.pipeline.Holds id (course.block archive)

/-- One more sector has been put into its block. -/
def fill (id : SectorId) : Course :=
  let block := course.block archive
  let stage := archive.stageAt (course.filled + sectorSize)
  { course with
    pipeline :=
      (if course.filled % archive.blockSize = 0 then
        course.pipeline.claim id .filling
      else
        course.pipeline).setStage block stage
    filled := course.filled + sectorSize
    calls :=
      if stage = .ready then readyCall id block :: course.calls
      else course.calls }

/-- What `Enqueue` leaves to be done after the last sector. -/
def padCalls (id : SectorId) : List WriterCall :=
  if archive.blockSize ≠ sectorSize ∧
      archive.srcSize ≤ course.nextPos + sectorSize then
    [padCall id (course.block archive) archive.srcSize]
  else
    []

/-- The source passes on its next sector. -/
def arrive (id : SectorId) : Course :=
  fill archive
    { course with
      fetching := false
      nextPos := course.nextPos + sectorSize
      calls := course.padCalls archive id ++ .checkQueue :: course.calls }
    id

/-- `HandleReadySector` goes on to write from the first block. -/
inductive Turn : List WriterCall → Prop
  | ready {id : SectorId} {rest : List WriterCall}
      (calls : course.calls = readyCall id course.first :: rest)
      (holds : course.pipeline.Holds id course.first)
      (ready : course.pipeline.stage course.first = .ready) : Turn rest
  | pending {nextPos : Int} {rest : List WriterCall}
      (calls : course.calls = .output (.afterProgress nextPos) :: rest)
      (more : nextPos < archive.srcSize)
      (live : course.first < course.last)
      (pending : course.pipeline.stage course.first = .pending) : Turn rest

/-- The blocks that are written together. -/
structure Batch (count : Nat) : Prop where
  srcPos : course.srcPos = (course.first * archive.blockSize : Nat)
  dstPos : course.dstPos = archive.pos course.first
  positive : 0 < count
  live : course.first + count ≤ course.last
  pending : ∀ block, course.first < block →
    block < course.first + count → course.pipeline.stage block = .pending

/-- `Flush` -/
def flush (write : IndexWrite) : Course :=
  { course with
    indexReady := true
    indexWritten := archive.immediate
    indexWrites := if archive.immediate then [] else [write]
    calls := archive.report ++ course.calls }

/-- `Flush` when the last block has been gathered. -/
def flushAt (write : IndexWrite) (gathered : Nat) : Course :=
  if archive.blocks ≤ gathered then course.flush archive write else course

theorem flushAt_eq (write : IndexWrite) (gathered : Nat) :
    course.flushAt archive write gathered =
      { course with
        indexReady :=
          if archive.blocks ≤ gathered then true else course.indexReady
        indexWritten :=
          if archive.blocks ≤ gathered then archive.immediate
          else course.indexWritten
        indexWrites :=
          if archive.blocks ≤ gathered then
            if archive.immediate then [] else [write]
          else course.indexWrites
        calls :=
          (if archive.blocks ≤ gathered then archive.report else []) ++
            course.calls } := by
  unfold flushAt
  by_cases all : archive.blocks ≤ gathered
  · simp only [if_pos all, flush]
  · simp only [if_neg all, List.nil_append]

/-- The blocks before a count are done. -/
def retire (count : Nat) (calls : List WriterCall) : Course :=
  { course with
    pipeline := course.pipeline.retire count
    srcPos := ((course.first + count) * archive.blockSize : Nat)
    dstPos := archive.pos (course.first + count)
    calls :=
      .output (.progress ((course.first + count) * archive.blockSize : Nat)
        archive.srcSize (archive.pos (course.first + count))) ::
      .output (.afterProgress
        ((course.first + count) * archive.blockSize : Nat)) :: calls }

/-- What `CheckFinish` leaves to be done. -/
def finishCalls (done : Bool) : List WriterCall :=
  if done then [.output (.finish true "")] else []

/-- The first block is pending and can be written. -/
def Waiting : Prop :=
  course.first < course.last ∧
    course.pipeline.stage course.first = .pending ∧
    course.srcPos = (course.first * archive.blockSize : Nat)

/-- The index write that is issued for the archive; blocks are numbered in 32
bits. -/
structure Expected (write : IndexWrite) : Prop where
  whole : archive.blocks + 1 < 2 ^ 32 → write = archive.indexWrite
  totalBytes : write.totalBytes = archive.indexTotal
  length : write.data.length = archive.indexPassed

end

/-- What can happen in a run. -/
inductive Move (archive : Archive) (may : Writer.Completions) :
    Course → Course → Prop
  | fetch {course : Course}
      (idle : course.fetching = false)
      (running : course.paused = false)
      (resumable : Writer.resumable course.calls = true)
      (more : course.nextPos < archive.sourceSize) :
      Move archive may course { course with fetching := true }
  | arrive {course : Course} {id : SectorId}
      (fetching : course.fetching = true)
      (resumable : Writer.resumable course.calls = true)
      (takes : course.Takes archive id) :
      Move archive may course (course.arrive archive id)
  | pad {course : Course} {id : SectorId} {rest : List WriterCall}
      (calls : course.calls =
        padCall id (course.block archive) course.filled :: rest)
      (short : course.filled < archive.paddedSize)
      (takes : course.Takes archive id) :
      Move archive may course
        (fill archive
          { course with
            calls :=
              padCall id (course.block archive)
                ((course.filled + sectorSize : Nat) : Int) :: rest }
          id)
  | padEnd {course : Course} {id : SectorId} {tag : Nat} {pos : Int}
      {rest : List WriterCall}
      (calls : course.calls = .output (.pad id tag pos) :: rest)
      (full : archive.paddedSize ≤ pos) :
      Move archive may course { course with calls := rest }
  | compressed {course : Course} {id : SectorId} {block : Nat}
      (quiet : course.calls = [])
      (holds : course.pipeline.Holds id block)
      (compressing : course.pipeline.stage block = .compressing) :
      Move archive may course
        { course with
          pipeline := course.pipeline.setStage block .ready
          calls := [readyCall id block] }
  | compressFailed {course : Course} {id : SectorId} {block : Nat}
      {status : Int} (quiet : course.calls = [])
      (holds : course.pipeline.Holds id block)
      (compressing : course.pipeline.stage block = .compressing)
      (failed : status < 0) (given : may.compressed status) :
      Move archive may course
        { course with
          pipeline := course.pipeline.setStage block .failed
          calls := [.output (.finish false "Failed to compress sector")] }
  | queue {course : Course} {id : SectorId} {block : Nat}
      {rest : List WriterCall}
      (calls : course.calls = readyCall id block :: rest)
      (holds : course.pipeline.Holds id block)
      (ready : course.pipeline.stage block = .ready)
      (early : course.srcPos ≠ (block * archive.blockSize : Nat)) :
      Move archive may course
        { course with
          pipeline := course.pipeline.setStage block .pending
          calls := rest }
  | refuse {course : Course} {rest : List WriterCall} {count : Nat}
      {reason : String}
      (turn : course.Turn archive rest) (batch : course.Batch archive count)
      (refused : archive.failure course.first count = some reason) :
      Move archive may course
        { course with
          pipeline := course.pipeline.mark count .lost
          calls := .output (.finish false reason) :: rest }
  | measure {course : Course} {rest : List WriterCall} {count : Nat}
      {write : IndexWrite}
      (turn : course.Turn archive rest) (batch : course.Batch archive count)
      (accepted : archive.failure course.first count = none)
      (noFile : archive.noFile = true)
      (expected : Expected archive write) :
      Move archive may course
        ((course.retire archive count rest).flushAt archive write
          (course.first + count))
  | issue {course : Course} {rest : List WriterCall} {count : Nat}
      {write : IndexWrite}
      (turn : course.Turn archive rest) (batch : course.Batch archive count)
      (accepted : archive.failure course.first count = none)
      (hasFile : archive.noFile = false)
      (something : archive.body course.first count ≠ [])
      (expected : Expected archive write) :
      Move archive may course
        (flushAt archive
          { course with
            pipeline := course.pipeline.mark count .writing
            dataWrites := [archive.batchWrite course.pipeline count]
            calls := rest }
          write (course.first + count))
  | stall {course : Course} {rest : List WriterCall} {count : Nat}
      {write : IndexWrite}
      (turn : course.Turn archive rest) (batch : course.Batch archive count)
      (accepted : archive.failure course.first count = none)
      (hasFile : archive.noFile = false)
      (nothing : archive.body course.first count = [])
      (expected : Expected archive write) :
      Move archive may course
        (flushAt archive
          { course with
            pipeline := course.pipeline.mark count .lost
            calls := rest }
          write (course.first + count))
  | idle {course : Course} {nextPos : Int} {rest : List WriterCall}
      (calls : course.calls = .output (.afterProgress nextPos) :: rest)
      (more : nextPos < archive.srcSize)
      (nothing : ¬ course.Waiting archive) :
      Move archive may course { course with calls := rest }
  | complete {course : Course} {nextPos : Int} {rest : List WriterCall}
      (calls : course.calls = .output (.afterProgress nextPos) :: rest)
      (all : archive.srcSize ≤ nextPos) :
      Move archive may course
        { course with
          dataWritten := true
          calls := finishCalls course.indexWritten ++ rest }
  | progress {course : Course} {pos total written : Int}
      {rest : List WriterCall}
      (calls : course.calls =
        .output (.progress pos total written) :: rest) :
      Move archive may course
        { course with
          calls := rest
          paused := false
          notes := course.notes ++ [.progressed pos total written] }
  | finish {course : Course} {success : Bool} {reason : String}
      {rest : List WriterCall}
      (calls : course.calls = .output (.finish success reason) :: rest) :
      Move archive may course
        { course with
          calls := rest
          paused := course.paused || !success
          notes := course.notes ++
            [.finished success reason course.dstPos] }
  | checkQueue {course : Course} {rest : List WriterCall}
      (calls : course.calls = .checkQueue :: rest) :
      Move archive may course
        { course with
          calls := rest
          paused := course.paused ||
            course.pipeline.owners.length == queueSize }
  | dataWritten {course : Course} {count : Nat} {result : Int}
      (quiet : course.calls = [])
      (writes : course.dataWrites =
        [archive.batchWrite course.pipeline count])
      (positive : 0 < count) (live : course.first + count ≤ course.last)
      (writing : ∀ block, course.first ≤ block →
        block < course.first + count →
          course.pipeline.stage block = .writing)
      (enough : result =
        (archive.batchWrite course.pipeline count).totalWrite)
      (given : may.dataWritten (archive.batchWrite course.pipeline count)
        result) :
      Move archive may course
        { course.retire archive count [] with
          dataWrites := []
          file := FileBytes.pwrite 0 course.file
            (archive.pos course.first).toNat
            (Writer.writtenPart (archive.body course.first count) result)
          notes := course.notes ++
            [.wroteData (archive.pos course.first)
              (Writer.writtenPart
                (archive.body course.first count) result)] }
  | dataFailed {course : Course} {count : Nat} {result : Int}
      (quiet : course.calls = [])
      (writes : course.dataWrites =
        [archive.batchWrite course.pipeline count])
      (positive : 0 < count) (live : course.first + count ≤ course.last)
      (writing : ∀ block, course.first ≤ block →
        block < course.first + count →
          course.pipeline.stage block = .writing)
      (short : result ≠
        (archive.batchWrite course.pipeline count).totalWrite)
      (given : may.dataWritten (archive.batchWrite course.pipeline count)
        result) :
      Move archive may course
        { course with
          pipeline := course.pipeline.retire count
          dataWrites := []
          calls := [.output
            (.finish false "Data could not be written to output file")]
          file := FileBytes.pwrite 0 course.file
            (archive.pos course.first).toNat
            (Writer.writtenPart (archive.body course.first count) result)
          notes := course.notes ++
            [.wroteData (archive.pos course.first)
              (Writer.writtenPart
                (archive.body course.first count) result)] }
  | indexWritten {course : Course} {write : IndexWrite} {result : Int}
      (quiet : course.calls = [])
      (writes : course.indexWrites = [write])
      (enough : result = write.totalBytes)
      (given : may.indexWritten write result) :
      Move archive may course
        { course with
          indexWrites := []
          indexWritten := true
          calls := finishCalls course.dataWritten
          file := FileBytes.pwrite 0 course.file 0
            (Writer.writtenPart write.data result)
          notes := course.notes ++
            [.wroteIndex (Writer.writtenPart write.data result)] }
  | indexFailed {course : Course} {write : IndexWrite} {result : Int}
      (quiet : course.calls = [])
      (writes : course.indexWrites = [write])
      (short : result ≠ write.totalBytes)
      (given : may.indexWritten write result) :
      Move archive may course
        { course with
          indexWrites := []
          calls := [.output (.finish false "Unable to write header data")]
          file := FileBytes.pwrite 0 course.file 0
            (Writer.writtenPart write.data result)
          notes := course.notes ++
            [.wroteIndex (Writer.writtenPart write.data result)] }

end Course

end Maxcso
