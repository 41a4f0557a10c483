import Maxcso.Reader
import Maxcso.Task
import Maxcso.Writer

/-!
# Runs of a task

`CompressionTask` with its reader, its writer and the pool.  The callbacks
that connect the two run inside of each other: a sector that is read is passed
on to `Enqueue`, and a write that is done resumes the reader.  What is left to
be done after a callback is kept in one list of calls, and the event loop
delivers a completion when nothing is left.
-/

namespace Maxcso

/-- `TaskStatus` -/
inductive TaskStatus where
  | inProgress
  | success
  | badInput
  | badOutput
  | invalidData
  | cannotWrite
  | invalidOption
  deriving DecidableEq, Repr

/-- A call of `Notify`, which comes to one of `progress` or of `error`. -/
inductive Notice where
  | progress (status : TaskStatus) (pos total written : Int)
  | error (status : TaskStatus) (reason : String)
  deriving DecidableEq, Repr

/-- What the code that is running still has to do. -/
inductive TaskCall where
  | input (call : InputCall)
  | output (call : OutputCall)
  /-- The callback for a sector after `Enqueue`. -/
  | checkQueue
  /-- The callback for the size after `SetFile`. -/
  | begun (size : Int)
  /-- The callback for progress after `Resume`. -/
  | progressed (pos total written : Int)

/-- The file that is being opened. -/
inductive Opening where
  | input
  | output
  deriving DecidableEq, Repr

structure CompressionTask where
  input : Input
  output : Output
  pool : BufferPool
  calls : List TaskCall
  opening : Option Opening
  blockSize : Nat
  size : Int
  /-- What the output file holds. -/
  file : Bytes
  notices : List Notice

inductive TaskEvent where
  /-- Run the next call. -/
  | run
  /-- The event loop delivers a completion. -/
  | opened (success : Bool)
  | completed (request : Nat)
  | compressed (position : Nat) (status : Int)
  | dataWritten (position : Nat) (result : Int)
  | indexWritten (position : Nat) (result : Int)
  deriving DecidableEq, Repr

namespace CompressionTask

/-- The constructor. -/
def create (env : Environment) (task : Task) (pool : BufferPool) :
    CompressionTask where
  input := Input.create env
  output := Output.create env task.flags
  pool := pool
  calls := []
  opening := none
  blockSize := 0
  size := 0
  file := []
  notices := []

def notify (job : CompressionTask) (notice : Notice) : CompressionTask :=
  { job with notices := job.notices ++ [notice] }

/-- `Enqueue` up to the first `fs_open`. -/
def start (env : Environment) (task : Task) (pool : BufferPool) :
    CompressionTask :=
  let job := create env task (enqueue task pool).1
  match (enqueue task pool).2 with
  | .error reason => job.notify (.error .invalidOption reason)
  | .ok blockSize =>
      -- We open input and output in order in case there are errors.
      { job with
        blockSize := blockSize
        opening := some .input }

/-- Continue with the result of a function of `Input`. -/
def continueInput (job : CompressionTask) (result : InputResult)
    (rest : List TaskCall) : CompressionTask :=
  { job with
    input := result.input
    pool := result.pool
    calls := result.calls.map .input ++ rest }

/-- Continue with the result of a function of `Output`. -/
def continueOutput (job : CompressionTask) (result : OutputResult)
    (rest : List TaskCall) : CompressionTask :=
  { job with
    output := result.output
    pool := result.pool
    calls := result.calls.map .output ++ rest }

/-- `BeginProcessing` -/
def beginProcessing (env : Environment) (job : CompressionTask) :
    CompressionTask :=
  let piped := job.input.pipe env job.pool
  { job with
    input := piped.1
    pool := piped.2 }

/-- The callbacks of `fs_open`. -/
def onOpened (env : Environment) (task : Task) (job : CompressionTask)
    (opening : Opening) (success : Bool) : CompressionTask :=
  let job := { job with opening := none }
  match opening, success with
  | .input, false =>
      job.notify (.error .badInput "Could not open input file")
  | .input, true =>
      if hasFlag task.flags taskflagMeasure then
        job.beginProcessing env
      else
        { job with opening := some .output }
  | .output, false =>
      job.notify (.error .badOutput "Could not open output file")
  | .output, true => job.beginProcessing env

/-- The callback for the size of the image. -/
def onBegin (task : Task) (job : CompressionTask) (size : Int)
    (rest : List TaskCall) : CompressionTask :=
  match begin task job.blockSize job.pool size with
  | (pool, .error reason) =>
      -- Abort reading.
      { job with
        pool := pool
        blockSize := largeBlockSize
        input := job.input.pause
        calls := rest }.notify (.error .invalidOption reason)
  | (pool, .ok blockSize) =>
      let opened :=
        job.output.setFile (hasFlag task.flags taskflagMeasure) size blockSize
          (format task.flags) (task.origMaxCost blockSize)
          (task.lz4MaxCost blockSize)
      { job with
        pool := pool
        blockSize := blockSize
        output := opened.1
        calls := opened.2.map .output ++ .begun size :: rest }

def runInput (env : Environment) (task : Task) (job : CompressionTask)
    (call : InputCall) (rest : List TaskCall) : CompressionTask :=
  match call with
  | .readSector =>
      job.continueInput (job.input.readSector env job.pool) rest
  | .callback pos sector _ =>
      job.continueOutput (job.output.enqueue env job.pool pos sector)
        (.checkQueue :: rest)
  | .rawDelivered =>
      job.continueInput (job.input.rawDelivered job.pool) rest
  | .subBlock block =>
      job.continueInput (job.input.subBlock env job.pool block) rest
  | .subDelivered block =>
      job.continueInput (job.input.subDelivered job.pool block) rest
  | .begin size => job.onBegin task size rest
  | .finish true _ => { job with calls := rest }
  | .finish false reason =>
      { job with calls := rest }.notify (.error .invalidData reason)

def runOutput (env : Environment) (job : CompressionTask)
    (call : OutputCall) (rest : List TaskCall) : CompressionTask :=
  match call with
  | .pad sector block padPos =>
      job.continueOutput
        (job.output.pad env job.pool sector block padPos) rest
  | .sectorReady sector block =>
      job.continueOutput
        (job.output.sectorReady env job.pool sector block) rest
  | .progress pos total written =>
      -- If it was paused, the queue has space now.
      let resumed := job.input.resume
      { job with
        input := resumed.1
        calls :=
          resumed.2.map .input ++ .progressed pos total written :: rest }
  | .afterProgress nextPos =>
      job.continueOutput
        (job.output.afterProgress env job.pool nextPos) rest
  | .finish true _ =>
      { job with calls := rest }.notify
        (.progress .success job.size job.size job.output.dstPos)
  | .finish false reason =>
      -- Abort reading.
      { job with
        input := job.input.pause
        calls := rest }.notify (.error .cannotWrite reason)

def runCall (env : Environment) (task : Task) (job : CompressionTask)
    (call : TaskCall) (rest : List TaskCall) : CompressionTask :=
  match call with
  | .input call => job.runInput env task call rest
  | .output call => job.runOutput env call rest
  | .checkQueue =>
      { job with
        input := if job.output.queueFull then job.input.pause else job.input
        calls := rest }
  | .begun size =>
      { job with
        size := size
        calls := rest }.notify (.progress .inProgress 0 size 0)
  | .progressed pos total written =>
      { job with calls := rest }.notify
        (.progress .inProgress pos total written)

def step (env : Environment) (task : Task) (job : CompressionTask) :
    TaskEvent → Option CompressionTask
  | .run =>
      match job.calls with
      | [] => none
      | call :: rest => some (job.runCall env task call rest)
  | .opened success =>
      match job.calls, job.opening with
      | [], some opening => some (job.onOpened env task opening success)
      | _, _ => none
  | .completed position =>
      match job.calls, job.input.inFlight[position]? with
      | [], some request =>
          let taken :=
            { job.input with
              inFlight := job.input.inFlight.eraseIdx position }
          some (job.continueInput (taken.complete env job.pool request) [])
      | _, _ => none
  | .compressed position status =>
      match job.calls, job.output.jobs[position]? with
      | [], some queued =>
          let taken :=
            { job.output with jobs := job.output.jobs.eraseIdx position }
          some (job.continueOutput
            (taken.onCompressed env job.pool queued status) [])
      | _, _ => none
  | .dataWritten position result =>
      match job.calls, job.output.dataWrites[position]? with
      | [], some write =>
          let taken :=
            { job.output with
              dataWrites := job.output.dataWrites.eraseIdx position }
          some
            { job.continueOutput
                (taken.onDataWritten job.pool write result) [] with
              file :=
                FileBytes.pwrite 0 job.file write.offset.toNat
                  (Writer.writtenPart write.data result) }
      | _, _ => none
  | .indexWritten position result =>
      match job.calls, job.output.indexWrites[position]? with
      | [], some write =>
          let taken :=
            { job.output with
              indexWrites := job.output.indexWrites.eraseIdx position }
          some
            { job.continueOutput
                (taken.onIndexWritten job.pool write result) [] with
              file :=
                FileBytes.pwrite 0 job.file 0
                  (Writer.writtenPart write.data result) }
      | _, _ => none

section

variable {env : Environment} {task : Task} {job next : CompressionTask}
variable {position : Nat} {result : Int}

theorem step_run (taken : job.step env task .run = some next) :
    ∃ call rest, job.calls = call :: rest ∧
      next = job.runCall env task call rest := by
  rw [step] at taken
  split at taken
  · cases taken
  · exact ⟨_, _, ‹_›, (Option.some.inj taken).symm⟩

theorem step_opened {success : Bool}
    (taken : job.step env task (.opened success) = some next) :
    ∃ opening, job.calls = [] ∧ job.opening = some opening ∧
      next = job.onOpened env task opening success := by
  rw [step] at taken
  split at taken
  · exact ⟨_, ‹_›, ‹_›, (Option.some.inj taken).symm⟩
  · cases taken

theorem step_completed
    (taken : job.step env task (.completed position) = some next) :
    ∃ request, job.calls = [] ∧
      job.input.inFlight[position]? = some request ∧
      next = job.continueInput
        (Input.complete env
          { job.input with
            inFlight := job.input.inFlight.eraseIdx position }
          job.pool request) [] := by
  rw [step] at taken
  split at taken
  · exact ⟨_, ‹_›, ‹_›, (Option.some.inj taken).symm⟩
  · cases taken

theorem step_compressed
    (taken : job.step env task (.compressed position result) = some next) :
    ∃ queued, job.calls = [] ∧ job.output.jobs[position]? = some queued ∧
      next = job.continueOutput
        (Output.onCompressed env
          { job.output with jobs := job.output.jobs.eraseIdx position }
          job.pool queued result) [] := by
  rw [step] at taken
  split at taken
  · exact ⟨_, ‹_›, ‹_›, (Option.some.inj taken).symm⟩
  · cases taken

theorem step_dataWritten
    (taken : job.step env task (.dataWritten position result) = some next) :
    ∃ write, job.calls = [] ∧
      job.output.dataWrites[position]? = some write ∧
      next =
        { job.continueOutput
            (Output.onDataWritten
              { job.output with
                dataWrites := job.output.dataWrites.eraseIdx position }
              job.pool write result) [] with
          file :=
            FileBytes.pwrite 0 job.file write.offset.toNat
              (Writer.writtenPart write.data result) } := by
  rw [step] at taken
  split at taken
  · exact ⟨_, ‹_›, ‹_›, (Option.some.inj taken).symm⟩
  · cases taken

theorem step_indexWritten
    (taken : job.step env task (.indexWritten position result) = some next) :
    ∃ write, job.calls = [] ∧
      job.output.indexWrites[position]? = some write ∧
      next =
        { job.continueOutput
            (Output.onIndexWritten
              { job.output with
                indexWrites := job.output.indexWrites.eraseIdx position }
              job.pool write result) [] with
          file :=
            FileBytes.pwrite 0 job.file 0
              (Writer.writtenPart write.data result) } := by
  rw [step] at taken
  split at taken
  · exact ⟨_, ‹_›, ‹_›, (Option.some.inj taken).symm⟩
  · cases taken

end

/-- The event loop has nothing to wait for. -/
structure Drained (job : CompressionTask) : Prop where
  calls : job.calls = []
  opening : job.opening = none
  inFlight : job.input.inFlight = []
  jobs : job.output.jobs = []
  dataWrites : job.output.dataWrites = []
  indexWrites : job.output.indexWrites = []

/-- The task has been told of an error. -/
def Failed (job : CompressionTask) : Prop :=
  ∃ status reason, .error status reason ∈ job.notices

def isSuccess : Notice → Bool
  | .progress .success .. => true
  | _ => false

/-- How often the task has been told of success. -/
def successes (job : CompressionTask) : Nat :=
  job.notices.countP isSuccess

end CompressionTask

end Maxcso
