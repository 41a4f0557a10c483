import Maxcso.Checksum
import Maxcso.Reader

/-!
# Runs of a checksum task

`ChecksumTask` with its reader and the pool.  The reader passes the sectors on
to the callback of `Pipe`, and nothing pauses it.
-/

namespace Maxcso

open Transition

structure ChecksumJob where
  input : Input
  pool : BufferPool
  /-- What the code that is running still has to do. -/
  calls : List InputCall
  /-- The input file is being opened. -/
  opening : Bool
  task : ChecksumTask
  /-- What has been told under `TASK_BAD_INPUT`. -/
  badInput : List String

inductive ChecksumEvent where
  /-- Run the next call. -/
  | run
  /-- The event loop delivers a completion. -/
  | opened (success : Bool)
  | completed (request : Nat)
  deriving DecidableEq, Repr

namespace ChecksumJob

/-- The constructor and `Enqueue`; `pos_`, `size_` and `crc_` are set before
they are read. -/
def start (env : Environment) (pool : BufferPool) : ChecksumJob where
  input := Input.create env
  pool := pool
  calls := []
  opening := true
  task := .beginProcessing
  badInput := []

/-- Continue with the result of a function of `Input`. -/
def continueWith (job : ChecksumJob) (result : InputResult)
    (rest : List InputCall) : ChecksumJob :=
  { job with
    input := result.input
    pool := result.pool
    calls := result.calls ++ rest }

/-- The callback of `fs_open`. -/
def onOpened (env : Environment) (job : ChecksumJob) (success : Bool) :
    ChecksumJob :=
  let job := { job with opening := false }
  if success then
    let piped := job.input.pipe env job.pool
    { job with
      input := piped.1
      pool := piped.2
      task := .beginProcessing }
  else
    { job with badInput := job.badInput ++ ["Could not open input file"] }

def runCall (crc32 : Crc32) (env : Environment) (job : ChecksumJob)
    (call : InputCall) (rest : List InputCall) : ChecksumJob :=
  match call with
  | .readSector => job.continueWith (job.input.readSector env job.pool) rest
  | .callback pos sector _ =>
      let received := job.task.receive crc32 job.pool pos sector
      { job with
        task := received.1
        pool := received.2
        calls := rest }
  | .rawDelivered => job.continueWith (job.input.rawDelivered job.pool) rest
  | .subBlock block =>
      job.continueWith (job.input.subBlock env job.pool block) rest
  | .subDelivered block =>
      job.continueWith (job.input.subDelivered job.pool block) rest
  | .begin size =>
      { job with
        task := job.task.onBegin crc32 size
        calls := rest }
  | .finish success reason =>
      { job with
        task := job.task.onFinish success reason
        calls := rest }

def step (crc32 : Crc32) (env : Environment) (job : ChecksumJob) :
    ChecksumEvent → Option ChecksumJob
  | .run =>
      match job.calls with
      | [] => none
      | call :: rest => some (job.runCall crc32 env call rest)
  | .opened success =>
      if job.opening then some (job.onOpened env success) else none
  | .completed position =>
      match job.calls, job.input.inFlight[position]? with
      | [], some request =>
          let taken :=
            { job.input with
              inFlight := job.input.inFlight.eraseIdx position }
          some (job.continueWith (taken.complete env job.pool request) [])
      | _, _ => none

section

variable {crc32 : Crc32} {env : Environment} {job next : ChecksumJob}

theorem step_run (taken : job.step crc32 env .run = some next) :
    ∃ call rest, job.calls = call :: rest ∧
      next = job.runCall crc32 env call rest := by
  rw [step] at taken
  split at taken
  · cases taken
  · exact ⟨_, _, ‹_›, (Option.some.inj taken).symm⟩

theorem step_opened {success : Bool}
    (taken : job.step crc32 env (.opened success) = some next) :
    job.opening = true ∧ next = job.onOpened env success := by
  rw [step] at taken
  split at taken
  · exact ⟨‹_›, (Option.some.inj taken).symm⟩
  · cases taken

theorem step_completed {position : Nat}
    (taken : job.step crc32 env (.completed position) = some next) :
    ∃ request, job.calls = [] ∧
      job.input.inFlight[position]? = some request ∧
      next = job.continueWith
        (Input.complete env
          { job.input with
            inFlight := job.input.inFlight.eraseIdx position }
          job.pool request) [] := by
  rw [step] at taken
  split at taken
  · exact ⟨_, ‹_›, ‹_›, (Option.some.inj taken).symm⟩
  · cases taken

end

/-- The event loop has nothing to wait for. -/
structure Drained (job : ChecksumJob) : Prop where
  calls : job.calls = []
  opening : job.opening = false
  inFlight : job.input.inFlight = []

/-- The task has been told of an error. -/
def Failed (job : ChecksumJob) : Prop :=
  job.badInput ≠ [] ∨ ∃ reason, .invalidData reason ∈ job.task.notes

end ChecksumJob

end Maxcso
