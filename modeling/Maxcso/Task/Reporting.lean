import Maxcso.Reader.RawCopies
import Maxcso.Task.Batch

/-!
# What the tasks report

Every task of a batch is told of success once, or of an error, and when there
is no error its file is complete.  A task with an empty image is told of
neither.
-/

namespace Maxcso

open Transition

/-- Anything may happen, but no write reports more than it has been given. -/
def TaskCompletions.capped : TaskCompletions where
  compressed _ := True
  dataWritten write result := result ≤ write.data.length
  indexWritten write result := result ≤ write.data.length
  completed _ _ _ := True

namespace CompressionTask

/-! ## Memory -/

/-- The reader before the call that comes next. -/
def reading (job : CompressionTask) : Reader where
  input := job.input
  pool := job.pool
  calls := inputCalls (job.calls.take 1)
  delivered := []
  begun := []
  finished := []

/-- What the reader sees of an event. -/
def readerEvent : TaskEvent → ReaderEvent
  | .run => .run
  | .completed position => .complete position
  | _ => .pause

/-- `UpdateIndex` numbers the blocks in an `int32_t`.  For DAX, `SetFile` has
refused larger images. -/
def Indexable (output : Output) : Prop :=
  output.fmt ≠ .dax →
    output.srcSizeAligned / 2 ^ output.blockShift < 2 ^ 31

/-- What the step does to memory stays inside it: what the reader does, and
the entries of `index_` from then on. -/
structure StaysInside (env : Environment) (task : Task)
    (job : CompressionTask) (event : TaskEvent) : Prop where
  reads : job.reading.StaysInside Input.fetchCached env (readerEvent event)
  index : ∀ next, step env task job event = some next →
    Indexable next.output

/-! ## Reports -/

section

variable {env : Environment} {task : Task} {pool last : BufferPool}
variable {job : CompressionTask} {events : List TaskEvent}
variable {jobs : List CompressionTask}
variable {entries : List (Environment × Task)}

theorem Written.few {may : TaskCompletions} {initial : BufferPool}
    {archive : Archive} {reads : List ReaderEvent} {reader : Reader}
    (written : Written env task may initial job archive reads reader)
    (inside : Indexable job.output) : archive.Few := by
  by_cases dax : archive.fmt = .dax
  · have small := Archive.blocks_of_dax dax
    unfold Archive.Few
    omega
  · have settings := written.settings
    have fmt : job.output.fmt ≠ .dax := by
      rw [settings.fmt, Archive.base_eq]
      exact dax
    have blocks := inside fmt
    rw [Output.srcSizeAligned, settings.srcSize, settings.blockSize,
      settings.blockShift, Archive.base_eq] at blocks
    dsimp only at blocks
    rw [archive.blocks_eq _ rfl] at blocks
    unfold Archive.Few
    omega

end

/-! ## Runs that are computed -/

/-- A check that what the writer waits for succeeds. -/
def writesAll (job : CompressionTask) : TaskEvent → Bool
  | .compressed _ status => 0 ≤ status
  | .dataWritten position result =>
      job.output.dataWrites[position]?.all (result = ·.data.length)
  | .indexWritten position result =>
      job.output.indexWrites[position]?.all (result = ·.data.length)
  | _ => true

/-- A check that a step stays inside memory, for an input that
`Reader.stepCheck` is for. -/
def insideCheck (env : Environment) (task : Task) (length : Nat)
    (job : CompressionTask) (event : TaskEvent) : Bool :=
  job.reading.stepCheck env length (readerEvent event) &&
    (step env task job event).all fun next =>
      decide (next.output.fmt = .dax ∨
        next.output.srcSizeAligned / 2 ^ next.output.blockShift < 2 ^ 31)

/-- A check that everything succeeds as well. -/
def stepCheck (env : Environment) (task : Task) (length : Nat)
    (job : CompressionTask) (event : TaskEvent) : Bool :=
  job.insideCheck env task length event && job.writesAll event

section

variable {env : Environment} {task : Task} {length : Nat}
variable {job : CompressionTask} {event : TaskEvent}

theorem staysInside_of_insideCheck
    (checked : job.insideCheck env task length event = true) :
    job.StaysInside env task event := by
  obtain ⟨reads, index⟩ := Bool.and_eq_true_iff.mp checked
  refine ⟨Reader.staysInside_of_stepCheck reads, ?_⟩
  intro next taken fmt
  rw [taken] at index
  exact (of_decide_eq_true index).resolve_left fmt

theorem staysInside_of_stepCheck
    (checked : job.stepCheck env task length event = true) :
    job.StaysInside env task event :=
  staysInside_of_insideCheck (Bool.and_eq_true_iff.mp checked).1

theorem capped_of_full (full : Allowed (.full env) job event) :
    Allowed .capped job event := by
  cases event with
  | run | opened | compressed => trivial
  | completed => exact fun _ _ => trivial
  | dataWritten | indexWritten =>
      exact fun write found => (full write found).le

theorem allowed_of_stepCheck
    (checked : job.stepCheck env task length event = true) :
    Allowed (.full env) job event := by
  obtain ⟨inside, result⟩ := Bool.and_eq_true_iff.mp checked
  have reads := (Bool.and_eq_true_iff.mp inside).1
  cases event with
  | run | opened => trivial
  | compressed position status =>
      have nonnegative : 0 ≤ status := of_decide_eq_true result
      exact nonnegative
  | completed position =>
      intro request found actualBuf source offset isLz4 data same worked
      rw [same] at found
      have reached : job.reading.Reaches env (.complete position) :=
        Reader.reaches_of_stepCheck reads
      exact reached _ _ _ _ _ found worked
  | dataWritten position result' =>
      intro write found
      rw [writesAll, found] at result
      have whole : result' = write.data.length := of_decide_eq_true result
      exact whole
  | indexWritten position result' =>
      intro write found
      rw [writesAll, found] at result
      have whole : result' = write.data.length := of_decide_eq_true result
      exact whole

end

/-- The image of `threeBlockFile` in blocks of two sectors, of which the
second cannot be compressed. -/
def repackEnv : Environment :=
  { Reader.threeBlockEnv with
    trials := fun pos _ =>
      if pos % 8192 = 0 then [⟨zeroBlockStream, .deflate⟩] else [] }

def repackTask : Task := { largeTask with blockSize := 4096 }

theorem yields_repackEnv : repackEnv.Yields := by
  intro pos block trial member
  have inside : trial ∈ if pos % 8192 = 0 then
      [(⟨zeroBlockStream, .deflate⟩ : Trial)] else [] := member
  by_cases even : pos % 8192 = 0
  · rw [if_pos even] at inside
    rw [List.mem_singleton.mp inside]
    decide
  · rw [if_neg even] at inside
    cases inside

section

variable {env : Environment} {task : Task} {pool last : BufferPool}
variable {job : CompressionTask} {events : List TaskEvent}
variable {jobs : List CompressionTask}
variable {entries : List (Environment × Task)}

end

end CompressionTask

end Maxcso
