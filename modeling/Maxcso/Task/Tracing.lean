import Maxcso.Reader.Yielding
import Maxcso.Task.Reading
import Maxcso.Writer.Completing
import Maxcso.Writer.Keeping

/-!
# What the reader and the writer of a task have done

The part of a task that belongs to its reader is a run of the reader, and the
part that belongs to its writer is a run of the writer.  Each of them sees the
other as another holder of the pool.
-/

namespace Maxcso

open Transition

/-- What the completions of a task may be. -/
structure TaskCompletions extends Writer.Completions where
  completed : Input → BufferPool → InputRequest → Prop

/-- Anything may happen. -/
def TaskCompletions.any : TaskCompletions :=
  ⟨.any, fun _ _ _ => True⟩

/-- Everything succeeds, and what is decompressed reaches the sector that it
has been decompressed for. -/
def TaskCompletions.full (env : Environment) : TaskCompletions :=
  ⟨.full, fun input pool request => ∀ actualBuf source offset isLz4 data,
    request = .decompress actualBuf source offset isLz4 →
      input.decompressWork env pool source isLz4 = .ok data →
        offset < data.length⟩

/-! ## The reader -/

namespace Reader

/-- Other holders of the pool do not resize it once `begin_` has been called,
and requests complete as they may. -/
def Permitted (may : TaskCompletions) (reader : Reader)
    (event : ReaderEvent) : Prop :=
  reader.KeepsPoolBegun event ∧ ∀ position request,
    event = .complete position →
      reader.input.inFlight[position]? = some request →
        may.completed reader.input reader.pool request

/-- The events have brought the reader into the phase. -/
def Reached (env : Environment) (may : TaskCompletions) (pool : BufferPool)
    (events : List ReaderEvent) (core : Reader) (phase : Phase) : Prop :=
  Execution (step Input.fetchCached env) (Permitted may) (start env pool)
    events (core.enter phase)

variable {env : Environment} {may : TaskCompletions}
variable {pool pool' : BufferPool}
variable {events : List ReaderEvent} {event : ReaderEvent}
variable {core core' : Reader} {phase phase' : Phase}

theorem reached_start :
    Reached env may pool [] (start env pool) (startPhase env pool) := by
  have same := (situated_start env pool).enter
  unfold Reached
  rw [← same]
  exact Execution.nil _

/-- The reader has gone on by itself. -/
theorem Reached.own (reached : Reached env may pool events core phase)
    (known : phase.knowsFormat = true → core.input.fileType ≠ .unknown)
    (own : event = .run ∨ event = .complete 0)
    (move : Move Input.fetchCached env core phase event core' phase')
    (completes : ∀ request, event = .complete 0 →
      phase = .waiting request →
        may.completed (core.enter phase).input core.pool request) :
    Reached env may pool (events ++ [event]) core' phase' := by
  refine Execution.snoc reached ⟨fun _ => ?_, ?_⟩ (step_of_move known move)
  · rcases own with same | same
    · rw [same]
      trivial
    · rw [same]
      trivial
  · intro position request same found
    have first : event = .complete 0 := by
      rcases own with run | first
      · rw [run] at same
        cases same
      · exact first
    obtain rfl := ReaderEvent.complete.inj (same.symm.trans first)
    cases phase with
    | waiting other =>
        obtain rfl := Option.some.inj found
        exact completes _ first rfl
    | _ => cases found

theorem Reached.run (reached : Reached env may pool events core phase)
    (known : phase.knowsFormat = true → core.input.fileType ≠ .unknown)
    (move : Move Input.fetchCached env core phase .run core' phase') :
    Reached env may pool (events ++ [.run]) core' phase' := by
  refine reached.own known (Or.inl rfl) move fun request same => ?_
  cases same

/-- The owner of the reader or of the pool has done something. -/
theorem Reached.outside (reached : Reached env may pool events core phase)
    (known : phase.knowsFormat = true → core.input.fileType ≠ .unknown)
    (move : Move Input.fetchCached env core phase event core' phase')
    (outside : event.cost = 0)
    (keeps : (core.enter phase).KeepsPoolBegun event) :
    Reached env may pool (events ++ [event]) core' phase' := by
  refine Execution.snoc reached ⟨keeps, ?_⟩ (step_of_move known move)
  intro position request same
  rw [same] at outside
  cases outside

/-- Another holder has used the pool. -/
theorem Reached.otherPool (reached : Reached env may pool events core phase)
    (known : phase.knowsFormat = true → core.input.fileType ≠ .unknown)
    (keeps : core.begun ≠ [] →
      pool'.bufferSize = core.pool.bufferSize) :
    Reached env may pool (events ++ [.otherPool pool'])
      { core with pool := pool' } phase :=
  reached.outside known (.otherPool core phase pool') rfl keeps

/-- The reader has been paused, and the pool has been used. -/
theorem Reached.pause (reached : Reached env may pool events core phase)
    (known : phase.knowsFormat = true → core.input.fileType ≠ .unknown)
    (keeps : core.begun ≠ [] →
      pool'.bufferSize = core.pool.bufferSize) :
    Reached env may pool (events ++ [.pause] ++ [.otherPool pool'])
      { core with
        input := { core.input with paused := true }
        pool := pool' } phase := by
  have paused := reached.outside known (.pause core phase) rfl
    fun _ => trivial
  exact paused.otherPool known keeps

/-- The reader has been resumed, and the pool has been used. -/
theorem Reached.resume (reached : Reached env may pool events core phase)
    (known : phase.knowsFormat = true → core.input.fileType ≠ .unknown)
    (goes : phase' = phase ∨ phase = .parked ∧ phase' = .reading)
    (unparked : phase' ≠ .parked)
    (keeps : core.begun ≠ [] →
      pool'.bufferSize = core.pool.bufferSize) :
    Reached env may pool (events ++ [.resume] ++ [.otherPool pool'])
      { core with
        input := { core.input with paused := false }
        pool := pool' } phase' := by
  rcases goes with same | ⟨parked, reading⟩
  · subst same
    have running : phase'.isParked = false := by
      cases phase' with
      | parked => exact absurd rfl unparked
      | _ => rfl
    have resumed := reached.outside known (.resume core phase' running) rfl
      fun _ => trivial
    exact resumed.otherPool known keeps
  · subst parked reading
    have resumed := reached.outside known (.unpark core) rfl
      fun _ => trivial
    exact resumed.otherPool (fun _ => known rfl) keeps

end Reader

/-! ## The writer -/

namespace Writer

variable {env : Environment} {writer next : Writer} {event : WriterEvent}

/-- A step of the writer does not resize the buffers. -/
theorem step_bufferSize (taken : writer.step env event = some next)
    (own : isOther event = false) :
    next.pool.bufferSize = writer.pool.bufferSize := by
  cases event with
  | otherPool => cases own
  | fetch =>
      rw [step] at taken
      split at taken
      · obtain rfl := Option.some.inj taken
        rfl
      · cases taken
  | enqueue buffer =>
      rw [step] at taken
      split at taken
      · obtain rfl := Option.some.inj taken
        exact (Output.enqueue_keeps env writer.nextPos buffer).bufferSize
      · cases taken
  | run =>
      rw [step] at taken
      split at taken
      · cases taken
      · rename_i call rest calls
        obtain rfl := Option.some.inj taken
        cases call with
        | checkQueue => rfl
        | output call =>
            cases call with
            | pad sector block padPos =>
                exact (Output.pad_keeps env sector block padPos).bufferSize
            | sectorReady sector block =>
                exact (Output.sectorReady_keeps env sector block).bufferSize
            | progress pos total written => rfl
            | afterProgress nextPos =>
                exact (Output.afterProgress_keeps env nextPos).bufferSize
            | finish success reason => rfl
  | compressed position status =>
      rw [step] at taken
      split at taken
      · obtain rfl := Option.some.inj taken
        exact (Output.onCompressed_keeps env _ status).bufferSize
      · cases taken
  | dataWritten position result =>
      rw [step] at taken
      split at taken
      · obtain rfl := Option.some.inj taken
        exact (Output.onDataWritten_keeps _ result).bufferSize
      · cases taken
  | indexWritten position result =>
      rw [step] at taken
      split at taken
      · obtain rfl := Option.some.inj taken
        exact (Output.onIndexWritten_keeps _ result).bufferSize
      · cases taken

end Writer

/-! ## The task -/

namespace CompressionTask

/-- Completions are what they may be. -/
def Allowed (may : TaskCompletions) (job : CompressionTask) :
    TaskEvent → Prop
  | .completed position => ∀ request,
      job.input.inFlight[position]? = some request →
        may.completed job.input job.pool request
  | .compressed _ status => may.compressed status
  | .dataWritten position result => ∀ write,
      job.output.dataWrites[position]? = some write →
        may.dataWritten write result
  | .indexWritten position result => ∀ write,
      job.output.indexWrites[position]? = some write →
        may.indexWritten write result
  | _ => True

/-- What the reader and the writer have done in how many steps of the
task. -/
structure Ledger where
  reads : List ReaderEvent
  writerPool : BufferPool
  writes : List WriterEvent
  steps : Nat

/-- A call that only tells the owner of the task something. -/
def isNotice : TaskCall → Bool
  | .begun _ | .progressed .. => true
  | _ => false

/-- What the owner has still to be told. -/
def untold (calls : List TaskCall) : Nat :=
  calls.countP isNotice

section

variable {rest : List TaskCall}

@[simp]
theorem untold_input (call : InputCall) :
    untold (.input call :: rest) = untold rest :=
  List.countP_cons_of_neg Bool.false_ne_true

@[simp]
theorem untold_output (call : OutputCall) :
    untold (.output call :: rest) = untold rest :=
  List.countP_cons_of_neg Bool.false_ne_true

@[simp]
theorem untold_checkQueue : untold (.checkQueue :: rest) = untold rest :=
  List.countP_cons_of_neg Bool.false_ne_true

@[simp]
theorem untold_begun (size : Int) :
    untold (.begun size :: rest) = untold rest + 1 :=
  List.countP_cons_of_pos rfl

@[simp]
theorem untold_progressed (pos total written : Int) :
    untold (.progressed pos total written :: rest) = untold rest + 1 :=
  List.countP_cons_of_pos rfl

@[simp]
theorem untold_inputs (calls : List InputCall) :
    untold (calls.map .input ++ rest) = untold rest := by
  induction calls with
  | nil => rfl
  | cons call calls inductionHypothesis =>
      exact (untold_input call).trans inductionHypothesis

@[simp]
theorem untold_outputs (calls : List OutputCall) :
    untold (calls.map .output ++ rest) = untold rest := by
  induction calls with
  | nil => rfl
  | cons call calls inductionHypothesis =>
      exact (untold_output call).trans inductionHypothesis

end

namespace Ledger

def readCost (ledger : Ledger) : Nat :=
  (ledger.reads.map ReaderEvent.cost).sum

/-- The steps that the reader may take more for being resumed. -/
def credit (ledger : Ledger) : Nat :=
  (ledger.reads.map ReaderEvent.credit).sum

def writeCost (ledger : Ledger) : Nat :=
  ledger.writes.countP (!Writer.isOther ·)

/-- Every step of the task is a step of the reader or of the writer, or tells
the owner what a step of the writer has left to be told.  Only the writer
resumes the reader. -/
structure Balanced (ledger : Ledger) (untold : Nat) : Prop where
  paid : ledger.steps + untold ≤
    ledger.readCost + 2 * ledger.writeCost + 3
  credit : ledger.credit ≤ 2 * ledger.writeCost

def read (ledger : Ledger) (event : ReaderEvent) : Ledger :=
  { ledger with reads := ledger.reads ++ [event] }

def write (ledger : Ledger) (event : WriterEvent) : Ledger :=
  { ledger with writes := ledger.writes ++ [event] }

def tick (ledger : Ledger) : Ledger :=
  { ledger with steps := ledger.steps + 1 }

variable {ledger : Ledger} {untold untold' : Nat}

theorem readCost_read (event : ReaderEvent) :
    (ledger.read event).readCost = ledger.readCost + event.cost := by
  simp [readCost, read]

theorem credit_read (event : ReaderEvent) :
    (ledger.read event).credit = ledger.credit + event.credit := by
  simp [credit, read]

theorem writeCost_write {event : WriterEvent}
    (own : Writer.isOther event = false) :
    (ledger.write event).writeCost = ledger.writeCost + 1 := by
  simp [writeCost, write, own]

/-- An event of the reader that is neither its own nor resumes it. -/
theorem Balanced.read (balanced : ledger.Balanced untold)
    {event : ReaderEvent} (free : event.credit = 0) :
    (ledger.read event).Balanced untold := by
  have paid := balanced.paid
  have credit := balanced.credit
  refine ⟨?_, ?_⟩
  · rw [readCost_read]
    show ledger.steps + untold ≤
      ledger.readCost + event.cost + 2 * ledger.writeCost + 3
    omega
  · rw [credit_read, free]
    exact credit

theorem Balanced.write (balanced : ledger.Balanced untold)
    (event : WriterEvent) : (ledger.write event).Balanced untold := by
  have paid := balanced.paid
  have credit := balanced.credit
  have more : ledger.writeCost ≤ (ledger.write event).writeCost := by
    cases own : Writer.isOther event with
    | false =>
        rw [writeCost_write own]
        exact Nat.le_succ _
    | true => simp [writeCost, Ledger.write, own]
  refine ⟨?_, ?_⟩
  · show ledger.steps + untold ≤
      ledger.readCost + 2 * (ledger.write event).writeCost + 3
    omega
  · show ledger.credit ≤ 2 * (ledger.write event).writeCost
    omega

/-- A step of the reader. -/
theorem Balanced.reads (balanced : ledger.Balanced untold)
    {event : ReaderEvent} (own : event = .run ∨ event = .complete 0)
    (told : untold' ≤ untold) :
    (ledger.read event).tick.Balanced untold' := by
  have paid := balanced.paid
  have cost : event.cost = 1 ∧ event.credit = 0 := by
    rcases own with same | same
    · rw [same]
      exact ⟨rfl, rfl⟩
    · rw [same]
      exact ⟨rfl, rfl⟩
  refine ⟨?_, ?_⟩
  · show ledger.steps + 1 + untold' ≤
      (ledger.read event).readCost + 2 * ledger.writeCost + 3
    rw [readCost_read, cost.1]
    omega
  · show (ledger.read event).credit ≤ 2 * ledger.writeCost
    rw [credit_read, cost.2]
    exact balanced.credit

/-- A step of the writer. -/
theorem Balanced.writes (balanced : ledger.Balanced untold)
    {event : WriterEvent} (own : Writer.isOther event = false)
    (told : untold' ≤ untold + 1) :
    (ledger.write event).tick.Balanced untold' := by
  have paid := balanced.paid
  have credit := balanced.credit
  refine ⟨?_, ?_⟩
  · show ledger.steps + 1 + untold' ≤
      ledger.readCost + 2 * (ledger.write event).writeCost + 3
    rw [writeCost_write own]
    omega
  · show ledger.credit ≤ 2 * (ledger.write event).writeCost
    rw [writeCost_write own]
    omega

/-- A step of the writer that resumes the reader. -/
theorem Balanced.resumes (balanced : ledger.Balanced untold)
    {event : WriterEvent} (own : Writer.isOther event = false)
    (told : untold' ≤ untold + 1) :
    ((ledger.read .resume).write event).tick.Balanced untold' := by
  have paid := balanced.paid
  have credit := balanced.credit
  refine ⟨?_, ?_⟩
  · show ledger.steps + 1 + untold' ≤
      (ledger.read .resume).readCost +
        2 * (ledger.write event).writeCost + 3
    rw [readCost_read, writeCost_write own]
    omega
  · show (ledger.read .resume).credit ≤
      2 * (ledger.write event).writeCost
    rw [credit_read, writeCost_write own]
    simp only [ReaderEvent.credit]
    omega

/-- The owner is told something. -/
theorem Balanced.tells (balanced : ledger.Balanced untold)
    (told : untold' + 1 ≤ untold) : ledger.tick.Balanced untold' := by
  have paid := balanced.paid
  refine ⟨?_, balanced.credit⟩
  show ledger.steps + 1 + untold' ≤
    ledger.readCost + 2 * ledger.writeCost + 3
  omega

end Ledger

end CompressionTask

end Maxcso
