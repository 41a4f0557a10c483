import Maxcso.Library.BlockImage
import Maxcso.Reader.InOrder
import Maxcso.Task.Reading
import Maxcso.Task.Tracing
import Maxcso.Writer.Accounted

/-!
# The writer of a task

Once `SetFile` has accepted the image, the writer's part of a task is a writer
whose source is the reader.  The image that is written is the one that the
reader passes on.
-/

namespace Maxcso

open FileBytes Transition

namespace CompressionTask

/-! ## The calls of the writer -/

def writerCall : TaskCall → Option WriterCall
  | .output call => some (.output call)
  | .checkQueue => some .checkQueue
  | _ => none

/-- What the writer still has to do. -/
def writerCalls (calls : List TaskCall) : List WriterCall :=
  calls.filterMap writerCall

section

variable {rest : List TaskCall}

@[simp]
theorem writerCalls_input (call : InputCall) :
    writerCalls (.input call :: rest) = writerCalls rest := rfl

@[simp]
theorem writerCalls_output (call : OutputCall) :
    writerCalls (.output call :: rest) =
      .output call :: writerCalls rest := rfl

@[simp]
theorem writerCalls_checkQueue :
    writerCalls (.checkQueue :: rest) = .checkQueue :: writerCalls rest :=
  rfl

@[simp]
theorem writerCalls_begun (size : Int) :
    writerCalls (.begun size :: rest) = writerCalls rest := rfl

@[simp]
theorem writerCalls_progressed (pos total written : Int) :
    writerCalls (.progressed pos total written :: rest) =
      writerCalls rest := rfl

@[simp]
theorem writerCalls_inputs (calls : List InputCall) :
    writerCalls (calls.map .input ++ rest) = writerCalls rest := by
  induction calls with
  | nil => rfl
  | cons call calls inductionHypothesis => exact inductionHypothesis

@[simp]
theorem writerCalls_outputs (calls : List OutputCall) :
    writerCalls (calls.map .output ++ rest) =
      calls.map .output ++ writerCalls rest := by
  induction calls with
  | nil => rfl
  | cons call calls inductionHypothesis =>
      exact congrArg (.output call :: ·) inductionHypothesis

/-! ## How calls are nested -/

/-- Whose call it is does not matter. -/
def isPlain : TaskCall → Bool
  | .input _ | .checkQueue => false
  | _ => true

/-- The reader runs where its owner may resume it, and the callback for a
sector returns to the reader. -/
inductive Nested : List TaskCall → Prop
  | nil : Nested []
  | input {call : InputCall} {rest : List TaskCall}
      (resumable : Writer.resumable (writerCalls rest) = true)
      (returns : ∀ pos sector supplied,
        call = .callback pos sector supplied →
          ∃ next others, rest = .input next :: others)
      (nested : Nested rest) : Nested (.input call :: rest)
  | check {call : InputCall} {rest : List TaskCall}
      (nested : Nested (.input call :: rest)) :
      Nested (.checkQueue :: .input call :: rest)
  | other {call : TaskCall} {rest : List TaskCall}
      (plain : isPlain call = true) (nested : Nested rest) :
      Nested (call :: rest)

theorem Nested.tail {call : TaskCall} (nested : Nested (call :: rest)) :
    Nested rest := by
  cases nested with
  | input _ _ nested => exact nested
  | check nested => exact nested
  | other _ nested => exact nested

theorem Nested.resumable {call : InputCall}
    (nested : Nested (.input call :: rest)) :
    Writer.resumable (writerCalls rest) = true := by
  cases nested with
  | input resumable => exact resumable
  | other plain => cases plain

/-- The callback for a sector returns to the reader. -/
theorem Nested.returns {pos : Int} {sector : Buffer} {supplied : Nat}
    (nested : Nested (.input (.callback pos sector supplied) :: rest)) :
    ∃ next others, rest = .input next :: others := by
  cases nested with
  | input _ returns => exact returns pos sector supplied rfl
  | other plain => cases plain

theorem Nested.outputs (nested : Nested rest) (calls : List OutputCall) :
    Nested (calls.map .output ++ rest) := by
  induction calls with
  | nil => exact nested
  | cons call calls inductionHypothesis =>
      exact .other rfl inductionHypothesis

/-- The reader goes on where it may. -/
theorem Nested.phase (nested : Nested rest)
    (resumable : Writer.resumable (writerCalls rest) = true)
    (phase : Phase) : Nested (phase.calls.map .input ++ rest) := by
  have single : ∀ {call : InputCall},
      (∀ pos sector supplied, call ≠ .callback pos sector supplied) →
        Nested (.input call :: rest) := by
    intro call quiet
    exact .input resumable
      (fun pos sector supplied same => absurd same (quiet pos sector supplied))
      nested
  have returning : ∀ {pos : Int} {sector : Buffer} {supplied : Nat}
      {next : InputCall}, Nested (.input next :: rest) →
        Nested (.input (.callback pos sector supplied) ::
          .input next :: rest) := by
    intro pos sector supplied next inner
    exact .input resumable (fun _ _ _ _ => ⟨_, _, rfl⟩) inner
  cases phase with
  | waiting | parked | stopped => exact nested
  | reading | rawDelivered | looping | subDelivered | finishing =>
      refine single ?_
      intro pos sector supplied same
      cases same
  | rawCallback | subCallback =>
      refine returning (single ?_)
      intro pos sector supplied same
      cases same
  | beginning =>
      refine .input resumable ?_ (single ?_)
      · intro pos sector supplied same
        cases same
      · intro pos sector supplied same
        cases same

/-- While the owner has still to look at the queue the reader is running. -/
theorem Nested.checks {calls : List TaskCall} (nested : Nested calls)
    (idle : inputCalls calls = []) : .checkQueue ∉ writerCalls calls := by
  induction nested with
  | nil => exact List.not_mem_nil
  | input => cases idle
  | check => cases idle
  | @other call rest plain _ inductionHypothesis =>
      cases call with
      | input | checkQueue => cases plain
      | output call =>
          rw [writerCalls_output, List.mem_cons]
          refine not_or.mpr ⟨?_, inductionHypothesis idle⟩
          intro same
          cases same
      | begun | progressed => exact inductionHypothesis idle

end

/-! ## The image -/

/-- The image starts with the sectors that have been passed on. -/
def Supplies (delivered : List Delivery) (image : Bytes) : Prop :=
  ∀ index delivery, delivered[index]? = some delivery →
    pread image (sectorSize * index) sectorSize = delivery.sector

theorem Supplies.earlier
    {delivered : List Delivery} {delivery : Delivery} {image : Bytes}
    (supplies : Supplies (delivered ++ [delivery]) image) :
    Supplies delivered image := by
  intro index other found
  apply supplies index other
  rw [List.getElem?_append_left
    (List.getElem?_eq_some_iff.mp found).choose]
  exact found

theorem Supplies.last
    {delivered : List Delivery} {delivery : Delivery} {image : Bytes}
    (supplies : Supplies (delivered ++ [delivery]) image) :
    pread image (sectorSize * delivered.length) sectorSize =
      delivery.sector :=
  supplies delivered.length delivery List.getElem?_concat_length

/-- There is such an image. -/
theorem exists_archive
    {env : Environment} {config : WriterConfig}
    (accepted : config.Accepted env) {delivered : List Delivery}
    (sectors : ∀ delivery ∈ delivered,
      delivery.sector.length = sectorSize)
    (fits : sectorSize * delivered.length ≤ config.sourceSize) :
    ∃ archive : Archive, archive.toWriterConfig = config ∧
      archive.env = env ∧ Supplies delivered archive.image := by
  let content (block : Nat) : Bytes :=
    (delivered[block]?.map Delivery.sector).getD []
  let image := BlockImage.assemble sectorSize config.sourceSize content
  refine ⟨⟨config, env, image, BlockImage.length_assemble, accepted⟩, rfl,
    rfl, ?_⟩
  intro index delivery found
  have length := sectors delivery (List.mem_of_getElem? found)
  have below := (List.getElem?_eq_some_iff.mp found).choose
  have holds : content index = delivery.sector := by
    show ((delivered[index]?).map Delivery.sector).getD [] = _
    rw [found]
    rfl
  have inside : sectorSize * index + 0 + sectorSize ≤
      config.sourceSize := by
    simp only [sectorSize] at fits ⊢
    omega
  have whole := @BlockImage.pread_assemble UInt8 _ sectorSize
    config.sourceSize index 0 sectorSize content (by omega) inside
    (by rw [holds, length, Nat.zero_add])
  rw [Nat.add_zero] at whole
  show pread image (sectorSize * index) sectorSize = _
  rw [whole, holds, pread, List.drop_zero, ← length, List.take_length]

/-- The writer has written what the image starts with, for every image that
starts with the sectors that have been passed on. -/
def Runs (env : Environment) (config : WriterConfig)
    (may : Writer.Completions) (pool : BufferPool)
    (delivered : List Delivery) (writes : List WriterEvent)
    (writer : Writer) : Prop :=
  ∀ image, Supplies delivered image →
    Writer.Run config env image may (Writer.start env config pool) writes
      writer

section

variable {env : Environment} {config : WriterConfig}
variable {may : Writer.Completions} {pool : BufferPool}
variable {delivered more : List Delivery} {writes : List WriterEvent}
variable {writer writer' : Writer}

theorem Runs.step (runs : Runs env config may pool delivered writes writer)
    {event : WriterEvent} (taken : writer.step env event = some writer')
    (narrows : ∀ image, Supplies more image →
      Supplies delivered image ∧
        Writer.Allowed config image may writer event) :
    Runs env config may pool more (writes ++ [event]) writer' := by
  intro image supplies
  obtain ⟨earlier, allowed⟩ := narrows image supplies
  exact (runs image earlier).snoc allowed taken

theorem runs_start :
    Runs env config may pool [] [] (Writer.start env config pool) :=
  fun _ _ => Execution.nil _

end

/-! ## The reader and the writer -/

/-- The reader of a task passes its sectors on to the writer. -/
structure Writing (env : Environment) (config : WriterConfig)
    (may : TaskCompletions) (initial : BufferPool) (ledger : Ledger)
    (job : CompressionTask) (core : Reader) (phase : Phase)
    (writer : Writer) : Prop where
  reads : Reads job core phase
  reached : Reader.Reached env may initial ledger.reads core phase
  runs : Runs env config may.toCompletions ledger.writerPool core.delivered
    ledger.writes writer
  balanced : ledger.Balanced (untold job.calls)
  fits : config.blockSize ≤ ledger.writerPool.bufferSize
  late : phase.detecting = false
  opened : job.opening = none
  begun : core.begun ≠ []
  size : core.input.size = config.srcSize
  sectors : ∀ delivery ∈ core.delivered,
    delivery.sector.length = sectorSize
  output : job.output = writer.output
  pool : job.pool = writer.pool
  file : job.file = writer.file
  calls : writerCalls job.calls = writer.calls
  nested : Nested job.calls
  paused : core.input.paused = writer.paused
  fetching : phase.fetches = true → writer.fetching = true
  nextPos : writer.nextPos = sectorSize * core.delivered.length
  successes : job.successes = writer.notes.countP Course.isSuccessNote
  told : ∀ reason written,
    .finished false reason written ∈ writer.notes →
      .error .cannotWrite reason ∈ job.notices

section

variable {env : Environment} {config : WriterConfig}
variable {may : TaskCompletions} {initial : BufferPool}
variable {ledger : Ledger} {task : Task}
variable {job next : CompressionTask} {core core' : Reader}
variable {phase phase' : Phase} {writer writer' : Writer}

theorem Writing.failed
    (writing : Writing env config may initial ledger job core phase writer)
    {reason : String} {written : Int}
    (member : .finished false reason written ∈ writer.notes) : job.Failed :=
  ⟨_, reason, writing.told reason written member⟩

/-- There is an image that the writer is on its way to write. -/
theorem Writing.exists_run (accepted : config.Accepted env)
    (writing : Writing env config may initial ledger job core phase writer) :
    ∃ archive : Archive, archive.toWriterConfig = config ∧
      archive.env = env ∧ Supplies core.delivered archive.image := by
  refine exists_archive accepted writing.sectors ?_
  have bounded := writing.reads.track.bounded
  have least := config.srcSize_le_sourceSize
  rw [writing.size, Int.toNat_natCast] at bounded
  exact bounded.trans least

/-- What every move of a course keeps holds of the writer. -/
theorem Writing.onCourse
    (writing : Writing env config may initial ledger job core phase writer)
    {archive : Archive} (same : archive.toWriterConfig = config)
    (sameEnv : archive.env = env)
    (supplies : Supplies core.delivered archive.image)
    {property : Course → Prop} (initially : property (.start archive))
    (preserved : ∀ course next, Course.Sound archive course →
      property course → Course.Move archive may.toCompletions course next →
        property next) :
    Writer.OnCourse archive property writer := by
  subst same sameEnv
  exact (Writer.onCourse_start initially writing.fits).run preserved
    (writing.runs archive.image supplies)

theorem Writing.srcSize (accepted : config.Accepted env)
    (writing : Writing env config may initial ledger job core phase writer) :
    writer.output.srcSize = config.srcSize := by
  obtain ⟨archive, same, sameEnv, supplies⟩ := writing.exists_run accepted
  obtain ⟨_, _, follows, _⟩ := @Writing.onCourse _ _ _ _ _ _ _ _ _ writing
    archive same sameEnv supplies (fun _ => True) trivial
    (fun _ _ _ _ _ => trivial)
  rw [follows.placed.srcSize, same]

theorem Writing.room (accepted : config.Accepted env)
    (writing : Writing env config may initial ledger job core phase writer) :
    config.blockSize ≤ writer.pool.bufferSize := by
  obtain ⟨archive, same, sameEnv, supplies⟩ := writing.exists_run accepted
  obtain ⟨_, _, follows, _⟩ := @Writing.onCourse _ _ _ _ _ _ _ _ _ writing
    archive same sameEnv supplies (fun _ => True) trivial
    (fun _ _ _ _ _ => trivial)
  rw [← same]
  exact follows.room

/-- The writer keeps the size of the reader's buffers. -/
theorem Writing.bufferSize
    (writing : Writing env config may initial ledger job core phase writer)
    {event : WriterEvent} (taken : writer.step env event = some writer')
    (own : Writer.isOther event = false) (pool : next.pool = writer'.pool) :
    next.pool.bufferSize = core.pool.bufferSize := by
  rw [pool, Writer.step_bufferSize taken own, ← writing.pool,
    writing.reads.pool]

/-- The writer has taken a step. -/
theorem Writing.wrote
    (writing : Writing env config may initial ledger job core phase writer)
    {event : WriterEvent} (taken : writer.step env event = some writer')
    (allowed : ∀ image,
      Writer.Allowed config image may.toCompletions writer event)
    (continues : Continues job next) (reads : Reads next core' phase')
    {seen : List ReaderEvent} {steps : Nat}
    (reached : Reader.Reached env may initial seen core' phase')
    (balanced : Ledger.Balanced
      { ledger.write event with
        reads := seen
        steps := steps } (untold next.calls))
    (late : phase'.detecting = false)
    (kept : core'.input.size = core.input.size ∧ core'.begun = core.begun)
    (delivered : core'.delivered = core.delivered)
    (output : next.output = writer'.output)
    (pool : next.pool = writer'.pool) (file : next.file = writer'.file)
    (calls : writerCalls next.calls = writer'.calls)
    (nested : Nested next.calls)
    (paused : core'.input.paused = writer'.paused)
    (fetching : phase'.fetches = true → writer'.fetching = true)
    (nextPos : writer'.nextPos = writer.nextPos)
    (successes : next.successes =
      writer'.notes.countP Course.isSuccessNote)
    (told : ∀ reason written,
      .finished false reason written ∈ writer'.notes →
        .error .cannotWrite reason ∈ next.notices) :
    Writing env config may initial
      { ledger.write event with
        reads := seen
        steps := steps } next core' phase' writer' := by
  refine ⟨reads, reached, ?_, balanced, writing.fits, late,
    continues.opening writing.opened, ?_, ?_, ?_, output, pool, file, calls,
    nested, paused, fetching, ?_, successes, told⟩
  · rw [delivered]
    exact writing.runs.step taken
      fun image supplies => ⟨supplies, allowed image⟩
  · rw [kept.2]
    exact writing.begun
  · exact kept.1.trans writing.size
  · rw [delivered]
    exact writing.sectors
  · rw [delivered, nextPos]
    exact writing.nextPos

/-- Something else has happened, and the pool may have been used. -/
theorem Writing.other
    (accepted : config.Accepted env)
    (writing : Writing env config may initial ledger job core phase writer)
    (continues : Continues job next) (reads : Reads next core' phase')
    {seen : List ReaderEvent} {steps : Nat}
    (reached : Reader.Reached env may initial seen core' phase')
    (balanced : Ledger.Balanced
      { ledger with
        reads := seen
        steps := steps } (untold next.calls))
    (late : phase'.detecting = false)
    (kept : core'.input.size = core.input.size ∧ core'.begun = core.begun)
    (delivered : core'.delivered = core.delivered)
    (bufferSize : next.pool.bufferSize = job.pool.bufferSize)
    (output : next.output = job.output) (file : next.file = job.file)
    (calls : writerCalls next.calls = writerCalls job.calls)
    (nested : Nested next.calls)
    (paused : core'.input.paused = core.input.paused)
    (fetching : phase'.fetches = true → writer.fetching = true)
    (successes : next.successes = job.successes) :
    ∃ ledger' writer', ledger'.steps = steps ∧
      Writing env config may initial ledger' next core' phase' writer' := by
  refine ⟨_, _, ?_, writing.wrote
    (show writer.step env (.otherPool next.pool) = some _ from rfl) ?_
    continues reads reached (balanced.write _) late kept delivered
    (output.trans writing.output) rfl (file.trans writing.file)
    (calls.trans writing.calls) nested (paused.trans writing.paused)
    fetching rfl (successes.trans writing.successes) ?_⟩
  · rfl
  · intro image
    show config.blockSize ≤ next.pool.bufferSize
    rw [bufferSize, writing.pool]
    exact writing.room accepted
  · intro reason written member
    exact continues.notices _ (writing.told reason written member)

/-- The source goes on to its next sector. -/
theorem Writing.fetch
    (accepted : config.Accepted env)
    (writing : Writing env config may initial ledger job core phase writer)
    (running : core.input.paused = false)
    (resumable : Writer.resumable (writerCalls job.calls) = true)
    (more : (sectorSize * core.delivered.length : Nat) < core.input.size) :
    ∃ ledger' writer', ledger'.steps = ledger.steps ∧
      Writing env config may initial ledger' job core phase writer' ∧
        writer'.fetching = true := by
  cases fetching : writer.fetching with
  | true => exact ⟨ledger, writer, rfl, writing, fetching⟩
  | false =>
      have taken : writer.step env .fetch =
          some { writer with fetching := true } := by
        refine if_pos ⟨fetching, writing.paused.symm.trans running, ?_, ?_⟩
        · rw [← writing.calls]
          exact resumable
        · rw [writing.srcSize accepted, writing.nextPos, ← writing.size]
          exact more
      refine ⟨_, _, ?_, writing.wrote taken (fun _ => trivial)
        (.same rfl rfl) writing.reads writing.reached
        (writing.balanced.write _) writing.late ⟨rfl, rfl⟩ rfl writing.output
        writing.pool writing.file writing.calls writing.nested
        writing.paused (fun _ => rfl) rfl writing.successes writing.told,
        rfl⟩
      rfl

/-- The reader goes on by itself. -/
theorem Writing.read
    (accepted : config.Accepted env)
    (writing : Writing env config may initial ledger job core phase writer)
    {event : ReaderEvent} (own : event = .run ∨ event = .complete 0)
    (move : Move Input.fetchCached env core phase event core' phase')
    (completes : ∀ request, event = .complete 0 →
      phase = .waiting request →
        may.completed (core.enter phase).input core.pool request)
    (delivered : core'.delivered = core.delivered)
    (continues : Continues job next) (reads : Reads next core' phase')
    (resumable : Writer.resumable (writerCalls job.calls) = true)
    (output : next.output = job.output) (file : next.file = job.file)
    (calls : writerCalls next.calls = writerCalls job.calls)
    (told : untold next.calls ≤ untold job.calls)
    (nested : Nested next.calls)
    (successes : next.successes = job.successes) :
    ∃ ledger' writer', ledger'.steps = ledger.steps + 1 ∧
      Writing env config may initial ledger' next core' phase' writer' := by
  have keeps : (core.enter phase).KeepsPool event := by
    rcases own with same | same
    · rw [same]
      trivial
    · rw [same]
      trivial
  obtain ⟨found, bufferSize, begun, late⟩ :=
    Reader.found_move writing.late keeps move
  have size : core'.input.size = core.input.size := by
    show core'.input.found.size = core.input.found.size
    rw [found]
  have room : next.pool.bufferSize = job.pool.bufferSize := by
    rw [reads.pool, writing.reads.pool]
    exact bufferSize
  have paused := Reader.paused_move writing.reads.track move own
  have ready : ∃ ledger' writer', ledger'.steps = ledger.steps ∧
      Writing env config may initial ledger' job core phase writer' ∧
      (phase'.fetches = true → writer'.fetching = true) := by
    cases goes : phase'.fetches with
    | false =>
        refine ⟨ledger, writer, rfl, writing, ?_⟩
        intro same
        cases same
    | true =>
        rcases Reader.fetches_move writing.reads.track writing.late move
          goes with before | ⟨running, more⟩
        · exact ⟨ledger, writer, rfl, writing,
            fun _ => writing.fetching before⟩
        · rw [delivered] at more
          obtain ⟨ledger', writer', steps, writing', fetching⟩ :=
            writing.fetch accepted running resumable more
          exact ⟨ledger', writer', steps, writing', fun _ => fetching⟩
  obtain ⟨ledger', writer', steps, writing', fetching⟩ := ready
  rw [← steps]
  exact writing'.other accepted continues reads
    (writing'.reached.own writing.reads.known own move completes)
    (writing'.balanced.reads own told) late ⟨size, begun⟩ delivered room
    output file calls nested paused fetching successes

theorem successes_notify {notice : Notice} (other : isSuccess notice = false) :
    (job.notify notice).successes = job.successes := by
  rw [successes, notify, List.countP_append, List.countP_singleton, other]
  rfl

/-- A sector is passed on to `Enqueue`. -/
theorem Writing.callback
    (writing : Writing env config may initial ledger job core phase writer)
    {pos : Int} {sector : Buffer} {supplied : Nat} {rest : List TaskCall}
    (calls : job.calls = .input (.callback pos sector supplied) :: rest) :
    ∃ ledger' core' phase' writer', ledger'.steps = ledger.steps + 1 ∧
      Writing env config may initial ledger'
        (job.runInput env task (.callback pos sector supplied) rest)
        core' phase' writer' := by
  have continues := @continues_runCall env task job
    (.input (.callback pos sector supplied)) rest
  obtain ⟨position, fetches, _, phase', move, unfetching, late, again⟩ :=
    @Reads.callback env job
      (job.runInput env task (.callback pos sector supplied) rest) core
      phase writing.reads pos sector supplied rest calls rfl
      (inputCalls_outputs _) continues.failed
  have nested := writing.nested
  rw [calls] at nested
  have due := writing.calls
  rw [calls, writerCalls_input] at due
  have able : writer.fetching = true ∧
      Writer.resumable writer.calls = true := by
    refine ⟨writing.fetching fetches, ?_⟩
    rw [← due]
    exact nested.resumable
  have place : pos = (writer.nextPos : Int) := by
    rw [position, writing.nextPos]
  have taken : writer.step env (.enqueue sector) =
      some (writer.enqueue env sector) := if_pos able
  have result : job.output.enqueue env job.pool pos sector =
      writer.output.enqueue env writer.pool writer.nextPos sector := by
    rw [writing.output, writing.pool, place]
  have runs : Runs env config may.toCompletions ledger.writerPool
      (core.deliver pos sector supplied).delivered
      (ledger.writes ++ [.enqueue sector]) (writer.enqueue env sector) := by
    refine writing.runs.step taken fun image supplies => ?_
    refine ⟨Supplies.earlier supplies, ?_⟩
    have last := Supplies.last supplies
    rw [← writing.nextPos] at last
    show FlatMemory.read sector.memory 0 sectorSize =
      pread image writer.nextPos sectorSize
    rw [last]
  have sectors : ∀ delivery ∈ (core.deliver pos sector supplied).delivered,
      delivery.sector.length = sectorSize := by
    intro delivery member
    rcases List.mem_append.mp member with before | last
    · exact writing.sectors delivery before
    · rw [List.mem_singleton.mp last]
      simp only [FlatMemory.length_read]
  have nextPos : (writer.enqueue env sector).nextPos =
      sectorSize * (core.deliver pos sector supplied).delivered.length := by
    show writer.nextPos + sectorSize = _
    rw [writing.nextPos, Reader.deliver, List.length_append,
      List.length_singleton, Nat.mul_add, Nat.mul_one]
  have passed := writing.reached.run writing.reads.known move
  have known := Reader.known_of_move writing.reads.known move
  have bufferSize : (job.output.enqueue env job.pool pos
      sector).pool.bufferSize = core.pool.bufferSize := by
    rw [(Output.enqueue_keeps env pos sector).bufferSize,
      writing.reads.pool]
  have reached := passed.otherPool known fun _ => bufferSize
  have told : untold ((job.output.enqueue env job.pool pos
      sector).calls.map .output ++ .checkQueue :: rest) ≤
        untold job.calls := by
    rw [untold_outputs, untold_checkQueue, calls, untold_input]
  have paid := (writing.balanced.reads (Or.inl rfl) told).read
    (show (ReaderEvent.otherPool (job.output.enqueue env job.pool pos
      sector).pool).credit = 0 from rfl)
  have balanced := paid.write (.enqueue sector)
  refine ⟨_, _, phase', writer.enqueue env sector, ?_, again, reached, runs,
    balanced, writing.fits, late, continues.opening writing.opened,
    writing.begun, writing.size, sectors,
    ?_, ?_, writing.file, ?_, ?_, writing.paused, ?_,
    nextPos, writing.successes, ?_⟩
  · rfl
  · exact congrArg OutputResult.output result
  · exact congrArg OutputResult.pool result
  · show writerCalls ((job.output.enqueue env job.pool pos sector).calls.map
      .output ++ .checkQueue :: rest) = _
    rw [writerCalls_outputs, writerCalls_checkQueue, due, result]
    rfl
  · obtain ⟨next, others, same⟩ := nested.returns
    refine Nested.outputs ?_ _
    have inner := nested.tail
    rw [same] at inner ⊢
    exact .check inner
  · intro fetching
    rw [unfetching] at fetching
    cases fetching
  · intro reason written member
    exact continues.notices _ (writing.told reason written member)

/-- A call of the reader. -/
theorem Writing.runInput
    (accepted : config.Accepted env)
    (writing : Writing env config may initial ledger job core phase writer)
    {call : InputCall} {rest : List TaskCall}
    (calls : job.calls = .input call :: rest) :
    ∃ ledger' core' phase' writer', ledger'.steps = ledger.steps + 1 ∧
      Writing env config may initial ledger' (job.runInput env task call rest)
        core' phase' writer' := by
  have continues := @continues_runCall env task job (.input call) rest
  have nested := writing.nested
  rw [calls] at nested
  have resumable := nested.resumable
  have due : writerCalls job.calls = writerCalls rest := by
    rw [calls, writerCalls_input]
  have told : untold rest ≤ untold job.calls := by
    rw [calls, untold_input]
  have own : ∀ {result : InputResult},
      job.input.runOwn env job.pool call = some result →
        ∃ ledger' core' phase' writer', ledger'.steps = ledger.steps + 1 ∧
          Writing env config may initial ledger'
            (job.continueInput result rest) core' phase' writer' := by
    intro result same
    obtain ⟨_, alone, core', phase', move, delivered, _, again⟩ :=
      @Reads.own env job (job.continueInput result rest) core phase
        writing.reads call rest result calls same rfl rfl inputCalls_inputs id
    have pushed : result.calls = phase'.calls := by
      have after := again.calls
      rw [continueInput, inputCalls_inputs, alone, List.append_nil] at after
      exact after
    have running : ∀ request, ReaderEvent.run = .complete 0 →
        phase = .waiting request →
          may.completed (core.enter phase).input core.pool request := by
      intro request other
      cases other
    obtain ⟨ledger', writer', steps, writing'⟩ := writing.read accepted
      (Or.inl rfl) move running delivered
      (@Continues.same job (job.continueInput result rest) rfl rfl) again
      (by rw [due]; exact resumable) rfl rfl
      ((writerCalls_inputs _).trans due.symm)
      ((untold_inputs _).trans_le told)
      (by
        rw [continueInput, pushed]
        exact nested.tail.phase resumable phase')
      rfl
    exact ⟨ledger', core', phase', writer', steps, writing'⟩
  cases call with
  | readSector | rawDelivered | subBlock | subDelivered => exact own rfl
  | callback pos sector supplied => exact writing.callback calls
  | begin size =>
      have late := writing.late
      rw [(writing.reads.begin calls).1] at late
      cases late
  | finish success reason =>
      have failed : success = false →
          (job.runInput env task (.finish success reason) rest).Failed := by
        intro failure
        subst failure
        exact ⟨_, reason, List.mem_append_right _
          (List.mem_singleton_self _)⟩
      have same : (job.runInput env task (.finish success reason)
          rest).successes = job.successes := by
        cases success with
        | true => rfl
        | false => exact @successes_notify { job with calls := rest } _ rfl
      cases success with
      | false | true =>
          obtain ⟨finishes, again⟩ := @Reads.finish job
            (job.runInput env task (.finish _ reason) rest) core phase
            writing.reads _ reason rest calls rfl rfl rfl continues.failed
            failed
          subst finishes
          have reached := writing.reached.run writing.reads.known
            (.finish core _ reason)
          have balanced := writing.balanced.reads (Or.inl rfl) told
          obtain ⟨ledger', writer', steps, writing'⟩ := writing.other
            accepted continues again reached balanced rfl ⟨rfl, rfl⟩ rfl rfl
            rfl rfl due.symm nested.tail rfl
            (fun fetches => absurd fetches Bool.false_ne_true) same
          exact ⟨ledger', _, _, writer', steps, writing'⟩

/-- The callback for progress is followed by the rest of
`HandleWrittenSectors`, where the reader may be resumed. -/
theorem Writing.resumable_of_progress
    (accepted : config.Accepted env)
    (writing : Writing env config may initial ledger job core phase writer)
    {pos total written : Int} {rest : List TaskCall}
    (calls : job.calls = .output (.progress pos total written) :: rest)
    (idle : inputCalls rest = []) :
    Writer.resumable (writerCalls rest) = true := by
  obtain ⟨archive, same, sameEnv, supplies⟩ := writing.exists_run accepted
  obtain ⟨_, _, _, _, paired⟩ := @Writing.onCourse _ _ _ _ _ _ _ _ _ writing
    archive same sameEnv supplies (fun course => Course.Paired course.calls)
    .nil (fun _ _ _ paired move => paired.move move)
  have due : writer.calls =
      .output (.progress pos total written) :: writerCalls rest := by
    rw [← writing.calls, calls, writerCalls_output]
  have paired' : Course.Paired writer.calls := paired
  rw [due] at paired'
  obtain ⟨nextPos, others, follows⟩ := paired'.follows
  have nested := writing.nested
  rw [calls] at nested
  have unchecked := nested.tail.checks idle
  rw [follows] at unchecked ⊢
  have none : others.any Writer.isCheckQueue = false := by
    rw [List.any_eq_false]
    intro call member
    cases call with
    | checkQueue => exact absurd (List.mem_cons_of_mem _ member) unchecked
    | output call => exact Bool.false_ne_true
  show (!others.any Writer.isCheckQueue) = true
  rw [none]
  rfl

/-- The reader is resumed. -/
theorem Writing.progress
    (accepted : config.Accepted env)
    (writing : Writing env config may initial ledger job core phase writer)
    {pos total written : Int} {rest : List TaskCall}
    (calls : job.calls = .output (.progress pos total written) :: rest) :
    ∃ ledger' core' phase' writer', ledger'.steps = ledger.steps + 1 ∧
      Writing env config may initial ledger'
        (job.runOutput env (.progress pos total written) rest)
        core' phase' writer' := by
  have inputs : inputCalls rest = inputCalls job.calls := by
    rw [calls, inputCalls_output]
  have due : writer.calls =
      .output (.progress pos total written) :: writerCalls rest := by
    rw [← writing.calls, calls, writerCalls_output]
  have taken : writer.step env .run = some
      { writer with
        calls := writerCalls rest
        paused := false
        notes := writer.notes ++ [.progressed pos total written] } := by
    rw [Writer.step, due]
    rfl
  have nested := writing.nested
  rw [calls] at nested
  have inner : Nested (.progressed pos total written :: rest) :=
    .other rfl nested.tail
  obtain ⟨phase', goes, again⟩ := @Reads.resume job
    (job.runOutput env (.progress pos total written) rest) core phase
    writing.reads rfl
    (inputCalls_inputs.trans (congrArg (_ ++ ·) inputs)) id
  have unparked : phase' ≠ .parked :=
    fun same => absurd (again.orderly.parked same) Bool.false_ne_true
  have reached := @Reader.Reached.resume env may initial job.pool
    ledger.reads core phase phase' writing.reached writing.reads.known goes
    unparked (fun _ => congrArg BufferPool.bufferSize writing.reads.pool)
  have told : untold (job.input.resume.2.map .input ++
      .progressed pos total written :: rest) ≤ untold job.calls + 1 := by
    rw [untold_inputs, untold_progressed, calls, untold_output]
  have paid := writing.balanced.resumes
    (show Writer.isOther .run = false from rfl) told
  have balanced := paid.read
    (show (ReaderEvent.otherPool job.pool).credit = 0 from rfl)
  have pushed : job.input.resume.2 ++ inputCalls rest = phase'.calls := by
    have after := again.calls
    rwa [runOutput, inputCalls_inputs, inputCalls_progressed] at after
  have nested' : Nested (job.input.resume.2.map .input ++
      .progressed pos total written :: rest) := by
    rcases goes with same | ⟨parked, reading⟩
    · have before := writing.reads.calls
      rw [← inputs, ← same, ← pushed] at before
      rw [List.self_eq_append_left.mp before]
      exact inner
    · have idle := writing.reads.calls
      rw [← inputs, parked] at idle
      have pushed' : job.input.resume.2 = phase'.calls := by
        rw [← pushed, idle]
        exact (List.append_nil _).symm
      have resumable :=
        writing.resumable_of_progress accepted calls idle
      rw [pushed']
      exact inner.phase resumable phase'
  have late : phase'.detecting = false := by
    rcases goes with same | ⟨_, reading⟩
    · rw [same]
      exact writing.late
    · rw [reading]
      rfl
  have fetching : phase'.fetches = true → writer.fetching = true := by
    rcases goes with same | ⟨_, reading⟩
    · rw [same]
      exact writing.fetching
    · rw [reading]
      intro fetches
      cases fetches
  refine ⟨_, _, phase', _, ?_, writing.wrote taken (fun _ => trivial)
    (@Continues.same job
      (job.runOutput env (.progress pos total written) rest) rfl rfl)
    again reached balanced late ⟨rfl, rfl⟩ rfl writing.output writing.pool
    writing.file ?_ nested' rfl fetching rfl ?_ ?_⟩
  · rfl
  · exact (writerCalls_inputs _).trans (writerCalls_progressed _ _ _)
  · rw [List.countP_append]
    exact writing.successes
  · intro reason total member
    rcases List.mem_append.mp member with before | last
    · exact writing.told reason total before
    · cases List.mem_singleton.mp last

/-- A call of the writer. -/
theorem Writing.runOutput
    (accepted : config.Accepted env)
    (writing : Writing env config may initial ledger job core phase writer)
    {call : OutputCall} {rest : List TaskCall}
    (calls : job.calls = .output call :: rest) :
    ∃ ledger' core' phase' writer', ledger'.steps = ledger.steps + 1 ∧
      Writing env config may initial ledger' (job.runOutput env call rest)
        core' phase' writer' := by
  have inputs : inputCalls rest = inputCalls job.calls := by
    rw [calls, inputCalls_output]
  have due : writer.calls = .output call :: writerCalls rest := by
    rw [← writing.calls, calls, writerCalls_output]
  have nested := writing.nested
  rw [calls] at nested
  have told : untold rest ≤ untold job.calls + 1 := by
    rw [calls, untold_output]
    exact Nat.le_succ _
  have taken : writer.step env .run =
      some (writer.runCall env (.output call) (writerCalls rest)) := by
    rw [Writer.step, due]
  have paid := @Ledger.Balanced.writes ledger _ _ writing.balanced .run rfl
    told
  have wrote : ∀ {result : OutputResult},
      writer.step env .run =
          some (writer.continueWith result (writerCalls rest)) →
        ∃ ledger' core' phase' writer', ledger'.steps = ledger.steps + 1 ∧
          Writing env config may initial ledger'
            (job.continueOutput result rest) core' phase' writer' := by
    intro result taken
    have kept : result.pool.bufferSize = core.pool.bufferSize :=
      @Writing.bufferSize _ _ _ _ _ _ (job.continueOutput result rest) _ _ _
        _ writing .run taken rfl rfl
    have reached := writing.reached.otherPool writing.reads.known
      fun _ => kept
    have balanced : (((ledger.write .run).tick).read
        (.otherPool result.pool)).Balanced
          (untold (result.calls.map .output ++ rest)) := by
      rw [untold_outputs]
      exact paid.read rfl
    refine ⟨_, _, phase, _, ?_, writing.wrote taken (fun _ => trivial)
      (@Continues.same job (job.continueOutput result rest) rfl rfl)
      (writing.reads.other rfl ((inputCalls_outputs _).trans inputs) id)
      reached balanced writing.late ⟨rfl, rfl⟩ rfl rfl rfl writing.file
      (writerCalls_outputs _) (nested.tail.outputs _) writing.paused
      writing.fetching rfl writing.successes writing.told⟩
    rfl
  cases call with
  | pad | sectorReady | afterProgress =>
      rw [CompressionTask.runOutput, writing.output, writing.pool]
      exact wrote taken
  | progress pos total written => exact writing.progress accepted calls
  | finish success reason =>
      have continues : Continues job
          (job.runOutput env (.finish success reason) rest) := by
        cases success with
        | false => exact .notify _ rfl rfl
        | true => exact .notify _ rfl rfl
      have kept : job.pool.bufferSize = core.pool.bufferSize :=
        congrArg BufferPool.bufferSize writing.reads.pool
      cases success with
      | false =>
          have reached := writing.reached.pause writing.reads.known
            fun _ => kept
          have balanced := (paid.read
            (show ReaderEvent.pause.credit = 0 from rfl)).read
              (show (ReaderEvent.otherPool job.pool).credit = 0 from rfl)
          refine ⟨_, _, phase, _, ?_, writing.wrote taken
            (fun _ => trivial) continues
            (writing.reads.pause rfl inputs continues.failed) reached
            balanced writing.late ⟨rfl, rfl⟩ rfl writing.output writing.pool
            writing.file rfl nested.tail (Bool.or_true _).symm
            writing.fetching rfl ?_ ?_⟩
          · rfl
          · refine Eq.trans (@successes_notify
              { job with
                input := job.input.pause
                calls := rest } _ rfl) ?_
            show job.successes = List.countP _ (writer.notes ++ _)
            rw [List.countP_append]
            exact writing.successes
          · intro other written member
            rcases List.mem_append.mp member with before | last
            · exact continues.notices _
                (writing.told other written before)
            · cases List.mem_singleton.mp last
              exact List.mem_append_right _ (List.mem_singleton_self _)
      | true =>
          have reached := writing.reached.otherPool writing.reads.known
            fun _ => kept
          have balanced := paid.read
            (show (ReaderEvent.otherPool job.pool).credit = 0 from rfl)
          refine ⟨_, _, phase, _, ?_, writing.wrote taken
            (fun _ => trivial) continues
            (writing.reads.other rfl inputs continues.failed) reached
            balanced writing.late ⟨rfl, rfl⟩ rfl writing.output writing.pool
            writing.file rfl nested.tail
            (writing.paused.trans (Bool.or_false _).symm) writing.fetching
            rfl ?_ ?_⟩
          · rfl
          · show List.countP _ (job.notices ++ _) =
              List.countP _ (writer.notes ++ _)
            rw [List.countP_append, List.countP_append]
            exact congrArg (· + 1) writing.successes
          · intro other written member
            rcases List.mem_append.mp member with before | last
            · exact continues.notices _
                (writing.told other written before)
            · cases List.mem_singleton.mp last

/-- The owner looks at the queue. -/
theorem Writing.checkQueue
    (writing : Writing env config may initial ledger job core phase writer)
    {rest : List TaskCall} (calls : job.calls = .checkQueue :: rest) :
    ∃ ledger' core' phase' writer', ledger'.steps = ledger.steps + 1 ∧
      Writing env config may initial ledger'
        (job.runCall env task .checkQueue rest) core' phase' writer' := by
  have continues := @continues_runCall env task job .checkQueue rest
  have nested := writing.nested
  rw [calls] at nested
  have inputs : inputCalls rest = inputCalls job.calls := by
    rw [calls, inputCalls_checkQueue]
  have due : writer.calls = .checkQueue :: writerCalls rest := by
    rw [← writing.calls, calls, writerCalls_checkQueue]
  have taken : writer.step env .run =
      some (writer.runCall env .checkQueue (writerCalls rest)) := by
    rw [Writer.step, due]
  have queue : job.output.queueFull = writer.output.queueFull := by
    rw [writing.output]
  have told : untold rest ≤ untold job.calls + 1 := by
    rw [calls, untold_checkQueue]
    exact Nat.le_succ _
  have paid := @Ledger.Balanced.writes ledger _ _ writing.balanced .run rfl
    told
  have kept : job.pool.bufferSize = core.pool.bufferSize :=
    congrArg BufferPool.bufferSize writing.reads.pool
  unfold CompressionTask.runCall at continues ⊢
  cases full : job.output.queueFull with
  | true =>
      rw [full, if_pos rfl] at continues
      rw [if_pos rfl]
      have reached := writing.reached.pause writing.reads.known
        fun _ => kept
      have balanced := (paid.read
        (show ReaderEvent.pause.credit = 0 from rfl)).read
          (show (ReaderEvent.otherPool job.pool).credit = 0 from rfl)
      refine ⟨_, _, phase, _, ?_, writing.wrote taken (fun _ => trivial)
        continues (writing.reads.pause rfl inputs continues.failed) reached
        balanced writing.late ⟨rfl, rfl⟩ rfl writing.output writing.pool
        writing.file rfl nested.tail ?_ writing.fetching rfl
        writing.successes writing.told⟩
      · rfl
      · show true = (writer.paused || writer.output.queueFull)
        rw [← queue, full, Bool.or_true]
  | false =>
      rw [full, if_neg Bool.false_ne_true] at continues
      rw [if_neg Bool.false_ne_true]
      have reached := writing.reached.otherPool writing.reads.known
        fun _ => kept
      have balanced := paid.read
        (show (ReaderEvent.otherPool job.pool).credit = 0 from rfl)
      refine ⟨_, _, phase, _, ?_, writing.wrote taken (fun _ => trivial)
        continues (writing.reads.other rfl inputs continues.failed) reached
        balanced writing.late ⟨rfl, rfl⟩ rfl writing.output writing.pool
        writing.file rfl nested.tail ?_ writing.fetching rfl
        writing.successes writing.told⟩
      · rfl
      · show core.input.paused = (writer.paused || writer.output.queueFull)
        rw [← queue, full, Bool.or_false]
        exact writing.paused

theorem Writing.runCall
    (accepted : config.Accepted env)
    (writing : Writing env config may initial ledger job core phase writer)
    {call : TaskCall} {rest : List TaskCall}
    (calls : job.calls = call :: rest) :
    ∃ ledger' core' phase' writer', ledger'.steps = ledger.steps + 1 ∧
      Writing env config may initial ledger' (job.runCall env task call rest)
        core' phase' writer' := by
  have continues := @continues_runCall env task job call rest
  have nested := writing.nested
  rw [calls] at nested
  have tells : ∀ {notice : Notice} {size : Int}, isSuccess notice = false →
      inputCalls rest = inputCalls job.calls →
        writerCalls rest = writerCalls job.calls →
          untold rest + 1 ≤ untold job.calls →
            Continues job
                ({ job with
                  size := size
                  calls := rest }.notify notice) →
              ∃ ledger' core' phase' writer',
                ledger'.steps = ledger.steps + 1 ∧
                Writing env config may initial ledger'
                  ({ job with
                    size := size
                    calls := rest }.notify notice) core' phase' writer' := by
    intro notice size other inputs outputs told continues
    have same := @successes_notify
      { job with
        size := size
        calls := rest } _ other
    have reached := @Reader.Reached.otherPool env may initial job.pool
      ledger.reads core phase writing.reached writing.reads.known
      (fun _ => congrArg BufferPool.bufferSize writing.reads.pool)
    have balanced := (writing.balanced.tells told).read
      (show (ReaderEvent.otherPool job.pool).credit = 0 from rfl)
    obtain ⟨ledger', writer', steps, writing'⟩ := writing.other accepted
      continues (writing.reads.other rfl inputs continues.failed) reached
      balanced writing.late ⟨rfl, rfl⟩ rfl rfl rfl rfl outputs nested.tail rfl
      writing.fetching same
    exact ⟨ledger', _, phase, writer', steps, writing'⟩
  cases call with
  | input call => exact writing.runInput accepted calls
  | output call => exact writing.runOutput accepted calls
  | begun size =>
      refine tells rfl ?_ ?_ ?_ continues
      · rw [calls, inputCalls_begun]
      · rw [calls, writerCalls_begun]
      · rw [calls, untold_begun]
  | progressed pos total written =>
      refine @tells _ job.size rfl ?_ ?_ ?_ continues
      · rw [calls, inputCalls_progressed]
      · rw [calls, writerCalls_progressed]
      · rw [calls, untold_progressed]
  | checkQueue => exact writing.checkQueue calls

/-- Every step of the task is one of the reader, of the writer or of both, or
tells the owner something. -/
theorem Writing.step
    (accepted : config.Accepted env)
    (writing : Writing env config may initial ledger job core phase writer)
    {event : TaskEvent} (allowed : Allowed may job event)
    (taken : job.step env task event = some next) :
    ∃ ledger' core' phase' writer', ledger'.steps = ledger.steps + 1 ∧
      Writing env config may initial ledger' next core' phase' writer' := by
  have continues := continues_step taken
  have quietly : job.calls = [] → writer.calls = [] := by
    intro quiet
    rw [← writing.calls, quiet]
    rfl
  have wrote : ∀ {event : WriterEvent} {result : OutputResult}
      {file : Bytes} {notes : List WriterNote},
      job.calls = [] → Writer.isOther event = false →
        (∀ image,
          Writer.Allowed config image may.toCompletions writer event) →
          writer.step env event =
              some
                { writer.continueWith result [] with
                  file := file
                  notes := writer.notes ++ notes } →
            (∀ note ∈ notes, Course.isSuccessNote note = false ∧
              ∀ reason written, note ≠ .finished false reason written) →
              ∃ ledger' core' phase' writer',
                ledger'.steps = ledger.steps + 1 ∧
                Writing env config may initial ledger'
                  { job.continueOutput result [] with file := file }
                  core' phase' writer' := by
    intro event result file notes quiet own allowed took plain
    have kept : result.pool.bufferSize = core.pool.bufferSize :=
      @Writing.bufferSize _ _ _ _ _ _ (job.continueOutput result []) _ _ _
        _ writing event took own rfl
    have reached := writing.reached.otherPool writing.reads.known
      fun _ => kept
    have told : untold (result.calls.map .output ++ []) ≤
        untold job.calls + 1 := by
      rw [untold_outputs]
      exact Nat.zero_le _
    have balanced := (writing.balanced.writes own told).read
      (show (ReaderEvent.otherPool result.pool).credit = 0 from rfl)
    refine ⟨_, _, phase, _, ?_, writing.wrote took allowed
      (@Continues.same job
        { job.continueOutput result [] with file := file } rfl rfl)
      (writing.reads.other rfl ?_ id) reached balanced writing.late ⟨rfl, rfl⟩ rfl
      rfl rfl rfl (writerCalls_outputs _) (Nested.nil.outputs _)
      writing.paused writing.fetching rfl ?_ ?_⟩
    · rfl
    · rw [quiet]
      exact inputCalls_outputs _
    · show job.successes = List.countP _ (writer.notes ++ notes)
      have none : notes.countP Course.isSuccessNote = 0 := by
        rw [List.countP_eq_zero]
        intro note member success
        rw [(plain note member).1] at success
        cases success
      rw [List.countP_append, none]
      exact writing.successes
    · intro reason written member
      rcases List.mem_append.mp member with before | last
      · exact writing.told reason written before
      · exact absurd rfl ((plain _ last).2 reason written)
  cases event with
  | run =>
      obtain ⟨call, rest, calls, rfl⟩ := step_run taken
      exact writing.runCall accepted calls
  | opened success =>
      obtain ⟨opening, _, waiting, _⟩ := step_opened taken
      rw [writing.opened] at waiting
      cases waiting
  | completed position =>
      obtain ⟨request, quiet, found, same⟩ := step_completed taken
      obtain ⟨waiting, core', phase', move, delivered, _, again⟩ :=
        @Reads.complete env job next core phase writing.reads quiet position
          request found _ rfl (congrArg CompressionTask.input same)
          (congrArg CompressionTask.pool same)
          (same ▸ inputCalls_inputs.trans (List.append_nil _))
          continues.failed
      subst same
      have pushed := again.calls
      rw [continueInput, inputCalls_inputs] at pushed
      have pushed' := (List.append_nil _).symm.trans pushed
      have completes : ∀ other, ReaderEvent.complete 0 = .complete 0 →
          phase = .waiting other →
            may.completed (core.enter phase).input core.pool other := by
        intro other _ same
        obtain rfl := Phase.waiting.inj (waiting.symm.trans same)
        rw [← writing.reads.input, ← writing.reads.pool]
        exact allowed request found
      obtain ⟨ledger', writer', steps, writing'⟩ := writing.read accepted
        (Or.inr rfl) move completes delivered continues again
        (by rw [quiet]; rfl) rfl rfl
        ((writerCalls_inputs _).trans (by rw [quiet]))
        ((untold_inputs _).trans_le (Nat.zero_le _)) (by
          rw [continueInput, pushed']
          exact Nested.nil.phase rfl phase') rfl
      exact ⟨ledger', core', phase', writer', steps, writing'⟩
  | compressed position status =>
      obtain ⟨queued, quiet, found, rfl⟩ := step_compressed taken
      rw [writing.output] at found
      refine @wrote (.compressed position status) _ job.file [] quiet rfl
        (fun _ => allowed) ?_ ?_
      · rw [Writer.step, quietly quiet, found, writing.output, writing.pool,
          writing.file, List.append_nil]
        rfl
      · intro note member
        cases member
  | dataWritten position result =>
      obtain ⟨write, quiet, found, rfl⟩ := step_dataWritten taken
      rw [Allowed, writing.output] at allowed
      rw [writing.output] at found
      refine @wrote (.dataWritten position result) _ _
        [.wroteData write.offset (Writer.writtenPart write.data result)]
        quiet rfl (fun _ => allowed) ?_ ?_
      · rw [Writer.step, quietly quiet, found, writing.output, writing.pool,
          writing.file]
      · intro note member
        rw [List.mem_singleton.mp member]
        exact ⟨rfl, fun _ _ => WriterNote.noConfusion⟩
  | indexWritten position result =>
      obtain ⟨write, quiet, found, rfl⟩ := step_indexWritten taken
      rw [Allowed, writing.output] at allowed
      rw [writing.output] at found
      refine @wrote (.indexWritten position result) _ _
        [.wroteIndex (Writer.writtenPart write.data result)]
        quiet rfl (fun _ => allowed) ?_ ?_
      · rw [Writer.step, quietly quiet, found, writing.output, writing.pool,
          writing.file]
      · intro note member
        rw [List.mem_singleton.mp member]
        exact ⟨rfl, fun _ _ => WriterNote.noConfusion⟩

end

end CompressionTask

end Maxcso
