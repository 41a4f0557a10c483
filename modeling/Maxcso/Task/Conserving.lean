import Maxcso.Task.Reporting
import Maxcso.Writer.Reasons
import Maxcso.Writer.Reports

/-!
# Tasks that follow each other

Whether a task fails or not, it returns all of its buffers when it is
destroyed, so that the next one runs as if it had been run alone.  It does not
when a sector object has been lost, which is told of, or a block that has been
decompressed has been forgotten.
-/

namespace Maxcso

open Transition

namespace CompressionTask

/-- The step does not leave a sector object outside of all containers, and
forgets no block. -/
structure Returns (env : Environment) (job : CompressionTask)
    (event : TaskEvent) : Prop where
  enters : ∀ call rest, event = .run → job.calls = .output call :: rest →
    ∀ id ∈ job.output.due call, job.output.Enters id
  compresses : ∀ position status, event = .compressed position status →
    job.output.blockSize = sectorSize → 0 ≤ status
  delivers : ∀ position request, event = .completed position →
    job.input.inFlight[position]? = some request →
      ¬ Input.Forgets env job.input job.pool request

/-- The writer reports this failure, or has reported it. -/
def Mentions (job : CompressionTask) (reason : String) : Prop :=
  .output (.finish false reason) ∈ job.calls ∨
    .error .cannotWrite reason ∈ job.notices

/-- What is reported when a sector object is lost.  While a larger block is
compressed it is in `partialSectors_`. -/
def Losing (blockSize : Nat) (reason : String) : Prop :=
  (∃ fmt format, Output.refusal fmt format = some reason) ∨
    (blockSize = sectorSize ∧ reason = Course.uncompressed)

/-- No sector object has been lost. -/
def Discreet (job : CompressionTask) : Prop :=
  ∀ reason, Losing job.output.blockSize reason → ¬ job.Mentions reason

section

variable {env : Environment} {task : Task} {may : TaskCompletions}
variable {initial pool last : BufferPool} {ledger : Ledger}
variable {job next : CompressionTask} {core : Reader} {phase : Phase}
variable {config : WriterConfig} {writer : Writer}
variable {events : List TaskEvent} {event : TaskEvent}
variable {rest : List TaskCall} {reason : String} {others : Multiset Nat}

/-! ## Sector objects -/

theorem not_losing_of_plain {blockSize : Nat}
    (plain : reason ∈ Output.plainReasons) : ¬ Losing blockSize reason := by
  intro losing
  unfold Output.plainReasons at plain
  rcases losing with ⟨fmt, format, refused⟩ | ⟨_, same⟩
  · unfold Output.refusal at refused
    split at refused
    all_goals first
      | cases refused
        simp at plain
      | cases refused
  · unfold Course.uncompressed at same
    rw [same] at plain
    simp at plain

/-- What the step tells was told before, or is about something else. -/
theorem Discreet.carry (discreet : Discreet job)
    (blockSize : next.output.blockSize = job.output.blockSize)
    (calls : ∀ reason, .output (.finish false reason) ∈ next.calls →
      .output (.finish false reason) ∈ job.calls ∨
        ¬ Losing job.output.blockSize reason)
    (notices : ∀ reason, .error .cannotWrite reason ∈ next.notices →
      job.Mentions reason) : Discreet next := by
  intro reason losing mentions
  rw [blockSize] at losing
  rcases mentions with due | told
  · rcases calls reason due with before | other
    · exact discreet reason losing (Or.inl before)
    · exact other losing
  · exact discreet reason losing (notices reason told)

/-- A function of the reader. -/
theorem Discreet.inputs (discreet : Discreet job) {own : List InputCall}
    (output : next.output = job.output)
    (calls : next.calls = own.map .input ++ rest)
    (kept : ∀ call ∈ rest, call ∈ job.calls)
    (notices : next.notices = job.notices) : Discreet next := by
  refine discreet.carry (congrArg Output.blockSize output) ?_ ?_
  · intro reason due
    rw [calls] at due
    rcases List.mem_append.mp due with pushed | before
    · obtain ⟨_, _, same⟩ := List.mem_map.mp pushed
      cases same
    · exact Or.inl (kept _ before)
  · intro reason told
    rw [notices] at told
    exact Or.inr told

/-- A function of the writer. -/
theorem Discreet.outputs (discreet : Discreet job) {own : List OutputCall}
    (plain : ∀ reason, .finish false reason ∈ own →
      ¬ Losing job.output.blockSize reason)
    (blockSize : next.output.blockSize = job.output.blockSize)
    (calls : next.calls = own.map .output ++ rest)
    (kept : ∀ reason, .output (.finish false reason) ∈ rest →
      .output (.finish false reason) ∈ job.calls)
    (notices : next.notices = job.notices) : Discreet next := by
  refine discreet.carry blockSize ?_ ?_
  · intro reason due
    rw [calls] at due
    rcases List.mem_append.mp due with pushed | before
    · obtain ⟨call, member, same⟩ := List.mem_map.mp pushed
      cases same
      exact Or.inr (plain reason member)
    · exact Or.inl (kept reason before)
  · intro reason told
    rw [notices] at told
    exact Or.inr told

/-- A call that tells the owner something. -/
theorem Discreet.tells (discreet : Discreet job) {call : TaskCall}
    (calls : job.calls = call :: rest) {notice : Notice}
    (output : next.output = job.output) (left : next.calls = rest)
    (notices : next.notices = job.notices ++ [notice])
    (told : ∀ reason, notice = .error .cannotWrite reason →
      call = .output (.finish false reason)) : Discreet next := by
  refine discreet.carry (congrArg Output.blockSize output) ?_ ?_
  · intro reason due
    rw [left] at due
    rw [calls]
    exact Or.inl (List.mem_cons_of_mem _ due)
  · intro reason member
    rw [notices] at member
    rcases List.mem_append.mp member with before | new
    · exact Or.inr before
    · left
      rw [calls, told reason (List.mem_singleton.mp new).symm]
      exact List.mem_cons_self

/-- Nothing has been told before the writer is opened. -/
theorem Stage.silent_at_begin
    (stage : Stage env task may initial ledger job) {size : Int}
    (calls : job.calls = .input (.begin size) :: rest) :
    job.notices = [] ∧ rest = [.input .readSector] := by
  cases stage with
  | unopened unopened =>
      rw [unopened.closed.calls] at calls
      cases calls
  | detecting core phase detecting =>
      exact ⟨detecting.notices, (detecting.beginning calls).2.2⟩
  | failing core phase before alone | vacant core phase before alone =>
      have late := alone.late
      rw [(alone.reads.begin calls).1] at late
      cases late
  | writing config core phase writer opens accepted writing =>
      have late := writing.late
      rw [(writing.reads.begin calls).1] at late
      cases late

theorem discreet_onBegin {size : Int} (notices : job.notices = []) :
    Discreet (job.onBegin task size [.input .readSector]) := by
  intro reason losing mentions
  cases outcome : (begin task job.blockSize job.pool size).2 with
  | error cause =>
      rw [onBegin_error outcome] at mentions
      rcases mentions with due | told
      · cases List.mem_singleton.mp due
      · have member : Notice.error .cannotWrite reason ∈
          job.notices ++ [.error .invalidOption cause] := told
        rw [notices] at member
        cases List.mem_singleton.mp member
  | ok blockSize =>
      rw [onBegin_ok outcome] at mentions losing
      rcases mentions with due | told
      · rcases List.mem_append.mp due with pushed | later
        · obtain ⟨call, member, same⟩ := List.mem_map.mp pushed
          cases same
          exact not_losing_of_plain
            (Output.plain_setFile reason member) losing
        · rcases List.mem_cons.mp later with same | member
          · cases same
          · cases List.mem_singleton.mp member
      · have member : Notice.error .cannotWrite reason ∈ job.notices := told
        rw [notices] at member
        cases member

theorem Discreet.runInput
    (stage : Stage env task may initial ledger job)
    (discreet : Discreet job) {call : InputCall}
    (calls : job.calls = .input call :: rest) :
    Discreet (job.runInput env task call rest) := by
  have kept : ∀ other ∈ rest, other ∈ job.calls := by
    intro other member
    rw [calls]
    exact List.mem_cons_of_mem _ member
  cases call with
  | readSector | rawDelivered | subBlock | subDelivered =>
      exact discreet.inputs rfl rfl kept rfl
  | callback pos sector supplied =>
      refine discreet.outputs
        (fun reason member => not_losing_of_plain
          (Output.plain_enqueue reason member))
        (Output.enqueue_keeps env pos sector).same.blockSize rfl ?_ rfl
      intro reason member
      rcases List.mem_cons.mp member with same | member
      · cases same
      · exact kept _ member
  | begin size =>
      obtain ⟨notices, rfl⟩ := stage.silent_at_begin calls
      exact discreet_onBegin notices
  | finish success reason =>
      cases success with
      | true => exact @Discreet.inputs _ _ _ discreet [] rfl rfl kept rfl
      | false =>
          exact discreet.tells calls rfl rfl rfl fun _ same => by cases same

theorem Discreet.runOutput (discreet : Discreet job) {call : OutputCall}
    (calls : job.calls = .output call :: rest)
    (enters : ∀ id ∈ job.output.due call, job.output.Enters id) :
    Discreet (job.runOutput env call rest) := by
  have kept : ∀ other ∈ rest, other ∈ job.calls := by
    intro other member
    rw [calls]
    exact List.mem_cons_of_mem _ member
  have wrote : ∀ {result : OutputResult},
      Output.Plain result.calls →
        result.output.blockSize = job.output.blockSize →
          Discreet (job.continueOutput result rest) := by
    intro result plain blockSize
    exact discreet.outputs
      (fun reason member => not_losing_of_plain (plain reason member))
      blockSize rfl (fun _ => kept _) rfl
  cases call with
  | pad id block padPos =>
      exact wrote Output.plain_pad
        (Output.pad_keeps env id block padPos).same.blockSize
  | sectorReady id block =>
      exact wrote (Output.plain_sectorReady enters)
        (Output.sectorReady_keeps env id block).same.blockSize
  | afterProgress nextPos =>
      exact wrote (Output.plain_afterProgress enters)
        (Output.afterProgress_keeps env nextPos).same.blockSize
  | progress pos total written =>
      refine discreet.carry rfl ?_ fun _ told => Or.inr told
      intro reason due
      rcases List.mem_append.mp due with pushed | later
      · obtain ⟨_, _, same⟩ := List.mem_map.mp pushed
        cases same
      · rcases List.mem_cons.mp later with same | member
        · cases same
        · exact Or.inl (kept _ member)
  | finish success reason =>
      cases success with
      | true =>
          exact discreet.tells calls rfl rfl rfl fun _ same => by cases same
      | false =>
          refine discreet.tells calls rfl rfl rfl ?_
          intro other same
          cases same
          rfl

theorem Discreet.runCall
    (stage : Stage env task may initial ledger job)
    (discreet : Discreet job) {call : TaskCall}
    (calls : job.calls = call :: rest)
    (returns : Returns env job .run) :
    Discreet (job.runCall env task call rest) := by
  cases call with
  | input call => exact Discreet.runInput stage discreet calls
  | output call =>
      exact discreet.runOutput calls (returns.enters call rest rfl calls)
  | checkQueue =>
      refine @Discreet.inputs _ _ _ discreet [] rfl rfl ?_ rfl
      intro other member
      rw [calls]
      exact List.mem_cons_of_mem _ member
  | begun size =>
      exact discreet.tells calls rfl rfl rfl fun _ same => by cases same
  | progressed pos total written =>
      exact discreet.tells calls rfl rfl rfl fun _ same => by cases same

theorem Discreet.opened (discreet : Discreet job) (opening : Opening)
    (success : Bool) : Discreet (job.onOpened env task opening success) := by
  have failed : ∀ (status : TaskStatus) (reason : String),
      status ≠ .cannotWrite →
        Discreet ({ job with opening := none }.notify
          (.error status reason)) := by
    intro status reason other
    refine discreet.carry rfl (fun _ due => Or.inl due) ?_
    intro cause told
    rcases List.mem_append.mp told with before | new
    · exact Or.inr before
    · cases List.mem_singleton.mp new
      exact absurd rfl other
  have same : ∀ (input : Input) (pool : BufferPool)
      (opening : Option Opening),
      Discreet { job with
        input := input
        pool := pool
        opening := opening } := by
    intro input pool opening
    exact discreet.carry rfl (fun _ due => Or.inl due)
      fun _ told => Or.inr told
  cases opening with
  | input =>
      cases success with
      | false => exact failed _ _ TaskStatus.noConfusion
      | true =>
          dsimp only [onOpened]
          split
          · exact same _ _ _
          · exact same _ _ _
  | output =>
      cases success with
      | false => exact failed _ _ TaskStatus.noConfusion
      | true => exact same _ _ _

/-- A step that returns what it should loses no sector object. -/
theorem Discreet.step
    (stage : Stage env task may initial ledger job)
    (discreet : Discreet job) (returns : Returns env job event)
    (taken : job.step env task event = some next) : Discreet next := by
  have wrote : ∀ {result : OutputResult} {file : Bytes},
      (∀ reason, .finish false reason ∈ result.calls →
        ¬ Losing job.output.blockSize reason) →
        result.output.blockSize = job.output.blockSize →
          Discreet { job.continueOutput result [] with file := file } := by
    intro result file plain blockSize
    refine discreet.outputs plain blockSize rfl ?_ rfl
    intro reason member
    cases member
  cases event with
  | run =>
      obtain ⟨call, rest, calls, rfl⟩ := step_run taken
      exact Discreet.runCall stage discreet calls returns
  | opened success =>
      obtain ⟨opening, _, _, rfl⟩ := step_opened taken
      exact discreet.opened opening success
  | completed position =>
      obtain ⟨request, calls, _, rfl⟩ := step_completed taken
      refine discreet.inputs rfl rfl ?_ rfl
      intro call member
      cases member
  | compressed position status =>
      obtain ⟨queued, _, _, rfl⟩ := step_compressed taken
      refine @wrote _ job.file ?_
        (Output.onCompressed_keeps env queued status).same.blockSize
      intro reason member
      by_cases succeeded : 0 ≤ status
      · exact not_losing_of_plain
          (Output.plain_onCompressed succeeded reason member)
      · rw [Output.onCompressed, if_pos (not_le.mp succeeded)] at member
        cases List.mem_singleton.mp member
        intro losing
        rcases losing with ⟨fmt, format, refused⟩ | ⟨single, _⟩
        · unfold Output.refusal at refused
          split at refused
          all_goals simp at refused
        · exact succeeded
            (returns.compresses position status rfl single)
  | dataWritten position result =>
      obtain ⟨write, _, _, rfl⟩ := step_dataWritten taken
      exact wrote
        (fun reason member => not_losing_of_plain
          (Output.plain_onDataWritten reason member))
        (Output.onDataWritten_keeps write result).same.blockSize
  | indexWritten position result =>
      obtain ⟨write, _, _, rfl⟩ := step_indexWritten taken
      exact wrote
        (fun reason member => not_losing_of_plain
          (Output.plain_onIndexWritten reason member))
        (Output.onIndexWritten_keeps write result).same.blockSize

theorem discreet_start : Discreet (start env task pool) := by
  intro reason _ mentions
  unfold start at mentions
  dsimp only at mentions
  cases outcome : (enqueue task pool).2 with
  | error cause =>
      rw [outcome] at mentions
      rcases mentions with due | told
      · cases due
      · cases List.mem_singleton.mp told
  | ok blockSize =>
      rw [outcome] at mentions
      rcases mentions with due | told
      · cases due
      · cases told

/-! ## Buffers -/

/-- Only the reader of a task that writes passes buffers on. -/
theorem Stage.writing_of_feeds
    (stage : Stage env task may initial ledger job) (feeds : job.Feeds) :
    ∃ config core phase writer, config.Accepted env ∧
      Writing env config may initial ledger job core phase writer := by
  obtain ⟨call, rest, calls, feeding⟩ := feeds
  have fetches : ∀ {own : List InputCall} {phase : Phase},
      phase.calls = own → own.map .input = call :: rest →
        phase.detecting = false ∧ phase.fetches = true := by
    intro own phase same pushed
    cases phase with
    | rawCallback | subCallback => exact ⟨rfl, rfl⟩
    | _ =>
        subst same
        cases pushed
        all_goals cases feeding
  cases stage with
  | unopened unopened =>
      rw [unopened.closed.calls] at calls
      cases calls
  | detecting core phase detecting =>
      have early := detecting.detecting
      rw [(fetches rfl (detecting.calls.symm.trans calls)).1] at early
      cases early
  | failing core phase before alone | vacant core phase before alone =>
      have due := alone.calls.symm.trans calls
      cases before with
      | nil =>
          have idle := alone.fetchless
          rw [(fetches rfl due).2] at idle
          cases idle
      | cons first before =>
          obtain ⟨same, _⟩ := List.cons.inj due
          have outside := alone.outside first List.mem_cons_self
          rw [same] at outside
          cases outside with
          | begun | refused => cases feeding
  | writing config core phase writer opens accepted writing =>
      exact ⟨config, core, phase, writer, accepted, writing⟩

theorem Writing.explained (yields : env.Yields)
    (accepted : config.Accepted env)
    (writing : Writing env config may initial ledger job core phase writer) :
    ∃ archive : Archive, archive.toWriterConfig = config ∧
      Writer.OnCourse archive (Course.Explained archive) writer := by
  obtain ⟨archive, same, sameEnv, supplies⟩ := writing.exists_run accepted
  subst same sameEnv
  exact ⟨archive, rfl, writing.onCourse rfl rfl supplies
    Course.explained_start
    fun _ _ sound explained move => explained.move yields sound move⟩

/-- A sector belongs to the block that it is put into. -/
theorem Writing.placed (yields : env.Yields)
    (accepted : config.Accepted env)
    (writing : Writing env config may initial ledger job core phase writer) :
    .output (.finish false Sector.misplaced) ∉ job.calls := by
  intro due
  obtain ⟨archive, _, pipeline, filled, _, _, explained⟩ :=
    writing.explained yields accepted
  apply @Course.not_given_misplaced archive
  apply explained.given
  left
  show .output (.finish false Sector.misplaced) ∈ writer.calls
  rw [← writing.calls]
  exact List.mem_filterMap.mpr ⟨_, due, rfl⟩

/-- A step that returns what it should loses no buffer. -/
theorem Stage.returns (yields : env.Yields)
    (stage : Stage env task may initial ledger job)
    (accounts : Accounts job others) (allowed : Allowed may job event)
    (returns : Returns env job event)
    (taken : job.step env task event = some next) :
    Accounts next others := by
  obtain ⟨lost, after, excuse⟩ := accounts.step taken
  rcases excuse with none | ⟨feeds, due⟩ |
    ⟨position, request, same, found, forgets⟩
  · rwa [none, zero_add] at after
  · obtain ⟨config, core, phase, writer, accepted, writing⟩ :=
      stage.writing_of_feeds feeds
    obtain ⟨ledger', core', phase', writer', _, again⟩ :=
      writing.step accepted allowed taken
    exact absurd due (again.placed yields accepted)
  · exact absurd forgets (returns.delivers position request same found)

theorem accounts_of_returning (yields : env.Yields)
    (lends : pool.Lends others)
    (run : Execution (step env task) (Both (Allowed may) (Returns env))
      (start env task pool) events job) :
    Discreet job ∧ Accounts job others := by
  refine (@Execution.track _ _ (step env task)
    (Both (Allowed may) (Returns env))
    (fun events job =>
      Execution (step env task) (Allowed may) (start env task pool) events
          job ∧
        Discreet job ∧ Accounts job others)
    ?_ _ _ _ run ⟨.nil _, discreet_start, accounts_start lends⟩).2
  intro events source event target before permitted taken
  obtain ⟨reached, discreet, accounts⟩ := before
  obtain ⟨ledger, _, stage⟩ := stage_of_run reached
  exact ⟨reached.snoc permitted.1 taken,
    discreet.step stage permitted.2 taken,
    stage.returns yields accounts permitted.1 permitted.2 taken⟩

/-! ## The end of a task -/

/-- The destructor finds all sector objects. -/
theorem Writing.listed (yields : env.Yields)
    (accepted : config.Accepted env)
    (writing : Writing env config may initial ledger job core phase writer)
    (discreet : Discreet job) (drained : job.Drained) {id : SectorId}
    (inside : id < queueSize) :
    id ∈ job.output.freeSectors ++
      job.output.pendingSectors.map Prod.snd ++
        job.output.partialSectors.map Prod.snd := by
  obtain ⟨archive, same, onCourse⟩ := writing.explained yields accepted
  have output := writing.output
  have calls := writing.calls
  rw [drained.calls] at calls
  have blockSize : job.output.blockSize = archive.blockSize := by
    obtain ⟨pipeline, filled, follows, _⟩ := onCourse
    rw [output]
    exact follows.placed.blockSize
  rw [output]
  apply onCourse.listed calls.symm (output ▸ drained.jobs)
    (output ▸ drained.dataWrites) (output ▸ drained.indexWrites) ?_ ?_ inside
  · intro reason written refuses noted
    obtain ⟨format, refused⟩ := refuses
    exact discreet reason (Or.inl ⟨_, format, refused⟩)
      (Or.inr (writing.told reason written noted))
  · intro single written noted
    exact discreet _ (Or.inr ⟨blockSize.trans single, rfl⟩)
      (Or.inr (writing.told _ written noted))

/-- A task that has lost nothing returns all buffers when it is destroyed. -/
theorem returned_of_run (yields : env.Yields) (lends : pool.Lends others)
    (run : Execution (step env task) (Both (Allowed may) (Returns env))
      (start env task pool) events job) (drained : job.Drained) :
    job.destroy.Lends others := by
  obtain ⟨discreet, accounts⟩ := accounts_of_returning yields lends run
  have books := accounts.quiet drained.calls
  rw [Input.waiting, drained.inFlight,
    show (List.map InputRequest.held []).sum = 0 from rfl, zero_add] at books
  rcases held_of_run run.left with unused |
    ⟨ledger, config, core, phase, writer, _, accepted, writing⟩
  · exact Output.destroy_unused books unused
  · exact Output.destroy_found books fun id inside =>
      Or.inl (writing.listed yields accepted discreet drained inside)

end

end CompressionTask

/-! ## The pool between two tasks -/

namespace BufferPool

/-- The pool as its constructor leaves it, where `malloc` goes on from an
address. -/
def untouched (address : Nat) : BufferPool :=
  { initial with nextAddress := address }

/-- Every buffer has been released once, and the size can be changed. -/
structure Balanced (pool : BufferPool) : Prop where
  counted : pool.allocations = pool.free.length
  distinct : (addresses pool.free).Nodup
  resizes : ∀ newSize, (pool.setBufferSize newSize).2 = true

section

variable {pool : BufferPool}

theorem Lends.balanced (lends : pool.Lends 0) : pool.Balanced := by
  have counted := lends.counted
  have distinct := lends.distinct
  rw [Multiset.card_zero, Nat.add_zero] at counted
  rw [add_zero] at distinct
  exact ⟨counted, distinct, fun newSize => (lends.resize newSize).2.mpr rfl⟩

/-- A resize leaves nothing of what was there before. -/
theorem Balanced.setBufferSize_eq (balanced : pool.Balanced)
    (newSize : Nat) :
    pool.setBufferSize newSize =
      (untouched pool.nextAddress).setBufferSize newSize := by
  have none : pool.allocations - pool.free.length = 0 := by
    rw [balanced.counted, Nat.sub_self]
  simp [setBufferSize, clear, none, untouched, initial]

end

end BufferPool

namespace CompressionTask

/-- A task can end with these notices and this file. -/
def Ends
    (allowed : Environment → Task → CompressionTask → TaskEvent → Prop)
    (env : Environment) (task : Task) (pool : BufferPool)
    (notices : List Notice) (file : Bytes) : Prop :=
  ∃ events job, Execution (step env task) (allowed env task)
      (start env task pool) events job ∧
    job.Drained ∧ job.notices = notices ∧ job.file = file

/-- Every task ends as it would have ended alone. -/
def Independent (pool : BufferPool) : Prop :=
  ∀ allowed env task notices file,
    Ends allowed env task pool notices file ↔
      Ends allowed env task (.untouched pool.nextAddress) notices file

section

variable {env : Environment} {task : Task}
variable {pool last : BufferPool} {job : CompressionTask}
variable {events : List TaskEvent} {jobs : List CompressionTask}
variable {entries : List (Environment × Task)} {reason : String}
variable {allowed : CompressionTask → TaskEvent → Prop}

theorem notices_of_refused
    (refused : (enqueue task pool).2 = .error reason) :
    (start env task pool).notices = [.error .invalidOption reason] := by
  unfold start
  rw [refused]
  rfl

/-- A task that has not been accepted has ended. -/
theorem start_of_refused (refused : (enqueue task pool).2 = .error reason)
    (run : Execution (step env task) allowed (start env task pool) events
      job) : job = start env task pool := by
  refine @Execution.invariant _ _ (step env task) allowed
    (fun job => job = start env task pool) ?_ _ _ _ run rfl
  intro source event target same _ taken
  rw [same] at taken
  obtain ⟨⟨opening, waits⟩, _⟩ := (closed_start pool).opens taken
  unfold start at waits
  rw [refused] at waits
  cases waits

theorem ends_of_refused
    {all : Environment → Task → CompressionTask → TaskEvent → Prop}
    {notices : List Notice} {file : Bytes}
    (refused : (enqueue task pool).2 = .error reason) :
    Ends all env task pool notices file ↔
      notices = [.error .invalidOption reason] ∧ file = [] := by
  have notices' := @notices_of_refused env _ _ _ refused
  have empty : (start env task pool).file = [] := by
    unfold start
    rw [refused]
    rfl
  constructor
  · intro ⟨events, job, run, drained, same, written⟩
    rw [start_of_refused refused run] at same written
    exact ⟨same.symm.trans notices', written.symm.trans empty⟩
  · intro ⟨same, written⟩
    refine ⟨[], _, .nil _, ?_, notices'.trans same.symm,
      empty.trans written.symm⟩
    unfold start
    rw [refused]
    exact ⟨rfl, rfl, rfl, rfl, rfl, rfl⟩

theorem independent_of_balanced (balanced : pool.Balanced) :
    Independent pool := by
  intro allowed env task notices file
  cases first : firstBlockSize task with
  | error reason =>
      have refused : ∀ pool, (enqueue task pool).2 = .error reason := by
        intro pool
        rw [enqueue, first]
      rw [ends_of_refused (refused _), ends_of_refused (refused _)]
  | ok blockSize =>
      have same : enqueue task pool =
          enqueue task (.untouched pool.nextAddress) := by
        rw [enqueue, enqueue, first]
        dsimp only
        rw [resize, resize, balanced.setBufferSize_eq]
      unfold Ends start
      rw [same]

/-- After every batch whose tasks return what they take, the pool has all of
its buffers and the next task does not see that there were others. -/
theorem conserves_buffers
    (yields : ∀ entry ∈ entries, entry.1.Yields)
    (lends : pool.Lends 0)
    (batch : Batch
      (fun env task => Both (Both (Allowed .capped) (StaysInside env task))
        (Returns env)) pool entries jobs last) :
    last.Balanced ∧ Independent last := by
  have returned : last.Lends 0 := by
    induction batch with
    | nil pool => exact lends
    | cons run drained _ inductionHypothesis =>
        obtain ⟨first, later⟩ := List.forall_mem_cons.mp yields
        exact inductionHypothesis later
          (returned_of_run first lends
            (run.weaken fun _ _ both => ⟨both.1.1, both.2⟩) drained)
  exact ⟨returned.balanced, independent_of_balanced returned.balanced⟩

end

/-! ## Two tasks -/

/-- A check that a block reaches the sector that it is decompressed for. -/
def deliversCheck (env : Environment) (job : CompressionTask) :
    InputRequest → Bool
  | .decompress _ source offset isLz4 =>
      match job.input.decompressWork env job.pool source isLz4 with
      | .ok data => offset < job.input.trimmedSize offset data.length
      | .error _ => true
  | _ => true

/-- A check that a step loses no buffer. -/
def returnsCheck (env : Environment) (job : CompressionTask) :
    TaskEvent → Bool
  | .run =>
      match job.calls with
      | .output call :: _ =>
          (job.output.due call).all fun id => job.output.Enters id
      | _ => true
  | .compressed _ status =>
      job.output.blockSize = sectorSize → 0 ≤ status
  | .completed position =>
      job.input.inFlight[position]?.all (job.deliversCheck env)
  | _ => true

/-- A check that no write reports more than it has been given. -/
def cappedCheck (job : CompressionTask) : TaskEvent → Bool
  | .dataWritten position result =>
      job.output.dataWrites[position]?.all (result ≤ ·.data.length)
  | .indexWritten position result =>
      job.output.indexWrites[position]?.all (result ≤ ·.data.length)
  | _ => true

def batchCheck (env : Environment) (task : Task) (length : Nat)
    (job : CompressionTask) (event : TaskEvent) : Bool :=
  job.insideCheck env task length event && job.cappedCheck event &&
    job.returnsCheck env event

section

variable {env : Environment} {task : Task} {length : Nat}
variable {job : CompressionTask} {event : TaskEvent}

theorem returns_of_returnsCheck
    (checked : job.returnsCheck env event = true) :
    Returns env job event := by
  constructor
  · intro call rest same calls id member
    rw [same, returnsCheck, calls] at checked
    exact of_decide_eq_true (List.all_eq_true.mp checked id member)
  · intro position status same single
    rw [same, returnsCheck] at checked
    exact of_decide_eq_true checked single
  · intro position request same found forgets
    rw [same, returnsCheck, found] at checked
    have delivers : job.deliversCheck env request = true := checked
    cases request with
    | decompress actualBuf source offset isLz4 =>
        obtain ⟨data, worked, _, short⟩ := forgets
        rw [deliversCheck, worked] at delivers
        exact absurd (of_decide_eq_true delivers) (Nat.not_lt.mpr short)
    | _ => exact forgets

theorem allowed_of_cappedCheck (checked : job.cappedCheck event = true) :
    Allowed .capped job event := by
  cases event with
  | run | opened | compressed => trivial
  | completed => exact fun _ _ => trivial
  | dataWritten position result | indexWritten position result =>
      intro write found
      rw [cappedCheck, found] at checked
      have enough : result ≤ write.data.length := of_decide_eq_true checked
      exact enough

theorem of_batchCheck
    (checked : job.batchCheck env task length event = true) :
    (Both (Both (Allowed .capped) (StaysInside env task)) (Returns env))
      job event := by
  obtain ⟨both, returns⟩ := Bool.and_eq_true_iff.mp checked
  obtain ⟨inside, capped⟩ := Bool.and_eq_true_iff.mp both
  exact ⟨⟨allowed_of_cappedCheck capped, staysInside_of_insideCheck inside⟩,
    returns_of_returnsCheck returns⟩

end

/-- The second block cannot be compressed and the first one is not written,
while the third one waits. -/
def brokenEvents : List TaskEvent :=
  [.opened true, .opened true, .completed 0, .completed 0, .run, .run, .run,
      .completed 0, .completed 0] ++
    List.replicate 18 .run ++ .completed 0 :: List.replicate 9 .run ++
    [.compressed 2 0, .run, .compressed 1 (-1), .run, .compressed 0 0, .run,
      .dataWritten 0 10, .run]

theorem broken_reached :
    ∃ job other,
      Execution (step repackEnv repackTask)
          (Both (Both (Allowed .capped) (StaysInside repackEnv repackTask))
            (Returns repackEnv))
          (start repackEnv repackTask .initial) brokenEvents job ∧
        Execution (step sectorEnv largeTask)
          (Both (Both (Allowed .capped) (StaysInside sectorEnv largeTask))
            (Returns sectorEnv))
          (start sectorEnv largeTask job.destroy) sectorEvents other ∧
        job.Drained ∧ job.notices =
          [.progress .inProgress 0 10240 0,
            .error .cannotWrite "Failed to compress sector",
            .error .cannotWrite
              "Data could not be written to output file"] ∧
        other.Drained ∧ other.notices =
          [.progress .inProgress 0 2048 0,
            .progress .inProgress 2048 2048 2080,
            .progress .success 2048 2048 2080] := by
  have reached :
      (runEvents
        (guarded (batchCheck repackEnv repackTask
          Reader.threeBlockFile.length) (step repackEnv repackTask))
        (start repackEnv repackTask .initial) brokenEvents).any (fun job =>
          (job.Drained ∧ job.notices =
            [.progress .inProgress 0 10240 0,
              .error .cannotWrite "Failed to compress sector",
              .error .cannotWrite
                "Data could not be written to output file"]) ∧
          (runEvents
            (guarded (batchCheck sectorEnv largeTask 2048)
              (step sectorEnv largeTask))
            (start sectorEnv largeTask job.destroy) sectorEvents).any
            (fun other => other.Drained ∧ other.notices =
              [.progress .inProgress 0 2048 0,
                .progress .inProgress 2048 2048 2080,
                .progress .success 2048 2048 2080]) = true) = true := by
    decide +kernel
  obtain ⟨job, ran, facts⟩ := (Option.any_eq_true _ _).mp reached
  obtain ⟨⟨drained, notices⟩, again⟩ := of_decide_eq_true facts
  obtain ⟨other, ran', facts'⟩ := (Option.any_eq_true _ _).mp again
  obtain ⟨drained', notices'⟩ := of_decide_eq_true facts'
  exact ⟨job, other,
    Execution.of_runEvents (fun _ _ checked => of_batchCheck checked) ran,
    Execution.of_runEvents (fun _ _ checked => of_batchCheck checked) ran',
    drained, notices, drained', notices'⟩

theorem conserves_buffers_broken :
    ∃ job other last,
      Batch
          (fun env task =>
            Both (Both (Allowed .capped) (StaysInside env task))
              (Returns env))
          .initial [(repackEnv, repackTask), (sectorEnv, largeTask)]
          [job, other] last ∧
        job.Failed ∧ other.successes = 1 ∧
          last.Balanced ∧ Independent last := by
  obtain ⟨job, other, run, run', drained, notices, drained', notices'⟩ :=
    broken_reached
  have batch : Batch
      (fun env task => Both (Both (Allowed .capped) (StaysInside env task))
        (Returns env))
      .initial [(repackEnv, repackTask), (sectorEnv, largeTask)]
      [job, other] other.destroy :=
    .cons run drained (.cons run' drained' (.nil _))
  have yields : ∀ entry ∈ [(repackEnv, repackTask), (sectorEnv, largeTask)],
      entry.1.Yields := by
    intro entry member
    rcases List.mem_cons.mp member with same | member
    · rw [same]
      exact yields_repackEnv
    · rw [List.mem_singleton.mp member]
      exact yields_sectorEnv
  have failed : job.Failed := by
    refine ⟨.cannotWrite, "Failed to compress sector", ?_⟩
    rw [notices]
    exact List.mem_cons_of_mem _ List.mem_cons_self
  have once : other.successes = 1 := by
    rw [successes, notices']
    rfl
  exact ⟨job, other, other.destroy, batch, failed, once,
    conserves_buffers yields BufferPool.lends_initial batch⟩

/-! ## A block that is refused -/

/-- `--only-lz4` -/
def onlyLz4Task : Task :=
  { largeTask with
    flags := { Arguments.default with
      flagsOnly := Method.lz4.flag }.finalFlags }

/-- A sector of zeros, as lz4 compresses it. -/
def zeroLz4Stream : Bytes :=
  [0x1F, 0, 1, 0] ++ List.replicate 7 0xFF ++ [0xEE, 0x50, 0, 0, 0, 0, 0]

/-- An image of one sector of zeros. -/
def zeroSectorEnv : Environment :=
  { Environment.ofFile (List.replicate 2048 0) with
    trials := fun _ _ => [⟨zeroLz4Stream, .lz4⟩] }

/-- A sector in which no three bytes occur twice, so that lz4 does not help. -/
def scatteredEnv : Environment :=
  .ofFile ((List.range 2048).map fun place => UInt8.ofNat (place ^ 3 / 8))

/-- The first sector is compressed and then refused. -/
def refusedEvents : List TaskEvent :=
  [.opened true, .opened true, .completed 0, .completed 0, .run, .run, .run,
    .completed 0, .run, .run, .run, .run, .run, .compressed 0 0, .run, .run]

theorem refused_reached :
    ∃ job alone,
      Execution (step zeroSectorEnv onlyLz4Task)
          (Both (Allowed .capped) (StaysInside zeroSectorEnv onlyLz4Task))
          (start zeroSectorEnv onlyLz4Task .initial) refusedEvents job ∧
        Execution (step scatteredEnv onlyLz4Task)
          (Both (Allowed .capped) (StaysInside scatteredEnv onlyLz4Task))
          (start scatteredEnv onlyLz4Task
            (.untouched job.destroy.nextAddress)) sectorEvents alone ∧
        job.Drained ∧ job.notices =
          [.progress .inProgress 0 2048 0,
            .error .cannotWrite
              "LZ4 format not supported within CSO v1 file"] ∧
        job.destroy.allocations ≠ job.destroy.free.length ∧
        (enqueue onlyLz4Task job.destroy).2 =
          .error "Unable to update buffer size to match block size" ∧
        alone.Drained ∧ alone.notices =
          [.progress .inProgress 0 2048 0,
            .progress .inProgress 2048 2048 2080,
            .progress .success 2048 2048 2080] := by
  have reached :
      (runEvents
        (guarded (stepCheck zeroSectorEnv onlyLz4Task 2048)
          (step zeroSectorEnv onlyLz4Task))
        (start zeroSectorEnv onlyLz4Task .initial) refusedEvents).any
          (fun job =>
          (job.Drained ∧ job.notices =
            [.progress .inProgress 0 2048 0,
              .error .cannotWrite
                "LZ4 format not supported within CSO v1 file"] ∧
          job.destroy.allocations ≠ job.destroy.free.length ∧
          (enqueue onlyLz4Task job.destroy).2 =
            .error "Unable to update buffer size to match block size") ∧
          (runEvents
            (guarded (stepCheck scatteredEnv onlyLz4Task 2048)
              (step scatteredEnv onlyLz4Task))
            (start scatteredEnv onlyLz4Task
              (.untouched job.destroy.nextAddress)) sectorEvents).any
            (fun alone => alone.Drained ∧ alone.notices =
              [.progress .inProgress 0 2048 0,
                .progress .inProgress 2048 2048 2080,
                .progress .success 2048 2048 2080]) = true) = true := by
    decide +kernel
  obtain ⟨job, ran, facts⟩ := (Option.any_eq_true _ _).mp reached
  obtain ⟨⟨drained, notices, leaks, refused⟩, again⟩ :=
    of_decide_eq_true facts
  obtain ⟨alone, ran', facts'⟩ := (Option.any_eq_true _ _).mp again
  obtain ⟨drained', notices'⟩ := of_decide_eq_true facts'
  refine ⟨job, alone, Execution.of_runEvents ?_ ran,
    Execution.of_runEvents ?_ ran', drained, notices, leaks, refused,
    drained', notices'⟩
  · exact fun _ _ checked => ⟨capped_of_full (allowed_of_stepCheck checked),
      staysInside_of_stepCheck checked⟩
  · exact fun _ _ checked => ⟨capped_of_full (allowed_of_stepCheck checked),
      staysInside_of_stepCheck checked⟩

/-- After a block has been refused, a task that would succeed alone is told
that the buffers cannot be resized. -/
theorem refused_block_leaks :
    ∃ job last,
      Batch (fun env task => Both (Allowed .capped) (StaysInside env task))
          .initial [(zeroSectorEnv, onlyLz4Task)] [job] last ∧
        job.notices =
          [.progress .inProgress 0 2048 0,
            .error .cannotWrite
              "LZ4 format not supported within CSO v1 file"] ∧
        ¬ last.Balanced ∧
        (start scatteredEnv onlyLz4Task last).notices =
          [.error .invalidOption
            "Unable to update buffer size to match block size"] ∧
        (∃ events alone, Execution (step scatteredEnv onlyLz4Task)
            (Both (Allowed .capped) (StaysInside scatteredEnv onlyLz4Task))
            (start scatteredEnv onlyLz4Task (.untouched last.nextAddress))
            events alone ∧
          alone.Drained ∧ alone.successes = 1) ∧
        ¬ Independent last := by
  obtain ⟨job, alone, run, run', drained, notices, leaks, refused, drained',
    notices'⟩ := refused_reached
  have once : alone.successes = 1 := by
    rw [successes, notices']
    rfl
  refine ⟨job, job.destroy, .cons run drained (.nil _), notices,
    fun balanced => leaks balanced.counted, ?_,
    ⟨_, alone, run', drained', once⟩, ?_⟩
  · exact notices_of_refused refused
  · intro independent
    have ends := (independent
      (fun env task => Both (Allowed .capped) (StaysInside env task))
      _ _ _ _).mpr ⟨_, alone, run', drained', rfl, rfl⟩
    have same := ((ends_of_refused refused).mp ends).1
    rw [notices'] at same
    cases same

end CompressionTask

end Maxcso
