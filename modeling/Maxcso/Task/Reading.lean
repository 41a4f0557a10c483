import Maxcso.Reader.Progress
import Maxcso.Task.Machine

/-!
# The reader of a task

The reader's part of a task is a reader whose owner pauses and resumes it, and
whose pool is used by the writer as well.
-/

namespace Maxcso

/-! ## Readers -/

namespace Phase

/-- The reader goes on to pass on a sector unless it fails. -/
def fetches : Phase → Bool
  | waiting request => !request.detects
  | rawCallback .. | subCallback .. => true
  | looping block => decide (block.suboffset < block.resultSize)
  | _ => false

/-- The position that a sector is passed on with. -/
def passes : Phase → Option Int
  | rawCallback pos .. | subCallback pos .. => some pos
  | _ => none

end Phase

theorem InputResult.calls_of_beginning
    {result : InputResult} {size : Int}
    (begins : result.phase = .beginning size) :
    ∃ rest, result.calls = .begin size :: rest := by
  unfold phase at begins
  split at begins
  · cases begins
  · rename_i same
    cases begins
    exact ⟨_, same⟩
  · cases begins
  · cases begins

/-- The size that `begin_` is told is the one that has been found. -/
theorem Input.complete_begins
    (env : Environment) (input : Input) (pool : BufferPool)
    {request : InputRequest} (detects : request.detects = true)
    {size : Int} {rest : List InputCall}
    (calls : (input.complete env pool request).calls =
      .begin size :: rest) :
    size = (input.complete env pool request).input.size := by
  cases request with
  | readHeader headerBuf =>
      simp only [complete, onHeaderRead, detectCso, detectDax] at calls
      repeat' split at calls
      all_goals cases calls
  | readIndex bytes =>
      simp only [complete, onIndexRead] at calls ⊢
      repeat' split at calls
      · cases calls
      · cases calls
      · rw [if_neg ‹_›]
        cases calls
        rfl
  | readTables frames areas bytes =>
      simp only [complete, onTablesRead] at calls ⊢
      repeat' split at calls
      · cases calls
      · cases calls
      · rw [if_neg ‹_›]
        cases calls
        rfl
  | stat =>
      simp only [complete, onStat] at calls ⊢
      repeat' split at calls
      · cases calls
      · cases calls
      · rw [if_neg ‹_›]
        cases calls
        rfl
  | readBlock | decompress => cases detects

namespace Reader

variable {env : Environment} {core core' : Reader} {phase phase' : Phase}
variable {event : ReaderEvent}

/-- Sectors are passed on with their position, and the reader ends with
success when it has passed on all of them. -/
structure Orderly (core : Reader) (phase : Phase) : Prop where
  passes : ∀ pos ∈ phase.passes, pos = core.input.pos
  ends : ∀ reason, phase = .finishing true reason →
    core.input.size ≤ core.input.pos
  ended : ∀ reason, (true, reason) ∈ core.finished →
    core.input.size ≤ core.input.pos
  parked : phase = .parked → core.input.paused = true
  begins : ∀ size, phase = .beginning size → size = core.input.size

theorem passes_usePhase (env : Environment) (core : Reader)
    (request : Request) (data : Bytes) :
    ∀ pos ∈ (core.usePhase env request data).passes,
      pos = core.input.pos := by
  intro pos member
  cases raw : request.raw with
  | true =>
      rw [usePhase_raw env core raw] at member
      exact (Option.some.inj member).symm
  | false =>
      rw [usePhase_compressed env core raw] at member
      cases member

theorem OnTrack.finished_nil (track : OnTrack core phase)
    (running : phase.reports = 0) : core.finished = [] :=
  List.eq_nil_of_length_eq_zero (track.reported.trans running)

/-- Before the reader has ended, only where it goes matters. -/
theorem Orderly.running (unfinished : core.finished = [])
    (passes : ∀ pos ∈ phase.passes, pos = core.input.pos)
    (ends : ∀ reason, phase = .finishing true reason →
      core.input.size ≤ core.input.pos)
    (parked : phase = .parked → core.input.paused = true)
    (begins : ∀ size, phase ≠ .beginning size) :
    Orderly core phase := by
  refine ⟨passes, ends, ?_, parked, ?_⟩
  · intro reason member
    rw [unfinished] at member
    cases member
  · intro size same
    exact absurd same (begins size)

/-- In most phases nothing is passed on, and nothing ends. -/
theorem Orderly.plain (unfinished : core.finished = [])
    (passes : phase.passes = none)
    (ends : ∀ reason, phase ≠ .finishing true reason)
    (parked : phase ≠ .parked) (begins : ∀ size, phase ≠ .beginning size) :
    Orderly core phase := by
  refine .running unfinished ?_ ?_ ?_ begins
  · intro pos member
    rw [passes] at member
    cases member
  · exact fun reason same => absurd same (ends reason)
  · exact fun same => absurd same parked

theorem Orderly.use (unfinished : core.finished = [])
    (request : Request) (data : Bytes) :
    Orderly (core.afterUse env request data)
      (core.usePhase env request data) := by
  refine .running unfinished (passes_usePhase env core request data)
    ?_ ?_ ?_
  · intro reason same
    unfold usePhase at same
    split at same
    · cases same
    · cases same
  · intro same
    unfold usePhase at same
    split at same
    · cases same
    · cases same
  · intro size same
    unfold usePhase at same
    split at same
    · cases same
    · cases same

theorem Orderly.detect (track : OnTrack core phase) {request : InputRequest}
    (detects : request.detects = true)
    (waiting : phase = .waiting request) :
    Orderly
      { core with
        input := (core.detected env request).input
        pool := (core.detected env request).pool }
      (core.detected env request).phase := by
  subst waiting
  have unfinished := track.finished_nil rfl
  have frame := detected_frame env detects track.aligned
  refine ⟨?_, ?_, ?_, ?_, ?_⟩
  · intro pos member
    rcases frame.phase with ⟨reason, finishing⟩ | ⟨detecting, _⟩
    · rw [finishing] at member
      cases member
    · generalize (core.detected env request).phase = phase
        at member detecting
      cases phase with
      | rawCallback | subCallback => cases detecting
      | _ => cases member
  · intro reason same
    rcases frame.phase with ⟨reason, finishing⟩ | ⟨detecting, _⟩
    · rw [finishing] at same
      cases same
    · rw [same] at detecting
      cases detecting
  · intro reason member
    rw [unfinished] at member
    cases member
  · intro same
    rcases frame.phase with ⟨reason, finishing⟩ | ⟨detecting, _⟩
    · rw [finishing] at same
      cases same
    · rw [same] at detecting
      cases detecting
  · intro size same
    obtain ⟨rest, calls⟩ := InputResult.calls_of_beginning same
    exact Input.complete_begins env _ core.pool detects calls

theorem Orderly.move (track : OnTrack core phase)
    (orderly : Orderly core phase)
    (move : Move Input.fetchCached env core phase event core' phase') :
    Orderly core' phase' := by
  cases move with
  | pause =>
      exact ⟨orderly.passes, orderly.ends, orderly.ended, fun _ => rfl,
        orderly.begins⟩
  | resume _ unparked =>
      refine ⟨orderly.passes, orderly.ends, orderly.ended, ?_,
        orderly.begins⟩
      intro same
      rw [same] at unparked
      cases unparked
  | otherPool =>
      exact ⟨orderly.passes, orderly.ends, orderly.ended, orderly.parked,
        orderly.begins⟩
  | detect request detects => exact .detect track detects rfl
  | finish success reason =>
      have unfinished := track.finished_nil rfl
      refine ⟨?_, ?_, ?_, ?_, ?_⟩
      · intro pos member
        cases member
      · intro reason same
        cases same
      · intro other member
        rw [unfinished, List.nil_append, List.mem_singleton] at member
        obtain ⟨rfl, rfl⟩ := Prod.mk.inj member
        exact orderly.ends other rfl
      · intro same
        cases same
      · intro size same
        cases same
  | atEnd done =>
      refine .running (track.finished_nil rfl) ?_ (fun _ _ => done) ?_ ?_
      · intro pos member
        cases member
      · intro same
        cases same
      · intro size same
        cases same
  | park more paused =>
      refine .running (track.finished_nil rfl) ?_ ?_ (fun _ => paused) ?_
      · intro pos member
        cases member
      · intro reason same
        cases same
      · intro size same
        cases same
  | use data => exact .use (track.finished_nil rfl) _ data
  | blockRead request size data =>
      exact @Orderly.use env (core.afterRead data) (track.finished_nil rfl)
        request _
  | subBlock =>
      refine .running (track.finished_nil rfl) ?_ ?_ ?_ ?_
      · intro pos member
        exact (Option.some.inj member).symm
      · intro reason same
        cases same
      · intro same
        cases same
      · intro size same
        cases same
  | _ =>
      refine .plain ?_ rfl ?_ ?_ ?_
      · exact track.finished_nil rfl
      · intro reason same
        cases same
      · intro same
        cases same
      · intro size same
        cases same

/-- The reader goes on to another sector when it is not paused and there are
more. -/
theorem fetches_move (track : OnTrack core phase)
    (late : phase.detecting = false)
    (move : Move Input.fetchCached env core phase event core' phase')
    (fetches : phase'.fetches = true) :
    phase.fetches = true ∨
      (core.input.paused = false ∧
        (sectorSize * core'.delivered.length : Nat) < core.input.size) := by
  have pos := track.pos
  cases move with
  | detect request detects => exact absurd (detects.symm.trans late) (by simp)
  | pause | resume | otherPool => exact Or.inl fetches
  | use data more running | ask cachePos size more running =>
      refine Or.inr ⟨running, ?_⟩
      simp only [Phase.lag, afterUse] at pos ⊢
      omega
  | blockRead | decompressed => exact Or.inl rfl
  | subBlock block more => exact Or.inl (decide_eq_true more)
  | nextSub block stays =>
      have more : block.suboffset + sectorSize < block.resultSize :=
        of_decide_eq_true fetches
      have unlast : block.last = false :=
        decide_eq_false (Nat.not_le.mpr more)
      have inside := track.block.2
      refine Or.inr ⟨?_, ?_⟩
      · cases paused : core.input.paused with
        | false => rfl
        | true => exact absurd ⟨paused, unlast⟩ stays
      · simp only [Phase.lag, advance] at pos ⊢
        omega
  | _ => cases fetches

/-- The owner pauses and resumes, and the pool is used. -/
theorem OnTrack.driven (track : OnTrack core phase) (paused : Bool)
    (pool : BufferPool) :
    OnTrack
      { core with
        input := { core.input with paused := paused }
        pool := pool } phase :=
  ⟨track.pos, track.bounded, track.reported, track.fresh, track.aligned,
    track.inside, track.blockSize, track.block⟩

theorem Orderly.driven (orderly : Orderly core phase) {paused : Bool}
    (parked : phase = .parked → paused = true) (pool : BufferPool) :
    Orderly
      { core with
        input := { core.input with paused := paused }
        pool := pool } phase :=
  ⟨orderly.passes, orderly.ends, orderly.ended, parked, orderly.begins⟩

theorem OnTrack.unpark (track : OnTrack core .parked) :
    OnTrack core .reading := by
  refine ⟨track.pos, track.bounded, track.reported, ?_,
    fun _ => track.aligned rfl, ?_, track.blockSize, trivial⟩
  · intro detecting
    cases detecting
  · intro atSector
    cases atSector

theorem Orderly.unpark (track : OnTrack core .parked) :
    Orderly core .reading := by
  refine .plain (track.finished_nil rfl) rfl ?_ ?_ ?_
  · intro reason same
    cases same
  · intro same
    cases same
  · intro size same
    cases same

/-- The reader itself does not pause. -/
theorem paused_move (track : OnTrack core phase)
    (move : Move Input.fetchCached env core phase event core' phase')
    (own : event = .run ∨ event = .complete 0) :
    core'.input.paused = core.input.paused := by
  cases move with
  | pause | resume | unpark | otherPool =>
      rcases own with same | same
      · cases same
      · cases same
  | detect request detects =>
      exact (detected_frame env detects track.aligned).spares.paused
  | _ => rfl

end Reader

/-! ## The part of a task -/

/-- What `ReadSector` and the loop over a decompressed block do before they
call their owner again. -/
def Input.runOwn (env : Environment) (input : Input) (pool : BufferPool) :
    InputCall → Option InputResult
  | .readSector => some (input.readSector env pool)
  | .rawDelivered => some (input.rawDelivered pool)
  | .subBlock block => some (input.subBlock env pool block)
  | .subDelivered block => some (input.subDelivered pool block)
  | _ => none

namespace CompressionTask

def inputCall : TaskCall → Option InputCall
  | .input call => some call
  | _ => none

/-- What the reader still has to do. -/
def inputCalls (calls : List TaskCall) : List InputCall :=
  calls.filterMap inputCall

variable {calls : List InputCall} {rest : List TaskCall}

@[simp]
theorem inputCalls_input (call : InputCall) :
    inputCalls (.input call :: rest) = call :: inputCalls rest := rfl

@[simp]
theorem inputCalls_output (call : OutputCall) :
    inputCalls (.output call :: rest) = inputCalls rest := rfl

@[simp]
theorem inputCalls_checkQueue :
    inputCalls (.checkQueue :: rest) = inputCalls rest := rfl

@[simp]
theorem inputCalls_begun (size : Int) :
    inputCalls (.begun size :: rest) = inputCalls rest := rfl

@[simp]
theorem inputCalls_progressed (pos total written : Int) :
    inputCalls (.progressed pos total written :: rest) =
      inputCalls rest := rfl

@[simp]
theorem inputCalls_inputs :
    inputCalls (calls.map .input ++ rest) = calls ++ inputCalls rest := by
  induction calls with
  | nil => rfl
  | cons call calls inductionHypothesis =>
      exact congrArg (call :: ·) inductionHypothesis

@[simp]
theorem inputCalls_outputs (calls : List OutputCall) :
    inputCalls (calls.map .output ++ rest) = inputCalls rest := by
  induction calls with
  | nil => rfl
  | cons call calls inductionHypothesis => exact inductionHypothesis

/-- The reader of a task is in a phase. -/
structure Reads (job : CompressionTask) (core : Reader) (phase : Phase) :
    Prop where
  input : job.input = (core.enter phase).input
  pool : job.pool = core.pool
  calls : inputCalls job.calls = phase.calls
  known : phase.knowsFormat = true → core.input.fileType ≠ .unknown
  track : Reader.OnTrack core phase
  orderly : Reader.Orderly core phase
  told : ∀ reason, (false, reason) ∈ core.finished → job.Failed

variable {env : Environment} {task : Task} {job next : CompressionTask}
variable {core : Reader} {phase : Phase}

theorem Reads.paused (reads : Reads job core phase) :
    job.input.paused = core.input.paused := by
  rw [reads.input, Reader.enter_paused]

theorem Reads.size (reads : Reads job core phase) :
    job.input.size = core.input.size := by
  rw [reads.input, Reader.enter_size]

/-- A step of the reader is a move. -/
theorem Reads.step (reads : Reads job core phase)
    {event : ReaderEvent} {target : Reader}
    (taken : Reader.step Input.fetchCached env (core.enter phase) event =
      some target)
    (input : next.input = target.input) (pool : next.pool = target.pool)
    (calls : inputCalls next.calls = target.calls)
    (told : ∀ reason, (false, reason) ∈ target.finished → next.Failed) :
    ∃ core' phase',
      Move Input.fetchCached env core phase event core' phase' ∧
        target = core'.enter phase' ∧ Reads next core' phase' := by
  obtain ⟨core', phase', move, same, known⟩ :=
    Reader.move_of_step reads.known taken
  subst same
  exact ⟨core', phase', move, rfl, input, pool, calls, known,
    reads.track.move move, reads.orderly.move reads.track move, told⟩

/-- Only the pool and what concerns others has changed. -/
theorem Reads.other (reads : Reads job core phase)
    (input : next.input = job.input)
    (calls : inputCalls next.calls = inputCalls job.calls)
    (failed : job.Failed → next.Failed) :
    Reads next { core with pool := next.pool } phase :=
  ⟨input.trans reads.input, rfl, calls.trans reads.calls, reads.known,
    reads.track.driven core.input.paused next.pool,
    reads.orderly.driven reads.orderly.parked next.pool,
    fun reason member => failed (reads.told reason member)⟩

theorem Reads.pause (reads : Reads job core phase)
    (input : next.input = job.input.pause)
    (calls : inputCalls next.calls = inputCalls job.calls)
    (failed : job.Failed → next.Failed) :
    Reads next
      { core with
        input := { core.input with paused := true }
        pool := next.pool } phase := by
  rw [reads.input] at input
  exact ⟨input, rfl, calls.trans reads.calls, reads.known,
    reads.track.driven true next.pool,
    reads.orderly.driven (fun _ => rfl) next.pool,
    fun reason member => failed (reads.told reason member)⟩

/-- A reader that is resumed goes on reading if it is parked. -/
theorem Reads.resume (reads : Reads job core phase)
    (input : next.input = job.input.resume.1)
    (calls : inputCalls next.calls =
      job.input.resume.2 ++ inputCalls job.calls)
    (failed : job.Failed → next.Failed) :
    ∃ phase', (phase' = phase ∨ phase = .parked ∧ phase' = .reading) ∧
      Reads next
        { core with
          input := { core.input with paused := false }
          pool := next.pool } phase' := by
  have told : ∀ reason, (false, reason) ∈ core.finished → next.Failed :=
    fun reason member => failed (reads.told reason member)
  have track := reads.track.driven false next.pool
  rw [reads.input] at input calls
  rw [reads.calls] at calls
  cases parked : phase.isParked with
  | false =>
      have unparked : phase ≠ .parked := by
        intro same
        rw [same] at parked
        cases parked
      rw [Input.resume, Reader.enter] at input calls
      simp only [parked, Bool.false_eq_true, if_false] at input calls
      refine ⟨phase, Or.inl rfl, ?_, rfl, calls, reads.known, track,
        reads.orderly.driven (fun same => absurd same unparked) next.pool,
        told⟩
      rw [input, Reader.enter, parked]
  | true =>
      have same : phase = .parked := by
        cases phase with
        | parked => rfl
        | _ => cases parked
      subst same
      exact ⟨.reading, Or.inr ⟨rfl, rfl⟩, input, rfl, calls,
        fun _ => reads.known rfl, track.unpark, .unpark track, told⟩

/-- The reader goes on by itself. -/
theorem Reads.own (reads : Reads job core phase)
    {call : InputCall} {rest : List TaskCall} {result : InputResult}
    (calls : job.calls = .input call :: rest)
    (result_eq : job.input.runOwn env job.pool call = some result)
    (input : next.input = result.input) (pool : next.pool = result.pool)
    (calls' : inputCalls next.calls = result.calls ++ inputCalls rest)
    (failed : job.Failed → next.Failed) :
    phase.detecting = false ∧ inputCalls rest = [] ∧ ∃ core' phase',
      Move Input.fetchCached env core phase .run core' phase' ∧
        core'.delivered = core.delivered ∧
        core'.finished = core.finished ∧ Reads next core' phase' := by
  have due := reads.calls
  rw [calls, inputCalls_input] at due
  rw [reads.input, reads.pool] at result_eq
  have alone : phase.detecting = false ∧ inputCalls rest = [] := by
    cases phase with
    | waiting | parked | stopped => cases due
    | beginning | rawCallback | subCallback =>
        obtain ⟨head, _⟩ := List.cons.inj due
        cases head
        cases result_eq
    | _ => exact ⟨rfl, (List.cons.inj due).2⟩
  refine ⟨alone.1, alone.2, ?_⟩
  have taken : Reader.step Input.fetchCached env (core.enter phase) .run =
      some ((core.enter phase).continueWith result (inputCalls rest)) := by
    rw [Reader.step, Reader.enter]
    dsimp only
    rw [← due]
    cases call with
    | callback | begin | finish => cases result_eq
    | readSector | rawDelivered | subBlock | subDelivered =>
        cases result_eq
        rfl
  obtain ⟨core', phase', move, same, again⟩ := reads.step taken input pool
    calls' fun reason member => failed (reads.told reason member)
  have delivered := congrArg Reader.delivered same
  have finished := congrArg Reader.finished same
  exact ⟨core', phase', move, delivered.symm, finished.symm, again⟩

/-- The event loop completes the request of the reader. -/
theorem Reads.complete (reads : Reads job core phase)
    (quiet : job.calls = []) {position : Nat} {request : InputRequest}
    (found : job.input.inFlight[position]? = some request)
    {result : InputResult}
    (result_eq :
      Input.complete env
        { job.input with
          inFlight := job.input.inFlight.eraseIdx position }
        job.pool request = result)
    (input : next.input = result.input) (pool : next.pool = result.pool)
    (calls : inputCalls next.calls = result.calls)
    (failed : job.Failed → next.Failed) :
    phase = .waiting request ∧ ∃ core' phase',
      Move Input.fetchCached env core phase (.complete 0) core' phase' ∧
        core'.delivered = core.delivered ∧
        core'.finished = core.finished ∧ Reads next core' phase' := by
  have due := reads.calls
  rw [quiet] at due
  rw [reads.input] at found
  have outstanding : phase.requests[position]? = some request := found
  have waiting : phase = .waiting request ∧ position = 0 := by
    cases phase with
    | waiting other =>
        cases position with
        | zero =>
            cases outstanding
            exact ⟨rfl, rfl⟩
        | succ position => cases outstanding
    | _ => cases outstanding
  obtain ⟨same, zero⟩ := waiting
  subst same zero
  refine ⟨rfl, ?_⟩
  rw [reads.input, reads.pool] at result_eq
  have taken : Reader.step Input.fetchCached env
      (core.enter (.waiting request)) (.complete 0) =
        some ((core.enter (.waiting request)).continueWith result []) := by
    rw [← result_eq]
    rfl
  obtain ⟨core', phase', move, same, again⟩ := reads.step taken input pool
    (calls.trans (List.append_nil _).symm)
    fun reason member => failed (reads.told reason member)
  have delivered := congrArg Reader.delivered same
  have finished := congrArg Reader.finished same
  exact ⟨core', phase', move, delivered.symm, finished.symm, again⟩

/-- A sector is passed on with its position. -/
theorem Reads.callback (reads : Reads job core phase)
    {pos : Int} {sector : Buffer} {supplied : Nat} {rest : List TaskCall}
    (calls : job.calls = .input (.callback pos sector supplied) :: rest)
    (input : next.input = job.input)
    (calls' : inputCalls next.calls = inputCalls rest)
    (failed : job.Failed → next.Failed) :
    pos = (sectorSize * core.delivered.length : Nat) ∧
      phase.fetches = true ∧ phase.detecting = false ∧ ∃ phase',
      Move Input.fetchCached env core phase .run
          (core.deliver pos sector supplied) phase' ∧
        phase'.fetches = false ∧ phase'.detecting = false ∧
        Reads next
          { core.deliver pos sector supplied with pool := next.pool }
          phase' := by
  have due := reads.calls
  rw [calls, inputCalls_input] at due
  have taken : Reader.step Input.fetchCached env (core.enter phase) .run =
      some
        { core.enter phase with
          calls := inputCalls rest
          delivered := core.delivered ++
            [⟨pos, FlatMemory.read sector.memory 0 sectorSize,
              supplied⟩] } := by
    rw [Reader.step, Reader.enter]
    dsimp only
    rw [← due]
    rfl
  obtain ⟨core', phase', move, same, again⟩ :=
    @Reads.step env job { job with calls := rest } core phase reads _ _ taken
      reads.input reads.pool rfl reads.told
  have position := reads.track.pos
  cases move with
  | rawCallback | subCallback =>
      obtain ⟨head, _⟩ := List.cons.inj due
      cases head
      have passes := reads.orderly.passes pos rfl
      simp only [Phase.lag] at position
      refine ⟨by omega, rfl, rfl, _, ?_, rfl, rfl,
        again.other input calls' failed⟩
      constructor
  | _ => cases due

/-- `begin_` is told the size of the image. -/
theorem Reads.begin (reads : Reads job core phase)
    {size : Int} {rest : List TaskCall}
    (calls : job.calls = .input (.begin size) :: rest) :
    phase = .beginning size ∧ size = core.input.size ∧
      Reads { job with calls := rest }
        { core with begun := core.begun ++ [size] } .reading := by
  have due := reads.calls
  rw [calls, inputCalls_input] at due
  have begins : phase = .beginning size ∧
      inputCalls rest = [.readSector] := by
    cases phase with
    | beginning other =>
        obtain ⟨head, tail⟩ := List.cons.inj due
        cases head
        exact ⟨rfl, tail⟩
    | _ => cases due
  obtain ⟨same, left⟩ := begins
  subst same
  have move := @Move.begin Input.fetchCached (Environment.ofFile []) core size
  exact ⟨rfl, reads.orderly.begins size rfl, reads.input, reads.pool, left,
    fun _ => reads.known rfl, reads.track.move move,
    reads.orderly.move reads.track move, reads.told⟩

theorem Reads.finish (reads : Reads job core phase)
    {success : Bool} {reason : String} {rest : List TaskCall}
    (calls : job.calls = .input (.finish success reason) :: rest)
    (input : next.input = job.input) (pool : next.pool = job.pool)
    (calls' : inputCalls next.calls = inputCalls rest)
    (failed : job.Failed → next.Failed)
    (told : success = false → next.Failed) :
    phase = .finishing success reason ∧
      Reads next
        { core with finished := core.finished ++ [(success, reason)] }
        .stopped := by
  have due := reads.calls
  rw [calls, inputCalls_input] at due
  have finishes : phase = .finishing success reason ∧
      inputCalls rest = [] := by
    cases phase with
    | finishing success reason =>
        obtain ⟨head, tail⟩ := List.cons.inj due
        cases head
        exact ⟨rfl, tail⟩
    | _ => cases due
  obtain ⟨same, left⟩ := finishes
  subst same
  have move := @Move.finish Input.fetchCached (Environment.ofFile []) core
    success reason
  refine ⟨rfl, input.trans reads.input, pool.trans reads.pool,
    calls'.trans left, ?_, reads.track.move move,
    reads.orderly.move reads.track move, ?_⟩
  · intro known
    cases known
  · intro other member
    rcases List.mem_append.mp member with before | last
    · exact failed (reads.told other before)
    · rw [List.mem_singleton] at last
      exact told (congrArg Prod.fst last).symm

/-! ## What every step keeps -/

/-- Files are opened once, and what has been told is not taken back. -/
structure Continues (job next : CompressionTask) : Prop where
  opening : job.opening = none → next.opening = none
  notices : ∀ notice ∈ job.notices, notice ∈ next.notices

theorem Continues.failed (continues : Continues job next)
    (failed : job.Failed) : next.Failed := by
  obtain ⟨status, reason, member⟩ := failed
  exact ⟨status, reason, continues.notices _ member⟩

theorem Continues.notify (notice : Notice)
    (opening : next.opening = job.opening)
    (notices : next.notices = job.notices ++ [notice]) :
    Continues job next := by
  refine ⟨opening.trans, ?_⟩
  intro other member
  rw [notices]
  exact List.mem_append_left _ member

theorem Continues.same (opening : next.opening = job.opening)
    (notices : next.notices = job.notices) : Continues job next := by
  refine ⟨opening.trans, ?_⟩
  rw [notices]
  exact fun _ member => member

theorem onBegin_error
    {size : Int} {reason : String}
    (failed : (begin task job.blockSize job.pool size).2 = .error reason)
    (rest : List TaskCall) :
    job.onBegin task size rest =
      { job with
        pool := (begin task job.blockSize job.pool size).1
        blockSize := largeBlockSize
        input := job.input.pause
        calls := rest }.notify (.error .invalidOption reason) := by
  unfold onBegin
  generalize begin task job.blockSize job.pool size = begun at failed ⊢
  obtain ⟨pool, outcome⟩ := begun
  dsimp only at failed ⊢
  rw [failed]

theorem onBegin_ok
    {size : Int} {blockSize : Nat}
    (accepted : (begin task job.blockSize job.pool size).2 = .ok blockSize)
    (rest : List TaskCall) :
    job.onBegin task size rest =
      { job with
        pool := (begin task job.blockSize job.pool size).1
        blockSize := blockSize
        output := (job.output.setFile (hasFlag task.flags taskflagMeasure)
          size blockSize (format task.flags) (task.origMaxCost blockSize)
          (task.lz4MaxCost blockSize)).1
        calls := (job.output.setFile (hasFlag task.flags taskflagMeasure)
          size blockSize (format task.flags) (task.origMaxCost blockSize)
          (task.lz4MaxCost blockSize)).2.map .output ++
            .begun size :: rest } := by
  unfold onBegin
  generalize begin task job.blockSize job.pool size = begun at accepted ⊢
  obtain ⟨pool, outcome⟩ := begun
  dsimp only at accepted ⊢
  rw [accepted]

theorem continues_onBegin (size : Int) (rest : List TaskCall) :
    Continues job (job.onBegin task size rest) := by
  unfold onBegin
  split
  · exact .notify _ rfl rfl
  · exact .same rfl rfl

theorem continues_runCall (call : TaskCall) (rest : List TaskCall) :
    Continues job (job.runCall env task call rest) := by
  cases call with
  | input call =>
      cases call with
      | begin size => exact continues_onBegin size rest
      | finish success reason =>
          cases success with
          | false => exact .notify _ rfl rfl
          | true => exact .same rfl rfl
      | _ => exact .same rfl rfl
  | output call =>
      cases call with
      | finish success reason =>
          cases success with
          | false => exact .notify _ rfl rfl
          | true => exact .notify _ rfl rfl
      | _ => exact .same rfl rfl
  | checkQueue => exact .same rfl rfl
  | begun size => exact .notify _ rfl rfl
  | progressed pos total written => exact .notify _ rfl rfl

theorem notices_onOpened (opening : Opening) (success : Bool) :
    ∀ notice ∈ job.notices,
      notice ∈ (job.onOpened env task opening success).notices := by
  intro notice member
  cases opening with
  | input =>
      cases success with
      | false => exact List.mem_append_left _ member
      | true =>
          unfold onOpened
          dsimp only
          split
          · exact member
          · exact member
  | output =>
      cases success with
      | false => exact List.mem_append_left _ member
      | true => exact member

theorem continues_step {event : TaskEvent}
    (taken : job.step env task event = some next) :
    Continues job next := by
  cases event with
  | run =>
      obtain ⟨call, rest, _, rfl⟩ := step_run taken
      exact continues_runCall call rest
  | opened success =>
      obtain ⟨opening, _, waiting, rfl⟩ := step_opened taken
      refine ⟨?_, notices_onOpened opening success⟩
      intro none
      rw [waiting] at none
      cases none
  | completed position =>
      obtain ⟨request, _, _, rfl⟩ := step_completed taken
      exact .same rfl rfl
  | compressed position status =>
      obtain ⟨queued, _, _, rfl⟩ := step_compressed taken
      exact .same rfl rfl
  | dataWritten position result =>
      obtain ⟨write, _, _, rfl⟩ := step_dataWritten taken
      exact .same rfl rfl
  | indexWritten position result =>
      obtain ⟨write, _, _, rfl⟩ := step_indexWritten taken
      exact .same rfl rfl

/-! ## Opening the files -/

/-- The files are not open yet, or could not be opened. -/
structure Closed (env : Environment) (task : Task)
    (job : CompressionTask) : Prop where
  input : job.input = Input.create env
  output : job.output = Output.create env task.flags
  calls : job.calls = []
  refused : job.opening = none → job.Failed

/-- The files are opened one after the other. -/
theorem Closed.opens (closed : Closed env task job) {event : TaskEvent}
    (taken : job.step env task event = some next) :
    (∃ opening, job.opening = some opening) ∧
      (next = { job with opening := none }.beginProcessing env ∨
        (Closed env task next ∧ next.pool = job.pool ∧
          next.blockSize = job.blockSize)) := by
  have refused : ∀ {reason : String} {status : TaskStatus},
      Closed env task
        ({ job with opening := none }.notify (.error status reason)) := by
    intro reason status
    exact ⟨closed.input, closed.output, closed.calls, fun _ =>
      ⟨status, reason, List.mem_append_right _ (List.mem_singleton_self _)⟩⟩
  cases event with
  | run =>
      obtain ⟨call, rest, calls, _⟩ := step_run taken
      rw [closed.calls] at calls
      cases calls
  | opened success =>
      obtain ⟨opening, _, waiting, rfl⟩ := step_opened taken
      refine ⟨⟨opening, waiting⟩, ?_⟩
      cases opening with
      | input =>
          cases success with
          | false => exact Or.inr ⟨refused, rfl, rfl⟩
          | true =>
              unfold onOpened
              dsimp only
              split
              · exact Or.inl rfl
              · refine Or.inr ⟨⟨closed.input, closed.output, closed.calls,
                  ?_⟩, rfl, rfl⟩
                intro same
                cases same
      | output =>
          cases success with
          | false => exact Or.inr ⟨refused, rfl, rfl⟩
          | true => exact Or.inl rfl
  | completed position =>
      obtain ⟨request, _, found, _⟩ := step_completed taken
      rw [closed.input] at found
      cases found
  | compressed position status =>
      obtain ⟨queued, _, found, _⟩ := step_compressed taken
      rw [closed.output] at found
      cases found
  | dataWritten position result =>
      obtain ⟨write, _, found, _⟩ := step_dataWritten taken
      rw [closed.output] at found
      cases found
  | indexWritten position result =>
      obtain ⟨write, _, found, _⟩ := step_indexWritten taken
      rw [closed.output] at found
      cases found

/-- `Pipe` starts the reader. -/
theorem Closed.pipe (closed : Closed env task job) :
    Reads ({ job with opening := none }.beginProcessing env)
      (Reader.start env job.pool) (Reader.startPhase env job.pool) := by
  have situated := Reader.situated_start env job.pool
  refine ⟨?_, ?_, ?_, situated.known, situated.track, ?_, ?_⟩
  · rw [beginProcessing]
    dsimp only
    rw [closed.input]
    rfl
  · rw [beginProcessing]
    dsimp only
    rw [closed.input]
    rfl
  · rw [beginProcessing]
    dsimp only
    rw [closed.calls]
    rfl
  · refine .plain rfl rfl ?_ ?_ ?_
    · intro reason same
      cases same
    · intro same
      cases same
    · intro size same
      cases same
  · intro reason member
    cases member

/-- A task that is refused has not opened anything. -/
theorem closed_start (pool : BufferPool) :
    Closed env task (start env task pool) := by
  unfold start
  dsimp only
  cases (enqueue task pool).2 with
  | error reason =>
      exact ⟨rfl, rfl, rfl, fun _ =>
        ⟨.invalidOption, reason, List.mem_singleton_self _⟩⟩
  | ok blockSize =>
      refine ⟨rfl, rfl, rfl, ?_⟩
      intro same
      cases same

end CompressionTask

end Maxcso
