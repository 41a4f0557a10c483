import Maxcso.Task.Contents
import Maxcso.Task.Ending

/-!
# Tasks that succeed

A task that reads a file that stands for an image, with methods whose results
its container takes, and for which everything else succeeds, is not told of any
error, and every run of it can be completed.
-/

namespace Maxcso

open Transition

/-- Everything succeeds. -/
def TaskCompletions.succeed : TaskCompletions :=
  ⟨.full, fun _ _ _ => True⟩

theorem BufferPool.Spare.alloc {pool : BufferPool} {lent : Nat}
    (spare : pool.Spare lent) (heap : Nat → Nat → UInt8) :
    (pool.alloc heap).2.Spare (lent + 1) := by
  unfold Spare at spare ⊢
  unfold BufferPool.alloc
  cases last : pool.free.getLast? with
  | none =>
      dsimp only
      omega
  | some buffer =>
      dsimp only
      rw [List.length_dropLast]
      omega

namespace CompressionTask

/-- A task that is accepted, and that can make its buffers as large as it
wants. -/
structure Prepared (task : Task) (pool : BufferPool) : Prop where
  blockSize : ∃ blockSize, firstBlockSize task = .ok blockSize
  spare : pool.Spare 0

section

variable {env : Environment} {task : Task} {pool initial : BufferPool}
variable {file image : Bytes} {base : Input} {job next : CompressionTask}
variable {events : List TaskEvent} {event : TaskEvent}
variable {may : TaskCompletions} {ledger : Ledger} {core : Reader}
variable {phase : Phase} {config : WriterConfig} {writer : Writer}

/-! ## The reader of the image -/

/-- The size of what is written is the size of the image. -/
theorem Writing.size_eq
    (represents : env.Represents file image base)
    (writing : Writing env config may initial ledger job core phase
      writer) :
    core.input.found = base ∧ config.srcSize = image.length := by
  have found : core.input.found = base := by
    have run : Execution (Reader.step Input.fetchCached env)
        (Reader.Permitted may) (Reader.start env initial) ledger.reads
        (core.enter phase) := writing.reached
    have known : (core.enter phase).input.found = base :=
      Reader.found_of_run represents.finds run writing.begun
    exact known
  refine ⟨found, ?_⟩
  have size : core.input.size = image.length := by
    rw [← represents.size, ← found]
    rfl
  have same := writing.size
  omega

/-- There is room for the blocks of the input. -/
theorem Writing.room_for_input
    (sourced : Sourced env task file image base)
    (accepted : config.Accepted env)
    (run : Execution (CompressionTask.step env task) (Allowed may)
      (start env task pool) events job)
    (writing : Writing env config may initial ledger job core phase
      writer) : base.csoBlockSize * 2 ≤ (core.enter phase).pool.bufferSize := by
  obtain ⟨found, srcSize⟩ := writing.size_eq sourced.represents
  have begun : job.output.blockSize ≠ 0 := by
    rw [writing.blockSize accepted]
    have bounds := config.blockSize_bounds
    omega
  have size : job.input.size = image.length := by
    rw [writing.reads.size, writing.size, srcSize]
  have blocks : job.input.csoBlockSize = base.csoBlockSize := by
    rw [writing.reads.input, ← found]
    rfl
  have room := room_of_run run begun
    (by rw [size, blocks]; exact sourced.fits)
  rw [blocks, writing.reads.pool] at room
  exact room

/-- The reader of a task that writes the image does not fail. -/
theorem Writing.unfailing_reader
    (sourced : Sourced env task file image base)
    (accepted : config.Accepted env)
    (run : Execution (CompressionTask.step env task) (Allowed may)
      (start env task pool) events job)
    (writing : Writing env config may initial ledger job core phase
      writer) :
    (∀ reason, .input (.finish false reason) ∉ job.calls) ∧
      ∀ event, (core.enter phase).Reaches env event := by
  obtain ⟨unfailing, reaches⟩ := Reader.unfailing_of_represents
    sourced.complete sourced.works sourced.represents
    (Execution.weaken (fun _ _ permitted => permitted.1) writing.reached)
    writing.begun (writing.room_for_input sourced accepted run)
  refine ⟨?_, reaches⟩
  intro reason due
  have calls : .finish false reason ∈ inputCalls job.calls :=
    List.mem_filterMap.mpr ⟨_, due, rfl⟩
  rw [writing.reads.calls] at calls
  exact unfailing reason calls

/-- It passes on the image. -/
theorem Writing.supplies
    (sourced : Sourced env task file image base)
    (accepted : config.Accepted env)
    (run : Execution (CompressionTask.step env task) (Allowed may)
      (start env task pool) events job)
    (writing : Writing env config may initial ledger job core phase
      writer) : Supplies core.delivered image := by
  have sectors : (core.enter phase).delivered.map Delivery.content =
      sectorsOf image (core.enter phase).delivered.length :=
    Reader.delivered_of_represents sourced.complete sourced.works
      sourced.represents
      (Execution.weaken (fun _ _ permitted => permitted.1) writing.reached)
      (writing.room_for_input sourced accepted run)
  exact supplies_of_sectorsOf sectors

/-! ## Completing a run -/

/-- What is decompressed reaches the sector that it is decompressed for. -/
theorem Stage.allowed
    (sourced : Sourced env task file image base)
    (run : Execution (CompressionTask.step env task) (Allowed may)
      (start env task pool) events job)
    (stage : Stage env task may initial ledger job)
    (allowed : Allowed .succeed job event) :
    Allowed (.full env) job event := by
  cases event with
  | completed position =>
      intro request found actualBuf source offset isLz4 data same worked
      subst same
      have member := List.mem_of_getElem? found
      have elsewhere {core : Reader} {phase : Phase}
          (reads : Reads job core phase) (detecting : phase.fetches = true →
            phase.detecting = true) : False := by
        rw [reads.input] at member
        cases phase with
        | waiting request =>
            have only := List.mem_singleton.mp member
            subst only
            cases detecting rfl
        | _ => cases member
      cases stage with
      | unopened unopened =>
          rw [unopened.closed.input] at found
          cases found
      | detecting core phase detecting =>
          exact (elsewhere detecting.reads fun _ => detecting.detecting).elim
      | failing core phase before alone | vacant core phase before alone =>
          refine (elsewhere alone.reads fun fetches => ?_).elim
          rw [alone.fetchless] at fetches
          cases fetches
      | writing config core phase writer opens accepted writing =>
          have reaches := (writing.unfailing_reader sourced accepted
            run).2 (.complete position)
          rw [writing.reads.input] at found worked
          rw [writing.reads.pool] at worked
          exact reaches _ _ _ _ _ found worked
  | run | opened => trivial
  | compressed | dataWritten | indexWritten => exact allowed

theorem full_of_run
    (sourced : Sourced env task file image base)
    (run : Execution (step env task) (Unhindered .succeed)
      (start env task pool) events job) :
    Execution (step env task) (Allowed (.full env)) (start env task pool)
      events job := by
  refine @Execution.track _ _ (step env task) (Unhindered .succeed)
    (fun events job => Execution (step env task) (Allowed (.full env))
      (start env task pool) events job)
    ?_ _ _ _ run (Execution.nil _)
  intro events source event target before unhindered taken
  obtain ⟨ledger, _, stage⟩ := stage_of_run before
  exact before.snoc (stage.allowed sourced before unhindered.1) taken

/-- A run in which everything succeeds can be completed so. -/
theorem drains_of_run
    (sourced : Sourced env task file image base)
    (run : Execution (step env task) (Unhindered .succeed)
      (start env task pool) events job) :
    ∃ more last, Execution (step env task) (Unhindered .succeed) job more
        last ∧ last.Drained := by
  have before := full_of_run sourced run
  obtain ⟨more, last, after, settled⟩ :=
    @settles_of_run _ _ _ _ _ _ (TaskCompletions.full_reaches env)
      (Unhindered (.full env)) (fun _ _ permitted => permitted.1) before
  have whole := before.append (after.weaken fun _ _ permitted => permitted.1)
  obtain ⟨ledger, _, stage⟩ := stage_of_run whole
  refine ⟨more, last, after.weaken ?_, ?_⟩
  · intro job event permitted
    refine ⟨?_, permitted.2⟩
    cases event with
    | completed => exact fun _ _ => trivial
    | run | opened => trivial
    | compressed | dataWritten | indexWritten => exact permitted.1
  · rcases drained_of_settled Writer.Completions.possible_full settled with
      drained | ⟨request, found, never⟩
    · exact drained
    · have allowed : Allowed (.full env) last (.completed 0) :=
        stage.allowed sourced whole fun _ _ => trivial
      exact absurd (allowed request found) never

end

/-! ## What is needed -/

/-- What a task needs to succeed. -/
structure Favourable (env : Environment) (task : Task) (pool : BufferPool)
    (file image : Bytes) (base : Input) : Prop
    extends Sourced env task file image base, Prepared task pool where
  accepts : ∀ config : WriterConfig, Opens task config →
    config.srcSize = image.length → config.Accepted env
  admits : ∀ archive : Archive, archive.env = env →
    Opens task archive.toWriterConfig → archive.srcSize = image.length →
      archive.image = image →
        archive.Admissible ∧ archive.IndexPasses ∧ archive.report = []

/-- How a task gets to its image. -/
inductive Starting (env : Environment) (base : Input)
    (job : CompressionTask) : Prop
  | opening (opening : Opening) (waits : job.opening = some opening)
      (spare : job.pool.Spare 0)
  | asks (request : InputRequest) (fuel : Nat)
      (inFlight : job.input.inFlight = [request])
      (finds : Input.Finds env base fuel job.input request)
      (spare : job.pool.Spare request.lent)
  | begins (size : Int) (rest : List TaskCall)
      (calls : job.calls = .input (.begin size) :: rest)
      (found : job.input.found = base) (spare : job.pool.Spare 0)

/-- No error has been told or is about to be. -/
structure Hopeful (env : Environment) (base : Input)
    (job : CompressionTask) : Prop where
  unfailed : ¬ Failing job
  filled : ¬ job.Empty
  starting : job.output.blockSize = 0 → Starting env base job

section

variable {env : Environment} {task : Task} {pool initial : BufferPool}
variable {file image : Bytes} {base : Input} {job next : CompressionTask}
variable {events : List TaskEvent} {event : TaskEvent}
variable {may : TaskCompletions} {ledger : Ledger} {core : Reader}
variable {phase : Phase} {config : WriterConfig} {writer : Writer}

/-! ## No error -/

/-- What tells of an error. -/
theorem failed_of_step (taken : job.step env task event = some next)
    (failed : next.Failed) :
    job.Failed ∨ event = .opened false ∨
      (∃ reason, .input (.finish false reason) ∈ job.calls ∨
        .output (.finish false reason) ∈ job.calls) ∨
      ∃ size rest, job.calls = .input (.begin size) :: rest := by
  obtain ⟨status, reason, member⟩ := failed
  have before {notice : Notice} (told : .error status reason ∈
      job.notices ++ [notice]) (other : notice ≠ .error status reason) :
      job.Failed := by
    rcases List.mem_append.mp told with earlier | last
    · exact ⟨status, reason, earlier⟩
    · exact absurd (List.mem_singleton.mp last).symm other
  cases event with
  | run =>
      obtain ⟨call, rest, calls, rfl⟩ := step_run taken
      cases call with
      | input call =>
          cases call with
          | readSector | rawDelivered | subBlock | subDelivered | callback =>
              exact Or.inl ⟨status, reason, member⟩
          | begin size => exact Or.inr (Or.inr (Or.inr ⟨size, rest, calls⟩))
          | finish success cause =>
              cases success with
              | true => exact Or.inl ⟨status, reason, member⟩
              | false =>
                  refine Or.inr (Or.inr (Or.inl ⟨cause, Or.inl ?_⟩))
                  rw [calls]
                  exact List.mem_cons_self
      | output call =>
          cases call with
          | pad | sectorReady | afterProgress | progress =>
              exact Or.inl ⟨status, reason, member⟩
          | finish success cause =>
              cases success with
              | true => exact Or.inl (before member Notice.noConfusion)
              | false =>
                  refine Or.inr (Or.inr (Or.inl ⟨cause, Or.inr ?_⟩))
                  rw [calls]
                  exact List.mem_cons_self
      | checkQueue => exact Or.inl ⟨status, reason, member⟩
      | begun size => exact Or.inl (before member Notice.noConfusion)
      | progressed => exact Or.inl (before member Notice.noConfusion)
  | opened success =>
      obtain ⟨opening, _, _, rfl⟩ := step_opened taken
      cases success with
      | false => exact Or.inr (Or.inl rfl)
      | true =>
          refine Or.inl ⟨status, reason, ?_⟩
          cases opening with
          | output => exact member
          | input =>
              unfold onOpened at member
              dsimp only at member
              split at member
              · exact member
              · exact member
  | completed position =>
      obtain ⟨request, _, _, rfl⟩ := step_completed taken
      exact Or.inl ⟨status, reason, member⟩
  | compressed position result =>
      obtain ⟨queued, _, _, rfl⟩ := step_compressed taken
      exact Or.inl ⟨status, reason, member⟩
  | dataWritten position result =>
      obtain ⟨write, _, _, rfl⟩ := step_dataWritten taken
      exact Or.inl ⟨status, reason, member⟩
  | indexWritten position result =>
      obtain ⟨write, _, _, rfl⟩ := step_indexWritten taken
      exact Or.inl ⟨status, reason, member⟩

/-! ## Opening the files -/

theorem hopeful_start
    (favourable : Favourable env task pool file image base) :
    Hopeful env base (start env task pool) := by
  obtain ⟨blockSize, chosen⟩ := favourable.blockSize
  obtain ⟨resized, spare⟩ := favourable.spare.resizes (blockSize * 2)
  have enqueued : enqueue task pool =
      ((pool.setBufferSize (blockSize * 2)).1, .ok blockSize) := by
    rw [enqueue, chosen]
    dsimp only
    rw [resize, if_pos resized]
  unfold start
  rw [enqueued]
  refine ⟨?_, ?_, fun _ => .opening .input rfl spare⟩
  · intro failing
    rcases failing with ⟨_, _, member⟩ | ⟨_, member | member⟩
    · cases member
    · cases member
    · cases member
  · intro empty
    have hasFile := empty.1
    cases hasFile

/-- Only files are opened. -/
theorem Closed.opened_of_step (closed : Closed env task job)
    (taken : job.step env task event = some next) :
    ∃ opening success, event = .opened success ∧
      next = job.onOpened env task opening success := by
  cases event with
  | run =>
      obtain ⟨call, rest, calls, _⟩ := step_run taken
      rw [closed.calls] at calls
      cases calls
  | opened success =>
      obtain ⟨opening, _, _, same⟩ := step_opened taken
      exact ⟨opening, success, rfl, same⟩
  | completed position =>
      obtain ⟨request, _, found, _⟩ := step_completed taken
      rw [closed.input] at found
      cases found
  | compressed position status =>
      obtain ⟨queued, _, found, _⟩ := step_compressed taken
      rw [closed.output] at found
      cases found
  | dataWritten position result =>
      obtain ⟨write, _, found, _⟩ := step_dataWritten taken
      rw [closed.output] at found
      cases found
  | indexWritten position result =>
      obtain ⟨write, _, found, _⟩ := step_indexWritten taken
      rw [closed.output] at found
      cases found

/-- The header is asked for. -/
theorem Closed.hopeful_pipe
    (represents : env.Represents file image base)
    (closed : Closed env task job) (spare : job.pool.Spare 0)
    (unfailed : ¬ job.Failed) :
    Hopeful env base ({ job with opening := none }.beginProcessing env) := by
  unfold beginProcessing
  dsimp only
  rw [closed.input]
  refine ⟨?_, ?_, fun _ => .asks (.readHeader (job.pool.alloc env.heap).1) 2
    rfl (represents.finds _ _ rfl) (spare.alloc _)⟩
  · intro failing
    rcases failing with failed | ⟨reason, due⟩
    · exact unfailed failed
    · dsimp only at due
      rw [closed.calls] at due
      rcases due with member | member
      · cases member
      · cases member
  · intro empty
    have hasFile : job.output.stateHasFile = true := empty.1
    rw [closed.output] at hasFile
    cases hasFile

theorem Closed.hopeful
    (represents : env.Represents file image base)
    (closed : Closed env task job) (hopeful : Hopeful env base job)
    (opens : event ≠ .opened false)
    (taken : job.step env task event = some next) :
    Hopeful env base next := by
  have unfailed : ¬ job.Failed := fun failed => hopeful.unfailed (Or.inl failed)
  have spare : job.pool.Spare 0 := by
    have fresh : job.output.blockSize = 0 := by
      rw [closed.output]
      rfl
    cases hopeful.starting fresh with
    | opening _ _ spare => exact spare
    | asks request fuel inFlight =>
        rw [closed.input] at inFlight
        cases inFlight
    | begins size rest calls =>
        rw [closed.calls] at calls
        cases calls
  have piped := closed.hopeful_pipe represents spare unfailed
  obtain ⟨opening, success, same, rfl⟩ := closed.opened_of_step taken
  cases success with
  | false => exact absurd same opens
  | true =>
      cases opening with
      | output => exact piped
      | input =>
          unfold onOpened
          dsimp only
          split
          · exact piped
          · exact ⟨hopeful.unfailed, hopeful.filled,
              fun _ => .opening .output rfl spare⟩

/-! ## Finding the image -/

theorem unfailing_of_calls {phase : Phase} (unfailed : ¬ next.Failed)
    (calls : next.calls = phase.calls.map .input)
    (fine : ∀ reason, phase ≠ .finishing false reason) : ¬ Failing next := by
  intro failing
  rcases failing with failed | ⟨reason, due⟩
  · exact unfailed failed
  · rw [calls] at due
    rcases due with member | member
    · obtain ⟨call, called, same⟩ := List.mem_map.mp member
      cases same
      cases phase with
      | finishing success other =>
          cases List.mem_singleton.mp called
          exact fine reason rfl
      | _ => simp [Phase.calls] at called
    · obtain ⟨call, called, same⟩ := List.mem_map.mp member
      cases same

/-- The detection goes on or is over. -/
theorem Detecting.hopeful_completed
    (detecting : Detecting env task may initial ledger job core phase)
    (hopeful : Hopeful env base job) {request : InputRequest} {fuel : Nat}
    (inFlight : job.input.inFlight = [request])
    (finds : Input.Finds env base fuel job.input request)
    (spare : job.pool.Spare request.lent) {position : Nat}
    (taken : job.step env task (.completed position) = some next) :
    Hopeful env base next := by
  obtain ⟨asked, quiet, found, same⟩ := step_completed taken
  obtain ⟨waiting, core', phase', move, _, _, again⟩ :=
    @Reads.complete env job next core phase detecting.reads quiet position
      asked found _ rfl (congrArg CompressionTask.input same)
      (congrArg CompressionTask.pool same)
      (same ▸ inputCalls_inputs.trans (List.append_nil _))
      (continues_step taken).failed
  subst waiting
  have reads := detecting.reads
  have detects : asked.detects = true := detecting.detecting
  have one : asked = request := by
    rw [reads.input] at inFlight
    exact (List.cons.inj inFlight).1
  subst one
  have kept : next.output = job.output ∧ next.notices = job.notices := by
    rw [same]
    exact ⟨rfl, rfl⟩
  have pushed : next.calls = phase'.calls.map .input := by
    have after := again.calls
    subst same
    rw [continueInput, inputCalls_inputs] at after
    have pushed := (List.append_nil _).symm.trans after
    rw [continueInput, pushed]
    exact List.append_nil _
  have unfailed : ¬ next.Failed := by
    intro failed
    obtain ⟨status, reason, member⟩ := failed
    rw [kept.2] at member
    exact hopeful.unfailed (Or.inl ⟨status, reason, member⟩)
  have filled : ¬ next.Empty := by
    intro empty
    have hasFile := empty.1
    rw [kept.1, detecting.output] at hasFile
    cases hasFile
  rw [reads.pool] at spare
  have known : Input.Finds env base fuel core.input asked := by
    rw [reads.input] at finds
    exact @Input.finds_congr env base (core.enter (.waiting asked)).input
      core.input fuel asked rfl rfl finds
  cases move with
  | detect _ _ =>
      have given := Input.complete_spare env (core.enter .stopped).input
        detects spare
      have pool : next.pool = (core.detected env asked).pool := again.pool
      cases fuel with
      | zero => exact known.elim
      | succ fuel =>
          rcases known.2 (core.enter .stopped).input core.pool rfl rfl rfl with
            ⟨_, held⟩ | ⟨size, begins, found⟩ | ⟨other, waits, finds'⟩
          · exact absurd spare held
          · have begun : (core.detected env asked).phase =
                .beginning size := begins
            rw [begun] at pushed again
            refine ⟨unfailing_of_calls unfailed pushed ?_, filled, fun _ =>
              .begins size _ pushed ?_ ?_⟩
            · intro reason
              exact Phase.noConfusion
            · rw [again.input]
              exact found
            · rw [pool]
              refine given.resolve_left ?_
              intro failing
              obtain ⟨reason, failing⟩ := failing
              rw [begins] at failing
              cases failing
          · have asks : (core.detected env asked).phase =
                .waiting other := waits
            rw [asks] at pushed again
            have left : next.pool.Spare 0 := by
              rw [pool]
              refine given.resolve_left ?_
              intro failing
              obtain ⟨reason, failing⟩ := failing
              rw [waits] at failing
              cases failing
            refine ⟨unfailing_of_calls unfailed pushed ?_, filled, fun _ =>
              .asks other fuel ?_ ?_ (left.trans (Nat.le_add_right _ _))⟩
            · intro reason
              exact Phase.noConfusion
            · rw [again.input]
              rfl
            · rw [again.input]
              exact @Input.finds_congr env base
                (core.detected env asked).input _ fuel other rfl rfl finds'
  | blockMissing | blockShort | blockRead => cases detects
  | workFailed | workRejected | decompressed => cases detects

/-- The writer takes the image. -/
theorem Detecting.hopeful_begins
    (favourable : Favourable env task pool file image base)
    (detecting : Detecting env task may initial ledger job core phase)
    (hopeful : Hopeful env base job) {size : Int} {rest : List TaskCall}
    (calls : job.calls = .input (.begin size) :: rest)
    (found : job.input.found = base) (spare : job.pool.Spare 0) :
    Hopeful env base (job.onBegin task size rest) := by
  obtain ⟨_, known, left⟩ := detecting.beginning calls
  have sizes : job.input.size = image.length := by
    rw [← favourable.represents.size, ← found]
    rfl
  have image_eq : size = image.length := by
    rw [known, ← detecting.reads.size, sizes]
  have positive : 0 < size := by
    have some := favourable.documented.whole.1
    omega
  obtain ⟨blockSize, outcome⟩ : ∃ blockSize,
      (begin task job.blockSize job.pool size).2 = .ok blockSize := by
    by_cases resizes : Resizes task size
    · rw [begin_resizes resizes, resize, if_pos (spare.resizes _).1]
      exact ⟨_, rfl⟩
    · rw [begin_stays resizes]
      exact ⟨_, rfl⟩
  obtain ⟨_, config, opens, srcSize, blocks⟩ :=
    detecting.config calls positive outcome
  have accepted : config.Accepted env :=
    favourable.accepts config opens (by omega)
  have opened := detecting.opened_eq opens srcSize blocks
  rw [WriterConfig.Accepted, opened] at accepted
  have bounds := config.blockSize_bounds
  rw [onBegin_ok outcome, accepted, left]
  refine ⟨?_, ?_, ?_⟩
  · intro failing
    rcases failing with failed | ⟨reason, due⟩
    · exact hopeful.unfailed (Or.inl failed)
    · simp at due
  · intro empty
    have none : job.input.size ≤ 0 := empty.2
    omega
  · intro closed
    have same : (job.output.setFile (hasFlag task.flags taskflagMeasure) size
        blockSize (format task.flags) (task.origMaxCost blockSize)
        (task.lz4MaxCost blockSize)).1.blockSize = 0 := closed
    rw [setFile_blockSize] at same
    omega

theorem Detecting.hopeful
    (favourable : Favourable env task pool file image base)
    (detecting : Detecting env task may initial ledger job core phase)
    (hopeful : Hopeful env base job)
    (taken : job.step env task event = some next) :
    Hopeful env base next := by
  have fresh : job.output.blockSize = 0 := by
    rw [detecting.output]
    rfl
  have busy : ∀ {calls : List TaskCall} {size : Int} {rest : List TaskCall},
      calls = [] → calls ≠ .input (.begin size) :: rest := by
    intro calls size rest quiet due
    rw [quiet] at due
    cases due
  cases hopeful.starting fresh with
  | opening opening waits =>
      rw [detecting.opened] at waits
      cases waits
  | asks request fuel inFlight finds spare =>
      cases event with
      | completed position =>
          exact detecting.hopeful_completed hopeful inFlight finds spare taken
      | run =>
          obtain ⟨call, rest, calls, _⟩ := step_run taken
          have waiting := detecting.reads.input ▸ inFlight
          have due := detecting.calls
          rw [calls] at due
          cases phase with
          | waiting => cases due
          | _ => cases waiting
      | opened success =>
          obtain ⟨opening, _, waits, _⟩ := step_opened taken
          rw [detecting.opened] at waits
          cases waits
      | compressed position status =>
          obtain ⟨queued, _, found, _⟩ := step_compressed taken
          rw [detecting.output] at found
          cases found
      | dataWritten position result =>
          obtain ⟨write, _, found, _⟩ := step_dataWritten taken
          rw [detecting.output] at found
          cases found
      | indexWritten position result =>
          obtain ⟨write, _, found, _⟩ := step_indexWritten taken
          rw [detecting.output] at found
          cases found
  | begins size rest calls found spare =>
      cases event with
      | run =>
          obtain ⟨call, others, due, rfl⟩ := step_run taken
          rw [calls] at due
          cases due
          exact detecting.hopeful_begins favourable hopeful calls found spare
      | opened success =>
          obtain ⟨_, quiet, _⟩ := step_opened taken
          exact absurd calls (busy quiet)
      | completed position =>
          obtain ⟨_, quiet, _⟩ := step_completed taken
          exact absurd calls (busy quiet)
      | compressed position status =>
          obtain ⟨_, quiet, _⟩ := step_compressed taken
          exact absurd calls (busy quiet)
      | dataWritten position result =>
          obtain ⟨_, quiet, _⟩ := step_dataWritten taken
          exact absurd calls (busy quiet)
      | indexWritten position result =>
          obtain ⟨_, quiet, _⟩ := step_indexWritten taken
          exact absurd calls (busy quiet)

/-! ## Writing the image -/

/-- The writer does not fail. -/
theorem Writing.unfailing_writer
    (favourable : Favourable env task pool file image base)
    (opens : Opens task config) (accepted : config.Accepted env)
    (run : Execution (CompressionTask.step env task) (Allowed (.full env))
      (start env task pool) events job)
    (writing : Writing env config (.full env) initial ledger job core phase
      writer) (reason : String) :
    .output (.finish false reason) ∉ job.calls := by
  obtain ⟨_, srcSize⟩ := writing.size_eq favourable.represents
  have length : image.length = config.sourceSize := by
    rw [WriterConfig.sourceSize, srcSize,
      RoundUp.roundUp_eq_self favourable.documented.whole.2]
  let archive : Archive := ⟨config, env, image, length, accepted⟩
  obtain ⟨admissible, passes, silent⟩ :=
    favourable.admits archive rfl opens srcSize rfl
  obtain ⟨pipeline, filled, _, _, faultless⟩ :=
    @Writing.onCourse _ _ _ _ _ _ _ _ _ writing archive rfl rfl
      (writing.supplies favourable.toSourced accepted run) _ Course.faultless_start
      fun _ _ sound faultless move =>
        faultless.move admissible passes sound move
  intro due
  have calls : .output (.finish false reason) ∈ writerCalls job.calls :=
    List.mem_filterMap.mpr ⟨_, due, rfl⟩
  rw [writing.calls] at calls
  have reported := faultless.reported (Or.inl ⟨reason, calls⟩)
  exact reported.1 silent

/-- While the image is written `begin_` is not called. -/
theorem Writing.begun_before
    (writing : Writing env config may initial ledger job core phase
      writer) {size : Int} {rest : List TaskCall} :
    job.calls ≠ .input (.begin size) :: rest := by
  intro calls
  have due := writing.reads.calls
  rw [calls, inputCalls_input] at due
  have late := writing.late
  cases phase with
  | beginning => cases late
  | _ => cases due

theorem Writing.hopeful_step
    (favourable : Favourable env task pool file image base)
    (opens : Opens task config) (accepted : config.Accepted env)
    (run : Execution (CompressionTask.step env task) (Allowed (.full env))
      (start env task pool) events job)
    (writing : Writing env config (.full env) initial ledger job core phase
      writer) (hopeful : Hopeful env base job)
    (allowed : Allowed (.full env) job event)
    (opened : event ≠ .opened false)
    (taken : job.step env task event = some next) :
    Hopeful env base next := by
  obtain ⟨ledger', core', phase', writer', _, again⟩ :=
    writing.step accepted allowed taken
  have continued := run.snoc allowed taken
  refine ⟨?_, again.filled, ?_⟩
  · intro failing
    rcases failing with failed | ⟨reason, due | due⟩
    · rcases failed_of_step taken failed with
        failed | refused | ⟨reason, due | due⟩ | ⟨size, rest, calls⟩
      · exact hopeful.unfailed (Or.inl failed)
      · exact opened refused
      · exact (writing.unfailing_reader favourable.toSourced accepted run).1
          reason due
      · exact writing.unfailing_writer favourable opens accepted run reason due
      · exact writing.begun_before calls
    · exact (again.unfailing_reader favourable.toSourced accepted continued).1
        reason
        due
    · exact again.unfailing_writer favourable opens accepted continued reason
        due
  · intro closed
    rw [again.blockSize accepted] at closed
    have bounds := config.blockSize_bounds
    omega

/-! ## Every run -/

theorem Stage.hopeful_step
    (favourable : Favourable env task pool file image base)
    (run : Execution (CompressionTask.step env task) (Allowed (.full env))
      (start env task pool) events job)
    (stage : Stage env task (.full env) initial ledger job)
    (hopeful : Hopeful env base job)
    (allowed : Allowed (.full env) job event)
    (opened : event ≠ .opened false)
    (taken : job.step env task event = some next) :
    Hopeful env base next := by
  cases stage with
  | unopened unopened =>
      exact unopened.closed.hopeful favourable.represents hopeful opened taken
  | detecting core phase detecting =>
      exact detecting.hopeful favourable hopeful taken
  | failing core phase before alone fileless failing =>
      exact absurd failing hopeful.unfailed
  | vacant core phase before alone vacant =>
      exact absurd (vacant.isEmpty alone) hopeful.filled
  | writing config core phase writer opens accepted writing =>
      exact writing.hopeful_step favourable opens accepted run hopeful
        allowed opened taken

/-- No error is told while everything succeeds. -/
theorem hopeful_of_run
    (favourable : Favourable env task pool file image base)
    (run : Execution (step env task) (Unhindered .succeed)
      (start env task pool) events job) : Hopeful env base job := by
  have tracked : Execution (step env task) (Unhindered .succeed)
      (start env task pool) events job ∧ Hopeful env base job := by
    refine @Execution.track _ _ (step env task) (Unhindered .succeed)
      (fun events job => Execution (step env task) (Unhindered .succeed)
        (start env task pool) events job ∧ Hopeful env base job)
      ?_ _ _ _ run ⟨Execution.nil _, hopeful_start favourable⟩
    intro events source event target reached unhindered taken
    obtain ⟨before, hopeful⟩ := reached
    have full := full_of_run favourable.toSourced before
    obtain ⟨ledger, _, stage⟩ := stage_of_run full
    have allowed := stage.allowed favourable.toSourced full unhindered.1
    exact ⟨before.snoc unhindered taken,
      stage.hopeful_step favourable full hopeful allowed unhindered.2 taken⟩
  exact tracked.2

theorem unfailed_of_favourable
    (favourable : Favourable env task pool file image base)
    (run : Execution (step env task) (Unhindered .succeed)
      (start env task pool) events job) : ¬ job.Failed :=
  fun failed => (hopeful_of_run favourable run).unfailed (Or.inl failed)

/-- While everything succeeds no error is told, and the task can be brought to
its end, where it has written the image. -/
theorem completes_of_favourable
    (favourable : Favourable env task pool file image base)
    (run : Execution (step env task) (Unhindered .succeed)
      (start env task pool) events job) :
    ∃ more last,
      Execution (step env task) (Unhindered .succeed) job more last ∧
        last.Drained ∧ ¬ last.Failed ∧ ∃ archive reads reader,
          Written env task (.full env) (enqueue task pool).1 last archive
              reads reader ∧ archive.image = image := by
  obtain ⟨more, last, after, drained⟩ :=
    drains_of_run favourable.toSourced run
  have whole := run.append after
  have unfailed := unfailed_of_favourable favourable whole
  exact ⟨more, last, after, drained, unfailed,
    writes_its_image favourable.toSourced
      (full_of_run favourable.toSourced whole) drained unfailed⟩

end

end CompressionTask

end Maxcso
