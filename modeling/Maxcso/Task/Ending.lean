import Maxcso.Task.Outcome

/-!
# Every task comes to an end

The reader's steps are bounded by the size of the image and by how often it is
resumed, only the writer resumes it, and the writer's steps are bounded by the
size of the image.
-/

namespace Maxcso

open Transition

/-- What is decompressed reaches the sector that it is decompressed for. -/
def TaskCompletions.Reaches (may : TaskCompletions) (env : Environment) :
    Prop :=
  ∀ input pool actualBuf source offset isLz4 data,
    may.completed input pool (.decompress actualBuf source offset isLz4) →
      Input.decompressWork env input pool source isLz4 = .ok data →
        offset < data.length

theorem TaskCompletions.full_reaches (env : Environment) :
    (TaskCompletions.full env).Reaches env :=
  fun _ _ _ _ _ _ _ completed worked => completed _ _ _ _ _ rfl worked

namespace Reader

variable {env : Environment} {may : TaskCompletions} {pool : BufferPool}
variable {events : List ReaderEvent} {core core' : Reader}
variable {phase phase' : Phase}

theorem Permitted.reaches (reaching : may.Reaches env) {reader : Reader}
    {event : ReaderEvent} (permitted : reader.Permitted may event) :
    reader.Reaches env event := by
  cases event with
  | complete position =>
      intro actualBuf source offset isLz4 data found worked
      exact reaching _ _ _ _ _ _ _ (permitted.2 position _ rfl found) worked
  | _ => trivial

/-- A reader that is finding out the format is in no other phase. -/
theorem phase_of_enter (same : core.enter phase = core'.enter phase')
    (detecting : phase.detecting = true) : phase' = phase := by
  have calls : phase.calls = phase'.calls := congrArg Reader.calls same
  have requests : phase.requests = phase'.requests :=
    congrArg (fun reader => reader.input.inFlight) same
  cases phase with
  | waiting request =>
      cases phase' with
      | waiting other =>
          rw [(List.cons.inj requests).1]
      | _ => cases requests
  | beginning size =>
      cases phase' with
      | beginning other =>
          rw [InputCall.begin.inj (List.cons.inj calls).1]
      | _ => cases calls
  | _ => cases detecting

theorem Reached.inBudget (reaching : may.Reaches env)
    (reached : Reached env may pool events core phase) :
    ∃ core' phase', core.enter phase = core'.enter phase' ∧
      OnTrack core' phase' ∧
      InBudget events core'.input.size core'.remaining phase' := by
  obtain ⟨core', phase', situated, budget⟩ :=
    @track_moves Input.fetchCached env (Permitted may)
      (fun events core phase =>
        InBudget events core.input.size core.remaining phase)
      (fun events core phase event core' phase' holds track permitted move =>
        inBudget_move holds track (permitted.reaches reaching) move)
      _ _ _ (situated_start env pool) events _ reached (Nat.le_refl _)
  exact ⟨core', phase', situated.enter, situated.track, budget⟩

theorem Reached.bounded (reaching : may.Reaches env)
    (reached : Reached env may pool events core phase) :
    (events.map ReaderEvent.cost).sum ≤
      8 * (core.input.size.toNat / sectorSize) + 5 +
        (events.map ReaderEvent.credit).sum := by
  obtain ⟨core', phase', same, _, budget⟩ := reached.inBudget reaching
  have size : core.input.size = core'.input.size :=
    congrArg (fun reader => reader.input.size) same
  rw [size]
  exact budget.bounded

/-- The format is found out in a few steps. -/
theorem Reached.early (reaching : may.Reaches env)
    (reached : Reached env may pool events core phase)
    (detecting : phase.detecting = true) :
    (events.map ReaderEvent.cost).sum ≤
      4 + (events.map ReaderEvent.credit).sum := by
  obtain ⟨core', phase', same, track, budget⟩ := reached.inBudget reaching
  rw [phase_of_enter same detecting] at track budget
  unfold InBudget at budget
  cases phase with
  | beginning size =>
      have pos := track.pos
      rw [track.fresh rfl] at pos
      have none : core'.input.pos = 0 := by
        simpa [Phase.lag] using pos
      have late : ¬ (Phase.beginning size).stage < 2 := Nat.lt_irrefl 2
      rw [if_neg late] at budget
      simp only [Phase.potential, remaining, none, sectorSize] at budget
      omega
  | waiting request =>
      have early : (Phase.waiting request).stage < 2 := by
        cases request with
        | readHeader => exact Nat.zero_lt_two
        | readIndex | readTables | stat => exact Nat.one_lt_two
        | readBlock | decompress => cases detecting
      rw [if_pos early] at budget
      omega
  | _ => cases detecting

end Reader

namespace CompressionTask

variable {env : Environment} {task : Task} {may : TaskCompletions}
variable {initial pool : BufferPool} {ledger : Ledger}
variable {job next : CompressionTask} {core : Reader} {phase : Phase}
variable {config : WriterConfig} {writer : Writer}
variable {events : List TaskEvent}

/-- The format is known, and with it the size of the image. -/
inductive Late (env : Environment) (may : TaskCompletions)
    (initial : BufferPool) (ledger : Ledger) (job : CompressionTask) : Prop
  | alone (core : Reader) (phase : Phase) (before : List TaskCall)
      (alone : Alone env may initial ledger job core phase before)
  | writing (config : WriterConfig) (core : Reader) (phase : Phase)
      (writer : Writer) (accepted : config.Accepted env)
      (writing : Writing env config may initial ledger job core phase
        writer)

theorem Writing.blockSize (accepted : config.Accepted env)
    (writing : Writing env config may initial ledger job core phase
      writer) : job.output.blockSize = config.blockSize := by
  obtain ⟨archive, same, sameEnv, supplies⟩ := writing.exists_run accepted
  obtain ⟨_, _, follows, _⟩ := @Writing.onCourse _ _ _ _ _ _ _ _ _ writing
    archive same sameEnv supplies (fun _ => True) trivial
    (fun _ _ _ _ _ => trivial)
  rw [writing.output, follows.placed.blockSize, same]

theorem Late.step (late : Late env may initial ledger job)
    {event : TaskEvent} (allowed : Allowed may job event)
    (taken : job.step env task event = some next) :
    ∃ ledger', ledger'.steps = ledger.steps + 1 ∧
      Late env may initial ledger' next ∧
      next.input.size = job.input.size ∧
      next.output.blockSize = job.output.blockSize := by
  cases late with
  | alone core phase before alone =>
      obtain ⟨ledger', core', phase', before', steps, again, output, size,
        _⟩ := alone.step taken
      refine ⟨ledger', steps, .alone core' phase' before' again, ?_, ?_⟩
      · rw [again.reads.size, alone.reads.size, size]
      · rw [output]
  | writing config core phase writer accepted writing =>
      obtain ⟨ledger', core', phase', writer', steps, again⟩ :=
        writing.step accepted allowed taken
      refine ⟨ledger', steps,
        .writing config core' phase' writer' accepted again, ?_, ?_⟩
      · rw [again.reads.size, writing.reads.size, again.size, writing.size]
      · rw [again.blockSize accepted, writing.blockSize accepted]

/-! ## Bounds -/

/-- How many steps there are for an image. -/
def mostSteps (job : CompressionTask) : Nat :=
  41 * (job.input.size.toNat + job.output.blockSize) + 24

theorem Writing.writeCost_le (accepted : config.Accepted env)
    (writing : Writing env config may initial ledger job core phase
      writer) :
    ledger.writeCost ≤
      10 * (config.srcSize + config.blockSize) +
        (config.srcSize + config.blockSize) / sectorSize + 4 := by
  obtain ⟨archive, same, sameEnv, supplies⟩ := writing.exists_run accepted
  subst same sameEnv
  have spent := Writer.bounded writing.fits
    (writing.runs archive.image supplies)
  have bounds := archive.blockSize_bounds
  have size := archive.srcSize_bounds
  have padded : archive.paddedSize ≤
      archive.srcSize + archive.blockSize := by
    rw [Archive.paddedSize]
    omega
  have blocks : archive.blocks * sectorSize ≤ archive.paddedSize :=
    Nat.mul_le_mul_left _ bounds.1
  rw [Ledger.writeCost]
  simp only [sectorSize] at blocks ⊢
  omega

theorem Late.bounded (reaching : may.Reaches env)
    (late : Late env may initial ledger job) :
    ledger.steps ≤ job.mostSteps := by
  cases late with
  | alone core phase before alone =>
      have read := alone.reached.bounded reaching
      have paid := alone.paid
      have credit := alone.credit
      have size := alone.reads.size
      unfold Ledger.credit at credit
      unfold Ledger.readCost at paid
      rw [mostSteps, size]
      simp only [sectorSize] at read
      omega
  | writing config core phase writer accepted writing =>
      have read := writing.reached.bounded reaching
      have paid := writing.balanced.paid
      have credit := writing.balanced.credit
      have wrote := writing.writeCost_le accepted
      have size := writing.size
      unfold Ledger.credit at credit
      unfold Ledger.readCost at paid
      rw [mostSteps, writing.reads.size, writing.blockSize accepted, size]
      rw [size] at read
      simp only [sectorSize, Int.toNat_natCast] at read wrote ⊢
      omega

theorem Detecting.few_steps (reaching : may.Reaches env)
    (detecting : Detecting env task may initial ledger job core phase) :
    ledger.steps ≤ 6 := by
  have early := detecting.reached.early reaching detecting.detecting
  have paid := detecting.paid
  have credit := detecting.credit
  unfold Ledger.credit at credit
  unfold Ledger.readCost at paid
  omega

/-- Before the format is known there are only a few steps. -/
theorem Stage.late (reaching : may.Reaches env)
    (stage : Stage env task may initial ledger job) :
    Late env may initial ledger job ∨ ledger.steps ≤ 6 := by
  cases stage with
  | unopened unopened =>
      exact Or.inr (unopened.steps.trans (by decide))
  | detecting core phase detecting =>
      exact Or.inr (detecting.few_steps reaching)
  | failing core phase before alone | vacant core phase before alone =>
      exact Or.inl (.alone core phase before alone)
  | writing config core phase writer opens accepted writing =>
      exact Or.inl (.writing config core phase writer accepted writing)

/-- A task does not go on for ever. -/
theorem steps_bounded (reaching : may.Reaches env)
    (run : Execution (step env task) (Allowed may) (start env task pool)
      events job) : events.length ≤ job.mostSteps := by
  obtain ⟨ledger, steps, stage⟩ := stage_of_run run
  rw [← steps]
  rcases stage.late reaching with late | early
  · exact late.bounded reaching
  · exact early.trans ((by decide : 6 ≤ 24).trans (Nat.le_add_left _ _))

theorem steps_bounded_oneSector :
    ∃ events job, Execution (step sectorEnv largeTask)
        (Allowed (.full sectorEnv)) (start sectorEnv largeTask .initial)
        events job ∧ job.Drained ∧ events.length ≤ job.mostSteps := by
  obtain ⟨job, run, drained, _⟩ := sector_reached
  exact ⟨_, job, run, drained,
    steps_bounded (TaskCompletions.full_reaches _) run⟩

/-! ## Completing a run -/

/-- Completions are what they may be, and the files can be opened. -/
def Unhindered (may : TaskCompletions) (job : CompressionTask)
    (event : TaskEvent) : Prop :=
  Allowed may job event ∧ event ≠ .opened false

/-- What can still happen of a task. -/
theorem drained_of_settled (possible : may.Possible)
    (settled : Transition.Settled (step env task) (Unhindered may) job) :
    job.Drained ∨ ∃ request, job.input.inFlight[0]? = some request ∧
      ¬ may.completed job.input job.pool request := by
  have calls : job.calls = [] := by
    cases calls : job.calls with
    | nil => rfl
    | cons call rest =>
        have taken : job.step env task .run =
            some (job.runCall env task call rest) := by
          rw [step, calls]
        exact absurd taken (settled .run _ ⟨trivial, TaskEvent.noConfusion⟩)
  have opening : job.opening = none := by
    cases waiting : job.opening with
    | none => rfl
    | some opening =>
        have taken : job.step env task (.opened true) =
            some (job.onOpened env task opening true) := by
          rw [step, calls, waiting]
        refine absurd taken (settled (.opened true) _ ⟨trivial, ?_⟩)
        intro same
        cases same
  have jobs : job.output.jobs = [] := by
    cases queued : job.output.jobs with
    | nil => rfl
    | cons first rest =>
        obtain ⟨status, given⟩ := possible.compressed
        have taken : ∃ next, job.step env task (.compressed 0 status) =
            some next := by
          rw [step, calls, queued]
          exact ⟨_, rfl⟩
        obtain ⟨next, taken⟩ := taken
        exact absurd taken (settled _ next ⟨given, TaskEvent.noConfusion⟩)
  have dataWrites : job.output.dataWrites = [] := by
    cases issued : job.output.dataWrites with
    | nil => rfl
    | cons write rest =>
        obtain ⟨result, given⟩ := possible.dataWritten write
        have allowed : Allowed may job (.dataWritten 0 result) := by
          intro other found
          rw [issued] at found
          rw [← Option.some.inj found]
          exact given
        have taken : ∃ next, job.step env task (.dataWritten 0 result) =
            some next := by
          rw [step, calls, issued]
          exact ⟨_, rfl⟩
        obtain ⟨next, taken⟩ := taken
        exact absurd taken
          (settled _ next ⟨allowed, TaskEvent.noConfusion⟩)
  have indexWrites : job.output.indexWrites = [] := by
    cases issued : job.output.indexWrites with
    | nil => rfl
    | cons write rest =>
        obtain ⟨result, given⟩ := possible.indexWritten write
        have allowed : Allowed may job (.indexWritten 0 result) := by
          intro other found
          rw [issued] at found
          rw [← Option.some.inj found]
          exact given
        have taken : ∃ next, job.step env task (.indexWritten 0 result) =
            some next := by
          rw [step, calls, issued]
          exact ⟨_, rfl⟩
        obtain ⟨next, taken⟩ := taken
        exact absurd taken
          (settled _ next ⟨allowed, TaskEvent.noConfusion⟩)
  cases inFlight : job.input.inFlight with
  | nil =>
      exact Or.inl ⟨calls, opening, inFlight, jobs, dataWrites, indexWrites⟩
  | cons request rest =>
      refine Or.inr ⟨request, rfl, ?_⟩
      intro completed
      have allowed : Allowed may job (.completed 0) := by
        intro other found
        rw [inFlight] at found
        rw [← Option.some.inj found]
        exact completed
      have taken : ∃ next, job.step env task (.completed 0) =
          some next := by
        rw [step, calls, inFlight]
        exact ⟨_, rfl⟩
      obtain ⟨next, taken⟩ := taken
      exact settled _ next ⟨allowed, TaskEvent.noConfusion⟩ taken

/-- From then on the bound does not change. -/
theorem Late.settles (reaching : may.Reaches env)
    {allowed : CompressionTask → TaskEvent → Prop}
    (narrows : ∀ job event, allowed job event → Allowed may job event)
    (late : Late env may initial ledger job) :
    ∃ more last,
      Execution (CompressionTask.step env task) allowed job more last ∧
        Transition.Settled (CompressionTask.step env task) allowed last := by
  have bounded : ∀ more last,
      Execution (CompressionTask.step env task) allowed job more
          last → ¬ False →
        more.length ≤ job.mostSteps := by
    intro more last run _
    obtain ⟨ledger', steps, late', size, blockSize⟩ :=
      @Execution.track _ _ (CompressionTask.step env task) allowed
        (fun more last => ∃ ledger' : Ledger,
          ledger'.steps = ledger.steps + more.length ∧
            Late env may initial ledger' last ∧
            last.input.size = job.input.size ∧
            last.output.blockSize = job.output.blockSize)
        (by
          intro events source event target reached permitted taken
          obtain ⟨ledger', steps, late, size, blockSize⟩ := reached
          obtain ⟨ledger'', more, late', size', blockSize'⟩ :=
            late.step (narrows _ _ permitted) taken
          refine ⟨ledger'', ?_, late', size'.trans size,
            blockSize'.trans blockSize⟩
          rw [more, steps, List.length_append, List.length_singleton]
          rfl)
        _ _ _ run ⟨ledger, rfl, late, rfl, rfl⟩
    have least := late'.bounded reaching
    rw [mostSteps, size, blockSize] at least
    rw [mostSteps]
    omega
  obtain ⟨more, last, run, ended⟩ := Execution.exhausts bounded
  exact ⟨more, last, run, ended.resolve_left id⟩

/-- Every run can be continued for as long as steps of a kind are possible. -/
theorem settles_of_run (reaching : may.Reaches env)
    {allowed : CompressionTask → TaskEvent → Prop}
    (narrows : ∀ job event, allowed job event → Allowed may job event)
    (run : Execution (step env task) (Allowed may) (start env task pool)
      events job) :
    ∃ more last, Execution (step env task) allowed job more last ∧
      Transition.Settled (step env task) allowed last := by
  have early : ∀ more last,
      Execution (step env task) allowed job more last →
        ¬ (∃ ledger, Late env may (enqueue task pool).1 ledger last) →
          more.length ≤ 6 := by
    intro more last after unknown
    obtain ⟨ledger, steps, stage⟩ :=
      stage_of_run (run.append (after.weaken narrows))
    rcases stage.late reaching with late | few
    · exact absurd ⟨ledger, late⟩ unknown
    · rw [steps, List.length_append] at few
      omega
  obtain ⟨more, last, after, ⟨ledger, late⟩ | settled⟩ :=
    Execution.exhausts early
  · obtain ⟨rest, final, ends, settled⟩ :=
      @Late.settles env task may _ ledger last reaching allowed narrows late
    exact ⟨more ++ rest, final, after.append ends, settled⟩
  · exact ⟨more, last, after, settled⟩

/-- Every run can be continued until the event loop has nothing to wait for,
unless it waits for a decompression that does not complete. -/
theorem comes_to_an_end (possible : may.Possible)
    (reaching : may.Reaches env)
    (run : Execution (step env task) (Allowed may) (start env task pool)
      events job) :
    ∃ more last, Execution (step env task) (Unhindered may) job more last ∧
      (last.Drained ∨ ∃ request, last.input.inFlight[0]? = some request ∧
        ¬ may.completed last.input last.pool request) := by
  obtain ⟨more, last, after, settled⟩ :=
    @settles_of_run _ _ _ _ _ _ reaching (Unhindered may)
      (fun _ _ permitted => permitted.1) run
  exact ⟨more, last, after, drained_of_settled possible settled⟩

theorem comes_to_an_end_oneSector :
    ∃ more last, Execution (step sectorEnv largeTask)
        (Unhindered (.full sectorEnv)) (start sectorEnv largeTask .initial)
        more last ∧
      (last.Drained ∨ ∃ request, last.input.inFlight[0]? = some request ∧
        ¬ (TaskCompletions.full sectorEnv).completed last.input last.pool
          request) :=
  comes_to_an_end Writer.Completions.possible_full
    (TaskCompletions.full_reaches _) (Execution.nil _)

end CompressionTask

end Maxcso
