import Maxcso.Task.Lending

/-!
# Buffers that are returned

A task that ends without an error has returned every buffer that it has taken,
so that the buffers can be resized for the next task.
-/

namespace Maxcso

open Transition

namespace CompressionTask

section

variable {env : Environment} {task : Task} {may : TaskCompletions}
variable {initial pool : BufferPool} {ledger : Ledger}
variable {job next : CompressionTask} {core : Reader} {phase : Phase}
variable {config : WriterConfig} {writer : Writer}
variable {events : List TaskEvent} {event : TaskEvent}
variable {others : Multiset Nat}

/-! ## Nothing is lost -/

/-- The reader of a task that has found out the format, or is about to. -/
theorem Stage.reads (stage : Stage env task may initial ledger job) :
    job.input.inFlight = [] ∨ ∃ core phase, Reads job core phase := by
  cases stage with
  | unopened unopened =>
      left
      rw [unopened.closed.input]
      rfl
  | detecting core phase detecting => exact Or.inr ⟨_, _, detecting.reads⟩
  | failing core phase before alone | vacant core phase before alone =>
      exact Or.inr ⟨_, _, alone.reads⟩
  | writing config core phase writer opens accepted writing =>
      exact Or.inr ⟨_, _, writing.reads⟩

/-- No block ends before the sector that it is decompressed for. -/
theorem Reads.keeps_block (reaching : may.Reaches env)
    (reads : Reads job core phase) {position : Nat}
    {request : InputRequest}
    (found : job.input.inFlight[position]? = some request)
    (allowed : Allowed may job (.completed position)) :
    ¬ Input.Forgets env job.input job.pool request := by
  intro forgets
  have completed := allowed request found
  have member := List.mem_of_getElem? found
  rw [reads.input] at member
  cases request with
  | decompress actualBuf source offset isLz4 =>
      obtain ⟨data, worked, accepted, short⟩ := forgets
      have reaches := reaching _ _ _ _ _ _ _ completed worked
      cases phase with
      | waiting request =>
          have only := List.mem_singleton.mp member
          subst only
          have least := Reader.rejection_none accepted
          rw [reads.input] at least short
          have long := Reader.trimmedSize_reaches reads.track
            (reads.track.inside rfl) least reaches
          exact absurd long (Nat.not_lt.mpr short)
      | _ => cases member
  | _ => exact forgets

/-- What a task that has not failed has lost. -/
theorem Stage.loses_nothing (reaching : may.Reaches env)
    (stage : Stage env task may initial ledger job)
    (accounts : Accounts job others) (allowed : Allowed may job event)
    (taken : job.step env task event = some next) :
    ∃ lost, Accounts next (lost + others) ∧ (lost = 0 ∨ Failing next) := by
  obtain ⟨lost, after, excuse⟩ := accounts.step taken
  refine ⟨lost, after, ?_⟩
  rcases excuse with none | ⟨_, due⟩ |
    ⟨position, request, same, found, forgets⟩
  · exact Or.inl none
  · exact Or.inr (Or.inr ⟨_, Or.inr due⟩)
  · subst same
    rcases stage.reads with none | ⟨core, phase, reads⟩
    · rw [none] at found
      cases found
    · exact absurd forgets (reads.keeps_block reaching found allowed)

theorem accounts_of_unfailing (reaching : may.Reaches env)
    (lends : pool.Lends others)
    (run : Execution (step env task) (Allowed may) (start env task pool)
      events job) :
    ∃ lost, Accounts job (lost + others) ∧ (lost = 0 ∨ Failing job) := by
  refine (@Execution.track _ _ (step env task) (Allowed may)
    (fun events job =>
      Execution (step env task) (Allowed may) (start env task pool) events
          job ∧
        ∃ lost, Accounts job (lost + others) ∧ (lost = 0 ∨ Failing job))
    ?_ _ _ _ run ⟨.nil _, 0, ?_, Or.inl rfl⟩).2
  · intro events source event target before allowed taken
    obtain ⟨reached, lost, accounts, excuse⟩ := before
    obtain ⟨ledger, _, stage⟩ := stage_of_run reached
    obtain ⟨more, after, excuse'⟩ :=
      stage.loses_nothing reaching accounts allowed taken
    refine ⟨reached.snoc allowed taken, more + lost, ?_, ?_⟩
    · rwa [add_assoc]
    · rcases excuse with none | failing
      · rcases excuse' with none' | failing
        · exact Or.inl (by rw [none, none', add_zero])
        · exact Or.inr failing
      · exact Or.inr (failing.step taken)
  · rw [zero_add]
    exact accounts_start lends

/-! ## Sector objects at the end -/

theorem held_onBegin (size : Int) (rest : List TaskCall) :
    (job.onBegin task size rest).output.held = job.output.held := by
  cases outcome : (begin task job.blockSize job.pool size).2 with
  | error reason =>
      rw [onBegin_error outcome]
      rfl
  | ok blockSize =>
      rw [onBegin_ok outcome]
      exact Output.held_setFile

/-- Before the format is known no sector is passed on. -/
theorem Detecting.held_step
    (detecting : Detecting env task may initial ledger job core phase)
    (taken : job.step env task event = some next) :
    next.output.held = job.output.held := by
  cases event with
  | run =>
      obtain ⟨call, rest, calls, rfl⟩ := step_run taken
      have due := detecting.calls
      have early := detecting.detecting
      rw [calls] at due
      cases phase with
      | beginning size =>
          obtain ⟨same, _⟩ := List.cons.inj due
          subst same
          exact held_onBegin size rest
      | waiting => cases due
      | _ => cases early
  | opened success =>
      obtain ⟨opening, _, waiting, _⟩ := step_opened taken
      rw [detecting.opened] at waiting
      cases waiting
  | completed position =>
      obtain ⟨request, _, _, rfl⟩ := step_completed taken
      rfl
  | compressed position status =>
      obtain ⟨queued, _, found, _⟩ := step_compressed taken
      rw [detecting.output] at found
      cases found
  | dataWritten position result =>
      obtain ⟨write, _, found, _⟩ := step_dataWritten taken
      rw [detecting.output] at found
      cases found
  | indexWritten position result =>
      obtain ⟨write, _, found, _⟩ := step_indexWritten taken
      rw [detecting.output] at found
      cases found

/-- Only a task that writes passes sectors on to the writer. -/
theorem Stage.held_step
    (stage : Stage env task may initial ledger job)
    (allowed : Allowed may job event)
    (taken : job.step env task event = some next)
    (unused : job.output.held = 0) :
    next.output.held = 0 ∨ ∃ ledger config core phase writer,
      Opens task config ∧ config.Accepted env ∧
        Writing env config may initial ledger next core phase writer := by
  cases stage with
  | unopened unopened =>
      left
      obtain ⟨_, piped | ⟨closed, _⟩⟩ := unopened.closed.opens taken
      · rw [piped]
        exact unused
      · rw [closed.output]
        exact Output.held_create env task.flags
  | detecting core phase detecting =>
      left
      rw [detecting.held_step taken]
      exact unused
  | failing core phase before alone | vacant core phase before alone =>
      left
      obtain ⟨_, _, _, _, _, _, output, _⟩ := alone.step taken
      rw [output]
      exact unused
  | writing config core phase writer opens accepted writing =>
      right
      obtain ⟨ledger', core', phase', writer', _, again⟩ :=
        writing.step accepted allowed taken
      exact ⟨ledger', config, core', phase', writer', opens, accepted, again⟩

theorem held_of_run
    (run : Execution (step env task) (Allowed may) (start env task pool)
      events job) :
    job.output.held = 0 ∨ ∃ ledger config core phase writer,
      Opens task config ∧ config.Accepted env ∧
        Writing env config may (enqueue task pool).1 ledger job core phase
          writer := by
  refine (@Execution.track _ _ (step env task) (Allowed may)
    (fun events job =>
      Execution (step env task) (Allowed may) (start env task pool) events
          job ∧
        (job.output.held = 0 ∨ ∃ ledger config core phase writer,
          Opens task config ∧ config.Accepted env ∧
            Writing env config may (enqueue task pool).1 ledger job core
              phase writer))
    ?_ _ _ _ run ⟨.nil _, Or.inl ?_⟩).2
  · intro events source event target before allowed taken
    obtain ⟨reached, unused | writing⟩ := before
    · obtain ⟨ledger, _, stage⟩ := stage_of_run reached
      exact ⟨reached.snoc allowed taken,
        stage.held_step allowed taken unused⟩
    · obtain ⟨ledger, config, core, phase, writer, opens, accepted,
        writing⟩ := writing
      obtain ⟨ledger', core', phase', writer', _, again⟩ :=
        writing.step accepted allowed taken
      exact ⟨reached.snoc allowed taken, Or.inr ⟨ledger', config, core',
        phase', writer', opens, accepted, again⟩⟩
  · have closed := @closed_start env task pool
    rw [closed.output]
    exact Output.held_create env task.flags

/-- When all blocks have been written, all sector objects are free. -/
theorem Writing.held_at_end
    (yields : env.Yields) (opens : Opens task config)
    (accepted : config.Accepted env)
    (writing : Writing env config may initial ledger job core phase writer)
    (drained : job.Drained) (unfailed : ¬ job.Failed)
    (tidy : ∀ id, (job.output.sectors id).Tidy) :
    job.output.held = 0 := by
  obtain ⟨archive, same, sameEnv, _, _, onCourse⟩ :=
    writing.accounted yields opens accepted
  subst same sameEnv
  have together : Writer.OnCourse archive
      (fun course => Course.Accounted archive course ∧
        Writer.Follows archive course.pipeline course.filled writer)
      writer := by
    obtain ⟨pipeline, filled, follows, sound, accounted⟩ := onCourse
    exact ⟨pipeline, filled, follows, sound, accounted, follows⟩
  obtain ⟨pipeline, filled, sound, ⟨accounted, follows⟩, quiet, source⟩ :=
    together.quiet (writing.idle accepted drained unfailed)
  have unreported : ¬ (writer.course pipeline filled).Reported := by
    intro reported
    rcases reported with ⟨reason, member⟩ | ⟨reason, written, member⟩
    · rw [quiet.calls] at member
      cases member
    · exact unfailed (writing.failed member)
  obtain ⟨first, _⟩ := accounted.complete sound unreported quiet source
  have nobody : pipeline.owners = [] := by
    have most := sound.fed.last_le
    have last : pipeline.last = pipeline.first + pipeline.owners.length :=
      rfl
    rw [← first] at most
    apply List.eq_nil_of_length_eq_zero
    have bound : pipeline.last ≤ pipeline.first := most
    omega
  have free : (writer.output.freeSectors ++ pipeline.owners).Perm
      (List.range queueSize) := follows.placed.sectors
  rw [nobody, List.append_nil] at free
  apply Finset.sum_eq_zero
  intro id inside
  have idle := follows.contents.idle id
    (free.mem_iff.mpr (List.mem_range.mpr (Finset.mem_range.mp inside)))
  have empty := tidy id
  rw [writing.output] at empty ⊢
  rw [Sector.held, idle.best, empty idle.busy]
  rfl

/-! ## Runs -/

/-- At the end of a task without an error only others have buffers. -/
theorem lends_at_end
    (yields : env.Yields) (reaching : may.Reaches env)
    (lends : pool.Lends others)
    (run : Execution (step env task) (Allowed may) (start env task pool)
      events job) (drained : job.Drained) (unfailed : ¬ job.Failed) :
    Output.Books job.output job.pool others ∧ job.output.held = 0 := by
  obtain ⟨lost, accounts, excuse⟩ :=
    accounts_of_unfailing reaching lends run
  have unused : job.output.held = 0 := by
    rcases held_of_run run with unused | ⟨_, _, _, _, _, opens, accepted,
      writing⟩
    · exact unused
    · exact writing.held_at_end yields opens accepted drained unfailed
        accounts.books.tidy
  have kept : lost = 0 := by
    refine excuse.resolve_right ?_
    intro failing
    rcases failing with failed | ⟨reason, due⟩
    · exact unfailed failed
    · rw [drained.calls] at due
      rcases due with member | member
      · cases member
      · cases member
  have books := accounts.quiet drained.calls
  rw [Input.waiting, drained.inFlight, kept, zero_add,
    show (List.map InputRequest.held []).sum = 0 from rfl, zero_add]
    at books
  exact ⟨books, unused⟩

/-- A task that ends without an error has returned all buffers that it has
taken, so that the buffers can be resized if nobody else has any. -/
theorem returns_buffers
    (yields : env.Yields) (reaching : may.Reaches env)
    (lends : pool.Lends others)
    (run : Execution (step env task) (Allowed may) (start env task pool)
      events job) (drained : job.Drained) (unfailed : ¬ job.Failed) :
    job.pool.Lends others ∧
      ∀ newSize, (job.pool.setBufferSize newSize).2 = true ↔ others = 0 := by
  obtain ⟨books, unused⟩ :=
    lends_at_end yields reaching lends run drained unfailed
  have lent := books.lends
  rw [unused, zero_add] at lent
  exact ⟨lent, fun newSize => (lent.resize newSize).2⟩

theorem returns_buffers_oneSector :
    ∃ events job, Execution (step sectorEnv largeTask)
        (Allowed (.full sectorEnv)) (start sectorEnv largeTask .initial)
        events job ∧
      (job.pool.Lends 0 ∧
        ∀ newSize, (job.pool.setBufferSize newSize).2 = true ↔
          (0 : Multiset Nat) = 0) := by
  obtain ⟨job, run, drained, notices, _⟩ := sector_reached
  have unfailed : ¬ job.Failed := by
    intro failed
    obtain ⟨status, reason, member⟩ := failed
    rw [notices] at member
    simp at member
  exact ⟨_, job, run, returns_buffers yields_sectorEnv
    (TaskCompletions.full_reaches _) BufferPool.lends_initial run drained
    unfailed⟩

end

end CompressionTask

end Maxcso
