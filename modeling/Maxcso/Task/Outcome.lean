import Maxcso.Task.Stages
import Maxcso.Writer.Decompressing
import Maxcso.Writer.Schedules

/-!
# How a task ends

When the event loop has nothing to wait for any more, the task has been told
of an error, or of success once.  Only an empty image ends without either.
Without an error the file is the one of the image that has been read.
-/

namespace Maxcso

open FileBytes Transition

/-! ## The file of an archive -/

namespace Archive

/-- What is written: the image, or the file with its header and tables. -/
def outputFile (archive : Archive) : Bytes :=
  if archive.decompressing then archive.image else archive.file

end Archive

namespace Writer

theorem Finished.outputFile {archive : Archive} {writer : Writer}
    {head : Bytes} (finished : Finished archive writer head)
    (hasFile : archive.noFile = false) (leads : archive.Leads)
    (whole : archive.image.length = archive.srcSize)
    (few : archive.decompressing = false → archive.Few) :
    writer.file = archive.outputFile := by
  have immediate : archive.immediate = archive.decompressing := by
    rw [Archive.immediate, hasFile]
    exact Bool.or_false _
  unfold Archive.outputFile
  cases decompresses : archive.decompressing with
  | true =>
      rw [decompresses] at immediate
      obtain ⟨none, _⟩ := finished.immediate immediate
      rw [finished.file, none, if_pos rfl]
      exact Archive.fileWith_decompressed decompresses whole
  | false =>
      rw [decompresses] at immediate
      obtain ⟨_, write, expected, same⟩ := finished.tables immediate
      have index : write.data = archive.indexWrite.data := by
        rw [expected.whole (few decompresses)]
      have apart : (archive.indexWrite.data.length : Int) ≤
          archive.pos 0 := by
        rw [← index, expected.length]
        exact leads immediate
      rw [finished.file, same, index, if_neg Bool.false_ne_true]
      exact Archive.fileWith_index apart

end Writer

/-! ## The image that has been read -/

namespace Reader

/-- The sectors that have been passed on, one after the other. -/
def image (reader : Reader) : Bytes :=
  (reader.delivered.map Delivery.sector).flatten

end Reader

namespace CompressionTask

theorem Supplies.take_eq {delivered : List Delivery} {image : Bytes}
    (supplies : Supplies delivered image) :
    image.take (sectorSize * delivered.length) =
      (delivered.map Delivery.sector).flatten := by
  induction delivered using List.reverseRecOn with
  | nil => rfl
  | append_singleton delivered delivery inductionHypothesis =>
      have last := supplies.last
      rw [pread] at last
      rw [List.length_append, List.length_singleton, Nat.mul_add,
        Nat.mul_one, List.take_add, inductionHypothesis supplies.earlier,
        last, List.map_append, List.flatten_append, List.map_singleton,
        List.flatten_singleton]

/-- An image that ends with the sectors that have been passed on. -/
theorem Supplies.eq_flatten {delivered : List Delivery} {image : Bytes}
    (supplies : Supplies delivered image)
    (length : image.length = sectorSize * delivered.length) :
    image = (delivered.map Delivery.sector).flatten := by
  rw [← supplies.take_eq, ← length, List.take_length]

/-! ## Being drained -/

/-- The writer has accepted an image without sectors. -/
def Empty (job : CompressionTask) : Prop :=
  job.output.stateHasFile = true ∧ job.input.size ≤ 0

section

variable {env : Environment} {task : Task} {may : TaskCompletions}
variable {initial pool : BufferPool} {ledger : Ledger}
variable {job : CompressionTask} {core : Reader} {phase : Phase}
variable {writer : Writer} {config : WriterConfig}
variable {events : List TaskEvent}

theorem Vacant.isEmpty {before : List TaskCall}
    (vacant : Vacant job core phase before)
    (alone : Alone env may initial ledger job core phase before) :
    job.Empty := by
  refine ⟨vacant.hasFile, ?_⟩
  rw [alone.reads.size]
  exact vacant.empty

/-- A reader that has nothing to do or to wait for has been paused or has
ended. -/
theorem Reads.at_rest (reads : Reads job core phase)
    (drained : job.Drained) : phase = .parked ∨ phase = .stopped := by
  have calls := reads.calls
  rw [drained.calls] at calls
  have requests : phase.requests = [] := by
    have inFlight := drained.inFlight
    rw [reads.input] at inFlight
    exact inFlight
  cases phase with
  | waiting => cases requests
  | parked => exact Or.inl rfl
  | stopped => exact Or.inr rfl
  | _ => cases calls

/-- The reader waits for the writer, or it has passed everything on. -/
theorem Reads.source (reads : Reads job core phase)
    (drained : job.Drained) (unfailed : ¬ job.Failed) :
    core.input.paused = true ∨ core.input.size ≤ core.input.pos := by
  rcases reads.at_rest drained with parked | stopped
  · exact Or.inl (reads.orderly.parked parked)
  · have reported := reads.track.reported
    rw [stopped] at reported
    obtain ⟨⟨success, reason⟩, only⟩ :=
      List.length_eq_one_iff.mp reported
    have member : (success, reason) ∈ core.finished := by
      rw [only]
      exact List.mem_singleton_self _
    cases success with
    | false => exact absurd (reads.told reason member) unfailed
    | true => exact Or.inr (reads.orderly.ended reason member)

theorem Writing.idle
    (accepted : config.Accepted env)
    (writing : Writing env config may initial ledger job core phase writer)
    (drained : job.Drained) (unfailed : ¬ job.Failed) : writer.Idle := by
  have output := writing.output
  have calls := writing.calls
  rw [drained.calls] at calls
  refine ⟨calls.symm, ?_, ?_, ?_, ?_⟩
  · rw [← output]
    exact drained.jobs
  · rw [← output]
    exact drained.dataWrites
  · rw [← output]
    exact drained.indexWrites
  · refine (writing.reads.source drained unfailed).imp ?_ ?_
    · exact writing.paused.symm.trans
    · intro ended
      have pos := writing.reads.track.pos
      have size := writing.size
      rw [writing.srcSize accepted, writing.nextPos]
      omega

/-- A task that is over without an error has a reader that has not reported
any. -/
theorem Stage.reader (stage : Stage env task may initial ledger job)
    (drained : job.Drained) (unfailed : ¬ job.Failed) :
    ∃ reads reader, Execution (Reader.step Input.fetchCached env)
        (Reader.Permitted may) (Reader.start env initial) reads reader ∧
      job.input = reader.input ∧ reader.calls = [] ∧
      ∀ reason, (false, reason) ∉ reader.finished := by
  have silent {core : Reader} {phase : Phase} (reads : Reads job core phase) :
      job.input = (core.enter phase).input ∧ phase.calls = [] ∧
        ∀ reason, (false, reason) ∉ core.finished := by
    refine ⟨reads.input, ?_, ?_⟩
    · rw [← reads.calls, drained.calls]
      rfl
    · intro reason member
      exact unfailed (reads.told reason member)
  cases stage with
  | unopened unopened =>
      exact absurd (unopened.closed.refused drained.opening) unfailed
  | detecting core phase detecting =>
      exact ⟨_, _, detecting.reached, silent detecting.reads⟩
  | failing core phase before alone | vacant core phase before alone =>
      exact ⟨_, _, alone.reached, silent alone.reads⟩
  | writing config core phase writer opens accepted writing =>
      exact ⟨_, _, writing.reached, silent writing.reads⟩

/-- What a task that has succeeded has read and written. -/
structure Written (env : Environment) (task : Task) (may : TaskCompletions)
    (initial : BufferPool) (job : CompressionTask) (archive : Archive)
    (reads : List ReaderEvent) (reader : Reader) : Prop where
  opens : Opens task archive.toWriterConfig
  sameEnv : archive.env = env
  read : Execution (Reader.step Input.fetchCached env)
    (Reader.Permitted may) (Reader.start env initial) reads reader
  input : job.input = reader.input
  pool : job.pool = reader.pool
  size : job.input.size = archive.srcSize
  whole : archive.image.length = archive.srcSize
  image : archive.image = reader.image
  once : job.successes = 1
  vetted : archive.Vetted
  settings : Output.SameFile archive.base job.output
  uncut : may.Capped → archive.noFile = false → archive.IndexPasses
  file : archive.noFile = false →
    (archive.decompressing = false → archive.Few) →
      job.file = archive.outputFile

/-- The ways in which a task ends. -/
inductive Outcome (env : Environment) (task : Task) (may : TaskCompletions)
    (initial : BufferPool) (job : CompressionTask) : Prop
  | failed (failed : job.Failed) (filled : ¬ job.Empty)
  | empty (empty : job.Empty) (unfailed : ¬ job.Failed)
      (silent : job.successes = 0)
  | written (archive : Archive) (reads : List ReaderEvent) (reader : Reader)
      (unfailed : ¬ job.Failed) (filled : ¬ job.Empty)
      (written : Written env task may initial job archive reads reader)

theorem Writing.filled
    (writing : Writing env config may initial ledger job core phase
      writer) : ¬ job.Empty := by
  intro empty
  have size := writing.reads.size.trans writing.size
  have positive := config.nonempty
  have none := empty.2
  omega

/-- The writer has passed on every error that it has reported. -/
theorem Writing.accounted
    (yields : env.Yields) (opens : Opens task config)
    (accepted : config.Accepted env)
    (writing : Writing env config may initial ledger job core phase
      writer) :
    ∃ archive : Archive, archive.toWriterConfig = config ∧
      archive.env = env ∧ Supplies core.delivered archive.image ∧
      archive.Leads ∧
      Writer.OnCourse archive (Course.Accounted archive) writer := by
  obtain ⟨archive, same, sameEnv, supplies⟩ := writing.exists_run accepted
  have leads : archive.Leads := by
    apply Archive.leads
    rw [same, opens.fmt, opens.flags]
  subst same sameEnv
  refine ⟨archive, rfl, rfl, supplies, leads, ?_⟩
  exact writing.onCourse rfl rfl supplies Course.accounted_start
    fun _ _ sound accounted move => accounted.move yields leads sound move

/-- Nothing has gone wrong, so everything has been written. -/
theorem Writing.written
    (yields : env.Yields) (opens : Opens task config)
    (accepted : config.Accepted env)
    (writing : Writing env config may initial ledger job core phase writer)
    (drained : job.Drained) (unfailed : ¬ job.Failed) :
    ∃ archive reads reader,
      Written env task may initial job archive reads reader := by
  obtain ⟨archive, same, sameEnv, supplies, leads, onCourse⟩ :=
    writing.accounted yields opens accepted
  subst same sameEnv
  have unreported : ∀ reason written,
      .finished false reason written ∉ writer.notes :=
    fun reason written member => unfailed (writing.failed member)
  obtain ⟨once, ended, vetted, finished⟩ :=
    onCourse.accounts (writing.idle accepted drained unfailed) unreported
  have multiple := archive.sectorSize_dvd_sourceSize
  have whole : archive.srcSize = archive.sourceSize := by
    have bounded := writing.reads.track.bounded
    have least := archive.srcSize_le_sourceSize
    rw [writing.size, Int.toNat_natCast, ← writing.nextPos, ended] at bounded
    exact le_antisymm least bounded
  have length := archive.length
  refine ⟨archive, ledger.reads, core.enter phase, opens, rfl,
    writing.reached, writing.reads.input, writing.reads.pool,
    writing.reads.size.trans writing.size, length.trans whole.symm, ?_,
    writing.successes.trans once, vetted, ?_, ?_, ?_⟩
  · apply supplies.eq_flatten
    rw [length, ← ended]
    exact writing.nextPos
  · obtain ⟨pipeline, filled, follows, _⟩ := onCourse
    rw [writing.output]
    exact follows.placed.same
  · intro capped hasFile
    by_contra cut
    have none := Writer.successNotes_of_cut capped hasFile cut writing.fits
      (writing.runs archive.image supplies)
    rw [← Writer.length_successNotes, none] at once
    cases once
  · intro hasFile few
    obtain ⟨head, finished⟩ := finished hasFile
    rw [writing.file]
    exact finished.outputFile hasFile leads (length.trans whole.symm) few

/-- A task that is over has ended in one of these ways. -/
theorem Stage.outcome (yields : env.Yields)
    (stage : Stage env task may initial ledger job)
    (drained : job.Drained) : Outcome env task may initial job := by
  cases stage with
  | unopened unopened =>
      refine .failed (unopened.closed.refused drained.opening) ?_
      intro empty
      have hasFile := empty.1
      rw [unopened.closed.output] at hasFile
      cases hasFile
  | detecting core phase detecting =>
      have early := detecting.detecting
      rcases detecting.reads.at_rest drained with rest | rest
      · rw [rest] at early
        cases early
      · rw [rest] at early
        cases early
  | failing core phase before alone fileless failing =>
      refine .failed (failing.resolve_right ?_) ?_
      · intro due
        rw [drained.calls] at due
        obtain ⟨reason, member | member⟩ := due
        · cases member
        · cases member
      · intro empty
        rw [empty.1] at fileless
        cases fileless
  | vacant core phase before alone vacant =>
      refine .empty (vacant.isEmpty alone) ?_ alone.silent
      intro failed
      obtain ⟨status, reason, member⟩ := failed
      obtain ⟨pos, total, written, same⟩ := vacant.told _ member
      cases same
  | writing config core phase writer opens accepted writing =>
      by_cases failed : job.Failed
      · exact .failed failed writing.filled
      · obtain ⟨archive, reads, reader, written⟩ :=
          writing.written yields opens accepted drained failed
        exact .written archive reads reader failed writing.filled written

end

/-! ## A run -/

instance (job : CompressionTask) : Decidable job.Drained :=
  decidable_of_iff
    (job.calls.isEmpty = true ∧ job.opening = none ∧
      job.input.inFlight = [] ∧ job.output.jobs.isEmpty = true ∧
      job.output.dataWrites.isEmpty = true ∧
      job.output.indexWrites.isEmpty = true)
    ⟨fun ⟨calls, opening, inFlight, jobs, dataWrites, indexWrites⟩ =>
      ⟨List.isEmpty_iff.mp calls, opening, inFlight,
        List.isEmpty_iff.mp jobs, List.isEmpty_iff.mp dataWrites,
        List.isEmpty_iff.mp indexWrites⟩,
    fun drained => ⟨List.isEmpty_iff.mpr drained.calls, drained.opening,
      drained.inFlight, List.isEmpty_iff.mpr drained.jobs,
      List.isEmpty_iff.mpr drained.dataWrites,
      List.isEmpty_iff.mpr drained.indexWrites⟩⟩

/-- A file of one sector, without a header. -/
def sectorEnv : Environment := .ofFile (List.replicate 2048 7)

/-- The file is opened and recognised, its sector is read, compressed and
written, and then the index is. -/
def sectorEvents : List TaskEvent :=
  [.opened true, .opened true, .completed 0, .completed 0, .run, .run, .run,
    .completed 0, .run, .run, .run, .run, .run, .compressed 0 0, .run,
    .dataWritten 0 2048, .run, .run, .run, .indexWritten 0 32, .run]

/-- A check that nothing is decompressed and that everything succeeds. -/
def succeeds (job : CompressionTask) : TaskEvent → Bool
  | .completed position =>
      job.input.inFlight[position]?.all fun request =>
        match request with
        | .decompress .. => false
        | _ => true
  | .compressed _ status => 0 ≤ status
  | .dataWritten position result =>
      job.output.dataWrites[position]?.all (result = ·.data.length)
  | .indexWritten position result =>
      job.output.indexWrites[position]?.all (result = ·.data.length)
  | _ => true

theorem allowed_of_succeeds (env : Environment) (job : CompressionTask)
    (event : TaskEvent) (checked : succeeds job event = true) :
    Allowed (.full env) job event := by
  cases event with
  | run | opened => trivial
  | compressed position status =>
      have nonnegative : 0 ≤ status := of_decide_eq_true checked
      exact nonnegative
  | completed position =>
      intro request found actualBuf source offset isLz4 data same
      rw [succeeds, found, same] at checked
      cases checked
  | dataWritten position result =>
      intro write found
      rw [succeeds, found] at checked
      have whole : result = write.data.length := of_decide_eq_true checked
      exact whole
  | indexWritten position result =>
      intro write found
      rw [succeeds, found] at checked
      have whole : result = write.data.length := of_decide_eq_true checked
      exact whole

theorem sector_reached :
    ∃ job, Execution (step sectorEnv largeTask)
        (Allowed (.full sectorEnv)) (start sectorEnv largeTask .initial)
        sectorEvents job ∧
      job.Drained ∧ job.notices =
        [.progress .inProgress 0 2048 0,
          .progress .inProgress 2048 2048 2080,
          .progress .success 2048 2048 2080] ∧
      job.input.size = 2048 ∧ job.output.stateHasFile = true := by
  have reached :
      (runEvents (guarded succeeds (step sectorEnv largeTask))
        (start sectorEnv largeTask .initial) sectorEvents).any (fun job =>
          job.Drained ∧ job.notices =
            [.progress .inProgress 0 2048 0,
              .progress .inProgress 2048 2048 2080,
              .progress .success 2048 2048 2080] ∧
          job.input.size = 2048 ∧
          job.output.stateHasFile = true) = true := by
    decide +kernel
  obtain ⟨job, ran, facts⟩ := (Option.any_eq_true _ _).mp reached
  exact ⟨job, Execution.of_runEvents (allowed_of_succeeds sectorEnv) ran,
    of_decide_eq_true facts⟩

/-- Nothing is compressed, so nothing is lost. -/
theorem yields_sectorEnv : sectorEnv.Yields := by
  intro pos block trial member
  cases member

/-! ## Runs -/

section

variable {env : Environment} {task : Task} {may : TaskCompletions}
variable {initial pool : BufferPool} {ledger : Ledger}
variable {job : CompressionTask} {events : List TaskEvent}

/-- A task that ends without an error has written the image that it has
read. -/
theorem writes_what_it_reads
    (yields : env.Yields)
    (run : Execution (step env task) (Allowed may) (start env task pool)
      events job) (drained : job.Drained) (unfailed : ¬ job.Failed)
    (filled : ¬ job.Empty) :
    ∃ archive reads reader, Written env task may (enqueue task pool).1 job
      archive reads reader := by
  obtain ⟨ledger, _, stage⟩ := stage_of_run run
  cases stage.outcome yields drained with
  | failed failed => exact absurd failed unfailed
  | empty empty => exact absurd empty filled
  | written archive reads reader _ _ written =>
      exact ⟨archive, reads, reader, written⟩

theorem writes_what_it_reads_oneSector :
    ∃ events job archive reads reader, Execution (step sectorEnv largeTask)
        (Allowed (.full sectorEnv)) (start sectorEnv largeTask .initial)
        events job ∧
      Written sectorEnv largeTask (.full sectorEnv)
        (enqueue largeTask .initial).1 job archive reads reader := by
  obtain ⟨job, run, drained, notices, size, _⟩ := sector_reached
  have unfailed : ¬ job.Failed := by
    intro failed
    obtain ⟨status, reason, member⟩ := failed
    rw [notices] at member
    simp at member
  have filled : ¬ job.Empty := by
    intro empty
    have none := empty.2
    rw [size] at none
    exact absurd none (by decide)
  obtain ⟨archive, reads, reader, written⟩ :=
    writes_what_it_reads yields_sectorEnv run drained unfailed filled
  exact ⟨_, job, archive, reads, reader, run, written⟩

/-- Success is told at most once, and `Enqueue` always finds a free sector. -/
theorem Stage.keeps
    (stage : Stage env task may initial ledger job) :
    job.successes ≤ 1 ∧ job.output.underflow = false := by
  cases stage with
  | unopened unopened =>
      refine ⟨?_, ?_⟩
      · rw [unopened.silent]
        exact Nat.zero_le 1
      · rw [unopened.closed.output]
        rfl
  | detecting core phase detecting =>
      refine ⟨?_, ?_⟩
      · rw [detecting.successes]
        exact Nat.zero_le 1
      · rw [detecting.output]
        rfl
  | failing core phase before alone | vacant core phase before alone =>
      refine ⟨?_, alone.exact⟩
      rw [alone.silent]
      exact Nat.zero_le 1
  | writing config core phase writer opens accepted writing =>
      obtain ⟨archive, same, sameEnv, supplies⟩ :=
        writing.exists_run accepted
      obtain ⟨pipeline, filled, follows, sound, _⟩ :=
        @Writing.onCourse _ _ _ _ _ _ _ _ _ writing archive same sameEnv
          supplies (fun _ => True) trivial (fun _ _ _ _ _ => trivial)
      refine ⟨?_, ?_⟩
      · have counted := sound.counted.successes
        have most := Bool.toNat_le
          ((writer.course pipeline filled).indexWritten &&
            (writer.course pipeline filled).dataWritten)
        have notes : (writer.course pipeline filled).notes =
            writer.notes := rfl
        rw [notes] at counted
        rw [writing.successes]
        omega
      · rw [writing.output]
        exact follows.placed.underflow

/-- In no state of any run has success been told twice, or a sector been
taken from an empty list. -/
theorem never_underflows
    (run : Execution (step env task) (Allowed may) (start env task pool)
      events job) :
    job.successes ≤ 1 ∧ job.output.underflow = false := by
  obtain ⟨ledger, _, stage⟩ := stage_of_run run
  exact stage.keeps

theorem never_underflows_oneSector :
    ∃ events job, Execution (step sectorEnv largeTask)
        (Allowed (.full sectorEnv)) (start sectorEnv largeTask .initial)
        events job ∧ job.Drained ∧
      (job.successes ≤ 1 ∧ job.output.underflow = false) := by
  obtain ⟨job, run, drained, _⟩ := sector_reached
  exact ⟨_, job, run, drained, never_underflows run⟩

/-- The reader and the writer of a task that has something to write. -/
structure Parts (env : Environment) (task : Task) (may : TaskCompletions)
    (initial : BufferPool) (job : CompressionTask) (config : WriterConfig)
    (reads : List ReaderEvent) (reader : Reader) (writerPool : BufferPool)
    (writes : List WriterEvent) (writer : Writer) : Prop where
  opens : Opens task config
  accepted : config.Accepted env
  read : Execution (Reader.step Input.fetchCached env)
    (Reader.Permitted may) (Reader.start env initial) reads reader
  wrote : Runs env config may.toCompletions writerPool reader.delivered
    writes writer
  fits : config.blockSize ≤ writerPool.bufferSize
  input : job.input = reader.input
  output : job.output = writer.output
  readerPool : job.pool = reader.pool
  pool : job.pool = writer.pool
  file : job.file = writer.file
  inputCalls : inputCalls job.calls = reader.calls
  writerCalls : writerCalls job.calls = writer.calls
  nextPos : writer.nextPos = sectorSize * reader.delivered.length

/-- What a task does is a run of its reader, and a run of its writer on every
image that starts with the sectors that have been passed on. -/
theorem parts_of_run
    (run : Execution (step env task) (Allowed may) (start env task pool)
      events job) (hasFile : job.output.stateHasFile = true)
    (filled : ¬ job.Empty) :
    ∃ config reads reader writerPool writes writer,
      Parts env task may (enqueue task pool).1 job config reads reader
        writerPool writes writer := by
  obtain ⟨ledger, _, stage⟩ := stage_of_run run
  cases stage with
  | unopened unopened =>
      rw [unopened.closed.output] at hasFile
      cases hasFile
  | detecting core phase detecting =>
      rw [detecting.output] at hasFile
      cases hasFile
  | failing core phase before alone fileless =>
      rw [hasFile] at fileless
      cases fileless
  | vacant core phase before alone vacant =>
      exact absurd (vacant.isEmpty alone) filled
  | writing config core phase writer opens accepted writing =>
      exact ⟨config, ledger.reads, core.enter phase, ledger.writerPool,
        ledger.writes, writer, opens, accepted, writing.reached,
        writing.runs, writing.fits, writing.reads.input, writing.output,
        writing.reads.pool, writing.pool, writing.file, writing.reads.calls,
        writing.calls, writing.nextPos⟩

theorem parts_of_run_oneSector :
    ∃ events job config reads reader writerPool writes writer,
      Execution (step sectorEnv largeTask) (Allowed (.full sectorEnv))
          (start sectorEnv largeTask .initial) events job ∧
        Parts sectorEnv largeTask (.full sectorEnv)
          (enqueue largeTask .initial).1 job config reads reader writerPool
          writes writer := by
  obtain ⟨job, run, _, _, size, hasFile⟩ := sector_reached
  have filled : ¬ job.Empty := by
    intro empty
    have none := empty.2
    rw [size] at none
    exact absurd none (by decide)
  obtain ⟨config, reads, reader, writerPool, writes, writer, parts⟩ :=
    parts_of_run run hasFile filled
  exact ⟨_, job, config, reads, reader, writerPool, writes, writer, run,
    parts⟩

end

end CompressionTask

end Maxcso
