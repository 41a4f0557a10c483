import Maxcso.Checksum.Folding
import Maxcso.Checksum.Machine
import Maxcso.Checksum.Undisturbed
import Maxcso.Reader.Yielding

/-!
# What a checksum task reports

The reader of a checksum task is a reader that is not disturbed.  Every sector
is folded in when it is passed on, so that a task that ends without an error
has reported the checksum of the image that its file stands for.
-/

namespace Maxcso

open Transition

/-- The sectors of an image have its checksum. -/
theorem Crc32.foldl_sectors
    {crc32 : Crc32} (concatenates : crc32.Concatenates) (image : Bytes)
    (count : Nat) :
    ((sectorsOf image (count + 1)).map Prod.snd).foldl crc32.update
        crc32.start =
      crc32.update crc32.start
        (FileBytes.pread image 0 (sectorSize * (count + 1))) := by
  induction count with
  | zero => rfl
  | succ count inductionHypothesis =>
      rw [sectorsOf_succ, List.map_append, List.foldl_append,
        inductionHypothesis]
      show crc32.update _ (FileBytes.pread image _ sectorSize) = _
      rw [concatenates, Nat.mul_succ sectorSize (count + 1),
        FileBytes.pread_add, Nat.zero_add]

namespace Reader

variable {reader core : Reader} {phase : Phase}

/-- When `begin_` is called nothing has been passed on. -/
theorem Placed.begins (placed : Placed reader core phase) {size : Int}
    {rest : List InputCall} (calls : reader.calls = .begin size :: rest) :
    reader.delivered = [] ∧ size = reader.input.size := by
  obtain ⟨same, track, steady⟩ := placed
  subst same
  have due : phase.calls = .begin size :: rest := calls
  have beginning : phase = .beginning size := by
    cases phase with
    | beginning => cases due; rfl
    | _ => cases due
  subst beginning
  exact ⟨track.fresh rfl, steady.orderly.begins size rfl⟩

end Reader

namespace ChecksumTask

section

variable (task : ChecksumTask)

@[simp]
theorem report_pos : task.report.pos = task.pos := by
  unfold report
  dsimp only
  split <;> rfl

@[simp]
theorem report_size : task.report.size = task.size := by
  unfold report
  dsimp only
  split <;> rfl

@[simp]
theorem report_crc : task.report.crc = task.crc := by
  unfold report
  dsimp only
  split <;> rfl

@[simp]
theorem report_pendingBuffers :
    task.report.pendingBuffers = task.pendingBuffers := by
  unfold report
  dsimp only
  split <;> rfl

/-- The checksum is reported when the end of the image is reached. -/
theorem filter_report :
    task.report.notes.filter isSuccess =
      task.notes.filter isSuccess ++
        if task.pos = task.size then
          [.success ("CRC32: " ++ hexadecimal task.crc)]
        else
          [] := by
  unfold report
  by_cases last : task.pos = task.size
  · simp [notify, isSuccess, last]
  · simp [notify, isSuccess, last]

variable {task}

theorem mem_report {note : ChecksumNote} (member : note ∈ task.notes) :
    note ∈ task.report.notes := by
  unfold report
  dsimp only
  split
  · exact List.mem_append_left _ (List.mem_append_left _ member)
  · exact List.mem_append_left _ member

/-- The sector that is expected is folded in and released. -/
theorem receive_next {crc32 : Crc32} {pool : BufferPool} {buffer : Buffer}
    (none : task.pendingBuffers = []) :
    task.receive crc32 pool task.pos buffer =
      (({ task with
          crc := crc32.update task.crc
            (FlatMemory.read buffer.memory 0 sectorSize)
          pos := task.pos + sectorSize } : ChecksumTask).report,
        pool.release buffer) := by
  rw [receive, if_pos rfl, handleBuffer_eq]
  simp only [fold, none, flushPending]

end

end ChecksumTask

namespace ChecksumJob

open ChecksumTask

/-- The job has a reader, and has folded in what has been passed on. -/
structure Sums (crc32 : Crc32) (image : Bytes) (job : ChecksumJob)
    (reader : Reader) : Prop where
  input : job.input = reader.input
  pool : job.pool = reader.pool
  calls : job.calls = reader.calls
  opened : job.opening = false
  pos : job.task.pos = (sectorSize * reader.delivered.length : Nat)
  pending : job.task.pendingBuffers = []
  begun : reader.begun ≠ [] →
    job.task.size = image.length ∧
      job.task.crc = (reader.delivered.map Delivery.sector).foldl
        crc32.update crc32.start
  told : ∀ reason, (false, reason) ∈ reader.finished →
    .invalidData reason ∈ job.task.notes
  notes : job.task.notes.filter isSuccess =
    if reader.delivered ≠ [] ∧ job.task.pos = image.length then
      [.success ("CRC32: " ++ hexadecimal job.task.crc)]
    else
      []

section

variable {crc32 : Crc32} {env : Environment} {file image : Bytes}
variable {base : Input} {pool : BufferPool} {job next : ChecksumJob}
variable {reader target : Reader} {events : List ReaderEvent}

/-- The reader is not disturbed by what the job does. -/
abbrev ReaderRun (env : Environment) (pool : BufferPool) :
    List ReaderEvent → Reader → Prop :=
  Execution (Reader.step Input.fetchCached env) (Reader.Undisturbed .any)
    (Reader.start env pool)

/-- A step of the reader that does not call the task. -/
theorem Sums.read (sums : Sums crc32 image job reader)
    (delivered : target.delivered = reader.delivered)
    (begun : target.begun = reader.begun)
    (finished : target.finished = reader.finished)
    (input : next.input = target.input) (pool : next.pool = target.pool)
    (calls : next.calls = target.calls) (task : next.task = job.task)
    (opening : next.opening = job.opening) :
    Sums crc32 image next target := by
  refine ⟨input, pool, calls, opening.trans sums.opened, ?_, ?_, ?_, ?_, ?_⟩
  · rw [task, delivered]
    exact sums.pos
  · rw [task]
    exact sums.pending
  · rw [task, begun, delivered]
    exact sums.begun
  · rw [task, finished]
    exact sums.told
  · rw [task, delivered]
    exact sums.notes

/-- Once `begin_` has been called the size is that of the image. -/
theorem size_of_run (represents : env.Represents file image base)
    (run : ReaderRun env pool events reader) (begun : reader.begun ≠ []) :
    reader.input.size = image.length := by
  have found := Reader.found_of_run represents.finds run begun
  rw [← represents.size, ← found]
  rfl

/-- A sector is folded in, and its buffer goes back to the pool. -/
theorem Sums.callback (represents : env.Represents file image base)
    (least : minSize ≤ pool.bufferSize)
    (run : ReaderRun env pool events reader)
    (sums : Sums crc32 image job reader) {pos : Int} {sector : Buffer}
    {supplied : Nat} {rest : List InputCall}
    (calls : reader.calls = .callback pos sector supplied :: rest) :
    ∃ events' target, ReaderRun env pool events' target ∧
      Sums crc32 image
        (job.runCall crc32 env (.callback pos sector supplied) rest)
        target := by
  obtain ⟨core, phase, placed⟩ := Reader.placed_of_run least run
  obtain ⟨here, inside, begun⟩ := placed.callback calls
  obtain ⟨size, crc⟩ := sums.begun begun
  rw [size_of_run represents run begun] at inside
  let passed := reader.runCall Input.fetchCached env
    (.callback pos sector supplied) rest
  have taken : Reader.step Input.fetchCached env reader .run =
      some passed := by
    rw [Reader.step, calls]
  have permitted : reader.Undisturbed .any .run := trivial
  have released : passed.Undisturbed .any
      (.otherPool (reader.pool.release sector)) := ⟨begun, rfl⟩
  have run' := (run.snoc permitted taken).snoc released rfl
  have expected : job.task.pos = pos := sums.pos.trans here.symm
  have received : job.task.receive crc32 job.pool pos sector =
      (({ job.task with
          crc := crc32.update job.task.crc
            (FlatMemory.read sector.memory 0 sectorSize)
          pos := job.task.pos + sectorSize } : ChecksumTask).report,
        reader.pool.release sector) := by
    rw [← expected, receive_next sums.pending, sums.pool]
  have silent : job.task.notes.filter isSuccess = [] := by
    rw [sums.notes, if_neg]
    intro reported
    omega
  have more : passed.delivered = reader.delivered ++
      [⟨pos, FlatMemory.read sector.memory 0 sectorSize, supplied⟩] := rfl
  have count : passed.delivered.length = reader.delivered.length + 1 :=
    List.length_append
  have next : job.task.pos + sectorSize =
      (sectorSize * passed.delivered.length : Nat) := by
    rw [count, sums.pos, Nat.mul_succ]
    rfl
  refine ⟨_, _, run', ?_⟩
  rw [runCall, received]
  refine ⟨sums.input, rfl, rfl, sums.opened, ?_, ?_, ?_, ?_, ?_⟩
  · exact (report_pos _).trans next
  · exact (report_pendingBuffers _).trans sums.pending
  · intro _
    refine ⟨(report_size _).trans size, (report_crc _).trans ?_⟩
    show _ = (passed.delivered.map Delivery.sector).foldl crc32.update
      crc32.start
    rw [more, List.map_append, List.foldl_append, ← crc, List.map_singleton,
      List.foldl_cons, List.foldl_nil]
  · intro reason member
    exact mem_report (sums.told reason member)
  · rw [filter_report, report_pos, report_crc]
    show job.task.notes.filter isSuccess ++ _ = _
    rw [silent, List.nil_append]
    dsimp only
    rw [size]
    congr 1
    exact propext ⟨fun last => ⟨by simp [passed, Reader.runCall], last⟩,
      fun both => both.2⟩

/-- The task is told the size before the first sector. -/
theorem Sums.begins (represents : env.Represents file image base)
    (least : minSize ≤ pool.bufferSize)
    (run : ReaderRun env pool events reader)
    (sums : Sums crc32 image job reader) {size : Int}
    {rest : List InputCall} (calls : reader.calls = .begin size :: rest) :
    ∃ events' target, ReaderRun env pool events' target ∧
      Sums crc32 image (job.runCall crc32 env (.begin size) rest)
        target := by
  obtain ⟨core, phase, placed⟩ := Reader.placed_of_run least run
  obtain ⟨undelivered, same⟩ := placed.begins calls
  let begun := reader.runCall Input.fetchCached env (.begin size) rest
  have taken : Reader.step Input.fetchCached env reader .run =
      some begun := by
    rw [Reader.step, calls]
  have permitted : reader.Undisturbed .any .run := trivial
  have run' := run.snoc permitted taken
  have some : begun.begun ≠ [] :=
    List.append_ne_nil_of_right_ne_nil _ (List.cons_ne_nil _ _)
  have told := size_of_run represents run' some
  have whole : size = image.length := same.trans told
  have silent := sums.notes
  rw [if_neg fun told => told.1 undelivered] at silent
  refine ⟨_, _, run', ?_⟩
  refine ⟨sums.input, sums.pool, rfl, sums.opened, sums.pos, sums.pending,
    ?_, ?_, ?_⟩
  · intro _
    refine ⟨whole, ?_⟩
    show crc32.start = (reader.delivered.map Delivery.sector).foldl _ _
    rw [undelivered]
    rfl
  · intro reason member
    exact List.mem_append_left _ (sums.told reason member)
  · show (job.task.notes ++
      [ChecksumNote.inProgress 0 size 0]).filter isSuccess = _
    rw [List.filter_append, silent, if_neg fun told => told.1 undelivered]
    rfl

theorem Sums.finishes (run : ReaderRun env pool events reader)
    (sums : Sums crc32 image job reader) {success : Bool} {reason : String}
    {rest : List InputCall}
    (calls : reader.calls = .finish success reason :: rest) :
    ∃ events' target, ReaderRun env pool events' target ∧
      Sums crc32 image
        (job.runCall crc32 env (.finish success reason) rest) target := by
  let ended := reader.runCall Input.fetchCached env
    (.finish success reason) rest
  have taken : Reader.step Input.fetchCached env reader .run =
      some ended := by
    rw [Reader.step, calls]
  have permitted : reader.Undisturbed .any .run := trivial
  refine ⟨_, _, run.snoc permitted taken, ?_⟩
  cases success with
  | true =>
      refine ⟨sums.input, sums.pool, rfl, sums.opened, sums.pos,
        sums.pending, sums.begun, ?_, sums.notes⟩
      intro other member
      rcases List.mem_append.mp member with earlier | last
      · exact sums.told other earlier
      · cases List.mem_singleton.mp last
  | false =>
      refine ⟨sums.input, sums.pool, rfl, sums.opened, sums.pos,
        sums.pending, sums.begun, ?_, ?_⟩
      · intro other member
        rcases List.mem_append.mp member with earlier | last
        · exact List.mem_append_left _ (sums.told other earlier)
        · cases List.mem_singleton.mp last
          exact List.mem_append_right _ (List.mem_singleton_self _)
      · show (job.task.notes ++
          [ChecksumNote.invalidData reason]).filter isSuccess = _
        rw [List.filter_append]
        exact (List.append_nil _).trans sums.notes

theorem Sums.step (represents : env.Represents file image base)
    (least : minSize ≤ pool.bufferSize)
    (run : ReaderRun env pool events reader)
    (sums : Sums crc32 image job reader) {event : ChecksumEvent}
    (taken : job.step crc32 env event = some next) :
    ∃ events' target, ReaderRun env pool events' target ∧
      Sums crc32 image next target := by
  cases event with
  | run =>
      obtain ⟨call, rest, due, rfl⟩ := step_run taken
      have calls := sums.calls.symm.trans due
      have permitted : reader.Undisturbed .any .run := trivial
      have own : Reader.step Input.fetchCached env reader .run =
          some (reader.runCall Input.fetchCached env call rest) := by
        rw [Reader.step, calls]
      have run' := run.snoc permitted own
      cases call with
      | callback => exact sums.callback represents least run calls
      | «begin» => exact sums.begins represents least run calls
      | finish => exact sums.finishes run calls
      | _ =>
          refine ⟨_, _, run', sums.read rfl rfl rfl ?_ ?_ ?_ rfl rfl⟩
          · rw [runCall, sums.input, sums.pool]
            rfl
          · rw [runCall, sums.input, sums.pool]
            rfl
          · rw [runCall, sums.input, sums.pool]
            rfl
  | opened success =>
      have opening := (step_opened taken).1
      rw [sums.opened] at opening
      cases opening
  | completed position =>
      obtain ⟨request, quiet, found, rfl⟩ := step_completed taken
      rw [sums.input] at found
      have calls := sums.calls.symm.trans quiet
      have permitted : reader.Undisturbed .any (.complete position) :=
        fun _ _ => trivial
      have own : Reader.step Input.fetchCached env reader
          (.complete position) = some (reader.continueWith
            (Input.complete env
              { reader.input with
                inFlight := reader.input.inFlight.eraseIdx position }
              reader.pool request) []) := by
        rw [Reader.step, calls, found]
      refine ⟨_, _, run.snoc permitted own,
        sums.read rfl rfl rfl ?_ ?_ ?_ rfl rfl⟩
      · rw [sums.input, sums.pool]
        rfl
      · rw [sums.input, sums.pool]
        rfl
      · rw [sums.input, sums.pool]
        rfl

/-! ## Runs -/

/-- The file is being opened, could not be opened, or is read. -/
inductive Stage (crc32 : Crc32) (env : Environment) (pool : BufferPool)
    (image : Bytes) (job : ChecksumJob) : Prop
  | opening (waits : job = start env pool)
  | refused (closed : job = { start env pool with
      opening := false
      badInput := ["Could not open input file"] })
  | reading (events : List ReaderEvent) (reader : Reader)
      (run : ReaderRun env pool events reader)
      (sums : Sums crc32 image job reader)

/-- `Pipe` starts the reader. -/
theorem sums_start :
    Sums crc32 image ((start env pool).onOpened env true)
      (Reader.start env pool) where
  input := rfl
  pool := rfl
  calls := rfl
  opened := rfl
  pos := rfl
  pending := rfl
  begun some := absurd rfl some
  told _ member := absurd member List.not_mem_nil
  notes := (if_neg fun told => told.1 rfl).symm

theorem Stage.step (represents : env.Represents file image base)
    (least : minSize ≤ pool.bufferSize)
    (stage : Stage crc32 env pool image job) {event : ChecksumEvent}
    (taken : job.step crc32 env event = some next) :
    Stage crc32 env pool image next := by
  cases stage with
  | reading events reader run sums =>
      obtain ⟨events', target, run', sums'⟩ :=
        sums.step represents least run taken
      exact .reading events' target run' sums'
  | opening waits =>
      subst waits
      cases event with
      | run =>
          obtain ⟨_, _, due, _⟩ := step_run taken
          cases due
      | opened success =>
          obtain ⟨_, rfl⟩ := step_opened taken
          cases success with
          | false => exact .refused rfl
          | true => exact .reading [] _ (.nil _) sums_start
      | completed position =>
          obtain ⟨_, _, found, _⟩ := step_completed taken
          cases found
  | refused closed =>
      subst closed
      cases event with
      | run =>
          obtain ⟨_, _, due, _⟩ := step_run taken
          cases due
      | opened success =>
          have opening := (step_opened taken).1
          cases opening
      | completed position =>
          obtain ⟨_, _, found, _⟩ := step_completed taken
          cases found

theorem stage_of_run (represents : env.Represents file image base)
    (least : minSize ≤ pool.bufferSize) {events : List ChecksumEvent}
    (run : Execution (step crc32 env) Always (start env pool) events job) :
    Stage crc32 env pool image job :=
  run.invariant (fun _ _ _ stage _ taken =>
    stage.step represents least taken) (.opening rfl)

/-- What has been folded in when the end is reached is the image. -/
theorem Sums.whole (concatenates : crc32.Concatenates)
    (complete : env.CompleteReads file)
    (works : ∀ count, env.workStatus count ≠ -1)
    (represents : env.Represents file image base)
    (least : minSize ≤ pool.bufferSize)
    (run : ReaderRun env pool events reader)
    (sums : Sums crc32 image job reader) (some : reader.delivered ≠ [])
    (last : job.task.pos = image.length) :
    job.task.crc = crc32.update crc32.start image := by
  have keeps := run.weaken fun _ _ undisturbed =>
    (fun _ => undisturbed.keepsPool : Reader.KeepsPoolBegun _ _)
  have begun : reader.begun ≠ [] := by
    intro none
    exact some (Reader.undelivered_of_run complete works keeps none)
  obtain ⟨core, phase, placed⟩ := Reader.placed_of_run least run
  have found := Reader.found_of_run represents.finds run begun
  have room : base.csoBlockSize * 2 ≤ reader.pool.bufferSize := by
    rw [← found, placed.enter]
    have begun' : core.begun ≠ [] := by
      rw [placed.enter] at begun
      exact begun
    exact (placed.steady.room (Or.inl begun')).2
  have sectors := Reader.delivered_of_represents complete works represents
    keeps room
  have pos := sums.pos
  obtain ⟨before, count⟩ := Nat.exists_eq_add_one_of_ne_zero
    (List.length_pos_iff.mpr some).ne'
  have size : sectorSize * (before + 1) = image.length := by
    rw [count] at pos
    omega
  have bytes : reader.delivered.map Delivery.sector =
      (sectorsOf image (before + 1)).map Prod.snd := by
    rw [← count, ← sectors, List.map_map]
    rfl
  rw [(sums.begun begun).2, bytes, Crc32.foldl_sectors concatenates, size,
    FileBytes.pread, List.drop_zero, List.take_length]

end

/-- Whatever the order of the completions, the only checksum that is ever
reported is that of the image, and a task that has nothing left to do, and no
error to show for it, has reported it once. -/
theorem checksums_image
    {crc32 : Crc32} (concatenates : crc32.Concatenates)
    {env : Environment} {file image : Bytes} {base : Input}
    (complete : env.CompleteReads file)
    (works : ∀ count, env.workStatus count ≠ -1)
    (documented : env.Documented file image base) {pool : BufferPool}
    (least : minSize ≤ pool.bufferSize) {events : List ChecksumEvent}
    {job : ChecksumJob}
    (run : Execution (step crc32 env) Always (start env pool) events job) :
    (∀ reason, .success reason ∈ job.task.notes →
        reason = "CRC32: " ++
          hexadecimal (crc32.update crc32.start image)) ∧
      (job.Drained → ¬ job.Failed →
        job.task.notes.filter isSuccess =
          [.success ("CRC32: " ++
            hexadecimal (crc32.update crc32.start image))]) := by
  have represents := documented.represents complete
  cases stage_of_run represents least run with
  | opening waits =>
      subst waits
      refine ⟨fun reason member => absurd member List.not_mem_nil, ?_⟩
      intro drained
      cases drained.opening
  | refused closed =>
      subst closed
      refine ⟨fun reason member => absurd member List.not_mem_nil, ?_⟩
      intro _ unfailed
      exact absurd (Or.inl (List.cons_ne_nil _ _)) unfailed
  | reading events reader follows sums =>
      have whole := @Sums.whole crc32 env file image base pool job reader
        events concatenates complete works represents least follows sums
      refine ⟨?_, ?_⟩
      · intro reason member
        have listed : .success reason ∈ job.task.notes.filter isSuccess :=
          List.mem_filter.mpr ⟨member, rfl⟩
        rw [sums.notes] at listed
        split at listed
        · rename_i told
          rw [← whole told.1 told.2]
          cases List.mem_singleton.mp listed
          rfl
        · cases listed
      · intro drained unfailed
        have silent : ∀ reason, (false, reason) ∉ reader.finished :=
          fun reason member => unfailed
            (Or.inr ⟨reason, sums.told reason member⟩)
        have calls := sums.calls.symm.trans drained.calls
        have inFlight := drained.inFlight
        rw [sums.input] at inFlight
        obtain ⟨core, phase, placed⟩ := Reader.placed_of_run least follows
        have ended := placed.ended calls inFlight silent
        have found := Reader.found_of_idle represents.finds follows calls
          inFlight silent
        have size : reader.input.size = image.length := by
          rw [← represents.size, ← found]
          rfl
        have positive := documented.whole.1
        have some : reader.delivered ≠ [] := by
          intro none
          rw [none, size] at ended
          exact absurd ended (by simp [positive.ne'])
        have last : job.task.pos = image.length := by
          rw [sums.pos, ← ended, size]
          rfl
        rw [sums.notes, if_pos ⟨some, last⟩, whole some last]

/-! ### A file of three blocks -/

def isInvalidData : ChecksumNote → Bool
  | .invalidData _ => true
  | _ => false

/-- The task reads `threeBlockFile` to its end. -/
def threeBlockEvents : List ChecksumEvent :=
  [.opened true, .completed 0, .completed 0, .run, .run, .completed 0,
      .completed 0] ++
    List.replicate 14 .run ++ .completed 0 :: List.replicate 6 .run

theorem threeBlocks_drained :
    ∃ job, Execution (step zlibCrc32 Reader.threeBlockEnv) Always
        (start Reader.threeBlockEnv .initial) threeBlockEvents job ∧
      job.Drained ∧ ¬ job.Failed := by
  have reached :
      (runEvents
        (guarded (fun _ _ => true) (step zlibCrc32 Reader.threeBlockEnv))
        (start Reader.threeBlockEnv .initial) threeBlockEvents).any
          (fun job => job.calls.isEmpty ∧ job.opening = false ∧
            job.input.inFlight.isEmpty ∧ job.badInput = [] ∧
            job.task.notes.all (!isInvalidData ·)) = true := by
    decide +kernel
  obtain ⟨job, ran, facts⟩ := (Option.any_eq_true _ _).mp reached
  obtain ⟨calls, opening, inFlight, opened, valid⟩ := of_decide_eq_true facts
  refine ⟨job, Execution.of_runEvents (fun _ _ _ => trivial) ran,
    ⟨List.isEmpty_iff.mp calls, opening, List.isEmpty_iff.mp inFlight⟩, ?_⟩
  rintro (some | ⟨reason, member⟩)
  · exact some opened
  · have fine := List.all_eq_true.mp valid _ member
    cases fine

theorem checksums_image_threeBlocks :
    ∃ job, Execution (step zlibCrc32 Reader.threeBlockEnv) Always
        (start Reader.threeBlockEnv .initial) threeBlockEvents job ∧
      job.task.notes.filter isSuccess =
        [.success ("CRC32: " ++ hexadecimal
          (zlibCrc32.update zlibCrc32.start CsoFile.threeBlockImage))] := by
  obtain ⟨job, run, drained, unfailed⟩ := threeBlocks_drained
  have documented := Environment.Documented.cso CsoFile.threeBlocks
    CsoFile.zeroBlockCodecs (fun _ => True) CsoFile.threeBlockImage
    CsoFile.threeBlocks_describes (fun _ _ _ _ _ => trivial)
    CsoFile.threeBlock_decodes.padded
    (CsoFile.threeBlocks_limits (by decide))
  refine ⟨job, run, ?_⟩
  exact (checksums_image zlibCrc32_concatenates
    Reader.threeBlockEnv_completeReads
    (fun _ => show (0 : Int) ≠ -1 by decide) documented
    (show minSize ≤ BufferPool.initial.bufferSize by decide) run).2
    drained unfailed

end ChecksumJob

end Maxcso
