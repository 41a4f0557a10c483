import Maxcso.Reader.InOrder
import Maxcso.Task.Reading
import Maxcso.Writer.Keeping

/-!
# The size of the buffers

The pool is resized for the task, for the blocks of the input, and again when
a large image turns out to be compressed in larger blocks.
-/

namespace Maxcso

open Transition

/-! ## The blocks of the input -/

namespace Input

/-- The buffers grow, and fit the blocks. -/
theorem growPool_room
    {pool : BufferPool} {blockSize : Nat}
    (grown : (growPool pool blockSize).2 = true) :
    pool.bufferSize ≤ (growPool pool blockSize).1.bufferSize ∧
      blockSize * 2 ≤ (growPool pool blockSize).1.bufferSize := by
  unfold growPool at grown ⊢
  by_cases small : pool.bufferSize < blockSize * 2
  · rw [if_pos small] at grown ⊢
    rcases pool.setBufferSize_cases (blockSize * 2) with
      ⟨_, resized⟩ | ⟨failed, _⟩
    · rw [resized]
      omega
    · rw [failed] at grown
      cases grown
  · rw [if_neg small]
    exact ⟨Nat.le_refl _, Nat.not_lt.mp small⟩

/-- What the detection leaves in the pool. -/
theorem complete_room
    (env : Environment) (input : Input) {pool : BufferPool}
    {request : InputRequest} (detects : request.detects = true)
    (least : minSize ≤ pool.bufferSize)
    (blocks : input.csoBlockSize * 2 ≤ pool.bufferSize) :
    let result := input.complete env pool request
    (∃ reason, result.phase = .finishing false reason) ∨
      (pool.bufferSize ≤ result.pool.bufferSize ∧
        result.input.csoBlockSize * 2 ≤ result.pool.bufferSize) := by
  cases request with
  | readHeader headerBuf =>
      simp only [complete, onHeaderRead, detectCso, detectDax]
      repeat' split
      · exact Or.inl ⟨_, rfl⟩
      · exact Or.inl ⟨_, rfl⟩
      · exact Or.inl ⟨_, rfl⟩
      · exact Or.inr (growPool_room ‹_›)
      · exact Or.inl ⟨_, rfl⟩
      · exact Or.inl ⟨_, rfl⟩
      · refine Or.inr ⟨Nat.le_refl _, ?_⟩
        have frame : daxFrameSize * 2 = minSize := by decide
        exact frame.trans_le least
      · exact Or.inr ⟨Nat.le_refl _, blocks⟩
  | readIndex bytes =>
      simp only [complete, onIndexRead]
      repeat' split
      · exact Or.inl ⟨_, rfl⟩
      · exact Or.inl ⟨_, rfl⟩
      · exact Or.inr ⟨Nat.le_refl _, blocks⟩
  | readTables frames areas bytes =>
      simp only [complete, onTablesRead]
      repeat' split
      · exact Or.inl ⟨_, rfl⟩
      · exact Or.inl ⟨_, rfl⟩
      · exact Or.inr ⟨Nat.le_refl _, blocks⟩
  | stat =>
      simp only [complete, onStat]
      repeat' split
      · exact Or.inl ⟨_, rfl⟩
      · exact Or.inl ⟨_, rfl⟩
      · exact Or.inr ⟨Nat.le_refl _, blocks⟩
  | readBlock | decompress => cases detects

end Input

namespace CompressionTask

/-! ## The blocks of the output -/

/-- The image is so large that the default is a large block. -/
def Resizes (task : Task) (size : Int) : Prop :=
  hasFlag task.flags taskflagDecompress = false ∧
    task.blockSize = defaultBlockSize ∧ largeBlockSizeThresh ≤ size

theorem begin_resizes {task : Task} {size : Int}
    (resizes : Resizes task size) (blockSize : Nat) (pool : BufferPool) :
    begin task blockSize pool size = resize pool largeBlockSize :=
  if_pos resizes

theorem begin_stays {task : Task} {size : Int}
    (stays : ¬ Resizes task size) (blockSize : Nat) (pool : BufferPool) :
    begin task blockSize pool size = (pool, .ok blockSize) :=
  if_neg stays

theorem setFile_blockSize
    (output : Output) (noFile : Bool) (srcSize : Int) (blockSize : Nat)
    (fmt : CsoFormat) (origMaxCost lz4MaxCost : Nat) :
    (output.setFile noFile srcSize blockSize fmt origMaxCost
      lz4MaxCost).1.blockSize = blockSize := by
  unfold Output.setFile
  dsimp only
  split_ifs
  · rfl
  · rfl
  · rfl
  · rfl
  · rfl
  · rfl

/-- What the buffers have room for, before and after `begin_`. -/
inductive Roomy (task : Task) (job : CompressionTask) : Bool → Prop
  | detecting
      (unopened : job.output.blockSize = 0)
      (least : minSize ≤ job.pool.bufferSize)
      (first : job.blockSize * 2 ≤ job.pool.bufferSize)
      (blocks : job.input.csoBlockSize * 2 ≤ job.pool.bufferSize) :
      Roomy task job true
  | refused (unopened : job.output.blockSize = 0) : Roomy task job false
  | stays
      (stays : ¬ Resizes task job.input.size)
      (output : job.output.blockSize * 2 ≤ job.pool.bufferSize)
      (blocks : job.input.csoBlockSize * 2 ≤ job.pool.bufferSize) :
      Roomy task job false
  | resized
      (resizes : Resizes task job.input.size)
      (output : job.output.blockSize = largeBlockSize)
      (bufferSize : job.pool.bufferSize = largeBlockSize * 2) :
      Roomy task job false

variable {env : Environment} {task : Task} {job next : CompressionTask}
variable {core : Reader} {phase : Phase} {detecting : Bool}

theorem Roomy.carry (roomy : Roomy task job detecting)
    (size : next.input.size = job.input.size)
    (csoBlockSize : next.input.csoBlockSize = job.input.csoBlockSize)
    (bufferSize : next.pool.bufferSize = job.pool.bufferSize)
    (output : next.output.blockSize = job.output.blockSize)
    (blockSize : next.blockSize = job.blockSize) :
    Roomy task next detecting := by
  cases roomy with
  | detecting unopened least first blocks =>
      refine .detecting (output.trans unopened) ?_ ?_ ?_
      · rwa [bufferSize]
      · rwa [bufferSize, blockSize]
      · rwa [bufferSize, csoBlockSize]
  | refused unopened => exact .refused (output.trans unopened)
  | stays stays inside blocks =>
      refine .stays ?_ ?_ ?_
      · rwa [size]
      · rwa [bufferSize, output]
      · rwa [bufferSize, csoBlockSize]
  | resized resizes large same =>
      refine .resized ?_ (output.trans large) (bufferSize.trans same)
      rwa [size]

/-- The writer has done something. -/
theorem Roomy.keeps (roomy : Roomy task job detecting)
    {result : OutputResult} (keeps : Output.Keeps job.output job.pool result)
    (size : next.input.size = job.input.size)
    (csoBlockSize : next.input.csoBlockSize = job.input.csoBlockSize)
    (output : next.output = result.output) (pool : next.pool = result.pool)
    (blockSize : next.blockSize = job.blockSize) :
    Roomy task next detecting := by
  refine roomy.carry size csoBlockSize ?_ ?_ blockSize
  · rw [pool]
    exact keeps.bufferSize
  · rw [output]
    exact keeps.same.blockSize

/-- The reader has done something after the detection. -/
theorem Roomy.move (roomy : Roomy task job phase.detecting)
    (reads : Reads job core phase) (late : phase.detecting = false)
    {event : ReaderEvent} {core' : Reader} {phase' : Phase}
    (own : event = .run ∨ event = .complete 0)
    (move : Move Input.fetchCached env core phase event core' phase')
    (again : Reads next core' phase')
    (output : next.output = job.output)
    (blockSize : next.blockSize = job.blockSize) :
    Roomy task next phase'.detecting := by
  have keeps : (core.enter phase).KeepsPool event := by
    rcases own with same | same
    · rw [same]
      trivial
    · rw [same]
      trivial
  obtain ⟨found, bufferSize, _, late'⟩ := Reader.found_move late keeps move
  rw [late', ← late]
  refine roomy.carry ?_ ?_ ?_ ?_ blockSize
  · rw [again.input, reads.input]
    show core'.input.found.size = core.input.found.size
    rw [found]
  · rw [again.input, reads.input]
    show core'.input.found.csoBlockSize = core.input.found.csoBlockSize
    rw [found]
  · rw [again.pool, reads.pool]
    exact bufferSize
  · rw [output]

/-- A request of the detection has been completed. -/
theorem Roomy.detect (roomy : Roomy task job true)
    (reads : Reads job core phase) {request : InputRequest}
    (waiting : phase = .waiting request) (detects : request.detects = true)
    {core' : Reader} {phase' : Phase}
    (move : Move Input.fetchCached env core phase (.complete 0) core' phase')
    (again : Reads next core' phase')
    (output : next.output = job.output)
    (blockSize : next.blockSize = job.blockSize) :
    Roomy task next phase'.detecting := by
  subst waiting
  cases roomy with
  | detecting unopened least first blocks =>
      cases move with
      | detect _ _ =>
          have frame := Reader.detected_frame env detects reads.track.aligned
          rw [reads.input, reads.pool] at blocks
          rw [reads.pool] at least first
          have room := Input.complete_room env
            { core.input with inFlight := [], resumeShouldRead := false }
            detects least blocks
          have input := again.input
          have pool := again.pool
          rcases frame.phase with ⟨reason, finishing⟩ | ⟨detecting, _⟩
          · rw [finishing]
            refine .refused ?_
            rwa [output]
          · rcases room with ⟨reason, finishing⟩ | ⟨more, fits⟩
            · have same : (core.detected env request).phase =
                  .finishing false reason := finishing
              rw [same] at detecting
              cases detecting
            · rw [detecting]
              refine .detecting ?_ ?_ ?_ ?_
              · rwa [output]
              · rw [pool]
                exact least.trans more
              · rw [pool, blockSize]
                exact first.trans more
              · rw [pool, input]
                exact fits
      | blockMissing | blockShort | blockRead => cases detects
      | workFailed | workRejected | decompressed => cases detects

theorem Roomy.begins (roomy : Roomy task job true)
    (reads : Reads job core phase) {size : Int} {rest : List TaskCall}
    (calls : job.calls = .input (.begin size) :: rest) :
    ∃ core' phase', Reads (job.onBegin task size rest) core' phase' ∧
      Roomy task (job.onBegin task size rest) phase'.detecting := by
  obtain ⟨_, found, read⟩ := reads.begin calls
  have image : job.input.size = size := by
    rw [found, reads.size]
  have continues := @continues_onBegin task job size rest
  cases roomy with
  | detecting unopened least first blocks =>
      cases outcome : (begin task job.blockSize job.pool size).2 with
      | error reason =>
          rw [onBegin_error outcome] at continues ⊢
          exact ⟨_, _, read.pause rfl rfl continues.failed,
            .refused unopened⟩
      | ok blockSize =>
          rw [onBegin_ok outcome] at continues ⊢
          refine ⟨_, _, read.other rfl ?_ continues.failed, ?_⟩
          · rw [inputCalls_outputs, inputCalls_begun]
          by_cases resizes : Resizes task size
          · rw [begin_resizes resizes] at outcome ⊢
            obtain ⟨large, resized⟩ := of_resize outcome
            refine .resized ?_ ?_ ?_
            · dsimp only
              rwa [image]
            · rw [← large]
              exact setFile_blockSize _ _ _ _ _ _ _
            · exact resized
          · rw [begin_stays resizes] at outcome ⊢
            obtain rfl := Except.ok.inj outcome
            refine .stays ?_ ?_ blocks
            · dsimp only
              rwa [image]
            · dsimp only
              rw [setFile_blockSize]
              exact first

/-- A call of the reader. -/
theorem Roomy.runInput (roomy : Roomy task job phase.detecting)
    (reads : Reads job core phase) {call : InputCall}
    {rest : List TaskCall} (calls : job.calls = .input call :: rest) :
    ∃ core' phase',
      Reads (job.runInput env task call rest) core' phase' ∧
        Roomy task (job.runInput env task call rest) phase'.detecting := by
  have continues := @continues_runCall env task job (.input call) rest
  have own : ∀ {result : InputResult},
      job.input.runOwn env job.pool call = some result →
        ∃ core' phase',
          Reads (job.continueInput result rest) core' phase' ∧
            Roomy task (job.continueInput result rest) phase'.detecting := by
    intro result same
    obtain ⟨late, _, core', phase', move, _, _, again⟩ :=
      @Reads.own env job (job.continueInput result rest) core phase reads
        call rest result calls same rfl rfl inputCalls_inputs id
    exact ⟨core', phase', again,
      roomy.move reads late (Or.inl rfl) move again rfl rfl⟩
  cases call with
  | readSector | rawDelivered | subBlock | subDelivered => exact own rfl
  | callback pos sector supplied =>
      obtain ⟨_, _, late, phase', _, _, late', again⟩ :=
        @Reads.callback env job
          (job.runInput env task (.callback pos sector supplied) rest) core
          phase reads pos sector supplied rest calls rfl
          (inputCalls_outputs _) continues.failed
      refine ⟨_, phase', again, ?_⟩
      rw [late', ← late]
      exact roomy.keeps (Output.enqueue_keeps env pos sector) rfl rfl rfl rfl
        rfl
  | begin size =>
      have detecting : phase.detecting = true := by
        rw [(reads.begin calls).1]
        rfl
      rw [detecting] at roomy
      exact roomy.begins reads calls
  | finish success reason =>
      have told : success = false →
          (job.runInput env task (.finish success reason) rest).Failed := by
        intro failure
        subst failure
        exact ⟨_, reason, List.mem_append_right _
          (List.mem_singleton_self _)⟩
      cases success with
      | false | true =>
          obtain ⟨same, again⟩ := @Reads.finish job
            (job.runInput env task (.finish _ reason) rest) core phase reads
            _ reason rest calls rfl rfl rfl continues.failed told
          subst same
          exact ⟨_, _, again, roomy.carry rfl rfl rfl rfl rfl⟩

/-- A call of the writer. -/
theorem Roomy.runOutput (roomy : Roomy task job phase.detecting)
    (reads : Reads job core phase) {call : OutputCall}
    {rest : List TaskCall} (calls : job.calls = .output call :: rest) :
    ∃ core' phase',
      Reads (job.runOutput env call rest) core' phase' ∧
        Roomy task (job.runOutput env call rest) phase'.detecting := by
  have continues := @continues_runCall env task job (.output call) rest
  have due : inputCalls job.calls = inputCalls rest := by
    rw [calls, inputCalls_output]
  have wrote : ∀ {result : OutputResult},
      Output.Keeps job.output job.pool result →
        ∃ core' phase',
          Reads (job.continueOutput result rest) core' phase' ∧
            Roomy task (job.continueOutput result rest)
              phase'.detecting := by
    intro result keeps
    exact ⟨_, phase,
      reads.other rfl ((inputCalls_outputs _).trans due.symm) id,
      roomy.keeps keeps rfl rfl rfl rfl rfl⟩
  cases call with
  | pad sector block padPos => exact wrote (Output.pad_keeps _ _ _ _)
  | sectorReady sector block => exact wrote (Output.sectorReady_keeps _ _ _)
  | afterProgress nextPos => exact wrote (Output.afterProgress_keeps _ _)
  | progress pos total written =>
      obtain ⟨phase', same, again⟩ := @Reads.resume job
        (job.runOutput env (.progress pos total written) rest) core phase
        reads rfl
        (inputCalls_inputs.trans (congrArg (_ ++ ·) due.symm)) id
      refine ⟨_, phase', again, ?_⟩
      have detecting : phase'.detecting = phase.detecting := by
        rcases same with same | ⟨parked, reading⟩
        · rw [same]
        · rw [parked, reading]
          rfl
      rw [detecting]
      refine roomy.carry ?_ ?_ rfl rfl rfl
      · rw [again.size, reads.size]
      · rw [again.input, reads.input]
        rfl
  | finish success reason =>
      cases success with
      | false =>
          exact ⟨_, phase, reads.pause rfl due.symm continues.failed,
            roomy.carry rfl rfl rfl rfl rfl⟩
      | true =>
          exact ⟨_, phase, reads.other rfl due.symm continues.failed,
            roomy.carry rfl rfl rfl rfl rfl⟩

theorem Roomy.runCall (roomy : Roomy task job phase.detecting)
    (reads : Reads job core phase) {call : TaskCall} {rest : List TaskCall}
    (calls : job.calls = call :: rest) :
    ∃ core' phase',
      Reads (job.runCall env task call rest) core' phase' ∧
        Roomy task (job.runCall env task call rest) phase'.detecting := by
  have continues := @continues_runCall env task job call rest
  cases call with
  | input call => exact roomy.runInput reads calls
  | output call => exact roomy.runOutput reads calls
  | checkQueue =>
      have due : inputCalls rest = inputCalls job.calls := by
        rw [calls, inputCalls_checkQueue]
      unfold CompressionTask.runCall at continues ⊢
      by_cases full : job.output.queueFull = true
      · rw [if_pos full] at continues ⊢
        exact ⟨_, phase, reads.pause rfl due continues.failed,
          roomy.carry rfl rfl rfl rfl rfl⟩
      · rw [if_neg full] at continues ⊢
        exact ⟨_, phase, reads.other rfl due continues.failed,
          roomy.carry rfl rfl rfl rfl rfl⟩
  | begun size =>
      have due : inputCalls rest = inputCalls job.calls := by
        rw [calls, inputCalls_begun]
      exact ⟨_, phase, reads.other rfl due continues.failed,
        roomy.carry rfl rfl rfl rfl rfl⟩
  | progressed pos total written =>
      have due : inputCalls rest = inputCalls job.calls := by
        rw [calls, inputCalls_progressed]
      exact ⟨_, phase, reads.other rfl due continues.failed,
        roomy.carry rfl rfl rfl rfl rfl⟩

/-- Every step keeps the room that there is. -/
theorem Roomy.step (roomy : Roomy task job phase.detecting)
    (reads : Reads job core phase) (opened : job.opening = none)
    {event : TaskEvent} (taken : job.step env task event = some next) :
    ∃ core' phase', Reads next core' phase' ∧
      Roomy task next phase'.detecting := by
  cases event with
  | run =>
      obtain ⟨call, rest, calls, rfl⟩ := step_run taken
      exact roomy.runCall reads calls
  | opened success =>
      obtain ⟨opening, _, waiting, _⟩ := step_opened taken
      rw [opened] at waiting
      cases waiting
  | completed position =>
      obtain ⟨request, quiet, found, same⟩ := step_completed taken
      obtain ⟨waiting, core', phase', move, _, _, again⟩ :=
        @Reads.complete env job next core phase reads quiet position request
          found _ rfl (congrArg CompressionTask.input same)
          (congrArg CompressionTask.pool same)
          (same ▸ inputCalls_inputs.trans (List.append_nil _))
          (continues_step taken).failed
      have output := congrArg CompressionTask.output same
      have blockSize := congrArg CompressionTask.blockSize same
      refine ⟨core', phase', again, ?_⟩
      cases detects : request.detects with
      | true =>
          have detecting : phase.detecting = true := by
            rw [waiting]
            exact detects
          rw [detecting] at roomy
          exact roomy.detect reads waiting detects move again output blockSize
      | false =>
          have late : phase.detecting = false := by
            rw [waiting]
            exact detects
          exact roomy.move reads late (Or.inr rfl) move again output
            blockSize
  | compressed position status =>
      obtain ⟨queued, quiet, _, rfl⟩ := step_compressed taken
      refine ⟨_, phase, reads.other rfl ?_ id, ?_⟩
      · rw [quiet]
        exact inputCalls_outputs _
      · have keeps := @Output.onCompressed_keeps
          { job.output with
            jobs := job.output.jobs.eraseIdx position }
          job.pool env queued status
        exact roomy.keeps
          (keeps.after ⟨rfl, rfl, rfl, rfl, rfl, rfl, rfl, rfl⟩ rfl)
          rfl rfl rfl rfl rfl
  | dataWritten position result =>
      obtain ⟨write, quiet, _, rfl⟩ := step_dataWritten taken
      refine ⟨_, phase, reads.other rfl ?_ id, ?_⟩
      · rw [quiet]
        exact inputCalls_outputs _
      · have keeps := @Output.onDataWritten_keeps
          { job.output with
            dataWrites := job.output.dataWrites.eraseIdx position }
          job.pool write result
        exact roomy.keeps
          (keeps.after ⟨rfl, rfl, rfl, rfl, rfl, rfl, rfl, rfl⟩ rfl)
          rfl rfl rfl rfl rfl
  | indexWritten position result =>
      obtain ⟨write, quiet, _, rfl⟩ := step_indexWritten taken
      refine ⟨_, phase, reads.other rfl ?_ id, ?_⟩
      · rw [quiet]
        exact inputCalls_outputs _
      · have keeps := @Output.onIndexWritten_keeps
          { job.output with
            indexWrites := job.output.indexWrites.eraseIdx position }
          job.pool write result
        exact roomy.keeps
          (keeps.after ⟨rfl, rfl, rfl, rfl, rfl, rfl, rfl, rfl⟩ rfl)
          rfl rfl rfl rfl rfl

/-! ## Runs -/

/-- A task with the size of its buffers. -/
inductive Sized (env : Environment) (task : Task) (job : CompressionTask) :
    Prop
  | closed (closed : Closed env task job)
      (room : ∀ opening, job.opening = some opening →
        minSize ≤ job.pool.bufferSize ∧
          job.blockSize * 2 ≤ job.pool.bufferSize)
  | piped (core : Reader) (phase : Phase) (reads : Reads job core phase)
      (opened : job.opening = none) (roomy : Roomy task job phase.detecting)

theorem sized_start (pool : BufferPool) :
    Sized env task (start env task pool) := by
  refine .closed (closed_start pool) ?_
  intro opening waiting
  unfold start at waiting ⊢
  dsimp only at waiting ⊢
  cases outcome : (enqueue task pool).2 with
  | error reason =>
      rw [outcome] at waiting
      cases waiting
  | ok blockSize =>
      unfold enqueue at outcome ⊢
      cases first : firstBlockSize task with
      | error reason =>
          rw [first] at outcome
          cases outcome
      | ok size =>
          rw [first] at outcome
          obtain ⟨same, resized⟩ := of_resize outcome
          subst same
          simp only [create, resized]
          omega

theorem Sized.step (sized : Sized env task job) {event : TaskEvent}
    (taken : job.step env task event = some next) :
    Sized env task next := by
  cases sized with
  | closed closed room =>
      obtain ⟨⟨opening, waiting⟩, piped | ⟨again, pool, blockSize⟩⟩ :=
        closed.opens taken
      · obtain ⟨least, first⟩ := room opening waiting
        have reads := closed.pipe
        rw [← piped] at reads
        refine .piped _ _ reads ?_ ?_
        · rw [piped]
          rfl
        · have bufferSize : next.pool.bufferSize = job.pool.bufferSize := by
            rw [piped]
            exact BufferPool.alloc_bufferSize _ _
          have input : next.input.csoBlockSize = 0 := by
            rw [reads.input]
            rfl
          refine .detecting ?_ ?_ ?_ ?_
          · rw [piped]
            exact congrArg Output.blockSize closed.output
          · rwa [bufferSize]
          · rw [bufferSize, piped]
            exact first
          · rw [input]
            exact Nat.zero_le _
      · refine .closed again ?_
        intro _ _
        rw [pool, blockSize]
        exact room opening waiting
  | piped core phase reads opened roomy =>
      obtain ⟨core', phase', again, roomy'⟩ :=
        roomy.step reads opened taken
      exact .piped core' phase' again ((continues_step taken).opening opened)
        roomy'

/-- From `SetFile` on the buffers fit the blocks of the input and of the
output, unless a large image has made them smaller than the input's blocks
need. -/
theorem capacity_iff {pool : BufferPool} {events : List TaskEvent}
    (run : Execution (step env task) Always (start env task pool) events job)
    (begun : job.output.blockSize ≠ 0) :
    (job.input.csoBlockSize * 2 ≤ job.pool.bufferSize ∧
        job.output.blockSize * 2 ≤ job.pool.bufferSize) ↔
      ¬ (Resizes task job.input.size ∧
        largeBlockSize < job.input.csoBlockSize) := by
  have sized : Sized env task job :=
    run.invariant (fun _ _ _ sized _ taken => sized.step taken)
      (sized_start pool)
  cases sized with
  | closed closed =>
      refine absurd ?_ begun
      rw [closed.output]
      rfl
  | piped core phase reads opened roomy =>
      generalize phase.detecting = detecting at roomy
      cases roomy with
      | detecting unopened => exact absurd unopened begun
      | refused unopened => exact absurd unopened begun
      | stays stays output blocks =>
          exact iff_of_true ⟨blocks, output⟩ fun both => stays both.1
      | resized resizes output bufferSize =>
          rw [output, bufferSize]
          constructor
          · intro fits both
            omega
          · intro small
            have less := not_and.mp small resizes
            omega

/-- The default block size, without flags. -/
def largeTask : Task := ⟨defaultBlockSize, 0, fun _ => 0, fun _ => 0⟩

/-- A header with the largest blocks, for an image of 2 GiB. -/
def largeHeader : CsoHeader :=
  ⟨csoMagic, csoHeaderSize, 2 ^ 31, 0x40000, 1, 0, [0, 0]⟩

/-- The header, and zeros in all of the index. -/
def largeEnv : Environment :=
  { Environment.ofFile [] with
    fsRead := fun count _ length =>
      some (if count = 0 then largeHeader.encode
        else List.replicate length 0) }

/-- The whole index has been read. -/
theorem index_read (quiet : job.calls = []) {bytes : Nat}
    (waiting : job.input.inFlight = [.readIndex bytes]) {data : Bytes}
    (read : env.fsRead job.input.reads csoHeaderSize bytes = some data)
    (whole : data.length = bytes) :
    ∃ read, job.step env task (.completed 0) = some read ∧
      read.calls = [.input (.begin job.input.size), .input .readSector] ∧
      read.input.csoBlockSize = job.input.csoBlockSize ∧
      read.pool = job.pool ∧ read.blockSize = job.blockSize := by
  have completed : Input.complete env
      { job.input with inFlight := job.input.inFlight.eraseIdx 0 } job.pool
        (.readIndex bytes) =
      ⟨{ job.input with
          inFlight := job.input.inFlight.eraseIdx 0
          reads := job.input.reads + 1
          index := decodeTable 4 (FlatMemory.write env.newIndex 0 data) },
        job.pool, [.begin job.input.size, .readSector]⟩ := by
    simp only [Input.complete, Input.readRange, read, Input.onIndexRead,
      whole, ne_eq, not_true_eq_false, if_false]
  have found : job.input.inFlight[0]? = some (.readIndex bytes) := by
    rw [waiting]
    rfl
  have taken : job.step env task (.completed 0) =
      some (job.continueInput (Input.complete env
        { job.input with inFlight := job.input.inFlight.eraseIdx 0 } job.pool
          (.readIndex bytes)) []) := by
    rw [step, quiet, found]
  rw [completed] at taken
  exact ⟨_, taken, rfl, rfl, rfl, rfl⟩

/-- A file with the header is opened, its format is detected, and `begin_` is
called. -/
theorem large_reached :
    ∃ events job, Execution (step largeEnv largeTask) Always
        (start largeEnv largeTask .initial) events job ∧
      job.output.blockSize = largeBlockSize ∧
      job.pool.bufferSize = largeBlockSize * 2 ∧
      job.input.csoBlockSize = 0x40000 := by
  obtain ⟨middle, header, quiet, waiting, reads, size, blocks, pool⟩ :
      ∃ middle, Execution (step largeEnv largeTask) Always
          (start largeEnv largeTask .initial)
          [.opened true, .opened true, .completed 0] middle ∧
        middle.calls = [] ∧ middle.input.inFlight = [.readIndex 32772] ∧
        middle.input.reads = 1 ∧ middle.input.size = 2 ^ 31 ∧
        middle.input.csoBlockSize = 0x40000 ∧
        middle.pool = ⟨0x80000, 0, [], 1⟩ :=
    ⟨_, ((Execution.single trivial rfl).snoc trivial rfl).snoc trivial rfl,
      rfl, rfl, rfl, rfl, rfl, rfl⟩
  have received : largeEnv.fsRead middle.input.reads csoHeaderSize 32772 =
      some (List.replicate 32772 0) := by
    rw [reads]
    rfl
  obtain ⟨read, taken, calls, blocks', pool', _⟩ :=
    @index_read largeEnv largeTask middle quiet 32772 waiting _ received
      List.length_replicate
  have begun : read.step largeEnv largeTask .run =
      some (read.onBegin largeTask (2 ^ 31) [.input .readSector]) := by
    rw [step, calls, size]
    rfl
  have resizes : Resizes largeTask (2 ^ 31) := by
    refine ⟨rfl, rfl, ?_⟩
    decide
  have outcome : begin largeTask read.blockSize read.pool (2 ^ 31) =
      (⟨largeBlockSize * 2, 0, [], 1⟩, .ok largeBlockSize) := by
    rw [begin_resizes resizes, pool', pool]
    rfl
  refine ⟨_, _, (header.snoc trivial taken).snoc trivial begun, ?_⟩
  rw [onBegin_ok (congrArg Prod.snd outcome)]
  refine ⟨setFile_blockSize _ _ _ _ _ _ _, ?_, blocks'.trans blocks⟩
  rw [outcome]

/-- The buffers do not always fit the blocks of the input. -/
theorem capacity_not_kept :
    ¬ ∀ (env : Environment) (task : Task) (pool : BufferPool)
        (events : List TaskEvent) (job : CompressionTask),
      Execution (step env task) Always (start env task pool) events job →
        job.output.blockSize ≠ 0 →
          job.input.csoBlockSize * 2 ≤ job.pool.bufferSize ∧
            job.output.blockSize * 2 ≤ job.pool.bufferSize := by
  intro kept
  obtain ⟨events, job, run, output, bufferSize, blocks⟩ := large_reached
  have begun : job.output.blockSize ≠ 0 := by
    rw [output]
    decide
  have fits := (kept _ _ _ _ _ run begun).1
  rw [bufferSize, blocks] at fits
  exact absurd fits (by decide)

/-- A run that reaches a large image with large blocks. -/
theorem capacity_iff_large :
    ∃ events job, Execution (step largeEnv largeTask) Always
        (start largeEnv largeTask .initial) events job ∧
      ((job.input.csoBlockSize * 2 ≤ job.pool.bufferSize ∧
          job.output.blockSize * 2 ≤ job.pool.bufferSize) ↔
        ¬ (Resizes largeTask job.input.size ∧
          largeBlockSize < job.input.csoBlockSize)) := by
  obtain ⟨events, job, run, output, _, _⟩ := large_reached
  have begun : job.output.blockSize ≠ 0 := by
    rw [output]
    decide
  exact ⟨events, job, run, capacity_iff run begun⟩

end CompressionTask

end Maxcso
