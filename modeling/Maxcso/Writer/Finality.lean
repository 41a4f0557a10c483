import Maxcso.Writer.Measuring
import Maxcso.Writer.Recovering

/-!
# Failures are final

Once the writer has reported a failure it reports no success, and after a
data write that was not done in full it writes no data.
-/

namespace Maxcso

open Transition

namespace Output

/-- `SetFile` refuses at most once, and leaves nothing outstanding. -/
theorem setFile_quiet
    (output : Output) (noFile : Bool) (srcSize : Int) (blockSize : Nat)
    (fmt : CsoFormat) (origMaxCost lz4MaxCost : Nat) :
    let result := output.setFile noFile srcSize blockSize fmt origMaxCost
      lz4MaxCost
    result.1.jobs = output.jobs ∧
      result.1.dataWrites = output.dataWrites ∧
      result.1.indexWrites = output.indexWrites ∧
      (result.2 = [] ∨ ∃ reason, result.2 = [.finish false reason]) := by
  dsimp only
  unfold setFile
  dsimp only
  repeat' split
  all_goals first
    | exact ⟨rfl, rfl, rfl, Or.inl rfl⟩
    | exact ⟨rfl, rfl, rfl, Or.inr ⟨_, rfl⟩⟩

theorem onDataWritten_short
    (output : Output) (pool : BufferPool) {write : DataWrite} {result : Int}
    (short : result ≠ write.totalWrite) :
    (output.onDataWritten pool write result).calls =
      [.finish false "Data could not be written to output file"] := by
  unfold onDataWritten handleWrittenSectors
  simp [short]

end Output

namespace WriterConfig

variable (config : WriterConfig) (env : Environment)

/-- The format and the bytes that are kept for a block of an image. -/
def kept (image : Bytes) (block : Nat) : SectorFormat × Bytes :=
  let content := FileBytes.pread
    (image ++ List.replicate config.blockSize 0)
    (block * config.blockSize) config.blockSize
  if config.decompressing then
    (.orig, content)
  else
    config.template.result env (block * config.blockSize : Nat) content

/-- The frames of a DAX file whose frames are all accepted are kept in less
than 65536 bytes. -/
def FramesFit (image : Bytes) : Prop :=
  config.decompressing = false → config.fmt = .dax →
    (∀ block < config.blocks,
      Output.refusal config.fmt (config.kept env image block).1 = none) →
      ∀ block < config.blocks,
        (config.kept env image block).2.length < 2 ^ 16

end WriterConfig

namespace Archive

variable {archive : Archive}

/-- The entries of a DAX file are the positions of its frames. -/
theorem entry_dax (dax : archive.fmt = .dax) (block : Nat) :
    archive.entry block = toUint32 (archive.pos block) := by
  have shift := (WriterConfig.accepted_iff.mp archive.accepted dax).1
  unfold entry Output.indexWord
  rw [shift, dax]
  split
  · exact congrArg toUint32 (Int.ediv_one _)
  · exact congrArg toUint32 (Int.ediv_one _)

/-- Frames follow each other without padding. -/
theorem pos_succ_dax (dax : archive.fmt = .dax) (block : Nat) :
    archive.pos (block + 1) = archive.pos block + archive.written block := by
  have shift := (WriterConfig.accepted_iff.mp archive.accepted dax).1
  refine archive.pos_succ_of_align ?_ block
  rw [WriterConfig.indexAlign, shift, Nat.pow_zero]

/-- The stored size of a frame is that of what is kept for it. -/
theorem frameLength_dax (dax : archive.fmt = .dax)
    (compresses : archive.decompressing = false) (frame : Nat) :
    archive.indexed.daxFrameLength frame = archive.size frame % 2 ^ 32 := by
  have next := pos_succ_dax dax frame
  rw [written_compressed compresses] at next
  have index : archive.indexed.index = archive.entry := rfl
  rw [Output.daxFrameLength, index, entry_dax dax, entry_dax dax, next]
  unfold toUint32
  omega

/-- Every block is kept in a format of the container. -/
def Vetted (archive : Archive) : Prop :=
  ∀ block < archive.blocks,
    Output.refusal archive.fmt (archive.stored block).1 = none

/-- Frames that fit are not reported. -/
theorem report_of_fits (fits : archive.FramesFit archive.env archive.image)
    (vetted : archive.Vetted) :
    archive.report = [] := by
  unfold report
  split
  · rename_i daxFile
    obtain ⟨compresses, dax⟩ := daxFile
    have none : archive.oversized = [] := by
      rw [oversized, List.map_eq_nil_iff, List.filter_eq_nil_iff]
      intro frame member
      have short : archive.size frame < 2 ^ 16 :=
        fits compresses dax vetted frame (List.mem_range.mp member)
      rw [frameLength_dax dax compresses, decide_eq_true_eq]
      omega
    rw [none]
    rfl
  · rfl

/-- Frames that are too long are reported. -/
theorem report_of_long
    (compresses : archive.decompressing = false) (dax : archive.fmt = .dax)
    {frame : Nat} (inside : frame < archive.blocks)
    (long : 2 ^ 16 ≤ archive.size frame % 2 ^ 32) :
    archive.report ≠ [] := by
  rw [report, if_pos ⟨compresses, dax⟩]
  have member : frame ∈ (List.range archive.blocks).filter fun frame =>
      2 ^ 16 ≤ archive.indexed.daxFrameLength frame := by
    rw [List.mem_filter, frameLength_dax dax compresses]
    exact ⟨List.mem_range.mpr inside, decide_eq_true long⟩
  unfold oversized
  exact List.ne_nil_of_mem
    (List.mem_map_of_mem (List.mem_map_of_mem member))

end Archive

/-! ## What is flushed has been accepted -/

namespace Course

variable {archive : Archive} {may : Writer.Completions} {course : Course}

/-- What is being written, or has been, was accepted by `UpdateIndex`. -/
structure Approved (archive : Archive) (course : Course) : Prop where
  accepted : ∀ block, block < course.first ∨
    course.pipeline.stage block = .writing →
      Output.refusal archive.fmt (archive.stored block).1 = none
  ready : course.indexReady = true → archive.Vetted

theorem approved_start : Approved archive (start archive) := by
  refine ⟨?_, nofun⟩
  rintro block (below | writing)
  · exact absurd below (Nat.not_lt_zero block)
  · exact nomatch writing

/-- The blocks of a batch that is not refused are accepted. -/
theorem Approved.batch
    (approved : Approved archive course) {count : Nat}
    (accepted : archive.failure course.first count = none) {block : Nat}
    (below : block < course.first + count) :
    Output.refusal archive.fmt (archive.stored block).1 = none := by
  by_cases before : block < course.first
  · exact approved.accepted block (Or.inl before)
  · refine List.findSome?_eq_none_iff.mp accepted block ?_
    exact List.mem_range'_1.mpr ⟨Nat.not_lt.mp before, below⟩

/-- Other stages than that of being written are not looked at. -/
theorem Approved.setStage
    (approved : Approved archive course) {changed : Nat} {stage : BlockStage}
    (other : stage ≠ .writing) (block : Nat)
    (writing : block < course.first ∨
      (course.pipeline.setStage changed stage).stage block = .writing) :
    Output.refusal archive.fmt (archive.stored block).1 = none := by
  refine approved.accepted block (writing.imp_right fun writing => ?_)
  by_cases same : block = changed
  · rw [same, Pipeline.setStage_stage_self] at writing
    exact absurd writing other
  · rwa [Pipeline.setStage_stage_of_ne same] at writing

theorem Approved.mark
    (approved : Approved archive course) {count : Nat} {stage : BlockStage}
    (fine : stage = .writing → archive.failure course.first count = none)
    (block : Nat)
    (writing : block < course.first ∨
      (course.pipeline.mark count stage).stage block = .writing) :
    Output.refusal archive.fmt (archive.stored block).1 = none := by
  rcases writing with before | writing
  · exact approved.accepted block (Or.inl before)
  · by_cases inside : block < course.first + count
    · rw [Pipeline.mark_stage_of_lt inside] at writing
      exact approved.batch (fine writing) inside
    · rw [Pipeline.mark_stage_of_le (Nat.not_lt.mp inside)] at writing
      exact approved.accepted block (Or.inr writing)

theorem Approved.fill
    (approved : Approved archive course) (filled : Filled archive course)
    (id : SectorId) (block : Nat)
    (writing : block < course.first ∨
      (course.fill archive id).pipeline.stage block = .writing) :
    Output.refusal archive.fmt (archive.stored block).1 = none := by
  refine approved.accepted block (writing.imp_right fun writing => ?_)
  by_cases newest : block = course.block archive
  · subst newest
    rw [fill_stage_self] at writing
    unfold Archive.stageAt at writing
    split at writing
    · exact nomatch writing
    · split at writing
      · exact nomatch writing
      · exact nomatch writing
  · rwa [filled.fill_stage_of_ne id newest] at writing

/-- `Flush` comes when all blocks have been gathered. -/
theorem Approved.flushAt
    {next : Course} {count : Nat}
    (accepted : archive.failure course.first count = none)
    (approved : Approved archive course)
    (same : next.indexReady = course.indexReady)
    (stages : ∀ block, block < next.first ∨
      next.pipeline.stage block = .writing →
        Output.refusal archive.fmt (archive.stored block).1 = none)
    (write : IndexWrite) :
    Approved archive
      (next.flushAt archive write (course.first + count)) := by
  refine ⟨?_, ?_⟩
  · rw [flushAt_first, flushAt_pipeline]
    exact stages
  · rw [flushAt_eq]
    dsimp only
    split
    · rename_i all
      intro _ block inside
      exact approved.batch accepted (inside.trans_le all)
    · rw [same]
      exact approved.ready

theorem Approved.move
    (sound : Sound archive course) (approved : Approved archive course)
    {next : Course} (move : Move archive may course next) :
    Approved archive next := by
  have retired : ∀ {count : Nat}, (∀ block, course.first ≤ block →
      block < course.first + count →
        course.pipeline.stage block = .writing) →
      ∀ block, block < course.first + count ∨
        course.pipeline.stage block = .writing →
          Output.refusal archive.fmt (archive.stored block).1 = none := by
    intro count writing block reached
    by_cases before : block < course.first
    · exact approved.accepted block (Or.inl before)
    · refine approved.accepted block (Or.inr ?_)
      exact reached.elim (writing block (Nat.not_lt.mp before)) id
  cases move with
  | @arrive id =>
      refine ⟨fun block reached => ?_, approved.ready⟩
      refine approved.fill sound.fed.toFilled id block ?_
      exact reached.imp_left fun below => below.trans_eq (fill_first id)
  | @pad id =>
      refine ⟨fun block reached => ?_, approved.ready⟩
      refine approved.fill sound.fed.toFilled id block ?_
      exact reached.imp_left fun below => below.trans_eq (fill_first id)
  | compressed | compressFailed | queue =>
      exact ⟨approved.setStage nofun, approved.ready⟩
  | refuse => exact ⟨approved.mark nofun, approved.ready⟩
  | stall _ _ accepted =>
      refine approved.flushAt accepted ?_ ?_ _
      · rfl
      · exact approved.mark nofun
  | issue _ _ accepted =>
      refine approved.flushAt accepted ?_ ?_ _
      · rfl
      · exact approved.mark fun _ => accepted
  | measure _ _ accepted =>
      refine approved.flushAt accepted ?_ ?_ _
      · rfl
      · intro block reached
        rcases reached with below | writing
        · exact approved.batch accepted below
        · exact approved.accepted block (Or.inr writing)
  | dataWritten _ _ _ _ writing | dataFailed _ _ _ _ writing =>
      exact ⟨retired writing, approved.ready⟩
  | _ => exact ⟨approved.accepted, approved.ready⟩

end Course

/-! ## A write that was not done in full -/

namespace Course

variable {archive : Archive} {may : Writer.Completions} {course : Course}
variable {source dest : Int}

/-- The data have stopped, at a block that has left the pipeline. -/
structure Halted (archive : Archive) (source dest : Int)
    (course : Course) : Prop where
  writes : course.dataWrites = []
  srcPos : course.srcPos = source
  dstPos : course.dstPos = dest
  behind : ∃ block, source = (block * archive.blockSize : Nat) ∧
    block < course.first

/-- Where the data have stopped there is no batch. -/
theorem Halted.not_batch
    (halted : Halted archive source dest course) (count : Nat) :
    ¬ course.Batch archive count := by
  intro batch
  obtain ⟨block, place, before⟩ := halted.behind
  have here := batch.srcPos
  rw [halted.srcPos, place] at here
  have same := mul_blockSize_inj here
  omega

theorem Halted.move
    (sound : Sound archive course)
    (halted : Halted archive source dest course) {next : Course}
    (move : Move archive may course next) :
    Halted archive source dest next := by
  obtain ⟨block, place, before⟩ := halted.behind
  obtain ⟨later, same⟩ := srcPos_move sound.front move
  have kept : next.srcPos = course.srcPos ∧ next.dstPos = course.dstPos := by
    rcases same with kept | first
    · exact kept
    · rw [halted.srcPos, place] at first
      have here := mul_blockSize_inj first
      omega
  refine ⟨?_, kept.1.trans halted.srcPos, kept.2.trans halted.dstPos,
    block, place, before.trans_le later⟩
  have none := halted.writes
  cases move with
  | issue turn batch => exact absurd batch (halted.not_batch _)
  | stall turn batch => exact absurd batch (halted.not_batch _)
  | measure turn batch => exact absurd batch (halted.not_batch _)
  | dataWritten | dataFailed => rfl
  | _ => exact none

/-- The call that reports a data write. -/
abbrev dataFailure : WriterCall :=
  .output (.finish false "Data could not be written to output file")

/-- The report of a data write comes when the data stop. -/
theorem halted_of_failure
    (front : Front archive course) (quiet : course.calls = [])
    {next : Course} (move : Move archive may course next)
    (failed : next.calls = [dataFailure]) :
    Halted archive course.srcPos course.dstPos next := by
  have busy : ∀ {call : WriterCall} {rest : List WriterCall},
      course.calls ≠ call :: rest := by
    intro call rest calls
    exact nomatch quiet.symm.trans calls
  cases move with
  | fetch => exact nomatch quiet.symm.trans failed
  | @arrive id =>
      have checks : .checkQueue ∈ (course.arrive archive id).calls := by
        unfold arrive
        rw [fill_calls]
        split <;> simp
      rw [failed] at checks
      simp at checks
  | compressed | dataWritten => exact nomatch failed
  | compressFailed | indexFailed => simp [dataFailure] at failed
  | indexWritten =>
      have last : dataFailure ∈ finishCalls course.dataWritten :=
        List.mem_of_mem_head? (congrArg List.head? failed)
      exact nomatch isFailure_finishCalls last
  | dataFailed _ writes positive live =>
      exact ⟨rfl, rfl, rfl, course.first,
        (front.of_writes positive live writes).1,
        Nat.lt_add_of_pos_right positive⟩
  | pad calls | padEnd calls | queue calls | idle calls | complete calls
  | progress calls | finish calls | checkQueue calls =>
      exact absurd calls busy
  | refuse turn | measure turn | issue turn | stall turn =>
      obtain ⟨_, calls, _⟩ := turn.calls
      exact absurd calls busy

end Course

namespace Writer

section

variable {archive : Archive} {writer next : Writer}

/-- What is reported dooms the course. -/
structure Honest (archive : Archive) (course : Course) : Prop
    extends Course.Approved archive course where
  doomed : course.Reported → Course.Doomed archive course

theorem honest_start : Honest archive (Course.start archive) := by
  refine ⟨Course.approved_start, ?_⟩
  rintro (⟨reason, member⟩ | ⟨reason, written, member⟩)
  · exact nomatch member
  · exact nomatch member

theorem Honest.move
    {may : Completions} {course course' : Course}
    (fits : archive.FramesFit archive.env archive.image)
    (sound : Course.Sound archive course) (honest : Honest archive course)
    (move : Course.Move archive may course course') :
    Honest archive course' := by
  have approved := honest.toApproved.move sound move
  refine ⟨approved, fun reported => ?_⟩
  rcases Course.reported_move sound move reported with
    earlier | doomed | ⟨told, ready⟩
  · exact (honest.doomed earlier).move sound move
  · exact doomed
  · exact absurd (archive.report_of_fits fits (approved.ready ready)) told

/-- No success is noted beside a failure. -/
theorem OnCourse.not_both
    (onCourse : OnCourse archive (Honest archive) writer)
    {reason reason' : String} {written written' : Int}
    (failed : .finished false reason written ∈ writer.notes) :
    .finished true reason' written' ∉ writer.notes := by
  obtain ⟨pipeline, filled, _, sound, honest⟩ := onCourse
  have doomed := honest.doomed (Or.inr ⟨reason, written, failed⟩)
  have counted := sound.counted.successes
  rw [doomed.not_done sound, Bool.toNat_false] at counted
  have none := List.countP_eq_zero.mp
    (Nat.eq_zero_of_add_eq_zero_left counted)
  intro succeeded
  exact none _ succeeded rfl

/-- The step of a data write that was not done in full leaves its report to
be made. -/
theorem calls_of_failed
    {env : Environment} {position : Nat} {result : Int} {write : DataWrite}
    (found : writer.output.dataWrites[position]? = some write)
    (short : result ≠ write.totalWrite)
    (taken : writer.step env (.dataWritten position result) = some next) :
    writer.calls = [] ∧ next.calls = [Course.dataFailure] := by
  unfold step at taken
  dsimp only at taken
  rw [found] at taken
  split at taken
  · rename_i quiet same
    obtain rfl := Option.some.inj same
    obtain rfl := Option.some.inj taken
    refine ⟨quiet, ?_⟩
    dsimp only [continueWith]
    rw [Output.onDataWritten_short _ _ short]
    rfl
  · exact nomatch taken

/-- A data write that was not done in full stops the data. -/
theorem OnCourse.halts
    {may : Completions} {property : Course → Prop}
    (onCourse : OnCourse archive property writer)
    {position : Nat} {result : Int} {write : DataWrite}
    (found : writer.output.dataWrites[position]? = some write)
    (short : result ≠ write.totalWrite)
    (given : may.dataWritten write result)
    (taken : writer.step archive.env (.dataWritten position result) =
      some next) :
    OnCourse archive
      (Course.Halted archive writer.output.srcPos writer.output.dstPos)
      next := by
  obtain ⟨pipeline, filled, follows, sound, _⟩ := onCourse
  obtain ⟨quiet, failed⟩ := calls_of_failed found short taken
  have allowed : Allowed archive.toWriterConfig archive.image may writer
      (.dataWritten position result) := by
    intro other same
    rw [found] at same
    exact Option.some.inj same ▸ given
  obtain ⟨pipeline', filled', move, follows'⟩ :=
    follows.step sound allowed taken nofun
  exact ⟨pipeline', filled', follows', sound.move move,
    Course.halted_of_failure sound.front quiet move failed⟩

/-- Whatever completions may have as results, anything may fail. -/
theorem Allowed.any
    {config : WriterConfig} {image : Bytes} {may : Completions}
    {event : WriterEvent} (allowed : Allowed config image may writer event) :
    Allowed config image .any writer event := by
  cases event with
  | compressed => trivial
  | dataWritten | indexWritten => exact fun _ _ => trivial
  | _ => exact allowed

/-! ## A refused `SetFile` -/

/-- The writer that could not be set up only reports that. -/
structure Refused (writer : Writer) : Prop where
  jobs : writer.output.jobs = []
  dataWrites : writer.output.dataWrites = []
  indexWrites : writer.output.indexWrites = []
  fetching : writer.fetching = false
  reports : (∃ reason, writer.calls = [.output (.finish false reason)]) ∨
    (writer.calls = [] ∧ writer.paused = true)
  notes : ∀ note ∈ writer.notes, Course.isSuccessNote note = false

theorem refused_start
    {config : WriterConfig} {env : Environment} (pool : BufferPool)
    (refuses : ¬ config.Accepted env) :
    (start env config pool).Refused := by
  obtain ⟨jobs, dataWrites, indexWrites, results⟩ :=
    Output.setFile_quiet (Output.create env config.flags) config.noFile
      config.srcSize config.blockSize config.fmt config.origMaxCost
      config.lz4MaxCost
  rcases results with none | ⟨reason, told⟩
  · exact absurd none refuses
  · refine ⟨jobs, dataWrites, indexWrites, rfl, Or.inl ⟨reason, ?_⟩, nofun⟩
    show (config.opened env).2.map WriterCall.output = _
    exact congrArg (List.map WriterCall.output) told

theorem Refused.step
    {env : Environment} (refused : writer.Refused) {event : WriterEvent}
    (taken : writer.step env event = some next) :
    next.Refused := by
  have jobs := refused.jobs
  have dataWrites := refused.dataWrites
  have indexWrites := refused.indexWrites
  unfold Writer.step at taken
  cases event with
  | fetch =>
      dsimp only at taken
      split at taken
      · rename_i able
        rcases refused.reports with ⟨reason, calls⟩ | ⟨_, paused⟩
        · rw [calls] at able
          exact nomatch able.2.2.1
        · exact nomatch paused.symm.trans able.2.1
      · exact nomatch taken
  | enqueue buffer =>
      dsimp only at taken
      rw [refused.fetching, if_neg (fun able => nomatch able.1)] at taken
      exact nomatch taken
  | run =>
      rcases refused.reports with ⟨reason, calls⟩ | ⟨calls, _⟩
      · rw [calls] at taken
        obtain rfl := Option.some.inj taken
        refine ⟨jobs, dataWrites, indexWrites, refused.fetching,
          Or.inr ⟨rfl, Bool.or_true _⟩, ?_⟩
        intro note member
        rcases List.mem_append.mp member with earlier | last
        · exact refused.notes note earlier
        · rw [List.mem_singleton.mp last]
          rfl
      · rw [calls] at taken
        exact nomatch taken
  | compressed position =>
      simp [jobs] at taken
  | dataWritten position =>
      simp [dataWrites] at taken
  | indexWritten position =>
      simp [indexWrites] at taken
  | otherPool pool =>
      obtain rfl := Option.some.inj taken
      exact ⟨jobs, dataWrites, indexWrites, refused.fetching,
        refused.reports, refused.notes⟩

/-! ## Failures are final -/

/-- After a report of failure there is none of success. -/
def NeverRecovers (writer : Writer) : Prop :=
  ∀ before after reason written,
    writer.notes = before ++ .finished false reason written :: after →
      ∀ note ∈ after, Course.isSuccessNote note = false

/-- When a data write that was not done in full completes, no data are
written from then on and the positions stay, while the compressions in flight
can still complete. -/
def StopsAtFailure (config : WriterConfig) (env : Environment)
    (image : Bytes) (writer : Writer) : Prop :=
  ∀ position result write next,
    writer.output.dataWrites[position]? = some write →
      result ≠ write.totalWrite →
      writer.step env (.dataWritten position result) = some next →
        (∀ events last,
          Run config env image .any next events last →
            last.output.dataWrites = [] ∧
              last.output.srcPos = writer.output.srcPos ∧
              last.output.dstPos = writer.output.dstPos) ∧
        ∀ status, ∃ events last,
          Run config env image .any next events last ∧
            (∀ event ∈ events,
              event = .run ∨ event = .compressed 0 status) ∧
            last.calls = [] ∧ last.output.jobs = []

end

/-- Whatever the compressors return and whichever of the completions fail, no
data are written after a failed write, and no success is reported after a
failure if the frames of a DAX file that `SetFile` accepts fit. -/
theorem failure_is_final
    {config : WriterConfig} {env : Environment} {image : Bytes}
    (length : image.length = config.sourceSize) {pool : BufferPool}
    (room : config.blockSize ≤ pool.bufferSize)
    {events : List WriterEvent} {writer : Writer}
    (run : Run config env image .any (start env config pool) events
      writer) :
    ((config.Accepted env → config.FramesFit env image) →
        writer.NeverRecovers) ∧
      writer.StopsAtFailure config env image := by
  by_cases accepted : config.Accepted env
  · let archive : Archive := ⟨config, env, image, length, accepted⟩
    refine ⟨?_, ?_⟩
    · intro fits before after reason written notes note member
      have onCourse : OnCourse archive (Honest archive) writer :=
        (onCourse_start honest_start room).run
          (fun _ _ sound honest move => honest.move (fits accepted) sound move)
          run
      have failed : .finished false reason written ∈ writer.notes := by
        rw [notes]
        exact List.mem_append_right _ List.mem_cons_self
      cases note with
      | finished success reason' written' =>
          cases success with
          | false => rfl
          | true =>
              have succeeded :
                  .finished true reason' written' ∈ writer.notes := by
                rw [notes]
                exact List.mem_append_right _
                  (List.mem_cons_of_mem _ member)
              exact absurd succeeded (onCourse.not_both failed)
      | _ => rfl
    · intro position result write next found short taken
      have onCourse : OnCourse archive (fun _ => True) writer :=
        (onCourse_start trivial room).run (fun _ _ _ _ _ => trivial) run
      have halts : OnCourse archive
          (Course.Halted archive writer.output.srcPos writer.output.dstPos)
          next :=
        @OnCourse.halts archive writer next .any _ onCourse position result
          write found short trivial taken
      have stays : ∀ course next, Course.Sound archive course →
          Course.Halted archive writer.output.srcPos writer.output.dstPos
            course →
            Course.Move archive .any course next →
              Course.Halted archive writer.output.srcPos
                writer.output.dstPos next :=
        fun _ _ sound halted move => halted.move sound move
      refine ⟨fun events last further => ?_, fun status => ?_⟩
      · obtain ⟨_, _, _, _, halted⟩ := halts.run stays further
        exact ⟨halted.writes, halted.srcPos, halted.dstPos⟩
      · exact halts.drains stays trivial
  · have refused : writer.Refused :=
      run.invariant (fun _ _ _ before _ taken => before.step taken)
        (refused_start pool accepted)
    refine ⟨?_, ?_⟩
    · intro _ before after reason written notes note member
      refine refused.notes note ?_
      rw [notes]
      exact List.mem_append_right _ (List.mem_cons_of_mem _ member)
    · intro position result write next found
      rw [refused.dataWrites] at found
      exact nomatch found

/-! ## A write that is cut short -/

/-- Five sectors in three blocks. -/
def fiveSectorConfig : WriterConfig where
  flags := 0
  noFile := false
  fmt := .cso1
  srcSize := 10240
  shift := 12
  origMaxCost := 0
  lz4MaxCost := 0
  shiftBounds := WriterConfig.middling_shiftBounds
  nonempty := by decide
  aligned := Or.inl (by decide)

/-- The first and the last block can be compressed. -/
def fiveSectorEnv : Environment :=
  { Environment.ofFile [] with
    trials := fun pos _ =>
      if pos % 8192 = 0 then [⟨zeroBlockStream, .deflate⟩] else [] }

def fiveSectorImage : Bytes := List.replicate 10240 0

/-- The sectors are passed on, and the first two blocks are compressed, the
second one first. -/
def fiveSectorEvents : List WriterEvent :=
  (List.replicate 5
      [.fetch, .enqueue ⟨0, 16384, fun _ => 0⟩, .run]).flatten ++
    [.run, .run, .compressed 1 0, .run, .compressed 0 0, .run]

/-- Five bytes of the two blocks are written, and the last block is
compressed. -/
def cutShortEvents : List WriterEvent :=
  [.dataWritten 0 5, .run, .compressed 0 0, .run]

def sectorCheck (writer : Writer) : WriterEvent → Bool
  | .enqueue buffer =>
      decide (FlatMemory.read buffer.memory 0 sectorSize =
        FileBytes.pread fiveSectorImage writer.nextPos sectorSize)
  | .otherPool _ => false
  | _ => true

theorem allowed_of_sectorCheck
    (writer : Writer) (event : WriterEvent)
    (checked : writer.sectorCheck event = true) :
    Allowed fiveSectorConfig fiveSectorImage .any writer event := by
  cases event with
  | enqueue buffer =>
      simp only [sectorCheck, decide_eq_true_eq] at checked
      exact checked
  | otherPool pool => cases checked
  | dataWritten | indexWritten => exact fun _ _ => trivial
  | _ => trivial

theorem fiveSectors_reached :
    ∃ writer last,
      runEvents (guarded sectorCheck (Writer.step fiveSectorEnv))
          (start fiveSectorEnv fiveSectorConfig ⟨16384, 0, [], 0⟩)
          fiveSectorEvents = some writer ∧
        runEvents (guarded sectorCheck (Writer.step fiveSectorEnv)) writer
          cutShortEvents = some last ∧
        (writer.output.dataWrites.map DataWrite.totalWrite = [4116] ∧
          writer.output.jobs.length = 1) ∧
        last.notes = [.wroteData 40 (zeroBlockStream.take 5),
          .finished false "Data could not be written to output file" 40] := by
  have reached :
      (runEvents (guarded sectorCheck (Writer.step fiveSectorEnv))
        (start fiveSectorEnv fiveSectorConfig ⟨16384, 0, [], 0⟩)
        fiveSectorEvents).any (fun writer =>
          (writer.output.dataWrites.map DataWrite.totalWrite = [4116] ∧
            writer.output.jobs.length = 1) ∧
          (runEvents (guarded sectorCheck (Writer.step fiveSectorEnv)) writer
            cutShortEvents).any (fun last =>
              last.notes = [.wroteData 40 (zeroBlockStream.take 5),
                .finished false "Data could not be written to output file"
                  40]) = true) = true := by
    decide +kernel
  obtain ⟨writer, ran, found⟩ := (Option.any_eq_true _ _).mp reached
  obtain ⟨waiting, continued⟩ := of_decide_eq_true found
  obtain ⟨last, ran', notes⟩ := (Option.any_eq_true _ _).mp continued
  exact ⟨writer, last, ran, ran', waiting, of_decide_eq_true notes⟩

theorem failure_is_final_fiveSectors :
    ∃ writer last,
      Run fiveSectorConfig fiveSectorEnv fiveSectorImage .any
          (start fiveSectorEnv fiveSectorConfig ⟨16384, 0, [], 0⟩)
          fiveSectorEvents writer ∧
        Run fiveSectorConfig fiveSectorEnv fiveSectorImage .any writer
          cutShortEvents last ∧
        writer.output.dataWrites.map DataWrite.totalWrite = [4116] ∧
        writer.output.jobs.length = 1 ∧
        writer.StopsAtFailure fiveSectorConfig fiveSectorEnv
          fiveSectorImage ∧
        last.notes = [.wroteData 40 (zeroBlockStream.take 5),
          .finished false "Data could not be written to output file" 40] ∧
        last.NeverRecovers := by
  obtain ⟨writer, last, ran, ran', ⟨waiting, compressing⟩, notes⟩ :=
    fiveSectors_reached
  have run := Execution.of_runEvents allowed_of_sectorCheck ran
  have run' := Execution.of_runEvents allowed_of_sectorCheck ran'
  have length : fiveSectorImage.length = fiveSectorConfig.sourceSize :=
    List.length_replicate
  have room : fiveSectorConfig.blockSize ≤ 16384 := by decide
  refine ⟨writer, last, run, run', waiting, compressing,
    (failure_is_final length room run).2, notes,
    (failure_is_final length room (run.append run')).1 ?_⟩
  intro _ _ dax
  cases dax

section

variable (data : Bytes)

/-- One frame, for which the compressor returns the data. -/
def frameArchive : Archive where
  flags := taskflagFmtDax
  noFile := false
  fmt := .dax
  srcSize := daxFrameSize
  shift := 13
  origMaxCost := 0
  lz4MaxCost := 0
  shiftBounds := by decide
  nonempty := by decide
  aligned := Or.inl (by decide)
  env := { Environment.ofFile [] with trials := fun _ _ => [⟨data, .deflate⟩] }
  image := List.replicate daxFrameSize 0
  length := List.length_replicate ..
  accepted := by
    unfold WriterConfig.Accepted
    rw [WriterConfig.opened_snd]
    rfl

theorem frameArchive_stored (block : Nat) :
    (frameArchive data).stored block = (.deflate, data) := by
  have compresses : (frameArchive data).decompressing = false :=
    (by decide : hasFlag taskflagFmtDax taskflagDecompress = false)
  have dax : hasFlag taskflagFmtDax taskflagFmtDax = true := by decide
  rw [Archive.stored, compresses, if_neg Bool.false_ne_true,
    Sector.result, Sector.bestOf]
  have trials : ∀ (pos : Int) (content : Bytes),
      (frameArchive data).env.trials pos content = [⟨data, .deflate⟩] :=
    fun _ _ => rfl
  have flags : (frameArchive data).template.flags = taskflagFmtDax := rfl
  simp [trials, Sector.submit, Sector.better, Sector.finalize, flags, dax]

theorem frameArchive_size (block : Nat) :
    (frameArchive data).size block = data.length := by
  rw [Archive.size, frameArchive_stored]

end

/-- The compressor returns 64 KiB for a frame, which buffers for blocks of 256
KiB have room for.  The failure that `WriteDAXIndex` reports is followed by
success. -/
theorem long_frame_recovers :
    let archive := frameArchive (List.replicate (2 ^ 16) 0)
    let pool : BufferPool := ⟨2 ^ 19, 0, [], 0⟩
    archive.size 0 ≤ pool.bufferSize ∧
      ∃ events writer,
        Run archive.toWriterConfig archive.env archive.image .any
            (start archive.env archive.toWriterConfig pool) events writer ∧
          ¬ writer.NeverRecovers := by
  intro archive pool
  have stored := frameArchive_stored (List.replicate (2 ^ 16) 0)
  have size : archive.size 0 = 2 ^ 16 :=
    (frameArchive_size _ 0).trans List.length_replicate
  have room : archive.blockSize ≤ pool.bufferSize :=
    Nat.pow_le_pow_right (by decide) (by decide)
  have admissible : archive.Admissible := by
    refine ⟨fun block _ => ?_, fun block _ => ?_⟩
    · rw [stored]
      rfl
    · rw [stored]
      exact List.ne_nil_of_length_pos
        (List.length_replicate.symm ▸ Nat.two_pow_pos 16)
  have passes : archive.IndexPasses :=
    Archive.indexPasses_iff.mpr (Or.inr (Or.inl rfl))
  have fails : archive.report ≠ [] := by
    refine @Archive.report_of_long archive (by decide) rfl 0
      archive.blocks_pos ?_
    rw [size]
    decide
  refine ⟨by rw [size]; decide, ?_⟩
  obtain ⟨events, writer, run, done⟩ :=
    @completes archive _ .full Completions.possible_full pool room _
      (.nil _)
  obtain ⟨⟨before, after, reason, written, notes, none⟩, succeeded⟩ :=
    fails_first admissible
      (by decide : CsoFormat.dax = CompressionTask.format taskflagFmtDax)
      passes fails room run done
  refine ⟨events, writer, run.weaken fun _ _ => Allowed.any, ?_⟩
  intro never
  obtain ⟨note, member, success⟩ := List.countP_pos_iff.mp succeeded
  rw [notes] at member
  rcases List.mem_append.mp member with early | late
  · exact nomatch (none note early).symm.trans success
  · rcases List.mem_cons.mp late with rfl | later
    · exact nomatch success
    · have failed := never before after reason written notes note later
      exact nomatch failed.symm.trans success

end Writer

end Maxcso
