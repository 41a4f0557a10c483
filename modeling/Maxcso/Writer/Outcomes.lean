import Maxcso.Task
import Maxcso.Writer.Filed

/-!
# How runs of the writer end

Runs in which everything succeeds, from the start to the end.
-/

namespace Maxcso

open RoundUp Transition

namespace Archive

variable {archive : Archive}

/-- The table of a DAX file is not cut. -/
theorem indexPasses_iff :
    archive.IndexPasses ↔
      archive.immediate = true ∨ archive.fmt = .dax ∨
        archive.entries * 4 < 2 ^ 32 := by
  unfold IndexPasses indexPassed indexTotal Output.uvBufLength
  cases archive.immediate with
  | true => simp
  | false =>
      cases archive.fmt with
      | dax => simp
      | _ =>
          simp only [true_implies, Bool.false_eq_true, reduceCtorEq,
            false_or, Nat.add_right_inj]
          omega

theorem pos_zero :
    archive.pos 0 = (roundUp archive.indexAlign archive.first : Nat) := by
  rw [pos, base_eq]
  rfl

/-- The data start after the header and the tables. -/
theorem leads
    (chosen : archive.fmt = CompressionTask.format archive.flags) :
    archive.Leads := by
  intro waits
  have compresses : archive.decompressing = false :=
    (Bool.or_eq_false_iff.mp waits).1
  rw [WriterConfig.decompressing] at compresses
  have start := le_roundUp archive.indexAlign archive.first
  have blocks : toUint32 (((archive.srcSize : Int) + archive.blockSize - 1) /
      2 ^ Nat.log2 archive.blockSize) = archive.blocks % 2 ^ 32 := by
    rw [archive.blocks_eq _ archive.blockShift, toUint32_natCast]
  have ends : archive.indexPassed ≤ archive.first := by
    rw [WriterConfig.first, Output.dstFirstSectorPos, compresses, blocks]
    unfold indexPassed entries Output.uvBufLength
    by_cases dax : archive.fmt = .dax
    · have small := blocks_of_dax dax
      have flag := CompressionTask.daxFlag_of_format (chosen.symm.trans dax)
      rw [dax, flag]
      simp only [Bool.false_eq_true, if_false, if_true]
      omega
    · have cut := Nat.mod_le
        ((archive.blocks % 2 ^ 32 + 1) % 2 ^ 32 * 4) (2 ^ 32)
      have few := Nat.mod_le (archive.blocks % 2 ^ 32 + 1) (2 ^ 32)
      have least : csoHeaderSize +
          (archive.blocks % 2 ^ 32 + 1) % 2 ^ 32 * 4 ≤
            if hasFlag archive.flags taskflagFmtDax then
              daxHeaderSize + archive.blocks % 2 ^ 32 * (4 + 2)
            else
              csoHeaderSize + (archive.blocks % 2 ^ 32 + 1) % 2 ^ 32 * 4 := by
        split
        · simp only [csoHeaderSize, daxHeaderSize]
          omega
        · exact Nat.le_refl _
      simp only [Bool.false_eq_true, if_false]
      cases fmt : archive.fmt with
      | dax => exact absurd fmt dax
      | _ => exact (Nat.add_le_add_left cut _).trans least
  rw [pos_zero]
  omega

end Archive

/-- A write of the index does not report more than it has been given. -/
def Writer.Completions.Capped (may : Writer.Completions) : Prop :=
  ∀ write result, may.indexWritten write result →
    result ≤ write.data.length

theorem Writer.Completions.capped_full : Writer.Completions.full.Capped :=
  fun _ _ given => given.le

namespace Course

variable {archive : Archive} {course : Course}

/-- What holds of a course in which everything succeeds. -/
structure Succeeding (archive : Archive) (course : Course) : Prop
    extends Faultless archive course where
  totalled : Totalled archive course
  filed : archive.noFile = false → ∃ head, Filed archive course head

theorem succeeding_start : Succeeding archive (start archive) := by
  refine ⟨faultless_start, ?_, fun _ => ⟨[], filed_start⟩⟩
  intro written member
  exact nomatch member

theorem Succeeding.move
    (admissible : archive.Admissible) (passes : archive.IndexPasses)
    (leads : archive.Leads) (sound : Sound archive course)
    (succeeding : Succeeding archive course) {next : Course}
    (move : Move archive .full course next) :
    Succeeding archive next := by
  refine ⟨succeeding.toFaultless.move admissible passes sound move,
    succeeding.totalled.move sound move, ?_⟩
  intro hasFile
  obtain ⟨head, filed⟩ := succeeding.filed hasFile
  exact filed.move hasFile leads sound move

/-- When the index is cut its write does not count as done. -/
theorem unwritten_move_of_cut
    {may : Writer.Completions} (capped : may.Capped)
    (hasFile : archive.noFile = false) (cut : ¬ archive.IndexPasses)
    (sound : Sound archive course) (unwritten : course.indexWritten = false)
    {next : Course} (move : Move archive may course next) :
    next.indexWritten = false := by
  have waits : archive.immediate = false := by
    by_contra immediate
    exact cut fun waits => absurd waits immediate
  cases move with
  | measure _ _ _ noFile => exact nomatch hasFile.symm.trans noFile
  | issue | stall =>
      rw [flushAt_eq]
      dsimp only
      split
      · exact waits
      · exact unwritten
  | @indexWritten write result _ writes enough given =>
      obtain ⟨_, _, expected, _⟩ := sound.indexed.of_writes writes
      refine absurd (fun _ => le_antisymm indexPassed_le ?_) cut
      have most := capped write result given
      rw [enough, expected.totalBytes, expected.length] at most
      exact Int.ofNat_le.mp most
  | _ => exact unwritten

end Course

namespace Writer

section

variable {archive : Archive} {writer : Writer}

/-- Nothing is running or in flight, whether or not the source still has a
sector to pass on. -/
structure Idle (writer : Writer) : Prop where
  calls : writer.calls = []
  jobs : writer.output.jobs = []
  dataWrites : writer.output.dataWrites = []
  indexWrites : writer.output.indexWrites = []
  source : writer.paused = true ∨
    writer.output.srcSize ≤ (writer.nextPos : Int)

theorem Done.idle (done : writer.Done) : writer.Idle :=
  ⟨done.calls, done.jobs, done.dataWrites, done.indexWrites, done.source⟩

/-- Every block has a place in the queue of the compressions. -/
theorem Follows.quiet {pipeline : BlockPipeline} {filled : Nat}
    (follows : Follows archive pipeline filled writer)
    (calls : writer.calls = []) (jobs : writer.output.jobs = [])
    (dataWrites : writer.output.dataWrites = [])
    (indexWrites : writer.output.indexWrites = []) :
    (writer.course pipeline filled).Quiet := by
  refine ⟨calls, dataWrites, indexWrites, ?_⟩
  intro block above below compressing
  obtain ⟨id, held⟩ := Pipeline.exists_holds above below
  have job := follows.placed.jobs.of_holds held compressing
  rw [jobs] at job
  exact nomatch job

theorem OnCourse.quiet {property : Course → Prop}
    (onCourse : OnCourse archive property writer) (idle : writer.Idle) :
    ∃ pipeline filled,
      Course.Sound archive (writer.course pipeline filled) ∧
        property (writer.course pipeline filled) ∧
        (writer.course pipeline filled).Quiet ∧
        (writer.paused = true ∨ archive.srcSize ≤ writer.nextPos) := by
  obtain ⟨pipeline, filled, follows, sound, holds⟩ := onCourse
  refine ⟨pipeline, filled, sound, holds, follows.quiet idle.calls idle.jobs
    idle.dataWrites idle.indexWrites, ?_⟩
  have size := follows.placed.srcSize
  have source := idle.source
  rw [size] at source
  exact source.imp id Int.ofNat_le.mp

theorem onCourse_succeeding
    (admissible : archive.Admissible) (passes : archive.IndexPasses)
    (leads : archive.Leads) {pool : BufferPool}
    (room : archive.blockSize ≤ pool.bufferSize)
    {events : List WriterEvent}
    (run : Run archive.toWriterConfig archive.env archive.image .full
      (start archive.env archive.toWriterConfig pool) events writer) :
    OnCourse archive (Course.Succeeding archive) writer :=
  (onCourse_start Course.succeeding_start room).run
    (fun _ _ sound before move =>
      before.move admissible passes leads sound move) run

/-- The file at the end of a run. -/
structure Finished (archive : Archive) (writer : Writer) (head : Bytes) :
    Prop where
  file : writer.file = archive.fileWith head archive.blocks
  batches : Batches archive archive.blocks (dataNotes writer.notes)
  immediate : archive.immediate = true →
    head = [] ∧ indexNotes writer.notes = []
  tables : archive.immediate = false →
    indexNotes writer.notes = [head] ∧
      ∃ write, Course.Expected archive write ∧ head = write.data

/-- The file when all of its blocks and its index have been written. -/
theorem finished_of_filed
    {pipeline : BlockPipeline} {filled : Nat} {head : Bytes}
    (filed : Course.Filed archive (writer.course pipeline filled) head)
    (first : (writer.course pipeline filled).first = archive.blocks)
    (ready : (writer.course pipeline filled).indexReady = true)
    (quiet : (writer.course pipeline filled).Quiet) :
    Finished archive writer head := by
  refine ⟨?_, ?_, ?_, ?_⟩
  · rw [← first]
    exact filed.file
  · rw [← first]
    exact filed.batches
  · intro immediate
    refine filed.unfiled fun done => ?_
    exact nomatch immediate.symm.trans done.1
  · intro waits
    exact filed.filed ⟨waits, ready, quiet.indexWrites⟩

/-- When everything has succeeded, the run ends with one report of success
and a complete file. -/
theorem OnCourse.succeeded
    (onCourse : OnCourse archive (Course.Succeeding archive) writer)
    (done : writer.Done) :
    successNotes writer.notes = [archive.pos archive.blocks] ∧
      (archive.noFile = false → ∃ head, Finished archive writer head) := by
  obtain ⟨pipeline, filled, sound, succeeding, quiet, source⟩ :=
    onCourse.quiet done.idle
  obtain ⟨first, ready, indexWritten, dataWritten⟩ :=
    succeeding.toFaultless.complete sound quiet source
  refine ⟨?_, ?_⟩
  · have counted := sound.counted.successes
    rw [quiet.calls, indexWritten, dataWritten, List.countP_nil,
      Nat.zero_add] at counted
    exact succeeding.totalled.single counted
  · intro hasFile
    obtain ⟨head, filed⟩ := succeeding.filed hasFile
    exact ⟨head, finished_of_filed filed first ready quiet⟩

/-- When the index is cut, success is never reported. -/
theorem successNotes_of_cut
    {may : Completions} (capped : may.Capped)
    (hasFile : archive.noFile = false) (cut : ¬ archive.IndexPasses)
    {pool : BufferPool} (room : archive.blockSize ≤ pool.bufferSize)
    {events : List WriterEvent}
    (run : Run archive.toWriterConfig archive.env archive.image may
      (start archive.env archive.toWriterConfig pool) events writer) :
    successNotes writer.notes = [] := by
  have initially : OnCourse archive (fun course =>
      course.indexWritten = false)
      (start archive.env archive.toWriterConfig pool) :=
    @onCourse_start archive (fun course => course.indexWritten = false) rfl
      pool room
  obtain ⟨pipeline, filled, _, sound, unwritten⟩ := initially.run
    (fun _ _ sound before move =>
      Course.unwritten_move_of_cut capped hasFile cut sound before move) run
  have counted := sound.counted.successes
  rw [unwritten, Bool.false_and, Bool.toNat_false,
    ← length_successNotes] at counted
  exact List.length_eq_zero_iff.mp (Nat.eq_zero_of_add_eq_zero_left counted)

/-- Every run can be completed. -/
theorem completes
    {may : Completions} (possible : may.Possible) {pool : BufferPool}
    (room : archive.blockSize ≤ pool.bufferSize)
    {events : List WriterEvent}
    (run : Run archive.toWriterConfig archive.env archive.image may
      (start archive.env archive.toWriterConfig pool) events writer) :
    ∃ more last, Run archive.toWriterConfig archive.env archive.image may
        writer more last ∧ last.Done := by
  have initially : OnCourse archive (fun _ => True)
      (start archive.env archive.toWriterConfig pool) :=
    onCourse_start trivial room
  exact (initially.run (fun _ _ _ _ _ => trivial) run).completes
    (fun _ _ _ _ _ => trivial) possible

end

end Writer

end Maxcso
