import Maxcso.Cli.Admissible
import Maxcso.Writer.Finality
import Maxcso.Writer.Measuring

/-!
# Decompressing

With `--decompress` the output is the image, whatever else was asked for,
unless that was a DAX file.
-/

namespace Maxcso

open FileBytes RoundUp Transition

namespace Archive

variable {archive : Archive}

/-- What is written for a decompressed block is its part of the image. -/
theorem chunk_decompressed
    (decompresses : archive.decompressing = true)
    (whole : archive.image.length = archive.srcSize) {block : Nat}
    (inside : block < archive.blocks) :
    archive.chunk block =
      pread archive.image (block * archive.blockSize)
        (min archive.blockSize
          (archive.srcSize - block * archive.blockSize)) := by
  have align : archive.indexAlign = 1 := by
    rw [WriterConfig.indexAlign, WriterConfig.indexShift, decompresses]
    rfl
  have written := (written_decompressed decompresses inside).2
  have next := pos_succ_of_align align block
  have none : (archive.pos (block + 1) -
      (archive.pos block + archive.written block)).toNat = 0 := by
    omega
  have total := archive.srcSize_bounds
  have size : (block + 1) * archive.blockSize ≤
      archive.blocks * archive.blockSize :=
    Nat.mul_le_mul_right _ inside
  rw [Nat.add_mul, Nat.one_mul] at size
  rw [chunk, none, List.replicate_zero, List.append_nil,
    stored_decompressed decompresses, written]
  dsimp only
  rw [content, take_pread _ (Nat.min_le_left _ _), padded,
    pread_append_left (by omega)]

/-- The blocks up to a count are the image up to there. -/
theorem body_decompressed
    (decompresses : archive.decompressing = true)
    (whole : archive.image.length = archive.srcSize) {count : Nat}
    (inside : count ≤ archive.blocks) :
    archive.body 0 count = archive.image.take (count * archive.blockSize) := by
  induction count with
  | zero => rw [Nat.zero_mul, List.take_zero]; rfl
  | succ count inductionHypothesis =>
      have one : archive.body (0 + count) 1 = archive.chunk count := by
        rw [body_succ, Nat.zero_add]
        exact List.append_nil _
      rw [body_add, one, inductionHypothesis (by omega),
        chunk_decompressed decompresses whole (by omega), Nat.add_mul,
        Nat.one_mul, List.take_add, pread]
      refine congrArg
        (archive.image.take (count * archive.blockSize) ++ ·) ?_
      have rest : (archive.image.drop (count * archive.blockSize)).length =
          archive.srcSize - count * archive.blockSize := by
        rw [List.length_drop, whole]
      rw [← rest]
      exact List.take_eq_take_min.symm

theorem admissible_decompressed
    (decompresses : archive.decompressing = true)
    (cso : archive.fmt ≠ .dax) : archive.Admissible := by
  refine ⟨?_, ?_⟩
  · intro block _
    rw [stored_decompressed decompresses]
    unfold Output.refusal
    cases fmt : archive.fmt with
    | dax => exact absurd fmt cso
    | _ => rfl
  · intro block inside
    have length := length_content inside
    have bounds := archive.blockSize_bounds
    rw [stored_decompressed decompresses]
    intro empty
    have none : archive.content block = [] := empty
    rw [none, List.length_nil] at length
    omega

/-- The file of a decompressed image is the image. -/
theorem fileWith_decompressed
    (decompresses : archive.decompressing = true)
    (whole : archive.image.length = archive.srcSize) :
    archive.fileWith [] archive.blocks = archive.image := by
  have start := (written_decompressed decompresses archive.blocks_pos).1
  have body := body_decompressed decompresses whole (Nat.le_refl _)
  have size := archive.srcSize_bounds.1
  rw [fileWith, if_neg archive.blocks_pos.ne', start, Nat.zero_mul, body,
    Int.toNat_natCast, pwrite_zero_nil]
  exact List.take_of_length_le (whole.trans_le size)

/-- In a DAX file there is no entry for a decompressed block. -/
theorem failure_dax
    (decompresses : archive.decompressing = true)
    (dax : archive.fmt = .dax) (first : Nat) {count : Nat}
    (positive : 0 < count) :
    archive.failure first count ≠ none := by
  obtain ⟨count, rfl⟩ := Nat.exists_eq_succ_of_ne_zero (by omega : count ≠ 0)
  rw [failure_succ, stored_decompressed decompresses, dax]
  exact nofun

end Archive

namespace Course

variable {archive : Archive} {course : Course}

/-- Nothing has been written. -/
structure Untouched (course : Course) : Prop where
  first : course.first = 0
  dataWrites : course.dataWrites = []

theorem Untouched.move
    {may : Writer.Completions} (decompresses : archive.decompressing = true)
    (dax : archive.fmt = .dax) (untouched : course.Untouched)
    {next : Course} (move : Move archive may course next) :
    next.Untouched := by
  have refused : ∀ {count : Nat}, course.Batch archive count →
      archive.failure course.first count ≠ none :=
    fun batch => Archive.failure_dax decompresses dax _ batch.positive
  cases move with
  | @arrive id => exact ⟨(fill_first id).trans untouched.first,
      untouched.dataWrites⟩
  | @pad id => exact ⟨(fill_first id).trans untouched.first,
      untouched.dataWrites⟩
  | measure _ batch accepted => exact absurd accepted (refused batch)
  | issue _ batch accepted => exact absurd accepted (refused batch)
  | stall _ batch accepted => exact absurd accepted (refused batch)
  | dataWritten _ writes | dataFailed _ writes =>
      rw [untouched.dataWrites] at writes
      exact nomatch writes
  | _ => exact ⟨untouched.first, untouched.dataWrites⟩

end Course

namespace Writer

/-- Runs that decompress an image can be completed; at the end success has
been reported once and no failure, and the file is the image. -/
structure DecompressesTo (config : WriterConfig) (env : Environment)
    (image : Bytes) : Prop where
  completes : ∀ {pool : BufferPool} {events : List WriterEvent}
    {writer : Writer}, config.blockSize ≤ pool.bufferSize →
      Run config env image .full (start env config pool) events writer →
        ∃ more last, Run config env image .full writer more last ∧ last.Done
  ends : ∀ {pool : BufferPool} {events : List WriterEvent}
    {writer : Writer}, config.blockSize ≤ pool.bufferSize →
      Run config env image .full (start env config pool) events writer →
        writer.Done →
          successNotes writer.notes = [(image.length : Int)] ∧
            (∀ note ∈ writer.notes, Course.isFailureNote note = false) ∧
            (config.noFile = false → writer.file = image)

section

variable {config : WriterConfig} {env : Environment} {image : Bytes}
variable {pool : BufferPool} {events : List WriterEvent} {writer : Writer}

/-- Where nothing fails nothing is reported as a failure. -/
theorem not_failureNote_of_report
    {archive : Archive} (silent : archive.report = [])
    (onCourse : OnCourse archive (Course.Succeeding archive) writer) :
    ∀ note ∈ writer.notes, Course.isFailureNote note = false := by
  obtain ⟨pipeline, filled, _, _, succeeding⟩ := onCourse
  intro note member
  cases note with
  | finished success reason written =>
      cases success with
      | true => rfl
      | false =>
          have reported := succeeding.toFaultless.reported
            (Or.inr ⟨reason, written, member⟩)
          exact absurd silent reported.1
  | _ => rfl

/-- In a DAX file the first block is refused. -/
theorem successNotes_of_dax
    (decompresses : config.decompressing = true) (dax : config.fmt = .dax)
    (length : image.length = config.sourceSize)
    (room : config.blockSize ≤ pool.bufferSize)
    (run : Run config env image .full (start env config pool) events
      writer) :
    successNotes writer.notes = [] := by
  rw [← List.length_eq_zero_iff, length_successNotes]
  by_cases accepted : config.Accepted env
  · let archive : Archive := ⟨config, env, image, length, accepted⟩
    have initially : OnCourse archive Course.Untouched
        (start env config pool) :=
      @onCourse_start archive Course.Untouched ⟨rfl, rfl⟩ pool room
    obtain ⟨pipeline, filled, _, sound, untouched⟩ := initially.run
      (fun _ _ _ before move => before.move decompresses dax move) run
    by_contra some
    have positive : 0 < writer.notes.countP Course.isSuccessNote :=
      Nat.pos_of_ne_zero some
    obtain ⟨_, all, _⟩ := sound.all_written (Nat.add_pos_right _ positive)
    have blocks := archive.blocks_pos
    rw [← all, untouched.first] at blocks
    exact absurd blocks (Nat.lt_irrefl 0)
  · have refused : writer.Refused :=
      run.invariant (fun _ _ _ before _ taken => before.step taken)
        (refused_start pool accepted)
    rw [List.countP_eq_zero]
    intro note member succeeded
    exact nomatch (refused.notes note member).symm.trans succeeded

theorem not_decompressesTo_of_dax
    (decompresses : config.decompressing = true) (dax : config.fmt = .dax)
    (length : image.length = config.srcSize)
    (sectors : sectorSize ∣ config.srcSize) :
    ¬ DecompressesTo config env image := by
  intro runs
  let pool : BufferPool := ⟨config.blockSize, 0, [], 0⟩
  have room : config.blockSize ≤ pool.bufferSize := Nat.le_refl _
  have whole : image.length = config.sourceSize :=
    length.trans (config.sourceSize_eq sectors).symm
  obtain ⟨_, last, run, done⟩ := runs.completes room (.nil _)
  have reported := (runs.ends room run done).1
  rw [successNotes_of_dax decompresses dax whole room run] at reported
  exact nomatch reported

theorem decompressesTo_of_not_dax
    (decompresses : config.decompressing = true) (cso : config.fmt ≠ .dax)
    (length : image.length = config.srcSize)
    (sectors : sectorSize ∣ config.srcSize) :
    DecompressesTo config env image := by
  have accepted : config.Accepted env :=
    WriterConfig.accepted_of_not_dax cso
  have whole : image.length = config.sourceSize :=
    length.trans (config.sourceSize_eq sectors).symm
  let archive : Archive := ⟨config, env, image, whole, accepted⟩
  have immediate : archive.immediate = true := by
    rw [Archive.immediate, show archive.decompressing = true from decompresses]
    rfl
  have admissible := @Archive.admissible_decompressed archive decompresses cso
  have passes : archive.IndexPasses :=
    Archive.indexPasses_iff.mpr (Or.inl immediate)
  have leads : archive.Leads := by
    intro waits
    cases immediate.symm.trans waits
  have silent : archive.report = [] := by
    rw [Archive.report, if_neg]
    rintro ⟨compresses, _⟩
    cases compresses.symm.trans decompresses
  have file : archive.fileWith [] archive.blocks = image :=
    @Archive.fileWith_decompressed archive decompresses length
  have total : archive.pos archive.blocks = image.length := by
    have length := @Archive.length_fileWith archive []
      (archive.pos_nonneg 0) archive.blocks archive.blocks_pos
      (Nat.le_refl _)
    rw [← length, file]
  refine ⟨fun room run => ?_, fun room run done => ?_⟩
  · exact @completes archive _ .full Completions.possible_full _ room _ run
  · have onCourse : OnCourse archive (Course.Succeeding archive) _ :=
      onCourse_succeeding admissible passes leads room run
    obtain ⟨reported, finished⟩ := onCourse.succeeded done
    rw [total] at reported
    refine ⟨reported, not_failureNote_of_report silent onCourse, ?_⟩
    intro hasFile
    obtain ⟨head, finished⟩ := finished hasFile
    rw [finished.file, (finished.immediate immediate).1, file]

end

/-- The options that are accepted with `--decompress` do not matter, except
for the one that asks for a DAX file. -/
theorem decompresses_unless_dax
    {args accepted : Arguments} {processors : Int}
    (parsed : args.validateArgs processors = .ok accepted)
    (decompress : args.decompress = true) {task : Task}
    (flags : task.flags = accepted.flagsFinal) {config : WriterConfig}
    (opens : CompressionTask.Opens task config) {env : Environment}
    {image : Bytes} (length : image.length = config.srcSize)
    (sectors : sectorSize ∣ config.srcSize) :
    DecompressesTo config env image ↔
      CompressionTask.format accepted.flagsFinal ≠ .dax := by
  have same := (Arguments.flagsFinal_of_validateArgs parsed).1
  have decompresses : config.decompressing = true := by
    rw [WriterConfig.decompressing, opens.flags, flags, same]
    refine (hasFlag_two_pow _ 10).trans ?_
    unfold Arguments.finalFlags
    rw [decompress, Nat.testBit_or, Nat.testBit_or, Nat.testBit_or]
    have bit : taskflagDecompress.testBit 10 = true := by decide
    simp [Arguments.flagIf, bit]
  rw [← flags, ← opens.fmt]
  constructor
  · intro runs dax
    exact not_decompressesTo_of_dax decompresses dax length sectors runs
  · intro cso
    exact decompressesTo_of_not_dax decompresses cso length sectors

/-- The arguments `--decompress disc.cso` with a format and a block size. -/
def decompressArgs (flagsFmt blockSize : Nat) : Arguments :=
  { Arguments.default with
    inputs := [text "disc.cso"]
    threads := 1
    blockSize := blockSize
    flagsFmt := flagsFmt
    decompress := true }

/-- The settings of the task for some sectors. -/
def sectorsConfig (flags : Nat) (fmt : CsoFormat) (sectors shift : Nat)
    (bounds : 11 ≤ shift ∧ shift ≤ 18) (nonempty : 0 < sectors) :
    WriterConfig where
  flags := flags
  noFile := false
  fmt := fmt
  srcSize := sectors * sectorSize
  shift := shift
  origMaxCost := 0
  lz4MaxCost := 0
  shiftBounds := bounds
  nonempty := Nat.mul_pos nonempty (by decide)
  aligned := Or.inl (Nat.dvd_mul_left ..)

def plainTask (flags : Nat) : Task where
  blockSize := defaultBlockSize
  flags := flags
  origMaxCost _ := 0
  lz4MaxCost _ := 0

def zsoTask : Task := { plainTask 0x162F with blockSize := 8192 }

/-- Five sectors are one block of 8192 bytes and a quarter of another. -/
def fiveSectors : Bytes :=
  (List.range 5).flatMap fun sector =>
    List.replicate sectorSize (UInt8.ofNat sector)

theorem zsoConfig_opens :
    CompressionTask.Opens zsoTask
      (sectorsConfig 0x162F .zso 5 13 (by decide) (by decide)) := by
  let pool : BufferPool := ⟨0, 0, [], 0⟩
  refine ⟨rfl, by decide, by decide, ?_, rfl, rfl⟩
  exact ⟨pool, pool, 8192, rfl, rfl⟩

theorem decompresses_zsoOptions :
    DecompressesTo
      (sectorsConfig 0x162F .zso 5 13 (by decide) (by decide))
      (.ofFile []) fiveSectors := by
  have parsed : (decompressArgs taskflagFmtZso 8192).validateArgs 1 =
      .ok { decompressArgs taskflagFmtZso 8192 with
        outputs := [text "disc.iso"]
        flagsFinal := 0x162F } := rfl
  have length : fiveSectors.length = 5 * sectorSize := by
    simp only [fiveSectors, List.length_flatMap, List.length_replicate,
      List.map_const', List.sum_replicate_nat, List.length_range]
  apply (decompresses_unless_dax parsed rfl rfl zsoConfig_opens length
    (Nat.dvd_mul_left ..)).mpr
  decide

theorem daxConfig_opens :
    CompressionTask.Opens (plainTask 0x1F84)
      (sectorsConfig 0x1F84 .dax 1 13 (by decide) (by decide)) := by
  let pool : BufferPool := ⟨0, 0, [], 0⟩
  refine ⟨rfl, by decide, by decide, ?_, rfl, rfl⟩
  exact ⟨pool, pool, 8192, rfl, rfl⟩

/-- `--decompress --format=dax` is accepted, and the first block is refused
because it is not kept in deflate format. -/
theorem dax_not_decompressed :
    (decompressArgs taskflagFmtDax defaultBlockSize).validateArgs 1 =
        .ok { decompressArgs taskflagFmtDax defaultBlockSize with
          outputs := [text "disc.iso"]
          flagsFinal := 0x1F84 } ∧
      CompressionTask.Opens (plainTask 0x1F84)
        (sectorsConfig 0x1F84 .dax 1 13 (by decide) (by decide)) ∧
      ¬ DecompressesTo
        (sectorsConfig 0x1F84 .dax 1 13 (by decide) (by decide))
        (.ofFile []) (List.replicate sectorSize 0) := by
  refine ⟨rfl, daxConfig_opens, ?_⟩
  exact not_decompressesTo_of_dax (by decide) rfl (List.length_replicate ..)
    (Nat.dvd_mul_left ..)

end Writer

end Maxcso
