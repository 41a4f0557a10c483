import Maxcso.Writer.Completing
import Maxcso.Writer.Failures

/-!
# Runs in which everything succeeds

When every completion succeeds and every block is kept in a format of the
container, no block gets stuck and the run ends with success.
-/

namespace Maxcso

open Transition

namespace Archive

/-- The whole index is passed to its write. -/
def IndexPasses (archive : Archive) : Prop :=
  archive.immediate = false → archive.indexPassed = archive.indexTotal

end Archive

namespace Course

variable {archive : Archive} {course : Course}

/-! ## Nothing gets stuck -/

/-- The data and the index go on. -/
structure Steady (archive : Archive) (course : Course) : Prop where
  unstuck : ∀ block, course.first ≤ block → block < course.last →
    ¬ Stuck course.pipeline block
  srcPos : course.srcPos = (course.first * archive.blockSize : Nat)
  issued : course.indexReady = true →
    course.indexWritten = true ∨ course.indexWrites ≠ []

theorem Steady.not_doomed (steady : Steady archive course) :
    ¬ Doomed archive course := by
  intro doomed
  cases doomed with
  | stuck block above below stage =>
      exact steady.unstuck block above below stage
  | stopped block srcPos before =>
      have same := mul_blockSize_inj (srcPos.symm.trans steady.srcPos)
      omega
  | unwritten ready unissued unwritten =>
      rcases steady.issued ready with written | issued
      · rw [unwritten] at written
        exact nomatch written
      · exact issued unissued

theorem steady_start : Steady archive (start archive) := by
  refine ⟨?_, ?_, ?_⟩
  · intro block _ below
    exact absurd below (Nat.not_lt_zero block)
  · have zero : (start archive).first = 0 := rfl
    rw [zero, Nat.zero_mul]
    rfl
  · intro ready
    exact nomatch ready

/-- Blocks do not get stuck by other stages. -/
theorem Steady.setStage
    (steady : Steady archive course) (block : Nat) {stage : BlockStage}
    (fine : stage ≠ .failed ∧ stage ≠ .lost) {other : Nat}
    (above : course.first ≤ other) (below : other < course.last) :
    ¬ Stuck (course.pipeline.setStage block stage) other := by
  by_cases same : other = block
  · subst same
    unfold Stuck
    rw [Pipeline.setStage_stage_self]
    exact not_or.mpr fine
  · unfold Stuck
    rw [Pipeline.setStage_stage_of_ne same]
    exact steady.unstuck other above below

/-- The newest block does not get stuck by one more sector. -/
theorem Steady.fill
    (steady : Steady archive course) (filled : Filled archive course)
    (id : SectorId) {block : Nat} (above : course.first ≤ block)
    (below : block < (course.fill archive id).last) :
    ¬ Stuck (course.fill archive id).pipeline block := by
  have last := filled.fill_last id
  have newest := filled.block_le_last
  by_cases same : block = course.block archive
  · subst same
    unfold Stuck
    rw [fill_stage_self]
    unfold Archive.stageAt
    split
    · simp
    · split <;> simp
  · unfold Stuck
    rw [filled.fill_stage_of_ne id same]
    exact steady.unstuck block above (by omega)

theorem Steady.flushAt
    (steady : Steady archive course) (write : IndexWrite) (gathered : Nat) :
    Steady archive (course.flushAt archive write gathered) := by
  refine ⟨?_, ?_, ?_⟩
  · rw [flushAt_first, Course.last, flushAt_pipeline]
    exact steady.unstuck
  · rw [flushAt_first, flushAt_srcPos]
    exact steady.srcPos
  · rw [flushAt_eq]
    by_cases all : archive.blocks ≤ gathered
    · simp only [if_pos all]
      intro _
      cases archive.immediate with
      | true => exact Or.inl rfl
      | false => exact Or.inr (List.cons_ne_nil _ _)
    · simp only [if_neg all]
      exact steady.issued

/-- The first blocks have been written. -/
theorem Steady.retire
    (steady : Steady archive course) {count : Nat}
    (live : course.first + count ≤ course.last) (calls : List WriterCall) :
    Steady archive (course.retire archive count calls) := by
  obtain ⟨first, last⟩ :=
    @bounds_of_retire course (course.retire archive count calls) count live rfl
  refine ⟨?_, ?_, steady.issued⟩
  · rw [first, last]
    intro block above below
    exact steady.unstuck block (by omega) below
  · rw [first]
    rfl

/-- Something is written for every batch. -/
theorem body_ne_nil
    (nonempty : ∀ block < archive.blocks, (archive.stored block).2 ≠ [])
    {first count : Nat} (positive : 0 < count)
    (inside : first + count ≤ archive.blocks) :
    archive.body first count ≠ [] := by
  intro nothing
  have below : first < archive.blocks := by omega
  have length := archive.length_body inside
  have some := Archive.written_pos (nonempty first below) below
  have next := archive.pos_le_succ first
  have mono := archive.pos_mono (show first + 1 ≤ first + count by omega)
  rw [nothing, List.length_nil] at length
  omega

/-- The whole batch is written. -/
theorem batch_full
    {count : Nat} (inside : course.first + count ≤ archive.blocks) :
    ((archive.batchWrite course.pipeline count).data.length : Int) =
      (archive.batchWrite course.pipeline count).totalWrite :=
  archive.length_body inside

/-- What can go wrong in a move. -/
inductive Mishap (archive : Archive) (may : Writer.Completions)
    (course next : Course) : Prop
  | compress {status : Int} (failed : status < 0)
      (given : may.compressed status) (reported : next.Reported)
  | refuse {count : Nat} {reason : String}
      (inside : course.first + count ≤ archive.blocks)
      (refused : archive.failure course.first count = some reason)
      (reported : next.Reported)
  | stall {count : Nat} (positive : 0 < count)
      (inside : course.first + count ≤ archive.blocks)
      (nothing : archive.body course.first count = [])
  | data {count : Nat} {result : Int}
      (inside : course.first + count ≤ archive.blocks)
      (short : result ≠
        (archive.batchWrite course.pipeline count).totalWrite)
      (given : may.dataWritten (archive.batchWrite course.pipeline count)
        result)
      (reported : next.Reported)
  | index {write : IndexWrite} {result : Int}
      (waits : archive.immediate = false) (expected : Expected archive write)
      (short : result ≠ write.totalBytes)
      (given : may.indexWritten write result) (reported : next.Reported)

/-- When everything succeeds nothing goes wrong. -/
theorem Mishap.not_full
    (admissible : archive.Admissible) (passes : archive.IndexPasses)
    {next : Course} : ¬ Mishap archive .full course next := by
  intro mishap
  cases mishap with
  | compress failed given => exact absurd failed (not_lt.mpr given)
  | refuse inside refused =>
      rw [archive.failure_eq_none admissible.format inside] at refused
      cases refused
  | stall positive inside nothing =>
      exact body_ne_nil admissible.nonempty positive inside nothing
  | data inside short given =>
      exact short (given.trans (batch_full inside))
  | index waits expected short given =>
      refine short (given.trans ?_)
      rw [expected.length, expected.totalBytes, passes waits]

/-- As long as something is kept of every block, whatever goes wrong is
reported. -/
theorem Mishap.reported
    (nonempty : ∀ block < archive.blocks, (archive.stored block).2 ≠ [])
    {may : Writer.Completions} {next : Course}
    (mishap : Mishap archive may course next) : next.Reported := by
  cases mishap with
  | stall positive inside nothing =>
      exact absurd nothing (body_ne_nil nonempty positive inside)
  | compress _ _ reported | refuse _ _ reported | data _ _ _ reported
  | index _ _ _ _ reported => exact reported

/-- A steady course stays so unless something goes wrong. -/
theorem Steady.carry
    (steady : Steady archive course) (sound : Sound archive course)
    {may : Writer.Completions} {next : Course}
    (move : Move archive may course next) :
    Steady archive next ∨ Mishap archive may course next := by
  have most := sound.fed.last_le
  have told : ∀ {other : Course} {reason : String} {rest : List WriterCall},
      other.calls = .output (.finish false reason) :: rest →
        other.Reported := by
    intro other reason rest calls
    refine Or.inl ⟨reason, ?_⟩
    rw [calls]
    exact List.mem_cons_self
  cases move with
  | @arrive id fetching resumable takes =>
      refine Or.inl ⟨?_, ?_, steady.issued⟩
      · rw [arrive, fill_first]
        intro block above below
        exact steady.fill sound.fed.toFilled id above below
      · rw [arrive, fill_first]
        exact steady.srcPos
  | @pad id rest calls short takes =>
      refine Or.inl ⟨?_, ?_, steady.issued⟩
      · rw [fill_first]
        intro block above below
        exact steady.fill sound.fed.toFilled id above below
      · rw [fill_first]
        exact steady.srcPos
  | compressed | queue =>
      refine Or.inl ⟨?_, steady.srcPos, steady.issued⟩
      intro block above below
      exact steady.setStage _ (by simp) above below
  | compressFailed _ _ _ failed given =>
      exact Or.inr (.compress failed given (told rfl))
  | refuse turn batch refused =>
      exact Or.inr (.refuse (batch.live.trans most) refused (told rfl))
  | measure turn batch =>
      exact Or.inl ((steady.retire batch.live _).flushAt _ _)
  | @issue rest count write turn batch =>
      refine Or.inl (Steady.flushAt ?_ _ _)
      refine ⟨?_, steady.srcPos, steady.issued⟩
      intro block above below
      by_cases inside : block < course.first + count
      · unfold Stuck
        rw [Pipeline.mark_stage_of_lt inside]
        simp
      · unfold Stuck
        rw [Pipeline.mark_stage_of_le (Nat.not_lt.mp inside)]
        exact steady.unstuck block above below
  | stall turn batch _ _ nothing =>
      exact Or.inr
        (.stall batch.positive (batch.live.trans most) nothing)
  | dataWritten _ _ _ live =>
      exact Or.inl ⟨(steady.retire live []).unstuck,
        (steady.retire live []).srcPos, steady.issued⟩
  | dataFailed _ _ _ live _ short given =>
      exact Or.inr (.data (live.trans most) short given (told rfl))
  | indexWritten =>
      exact Or.inl ⟨steady.unstuck, steady.srcPos, fun _ => Or.inl rfl⟩
  | @indexFailed write result _ writes short given =>
      obtain ⟨_, _, expected, waits⟩ := sound.indexed.of_writes writes
      exact Or.inr (.index waits expected short given (told rfl))
  | _ => exact Or.inl ⟨steady.unstuck, steady.srcPos, steady.issued⟩

/-- A steady course stays so while everything succeeds. -/
theorem Steady.move
    (admissible : archive.Admissible) (passes : archive.IndexPasses)
    (steady : Steady archive course) (sound : Sound archive course)
    {next : Course} (move : Move archive .full course next) :
    Steady archive next :=
  (steady.carry sound move).resolve_right
    (Mishap.not_full admissible passes)

/-! ## What is reported -/

theorem ready_move {may : Writer.Completions} {next : Course}
    (move : Move archive may course next)
    (ready : course.indexReady = true) : next.indexReady = true := by
  have flushed : ∀ {other : Course} (write : IndexWrite) (gathered : Nat),
      other.indexReady = course.indexReady →
        (other.flushAt archive write gathered).indexReady = true := by
    intro other write gathered same
    rw [flushAt_eq]
    dsimp only
    split
    · rfl
    · exact same.trans ready
  cases move with
  | measure | issue | stall => exact flushed _ _ rfl
  | _ => exact ready

/-- All that is ever reported are the frames of a DAX file. -/
structure Faultless (archive : Archive) (course : Course) : Prop
    extends Steady archive course where
  reported : course.Reported →
    archive.report ≠ [] ∧ course.indexReady = true

theorem faultless_start : Faultless archive (start archive) := by
  refine ⟨steady_start, ?_⟩
  rintro (⟨reason, member⟩ | ⟨reason, written, member⟩)
  · exact nomatch member
  · exact nomatch member

theorem Faultless.move
    (admissible : archive.Admissible) (passes : archive.IndexPasses)
    (sound : Sound archive course) (faultless : Faultless archive course)
    {next : Course} (move : Move archive .full course next) :
    Faultless archive next := by
  have steady := faultless.toSteady.move admissible passes sound move
  refine ⟨steady, ?_⟩
  intro reported
  rcases reported_move sound move reported with earlier | doomed | told
  · obtain ⟨report, ready⟩ := faultless.reported earlier
    exact ⟨report, ready_move move ready⟩
  · exact absurd doomed steady.not_doomed
  · exact told

/-! ## The end of a run -/

/-- Nothing is running or in flight. -/
structure Quiet (course : Course) : Prop where
  calls : course.calls = []
  dataWrites : course.dataWrites = []
  indexWrites : course.indexWrites = []
  compressing : ∀ block, course.first ≤ block → block < course.last →
    course.pipeline.stage block ≠ .compressing

/-- The source has passed on all of its sectors. -/
theorem Fed.ended_of_le (fed : Fed archive course)
    (passed : archive.srcSize ≤ course.nextPos) :
    course.nextPos = archive.sourceSize := by
  by_contra before
  have more : course.nextPos < archive.sourceSize :=
    lt_of_le_of_ne fed.nextPos_le before
  have aligned : sectorSize ∣ course.nextPos :=
    fed.filled_eq more ▸ fed.aligned
  have short := (archive.lt_sourceSize_iff aligned).mp more
  omega

/-- When nothing is in flight, every block that is left is being filled, waits
for its turn, or is stuck. -/
theorem Sound.stages_of_quiet (sound : Sound archive course)
    (quiet : course.Quiet) {block : Nat} (above : course.first ≤ block)
    (below : block < course.last) :
    course.pipeline.stage block = .filling ∨
      course.pipeline.stage block = .pending ∨
        Stuck course.pipeline block := by
  obtain ⟨id, holds⟩ := Pipeline.exists_holds above below
  cases stage : course.pipeline.stage block with
  | filling => exact Or.inl rfl
  | compressing => exact absurd stage (quiet.compressing _ above below)
  | failed => exact Or.inr (Or.inr (Or.inl stage))
  | lost => exact Or.inr (Or.inr (Or.inr stage))
  | ready =>
      have due := sound.ordered.ready_stage id _ holds stage
      rw [quiet.calls] at due
      exact nomatch due
  | pending => exact Or.inr (Or.inl rfl)
  | writing =>
      cases sound.front with
      | between _ _ _ idle => exact absurd stage (idle _ above below)
      | writing _ _ _ _ _ writes =>
          rw [quiet.dataWrites] at writes
          exact nomatch writes
      | halted _ _ _ _ _ idle => exact absurd stage (idle _ above below)

/-- When nothing is in flight, at most the newest block is left, and it is
being filled. -/
theorem Steady.last_le_of_quiet
    (steady : Steady archive course) (sound : Sound archive course)
    (quiet : course.Quiet) :
    course.last ≤ course.first + 1 ∧
      (course.first < course.last →
        course.filled < (course.first + 1) * archive.blockSize) := by
  have partly : course.first < course.last →
      course.filled < (course.first + 1) * archive.blockSize := by
    intro live
    refine (sound.fed.filling _ (Nat.le_refl _) live).mp ?_
    have unstuck := steady.unstuck _ (Nat.le_refl _) live
    rcases sound.stages_of_quiet quiet (Nat.le_refl _) live with
      filling | pending | stuck
    · exact filling
    · obtain ⟨_, due, _⟩ :=
        sound.front.waiting_call live pending steady.srcPos
      rw [quiet.calls] at due
      exact nomatch due
    · exact absurd stuck unstuck
  refine ⟨?_, partly⟩
  by_contra more
  have below := partly (by omega)
  have high := sound.fed.last_lt
  have next : (course.first + 2) * archive.blockSize ≤
      course.last * archive.blockSize :=
    Nat.mul_le_mul_right _ (by omega)
  rw [Nat.add_mul] at below next
  omega

/-- A faultless run that is over has written everything. -/
theorem Faultless.complete
    (faultless : Faultless archive course) (sound : Sound archive course)
    (quiet : course.Quiet)
    (source : course.paused = true ∨ archive.srcSize ≤ course.nextPos) :
    course.first = archive.blocks ∧ course.indexReady = true ∧
      course.indexWritten = true ∧ course.dataWritten = true := by
  obtain ⟨few, partly⟩ :=
    faultless.toSteady.last_le_of_quiet sound quiet
  have full : course.filled = archive.paddedSize := by
    rcases source with paused | passed
    · rcases sound.flow.paused paused with crowd | ⟨_, _, _, due⟩ | reported
      · have last : course.last =
            course.first + course.pipeline.owners.length := rfl
        rw [crowd, queueSize] at last
        omega
      · rw [quiet.calls] at due
        exact nomatch due
      · exact (sound.indexed.gathered (faultless.reported reported).2).1
    · by_contra short
      have room := lt_of_le_of_ne sound.fed.filled_le short
      obtain ⟨_, _, due, _⟩ :=
        sound.ordered.pad_due (sound.fed.ended_of_le passed) room
      rw [quiet.calls] at due
      exact nomatch due
  have last : course.last = archive.blocks := by
    have low := sound.fed.filled_le_last
    have bounds := archive.blockSize_bounds
    rw [full, Archive.paddedSize] at low
    exact le_antisymm sound.fed.last_le
      (Nat.le_of_mul_le_mul_right low (by omega))
  have first : course.first = archive.blocks := by
    have le := course.first_le_last
    by_contra before
    have below := partly (by omega)
    have beyond : (course.first + 1) * archive.blockSize ≤
        archive.blocks * archive.blockSize :=
      Nat.mul_le_mul_right _ (by omega)
    rw [full, Archive.paddedSize] at below
    omega
  have passed : (archive.srcSize : Int) ≤ course.srcPos := by
    rw [faultless.srcPos, srcSize_le_iff, first]
  obtain ⟨_, _, _, _, ready⟩ := sound.front.ended sound.fed.toFilled passed
  refine ⟨first, ready, ?_, ?_⟩
  · exact (faultless.issued ready).resolve_right
      (not_not.mpr quiet.indexWrites)
  · have ends := sound.counted.ends
    rw [quiet.calls, if_pos passed, List.countP_nil, Nat.zero_add] at ends
    exact Bool.toNat_eq_one.mp ends

end Course

end Maxcso
