import Maxcso.Library.PipelineWork
import Maxcso.Writer.Runs

/-!
# The work of a run

Every move of a course leaves less to do.
-/

namespace Maxcso

namespace Course

variable {archive : Archive} {may : Writer.Completions} {course : Course}

/-- What is left to do for a block. -/
def cost : BlockStage → Nat
  | .compressing => 6
  | .ready | .pending => 4
  | .filling | .failed | .writing | .lost => 0

def isAfter : WriterCall → Bool
  | .output (.afterProgress _) => true
  | _ => false

/-- `afterProgress` may leave another call. -/
def callWork (calls : List WriterCall) : Nat :=
  calls.length + calls.countP isAfter

/-- A write leaves two calls, and the index comes with the reports about the
frames. -/
def work (archive : Archive) (course : Course) : Nat :=
  10 * (archive.paddedSize - course.filled) +
    (bif course.fetching then 0 else 1) +
    course.pipeline.work cost + callWork course.calls +
    4 * course.dataWrites.length + 2 * course.indexWrites.length +
    bif course.indexReady then 0 else archive.blocks + 3

@[simp]
theorem callWork_nil : callWork [] = 0 := rfl

theorem callWork_append (calls others : List WriterCall) :
    callWork (calls ++ others) = callWork calls + callWork others := by
  simp only [callWork, List.length_append, List.countP_append]
  omega

theorem callWork_cons (call : WriterCall) (calls : List WriterCall) :
    callWork (call :: calls) =
      callWork calls + 1 + if isAfter call then 1 else 0 := by
  simp only [callWork, List.length_cons, List.countP_cons]
  omega

theorem callWork_finishCalls (done : Bool) :
    callWork (finishCalls done) ≤ 1 := by
  cases done with
  | false => exact Nat.zero_le _
  | true => exact Nat.le_refl _

theorem callWork_padCalls (id : SectorId) :
    callWork (course.padCalls archive id) ≤ 1 := by
  unfold padCalls
  split
  · exact Nat.le_refl _
  · exact Nat.zero_le _

theorem callWork_report : callWork archive.report ≤ archive.blocks := by
  have none : archive.report.countP isAfter = 0 := by
    rw [List.countP_eq_zero]
    intro call member
    obtain ⟨reason, rfl⟩ := mem_report member
    exact Bool.false_ne_true
  rw [callWork, none, Nat.add_zero]
  unfold Archive.report Archive.oversized
  split
  · simp only [List.length_map]
    exact (List.length_filter_le _ _).trans (List.length_range).le
  · exact Nat.zero_le _

/-- A sector is put into its block. -/
theorem fill_work (filled : Filled archive course) {id : SectorId}
    (short : course.filled < archive.paddedSize)
    (takes : course.Takes archive id) :
    (course.fill archive id).work archive + 20000 ≤ course.work archive := by
  obtain ⟨claimed, same, kept⟩ : ∃ claimed : BlockPipeline,
      (course.fill archive id).pipeline =
          claimed.setStage (course.block archive)
            (archive.stageAt (course.filled + sectorSize)) ∧
        claimed.work cost = course.pipeline.work cost := by
    refine ⟨_, rfl, ?_⟩
    split
    · exact Pipeline.work_claim
    · rfl
  have holds := filled.fill_holds_self takes
  rw [same, Pipeline.holds_setStage] at holds
  have moved := @Pipeline.work_setStage _ _ cost claimed id
    (course.block archive) (archive.stageAt (course.filled + sectorSize))
    holds
  have most : cost (archive.stageAt (course.filled + sectorSize)) ≤ 6 := by
    unfold Archive.stageAt
    split
    · exact Nat.zero_le _
    · split
      · decide
      · exact Nat.le_refl _
  have calls : callWork (course.fill archive id).calls ≤
      callWork course.calls + 1 := by
    rw [fill_calls]
    split
    · rw [callWork_cons]
      exact Nat.le_refl _
    · exact Nat.le_succ _
  have fits := (filled.fill id short).filled_le
  have fetching : (course.fill archive id).fetching = course.fetching := rfl
  have data : (course.fill archive id).dataWrites = course.dataWrites := rfl
  have index : (course.fill archive id).indexWrites =
      course.indexWrites := rfl
  have ready : (course.fill archive id).indexReady = course.indexReady := rfl
  rw [fill_filled] at fits
  rw [work, work, fill_filled, fetching, data, index, ready, same]
  simp only [sectorSize] at *
  omega

/-- The first block of a turn still has something to be done for it. -/
theorem Turn.head {rest : List WriterCall}
    (turn : course.Turn archive rest) :
    course.first < course.last ∧
      cost (course.pipeline.stage course.first) = 4 ∧
      callWork rest + 1 ≤ callWork course.calls := by
  cases turn with
  | ready calls holds ready =>
      refine ⟨holds.lt_last, ?_, ?_⟩
      · rw [ready]
        rfl
      · rw [calls, callWork_cons]
        exact Nat.le_add_right _ _
  | pending calls more live pending =>
      refine ⟨live, ?_, ?_⟩
      · rw [pending]
        rfl
      · rw [calls, callWork_cons]
        exact Nat.le_add_right _ _

/-- The work of `Flush` has been counted. -/
theorem flushAt_work (unready : course.indexReady = false)
    (unissued : course.indexWrites = []) (write : IndexWrite)
    (gathered : Nat) :
    (course.flushAt archive write gathered).work archive ≤
      course.work archive := by
  unfold flushAt
  split
  · have reports := @callWork_report archive
    have most : (if archive.immediate then [] else [write]).length ≤ 1 := by
      split
      · exact Nat.zero_le _
      · exact Nat.le_refl _
    simp only [work, flush, unready, unissued, callWork_append, cond_true,
      cond_false, List.length_nil]
    omega
  · exact Nat.le_refl _

/-- A call has been run, and at most a shorter one is left of it. -/
theorem work_lt_of_calls {next : Course}
    (same : ∃ pipeline dataWritten calls paused notes, next =
      { course with
        pipeline := pipeline
        dataWritten := dataWritten
        calls := calls
        paused := paused
        notes := notes })
    (pipeline : next.pipeline.work cost ≤ course.pipeline.work cost)
    (calls : callWork next.calls < callWork course.calls) :
    next.work archive < course.work archive := by
  obtain ⟨_, _, _, _, _, rfl⟩ := same
  simp only [work] at *
  omega

/-- Blocks have been gathered, and what is done for them has been counted. -/
theorem Turn.work_lt {rest : List WriterCall} {count : Nat}
    (turn : course.Turn archive rest) (batch : course.Batch archive count)
    (sound : Sound archive course) {next : Course} (write : IndexWrite)
    (same : ∃ pipeline srcPos dstPos dataWrites calls, next =
      { course with
        pipeline := pipeline
        srcPos := srcPos
        dstPos := dstPos
        dataWrites := dataWrites
        calls := calls })
    (pipeline : next.pipeline.work cost + 4 ≤ course.pipeline.work cost)
    (issued : 4 * next.dataWrites.length + callWork next.calls <
      callWork rest + 5) (gathered : Nat) :
    (next.flushAt archive write gathered).work archive <
      course.work archive := by
  have unready := sound.indexed.of_batch turn batch
  have unissued := (sound.indexed.unready unready).2
  have calls := turn.head.2.2
  have ready : next.indexReady = course.indexReady := by
    obtain ⟨_, _, _, _, _, rfl⟩ := same
    rfl
  have index : next.indexWrites = course.indexWrites := by
    obtain ⟨_, _, _, _, _, rfl⟩ := same
    rfl
  have less : next.work archive < course.work archive := by
    obtain ⟨_, _, _, _, _, rfl⟩ := same
    simp only [work] at *
    omega
  exact (flushAt_work (ready.trans unready) (index.trans unissued) write
    gathered).trans_lt less

/-- Every move leaves less to do. -/
theorem work_lt (sound : Sound archive course) {next : Course}
    (move : Move archive may course next) :
    next.work archive < course.work archive := by
  have shorter : ∀ {call : WriterCall} {rest : List WriterCall},
      course.calls = call :: rest →
        callWork rest < callWork course.calls := by
    intro call rest calls
    rw [calls, callWork_cons]
    omega
  cases move with
  | fetch idle =>
      simp only [work, idle, cond_true, cond_false]
      omega
  | @arrive id fetching resumable takes =>
      have more := sound.fed.fetching fetching
      have place := (sound.fed.room fetching).1
      have padded := sourceSize_le_paddedSize archive
      have less := @fill_work archive
        { course with
          fetching := false
          nextPos := course.nextPos + sectorSize
          calls := course.padCalls archive id ++ .checkQueue :: course.calls }
        ⟨sound.fed.aligned, sound.fed.filled_le, sound.fed.first_le,
          sound.fed.filled_le_last, sound.fed.last_lt, sound.fed.filling⟩
        id (by dsimp only; omega) takes
      have pad := @callWork_padCalls archive course id
      refine Nat.lt_of_le_of_lt (Nat.le_sub_of_add_le less) ?_
      simp only [work, fetching, callWork_append, callWork_cons, isAfter,
        cond_true, cond_false, Bool.false_eq_true, if_false]
      omega
  | @pad id rest due short takes =>
      have less := @fill_work archive
        { course with
          calls :=
            padCall id (course.block archive)
              ((course.filled + sectorSize : Nat) : Int) :: rest }
        ⟨sound.fed.aligned, sound.fed.filled_le, sound.fed.first_le,
          sound.fed.filled_le_last, sound.fed.last_lt, sound.fed.filling⟩
        id short takes
      refine Nat.lt_of_le_of_lt (Nat.le_sub_of_add_le less) ?_
      simp only [work, due, padCall, callWork_cons, isAfter,
        Bool.false_eq_true, if_false]
      omega
  | @compressed id block quiet holds compressing =>
      have moved := @Pipeline.work_setStage _ _ cost course.pipeline id block
        .ready holds
      simp only [compressing, cost] at moved
      simp only [work, quiet, readyCall, callWork_cons, callWork_nil, isAfter,
        Bool.false_eq_true, if_false]
      omega
  | @compressFailed id block status quiet holds compressing =>
      have moved := @Pipeline.work_setStage _ _ cost course.pipeline id block
        .failed holds
      simp only [compressing, cost] at moved
      simp only [work, quiet, callWork_cons, callWork_nil, isAfter,
        Bool.false_eq_true, if_false]
      omega
  | @queue id block rest calls holds ready =>
      have moved := @Pipeline.work_setStage _ _ cost course.pipeline id block
        .pending holds
      simp only [ready, cost] at moved
      refine work_lt_of_calls ⟨_, _, _, _, _, rfl⟩ ?_ (shorter calls)
      exact (Nat.add_right_cancel moved).le
  | @refuse rest count reason turn batch =>
      obtain ⟨live, head, calls⟩ := turn.head
      have marked := @Pipeline.work_mark_add_le _ _ cost course.pipeline
        count .lost rfl batch.positive live
      rw [Course.first] at head
      simp only [work, callWork_cons, isAfter, Bool.false_eq_true, if_false]
      omega
  | @measure rest count write turn batch =>
      obtain ⟨live, head, calls⟩ := turn.head
      have enough : count ≤ course.pipeline.owners.length :=
        Nat.le_of_add_le_add_left batch.live
      have retired := @Pipeline.work_retire_add_le _ _ cost course.pipeline
        count batch.positive live enough
      rw [Course.first] at head
      refine turn.work_lt batch sound write ⟨_, _, _, _, _, rfl⟩ ?_ ?_ _
      · rw [← head]
        exact retired
      · have none := (sound.front.of_batch turn batch).1
        simp only [none, callWork_cons, isAfter, List.length_nil,
          Bool.false_eq_true, if_false, if_true]
        omega
  | @issue rest count write turn batch =>
      obtain ⟨live, head, calls⟩ := turn.head
      have marked := @Pipeline.work_mark_add_le _ _ cost course.pipeline
        count .writing rfl batch.positive live
      rw [Course.first] at head
      refine turn.work_lt batch sound write ⟨_, _, _, _, _, rfl⟩ ?_ ?_ _
      · rw [← head]
        exact marked
      · dsimp only
        rw [List.length_singleton]
        omega
  | @stall rest count write turn batch =>
      obtain ⟨live, head, calls⟩ := turn.head
      have marked := @Pipeline.work_mark_add_le _ _ cost course.pipeline
        count .lost rfl batch.positive live
      rw [Course.first] at head
      refine turn.work_lt batch sound write ⟨_, _, _, _, _, rfl⟩ ?_ ?_ _
      · rw [← head]
        exact marked
      · have none := (sound.front.of_batch turn batch).1
        simp only [none, List.length_nil]
        omega
  | padEnd calls =>
      exact work_lt_of_calls ⟨_, _, _, _, _, rfl⟩ (Nat.le_refl _)
        (shorter calls)
  | idle calls =>
      exact work_lt_of_calls ⟨_, _, _, _, _, rfl⟩ (Nat.le_refl _)
        (shorter calls)
  | progress calls =>
      exact work_lt_of_calls ⟨_, _, _, _, _, rfl⟩ (Nat.le_refl _)
        (shorter calls)
  | finish calls =>
      exact work_lt_of_calls ⟨_, _, _, _, _, rfl⟩ (Nat.le_refl _)
        (shorter calls)
  | checkQueue calls =>
      exact work_lt_of_calls ⟨_, _, _, _, _, rfl⟩ (Nat.le_refl _)
        (shorter calls)
  | complete calls =>
      refine work_lt_of_calls ⟨_, _, _, _, _, rfl⟩ (Nat.le_refl _) ?_
      have most := callWork_finishCalls course.indexWritten
      rw [calls, callWork_append, callWork_cons]
      simp only [isAfter, if_true]
      omega
  | @dataWritten count result quiet writes positive live =>
      have alive : course.first < course.last :=
        (Nat.lt_add_of_pos_right positive).trans_le live
      have enough : count ≤ course.pipeline.owners.length :=
        Nat.le_of_add_le_add_left live
      have retired := @Pipeline.work_retire_add_le _ _ cost course.pipeline
        count positive alive enough
      simp only [work, retire, quiet, writes, callWork_cons, callWork_nil,
        isAfter, List.length_nil, List.length_singleton, Bool.false_eq_true,
        if_false, if_true]
      omega
  | @dataFailed count result quiet writes positive live =>
      have alive : course.first < course.last :=
        (Nat.lt_add_of_pos_right positive).trans_le live
      have enough : count ≤ course.pipeline.owners.length :=
        Nat.le_of_add_le_add_left live
      have retired := @Pipeline.work_retire_add_le _ _ cost course.pipeline
        count positive alive enough
      simp only [work, quiet, writes, callWork_cons, callWork_nil,
        isAfter, List.length_nil, List.length_singleton, Bool.false_eq_true,
        if_false]
      omega
  | indexWritten quiet writes =>
      have most := callWork_finishCalls course.dataWritten
      simp only [work, quiet, writes, callWork_nil, List.length_nil,
        List.length_singleton]
      omega
  | indexFailed quiet writes =>
      simp only [work, quiet, writes, callWork_cons, callWork_nil, isAfter,
        List.length_nil, List.length_singleton, Bool.false_eq_true, if_false]
      omega

end Course

end Maxcso
