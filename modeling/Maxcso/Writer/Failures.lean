import Maxcso.Writer.Runs

/-!
# Failures of the writer

A failure that is reported leaves the writer where it cannot end with success:
a block is lost for good, the data has stopped, or the index is missing.
-/

namespace Maxcso

namespace Course

variable {archive : Archive} {may : Writer.Completions} {course : Course}

/-- Blocks whose compression failed, or that were taken off the pending ones
in vain. -/
def Stuck (pipeline : BlockPipeline) (block : Nat) : Prop :=
  pipeline.stage block = .failed ∨ pipeline.stage block = .lost

/-- What keeps the writer from ending with success. -/
inductive Doomed (archive : Archive) (course : Course) : Prop
  | stuck (block : Nat) (above : course.first ≤ block)
      (below : block < course.last) (stage : Stuck course.pipeline block)
  | stopped (block : Nat)
      (srcPos : course.srcPos = (block * archive.blockSize : Nat))
      (before : block < course.first)
  | unwritten (ready : course.indexReady = true)
      (unissued : course.indexWrites = [])
      (unwritten : course.indexWritten = false)

/-! ## Stuck blocks stay -/

theorem Stuck.not_turn
    {rest : List WriterCall} {count : Nat}
    (turn : course.Turn archive rest) (batch : course.Batch archive count)
    {block : Nat} (above : course.first ≤ block)
    (stuck : Stuck course.pipeline block) :
    course.first + count ≤ block := by
  by_contra inside
  have stages := batch.not_filling turn above (Nat.not_le.mp inside)
  rcases stuck with stage | stage
  · simp [stage] at stages
  · simp [stage] at stages

theorem Stuck.fill
    (filled : Filled archive course) (id : SectorId) {block : Nat}
    (above : course.first ≤ block) (below : block < course.last)
    (stuck : Stuck course.pipeline block) :
    block < (course.fill archive id).last ∧
      Stuck (course.fill archive id).pipeline block := by
  have different : block ≠ course.block archive := by
    rintro rfl
    have filling := (filled.filling _ above below).mpr
      (lt_succ_block_mul _ _)
    rcases stuck with stage | stage
    · rw [filling] at stage
      exact nomatch stage
    · rw [filling] at stage
      exact nomatch stage
  refine ⟨?_, ?_⟩
  · rw [filled.fill_last id]
    by_cases whole : course.filled % archive.blockSize = 0
    · rw [filled.block_new whole]
      omega
    · rw [filled.block_newest whole]
      exact below
  · unfold Stuck
    rw [filled.fill_stage_of_ne id different]
    exact stuck

/-- A block that is stuck is not moved on. -/
theorem Stuck.move
    (fed : Fed archive course) {next : Course}
    (move : Move archive may course next) {block : Nat}
    (above : course.first ≤ block) (below : block < course.last)
    (stuck : Stuck course.pipeline block) :
    next.first ≤ block ∧ block < next.last ∧ Stuck next.pipeline block := by
  have set : ∀ {other : Nat} {stage : BlockStage},
      ¬ Stuck course.pipeline other →
        Stuck (course.pipeline.setStage other stage) block := by
    intro other stage fine
    have different : block ≠ other := by
      rintro rfl
      exact fine stuck
    unfold Stuck
    rw [Pipeline.setStage_stage_of_ne different]
    exact stuck
  have mark : ∀ {count : Nat} {stage : BlockStage},
      course.first + count ≤ block →
        Stuck (course.pipeline.mark count stage) block := by
    intro count stage later
    unfold Stuck
    rw [Pipeline.mark_stage_of_le later]
    exact stuck
  have retire : ∀ {count : Nat} {other : Course},
      course.first + count ≤ course.last →
        other.pipeline = course.pipeline.retire count →
          course.first + count ≤ block →
            other.first ≤ block ∧ block < other.last ∧
              Stuck other.pipeline block := by
    intro count other live pipeline later
    obtain ⟨first, last⟩ := bounds_of_retire live pipeline
    rw [first, last, pipeline]
    exact ⟨later, below, stuck⟩
  cases move with
  | @arrive id fetching resumable takes =>
      obtain ⟨live, still⟩ := stuck.fill fed.toFilled id above below
      exact ⟨(fill_first id).trans_le above, live, still⟩
  | @pad id rest calls short takes =>
      obtain ⟨live, still⟩ := stuck.fill fed.toFilled id above below
      exact ⟨(fill_first id).trans_le above, live, still⟩
  | compressed quiet holds compressing =>
      exact ⟨above, below, set (by simp [Stuck, compressing])⟩
  | compressFailed quiet holds compressing =>
      exact ⟨above, below, set (by simp [Stuck, compressing])⟩
  | queue calls holds ready =>
      exact ⟨above, below, set (by simp [Stuck, ready])⟩
  | refuse turn batch =>
      exact ⟨above, below, mark (stuck.not_turn turn batch above)⟩
  | measure turn batch =>
      exact retire batch.live (flushAt_pipeline _ _)
        (stuck.not_turn turn batch above)
  | issue turn batch =>
      have later := stuck.not_turn turn batch above
      rw [Course.first, Course.last, flushAt_pipeline]
      exact ⟨above, below, mark later⟩
  | stall turn batch =>
      have later := stuck.not_turn turn batch above
      rw [Course.first, Course.last, flushAt_pipeline]
      exact ⟨above, below, mark later⟩
  | dataWritten quiet writes positive live writing
  | dataFailed quiet writes positive live writing =>
      refine retire live rfl ?_
      by_contra inside
      have stage := writing block above (Nat.not_le.mp inside)
      simp [Stuck, stage] at stuck
  | _ => exact ⟨above, below, stuck⟩

/-! ## Doomed courses stay so -/

/-- What the writer has got to is kept, or moves on with its first block. -/
theorem srcPos_move
    (front : Front archive course) {next : Course}
    (move : Move archive may course next) :
    course.first ≤ next.first ∧
      ((next.srcPos = course.srcPos ∧ next.dstPos = course.dstPos) ∨
        course.srcPos = (course.first * archive.blockSize : Nat)) := by
  cases move with
  | @arrive id => exact ⟨(fill_first id).ge, Or.inl ⟨rfl, rfl⟩⟩
  | @pad id => exact ⟨(fill_first id).ge, Or.inl ⟨rfl, rfl⟩⟩
  | measure turn batch =>
      refine ⟨?_, Or.inr batch.srcPos⟩
      rw [flushAt_first]
      exact Nat.le_add_right _ _
  | issue turn batch =>
      rw [flushAt_srcPos, flushAt_dstPos, flushAt_first]
      exact ⟨Nat.le_refl _, Or.inl ⟨rfl, rfl⟩⟩
  | stall turn batch =>
      rw [flushAt_srcPos, flushAt_dstPos, flushAt_first]
      exact ⟨Nat.le_refl _, Or.inl ⟨rfl, rfl⟩⟩
  | dataWritten quiet writes positive live =>
      exact ⟨Nat.le_add_right _ _,
        Or.inr (front.of_writes positive live writes).1⟩
  | dataFailed => exact ⟨Nat.le_add_right _ _, Or.inl ⟨rfl, rfl⟩⟩
  | _ => exact ⟨Nat.le_refl _, Or.inl ⟨rfl, rfl⟩⟩

/-- An index that is not being written is not written later. -/
theorem unwritten_move
    (indexed : Indexed archive course) {next : Course}
    (move : Move archive may course next)
    (ready : course.indexReady = true) (unissued : course.indexWrites = []) :
    next.indexReady = true ∧ next.indexWrites = [] ∧
      next.indexWritten = course.indexWritten := by
  have early : ∀ {rest : List WriterCall} {count : Nat},
      course.Turn archive rest → ¬ course.Batch archive count := by
    intro rest count turn batch
    have unready := indexed.of_batch turn batch
    rw [ready] at unready
    exact nomatch unready
  cases move with
  | measure turn batch => exact absurd batch (early turn)
  | issue turn batch => exact absurd batch (early turn)
  | stall turn batch => exact absurd batch (early turn)
  | indexWritten quiet writes =>
      rw [unissued] at writes
      exact nomatch writes
  | indexFailed quiet writes =>
      rw [unissued] at writes
      exact nomatch writes
  | _ => exact ⟨ready, unissued, rfl⟩

theorem Doomed.move
    (sound : Sound archive course) {next : Course}
    (move : Move archive may course next) (doomed : Doomed archive course) :
    Doomed archive next := by
  cases doomed with
  | stuck block above below stage =>
      obtain ⟨above', below', stage'⟩ := stage.move sound.fed move above below
      exact .stuck block above' below' stage'
  | stopped block srcPos before =>
      obtain ⟨later, same | first⟩ := srcPos_move sound.front move
      · exact .stopped block (same.1.trans srcPos) (before.trans_le later)
      · have here := mul_blockSize_inj (srcPos.symm.trans first)
        omega
  | unwritten ready unissued unwritten =>
      obtain ⟨ready', unissued', same⟩ :=
        unwritten_move sound.indexed move ready unissued
      exact .unwritten ready' unissued' (same.trans unwritten)

def isFailure : WriterCall → Bool
  | .output (.finish false _) => true
  | _ => false

def isFailureNote : WriterNote → Bool
  | .finished false _ _ => true
  | _ => false

/-- Nothing has been reported that was not before. -/
theorem Reported.of_subset
    {next : Course} (reported : next.Reported)
    (calls : ∀ call ∈ next.calls, call ∈ course.calls ∨
      isFailure call = false)
    (notes : ∀ note ∈ next.notes, note ∈ course.notes ∨
      isFailureNote note = false) :
    course.Reported := by
  rcases reported with ⟨reason, member⟩ | ⟨reason, written, noted⟩
  · refine Or.inl ⟨reason, (calls _ member).resolve_right ?_⟩
    exact Bool.noConfusion
  · refine Or.inr ⟨reason, written, (notes _ noted).resolve_right ?_⟩
    exact Bool.noConfusion

theorem isFailure_finishCalls {done : Bool} {call : WriterCall}
    (member : call ∈ finishCalls done) : isFailure call = false := by
  cases done with
  | false => exact nomatch member
  | true =>
      obtain rfl := List.mem_singleton.mp member
      rfl

theorem mem_fill
    {call : WriterCall} (id : SectorId)
    (member : call ∈ (course.fill archive id).calls) :
    call ∈ course.calls ∨ isFailure call = false := by
  rw [fill_calls] at member
  split at member
  · rcases List.mem_cons.mp member with rfl | member
    · exact Or.inr rfl
    · exact Or.inl member
  · exact Or.inl member

/-- `Flush` only adds what it reports about frames. -/
theorem flushed_calls (write : IndexWrite) (gathered : Nat) :
    (course.flushAt archive write gathered).calls = course.calls ∨
      (archive.report ≠ [] ∧
        (course.flushAt archive write gathered).indexReady = true) := by
  by_cases all : archive.blocks ≤ gathered
  · by_cases fits : archive.report = []
    · rw [flushAt_calls, fits, ite_self, List.nil_append]
      exact Or.inl rfl
    · exact Or.inr ⟨fits, flushAt_indexReady write all⟩
  · rw [flushAt_calls, if_neg all, List.nil_append]
    exact Or.inl rfl

/-- What is reported was reported before, dooms the course, or is about the
frames of a DAX file. -/
theorem reported_move
    (sound : Sound archive course) {next : Course}
    (move : Move archive may course next) (reported : next.Reported) :
    course.Reported ∨ Doomed archive next ∨
      (archive.report ≠ [] ∧ next.indexReady = true) := by
  by_cases earlier : course.Reported
  · exact Or.inl earlier
  · have quiet : ∀ {other : Course},
        other.Reported →
          (∀ call ∈ other.calls, call ∈ course.calls ∨
            isFailure call = false) →
          (∀ note ∈ other.notes, note ∈ course.notes ∨
            isFailureNote note = false) →
            course.Reported ∨ Doomed archive other ∨
              (archive.report ≠ [] ∧ other.indexReady = true) :=
      fun reported calls notes =>
        Or.inl (reported.of_subset calls notes)
    have same : ∀ note ∈ course.notes, note ∈ course.notes ∨
        isFailureNote note = false := fun _ member => Or.inl member
    have one : ∀ {added : WriterNote}, isFailureNote added = false →
        ∀ note ∈ course.notes ++ [added], note ∈ course.notes ∨
          isFailureNote note = false := by
      intro added fine note member
      rcases List.mem_append.mp member with member | member
      · exact Or.inl member
      · rw [List.mem_singleton.mp member]
        exact Or.inr fine
    have tail : ∀ {call : WriterCall} {rest : List WriterCall},
        course.calls = call :: rest →
          ∀ other ∈ rest, other ∈ course.calls ∨
            isFailure other = false := by
      intro call rest calls other member
      rw [calls]
      exact Or.inl (List.mem_cons_of_mem call member)
    cases move with
    | fetch => exact quiet reported (fun _ member => Or.inl member) same
    | @arrive id fetching resumable takes =>
        refine quiet reported ?_ same
        intro call member
        rcases mem_fill id member with member | fine
        · rcases List.mem_append.mp member with pad | member
          · unfold padCalls at pad
            split at pad
            · rw [List.mem_singleton.mp pad]
              exact Or.inr rfl
            · exact nomatch pad
          · rcases List.mem_cons.mp member with rfl | member
            · exact Or.inr rfl
            · exact Or.inl member
        · exact Or.inr fine
    | @pad id rest calls short takes =>
        refine quiet reported ?_ same
        intro call member
        rcases mem_fill id member with member | fine
        · rcases List.mem_cons.mp member with rfl | member
          · exact Or.inr rfl
          · exact tail calls call member
        · exact Or.inr fine
    | padEnd calls => exact quiet reported (tail calls) same
    | queue calls => exact quiet reported (tail calls) same
    | idle calls => exact quiet reported (tail calls) same
    | checkQueue calls => exact quiet reported (tail calls) same
    | progress calls => exact quiet reported (tail calls) (one rfl)
    | compressed =>
        refine quiet reported ?_ same
        intro call member
        rw [List.mem_singleton.mp member]
        exact Or.inr rfl
    | compressFailed quiet holds compressing =>
        refine Or.inr (Or.inl (.stuck _ holds.1 holds.lt_last (Or.inl ?_)))
        exact Pipeline.setStage_stage_self
    | refuse turn batch =>
        have positive := batch.positive
        have live := batch.live
        refine Or.inr (Or.inl
          (.stuck course.first (Nat.le_refl _) ?_ (Or.inr ?_)))
        · exact (Nat.lt_add_of_pos_right positive).trans_le live
        · exact Pipeline.mark_stage_of_lt
            (Nat.lt_add_of_pos_right positive)
    | measure turn batch =>
        obtain ⟨call, calls, _⟩ := turn.calls
        refine (flushed_calls _ _).elim (fun kept => ?_)
          (fun told => Or.inr (Or.inr told))
        refine quiet reported ?_ ?_
        · intro other member
          rw [kept] at member
          rcases List.mem_cons.mp member with rfl | member
          · exact Or.inr rfl
          · rcases List.mem_cons.mp member with rfl | member
            · exact Or.inr rfl
            · exact tail calls other member
        · rw [flushAt_notes]
          exact same
    | issue turn batch =>
        obtain ⟨call, calls, _⟩ := turn.calls
        refine (flushed_calls _ _).elim (fun kept => ?_)
          (fun told => Or.inr (Or.inr told))
        refine quiet reported ?_ ?_
        · rw [kept]
          exact tail calls
        · rw [flushAt_notes]
          exact same
    | stall turn batch =>
        obtain ⟨call, calls, _⟩ := turn.calls
        refine (flushed_calls _ _).elim (fun kept => ?_)
          (fun told => Or.inr (Or.inr told))
        refine quiet reported ?_ ?_
        · rw [kept]
          exact tail calls
        · rw [flushAt_notes]
          exact same
    | complete calls =>
        refine quiet reported ?_ same
        intro other member
        rcases List.mem_append.mp member with done | member
        · exact Or.inr (isFailure_finishCalls done)
        · exact tail calls other member
    | @finish success reason rest calls =>
        cases success with
        | true => exact quiet reported (tail calls) (one rfl)
        | false =>
            refine absurd (Or.inl ⟨reason, ?_⟩) earlier
            rw [calls]
            exact List.mem_cons_self
    | dataWritten =>
        refine quiet reported ?_ (one rfl)
        intro other member
        rcases List.mem_cons.mp member with rfl | member
        · exact Or.inr rfl
        · rw [List.mem_singleton.mp member]
          exact Or.inr rfl
    | dataFailed quiet writes positive live =>
        have srcPos := (sound.front.of_writes positive live writes).1
        refine Or.inr (Or.inl (.stopped course.first srcPos ?_))
        exact Nat.lt_add_of_pos_right positive
    | indexWritten =>
        refine quiet reported ?_ (one rfl)
        intro other member
        exact Or.inr (isFailure_finishCalls member)
    | indexFailed quiet writes =>
        obtain ⟨ready, unwritten, _⟩ := sound.indexed.of_writes writes
        exact Or.inr (Or.inl (.unwritten ready rfl unwritten))

/-- A doomed course does not end with success. -/
theorem Doomed.not_done
    (sound : Sound archive course) (doomed : Doomed archive course) :
    (course.indexWritten && course.dataWritten) = false := by
  cases done : course.dataWritten with
  | false => exact Bool.and_false _
  | true =>
      have ends := sound.counted.ends
      rw [done] at ends
      have passed : (archive.srcSize : Int) ≤ course.srcPos := by
        by_contra before
        rw [if_neg before] at ends
        exact nomatch ends
      obtain ⟨first, last, _, _, _⟩ :=
        sound.front.ended sound.fed.toFilled passed
      cases doomed with
      | stuck block above below =>
          omega
      | stopped block srcPos before =>
          rw [srcPos, srcSize_le_iff] at passed
          omega
      | unwritten _ _ unwritten => rw [unwritten, Bool.false_and]

end Course

end Maxcso
