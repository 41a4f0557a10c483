import Maxcso.Writer.Work

/-!
# Runs come to an end

A run has only so many steps, and goes on until nothing is outstanding.
-/

namespace Maxcso

open Transition

namespace Writer

/-- Other holders of the pool use it. -/
def isOther : WriterEvent → Bool
  | .otherPool _ => true
  | _ => false

/-- Every completion has a result that it may have. -/
structure Completions.Possible (may : Completions) : Prop where
  compressed : ∃ status, may.compressed status
  dataWritten : ∀ write, ∃ result, may.dataWritten write result
  indexWritten : ∀ write, ∃ result, may.indexWritten write result

theorem Completions.possible_full : Completions.full.Possible :=
  ⟨⟨0, Int.le_refl 0⟩, fun _ => ⟨_, rfl⟩, fun _ => ⟨_, rfl⟩⟩

section

variable {archive : Archive} {may : Completions}
variable {property : Course → Prop} {writer : Writer}

/-- A step leaves less to do. -/
theorem OnCourse.step_lt
    (preserved : ∀ course next, Course.Sound archive course →
      property course → Course.Move archive may course next → property next)
    {pipeline : BlockPipeline} {filled : Nat}
    (follows : Follows archive pipeline filled writer)
    (sound : Course.Sound archive (writer.course pipeline filled))
    (holds : property (writer.course pipeline filled))
    {event : WriterEvent} {next : Writer}
    (own : isOther event = false)
    (allowed : Allowed archive.toWriterConfig archive.image may writer event)
    (taken : writer.step archive.env event = some next) :
    ∃ pipeline' filled', Follows archive pipeline' filled' next ∧
      Course.Sound archive (next.course pipeline' filled') ∧
      property (next.course pipeline' filled') ∧
      (next.course pipeline' filled').work archive <
        (writer.course pipeline filled).work archive := by
  obtain ⟨pipeline', filled', move, follows'⟩ :=
    follows.step sound allowed taken (by
      rintro pool rfl
      exact nomatch own)
  exact ⟨pipeline', filled', follows', sound.move move,
    preserved _ _ sound holds move, Course.work_lt sound move⟩

/-- A goal is reached when there is always a step towards it. -/
theorem OnCourse.reaches
    (preserved : ∀ course next, Course.Sound archive course →
      property course → Course.Move archive may course next → property next)
    {goal : Writer → Prop} {kind : WriterEvent → Prop}
    (own : ∀ event, kind event → isOther event = false)
    (able : ∀ writer, OnCourse archive property writer → ¬ goal writer →
      ∃ event next, kind event ∧
        Allowed archive.toWriterConfig archive.image may writer event ∧
        writer.step archive.env event = some next)
    (onCourse : OnCourse archive property writer) :
    ∃ events last, Run archive.toWriterConfig archive.env archive.image may
        writer events last ∧
      (∀ event ∈ events, kind event) ∧ goal last := by
  obtain ⟨pipeline, filled, follows, sound, holds⟩ := onCourse
  generalize left : (writer.course pipeline filled).work archive = work
  induction work using Nat.strongRecOn generalizing
      writer pipeline filled with
  | ind work inductionHypothesis =>
      by_cases done : goal writer
      · refine ⟨[], writer, Execution.nil writer, ?_, done⟩
        intro event member
        exact nomatch member
      · obtain ⟨event, next, chosen, allowed, taken⟩ :=
          able writer ⟨pipeline, filled, follows, sound, holds⟩ done
        obtain ⟨pipeline', filled', follows', sound', holds', less⟩ :=
          OnCourse.step_lt preserved follows sound holds
            (own event chosen) allowed taken
        obtain ⟨events, last, run, kinds, reached⟩ :=
          inductionHypothesis _ (less.trans_eq left) pipeline' filled'
            follows' sound' holds' rfl
        refine ⟨[event] ++ events, last,
          (Execution.single allowed taken).append run, ?_, reached⟩
        intro other member
        rcases List.mem_append.mp member with same | later
        · rw [List.mem_singleton.mp same]
          exact chosen
        · exact kinds other later

/-- What is running goes on to run. -/
theorem can_run (calls : writer.calls ≠ []) :
    ∃ next, writer.step archive.env .run = some next := by
  obtain ⟨call, rest, running⟩ := List.exists_cons_of_ne_nil calls
  unfold step
  rw [running]
  exact ⟨_, rfl⟩

/-- A compression in flight completes with any status. -/
theorem can_compress (calls : writer.calls = [])
    (jobs : writer.output.jobs ≠ []) (status : Int) :
    ∃ next, writer.step archive.env (.compressed 0 status) = some next := by
  obtain ⟨job, rest, queued⟩ := List.exists_cons_of_ne_nil jobs
  unfold step
  rw [calls, queued]
  exact ⟨_, rfl⟩

theorem can_write (calls : writer.calls = [])
    (writes : writer.output.dataWrites ≠ []) (result : Int) :
    ∃ next, writer.step archive.env (.dataWritten 0 result) = some next := by
  obtain ⟨write, rest, issued⟩ := List.exists_cons_of_ne_nil writes
  unfold step
  rw [calls, issued]
  exact ⟨_, rfl⟩

theorem can_writeIndex (calls : writer.calls = [])
    (writes : writer.output.indexWrites ≠ []) (result : Int) :
    ∃ next, writer.step archive.env (.indexWritten 0 result) = some next := by
  obtain ⟨write, rest, issued⟩ := List.exists_cons_of_ne_nil writes
  unfold step
  rw [calls, issued]
  exact ⟨_, rfl⟩

/-- A source that has gone on passes on its sector. -/
theorem can_enqueue
    {pipeline : BlockPipeline} {filled : Nat}
    (sound : Course.Sound archive (writer.course pipeline filled))
    (calls : writer.calls = []) (fetching : writer.fetching = true) :
    ∃ buffer next,
      Allowed archive.toWriterConfig archive.image may writer
          (.enqueue buffer) ∧
        writer.step archive.env (.enqueue buffer) = some next := by
  have fits : writer.nextPos + sectorSize ≤ archive.sourceSize :=
    (sound.fed.room fetching).2
  have length : (FileBytes.pread archive.image writer.nextPos
      sectorSize).length = sectorSize := by
    apply FileBytes.length_pread_of_le
    rwa [archive.length]
  have content := FlatMemory.read_write_self (fun _ => (0 : UInt8)) 0
    (FileBytes.pread archive.image writer.nextPos sectorSize)
  rw [length] at content
  have able : writer.fetching = true ∧ resumable writer.calls = true := by
    rw [calls]
    exact ⟨fetching, rfl⟩
  exact ⟨⟨0, sectorSize, _⟩, _, content, if_pos able⟩

/-- A run that is not done goes on. -/
theorem can_step (possible : may.Possible)
    {property : Course → Prop} (onCourse : OnCourse archive property writer)
    (undone : ¬ writer.Done) :
    ∃ event next, isOther event = false ∧
      Allowed archive.toWriterConfig archive.image may writer event ∧
      writer.step archive.env event = some next := by
  obtain ⟨pipeline, filled, follows, sound, _⟩ := onCourse
  by_cases calls : writer.calls = []
  · by_cases jobs : writer.output.jobs = []
    · by_cases data : writer.output.dataWrites = []
      · by_cases index : writer.output.indexWrites = []
        · cases fetching : writer.fetching with
          | true =>
              obtain ⟨buffer, next, allowed, taken⟩ :=
                @can_enqueue archive may writer pipeline filled sound calls
                  fetching
              exact ⟨_, next, rfl, allowed, taken⟩
          | false =>
              refine ⟨.fetch, { writer with fetching := true }, rfl, trivial,
                if_pos ⟨fetching, ?_, ?_, ?_⟩⟩
              · by_contra paused
                exact undone ⟨calls, jobs, data, index, fetching,
                  Or.inl (eq_true_of_ne_false paused)⟩
              · rw [calls]
                rfl
              · by_contra ended
                exact undone ⟨calls, jobs, data, index, fetching,
                  Or.inr (Int.not_lt.mp ended)⟩
        · obtain ⟨write, rest, issued⟩ := List.exists_cons_of_ne_nil index
          obtain ⟨result, given⟩ := possible.indexWritten write
          obtain ⟨next, taken⟩ := can_writeIndex calls index result
          refine ⟨.indexWritten 0 result, next, rfl, ?_, taken⟩
          intro other found
          rw [issued] at found
          exact Option.some.inj found ▸ given
      · obtain ⟨write, rest, issued⟩ := List.exists_cons_of_ne_nil data
        obtain ⟨result, given⟩ := possible.dataWritten write
        obtain ⟨next, taken⟩ := can_write calls data result
        refine ⟨.dataWritten 0 result, next, rfl, ?_, taken⟩
        intro other found
        rw [issued] at found
        exact Option.some.inj found ▸ given
    · obtain ⟨status, given⟩ := possible.compressed
      obtain ⟨next, taken⟩ := can_compress calls jobs status
      exact ⟨.compressed 0 status, next, rfl, given, taken⟩
  · obtain ⟨next, taken⟩ := @can_run archive writer calls
    exact ⟨.run, next, rfl, trivial, taken⟩

/-- Every run can be completed. -/
theorem OnCourse.completes
    (preserved : ∀ course next, Course.Sound archive course →
      property course → Course.Move archive may course next → property next)
    (possible : may.Possible) (onCourse : OnCourse archive property writer) :
    ∃ events last, Run archive.toWriterConfig archive.env archive.image may
        writer events last ∧ last.Done := by
  obtain ⟨events, last, run, _, done⟩ :=
    onCourse.reaches preserved (fun event own => (own : isOther event = false))
      (fun _ => can_step possible)
  exact ⟨events, last, run, done⟩

/-- The compressions in flight complete, whatever else has failed. -/
theorem OnCourse.drains
    (preserved : ∀ course next, Course.Sound archive course →
      property course → Course.Move archive may course next → property next)
    {status : Int} (given : may.compressed status)
    (onCourse : OnCourse archive property writer) :
    ∃ events last, Run archive.toWriterConfig archive.env archive.image may
        writer events last ∧
      (∀ event ∈ events, event = .run ∨ event = .compressed 0 status) ∧
      last.calls = [] ∧ last.output.jobs = [] := by
  refine onCourse.reaches preserved ?_ ?_
  · rintro event (rfl | rfl)
    · rfl
    · rfl
  · intro writer _ left
    by_cases calls : writer.calls = []
    · have jobs : writer.output.jobs ≠ [] :=
        fun none => left ⟨calls, none⟩
      obtain ⟨next, taken⟩ := can_compress calls jobs status
      exact ⟨_, next, Or.inr rfl, given, taken⟩
    · obtain ⟨next, taken⟩ := can_run calls
      exact ⟨_, next, Or.inl rfl, trivial, taken⟩

/-- Every step of its own leaves a run less to do. -/
theorem Follows.spends
    {pipeline : BlockPipeline} {filled : Nat}
    (follows : Follows archive pipeline filled writer)
    (sound : Course.Sound archive (writer.course pipeline filled))
    {events : List WriterEvent} {last : Writer}
    (run : Run archive.toWriterConfig archive.env archive.image may writer
      events last) :
    ∃ pipeline' filled', Follows archive pipeline' filled' last ∧
      Course.Sound archive (last.course pipeline' filled') ∧
      events.countP (!isOther ·) +
          (last.course pipeline' filled').work archive ≤
        (writer.course pipeline filled).work archive := by
  induction run with
  | nil =>
      exact ⟨pipeline, filled, follows, sound, Nat.le_of_eq (Nat.zero_add _)⟩
  | @snoc middle target events event _ allowed taken inductionHypothesis =>
      obtain ⟨pipeline', filled', follows', sound', less⟩ :=
        inductionHypothesis
      rw [List.countP_append, List.countP_singleton]
      cases own : isOther event with
      | true =>
          cases event with
          | otherPool pool =>
              obtain rfl := Option.some.inj taken
              refine ⟨pipeline', filled', follows'.otherPool allowed,
                sound', ?_⟩
              exact less
          | _ => cases own
      | false =>
          obtain ⟨pipeline'', filled'', follows'', sound'', _, fewer⟩ :=
            @OnCourse.step_lt archive may (fun _ => True) middle
              (fun _ _ _ _ _ => trivial) _ _ follows' sound' trivial _ _
              own allowed taken
          refine ⟨pipeline'', filled'', follows'', sound'', ?_⟩
          simp only [Bool.not_false, if_true]
          omega

theorem work_start : (Course.start archive).work archive =
    10 * archive.paddedSize + archive.blocks + 4 := by
  have empty : (Pipeline.empty BlockStage.filling :
      BlockPipeline).work Course.cost = 0 := rfl
  show 10 * (archive.paddedSize - 0) + 1 +
      (Pipeline.empty BlockStage.filling : BlockPipeline).work Course.cost +
        0 + 4 * 0 + 2 * 0 + (archive.blocks + 3) = _
  rw [empty]
  omega

/-- A run has only so many steps of its own. -/
theorem bounded {pool : BufferPool}
    (room : archive.blockSize ≤ pool.bufferSize)
    {events : List WriterEvent}
    (run : Run archive.toWriterConfig archive.env archive.image may
      (start archive.env archive.toWriterConfig pool) events writer) :
    events.countP (!isOther ·) ≤
      10 * archive.paddedSize + archive.blocks + 4 := by
  have sound : Course.Sound archive ((start archive.env
      archive.toWriterConfig pool).course (.empty .filling) 0) := by
    rw [course_start]
    exact Course.sound_start archive
  obtain ⟨pipeline, filled, _, _, spent⟩ :=
    (follows_start room).spends sound run
  rw [course_start, work_start] at spent
  omega

end

end Writer

end Maxcso
