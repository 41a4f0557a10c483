import Maxcso.Writer.Outcomes

/-!
# Success after a failure

`WriteDAXIndex` goes on after it has reported frames that are too long.  When
nothing else fails, success is reported after that failure.
-/

namespace Maxcso

open Transition

namespace Course

variable {archive : Archive} {may : Writer.Completions} {course : Course}

/-- A failure is reported before any success. -/
def FailsFirst (notes : List WriterNote) : Prop :=
  ∃ before after reason written,
    notes = before ++ .finished false reason written :: after ∧
      ∀ note ∈ before, isSuccessNote note = false

theorem FailsFirst.append {notes : List WriterNote} (fails : FailsFirst notes)
    (added : List WriterNote) : FailsFirst (notes ++ added) := by
  obtain ⟨before, after, reason, written, rfl, none⟩ := fails
  refine ⟨before, after ++ added, reason, written, ?_, none⟩
  rw [List.append_assoc, List.cons_append]

/-- A failure is about to be noted, before any success. -/
def FailsNext (course : Course) : Prop :=
  (∃ reason rest, course.calls = .output (.finish false reason) :: rest) ∧
    ∀ note ∈ course.notes, isSuccessNote note = false

/-- Once the index is there a failure comes first. -/
def Told (course : Course) : Prop :=
  course.indexReady = true → FailsFirst course.notes ∨ course.FailsNext

/-- Until the index is there success is not reported. -/
theorem Sound.no_success
    (sound : Sound archive course) (unready : course.indexReady = false) :
    ∀ note ∈ course.notes, isSuccessNote note = false := by
  have none : ¬ 0 < course.calls.countP isSuccess +
      course.notes.countP isSuccessNote := by
    intro some
    have ready := (sound.all_written some).2.2.2.2.2
    exact nomatch unready.symm.trans ready
  have zero : course.notes.countP isSuccessNote = 0 := by omega
  intro note member
  exact Bool.eq_false_of_not_eq_true
    (List.countP_eq_zero.mp zero note member)

/-- `Flush` leaves a failure to be reported next. -/
theorem told_flushAt
    (fails : archive.report ≠ [])
    (quiet : ∀ note ∈ course.notes, isSuccessNote note = false)
    (unready : course.indexReady = false) (write : IndexWrite)
    (gathered : Nat) :
    (course.flushAt archive write gathered).Told := by
  by_cases all : archive.blocks ≤ gathered
  · intro _
    refine Or.inr ⟨?_, ?_⟩
    · rw [flushAt_calls, if_pos all]
      unfold Archive.report at fails ⊢
      split
      · rename_i daxFile
        rw [if_pos daxFile] at fails
        unfold Archive.oversized at fails ⊢
        cases long : (List.range archive.blocks).filter fun frame =>
            2 ^ 16 ≤ archive.indexed.daxFrameLength frame with
        | nil =>
            rw [long] at fails
            exact absurd rfl fails
        | cons frame frames => exact ⟨_, _, rfl⟩
      · rename_i other
        rw [if_neg other] at fails
        exact absurd rfl fails
    · rw [flushAt_notes]
      exact quiet
  · intro ready
    rw [flushAt_eq] at ready
    dsimp only at ready
    rw [if_neg all] at ready
    exact nomatch ready.symm.trans unready

/-- A failure that has been noted stays the first one. -/
theorem Told.keep
    (told : course.Told) {next : Course}
    (ready : next.indexReady = course.indexReady)
    (notes : ∃ added, next.notes = course.notes ++ added)
    (other : ¬ course.FailsNext) : next.Told := by
  intro isReady
  obtain ⟨added, same⟩ := notes
  rcases told (ready.symm.trans isReady) with first | pending
  · exact Or.inl (same ▸ first.append added)
  · exact absurd pending other

theorem Told.move
    (fails : archive.report ≠ []) (sound : Sound archive course)
    (told : course.Told) {next : Course}
    (move : Move archive may course next) : next.Told := by
  have silent : ∀ {call : WriterCall} {rest : List WriterCall},
      course.calls = call :: rest → isFailure call = false →
        ¬ course.FailsNext := by
    rintro call rest calls fine ⟨⟨reason, others, pending⟩, _⟩
    obtain rfl := (List.cons.inj (calls.symm.trans pending)).1
    exact nomatch fine
  have empty : course.calls = [] → ¬ course.FailsNext := by
    rintro quiet ⟨⟨reason, others, pending⟩, _⟩
    exact nomatch quiet.symm.trans pending
  have running : Writer.resumable course.calls = true →
      ¬ course.FailsNext := by
    rintro resumable ⟨⟨reason, others, pending⟩, _⟩
    rw [pending] at resumable
    exact nomatch resumable
  have gathered : ∀ {rest : List WriterCall} {count : Nat}
      {other : Course} {write : IndexWrite} {reached : Nat},
      course.Turn archive rest → course.Batch archive count →
        other.notes = course.notes →
          other.indexReady = course.indexReady →
            (other.flushAt archive write reached).Told := by
    intro rest count other write reached turn batch notes ready
    have unready := sound.indexed.of_batch turn batch
    exact told_flushAt fails (notes ▸ sound.no_success unready)
      (ready.trans unready) write reached
  cases move with
  | fetch _ _ resumable =>
      exact told.keep rfl ⟨[], (List.append_nil _).symm⟩ (running resumable)
  | @arrive id _ resumable =>
      exact told.keep rfl ⟨[], (List.append_nil _).symm⟩ (running resumable)
  | pad calls | padEnd calls | queue calls | idle calls | checkQueue calls
  | complete calls =>
      exact told.keep rfl ⟨[], (List.append_nil _).symm⟩ (silent calls rfl)
  | progress calls => exact told.keep rfl ⟨_, rfl⟩ (silent calls rfl)
  | compressed quiet | compressFailed quiet =>
      exact told.keep rfl ⟨[], (List.append_nil _).symm⟩ (empty quiet)
  | dataWritten quiet | dataFailed quiet | indexWritten quiet
  | indexFailed quiet =>
      exact told.keep rfl ⟨_, rfl⟩ (empty quiet)
  | refuse turn batch =>
      intro ready
      have unready := sound.indexed.of_batch turn batch
      exact nomatch unready.symm.trans ready
  | measure turn batch | issue turn batch | stall turn batch =>
      refine gathered turn batch ?_ ?_
      all_goals rfl
  | @finish success reason rest calls =>
      cases success with
      | true => exact told.keep rfl ⟨_, rfl⟩ (silent calls rfl)
      | false =>
          intro ready
          refine Or.inl ?_
          rcases told ready with first | ⟨_, none⟩
          · exact first.append _
          · exact ⟨course.notes, [], reason, course.dstPos, rfl, none⟩

end Course

namespace Writer

/-- When frames are too long and nothing else fails, a run ends with success
after a failure. -/
theorem fails_first
    {archive : Archive} (admissible : archive.Admissible)
    (chosen : archive.fmt = CompressionTask.format archive.flags)
    (passes : archive.IndexPasses) (fails : archive.report ≠ [])
    {pool : BufferPool} (room : archive.blockSize ≤ pool.bufferSize)
    {events : List WriterEvent} {writer : Writer}
    (run : Run archive.toWriterConfig archive.env archive.image .full
      (start archive.env archive.toWriterConfig pool) events writer)
    (done : writer.Done) :
    Course.FailsFirst writer.notes ∧
      0 < writer.notes.countP Course.isSuccessNote := by
  have initially : OnCourse archive Course.Told
      (start archive.env archive.toWriterConfig pool) :=
    @onCourse_start archive Course.Told nofun pool room
  obtain ⟨_, _, _, told, quiet, _⟩ :=
    (initially.run (fun _ _ sound before move =>
      before.move fails sound move) run).quiet done.idle
  have onCourse :=
    onCourse_succeeding admissible passes (Archive.leads chosen) room run
  obtain ⟨pipeline, filled, sound, succeeding, quiet', source⟩ :=
    onCourse.quiet done.idle
  have complete := succeeding.toFaultless.complete sound quiet' source
  refine ⟨(told complete.2.1).resolve_right ?_, ?_⟩
  · rintro ⟨⟨reason, rest, pending⟩, _⟩
    exact nomatch quiet.calls.symm.trans pending
  · rw [← length_successNotes, (onCourse.succeeded done).1]
    exact Nat.one_pos

end Writer

end Maxcso
