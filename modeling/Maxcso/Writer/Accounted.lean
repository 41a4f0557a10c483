import Maxcso.Writer.Finality
import Maxcso.Writer.Outcomes

/-!
# Nothing is lost without a report

Whatever completions return, a run that reports no failure loses nothing: when
nothing is in flight any more it has reported success, and the file is
complete.
-/

namespace Maxcso

/-- A compressor that succeeds returns something. -/
def Environment.Yields (env : Environment) : Prop :=
  ∀ pos block, ∀ trial ∈ env.trials pos block, trial.data ≠ []

/-- Something is kept of every block. -/
theorem Archive.stored_ne_nil
    {archive : Archive} (yields : archive.env.Yields) {block : Nat}
    (inside : block < archive.blocks) : (archive.stored block).2 ≠ [] := by
  have bounds := archive.blockSize_bounds
  have content : archive.content block ≠ [] := by
    rw [← List.length_pos_iff, length_content inside]
    omega
  unfold stored
  split
  · exact content
  · rcases Sector.result_cases archive.env archive.template
      (block * archive.blockSize : Nat) (archive.content block) with
      same | ⟨trial, member, same, _⟩
    · rw [same]
      exact content
    · rw [same]
      exact yields _ _ trial member

namespace Course

variable {archive : Archive} {may : Writer.Completions} {course : Course}

/-! ## The callback for progress -/

def isProgress : WriterCall → Bool
  | .output (.progress ..) => true
  | _ => false

/-- The rest of `HandleWrittenSectors` follows its callback for progress. -/
inductive Paired : List WriterCall → Prop
  | nil : Paired []
  | progress {pos total written nextPos : Int} {rest : List WriterCall}
      (paired : Paired rest) :
      Paired (.output (.progress pos total written) ::
        .output (.afterProgress nextPos) :: rest)
  | other {call : WriterCall} {rest : List WriterCall}
      (plain : isProgress call = false) (paired : Paired rest) :
      Paired (call :: rest)

theorem Paired.tail {call : WriterCall} {rest : List WriterCall}
    (paired : Paired (call :: rest)) : Paired rest := by
  cases paired with
  | progress paired => exact .other rfl paired
  | other plain paired => exact paired

theorem Paired.pop {call : WriterCall} {rest : List WriterCall}
    (paired : Paired course.calls) (calls : course.calls = call :: rest) :
    Paired rest := by
  rw [calls] at paired
  exact paired.tail

theorem Paired.append {calls rest : List WriterCall}
    (plain : ∀ call ∈ calls, isProgress call = false)
    (paired : Paired rest) : Paired (calls ++ rest) := by
  induction calls with
  | nil => exact paired
  | cons call calls inductionHypothesis =>
      refine .other (plain call List.mem_cons_self) ?_
      apply inductionHypothesis
      intro other member
      exact plain other (List.mem_cons_of_mem call member)

/-- What follows the callback. -/
theorem Paired.follows {pos total written : Int} {rest : List WriterCall}
    (paired : Paired (.output (.progress pos total written) :: rest)) :
    ∃ nextPos others,
      rest = .output (.afterProgress nextPos) :: others := by
  cases paired with
  | progress paired => exact ⟨_, _, rfl⟩
  | other plain paired => cases plain

theorem isProgress_of_isFinish {call : WriterCall}
    (finishes : isFinish call = true) : isProgress call = false := by
  cases call with
  | checkQueue => rfl
  | output call =>
      cases call with
      | progress => cases finishes
      | _ => rfl

theorem Paired.flushAt (paired : Paired course.calls) (write : IndexWrite)
    (gathered : Nat) :
    Paired (course.flushAt archive write gathered).calls := by
  rw [flushAt_calls]
  refine .append ?_ paired
  intro call member
  split at member
  · exact isProgress_of_isFinish (isFinish_report member)
  · cases member

theorem Paired.fill (paired : Paired course.calls) (id : SectorId) :
    Paired (course.fill archive id).calls := by
  rw [fill_calls]
  split
  · exact .other rfl paired
  · exact paired

theorem Paired.finish (paired : Paired course.calls) (done : Bool) :
    Paired (finishCalls done ++ course.calls) := by
  cases done with
  | false => exact paired
  | true => exact .other rfl paired

theorem Paired.move (paired : Paired course.calls) {next : Course}
    (move : Move archive may course next) : Paired next.calls := by
  cases move with
  | fetch => exact paired
  | @arrive id =>
      apply Paired.fill
      refine .append ?_ (.other rfl paired)
      intro call member
      unfold padCalls at member
      split at member
      · rw [List.mem_singleton.mp member]
        rfl
      · cases member
  | pad calls =>
      apply Paired.fill
      exact .other rfl (paired.pop calls)
  | padEnd calls | queue calls | idle calls | progress calls
  | finish calls | checkQueue calls => exact paired.pop calls
  | complete calls =>
      cases course.indexWritten with
      | false => exact paired.pop calls
      | true => exact .other rfl (paired.pop calls)
  | compressed | compressFailed | dataFailed | indexFailed =>
      exact .other rfl .nil
  | indexWritten =>
      cases course.dataWritten with
      | false => exact .nil
      | true => exact .other rfl .nil
  | refuse turn =>
      obtain ⟨call, calls, _⟩ := turn.calls
      exact .other rfl (paired.pop calls)
  | measure turn =>
      obtain ⟨call, calls, _⟩ := turn.calls
      apply Paired.flushAt
      exact .progress (paired.pop calls)
  | issue turn | stall turn =>
      obtain ⟨call, calls, _⟩ := turn.calls
      apply Paired.flushAt
      exact paired.pop calls
  | dataWritten => exact .progress .nil

/-! ## Accounts -/

/-- Unless a failure has been reported nothing has been lost. -/
structure Accounted (archive : Archive) (course : Course) : Prop where
  paired : Paired course.calls
  approved : Approved archive course
  steady : ¬ course.Reported → Steady archive course
  filed : ¬ course.Reported → archive.noFile = false →
    ∃ head, Filed archive course head

theorem accounted_start : Accounted archive (start archive) :=
  ⟨.nil, approved_start, fun _ => steady_start,
    fun _ _ => ⟨[], filed_start⟩⟩

theorem Accounted.move
    (yields : archive.env.Yields)
    (leads : archive.Leads) (sound : Sound archive course)
    (accounted : Accounted archive course) {next : Course}
    (move : Move archive may course next) :
    Accounted archive next := by
  have earlier : ¬ next.Reported → ¬ course.Reported :=
    fun unreported reported => unreported (reported.move move)
  refine ⟨accounted.paired.move move, accounted.approved.move sound move, ?_,
    ?_⟩
  · intro unreported
    have steady := accounted.steady (earlier unreported)
    refine (steady.carry sound move).resolve_right fun mishap => ?_
    exact unreported (mishap.reported fun _ => Archive.stored_ne_nil yields)
  · intro unreported hasFile
    obtain ⟨head, filed⟩ := accounted.filed (earlier unreported) hasFile
    exact filed.carry hasFile leads sound
      (fun reported => absurd reported unreported) move

/-- All blocks have been written only when all sectors have been passed on. -/
theorem Fed.ended_of_first
    (fed : Fed archive course) (first : course.first = archive.blocks) :
    course.nextPos = archive.sourceSize := by
  by_contra more
  have before := lt_of_le_of_ne fed.nextPos_le more
  have filled := fed.filled_eq before
  have written := fed.first_le
  have whole := archive.sourceSize_le_blocks
  rw [first, filled] at written
  omega

/-- A run that is over and has reported no failure has done everything. -/
theorem Accounted.complete
    (accounted : Accounted archive course) (sound : Sound archive course)
    (unreported : ¬ course.Reported) (quiet : course.Quiet)
    (source : course.paused = true ∨ archive.srcSize ≤ course.nextPos) :
    course.first = archive.blocks ∧ course.indexReady = true ∧
      course.notes.countP isSuccessNote = 1 := by
  have faultless : Faultless archive course :=
    ⟨accounted.steady unreported, fun reported => absurd reported unreported⟩
  obtain ⟨first, ready, indexWritten, dataWritten⟩ :=
    faultless.complete sound quiet source
  refine ⟨first, ready, ?_⟩
  have counted := sound.counted.successes
  rwa [quiet.calls, indexWritten, dataWritten, List.countP_nil,
    Nat.zero_add] at counted

end Course

namespace Writer

variable {archive : Archive} {writer : Writer}

/-- A writer that has nothing left to do has reported how it ended. -/
theorem OnCourse.accounts
    (onCourse : OnCourse archive (Course.Accounted archive) writer)
    (idle : writer.Idle)
    (unfailed : ∀ reason written,
      .finished false reason written ∉ writer.notes) :
    writer.notes.countP Course.isSuccessNote = 1 ∧
      writer.nextPos = archive.sourceSize ∧ archive.Vetted ∧
      (archive.noFile = false → ∃ head, Finished archive writer head) := by
  obtain ⟨pipeline, filled, sound, accounted, quiet, source⟩ :=
    onCourse.quiet idle
  have unreported : ¬ (writer.course pipeline filled).Reported := by
    intro reported
    rcases reported with ⟨reason, member⟩ | ⟨reason, written, member⟩
    · rw [quiet.calls] at member
      cases member
    · exact unfailed reason written member
  obtain ⟨first, ready, once⟩ :=
    accounted.complete sound unreported quiet source
  refine ⟨once, sound.fed.ended_of_first first,
    accounted.approved.ready ready, ?_⟩
  intro hasFile
  obtain ⟨head, filed⟩ := accounted.filed unreported hasFile
  exact ⟨head, finished_of_filed filed first ready quiet⟩

end Writer

end Maxcso
