import Maxcso.Sector.Lending
import Maxcso.Writer.Accounted

/-!
# Why blocks get stuck

A block that gets stuck has its reason: its compression has failed, or
`UpdateIndex` has refused the format that a block is kept in.  The writer
passes the reason on.
-/

namespace Maxcso

namespace Course

variable {archive : Archive} {may : Writer.Completions} {course : Course}

/-- What is reported of a block that cannot be compressed. -/
def uncompressed : String := "Failed to compress sector"

/-- What `UpdateIndex` reports. -/
def Refuses (archive : Archive) (reason : String) : Prop :=
  ∃ format, Output.refusal archive.fmt format = some reason

theorem refuses_of_failure {first count : Nat} {reason : String}
    (failure : archive.failure first count = some reason) :
    Refuses archive reason := by
  obtain ⟨block, _, refused⟩ := List.exists_of_findSome?_eq_some failure
  exact ⟨_, refused⟩

/-! ## Blocks -/

/-- What a block of the next course was before, unless it has got stuck. -/
def Kept (archive : Archive) (course next : Course) (block : Nat) : Prop :=
  (course.first ≤ block ∧ block < course.last ∧
      course.pipeline.stage block = next.pipeline.stage block) ∨
    (next.pipeline.stage block = .failed ∧ next.Tells uncompressed) ∨
    (next.pipeline.stage block = .lost ∧
      ∃ reason, Refuses archive reason ∧ next.Tells reason)

theorem kept_fill (filled : Filled archive course) (id : SectorId)
    {block : Nat} (above : course.first ≤ block)
    (below : block < (course.fill archive id).last)
    (stuck : Stuck (course.fill archive id).pipeline block) :
    course.first ≤ block ∧ block < course.last ∧
      course.pipeline.stage block =
        (course.fill archive id).pipeline.stage block := by
  have last := filled.fill_last id
  have newest := filled.block_le_last
  have different : block ≠ course.block archive := by
    intro same
    rw [same] at stuck
    unfold Stuck at stuck
    rw [fill_stage_self] at stuck
    unfold Archive.stageAt at stuck
    split at stuck
    · simp at stuck
    · split at stuck
      · simp at stuck
      · simp at stuck
  refine ⟨above, by omega, ?_⟩
  rw [filled.fill_stage_of_ne id different]

/-- A block gets stuck for a reason. -/
theorem kept_move (yields : archive.env.Yields) (sound : Sound archive course)
    {next : Course} (move : Move archive may course next) {block : Nat}
    (above : next.first ≤ block) (below : block < next.last)
    (stuck : Stuck next.pipeline block) : Kept archive course next block := by
  have set : ∀ {other : Nat} {stage : BlockStage},
      stage ≠ .failed ∧ stage ≠ .lost →
        Stuck (course.pipeline.setStage other stage) block →
          course.pipeline.stage block =
            (course.pipeline.setStage other stage).stage block := by
    intro other stage fine stuck
    by_cases same : block = other
    · subst same
      unfold Stuck at stuck
      rw [Pipeline.setStage_stage_self] at stuck
      exact absurd stuck (not_or.mpr fine)
    · rw [Pipeline.setStage_stage_of_ne same]
  have retire : ∀ {count : Nat} {other : Course},
      course.first + count ≤ course.last →
        other.pipeline = course.pipeline.retire count →
          other.first ≤ block → block < other.last →
            Kept archive course other block := by
    intro count other live pipeline above below
    obtain ⟨first, last⟩ := bounds_of_retire live pipeline
    rw [first] at above
    rw [last] at below
    refine Or.inl ⟨by omega, below, ?_⟩
    rw [pipeline]
    rfl
  cases move with
  | @arrive id fetching resumable takes =>
      rw [arrive, fill_first] at above
      exact Or.inl (kept_fill sound.fed.toFilled id above below stuck)
  | @pad id rest calls short takes =>
      rw [fill_first] at above
      exact Or.inl (kept_fill sound.fed.toFilled id above below stuck)
  | compressed | queue =>
      exact Or.inl ⟨above, below, set (by simp) stuck⟩
  | @compressFailed id failed status quiet holds compressing =>
      by_cases same : block = failed
      · subst same
        refine Or.inr (Or.inl ⟨?_, Or.inl List.mem_cons_self⟩)
        exact Pipeline.setStage_stage_self
      · refine Or.inl ⟨above, below, ?_⟩
        rw [Pipeline.setStage_stage_of_ne same]
  | @refuse rest count reason turn batch refused =>
      by_cases inside : block < course.first + count
      · refine Or.inr (Or.inr ⟨Pipeline.mark_stage_of_lt inside, reason,
          refuses_of_failure refused, Or.inl List.mem_cons_self⟩)
      · refine Or.inl ⟨above, below, ?_⟩
        rw [Pipeline.mark_stage_of_le (Nat.not_lt.mp inside)]
  | measure turn batch =>
      exact retire batch.live (flushAt_pipeline _ _) above below
  | @issue rest count write turn batch =>
      rw [Course.first, flushAt_pipeline] at above
      rw [Course.last, flushAt_pipeline] at below
      rw [flushAt_pipeline] at stuck
      by_cases inside : block < course.first + count
      · unfold Stuck at stuck
        rw [Pipeline.mark_stage_of_lt inside] at stuck
        simp at stuck
      · refine Or.inl ⟨above, below, ?_⟩
        rw [flushAt_pipeline]
        rw [Pipeline.mark_stage_of_le (Nat.not_lt.mp inside)]
  | stall turn batch _ _ nothing =>
      have inside := batch.live.trans sound.fed.last_le
      exact absurd nothing (body_ne_nil
        (fun _ => Archive.stored_ne_nil yields) batch.positive inside)
  | dataWritten _ _ _ live =>
      exact retire live rfl above below
  | dataFailed _ _ _ live =>
      exact retire live rfl above below
  | _ => exact Or.inl ⟨above, below, rfl⟩

/-! ## Reasons -/

/-- The reasons that a course gives for a failure. -/
def Given (archive : Archive) (reason : String) : Prop :=
  Refuses archive reason ∨ reason = uncompressed ∨
    reason = "Compressed sector larger than 16 bits" ∨
    reason = "Data could not be written to output file" ∨
    reason = "Unable to write header data"

theorem given_report {reason : String}
    (member : .output (.finish false reason) ∈ archive.report) :
    Given archive reason := by
  unfold Archive.report at member
  split at member
  · obtain ⟨call, inside, same⟩ := List.mem_map.mp member
    obtain ⟨_, _, told⟩ := List.mem_map.mp inside
    rw [← told] at same
    cases same
    exact Or.inr (Or.inr (Or.inl rfl))
  · cases member

/-- Every call that reports a failure is an old one or gives a reason. -/
theorem given_calls {next : Course} (move : Move archive may course next)
    {reason : String}
    (member : .output (.finish false reason) ∈ next.calls) :
    .output (.finish false reason) ∈ course.calls ∨ Given archive reason := by
  have tail : ∀ {call : WriterCall} {rest : List WriterCall},
      course.calls = call :: rest →
        .output (.finish false reason) ∈ rest →
          .output (.finish false reason) ∈ course.calls := by
    intro call rest calls member
    rw [calls]
    exact List.mem_cons_of_mem call member
  have fine : ∀ {calls : List WriterCall},
      (∀ call ∈ calls, isFailure call = false) →
        .output (.finish false reason) ∉ calls := by
    intro calls fine member
    have failing := fine _ member
    cases failing
  have flushed : ∀ {other : Course} (write : IndexWrite) (gathered : Nat),
      .output (.finish false reason) ∈
          (other.flushAt archive write gathered).calls →
        .output (.finish false reason) ∈ other.calls ∨
          Given archive reason := by
    intro other write gathered member
    rw [flushAt_calls] at member
    rcases List.mem_append.mp member with report | before
    · split at report
      · exact Or.inr (given_report report)
      · cases report
    · exact Or.inl before
  cases move with
  | fetch => exact Or.inl member
  | @arrive id fetching resumable takes =>
      left
      rcases mem_fill id member with member | fine
      · rcases List.mem_append.mp member with pad | member
        · unfold padCalls at pad
          split at pad
          · cases List.mem_singleton.mp pad
          · cases pad
        · rcases List.mem_cons.mp member with same | member
          · cases same
          · exact member
      · cases fine
  | @pad id rest calls short takes =>
      left
      rcases mem_fill id member with member | fine
      · rcases List.mem_cons.mp member with same | member
        · cases same
        · exact tail calls member
      · cases fine
  | padEnd calls | queue calls | idle calls | checkQueue calls
  | progress calls | finish calls => exact Or.inl (tail calls member)
  | compressed => cases List.mem_singleton.mp member
  | compressFailed =>
      cases List.mem_singleton.mp member
      exact Or.inr (Or.inr (Or.inl rfl))
  | refuse turn batch refused =>
      obtain ⟨call, calls, _⟩ := turn.calls
      rcases List.mem_cons.mp member with same | member
      · cases same
        exact Or.inr (Or.inl (refuses_of_failure refused))
      · exact Or.inl (tail calls member)
  | measure turn batch =>
      obtain ⟨call, calls, _⟩ := turn.calls
      refine (flushed _ _ member).imp_left fun member => ?_
      rcases List.mem_cons.mp member with same | member
      · cases same
      · rcases List.mem_cons.mp member with same | member
        · cases same
        · exact tail calls member
  | issue turn batch | stall turn batch =>
      obtain ⟨call, calls, _⟩ := turn.calls
      exact (flushed _ _ member).imp_left (tail calls)
  | complete calls =>
      left
      rcases List.mem_append.mp member with done | member
      · exact absurd done (fine fun _ => isFailure_finishCalls)
      · exact tail calls member
  | dataWritten =>
      rcases List.mem_cons.mp member with same | member
      · cases same
      · cases List.mem_singleton.mp member
  | dataFailed =>
      cases List.mem_singleton.mp member
      exact Or.inr (Or.inr (Or.inr (Or.inr (Or.inl rfl))))
  | indexWritten => exact absurd member (fine fun _ => isFailure_finishCalls)
  | indexFailed =>
      cases List.mem_singleton.mp member
      exact Or.inr (Or.inr (Or.inr (Or.inr (Or.inr rfl))))

/-- What is told was told before or gives a reason. -/
theorem given_move {next : Course} (move : Move archive may course next)
    {reason : String} (tells : next.Tells reason) :
    course.Tells reason ∨ Given archive reason := by
  rcases tells with member | ⟨written, noted⟩
  · exact (given_calls move member).imp_left Or.inl
  · left
    have one : ∀ {added : WriterNote},
        (∀ reason written, added ≠ .finished false reason written) →
          .finished false reason written ∈ course.notes ++ [added] →
            course.Tells reason := by
      intro added other noted
      rcases List.mem_append.mp noted with before | last
      · exact Or.inr ⟨written, before⟩
      · exact absurd (List.mem_singleton.mp last).symm (other _ _)
    cases move with
    | measure | issue | stall =>
        rw [flushAt_notes] at noted
        exact Or.inr ⟨written, noted⟩
    | progress | dataWritten | dataFailed | indexWritten | indexFailed =>
        exact one (fun _ _ => WriterNote.noConfusion) noted
    | finish calls =>
        rcases List.mem_append.mp noted with before | last
        · exact Or.inr ⟨written, before⟩
        · cases List.mem_singleton.mp last
          left
          rw [calls]
          exact List.mem_cons_self
    | _ => exact Or.inr ⟨written, noted⟩

/-! ## Runs -/

/-- Every block that is stuck has been told of. -/
structure Explained (archive : Archive) (course : Course) : Prop where
  failed : ∀ block, course.first ≤ block → block < course.last →
    course.pipeline.stage block = .failed → course.Tells uncompressed
  lost : ∀ block, course.first ≤ block → block < course.last →
    course.pipeline.stage block = .lost →
      ∃ reason, Refuses archive reason ∧ course.Tells reason
  given : ∀ reason, course.Tells reason → Given archive reason

theorem explained_start : Explained archive (start archive) := by
  refine ⟨?_, ?_, ?_⟩
  · intro block _ below
    exact absurd below (Nat.not_lt_zero block)
  · intro block _ below
    exact absurd below (Nat.not_lt_zero block)
  · intro reason tells
    rcases tells with member | ⟨written, noted⟩
    · cases member
    · cases noted

theorem Explained.move (yields : archive.env.Yields)
    (sound : Sound archive course) (explained : Explained archive course)
    {next : Course} (move : Move archive may course next) :
    Explained archive next := by
  refine ⟨?_, ?_, ?_⟩
  · intro block above below stage
    rcases kept_move yields sound move above below (Or.inl stage) with
      ⟨above', below', same⟩ | ⟨_, tells⟩ | ⟨other, _⟩
    · exact (explained.failed block above' below' (same.trans stage)).move move
    · exact tells
    · rw [stage] at other
      cases other
  · intro block above below stage
    rcases kept_move yields sound move above below (Or.inr stage) with
      ⟨above', below', same⟩ | ⟨other, _⟩ | ⟨_, told⟩
    · obtain ⟨reason, refuses, tells⟩ :=
        explained.lost block above' below' (same.trans stage)
      exact ⟨reason, refuses, tells.move move⟩
    · rw [stage] at other
      cases other
    · exact told
  · intro reason tells
    rcases given_move move tells with before | given
    · exact explained.given reason before
    · exact given

theorem not_given_misplaced : ¬ Given archive Sector.misplaced := by
  intro given
  unfold Given Sector.misplaced uncompressed at given
  rcases given with ⟨format, refused⟩ | same | same | same | same
  · unfold Output.refusal at refused
    split at refused
    all_goals simp at refused
  all_goals simp at same

end Course

namespace Writer

variable {archive : Archive} {writer : Writer}

/-- Whether the sector object of a block is in a container at the end. -/
theorem listed_of_stage {pipeline : BlockPipeline} {filled : Nat}
    (follows : Follows archive pipeline filled writer)
    (sound : Course.Sound archive (writer.course pipeline filled))
    (quiet : (writer.course pipeline filled).Quiet) {id : SectorId}
    {block : Nat} (holds : pipeline.Holds id block)
    (kept : pipeline.stage block ≠ .lost)
    (worked : archive.blockSize = sectorSize →
      pipeline.stage block ≠ .failed) :
    id ∈ writer.output.pendingSectors.map Prod.snd ++
      writer.output.partialSectors.map Prod.snd := by
  have assembled : archive.blockSize ≠ sectorSize →
      (pipeline.stage block).Assembling →
        id ∈ writer.output.pendingSectors.map Prod.snd ++
          writer.output.partialSectors.map Prod.snd := by
    intro multiple assembling
    have member :=
      (follows.placed.partials multiple).of_holds holds assembling
    exact List.mem_append_right _ (List.mem_map_of_mem member)
  rcases sound.stages_of_quiet quiet holds.1 holds.lt_last with
    filling | pending | failed | lost
  · refine assembled ?_ (Or.inl filling)
    intro single
    have partly := (sound.fed.filling _ holds.1 holds.lt_last).mp filling
    have newest := sound.fed.last_lt
    obtain ⟨sectors, aligned⟩ := sound.fed.aligned
    have below : block < (writer.course pipeline filled).last :=
      holds.lt_last
    rw [single, aligned] at partly newest
    simp only [sectorSize] at partly newest
    omega
  · have member := follows.placed.pending.of_holds holds pending
    exact List.mem_append_left _ (List.mem_map_of_mem member)
  · exact assembled (fun single => worked single failed)
      (Or.inr (Or.inr (Or.inl failed)))
  · exact absurd lost kept

/-- When nothing is in flight, every sector object is in a container unless
something has been told of. -/
theorem OnCourse.listed
    (onCourse : OnCourse archive (Course.Explained archive) writer)
    (calls : writer.calls = []) (jobs : writer.output.jobs = [])
    (dataWrites : writer.output.dataWrites = [])
    (indexWrites : writer.output.indexWrites = [])
    (unrefused : ∀ reason written, Course.Refuses archive reason →
      .finished false reason written ∉ writer.notes)
    (worked : archive.blockSize = sectorSize → ∀ written,
      .finished false Course.uncompressed written ∉ writer.notes)
    {id : SectorId} (inside : id < queueSize) :
    id ∈ writer.output.freeSectors ++
      writer.output.pendingSectors.map Prod.snd ++
        writer.output.partialSectors.map Prod.snd := by
  obtain ⟨pipeline, filled, follows, sound, explained⟩ := onCourse
  have quiet := follows.quiet calls jobs dataWrites indexWrites
  have told : ∀ {reason : String},
      (writer.course pipeline filled).Tells reason →
        ∃ written, .finished false reason written ∈ writer.notes := by
    intro reason tells
    refine tells.resolve_left ?_
    rw [quiet.calls]
    exact List.not_mem_nil
  have sectors : (writer.output.freeSectors ++ pipeline.owners).Perm
      (List.range queueSize) := follows.placed.sectors
  rw [List.append_assoc]
  rcases List.mem_append.mp
    (sectors.mem_iff.mpr (List.mem_range.mpr inside)) with free | owner
  · exact List.mem_append_left _ free
  · apply List.mem_append_right
    obtain ⟨index, found⟩ := List.getElem?_of_mem owner
    have holds : pipeline.Holds id (pipeline.first + index) := by
      refine ⟨Nat.le_add_right _ _, ?_⟩
      rwa [Nat.add_sub_cancel_left]
    apply listed_of_stage follows sound quiet holds
    · intro lost
      obtain ⟨reason, refuses, tells⟩ :=
        explained.lost _ holds.1 holds.lt_last lost
      obtain ⟨written, noted⟩ := told tells
      exact unrefused reason written refuses noted
    · intro single failed
      obtain ⟨written, noted⟩ :=
        told (explained.failed _ holds.1 holds.lt_last failed)
      exact worked single written noted

end Writer

end Maxcso
