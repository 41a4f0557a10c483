import Maxcso.Writer.Flow

/-!
# The order of the calls

Every move leaves the calls in order: at most one sector is about to be looked
at, and padding is due only directly after the last sector.
-/

namespace Maxcso

namespace Course

variable {archive : Archive} {may : Writer.Completions} {course : Course}

/-- What `fill` pushes. -/
theorem fill_calls (id : SectorId) :
    (course.fill archive id).calls =
      if archive.stageAt (course.filled + sectorSize) = .ready then
        readyCall id (course.block archive) :: course.calls
      else
        course.calls := rfl

/-- The calls after a sector when no other sector is about to be looked
at. -/
theorem Ordered.fill
    (filled : Filled archive course) {id : SectorId}
    (takes : course.Takes archive id)
    (idle : ∀ id block, course.pipeline.Holds id block →
      course.pipeline.stage block ≠ .ready)
    (none : ∀ id tag, .output (.sectorReady id tag) ∉ course.calls)
    (stacked : Stacked archive course.calls)
    (below : archive.stageAt (course.filled + sectorSize) = .ready →
      ∀ call ∈ course.calls, Below archive call)
    (pads : ∀ id tag pos, .output (.pad id tag pos) ∈ course.calls →
      course.nextPos = archive.sourceSize ∧
        ((course.filled + sectorSize : Nat) : Int) ≤ pos)
    (due : course.nextPos = archive.sourceSize →
      course.filled + sectorSize < archive.paddedSize →
        ∃ rest, course.calls = padCall id (course.block archive)
          ((course.filled + sectorSize : Nat) : Int) :: rest)
    (ended : course.nextPos = archive.sourceSize →
      archive.srcSize ≤ course.filled + sectorSize) :
    Ordered archive (course.fill archive id) := by
  have holds := filled.fill_holds_self takes
  have unready : ∀ other block,
      (course.fill archive id).pipeline.Holds other block →
        (course.fill archive id).pipeline.stage block = .ready →
          block = course.block archive ∧ other = id := by
    intro other block held ready
    by_cases newest : block = course.block archive
    · subst newest
      exact ⟨rfl, held.worker_unique holds⟩
    · rw [filled.fill_stage_of_ne id newest] at ready
      rcases (filled.fill_holds id).mp held with before | ⟨_, _, same⟩
      · exact absurd ready (idle other block before)
      · exact absurd same newest
  have padded : ∀ other tag pos,
      .output (.pad other tag pos) ∈ (course.fill archive id).calls →
        .output (.pad other tag pos) ∈ course.calls := by
    intro other tag pos member
    exact (mem_fill_calls id (by simp)).mp member
  refine ⟨?_, ?_, ?_, ?_, ?_⟩
  · rw [fill_calls]
    split
    · exact stacked_cons (below ‹_›)
    · exact stacked
  · intro other tag member
    rw [fill_calls] at member
    split at member
    · rename_i ready
      rcases List.mem_cons.mp member with same | member
      · cases same
        exact ⟨_, rfl, holds, (fill_stage_self id).trans ready⟩
      · exact absurd member (none other tag)
    · exact absurd member (none other tag)
  · intro other block held ready
    obtain ⟨rfl, rfl⟩ := unready other block held ready
    rw [fill_stage_self] at ready
    rw [fill_calls, if_pos ready]
    exact List.mem_cons_self
  · intro other tag pos member
    exact pads other tag pos (padded other tag pos member)
  · intro last short
    obtain ⟨rest, calls⟩ := due last short
    have filling : archive.stageAt (course.filled + sectorSize) =
        .filling := by
      rw [stageAt_eq_filling]
      intro whole
      have full := paddedSize_le_of_whole whole (ended last)
      rw [fill_filled] at short
      omega
    refine ⟨id, rest, ?_, ?_⟩
    · rw [filled.fill_block id filling, fill_calls, filling, calls]
      rfl
    · rw [filled.fill_block id filling]
      exact holds

/-- The calls of a course in which no sector is about to be looked at. -/
theorem Ordered.clean
    (ordered : Ordered archive course) {next : Course}
    (notDue : ∀ id rest, course.calls ≠
      padCall id (course.block archive) course.filled :: rest)
    (stacked : Stacked archive next.calls)
    (none : ∀ id tag, .output (.sectorReady id tag) ∉ next.calls)
    (idle : ∀ id block, next.pipeline.Holds id block →
      next.pipeline.stage block ≠ .ready)
    (pads : ∀ id tag pos, .output (.pad id tag pos) ∈ next.calls →
      .output (.pad id tag pos) ∈ course.calls)
    (filled : next.filled = course.filled)
    (nextPos : next.nextPos = course.nextPos) :
    Ordered archive next := by
  refine ⟨stacked, ?_, ?_, ?_, ?_⟩
  · intro id tag member
    exact absurd member (none id tag)
  · intro id block holds ready
    exact absurd ready (idle id block holds)
  · intro id tag pos member
    rw [filled, nextPos]
    exact ordered.pad_call id tag pos (pads id tag pos member)
  · intro ended short
    rw [nextPos] at ended
    rw [filled] at short
    obtain ⟨id, rest, calls, _⟩ := ordered.pad_due ended short
    exact absurd calls (notDue id rest)

/-- The running call is not padding. -/
theorem Turn.notDue {rest : List WriterCall}
    (turn : course.Turn archive rest) (id : SectorId) (block : Nat)
    (pos : Int) (others : List WriterCall) :
    course.calls ≠ padCall id block pos :: others := by
  cases turn with
  | ready calls => simp [calls, readyCall, padCall]
  | pending calls => simp [calls, padCall]

theorem Turn.below {rest : List WriterCall}
    (turn : course.Turn archive rest) (ordered : Ordered archive course) :
    ∀ call ∈ rest, Below archive call := by
  obtain ⟨call, calls, other, _, _⟩ := turn.calls
  have stacked := ordered.stacked
  rw [calls] at stacked
  exact stacked.below other

theorem readyCall_inj {id other : SectorId} {block block' : Nat}
    (same : readyCall id block = readyCall other block') : id = other := by
  injection same with call
  injection call

/-- Only the first block can be the one that is looked at. -/
theorem Turn.not_ready {rest : List WriterCall}
    (turn : course.Turn archive rest) (ordered : Ordered archive course)
    (nodup : course.pipeline.owners.Nodup)
    {id : SectorId} {block : Nat} (holds : course.pipeline.Holds id block)
    (other : block ≠ course.first) :
    course.pipeline.stage block ≠ .ready := by
  intro ready
  cases turn with
  | ready calls held _ =>
      obtain rfl := readyCall_inj (ordered.ready_head calls rfl holds ready)
      exact other (held.item_unique nodup holds).symm
  | pending calls =>
      have same := ordered.ready_head calls rfl holds ready
      exact nomatch same

/-- After a turn no sector is about to be looked at. -/
theorem Ordered.turn
    (ordered : Ordered archive course) {next : Course}
    {rest reports front : List WriterCall}
    (turn : course.Turn archive rest)
    (calls : next.calls = reports ++ (front ++ rest))
    (finishes : ∀ call ∈ reports, isFinish call = true)
    (stacked : Stacked archive (front ++ rest))
    (noSector : ∀ id tag, .output (.sectorReady id tag) ∉ front)
    (noPad : ∀ id tag pos, .output (.pad id tag pos) ∉ front)
    (idle : ∀ id block, next.pipeline.Holds id block →
      next.pipeline.stage block ≠ .ready)
    (filled : next.filled = course.filled)
    (nextPos : next.nextPos = course.nextPos) :
    Ordered archive next := by
  have below := turn.below ordered
  have kept : ∀ call, isFinish call = false → call ∈ next.calls →
      call ∈ front ∨ call ∈ rest := by
    intro call other member
    rw [calls] at member
    rcases List.mem_append.mp member with member | member
    · rw [finishes call member] at other
      exact nomatch other
    · exact List.mem_append.mp member
  apply ordered.clean (turn.notDue · _ _)
  · rw [calls]
    exact stacked.report finishes
  · intro id tag member
    rcases kept _ rfl member with member | member
    · exact noSector id tag member
    · exact below _ member
  · exact idle
  · intro id tag pos member
    rcases kept _ rfl member with member | member
    · exact absurd member (noPad id tag pos)
    · obtain ⟨call, same, _⟩ := turn.calls
      rw [same]
      exact List.mem_cons_of_mem call member
  · exact filled
  · exact nextPos

/-- No block of a pipeline whose first blocks have been marked is about to be
looked at. -/
theorem Turn.not_ready_mark {rest : List WriterCall} {count : Nat}
    (turn : course.Turn archive rest) (ordered : Ordered archive course)
    (flow : course.Flow) (positive : 0 < count) {stage : BlockStage}
    (other : stage ≠ .ready) (id : SectorId) (block : Nat)
    (holds : (course.pipeline.mark count stage).Holds id block) :
    (course.pipeline.mark count stage).stage block ≠ .ready := by
  by_cases inside : block < course.first + count
  · rwa [Pipeline.mark_stage_of_lt inside]
  · rw [Pipeline.mark_stage_of_le (Nat.not_lt.mp inside)]
    exact turn.not_ready ordered flow.nodup holds (by omega)

theorem Turn.not_ready_retire {rest : List WriterCall} {count : Nat}
    (turn : course.Turn archive rest) (ordered : Ordered archive course)
    (flow : course.Flow) (positive : 0 < count) (id : SectorId)
    (block : Nat) (holds : (course.pipeline.retire count).Holds id block) :
    (course.pipeline.retire count).stage block ≠ .ready := by
  obtain ⟨above, held⟩ := Pipeline.holds_retire.mp holds
  apply turn.not_ready ordered flow.nodup held
  rw [first]
  omega

/-- A sector of the source arrives. -/
theorem Ordered.arrive
    (ordered : Ordered archive course) (fed : Fed archive course)
    {id : SectorId} (fetching : course.fetching = true)
    (resumable : Writer.resumable course.calls = true)
    (takes : course.Takes archive id) :
    Ordered archive (course.arrive archive id) := by
  have under := ordered.stacked.below_of_resumable resumable
  obtain ⟨filled, fits⟩ := fed.room fetching
  have more := fed.fetching fetching
  have padMember : ∀ call ∈ course.padCalls archive id,
      call = padCall id (course.block archive) archive.sourceSize ∧
        archive.sourceSize ≤ course.nextPos + sectorSize := by
    intro call member
    unfold padCalls at member
    split at member
    · rename_i last
      rw [archive.sourceSize_of_multiple last.1]
      exact ⟨List.mem_singleton.mp member, last.2⟩
    · cases member
  have member : ∀ call,
      call ∈ course.padCalls archive id ++ .checkQueue :: course.calls →
        call ∈ course.padCalls archive id ∨ call = .checkQueue ∨
          call ∈ course.calls := by
    intro call member
    rcases List.mem_append.mp member with pad | member
    · exact Or.inl pad
    · exact Or.inr (List.mem_cons.mp member)
  have belowTail : ∀ call ∈ .checkQueue :: course.calls,
      Below archive call := by
    intro call member
    rcases List.mem_cons.mp member with rfl | member
    · trivial
    · exact under call member
  apply @Ordered.fill archive
    { course with
      fetching := false
      nextPos := course.nextPos + sectorSize
      calls := course.padCalls archive id ++ .checkQueue :: course.calls }
    ⟨fed.aligned, fed.filled_le, fed.first_le, fed.filled_le_last,
      fed.last_lt, fed.filling⟩ id takes
  · intro other block holds
    exact ordered.not_ready under holds
  · intro other tag ready
    rcases member _ ready with pad | same | called
    · exact absurd (padMember _ pad).1 (by simp [padCall])
    · cases same
    · exact under _ called
  · unfold padCalls
    dsimp only
    split
    · exact stacked_cons belowTail
    · exact stacked_of_below belowTail
  · intro ready call called
    rcases member _ called with pad | same | called
    · obtain ⟨rfl, last⟩ := padMember _ pad
      have whole : (course.nextPos + sectorSize) % archive.blockSize = 0 := by
        by_contra part
        rw [← filled] at part
        rw [stageAt_eq_filling.mpr part] at ready
        cases ready
      have full := paddedSize_le_of_whole whole
        (archive.srcSize_le_sourceSize.trans last)
      have exact_ : course.nextPos + sectorSize = archive.sourceSize :=
        Nat.le_antisymm fits last
      rw [exact_] at full
      exact Int.ofNat_le.mpr full
    · rw [same]
      trivial
    · exact under call called
  · intro other tag pos called
    rcases member _ called with pad | same | called
    · obtain ⟨same, last⟩ := padMember _ pad
      injection same with same
      injection same with _ _ pos
      have exact_ : course.nextPos + sectorSize = archive.sourceSize :=
        Nat.le_antisymm fits last
      rw [pos]
      exact ⟨exact_, Int.ofNat_le.mpr (by rw [filled, exact_])⟩
    · cases same
    · exact absurd (ordered.pad_call _ _ _ called).1 (Nat.ne_of_lt more)
  · intro last short
    have multiple : archive.blockSize ≠ sectorSize := by
      intro single
      have whole : archive.sourceSize % archive.blockSize = 0 := by
        rw [single]
        exact Nat.mod_eq_zero_of_dvd archive.sectorSize_dvd_sourceSize
      have full := paddedSize_le_of_whole whole archive.srcSize_le_sourceSize
      rw [← last, ← filled] at full
      exact absurd short (Nat.not_lt.mpr full)
    refine ⟨.checkQueue :: course.calls, ?_⟩
    dsimp only at last ⊢
    rw [archive.sourceSize_of_multiple multiple] at last
    rw [padCalls, if_pos ⟨multiple, last.symm.le⟩, ← last, ← filled]
    rfl
  · intro last
    dsimp only at last ⊢
    rw [filled, last]
    exact archive.srcSize_le_sourceSize

/-- Padding is sent in. -/
theorem Ordered.pad
    (ordered : Ordered archive course) (fed : Fed archive course)
    {id : SectorId} {rest : List WriterCall}
    (calls : course.calls =
      padCall id (course.block archive) course.filled :: rest)
    (short : course.filled < archive.paddedSize)
    (takes : course.Takes archive id) :
    Ordered archive
      (Course.fill archive
        { course with
          calls :=
            padCall id (course.block archive)
              ((course.filled + sectorSize : Nat) : Int) :: rest }
        id) := by
  have stacked := ordered.stacked
  rw [calls] at stacked
  have under := stacked.below rfl
  have ended := (ordered.pad_call _ _ _
    (by rw [calls]; exact List.mem_cons_self)).1
  have fits : course.filled + sectorSize ≤ archive.paddedSize :=
    (@Filled.fill archive course id fed.toFilled short).filled_le
  have more : archive.srcSize ≤ course.filled + sectorSize :=
    (fed.srcSize_le ended).trans (Nat.le_add_right _ _)
  apply @Ordered.fill archive
    { course with
      calls :=
        padCall id (course.block archive)
          ((course.filled + sectorSize : Nat) : Int) :: rest }
    ⟨fed.aligned, fed.filled_le, fed.first_le, fed.filled_le_last,
      fed.last_lt, fed.filling⟩ id takes
  · intro other block holds ready
    have head := ordered.ready_head calls rfl holds ready
    simp [padCall, readyCall] at head
  · intro other tag ready
    rcases List.mem_cons.mp ready with same | ready
    · simp [padCall] at same
    · exact under _ ready
  · exact stacked_cons under
  · intro ready call called
    rcases List.mem_cons.mp called with rfl | called
    · have whole : (course.filled + sectorSize) % archive.blockSize = 0 := by
        by_contra part
        have filling := stageAt_eq_filling.mpr part
        rw [filling] at ready
        cases ready
      exact Int.ofNat_le.mpr (paddedSize_le_of_whole whole more)
    · exact under call called
  · intro other tag pos called
    refine ⟨ended, ?_⟩
    rcases List.mem_cons.mp called with same | called
    · injection same with same
      injection same with _ _ pos
      exact le_of_eq pos.symm
    · have beyond : (archive.paddedSize : Int) ≤ pos := under _ called
      exact (Int.ofNat_le.mpr fits).trans beyond
  · intro _ _
    exact ⟨rest, rfl⟩
  · intro _
    exact more

theorem Ordered.notDue_of_quiet (quiet : course.calls = [])
    (id : SectorId) (rest : List WriterCall) :
    course.calls ≠
      padCall id (course.block archive) course.filled :: rest := by
  rw [quiet]
  exact List.cons_ne_nil _ _ ∘ Eq.symm

theorem Ordered.idle_of_quiet
    (ordered : Ordered archive course) (quiet : course.calls = [])
    (id : SectorId) (block : Nat) (holds : course.pipeline.Holds id block) :
    course.pipeline.stage block ≠ .ready := by
  apply ordered.not_ready _ holds
  rw [quiet]
  intro call member
  exact nomatch member

theorem isFinish_flushed {gathered : Nat} :
    ∀ call ∈ if archive.blocks ≤ gathered then archive.report else [],
      isFinish call = true := by
  intro call member
  split at member
  · exact isFinish_report member
  · exact nomatch member

theorem isFinish_finishCalls {done : Bool} {call : WriterCall}
    (member : call ∈ finishCalls done) : isFinish call = true := by
  unfold finishCalls at member
  split at member
  · rw [List.mem_singleton.mp member]
    rfl
  · exact nomatch member

/-- Nothing was being run, and only a report is left. -/
theorem Ordered.completion
    (ordered : Ordered archive course) {next : Course}
    (quiet : course.calls = [])
    (finishes : ∀ call ∈ next.calls, isFinish call = true)
    (idle : ∀ id block, next.pipeline.Holds id block →
      next.pipeline.stage block ≠ .ready)
    (filled : next.filled = course.filled)
    (nextPos : next.nextPos = course.nextPos) :
    Ordered archive next := by
  refine ordered.clean (Ordered.notDue_of_quiet quiet) ?_ ?_ idle ?_ filled
    nextPos
  · rw [← List.append_nil next.calls]
    exact stacked_nil.report finishes
  · intro id tag member
    exact nomatch finishes _ member
  · intro id tag pos member
    exact nomatch finishes _ member

theorem Ordered.move
    (ordered : Ordered archive course) (fed : Fed archive course)
    (flow : course.Flow) {next : Course} (move : Move archive may course next) :
    Ordered archive next := by
  cases move with
  | fetch =>
      exact ⟨ordered.stacked, ordered.ready_call, ordered.ready_stage,
        ordered.pad_call, ordered.pad_due⟩
  | arrive fetching resumable takes =>
      exact ordered.arrive fed fetching resumable takes
  | pad calls short takes => exact ordered.pad fed calls short takes
  | padEnd calls full =>
      refine ordered.pop calls (List.nil_append _).symm ?_ rfl rfl rfl
        ?_ ?_
      · intro call member
        cases member
      · intro id tag same
        cases same
      · intro id tag pos same
        cases same
        exact full
  | idle calls | progress calls | finish calls | checkQueue calls =>
      refine ordered.pop calls (List.nil_append _).symm ?_ rfl rfl rfl
        ?_ ?_
      · intro call member
        cases member
      · intro id tag same
        cases same
      · intro id tag pos same
        cases same
  | complete calls all =>
      refine ordered.pop calls rfl ?_ rfl rfl rfl ?_ ?_
      · intro call member
        exact isFinish_finishCalls member
      · intro id tag same
        cases same
      · intro id tag pos same
        cases same
  | @compressed id block quiet holds compressing =>
      refine ⟨stacked_cons (fun _ member => absurd member List.not_mem_nil),
        ?_, ?_, ?_, ?_⟩
      · intro other tag member
        obtain ⟨rfl, rfl⟩ : other = id ∧ tag = block % 2 ^ 32 := by
          simpa [readyCall] using member
        exact ⟨block, rfl, holds, Pipeline.setStage_stage_self⟩
      · intro other block' held ready
        by_cases same : block' = block
        · subst same
          rw [held.worker_unique holds]
          exact List.mem_cons_self
        · rw [Pipeline.setStage_stage_of_ne same] at ready
          exact absurd ready (ordered.idle_of_quiet quiet _ _ held)
      · intro other tag pos member
        simp [readyCall] at member
      · intro ended short
        obtain ⟨other, rest, calls, _⟩ := ordered.pad_due ended short
        rw [quiet] at calls
        cases calls
  | @compressFailed id block status quiet holds compressing =>
      refine ordered.completion quiet ?_ ?_ rfl rfl
      · intro call member
        rw [List.mem_singleton.mp member]
        rfl
      · intro other block' held
        by_cases same : block' = block
        · subst same
          rw [Pipeline.setStage_stage_self]
          simp
        · rw [Pipeline.setStage_stage_of_ne same]
          exact ordered.idle_of_quiet quiet _ _ held
  | @queue id block rest calls holds ready early =>
      have stacked := ordered.stacked
      rw [calls] at stacked
      apply ordered.clean
      · intro other others
        simp [calls, readyCall, padCall]
      · exact stacked_of_below (stacked.below rfl)
      · intro other tag member
        exact stacked.below rfl _ member
      · intro other block' held again
        by_cases same : block' = block
        · subst same
          rw [Pipeline.setStage_stage_self] at again
          cases again
        · rw [Pipeline.setStage_stage_of_ne same] at again
          obtain rfl :=
            readyCall_inj (ordered.ready_head calls rfl held again)
          exact same (Pipeline.Holds.item_unique flow.nodup held holds)
      · intro other tag pos member
        rw [calls]
        exact List.mem_cons_of_mem _ member
      · rfl
      · rfl
  | @refuse rest count reason turn batch refused =>
      apply @Ordered.turn _ _ ordered _ rest
        [.output (.finish false reason)] [] turn rfl
      · intro call member
        rw [List.mem_singleton.mp member]
        rfl
      · exact stacked_of_below (turn.below ordered)
      · intro id tag member
        cases member
      · intro id tag pos member
        cases member
      · exact turn.not_ready_mark ordered flow batch.positive (by simp)
      · rfl
      · rfl
  | @measure rest count write turn batch accepted noFile expected =>
      refine @Ordered.turn _ _ ordered _ rest _
        [.output (.progress ((course.first + count) * archive.blockSize : Nat)
            archive.srcSize (archive.pos (course.first + count))),
          .output (.afterProgress
            ((course.first + count) * archive.blockSize : Nat))]
        turn (flushAt_calls _ _) isFinish_flushed ?_ ?_ ?_ ?_
        (flushAt_filled _ _) (flushAt_nextPos _ _)
      · apply stacked_cons
        intro call member
        rcases List.mem_cons.mp member with rfl | member
        · trivial
        · exact turn.below ordered call member
      · intro id tag member
        simp at member
      · intro id tag pos member
        simp at member
      · rw [flushAt_pipeline]
        exact turn.not_ready_retire ordered flow batch.positive
  | @issue rest count write turn batch =>
      refine @Ordered.turn _ _ ordered _ rest _ [] turn (flushAt_calls _ _)
        isFinish_flushed (stacked_of_below (turn.below ordered)) ?_ ?_ ?_
        (flushAt_filled _ _) (flushAt_nextPos _ _)
      · intro id tag member
        cases member
      · intro id tag pos member
        cases member
      · rw [flushAt_pipeline]
        exact turn.not_ready_mark ordered flow batch.positive (by simp)
  | @stall rest count write turn batch =>
      refine @Ordered.turn _ _ ordered _ rest _ [] turn (flushAt_calls _ _)
        isFinish_flushed (stacked_of_below (turn.below ordered)) ?_ ?_ ?_
        (flushAt_filled _ _) (flushAt_nextPos _ _)
      · intro id tag member
        cases member
      · intro id tag pos member
        cases member
      · rw [flushAt_pipeline]
        exact turn.not_ready_mark ordered flow batch.positive (by simp)
  | @dataWritten count result quiet writes positive live writing enough =>
      refine ordered.clean (Ordered.notDue_of_quiet quiet) ?_ ?_ ?_ ?_ rfl
        rfl
      · apply stacked_cons
        intro call member
        rw [List.mem_singleton.mp member]
        trivial
      · intro id tag member
        simp [Course.retire] at member
      · intro id block holds
        exact ordered.idle_of_quiet quiet id block
          (Pipeline.holds_retire.mp holds).2
      · intro id tag pos member
        simp [Course.retire] at member
  | dataFailed quiet =>
      refine ordered.completion quiet ?_ ?_ rfl rfl
      · intro call member
        rw [List.mem_singleton.mp member]
        rfl
      · intro id block holds
        exact ordered.idle_of_quiet quiet id block
          (Pipeline.holds_retire.mp holds).2
  | indexWritten quiet =>
      refine ordered.completion quiet ?_ (ordered.idle_of_quiet quiet) rfl rfl
      intro call member
      exact isFinish_finishCalls member
  | indexFailed quiet =>
      refine ordered.completion quiet ?_ (ordered.idle_of_quiet quiet) rfl rfl
      intro call member
      rw [List.mem_singleton.mp member]
      rfl

end Course

end Maxcso
