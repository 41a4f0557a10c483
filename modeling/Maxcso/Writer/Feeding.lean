import Maxcso.Writer.Course

/-!
# Feeding the writer

Where the sectors and the padding go, and which calls are due.
-/

namespace Maxcso

namespace Course

variable {archive : Archive} {may : Writer.Completions} {course : Course}

/-! ## Sectors and blocks -/

/-- The blocks that have been taken up are full but for the newest. -/
structure Filled (archive : Archive) (course : Course) : Prop where
  aligned : sectorSize ∣ course.filled
  filled_le : course.filled ≤ archive.paddedSize
  first_le : course.first * archive.blockSize ≤ course.filled
  filled_le_last : course.filled ≤ course.last * archive.blockSize
  last_lt : course.last * archive.blockSize <
    course.filled + archive.blockSize
  filling : ∀ block, course.first ≤ block → block < course.last →
    (course.pipeline.stage block = .filling ↔
      course.filled < (block + 1) * archive.blockSize)

/-- The sectors of the source and the padding fill the blocks. -/
structure Fed (archive : Archive) (course : Course) : Prop
    extends Filled archive course where
  nextPos_le : course.nextPos ≤ archive.sourceSize
  filled_eq : course.nextPos < archive.sourceSize →
    course.filled = course.nextPos
  sourceSize_le : course.nextPos = archive.sourceSize →
    archive.sourceSize ≤ course.filled
  fetching : course.fetching = true → course.nextPos < archive.sourceSize

theorem Fed.srcSize_le (fed : Fed archive course)
    (ended : course.nextPos = archive.sourceSize) :
    archive.srcSize ≤ course.filled :=
  archive.srcSize_le_sourceSize.trans (fed.sourceSize_le ended)

theorem Filled.last_le (filled : Filled archive course) :
    course.last ≤ archive.blocks := by
  have bounds := archive.blockSize_bounds
  have high := filled.last_lt
  have low := filled.filled_le
  by_contra more
  have next : (archive.blocks + 1) * archive.blockSize ≤
      course.last * archive.blockSize :=
    Nat.mul_le_mul_right _ (by omega)
  rw [Archive.paddedSize] at low
  rw [Nat.add_mul, Nat.one_mul] at next
  omega

/-- Where the next sector goes in its block. -/
theorem block_mul_le (archive : Archive) (course : Course) :
    course.block archive * archive.blockSize ≤ course.filled :=
  Nat.div_mul_le_self _ _

theorem lt_succ_block_mul (archive : Archive) (course : Course) :
    course.filled < (course.block archive + 1) * archive.blockSize := by
  have bounds := archive.blockSize_bounds
  have split := Nat.div_add_mod course.filled archive.blockSize
  have rest := Nat.mod_lt course.filled
    (show 0 < archive.blockSize by omega)
  rw [Nat.mul_comm] at split
  rw [block, Nat.add_mul, Nat.one_mul]
  omega

/-- A sector does not reach beyond its block. -/
theorem Filled.sector_le (filled : Filled archive course) :
    course.filled + sectorSize ≤
      (course.block archive + 1) * archive.blockSize := by
  have below := lt_succ_block_mul archive course
  obtain ⟨sectors, aligned⟩ := filled.aligned
  obtain ⟨width, wide⟩ := archive.sectorSize_dvd_blockSize
  rw [wide, aligned, Nat.mul_comm sectorSize width, ← Nat.mul_assoc,
    Nat.mul_comm sectorSize sectors] at below ⊢
  have lt := Nat.lt_of_mul_lt_mul_right below
  rw [← Nat.succ_mul]
  exact Nat.mul_le_mul_right _ lt

/-- The next sector is for a new block. -/
theorem Filled.block_new (filled : Filled archive course)
    (whole : course.filled % archive.blockSize = 0) :
    course.block archive = course.last := by
  have bounds := archive.blockSize_bounds
  have high := filled.last_lt
  have low := filled.filled_le_last
  have split := Nat.div_add_mod course.filled archive.blockSize
  rw [whole, Nat.add_zero, Nat.mul_comm] at split
  have le : course.block archive ≤ course.last := by
    apply Nat.le_of_mul_le_mul_right _
      (show 0 < archive.blockSize by omega)
    rwa [block, split]
  have lt : course.last < course.block archive + 1 := by
    apply @Nat.lt_of_mul_lt_mul_right archive.blockSize
    rw [Nat.add_mul, Nat.one_mul, block, split]
    exact high
  omega

/-- The next sector is for the newest block. -/
theorem Filled.block_newest (filled : Filled archive course)
    (part : course.filled % archive.blockSize ≠ 0) :
    course.block archive + 1 = course.last := by
  have high := filled.last_lt
  have low := filled.filled_le_last
  have split := Nat.div_add_mod course.filled archive.blockSize
  rw [Nat.mul_comm] at split
  have lt : course.block archive < course.last := by
    apply @Nat.lt_of_mul_lt_mul_right archive.blockSize
    rw [block]
    omega
  have lt' : course.last < course.block archive + 2 := by
    apply @Nat.lt_of_mul_lt_mul_right archive.blockSize
    have below := lt_succ_block_mul archive course
    rw [Nat.add_mul] at below ⊢
    omega
  omega

/-- The block of the next sector has not been written. -/
theorem Filled.first_le_block (filled : Filled archive course) :
    course.first ≤ course.block archive := by
  have bounds := archive.blockSize_bounds
  exact (Nat.le_div_iff_mul_le (by omega)).mpr filled.first_le

theorem Filled.block_le_last (filled : Filled archive course) :
    course.block archive ≤ course.last := by
  by_cases whole : course.filled % archive.blockSize = 0
  · exact le_of_eq (filled.block_new whole)
  · have newest := filled.block_newest whole
    omega

/-! ## One more sector -/

section

variable (id : SectorId)

@[simp]
theorem fill_first : (course.fill archive id).first = course.first := by
  unfold fill first
  dsimp only
  split <;> rfl

theorem Filled.fill_last (filled : Filled archive course) :
    (course.fill archive id).last = course.block archive + 1 := by
  unfold fill last
  dsimp only
  rw [Pipeline.setStage_last]
  split
  · rw [Pipeline.claim_last, filled.block_new ‹_›, last]
  · rw [filled.block_newest ‹_›, last]

@[simp]
theorem fill_stage_self :
    (course.fill archive id).pipeline.stage (course.block archive) =
      archive.stageAt (course.filled + sectorSize) :=
  Pipeline.setStage_stage_self

theorem Filled.fill_stage_of_ne (filled : Filled archive course)
    {block : Nat} (different : block ≠ course.block archive) :
    (course.fill archive id).pipeline.stage block =
      course.pipeline.stage block := by
  unfold fill
  dsimp only
  rw [Pipeline.setStage_stage_of_ne different]
  split
  · rw [filled.block_new ‹_›] at different
    exact Function.update_of_ne different _ _
  · rfl

theorem Filled.fill_holds (filled : Filled archive course)
    {other : SectorId} {block : Nat} :
    (course.fill archive id).pipeline.Holds other block ↔
      course.pipeline.Holds other block ∨
        (course.filled % archive.blockSize = 0 ∧ other = id ∧
          block = course.block archive) := by
  unfold fill
  dsimp only
  rw [Pipeline.holds_setStage]
  by_cases whole : course.filled % archive.blockSize = 0
  · have new := filled.block_new whole
    rw [last] at new
    simp [whole, Pipeline.holds_claim, new]
  · simp [whole]

theorem stageAt_eq_filling {filled : Nat} :
    archive.stageAt filled = .filling ↔ filled % archive.blockSize ≠ 0 := by
  unfold Archive.stageAt
  split
  · simp [*]
  · split <;> simp [*]

theorem stageAt_ne_writing (filled : Nat) :
    archive.stageAt filled ≠ .writing := by
  unfold Archive.stageAt
  split
  · simp
  · split <;> simp

@[simp]
theorem fill_filled :
    (course.fill archive id).filled = course.filled + sectorSize := rfl

/-- The stage of the newest block after one more sector. -/
theorem Filled.stageAt_filling (filled : Filled archive course) :
    archive.stageAt (course.filled + sectorSize) = .filling ↔
      course.filled + sectorSize <
        (course.block archive + 1) * archive.blockSize := by
  have low := block_mul_le archive course
  have high := filled.sector_le
  rw [stageAt_eq_filling]
  constructor
  · intro part
    apply lt_of_le_of_ne high
    intro whole
    rw [whole, Nat.mul_mod_left] at part
    exact part rfl
  · intro below whole
    have quotient : (course.filled + sectorSize) / archive.blockSize =
        course.block archive := by
      apply Nat.div_eq_of_lt_le _ below
      exact low.trans (Nat.le_add_right _ _)
    have split :=
      Nat.div_add_mod (course.filled + sectorSize) archive.blockSize
    rw [whole, quotient, Nat.mul_comm] at split
    simp only [sectorSize] at split
    omega

/-- The newest block is being filled until it is full. -/
theorem Filled.fill (filled : Filled archive course)
    (room : course.filled < archive.paddedSize) :
    Filled archive (course.fill archive id) := by
  have last := filled.fill_last id
  have low := block_mul_le archive course
  have high := filled.sector_le
  obtain ⟨sectors, aligned⟩ := filled.aligned
  refine ⟨⟨sectors + 1, ?_⟩, ?_, ?_, ?_, ?_, ?_⟩
  · rw [fill_filled, Nat.mul_add, ← aligned, Nat.mul_one]
  · obtain ⟨total, padded⟩ : sectorSize ∣ archive.paddedSize :=
      Dvd.dvd.mul_left archive.sectorSize_dvd_blockSize _
    rw [fill_filled]
    simp only [sectorSize] at *
    omega
  · rw [fill_first, fill_filled]
    exact filled.first_le.trans (Nat.le_add_right _ _)
  · rwa [last]
  · rw [last, Nat.add_mul, Nat.one_mul, fill_filled]
    simp only [sectorSize]
    omega
  · intro block above below
    rw [fill_first] at above
    rw [last] at below
    rw [fill_filled]
    by_cases newest : block = course.block archive
    · subst newest
      rw [fill_stage_self, filled.stageAt_filling]
    · have older : block + 1 ≤ course.block archive := by omega
      have full : (block + 1) * archive.blockSize ≤
          course.block archive * archive.blockSize :=
        Nat.mul_le_mul_right _ older
      have live : block < course.last := by
        by_cases whole : course.filled % archive.blockSize = 0
        · rw [← filled.block_new whole]
          exact older
        · rw [← filled.block_newest whole]
          omega
      rw [filled.fill_stage_of_ne id newest, filled.filling block above live]
      omega

end

/-! ## The calls that are still to be run -/

def isFinish : WriterCall → Bool
  | .output (.finish _ _) => true
  | _ => false

/-- A call that the running one has left below it. -/
def Below (archive : Archive) : WriterCall → Prop
  | .checkQueue => True
  | .output (.afterProgress _) => True
  | .output (.pad _ _ pos) => archive.paddedSize ≤ pos
  | _ => False

/-- After the reports at the head, only the next call can be one that starts
something. -/
def Stacked (archive : Archive) (calls : List WriterCall) : Prop :=
  ∀ call ∈ (calls.dropWhile isFinish).tail, Below archive call

theorem stacked_nil : Stacked archive [] := by
  intro call member
  exact nomatch member

theorem stacked_cons
    {call : WriterCall} {rest : List WriterCall}
    (below : ∀ call ∈ rest, Below archive call) :
    Stacked archive (call :: rest) := by
  intro other member
  apply below
  cases finish : isFinish call with
  | false => simpa [finish] using member
  | true =>
      rw [List.dropWhile_cons_of_pos finish] at member
      exact List.dropWhile_subset _ (List.mem_of_mem_tail member)

theorem stacked_of_below
    {calls : List WriterCall}
    (below : ∀ call ∈ calls, Below archive call) :
    Stacked archive calls := by
  intro call member
  exact below call (List.dropWhile_subset _ (List.mem_of_mem_tail member))

theorem Stacked.report
    {reports calls : List WriterCall} (stacked : Stacked archive calls)
    (finishes : ∀ call ∈ reports, isFinish call = true) :
    Stacked archive (reports ++ calls) := by
  unfold Stacked
  rw [List.dropWhile_append_of_pos finishes]
  exact stacked

theorem Stacked.below
    {call : WriterCall} {rest : List WriterCall}
    (stacked : Stacked archive (call :: rest))
    (other : isFinish call = false) :
    ∀ call ∈ rest, Below archive call := by
  intro below member
  apply stacked
  rw [List.dropWhile_cons_of_neg (by simp [other])]
  exact member

theorem Stacked.tail
    {call : WriterCall} {rest : List WriterCall}
    (stacked : Stacked archive (call :: rest)) :
    Stacked archive rest := by
  cases finish : isFinish call with
  | true =>
      unfold Stacked at stacked
      rwa [List.dropWhile_cons_of_pos finish] at stacked
  | false => exact stacked_of_below (stacked.below finish)

/-- A call that lets the source go on has only such calls below it. -/
theorem Stacked.below_of_resumable
    {calls : List WriterCall} (stacked : Stacked archive calls)
    (resumable : Writer.resumable calls = true) :
    ∀ call ∈ calls, Below archive call := by
  intro call member
  cases calls with
  | nil => exact nomatch member
  | cons head rest =>
      cases head with
      | checkQueue => exact nomatch resumable
      | output head =>
          cases head with
          | afterProgress nextPos =>
              rcases List.mem_cons.mp member with rfl | member
              · trivial
              · exact stacked.below rfl call member
          | _ => exact nomatch resumable

/-- Which calls are due, and for which blocks. -/
structure Ordered (archive : Archive) (course : Course) : Prop where
  stacked : Stacked archive course.calls
  ready_call : ∀ id tag, .output (.sectorReady id tag) ∈ course.calls →
    ∃ block, tag = block % 2 ^ 32 ∧ course.pipeline.Holds id block ∧
      course.pipeline.stage block = .ready
  ready_stage : ∀ id block, course.pipeline.Holds id block →
    course.pipeline.stage block = .ready →
      readyCall id block ∈ course.calls
  pad_call : ∀ id tag pos, .output (.pad id tag pos) ∈ course.calls →
    course.nextPos = archive.sourceSize ∧ (course.filled : Int) ≤ pos
  pad_due : course.nextPos = archive.sourceSize →
    course.filled < archive.paddedSize →
      ∃ id rest, course.calls =
          padCall id (course.block archive) course.filled :: rest ∧
        course.pipeline.Holds id (course.block archive)

/-- No sector is about to be looked at. -/
theorem Ordered.not_ready
    (ordered : Ordered archive course)
    (below : ∀ call ∈ course.calls, Below archive call)
    {id : SectorId} {block : Nat} (holds : course.pipeline.Holds id block) :
    course.pipeline.stage block ≠ .ready :=
  fun ready => below _ (ordered.ready_stage id block holds ready)

/-- Only the sector of the running call is about to be looked at. -/
theorem Ordered.ready_head
    (ordered : Ordered archive course) {call : WriterCall}
    {rest : List WriterCall} (calls : course.calls = call :: rest)
    (other : isFinish call = false) {id : SectorId} {block : Nat}
    (holds : course.pipeline.Holds id block)
    (ready : course.pipeline.stage block = .ready) :
    call = readyCall id block := by
  have member := ordered.ready_stage id block holds ready
  have stacked := ordered.stacked
  rw [calls] at member stacked
  rcases List.mem_cons.mp member with same | member
  · exact same.symm
  · exact (stacked.below other _ member).elim

/-- A call that is neither for a sector nor for padding has been run. -/
theorem Ordered.pop
    (ordered : Ordered archive course) {next : Course} {call : WriterCall}
    {rest reports : List WriterCall}
    (calls : course.calls = call :: rest)
    (nextCalls : next.calls = reports ++ rest)
    (finishes : ∀ call ∈ reports, isFinish call = true)
    (pipeline : next.pipeline = course.pipeline)
    (filled : next.filled = course.filled)
    (nextPos : next.nextPos = course.nextPos)
    (notReady : ∀ id tag, call ≠ .output (.sectorReady id tag))
    (notPad : ∀ id tag pos, call = .output (.pad id tag pos) →
      archive.paddedSize ≤ pos) :
    Ordered archive next := by
  have block : next.block archive = course.block archive := by
    rw [Course.block, filled, Course.block]
  have stacked := ordered.stacked
  rw [calls] at stacked
  have kept : ∀ other, isFinish other = false → other ∈ next.calls →
      other ∈ course.calls := by
    intro other notFinish member
    rw [nextCalls] at member
    rcases List.mem_append.mp member with member | member
    · rw [finishes other member] at notFinish
      exact nomatch notFinish
    · rw [calls]
      exact List.mem_cons_of_mem call member
  refine ⟨?_, ?_, ?_, ?_, ?_⟩
  · rw [nextCalls]
    exact stacked.tail.report finishes
  · intro id tag member
    rw [pipeline]
    exact ordered.ready_call id tag (kept _ rfl member)
  · intro id other holds ready
    rw [pipeline] at holds ready
    have member := ordered.ready_stage id other holds ready
    rw [calls] at member
    rcases List.mem_cons.mp member with same | member
    · exact absurd same.symm (notReady id _)
    · rw [nextCalls]
      exact List.mem_append_right reports member
  · intro id tag pos member
    rw [nextPos, filled]
    exact ordered.pad_call id tag pos (kept _ rfl member)
  · intro ended short
    rw [nextPos] at ended
    rw [filled] at short
    obtain ⟨id, others, due, _⟩ := ordered.pad_due ended short
    rw [calls] at due
    have beyond := notPad id _ _ (List.cons.inj due).1
    omega

/-! ## Moves keep the sectors and the calls in order -/

theorem paddedSize_le_of_whole
    {filled : Nat} (whole : filled % archive.blockSize = 0)
    (ended : archive.srcSize ≤ filled) :
    archive.paddedSize ≤ filled := by
  have bounds := archive.srcSize_bounds
  have split := Nat.div_add_mod filled archive.blockSize
  rw [whole, Nat.add_zero, Nat.mul_comm] at split
  have lt : archive.blocks < filled / archive.blockSize + 1 := by
    apply @Nat.lt_of_mul_lt_mul_right archive.blockSize
    rw [Nat.add_mul, Nat.one_mul, split]
    omega
  rw [← split]
  exact Nat.mul_le_mul_right _ (Nat.lt_succ_iff.mp lt)

theorem sourceSize_le_paddedSize (archive : Archive) :
    archive.sourceSize ≤ archive.paddedSize :=
  archive.sourceSize_le_blocks

/-- The block of the next sector is still the same. -/
theorem Filled.fill_block (filled : Filled archive course) (id : SectorId)
    (filling : archive.stageAt (course.filled + sectorSize) = .filling) :
    (course.fill archive id).block archive = course.block archive := by
  have below := filled.stageAt_filling.mp filling
  have low := block_mul_le archive course
  apply Nat.div_eq_of_lt_le _ below
  exact low.trans (Nat.le_add_right _ _)

theorem Filled.fill_holds_self (filled : Filled archive course)
    {id : SectorId} (takes : course.Takes archive id) :
    (course.fill archive id).pipeline.Holds id (course.block archive) := by
  rw [filled.fill_holds]
  unfold Takes at takes
  split at takes
  · exact Or.inr ⟨‹_›, rfl, rfl⟩
  · exact Or.inl takes

/-- The next sector of the source has a place. -/
theorem Fed.room (fed : Fed archive course)
    (fetching : course.fetching = true) :
    course.filled = course.nextPos ∧
      course.nextPos + sectorSize ≤ archive.sourceSize := by
  have more := fed.fetching fetching
  have same := fed.filled_eq more
  obtain ⟨sectors, aligned⟩ := fed.aligned
  obtain ⟨total, size⟩ := archive.sectorSize_dvd_sourceSize
  refine ⟨same, ?_⟩
  simp only [sectorSize] at *
  omega

/-- A course that differs in nothing that the source decides on. -/
theorem Fed.transfer (fed : Fed archive course) {next : Course}
    (filled : next.filled = course.filled)
    (nextPos : next.nextPos = course.nextPos)
    (first : course.first ≤ next.first)
    (first_le : next.first * archive.blockSize ≤ course.filled)
    (last : next.last = course.last)
    (stages : ∀ block, next.first ≤ block → block < next.last →
      (next.pipeline.stage block = .filling ↔
        course.pipeline.stage block = .filling))
    (fetching : next.fetching = true →
      course.nextPos < archive.sourceSize) :
    Fed archive next := by
  refine ⟨⟨?_, ?_, ?_, ?_, ?_, ?_⟩, ?_, ?_, ?_, ?_⟩
  · rw [filled]
    exact fed.aligned
  · rw [filled]
    exact fed.filled_le
  · rw [filled]
    exact first_le
  · rw [filled, last]
    exact fed.filled_le_last
  · rw [filled, last]
    exact fed.last_lt
  · intro block above below
    rw [stages block above below, filled]
    rw [last] at below
    exact fed.filling block (first.trans above) below
  · rw [nextPos]
    exact fed.nextPos_le
  · rw [nextPos, filled]
    exact fed.filled_eq
  · rw [nextPos, filled]
    exact fed.sourceSize_le
  · rw [nextPos]
    exact fetching

theorem Fed.calls (fed : Fed archive course) {next : Course}
    (pipeline : next.pipeline = course.pipeline)
    (filled : next.filled = course.filled)
    (nextPos : next.nextPos = course.nextPos)
    (fetching : next.fetching = course.fetching) :
    Fed archive next := by
  have first : next.first = course.first := by
    rw [Course.first, pipeline]
    rfl
  apply fed.transfer filled nextPos first.symm.le
  · rw [first]
    exact fed.first_le
  · exact congrArg Pipeline.last pipeline
  · intro block _ _
    rw [pipeline]
  · rw [fetching]
    exact fed.fetching

/-- A block that is not being filled changes its stage. -/
theorem Fed.setStage (fed : Fed archive course) {next : Course}
    {block : Nat} {stage : BlockStage}
    (pipeline : next.pipeline = course.pipeline.setStage block stage)
    (full : course.pipeline.stage block ≠ .filling)
    (still : stage ≠ .filling)
    (filled : next.filled = course.filled)
    (nextPos : next.nextPos = course.nextPos)
    (fetching : next.fetching = course.fetching) :
    Fed archive next := by
  have first : next.first = course.first := by
    rw [Course.first, pipeline]
    rfl
  apply fed.transfer filled nextPos first.symm.le
  · rw [first]
    exact fed.first_le
  · exact (congrArg Pipeline.last pipeline).trans Pipeline.setStage_last
  · intro other _ _
    rw [pipeline]
    by_cases same : other = block
    · subst same
      rw [Pipeline.setStage_stage_self]
      exact iff_of_false still full
    · rw [Pipeline.setStage_stage_of_ne same]
  · rw [fetching]
    exact fed.fetching

/-- The first block and those of its batch are not being filled. -/
theorem Batch.not_filling
    {rest : List WriterCall} {count : Nat}
    (turn : course.Turn archive rest) (batch : course.Batch archive count)
    {block : Nat} (above : course.first ≤ block)
    (below : block < course.first + count) :
    course.pipeline.stage block = .ready ∨
      course.pipeline.stage block = .pending := by
  by_cases head : block = course.first
  · subst head
    cases turn with
    | ready _ _ ready => exact Or.inl ready
    | pending _ _ _ pending => exact Or.inr pending
  · exact Or.inr (batch.pending block (by omega) below)

theorem Fed.mark (fed : Fed archive course) {next : Course}
    {rest : List WriterCall} {count : Nat} {stage : BlockStage}
    (turn : course.Turn archive rest) (batch : course.Batch archive count)
    (pipeline : next.pipeline = course.pipeline.mark count stage)
    (still : stage ≠ .filling)
    (filled : next.filled = course.filled)
    (nextPos : next.nextPos = course.nextPos)
    (fetching : next.fetching = course.fetching) :
    Fed archive next := by
  have first : next.first = course.first := by
    rw [Course.first, pipeline]
    rfl
  apply fed.transfer filled nextPos first.symm.le
  · rw [first]
    exact fed.first_le
  · exact (congrArg Pipeline.last pipeline).trans Pipeline.mark_last
  · intro block above _
    rw [first] at above
    rw [pipeline]
    by_cases inside : block < course.first + count
    · rw [Pipeline.mark_stage_of_lt inside]
      have stages := batch.not_filling turn above inside
      refine iff_of_false still fun filling => ?_
      rw [filling] at stages
      simp at stages
    · rw [Pipeline.mark_stage_of_le (Nat.not_lt.mp inside)]
  · rw [fetching]
    exact fed.fetching

theorem bounds_of_retire
    {next : Course} {count : Nat}
    (live : course.first + count ≤ course.last)
    (pipeline : next.pipeline = course.pipeline.retire count) :
    next.first = course.first + count ∧ next.last = course.last := by
  have enough : count ≤ course.pipeline.owners.length := by
    unfold first last Pipeline.last at live
    omega
  constructor
  · rw [first, pipeline]
    rfl
  · rw [last, pipeline]
    exact Pipeline.retire_last enough

theorem Fed.retire (fed : Fed archive course) {next : Course} {count : Nat}
    (positive : 0 < count) (live : course.first + count ≤ course.last)
    (full : ∀ block, course.first ≤ block → block < course.first + count →
      course.pipeline.stage block ≠ .filling)
    (pipeline : next.pipeline = course.pipeline.retire count)
    (filled : next.filled = course.filled)
    (nextPos : next.nextPos = course.nextPos)
    (fetching : next.fetching = course.fetching) :
    Fed archive next := by
  obtain ⟨sameFirst, sameLast⟩ := bounds_of_retire live pipeline
  apply fed.transfer filled nextPos
  · rw [sameFirst]
    exact Nat.le_add_right _ _
  · have stage := full (course.first + count - 1) (by omega) (by omega)
    have written := fed.filling (course.first + count - 1) (by omega)
      (by omega)
    have number : course.first + count - 1 + 1 = course.first + count := by
      omega
    rw [number] at written
    rw [sameFirst]
    exact Nat.not_lt.mp (mt written.mpr stage)
  · exact sameLast
  · intro block _ _
    rw [pipeline]
    rfl
  · rw [fetching]
    exact fed.fetching

@[simp]
theorem flushAt_pipeline (write : IndexWrite) (gathered : Nat) :
    (course.flushAt archive write gathered).pipeline = course.pipeline := by
  unfold flushAt
  split <;> rfl

@[simp]
theorem flushAt_first (write : IndexWrite) (gathered : Nat) :
    (course.flushAt archive write gathered).first = course.first := by
  rw [first, flushAt_pipeline, first]

@[simp]
theorem flushAt_filled (write : IndexWrite) (gathered : Nat) :
    (course.flushAt archive write gathered).filled = course.filled := by
  unfold flushAt
  split <;> rfl

@[simp]
theorem flushAt_nextPos (write : IndexWrite) (gathered : Nat) :
    (course.flushAt archive write gathered).nextPos = course.nextPos := by
  unfold flushAt
  split <;> rfl

@[simp]
theorem flushAt_fetching (write : IndexWrite) (gathered : Nat) :
    (course.flushAt archive write gathered).fetching = course.fetching := by
  unfold flushAt
  split <;> rfl

theorem Fed.move (fed : Fed archive course)
    (ordered : Ordered archive course) {next : Course}
    (move : Move archive may course next) :
    Fed archive next := by
  cases move with
  | fetch idle running resumable more =>
      apply fed.transfer
      · rfl
      · rfl
      · exact Nat.le_refl _
      · exact fed.first_le
      · rfl
      · intro block _ _
        exact Iff.rfl
      · intro _
        exact more
  | arrive fetching resumable takes =>
      obtain ⟨filled, fits⟩ := fed.room fetching
      have room : course.filled < archive.paddedSize := by
        have padded := sourceSize_le_paddedSize archive
        simp only [sectorSize] at fits
        omega
      refine ⟨@Filled.fill archive { course with
          fetching := false
          nextPos := course.nextPos + sectorSize
          calls := _ } _
        ⟨fed.aligned, fed.filled_le, fed.first_le, fed.filled_le_last,
          fed.last_lt, fed.filling⟩ room, fits, ?_, ?_, ?_⟩
      · intro _
        exact congrArg (· + sectorSize) filled
      · intro ended
        exact le_of_eq (ended.symm.trans
          (congrArg (· + sectorSize) filled.symm))
      · intro again
        exact nomatch again
  | pad calls short takes =>
      have pad : course.nextPos = archive.sourceSize :=
        (ordered.pad_call _ _ _ (by rw [calls]; exact List.mem_cons_self)).1
      refine ⟨@Filled.fill archive { course with calls := _ } _
        ⟨fed.aligned, fed.filled_le, fed.first_le, fed.filled_le_last,
          fed.last_lt, fed.filling⟩ short, fed.nextPos_le, ?_, ?_, fed.fetching⟩
      · intro more
        exact absurd pad (Nat.ne_of_lt more)
      · intro ended
        exact (fed.sourceSize_le ended).trans (Nat.le_add_right _ _)
  | compressed quiet holds compressing =>
      exact fed.setStage rfl (by simp [compressing]) (by simp) rfl rfl rfl
  | compressFailed quiet holds compressing =>
      exact fed.setStage rfl (by simp [compressing]) (by simp) rfl rfl rfl
  | queue calls holds ready early =>
      exact fed.setStage rfl (by simp [ready]) (by simp) rfl rfl rfl
  | refuse turn batch refused =>
      exact fed.mark turn batch rfl (by simp) rfl rfl rfl
  | measure turn batch accepted noFile expected =>
      refine fed.retire batch.positive batch.live ?_ (flushAt_pipeline _ _)
        (flushAt_filled _ _) (flushAt_nextPos _ _) (flushAt_fetching _ _)
      intro block above below filling
      have stages := batch.not_filling turn above below
      rw [filling] at stages
      simp at stages
  | issue turn batch accepted hasFile something expected =>
      exact fed.mark turn batch (flushAt_pipeline _ _) (by simp)
        (flushAt_filled _ _) (flushAt_nextPos _ _) (flushAt_fetching _ _)
  | stall turn batch accepted hasFile nothing expected =>
      exact fed.mark turn batch (flushAt_pipeline _ _) (by simp)
        (flushAt_filled _ _) (flushAt_nextPos _ _) (flushAt_fetching _ _)
  | dataWritten quiet writes positive live writing enough
  | dataFailed quiet writes positive live writing short =>
      refine fed.retire positive live ?_ rfl rfl rfl rfl
      intro block above below filling
      rw [writing block above below] at filling
      exact nomatch filling
  | padEnd | idle | complete | progress | finish | checkQueue
  | indexWritten | indexFailed =>
      exact fed.calls rfl rfl rfl rfl

end Course

end Maxcso
