import Maxcso.Writer.Calls

/-!
# The front of the data

Which block is written next, whether a write is in flight, and when the index
is written.  A write that fails, and a batch that is refused, leave the front
where it is for good.
-/

namespace Maxcso

namespace Course

variable {archive : Archive} {may : Writer.Completions} {course : Course}

/-- Where the next write goes. -/
inductive Front (archive : Archive) (course : Course) : Prop
  | between
      (srcPos : course.srcPos = (course.first * archive.blockSize : Nat))
      (dstPos : course.dstPos = archive.pos course.first)
      (writes : course.dataWrites = [])
      (stages : ∀ block, course.first ≤ block → block < course.last →
        course.pipeline.stage block ≠ .writing)
      (waiting : course.first < course.last →
        course.pipeline.stage course.first = .pending →
          ∃ nextPos : Int,
            .output (.afterProgress nextPos) ∈ course.calls ∧
              nextPos < archive.srcSize)
      (ready : archive.blocks ≤ course.first → course.indexReady = true)
  | writing (count : Nat)
      (srcPos : course.srcPos = (course.first * archive.blockSize : Nat))
      (dstPos : course.dstPos = archive.pos course.first)
      (positive : 0 < count) (live : course.first + count ≤ course.last)
      (writes : course.dataWrites =
        [archive.batchWrite course.pipeline count])
      (stages : ∀ block, course.first ≤ block → block < course.last →
        (course.pipeline.stage block = .writing ↔
          block < course.first + count))
      (ready : archive.blocks ≤ course.first + count →
        course.indexReady = true)
  | halted (block : Nat)
      (srcPos : course.srcPos = (block * archive.blockSize : Nat))
      (before : block < course.last)
      (lost : course.first ≤ block → course.pipeline.stage block = .lost)
      (writes : course.dataWrites = [])
      (stages : ∀ block, course.first ≤ block → block < course.last →
        course.pipeline.stage block ≠ .writing)

/-- When the header and the index are written. -/
structure Indexed (archive : Archive) (course : Course) : Prop where
  unready : course.indexReady = false →
    course.indexWritten = false ∧ course.indexWrites = []
  gathered : course.indexReady = true →
    course.filled = archive.paddedSize ∧
      ∀ block, course.first ≤ block → block < course.last →
        course.pipeline.stage block = .writing ∨
          course.pipeline.stage block = .lost
  single : course.indexWrites = [] ∨ ∃ write,
    course.indexWrites = [write] ∧ course.indexWritten = false ∧
      Expected archive write ∧ archive.immediate = false
  failed : course.indexReady = true → course.indexWritten = false →
    course.indexWrites = [] → course.Reported

/-- The call that ends the data. -/
def isEnd (archive : Archive) : WriterCall → Bool
  | .output (.afterProgress nextPos) => decide (archive.srcSize ≤ nextPos)
  | _ => false

def isSuccess : WriterCall → Bool
  | .output (.finish true _) => true
  | _ => false

def isSuccessNote : WriterNote → Bool
  | .finished true _ _ => true
  | _ => false

/-- The end of the data and success are each met once. -/
structure Counted (archive : Archive) (course : Course) : Prop where
  after : ∀ nextPos : Int,
    .output (.afterProgress nextPos) ∈ course.calls →
      nextPos ≤ course.srcPos
  ends : course.calls.countP (isEnd archive) + course.dataWritten.toNat =
    if archive.srcSize ≤ course.srcPos then 1 else 0
  successes : course.calls.countP isSuccess +
    course.notes.countP isSuccessNote =
      (course.indexWritten && course.dataWritten).toNat

theorem mul_blockSize_inj {block other : Nat}
    (same : ((block * archive.blockSize : Nat) : Int) =
      (other * archive.blockSize : Nat)) :
    block = other := by
  have bounds := archive.blockSize_bounds
  exact Nat.eq_of_mul_eq_mul_right (by omega) (Int.ofNat_inj.mp same)

/-- Blocks start before the end of the image. -/
theorem srcSize_le_iff {block : Nat} :
    (archive.srcSize : Int) ≤ (block * archive.blockSize : Nat) ↔
      archive.blocks ≤ block := by
  have bounds := archive.srcSize_bounds
  constructor
  · intro beyond
    by_contra before
    have next : (block + 1) * archive.blockSize ≤
        archive.blocks * archive.blockSize :=
      Nat.mul_le_mul_right _ (by omega)
    rw [Nat.add_mul, Nat.one_mul] at next
    omega
  · intro all
    have size : archive.blocks * archive.blockSize ≤
        block * archive.blockSize :=
      Nat.mul_le_mul_right _ all
    omega

theorem first_le_last (course : Course) : course.first ≤ course.last :=
  Nat.le_add_right _ _

/-- A pending first block is looked at by a call that is due. -/
theorem Front.waiting_call
    (front : Front archive course) (live : course.first < course.last)
    (pending : course.pipeline.stage course.first = .pending)
    (srcPos : course.srcPos = (course.first * archive.blockSize : Nat)) :
    ∃ nextPos : Int, .output (.afterProgress nextPos) ∈ course.calls ∧
      nextPos < archive.srcSize := by
  cases front with
  | between _ _ _ _ waiting => exact waiting live pending
  | writing count _ _ positive _ _ stages _ =>
      have writing := (stages course.first (Nat.le_refl _) live).mpr
        (by omega)
      rw [pending] at writing
      exact nomatch writing
  | halted block same _ lost _ _ =>
      obtain rfl := mul_blockSize_inj (srcPos.symm.trans same)
      have missing := lost (Nat.le_refl _)
      rw [pending] at missing
      exact nomatch missing

/-- The end has been passed only when every block has been written. -/
theorem Front.ended
    (front : Front archive course) (filled : Filled archive course)
    (passed : (archive.srcSize : Int) ≤ course.srcPos) :
    course.first = archive.blocks ∧ course.last = archive.blocks ∧
      course.dstPos = archive.pos archive.blocks ∧
      course.dataWrites = [] ∧ course.indexReady = true := by
  have last := filled.last_le
  have le := course.first_le_last
  cases front with
  | between srcPos dstPos writes _ _ ready =>
      rw [srcPos, srcSize_le_iff] at passed
      have all : course.first = archive.blocks := by omega
      rw [all] at dstPos
      exact ⟨all, by omega, dstPos, writes, ready passed⟩
  | writing count srcPos _ positive live _ _ _ =>
      rw [srcPos, srcSize_le_iff] at passed
      omega
  | halted block srcPos before _ _ _ =>
      rw [srcPos, srcSize_le_iff] at passed
      omega

/-- A block whose turn it is, is the first. -/
theorem Front.first_of_srcPos
    (front : Front archive course) {id : SectorId} {block : Nat}
    (holds : course.pipeline.Holds id block)
    (turn : course.pipeline.stage block = .ready ∨
      course.pipeline.stage block = .pending)
    (same : course.srcPos = (block * archive.blockSize : Nat)) :
    block = course.first ∧ course.dstPos = archive.pos course.first := by
  cases front with
  | between srcPos dstPos =>
      exact ⟨mul_blockSize_inj (same.symm.trans srcPos), dstPos⟩
  | writing count srcPos _ positive live _ stages _ =>
      obtain rfl := mul_blockSize_inj (same.symm.trans srcPos)
      have writing := (stages course.first (Nat.le_refl _)
        (by omega)).mpr (by omega)
      rw [writing] at turn
      simp at turn
  | halted other srcPos _ lost _ _ =>
      obtain rfl := mul_blockSize_inj (same.symm.trans srcPos)
      rw [lost holds.1] at turn
      simp at turn

/-- A batch is gathered only while nothing is being written. -/
theorem Front.of_batch
    (front : Front archive course) {rest : List WriterCall} {count : Nat}
    (turn : course.Turn archive rest) (batch : course.Batch archive count) :
    course.dataWrites = [] ∧
      ∀ block, course.first ≤ block → block < course.last →
        course.pipeline.stage block ≠ .writing := by
  have positive := batch.positive
  have live := batch.live
  have head := batch.not_filling turn (Nat.le_refl _) (by omega)
  cases front with
  | between _ _ writes stages _ _ => exact ⟨writes, stages⟩
  | writing count _ _ positive _ _ stages _ =>
      have writing := (stages course.first (Nat.le_refl _)
        (by omega)).mpr (by omega)
      rw [writing] at head
      simp at head
  | halted block same _ lost writes stages => exact ⟨writes, stages⟩

/-- The write of the index that is in flight. -/
theorem Indexed.of_writes
    (indexed : Indexed archive course) {write : IndexWrite}
    (writes : course.indexWrites = [write]) :
    course.indexReady = true ∧ course.indexWritten = false ∧
      Expected archive write ∧ archive.immediate = false := by
  have ready : course.indexReady = true := by
    by_contra unready
    rw [(indexed.unready (Bool.not_eq_true _ ▸ unready)).2] at writes
    cases writes
  refine ⟨ready, ?_⟩
  rcases indexed.single with none | ⟨other, same, facts⟩
  · rw [none] at writes
    cases writes
  · obtain rfl := (List.cons.inj (writes.symm.trans same)).1
    exact facts

/-- A batch is gathered only before the index is ready. -/
theorem Indexed.of_batch
    (indexed : Indexed archive course) {rest : List WriterCall}
    {count : Nat} (turn : course.Turn archive rest)
    (batch : course.Batch archive count) :
    course.indexReady = false := by
  have positive := batch.positive
  have live := batch.live
  have head := batch.not_filling turn (Nat.le_refl _) (by omega)
  cases ready : course.indexReady with
  | false => rfl
  | true =>
      have gathered := (indexed.gathered ready).2 course.first
        (Nat.le_refl _) (by omega)
      rcases gathered with same | same
      · rw [same] at head
        simp at head
      · rw [same] at head
        simp at head

/-- A course in which the front has not moved. -/
theorem Front.transfer
    (front : Front archive course) {next : Course}
    (first : next.first = course.first) (last : course.last ≤ next.last)
    (owners : ∀ count ≤ course.pipeline.owners.length,
      next.pipeline.owners.take count = course.pipeline.owners.take count)
    (srcPos : next.srcPos = course.srcPos)
    (dstPos : next.dstPos = course.dstPos)
    (writes : next.dataWrites = course.dataWrites)
    (stages : ∀ block, course.first ≤ block → block < next.last →
      (next.pipeline.stage block = .writing ↔
        block < course.last ∧ course.pipeline.stage block = .writing))
    (lost : ∀ block, course.first ≤ block → block < course.last →
      course.pipeline.stage block = .lost →
        next.pipeline.stage block = .lost)
    (waiting : next.first < next.last →
      next.pipeline.stage next.first = .pending →
      course.srcPos = (course.first * archive.blockSize : Nat) →
        ∃ nextPos : Int, .output (.afterProgress nextPos) ∈ next.calls ∧
          nextPos < archive.srcSize)
    (ready : course.indexReady = true → next.indexReady = true) :
    Front archive next := by
  cases front with
  | between source target none idle _ final =>
      refine .between ?_ ?_ ?_ ?_ ?_ ?_
      · rw [srcPos, first, source]
      · rw [dstPos, first, target]
      · rw [writes, none]
      · intro block above below writing
        rw [first] at above
        obtain ⟨live, before⟩ := (stages block above below).mp writing
        exact idle block above live before
      · intro live pending
        exact waiting live pending source
      · intro all
        rw [first] at all
        exact ready (final all)
  | writing count source target positive live some written final =>
      have enough : count ≤ course.pipeline.owners.length := by
        unfold Course.first Course.last Pipeline.last at live
        omega
      refine .writing count ?_ ?_ positive ?_ ?_ ?_ ?_
      · rw [srcPos, first, source]
      · rw [dstPos, first, target]
      · rw [first]
        omega
      · have same : next.pipeline.first = course.pipeline.first := first
        rw [writes, some, Archive.batchWrite, Archive.batchWrite,
          owners count enough, same]
      · intro block above below
        rw [first] at above ⊢
        rw [stages block above below]
        constructor
        · rintro ⟨live, before⟩
          exact (written block above live).mp before
        · intro inside
          have alive : block < course.last := by omega
          exact ⟨alive, (written block above alive).mpr inside⟩
      · intro all
        rw [first] at all
        exact ready (final all)
  | halted block source before gone none idle =>
      refine .halted block ?_ ?_ ?_ ?_ ?_
      · rw [srcPos, source]
      · omega
      · intro above
        rw [first] at above
        exact lost block above before (gone above)
      · rw [writes, none]
      · intro other above below writing
        rw [first] at above
        obtain ⟨live, written⟩ := (stages other above below).mp writing
        exact idle other above live written

/-- The blocks and what is in flight have not changed. -/
theorem Front.keep
    (front : Front archive course) {next : Course}
    (pipeline : next.pipeline = course.pipeline)
    (srcPos : next.srcPos = course.srcPos)
    (dstPos : next.dstPos = course.dstPos)
    (writes : next.dataWrites = course.dataWrites)
    (kept : course.Waiting archive → ∀ nextPos : Int,
      nextPos < archive.srcSize →
        .output (.afterProgress nextPos) ∈ course.calls →
          .output (.afterProgress nextPos) ∈ next.calls)
    (ready : course.indexReady = true → next.indexReady = true) :
    Front archive next := by
  have first : next.first = course.first :=
    congrArg Pipeline.first pipeline
  have last : next.last = course.last := congrArg Pipeline.last pipeline
  apply front.transfer first last.symm.le _ srcPos dstPos writes
  · intro block above below
    rw [last] at below
    rw [pipeline]
    exact (and_iff_right below).symm
  · intro block _ _ lost
    rwa [pipeline]
  · intro live pending source
    rw [first, last] at live
    rw [pipeline, first] at pending
    obtain ⟨nextPos, due, more⟩ := front.waiting_call live pending source
    exact ⟨nextPos, kept ⟨live, pending, source⟩ nextPos more due, more⟩
  · exact ready
  · intro count _
    rw [pipeline]

/-- A block that is neither being written nor lost changes its stage. -/
theorem Front.setStage
    (front : Front archive course) {next : Course} {block : Nat}
    {stage : BlockStage}
    (pipeline : next.pipeline = course.pipeline.setStage block stage)
    (srcPos : next.srcPos = course.srcPos)
    (dstPos : next.dstPos = course.dstPos)
    (writes : next.dataWrites = course.dataWrites)
    (notWriting : course.pipeline.stage block ≠ .writing)
    (notLost : course.pipeline.stage block ≠ .lost)
    (still : stage ≠ .writing)
    (early : stage = .pending →
      course.srcPos ≠ (block * archive.blockSize : Nat))
    (kept : ∀ nextPos : Int,
      .output (.afterProgress nextPos) ∈ course.calls →
        .output (.afterProgress nextPos) ∈ next.calls)
    (ready : course.indexReady = true → next.indexReady = true) :
    Front archive next := by
  have first : next.first = course.first := by
    rw [Course.first, pipeline]
    rfl
  have last : next.last = course.last :=
    (congrArg Pipeline.last pipeline).trans Pipeline.setStage_last
  apply front.transfer first last.symm.le _ srcPos dstPos writes
  · intro other above below
    rw [last] at below
    rw [pipeline, and_iff_right below]
    by_cases same : other = block
    · subst same
      rw [Pipeline.setStage_stage_self]
      exact iff_of_false still notWriting
    · rw [Pipeline.setStage_stage_of_ne same]
  · intro other _ _ lost
    rw [pipeline]
    by_cases same : other = block
    · subst same
      exact absurd lost notLost
    · rwa [Pipeline.setStage_stage_of_ne same]
  · intro live pending source
    rw [first, last] at live
    rw [pipeline, first] at pending
    by_cases same : course.first = block
    · rw [same, Pipeline.setStage_stage_self] at pending
      rw [same] at source
      exact absurd source (early pending)
    · rw [Pipeline.setStage_stage_of_ne same] at pending
      obtain ⟨nextPos, due, more⟩ := front.waiting_call live pending source
      exact ⟨nextPos, kept nextPos due, more⟩
  · exact ready
  · intro count _
    rw [pipeline]
    rfl

/-- A sector or padding is put into the newest block. -/
theorem Front.fill
    (front : Front archive course) (filled : Filled archive course)
    {id : SectorId} {next : Course}
    (pipeline : next.pipeline = (course.fill archive id).pipeline)
    (srcPos : next.srcPos = course.srcPos)
    (dstPos : next.dstPos = course.dstPos)
    (writes : next.dataWrites = course.dataWrites)
    (kept : ∀ nextPos : Int,
      .output (.afterProgress nextPos) ∈ course.calls →
        .output (.afterProgress nextPos) ∈ next.calls)
    (ready : course.indexReady = true → next.indexReady = true) :
    Front archive next := by
  have first : next.first = course.first :=
    (congrArg Pipeline.first pipeline).trans (fill_first id)
  have last : next.last = course.block archive + 1 :=
    (congrArg Pipeline.last pipeline).trans (filled.fill_last id)
  have newest : course.block archive ≤ course.last ∧
      course.last ≤ course.block archive + 1 := by
    by_cases whole : course.filled % archive.blockSize = 0
    · have new := filled.block_new whole
      omega
    · have old := filled.block_newest whole
      omega
  have filling : course.block archive < course.last →
      course.first ≤ course.block archive →
        course.pipeline.stage (course.block archive) = .filling := by
    intro live above
    exact (filled.filling _ above live).mpr (lt_succ_block_mul _ _)
  have stageAt : archive.stageAt (course.filled + sectorSize) ≠ .writing ∧
      archive.stageAt (course.filled + sectorSize) ≠ .pending := by
    unfold Archive.stageAt
    split
    · simp
    · split <;> simp
  apply front.transfer first (newest.2.trans last.symm.le) _ srcPos dstPos
    writes
  · intro block above below
    rw [last] at below
    rw [pipeline]
    by_cases same : block = course.block archive
    · subst same
      rw [fill_stage_self]
      refine iff_of_false stageAt.1 ?_
      rintro ⟨live, writing⟩
      rw [filling live above] at writing
      exact nomatch writing
    · rw [filled.fill_stage_of_ne id same]
      have live : block < course.last := by omega
      rw [and_iff_right live]
  · intro block above live lost
    rw [pipeline]
    by_cases same : block = course.block archive
    · subst same
      rw [filling live above] at lost
      exact nomatch lost
    · rwa [filled.fill_stage_of_ne id same]
  · intro live pending source
    rw [first, last] at live
    rw [pipeline, first] at pending
    by_cases same : course.first = course.block archive
    · rw [same, fill_stage_self] at pending
      exact absurd pending stageAt.2
    · rw [filled.fill_stage_of_ne id same] at pending
      obtain ⟨nextPos, due, more⟩ :=
        front.waiting_call (by omega) pending source
      exact ⟨nextPos, kept nextPos due, more⟩
  · exact ready
  · intro count enough
    rw [pipeline]
    unfold Course.fill
    dsimp only
    split
    · exact List.take_append_of_le_length enough
    · rfl

/-- Blocks that were not being written are lost. -/
theorem Front.lose
    (front : Front archive course) {rest : List WriterCall} {count : Nat}
    (turn : course.Turn archive rest) (batch : course.Batch archive count)
    {next : Course}
    (pipeline : next.pipeline = course.pipeline.mark count .lost)
    (srcPos : next.srcPos = course.srcPos)
    (writes : next.dataWrites = course.dataWrites) :
    Front archive next := by
  have positive := batch.positive
  have live := batch.live
  obtain ⟨none, idle⟩ := front.of_batch turn batch
  have first : next.first = course.first := by
    rw [Course.first, pipeline]
    rfl
  have last : next.last = course.last :=
    (congrArg Pipeline.last pipeline).trans Pipeline.mark_last
  refine .halted course.first ?_ ?_ ?_ ?_ ?_
  · rw [srcPos]
    exact batch.srcPos
  · rw [last]
    omega
  · intro _
    rw [pipeline]
    apply Pipeline.mark_stage_of_lt
    exact Nat.lt_add_of_pos_right positive
  · rw [writes, none]
  · intro block above below
    rw [first] at above
    rw [last] at below
    rw [pipeline]
    by_cases inside : block < course.first + count
    · rw [Pipeline.mark_stage_of_lt inside]
      simp
    · rw [Pipeline.mark_stage_of_le (Nat.not_lt.mp inside)]
      exact idle block above below

/-- The first blocks have been written. -/
theorem Front.advance
    {next : Course} {count : Nat}
    (live : course.first + count ≤ course.last)
    (last : course.last ≤ archive.blocks)
    (pipeline : next.pipeline = course.pipeline.retire count)
    (srcPos : next.srcPos =
      ((course.first + count) * archive.blockSize : Nat))
    (dstPos : next.dstPos = archive.pos (course.first + count))
    (writes : next.dataWrites = [])
    (idle : ∀ block, course.first + count ≤ block → block < course.last →
      course.pipeline.stage block ≠ .writing)
    (due : .output (.afterProgress
      ((course.first + count) * archive.blockSize : Nat)) ∈ next.calls)
    (ready : archive.blocks ≤ course.first + count →
      next.indexReady = true) :
    Front archive next := by
  obtain ⟨first, sameLast⟩ := bounds_of_retire live pipeline
  refine .between ?_ ?_ writes ?_ ?_ ?_
  · rw [srcPos, first]
  · rw [dstPos, first]
  · intro block above below
    rw [first] at above
    rw [sameLast] at below
    rw [pipeline]
    exact idle block above below
  · intro alive _
    rw [first, sameLast] at alive
    refine ⟨_, due, ?_⟩
    by_contra beyond
    have all := srcSize_le_iff.mp (Int.not_lt.mp beyond)
    omega
  · intro all
    rw [first] at all
    exact ready all

@[simp]
theorem flushAt_srcPos (write : IndexWrite) (gathered : Nat) :
    (course.flushAt archive write gathered).srcPos = course.srcPos := by
  unfold flushAt
  split <;> rfl

@[simp]
theorem flushAt_dstPos (write : IndexWrite) (gathered : Nat) :
    (course.flushAt archive write gathered).dstPos = course.dstPos := by
  unfold flushAt
  split <;> rfl

@[simp]
theorem flushAt_dataWrites (write : IndexWrite) (gathered : Nat) :
    (course.flushAt archive write gathered).dataWrites =
      course.dataWrites := by
  unfold flushAt
  split <;> rfl

theorem flushAt_indexReady (write : IndexWrite) {gathered : Nat}
    (all : archive.blocks ≤ gathered) :
    (course.flushAt archive write gathered).indexReady = true := by
  unfold flushAt
  rw [if_pos all]
  rfl

/-- The write in flight is of the first blocks that are being written. -/
theorem Front.of_writes
    (front : Front archive course) {count : Nat}
    (positive : 0 < count) (live : course.first + count ≤ course.last)
    (writes : course.dataWrites =
      [archive.batchWrite course.pipeline count]) :
    course.srcPos = (course.first * archive.blockSize : Nat) ∧
      course.dstPos = archive.pos course.first ∧
      (∀ block, course.first ≤ block → block < course.last →
        (course.pipeline.stage block = .writing ↔
          block < course.first + count)) ∧
      (archive.blocks ≤ course.first + count →
        course.indexReady = true) := by
  cases front with
  | between _ _ none _ _ _ =>
      rw [none] at writes
      exact nomatch writes
  | writing other srcPos dstPos _ live' same stages ready =>
      rw [same] at writes
      have sectors := congrArg (fun write => write.sectors.length)
        (List.cons.inj writes).1
      have enough : count ≤ course.pipeline.owners.length ∧
          other ≤ course.pipeline.owners.length := by
        unfold Course.first Course.last Pipeline.last at live live'
        omega
      simp only [Archive.batchWrite, List.length_take] at sectors
      obtain rfl : other = count := by omega
      exact ⟨srcPos, dstPos, stages, ready⟩
  | halted _ _ _ _ none _ =>
      rw [none] at writes
      exact nomatch writes

/-- Other calls are kept when a call has been run. -/
theorem kept_of_cons
    {call other : WriterCall} {rest : List WriterCall}
    (calls : course.calls = call :: rest) (different : other ≠ call)
    (member : other ∈ course.calls) : other ∈ rest := by
  rw [calls] at member
  rcases List.mem_cons.mp member with same | member
  · exact absurd same different
  · exact member

theorem Front.move
    (front : Front archive course) (fed : Fed archive course)
    (counted : Counted archive course) {next : Course}
    (move : Move archive may course next) :
    Front archive next := by
  cases move with
  | fetch =>
      exact front.keep rfl rfl rfl rfl (fun _ _ _ due => due) id
  | @arrive id fetching resumable takes =>
      refine front.fill fed.toFilled rfl rfl rfl rfl ?_ (fun ready => ready)
      intro nextPos due
      rw [Course.arrive, mem_fill_calls id (by simp)]
      exact List.mem_append_right _ (List.mem_cons_of_mem _ due)
  | @pad id rest calls short takes =>
      refine front.fill fed.toFilled rfl rfl rfl rfl ?_ (fun ready => ready)
      intro nextPos due
      rw [mem_fill_calls id (by simp)]
      exact List.mem_cons_of_mem _
        (kept_of_cons calls (by simp [padCall]) due)
  | padEnd calls | progress calls | finish calls | checkQueue calls =>
      refine front.keep rfl rfl rfl rfl ?_ (fun ready => ready)
      intro _ nextPos _ due
      exact kept_of_cons calls (by simp) due
  | idle calls more nothing =>
      refine front.keep rfl rfl rfl rfl ?_ (fun ready => ready)
      intro waiting
      exact absurd waiting nothing
  | @complete nextPos rest calls all =>
      have passed := counted.after nextPos
        (by rw [calls]; exact List.mem_cons_self)
      obtain ⟨first, last, _⟩ :=
        front.ended fed.toFilled (all.trans passed)
      refine front.keep rfl rfl rfl rfl ?_ (fun ready => ready)
      intro waiting
      have live := waiting.1
      omega
  | compressed quiet holds compressing
  | compressFailed quiet holds compressing =>
      refine front.setStage rfl rfl rfl rfl (by simp [compressing])
        (by simp [compressing]) (by simp) (by simp) ?_ (fun ready => ready)
      intro nextPos due
      rw [quiet] at due
      cases due
  | queue calls holds ready early =>
      refine front.setStage rfl rfl rfl rfl (by simp [ready])
        (by simp [ready]) (by simp) (fun _ => early) ?_ (fun ready => ready)
      intro nextPos due
      exact kept_of_cons calls (by simp [readyCall]) due
  | refuse turn batch refused =>
      exact front.lose turn batch rfl rfl rfl
  | stall turn batch =>
      exact front.lose turn batch (flushAt_pipeline _ _) (flushAt_srcPos _ _)
        (flushAt_dataWrites _ _)
  | @measure rest count write turn batch accepted noFile expected =>
      obtain ⟨none, idle⟩ := front.of_batch turn batch
      refine Front.advance batch.live fed.last_le (flushAt_pipeline _ _)
        (flushAt_srcPos _ _) (flushAt_dstPos _ _)
        ((flushAt_dataWrites _ _).trans none) ?_ ?_
        (flushAt_indexReady write)
      · intro block above below
        exact idle block (by omega) below
      · rw [mem_flushAt_calls rfl]
        exact List.mem_cons_of_mem _ List.mem_cons_self
  | @issue rest count write turn batch accepted hasFile something expected =>
      obtain ⟨none, idle⟩ := front.of_batch turn batch
      have first : (flushAt archive
          { course with
            pipeline := course.pipeline.mark count .writing
            dataWrites := [archive.batchWrite course.pipeline count]
            calls := rest }
          write (course.first + count)).first = course.first := by
        rw [Course.first, flushAt_pipeline]
        rfl
      have last : (flushAt archive
          { course with
            pipeline := course.pipeline.mark count .writing
            dataWrites := [archive.batchWrite course.pipeline count]
            calls := rest }
          write (course.first + count)).last = course.last := by
        rw [Course.last, flushAt_pipeline]
        rfl
      refine .writing count ?_ ?_ batch.positive ?_ ?_ ?_ ?_
      · rw [flushAt_srcPos, first]
        exact batch.srcPos
      · rw [flushAt_dstPos, first]
        exact batch.dstPos
      · rw [first, last]
        exact batch.live
      · rw [flushAt_dataWrites, flushAt_pipeline]
        rfl
      · intro block above below
        rw [first] at above ⊢
        rw [last] at below
        rw [flushAt_pipeline]
        by_cases inside : block < course.first + count
        · rw [Pipeline.mark_stage_of_lt inside]
          exact iff_of_true rfl inside
        · rw [Pipeline.mark_stage_of_le (Nat.not_lt.mp inside)]
          exact iff_of_false (idle block above below) inside
      · rw [first]
        exact flushAt_indexReady write
  | @dataWritten count result quiet writes positive live writing enough =>
      obtain ⟨srcPos, dstPos, stages, ready⟩ :=
        front.of_writes positive live writes
      refine Front.advance live fed.last_le rfl rfl rfl rfl ?_ ?_ ready
      · intro block above below writing
        have inside := (stages block (by omega) below).mp writing
        omega
      · exact List.mem_cons_of_mem _ List.mem_cons_self
  | @dataFailed count result quiet writes positive live writing short =>
      obtain ⟨srcPos, dstPos, stages, ready⟩ :=
        front.of_writes positive live writes
      obtain ⟨first, last⟩ := @bounds_of_retire course
        { course with pipeline := course.pipeline.retire count } count live
        rfl
      refine .halted course.first srcPos ?_ ?_ rfl ?_
      · exact lt_of_lt_of_eq (by omega) last.symm
      · intro above
        have beyond : course.first + count ≤ course.first := above
        omega
      · intro block above below writing
        have live' : block < course.last := lt_of_lt_of_eq below last
        have beyond : course.first + count ≤ block := above
        have inside := (stages block (by omega) live').mp writing
        omega
  | indexWritten quiet | indexFailed quiet =>
      refine front.keep rfl rfl rfl rfl ?_ (fun ready => ready)
      intro _ nextPos _ due
      rw [quiet] at due
      cases due

/-! ## The index -/

theorem Indexed.keep
    (indexed : Indexed archive course) {next : Course}
    (ready : next.indexReady = course.indexReady)
    (written : next.indexWritten = course.indexWritten)
    (writes : next.indexWrites = course.indexWrites)
    (reported : course.Reported → next.Reported)
    (gathered : course.indexReady = true →
      next.filled = archive.paddedSize ∧
        ∀ block, next.first ≤ block → block < next.last →
          next.pipeline.stage block = .writing ∨
            next.pipeline.stage block = .lost) :
    Indexed archive next := by
  refine ⟨?_, ?_, ?_, ?_⟩
  · rw [ready, written, writes]
    exact indexed.unready
  · rw [ready]
    exact gathered
  · rw [written, writes]
    exact indexed.single
  · rw [ready, written, writes]
    intro all missing none
    exact reported (indexed.failed all missing none)

/-- A live block that is not gathered shows that the index is not ready. -/
theorem Indexed.not_ready
    (indexed : Indexed archive course) {id : SectorId} {block : Nat}
    (holds : course.pipeline.Holds id block)
    (notWriting : course.pipeline.stage block ≠ .writing)
    (notLost : course.pipeline.stage block ≠ .lost) :
    course.indexReady ≠ true := by
  intro ready
  rcases (indexed.gathered ready).2 block holds.1 holds.lt_last with
    writing | lost
  · exact notWriting writing
  · exact notLost lost

/-- The last block of a batch that reaches the end is full. -/
theorem Batch.filled
    (filled : Filled archive course) {rest : List WriterCall} {count : Nat}
    (turn : course.Turn archive rest) (batch : course.Batch archive count)
    (all : archive.blocks ≤ course.first + count) :
    course.filled = archive.paddedSize := by
  have positive := batch.positive
  have live := batch.live
  have last := filled.last_le
  have low := filled.filled_le
  have stages := batch.not_filling turn
    (show course.first ≤ archive.blocks - 1 by omega) (by omega)
  have full := filled.filling (archive.blocks - 1) (by omega) (by omega)
  have number : archive.blocks - 1 + 1 = archive.blocks := by omega
  rw [number] at full
  have notFilling : course.pipeline.stage (archive.blocks - 1) ≠
      .filling := by
    intro filling
    rw [filling] at stages
    simp at stages
  have high := mt full.mpr notFilling
  rw [Archive.paddedSize] at low ⊢
  omega

/-- A batch has been gathered, and the index is flushed after the last. -/
theorem Indexed.flushAt
    (indexed : Indexed archive course) (filled : Filled archive course)
    {rest : List WriterCall} {count : Nat} {write : IndexWrite}
    (turn : course.Turn archive rest) (batch : course.Batch archive count)
    (expected : Expected archive write) {next : Course}
    (ready : next.indexReady = course.indexReady)
    (written : next.indexWritten = course.indexWritten)
    (writes : next.indexWrites = course.indexWrites)
    (sameFilled : next.filled = course.filled)
    (gathered : archive.blocks ≤ course.first + count →
      ∀ block, next.first ≤ block → block < next.last →
        next.pipeline.stage block = .writing ∨
          next.pipeline.stage block = .lost) :
    Indexed archive
      (next.flushAt archive write (course.first + count)) := by
  have unready := indexed.of_batch turn batch
  unfold Course.flushAt
  split
  · rename_i all
    have full := batch.filled filled turn all
    refine ⟨?_, ?_, ?_, ?_⟩
    · intro never
      exact nomatch never
    · intro _
      exact ⟨sameFilled.trans full, gathered all⟩
    · cases immediate : archive.immediate with
      | true =>
          refine Or.inl ?_
          simp [Course.flush, immediate]
      | false =>
          refine Or.inr ⟨write, ?_, ?_, expected, rfl⟩
          · simp [Course.flush, immediate]
          · exact immediate
    · intro _ missing none
      have immediate : archive.immediate = false := missing
      simp [Course.flush, immediate] at none
  · have never : next.indexReady ≠ true := by
      rw [ready, unready]
      exact Bool.false_ne_true
    refine ⟨?_, ?_, ?_, ?_⟩
    · rw [ready, written, writes]
      exact indexed.unready
    · intro all
      exact absurd all never
    · rw [written, writes]
      exact indexed.single
    · intro all
      exact absurd all never

theorem Indexed.move
    (indexed : Indexed archive course) (fed : Fed archive course)
    {next : Course} (move : Move archive may course next) :
    Indexed archive next := by
  have reported : course.Reported → next.Reported :=
    fun before => before.move move
  cases move with
  | fetch | padEnd | idle | complete | progress | finish | checkQueue =>
      exact indexed.keep rfl rfl rfl reported indexed.gathered
  | arrive fetching resumable takes =>
      refine indexed.keep rfl rfl rfl reported ?_
      intro ready
      have full := (indexed.gathered ready).1
      obtain ⟨filled, fits⟩ := fed.room fetching
      have padded := sourceSize_le_paddedSize archive
      simp only [sectorSize] at fits
      omega
  | pad calls short takes =>
      refine indexed.keep rfl rfl rfl reported ?_
      intro ready
      have full := (indexed.gathered ready).1
      omega
  | compressed quiet holds compressing
  | compressFailed quiet holds compressing =>
      refine indexed.keep rfl rfl rfl reported ?_
      intro ready
      exact absurd ready (indexed.not_ready holds (by simp [compressing])
        (by simp [compressing]))
  | queue calls holds early =>
      refine indexed.keep rfl rfl rfl reported ?_
      intro ready
      exact absurd ready (indexed.not_ready holds (by simp [early])
        (by simp [early]))
  | refuse turn batch refused =>
      refine indexed.keep rfl rfl rfl reported ?_
      intro ready
      rw [indexed.of_batch turn batch] at ready
      exact nomatch ready
  | @measure rest count write turn batch accepted noFile expected =>
      refine indexed.flushAt fed.toFilled turn batch expected rfl rfl rfl rfl
        ?_
      intro all block above below
      have last := fed.last_le
      obtain ⟨first, same⟩ := @bounds_of_retire course
        (course.retire archive count rest) count batch.live rfl
      rw [first] at above
      rw [same] at below
      omega
  | issue turn batch accepted hasFile something expected =>
      refine indexed.flushAt fed.toFilled turn batch expected rfl rfl rfl rfl
        ?_
      intro all block above below
      have last := fed.last_le
      exact Or.inl (Pipeline.mark_stage_of_lt
        (lt_of_lt_of_le below (last.trans all)))
  | stall turn batch accepted hasFile nothing expected =>
      refine indexed.flushAt fed.toFilled turn batch expected rfl rfl rfl rfl
        ?_
      intro all block above below
      have last := fed.last_le
      exact Or.inr (Pipeline.mark_stage_of_lt
        (lt_of_lt_of_le below (last.trans all)))
  | dataWritten quiet writes positive live writing enough
  | dataFailed quiet writes positive live writing enough =>
      refine indexed.keep rfl rfl rfl reported ?_
      intro ready
      obtain ⟨full, gathered⟩ := indexed.gathered ready
      refine ⟨full, ?_⟩
      intro block above below
      obtain ⟨first, last⟩ := @bounds_of_retire course
        { course with pipeline := course.pipeline.retire _ } _ live rfl
      have beyond : course.first + _ ≤ block := above
      exact gathered block (by omega) (lt_of_lt_of_eq below last)
  | indexWritten quiet writes enough =>
      refine ⟨?_, indexed.gathered, Or.inl rfl, ?_⟩
      · intro unready
        rw [(indexed.unready unready).2] at writes
        exact nomatch writes
      · intro _ never
        exact nomatch never
  | indexFailed quiet writes short =>
      refine ⟨?_, indexed.gathered, Or.inl rfl, ?_⟩
      · intro unready
        rw [(indexed.unready unready).2] at writes
        exact nomatch writes
      · intro _ _ _
        exact Or.inl ⟨_, List.mem_cons_self⟩

/-! ## Counting the end and the success -/

theorem countP_finishCalls (done : Bool) :
    (finishCalls done).countP (isEnd archive) = 0 ∧
      (finishCalls done).countP isSuccess = done.toNat := by
  cases done with
  | false => exact ⟨rfl, rfl⟩
  | true => exact ⟨rfl, rfl⟩

/-- The front has not moved. -/
theorem Counted.keep
    (counted : Counted archive course) {next : Course}
    (srcPos : next.srcPos = course.srcPos)
    (dataWritten : next.dataWritten = course.dataWritten)
    (indexWritten : next.indexWritten = course.indexWritten)
    (notes : next.notes.countP isSuccessNote =
      course.notes.countP isSuccessNote)
    (after : ∀ nextPos : Int,
      .output (.afterProgress nextPos) ∈ next.calls →
        .output (.afterProgress nextPos) ∈ course.calls)
    (ends : next.calls.countP (isEnd archive) =
      course.calls.countP (isEnd archive))
    (successes : next.calls.countP isSuccess =
      course.calls.countP isSuccess) :
    Counted archive next := by
  refine ⟨?_, ?_, ?_⟩
  · intro nextPos member
    rw [srcPos]
    exact counted.after nextPos (after nextPos member)
  · rw [ends, dataWritten, srcPos]
    exact counted.ends
  · rw [successes, notes, indexWritten, dataWritten]
    exact counted.successes

/-- A call that is not counted has been run. -/
theorem Counted.pop
    (counted : Counted archive course) {next : Course} {call : WriterCall}
    {rest : List WriterCall} (calls : course.calls = call :: rest)
    (nextCalls : next.calls = rest)
    (notEnd : isEnd archive call = false) (notSuccess : isSuccess call = false)
    (srcPos : next.srcPos = course.srcPos)
    (dataWritten : next.dataWritten = course.dataWritten)
    (indexWritten : next.indexWritten = course.indexWritten)
    (notes : next.notes.countP isSuccessNote =
      course.notes.countP isSuccessNote) :
    Counted archive next := by
  apply counted.keep srcPos dataWritten indexWritten notes
  · intro nextPos member
    rw [calls]
    rw [nextCalls] at member
    exact List.mem_cons_of_mem _ member
  · rw [calls, nextCalls, List.countP_cons_of_neg (by simp [notEnd])]
  · rw [calls, nextCalls, List.countP_cons_of_neg (by simp [notSuccess])]

/-- Before the last block has been written the end has not been met. -/
theorem Counted.early
    (counted : Counted archive course)
    (srcPos : course.srcPos = (course.first * archive.blockSize : Nat))
    (live : course.first < archive.blocks) :
    course.calls.countP (isEnd archive) = 0 ∧ course.dataWritten = false := by
  have ends := counted.ends
  have before : ¬ (archive.srcSize : Int) ≤ course.srcPos := by
    rw [srcPos, srcSize_le_iff]
    omega
  rw [if_neg before] at ends
  refine ⟨by omega, ?_⟩
  cases done : course.dataWritten with
  | false => rfl
  | true =>
      rw [done] at ends
      exact nomatch ends

/-- The running call of a turn is not counted. -/
theorem Turn.not_counted {rest : List WriterCall}
    (turn : course.Turn archive rest) :
    ∃ call, course.calls = call :: rest ∧ isEnd archive call = false ∧
      isSuccess call = false := by
  cases turn with
  | ready calls => exact ⟨_, calls, rfl, rfl⟩
  | pending calls more =>
      refine ⟨_, calls, ?_, rfl⟩
      exact decide_eq_false (Int.not_le.mpr more)

/-- A turn has been run. -/
theorem Counted.turn
    (counted : Counted archive course) (fed : Fed archive course)
    {next : Course} {rest reports front : List WriterCall} {count : Nat}
    (turn : course.Turn archive rest) (batch : course.Batch archive count)
    (calls : next.calls = reports ++ (front ++ rest))
    (finishes : ∀ call ∈ reports,
      ∃ reason, call = .output (.finish false reason))
    (srcPos : course.srcPos ≤ next.srcPos)
    (dataWritten : next.dataWritten = course.dataWritten)
    (notes : next.notes = course.notes)
    (after : ∀ nextPos : Int,
      .output (.afterProgress nextPos) ∈ front → nextPos ≤ next.srcPos)
    (ends : front.countP (isEnd archive) =
      if archive.srcSize ≤ next.srcPos then 1 else 0)
    (successes : front.countP isSuccess = 0) :
    Counted archive next := by
  have positive := batch.positive
  have live := batch.live
  have last := fed.last_le
  obtain ⟨call, running, notEnd, notSuccess⟩ := turn.not_counted
  obtain ⟨noEnd, notDone⟩ := counted.early batch.srcPos (by omega)
  have success := counted.successes
  rw [running, List.countP_cons_of_neg (by simp [notEnd])] at noEnd
  rw [running, List.countP_cons_of_neg (by simp [notSuccess]), notDone,
    Bool.and_false] at success
  have reported : reports.countP (isEnd archive) = 0 ∧
      reports.countP isSuccess = 0 := by
    constructor
    · rw [List.countP_eq_zero]
      intro other member
      obtain ⟨reason, rfl⟩ := finishes other member
      exact Bool.false_ne_true
    · rw [List.countP_eq_zero]
      intro other member
      obtain ⟨reason, rfl⟩ := finishes other member
      exact Bool.false_ne_true
  refine ⟨?_, ?_, ?_⟩
  · intro nextPos member
    rw [calls] at member
    rcases List.mem_append.mp member with member | member
    · obtain ⟨reason, same⟩ := finishes _ member
      exact nomatch same
    · rcases List.mem_append.mp member with member | member
      · exact after nextPos member
      · refine (counted.after nextPos ?_).trans srcPos
        rw [running]
        exact List.mem_cons_of_mem _ member
  · rw [calls, List.countP_append, List.countP_append, reported.1, noEnd,
      ends, dataWritten, notDone, Nat.zero_add, Nat.add_zero]
    rfl
  · rw [calls, List.countP_append, List.countP_append, reported.2, successes,
      notes, dataWritten, notDone, Bool.and_false]
    omega

theorem finishes_flushed {gathered : Nat} :
    ∀ call ∈ if archive.blocks ≤ gathered then archive.report else [],
      ∃ reason, call = .output (.finish false reason) := by
  intro call member
  split at member
  · exact mem_report member
  · exact nomatch member

@[simp]
theorem flushAt_dataWritten (write : IndexWrite) (gathered : Nat) :
    (course.flushAt archive write gathered).dataWritten =
      course.dataWritten := by
  unfold flushAt
  split <;> rfl

@[simp]
theorem flushAt_notes (write : IndexWrite) (gathered : Nat) :
    (course.flushAt archive write gathered).notes = course.notes := by
  unfold flushAt
  split <;> rfl

/-- The position of a batch lies before the end. -/
theorem Batch.before_end
    (fed : Fed archive course) {count : Nat}
    (batch : course.Batch archive count) :
    ¬ (archive.srcSize : Int) ≤ course.srcPos := by
  have positive := batch.positive
  have live := batch.live
  have last := fed.last_le
  rw [batch.srcPos, srcSize_le_iff]
  omega

theorem countP_fill_calls {counted : WriterCall → Bool} (id : SectorId)
    (ready : ∀ id tag, counted (.output (.sectorReady id tag)) = false) :
    (course.fill archive id).calls.countP counted =
      course.calls.countP counted := by
  rw [fill_calls]
  split
  · exact List.countP_cons_of_neg (by simp [readyCall, ready])
  · rfl

theorem countP_padCalls {counted : WriterCall → Bool} (id : SectorId)
    (pad : ∀ id tag pos, counted (.output (.pad id tag pos)) = false) :
    (course.padCalls archive id).countP counted = 0 := by
  unfold padCalls
  split
  · simp [padCall, pad]
  · rfl

/-- The calls that a write leaves count the end. -/
theorem countP_advance (nextPos total written : Int) :
    [WriterCall.output (.progress nextPos total written),
      .output (.afterProgress nextPos)].countP (isEnd archive) =
        if archive.srcSize ≤ nextPos then 1 else 0 := by
  by_cases beyond : (archive.srcSize : Int) ≤ nextPos
  · simp [isEnd, beyond]
  · simp [isEnd, beyond]

theorem Counted.move
    (counted : Counted archive course) (front : Front archive course)
    (indexed : Indexed archive course) (fed : Fed archive course)
    {next : Course} (move : Move archive may course next) :
    Counted archive next := by
  cases move with
  | fetch => exact ⟨counted.after, counted.ends, counted.successes⟩
  | @arrive id fetching resumable takes =>
      refine counted.keep rfl rfl rfl rfl ?_ ?_ ?_
      · intro nextPos member
        rw [Course.arrive, mem_fill_calls id (by simp)] at member
        rcases List.mem_append.mp member with pad | member
        · unfold padCalls at pad
          split at pad
          · exact absurd (List.mem_singleton.mp pad) (by simp [padCall])
          · cases pad
        · rcases List.mem_cons.mp member with same | member
          · cases same
          · exact member
      · rw [Course.arrive, countP_fill_calls id (fun _ _ => rfl),
          List.countP_append, countP_padCalls id (fun _ _ _ => rfl)]
        simp [isEnd]
      · rw [Course.arrive, countP_fill_calls id (fun _ _ => rfl),
          List.countP_append, countP_padCalls id (fun _ _ _ => rfl)]
        simp [isSuccess]
  | @pad id rest calls short takes =>
      refine counted.keep rfl rfl rfl rfl ?_ ?_ ?_
      · intro nextPos member
        rw [mem_fill_calls id (by simp)] at member
        rw [calls]
        exact List.mem_cons_of_mem _
          (kept_of_cons rfl (by simp [padCall]) member)
      · rw [countP_fill_calls id (fun _ _ => rfl), calls]
        simp [isEnd, padCall]
      · rw [countP_fill_calls id (fun _ _ => rfl), calls]
        simp [isSuccess, padCall]
  | padEnd calls | checkQueue calls =>
      exact counted.pop calls rfl rfl rfl rfl rfl rfl rfl
  | queue calls => exact counted.pop calls rfl rfl rfl rfl rfl rfl rfl
  | progress calls =>
      refine counted.pop calls rfl rfl rfl rfl rfl rfl ?_
      simp [isSuccessNote]
  | idle calls more =>
      refine counted.pop calls rfl ?_ rfl rfl rfl rfl rfl
      exact decide_eq_false (Int.not_le.mpr more)
  | compressed quiet | compressFailed quiet =>
      refine counted.keep rfl rfl rfl rfl ?_ ?_ ?_
      · intro nextPos member
        simp [readyCall] at member
      · rw [quiet]
        rfl
      · rw [quiet]
        rfl
  | @refuse rest count reason turn batch refused =>
      refine @Counted.turn _ _ counted fed _ rest
        [.output (.finish false reason)] [] count turn batch rfl ?_
        (Int.le_refl _) rfl rfl ?_ ?_ rfl
      · intro call member
        exact ⟨reason, List.mem_singleton.mp member⟩
      · intro nextPos member
        cases member
      · exact (if_neg (batch.before_end fed)).symm
  | @issue rest count write turn batch =>
      refine @Counted.turn _ _ counted fed _ rest _ [] count turn batch
        (flushAt_calls _ _) finishes_flushed ?_ (flushAt_dataWritten _ _)
        (flushAt_notes _ _) ?_ ?_ rfl
      · rw [flushAt_srcPos]
      · intro nextPos member
        cases member
      · rw [flushAt_srcPos]
        exact (if_neg (batch.before_end fed)).symm
  | @stall rest count write turn batch =>
      refine @Counted.turn _ _ counted fed _ rest _ [] count turn batch
        (flushAt_calls _ _) finishes_flushed ?_ (flushAt_dataWritten _ _)
        (flushAt_notes _ _) ?_ ?_ rfl
      · rw [flushAt_srcPos]
      · intro nextPos member
        cases member
      · rw [flushAt_srcPos]
        exact (if_neg (batch.before_end fed)).symm
  | @measure rest count write turn batch accepted noFile expected =>
      have later : (course.first * archive.blockSize : Nat) ≤
          (course.first + count) * archive.blockSize :=
        Nat.mul_le_mul_right _ (Nat.le_add_right _ _)
      refine @Counted.turn _ _ counted fed _ rest _
        [.output (.progress ((course.first + count) * archive.blockSize : Nat)
            archive.srcSize (archive.pos (course.first + count))),
          .output (.afterProgress
            ((course.first + count) * archive.blockSize : Nat))]
        count turn batch (flushAt_calls _ _) finishes_flushed ?_
        (flushAt_dataWritten _ _) (flushAt_notes _ _) ?_ ?_ rfl
      · rw [flushAt_srcPos, batch.srcPos]
        exact Int.ofNat_le.mpr later
      · intro nextPos member
        rw [flushAt_srcPos]
        have same : nextPos =
            ((course.first + count) * archive.blockSize : Nat) := by
          simpa using member
        exact le_of_eq same
      · rw [flushAt_srcPos]
        exact countP_advance _ _ _
  | @complete nextPos rest calls all =>
      have passed := all.trans (counted.after nextPos
        (by rw [calls]; exact List.mem_cons_self))
      have ends := counted.ends
      have successes := counted.successes
      have isLast : isEnd archive (.output (.afterProgress nextPos)) =
          true := decide_eq_true all
      rw [if_pos passed, calls, List.countP_cons_of_pos isLast] at ends
      have notDone : course.dataWritten = false := by
        cases done : course.dataWritten with
        | false => rfl
        | true =>
            rw [done] at ends
            simp at ends
      rw [notDone] at ends
      rw [calls, List.countP_cons_of_neg (by simp [isSuccess]), notDone,
        Bool.and_false] at successes
      obtain ⟨noEnd, one⟩ := @countP_finishCalls archive course.indexWritten
      refine ⟨?_, ?_, ?_⟩
      · intro other member
        apply counted.after
        rw [calls]
        rcases List.mem_append.mp member with member | member
        · cases isFinish_finishCalls member
        · exact List.mem_cons_of_mem _ member
      · have none : rest.countP (isEnd archive) = 0 := by
          have zero : false.toNat = 0 := rfl
          omega
        rw [List.countP_append, noEnd, none]
        dsimp only
        rw [if_pos passed]
        rfl
      · have none : rest.countP isSuccess +
            course.notes.countP isSuccessNote = 0 := successes
        rw [List.countP_append, one, Bool.and_true]
        dsimp only
        omega
  | @finish success reason rest calls =>
      have successes := counted.successes
      have ends := counted.ends
      rw [calls, List.countP_cons_of_neg (by simp [isEnd])] at ends
      refine ⟨?_, ends, ?_⟩
      · intro other member
        apply counted.after
        rw [calls]
        exact List.mem_cons_of_mem _ member
      · rw [calls] at successes
        rw [List.countP_append]
        cases success with
        | true =>
            rw [List.countP_cons_of_pos rfl] at successes
            rw [← successes]
            simp [isSuccessNote]
            omega
        | false =>
            rw [List.countP_cons_of_neg (by simp [isSuccess])] at successes
            rw [← successes]
            simp [isSuccessNote]
  | @dataWritten count result quiet writes positive live writing enough =>
      obtain ⟨srcPos, _⟩ := front.of_writes positive live writes
      obtain ⟨_, notDone⟩ := counted.early srcPos (by
        have last := fed.last_le
        omega)
      have successes := counted.successes
      rw [quiet, notDone, Bool.and_false] at successes
      refine ⟨?_, ?_, ?_⟩
      · intro nextPos member
        have same : nextPos =
            ((course.first + count) * archive.blockSize : Nat) := by
          simpa [Course.retire] using member
        exact le_of_eq same
      · have ends := @countP_advance archive
          ((course.first + count) * archive.blockSize : Nat) archive.srcSize
          (archive.pos (course.first + count))
        simp only [Course.retire, notDone]
        exact ends
      · simp only [Course.retire, notDone, Bool.and_false]
        simpa [isSuccess, isSuccessNote] using successes
  | dataFailed quiet =>
      refine counted.keep rfl rfl rfl ?_ ?_ ?_ ?_
      · simp [isSuccessNote]
      · intro nextPos member
        simp at member
      · rw [quiet]
        rfl
      · rw [quiet]
        rfl
  | @indexWritten write result quiet writes enough =>
      have successes := counted.successes
      obtain ⟨_, unwritten, _⟩ := indexed.of_writes writes
      obtain ⟨noEnd, one⟩ := @countP_finishCalls archive course.dataWritten
      have ends := counted.ends
      rw [quiet] at ends successes
      rw [unwritten, Bool.false_and] at successes
      refine ⟨?_, ?_, ?_⟩
      · intro nextPos member
        cases isFinish_finishCalls member
      · rw [noEnd]
        exact ends
      · rw [one]
        simpa [isSuccessNote] using successes
  | indexFailed quiet =>
      refine counted.keep rfl rfl rfl ?_ ?_ ?_ ?_
      · simp [isSuccessNote]
      · intro nextPos member
        simp at member
      · rw [quiet]
        rfl
      · rw [quiet]
        rfl

/-! ## All of it -/

/-- What holds of a course in every run. -/
structure Sound (archive : Archive) (course : Course) : Prop where
  fed : Fed archive course
  ordered : Ordered archive course
  flow : course.Flow
  front : Front archive course
  indexed : Indexed archive course
  counted : Counted archive course

theorem Sound.move
    (sound : Sound archive course) {next : Course}
    (move : Move archive may course next) :
    Sound archive next :=
  ⟨sound.fed.move sound.ordered move,
    sound.ordered.move sound.fed sound.flow move,
    sound.flow.move sound.fed sound.ordered move,
    sound.front.move sound.fed sound.counted move,
    sound.indexed.move sound.fed move,
    sound.counted.move sound.front sound.indexed sound.fed move⟩

theorem sound_start (archive : Archive) : Sound archive (start archive) := by
  have positive := archive.nonempty
  have blocks := archive.blocks_pos
  have bounds := archive.blockSize_bounds
  have source := archive.srcSize_le_sourceSize
  have none : ∀ (id : SectorId) (block : Nat),
      ¬ (start archive).pipeline.Holds id block := by
    intro id block holds
    exact nomatch holds.2
  have live : ∀ block, ¬ block < (start archive).last :=
    fun block => Nat.not_lt_zero block
  refine ⟨⟨⟨?_, ?_, ?_, ?_, ?_, ?_⟩, ?_, ?_, ?_, ?_⟩,
    ⟨?_, ?_, ?_, ?_, ?_⟩, ⟨?_, ?_, ?_, ?_, ?_, ?_⟩, .between ?_ rfl rfl ?_ ?_ ?_,
    ⟨?_, ?_, Or.inl rfl, ?_⟩, ⟨?_, ?_, rfl⟩⟩
  · exact dvd_zero _
  · exact Nat.zero_le _
  · exact le_of_eq (Nat.zero_mul _)
  · exact Nat.zero_le _
  · have zero : (start archive).last = 0 := rfl
    rw [zero, Nat.zero_mul]
    exact lt_of_lt_of_le (by omega) (Nat.le_add_left _ _)
  · intro block _ below
    exact absurd below (live block)
  · exact Nat.zero_le _
  · intro _
    rfl
  · intro ended
    have zero : (start archive).nextPos = 0 := rfl
    omega
  · intro fetching
    exact nomatch fetching
  · exact stacked_nil
  · intro id tag member
    exact nomatch member
  · intro id block holds
    exact absurd holds (none id block)
  · intro id tag pos member
    exact nomatch member
  · intro ended
    have zero : (start archive).nextPos = 0 := rfl
    omega
  · exact List.nodup_nil
  · exact Nat.zero_le _
  · intro fetching
    exact nomatch fetching
  · intro _
    exact Or.inl (Nat.succ_pos _)
  · intro pos total written member
    exact nomatch member
  · intro paused
    exact nomatch paused
  · have zero : (start archive).first = 0 := rfl
    rw [zero, Nat.zero_mul]
    rfl
  · intro block _ below
    exact absurd below (live block)
  · intro alive
    exact absurd alive (live _)
  · intro all
    have zero : (start archive).first = 0 := rfl
    omega
  · intro _
    exact ⟨rfl, rfl⟩
  · intro ready
    exact nomatch ready
  · intro ready
    exact nomatch ready
  · intro nextPos member
    exact nomatch member
  · have before : ¬ (archive.srcSize : Int) ≤ (start archive).srcPos := by
      have zero : (start archive).srcPos = 0 := rfl
      omega
    rw [if_neg before]
    rfl

end Course

end Maxcso
