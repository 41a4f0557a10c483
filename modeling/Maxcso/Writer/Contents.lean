import Maxcso.Writer.Feeding
import Maxcso.Writer.Placement

/-!
# What the sector objects hold

Every sector object holds what the stage of its block says: the part of the
block that has arrived, the whole block, or what is stored for it.
-/

namespace Maxcso

open FileBytes

/-- The part of a block that has arrived. -/
def Archive.part (archive : Archive) (block filled : Nat) : Bytes :=
  pread archive.padded (block * archive.blockSize)
    (filled - block * archive.blockSize)

namespace Output

/-- What a sector object holds for a block in a stage. -/
def Described (archive : Archive) (filled block : Nat) :
    BlockStage → Sector → Prop
  | .filling => Sector.Fills archive.template (!archive.decompressing)
      (block * archive.blockSize : Nat) (archive.part block filled)
  | .compressing => fun sector => archive.decompressing = false ∧
      Sector.Fills archive.template true
        (block * archive.blockSize : Nat) (archive.content block) sector
  | .ready | .pending | .writing => Sector.Holds archive.template
      (block * archive.blockSize : Nat) (archive.stored block)
  | .failed | .lost => fun _ => True

structure Contents (archive : Archive) (pipeline : BlockPipeline)
    (filled : Nat) (output : Output) : Prop where
  idle : ∀ id ∈ output.freeSectors,
    Sector.Idle archive.template (output.sectors id)
  described : ∀ id block, pipeline.Holds id block →
    Described archive filled block (pipeline.stage block)
      (output.sectors id)

section

variable {archive : Archive} {course : Course} {output : Output}
variable {sector : Sector}

theorem length_padded :
    archive.padded.length = archive.sourceSize + archive.blockSize := by
  rw [Archive.padded, List.length_append, List.length_replicate,
    archive.length]

theorem paddedSize_le : archive.paddedSize ≤ archive.padded.length := by
  have bounds := archive.srcSize_bounds
  have source := archive.srcSize_le_sourceSize
  rw [length_padded, Archive.paddedSize]
  omega

theorem length_part {block filled : Nat}
    (inside : filled ≤ archive.paddedSize) :
    (archive.part block filled).length =
      filled - block * archive.blockSize := by
  have padded := @paddedSize_le archive
  by_cases started : block * archive.blockSize ≤ filled
  · apply length_pread_of_le
    omega
  · rw [Archive.part, length_pread]
    omega

/-- The next sector of a block. -/
theorem part_add {block filled : Nat}
    (started : block * archive.blockSize ≤ filled) :
    archive.part block (filled + sectorSize) =
      archive.part block filled ++
        pread archive.padded filled sectorSize := by
  have total : filled + sectorSize - block * archive.blockSize =
      filled - block * archive.blockSize + sectorSize := by
    simp only [sectorSize]
    omega
  rw [Archive.part, total, pread_add, Archive.part,
    Nat.add_sub_of_le started]

theorem part_whole (block : Nat) :
    archive.part block ((block + 1) * archive.blockSize) =
      archive.content block := by
  rw [Archive.part, Nat.add_mul, Nat.one_mul, Nat.add_sub_cancel_left,
    Archive.content]

theorem part_empty (block : Nat) :
    archive.part block (block * archive.blockSize) = [] := by
  rw [Archive.part, Nat.sub_self, pread, List.take_zero]

theorem template_blockSize :
    archive.template.blockSize = archive.blockSize := rfl

/-- A sector that is not to be compressed is told so again. -/
theorem Fills.disableCompress {start : Int} {part : Bytes}
    (fills : Sector.Fills archive.template false start part sector) :
    Sector.Fills archive.template false start part
      sector.disableCompress :=
  ⟨⟨fills.setup.flags, fills.setup.align, fills.setup.origMaxCost,
      fills.setup.lz4MaxCost, fills.setup.blockSize⟩,
    fills.busy, rfl, fills.enqueued, fills.readySize, fills.pos, fills.best,
    fills.bestSize, fills.bestFmt, fills.buffer⟩

/-- A sector object that is taken for a new block. -/
structure Prepared (archive : Archive) (sector : Sector) : Prop where
  setup : Sector.SameSetup archive.template sector
  busy : sector.busy = false
  enqueued : sector.enqueued = false
  compress : sector.compress = !archive.decompressing
  readySize : sector.readySize = 0
  best : sector.best = none

/-- What `Enqueue` does to a sector object before `Process`. -/
def prepare (archive : Archive) (sector : Sector) : Sector :=
  if archive.decompressing then sector.disableCompress else sector

theorem prepare_idle (idle : Sector.Idle archive.template sector) :
    Prepared archive (prepare archive sector) := by
  unfold prepare
  cases mode : archive.decompressing with
  | true =>
      rw [if_pos rfl]
      exact ⟨⟨idle.setup.flags, idle.setup.align, idle.setup.origMaxCost,
          idle.setup.lz4MaxCost, idle.setup.blockSize⟩,
        idle.busy, idle.enqueued, by rw [mode]; rfl, idle.readySize,
        idle.best⟩
  | false =>
      rw [if_neg Bool.false_ne_true]
      exact ⟨idle.setup, idle.busy, idle.enqueued,
        by rw [mode]; exact idle.compress, idle.readySize, idle.best⟩

theorem prepare_fills {start : Int} {part : Bytes}
    (fills : Sector.Fills archive.template (!archive.decompressing) start
      part sector) :
    Sector.Fills archive.template (!archive.decompressing) start part
      (prepare archive sector) := by
  unfold prepare
  cases mode : archive.decompressing with
  | true =>
      rw [mode] at fills
      rw [if_pos rfl]
      exact Fills.disableCompress fills
  | false =>
      rw [mode] at fills
      rw [if_neg Bool.false_ne_true]
      exact fills

/-- What `Process` leaves after the next sector of a block. -/
def Processed (archive : Archive) (course : Course) (pool : BufferPool)
    (processed : Sector × BufferPool × Sector.ProcessOutcome) : Prop :=
  Sector.Fills archive.template (!archive.decompressing)
      (course.block archive * archive.blockSize : Nat)
      (archive.part (course.block archive) (course.filled + sectorSize))
      processed.1 ∧
    processed.2.1.bufferSize = pool.bufferSize ∧
    processed.2.2 = Sector.outcome archive.blockSize
      (!archive.decompressing)
      (course.filled + sectorSize -
        course.block archive * archive.blockSize)

theorem filled_eq_of_whole
    (whole : course.filled % archive.blockSize = 0) :
    course.filled = course.block archive * archive.blockSize := by
  have split := Nat.div_add_mod course.filled archive.blockSize
  rw [whole, Nat.add_zero, Nat.mul_comm] at split
  exact split.symm

/-- The first sector of a block. -/
theorem process_first
    (env : Environment) (pool : BufferPool) {buffer : Buffer}
    (content : FlatMemory.read buffer.memory 0 sectorSize =
      pread archive.padded course.filled sectorSize)
    (whole : course.filled % archive.blockSize = 0)
    (prepared : Prepared archive sector) :
    Processed archive course pool
      (sector.process env pool course.filled buffer) := by
  have start := filled_eq_of_whole whole
  have part : archive.part (course.block archive)
      (course.filled + sectorSize) =
        FlatMemory.read buffer.memory 0 sectorSize := by
    have none : archive.part (course.block archive) course.filled = [] := by
      rw [start]
      exact part_empty _
    rw [part_add start.symm.le, none, content, List.nil_append]
  have count : course.filled + sectorSize -
      course.block archive * archive.blockSize =
        (FlatMemory.read buffer.memory 0 sectorSize).length := by
    rw [← start, Nat.add_sub_cancel_left, FlatMemory.length_read]
  have aligned : (course.filled : Int) % archive.template.blockSize = 0 := by
    rw [template_blockSize]
    exact_mod_cast whole
  have processed := Sector.process_idle env pool buffer prepared.setup
    prepared.busy prepared.enqueued prepared.compress prepared.readySize
    prepared.best aligned
  rw [Processed, part, count, ← start]
  exact processed

/-- A later sector of a block. -/
theorem process_more
    (env : Environment) {pool : BufferPool} {buffer : Buffer}
    (filled : Course.Filled archive course)
    (room : archive.blockSize ≤ pool.bufferSize)
    (content : FlatMemory.read buffer.memory 0 sectorSize =
      pread archive.padded course.filled sectorSize)
    (fills : Sector.Fills archive.template (!archive.decompressing)
      (course.block archive * archive.blockSize : Nat)
      (archive.part (course.block archive) course.filled) sector) :
    Processed archive course pool
      (sector.process env pool course.filled buffer) := by
  have low := Course.block_mul_le archive course
  have below := Course.lt_succ_block_mul archive course
  have length := @length_part archive (course.block archive) _
    filled.filled_le
  have pos : (course.filled : Int) =
      (course.block archive * archive.blockSize : Nat) +
        (archive.part (course.block archive) course.filled).length := by
    rw [length]
    omega
  have short : (archive.part (course.block archive) course.filled).length <
      archive.template.blockSize := by
    rw [length, template_blockSize]
    rw [Nat.add_mul, Nat.one_mul] at below
    omega
  have count : course.filled + sectorSize -
      course.block archive * archive.blockSize =
        (archive.part (course.block archive) course.filled ++
          FlatMemory.read buffer.memory 0 sectorSize).length := by
    rw [List.length_append, length, FlatMemory.length_read]
    simp only [sectorSize]
    omega
  have processed := Sector.process_fills env buffer fills short room
  rw [← pos] at processed
  rw [Processed, part_add low, count, ← content]
  exact processed

/-! ## After `Process` -/

/-- The stage that a block gets by the end of `Process`. -/
theorem outcome_eq
    (filled : Course.Filled archive course) :
    Sector.outcome archive.blockSize (!archive.decompressing)
        (course.filled + sectorSize -
          course.block archive * archive.blockSize) =
      match archive.stageAt (course.filled + sectorSize) with
      | .filling => .waiting
      | .compressing => .queued
      | _ => .ready := by
  have low := Course.block_mul_le archive course
  have high := filled.sector_le
  have filling := filled.stageAt_filling
  rw [Nat.add_mul, Nat.one_mul] at high filling
  unfold Sector.outcome
  by_cases short : course.filled + sectorSize <
      course.block archive * archive.blockSize + archive.blockSize
  · rw [filling.mpr short, if_pos (by omega)]
  · have whole : ¬ (course.filled + sectorSize) % archive.blockSize ≠ 0 := by
      rw [← Course.stageAt_eq_filling]
      exact mt filling.mp short
    rw [if_neg (by omega)]
    unfold Archive.stageAt
    rw [if_neg whole]
    cases archive.decompressing <;> rfl

/-- What follows `Process`, by the stage that the block gets. -/
theorem afterProcess_eq
    {pool : BufferPool} {id : SectorId} {tag : Nat}
    {processed : Sector × BufferPool × Sector.ProcessOutcome}
    (filled : Course.Filled archive course)
    (done : Processed archive course pool processed) :
    output.afterProcess id tag processed =
      ⟨{ output with
          sectors := Function.update output.sectors id processed.1
          jobs :=
            if archive.stageAt (course.filled + sectorSize) = .compressing
            then output.jobs ++ [⟨id, tag⟩] else output.jobs },
        processed.2.1,
        if archive.stageAt (course.filled + sectorSize) = .ready
        then [.sectorReady id tag] else []⟩ := by
  obtain ⟨_, _, outcome⟩ := done
  rw [outcome_eq filled] at outcome
  unfold afterProcess
  rw [outcome]
  unfold Archive.stageAt
  by_cases part : (course.filled + sectorSize) % archive.blockSize ≠ 0
  · simp only [if_pos part]
    rfl
  · simp only [if_neg part]
    cases archive.decompressing <;> rfl

/-- Full blocks do not depend on how much has arrived. -/
theorem Described.refill {filled filled' block : Nat} {stage : BlockStage}
    (described : Described archive filled block stage sector)
    (full : stage ≠ .filling) :
    Described archive filled' block stage sector := by
  cases stage with
  | filling => exact absurd rfl full
  | _ => exact described

/-- What the sector object holds after `Process`. -/
theorem described_processed
    {pool : BufferPool}
    {processed : Sector × BufferPool × Sector.ProcessOutcome}
    (filled : Course.Filled archive course)
    (short : course.filled < archive.paddedSize)
    (done : Processed archive course pool processed) :
    Described archive (course.filled + sectorSize) (course.block archive)
      (archive.stageAt (course.filled + sectorSize)) processed.1 := by
  obtain ⟨fills, _, _⟩ := done
  have fits : course.filled + sectorSize ≤ archive.paddedSize :=
    (@Course.Filled.fill archive course 0 filled short).filled_le
  by_cases part : (course.filled + sectorSize) % archive.blockSize ≠ 0
  · rw [Course.stageAt_eq_filling.mpr part]
    exact fills
  · have notFilling := mt Course.stageAt_eq_filling.mp part
    have whole : course.filled + sectorSize =
        (course.block archive + 1) * archive.blockSize := by
      have high := filled.sector_le
      have full := mt filled.stageAt_filling.mpr notFilling
      omega
    rw [whole, part_whole] at fills
    have stage : archive.stageAt (course.filled + sectorSize) =
        if archive.decompressing then .ready else .compressing := by
      unfold Archive.stageAt
      rw [if_neg part]
    rw [stage]
    cases mode : archive.decompressing with
    | false =>
        rw [mode] at fills
        exact ⟨mode, fills⟩
    | true =>
        have inside : course.block archive < archive.blocks := by
          rw [whole, Archive.paddedSize] at fits
          have bounds := archive.blockSize_bounds
          exact Nat.le_of_mul_le_mul_right fits (by omega)
        have holds := Sector.holds_of_fills fills
          (Archive.length_content inside)
        rw [← Archive.stored_decompressed mode] at holds
        exact holds

/-- Every other sector object holds what it held. -/
theorem contents_process
    {pipeline : BlockPipeline} {id : SectorId} {pool : BufferPool}
    {processed : Sector × BufferPool × Sector.ProcessOutcome}
    {jobs : List CompressJob}
    (filled : Course.Filled archive course)
    (short : course.filled < archive.paddedSize)
    (placed : Placed archive pipeline output)
    (holds : pipeline.Holds id (course.block archive))
    (idle : ∀ other ∈ output.freeSectors,
      Sector.Idle archive.template (output.sectors other))
    (described : ∀ other block, pipeline.Holds other block →
      block ≠ course.block archive →
        Described archive (course.filled + sectorSize) block
          (pipeline.stage block) (output.sectors other))
    (done : Processed archive course pool processed) :
    Contents archive
      (pipeline.setStage (course.block archive)
        (archive.stageAt (course.filled + sectorSize)))
      (course.filled + sectorSize)
      { output with
        sectors := Function.update output.sectors id processed.1
        jobs := jobs } := by
  refine ⟨?_, ?_⟩
  · intro other free
    have different : other ≠ id := by
      rintro rfl
      exact placed.not_free holds free
    dsimp only
    rw [Function.update_of_ne different]
    exact idle other free
  · intro other block held
    rw [Pipeline.holds_setStage] at held
    dsimp only
    by_cases same : block = course.block archive
    · subst same
      obtain rfl := held.worker_unique holds
      rw [Function.update_self, Pipeline.setStage_stage_self]
      exact described_processed filled short done
    · have different : other ≠ id := by
        rintro rfl
        exact same (held.item_unique placed.owners_nodup holds)
      rw [Function.update_of_ne different,
        Pipeline.setStage_stage_of_ne same]
      exact described other block held same

/-- The containers after `Process`. -/
theorem placed_process
    {pipeline : BlockPipeline} {id : SectorId} {block : Nat}
    {stage : BlockStage} {sectors : SectorId → Sector}
    (placed : Placed archive pipeline output)
    (holds : pipeline.Holds id block)
    (filling : pipeline.stage block = .filling)
    (next : stage = .filling ∨ stage = .compressing ∨ stage = .ready) :
    Placed archive (pipeline.setStage block stage)
      { output with
        sectors := sectors
        jobs :=
          if stage = .compressing
          then output.jobs ++ [⟨id, block % 2 ^ 32⟩] else output.jobs } := by
  rcases next with rfl | rfl | rfl
  · have kept : Placed archive (pipeline.setStage block .filling)
        output := by
      refine placed.restage rfl rfl ?_
      intro other _ _
      refine Or.inl ?_
      by_cases newest : other = block
      · rw [newest, Pipeline.setStage_stage_self, filling]
      · exact Pipeline.setStage_stage_of_ne newest
    exact kept.carry ⟨rfl, rfl, rfl, rfl, rfl, rfl, rfl, rfl⟩ rfl rfl rfl
      rfl rfl
  · have queued := placed.addJob holds filling
    exact queued.carry ⟨rfl, rfl, rfl, rfl, rfl, rfl, rfl, rfl⟩ rfl rfl rfl
      rfl rfl
  · have ready := placed.markReady filling
    exact ready.carry ⟨rfl, rfl, rfl, rfl, rfl, rfl, rfl, rfl⟩ rfl rfl rfl
      rfl rfl

end

end Output

end Maxcso
