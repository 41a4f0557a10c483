import Mathlib.Data.List.Nodup
import Maxcso.Writer.Course

/-!
# Where the writer keeps its blocks

The containers of `Output` list the blocks that are in certain stages.  Every
sector object is free or has a block.
-/

namespace Maxcso

open OrderedMap

/-- The stages in which a block is in `partialSectors_`. -/
def BlockStage.Assembling (stage : BlockStage) : Prop :=
  stage = .filling ∨ stage = .compressing ∨ stage = .failed ∨ stage = .ready

/-- The stages in which a block is in no container. -/
def BlockStage.Taken (stage : BlockStage) : Prop :=
  stage = .writing ∨ stage = .lost

namespace Output

/-- The containers of the writer agree with the pipeline. -/
structure Placed (archive : Archive) (pipeline : BlockPipeline)
    (output : Output) : Prop where
  same : SameFile archive.base output
  underflow : output.underflow = false
  sectors : (output.freeSectors ++ pipeline.owners).Perm
    (List.range queueSize)
  distinctJobs : output.jobs.Nodup
  jobs : pipeline.Tracks (· % 2 ^ 32) (· = .compressing)
    fun tag id => ⟨id, tag⟩ ∈ output.jobs
  sortedPending : Sorted output.pendingSectors
  pending : pipeline.Tracks
    (fun block => ((block * archive.blockSize : Nat) : Int)) (· = .pending)
    fun pos id => (pos, id) ∈ output.pendingSectors
  sortedPartial : Sorted output.partialSectors
  partials : archive.blockSize ≠ sectorSize →
    pipeline.Tracks (· % 2 ^ 32) BlockStage.Assembling
      fun tag id => (tag, id) ∈ output.partialSectors

section

variable {archive : Archive} {pipeline : BlockPipeline} {output : Output}
variable {id : SectorId} {block : Nat}

theorem Placed.blockSize (placed : Placed archive pipeline output) :
    output.blockSize = archive.blockSize := by
  rw [placed.same.blockSize, Archive.base_eq]

theorem Placed.blockShift (placed : Placed archive pipeline output) :
    output.blockShift = archive.shift := by
  rw [placed.same.blockShift, Archive.base_eq]

theorem Placed.srcSize (placed : Placed archive pipeline output) :
    output.srcSize = archive.srcSize := by
  rw [placed.same.srcSize, Archive.base_eq]

theorem Placed.decompressing (placed : Placed archive pipeline output) :
    output.decompressing = archive.decompressing := by
  have flags : output.flags = archive.flags := by
    rw [placed.same.flags, Archive.base_eq]
    rfl
  rw [Output.decompressing, flags]
  rfl

theorem Placed.srcSizeAligned (placed : Placed archive pipeline output) :
    output.srcSizeAligned =
      (archive.srcSize + archive.blockSize - 1 : Nat) := by
  have bounds := archive.blockSize_bounds
  rw [Output.srcSizeAligned, placed.srcSize, placed.blockSize]
  omega

/-- The end of the padding. -/
theorem Placed.paddedSize (placed : Placed archive pipeline output) :
    output.srcSizeAligned - output.srcSizeAligned % output.blockSize =
      archive.paddedSize := by
  have split := Nat.div_add_mod
    (archive.srcSize + archive.blockSize - 1) archive.blockSize
  rw [placed.srcSizeAligned, placed.blockSize, Archive.paddedSize,
    WriterConfig.blocks, ← Int.natCast_mod, Nat.mul_comm]
  omega

/-- Blocks are counted in 32 bits. -/
theorem Placed.totalBlocks (placed : Placed archive pipeline output) :
    output.totalBlocks = archive.blocks % 2 ^ 32 := by
  have quotient : ((archive.srcSize + archive.blockSize - 1 : Nat) : Int) /
      2 ^ archive.shift = (archive.blocks : Nat) := by
    rw [WriterConfig.blocks, WriterConfig.blockSize, Int.natCast_div]
    push_cast
    rfl
  rw [Output.totalBlocks, placed.srcSizeAligned, placed.blockShift, quotient,
    toUint32_natCast]

theorem Placed.nodup (placed : Placed archive pipeline output) :
    (output.freeSectors ++ pipeline.owners).Nodup :=
  placed.sectors.nodup_iff.mpr List.nodup_range

theorem Placed.owners_nodup (placed : Placed archive pipeline output) :
    pipeline.owners.Nodup :=
  (List.nodup_append.mp placed.nodup).2.1

/-- Every sector is free or has a block. -/
theorem Placed.count (placed : Placed archive pipeline output) :
    output.freeSectors.length + pipeline.owners.length = queueSize := by
  have total := placed.sectors.length_eq
  rwa [List.length_append, List.length_range] at total

theorem Placed.not_free
    (placed : Placed archive pipeline output)
    (holds : pipeline.Holds id block) :
    id ∉ output.freeSectors :=
  fun free =>
    (List.nodup_append.mp placed.nodup).2.2 id free id holds.mem rfl

theorem Placed.distinguishes_tag (placed : Placed archive pipeline output) :
    pipeline.Distinguishes (· % 2 ^ 32) := by
  have count := placed.count
  intro first second above below above' below' same
  simp only [Pipeline.last, queueSize] at *
  omega

theorem distinguishes_pos :
    pipeline.Distinguishes
      (fun block => ((block * archive.blockSize : Nat) : Int)) := by
  have bounds := archive.blockSize_bounds
  intro first second _ _ _ _ same
  exact Nat.eq_of_mul_eq_mul_right (by omega) (Int.ofNat_inj.mp same)

/-- What is not a container of blocks does not matter. -/
theorem Placed.carry
    (placed : Placed archive pipeline output) {other : Output}
    (same : SameFile output other)
    (underflow : other.underflow = output.underflow)
    (free : other.freeSectors = output.freeSectors)
    (jobs : other.jobs = output.jobs)
    (pending : other.pendingSectors = output.pendingSectors)
    (partials : other.partialSectors = output.partialSectors) :
    Placed archive pipeline other := by
  refine ⟨placed.same.trans same, ?_, ?_, ?_, ?_, ?_, ?_, ?_, ?_⟩
  · rw [underflow]
    exact placed.underflow
  · rw [free]
    exact placed.sectors
  · rw [jobs]
    exact placed.distinctJobs
  · rw [jobs]
    exact placed.jobs
  · rw [pending]
    exact placed.sortedPending
  · rw [pending]
    exact placed.pending
  · rw [partials]
    exact placed.sortedPartial
  · rw [partials]
    exact placed.partials

/-! ## Taking a block up -/

/-- The output after a sector has been taken for the next block. -/
def claimed (output : Output) (block : Nat) (free : List SectorId)
    (id : SectorId) : Output :=
  { output with
    freeSectors := free
    partialSectors :=
      if output.blockSize ≠ sectorSize then
        OrderedMap.insert (block % 2 ^ 32) id output.partialSectors
      else
        output.partialSectors }

theorem Placed.not_partial
    (placed : Placed archive pipeline output)
    (room : output.freeSectors ≠ [])
    (multiple : archive.blockSize ≠ sectorSize) (other : SectorId) :
    (pipeline.last % 2 ^ 32, other) ∉ output.partialSectors := by
  intro member
  obtain ⟨block, same, holds, _⟩ := (placed.partials multiple _ _).mp member
  have count := placed.count
  have below := holds.lt_last
  have above := holds.1
  have free : 0 < output.freeSectors.length := List.length_pos_iff.mpr room
  simp only [Pipeline.last, queueSize] at *
  omega

/-- The first sector of a block takes a sector object from the free ones. -/
theorem Placed.sectorFor_new
    (placed : Placed archive pipeline output)
    (room : output.freeSectors ≠ []) :
    ∃ free id, output.freeSectors = free ++ [id] ∧
      output.sectorFor (pipeline.last % 2 ^ 32) =
        (output.claimed pipeline.last free id, id) := by
  obtain ⟨free, id, split⟩ :=
    (List.eq_nil_or_concat' output.freeSectors).resolve_left room
  refine ⟨free, id, split, ?_⟩
  have taken : output.takeFree =
      ({ output with freeSectors := free }, id) := by
    simp [takeFree, split]
  unfold sectorFor claimed
  rw [taken]
  by_cases single : output.blockSize = sectorSize
  · rw [if_neg (not_not.mpr single), if_neg (not_not.mpr single)]
  · have multiple : archive.blockSize ≠ sectorSize := by
      rwa [← placed.blockSize]
    have absent : OrderedMap.find (pipeline.last % 2 ^ 32)
        output.partialSectors = none :=
      find_eq_none_iff.mpr (placed.not_partial room multiple)
    rw [if_pos single, if_pos single, absent]

theorem Placed.claim
    (placed : Placed archive pipeline output) {free : List SectorId}
    (split : output.freeSectors = free ++ [id]) :
    Placed archive (pipeline.claim id .filling)
      (output.claimed pipeline.last free id) := by
  have room : output.freeSectors ≠ [] := by simp [split]
  refine ⟨⟨placed.same.flags, placed.same.fmt, placed.same.noFile,
      placed.same.srcSize, placed.same.indexShift, placed.same.indexAlign,
      placed.same.blockSize, placed.same.blockShift⟩,
    placed.underflow, ?_, placed.distinctJobs,
    placed.jobs.claim_other (by simp), placed.sortedPending,
    placed.pending.claim_other (by simp), ?_, ?_⟩
  · have before := placed.sectors
    rw [split, List.append_assoc] at before
    refine List.Perm.trans ?_ before
    exact List.Perm.append_left free List.perm_append_comm
  · simp only [claimed]
    split
    · exact sorted_insert placed.sortedPartial
    · exact placed.sortedPartial
  · intro multiple
    apply (placed.partials multiple).claim_add (Or.inl rfl)
    intro tag other
    have width : output.blockSize ≠ sectorSize := by
      rwa [placed.blockSize]
    simp only [claimed, if_pos width, mem_insert]
    constructor
    · rintro (same | ⟨_, member⟩)
      · exact Or.inl same
      · exact Or.inr member
    · rintro (same | member)
      · exact Or.inl same
      · refine Or.inr ⟨?_, member⟩
        rintro rfl
        exact placed.not_partial room multiple other member

/-- Later sectors of a block find its sector object. -/
theorem Placed.sectorFor_found
    (placed : Placed archive pipeline output)
    (multiple : archive.blockSize ≠ sectorSize)
    (holds : pipeline.Holds id block)
    (filling : pipeline.stage block = .filling) :
    output.sectorFor (block % 2 ^ 32) = (output, id) := by
  have member := (placed.partials multiple).of_holds holds (Or.inl filling)
  have found := (find_eq_some_iff placed.sortedPartial).mpr member
  unfold sectorFor
  rw [placed.blockSize, if_pos multiple, found]

/-! ## Changes of stage -/

theorem Placed.addJob
    (placed : Placed archive pipeline output)
    (holds : pipeline.Holds id block)
    (filling : pipeline.stage block = .filling) :
    Placed archive (pipeline.setStage block .compressing)
      { output with jobs := output.jobs ++ [⟨id, block % 2 ^ 32⟩] } := by
  have fresh : (⟨id, block % 2 ^ 32⟩ : CompressJob) ∉ output.jobs := by
    intro member
    obtain ⟨other, _, holds', compressing⟩ := (placed.jobs _ _).mp member
    obtain rfl := holds.item_unique placed.owners_nodup holds'
    rw [filling] at compressing
    exact nomatch compressing
  refine ⟨⟨placed.same.flags, placed.same.fmt, placed.same.noFile,
      placed.same.srcSize, placed.same.indexShift, placed.same.indexAlign,
      placed.same.blockSize, placed.same.blockShift⟩,
    placed.underflow, placed.sectors, ?_, ?_,
    placed.sortedPending, placed.pending.setStage_other (by simp [filling]),
    placed.sortedPartial, ?_⟩
  · exact List.nodup_append.mpr ⟨placed.distinctJobs,
      List.nodup_singleton _, by
        rintro job member _ (_ | ⟨_, ⟨⟩⟩) rfl
        exact fresh member⟩
  · apply placed.jobs.setStage_add holds rfl (by simp [filling])
    intro tag other
    simp only [List.mem_append, List.mem_singleton, CompressJob.mk.injEq]
    rw [or_comm, and_comm]
  · intro multiple
    apply (placed.partials multiple).setStage_other
    simp [BlockStage.Assembling, filling]

/-- A block that is not compressed is ready when it is full. -/
theorem Placed.markReady
    (placed : Placed archive pipeline output)
    (filling : pipeline.stage block = .filling) :
    Placed archive (pipeline.setStage block .ready) output :=
  ⟨placed.same, placed.underflow,
    placed.sectors, placed.distinctJobs,
    placed.jobs.setStage_other (by simp [filling]), placed.sortedPending,
    placed.pending.setStage_other (by simp [filling]), placed.sortedPartial,
    fun multiple => (placed.partials multiple).setStage_other (by
      simp [BlockStage.Assembling, filling])⟩

theorem mem_eraseIdx_of_nodup
    {jobs : List CompressJob} (distinct : jobs.Nodup) {position : Nat}
    {job : CompressJob} (found : jobs[position]? = some job)
    (other : CompressJob) :
    other ∈ jobs.eraseIdx position ↔ other ∈ jobs ∧ other ≠ job := by
  obtain ⟨inside, rfl⟩ := List.getElem?_eq_some_iff.mp found
  rw [← distinct.erase_getElem position inside, distinct.mem_erase_iff]
  exact and_comm

/-- A compression is over. -/
theorem Placed.takeJob
    (placed : Placed archive pipeline output) {position : Nat}
    {job : CompressJob} (found : output.jobs[position]? = some job) :
    ∃ block, job.block = block % 2 ^ 32 ∧
      pipeline.Holds job.sector block ∧
      pipeline.stage block = .compressing ∧
      ∀ stage, stage = .ready ∨ stage = .failed →
        Placed archive (pipeline.setStage block stage)
          { output with jobs := output.jobs.eraseIdx position } := by
  obtain ⟨block, tag, holds, compressing⟩ :=
    (placed.jobs job.block job.sector).mp (List.mem_of_getElem? found)
  refine ⟨block, tag, holds, compressing, ?_⟩
  intro stage after
  have outside : stage ≠ .compressing ∧ stage ≠ .pending ∧
      stage.Assembling := by
    rcases after with rfl | rfl <;> simp [BlockStage.Assembling]
  refine ⟨⟨placed.same.flags, placed.same.fmt, placed.same.noFile,
      placed.same.srcSize, placed.same.indexShift, placed.same.indexAlign,
      placed.same.blockSize, placed.same.blockShift⟩,
    placed.underflow, placed.sectors,
    List.Nodup.sublist (List.eraseIdx_sublist _ _) placed.distinctJobs, ?_,
    placed.sortedPending,
    placed.pending.setStage_other (by simp [compressing, outside.2.1]),
    placed.sortedPartial, ?_⟩
  · apply placed.jobs.setStage_remove outside.1 ?_ placed.distinguishes_tag
      holds
    intro tag' other
    rw [mem_eraseIdx_of_nodup placed.distinctJobs found]
    refine and_congr_right fun _ => not_congr ?_
    constructor
    · rintro rfl
      exact ⟨tag, holds⟩
    · rintro ⟨rfl, holds'⟩
      obtain rfl := holds.worker_unique holds'
      dsimp only at tag
      rw [← tag]
  · intro multiple
    apply (placed.partials multiple).setStage_other
    exact iff_of_true outside.2.2 (by
      simp [BlockStage.Assembling, compressing])

/-- `partialSectors_` without a block. -/
theorem Placed.partials_erase
    (placed : Placed archive pipeline output)
    (multiple : archive.blockSize ≠ sectorSize)
    (holds : pipeline.Holds id block) {stage : BlockStage}
    (leaves : ¬ stage.Assembling) :
    (pipeline.setStage block stage).Tracks (· % 2 ^ 32)
      BlockStage.Assembling
      fun tag id =>
        (tag, id) ∈ OrderedMap.erase (block % 2 ^ 32)
          output.partialSectors := by
  apply (placed.partials multiple).setStage_remove leaves ?_
    placed.distinguishes_tag holds
  intro tag other
  rw [mem_erase, and_comm]
  refine and_congr_right fun member => not_congr ?_
  constructor
  · rintro rfl
    obtain ⟨block', same, holds', _⟩ :=
      (placed.partials multiple _ _).mp member
    obtain rfl := placed.distinguishes_tag _ _ holds.1 holds.lt_last
      holds'.1 holds'.lt_last same
    exact ⟨rfl, holds'⟩
  · exact And.left

/-- The output after the callback of a sector has removed its block. -/
def finishedPartial (output : Output) (tag : Nat) : Output :=
  if output.blockSize ≠ sectorSize then
    { output with
      partialSectors := OrderedMap.erase tag output.partialSectors }
  else
    output

/-- The callback of a sector takes its block out of `partialSectors_`. -/
theorem Placed.finishPartial
    (placed : Placed archive pipeline output)
    (holds : pipeline.Holds id block)
    (ready : pipeline.stage block = .ready) :
    Placed archive (pipeline.setStage block .lost)
      (output.finishedPartial (block % 2 ^ 32)) := by
  have jobs := @Pipeline.Tracks.setStage_other _ _ _ _ _ _ _ block
    BlockStage.lost placed.jobs (by simp [ready])
  have pending := @Pipeline.Tracks.setStage_other _ _ _ _ _ _ _ block
    BlockStage.lost placed.pending (by simp [ready])
  unfold finishedPartial
  split
  · exact ⟨⟨placed.same.flags, placed.same.fmt, placed.same.noFile,
        placed.same.srcSize, placed.same.indexShift,
        placed.same.indexAlign, placed.same.blockSize,
        placed.same.blockShift⟩,
      placed.underflow, placed.sectors, placed.distinctJobs, jobs,
      placed.sortedPending, pending, sorted_erase placed.sortedPartial,
      fun multiple => placed.partials_erase multiple holds
        (by simp [BlockStage.Assembling])⟩
  · rename_i single
    refine ⟨placed.same, placed.underflow, placed.sectors,
      placed.distinctJobs, jobs, placed.sortedPending, pending,
      placed.sortedPartial, ?_⟩
    intro multiple
    rw [placed.blockSize] at single
    exact absurd multiple single

theorem Placed.not_pending
    (placed : Placed archive pipeline output)
    (holds : pipeline.Holds id block)
    (elsewhere : pipeline.stage block ≠ .pending) (other : SectorId) :
    (((block * archive.blockSize : Nat) : Int), other) ∉
      output.pendingSectors := by
  intro member
  obtain ⟨block', same, holds', pending⟩ := (placed.pending _ _).mp member
  obtain rfl := distinguishes_pos _ _ holds.1 holds.lt_last
    holds'.1 holds'.lt_last same
  exact elsewhere pending

/-- A block whose turn it is not is queued. -/
theorem Placed.queue
    (placed : Placed archive pipeline output)
    (holds : pipeline.Holds id block)
    (taken : (pipeline.stage block).Taken) :
    Placed archive (pipeline.setStage block .pending)
      { output with
        pendingSectors :=
          OrderedMap.insert ((block * archive.blockSize : Nat) : Int) id
            output.pendingSectors } := by
  have elsewhere : pipeline.stage block ≠ .compressing ∧
      pipeline.stage block ≠ .pending ∧
        ¬ (pipeline.stage block).Assembling := by
    rcases taken with stage | stage <;>
      simp [stage, BlockStage.Assembling]
  refine ⟨⟨placed.same.flags, placed.same.fmt, placed.same.noFile,
      placed.same.srcSize, placed.same.indexShift, placed.same.indexAlign,
      placed.same.blockSize, placed.same.blockShift⟩,
    placed.underflow, placed.sectors, placed.distinctJobs,
    placed.jobs.setStage_other (by simp [elsewhere.1]),
    sorted_insert placed.sortedPending, ?_, placed.sortedPartial,
    fun multiple => (placed.partials multiple).setStage_other (iff_of_false
      (by simp [BlockStage.Assembling]) elsewhere.2.2)⟩
  apply placed.pending.setStage_add holds rfl elsewhere.2.1
  intro pos other
  dsimp only
  rw [mem_insert]
  constructor
  · rintro (same | ⟨_, member⟩)
    · exact Or.inl same
    · exact Or.inr member
  · rintro (same | member)
    · exact Or.inl same
    · refine Or.inr ⟨?_, member⟩
      rintro rfl
      exact placed.not_pending holds elsewhere.2.1 other member

/-- A pending block is taken to be written. -/
theorem Placed.take
    (placed : Placed archive pipeline output)
    (holds : pipeline.Holds id block)
    (pending : pipeline.stage block = .pending) :
    Placed archive (pipeline.setStage block .lost)
      { output with
        pendingSectors :=
          OrderedMap.erase ((block * archive.blockSize : Nat) : Int)
            output.pendingSectors } := by
  refine ⟨⟨placed.same.flags, placed.same.fmt, placed.same.noFile,
      placed.same.srcSize, placed.same.indexShift, placed.same.indexAlign,
      placed.same.blockSize, placed.same.blockShift⟩,
    placed.underflow, placed.sectors, placed.distinctJobs,
    placed.jobs.setStage_other (by simp [pending]),
    sorted_erase placed.sortedPending, ?_, placed.sortedPartial,
    fun multiple => (placed.partials multiple).setStage_other (by
      simp [BlockStage.Assembling, pending])⟩
  apply placed.pending.setStage_remove (by simp) _ distinguishes_pos
    holds
  intro pos other
  dsimp only
  rw [mem_erase, and_comm]
  refine and_congr_right fun member => not_congr ?_
  constructor
  · rintro rfl
    obtain ⟨block', same, holds', _⟩ := (placed.pending _ _).mp member
    obtain rfl := distinguishes_pos _ _ holds.1 holds.lt_last
      holds'.1 holds'.lt_last same
    exact ⟨rfl, holds'⟩
  · exact And.left

/-- The stages of blocks that are in no container do not matter. -/
theorem Placed.restage
    (placed : Placed archive pipeline output) {other : BlockPipeline}
    (first : other.first = pipeline.first)
    (owners : other.owners = pipeline.owners)
    (stages : ∀ block, pipeline.first ≤ block → block < pipeline.last →
      other.stage block = pipeline.stage block ∨
        ((other.stage block).Taken ∧ (pipeline.stage block).Taken)) :
    Placed archive other output := by
  have unseen : ∀ stage : BlockStage, stage.Taken →
      stage ≠ .compressing ∧ stage ≠ .pending ∧ ¬ stage.Assembling := by
    rintro stage (rfl | rfl) <;> simp [BlockStage.Assembling]
  refine ⟨placed.same, placed.underflow, ?_, placed.distinctJobs, ?_,
    placed.sortedPending, ?_, placed.sortedPartial, ?_⟩
  · rw [owners]
    exact placed.sectors
  · apply placed.jobs.congr first owners
    intro block above below
    rcases stages block above below with same | ⟨taken, taken'⟩
    · rw [same]
    · exact iff_of_false (unseen _ taken).1 (unseen _ taken').1
  · apply placed.pending.congr first owners
    intro block above below
    rcases stages block above below with same | ⟨taken, taken'⟩
    · rw [same]
    · exact iff_of_false (unseen _ taken).2.1 (unseen _ taken').2.1
  · intro multiple
    apply (placed.partials multiple).congr first owners
    intro block above below
    rcases stages block above below with same | ⟨taken, taken'⟩
    · rw [same]
    · exact iff_of_false (unseen _ taken).2.2 (unseen _ taken').2.2

/-- The first block has been taken. -/
theorem Placed.mark_one
    (placed : Placed archive (pipeline.setStage pipeline.first .lost)
      output) :
    Placed archive (pipeline.mark 1 .lost) output := by
  refine placed.restage rfl rfl ?_
  intro block above _
  refine Or.inl ?_
  by_cases head : block = pipeline.first
  · subst head
    rw [Pipeline.setStage_stage_self, Pipeline.mark_stage_of_lt (by omega)]
  · have later : pipeline.first + 1 ≤ block := by
      have le : pipeline.first ≤ block := above
      omega
    rw [Pipeline.setStage_stage_of_ne head, Pipeline.mark_stage_of_le later]

/-- The blocks that have been taken are being written. -/
theorem Placed.mark_writing {count : Nat}
    (placed : Placed archive (pipeline.mark count .lost) output) :
    Placed archive (pipeline.mark count .writing) output := by
  refine placed.restage rfl rfl ?_
  intro block _ _
  by_cases inside : block < pipeline.first + count
  · rw [Pipeline.mark_stage_of_lt inside, Pipeline.mark_stage_of_lt inside]
    exact Or.inr ⟨Or.inl rfl, Or.inr rfl⟩
  · have later := Nat.not_lt.mp inside
    rw [Pipeline.mark_stage_of_le later, Pipeline.mark_stage_of_le later]
    exact Or.inl rfl

/-- The sector that is found at a position has the block there. -/
theorem Placed.of_find
    (placed : Placed archive pipeline output)
    (found : OrderedMap.find ((block * archive.blockSize : Nat) : Int)
      output.pendingSectors = some id) :
    pipeline.Holds id block ∧ pipeline.stage block = .pending := by
  have bounds := archive.blockSize_bounds
  have member := (find_eq_some_iff placed.sortedPending).mp found
  obtain ⟨block', same, holds, pending⟩ := (placed.pending _ _).mp member
  obtain rfl : block = block' :=
    Nat.eq_of_mul_eq_mul_right (by omega) (Int.ofNat_inj.mp same)
  exact ⟨holds, pending⟩

/-- The blocks that directly follow are taken too. -/
theorem Placed.gather
    {count : Nat}
    (placed : Placed archive (pipeline.mark count .lost) output)
    (live : count ≤ pipeline.owners.length) (fuel : Nat) :
    ∃ more pending,
      Output.gather archive.blockSize fuel
          (((pipeline.first + count) * archive.blockSize : Nat) : Int)
          output.pendingSectors =
        ((pipeline.owners.drop count).take more, pending,
          (((pipeline.first + count + more) * archive.blockSize : Nat) :
            Int)) ∧
      count + more ≤ pipeline.owners.length ∧
      (∀ block, pipeline.first + count ≤ block →
        block < pipeline.first + count + more →
          pipeline.stage block = .pending) ∧
      Placed archive (pipeline.mark (count + more) .lost)
        { output with pendingSectors := pending } := by
  induction fuel generalizing count output with
  | zero =>
      refine ⟨0, output.pendingSectors, rfl, live, ?_, placed⟩
      intro block above below
      omega
  | succ fuel inductionHypothesis =>
      cases found : OrderedMap.find
          (((pipeline.first + count) * archive.blockSize : Nat) : Int)
          output.pendingSectors with
      | none =>
          refine ⟨0, output.pendingSectors, ?_, live, ?_, placed⟩
          · rw [Output.gather, found]
            rfl
          · intro block above below
            omega
      | some id =>
          obtain ⟨holds, pending⟩ := placed.of_find found
          have taken := placed.take holds pending
          rw [Pipeline.mark_succ] at taken
          rw [Pipeline.mark_stage_of_le (Nat.le_refl _)] at pending
          obtain ⟨inside, held⟩ := List.getElem?_eq_some_iff.mp
            (Pipeline.holds_mark.mp holds).2
          have index : pipeline.first + count - pipeline.first = count :=
            Nat.add_sub_cancel_left _ _
          simp only [index] at inside held
          obtain ⟨more, left, gathered, enough, stages, placed'⟩ :=
            inductionHypothesis taken inside
          have next : (((pipeline.first + count) * archive.blockSize : Nat) :
              Int) + archive.blockSize =
                ((pipeline.first + (count + 1)) * archive.blockSize : Nat) := by
            rw [← Nat.add_assoc, Nat.add_mul _ 1, Nat.one_mul]
            exact Int.natCast_add _ _
          refine ⟨more + 1, left, ?_, by omega, ?_, ?_⟩
          · rw [Output.gather, found]
            dsimp only
            rw [next, gathered, List.drop_eq_getElem_cons inside, held,
              List.take_succ_cons]
            have total : pipeline.first + (count + 1) + more =
                pipeline.first + count + (more + 1) := by omega
            rw [total]
          · intro block above below
            by_cases head : block = pipeline.first + count
            · rw [head]
              exact pending
            · exact stages block (by omega) (by omega)
          · have total : count + 1 + more = count + (more + 1) := by omega
            rw [← total]
            exact placed'

/-! ## Released sectors -/

theorem Placed.retire {count : Nat}
    (placed : Placed archive pipeline output)
    (taken : ∀ block, pipeline.first ≤ block →
      block < pipeline.first + count → (pipeline.stage block).Taken) :
    Placed archive (pipeline.retire count)
      { output with
        freeSectors := output.freeSectors ++ pipeline.owners.take count } := by
  have unseen : ∀ block, pipeline.first ≤ block →
      block < pipeline.first + count →
        pipeline.stage block ≠ .compressing ∧
          pipeline.stage block ≠ .pending ∧
            ¬ (pipeline.stage block).Assembling := by
    intro block above below
    rcases taken block above below with stage | stage <;>
      simp [stage, BlockStage.Assembling]
  refine ⟨⟨placed.same.flags, placed.same.fmt, placed.same.noFile,
      placed.same.srcSize, placed.same.indexShift, placed.same.indexAlign,
      placed.same.blockSize, placed.same.blockShift⟩,
    placed.underflow, ?_, placed.distinctJobs,
    placed.jobs.retire fun block above below =>
      (unseen block above below).1,
    placed.sortedPending,
    placed.pending.retire fun block above below =>
      (unseen block above below).2.1,
    placed.sortedPartial,
    fun multiple => (placed.partials multiple).retire
      fun block above below => (unseen block above below).2.2⟩
  have split : output.freeSectors ++ pipeline.owners.take count ++
      pipeline.owners.drop count =
        output.freeSectors ++ pipeline.owners := by
    rw [List.append_assoc, List.take_append_drop]
  exact (List.Perm.of_eq split).trans placed.sectors

end

end Output

end Maxcso
