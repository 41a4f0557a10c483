import Maxcso.Writer.Contents

/-!
# Accepting sectors

What `Enqueue` and the padding after it do to the containers and to the sector
objects.
-/

namespace Maxcso

open FileBytes

namespace Output

section

variable {archive : Archive} {course : Course} {output : Output}

/-- The tag of the block of the next sector. -/
theorem tag_eq (placed : Placed archive course.pipeline output) :
    toUint32 ((course.filled : Int) / 2 ^ output.blockShift) =
      course.block archive % 2 ^ 32 := by
  have quotient : (course.filled : Int) / 2 ^ archive.shift =
      (course.block archive : Nat) := by
    rw [Course.block, WriterConfig.blockSize, Int.natCast_div]
    push_cast
    rfl
  rw [placed.blockShift, quotient, toUint32_natCast]

/-- A block that is in parts is longer than a sector. -/
theorem multiple_of_part (filled : Course.Filled archive course)
    (part : course.filled % archive.blockSize ≠ 0) :
    archive.blockSize ≠ sectorSize := by
  intro single
  rw [single] at part
  exact part (Nat.mod_eq_zero_of_dvd filled.aligned)

/-- The newest block has a sector object and is being filled. -/
theorem newest_of_part (filled : Course.Filled archive course)
    (part : course.filled % archive.blockSize ≠ 0)
    {id : SectorId} (takes : course.Takes archive id) :
    course.pipeline.Holds id (course.block archive) ∧
      course.pipeline.stage (course.block archive) = .filling := by
  unfold Course.Takes at takes
  rw [if_neg part] at takes
  refine ⟨takes, ?_⟩
  exact (filled.filling _ takes.1 takes.lt_last).mpr
    (Course.lt_succ_block_mul _ _)

/-- Blocks other than the newest are described whatever arrives. -/
theorem Contents.others
    (contents : Contents archive course.pipeline course.filled output)
    (filled : Course.Filled archive course) {id : SectorId} {block : Nat}
    (holds : course.pipeline.Holds id block)
    (other : block ≠ course.block archive) (filled' : Nat) :
    Described archive filled' block (course.pipeline.stage block)
      (output.sectors id) := by
  apply (contents.described id block holds).refill
  intro filling
  have below := (filled.filling block holds.1 holds.lt_last).mp filling
  have low := Course.block_mul_le archive course
  have live := holds.lt_last
  have newest : course.last ≤ course.block archive + 1 := by
    by_cases whole : course.filled % archive.blockSize = 0
    · rw [filled.block_new whole]
      exact Nat.le_succ _
    · rw [filled.block_newest whole]
  have older : block + 1 ≤ course.block archive := by
    have le : course.pipeline.last ≤ course.block archive + 1 := newest
    omega
  have full : (block + 1) * archive.blockSize ≤
      course.block archive * archive.blockSize :=
    Nat.mul_le_mul_right _ older
  omega

/-- A sector object has been found for the next sector. -/
structure Assigned (archive : Archive) (course : Course) (id : SectorId)
    (pipeline : BlockPipeline) (output : Output) : Prop where
  takes : course.Takes archive id
  fill : (course.fill archive id).pipeline =
    pipeline.setStage (course.block archive)
      (archive.stageAt (course.filled + sectorSize))
  placed : Placed archive pipeline output
  holds : pipeline.Holds id (course.block archive)
  filling : pipeline.stage (course.block archive) = .filling
  idle : ∀ other ∈ output.freeSectors,
    Sector.Idle archive.template (output.sectors other)
  described : ∀ other block, pipeline.Holds other block →
    block ≠ course.block archive →
      Described archive (course.filled + sectorSize) block
        (pipeline.stage block) (output.sectors other)
  new : course.filled % archive.blockSize = 0 →
    Sector.Idle archive.template (output.sectors id)
  begun : course.filled % archive.blockSize ≠ 0 →
    Sector.Fills archive.template (!archive.decompressing)
      (course.block archive * archive.blockSize : Nat)
      (archive.part (course.block archive) course.filled)
      (output.sectors id)

/-- The newest block keeps its sector object. -/
theorem assigned_part
    (filled : Course.Filled archive course)
    (placed : Placed archive course.pipeline output)
    (contents : Contents archive course.pipeline course.filled output)
    (part : course.filled % archive.blockSize ≠ 0)
    {id : SectorId} (takes : course.Takes archive id) :
    Assigned archive course id course.pipeline output := by
  obtain ⟨holds, filling⟩ := newest_of_part filled part takes
  refine ⟨takes, ?_, placed, holds, filling, contents.idle, ?_, ?_, ?_⟩
  · unfold Course.fill
    dsimp only
    rw [if_neg part]
  · intro other block holds' different
    exact contents.others filled holds' different _
  · intro whole
    exact absurd whole part
  · intro _
    have described := contents.described id _ holds
    rwa [filling] at described

/-- A new block takes a free sector object. -/
theorem assigned_whole
    (filled : Course.Filled archive course)
    (placed : Placed archive course.pipeline output)
    (contents : Contents archive course.pipeline course.filled output)
    (whole : course.filled % archive.blockSize = 0)
    {free : List SectorId} {id : SectorId}
    (split : output.freeSectors = free ++ [id]) :
    Assigned archive course id (course.pipeline.claim id .filling)
      (output.claimed course.pipeline.last free id) := by
  have new : course.block archive = course.pipeline.last :=
    filled.block_new whole
  have member : id ∈ output.freeSectors := by
    rw [split]
    exact List.mem_append_right _ List.mem_cons_self
  have fresh : id ∉ course.pipeline.owners := by
    intro owner
    exact (List.nodup_append.mp placed.nodup).2.2 id member id owner rfl
  refine ⟨?_, ?_, placed.claim split, ?_, ?_, ?_, ?_, ?_, ?_⟩
  · rw [Course.Takes, if_pos whole]
    exact fresh
  · unfold Course.fill
    dsimp only
    rw [if_pos whole]
  · rw [new]
    exact Pipeline.holds_claim.mpr (Or.inr ⟨rfl, rfl⟩)
  · rw [new, Pipeline.claim_stage_last]
  · intro other inside
    apply contents.idle
    rw [split]
    exact List.mem_append_left _ inside
  · intro other block holds different
    rcases Pipeline.holds_claim.mp holds with before | ⟨_, same⟩
    · rw [Pipeline.claim_stage_of_holds before]
      exact contents.others filled before different _
    · exact absurd (same.trans new.symm) different
  · intro _
    exact contents.idle id member
  · intro part
    exact absurd whole part

/-- The sector object for the next sector. -/
theorem sectorFor_spec
    (filled : Course.Filled archive course)
    (placed : Placed archive course.pipeline output)
    (contents : Contents archive course.pipeline course.filled output)
    (room : course.filled % archive.blockSize = 0 →
      output.freeSectors ≠ []) :
    ∃ id free partials pipeline,
      output.sectorFor (course.block archive % 2 ^ 32) =
        ({ output with
            freeSectors := free
            partialSectors := partials }, id) ∧
      Assigned archive course id pipeline
        { output with freeSectors := free, partialSectors := partials } := by
  by_cases whole : course.filled % archive.blockSize = 0
  · obtain ⟨free, id, split, taken⟩ := placed.sectorFor_new (room whole)
    refine ⟨id, free, _, _, ?_,
      assigned_whole filled placed contents whole split⟩
    rw [filled.block_new whole]
    exact taken
  · have newest : course.block archive + 1 = course.pipeline.last :=
      filled.block_newest whole
    obtain ⟨id, holds⟩ := Pipeline.exists_holds filled.first_le_block
      (show course.block archive < course.pipeline.last by omega)
    have takes : course.Takes archive id := by
      rw [Course.Takes, if_neg whole]
      exact holds
    have assigned := assigned_part filled placed contents whole takes
    exact ⟨id, output.freeSectors, output.partialSectors, course.pipeline,
      placed.sectorFor_found (multiple_of_part filled whole) holds
        assigned.filling, assigned⟩

/-- The next sector has been put into its block. -/
structure Put (archive : Archive) (course : Course) (id : SectorId)
    (output : Output) (pool : BufferPool) (result : OutputResult) :
    Prop where
  placed : Placed archive (course.fill archive id).pipeline result.output
  contents : Contents archive (course.fill archive id).pipeline
    (course.filled + sectorSize) result.output
  output : ∃ free partials sectors jobs, result.output =
    { output with
      freeSectors := free
      partialSectors := partials
      sectors := sectors
      jobs := jobs }
  pool : result.pool.bufferSize = pool.bufferSize
  calls : result.calls =
    if archive.stageAt (course.filled + sectorSize) = .ready then
      [.sectorReady id (course.block archive % 2 ^ 32)]
    else
      []

/-- `Process` and what follows it. -/
theorem Assigned.put
    {id : SectorId} {pipeline : BlockPipeline} {pool : BufferPool}
    {processed : Sector × BufferPool × Sector.ProcessOutcome}
    (assigned : Assigned archive course id pipeline output)
    (filled : Course.Filled archive course)
    (short : course.filled < archive.paddedSize)
    (done : Processed archive course pool processed) :
    Put archive course id output pool
      (output.afterProcess id (course.block archive % 2 ^ 32)
        processed) := by
  rw [afterProcess_eq filled done]
  refine ⟨?_, ?_, ⟨_, _, _, _, rfl⟩, done.2.1, rfl⟩
  · rw [assigned.fill]
    apply placed_process assigned.placed assigned.holds assigned.filling
    unfold Archive.stageAt
    by_cases part : (course.filled + sectorSize) % archive.blockSize ≠ 0
    · exact Or.inl (if_pos part)
    · rw [if_neg part]
      cases archive.decompressing <;> simp
  · rw [assigned.fill]
    exact contents_process filled short assigned.placed assigned.holds
      assigned.idle assigned.described done

/-- `Enqueue` of the next sector. -/
theorem enqueue_spec
    (env : Environment) {pool : BufferPool} {buffer : Buffer}
    (filled : Course.Filled archive course)
    (short : course.filled < archive.paddedSize)
    (placed : Placed archive course.pipeline output)
    (contents : Contents archive course.pipeline course.filled output)
    (free : course.filled % archive.blockSize = 0 →
      output.freeSectors ≠ [])
    (room : archive.blockSize ≤ pool.bufferSize)
    (content : FlatMemory.read buffer.memory 0 sectorSize =
      pread archive.padded course.filled sectorSize) :
    ∃ id result, course.Takes archive id ∧
      Put archive course id output pool result ∧
      output.enqueue env pool course.filled buffer =
        { result with
          calls := result.calls ++
            if archive.blockSize ≠ sectorSize ∧
                (archive.srcSize : Int) ≤ course.filled + sectorSize then
              [.pad id (course.block archive % 2 ^ 32) archive.srcSize]
            else
              [] } := by
  obtain ⟨id, freeSectors, partials, pipeline, found, assigned⟩ :=
    sectorFor_spec filled placed contents free
  have done : Processed archive course pool
      ((prepare archive (output.sectors id)).process env pool
        course.filled buffer) := by
    by_cases whole : course.filled % archive.blockSize = 0
    · exact process_first env pool content whole
        (prepare_idle (assigned.new whole))
    · exact process_more env filled room content
        (prepare_fills (assigned.begun whole))
  have put := assigned.put filled short done
  refine ⟨id, _, assigned.takes,
    ⟨put.placed, put.contents, ?_, put.pool, put.calls⟩, ?_⟩
  · obtain ⟨free', partials', sectors', jobs', same⟩ := put.output
    exact ⟨free', partials', sectors', jobs', same⟩
  · have mode : ({ output with
        freeSectors := freeSectors
        partialSectors := partials } : Output).decompressing =
          archive.decompressing := assigned.placed.decompressing
    have size : output.blockSize = archive.blockSize := placed.blockSize
    have total : output.srcSize = archive.srcSize := placed.srcSize
    unfold enqueue
    dsimp only
    rw [tag_eq placed, found]
    dsimp only
    rw [mode, size, total]
    unfold prepare
    split
    · rfl
    · rw [List.append_nil]

theorem read_zeros (memory : Nat → UInt8) :
    FlatMemory.read
        (FlatMemory.write memory 0 (List.replicate sectorSize 0)) 0
        sectorSize =
      List.replicate sectorSize 0 := by
  have whole :=
    FlatMemory.read_write_self memory 0 (List.replicate sectorSize 0)
  rwa [List.length_replicate] at whole

/-- Beyond the image there are zeros. -/
theorem pread_padding
    (filled : Course.Filled archive course)
    (short : course.filled < archive.paddedSize)
    (ended : archive.sourceSize ≤ course.filled) :
    pread archive.padded course.filled sectorSize =
      List.replicate sectorSize 0 := by
  have fits : course.filled + sectorSize ≤ archive.paddedSize :=
    (@Course.Filled.fill archive course 0 filled short).filled_le
  have padded := @paddedSize_le archive
  have length := archive.length
  rw [length_padded] at padded
  have offset : course.filled =
      archive.image.length + (course.filled - archive.sourceSize) := by
    omega
  rw [Archive.padded, offset, pread_append_right, pread, List.drop_replicate,
    List.take_replicate, Nat.min_eq_left (by omega)]

/-- One round of padding. -/
theorem pad_spec
    (env : Environment) {pool : BufferPool} {id : SectorId}
    (filled : Course.Filled archive course)
    (short : course.filled < archive.paddedSize)
    (ended : archive.sourceSize ≤ course.filled)
    (placed : Placed archive course.pipeline output)
    (contents : Contents archive course.pipeline course.filled output)
    (room : archive.blockSize ≤ pool.bufferSize)
    (takes : course.Takes archive id) :
    ∃ result, Put archive course id output pool result ∧
      output.pad env pool id (course.block archive % 2 ^ 32)
          course.filled =
        { result with
          calls := result.calls ++
            [.pad id (course.block archive % 2 ^ 32)
              ((course.filled + sectorSize : Nat) : Int)] } := by
  have part : course.filled % archive.blockSize ≠ 0 := by
    intro whole
    have padded := Course.paddedSize_le_of_whole whole
      (archive.srcSize_le_sourceSize.trans ended)
    omega
  have assigned := assigned_part filled placed contents part takes
  have inside : (course.filled : Int) <
      output.srcSizeAligned - output.srcSizeAligned % output.blockSize := by
    rw [placed.paddedSize]
    exact_mod_cast short
  obtain ⟨padBuffer, written⟩ : ∃ padBuffer : Buffer, padBuffer =
      { (pool.alloc env.heap).1 with
        memory :=
          FlatMemory.write (pool.alloc env.heap).1.memory 0
            (List.replicate sectorSize 0) } := ⟨_, rfl⟩
  have zeros : FlatMemory.read padBuffer.memory 0 sectorSize =
      pread archive.padded course.filled sectorSize := by
    rw [written, pread_padding filled short ended]
    exact read_zeros _
  have done := @process_more archive course _ env (pool.alloc env.heap).2
    _ filled (by rwa [BufferPool.alloc_bufferSize]) zeros
    (assigned.begun part)
  have put := assigned.put filled short done
  refine ⟨_, ⟨put.placed, put.contents, put.output, ?_, put.calls⟩, ?_⟩
  · rw [put.pool, BufferPool.alloc_bufferSize]
  · unfold pad
    dsimp only
    rw [if_pos inside, ← written]
    push_cast
    rfl

end

end Output

end Maxcso
