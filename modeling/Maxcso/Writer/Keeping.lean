import Maxcso.Writer.Archive

/-!
# What the writer leaves alone

After `SetFile` no function of the writer changes the settings of the file or
the size of the buffers.
-/

namespace Maxcso

namespace Sector

variable {sector : Sector} {pool : BufferPool}

theorem process_bufferSize
    (env : Environment) (pos : Int) (buffer : Buffer) :
    (sector.process env pool pos buffer).2.1.bufferSize =
      pool.bufferSize := by
  have accepted : ∀ (other : Sector) (after : BufferPool),
      (process.accept other after).2.1 = after := by
    intro other after
    unfold process.accept
    dsimp only
    split
    · rfl
    · split
      · rfl
      · split
        · rfl
        · rfl
  unfold process
  split
  · dsimp only
    split
    · rw [accepted]
    · rw [accepted]
      simp
  · split
    · rw [accepted]
      simp
    · rfl

theorem compressWork_bufferSize (env : Environment) :
    (sector.compressWork env pool).2.bufferSize = pool.bufferSize := by
  obtain ⟨_, _, trials⟩ := compressWith_best env.heap sector pool
    (env.trials sector.pos sector.blockBytes)
  obtain ⟨_, _, final⟩ := finalizeBest_best
    (sector.compressWith env.heap pool
      (env.trials sector.pos sector.blockBytes)).1
    (sector.compressWith env.heap pool
      (env.trials sector.pos sector.blockBytes)).2
    sector.align
  exact final.trans trials

theorem release_bufferSize :
    (sector.release pool).2.bufferSize = pool.bufferSize := by
  unfold release
  cases sector.best <;> cases sector.buffer <;> rfl

end Sector

namespace Output

variable {output other : Output} {pool : BufferPool}

theorem SameFile.refl (output : Output) : SameFile output output :=
  ⟨rfl, rfl, rfl, rfl, rfl, rfl, rfl, rfl⟩

/-- The settings and the size of the buffers are those from before. -/
structure Keeps (output : Output) (pool : BufferPool)
    (result : OutputResult) : Prop where
  same : SameFile output result.output
  bufferSize : result.pool.bufferSize = pool.bufferSize

theorem Keeps.after
    {pool' : BufferPool} {result : OutputResult}
    (keeps : Keeps other pool' result) (same : SameFile output other)
    (bufferSize : pool'.bufferSize = pool.bufferSize) :
    Keeps output pool result :=
  ⟨same.trans keeps.same, keeps.bufferSize.trans bufferSize⟩

/-! ## Writing blocks -/

theorem layoutSectors_same (dstPos : Int) (ids : List SectorId) :
    SameFile output (output.layoutSectors dstPos ids).output := by
  induction ids generalizing output dstPos with
  | nil => exact .refl output
  | cons id rest inductionHypothesis =>
      rw [layoutSectors, updateIndex_eq]
      have stored : SameFile output
          { output with
            index := Function.update output.index
              (toUint32 ((output.sectors id).pos / 2 ^ output.blockShift))
              (indexWord output.fmt output.indexShift dstPos
                (output.sectors id).bestFmt) } :=
        ⟨rfl, rfl, rfl, rfl, rfl, rfl, rfl, rfl⟩
      cases refusal output.fmt (output.sectors id).bestFmt with
      | some reason => exact stored
      | none =>
          dsimp only
          split
          · exact stored.trans (inductionHypothesis _)
          · exact stored.trans (inductionHypothesis _)

theorem flush_same (env : Environment) :
    SameFile output (output.flush env).1 := by
  have same := SameFile.refl output
  unfold flush
  split
  · exact same
  · split
    · exact ⟨rfl, rfl, rfl, rfl, rfl, rfl, rfl, rfl⟩
    · cases output.fmt with
      | dax =>
          unfold writeDaxIndex
          dsimp only
          split
          · exact ⟨rfl, rfl, rfl, rfl, rfl, rfl, rfl, rfl⟩
          · exact ⟨rfl, rfl, rfl, rfl, rfl, rfl, rfl, rfl⟩
      | _ =>
          unfold writeCsoIndex
          dsimp only
          split
          · exact ⟨rfl, rfl, rfl, rfl, rfl, rfl, rfl, rfl⟩
          · exact ⟨rfl, rfl, rfl, rfl, rfl, rfl, rfl, rfl⟩

theorem releaseSectors_keeps (ids : List SectorId) :
    Keeps output pool
      ⟨(output.releaseSectors pool ids).1,
        (output.releaseSectors pool ids).2, []⟩ := by
  induction ids generalizing output pool with
  | nil => exact ⟨.refl output, rfl⟩
  | cons id rest inductionHypothesis =>
      rw [releaseSectors]
      exact inductionHypothesis.after
        ⟨rfl, rfl, rfl, rfl, rfl, rfl, rfl, rfl⟩ Sector.release_bufferSize

theorem handleWrittenSectors_keeps
    (success : Bool) (ids : List SectorId) (nextPos totalWrite : Int) :
    Keeps output pool
      (output.handleWrittenSectors pool success ids nextPos totalWrite) := by
  have released := @releaseSectors_keeps output pool ids
  unfold handleWrittenSectors
  dsimp only
  split
  · exact ⟨released.same, released.bufferSize⟩
  · exact ⟨released.same.trans ⟨rfl, rfl, rfl, rfl, rfl, rfl, rfl, rfl⟩,
      released.bufferSize⟩

theorem writeFrom_keeps (env : Environment) (id : SectorId) :
    Keeps output pool (output.writeFrom env pool id) := by
  unfold writeFrom
  dsimp only
  generalize gather output.blockSize (maxBufs - 1)
    (output.srcPos + output.blockSize) output.pendingSectors = gathered
  have pending : SameFile output
      { output with pendingSectors := gathered.2.1 } :=
    ⟨rfl, rfl, rfl, rfl, rfl, rfl, rfl, rfl⟩
  have laid := pending.trans (@layoutSectors_same
    { output with pendingSectors := gathered.2.1 } output.dstPos
    (id :: gathered.1))
  generalize layoutSectors { output with pendingSectors := gathered.2.1 }
    output.dstPos (id :: gathered.1) = layout at laid
  cases layout.failure with
  | some reason => exact ⟨laid, rfl⟩
  | none =>
      dsimp only
      have flushed : SameFile output
          (if layout.output.srcSize ≤ gathered.2.2 then
            flush env
              { layout.output with
                index := Function.update layout.output.index
                  layout.output.totalBlocks
                  (toUint32 (layout.dstPos / 2 ^ layout.output.indexShift))
                stateIndexReady := true }
          else (layout.output, [])).1 := by
        split
        · have ready : SameFile layout.output
              { layout.output with
                index := Function.update layout.output.index
                  layout.output.totalBlocks
                  (toUint32 (layout.dstPos / 2 ^ layout.output.indexShift))
                stateIndexReady := true } :=
            ⟨rfl, rfl, rfl, rfl, rfl, rfl, rfl, rfl⟩
          exact (laid.trans ready).trans (flush_same env)
        · exact laid
      generalize (if layout.output.srcSize ≤ gathered.2.2 then
            flush env
              { layout.output with
                index := Function.update layout.output.index
                  layout.output.totalBlocks
                  (toUint32 (layout.dstPos / 2 ^ layout.output.indexShift))
                stateIndexReady := true }
          else (layout.output, [])) = result at flushed
      split
      · exact ⟨flushed.trans (handleWrittenSectors_keeps _ _ _ _).same,
          (handleWrittenSectors_keeps _ _ _ _).bufferSize⟩
      · split
        · exact ⟨flushed, rfl⟩
        · exact ⟨flushed.trans ⟨rfl, rfl, rfl, rfl, rfl, rfl, rfl, rfl⟩,
            rfl⟩

theorem handleReadySector_keeps
    (env : Environment) (sector : Option SectorId) :
    Keeps output pool (output.handleReadySector env pool sector) := by
  cases sector with
  | some id =>
      unfold handleReadySector
      dsimp only
      split
      · exact ⟨⟨rfl, rfl, rfl, rfl, rfl, rfl, rfl, rfl⟩, rfl⟩
      · exact writeFrom_keeps env id
  | none =>
      unfold handleReadySector
      dsimp only
      cases output.pendingSectors with
      | nil => exact ⟨.refl output, rfl⟩
      | cons entry rest =>
          dsimp only
          split
          · exact ⟨.refl output, rfl⟩
          · exact (writeFrom_keeps env _).after
              ⟨rfl, rfl, rfl, rfl, rfl, rfl, rfl, rfl⟩ rfl

theorem afterProgress_keeps (env : Environment) (nextPos : Int) :
    Keeps output pool (output.afterProgress env pool nextPos) := by
  unfold afterProgress
  split
  · exact ⟨⟨rfl, rfl, rfl, rfl, rfl, rfl, rfl, rfl⟩, rfl⟩
  · exact handleReadySector_keeps env none

theorem onDataWritten_keeps (write : DataWrite) (result : Int) :
    Keeps output pool (output.onDataWritten pool write result) := by
  unfold onDataWritten
  dsimp only
  split
  · exact handleWrittenSectors_keeps _ _ _ _
  · exact ⟨(handleWrittenSectors_keeps _ _ _ _).same,
      (handleWrittenSectors_keeps _ _ _ _).bufferSize⟩

theorem onIndexWritten_keeps (write : IndexWrite) (result : Int) :
    Keeps output pool (output.onIndexWritten pool write result) := by
  unfold onIndexWritten
  split
  · exact ⟨.refl output, rfl⟩
  · exact ⟨⟨rfl, rfl, rfl, rfl, rfl, rfl, rfl, rfl⟩, rfl⟩

/-! ## Accepting sectors -/

theorem takeFree_same : SameFile output output.takeFree.1 := by
  unfold takeFree
  cases output.freeSectors.getLast? with
  | none => exact ⟨rfl, rfl, rfl, rfl, rfl, rfl, rfl, rfl⟩
  | some id => exact ⟨rfl, rfl, rfl, rfl, rfl, rfl, rfl, rfl⟩

theorem sectorFor_same (block : Nat) :
    SameFile output (output.sectorFor block).1 := by
  unfold sectorFor
  split
  · cases OrderedMap.find block output.partialSectors with
    | some id => exact .refl output
    | none =>
        exact takeFree_same.trans ⟨rfl, rfl, rfl, rfl, rfl, rfl, rfl, rfl⟩
  · exact takeFree_same

theorem afterProcess_keeps
    (id : SectorId) (block : Nat)
    {processed : Sector × BufferPool × Sector.ProcessOutcome}
    (bufferSize : processed.2.1.bufferSize = pool.bufferSize) :
    Keeps output pool (output.afterProcess id block processed) := by
  unfold afterProcess
  dsimp only
  cases processed.2.2 with
  | waiting | queued | ready | failed reason =>
      exact ⟨⟨rfl, rfl, rfl, rfl, rfl, rfl, rfl, rfl⟩, bufferSize⟩

theorem enqueue_keeps (env : Environment) (pos : Int) (buffer : Buffer) :
    Keeps output pool (output.enqueue env pool pos buffer) := by
  unfold enqueue
  dsimp only
  have same := @sectorFor_same output
    (toUint32 (pos / 2 ^ output.blockShift))
  generalize output.sectorFor (toUint32 (pos / 2 ^ output.blockShift)) =
    found at same
  have processed := (@afterProcess_keeps found.1 pool found.2
    (toUint32 (pos / 2 ^ output.blockShift)) _
    (@Sector.process_bufferSize
      (if found.1.decompressing then (found.1.sectors found.2).disableCompress
      else found.1.sectors found.2) pool env pos buffer)).after same rfl
  split
  · exact ⟨processed.same, processed.bufferSize⟩
  · exact processed

theorem pad_keeps
    (env : Environment) (id : SectorId) (block : Nat) (padPos : Int) :
    Keeps output pool (output.pad env pool id block padPos) := by
  unfold pad
  dsimp only
  split
  · have processed := @afterProcess_keeps output (pool.alloc env.heap).2 id
      block _ (@Sector.process_bufferSize (output.sectors id)
        (pool.alloc env.heap).2 env padPos
        { (pool.alloc env.heap).1 with
          memory := FlatMemory.write (pool.alloc env.heap).1.memory 0
            (List.replicate sectorSize 0) })
    exact ⟨processed.same,
      processed.bufferSize.trans (BufferPool.alloc_bufferSize _ _)⟩
  · exact ⟨.refl output, rfl⟩

theorem sectorReady_keeps
    (env : Environment) (id : SectorId) (block : Nat) :
    Keeps output pool (output.sectorReady env pool id block) := by
  unfold sectorReady
  dsimp only
  refine (handleReadySector_keeps env (some id)).after ?_ rfl
  split
  · exact ⟨rfl, rfl, rfl, rfl, rfl, rfl, rfl, rfl⟩
  · exact .refl output

theorem onCompressed_keeps
    (env : Environment) (job : CompressJob) (status : Int) :
    Keeps output pool (output.onCompressed env pool job status) := by
  unfold onCompressed
  split
  · exact ⟨.refl output, rfl⟩
  · exact ⟨⟨rfl, rfl, rfl, rfl, rfl, rfl, rfl, rfl⟩,
      Sector.compressWork_bufferSize env⟩

end Output

end Maxcso
