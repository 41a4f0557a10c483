import Maxcso.Writer.Contents
import Maxcso.Writer.Front

/-!
# Batches

What `HandleReadySector` does when it is the turn of the first block: it
gathers the blocks that follow, lays them out, and flushes the index when the
last one is among them.
-/

namespace Maxcso

namespace Archive

variable {archive : Archive}

/-- Blocks are counted in 32 bits, and so are the entries of the index. -/
def Few (archive : Archive) : Prop := archive.blocks + 1 < 2 ^ 32

/-- Images for DAX are small. -/
theorem blocks_of_dax (dax : archive.fmt = .dax) :
    archive.blocks ≤ 2 ^ 22 := by
  have small := (WriterConfig.accepted_iff.mp archive.accepted dax).2.1
  have bounds := archive.blockSize_bounds
  have size := archive.srcSize_bounds
  have least : archive.blocks * 2048 ≤
      archive.blocks * archive.blockSize :=
    Nat.mul_le_mul_left _ (by omega)
  have count : archive.blocks * archive.blockSize <
      archive.srcSize + archive.blockSize := size.2
  omega

theorem few_of_dax (dax : archive.fmt = .dax) : archive.Few := by
  have small := blocks_of_dax dax
  unfold Few
  omega

end Archive

namespace Output

section

variable {archive : Archive} {pipeline : BlockPipeline} {output : Output}
variable {id : SectorId}

/-! ## The header and the index -/

theorem encodeTable_congr
    {width count : Nat} {table other : Nat → Nat}
    (same : ∀ entry < count, table entry = other entry) :
    encodeTable width count table = encodeTable width count other := by
  induction count with
  | zero => rfl
  | succ count inductionHypothesis =>
      rw [encodeTable_succ, encodeTable_succ, same count (by omega),
        inductionHypothesis fun entry below => same entry (by omega)]

/-- Every entry has been recorded. -/
def Complete (archive : Archive) (output : Output) : Prop :=
  archive.Few → ∀ block ≤ archive.blocks,
    output.index block = archive.entry block

theorem SameFile.csoHeader
    (same : SameFile archive.base output) :
    output.csoHeader = archive.base.csoHeader := by
  simp only [Output.csoHeader, same.fmt, same.srcSize, same.blockSize,
    same.indexShift]

theorem SameFile.daxHeader
    (same : SameFile archive.base output) :
    output.daxHeader = archive.base.daxHeader := by
  simp only [Output.daxHeader, same.srcSize]

theorem checkFinish_undone
    (undone : output.stateDataWritten = false) :
    output.checkFinish = [] := by
  rw [checkFinish, if_neg (by simp [undone])]

/-- The write that `WriteCSOIndex` issues. -/
def csoIndex (output : Output) : IndexWrite :=
  let entries := (output.totalBlocks + 1) % 2 ^ 32
  { data := output.csoHeader.encode ++ tableBuffer 4 entries output.index
    totalBytes := csoHeaderSize + entries * 4 }

/-- The write that `WriteDAXIndex` issues. -/
def daxIndex (env : Environment) (output : Output) : IndexWrite :=
  let frames := output.totalBlocks
  { data := output.daxHeader.encode ++ tableBuffer 4 frames output.index ++
      tableBuffer 2 frames (output.daxSizes env)
    totalBytes := daxHeaderSize + frames * (4 + 2) }

theorem length_csoHeader (output : Output) :
    output.csoHeader.encode.length = csoHeaderSize := by
  have magic : output.csoHeader.magic.length = 4 := by
    unfold csoHeader
    dsimp only
    split <;> rfl
  have unused : output.csoHeader.unused = [0, 0] := rfl
  simp [CsoHeader.encode, magic, unused]

theorem length_daxHeader (output : Output) :
    output.daxHeader.encode.length = daxHeaderSize := by
  have magic : output.daxHeader.magic.length = 4 := rfl
  have unused : output.daxHeader.unused = [0, 0, 0, 0] := rfl
  simp [DaxHeader.encode, magic, unused]

theorem length_tableBuffer (width count : Nat) (table : Nat → Nat) :
    (tableBuffer width count table).length = uvBufLength (count * width) := by
  rw [tableBuffer, List.length_take, length_encodeTable, Nat.mul_comm width]
  exact Nat.min_eq_left (Nat.mod_le _ _)

/-- The write of the complete header and tables. -/
theorem indexWrite_expected (few : archive.Few) :
    Course.Expected archive archive.indexWrite := by
  have entries : archive.entries = archive.blocks + 1 := by
    unfold Archive.Few at few
    unfold Archive.entries
    omega
  have header := length_csoHeader archive.base
  have daxHeader := length_daxHeader archive.base
  refine ⟨fun _ => rfl, ?_, ?_⟩
  · unfold Archive.indexWrite Archive.indexTotal
    rw [entries]
    cases archive.fmt <;> rfl
  · unfold Archive.indexWrite Archive.indexPassed
    rw [entries]
    cases fmt : archive.fmt with
    | dax =>
        have small := Archive.blocks_of_dax fmt
        simp only [List.length_append, daxHeader, length_tableBuffer]
        unfold uvBufLength
        omega
    | _ => simp only [List.length_append, header, length_tableBuffer]

/-- There is always such a write. -/
theorem exists_expected : ∃ write, Course.Expected archive write := by
  by_cases few : archive.Few
  · exact ⟨_, indexWrite_expected few⟩
  · exact ⟨⟨List.replicate archive.indexPassed 0, archive.indexTotal⟩,
      fun few' => absurd few' few, rfl, List.length_replicate⟩

theorem csoIndex_expected
    (placed : Placed archive pipeline output)
    (complete : Complete archive output) (cso : archive.fmt ≠ .dax) :
    Course.Expected archive output.csoIndex := by
  have counted : (output.totalBlocks + 1) % 2 ^ 32 = archive.entries := by
    rw [placed.totalBlocks, Archive.entries]
  refine ⟨?_, ?_, ?_⟩
  · intro few
    have table : encodeTable 4 (archive.blocks + 1) output.index =
        encodeTable 4 (archive.blocks + 1) archive.entry :=
      encodeTable_congr fun block below =>
        complete few block (Nat.lt_succ_iff.mp below)
    have entries : archive.entries = archive.blocks + 1 := by
      unfold Archive.entries
      omega
    unfold csoIndex Archive.indexWrite tableBuffer
    dsimp only
    rw [counted, entries, placed.same.csoHeader, table]
    cases fmt : archive.fmt with
    | dax => exact absurd fmt cso
    | _ => rfl
  · unfold csoIndex Archive.indexTotal
    dsimp only
    rw [counted]
    cases fmt : archive.fmt with
    | dax => exact absurd fmt cso
    | _ => rfl
  · unfold csoIndex Archive.indexPassed
    dsimp only
    rw [counted, List.length_append, length_csoHeader, length_tableBuffer]
    cases fmt : archive.fmt with
    | dax => exact absurd fmt cso
    | _ => rfl

/-- The sizes that `WriteDAXIndex` looks at. -/
theorem daxFrameLength_eq
    (complete : Complete archive output) (dax : archive.fmt = .dax)
    {frame : Nat} (inside : frame < archive.blocks) :
    output.daxFrameLength frame = archive.indexed.daxFrameLength frame := by
  have few := Archive.few_of_dax dax
  rw [daxFrameLength, complete few frame (by omega),
    complete few (frame + 1) inside]
  rfl

theorem daxIndex_expected
    (placed : Placed archive pipeline output)
    (complete : Complete archive output) (dax : archive.fmt = .dax) :
    Course.Expected archive (output.daxIndex archive.env) := by
  have few := Archive.few_of_dax dax
  have frames : output.totalBlocks = archive.blocks := by
    unfold Archive.Few at few
    rw [placed.totalBlocks]
    exact Nat.mod_eq_of_lt (by omega)
  have table : encodeTable 4 archive.blocks output.index =
      encodeTable 4 archive.blocks archive.entry :=
    encodeTable_congr fun block below =>
      complete few block (Nat.le_of_lt below)
  have sizes : encodeTable 2 archive.blocks (output.daxSizes archive.env) =
      encodeTable 2 archive.blocks
        (archive.indexed.daxSizes archive.env) := by
    apply encodeTable_congr
    intro frame below
    rw [daxSizes, daxFrameLength_eq complete dax below, daxSizes]
  have same : output.daxIndex archive.env = archive.indexWrite := by
    unfold daxIndex Archive.indexWrite tableBuffer
    dsimp only
    rw [frames, placed.same.daxHeader, table, sizes, dax]
  exact same ▸ indexWrite_expected few

theorem writeCsoIndex_eq (undone : output.stateDataWritten = false) :
    output.writeCsoIndex =
      ({ output with
          stateIndexWritten := output.noFile || output.stateIndexWritten
          indexWrites :=
            if output.noFile then output.indexWrites
            else output.indexWrites ++ [output.csoIndex] },
        []) := by
  have none : ({ output with
      stateIndexWritten := true } : Output).checkFinish = [] :=
    checkFinish_undone undone
  unfold writeCsoIndex
  dsimp only
  by_cases noFile : output.noFile = true
  · have written : (output.noFile || output.stateIndexWritten) = true := by
      rw [noFile, Bool.true_or]
    rw [if_pos noFile, if_pos noFile, none, written]
  · have unwritten : (output.noFile || output.stateIndexWritten) =
        output.stateIndexWritten := by
      rw [Bool.eq_false_of_not_eq_true noFile, Bool.false_or]
    rw [if_neg noFile, if_neg noFile, unwritten]
    rfl

theorem writeDaxIndex_eq
    (placed : Placed archive pipeline output)
    (undone : output.stateDataWritten = false)
    (complete : Complete archive output) (dax : archive.fmt = .dax) :
    output.writeDaxIndex archive.env =
      ({ output with
          stateIndexWritten := output.noFile || output.stateIndexWritten
          indexWrites :=
            if output.noFile then output.indexWrites
            else output.indexWrites ++ [output.daxIndex archive.env] },
        archive.oversized) := by
  have few : archive.blocks + 1 < 2 ^ 32 := Archive.few_of_dax dax
  have frames : output.totalBlocks = archive.blocks := by
    rw [placed.totalBlocks]
    exact Nat.mod_eq_of_lt (by omega)
  have oversized : ((List.range output.totalBlocks).filter fun frame =>
      2 ^ 16 ≤ output.daxFrameLength frame) =
        (List.range archive.blocks).filter fun frame =>
          2 ^ 16 ≤ archive.indexed.daxFrameLength frame := by
    rw [frames]
    apply List.filter_congr
    intro frame member
    rw [daxFrameLength_eq complete dax (List.mem_range.mp member)]
  have none : ({ output with
      stateIndexWritten := true } : Output).checkFinish = [] :=
    checkFinish_undone undone
  unfold writeDaxIndex
  dsimp only
  rw [oversized]
  by_cases noFile : output.noFile = true
  · have written : (output.noFile || output.stateIndexWritten) = true := by
      rw [noFile, Bool.true_or]
    rw [if_pos noFile, if_pos noFile, none, written, List.append_nil]
    rfl
  · have unwritten : (output.noFile || output.stateIndexWritten) =
        output.stateIndexWritten := by
      rw [Bool.eq_false_of_not_eq_true noFile, Bool.false_or]
    rw [if_neg noFile, if_neg noFile, unwritten]
    rfl

theorem flush_decompressed (env : Environment)
    (ready : output.stateIndexReady = true)
    (undone : output.stateDataWritten = false)
    (mode : output.decompressing = true) :
    output.flush env = ({ output with stateIndexWritten := true }, []) := by
  have none : ({ output with
      stateIndexWritten := true } : Output).checkFinish = [] :=
    checkFinish_undone undone
  unfold flush
  rw [if_neg (not_not.mpr ready), if_pos mode]
  dsimp only
  rw [none]

theorem flush_compressed (env : Environment)
    (ready : output.stateIndexReady = true)
    (mode : output.decompressing = false) :
    output.flush env =
      if output.fmt = .dax then output.writeDaxIndex env
      else output.writeCsoIndex := by
  unfold flush
  rw [if_neg (not_not.mpr ready), if_neg (by simp [mode])]
  cases output.fmt <;> rfl

/-- What `Flush` reports and writes. -/
theorem flush_spec
    (placed : Placed archive pipeline output)
    (ready : output.stateIndexReady = true)
    (undone : output.stateDataWritten = false)
    (complete : Complete archive output) :
    ∃ write calls, Course.Expected archive write ∧
      calls.map WriterCall.output = archive.report ∧
      output.flush archive.env =
        ({ output with
            stateIndexWritten :=
              archive.immediate || output.stateIndexWritten
            indexWrites :=
              if archive.immediate then output.indexWrites
              else output.indexWrites ++ [write] },
          calls) := by
  have noFile : archive.noFile = output.noFile := by
    rw [placed.same.noFile, Archive.base_eq]
  have fmt : output.fmt = archive.fmt := by
    rw [placed.same.fmt, Archive.base_eq]
  have decompressing := placed.decompressing
  unfold Archive.report Archive.immediate
  cases mode : archive.decompressing with
  | true =>
      rw [mode] at decompressing
      obtain ⟨write, expected⟩ := @exists_expected archive
      refine ⟨write, [], expected, ?_, ?_⟩
      · rw [if_neg (by simp)]
        rfl
      · rw [flush_decompressed _ ready undone decompressing]
        rfl
  | false =>
      rw [mode] at decompressing
      rw [flush_compressed _ ready decompressing, noFile, Bool.false_or]
      by_cases dax : archive.fmt = .dax
      · refine ⟨_, archive.oversized, daxIndex_expected placed complete dax,
          ?_, ?_⟩
        · rw [if_pos ⟨rfl, dax⟩]
        · rw [if_pos (fmt.trans dax)]
          exact writeDaxIndex_eq placed undone complete dax
      · refine ⟨_, [], csoIndex_expected placed complete dax, ?_, ?_⟩
        · rw [if_neg (fun both => dax both.2)]
          rfl
        · rw [if_neg (fun same => dax (fmt.symm.trans same))]
          exact writeCsoIndex_eq undone

/-! ## Released sectors -/

theorem releaseSectors_spec
    (ids : List SectorId) (pool : BufferPool) :
    ∃ sectors pool',
      output.releaseSectors pool ids =
        ({ output with
            sectors := sectors
            freeSectors := output.freeSectors ++ ids }, pool') ∧
      pool'.bufferSize = pool.bufferSize ∧
      (∀ other, other ∉ ids → sectors other = output.sectors other) ∧
      ∀ id ∈ ids,
        Sector.SameSetup archive.template (output.sectors id) →
          Sector.Idle archive.template (sectors id) := by
  induction ids generalizing output pool with
  | nil =>
      refine ⟨output.sectors, pool, ?_, rfl, fun _ _ => rfl, ?_⟩
      · rw [List.append_nil]
        rfl
      · intro id member
        exact nomatch member
  | cons id ids inductionHypothesis =>
      let released := (output.sectors id).release pool
      obtain ⟨sectors, pool', done, size, others, idle⟩ :=
        @inductionHypothesis
          { output with
            sectors := Function.update output.sectors id released.1
            freeSectors := output.freeSectors ++ [id] } released.2
      have kept : ∀ other, other ≠ id →
          Function.update output.sectors id released.1 other =
            output.sectors other :=
        fun other different => Function.update_of_ne different _ _
      have first : released.2.bufferSize = pool.bufferSize :=
        (Sector.idle_release ⟨rfl, rfl, rfl, rfl, rfl⟩ pool).2
      refine ⟨sectors, pool', ?_, size.trans first, ?_, ?_⟩
      · rw [releaseSectors]
        dsimp only
        rw [done, List.append_assoc, List.singleton_append]
      · intro other outside
        rw [others other (List.not_mem_of_not_mem_cons outside)]
        exact kept other (List.ne_of_not_mem_cons outside)
      · intro other member setup
        by_cases same : other = id
        · subst same
          have once : Sector.Idle archive.template
              (Function.update output.sectors other released.1 other) := by
            rw [Function.update_self]
            exact (Sector.idle_release setup pool).1
          by_cases again : other ∈ ids
          · exact idle other again once.setup
          · rw [others other again]
            exact once
        · apply idle other ((List.mem_cons.mp member).resolve_left same)
          dsimp only
          rwa [kept other same]

theorem handleWrittenSectors_eq
    {ids : List SectorId} {pool pool' : BufferPool}
    {sectors : SectorId → Sector} {free : List SectorId}
    (released : output.releaseSectors pool ids =
      ({ output with sectors := sectors, freeSectors := free }, pool'))
    (success : Bool) (nextPos totalWrite : Int) :
    output.handleWrittenSectors pool success ids nextPos totalWrite =
      if success then
        ⟨{ output with
            sectors := sectors
            freeSectors := free
            srcPos := nextPos
            dstPos := output.dstPos + totalWrite },
          pool',
          [.progress nextPos output.srcSize (output.dstPos + totalWrite),
            .afterProgress nextPos]⟩
      else
        ⟨{ output with sectors := sectors, freeSectors := free }, pool',
          []⟩ := by
  unfold handleWrittenSectors
  rw [released]
  cases success <;> rfl

/-- The callback of a data write. -/
theorem onDataWritten_eq
    {write : DataWrite} {pool pool' : BufferPool}
    {sectors : SectorId → Sector} {free : List SectorId}
    (released : output.releaseSectors pool write.sectors =
      ({ output with sectors := sectors, freeSectors := free }, pool'))
    (result : Int) :
    output.onDataWritten pool write result =
      if result = write.totalWrite then
        ⟨{ output with
            sectors := sectors
            freeSectors := free
            srcPos := write.nextPos
            dstPos := output.dstPos + write.totalWrite },
          pool',
          [.progress write.nextPos output.srcSize
              (output.dstPos + write.totalWrite),
            .afterProgress write.nextPos]⟩
      else
        ⟨{ output with sectors := sectors, freeSectors := free }, pool',
          [.finish false "Data could not be written to output file"]⟩ := by
  have handled := handleWrittenSectors_eq released
    (decide (result = write.totalWrite)) write.nextPos write.totalWrite
  unfold onDataWritten
  dsimp only
  rw [handled]
  by_cases enough : result = write.totalWrite
  · rw [if_pos enough, if_pos enough, decide_eq_true enough]
    rfl
  · rw [if_neg enough, if_neg enough, decide_eq_false enough]
    rfl

/-! ## The first block and those that follow it -/

/-- The first block has been taken to be written. -/
structure Due (archive : Archive) (pipeline : BlockPipeline)
    (id : SectorId) (output : Output) : Prop where
  placed : Placed archive (pipeline.mark 1 .lost) output
  head : pipeline.Holds id pipeline.first
  held : Sector.Holds archive.template
    (pipeline.first * archive.blockSize : Nat)
    (archive.stored pipeline.first) (output.sectors id)
  pending : ∀ other block, pipeline.Holds other block →
    pipeline.stage block = .pending →
      Sector.Holds archive.template (block * archive.blockSize : Nat)
        (archive.stored block) (output.sectors other)
  srcPos : output.srcPos = (pipeline.first * archive.blockSize : Nat)
  dstPos : output.dstPos = archive.pos pipeline.first
  last_le : pipeline.last ≤ archive.blocks

/-- The blocks that are written with it have been gathered. -/
structure Gathered (archive : Archive) (pipeline : BlockPipeline)
    (output : Output) (count : Nat) (pending : List (Int × SectorId)) :
    Prop where
  positive : 0 < count
  live : pipeline.first + count ≤ pipeline.last
  stages : ∀ block, pipeline.first < block →
    block < pipeline.first + count → pipeline.stage block = .pending
  placed : Placed archive (pipeline.mark count .lost)
    { output with pendingSectors := pending }
  holds : archive.HoldsFrom output pipeline.first
    (pipeline.owners.take count)

theorem length_take {count : Nat}
    (live : pipeline.first + count ≤ pipeline.last) :
    (pipeline.owners.take count).length = count := by
  rw [Pipeline.last] at live
  rw [List.length_take]
  omega

theorem Due.gather (due : Due archive pipeline id output) :
    ∃ count pending more, Gathered archive pipeline output count pending ∧
      Output.gather output.blockSize (maxBufs - 1)
          (output.srcPos + output.blockSize) output.pendingSectors =
        (more, pending,
          (((pipeline.first + count) * archive.blockSize : Nat) : Int)) ∧
      id :: more = pipeline.owners.take count := by
  have inside := due.head.lt_last
  rw [Pipeline.last] at inside
  obtain ⟨more, pending, gathered, enough, stages, placed⟩ :=
    due.placed.gather (by omega) (maxBufs - 1)
  have next : output.srcPos + output.blockSize =
      (((pipeline.first + 1) * archive.blockSize : Nat) : Int) := by
    have size : output.blockSize = archive.blockSize := due.placed.blockSize
    rw [due.srcPos, size, Nat.add_mul, Nat.one_mul, Int.natCast_add]
  have size : output.blockSize = archive.blockSize := due.placed.blockSize
  have total : pipeline.first + 1 + more = pipeline.first + (1 + more) := by
    omega
  have owners : id :: (pipeline.owners.drop 1).take more =
      pipeline.owners.take (1 + more) := by
    cases held : pipeline.owners with
    | nil =>
        rw [held] at inside
        exact absurd inside (by simp)
    | cons head rest =>
        have first := Pipeline.holds_first.mp due.head
        rw [held] at first
        obtain rfl : head = id := Option.some.inj first
        rw [Nat.add_comm, List.take_succ_cons]
        rfl
  rw [total] at gathered stages
  refine ⟨1 + more, pending, _, ⟨by omega, ?_, ?_, placed, ?_⟩, ?_, owners⟩
  · rw [Pipeline.last]
    omega
  · intro block above below
    exact stages block (by omega) below
  · intro index other found
    obtain ⟨short, same⟩ := List.getElem?_eq_some_iff.mp found
    rw [List.length_take] at short
    rw [List.getElem?_take_of_lt (by omega)] at found
    have holds : pipeline.Holds other (pipeline.first + index) :=
      ⟨Nat.le_add_right _ _, by rwa [Nat.add_sub_cancel_left]⟩
    by_cases head : index = 0
    · subst head
      obtain rfl := due.head.worker_unique holds
      exact due.held
    · exact due.pending other _ holds (stages _ (by omega) (by omega))
  · rw [next, size]
    exact gathered

/-- The entries of the blocks up to a count. -/
def Entries (archive : Archive) (count : Nat) (index : Nat → Nat) : Prop :=
  archive.Few → ∀ block < count, index block = archive.entry block

/-- The batch is refused. -/
theorem Due.writeFrom_refused
    (due : Due archive pipeline id output) (pool : BufferPool) {count : Nat}
    {pending : List (Int × SectorId)} {more : List SectorId}
    (gathered : Gathered archive pipeline output count pending)
    (gather : Output.gather output.blockSize (maxBufs - 1)
      (output.srcPos + output.blockSize) output.pendingSectors =
        (more, pending,
          (((pipeline.first + count) * archive.blockSize : Nat) : Int)))
    (owners : id :: more = pipeline.owners.take count)
    {reason : String}
    (refused : archive.failure pipeline.first count = some reason) :
    ∃ index, output.writeFrom archive.env pool id =
        ⟨{ output with pendingSectors := pending, index := index }, pool,
          [.finish false reason]⟩ ∧
      (Entries archive pipeline.first output.index →
        Entries archive pipeline.first index) := by
  have length := length_take gathered.live
  have inside : pipeline.first + (pipeline.owners.take count).length ≤
      archive.blocks := by
    rw [length]
    exact gathered.live.trans due.last_le
  obtain ⟨index, left, failed, before⟩ :=
    @Archive.layoutSectors_refused archive
      { output with pendingSectors := pending } gathered.placed.same
      (pipeline.owners.take count) pipeline.first inside reason
      (by rwa [length]) gathered.holds
  refine ⟨index, ?_, ?_⟩
  · rw [← owners, ← due.dstPos] at left failed
    unfold writeFrom
    rw [gather]
    dsimp only
    rw [failed, left]
  · intro entries few block below
    unfold Archive.Few at few
    rw [before (by omega) block below]
    exact entries few block below

/-- `Flush` when the last block has been gathered. -/
def flushAt (env : Environment) (output : Output) (nextPos dstPos : Int) :
    Output × List OutputCall :=
  if output.srcSize ≤ nextPos then
    { output with
      index := Function.update output.index output.totalBlocks
        (toUint32 (dstPos / 2 ^ output.indexShift))
      stateIndexReady := true }.flush env
  else
    (output, [])

/-- `HandleReadySector` once a batch has been laid out. -/
theorem writeFrom_eq
    {env : Environment} {pool : BufferPool} {more : List SectorId}
    {pending : List (Int × SectorId)} {nextPos dstPos : Int} {data : Bytes}
    {recorded after : Output} {flushed : List OutputCall}
    (gather : Output.gather output.blockSize (maxBufs - 1)
      (output.srcPos + output.blockSize) output.pendingSectors =
        (more, pending, nextPos))
    (layout : { output with pendingSectors := pending }.layoutSectors
      output.dstPos (id :: more) = ⟨recorded, dstPos, data, none⟩)
    (flush : recorded.flushAt env nextPos dstPos = (after, flushed)) :
    output.writeFrom env pool id =
      if after.noFile then
        let result := after.handleWrittenSectors pool true (id :: more)
          nextPos (dstPos - after.dstPos)
        { result with calls := flushed ++ result.calls }
      else if data = [] then
        ⟨after, pool, flushed⟩
      else
        ⟨{ after with
            dataWrites := after.dataWrites ++
              [{ sectors := id :: more
                 nextPos := nextPos
                 totalWrite := dstPos - after.dstPos
                 offset := after.dstPos
                 data := data }] },
          pool, flushed⟩ := by
  unfold flushAt at flush
  unfold writeFrom
  rw [gather]
  dsimp only
  rw [layout]
  dsimp only
  rw [flush]

/-- What has been flushed when a number of blocks has been gathered. -/
theorem flushAt_spec
    (placed : Placed archive pipeline output)
    (undone : output.stateDataWritten = false)
    (unwritten : output.stateIndexWritten = false)
    (unissued : output.indexWrites = []) {gathered : Nat}
    (inside : gathered ≤ archive.blocks)
    (entries : Entries archive gathered output.index) :
    ∃ write index calls, Course.Expected archive write ∧
      Entries archive gathered index ∧
      calls.map WriterCall.output =
        (if archive.blocks ≤ gathered then archive.report else []) ∧
      output.flushAt archive.env ((gathered * archive.blockSize : Nat) : Int)
          (archive.pos gathered) =
        ({ output with
            index := index
            stateIndexReady :=
              if archive.blocks ≤ gathered then true
              else output.stateIndexReady
            stateIndexWritten :=
              if archive.blocks ≤ gathered then archive.immediate
              else output.stateIndexWritten
            indexWrites :=
              if archive.blocks ≤ gathered then
                if archive.immediate then [] else [write]
              else output.indexWrites },
          calls) := by
  have shift : output.indexShift = archive.indexShift := by
    rw [placed.same.indexShift, Archive.base_eq]
  have size := placed.srcSize
  unfold flushAt
  by_cases all : archive.blocks ≤ gathered
  · obtain rfl : gathered = archive.blocks := by omega
    have ended := Course.srcSize_le_iff.mpr all
    let index := Function.update output.index output.totalBlocks
      (toUint32 (archive.pos archive.blocks / 2 ^ output.indexShift))
    have recorded : archive.Few → output.totalBlocks = archive.blocks := by
      intro few
      unfold Archive.Few at few
      rw [placed.totalBlocks]
      exact Nat.mod_eq_of_lt (by omega)
    have kept : Entries archive archive.blocks index := by
      intro few block below
      have different : block ≠ output.totalBlocks := by
        rw [recorded few]
        exact Nat.ne_of_lt below
      rw [← entries few block below]
      exact Function.update_of_ne different _ _
    have complete : Complete archive
        { output with index := index, stateIndexReady := true } := by
      intro few block within
      by_cases below : block < archive.blocks
      · exact kept few block below
      · obtain rfl : block = archive.blocks := by omega
        have last : index archive.blocks =
            toUint32 (archive.pos archive.blocks / 2 ^ output.indexShift) := by
          have same := congrArg index (recorded few)
          exact same.symm.trans
            (Function.update_self output.totalBlocks _ output.index)
        rw [Archive.entry, if_neg below, ← shift]
        exact last
    obtain ⟨write, calls, expected, reports, flushed⟩ :=
      @flush_spec archive pipeline
        { output with index := index, stateIndexReady := true }
        (placed.carry ⟨rfl, rfl, rfl, rfl, rfl, rfl, rfl, rfl⟩ rfl rfl rfl
          rfl rfl) rfl undone complete
    refine ⟨write, index, calls, expected, kept, ?_, ?_⟩
    · rw [if_pos all]
      exact reports
    · have asks : output.srcSize ≤
          ((archive.blocks * archive.blockSize : Nat) : Int) := by
        rw [size]
        exact ended
      rw [if_pos asks, if_pos all, if_pos all, if_pos all]
      refine flushed.trans ?_
      dsimp only
      rw [unwritten, unissued, Bool.or_false, List.nil_append]
  · obtain ⟨write, expected⟩ := @exists_expected archive
    refine ⟨write, output.index, [], expected, entries, ?_, ?_⟩
    · rw [if_neg all]
      rfl
    · have asks : ¬ output.srcSize ≤
          ((gathered * archive.blockSize : Nat) : Int) := by
        rw [size]
        exact mt Course.srcSize_le_iff.mp all
      rw [if_neg asks, if_neg all, if_neg all, if_neg all]

end

end Output

end Maxcso
