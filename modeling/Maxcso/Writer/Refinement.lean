import Maxcso.Writer.Accepting
import Maxcso.Writer.Batches

/-!
# The writer follows its course

Every step of the writer is a move of its course.
-/

namespace Maxcso

namespace Writer

/-- The course that a writer is on. -/
def course (writer : Writer) (pipeline : BlockPipeline) (filled : Nat) :
    Course where
  pipeline := pipeline
  filled := filled
  srcPos := writer.output.srcPos
  dstPos := writer.output.dstPos
  indexReady := writer.output.stateIndexReady
  indexWritten := writer.output.stateIndexWritten
  dataWritten := writer.output.stateDataWritten
  dataWrites := writer.output.dataWrites
  indexWrites := writer.output.indexWrites
  calls := writer.calls
  paused := writer.paused
  fetching := writer.fetching
  nextPos := writer.nextPos
  file := writer.file
  notes := writer.notes

/-- The containers and the sector objects agree with the pipeline, and the
entries of the blocks that have been laid out are recorded. -/
structure Follows (archive : Archive) (pipeline : BlockPipeline)
    (filled : Nat) (writer : Writer) : Prop where
  placed : Output.Placed archive pipeline writer.output
  contents : Output.Contents archive pipeline filled writer.output
  room : archive.blockSize ≤ writer.pool.bufferSize
  entries : archive.Few → ∀ block,
    block < pipeline.first ∨
      (block < pipeline.last ∧ pipeline.stage block = .writing) →
    writer.output.index block = archive.entry block

section

variable {archive : Archive} {may : Completions}
variable {pipeline : BlockPipeline} {filled : Nat} {writer : Writer}

/-! ## Batches -/

theorem contents_carry {output other : Output}
    (contents : Output.Contents archive pipeline filled output)
    (free : other.freeSectors = output.freeSectors)
    (sectors : other.sectors = output.sectors) :
    Output.Contents archive pipeline filled other := by
  refine ⟨?_, ?_⟩
  · rw [free, sectors]
    exact contents.idle
  · rw [sectors]
    exact contents.described

/-- The blocks outside a batch keep what they hold. -/
theorem contents_mark {count : Nat} {output : Output} {stage : BlockStage}
    (contents : Output.Contents archive pipeline filled output)
    (describes : ∀ id block, pipeline.Holds id block →
      block < pipeline.first + count →
        Output.Described archive filled block stage (output.sectors id)) :
    Output.Contents archive (pipeline.mark count stage) filled output := by
  refine ⟨contents.idle, ?_⟩
  intro id block holds
  rw [Pipeline.holds_mark] at holds
  by_cases inside : block < pipeline.first + count
  · rw [Pipeline.mark_stage_of_lt inside]
    exact describes id block holds inside
  · rw [Pipeline.mark_stage_of_le (Nat.not_lt.mp inside)]
    exact contents.described id block holds

/-- The sectors of a batch hold its blocks. -/
theorem held_of_gathered {output : Output} {count : Nat}
    {pending : List (Int × SectorId)}
    (gathered : Output.Gathered archive pipeline output count pending)
    {id : SectorId} {block : Nat} (holds : pipeline.Holds id block)
    (inside : block < pipeline.first + count) :
    Sector.Holds archive.template (block * archive.blockSize : Nat)
      (archive.stored block) (output.sectors id) := by
  have above := holds.1
  have held := gathered.holds (block - pipeline.first) id (by
    rw [List.getElem?_take_of_lt (by omega)]
    exact holds.2)
  rwa [Nat.add_sub_of_le above] at held

/-- The sectors of a batch that has been written are released. -/
theorem released {output : Output} {count : Nat}
    (placed : Output.Placed archive pipeline output)
    (contents : Output.Contents archive pipeline filled output)
    (writing : ∀ block, pipeline.first ≤ block →
      block < pipeline.first + count →
        pipeline.stage block = .writing)
    (pool : BufferPool) :
    ∃ sectors pool',
      output.releaseSectors pool (pipeline.owners.take count) =
        ({ output with
            sectors := sectors
            freeSectors :=
              output.freeSectors ++ pipeline.owners.take count }, pool') ∧
      pool'.bufferSize = pool.bufferSize ∧
      Output.Placed archive (pipeline.retire count)
        { output with
          sectors := sectors
          freeSectors :=
            output.freeSectors ++ pipeline.owners.take count } ∧
      Output.Contents archive (pipeline.retire count) filled
        { output with
          sectors := sectors
          freeSectors :=
            output.freeSectors ++ pipeline.owners.take count } := by
  obtain ⟨sectors, pool', done, size, others, idle⟩ :=
    @Output.releaseSectors_spec archive output
      (pipeline.owners.take count) pool
  have holder : ∀ id ∈ pipeline.owners.take count, ∃ block,
      pipeline.Holds id block ∧ block < pipeline.first + count := by
    intro id member
    obtain ⟨index, found⟩ := List.mem_iff_getElem?.mp member
    have short := (List.getElem?_eq_some_iff.mp found).1
    rw [List.length_take] at short
    rw [List.getElem?_take_of_lt (by omega)] at found
    refine ⟨pipeline.first + index, ⟨Nat.le_add_right _ _, ?_⟩, by omega⟩
    rwa [Nat.add_sub_cancel_left]
  refine ⟨sectors, pool', done, size, ?_, ?_, ?_⟩
  · have retired := placed.retire fun block above below =>
      Or.inl (writing block above below)
    exact retired.carry ⟨rfl, rfl, rfl, rfl, rfl, rfl, rfl, rfl⟩ rfl rfl
      rfl rfl rfl
  · intro id member
    rcases List.mem_append.mp member with free | taken
    · have outside : id ∉ pipeline.owners.take count := by
        intro taken
        obtain ⟨_, holds, _⟩ := holder id taken
        exact placed.not_free holds free
      dsimp only
      rw [others id outside]
      exact contents.idle id free
    · obtain ⟨block, holds, inside⟩ := holder id taken
      have described := contents.described id block holds
      rw [writing block holds.1 inside] at described
      exact idle id taken described.setup
  · intro id block holds
    obtain ⟨later, held⟩ := Pipeline.holds_retire.mp holds
    have outside : id ∉ pipeline.owners.take count := by
      intro taken
      obtain ⟨other, holds', inside⟩ := holder id taken
      obtain rfl := held.item_unique placed.owners_nodup holds'
      omega
    dsimp only
    rw [others id outside]
    exact contents.described id block held

/-- The stages before the first block do not matter. -/
theorem Follows.restage
    (follows : Follows archive pipeline filled writer)
    {other : BlockPipeline} (first : other.first = pipeline.first)
    (owners : other.owners = pipeline.owners)
    (stages : ∀ block, pipeline.first ≤ block →
      other.stage block = pipeline.stage block) :
    Follows archive other filled writer := by
  have holds : ∀ id block, other.Holds id block →
      pipeline.Holds id block := by
    intro id block held
    rwa [Pipeline.Holds, first, owners] at held
  have last : other.last = pipeline.last := by
    rw [Pipeline.last, Pipeline.last, first, owners]
  refine ⟨follows.placed.restage first owners ?_, ⟨follows.contents.idle, ?_⟩,
    follows.room, ?_⟩
  · intro block above _
    exact Or.inl (stages block above)
  · intro id block held
    rw [stages block (holds id block held).1]
    exact follows.contents.described id block (holds id block held)
  · intro few block laid
    apply follows.entries few
    rw [first, last] at laid
    by_cases before : block < pipeline.first
    · exact Or.inl before
    · rwa [stages block (Nat.not_lt.mp before)] at laid

/-! ## The turn of the first block -/

/-- The first block has been taken, and those that follow it have been
gathered. -/
structure Turning (archive : Archive) (pipeline : BlockPipeline)
    (filled : Nat) (writer : Writer) (rest : List WriterCall)
    (id : SectorId) (output : Output) (count : Nat)
    (left : List (Int × SectorId)) : Prop where
  turn : (writer.course pipeline filled).Turn archive rest
  same : ∃ pending partials, output =
    { writer.output with
      pendingSectors := pending
      partialSectors := partials }
  due : Output.Due archive pipeline id output
  gathered : Output.Gathered archive pipeline output count left
  gather : ∃ more, id :: more = pipeline.owners.take count ∧
    Output.gather output.blockSize (maxBufs - 1)
      (output.srcPos + output.blockSize) output.pendingSectors =
        (more, left,
          (((pipeline.first + count) * archive.blockSize : Nat) : Int))
  batch : (writer.course pipeline filled).Batch archive count
  clear : ∀ block, pipeline.first ≤ block → block < pipeline.last →
    pipeline.stage block ≠ .writing

section

variable {rest : List WriterCall} {id : SectorId} {output : Output}
variable {count : Nat} {left : List (Int × SectorId)}

/-- A batch is refused. -/
theorem Turning.refuse
    (turning : Turning archive pipeline filled writer rest id output count
      left)
    (follows : Follows archive pipeline filled writer) {reason : String}
    (refused : archive.failure pipeline.first count = some reason) :
    ∃ pipeline',
      Course.Move archive may (writer.course pipeline filled)
        ((writer.continueWith
          (output.writeFrom archive.env writer.pool id) rest).course
            pipeline' filled) ∧
      Follows archive pipeline' filled
        (writer.continueWith
          (output.writeFrom archive.env writer.pool id) rest) := by
  obtain ⟨more, owners, gather⟩ := turning.gather
  obtain ⟨index, written, kept⟩ := turning.due.writeFrom_refused writer.pool
    turning.gathered gather owners refused
  have gathered := turning.gathered
  obtain ⟨pending, partials, rfl⟩ := turning.same
  rw [written]
  refine ⟨pipeline.mark count .lost,
    .refuse turning.turn turning.batch refused, ?_, ?_, follows.room, ?_⟩
  · exact gathered.placed.carry ⟨rfl, rfl, rfl, rfl, rfl, rfl, rfl, rfl⟩ rfl
      rfl rfl rfl rfl
  · apply contents_mark
    · exact contents_carry follows.contents rfl rfl
    · intro other block _ _
      trivial
  · intro few block laid
    have before : block < pipeline.first := by
      rcases laid with before | ⟨below, writing⟩
      · exact before
      · by_contra above
        by_cases inside : block < pipeline.first + count
        · rw [Pipeline.mark_stage_of_lt inside] at writing
          exact nomatch writing
        · rw [Pipeline.mark_stage_of_le (Nat.not_lt.mp inside)] at writing
          exact turning.clear block (Nat.not_lt.mp above) below writing
    apply kept _ few block before
    intro few block before
    exact follows.entries few block (Or.inl before)

/-- The output when a batch has been laid out and flushed. -/
def afterLayout (archive : Archive) (gathered : Nat) (output : Output)
    (write : IndexWrite) (left : List (Int × SectorId))
    (index : Nat → Nat) : Output :=
  { output with
    pendingSectors := left
    index := index
    stateIndexReady :=
      if archive.blocks ≤ gathered then true else output.stateIndexReady
    stateIndexWritten :=
      if archive.blocks ≤ gathered then archive.immediate
      else output.stateIndexWritten
    indexWrites :=
      if archive.blocks ≤ gathered then
        if archive.immediate then [] else [write]
      else output.indexWrites }

/-- A batch is accepted. -/
theorem Turning.layout
    (turning : Turning archive pipeline filled writer rest id output count
      left)
    (follows : Follows archive pipeline filled writer)
    (sound : Course.Sound archive (writer.course pipeline filled))
    (accepted : archive.failure pipeline.first count = none) :
    ∃ write index calls, Course.Expected archive write ∧
      Output.Entries archive (pipeline.first + count) index ∧
      calls.map WriterCall.output =
        (if archive.blocks ≤ pipeline.first + count then archive.report
        else []) ∧
      output.writeFrom archive.env writer.pool id =
        if archive.noFile then
          let result := (afterLayout archive (pipeline.first + count) output
            write left index).handleWrittenSectors writer.pool true
              (pipeline.owners.take count)
              ((pipeline.first + count) * archive.blockSize : Nat)
              (archive.pos (pipeline.first + count) -
                archive.pos pipeline.first)
          { result with calls := calls ++ result.calls }
        else if archive.body pipeline.first count = [] then
          ⟨afterLayout archive (pipeline.first + count) output write left
            index, writer.pool, calls⟩
        else
          ⟨{ afterLayout archive (pipeline.first + count) output write left
              index with
              dataWrites := [archive.batchWrite pipeline count] },
            writer.pool, calls⟩ := by
  obtain ⟨more, owners, gather⟩ := turning.gather
  have gathered := turning.gathered
  have due := turning.due
  have length := Output.length_take gathered.live
  have inside : pipeline.first + count ≤ archive.blocks :=
    gathered.live.trans due.last_le
  have layout := @Archive.layoutSectors_eq archive
    { output with pendingSectors := left } gathered.placed.same
    (pipeline.owners.take count) pipeline.first (by rwa [length])
    (by rwa [length]) gathered.holds
  rw [length, ← owners, ← due.dstPos] at layout
  obtain ⟨unwritten, unissued⟩ :=
    sound.indexed.unready (sound.indexed.of_batch turning.turn turning.batch)
  obtain ⟨idle, _⟩ := sound.front.of_batch turning.turn turning.batch
  have undone := (sound.counted.early turning.batch.srcPos (by
    have last := sound.fed.last_le
    have live := turning.batch.live
    have positive := turning.batch.positive
    omega)).2
  obtain ⟨pending, partials, same⟩ := turning.same
  have entries : Output.Entries archive (pipeline.first + count)
      (archive.recordEntries pipeline.first count output.index) := by
    intro few block below
    unfold Archive.Few at few
    rw [Archive.recordEntries_apply (by omega) inside]
    by_cases within : pipeline.first ≤ block ∧ block < pipeline.first + count
    · rw [if_pos within]
    · rw [if_neg within, same]
      exact follows.entries few block (Or.inl (by omega))
  obtain ⟨write, index, calls, expected, kept, reports, flushed⟩ :=
    @Output.flushAt_spec archive _
      { output with
        pendingSectors := left
        index := archive.recordEntries pipeline.first count output.index }
      (gathered.placed.carry ⟨rfl, rfl, rfl, rfl, rfl, rfl, rfl, rfl⟩ rfl
        rfl rfl rfl rfl)
      (by rw [same]; exact undone) (by rw [same]; exact unwritten)
      (by rw [same]; exact unissued) (pipeline.first + count) inside entries
  have noFile : output.noFile = archive.noFile := by
    rw [due.placed.same.noFile, Archive.base_eq]
  have none : output.dataWrites = [] := by
    rw [same]
    exact idle
  refine ⟨write, index, calls, expected, kept, reports, ?_⟩
  have written := @Output.writeFrom_eq output id archive.env writer.pool _ _
    _ _ _ _ _ _ gather layout flushed
  rw [written, ← noFile, ← owners]
  unfold afterLayout Archive.batchWrite
  dsimp only
  rw [due.dstPos, none, owners]
  rfl

/-- The entries that have been recorded with those of a batch. -/
theorem entries_mark
    {stage : BlockStage} {index : Nat → Nat} {block : Nat}
    (clear : ∀ block, pipeline.first ≤ block → block < pipeline.last →
      pipeline.stage block ≠ .writing)
    (kept : Output.Entries archive (pipeline.first + count) index)
    (few : archive.Few)
    (laid : block < pipeline.first ∨ (block < pipeline.last ∧
      (pipeline.mark count stage).stage block = .writing)) :
    index block = archive.entry block := by
  apply kept few block
  by_contra outside
  have after := Nat.not_lt.mp outside
  rcases laid with before | ⟨below, writing⟩
  · omega
  · rw [Pipeline.mark_stage_of_le after] at writing
    exact clear block (by omega) below writing

/-- The data of a batch is written. -/
theorem Turning.issue
    (turning : Turning archive pipeline filled writer rest id output count
      left)
    (follows : Follows archive pipeline filled writer)
    {write : IndexWrite} {index : Nat → Nat} {calls : List OutputCall}
    (expected : Course.Expected archive write)
    (kept : Output.Entries archive (pipeline.first + count) index)
    (reports : calls.map WriterCall.output =
      if archive.blocks ≤ pipeline.first + count then archive.report
      else [])
    (accepted : archive.failure pipeline.first count = none)
    (hasFile : archive.noFile = false)
    (something : archive.body pipeline.first count ≠ []) :
    let result : OutputResult :=
      ⟨{ afterLayout archive (pipeline.first + count) output write left
          index with
          dataWrites := [archive.batchWrite pipeline count] },
        writer.pool, calls⟩
    Course.Move archive may (writer.course pipeline filled)
        ((writer.continueWith result rest).course
          (pipeline.mark count .writing) filled) ∧
      Follows archive (pipeline.mark count .writing) filled
        (writer.continueWith result rest) := by
  intro result
  have gathered := turning.gathered
  have clear := turning.clear
  have held := fun id block =>
    @held_of_gathered archive pipeline output count left gathered id block
  have move := @Course.Move.issue archive may (writer.course pipeline filled)
    rest count write turning.turn turning.batch accepted hasFile something
    expected
  obtain ⟨pending, partials, rfl⟩ := turning.same
  constructor
  · have same : (writer.continueWith result rest).course
        (pipeline.mark count .writing) filled =
          Course.flushAt archive
            { writer.course pipeline filled with
              pipeline := pipeline.mark count .writing
              dataWrites := [archive.batchWrite pipeline count]
              calls := rest }
            write (pipeline.first + count) := by
      rw [Course.flushAt_eq, ← reports]
      rfl
    rw [same]
    exact move
  · refine ⟨?_, ?_, follows.room, ?_⟩
    · exact gathered.placed.mark_writing.carry
        ⟨rfl, rfl, rfl, rfl, rfl, rfl, rfl, rfl⟩ rfl rfl rfl rfl rfl
    · apply contents_mark
      · exact contents_carry follows.contents rfl rfl
      · intro other block holds inside
        exact held other block holds inside
    · intro few block laid
      exact entries_mark clear kept few laid

/-- There is nothing to write for a batch. -/
theorem Turning.stall
    (turning : Turning archive pipeline filled writer rest id output count
      left)
    (follows : Follows archive pipeline filled writer)
    {write : IndexWrite} {index : Nat → Nat} {calls : List OutputCall}
    (expected : Course.Expected archive write)
    (kept : Output.Entries archive (pipeline.first + count) index)
    (reports : calls.map WriterCall.output =
      if archive.blocks ≤ pipeline.first + count then archive.report
      else [])
    (accepted : archive.failure pipeline.first count = none)
    (hasFile : archive.noFile = false)
    (nothing : archive.body pipeline.first count = []) :
    let result : OutputResult :=
      ⟨afterLayout archive (pipeline.first + count) output write left index,
        writer.pool, calls⟩
    Course.Move archive may (writer.course pipeline filled)
        ((writer.continueWith result rest).course
          (pipeline.mark count .lost) filled) ∧
      Follows archive (pipeline.mark count .lost) filled
        (writer.continueWith result rest) := by
  intro result
  have gathered := turning.gathered
  have clear := turning.clear
  have move := @Course.Move.stall archive may (writer.course pipeline filled)
    rest count write turning.turn turning.batch accepted hasFile nothing
    expected
  obtain ⟨pending, partials, rfl⟩ := turning.same
  constructor
  · have same : (writer.continueWith result rest).course
        (pipeline.mark count .lost) filled =
          Course.flushAt archive
            { writer.course pipeline filled with
              pipeline := pipeline.mark count .lost
              calls := rest }
            write (pipeline.first + count) := by
      rw [Course.flushAt_eq, ← reports]
      rfl
    rw [same]
    exact move
  · refine ⟨?_, ?_, follows.room, ?_⟩
    · exact gathered.placed.carry
        ⟨rfl, rfl, rfl, rfl, rfl, rfl, rfl, rfl⟩ rfl rfl rfl rfl rfl
    · apply contents_mark
      · exact contents_carry follows.contents rfl rfl
      · intro other block _ _
        trivial
    · intro few block laid
      exact entries_mark clear kept few laid

/-- A batch is done without a file. -/
theorem Turning.measure
    (turning : Turning archive pipeline filled writer rest id output count
      left)
    (follows : Follows archive pipeline filled writer)
    {write : IndexWrite} {index : Nat → Nat} {calls : List OutputCall}
    (expected : Course.Expected archive write)
    (kept : Output.Entries archive (pipeline.first + count) index)
    (reports : calls.map WriterCall.output =
      if archive.blocks ≤ pipeline.first + count then archive.report
      else [])
    (accepted : archive.failure pipeline.first count = none)
    (noFile : archive.noFile = true) :
    let handled := (afterLayout archive (pipeline.first + count) output write
      left index).handleWrittenSectors writer.pool true
        (pipeline.owners.take count)
        ((pipeline.first + count) * archive.blockSize : Nat)
        (archive.pos (pipeline.first + count) - archive.pos pipeline.first)
    let result : OutputResult :=
      { handled with calls := calls ++ handled.calls }
    Course.Move archive may (writer.course pipeline filled)
        ((writer.continueWith result rest).course
          (pipeline.retire count) filled) ∧
      Follows archive (pipeline.retire count) filled
        (writer.continueWith result rest) := by
  intro handled result
  have gathered := turning.gathered
  have clear := turning.clear
  have dstPos := turning.due.dstPos
  have srcSize := turning.due.placed.srcSize
  have held := fun id block =>
    @held_of_gathered archive pipeline output count left gathered id block
  have move := @Course.Move.measure archive may (writer.course pipeline filled)
    rest count write turning.turn turning.batch accepted noFile expected
  have placed := gathered.placed.mark_writing
  have contents : Output.Contents archive pipeline filled output := by
    obtain ⟨pending, partials, same⟩ := turning.same
    rw [same]
    exact contents_carry follows.contents rfl rfl
  obtain ⟨sectors, pool', released, size, placed', contents'⟩ :=
    @released archive (pipeline.mark count .writing) filled
      (afterLayout archive (pipeline.first + count) output write left index)
      count
      (placed.carry ⟨rfl, rfl, rfl, rfl, rfl, rfl, rfl, rfl⟩ rfl rfl rfl rfl
        rfl)
      (contents_mark (contents_carry contents rfl rfl) held)
      (fun block _ below => Pipeline.mark_stage_of_lt below) writer.pool
  let after : OutputResult :=
    ⟨{ afterLayout archive (pipeline.first + count) output write left
          index with
        sectors := sectors
        freeSectors := output.freeSectors ++ pipeline.owners.take count
        srcPos := ((pipeline.first + count) * archive.blockSize : Nat)
        dstPos := archive.pos (pipeline.first + count) },
      pool',
      calls ++
        [.progress ((pipeline.first + count) * archive.blockSize : Nat)
            archive.srcSize (archive.pos (pipeline.first + count)),
          .afterProgress
            ((pipeline.first + count) * archive.blockSize : Nat)]⟩
  have done : result = after := by
    have total : output.dstPos + (archive.pos (pipeline.first + count) -
        archive.pos pipeline.first) =
          archive.pos (pipeline.first + count) := by
      rw [dstPos]
      omega
    have written := Output.handleWrittenSectors_eq released true
      ((pipeline.first + count) * archive.blockSize : Nat)
      (archive.pos (pipeline.first + count) - archive.pos pipeline.first)
    refine (congrArg (fun handled : OutputResult =>
      { handled with calls := calls ++ handled.calls }) written).trans ?_
    rw [if_pos rfl]
    unfold after afterLayout
    dsimp only
    rw [total, srcSize]
    rfl
  rw [done]
  have enough : count ≤ pipeline.owners.length := by
    have live := gathered.live
    rw [Pipeline.last] at live
    omega
  obtain ⟨pending, partials, same⟩ := turning.same
  constructor
  · have view : (writer.continueWith after rest).course
        (pipeline.retire count) filled =
          ((writer.course pipeline filled).retire archive count
            rest).flushAt archive write (pipeline.first + count) := by
      rw [Course.flushAt_eq, ← reports]
      unfold Writer.course continueWith after afterLayout
      rw [same]
      dsimp only
      rw [List.map_append, List.append_assoc]
      rfl
    rw [view]
    exact move
  · have followed : Follows archive
        ((pipeline.mark count .writing).retire count) filled
        (writer.continueWith after rest) := by
      refine ⟨?_, ?_, ?_, ?_⟩
      · exact placed'.carry ⟨rfl, rfl, rfl, rfl, rfl, rfl, rfl, rfl⟩ rfl rfl
          rfl rfl rfl
      · exact contents_carry contents' rfl rfl
      · exact follows.room.trans (le_of_eq size.symm)
      · intro few block laid
        have first : ((pipeline.mark count .writing).retire count).first =
            pipeline.first + count := rfl
        rw [first] at laid
        apply kept few block
        rcases laid with before | ⟨below, writing⟩
        · exact before
        · by_contra outside
          have later := Nat.not_lt.mp outside
          have stage : (pipeline.mark count .writing).stage block =
              .writing := writing
          rw [Pipeline.mark_stage_of_le later] at stage
          have last : ((pipeline.mark count .writing).retire count).last =
              pipeline.last := Pipeline.retire_last enough
          rw [last] at below
          exact clear block (by omega) below stage
    refine followed.restage rfl rfl ?_
    intro block later
    have stage : (pipeline.mark count .writing).stage block =
        pipeline.stage block := Pipeline.mark_stage_of_le later
    exact stage.symm

/-- The first block is refused or written. -/
theorem Follows.turn
    (follows : Follows archive pipeline filled writer)
    (sound : Course.Sound archive (writer.course pipeline filled))
    (turn : (writer.course pipeline filled).Turn archive rest)
    (due : Output.Due archive pipeline id output)
    (same : ∃ pending partials, output =
      { writer.output with
        pendingSectors := pending
        partialSectors := partials }) :
    ∃ pipeline',
      Course.Move archive may (writer.course pipeline filled)
        ((writer.continueWith
          (output.writeFrom archive.env writer.pool id) rest).course
            pipeline' filled) ∧
      Follows archive pipeline' filled
        (writer.continueWith
          (output.writeFrom archive.env writer.pool id) rest) := by
  obtain ⟨count, left, more, gathered, gather, owners⟩ := due.gather
  have batch : (writer.course pipeline filled).Batch archive count := by
    have srcPos := due.srcPos
    have dstPos := due.dstPos
    obtain ⟨pending, partials, same⟩ := same
    rw [same] at srcPos dstPos
    exact ⟨srcPos, dstPos, gathered.positive, gathered.live,
      gathered.stages⟩
  obtain ⟨_, clear⟩ := sound.front.of_batch turn batch
  have turning : Turning archive pipeline filled writer rest id output count
      left :=
    ⟨turn, same, due, gathered, ⟨more, owners, gather⟩, batch, clear⟩
  cases failed : archive.failure pipeline.first count with
  | some reason => exact turning.refuse follows failed
  | none =>
      obtain ⟨write, index, calls, expected, kept, reports, written⟩ :=
        turning.layout follows sound failed
      rw [written]
      by_cases noFile : archive.noFile = true
      · rw [if_pos noFile]
        exact ⟨_, turning.measure follows expected kept reports failed
          noFile⟩
      · have hasFile := Bool.eq_false_of_not_eq_true noFile
        rw [if_neg noFile]
        by_cases nothing : archive.body pipeline.first count = []
        · rw [if_pos nothing]
          exact ⟨_, turning.stall follows expected kept reports failed
            hasFile nothing⟩
        · rw [if_neg nothing]
          exact ⟨_, turning.issue follows expected kept reports failed
            hasFile nothing⟩

end

/-! ## Steps -/

/-- What a step of a writer comes to. -/
def Advances (archive : Archive) (may : Completions) (course : Course)
    (next : Writer) : Prop :=
  ∃ pipeline filled,
    Course.Move archive may course (next.course pipeline filled) ∧
      Follows archive pipeline filled next

/-- A block enters a stage, and only its sector object may have changed. -/
theorem contents_setStage {output other : Output} {id : SectorId}
    {block : Nat} {stage : BlockStage}
    (placed : Output.Placed archive pipeline output)
    (contents : Output.Contents archive pipeline filled output)
    (holds : pipeline.Holds id block)
    (free : other.freeSectors = output.freeSectors)
    (others : ∀ worker, worker ≠ id →
      other.sectors worker = output.sectors worker)
    (described : Output.Described archive filled block stage
      (other.sectors id)) :
    Output.Contents archive (pipeline.setStage block stage) filled
      other := by
  refine ⟨?_, ?_⟩
  · intro worker idle
    rw [free] at idle
    have different : worker ≠ id := by
      rintro rfl
      exact placed.not_free holds idle
    rw [others worker different]
    exact contents.idle worker idle
  · intro worker block' held
    rw [Pipeline.holds_setStage] at held
    by_cases same : block' = block
    · subst same
      obtain rfl := held.worker_unique holds
      rw [Pipeline.setStage_stage_self]
      exact described
    · have different : worker ≠ id := by
        rintro rfl
        exact same (held.item_unique placed.owners_nodup holds)
      rw [Pipeline.setStage_stage_of_ne same, others worker different]
      exact contents.described worker block' held

/-- A block enters a stage in which it is not written. -/
theorem Follows.entries_setStage
    (follows : Follows archive pipeline filled writer) {block : Nat}
    {stage : BlockStage} (elsewhere : stage ≠ .writing)
    (few : archive.Few) (other : Nat)
    (laid : other < pipeline.first ∨ (other < pipeline.last ∧
      (pipeline.setStage block stage).stage other = .writing)) :
    writer.output.index other = archive.entry other := by
  apply follows.entries few
  rcases laid with before | ⟨below, writing⟩
  · exact Or.inl before
  · refine Or.inr ⟨below, ?_⟩
    by_cases same : other = block
    · rw [same, Pipeline.setStage_stage_self] at writing
      exact absurd writing elsewhere
    · rwa [Pipeline.setStage_stage_of_ne same] at writing

/-- `HandleReadySector` for a sector that is ready. -/
theorem Follows.ready
    (follows : Follows archive pipeline filled writer)
    (sound : Course.Sound archive (writer.course pipeline filled))
    {id : SectorId} {block : Nat} {rest : List WriterCall}
    (calls : writer.calls = Course.readyCall id block :: rest)
    (holds : pipeline.Holds id block)
    (ready : pipeline.stage block = .ready) :
    Advances archive may (writer.course pipeline filled)
      (writer.continueWith
        (writer.output.sectorReady archive.env writer.pool id
          (block % 2 ^ 32)) rest) := by
  have described := follows.contents.described id block holds
  rw [ready] at described
  have placed := follows.placed.finishPartial holds ready
  obtain ⟨partials, same⟩ : ∃ partials,
      writer.output.finishedPartial (block % 2 ^ 32) =
        { writer.output with partialSectors := partials } := by
    unfold Output.finishedPartial
    split
    · exact ⟨_, rfl⟩
    · exact ⟨writer.output.partialSectors, rfl⟩
  have handles : writer.output.sectorReady archive.env writer.pool id
      (block % 2 ^ 32) =
        (writer.output.finishedPartial (block % 2 ^ 32)).handleReadySector
          archive.env writer.pool (some id) := rfl
  rw [handles, same]
  rw [same] at placed
  unfold Output.handleReadySector
  dsimp only
  rw [described.pos]
  by_cases early : writer.output.srcPos ≠ (block * archive.blockSize : Nat)
  · rw [if_pos early]
    have queued := placed.queue holds (Or.inr Pipeline.setStage_stage_self)
    rw [Pipeline.setStage_setStage] at queued
    refine ⟨pipeline.setStage block .pending, filled,
      (.queue calls holds ready early), queued, ?_, follows.room, ?_⟩
    · exact contents_setStage follows.placed follows.contents holds rfl
        (fun _ _ => rfl) described
    · exact follows.entries_setStage (by simp)
  · have turn := not_not.mp early
    obtain ⟨rfl, dstPos⟩ := sound.front.first_of_srcPos holds (Or.inl ready)
      turn
    rw [if_neg early]
    have due : Output.Due archive pipeline id
        { writer.output with partialSectors := partials } := by
      refine ⟨placed.mark_one, holds, described, ?_, turn, dstPos,
        sound.fed.last_le⟩
      intro other block held pending
      have described := follows.contents.described other block held
      rwa [pending] at described
    obtain ⟨pipeline', move, followed⟩ := follows.turn sound
      (.ready calls holds ready) due ⟨_, _, rfl⟩
    exact ⟨pipeline', filled, move, followed⟩

theorem checkFinish_calls (output : Output) :
    output.checkFinish.map WriterCall.output =
      Course.finishCalls
        (output.stateIndexWritten && output.stateDataWritten) := by
  unfold Course.finishCalls Output.checkFinish
  cases output.stateIndexWritten <;> cases output.stateDataWritten <;> rfl

/-- The first of the pending blocks. -/
theorem Follows.pending_head
    (follows : Follows archive pipeline filled writer)
    {pos : Int} {id : SectorId} {left : List (Int × SectorId)}
    (head : writer.output.pendingSectors = (pos, id) :: left) :
    ∃ block, pos = (block * archive.blockSize : Nat) ∧
      pipeline.Holds id block ∧ pipeline.stage block = .pending ∧
      (writer.output.sectors id).pos = pos := by
  have member : (pos, id) ∈ writer.output.pendingSectors := by
    rw [head]
    exact List.mem_cons_self
  obtain ⟨block, same, holds, pending⟩ :=
    (follows.placed.pending _ _).mp member
  have described := follows.contents.described id block holds
  rw [pending] at described
  exact ⟨block, same, holds, pending, described.pos.trans same.symm⟩

/-- A first block that is pending is the first of the pending ones. -/
theorem Follows.waiting_head
    (follows : Follows archive pipeline filled writer)
    (waiting : (writer.course pipeline filled).Waiting archive) :
    ∃ id left, writer.output.pendingSectors =
      (writer.output.srcPos, id) :: left := by
  obtain ⟨live, stage, srcPos⟩ := waiting
  obtain ⟨id, holds⟩ := Pipeline.exists_holds (Nat.le_refl _) live
  have member := follows.placed.pending.of_holds holds stage
  cases entries : writer.output.pendingSectors with
  | nil =>
      rw [entries] at member
      exact nomatch member
  | cons entry left =>
      obtain ⟨pos, head⟩ := entry
      obtain ⟨block, same, holds', _, _⟩ := follows.pending_head entries
      have sorted := follows.placed.sortedPending
      rw [entries] at member sorted
      rcases List.mem_cons.mp member with here | later
      · have turn : writer.output.srcPos = pos :=
          srcPos.trans (Prod.mk.inj here).1
        exact ⟨head, left, by rw [turn]⟩
      · have below := (List.pairwise_cons.mp sorted).1 _ later
        have above : (pipeline.first * archive.blockSize : Nat) ≤
            block * archive.blockSize :=
          Nat.mul_le_mul_right _ holds'.1
        rw [same] at below
        have lt : ((block * archive.blockSize : Nat) : Int) <
          (pipeline.first * archive.blockSize : Nat) := below
        omega

/-- `HandleReadySector` after the owner has been told of progress. -/
theorem Follows.afterProgress
    (follows : Follows archive pipeline filled writer)
    (sound : Course.Sound archive (writer.course pipeline filled))
    {nextPos : Int} {rest : List WriterCall}
    (calls : writer.calls = .output (.afterProgress nextPos) :: rest) :
    Advances archive may (writer.course pipeline filled)
      (writer.continueWith
        (writer.output.afterProgress archive.env writer.pool nextPos)
        rest) := by
  have size := follows.placed.srcSize
  unfold Output.afterProgress
  by_cases all : writer.output.srcSize ≤ nextPos
  · rw [if_pos all]
    refine ⟨pipeline, filled, ?_,
      follows.placed.carry ⟨rfl, rfl, rfl, rfl, rfl, rfl, rfl, rfl⟩ rfl rfl
        rfl rfl rfl,
      contents_carry follows.contents rfl rfl, follows.room,
      follows.entries⟩
    have move := @Course.Move.complete archive may (writer.course pipeline filled)
      nextPos rest calls (by rwa [← size])
    unfold Writer.course continueWith
    dsimp only
    rw [checkFinish_calls, Bool.and_true]
    exact move
  · have more : nextPos < archive.srcSize := by omega
    rw [if_neg all]
    unfold Output.handleReadySector
    have idle : ¬ (writer.course pipeline filled).Waiting archive →
        Advances archive may (writer.course pipeline filled)
          (writer.continueWith ⟨writer.output, writer.pool, []⟩ rest) :=
      fun nothing => ⟨pipeline, filled, (.idle calls more nothing),
        follows.placed, follows.contents, follows.room, follows.entries⟩
    cases first : writer.output.pendingSectors with
    | nil =>
        apply idle
        intro waiting
        obtain ⟨id, left, head⟩ := follows.waiting_head waiting
        rw [first] at head
        exact nomatch head
    | cons entry left =>
        obtain ⟨pos, id⟩ := entry
        obtain ⟨block, same, holds, pending, place⟩ :=
          follows.pending_head first
        dsimp only
        rw [place]
        by_cases early : writer.output.srcPos ≠ pos
        · rw [if_pos early]
          apply idle
          intro waiting
          obtain ⟨_, _, head⟩ := follows.waiting_head waiting
          rw [first] at head
          exact early (Prod.mk.inj (List.cons.inj head).1).1.symm
        · have turn := (not_not.mp early).trans same
          obtain ⟨rfl, dstPos⟩ := sound.front.first_of_srcPos holds
            (Or.inr pending) turn
          rw [if_neg early]
          have placed := follows.placed.take holds pending
          have sorted := follows.placed.sortedPending
          rw [first] at placed sorted
          rw [← same, OrderedMap.erase_head sorted] at placed
          have described := follows.contents.described id _ holds
          rw [pending] at described
          have due : Output.Due archive pipeline id
              { writer.output with pendingSectors := left } := by
            refine ⟨placed.mark_one, holds, described, ?_, turn, dstPos,
              sound.fed.last_le⟩
            intro other block held pending
            have described := follows.contents.described other block held
            rwa [pending] at described
          obtain ⟨pipeline', move, followed⟩ := follows.turn sound
            (.pending calls more holds.lt_last pending) due ⟨_, _, rfl⟩
          exact ⟨pipeline', filled, move, followed⟩

/-- A sector has been put into its block. -/
theorem Follows.put
    (follows : Follows archive pipeline filled writer)
    (sound : Course.Sound archive (writer.course pipeline filled))
    {id : SectorId} {result : OutputResult}
    (put : Output.Put archive (writer.course pipeline filled) id
      writer.output writer.pool result)
    {next : Writer} (output : next.output = result.output)
    (pool : next.pool = result.pool) :
    Follows archive ((writer.course pipeline filled).fill archive id).pipeline
      (filled + sectorSize) next := by
  obtain ⟨free, partials, sectors, jobs, same⟩ := put.output
  refine ⟨?_, ?_, ?_, ?_⟩
  · rw [output]
    exact put.placed
  · rw [output]
    exact put.contents
  · rw [pool, put.pool]
    exact follows.room
  · intro few block laid
    rw [output, same]
    apply follows.entries few
    rcases laid with before | ⟨below, writing⟩
    · have first := @Course.fill_first archive
        (writer.course pipeline filled) id
      exact Or.inl (lt_of_lt_of_eq before first)
    · by_cases newest : block = (writer.course pipeline filled).block archive
      · rw [newest, Course.fill_stage_self] at writing
        exact absurd writing (Course.stageAt_ne_writing _)
      · rw [sound.fed.fill_stage_of_ne id newest] at writing
        have last := sound.fed.fill_last id
        have le := sound.fed.block_le_last
        refine Or.inr ⟨lt_of_lt_of_le (lt_of_le_of_ne ?_ newest) le, writing⟩
        exact Nat.lt_succ_iff.mp (lt_of_lt_of_eq below last)

/-- The course after a sector has been put into its block. -/
theorem course_put
    {id : SectorId} {result : OutputResult}
    (put : Output.Put archive (writer.course pipeline filled) id
      writer.output writer.pool result)
    {next : Writer} {calls : List WriterCall}
    (output : next.output = result.output)
    (nextCalls : next.calls = result.calls.map .output ++ calls)
    (paused : next.paused = writer.paused) (file : next.file = writer.file)
    (notes : next.notes = writer.notes) :
    next.course ((writer.course pipeline filled).fill archive id).pipeline
        (filled + sectorSize) =
      Course.fill archive
        { writer.course pipeline filled with
          fetching := next.fetching
          nextPos := next.nextPos
          calls := calls }
        id := by
  obtain ⟨free, partials, sectors, jobs, same⟩ := put.output
  have pushed : result.calls.map WriterCall.output ++ calls =
      if archive.stageAt (filled + sectorSize) = .ready then
        Course.readyCall id
          ((writer.course pipeline filled).block archive) :: calls
      else calls := by
    have putCalls : result.calls =
        if archive.stageAt (filled + sectorSize) = .ready then
          [.sectorReady id
            ((writer.course pipeline filled).block archive % 2 ^ 32)]
        else [] := put.calls
    rw [putCalls]
    split <;> rfl
  unfold course
  rw [output, same, nextCalls, pushed, paused, file, notes]
  rfl

/-- The padding that is left to `pad`. -/
theorem padCalls_eq (course : Course) (id : SectorId) :
    (if archive.blockSize ≠ sectorSize ∧
        (archive.srcSize : Int) ≤ course.nextPos + sectorSize then
      [OutputCall.pad id (course.block archive % 2 ^ 32) archive.srcSize]
    else []).map WriterCall.output = course.padCalls archive id := by
  unfold Course.padCalls
  by_cases last : archive.blockSize ≠ sectorSize ∧
      archive.srcSize ≤ course.nextPos + sectorSize
  · rw [if_pos last, if_pos ⟨last.1, by exact_mod_cast last.2⟩]
    rfl
  · rw [if_neg last, if_neg fun both =>
      last ⟨both.1, by exact_mod_cast both.2⟩]
    rfl

/-- The source passes on its next sector. -/
theorem Follows.enqueue
    (follows : Follows archive pipeline filled writer)
    (sound : Course.Sound archive (writer.course pipeline filled))
    {buffer : Buffer}
    (content : FlatMemory.read buffer.memory 0 sectorSize =
      FileBytes.pread archive.image writer.nextPos sectorSize)
    (fetching : writer.fetching = true)
    (resumable : resumable writer.calls = true) :
    Advances archive may (writer.course pipeline filled)
      (writer.enqueue archive.env buffer) := by
  obtain ⟨place, fits⟩ := sound.fed.room fetching
  obtain rfl : filled = writer.nextPos := place
  have length := archive.length
  have inside : writer.nextPos + sectorSize ≤ archive.sourceSize := fits
  have short : writer.nextPos < archive.paddedSize := by
    have padded := Course.sourceSize_le_paddedSize archive
    simp only [sectorSize] at inside
    omega
  have padded : FileBytes.pread archive.padded writer.nextPos sectorSize =
      FileBytes.pread archive.image writer.nextPos sectorSize :=
    FileBytes.pread_append_left (by omega)
  have free : writer.output.freeSectors ≠ [] := by
    have crowd := sound.flow.fetching fetching
    have count := follows.placed.count
    intro none
    rw [none] at count
    simp only [List.length_nil, Nat.zero_add] at count
    exact absurd count (Nat.ne_of_lt crowd)
  obtain ⟨id, result, takes, put, enqueued⟩ := Output.enqueue_spec
    archive.env sound.fed.toFilled short follows.placed follows.contents
    (fun _ => free) follows.room (content.trans padded.symm)
  have output := congrArg OutputResult.output enqueued
  have pool := congrArg OutputResult.pool enqueued
  have calls : (writer.enqueue archive.env buffer).calls =
      result.calls.map .output ++
        ((writer.course pipeline writer.nextPos).padCalls archive id ++
          .checkQueue :: writer.calls) := by
    rw [← padCalls_eq, ← List.append_assoc, ← List.map_append]
    exact congrArg (fun result : OutputResult =>
      result.calls.map WriterCall.output ++ .checkQueue :: writer.calls)
        enqueued
  have view := @course_put archive pipeline writer.nextPos writer id result
    put (writer.enqueue archive.env buffer) _ output calls rfl rfl rfl
  refine ⟨_, _, ?_, follows.put sound put output pool⟩
  rw [view]
  exact .arrive fetching resumable takes

/-- One round of the padding. -/
theorem Follows.pad
    (follows : Follows archive pipeline filled writer)
    (sound : Course.Sound archive (writer.course pipeline filled))
    {id : SectorId} {tag : Nat} {pos : Int} {rest : List WriterCall}
    (calls : writer.calls = .output (.pad id tag pos) :: rest) :
    Advances archive may (writer.course pipeline filled)
      (writer.continueWith
        (writer.output.pad archive.env writer.pool id tag pos) rest) := by
  have member : .output (.pad id tag pos) ∈
      (writer.course pipeline filled).calls := by
    have here : .output (.pad id tag pos) ∈ writer.calls := by
      rw [calls]
      exact List.mem_cons_self
    exact here
  obtain ⟨ended, reached⟩ := sound.ordered.pad_call id tag pos member
  by_cases full : (archive.paddedSize : Int) ≤ pos
  · have done : writer.output.pad archive.env writer.pool id tag pos =
        ⟨writer.output, writer.pool, []⟩ := by
      unfold Output.pad
      dsimp only
      rw [follows.placed.paddedSize, if_neg (Int.not_lt.mpr full)]
    rw [done]
    exact ⟨pipeline, filled, (.padEnd calls full), follows.placed,
      follows.contents, follows.room, follows.entries⟩
  · have short : filled < archive.paddedSize := by
      have reached' : (filled : Int) ≤ pos := reached
      omega
    obtain ⟨owner, others, due, holds⟩ := sound.ordered.pad_due ended short
    have size : archive.sourceSize ≤ filled := sound.fed.sourceSize_le ended
    have takes : (writer.course pipeline filled).Takes archive owner := by
      have part : ¬ (writer.course pipeline filled).filled %
          archive.blockSize = 0 := by
        intro whole
        have padded := Course.paddedSize_le_of_whole whole
          (archive.srcSize_le_sourceSize.trans size)
        exact absurd short (Nat.not_lt.mpr padded)
      rw [Course.Takes, if_neg part]
      exact holds
    have same := calls.symm.trans due
    injection same with head tail
    injection head with head
    injection head with sameId sameTag samePos
    subst sameId sameTag samePos tail
    obtain ⟨result, put, padded⟩ := Output.pad_spec archive.env
      sound.fed.toFilled short size follows.placed follows.contents
      follows.room takes
    have output := congrArg OutputResult.output padded
    have pool := congrArg OutputResult.pool padded
    have pushed := congrArg (fun result : OutputResult =>
      result.calls.map WriterCall.output ++ rest) padded
    have nextCalls : (writer.continueWith (writer.output.pad archive.env
        writer.pool id ((writer.course pipeline filled).block archive %
          2 ^ 32) filled) rest).calls =
        result.calls.map .output ++
          (Course.padCall id ((writer.course pipeline filled).block archive)
            ((filled + sectorSize : Nat) : Int) :: rest) := by
      refine pushed.trans ?_
      rw [List.map_append, List.append_assoc]
      rfl
    have view := @course_put archive pipeline filled writer id result put
      (writer.continueWith _ rest) _ output nextCalls rfl rfl rfl
    refine ⟨_, _, ?_, follows.put sound put output pool⟩
    rw [view]
    exact .pad calls short takes

/-- The next call is run. -/
theorem Follows.runCall
    (follows : Follows archive pipeline filled writer)
    (sound : Course.Sound archive (writer.course pipeline filled))
    {call : WriterCall} {rest : List WriterCall}
    (calls : writer.calls = call :: rest) :
    Advances archive may (writer.course pipeline filled)
      (writer.runCall archive.env call rest) := by
  cases call with
  | checkQueue =>
      have full : writer.output.queueFull =
          (pipeline.owners.length == queueSize) := by
        have count := follows.placed.count
        unfold Output.queueFull
        cases free : writer.output.freeSectors with
        | nil =>
            rw [free, List.length_nil, Nat.zero_add] at count
            simp [count]
        | cons head tail =>
            rw [free, List.length_cons] at count
            have fewer : pipeline.owners.length ≠ queueSize := by omega
            simp [fewer]
      have move := @Course.Move.checkQueue archive may
        (writer.course pipeline filled) rest calls
      refine ⟨pipeline, filled, ?_, follows.placed, follows.contents,
        follows.room, follows.entries⟩
      have view : (writer.runCall archive.env .checkQueue rest).course
          pipeline filled =
            { writer.course pipeline filled with
              calls := rest
              paused := writer.paused ||
                pipeline.owners.length == queueSize } := by
        rw [← full]
        rfl
      rw [view]
      exact move
  | output call =>
      cases call with
      | pad id tag pos => exact follows.pad sound calls
      | sectorReady id tag =>
          have member : .output (.sectorReady id tag) ∈ writer.calls := by
            rw [calls]
            exact List.mem_cons_self
          obtain ⟨block, rfl, holds, ready⟩ :=
            sound.ordered.ready_call id tag member
          exact follows.ready sound calls holds ready
      | afterProgress nextPos => exact follows.afterProgress sound calls
      | progress pos total written =>
          exact ⟨pipeline, filled, (.progress calls), follows.placed,
            follows.contents, follows.room, follows.entries⟩
      | finish success reason =>
          exact ⟨pipeline, filled, (.finish calls), follows.placed,
            follows.contents, follows.room, follows.entries⟩

/-- A compression is over. -/
theorem Follows.compressed
    (follows : Follows archive pipeline filled writer)
    (sound : Course.Sound archive (writer.course pipeline filled))
    (quiet : writer.calls = []) {position : Nat} {status : Int}
    (given : may.compressed status) {job : CompressJob}
    (found : writer.output.jobs[position]? = some job) :
    Advances archive may (writer.course pipeline filled)
      (writer.continueWith
        ({ writer.output with
            jobs := writer.output.jobs.eraseIdx position }.onCompressed
          archive.env writer.pool job status) []) := by
  obtain ⟨block, tag, holds, compressing, placed⟩ :=
    follows.placed.takeJob found
  have described := follows.contents.described job.sector block holds
  rw [compressing] at described
  unfold Output.onCompressed
  by_cases failed : status < 0
  · rw [if_pos failed]
    refine ⟨pipeline.setStage block .failed, filled,
      (.compressFailed quiet holds compressing failed given),
      placed .failed (Or.inr rfl), ?_, follows.room,
      follows.entries_setStage (by simp)⟩
    exact contents_setStage follows.placed follows.contents holds rfl
      (fun _ _ => rfl) trivial
  · have inside : block < archive.blocks :=
      lt_of_lt_of_le holds.lt_last sound.fed.last_le
    obtain ⟨held, size⟩ := Sector.compressWork_holds archive.env writer.pool
      described.2 (Archive.length_content inside)
    rw [if_neg failed]
    dsimp only
    have move := @Course.Move.compressed archive may
      (writer.course pipeline filled) job.sector block quiet holds compressing
    unfold Course.readyCall at move
    rw [← tag] at move
    refine ⟨pipeline.setStage block .ready, filled, move,
      (placed .ready (Or.inl rfl)).carry
        ⟨rfl, rfl, rfl, rfl, rfl, rfl, rfl, rfl⟩ rfl rfl rfl rfl rfl,
      ?_, follows.room.trans (le_of_eq size.symm),
      follows.entries_setStage (by simp)⟩
    refine contents_setStage follows.placed follows.contents holds rfl ?_ ?_
    · intro worker different
      exact Function.update_of_ne different _ _
    · have stored : archive.stored block = archive.template.result archive.env
          (block * archive.blockSize : Nat) (archive.content block) := by
        rw [Archive.stored, if_neg (by simp [described.1])]
      have stores : Output.Described archive filled block .ready
          (Function.update writer.output.sectors job.sector
            ((writer.output.sectors job.sector).compressWork archive.env
              writer.pool).1 job.sector) := by
        rw [Function.update_self]
        rw [← stored] at held
        exact held
      exact stores

/-- The blocks of the write in flight are released. -/
theorem Follows.retire
    (follows : Follows archive pipeline filled writer) {count : Nat}
    (live : pipeline.first + count ≤ pipeline.last)
    (writing : ∀ block, pipeline.first ≤ block →
      block < pipeline.first + count → pipeline.stage block = .writing) :
    ∃ sectors pool',
      { writer.output with dataWrites := [] }.releaseSectors writer.pool
          (pipeline.owners.take count) =
        ({ writer.output with
            dataWrites := []
            sectors := sectors
            freeSectors :=
              writer.output.freeSectors ++ pipeline.owners.take count },
          pool') ∧
      ∀ (next : Writer) (srcPos dstPos : Int), next.output =
        { writer.output with
          dataWrites := []
          sectors := sectors
          freeSectors :=
            writer.output.freeSectors ++ pipeline.owners.take count
          srcPos := srcPos
          dstPos := dstPos } →
        next.pool = pool' →
          Follows archive (pipeline.retire count) filled next := by
  obtain ⟨sectors, pool', released, size, placed, contents⟩ :=
    @released archive pipeline filled
      { writer.output with dataWrites := [] } count
      (follows.placed.carry ⟨rfl, rfl, rfl, rfl, rfl, rfl, rfl, rfl⟩ rfl rfl
        rfl rfl rfl)
      (contents_carry follows.contents rfl rfl) writing writer.pool
  have enough : count ≤ pipeline.owners.length := by
    rw [Pipeline.last] at live
    omega
  refine ⟨sectors, pool', released, ?_⟩
  intro next srcPos dstPos output pool
  refine ⟨?_, ?_, ?_, ?_⟩
  · rw [output]
    exact placed.carry ⟨rfl, rfl, rfl, rfl, rfl, rfl, rfl, rfl⟩ rfl rfl rfl
      rfl rfl
  · rw [output]
    exact contents_carry contents rfl rfl
  · rw [pool, size]
    exact follows.room
  · intro few block laid
    rw [output]
    apply follows.entries few
    rw [Pipeline.retire_last enough] at laid
    rcases laid with before | ⟨below, stage⟩
    · by_cases earlier : block < pipeline.first
      · exact Or.inl earlier
      · have inside : block < pipeline.first + count := before
        exact Or.inr ⟨by omega,
          writing block (Nat.not_lt.mp earlier) inside⟩
    · exact Or.inr ⟨below, stage⟩

/-- Data has been written. -/
theorem Follows.dataWritten
    (follows : Follows archive pipeline filled writer)
    (sound : Course.Sound archive (writer.course pipeline filled))
    (quiet : writer.calls = []) {position : Nat} {result : Int}
    {write : DataWrite}
    (found : writer.output.dataWrites[position]? = some write)
    (given : may.dataWritten write result) :
    Advances archive may (writer.course pipeline filled)
      { writer.continueWith
          ({ writer.output with
              dataWrites :=
                writer.output.dataWrites.eraseIdx position }.onDataWritten
            writer.pool write result) [] with
        file := FileBytes.pwrite 0 writer.file write.offset.toNat
          (writtenPart write.data result)
        notes := writer.notes ++
          [.wroteData write.offset (writtenPart write.data result)] } := by
  have nothing : writer.output.dataWrites ≠ [] := by
    intro none
    rw [none] at found
    exact nomatch found
  cases sound.front with
  | between _ _ writes => exact absurd writes nothing
  | halted _ _ _ _ writes => exact absurd writes nothing
  | writing count srcPos dstPos positive live writes stages ready =>
      have single : writer.output.dataWrites =
          [archive.batchWrite pipeline count] := writes
      obtain ⟨rfl, rfl⟩ : position = 0 ∧
          archive.batchWrite pipeline count = write := by
        rw [single] at found
        cases position with
        | zero => exact ⟨rfl, Option.some.inj found⟩
        | succ position => exact nomatch found
      have writing : ∀ block, pipeline.first ≤ block →
          block < pipeline.first + count →
            pipeline.stage block = .writing :=
        fun block above below => (stages block above
          (lt_of_lt_of_le below live)).mpr below
      obtain ⟨sectors, pool', released, followed⟩ :=
        follows.retire live writing
      have erased : writer.output.dataWrites.eraseIdx 0 = [] := by
        rw [single]
        rfl
      have handled := @Output.onDataWritten_eq
        { writer.output with dataWrites := [] }
        (archive.batchWrite pipeline count) _ _ _ _ released result
      rw [erased, handled]
      by_cases enough : result =
          (archive.batchWrite pipeline count).totalWrite
      · rw [if_pos enough]
        have move := @Course.Move.dataWritten archive may
          (writer.course pipeline filled) count result quiet writes positive
          live writing enough given
        have total : writer.output.dstPos +
            (archive.batchWrite pipeline count).totalWrite =
              archive.pos (pipeline.first + count) := by
          have start : writer.output.dstPos = archive.pos pipeline.first :=
            dstPos
          have width : (archive.batchWrite pipeline count).totalWrite =
            archive.pos (pipeline.first + count) -
              archive.pos pipeline.first := rfl
          omega
        refine ⟨pipeline.retire count, filled, ?_,
          followed _ _ _ rfl rfl⟩
        unfold Writer.course continueWith
        dsimp only
        rw [total, follows.placed.srcSize]
        exact move
      · rw [if_neg enough]
        refine ⟨pipeline.retire count, filled, ?_,
          followed _ writer.output.srcPos writer.output.dstPos rfl rfl⟩
        exact @Course.Move.dataFailed archive may
          (writer.course pipeline filled) count result quiet writes positive
          live writing enough given

/-- The header and the index have been written. -/
theorem Follows.indexWritten
    (follows : Follows archive pipeline filled writer)
    (sound : Course.Sound archive (writer.course pipeline filled))
    (quiet : writer.calls = []) {position : Nat} {result : Int}
    {write : IndexWrite}
    (found : writer.output.indexWrites[position]? = some write)
    (given : may.indexWritten write result) :
    Advances archive may (writer.course pipeline filled)
      { writer.continueWith
          ({ writer.output with
              indexWrites :=
                writer.output.indexWrites.eraseIdx position }.onIndexWritten
            writer.pool write result) [] with
        file := FileBytes.pwrite 0 writer.file 0
          (writtenPart write.data result)
        notes := writer.notes ++
          [.wroteIndex (writtenPart write.data result)] } := by
  have nothing : writer.output.indexWrites ≠ [] := by
    intro none
    rw [none] at found
    exact nomatch found
  obtain ⟨single, writes, _⟩ :=
    sound.indexed.single.resolve_left nothing
  have single : writer.output.indexWrites = [write] := by
    have writes : writer.output.indexWrites = [single] := writes
    rw [writes] at found ⊢
    cases position with
    | zero => rw [Option.some.inj found]
    | succ position => exact nomatch found
  have erased : writer.output.indexWrites.eraseIdx position = [] := by
    rw [single] at found ⊢
    cases position with
    | zero => rfl
    | succ position => exact nomatch found
  rw [erased]
  unfold Output.onIndexWritten
  by_cases short : result ≠ write.totalBytes
  · rw [if_pos short]
    exact ⟨pipeline, filled, (.indexFailed quiet single short given),
      follows.placed.carry ⟨rfl, rfl, rfl, rfl, rfl, rfl, rfl, rfl⟩ rfl rfl
        rfl rfl rfl,
      contents_carry follows.contents rfl rfl, follows.room,
      follows.entries⟩
  · rw [if_neg short]
    refine ⟨pipeline, filled, ?_,
      follows.placed.carry ⟨rfl, rfl, rfl, rfl, rfl, rfl, rfl, rfl⟩ rfl rfl
        rfl rfl rfl,
      contents_carry follows.contents rfl rfl, follows.room,
      follows.entries⟩
    have move := @Course.Move.indexWritten archive may
      (writer.course pipeline filled) write result quiet single
      (not_not.mp short) given
    unfold Writer.course continueWith
    dsimp only
    rw [checkFinish_calls, Bool.true_and, List.append_nil]
    exact move

/-- Every step of the writer but those of other holders of the pool is a move
of its course. -/
theorem Follows.step
    (follows : Follows archive pipeline filled writer)
    (sound : Course.Sound archive (writer.course pipeline filled))
    {event : WriterEvent}
    (allowed : Allowed archive.toWriterConfig archive.image may writer event)
    {next : Writer} (step : writer.step archive.env event = some next)
    (other : ∀ pool, event ≠ .otherPool pool) :
    Advances archive may (writer.course pipeline filled) next := by
  cases event with
  | fetch =>
      unfold Writer.step at step
      dsimp only at step
      split at step
      · rename_i able
        obtain ⟨idle, running, resumable, more⟩ := able
        obtain rfl := Option.some.inj step
        rw [follows.placed.srcSize] at more
        have before : writer.nextPos < archive.sourceSize :=
          lt_of_lt_of_le (by exact_mod_cast more)
            archive.srcSize_le_sourceSize
        exact ⟨pipeline, filled,
          (.fetch idle running resumable before), follows.placed,
          follows.contents, follows.room, follows.entries⟩
      · exact nomatch step
  | enqueue buffer =>
      unfold Writer.step at step
      dsimp only at step
      split at step
      · rename_i able
        obtain rfl := Option.some.inj step
        exact follows.enqueue sound allowed able.1 able.2
      · exact nomatch step
  | run =>
      unfold Writer.step at step
      dsimp only at step
      split at step
      · exact nomatch step
      · rename_i call rest calls
        obtain rfl := Option.some.inj step
        exact follows.runCall sound calls
  | compressed position status =>
      unfold Writer.step at step
      dsimp only at step
      split at step
      · rename_i job quiet found
        obtain rfl := Option.some.inj step
        exact follows.compressed sound quiet allowed found
      · exact nomatch step
  | dataWritten position result =>
      unfold Writer.step at step
      dsimp only at step
      split at step
      · rename_i write quiet found
        obtain rfl := Option.some.inj step
        exact follows.dataWritten sound quiet found (allowed write found)
      · exact nomatch step
  | indexWritten position result =>
      unfold Writer.step at step
      dsimp only at step
      split at step
      · rename_i write quiet found
        obtain rfl := Option.some.inj step
        exact follows.indexWritten sound quiet found (allowed write found)
      · exact nomatch step
  | otherPool pool => exact absurd rfl (other pool)

/-- What other holders do to the pool changes nothing. -/
theorem Follows.otherPool
    (follows : Follows archive pipeline filled writer) {pool : BufferPool}
    (room : archive.blockSize ≤ pool.bufferSize) :
    Follows archive pipeline filled { writer with pool := pool } :=
  ⟨follows.placed, follows.contents, room, follows.entries⟩

end

end Writer

end Maxcso
