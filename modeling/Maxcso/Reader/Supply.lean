import Maxcso.Reader.Progress
import Maxcso.Reader.Tables

/-!
# Where the delivered bytes come from

Buffers of the pool are recycled with their content.  As long as every block
supplies whole sectors, nothing of that content is delivered: each sector is
covered by the block it is taken from, and two runs that differ only in what
the buffers of the pool held deliver the same.
-/

namespace Maxcso

open Transition

namespace BufferPool

/-- Pools that differ only in the buffers they hold. -/
structure Alike (pool pool' : BufferPool) : Prop where
  bufferSize : pool.bufferSize = pool'.bufferSize
  allocations : pool.allocations = pool'.allocations
  free : pool.free.length = pool'.free.length

theorem Alike.alloc
    {pool pool' : BufferPool} (alike : Alike pool pool')
    (heap heap' : Nat → Nat → UInt8) :
    Alike (pool.alloc heap).2 (pool'.alloc heap').2 := by
  have lengths := alike.free
  unfold BufferPool.alloc
  cases first : pool.free.getLast? with
  | none =>
      have empty := List.getLast?_eq_none_iff.mp first
      have empty' : pool'.free = [] := by
        rw [empty] at lengths
        exact List.eq_nil_of_length_eq_zero lengths.symm
      rw [empty']
      exact ⟨alike.bufferSize, congrArg (· + 1) alike.allocations,
        by rw [empty]; rfl⟩
  | some buffer =>
      cases second : pool'.free.getLast? with
      | none =>
          have empty' := List.getLast?_eq_none_iff.mp second
          rw [empty'] at lengths
          have empty := List.eq_nil_of_length_eq_zero lengths
          simp [empty] at first
      | some buffer' =>
          refine ⟨alike.bufferSize, alike.allocations, ?_⟩
          simp [lengths]

theorem Alike.release
    {pool pool' : BufferPool} (alike : Alike pool pool')
    (buffer buffer' : Buffer) :
    Alike (pool.release buffer) (pool'.release buffer') := by
  refine ⟨alike.bufferSize, alike.allocations, ?_⟩
  simp [BufferPool.release, alike.free]

theorem Alike.setBufferSize
    {pool pool' : BufferPool} (alike : Alike pool pool') (newSize : Nat) :
    Alike (pool.setBufferSize newSize).1 (pool'.setBufferSize newSize).1 ∧
      (pool.setBufferSize newSize).2 = (pool'.setBufferSize newSize).2 := by
  have cleared : pool.clear.allocations = pool'.clear.allocations := by
    simp [clear, alike.free, alike.allocations]
  unfold BufferPool.setBufferSize
  dsimp only
  rw [← cleared]
  split
  · exact ⟨⟨rfl, rfl, rfl⟩, rfl⟩
  · exact ⟨⟨alike.bufferSize, cleared, rfl⟩, rfl⟩

end BufferPool

/-! ## Every sector is covered -/

namespace SubBlock

/-- The block in the delivery loop consists of whole sectors of what the
codec supplied. -/
structure Whole (block : SubBlock) : Prop where
  sectors : block.resultSize ≤ block.suboffset ∨
    sectorSize ∣ block.resultSize
  supplied : block.resultSize ≤ block.supplied

end SubBlock

/-- What a phase holds of the sectors it will deliver. -/
def Phase.Covered : Phase → Prop
  | .rawCallback _ _ supplied => sectorSize ≤ supplied
  | .looping block | .subDelivered block => block.Whole
  | .subCallback _ _ supplied block => sectorSize ≤ supplied ∧ block.Whole
  | _ => True

namespace Reader

/-- The block used by a step covers whole sectors: a raw block has one, and a
decompressed one ends at the end of a sector unless it ends before the wanted
sector. -/
def Covers (env : Environment) (reader : Reader) : ReaderEvent → Prop
  | .run =>
      ∀ rest data, reader.calls = .readSector :: rest →
        reader.input.pos < reader.input.size →
        reader.input.paused = false →
        Input.fetchCached reader.input reader.input.request = .use data →
        reader.input.request.raw = true →
          sectorSize ≤ reader.input.request.len
  | .complete position =>
      (∀ request size data,
        reader.input.inFlight[position]? = some (.readBlock request size) →
        env.fsRead reader.input.reads request.pos size = some data →
        request.len ≤ data.length →
        request.raw = true →
          sectorSize ≤ request.len) ∧
        ∀ actualBuf source offset isLz4 data,
          reader.input.inFlight[position]? =
            some (.decompress actualBuf source offset isLz4) →
          reader.input.decompressWork env reader.pool source isLz4 =
            .ok data →
          reader.input.rejection env data = none →
            data.length ≤ offset ∨
              sectorSize ∣ reader.input.trimmedSize offset data.length
  | _ => True

theorem length_of_use
    {core : Reader} {data : Bytes}
    (decided : core.decision Input.fetchCached = .use data) :
    data.length = core.input.request.len := by
  simp only [decision, Input.fetchCached] at decided
  split at decided
  · obtain rfl := Input.FetchDecision.use.inj decided
    exact FlatMemory.length_read _ _ _
  · cases decided

theorem trimmedSize_le
    {input : Input} {offset : Nat} (inside : input.pos < input.size)
    (supplied : Nat) :
    input.trimmedSize offset supplied ≤ supplied := by
  unfold Input.trimmedSize
  dsimp only
  split
  · have trimmed := @toUint32_le (input.size - (input.pos - offset))
      (by omega)
    omega
  · exact Nat.le_refl _

theorem covered_usePhase
    (env : Environment) (core : Reader) {request : Request} {data : Bytes}
    (covers : request.raw = true → sectorSize ≤ data.length) :
    (core.usePhase env request data).Covered := by
  cases raw : request.raw with
  | true =>
      rw [usePhase_raw env core raw]
      exact covers raw
  | false =>
      rw [usePhase_compressed env core raw]
      trivial

/-- What is covered stays covered. -/
theorem covered_move
    {env : Environment} {core core' : Reader} {phase phase' : Phase}
    {event : ReaderEvent} (covered : phase.Covered)
    (track : OnTrack core phase)
    (covers : (core.enter phase).Covers env event)
    (move : Move Input.fetchCached env core phase event core' phase') :
    phase'.Covered := by
  cases move with
  | pause | resume | otherPool => exact covered
  | detect request detects =>
      have frame := detected_frame env detects track.aligned
      rcases frame.phase with ⟨reason, finishing⟩ | ⟨detecting, _, _⟩
      · rw [finishing]
        trivial
      · generalize (core.detected env request).phase = phase' at *
        cases phase' <;> trivial
  | use data more running decided =>
      apply covered_usePhase
      intro raw
      rw [length_of_use decided]
      exact covers [] data rfl more running decided raw
  | blockRead request size data received enough =>
      apply covered_usePhase
      intro raw
      rw [List.length_take_of_le enough]
      exact covers.1 request size data rfl received enough raw
  | decompressed actualBuf source offset isLz4 data worked accepted =>
      refine ⟨?_, trimmedSize_le (track.inside rfl) _⟩
      rcases covers.2 actualBuf source offset isLz4 data rfl worked
        accepted with short | whole
      · left
        exact (trimmedSize_le (track.inside rfl) _).trans short
      · exact Or.inr whole
  | subBlock block more =>
      have aligned := track.block.1
      have whole := covered.sectors.resolve_left (Nat.not_le.mpr more)
      have supplied := covered.supplied
      refine ⟨?_, covered⟩
      simp only [sectorSize] at *
      omega
  | subCallback => exact covered.2
  | nextSub block =>
      refine ⟨covered.sectors.imp_left ?_, covered.supplied⟩
      intro short
      exact Nat.le_add_right_of_le short
  | _ => trivial

end Reader

/-! ## Two runs in lockstep -/

/-- Buffers that agree on their first bytes. -/
def Buffer.Agree (count : Nat) (buffer buffer' : Buffer) : Prop :=
  ∀ index, index < count → buffer.memory index = buffer'.memory index

theorem Buffer.agree_write
    (buffer buffer' : Buffer) (data : Bytes) :
    Buffer.Agree data.length
      { buffer with memory := FlatMemory.write buffer.memory 0 data }
      { buffer' with memory := FlatMemory.write buffer'.memory 0 data } := by
  intro index inside
  have written (memory : Nat → UInt8) :
      FlatMemory.write memory 0 data index = data[index] := by
    simpa only [Nat.zero_add] using
      @FlatMemory.write_apply_of_mem _ memory 0 index data inside
  exact (written _).trans (written _).symm

/-- Blocks that agree on everything the codec supplied. -/
structure SubBlock.Agree (block block' : SubBlock) : Prop where
  suboffset : block.suboffset = block'.suboffset
  resultSize : block.resultSize = block'.resultSize
  supplied : block.supplied = block'.supplied
  actualBuf : Buffer.Agree block.supplied block.actualBuf block'.actualBuf

/-- Phases that agree on everything but the rest of their buffers. -/
inductive Phase.Agree : Phase → Phase → Prop
  | header (buffer buffer' : Buffer) :
      Agree (waiting (.readHeader buffer)) (waiting (.readHeader buffer'))
  | index (bytes : Nat) :
      Agree (waiting (.readIndex bytes)) (waiting (.readIndex bytes))
  | tables (frames : Nat) (areas : Option Nat) (bytes : Nat) :
      Agree (waiting (.readTables frames areas bytes))
        (waiting (.readTables frames areas bytes))
  | stat : Agree (waiting .stat) (waiting .stat)
  | readBlock (request : Request) (size : Nat) :
      Agree (waiting (.readBlock request size))
        (waiting (.readBlock request size))
  | decompress (buffer buffer' : Buffer) (source : Bytes) (offset : Nat)
      (isLz4 : Bool) :
      Agree (waiting (.decompress buffer source offset isLz4))
        (waiting (.decompress buffer' source offset isLz4))
  | parked : Agree parked parked
  | stopped : Agree stopped stopped
  | reading : Agree reading reading
  | rawCallback (pos : Int) {sector sector' : Buffer} (supplied : Nat) :
      Buffer.Agree supplied sector sector' →
      Agree (rawCallback pos sector supplied)
        (rawCallback pos sector' supplied)
  | rawDelivered : Agree rawDelivered rawDelivered
  | looping {block block' : SubBlock} :
      block.Agree block' → Agree (looping block) (looping block')
  | subCallback (pos : Int) {sector sector' : Buffer} (supplied : Nat)
      {block block' : SubBlock} :
      Buffer.Agree sectorSize sector sector' → block.Agree block' →
      Agree (subCallback pos sector supplied block)
        (subCallback pos sector' supplied block')
  | subDelivered {block block' : SubBlock} :
      block.Agree block' → Agree (subDelivered block) (subDelivered block')
  | beginning (size : Int) : Agree (beginning size) (beginning size)
  | finishing (success : Bool) (reason : String) :
      Agree (finishing success reason) (finishing success reason)

/-- Events that differ only in the buffers of the pool. -/
inductive ReaderEvent.Similar : ReaderEvent → ReaderEvent → Prop
  | run : Similar run run
  | complete (position : Nat) : Similar (complete position) (complete position)
  | pause : Similar pause pause
  | resume : Similar resume resume
  | otherPool {pool pool' : BufferPool} :
      pool.Alike pool' → Similar (otherPool pool) (otherPool pool')

/-- Results that agree on everything but the content of the pool. -/
structure InputResult.Agree (result result' : InputResult) : Prop where
  input : result.input = result'.input
  calls : result.calls = result'.calls
  pool : result.pool.Alike result'.pool

theorem InputResult.Agree.phase
    {result result' : InputResult} (agree : result.Agree result') :
    result.phase = result'.phase := by
  unfold InputResult.phase
  rw [agree.calls, agree.input]

namespace Input

theorem growPool_alike
    {pool pool' : BufferPool} (alike : pool.Alike pool') (blockSize : Nat) :
    (growPool pool blockSize).1.Alike (growPool pool' blockSize).1 ∧
      (growPool pool blockSize).2 = (growPool pool' blockSize).2 := by
  unfold growPool
  rw [← alike.bufferSize]
  split
  · exact alike.setBufferSize _
  · exact ⟨alike, rfl⟩

theorem onHeaderRead_agree
    (input : Input) {pool pool' : BufferPool} (alike : pool.Alike pool')
    (buffer buffer' : Buffer) (result : Option Bytes) :
    (input.onHeaderRead pool buffer result).Agree
      (input.onHeaderRead pool' buffer' result) := by
  unfold onHeaderRead
  cases result with
  | none => exact ⟨rfl, rfl, alike.release buffer buffer'⟩
  | some bytes =>
      have released :=
        alike.release (buffer.filled bytes) (buffer'.filled bytes)
      dsimp only
      split
      · exact ⟨rfl, rfl, released⟩
      · split
        · unfold detectCso
          cases csoRejection (CsoHeader.decode bytes) with
          | some reason => exact ⟨rfl, rfl, released⟩
          | none =>
              have grown := growPool_alike released
                (CsoHeader.decode bytes).sectorSize
              dsimp only
              rw [← grown.2]
              split
              · exact ⟨rfl, rfl, grown.1⟩
              · exact ⟨rfl, rfl, grown.1⟩
        · split
          · unfold detectDax
            cases daxRejection (DaxHeader.decode bytes) with
            | some reason => exact ⟨rfl, rfl, released⟩
            | none => exact ⟨rfl, rfl, released⟩
          · exact ⟨rfl, rfl, released⟩

end Input

namespace Reader

/-- Readers that agree on everything but the content of the pool. -/
structure Agree (core core' : Reader) : Prop where
  input : core.input = core'.input
  pool : core.pool.Alike core'.pool
  delivered : core.delivered = core'.delivered
  begun : core.begun = core'.begun
  finished : core.finished = core'.finished

theorem Agree.detect
    {env : Environment} {core core' : Reader} (agree : Agree core core')
    (heap : Nat → Nat → UInt8) {request request' : InputRequest}
    (phases : (Phase.waiting request).Agree (.waiting request'))
    (detects : request.detects = true) :
    (core.detected env request).Agree
      (core'.detected { env with heap := heap } request') := by
  have pools := agree.pool
  simp only [detected, ← agree.input]
  cases phases with
  | header buffer buffer' =>
      exact Input.onHeaderRead_agree _ pools _ _ _
  | index bytes =>
      simp only [Input.complete, Input.onIndexRead]
      repeat' split
      all_goals exact ⟨rfl, rfl, pools⟩
  | tables frames areas bytes =>
      simp only [Input.complete, Input.onTablesRead]
      repeat' split
      all_goals exact ⟨rfl, rfl, pools⟩
  | stat =>
      simp only [Input.complete, Input.onStat]
      repeat' split
      all_goals exact ⟨rfl, rfl, pools⟩
  | readBlock | decompress => cases detects

theorem agree_usePhase
    (env : Environment) {core core' : Reader} (agree : Agree core core')
    (heap : Nat → Nat → UInt8) (request : Request) (data : Bytes) :
    Agree (core.afterUse env request data)
        (core'.afterUse { env with heap := heap } request data) ∧
      (core.usePhase env request data).Agree
        (core'.usePhase { env with heap := heap } request data) := by
  constructor
  · exact ⟨by simp only [afterUse, agree.input], agree.pool.alloc _ _,
      agree.delivered, agree.begun, agree.finished⟩
  · cases raw : request.raw with
    | true =>
        rw [usePhase_raw env core raw, usePhase_raw _ core' raw,
          ← agree.input]
        exact .rawCallback _ _ (Buffer.agree_write _ _ data)
    | false =>
        rw [usePhase_compressed env core raw,
          usePhase_compressed _ core' raw]
        exact .decompress _ _ _ _ _

theorem Agree.decision
    {core core' : Reader} (agree : Agree core core')
    (policy : Input.FetchPolicy) :
    core.decision policy = core'.decision policy := by
  simp only [Reader.decision, enter, agree.input]

theorem Phase.agree_of_detects
    {request : InputRequest} {phase' : Phase}
    (phases : (Phase.waiting request).Agree phase')
    (detects : request.detects = true) :
    ∃ request', phase' = .waiting request' ∧ request'.detects = true := by
  cases phases <;> first | exact ⟨_, rfl, rfl⟩ | exact nomatch detects

theorem Phase.agree_self
    {phase : Phase} (detecting : phase.detecting = true) :
    phase.Agree phase := by
  cases phase with
  | waiting request =>
      cases request with
      | readHeader | readIndex | readTables | stat => constructor
      | readBlock | decompress => exact nomatch detecting
  | beginning => exact .beginning _
  | _ => exact nomatch detecting

theorem Agree.work
    {core core' : Reader} (agree : Agree core core') (env : Environment)
    (heap : Nat → Nat → UInt8) (source : Bytes) (isLz4 : Bool) :
    core'.input.decompressWork { env with heap := heap } core'.pool source
        isLz4 =
      core.input.decompressWork env core.pool source isLz4 := by
  simp only [Input.decompressWork, Input.decompressSectorDeflate,
    Input.decompressSectorLz4, agree.input, agree.pool.bufferSize]

theorem Agree.afterWork
    {core core' : Reader} (agree : Agree core core')
    {pool pool' : BufferPool} (alike : pool.Alike pool') :
    Agree (core.afterWork pool) (core'.afterWork pool') :=
  ⟨by simp only [Reader.afterWork, agree.input], alike, agree.delivered,
    agree.begun, agree.finished⟩

theorem Agree.advance
    {core core' : Reader} (agree : Agree core core') :
    Agree core.advance core'.advance :=
  ⟨by simp only [Reader.advance, agree.input], agree.pool,
    agree.delivered, agree.begun, agree.finished⟩

theorem Agree.deliver
    {core core' : Reader} (agree : Agree core core') (pos : Int)
    {sector sector' : Buffer} {supplied : Nat}
    (same : Buffer.Agree sectorSize sector sector') :
    Agree (core.deliver pos sector supplied)
      (core'.deliver pos sector' supplied) := by
  refine ⟨agree.input, agree.pool, ?_, agree.begun, agree.finished⟩
  have read :
      FlatMemory.read sector.memory 0 sectorSize =
        FlatMemory.read sector'.memory 0 sectorSize := by
    apply FlatMemory.read_congr
    intro index inside
    rw [Nat.zero_add]
    exact same index inside
  simp only [Reader.deliver, agree.delivered, read]

/-- The part of a block that is passed on is the same in both readers. -/
theorem agree_subBuffer
    {env : Environment} {core core' : Reader} (agree : Agree core core')
    (heap : Nat → Nat → UInt8) {block block' : SubBlock}
    (blocks : block.Agree block') (whole : block.Whole)
    (aligned : sectorSize ∣ block.suboffset)
    (more : block.suboffset < block.resultSize) :
    FlatMemory.read block.actualBuf.memory block.suboffset sectorSize =
        FlatMemory.read block'.actualBuf.memory block'.suboffset
          sectorSize ∧
      (core.subBuffer env block).2.Alike
        (core'.subBuffer { env with heap := heap } block').2 := by
  constructor
  · rw [← blocks.suboffset]
    apply FlatMemory.read_congr
    intro index inside
    apply blocks.actualBuf
    have sectors := whole.sectors.resolve_left (Nat.not_le.mpr more)
    have supplied := whole.supplied
    simp only [sectorSize] at *
    omega
  · have last : block.last = block'.last := by
      simp only [SubBlock.last, blocks.resultSize, blocks.suboffset]
    unfold subBuffer
    rw [← last]
    split
    · exact agree.pool
    · exact agree.pool.alloc _ _

/-- A move of one reader is matched by the other. -/
theorem Agree.move
    {env : Environment} {core core' next : Reader}
    {phase phase' nextPhase : Phase} {event event' : ReaderEvent}
    (agree : Agree core core') (phases : phase.Agree phase')
    (covered : phase.Covered) (track : OnTrack core phase)
    (similar : event.Similar event') (heap : Nat → Nat → UInt8)
    (move : Move Input.fetchCached env core phase event next nextPhase) :
    ∃ next' nextPhase',
      Move Input.fetchCached { env with heap := heap } core' phase' event'
          next' nextPhase' ∧
        Agree next next' ∧ nextPhase.Agree nextPhase' := by
  have input := agree.input
  have pools := agree.pool
  cases move with
  | pause =>
      cases similar
      exact ⟨_, _, .pause core' phase',
        ⟨by simp only [input], pools, agree.delivered, agree.begun,
          agree.finished⟩, phases⟩
  | resume _ unparked =>
      cases similar
      refine ⟨_, _, .resume core' phase' ?_,
        ⟨by simp only [input], pools, agree.delivered, agree.begun,
          agree.finished⟩, phases⟩
      cases phases <;> first | rfl | exact nomatch unparked
  | unpark =>
      cases similar
      cases phases
      exact ⟨_, _, .unpark core',
        ⟨by simp only [input], pools, agree.delivered, agree.begun,
          agree.finished⟩, .reading⟩
  | otherPool _ pool =>
      cases similar with
      | otherPool alike =>
          exact ⟨_, _, .otherPool core' phase' _,
            ⟨input, alike, agree.delivered, agree.begun, agree.finished⟩,
            phases⟩
  | detect request detects =>
      cases similar
      obtain ⟨request', rfl, detects'⟩ :=
        Phase.agree_of_detects phases detects
      have result : (core.detected env request).Agree _ :=
        agree.detect heap phases detects
      refine ⟨_, _, .detect core' request' detects',
        ⟨result.input, result.pool, agree.delivered, agree.begun,
          agree.finished⟩, ?_⟩
      rw [← result.phase]
      have frame := detected_frame env detects track.aligned
      rcases frame.phase with ⟨reason, finishing⟩ | ⟨detecting, _, _⟩
      · rw [finishing]
        exact .finishing _ _
      · exact Phase.agree_self detecting
  | begin size =>
      cases similar
      cases phases
      exact ⟨_, _, .begin core' size,
        ⟨input, pools, agree.delivered,
          congrArg (· ++ [size]) agree.begun, agree.finished⟩, .reading⟩
  | finish success reason =>
      cases similar
      cases phases
      exact ⟨_, _, .finish core' success reason,
        ⟨input, pools, agree.delivered, agree.begun,
          congrArg (· ++ [(success, reason)]) agree.finished⟩, .stopped⟩
  | atEnd done =>
      cases similar
      cases phases
      exact ⟨_, _, .atEnd core' (by rwa [← input]), agree,
        .finishing _ _⟩
  | park more paused =>
      cases similar
      cases phases
      exact ⟨_, _,
        .park core' (by rwa [← input]) (by rwa [← input]), agree, .parked⟩
  | use data more running decided =>
      cases similar
      cases phases
      have used := agree_usePhase env agree heap core.input.request data
      refine ⟨_, _, .use core' data (by rwa [← input]) (by rwa [← input])
        (by rwa [← agree.decision]), ?_⟩
      rwa [← input]
  | ask cachePos size more running decided =>
      cases similar
      cases phases
      refine ⟨_, _, .ask core' cachePos size (by rwa [← input])
        (by rwa [← input]) (by rwa [← agree.decision]),
        ⟨by simp only [input], pools, agree.delivered, agree.begun,
          agree.finished⟩, ?_⟩
      rw [input]
      exact .readBlock _ _
  | blockMissing request size received =>
      cases similar
      cases phases
      exact ⟨_, _, .blockMissing core' request size (by rwa [← input]),
        ⟨by simp only [input], pools, agree.delivered, agree.begun,
          agree.finished⟩, .finishing _ _⟩
  | blockShort request size data received short =>
      cases similar
      cases phases
      exact ⟨_, _,
        .blockShort core' request size data (by rwa [← input]) short,
        ⟨by simp only [afterRead, input], pools, agree.delivered,
          agree.begun, agree.finished⟩, .finishing _ _⟩
  | blockRead request size data received enough =>
      cases similar
      cases phases
      have again : Agree (core.afterRead data) (core'.afterRead data) :=
        ⟨by simp only [afterRead, input], pools, agree.delivered,
          agree.begun, agree.finished⟩
      have used := agree_usePhase env again heap request (data.take request.len)
      exact ⟨_, _,
        .blockRead core' request size data (by rwa [← input]) enough, used⟩
  | workFailed actualBuf source offset isLz4 message worked =>
      cases similar
      cases phases with
      | decompress _ buffer' =>
          exact ⟨_, _,
            .workFailed core' buffer' source offset isLz4 message
              (by rwa [agree.work]),
            agree.afterWork (pools.release _ _), .finishing _ _⟩
  | workRejected actualBuf source offset isLz4 data reason worked
      rejected =>
      cases similar
      cases phases with
      | decompress _ buffer' =>
          exact ⟨_, _,
            .workRejected core' buffer' source offset isLz4 data reason
              (by rwa [agree.work]) (by rwa [← input]),
            agree.afterWork (pools.release _ _), .finishing _ _⟩
  | decompressed actualBuf source offset isLz4 data worked accepted =>
      cases similar
      cases phases with
      | decompress _ buffer' =>
          refine ⟨_, _,
            .decompressed core' buffer' source offset isLz4 data
              (by rwa [agree.work]) (by rwa [← input]),
            agree.afterWork pools, .looping ?_⟩
          exact ⟨rfl, by rw [input], rfl, Buffer.agree_write _ _ data⟩
  | rawCallback pos sector supplied =>
      cases similar
      cases phases with
      | rawCallback _ _ same =>
          have enough : sectorSize ≤ supplied := covered
          exact ⟨_, _, .rawCallback core' pos _ supplied,
            agree.deliver pos fun index inside =>
              same index (inside.trans_le enough),
            .rawDelivered⟩
  | rawDelivered =>
      cases similar
      cases phases
      exact ⟨_, _, .rawDelivered core', agree.advance, .reading⟩
  | subBlock block more =>
      cases similar
      cases phases with
      | @looping _ block' blocks =>
          have buffers := @agree_subBuffer env _ _ agree heap _ _ blocks
            covered track.block.1 more
          refine ⟨_, _,
            .subBlock core' block'
              (by rwa [← blocks.suboffset, ← blocks.resultSize]),
            ⟨input, buffers.2, agree.delivered, agree.begun,
              agree.finished⟩, ?_⟩
          rw [← input, ← blocks.supplied, ← buffers.1,
            ← blocks.suboffset]
          refine .subCallback _ _ ?_ blocks
          have written := Buffer.agree_write (core.subBuffer env block).1
            (core'.subBuffer { env with heap := heap } block').1
            (FlatMemory.read block.actualBuf.memory block.suboffset
              sectorSize)
          rwa [FlatMemory.length_read] at written
  | loopDone block done =>
      cases similar
      cases phases with
      | @looping _ block' blocks =>
          exact ⟨_, _,
            .loopDone core' block'
              (by rwa [← blocks.suboffset, ← blocks.resultSize]),
            agree, .reading⟩
  | subCallback pos sector supplied block =>
      cases similar
      cases phases with
      | subCallback _ _ same blocks =>
          exact ⟨_, _, .subCallback core' pos _ supplied _,
            agree.deliver pos same, .subDelivered blocks⟩
  | bail block paused more =>
      cases similar
      cases phases with
      | @subDelivered _ block' blocks =>
          have last : block.last = block'.last := by
            simp only [SubBlock.last, blocks.resultSize, blocks.suboffset]
          have advanced := agree.advance
          exact ⟨_, _,
            .bail core' block' (by rwa [← input]) (by rwa [← last]),
            ⟨advanced.input, pools.release _ _, advanced.delivered,
              advanced.begun, advanced.finished⟩, .reading⟩
  | nextSub block stays =>
      cases similar
      cases phases with
      | @subDelivered _ block' blocks =>
          have last : block.last = block'.last := by
            simp only [SubBlock.last, blocks.resultSize, blocks.suboffset]
          refine ⟨_, _,
            .nextSub core' block' (by rwa [← input, ← last]),
            agree.advance, .looping ?_⟩
          exact ⟨congrArg (· + sectorSize) blocks.suboffset,
            blocks.resultSize, blocks.supplied, blocks.actualBuf⟩

/-- The situation of two readers that have been driven by similar events. -/
structure Twins (reader reader' : Reader) : Prop where
  twins : ∃ core phase core' phase',
    Situated reader core phase ∧ reader' = core'.enter phase' ∧
      Agree core core' ∧ phase.Agree phase' ∧ phase.Covered ∧
        ∀ delivery ∈ core.delivered, sectorSize ≤ delivery.supplied

theorem knowsFormat_of_agree
    {phase phase' : Phase} (phases : phase.Agree phase') :
    phase'.knowsFormat = phase.knowsFormat := by
  cases phases <;> rfl

theorem supplied_move
    {env : Environment} {core core' : Reader} {phase phase' : Phase}
    {event : ReaderEvent} (covered : phase.Covered)
    (supplied : ∀ delivery ∈ core.delivered,
      sectorSize ≤ delivery.supplied)
    (move : Move Input.fetchCached env core phase event core' phase') :
    ∀ delivery ∈ core'.delivered, sectorSize ≤ delivery.supplied := by
  have deliver {pos : Int} {sector : Buffer} {count : Nat}
      (enough : sectorSize ≤ count) :
      ∀ delivery ∈ (core.deliver pos sector count).delivered,
        sectorSize ≤ delivery.supplied := by
    intro delivery member
    rcases List.mem_append.mp member with earlier | latest
    · exact supplied delivery earlier
    · rw [List.mem_singleton.mp latest]
      exact enough
  cases move with
  | rawCallback => exact deliver covered
  | subCallback => exact deliver covered.1
  | _ => exact supplied

theorem Twins.step
    {env : Environment} (heap : Nat → Nat → UInt8)
    {source source' next : Reader} {event event' : ReaderEvent}
    (twins : Twins source source') (similar : event.Similar event')
    (covers : source.Covers env event)
    (taken : Reader.step Input.fetchCached env source event = some next) :
    ∃ next',
      Reader.step Input.fetchCached { env with heap := heap } source'
          event' = some next' ∧
        Twins next next' := by
  obtain ⟨core, phase, core', phase', ⟨rfl, known, track⟩, rfl, agree,
    phases, covered, supplied⟩ := twins
  obtain ⟨core1, phase1, move, rfl, known1⟩ := move_of_step known taken
  obtain ⟨core2, phase2, move', agree', phases'⟩ :=
    agree.move phases covered track similar heap move
  have known' :
      phase'.knowsFormat = true → core'.input.fileType ≠ .unknown := by
    rw [knowsFormat_of_agree phases, ← agree.input]
    exact known
  exact ⟨_, step_of_move known' move', core1, phase1, core2, phase2,
    ⟨rfl, known1, track.move move⟩, rfl, agree', phases',
    covered_move covered track covers move,
    supplied_move covered supplied move⟩

/-- In a run that stays inside its memory, every sector that is delivered is
covered by the block it is taken from, and a run in which only the content of
the pool differs delivers the same sectors and ends in the same way. -/
theorem delivers_supplied
    (env : Environment) {pool pool' : BufferPool}
    (alike : pool.Alike pool') (heap : Nat → Nat → UInt8)
    (events : List (ReaderEvent × ReaderEvent))
    (similar : ∀ pair ∈ events, pair.1.Similar pair.2) {target : Reader}
    (run : Execution (step Input.fetchCached env)
      (Both (Covers env) (StaysInside Input.fetchCached env))
      (start env pool) (events.map Prod.fst) target) :
    (∀ delivery ∈ target.delivered, sectorSize ≤ delivery.supplied) ∧
      ∃ target',
        Execution (step Input.fetchCached { env with heap := heap }) Always
            (start { env with heap := heap } pool') (events.map Prod.snd)
            target' ∧
          target'.delivered = target.delivered ∧
          target'.begun = target.begun ∧
          target'.finished = target.finished := by
  have initially :
      Twins (start env pool) (start { env with heap := heap } pool') := by
    refine ⟨(start env pool).enter .stopped, startPhase env pool,
      (start { env with heap := heap } pool').enter .stopped,
      startPhase { env with heap := heap } pool', ?_, rfl,
      ⟨rfl, alike.alloc _ _, rfl, rfl, rfl⟩, .header _ _, trivial, nofun⟩
    have situated := situated_start env pool
    have track := situated.track
    exact ⟨rfl, nofun,
      ⟨track.pos, track.bounded, track.reported, track.fresh,
        track.aligned, track.inside, track.blockSize, trivial⟩⟩
  obtain ⟨target', run', ⟨core, phase, core', phase', situated, rfl, agree,
    _, _, supplied⟩⟩ :=
    @Execution.lockstep Reader ReaderEvent Reader ReaderEvent
      (step Input.fetchCached env) (Covers env) ReaderEvent.Similar
      (step Input.fetchCached { env with heap := heap }) Twins
      (fun _ _ _ _ _ twins similar covers taken =>
        twins.step heap similar covers taken)
      _ _ initially events similar target run.left
  obtain rfl := situated.enter
  exact ⟨supplied, _, run', agree.delivered.symm, agree.begun.symm,
    agree.finished.symm⟩

/-! ## A file of three blocks -/

def threeBlockHeader : CsoHeader :=
  ⟨csoMagic, 24, 10240, 4096, 1, 2, [0, 0]⟩

/-- Positions 40, 64 (raw), 4160 and 4180, shifted by two. -/
def threeBlockEntry (block : Nat) : Nat :=
  if block = 0 then 10
  else if block = 1 then 2 ^ 31 + 16
  else if block = 2 then 1040
  else 1045

/-- A CSO file of two blocks of two sectors, of which the second is raw, and
one of which a sector belongs to the image; the first is padded. -/
def threeBlockFile : Bytes :=
  threeBlockHeader.encode ++ encodeTable 4 4 threeBlockEntry ++
    zeroBlockStream ++ List.replicate 4 0 ++ List.replicate 4096 7 ++
    zeroBlockStream

theorem threeBlockFile_length : threeBlockFile.length = 4180 := by
  simp only [threeBlockFile, List.length_append, List.length_replicate,
    length_encodeTable]
  rfl

/-- The streams are where the index has them, and so are the raw bytes. -/
theorem threeBlockFile_bytes :
    FileBytes.pread threeBlockFile 40 24 =
        zeroBlockStream ++ List.replicate 4 0 ∧
      FileBytes.pread threeBlockFile 64 4096 = List.replicate 4096 7 ∧
      FileBytes.pread threeBlockFile 4160 20 = zeroBlockStream := by
  have front : (threeBlockHeader.encode ++
      encodeTable 4 4 threeBlockEntry).length = 40 := by
    rw [List.length_append, length_encodeTable]
    rfl
  have stream : zeroBlockStream.length = 20 := rfl
  refine ⟨?_, ?_, ?_⟩
  · rw [threeBlockFile, FileBytes.pread, List.append_assoc,
      List.append_assoc, List.append_assoc, List.drop_left' front,
      ← List.append_assoc]
    apply List.take_left'
    rw [List.length_append, List.length_replicate, stream]
  · have before : (threeBlockHeader.encode ++
        encodeTable 4 4 threeBlockEntry ++ zeroBlockStream ++
          List.replicate 4 0).length = 64 := by
      rw [List.length_append, List.length_append, front, stream,
        List.length_replicate]
    rw [threeBlockFile, FileBytes.pread, List.append_assoc,
      List.drop_left' before]
    exact List.take_left' List.length_replicate
  · have before : (threeBlockHeader.encode ++
        encodeTable 4 4 threeBlockEntry ++ zeroBlockStream ++
          List.replicate 4 0 ++ List.replicate 4096 7).length = 4160 := by
      rw [List.length_append, List.length_append, List.length_append, front,
        stream, List.length_replicate, List.length_replicate]
    rw [threeBlockFile, FileBytes.pread, List.drop_left' before]
    exact List.take_of_length_le (by rw [stream])

/-- What `inflate` does on the streams of `threeBlockFile`. -/
def threeBlockEnv : Environment :=
  { Environment.ofFile threeBlockFile with
    inflate := fun _ _ source =>
      if source.take 20 = zeroBlockStream then
        .ok (List.replicate 4096 0)
      else
        .error "Inflate failed" }

theorem threeBlockEnv_completeReads :
    threeBlockEnv.CompleteReads threeBlockFile :=
  fun _ _ _ _ => rfl

theorem threeBlockEnv_inflates
    {header : Bool} {capacity : Nat} {source : Bytes}
    (stream : source.take 20 = zeroBlockStream) :
    threeBlockEnv.inflate header capacity source =
      .ok (List.replicate 4096 0) :=
  if_pos stream

/-- Paused in the middle of the first block, which is then decompressed once
more. -/
def threeBlockEvents : List ReaderEvent :=
  [.complete 0, .complete 0, .run, .run, .complete 0, .complete 0, .run,
      .run, .pause, .run, .run, .resume, .run, .complete 0] ++
    List.replicate 11 .run ++ .complete 0 :: List.replicate 6 .run

/-- A check of a step, for a file without NC areas and lz4 whose blocks supply
whole sectors, fit a buffer and are all in the file and the cache. -/
def stepCheck (env : Environment) (length : Nat) (reader : Reader) :
    ReaderEvent → Bool
  | .run =>
      match reader.calls with
      | .readSector :: _ =>
          let request := reader.input.request
          decide (reader.input.size ≤ reader.input.pos) ||
            (reader.input.entriesUsed.all
                (· < reader.input.tableLength) &&
              decide (reader.input.positionShift < 64 ∧
                0 ≤ request.pos ∧ request.pos + request.len ≤ length ∧
                request.len ≤ reader.input.cacheSize) &&
              (!reader.input.cacheHit request ||
                decide (0 < reader.input.cacheFills)) &&
              (!request.raw || decide (sectorSize ≤ request.len ∧
                request.len ≤ reader.pool.bufferSize)))
      | _ => true
  | .complete position =>
      match reader.input.inFlight[position]? with
      | some (.readTables ..) => false
      | some (.readBlock request _) =>
          !request.raw || decide (sectorSize ≤ request.len ∧
            request.len ≤ reader.pool.bufferSize)
      | some (.decompress _ source offset isLz4) =>
          !isLz4 &&
            match reader.input.decompressWork env reader.pool source
              isLz4 with
            | .ok data =>
                decide (offset < data.length ∧
                  sectorSize ∣ reader.input.trimmedSize offset data.length)
            | .error _ => true
      | _ => true
  | .otherPool _ => false
  | _ => true

section

variable {env : Environment} {length : Nat} {reader : Reader}
variable {event : ReaderEvent}

theorem run_of_stepCheck
    (checked : reader.stepCheck env length .run = true)
    {rest : List InputCall} (calls : reader.calls = .readSector :: rest)
    (more : reader.input.pos < reader.input.size) :
    (∀ entry ∈ reader.input.entriesUsed,
        entry < reader.input.tableLength) ∧
      reader.input.positionShift < 64 ∧
      (0 ≤ reader.input.request.pos ∧
        reader.input.request.pos + reader.input.request.len ≤ length ∧
        reader.input.request.len ≤ reader.input.cacheSize) ∧
      (reader.input.cacheHit reader.input.request = true →
        0 < reader.input.cacheFills) ∧
      (reader.input.request.raw = true →
        sectorSize ≤ reader.input.request.len ∧
          reader.input.request.len ≤ reader.pool.bufferSize) := by
  have unfinished : ¬ reader.input.size ≤ reader.input.pos := by omega
  simp only [stepCheck, calls, unfinished, decide_false, Bool.false_or,
    Bool.and_eq_true, List.all_eq_true, decide_eq_true_eq] at checked
  obtain ⟨⟨⟨entries, shift, nonneg, ends, fits⟩, filled⟩, whole⟩ := checked
  refine ⟨entries, shift, ⟨nonneg, ends, fits⟩, ?_, ?_⟩
  · intro hit
    simpa [hit] using filled
  · intro raw
    simpa [raw] using whole

theorem staysInside_of_stepCheck
    (checked : reader.stepCheck env length event = true) :
    reader.StaysInside Input.fetchCached env event := by
  cases event with
  | run =>
      intro rest calls more _
      obtain ⟨entries, shift, _, _, whole⟩ :=
        run_of_stepCheck checked calls more
      exact ⟨entries, shift, fun _ _ raw => (whole raw).2⟩
  | complete position =>
      refine ⟨?_, ?_, ?_⟩
      · intro frames areas bytes data asked
        simp [stepCheck, asked] at checked
      · intro request size data asked _ _ raw
        simp [stepCheck, asked, raw] at checked
        exact checked.2
      · intro actualBuf source offset asked
        simp [stepCheck, asked] at checked
  | _ => trivial

theorem covers_of_stepCheck
    (checked : reader.stepCheck env length event = true) :
    reader.Covers env event := by
  cases event with
  | run =>
      intro rest data calls more _ _ raw
      obtain ⟨_, _, _, _, whole⟩ := run_of_stepCheck checked calls more
      exact (whole raw).1
  | complete position =>
      constructor
      · intro request size data asked _ _ raw
        simp [stepCheck, asked, raw] at checked
        exact checked.1
      · intro actualBuf source offset isLz4 data asked worked _
        simp [stepCheck, asked, worked] at checked
        exact Or.inr checked.2.2
  | _ => trivial

end

/-- The requests of the run over `threeBlockFile`: the first sector of the
first block is read, everything else is in the cache. -/
def threeBlockRequests : List Request :=
  [⟨40, 24, 0, true, false⟩, ⟨40, 24, 2048, true, false⟩,
    ⟨64, 4096, 0, false, false⟩, ⟨2112, 2048, 0, false, false⟩,
    ⟨4160, 20, 0, true, false⟩]

/-- What the detection finds in `threeBlockFile`. -/
def ThreeBlocks (input : Input) : Prop :=
  input.fileType = .cso1 ∧ input.size = 10240 ∧ input.csoIndexShift = 2 ∧
    input.csoBlockShift = 12 ∧ input.csoBlockSize = 4096 ∧
    input.cacheSize = 32768 ∧ input.index 0 = 10 ∧
    input.index 1 = 2 ^ 31 + 16 ∧ input.index 2 = 1040 ∧
    input.index 3 = 1045

instance (input : Input) : Decidable (ThreeBlocks input) :=
  inferInstanceAs (Decidable (_ ∧ _))

theorem threeBlock_reached :
    ∃ target,
      runEvents
          (guarded (stepCheck threeBlockEnv threeBlockFile.length)
            (step Input.fetchCached threeBlockEnv))
          (start threeBlockEnv .initial) threeBlockEvents =
        some target ∧
      target.finished = [(true, "")] ∧ target.delivered.length = 5 ∧
      target.input.cacheFills = 1 ∧ target.input.works = 3 ∧
      target.input.fetches.map Fetch.request = threeBlockRequests ∧
      target.begun = [10240] ∧ target.pool.bufferSize = 16384 ∧
      ThreeBlocks target.input := by
  have reached :
      (runEvents
        (guarded (stepCheck threeBlockEnv threeBlockFile.length)
          (step Input.fetchCached threeBlockEnv))
        (start threeBlockEnv .initial) threeBlockEvents).any (fun target =>
          target.finished = [(true, "")] ∧ target.delivered.length = 5 ∧
            target.input.cacheFills = 1 ∧ target.input.works = 3 ∧
            target.input.fetches.map Fetch.request =
              threeBlockRequests ∧
            target.begun = [10240] ∧ target.pool.bufferSize = 16384 ∧
            ThreeBlocks target.input) = true := by
    decide +kernel
  obtain ⟨target, ran, facts⟩ := (Option.any_eq_true _ _).mp reached
  exact ⟨target, ran, of_decide_eq_true facts⟩

theorem delivers_supplied_threeBlockFile :
    ∃ target target' : Reader,
      Execution
          (step Input.fetchCached
            { threeBlockEnv with heap := fun _ _ => 1 })
          Always
          (start { threeBlockEnv with heap := fun _ _ => 1 } .initial)
          threeBlockEvents target' ∧
        target'.delivered = target.delivered ∧
        target.finished = [(true, "")] ∧ target.delivered.length = 5 ∧
        ∀ delivery ∈ target.delivered, sectorSize ≤ delivery.supplied := by
  obtain ⟨target, ran, finished, count, _⟩ := threeBlock_reached
  have run :
      Execution (step Input.fetchCached threeBlockEnv)
        (Both (Covers threeBlockEnv)
          (StaysInside Input.fetchCached threeBlockEnv))
        (start threeBlockEnv .initial) threeBlockEvents target :=
    Execution.of_runEvents
      (fun _ _ checked =>
        ⟨covers_of_stepCheck checked, staysInside_of_stepCheck checked⟩)
      ran
  have alike : BufferPool.Alike .initial .initial := ⟨rfl, rfl, rfl⟩
  have similar : ∀ pair ∈ threeBlockEvents.map fun event => (event, event),
      pair.1.Similar pair.2 := by
    intro pair member
    obtain ⟨event, _, rfl⟩ := List.mem_map.mp member
    cases event with
    | otherPool pool => exact .otherPool ⟨rfl, rfl, rfl⟩
    | _ => constructor
  have same : (threeBlockEvents.map fun event => (event, event)).map
      Prod.fst = threeBlockEvents := by
    rw [List.map_map]
    exact List.map_id _
  rw [← same] at run
  obtain ⟨supplied, target', run', delivered, _, _⟩ :=
    delivers_supplied threeBlockEnv alike (fun _ _ => 1) _ similar run
  exact ⟨target, target', run', delivered, finished, count, supplied⟩

def rawEvents : List ReaderEvent :=
  [.complete 0, .complete 0, .run, .run, .complete 0, .run, .run, .run, .run]

/-- A CSO file of one sector, stored raw, whose block has one byte. -/
def shortRawFile : Bytes :=
  (CsoHeader.mk csoMagic 24 2048 2048 1 0 [0, 0]).encode ++
    encodeTable 4 2 (fun entry => if entry = 0 then 0x80000020 else 33) ++
    [7]

/-- The raw block of `shortRawFile` supplies one byte, and the rest of the
sector is what the buffer held before: the header of the file up to byte 24,
and then what `malloc` left. -/
theorem shortRawFile_delivers_garbage :
    ∃ target target' : Reader,
      Execution (step Input.fetchCached (.ofFile shortRawFile)) Always
          (start (.ofFile shortRawFile) .initial) rawEvents target ∧
        Execution
            (step Input.fetchCached
              { Environment.ofFile shortRawFile with heap := fun _ _ => 1 })
            Always
            (start
              { Environment.ofFile shortRawFile with heap := fun _ _ => 1 }
              .initial)
            rawEvents target' ∧
          target.finished = [(true, "")] ∧
          target'.finished = [(true, "")] ∧
          (∃ delivery ∈ target.delivered, delivery.supplied < sectorSize) ∧
          target.delivered ≠ target'.delivered := by
  have reached :
      (runEvents
        (guarded (fun _ _ => true)
          (step Input.fetchCached (.ofFile shortRawFile)))
        (start (.ofFile shortRawFile) .initial) rawEvents).any (fun target =>
          target.finished = [(true, "")] ∧
            (∃ delivery ∈ target.delivered,
              delivery.supplied < sectorSize) ∧
            target.delivered.map (fun delivery => delivery.sector[24]?) =
              [some (0 : UInt8)]) = true := by
    decide +kernel
  have reached' :
      (runEvents
        (guarded (fun _ _ => true)
          (step Input.fetchCached
            { Environment.ofFile shortRawFile with heap := fun _ _ => 1 }))
        (start
          { Environment.ofFile shortRawFile with heap := fun _ _ => 1 }
          .initial) rawEvents).any (fun target =>
          target.finished = [(true, "")] ∧
            target.delivered.map (fun delivery => delivery.sector[24]?) =
              [some (1 : UInt8)]) = true := by
    decide +kernel
  obtain ⟨target, ran, facts⟩ := (Option.any_eq_true _ _).mp reached
  obtain ⟨target', ran', facts'⟩ := (Option.any_eq_true _ _).mp reached'
  simp only [decide_eq_true_eq] at facts facts'
  refine ⟨target, target',
    Execution.of_runEvents (fun _ _ _ => trivial) ran,
    Execution.of_runEvents (fun _ _ _ => trivial) ran',
    facts.1, facts'.1, facts.2.1, ?_⟩
  intro same
  have bytes := facts.2.2
  rw [same, facts'.2] at bytes
  exact absurd bytes (by decide)

end Reader

end Maxcso
