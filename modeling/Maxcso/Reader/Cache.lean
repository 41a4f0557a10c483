import Maxcso.Library.FileWindow
import Maxcso.Reader.Supply

/-!
# The read cache

`ReadSector` keeps what its last read returned and takes later blocks from
there.  The reader with a cache is compared with one that reads exactly the
bytes of every block.
-/

namespace Maxcso

open Transition

namespace Input

/-- Without a cache, exactly the wanted bytes are read every time. -/
def fetchDirect : FetchPolicy := fun _ request =>
  .read request.pos request.len

end Input

namespace Request

/-- The bytes of the file that a request asks for. -/
def bytes (request : Request) (file : Bytes) : Bytes :=
  FileBytes.pread file request.pos.toNat request.len

/-- The file has all of them. -/
def Contained (request : Request) (file : Bytes) : Prop :=
  (request.bytes file).length = request.len

instance (request : Request) (file : Bytes) :
    Decidable (request.Contained file) :=
  inferInstanceAs (Decidable (_ = _))

end Request

/-- What is done to the reader from outside. -/
def ReaderEvent.outside : ReaderEvent → List ReaderEvent
  | .run | .complete _ => []
  | event => [event]

namespace Reader

/-- What a block request has to meet for the cache to serve it.  A request
that hits lies in the file and, unless it is for no bytes, follows a read into
the cache; one that misses fits the cache or goes past the end of the file. -/
def CacheServes (file : Bytes) (reader : Reader) : ReaderEvent → Prop
  | .run =>
      ∀ rest, reader.calls = .readSector :: rest →
        reader.input.pos < reader.input.size →
        reader.input.paused = false →
          0 ≤ reader.input.request.pos ∧
            if reader.input.cacheHit reader.input.request then
              (reader.input.request.len = 0 ∨ 0 < reader.input.cacheFills) ∧
                reader.input.request.Contained file
            else
              reader.input.request.Contained file →
                reader.input.request.len ≤ reader.input.cacheSize
  | _ => True

/-- The file has the bytes of a hit, and the cache shows them. -/
theorem read_of_hit
    {file : Bytes} {input : Input} (nonneg : 0 ≤ input.cachePos)
    (shown : FileBytes.Shows file input.cache input.cachePos.toNat
      input.cacheSize)
    {request : Request} (hit : input.cacheHit request = true)
    (contained : request.Contained file) :
    FlatMemory.read input.cache (request.pos - input.cachePos).toNat
      request.len = request.bytes file := by
  have window := of_decide_eq_true hit
  have whole := contained
  simp only [Request.Contained, Request.bytes,
    FileBytes.length_pread] at whole
  rw [FileBytes.read_of_shows shown (by omega) (by omega), Request.bytes]
  congr 1
  omega

/-- What a reader with a cache knows in every phase. -/
structure Cached (file : Bytes) (core : Reader) (phase : Phase) : Prop where
  fetches : ∀ fetch ∈ core.input.fetches,
    fetch.data = fetch.request.bytes file ∧ fetch.request.Contained file
  fresh : phase.detecting = true →
    core.input.fetches = [] ∧ core.input.cacheFills = 0
  asked : ∀ request size, phase = .waiting (.readBlock request size) →
    core.input.cachePos = request.pos ∧ 0 ≤ request.pos ∧
      size = core.input.cacheSize ∧
      (request.Contained file → request.len ≤ core.input.cacheSize)
  shown : 0 < core.input.cacheFills → phase.sized = true →
    (∀ request size, phase ≠ .waiting (.readBlock request size)) →
      0 ≤ core.input.cachePos ∧
        FileBytes.Shows file core.input.cache core.input.cachePos.toNat
          core.input.cacheSize

theorem usePhase_ne_readBlock
    (env : Environment) (core : Reader) (used : Request) (data : Bytes)
    (request : Request) (size : Nat) :
    core.usePhase env used data ≠ .waiting (.readBlock request size) := by
  cases raw : used.raw with
  | true =>
      rw [usePhase_raw env core raw]
      exact Phase.noConfusion
  | false =>
      rw [usePhase_compressed env core raw]
      intro same
      exact nomatch same

/-- Using the right bytes, with a cache that shows the file. -/
theorem Cached.use
    {file : Bytes} {env : Environment} {core : Reader} {request : Request}
    {data : Bytes}
    (fetches : ∀ fetch ∈ core.input.fetches,
      fetch.data = fetch.request.bytes file ∧
        fetch.request.Contained file)
    (exact : data = request.bytes file)
    (contained : request.Contained file)
    (shown : 0 < core.input.cacheFills → 0 ≤ core.input.cachePos ∧
      FileBytes.Shows file core.input.cache core.input.cachePos.toNat
        core.input.cacheSize) :
    Cached file (core.afterUse env request data)
      (core.usePhase env request data) := by
  refine ⟨?_, ?_, ?_, fun filled _ _ => shown filled⟩
  · intro fetch member
    rcases List.mem_append.mp member with earlier | latest
    · exact fetches fetch earlier
    · rw [List.mem_singleton.mp latest]
      exact ⟨exact, contained⟩
  · intro detecting
    cases raw : request.raw with
    | true =>
        rw [usePhase_raw env core raw] at detecting
        exact nomatch detecting
    | false =>
        rw [usePhase_compressed env core raw] at detecting
        exact nomatch detecting
  · intro asked size same
    exact absurd same (usePhase_ne_readBlock env core request data asked size)

theorem decision_cached
    (core : Reader) :
    core.decision Input.fetchCached =
      if core.input.cacheHit core.input.request then
        .use (FlatMemory.read core.input.cache
          (core.input.request.pos - core.input.cachePos).toNat
          core.input.request.len)
      else
        .read core.input.request.pos core.input.cacheSize := rfl

/-- A read of the whole window contains the wanted bytes when the file has
them. -/
theorem take_of_window
    {file data : Bytes} {request : Request} {size : Nat}
    (received : data = FileBytes.pread file request.pos.toNat size)
    (enough : request.len ≤ data.length) :
    data.take request.len = request.bytes file ∧
      request.Contained file := by
  have room : request.len ≤ size := by
    rw [received, FileBytes.length_pread] at enough
    omega
  have taken : data.take request.len = request.bytes file := by
    rw [received, FileBytes.take_pread file room, Request.bytes]
  refine ⟨taken, ?_⟩
  rw [Request.Contained, ← taken, List.length_take_of_le enough]

theorem Cached.move
    {file : Bytes} {env : Environment} (complete : env.CompleteReads file)
    {core core' : Reader} {phase phase' : Phase} {event : ReaderEvent}
    (cached : Cached file core phase) (track : OnTrack core phase)
    (serves : (core.enter phase).CacheServes file event)
    (move : Move Input.fetchCached env core phase event core' phase') :
    Cached file core' phase' := by
  have fetches := cached.fetches
  cases move with
  | pause | resume | otherPool =>
      exact ⟨fetches, cached.fresh, cached.asked, cached.shown⟩
  | detect request detects =>
      have frame := detected_frame env detects track.aligned
      obtain ⟨none, unfilled⟩ := cached.fresh detects
      have none' := frame.spares.fetches.trans none
      have unfilled' := frame.spares.cacheFills.trans unfilled
      refine ⟨?_, fun _ => ⟨none', unfilled'⟩, ?_,
        fun filled => absurd unfilled' (Nat.ne_of_gt filled)⟩
      · intro fetch member
        rw [none'] at member
        cases member
      · intro asked size same
        rcases frame.phase with ⟨reason, finishing⟩ | ⟨detecting, _, _⟩
        · rw [finishing] at same
          cases same
        · rw [same] at detecting
          cases detecting
  | use data more running decided =>
      obtain ⟨nonneg, window⟩ := serves [] rfl more running
      rw [decision_cached] at decided
      by_cases hit : core.input.cacheHit core.input.request = true
      · rw [if_pos hit] at decided
        rw [if_pos (by exact hit)] at window
        have shown := fun filled => cached.shown filled rfl
          fun _ _ => Phase.noConfusion
        obtain rfl := Input.FetchDecision.use.inj decided
        refine Cached.use fetches ?_ window.2 shown
        rcases window.1 with nothing | filled
        · have contained : core.input.request.Contained file := window.2
          have nothing' : core.input.request.len = 0 := nothing
          rw [Request.Contained, nothing', List.length_eq_zero_iff]
            at contained
          rw [nothing', contained]
          rfl
        · exact read_of_hit (shown filled).1 (shown filled).2 hit window.2
      · rw [if_neg hit] at decided
        cases decided
  | ask cachePos size more running decided =>
      obtain ⟨nonneg, window⟩ := serves [] rfl more running
      rw [decision_cached] at decided
      by_cases hit : core.input.cacheHit core.input.request = true
      · rw [if_pos hit] at decided
        cases decided
      · rw [if_neg hit] at decided
        rw [if_neg (by exact hit)] at window
        injection decided with posEq sizeEq
        refine ⟨fetches, fun detecting => absurd detecting Bool.false_ne_true,
          ?_, ?_⟩
        · intro request size' same
          injection same with same
          injection same with requestEq sizeEq'
          subst requestEq
          exact ⟨posEq.symm, nonneg, by rw [← sizeEq', ← sizeEq], window⟩
        · intro _ _ waits
          exact absurd rfl (waits _ _)
  | blockRead request size data received enough =>
      obtain ⟨posEq, nonneg, sizeEq, _⟩ := cached.asked request size rfl
      rw [complete _ _ _ nonneg] at received
      obtain rfl := Option.some.inj received
      have taken := take_of_window rfl enough
      refine @Cached.use file env
        (core.afterRead (FileBytes.pread file request.pos.toNat size))
        request _ fetches taken.1 taken.2 (fun _ => ⟨?_, ?_⟩)
      · rwa [afterRead, posEq]
      · rw [sizeEq, ← posEq]
        exact FileBytes.shows_write file _ _ _
  | blockMissing | blockShort | atEnd | workFailed | workRejected
  | finish =>
      exact ⟨fetches, fun detecting => absurd detecting Bool.false_ne_true,
        fun _ _ => Phase.noConfusion,
        fun _ sized => absurd sized Bool.false_ne_true⟩
  | begin =>
      exact ⟨fetches, fun detecting => absurd detecting Bool.false_ne_true,
        fun _ _ => Phase.noConfusion,
        fun filled => absurd (cached.fresh rfl).2 (Nat.ne_of_gt filled)⟩
  | _ =>
      exact ⟨fetches, fun detecting => absurd detecting Bool.false_ne_true,
        fun _ _ => Phase.noConfusion,
        fun filled _ _ => cached.shown filled rfl (by simp)⟩

end Reader

/-! ## The reader without a cache -/

namespace Input

/-- What the cache has seen and holds. -/
structure CacheState where
  cache : Nat → UInt8
  cachePos : Int
  reads : Nat
  cacheFills : Nat

/-- A block read puts `data` into the cache. -/
def CacheState.fill (cacheState : CacheState) (data : Bytes) :
    CacheState :=
  { cacheState with
    cache := FlatMemory.write cacheState.cache 0 data
    reads := cacheState.reads + 1
    cacheFills := cacheState.cacheFills + 1 }

/-- The state with another cache; the reader without one uses it as the
buffer of its reads. -/
def recache (input : Input) (cacheState : CacheState) : Input :=
  { input with
    cache := cacheState.cache
    cachePos := cacheState.cachePos
    reads := cacheState.reads
    cacheFills := cacheState.cacheFills }

/-- Results of the detection that differ only in the cache. -/
def Recached (result result' : InputResult) : Prop :=
  ∃ cacheState,
    result' = { result with input := result.input.recache cacheState }

theorem onHeaderRead_recached
    (input : Input) (cacheState : CacheState) (pool : BufferPool)
    (buffer : Buffer) (data : Option Bytes) :
    Recached (input.onHeaderRead pool buffer data)
      ((input.recache cacheState).onHeaderRead pool buffer data) := by
  unfold onHeaderRead
  cases data with
  | none => exact ⟨cacheState, rfl⟩
  | some bytes =>
      dsimp only
      split
      · exact ⟨cacheState, rfl⟩
      · split
        · unfold detectCso
          cases csoRejection (CsoHeader.decode bytes) with
          | some reason => exact ⟨cacheState, rfl⟩
          | none =>
              dsimp only
              split
              · exact ⟨{ cacheState with cachePos := _ }, rfl⟩
              · exact ⟨cacheState, rfl⟩
        · split
          · unfold detectDax
            cases daxRejection (DaxHeader.decode bytes) with
            | some reason => exact ⟨cacheState, rfl⟩
            | none => exact ⟨{ cacheState with cachePos := _ }, rfl⟩
          · exact ⟨cacheState, rfl⟩

theorem complete_recached
    {env : Environment} {file : Bytes} (complete : env.CompleteReads file)
    (input : Input) (cacheState : CacheState) (pool : BufferPool)
    {request : InputRequest} (detects : request.detects = true) :
    Recached (input.complete env pool request)
      ((input.recache cacheState).complete env pool request) := by
  cases request with
  | readHeader buffer =>
      simp only [Input.complete, readRange, complete _ _ _ (Int.le_refl 0)]
      exact onHeaderRead_recached _
        { cacheState with reads := cacheState.reads + 1 } _ _ _
  | readIndex bytes =>
      have read := fun count =>
        complete count csoHeaderSize bytes (by decide)
      simp only [Input.complete, readRange, read, onIndexRead]
      split
      · exact ⟨{ cacheState with reads := cacheState.reads + 1 }, rfl⟩
      · exact ⟨{ cacheState with reads := cacheState.reads + 1 }, rfl⟩
  | readTables frames areas bytes =>
      have read := fun count =>
        complete count daxHeaderSize (tableBytes frames areas) (by decide)
      simp only [Input.complete, readRange, read, onTablesRead]
      split
      · exact ⟨{ cacheState with reads := cacheState.reads + 1 }, rfl⟩
      · exact ⟨{ cacheState with reads := cacheState.reads + 1 }, rfl⟩
  | stat =>
      simp only [Input.complete, onStat]
      cases env.fsStat with
      | none => exact ⟨cacheState, rfl⟩
      | some size =>
          dsimp only
          split
          · exact ⟨cacheState, rfl⟩
          · exact ⟨{ cacheState with cachePos := _ }, rfl⟩
  | readBlock | decompress => cases detects

end Input

/-- The phase of the reader without a cache. -/
def Phase.direct : Phase → Phase
  | .waiting (.readBlock request _) =>
      .waiting (.readBlock request request.len)
  | phase => phase

namespace Reader

def recache (core : Reader) (cacheState : Input.CacheState) : Reader :=
  { core with input := core.input.recache cacheState }

theorem direct_of_ne_readBlock
    {phase : Phase}
    (other : ∀ request size, phase ≠ .waiting (.readBlock request size)) :
    phase.direct = phase := by
  unfold Phase.direct
  split
  · exact absurd rfl (other _ _)
  · rfl

theorem direct_usePhase
    (env : Environment) (core : Reader) (request : Request) (data : Bytes) :
    (core.usePhase env request data).direct =
      core.usePhase env request data :=
  direct_of_ne_readBlock (usePhase_ne_readBlock env core request data)

@[simp]
theorem direct_knowsFormat (phase : Phase) :
    phase.direct.knowsFormat = phase.knowsFormat := by
  unfold Phase.direct
  split <;> rfl

@[simp]
theorem direct_isParked (phase : Phase) :
    phase.direct.isParked = phase.isParked := by
  unfold Phase.direct
  split <;> rfl

section

variable {env : Environment} {file : Bytes} {core core' : Reader}
variable {phase phase' : Phase} {event : ReaderEvent}
variable (cacheState : Input.CacheState)

/-- The reader without a cache gets to where the reader with one is, with
the same done to it from outside. -/
def Matched (env : Environment) (source : Reader)
    (outside : List ReaderEvent) (core : Reader) (phase : Phase) : Prop :=
  ∃ events cacheState,
    Execution (step Input.fetchDirect env) Always source events
        ((core.recache cacheState).enter phase.direct) ∧
      events.flatMap ReaderEvent.outside = outside

theorem matched_same
    (known : phase.knowsFormat = true → core.input.fileType ≠ .unknown)
    (move : Move Input.fetchDirect env
      (core.recache cacheState) phase.direct event
      (core'.recache cacheState) phase'.direct) :
    Matched env ((core.recache cacheState).enter phase.direct)
      event.outside core' phase' := by
  have known' : phase.direct.knowsFormat = true →
      (core.recache cacheState).input.fileType ≠ .unknown := by
    rw [direct_knowsFormat]
    exact known
  exact ⟨[event], cacheState,
    Execution.single trivial (step_of_move known' move),
    List.flatMap_singleton _ _⟩

theorem matched_use
    {source : Reader} {request : Request} {data : Bytes}
    {events : List ReaderEvent}
    (run : Execution (step Input.fetchDirect env) Always source events
      (((core.afterUse env request data).recache cacheState).enter
        (core.usePhase env request data))) :
    Matched env source (events.flatMap ReaderEvent.outside)
      (core.afterUse env request data)
      (core.usePhase env request data) := by
  refine ⟨events, cacheState, ?_, rfl⟩
  rw [direct_usePhase]
  exact run

/-- Reading exactly the wanted bytes. -/
theorem direct_blockRead
    (complete : env.CompleteReads file) {request : Request}
    (nonneg : 0 ≤ request.pos) (contained : request.Contained file) :
    Move Input.fetchDirect env (core.recache cacheState)
      (.waiting (.readBlock request request.len)) (.complete 0)
      ((core.afterUse env request (request.bytes file)).recache
        (cacheState.fill (request.bytes file)))
      (core.usePhase env request (request.bytes file)) := by
  have all : (request.bytes file).take request.len = request.bytes file :=
    List.take_of_length_le (Nat.le_of_eq contained)
  have move :=
    @Move.blockRead Input.fetchDirect env
      (core.recache cacheState) request request.len
      (request.bytes file)
        (complete cacheState.reads request.pos request.len nonneg)
      (Nat.le_of_eq contained.symm)
  rw [all] at move
  exact move

theorem matched_move
    (known : phase.knowsFormat = true → core.input.fileType ≠ .unknown)
    (complete : env.CompleteReads file)
    (cached : Cached file core phase) (track : OnTrack core phase)
    (serves : (core.enter phase).CacheServes file event)
    (move : Move Input.fetchCached env core phase event core' phase') :
    Matched env ((core.recache cacheState).enter phase.direct)
      event.outside core' phase' := by
  have same := fun move =>
    @matched_same env core core' phase phase' event cacheState known move
  have after := cached.move complete track serves move
  cases move with
  | pause => exact same (.pause _ _)
  | resume _ unparked => exact same (.resume _ _ (by simpa using unparked))
  | unpark => exact same (.unpark _)
  | otherPool => exact same (.otherPool _ _ _)
  | begin => exact same (.begin _ _)
  | finish => exact same (.finish _ _ _)
  | atEnd done => exact same (.atEnd _ done)
  | park more paused => exact same (.park _ more paused)
  | workFailed actualBuf source offset isLz4 message worked =>
      exact same (.workFailed _ _ _ _ _ _ worked)
  | workRejected actualBuf source offset isLz4 data reason worked rejected =>
      exact same (.workRejected _ _ _ _ _ _ _ worked rejected)
  | decompressed actualBuf source offset isLz4 data worked rejected =>
      exact same (.decompressed _ _ _ _ _ _ worked rejected)
  | rawCallback => exact same (.rawCallback _ _ _ _)
  | rawDelivered => exact same (.rawDelivered _)
  | subBlock block more => exact same (.subBlock _ _ more)
  | loopDone block done => exact same (.loopDone _ _ done)
  | subCallback => exact same (.subCallback _ _ _ _ _)
  | bail block paused more => exact same (.bail _ _ paused more)
  | nextSub block stays => exact same (.nextSub _ _ stays)
  | detect request detects =>
      have frame := detected_frame env detects track.aligned
      have direct : (core.detected env request).phase.direct =
          (core.detected env request).phase := by
        apply direct_of_ne_readBlock
        intro asked size waits
        rcases frame.phase with ⟨reason, finishing⟩ | ⟨detecting, _, _⟩
        · cases finishing.symm.trans waits
        · rw [waits] at detecting
          cases detecting
      obtain ⟨cacheState', result⟩ :=
        Input.complete_recached complete (core.enter .stopped).input
          cacheState core.pool detects
      have move :=
        @Move.detect Input.fetchDirect env
          (core.recache cacheState) request detects
      have result' : (core.recache cacheState).detected env
          request = _ := result
      have phaseEq : ((core.recache cacheState).detected env
          request).phase = (core.detected env request).phase := by
        rw [result']
        rfl
      rw [phaseEq, result'] at move
      have source : (Phase.waiting request).direct = .waiting request := by
        apply direct_of_ne_readBlock
        rintro asked size ⟨⟩
        cases detects
      refine ⟨[.complete 0], cacheState', Execution.single trivial ?_, rfl⟩
      rw [direct, source]
      exact step_of_move (by exact known) move
  | use data more running decided =>
      have nonneg := (serves [] rfl more running).1
      obtain ⟨exact', contained⟩ :=
        after.fetches ⟨core.input.request, data⟩ (by simp [afterUse])
      have asks :=
        @Move.ask Input.fetchDirect env (core.recache cacheState)
          _ _ more running rfl
      have reads' :=
        @direct_blockRead env file core
          { cacheState with cachePos := core.input.request.pos } complete
          core.input.request nonneg contained
      obtain rfl : data = core.input.request.bytes file := exact'
      have first := step_of_move (by exact fun _ => known rfl) asks
      have second := step_of_move (by exact fun _ => known rfl) reads'
      exact matched_use _
        ((Execution.single trivial first).append
          (Execution.single trivial second))
  | ask cachePos' size more running decided =>
      refine ⟨[.run], { cacheState with cachePos := core.input.request.pos },
        Execution.single trivial ?_, rfl⟩
      exact step_of_move known
        (@Move.ask Input.fetchDirect env (core.recache cacheState)
          _ _ more running rfl)
  | blockMissing request size received =>
      obtain ⟨_, nonneg, _⟩ := cached.asked request size rfl
      rw [complete _ _ _ nonneg] at received
      cases received
  | blockShort request size data received short =>
      obtain ⟨_, nonneg, sizeEq, fits⟩ := cached.asked request size rfl
      rw [complete _ _ _ nonneg] at received
      obtain rfl := Option.some.inj received
      have short' : (request.bytes file).length < request.len := by
        by_contra enough
        have whole : request.Contained file := by
          simp only [Request.Contained, Request.bytes,
            FileBytes.length_pread] at *
          omega
        have room := fits whole
        simp only [Request.Contained, Request.bytes,
          FileBytes.length_pread] at *
        omega
      have move :=
        @Move.blockShort Input.fetchDirect env (core.recache cacheState)
          request request.len (request.bytes file)
          (complete cacheState.reads request.pos request.len nonneg) short'
      exact ⟨[.complete 0], cacheState.fill (request.bytes file),
        Execution.single trivial
          (step_of_move (by exact fun _ => known rfl) move),
        rfl⟩
  | blockRead request size data received enough =>
      obtain ⟨_, nonneg, _⟩ := cached.asked request size rfl
      rw [complete _ _ _ nonneg] at received
      obtain rfl := Option.some.inj received
      obtain ⟨taken, contained⟩ := take_of_window rfl enough
      rw [taken]
      have reads' :=
        @direct_blockRead env file core cacheState complete request nonneg
          contained
      have first := step_of_move (by exact fun _ => known rfl) reads'
      exact @matched_use env
        (core.afterRead (FileBytes.pread file request.pos.toNat size)) _ _ _
        _ _ (Execution.single trivial first)

end

/-- The reader with a cache and the one without in the same situation. -/
def CacheTwins (file : Bytes) (reader reader' : Reader) : Prop :=
  ∃ core phase cacheState,
    Situated reader core phase ∧ Cached file core phase ∧
      reader' = (core.recache cacheState).enter phase.direct

theorem CacheTwins.step
    {env : Environment} {file : Bytes} (complete : env.CompleteReads file)
    {source source' target : Reader} {event : ReaderEvent}
    (twins : CacheTwins file source source')
    (serves : source.CacheServes file event)
    (taken : Reader.step Input.fetchCached env source event = some target) :
    ∃ events' target',
      Execution (Reader.step Input.fetchDirect env) Always source' events'
          target' ∧
        events'.flatMap ReaderEvent.outside = event.outside ∧
        CacheTwins file target target' := by
  obtain ⟨core, phase, cacheState, ⟨rfl, known, track⟩, cached, rfl⟩ :=
    twins
  obtain ⟨core', phase', move, rfl, known'⟩ := move_of_step known taken
  obtain ⟨events, cacheState', run, outside⟩ :=
    matched_move cacheState known complete cached track serves move
  exact ⟨events, _, run, outside, core', phase', cacheState',
    ⟨rfl, known', track.move move⟩,
    cached.move complete track serves move, rfl⟩

theorem cached_start
    (env : Environment) (file : Bytes) (pool : BufferPool) :
    Cached file (start env pool) (startPhase env pool) := by
  refine ⟨nofun, fun _ => ⟨rfl, rfl⟩, nofun, ?_⟩
  intro filled
  exact nomatch filled

/-- A CSO file of one sector, stored raw at the position that is also the
size of the image. -/
def farFile : Bytes :=
  (CsoHeader.mk csoMagic 24 2048 2048 1 0 [0, 0]).encode ++
    encodeTable 4 2
      (fun entry => if entry = 0 then 0x80000800 else 0x1000) ++
    List.replicate 2016 0 ++ List.replicate 2048 7

end Reader

end Maxcso
