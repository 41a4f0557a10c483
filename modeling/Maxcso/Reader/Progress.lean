import Maxcso.Reader.Stepping

/-!
# Progress of the reader

Where `pos_` stands in every phase, how many sectors can still be delivered,
and how many steps that takes.
-/

namespace Maxcso

open Transition

namespace Phase

/-- The phases in which the size of the image is known. -/
def sized : Phase → Bool
  | waiting (.readHeader _) | waiting .stat => false
  | stopped | finishing _ _ => false
  | _ => true

def detecting : Phase → Bool
  | waiting request => request.detects
  | beginning _ => true
  | _ => false

/-- How far the detection has come. -/
def stage : Phase → Nat
  | waiting (.readHeader _) => 0
  | waiting (.readIndex _) | waiting (.readTables ..) | waiting .stat => 1
  | beginning _ => 2
  | _ => 3

/-- How far `pos_` lags behind the sectors delivered. -/
def lag : Phase → Nat
  | rawDelivered | subDelivered _ => sectorSize
  | _ => 0

/-- How often the run has been reported as finished. -/
def reports : Phase → Nat
  | stopped => 1
  | _ => 0

/-- The phases that deal with the sector at `pos_`. -/
def atSector : Phase → Bool
  | waiting request => !request.detects
  | parked | rawCallback .. | rawDelivered | subCallback ..
  | subDelivered _ => true
  | _ => false

/-- A block in the delivery loop is aligned to sectors, and what the loop
passes on of it lies inside the image. -/
def blockInside (pos size : Int) : Phase → Prop
  | waiting (.readBlock request _) =>
      sectorSize ∣ request.offset ∧ (request.offset : Int) ≤ pos
  | waiting (.decompress _ _ offset _) =>
      sectorSize ∣ offset ∧ (offset : Int) ≤ pos
  | looping block | subDelivered block =>
      sectorSize ∣ block.suboffset ∧
        pos - block.suboffset + block.resultSize ≤ size
  | subCallback _ _ _ block =>
      sectorSize ∣ block.suboffset ∧ block.suboffset < block.resultSize ∧
        pos - block.suboffset + block.resultSize ≤ size
  | _ => True

section

variable {phase : Phase} (detecting : phase.detecting = true)
include detecting

theorem lag_of_detecting : phase.lag = 0 := by
  cases phase <;> first | rfl | exact nomatch detecting

theorem reports_of_detecting : phase.reports = 0 := by
  cases phase <;> first | rfl | exact nomatch detecting

theorem not_atSector_of_detecting : ¬ phase.atSector = true := by
  cases phase with
  | waiting request =>
      have detects : request.detects = true := detecting
      simp [atSector, detects]
  | beginning => exact Bool.false_ne_true
  | _ => exact nomatch detecting

theorem blockInside_of_detecting (pos size : Int) :
    phase.blockInside pos size := by
  cases phase with
  | waiting request =>
      cases request with
      | readHeader | readIndex | readTables | stat => trivial
      | readBlock | decompress => exact nomatch detecting
  | beginning => trivial
  | _ => exact nomatch detecting

end

end Phase

namespace Request

@[simp]
theorem skipRaw_of_raw {request : Request} (raw : request.raw = true) :
    request.skipRaw =
      { request with
        pos := request.pos + request.offset
        len := toUint32 (request.len - request.offset : Int)
        offset := 0 } := by
  simp [skipRaw, raw]

theorem skipRaw_offset (request : Request) :
    request.skipRaw.offset = 0 ∨
      request.skipRaw.offset = request.offset := by
  unfold skipRaw
  split
  · exact Or.inl rfl
  · exact Or.inr rfl

end Request

theorem toInt64_mod_sectorSize
    {value : Nat} (aligned : value % (sectorMask + 1) = 0) :
    toInt64 value % sectorSize = 0 := by
  have word := Nat.div_add_mod value (2 ^ 64)
  simp only [toInt64, sectorSize, sectorMask] at *
  split <;> omega

theorem sectorSize_dvd_and
    {value : Nat} (aligned : sectorSize ∣ value) (mask : Nat) :
    sectorSize ∣ value &&& mask := by
  have low : value % 2 ^ 11 = 0 := Nat.mod_eq_zero_of_dvd aligned
  apply Nat.dvd_of_mod_eq_zero
  show (value &&& mask) % 2 ^ 11 = 0
  rw [Nat.and_mod_two_pow, low, Nat.zero_and]

theorem toUint32_le {value : Int} (nonneg : 0 ≤ value) :
    (toUint32 value : Int) ≤ value := by
  unfold toUint32
  omega

namespace Input

theorem csoRequest_offset
    (input : Input) :
    input.csoRequest.offset = 0 ∨
      input.csoRequest.offset =
        (input.pos % 2 ^ 64).toNat &&& (input.csoBlockSize - 1) :=
  Request.skipRaw_offset _

theorem daxRequest_offset (input : Input) :
    input.daxRequest.offset = 0 ∨
      input.daxRequest.offset = (input.pos % daxFrameSize).toNat :=
  Request.skipRaw_offset _

/-- The offset into the block is that of a sector before `pos_`. -/
theorem request_offset
    {input : Input} (nonneg : 0 ≤ input.pos)
    (aligned : input.pos % sectorSize = 0) :
    sectorSize ∣ input.request.offset ∧
      (input.request.offset : Int) ≤ input.pos := by
  simp only [sectorSize] at aligned
  have zero : sectorSize ∣ 0 ∧ ((0 : Nat) : Int) ≤ input.pos :=
    ⟨dvd_zero _, nonneg⟩
  have cso :
      sectorSize ∣ input.csoRequest.offset ∧
        (input.csoRequest.offset : Int) ≤ input.pos := by
    rcases input.csoRequest_offset with offset | offset
    · simpa only [offset] using zero
    · rw [offset]
      have wrapped : sectorSize ∣ (input.pos % 2 ^ 64).toNat := by
        simp only [sectorSize]
        omega
      have low :
          (input.pos % 2 ^ 64).toNat &&& (input.csoBlockSize - 1) ≤
            (input.pos % 2 ^ 64).toNat := Nat.and_le_left
      exact ⟨sectorSize_dvd_and wrapped _, by omega⟩
  have dax :
      sectorSize ∣ input.daxRequest.offset ∧
        (input.daxRequest.offset : Int) ≤ input.pos := by
    rcases input.daxRequest_offset with offset | offset
    · simpa only [offset] using zero
    · rw [offset]
      simp only [daxFrameSize, sectorSize]
      omega
  unfold request
  split
  · exact zero
  · exact zero
  · exact cso
  · exact cso
  · exact cso
  · exact dax

/-- What a completion during the detection leaves alone. -/
structure Spares (input final : Input) : Prop where
  pos : final.pos = input.pos
  paused : final.paused = input.paused
  cache : final.cache = input.cache
  fetches : final.fetches = input.fetches
  works : final.works = input.works
  cacheFills : final.cacheFills = input.cacheFills
  reads : final.reads ≤ input.reads + 1
  blockSize : input.csoBlockSize ≤ maxBlockSize →
    final.csoBlockSize ≤ maxBlockSize

/-- Where a completion during the detection can lead from a stage. -/
structure Detects (input : Input) (stage : Nat) (result : InputResult) :
    Prop where
  spares : input.Spares result.input
  phase :
    (∃ reason, result.phase = .finishing false reason) ∨
      (result.phase.detecting = true ∧ stage < result.phase.stage ∧
        (result.phase.sized = true →
          result.input.size % sectorSize = 0))

section

variable {input final : Input} {stage : Nat} (pool : BufferPool)

theorem detects_finish
    (reason : String) (spares : input.Spares final) :
    Detects input stage ⟨final, pool, [.finish false reason]⟩ :=
  ⟨spares, Or.inl ⟨reason, rfl⟩⟩

theorem detects_begin
    (size : Int) (spares : input.Spares final) (early : stage < 2)
    (aligned : final.size % sectorSize = 0) :
    Detects input stage ⟨final, pool, [.begin size, .readSector]⟩ :=
  ⟨spares, Or.inr ⟨rfl, early, fun _ => aligned⟩⟩

theorem detects_ask
    {request : InputRequest} (spares : input.Spares final)
    (detects : request.detects = true)
    (early : stage < (Phase.waiting request).stage)
    (idle : final.inFlight = [])
    (aligned : (Phase.waiting request).sized = true →
      final.size % sectorSize = 0) :
    Detects input stage ⟨final.ask request, pool, []⟩ := by
  have phaseEq :
      InputResult.phase ⟨final.ask request, pool, []⟩ =
        .waiting request := by
    simp [InputResult.phase, ask, idle]
  refine ⟨⟨spares.pos, spares.paused, spares.cache, spares.fetches,
    spares.works, spares.cacheFills, spares.reads, spares.blockSize⟩, Or.inr ?_⟩
  rw [phaseEq]
  exact ⟨detects, early, aligned⟩

end

theorem csoRejection_none
    {header : CsoHeader} (accepted : csoRejection header = none) :
    header.version ≤ 2 ∧ sectorSize ≤ header.sectorSize ∧
      header.sectorSize ≤ maxBlockSize ∧
      header.uncompressedSize % (sectorMask + 1) = 0 := by
  simp only [csoRejection, sectorSize, maxBlockSize, sectorMask] at *
  split at accepted
  · exact nomatch accepted
  · split at accepted
    · exact nomatch accepted
    · split at accepted
      · exact nomatch accepted
      · omega

theorem daxRejection_none
    {header : DaxHeader} (accepted : daxRejection header = none) :
    header.version ≤ 1 ∧
      header.uncompressedSize % (sectorMask + 1) = 0 := by
  simp only [daxRejection, sectorMask] at *
  split at accepted
  · exact nomatch accepted
  · split at accepted
    · exact nomatch accepted
    · omega

theorem complete_detects
    (env : Environment) {input : Input} (idle : input.inFlight = [])
    (pool : BufferPool)
    {request : InputRequest} (detects : request.detects = true)
    (aligned : (Phase.waiting request).sized = true →
      input.size % sectorSize = 0) :
    input.Detects (Phase.waiting request).stage
      (input.complete env pool request) := by
  have counted : input.Spares { input with reads := input.reads + 1 } :=
    ⟨rfl, rfl, rfl, rfl, rfl, rfl, Nat.le_refl _, id⟩
  have same : input.Spares input :=
    ⟨rfl, rfl, rfl, rfl, rfl, rfl, Nat.le_succ _, id⟩
  cases request with
  | readHeader headerBuf =>
      simp only [complete, onHeaderRead, detectCso, detectDax]
      repeat' split
      · exact detects_finish _ _ counted
      · exact detects_finish _ _ counted
      · exact detects_finish _ _ ⟨rfl, rfl, rfl, rfl, rfl, rfl, Nat.le_refl _, id⟩
      · have accepted := csoRejection_none ‹_›
        apply detects_ask
        · exact ⟨rfl, rfl, rfl, rfl, rfl, rfl, Nat.le_refl _,
            fun _ => accepted.2.2.1⟩
        · rfl
        · exact Nat.zero_lt_one
        · exact idle
        · exact fun _ => toInt64_mod_sectorSize accepted.2.2.2
      · have accepted := csoRejection_none ‹_›
        exact detects_finish _ _
          ⟨rfl, rfl, rfl, rfl, rfl, rfl, Nat.le_refl _, fun _ => accepted.2.2.1⟩
      · exact detects_finish _ _ ⟨rfl, rfl, rfl, rfl, rfl, rfl, Nat.le_refl _, id⟩
      · have sizeAligned := (daxRejection_none ‹_›).2
        apply detects_ask
        · refine ⟨rfl, rfl, rfl, rfl, rfl, rfl, Nat.le_refl _, fun _ => ?_⟩
          simp only [setupCache, daxFrameSize, maxBlockSize]
          omega
        · rfl
        · exact Nat.zero_lt_one
        · exact idle
        · intro _
          simp only [setupCache, sectorSize, sectorMask] at *
          omega
      · apply detects_ask
        · exact ⟨rfl, rfl, rfl, rfl, rfl, rfl, Nat.le_refl _, id⟩
        · rfl
        · exact Nat.zero_lt_one
        · exact idle
        · exact fun sized => absurd sized Bool.false_ne_true
  | readIndex bytes =>
      simp only [complete, onIndexRead]
      repeat' split
      · exact detects_finish _ _ counted
      · exact detects_finish _ _ counted
      · exact detects_begin _ _
          ⟨rfl, rfl, rfl, rfl, rfl, rfl, Nat.le_refl _, id⟩ Nat.one_lt_two
          (aligned rfl)
  | readTables frames areas bytes =>
      simp only [complete, onTablesRead]
      repeat' split
      · exact detects_finish _ _ counted
      · exact detects_finish _ _ counted
      · exact detects_begin _ _
          ⟨rfl, rfl, rfl, rfl, rfl, rfl, Nat.le_refl _, id⟩ Nat.one_lt_two
          (aligned rfl)
  | stat =>
      simp only [complete, onStat]
      repeat' split
      · exact detects_finish _ _ same
      · exact detects_finish _ _ same
      · apply detects_begin
        · exact ⟨rfl, rfl, rfl, rfl, rfl, rfl, Nat.le_succ _, id⟩
        · exact Nat.one_lt_two
        · simp only [setupCache, sectorSize, sectorMask] at *
          omega
  | readBlock request size => exact absurd detects Bool.false_ne_true
  | decompress actualBuf source offset isLz4 =>
      exact absurd detects Bool.false_ne_true

end Input

namespace Reader

/-- `pos_` counts the delivered sectors and stays inside the image. -/
structure OnTrack (core : Reader) (phase : Phase) : Prop where
  pos : core.input.pos + phase.lag = sectorSize * core.delivered.length
  bounded : sectorSize * core.delivered.length ≤ core.input.size.toNat
  reported : core.finished.length = phase.reports
  fresh : phase.detecting = true → core.delivered = []
  aligned : phase.sized = true → core.input.size % sectorSize = 0
  inside : phase.atSector = true → core.input.pos < core.input.size
  blockSize : core.input.csoBlockSize ≤ maxBlockSize
  block : phase.blockInside core.input.pos core.input.size

/-- Between two sectors `pos_` is the position of a sector. -/
theorem OnTrack.sectorPos
    {core : Reader} {phase : Phase} (track : OnTrack core phase)
    (settled : phase.lag = 0) :
    0 ≤ core.input.pos ∧ core.input.pos % sectorSize = 0 := by
  have pos := track.pos
  simp only [settled, sectorSize] at *
  omega

/-- A sector inside the image can be delivered. -/
theorem OnTrack.deliver
    {core : Reader} {phase : Phase} (track : OnTrack core phase)
    (settled : phase.lag = 0) (sized : phase.sized = true)
    (inside : core.input.pos < core.input.size) (pos : Int)
    (sector : Buffer) (supplied : Nat) :
    let delivered := (core.deliver pos sector supplied).delivered
    core.input.pos + sectorSize = sectorSize * delivered.length ∧
      sectorSize * delivered.length ≤ core.input.size.toNat := by
  have now := track.pos
  have aligned := track.aligned sized
  simp only [Reader.deliver, List.length_append, List.length_singleton,
    settled, sectorSize] at *
  omega

theorem OnTrack.advance
    {core : Reader} {phase : Phase} (track : OnTrack core phase)
    (behind : phase.lag = sectorSize) :
    core.advance.input.pos + 0 =
      sectorSize * core.advance.delivered.length := by
  have now := track.pos
  simp only [Reader.advance, behind, sectorSize] at *
  omega

theorem detected_frame
    (env : Environment) {core : Reader} {request : InputRequest}
    (detects : request.detects = true)
    (aligned : (Phase.waiting request).sized = true →
      core.input.size % sectorSize = 0) :
    core.input.Detects (Phase.waiting request).stage
      (core.detected env request) := by
  have raw := @Input.complete_detects env (core.enter .stopped).input rfl
    core.pool request detects aligned
  have spares := raw.spares
  exact ⟨⟨spares.pos, spares.paused, spares.cache, spares.fetches,
    spares.works, spares.cacheFills, spares.reads, spares.blockSize⟩, raw.phase⟩

theorem OnTrack.detect
    {env : Environment} {core : Reader} {request : InputRequest}
    (track : OnTrack core (.waiting request))
    (detects : request.detects = true) :
    OnTrack
      { core with
        input := (core.detected env request).input
        pool := (core.detected env request).pool }
      (core.detected env request).phase := by
  have frame := detected_frame env detects track.aligned
  have none := track.fresh detects
  have posZero : core.input.pos = 0 := by
    have pos := track.pos
    simp only [none, List.length_nil, Phase.lag] at pos
    omega
  have start : (core.detected env request).input.pos = 0 :=
    frame.spares.pos.trans posZero
  have lagZero : (core.detected env request).phase.lag = 0 := by
    rcases frame.phase with ⟨reason, finishing⟩ | ⟨detecting, _⟩
    · rw [finishing]
      rfl
    · exact Phase.lag_of_detecting detecting
  have reportsZero : (core.detected env request).phase.reports = 0 := by
    rcases frame.phase with ⟨reason, finishing⟩ | ⟨detecting, _⟩
    · rw [finishing]
      rfl
    · exact Phase.reports_of_detecting detecting
  refine ⟨?_, ?_, ?_, fun _ => none, ?_, ?_, ?_, ?_⟩
  · rw [lagZero, start, none]
    rfl
  · rw [none]
    exact Nat.zero_le _
  · rw [reportsZero]
    exact track.reported
  all_goals
    rcases frame.phase with ⟨reason, finishing⟩ | ⟨detecting, _, sized⟩
  · rw [finishing]
    exact nofun
  · exact sized
  · rw [finishing]
    exact nofun
  · intro atSector
    exact absurd atSector (Phase.not_atSector_of_detecting detecting)
  · exact frame.spares.blockSize track.blockSize
  · exact frame.spares.blockSize track.blockSize
  · rw [finishing]
    trivial
  · exact Phase.blockInside_of_detecting detecting _ _

theorem OnTrack.use
    {env : Environment} {core : Reader} {request : Request}
    {data : Bytes}
    (track : OnTrack core .reading)
    (more : core.input.pos < core.input.size)
    (offset : sectorSize ∣ request.offset ∧
      (request.offset : Int) ≤ core.input.pos) :
    OnTrack (core.afterUse env request data)
      (core.usePhase env request data) := by
  unfold usePhase
  split
  · exact ⟨track.pos, track.bounded, track.reported, nofun,
      fun _ => track.aligned rfl, fun _ => more, track.blockSize, trivial⟩
  · exact ⟨track.pos, track.bounded, track.reported, nofun,
      fun _ => track.aligned rfl, fun _ => more,
      track.blockSize, offset⟩

/-- What is passed on of a block ends inside the image. -/
theorem trimmedSize_inside
    {input : Input} {offset : Nat} (inside : input.pos < input.size)
    (supplied : Nat) :
    input.pos - offset + input.trimmedSize offset supplied ≤
      input.size := by
  unfold Input.trimmedSize
  dsimp only
  split
  · have trimmed := @toUint32_le (input.size - (input.pos - offset))
      (by omega)
    omega
  · omega

/-- Every move keeps the reader on track. -/
theorem OnTrack.move
    {policy : Input.FetchPolicy} {env : Environment} {core core' : Reader}
    {phase phase' : Phase} {event : ReaderEvent}
    (track : OnTrack core phase)
    (move : Move policy env core phase event core' phase') :
    OnTrack core' phase' := by
  have pos := track.pos
  have bounded := track.bounded
  cases move with
  | pause | resume | otherPool =>
      exact ⟨pos, bounded, track.reported, track.fresh, track.aligned, track.inside,
        track.blockSize, track.block⟩
  | unpark =>
      exact ⟨pos, bounded, track.reported, nofun, fun _ => track.aligned rfl, nofun,
        track.blockSize, trivial⟩
  | detect request detects => exact track.detect detects
  | begin =>
      exact ⟨pos, bounded, track.reported, nofun, fun _ => track.aligned rfl, nofun,
        track.blockSize, trivial⟩
  | finish =>
      refine ⟨pos, bounded, ?_, nofun, nofun, nofun, track.blockSize,
        trivial⟩
      have reported := track.reported
      simp only [Phase.reports, List.length_append,
        List.length_singleton] at *
      omega
  | atEnd | blockMissing | blockShort | workFailed
  | workRejected =>
      exact ⟨pos, bounded, track.reported, nofun, nofun, nofun,
        track.blockSize, trivial⟩
  | park more =>
      exact ⟨pos, bounded, track.reported, nofun, fun _ => track.aligned rfl,
        fun _ => more, track.blockSize, trivial⟩
  | use data more =>
      have sector := track.sectorPos rfl
      exact track.use more (Input.request_offset sector.1 sector.2)
  | ask cachePos size more =>
      have sector := track.sectorPos rfl
      exact ⟨pos, bounded, track.reported, nofun, fun _ => track.aligned rfl,
        fun _ => more, track.blockSize,
        Input.request_offset sector.1 sector.2⟩
  | blockRead request size data =>
      have again : OnTrack (core.afterRead data) .reading :=
        ⟨pos, bounded, track.reported, nofun, fun _ => track.aligned rfl, nofun,
          track.blockSize, trivial⟩
      exact again.use (track.inside rfl) track.block
  | decompressed actualBuf source offset =>
      exact ⟨pos, bounded, track.reported, nofun, fun _ => track.aligned rfl, nofun,
        track.blockSize, track.block.1, trimmedSize_inside (track.inside rfl) _⟩
  | rawCallback sectorPos sector supplied =>
      have delivered := track.deliver rfl rfl (track.inside rfl) sectorPos
        sector supplied
      exact ⟨delivered.1, delivered.2, track.reported, nofun,
        fun _ => track.aligned rfl,
        fun _ => track.inside rfl, track.blockSize, trivial⟩
  | rawDelivered =>
      exact ⟨track.advance rfl, bounded, track.reported, nofun,
        fun _ => track.aligned rfl, nofun, track.blockSize, trivial⟩
  | subBlock block more =>
      have inside := track.block.2
      refine ⟨pos, bounded, track.reported, nofun, fun _ => track.aligned rfl,
        fun _ => ?_,
        track.blockSize, track.block.1, more, inside⟩
      dsimp only at *
      omega
  | loopDone =>
      exact ⟨pos, bounded, track.reported, nofun, fun _ => track.aligned rfl, nofun,
        track.blockSize, trivial⟩
  | subCallback sectorPos sector supplied block =>
      have delivered := track.deliver rfl rfl (track.inside rfl) sectorPos
        sector supplied
      exact ⟨delivered.1, delivered.2, track.reported, nofun,
        fun _ => track.aligned rfl,
        fun _ => track.inside rfl, track.blockSize, track.block.1,
        track.block.2.2⟩
  | bail =>
      exact ⟨track.advance rfl, bounded, track.reported, nofun,
        fun _ => track.aligned rfl, nofun, track.blockSize, trivial⟩
  | nextSub block =>
      have aligned := track.block.1
      have inside := track.block.2
      refine ⟨track.advance rfl, bounded, track.reported, nofun,
        fun _ => track.aligned rfl, nofun,
        track.blockSize, ?_, ?_⟩
      · exact Nat.dvd_add aligned (Nat.dvd_refl _)
      · simp only [Reader.advance, sectorSize, Nat.cast_add] at *
        omega

/-- The phase in which `Pipe` leaves the reader. -/
def startPhase (env : Environment) (pool : BufferPool) : Phase :=
  .waiting (.readHeader (pool.alloc env.heap).1)

theorem onTrack_start (env : Environment) (pool : BufferPool) :
    OnTrack (start env pool) (startPhase env pool) :=
  ⟨rfl, Nat.zero_le _, rfl, fun _ => rfl, nofun, nofun, Nat.zero_le _, trivial⟩

/-- The situation of a reader that has been driven by events. -/
structure Situated (target core : Reader) (phase : Phase) : Prop where
  enter : target = core.enter phase
  known : phase.knowsFormat = true → core.input.fileType ≠ .unknown
  track : OnTrack core phase

theorem situated_start (env : Environment) (pool : BufferPool) :
    Situated (start env pool) (start env pool) (startPhase env pool) :=
  ⟨rfl, nofun, onTrack_start env pool⟩

/-- What the moves preserve holds along every run. -/
theorem track_moves
    {policy : Input.FetchPolicy} {env : Environment}
    {allowed : Reader → ReaderEvent → Prop}
    {property : List ReaderEvent → Reader → Phase → Prop}
    (preserved : ∀ events core phase event core' phase',
      property events core phase → OnTrack core phase →
        allowed (core.enter phase) event →
          Move policy env core phase event core' phase' →
            property (events ++ [event]) core' phase')
    {source core : Reader} {phase : Phase}
    (situated : Situated source core phase)
    {events : List ReaderEvent} {target : Reader}
    (run : Execution (step policy env) allowed source events target)
    (initially : property [] core phase) :
    ∃ core' phase',
      Situated target core' phase' ∧ property events core' phase' := by
  refine @Execution.track Reader ReaderEvent (step policy env) allowed
    (fun events target => ∃ core phase,
      Situated target core phase ∧ property events core phase)
    ?_ source target events run ⟨core, phase, situated, initially⟩
  rintro events _ event target ⟨core, phase, ⟨rfl, known, track⟩, holds⟩
    permitted taken
  obtain ⟨core', phase', move, rfl, known'⟩ := move_of_step known taken
  exact ⟨core', phase', ⟨rfl, known', track.move move⟩,
    preserved events core phase event core' phase' holds track permitted
      move⟩

end Reader

end Maxcso
