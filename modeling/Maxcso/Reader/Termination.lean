import Maxcso.Reader.Supply

/-!
# The reader terminates

As long as every decompressed block reaches the sector it was decompressed
for, each decompression and each raw block is followed by a delivery, and the
number of steps is bounded by the size of the image and the number of calls
of `Resume`.
-/

namespace Maxcso

open Transition

namespace ReaderEvent

/-- One for each step by which the reader itself goes on. -/
def cost : ReaderEvent → Nat
  | run | complete _ => 1
  | _ => 0

/-- Being resumed allows for two more steps. -/
def credit : ReaderEvent → Nat
  | resume => 2
  | _ => 0

end ReaderEvent

/-- How many steps the reader can still take without being resumed, when so
many sectors are left. -/
def Phase.potential (remaining : Nat) : Phase → Nat
  | waiting (.readHeader _) => 4
  | waiting (.decompress ..) => 8 * remaining
  | waiting (.readBlock ..) => 8 * remaining + 1
  | waiting _ => 3
  | stopped => 0
  | finishing .. => 1
  | beginning _ => 8 * remaining + 3
  | reading => 8 * remaining + 2
  | parked => 8 * remaining
  | rawCallback .. | subCallback .. => 8 * remaining - 2
  | rawDelivered | subDelivered _ => 8 * remaining - 3
  | looping block =>
      if block.suboffset < block.resultSize then 8 * remaining - 1
      else 8 * remaining + 3

namespace Reader

/-- A decompression that completes reaches beyond the offset of the wanted
sector. -/
def Reaches (env : Environment) (reader : Reader) : ReaderEvent → Prop
  | .complete position =>
      ∀ actualBuf source offset isLz4 data,
        reader.input.inFlight[position]? =
            some (.decompress actualBuf source offset isLz4) →
          reader.input.decompressWork env reader.pool source isLz4 =
              .ok data →
            offset < data.length
  | _ => True

/-- The sectors from `pos_` on. -/
def remaining (core : Reader) : Nat :=
  ((core.input.size - core.input.pos) / sectorSize).toNat

theorem OnTrack.remaining_pos
    {core : Reader} {phase : Phase} (track : OnTrack core phase)
    (sized : phase.sized = true)
    (inside : core.input.pos < core.input.size) :
    1 ≤ core.remaining := by
  have pos := track.pos
  have aligned := track.aligned sized
  have lag : phase.lag = 0 ∨ phase.lag = sectorSize := by
    cases phase <;> first | exact Or.inl rfl | exact Or.inr rfl
  simp only [remaining, sectorSize] at *
  rcases lag with lag | lag
  · omega
  · omega

theorem remaining_advance
    {core : Reader} (more : 1 ≤ core.remaining) :
    core.advance.remaining + 1 = core.remaining := by
  simp only [remaining, advance, sectorSize] at *
  omega

theorem trimmedSize_reaches
    {core : Reader} {phase : Phase} (track : OnTrack core phase)
    {offset : Nat} {data : Bytes}
    (inside : core.input.pos < core.input.size)
    (accepted : data.length ≤ core.input.csoBlockSize)
    (reaches : offset < data.length) :
    offset < core.input.trimmedSize offset data.length := by
  have blockSize := track.blockSize
  simp only [Input.trimmedSize, toUint32, maxBlockSize] at *
  split <;> omega

theorem rejection_none
    {env : Environment} {input : Input} {data : Bytes}
    (accepted : input.rejection env data = none) :
    data.length ≤ input.csoBlockSize := by
  simp only [Input.rejection] at accepted
  split at accepted
  · exact nomatch accepted
  · split at accepted
    · exact nomatch accepted
    · omega

theorem potential_usePhase
    (env : Environment) (core : Reader) (request : Request) (data : Bytes)
    (remaining : Nat) :
    (core.usePhase env request data).potential remaining ≤
      8 * remaining := by
  unfold usePhase
  split
  · exact Nat.sub_le _ _
  · exact Nat.le_refl _

/-- What a step of the reader costs is paid by the potential. -/
theorem potential_move
    {policy : Input.FetchPolicy} {env : Environment} {core core' : Reader}
    {phase phase' : Phase} {event : ReaderEvent}
    (track : OnTrack core phase)
    (reaches : (core.enter phase).Reaches env event)
    (late : 2 ≤ phase.stage)
    (move : Move policy env core phase event core' phase') :
    event.cost + phase'.potential core'.remaining ≤
      phase.potential core.remaining + event.credit := by
  cases move with
  | pause | otherPool => exact Nat.le_of_eq (Nat.zero_add _)
  | resume =>
      show 0 + phase.potential core.remaining ≤
        phase.potential core.remaining + 2
      omega
  | unpark =>
      show 0 + (8 * core.remaining + 2) ≤ 8 * core.remaining + 2
      omega
  | detect request detects =>
      cases request with
      | readHeader | readIndex | readTables | stat =>
          simp [Phase.stage] at late
      | readBlock | decompress => exact nomatch detects
  | begin =>
      show 1 + (8 * core.remaining + 2) ≤ 8 * core.remaining + 3 + 0
      omega
  | finish => exact Nat.le_refl _
  | atEnd =>
      show 1 + 1 ≤ 8 * core.remaining + 2 + 0
      omega
  | park =>
      show 1 + 8 * core.remaining ≤ 8 * core.remaining + 2 + 0
      omega
  | use data =>
      have used := potential_usePhase env core core.input.request data
        core.remaining
      show 1 + (core.usePhase env core.input.request data).potential
        core.remaining ≤ 8 * core.remaining + 2 + 0
      omega
  | ask =>
      show 1 + (8 * core.remaining + 1) ≤ 8 * core.remaining + 2 + 0
      omega
  | blockMissing | blockShort =>
      have left := track.remaining_pos rfl (track.inside rfl)
      show 1 + 1 ≤ 8 * core.remaining + 1 + 0
      omega
  | blockRead request size data =>
      have used := potential_usePhase env (core.afterRead data) request
        (data.take request.len) core.remaining
      show 1 + ((core.afterRead data).usePhase env request
        (data.take request.len)).potential core.remaining ≤
          8 * core.remaining + 1 + 0
      omega
  | workFailed | workRejected =>
      have left := track.remaining_pos rfl (track.inside rfl)
      show 1 + 1 ≤ 8 * core.remaining + 0
      omega
  | decompressed actualBuf source offset isLz4 data worked accepted =>
      have left := track.remaining_pos rfl (track.inside rfl)
      have more := trimmedSize_reaches track (track.inside rfl)
        (rejection_none accepted)
        (reaches actualBuf source offset isLz4 data rfl worked)
      show 1 + (if offset < core.input.trimmedSize offset data.length
        then 8 * core.remaining - 1 else 8 * core.remaining + 3) ≤
          8 * core.remaining + 0
      rw [if_pos more]
      omega
  | rawCallback =>
      have left := track.remaining_pos rfl (track.inside rfl)
      show 1 + (8 * core.remaining - 3) ≤ 8 * core.remaining - 2 + 0
      omega
  | rawDelivered =>
      have left := track.remaining_pos rfl (track.inside rfl)
      have advanced := remaining_advance left
      show 1 + (8 * core.advance.remaining + 2) ≤ 8 * core.remaining - 3 + 0
      omega
  | subBlock block more =>
      have inside : core.input.pos < core.input.size := by
        have block := track.block.2
        omega
      have left := track.remaining_pos rfl inside
      show 1 + (8 * core.remaining - 2) ≤
        (if block.suboffset < block.resultSize then 8 * core.remaining - 1
          else 8 * core.remaining + 3) + 0
      rw [if_pos more]
      omega
  | loopDone block done =>
      show 1 + (8 * core.remaining + 2) ≤
        (if block.suboffset < block.resultSize then 8 * core.remaining - 1
          else 8 * core.remaining + 3) + 0
      rw [if_neg (by omega)]
      omega
  | subCallback =>
      have left := track.remaining_pos rfl (track.inside rfl)
      show 1 + (8 * core.remaining - 3) ≤ 8 * core.remaining - 2 + 0
      omega
  | bail =>
      have left := track.remaining_pos rfl (track.inside rfl)
      have advanced := remaining_advance left
      show 1 + (8 * core.advance.remaining + 2) ≤ 8 * core.remaining - 3 + 0
      omega
  | nextSub block =>
      have left := track.remaining_pos rfl (track.inside rfl)
      have advanced := remaining_advance left
      have bound :
          (Phase.looping { block with
            suboffset := block.suboffset + sectorSize }).potential
              core.advance.remaining ≤ 8 * core.advance.remaining + 3 := by
        simp only [Phase.potential]
        split <;> omega
      show 1 + (Phase.looping { block with
        suboffset := block.suboffset + sectorSize }).potential
          core.advance.remaining ≤ 8 * core.remaining - 3 + 0
      omega

theorem stage_usePhase
    (env : Environment) (core : Reader) (request : Request) (data : Bytes) :
    (core.usePhase env request data).stage = 3 := by
  unfold usePhase
  split <;> rfl

/-- Past the detection, the stage does not go back and the size stays. -/
theorem late_move
    {policy : Input.FetchPolicy} {env : Environment} {core core' : Reader}
    {phase phase' : Phase} {event : ReaderEvent}
    (late : 2 ≤ phase.stage)
    (move : Move policy env core phase event core' phase') :
    phase.stage ≤ phase'.stage ∧ core'.input.size = core.input.size := by
  cases move with
  | pause | resume | otherPool => exact ⟨Nat.le_refl _, rfl⟩
  | detect request detects =>
      cases request with
      | readHeader | readIndex | readTables | stat =>
          simp [Phase.stage] at late
      | readBlock | decompress => exact nomatch detects
  | use | blockRead =>
      rw [stage_usePhase]
      exact ⟨Nat.le_refl _, rfl⟩
  | begin => exact ⟨Nat.le_succ _, rfl⟩
  | _ => exact ⟨Nat.le_refl _, rfl⟩

/-- The number of steps so far and the potential together are bounded. -/
def InBudget (events : List ReaderEvent) (size : Int) (remaining : Nat)
    (phase : Phase) : Prop :=
  (events.map ReaderEvent.cost).sum + phase.potential remaining ≤
    (if phase.stage < 2 then 4 else 8 * (size.toNat / sectorSize) + 5) +
      (events.map ReaderEvent.credit).sum

theorem inBudget_free
    {events : List ReaderEvent} {size : Int} {remaining : Nat}
    {phase : Phase} (budget : InBudget events size remaining phase)
    {event : ReaderEvent} (free : event.cost = 0) :
    InBudget (events ++ [event]) size remaining phase := by
  simp only [InBudget, List.map_append, List.sum_append, List.map_cons,
    List.map_nil, List.sum_cons, List.sum_nil, free] at *
  omega

theorem potential_of_detects
    {request : InputRequest} (detects : request.detects = true)
    (remaining : Nat) :
    (Phase.waiting request).stage < 2 ∧
      (Phase.waiting request).potential remaining +
        (Phase.waiting request).stage = 4 := by
  cases request with
  | readHeader | readIndex | readTables | stat =>
      simp [Phase.stage, Phase.potential]
  | readBlock | decompress => exact nomatch detects

theorem inBudget_detect
    {env : Environment} {core : Reader} {request : InputRequest}
    {events : List ReaderEvent}
    (budget : InBudget events core.input.size core.remaining
      (.waiting request))
    (track : OnTrack core (.waiting request))
    (detects : request.detects = true) {detected : Reader}
    (same : detected.input = (core.detected env request).input) :
    InBudget (events ++ [.complete 0]) detected.input.size
      detected.remaining (core.detected env request).phase := by
  have frame := detected_frame env detects track.aligned
  have posZero : detected.input.pos = 0 := by
    have pos := track.pos
    rw [track.fresh detects] at pos
    rw [same, frame.spares.pos]
    simpa [Phase.lag] using pos
  have before := potential_of_detects detects core.remaining
  simp only [InBudget, List.map_append, List.sum_append, List.map_cons,
    List.map_nil, List.sum_cons, List.sum_nil, ReaderEvent.cost,
    ReaderEvent.credit] at *
  rw [if_pos before.1] at budget
  rcases frame.phase with ⟨reason, finishing⟩ | ⟨detecting, later, _⟩
  · rw [finishing]
    simp only [Phase.potential, Phase.stage, Nat.reduceLT, if_false]
    omega
  · generalize (core.detected env request).phase = phase' at *
    cases phase' with
    | waiting request' =>
        have after :=
          @potential_of_detects request' detecting detected.remaining
        rw [if_pos after.1]
        omega
    | beginning size =>
        simp only [Phase.potential, Phase.stage, remaining, posZero,
          Nat.lt_irrefl, if_false, sectorSize] at *
        omega
    | _ => cases detecting

theorem inBudget_move
    {policy : Input.FetchPolicy} {env : Environment} {core core' : Reader}
    {phase phase' : Phase} {event : ReaderEvent}
    {events : List ReaderEvent}
    (budget : InBudget events core.input.size core.remaining phase)
    (track : OnTrack core phase)
    (reaches : (core.enter phase).Reaches env event)
    (move : Move policy env core phase event core' phase') :
    InBudget (events ++ [event]) core'.input.size core'.remaining
      phase' := by
  by_cases late : 2 ≤ phase.stage
  · have paid := potential_move track reaches late move
    have still := late_move late move
    simp only [InBudget, List.map_append, List.sum_append, List.map_cons,
      List.map_nil, List.sum_cons, List.sum_nil, still.2] at *
    rw [if_neg (by omega)] at *
    omega
  · cases move with
    | detect request detects =>
        exact inBudget_detect budget track detects rfl
    | pause | otherPool | resume => exact inBudget_free budget rfl
    | _ => simp [Phase.stage] at late

/-! ## Every use of data is followed by a delivery -/

end Reader

namespace Phase

/-- The phases in which data has been used and not yet delivered. -/
def owes : Phase → Nat
  | waiting (.decompress ..) | rawCallback .. | subCallback ..
  | finishing .. | stopped => 1
  | looping block => if block.suboffset < block.resultSize then 1 else 0
  | _ => 0

def decompressing : Phase → Nat
  | waiting (.decompress ..) => 1
  | _ => 0

/-- The reads of which nothing has been used. -/
def unusedReads : Phase → Nat
  | waiting (.readHeader _) => 0
  | waiting (.readIndex _) | waiting (.readTables ..) | waiting .stat => 1
  | finishing .. | stopped => 3
  | _ => 2

theorem owes_le (phase : Phase) : phase.owes ≤ 1 := by
  unfold owes
  split
  all_goals first | omega | (split <;> omega)

theorem unusedReads_le (phase : Phase) : phase.unusedReads ≤ 3 := by
  unfold unusedReads
  split <;> omega

theorem counts_of_detecting
    {phase : Phase} (detecting : phase.detecting = true) :
    phase.unusedReads = phase.stage ∧ phase.stage ≤ 2 ∧ phase.owes = 0 ∧
      phase.decompressing = 0 := by
  cases phase with
  | waiting request =>
      cases request with
      | readHeader | readIndex | readTables | stat =>
          simp [stage, unusedReads, owes, decompressing]
      | readBlock | decompress => exact nomatch detecting
  | beginning => simp [stage, unusedReads, owes, decompressing]
  | _ => exact nomatch detecting

end Phase

namespace Reader

/-- Deliveries keep up with decompressions and reads. -/
structure KeepsUp (core : Reader) (phase : Phase) : Prop where
  works : core.input.works + phase.decompressing ≤ core.input.fetches.length
  reads : core.input.reads ≤ core.input.fetches.length + phase.unusedReads
  fetches : core.input.fetches.length ≤ core.delivered.length + phase.owes

theorem KeepsUp.detect
    {env : Environment} {core : Reader} {request : InputRequest}
    (keeps : KeepsUp core (.waiting request))
    (aligned : (Phase.waiting request).sized = true →
      core.input.size % sectorSize = 0)
    (detects : request.detects = true) :
    KeepsUp
      { core with
        input := (core.detected env request).input
        pool := (core.detected env request).pool }
      (core.detected env request).phase := by
  have frame := detected_frame env detects aligned
  have reads := frame.spares.reads
  have works := frame.spares.works
  have fetches := frame.spares.fetches
  obtain ⟨worksBefore, readsBefore, fetchesBefore⟩ := keeps
  have early := Phase.counts_of_detecting
    (show (Phase.waiting request).detecting = true from detects)
  have after :
      (Phase.waiting request).stage <
          (core.detected env request).phase.unusedReads ∧
        (core.detected env request).phase.decompressing = 0 := by
    rcases frame.phase with ⟨reason, finishing⟩ | ⟨detecting, later, _⟩
    · rw [finishing]
      exact ⟨Nat.lt_succ_of_le early.2.1, rfl⟩
    · have counts := Phase.counts_of_detecting detecting
      rw [counts.1]
      exact ⟨later, counts.2.2.2⟩
  constructor
  · simp only [works, fetches, after.2]
    omega
  · simp only [fetches]
    omega
  · simp only [fetches]
    omega

theorem KeepsUp.use
    {env : Environment} {core : Reader} {request : Request} {data : Bytes}
    (works : core.input.works ≤ core.input.fetches.length)
    (reads : core.input.reads ≤ core.input.fetches.length + 3)
    (fetches : core.input.fetches.length ≤ core.delivered.length) :
    KeepsUp (core.afterUse env request data)
      (core.usePhase env request data) := by
  unfold usePhase
  split
  all_goals
    constructor
    all_goals
      simp only [afterUse, Phase.decompressing, Phase.unusedReads,
        Phase.owes, List.length_append, List.length_singleton]
      omega

theorem KeepsUp.move
    {policy : Input.FetchPolicy} {env : Environment} {core core' : Reader}
    {phase phase' : Phase} {event : ReaderEvent}
    (keeps : KeepsUp core phase) (track : OnTrack core phase)
    (reaches : (core.enter phase).Reaches env event)
    (move : Move policy env core phase event core' phase') :
    KeepsUp core' phase' := by
  have works := keeps.works
  have reads := keeps.reads
  have fetches := keeps.fetches
  cases move with
  | pause | resume | otherPool => exact ⟨works, reads, fetches⟩
  | detect request detects => exact keeps.detect track.aligned detects
  | use => exact KeepsUp.use works (by exact Nat.le_succ_of_le reads) fetches
  | blockRead request size data =>
      exact @KeepsUp.use env (core.afterRead data) request
        (data.take request.len) works (Nat.succ_le_succ reads) fetches
  | decompressed actualBuf source offset isLz4 data worked accepted =>
      have more := trimmedSize_reaches track (track.inside rfl)
        (rejection_none accepted)
        (reaches actualBuf source offset isLz4 data rfl worked)
      refine ⟨works, reads, ?_⟩
      simp only [Phase.owes]
      rw [if_pos more]
      exact fetches
  | subBlock block more =>
      refine ⟨works, reads, ?_⟩
      simp only [Phase.owes] at fetches
      rw [if_pos more] at fetches
      exact fetches
  | loopDone block done =>
      refine ⟨works, reads, ?_⟩
      simp only [Phase.owes] at fetches
      rw [if_neg (by omega)] at fetches
      exact fetches
  | rawCallback | subCallback =>
      refine ⟨works, reads, ?_⟩
      simp only [deliver, List.length_append, List.length_singleton]
      exact fetches
  | nextSub =>
      refine ⟨works, reads, ?_⟩
      exact fetches.trans (Nat.le_add_right _ _)
  | atEnd =>
      exact ⟨works, Nat.le_succ_of_le reads, Nat.le_succ_of_le fetches⟩
  | blockMissing | blockShort =>
      exact ⟨works, Nat.succ_le_succ reads, Nat.le_succ_of_le fetches⟩
  | workFailed | workRejected =>
      exact ⟨works, Nat.le_succ_of_le reads, fetches⟩
  | _ => exact ⟨works, reads, fetches⟩

/-- The reader has left a sector behind, or is about to deliver it. -/
def Ahead (sectorPos : Int) (core : Reader) (phase : Phase) : Prop :=
  phase.stage = 3 ∧
    match phase with
    | .stopped | .finishing .. => True
    | .rawCallback .. | .rawDelivered | .subCallback .. | .subDelivered _ =>
        sectorPos ≤ core.input.pos
    | .looping block =>
        sectorPos ≤ core.input.pos ∧
          (block.suboffset < block.resultSize ∨
            sectorPos + sectorSize ≤ core.input.pos)
    | _ => sectorPos + sectorSize ≤ core.input.pos

theorem Ahead.use
    {env : Environment} {core : Reader} {sectorPos : Int}
    (there : sectorPos + sectorSize ≤ core.input.pos) (request : Request)
    (data : Bytes) :
    Ahead sectorPos (core.afterUse env request data)
      (core.usePhase env request data) := by
  cases raw : request.raw with
  | true =>
      rw [usePhase_raw env core raw]
      refine ⟨rfl, ?_⟩
      show sectorPos ≤ core.input.pos
      simp only [sectorSize] at there
      omega
  | false =>
      rw [usePhase_compressed env core raw]
      exact ⟨rfl, there⟩

theorem Ahead.move
    {policy : Input.FetchPolicy} {env : Environment} {core core' : Reader}
    {phase phase' : Phase} {event : ReaderEvent} {sectorPos : Int}
    (ahead : Ahead sectorPos core phase)
    (move : Move policy env core phase event core' phase') :
    Ahead sectorPos core' phase' := by
  obtain ⟨late, there⟩ := ahead
  cases move with
  | pause | resume | otherPool => exact ⟨late, there⟩
  | detect request detects =>
      cases request with
      | readHeader | readIndex | readTables | stat =>
          simp [Phase.stage] at late
      | readBlock | decompress => exact nomatch detects
  | begin => simp [Phase.stage] at late
  | finish | atEnd | blockMissing | blockShort | workFailed
  | workRejected =>
      exact ⟨rfl, trivial⟩
  | unpark | park | ask => exact ⟨rfl, there⟩
  | use data => exact Ahead.use there _ _
  | blockRead request size data =>
      exact @Ahead.use env (core.afterRead data) sectorPos there _ _
  | decompressed =>
      refine ⟨rfl, ?_, Or.inr there⟩
      have before : sectorPos + sectorSize ≤ core.input.pos := there
      show sectorPos ≤ core.input.pos
      omega
  | rawCallback | subCallback => exact ⟨rfl, there⟩
  | rawDelivered | bail =>
      exact ⟨rfl, Int.add_le_add_right there _⟩
  | subBlock => exact ⟨rfl, there.1⟩
  | loopDone block done =>
      exact ⟨rfl, there.2.resolve_left (Nat.not_lt.mpr done)⟩
  | nextSub =>
      have advanced : sectorPos + sectorSize ≤ core.advance.input.pos :=
        Int.add_le_add_right there _
      exact ⟨rfl, by simp only [sectorSize] at advanced; omega,
        Or.inr advanced⟩

/-- A decompression has come back, or raw data is about to be delivered. -/
def Processes (source next : Reader) : Prop :=
  next.input.works = source.input.works + 1 ∨
    ∃ fetch : Fetch, fetch.request.raw = true ∧
      next.input.fetches = source.input.fetches ++ [fetch]

theorem not_processes
    {source next : Reader} (works : next.input.works = source.input.works)
    (fetches : next.input.fetches = source.input.fetches) :
    ¬ source.Processes next := by
  rintro (worked | ⟨fetch, _, fetched⟩)
  · omega
  · rw [fetches] at fetched
    have lengths := congrArg List.length fetched
    simp at lengths

theorem ahead_of_used
    {env : Environment} {source core : Reader} {request : Request}
    {data : Bytes} (works : core.input.works = source.input.works)
    (fetches : core.input.fetches = source.input.fetches)
    {phase : Phase}
    (processes :
      source.Processes ((core.afterUse env request data).enter phase)) :
    Ahead core.input.pos (core.afterUse env request data)
      (core.usePhase env request data) := by
  rcases processes with worked | ⟨fetch, raw, fetched⟩
  · have same :
        ((core.afterUse env request data).enter phase).input.works =
          source.input.works := works
    omega
  · have appended :
        core.input.fetches ++ [⟨request, data⟩] =
          source.input.fetches ++ [fetch] := fetched
    rw [fetches] at appended
    obtain rfl := List.singleton_injective
      (List.append_cancel_left appended)
    rw [usePhase_raw env core raw]
    exact ⟨rfl, Int.le_refl _⟩

theorem ahead_of_processes
    {policy : Input.FetchPolicy} {env : Environment} {core core' : Reader}
    {phase phase' : Phase} {event : ReaderEvent}
    (track : OnTrack core phase)
    (reaches : (core.enter phase).Reaches env event)
    (move : Move policy env core phase event core' phase')
    (processes : (core.enter phase).Processes (core'.enter phase')) :
    Ahead core.input.pos core' phase' := by
  cases move with
  | workFailed | workRejected => exact ⟨rfl, trivial⟩
  | decompressed actualBuf source offset isLz4 data worked accepted =>
      have more := trimmedSize_reaches track (track.inside rfl)
        (rejection_none accepted)
        (reaches actualBuf source offset isLz4 data rfl worked)
      exact ⟨rfl, Int.le_refl _, Or.inl more⟩
  | use data => exact ahead_of_used rfl rfl processes
  | blockRead request size data =>
      exact @ahead_of_used env (core.enter _) (core.afterRead data) _ _ rfl
        rfl _ processes
  | detect request detects =>
      have frame := detected_frame env detects track.aligned
      exact absurd processes
        (not_processes frame.spares.works frame.spares.fetches)
  | _ => exact absurd processes (not_processes rfl rfl)

/-- Whatever the file, the environment and the pattern of pauses: in a run
that stays inside its memory and in which every decompressed block reaches the
sector it was decompressed for, deliveries, reads, decompressions and steps
are bounded, and after a block has been processed the run has finished or
`pos_` has advanced by a sector when the reader comes to rest. -/
theorem terminates
    (policy : Input.FetchPolicy) (env : Environment) (pool : BufferPool)
    {events : List ReaderEvent} {target : Reader}
    (run : Execution (step policy env)
      (Both (Reaches env) (StaysInside policy env)) (start env pool)
      events target) :
    sectorSize * target.delivered.length ≤ target.input.size.toNat ∧
      target.input.works ≤ target.delivered.length + 1 ∧
      target.input.reads ≤ target.delivered.length + 4 ∧
      (events.map ReaderEvent.cost).sum ≤
        8 * (target.input.size.toNat / sectorSize) + 5 +
          (events.map ReaderEvent.credit).sum ∧
      ∀ event next later final,
        Both (Reaches env) (StaysInside policy env) target event →
        step policy env target event = some next →
        target.Processes next →
        Execution (step policy env)
          (Both (Reaches env) (StaysInside policy env)) next later final →
        final.calls = [] →
          final.finished ≠ [] ∨
            target.input.pos + sectorSize ≤ final.input.pos := by
  obtain ⟨core, phase, situated, budget, keeps⟩ :=
    @track_moves policy env (Reaches env)
      (fun events core phase =>
        InBudget events core.input.size core.remaining phase ∧
          KeepsUp core phase)
      (fun events core phase event core' phase' holds track reaches move =>
        ⟨inBudget_move holds.1 track reaches move,
          holds.2.move track reaches move⟩)
      _ _ _ (situated_start env pool) events target run.left
      ⟨Nat.le_refl _, Nat.le_refl _, Nat.le_refl _, Nat.le_refl _⟩
  obtain ⟨rfl, known, track⟩ := situated
  have works := keeps.works
  have reads := keeps.reads
  have fetches := keeps.fetches
  have owes := phase.owes_le
  have unused := phase.unusedReads_le
  refine ⟨track.bounded, ?_, ?_, ?_, ?_⟩
  · show core.input.works ≤ core.delivered.length + 1
    omega
  · show core.input.reads ≤ core.delivered.length + 4
    omega
  · unfold InBudget at budget
    show _ ≤ 8 * (core.input.size.toNat / sectorSize) + 5 + _
    split at budget <;> omega
  · intro event next later final allowed taken processes after atRest
    obtain ⟨core', phase', move, rfl, known'⟩ := move_of_step known taken
    have ahead := ahead_of_processes track allowed.1 move processes
    obtain ⟨last, lastPhase, ⟨rfl, _, lastTrack⟩, there⟩ :=
      @track_moves policy env (Reaches env)
        (fun _ final phase => Ahead core.input.pos final phase)
        (fun events core phase event core' phase' holds _ _ move =>
          holds.move move)
        _ _ _ ⟨rfl, known', track.move move⟩ later final after.left ahead
    cases lastPhase with
    | stopped =>
        refine Or.inl fun none => ?_
        have reported := lastTrack.reported
        have empty : last.finished = [] := none
        simp [empty, Phase.reports] at reported
    | waiting | parked => exact Or.inr there.2
    | _ => cases atRest

theorem reaches_of_stepCheck
    {env : Environment} {length : Nat} {reader : Reader}
    {event : ReaderEvent}
    (checked : reader.stepCheck env length event = true) :
    reader.Reaches env event := by
  cases event with
  | complete position =>
      intro actualBuf source offset isLz4 data asked worked
      simp [stepCheck, asked, worked] at checked
      exact checked.2.1
  | _ => trivial

theorem terminates_threeBlockFile :
    ∃ target,
      Execution (step Input.fetchCached threeBlockEnv)
          (Both (Reaches threeBlockEnv)
            (StaysInside Input.fetchCached threeBlockEnv))
          (start threeBlockEnv .initial) threeBlockEvents target ∧
        target.finished = [(true, "")] ∧ target.input.works = 3 ∧
        sectorSize * target.delivered.length ≤ target.input.size.toNat ∧
        target.input.works ≤ target.delivered.length + 1 ∧
        (threeBlockEvents.map ReaderEvent.cost).sum ≤
          8 * (target.input.size.toNat / sectorSize) + 5 +
            (threeBlockEvents.map ReaderEvent.credit).sum := by
  obtain ⟨target, ran, finished, _, _, works, _⟩ := threeBlock_reached
  have run :
      Execution (step Input.fetchCached threeBlockEnv)
        (Both (Reaches threeBlockEnv)
          (StaysInside Input.fetchCached threeBlockEnv))
        (start threeBlockEnv .initial) threeBlockEvents target :=
    Execution.of_runEvents
      (fun _ _ checked =>
        ⟨reaches_of_stepCheck checked, staysInside_of_stepCheck checked⟩)
      ran
  obtain ⟨deliveries, decompressions, _, steps, _⟩ :=
    terminates Input.fetchCached threeBlockEnv .initial run
  exact ⟨target, run, finished, works, deliveries, decompressions, steps⟩

/-! ## A file that is never finished -/

/-- A CSO file of one block of two sectors, with one byte of data. -/
def stuckFile : Bytes :=
  (CsoHeader.mk csoMagic 24 4096 4096 1 0 [0, 0]).encode ++
    encodeTable 4 2 (fun entry => if entry = 0 then 32 else 33) ++ [7]

/-- A codec that makes one sector of the block of `stuckFile`. -/
def stuckEnv : Environment :=
  { Environment.ofFile stuckFile with
    inflate := fun _ _ _ => .ok (List.replicate sectorSize 0) }

/-- The second sector of the block is wanted, and the block is cached. -/
structure Stuck (core : Reader) : Prop where
  fileType : core.input.fileType = .cso1
  paused : core.input.paused = false
  pos : core.input.pos = 2048
  size : core.input.size = 4096
  shift : core.input.csoIndexShift = 0
  blockShift : core.input.csoBlockShift = 12
  blockSize : core.input.csoBlockSize = 4096
  first : core.input.index 0 = 32
  last : core.input.index 1 = 33
  cachePos : core.input.cachePos = 32
  cacheSize : core.input.cacheSize = 32768

theorem Stuck.request
    {core : Reader} (stuck : Stuck core) :
    core.input.request = ⟨32, 1, 2048, true, false⟩ := by
  have block : toUint32 ((2048 : Int) / 2 ^ 12) = 0 := by decide
  have next : (0 + 1) % 2 ^ 32 = 1 := by decide
  have codec (len : Nat) : core.input.csoCodec 32 len = (true, false) := by
    simp only [Input.csoCodec, stuck.fileType]
    decide
  simp only [Input.request, stuck.fileType, Input.csoRequest, stuck.pos,
    stuck.shift, stuck.blockShift, stuck.blockSize, block, next,
    stuck.first, stuck.last, codec]
  decide

theorem Stuck.decision
    {core : Reader} (stuck : Stuck core) :
    ∃ data, core.decision Input.fetchCached = .use data := by
  have hit : (core.enter .reading).input.cacheHit core.input.request = true := by
    rw [stuck.request]
    simp only [Input.cacheHit, Reader.enter, stuck.cachePos, stuck.cacheSize]
    decide
  exact ⟨_, if_pos hit⟩

theorem stuckEnv_work (input : Input) (pool : BufferPool) (source : Bytes) :
    input.decompressWork stuckEnv pool source false =
      .ok (List.replicate sectorSize 0) := by
  simp [Input.decompressWork, Input.decompressSectorDeflate, stuckEnv]

theorem Stuck.accepted
    {core : Reader} (stuck : Stuck core) :
    core.input.rejection stuckEnv (List.replicate sectorSize 0) = none := by
  have status : ¬ stuckEnv.workStatus core.input.works = -1 := by
    show ¬ (0 : Int) = -1
    decide
  have fits : ¬ 4096 < sectorSize := by decide
  simp only [Input.rejection, stuck.blockSize, List.length_replicate,
    status, fits, if_false]

theorem Stuck.short
    {core : Reader} (stuck : Stuck core) :
    core.input.trimmedSize 2048
      (List.replicate sectorSize (0 : UInt8)).length ≤ 2048 := by
  simp only [Input.trimmedSize, stuck.pos, stuck.size,
    List.length_replicate]
  decide

/-- One round: the block is decompressed, and nothing is delivered. -/
theorem Stuck.round
    {core : Reader} (stuck : Stuck core) :
    ∃ core',
      Execution (step Input.fetchCached stuckEnv) Always
          (core.enter .reading) [.run, .complete 0, .run]
          (core'.enter .reading) ∧
        Stuck core' ∧
        core'.input.works = core.input.works + 1 ∧
        core'.delivered = core.delivered ∧
        core'.finished = core.finished := by
  obtain ⟨data, decided⟩ := stuck.decision
  have known : core.input.fileType ≠ .unknown := by
    rw [stuck.fileType]
    exact FileType.noConfusion
  have more : core.input.pos < core.input.size := by
    rw [stuck.pos, stuck.size]
    decide
  have used : Move Input.fetchCached stuckEnv core .reading .run _ _ :=
    .use core data more stuck.paused decided
  rw [stuck.request, usePhase_compressed _ _ rfl] at used
  let again := core.afterUse stuckEnv ⟨32, 1, 2048, true, false⟩ data
  have stays : Stuck again :=
    ⟨stuck.fileType, stuck.paused, stuck.pos, stuck.size, stuck.shift,
      stuck.blockShift, stuck.blockSize, stuck.first, stuck.last,
      stuck.cachePos, stuck.cacheSize⟩
  have worked : Move Input.fetchCached stuckEnv again
      (.waiting (.decompress (core.pool.alloc stuckEnv.heap).1 data 2048
        false)) (.complete 0) _ _ :=
    .decompressed again _ _ _ _ _ (stuckEnv_work _ _ _) stays.accepted
  let block : SubBlock :=
    { actualBuf :=
        { (core.pool.alloc stuckEnv.heap).1 with
          memory :=
            FlatMemory.write (core.pool.alloc stuckEnv.heap).1.memory 0
              (List.replicate sectorSize 0) }
      suboffset := 2048
      resultSize := again.input.trimmedSize 2048
        (List.replicate sectorSize (0 : UInt8)).length
      supplied := (List.replicate sectorSize (0 : UInt8)).length }
  have skipped : Move Input.fetchCached stuckEnv
      (again.afterWork again.pool) (.looping block) .run _ _ :=
    .loopDone _ block stays.short
  have first := step_of_move (fun _ => known) used
  have second := step_of_move (fun _ => by exact known) worked
  have third := step_of_move (fun _ => by exact known) skipped
  refine ⟨again.afterWork again.pool,
    ((Execution.single trivial first).snoc trivial second).snoc trivial third,
    ?_, rfl, rfl, rfl⟩
  exact ⟨stuck.fileType, stuck.paused, stuck.pos, stuck.size, stuck.shift,
    stuck.blockShift, stuck.blockSize, stuck.first, stuck.last,
    stuck.cachePos, stuck.cacheSize⟩

def stuckEvents : List ReaderEvent :=
  [.complete 0, .complete 0, .run, .run, .complete 0, .complete 0, .run,
    .run, .run, .run]

def isReadSector : InputCall → Bool
  | .readSector => true
  | _ => false

theorem stuck_reached :
    ∃ core,
      Execution (step Input.fetchCached stuckEnv) Always
          (start stuckEnv .initial) stuckEvents (core.enter .reading) ∧
        Stuck core ∧ core.finished = [] ∧ core.delivered.length = 1 := by
  have reached :
      (runEvents
        (guarded (fun _ _ => true) (step Input.fetchCached stuckEnv))
        (start stuckEnv .initial) stuckEvents).any (fun reader =>
          reader.calls.length = 1 ∧
            reader.calls.all isReadSector = true ∧
            reader.input.fileType = .cso1 ∧ reader.input.paused = false ∧
            reader.input.pos = 2048 ∧ reader.input.size = 4096 ∧
            reader.input.csoIndexShift = 0 ∧
            reader.input.csoBlockShift = 12 ∧
            reader.input.csoBlockSize = 4096 ∧
            reader.input.index 0 = 32 ∧ reader.input.index 1 = 33 ∧
            reader.input.cachePos = 32 ∧ reader.input.cacheSize = 32768 ∧
            reader.finished = [] ∧ reader.delivered.length = 1) = true := by
    decide +kernel
  obtain ⟨reader, ran, facts⟩ := (Option.any_eq_true _ _).mp reached
  simp only [decide_eq_true_eq] at facts
  obtain ⟨one, readSector, fileType, paused, pos, size, shift, blockShift,
    blockSize, first, last, cachePos, cacheSize, finished, delivered⟩ :=
    facts
  have run :=
    @Execution.of_runEvents _ _ _ Always _ (fun _ _ _ => trivial) _ _ _ ran
  obtain ⟨core, phase, ⟨rfl, _, _⟩, _⟩ :=
    @track_moves Input.fetchCached stuckEnv Always (fun _ _ _ => True)
      (fun _ _ _ _ _ _ _ _ _ _ => trivial) _ _ _
      (situated_start stuckEnv .initial) stuckEvents reader run trivial
  have phaseEq : phase = .reading := by
    cases phase <;> simp_all [enter, Phase.calls, isReadSector]
  subst phaseEq
  exact ⟨core, run,
    ⟨fileType, paused, pos, size, shift, blockShift, blockSize, first, last,
      cachePos, cacheSize⟩,
    finished, delivered⟩

/-- The reader decompresses the block of `stuckFile` as often as one likes. -/
theorem stuck_rounds (bound : Nat) :
    ∃ events core,
      Execution (step Input.fetchCached stuckEnv) Always
          (start stuckEnv .initial) events (core.enter .reading) ∧
        Stuck core ∧ (events.map ReaderEvent.credit).sum = 0 ∧
        bound ≤ core.input.works ∧ core.finished = [] ∧
        core.delivered.length = 1 := by
  induction bound with
  | zero =>
      obtain ⟨core, run, stuck, finished, delivered⟩ := stuck_reached
      exact ⟨stuckEvents, core, run, stuck, by decide, Nat.zero_le _,
        finished, delivered⟩
  | succ bound inductionHypothesis =>
      obtain ⟨events, core, run, stuck, free, works, finished, delivered⟩ :=
        inductionHypothesis
      obtain ⟨core', further, stuck', works', delivered', finished'⟩ :=
        stuck.round
      refine ⟨_, core', run.append further, stuck', ?_, ?_, ?_, ?_⟩
      · simp [free, ReaderEvent.credit]
      · omega
      · rw [finished', finished]
      · rw [delivered', delivered]

/-- No number bounds the decompressions of the block of `stuckFile` in the
runs that are never resumed, have not finished and have delivered one of the
two sectors. -/
theorem stuckFile_never_finishes :
    ¬ ∃ bound, ∀ events target,
      Execution (step Input.fetchCached stuckEnv) Always
          (start stuckEnv .initial) events target →
        (events.map ReaderEvent.credit).sum = 0 →
          target.finished = [] → target.delivered.length = 1 →
            target.input.works < bound := by
  intro ⟨bound, bounded⟩
  obtain ⟨events, core, run, _, free, works, finished, delivered⟩ :=
    stuck_rounds bound
  have fewer := bounded events _ run free finished delivered
  exact absurd works (Nat.not_le.mpr fewer)

end Reader

end Maxcso
