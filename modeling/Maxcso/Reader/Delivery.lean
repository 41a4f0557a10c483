import Maxcso.Reader.Cache
import Maxcso.Reader.Termination

/-!
# Files that are read back

When the file holds, for every sector of an image, a block from which the
sector can be taken, the reader delivers the image and finishes with success.
-/

namespace Maxcso

open Transition

/-- The sector of an image at a position. -/
def sectorAt (image : Bytes) (pos : Nat) : Bytes :=
  FileBytes.pread image pos sectorSize

/-- The first sectors of an image, as they are passed to the callback. -/
def sectorsOf (image : Bytes) (count : Nat) : List (Int × Bytes) :=
  (List.range count).map fun sector =>
    (((sectorSize * sector : Nat) : Int), sectorAt image (sectorSize * sector))

theorem sectorsOf_succ (image : Bytes) (count : Nat) :
    sectorsOf image (count + 1) =
      sectorsOf image count ++
        [(((sectorSize * count : Nat) : Int),
          sectorAt image (sectorSize * count))] := by
  simp [sectorsOf, List.range_succ]

def Delivery.content (delivery : Delivery) : Int × Bytes :=
  (delivery.pos, delivery.sector)

namespace Input

/-- What has been found out about the file, without what changes while
sectors are read. -/
def found (input : Input) : Input :=
  { input with
    pos := 0
    paused := false
    resumeShouldRead := false
    cache := fun _ => 0
    cachePos := 0
    inFlight := []
    reads := 0
    works := 0
    cacheFills := 0
    fetches := [] }

def seek (input : Input) (pos : Int) : Input :=
  { input with pos := pos }

theorem request_found (input : Input) :
    (input.found.seek input.pos).request = input.request := rfl

/-- The detection goes on from a request to the state `base`, whatever the
owner does meanwhile. -/
def LeadsTo (env : Environment) (bufferSize : Nat) (base : Input) :
    Nat → Input → InputRequest → Prop
  | 0, _, _ => False
  | fuel + 1, input, request =>
      request.detects = true ∧
        ∀ (input' : Input) (pool : BufferPool),
          input'.found = input.found → input'.cachePos = input.cachePos →
            input'.inFlight = [] → pool.bufferSize = bufferSize →
              let result := input'.complete env pool request
              result.pool.bufferSize = bufferSize ∧
                ((∃ size, result.phase = .beginning size ∧
                    result.input.found = base ∧
                    result.input.cachePos = base.size) ∨
                  ∃ next, result.phase = .waiting next ∧
                    LeadsTo env bufferSize base fuel result.input next)

/-- The block for the sector at `pos_` is in the file, fits the cache, and
the sectors from `pos_` on can be taken from it.  A decompressed block has
whole sectors, or goes on past the end of the image. -/
structure Supplies (env : Environment) (file image : Bytes)
    (bufferSize : Nat) (input : Input) : Prop where
  nonneg : 0 ≤ input.request.pos
  contained : input.request.Contained file
  fits : input.request.len ≤ input.cacheSize
  raw : input.request.raw = true →
    (input.request.bytes file).take sectorSize =
      sectorAt image input.pos.toNat
  decoded : input.request.raw = false →
    ∃ block : Bytes,
      (∀ pool : BufferPool, pool.bufferSize = bufferSize →
        input.decompressWork env pool (input.request.bytes file)
          input.request.compressedLz4 = .ok block) ∧
      (sectorSize ∣ block.length ∨
        input.size ≤ input.pos - input.request.offset + block.length) ∧
      input.request.offset < block.length ∧
      block.length ≤ input.csoBlockSize ∧
      FileBytes.pread image (input.pos - input.request.offset).toNat
        block.length <+: block

end Input

/-- What is assumed of a file, of its tables and of the codecs when an image
is read from the file. -/
structure Served (env : Environment) (file image : Bytes)
    (bufferSize : Nat) (base : Input) : Prop where
  complete : env.CompleteReads file
  works : ∀ count, env.workStatus count ≠ -1
  size : base.size.toNat = image.length
  /-- The first block does not lie in the initial window of the cache. -/
  first : 0 < base.size →
    ({ base with cachePos := base.size }).cacheHit base.request = false
  supplies : ∀ pos : Int, 0 ≤ pos → pos < base.size → pos % sectorSize = 0 →
    (base.seek pos).Supplies env file image bufferSize

/-- The file is also recognised, with a pool that need not grow. -/
structure Readable (env : Environment) (file image : Bytes)
    (pool : BufferPool) (base : Input) : Prop
    extends Served env file image pool.bufferSize base where
  leads : ∃ fuel,
    Input.LeadsTo env pool.bufferSize base fuel
      (Reader.start env pool).input
      (.readHeader (pool.alloc env.heap).1)

namespace SubBlock

/-- From the sector at `pos` on, the block holds sectors of the image. -/
def Holds (image : Bytes) (pos : Int) (block : SubBlock) : Prop :=
  ∀ offset, block.suboffset ≤ offset → offset < block.resultSize →
    sectorSize ∣ offset →
      FlatMemory.read block.actualBuf.memory offset sectorSize =
        sectorAt image (pos - block.suboffset + offset).toNat

end SubBlock

namespace Phase

/-- Data has been used before these phases. -/
def usesData : Phase → Bool
  | waiting (.decompress ..) | rawCallback .. | rawDelivered | looping _
  | subCallback .. | subDelivered _ => true
  | _ => false

/-- The reader is in its loop. -/
def within : Phase → Bool
  | waiting request => !request.detects
  | finishing .. | stopped | parked => false
  | _ => true

/-- The phase deals with the right bytes of the file and of the image. -/
def Supplied (file image : Bytes) (input : Input) : Phase → Prop
  | waiting (.readBlock request _) => request = input.request
  | waiting (.decompress _ source offset isLz4) =>
      input.request.raw = false ∧ source = input.request.bytes file ∧
        offset = input.request.offset ∧
        isLz4 = input.request.compressedLz4
  | rawCallback pos sector _ =>
      pos = input.pos ∧
        FlatMemory.read sector.memory 0 sectorSize =
          sectorAt image pos.toNat
  | subCallback pos sector _ block =>
      pos = input.pos ∧
        FlatMemory.read sector.memory 0 sectorSize =
          sectorAt image pos.toNat ∧
        block.Holds image input.pos
  | looping block | subDelivered block => block.Holds image input.pos
  | _ => True

end Phase

namespace Reader

/-- Other holders of the pool do not resize it. -/
def KeepsPool (reader : Reader) : ReaderEvent → Prop
  | .otherPool pool => pool.bufferSize = reader.pool.bufferSize
  | _ => True

/-- The reader is on its way to deliver the image. -/
structure Delivering (env : Environment) (file image : Bytes)
    (bufferSize : Nat) (base : Input) (core : Reader) (phase : Phase) :
    Prop where
  pool : core.pool.bufferSize = bufferSize
  delivered : core.delivered.map Delivery.content =
    sectorsOf image core.delivered.length
  waiting : ∀ request, phase = .waiting request → request.detects = true →
    ∃ fuel, Input.LeadsTo env bufferSize base fuel core.input request
  found : (∀ request, phase = .waiting request → request.detects = false) →
    core.input.found = base
  unfilled : core.input.cacheFills = 0 → phase.sized = true →
    (∀ request, phase ≠ .waiting request) →
      core.input.cachePos = base.size ∧ core.input.pos = 0
  filled : phase.usesData = true → 0 < core.input.cacheFills
  supplied : phase.Supplied file image core.input
  finishing : ∀ success reason, phase = .finishing success reason →
    success = true ∧ reason = "" ∧
      core.input.size ≤ sectorSize * core.delivered.length
  stopped : phase = .stopped →
    core.finished = [(true, "")] ∧
      core.input.size ≤ sectorSize * core.delivered.length
  parked : phase = .parked → core.input.paused = true

section

variable {env : Environment} {file image : Bytes} {pool : BufferPool}
variable {bufferSize : Nat}
variable {base : Input} {core core' : Reader} {phase phase' : Phase}
variable {event : ReaderEvent}

theorem Delivering.found_of
    (delivering : Delivering env file image bufferSize base core phase)
    (other : phase.detecting = false) : core.input.found = base := by
  apply delivering.found
  intro request same
  rw [same] at other
  exact other

/-- In the loop there is nothing to detect, and nothing has ended. -/
theorem Delivering.within
    (looping : phase.within = true)
    (pool : core.pool.bufferSize = bufferSize)
    (delivered : core.delivered.map Delivery.content =
      sectorsOf image core.delivered.length)
    (found : core.input.found = base)
    (unfilled : core.input.cacheFills = 0 →
      core.input.cachePos = base.size ∧ core.input.pos = 0)
    (filled : phase.usesData = true → 0 < core.input.cacheFills)
    (supplied : phase.Supplied file image core.input) :
    Delivering env file image bufferSize base core phase := by
  refine ⟨pool, delivered, ?_, fun _ => found,
    fun none _ _ => unfilled none, filled, supplied, ?_, ?_, ?_⟩
  · intro request same detects
    rw [same, Phase.within, detects] at looping
    cases looping
  · intro success reason same
    rw [same] at looping
    cases looping
  · intro same
    rw [same] at looping
    cases looping
  · intro same
    rw [same] at looping
    cases looping

theorem Delivering.filled_within
    (looping : phase.within = true)
    (pool : core.pool.bufferSize = bufferSize)
    (delivered : core.delivered.map Delivery.content =
      sectorsOf image core.delivered.length)
    (found : core.input.found = base) (filled : 0 < core.input.cacheFills)
    (supplied : phase.Supplied file image core.input) :
    Delivering env file image bufferSize base core phase :=
  .within looping pool delivered found
    (fun none => absurd none (Nat.ne_of_gt filled)) (fun _ => filled) supplied

theorem supplies_of_found
    {input : Input} (found : input.found = base)
    (supplies : (base.seek input.pos).Supplies env file image bufferSize) :
    input.Supplies env file image bufferSize := by
  subst found
  exact ⟨supplies.nonneg, supplies.contained, supplies.fits, supplies.raw,
    supplies.decoded⟩

/-- The block for the sector at `pos_` is as it should be. -/
theorem Delivering.supplies
    (served : Served env file image bufferSize base)
    (delivering : Delivering env file image bufferSize base core phase)
    (track : OnTrack core phase)
    (past : ∀ request, phase = .waiting request → request.detects = false)
    (settled : phase.lag = 0) (more : core.input.pos < core.input.size) :
    core.input.Supplies env file image bufferSize := by
  have found := delivering.found past
  have sector := track.sectorPos settled
  have size : base.size = core.input.size := by
    rw [← found]
    rfl
  exact supplies_of_found found
    (served.supplies core.input.pos sector.1 (by omega) sector.2)

/-- A hit comes after a read into the cache. -/
theorem Delivering.filled_of_hit
    (served : Served env file image bufferSize base)
    (delivering :
      Delivering env file image bufferSize base core .reading)
    (more : core.input.pos < core.input.size)
    (hit : core.input.cacheHit core.input.request = true) :
    0 < core.input.cacheFills := by
  by_contra none
  obtain ⟨cachePos, start⟩ :=
    delivering.unfilled (by omega) rfl fun _ => Phase.noConfusion
  have found := delivering.found_of rfl
  have size : base.size = core.input.size := by
    rw [← found]
    rfl
  have first := served.first (by omega)
  have requestEq : base.request = core.input.request := by
    rw [← Input.request_found core.input, found, start, ← found]
    rfl
  have cacheSize : base.cacheSize = core.input.cacheSize := by
    rw [← found]
    rfl
  rw [requestEq] at first
  simp only [Input.cacheHit, cacheSize, ← cachePos] at first hit
  rw [first] at hit
  cases hit

theorem Delivering.serves
    (served : Served env file image bufferSize base)
    (delivering : Delivering env file image bufferSize base core phase)
    (track : OnTrack core phase) (event : ReaderEvent) :
    (core.enter phase).CacheServes file event := by
  cases event with
  | run =>
      intro rest calls more _
      cases phase with
      | reading =>
          have supplies :=
            delivering.supplies served track nofun rfl more
          refine ⟨supplies.nonneg, ?_⟩
          by_cases hit : core.input.cacheHit core.input.request = true
          · rw [if_pos (by exact hit)]
            have filled := delivering.filled_of_hit served more hit
            exact ⟨Or.inr filled, supplies.contained⟩
          · rw [if_neg (by exact hit)]
            exact fun _ => supplies.fits
      | _ => exact nomatch calls
  | _ => trivial

/-- A sector of the decompressed block is a sector of the image. -/
theorem sector_of_block
    {block : Bytes} {start length offset : Nat}
    (matching : FileBytes.pread image start length <+: block)
    (fits : offset + sectorSize ≤ length)
    (inside : start + offset + sectorSize ≤ image.length) :
    (block.drop offset).take sectorSize =
      sectorAt image (start + offset) := by
  obtain ⟨rest, whole⟩ := matching
  have long :
      offset + sectorSize ≤
        (FileBytes.pread image start length).length := by
    rw [FileBytes.length_pread]
    omega
  rw [sectorAt, ← FileBytes.drop_take_pread image fits]
  conv_lhs => rw [← whole]
  rw [List.drop_append_of_le_length (by omega),
    List.take_append_of_le_length (by rw [List.length_drop]; omega)]

/-- A decompressed block holds the sectors that the loop passes on. -/
theorem holds_decompressed
    {input : Input} {block : Bytes} (nonneg : 0 ≤ input.pos)
    (aligned : input.pos % sectorSize = 0)
    (more : input.pos < input.size) (size : input.size.toNat = image.length)
    (sizeAligned : input.size % sectorSize = 0)
    (whole : sectorSize ∣ block.length ∨
      input.size ≤ input.pos - input.request.offset + block.length)
    (matching : FileBytes.pread image
      (input.pos - input.request.offset).toNat block.length <+: block)
    (buffer : Buffer) :
    SubBlock.Holds image input.pos
      { actualBuf :=
          { buffer with memory := FlatMemory.write buffer.memory 0 block }
        suboffset := input.request.offset
        resultSize := input.trimmedSize input.request.offset block.length
        supplied := block.length } := by
  intro offset from_ below divides
  have offsets := Input.request_offset nonneg aligned
  have shorter :=
    @trimmedSize_le input input.request.offset more block.length
  have inside :=
    @trimmedSize_inside input input.request.offset more block.length
  dsimp only at from_ below ⊢
  obtain ⟨before, beforeEq⟩ := offsets.1
  obtain ⟨index, rfl⟩ := divides
  have fits : sectorSize * index + sectorSize ≤ block.length := by
    rcases whole with ⟨sectors, sectorsEq⟩ | past
    · simp only [sectorSize] at *
      omega
    · simp only [sectorSize] at *
      omega
  have start :
      (input.pos - input.request.offset + (sectorSize * index : Nat)).toNat =
        (input.pos - input.request.offset).toNat + sectorSize * index := by
    omega
  have read :=
    @FlatMemory.read_write_of_le UInt8 buffer.memory 0 block
      (sectorSize * index) sectorSize fits
  rw [Nat.zero_add] at read
  rw [start, read, sector_of_block matching fits]
  simp only [sectorSize] at *
  omega

theorem leadsTo_congr
    {input input' : Input} {fuel : Nat} {request : InputRequest}
    (found : input'.found = input.found)
    (cachePos : input'.cachePos = input.cachePos)
    (leads : Input.LeadsTo env bufferSize base fuel input request) :
    Input.LeadsTo env bufferSize base fuel input' request := by
  cases fuel with
  | zero => exact leads
  | succ fuel =>
      refine ⟨leads.1, fun other pool same sameCache => ?_⟩
      exact leads.2 other pool (same.trans found) (sameCache.trans cachePos)

theorem Phase.supplied_congr
    {input input' : Input} (request : input'.request = input.request)
    (pos : input'.pos = input.pos)
    (supplied : phase.Supplied file image input) :
    phase.Supplied file image input' := by
  cases phase with
  | waiting asked =>
      cases asked with
      | readBlock | decompress => simpa [Phase.Supplied, request] using supplied
      | _ => trivial
  | rawCallback | subCallback | looping | subDelivered =>
      simpa [Phase.Supplied, pos] using supplied
  | _ => trivial

/-! ## Every move goes on delivering -/

/-- What is done from outside does not matter. -/
theorem Delivering.outside
    (delivering : Delivering env file image bufferSize base core phase)
    {input : Input} {pool : BufferPool}
    (found : input.found = core.input.found)
    (pos : input.pos = core.input.pos)
    (cachePos : input.cachePos = core.input.cachePos)
    (cacheFills : input.cacheFills = core.input.cacheFills)
    (bufferSizeEq : pool.bufferSize = core.pool.bufferSize)
    (parked : phase = .parked → input.paused = true) :
    Delivering env file image bufferSize base
      { core with input := input, pool := pool } phase := by
  have request : input.request = core.input.request := by
    rw [← Input.request_found, ← Input.request_found core.input, found, pos]
  have size : input.size = core.input.size := by
    show input.found.size = core.input.found.size
    rw [found]
  constructor
  · exact bufferSizeEq.trans delivering.pool
  · exact delivering.delivered
  · intro asked same detects
    obtain ⟨fuel, leads⟩ := delivering.waiting asked same detects
    exact ⟨fuel, leadsTo_congr found cachePos leads⟩
  · intro past
    exact found.trans (delivering.found past)
  · intro none sized free
    rw [cacheFills] at none
    rw [cachePos, pos]
    exact delivering.unfilled none sized free
  · intro uses
    rw [cacheFills]
    exact delivering.filled uses
  · exact Phase.supplied_congr request pos delivering.supplied
  · intro success reason same
    rw [size]
    exact delivering.finishing success reason same
  · intro same
    rw [size]
    exact delivering.stopped same
  · exact parked

/-- Using the bytes of the right block. -/
theorem Delivering.use
    {bufferSize : Nat} {data : Bytes}
    (delivered : core.delivered.map Delivery.content =
      sectorsOf image core.delivered.length)
    (bufferSizeEq : core.pool.bufferSize = bufferSize)
    (found : core.input.found = base) (filled : 0 < core.input.cacheFills)
    (supplies : core.input.Supplies env file image bufferSize)
    (exact' : data = core.input.request.bytes file)
    (enough : core.input.request.raw = true → sectorSize ≤ data.length) :
    Delivering env file image bufferSize base
      (core.afterUse env core.input.request data)
      (core.usePhase env core.input.request data) := by
  have pool' : (core.afterUse env core.input.request data).pool.bufferSize =
      bufferSize := by
    rw [← bufferSizeEq]
    exact BufferPool.alloc_bufferSize _ _
  cases raw : core.input.request.raw with
  | true =>
      rw [usePhase_raw env core raw]
      refine .filled_within rfl pool' delivered found filled ⟨rfl, ?_⟩
      rw [← supplies.raw raw, ← exact',
        FlatMemory.take_write_zero _ (enough raw)]
  | false =>
      rw [usePhase_compressed env core raw]
      exact .filled_within rfl pool' delivered found filled
        ⟨raw, exact', rfl, rfl⟩

/-- A whole sector lies between a sector's position and the end. -/
theorem length_sectorAt
    {pos : Nat} (inside : pos + sectorSize ≤ image.length) :
    (sectorAt image pos).length = sectorSize :=
  FileBytes.length_pread_of_le inside

/-- A raw block has at least the wanted sector. -/
theorem enough_of_raw
    {input : Input} {bufferSize : Nat}
    (supplies : input.Supplies env file image bufferSize)
    (inside : input.pos.toNat + sectorSize ≤ image.length)
    (raw : input.request.raw = true) :
    sectorSize ≤ (input.request.bytes file).length := by
  have length := congrArg List.length (supplies.raw raw)
  rw [length_sectorAt inside, List.length_take] at length
  omega

theorem size_eq
    (served : Served env file image bufferSize base)
    (found : core.input.found = base) :
    core.input.size.toNat = image.length := by
  rw [← served.size, ← found]
  rfl

/-- A whole sector of the image lies at `pos_`. -/
theorem sector_inside
    (served : Served env file image bufferSize base)
    (found : core.input.found = base) (track : OnTrack core phase)
    (more : core.input.pos < core.input.size) (settled : phase.lag = 0)
    (sized : phase.sized = true) :
    core.input.pos.toNat + sectorSize ≤ image.length := by
  have size := size_eq served found
  have sector := track.sectorPos settled
  have aligned := track.aligned sized
  simp only [sectorSize] at *
  omega

theorem Delivering.detect
    {request : InputRequest} {bufferSize : Nat}
    (delivering : Delivering env file image bufferSize base core
      (.waiting request))
    (track : OnTrack core (.waiting request))
    (detects : request.detects = true) :
    Delivering env file image bufferSize base
      { core with
        input := (core.detected env request).input
        pool := (core.detected env request).pool }
      (core.detected env request).phase := by
  have frame := detected_frame env detects track.aligned
  have posZero : core.input.pos = 0 := by
    have pos := track.pos
    simp only [track.fresh detects, List.length_nil, Phase.lag] at pos
    omega
  obtain ⟨fuel, leads⟩ := delivering.waiting request rfl detects
  cases fuel with
  | zero => exact leads.elim
  | succ fuel =>
      obtain ⟨bufferSizeEq, next⟩ := leads.2 (core.enter .stopped).input
        core.pool rfl rfl rfl delivering.pool
      rcases next with ⟨size, phaseEq, found, cachePos⟩ |
        ⟨asked, phaseEq, leads'⟩
      · have begins : (core.detected env request).phase = .beginning size :=
          phaseEq
        rw [begins]
        exact .within rfl bufferSizeEq delivering.delivered found
          (fun _ => ⟨cachePos, frame.spares.pos.trans posZero⟩)
          (fun uses => absurd uses Bool.false_ne_true) trivial
      · have waits : (core.detected env request).phase = .waiting asked :=
          phaseEq
        have detects' : asked.detects = true := by
          cases fuel with
          | zero => exact leads'.elim
          | succ fuel => exact leads'.1
        rw [waits]
        refine ⟨bufferSizeEq, delivering.delivered, ?_, ?_, ?_, ?_, ?_,
          fun _ _ => Phase.noConfusion, Phase.noConfusion, Phase.noConfusion⟩
        · rintro _ ⟨⟩ _
          exact ⟨fuel, leads'⟩
        · intro past
          rw [past asked rfl] at detects'
          cases detects'
        · intro _ _ free
          exact absurd rfl (free asked)
        · intro uses
          cases asked with
          | readBlock | decompress => cases detects'
          | _ => cases uses
        · cases asked with
          | readBlock | decompress => cases detects'
          | _ => trivial

/-- The sector passed on next is the next sector of the image. -/
theorem Delivering.deliver
    (delivered : core.delivered.map Delivery.content =
      sectorsOf image core.delivered.length)
    {pos : Int} {sector : Buffer}
    (next : pos = (sectorSize * core.delivered.length : Nat))
    (content : FlatMemory.read sector.memory 0 sectorSize =
      sectorAt image pos.toNat) (supplied : Nat) :
    (core.deliver pos sector supplied).delivered.map Delivery.content =
      sectorsOf image (core.deliver pos sector supplied).delivered.length := by
  have position : pos.toNat = sectorSize * core.delivered.length := by omega
  simp only [Reader.deliver, List.map_append, List.length_append,
    List.length_singleton, List.map_cons, List.map_nil]
  rw [sectorsOf_succ, delivered, Delivery.content, content, position, next]

/-- The block that a decompression of the right bytes yields. -/
theorem exists_block
    {source : Bytes} {offset : Nat} {isLz4 : Bool}
    (supplies : core.input.Supplies env file image bufferSize)
    (bufferSizeEq : core.pool.bufferSize = bufferSize)
    (asked : core.input.request.raw = false ∧
      source = core.input.request.bytes file ∧
        offset = core.input.request.offset ∧
        isLz4 = core.input.request.compressedLz4) :
    ∃ block : Bytes,
      core.input.decompressWork env core.pool source isLz4 = .ok block ∧
        offset < block.length ∧ block.length ≤ core.input.csoBlockSize ∧
        (sectorSize ∣ block.length ∨
          core.input.size ≤
            core.input.pos - core.input.request.offset + block.length) ∧
        FileBytes.pread image
          (core.input.pos - core.input.request.offset).toNat
            block.length <+: block := by
  obtain ⟨raw, rfl, rfl, rfl⟩ := asked
  obtain ⟨block, decodes, whole, reaches, fits, matching⟩ :=
    supplies.decoded raw
  exact ⟨block, decodes core.pool bufferSizeEq, reaches, fits, whole,
    matching⟩

/-- The result of a decompression is not refused. -/
theorem not_rejected
    {input : Input} {block : Bytes}
    (works : ∀ count, env.workStatus count ≠ -1)
    (fits : block.length ≤ input.csoBlockSize) :
    input.rejection env block = none := by
  rw [Input.rejection, if_neg (works _), if_neg (by omega)]

theorem Delivering.move
    (served : Served env file image bufferSize base)
    (delivering : Delivering env file image bufferSize base core phase)
    (track : OnTrack core phase) (cached : Cached file core phase)
    (keeps : (core.enter phase).KeepsPool event)
    (move : Move Input.fetchCached env core phase event core' phase') :
    Delivering env file image bufferSize base core' phase' := by
  have bufferSizeEq := delivering.pool
  have delivered := delivering.delivered
  have complete := served.complete
  have serves := delivering.serves served track event
  have after := cached.move complete track serves move
  have position := track.pos
  cases move with
  | pause => exact delivering.outside rfl rfl rfl rfl rfl fun _ => rfl
  | resume _ unparked =>
      refine delivering.outside rfl rfl rfl rfl rfl ?_
      rintro rfl
      cases unparked
  | otherPool =>
      exact delivering.outside rfl rfl rfl rfl keeps delivering.parked
  | detect request detects => exact delivering.detect track detects
  | unpark | begin =>
      have found := delivering.found fun _ => Phase.noConfusion
      exact .within rfl bufferSizeEq delivered found
        (fun none => delivering.unfilled none rfl fun _ => Phase.noConfusion)
        (fun uses => absurd uses Bool.false_ne_true) trivial
  | park _ paused =>
      have found := delivering.found_of rfl
      exact ⟨bufferSizeEq, delivered, fun _ => Phase.noConfusion,
        fun _ => found, fun none _ _ => delivering.unfilled none rfl
          fun _ => Phase.noConfusion,
        fun uses => absurd uses Bool.false_ne_true, trivial,
        fun _ _ => Phase.noConfusion, Phase.noConfusion, fun _ => paused⟩
  | finish success reason =>
      obtain ⟨rfl, rfl, all⟩ := delivering.finishing success reason rfl
      have none : core.finished = [] :=
        List.eq_nil_of_length_eq_zero track.reported
      refine ⟨bufferSizeEq, delivered, fun _ => Phase.noConfusion,
        fun _ => delivering.found_of rfl, fun _ sized =>
          absurd sized Bool.false_ne_true,
        fun uses => absurd uses Bool.false_ne_true, trivial,
        fun _ _ => Phase.noConfusion, fun _ => ⟨?_, all⟩,
        Phase.noConfusion⟩
      rw [none]
      rfl
  | atEnd done =>
      refine ⟨bufferSizeEq, delivered, fun _ => Phase.noConfusion,
        fun _ => delivering.found_of rfl,
        fun _ sized => absurd sized Bool.false_ne_true,
        fun uses => absurd uses Bool.false_ne_true, trivial, ?_,
        Phase.noConfusion, Phase.noConfusion⟩
      rintro _ _ ⟨⟩
      simp only [Phase.lag] at position
      exact ⟨rfl, rfl, by omega⟩
  | use data more running decided =>
      have supplies := delivering.supplies served track
        (fun _ => Phase.noConfusion) rfl more
      have found := delivering.found_of rfl
      obtain ⟨exact', _⟩ :=
        after.fetches ⟨core.input.request, data⟩ (by simp [afterUse])
      have hit : core.input.cacheHit core.input.request = true := by
        by_contra miss
        rw [decision_cached, if_neg miss] at decided
        cases decided
      have filled := delivering.filled_of_hit served more hit
      obtain rfl : data = core.input.request.bytes file := exact'
      exact Delivering.use delivered bufferSizeEq found filled supplies rfl
        (enough_of_raw supplies (sector_inside served found track more rfl rfl))
  | ask cachePos size more running decided =>
      refine ⟨bufferSizeEq, delivered, ?_, fun _ => delivering.found_of rfl,
        ?_, fun uses => absurd uses Bool.false_ne_true, rfl,
        fun _ _ => Phase.noConfusion, Phase.noConfusion, Phase.noConfusion⟩
      · rintro _ ⟨⟩ detects
        cases detects
      · intro _ _ free
        exact absurd rfl (free _)
  | blockMissing request size received =>
      obtain ⟨_, nonneg, _⟩ := cached.asked request size rfl
      rw [complete _ _ _ nonneg] at received
      cases received
  | blockShort request size data received short =>
      obtain ⟨_, nonneg, sizeEq, fits⟩ := cached.asked request size rfl
      have supplies := delivering.supplies served track
        (by rintro _ ⟨⟩; rfl) rfl (track.inside rfl)
      obtain rfl : request = core.input.request := delivering.supplied
      rw [complete _ _ _ nonneg] at received
      obtain rfl := Option.some.inj received
      have contained := supplies.contained
      have room := fits contained
      simp only [Request.Contained, Request.bytes,
        FileBytes.length_pread] at *
      omega
  | blockRead request size data received enough =>
      obtain ⟨_, nonneg, _⟩ := cached.asked request size rfl
      have supplies := delivering.supplies served track
        (by rintro _ ⟨⟩; rfl) rfl (track.inside rfl)
      have found := delivering.found_of rfl
      obtain rfl : request = core.input.request := delivering.supplied
      rw [complete _ _ _ nonneg] at received
      obtain rfl := Option.some.inj received
      have taken := take_of_window rfl enough
      have longEnough := enough_of_raw supplies
        (sector_inside served found track (track.inside rfl) rfl rfl)
      rw [taken.1]
      refine @Delivering.use env file image base (core.afterRead _) _ _
        delivered bufferSizeEq found (Nat.succ_pos _)
        ⟨supplies.nonneg, supplies.contained, supplies.fits, supplies.raw,
          supplies.decoded⟩ rfl ?_
      exact longEnough
  | workFailed actualBuf source offset isLz4 message worked =>
      have supplies := delivering.supplies served track
        (by rintro _ ⟨⟩; rfl) rfl (track.inside rfl)
      obtain ⟨block, decodes, _⟩ :=
        exists_block supplies bufferSizeEq delivering.supplied
      rw [worked] at decodes
      cases decodes
  | workRejected actualBuf source offset isLz4 data reason worked rejected =>
      have supplies := delivering.supplies served track
        (by rintro _ ⟨⟩; rfl) rfl (track.inside rfl)
      obtain ⟨block, decodes, _, fits, _⟩ :=
        exists_block supplies bufferSizeEq delivering.supplied
      rw [worked] at decodes
      obtain rfl := Except.ok.inj decodes
      rw [not_rejected served.works fits] at rejected
      cases rejected
  | decompressed actualBuf source offset isLz4 data worked rejected =>
      have supplies := delivering.supplies served track
        (by rintro _ ⟨⟩; rfl) rfl (track.inside rfl)
      have found := delivering.found_of rfl
      obtain ⟨block, decodes, _, _, whole, matching⟩ :=
        exists_block supplies bufferSizeEq delivering.supplied
      obtain ⟨_, _, rfl, _⟩ := delivering.supplied
      rw [worked] at decodes
      obtain rfl := Except.ok.inj decodes
      have sector := track.sectorPos rfl
      have filled := delivering.filled rfl
      refine .filled_within rfl bufferSizeEq delivered found filled ?_
      exact holds_decompressed sector.1 sector.2 (track.inside rfl)
        (size_eq served found) (track.aligned rfl) whole matching actualBuf
  | rawCallback pos sector supplied =>
      have filled := delivering.filled rfl
      obtain ⟨rfl, content⟩ := delivering.supplied
      simp only [Phase.lag] at position
      exact .filled_within rfl bufferSizeEq
        (Delivering.deliver delivered (by omega) content supplied)
        (delivering.found_of rfl) filled trivial
  | rawDelivered =>
      have filled := delivering.filled rfl
      exact .filled_within rfl bufferSizeEq delivered
        (delivering.found_of rfl) filled trivial
  | subBlock block more =>
      have filled := delivering.filled rfl
      have holds : block.Holds image core.input.pos := delivering.supplied
      have here := holds block.suboffset (Nat.le_refl _) more track.block.1
      refine .filled_within rfl ?_ delivered (delivering.found_of rfl) filled
        ⟨rfl, ?_, holds⟩
      · rw [← bufferSizeEq, subBuffer]
        split
        · rfl
        · exact BufferPool.alloc_bufferSize _ _
      · rw [Int.sub_add_cancel] at here
        rw [← here, FlatMemory.take_write_zero _ (by simp)]
        exact List.take_of_length_le (by simp)
  | loopDone block done =>
      have filled := delivering.filled rfl
      exact .filled_within rfl bufferSizeEq delivered
        (delivering.found_of rfl) filled trivial
  | subCallback pos sector supplied block =>
      have filled := delivering.filled rfl
      obtain ⟨rfl, content, holds⟩ := delivering.supplied
      simp only [Phase.lag] at position
      exact .filled_within rfl bufferSizeEq
        (Delivering.deliver delivered (by omega) content supplied)
        (delivering.found_of rfl) filled holds
  | bail block paused more =>
      have filled := delivering.filled rfl
      exact .filled_within rfl bufferSizeEq delivered
        (delivering.found_of rfl) filled trivial
  | nextSub block stays =>
      have filled := delivering.filled rfl
      have holds : block.Holds image core.input.pos := delivering.supplied
      refine .filled_within rfl bufferSizeEq delivered
        (delivering.found_of rfl) filled ?_
      intro offset from_ below divides
      have here := holds offset (by dsimp only at from_; omega) below divides
      have start :
          core.input.pos - block.suboffset =
            core.advance.input.pos -
              ((block.suboffset + sectorSize : Nat) : Int) := by
        simp only [advance, Nat.cast_add]
        omega
      rw [here, start]

/-- Every block that is decompressed reaches the wanted sector. -/
theorem Delivering.reaches
    (served : Served env file image bufferSize base)
    (delivering : Delivering env file image bufferSize base core phase)
    (track : OnTrack core phase) (event : ReaderEvent) :
    (core.enter phase).Reaches env event := by
  cases event with
  | complete position =>
      intro actualBuf source offset isLz4 data asked worked
      cases phase with
      | waiting request =>
          cases position with
          | zero =>
              obtain rfl : request = _ := Option.some.inj asked
              have supplies := delivering.supplies served track
                (by rintro _ ⟨⟩; rfl) rfl (track.inside rfl)
              obtain ⟨block, decodes, reaches, _⟩ :=
                exists_block supplies delivering.pool delivering.supplied
              have worked' : core.input.decompressWork env core.pool source
                  isLz4 = .ok data := worked
              rw [worked'] at decodes
              obtain rfl := Except.ok.inj decodes
              exact reaches
          | succ position => exact nomatch asked
      | _ => exact nomatch asked
  | _ => trivial

/-- A reader in a run that delivers an image: it has delivered the first
sectors in order, has reported success or nothing, has not taken too many
steps, and can go on unless it is done or paused. -/
structure Delivers (target : Reader) (env : Environment) (image : Bytes)
    (events : List ReaderEvent) : Prop where
  delivered : target.delivered.map Delivery.content =
    sectorsOf image target.delivered.length
  finished : target.finished = [] ∨
    target.finished = [(true, "")] ∧
      sectorSize * target.delivered.length = image.length
  bounded : (events.map ReaderEvent.cost).sum ≤
    8 * (image.length / sectorSize) + 5 +
      (events.map ReaderEvent.credit).sum
  goesOn : target.finished = [] → target.input.paused = false →
    ∃ event, event.cost = 1 ∧
      (step Input.fetchCached env target event).isSome = true

theorem Delivering.finished
    (served : Served env file image bufferSize base)
    (delivering : Delivering env file image bufferSize base core phase)
    (track : OnTrack core phase) :
    core.finished = [] ∨
      core.finished = [(true, "")] ∧
        sectorSize * core.delivered.length = image.length := by
  cases phase with
  | stopped =>
      obtain ⟨finished, all⟩ := delivering.stopped rfl
      have size := size_eq served (delivering.found_of rfl)
      have bounded := track.bounded
      refine Or.inr ⟨finished, ?_⟩
      simp only [sectorSize] at *
      omega
  | _ => exact Or.inl (List.eq_nil_of_length_eq_zero track.reported)

theorem Delivering.goesOn
    (delivering : Delivering env file image bufferSize base core phase)
    (unfinished : core.finished = [])
    (running : core.input.paused = false) :
    ∃ event : ReaderEvent, event.cost = 1 ∧
      (step Input.fetchCached env (core.enter phase) event).isSome =
        true := by
  cases phase with
  | waiting request => exact ⟨.complete 0, rfl, rfl⟩
  | parked =>
      rw [delivering.parked rfl] at running
      exact nomatch running
  | stopped =>
      rw [(delivering.stopped rfl).1] at unfinished
      exact nomatch unfinished
  | _ => exact ⟨.run, rfl, rfl⟩

theorem delivering_start
    (readable : Readable env file image pool base) :
    Delivering env file image pool.bufferSize base (start env pool)
      (startPhase env pool) := by
  refine ⟨BufferPool.alloc_bufferSize _ _, rfl, ?_, ?_, ?_, nofun, trivial,
    nofun, nofun, nofun⟩
  · rintro _ ⟨⟩ _
    exact readable.leads
  · intro past
    exact nomatch past _ rfl
  · intro _ _ free
    exact absurd rfl (free _)

/-- What has been delivered on the way, and that it goes on. -/
theorem Delivering.delivers
    (served : Served env file image bufferSize base)
    (delivering : Delivering env file image bufferSize base core phase)
    (track : OnTrack core phase) {events : List ReaderEvent}
    (budget : InBudget events core.input.size core.remaining phase) :
    (core.enter phase).Delivers env image events := by
  have finished := delivering.finished served track
  refine ⟨delivering.delivered, finished, ?_, delivering.goesOn⟩
  unfold InBudget at budget
  by_cases early : phase.stage < 2
  · rw [if_pos early] at budget
    omega
  · rw [if_neg early] at budget
    have size := size_eq served (delivering.found (by
      rintro request rfl
      cases request with
      | readBlock | decompress => rfl
      | _ => simp [Phase.stage] at early))
    rw [size] at budget
    omega

/-- A reader that delivers goes on to deliver the image. -/
theorem Delivering.run
    (served : Served env file image bufferSize base) {source : Reader}
    (situated : Situated source core phase)
    (cached : Cached file core phase)
    (delivering : Delivering env file image bufferSize base core phase)
    (budget : InBudget [] core.input.size core.remaining phase)
    {events : List ReaderEvent} {target : Reader}
    (run : Execution (step Input.fetchCached env) KeepsPool source events
      target) :
    target.Delivers env image events ∧
      ∃ core' phase', Situated target core' phase' ∧
        Delivering env file image bufferSize base core' phase' := by
  obtain ⟨core', phase', situated', _, delivering', budget'⟩ :=
    @track_moves Input.fetchCached env KeepsPool
      (fun events core phase =>
        Cached file core phase ∧
          Delivering env file image bufferSize base core phase ∧
          InBudget events core.input.size core.remaining phase)
      (fun events core phase event core' phase' holds track keeps move =>
        ⟨holds.1.move served.complete track
            (holds.2.1.serves served track event) move,
          holds.2.1.move served track holds.1 keeps move,
          inBudget_move holds.2.2 track
            (holds.2.1.reaches served track event) move⟩)
      source core phase situated events target run
      ⟨cached, delivering, budget⟩
  refine ⟨?_, core', phase', situated', delivering'⟩
  rw [situated'.enter]
  exact delivering'.delivers served situated'.track budget'

/-- A readable file is read back. -/
theorem delivers_image
    (readable : Readable env file image pool base)
    {events : List ReaderEvent} {target : Reader}
    (run : Execution (step Input.fetchCached env) KeepsPool
      (start env pool) events target) :
    target.Delivers env image events :=
  (Delivering.run readable.toServed (situated_start env pool)
    (cached_start env file pool) (delivering_start readable)
    (Nat.le_refl _) run).1

end

end Reader

end Maxcso
