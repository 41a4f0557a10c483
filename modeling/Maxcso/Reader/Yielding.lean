import Maxcso.Reader.Found

/-!
# Blocks that yield their content

The blocks of a documented file, of a plain image and of a DAX file yield the
image, so that every reader that has called `begin_` passes it on.
-/

namespace Maxcso

open FileBytes Transition ShiftMask

namespace CsoFile

section

variable {cso : CsoFile} {codecs : Codecs} {file image : Bytes}
variable {padded : Bytes → Prop} {env : Environment}
variable {bufferSize block : Nat}

/-- What the reader takes for a block, with the padding of a raw block. -/
def yielded (cso : CsoFile) (env : Environment) (file : Bytes)
    (block : Nat) : Bytes :=
  if cso.uncompressed block then (cso.base env).blockBytes file block
  else cso.content block

theorem blockRequest_base
    (fileType : (cso.base env).fileType = .cso1 ∨
      (cso.base env).fileType = .cso2 ∨ (cso.base env).fileType = .zso)
    (block : Nat) :
    (cso.base env).blockRequest block =
      ⟨(cso.base env).blockPos block, (cso.base env).blockLen block, 0,
        ((cso.base env).blockCodec block).1,
        ((cso.base env).blockCodec block).2⟩ := by
  unfold Input.blockRequest
  rcases fileType with same | same | same
  · rw [same]
    rfl
  · rw [same]
    rfl
  · rw [same]
    rfl

theorem blockUnit_base
    (fileType : (cso.base env).fileType = .cso1 ∨
      (cso.base env).fileType = .cso2 ∨ (cso.base env).fileType = .zso) :
    (cso.base env).blockUnit = cso.header.sectorSize := by
  unfold Input.blockUnit
  rcases fileType with same | same | same
  · rw [same]
    rfl
  · rw [same]
    rfl
  · rw [same]
    rfl

/-- A raw block has all of its part of the image. -/
theorem Describes.raw_full
    (described : cso.Describes codecs file image) (inside : block < cso.blocks)
    (below : block * cso.header.sectorSize < image.length)
    (limits : cso.BlockWithinLimits bufferSize block)
    (raw : cso.uncompressed block = true) :
    cso.header.sectorSize ≤ cso.readLength block ∨
      image.length ≤
        cso.header.sectorSize * block + cso.readLength block := by
  have bounds := described.blockSize_pos
  obtain ⟨sectors, whole⟩ := described.aligned
  obtain ⟨shift, low, _, width⟩ := described.blockSize
  obtain ⟨units, unitsEq⟩ : sectorSize ∣ cso.header.sectorSize := by
    rw [width]
    exact Nat.pow_dvd_pow 2 low
  have start : block * cso.header.sectorSize =
      sectorSize * (block * units) := by
    rw [unitsEq]
    exact Nat.mul_left_comm _ _ _
  rw [Nat.mul_comm cso.header.sectorSize block]
  -- The last sector of the block that is in the image reaches its end.
  by_cases full :
      (block + 1) * cso.header.sectorSize ≤ image.length
  · left
    have last := (@Describes.raw_sector _ _ _ _ described _ _ inside limits
      raw (sectorSize * (units - 1)) (Nat.dvd_mul_right _ _) (by
        rw [unitsEq]
        simp only [sectorSize] at *
        omega) (by
        rw [Nat.add_mul] at full
        simp only [sectorSize] at *
        omega)).1
    simp only [sectorSize] at *
    omega
  · right
    rw [Nat.add_mul, Nat.one_mul] at full
    have last := (@Describes.raw_sector _ _ _ _ described _ _ inside limits
      raw (sectorSize * (sectors - block * units - 1))
      (Nat.dvd_mul_right _ _) (by
        simp only [sectorSize] at *
        omega) (by
        simp only [sectorSize] at *
        omega)).1
    simp only [sectorSize] at *
    omega

/-- Every block of the image can be read and decompressed. -/
theorem Describes.yields
    (described : cso.Describes codecs file image)
    (paddedBy : cso.PaddedBy file padded)
    (decodes : env.DecodesPadded codecs padded)
    (large : cso.header.sectorSize * 2 ≤ bufferSize)
    (limits : cso.WithinLimits bufferSize)
    (below : block * cso.header.sectorSize < image.length) :
    (cso.base env).Yields env file bufferSize block
      (cso.yielded env file block) := by
  have inside := described.lt_blocks below
  have blockLimits := limits.block block inside
  have indexed := described.indexed paddedBy decodes large limits
  have stored := indexed.stored block below
  have request := blockRequest_base indexed.fileType block
  have unit := blockUnit_base indexed.fileType
  have codec := (described.blockCodec env inside blockLimits).1
  have length := described.blockLen env inside
  have same : ((cso.base env).blockRequest block).raw =
      cso.uncompressed block := by
    rw [request, ← codec]
    rfl
  have bytes : ((cso.base env).blockRequest block).bytes file =
      (cso.base env).blockBytes file block := by
    rw [request]
    rfl
  have whole : ((cso.base env).blockBytes file block).length =
      (cso.base env).blockLen block := by
    have contained := stored.contained
    rw [Input.blockBytes, length_pread]
    omega
  constructor
  · rw [request]
    exact stored.nonneg
  · rw [Request.Contained, bytes, whole, request]
  · rw [request]
    exact stored.fits
  · intro raw
    rw [same] at raw
    rw [yielded, raw, if_pos rfl, bytes]
  · intro decoded
    rw [same] at decoded
    have compressed :=
      ((described.holds block inside).compressed decoded).2
    rw [yielded, decoded, if_neg Bool.false_ne_true, bytes, request]
    refine ⟨compressed.le, fun pool sameSize => ?_⟩
    exact described.decompressed paddedBy decodes inside blockLimits decoded
      (by omega)
  · rw [unit, indexed.size, yielded]
    cases raw : cso.uncompressed block with
    | true =>
        rw [if_pos rfl, whole, length]
        exact (described.raw_full inside below blockLimits raw).imp_right
          Int.ofNat_le.mpr
    | false =>
        rw [if_neg Bool.false_ne_true,
          ((described.holds block inside).compressed raw).2]
        exact Or.inl (Nat.le_refl _)

/-- The blocks of a documented file are found and can be taken. -/
theorem Describes.sound
    (described : cso.Describes codecs file image)
    (paddedBy : cso.PaddedBy file padded)
    (decodes : env.DecodesPadded codecs padded)
    (large : cso.header.sectorSize * 2 ≤ bufferSize)
    (limits : cso.WithinLimits bufferSize) :
    (cso.base env).Sound env file bufferSize (cso.yielded env file) := by
  have indexed := described.indexed paddedBy decodes large limits
  have unit := blockUnit_base indexed.fileType
  refine ⟨?_, ?_, ?_⟩
  · intro block below
    rw [unit, indexed.size, Nat.mul_comm] at below
    exact described.yields paddedBy decodes large limits
      (Int.ofNat_lt.mp below)
  · intro _
    exact of_decide_eq_false (described.first_misses indexed limits)
  · intro _ pos below _
    obtain ⟨shift, _, _, width⟩ := described.blockSize
    have small := described.small
    rw [indexed.size] at below
    apply (@Input.addressed_iff cso.header (cso.base env) rfl rfl rfl
      described.blockSize_pos.1 pos (by omega)).mpr
    exact agrees_of_isPowerOfTwo ⟨shift, width⟩ pos

/-- The blocks make up the image. -/
theorem Describes.imageOf
    (described : cso.Describes codecs file image)
    (paddedBy : cso.PaddedBy file padded)
    (decodes : env.DecodesPadded codecs padded)
    (large : cso.header.sectorSize * 2 ≤ bufferSize)
    (limits : cso.WithinLimits bufferSize) :
    (cso.base env).imageOf (cso.yielded env file) = image := by
  have indexed := described.indexed paddedBy decodes large limits
  have positive := described.blockSize_pos
  rw [Input.imageOf, indexed.size, Int.toNat_natCast,
    blockUnit_base indexed.fileType]
  apply BlockImage.assemble_eq
  · omega
  · intro block below
    rw [Nat.mul_comm] at below ⊢
    have inside := described.lt_blocks below
    have holds := described.holds block inside
    rw [yielded]
    cases raw : cso.uncompressed block with
    | true =>
        obtain ⟨padding, _, bytes⟩ :=
          described.blockBytes paddedBy env inside (limits.block block inside)
        rw [if_pos rfl, bytes, holds.raw raw]
        exact holds.part.trans (List.prefix_append _ _)
    | false =>
        rw [if_neg Bool.false_ne_true]
        exact holds.part

end

end CsoFile

/-! ## Plain images -/

namespace Input

section

variable {env : Environment} {file : Bytes} {bufferSize block : Nat}

/-- A sector of the file. -/
def sectorOf (file : Bytes) (block : Nat) : Bytes :=
  pread file (sectorSize * block) sectorSize

theorem Plain.yields
    (plain : Plain file) (below : sectorSize * block < file.length) :
    (isoBase env file.length).Yields env file bufferSize block
      (sectorOf file block) := by
  have request : (isoBase env file.length).blockRequest block =
      ⟨(sectorSize * block : Nat), sectorSize, 0, false, false⟩ := rfl
  have bytes : ((isoBase env file.length).blockRequest block).bytes file =
      sectorOf file block := by
    rw [request]
    rfl
  have whole : (sectorOf file block).length = sectorSize := by
    obtain ⟨sectors, same⟩ := plain.aligned
    rw [sectorOf, length_pread, same]
    rw [same] at below
    simp only [sectorSize] at *
    omega
  constructor
  · rw [request]
    exact Int.natCast_nonneg _
  · rw [Request.Contained, bytes, whole, request]
  · show sectorSize ≤ growCacheSize 4 sectorSize
    decide
  · exact fun _ => bytes.symm
  · intro decoded
    rw [request] at decoded
    cases decoded
  · exact Or.inl whole.ge

theorem Plain.sound (plain : Plain file) :
    (isoBase env file.length).Sound env file bufferSize (sectorOf file) := by
  refine ⟨?_, ?_, ?_⟩
  · intro block below
    exact plain.yields (Int.ofNat_lt.mp below)
  · intro more window
    -- The first sector is at the start, before the window.
    have request : ((isoBase env file.length).seek 0).request.pos = 0 := rfl
    rw [request] at window
    exact absurd window.1 (not_le.mpr more)
  · intro cso
    rcases cso with same | same | same
    · cases same
    · cases same
    · cases same

/-- The sectors of the file make up the image. -/
theorem imageOf_sectorOf (env : Environment) (file : Bytes) :
    (isoBase env file.length).imageOf (sectorOf file) = file := by
  have size : (isoBase env file.length).size.toNat = file.length :=
    Int.toNat_natCast _
  rw [Input.imageOf, size]
  apply BlockImage.assemble_eq
  · show 0 < sectorSize
    decide
  · intro block _
    exact List.prefix_refl _

end

end Input

/-! ## Files that stand for an image -/

/-- The detection finds blocks that make up the image. -/
structure Environment.Represents (env : Environment) (file image : Bytes)
    (base : Input) : Prop where
  finds : ∀ (input : Input) (headerBuf : Buffer),
    input.found = (Input.create env).found →
      Input.Finds env base 2 input (.readHeader headerBuf)
  size : base.size = image.length
  blocks : ∀ bufferSize, base.csoBlockSize * 2 ≤ bufferSize →
    ∃ content, base.Sound env file bufferSize content ∧
      base.imageOf content = image

section

variable {env : Environment} {file image : Bytes}

/-- The limits of the reader do not become narrower with larger buffers. -/
theorem CsoFile.WithinLimits.mono {cso : CsoFile} {bufferSize larger : Nat}
    (limits : cso.WithinLimits bufferSize) (grows : bufferSize ≤ larger) :
    cso.WithinLimits larger := by
  refine ⟨limits.index, ?_, limits.first⟩
  intro block inside
  have within := limits.block block inside
  exact ⟨within.covered, within.cached,
    fun raw => (within.copied raw).trans grows, within.recognized⟩

theorem Input.Plain.represents
    (plain : Input.Plain file) (complete : env.CompleteReads file)
    (stat : env.fsStat = some file.length) :
    env.Represents file file (Input.isoBase env file.length) := by
  refine ⟨?_, rfl, ?_⟩
  · intro input headerBuf fresh
    exact Input.finds_iso complete plain stat fresh headerBuf
  · intro bufferSize _
    exact ⟨_, plain.sound, Input.imageOf_sectorOf env file⟩

theorem CsoFile.Describes.represents
    {cso : CsoFile} {codecs : Codecs} {padded : Bytes → Prop}
    (described : cso.Describes codecs file image)
    (paddedBy : cso.PaddedBy file padded)
    (decodes : env.DecodesPadded codecs padded)
    (complete : env.CompleteReads file)
    (limits : cso.WithinLimits (cso.header.sectorSize * 2)) :
    env.Represents file image (cso.base env) := by
  have bytes := described.indexBytes env limits.index
  have small := described.small
  refine ⟨?_, ?_, ?_⟩
  · intro input headerBuf fresh
    refine Input.finds_cso complete described.accepts described.header ?_ ?_
      fresh headerBuf
    · rw [bytes]
      exact described.index
    · rw [bytes, length_encodeTable]
  · show toInt64 cso.header.uncompressedSize = image.length
    rw [described.size]
    exact toInt64_of_lt (by omega)
  · intro bufferSize large
    have limits := limits.mono large
    exact ⟨_, described.sound paddedBy decodes large limits,
      described.imageOf paddedBy decodes large limits⟩

theorem DaxFile.Describes.represents
    {dax : DaxFile} {zlib : Bytes → Bytes → Prop}
    (described : dax.Describes zlib file image)
    (inflates : DaxFile.Inflates env zlib)
    (complete : env.CompleteReads file) :
    env.Represents file image (dax.base env) := by
  refine ⟨?_, described.base_size, ?_⟩
  · intro input headerBuf fresh
    exact described.finds complete fresh headerBuf
  · intro bufferSize large
    have room : daxFrameSize ≤ bufferSize := by
      have width : (dax.base env).csoBlockSize = daxFrameSize := rfl
      omega
    exact ⟨_, described.sound inflates room, described.imageOf⟩

end

/-- A file in one of the formats that the reader knows, the image that it
stands for, and what the reader finds out about it. -/
inductive Environment.Documented (env : Environment) (file : Bytes) :
    Bytes → Input → Prop
  | iso (plain : Input.Plain file) (stat : env.fsStat = some file.length) :
      Documented env file file (Input.isoBase env file.length)
  | cso (cso : CsoFile) (codecs : Codecs) (padded : Bytes → Prop)
      (image : Bytes) (described : cso.Describes codecs file image)
      (paddedBy : cso.PaddedBy file padded)
      (decodes : env.DecodesPadded codecs padded)
      (limits : cso.WithinLimits (cso.header.sectorSize * 2)) :
      Documented env file image (cso.base env)
  | dax (dax : DaxFile) (zlib : Bytes → Bytes → Prop) (image : Bytes)
      (described : dax.Describes zlib file image)
      (inflates : DaxFile.Inflates env zlib) :
      Documented env file image (dax.base env)

namespace Environment.Documented

variable {env : Environment} {file image : Bytes} {base : Input}

theorem represents (documented : env.Documented file image base)
    (complete : env.CompleteReads file) :
    env.Represents file image base := by
  cases documented with
  | iso plain stat => exact plain.represents complete stat
  | cso cso codecs padded image described paddedBy decodes limits =>
      exact described.represents paddedBy decodes complete limits
  | dax dax zlib image described inflates =>
      exact described.represents inflates complete

/-- Images have at least one sector. -/
theorem whole (documented : env.Documented file image base) :
    0 < image.length ∧ sectorSize ∣ image.length := by
  cases documented with
  | iso plain stat =>
      have front := plain.front
      exact ⟨by omega, plain.aligned⟩
  | cso cso codecs padded image described =>
      exact ⟨described.positive, described.aligned⟩
  | dax dax zlib image described =>
      exact ⟨described.positive, described.aligned⟩

end Environment.Documented

/-! ## What is passed on -/

namespace Reader

section

variable {env : Environment} {file image : Bytes} {pool : BufferPool}
variable {content : Nat → Bytes} {events : List ReaderEvent}
variable {target : Reader}

theorem underway_of_run
    (complete : env.CompleteReads file)
    (works : ∀ count, env.workStatus count ≠ -1)
    (run : Execution (step Input.fetchCached env) KeepsPoolBegun
      (start env pool) events target) (content : Nat → Bytes) :
    ∃ core phase, target = core.enter phase ∧ OnTrack core phase ∧
      Underway env file content events core phase := by
  obtain ⟨core, phase, situated, underway⟩ :=
    track_moves
      (fun _ _ _ _ _ _ underway track keeps move =>
        underway_move complete works underway track keeps move)
      (situated_start env pool) run
      (Or.inl ⟨rfl, Or.inl rfl, rfl,
        fun outcome none => absurd none List.not_mem_nil, trivial,
        cached_start env file pool, Nat.le_refl _⟩)
  exact ⟨core, phase, situated.enter, situated.track, underway⟩

/-- Before `begin_` nothing has been passed on. -/
theorem undelivered_of_run
    (complete : env.CompleteReads file)
    (works : ∀ count, env.workStatus count ≠ -1)
    (run : Execution (step Input.fetchCached env) KeepsPoolBegun
      (start env pool) events target) (none : target.begun = []) :
    target.delivered = [] := by
  obtain ⟨core, phase, same, _, underway⟩ :=
    underway_of_run complete works run fun _ => []
  subst same
  rcases underway with ⟨_, awaiting⟩ | ⟨some, _⟩
  · exact awaiting.delivered
  · exact absurd none some

/-- After it the sectors of the blocks are passed on. -/
theorem delivered_of_run
    (complete : env.CompleteReads file)
    (works : ∀ count, env.workStatus count ≠ -1)
    (run : Execution (step Input.fetchCached env) KeepsPoolBegun
      (start env pool) events target) (begun : target.begun ≠ [])
    (sound : target.input.found.Sound env file target.pool.bufferSize
      content) :
    target.delivered.map Delivery.content =
      sectorsOf (target.input.found.imageOf content)
        target.delivered.length := by
  obtain ⟨core, phase, same, _, underway⟩ :=
    underway_of_run complete works run content
  subst same
  rcases underway with ⟨none, _⟩ | ⟨_, begins⟩
  · exact absurd none begun
  · exact (begins.ordering sound).delivering.delivered

/-- The reader of a file that stands for an image passes on the image. -/
theorem delivered_of_represents {base : Input}
    (complete : env.CompleteReads file)
    (works : ∀ count, env.workStatus count ≠ -1)
    (represents : env.Represents file image base)
    (run : Execution (step Input.fetchCached env) KeepsPoolBegun
      (start env pool) events target)
    (large : base.csoBlockSize * 2 ≤ target.pool.bufferSize) :
    target.delivered.map Delivery.content =
      sectorsOf image target.delivered.length := by
  obtain ⟨content, sound, whole⟩ := represents.blocks _ large
  by_cases begun : target.begun = []
  · rw [undelivered_of_run complete works run begun]
    rfl
  · have found := found_of_run represents.finds run begun
    rw [← found] at sound whole
    rw [← whole]
    exact delivered_of_run complete works run begun sound

/-- Once `begin_` has been called, the reader of such a file does not fail. -/
theorem unfailing_of_represents {base : Input}
    (complete : env.CompleteReads file)
    (works : ∀ count, env.workStatus count ≠ -1)
    (represents : env.Represents file image base)
    (run : Execution (step Input.fetchCached env) KeepsPoolBegun
      (start env pool) events target) (begun : target.begun ≠ [])
    (large : base.csoBlockSize * 2 ≤ target.pool.bufferSize) :
    (∀ reason, .finish false reason ∉ target.calls) ∧
      ∀ event, target.Reaches env event := by
  obtain ⟨content, sound, _⟩ := represents.blocks _ large
  rw [← found_of_run represents.finds run begun] at sound
  obtain ⟨core, phase, same, track, underway⟩ :=
    underway_of_run complete works run content
  subst same
  rcases underway with ⟨none, _⟩ | ⟨_, begins⟩
  · exact absurd none begun
  · have delivering := (begins.ordering sound).delivering
    have served := Input.served_of_sound complete works begins.formatted
      begins.aligned sound rfl
    refine ⟨?_, fun event => delivering.reaches served track event⟩
    intro reason due
    have calls : .finish false reason ∈ phase.calls := due
    cases phase with
    | finishing success reason =>
        obtain ⟨success, _, _⟩ := delivering.finishing _ _ rfl
        subst success
        cases List.mem_singleton.mp calls
    | _ => simp [Phase.calls] at calls

end

end Reader

end Maxcso
