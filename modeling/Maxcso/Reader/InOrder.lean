import Maxcso.Library.BlockImage
import Maxcso.Reader.Addressing
import Maxcso.Reader.Delivery

/-!
# Sectors once and in order

Whatever the pattern of pauses, a reader whose blocks can be read and
decompressed passes on every sector of the image once and in order, each from
its place in its block.
-/

namespace Maxcso

open Transition ShiftMask

namespace Input

/-! ## Blocks and their content -/

/-- The length of the blocks that the image is kept in. -/
def blockUnit (input : Input) : Nat :=
  match input.fileType with
  | .iso | .unknown => sectorSize
  | .cso1 | .cso2 | .zso => input.csoBlockSize
  | .dax => daxFrameSize

/-- Where the data of a whole block are. -/
def blockRequest (input : Input) (block : Nat) : Request :=
  match input.fileType with
  | .iso | .unknown =>
      ⟨(sectorSize * block : Nat), sectorSize, 0, false, false⟩
  | .cso1 | .cso2 | .zso =>
      let pos := indexPos input.csoIndexShift (input.index block)
      let nextPos := indexPos input.csoIndexShift (input.index (block + 1))
      let codec :=
        input.csoCodec (input.index block) (toUint32 (nextPos - pos))
      ⟨pos, toUint32 (nextPos - pos), 0, codec.1, codec.2⟩
  | .dax =>
      ⟨input.index block, input.daxSize block, 0, !input.daxIsNC block,
        false⟩

/-- The block can be read and, if need be, decompressed, and has all of its
part of the image. -/
structure Yields (env : Environment) (file : Bytes) (bufferSize : Nat)
    (input : Input) (block : Nat) (content : Bytes) : Prop where
  nonneg : 0 ≤ (input.blockRequest block).pos
  contained : (input.blockRequest block).Contained file
  fits : (input.blockRequest block).len ≤ input.cacheSize
  raw : (input.blockRequest block).raw = true →
    content = (input.blockRequest block).bytes file
  decoded : (input.blockRequest block).raw = false →
    content.length ≤ input.csoBlockSize ∧
      ∀ pool : BufferPool, pool.bufferSize = bufferSize →
        input.decompressWork env pool
            ((input.blockRequest block).bytes file)
            (input.blockRequest block).compressedLz4 = .ok content
  full : input.blockUnit ≤ content.length ∨
    input.size ≤ input.blockUnit * block + content.length

/-- The sector of the image at a position, from the content of the blocks. -/
def sectorIn (input : Input) (content : Nat → Bytes) (pos : Nat) : Bytes :=
  FileBytes.pread (content (pos / input.blockUnit)) (pos % input.blockUnit)
    sectorSize

/-- The first block does not lie in the window that `SetupCache` starts
with. -/
def ReadsFirst (input : Input) : Prop :=
  0 < input.size →
    ¬ (input.size ≤ (input.seek 0).request.pos ∧
      (input.seek 0).request.pos + (input.seek 0).request.len ≤
        input.size + input.cacheSize)

/-- For every sector of a CSO or ZSO image, the block and the offset that
`ReadSector` works out are quotient and remainder. -/
def BlocksDivide (input : Input) : Prop :=
  input.fileType = .cso1 ∨ input.fileType = .cso2 ∨
      input.fileType = .zso →
    ∀ pos : Nat, (pos : Int) < input.size → sectorSize ∣ pos →
      (input.seek pos).entriesUsed =
          [pos / input.csoBlockSize, pos / input.csoBlockSize + 1] ∧
        (input.seek pos).csoOffset = pos % input.csoBlockSize

/-- Raw data of the block and the block as lz4 makes it fit a buffer of the
pool. -/
structure FitsBuffer (bufferSize : Nat) (input : Input) (block : Nat) :
    Prop where
  copied : (input.blockRequest block).raw = true →
    (input.blockRequest block).len ≤ bufferSize
  decompressed : (input.blockRequest block).compressedLz4 = true →
    input.csoBlockSize ≤ bufferSize

/-- The frames that are marked and the entries that are looked up exist, and
positions are shifted by less than 64. -/
structure TablesHold (input : Input) : Prop where
  marks : input.fileType = .dax →
    ∀ frame, input.daxIsNC frame = true → frame < input.tableLength
  lookups : ∀ pos : Nat, (pos : Int) < input.size → sectorSize ∣ pos →
    ∀ entry ∈ (input.seek pos).entriesUsed, entry < input.tableLength
  shift : input.positionShift < 64

/-- What the detection leaves of an accepted header. -/
structure Formatted (input : Input) : Prop where
  known : input.fileType ≠ .unknown
  cso : input.fileType = .cso1 ∨ input.fileType = .cso2 ∨
      input.fileType = .zso →
    input.csoBlockShift = Nat.log2 input.csoBlockSize ∧
      sectorSize ≤ input.csoBlockSize
  dax : input.fileType = .dax →
    input.csoBlockSize = daxFrameSize ∧ input.size < 2 ^ 32
  cache : input.cacheSize ≤ maxBlockSize

/-! ## Sectors in their blocks -/

/-- The sector at a position is looked for in the block that it lies in. -/
structure Placed (input : Input) (pos : Nat) : Prop where
  request : (input.seek pos).request =
    Request.skipRaw
      { input.blockRequest (pos / input.blockUnit) with
        offset := pos % input.blockUnit }
  within : pos % input.blockUnit + sectorSize ≤ input.blockUnit
  units : sectorSize ∣ input.blockUnit ∨ input.size ≤ input.blockUnit

section

variable {input : Input} {pos : Nat}

theorem sector_within
    {unit : Nat} (aligned : sectorSize ∣ pos) (positive : 0 < unit)
    (divides : sectorSize ∣ unit) :
    pos % unit + sectorSize ≤ unit := by
  have below := Nat.mod_lt pos positive
  obtain ⟨sectors, same⟩ : sectorSize ∣ pos % unit :=
    (Nat.dvd_mod_iff divides).mpr aligned
  obtain ⟨count, whole⟩ := divides
  rw [same] at below ⊢
  rw [whole] at below
  rw [whole, ← Nat.mul_succ]
  exact Nat.mul_le_mul_left _ (Nat.lt_of_mul_lt_mul_left below)

theorem placed_iso
    (type : input.fileType = .iso) (aligned : sectorSize ∣ pos) :
    input.Placed pos := by
  have unit : input.blockUnit = sectorSize := by
    rw [blockUnit, type]
  have place : sectorSize * (pos / sectorSize) = pos :=
    Nat.mul_div_cancel' aligned
  have start : pos % sectorSize = 0 := Nat.mod_eq_zero_of_dvd aligned
  refine ⟨?_, ?_, Or.inl ?_⟩
  · rw [unit, start]
    simp [request, seek, blockRequest, type, Request.skipRaw, Request.raw,
      toUint32, place]
  · rw [unit, start]
    exact Nat.le_refl _
  · rw [unit]

theorem placed_dax
    (type : input.fileType = .dax) (formatted : input.Formatted)
    (below : (pos : Int) < input.size) (aligned : sectorSize ∣ pos) :
    input.Placed pos := by
  have unit : input.blockUnit = daxFrameSize := by
    rw [blockUnit, type]
  have small := (formatted.dax type).2
  have divides : sectorSize ∣ daxFrameSize := by decide
  have frame : (input.seek pos).daxFrame = pos / daxFrameSize := by
    simp only [daxFrame, seek, toUint32, daxFrameShift, daxFrameSize]
    omega
  have offset : ((pos : Int) % daxFrameSize).toNat = pos % daxFrameSize := by
    omega
  refine ⟨?_, ?_, Or.inl ?_⟩
  · have requestEq : (input.seek pos).request =
        (input.seek pos).daxRequest := by
      simp [request, seek, type]
    rw [requestEq, daxRequest_eq, frame, unit]
    simp only [seek, offset, blockRequest, type]
  · rw [unit]
    exact sector_within aligned (by decide) divides
  · rw [unit]
    exact divides

/-- Blocks that are no power of two in length are not found past the first
of them. -/
theorem units_of_blocksDivide
    (type : input.fileType = .cso1 ∨ input.fileType = .cso2 ∨
      input.fileType = .zso)
    (formatted : input.Formatted) (divide : input.BlocksDivide) :
    sectorSize ∣ input.csoBlockSize ∨ input.size ≤ input.csoBlockSize := by
  obtain ⟨shift, large⟩ := formatted.cso type
  have wide : 2 ^ 11 ≤ input.csoBlockSize := large
  by_cases power : input.csoBlockSize.isPowerOfTwo
  · left
    obtain ⟨exponent, same⟩ := power
    rw [same] at wide ⊢
    exact Nat.pow_dvd_pow 2
      ((Nat.pow_le_pow_iff_right Nat.one_lt_two).mp wide)
  · right
    have low := (log2_bounds (by omega) power).1
    by_contra long
    have exponent : 11 ≤ Nat.log2 input.csoBlockSize :=
      (Nat.le_log2 (by omega)).mpr wide
    obtain ⟨entries, _⟩ :=
      divide type (2 ^ Nat.log2 input.csoBlockSize) (by omega)
        (Nat.pow_dvd_pow 2 exponent)
    rw [entriesUsed_of_cso (by exact type), Nat.div_eq_of_lt low] at entries
    have block := (List.cons.inj entries).1
    have one : (input.seek
        ((2 ^ Nat.log2 input.csoBlockSize : Nat) : Int)).csoBlock = 1 := by
      rw [csoBlock, seek]
      dsimp only
      rw [shift]
      push_cast
      rw [Int.ediv_self (pow_ne_zero _ (by decide))]
      rfl
    exact absurd (block.symm.trans one) Nat.zero_ne_one

theorem placed_cso
    (type : input.fileType = .cso1 ∨ input.fileType = .cso2 ∨
      input.fileType = .zso)
    (formatted : input.Formatted) (divide : input.BlocksDivide)
    (whole : input.size % sectorSize = 0)
    (below : (pos : Int) < input.size) (aligned : sectorSize ∣ pos) :
    input.Placed pos := by
  have unit : input.blockUnit = input.csoBlockSize := by
    rcases type with same | same | same <;> rw [blockUnit, same]
  have large := (formatted.cso type).2
  obtain ⟨entries, offset⟩ := divide type pos below aligned
  rw [entriesUsed_of_cso (by exact type)] at entries
  obtain ⟨block, rest⟩ := List.cons.inj entries
  have next := (List.cons.inj rest).1
  have units := units_of_blocksDivide type formatted divide
  refine ⟨?_, ?_, by rwa [unit]⟩
  · rw [request_of_cso (by exact type), next, block, offset, unit]
    rcases type with same | same | same <;>
      simp only [csoRequestAt, seek, blockRequest, same, csoCodec]
  · rw [unit]
    simp only [sectorSize] at large
    rcases units with divides | short
    · exact sector_within aligned (by omega) divides
    · have inside : pos < input.csoBlockSize := by omega
      rw [Nat.mod_eq_of_lt inside]
      obtain ⟨sector, rfl⟩ := aligned
      simp only [sectorSize] at *
      omega

/-- Every sector of the image is looked for in the block it lies in. -/
theorem placed
    (formatted : input.Formatted) (divide : input.BlocksDivide)
    (whole : input.size % sectorSize = 0)
    (below : (pos : Int) < input.size) (aligned : sectorSize ∣ pos) :
    input.Placed pos := by
  cases type : input.fileType with
  | unknown => exact absurd type formatted.known
  | iso => exact placed_iso type aligned
  | dax => exact placed_dax type formatted below aligned
  | cso1 | cso2 | zso =>
      exact placed_cso (by simp [type]) formatted divide whole below aligned

/-! ## The image of the blocks -/

/-- The image that the blocks make up. -/
def imageOf (input : Input) (content : Nat → Bytes) : Bytes :=
  BlockImage.assemble input.blockUnit input.size.toNat content

variable {env : Environment} {file : Bytes} {bufferSize : Nat}
variable {content : Nat → Bytes}

theorem Yields.reaches
    (yields : input.Yields env file bufferSize (pos / input.blockUnit)
      (content (pos / input.blockUnit)))
    (within : pos % input.blockUnit + sectorSize ≤ input.blockUnit)
    (whole : input.size % sectorSize = 0)
    (below : (pos : Int) < input.size) (aligned : sectorSize ∣ pos) :
    pos % input.blockUnit + sectorSize ≤
      (content (pos / input.blockUnit)).length := by
  have split := Nat.div_add_mod pos input.blockUnit
  obtain ⟨sector, same⟩ := aligned
  rcases yields.full with full | full
  · omega
  · have place : ((input.blockUnit * (pos / input.blockUnit) : Nat) : Int) =
        input.blockUnit * ((pos / input.blockUnit : Nat) : Int) := by
      push_cast
      rfl
    simp only [sectorSize] at *
    omega

/-- The sectors of the image are those of the blocks. -/
theorem sectorAt_imageOf
    (placed : input.Placed pos)
    (yields : input.Yields env file bufferSize (pos / input.blockUnit)
      (content (pos / input.blockUnit)))
    (whole : input.size % sectorSize = 0)
    (below : (pos : Int) < input.size) (aligned : sectorSize ∣ pos) :
    sectorAt (input.imageOf content) pos = input.sectorIn content pos := by
  have reaches := yields.reaches placed.within whole below aligned
  have split := Nat.div_add_mod pos input.blockUnit
  have inside : pos + sectorSize ≤ input.size.toNat := by
    obtain ⟨sector, same⟩ := aligned
    simp only [sectorSize] at *
    omega
  have read := @BlockImage.pread_assemble UInt8 _ input.blockUnit
    input.size.toNat (pos / input.blockUnit) (pos % input.blockUnit)
    sectorSize content placed.within (by omega) reaches
  rwa [split] at read

/-- What is read for a sector of a block that fits a buffer fits it too. -/
theorem request_fits
    (placed : input.Placed pos)
    (yields : input.Yields env file bufferSize (pos / input.blockUnit)
      (content (pos / input.blockUnit)))
    (fits : input.FitsBuffer bufferSize (pos / input.blockUnit))
    (whole : input.size % sectorSize = 0)
    (below : (pos : Int) < input.size) (aligned : sectorSize ∣ pos) :
    ((input.seek pos).request.raw = true →
        (input.seek pos).request.len ≤ bufferSize) ∧
      ((input.seek pos).request.compressedLz4 = true →
        input.csoBlockSize ≤ bufferSize) := by
  have reaches := yields.reaches placed.within whole below aligned
  rw [placed.request]
  generalize pos / input.blockUnit = block at *
  generalize pos % input.blockUnit = offset at *
  cases raw : (input.blockRequest block).raw with
  | true =>
      have all : (content block).length = (input.blockRequest block).len := by
        rw [yields.raw raw]
        exact yields.contained
      have copied := fits.copied raw
      have raw' : Request.raw
          { input.blockRequest block with offset := offset } = true := raw
      rw [Request.skipRaw_of_raw raw']
      refine ⟨fun _ => ?_, fits.decompressed⟩
      simp only [toUint32]
      omega
  | false =>
      have raw' : Request.raw
          { input.blockRequest block with offset := offset } = false := raw
      rw [Request.skipRaw, raw', if_neg Bool.false_ne_true]
      refine ⟨fun copied => ?_, fits.decompressed⟩
      exact absurd (raw'.symm.trans copied) Bool.false_ne_true

/-- Only blocks that are not longer than `csoBlockSize_` are decompressed. -/
theorem unit_of_decoded
    (formatted : input.Formatted) {block : Nat}
    (decoded : (input.blockRequest block).raw = false) :
    input.csoBlockSize = input.blockUnit := by
  cases type : input.fileType with
  | unknown => exact absurd type formatted.known
  | iso =>
      rw [blockRequest, type] at decoded
      exact nomatch decoded
  | dax => rw [blockUnit, type, (formatted.dax type).1]
  | cso1 | cso2 | zso => rw [blockUnit, type]

/-- A block that yields its content supplies its sectors. -/
theorem supplies_of_yields
    (formatted : input.Formatted) (placed : input.Placed pos)
    (yields : input.Yields env file bufferSize (pos / input.blockUnit)
      (content (pos / input.blockUnit)))
    (whole : input.size % sectorSize = 0)
    (below : (pos : Int) < input.size) (aligned : sectorSize ∣ pos) :
    (input.seek pos).Supplies env file (input.imageOf content)
      bufferSize := by
  have reaches := yields.reaches placed.within whole below aligned
  have sector := sectorAt_imageOf placed yields whole below aligned
  have split := Nat.div_add_mod pos input.blockUnit
  have within := placed.within
  have limit := formatted.cache
  have fits := yields.fits
  have nonneg := yields.nonneg
  have requestEq := placed.request
  generalize blockEq : pos / input.blockUnit = block at *
  generalize offsetEq : pos % input.blockUnit = offset at *
  cases raw : (input.blockRequest block).raw with
  | true =>
      have all : (content block).length = (input.blockRequest block).len := by
        rw [yields.raw raw]
        exact yields.contained
      have shorter : toUint32
          ((input.blockRequest block).len - (offset : Int)) =
            (input.blockRequest block).len - offset := by
        simp only [toUint32, maxBlockSize] at *
        omega
      have raw' : Request.raw
          { input.blockRequest block with offset := offset } = true := raw
      rw [Request.skipRaw_of_raw raw', shorter] at requestEq
      dsimp only at requestEq
      have place : ((input.blockRequest block).pos + (offset : Int)).toNat =
          (input.blockRequest block).pos.toNat + offset := by
        omega
      have bytes : (input.seek pos).request.bytes file =
          (content block).drop offset := by
        rw [requestEq, yields.raw raw, Request.bytes, Request.bytes,
          FileBytes.pread, FileBytes.pread, List.drop_take, List.drop_drop,
          place]
      refine ⟨?_, ?_, ?_, fun _ => ?_, ?_⟩
      · rw [requestEq]
        exact Int.add_nonneg nonneg (Int.natCast_nonneg _)
      · rw [Request.Contained, bytes, List.length_drop, all, requestEq]
      · rw [requestEq]
        exact (Nat.sub_le _ _).trans fits
      · rw [bytes]
        show _ = sectorAt (input.imageOf content) pos
        rw [sector, sectorIn, blockEq, offsetEq]
        rfl
      · intro decoded
        rw [requestEq] at decoded
        exact absurd (raw'.symm.trans decoded) Bool.noConfusion
  | false =>
      obtain ⟨limited, works⟩ := yields.decoded raw
      have unit := unit_of_decoded formatted raw
      have raw' : Request.raw
          { input.blockRequest block with offset := offset } = false := raw
      rw [Request.skipRaw, raw', if_neg Bool.false_ne_true] at requestEq
      have start : ((pos : Int) - offset).toNat =
          input.blockUnit * block := by
        omega
      refine ⟨?_, ?_, ?_, ?_, fun _ => ⟨content block, ?_, ?_, ?_, limited,
        ?_⟩⟩
      · rw [requestEq]
        exact nonneg
      · rw [requestEq]
        exact yields.contained
      · rw [requestEq]
        exact fits
      · intro decoded
        rw [requestEq] at decoded
        exact absurd (raw'.symm.trans decoded) Bool.noConfusion
      · intro pool same
        rw [requestEq]
        exact works pool same
      · rw [requestEq]
        show _ ∨ input.size ≤ (pos : Int) - offset + _
        rcases yields.full with full | full
        · rcases placed.units with divides | short
          · left
            have same : (content block).length = input.blockUnit :=
              Nat.le_antisymm (by rwa [← unit]) full
            rwa [same]
          · right
            omega
        · right
          push_cast at *
          omega
      · rw [requestEq]
        show offset < _
        simp only [sectorSize] at reaches
        omega
      · rw [requestEq]
        show FileBytes.pread _ ((pos : Int) - offset).toNat _ <+: _
        rw [start]
        exact BlockImage.pread_assemble_prefix (by rwa [← unit])

/-- What is assumed of the blocks of the image. -/
structure Sound (env : Environment) (file : Bytes) (bufferSize : Nat)
    (content : Nat → Bytes) (input : Input) : Prop where
  yields : ∀ block : Nat,
    ((input.blockUnit * block : Nat) : Int) < input.size →
      input.Yields env file bufferSize block (content block)
  first : input.ReadsFirst
  divide : input.BlocksDivide

theorem sound_found
    (sound : input.Sound env file bufferSize content) :
    input.found.Sound env file bufferSize content :=
  ⟨fun block below =>
    have yields := sound.yields block below
    ⟨yields.nonneg, yields.contained, yields.fits, yields.raw,
      yields.decoded, yields.full⟩,
    sound.first, sound.divide⟩

theorem Formatted.of_found
    (formatted : input.Formatted) {input' : Input}
    (found : input'.found = input.found) : input'.Formatted := by
  have same : input'.found.Formatted := by
    rw [found]
    exact ⟨formatted.known, formatted.cso, formatted.dax, formatted.cache⟩
  exact ⟨same.known, same.cso, same.dax, same.cache⟩

/-- The blocks serve the reader with their image. -/
theorem served_of_sound
    (complete : env.CompleteReads file)
    (works : ∀ count, env.workStatus count ≠ -1)
    (formatted : input.Formatted) (whole : input.size % sectorSize = 0)
    (sound : input.Sound env file bufferSize content)
    (start : input.pos = 0) :
    Served env file (input.imageOf content) bufferSize input := by
  refine ⟨complete, works, BlockImage.length_assemble.symm, ?_, ?_⟩
  · intro more
    have first := sound.first more
    rw [← start] at first
    exact decide_eq_false first
  · intro pos nonneg below aligned
    obtain ⟨place, rfl⟩ := Int.eq_ofNat_of_zero_le nonneg
    have divides : sectorSize ∣ place := by
      simp only [sectorSize] at *
      omega
    have inBlock : input.blockUnit * (place / input.blockUnit) ≤ place :=
      Nat.mul_div_le place input.blockUnit
    exact supplies_of_yields formatted
      (placed formatted sound.divide whole below divides)
      (sound.yields _ (by omega)) whole below divides

end

/-! ## What the detection leaves -/

theorem growCacheSize_le
    (fuel : Nat) {minSize : Nat} (small : minSize ≤ maxBlockSize) :
    growCacheSize fuel minSize ≤ maxBlockSize := by
  induction fuel generalizing minSize with
  | zero => exact small
  | succ fuel inductionHypothesis =>
      rw [growCacheSize]
      by_cases grows : minSize < 32768
      · rw [if_pos grows]
        apply inductionHypothesis
        simp only [maxBlockSize]
        omega
      · rw [if_neg grows]
        exact small

end Input

/-- What is known of the format while it is detected. -/
def Phase.Formats (input : Input) : Phase → Prop
  | waiting .stat => input.fileType = .iso
  | waiting (.readIndex _) | waiting (.readTables ..) | beginning _ =>
      input.Formatted ∧ input.cachePos = input.size
  | _ => True

theorem Phase.Formats.of_found
    {input input' : Input} {phase : Phase} (formats : phase.Formats input)
    (found : input'.found = input.found)
    (cachePos : input'.cachePos = input.cachePos) :
    phase.Formats input' := by
  have fileType : input'.fileType = input.fileType := by
    show input'.found.fileType = input.found.fileType
    rw [found]
  have size : input'.size = input.size := by
    show input'.found.size = input.found.size
    rw [found]
  cases phase with
  | waiting request =>
      cases request with
      | stat => exact fileType.trans formats
      | readIndex | readTables =>
          refine ⟨formats.1.of_found found, ?_⟩
          rw [cachePos, size]
          exact formats.2
      | readHeader | readBlock | decompress => trivial
  | beginning =>
      refine ⟨formats.1.of_found found, ?_⟩
      rw [cachePos, size]
      exact formats.2
  | _ => trivial

namespace Input

section

variable {input : Input}

theorem formats_ask
    (pool : BufferPool) (request : InputRequest)
    (idle : input.inFlight = [])
    (formats : (Phase.waiting request).Formats input) :
    Phase.Formats (input.ask request)
      (InputResult.phase ⟨input.ask request, pool, []⟩) := by
  have phaseEq :
      InputResult.phase ⟨input.ask request, pool, []⟩ = .waiting request := by
    simp [InputResult.phase, ask, idle]
  rw [phaseEq]
  cases request with
  | stat => exact formats
  | readIndex | readTables =>
      exact ⟨formats.1.of_found rfl, formats.2⟩
  | readHeader | readBlock | decompress => trivial

theorem formats_begin
    (pool : BufferPool) (size : Int) (formatted : input.Formatted)
    (cachePos : input.cachePos = input.size) :
    Phase.Formats input
      (InputResult.phase ⟨input, pool, [.begin size, .readSector]⟩) :=
  ⟨formatted, cachePos⟩

theorem wordAt_lt (bytes : Bytes) (offset width : Nat) :
    wordAt bytes offset width < 256 ^ width :=
  (LittleEndian.decode_lt _).trans_le
    (Nat.pow_le_pow_right (by decide) (List.length_take_le _ _))

theorem not_cso_of_dax
    {type : FileType} (same : type = .dax) :
    ¬ (type = .cso1 ∨ type = .cso2 ∨ type = .zso) := by
  simp [same]

/-- Every completion during the detection leaves what it should. -/
theorem complete_formats
    (env : Environment) (idle : input.inFlight = []) (pool : BufferPool)
    {request : InputRequest} (detects : request.detects = true)
    (formats : (Phase.waiting request).Formats input) :
    (input.complete env pool request).phase.Formats
      (input.complete env pool request).input := by
  cases request with
  | readHeader headerBuf =>
      simp only [complete, onHeaderRead, detectCso, detectDax]
      repeat' split
      · trivial
      · trivial
      · trivial
      · have accepted := csoRejection_none ‹_›
        apply formats_ask
        · exact idle
        · refine ⟨⟨csoFileType_ne_unknown _, fun _ => ⟨rfl, accepted.2.1⟩,
            fun dax => ?_, ?_⟩, rfl⟩
          · exact absurd (csoFileType_cases _) (not_cso_of_dax dax)
          · exact growCacheSize_le 4 accepted.2.2.1
      · trivial
      · trivial
      · apply formats_ask
        · exact idle
        · refine ⟨⟨FileType.noConfusion, fun cso => ?_, fun _ => ⟨rfl, ?_⟩,
            ?_⟩, rfl⟩
          · exact absurd cso (not_cso_of_dax rfl)
          · exact Int.ofNat_lt.mpr (wordAt_lt _ 4 4)
          · exact @growCacheSize_le 4 daxFrameSize (by decide)
      · exact formats_ask _ _ idle rfl
  | readIndex bytes =>
      obtain ⟨formatted, cachePos⟩ := formats
      simp only [complete, onIndexRead]
      repeat' split
      · trivial
      · trivial
      · exact ⟨⟨formatted.known, formatted.cso, formatted.dax,
          formatted.cache⟩, cachePos⟩
  | readTables frames areas bytes =>
      obtain ⟨formatted, cachePos⟩ := formats
      simp only [complete, onTablesRead]
      repeat' split
      · trivial
      · trivial
      · exact ⟨⟨formatted.known, formatted.cso, formatted.dax,
          formatted.cache⟩, cachePos⟩
  | stat =>
      have type : input.fileType = .iso := formats
      simp only [complete, onStat]
      repeat' split
      · trivial
      · trivial
      · refine formats_begin _ _ ⟨?_, fun cso => ?_, fun dax => ?_, ?_⟩ rfl
        · simp [setupCache, type]
        · simp [setupCache, type] at cso
        · simp [setupCache, type] at dax
        · exact @growCacheSize_le 4 sectorSize (by decide)
  | readBlock | decompress => cases detects

end

end Input

namespace Reader

/-- Once `begin_` has been called, other holders of the pool do not resize
it. -/
def KeepsPoolBegun (reader : Reader) (event : ReaderEvent) : Prop :=
  reader.begun ≠ [] → reader.KeepsPool event

/-- The reader before the call of `begin_`. -/
structure Awaiting (file : Bytes) (events : List ReaderEvent)
    (core : Reader) (phase : Phase) : Prop where
  early : phase.detecting = true ∨
    (∃ reason, phase = .finishing false reason) ∨ phase = .stopped
  delivered : core.delivered = []
  failed : ∀ outcome ∈ core.finished, outcome.1 = false
  formats : phase.Formats core.input
  cached : Cached file core phase
  budget : InBudget events core.input.size core.remaining phase

/-- The reader on its way to deliver the image of the blocks. -/
structure Ordering (env : Environment) (file : Bytes)
    (content : Nat → Bytes) (events : List ReaderEvent) (core : Reader)
    (phase : Phase) : Prop where
  cached : Cached file core phase
  delivering : Delivering env file (core.input.found.imageOf content)
    core.pool.bufferSize core.input.found core phase
  budget : InBudget events core.input.size core.remaining phase

/-- The reader after the call of `begin_`; what it does depends on the
blocks. -/
structure Begun (env : Environment) (file : Bytes) (content : Nat → Bytes)
    (events : List ReaderEvent) (core : Reader) (phase : Phase) : Prop where
  late : phase.detecting = false
  formatted : core.input.found.Formatted
  aligned : core.input.size % sectorSize = 0
  ordering :
    core.input.found.Sound env file core.pool.bufferSize content →
      Ordering env file content events core phase

/-- The reader before or after that call. -/
def Underway (env : Environment) (file : Bytes) (content : Nat → Bytes)
    (events : List ReaderEvent) (core : Reader) (phase : Phase) : Prop :=
  (core.begun = [] ∧ Awaiting file events core phase) ∨
    (core.begun ≠ [] ∧ Begun env file content events core phase)

section

variable {env : Environment} {file : Bytes} {content : Nat → Bytes}
variable {core core' : Reader} {phase phase' : Phase} {event : ReaderEvent}
variable {events : List ReaderEvent}

theorem cacheServes_of_awaiting
    (awaiting : Awaiting file events core phase) (event : ReaderEvent) :
    (core.enter phase).CacheServes file event := by
  cases event with
  | run =>
      intro rest calls
      rcases awaiting.early with detecting | ⟨reason, rfl⟩ | rfl
      · cases phase with
        | reading => exact nomatch detecting
        | _ => exact nomatch calls
      · exact nomatch calls
      · exact nomatch calls
  | _ => trivial

theorem reaches_of_awaiting
    (awaiting : Awaiting file events core phase) (event : ReaderEvent) :
    (core.enter phase).Reaches env event := by
  cases event with
  | complete position =>
      intro actualBuf source offset isLz4 data asked
      rcases awaiting.early with detecting | ⟨reason, rfl⟩ | rfl
      · cases phase with
        | waiting request =>
            cases position with
            | zero =>
                obtain rfl : request = _ := Option.some.inj asked
                exact nomatch detecting
            | succ position => exact nomatch asked
        | _ => exact nomatch asked
      · exact nomatch asked
      · exact nomatch asked
  | _ => trivial

theorem Awaiting.detect
    {request : InputRequest} (complete : env.CompleteReads file)
    (awaiting : Awaiting file events core (.waiting request))
    (track : OnTrack core (.waiting request))
    (detects : request.detects = true) :
    Awaiting file (events ++ [.complete 0])
      { core with
        input := (core.detected env request).input
        pool := (core.detected env request).pool }
      (core.detected env request).phase := by
  have move := @Move.detect Input.fetchCached env core request detects
  have frame := detected_frame env detects track.aligned
  refine ⟨?_, awaiting.delivered, awaiting.failed, ?_, ?_, ?_⟩
  · rcases frame.phase with finishing | ⟨detecting, _, _⟩
    · exact Or.inr (Or.inl finishing)
    · exact Or.inl detecting
  · have formats : (Phase.waiting request).Formats
        (core.enter .stopped).input :=
      awaiting.formats.of_found rfl rfl
    exact Input.complete_formats env rfl core.pool detects formats
  · exact awaiting.cached.move complete track
      (cacheServes_of_awaiting awaiting _) move
  · exact inBudget_move awaiting.budget track
      (reaches_of_awaiting awaiting _) move

/-- Using data is past the detection. -/
theorem detecting_usePhase
    (env : Environment) (core : Reader) (request : Request) (data : Bytes) :
    (core.usePhase env request data).detecting = false := by
  unfold usePhase
  split <;> rfl

/-- Past the detection nothing is found out any more, and the pool keeps its
size. -/
theorem found_move
    (late : phase.detecting = false)
    (keeps : (core.enter phase).KeepsPool event)
    (move : Move Input.fetchCached env core phase event core' phase') :
    core'.input.found = core.input.found ∧
      core'.pool.bufferSize = core.pool.bufferSize ∧
      core'.begun = core.begun ∧ phase'.detecting = false := by
  cases move with
  | pause | resume => exact ⟨rfl, rfl, rfl, late⟩
  | otherPool => exact ⟨rfl, keeps, rfl, late⟩
  | detect request detects => exact absurd (detects.symm.trans late) (by simp)
  | begin => exact nomatch late
  | use | blockRead =>
      exact ⟨rfl, BufferPool.alloc_bufferSize _ _, rfl,
        detecting_usePhase _ _ _ _⟩
  | subBlock block =>
      refine ⟨rfl, ?_, rfl, rfl⟩
      show (core.subBuffer env block).2.bufferSize = _
      unfold subBuffer
      split
      · rfl
      · exact BufferPool.alloc_bufferSize _ _
  | _ => exact ⟨rfl, rfl, rfl, rfl⟩

theorem Begun.move
    (complete : env.CompleteReads file)
    (works : ∀ count, env.workStatus count ≠ -1)
    (begun : Begun env file content events core phase)
    (track : OnTrack core phase)
    (keeps : (core.enter phase).KeepsPool event)
    (move : Move Input.fetchCached env core phase event core' phase') :
    Begun env file content (events ++ [event]) core' phase' := by
  obtain ⟨found, bufferSize, _, late⟩ := found_move begun.late keeps move
  have size : core'.input.size = core.input.size := by
    show core'.input.found.size = core.input.found.size
    rw [found]
  refine ⟨late, by rw [found]; exact begun.formatted,
    by rw [size]; exact begun.aligned, fun sound => ?_⟩
  rw [found, bufferSize] at sound
  obtain ⟨cached, delivering, budget⟩ := begun.ordering sound
  have served := Input.served_of_sound complete works begun.formatted
    begun.aligned sound rfl
  have serves := delivering.serves served track event
  have reaches := delivering.reaches served track event
  refine ⟨cached.move complete track serves move, ?_,
    inBudget_move budget track reaches move⟩
  rw [found, bufferSize]
  exact delivering.move served track cached keeps move

/-- Returning from `begin_`, the reader is ready to read the first block. -/
theorem Awaiting.begin
    (complete : env.CompleteReads file) {size : Int}
    (awaiting : Awaiting file events core (.beginning size))
    (track : OnTrack core (.beginning size)) :
    Begun env file content (events ++ [.run])
      { core with begun := core.begun ++ [size] } .reading := by
  have move := @Move.begin Input.fetchCached env core size
  obtain ⟨formatted, cachePos⟩ := awaiting.formats
  have pos : core.input.pos = 0 := by
    have position := track.pos
    simp only [awaiting.delivered, List.length_nil, Phase.lag] at position
    omega
  refine ⟨rfl, formatted.of_found rfl, track.aligned rfl,
    fun sound => ⟨?_, ?_, ?_⟩⟩
  · exact awaiting.cached.move complete track
      (cacheServes_of_awaiting awaiting _) move
  · refine .within rfl rfl ?_ rfl (fun _ => ⟨cachePos, pos⟩)
      (fun uses => absurd uses Bool.false_ne_true) trivial
    rw [awaiting.delivered]
    rfl
  · exact inBudget_move awaiting.budget track
      (reaches_of_awaiting awaiting _) move

/-- Every move keeps the reader underway. -/
theorem underway_move
    (complete : env.CompleteReads file)
    (works : ∀ count, env.workStatus count ≠ -1)
    (underway : Underway env file content events core phase)
    (track : OnTrack core phase)
    (keeps : (core.enter phase).KeepsPoolBegun event)
    (move : Move Input.fetchCached env core phase event core' phase') :
    Underway env file content (events ++ [event]) core' phase' := by
  rcases underway with ⟨none, awaiting⟩ | ⟨some, begun⟩
  · have cached := awaiting.cached.move complete track
      (cacheServes_of_awaiting awaiting event) move
    have budget := inBudget_move awaiting.budget track
      (reaches_of_awaiting awaiting event) move
    cases move with
    | pause | resume | otherPool =>
        exact Or.inl ⟨none, awaiting.early, awaiting.delivered,
          awaiting.failed, awaiting.formats.of_found rfl rfl,
          cached, budget⟩
    | detect request detects =>
        exact Or.inl ⟨none, awaiting.detect complete track detects⟩
    | begin size =>
        exact Or.inr ⟨List.append_ne_nil_of_right_ne_nil _ nofun,
          awaiting.begin complete track⟩
    | finish success reason =>
        refine Or.inl ⟨none, Or.inr (Or.inr rfl), awaiting.delivered, ?_,
          trivial, cached, budget⟩
        intro outcome member
        rcases List.mem_append.mp member with earlier | latest
        · exact awaiting.failed outcome earlier
        · rw [List.mem_singleton.mp latest]
          rcases awaiting.early with detecting | ⟨_, same⟩ | same
          · exact nomatch detecting
          · injection same
          · exact nomatch same
    | _ =>
        rcases awaiting.early with detecting | ⟨_, same⟩ | same
        · exact nomatch detecting
        · exact nomatch same
        · exact nomatch same
  · have keeps' := keeps some
    obtain ⟨_, _, same, _⟩ := found_move begun.late keeps' move
    exact Or.inr ⟨by rwa [same],
      begun.move complete works track keeps' move⟩

/-- The next step of a reader over blocks that fit a buffer stays inside its
memory. -/
theorem Begun.staysInside
    (begun : Begun env file content events core phase)
    (track : OnTrack core phase)
    (sound : core.input.found.Sound env file core.pool.bufferSize content)
    (fits : ∀ block : Nat,
      ((core.input.blockUnit * block : Nat) : Int) < core.input.size →
        core.input.FitsBuffer core.pool.bufferSize block)
    (tables : core.input.TablesHold) (event : ReaderEvent) :
    (core.enter phase).StaysInside Input.fetchCached env event := by
  -- What is read for the sector at `pos_`, in the phases that read it.
  have request_fits (settled : phase.lag = 0)
      (more : core.input.pos < core.input.size) :
      (∀ entry ∈ core.input.entriesUsed, entry < core.input.tableLength) ∧
        (core.input.request.raw = true →
          core.input.request.len ≤ core.pool.bufferSize) ∧
        (core.input.request.compressedLz4 = true →
          core.input.csoBlockSize ≤ core.pool.bufferSize) := by
    obtain ⟨nonneg, whole⟩ := track.sectorPos settled
    obtain ⟨pos, same⟩ := Int.eq_ofNat_of_zero_le nonneg
    rw [same] at whole more
    have aligned : sectorSize ∣ pos := by
      simp only [sectorSize] at *
      omega
    have inBlock := Nat.mul_div_le pos core.input.found.blockUnit
    have block : ((core.input.found.blockUnit *
        (pos / core.input.found.blockUnit) : Nat) : Int) <
          core.input.size := by omega
    have seek : core.input.seek pos = core.input := by
      rw [Input.seek, ← same]
    have lookups := tables.lookups pos more aligned
    have placed := Input.placed begun.formatted sound.divide begun.aligned
      more aligned
    have read := Input.request_fits placed (sound.yields _ block)
      ⟨(fits _ block).copied, (fits _ block).decompressed⟩ begun.aligned more
      aligned
    have found : (core.input.found.seek pos).request = core.input.request := by
      rw [← same]
      exact Input.request_found core.input
    rw [seek] at lookups
    rw [found] at read
    exact ⟨lookups, read⟩
  cases event with
  | run =>
      intro rest calls more _
      cases phase with
      | reading =>
          obtain ⟨lookups, copied, _⟩ := request_fits rfl more
          exact ⟨lookups, tables.shift, fun _ _ => copied⟩
      | _ => cases calls
  | complete position =>
      cases phase with
      | waiting request =>
          have only {request' : InputRequest}
              (asked : ([request] : List InputRequest)[position]? =
                some request') : request' = request := by
            exact List.mem_singleton.mp (List.mem_of_getElem? asked)
          have supplied := (begun.ordering sound).delivering.supplied
          have more (late : request.detects = false) :
              core.input.pos < core.input.size :=
            track.inside (by simp [Phase.atSector, late])
          refine ⟨?_, ?_, ?_⟩
          · intro frames areas bytes data asked
            obtain rfl := only asked
            cases begun.late
          · intro asked size data found _ _ raw
            obtain rfl := only found
            have same : asked = core.input.request := supplied
            rw [same] at raw ⊢
            exact (request_fits rfl (more rfl)).2.1 raw
          · intro actualBuf source offset found
            obtain rfl := only found
            exact (request_fits rfl (more rfl)).2.2 supplied.2.2.2.symm
      | _ =>
          refine ⟨?_, ?_, ?_⟩
          · intro _ _ _ _ asked
            cases asked
          · intro _ _ _ asked
            cases asked
          · intro _ _ _ asked
            cases asked
  | _ => trivial

/-- A reader that has one thing to do at most and has passed on the first
sectors of the blocks, in order.  Once it has called `begin_` it reports
success after the last sector or nothing, and what it does next stays inside
its memory.  It has not taken too many steps, and it can go on unless it has
finished or is paused. -/
structure InOrder (target : Reader) (env : Environment)
    (content : Nat → Bytes) (events : List ReaderEvent) : Prop where
  outstanding : target.input.inFlight.length ≤ 1
  parked : target.input.resumeShouldRead = true → target.input.inFlight = []
  delivered : target.delivered.map Delivery.content =
    (List.range target.delivered.length).map fun sector =>
      (((sectorSize * sector : Nat) : Int),
        target.input.sectorIn content (sectorSize * sector))
  inside : sectorSize * target.delivered.length ≤ target.input.size.toNat
  refused : target.begun = [] →
    target.delivered = [] ∧ ∀ outcome ∈ target.finished, outcome.1 = false
  finished : target.begun ≠ [] →
    target.finished = [] ∨
      target.finished = [(true, "")] ∧
        sectorSize * target.delivered.length = target.input.size.toNat
  memory : target.begun ≠ [] → ∀ event,
    target.StaysInside Input.fetchCached env event
  bounded : (events.map ReaderEvent.cost).sum ≤
    8 * (target.input.size.toNat / sectorSize) + 5 +
      (events.map ReaderEvent.credit).sum
  goesOn : target.finished = [] → target.input.paused = false →
    ∃ event, event.cost = 1 ∧
      (step Input.fetchCached env target event).isSome = true

theorem one_outstanding (core : Reader) (phase : Phase) :
    (core.enter phase).input.inFlight.length ≤ 1 ∧
      ((core.enter phase).input.resumeShouldRead = true →
        (core.enter phase).input.inFlight = []) := by
  cases phase with
  | waiting request => exact ⟨Nat.le_refl _, nofun⟩
  | parked => exact ⟨Nat.zero_le _, fun _ => rfl⟩
  | _ => exact ⟨Nat.zero_le _, nofun⟩

theorem InBudget.bounded
    {size : Int} {remaining : Nat}
    (budget : InBudget events size remaining phase) :
    (events.map ReaderEvent.cost).sum ≤
      8 * (size.toNat / sectorSize) + 5 +
        (events.map ReaderEvent.credit).sum := by
  unfold InBudget at budget
  by_cases early : phase.stage < 2
  · rw [if_pos early] at budget
    omega
  · rw [if_neg early] at budget
    omega

theorem Awaiting.inOrder
    (awaiting : Awaiting file events core phase)
    (track : OnTrack core phase) (none : core.begun = []) :
    (core.enter phase).InOrder env content events := by
  obtain ⟨outstanding, parked⟩ := one_outstanding core phase
  refine ⟨outstanding, parked, ?_, track.bounded,
    fun _ => ⟨awaiting.delivered, awaiting.failed⟩,
    fun some => absurd none some, fun some => absurd none some,
    awaiting.budget.bounded, ?_⟩
  · show core.delivered.map Delivery.content =
      (List.range core.delivered.length).map _
    rw [awaiting.delivered]
    rfl
  · intro unfinished _
    have unfinished' : core.finished = [] := unfinished
    rcases awaiting.early with detecting | ⟨reason, rfl⟩ | rfl
    · cases phase with
      | waiting request => exact ⟨.complete 0, rfl, rfl⟩
      | beginning size => exact ⟨.run, rfl, rfl⟩
      | _ => exact nomatch detecting
    · exact ⟨.run, rfl, rfl⟩
    · have reported := track.reported
      rw [unfinished'] at reported
      exact nomatch reported

theorem Begun.inOrder
    (complete : env.CompleteReads file)
    (works : ∀ count, env.workStatus count ≠ -1)
    (begun : Begun env file content events core phase)
    (track : OnTrack core phase) (some : core.begun ≠ [])
    (sound : core.input.Sound env file core.pool.bufferSize content)
    (fits : ∀ block : Nat,
      ((core.input.blockUnit * block : Nat) : Int) < core.input.size →
        core.input.FitsBuffer core.pool.bufferSize block)
    (tables : core.input.TablesHold) :
    (core.enter phase).InOrder env content events := by
  obtain ⟨outstanding, parked⟩ := one_outstanding core phase
  have sound' := Input.sound_found sound
  have formatted := begun.formatted
  obtain ⟨_, delivering, budget⟩ := begun.ordering sound'
  have served := Input.served_of_sound complete works formatted
    begun.aligned sound' rfl
  refine ⟨outstanding, parked, ?_, track.bounded,
    fun none => absurd none some, fun _ => ?_,
    fun _ => begun.staysInside track sound' fits tables, budget.bounded,
    delivering.goesOn⟩
  · show core.delivered.map Delivery.content =
      (List.range core.delivered.length).map _
    rw [delivering.delivered, sectorsOf]
    apply List.map_congr_left
    intro sector member
    have last := List.mem_range.mp member
    have bounded := track.bounded
    have below : ((sectorSize * sector : Nat) : Int) <
        core.input.found.size := by
      show _ < core.input.size
      simp only [sectorSize] at *
      omega
    have aligned : sectorSize ∣ sectorSize * sector := Nat.dvd_mul_right _ _
    have inBlock := Nat.mul_div_le (sectorSize * sector)
      core.input.found.blockUnit
    rw [Input.sectorAt_imageOf
      (Input.placed formatted sound'.divide begun.aligned below aligned)
      (sound'.yields _ (by omega)) begun.aligned below aligned]
    rfl
  · have finished := delivering.finished served track
    rwa [← served.size] at finished

/-- When the blocks can be read and decompressed and fit a buffer, the first
of them is not taken for cached, and blocks are addressed by division inside
the tables, the reader passes on all sectors once and in order, however it is
paused and resumed. -/
theorem delivers_in_order
    (complete : env.CompleteReads file)
    (works : ∀ count, env.workStatus count ≠ -1) (pool : BufferPool)
    {target : Reader}
    (run : Execution (step Input.fetchCached env) KeepsPoolBegun
      (start env pool) events target)
    (yields : target.begun ≠ [] →
      ∀ block : Nat,
        ((target.input.blockUnit * block : Nat) : Int) < target.input.size →
          target.input.Yields env file target.pool.bufferSize block
            (content block))
    (fits : target.begun ≠ [] →
      ∀ block : Nat,
        ((target.input.blockUnit * block : Nat) : Int) < target.input.size →
          target.input.FitsBuffer target.pool.bufferSize block)
    (first : target.begun ≠ [] → target.input.ReadsFirst)
    (divide : target.begun ≠ [] → target.input.BlocksDivide)
    (tables : target.begun ≠ [] → target.input.TablesHold) :
    target.InOrder env content events := by
  obtain ⟨core, phase, ⟨rfl, _, track⟩, underway⟩ :=
    track_moves
      (fun events core phase event core' phase' underway track keeps move =>
        underway_move complete works underway track keeps move)
      (situated_start env pool) run
      (Or.inl ⟨rfl, Or.inl rfl, rfl, nofun, trivial,
        cached_start env file pool, Nat.le_refl _⟩)
  rcases underway with ⟨none, awaiting⟩ | ⟨some, begun⟩
  · exact awaiting.inOrder track none
  · have sound : (core.enter phase).input.Sound env file
        core.pool.bufferSize content :=
      ⟨yields some, first some, divide some⟩
    have blocks (block : Nat)
        (below : ((core.input.blockUnit * block : Nat) : Int) <
          core.input.size) :
        core.input.FitsBuffer core.pool.bufferSize block :=
      ⟨(fits some block below).copied, (fits some block below).decompressed⟩
    have tables : core.input.TablesHold :=
      ⟨(tables some).marks, (tables some).lookups, (tables some).shift⟩
    refine begun.inOrder complete works track some ?_ blocks tables
    exact ⟨fun block below =>
      have yields := sound.yields block below
      ⟨yields.nonneg, yields.contained, yields.fits, yields.raw,
        yields.decoded, yields.full⟩,
      sound.first, sound.divide⟩

end

/-! ## The file of three blocks -/

theorem keepsPoolBegun_of_stepCheck
    {env : Environment} {length : Nat} {reader : Reader} {event : ReaderEvent}
    (checked : reader.stepCheck env length event = true) :
    reader.KeepsPoolBegun event := by
  intro _
  cases event with
  | otherPool pool => cases checked
  | _ => trivial

/-- What the blocks of `threeBlockFile` stand for. -/
def threeBlockContent (block : Nat) : Bytes :=
  if block = 1 then List.replicate 4096 7 else List.replicate 4096 0

section

variable {input : Input}

theorem ThreeBlocks.requests (found : ThreeBlocks input) :
    input.blockRequest 0 = ⟨40, 24, 0, true, false⟩ ∧
      input.blockRequest 1 = ⟨64, 4096, 0, false, false⟩ ∧
      input.blockRequest 2 = ⟨4160, 20, 0, true, false⟩ := by
  obtain ⟨fileType, _, shift, _, _, _, first, second, third, last⟩ := found
  simp only [Input.blockRequest, Input.csoCodec, fileType, shift, first,
    second, third, last]
  decide

theorem ThreeBlocks.block_cases (found : ThreeBlocks input) {block : Nat}
    (below : ((input.blockUnit * block : Nat) : Int) < input.size) :
    block = 0 ∨ block = 1 ∨ block = 2 := by
  obtain ⟨fileType, size, _, _, blockSize, _⟩ := found
  rw [size, Input.blockUnit, fileType] at below
  dsimp only at below
  rw [blockSize] at below
  omega

/-- A block that is kept as a stream. -/
theorem ThreeBlocks.yields_stream (found : ThreeBlocks input)
    {bufferSize block pos len : Nat} (fits : len ≤ 32768)
    (request : input.blockRequest block = ⟨pos, len, 0, true, false⟩)
    (contained : pos + len ≤ threeBlockFile.length)
    (stream : (FileBytes.pread threeBlockFile pos len).take 20 =
      zeroBlockStream) :
    input.Yields threeBlockEnv threeBlockFile bufferSize block
      (List.replicate 4096 0) := by
  obtain ⟨fileType, _, _, _, blockSize, cacheSize, _⟩ := found
  have unit : input.blockUnit = 4096 := by
    rw [Input.blockUnit, fileType, blockSize]
  have whole : (List.replicate 4096 (0 : UInt8)).length = 4096 :=
    List.length_replicate
  constructor
  · rw [request]
    exact Int.natCast_nonneg _
  · rw [request]
    exact FileBytes.length_pread_of_le contained
  · rw [request, cacheSize]
    exact fits
  · intro raw
    rw [request] at raw
    cases raw
  · intro _
    rw [request, blockSize]
    refine ⟨whole.le, ?_⟩
    intro pool _
    have enough : ¬ (List.replicate 4096 (0 : UInt8)).length < sectorSize := by
      rw [whole]
      decide
    have bytes : Request.bytes ⟨pos, len, 0, true, false⟩ threeBlockFile =
        FileBytes.pread threeBlockFile pos len := rfl
    rw [bytes, Input.decompressWork, if_neg Bool.false_ne_true,
      Input.decompressSectorDeflate, threeBlockEnv_inflates stream]
    simp only [enough, if_false]
  · rw [unit, whole]
    exact Or.inl (Nat.le_refl _)

theorem ThreeBlocks.yields (found : ThreeBlocks input) (bufferSize : Nat)
    {block : Nat}
    (below : ((input.blockUnit * block : Nat) : Int) < input.size) :
    input.Yields threeBlockEnv threeBlockFile bufferSize block
      (threeBlockContent block) := by
  obtain ⟨first, second, third⟩ := found.requests
  obtain ⟨stream, raw, last⟩ := threeBlockFile_bytes
  rcases found.block_cases below with rfl | rfl | rfl
  · refine found.yields_stream (by decide) first ?_ ?_
    · rw [threeBlockFile_length]
      decide
    · rw [stream]
      rfl
  · obtain ⟨fileType, _, _, _, blockSize, cacheSize, _⟩ := found
    have bytes : (input.blockRequest 1).bytes threeBlockFile =
        List.replicate 4096 7 := by
      rw [second]
      exact raw
    have unit : input.blockUnit = 4096 := by
      rw [Input.blockUnit, fileType, blockSize]
    constructor
    · rw [second]
      decide
    · rw [Request.Contained, bytes, second]
      exact List.length_replicate
    · rw [second, cacheSize]
      decide
    · intro _
      exact bytes.symm
    · intro decoded
      rw [second] at decoded
      cases decoded
    · rw [unit]
      exact Or.inl List.length_replicate.ge
  · refine found.yields_stream (by decide) third ?_ ?_
    · rw [threeBlockFile_length]
    · rw [FileBytes.take_pread _ (Nat.le_refl _)]
      exact last

theorem ThreeBlocks.fits (found : ThreeBlocks input) {block : Nat}
    (below : ((input.blockUnit * block : Nat) : Int) < input.size) :
    input.FitsBuffer 16384 block := by
  obtain ⟨first, second, third⟩ := found.requests
  have blockSize : input.csoBlockSize ≤ 16384 := by
    rw [found.2.2.2.2.1]
    decide
  refine ⟨?_, fun _ => blockSize⟩
  rcases found.block_cases below with rfl | rfl | rfl
  · rw [first]
    decide
  · rw [second]
    decide
  · rw [third]
    decide

theorem ThreeBlocks.addressed (found : ThreeBlocks input) {pos : Nat}
    (below : (pos : Int) < input.size) :
    (input.seek pos).entriesUsed =
        [pos / input.csoBlockSize, pos / input.csoBlockSize + 1] ∧
      (input.seek pos).csoOffset = pos % input.csoBlockSize := by
  obtain ⟨fileType, size, _, blockShift, blockSize, _⟩ := found
  rw [size] at below
  rw [blockSize]
  apply (@Input.addressed_iff threeBlockHeader input ?_ ?_ ?_ ?_ pos ?_).mpr
  · exact agrees_of_isPowerOfTwo ⟨12, rfl⟩ pos
  · rw [blockShift]
    simp [threeBlockHeader, Nat.log2_def]
  · rw [blockSize]
    rfl
  · rw [fileType]
    rfl
  · decide
  · omega

theorem ThreeBlocks.readsFirst (found : ThreeBlocks input) :
    input.ReadsFirst := by
  intro more window
  obtain ⟨entries, offset⟩ := found.addressed more
  obtain ⟨fileType, size, shift, _, blockSize, _, first, second, _⟩ := found
  have request : (input.seek (0 : Nat)).request =
      input.csoRequestAt 0 1 0 :=
    @Input.requested_of_addressed threeBlockHeader input 0
      (by rw [fileType]; rfl) (by rw [entries, offset, blockSize]; decide)
  have start : input.size ≤ (input.seek (0 : Nat)).request.pos := window.1
  rw [request, size] at start
  simp only [Input.csoRequestAt, Input.csoCodec, fileType, shift, first,
    second] at start
  exact absurd start (by decide)

theorem ThreeBlocks.tables (found : ThreeBlocks input) :
    input.TablesHold := by
  have addressed {pos : Nat} := @ThreeBlocks.addressed input found pos
  obtain ⟨fileType, size, shift, blockShift, blockSize, _⟩ := found
  have length : input.tableLength = 4 := by
    simp only [Input.tableLength, fileType, Input.sizeAligned, size,
      blockSize, blockShift]
    decide
  refine ⟨?_, ?_, ?_⟩
  · intro dax
    rw [fileType] at dax
    cases dax
  · intro pos below _ entry used
    rw [(addressed below).1, blockSize] at used
    rw [size] at below
    rw [length]
    simp only [List.mem_cons, List.not_mem_nil, or_false] at used
    omega
  · simp only [Input.positionShift, fileType, shift]
    decide

end

theorem delivers_in_order_threeBlockFile :
    ∃ target : Reader, target.begun = [10240] ∧
      target.finished = [(true, "")] ∧ target.delivered.length = 5 ∧
      target.InOrder threeBlockEnv threeBlockContent threeBlockEvents := by
  obtain ⟨target, ran, finished, count, _, _, _, begun, bufferSize, found⟩ :=
    threeBlock_reached
  refine ⟨target, begun, finished, count, ?_⟩
  exact delivers_in_order threeBlockEnv_completeReads
    (fun _ => (by decide : (0 : Int) ≠ -1)) .initial
    (Execution.of_runEvents
      (fun _ _ checked => keepsPoolBegun_of_stepCheck checked) ran)
    (fun _ _ below => found.yields _ below)
    (fun _ _ below => by rw [bufferSize]; exact found.fits below)
    (fun _ => found.readsFirst)
    (fun _ _ _ below _ => found.addressed below)
    (fun _ => found.tables)

/-! ## Files of one raw sector -/

/-- The only block of the image yields `content` without a codec. -/
def yieldsRaw (file content : Bytes) (input : Input) : Bool :=
  decide (input.size = sectorSize ∧ input.blockUnit = sectorSize ∧
    0 ≤ (input.blockRequest 0).pos ∧
    (input.blockRequest 0).Contained file ∧
    (input.blockRequest 0).len ≤ input.cacheSize ∧
    (input.blockRequest 0).raw = true ∧
    content = (input.blockRequest 0).bytes file ∧
    sectorSize ≤ content.length)

theorem yields_of_yieldsRaw
    {env : Environment} {file content : Bytes} {input : Input}
    (checked : yieldsRaw file content input = true) (bufferSize : Nat)
    {block : Nat}
    (below : ((input.blockUnit * block : Nat) : Int) < input.size) :
    input.Yields env file bufferSize block content := by
  obtain ⟨size, unit, nonneg, contained, fits, raw, same, full⟩ :=
    of_decide_eq_true checked
  obtain rfl : block = 0 := by
    rw [size, unit] at below
    simp only [sectorSize] at below
    omega
  refine ⟨nonneg, contained, fits, fun _ => same, fun decoded => ?_,
    Or.inl (by rwa [unit])⟩
  exact absurd (raw.symm.trans decoded) Bool.noConfusion

/-- A check that other holders leave the pool alone. -/
def alone (_ : Reader) : ReaderEvent → Bool
  | .otherPool _ => false
  | _ => true

theorem keepsPoolBegun_of_alone
    (reader : Reader) (event : ReaderEvent)
    (checked : alone reader event = true) :
    reader.KeepsPoolBegun event := by
  intro _
  cases event with
  | otherPool pool => exact nomatch checked
  | _ => trivial

/-- The only block of `farFile` yields its sector, but the sector that is
passed on is what `new` left in the cache. -/
theorem farFile_out_of_order :
    ∃ (events : List ReaderEvent) (target : Reader),
      Execution (step Input.fetchCached (.ofFile farFile)) KeepsPoolBegun
          (start (.ofFile farFile) .initial) events target ∧
        (∀ block : Nat,
          ((target.input.blockUnit * block : Nat) : Int) <
              target.input.size →
            target.input.Yields (.ofFile farFile) farFile
              target.pool.bufferSize block (List.replicate 2048 7)) ∧
        ¬ target.InOrder (.ofFile farFile)
          (fun _ => List.replicate 2048 7) events := by
  have reached :
      (runEvents
        (guarded alone (step Input.fetchCached (.ofFile farFile)))
        (start (.ofFile farFile) .initial)
        [.complete 0, .complete 0, .run, .run, .run]).any (fun target =>
          yieldsRaw farFile (List.replicate 2048 7) target.input = true ∧
            target.delivered.map (fun delivery =>
              delivery.content.2.head?) = [some 0] ∧
            (target.input.sectorIn (fun _ => List.replicate 2048 7)
              0).head? = some 7) = true := by
    decide +kernel
  obtain ⟨target, ran, facts⟩ := (Option.any_eq_true _ _).mp reached
  simp only [decide_eq_true_eq] at facts
  obtain ⟨yields, delivered, sector⟩ := facts
  refine ⟨_, target, Execution.of_runEvents keepsPoolBegun_of_alone ran,
    fun block below => yields_of_yieldsRaw yields _ below, ?_⟩
  intro ordered
  have one : target.delivered.length = 1 :=
    (List.length_map _).symm.trans (congrArg List.length delivered)
  have order := ordered.delivered
  rw [one] at order
  have heads := congrArg (List.map fun content => content.2.head?) order
  rw [List.map_map, List.map_map] at heads
  have first := delivered.symm.trans heads
  have seven := List.cons.inj first
  exact absurd (seven.1.trans sector) (by decide)

end Reader

end Maxcso
