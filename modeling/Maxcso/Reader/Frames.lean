import Maxcso.Reader.Accesses
import Maxcso.Reader.Documented
import Maxcso.Reader.InOrder

/-!
# DAX files

A DAX file of version 0 or 1 without regard to the reader: a header, a table
of positions, a table of sizes and, in version 1, the areas whose frames are
stored uncompressed.  The reader delivers every such file.
-/

namespace Maxcso

open Transition

/-! ## NC areas -/

/-- `DAXNCArea` -/
structure NcArea where
  start : Nat
  count : Nat
  deriving DecidableEq, Repr

namespace NcArea

def Contains (area : NcArea) (frame : Nat) : Prop :=
  area.start ≤ frame ∧ frame < area.start + area.count

def encode (area : NcArea) : Bytes :=
  LittleEndian.encode 4 area.start ++ LittleEndian.encode 4 area.count

/-- The area has a 32-bit start and no frame from `frames` on. -/
def Within (area : NcArea) (frames : Nat) : Prop :=
  area.start < 2 ^ 32 ∧
    (area.count = 0 ∨ area.start + area.count ≤ frames)

theorem length_encode (area : NcArea) : area.encode.length = 8 := by
  simp [encode]

end NcArea

def encodeAreas (areas : List NcArea) : Bytes :=
  areas.flatMap NcArea.encode

theorem length_encodeAreas (areas : List NcArea) :
    (encodeAreas areas).length = 8 * areas.length := by
  induction areas with
  | nil => rfl
  | cons area areas inductionHypothesis =>
      rw [encodeAreas, List.flatMap_cons, List.length_append,
        NcArea.length_encode, List.length_cons, Nat.mul_succ, Nat.add_comm,
        ← inductionHypothesis, encodeAreas]

theorem drop_encodeAreas (areas : List NcArea) (index : Nat) :
    (encodeAreas areas).drop (8 * index) =
      encodeAreas (areas.drop index) := by
  induction index generalizing areas with
  | zero => rfl
  | succ index inductionHypothesis =>
      cases areas with
      | nil => simp [encodeAreas]
      | cons area areas =>
          rw [List.drop_succ_cons, ← inductionHypothesis, Nat.mul_succ,
            Nat.add_comm, ← List.drop_drop, encodeAreas, List.flatMap_cons,
            List.drop_left' area.length_encode]
          rfl

/-- The start and the count of an area in the list that was read. -/
theorem decode_encodeAreas
    (memory : Nat → UInt8) {areas : List NcArea} {index : Nat}
    {area : NcArea} (here : areas[index]? = some area)
    (start : area.start < 2 ^ 32) (count : area.count < 2 ^ 32) :
    decodeTable 4 (FlatMemory.write memory 0 (encodeAreas areas))
          (2 * index) = area.start ∧
      decodeTable 4 (FlatMemory.write memory 0 (encodeAreas areas))
          (2 * index + 1) = area.count := by
  obtain ⟨below, same⟩ := List.getElem?_eq_some_iff.mp here
  have length := length_encodeAreas areas
  have rest : (encodeAreas areas).drop (8 * index) =
      area.encode ++ encodeAreas (areas.drop (index + 1)) := by
    rw [drop_encodeAreas, List.drop_eq_getElem_cons below, same]
    rfl
  have first := @FlatMemory.read_write_of_le UInt8 memory 0
    (encodeAreas areas) (8 * index) 4 (by omega)
  have second := @FlatMemory.read_write_of_le UInt8 memory 0
    (encodeAreas areas) (8 * index + 4) 4 (by omega)
  rw [← List.drop_drop] at second
  rw [rest, Nat.zero_add, NcArea.encode, List.append_assoc] at first second
  rw [List.take_left' (LittleEndian.length_encode 4 _)] at first
  rw [List.drop_left' (LittleEndian.length_encode 4 _),
    List.take_left' (LittleEndian.length_encode 4 _)] at second
  have place : 4 * (2 * index) = 8 * index := by omega
  have place' : 4 * (2 * index + 1) = 8 * index + 4 := by omega
  refine ⟨?_, ?_⟩
  · rw [decodeTable, place, first]
    exact LittleEndian.decode_encode_of_lt start
  · rw [decodeTable, place', second]
    exact LittleEndian.decode_encode_of_lt count

/-- A frame is marked exactly when some area contains it, whether or not the
areas overlap. -/
theorem markAreas_encodeAreas
    (memory : Nat → UInt8) {areas : List NcArea} {frames : Nat}
    (small : frames < 2 ^ 32)
    (within : ∀ area ∈ areas, area.Within frames) (frame : Nat) :
    Input.markAreas (FlatMemory.write memory 0 (encodeAreas areas))
        areas.length frame = true ↔
      ∃ area ∈ areas, area.Contains frame := by
  rw [Input.markAreas_apply, decide_eq_true_eq]
  simp only [Input.areaMarks, List.mem_flatMap, List.mem_map, List.mem_range]
  constructor
  · rintro ⟨index, below, offset, inside, same⟩
    have member := List.getElem_mem below
    have here := List.getElem?_eq_getElem below
    obtain ⟨start, range⟩ := within _ member
    obtain ⟨startEq, countEq⟩ :=
      decode_encodeAreas memory here start (by omega)
    rw [countEq] at inside
    rw [startEq] at same
    exact ⟨_, member, by unfold NcArea.Contains; omega⟩
  · rintro ⟨area, member, contains⟩
    obtain ⟨index, below, same⟩ := List.getElem_of_mem member
    have here := List.getElem?_eq_getElem below
    rw [same] at here
    obtain ⟨start, range⟩ := within _ member
    obtain ⟨startEq, countEq⟩ :=
      decode_encodeAreas memory here start (by omega)
    unfold NcArea.Contains at contains
    refine ⟨index, below, frame - area.start, ?_, ?_⟩
    · rw [countEq]
      omega
    · rw [startEq]
      omega

/-! ## The header -/

namespace DaxHeader

/-- A header whose fields have their widths. -/
structure Encodable (header : DaxHeader) : Prop where
  magic : header.magic.length = 4
  uncompressedSize : header.uncompressedSize < 2 ^ 32
  version : header.version < 2 ^ 32
  ncAreas : header.ncAreas < 2 ^ 32
  unused : header.unused.length = 4

/-- The fields that the reader looks at. -/
def front (header : DaxHeader) : Bytes :=
  header.magic ++ LittleEndian.encode 4 header.uncompressedSize ++
    LittleEndian.encode 4 header.version ++
    LittleEndian.encode 4 header.ncAreas

variable {header : DaxHeader}

theorem length_front (encodable : header.Encodable) :
    header.front.length = 16 := by
  simp [front, encodable.magic]

theorem take_encode (encodable : header.Encodable) :
    header.encode.take 24 =
      header.front ++
        (header.unused.flatMap (LittleEndian.encode 4)).take 8 := by
  have length := length_front encodable
  have split : header.encode =
      header.front ++ header.unused.flatMap (LittleEndian.encode 4) := rfl
  rw [split, List.take_append, List.take_of_length_le (by omega), length]

theorem decode_front (encodable : header.Encodable) (rest : Bytes) :
    decode (header.front ++ rest) =
      { header with unused := (decode (header.front ++ rest)).unused } := by
  obtain ⟨magic, size, version, ncAreas, unused⟩ := header
  have length : magic.length = 4 := encodable.magic
  simp only [decode, front, DaxHeader.mk.injEq, and_true]
  refine ⟨?_, ?_, ?_, ?_⟩
  · simp only [List.append_assoc]
    exact List.take_left' length
  · have word := @CsoHeader.wordAt_append magic
      (LittleEndian.encode 4 version ++ LittleEndian.encode 4 ncAreas ++
        rest) 4 4 size length encodable.uncompressedSize
    simpa only [List.append_assoc] using word
  · have word := @CsoHeader.wordAt_append
      (magic ++ LittleEndian.encode 4 size)
      (LittleEndian.encode 4 ncAreas ++ rest) 8 4 version
      (by simp [length]) encodable.version
    simpa only [List.append_assoc] using word
  · have word := @CsoHeader.wordAt_append
      (magic ++ LittleEndian.encode 4 size ++
        LittleEndian.encode 4 version)
      rest 12 4 ncAreas (by simp [length]) encodable.ncAreas
    simpa only [List.append_assoc] using word

end DaxHeader

/-! ## Well-formed files -/

/-- A DAX file: its header, its areas, and for every frame the position and
the stored data, with the content that they stand for. -/
structure DaxFile where
  header : DaxHeader
  areas : List NcArea
  position : Nat → Nat
  data : Nat → Bytes
  content : Nat → Bytes

namespace DaxFile

def frames (dax : DaxFile) : Nat :=
  (dax.header.uncompressedSize + daxFrameSize - 1) / daxFrameSize

/-- The frames of the areas are uncompressed; version 0 has no areas. -/
def Uncompressed (dax : DaxFile) (frame : Nat) : Prop :=
  dax.header.version = 1 ∧ ∃ area ∈ dax.areas, area.Contains frame

/-- The area list of a file of version 1. -/
structure AreasStored (dax : DaxFile) (file : Bytes) : Prop where
  count : dax.header.ncAreas = dax.areas.length
  few : dax.areas.length < 2 ^ 28
  stored : FileBytes.pread file (daxHeaderSize + 6 * dax.frames)
    (8 * dax.areas.length) = encodeAreas dax.areas
  within : ∀ area ∈ dax.areas, area.Within dax.frames

/-- The stored data of a frame stand for its part of the image. -/
structure HoldsFrame (dax : DaxFile) (zlib : Bytes → Bytes → Prop)
    (file image : Bytes) (frame : Nat) : Prop where
  position : dax.position frame < 2 ^ 32
  stored : FileBytes.pread file (dax.position frame)
    (dax.data frame).length = dax.data frame
  part : FileBytes.pread image (daxFrameSize * frame) daxFrameSize <+:
    dax.content frame
  short : (dax.content frame).length ≤ daxFrameSize
  raw : dax.Uncompressed frame → dax.data frame = dax.content frame
  compressed : ¬ dax.Uncompressed frame →
    zlib (dax.data frame) (dax.content frame) ∧
      (dax.data frame).length ≤ 16384

/-- The file is well formed and stands for the image, and frame 0 lies before
the offset that the reader takes for the start of its cache. -/
structure Describes (dax : DaxFile) (zlib : Bytes → Bytes → Prop)
    (file image : Bytes) : Prop where
  header : FileBytes.pread file 0 daxHeaderSize = dax.header.encode
  encodable : dax.header.Encodable
  magic : dax.header.magic = daxMagic
  version : dax.header.version ≤ 1
  size : dax.header.uncompressedSize = image.length
  positive : 0 < image.length
  aligned : sectorSize ∣ image.length
  positions : FileBytes.pread file daxHeaderSize (4 * dax.frames) =
    encodeTable 4 dax.frames dax.position
  sizes : FileBytes.pread file (daxHeaderSize + 4 * dax.frames)
      (2 * dax.frames) =
    encodeTable 2 dax.frames fun frame => (dax.data frame).length
  areas : dax.header.version = 1 → dax.AreasStored file
  first : dax.position 0 < image.length
  holds : ∀ frame < dax.frames, dax.HoldsFrame zlib file image frame

/-! ## What the reader finds -/

/-- The areas that are mapped. -/
def mapped (dax : DaxFile) : List NcArea :=
  if dax.header.version = 1 then dax.areas else []

/-- The three tables as they are read. -/
def tables (dax : DaxFile) : Bytes :=
  encodeTable 4 dax.frames dax.position ++
    encodeTable 2 dax.frames (fun frame => (dax.data frame).length) ++
    encodeAreas dax.mapped

/-- The reader after the header. -/
def headed (dax : DaxFile) (input : Input) : Input :=
  { input with
    fileType := .dax
    size := dax.header.uncompressedSize
    csoBlockSize := daxFrameSize }.setupCache daxFrameSize

/-- The reader after the tables. -/
def indexed (dax : DaxFile) (env : Environment) (input : Input) : Input :=
  { input with
    index := decodeTable 4
      (FlatMemory.write env.newIndex 0
        (encodeTable 4 dax.frames dax.position))
    daxSize := decodeTable 2
      (FlatMemory.write env.newSizes 0
        (encodeTable 2 dax.frames fun frame => (dax.data frame).length))
    daxIsNC := Input.markAreas
      (FlatMemory.write env.newAreas 0 (encodeAreas dax.mapped))
      dax.mapped.length }

/-- What the reader has found out when it starts to read sectors. -/
def base (dax : DaxFile) (env : Environment) : Input :=
  (dax.indexed env (dax.headed (Input.create env))).found

theorem headed_found
    (dax : DaxFile) {input input' : Input}
    (found : input.found = input'.found) :
    (dax.headed input).found = (dax.headed input').found := by
  show (dax.headed input.found).found = (dax.headed input'.found).found
  rw [found]

theorem indexed_found
    (dax : DaxFile) (env : Environment) {input input' : Input}
    (found : input.found = input'.found) :
    (dax.indexed env input).found = (dax.indexed env input').found := by
  show (dax.indexed env input.found).found =
    (dax.indexed env input'.found).found
  rw [found]

section

variable {dax : DaxFile} {zlib : Bytes → Bytes → Prop}
variable {file image : Bytes} {env : Environment}

theorem Describes.few_frames (described : dax.Describes zlib file image) :
    dax.frames ≤ 2 ^ 19 := by
  have small := described.encodable.uncompressedSize
  simp only [frames, daxFrameSize]
  omega

theorem Describes.lt_frames
    (described : dax.Describes zlib file image) {frame : Nat}
    (below : daxFrameSize * frame < image.length) :
    frame < dax.frames := by
  have size := described.size
  simp only [frames, daxFrameSize] at *
  omega

theorem Describes.mapped_within
    (described : dax.Describes zlib file image) :
    dax.mapped.length < 2 ^ 28 ∧
      (Input.daxAreas dax.header).getD 0 = dax.mapped.length ∧
      ∀ area ∈ dax.mapped, area.Within dax.frames := by
  have version := described.version
  unfold mapped
  by_cases one : dax.header.version = 1
  · have stored := described.areas one
    have few := stored.few
    rw [if_pos one]
    refine ⟨few, ?_, stored.within⟩
    rw [Input.daxAreas, stored.count, one]
    split
    · rfl
    · show 0 = _
      omega
  · rw [if_neg one]
    refine ⟨by decide, ?_, nofun⟩
    rw [Input.daxAreas, if_neg (by omega)]
    rfl

/-- A frame is taken for uncompressed exactly when it is. -/
theorem Describes.marked
    (described : dax.Describes zlib file image) (frame : Nat) :
    (dax.base env).daxIsNC frame = true ↔ dax.Uncompressed frame := by
  obtain ⟨_, _, within⟩ := described.mapped_within
  have few := described.few_frames
  have marks := @markAreas_encodeAreas env.newAreas dax.mapped dax.frames
    (by omega) within frame
  refine marks.trans ?_
  unfold mapped Uncompressed
  by_cases one : dax.header.version = 1
  · rw [if_pos one]
    exact (and_iff_right one).symm
  · rw [if_neg one]
    simp [one]

theorem Describes.tables_read
    (described : dax.Describes zlib file image) :
    FileBytes.pread file daxHeaderSize
        (6 * dax.frames + 8 * dax.mapped.length) = dax.tables := by
  have areas : FileBytes.pread file (daxHeaderSize + 6 * dax.frames)
      (8 * dax.mapped.length) = encodeAreas dax.mapped := by
    unfold mapped
    split
    · exact (described.areas ‹_›).stored
    · rfl
  have six : 6 * dax.frames = 4 * dax.frames + 2 * dax.frames := by omega
  rw [FileBytes.pread_add, areas, six, FileBytes.pread_add,
    described.positions, described.sizes, tables]

theorem length_tables (dax : DaxFile) :
    dax.tables.length = 6 * dax.frames + 8 * dax.mapped.length := by
  simp only [tables, List.length_append, length_encodeTable,
    length_encodeAreas]
  omega

/-- The number of bytes asked for is not cut to 32 bits. -/
theorem Describes.tableBytes
    (described : dax.Describes zlib file image) :
    Input.tableBytes dax.frames (Input.daxAreas dax.header) =
        dax.tables.length ∧
      (dax.frames * 6 + (Input.daxAreas dax.header).getD 0 * 8) % 2 ^ 32 =
        dax.tables.length := by
  obtain ⟨few, count, _⟩ := described.mapped_within
  have frames := described.few_frames
  rw [Input.tableBytes, count, length_tables]
  omega

/-- The completion of the header read asks for the tables. -/
theorem Describes.header_read
    (described : dax.Describes zlib file image) (input : Input)
    (pool : BufferPool) (headerBuf : Buffer) :
    input.onHeaderRead pool headerBuf
        (some (FileBytes.pread file 0 24)) =
      ⟨(dax.headed input).ask
          (.readTables dax.frames (Input.daxAreas dax.header)
            dax.tables.length),
        pool.release (headerBuf.filled (FileBytes.pread file 0 24)), []⟩ := by
  have encodable := described.encodable
  have size := encodable.uncompressedSize
  have version := described.version
  have read : FileBytes.pread file 0 24 =
      dax.header.front ++
        (dax.header.unused.flatMap (LittleEndian.encode 4)).take 8 := by
    rw [← DaxHeader.take_encode encodable, ← described.header,
      FileBytes.take_pread file (by decide)]
  have length : (FileBytes.pread file 0 24).length = 24 := by
    rw [read, List.length_append, DaxHeader.length_front encodable,
      List.length_take, List.length_flatMap]
    simp [encodable.unused]
  have magic : (FileBytes.pread file 0 24).take 4 = daxMagic := by
    rw [read, DaxHeader.front]
    simp only [List.append_assoc]
    rw [List.take_left' encodable.magic, described.magic]
  have decoded := DaxHeader.decode_front encodable
    ((dax.header.unused.flatMap (LittleEndian.encode 4)).take 8)
  rw [← read] at decoded
  have aligned : dax.header.uncompressedSize % (sectorMask + 1) = 0 := by
    rw [described.size]
    exact Nat.mod_eq_zero_of_dvd described.aligned
  have accepted : Input.daxRejection dax.header = none := by
    rw [Input.daxRejection, if_neg (by omega),
      if_neg (fun uneven => uneven aligned)]
  have frames : Input.daxFrames (dax.header.uncompressedSize : Nat) =
      dax.frames := Input.daxFrames_natCast size
  obtain ⟨_, bytes⟩ := described.tableBytes
  rw [Input.onHeaderRead, if_neg (fun short => short length), magic,
    if_neg (by decide), if_pos rfl, decoded, Input.detectDax]
  dsimp only
  have same : Input.daxRejection
      { dax.header with
        unused := (DaxHeader.decode (FileBytes.pread file 0 24)).unused } =
        none := accepted
  have areas : Input.daxAreas
      { dax.header with
        unused := (DaxHeader.decode (FileBytes.pread file 0 24)).unused } =
        Input.daxAreas dax.header := rfl
  rw [same, areas]
  simp only [frames, bytes]
  rfl

/-- The completion of the table read leaves the tables and calls `begin_`. -/
theorem onTablesRead_tables
    (dax : DaxFile) (areas : (Input.daxAreas dax.header).getD 0 =
      dax.mapped.length) (input : Input) (pool : BufferPool) :
    input.onTablesRead env pool dax.frames (Input.daxAreas dax.header)
        dax.tables.length (some dax.tables) =
      ⟨dax.indexed env input, pool, [.begin input.size, .readSector]⟩ := by
  have four : dax.frames * 4 = 4 * dax.frames := Nat.mul_comm _ _
  have two : dax.frames * 2 = 2 * dax.frames := Nat.mul_comm _ _
  have positions : dax.tables.take (4 * dax.frames) =
      encodeTable 4 dax.frames dax.position := by
    rw [tables, List.append_assoc]
    exact List.take_left' (length_encodeTable _ _ _)
  have rest : dax.tables.drop (4 * dax.frames) =
      encodeTable 2 dax.frames (fun frame => (dax.data frame).length) ++
        encodeAreas dax.mapped := by
    rw [tables, List.append_assoc]
    exact List.drop_left' (length_encodeTable _ _ _)
  have sizes : (dax.tables.drop (4 * dax.frames)).take (2 * dax.frames) =
      encodeTable 2 dax.frames fun frame => (dax.data frame).length := by
    rw [rest]
    exact List.take_left' (length_encodeTable _ _ _)
  have ncAreas : dax.tables.drop (4 * dax.frames + 2 * dax.frames) =
      encodeAreas dax.mapped := by
    rw [← List.drop_drop, rest]
    exact List.drop_left' (length_encodeTable _ _ _)
  rw [Input.onTablesRead]
  dsimp only
  rw [if_neg (fun short => short rfl), four, two, positions, sizes,
    ncAreas, areas]
  rfl

/-! ## Detecting the format -/

/-- What is known while the reader waits for the header or the tables. -/
def Awaits (dax : DaxFile) (env : Environment) (input : Input) :
    InputRequest → Prop
  | .readHeader _ => input.found = (Input.create env).found
  | .readTables frames areas bytes =>
      frames = dax.frames ∧ areas = Input.daxAreas dax.header ∧
        bytes = dax.tables.length ∧
        input.found = (dax.headed (Input.create env)).found ∧
        input.cachePos = (dax.headed (Input.create env)).cachePos
  | _ => False

theorem Awaits.of_found
    {input input' : Input} {request : InputRequest}
    (awaits : dax.Awaits env input request)
    (found : input'.found = input.found)
    (cachePos : input'.cachePos = input.cachePos) :
    dax.Awaits env input' request := by
  cases request with
  | readHeader => exact found.trans awaits
  | readTables =>
      obtain ⟨frames, areas, bytes, same, place⟩ := awaits
      exact ⟨frames, areas, bytes, found.trans same, cachePos.trans place⟩
  | _ => exact awaits.elim

/-- What the completion of a request of the detection leads to. -/
structure Detects (dax : DaxFile) (env : Environment) (pool : BufferPool)
    (request : InputRequest) (result : InputResult) : Prop where
  pool : result.pool.bufferSize = pool.bufferSize
  next : (∃ size, result.phase = .beginning size ∧
      result.input.found = dax.base env ∧
      result.input.cachePos = (dax.base env).size) ∨
    ∃ headerBuf next, request = .readHeader headerBuf ∧
      result.phase = .waiting next ∧ dax.Awaits env result.input next ∧
      ∃ frames areas bytes, next = .readTables frames areas bytes

theorem Describes.detects
    (described : dax.Describes zlib file image)
    (complete : env.CompleteReads file) {input : Input}
    {request : InputRequest} (awaits : dax.Awaits env input request)
    (idle : input.inFlight = []) (pool : BufferPool) :
    dax.Detects env pool request (input.complete env pool request) := by
  cases request with
  | readHeader headerBuf =>
      have found : input.found = (Input.create env).found := awaits
      have read := complete input.reads 0 24 (Int.le_refl 0)
      have completed : input.complete env pool (.readHeader headerBuf) =
          ⟨(dax.headed { input with reads := input.reads + 1 }).ask
              (.readTables dax.frames (Input.daxAreas dax.header)
                dax.tables.length),
            pool.release (headerBuf.filled (FileBytes.pread file 0 24)),
            []⟩ := by
        simp only [Input.complete, Input.readRange, read]
        exact described.header_read _ _ _
      rw [completed]
      refine ⟨rfl, Or.inr ⟨headerBuf,
        .readTables dax.frames (Input.daxAreas dax.header)
          dax.tables.length,
        rfl, ?_, ⟨rfl, rfl, rfl, ?_, rfl⟩, _, _, _, rfl⟩⟩
      · simp [InputResult.phase, Input.ask, headed, Input.setupCache, idle]
      · exact @headed_found dax { input with reads := input.reads + 1 } _
          found
  | readTables frames areas bytes =>
      obtain ⟨rfl, rfl, rfl, found, cachePos⟩ := awaits
      obtain ⟨asked, _⟩ := described.tableBytes
      have read := complete input.reads daxHeaderSize dax.tables.length
        (by decide)
      rw [Int.toNat_natCast, length_tables, described.tables_read,
        ← length_tables] at read
      have completed : input.complete env pool
          (.readTables dax.frames (Input.daxAreas dax.header)
            dax.tables.length) =
          ⟨dax.indexed env { input with reads := input.reads + 1 }, pool,
            [.begin input.size, .readSector]⟩ := by
        simp only [Input.complete, Input.readRange, asked, read]
        exact onTablesRead_tables dax described.mapped_within.2.1 _ _
      rw [completed]
      refine ⟨rfl, Or.inl ⟨input.size, rfl, ?_, cachePos⟩⟩
      exact @indexed_found dax env { input with reads := input.reads + 1 }
        _ found
  | _ => exact awaits.elim

/-- Whatever the size of the buffers, the detection goes on to the tables of
the file. -/
theorem Describes.leads
    (described : dax.Describes zlib file image)
    (complete : env.CompleteReads file) {input : Input}
    {request : InputRequest} (awaits : dax.Awaits env input request)
    (bufferSize : Nat) :
    Input.LeadsTo env bufferSize (dax.base env) 2 input request := by
  have tables (other : Input) {frames bytes : Nat} {areas : Option Nat}
      (waits : dax.Awaits env other (.readTables frames areas bytes))
      (fuel : Nat) :
      Input.LeadsTo env bufferSize (dax.base env) (fuel + 1) other
        (.readTables frames areas bytes) := by
    refine ⟨rfl, fun input' pool found cachePos idle sameSize => ?_⟩
    obtain ⟨same, next⟩ := described.detects complete
      (waits.of_found found cachePos) idle pool
    refine ⟨same.trans sameSize, Or.inl ?_⟩
    rcases next with begins | ⟨_, _, impossible, _⟩
    · exact begins
    · exact nomatch impossible
  cases request with
  | readHeader headerBuf =>
      refine ⟨rfl, fun input' pool found cachePos idle sameSize => ?_⟩
      obtain ⟨same, next⟩ := described.detects complete
        (awaits.of_found found cachePos) idle pool
      refine ⟨same.trans sameSize, ?_⟩
      rcases next with begins | ⟨_, _, _, phase, waits, _, _, _, rfl⟩
      · exact Or.inl begins
      · exact Or.inr ⟨_, phase, tables _ waits 0⟩
  | readTables => exact tables _ awaits 1
  | _ => exact awaits.elim

/-! ## Frames that can be read -/

/-- The entries of a frame. -/
theorem Describes.blockRequest
    (described : dax.Describes zlib file image) {frame : Nat}
    (inside : frame < dax.frames) :
    (dax.base env).blockRequest frame =
      ⟨dax.position frame, (dax.data frame).length, 0,
        !(dax.base env).daxIsNC frame, false⟩ := by
  have holds := described.holds frame inside
  have short : (dax.data frame).length < 256 ^ 2 := by
    by_cases raw : dax.Uncompressed frame
    · have limit := holds.short
      rw [← holds.raw raw] at limit
      simp only [daxFrameSize] at limit
      omega
    · have limit := (holds.compressed raw).2
      omega
  have position : (dax.base env).index frame = dax.position frame :=
    decodeTable_encodeTable env.newIndex inside holds.position
  have size : (dax.base env).daxSize frame = (dax.data frame).length :=
    @decodeTable_encodeTable 2 _ _ (fun frame => (dax.data frame).length)
      env.newSizes inside short
  have fileType : (dax.base env).fileType = .dax := rfl
  rw [Input.blockRequest, fileType]
  dsimp only
  rw [position, size]

/-- `inflate` returns the content of a zlib stream for which there is
room. -/
def Inflates (env : Environment) (zlib : Bytes → Bytes → Prop) : Prop :=
  ∀ data content capacity, zlib data content →
    content.length ≤ capacity → env.inflate true capacity data = .ok content

theorem Describes.yields
    (described : dax.Describes zlib file image)
    (inflates : Inflates env zlib) {bufferSize : Nat}
    (room : daxFrameSize ≤ bufferSize) {frame : Nat}
    (below : daxFrameSize * frame < image.length) :
    (dax.base env).Yields env file bufferSize frame
      (dax.content frame) := by
  have inside := described.lt_frames below
  have holds := described.holds frame inside
  have request := @blockRequest _ _ _ _ env described _ inside
  have marked := @marked _ _ _ _ env described frame
  have bytes : Request.bytes
      ⟨dax.position frame, (dax.data frame).length, 0,
        !(dax.base env).daxIsNC frame, false⟩ file = dax.data frame :=
    holds.stored
  have unit : (dax.base env).blockUnit = daxFrameSize := rfl
  have size : (dax.base env).size = image.length := by
    rw [← described.size]
    rfl
  have part := holds.part.length_le
  obtain ⟨sectors, whole⟩ := described.aligned
  rw [FileBytes.length_pread] at part
  constructor
  · rw [request]
    exact Int.natCast_nonneg _
  · rw [request, Request.Contained, bytes]
  · rw [request]
    have cacheSize : (dax.base env).cacheSize = 32768 := rfl
    rw [cacheSize]
    by_cases raw : dax.Uncompressed frame
    · have limit := holds.short
      rw [← holds.raw raw] at limit
      exact limit.trans (by decide)
    · exact (holds.compressed raw).2.trans (by decide)
  · intro raw
    rw [request] at raw ⊢
    have isNC : (dax.base env).daxIsNC frame = true := by
      simpa [Request.raw] using raw
    rw [bytes, holds.raw (marked.mp isNC)]
  · intro decoded
    rw [request] at decoded ⊢
    have isNC : ¬ (dax.base env).daxIsNC frame = true := by
      simpa [Request.raw] using decoded
    obtain ⟨stream, _⟩ := holds.compressed (isNC ∘ marked.mpr)
    refine ⟨holds.short, fun pool sameSize => ?_⟩
    have inflated := inflates _ _ pool.bufferSize stream
      (holds.short.trans (sameSize ▸ room))
    have enough : ¬ (dax.content frame).length < sectorSize := by
      simp only [sectorSize, daxFrameSize] at *
      omega
    have zlibHeader :
        decide ((dax.base env).fileType = .dax) = true := rfl
    rw [bytes, Input.decompressWork, if_neg Bool.false_ne_true,
      Input.decompressSectorDeflate, zlibHeader, inflated]
    simp only [enough, if_false]
  · rw [unit, size]
    simp only [daxFrameSize] at *
    omega

theorem Describes.base_size
    (described : dax.Describes zlib file image) :
    (dax.base env).size = image.length := by
  rw [← described.size]
  rfl

theorem Describes.formatted
    (described : dax.Describes zlib file image) :
    (dax.base env).Formatted := by
  have small := described.encodable.uncompressedSize
  refine ⟨FileType.noConfusion, fun cso => ?_, fun _ => ⟨rfl, ?_⟩, ?_⟩
  · exact absurd cso (Input.not_cso_of_dax rfl)
  · show ((dax.header.uncompressedSize : Nat) : Int) < 2 ^ 32
    omega
  · show 32768 ≤ maxBlockSize
    decide

/-- The request for a sector. -/
theorem Describes.request
    (described : dax.Describes zlib file image) {pos : Nat}
    (below : pos < image.length) (divides : sectorSize ∣ pos) :
    ((dax.base env).seek pos).request =
      Request.skipRaw
        ⟨dax.position (pos / daxFrameSize),
          (dax.data (pos / daxFrameSize)).length, pos % daxFrameSize,
          !(dax.base env).daxIsNC (pos / daxFrameSize), false⟩ := by
  have placed := @Input.placed_dax (dax.base env) pos rfl
    described.formatted (by rw [described.base_size]; omega) divides
  have unit : (dax.base env).blockUnit = daxFrameSize := rfl
  have start := Nat.mul_div_le pos daxFrameSize
  rw [placed.request, unit,
    described.blockRequest (described.lt_frames (by omega))]

/-- A sector is copied without a codec exactly when its frame is
uncompressed. -/
theorem Describes.request_raw
    (described : dax.Describes zlib file image) {pos : Nat}
    (below : pos < image.length) (divides : sectorSize ∣ pos) :
    ((dax.base env).seek pos).request.raw = true ↔
      dax.Uncompressed (pos / daxFrameSize) := by
  have marked := @marked _ _ _ _ env described (pos / daxFrameSize)
  rw [described.request below divides, ← marked, Request.skipRaw]
  split <;> simp [Request.raw]

theorem Describes.sound
    (described : dax.Describes zlib file image)
    (inflates : Inflates env zlib) {bufferSize : Nat}
    (room : daxFrameSize ≤ bufferSize) :
    (dax.base env).Sound env file bufferSize dax.content := by
  have size := @base_size _ _ _ _ env described
  refine ⟨?_, ?_, fun cso => absurd cso (Input.not_cso_of_dax rfl)⟩
  · intro block below
    refine described.yields inflates room ?_
    rw [size] at below
    exact Int.ofNat_lt.mp below
  · intro _ inside
    have positive := described.positive
    have first := described.first
    have request := @Describes.request _ _ _ _ env described 0 positive
      (Nat.dvd_zero _)
    have pos : (((dax.base env).seek (0 : Nat)).request).pos =
        dax.position 0 := by
      rw [request, Request.skipRaw]
      split
      · exact Int.add_zero _
      · rfl
    have start := inside.1
    have pos' : ((dax.base env).seek 0).request.pos = dax.position 0 := pos
    rw [pos', size] at start
    omega

/-- The frames make up the image. -/
theorem Describes.imageOf
    (described : dax.Describes zlib file image) :
    (dax.base env).imageOf dax.content = image := by
  have unit : (dax.base env).blockUnit = daxFrameSize := rfl
  rw [Input.imageOf, described.base_size, Int.toNat_natCast, unit]
  exact BlockImage.assemble_eq (by decide) fun frame below =>
    (described.holds frame (described.lt_frames below)).part

/-- Whatever the size of the buffers, as long as a frame fits in one. -/
theorem Describes.served
    (described : dax.Describes zlib file image)
    (inflates : Inflates env zlib) (complete : env.CompleteReads file)
    (works : ∀ count, env.workStatus count ≠ -1) {bufferSize : Nat}
    (room : daxFrameSize ≤ bufferSize) :
    Served env file image bufferSize (dax.base env) := by
  have whole : (dax.base env).size % sectorSize = 0 := by
    have aligned := described.aligned
    rw [described.base_size]
    simp only [sectorSize] at *
    omega
  have served := Input.served_of_sound complete works described.formatted
    whole (described.sound inflates room) rfl
  rwa [described.imageOf] at served

end

end DaxFile

/-! ## Runs over a DAX file -/

namespace Reader

/-- Other holders of the pool leave buffers in which a frame fits. -/
def KeepsRoom (_ : Reader) : ReaderEvent → Prop
  | .otherPool pool => daxFrameSize ≤ pool.bufferSize
  | _ => True

/-- The reader of a DAX file. -/
structure ReadsDax (env : Environment) (file image : Bytes) (dax : DaxFile)
    (events : List ReaderEvent) (core : Reader) (phase : Phase) : Prop where
  cached : Cached file core phase
  room : daxFrameSize ≤ core.pool.bufferSize
  awaits : ∀ request, phase = .waiting request → request.detects = true →
    dax.Awaits env core.input request
  late : core.begun ≠ [] → phase.detecting = false
  delivering : Delivering env file image core.pool.bufferSize
    (dax.base env) core phase
  budget : InBudget events core.input.size core.remaining phase

section

variable {env : Environment} {file image : Bytes} {dax : DaxFile}
variable {zlib : Bytes → Bytes → Prop} {pool : BufferPool}
variable {core core' : Reader} {phase phase' : Phase} {event : ReaderEvent}
variable {events : List ReaderEvent}

/-- A reader that is on its way may find the pool resized. -/
theorem Delivering.resize
    {bufferSize : Nat} {base : Input}
    (delivering : Delivering env file image bufferSize base core phase)
    (pool : BufferPool)
    (leads : ∀ request, phase = .waiting request → request.detects = true →
      ∃ fuel, Input.LeadsTo env pool.bufferSize base fuel core.input
        request) :
    Delivering env file image pool.bufferSize base
      { core with pool := pool } phase :=
  ⟨rfl, delivering.delivered, leads, delivering.found,
    delivering.unfilled, delivering.filled, delivering.supplied,
    delivering.finishing, delivering.stopped, delivering.parked⟩

theorem not_detects_usePhase
    {request : Request} {data : Bytes} {asked : InputRequest}
    (waiting : core.usePhase env request data = .waiting asked) :
    asked.detects = false := by
  have late := detecting_usePhase env core request data
  rwa [waiting] at late

/-- The requests of the detection are those of a DAX file. -/
theorem ReadsDax.awaits_move
    (described : dax.Describes zlib file image)
    (complete : env.CompleteReads file)
    (reads : ReadsDax env file image dax events core phase)
    (move : Move Input.fetchCached env core phase event core' phase') :
    ∀ request, phase' = .waiting request → request.detects = true →
      dax.Awaits env core'.input request := by
  cases move with
  | pause | resume | otherPool =>
      intro request waiting detects
      exact (reads.awaits request waiting detects).of_found rfl rfl
  | detect request detects =>
      have awaits : dax.Awaits env
          { core.input with inFlight := [], resumeShouldRead := false }
          request :=
        (reads.awaits request rfl detects).of_found rfl rfl
      intro next waiting _
      obtain ⟨_, outcome⟩ :=
        described.detects complete awaits rfl core.pool
      rcases outcome with ⟨size, begins, _⟩ | ⟨_, asked, _, waits, asks, _⟩
      · exact nomatch begins.symm.trans waiting
      · obtain rfl : asked = next :=
          Phase.waiting.inj (waits.symm.trans waiting)
        exact asks
  | ask =>
      rintro _ ⟨⟩ detects
      exact nomatch detects
  | use | blockRead =>
      intro request waiting detects
      have asked := not_detects_usePhase waiting
      exact absurd (detects.symm.trans asked) Bool.noConfusion
  | _ => exact nofun

/-- After `begin_` the tables of the file are in place. -/
theorem ReadsDax.found
    (reads : ReadsDax env file image dax events core phase)
    (begun : core.begun ≠ []) :
    core.input.found = dax.base env := by
  refine reads.delivering.found ?_
  rintro request rfl
  exact reads.late begun

/-- Past the detection, `begin_` is not called again. -/
theorem begun_move
    (late : core.begun ≠ [] → phase.detecting = false)
    (move : Move Input.fetchCached env core phase event core' phase') :
    core'.begun ≠ [] → phase'.detecting = false := by
  cases move with
  | pause | resume | otherPool => exact late
  | detect request detects =>
      intro begun
      exact absurd (detects.symm.trans (late begun)) Bool.noConfusion
  | use | blockRead => exact fun _ => detecting_usePhase _ _ _ _
  | _ => exact fun _ => rfl

/-- Every move goes on reading the file. -/
theorem ReadsDax.move
    (described : dax.Describes zlib file image)
    (inflates : DaxFile.Inflates env zlib)
    (complete : env.CompleteReads file)
    (works : ∀ count, env.workStatus count ≠ -1)
    (reads : ReadsDax env file image dax events core phase)
    (track : OnTrack core phase)
    (keeps : (core.enter phase).KeepsRoom event)
    (move : Move Input.fetchCached env core phase event core' phase') :
    ReadsDax env file image dax (events ++ [event]) core' phase' := by
  have served := described.served inflates complete works reads.room
  have delivering := reads.delivering
  have cached := reads.cached.move complete track
    (delivering.serves served track event) move
  have awaits := reads.awaits_move described complete move
  have late := begun_move reads.late move
  have budget := inBudget_move reads.budget track
    (delivering.reaches served track event) move
  cases event with
  | otherPool pool =>
      obtain ⟨⟩ := move
      refine ⟨cached, keeps, awaits, late, ?_, budget⟩
      exact delivering.resize pool fun request waiting detects =>
        ⟨2, described.leads complete
          (reads.awaits request waiting detects) _⟩
  | run | complete | pause | resume =>
      have next :=
        delivering.move served track reads.cached (by trivial) move
      have same := next.pool
      refine ⟨cached, ?_, awaits, late, ?_, budget⟩
      · rw [same]
        exact reads.room
      · rw [same]
        exact next

theorem readsDax_start
    (described : dax.Describes zlib file image)
    (complete : env.CompleteReads file)
    (room : daxFrameSize ≤ pool.bufferSize) :
    ReadsDax env file image dax [] (start env pool)
      (startPhase env pool) := by
  have sameSize : (start env pool).pool.bufferSize = pool.bufferSize :=
    BufferPool.alloc_bufferSize _ _
  have awaits : dax.Awaits env (start env pool).input
      (.readHeader (pool.alloc env.heap).1) := rfl
  refine ⟨cached_start env file pool, ?_, ?_, fun begun => absurd rfl begun,
    ?_, Nat.le_refl _⟩
  · rw [sameSize]
    exact room
  · rintro _ ⟨⟩ _
    exact awaits
  · refine ⟨rfl, rfl, ?_, ?_, ?_, nofun, trivial, nofun, nofun, nofun⟩
    · rintro _ ⟨⟩ _
      exact ⟨2, described.leads complete awaits _⟩
    · intro past
      exact nomatch past _ rfl
    · intro _ _ free
      exact absurd rfl (free _)

/-- Every DAX file of version 0 or 1 is read back, however the reader is
paused and resumed and whoever else uses the pool.  Once `begin_` has been
called, a sector is copied without being decompressed exactly when its frame
is in an area of a file of version 1. -/
theorem delivers_dax
    (inflates : DaxFile.Inflates env zlib)
    (complete : env.CompleteReads file)
    (works : ∀ count, env.workStatus count ≠ -1)
    (described : dax.Describes zlib file image)
    (room : daxFrameSize ≤ pool.bufferSize) {target : Reader}
    (run : Execution (step Input.fetchCached env) KeepsRoom
      (start env pool) events target) :
    target.Delivers env image events ∧
      (target.begun ≠ [] →
        ∀ pos, sectorSize ∣ pos → pos < image.length →
          ((target.input.seek pos).request.raw = true ↔
            dax.Uncompressed (pos / daxFrameSize))) := by
  obtain ⟨core, phase, ⟨rfl, _, track⟩, reads⟩ :=
    track_moves
      (fun _ _ _ _ _ _ reads track keeps move =>
        reads.move described inflates complete works track keeps move)
      (situated_start env pool) run
      (readsDax_start described complete room)
  have served := described.served inflates complete works reads.room
  refine ⟨reads.delivering.delivers served track reads.budget, ?_⟩
  intro begun pos divides below
  have found := reads.found begun
  rw [← described.request_raw below divides, ← found]
  rfl

end

end Reader

/-! ## A file of one raw frame -/

namespace DaxFile

/-- One short frame, in two areas. -/
def oneFrame : DaxFile where
  header := ⟨daxMagic, 2048, 1, 2, [0, 0, 0, 0]⟩
  areas := [⟨0, 1⟩, ⟨0, 1⟩]
  position := fun _ => 54
  data := fun _ => List.replicate 2048 7
  content := fun _ => List.replicate 2048 7

def oneFrameFront : Bytes :=
  oneFrame.header.encode ++ encodeTable 4 1 (fun _ => 54) ++
    encodeTable 2 1 (fun _ => 2048) ++ encodeAreas oneFrame.areas

def oneFrameFile : Bytes :=
  oneFrameFront ++ List.replicate 2048 7

theorem oneFrame_holds :
    oneFrame.HoldsFrame (fun _ _ => False) oneFrameFile
      (List.replicate 2048 7) 0 := by
  have front : oneFrameFront.length = 54 := by decide
  have raw : oneFrame.Uncompressed 0 :=
    ⟨rfl, ⟨0, 1⟩, List.mem_cons_self, by decide, by decide⟩
  refine ⟨by decide, ?_, ?_, ?_, fun _ => rfl, fun not => absurd raw not⟩
  · show FileBytes.pread (oneFrameFront ++ List.replicate 2048 7) 54 _ = _
    rw [FileBytes.pread, List.drop_left' front]
    exact List.take_of_length_le (Nat.le_refl _)
  · rw [FileBytes.pread, Nat.mul_zero, List.drop_zero]
    exact List.take_prefix _ _
  · show (List.replicate 2048 7).length ≤ daxFrameSize
    rw [List.length_replicate]
    decide

theorem oneFrame_describes :
    oneFrame.Describes (fun _ _ => False) oneFrameFile
      (List.replicate 2048 7) := by
  have front : oneFrameFront.length = 54 := by decide
  have read {offset length : Nat} (fits : offset + length ≤ 54) :
      FileBytes.pread oneFrameFile offset length =
        FileBytes.pread oneFrameFront offset length :=
    FileBytes.pread_append_left (by omega)
  have frames : oneFrame.frames = 1 := by decide
  have size : (List.replicate 2048 (7 : UInt8)).length = 2048 :=
    List.length_replicate
  constructor
  · rw [read (by decide)]
    decide
  · constructor <;> decide
  · rfl
  · decide
  · exact size.symm
  · rw [size]
    decide
  · rw [size]
  · rw [frames, read (by decide)]
    decide
  · have sizes : (fun frame => (oneFrame.data frame).length) =
        fun _ => 2048 := funext fun _ => size
    rw [sizes, frames, read (by decide)]
    decide
  · intro _
    refine ⟨rfl, by decide, ?_, ?_⟩
    · rw [frames, read (by decide)]
      decide
    · intro area member
      have listed : area ∈ [NcArea.mk 0 1, NcArea.mk 0 1] := member
      have same : area = ⟨0, 1⟩ := by simpa using listed
      rw [same, frames]
      exact ⟨by decide, Or.inr (by decide)⟩
  · rw [size]
    decide
  · intro frame inside
    obtain rfl : frame = 0 := by omega
    exact oneFrame_holds

end DaxFile

namespace Reader

theorem keepsRoom_of_own
    (reader : Reader) (event : ReaderEvent) (own : event.own = true) :
    reader.KeepsRoom event := by
  cases event with
  | otherPool => exact nomatch own
  | _ => trivial

theorem delivers_dax_oneFrame :
    ∃ target : Reader,
      target.finished = [(true, "")] ∧
        target.Delivers (.ofFile DaxFile.oneFrameFile)
            (List.replicate 2048 7) rawEvents ∧
          (target.input.seek (0 : Nat)).request.raw = true := by
  have reached :
      (runEvents
        (guarded (fun _ => ReaderEvent.own)
          (step Input.fetchCached (.ofFile DaxFile.oneFrameFile)))
        (start (.ofFile DaxFile.oneFrameFile) .initial)
        rawEvents).any (fun target =>
          target.finished = [(true, "")] ∧ target.begun = [2048]) =
        true := by
    decide +kernel
  obtain ⟨target, ran, facts⟩ := (Option.any_eq_true _ _).mp reached
  obtain ⟨finished, begun⟩ := of_decide_eq_true facts
  obtain ⟨delivers, raw⟩ :=
    @delivers_dax (.ofFile DaxFile.oneFrameFile) _ _ _ (fun _ _ => False)
      .initial _ nofun (Environment.ofFile_completeReads _)
      (fun _ => show (0 : Int) ≠ -1 by decide) DaxFile.oneFrame_describes
      (by decide) target (Execution.of_runEvents keepsRoom_of_own ran)
  refine ⟨target, finished, delivers, ?_⟩
  refine (raw (by rw [begun]; exact List.cons_ne_nil _ _) 0 (Nat.dvd_zero _)
    (by rw [List.length_replicate]; decide)).mpr ?_
  exact ⟨rfl, ⟨0, 1⟩, List.mem_cons_self, by decide, by decide⟩

end Reader

end Maxcso
