import Maxcso.Reader

/-!
# Memory that the reader uses

The entries of the tables that `DetectFormat` and `ReadSector` access, and
which steps stay inside the tables and the buffers of the pool.  The model
gives an access outside no effect; what the real one overwrites is not
modelled.
-/

namespace Maxcso

namespace Input

/-! ## The entries that are looked up -/

/-- `block` in `ReadSector` -/
def csoBlock (input : Input) : Nat :=
  toUint32 (input.pos / 2 ^ input.csoBlockShift)

/-- `offset` in `ReadSector`, before raw data are skipped. -/
def csoOffset (input : Input) : Nat :=
  (input.pos % 2 ^ 64).toNat &&& (input.csoBlockSize - 1)

/-- `frame` in `ReadSector` -/
def daxFrame (input : Input) : Nat :=
  toUint32 (input.pos / 2 ^ daxFrameShift)

/-- The entries of `csoIndex_`, or of `daxIndex_`, `daxSize_` and `daxIsNC_`,
that `ReadSector` looks up. -/
def entriesUsed (input : Input) : List Nat :=
  match input.fileType with
  | .cso1 | .cso2 | .zso =>
      [input.csoBlock, (input.csoBlock + 1) % 2 ^ 32]
  | .dax => [input.daxFrame]
  | .iso | .unknown => []

theorem csoFileType_cases (header : CsoHeader) :
    csoFileType header = .cso1 ∨ csoFileType header = .cso2 ∨
      csoFileType header = .zso := by
  unfold csoFileType
  by_cases zso : header.magic = zsoMagic
  · simp [zso]
  · by_cases second : header.version = 2 <;> simp [zso, second]

theorem entriesUsed_of_cso
    {input : Input}
    (type : input.fileType = .cso1 ∨ input.fileType = .cso2 ∨
      input.fileType = .zso) :
    input.entriesUsed =
      [input.csoBlock, (input.csoBlock + 1) % 2 ^ 32] := by
  rcases type with same | same | same <;> simp [entriesUsed, same]

/-- The request at an offset in a block of a CSO or ZSO file, whose data end
where those of `next` start. -/
def csoRequestAt (input : Input) (block next offset : Nat) : Request :=
  let pos := indexPos input.csoIndexShift (input.index block)
  let nextPos := indexPos input.csoIndexShift (input.index next)
  let codec := input.csoCodec (input.index block) (toUint32 (nextPos - pos))
  Request.skipRaw
    ⟨pos, toUint32 (nextPos - pos), offset, codec.1, codec.2⟩

theorem csoRequest_eq (input : Input) :
    input.csoRequest =
      input.csoRequestAt input.csoBlock ((input.csoBlock + 1) % 2 ^ 32)
        input.csoOffset := rfl

theorem request_of_cso
    {input : Input}
    (type : input.fileType = .cso1 ∨ input.fileType = .cso2 ∨
      input.fileType = .zso) :
    input.request =
      input.csoRequestAt input.csoBlock ((input.csoBlock + 1) % 2 ^ 32)
        input.csoOffset := by
  rw [← csoRequest_eq]
  rcases type with same | same | same <;> simp [request, same]

theorem daxRequest_eq (input : Input) :
    input.daxRequest =
      Request.skipRaw
        ⟨input.index input.daxFrame, input.daxSize input.daxFrame,
          (input.pos % daxFrameSize).toNat,
          !input.daxIsNC input.daxFrame, false⟩ := rfl

/-- The tables with other contents. -/
def withTables (input : Input) (index daxSize : Nat → Nat)
    (daxIsNC : Nat → Bool) : Input :=
  { input with index := index, daxSize := daxSize, daxIsNC := daxIsNC }

/-- No other entry matters for the request. -/
theorem request_of_entries
    {input : Input} {index daxSize : Nat → Nat} {daxIsNC : Nat → Bool}
    (same : ∀ entry ∈ input.entriesUsed,
      index entry = input.index entry ∧
        daxSize entry = input.daxSize entry ∧
        daxIsNC entry = input.daxIsNC entry) :
    (input.withTables index daxSize daxIsNC).request = input.request := by
  have cso
      (used : input.entriesUsed =
        [input.csoBlock, (input.csoBlock + 1) % 2 ^ 32]) :
      (input.withTables index daxSize daxIsNC).csoRequest =
        input.csoRequest := by
    rw [used] at same
    have first := (same input.csoBlock (by simp)).1
    have second := (same ((input.csoBlock + 1) % 2 ^ 32) (by simp)).1
    rw [csoRequest_eq, csoRequest_eq]
    unfold csoRequestAt
    rw [← first, ← second]
    rfl
  cases type : input.fileType with
  | iso | unknown => simp [request, withTables, type]
  | cso1 | cso2 | zso =>
      have used := cso (by simp [entriesUsed, type])
      simpa [request, withTables, type] using used
  | dax =>
      obtain ⟨first, second, third⟩ :=
        same input.daxFrame (by simp [entriesUsed, type])
      have used : (input.withTables index daxSize daxIsNC).daxRequest =
          input.daxRequest := by
        rw [daxRequest_eq, daxRequest_eq, ← first, ← second, ← third]
        rfl
      simpa [request, withTables, type] using used

/-! ## Arrays and marks -/

/-- The frames that the loop over the NC areas marks. -/
def areaMarks (areas : Nat → UInt8) (count : Nat) : List Nat :=
  (List.range count).flatMap fun area =>
    (List.range (decodeTable 4 areas (2 * area + 1))).map fun frame =>
      (decodeTable 4 areas (2 * area) + frame) % 2 ^ 32

/-- The number of entries of the arrays that `DetectFormat` allocates. -/
def tableLength (input : Input) : Nat :=
  match input.fileType with
  | .cso1 | .cso2 | .zso =>
      (toUint32 (input.sizeAligned / 2 ^ input.csoBlockShift) + 1) % 2 ^ 32
  | .dax => daxFrames input.size
  | .iso | .unknown => 0

/-- By how much `ReadSector` shifts a position of the index. -/
def positionShift (input : Input) : Nat :=
  match input.fileType with
  | .cso1 | .cso2 | .zso => input.csoIndexShift
  | .iso | .dax | .unknown => 0

end Input

namespace Reader

/-- What the step does to memory stays inside it.  Entries that are looked up
or marked exist and positions are shifted by less than 64; raw data that are
copied fit the buffer of the pool, and so does a block for lz4. -/
def StaysInside (policy : Input.FetchPolicy) (env : Environment)
    (reader : Reader) : ReaderEvent → Prop
  | .run =>
      ∀ rest, reader.calls = .readSector :: rest →
        reader.input.pos < reader.input.size →
        reader.input.paused = false →
          (∀ entry ∈ reader.input.entriesUsed,
              entry < reader.input.tableLength) ∧
            reader.input.positionShift < 64 ∧
            ∀ data,
              policy reader.input reader.input.request = .use data →
                reader.input.request.raw = true →
                  reader.input.request.len ≤ reader.pool.bufferSize
  | .complete position =>
      (∀ frames areas bytes data,
        reader.input.inFlight[position]? =
            some (.readTables frames areas bytes) →
        env.fsRead reader.input.reads daxHeaderSize
            (Input.tableBytes frames areas) = some data →
        data.length = bytes →
          ∀ frame ∈
            Input.areaMarks
              (FlatMemory.write env.newAreas 0
                (data.drop (frames * 4 + frames * 2)))
              (areas.getD 0),
            frame < frames) ∧
        (∀ request size data,
          reader.input.inFlight[position]? =
              some (.readBlock request size) →
          env.fsRead reader.input.reads request.pos size = some data →
          request.len ≤ data.length →
          request.raw = true →
            request.len ≤ reader.pool.bufferSize) ∧
        ∀ actualBuf source offset,
          reader.input.inFlight[position]? =
              some (.decompress actualBuf source offset true) →
            reader.input.csoBlockSize ≤ reader.pool.bufferSize
  | _ => True

end Reader

end Maxcso
