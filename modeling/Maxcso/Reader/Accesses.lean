import Maxcso.Reader.Addressing

/-!
# Accesses to the tables

When all entries that `DetectFormat` and `ReadSector` access in the tables of
a file lie inside the arrays.
-/

namespace Maxcso

namespace Input

/-! ## The marks of the NC areas -/

theorem markArea_apply
    (start count : Nat) (isNC : Nat → Bool) (entry : Nat) :
    markArea start count isNC entry =
      (isNC entry ||
        decide (∃ frame, frame < count ∧ (start + frame) % 2 ^ 32 = entry)) := by
  induction count with
  | zero => simp [markArea]
  | succ count inductionHypothesis =>
      have split :
          markArea start (count + 1) isNC =
            Function.update (markArea start count isNC)
              ((start + count) % 2 ^ 32) true := by
        simp [markArea, List.range_succ]
      rw [split, Function.update_apply, inductionHypothesis]
      by_cases last : entry = (start + count) % 2 ^ 32
      · have marked :
            ∃ frame, frame < count + 1 ∧ (start + frame) % 2 ^ 32 = entry :=
          ⟨count, Nat.lt_succ_self count, last.symm⟩
        rw [if_pos last, decide_eq_true marked, Bool.or_true]
      · rw [if_neg last]
        congr 2
        apply propext
        constructor
        · intro ⟨frame, below, same⟩
          exact ⟨frame, Nat.lt_succ_of_lt below, same⟩
        · intro ⟨frame, below, same⟩
          refine ⟨frame, ?_, same⟩
          by_contra above
          have frameEq : frame = count := by omega
          exact last (by rw [← same, frameEq])

/-- The areas are mapped to marks at exactly these frames. -/
theorem markAreas_apply
    (areas : Nat → UInt8) (count entry : Nat) :
    markAreas areas count entry = decide (entry ∈ areaMarks areas count) := by
  induction count with
  | zero => simp [markAreas, areaMarks]
  | succ count inductionHypothesis =>
      have split :
          markAreas areas (count + 1) =
            markArea (decodeTable 4 areas (2 * count))
              (decodeTable 4 areas (2 * count + 1))
              (markAreas areas count) := by
        simp [markAreas, List.range_succ]
      rw [split, markArea_apply, inductionHypothesis]
      simp [areaMarks, List.range_succ]

/-- All marks lie below a bound exactly when every area ends below it. -/
theorem areaMarks_below_iff
    (areas : Nat → UInt8) {count bound : Nat} (small : bound < 2 ^ 32) :
    (∀ frame ∈ areaMarks areas count, frame < bound) ↔
      ∀ area, area < count →
        decodeTable 4 areas (2 * area + 1) = 0 ∨
          decodeTable 4 areas (2 * area) +
            decodeTable 4 areas (2 * area + 1) ≤ bound := by
  have member (frame : Nat) :
      frame ∈ areaMarks areas count ↔
        ∃ area, area < count ∧
          ∃ offset, offset < decodeTable 4 areas (2 * area + 1) ∧
            (decodeTable 4 areas (2 * area) + offset) % 2 ^ 32 = frame := by
    simp [areaMarks]
  have word (entry : Nat) : decodeTable 4 areas entry < 2 ^ 32 := by
    have bounded := LittleEndian.decode_lt
      (FlatMemory.read areas (4 * entry) 4)
    rw [FlatMemory.length_read] at bounded
    exact bounded
  constructor
  · intro below area inside
    by_contra outside
    rw [not_or] at outside
    have start := word (2 * area)
    -- The first frame past the end, or the first frame of the area.
    by_cases early : decodeTable 4 areas (2 * area) < bound
    · have mark := below bound ((member bound).mpr
        ⟨area, inside, bound - decodeTable 4 areas (2 * area), by omega,
          by omega⟩)
      omega
    · have mark := below (decodeTable 4 areas (2 * area))
        ((member _).mpr ⟨area, inside, 0, by omega, by omega⟩)
      omega
  · intro inside frame marked
    obtain ⟨area, below, offset, small', rfl⟩ := (member frame).mp marked
    rcases inside area below with empty | ends
    · omega
    · have wrapped := Nat.mod_le
        (decodeTable 4 areas (2 * area) + offset) (2 ^ 32)
      omega

/-! ## Accesses and arrays -/

/-- The frames that `DetectFormat` marks for this header and these tables. -/
def marksMade (env : Environment) (input : Input) (header tables : Bytes) :
    List Nat :=
  if input.fileType = .dax then
    let frames := daxFrames input.size
    areaMarks
      (FlatMemory.write env.newAreas 0
        (tables.drop (frames * 4 + frames * 2)))
      ((daxAreas (DaxHeader.decode header)).getD 0)
  else
    []

/-- Every access lies inside its array, and every shift is defined; what is
requested for a sector is then settled by the entries inside. -/
structure AccessesInside (env : Environment) (input : Input)
    (header tables : Bytes) : Prop where
  marks : ∀ frame ∈ input.marksMade env header tables,
    frame < input.tableLength
  lookups : ∀ pos : Nat, (pos : Int) < input.size → sectorSize ∣ pos →
    (∀ entry ∈ (input.seek pos).entriesUsed, entry < input.tableLength) ∧
      input.positionShift < 64
  requested : ∀ pos : Nat, (pos : Int) < input.size → sectorSize ∣ pos →
    ∀ (index daxSize : Nat → Nat) (daxIsNC : Nat → Bool),
      (∀ entry, entry < input.tableLength →
        index entry = input.index entry ∧
          daxSize entry = input.daxSize entry ∧
          daxIsNC entry = input.daxIsNC entry) →
        ((input.seek pos).withTables index daxSize daxIsNC).request =
          (input.seek pos).request

/-- The header has been accepted, and the tables have been read in full. -/
inductive Detected (env : Environment) (pool : BufferPool)
    (headerBuf : Buffer) (header tables : Bytes) : Input → Prop
  | index {bytes : Nat} :
      ((create env).onHeaderRead pool headerBuf
          (some header)).input.inFlight = [.readIndex bytes] →
      tables.length = bytes →
      Detected env pool headerBuf header tables
        (((create env).onHeaderRead pool headerBuf
          (some header)).input.onIndexRead env pool bytes
            (some tables)).input
  | tables {frames bytes : Nat} {areas : Option Nat} :
      ((create env).onHeaderRead pool headerBuf
          (some header)).input.inFlight =
        [.readTables frames areas bytes] →
      tables.length = bytes →
      Detected env pool headerBuf header tables
        (((create env).onHeaderRead pool headerBuf
          (some header)).input.onTablesRead env pool frames areas bytes
            (some tables)).input

end Input

/-! ## When all accesses are inside -/

/-- The image has no sectors, or its number of blocks, counted as the reader
does, leaves room for one more entry in 32 bits and positions are shifted by
less than 64. -/
def CsoHeader.TableFits (header : CsoHeader) : Prop :=
  toInt64 header.uncompressedSize ≤ 0 ∨
    (toInt64 header.uncompressedSize + header.sectorSize - 1 <
        (2 ^ 32 - 1) * 2 ^ Nat.log2 header.sectorSize ∧
      header.indexShift < 64)

/-- Every NC area that has frames ends within the frames of the image. -/
def DaxHeader.AreasFit (header : DaxHeader) (areas : Nat → UInt8) : Prop :=
  ∀ area, area < (Input.daxAreas header).getD 0 →
    decodeTable 4 areas (2 * area + 1) = 0 ∨
      decodeTable 4 areas (2 * area) + decodeTable 4 areas (2 * area + 1) ≤
        (header.uncompressedSize + daxFrameSize - 1) / daxFrameSize

/-- The condition for the format that the header has. -/
def HeaderFits (env : Environment) (header tables : Bytes) : Prop :=
  if header.take 4 = daxMagic then
    let frames :=
      ((DaxHeader.decode header).uncompressedSize + daxFrameSize - 1) /
        daxFrameSize
    (DaxHeader.decode header).AreasFit
      (FlatMemory.write env.newAreas 0
        (tables.drop (frames * 4 + frames * 2)))
  else
    (CsoHeader.decode header).TableFits

namespace Input

/-- The blocks of an image and their successors have entries in an index of
wrapped length exactly when nothing wraps. -/
theorem entries_inside_iff
    {size blockSize blocks shift : Nat} (some : 0 < size)
    (low : 2 ^ shift ≤ blockSize) (high : blockSize < 2 ^ (shift + 1))
    (aligned : 2 ^ 11 ∣ 2 ^ shift)
    (blocksEq : blocks = (size + blockSize - 1) / 2 ^ shift) :
    (∀ pos, pos < size → 2 ^ 11 ∣ pos →
        pos / 2 ^ shift % 2 ^ 32 < (blocks % 2 ^ 32 + 1) % 2 ^ 32 ∧
          (pos / 2 ^ shift % 2 ^ 32 + 1) % 2 ^ 32 <
            (blocks % 2 ^ 32 + 1) % 2 ^ 32) ↔
      blocks + 1 < 2 ^ 32 := by
  have positive := Nat.two_pow_pos shift
  rw [Nat.pow_succ] at high
  generalize 2 ^ shift = step at *
  have lower : (size - 1) / step + 1 ≤ blocks := by
    rw [blocksEq, ← Nat.add_div_right _ positive]
    exact Nat.div_le_div_right (by omega)
  have upper : blocks ≤ (size - 1) / step + 2 := by
    have twice : (size - 1 + step * 2) / step = (size - 1) / step + 2 :=
      Nat.add_mul_div_left _ _ positive
    rw [blocksEq, ← twice]
    exact Nat.div_le_div_right (by omega)
  have within (block : Nat) (below : block ≤ (size - 1) / step) :
      block * step < size ∧ 2 ^ 11 ∣ block * step ∧
        block * step / step = block := by
    have product := (Nat.mul_le_mul_right step below).trans
      (Nat.div_mul_le_self (size - 1) step)
    exact ⟨by omega, Dvd.dvd.mul_left aligned block,
      Nat.mul_div_cancel block positive⟩
  constructor
  · intro inside
    by_contra wraps
    -- The last block whose successor has no entry in any array.
    have probe (block : Nat) (below : block ≤ (size - 1) / step) :
        (block % 2 ^ 32 + 1) % 2 ^ 32 <
          (blocks % 2 ^ 32 + 1) % 2 ^ 32 := by
      obtain ⟨before, divides, quotient⟩ := within block below
      have entry := (inside (block * step) before divides).2
      rwa [quotient] at entry
    have first := probe (2 ^ 32 - 3) (by omega)
    have second := probe (2 ^ 32 - 2) (by omega)
    omega
  · intro fits pos below _
    have quotient : pos / step ≤ (size - 1) / step :=
      Nat.div_le_div_right (by omega)
    generalize pos / step = block at *
    generalize (size - 1) / step = last at *
    omega

section

variable {env : Environment} {pool : BufferPool} {headerBuf : Buffer}
variable {header tables : Bytes}

/-- The index of a CSO or ZSO file is asked for. -/
theorem index_asked
    {bytes : Nat}
    (asked : ((create env).onHeaderRead pool headerBuf
      (some header)).input.inFlight = [.readIndex bytes]) :
    header.take 4 ≠ daxMagic ∧
      (create env).onHeaderRead pool headerBuf (some header) =
        (create env).detectCso pool (headerBuf.filled header)
          (CsoHeader.decode header) := by
  unfold onHeaderRead at asked ⊢
  dsimp only at asked ⊢
  by_cases whole : header.length ≠ 24
  · rw [if_pos whole] at asked
    cases asked
  rw [if_neg whole] at asked ⊢
  by_cases cso : header.take 4 = zsoMagic ∨ header.take 4 = csoMagic
  · rw [if_pos cso]
    refine ⟨?_, rfl⟩
    intro dax
    rw [dax] at cso
    exact absurd cso (by decide)
  rw [if_neg cso] at asked
  by_cases dax : header.take 4 = daxMagic
  · rw [if_pos dax, detectDax] at asked
    dsimp only at asked
    split at asked <;> cases asked
  · rw [if_neg dax] at asked
    cases asked

/-- The tables of a DAX file are asked for. -/
theorem tables_asked
    {frames bytes : Nat} {areas : Option Nat}
    (asked : ((create env).onHeaderRead pool headerBuf
      (some header)).input.inFlight = [.readTables frames areas bytes]) :
    header.take 4 = daxMagic ∧
      ((create env).onHeaderRead pool headerBuf (some header)).input =
        (({ create env with
          fileType := .dax
          size := (DaxHeader.decode header).uncompressedSize
          csoBlockSize := daxFrameSize }).setupCache daxFrameSize).ask
            (.readTables frames areas bytes) := by
  unfold onHeaderRead at asked ⊢
  dsimp only at asked ⊢
  by_cases whole : header.length ≠ 24
  · rw [if_pos whole] at asked
    cases asked
  rw [if_neg whole] at asked ⊢
  by_cases cso : header.take 4 = zsoMagic ∨ header.take 4 = csoMagic
  · rw [if_pos cso, detectCso] at asked
    dsimp only at asked
    split at asked
    · cases asked
    · split at asked <;> cases asked
  rw [if_neg cso] at asked ⊢
  by_cases dax : header.take 4 = daxMagic
  · rw [if_pos dax, detectDax] at asked ⊢
    dsimp only at asked ⊢
    split at asked
    · cases asked
    · obtain ⟨rfl, rfl, rfl⟩ :=
        InputRequest.readTables.inj (List.singleton_inj.mp asked)
      exact ⟨dax, rfl⟩
  · rw [if_neg dax] at asked
    cases asked

theorem daxFrames_natCast
    {size : Nat} (small : size < 2 ^ 32) :
    daxFrames size = (size + daxFrameSize - 1) / daxFrameSize := by
  simp only [daxFrames, daxFrameSize, daxFrameShift, toUint32]
  omega

theorem daxSize_lt (header : Bytes) :
    (DaxHeader.decode header).uncompressedSize < 2 ^ 32 := by
  have bounded := LittleEndian.decode_lt ((header.drop 4).take 4)
  have narrow : ((header.drop 4).take 4).length ≤ 4 :=
    List.length_take_le 4 _
  have wide : 256 ^ ((header.drop 4).take 4).length ≤ 256 ^ 4 :=
    Nat.pow_le_pow_right (by decide) narrow
  exact lt_of_lt_of_le bounded wide

theorem onTablesRead_input
    (input : Input) {frames bytes : Nat} {areas : Option Nat}
    (full : tables.length = bytes) :
    (input.onTablesRead env pool frames areas bytes (some tables)).input =
      { input with
        index :=
          decodeTable 4
            (FlatMemory.write env.newIndex 0 (tables.take (frames * 4)))
        daxSize :=
          decodeTable 2
            (FlatMemory.write env.newSizes 0
              ((tables.drop (frames * 4)).take (frames * 2)))
        daxIsNC :=
          markAreas
            (FlatMemory.write env.newAreas 0
              (tables.drop (frames * 4 + frames * 2)))
            (areas.getD 0) } := by
  simp only [onTablesRead, full, ne_eq, not_true_eq_false, if_false]

theorem onIndexRead_input
    (input : Input) {bytes : Nat} (full : tables.length = bytes) :
    (input.onIndexRead env pool bytes (some tables)).input =
      { input with
        index :=
          decodeTable 4 (FlatMemory.write env.newIndex 0 tables) } := by
  simp only [onIndexRead, full, ne_eq, not_true_eq_false, if_false]

/-- In a DAX file, the frames of all sectors have entries. -/
theorem dax_lookups
    {input : Input} {size : Nat} (type : input.fileType = .dax)
    (sizeEq : input.size = size) (small : size < 2 ^ 32) (pos : Nat)
    (below : (pos : Int) < input.size) :
    (∀ entry ∈ (input.seek pos).entriesUsed, entry < input.tableLength) ∧
      input.positionShift < 64 := by
  have length : input.tableLength =
      (size + daxFrameSize - 1) / daxFrameSize := by
    rw [tableLength, type, sizeEq, daxFrames_natCast small]
  have used : (input.seek pos).entriesUsed = [pos / daxFrameSize] := by
    have frame : (input.seek pos).daxFrame = pos / daxFrameSize := by
      simp only [daxFrame, seek, daxFrameShift, daxFrameSize, toUint32]
      omega
    have type' : (input.seek pos).fileType = .dax := type
    rw [entriesUsed, type', frame]
  refine ⟨?_, ?_⟩
  · intro entry member
    rw [used, List.mem_singleton] at member
    rw [member, length]
    simp only [daxFrameSize]
    omega
  · rw [positionShift, type]
    exact Nat.zero_lt_succ 63

/-- In a CSO or ZSO file, the blocks of all sectors and their successors have
entries. -/
theorem cso_lookups_iff
    {input : Input} {header : CsoHeader}
    (type : input.fileType = csoFileType header)
    (sizeEq : input.size = toInt64 header.uncompressedSize)
    (blockSize : input.csoBlockSize = header.sectorSize)
    (blockShift : input.csoBlockShift = Nat.log2 header.sectorSize)
    (indexShift : input.csoIndexShift = header.indexShift)
    (large : sectorSize ≤ header.sectorSize) :
    (∀ pos : Nat, (pos : Int) < input.size → sectorSize ∣ pos →
      (∀ entry ∈ (input.seek pos).entriesUsed, entry < input.tableLength) ∧
        input.positionShift < 64) ↔
      header.TableFits := by
  have cso := csoFileType_cases header
  rw [← type] at cso
  have nonzero : header.sectorSize ≠ 0 := by
    simp only [sectorSize] at large
    omega
  have low := Nat.log2_self_le nonzero
  have high := @Nat.lt_log2_self header.sectorSize
  have aligned : 2 ^ 11 ∣ 2 ^ Nat.log2 header.sectorSize :=
    Nat.pow_dvd_pow 2 ((Nat.le_log2 nonzero).mpr large)
  have shift : input.positionShift = header.indexShift := by
    rcases cso with same | same | same <;>
      simp [positionShift, same, indexShift]
  by_cases none : toInt64 header.uncompressedSize ≤ 0
  · have left : header.TableFits := Or.inl none
    simp only [left, iff_true]
    intro pos below
    omega
  · obtain ⟨size, size_eq⟩ :=
      Int.eq_ofNat_of_zero_le (Int.le_of_lt (not_le.mp none))
    rw [size_eq] at sizeEq none
    have some : 0 < size := by omega
    have numerator : (size : Int) + header.sectorSize - 1 =
        ((size + header.sectorSize - 1 : Nat) : Int) := by omega
    have length : input.tableLength =
        ((size + header.sectorSize - 1) / 2 ^ Nat.log2 header.sectorSize %
          2 ^ 32 + 1) % 2 ^ 32 := by
      have blocks : toUint32 (input.sizeAligned / 2 ^ input.csoBlockShift) =
          (size + header.sectorSize - 1) / 2 ^ Nat.log2 header.sectorSize %
            2 ^ 32 := by
        rw [sizeAligned, sizeEq, blockSize, blockShift, numerator,
          ← toUint32_natCast]
        push_cast
        rfl
      rcases cso with same | same | same <;> simp [tableLength, same, blocks]
    have used (pos : Nat) : (input.seek pos).entriesUsed =
        [pos / 2 ^ Nat.log2 header.sectorSize % 2 ^ 32,
          (pos / 2 ^ Nat.log2 header.sectorSize % 2 ^ 32 + 1) % 2 ^ 32] := by
      have block : (input.seek pos).csoBlock =
          pos / 2 ^ Nat.log2 header.sectorSize % 2 ^ 32 := by
        rw [csoBlock, seek, blockShift, ← toUint32_natCast]
        push_cast
        rfl
      rw [@entriesUsed_of_cso (input.seek pos) cso, block]
    have inside_iff := @entries_inside_iff size header.sectorSize _
      (Nat.log2 header.sectorSize) some low high aligned rfl
    have fits_iff : header.TableFits ↔
        (size + header.sectorSize - 1) / 2 ^ Nat.log2 header.sectorSize +
            1 < 2 ^ 32 ∧
          header.indexShift < 64 := by
      have bound :
          (size + header.sectorSize - 1) / 2 ^ Nat.log2 header.sectorSize +
              1 < 2 ^ 32 ↔
            size + header.sectorSize - 1 <
              (2 ^ 32 - 1) * 2 ^ Nat.log2 header.sectorSize := by
        rw [← Nat.div_lt_iff_lt_mul (Nat.two_pow_pos _)]
        omega
      rw [CsoHeader.TableFits, size_eq, numerator, bound]
      push_cast
      constructor
      · rintro (empty | fits)
        · omega
        · exact ⟨by exact_mod_cast fits.1, fits.2⟩
      · intro fits
        exact Or.inr ⟨by exact_mod_cast fits.1, fits.2⟩
    rw [fits_iff, ← inside_iff, shift, length, sizeEq]
    simp only [used, List.mem_cons, List.not_mem_nil, or_false,
      forall_eq_or_imp, forall_eq, Nat.cast_lt]
    constructor
    · intro inside
      exact ⟨fun pos below divides => (inside pos below divides).1,
        (inside 0 some (dvd_zero _)).2⟩
    · intro inside pos below divides
      exact ⟨inside.1 pos below divides, inside.2⟩

/-- For an accepted header and tables read in full, every access lies inside
its array exactly when the header and the NC areas fit. -/
theorem accesses_inside
    {input : Input}
    (detected : Detected env pool headerBuf header tables input) :
    input.AccessesInside env header tables ↔
      HeaderFits env header tables := by
  have separate :
      input.AccessesInside env header tables ↔
        (∀ frame ∈ input.marksMade env header tables,
          frame < input.tableLength) ∧
        ∀ pos : Nat, (pos : Int) < input.size → sectorSize ∣ pos →
          (∀ entry ∈ (input.seek pos).entriesUsed,
            entry < input.tableLength) ∧
            input.positionShift < 64 :=
    ⟨fun accesses => ⟨accesses.marks, accesses.lookups⟩,
      fun both => ⟨both.1, both.2, fun pos below aligned _ _ _ same =>
        request_of_entries fun entry used =>
          same entry ((both.2 pos below aligned).1 entry used)⟩⟩
  rw [separate]
  cases detected with
  | index asked full =>
      obtain ⟨noDax, detects⟩ := index_asked asked
      rw [detects] at asked
      obtain ⟨unrejected, inputEq, _⟩ := accepted_of_asked asked
      obtain ⟨_, large, _, _⟩ := csoRejection_none unrejected
      have cso := csoFileType_cases (CsoHeader.decode header)
      generalize final : (((create env).onHeaderRead pool headerBuf
        (some header)).input.onIndexRead env pool _
          (some tables)).input = input
      rw [onIndexRead_input _ full, detects, inputEq] at final
      have type : input.fileType =
          csoFileType (CsoHeader.decode header) := by
        rw [← final]
        rfl
      have lookups := @cso_lookups_iff input (CsoHeader.decode header) type
        (by rw [← final]; rfl) (by rw [← final]; rfl)
        (by rw [← final]; rfl) (by rw [← final]; rfl) large
      have noMarks : input.marksMade env header tables = [] := by
        apply if_neg
        rw [type]
        rcases cso with same | same | same <;> rw [same] <;>
          exact FileType.noConfusion
      rw [lookups, noMarks, HeaderFits, if_neg noDax]
      simp
  | tables asked full =>
      obtain ⟨dax, inputEq⟩ := tables_asked asked
      have small := daxSize_lt header
      generalize final : (((create env).onHeaderRead pool headerBuf
        (some header)).input.onTablesRead env pool _ _ _
          (some tables)).input = input
      rw [onTablesRead_input _ full, inputEq] at final
      have type : input.fileType = .dax := by
        rw [← final]
        rfl
      have sizeEq : input.size =
          ((DaxHeader.decode header).uncompressedSize : Int) := by
        rw [← final]
        rfl
      have lookups := dax_lookups type sizeEq small
      have framesEq := daxFrames_natCast small
      have length : input.tableLength =
          ((DaxHeader.decode header).uncompressedSize + daxFrameSize - 1) /
            daxFrameSize := by
        rw [tableLength, type, sizeEq, framesEq]
      have few :
          ((DaxHeader.decode header).uncompressedSize + daxFrameSize - 1) /
            daxFrameSize < 2 ^ 32 := by
        simp only [daxFrameSize]
        omega
      rw [HeaderFits, if_pos dax, DaxHeader.AreasFit, marksMade,
        if_pos type, length, sizeEq, framesEq]
      dsimp only
      rw [areaMarks_below_iff _ few]
      exact and_iff_left fun pos below _ => by
        simpa only [length] using lookups pos (by rw [sizeEq]; exact below)

end

/-- The buffer that a header is read into. -/
def headerBuffer : Buffer := ⟨0, 16384, fun _ => 0⟩

theorem twoBlockHeader_encodable : twoBlockHeader.Encodable := by
  constructor <;> decide

theorem accesses_inside_twoBlockHeader :
    (((create (.ofFile [])).onHeaderRead .initial headerBuffer
          (some twoBlockHeader.encode)).input.onIndexRead (.ofFile [])
        .initial 12 (some (List.replicate 12 0))).input.AccessesInside
      (.ofFile []) twoBlockHeader.encode (List.replicate 12 0) :=
  (@accesses_inside (.ofFile []) .initial headerBuffer
    twoBlockHeader.encode (List.replicate 12 0) _
    (Detected.index rfl rfl)).mpr
    (by
      rw [HeaderFits, if_neg (by decide),
        CsoHeader.decode_encode twoBlockHeader_encodable]
      exact Or.inr (by simp [twoBlockHeader, toInt64, Nat.log2_def]))

/-- A DAX header for one frame and one NC area. -/
def areaHeader : Bytes :=
  (DaxHeader.mk daxMagic 2048 1 1 [0, 0]).encode

/-- Position and size of the frame, and an area of one frame after it. -/
def areaTables : Bytes :=
  LittleEndian.encode 4 46 ++ LittleEndian.encode 2 8 ++
    LittleEndian.encode 4 1 ++ LittleEndian.encode 4 1

/-- The area is accepted, and its mark is written past the end of an array of
one entry. -/
theorem areaHeader_marks_outside :
    ∃ input : Input,
      Detected (.ofFile []) .initial headerBuffer areaHeader areaTables
          input ∧
        ¬ input.AccessesInside (.ofFile []) areaHeader areaTables := by
  have decoded : DaxHeader.decode areaHeader =
      ⟨daxMagic, 2048, 1, 1, [0, 0]⟩ := by decide
  have asked :
      ((create (.ofFile [])).onHeaderRead .initial headerBuffer
        (some areaHeader)).input.inFlight =
          [.readTables 1 (some 1) 14] := by
    unfold onHeaderRead
    dsimp only
    rw [if_neg (by decide), if_neg (by decide), if_pos (by decide),
      decoded]
    rfl
  refine ⟨_, Detected.tables asked rfl, ?_⟩
  intro accesses
  have mark := accesses.marks 1 (by decide)
  exact absurd mark (by decide)

end Input

end Maxcso
