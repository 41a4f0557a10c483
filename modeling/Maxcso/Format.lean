import Maxcso.Library.LittleEndian
import Maxcso.Library.FlatMemory

/-!
# Container formats

The constants and the packed headers of `cso.h` and `dax.h`, with the flags
of `compress.h`.  Unsigned machine words are natural numbers; wherever the
source converts or wraps, the reduction is written out.
-/

namespace Maxcso

abbrev Bytes := List UInt8

instance : LawfulBEq Bytes := inferInstance

abbrev sectorSize : Nat := 0x800
abbrev sectorMask : Nat := 0x7FF
abbrev maxBlockSize : Nat := 0x40000
abbrev csoIndexUncompressed : Nat := 0x80000000
abbrev cso2IndexLz4 : Nat := 0x80000000
abbrev daxFrameSize : Nat := 0x2000
abbrev daxFrameShift : Nat := 13

def csoMagic : Bytes := [0x43, 0x49, 0x53, 0x4F]
def zsoMagic : Bytes := [0x5A, 0x49, 0x53, 0x4F]
def daxMagic : Bytes := [0x44, 0x41, 0x58, 0x00]

inductive CsoFormat where
  | cso1
  | cso2
  | zso
  | dax
  deriving DecidableEq, Repr

inductive SectorFormat where
  | orig
  | deflate
  | lz4
  deriving DecidableEq, Repr

/-- Truncation to `uint32_t`. -/
def toUint32 (value : Int) : Nat := (value % 2 ^ 32).toNat

theorem toUint32_natCast (value : Nat) :
    toUint32 value = value % 2 ^ 32 := rfl

theorem toUint32_of_lt {value : Nat} (small : value < 2 ^ 32) :
    toUint32 value = value := by
  rw [toUint32_natCast, Nat.mod_eq_of_lt small]

/-- A value as an `int32_t`. -/
def toInt32 (value : Nat) : Int :=
  if value % 2 ^ 32 < 2 ^ 31 then
    ((value % 2 ^ 32 : Nat) : Int)
  else
    ((value % 2 ^ 32 : Nat) : Int) - 2 ^ 32

/-- The two's complement reading of a `uint64_t` as `int64_t`. -/
def toInt64 (value : Nat) : Int :=
  if value % 2 ^ 64 < 2 ^ 63 then
    ((value % 2 ^ 64 : Nat) : Int)
  else
    ((value % 2 ^ 64 : Nat) : Int) - 2 ^ 64

theorem toInt64_of_lt {value : Nat} (small : value < 2 ^ 63) :
    toInt64 value = value := by
  unfold toInt64
  split <;> omega

/-! ## Task flags -/

abbrev taskflagFmtZso : Nat := 0x20
abbrev taskflagFmtCso2 : Nat := 0x40
abbrev taskflagDecompress : Nat := 0x400
abbrev taskflagFmtDax : Nat := 0x800
abbrev taskflagMeasure : Nat := 0x2000

/-- `flags & mask` as a condition. -/
def hasFlag (flags mask : Nat) : Bool := flags &&& mask != 0

/-! ## Headers -/

/-- `CSOHeader`: 24 packed bytes. -/
structure CsoHeader where
  magic : Bytes
  headerSize : Nat
  uncompressedSize : Nat
  sectorSize : Nat
  version : Nat
  indexShift : Nat
  unused : Bytes
  deriving DecidableEq, Repr

abbrev csoHeaderSize : Nat := 24

def CsoHeader.encode (header : CsoHeader) : Bytes :=
  header.magic ++ LittleEndian.encode 4 header.headerSize ++
    LittleEndian.encode 8 header.uncompressedSize ++
    LittleEndian.encode 4 header.sectorSize ++
    LittleEndian.encode 1 header.version ++
    LittleEndian.encode 1 header.indexShift ++ header.unused

/-- The little-endian word of `width` bytes at `offset`. -/
def wordAt (bytes : Bytes) (offset width : Nat) : Nat :=
  LittleEndian.decode ((bytes.drop offset).take width)

def CsoHeader.decode (bytes : Bytes) : CsoHeader where
  magic := bytes.take 4
  headerSize := wordAt bytes 4 4
  uncompressedSize := wordAt bytes 8 8
  sectorSize := wordAt bytes 16 4
  version := wordAt bytes 20 1
  indexShift := wordAt bytes 21 1
  unused := (bytes.drop 22).take 2

/-- `DAXHeader`: 32 bytes, of which the reader looks at the first 24. -/
structure DaxHeader where
  magic : Bytes
  uncompressedSize : Nat
  version : Nat
  ncAreas : Nat
  unused : List Nat
  deriving DecidableEq, Repr

abbrev daxHeaderSize : Nat := 32

def DaxHeader.encode (header : DaxHeader) : Bytes :=
  header.magic ++ LittleEndian.encode 4 header.uncompressedSize ++
    LittleEndian.encode 4 header.version ++
    LittleEndian.encode 4 header.ncAreas ++
    header.unused.flatMap (LittleEndian.encode 4)

def DaxHeader.decode (bytes : Bytes) : DaxHeader where
  magic := bytes.take 4
  uncompressedSize := wordAt bytes 4 4
  version := wordAt bytes 8 4
  ncAreas := wordAt bytes 12 4
  unused := [wordAt bytes 16 4, wordAt bytes 20 4]

/-! ## Tables of words -/

/-- A table of words as the bytes that `write` sees. -/
def encodeTable (width count : Nat) (table : Nat → Nat) : Bytes :=
  (List.range count).flatMap fun entry =>
    LittleEndian.encode width (table entry)

/-- A table of words as seen through a pointer into a memory. -/
def decodeTable (width : Nat) (memory : Nat → UInt8) (entry : Nat) : Nat :=
  LittleEndian.decode (FlatMemory.read memory (width * entry) width)

theorem encodeTable_succ (width count : Nat) (table : Nat → Nat) :
    encodeTable width (count + 1) table =
      encodeTable width count table ++
        LittleEndian.encode width (table count) := by
  simp [encodeTable, List.range_succ]

@[simp]
theorem length_encodeTable (width count : Nat) (table : Nat → Nat) :
    (encodeTable width count table).length = width * count := by
  induction count with
  | zero => rfl
  | succ count inductionHypothesis =>
      rw [encodeTable_succ, List.length_append, inductionHypothesis,
        LittleEndian.length_encode, Nat.mul_succ]

/-- The bytes of one entry. -/
theorem slice_encodeTable
    (width : Nat) {count entry : Nat} (table : Nat → Nat)
    (inside : entry < count) :
    ((encodeTable width count table).drop (width * entry)).take width =
      LittleEndian.encode width (table entry) := by
  induction count with
  | zero => exact absurd inside (Nat.not_lt_zero entry)
  | succ count inductionHypothesis =>
      rw [encodeTable_succ]
      by_cases last : entry = count
      · subst last
        rw [List.drop_left' (length_encodeTable width entry table),
          List.take_of_length_le (by simp)]
      · have before : entry < count := by omega
        have fits : width * entry + width ≤ width * count := by
          rw [← Nat.mul_succ]
          exact Nat.mul_le_mul_left width before
        rw [List.drop_append_of_le_length (by simp; omega),
          List.take_append_of_le_length (by simp; omega),
          inductionHypothesis before]

/-- A table that has been written is read back. -/
theorem decodeTable_encodeTable
    {width count entry : Nat} {table : Nat → Nat} (memory : Nat → UInt8)
    (inside : entry < count) (small : table entry < 256 ^ width) :
    decodeTable width
        (FlatMemory.write memory 0 (encodeTable width count table)) entry =
      table entry := by
  have fits : width * entry + width ≤ (encodeTable width count table).length := by
    rw [length_encodeTable, ← Nat.mul_succ]
    exact Nat.mul_le_mul_left width inside
  have read :=
    @FlatMemory.read_write_of_le UInt8 memory 0
      (encodeTable width count table) (width * entry) width fits
  rw [Nat.zero_add] at read
  rw [decodeTable, read, slice_encodeTable width table inside,
    LittleEndian.decode_encode_of_lt small]

end Maxcso
