import Maxcso.Format
import Maxcso.Library.FileBytes

/-!
# The environment

What the program takes from outside: `libuv`, the codecs, the compressors and
uninitialised memory.  Each is a field; what a result relies on is a named
hypothesis about it.
-/

namespace Maxcso

/-- A compressor's output as handed to `SubmitTrial`. -/
structure Trial where
  data : Bytes
  format : SectorFormat
  deriving DecidableEq, Repr

structure Environment where
  /-- The bytes that the `n`-th completed `fs_read` at an offset put into its
  buffers; `none` is a negative result. -/
  fsRead : Nat → Int → Nat → Option Bytes
  /-- `st_size` of the input file, or `none` for a negative result. -/
  fsStat : Option Nat
  /-- `inflate` with `Z_FINISH`: with or without a zlib header, room for the
  given number of bytes.  An error carries `z.msg`. -/
  inflate : Bool → Nat → Bytes → Except String Bytes
  /-- `LZ4_decompress_safe_partial` with the target size; `none` is a negative
  result. -/
  lz4DecompressSafePartial : Bytes → Nat → Option Bytes
  /-- The status the `n`-th `after_work` callback gets. -/
  workStatus : Nat → Int
  /-- The successful results, in order, that the methods of
  `Sector::Compress` submit for the block at a position. -/
  trials : Int → Bytes → List Trial
  /-- What `malloc` leaves at each address of the pool. -/
  heap : Nat → Nat → UInt8
  /-- What `new` leaves in `cache_`. -/
  newCache : Nat → UInt8
  /-- What `new` leaves in `csoIndex_` or `daxIndex_`. -/
  newIndex : Nat → UInt8
  /-- What `new` leaves in `daxSize_` or in the writer's `sizes`. -/
  newSizes : Nat → UInt8
  /-- What `new` leaves in the list of NC areas. -/
  newAreas : Nat → UInt8

namespace Environment

/-- Reads return what the file holds of the range they ask for. -/
def CompleteReads (env : Environment) (file : Bytes) : Prop :=
  ∀ count offset length, 0 ≤ offset →
    env.fsRead count offset length =
      some (FileBytes.pread file offset.toNat length)

/-- A read returns at most as many bytes as its buffers hold. -/
def BoundedReads (env : Environment) : Prop :=
  ∀ count offset length data, env.fsRead count offset length = some data →
    data.length ≤ length

/-- A file on a file system that works, with codecs that refuse everything and
memory that is zero. -/
def ofFile (file : Bytes) : Environment where
  fsRead := fun _ offset length =>
    some (FileBytes.pread file offset.toNat length)
  fsStat := some file.length
  inflate := fun _ _ _ => .error "Inflate failed"
  lz4DecompressSafePartial := fun _ _ => none
  workStatus := fun _ => 0
  trials := fun _ _ => []
  heap := fun _ _ => 0
  newCache := fun _ => 0
  newIndex := fun _ => 0
  newSizes := fun _ => 0
  newAreas := fun _ => 0

theorem ofFile_completeReads (file : Bytes) :
    (ofFile file).CompleteReads file :=
  fun _ _ _ _ => rfl

end Environment

/-- The deflate stream of 4096 zero bytes. -/
def zeroBlockStream : Bytes :=
  [0xED, 0xC1, 0x01, 0x0D, 0x00, 0x00, 0x00, 0xC2, 0xA0, 0xF7, 0x4F, 0x6D,
    0x0F, 0x07, 0x14, 0x00, 0x00, 0x00, 0xF0, 0x6E]

end Maxcso
