import Maxcso.Format
import Maxcso.Library.FlatMemory
import Maxcso.Library.Transition

/-!
# Streams on fixed buffers

`deflate7z.cpp`: the streams through which the coder of 7-zip reads a block and
writes its result, and `Deflate`.  The coder is any program that reads and
writes through them; what it leaves of a result that is only partly accepted
it writes again.
-/

namespace Maxcso

namespace Deflate7z

open Transition

abbrev sOk : UInt32 := 0
abbrev eFail : UInt32 := 0x80004005

/-! ## Reading -/

/-- `CInBlockStream` -/
structure InBlockStream where
  buffer : Nat → UInt8
  size : UInt32
  pos : UInt32

/-- What a call of `Read` returns, and the bytes of the block that it has
looked at. -/
structure ReadResult where
  stream : InBlockStream
  data : Bytes
  processedSize : UInt32
  accessed : List Nat

namespace InBlockStream

/-- `CInBlockStream::Init` -/
def init (buffer : Nat → UInt8) (size : UInt32) : InBlockStream :=
  ⟨buffer, size, 0⟩

/-- `CInBlockStream::Read` -/
def read (stream : InBlockStream) (size : UInt32) : ReadResult :=
  let size :=
    if stream.pos + size > stream.size then stream.size - stream.pos
    else size
  if stream.size ≠ 0 then
    ⟨{ stream with pos := stream.pos + size },
      FlatMemory.read stream.buffer stream.pos.toNat size.toNat, size,
      (List.range size.toNat).map (stream.pos.toNat + ·)⟩
  else
    ⟨stream, [], size, []⟩

/-- The results of a sequence of requests. -/
def readAll : InBlockStream → List UInt32 → List ReadResult
  | _, [] => []
  | stream, size :: sizes =>
      stream.read size :: readAll (stream.read size).stream sizes

end InBlockStream

/-! ## Writing -/

/-- `COutBlockStream` -/
structure OutBlockStream where
  buffer : Nat → UInt8
  size : UInt32
  pos : UInt32

namespace OutBlockStream

/-- `COutBlockStream::Init` -/
def init (buffer : Nat → UInt8) (size : UInt32) : OutBlockStream :=
  ⟨buffer, size, 0⟩

/-- `COutBlockStream::DataSize` -/
def dataSize (stream : OutBlockStream) : UInt32 :=
  stream.pos

/-- `COutBlockStream::Write`, with the size that is processed and what is
returned. -/
def write (stream : OutBlockStream) (data : Bytes) :
    OutBlockStream × UInt32 × UInt32 :=
  let size := UInt32.ofNat data.length
  let size :=
    if stream.pos + size > stream.size then stream.size - stream.pos
    else size
  if size = 0 then
    (stream, size, eFail)
  else
    ({ stream with
        buffer := FlatMemory.write stream.buffer stream.pos.toNat
          (data.take size.toNat)
        pos := stream.pos + size }, size, sOk)

end OutBlockStream

/-- A caller part of the way through writing some data. -/
structure Writing where
  stream : OutBlockStream
  remaining : Bytes
  result : UInt32

/-- A request for a number of bytes at the front of what is left. -/
def Writing.step (writing : Writing) (size : Nat) : Option Writing :=
  if writing.result = sOk ∧ 0 < size ∧ size < 2 ^ 31 ∧
      size ≤ writing.remaining.length then
    let (stream, processedSize, result) :=
      writing.stream.write (writing.remaining.take size)
    some ⟨stream, writing.remaining.drop processedSize.toNat, result⟩
  else
    none

/-- All data has been accepted, or an error has been returned. -/
def Writing.Ended (writing : Writing) : Prop :=
  writing.remaining = [] ∨ writing.result ≠ sOk

/-! ## Deflating -/

/-- A coder: what it does next depends on what it has read and on whether its
data has been accepted. -/
inductive Coder where
  | stop (result : UInt32)
  | read (size : UInt32) (next : Bytes → Coder)
  | write (data : Bytes) (next : UInt32 → Coder)

namespace Coder

/-- Nothing that the coder may do ends in success. -/
def Fails : Coder → Prop
  | stop result => result ≠ sOk
  | read _ next => ∀ data, (next data).Fails
  | write _ next => ∀ result, (next result).Fails

/-- After an error the coder does not end in success: results of `WriteStream`
are checked by `RINOK`, and `COutBuffer` throws the error that `BaseCode`
returns. -/
def Propagates : Coder → Prop
  | stop _ => True
  | read _ next => ∀ data, (next data).Propagates
  | write _ next =>
      (next sOk).Propagates ∧ ∀ result, result ≠ sOk → (next result).Fails

end Coder

/-- A coder runs on two streams, writes some data in all, and returns. -/
inductive Codes : Coder → InBlockStream → OutBlockStream → Bytes → UInt32 →
    OutBlockStream → Prop
  | stop (result : UInt32) (input : InBlockStream)
      (output : OutBlockStream) :
      Codes (.stop result) input output [] result output
  | read {size : UInt32} {next : Bytes → Coder} {input : InBlockStream}
      {output target : OutBlockStream} {written : Bytes} {result : UInt32} :
      Codes (next (input.read size).data) (input.read size).stream output
        written result target →
      Codes (.read size next) input output written result target
  | write {data : Bytes} {next : UInt32 → Coder} {input : InBlockStream}
      {output target : OutBlockStream} {written : Bytes} {result : UInt32}
      {sizes : List Nat} {after : Writing} :
      Execution Writing.step Always ⟨output, data, sOk⟩ sizes after →
      after.Ended →
      Codes (next after.result) input after.stream written result target →
      Codes (.write data next) input output (data ++ written) result target

/-- `Deflate` with a coder: what is in the destination afterwards, and the
size of the result when it succeeds. -/
inductive Deflates (coder : Coder) (dst : Nat → UInt8) (dstSize : UInt32)
    (src : Nat → UInt8) (srcSize : UInt32) :
    Bytes → (Nat → UInt8) → Option UInt32 → Prop
  | intro {written : Bytes} {result : UInt32} {target : OutBlockStream} :
      Codes coder (.init src srcSize) (.init dst dstSize) written result
        target →
      Deflates coder dst dstSize src srcSize written target.buffer
        (if result = sOk then some target.dataSize else none)

/-! ## What is read -/

/-- Requests deliver the rest of a block piece by piece, where `front` has been
read before. -/
structure Delivers (front block : Bytes) (sizes : List UInt32)
    (results : List ReadResult) : Prop where
  length : results.length = sizes.length
  pieces : front ++ results.flatMap (·.data) <+: block
  counted : ∀ result ∈ results,
    result.processedSize.toNat = result.data.length
  ends : ∀ i result size, results[i]? = some result → sizes[i]? = some size →
    result.processedSize = 0 →
      size = 0 ∨ front ++ (results.take i).flatMap (·.data) = block
  inside : ∀ result ∈ results, ∀ index ∈ result.accessed,
    index < block.length

/-- One request: as much as is left of the block, at most. -/
theorem InBlockStream.read_spec
    {stream : InBlockStream} {size : UInt32}
    (small : stream.size.toNat < 2 ^ 31) (small' : size.toNat < 2 ^ 31)
    (fits : stream.pos.toNat ≤ stream.size.toNat) :
    ∃ count : Nat,
      count = min size.toNat (stream.size.toNat - stream.pos.toNat) ∧
        (stream.read size).processedSize.toNat = count ∧
        (stream.read size).data =
          FlatMemory.read stream.buffer stream.pos.toNat count ∧
        (stream.read size).stream.buffer = stream.buffer ∧
        (stream.read size).stream.size = stream.size ∧
        (stream.read size).stream.pos.toNat = stream.pos.toNat + count ∧
        ∀ index ∈ (stream.read size).accessed,
          index < stream.pos.toNat + count := by
  have clamped : (if stream.pos + size > stream.size then
      stream.size - stream.pos else size).toNat =
        min size.toNat (stream.size.toNat - stream.pos.toNat) := by
    have sum : (stream.pos + size).toNat =
        stream.pos.toNat + size.toNat := by
      rw [UInt32.toNat_add, Nat.mod_eq_of_lt (by omega)]
    by_cases long : stream.pos + size > stream.size
    · rw [if_pos long, UInt32.toNat_sub_of_le _ _
        (UInt32.le_iff_toNat_le.mpr fits)]
      rw [gt_iff_lt, UInt32.lt_iff_toNat_lt, sum] at long
      omega
    · rw [if_neg long]
      rw [gt_iff_lt, UInt32.lt_iff_toNat_lt, sum] at long
      omega
  refine ⟨_, rfl, ?_⟩
  unfold read
  dsimp only
  generalize (if stream.pos + size > stream.size then
      stream.size - stream.pos else size) = count at clamped
  by_cases empty : stream.size = 0
  · rw [if_neg (not_not.mpr empty)]
    have none : min size.toNat (stream.size.toNat - stream.pos.toNat) =
        0 := by
      rw [empty, UInt32.toNat_zero]
      omega
    rw [none] at clamped ⊢
    exact ⟨clamped, rfl, rfl, rfl, rfl, nofun⟩
  · rw [if_pos empty, ← clamped]
    refine ⟨rfl, rfl, rfl, rfl, ?_, ?_⟩
    · rw [UInt32.toNat_add, Nat.mod_eq_of_lt (by omega)]
    · intro index member
      obtain ⟨offset, inside, rfl⟩ := List.mem_map.mp member
      have := List.mem_range.mp inside
      omega

/-- Any sequence of requests delivers what follows the position. -/
theorem InBlockStream.readAll_delivers
    {stream : InBlockStream} {sizes : List UInt32}
    (small : stream.size.toNat < 2 ^ 31)
    (smalls : ∀ size ∈ sizes, size.toNat < 2 ^ 31)
    (fits : stream.pos.toNat ≤ stream.size.toNat) :
    Delivers (FlatMemory.read stream.buffer 0 stream.pos.toNat)
      (FlatMemory.read stream.buffer 0 stream.size.toNat) sizes
      (stream.readAll sizes) := by
  induction sizes generalizing stream with
  | nil =>
      constructor
      · rfl
      · rw [readAll, List.flatMap_nil, List.append_nil,
          ← FlatMemory.take_read stream.buffer fits]
        exact List.take_prefix _ _
      · exact nofun
      · exact nofun
      · exact nofun
  | cons size sizes inductionHypothesis =>
      obtain ⟨count, same, processed, data, buffer, size', pos, accessed⟩ :=
        read_spec small (smalls size List.mem_cons_self) fits
      have rest := @inductionHypothesis (stream.read size).stream
        (size' ▸ small)
        (fun size member => smalls size (List.mem_cons_of_mem _ member))
        (by rw [pos, size']; omega)
      rw [buffer, size', pos, FlatMemory.read_add, Nat.zero_add] at rest
      rw [readAll]
      constructor
      · rw [List.length_cons, List.length_cons, rest.length]
      · rw [List.flatMap_cons, data, ← List.append_assoc]
        exact rest.pieces
      · simp only [List.forall_mem_cons]
        refine ⟨?_, rest.counted⟩
        rw [processed, data, FlatMemory.length_read]
      · intro i result request found asked none
        cases i with
        | zero =>
            obtain rfl := Option.some.inj found
            obtain rfl := Option.some.inj asked
            rw [none, UInt32.toNat_zero] at processed
            by_cases zero : size.toNat = 0
            · exact Or.inl (UInt32.toNat_inj.mp zero)
            · right
              rw [List.take_zero, List.flatMap_nil, List.append_nil,
                show stream.pos.toNat = stream.size.toNat by omega]
        | succ i =>
            rw [List.take_succ_cons, List.flatMap_cons, data,
              ← List.append_assoc]
            exact rest.ends i result request found asked none
      · simp only [List.forall_mem_cons]
        refine ⟨fun index member => ?_, rest.inside⟩
        have := accessed index member
        rw [FlatMemory.length_read]
        omega

/-! ## What is written -/

/-- A stream on a buffer that held `memory` at first has accepted some data,
and written nothing else. -/
structure Accepted (memory : Nat → UInt8) (size : UInt32) (data : Bytes)
    (stream : OutBlockStream) : Prop where
  sized : stream.size = size
  count : stream.pos.toNat = data.length
  fits : data.length ≤ size.toNat
  held : FlatMemory.read stream.buffer 0 data.length = data
  kept : ∀ index, data.length ≤ index → stream.buffer index = memory index

theorem accepted_init (memory : Nat → UInt8) (size : UInt32) :
    Accepted memory size [] (.init memory size) :=
  ⟨rfl, rfl, Nat.zero_le _, rfl, fun _ _ => rfl⟩

section

variable {memory : Nat → UInt8} {size : UInt32} {front data : Bytes}
variable {stream : OutBlockStream}

/-- A call accepts what still fits, and fails when that is nothing. -/
theorem OutBlockStream.write_spec
    (accepted : Accepted memory size front stream)
    (small : size.toNat < 2 ^ 31) (small' : data.length < 2 ^ 31) :
    ∃ count : Nat, count = min data.length (size.toNat - front.length) ∧
      (stream.write data).2.1.toNat = count ∧
      Accepted memory size (front ++ data.take count)
        (stream.write data).1 ∧
      (stream.write data).2.2 = if count = 0 then eFail else sOk := by
  obtain ⟨rfl, position, fits, held, kept⟩ := accepted
  have asked : (UInt32.ofNat data.length).toNat = data.length :=
    UInt32.toNat_ofNat_of_lt' (lt_trans small' (by decide))
  have clamped : (if stream.pos + UInt32.ofNat data.length > stream.size then
      stream.size - stream.pos else UInt32.ofNat data.length).toNat =
        min data.length (stream.size.toNat - front.length) := by
    have sum : (stream.pos + UInt32.ofNat data.length).toNat =
        front.length + data.length := by
      rw [UInt32.toNat_add, asked, position, Nat.mod_eq_of_lt (by omega)]
    by_cases long : stream.pos + UInt32.ofNat data.length > stream.size
    · rw [if_pos long, UInt32.toNat_sub_of_le _ _
        (UInt32.le_iff_toNat_le.mpr (position ▸ fits))]
      rw [gt_iff_lt, UInt32.lt_iff_toNat_lt, sum] at long
      omega
    · rw [if_neg long, asked]
      rw [gt_iff_lt, UInt32.lt_iff_toNat_lt, sum] at long
      omega
  refine ⟨_, rfl, ?_⟩
  unfold write
  dsimp only
  generalize (if stream.pos + UInt32.ofNat data.length > stream.size then
      stream.size - stream.pos else UInt32.ofNat data.length) = count
    at clamped
  rw [← clamped]
  by_cases full : count = 0
  · have none : count.toNat = 0 := by rw [full, UInt32.toNat_zero]
    rw [if_pos full, if_pos none, none, List.take_zero, List.append_nil]
    exact ⟨rfl, ⟨rfl, position, fits, held, kept⟩, rfl⟩
  · have some : count.toNat ≠ 0 := fun zero =>
      full (UInt32.toNat_inj.mp zero)
    have taken : (data.take count.toNat).length = count.toNat := by
      rw [List.length_take]
      omega
    rw [if_neg full, if_neg some]
    refine ⟨rfl, ⟨rfl, ?_, ?_, ?_, ?_⟩, rfl⟩
    · rw [UInt32.toNat_add, position, List.length_append, taken,
        Nat.mod_eq_of_lt (by omega)]
    · rw [List.length_append, taken]
      omega
    · have appended := FlatMemory.read_write_append stream.buffer 0
        front.length (data.take count.toNat)
      rw [held, Nat.zero_add, ← List.length_append] at appended
      rwa [position]
    · intro index after
      rw [List.length_append] at after
      exact (FlatMemory.write_apply_of_ge _ (by omega)).trans
        (kept index (by omega))

end

/-- A caller on its way: what has been accepted is what is no longer left, and
an error means that the buffer is full. -/
structure Underway (memory : Nat → UInt8) (size : UInt32) (data : Bytes)
    (sizes : List Nat) (writing : Writing) : Prop where
  accepted : ∃ front, data = front ++ writing.remaining ∧
    Accepted memory size front writing.stream
  full : writing.result ≠ sOk →
    writing.stream.pos = size ∧ writing.remaining ≠ []
  bounded : sizes.length ≤ writing.stream.pos.toNat +
    if writing.result = sOk then 0 else 1

theorem Underway.step
    {memory : Nat → UInt8} {size : UInt32} {data : Bytes}
    {sizes : List Nat} {request : Nat} {source target : Writing}
    (small : size.toNat < 2 ^ 31)
    (underway : Underway memory size data sizes source)
    (taken : source.step request = some target) :
    Underway memory size data (sizes ++ [request]) target := by
  obtain ⟨⟨front, rfl, accepted⟩, _, bounded⟩ := underway
  unfold Writing.step at taken
  split at taken
  · rename_i enabled
    obtain ⟨ok, positive, short, inside⟩ := enabled
    have length : (source.remaining.take request).length = request := by
      rw [List.length_take]
      omega
    have some : source.remaining.take request ≠ [] := by
      intro none
      rw [none, List.length_nil] at length
      omega
    obtain ⟨count, same, processed, accepted', result⟩ :=
      OutBlockStream.write_spec accepted small (length.symm ▸ short)
    rw [length] at same
    generalize source.stream.write (source.remaining.take request) = written
      at taken processed accepted' result
    obtain ⟨stream, processedSize, returned⟩ := written
    obtain rfl := Option.some.inj taken
    dsimp only at processed accepted' result
    rw [List.take_take, Nat.min_eq_left (by omega)] at accepted'
    have room := accepted.fits
    constructor
    · refine ⟨front ++ source.remaining.take count, ?_, accepted'⟩
      dsimp only
      rw [processed, List.append_assoc, List.take_append_drop]
    · intro failed
      dsimp only at failed
      have none : count = 0 := by
        by_contra more
        rw [result, if_neg more] at failed
        exact failed rfl
      rw [none, List.take_zero, List.append_nil] at accepted'
      dsimp only
      constructor
      · apply UInt32.toNat_inj.mp
        rw [accepted'.count]
        omega
      · rw [processed, none, List.drop_zero]
        intro empty
        rw [empty, List.take_nil] at some
        exact some rfl
    · rw [if_pos ok, accepted.count] at bounded
      dsimp only
      rw [accepted'.count, result, List.length_append, List.length_append,
        List.length_take, List.length_singleton]
      by_cases none : count = 0
      · have failed : eFail ≠ sOk := by decide
        rw [if_pos none, if_neg failed]
        omega
      · rw [if_neg none, if_pos rfl]
        omega
  · exact nomatch taken

/-- A caller with some data starts where other data has been accepted. -/
theorem Underway.run
    {memory : Nat → UInt8} {size : UInt32} {front data : Bytes}
    {stream : OutBlockStream} {sizes : List Nat} {target : Writing}
    (small : size.toNat < 2 ^ 31)
    (accepted : Accepted memory size front stream)
    (run : Execution Writing.step Always ⟨stream, data, sOk⟩ sizes target) :
    Underway memory size (front ++ data) sizes target := by
  refine @Execution.track _ _ _ _
    (Underway memory size (front ++ data)) ?_ _ _ _ run ?_
  · intro events source event target underway _ taken
    exact underway.step small taken
  · exact ⟨⟨front, rfl, accepted⟩, fun failed => absurd rfl failed,
      Nat.zero_le _⟩

/-- What a caller has got from a stream on a fixed buffer, as far as it has
come. -/
structure Holds (memory : Nat → UInt8) (size : UInt32) (data : Bytes)
    (sizes : List Nat) (writing : Writing) : Prop where
  accepted : data = data.take writing.stream.dataSize.toNat ++
    writing.remaining
  held : FlatMemory.read writing.stream.buffer 0
    writing.stream.dataSize.toNat =
      data.take writing.stream.dataSize.toNat
  inside : ∀ index, size.toNat ≤ index →
    writing.stream.buffer index = memory index
  fails : writing.Ended →
    (writing.result ≠ sOk ↔ size.toNat < data.length)
  bounded : sizes.length ≤ size.toNat + 1

theorem Underway.holds
    {memory : Nat → UInt8} {size : UInt32} {data : Bytes}
    {sizes : List Nat} {writing : Writing}
    (underway : Underway memory size data sizes writing) :
    Holds memory size data sizes writing := by
  obtain ⟨⟨front, rfl, accepted⟩, full, bounded⟩ := underway
  have count : writing.stream.dataSize.toNat = front.length :=
    accepted.count
  have room := accepted.fits
  constructor
  · rw [count, List.take_left]
  · rw [count, List.take_left]
    exact accepted.held
  · intro index after
    exact accepted.kept index (by omega)
  · intro ended
    rw [List.length_append]
    constructor
    · intro failed
      obtain ⟨last, more⟩ := full failed
      have := List.length_pos_iff.mpr more
      rw [OutBlockStream.dataSize, last] at count
      omega
    · intro long ok
      rcases ended with none | failed
      · rw [none, List.length_nil] at long
        omega
      · exact failed ok
  · rw [accepted.count] at bounded
    split at bounded
    · omega
    · omega

/-! ## The result of a coder -/

theorem Codes.fails
    {coder : Coder} {input : InBlockStream} {output target : OutBlockStream}
    {written : Bytes} {result : UInt32}
    (codes : Codes coder input output written result target)
    (fails : coder.Fails) : result ≠ sOk := by
  induction codes with
  | stop result input output => exact fails
  | read codes inductionHypothesis => exact inductionHypothesis (fails _)
  | write run ended codes inductionHypothesis =>
      exact inductionHypothesis (fails _)

/-- A coder only writes inside the buffer, and when it succeeds all that it
has written is there. -/
theorem Codes.accepted
    {coder : Coder} {input : InBlockStream} {output target : OutBlockStream}
    {written : Bytes} {result : UInt32} {memory : Nat → UInt8}
    {size : UInt32} {front : Bytes} (small : size.toNat < 2 ^ 31)
    (codes : Codes coder input output written result target)
    (propagates : coder.Propagates)
    (accepted : Accepted memory size front output) :
    result = sOk → Accepted memory size (front ++ written) target := by
  induction codes generalizing front with
  | stop result input output =>
      intro _
      rwa [List.append_nil]
  | read codes inductionHypothesis =>
      exact inductionHypothesis (propagates _) accepted
  | @write data next input output target written result sizes after run ended
      codes inductionHypothesis =>
      intro ok
      obtain ⟨⟨front', same, accepted'⟩, full, _⟩ :=
        Underway.run small accepted run
      by_cases passed : after.result = sOk
      · rcases ended with none | failed
        · rw [none, List.append_nil] at same
          rw [← List.append_assoc, same]
          rw [passed] at inductionHypothesis
          exact inductionHypothesis propagates.1 accepted' ok
        · exact absurd passed failed
      · exact absurd ok (codes.fails (propagates.2 _ passed))

theorem Codes.inside
    {coder : Coder} {input : InBlockStream} {output target : OutBlockStream}
    {written : Bytes} {result : UInt32} {memory : Nat → UInt8}
    {size : UInt32} {front : Bytes} (small : size.toNat < 2 ^ 31)
    (codes : Codes coder input output written result target)
    (accepted : Accepted memory size front output) :
    ∀ index, size.toNat ≤ index → target.buffer index = memory index := by
  induction codes generalizing front with
  | stop result input output =>
      intro index after
      exact accepted.kept index (accepted.fits.trans after)
  | read codes inductionHypothesis => exact inductionHypothesis accepted
  | write run ended codes inductionHypothesis =>
      obtain ⟨⟨front', _, accepted'⟩, _, _⟩ :=
        Underway.run small accepted run
      exact inductionHypothesis accepted'

/-- The result of `Deflate`: it is in the destination as a whole, or `Deflate`
does not succeed. -/
structure Deflated (dst : Nat → UInt8) (dstSize : UInt32) (written : Bytes)
    (after : Nat → UInt8) (resultSize : Option UInt32) : Prop where
  whole : ∀ size ∈ resultSize, size.toNat = written.length ∧
    written.length ≤ dstSize.toNat ∧
      FlatMemory.read after 0 written.length = written
  inside : ∀ index, dstSize.toNat ≤ index → after index = dst index

/-- Streams on fixed buffers deliver a block in pieces, hold what has been
accepted, fail exactly when the data does not fit, and leave `Deflate` with a
complete result or none. -/
theorem fixed_buffer_streams
    (src dst : Nat → UInt8) {srcSize dstSize : UInt32}
    (srcSmall : srcSize.toNat < 2 ^ 31) (dstSmall : dstSize.toNat < 2 ^ 31) :
    (∀ sizes : List UInt32, (∀ size ∈ sizes, size.toNat < 2 ^ 31) →
      Delivers [] (FlatMemory.read src 0 srcSize.toNat) sizes
        ((InBlockStream.init src srcSize).readAll sizes)) ∧
    (∀ (data : Bytes) (sizes : List Nat) (writing : Writing),
      Execution Writing.step Always ⟨.init dst dstSize, data, sOk⟩ sizes
          writing →
        Holds dst dstSize data sizes writing) ∧
    ∀ (coder : Coder) (written : Bytes) (after : Nat → UInt8)
      (resultSize : Option UInt32), coder.Propagates →
        Deflates coder dst dstSize src srcSize written after resultSize →
          Deflated dst dstSize written after resultSize := by
  refine ⟨fun sizes smalls => ?_, fun data sizes writing run => ?_, ?_⟩
  · exact @InBlockStream.readAll_delivers (.init src srcSize) sizes srcSmall
      smalls (Nat.zero_le _)
  · exact (Underway.run dstSmall (accepted_init dst dstSize) run).holds
  · intro coder written after resultSize propagates deflates
    obtain ⟨codes⟩ := deflates
    rename_i result target
    constructor
    · intro size member
      by_cases ok : result = sOk
      · rw [if_pos ok] at member
        obtain rfl := Option.some.inj member
        have accepted := codes.accepted dstSmall propagates
          (accepted_init dst dstSize) ok
        exact ⟨accepted.count, accepted.fits, accepted.held⟩
      · rw [if_neg ok] at member
        exact nomatch member
    · exact codes.inside dstSmall (accepted_init dst dstSize)

/-- A coder that writes one byte. -/
theorem fixed_buffer_streams_oneByte :
    Delivers [] [5, 5, 5] [2, 2, 1]
        ((InBlockStream.init (fun _ => 5) 3).readAll [2, 2, 1]) ∧
      Deflated (fun _ => 0) 1 [7] (FlatMemory.write (fun _ => 0) 0 [7])
        (some 1) := by
  have sound := @fixed_buffer_streams (fun _ => 5) (fun _ => 0) 3 1
    (by decide) (by decide +kernel)
  have smalls : ∀ size ∈ ([2, 2, 1] : List UInt32), size.toNat < 2 ^ 31 := by
    rw [List.forall_mem_cons, List.forall_mem_cons, List.forall_mem_singleton]
    decide
  refine ⟨sound.1 [2, 2, 1] smalls,
    sound.2.2 (.write [7] .stop) [7] _ (some 1) ?_ ?_⟩
  · exact ⟨trivial, fun _ failed => failed⟩
  · have run : Execution Writing.step Always
        ⟨.init (fun _ => 0) 1, [7], sOk⟩ [1]
        ⟨⟨FlatMemory.write (fun _ => 0) 0 [7], 1, 1⟩, [], sOk⟩ :=
      .single trivial rfl
    exact .intro (.write run (.inl rfl) (.stop sOk _ _))

/-! ## Retrying -/

/-- `WriteStream` -/
def writeStream (stream : OutBlockStream) (data : Bytes) :
    OutBlockStream × UInt32 :=
  if data = [] then
    (stream, sOk)
  else
    let written := stream.write (data.take (2 ^ 31))
    if written.2.2 ≠ sOk then (written.1, written.2.2)
    else if written.2.1 = 0 then (written.1, eFail)
    else writeStream written.1 (data.drop written.2.1.toNat)
termination_by data.length
decreasing_by
  rename_i some _ more
  have positive : (stream.write (data.take (2 ^ 31))).2.1.toNat ≠ 0 :=
    fun zero => more (UInt32.toNat_inj.mp zero)
  have := List.length_pos_iff.mpr some
  rw [List.length_drop]
  omega

/-- `WriteStream` is such a caller, and ends. -/
theorem writeStream_runs
    {memory : Nat → UInt8} {size : UInt32} {front data : Bytes}
    {stream : OutBlockStream} (small : size.toNat < 2 ^ 31)
    (small' : data.length < 2 ^ 31)
    (accepted : Accepted memory size front stream) :
    ∃ sizes after,
      Execution Writing.step Always ⟨stream, data, sOk⟩ sizes after ∧
        after.Ended ∧ writeStream stream data = (after.stream, after.result)
        := by
  induction left : data.length using Nat.strongRecOn
    generalizing front data stream with
  | ind left inductionHypothesis =>
      by_cases none : data = []
      · rw [writeStream, if_pos none, none]
        exact ⟨[], _, .nil _, .inl rfl, rfl⟩
      · have positive := List.length_pos_iff.mpr none
        have all : data.take (2 ^ 31) = data :=
          List.take_of_length_le (Nat.le_of_lt small')
        obtain ⟨count, same, processed, accepted', result⟩ :=
          OutBlockStream.write_spec accepted small small'
        rw [writeStream, if_neg none, all]
        have taken : Writing.step ⟨stream, data, sOk⟩ data.length =
            some ⟨(stream.write data).1,
              data.drop (stream.write data).2.1.toNat,
              (stream.write data).2.2⟩ := by
          rw [Writing.step, if_pos ⟨rfl, positive, small', Nat.le_refl _⟩,
            List.take_length]
        dsimp only
        by_cases full : count = 0
        · have failed : (stream.write data).2.2 ≠ sOk := by
            rw [result, if_pos full]
            decide
          rw [if_pos failed]
          exact ⟨[data.length], _, .single trivial taken, .inr failed, rfl⟩
        · have passed : (stream.write data).2.2 = sOk := by
            rw [result, if_neg full]
          have more : (stream.write data).2.1 ≠ 0 := by
            intro zero
            rw [zero, UInt32.toNat_zero] at processed
            exact full processed.symm
          rw [if_neg (not_not.mpr passed), if_neg more]
          rw [passed] at taken
          obtain ⟨sizes, after, run, ended, same'⟩ :=
            inductionHypothesis
              (data.drop (stream.write data).2.1.toNat).length
              (by rw [List.length_drop]; omega)
              (by rw [List.length_drop]; omega) accepted' rfl
          exact ⟨[data.length] ++ sizes, after,
            (Execution.single trivial taken).append run, ended, same'⟩

end Deflate7z

end Maxcso
