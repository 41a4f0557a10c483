import Maxcso.Library.ShiftMask
import Maxcso.Reader.Indexed

/-!
# Addressing blocks

For a CSO or ZSO file the block and the offset of a sector are found by shift
and mask, which is what the format asks for when the block size is a power of
two and the table is short enough.
-/

namespace Maxcso

open ShiftMask RoundUp

namespace Input

/-! ## Accepted headers -/

/-- `DetectFormat` accepts a header when it goes on to read the index. -/
theorem accepted_of_asked
    {env : Environment} {pool : BufferPool} {headerBuf : Buffer}
    {header : CsoHeader} {bytes : Nat}
    (asked : ((create env).detectCso pool headerBuf header).input.inFlight =
      [.readIndex bytes]) :
    csoRejection header = none ∧
      ((create env).detectCso pool headerBuf header).input =
        ((({ create env with
          fileType := csoFileType header }).withCsoHeader header).setupCache
            header.sectorSize).ask (.readIndex bytes) ∧
      bytes = ((create env).withCsoHeader header).indexBytes := by
  unfold detectCso at asked ⊢
  dsimp only at asked ⊢
  cases rejected : csoRejection header with
  | some reason =>
      rw [rejected] at asked
      cases asked
  | none =>
      rw [rejected] at asked
      dsimp only at asked
      split at asked
      · rename_i grown
        have bytesEq : ((create env).withCsoHeader header).indexBytes =
            bytes := by
          simpa [ask, setupCache, withCsoHeader, create, indexBytes,
            sizeAligned] using asked
        rw [if_pos grown]
        refine ⟨rfl, ?_, bytesEq.symm⟩
        rw [← bytesEq]
        rfl
      · cases asked

end Input

/-! ## Blocks by division -/

namespace CsoHeader

/-- The number of blocks, `ceil(uncompressed_size / block_size)`. -/
def blockCount (header : CsoHeader) : Nat :=
  (header.uncompressedSize + header.sectorSize - 1) / header.sectorSize

/-- The block size is a power of two and the index is shorter than 4 GiB; or
there is one block, which ends within a power of two that divides the block
size rounded up to sectors. -/
def Addressable (header : CsoHeader) : Prop :=
  (header.sectorSize.isPowerOfTwo ∧
      (header.blockCount + 1) * 4 < 2 ^ 32) ∨
    (0 < header.uncompressedSize ∧
      ¬ (roundUp Maxcso.sectorSize header.sectorSize).isPowerOfTwo ∧
        ∃ power,
          2 ^ power ∣ roundUp Maxcso.sectorSize header.sectorSize ∧
            header.uncompressedSize ≤ 2 ^ power)

end CsoHeader

namespace Input

/-- The index is read and its blocks are addressed as the format has it; what
is requested for a sector is its block at its offset. -/
structure AddressesByDivision (input : Input) (header : CsoHeader)
    (bytes : Nat) : Prop where
  entries : bytes = (header.blockCount + 1) * 4
  addressed : ∀ pos : Nat, pos < header.uncompressedSize →
    sectorSize ∣ pos →
      (input.seek pos).entriesUsed =
          [pos / header.sectorSize, pos / header.sectorSize + 1] ∧
        (input.seek pos).csoOffset = pos % header.sectorSize
  requested : ∀ pos : Nat, pos < header.uncompressedSize →
    sectorSize ∣ pos →
      (input.seek pos).request =
        input.csoRequestAt (pos / header.sectorSize)
          (pos / header.sectorSize + 1) (pos % header.sectorSize)

section

variable {header : CsoHeader}

theorem addressed_iff
    {input : Input} (shift : input.csoBlockShift = Nat.log2 header.sectorSize)
    (size : input.csoBlockSize = header.sectorSize)
    (type : input.fileType = csoFileType header)
    (large : sectorSize ≤ header.sectorSize)
    {pos : Nat} (small : pos < 2 ^ 42) :
    ((input.seek pos).entriesUsed =
          [pos / header.sectorSize, pos / header.sectorSize + 1] ∧
        (input.seek pos).csoOffset = pos % header.sectorSize) ↔
      Agrees header.sectorSize pos := by
  have wide : 2 ^ 11 ≤ 2 ^ Nat.log2 header.sectorSize := by
    apply Nat.pow_le_pow_right (by decide)
    exact (Nat.le_log2 (by simp only [sectorSize] at large; omega)).mpr large
  have quotient : pos / 2 ^ Nat.log2 header.sectorSize < 2 ^ 31 := by
    apply Nat.div_lt_of_lt_mul
    calc
      pos < 2 ^ 11 * 2 ^ 31 := by omega
      _ ≤ 2 ^ Nat.log2 header.sectorSize * 2 ^ 31 :=
        Nat.mul_le_mul_right _ wide
  have block : (input.seek pos).csoBlock =
      pos / 2 ^ Nat.log2 header.sectorSize := by
    have cast : ((pos : Int) / 2 ^ Nat.log2 header.sectorSize) =
        ((pos / 2 ^ Nat.log2 header.sectorSize : Nat) : Int) := by
      push_cast
      rfl
    rw [csoBlock, seek]
    dsimp only
    rw [shift, cast, toUint32_of_lt (by omega)]
  have offset : (input.seek pos).csoOffset =
      pos &&& (header.sectorSize - 1) := by
    have word : ((pos : Int) % 2 ^ 64).toNat = pos := by omega
    rw [csoOffset, seek]
    dsimp only
    rw [size, word]
  have used : (input.seek pos).entriesUsed =
      [pos / 2 ^ Nat.log2 header.sectorSize,
        pos / 2 ^ Nat.log2 header.sectorSize + 1] := by
    have next : (pos / 2 ^ Nat.log2 header.sectorSize + 1) % 2 ^ 32 =
        pos / 2 ^ Nat.log2 header.sectorSize + 1 :=
      Nat.mod_eq_of_lt (by omega)
    have type' : (input.seek pos).fileType = csoFileType header := type
    rw [entriesUsed_of_cso (by rw [type']; exact csoFileType_cases header),
      block, next]
  rw [used, offset, Agrees]
  simp

/-- The request of a sector that is addressed by division. -/
theorem requested_of_addressed
    {input : Input} {pos : Nat}
    (type : input.fileType = csoFileType header)
    (addressed : (input.seek pos).entriesUsed =
        [pos / header.sectorSize, pos / header.sectorSize + 1] ∧
      (input.seek pos).csoOffset = pos % header.sectorSize) :
    (input.seek pos).request =
      input.csoRequestAt (pos / header.sectorSize)
        (pos / header.sectorSize + 1) (pos % header.sectorSize) := by
  have cso : (input.seek pos).fileType = .cso1 ∨
      (input.seek pos).fileType = .cso2 ∨
        (input.seek pos).fileType = .zso := by
    have same : (input.seek pos).fileType = csoFileType header := type
    rw [same]
    exact csoFileType_cases header
  obtain ⟨used, offset⟩ := addressed
  rw [entriesUsed_of_cso cso] at used
  obtain ⟨block, next⟩ := List.cons.inj used
  rw [request_of_cso cso, offset, (List.cons.inj next).1, block]
  rfl

/-- The number of bytes that are read of the index. -/
theorem indexBytes_withCsoHeader
    (input : Input) (large : sectorSize ≤ header.sectorSize)
    (limited : header.sectorSize ≤ maxBlockSize)
    (small : header.uncompressedSize < 2 ^ 42) :
    (input.withCsoHeader header).indexBytes =
      ((header.uncompressedSize + header.sectorSize - 1) /
        2 ^ Nat.log2 header.sectorSize + 1) * 4 % 2 ^ 32 := by
  have wide : 2 ^ 11 ≤ 2 ^ Nat.log2 header.sectorSize := by
    apply Nat.pow_le_pow_right (by decide)
    exact (Nat.le_log2 (by simp only [sectorSize] at large; omega)).mpr large
  have quotient : (header.uncompressedSize + header.sectorSize - 1) /
      2 ^ Nat.log2 header.sectorSize < 2 ^ 32 - 1 := by
    apply Nat.div_lt_of_lt_mul
    simp only [maxBlockSize] at limited
    calc
      header.uncompressedSize + header.sectorSize - 1 <
          2 ^ 11 * (2 ^ 32 - 1) := by omega
      _ ≤ 2 ^ Nat.log2 header.sectorSize * (2 ^ 32 - 1) :=
        Nat.mul_le_mul_right _ wide
  have size : toInt64 header.uncompressedSize =
      header.uncompressedSize := toInt64_of_lt (by omega)
  have cast :
      ((header.uncompressedSize : Int) + header.sectorSize - 1) /
          2 ^ Nat.log2 header.sectorSize =
        (((header.uncompressedSize + header.sectorSize - 1) /
          2 ^ Nat.log2 header.sectorSize : Nat) : Int) := by
    have numerator :
        (header.uncompressedSize : Int) + header.sectorSize - 1 =
          ((header.uncompressedSize + header.sectorSize - 1 : Nat) :
            Int) := by
      simp only [sectorSize] at large
      omega
    rw [numerator]
    push_cast
    rfl
  simp only [indexBytes, sizeAligned, withCsoHeader, size]
  rw [cast, toUint32_of_lt (by omega),
    @Nat.mod_eq_of_lt
      ((header.uncompressedSize + header.sectorSize - 1) /
        2 ^ Nat.log2 header.sectorSize + 1) (2 ^ 32) (by omega)]

/-- The blocks of an accepted CSO or ZSO file are counted and addressed as
the format has it exactly for the block sizes and lengths of `Addressable`. -/
theorem addresses_by_division
    (env : Environment) (pool : BufferPool) (headerBuf : Buffer)
    {bytes : Nat}
    (accepted :
      ((create env).detectCso pool headerBuf header).input.inFlight =
        [.readIndex bytes])
    (small : header.uncompressedSize < 2 ^ 42) :
    ((create env).detectCso pool headerBuf header).input.AddressesByDivision
        header bytes ↔
      header.Addressable := by
  obtain ⟨unrejected, inputEq, bytesEq⟩ := accepted_of_asked accepted
  obtain ⟨_, large, limited, aligned⟩ := csoRejection_none unrejected
  rw [indexBytes_withCsoHeader _ large limited small] at bytesEq
  have large' : 2 ^ 11 ≤ header.sectorSize := large
  have divides : 2 ^ 11 ∣ header.uncompressedSize :=
    Nat.dvd_of_mod_eq_zero aligned
  have addresses :
      (∀ pos : Nat, pos < header.uncompressedSize → sectorSize ∣ pos →
        (((create env).detectCso pool headerBuf header).input.seek
              pos).entriesUsed =
            [pos / header.sectorSize, pos / header.sectorSize + 1] ∧
          (((create env).detectCso pool headerBuf header).input.seek
              pos).csoOffset = pos % header.sectorSize) ↔
        ∀ pos, pos < header.uncompressedSize → 2 ^ 11 ∣ pos →
          Agrees header.sectorSize pos := by
    rw [inputEq]
    apply forall_congr'
    intro pos
    apply forall_congr'
    intro below
    apply forall_congr'
    intro _
    exact addressed_iff rfl rfl rfl large (by omega)
  have property_iff :
      ((create env).detectCso pool headerBuf
          header).input.AddressesByDivision header bytes ↔
        bytes = (header.blockCount + 1) * 4 ∧
          ∀ pos, pos < header.uncompressedSize → 2 ^ 11 ∣ pos →
            Agrees header.sectorSize pos := by
    rw [← addresses]
    constructor
    · intro division
      exact ⟨division.entries, division.addressed⟩
    · intro both
      refine ⟨both.1, both.2, ?_⟩
      intro pos below aligned'
      apply requested_of_addressed _ (both.2 pos below aligned')
      rw [inputEq]
      rfl
  rw [property_iff]
  by_cases power : header.sectorSize.isPowerOfTwo
  · have powerEq : 2 ^ Nat.log2 header.sectorSize = header.sectorSize := by
      obtain ⟨shift, same⟩ := power
      rw [same, Nat.log2_two_pow]
    have rounded : roundUp Maxcso.sectorSize header.sectorSize =
        header.sectorSize := by
      apply roundUp_eq_self
      obtain ⟨shift, same⟩ := power
      rw [same] at large' ⊢
      exact Nat.pow_dvd_pow 2
        ((Nat.pow_le_pow_iff_right Nat.one_lt_two).mp large')
    rw [powerEq] at bytesEq
    rw [CsoHeader.Addressable, rounded, bytesEq, CsoHeader.blockCount]
    constructor
    · rintro ⟨same, _⟩
      refine Or.inl ⟨power, ?_⟩
      rw [← same]
      exact Nat.mod_lt _ (by decide)
    · rintro (⟨_, short⟩ | ⟨_, noPower, _⟩)
      · exact ⟨Nat.mod_eq_of_lt short,
          fun pos _ _ => agrees_of_isPowerOfTwo power pos⟩
      · exact absurd power noPower
  · have addresses := @addresses_iff header.sectorSize
      header.uncompressedSize 11 large' power divides
    have noFirst : header.Addressable ↔
        0 < header.uncompressedSize ∧
          ¬ (roundUp (2 ^ 11) header.sectorSize).isPowerOfTwo ∧
            ∃ exponent, 2 ^ exponent ∣ roundUp (2 ^ 11) header.sectorSize ∧
              header.uncompressedSize ≤ 2 ^ exponent :=
      or_iff_right fun first => power first.1
    rw [noFirst, ← addresses]
    apply and_congr_left
    intro agrees
    -- The sequence is one short block, so nothing wraps.
    obtain ⟨short, _⟩ := short_of_agrees large' power agrees
    have few : (header.uncompressedSize + header.sectorSize - 1) /
        2 ^ Nat.log2 header.sectorSize < 3 := by
      have high := @Nat.lt_log2_self header.sectorSize
      apply Nat.div_lt_of_lt_mul
      rw [Nat.pow_succ] at high
      omega
    rw [bytesEq, CsoHeader.blockCount]
    generalize (header.uncompressedSize + header.sectorSize - 1) /
      2 ^ Nat.log2 header.sectorSize = count at *
    generalize (header.uncompressedSize + header.sectorSize - 1) /
      header.sectorSize = blocks at *
    omega

end

/-- A header of two blocks of 4096 bytes. -/
def twoBlockHeader : CsoHeader :=
  ⟨csoMagic, 24, 8192, 4096, 1, 0, [0, 0]⟩

theorem addresses_by_division_twoBlockHeader :
    ((create (.ofFile [])).detectCso .initial ⟨0, 16384, fun _ => 0⟩
        twoBlockHeader).input.AddressesByDivision twoBlockHeader 12 :=
  (@addresses_by_division twoBlockHeader (.ofFile []) .initial
    ⟨0, 16384, fun _ => 0⟩ 12 rfl (by decide)).mpr
    (Or.inl ⟨⟨12, rfl⟩, by decide⟩)

/-- A header whose block size is no power of two. -/
def unevenHeader : CsoHeader :=
  ⟨csoMagic, 24, 6144, 3072, 1, 0, [0, 0]⟩

/-- `DetectFormat` accepts the header, reads five index entries where the
format has three, and finds the sector at 4096 in block 2 of two. -/
theorem unevenHeader_misaddressed :
    ∃ bytes,
      ((create (.ofFile [])).detectCso .initial ⟨0, 16384, fun _ => 0⟩
          unevenHeader).input.inFlight = [.readIndex bytes] ∧
        ¬ ((create (.ofFile [])).detectCso .initial ⟨0, 16384, fun _ => 0⟩
            unevenHeader).input.AddressesByDivision unevenHeader bytes := by
  refine ⟨20, rfl, ?_⟩
  intro division
  obtain ⟨entries, _⟩ :=
    division.addressed 4096 (by decide) (by decide)
  exact absurd entries (by decide)

end Input

end Maxcso
