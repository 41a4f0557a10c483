import Maxcso.Input
import Maxcso.Output.Positions

/-!
# Index entries and the flag bit

When every position that can be recorded fits in 31 bits after the shift.
-/

namespace Maxcso

open RoundUp

namespace WriterConfig

/-- The alignment for the size that `SetFile` takes for the worst case. -/
def span (config : WriterConfig) : Nat :=
  2 ^ (Nat.log2 (config.tableEnd + config.srcSize) - 30)

/-- Where the data end when no block can be compressed; the last block is
written in full. -/
def rawEnd (config : WriterConfig) : Nat :=
  roundUp config.span config.tableEnd + config.blocks * config.blockSize

/-- Whatever is left behind for the blocks, the recorded positions fit in 31
bits and are recovered. -/
def EntriesFit (config : WriterConfig) (env : Environment) : Prop :=
  ∀ (formats : Nat → SectorFormat) (sizes : Nat → Nat),
    (∀ block < config.blocks,
      config.LeftBehind (formats block) (sizes block)) →
      ∀ block ≤ config.blocks,
        let pos := (config.base env).positions sizes block
        pos / 2 ^ config.indexShift < 2 ^ 31 ∧
          Input.indexPos config.indexShift
              (config.recorded env formats sizes block) =
            pos

section

variable {config : WriterConfig} {env : Environment} {sizes : Nat → Nat}

theorem ForCso.indexAlign (forCso : config.ForCso) :
    config.indexAlign = config.span := by
  rw [WriterConfig.indexAlign, forCso.indexShift, span]

theorem ForCso.shift_quotient (forCso : config.ForCso) (pos : Nat) :
    (pos : Int) / 2 ^ config.indexShift = (pos / config.span : Nat) := by
  rw [← forCso.indexAlign, WriterConfig.indexAlign, Int.natCast_div]
  push_cast
  rfl

/-- A position that fits is recovered from its entry. -/
theorem indexPos_of_lt
    {shift word pos : Nat} (shallow : shift ≤ 11) (aligned : 2 ^ shift ∣ pos)
    (fits : pos / 2 ^ shift < 2 ^ 31)
    (recorded : word % 2 ^ 31 =
      toUint32 ((pos : Int) / 2 ^ shift) % 2 ^ 31) :
    Input.indexPos shift word = pos := by
  have power : 2 ^ shift ≤ 2 ^ 11 :=
    Nat.pow_le_pow_right (by decide) shallow
  have quotient : (pos : Int) / 2 ^ shift = (pos / 2 ^ shift : Nat) := by
    rw [Int.natCast_div]
    push_cast
    rfl
  have exact_ : pos / 2 ^ shift * 2 ^ shift = pos :=
    Nat.div_mul_cancel aligned
  have small : pos < 2 ^ 42 := by
    calc pos = pos / 2 ^ shift * 2 ^ shift := exact_.symm
      _ ≤ pos / 2 ^ shift * 2 ^ 11 := Nat.mul_le_mul_left _ power
      _ < 2 ^ 42 := by omega
  have wordEq : word % 2 ^ 31 = pos / 2 ^ shift := by
    rw [recorded, quotient, toUint32_of_lt (by omega),
      Nat.mod_eq_of_lt fits]
  have shiftEq : shift % 64 = shift := Nat.mod_eq_of_lt (by omega)
  rw [Input.indexPos, wordEq, shiftEq, exact_, toInt64]
  rw [if_pos (by omega), Nat.mod_eq_of_lt (by omega)]

/-- The entry of a block is its shifted position, apart from the flag. -/
theorem ForCso.recorded_position
    (forCso : config.ForCso) (formats : Nat → SectorFormat)
    {block : Nat} (inside : block ≤ config.blocks) :
    config.recorded env formats sizes block % 2 ^ 31 =
      toUint32 ((config.place sizes block : Int) /
        2 ^ config.indexShift) % 2 ^ 31 := by
  have few := forCso.blocks_lt
  have accepted : config.Accepted env := accepted_of_not_dax forCso.notDax
  have place := @place_natCast config env sizes accepted
    forCso.compresses block
  have entry : toUint32 (((block * config.blockSize : Nat) : Int) /
      2 ^ config.shift) = block := by
    have whole : ((block * config.blockSize : Nat) : Int) / 2 ^ config.shift =
        (block * config.blockSize / 2 ^ config.shift : Nat) := by
      rw [Int.natCast_div]
      push_cast
      rfl
    rw [whole, blockSize, Nat.mul_div_cancel _ (Nat.two_pow_pos _),
      toUint32_of_lt (by omega)]
  have shiftEq : (config.base env).indexShift = config.indexShift := by
    rw [base_eq accepted]
  have blockShift : (config.base env).blockShift = config.shift := by
    rw [base_eq accepted]
  unfold recorded
  dsimp only
  rw [place]
  split
  · rw [updateIndex_position _ _ _ _ (by rw [blockShift]; exact entry),
      shiftEq]
  · rw [shiftEq]

/-- When no block can be compressed the end of the data is the bound. -/
theorem ForCso.rawEnd_lt_of_fit
    (forCso : config.ForCso) (fits : config.EntriesFit env) :
    config.rawEnd < 2 ^ 31 * config.span := by
  have accepted : config.Accepted env := accepted_of_not_dax forCso.notDax
  have last := (fits (fun _ => .orig) (fun _ => config.blockSize)
    (fun _ _ => Or.inl ⟨rfl, rfl⟩) config.blocks (Nat.le_refl _)).1
  rw [place_natCast accepted forCso.compresses, forCso.place_raw,
    forCso.indexAlign, forCso.shift_quotient] at last
  exact (Nat.div_lt_iff_lt_mul (Nat.two_pow_pos _)).mp
    (by exact_mod_cast last)

/-- The recorded positions fit beside the flag exactly when the end of the
data does with no block compressed. -/
theorem entries_fit (forCso : config.ForCso) (env : Environment) :
    config.EntriesFit env ↔ config.rawEnd < 2 ^ 31 * config.span := by
  have accepted : config.Accepted env := accepted_of_not_dax forCso.notDax
  have align := forCso.indexAlign
  have positive : 0 < config.span := Nat.two_pow_pos _
  refine ⟨forCso.rawEnd_lt_of_fit, ?_⟩
  intro small formats sizes left block inside
  have le := forCso.place_le left inside
  have below : block * config.blockSize ≤
      config.blocks * config.blockSize :=
    Nat.mul_le_mul_right _ inside
  have fits : config.place sizes block / config.span < 2 ^ 31 := by
    rw [Nat.div_lt_iff_lt_mul positive]
    rw [align] at le
    unfold rawEnd at small
    omega
  dsimp only
  rw [place_natCast accepted forCso.compresses, forCso.shift_quotient]
  refine ⟨by exact_mod_cast fits, ?_⟩
  have aligned := @dvd_place config sizes block
  rw [← align, WriterConfig.indexAlign] at fits
  exact indexPos_of_lt forCso.indexShift_le aligned fits
    (forCso.recorded_position formats inside)

end

/-! ## Two images -/

/-- An image of 4096 bytes in blocks of 2048. -/
def twoSectors : WriterConfig where
  flags := 0
  noFile := false
  fmt := .cso1
  srcSize := 4096
  shift := 11
  origMaxCost := 0
  lz4MaxCost := 0
  shiftBounds := minimal_shiftBounds
  nonempty := by decide
  aligned := by decide

theorem entries_fit_twoSectors :
    twoSectors.EntriesFit (Environment.ofFile []) :=
  (@entries_fit twoSectors ⟨by decide, by decide, by decide, by decide⟩
    (Environment.ofFile [])).mpr (by decide)

/-- An image of 2 GiB less 254 KiB in blocks of 256 KiB. -/
def nearBoundary : WriterConfig where
  flags := 0
  noFile := false
  fmt := .cso1
  srcSize := 2 ^ 31 - 2 ^ 18 + 2048
  shift := 18
  origMaxCost := 0
  lz4MaxCost := 0
  shiftBounds := by decide
  nonempty := by decide
  aligned := by decide

/-- Its last block, when it is stored raw, ends above 2^31. -/
theorem entries_do_not_fit :
    ¬ ∀ config : WriterConfig, config.ForCso →
      config.EntriesFit (Environment.ofFile []) := by
  intro fit
  have forCso : nearBoundary.ForCso :=
    ⟨by decide, by decide, by decide, by decide⟩
  have small := forCso.rawEnd_lt_of_fit (fit nearBoundary forCso)
  exact absurd small (by decide)

end WriterConfig

end Maxcso
