import Maxcso.Library.RoundUp
import Maxcso.Output
import Maxcso.Sector.Result

/-!
# Positions in the compressed file

Where `SetFile` lets the data start, and where the blocks end up when their
stored sizes are known.
-/

namespace Maxcso

open RoundUp

/-- The arguments of `SetFile` with those of the constructor. -/
structure WriterConfig where
  flags : Nat
  noFile : Bool
  fmt : CsoFormat
  srcSize : Nat
  shift : Nat
  origMaxCost : Nat
  lz4MaxCost : Nat
  /-- Block sizes are powers of two from 2048 to 0x40000. -/
  shiftBounds : 11 ≤ shift ∧ shift ≤ 18
  nonempty : 0 < srcSize
  /-- The last sector may be a part of one only when it is its own block. -/
  aligned : sectorSize ∣ srcSize ∨ shift = 11

namespace WriterConfig

theorem minimal_shiftBounds : 11 ≤ 11 ∧ 11 ≤ 18 := by decide

theorem middling_shiftBounds : 11 ≤ 12 ∧ 12 ≤ 18 := by decide

def blockSize (config : WriterConfig) : Nat := 2 ^ config.shift

/-- The number of blocks, the last of which may be padded. -/
def blocks (config : WriterConfig) : Nat :=
  (config.srcSize + config.blockSize - 1) / config.blockSize

/-- The length of the sectors that the source passes on. -/
def sourceSize (config : WriterConfig) : Nat :=
  roundUp sectorSize config.srcSize

/-- The result of `SetFile`. -/
def opened (config : WriterConfig) (env : Environment) :
    Output × List OutputCall :=
  (Output.create env config.flags).setFile config.noFile config.srcSize
    config.blockSize config.fmt config.origMaxCost config.lz4MaxCost

/-- The writer after `SetFile`. -/
def base (config : WriterConfig) (env : Environment) : Output :=
  (config.opened env).1

/-- `SetFile` does not refuse. -/
def Accepted (config : WriterConfig) (env : Environment) : Prop :=
  (config.opened env).2 = []

def decompressing (config : WriterConfig) : Bool :=
  hasFlag config.flags taskflagDecompress

/-- `DstFirstSectorPos` for the number of blocks. -/
def first (config : WriterConfig) : Nat :=
  Output.dstFirstSectorPos config.flags
    (toUint32 (((config.srcSize : Int) + config.blockSize - 1) /
      2 ^ Nat.log2 config.blockSize))

def indexShift (config : WriterConfig) : Nat :=
  if config.decompressing then
    0
  else
    Output.shiftForSize (config.first + config.srcSize)

def indexAlign (config : WriterConfig) : Nat := 2 ^ config.indexShift

/-- A sector after `Setup`. -/
def template (config : WriterConfig) : Sector :=
  (Sector.create config.flags).setup config.blockSize config.indexAlign
    config.origMaxCost config.lz4MaxCost

end WriterConfig

namespace Output

/-! ## The shift -/

theorem shiftForSize_eq {worst : Nat} (small : worst < 2 ^ 63) :
    shiftForSize worst = Nat.log2 worst - 30 := by
  unfold shiftForSize
  rw [List.find?_map]
  cases found : (List.range 32).find? ((fun i => decide
      ((2 : Int) ^ i ≤ (worst : Int))) ∘ (62 - ·)) with
  | none =>
      have below := List.find?_eq_none.mp found 31 (by decide)
      have less : worst < 2 ^ 31 := by
        have cast : ¬ ((2 : Int) ^ 31 ≤ (worst : Int)) := by
          simpa using below
        omega
      have log : Nat.log2 worst < 31 := by
        by_cases zero : worst = 0
        · subst zero
          decide
        · exact (Nat.log2_lt zero).mpr less
      simp only [Option.map_none]
      omega
  | some index =>
      obtain ⟨fits, inside, earlier⟩ := List.find?_range_eq_some.mp found
      have bound : index < 32 := List.mem_range.mp inside
      have low : 2 ^ (62 - index) ≤ worst := by
        have cast : (2 : Int) ^ (62 - index) ≤ (worst : Int) := by
          simpa using fits
        exact_mod_cast cast
      have high : worst < 2 ^ (62 - index + 1) := by
        rcases Nat.eq_zero_or_pos index with rfl | positive
        · exact small
        · have before := earlier (index - 1) (by omega)
          have cast : ¬ ((2 : Int) ^ (62 - (index - 1)) ≤ (worst : Int)) := by
            simpa using before
          have exponent : 62 - (index - 1) = 62 - index + 1 := by omega
          rw [exponent] at cast
          exact_mod_cast Int.not_le.mp cast
      have positive : 0 < worst :=
        Nat.lt_of_lt_of_le (Nat.two_pow_pos _) low
      have log : Nat.log2 worst = 62 - index :=
        (Nat.log2_eq_iff (Nat.ne_of_gt positive)).mpr ⟨low, high⟩
      simp only [Option.map_some]
      omega

theorem shiftForSize_le (worst : Int) : shiftForSize worst ≤ 32 := by
  unfold shiftForSize
  rw [List.find?_map]
  cases (List.range 32).find? ((fun i => decide
      ((2 : Int) ^ i ≤ worst)) ∘ (62 - ·)) with
  | none => exact Nat.zero_le _
  | some index =>
      simp only [Option.map_some]
      omega

/-! ## Alignment -/

theorem align_natCast
    {output : Output} (positive : 0 < output.indexAlign)
    (small : output.indexAlign ≤ 2 ^ 32) (pos : Nat) :
    output.align pos = (roundUp output.indexAlign pos : Nat) := by
  have below := Nat.mod_lt pos positive
  have off : toUint32 ((pos : Int) % output.indexAlign) =
      pos % output.indexAlign := by
    unfold toUint32
    omega
  unfold align roundUp
  dsimp only
  rw [off]
  by_cases whole : pos % output.indexAlign = 0
  · rw [if_neg (not_not.mpr whole), if_pos whole]
  · rw [if_pos whole, if_neg whole]
    omega

/-- Where the blocks of the given stored sizes start. -/
def positions (output : Output) (sizes : Nat → Nat) : Nat → Int
  | 0 => output.dstPos
  | block + 1 =>
      let pos := positions output sizes block
      output.align (pos + output.storedSize pos (sizes block))

end Output

namespace WriterConfig

section

variable (config : WriterConfig) (env : Environment)

theorem blockSize_bounds :
    2048 ≤ config.blockSize ∧ config.blockSize ≤ 2 ^ 18 := by
  have low : 2 ^ 11 ≤ 2 ^ config.shift :=
    Nat.pow_le_pow_right (by decide) config.shiftBounds.1
  have high : 2 ^ config.shift ≤ 2 ^ 18 :=
    Nat.pow_le_pow_right (by decide) config.shiftBounds.2
  exact ⟨low, high⟩

theorem sectorSize_dvd_blockSize : sectorSize ∣ config.blockSize :=
  Nat.pow_dvd_pow 2 config.shiftBounds.1

theorem blockShift : Nat.log2 config.blockSize = config.shift :=
  Nat.log2_two_pow

theorem blocks_pos : 0 < config.blocks := by
  have bounds := config.blockSize_bounds
  have nonempty := config.nonempty
  exact Nat.div_pos (by omega) (by omega)

/-- The last block is the only one that is not full. -/
theorem srcSize_bounds :
    config.srcSize ≤ config.blocks * config.blockSize ∧
      config.blocks * config.blockSize < config.srcSize + config.blockSize := by
  have bounds := config.blockSize_bounds
  have split :=
    Nat.div_add_mod (config.srcSize + config.blockSize - 1) config.blockSize
  have rest := Nat.mod_lt (config.srcSize + config.blockSize - 1)
    (show 0 < config.blockSize by omega)
  rw [Nat.mul_comm] at split
  unfold blocks
  omega

theorem srcSize_le_sourceSize : config.srcSize ≤ config.sourceSize :=
  le_roundUp _ _

theorem sectorSize_dvd_sourceSize : sectorSize ∣ config.sourceSize :=
  dvd_roundUp (by decide) _

/-- The image is made of whole sectors. -/
theorem sourceSize_eq (whole : sectorSize ∣ config.srcSize) :
    config.sourceSize = config.srcSize :=
  roundUp_eq_self whole

theorem sourceSize_of_multiple (multiple : config.blockSize ≠ sectorSize) :
    config.sourceSize = config.srcSize := by
  rcases config.aligned with whole | single
  · exact config.sourceSize_eq whole
  · rw [blockSize, single] at multiple
    exact absurd rfl multiple

theorem sourceSize_le_blocks :
    config.sourceSize ≤ config.blocks * config.blockSize :=
  roundUp_le_of_dvd
    (config.sectorSize_dvd_blockSize.trans (Nat.dvd_mul_left _ _))
    config.srcSize_bounds.1

/-- The source has a sector for every position before the end. -/
theorem lt_sourceSize_iff {pos : Nat} (whole : sectorSize ∣ pos) :
    pos < config.sourceSize ↔ pos < config.srcSize := by
  constructor
  · intro before
    by_contra beyond
    have least : config.sourceSize ≤ pos :=
      roundUp_le_of_dvd whole (Nat.not_lt.mp beyond)
    omega
  · exact fun before => before.trans_le config.srcSize_le_sourceSize

/-- The number of blocks as `SetFile` and `Flush` compute it. -/
theorem blocks_eq (shift : Nat) (same : shift = config.shift) :
    ((config.srcSize : Int) + config.blockSize - 1) / 2 ^ shift =
      config.blocks := by
  have bounds := config.blockSize_bounds
  subst same
  have size : (config.srcSize : Int) + config.blockSize - 1 =
      ((config.srcSize + config.blockSize - 1 : Nat) : Int) := by
    omega
  rw [size, blocks, Int.natCast_div]
  rfl

theorem indexShift_le : config.indexShift ≤ 32 := by
  unfold indexShift
  split
  · exact Nat.zero_le _
  · exact Output.shiftForSize_le _

theorem indexAlign_bounds :
    0 < config.indexAlign ∧ config.indexAlign ≤ 2 ^ 32 :=
  ⟨Nat.two_pow_pos _,
    Nat.pow_le_pow_right (by decide) config.indexShift_le⟩

variable {config env}

/-- The writer after an accepted `SetFile`. -/
theorem base_eq (accepted : config.Accepted env) :
    config.base env =
      { Output.create env config.flags with
        noFile := config.noFile
        srcSize := config.srcSize
        fmt := config.fmt
        blockSize := config.blockSize
        blockShift := config.shift
        indexShift := config.indexShift
        indexAlign := config.indexAlign
        dstPos := (roundUp config.indexAlign config.first : Nat)
        stateHasFile := true
        sectors := fun id =>
          if id ∈ List.range queueSize then config.template
          else Sector.create config.flags } := by
  have bounds := config.indexAlign_bounds
  obtain ⟨large, other, shape⟩ : ∃ large other, config.opened env =
      if config.fmt = .dax ∧ (config.indexShift ≠ 0 ∨
          (toUint32 config.srcSize : Int) < config.srcSize) then
        (large, [.finish false "File too large to compress as DAX"])
      else if config.fmt = .dax ∧ config.blockSize ≠ daxFrameSize then
        (other, [.finish false "DAX requires a block size of 8192"])
      else
        ({ Output.create env config.flags with
            noFile := config.noFile
            srcSize := config.srcSize
            fmt := config.fmt
            blockSize := config.blockSize
            blockShift := Nat.log2 config.blockSize
            indexShift := config.indexShift
            indexAlign := config.indexAlign
            dstPos := Output.align
              { Output.create env config.flags with
                indexAlign := config.indexAlign } config.first
            stateHasFile := true
            sectors := fun id =>
              if id ∈ List.range queueSize then config.template
              else Sector.create config.flags },
          []) :=
    ⟨_, _, rfl⟩
  rw [Accepted, shape] at accepted
  rw [base, shape]
  by_cases unfit : config.fmt = .dax ∧ (config.indexShift ≠ 0 ∨
      (toUint32 config.srcSize : Int) < config.srcSize)
  · rw [if_pos unfit] at accepted
    exact nomatch accepted
  · rw [if_neg unfit] at accepted ⊢
    by_cases odd : config.fmt = .dax ∧ config.blockSize ≠ daxFrameSize
    · rw [if_pos odd] at accepted
      exact nomatch accepted
    · have start := @Output.align_natCast
        { Output.create env config.flags with
          indexAlign := config.indexAlign } bounds.1 bounds.2 config.first
      rw [if_neg odd, config.blockShift, start]

variable (config env) in
/-- What `SetFile` reports. -/
theorem opened_snd :
    (config.opened env).2 =
      if config.fmt = .dax ∧ (config.indexShift ≠ 0 ∨
          (toUint32 config.srcSize : Int) < config.srcSize) then
        [.finish false "File too large to compress as DAX"]
      else if config.fmt = .dax ∧ config.blockSize ≠ daxFrameSize then
        [.finish false "DAX requires a block size of 8192"]
      else
        [] := by
  unfold opened Output.setFile
  dsimp only
  rw [apply_ite Prod.snd, apply_ite Prod.snd]
  rfl

/-- Only files for DAX are refused. -/
theorem accepted_iff :
    config.Accepted env ↔
      (config.fmt = .dax → config.indexShift = 0 ∧ config.srcSize < 2 ^ 32 ∧
        config.blockSize = daxFrameSize) := by
  have fits : (toUint32 config.srcSize : Int) < config.srcSize ↔
      ¬ config.srcSize < 2 ^ 32 := by
    rw [toUint32_natCast]
    omega
  rw [Accepted, opened_snd]
  simp only [fits]
  by_cases dax : config.fmt = .dax
  · simp only [dax, true_and, forall_const]
    by_cases unfit : config.indexShift ≠ 0 ∨ ¬ config.srcSize < 2 ^ 32
    · rw [if_pos unfit]
      refine iff_of_false (List.cons_ne_nil _ _) fun fine => ?_
      exact unfit.elim (fun shifted => shifted fine.1)
        (fun large => large fine.2.1)
    · rw [if_neg unfit]
      obtain ⟨shift, small⟩ := not_or.mp unfit
      by_cases odd : config.blockSize ≠ daxFrameSize
      · rw [if_pos odd]
        exact iff_of_false (List.cons_ne_nil _ _) fun fine => odd fine.2.2
      · rw [if_neg odd]
        exact iff_of_true rfl
          ⟨not_not.mp shift, not_not.mp small, not_not.mp odd⟩
  · simp [dax]

theorem accepted_of_not_dax (notDax : config.fmt ≠ .dax) :
    config.Accepted env :=
  accepted_iff.mpr fun dax => absurd dax notDax

end

/-! ## CSO and ZSO files -/

/-- The image is to be compressed to a CSO or ZSO file that stays below
4 TiB when nothing can be compressed. -/
structure ForCso (config : WriterConfig) : Prop where
  notDax : config.fmt ≠ .dax
  notDaxFlag : hasFlag config.flags taskflagFmtDax = false
  compresses : config.decompressing = false
  small : csoHeaderSize + 4 * (config.blocks + 1) + config.srcSize < 2 ^ 42

/-- Where the index ends. -/
def tableEnd (config : WriterConfig) : Nat :=
  csoHeaderSize + 4 * (config.blocks + 1)

/-- Where a block starts, with every block padded. -/
def place (config : WriterConfig) (sizes : Nat → Nat) : Nat → Nat
  | 0 => roundUp config.indexAlign config.first
  | block + 1 => roundUp config.indexAlign (config.place sizes block + sizes block)

/-- What `FinalizeBest` leaves behind for a block. -/
def LeftBehind (config : WriterConfig) (format : SectorFormat)
    (size : Nat) : Prop :=
  (format = .orig ∧ size = config.blockSize) ∨
    (format ≠ .orig ∧ roundUp config.indexAlign size < config.blockSize)

/-- The entry that is recorded for a block, or for the end of the data. -/
def recorded (config : WriterConfig) (env : Environment)
    (formats : Nat → SectorFormat) (sizes : Nat → Nat) (block : Nat) : Nat :=
  let base := config.base env
  let pos := base.positions sizes block
  if block < config.blocks then
    (base.updateIndex (block * config.blockSize : Nat) pos
      (formats block)).1.index block
  else
    toUint32 (pos / 2 ^ base.indexShift)

section

variable {config : WriterConfig} {env : Environment} {sizes : Nat → Nat}

theorem place_natCast
    (accepted : config.Accepted env)
    (compresses : config.decompressing = false) (block : Nat) :
    (config.base env).positions sizes block =
      (config.place sizes block : Nat) := by
  have bounds := config.indexAlign_bounds
  rw [base_eq accepted]
  induction block with
  | zero => rfl
  | succ block inductionHypothesis =>
      have stored : ∀ output : Output, output.flags = config.flags →
          ∀ pos, output.storedSize pos (sizes block) = sizes block := by
        intro output same pos
        refine if_neg fun short => ?_
        have flag : hasFlag output.flags taskflagDecompress = true := short.1
        rw [same] at flag
        rw [decompressing, flag] at compresses
        exact nomatch compresses
      simp only [Output.positions, place]
      rw [inductionHypothesis, stored _ (by exact rfl)]
      exact_mod_cast Output.align_natCast bounds.1 bounds.2
        (config.place sizes block + sizes block)

theorem dvd_place (block : Nat) :
    config.indexAlign ∣ config.place sizes block := by
  have bounds := config.indexAlign_bounds
  cases block with
  | zero => exact dvd_roundUp bounds.1 _
  | succ block => exact dvd_roundUp bounds.1 _

theorem ForCso.blocks_lt (forCso : config.ForCso) :
    config.blocks < 2 ^ 31 := by
  have size := config.srcSize_bounds
  have bounds := config.blockSize_bounds
  have small := forCso.small
  by_contra many
  have wide : 2 ^ 31 * config.blockSize ≤
      config.blocks * config.blockSize :=
    Nat.mul_le_mul_right _ (by omega)
  omega

theorem ForCso.first (forCso : config.ForCso) :
    config.first = config.tableEnd := by
  have few := forCso.blocks_lt
  have compresses := forCso.compresses
  rw [decompressing] at compresses
  have total : toUint32 (((config.srcSize : Int) + config.blockSize - 1) /
      2 ^ Nat.log2 config.blockSize) = config.blocks := by
    rw [config.blocks_eq _ config.blockShift]
    unfold toUint32
    omega
  rw [WriterConfig.first, total, Output.dstFirstSectorPos, compresses,
    forCso.notDaxFlag]
  simp only [Bool.false_eq_true, if_false, tableEnd]
  omega

theorem ForCso.indexShift (forCso : config.ForCso) :
    config.indexShift =
      Nat.log2 (config.tableEnd + config.srcSize) - 30 := by
  have small := forCso.small
  rw [WriterConfig.indexShift, forCso.compresses, forCso.first]
  simp only [Bool.false_eq_true, if_false]
  have whole : ((config.tableEnd : Int) + config.srcSize) =
      ((config.tableEnd + config.srcSize : Nat) : Int) := by
    omega
  rw [whole]
  refine Output.shiftForSize_eq ?_
  unfold tableEnd
  omega

theorem ForCso.indexShift_le (forCso : config.ForCso) :
    config.indexShift ≤ 11 := by
  have small := forCso.small
  have log : Nat.log2 (config.tableEnd + config.srcSize) < 42 := by
    refine (Nat.log2_lt ?_).mpr small
    unfold tableEnd
    omega
  rw [forCso.indexShift]
  omega

/-- Blocks are a multiple of the alignment long. -/
theorem ForCso.dvd_blockSize (forCso : config.ForCso) :
    config.indexAlign ∣ config.blockSize :=
  Nat.pow_dvd_pow 2 (forCso.indexShift_le.trans config.shiftBounds.1)

/-- No block takes more room than a raw one. -/
theorem ForCso.place_le
    (forCso : config.ForCso) {formats : Nat → SectorFormat} {count : Nat}
    (left : ∀ block < count, config.LeftBehind (formats block) (sizes block))
    {block : Nat} (below : block ≤ count) :
    config.place sizes block ≤
      roundUp config.indexAlign config.tableEnd +
        block * config.blockSize := by
  induction block with
  | zero =>
      rw [place, forCso.first, Nat.zero_mul, Nat.add_zero]
  | succ block inductionHypothesis =>
      have before := inductionHypothesis (by omega)
      rw [place, roundUp_add_left (dvd_place block), Nat.succ_mul]
      rcases left block (by omega) with ⟨_, raw⟩ | ⟨_, compressed⟩
      · rw [raw, roundUp_eq_self forCso.dvd_blockSize]
        omega
      · omega

theorem ForCso.place_raw (forCso : config.ForCso) (block : Nat) :
    config.place (fun _ => config.blockSize) block =
      roundUp config.indexAlign config.tableEnd +
        block * config.blockSize := by
  induction block with
  | zero => rw [place, forCso.first, Nat.zero_mul, Nat.add_zero]
  | succ block inductionHypothesis =>
      rw [place, roundUp_add_left (dvd_place block),
        roundUp_eq_self forCso.dvd_blockSize, inductionHypothesis,
        Nat.succ_mul, Nat.add_assoc]

/-- Apart from the flag bit an entry is the shifted position. -/
theorem updateIndex_position
    (output : Output) (srcPos dstPos : Int) (format : SectorFormat)
    {entry : Nat}
    (same : toUint32 (srcPos / 2 ^ output.blockShift) = entry) :
    (output.updateIndex srcPos dstPos format).1.index entry % 2 ^ 31 =
      toUint32 (dstPos / 2 ^ output.indexShift) % 2 ^ 31 := by
  have flagged : ∀ word : Nat, (word ||| 0x80000000) % 2 ^ 31 =
      word % 2 ^ 31 := by
    intro word
    rw [Nat.or_mod_two_pow]
    exact Nat.or_zero _
  unfold Output.updateIndex
  simp only [same]
  cases output.fmt <;> cases format <;>
    simp only [Function.update_self, csoIndexUncompressed, cso2IndexLz4,
      ne_eq, reduceCtorEq, not_true_eq_false, not_false_eq_true, and_true,
      and_false, and_self, if_true, if_false, flagged]

end

end WriterConfig

end Maxcso
