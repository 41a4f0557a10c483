import Maxcso.Library.FlagWord
import Maxcso.Sector.Result

/-!
# Compression methods

The methods that `Sector::Compress` tries, which of them the flags leave
enabled, and the results that they submit.
-/

namespace Maxcso

/-! ## Flags of the methods -/

abbrev taskflagNoZlib : Nat := 0x03
abbrev taskflagNoZlibDefault : Nat := 0x01
abbrev taskflagNoZlibBrute : Nat := 0x02
abbrev taskflagNoZopfli : Nat := 0x04
abbrev taskflagNo7Zip : Nat := 0x08
abbrev taskflagForceAll : Nat := 0x10
abbrev taskflagNoLz4 : Nat := 0x380
abbrev taskflagNoLz4Default : Nat := 0x80
abbrev taskflagNoLz4Hc : Nat := 0x100
abbrev taskflagNoLz4HcBrute : Nat := 0x200
abbrev taskflagNoLibdeflate : Nat := 0x1000

abbrev taskflagNoAll : Nat :=
  taskflagNoZlib ||| taskflagNoZopfli ||| taskflagNo7Zip ||| taskflagNoLz4 |||
    taskflagNoLibdeflate

/-! ## The libraries -/

inductive ZlibStrategy where
  | default
  | filtered
  | huffmanOnly
  | rle
  deriving DecidableEq, Repr

/-- What the libraries make of a block, given the room in the result where
they are told it.  The flag asks for a zlib header. -/
structure Compressors where
  /-- `deflate` until it ends; `none` when the stream cannot be set up or the
  result does not fit. -/
  deflate : ZlibStrategy → Bool → Nat → Bytes → Option Bytes
  /-- `ZopfliCompress`; `none` is a null pointer. -/
  zopfliCompress : Bool → Bytes → Option Bytes
  /-- `Deflate7z::Deflate` -/
  deflate7z : Bool → Nat → Bytes → Option Bytes
  /-- `libdeflate_deflate_compress` and `libdeflate_zlib_compress`, which
  return no bytes when they fail. -/
  libdeflateCompress : Bool → Nat → Bytes → Bytes
  /-- `LZ4_compress_HC` at a level and `LZ4_compress_default`, which return no
  bytes when they fail. -/
  lz4CompressHc : Nat → Nat → Bytes → Bytes
  lz4CompressDefault : Nat → Bytes → Bytes

namespace Sector

/-! ## Trials -/

/-- A result that is submitted. -/
def trialOf (format : SectorFormat) (data : Option Bytes) : List Trial :=
  data.toList.map fun data => ⟨data, format⟩

/-- `resultSize != 0` -/
def nonempty (data : Bytes) : Option Bytes :=
  if data.length ≠ 0 then some data else none

/-- The streams that the constructor sets up. -/
def zStreams (flags : Nat) : List ZlibStrategy :=
  (if hasFlag flags taskflagNoZlibDefault then [] else [.default]) ++
    if hasFlag flags taskflagNoZlibBrute then []
    else [.filtered, .huffmanOnly, .rle]

/-- `ZlibTrial` -/
def zlibTrial (compressors : Compressors) (withHeader : Bool) (room : Nat)
    (block : Bytes) (strategy : ZlibStrategy) : List Trial :=
  trialOf .deflate (compressors.deflate strategy withHeader room block)

/-- `ZopfliTrial` -/
def zopfliTrial (compressors : Compressors) (withHeader : Bool) (room : Nat)
    (block : Bytes) : List Trial :=
  trialOf .deflate
    ((compressors.zopfliCompress withHeader block).filter fun data =>
      0 < data.length ∧ data.length < room)

/-- `SevenZipTrial` -/
def sevenZipTrial (compressors : Compressors) (withHeader : Bool)
    (room : Nat) (block : Bytes) : List Trial :=
  trialOf .deflate (compressors.deflate7z withHeader room block)

/-- `LibDeflateTrial` -/
def libDeflateTrial (compressors : Compressors) (withHeader : Bool)
    (room : Nat) (block : Bytes) : List Trial :=
  trialOf .deflate
    (nonempty (compressors.libdeflateCompress withHeader room block))

/-- `LZ4HCTrial`: the levels from 4 or 16 on, in steps of three. -/
def lz4HcTrial (compressors : Compressors) (allowBrute : Bool) (room : Nat)
    (block : Bytes) : List Trial :=
  (if allowBrute then [4, 7, 10, 13, 16] else [16]).flatMap fun level =>
    trialOf .lz4 (nonempty (compressors.lz4CompressHc level room block))

/-- `LZ4Trial` -/
def lz4Trial (compressors : Compressors) (room : Nat) (block : Bytes) :
    List Trial :=
  trialOf .lz4 (nonempty (compressors.lz4CompressDefault room block))

/-- The first part of `Compress`. -/
def deflateTrials (compressors : Compressors) (flags room : Nat)
    (block : Bytes) : List Trial :=
  let withHeader := hasFlag flags taskflagFmtDax
  (zStreams flags).flatMap (zlibTrial compressors withHeader room block) ++
    (if hasFlag flags taskflagNoZopfli then []
      else zopfliTrial compressors withHeader room block) ++
    (if hasFlag flags taskflagNo7Zip then []
      else sevenZipTrial compressors withHeader room block) ++
    if hasFlag flags taskflagNoLibdeflate then []
    else libDeflateTrial compressors withHeader room block

/-- The second part of `Compress`. -/
def lz4Trials (compressors : Compressors) (flags room : Nat)
    (block : Bytes) : List Trial :=
  (if hasFlag flags (taskflagNoLz4Hc ||| taskflagNoLz4HcBrute) then []
    else lz4HcTrial compressors
      (!hasFlag flags taskflagNoLz4HcBrute) room block) ++
    if hasFlag flags taskflagNoLz4Default then []
    else lz4Trial compressors room block

/-- The results that `Compress` submits, in order. -/
def compressTrials (compressors : Compressors) (flags room : Nat)
    (block : Bytes) : List Trial :=
  deflateTrials compressors flags room block ++
    lz4Trials compressors flags room block

end Sector

/-- The environment whose compressors are those that the flags enable. -/
def Environment.withCompressors (env : Environment)
    (compressors : Compressors) (flags room : Nat) : Environment :=
  { env with
    trials := fun _ block =>
      Sector.compressTrials compressors flags room block }

theorem hasFlag_two_pow (flags bit : Nat) :
    hasFlag flags (2 ^ bit) = flags.testBit bit := by
  have off := FlagWord.and_two_pow_eq_zero_iff flags bit
  cases set : flags.testBit bit with
  | false => simpa [hasFlag, set] using off
  | true => simpa [hasFlag, set] using off

namespace Sector

/-- Some method that makes deflate streams is enabled. -/
def TriesDeflate (flags : Nat) : Prop :=
  ∃ bit ∈ [0, 1, 2, 3, 12], flags.testBit bit = false

/-- Some method that makes lz4 blocks is enabled. -/
def TriesLz4 (flags : Nat) : Prop :=
  flags.testBit 7 = false ∨
    (flags.testBit 8 = false ∧ flags.testBit 9 = false)

section

variable {compressors : Compressors} {flags room : Nat} {block : Bytes}
variable {trial : Trial}

theorem format_of_trialOf
    {format : SectorFormat} {data : Option Bytes}
    (member : trial ∈ trialOf format data) : trial.format = format := by
  obtain ⟨_, _, rfl⟩ := List.mem_map.mp member
  rfl

theorem format_of_deflateTrials
    (member : trial ∈ deflateTrials compressors flags room block) :
    trial.format = .deflate := by
  simp only [deflateTrials, List.mem_append, List.mem_flatMap] at member
  rcases member with ((⟨_, _, zlib⟩ | zopfli) | sevenZip) | libdeflate
  · exact format_of_trialOf zlib
  · split at zopfli
    · exact nomatch zopfli
    · exact format_of_trialOf zopfli
  · split at sevenZip
    · exact nomatch sevenZip
    · exact format_of_trialOf sevenZip
  · split at libdeflate
    · exact nomatch libdeflate
    · exact format_of_trialOf libdeflate

theorem format_of_lz4Trials
    (member : trial ∈ lz4Trials compressors flags room block) :
    trial.format = .lz4 := by
  simp only [lz4Trials, List.mem_append] at member
  rcases member with hc | lz4
  · split at hc
    · exact nomatch hc
    · obtain ⟨_, _, same⟩ := List.mem_flatMap.mp hc
      exact format_of_trialOf same
  · split at lz4
    · exact nomatch lz4
    · exact format_of_trialOf lz4

theorem deflateTrials_of_disabled
    (disabled : ¬ TriesDeflate flags) :
    deflateTrials compressors flags room block = [] := by
  have set (bit : Nat) (member : bit ∈ [0, 1, 2, 3, 12]) :
      hasFlag flags (2 ^ bit) = true := by
    rw [hasFlag_two_pow]
    by_contra clear
    exact disabled ⟨bit, member, Bool.eq_false_of_not_eq_true clear⟩
  have zlib : hasFlag flags taskflagNoZlibDefault = true := set 0 (by simp)
  have brute : hasFlag flags taskflagNoZlibBrute = true := set 1 (by simp)
  have zopfli : hasFlag flags taskflagNoZopfli = true := set 2 (by simp)
  have sevenZip : hasFlag flags taskflagNo7Zip = true := set 3 (by simp)
  have libdeflate : hasFlag flags taskflagNoLibdeflate = true :=
    set 12 (by simp)
  simp [deflateTrials, zStreams, zlib, brute, zopfli, sevenZip, libdeflate]

theorem hasFlag_lz4Hc (flags : Nat) :
    hasFlag flags (taskflagNoLz4Hc ||| taskflagNoLz4HcBrute) =
      (flags.testBit 8 || flags.testBit 9) := by
  have both : flags &&& (taskflagNoLz4Hc ||| taskflagNoLz4HcBrute) = 0 ↔
      flags.testBit 8 = false ∧ flags.testBit 9 = false :=
    (FlagWord.and_or_eq_zero_iff flags (2 ^ 8) (2 ^ 9)).trans
      (and_congr (FlagWord.and_two_pow_eq_zero_iff flags 8)
        (FlagWord.and_two_pow_eq_zero_iff flags 9))
  rw [hasFlag]
  generalize taskflagNoLz4Hc ||| taskflagNoLz4HcBrute = mask at *
  cases first : flags.testBit 8 with
  | false =>
      cases second : flags.testBit 9 with
      | false => simpa [first, second] using both
      | true => simpa [first, second] using both
  | true => simpa [first] using both

theorem lz4Trials_of_disabled
    (disabled : ¬ TriesLz4 flags) :
    lz4Trials compressors flags room block = [] := by
  have default : hasFlag flags taskflagNoLz4Default = true := by
    rw [show taskflagNoLz4Default = 2 ^ 7 from rfl, hasFlag_two_pow]
    by_contra clear
    exact disabled (Or.inl (Bool.eq_false_of_not_eq_true clear))
  have hc : hasFlag flags (taskflagNoLz4Hc ||| taskflagNoLz4HcBrute) =
      true := by
    rw [hasFlag_lz4Hc, Bool.or_eq_true]
    by_contra clear
    simp only [not_or, Bool.not_eq_true] at clear
    exact disabled (Or.inr clear)
  simp [lz4Trials, default, hc]

/-! ## The format that is left -/

/-- Without an enabled method of a kind, no block has its format. -/
theorem bestOf_format
    (env : Environment) (sector : Sector) (pos : Int) (block : Bytes) :
    (sector.bestOf env pos block).format = .orig ∨
      ∃ trial ∈ env.trials pos block,
        (sector.bestOf env pos block).format = trial.format := by
  rcases result_cases env sector pos block with same | ⟨trial, member, same, _⟩
  · exact Or.inl (congrArg Prod.fst same)
  · exact Or.inr ⟨trial, member, congrArg Prod.fst same⟩

/-- A deflate result for a DAX file is never given up for the block itself,
and the first one is taken whatever its size. -/
theorem foldl_submit_dax
    {sector : Sector} (dax : hasFlag sector.flags taskflagFmtDax = true)
    {trials : List Trial}
    (deflates : ∀ trial ∈ trials, trial.format = .deflate) {best : Best}
    (some : best.format = .deflate ∨ (best.format = .orig ∧ trials ≠ [])) :
    (trials.foldl sector.submit best).format = .deflate := by
  induction trials generalizing best with
  | nil => exact some.resolve_right fun none => none.2 rfl
  | cons trial trials inductionHypothesis =>
      have format := deflates trial List.mem_cons_self
      apply inductionHypothesis fun trial member =>
        deflates trial (List.mem_cons_of_mem _ member)
      left
      rw [submit]
      split
      · exact format
      · rename_i refused
        refine some.resolve_right fun none => refused ?_
        simp [better, format, none.1, dax]

theorem bestOf_dax
    {env : Environment} {sector : Sector} {pos : Int}
    (dax : hasFlag sector.flags taskflagFmtDax = true)
    (deflates : ∀ trial ∈ env.trials pos block, trial.format = .deflate)
    (some : env.trials pos block ≠ []) :
    (sector.bestOf env pos block).format = .deflate := by
  have kept := @foldl_submit_dax sector dax _ deflates
    ⟨.orig, sector.blockSize, none⟩ (Or.inr ⟨rfl, some⟩)
  rw [bestOf, finalize]
  split
  · exact kept
  · rw [if_neg (by simp [dax])]
    exact kept

end

end Sector

end Maxcso
