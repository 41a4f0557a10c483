import Maxcso.Cli
import Maxcso.Output

/-!
# Formats that the container accepts

Which methods the options leave enabled, and for which options no block is
left in a format that the chosen container has no entry for.
-/

namespace Maxcso

open FlagWord

/-! ## The methods that are chosen -/

namespace CsoFormat

/-- The methods that a format enables by default. -/
def enables : CsoFormat → Method → Bool
  | .cso2, method => method ≠ .zopfli ∧ method ≠ .lz4Brute
  | .zso, method => method = .lz4
  | _, method => method = .zlib ∨ method = .sevenZip

/-- The formats of blocks that `UpdateIndex` accepts. -/
def accepts : CsoFormat → SectorFormat → Bool
  | .cso1, format => format ≠ .lz4
  | .cso2, _ => true
  | .zso, format => format ≠ .deflate
  | .dax, format => format = .deflate

end CsoFormat

theorem Output.updateIndex_accepts
    (output : Output) (srcPos dstPos : Int) (format : SectorFormat) :
    (output.updateIndex srcPos dstPos format).2 = none ↔
      output.fmt.accepts format = true := by
  unfold Output.updateIndex
  cases output.fmt <;> cases format <;> simp [CsoFormat.accepts]

/-- A method is left enabled by `--use-`, `--no-` and `--only-` options. -/
def Chosen (format : CsoFormat) (use no only : List Method)
    (method : Method) : Prop :=
  if only = [] then
    (format.enables method = true ∨ method ∈ use) ∧ method ∉ no
  else
    method ∈ only

instance (format : CsoFormat) (use no only : List Method)
    (method : Method) : Decidable (Chosen format use no only method) :=
  inferInstanceAs
    (Decidable
      (if only = [] then
        (format.enables method = true ∨ method ∈ use) ∧ method ∉ no
      else
        method ∈ only))

/-- The bits that disable methods. -/
def methodBits : List Nat := [0, 1, 2, 3, 7, 8, 9, 12]

/-- The method that a bit disables. -/
def methodOf : Nat → Method
  | 0 | 1 => .zlib
  | 2 => .zopfli
  | 3 => .sevenZip
  | 7 | 8 => .lz4
  | 9 => .lz4Brute
  | _ => .libdeflate

theorem testBit_methodFlag
    {bit : Nat} (member : bit ∈ methodBits) (method : Method) :
    method.flag.testBit bit = decide (method = methodOf bit) := by
  have all : ∀ bit ∈ methodBits,
      method.flag.testBit bit = decide (method = methodOf bit) := by
    cases method <;> decide
  exact all bit member

theorem testBit_methods
    {bit : Nat} (member : bit ∈ methodBits) (methods : List Method) :
    (union Method.flag methods).testBit bit =
      decide (methodOf bit ∈ methods) := by
  rw [testBit_union]
  induction methods with
  | nil => rfl
  | cons method methods inductionHypothesis =>
      rw [List.any_cons, inductionHypothesis, testBit_methodFlag member]
      simp [List.mem_cons, eq_comm]

/-- Every method has a flag, so no flags means no methods. -/
theorem methods_eq_zero_iff (methods : List Method) :
    union Method.flag methods = 0 ↔ methods = [] := by
  constructor
  · intro none
    cases methods with
    | nil => rfl
    | cons method methods =>
        exfalso
        have off (bit : Nat) (member : bit ∈ methodBits) :
            methodOf bit ≠ method := by
          have same := testBit_methods member (method :: methods)
          rw [none, Nat.zero_testBit] at same
          intro here
          simp [here] at same
        cases method with
        | zlib => exact off 0 (by decide) rfl
        | zopfli => exact off 2 (by decide) rfl
        | sevenZip => exact off 3 (by decide) rfl
        | lz4 => exact off 7 (by decide) rfl
        | lz4Brute => exact off 9 (by decide) rfl
        | libdeflate => exact off 12 (by decide) rfl
  · rintro rfl
    rfl

namespace Arguments

/-- The arguments with the options for a format and for methods. -/
def withOptions (args : Arguments) (format : CsoFormat)
    (use no only : List Method) : Arguments :=
  { args with
    flagsFmt := format.flag
    flagsUse := union Method.flag use
    flagsNo := union Method.flag no
    flagsOnly := union Method.flag only }

section

variable {args : Arguments} {format : CsoFormat}
variable {use no only : List Method} {bit : Nat}

theorem testBit_defaultFlags (member : bit ∈ methodBits) :
    (args.withOptions format use no only).defaultFlags.testBit bit =
      !format.enables (methodOf bit) := by
  have same : (args.withOptions format use no only).defaultFlags =
      (default.withOptions format [] [] []).defaultFlags := rfl
  have all : ∀ bit ∈ methodBits,
      (default.withOptions format [] [] []).defaultFlags.testBit bit =
        !format.enables (methodOf bit) := by
    cases format <;> decide
  rw [same]
  exact all bit member

theorem testBit_noAll (member : bit ∈ methodBits) :
    taskflagNoAll.testBit bit = true := by
  have all : ∀ bit ∈ methodBits, taskflagNoAll.testBit bit = true := by
    decide
  exact all bit member

theorem bit_lt (member : bit ∈ methodBits) : bit < 32 := by
  have all : ∀ bit ∈ methodBits, bit < 32 := by decide
  exact all bit member

theorem testBit_disabledFlags (member : bit ∈ methodBits) :
    (args.withOptions format use no only).disabledFlags.testBit bit =
      !decide (Chosen format use no only (methodOf bit)) := by
  have small := bit_lt member
  have only' : (args.withOptions format use no only).flagsOnly =
      union Method.flag only := rfl
  rw [disabledFlags]
  by_cases none : only = []
  · have zero : (args.withOptions format use no only).flagsOnly = 0 := by
      rw [only', none]
      rfl
    rw [if_neg (not_not.mpr zero), Nat.testBit_or, testBit_without small,
      testBit_defaultFlags member]
    simp only [withOptions, testBit_methods member, Chosen, none, if_true]
    cases format.enables (methodOf bit) <;> simp
  · have some : (args.withOptions format use no only).flagsOnly ≠ 0 := by
      rw [only', ne_eq, methods_eq_zero_iff]
      exact none
    rw [if_pos some, testBit_without small, Nat.testBit_or,
      testBit_noAll member, only', testBit_methods member]
    simp [Chosen, none]

theorem testBit_flagIf (condition : Bool) (flag bit : Nat) :
    (flagIf condition flag).testBit bit =
      (condition && flag.testBit bit) := by
  cases condition with
  | false => exact Nat.zero_testBit bit
  | true => rfl

/-- A method stays enabled when it is chosen and fast enough. -/
theorem testBit_finalFlags (member : bit ∈ methodBits) :
    (args.withOptions format use no only).finalFlags.testBit bit =
      (!decide (Chosen format use no only (methodOf bit)) ||
        (args.fast && fastFlags.testBit bit)) := by
  have others : taskflagForceAll.testBit bit = false ∧
      taskflagDecompress.testBit bit = false ∧
      taskflagMeasure.testBit bit = false ∧
      format.flag.testBit bit = false := by
    have all : ∀ bit ∈ methodBits,
        taskflagForceAll.testBit bit = false ∧
          taskflagDecompress.testBit bit = false ∧
          taskflagMeasure.testBit bit = false ∧
          format.flag.testBit bit = false := by
      cases format <;> decide
    exact all bit member
  have fmt : (args.withOptions format use no only).flagsFmt =
      format.flag := rfl
  have fast : (args.withOptions format use no only).fast = args.fast := rfl
  simp only [finalFlags, Nat.testBit_or, testBit_flagIf,
    testBit_disabledFlags member, others, Bool.and_false, Bool.or_false,
    fmt, fast]

end

end Arguments

/-! ## Blocks in formats that the container lacks -/

namespace Sector

/-- Nothing has been tried on the block. -/
def Untried (sector : Sector) : Prop :=
  sector.bestSoFar = ⟨.orig, sector.blockSize, none⟩

end Sector

/-- Whatever the compressors return for a block, `UpdateIndex` accepts the
format that `Compress` and `FinalizeBest` leave; for DAX, if some deflate
trial succeeds. -/
def NeverMismatched (format : CsoFormat) (flags : Nat) : Prop :=
  ∀ (env : Environment) (compressors : Compressors) (sector : Sector)
    (pool : BufferPool) (output : Output) (srcPos dstPos : Int),
    sector.flags = flags → sector.Untried → output.fmt = format →
      (format = .dax →
        ∃ trial ∈ Sector.compressTrials compressors flags pool.bufferSize
            sector.blockBytes, trial.format = .deflate) →
        (output.updateIndex srcPos dstPos
          (sector.compressWork
            (env.withCompressors compressors flags pool.bufferSize)
            pool).1.bestFmt).2 = none

/-- The options choose only methods whose results the format has entries
for. -/
def Suits (format : CsoFormat) (use no only : List Method)
    (fast : Bool) : Prop :=
  match format with
  | .cso2 => True
  | .cso1 | .dax => ¬ Chosen format use no only .lz4
  | .zso =>
      ∀ method ∈ [Method.zlib, .zopfli, .sevenZip, .libdeflate],
        Chosen format use no only method →
          fast = true ∧ method ≠ .zlib

section

variable {args : Arguments} {format : CsoFormat}
variable {use no only : List Method}

theorem testBit_of_chosenLz4
    (chosen : Chosen format use no only .lz4) :
    (args.withOptions format use no only).finalFlags.testBit 7 = false := by
  have fast : Arguments.fastFlags.testBit 7 = false := by decide
  rw [Arguments.testBit_finalFlags (by decide), fast]
  simpa [methodOf] using chosen

theorem triesLz4_iff :
    Sector.TriesLz4 (args.withOptions format use no only).finalFlags ↔
      Chosen format use no only .lz4 := by
  have fast : Arguments.fastFlags.testBit 7 = false := by decide
  have bit7 := @Arguments.testBit_finalFlags args format use no only 7
    (by decide)
  have bit8 := @Arguments.testBit_finalFlags args format use no only 8
    (by decide)
  rw [Sector.TriesLz4, bit7, bit8, fast]
  simp only [methodOf, Bool.and_false, Bool.or_false, Bool.not_eq_false',
    decide_eq_true_eq, Bool.or_eq_false_iff]
  tauto

theorem triesDeflate_iff :
    Sector.TriesDeflate (args.withOptions format use no only).finalFlags ↔
      ∃ method ∈ [Method.zlib, .zopfli, .sevenZip, .libdeflate],
        Chosen format use no only method ∧
          ¬ (args.fast = true ∧ method ≠ .zlib) := by
  have clear {bit : Nat} (member : bit ∈ methodBits) :
      (args.withOptions format use no only).finalFlags.testBit bit = false ↔
        Chosen format use no only (methodOf bit) ∧
          ¬ (args.fast = true ∧ Arguments.fastFlags.testBit bit = true) := by
    rw [Arguments.testBit_finalFlags member]
    simp
  constructor
  · rintro ⟨bit, member, off⟩
    simp only [List.mem_cons, List.not_mem_nil, or_false] at member
    rcases member with rfl | rfl | rfl | rfl | rfl
    · obtain ⟨chosen, _⟩ := (clear (by decide)).mp off
      exact ⟨.zlib, by simp, chosen, fun both => both.2 rfl⟩
    · obtain ⟨chosen, _⟩ := (clear (by decide)).mp off
      exact ⟨.zlib, by simp, chosen, fun both => both.2 rfl⟩
    · obtain ⟨chosen, slow⟩ := (clear (by decide)).mp off
      exact ⟨.zopfli, by simp, chosen, fun both => slow ⟨both.1, by decide⟩⟩
    · obtain ⟨chosen, slow⟩ := (clear (by decide)).mp off
      exact ⟨.sevenZip, by simp, chosen,
        fun both => slow ⟨both.1, by decide⟩⟩
    · obtain ⟨chosen, slow⟩ := (clear (by decide)).mp off
      exact ⟨.libdeflate, by simp, chosen,
        fun both => slow ⟨both.1, by decide⟩⟩
  · rintro ⟨method, member, chosen, slow⟩
    simp only [List.mem_cons, List.not_mem_nil, or_false] at member
    rcases member with rfl | rfl | rfl | rfl
    · exact ⟨0, by simp, (clear (by decide)).mpr
        ⟨chosen, fun both => absurd both.2 (by decide)⟩⟩
    · exact ⟨2, by simp, (clear (by decide)).mpr
        ⟨chosen, fun both => slow ⟨both.1, Method.noConfusion⟩⟩⟩
    · exact ⟨3, by simp, (clear (by decide)).mpr
        ⟨chosen, fun both => slow ⟨both.1, Method.noConfusion⟩⟩⟩
    · exact ⟨12, by simp, (clear (by decide)).mpr
        ⟨chosen, fun both => slow ⟨both.1, Method.noConfusion⟩⟩⟩

/-- What a block is left as, in terms of its trials. -/
theorem bestFmt_compressWork
    {sector : Sector} (untried : sector.Untried) (env : Environment)
    (pool : BufferPool) :
    (sector.compressWork env pool).1.bestFmt =
      (sector.bestOf env sector.pos sector.blockBytes).format :=
  congrArg Best.format (Sector.compressWork_best env pool untried).1

theorem neverMismatched_of_suits
    (suits : Suits format use no only args.fast) :
    NeverMismatched format
      (args.withOptions format use no only).finalFlags := by
  intro env compressors sector pool output srcPos dstPos flags untried fmt
    deflates
  rw [Output.updateIndex_accepts, fmt, bestFmt_compressWork untried]
  have cases := Sector.bestOf_format
    (env.withCompressors compressors
      (args.withOptions format use no only).finalFlags pool.bufferSize)
    sector sector.pos sector.blockBytes
  cases format with
  | cso2 => rfl
  | cso1 =>
      have none : ¬ Sector.TriesLz4
          (args.withOptions .cso1 use no only).finalFlags := by
        intro tries
        exact suits (triesLz4_iff.mp tries)
      rcases cases with same | ⟨trial, member, same⟩
      · rw [same]
        rfl
      · rcases List.mem_append.mp member with deflate | lz4
        · rw [same, Sector.format_of_deflateTrials deflate]
          rfl
        · rw [Sector.lz4Trials_of_disabled none] at lz4
          exact nomatch lz4
  | zso =>
      have none : ¬ Sector.TriesDeflate
          (args.withOptions .zso use no only).finalFlags := by
        intro tries
        obtain ⟨method, member, chosen, slow⟩ := triesDeflate_iff.mp tries
        exact slow (suits method member chosen)
      rcases cases with same | ⟨trial, member, same⟩
      · rw [same]
        rfl
      · rcases List.mem_append.mp member with deflate | lz4
        · rw [Sector.deflateTrials_of_disabled none] at deflate
          exact nomatch deflate
        · rw [same, Sector.format_of_lz4Trials lz4]
          rfl
  | dax =>
      have none : ¬ Sector.TriesLz4
          (args.withOptions .dax use no only).finalFlags := by
        intro tries
        exact suits (triesLz4_iff.mp tries)
      have trials : Sector.compressTrials compressors
          (args.withOptions .dax use no only).finalFlags pool.bufferSize
          sector.blockBytes =
            Sector.deflateTrials compressors
              (args.withOptions .dax use no only).finalFlags
              pool.bufferSize sector.blockBytes := by
        rw [Sector.compressTrials, Sector.lz4Trials_of_disabled none,
          List.append_nil]
      have dax : hasFlag sector.flags taskflagFmtDax = true := by
        rw [flags]
        refine (hasFlag_two_pow _ 11).trans ?_
        rw [Arguments.finalFlags, Nat.testBit_or, Bool.or_eq_true]
        exact Or.inr (by decide : taskflagFmtDax.testBit 11 = true)
      obtain ⟨trial, member, _⟩ := deflates rfl
      rw [Sector.bestOf_dax dax]
      · rfl
      · intro trial member
        have member' : trial ∈ Sector.compressTrials compressors _
            pool.bufferSize sector.blockBytes := member
        rw [trials] at member'
        exact Sector.format_of_deflateTrials member'
      · exact List.ne_nil_of_mem member

end

/-! ## Blocks that are refused -/

/-- Compressors that make one byte of every block, apart from the lz4 ones. -/
def oneByte (lz4 : Bytes) : Compressors where
  deflate := fun _ _ _ _ => some [0]
  zopfliCompress := fun _ _ => some [0]
  deflate7z := fun _ _ _ => some [0]
  libdeflateCompress := fun _ _ _ => [0]
  lz4CompressHc := fun _ _ _ => []
  lz4CompressDefault := fun _ _ => lz4

/-- A sector with a block of zeros, without costs and alignment. -/
def zeroSector (flags : Nat) : Sector :=
  { Sector.create flags with
    align := 1
    blockSize := sectorSize
    busy := true
    buffer := some ⟨0, 16384, fun _ => 0⟩
    bestSize := sectorSize }

theorem zeroSector_untried (flags : Nat) : (zeroSector flags).Untried := rfl

section

variable {flags : Nat} {lz4 : Bytes} {block : Bytes}

theorem deflateTrials_oneByte
    {trial : Trial}
    (member : trial ∈
      Sector.deflateTrials (oneByte lz4) flags 16384 block) :
    trial = ⟨[0], .deflate⟩ := by
  have data : trial.data = [0] := by
    simp only [Sector.deflateTrials, Sector.zlibTrial, Sector.zopfliTrial,
      Sector.sevenZipTrial, Sector.libDeflateTrial, Sector.trialOf,
      Sector.nonempty, oneByte, List.mem_append, List.mem_flatMap] at member
    rcases member with ((⟨_, _, zlib⟩ | zopfli) | sevenZip) | libdeflate
    · simpa using congrArg Trial.data (List.mem_singleton.mp zlib)
    · split at zopfli
      · cases zopfli
      · simpa using congrArg Trial.data (List.mem_singleton.mp zopfli)
    · split at sevenZip
      · cases sevenZip
      · simpa using congrArg Trial.data (List.mem_singleton.mp sevenZip)
    · split at libdeflate
      · cases libdeflate
      · simpa using congrArg Trial.data (List.mem_singleton.mp libdeflate)
  have format := Sector.format_of_deflateTrials member
  cases trial
  simp_all

theorem deflateTrials_oneByte_ne_nil
    (tries : Sector.TriesDeflate flags) :
    Sector.deflateTrials (oneByte lz4) flags 16384 block ≠ [] := by
  obtain ⟨bit, member, off⟩ := tries
  rw [← hasFlag_two_pow] at off
  simp only [List.mem_cons, List.not_mem_nil, or_false] at member
  rcases member with rfl | rfl | rfl | rfl | rfl
  · have clear : hasFlag flags taskflagNoZlibDefault = false := off
    simp [Sector.deflateTrials, Sector.zStreams, clear, Sector.zlibTrial,
      Sector.trialOf, oneByte]
  · have clear : hasFlag flags taskflagNoZlibBrute = false := off
    simp [Sector.deflateTrials, Sector.zStreams, clear, Sector.zlibTrial,
      Sector.trialOf, oneByte]
  · have clear : hasFlag flags taskflagNoZopfli = false := off
    simp [Sector.deflateTrials, clear, Sector.zopfliTrial, Sector.trialOf,
      oneByte]
  · have clear : hasFlag flags taskflagNo7Zip = false := off
    simp [Sector.deflateTrials, clear, Sector.sevenZipTrial,
      Sector.trialOf, oneByte]
  · have clear : hasFlag flags taskflagNoLibdeflate = false := off
    simp [Sector.deflateTrials, clear, Sector.libDeflateTrial,
      Sector.trialOf, Sector.nonempty, oneByte]

/-- One byte of deflate data is kept, once it has been submitted. -/
theorem foldl_submit_oneByte
    {trials : List Trial}
    (all : ∀ trial ∈ trials, trial = ⟨[0], .deflate⟩) {best : Best}
    (start : best = ⟨.orig, sectorSize, none⟩ ∨
      best = ⟨.deflate, 1, some [0]⟩) :
    trials.foldl (zeroSector flags).submit best =
      if trials = [] then best else ⟨.deflate, 1, some [0]⟩ := by
  induction trials generalizing best with
  | nil => rfl
  | cons trial trials inductionHypothesis =>
      obtain rfl := all trial List.mem_cons_self
      have kept : (zeroSector flags).submit best ⟨[0], .deflate⟩ =
          ⟨.deflate, 1, some [0]⟩ := by
        rcases start with rfl | rfl
        · simp [Sector.submit, Sector.better, zeroSector, Sector.create]
        · simp [Sector.submit, Sector.better, zeroSector, Sector.create]
      rw [List.foldl_cons, kept,
        inductionHypothesis
          (fun trial member => all trial (List.mem_cons_of_mem _ member))
          (Or.inr rfl)]
      simp

/-- The block that is left when the lz4 compressor returns `lz4`. -/
theorem bestOf_oneByte
    (env : Environment) (pos : Int) :
    (zeroSector flags).bestOf
        (env.withCompressors (oneByte lz4) flags 16384) pos block =
      (zeroSector flags).finalize
        ((Sector.lz4Trials (oneByte lz4) flags 16384 block).foldl
          (zeroSector flags).submit
          (if Sector.deflateTrials (oneByte lz4) flags 16384 block = [] then
            ⟨.orig, sectorSize, none⟩
          else
            ⟨.deflate, 1, some [0]⟩)) 1 := by
  have deflated := @foldl_submit_oneByte flags
    (Sector.deflateTrials (oneByte lz4) flags 16384 block)
    (fun trial member => deflateTrials_oneByte member)
    ⟨.orig, sectorSize, none⟩ (Or.inl rfl)
  rw [← deflated, ← List.foldl_append]
  rfl

/-- With an lz4 method, a block can be left in lz4 format. -/
theorem bestOf_lz4
    (tries : flags.testBit 7 = false) (env : Environment) (pos : Int) :
    ((zeroSector flags).bestOf
      (env.withCompressors (oneByte [0]) flags 16384) pos block).format =
        .lz4 := by
  have clear : hasFlag flags taskflagNoLz4Default = false :=
    (hasFlag_two_pow flags 7).trans tries
  have trials : Sector.lz4Trials (oneByte [0]) flags 16384 block =
      [⟨[0], .lz4⟩] := by
    simp [Sector.lz4Trials, clear, Sector.lz4HcTrial, Sector.lz4Trial,
      Sector.trialOf, Sector.nonempty, oneByte]
  rw [bestOf_oneByte, trials]
  by_cases none :
      Sector.deflateTrials (oneByte [0]) flags 16384 block = []
  · simp [none, Sector.submit, Sector.better, Sector.finalize, zeroSector,
      Sector.create, Sector.alignedBestSize]
  · simp [none, Sector.submit, Sector.better, Sector.finalize, zeroSector,
      Sector.create, Sector.alignedBestSize]

/-- With a deflate method, a block can be left in deflate format. -/
theorem bestOf_deflate
    (tries : Sector.TriesDeflate flags) (env : Environment) (pos : Int) :
    ((zeroSector flags).bestOf
      (env.withCompressors (oneByte []) flags 16384) pos block).format =
        .deflate := by
  have trials : Sector.lz4Trials (oneByte []) flags 16384 block = [] := by
    simp [Sector.lz4Trials, Sector.lz4HcTrial, Sector.lz4Trial,
      Sector.trialOf, Sector.nonempty, oneByte]
  rw [bestOf_oneByte, trials,
    if_neg (deflateTrials_oneByte_ne_nil tries)]
  simp [Sector.finalize, zeroSector, Sector.create, Sector.alignedBestSize]

end

/-! ## The options that are accepted -/

namespace Arguments

variable {args accepted : Arguments}

theorem finalFlags_of_validateFiles
    (valid : args.validateFiles = .ok accepted) :
    accepted.finalFlags = args.finalFlags ∧
      accepted.flagsFmt = args.flagsFmt := by
  unfold validateFiles validateFilesOn at valid
  dsimp only at valid
  repeat' split at valid
  all_goals cases valid
  · exact ⟨rfl, rfl⟩
  · exact ⟨rfl, rfl⟩

theorem flagsFinal_of_validateArgs
    {processors : Int}
    (valid : args.validateArgs processors = .ok accepted) :
    accepted.flagsFinal = args.finalFlags ∧
      (hasFlag args.flagsFmt taskflagFmtDax = true →
        args.finalFlags &&& deflateFlags ≠ deflateFlags) := by
  unfold validateArgs validateArgsOn at valid
  dsimp only at valid
  split at valid
  · exact nomatch valid
  · rename_i checked files
    obtain ⟨flags, fmt⟩ := finalFlags_of_validateFiles files
    have same : (if args.threads = 0 then
        { args with threads := processors } else args).finalFlags =
          args.finalFlags := by
      split <;> rfl
    have same' : (if args.threads = 0 then
        { args with threads := processors } else args).flagsFmt =
          args.flagsFmt := by
      split <;> rfl
    rw [same] at flags
    rw [same'] at fmt
    split at valid
    · exact nomatch valid
    · unfold validateFlags at valid
      dsimp only at valid
      rw [flags, fmt] at valid
      split at valid
      · split at valid
        · exact nomatch valid
        · split at valid
          · exact nomatch valid
          · obtain rfl := Except.ok.inj valid
            exact ⟨rfl, fun _ => by assumption⟩
      · rename_i other
        obtain rfl := Except.ok.inj valid
        exact ⟨rfl, fun dax => absurd dax other⟩

/-- `validate_args` leaves DAX some deflate method. -/
theorem triesDeflate_of_missing
    {flags : Nat} (missing : flags &&& deflateFlags ≠ deflateFlags) :
    Sector.TriesDeflate flags := by
  by_contra none
  apply missing
  rw [and_eq_mask_iff]
  intro bit set
  have small : bit < 13 := by
    by_contra large
    rw [Nat.testBit_lt_two_pow
      (lt_of_lt_of_le (by decide : deflateFlags < 2 ^ 13)
        (Nat.pow_le_pow_right (by decide) (Nat.not_lt.mp large)))] at set
    exact nomatch set
  have bits : ∀ bit < 13, deflateFlags.testBit bit = true →
      bit ∈ [0, 1, 2, 3, 12] := by
    decide
  by_contra clear
  exact none ⟨bit, bits bit small set,
    Bool.eq_false_of_not_eq_true clear⟩

end Arguments

theorem zeroSector_mismatch
    {format : CsoFormat} {flags : Nat}
    (never : NeverMismatched format flags) (compressors : Compressors)
    (deflates : format = .dax →
      ∃ trial ∈ Sector.compressTrials compressors flags 16384
          (zeroSector flags).blockBytes, trial.format = .deflate) :
    format.accepts
      ((zeroSector flags).bestOf
        ((Environment.ofFile []).withCompressors compressors flags 16384) 0
        (zeroSector flags).blockBytes).format = true := by
  have accepted := never (.ofFile []) compressors (zeroSector flags) .initial
    { Output.create (.ofFile []) flags with fmt := format } 0 0 rfl
    (zeroSector_untried flags) rfl deflates
  rw [Output.updateIndex_accepts,
    bestFmt_compressWork (zeroSector_untried flags)] at accepted
  exact accepted

/-- For options that `validate_args` accepts, no block is refused part way
exactly when they choose no method that the format has no entries for. -/
theorem never_mismatched_iff
    (processors : Int) (args : Arguments) (format : CsoFormat)
    (use no only : List Method) {accepted : Arguments}
    (valid : (args.withOptions format use no only).validateArgs processors =
      .ok accepted) :
    NeverMismatched format accepted.flagsFinal ↔
      Suits format use no only args.fast := by
  obtain ⟨flags, dax⟩ := Arguments.flagsFinal_of_validateArgs valid
  rw [flags]
  constructor
  · intro never
    cases format with
    | cso2 => trivial
    | cso1 =>
        intro chosen
        have accepts := zeroSector_mismatch never (oneByte [0]) nofun
        rw [bestOf_lz4 (testBit_of_chosenLz4 chosen)] at accepts
        exact nomatch accepts
    | zso =>
        intro method member chosen
        by_contra slow
        have tries := triesDeflate_iff.mpr ⟨method, member, chosen, slow⟩
        have accepts := zeroSector_mismatch never (oneByte []) nofun
        rw [bestOf_deflate tries] at accepts
        exact nomatch accepts
    | dax =>
        intro chosen
        have missing := dax ((hasFlag_two_pow _ 11).trans
          (by decide : taskflagFmtDax.testBit 11 = true))
        have tries := Arguments.triesDeflate_of_missing missing
        obtain ⟨trial, member⟩ := List.exists_mem_of_ne_nil _
          (@deflateTrials_oneByte_ne_nil _ [0]
            (zeroSector
              (args.withOptions .dax use no only).finalFlags).blockBytes
            tries)
        have accepts := zeroSector_mismatch never (oneByte [0]) fun _ =>
          ⟨trial, List.mem_append_left _ member,
            Sector.format_of_deflateTrials member⟩
        rw [bestOf_lz4 (testBit_of_chosenLz4 chosen)] at accepts
        exact nomatch accepts
  · exact neverMismatched_of_suits

/-- The arguments for a file, with the defaults for everything else. -/
def oneFile : Arguments :=
  { Arguments.default with
    inputs := [text "disc.iso"]
    threads := 1 }

theorem never_mismatched_plain :
    ∃ accepted : Arguments,
      (oneFile.withOptions .cso1 [] [] []).validateArgs 1 = .ok accepted ∧
        NeverMismatched .cso1 accepted.flagsFinal := by
  have valid : (oneFile.withOptions .cso1 [] [] []).validateArgs 1 =
      .ok { oneFile.withOptions .cso1 [] [] [] with
        outputs := [text "disc.cso"]
        flagsFinal := 0x1384 } := by
    rfl
  exact ⟨_, valid,
    (never_mismatched_iff 1 oneFile .cso1 [] [] [] valid).mpr
      (by decide : ¬ Chosen .cso1 [] [] [] .lz4)⟩

/-- `--only-lz4` is accepted for CSO v1, and a block of zeros is then left in
lz4 format, which `UpdateIndex` refuses. -/
theorem onlyLz4_mismatched :
    ∃ accepted : Arguments,
      (oneFile.withOptions .cso1 [] [] [.lz4]).validateArgs 1 =
          .ok accepted ∧
        accepted.decompress = false ∧
        ¬ NeverMismatched .cso1 accepted.flagsFinal := by
  refine ⟨{ oneFile.withOptions .cso1 [] [] [.lz4] with
    outputs := [text "disc.cso"]
    flagsFinal := 0x120F }, rfl, rfl, ?_⟩
  intro never
  have accepts := zeroSector_mismatch never (oneByte [0]) nofun
  rw [bestOf_lz4 (by decide)] at accepts
  exact nomatch accepts

end Maxcso
