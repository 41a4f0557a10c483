import Maxcso.Library.FlagWord
import Maxcso.Sector.Methods

/-!
# The command line

`cli.cpp`: the options that the program was called with, and what
`validate_args` makes of them.  Paths are lists of bytes.
-/

namespace Maxcso

open FlagWord

/-- The bytes of a text of the program. -/
def text (characters : String) : Bytes :=
  characters.toList.map fun character => UInt8.ofNat character.toNat

/-- `DEFAULT_BLOCK_SIZE` -/
abbrev defaultBlockSize : Nat := 0xFFFFFFFF

/-- The flag of a format. -/
def CsoFormat.flag : CsoFormat → Nat
  | cso1 => 0
  | cso2 => taskflagFmtCso2
  | zso => taskflagFmtZso
  | dax => taskflagFmtDax

/-- The methods that `--use-`, `--no-` and `--only-` know. -/
inductive Method where
  | zlib
  | zopfli
  | sevenZip
  | lz4
  | lz4Brute
  | libdeflate
  deriving DecidableEq, Repr

/-- The flags of a method in `has_arg_method`. -/
def Method.flag : Method → Nat
  | zlib => taskflagNoZlib
  | zopfli => taskflagNoZopfli
  | sevenZip => taskflagNo7Zip
  | lz4 => taskflagNoLz4Default ||| taskflagNoLz4Hc
  | lz4Brute => taskflagNoLz4HcBrute
  | libdeflate => taskflagNoLibdeflate

structure Arguments where
  inputs : List Bytes
  outputs : List Bytes
  outputPath : Bytes
  threads : Int
  blockSize : Nat
  flagsFmt : Nat
  flagsUse : Nat
  flagsNo : Nat
  flagsOnly : Nat
  flagsFinal : Nat
  fast : Bool
  smallest : Bool
  crc : Bool
  decompress : Bool
  measure : Bool

namespace Arguments

/-- `default_args` -/
def default : Arguments where
  inputs := []
  outputs := []
  outputPath := []
  threads := 0
  blockSize := defaultBlockSize
  flagsFmt := 0
  flagsUse := 0
  flagsNo := 0
  flagsOnly := 0
  flagsFinal := 0
  fast := false
  smallest := false
  crc := false
  decompress := false
  measure := false

/-! ## Output files -/

def slash : UInt8 := 0x2F

/-- `basename` of the C library. -/
def basename (path : Bytes) : Bytes :=
  if path = [] then
    text "."
  else
    let trimmed := path.reverse.dropWhile (· == slash)
    if trimmed = [] then
      [slash]
    else
      (trimmed.takeWhile (· != slash)).reverse

def toLower (byte : UInt8) : UInt8 :=
  if 0x41 ≤ byte ∧ byte ≤ 0x5A then byte + 0x20 else byte

def outputExt (args : Arguments) : Bytes :=
  if hasFlag args.flagsFmt taskflagFmtDax then text ".dax"
  else if hasFlag args.flagsFmt taskflagFmtZso then text ".zso"
  else text ".cso"

/-- The output that is added for an input, if any, where `getBasename` is
`get_basename` of the platform. -/
def derivedOutputOn (getBasename : Bytes → Bytes) (args : Arguments)
    (input : Bytes) : Option Bytes :=
  if input.length ≤ 4 then
    none
  else
    let ext := (input.drop (input.length - 4)).map toLower
    let inputRawExt := ext = text ".iso"
    let inputCompressedExt :=
      ext = text ".cso" ∨ ext = text ".zso" ∨ ext = text ".dax"
    let withoutExt := input.take (input.length - 4)
    let withoutExt :=
      if args.outputPath ≠ [] then args.outputPath ++ getBasename withoutExt
      else withoutExt
    -- Automatically switch extensions for convenience.
    if ¬ args.decompress ∧ (inputRawExt ∨ inputCompressedExt) ∧
        ext ≠ args.outputExt then
      some (withoutExt ++ args.outputExt)
    else if args.decompress ∧ inputCompressedExt then
      some (withoutExt ++ text ".iso")
    else
      none

def derivedOutput (args : Arguments) (input : Bytes) : Option Bytes :=
  args.derivedOutputOn basename input

/-- The part of `validate_args` about input and output files. -/
def validateFilesOn (getBasename : Bytes → Bytes) (args : Arguments) :
    Except String Arguments :=
  if args.inputs.length < args.outputs.length then
    .error "Too many output files."
  else if args.crc ∨ args.measure then
    if args.outputs ≠ [] then
      if args.crc then .error "Output files not used with --crc."
      else .error "Output files not used with --measure."
    else
      .ok args
  else
    let outputs := args.outputs ++
      (args.inputs.drop args.outputs.length).filterMap
        (args.derivedOutputOn getBasename)
    if args.inputs.length ≠ outputs.length then
      .error "Too few output files."
    else
      .ok { args with outputs := outputs }

def validateFiles (args : Arguments) : Except String Arguments :=
  args.validateFilesOn basename

/-! ## Flags -/

/-- The methods that are disabled by default. -/
def defaultFlags (args : Arguments) : Nat :=
  if hasFlag args.flagsFmt taskflagFmtCso2 then
    taskflagNoZopfli ||| taskflagNoLz4HcBrute
  else if hasFlag args.flagsFmt taskflagFmtZso then
    taskflagNoZlib ||| taskflagNo7Zip ||| taskflagNoZopfli |||
      taskflagNoLz4HcBrute ||| taskflagNoLibdeflate
  else
    -- We disable libdeflate because some CFW can't handle its output.
    taskflagNoZopfli ||| taskflagNoLibdeflate ||| taskflagNoLz4

/-- What `--fast` disables. -/
abbrev fastFlags : Nat :=
  taskflagNoZlibBrute ||| taskflagNoZopfli ||| taskflagNo7Zip |||
    taskflagNoLz4HcBrute ||| taskflagNoLz4Hc ||| taskflagNoLibdeflate

/-- The methods that are disabled in the end, before `--fast`. -/
def disabledFlags (args : Arguments) : Nat :=
  -- Kill any of the NO flags for the --use-METHOD args.
  let flags := without 32 args.defaultFlags args.flagsUse
  -- Then insert NO flags for --no-METHOD args.
  let flags := flags ||| args.flagsNo
  -- Lastly, if --only-METHOD was used, set all NOs and kill those NOs only.
  if args.flagsOnly ≠ 0 then
    without 32 (flags ||| taskflagNoAll) args.flagsOnly
  else
    flags

/-- A flag that is set on a condition. -/
def flagIf (condition : Bool) (flag : Nat) : Nat :=
  if condition then flag else 0

/-- The final flags. -/
def finalFlags (args : Arguments) : Nat :=
  args.disabledFlags ||| flagIf args.fast fastFlags |||
    flagIf args.smallest taskflagForceAll |||
    flagIf args.decompress taskflagDecompress |||
    flagIf args.measure taskflagMeasure ||| args.flagsFmt

/-- `deflateFlags` -/
abbrev deflateFlags : Nat :=
  taskflagNoZlib ||| taskflagNoZlibDefault ||| taskflagNoZlibBrute |||
    taskflagNoZopfli ||| taskflagNo7Zip ||| taskflagNoLibdeflate

/-- The part of `validate_args` about flags. -/
def validateFlags (args : Arguments) : Except String Arguments :=
  let args := { args with flagsFinal := args.finalFlags }
  if hasFlag args.flagsFmt taskflagFmtDax then
    -- DAX has a fixed block size.
    if args.blockSize ≠ defaultBlockSize then
      .error "Block size must be default for DAX."
    -- Currently, compression will fail if no DEFLATE format is enabled.
    else if args.flagsFinal &&& deflateFlags = deflateFlags then
      .error "DAX must use some kind of DEFLATE."
    else
      .ok args
  else
    .ok args

/-- `validate_args` on a machine with so many processors. -/
def validateArgsOn (getBasename : Bytes → Bytes) (processors : Int)
    (args : Arguments) : Except String Arguments :=
  let args :=
    if args.threads = 0 then { args with threads := processors } else args
  match args.validateFilesOn getBasename with
  | .error reason => .error reason
  | .ok args =>
      if args.inputs = [] then
        .error "No input files."
      else
        args.validateFlags

def validateArgs (processors : Int) (args : Arguments) :
    Except String Arguments :=
  args.validateArgsOn basename processors

end Arguments

end Maxcso
