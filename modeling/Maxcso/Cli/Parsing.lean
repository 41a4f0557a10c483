import Maxcso.Cli

/-!
# Parsing the command line

`parse_args`: a loop over the arguments, in which an option may take the
argument after it, and a loop over what follows a `--`.
-/

namespace Maxcso

/-- `Arguments` with what `validate_args` does not look at.  A cost is the text
that `atof` was given, if any. -/
structure ParsedArguments extends Arguments where
  origCostPercent : Option Bytes
  lz4CostPercent : Option Bytes
  quiet : Bool

/-- How `parse_args` ends when it does not accept the arguments. -/
inductive ParseFailure where
  | help
  | version
  | error (reason : Bytes)
  /-- The terminating null pointer was taken as the value of an option. -/
  | nullValue
  deriving DecidableEq, Repr

abbrev dash : UInt8 := 0x2D

namespace ParsedArguments

/-- `default_args` -/
def default : ParsedArguments :=
  { Arguments.default with
    origCostPercent := none
    lz4CostPercent := none
    quiet := false }

/-! ## Numbers -/

def isSpace (byte : UInt8) : Bool :=
  byte = 0x20 ∨ (0x09 ≤ byte ∧ byte ≤ 0x0D)

def isDigit (byte : UInt8) : Bool :=
  0x30 ≤ byte ∧ byte ≤ 0x39

/-- The value of the digits at the front. -/
def digits (bytes : Bytes) : Nat :=
  (bytes.takeWhile isDigit).foldl
    (fun value digit => 10 * value + (digit.toNat - 0x30)) 0

/-- `atoi`: what `strtol` makes of the text, as an `int`. -/
def atoi (bytes : Bytes) : Int :=
  let trimmed := bytes.dropWhile isSpace
  let long : Int :=
    match trimmed with
    | 0x2D :: rest => max (-digits rest) (-2 ^ 63)
    | 0x2B :: rest => min (digits rest) (2 ^ 63 - 1)
    | _ => min (digits trimmed) (2 ^ 63 - 1)
  (long + 2 ^ 31) % 2 ^ 32 - 2 ^ 31

/-! ## Options -/

/-- What follows an option's name in an argument, when it is an option with a
value: the value, and whether it is the argument after it. -/
def hasArgValue (name arg : Bytes) (next : Option Bytes) :
    Option (Option Bytes × Bool) :=
  if name.isPrefixOf arg then
    if arg.length = name.length then
      some (next, true)
    else if arg[name.length]? = some 0x3D then
      some (some (arg.drop (name.length + 1)), false)
    else
      none
  else
    none

/-- `has_arg_method` -/
def hasArgMethod (name arg : Bytes) : Option Method :=
  if name.isPrefixOf arg then
    let val := arg.drop name.length
    if val = text "zlib" then some .zlib
    else if val = text "zopfli" then some .zopfli
    else if val = text "7zdeflate" ∨ val = text "7zip" then some .sevenZip
    else if val = text "lz4" then some .lz4
    else if val = text "lz4brute" then some .lz4Brute
    else if val = text "libdeflate" then some .libdeflate
    else none
  else
    none

/-- How the loop goes on after an argument. -/
inductive Advance where
  | next
  /-- The argument after it has been taken as a value. -/
  | skip
  | stop
  deriving DecidableEq, Repr

/-- A test of the chain in `parse_args`, and what is done when it holds. -/
inductive OptionTest where
  | arg (name : Bytes)
      (apply : ParsedArguments → Except ParseFailure ParsedArguments)
  | value (name : Bytes)
      (apply : ParsedArguments → Bytes →
        Except ParseFailure ParsedArguments)
  | method (name : Bytes) (apply : ParsedArguments → Nat → ParsedArguments)
  | separator

def format (args : ParsedArguments) (val : Bytes) :
    Except ParseFailure ParsedArguments :=
  if val = text "cso1" then
    .ok { args with flagsFmt := 0 }
  else if val = text "cso2" then
    .ok { args with flagsFmt := taskflagFmtCso2 }
  else if val = text "zso" then
    .ok { args with flagsFmt := taskflagFmtZso }
  else if val = text "dax" then
    .ok { args with flagsFmt := taskflagFmtDax }
  else
    .error (.error (text "Unknown format " ++ val ++
      text ", expecting cso1, cso2, or zso."))

/-- Don't treat this as just a prefix, it's confusing with the basename
behavior. -/
def outputPathOf (val : Bytes) : Bytes :=
  if 1 ≤ val.length ∧ val.getLast? ≠ some Arguments.slash then
    val ++ [Arguments.slash]
  else
    val

def optionTests : List OptionTest :=
  [.arg (text "--help") fun _ => .error .help,
    .arg (text "-h") fun _ => .error .help,
    .arg (text "--version") fun _ => .error .version,
    .arg (text "-v") fun _ => .error .version,
    .value (text "--block") fun args val =>
      .ok { args with blockSize := toUint32 (atoi val) },
    .value (text "--threads") fun args val =>
      .ok { args with threads := atoi val },
    .value (text "--orig-cost") fun args val =>
      .ok { args with origCostPercent := some val },
    .value (text "--lz4-cost") fun args val =>
      .ok { args with lz4CostPercent := some val },
    .value (text "--format") format,
    .arg (text "--crc") fun args => .ok { args with crc := true },
    .arg (text "--quiet") fun args => .ok { args with quiet := true },
    .arg (text "--fast") fun args => .ok { args with fast := true },
    .arg (text "--smallest") fun args => .ok { args with smallest := true },
    .arg (text "--decompress") fun args =>
      .ok { args with decompress := true },
    .arg (text "--measure") fun args => .ok { args with measure := true },
    .method (text "--use-") fun args method =>
      { args with flagsUse := args.flagsUse ||| method },
    .method (text "--no-") fun args method =>
      { args with flagsNo := args.flagsNo ||| method },
    .method (text "--only-") fun args method =>
      { args with flagsOnly := args.flagsOnly ||| method },
    .value (text "--output-path") fun args val =>
      .ok { args with outputPath := outputPathOf val },
    .value (text "--out") fun args val =>
      .ok { args with outputs := args.outputs ++ [args.outputPath ++ val] },
    .value (text "-o") fun args val =>
      .ok { args with outputs := args.outputs ++ [args.outputPath ++ val] },
    .separator]

/-- One test of the chain: `none` when it does not hold. -/
def OptionTest.run (args : ParsedArguments) (arg : Bytes)
    (next : Option Bytes) :
    OptionTest → Option (Except ParseFailure (ParsedArguments × Advance))
  | .arg name apply =>
      if arg = name then
        some ((apply args).map fun args => (args, .next))
      else
        none
  | .value name apply =>
      (hasArgValue name arg next).map fun (val, taken) =>
        match val with
        | none => .error .nullValue
        | some val =>
            (apply args val).map fun args =>
              (args, if taken then .skip else .next)
  | .method name apply =>
      (hasArgMethod name arg).map fun method =>
        .ok (apply args method.flag, .next)
  | .separator =>
      if arg = text "--" then some (.ok (args, .stop)) else none

/-- `wildcard_to_inputs` where it does not expand anything. -/
def addInputs (args : ParsedArguments) (files : List Bytes) :
    ParsedArguments :=
  { args with inputs := args.inputs ++ files }

/-- The body of the loop of `parse_args`. -/
def parseArgument (args : ParsedArguments) (arg : Bytes)
    (next : Option Bytes) :
    Except ParseFailure (ParsedArguments × Advance) :=
  if arg.head? = some dash then
    match optionTests.findSome? (OptionTest.run args arg next) with
    | some result => result
    | none => .error (.error (text "Unknown argument: " ++ arg))
  else
    .ok (args.addInputs [arg], .next)

/-- The loops of `parse_args` from an argument on, where the first argument
may have been taken as a value.  The second loop starts at the argument at
which the first one stopped. -/
def parseFrom : ParsedArguments → Bool → List Bytes →
    Except ParseFailure ParsedArguments
  | args, _, [] => .ok args
  | args, true, _ :: rest => parseFrom args false rest
  | args, false, arg :: rest =>
      match args.parseArgument arg rest.head? with
      | .error failure => .error failure
      | .ok (args, .next) => parseFrom args false rest
      | .ok (args, .skip) => parseFrom args true rest
      | .ok (args, .stop) => .ok (args.addInputs (arg :: rest))

/-- `parse_args`; the first element is the name of the program. -/
def parseArgs (argv : List Bytes) : Except ParseFailure ParsedArguments :=
  parseFrom default false argv.tail

end ParsedArguments

end Maxcso
