import Maxcso.Cli.Inputs

/-!
# The argument vector

`parse_args` with the array that it reads: `argv[argc]` is a null pointer, and
nothing may be read after it.  An option that stands alone takes the next
element as its value without asking whether there is one.
-/

namespace Maxcso

/-- How `parse_args` ends without arguments. -/
inductive ParseStop where
  | returned (failure : ParseFailure)
  /-- The null pointer at the end is used as a text. -/
  | nullText
  /-- An element after the null pointer is read. -/
  | outside
  deriving DecidableEq, Repr

namespace ArgumentVector

open ParsedArguments

/-- `argv[i]`, where `none` is the null pointer. -/
def element (argv : List Bytes) (i : Nat) :
    Except ParseStop (Option Bytes) :=
  if i ≤ argv.length then .ok argv[i]? else .error .outside

/-- A text that may be the null pointer. -/
def pointee : Option Bytes → Except ParseStop Bytes
  | some text => .ok text
  | none => .error .nullText

/-- A failure as a way to stop. -/
def stopping {α : Type} : Except ParseFailure α → Except ParseStop α
  | .ok value => .ok value
  | .error .nullValue => .error .nullText
  | .error failure => .error (.returned failure)

/-- `has_arg_value`, with whether it has advanced the index. -/
def hasArgValue (argv : List Bytes) (i : Nat) (name : Bytes) :
    Except ParseStop (Option (Option Bytes × Bool)) := do
  let arg ← pointee (← element argv i)
  if name.isPrefixOf arg then
    if arg.length = name.length then
      let val ← element argv (i + 1)
      return some (val, true)
    else if arg[name.length]? = some 0x3D then
      return some (some (arg.drop (name.length + 1)), false)
    else
      return none
  else
    return none

/-- A test of the chain at an index. -/
def runTest (argv : List Bytes) (args : ParsedArguments) (i : Nat) :
    OptionTest → Except ParseStop (Option (ParsedArguments × Advance))
  | .arg name apply => do
      let arg ← pointee (← element argv i)
      if arg = name then
        let args ← stopping (apply args)
        return some (args, .next)
      else
        return none
  | .value name apply => do
      match ← hasArgValue argv i name with
      | none => return none
      | some (val, taken) =>
          let args ← stopping (apply args (← pointee val))
          return some (args, if taken then .skip else .next)
  | .method name apply => do
      let arg ← pointee (← element argv i)
      match hasArgMethod name arg with
      | some method => return some (apply args method.flag, .next)
      | none => return none
  | .separator => do
      let arg ← pointee (← element argv i)
      if arg = text "--" then return some (args, .stop) else return none

/-- The chain of tests. -/
def runTests (argv : List Bytes) (args : ParsedArguments) (i : Nat) :
    List OptionTest → Except ParseStop (ParsedArguments × Advance)
  | [] => do
      let arg ← pointee (← element argv i)
      throw (.returned (.error (text "Unknown argument: " ++ arg)))
  | test :: tests => do
      match ← runTest argv args i test with
      | some result => return result
      | none => runTests argv args i tests

/-- The second loop, from an index on. -/
def addRest (argv : List Bytes) (args : ParsedArguments) (i : Nat) :
    Except ParseStop ParsedArguments := do
  if i < argv.length then
    let arg ← pointee (← element argv i)
    addRest argv (args.addInputs [arg]) (i + 1)
  else
    return args
termination_by argv.length - i

/-- The loops of `parse_args`, from an index on. -/
def parseFrom (argv : List Bytes) (args : ParsedArguments) (i : Nat) :
    Except ParseStop ParsedArguments := do
  if i < argv.length then
    let arg ← pointee (← element argv i)
    if arg.head? = some dash then
      match ← runTests argv args i optionTests with
      | (args, .next) => parseFrom argv args (i + 1)
      | (args, .skip) => parseFrom argv args (i + 2)
      | (args, .stop) => addRest argv args i
    else
      parseFrom argv (args.addInputs [arg]) (i + 1)
  else
    return args
termination_by argv.length - i

/-- `parse_args` -/
def parseArgs (argv : List Bytes) : Except ParseStop ParsedArguments :=
  parseFrom argv default 1

/-! ## The list of arguments -/

section

variable {argv : List Bytes} {i : Nat}

theorem element_eq (inside : i ≤ argv.length) :
    element argv i = .ok argv[i]? :=
  if_pos inside

theorem textAt_eq (inside : i < argv.length) :
    (element argv i >>= pointee) = .ok argv[i] := by
  rw [element_eq (Nat.le_of_lt inside), List.getElem?_eq_getElem inside]
  rfl

/-- The element after an argument is an argument or the null pointer. -/
theorem hasArgValue_eq (inside : i < argv.length) (name : Bytes) :
    hasArgValue argv i name =
      .ok (ParsedArguments.hasArgValue name argv[i] argv[i + 1]?) := by
  unfold hasArgValue ParsedArguments.hasArgValue
  rw [← bind_assoc, textAt_eq inside, element_eq inside]
  dsimp only [bind, Except.bind]
  split
  · split
    · rfl
    · split <;> rfl
  · rfl

theorem runTest_eq (inside : i < argv.length) (args : ParsedArguments)
    (test : OptionTest) :
    runTest argv args i test =
      match test.run args argv[i] argv[i + 1]? with
      | none => .ok none
      | some result => (stopping result).map some := by
  cases test with
  | arg name apply =>
      rw [runTest, OptionTest.run, ← bind_assoc, textAt_eq inside]
      dsimp only [bind, Except.bind]
      split
      · cases apply args with
        | ok args => rfl
        | error failure => cases failure <;> rfl
      · rfl
  | value name apply =>
      rw [runTest, OptionTest.run, hasArgValue_eq inside]
      dsimp only [bind, Except.bind]
      cases ParsedArguments.hasArgValue name argv[i] argv[i + 1]? with
      | none => rfl
      | some found =>
          obtain ⟨val, taken⟩ := found
          cases val with
          | none => rfl
          | some val =>
              dsimp only [pointee, Option.map_some]
              cases apply args val with
              | ok args => rfl
              | error failure => cases failure <;> rfl
  | method name apply =>
      rw [runTest, OptionTest.run, ← bind_assoc, textAt_eq inside]
      dsimp only [bind, Except.bind]
      cases hasArgMethod name argv[i] <;> rfl
  | separator =>
      rw [runTest, OptionTest.run, ← bind_assoc, textAt_eq inside]
      dsimp only [bind, Except.bind]
      split <;> rfl

theorem runTests_eq (inside : i < argv.length) (args : ParsedArguments)
    (tests : List OptionTest) :
    runTests argv args i tests =
      match tests.findSome? (OptionTest.run args argv[i] argv[i + 1]?) with
      | some result => stopping result
      | none =>
          .error (.returned (.error (text "Unknown argument: " ++ argv[i])))
          := by
  induction tests with
  | nil =>
      rw [runTests, ← bind_assoc, textAt_eq inside]
      rfl
  | cons test tests inductionHypothesis =>
      rw [runTests, runTest_eq inside, List.findSome?_cons]
      cases test.run args argv[i] argv[i + 1]? with
      | none => exact inductionHypothesis
      | some result =>
          cases result with
          | ok after => rfl
          | error failure => cases failure <;> rfl

theorem addRest_eq (args : ParsedArguments) :
    addRest argv args i = .ok (args.addInputs (argv.drop i)) := by
  induction left : argv.length - i generalizing args i with
  | zero =>
      rw [addRest, if_neg (by omega), List.drop_eq_nil_of_le (by omega)]
      simp [ParsedArguments.addInputs, pure, Except.pure]
  | succ left inductionHypothesis =>
      have inside : i < argv.length := by omega
      rw [addRest, if_pos inside, ← bind_assoc, textAt_eq inside,
        List.drop_eq_getElem_cons inside]
      refine (inductionHypothesis _ (by omega)).trans ?_
      simp [ParsedArguments.addInputs]

theorem parseFrom_skip (args : ParsedArguments) (rest : List Bytes) :
    ParsedArguments.parseFrom args true rest =
      ParsedArguments.parseFrom args false rest.tail := by
  cases rest with
  | nil => rfl
  | cons arg rest => rfl

/-- The loops over indices are the loops over the list. -/
theorem parseFrom_eq (args : ParsedArguments) :
    parseFrom argv args i =
      stopping (ParsedArguments.parseFrom args false (argv.drop i)) := by
  induction left : argv.length - i using Nat.strongRecOn
    generalizing args i with
  | ind left inductionHypothesis =>
      by_cases inside : i < argv.length
      · have next (args : ParsedArguments) :=
          inductionHypothesis _ (by omega) args (i := i + 1) rfl
        have skip (args : ParsedArguments) :=
          inductionHypothesis _ (by omega) args (i := i + 2) rfl
        rw [parseFrom, if_pos inside, ← bind_assoc, textAt_eq inside,
          List.drop_eq_getElem_cons inside, ParsedArguments.parseFrom,
          parseArgument, List.head?_drop]
        dsimp only [bind, Except.bind]
        by_cases option : argv[i].head? = some dash
        · rw [if_pos option, if_pos option, runTests_eq inside]
          cases optionTests.findSome?
              (OptionTest.run args argv[i] argv[i + 1]?) with
          | none => rfl
          | some result =>
              cases result with
              | error failure => cases failure <;> rfl
              | ok after =>
                  obtain ⟨args, advance⟩ := after
                  cases advance with
                  | next => exact next args
                  | skip =>
                      refine (skip args).trans ?_
                      dsimp only
                      rw [parseFrom_skip, List.tail_drop]
                  | stop =>
                      refine (addRest_eq args).trans ?_
                      rw [List.drop_eq_getElem_cons inside]
                      rfl
        · rw [if_neg option, if_neg option]
          exact next _
      · rw [parseFrom, if_neg inside,
          List.drop_eq_nil_of_le (Nat.not_lt.mp inside)]
        rfl

theorem parseArgs_eq (argv : List Bytes) :
    parseArgs argv = stopping (ParsedArguments.parseArgs argv) := by
  rw [parseArgs, parseFrom_eq, List.drop_one]
  rfl

end

/-! ## What an option needs -/

/-- The options without a value, other than those that end the parsing. -/
def plainNames : List Bytes :=
  [text "--crc", text "--quiet", text "--fast", text "--smallest",
    text "--decompress", text "--measure"] ++
  [text "--use-", text "--no-", text "--only-"].flatMap fun front =>
    [text "zlib", text "zopfli", text "7zdeflate", text "7zip", text "lz4",
      text "lz4brute", text "libdeflate"].map (front ++ ·)

def formatNames : List Bytes :=
  [text "cso1", text "cso2", text "zso", text "dax"]

/-- An option up to its value. -/
def nameOf (arg : Bytes) : Bytes :=
  arg.takeWhile (· ≠ 0x3D)

/-- The value of an option, which may be the next argument. -/
def valueOf (arg : Bytes) (next : Option Bytes) : Option Bytes :=
  if 0x3D ∈ arg then some (arg.drop ((nameOf arg).length + 1)) else next

/-- What an option comes to. -/
inductive Verdict where
  | accepted
  | separator
  /-- It needs a value and there is none. -/
  | valueless
  /-- It ends the parsing. -/
  | refused
  deriving DecidableEq, Repr

def verdict (arg : Bytes) (next : Option Bytes) : Verdict :=
  if arg = text "--" then .separator
  else if arg ∈ plainNames then .accepted
  else if nameOf arg ∈ valueNames then
    match valueOf arg next with
    | none => .valueless
    | some val =>
        if nameOf arg = text "--format" ∧ val ∉ formatNames then .refused
        else .accepted
  else .refused

def Verdict.ofResult :
    Except ParseFailure (ParsedArguments × Advance) → Verdict
  | .ok (_, .stop) => .separator
  | .ok _ => .accepted
  | .error .nullValue => .valueless
  | .error _ => .refused

/-- The last argument is an option that needs a value.  The first argument may
be a value itself. -/
def endsValueless : Bool → List Bytes → Bool
  | _, [] => false
  | true, _ :: rest => endsValueless false rest
  | false, arg :: rest =>
      if arg = text "--" then false
      else if arg ∈ valueNames then rest.isEmpty || endsValueless true rest
      else endsValueless false rest

/-- An option before a separator ends the parsing. -/
def endsEarly : Bool → List Bytes → Bool
  | _, [] => false
  | true, _ :: rest => endsEarly false rest
  | false, arg :: rest =>
      if arg.head? = some dash then
        match verdict arg rest.head? with
        | .refused => true
        | .accepted => endsEarly (decide (arg ∈ valueNames)) rest
        | .separator | .valueless => false
      else
        endsEarly false rest

/-- A test holds for an argument. -/
def Holds (arg : Bytes) : OptionTest → Bool
  | .arg name _ => arg = name
  | .value name _ => nameOf arg = name
  | .method name _ => (hasArgMethod name arg).isSome
  | .separator => arg = text "--"

/-- A test that holds comes to what the argument is. -/
def Judges (test : OptionTest) : Prop :=
  ∀ args arg next,
    match test.run args arg next with
    | some result => Verdict.ofResult result = verdict arg next
    | none => Holds arg test = false

section

variable {name arg : Bytes}

theorem nameOf_append (plain : 0x3D ∉ name) (rest : Bytes) :
    nameOf (name ++ rest) = name ++ nameOf rest := by
  apply List.takeWhile_append_of_pos
  intro byte member
  rw [decide_eq_true_eq]
  rintro rfl
  exact plain member

theorem nameOf_of_notMem (plain : 0x3D ∉ arg) : nameOf arg = arg := by
  have whole := nameOf_append plain []
  rwa [List.append_nil, show nameOf [] = [] from rfl, List.append_nil]
    at whole

/-- An option with a value is known by its name. -/
theorem hasArgValue_eq_ite (plain : 0x3D ∉ name) (next : Option Bytes) :
    ParsedArguments.hasArgValue name arg next =
      if nameOf arg = name then
        some (valueOf arg next, decide (0x3D ∉ arg))
      else none := by
  unfold ParsedArguments.hasArgValue
  by_cases front : name.isPrefixOf arg = true
  · rw [if_pos front]
    obtain ⟨rest, rfl⟩ := List.isPrefixOf_iff_prefix.mp front
    rw [nameOf_append plain, valueOf]
    cases rest with
    | nil =>
        simp [nameOf, plain]
    | cons byte rest =>
        by_cases equals : byte = 0x3D
        · subst equals
          have named : nameOf (0x3D :: rest) = [] := rfl
          simp [nameOf_append plain, named, List.drop_append]
        · simp [nameOf, equals]
  · rw [if_neg front, if_neg]
    intro named
    apply front
    rw [List.isPrefixOf_iff_prefix, ← named]
    exact List.takeWhile_prefix _

theorem head_not_plain {names : List Bytes}
    (options : ∀ name ∈ names, 0x3D ∉ name ∧ name ∉ plainNames ∧
      name ≠ text "--") (member : nameOf arg ∈ names) :
    arg ≠ text "--" ∧ arg ∉ plainNames := by
  have plain : ∀ name ∈ text "--" :: plainNames, 0x3D ∉ name := by
    decide
  obtain ⟨_, apart, other⟩ := options _ member
  constructor
  · intro same
    rw [nameOf_of_notMem (same ▸ plain _ List.mem_cons_self)] at other
    exact other same
  · intro among
    rw [nameOf_of_notMem (plain _ (List.mem_cons_of_mem _ among))] at apart
    exact apart among

theorem valueNames_apart : ∀ name ∈ valueNames, 0x3D ∉ name ∧
    name ∉ plainNames ∧ name ≠ text "--" := by
  decide

/-- An option with a value is what its value makes it. -/
theorem verdict_value (member : nameOf arg ∈ valueNames)
    (next : Option Bytes) :
    verdict arg next =
      match valueOf arg next with
      | none => .valueless
      | some val =>
          if nameOf arg = text "--format" ∧ val ∉ formatNames then .refused
          else .accepted := by
  obtain ⟨other, apart⟩ := head_not_plain valueNames_apart member
  rw [verdict, if_neg other, if_neg apart, if_pos member]

theorem verdict_plain (member : arg ∈ plainNames) (next : Option Bytes) :
    verdict arg next = .accepted := by
  have other : ∀ name ∈ plainNames, name ≠ text "--" := by decide
  rw [verdict, if_neg (other _ member), if_pos member]

theorem ofResult_taken (args : ParsedArguments) (taken : Bool) :
    Verdict.ofResult (.ok (args, if taken then .skip else .next)) =
      .accepted := by
  cases taken <;> rfl

theorem judges_plain
    {apply : ParsedArguments → ParsedArguments}
    (member : name ∈ plainNames) :
    Judges (.arg name fun args => .ok (apply args)) := by
  intro args arg next
  rw [OptionTest.run]
  by_cases same : arg = name
  · rw [if_pos same]
    exact (verdict_plain (same ▸ member) next).symm
  · rw [if_neg same]
    exact decide_eq_false same

theorem judges_ending {failure : ParseFailure}
    (ends : failure ≠ .nullValue)
    (other : name ∉ plainNames ∧ name ≠ text "--" ∧
      nameOf name ∉ valueNames) :
    Judges (.arg name fun _ => .error failure) := by
  intro args arg next
  rw [OptionTest.run]
  by_cases same : arg = name
  · rw [if_pos same, same, verdict, if_neg other.2.1, if_neg other.1,
      if_neg other.2.2]
    cases failure with
    | nullValue => exact absurd rfl ends
    | help => rfl
    | version => rfl
    | error reason => rfl
  · rw [if_neg same]
    exact decide_eq_false same

theorem judges_value
    {apply : ParsedArguments → Bytes → ParsedArguments}
    (member : name ∈ valueNames) (other : name ≠ text "--format") :
    Judges (.value name fun args val => .ok (apply args val)) := by
  intro args arg next
  rw [OptionTest.run, hasArgValue_eq_ite (valueNames_apart _ member).1]
  by_cases same : nameOf arg = name
  · rw [if_pos same, verdict_value (same ▸ member)]
    dsimp only [Option.map_some]
    cases valueOf arg next with
    | none => rfl
    | some val =>
        have plain : ¬ (nameOf arg = text "--format" ∧ val ∉ formatNames) :=
          fun both => other (same.symm.trans both.1)
        dsimp only
        rw [if_neg plain]
        exact ofResult_taken _ _
  · rw [if_neg same]
    exact decide_eq_false same

theorem judges_format : Judges (.value (text "--format") format) := by
  have member : text "--format" ∈ valueNames := by decide
  intro args arg next
  rw [OptionTest.run, hasArgValue_eq_ite (valueNames_apart _ member).1]
  by_cases same : nameOf arg = text "--format"
  · rw [if_pos same, verdict_value (same ▸ member)]
    dsimp only [Option.map_some]
    cases valueOf arg next with
    | none => rfl
    | some val =>
        have known (args' : ParsedArguments) (member : val ∈ formatNames) :
            Verdict.ofResult
                (.ok (args', if decide (0x3D ∉ arg) then .skip else .next)) =
              if nameOf arg = text "--format" ∧ val ∉ formatNames then
                .refused
              else .accepted := by
          rw [ofResult_taken, if_neg (not_and_not_right.mpr fun _ => member)]
        dsimp only [format]
        by_cases first : val = text "cso1"
        · rw [if_pos first]
          exact known _ (by simp [formatNames, first])
        · by_cases second : val = text "cso2"
          · rw [if_neg first, if_pos second]
            exact known _ (by simp [formatNames, second])
          · by_cases third : val = text "zso"
            · rw [if_neg first, if_neg second, if_pos third]
              exact known _ (by simp [formatNames, third])
            · by_cases fourth : val = text "dax"
              · rw [if_neg first, if_neg second, if_neg third,
                  if_pos fourth]
                exact known _ (by simp [formatNames, fourth])
              · have unknown : val ∉ formatNames := by
                  simp [formatNames, first, second, third, fourth]
                rw [if_neg first, if_neg second, if_neg third,
                  if_neg fourth]
                simp only [same, unknown, not_false_eq_true, and_self,
                  if_true]
                rfl
  · rw [if_neg same]
    exact decide_eq_false same

/-- The methods that a test knows are all known. -/
theorem mem_plainNames_of_method
    (front : name ∈ [text "--use-", text "--no-", text "--only-"])
    {method : Method} (found : hasArgMethod name arg = some method) :
    arg ∈ plainNames := by
  unfold hasArgMethod at found
  split at found
  · rename_i prefixed
    obtain ⟨rest, rfl⟩ := List.isPrefixOf_iff_prefix.mp prefixed
    rw [List.drop_left] at found
    dsimp only at found
    have known : rest ∈ [text "zlib", text "zopfli", text "7zdeflate",
        text "7zip", text "lz4", text "lz4brute", text "libdeflate"] := by
      by_contra other
      simp only [List.mem_cons, List.not_mem_nil, or_false, not_or] at other
      obtain ⟨first, second, third, fourth, fifth, sixth, last⟩ := other
      rw [if_neg first, if_neg second, if_neg (not_or.mpr ⟨third, fourth⟩),
        if_neg fifth, if_neg sixth, if_neg last] at found
      exact nomatch found
    apply List.mem_append_right
    exact List.mem_flatMap.mpr
      ⟨name, front, List.mem_map.mpr ⟨rest, known, rfl⟩⟩
  · exact nomatch found

theorem judges_method {apply : ParsedArguments → Nat → ParsedArguments}
    (front : name ∈ [text "--use-", text "--no-", text "--only-"]) :
    Judges (.method name apply) := by
  intro args arg next
  rw [OptionTest.run]
  cases found : hasArgMethod name arg with
  | none =>
      dsimp only [Option.map_none]
      rw [Holds, found]
      rfl
  | some method =>
      exact (verdict_plain (mem_plainNames_of_method front found) next).symm

theorem judges_separator : Judges .separator := by
  intro args arg next
  rw [OptionTest.run]
  by_cases same : arg = text "--"
  · rw [if_pos same, verdict, if_pos same]
    rfl
  · rw [if_neg same]
    exact decide_eq_false same

theorem optionTests_judge : ∀ test ∈ optionTests, Judges test := by
  unfold optionTests
  simp only [List.forall_mem_cons]
  refine ⟨judges_ending nofun (by decide),
    judges_ending nofun (by decide),
    judges_ending nofun (by decide),
    judges_ending nofun (by decide),
    judges_value (by decide) (by decide +kernel),
    judges_value (by decide) (by decide +kernel),
    judges_value (by decide) (by decide +kernel),
    judges_value (by decide) (by decide +kernel), judges_format,
    judges_plain (by decide), judges_plain (by decide +kernel),
    judges_plain (by decide), judges_plain (by decide +kernel),
    judges_plain (by decide), judges_plain (by decide +kernel),
    judges_method (by decide), judges_method (by decide +kernel),
    judges_method (by decide),
    judges_value (by decide) (by decide +kernel),
    judges_value (by decide) (by decide +kernel),
    judges_value (by decide) (by decide +kernel),
    judges_separator, fun _ member => nomatch member⟩

/-- An argument for which no test holds is not an option. -/
theorem verdict_of_no_test (next : Option Bytes)
    (none : ∀ test ∈ optionTests, Holds arg test = false) :
    verdict arg next = .refused := by
  have away : optionTests.any (Holds arg) = false :=
    List.any_eq_false.mpr fun test member =>
      Bool.not_eq_true _ ▸ none test member
  have other : arg ≠ text "--" := by
    rintro rfl
    revert away
    decide
  have apart : arg ∉ plainNames := by
    intro member
    have all : ∀ name ∈ plainNames, optionTests.any (Holds name) = true := by
      decide
    rw [all arg member] at away
    exact nomatch away
  have unnamed : nameOf arg ∉ valueNames := by
    intro member
    have all : ∀ name ∈ valueNames, optionTests.any (fun
        | .value other _ => name = other
        | _ => false) = true := by
      decide
    obtain ⟨test, among, same⟩ := List.any_eq_true.mp (all _ member)
    cases test with
    | value name apply =>
        exact Bool.noConfusion (same.symm.trans (none _ among))
    | arg name apply => exact nomatch same
    | method name apply => exact nomatch same
    | separator => exact nomatch same
  rw [verdict, if_neg other, if_neg apart, if_neg unnamed]

/-- What the body of the loop comes to for an option. -/
theorem parseArgument_verdict (args : ParsedArguments)
    (next : Option Bytes) (option : arg.head? = some dash) :
    Verdict.ofResult (args.parseArgument arg next) = verdict arg next := by
  rw [parseArgument, if_pos option]
  cases found : optionTests.findSome? (OptionTest.run args arg next) with
  | none =>
      refine (verdict_of_no_test next fun test member => ?_).symm
      have judged := optionTests_judge test member args arg next
      rwa [List.findSome?_eq_none_iff.mp found test member] at judged
  | some result =>
      obtain ⟨test, member, run⟩ := List.exists_of_findSome?_eq_some found
      have judged := optionTests_judge test member args arg next
      rwa [run] at judged

/-- An option lacks its value exactly when it is the last argument and stands
alone. -/
theorem verdict_eq_valueless_iff (next : Option Bytes) :
    verdict arg next = .valueless ↔ arg ∈ valueNames ∧ next = none := by
  constructor
  · intro same
    by_cases member : nameOf arg ∈ valueNames
    · rw [verdict_value member, valueOf] at same
      by_cases equals : 0x3D ∈ arg
      · rw [if_pos equals] at same
        dsimp only at same
        split at same <;> exact nomatch same
      · rw [if_neg equals] at same
        rw [nameOf_of_notMem equals] at member
        cases next with
        | none => exact ⟨member, rfl⟩
        | some val =>
            dsimp only at same
            split at same <;> exact nomatch same
    · rw [verdict, if_neg member] at same
      split at same
      · exact nomatch same
      · split at same <;> exact nomatch same
  · rintro ⟨member, rfl⟩
    have plain := (valueNames_apart _ member).1
    rw [verdict_value ((nameOf_of_notMem plain).symm ▸ member), valueOf,
      if_neg plain]

/-- Arguments end early, lack a value at the end, or are accepted. -/
theorem parseFrom_ends {args : ParsedArguments} {skip : Bool}
    {rest : List Bytes} :
    match endsEarly skip rest, endsValueless skip rest with
    | true, _ => ∃ failure, failure ≠ .nullValue ∧
        ParsedArguments.parseFrom args skip rest = .error failure
    | false, true =>
        ParsedArguments.parseFrom args skip rest = .error .nullValue
    | false, false => ∃ parsed,
        ParsedArguments.parseFrom args skip rest = .ok parsed := by
  induction rest generalizing args skip with
  | nil => cases skip <;> exact ⟨args, rfl⟩
  | cons arg rest inductionHypothesis =>
      cases skip with
      | true => exact inductionHypothesis
      | false =>
          rw [endsEarly, endsValueless, ParsedArguments.parseFrom]
          by_cases option : arg.head? = some dash
          · have judged := parseArgument_verdict args rest.head? option
            rw [if_pos option]
            cases result : args.parseArgument arg rest.head? with
            | error failure =>
                rw [result] at judged
                cases failure with
                | nullValue =>
                    obtain ⟨member, last⟩ :=
                      (verdict_eq_valueless_iff _).mp judged.symm
                    obtain rfl := List.head?_eq_none_iff.mp last
                    have other := (valueNames_apart _ member).2.2
                    rw [← judged, if_neg other, if_pos member]
                    rfl
                | help =>
                    rw [← judged]
                    exact ⟨.help, ParseFailure.noConfusion, rfl⟩
                | version =>
                    rw [← judged]
                    exact ⟨.version, ParseFailure.noConfusion, rfl⟩
                | error reason =>
                    rw [← judged]
                    exact ⟨.error reason, ParseFailure.noConfusion, rfl⟩
            | ok after =>
                obtain ⟨args', advance⟩ := after
                obtain ⟨_, stops, skips⟩ :=
                  parseArgument_option option result
                rw [result] at judged
                cases advance with
                | stop =>
                    rw [← judged, if_pos (stops.mp rfl)]
                    exact ⟨_, rfl⟩
                | next =>
                    have alone : arg ∉ valueNames := fun member =>
                      Advance.noConfusion (skips.mpr member)
                    have other : arg ≠ text "--" := fun same =>
                      Advance.noConfusion (stops.mpr same)
                    rw [← judged, if_neg other, if_neg alone]
                    simp only [Verdict.ofResult, alone, decide_false]
                    exact inductionHypothesis
                | skip =>
                    have member := skips.mp rfl
                    have other : arg ≠ text "--" := fun same =>
                      Advance.noConfusion (stops.mpr same)
                    have more : rest.isEmpty = false := by
                      by_contra last
                      have lacks := (verdict_eq_valueless_iff
                        rest.head?).mpr ⟨member, by simpa using last⟩
                      rw [← judged] at lacks
                      cases lacks
                    rw [← judged, if_neg other, if_pos member, more]
                    simp only [Verdict.ofResult, member, decide_true,
                      Bool.false_or]
                    exact inductionHypothesis
          · have away : arg ∉ text "--" :: valueNames := fun member =>
              option (head_of_mem_names member)
            obtain ⟨other, alone⟩ := not_or.mp (mt List.mem_cons.mpr away)
            rw [if_neg option, if_neg other, if_neg alone,
              parseArgument_input _ option]
            exact inductionHypothesis

end

/-- No element is taken as a value that is not there, none is read after the
null pointer, and an option that lacks its value leads to an error. -/
structure ValuesExist (argv : List Bytes) : Prop where
  noNull : parseArgs argv ≠ .error .nullText
  noElementAfter : parseArgs argv ≠ .error .outside
  fails : endsValueless false argv.tail = true →
    ∃ failure, parseArgs argv = .error (.returned failure)

/-- Values exist exactly when an option that lacks one comes after another
option that ends the parsing. -/
theorem option_values_exist (argv : List Bytes) :
    ValuesExist argv ↔
      (endsValueless false argv.tail = true →
        endsEarly false argv.tail = true) := by
  have ends := @parseFrom_ends default false argv.tail
  have parsed := parseArgs_eq argv
  rw [ParsedArguments.parseArgs] at parsed
  constructor
  · intro exist lacks
    by_contra late
    rw [Bool.not_eq_true] at late
    rw [lacks, late] at ends
    rw [ends] at parsed
    exact exist.noNull parsed
  · intro early
    cases first : endsEarly false argv.tail with
    | true =>
        rw [first] at ends
        obtain ⟨failure, other, ends⟩ := ends
        rw [ends] at parsed
        have returned : parseArgs argv = .error (.returned failure) := by
          cases failure with
          | nullValue => exact absurd rfl other
          | help => exact parsed
          | version => exact parsed
          | error reason => exact parsed
        exact ⟨by rw [returned]; nofun, by rw [returned]; nofun,
          fun _ => ⟨failure, returned⟩⟩
    | false =>
        have enough : endsValueless false argv.tail = false := by
          by_contra lacks
          rw [Bool.not_eq_false] at lacks
          exact Bool.noConfusion (first.symm.trans (early lacks))
        rw [first, enough] at ends
        obtain ⟨args, ends⟩ := ends
        rw [ends] at parsed
        exact ⟨by rw [parsed]; nofun, by rw [parsed]; nofun,
          fun lacks => nomatch enough.symm.trans lacks⟩

/-- The null pointer is taken as the block size. -/
theorem block_size_null :
    ¬ ∀ argv : List Bytes, ValuesExist argv := by
  intro all
  apply (all [text "maxcso", text "--block"]).noNull
  rw [parseArgs_eq]
  rfl

end ArgumentVector

end Maxcso
