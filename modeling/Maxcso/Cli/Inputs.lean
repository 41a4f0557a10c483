import Maxcso.Cli.Parsing

/-!
# Inputs of a command line

Which arguments `parse_args` takes as inputs: which of them are options, which
are values of options, and what follows a `--`.
-/

namespace Maxcso

namespace ParsedArguments

/-- The options that take the next argument as their value when they stand
alone. -/
def valueNames : List Bytes :=
  [text "--block", text "--threads", text "--orig-cost", text "--lz4-cost",
    text "--format", text "--output-path", text "--out", text "-o"]

/-- The arguments before a `--` that are neither options nor their values, and
all arguments after it.  The first one may be the value of an option. -/
def inputsOf : Bool → List Bytes → List Bytes
  | _, [] => []
  | true, _ :: rest => inputsOf false rest
  | false, arg :: rest =>
      if arg = text "--" then rest
      else if arg.head? = some dash then
        inputsOf (decide (arg ∈ valueNames)) rest
      else
        arg :: inputsOf false rest

/-- There is a `--` that is not the value of an option. -/
def separated : Bool → List Bytes → Bool
  | _, [] => false
  | true, _ :: rest => separated false rest
  | false, arg :: rest =>
      arg = text "--" || separated (decide (arg ∈ valueNames)) rest

/-! ## Tests -/

/-- What a test lets the loop do: it leaves the inputs alone, stops at `--`,
and takes the next argument after an option with a value. -/
def OptionTest.Sound (test : OptionTest) : Prop :=
  ∀ args arg next args' advance,
    test.run args arg next = some (.ok (args', advance)) →
      args'.inputs = args.inputs ∧ (advance = .stop ↔ arg = text "--") ∧
        (advance = .skip ↔ arg ∈ valueNames)

theorem map_eq_ok {α β : Type} {result : Except ParseFailure α} {f : α → β}
    {value : β} (same : result.map f = .ok value) :
    ∃ before, result = .ok before ∧ f before = value := by
  cases result with
  | error failure => exact nomatch same
  | ok before => exact ⟨before, rfl, Except.ok.inj same⟩

section

variable {name arg : Bytes}

theorem sound_arg
    {apply : ParsedArguments → Except ParseFailure ParsedArguments}
    (other : name ∉ text "--" :: valueNames)
    (keeps : ∀ args args', apply args = .ok args' →
      args'.inputs = args.inputs) :
    (OptionTest.arg name apply).Sound := by
  intro args arg next args' advance run
  rw [OptionTest.run] at run
  split at run
  · rename_i same
    obtain ⟨_, applied, same'⟩ := map_eq_ok (Option.some.inj run)
    obtain ⟨rfl, rfl⟩ := Prod.mk.inj same'
    rw [← same] at other
    refine ⟨keeps _ _ applied, iff_of_false nofun ?_, iff_of_false nofun ?_⟩
    · exact fun same => other (same ▸ List.mem_cons_self)
    · exact fun member => other (List.mem_cons_of_mem _ member)
  · exact nomatch run

/-- An option with a value stands alone, or its value follows it directly. -/
theorem hasArgValue_cases {next : Option Bytes} {val : Option Bytes}
    {taken : Bool} (found : hasArgValue name arg next = some (val, taken)) :
    (arg = name ∧ taken = true) ∨ (0x3D ∈ arg ∧ taken = false) := by
  unfold hasArgValue at found
  split at found
  · rename_i front
    obtain ⟨rest, rfl⟩ := List.isPrefixOf_iff_prefix.mp front
    split at found
    · rename_i length
      have none : rest = [] := by
        rw [List.length_append] at length
        exact List.length_eq_zero_iff.mp (by omega)
      obtain ⟨_, rfl⟩ := Prod.mk.inj (Option.some.inj found)
      exact Or.inl ⟨by rw [none, List.append_nil], rfl⟩
    · split at found
      · rename_i equals
        obtain ⟨_, rfl⟩ := Prod.mk.inj (Option.some.inj found)
        exact Or.inr ⟨List.mem_of_getElem? equals, rfl⟩
      · exact nomatch found
  · exact nomatch found

theorem sound_value
    {apply : ParsedArguments → Bytes → Except ParseFailure ParsedArguments}
    (member : name ∈ valueNames)
    (keeps : ∀ args val args', apply args val = .ok args' →
      args'.inputs = args.inputs) :
    (OptionTest.value name apply).Sound := by
  intro args arg next args' advance run
  rw [OptionTest.run] at run
  obtain ⟨⟨val, taken⟩, found, result⟩ := Option.map_eq_some_iff.mp run
  cases val with
  | none => exact nomatch result
  | some val =>
      obtain ⟨_, applied, same⟩ := map_eq_ok result
      obtain ⟨rfl, rfl⟩ := Prod.mk.inj same
      have names : ∀ other ∈ text "--" :: valueNames, 0x3D ∉ other := by
        decide
      refine ⟨keeps _ _ _ applied, ?_⟩
      rcases hasArgValue_cases found with ⟨rfl, rfl⟩ | ⟨equals, rfl⟩
      · have other : ∀ name ∈ valueNames, name ≠ text "--" := by decide
        exact ⟨iff_of_false nofun (other arg member), iff_of_true rfl member⟩
      · refine ⟨iff_of_false nofun ?_, iff_of_false nofun ?_⟩
        · exact fun same => names arg (same ▸ List.mem_cons_self) equals
        · exact fun member =>
            names arg (List.mem_cons_of_mem _ member) equals

theorem sound_method {apply : ParsedArguments → Nat → ParsedArguments}
    (other : ∀ value ∈ text "--" :: valueNames,
      name.isPrefixOf value = false)
    (keeps : ∀ args method, (apply args method).inputs = args.inputs) :
    (OptionTest.method name apply).Sound := by
  intro args arg next args' advance run
  rw [OptionTest.run] at run
  obtain ⟨method, found, result⟩ := Option.map_eq_some_iff.mp run
  obtain ⟨rfl, rfl⟩ := Prod.mk.inj (Except.ok.inj result)
  have front : name.isPrefixOf arg = true := by
    by_contra none
    rw [hasArgMethod, if_neg none] at found
    exact nomatch found
  refine ⟨keeps args _, iff_of_false nofun ?_, iff_of_false nofun ?_⟩
  · rintro rfl
    exact nomatch front.symm.trans (other _ List.mem_cons_self)
  · intro member
    exact nomatch front.symm.trans (other _ (List.mem_cons_of_mem _ member))

theorem sound_separator : OptionTest.separator.Sound := by
  intro args arg next args' advance run
  rw [OptionTest.run] at run
  split at run
  · rename_i same
    obtain ⟨rfl, rfl⟩ := Prod.mk.inj (Except.ok.inj (Option.some.inj run))
    refine ⟨rfl, iff_of_true rfl same, iff_of_false nofun ?_⟩
    rw [same]
    decide
  · exact nomatch run

end

theorem format_inputs (args : ParsedArguments) (val : Bytes)
    (args' : ParsedArguments) (applied : args.format val = .ok args') :
    args'.inputs = args.inputs := by
  unfold format at applied
  split at applied
  · exact congrArg (·.inputs) (Except.ok.inj applied).symm
  · split at applied
    · exact congrArg (·.inputs) (Except.ok.inj applied).symm
    · split at applied
      · exact congrArg (·.inputs) (Except.ok.inj applied).symm
      · split at applied
        · exact congrArg (·.inputs) (Except.ok.inj applied).symm
        · exact nomatch applied

theorem optionTests_sound : ∀ test ∈ optionTests, test.Sound := by
  have fails {failure : ParseFailure} (args args' : ParsedArguments)
      (applied : .error failure = Except.ok args') :
      args'.inputs = args.inputs :=
    nomatch applied
  have keeps {apply : ParsedArguments → ParsedArguments}
      (same : ∀ args, (apply args).inputs = args.inputs)
      (args args' : ParsedArguments)
      (applied : .ok (apply args) =
        (.ok args' : Except ParseFailure ParsedArguments)) :
      args'.inputs = args.inputs :=
    Except.ok.inj applied ▸ same args
  have keeps' {apply : ParsedArguments → Bytes → ParsedArguments}
      (same : ∀ args val, (apply args val).inputs = args.inputs)
      (args : ParsedArguments) (val : Bytes) (args' : ParsedArguments)
      (applied : .ok (apply args val) =
        (.ok args' : Except ParseFailure ParsedArguments)) :
      args'.inputs = args.inputs :=
    Except.ok.inj applied ▸ same args val
  unfold optionTests
  simp only [List.forall_mem_cons]
  refine ⟨sound_arg (by decide) fails,
    sound_arg (by decide) fails, sound_arg (by decide +kernel) fails,
    sound_arg (by decide) fails,
    sound_value (by decide) (keeps' fun _ _ => rfl),
    sound_value (by decide) (keeps' fun _ _ => rfl),
    sound_value (by decide) (keeps' fun _ _ => rfl),
    sound_value (by decide) (keeps' fun _ _ => rfl),
    sound_value (by decide) format_inputs,
    sound_arg (by decide) (keeps fun _ => rfl),
    sound_arg (by decide) (keeps fun _ => rfl),
    sound_arg (by decide) (keeps fun _ => rfl),
    sound_arg (by decide) (keeps fun _ => rfl),
    sound_arg (by decide) (keeps fun _ => rfl),
    sound_arg (by decide) (keeps fun _ => rfl),
    sound_method (by decide) fun _ _ => rfl,
    sound_method (by decide) fun _ _ => rfl,
    sound_method (by decide) fun _ _ => rfl,
    sound_value (by decide) (keeps' fun _ _ => rfl),
    sound_value (by decide) (keeps' fun _ _ => rfl),
    sound_value (by decide) (keeps' fun _ _ => rfl),
    sound_separator, fun _ member => nomatch member⟩

/-! ## The loop -/

section

variable {args parsed : ParsedArguments} {arg : Bytes}

/-- An argument that is not an option is an input. -/
theorem parseArgument_input (next : Option Bytes)
    (input : arg.head? ≠ some dash) :
    args.parseArgument arg next = .ok (args.addInputs [arg], .next) := by
  unfold parseArgument
  rw [if_neg input]

theorem parseArgument_option {next : Option Bytes} {advance : Advance}
    (option : arg.head? = some dash)
    (accepted : args.parseArgument arg next = .ok (parsed, advance)) :
    parsed.inputs = args.inputs ∧ (advance = .stop ↔ arg = text "--") ∧
      (advance = .skip ↔ arg ∈ valueNames) := by
  unfold parseArgument at accepted
  rw [if_pos option] at accepted
  split at accepted
  · rename_i result found
    obtain ⟨test, member, run⟩ := List.exists_of_findSome?_eq_some found
    exact optionTests_sound test member _ _ _ _ _ (accepted ▸ run)
  · exact nomatch accepted

theorem head_of_mem_names (member : arg ∈ text "--" :: valueNames) :
    arg.head? = some dash := by
  have all : ∀ name ∈ text "--" :: valueNames, name.head? = some dash := by
    decide
  exact all arg member

/-- The inputs are as they should be, but for one more if there is a
separator. -/
theorem parseFrom_inputs {skip : Bool} {rest : List Bytes}
    (accepted : parseFrom args skip rest = .ok parsed) :
    parsed.inputs.length = args.inputs.length +
        (inputsOf skip rest).length + (separated skip rest).toNat ∧
      (separated skip rest = false →
        parsed.inputs = args.inputs ++ inputsOf skip rest) := by
  induction rest generalizing args skip with
  | nil =>
      obtain rfl := Except.ok.inj (show Except.ok args = .ok parsed by
        cases skip <;> exact accepted)
      cases skip <;> exact ⟨rfl, fun _ => (List.append_nil _).symm⟩
  | cons arg rest inductionHypothesis =>
      cases skip with
      | true => exact inductionHypothesis accepted
      | false =>
          rw [parseFrom] at accepted
          by_cases option : arg.head? = some dash
          · rw [inputsOf, separated]
            split at accepted
            · exact nomatch accepted
            all_goals
              rename_i result
              obtain ⟨same, stops, skips⟩ :=
                parseArgument_option option result
            · have other : arg ≠ text "--" := fun same =>
                nomatch stops.mpr same
              have alone : arg ∉ valueNames := fun member =>
                nomatch skips.mpr member
              simp only [if_neg other, if_pos option, decide_eq_false other,
                alone, decide_false, Bool.false_or]
              rw [← same]
              exact inductionHypothesis accepted
            · have other : arg ≠ text "--" := fun same =>
                nomatch stops.mpr same
              simp only [if_neg other, if_pos option, decide_eq_false other,
                skips.mp rfl, decide_true, Bool.false_or]
              rw [← same]
              exact inductionHypothesis accepted
            · obtain rfl := stops.mp rfl
              obtain rfl := Except.ok.inj accepted
              simp only [addInputs, same, if_true, decide_true, Bool.true_or,
                List.length_append, List.length_cons, Bool.toNat_true]
              exact ⟨by omega, nofun⟩
          · have other : arg ∉ text "--" :: valueNames := fun member =>
              option (head_of_mem_names member)
            obtain ⟨other, alone⟩ := not_or.mp (mt List.mem_cons.mpr other)
            rw [parseArgument_input _ option] at accepted
            obtain ⟨length, same⟩ := inductionHypothesis accepted
            rw [inputsOf, separated, if_neg other, if_neg option]
            simp only [decide_eq_false other, alone, decide_false,
              Bool.false_or]
            simp only [addInputs, List.length_append, List.length_singleton,
              List.append_assoc, List.singleton_append] at length same
            exact ⟨by rw [length, List.length_cons]; omega, same⟩

end

/-- The inputs of an accepted command line are as they should be exactly when
it has no separator. -/
theorem inputs_of_command_line {argv : List Bytes}
    {parsed : ParsedArguments} (accepted : parseArgs argv = .ok parsed) :
    parsed.inputs = inputsOf false argv.tail ↔
      separated false argv.tail = false := by
  obtain ⟨length, same⟩ := parseFrom_inputs accepted
  constructor
  · intro exact_
    rw [exact_] at length
    cases found : separated false argv.tail with
    | false => rfl
    | true =>
        rw [found] at length
        simp [default, Arguments.default] at length
  · intro none
    exact same none

/-- An option takes the argument after it. -/
theorem inputs_of_command_line_value :
    ∃ parsed, parseArgs [text "maxcso", text "--threads", text "4",
        text "a.iso"] = .ok parsed ∧
      parsed.inputs = [text "a.iso"] :=
  ⟨_, rfl, (@inputs_of_command_line
    [text "maxcso", text "--threads", text "4", text "a.iso"] _ rfl).mpr
    (by decide)⟩

/-- The separator itself is taken as an input. -/
theorem separator_is_input :
    ¬ ∀ (argv : List Bytes) (parsed : ParsedArguments),
      parseArgs argv = .ok parsed →
        parsed.inputs = inputsOf false argv.tail := by
  intro all
  have wrong := all [text "maxcso", text "--", text "-a.iso"] _ rfl
  revert wrong
  decide

end ParsedArguments

end Maxcso
