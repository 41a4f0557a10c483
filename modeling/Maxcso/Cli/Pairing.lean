import Maxcso.Cli

/-!
# Outputs of a command line

The outputs that `validate_args` adds for the inputs that none was given for.
-/

namespace Maxcso

namespace Arguments

/-- An input without its extension, under the output path if there is one. -/
def stemOn (getBasename : Bytes → Bytes) (args : Arguments)
    (input : Bytes) : Bytes :=
  let withoutExt := input.take (input.length - 4)
  if args.outputPath ≠ [] then args.outputPath ++ getBasename withoutExt
  else withoutExt

def stem (args : Arguments) (input : Bytes) : Bytes :=
  args.stemOn basename input

/-- The extension of the outputs that are added. -/
def addedExt (args : Arguments) : Bytes :=
  if args.decompress then text ".iso" else args.outputExt

/-- The extension of a file in lower case. -/
def extension (input : Bytes) : Bytes :=
  (input.drop (input.length - 4)).map toLower

def knownExts : List Bytes :=
  [text ".iso", text ".cso", text ".zso", text ".dax"]

/-- The inputs that no output was given for. -/
def unpaired (args : Arguments) : List Bytes :=
  args.inputs.drop args.outputs.length

section

variable {getBasename : Bytes → Bytes}
variable {args accepted : Arguments} {input output : Bytes}

/-- What is added for an input. -/
theorem derivedOutputOn_eq
    (derived : args.derivedOutputOn getBasename input = some output) :
    output = args.stemOn getBasename input ++ args.addedExt := by
  unfold derivedOutputOn at derived
  split at derived
  · exact nomatch derived
  · dsimp only at derived
    unfold addedExt
    split at derived
    · rename_i compresses
      rw [if_neg compresses.1]
      exact (Option.some.inj derived).symm
    · split at derived
      · rename_i decompresses
        rw [if_pos decompresses.1]
        exact (Option.some.inj derived).symm
      · exact nomatch derived

/-- Outputs are added for inputs with another extension that is known. -/
theorem derivedOutputOn_known
    (derived : args.derivedOutputOn getBasename input = some output) :
    4 < input.length ∧ extension input ∈ knownExts ∧
      extension input ≠ args.addedExt := by
  unfold derivedOutputOn at derived
  split at derived
  · exact nomatch derived
  · rename_i long
    dsimp only at derived
    rw [← extension] at derived
    unfold addedExt
    split at derived
    · rename_i compresses
      rw [if_neg compresses.1]
      refine ⟨Nat.lt_of_not_le long, ?_, compresses.2.2⟩
      simpa only [knownExts, List.mem_cons, List.not_mem_nil, or_false]
        using compresses.2.1
    · split at derived
      · rename_i decompresses
        rw [if_pos decompresses.1]
        have compressed : extension input ∈
            [text ".cso", text ".zso", text ".dax"] := by
          simpa only [List.mem_cons, List.not_mem_nil, or_false]
            using decompresses.2
        refine ⟨Nat.lt_of_not_le long,
          List.mem_cons_of_mem _ compressed, ?_⟩
        have other : ∀ ext ∈ [text ".cso", text ".zso", text ".dax"],
            ext ≠ text ".iso" := by
          decide
        exact other _ compressed
      · exact nomatch derived

/-- An output is added for every input that has none. -/
theorem validateFilesOn_outputs
    (valid : args.validateFilesOn getBasename = .ok accepted)
    (output : args.crc = false ∧ args.measure = false) :
    accepted.inputs = args.inputs ∧
      (∀ input ∈ args.unpaired, args.derivedOutputOn getBasename input =
        some (args.stemOn getBasename input ++ args.addedExt)) ∧
      accepted.outputs = args.outputs ++
        (args.unpaired.map fun input =>
          args.stemOn getBasename input ++ args.addedExt) ∧
      args.outputs.length ≤ args.inputs.length := by
  unfold validateFilesOn at valid
  split at valid
  · exact nomatch valid
  · rename_i enough
    have writes : ¬ (args.crc = true ∨ args.measure = true) := by
      simp [output.1, output.2]
    rw [if_neg writes] at valid
    dsimp only at valid
    split at valid
    · exact nomatch valid
    · rename_i same
      obtain rfl := Except.ok.inj valid
      rw [List.length_append] at same
      have all : (args.unpaired.filterMap
          (args.derivedOutputOn getBasename)).length =
            args.unpaired.length := by
        have length := List.length_drop (i := args.outputs.length)
          (l := args.inputs)
        unfold unpaired
        omega
      rw [List.filterMap_length_eq_length] at all
      have each : ∀ input ∈ args.unpaired, args.derivedOutputOn getBasename input =
          some (args.stemOn getBasename input ++ args.addedExt) := by
        intro input member
        obtain ⟨output, derived⟩ := Option.isSome_iff_exists.mp
          (all input member)
        rw [derived, derivedOutputOn_eq derived]
      refine ⟨rfl, each, congrArg (args.outputs ++ ·) ?_,
        Nat.not_lt.mp enough⟩
      exact (List.filterMap_congr each).trans
        (congrFun List.filterMap_eq_map' _)

theorem validateArgsOn_outputs {processors : Int}
    (valid : args.validateArgsOn getBasename processors = .ok accepted)
    (output : args.crc = false ∧ args.measure = false) :
    accepted.inputs = args.inputs ∧
      (∀ input ∈ args.unpaired, args.derivedOutputOn getBasename input =
        some (args.stemOn getBasename input ++ args.addedExt)) ∧
      accepted.outputs = args.outputs ++
        (args.unpaired.map fun input =>
          args.stemOn getBasename input ++ args.addedExt) ∧
      args.outputs.length ≤ args.inputs.length := by
  unfold validateArgsOn at valid
  dsimp only at valid
  split at valid
  · exact nomatch valid
  · rename_i checked files
    have paired : checked.inputs = args.inputs ∧
        (∀ input ∈ args.unpaired, args.derivedOutputOn getBasename input =
          some (args.stemOn getBasename input ++ args.addedExt)) ∧
        checked.outputs = args.outputs ++
          (args.unpaired.map fun input =>
            args.stemOn getBasename input ++ args.addedExt) ∧
        args.outputs.length ≤ args.inputs.length := by
      split at files
      · exact @validateFilesOn_outputs getBasename
          { args with threads := processors } _ files output
      · exact validateFilesOn_outputs files output
    have kept : accepted.inputs = checked.inputs ∧
        accepted.outputs = checked.outputs := by
      split at valid
      · exact nomatch valid
      · unfold validateFlags at valid
        dsimp only at valid
        split at valid
        · split at valid
          · exact nomatch valid
          · split at valid
            · exact nomatch valid
            · obtain rfl := Except.ok.inj valid
              exact ⟨rfl, rfl⟩
        · obtain rfl := Except.ok.inj valid
          exact ⟨rfl, rfl⟩
    rw [kept.1, kept.2]
    exact paired

end

end Arguments

/-- The extension of the files of a format. -/
def CsoFormat.extension : CsoFormat → Bytes
  | cso1 | cso2 => text ".cso"
  | zso => text ".zso"
  | dax => text ".dax"

theorem Arguments.outputExt_of_format
    {args : Arguments} {format : CsoFormat}
    (chosen : args.flagsFmt = format.flag) :
    args.outputExt = format.extension := by
  rw [outputExt, chosen]
  cases format <;> rfl

/-- The outputs of accepted arguments belong to their inputs: those that were
given come first, and each of the others is made from the input at its
place. -/
structure Paired (getBasename : Bytes → Bytes) (args accepted : Arguments)
    (newExt : Bytes) : Prop where
  inputs : accepted.inputs = args.inputs
  length : accepted.outputs.length = args.inputs.length
  given : accepted.outputs.take args.outputs.length = args.outputs
  derived : ∀ i input, args.outputs.length ≤ i →
    args.inputs[i]? = some input →
      accepted.outputs[i]? =
        some ((if args.outputPath ≠ [] then
            args.outputPath ++ getBasename (input.take (input.length - 4))
          else input.take (input.length - 4)) ++ newExt)
  named : ∀ i input, args.outputs.length ≤ i →
    args.inputs[i]? = some input →
      4 < input.length ∧
        Arguments.extension input ∈ Arguments.knownExts ∧
        Arguments.extension input ≠ newExt

/-- Whatever `basename` does, outputs stay paired with their inputs. -/
theorem outputs_stay_paired
    (getBasename : Bytes → Bytes) (processors : Int) (format : CsoFormat)
    {args accepted : Arguments} (chosen : args.flagsFmt = format.flag)
    (valid : args.validateArgsOn getBasename processors = .ok accepted)
    (output : args.crc = false ∧ args.measure = false) :
    Paired getBasename args accepted
      (if args.decompress then text ".iso" else format.extension) := by
  obtain ⟨inputs, derived, outputs, enough⟩ :=
    Arguments.validateArgsOn_outputs valid output
  have added : args.addedExt =
      if args.decompress then text ".iso" else format.extension := by
    rw [Arguments.addedExt, Arguments.outputExt_of_format chosen]
  rw [← added]
  have unpaired {i : Nat} {input : Bytes} (later : args.outputs.length ≤ i)
      (found : args.inputs[i]? = some input) :
      args.unpaired[i - args.outputs.length]? = some input := by
    rw [Arguments.unpaired, List.getElem?_drop, Nat.add_sub_cancel' later]
    exact found
  constructor
  · exact inputs
  · rw [outputs, List.length_append, List.length_map, Arguments.unpaired,
      List.length_drop, Nat.add_sub_cancel' enough]
  · rw [outputs, List.take_left]
  · intro i input later found
    rw [outputs, List.getElem?_append_right later, List.getElem?_map,
      unpaired later found]
    rfl
  · intro i input later found
    exact Arguments.derivedOutputOn_known
      (derived input (List.mem_of_getElem? (unpaired later found)))

/-- A second input next to an explicit output, under an output path. -/
theorem outputs_stay_paired_twoInputs :
    Paired Arguments.basename
      { Arguments.default with
        inputs := [text "a.cso", text "in/b.CSO"]
        outputs := [text "c.iso"]
        outputPath := text "out/"
        decompress := true }
      { Arguments.default with
        inputs := [text "a.cso", text "in/b.CSO"]
        outputs := [text "c.iso", text "out/b.iso"]
        outputPath := text "out/"
        threads := 4
        flagsFinal := 0x1784
        decompress := true }
      (text ".iso") :=
  outputs_stay_paired Arguments.basename 4 .cso1 rfl rfl ⟨rfl, rfl⟩

end Maxcso
