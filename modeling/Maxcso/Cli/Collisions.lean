import Mathlib.Data.List.Nodup
import Maxcso.Cli.Pairing
import Maxcso.Cli.Parsing

/-!
# Files of a batch

The outputs that an accepted command line leads to, and when two files of the
batch have the same name.
-/

namespace Maxcso

namespace Arguments

/-- No two outputs are the same file, and no output is an input. -/
def CollisionFree (args : Arguments) : Prop :=
  args.outputs.Nodup ∧ ∀ output ∈ args.outputs, output ∉ args.inputs

/-- The outputs that are given differ from each other and from all inputs, the
other inputs differ in their stems, and what is added for them is neither an
output that is given nor an input. -/
def Apart (args : Arguments) : Prop :=
  args.outputs.Nodup ∧ (∀ output ∈ args.outputs, output ∉ args.inputs) ∧
    (args.unpaired.map args.stem).Nodup ∧
    ∀ input ∈ args.unpaired,
      args.stem input ++ args.addedExt ∉ args.outputs ∧
        args.stem input ++ args.addedExt ∉ args.inputs

section

variable {args accepted : Arguments} {input output : Bytes}

/-- Without an output path, what is added for an input is another file. -/
theorem derivedOutput_ne (noPath : args.outputPath = [])
    (derived : args.derivedOutput input = some output) : output ≠ input := by
  rintro rfl
  have exts : ∀ ext ∈ [text ".iso", text ".cso", text ".zso", text ".dax"],
      ext.map toLower = ext ∧ ext.length = 4 := by
    decide
  have added : args.addedExt ∈
      [text ".iso", text ".cso", text ".zso", text ".dax"] := by
    unfold addedExt outputExt
    split
    · simp
    · split
      · simp
      · split <;> simp
  obtain ⟨lower, four⟩ := exts _ added
  have whole := derivedOutputOn_eq derived
  unfold derivedOutput derivedOutputOn at derived
  split at derived
  · exact nomatch derived
  · rename_i long
    have front : (args.stem output).length = output.length - 4 := by
      unfold stem stemOn
      rw [if_neg (not_not.mpr noPath), List.length_take]
      omega
    -- Its extension is the one that it is given.
    have last : (output.drop (output.length - 4)).map toLower =
        args.addedExt := by
      refine (congrArg (List.map toLower) ?_).trans lower
      conv_lhs => rw [whole]
      exact List.drop_left' (front.trans (by rw [← whole]))
    dsimp only at derived
    rw [last] at derived
    unfold addedExt at derived
    by_cases decompress : args.decompress = true
    · simp only [decompress, if_true] at derived
      revert derived
      simp [text]
    · simp [decompress] at derived

end

end Arguments

/-- The files of an accepted batch collide exactly when the outputs that are
given or the stems of the other inputs do; what is added for an input without
an output path is another file than the input. -/
theorem collisions_of_batch {argv : List Bytes} {parsed : ParsedArguments}
    (_parsed : ParsedArguments.parseArgs argv = .ok parsed)
    {processors : Int} {accepted : Arguments}
    (valid : parsed.toArguments.validateArgs processors = .ok accepted)
    (output : parsed.crc = false ∧ parsed.measure = false) :
    (accepted.CollisionFree ↔ parsed.toArguments.Apart) ∧
      (parsed.outputPath = [] → ∀ input ∈ parsed.toArguments.unpaired,
        ∀ derived ∈ parsed.toArguments.derivedOutput input,
          derived ≠ input) := by
  obtain ⟨inputs, _, outputs, _⟩ :=
    Arguments.validateArgsOn_outputs valid output
  simp only [← Arguments.stem.eq_1] at outputs
  refine ⟨?_, fun noPath input _ derived same =>
    Arguments.derivedOutput_ne noPath same⟩
  have stems : (parsed.toArguments.unpaired.map fun input =>
      parsed.toArguments.stem input ++ parsed.toArguments.addedExt).Nodup ↔
        (parsed.toArguments.unpaired.map parsed.toArguments.stem).Nodup := by
    have appends : Function.Injective
        fun stem : Bytes => stem ++ parsed.toArguments.addedExt :=
      fun _ _ same => List.append_cancel_right same
    refine Iff.trans ?_ (List.nodup_map_iff appends)
    rw [List.map_map]
    rfl
  unfold Arguments.CollisionFree Arguments.Apart
  rw [inputs, outputs, List.nodup_append, stems]
  simp only [List.mem_append, List.mem_map, or_imp, forall_and,
    forall_exists_index, and_imp, forall_apply_eq_imp_iff₂]
  constructor
  · rintro ⟨⟨given, apart, other⟩, away, away'⟩
    exact ⟨given, away, apart,
      fun input member inside => other _ inside input member rfl, away'⟩
  · rintro ⟨given, away, apart, other, away'⟩
    exact ⟨⟨given, apart, fun output inside input member same =>
      other input member (same ▸ inside)⟩, away, away'⟩

/-- Two inputs in one directory that differ in their names. -/
theorem collisions_of_batch_apart :
    ∃ parsed accepted, ParsedArguments.parseArgs [text "maxcso",
        text "a.iso", text "b.iso"] = .ok parsed ∧
      parsed.toArguments.validateArgs 4 = .ok accepted ∧
        accepted.CollisionFree :=
  ⟨_, _, rfl, rfl, (@collisions_of_batch
    [text "maxcso", text "a.iso", text "b.iso"] _ rfl 4 _ rfl
    ⟨rfl, rfl⟩).1.mpr (by
      unfold Arguments.Apart
      decide)⟩

/-- Two inputs that differ in their extensions only have the same output. -/
theorem same_stem_collides :
    ¬ ∀ (argv : List Bytes) (parsed : ParsedArguments) (processors : Int)
      (accepted : Arguments), ParsedArguments.parseArgs argv = .ok parsed →
        parsed.toArguments.validateArgs processors = .ok accepted →
          parsed.crc = false ∧ parsed.measure = false →
            accepted.CollisionFree := by
  intro apart
  have wrong := apart [text "maxcso", text "a.iso", text "a.zso"] _ 4 _ rfl
    rfl ⟨rfl, rfl⟩
  revert wrong
  unfold Arguments.CollisionFree
  decide

end Maxcso
