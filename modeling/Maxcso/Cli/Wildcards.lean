import Mathlib.Algebra.GroupWithZero.Nat
import Mathlib.Data.List.Basic
import Mathlib.Tactic.Common

/-!
# Wildcards of a command line

`winglob.cpp`: which files an argument with wildcards stands for.  Texts are
lists of characters: between UTF-8 and UTF-16 only their encoding changes.
-/

namespace Maxcso

abbrev Text := List Char

instance : LawfulBEq Text := inferInstance

namespace Winglob

abbrev slash : Char := '/'
abbrev backslash : Char := '\\'

/-- The separators of `find_first_of(L"/\\", ...)`. -/
def isSeparator (character : Char) : Bool :=
  character = slash ∨ character = backslash

/-- `length` of a wide string. -/
def wideLength (text : Text) : Nat :=
  (text.map fun character => if character.toNat < 0x10000 then 1 else 2).sum

/-- `is_unc` -/
def isUnc (argw : Text) : Bool :=
  4 < argw.length ∧
    [backslash, backslash, '?', backslash].isPrefixOf argw = true

/-- `find_first_of(L"/\\", pos)`, where `none` is `npos`. -/
def findSeparator (argw : Text) (pos : Nat) : Option Nat :=
  ((argw.drop pos).findIdx? isSeparator).map (pos + ·)

theorem findSeparator_bounds
    {argw : Text} {pos next : Nat}
    (found : findSeparator argw pos = some next) :
    pos ≤ next ∧ next < argw.length := by
  obtain ⟨index, first, rfl⟩ := Option.map_eq_some_iff.mp found
  obtain ⟨inside, _⟩ := List.findIdx?_eq_some_iff_getElem.mp first
  rw [List.length_drop] at inside
  omega

/-- The loop of `split_components`, from a position on. -/
def splitFrom (argw : Text) (pos : Nat) : List Text :=
  match first : findSeparator argw pos with
  | none => [argw.drop pos]
  | some next =>
      if next = pos then
        -- Ignore doubled up slashes, i.e. C:\\Users\\\\Me.
        if pos ≠ 0 then
          splitFrom argw (pos + 1)
        else
          match second : findSeparator argw (pos + 1) with
          | none => [argw.drop pos]
          | some next =>
              (argw.drop pos).take (next - pos) :: splitFrom argw next
      else
        (argw.drop pos).take (next - pos) :: splitFrom argw next
termination_by argw.length - pos
decreasing_by
  · have := findSeparator_bounds first
    omega
  · have := findSeparator_bounds second
    omega
  · have := findSeparator_bounds first
    omega

/-- `split_components` -/
def splitComponents (argw : Text) : List Text :=
  if isUnc argw then
    -- This tells us specifically not to perform wildcard expansion.
    [argw]
  else
    splitFrom argw 0

/-- `find_base_context`, with the components that it leaves. -/
def findBaseContext : List Text → Text × List Text
  | [] => ([], [])
  | first :: rest =>
      if wideLength first = 2 ∧ first[1]? = some ':' then
        -- Is the first thing a drive letter?
        (first ++ [backslash], rest)
      else if first = [] then
        ([backslash], rest)
      else if rest = [] ∧ isUnc first = true then
        -- UNC path, use it as a context directly.
        (first, [])
      else
        ([], first :: rest)

/-- `.` and `..` -/
def dots : List Text := [['.'], ['.', '.']]

/-- A context as the front of a path. -/
def baseOf (context : Text) : Text :=
  if context = [] then [] else context ++ [backslash]

/-- `next_contexts`, where `find` is what `FindFirstFileW` and `FindNextFileW`
return: `none` is `INVALID_HANDLE_VALUE`. -/
def nextContexts (find : Text → Option (List Text)) (input : List Text)
    (component : Text) : List Text :=
  -- Special case for . or .. as the component.
  if component ∈ dots then
    input.map fun context => baseOf context ++ component
  else
    input.flatMap fun context =>
      let base := baseOf context
      match find (base ++ component) with
      | none => [base ++ component]
      | some names =>
          (names.filter (· ∉ dots)).map fun filename => base ++ filename

/-- `winargs_get_wildcard`: what it adds to the files. -/
def getWildcard (find : Text → Option (List Text)) (argw : Text) :
    List Text :=
  let (context, components) := findBaseContext (splitComponents argw)
  components.foldl (nextContexts find) [context]

end Winglob

end Maxcso
