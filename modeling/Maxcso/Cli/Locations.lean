import Maxcso.Library.PathPattern
import Maxcso.Cli.Wildcards

/-!
# Paths of Windows

What a path of Windows names: a root, and components that are looked up one
after the other.  `FindFirstFileW` and `FindNextFileW` list the entries of the
directory that the rest of a pattern names which match its last component.
-/

namespace Maxcso

namespace Winglob

/-! ## Locations -/

/-- What a path starts from. -/
inductive Root where
  /-- The current directory. -/
  | current
  /-- One separator: the root of the current drive. -/
  | rooted
  /-- A drive: its root, or its current directory. -/
  | drive (letter : Char) (absolute : Bool)
  /-- Two separators: a server. -/
  | network
  /-- The extended prefix. -/
  | extended
  deriving DecidableEq, Repr

structure Location where
  root : Root
  components : List Text
  deriving DecidableEq, Repr

/-- The text begins with a separator. -/
def separated (text : Text) : Bool :=
  (text.head?.map isSeparator).getD false

/-- What stands between separators. -/
def componentsOf (text : Text) : List Text :=
  (text.splitOnP isSeparator).filter (· ≠ [])

/-- The text begins with a drive. -/
def hasDrive (text : Text) : Bool :=
  (text.head?.map Char.isAlpha).getD false ∧ text[1]? = some ':'

/-- What a path names. -/
def locate (text : Text) : Location :=
  if isUnc text then
    ⟨.extended, componentsOf (text.drop 4)⟩
  else if hasDrive text then
    ⟨.drive (text.headD ' ') (separated (text.drop 2)),
      componentsOf (text.drop 2)⟩
  else
    ⟨if separated text then
        if separated text.tail then .network else .rooted
      else .current,
      componentsOf text⟩

/-! ## Files -/

def isWildcard (character : Char) : Bool :=
  character = '*' ∨ character = '?'

def hasWildcard (component : Text) : Bool :=
  component.any isWildcard

/-- A component of a path: it has neither separators nor a colon. -/
def IsPiece (component : Text) : Prop :=
  component ≠ [] ∧
    ∀ character ∈ component, isSeparator character = false ∧ character ≠ ':'

/-- A bare name of a file. -/
def IsName (name : Text) : Prop :=
  IsPiece name ∧ hasWildcard name = false ∧ name ∉ dots

/-- Which names a component matches: a name matches itself, `.` and `..` match
no bare name, and for every other component there are names that it matches. -/
structure Matcher where
  fits : Text → Text → Bool
  fits_self : ∀ name, IsName name → fits name name = true
  fits_dots : ∀ component ∈ dots, ∀ name, IsName name →
    fits component name = false
  fits_some : ∀ component, IsPiece component → component ∉ dots →
    ∃ name, IsName name ∧ fits component name = true

/-- The entries of directories, in the order in which they are found, and the
names for itself and its parent that a directory lists.  A component without
wildcards is the name of one entry at most. -/
structure FileSystem (matcher : Matcher) where
  entries : Location → List Text
  selfAndParent : Location → List Text
  names : ∀ directory, ∀ name ∈ entries directory, IsName name
  single : ∀ directory component, hasWildcard component = false →
    ∀ first ∈ entries directory, ∀ second ∈ entries directory,
      matcher.fits component first = true →
        matcher.fits component second = true → first = second
  dotted : ∀ directory, ∀ name ∈ selfAndParent directory, name ∈ dots

variable {matcher : Matcher}

/-- `FindFirstFileW` and `FindNextFileW` -/
def FileSystem.find (files : FileSystem matcher) (search : Text) :
    Option (List Text) :=
  let location := locate search
  let directory := ⟨location.root, location.components.dropLast⟩
  match location.components.getLast? with
  | none => none
  | some last =>
      if separated search.reverse then
        none
      else
        let found :=
          (if hasWildcard last then files.selfAndParent directory else []) ++
            (files.entries directory).filter (matcher.fits last)
        if found = [] then none else some found

/-- Looking up components from a root. -/
def FileSystem.lookup (files : FileSystem matcher) (root : Root) :
    PathPattern.Lookup Text where
  entries names := files.entries ⟨root, names⟩
  fits component name := matcher.fits component name = true
  fixed component := component ∈ dots

/-- The entries that a location stands for, component by component. -/
def FileSystem.Finds (files : FileSystem matcher) (location : Location)
    (names : List Text) : Prop :=
  PathPattern.Resolves (files.lookup location.root) location.components names

/-- A location without wildcards that exists. -/
def FileSystem.Names (files : FileSystem matcher) (location : Location)
    (names : List Text) : Prop :=
  (∀ component ∈ location.components, hasWildcard component = false) ∧
    files.Finds location names

/-- What an argument expands to stays where the argument is: every path that
names something names something that the argument stands for, from the same
root; everything that it stands for has such a path, unless it has the prefix
that is not expanded; and an argument that names something expands to paths
that name it. -/
structure KeepsLocation (files : FileSystem matcher) (argw : Text) :
    Prop where
  found : ∀ path ∈ getWildcard files.find argw, ∀ names,
    files.Names (locate path) names →
      (locate path).root = (locate argw).root ∧
        files.Finds (locate argw) names
  listed : (locate argw).root ≠ .extended → ∀ names,
    files.Finds (locate argw) names →
      ∃ path ∈ getWildcard files.find argw,
        (locate path).root = (locate argw).root ∧
          files.Names (locate path) names
  named : ∀ names, files.Names (locate argw) names →
    getWildcard files.find argw ≠ [] ∧
      ∀ path ∈ getWildcard files.find argw,
        (locate path).root = (locate argw).root ∧
          files.Names (locate path) names

/-- A path: only its drive has a colon, and the server of a network path is not
the question mark of the extended prefix. -/
def IsPath (argw : Text) : Prop :=
  match (locate argw).root with
  | .extended => True
  | .network => (∀ component ∈ (locate argw).components,
      IsPiece component) ∧ (locate argw).components.head? ≠ some ['?']
  | _ => ∀ component ∈ (locate argw).components, IsPiece component

/-- Arguments whose root is kept: those with a root that the first component
is no part of, and those whose first component is `.` or `..`. -/
def KeepsRoot (argw : Text) : Prop :=
  match locate argw with
  | ⟨.extended, _⟩ | ⟨.network, _⟩ | ⟨.drive _ true, _⟩ => True
  | ⟨.current, components⟩ => components ≠ []
  | ⟨.rooted, components⟩ =>
      ∀ first ∈ components.head?, first ∈ dots
  | ⟨.drive _ false, components⟩ => ∃ first ∈ components.head?, first ∈ dots

end Winglob

end Maxcso
