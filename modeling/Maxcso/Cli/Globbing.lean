import Mathlib.Data.List.Forall2
import Maxcso.Cli.Locations

/-!
# Expanding wildcards

How the components of a path come out of `split_components`, what the contexts
of `next_contexts` name, and which arguments keep their root.
-/

namespace Maxcso

namespace Winglob

/-! ## Components -/

section

variable {text word rest : Text} {separator : Char}

theorem separator_cases (text : Text) :
    (∀ character ∈ text, isSeparator character = false) ∨
      ∃ word separator rest, text = word ++ separator :: rest ∧
        (∀ character ∈ word, isSeparator character = false) ∧
        isSeparator separator = true := by
  induction text with
  | nil => exact Or.inl nofun
  | cons head text inductionHypothesis =>
      cases first : isSeparator head with
      | true => exact Or.inr ⟨[], head, text, rfl, nofun, first⟩
      | false =>
          rcases inductionHypothesis with
            none | ⟨word, separator, rest, rfl, plain, found⟩
          · exact Or.inl (List.forall_mem_cons.mpr ⟨first, none⟩)
          · exact Or.inr ⟨head :: word, separator, rest, rfl,
              List.forall_mem_cons.mpr ⟨first, plain⟩, found⟩

/-- Components on both sides of a separator. -/
theorem componentsOf_append (found : isSeparator separator = true)
    (text rest : Text) :
    componentsOf (text ++ separator :: rest) =
      componentsOf text ++ componentsOf rest := by
  unfold componentsOf
  rw [List.splitOnP_append_cons text rest found, List.filter_append]

theorem componentsOf_nil : componentsOf [] = [] := rfl

theorem componentsOf_cons (found : isSeparator separator = true)
    (rest : Text) :
    componentsOf (separator :: rest) = componentsOf rest :=
  componentsOf_append found [] rest

theorem componentsOf_word
    (plain : ∀ character ∈ word, isSeparator character = false)
    (some : word ≠ []) : componentsOf word = [word] := by
  unfold componentsOf
  rw [List.splitOnP_eq_singleton plain]
  simp [some]

theorem separated_cons (separator : Char) (rest : Text) :
    separated (separator :: rest) = isSeparator separator := rfl

/-- A text that does not begin with a separator has components. -/
theorem componentsOf_of_word
    (plain : ∀ character ∈ word, isSeparator character = false)
    (some : word ≠ []) (found : isSeparator separator = true) :
    componentsOf (word ++ separator :: rest) = word :: componentsOf rest := by
  rw [componentsOf_append found, componentsOf_word plain some]
  rfl

/-- A text without components ends with a separator. -/
theorem separated_of_componentsOf_nil (none : componentsOf text = []) :
    text = [] ∨ separated text.reverse = true := by
  induction text with
  | nil => exact Or.inl rfl
  | cons head text inductionHypothesis =>
      right
      cases first : isSeparator head with
      | true =>
          rw [componentsOf_cons first] at none
          rcases inductionHypothesis none with rfl | ends
          · exact first
          · rw [List.reverse_cons]
            cases backwards : text.reverse with
            | nil => exact first
            | cons last front =>
                rw [backwards] at ends
                exact ends
      | false =>
          exfalso
          rcases separator_cases (head :: text) with
            plain | ⟨word, separator, rest, same, plain, found⟩
          · rw [componentsOf_word plain (List.cons_ne_nil _ _)] at none
            exact List.cons_ne_nil _ _ none
          · have some : word ≠ [] := by
              rintro rfl
              rw [List.nil_append] at same
              rw [(List.cons.inj same).1, found] at first
              exact nomatch first
            rw [same, componentsOf_of_word plain some found] at none
            exact List.cons_ne_nil _ _ none

/-! ## Splitting -/

/-- What `split_components` makes of the rest of a text after a component. -/
def tailOf (text : Text) : List Text :=
  componentsOf text ++
    if text = [] ∨ separated text.reverse = true then [[]] else []

theorem findSeparator_none {argw : Text} {pos : Nat}
    (plain : ∀ character ∈ argw.drop pos, isSeparator character = false) :
    findSeparator argw pos = none := by
  rw [findSeparator, List.findIdx?_eq_none_iff.mpr plain]
  rfl

theorem findSeparator_some {argw : Text} {pos : Nat}
    (same : argw.drop pos = word ++ separator :: rest)
    (plain : ∀ character ∈ word, isSeparator character = false)
    (found : isSeparator separator = true) :
    findSeparator argw pos = some (pos + word.length) := by
  have index : (argw.drop pos).findIdx? isSeparator = some word.length := by
    rw [same, List.findIdx?_append, List.findIdx?_eq_none_iff.mpr plain,
      List.findIdx?_cons, found]
    simp
  rw [findSeparator, index]
  rfl

theorem separated_reverse (some : rest ≠ []) (front : Text) :
    separated (front ++ rest).reverse = separated rest.reverse := by
  rw [List.reverse_append]
  cases backwards : rest.reverse with
  | nil => exact absurd (List.reverse_eq_nil_iff.mp backwards) some
  | cons last front => rfl

theorem tailOf_cons (found : isSeparator separator = true) (rest : Text) :
    tailOf (separator :: rest) = tailOf rest := by
  unfold tailOf
  rw [componentsOf_cons found]
  cases rest with
  | nil =>
      have ends : separated [separator].reverse = true := found
      rw [if_pos (Or.inr ends), if_pos (Or.inl rfl)]
  | cons head rest =>
      have ends := separated_reverse (List.cons_ne_nil head rest) [separator]
      rw [List.singleton_append] at ends
      simp only [ends, List.cons_ne_nil, false_or]

theorem tailOf_word
    (plain : ∀ character ∈ word, isSeparator character = false)
    (some : word ≠ []) (found : isSeparator separator = true)
    (rest : Text) :
    tailOf (word ++ separator :: rest) = word :: tailOf (separator :: rest) := by
  unfold tailOf
  rw [componentsOf_of_word plain some found, componentsOf_cons found,
    separated_reverse (List.cons_ne_nil separator rest)]
  simp

/-- From a later position on, `split_components` yields components. -/
theorem splitFrom_eq {argw : Text} {pos : Nat} (later : pos ≠ 0) :
    splitFrom argw pos = tailOf (argw.drop pos) := by
  induction left : argw.length - pos using Nat.strongRecOn
    generalizing pos with
  | ind left inductionHypothesis =>
      rw [splitFrom]
      rcases separator_cases (argw.drop pos) with
        plain | ⟨word, separator, rest, same, plain, found⟩
      · rw [findSeparator_none plain]
        unfold tailOf
        by_cases none : argw.drop pos = []
        · rw [none]
          rfl
        · have ends : separated (argw.drop pos).reverse = false := by
            cases backwards : (argw.drop pos).reverse with
            | nil => rfl
            | cons last front =>
                apply plain
                rw [← List.mem_reverse, backwards]
                exact List.mem_cons_self
          rw [componentsOf_word plain none, ends]
          simp [none]
      · have bounds := congrArg List.length same
        rw [List.length_drop, List.length_append, List.length_cons] at bounds
        rw [findSeparator_some same plain found]
        dsimp only
        by_cases empty : word = []
        · subst empty
          rw [List.nil_append] at same
          have next : argw.drop (pos + 1) = rest := by
            rw [← List.tail_drop, same]
            rfl
          have here : pos + ([] : Text).length = pos := rfl
          rw [if_pos here, if_pos later,
            inductionHypothesis _ (by omega) (Nat.succ_ne_zero _) rfl, next,
            same, tailOf_cons found]
        · have positive := List.length_pos_iff.mpr empty
          have next : argw.drop (pos + word.length) = separator :: rest := by
            rw [← List.drop_drop, same, List.drop_left]
          rw [if_neg (by omega), Nat.add_sub_cancel_left,
            inductionHypothesis _ (by omega) (by omega) rfl, next, same,
            List.take_left, tailOf_word plain empty found]

theorem splitFrom_plain
    (plain : ∀ character ∈ text, isSeparator character = false) :
    splitFrom text 0 = [text] := by
  rw [splitFrom, @findSeparator_none text 0 plain]
  rfl

theorem splitFrom_word
    (plain : ∀ character ∈ word, isSeparator character = false)
    (some : word ≠ []) (found : isSeparator separator = true)
    (rest : Text) :
    splitFrom (word ++ separator :: rest) 0 =
      word :: tailOf (separator :: rest) := by
  have positive := List.length_pos_iff.mpr some
  rw [splitFrom, @findSeparator_some word rest separator _ 0 rfl plain found]
  dsimp only
  rw [if_neg (by omega), splitFrom_eq (by omega), List.drop_zero,
    Nat.sub_zero, Nat.zero_add, List.take_left, List.drop_left]

/-- The first component keeps a separator that it begins with. -/
theorem splitFrom_separated
    (first : isSeparator separator = true)
    (plain : ∀ character ∈ word, isSeparator character = false) :
    splitFrom (separator :: word) 0 = [separator :: word] := by
  rw [splitFrom, @findSeparator_some [] word separator
    (separator :: word) 0 rfl nofun first]
  dsimp only
  have here : 0 + ([] : Text).length = 0 := rfl
  rw [if_pos here, if_neg (not_not.mpr rfl),
    @findSeparator_none (separator :: word) (0 + 1) plain]
  rfl

theorem splitFrom_separated_word {second : Char}
    (first : isSeparator separator = true)
    (plain : ∀ character ∈ word, isSeparator character = false)
    (found : isSeparator second = true) (rest : Text) :
    splitFrom (separator :: (word ++ second :: rest)) 0 =
      (separator :: word) :: tailOf (second :: rest) := by
  rw [splitFrom, @findSeparator_some [] (word ++ second :: rest) separator
    (separator :: (word ++ second :: rest)) 0 rfl nofun first]
  dsimp only
  have here : 0 + ([] : Text).length = 0 := rfl
  rw [if_pos here, if_neg (not_not.mpr rfl),
    @findSeparator_some word rest second
      (separator :: (word ++ second :: rest)) (0 + 1) rfl plain found]
  dsimp only
  rw [splitFrom_eq (by omega), List.drop_zero, Nat.sub_zero, Nat.zero_add,
    Nat.add_comm 1, List.take_succ_cons, List.take_left, List.drop_succ_cons,
    List.drop_left]

/-! ## Locations -/

theorem isPiece_singleton {character : Char}
    (plain : isSeparator character = false) (other : character ≠ ':') :
    IsPiece [character] :=
  ⟨List.cons_ne_nil _ _, List.forall_mem_singleton.mpr ⟨plain, other⟩⟩

theorem isPiece_of_mem_dots {component : Text} (fixed : component ∈ dots) :
    IsPiece component := by
  have dot := @isPiece_singleton '.' rfl (by decide)
  rcases List.mem_pair.mp fixed with rfl | rfl
  · exact dot
  · exact ⟨List.cons_ne_nil _ _,
      List.forall_mem_cons.mpr ⟨dot.2 '.' List.mem_cons_self, dot.2⟩⟩

theorem not_mem_dots_of_separator {separator : Char}
    (found : isSeparator separator = true) (rest : Text) :
    separator :: rest ∉ dots := by
  intro member
  have plain := ((isPiece_of_mem_dots member).2 _ List.mem_cons_self).1
  rw [found] at plain
  exact nomatch plain

theorem isUnc_cases (unc : isUnc text = true) :
    ∃ rest, rest ≠ [] ∧
      text = backslash :: backslash :: '?' :: backslash :: rest := by
  rw [isUnc, decide_eq_true_eq, List.isPrefixOf_iff_prefix] at unc
  obtain ⟨long, rest, rfl⟩ := unc
  refine ⟨rest, ?_, rfl⟩
  rintro rfl
  simp at long

theorem not_separator_of_alpha {letter : Char}
    (alpha : letter.isAlpha = true) : isSeparator letter = false := by
  cases found : isSeparator letter with
  | false => rfl
  | true =>
      rw [isSeparator, decide_eq_true_eq] at found
      rcases found with rfl | rfl
      · revert alpha
        decide
      · revert alpha
        decide

theorem not_isUnc_of_head {head : Char} (plain : isSeparator head = false) :
    isUnc (head :: rest) = false := by
  cases unc : isUnc (head :: rest) with
  | false => rfl
  | true =>
      obtain ⟨_, _, same⟩ := isUnc_cases unc
      rw [(List.cons.inj same).1] at plain
      exact nomatch plain

theorem locate_drive {letter : Char} (alpha : letter.isAlpha = true)
    (rest : Text) :
    locate (letter :: ':' :: rest) =
      ⟨.drive letter (separated rest), componentsOf rest⟩ := by
  have plain := not_separator_of_alpha alpha
  have drive : hasDrive (letter :: ':' :: rest) = true := by
    simp [hasDrive, alpha]
  rw [locate, not_isUnc_of_head plain, drive]
  rfl

theorem not_hasDrive {head : Char} (other : rest.head? ≠ some ':') :
    hasDrive (head :: rest) = false := by
  rw [hasDrive, decide_eq_false_iff_not]
  rintro ⟨_, colon⟩
  rw [List.getElem?_cons_succ, ← List.head?_eq_getElem?] at colon
  exact other colon

theorem locate_current {head : Char} (plain : isSeparator head = false)
    (drive : hasDrive (head :: rest) = false) :
    locate (head :: rest) = ⟨.current, componentsOf (head :: rest)⟩ := by
  rw [locate, not_isUnc_of_head plain, drive, separated_cons, plain]
  rfl

theorem locate_separated (found : isSeparator separator = true)
    (other : isUnc (separator :: rest) = false) :
    locate (separator :: rest) =
      ⟨if separated rest then .network else .rooted,
        componentsOf rest⟩ := by
  have drive : hasDrive (separator :: rest) = false := by
    cases alpha : separator.isAlpha with
    | false => simp [hasDrive, alpha]
    | true =>
        rw [not_separator_of_alpha alpha] at found
        exact nomatch found
  rw [locate, other, drive, separated_cons, found, componentsOf_cons found]
  rfl

/-- Only a server that is the question mark makes an extended prefix. -/
theorem not_server {after more : Text}
    (named : componentsOf text ≠ [])
    (server : (if separated text then Root.network else .rooted) =
      .network → (componentsOf text).head? ≠ some ['?']) :
    text ++ backslash :: more ≠ backslash :: '?' :: backslash :: after := by
  have back : isSeparator backslash = true := rfl
  have plain : ∀ character ∈ ['?'], isSeparator character = false :=
    List.forall_mem_singleton.mpr rfl
  have single : (['?'] : Text) ≠ [] := List.cons_ne_nil _ _
  intro same
  cases text with
  | nil => exact named rfl
  | cons second text =>
      have slashes := (List.cons.inj same).1
      have after' := (List.cons.inj same).2
      subst slashes
      have away := server rfl
      rw [componentsOf_cons back] at named away
      cases text with
      | nil => exact named rfl
      | cons third text =>
          have mark := (List.cons.inj after').1
          have after'' := (List.cons.inj after').2
          subst mark
          cases text with
          | nil =>
              rw [componentsOf_word plain single] at away
              exact away rfl
          | cons fourth text =>
              have slash := (List.cons.inj after'').1
              subst slash
              have whole := @componentsOf_of_word _ text _ plain single back
              rw [List.singleton_append] at whole
              rw [whole] at away
              exact away rfl

/-- A path is made longer by a separator and more components. -/
theorem locate_append {root : Root} {names : List Text}
    (located : locate text = ⟨root, names⟩) (named : names ≠ [])
    (other : root ≠ .extended)
    (server : root = .network → names.head? ≠ some ['?']) (more : Text) :
    locate (text ++ backslash :: more) =
      ⟨root, names ++ componentsOf more⟩ := by
  have back : isSeparator backslash = true := rfl
  have longer {text : Text} (some : componentsOf text ≠ []) :
      separated (text ++ backslash :: more) = separated text := by
    cases text with
    | nil => exact absurd rfl some
    | cons head text => rfl
  cases text with
  | nil =>
      obtain ⟨_, rfl⟩ := Location.mk.inj located
      exact absurd rfl named
  | cons head text =>
      cases first : isSeparator head with
      | false =>
          by_cases drive : hasDrive (head :: text) = true
          · rw [hasDrive, decide_eq_true_eq] at drive
            obtain ⟨alpha, colon⟩ := drive
            cases text with
            | nil => exact nomatch colon
            | cons second text =>
                obtain rfl := Option.some.inj colon
                rw [locate_drive alpha] at located
                obtain ⟨rfl, rfl⟩ := Location.mk.inj located
                have whole := locate_drive alpha (text ++ backslash :: more)
                rwa [componentsOf_append back, longer named] at whole
          · rw [Bool.not_eq_true] at drive
            have drive' : hasDrive (head :: (text ++ backslash :: more)) =
                false := by
              cases text with
              | nil =>
                  exact @not_hasDrive (backslash :: more) head nofun
              | cons second text => exact drive
            rw [locate_current first drive] at located
            obtain ⟨rfl, rfl⟩ := Location.mk.inj located
            have whole := locate_current first drive'
            rwa [← List.cons_append, componentsOf_append back] at whole
      | true =>
          have other' : isUnc (head :: text) = false := by
            cases unc : isUnc (head :: text) with
            | false => rfl
            | true =>
                rw [locate, unc] at located
                exact absurd (Location.mk.inj located).1.symm other
          rw [locate_separated first other'] at located
          obtain ⟨rfl, rfl⟩ := Location.mk.inj located
          have other'' : isUnc (head :: (text ++ backslash :: more)) =
              false := by
            cases unc : isUnc (head :: (text ++ backslash :: more)) with
            | false => rfl
            | true =>
                obtain ⟨after, _, same⟩ := isUnc_cases unc
                exact absurd (List.cons.inj same).2
                  (not_server named server)
          have whole := locate_separated first other''
          rwa [componentsOf_append back, longer named] at whole

theorem baseOf_of_ne_nil (some : text ≠ []) :
    baseOf text = text ++ [backslash] :=
  if_neg some

theorem componentsOf_piece {piece : Text} (isPiece : IsPiece piece) :
    componentsOf piece = [piece] :=
  componentsOf_word (fun _ member => (isPiece.2 _ member).1) isPiece.1

theorem separated_piece {piece : Text} (isPiece : IsPiece piece)
    (front : Text) : separated (front ++ piece).reverse = false := by
  rw [separated_reverse isPiece.1]
  cases backwards : piece.reverse with
  | nil => rfl
  | cons last rest =>
      refine (isPiece.2 last ?_).1
      rw [← List.mem_reverse, backwards]
      exact List.mem_cons_self

end

/-! ## Contexts -/

section

variable {matcher : Matcher} {files : FileSystem matcher} {root : Root}
variable {patterns names contexts : List Text} {context component : Text}

/-- A context is the front of the paths below some names. -/
structure Stands (root : Root) (names : List Text) (context : Text) :
    Prop where
  opens : ∀ piece, IsPiece piece →
    locate (baseOf context ++ piece) = ⟨root, names ++ [piece]⟩
  closes : context ≠ [] → locate (baseOf context) = ⟨root, names⟩
  located : names ≠ [] → locate context = ⟨root, names⟩
  server : root = .network → names.head? ≠ some ['?']

theorem Stands.of_located (located : locate context = ⟨root, names⟩)
    (named : names ≠ []) (other : root ≠ .extended)
    (server : root = .network → names.head? ≠ some ['?']) :
    Stands root names context := by
  have some : context ≠ [] := by
    rintro rfl
    exact named (Location.mk.inj located).2.symm
  constructor
  · intro piece isPiece
    have whole := locate_append located named other server piece
    rw [componentsOf_piece isPiece] at whole
    rwa [baseOf_of_ne_nil some, List.append_assoc]
  · intro _
    have whole := locate_append located named other server []
    rwa [componentsOf_nil, List.append_nil,
      ← baseOf_of_ne_nil some] at whole
  · exact fun _ => located
  · exact server

theorem Stands.next (stands : Stands root names context)
    (other : root ≠ .extended) (isPiece : IsPiece component)
    (server : root = .network → (names ++ [component]).head? ≠ some ['?']) :
    Stands root (names ++ [component]) (baseOf context ++ component) :=
  .of_located (stands.opens component isPiece) (by simp) other server

/-- Every context is an expansion of the patterns so far, and every path that
they stand for has a context. -/
structure Covers (files : FileSystem matcher) (root : Root)
    (patterns contexts : List Text) : Prop where
  sound : ∀ context ∈ contexts, ∃ names, Stands root names context ∧
    PathPattern.Expands (files.lookup root) patterns names
  complete : ∀ names,
    PathPattern.Resolves (files.lookup root) patterns names →
      ∃ context ∈ contexts, Stands root names context

/-- What is found in a directory. -/
def FileSystem.listed (files : FileSystem matcher) (directory : Location)
    (component : Text) : List Text :=
  (if hasWildcard component then files.selfAndParent directory else []) ++
    (files.entries directory).filter (matcher.fits component)

theorem find_eq {search : Text}
    (located : locate search = ⟨root, names ++ [component]⟩)
    (ends : separated search.reverse = false) :
    files.find search =
      if files.listed ⟨root, names⟩ component = [] then none
      else some (files.listed ⟨root, names⟩ component) := by
  unfold FileSystem.find
  rw [located, ends]
  dsimp only
  rw [List.getLast?_concat, List.dropLast_concat]
  rfl

/-- A text that ends with a separator is not searched for. -/
theorem find_eq_none {search : Text}
    (ends : separated search.reverse = true) : files.find search = none := by
  unfold FileSystem.find
  rw [ends]
  dsimp only
  split
  · rfl
  · rfl

theorem mem_listed {name : Text} {directory : Location}
    (free : name ∉ dots) :
    name ∈ files.listed directory component ↔
      name ∈ files.entries directory ∧
        matcher.fits component name = true := by
  have away : name ∉ (if hasWildcard component then
      files.selfAndParent directory else []) := by
    split
    · exact fun member => free (files.dotted _ _ member)
    · exact List.not_mem_nil
  rw [FileSystem.listed, List.mem_append, List.mem_filter,
    or_iff_right away]

theorem not_mem_dots_of_entry {name : Text} {directory : Location}
    (member : name ∈ files.entries directory) : name ∉ dots :=
  (files.names _ _ member).2.2

theorem head_ne_mark {names : List Text} {name : Text}
    (first : names.head? ≠ some ['?']) (other : name ≠ ['?']) :
    (names ++ [name]).head? ≠ some ['?'] := by
  cases names with
  | nil => simpa using other
  | cons head names => exact first

theorem ne_mark_of_entry {name : Text} {directory : Location}
    (member : name ∈ files.entries directory) : name ≠ ['?'] := by
  rintro rfl
  have plain := (files.names _ _ member).2.1
  exact nomatch plain

theorem Covers.dot (covers : Covers files root patterns contexts)
    (other : root ≠ .extended) (fixed : component ∈ dots) :
    Covers files root (patterns ++ [component])
      (nextContexts files.find contexts component) := by
  have isPiece := isPiece_of_mem_dots fixed
  have other' : component ≠ ['?'] := by
    rintro rfl
    revert fixed
    decide
  rw [nextContexts, if_pos fixed]
  constructor
  · intro context member
    obtain ⟨before, inside, rfl⟩ := List.mem_map.mp member
    obtain ⟨names, stands, expands⟩ := covers.sound before inside
    exact ⟨names ++ [component], stands.next other isPiece
      (fun network => head_ne_mark (stands.server network) other'),
      .fixed expands fixed⟩
  · intro names resolves
    obtain ⟨front, last, rfl, before, kind⟩ := resolves.last_cases
    obtain ⟨context, member, stands⟩ := covers.complete front before
    rcases kind with ⟨_, rfl⟩ | ⟨free, _⟩
    · exact ⟨_, List.mem_map.mpr ⟨context, member, rfl⟩,
        stands.next other isPiece
          (fun network => head_ne_mark (stands.server network) other')⟩
    · exact absurd fixed free

theorem Covers.search (covers : Covers files root patterns contexts)
    (other : root ≠ .extended) (free : component ∉ dots)
    (isPiece : IsPiece component)
    (server : root = .network →
      (patterns ++ [component]).head? ≠ some ['?']) :
    Covers files root (patterns ++ [component])
      (nextContexts files.find contexts component) := by
  rw [nextContexts, if_neg free]
  constructor
  · intro context member
    obtain ⟨before, inside, made⟩ := List.mem_flatMap.mp member
    obtain ⟨names, stands, expands⟩ := covers.sound before inside
    have found := @find_eq _ files root names component _
      (stands.opens component isPiece) (separated_piece isPiece _)
    dsimp only at made
    by_cases none : files.listed ⟨root, names⟩ component = []
    · rw [found, if_pos none] at made
      obtain rfl := List.mem_singleton.mp made
      refine ⟨names ++ [component], stands.next other isPiece ?_,
        .missing expands free ?_⟩
      · intro network
        cases names with
        | nil =>
            have length := expands.length_eq
            rw [List.length_nil, eq_comm, List.length_eq_zero_iff] at length
            rw [length] at server
            exact server network
        | cons head names => exact stands.server network
      · intro name member fits
        have here := (mem_listed (not_mem_dots_of_entry member)).mpr
          ⟨member, fits⟩
        rw [none] at here
        exact nomatch here
    · rw [found, if_neg none] at made
      obtain ⟨name, kept, rfl⟩ := List.mem_map.mp made
      obtain ⟨here, plain⟩ := List.mem_filter.mp kept
      obtain ⟨entry, fits⟩ := (mem_listed (of_decide_eq_true plain)).mp here
      exact ⟨names ++ [name],
        stands.next other (files.names _ _ entry).1
          (fun network => head_ne_mark (stands.server network)
            (ne_mark_of_entry entry)),
        .entry expands free entry fits⟩
  · intro names resolves
    obtain ⟨front, last, rfl, before, kind⟩ := resolves.last_cases
    obtain ⟨context, member, stands⟩ := covers.complete front before
    rcases kind with ⟨fixed, _⟩ | ⟨_, entry, fits⟩
    · exact absurd fixed free
    · have plain := not_mem_dots_of_entry entry
      have here := (mem_listed plain).mpr ⟨entry, fits⟩
      have found := @find_eq _ files root front component _
        (stands.opens component isPiece) (separated_piece isPiece _)
      rw [if_neg (List.ne_nil_of_mem here)] at found
      refine ⟨baseOf context ++ last, List.mem_flatMap.mpr
        ⟨context, member, ?_⟩, stands.next other (files.names _ _ entry).1
          (fun network => head_ne_mark (stands.server network)
            (ne_mark_of_entry entry))⟩
      dsimp only
      rw [found]
      exact List.mem_map.mpr
        ⟨last, List.mem_filter.mpr ⟨here, decide_eq_true plain⟩, rfl⟩

theorem Covers.next (covers : Covers files root patterns contexts)
    (other : root ≠ .extended) (isPiece : IsPiece component)
    (server : root = .network →
      (patterns ++ [component]).head? ≠ some ['?']) :
    Covers files root (patterns ++ [component])
      (nextContexts files.find contexts component) := by
  by_cases fixed : component ∈ dots
  · exact covers.dot other fixed
  · exact covers.search other fixed isPiece server

theorem Covers.all {components : List Text}
    (covers : Covers files root patterns contexts)
    (other : root ≠ .extended)
    (pieces : ∀ component ∈ components, IsPiece component)
    (server : root = .network →
      (patterns ++ components).head? ≠ some ['?']) :
    Covers files root (patterns ++ components)
      (components.foldl (nextContexts files.find) contexts) := by
  induction components generalizing patterns contexts with
  | nil => rwa [List.append_nil]
  | cons component components inductionHypothesis =>
      have first : root = .network →
          (patterns ++ [component]).head? ≠ some ['?'] := by
        intro network
        have whole := server network
        cases patterns with
        | nil => exact whole
        | cons head patterns => exact whole
      have next := covers.next other (pieces _ List.mem_cons_self) first
      have rest := inductionHypothesis next
        (fun component member => pieces _ (List.mem_cons_of_mem _ member))
      rw [List.append_assoc, List.singleton_append] at rest
      exact rest server

/-- Every path is an expansion of the patterns, and every path that they stand
for is among them. -/
structure Ends (files : FileSystem matcher) (root : Root)
    (patterns paths : List Text) : Prop where
  sound : ∀ path ∈ paths, ∃ names, locate path = ⟨root, names⟩ ∧
    PathPattern.Expands (files.lookup root) patterns names
  complete : ∀ names,
    PathPattern.Resolves (files.lookup root) patterns names →
      ∃ path ∈ paths, locate path = ⟨root, names⟩

theorem Covers.ends (covers : Covers files root patterns contexts)
    (some : patterns ≠ []) : Ends files root patterns contexts := by
  constructor
  · intro path member
    obtain ⟨names, stands, expands⟩ := covers.sound path member
    refine ⟨names, stands.located ?_, expands⟩
    rintro rfl
    exact some (List.length_eq_zero_iff.mp expands.length_eq.symm)
  · intro names resolves
    obtain ⟨path, member, stands⟩ := covers.complete names resolves
    refine ⟨path, member, stands.located ?_⟩
    rintro rfl
    exact some (List.length_eq_zero_iff.mp resolves.length_eq.symm)

/-- A separator at the end is kept. -/
theorem Covers.ends_trailing
    (covers : Covers files root patterns contexts)
    (some : ∀ context ∈ contexts, context ≠ []) :
    Ends files root patterns (nextContexts files.find contexts []) := by
  have made : nextContexts files.find contexts [] = contexts.map baseOf := by
    have free : ([] : Text) ∉ dots := by decide
    rw [nextContexts, if_neg free, ← List.flatMap_pure_eq_map]
    apply List.flatMap_congr
    intro context member
    have ends : separated (baseOf context ++ []).reverse = true := by
      rw [List.append_nil, baseOf_of_ne_nil (some context member),
        separated_reverse (List.cons_ne_nil _ _)]
      rfl
    dsimp only
    rw [find_eq_none ends, List.append_nil]
    rfl
  rw [made]
  constructor
  · intro path member
    obtain ⟨context, inside, rfl⟩ := List.mem_map.mp member
    obtain ⟨names, stands, expands⟩ := covers.sound context inside
    exact ⟨names, stands.closes (some context inside), expands⟩
  · intro names resolves
    obtain ⟨context, inside, stands⟩ := covers.complete names resolves
    exact ⟨_, List.mem_map.mpr ⟨context, inside, rfl⟩,
      stands.closes (some context inside)⟩

theorem Covers.ne_nil (covers : Covers files root patterns contexts)
    (some : patterns ≠ []) : ∀ context ∈ contexts, context ≠ [] := by
  rintro context member rfl
  obtain ⟨names, stands, expands⟩ := covers.sound [] member
  cases names with
  | nil => exact some (List.length_eq_zero_iff.mp expands.length_eq.symm)
  | cons name names =>
      exact nomatch (Location.mk.inj (stands.located (List.cons_ne_nil _ _))).2

theorem foldl_ne_nil {find : Text → Option (List Text)}
    {components : List Text} (some : ∀ context ∈ contexts, context ≠ []) :
    ∀ context ∈ components.foldl (nextContexts find) contexts,
      context ≠ [] := by
  induction components generalizing contexts with
  | nil => exact some
  | cons component components inductionHypothesis =>
      apply inductionHypothesis
      have longer (context : Text) (member : context ∈ contexts)
          (more : Text) : baseOf context ++ more ≠ [] := by
        rw [baseOf_of_ne_nil (some context member)]
        simp
      intro context member
      unfold nextContexts at member
      split at member
      · obtain ⟨before, inside, rfl⟩ := List.mem_map.mp member
        exact longer before inside _
      · obtain ⟨before, inside, made⟩ := List.mem_flatMap.mp member
        dsimp only at made
        split at made
        · obtain rfl := List.mem_singleton.mp made
          exact longer before inside _
        · obtain ⟨name, _, rfl⟩ := List.mem_map.mp made
          exact longer before inside _

/-- What follows the first component of an argument. -/
theorem Covers.tail {text : Text}
    (covers : Covers files root patterns contexts)
    (other : root ≠ .extended)
    (pieces : ∀ component ∈ componentsOf text, IsPiece component)
    (server : root = .network →
      (patterns ++ componentsOf text).head? ≠ some ['?'])
    (some : ∀ context ∈ contexts, context ≠ []) :
    Ends files root (patterns ++ componentsOf text)
      ((tailOf text).foldl (nextContexts files.find) contexts) := by
  have all := covers.all other pieces server
  unfold tailOf
  rw [List.foldl_append]
  by_cases trailing : text = [] ∨ separated text.reverse = true
  · rw [if_pos trailing]
    exact all.ends_trailing (foldl_ne_nil some)
  · rw [if_neg trailing]
    apply all.ends
    intro none
    exact trailing (separated_of_componentsOf_nil
      (List.append_eq_nil_iff.mp none).2)

theorem proper (files : FileSystem matcher) (root : Root) :
    (files.lookup root).Proper := by
  constructor
  · intro names name member
    exact matcher.fits_self name (files.names _ _ member)
  · intro names name member directory
    exact files.single _ _ (files.names _ _ member).2.1
  · intro names name member
    exact not_mem_dots_of_entry member

/-- Names that are found have no wildcards. -/
theorem plain_of_resolves
    (resolves : PathPattern.Resolves (files.lookup root) patterns names) :
    ∀ name ∈ names, hasWildcard name = false := by
  have plain : ∀ component ∈ dots, hasWildcard component = false := by
    decide
  induction resolves with
  | nil => exact nofun
  | fixed _ fixed inductionHypothesis =>
      intro name member
      rcases List.mem_append.mp member with before | last
      · exact inductionHypothesis name before
      · obtain rfl := List.mem_singleton.mp last
        exact plain _ fixed
  | entry _ _ entry _ inductionHypothesis =>
      intro name member
      rcases List.mem_append.mp member with before | last
      · exact inductionHypothesis name before
      · obtain rfl := List.mem_singleton.mp last
        exact (files.names _ _ entry).2.1

theorem keeps_of_ends {argw : Text}
    (located : locate argw = ⟨root, patterns⟩)
    (ends : Ends files root patterns (getWildcard files.find argw)) :
    KeepsLocation files argw := by
  constructor
  · intro path member names named
    obtain ⟨found, here, expands⟩ := ends.sound path member
    rw [here] at named ⊢
    rw [located]
    obtain ⟨rfl, resolves⟩ :=
      expands.resolves (proper files root) named.2
    exact ⟨rfl, resolves⟩
  · intro _ names finds
    rw [located] at finds ⊢
    obtain ⟨path, member, here⟩ := ends.complete names finds
    refine ⟨path, member, ?_⟩
    rw [here]
    exact ⟨rfl, plain_of_resolves finds, finds.self (proper files root)⟩
  · intro names named
    rw [located] at named ⊢
    constructor
    · obtain ⟨path, member, _⟩ := ends.complete names named.2
      exact List.ne_nil_of_mem member
    · intro path member
      obtain ⟨found, here, expands⟩ := ends.sound path member
      have same := expands.unique
        (fun component member _ directory =>
          files.single _ component (named.1 component member)) named.2
      rw [here, same]
      exact ⟨rfl, plain_of_resolves named.2,
        named.2.self (proper files root)⟩

end

/-! ## First components -/

section

variable {text word tail : Text} {separator : Char}

/-- A text that ends here, or goes on with a separator. -/
def Opening (tail : Text) : Prop :=
  tail = [] ∨ ∃ separator rest,
    tail = separator :: rest ∧ isSeparator separator = true

/-- The components after the first one. -/
def restOf (tail : Text) : List Text :=
  if tail = [] then [] else tailOf tail

theorem span (text : Text) :
    ∃ word tail, text = word ++ tail ∧
      (∀ character ∈ word, isSeparator character = false) ∧
      Opening tail := by
  rcases separator_cases text with
    plain | ⟨word, separator, rest, rfl, plain, found⟩
  · exact ⟨text, [], (List.append_nil text).symm, plain, Or.inl rfl⟩
  · exact ⟨word, _, rfl, plain, Or.inr ⟨separator, rest, rfl, found⟩⟩

theorem componentsOf_span
    (plain : ∀ character ∈ word, isSeparator character = false)
    (some : word ≠ []) (opening : Opening tail) :
    componentsOf (word ++ tail) = word :: componentsOf tail := by
  rcases opening with rfl | ⟨separator, rest, rfl, found⟩
  · rw [List.append_nil, componentsOf_word plain some, componentsOf_nil]
  · rw [componentsOf_of_word plain some found, componentsOf_cons found]

theorem splitFrom_span
    (plain : ∀ character ∈ word, isSeparator character = false)
    (some : word ≠ []) (opening : Opening tail) :
    splitFrom (word ++ tail) 0 = word :: restOf tail := by
  rcases opening with rfl | ⟨separator, rest, rfl, found⟩
  · rw [List.append_nil, splitFrom_plain plain, restOf, if_pos rfl]
  · rw [splitFrom_word plain some found, restOf,
      if_neg (List.cons_ne_nil _ _)]

theorem splitFrom_separated_span (first : isSeparator separator = true)
    (plain : ∀ character ∈ word, isSeparator character = false)
    (opening : Opening tail) :
    splitFrom (separator :: (word ++ tail)) 0 =
      (separator :: word) :: restOf tail := by
  rcases opening with rfl | ⟨second, rest, rfl, found⟩
  · rw [List.append_nil, splitFrom_separated first plain, restOf,
      if_pos rfl]
  · rw [splitFrom_separated_word first plain found, restOf,
      if_neg (List.cons_ne_nil _ _)]

theorem length_le_wideLength (text : Text) :
    text.length ≤ wideLength text := by
  induction text with
  | nil => exact Nat.le_refl _
  | cons head text inductionHypothesis =>
      unfold wideLength at inductionHypothesis ⊢
      rw [List.map_cons, List.sum_cons, List.length_cons]
      split <;> omega

theorem wideLength_drive {letter : Char} (alpha : letter.isAlpha = true) :
    wideLength [letter, ':'] = 2 := by
  have small : letter.toNat < 0x10000 := by
    rcases Bool.or_eq_true_iff.mp alpha with upper | lower
    · have below := (of_decide_eq_true upper).2
      exact Nat.lt_of_le_of_lt (UInt32.le_iff_toNat_le.mp below)
        (by decide)
    · have below := of_decide_eq_true (Bool.and_eq_true_iff.mp lower).2
      exact Nat.lt_of_le_of_lt (UInt32.le_iff_toNat_le.mp below)
        (by decide)
  simp [wideLength, small]

/-- An argument whose first component carries what stands before it. -/
structure Led (argw : Text) (root : Root) (first word tail : Text) :
    Prop where
  split : splitComponents argw = first :: restOf tail
  base : findBaseContext (first :: restOf tail) =
    ([], first :: restOf tail)
  located : locate argw = ⟨root, word :: componentsOf tail⟩
  begins : locate first = ⟨root, [word]⟩
  ends : separated first.reverse = false
  isPiece : IsPiece word
  pieces : ∀ component ∈ componentsOf tail, IsPiece component

theorem findBaseContext_of_first {first : Text} {rest : List Text}
    (some : first ≠ []) (other : isUnc first = false)
    (long : first[1]? = Option.some ':' → 2 < first.length) :
    findBaseContext (first :: rest) = ([], first :: rest) := by
  have notDrive : ¬ (wideLength first = 2 ∧ first[1]? = Option.some ':') := by
    rintro ⟨two, colon⟩
    have := long colon
    have := length_le_wideLength first
    omega
  rw [findBaseContext, if_neg notDrive, if_neg some, other,
    if_neg (not_and_of_not_right _ Bool.false_ne_true)]

theorem span_word {head : Char} (plain : isSeparator head = false)
    (text : Text) :
    ∃ word tail, head :: text = word ++ tail ∧ word ≠ [] ∧
      (∀ character ∈ word, isSeparator character = false) ∧
      Opening tail := by
  obtain ⟨word, tail, same, plain', opening⟩ := span (head :: text)
  refine ⟨word, tail, same, ?_, plain', opening⟩
  rintro rfl
  rw [List.nil_append] at same
  rcases opening with none | ⟨separator, rest, rfl, found⟩
  · rw [none] at same
    exact nomatch same
  · rw [(List.cons.inj same).1, found] at plain
    exact nomatch plain

theorem led_current {head : Char} {text : Text}
    (plain : isSeparator head = false)
    (pieces : ∀ component ∈ componentsOf (head :: text), IsPiece component)
    (located : locate (head :: text) =
      ⟨.current, componentsOf (head :: text)⟩) :
    ∃ word tail, Led (head :: text) .current word word tail := by
  obtain ⟨word, tail, same, some, plain', opening⟩ := span_word plain text
  have whole := componentsOf_span plain' some opening
  rw [same, whole] at pieces located
  have isPiece := pieces word List.mem_cons_self
  have first : ∃ word', word = head :: word' := by
    cases word with
    | nil => exact absurd rfl some
    | cons first word => exact ⟨word, by rw [(List.cons.inj same).1]⟩
  obtain ⟨word', rfl⟩ := first
  have noColon : word'.head? ≠ Option.some ':' := by
    intro colon
    exact (isPiece.2 ':' (List.mem_cons_of_mem _
      (List.mem_of_mem_head? colon))).2 rfl
  refine ⟨head :: word', tail, ?_, ?_, ?_, ?_, ?_, isPiece, ?_⟩
  · rw [same, splitComponents, List.cons_append,
      not_isUnc_of_head plain, ← List.cons_append]
    exact splitFrom_span plain' some opening
  · apply findBaseContext_of_first some (not_isUnc_of_head plain)
    intro colon
    rw [List.getElem?_cons_succ, ← List.head?_eq_getElem?] at colon
    exact absurd colon noColon
  · rw [same]
    exact located
  · rw [locate_current plain (not_hasDrive noColon),
      componentsOf_word plain' some]
  · exact separated_piece isPiece []
  · exact fun component member => pieces component
      (List.mem_cons_of_mem _ member)

/-- One separator stays with the first component. -/
theorem led_rooted {head : Char} {text : Text}
    (found : isSeparator separator = true)
    (plain : isSeparator head = false)
    (pieces : ∀ component ∈ componentsOf (head :: text), IsPiece component) :
    ∃ first word tail, Led (separator :: head :: text) .rooted first word tail
      ∧ first ∉ dots := by
  obtain ⟨word, tail, same, some, plain', opening⟩ := span_word plain text
  have whole := componentsOf_span plain' some opening
  rw [same] at pieces ⊢
  rw [whole] at pieces
  have isPiece := pieces word List.mem_cons_self
  have other (more : Text) (short : Opening more) :
      isUnc (separator :: (word ++ more)) = false := by
    cases unc : isUnc (separator :: (word ++ more)) with
    | false => rfl
    | true =>
        obtain ⟨rest, _, same⟩ := isUnc_cases unc
        have tailSame := (List.cons.inj same).2
        cases word with
        | nil => exact absurd rfl some
        | cons first word =>
            have slash := plain' first List.mem_cons_self
            rw [(List.cons.inj tailSame).1] at slash
            exact nomatch slash
  have head_plain (more : Text) : separated (word ++ more) = false := by
    cases word with
    | nil => exact absurd rfl some
    | cons first word => exact plain' first List.mem_cons_self
  have alone := other [] (Or.inl rfl)
  have unseparated := head_plain []
  rw [List.append_nil] at alone unseparated
  refine ⟨separator :: word, word, tail,
    ⟨?_, ?_, ?_, ?_, ?_, isPiece, ?_⟩, ?_⟩
  · rw [splitComponents, other tail opening]
    exact splitFrom_separated_span found plain' opening
  · apply findBaseContext_of_first (List.cons_ne_nil _ _) alone
    intro colon
    rw [List.getElem?_cons_succ] at colon
    exact absurd rfl (isPiece.2 ':' (List.mem_of_getElem? colon)).2
  · rw [locate_separated found (other tail opening), head_plain tail, whole]
    rfl
  · rw [locate_separated found alone, unseparated,
      componentsOf_word plain' some]
    rfl
  · exact separated_piece isPiece [separator]
  · exact fun component member => pieces component
      (List.mem_cons_of_mem _ member)
  · exact not_mem_dots_of_separator found word

/-- A drive stays with the first component in its current directory. -/
theorem led_drive {letter head : Char} {text : Text}
    (alpha : letter.isAlpha = true) (plain : isSeparator head = false)
    (pieces : ∀ component ∈ componentsOf (head :: text), IsPiece component) :
    ∃ first word tail,
      Led (letter :: ':' :: head :: text) (.drive letter false) first word
        tail ∧ first ∉ dots := by
  obtain ⟨word, tail, same, some, plain', opening⟩ := span_word plain text
  have whole := componentsOf_span plain' some opening
  rw [same] at pieces ⊢
  rw [whole] at pieces
  have isPiece := pieces word List.mem_cons_self
  have notSeparator := not_separator_of_alpha alpha
  have colon : isSeparator ':' = false := by decide
  have plain'' : ∀ character ∈ letter :: ':' :: word,
      isSeparator character = false :=
    List.forall_mem_cons.mpr
      ⟨notSeparator, List.forall_mem_cons.mpr ⟨colon, plain'⟩⟩
  have head_plain (more : Text) : separated (word ++ more) = false := by
    cases word with
    | nil => exact absurd rfl some
    | cons first word => exact plain' first List.mem_cons_self
  have unseparated := head_plain []
  rw [List.append_nil] at unseparated
  refine ⟨letter :: ':' :: word, word, tail,
    ⟨?_, ?_, ?_, ?_, ?_, isPiece, ?_⟩, ?_⟩
  · rw [splitComponents, not_isUnc_of_head notSeparator]
    exact splitFrom_span plain'' (List.cons_ne_nil _ _) opening
  · apply findBaseContext_of_first (List.cons_ne_nil _ _)
      (not_isUnc_of_head notSeparator)
    intro _
    have := List.length_pos_iff.mpr some
    simp only [List.length_cons]
    omega
  · rw [locate_drive alpha, head_plain tail, whole]
  · rw [locate_drive alpha, unseparated, componentsOf_word plain' some]
  · exact separated_piece isPiece [letter, ':']
  · exact fun component member => pieces component
      (List.mem_cons_of_mem _ member)
  · intro member
    have all : ∀ component ∈ dots,
        component[1]? ≠ Option.some ':' := by
      decide
    exact all _ member rfl

end

/-! ## Arguments that keep their root -/

section

variable {matcher : Matcher} {files : FileSystem matcher} {root : Root}
variable {patterns contexts : List Text} {argw first word tail : Text}

theorem getWildcard_led (led : Led argw root first word tail)
    (find : Text → Option (List Text)) :
    getWildcard find argw =
      (restOf tail).foldl (nextContexts find)
        (nextContexts find [[]] first) := by
  rw [getWildcard, led.split, led.base]
  rfl

theorem Covers.rest (covers : Covers files root patterns contexts)
    (named : patterns ≠ []) (other : root ≠ .extended)
    (server : root ≠ .network)
    (pieces : ∀ component ∈ componentsOf tail, IsPiece component) :
    Ends files root (patterns ++ componentsOf tail)
      ((restOf tail).foldl (nextContexts files.find) contexts) := by
  unfold restOf
  by_cases none : tail = []
  · rw [if_pos none, none, componentsOf_nil, List.append_nil]
    exact covers.ends named
  · rw [if_neg none]
    exact covers.tail other pieces (fun network => absurd network server)
      (covers.ne_nil named)

/-- Before the first component nothing has been named. -/
theorem covers_nil {context : Text} (stands : Stands root [] context) :
    Covers files root [] [context] := by
  constructor
  · intro context' member
    obtain rfl := List.mem_singleton.mp member
    exact ⟨[], stands, .nil⟩
  · intro names resolves
    obtain rfl := List.length_eq_zero_iff.mp resolves.length_eq
    exact ⟨context, List.mem_singleton_self _, stands⟩

theorem locate_piece {piece : Text} (isPiece : IsPiece piece) :
    locate piece = ⟨.current, [piece]⟩ := by
  cases piece with
  | nil => exact absurd rfl isPiece.1
  | cons head rest =>
      have noColon : rest.head? ≠ some ':' := by
        intro colon
        exact (isPiece.2 ':' (List.mem_cons_of_mem _
          (List.mem_of_mem_head? colon))).2 rfl
      rw [locate_current (isPiece.2 head List.mem_cons_self).1
        (not_hasDrive noColon), componentsOf_piece isPiece]

theorem stands_current : Stands .current [] [] := by
  constructor
  · intro piece isPiece
    exact locate_piece isPiece
  · exact fun some => absurd rfl some
  · exact fun some => absurd rfl some
  · exact nofun

theorem keeps_current (led : Led argw .current word word tail) :
    KeepsLocation files argw := by
  apply keeps_of_ends led.located
  rw [getWildcard_led led]
  exact ((covers_nil stands_current).next nofun led.isPiece nofun).rest
    (List.cons_ne_nil _ _) nofun nofun led.pieces

/-- A first component `.` or `..` is not found, and stays as it is. -/
theorem keeps_dot (led : Led argw root first word tail)
    (free : first ∉ dots) (dot : word ∈ dots) (other : root ≠ .extended)
    (server : root ≠ .network) : KeepsLocation files argw := by
  have none : files.listed ⟨root, []⟩ word = [] := by
    have plain : ∀ component ∈ dots, hasWildcard component = false := by
      decide
    have unmatched : (files.entries ⟨root, []⟩).filter (matcher.fits word) =
        [] := by
      rw [List.filter_eq_nil_iff]
      intro name entry
      rw [matcher.fits_dots word dot name (files.names _ _ entry)]
      exact Bool.false_ne_true
    rw [FileSystem.listed, plain word dot, unmatched]
    rfl
  have next : nextContexts files.find [[]] first = [first] := by
    have found := @find_eq matcher files root [] word first led.begins
      led.ends
    rw [if_pos none] at found
    rw [nextContexts, if_neg free, List.flatMap_singleton]
    dsimp only [baseOf, if_true]
    rw [if_pos rfl, List.nil_append, found]
  have covers : Covers files root [word] [first] := by
    have stands : Stands root [word] first :=
      .of_located led.begins (List.cons_ne_nil _ _) other
        fun network => absurd network server
    constructor
    · intro context member
      obtain rfl := List.mem_singleton.mp member
      exact ⟨[word], stands, .fixed .nil dot⟩
    · intro names resolves
      obtain ⟨front, last, rfl, before, kind⟩ :=
        @PathPattern.Resolves.last_cases _ _ [] _ _ resolves
      obtain rfl := List.length_eq_zero_iff.mp before.length_eq
      rcases kind with ⟨_, rfl⟩ | ⟨wild, _⟩
      · exact ⟨first, List.mem_singleton_self _, stands⟩
      · exact absurd dot wild
  apply keeps_of_ends led.located
  rw [getWildcard_led led, next]
  exact covers.rest (List.cons_ne_nil _ _) other server led.pieces

theorem keeps_extended (unc : isUnc argw = true) :
    KeepsLocation files argw := by
  have long : 4 < argw.length := by
    rw [isUnc, decide_eq_true_eq] at unc
    exact unc.1
  have made : getWildcard files.find argw = [argw] := by
    have notDrive : ¬ (wideLength argw = 2 ∧ argw[1]? = some ':') := by
      rintro ⟨two, _⟩
      have := length_le_wideLength argw
      omega
    have some : argw ≠ [] := by
      rintro rfl
      exact nomatch unc
    rw [getWildcard, splitComponents, if_pos unc, findBaseContext,
      if_neg notDrive, if_neg some, if_pos ⟨rfl, unc⟩]
    rfl
  constructor
  · intro path member names named
    rw [made] at member
    obtain rfl := List.mem_singleton.mp member
    exact ⟨rfl, named.2⟩
  · intro other
    rw [locate, if_pos unc] at other
    exact absurd rfl other
  · intro names named
    rw [made]
    refine ⟨List.cons_ne_nil _ _, fun path member => ?_⟩
    obtain rfl := List.mem_singleton.mp member
    exact ⟨rfl, named⟩

/-- The root of a drive is a context of its own. -/
theorem keeps_drive {letter separator : Char} {text : Text}
    (alpha : letter.isAlpha = true) (found : isSeparator separator = true)
    (pieces : ∀ component ∈ componentsOf text, IsPiece component) :
    KeepsLocation files (letter :: ':' :: separator :: text) := by
  have notSeparator := not_separator_of_alpha alpha
  have plain : ∀ character ∈ [letter, ':'],
      isSeparator character = false :=
    List.forall_mem_cons.mpr
      ⟨notSeparator, List.forall_mem_cons.mpr ⟨by decide, nofun⟩⟩
  have back : isSeparator backslash = true := rfl
  have made : getWildcard files.find (letter :: ':' :: separator :: text) =
      (tailOf (separator :: text)).foldl (nextContexts files.find)
        [[letter, ':', backslash]] := by
    have split := splitFrom_word plain (List.cons_ne_nil _ _) found text
    rw [getWildcard, splitComponents, not_isUnc_of_head notSeparator]
    rw [List.cons_append, List.cons_append, List.nil_append] at split
    rw [if_neg Bool.false_ne_true, split, findBaseContext,
      if_pos ⟨wideLength_drive alpha, rfl⟩]
    rfl
  have stands : Stands (.drive letter true) [] [letter, ':', backslash] := by
    constructor
    · intro piece isPiece
      have whole := locate_drive alpha (backslash :: backslash :: piece)
      rwa [componentsOf_cons back, componentsOf_cons back,
        componentsOf_piece isPiece] at whole
    · intro _
      exact locate_drive alpha [backslash, backslash]
    · exact fun some => absurd rfl some
    · exact nofun
  have located := locate_drive alpha (separator :: text)
  rw [separated_cons, found] at located
  apply keeps_of_ends located
  rw [made]
  refine (covers_nil stands).tail nofun ?_ nofun ?_
  · rwa [componentsOf_cons found]
  · intro context member
    obtain rfl := List.mem_singleton.mp member
    exact List.cons_ne_nil _ _

/-- The first separator of a network path is a context, since it cannot be
found. -/
theorem keeps_network {first second : Char} {text : Text}
    (found : isSeparator first = true) (found' : isSeparator second = true)
    (other : isUnc (first :: second :: text) = false)
    (pieces : ∀ component ∈ componentsOf text, IsPiece component)
    (server : (componentsOf text).head? ≠ some ['?']) :
    KeepsLocation files (first :: second :: text) := by
  have back : isSeparator backslash = true := rfl
  have alone : isUnc [first] = false := by
    cases unc : isUnc [first] with
    | false => rfl
    | true =>
        obtain ⟨rest, _, same⟩ := isUnc_cases unc
        exact nomatch same
  have made : getWildcard files.find (first :: second :: text) =
      (tailOf (second :: text)).foldl (nextContexts files.find)
        [[first]] := by
    have split := @splitFrom_separated_word [] first second found nofun
      found' text
    have free : [first] ∉ dots := not_mem_dots_of_separator found []
    have lost : files.find [first] = none := find_eq_none found
    rw [getWildcard, splitComponents, other, if_neg Bool.false_ne_true]
    rw [List.nil_append] at split
    rw [split, findBaseContext_of_first (List.cons_ne_nil _ _) alone
      (fun colon => nomatch colon)]
    dsimp only
    rw [List.foldl_cons]
    congr 1
    rw [nextContexts, if_neg free, List.flatMap_singleton]
    dsimp only [baseOf]
    rw [if_pos rfl, List.nil_append, lost]
  have stands : Stands .network [] [first] := by
    have other' (piece : Text) (plain : ∀ character ∈ piece,
        isSeparator character = false) :
        isUnc (first :: backslash :: piece) = false := by
      cases unc : isUnc (first :: backslash :: piece) with
      | false => rfl
      | true =>
          obtain ⟨rest, _, same⟩ := isUnc_cases unc
          have tailSame := (List.cons.inj (List.cons.inj same).2).2
          have slash := plain backslash (by rw [tailSame]; simp)
          exact nomatch slash
    constructor
    · intro piece isPiece
      have whole := locate_separated found
        (other' piece fun character member => (isPiece.2 character member).1)
      rwa [componentsOf_cons back, componentsOf_piece isPiece] at whole
    · intro _
      exact locate_separated found (other' [] nofun)
    · exact fun some => absurd rfl some
    · exact fun _ => nofun
  have located := locate_separated found other
  rw [separated_cons, found', componentsOf_cons found'] at located
  apply keeps_of_ends located
  rw [made]
  have ends := @Covers.tail matcher files .network [] [[first]]
    (second :: text) (covers_nil stands) nofun
  rw [componentsOf_cons found', List.nil_append] at ends
  refine ends pieces (fun _ => server) ?_
  intro context member
  obtain rfl := List.mem_singleton.mp member
  exact List.cons_ne_nil _ _

end

/-! ## Arguments that lose their root -/

section

variable {matcher : Matcher}

/-- A path of which every component exists below every root. -/
def chain (matcher : Matcher) (path : List Text)
    (valid : ∀ name ∈ path, IsName name ∨ name ∈ dots) :
    FileSystem matcher where
  entries directory :=
    if directory.components.isPrefixOf path then
      (path[directory.components.length]?).toList.filter (· ∉ dots)
    else []
  selfAndParent _ := []
  names := by
    intro directory name member
    split at member
    · obtain ⟨here, free⟩ := List.mem_filter.mp member
      have inside := List.mem_of_getElem? (Option.mem_toList.mp here)
      exact (valid name inside).resolve_right (of_decide_eq_true free)
    · exact nomatch member
  single := by
    intro directory component _ first inFirst second inSecond _ _
    split at inFirst
    · rename_i inside
      rw [if_pos inside] at inSecond
      have here := Option.mem_toList.mp (List.mem_filter.mp inFirst).1
      have there := Option.mem_toList.mp (List.mem_filter.mp inSecond).1
      exact Option.some.inj (here.symm.trans there)
    · exact nomatch inFirst
  dotted := nofun

/-- A name for every component. -/
def Realises (matcher : Matcher) (component name : Text) : Prop :=
  (component ∈ dots ∧ name = component) ∨
    (component ∉ dots ∧ IsName name ∧ matcher.fits component name = true)

theorem exists_names (components : List Text)
    (pieces : ∀ component ∈ components, IsPiece component) :
    ∃ names, List.Forall₂ (Realises matcher) components names := by
  induction components with
  | nil => exact ⟨[], .nil⟩
  | cons component components inductionHypothesis =>
      obtain ⟨names, realised⟩ := inductionHypothesis
        fun component member => pieces _ (List.mem_cons_of_mem _ member)
      by_cases dot : component ∈ dots
      · exact ⟨component :: names, .cons (Or.inl ⟨dot, rfl⟩) realised⟩
      · obtain ⟨name, isName, fits⟩ := matcher.fits_some component
          (pieces _ List.mem_cons_self) dot
        exact ⟨name :: names, .cons (Or.inr ⟨dot, isName, fits⟩) realised⟩

theorem valid_of_realises {components names : List Text}
    (realised : List.Forall₂ (Realises matcher) components names) :
    ∀ name ∈ names, IsName name ∨ name ∈ dots := by
  induction realised with
  | nil => exact nofun
  | cons first _ inductionHypothesis =>
      rw [List.forall_mem_cons]
      refine ⟨?_, inductionHypothesis⟩
      rcases first with ⟨dot, rfl⟩ | ⟨_, isName, _⟩
      · exact Or.inr dot
      · exact Or.inl isName

theorem chain_resolves {components names : List Text}
    (realised : List.Forall₂ (Realises matcher) components names)
    (valid : ∀ name ∈ names, IsName name ∨ name ∈ dots) (root : Root) :
    PathPattern.Resolves ((chain matcher names valid).lookup root)
      components names := by
  have front (count : Nat) (inside : count ≤ names.length) :
      PathPattern.Resolves ((chain matcher names valid).lookup root)
        (components.take count) (names.take count) := by
    induction count with
    | zero => exact .nil
    | succ count inductionHypothesis =>
        have here : count < names.length := inside
        have here' : count < components.length := by
          rwa [realised.length_eq]
        have before := inductionHypothesis (Nat.le_of_lt here)
        rw [List.take_succ_eq_append_getElem here,
          List.take_succ_eq_append_getElem here']
        rcases realised.get here' here with
          ⟨dot, same⟩ | ⟨free, isName, fits⟩
        · rw [List.get_eq_getElem, List.get_eq_getElem] at same
          rw [same]
          exact .fixed before dot
        · refine .entry before free ?_ fits
          have listed : names.take count <+: names := List.take_prefix _ _
          have length : (names.take count).length = count := by
            rw [List.length_take]
            omega
          change names[count] ∈ if (names.take count).isPrefixOf names then
            (names[(names.take count).length]?).toList.filter (· ∉ dots)
            else []
          rw [if_pos (List.isPrefixOf_iff_prefix.mpr listed), length,
            List.getElem?_eq_getElem here, Option.toList_some]
          exact List.mem_filter.mpr ⟨List.mem_singleton_self _,
            decide_eq_true isName.2.2⟩
  have whole := front names.length (Nat.le_refl _)
  rwa [List.take_length, ← realised.length_eq, List.take_length] at whole

/-- What is found comes back as a bare name. -/
theorem chain_next {root : Root} {first word name : Text} {rest : List Text}
    (valid : ∀ other ∈ name :: rest, IsName other ∨ other ∈ dots)
    (isName : IsName name) (free : first ∉ dots)
    (begins : locate first = ⟨root, [word]⟩)
    (ends : separated first.reverse = false)
    (fits : matcher.fits word name = true) :
    nextContexts (chain matcher (name :: rest) valid).find [[]] first =
      [name] := by
  have entries : (chain matcher (name :: rest) valid).entries ⟨root, []⟩ =
      [name] := by
    change [name].filter (· ∉ dots) = [name]
    rw [List.filter_singleton, decide_eq_true isName.2.2]
    rfl
  have listed : (chain matcher (name :: rest) valid).listed ⟨root, []⟩ word =
      [name] := by
    rw [FileSystem.listed, entries, List.filter_singleton, fits]
    split <;> rfl
  have found := @find_eq matcher (chain matcher (name :: rest) valid) root []
    word first begins ends
  rw [listed, if_neg (List.cons_ne_nil _ _)] at found
  rw [nextContexts, if_neg free, List.flatMap_singleton]
  dsimp only [baseOf]
  rw [if_pos rfl, List.nil_append, found]
  dsimp only
  rw [List.filter_singleton, decide_eq_true isName.2.2]
  rfl

/-- A first component that is found leads to another root. -/
theorem loses_of_led {root : Root} {argw first word tail : Text}
    (led : Led argw root first word tail) (free : first ∉ dots)
    (wild : word ∉ dots) (other : root ≠ .current) :
    ∃ files : FileSystem matcher, ¬ KeepsLocation files argw := by
  obtain ⟨name, isName, fits⟩ :=
    matcher.fits_some word led.isPiece wild
  obtain ⟨rest, realised⟩ := @exists_names matcher _ led.pieces
  have realised' : List.Forall₂ (Realises matcher)
      (name :: componentsOf tail) (name :: rest) :=
    .cons (Or.inr ⟨isName.2.2, isName, matcher.fits_self name isName⟩)
      realised
  have valid := valid_of_realises realised'
  refine ⟨chain matcher (name :: rest) valid, fun keeps => ?_⟩
  have start := @covers_nil matcher (chain matcher (name :: rest) valid)
    .current [] stands_current
  have bare := start.next nofun isName.1 nofun
  rw [chain_next valid isName isName.2.2 (locate_piece isName.1)
    (separated_piece isName.1 []) (matcher.fits_self name isName)] at bare
  have ends := bare.rest (List.cons_ne_nil _ _) nofun nofun led.pieces
  have expanded := getWildcard_led led
    (chain matcher (name :: rest) valid).find
  rw [chain_next valid isName free led.begins led.ends fits] at expanded
  rw [← expanded, List.nil_append, List.singleton_append] at ends
  have resolves := chain_resolves realised' valid .current
  obtain ⟨path, member, located⟩ := ends.complete _ resolves
  have named : (chain matcher (name :: rest) valid).Names (locate path)
      (name :: rest) := by
    rw [located]
    exact ⟨plain_of_resolves resolves, resolves.self (proper _ _)⟩
  have same := (keeps.found path member _ named).1
  rw [located, led.located] at same
  exact other same.symm

/-- A path that goes to a root without being one. -/
theorem loses_of_root {root other : Root} {argw path : Text}
    {components : List Text} (located : locate argw = ⟨root, components⟩)
    (made : ∀ find, getWildcard find argw = [path])
    (moved : locate path = ⟨other, []⟩) (apart : other ≠ root) :
    ∃ files : FileSystem matcher, ¬ KeepsLocation files argw := by
  refine ⟨chain matcher [] nofun, fun keeps => ?_⟩
  have named : (chain matcher [] nofun).Names (locate path) [] := by
    rw [moved]
    exact ⟨nofun, .nil⟩
  have same := (keeps.found path (by rw [made]; simp) [] named).1
  rw [moved, located] at same
  exact apart same

end

/-! ## Which arguments keep their root -/

section

variable {matcher : Matcher}

theorem keeps_iff_of_led {root : Root} {argw first word tail : Text}
    (led : Led argw root first word tail) (free : first ∉ dots)
    (other : root ≠ .extended) (server : root ≠ .network)
    (apart : root ≠ .current) :
    (∀ files : FileSystem matcher, KeepsLocation files argw) ↔
      word ∈ dots := by
  constructor
  · intro keeps
    by_contra wild
    obtain ⟨files, loses⟩ := @loses_of_led matcher _ _ _ _ _ led free wild
      apart
    exact loses (keeps files)
  · intro dot files
    exact keeps_dot led free dot other server

theorem loses_empty : ∃ files : FileSystem matcher,
    ¬ KeepsLocation files [] := by
  refine @loses_of_root matcher .current .rooted [] [backslash] [] rfl ?_
    rfl nofun
  intro find
  rw [getWildcard, splitComponents, if_neg nofun, @splitFrom_plain [] nofun]
  rfl

theorem loses_drive {letter : Char} (alpha : letter.isAlpha = true) :
    ∃ files : FileSystem matcher, ¬ KeepsLocation files [letter, ':'] := by
  have notSeparator := not_separator_of_alpha alpha
  refine @loses_of_root matcher (.drive letter false) (.drive letter true)
    [letter, ':'] [letter, ':', backslash] [] (locate_drive alpha []) ?_
    (locate_drive alpha [backslash]) (fun same => nomatch same)
  intro find
  have plain : ∀ character ∈ [letter, ':'],
      isSeparator character = false :=
    List.forall_mem_cons.mpr
      ⟨notSeparator, List.forall_mem_cons.mpr ⟨by decide, nofun⟩⟩
  rw [getWildcard, splitComponents, not_isUnc_of_head notSeparator,
    if_neg Bool.false_ne_true, splitFrom_plain plain, findBaseContext,
    if_pos ⟨wideLength_drive alpha, rfl⟩]
  rfl

/-- A separator alone is not searched for. -/
theorem keeps_separator {separator : Char} {files : FileSystem matcher}
    (found : isSeparator separator = true)
    (other : isUnc [separator] = false) :
    KeepsLocation files [separator] := by
  have located := locate_separated found other
  apply keeps_of_ends located
  have free : [separator] ∉ dots := not_mem_dots_of_separator found []
  have lost : files.find [separator] = none := find_eq_none found
  have made : getWildcard files.find [separator] = [[separator]] := by
    rw [getWildcard, splitComponents, other, if_neg Bool.false_ne_true,
      @splitFrom_separated [] separator found nofun,
      findBaseContext_of_first (List.cons_ne_nil _ _) other
        (fun colon => nomatch colon)]
    dsimp only
    rw [List.foldl_cons, List.foldl_nil, nextContexts, if_neg free,
      List.flatMap_singleton]
    dsimp only [baseOf]
    rw [if_pos rfl, List.nil_append, lost]
  rw [made]
  constructor
  · intro path member
    obtain rfl := List.mem_singleton.mp member
    exact ⟨[], located, .nil⟩
  · intro names resolves
    obtain rfl := List.length_eq_zero_iff.mp resolves.length_eq
    exact ⟨_, List.mem_singleton_self _, located⟩

theorem keepsRoot_of_rooted {argw word : Text} {rest : List Text}
    (located : locate argw = ⟨.rooted, word :: rest⟩) :
    KeepsRoot argw ↔ word ∈ dots := by
  rw [KeepsRoot, located]
  simp

theorem keepsRoot_of_drive {argw word : Text} {letter : Char}
    {rest : List Text}
    (located : locate argw = ⟨.drive letter false, word :: rest⟩) :
    KeepsRoot argw ↔ word ∈ dots := by
  rw [KeepsRoot, located]
  simp

end

/-- In every file system an argument expands to paths from its own root,
exactly when it is not a component directly behind one separator or a drive,
other than `.` and `..`, nor a drive alone or empty. -/
theorem wildcards_keep_location (matcher : Matcher) {argw : Text}
    (isPath : IsPath argw) :
    (∀ files : FileSystem matcher, KeepsLocation files argw) ↔
      KeepsRoot argw := by
  unfold IsPath at isPath
  by_cases unc : isUnc argw = true
  · have located : locate argw = ⟨.extended, componentsOf (argw.drop 4)⟩ := by
      rw [locate, if_pos unc]
    refine iff_of_true (fun files => keeps_extended unc) ?_
    rw [KeepsRoot, located]
    trivial
  · rw [Bool.not_eq_true] at unc
    cases argw with
    | nil =>
        obtain ⟨files, loses⟩ := @loses_empty matcher
        exact iff_of_false (fun keeps => loses (keeps files))
          (fun some => some rfl)
    | cons head text =>
        cases first : isSeparator head with
        | true =>
            have located := locate_separated first unc
            cases text with
            | nil =>
                refine iff_of_true (fun files => keeps_separator first unc) ?_
                rw [KeepsRoot, located]
                exact nofun
            | cons second text =>
                rw [separated_cons] at located
                cases next : isSeparator second with
                | true =>
                    rw [next, componentsOf_cons next] at located
                    rw [located] at isPath
                    refine iff_of_true (fun files => keeps_network first
                      next unc isPath.1 isPath.2) ?_
                    rw [KeepsRoot, located]
                    trivial
                | false =>
                    rw [next] at located
                    rw [located] at isPath
                    obtain ⟨front, word, tail, led, free⟩ :=
                      led_rooted first next isPath
                    rw [keeps_iff_of_led led free nofun nofun nofun,
                      keepsRoot_of_rooted led.located]
        | false =>
            by_cases drive : hasDrive (head :: text) = true
            · rw [hasDrive, decide_eq_true_eq] at drive
              obtain ⟨alpha, colon⟩ := drive
              cases text with
              | nil => exact nomatch colon
              | cons second text =>
                  obtain rfl := Option.some.inj colon
                  have located := locate_drive alpha text
                  cases text with
                  | nil =>
                      obtain ⟨files, loses⟩ := @loses_drive matcher _ alpha
                      refine iff_of_false
                        (fun keeps => loses (keeps files)) ?_
                      rw [KeepsRoot, located]
                      exact nofun
                  | cons third text =>
                      rw [separated_cons] at located
                      cases next : isSeparator third with
                      | true =>
                          rw [next, componentsOf_cons next] at located
                          rw [located] at isPath
                          refine iff_of_true (fun files =>
                            keeps_drive alpha next isPath) ?_
                          rw [KeepsRoot, located]
                          trivial
                      | false =>
                          rw [next] at located
                          rw [located] at isPath
                          obtain ⟨front, word, tail, led, free⟩ :=
                            led_drive alpha next isPath
                          rw [keeps_iff_of_led led free nofun nofun nofun,
                            keepsRoot_of_drive led.located]
            · rw [Bool.not_eq_true] at drive
              have located := locate_current first drive
              rw [located] at isPath
              obtain ⟨word, tail, led⟩ := led_current first isPath located
              refine iff_of_true (fun files => keeps_current led) ?_
              rw [KeepsRoot, led.located]
              exact List.cons_ne_nil _ _

/-- A name for the files below. -/
theorem isName_letter : IsName ['a'] :=
  ⟨isPiece_singleton rfl (by decide), rfl, by decide⟩

/-- Wildcards match every name, and other components match themselves. -/
def anyName : Matcher where
  fits component name :=
    component ∉ dots ∧ (hasWildcard component = true ∨ component = name)
  fits_self := by
    intro name isName
    exact decide_eq_true ⟨isName.2.2, Or.inr rfl⟩
  fits_dots := by
    intro component dot name _
    exact decide_eq_false fun both => both.1 dot
  fits_some := by
    intro component isPiece free
    cases wild : hasWildcard component with
    | true =>
        exact ⟨['a'], isName_letter, decide_eq_true ⟨free, Or.inl rfl⟩⟩
    | false =>
        exact ⟨component, ⟨isPiece, wild, free⟩,
          decide_eq_true ⟨free, Or.inr rfl⟩⟩

/-- A directory with one file. -/
def fileBelow : FileSystem anyName :=
  chain anyName [['a'], ['a']] (by
    intro name member
    have same : name = ['a'] := by simpa using member
    rw [same]
    exact Or.inl isName_letter)

/-- Every file in a directory of the drive is found, and nothing else. -/
theorem wildcards_keep_location_drive :
    KeepsLocation fileBelow ['C', ':', backslash, '*', backslash, '*'] := by
  have located : locate ['C', ':', backslash, '*', backslash, '*'] =
      ⟨.drive 'C' true, [['*'], ['*']]⟩ := by
    decide
  have isPath : IsPath ['C', ':', backslash, '*', backslash, '*'] := by
    have star : IsPiece ['*'] := isPiece_singleton rfl (by decide)
    rw [IsPath, located]
    exact List.forall_mem_cons.mpr
      ⟨star, List.forall_mem_singleton.mpr star⟩
  have keepsRoot :
      KeepsRoot ['C', ':', backslash, '*', backslash, '*'] := by
    rw [KeepsRoot, located]
    trivial
  exact (wildcards_keep_location anyName isPath).mpr keepsRoot fileBelow

/-- A file in the root directory, and one of the same name in the current
directory. -/
def sameNames : FileSystem anyName :=
  chain anyName [['a']]
    (List.forall_mem_singleton.mpr (Or.inl isName_letter))

/-- The file in the root directory expands to the other one. -/
theorem rooted_file_elsewhere :
    ¬ ∀ (files : FileSystem anyName) (argw : Text), IsPath argw →
      KeepsLocation files argw := by
  intro all
  have located : locate [backslash, 'a'] = ⟨.rooted, [['a']]⟩ := by
    decide
  have isPath : IsPath [backslash, 'a'] := by
    rw [IsPath, located]
    exact List.forall_mem_singleton.mpr isName_letter.1
  have keeps := all sameNames _ isPath
  have made : getWildcard sameNames.find [backslash, 'a'] = [['a']] := by
    decide +kernel
  have here : locate ['a'] = ⟨.current, [['a']]⟩ := by
    decide
  have named : sameNames.Names (locate ['a']) [['a']] := by
    rw [here]
    have free := isName_letter.2.2
    exact ⟨by decide, @PathPattern.Resolves.entry Text
      (sameNames.lookup .current) [] [] ['a'] ['a'] .nil free
      (List.mem_singleton_self _) rfl⟩
  have same := (keeps.found ['a'] (by rw [made]; simp) _ named).1
  rw [here, located] at same
  exact nomatch same

end Winglob

end Maxcso
