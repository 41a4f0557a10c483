import Mathlib.Tactic.Common

/-!
# Paths with patterns

A path is a list of patterns that are looked up one after the other, each in
the directory that the names before it lead to.  Some patterns are fixed: they
stand for themselves and are not looked up.
-/

namespace PathPattern

universe u

variable {alpha : Type u}

/-- Directories by the path that leads to them, and which names a pattern
stands for. -/
structure Lookup (alpha : Type u) where
  entries : List alpha → List alpha
  fits : alpha → alpha → Prop
  fixed : alpha → Prop

/-- A list of patterns stands for a path of names that exists. -/
inductive Resolves (lookup : Lookup alpha) :
    List alpha → List alpha → Prop
  | nil : Resolves lookup [] []
  | fixed {patterns names : List alpha} {pattern : alpha} :
      Resolves lookup patterns names → lookup.fixed pattern →
      Resolves lookup (patterns ++ [pattern]) (names ++ [pattern])
  | entry {patterns names : List alpha} {pattern name : alpha} :
      Resolves lookup patterns names → ¬ lookup.fixed pattern →
      name ∈ lookup.entries names → lookup.fits pattern name →
      Resolves lookup (patterns ++ [pattern]) (names ++ [name])

/-- An expansion of a list of patterns: a pattern without an entry is left as
it is. -/
inductive Expands (lookup : Lookup alpha) :
    List alpha → List alpha → Prop
  | nil : Expands lookup [] []
  | fixed {patterns names : List alpha} {pattern : alpha} :
      Expands lookup patterns names → lookup.fixed pattern →
      Expands lookup (patterns ++ [pattern]) (names ++ [pattern])
  | entry {patterns names : List alpha} {pattern name : alpha} :
      Expands lookup patterns names → ¬ lookup.fixed pattern →
      name ∈ lookup.entries names → lookup.fits pattern name →
      Expands lookup (patterns ++ [pattern]) (names ++ [name])
  | missing {patterns names : List alpha} {pattern : alpha} :
      Expands lookup patterns names → ¬ lookup.fixed pattern →
      (∀ name ∈ lookup.entries names, ¬ lookup.fits pattern name) →
      Expands lookup (patterns ++ [pattern]) (names ++ [pattern])

/-- A pattern stands for one entry of a directory at most. -/
def Lookup.Plain (lookup : Lookup alpha) (pattern : alpha) : Prop :=
  ∀ names, ∀ first ∈ lookup.entries names, ∀ second ∈ lookup.entries names,
    lookup.fits pattern first → lookup.fits pattern second → first = second

/-- The names of entries stand for themselves only. -/
structure Lookup.Proper (lookup : Lookup alpha) : Prop where
  fits_self : ∀ names, ∀ name ∈ lookup.entries names, lookup.fits name name
  plain : ∀ names, ∀ name ∈ lookup.entries names, lookup.Plain name
  not_fixed : ∀ names, ∀ name ∈ lookup.entries names, ¬ lookup.fixed name

variable {lookup : Lookup alpha} {patterns names : List alpha}
variable {pattern : alpha}

theorem Resolves.length_eq (resolves : Resolves lookup patterns names) :
    names.length = patterns.length := by
  induction resolves with
  | nil => rfl
  | fixed _ _ inductionHypothesis => simp [inductionHypothesis]
  | entry _ _ _ _ inductionHypothesis => simp [inductionHypothesis]

theorem Expands.length_eq (expands : Expands lookup patterns names) :
    names.length = patterns.length := by
  induction expands with
  | nil => rfl
  | fixed _ _ inductionHypothesis => simp [inductionHypothesis]
  | entry _ _ _ _ inductionHypothesis => simp [inductionHypothesis]
  | missing _ _ _ inductionHypothesis => simp [inductionHypothesis]

/-- The last pattern of a path is fixed or looked up where the others lead. -/
theorem Resolves.last_cases
    (resolves : Resolves lookup (patterns ++ [pattern]) names) :
    ∃ front last, names = front ++ [last] ∧
      Resolves lookup patterns front ∧
        ((lookup.fixed pattern ∧ last = pattern) ∨
          (¬ lookup.fixed pattern ∧ last ∈ lookup.entries front ∧
            lookup.fits pattern last)) := by
  generalize whole : patterns ++ [pattern] = all at resolves
  cases resolves with
  | nil => simp at whole
  | @fixed patterns' front pattern' before fixed =>
      obtain ⟨rfl, same⟩ := List.append_inj' whole rfl
      obtain rfl := List.singleton_inj.mp same
      exact ⟨front, pattern, rfl, before, Or.inl ⟨fixed, rfl⟩⟩
  | @entry patterns' front pattern' name before free member fits =>
      obtain ⟨rfl, same⟩ := List.append_inj' whole rfl
      obtain rfl := List.singleton_inj.mp same
      exact ⟨front, name, rfl, before, Or.inr ⟨free, member, fits⟩⟩

/-- A path of names that exists stands for itself. -/
theorem Resolves.self (proper : lookup.Proper)
    (resolves : Resolves lookup patterns names) :
    Resolves lookup names names := by
  induction resolves with
  | nil => exact .nil
  | fixed before fixed inductionHypothesis =>
      exact .fixed inductionHypothesis fixed
  | entry before free member fits inductionHypothesis =>
      exact .entry inductionHypothesis (proper.not_fixed _ _ member) member
        (proper.fits_self _ _ member)

/-- An expansion that exists has been found by its patterns. -/
theorem Expands.resolves {found : List alpha} (proper : lookup.Proper)
    (expands : Expands lookup patterns names)
    (resolves : Resolves lookup names found) :
    found = names ∧ Resolves lookup patterns names := by
  induction expands generalizing found with
  | nil =>
      generalize none : ([] : List alpha) = nothing at resolves
      cases resolves with
      | nil => exact ⟨rfl, .nil⟩
      | fixed => simp at none
      | entry => simp at none
  | @fixed patterns names pattern _ fixed inductionHypothesis =>
      obtain ⟨front, last, rfl, before, kind⟩ := resolves.last_cases
      obtain ⟨rfl, again⟩ := inductionHypothesis before
      rcases kind with ⟨_, rfl⟩ | ⟨free, _⟩
      · exact ⟨rfl, .fixed again fixed⟩
      · exact absurd fixed free
  | @entry patterns names pattern name _ free member fits
      inductionHypothesis =>
      obtain ⟨front, last, rfl, before, kind⟩ := resolves.last_cases
      obtain ⟨rfl, again⟩ := inductionHypothesis before
      rcases kind with ⟨fixed, _⟩ | ⟨_, member', fits'⟩
      · exact absurd fixed (proper.not_fixed _ _ member)
      · have same := proper.plain _ _ member _ _ member' _ member fits'
          (proper.fits_self _ _ member)
        exact ⟨by rw [same], .entry again free member fits⟩
  | @missing patterns names pattern _ free none inductionHypothesis =>
      obtain ⟨front, last, rfl, before, kind⟩ := resolves.last_cases
      obtain ⟨rfl, again⟩ := inductionHypothesis before
      rcases kind with ⟨fixed, _⟩ | ⟨_, member', fits'⟩
      · exact absurd fixed free
      · exact absurd fits' (none _ member')

/-- Patterns that stand for one entry at most have one expansion when that
exists. -/
theorem Expands.unique {found : List alpha}
    (plain : ∀ pattern ∈ patterns, ¬ lookup.fixed pattern →
      lookup.Plain pattern)
    (expands : Expands lookup patterns names)
    (resolves : Resolves lookup patterns found) : names = found := by
  induction expands generalizing found with
  | nil =>
      generalize none : ([] : List alpha) = nothing at resolves
      cases resolves with
      | nil => rfl
      | fixed => simp at none
      | entry => simp at none
  | @fixed patterns names pattern _ fixed inductionHypothesis =>
      obtain ⟨front, last, rfl, before, kind⟩ := resolves.last_cases
      obtain rfl := inductionHypothesis
        (fun pattern member => plain pattern (List.mem_append_left _ member))
        before
      rcases kind with ⟨_, rfl⟩ | ⟨free, _⟩
      · rfl
      · exact absurd fixed free
  | @entry patterns names pattern name _ free member fits
      inductionHypothesis =>
      obtain ⟨front, last, rfl, before, kind⟩ := resolves.last_cases
      obtain rfl := inductionHypothesis
        (fun pattern member => plain pattern (List.mem_append_left _ member))
        before
      rcases kind with ⟨fixed, _⟩ | ⟨_, member', fits'⟩
      · exact absurd fixed free
      · have same := plain pattern (by simp) free _ _ member _ member' fits
          fits'
        rw [same]
  | @missing patterns names pattern _ free none inductionHypothesis =>
      obtain ⟨front, last, rfl, before, kind⟩ := resolves.last_cases
      obtain rfl := inductionHypothesis
        (fun pattern member => plain pattern (List.mem_append_left _ member))
        before
      rcases kind with ⟨fixed, _⟩ | ⟨_, member', fits'⟩
      · exact absurd fixed free
      · exact absurd fits' (none _ member')

end PathPattern
