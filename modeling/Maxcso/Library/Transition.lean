import Mathlib.Data.List.Induction
import Mathlib.Tactic.Common

/-!
# Partial step functions and their executions

A system is a partial function from a state and an event to the next state.
`Execution step allowed` relates a state, a list of events and the state they
lead to when every step satisfies `allowed`.  A condition that a run has to
meet at each of its steps is such an `allowed`.
-/

namespace Transition

universe u v w x y

variable {State : Type u} {Event : Type v}
variable {State' : Type w} {Event' : Type x}

inductive Execution
    (step : State → Event → Option State)
    (allowed : State → Event → Prop) :
    State → List Event → State → Prop
  | nil (state : State) : Execution step allowed state [] state
  | snoc {source middle target : State} {events : List Event}
      {event : Event} :
      Execution step allowed source events middle →
      allowed middle event →
      step middle event = some target →
      Execution step allowed source (events ++ [event]) target

/-- The state that a list of events leads to. -/
def runEvents (step : State → Event → Option State) :
    State → List Event → Option State
  | state, [] => some state
  | state, event :: events =>
      (step state event).bind fun next => runEvents step next events

/-- A step function that refuses the steps that fail a check. -/
def guarded (check : State → Event → Bool)
    (step : State → Event → Option State) (state : State) (event : Event) :
    Option State :=
  if check state event then step state event else none

/-- No condition on the steps. -/
def Always (_ : State) (_ : Event) : Prop := True

/-- Both conditions on the steps. -/
def Both (first second : State → Event → Prop) (state : State)
    (event : Event) : Prop :=
  first state event ∧ second state event

/-- No allowed step is possible. -/
def Settled (step : State → Event → Option State)
    (allowed : State → Event → Prop) (state : State) : Prop :=
  ∀ event next, allowed state event → step state event ≠ some next

variable {step : State → Event → Option State}
variable {allowed : State → Event → Prop}

namespace Execution

/-- What every allowed step preserves holds along every execution; the
property may speak about the events so far. -/
theorem track
    {property : List Event → State → Prop}
    (preserved : ∀ events source event target,
      property events source → allowed source event →
        step source event = some target →
          property (events ++ [event]) target)
    {source target : State} {events : List Event}
    (run : Execution step allowed source events target)
    (initially : property [] source) :
    property events target := by
  induction run with
  | nil =>
      exact initially
  | snoc _ permitted taken inductionHypothesis =>
      exact preserved _ _ _ _ inductionHypothesis permitted taken

theorem invariant
    {property : State → Prop}
    (preserved : ∀ source event target,
      property source → allowed source event →
        step source event = some target → property target)
    {source target : State} {events : List Event}
    (run : Execution step allowed source events target)
    (initially : property source) :
    property target :=
  @track State Event step allowed (fun _ state => property state)
    (fun _ => preserved) source target events run initially

theorem single
    {source target : State} {event : Event}
    (permitted : allowed source event)
    (taken : step source event = some target) :
    Execution step allowed source [event] target :=
  Execution.snoc (Execution.nil source) permitted taken

theorem append
    {source middle target : State} {first second : List Event}
    (before : Execution step allowed source first middle)
    (after : Execution step allowed middle second target) :
    Execution step allowed source (first ++ second) target := by
  induction after with
  | nil =>
      simpa using before
  | snoc _ permitted taken inductionHypothesis =>
      rw [← List.append_assoc]
      exact Execution.snoc inductionHypothesis permitted taken

theorem weaken
    {weaker : State → Event → Prop}
    (weakens : ∀ state event, allowed state event → weaker state event)
    {source target : State} {events : List Event}
    (run : Execution step allowed source events target) :
    Execution step weaker source events target := by
  induction run with
  | nil =>
      exact Execution.nil _
  | snoc _ permitted taken inductionHypothesis =>
      exact Execution.snoc inductionHypothesis
        (weakens _ _ permitted) taken

theorem left
    {allowed' : State → Event → Prop}
    {source target : State} {events : List Event}
    (run : Execution step (Both allowed allowed') source events target) :
    Execution step allowed source events target :=
  run.weaken fun _ _ both => both.1

theorem last_step
    {source target : State} {events : List Event} {event : Event}
    (run : Execution step allowed source (events ++ [event]) target) :
    ∃ middle,
      Execution step allowed source events middle ∧
        allowed middle event ∧ step middle event = some target := by
  generalize all : events ++ [event] = whole at run
  cases run with
  | nil =>
      simp at all
  | snoc before permitted taken =>
      obtain ⟨rfl, same⟩ := List.append_inj' all rfl
      obtain rfl := List.singleton_inj.mp same
      exact ⟨_, before, permitted, taken⟩

/-- A run is determined by its events. -/
theorem unique
    {allowed' : State → Event → Prop}
    {source first second : State} {events : List Event}
    (run : Execution step allowed source events first)
    (run' : Execution step allowed' source events second) :
    first = second := by
  induction run generalizing second with
  | nil =>
      generalize none : ([] : List Event) = events at run'
      cases run' with
      | nil => rfl
      | snoc => simp at none
  | snoc _ _ taken inductionHypothesis =>
      obtain ⟨middle, before, _, taken'⟩ := run'.last_step
      obtain rfl := inductionHypothesis before
      exact Option.some.inj (taken.symm.trans taken')

/-- Lockstep: when matching events keep two states related, two runs over
lists of matching events end in related states. -/
theorem lockstep
    {matched : Event → Event' → Prop}
    {step' : State' → Event' → Option State'}
    {related : State → State' → Prop}
    (matching : ∀ source source' event event' target,
      related source source' → matched event event' →
        allowed source event → step source event = some target →
          ∃ target', step' source' event' = some target' ∧
            related target target')
    {source : State} {source' : State'} (initially : related source source')
    (events : List (Event × Event'))
    (similar : ∀ pair ∈ events, matched pair.1 pair.2)
    {target : State}
    (run : Execution step allowed source (events.map Prod.fst) target) :
    ∃ target',
      Execution step' Always source' (events.map Prod.snd) target' ∧
        related target target' := by
  induction events using List.reverseRecOn generalizing target with
  | nil =>
      obtain rfl := run.unique (@Execution.nil _ _ step allowed source)
      exact ⟨source', Execution.nil source', initially⟩
  | append_singleton events pair inductionHypothesis =>
      rw [List.map_append] at run ⊢
      obtain ⟨middle, before, permitted, taken⟩ := run.last_step
      obtain ⟨middle', before', again⟩ :=
        inductionHypothesis
          (fun pair member =>
            similar pair (List.mem_append_left _ member)) before
      obtain ⟨target', taken', finally'⟩ :=
        matching middle middle' pair.1 pair.2 target again
          (similar pair (by simp)) permitted taken
      exact ⟨target', before'.snoc trivial taken', finally'⟩

/-- A run that has been computed, with a check of every step. -/
theorem of_runEvents
    {check : State → Event → Bool}
    (sound : ∀ state event, check state event = true → allowed state event)
    {source target : State} {events : List Event}
    (reached : runEvents (guarded check step) source events = some target) :
    Execution step allowed source events target := by
  induction events generalizing source with
  | nil =>
      obtain rfl := Option.some.inj reached
      exact Execution.nil source
  | cons event events inductionHypothesis =>
      obtain ⟨next, taken, rest⟩ := Option.bind_eq_some_iff.mp reached
      unfold guarded at taken
      split at taken
      · exact (Execution.single (sound source event ‹_›) taken).append
          (inductionHypothesis rest)
      · exact nomatch taken

/-- When the runs that have not reached the goal are bounded, some run reaches
it or cannot be continued. -/
theorem exhausts
    {goal : State → Prop} {bound : Nat} {source : State}
    (bounded : ∀ events target, Execution step allowed source events target →
      ¬ goal target → events.length ≤ bound) :
    ∃ events target, Execution step allowed source events target ∧
      (goal target ∨ Settled step allowed target) := by
  by_contra none
  have long : ∀ count, ∃ events target,
      Execution step allowed source events target ∧
        events.length = count := by
    intro count
    induction count with
    | zero => exact ⟨[], source, Execution.nil source, rfl⟩
    | succ count inductionHypothesis =>
        obtain ⟨events, target, run, length⟩ := inductionHypothesis
        have unsettled : ¬ Settled step allowed target :=
          fun settled => none ⟨events, target, run, Or.inr settled⟩
        unfold Settled at unsettled
        push Not at unsettled
        obtain ⟨event, next, permitted, taken⟩ := unsettled
        refine ⟨events ++ [event], next, run.snoc permitted taken, ?_⟩
        rw [List.length_append, length]
        rfl
  obtain ⟨events, target, run, length⟩ := long (bound + 1)
  have short := bounded events target run
    fun reached => none ⟨events, target, run, Or.inl reached⟩
  omega

end Execution

end Transition
