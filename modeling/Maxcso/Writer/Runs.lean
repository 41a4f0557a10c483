import Maxcso.Writer.Refinement

/-!
# Runs of the writer

What holds at the start and is kept by every move of a course holds in every
run of the writer.
-/

namespace Maxcso

open Transition

namespace Writer

/-- Runs of the writer on an image. -/
abbrev Run (config : WriterConfig) (env : Environment) (image : Bytes)
    (may : Completions) : Writer → List WriterEvent → Writer → Prop :=
  Execution (step env) (Allowed config image may)

section

variable {archive : Archive} {may : Completions}

/-- The writer is on a course with a property. -/
def OnCourse (archive : Archive) (property : Course → Prop)
    (writer : Writer) : Prop :=
  ∃ pipeline filled, Follows archive pipeline filled writer ∧
    Course.Sound archive (writer.course pipeline filled) ∧
    property (writer.course pipeline filled)

theorem course_start (pool : BufferPool) :
    (start archive.env archive.toWriterConfig pool).course
        (.empty .filling) 0 = Course.start archive := by
  have calls : (start archive.env archive.toWriterConfig pool).calls = [] :=
    congrArg (List.map WriterCall.output) archive.accepted
  have output : (start archive.env archive.toWriterConfig pool).output =
      archive.base := rfl
  have first : archive.pos 0 = archive.base.dstPos := rfl
  unfold Writer.course Course.start
  rw [calls, output, first, Archive.base_eq]
  rfl

theorem placed_start : Output.Placed archive (.empty .filling) archive.base := by
  have none : ∀ (id : SectorId) (block : Nat),
      ¬ Pipeline.Holds (.empty BlockStage.filling) id block := by
    intro id block holds
    exact nomatch holds.2
  have empty : ∀ {Label : Type} (label : Nat → Label)
      (staged : BlockStage → Prop) (member : Label → SectorId → Prop),
      (∀ tag id, ¬ member tag id) →
        Pipeline.Tracks (.empty BlockStage.filling) label staged member := by
    intro Label label staged member absent tag id
    refine iff_of_false (absent tag id) ?_
    rintro ⟨block, _, holds, _⟩
    exact none id block holds
  rw [Archive.base_eq]
  refine ⟨?_, rfl, ?_, List.nodup_nil, empty _ _ _ ?_, List.Pairwise.nil,
    empty _ _ _ ?_, List.Pairwise.nil, fun _ => empty _ _ _ ?_⟩
  · rw [Archive.base_eq]
    exact ⟨rfl, rfl, rfl, rfl, rfl, rfl, rfl, rfl⟩
  · exact List.Perm.of_eq (List.append_nil _)
  · intro tag id member
    exact nomatch member
  · intro tag id member
    exact nomatch member
  · intro tag id member
    exact nomatch member

theorem follows_start {pool : BufferPool}
    (room : archive.blockSize ≤ pool.bufferSize) :
    Follows archive (.empty .filling) 0
      (start archive.env archive.toWriterConfig pool) := by
  refine ⟨placed_start, ⟨?_, ?_⟩, room, ?_⟩
  · intro id free
    have output : (start archive.env archive.toWriterConfig pool).output =
        archive.base := rfl
    rw [output, Archive.base_eq] at free ⊢
    have member : id ∈ List.range queueSize := free
    dsimp only
    rw [if_pos member]
    exact Sector.idle_create _ _ _ _ _
  · intro id block holds
    exact nomatch holds.2
  · intro few block laid
    rcases laid with before | ⟨below, _⟩
    · exact absurd before (Nat.not_lt_zero block)
    · exact absurd below (Nat.not_lt_zero block)

theorem onCourse_start
    {property : Course → Prop} (initially : property (Course.start archive))
    {pool : BufferPool} (room : archive.blockSize ≤ pool.bufferSize) :
    OnCourse archive property
      (start archive.env archive.toWriterConfig pool) := by
  refine ⟨.empty .filling, 0, follows_start room, ?_, ?_⟩
  · rw [course_start]
    exact Course.sound_start archive
  · rw [course_start]
    exact initially

/-- A step is a move of the course. -/
theorem OnCourse.step
    {property : Course → Prop}
    (preserved : ∀ course next, Course.Sound archive course →
      property course → Course.Move archive may course next → property next)
    {writer next : Writer} {event : WriterEvent}
    (onCourse : OnCourse archive property writer)
    (allowed : Allowed archive.toWriterConfig archive.image may writer event)
    (taken : writer.step archive.env event = some next) :
    OnCourse archive property next := by
  obtain ⟨pipeline, filled, follows, sound, holds⟩ := onCourse
  by_cases other : ∃ pool, event = .otherPool pool
  · obtain ⟨pool, rfl⟩ := other
    obtain rfl := Option.some.inj taken
    exact ⟨pipeline, filled, follows.otherPool allowed, sound, holds⟩
  · obtain ⟨pipeline', filled', move, follows'⟩ :=
      follows.step sound allowed taken fun pool same => other ⟨pool, same⟩
    exact ⟨pipeline', filled', follows', sound.move move,
      preserved _ _ sound holds move⟩

/-- What every move keeps holds in every run. -/
theorem OnCourse.run
    {property : Course → Prop}
    (preserved : ∀ course next, Course.Sound archive course →
      property course → Course.Move archive may course next → property next)
    {writer next : Writer} {events : List WriterEvent}
    (onCourse : OnCourse archive property writer)
    (run : Run archive.toWriterConfig archive.env archive.image may writer
      events next) :
    OnCourse archive property next :=
  run.invariant
    (fun _ _ _ before allowed taken => before.step preserved allowed taken)
    onCourse

end

end Writer

end Maxcso
