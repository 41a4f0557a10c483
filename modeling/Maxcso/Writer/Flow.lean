import Mathlib.Data.List.Nodup
import Maxcso.Writer.Feeding

/-!
# Sector objects and pauses

A source that is not paused finds a free sector object, and one that is paused
will be resumed when there is one, unless a failure stopped it.
-/

namespace Maxcso

namespace Course

variable {archive : Archive} {may : Writer.Completions} {course : Course}

@[simp]
theorem flushAt_paused (write : IndexWrite) (gathered : Nat) :
    (course.flushAt archive write gathered).paused = course.paused := by
  unfold flushAt
  split <;> rfl

/-- A failure has been reported, or is about to be. -/
def Reported (course : Course) : Prop :=
  (∃ reason, .output (.finish false reason) ∈ course.calls) ∨
    ∃ reason written, .finished false reason written ∈ course.notes

/-- This failure has been reported, or is about to be. -/
def Tells (course : Course) (reason : String) : Prop :=
  .output (.finish false reason) ∈ course.calls ∨
    ∃ written, .finished false reason written ∈ course.notes

theorem reported_iff : course.Reported ↔ ∃ reason, course.Tells reason :=
  exists_or.symm

/-- Who has the sector objects, and whether the source goes on. -/
structure Flow (course : Course) : Prop where
  nodup : course.pipeline.owners.Nodup
  crowd : course.pipeline.owners.length ≤ queueSize
  fetching : course.fetching = true →
    course.pipeline.owners.length < queueSize
  running : course.paused = false →
    course.pipeline.owners.length < queueSize ∨
      .checkQueue ∈ course.calls
  progress : ∀ pos total written,
    .output (.progress pos total written) ∈ course.calls →
      course.pipeline.owners.length < queueSize
  paused : course.paused = true →
    course.pipeline.owners.length = queueSize ∨
      (∃ pos total written,
        .output (.progress pos total written) ∈ course.calls) ∨
      course.Reported

theorem mem_report {call : WriterCall} (member : call ∈ archive.report) :
    ∃ reason, call = .output (.finish false reason) := by
  unfold Archive.report at member
  split at member
  · obtain ⟨other, inside, rfl⟩ := List.mem_map.mp member
    obtain ⟨_, _, rfl⟩ := List.mem_map.mp inside
    exact ⟨_, rfl⟩
  · exact nomatch member

theorem isFinish_report {call : WriterCall}
    (member : call ∈ archive.report) : isFinish call = true := by
  obtain ⟨reason, rfl⟩ := mem_report member
  rfl

theorem flushAt_calls (write : IndexWrite) (gathered : Nat) :
    (course.flushAt archive write gathered).calls =
      (if archive.blocks ≤ gathered then archive.report else []) ++
        course.calls := by
  unfold flushAt
  split
  · rfl
  · rfl

/-- `Flush` adds reports only. -/
theorem mem_flushAt_calls
    {call : WriterCall} (other : isFinish call = false)
    (write : IndexWrite) (gathered : Nat) :
    call ∈ (course.flushAt archive write gathered).calls ↔
      call ∈ course.calls := by
  rw [flushAt_calls, List.mem_append]
  constructor
  · rintro (member | member)
    · split at member
      · rw [isFinish_report member] at other
        exact nomatch other
      · exact nomatch member
    · exact member
  · exact Or.inr

theorem Tells.flushAt {reason : String} (tells : course.Tells reason)
    (write : IndexWrite) (gathered : Nat) :
    (course.flushAt archive write gathered).Tells reason := by
  rcases tells with member | noted
  · refine Or.inl ?_
    rw [flushAt_calls]
    exact List.mem_append_right _ member
  · refine Or.inr ?_
    unfold Course.flushAt
    split
    · exact noted
    · exact noted

/-- A call that is not a report has been run. -/
theorem Tells.pop {reason : String} (tells : course.Tells reason)
    {next : Course} {call : WriterCall} {rest : List WriterCall}
    (calls : course.calls = call :: rest) (other : isFinish call = false)
    (kept : ∀ call ∈ rest, call ∈ next.calls)
    (notes : ∀ note ∈ course.notes, note ∈ next.notes) :
    next.Tells reason := by
  rcases tells with member | ⟨written, noted⟩
  · rw [calls] at member
    rcases List.mem_cons.mp member with rfl | member
    · exact nomatch other
    · exact Or.inl (kept _ member)
  · exact Or.inr ⟨written, notes _ noted⟩

/-- Nothing was being run. -/
theorem Tells.quiet {reason : String} (tells : course.Tells reason)
    {next : Course} (quiet : course.calls = [])
    (notes : ∀ note ∈ course.notes, note ∈ next.notes) :
    next.Tells reason := by
  rcases tells with member | ⟨written, noted⟩
  · rw [quiet] at member
    exact nomatch member
  · exact Or.inr ⟨written, notes _ noted⟩

/-- The call that a turn starts from has been run. -/
theorem Turn.calls {rest : List WriterCall}
    (turn : course.Turn archive rest) :
    ∃ call, course.calls = call :: rest ∧ isFinish call = false ∧
      call ≠ .checkQueue ∧
      ∀ pos total written, call ≠ .output (.progress pos total written) := by
  cases turn with
  | ready calls => exact ⟨_, calls, rfl, by simp [readyCall], by
      simp [readyCall]⟩
  | pending calls => exact ⟨_, calls, rfl, by simp, by simp⟩

/-- What has been reported stays so. -/
theorem Tells.move {reason : String} (tells : course.Tells reason)
    {next : Course} (move : Move archive may course next) :
    next.Tells reason := by
  cases move with
  | fetch => exact tells
  | @arrive id fetching resumable takes =>
      rcases tells with member | noted
      · refine Or.inl ?_
        unfold Course.arrive Course.fill
        dsimp only
        split <;> simp [member]
      · exact Or.inr noted
  | pad calls =>
      refine tells.pop calls rfl ?_ (fun _ noted => noted)
      intro call member
      unfold Course.fill
      dsimp only
      split <;> simp [member]
  | compressed quiet | compressFailed quiet | indexWritten quiet
  | indexFailed quiet | dataWritten quiet | dataFailed quiet =>
      apply tells.quiet quiet
      intro note noted
      simp [noted]
  | padEnd calls | queue calls | idle calls | checkQueue calls
  | progress calls =>
      apply tells.pop calls rfl
      · intro call member
        exact member
      · intro note noted
        simp [noted]
  | complete calls =>
      apply tells.pop calls rfl
      · intro call member
        exact List.mem_append_right _ member
      · intro note noted
        exact noted
  | finish calls =>
      rcases tells with member | ⟨written, noted⟩
      · rw [calls] at member
        rcases List.mem_cons.mp member with same | member
        · cases same
          exact Or.inr ⟨course.dstPos,
            List.mem_append_right _ List.mem_cons_self⟩
        · exact Or.inl member
      · exact Or.inr ⟨written, by simp [noted]⟩
  | refuse turn =>
      obtain ⟨call, calls, other, _, _⟩ := turn.calls
      apply tells.pop calls other
      · intro call member
        exact List.mem_cons_of_mem _ member
      · intro note noted
        exact noted
  | measure turn =>
      obtain ⟨call, calls, other, _, _⟩ := turn.calls
      apply Tells.flushAt
      apply tells.pop calls other
      · intro call member
        exact List.mem_cons_of_mem _ (List.mem_cons_of_mem _ member)
      · intro note noted
        exact noted
  | issue turn | stall turn =>
      obtain ⟨call, calls, other, _, _⟩ := turn.calls
      apply Tells.flushAt
      apply tells.pop calls other
      · intro call member
        exact member
      · intro note noted
        exact noted

theorem Reported.move (reported : course.Reported) {next : Course}
    (move : Move archive may course next) : next.Reported := by
  obtain ⟨reason, tells⟩ := reported_iff.mp reported
  exact reported_iff.mpr ⟨reason, tells.move move⟩

theorem mem_fill_calls
    {call : WriterCall} (id : SectorId)
    (other : ∀ id tag, call ≠ .output (.sectorReady id tag)) :
    call ∈ (course.fill archive id).calls ↔ call ∈ course.calls := by
  unfold Course.fill
  dsimp only
  split
  · rw [List.mem_cons]
    constructor
    · rintro (same | member)
      · exact absurd same (other _ _)
      · exact member
    · exact Or.inr
  · exact Iff.rfl

/-- The next sector finds a sector object. -/
theorem Takes.owners
    {id : SectorId} (takes : course.Takes archive id)
    (nodup : course.pipeline.owners.Nodup) :
    (course.fill archive id).pipeline.owners.Nodup ∧
      (course.fill archive id).pipeline.owners.length ≤
        course.pipeline.owners.length + 1 := by
  unfold Takes at takes
  unfold Course.fill
  dsimp only
  split at takes
  · rename_i whole
    rw [if_pos whole]
    refine ⟨List.nodup_append.mpr ⟨nodup, List.nodup_singleton _, ?_⟩, ?_⟩
    · intro owner member other single
      rw [List.mem_singleton.mp single]
      intro same
      exact takes (same ▸ member)
    · exact le_of_eq List.length_append
  · rename_i part
    rw [if_neg part]
    exact ⟨nodup, Nat.le_succ _⟩

/-- The next padding goes to a block that has a sector object. -/
theorem Takes.owners_of_part
    {id : SectorId} (part : course.filled % archive.blockSize ≠ 0) :
    (course.fill archive id).pipeline.owners = course.pipeline.owners := by
  unfold Course.fill
  dsimp only
  rw [if_neg part]
  rfl

/-- A course with the same sector objects in use. -/
theorem Flow.keep (flow : course.Flow) {next : Course}
    (reported : course.Reported → next.Reported)
    (owners : next.pipeline.owners = course.pipeline.owners)
    (fetching : next.fetching = course.fetching)
    (paused : next.paused = course.paused)
    (checks : .checkQueue ∈ course.calls → .checkQueue ∈ next.calls)
    (progress : ∀ pos total written,
      .output (.progress pos total written) ∈ next.calls ↔
        .output (.progress pos total written) ∈ course.calls) :
    next.Flow := by
  refine ⟨?_, ?_, ?_, ?_, ?_, ?_⟩
  · rw [owners]
    exact flow.nodup
  · rw [owners]
    exact flow.crowd
  · rw [owners, fetching]
    exact flow.fetching
  · rw [owners, paused]
    intro running
    exact (flow.running running).imp_right checks
  · intro pos total written member
    rw [owners]
    exact flow.progress _ _ _ ((progress pos total written).mp member)
  · rw [owners, paused]
    intro stopped
    rcases flow.paused stopped with full | ⟨pos, total, written, due⟩ | failed
    · exact Or.inl full
    · exact Or.inr (Or.inl
        ⟨pos, total, written, (progress pos total written).mpr due⟩)
    · exact Or.inr (Or.inr (reported failed))

/-- Some sector objects have become free. -/
theorem Flow.free (flow : course.Flow) {next : Course} {count : Nat}
    (positive : 0 < count) (live : course.first + count ≤ course.last)
    (owners : next.pipeline.owners = course.pipeline.owners.drop count)
    (paused : (∃ pos total written,
        .output (.progress pos total written) ∈ next.calls) ∨
      next.Reported) :
    next.Flow := by
  have crowd := flow.crowd
  have enough : count ≤ course.pipeline.owners.length := by
    unfold first last Pipeline.last at live
    omega
  have fewer : next.pipeline.owners.length < queueSize := by
    rw [owners, List.length_drop]
    omega
  refine ⟨?_, fewer.le, fun _ => fewer, fun _ => Or.inl fewer,
    fun _ _ _ _ => fewer, fun _ => Or.inr paused⟩
  rw [owners]
  exact flow.nodup.sublist (List.drop_sublist _ _)

theorem not_checkQueue_of_resumable
    {calls : List WriterCall}
    (resumable : Writer.resumable calls = true) :
    .checkQueue ∉ calls := by
  intro member
  cases calls with
  | nil => exact nomatch member
  | cons head rest =>
      cases head with
      | checkQueue => exact nomatch resumable
      | output head =>
          cases head with
          | afterProgress nextPos =>
              rcases List.mem_cons.mp member with same | member
              · exact nomatch same
              · have none : rest.any Writer.isCheckQueue = false := by
                  simpa [Writer.resumable] using resumable
                rw [List.any_eq_false] at none
                exact none _ member rfl
          | _ => exact nomatch resumable

theorem Flow.move (flow : course.Flow) (fed : Fed archive course)
    (ordered : Ordered archive course) {next : Course}
    (move : Move archive may course next) :
    next.Flow := by
  have reported : course.Reported → next.Reported :=
    fun before => before.move move
  cases move with
  | fetch idle running resumable more =>
      have free : course.pipeline.owners.length < queueSize := by
        rcases flow.running running with free | check
        · exact free
        · exact absurd check (not_checkQueue_of_resumable resumable)
      exact ⟨flow.nodup, flow.crowd, fun _ => free, flow.running,
        flow.progress, flow.paused⟩
  | @arrive id fetching resumable takes =>
      have free := flow.fetching fetching
      obtain ⟨nodup, length⟩ := takes.owners flow.nodup
      have check : .checkQueue ∈ (course.arrive archive id).calls := by
        rw [Course.arrive, mem_fill_calls id (by simp)]
        simp
      refine ⟨nodup, length.trans free, ?_, fun _ => Or.inr check, ?_, ?_⟩
      · intro again
        exact nomatch again
      · intro pos total written member
        rw [Course.arrive, mem_fill_calls id (by simp)] at member
        rcases List.mem_append.mp member with pad | member
        · unfold padCalls at pad
          split at pad
          · exact absurd (List.mem_singleton.mp pad) (by simp [padCall])
          · exact nomatch pad
        · rcases List.mem_cons.mp member with same | member
          · exact nomatch same
          · exact (ordered.stacked.below_of_resumable resumable _
              member).elim
      · intro stopped
        rcases flow.paused stopped with full | ⟨_, _, _, due⟩ | failed
        · omega
        · exact (ordered.stacked.below_of_resumable resumable _ due).elim
        · exact Or.inr (Or.inr (reported failed))
  | @pad id rest calls short takes =>
      have ended : course.nextPos = archive.sourceSize :=
        (ordered.pad_call _ _ _ (by rw [calls]; exact List.mem_cons_self)).1
      have part : course.filled % archive.blockSize ≠ 0 := by
        intro whole
        have full := paddedSize_le_of_whole whole (fed.srcSize_le ended)
        omega
      apply flow.keep reported (Takes.owners_of_part part) rfl rfl
      · intro check
        rw [calls] at check
        rw [mem_fill_calls id (by simp)]
        rcases List.mem_cons.mp check with same | check
        · exact nomatch same
        · exact List.mem_cons_of_mem _ check
      · intro pos total written
        rw [mem_fill_calls id (by simp), calls]
        simp [padCall]
  | padEnd calls | queue calls | idle calls =>
      apply flow.keep reported rfl rfl rfl
      · intro check
        rw [calls] at check
        rcases List.mem_cons.mp check with same | check
        · exact nomatch same
        · exact check
      · intro pos total written
        rw [calls]
        simp [readyCall]
  | compressed quiet | compressFailed quiet =>
      apply flow.keep reported rfl rfl rfl
      · intro check
        rw [quiet] at check
        exact nomatch check
      · intro pos total written
        rw [quiet]
        simp [readyCall]
  | refuse turn =>
      obtain ⟨call, calls, _, notCheck, notProgress⟩ := turn.calls
      apply flow.keep reported rfl rfl rfl
      · intro check
        rw [calls] at check
        rcases List.mem_cons.mp check with same | check
        · exact absurd same.symm notCheck
        · exact List.mem_cons_of_mem _ check
      · intro pos total written
        rw [calls]
        simp [(notProgress pos total written).symm]
  | issue turn | stall turn =>
      obtain ⟨call, calls, _, notCheck, notProgress⟩ := turn.calls
      refine flow.keep reported ?_ (flushAt_fetching _ _)
        (flushAt_paused _ _) ?_ ?_
      · rw [flushAt_pipeline]
        rfl
      · intro check
        rw [calls] at check
        rw [mem_flushAt_calls rfl]
        rcases List.mem_cons.mp check with same | check
        · exact absurd same.symm notCheck
        · exact check
      · intro pos total written
        rw [mem_flushAt_calls rfl, calls]
        simp [(notProgress pos total written).symm]
  | measure turn batch =>
      apply flow.free batch.positive batch.live
        (congrArg Pipeline.owners (flushAt_pipeline _ _))
      exact Or.inl ⟨_, _, _,
        (mem_flushAt_calls rfl _ _).mpr List.mem_cons_self⟩
  | dataWritten quiet writes positive live writing enough =>
      apply flow.free positive live rfl
      exact Or.inl ⟨_, _, _, List.mem_cons_self⟩
  | dataFailed quiet writes positive live writing short =>
      apply flow.free positive live rfl
      exact Or.inr (Or.inl ⟨_, List.mem_cons_self⟩)
  | complete calls all =>
      apply flow.keep reported rfl rfl rfl
      · intro check
        rw [calls] at check
        apply List.mem_append_right
        rcases List.mem_cons.mp check with same | check
        · exact nomatch same
        · exact check
      · intro pos total written
        rw [calls, finishCalls]
        split <;> simp
  | indexWritten quiet =>
      apply flow.keep reported rfl rfl rfl
      · intro check
        rw [quiet] at check
        exact nomatch check
      · intro pos total written
        rw [quiet, finishCalls]
        dsimp only
        split <;> simp
  | indexFailed quiet =>
      apply flow.keep reported rfl rfl rfl
      · intro check
        rw [quiet] at check
        exact nomatch check
      · intro pos total written
        rw [quiet]
        simp
  | progress calls =>
      have free := flow.progress _ _ _
        (by rw [calls]; exact List.mem_cons_self)
      refine ⟨flow.nodup, flow.crowd, flow.fetching, fun _ => Or.inl free,
        fun _ _ _ _ => free, ?_⟩
      intro stopped
      exact nomatch stopped
  | @finish success reason rest calls =>
      refine ⟨flow.nodup, flow.crowd, flow.fetching, ?_, ?_, ?_⟩
      · intro running
        obtain ⟨running, _⟩ := Bool.or_eq_false_iff.mp running
        rcases flow.running running with free | check
        · exact Or.inl free
        · rw [calls] at check
          rcases List.mem_cons.mp check with same | check
          · exact nomatch same
          · exact Or.inr check
      · intro pos total written member
        apply flow.progress pos total written
        rw [calls]
        exact List.mem_cons_of_mem _ member
      · intro stopped
        cases success with
        | false => exact Or.inr (Or.inr (Or.inr
            ⟨_, _, List.mem_append_right _ List.mem_cons_self⟩))
        | true =>
            have before : course.paused = true := by simpa using stopped
            rcases flow.paused before with full | ⟨pos, total, written, due⟩ |
              failed
            · exact Or.inl full
            · rw [calls] at due
              rcases List.mem_cons.mp due with same | due
              · exact nomatch same
              · exact Or.inr (Or.inl ⟨pos, total, written, due⟩)
            · exact Or.inr (Or.inr (reported failed))
  | checkQueue calls =>
      have crowd := flow.crowd
      refine ⟨flow.nodup, crowd, flow.fetching, ?_, ?_, ?_⟩
      · intro running
        obtain ⟨_, free⟩ := Bool.or_eq_false_iff.mp running
        have different : course.pipeline.owners.length ≠ queueSize := by
          simpa using free
        exact Or.inl (lt_of_le_of_ne crowd different)
      · intro pos total written member
        apply flow.progress pos total written
        rw [calls]
        exact List.mem_cons_of_mem _ member
      · intro stopped
        rcases Bool.or_eq_true_iff.mp stopped with before | full
        · rcases flow.paused before with full | ⟨pos, total, written, due⟩ |
            failed
          · exact Or.inl full
          · rw [calls] at due
            rcases List.mem_cons.mp due with same | due
            · exact nomatch same
            · exact Or.inr (Or.inl ⟨pos, total, written, due⟩)
          · exact Or.inr (Or.inr (reported failed))
        · exact Or.inl (by simpa using full)


end Course

end Maxcso
