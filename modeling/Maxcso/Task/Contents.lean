import Maxcso.Task.Outcome

/-!
# What a task writes

A task that reads a file in a format that the reader knows, and that ends
without an error, has written the image that the file stands for.
-/

namespace Maxcso

open FileBytes Transition

namespace CompressionTask

section

variable {env : Environment} {task : Task} {may : TaskCompletions}
variable {initial pool : BufferPool} {job : CompressionTask}
variable {events : List TaskEvent} {archive : Archive}
variable {reads : List ReaderEvent} {reader : Reader}
variable {file image : Bytes} {base : Input}

/-! ## The image of the input -/

/-- From `SetFile` on there is room for the blocks of the input, unless they
are too large for the buffers of a large image. -/
theorem room_of_run
    (run : Execution (step env task) (Allowed may) (start env task pool)
      events job) (begun : job.output.blockSize ≠ 0)
    (fits : ¬ (Resizes task job.input.size ∧
      largeBlockSize < job.input.csoBlockSize)) :
    job.input.csoBlockSize * 2 ≤ job.pool.bufferSize := by
  have sized : Sized env task job :=
    run.invariant (fun _ _ _ sized _ taken => sized.step taken)
      (sized_start pool)
  cases sized with
  | closed closed =>
      refine absurd ?_ begun
      rw [closed.output]
      rfl
  | piped core phase reads opened roomy =>
      generalize phase.detecting = detecting at roomy
      cases roomy with
      | detecting unopened => exact absurd unopened begun
      | refused unopened => exact absurd unopened begun
      | stays stays output blocks => exact blocks
      | resized resizes output bufferSize =>
          have small := not_and.mp fits resizes
          rw [bufferSize]
          omega

theorem supplies_of_sectorsOf {delivered : List Delivery}
    (sectors : delivered.map Delivery.content =
      sectorsOf image delivered.length) : Supplies delivered image := by
  intro index delivery found
  have inside : index < delivered.length :=
    (List.getElem?_eq_some_iff.mp found).1
  have entry := congrArg (fun sectors => sectors[index]?) sectors
  rw [List.getElem?_map, found, sectorsOf, List.getElem?_map,
    List.getElem?_range inside] at entry
  exact (congrArg Prod.snd (Option.some.inj entry)).symm

/-- A task that has nothing left to do, and no error to show for it, has found
the file. -/
theorem found_of_run
    (represents : env.Represents file image base)
    (run : Execution (step env task) (Allowed may) (start env task pool)
      events job) (drained : job.Drained) (unfailed : ¬ job.Failed) :
    job.input.found = base := by
  obtain ⟨ledger, _, stage⟩ := stage_of_run run
  obtain ⟨reads, reader, read, input, calls, silent⟩ :=
    stage.reader drained unfailed
  have inFlight := drained.inFlight
  rw [input] at inFlight ⊢
  exact Reader.found_of_idle represents.finds read calls inFlight silent

/-- What has been read is the image of the file. -/
theorem Written.image_eq
    (complete : env.CompleteReads file)
    (works : ∀ count, env.workStatus count ≠ -1)
    (represents : env.Represents file image base)
    (written : Written env task may initial job archive reads reader)
    (found : job.input.found = base)
    (room : base.csoBlockSize * 2 ≤ job.pool.bufferSize) :
    archive.image = image := by
  have run := written.read.weaken fun _ _ permitted => permitted.1
  rw [written.pool] at room
  have supplies := supplies_of_sectorsOf
    (Reader.delivered_of_represents complete works represents run room)
  have same : archive.image =
      image.take (sectorSize * reader.delivered.length) :=
    written.image.trans supplies.take_eq.symm
  have size : job.input.size = image.length := by
    rw [← represents.size, ← found]
    rfl
  have length : archive.image.length = image.length := by
    have whole := written.whole
    have sizes := written.size
    omega
  rw [same, List.length_take] at length
  rw [same]
  apply List.take_of_length_le
  omega

/-- What a task reads, and how it is read. -/
structure Sourced (env : Environment) (task : Task) (file image : Bytes)
    (base : Input) : Prop where
  yields : env.Yields
  complete : env.CompleteReads file
  works : ∀ count, env.workStatus count ≠ -1
  documented : env.Documented file image base
  fits : ¬ (Resizes task image.length ∧ largeBlockSize < base.csoBlockSize)

theorem Sourced.represents (sourced : Sourced env task file image base) :
    env.Represents file image base :=
  sourced.documented.represents sourced.complete

/-- A task that ends without an error has written the image that its input
stands for. -/
theorem writes_its_image (sourced : Sourced env task file image base)
    (run : Execution (step env task) (Allowed may) (start env task pool)
      events job) (drained : job.Drained) (unfailed : ¬ job.Failed) :
    ∃ archive reads reader,
      Written env task may (enqueue task pool).1 job archive reads reader ∧
        archive.image = image := by
  have represents := sourced.represents
  have found := found_of_run represents run drained unfailed
  have size : job.input.size = image.length := by
    rw [← represents.size, ← found]
    rfl
  have blocks : job.input.csoBlockSize = base.csoBlockSize := by
    rw [← found]
    rfl
  have filled : ¬ job.Empty := by
    intro empty
    have none := empty.2
    have some := sourced.documented.whole.1
    omega
  obtain ⟨ledger, _, stage⟩ := stage_of_run run
  cases stage.outcome sourced.yields drained with
  | failed failed => exact absurd failed unfailed
  | empty empty => exact absurd empty filled
  | written archive reads reader _ _ written =>
      refine ⟨archive, reads, reader, written, ?_⟩
      have begun : job.output.blockSize ≠ 0 := by
        rw [written.settings.blockSize, Archive.base_eq]
        have bounds := archive.blockSize_bounds
        dsimp only
        omega
      have fits := sourced.fits
      rw [← size, ← blocks] at fits
      have room := room_of_run run begun fits
      rw [blocks] at room
      exact written.image_eq sourced.complete sourced.works represents found
        room

end

end CompressionTask

end Maxcso
