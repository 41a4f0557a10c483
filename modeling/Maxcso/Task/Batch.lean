import Maxcso.Task.Returning
import Maxcso.Task.RoundTrip

/-!
# Several tasks

`Compress` runs one task after the other, each until the event loop has
nothing to wait for, and all of them use the same pool.  The exit code tells
whether an error has been reported.
-/

namespace Maxcso

open Transition

/-- What the callbacks in `main` make of `result`. -/
def Notice.result (result : Nat) : Notice → Nat
  -- Change the result to indicate failure.
  | .error status _ => if status ≠ .success then 1 else result
  | .progress .. => result

namespace Output

/-- `~Output`, which deletes the sector objects; `~Sector` releases what they
have. -/
def destroy (output : Output) (pool : BufferPool) : BufferPool :=
  (output.releaseSectors pool
    (output.freeSectors ++ output.pendingSectors.map Prod.snd ++
      output.partialSectors.map Prod.snd)).2

section

variable {output : Output} {pool : BufferPool} {others : Multiset Nat}

theorem Named.destroyed (named : output.Named) :
    ∀ id ∈ output.freeSectors ++ output.pendingSectors.map Prod.snd ++
      output.partialSectors.map Prod.snd, id < queueSize := by
  intro id member
  rcases List.mem_append.mp member with early | unfinished
  · rcases List.mem_append.mp early with free | waits
    · exact named.free id free
    · obtain ⟨entry, inside, same⟩ := List.mem_map.mp waits
      rw [← same]
      exact named.pending entry inside
  · obtain ⟨entry, inside, same⟩ := List.mem_map.mp unfinished
    rw [← same]
    exact named.partials entry inside

/-- What the destructor does not find stays lent. -/
theorem destroy_lends (books : Books output pool others) :
    ∃ lost, (output.destroy pool).Lends (lost + others) :=
  ⟨_, (releaseSectors_books books books.named.destroyed).lends⟩

/-- What is released has no buffers any more. -/
theorem held_releaseSectors {ids : List SectorId} {id : SectorId}
    (empty : id ∈ ids ∨ (output.sectors id).held = 0) :
    ((output.releaseSectors pool ids).1.sectors id).held = 0 := by
  induction ids generalizing output pool with
  | nil => exact empty.resolve_left List.not_mem_nil
  | cons first rest inductionHypothesis =>
      rw [releaseSectors]
      apply inductionHypothesis
      dsimp only
      by_cases same : id = first
      · subst same
        rw [Function.update_self]
        exact Or.inr (@Sector.settled_release _ pool).2
      · rw [Function.update_of_ne same]
        exact empty.imp_left (List.mem_of_ne_of_mem same)

/-- When the destructor finds every sector object that has a buffer nothing
stays lent. -/
theorem destroy_found (books : Books output pool others)
    (found : ∀ id < queueSize,
      id ∈ output.freeSectors ++ output.pendingSectors.map Prod.snd ++
          output.partialSectors.map Prod.snd ∨
        (output.sectors id).held = 0) :
    (output.destroy pool).Lends others := by
  have lent := (releaseSectors_books books books.named.destroyed).lends
  have unused : (output.releaseSectors pool (output.freeSectors ++
      output.pendingSectors.map Prod.snd ++
        output.partialSectors.map Prod.snd)).1.held = 0 :=
    Finset.sum_eq_zero fun id member =>
      held_releaseSectors (found id (Finset.mem_range.mp member))
  rw [unused, zero_add] at lent
  exact lent

theorem destroy_unused (books : Books output pool others)
    (unused : output.held = 0) : (output.destroy pool).Lends others := by
  apply destroy_found books
  intro id inside
  exact Or.inr (Finset.sum_eq_zero_iff.mp unused id
    (Finset.mem_range.mpr inside))

end

end Output

namespace CompressionTask

/-- `~CompressionTask` -/
def destroy (job : CompressionTask) : BufferPool :=
  job.output.destroy job.pool

/-- `Compress`: the tasks as they are when the event loop has nothing to wait
for, and the pool at the end. -/
inductive Batch
    (allowed : Environment → Task → CompressionTask → TaskEvent → Prop) :
    BufferPool → List (Environment × Task) → List CompressionTask →
      BufferPool → Prop
  | nil (pool : BufferPool) : Batch allowed pool [] [] pool
  | cons {env : Environment} {task : Task} {pool last : BufferPool}
      {events : List TaskEvent} {job : CompressionTask}
      {rest : List (Environment × Task)} {jobs : List CompressionTask} :
      Execution (step env task) (allowed env task) (start env task pool)
          events job →
        job.Drained → Batch allowed job.destroy rest jobs last →
          Batch allowed pool ((env, task) :: rest) (job :: jobs) last

/-- `result` at the end of `main`. -/
def exitCode (jobs : List CompressionTask) : Nat :=
  jobs.foldl (fun result job => job.notices.foldl Notice.result result) 0

section

variable {env : Environment} {task : Task}
variable {job next : CompressionTask} {jobs : List CompressionTask}
variable {events : List TaskEvent} {event : TaskEvent}
variable {pool last : BufferPool} {others : Multiset Nat}
variable {entries : List (Environment × Task)}
variable {allowed : Environment → Task → CompressionTask → TaskEvent → Prop}

/-! ## The exit code -/

theorem foldl_result (notices : List Notice) (result : Nat) :
    notices.foldl Notice.result result = 0 ↔
      result = 0 ∧ ∀ notice ∈ notices, Notice.result 0 notice = 0 := by
  induction notices generalizing result with
  | nil => simp
  | cons notice rest inductionHypothesis =>
      have first : Notice.result result notice = 0 ↔
          result = 0 ∧ Notice.result 0 notice = 0 := by
        cases notice with
        | progress => simp [Notice.result]
        | error status reason =>
            by_cases success : status = .success
            · simp [Notice.result, success]
            · simp [Notice.result, success]
      rw [List.foldl_cons, inductionHypothesis, first,
        List.forall_mem_cons, and_assoc]

/-- No error is told under the status of a success. -/
theorem blames_step
    (blames : ∀ status reason, .error status reason ∈ job.notices →
      status ≠ .success)
    (taken : job.step env task event = some next) :
    ∀ status reason, .error status reason ∈ next.notices →
      status ≠ .success := by
  have told : ∀ {notices : List Notice} {notice : Notice},
      notices = job.notices ++ [notice] →
      (∀ reason, notice ≠ .error .success reason) →
      ∀ status reason, .error status reason ∈ notices →
        status ≠ .success := by
    intro notices notice same fault status reason member success
    rw [same] at member
    rcases List.mem_append.mp member with old | new
    · exact blames status reason old success
    · rw [success] at new
      exact fault reason (List.mem_singleton.mp new).symm
  cases event with
  | run =>
      obtain ⟨call, rest, calls, rfl⟩ := step_run taken
      cases call with
      | input call =>
          cases call with
          | readSector | rawDelivered | subBlock | subDelivered | callback =>
              exact blames
          | begin size =>
              cases outcome : (begin task job.blockSize job.pool size).2 with
              | error reason =>
                  rw [show job.runCall env task (.input (.begin size)) rest =
                    job.onBegin task size rest from rfl,
                    onBegin_error outcome]
                  exact told rfl (fun _ same => by cases same)
              | ok blockSize =>
                  rw [show job.runCall env task (.input (.begin size)) rest =
                    job.onBegin task size rest from rfl, onBegin_ok outcome]
                  exact blames
          | finish success reason =>
              cases success with
              | true => exact blames
              | false => exact told rfl (fun _ same => by cases same)
      | output call =>
          cases call with
          | pad | sectorReady | afterProgress | progress => exact blames
          | finish success reason =>
              cases success with
              | true => exact told rfl (fun _ same => by cases same)
              | false => exact told rfl (fun _ same => by cases same)
      | checkQueue => exact blames
      | begun size => exact told rfl (fun _ same => by cases same)
      | progressed => exact told rfl (fun _ same => by cases same)
  | opened success =>
      obtain ⟨opening, _, _, rfl⟩ := step_opened taken
      cases opening with
      | input =>
          cases success with
          | false => exact told rfl (fun _ same => by cases same)
          | true =>
              unfold onOpened
              dsimp only
              split
              · exact blames
              · exact blames
      | output =>
          cases success with
          | false => exact told rfl (fun _ same => by cases same)
          | true => exact blames
  | completed position =>
      obtain ⟨request, _, _, rfl⟩ := step_completed taken
      exact blames
  | compressed position result =>
      obtain ⟨queued, _, _, rfl⟩ := step_compressed taken
      exact blames
  | dataWritten position result =>
      obtain ⟨write, _, _, rfl⟩ := step_dataWritten taken
      exact blames
  | indexWritten position result =>
      obtain ⟨write, _, _, rfl⟩ := step_indexWritten taken
      exact blames

theorem blames_of_run {permitted : CompressionTask → TaskEvent → Prop}
    (run : Execution (step env task) permitted (start env task pool) events
      job) :
    ∀ status reason, .error status reason ∈ job.notices →
      status ≠ .success := by
  apply @Execution.invariant _ _ (step env task) permitted
    (fun job => ∀ status reason, .error status reason ∈ job.notices →
      status ≠ .success) _ _ _ _ run
  · intro status reason member
    unfold start at member
    dsimp only at member
    cases outcome : (enqueue task pool).2 with
    | error cause =>
        rw [outcome] at member
        have only := List.mem_singleton.mp member
        cases only
        exact TaskStatus.noConfusion
    | ok blockSize =>
        rw [outcome] at member
        cases member
  · exact fun source event target blames _ taken => blames_step blames taken

theorem foldl_exitCode (jobs : List CompressionTask) (result : Nat) :
    jobs.foldl (fun result job => job.notices.foldl Notice.result result)
        result = 0 ↔
      result = 0 ∧ ∀ job ∈ jobs, ∀ notice ∈ job.notices,
        Notice.result 0 notice = 0 := by
  induction jobs generalizing result with
  | nil => simp
  | cons job jobs inductionHypothesis =>
      rw [List.foldl_cons, inductionHypothesis, foldl_result,
        List.forall_mem_cons, and_assoc]

theorem unfailed_iff {permitted : CompressionTask → TaskEvent → Prop}
    (run : Execution (step env task) permitted (start env task pool) events
      job) :
    (∀ notice ∈ job.notices, Notice.result 0 notice = 0) ↔
      ¬ job.Failed := by
  constructor
  · intro harmless failed
    obtain ⟨status, reason, member⟩ := failed
    have blamed : Notice.result 0 (.error status reason) = 1 :=
      if_pos (blames_of_run run status reason member)
    rw [harmless _ member] at blamed
    cases blamed
  · intro unfailed notice member
    cases notice with
    | progress => rfl
    | error status reason => exact absurd ⟨status, reason, member⟩ unfailed

theorem exitCode_cons {permitted : CompressionTask → TaskEvent → Prop}
    (run : Execution (step env task) permitted (start env task pool) events
      job) (jobs : List CompressionTask) :
    exitCode (job :: jobs) = 0 ↔ ¬ job.Failed ∧ exitCode jobs = 0 := by
  unfold exitCode
  rw [foldl_exitCode, foldl_exitCode, List.forall_mem_cons,
    unfailed_iff run]
  exact and_left_comm

/-! ## The pool -/

/-- Whatever happens in a batch, a buffer is lent at most once. -/
theorem Batch.lends (batch : Batch allowed pool entries jobs last)
    (lends : pool.Lends others) : ∃ lost, last.Lends (lost + others) := by
  induction batch generalizing others with
  | nil pool => exact ⟨0, by rwa [zero_add]⟩
  | cons run drained _ inductionHypothesis =>
      obtain ⟨lost, accounts⟩ := accounts_of_run lends run
      obtain ⟨more, destroyed⟩ := Output.destroy_lends accounts.books
      obtain ⟨rest, after⟩ := inductionHypothesis destroyed
      rw [← add_assoc, ← add_assoc, ← add_assoc] at after
      exact ⟨_, after⟩

/-- In every state of every task of a batch no buffer is in two places: free
in the pool, with a sector object, with the reader or with others. -/
theorem buffers_apart (lends : pool.Lends others)
    {permitted : CompressionTask → TaskEvent → Prop}
    (batch : Batch allowed pool entries jobs last)
    (run : Execution (step env task) permitted (start env task last) events
      job) :
    (addresses job.pool.free +
        (job.output.held + (job.held + others))).Nodup ∧
      job.pool.free.length +
          (job.output.held + (job.held + others)).card ≤
        job.pool.allocations := by
  obtain ⟨lost, lent⟩ := batch.lends lends
  obtain ⟨more, accounts⟩ := accounts_of_run lent run
  rw [← add_assoc] at accounts
  exact accounts.apart

theorem buffers_apart_oneSector :
    ∃ events job, Execution (step sectorEnv largeTask)
        (Allowed (.full sectorEnv)) (start sectorEnv largeTask .initial)
        events job ∧ job.Drained ∧
      ((addresses job.pool.free +
          (job.output.held + (job.held + 0))).Nodup ∧
        job.pool.free.length +
            (job.output.held + (job.held + 0)).card ≤
          job.pool.allocations) := by
  obtain ⟨job, run, drained, _⟩ := sector_reached
  have batch : Batch (fun env _ => Allowed (.full env)) .initial [] []
      .initial := .nil _
  exact ⟨_, job, run, drained,
    buffers_apart BufferPool.lends_initial batch run⟩

/-- In a batch whose tasks have not failed all buffers are returned, and every
image with sectors has been written. -/
theorem exit_zero_written {may : Environment → TaskCompletions}
    (yields : ∀ entry ∈ entries, entry.1.Yields)
    (reaching : ∀ entry ∈ entries, (may entry.1).Reaches entry.1)
    (lends : pool.Lends others)
    (batch : Batch (fun env _ => Allowed (may env)) pool entries jobs last)
    (unfailed : exitCode jobs = 0) :
    last.Lends others ∧
      List.Forall₂ (fun entry job => job.Empty ∨
        ∃ initial archive reads reader,
          Written entry.1 entry.2 (may entry.1) initial job archive reads
            reader) entries jobs := by
  induction batch generalizing others with
  | nil pool => exact ⟨lends, .nil⟩
  | cons run drained _ inductionHypothesis =>
      obtain ⟨first, unfailed⟩ := (exitCode_cons run _).mp unfailed
      obtain ⟨yields, laterYields⟩ := List.forall_mem_cons.mp yields
      obtain ⟨reaching, laterReaching⟩ := List.forall_mem_cons.mp reaching
      obtain ⟨books, unused⟩ :=
        lends_at_end yields reaching lends run drained first
      obtain ⟨returned, written⟩ := inductionHypothesis laterYields
        laterReaching (Output.destroy_unused books unused) unfailed
      refine ⟨returned, .cons ?_ written⟩
      obtain ⟨ledger, _, stage⟩ := stage_of_run run
      cases stage.outcome yields drained with
      | failed failed => exact absurd failed first
      | empty empty => exact Or.inl empty
      | written archive reads reader _ _ written =>
          exact Or.inr ⟨_, archive, reads, reader, written⟩

theorem exit_zero_written_oneSector :
    ∃ job last,
      Batch (fun env _ => Allowed (.full env)) .initial
          [(sectorEnv, largeTask)] [job] last ∧
        (last.Lends 0 ∧
          List.Forall₂ (fun entry job => job.Empty ∨
            ∃ initial archive reads reader,
              Written entry.1 entry.2 (.full entry.1) initial job archive
                reads reader) [(sectorEnv, largeTask)] [job]) := by
  obtain ⟨job, run, drained, notices, _⟩ := sector_reached
  have batch : Batch (fun env _ => Allowed (.full env)) .initial
      [(sectorEnv, largeTask)] [job] job.destroy :=
    .cons run drained (.nil _)
  have faultless : exitCode [job] = 0 := by
    rw [exitCode, List.foldl_cons, notices]
    rfl
  refine ⟨job, _, batch, exit_zero_written ?_ ?_ BufferPool.lends_initial
    batch faultless⟩
  · intro entry member
    rw [List.mem_singleton.mp member]
    exact yields_sectorEnv
  · exact fun entry _ => TaskCompletions.full_reaches entry.1

end

/-! ## Batches in which everything outside succeeds -/

/-- A task that is accepted, and the image that its input stands for. -/
structure Commission where
  env : Environment
  task : Task
  file : Bytes
  image : Bytes
  base : Input
  sourced : Sourced env task file image base
  blockSize : ∃ blockSize, firstBlockSize task = .ok blockSize
  small : image.length < 2 ^ 40
  short : ShortFrames env task

namespace Commission

def entry (commission : Commission) : Environment × Task :=
  (commission.env, commission.task)

/-- The methods can make a file of the image that the container takes. -/
def Fulfillable (commission : Commission) : Prop :=
  Suited commission.env commission.task commission.image

section

variable {commission : Commission} {commissions : List Commission}
variable {job : CompressionTask} {jobs : List CompressionTask}
variable {events : List TaskEvent} {pool last : BufferPool}

theorem favourable (commission : Commission)
    (fulfillable : commission.Fulfillable) (lends : pool.Lends 0) :
    Favourable commission.env commission.task pool commission.file
      commission.image commission.base := by
  have spare : pool.Spare 0 := by
    have counted := lends.counted
    rw [Multiset.card_zero] at counted
    exact Nat.le_of_eq counted
  exact favourable_of_suited commission.sourced
    ⟨commission.blockSize, spare⟩ commission.small commission.short
    fulfillable

/-- A task that has not failed leaves the pool as the next one needs it. -/
theorem destroyed
    (run : Execution (step commission.env commission.task)
      (Unhindered .succeed) (start commission.env commission.task pool)
      events job) (drained : job.Drained) (lends : pool.Lends 0)
    (unfailed : ¬ job.Failed) : job.destroy.Lends 0 := by
  obtain ⟨books, unused⟩ := lends_at_end commission.sourced.yields
    (TaskCompletions.full_reaches _) lends
    (full_of_run commission.sourced run) drained unfailed
  exact Output.destroy_unused books unused

end

end Commission

/-! ## Runs -/

section

variable {commissions : List Commission} {jobs : List CompressionTask}
variable {pool last : BufferPool} {others : Multiset Nat}
variable {entries : List (Environment × Task)}

end

end CompressionTask

end Maxcso
