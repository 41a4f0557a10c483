import Maxcso.Reader.Lending
import Maxcso.Task.Ending
import Maxcso.Writer.Lending

/-!
# The buffers of a task

Every buffer that the pool has lent to a task is with a sector object of the
writer, with a request of the reader or with a call that is still to be made,
and with one of them only.  What else has been lost has been lost by a task
that fails.
-/

namespace Maxcso

open Transition

def TaskCall.held : TaskCall → Multiset Nat
  | .input call => call.held
  | _ => 0

def TaskCall.Named : TaskCall → Prop
  | .output call => call.Named
  | _ => True

/-- The calls that pass a buffer on to a sector object. -/
def TaskCall.Feeds : TaskCall → Prop
  | .input (.callback ..) | .output (.pad ..) => True
  | _ => False

namespace CompressionTask

/-- The next call passes a buffer on to a sector object. -/
def Feeds (job : CompressionTask) : Prop :=
  ∃ call rest, job.calls = call :: rest ∧ call.Feeds

/-- The buffers of the calls that are still to be made. -/
def heldBy (calls : List TaskCall) : Multiset Nat :=
  (calls.map TaskCall.held).sum

/-- The buffers of the reader. -/
def held (job : CompressionTask) : Multiset Nat :=
  job.input.waiting + heldBy job.calls

/-- All that is lent is with the writer, with the reader or with others. -/
structure Accounts (job : CompressionTask) (others : Multiset Nat) : Prop
    where
  books : Output.Books job.output job.pool (job.held + others)
  named : ∀ call ∈ job.calls, call.Named

section

variable {env : Environment} {task : Task} {may : TaskCompletions}
variable {job next : CompressionTask} {pool : BufferPool}
variable {others : Multiset Nat} {rest : List TaskCall}
variable {event : TaskEvent} {events : List TaskEvent}

theorem heldBy_cons (call : TaskCall) (calls : List TaskCall) :
    heldBy (call :: calls) = call.held + heldBy calls := by
  rw [heldBy, List.map_cons, List.sum_cons]
  rfl

theorem heldBy_append (first second : List TaskCall) :
    heldBy (first ++ second) = heldBy first + heldBy second := by
  rw [heldBy, List.map_append, List.sum_append]
  rfl

theorem heldBy_inputs (calls : List InputCall) :
    heldBy (calls.map .input) = Maxcso.heldBy calls := by
  induction calls with
  | nil => rfl
  | cons call calls inductionHypothesis =>
      rw [List.map_cons, heldBy_cons, inductionHypothesis,
        Maxcso.heldBy_cons]
      rfl

theorem heldBy_outputs (calls : List OutputCall) :
    heldBy (calls.map .output) = 0 := by
  induction calls with
  | nil => rfl
  | cons call calls inductionHypothesis =>
      rw [List.map_cons, heldBy_cons, inductionHypothesis]
      rfl

theorem named_append {calls : List TaskCall}
    (early : ∀ call ∈ calls, call.Named)
    (late : ∀ call ∈ rest, call.Named) :
    ∀ call ∈ calls ++ rest, call.Named := by
  intro call member
  rcases List.mem_append.mp member with first | second
  · exact early call first
  · exact late call second

theorem named_inputs (calls : List InputCall) :
    ∀ call ∈ calls.map TaskCall.input, call.Named := by
  intro call member
  obtain ⟨own, _, same⟩ := List.mem_map.mp member
  rw [← same]
  trivial

theorem named_outputs {calls : List OutputCall}
    (named : ∀ call ∈ calls, call.Named) :
    ∀ call ∈ calls.map TaskCall.output, call.Named := by
  intro call member
  obtain ⟨own, inside, same⟩ := List.mem_map.mp member
  rw [← same]
  exact named own inside

/-! ## One step -/

/-- A step of the task, and what has been lost in it. -/
def Keeps (env : Environment) (job : CompressionTask) (event : TaskEvent)
    (next : CompressionTask) (others : Multiset Nat) : Prop :=
  ∃ lost, Accounts next (lost + others) ∧
    (lost = 0 ∨
      (job.Feeds ∧ .output (.finish false Sector.misplaced) ∈ next.calls) ∨
      ∃ position request,
        event = .completed position ∧
          job.input.inFlight[position]? = some request ∧
            Input.Forgets env job.input job.pool request)

theorem Accounts.keeps (accounts : Accounts next others) :
    Keeps env job event next others :=
  ⟨0, by rwa [zero_add], Or.inl rfl⟩

/-- A function of the reader that loses nothing. -/
theorem Accounts.continueInput {given : Multiset Nat} {result : InputResult}
    (books : Output.Books job.output job.pool
      (given + (heldBy rest + others)))
    (named : ∀ call ∈ rest, call.Named)
    (exchange : Exchange job.pool.Lends given result.pool.Lends
      result.held) :
    Accounts (job.continueInput result rest) others := by
  refine ⟨?_, named_append (named_inputs _) named⟩
  have after := books.exchange exchange
  have held : (job.continueInput result rest).held + others =
      result.held + (heldBy rest + others) := by
    rw [CompressionTask.held, CompressionTask.continueInput]
    dsimp only
    rw [heldBy_append, heldBy_inputs, InputResult.held]
    abel
  rw [held]
  exact after

/-- A function of the writer that loses nothing. -/
theorem Accounts.continueOutput {result : OutputResult}
    (closes : Output.Closes result
      (job.input.waiting + heldBy rest + others))
    (named : ∀ call ∈ rest, call.Named) :
    Accounts (job.continueOutput result rest) others := by
  refine ⟨?_, named_append (named_outputs closes.calls) named⟩
  have held : (job.continueOutput result rest).held =
      job.input.waiting + heldBy rest := by
    rw [CompressionTask.held, CompressionTask.continueOutput]
    dsimp only
    rw [heldBy_append, heldBy_outputs, zero_add]
  rw [held]
  exact closes.books

/-- A function of the writer that is given a buffer. -/
theorem keeps_continueOutput {result : OutputResult}
    (settles : Output.Settles result
      (job.input.waiting + heldBy rest + others))
    (named : ∀ call ∈ rest, call.Named) {source : CompressionTask}
    (feeds : source.Feeds) :
    Keeps env source event (job.continueOutput result rest) others := by
  obtain ⟨lost, closes, harmless⟩ := settles
  refine ⟨lost, Accounts.continueOutput ?_ named, ?_⟩
  · rw [add_left_comm]
    exact closes
  · refine harmless.imp_right ?_
    intro failed
    exact Or.inl ⟨feeds, List.mem_append_left _
      (List.mem_map_of_mem failed)⟩

/-- What the next call holds, and what is held besides. -/
theorem Accounts.pop (accounts : Accounts job others) {call : TaskCall}
    (calls : job.calls = call :: rest) :
    Output.Books job.output job.pool
        (job.input.waiting + call.held + (heldBy rest + others)) ∧
      call.Named ∧ ∀ other ∈ rest, other.Named := by
  have named := accounts.named
  rw [calls] at named
  refine ⟨?_, named call List.mem_cons_self,
    fun other member => named other (List.mem_cons_of_mem _ member)⟩
  have books := accounts.books
  rw [held, calls, heldBy_cons] at books
  rw [show job.input.waiting + call.held + (heldBy rest + others) =
    job.input.waiting + (call.held + heldBy rest) + others by abel]
  exact books

theorem Accounts.pop_plain (accounts : Accounts job others)
    {call : TaskCall} (calls : job.calls = call :: rest)
    (none : call.held = 0) :
    Output.Books job.output job.pool
        (job.input.waiting + (heldBy rest + others)) ∧
      call.Named ∧ ∀ other ∈ rest, other.Named := by
  have popped := accounts.pop calls
  rw [none, add_zero] at popped
  exact popped

/-- Only what is told changes. -/
theorem Accounts.tells (accounts : Accounts job others) {call : TaskCall}
    (calls : job.calls = call :: rest) (none : call.held = 0)
    (output : next.output = job.output) (pool : next.pool = job.pool)
    (waiting : next.input.waiting = job.input.waiting)
    (left : next.calls = rest) : Accounts next others := by
  obtain ⟨books, _, named⟩ := accounts.pop_plain calls none
  refine ⟨?_, ?_⟩
  · rw [output, pool, CompressionTask.held, waiting, left, add_assoc]
    exact books
  · rw [left]
    exact named

theorem lends_resize {lent : Multiset Nat} (lends : pool.Lends lent)
    (blockSize : Nat) : (resize pool blockSize).1.Lends lent := by
  have resized := (lends.resize (blockSize * 2)).1
  unfold resize
  dsimp only
  split
  · exact resized
  · exact resized

theorem lends_begin {lent : Multiset Nat} (lends : pool.Lends lent)
    (blockSize : Nat) (size : Int) :
    (begin task blockSize pool size).1.Lends lent := by
  unfold begin
  split
  · exact lends_resize lends _
  · exact lends

/-- The callback for the size: `SetFile`, unless the buffers cannot be
resized. -/
theorem accounts_onBegin
    (books : Output.Books job.output job.pool
      (job.input.waiting + (heldBy rest + others)))
    (named : ∀ call ∈ rest, call.Named) (size : Int) :
    Accounts (job.onBegin task size rest) others := by
  have resized : Output.Books job.output
      (begin task job.blockSize job.pool size).1
      (job.input.waiting + (heldBy rest + others)) :=
    ⟨books.named, books.tidy, lends_begin books.lends _ _⟩
  unfold onBegin
  generalize begin task job.blockSize job.pool size = begun at resized
  obtain ⟨pool, outcome⟩ := begun
  cases outcome with
  | error reason =>
      rw [← add_assoc] at resized
      exact ⟨resized, named⟩
  | ok blockSize =>
      have opened := @Output.setFile_books _ _ _
        (hasFlag task.flags taskflagMeasure) size blockSize
        (format task.flags) (task.origMaxCost blockSize)
        (task.lz4MaxCost blockSize) resized
      have calls := (@Output.setFile_named _
        (hasFlag task.flags taskflagMeasure) size blockSize
        (format task.flags) (task.origMaxCost blockSize)
        (task.lz4MaxCost blockSize) resized.named).2
      refine ⟨?_, named_append (named_outputs calls) ?_⟩
      · dsimp only
        rw [CompressionTask.held]
        dsimp only
        rw [heldBy_append, heldBy_outputs, heldBy_cons, zero_add,
          show (TaskCall.begun size).held = 0 from rfl, zero_add, add_assoc]
        exact opened
      · intro call member
        rcases List.mem_cons.mp member with first | later
        · rw [first]
          trivial
        · exact named call later

theorem named_cons {call : TaskCall} (first : call.Named)
    (named : ∀ other ∈ rest, other.Named) :
    ∀ other ∈ call :: rest, other.Named := by
  intro other member
  rcases List.mem_cons.mp member with same | later
  · rw [same]
    exact first
  · exact named other later

theorem Accounts.runInput (accounts : Accounts job others)
    {call : InputCall} (calls : job.calls = .input call :: rest) :
    Keeps env job event (job.runInput env task call rest) others := by
  obtain ⟨books, _, named⟩ := accounts.pop calls
  cases call with
  | readSector =>
      obtain ⟨plain, _⟩ := accounts.pop_plain calls rfl
      exact (Accounts.continueInput plain named
        (Input.exchange_readSector env job.input job.pool)).keeps
  | callback pos sector supplied =>
      apply keeps_continueOutput
      · apply Output.enqueue_books
        rw [show (TaskCall.input (.callback pos sector supplied)).held =
          {sector.address} from rfl] at books
        rw [heldBy_cons, show TaskCall.checkQueue.held = 0 from rfl,
          zero_add]
        rw [show {sector.address} +
            (job.input.waiting + heldBy rest + others) =
          job.input.waiting + {sector.address} +
            (heldBy rest + others) by abel]
        exact books
      · exact named_cons trivial named
      · exact ⟨_, _, calls, trivial⟩
  | rawDelivered =>
      obtain ⟨plain, _⟩ := accounts.pop_plain calls rfl
      exact (Accounts.continueInput plain named
        Input.exchange_rawDelivered).keeps
  | subBlock block =>
      exact (Accounts.continueInput books named
        (Input.exchange_subBlock block)).keeps
  | subDelivered block =>
      exact (Accounts.continueInput books named
        (Input.exchange_subDelivered block)).keeps
  | begin size =>
      obtain ⟨plain, _⟩ := accounts.pop_plain calls rfl
      exact (accounts_onBegin plain named size).keeps
  | finish success reason =>
      apply Accounts.keeps
      cases success with
      | false => exact accounts.tells calls rfl rfl rfl rfl rfl
      | true => exact accounts.tells calls rfl rfl rfl rfl rfl

theorem waiting_resume (input : Input) :
    input.resume.1.waiting = input.waiting ∧
      Maxcso.heldBy input.resume.2 = 0 := by
  unfold Input.resume
  split
  · exact ⟨rfl, rfl⟩
  · exact ⟨rfl, rfl⟩

theorem Accounts.runOutput (accounts : Accounts job others)
    {call : OutputCall} (calls : job.calls = .output call :: rest) :
    Keeps env job event (job.runOutput env call rest) others := by
  obtain ⟨books, inside, named⟩ := accounts.pop_plain calls rfl
  rw [← add_assoc] at books
  cases call with
  | pad id block padPos =>
      exact keeps_continueOutput
        (Output.pad_books env block padPos inside books) named
        ⟨_, _, calls, trivial⟩
  | sectorReady id block =>
      exact (Accounts.continueOutput
        (Output.sectorReady_books env block inside books) named).keeps
  | progress pos total written =>
      obtain ⟨waiting, none⟩ := waiting_resume job.input
      apply Accounts.keeps
      refine ⟨?_, named_append (named_inputs _) (named_cons trivial named)⟩
      dsimp only [CompressionTask.runOutput]
      rw [CompressionTask.held]
      dsimp only
      rw [waiting, heldBy_append, heldBy_inputs, none, heldBy_cons,
        show (TaskCall.progressed pos total written).held = 0 from rfl,
        zero_add, zero_add]
      exact books
  | afterProgress nextPos =>
      exact (Accounts.continueOutput
        (Output.afterProgress_books books env nextPos) named).keeps
  | finish success reason =>
      apply Accounts.keeps
      cases success with
      | false => exact accounts.tells calls rfl rfl rfl rfl rfl
      | true => exact accounts.tells calls rfl rfl rfl rfl rfl

theorem Accounts.run (accounts : Accounts job others) {call : TaskCall}
    (calls : job.calls = call :: rest) :
    Keeps env job event (job.runCall env task call rest) others := by
  cases call with
  | input call => exact accounts.runInput calls
  | output call => exact accounts.runOutput calls
  | checkQueue =>
      apply Accounts.keeps
      refine accounts.tells calls rfl rfl rfl ?_ rfl
      dsimp only [runCall]
      split
      · rfl
      · rfl
  | begun size =>
      apply Accounts.keeps
      exact accounts.tells calls rfl rfl rfl rfl rfl
  | progressed pos total written =>
      apply Accounts.keeps
      exact accounts.tells calls rfl rfl rfl rfl rfl

/-- Between two callbacks only requests hold buffers. -/
theorem Accounts.quiet (accounts : Accounts job others)
    (calls : job.calls = []) :
    Output.Books job.output job.pool (job.input.waiting + others) := by
  have books := accounts.books
  rw [held, calls, show heldBy [] = 0 from rfl, add_zero] at books
  exact books

theorem accounts_quiet
    (books : Output.Books job.output job.pool
      (job.input.waiting + others)) (calls : job.calls = []) :
    Accounts job others := by
  refine ⟨?_, ?_⟩
  · rw [CompressionTask.held, calls, show heldBy [] = 0 from rfl, add_zero]
    exact books
  · intro call member
    rw [calls] at member
    cases member

/-- The buffer for the header. -/
theorem Accounts.pipe (accounts : Accounts job others)
    (calls : job.calls = []) :
    Accounts (job.beginProcessing env) others := by
  have taken := (@BufferPool.exchange_alloc job.pool env.heap).frame_left
    job.input.waiting
  rw [add_zero] at taken
  have books := (accounts.quiet calls).exchange taken
  apply accounts_quiet
  · have waiting : (job.beginProcessing env).input.waiting =
        job.input.waiting + {(job.pool.alloc env.heap).1.address} :=
      Input.waiting_ask _
    rw [waiting]
    exact books
  · exact calls

theorem Accounts.opened (accounts : Accounts job others)
    (calls : job.calls = []) (opening : Opening) (success : Bool) :
    Accounts (job.onOpened env task opening success) others := by
  have same : Accounts { job with opening := none } others :=
    ⟨accounts.books, accounts.named⟩
  cases opening with
  | input =>
      cases success with
      | false => exact ⟨accounts.books, accounts.named⟩
      | true =>
          dsimp only [onOpened]
          split
          · exact same.pipe calls
          · exact ⟨accounts.books, accounts.named⟩
  | output =>
      cases success with
      | false => exact ⟨accounts.books, accounts.named⟩
      | true => exact same.pipe calls

/-- The callback of a request of the reader. -/
theorem Accounts.completed (accounts : Accounts job others)
    (calls : job.calls = []) {position : Nat} {request : InputRequest}
    (found : job.input.inFlight[position]? = some request) :
    Keeps env job (.completed position)
      (job.continueInput
        (Input.complete env
          { job.input with
            inFlight := job.input.inFlight.eraseIdx position }
          job.pool request) []) others := by
  have books := accounts.quiet calls
  rw [Input.waiting_eraseIdx found] at books
  obtain ⟨lost, exchange, harmless⟩ := @Input.exchange_complete env
    { job.input with inFlight := job.input.inFlight.eraseIdx position }
    job.pool request
  have after := books.exchange exchange
  refine ⟨lost, ⟨?_, named_append (named_inputs _) ?_⟩, ?_⟩
  · have held : ∀ (result : InputResult),
        (job.continueInput result []).held + (lost + others) =
          result.held + lost + others := by
      intro result
      rw [CompressionTask.held, CompressionTask.continueInput]
      dsimp only
      rw [heldBy_append, heldBy_inputs, show heldBy [] = 0 from rfl,
        InputResult.held]
      abel
    rw [held]
    exact after
  · exact fun call none => absurd none List.not_mem_nil
  · rcases harmless with none | forgets
    · exact Or.inl none
    · exact Or.inr (Or.inr ⟨position, request, rfl, found, forgets⟩)

/-- The callback of a completion of the writer. -/
theorem Accounts.returned (accounts : Accounts job others)
    (calls : job.calls = []) (output : Output) {result : OutputResult}
    (sectors : output.sectors = job.output.sectors) (named : output.Named)
    (closes : ∀ {more}, Output.Books output job.pool more →
      Output.Closes result more) :
    Accounts (job.continueOutput result []) others := by
  apply Accounts.continueOutput
  · apply closes
    rw [show heldBy [] = 0 from rfl, add_zero]
    exact (accounts.quiet calls).carry sectors named
  · exact fun call none => absurd none List.not_mem_nil

theorem Accounts.step (accounts : Accounts job others)
    (taken : CompressionTask.step env task job event = some next) :
    Keeps env job event next others := by
  have named := accounts.books.named
  cases event with
  | run =>
      obtain ⟨call, rest, calls, rfl⟩ := step_run taken
      exact accounts.run calls
  | opened success =>
      obtain ⟨opening, calls, _, rfl⟩ := step_opened taken
      exact (accounts.opened calls opening success).keeps
  | completed position =>
      obtain ⟨request, calls, found, rfl⟩ := step_completed taken
      exact accounts.completed calls found
  | compressed position status =>
      obtain ⟨queued, calls, found, rfl⟩ := step_compressed taken
      apply Accounts.keeps
      apply accounts.returned calls { job.output with
        jobs := job.output.jobs.eraseIdx position } rfl
      · exact ⟨named.free, named.pending, named.partials,
          fun other member => named.jobs other
            (List.mem_of_mem_eraseIdx member), named.writes⟩
      · intro more books
        exact Output.onCompressed_books env status
          (named.jobs queued (List.mem_of_getElem? found)) books
  | dataWritten position result =>
      obtain ⟨write, calls, found, rfl⟩ := step_dataWritten taken
      have after : Accounts
          (job.continueOutput
            (Output.onDataWritten
              { job.output with
                dataWrites := job.output.dataWrites.eraseIdx position }
              job.pool write result) []) others := by
        apply accounts.returned calls { job.output with
          dataWrites := job.output.dataWrites.eraseIdx position } rfl
        · exact ⟨named.free, named.pending, named.partials, named.jobs,
            fun other member => named.writes other
              (List.mem_of_mem_eraseIdx member)⟩
        · intro more books
          exact Output.onDataWritten_books books
            (named.writes write (List.mem_of_getElem? found)) result
      exact Accounts.keeps ⟨after.books, after.named⟩
  | indexWritten position result =>
      obtain ⟨write, calls, found, rfl⟩ := step_indexWritten taken
      have after : Accounts
          (job.continueOutput
            (Output.onIndexWritten
              { job.output with
                indexWrites := job.output.indexWrites.eraseIdx position }
              job.pool write result) []) others := by
        apply accounts.returned calls { job.output with
          indexWrites := job.output.indexWrites.eraseIdx position } rfl
        · exact ⟨named.free, named.pending, named.partials, named.jobs,
            named.writes⟩
        · intro more books
          exact Output.onIndexWritten_books books write result
      exact Accounts.keeps ⟨after.books, after.named⟩

/-! ## Runs -/

theorem accounts_start (lends : pool.Lends others) :
    Accounts (start env task pool) others := by
  have enqueued : (enqueue task pool).1.Lends others := by
    unfold enqueue
    cases firstBlockSize task with
    | error reason => exact lends
    | ok blockSize => exact lends_resize lends blockSize
  have books : Output.Books (Output.create env task.flags)
      (enqueue task pool).1 (Input.waiting (Input.create env) + others) := by
    rw [show Input.waiting (Input.create env) = 0 from rfl, zero_add]
    exact Output.books_create env task.flags enqueued
  unfold start
  dsimp only
  cases (enqueue task pool).2 with
  | error reason => exact accounts_quiet books rfl
  | ok blockSize => exact accounts_quiet books rfl

theorem accounts_of_run
    {allowed : CompressionTask → TaskEvent → Prop}
    (lends : pool.Lends others)
    (run : Execution (CompressionTask.step env task) allowed
      (start env task pool) events job) :
    ∃ lost, Accounts job (lost + others) := by
  refine @Execution.invariant _ _ (CompressionTask.step env task) allowed
    (fun job => ∃ lost, Accounts job (lost + others)) ?_ _ _ _ run
    ⟨0, by rw [zero_add]; exact accounts_start lends⟩
  intro source event target before _ taken
  obtain ⟨lost, accounts⟩ := before
  obtain ⟨more, after, _⟩ := accounts.step taken
  exact ⟨more + lost, by rwa [add_assoc]⟩

/-- No buffer is in two places, and there are as many as the pool counts. -/
theorem Accounts.apart {lost : Multiset Nat}
    (accounts : Accounts job (lost + others)) :
    (addresses job.pool.free +
        (job.output.held + (job.held + others))).Nodup ∧
      job.pool.free.length +
          (job.output.held + (job.held + others)).card ≤
        job.pool.allocations := by
  have lent := accounts.books.lends
  have within : job.output.held + (job.held + others) ≤
      job.output.held + (job.held + (lost + others)) := by
    rw [add_left_comm job.held lost, add_left_comm job.output.held lost]
    exact Multiset.le_add_left _ _
  refine ⟨?_, ?_⟩
  · exact Multiset.nodup_of_le (add_le_add_right within _) lent.distinct
  · rw [lent.counted]
    exact Nat.add_le_add_left (Multiset.card_le_card within) _

end

end CompressionTask

end Maxcso
