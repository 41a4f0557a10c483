import Maxcso.Task.Capacity
import Maxcso.Task.Joining

/-!
# The stages of a task

A task opens its files, finds out the format of the input, and then writes
the image, unless it fails or there is nothing to write.
-/

namespace Maxcso

open Transition

/-- The reader has ended, or is about to. -/
def Phase.isOver : Phase → Bool
  | stopped | finishing .. => true
  | _ => false

namespace Reader

theorem isOver_usePhase
    (env : Environment) (core : Reader) (request : Request) (data : Bytes) :
    (core.usePhase env request data).isOver = false := by
  unfold usePhase
  split
  · rfl
  · rfl

/-- A reader that has nothing to pass on does not fail. -/
theorem unfailed_move {env : Environment} {core core' : Reader}
    {phase phase' : Phase} {event : ReaderEvent}
    (own : event = .run ∨ event = .complete 0)
    (late : phase.detecting = false) (fetchless : phase.fetches = false)
    (move : Move Input.fetchCached env core phase event core' phase')
    (reason : String) : phase' ≠ .finishing false reason := by
  intro same
  cases move with
  | pause | resume | otherPool =>
      rcases own with run | complete
      · cases run
      · cases complete
  | detect request detects =>
      have early : (Phase.waiting request).detecting = true := detects
      rw [late] at early
      cases early
  | use | blockRead =>
      have ended := congrArg Phase.isOver same
      rw [isOver_usePhase] at ended
      cases ended
  | blockMissing | blockShort | workFailed | workRejected =>
      cases fetchless
  | _ => cases same

end Reader

namespace CompressionTask

variable {env : Environment} {task : Task} {may : TaskCompletions}
variable {initial : BufferPool} {ledger : Ledger}
variable {job next : CompressionTask} {core : Reader} {phase : Phase}

/-! ## Failing -/

/-- An error has been told, or is about to be. -/
def Failing (job : CompressionTask) : Prop :=
  job.Failed ∨ ∃ reason, .input (.finish false reason) ∈ job.calls ∨
    .output (.finish false reason) ∈ job.calls

theorem failed_notify (status : TaskStatus) (reason : String) :
    (job.notify (.error status reason)).Failed :=
  ⟨status, reason, List.mem_append_right _ (List.mem_singleton_self _)⟩

/-- What is left to be done after a call stays. -/
theorem rest_runCall (call : TaskCall) (rest : List TaskCall) :
    ∀ other ∈ rest, other ∈ (job.runCall env task call rest).calls := by
  have pushed : ∀ (calls : List TaskCall),
      ∀ other ∈ rest, other ∈ calls ++ rest :=
    fun calls _ member => List.mem_append_right calls member
  intro other member
  cases call with
  | input call =>
      cases call with
      | readSector | rawDelivered | subBlock | subDelivered =>
          exact pushed _ other member
      | callback =>
          exact List.mem_append_right _ (List.mem_cons_of_mem _ member)
      | begin size =>
          show other ∈ (job.onBegin task size rest).calls
          cases outcome : (begin task job.blockSize job.pool size).2 with
          | error reason =>
              rw [onBegin_error outcome]
              exact member
          | ok blockSize =>
              rw [onBegin_ok outcome]
              exact List.mem_append_right _ (List.mem_cons_of_mem _ member)
      | finish success reason =>
          cases success with
          | false => exact member
          | true => exact member
  | output call =>
      cases call with
      | pad | sectorReady | afterProgress => exact pushed _ other member
      | progress =>
          exact List.mem_append_right _ (List.mem_cons_of_mem _ member)
      | finish success reason =>
          cases success with
          | false => exact member
          | true => exact member
  | checkQueue | begun | progressed => exact member

/-- A task that is about to fail does so. -/
theorem Failing.step (failing : Failing job) {event : TaskEvent}
    (taken : job.step env task event = some next) : Failing next := by
  rcases failing with failed | ⟨reason, due⟩
  · exact Or.inl ((continues_step taken).failed failed)
  · have running : ∃ call rest, job.calls = call :: rest ∧
        next = job.runCall env task call rest := by
      have busy : job.calls ≠ [] := by
        intro quiet
        rw [quiet] at due
        rcases due with member | member
        · cases member
        · cases member
      cases event with
      | run => exact step_run taken
      | opened success =>
          obtain ⟨_, quiet, _⟩ := step_opened taken
          exact absurd quiet busy
      | completed position =>
          obtain ⟨_, quiet, _⟩ := step_completed taken
          exact absurd quiet busy
      | compressed position status =>
          obtain ⟨_, quiet, _⟩ := step_compressed taken
          exact absurd quiet busy
      | dataWritten position result =>
          obtain ⟨_, quiet, _⟩ := step_dataWritten taken
          exact absurd quiet busy
      | indexWritten position result =>
          obtain ⟨_, quiet, _⟩ := step_indexWritten taken
          exact absurd quiet busy
    obtain ⟨call, rest, calls, rfl⟩ := running
    have stays := @rest_runCall env task job call rest
    rw [calls] at due
    rcases due with member | member
    · rcases List.mem_cons.mp member with head | later
      · subst head
        exact Or.inl (failed_notify _ _)
      · exact Or.inr ⟨reason, Or.inl (stays _ later)⟩
    · rcases List.mem_cons.mp member with head | later
      · subst head
        exact Or.inl (failed_notify _ _)
      · exact Or.inr ⟨reason, Or.inr (stays _ later)⟩

/-! ## Without a writer -/

/-- The calls that the callback for the size leaves when there is nothing to
write. -/
inductive Outside : TaskCall → Prop
  | begun (size : Int) : Outside (.begun size)
  | refused (reason : String) : Outside (.output (.finish false reason))

/-- Why the reader passes on nothing. -/
inductive Barred (core : Reader) (phase : Phase) (before : List TaskCall) :
    Prop
  | paused (paused : core.input.paused = true)
  | empty (empty : core.input.size ≤ 0)
  | refused (reason : String)
      (refused : .output (.finish false reason) ∈ before)
  | ended (ended : phase.isOver = true)

/-- The reader of a task that has nothing to write. -/
structure Alone (env : Environment) (may : TaskCompletions)
    (initial : BufferPool) (ledger : Ledger) (job : CompressionTask)
    (core : Reader) (phase : Phase) (before : List TaskCall) : Prop where
  reads : Reads job core phase
  reached : Reader.Reached env may initial ledger.reads core phase
  unwritten : ledger.writes = []
  paid : ledger.steps + before.length ≤ ledger.readCost + 4
  credit : ledger.credit = 0
  late : phase.detecting = false
  opened : job.opening = none
  calls : job.calls = before ++ phase.calls.map .input
  outside : ∀ call ∈ before, Outside call
  barred : Barred core phase before
  fetchless : phase.fetches = false
  jobs : job.output.jobs = []
  dataWrites : job.output.dataWrites = []
  indexWrites : job.output.indexWrites = []
  exact : job.output.underflow = false
  silent : job.successes = 0

/-- The image is empty, and nothing has gone wrong. -/
structure Vacant (job : CompressionTask) (core : Reader) (phase : Phase)
    (before : List TaskCall) : Prop where
  hasFile : job.output.stateHasFile = true
  empty : core.input.size ≤ 0
  unrefused : ∀ reason, .output (.finish false reason) ∉ before
  unfailed : ∀ reason, phase ≠ .finishing false reason
  told : ∀ notice ∈ job.notices, ∃ pos total written,
    notice = .progress .inProgress pos total written

/-- What a step of such a task leads to. -/
def AloneNext (env : Environment) (may : TaskCompletions)
    (initial : BufferPool) (ledger : Ledger) (job : CompressionTask)
    (core : Reader) (phase : Phase) (before : List TaskCall)
    (next : CompressionTask) : Prop :=
  ∃ ledger' core' phase' before', ledger'.steps = ledger.steps + 1 ∧
    Alone env may initial ledger' next core' phase' before' ∧
    next.output = job.output ∧ core'.input.size = core.input.size ∧
    (Vacant job core phase before → Vacant next core' phase' before')

section

variable {before : List TaskCall}

theorem Alone.bufferSize
    (alone : Alone env may initial ledger job core phase before) :
    job.pool.bufferSize = core.pool.bufferSize :=
  congrArg BufferPool.bufferSize alone.reads.pool

theorem Alone.paid_run
    (alone : Alone env may initial ledger job core phase []) :
    (ledger.read .run).tick.steps + 0 ≤
      (ledger.read .run).tick.readCost + 4 := by
  have paid := alone.paid
  show ledger.steps + 1 + 0 ≤ (ledger.read .run).readCost + 4
  rw [Ledger.readCost_read]
  simp only [List.length_nil, ReaderEvent.cost] at paid ⊢
  omega

theorem Alone.credit_run
    (alone : Alone env may initial ledger job core phase before) :
    (ledger.read .run).tick.credit = 0 := by
  show (ledger.read .run).credit = 0
  rw [Ledger.credit_read, alone.credit]
  rfl

/-- When the reader is running nothing else is left. -/
theorem Alone.nothing_before
    (alone : Alone env may initial ledger job core phase before)
    {call : InputCall} {rest : List TaskCall}
    (calls : job.calls = .input call :: rest) :
    before = [] ∧ phase.calls = call :: inputCalls rest ∧
      rest = (inputCalls rest).map .input := by
  have due := alone.calls
  rw [calls] at due
  cases before with
  | cons other before =>
      have outside := alone.outside other List.mem_cons_self
      rw [← (List.cons.inj due).1] at outside
      cases outside
  | nil =>
      rw [List.nil_append] at due
      have inputs := congrArg inputCalls due
      have all := @inputCalls_inputs phase.calls []
      rw [List.append_nil] at all
      rw [inputCalls_input, all] at inputs
      have phaseCalls : phase.calls = call :: inputCalls rest := by
        rw [inputs]
        exact (List.append_nil _).symm
      refine ⟨rfl, phaseCalls, ?_⟩
      rw [phaseCalls] at due
      exact (List.cons.inj due).2

/-- The reader goes on by itself, and passes on nothing. -/
theorem Alone.own
    (alone : Alone env may initial ledger job core phase before)
    {call : InputCall} {rest : List TaskCall} {result : InputResult}
    (calls : job.calls = .input call :: rest)
    (same : job.input.runOwn env job.pool call = some result) :
    AloneNext env may initial ledger job core phase before
      (job.continueInput result rest) := by
  obtain ⟨none, due, left⟩ := alone.nothing_before calls
  subst none
  obtain ⟨late, idle, core', phase', move, delivered, finished, again⟩ :=
    @Reads.own env job (job.continueInput result rest) core phase
      alone.reads call rest result calls same rfl rfl inputCalls_inputs id
  obtain ⟨found, _, _, late'⟩ :=
    Reader.found_move late (show (core.enter phase).KeepsPool .run from
      trivial) move
  have paused := Reader.paused_move alone.reads.track move (Or.inl rfl)
  have size : core'.input.size = core.input.size := by
    show core'.input.found.size = core.input.found.size
    rw [found]
  have only : rest = [] := left.trans (congrArg (List.map TaskCall.input) idle)
  subst only
  have pushed : result.calls = phase'.calls := by
    have after := again.calls
    rw [continueInput, inputCalls_inputs] at after
    exact (List.append_nil _).symm.trans after
  have running : phase.isOver = false := by
    cases phase with
    | finishing =>
        obtain ⟨head, _⟩ := List.cons.inj due
        subst head
        cases same
    | stopped => cases due
    | _ => rfl
  have fetchless : phase'.fetches = false := by
    by_contra fetches
    rcases Reader.fetches_move alone.reads.track late move
      (eq_true_of_ne_false fetches) with before | ⟨unpaused, more⟩
    · rw [alone.fetchless] at before
      cases before
    · cases alone.barred with
      | paused paused =>
          rw [unpaused] at paused
          cases paused
      | empty empty => omega
      | refused _ refused => cases refused
      | ended ended =>
          rw [running] at ended
          cases ended
  refine ⟨(ledger.read .run).tick, core', phase', [], rfl, ⟨again,
    alone.reached.run alone.reads.known move, alone.unwritten, ?_, ?_,
    late', alone.opened, ?_, ?_, ?_, fetchless, alone.jobs,
    alone.dataWrites, alone.indexWrites, alone.exact, alone.silent⟩, rfl,
    size, ?_⟩
  · exact alone.paid_run
  · exact alone.credit_run
  · show result.calls.map TaskCall.input ++ [] = [] ++ _
    rw [pushed, List.append_nil, List.nil_append]
  · intro call member
    cases member
  · cases alone.barred with
    | paused before => exact .paused (paused.trans before)
    | empty empty => exact .empty (size.trans_le empty)
    | refused _ refused => cases refused
    | ended ended =>
        rw [running] at ended
        cases ended
  · intro vacant
    refine ⟨vacant.hasFile, size.trans_le vacant.empty, vacant.unrefused,
      ?_, vacant.told⟩
    exact Reader.unfailed_move (Or.inl rfl) late alone.fetchless move

theorem runInput_finish (success : Bool) (reason : String)
    (rest : List TaskCall) :
    ∃ notices, job.runInput env task (.finish success reason) rest =
        { job with
          calls := rest
          notices := notices } ∧
      (success = true → notices = job.notices) ∧
      (success = false →
        (job.runInput env task (.finish success reason) rest).Failed) ∧
      notices.countP isSuccess = job.successes := by
  cases success with
  | true =>
      refine ⟨job.notices, rfl, fun _ => rfl, ?_, rfl⟩
      intro other
      cases other
  | false =>
      refine ⟨_, rfl, ?_, fun _ => ?_, ?_⟩
      · intro other
        cases other
      · exact @failed_notify { job with calls := rest } _ _
      · exact @successes_notify { job with calls := rest } _ rfl

/-- A call of the reader. -/
theorem Alone.runInput
    (alone : Alone env may initial ledger job core phase before)
    {call : InputCall} {rest : List TaskCall}
    (calls : job.calls = .input call :: rest) :
    AloneNext env may initial ledger job core phase before
      (job.runInput env task call rest) := by
  have continues : Continues job (job.runInput env task call rest) :=
    @continues_runCall env task job (.input call) rest
  cases call with
  | readSector | rawDelivered | subBlock | subDelivered =>
      exact alone.own calls rfl
  | callback pos sector supplied =>
      obtain ⟨_, fetches, _⟩ := @Reads.callback env job
        (job.runInput env task (.callback pos sector supplied) rest) core
        phase alone.reads pos sector supplied rest calls rfl
        (inputCalls_outputs _) continues.failed
      rw [alone.fetchless] at fetches
      cases fetches
  | begin size =>
      have late := alone.late
      rw [(alone.reads.begin calls).1] at late
      cases late
  | finish success reason =>
      obtain ⟨none, _, left⟩ := alone.nothing_before calls
      subst none
      obtain ⟨notices, same, quiet, failed, successes⟩ :=
        @runInput_finish env task job success reason rest
      rw [same] at continues failed ⊢
      obtain ⟨finishes, again⟩ := @Reads.finish job
        { job with
          calls := rest
          notices := notices } core phase alone.reads success reason rest
        calls rfl rfl rfl continues.failed failed
      subst finishes
      have idle : inputCalls rest = [] := again.calls
      have only : rest = [] :=
        left.trans (congrArg (List.map TaskCall.input) idle)
      subst only
      refine ⟨(ledger.read .run).tick, _, .stopped, [], rfl, ⟨again,
        alone.reached.run alone.reads.known (.finish core success reason),
        alone.unwritten, alone.paid_run, alone.credit_run, rfl,
        alone.opened, rfl, ?_, .ended rfl, rfl, alone.jobs, alone.dataWrites,
        alone.indexWrites, alone.exact, successes.trans alone.silent⟩, rfl,
        rfl, ?_⟩
      · intro call member
        cases member
      · intro vacant
        have succeeded : success = true := by
          by_contra failure
          rw [eq_false_of_ne_true failure] at vacant
          exact vacant.unfailed reason rfl
        refine ⟨vacant.hasFile, vacant.empty, vacant.unrefused, ?_, ?_⟩
        · intro other ended
          cases ended
        · show ∀ notice ∈ notices, _
          rw [quiet succeeded]
          exact vacant.told

/-- The task is told that its writer has refused the image, and pauses the
reader. -/
theorem Alone.refuse
    {reason : String} {rest : List TaskCall}
    (alone : Alone env may initial ledger job core phase
      (.output (.finish false reason) :: before))
    (calls : job.calls = .output (.finish false reason) :: rest)
    (left : rest = before ++ phase.calls.map .input) :
    AloneNext env may initial ledger job core phase
      (.output (.finish false reason) :: before)
      (job.runOutput env (.finish false reason) rest) := by
  have continues : Continues job
      (job.runOutput env (.finish false reason) rest) := .notify _ rfl rfl
  have inputs : inputCalls rest = inputCalls job.calls := by
    rw [calls, inputCalls_output]
  refine ⟨((ledger.read .pause).read (.otherPool job.pool)).tick, _, phase,
    before, rfl, ⟨alone.reads.pause rfl inputs continues.failed,
    alone.reached.pause alone.reads.known fun _ => alone.bufferSize,
    alone.unwritten, ?_, ?_, alone.late, alone.opened, left, ?_,
    .paused rfl, alone.fetchless, alone.jobs, alone.dataWrites,
    alone.indexWrites, alone.exact, ?_⟩, rfl, rfl, ?_⟩
  · have paid := alone.paid
    show ledger.steps + 1 + before.length ≤
      ((ledger.read .pause).read (.otherPool job.pool)).readCost + 4
    rw [Ledger.readCost_read, Ledger.readCost_read]
    simp only [List.length_cons, ReaderEvent.cost] at paid ⊢
    omega
  · show ((ledger.read .pause).read (.otherPool job.pool)).credit = 0
    rw [Ledger.credit_read, Ledger.credit_read, alone.credit]
    rfl
  · intro call member
    exact alone.outside call (List.mem_cons_of_mem _ member)
  · refine Eq.trans ?_ alone.silent
    exact @successes_notify
      { job with
        input := job.input.pause
        calls := rest } _ rfl
  · intro vacant
    exact absurd List.mem_cons_self (vacant.unrefused reason)

/-- The task is told the size. -/
theorem Alone.begun
    {size : Int} {rest : List TaskCall}
    (alone : Alone env may initial ledger job core phase
      (.begun size :: before))
    (calls : job.calls = .begun size :: rest)
    (left : rest = before ++ phase.calls.map .input) :
    AloneNext env may initial ledger job core phase
      (.begun size :: before) (job.runCall env task (.begun size) rest) := by
  have continues := @continues_runCall env task job (.begun size) rest
  have inputs : inputCalls rest = inputCalls job.calls := by
    rw [calls, inputCalls_begun]
  refine ⟨(ledger.read (.otherPool job.pool)).tick, _, phase, before, rfl,
    ⟨alone.reads.other rfl inputs continues.failed,
    alone.reached.otherPool alone.reads.known fun _ => alone.bufferSize,
    alone.unwritten, ?_, ?_, alone.late, alone.opened, left, ?_, ?_,
    alone.fetchless, alone.jobs, alone.dataWrites, alone.indexWrites,
    alone.exact, ?_⟩, rfl, rfl, ?_⟩
  · have paid := alone.paid
    show ledger.steps + 1 + before.length ≤
      (ledger.read (.otherPool job.pool)).readCost + 4
    rw [Ledger.readCost_read]
    simp only [List.length_cons, ReaderEvent.cost] at paid ⊢
    omega
  · show (ledger.read (.otherPool job.pool)).credit = 0
    rw [Ledger.credit_read, alone.credit]
    rfl
  · intro call member
    exact alone.outside call (List.mem_cons_of_mem _ member)
  · cases alone.barred with
    | paused paused => exact .paused paused
    | empty empty => exact .empty empty
    | refused reason refused =>
        refine .refused reason ?_
        rcases List.mem_cons.mp refused with head | later
        · cases head
        · exact later
    | ended ended => exact .ended ended
  · refine Eq.trans ?_ alone.silent
    exact @successes_notify
      { job with
        size := size
        calls := rest } _ rfl
  · intro vacant
    refine ⟨vacant.hasFile, vacant.empty, ?_, vacant.unfailed, ?_⟩
    · intro reason member
      exact vacant.unrefused reason (List.mem_cons_of_mem _ member)
    · intro notice member
      rcases List.mem_append.mp member with earlier | last
      · exact vacant.told notice earlier
      · exact ⟨0, size, 0, List.mem_singleton.mp last⟩

/-- Nothing is written, and no sector is passed on. -/
theorem Alone.step
    (alone : Alone env may initial ledger job core phase before)
    {event : TaskEvent} (taken : job.step env task event = some next) :
    AloneNext env may initial ledger job core phase before next := by
  cases event with
  | run =>
      obtain ⟨call, rest, calls, rfl⟩ := step_run taken
      have due := alone.calls
      rw [calls] at due
      cases before with
      | nil =>
          have member : call ∈ phase.calls.map .input := by
            rw [List.nil_append] at due
            rw [← due]
            exact List.mem_cons_self
          obtain ⟨input, _, same⟩ := List.mem_map.mp member
          subst same
          exact alone.runInput calls
      | cons first before =>
          obtain ⟨head, left⟩ := List.cons.inj due
          subst head
          cases alone.outside call List.mem_cons_self with
          | begun size => exact alone.begun calls left
          | refused reason => exact alone.refuse calls left
  | opened success =>
      obtain ⟨opening, _, waiting, _⟩ := step_opened taken
      rw [alone.opened] at waiting
      cases waiting
  | completed position =>
      obtain ⟨request, quiet, found, same⟩ := step_completed taken
      obtain ⟨waiting, _⟩ := @Reads.complete env job next core phase
        alone.reads quiet position request found _ rfl
        (congrArg CompressionTask.input same)
        (congrArg CompressionTask.pool same)
        (same ▸ inputCalls_inputs.trans (List.append_nil _))
        (continues_step taken).failed
      have late := alone.late
      have fetchless := alone.fetchless
      rw [waiting] at late fetchless
      have detects : request.detects = false := late
      have fetches : (!request.detects) = false := fetchless
      rw [detects] at fetches
      cases fetches
  | compressed position status =>
      obtain ⟨queued, _, found, _⟩ := step_compressed taken
      rw [alone.jobs] at found
      cases found
  | dataWritten position result =>
      obtain ⟨write, _, found, _⟩ := step_dataWritten taken
      rw [alone.dataWrites] at found
      cases found
  | indexWritten position result =>
      obtain ⟨write, _, found, _⟩ := step_indexWritten taken
      rw [alone.indexWrites] at found
      cases found

end

/-! ## Before the image is known -/

/-- The format of the input is being found out. -/
structure Detecting (env : Environment) (task : Task)
    (may : TaskCompletions) (initial : BufferPool) (ledger : Ledger)
    (job : CompressionTask) (core : Reader) (phase : Phase) : Prop where
  reads : Reads job core phase
  reached : Reader.Reached env may initial ledger.reads core phase
  unwritten : ledger.writes = []
  paid : ledger.steps ≤ ledger.readCost + 2
  credit : ledger.credit = 0
  detecting : phase.detecting = true
  unbegun : core.begun = []
  opened : job.opening = none
  output : job.output = Output.create env task.flags
  calls : job.calls = phase.calls.map .input
  running : core.input.paused = false
  notices : job.notices = []
  file : job.file = []
  blockSize : ∃ pool, (enqueue task pool).2 = .ok job.blockSize
  roomy : Roomy task job true

/-- The files are not open. -/
structure Unopened (env : Environment) (task : Task) (initial : BufferPool)
    (taken : Nat) (job : CompressionTask) : Prop where
  closed : Closed env task job
  pool : job.pool = initial
  file : job.file = []
  silent : job.successes = 0
  steps : taken ≤ 2
  waits : ∀ opening, job.opening = some opening →
    taken + (if opening = .input then 2 else 1) ≤ 2 ∧ job.notices = [] ∧
      (∃ pool, (enqueue task pool).2 = .ok job.blockSize) ∧
      minSize ≤ job.pool.bufferSize ∧
      job.blockSize * 2 ≤ job.pool.bufferSize

/-- Where a task is. -/
inductive Stage (env : Environment) (task : Task) (may : TaskCompletions)
    (initial : BufferPool) (ledger : Ledger) (job : CompressionTask) : Prop
  | unopened (unopened : Unopened env task initial ledger.steps job)
  | detecting (core : Reader) (phase : Phase)
      (detecting : Detecting env task may initial ledger job core phase)
  | failing (core : Reader) (phase : Phase) (before : List TaskCall)
      (alone : Alone env may initial ledger job core phase before)
      (fileless : job.output.stateHasFile = false) (failing : Failing job)
  | vacant (core : Reader) (phase : Phase) (before : List TaskCall)
      (alone : Alone env may initial ledger job core phase before)
      (vacant : Vacant job core phase before)
  | writing (config : WriterConfig) (core : Reader) (phase : Phase)
      (writer : Writer) (opens : Opens task config)
      (accepted : config.Accepted env)
      (writing : Writing env config may initial ledger job core phase writer)

theorem shift_of_enqueue {pool : BufferPool} {blockSize : Nat}
    (enqueued : (enqueue task pool).2 = .ok blockSize) :
    ∃ shift, 11 ≤ shift ∧ shift ≤ 18 ∧ blockSize = 2 ^ shift := by
  unfold enqueue at enqueued
  cases first : firstBlockSize task with
  | error reason =>
      rw [first] at enqueued
      cases enqueued
  | ok size =>
      rw [first] at enqueued
      obtain ⟨same, _⟩ := of_resize enqueued
      subst same
      exact two_pow_of_firstBlockSize first

/-- The block size that the callback for the size settles on. -/
theorem begin_ok {pool : BufferPool} {size : Int} {first blockSize : Nat}
    (accepted : (begin task first pool size).2 = .ok blockSize)
    (room : first * 2 ≤ pool.bufferSize)
    (power : ∃ shift, 11 ≤ shift ∧ shift ≤ 18 ∧ first = 2 ^ shift) :
    blockSize ≤ (begin task first pool size).1.bufferSize ∧
      ∃ shift, 11 ≤ shift ∧ shift ≤ 18 ∧ blockSize = 2 ^ shift := by
  by_cases resizes : Resizes task size
  · rw [begin_resizes resizes] at accepted ⊢
    obtain ⟨large, resized⟩ := of_resize accepted
    subst large
    refine ⟨?_, 14, by decide, by decide, rfl⟩
    rw [resized]
    decide
  · rw [begin_stays resizes] at accepted ⊢
    obtain rfl := Except.ok.inj accepted
    refine ⟨?_, power⟩
    dsimp only
    omega

/-- `SetFile` accepts the image or refuses it, and starts nothing. -/
theorem setFile_outcome
    (output : Output) (noFile : Bool) (srcSize : Int) (blockSize : Nat)
    (fmt : CsoFormat) (origMaxCost lz4MaxCost : Nat) :
    ∃ opened calls, output.setFile noFile srcSize blockSize fmt origMaxCost
        lz4MaxCost = (opened, calls) ∧
      opened.jobs = output.jobs ∧ opened.dataWrites = output.dataWrites ∧
      opened.indexWrites = output.indexWrites ∧
      opened.underflow = output.underflow ∧
      (calls = [] ∧ opened.stateHasFile = true ∨
        ∃ reason, calls = [.finish false reason] ∧
          opened.stateHasFile = output.stateHasFile) := by
  unfold Output.setFile
  dsimp only
  split_ifs
  all_goals refine ⟨_, _, rfl, rfl, rfl, rfl, rfl, ?_⟩
  all_goals first
    | exact Or.inl ⟨rfl, rfl⟩
    | exact Or.inr ⟨_, rfl, rfl⟩

/-- What a step leads to. -/
def StageNext (env : Environment) (task : Task) (may : TaskCompletions)
    (initial : BufferPool) (ledger : Ledger) (next : CompressionTask) :
    Prop :=
  ∃ ledger', ledger'.steps = ledger.steps + 1 ∧
    Stage env task may initial ledger' next

section

variable {size : Int} {rest : List TaskCall}

theorem Detecting.successes
    (detecting : Detecting env task may initial ledger job core phase) :
    job.successes = 0 := by
  rw [CompressionTask.successes, detecting.notices]
  rfl

/-- The calls of a task that is about to begin. -/
theorem Detecting.beginning
    (detecting : Detecting env task may initial ledger job core phase)
    (calls : job.calls = .input (.begin size) :: rest) :
    phase = .beginning size ∧ size = core.input.size ∧
      rest = [.input .readSector] := by
  obtain ⟨same, found, _⟩ := detecting.reads.begin calls
  refine ⟨same, found, ?_⟩
  have due := detecting.calls
  rw [calls, same] at due
  exact (List.cons.inj due).2

/-- The reader has called `begin_`, and its owner has resized the pool. -/
theorem Detecting.reached_begin
    (detecting : Detecting env task may initial ledger job core phase)
    (same : phase = .beginning size) (pool : BufferPool) :
    Reader.Reached env may initial
      ((ledger.read (.otherPool pool)).read .run).reads
      { core with
        pool := pool
        begun := core.begun ++ [size] } .reading := by
  subst same
  have resized := @Reader.Reached.otherPool env may initial pool
    ledger.reads core _ detecting.reached detecting.reads.known
    (fun begun => absurd detecting.unbegun begun)
  exact resized.run (fun _ => detecting.reads.known rfl)
    (.begin { core with pool := pool } size)

theorem Detecting.paid_begin
    (detecting : Detecting env task may initial ledger job core phase)
    (pool : BufferPool) :
    ((ledger.read (.otherPool pool)).read .run).tick.steps ≤
        ((ledger.read (.otherPool pool)).read .run).readCost + 2 ∧
      ((ledger.read (.otherPool pool)).read .run).credit = 0 := by
  have paid := detecting.paid
  refine ⟨?_, ?_⟩
  · show ledger.steps + 1 ≤ _
    rw [Ledger.readCost_read, Ledger.readCost_read]
    simp only [ReaderEvent.cost]
    omega
  · rw [Ledger.credit_read, Ledger.credit_read, detecting.credit]
    rfl

/-- The block size cannot be changed. -/
theorem Detecting.refused
    (detecting : Detecting env task may initial ledger job core phase)
    (calls : job.calls = .input (.begin size) :: rest) {reason : String}
    (outcome : (begin task job.blockSize job.pool size).2 =
      .error reason) :
    StageNext env task may initial ledger (job.onBegin task size rest) := by
  obtain ⟨same, _, left⟩ := detecting.beginning calls
  obtain ⟨_, _, read⟩ := detecting.reads.begin calls
  have continues := @continues_onBegin task job size rest
  rw [onBegin_error outcome] at continues ⊢
  have reached := detecting.reached_begin same
    (begin task job.blockSize job.pool size).1
  have known : Phase.reading.knowsFormat = true →
      core.input.fileType ≠ .unknown := fun _ => by
    subst same
    exact detecting.reads.known rfl
  have paused := reached.outside known (.pause _ .reading) rfl
    fun _ => trivial
  obtain ⟨paid, credit⟩ := detecting.paid_begin
    (begin task job.blockSize job.pool size).1
  have output := detecting.output
  refine ⟨(((ledger.read (.otherPool
      (begin task job.blockSize job.pool size).1)).read .run).read
        .pause).tick, rfl, .failing _ .reading []
    ⟨read.pause rfl rfl continues.failed, paused, detecting.unwritten, ?_,
      ?_, rfl, detecting.opened, left, ?_, .paused rfl, rfl, ?_, ?_, ?_,
      ?_, ?_⟩ ?_ (Or.inl (failed_notify _ _))⟩
  · show ledger.steps + 1 + 0 ≤ (((ledger.read (.otherPool _)).read
      .run).read .pause).readCost + 4
    rw [Ledger.readCost_read]
    exact paid.trans (Nat.le_add_right _ 2)
  · show (((ledger.read (.otherPool _)).read .run).read .pause).credit = 0
    rw [Ledger.credit_read, credit]
    rfl
  · intro call member
    cases member
  · exact congrArg Output.jobs output
  · exact congrArg Output.dataWrites output
  · exact congrArg Output.indexWrites output
  · exact congrArg Output.underflow output
  · refine Eq.trans ?_ detecting.successes
    exact @successes_notify
      { job with
        pool := (begin task job.blockSize job.pool size).1
        blockSize := largeBlockSize
        input := job.input.pause
        calls := rest } _ rfl
  · exact congrArg Output.stateHasFile output

/-- The settings that `SetFile` is called with. -/
theorem Detecting.config
    (detecting : Detecting env task may initial ledger job core phase)
    (calls : job.calls = .input (.begin size) :: rest) (positive : 0 < size)
    {blockSize : Nat}
    (outcome : (begin task job.blockSize job.pool size).2 =
      .ok blockSize) :
    blockSize ≤ (begin task job.blockSize job.pool size).1.bufferSize ∧
      ∃ config : WriterConfig, Opens task config ∧
        config.srcSize = size ∧ config.blockSize = blockSize := by
  obtain ⟨same, found, _⟩ := detecting.beginning calls
  obtain ⟨pool, enqueued⟩ := detecting.blockSize
  have room : job.blockSize * 2 ≤ job.pool.bufferSize := by
    have roomy := detecting.roomy
    cases roomy with
    | detecting _ _ first => exact first
  obtain ⟨fits, shift, least, most, power⟩ :=
    begin_ok outcome room (shift_of_enqueue enqueued)
  refine ⟨fits, ?_⟩
  obtain ⟨count, natural⟩ := Int.eq_ofNat_of_zero_le (Int.le_of_lt positive)
  have aligned := detecting.reads.track.aligned (by rw [same]; rfl)
  rw [← found, natural] at aligned
  subst natural
  have whole : sectorSize ∣ count :=
    Nat.dvd_of_mod_eq_zero (Int.ofNat_inj.mp aligned)
  refine ⟨⟨task.flags, hasFlag task.flags taskflagMeasure,
    format task.flags, count, shift, task.origMaxCost blockSize,
    task.lz4MaxCost blockSize, ⟨least, most⟩, Int.ofNat_lt.mp positive,
    Or.inl whole⟩, ⟨rfl, rfl, rfl, ?_, ?_, ?_⟩, rfl, power.symm⟩
  · refine ⟨pool, job.pool, job.blockSize, enqueued, ?_⟩
    rw [outcome]
    exact congrArg Except.ok power
  · exact congrArg task.origMaxCost power
  · exact congrArg task.lz4MaxCost power

theorem Detecting.opened_eq
    (detecting : Detecting env task may initial ledger job core phase)
    {config : WriterConfig} (opens : Opens task config)
    (srcSize : config.srcSize = size) {blockSize : Nat}
    (blocks : config.blockSize = blockSize) :
    config.opened env =
      job.output.setFile (hasFlag task.flags taskflagMeasure) size blockSize
        (format task.flags) (task.origMaxCost blockSize)
        (task.lz4MaxCost blockSize) := by
  rw [WriterConfig.opened, detecting.output, opens.flags, opens.noFile,
    srcSize, opens.fmt, opens.origMaxCost, opens.lz4MaxCost, blocks]

/-- Sectors are going to be written. -/
theorem Detecting.opens
    (detecting : Detecting env task may initial ledger job core phase)
    (calls : job.calls = .input (.begin size) :: rest) (positive : 0 < size)
    {blockSize : Nat}
    (outcome : (begin task job.blockSize job.pool size).2 =
      .ok blockSize)
    (accepted : (job.output.setFile (hasFlag task.flags taskflagMeasure)
      size blockSize (format task.flags) (task.origMaxCost blockSize)
      (task.lz4MaxCost blockSize)).2 = []) :
    StageNext env task may initial ledger (job.onBegin task size rest) := by
  obtain ⟨same, found, left⟩ := detecting.beginning calls
  obtain ⟨_, _, read⟩ := detecting.reads.begin calls
  obtain ⟨fits, config, opens, srcSize, blocks⟩ :=
    detecting.config calls positive outcome
  have continues := @continues_onBegin task job size rest
  have opened := detecting.opened_eq opens srcSize blocks
  rw [onBegin_ok outcome, accepted] at continues ⊢
  subst left
  have reached := detecting.reached_begin same
    (begin task job.blockSize job.pool size).1
  obtain ⟨paid, credit⟩ := detecting.paid_begin
    (begin task job.blockSize job.pool size).1
  have fresh := detecting.reads.track.fresh detecting.detecting
  have none : config.Accepted env :=
    (congrArg Prod.snd opened).trans accepted
  have runs : Runs env config may.toCompletions
      (begin task job.blockSize job.pool size).1 core.delivered []
      (Writer.start env config (begin task job.blockSize job.pool size).1) := by
    rw [fresh]
    exact runs_start
  let ledger' : Ledger :=
    { ((ledger.read (.otherPool
        (begin task job.blockSize job.pool size).1)).read .run).tick with
      writerPool := (begin task job.blockSize job.pool size).1
      writes := [] }
  refine ⟨ledger', rfl, .writing config _ .reading
    (Writer.start env config (begin task job.blockSize job.pool size).1)
    opens none
    ⟨read.other rfl rfl continues.failed, reached, runs, ?_, ?_, rfl,
      detecting.opened, List.concat_ne_nil _ _, ?_, ?_, ?_, rfl,
      detecting.file, ?_, ?_, detecting.running, ?_, ?_, ?_, ?_⟩⟩
  · refine ⟨?_, ?_⟩
    · show ledger.steps + 1 + 1 ≤
        ((ledger.read (.otherPool _)).read .run).readCost + 0 + 3
      exact Nat.add_le_add_right paid 1
    · show ((ledger.read (.otherPool _)).read .run).credit ≤ 0
      rw [credit]
  · rw [blocks]
    exact fits
  · rw [srcSize, found]
  · intro delivery member
    have none : delivery ∈ core.delivered := member
    rw [fresh] at none
    cases none
  · show (job.output.setFile _ size blockSize _ _ _).1 = _
    rw [← opened]
    rfl
  · show [] = (config.opened env).2.map WriterCall.output
    rw [opened, accepted]
    rfl
  · refine .other rfl (.input rfl ?_ .nil)
    intro pos sector supplied other
    cases other
  · intro fetches
    cases fetches
  · show 0 = sectorSize * core.delivered.length
    rw [fresh]
    rfl
  · show List.countP _ job.notices = 0
    rw [detecting.notices]
    rfl
  · intro reason written member
    cases member

/-- There is nothing to write. -/
theorem Detecting.finds_empty
    (detecting : Detecting env task may initial ledger job core phase)
    (calls : job.calls = .input (.begin size) :: rest) (empty : size ≤ 0)
    {blockSize : Nat}
    (outcome : (begin task job.blockSize job.pool size).2 =
      .ok blockSize)
    (accepted : (job.output.setFile (hasFlag task.flags taskflagMeasure)
      size blockSize (format task.flags) (task.origMaxCost blockSize)
      (task.lz4MaxCost blockSize)).2 = []) :
    StageNext env task may initial ledger (job.onBegin task size rest) := by
  obtain ⟨same, found, left⟩ := detecting.beginning calls
  obtain ⟨_, _, read⟩ := detecting.reads.begin calls
  have continues := @continues_onBegin task job size rest
  rw [onBegin_ok outcome, accepted] at continues ⊢
  subst left
  have reached := detecting.reached_begin same
    (begin task job.blockSize job.pool size).1
  obtain ⟨paid, credit⟩ := detecting.paid_begin
    (begin task job.blockSize job.pool size).1
  obtain ⟨opened, others, set, jobs, dataWrites, indexWrites, underflow,
    outcomes⟩ := setFile_outcome job.output
      (hasFlag task.flags taskflagMeasure) size blockSize
      (format task.flags) (task.origMaxCost blockSize)
      (task.lz4MaxCost blockSize)
  rw [set] at accepted continues ⊢
  dsimp only at accepted
  have hasFile : opened.stateHasFile = true := by
    rcases outcomes with ⟨_, hasFile⟩ | ⟨reason, refused, _⟩
    · exact hasFile
    · rw [accepted] at refused
      cases refused
  have output := detecting.output
  refine ⟨((ledger.read (.otherPool
      (begin task job.blockSize job.pool size).1)).read .run).tick, rfl,
    .vacant _ .reading [.begun size]
      ⟨read.other rfl rfl continues.failed, reached, detecting.unwritten,
        (Nat.add_le_add_right paid 1).trans (Nat.le_succ _), credit, rfl,
        detecting.opened, rfl, ?_, .empty ?_, rfl, ?_, ?_, ?_, ?_,
        detecting.successes⟩
      ⟨hasFile, ?_, ?_, ?_, ?_⟩⟩
  · intro call member
    rw [List.mem_singleton.mp member]
    exact .begun size
  · exact found.symm.trans_le empty
  · exact jobs.trans (congrArg Output.jobs output)
  · exact dataWrites.trans (congrArg Output.dataWrites output)
  · exact indexWrites.trans (congrArg Output.indexWrites output)
  · exact underflow.trans (congrArg Output.underflow output)
  · exact found.symm.trans_le empty
  · intro reason member
    cases List.mem_singleton.mp member
  · intro reason ended
    cases ended
  · intro notice member
    have none : notice ∈ job.notices := member
    rw [detecting.notices] at none
    cases none

/-- The writer refuses the image. -/
theorem Detecting.unwritable
    (detecting : Detecting env task may initial ledger job core phase)
    (calls : job.calls = .input (.begin size) :: rest)
    {blockSize : Nat}
    (outcome : (begin task job.blockSize job.pool size).2 =
      .ok blockSize)
    (refused : (job.output.setFile (hasFlag task.flags taskflagMeasure)
      size blockSize (format task.flags) (task.origMaxCost blockSize)
      (task.lz4MaxCost blockSize)).2 ≠ []) :
    StageNext env task may initial ledger (job.onBegin task size rest) := by
  obtain ⟨same, found, left⟩ := detecting.beginning calls
  obtain ⟨_, _, read⟩ := detecting.reads.begin calls
  have continues := @continues_onBegin task job size rest
  rw [onBegin_ok outcome] at continues ⊢
  subst left
  have reached := detecting.reached_begin same
    (begin task job.blockSize job.pool size).1
  obtain ⟨paid, credit⟩ := detecting.paid_begin
    (begin task job.blockSize job.pool size).1
  obtain ⟨opened, others, set, jobs, dataWrites, indexWrites, underflow,
    outcomes⟩ := setFile_outcome job.output
      (hasFlag task.flags taskflagMeasure) size blockSize
      (format task.flags) (task.origMaxCost blockSize)
      (task.lz4MaxCost blockSize)
  rw [set] at refused continues ⊢
  obtain ⟨reason, refusal, fileless⟩ :=
    outcomes.resolve_left fun accepted => refused accepted.1
  subst refusal
  have output := detecting.output
  refine ⟨((ledger.read (.otherPool
      (begin task job.blockSize job.pool size).1)).read .run).tick, rfl,
    .failing _ .reading [.output (.finish false reason), .begun size]
      ⟨read.other rfl rfl continues.failed, reached, detecting.unwritten,
        Nat.add_le_add_right paid 2, credit, rfl, detecting.opened, rfl, ?_,
        .refused reason List.mem_cons_self, rfl, ?_, ?_, ?_, ?_,
        detecting.successes⟩ ?_
      (Or.inr ⟨reason, Or.inr List.mem_cons_self⟩)⟩
  · intro call member
    rcases List.mem_cons.mp member with first | second
    · rw [first]
      exact .refused reason
    · rw [List.mem_singleton.mp second]
      exact .begun size
  · exact jobs.trans (congrArg Output.jobs output)
  · exact dataWrites.trans (congrArg Output.dataWrites output)
  · exact indexWrites.trans (congrArg Output.indexWrites output)
  · exact underflow.trans (congrArg Output.underflow output)
  · exact fileless.trans (congrArg Output.stateHasFile output)

/-- The callback for the size. -/
theorem Detecting.begins
    (detecting : Detecting env task may initial ledger job core phase)
    (calls : job.calls = .input (.begin size) :: rest) :
    StageNext env task may initial ledger (job.onBegin task size rest) := by
  cases outcome : (begin task job.blockSize job.pool size).2 with
  | error reason => exact detecting.refused calls outcome
  | ok blockSize =>
      by_cases accepted : (job.output.setFile
        (hasFlag task.flags taskflagMeasure) size blockSize
        (format task.flags) (task.origMaxCost blockSize)
        (task.lz4MaxCost blockSize)).2 = []
      · by_cases positive : 0 < size
        · exact detecting.opens calls positive outcome accepted
        · exact detecting.finds_empty calls (Int.not_lt.mp positive) outcome
            accepted
      · exact detecting.unwritable calls outcome accepted

end

/-- A request of the detection has been completed. -/
theorem Detecting.completes
    (detecting : Detecting env task may initial ledger job core phase)
    {position : Nat} (allowed : Allowed may job (.completed position))
    (taken : job.step env task (.completed position) = some next) :
    StageNext env task may initial ledger next := by
  obtain ⟨request, quiet, found, same⟩ := step_completed taken
  obtain ⟨waiting, core', phase', move, delivered, finished, again⟩ :=
    @Reads.complete env job next core phase detecting.reads quiet position
      request found _ rfl (congrArg CompressionTask.input same)
      (congrArg CompressionTask.pool same)
      (same ▸ inputCalls_inputs.trans (List.append_nil _))
      (continues_step taken).failed
  subst waiting
  have detects : request.detects = true := detecting.detecting
  have reached := detecting.reached.own detecting.reads.known (Or.inr rfl)
    move fun other _ waits => by
      obtain rfl := Phase.waiting.inj waits
      rw [← detecting.reads.input, ← detecting.reads.pool]
      exact allowed request found
  obtain ⟨sameOutput, blockSize, notices, file⟩ :
      next.output = job.output ∧ next.blockSize = job.blockSize ∧
        next.notices = job.notices ∧ next.file = job.file := by
    rw [same]
    exact ⟨rfl, rfl, rfl, rfl⟩
  have roomy := detecting.roomy.detect detecting.reads rfl detects move again
    sameOutput blockSize
  have unbegun : core'.begun = [] := by
    cases move with
    | detect => exact detecting.unbegun
    | _ => cases detects
  have pushed : next.calls = phase'.calls.map .input := by
    have after := again.calls
    subst same
    rw [continueInput, inputCalls_inputs] at after
    have pushed := (List.append_nil _).symm.trans after
    rw [continueInput, pushed]
    exact List.append_nil _
  have goes : (∃ reason, phase' = .finishing false reason) ∨
      phase'.detecting = true ∧
        core'.input.paused = core.input.paused := by
    cases move with
    | detect =>
        have frame := Reader.detected_frame env detects
          detecting.reads.track.aligned
        rcases frame.phase with failing | ⟨goesOn, _⟩
        · exact Or.inl failing
        · exact Or.inr ⟨goesOn, frame.spares.paused⟩
    | blockMissing | blockShort | blockRead => cases detects
    | workFailed | workRejected | decompressed => cases detects
  have paid := detecting.paid
  have cost : ledger.steps + 1 ≤ (ledger.read (.complete 0)).readCost + 2 := by
    rw [Ledger.readCost_read]
    simp only [ReaderEvent.cost]
    omega
  have credit : (ledger.read (.complete 0)).credit = 0 := by
    rw [Ledger.credit_read, detecting.credit]
    rfl
  have kept : next.output = Output.create env task.flags :=
    sameOutput.trans detecting.output
  refine ⟨(ledger.read (.complete 0)).tick, rfl, ?_⟩
  rcases goes with ⟨reason, failing⟩ | ⟨goesOn, paused⟩
  · subst failing
    refine .failing core' _ [] ⟨again, reached, detecting.unwritten, ?_,
      credit, rfl, (continues_step taken).opening detecting.opened, pushed,
      ?_, .ended rfl, rfl, ?_, ?_, ?_, ?_, ?_⟩ ?_
      (Or.inr ⟨reason, Or.inl ?_⟩)
    · exact cost.trans (Nat.le_add_right _ 2)
    · intro call member
      cases member
    · exact congrArg Output.jobs kept
    · exact congrArg Output.dataWrites kept
    · exact congrArg Output.indexWrites kept
    · exact congrArg Output.underflow kept
    · rw [CompressionTask.successes, notices]
      exact detecting.successes
    · exact congrArg Output.stateHasFile kept
    · rw [pushed]
      exact List.mem_singleton_self _
  · rw [goesOn] at roomy
    refine .detecting core' phase' ⟨again, reached, detecting.unwritten,
      cost, credit, goesOn, unbegun,
      (continues_step taken).opening detecting.opened, kept, pushed,
      paused.trans detecting.running, notices.trans detecting.notices,
      file.trans detecting.file, ?_, roomy⟩
    rw [blockSize]
    exact detecting.blockSize

theorem Detecting.step
    (detecting : Detecting env task may initial ledger job core phase)
    {event : TaskEvent} (allowed : Allowed may job event)
    (taken : job.step env task event = some next) :
    StageNext env task may initial ledger next := by
  have output := detecting.output
  cases event with
  | run =>
      obtain ⟨call, rest, calls, rfl⟩ := step_run taken
      have begins : ∃ size, call = .input (.begin size) := by
        have due := detecting.calls
        have early := detecting.detecting
        rw [calls] at due
        cases phase with
        | beginning size =>
            exact ⟨size, (List.cons.inj due).1⟩
        | waiting => cases due
        | _ => cases early
      obtain ⟨size, same⟩ := begins
      subst same
      exact detecting.begins calls
  | opened success =>
      obtain ⟨opening, _, waiting, _⟩ := step_opened taken
      rw [detecting.opened] at waiting
      cases waiting
  | completed position => exact detecting.completes allowed taken
  | compressed position status =>
      obtain ⟨queued, _, found, _⟩ := step_compressed taken
      rw [output] at found
      cases found
  | dataWritten position result =>
      obtain ⟨write, _, found, _⟩ := step_dataWritten taken
      rw [output] at found
      cases found
  | indexWritten position result =>
      obtain ⟨write, _, found, _⟩ := step_indexWritten taken
      rw [output] at found
      cases found

/-! ## Opening the files -/

theorem unopened_start (pool : BufferPool) :
    Unopened env task (enqueue task pool).1 0 (start env task pool) := by
  have closed := @closed_start env task pool
  unfold start at closed ⊢
  dsimp only at closed ⊢
  cases outcome : (enqueue task pool).2 with
  | error reason =>
      rw [outcome] at closed
      refine ⟨closed, rfl, rfl, rfl, Nat.zero_le _, ?_⟩
      intro opening waiting
      cases waiting
  | ok blockSize =>
      rw [outcome] at closed
      refine ⟨closed, rfl, rfl, rfl, Nat.zero_le _, ?_⟩
      intro opening waiting
      obtain rfl := Option.some.inj waiting
      refine ⟨Nat.le_refl _, rfl, ⟨pool, outcome⟩, ?_⟩
      unfold enqueue at outcome ⊢
      cases first : firstBlockSize task with
      | error reason =>
          rw [first] at outcome
          cases outcome
      | ok size =>
          rw [first] at outcome
          obtain ⟨same, resized⟩ := of_resize outcome
          subst same
          simp only [create, resized]
          omega

/-- `BeginProcessing` starts the detection. -/
theorem Unopened.pipes
    {taken : Nat} (unopened : Unopened env task initial taken job)
    {opening : Opening} (waiting : job.opening = some opening)
    (steps : ledger.steps = taken + 1) (reads : ledger.reads = [])
    (writes : ledger.writes = []) :
    Stage env task may initial ledger
      ({ job with opening := none }.beginProcessing env) := by
  obtain ⟨left, notices, enqueued, least, first⟩ :=
    unopened.waits opening waiting
  have piped := unopened.closed.pipe
  have bufferSize : ({ job with opening := none }.beginProcessing
      env).pool.bufferSize = job.pool.bufferSize :=
    BufferPool.alloc_bufferSize _ _
  have read : Reader.Reached env may initial ledger.reads
      (Reader.start env job.pool) (Reader.startPhase env job.pool) := by
    rw [reads, unopened.pool]
    exact Reader.reached_start
  have blocks : ({ job with opening := none }.beginProcessing
      env).input.csoBlockSize = 0 := by
    rw [piped.input]
    rfl
  refine .detecting _ _ ⟨piped, read, writes, ?_, ?_, rfl, rfl, rfl,
    unopened.closed.output, ?_, rfl, notices, unopened.file, enqueued,
    .detecting ?_ ?_ ?_ ?_⟩
  · have one : 1 ≤ if opening = .input then 2 else 1 := by
      split
      · decide
      · decide
    rw [steps]
    omega
  · rw [Ledger.credit, reads]
    rfl
  · exact unopened.closed.calls
  · exact congrArg Output.blockSize unopened.closed.output
  · rwa [bufferSize]
  · rw [bufferSize]
    exact first
  · rw [blocks]
    exact Nat.zero_le _

theorem Unopened.step
    {taken : Nat} (unopened : Unopened env task initial taken job)
    {event : TaskEvent} (stepped : job.step env task event = some next) :
    ∃ ledger : Ledger, ledger.steps = taken + 1 ∧
      Stage env task may initial ledger next := by
  obtain ⟨⟨opening, waiting⟩, _⟩ := unopened.closed.opens stepped
  obtain ⟨left, notices, enqueued, least, first⟩ :=
    unopened.waits opening waiting
  let ledger : Ledger := ⟨[], initial, [], taken + 1⟩
  have more : taken + 1 ≤ 2 := by
    have one : 1 ≤ if opening = .input then 2 else 1 := by
      split
      · decide
      · decide
    omega
  refine ⟨ledger, rfl, ?_⟩
  cases event with
  | opened success =>
      obtain ⟨other, _, same, rfl⟩ := step_opened stepped
      obtain rfl := Option.some.inj (waiting.symm.trans same)
      have refused : ∀ {status : TaskStatus} {reason : String},
          Stage env task may initial ledger
            ({ job with opening := none }.notify (.error status reason)) := by
        intro status reason
        refine .unopened ⟨⟨unopened.closed.input, unopened.closed.output,
          unopened.closed.calls, fun _ => failed_notify _ _⟩,
          unopened.pool, unopened.file, ?_, more, ?_⟩
        · refine Eq.trans ?_ unopened.silent
          exact @successes_notify { job with opening := none } _ rfl
        · intro opening none
          cases none
      have piped : Stage env task may initial ledger
          ({ job with opening := none }.beginProcessing env) :=
        unopened.pipes waiting rfl rfl rfl
      cases opening with
      | input =>
          cases success with
          | false => exact refused
          | true =>
              unfold onOpened
              dsimp only
              split
              · exact piped
              · refine .unopened ⟨⟨unopened.closed.input,
                  unopened.closed.output, unopened.closed.calls, ?_⟩,
                  unopened.pool, unopened.file, unopened.silent, more, ?_⟩
                · intro none
                  cases none
                · intro opening same
                  obtain rfl := Option.some.inj same
                  rw [if_pos rfl] at left
                  refine ⟨?_, notices, enqueued, least, first⟩
                  show taken + 1 + 1 ≤ 2
                  omega
      | output =>
          cases success with
          | false => exact refused
          | true => exact piped
  | run =>
      obtain ⟨call, rest, calls, _⟩ := step_run stepped
      rw [unopened.closed.calls] at calls
      cases calls
  | completed position =>
      obtain ⟨request, _, found, _⟩ := step_completed stepped
      rw [unopened.closed.input] at found
      cases found
  | compressed position status =>
      obtain ⟨queued, _, found, _⟩ := step_compressed stepped
      rw [unopened.closed.output] at found
      cases found
  | dataWritten position result =>
      obtain ⟨write, _, found, _⟩ := step_dataWritten stepped
      rw [unopened.closed.output] at found
      cases found
  | indexWritten position result =>
      obtain ⟨write, _, found, _⟩ := step_indexWritten stepped
      rw [unopened.closed.output] at found
      cases found

/-! ## Runs -/

/-- Every step of a task leads from stage to stage. -/
theorem Stage.step (stage : Stage env task may initial ledger job)
    {event : TaskEvent} (allowed : Allowed may job event)
    (taken : job.step env task event = some next) :
    StageNext env task may initial ledger next := by
  cases stage with
  | unopened unopened => exact unopened.step taken
  | detecting core phase detecting => exact detecting.step allowed taken
  | failing core phase before alone fileless failing =>
      obtain ⟨ledger', core', phase', before', steps, again, output, _, _⟩ :=
        alone.step taken
      exact ⟨ledger', steps, .failing core' phase' before' again
        (output ▸ fileless) (failing.step taken)⟩
  | vacant core phase before alone vacant =>
      obtain ⟨ledger', core', phase', before', steps, again, _, _, stays⟩ :=
        alone.step taken
      exact ⟨ledger', steps, .vacant core' phase' before' again
        (stays vacant)⟩
  | writing config core phase writer opens accepted writing =>
      obtain ⟨ledger', core', phase', writer', steps, again⟩ :=
        writing.step accepted allowed taken
      exact ⟨ledger', steps, .writing config core' phase' writer' opens
        accepted again⟩

/-- Every run leads to a stage. -/
theorem stage_of_run {pool : BufferPool} {events : List TaskEvent}
    (run : Execution (step env task) (Allowed may) (start env task pool)
      events job) :
    ∃ ledger, ledger.steps = events.length ∧
      Stage env task may (enqueue task pool).1 ledger job := by
  refine @Execution.track _ _ (step env task) (Allowed may)
    (fun events job => ∃ ledger : Ledger, ledger.steps = events.length ∧
      Stage env task may (enqueue task pool).1 ledger job)
    ?_ _ _ _ run ?_
  · intro events source event target reached allowed taken
    obtain ⟨ledger, steps, stage⟩ := reached
    obtain ⟨ledger', more, stage'⟩ := stage.step allowed taken
    refine ⟨ledger', ?_, stage'⟩
    rw [more, steps, List.length_append, List.length_singleton]
  · exact ⟨⟨[], pool, [], 0⟩, rfl, .unopened (unopened_start pool)⟩

end CompressionTask

end Maxcso
