import Maxcso.Reader.Control

/-!
# Steps and moves

In every phase the steps of the reader are the moves of `Control`, and every
phase past the detection knows the format of the file.
-/

namespace Maxcso

open Transition

namespace InputResult

/-- The calls and the outstanding requests of a result are those of a phase,
and every phase past the detection has a format. -/
structure InPhase (result : InputResult) : Prop where
  calls : result.calls = result.phase.calls
  inFlight : result.input.inFlight = result.phase.requests
  parked : result.input.resumeShouldRead = result.phase.isParked
  known : result.phase.knowsFormat = true → result.input.fileType ≠ .unknown

variable {input : Input}

theorem inPhase_finish
    (pool : BufferPool) (success : Bool) (reason : String)
    (idle : input.inFlight = [])
    (unparked : input.resumeShouldRead = false) :
    InPhase ⟨input, pool, [.finish success reason]⟩ where
  calls := rfl
  inFlight := idle
  parked := unparked
  known := fun known => nomatch known

theorem inPhase_begin
    (pool : BufferPool) (size : Int) (idle : input.inFlight = [])
    (unparked : input.resumeShouldRead = false)
    (known : input.fileType ≠ .unknown) :
    InPhase ⟨input, pool, [.begin size, .readSector]⟩ where
  calls := rfl
  inFlight := idle
  parked := unparked
  known := fun _ => known

theorem inPhase_ask
    (pool : BufferPool) (request : InputRequest)
    (idle : input.inFlight = [])
    (unparked : input.resumeShouldRead = false)
    (known : input.fileType ≠ .unknown) :
    InPhase ⟨input.ask request, pool, []⟩ := by
  have phaseEq :
      InputResult.phase ⟨input.ask request, pool, []⟩ = .waiting request := by
    simp [InputResult.phase, Input.ask, idle]
  constructor
  · rw [phaseEq]
    rfl
  · rw [phaseEq]
    simp [Input.ask, idle, Phase.requests]
  · rw [phaseEq]
    exact unparked
  · intro _
    exact known

end InputResult

namespace Input

open InputResult

theorem csoFileType_ne_unknown (header : CsoHeader) :
    csoFileType header ≠ .unknown := by
  unfold csoFileType
  split
  · exact FileType.noConfusion
  · split <;> exact FileType.noConfusion

theorem detectCso_inPhase
    {input : Input} (idle : input.inFlight = [])
    (unparked : input.resumeShouldRead = false) (pool : BufferPool)
    (headerBuf : Buffer) (header : CsoHeader) :
    (input.detectCso pool headerBuf header).InPhase := by
  unfold detectCso
  dsimp only
  split
  · exact inPhase_finish _ _ _ (by exact idle) (by exact unparked)
  · split
    · exact inPhase_ask _ _ (by exact idle) (by exact unparked)
        (csoFileType_ne_unknown header)
    · exact inPhase_finish _ _ _ (by exact idle) (by exact unparked)

theorem detectDax_inPhase
    {input : Input} (idle : input.inFlight = [])
    (unparked : input.resumeShouldRead = false) (pool : BufferPool)
    (headerBuf : Buffer) (header : DaxHeader) :
    (input.detectDax pool headerBuf header).InPhase := by
  unfold detectDax
  dsimp only
  split
  · exact inPhase_finish _ _ _ (by exact idle) (by exact unparked)
  · exact inPhase_ask _ _ (by exact idle) (by exact unparked)
      FileType.noConfusion

theorem complete_inPhase
    (env : Environment) {input : Input} (idle : input.inFlight = [])
    (unparked : input.resumeShouldRead = false) (pool : BufferPool)
    {request : InputRequest} (detects : request.detects = true)
    (known : (Phase.waiting request).knowsFormat = true →
      input.fileType ≠ .unknown) :
    (input.complete env pool request).InPhase := by
  cases request with
  | readHeader headerBuf =>
      simp only [complete, onHeaderRead]
      repeat' split
      · exact inPhase_finish _ _ _ idle unparked
      · exact inPhase_finish _ _ _ idle unparked
      · exact detectCso_inPhase (by exact idle) (by exact unparked) _ _ _
      · exact detectDax_inPhase (by exact idle) (by exact unparked) _ _ _
      · exact inPhase_ask _ _ idle unparked FileType.noConfusion
  | readIndex bytes =>
      simp only [complete, onIndexRead]
      repeat' split
      · exact inPhase_finish _ _ _ idle unparked
      · exact inPhase_finish _ _ _ idle unparked
      · exact inPhase_begin _ _ idle unparked (known rfl)
  | readTables frames areas bytes =>
      simp only [complete, onTablesRead]
      repeat' split
      · exact inPhase_finish _ _ _ idle unparked
      · exact inPhase_finish _ _ _ idle unparked
      · exact inPhase_begin _ _ idle unparked (known rfl)
  | stat =>
      simp only [complete, onStat]
      repeat' split
      · exact inPhase_finish _ _ _ idle unparked
      · exact inPhase_finish _ _ _ idle unparked
      · exact inPhase_begin _ _ idle unparked (known rfl)
  | readBlock request size => exact absurd detects Bool.false_ne_true
  | decompress actualBuf source offset isLz4 =>
      exact absurd detects Bool.false_ne_true

end Input

namespace Reader

@[simp]
theorem enter_enter (core : Reader) (first second : Phase) :
    (core.enter first).enter second = core.enter second := rfl

@[simp]
theorem request_enter (core : Reader) (phase : Phase) :
    (core.enter phase).input.request = core.input.request := rfl

@[simp]
theorem enter_paused (core : Reader) (phase : Phase) :
    (core.enter phase).input.paused = core.input.paused := rfl

@[simp]
theorem enter_pos (core : Reader) (phase : Phase) :
    (core.enter phase).input.pos = core.input.pos := rfl

@[simp]
theorem enter_size (core : Reader) (phase : Phase) :
    (core.enter phase).input.size = core.input.size := rfl

@[simp]
theorem enter_fileType (core : Reader) (phase : Phase) :
    (core.enter phase).input.fileType = core.input.fileType := rfl

theorem usePhase_raw
    (env : Environment) (core : Reader) {request : Request}
    (raw : request.raw = true) (data : Bytes) :
    core.usePhase env request data =
      .rawCallback core.input.pos
        { (core.pool.alloc env.heap).1 with
          memory :=
            FlatMemory.write (core.pool.alloc env.heap).1.memory 0 data }
        data.length :=
  if_pos raw

theorem usePhase_compressed
    (env : Environment) (core : Reader) {request : Request}
    (compressed : request.raw = false) (data : Bytes) :
    core.usePhase env request data =
      .waiting
        (.decompress (core.pool.alloc env.heap).1 data request.offset
          request.compressedLz4) :=
  if_neg (by simp [compressed])

/-- Using data puts the reader into the phase that `usePhase` names. -/
theorem useData_enter
    (env : Environment) (core : Reader) (request : Request) (data : Bytes) :
    (core.enter .stopped).continueWith
        ((core.enter .stopped).input.useData env core.pool request data) [] =
      (core.afterUse env request data).enter
        (core.usePhase env request data) := by
  cases raw : request.raw with
  | true =>
      simp [Input.useData, continueWith, usePhase, raw, enter, afterUse,
        Phase.calls, Phase.requests, Phase.isParked]
  | false =>
      simp [Input.useData, Input.enqueueDecompressSector, Input.ask,
        continueWith, usePhase, raw, enter, afterUse, Phase.calls,
        Phase.requests, Phase.isParked]

/-- `ReadSector` in terms of the conditions that it tests. -/
theorem readSectorWith_of_known
    (policy : Input.FetchPolicy) (env : Environment) {input : Input}
    (known : input.fileType ≠ .unknown) (pool : BufferPool) :
    input.readSectorWith policy env pool =
      if input.size ≤ input.pos then
        ⟨input, pool, [.finish true ""]⟩
      else if input.paused then
        ⟨{ input with resumeShouldRead := true }, pool, []⟩
      else
        input.fetch policy env pool input.request := by
  simp only [Input.readSectorWith, known, if_false]

theorem step_reading
    (policy : Input.FetchPolicy) (env : Environment) {core : Reader}
    (known : core.input.fileType ≠ .unknown) :
    step policy env (core.enter .reading) .run =
      some ((core.enter .reading).continueWith
        (if core.input.size ≤ core.input.pos then
          ⟨(core.enter .stopped).input, core.pool, [.finish true ""]⟩
        else if core.input.paused then
          ⟨(core.enter .parked).input, core.pool, []⟩
        else
          (core.enter .reading).input.fetch policy env core.pool
            core.input.request)
        []) :=
  congrArg
    (fun result => some ((core.enter .reading).continueWith result []))
    (readSectorWith_of_known policy env
      (show (core.enter .reading).input.fileType ≠ .unknown from known)
      core.pool)

/-- The step that completes the only outstanding request. -/
theorem step_waiting
    (policy : Input.FetchPolicy) (env : Environment) (core : Reader)
    (request : InputRequest) :
    step policy env (core.enter (.waiting request)) (.complete 0) =
      some ((core.enter .stopped).continueWith
        ((core.enter .stopped).input.complete env core.pool request)
        []) := rfl

theorem detected_inPhase
    (env : Environment) (core : Reader) {request : InputRequest}
    (detects : request.detects = true)
    (known : (Phase.waiting request).knowsFormat = true →
      core.input.fileType ≠ .unknown) :
    (core.detected env request).InPhase :=
  Input.complete_inPhase env rfl rfl core.pool detects known

/-- What a move does is what the step does. -/
theorem step_of_move
    {policy : Input.FetchPolicy} {env : Environment} {core core' : Reader}
    {phase phase' : Phase} {event : ReaderEvent}
    (known : phase.knowsFormat = true → core.input.fileType ≠ .unknown)
    (move : Move policy env core phase event core' phase') :
    step policy env (core.enter phase) event =
      some (core'.enter phase') := by
  cases move with
  | pause => rfl
  | resume _ unparked =>
      simp only [step, Input.resume, enter, unparked, Bool.false_eq_true,
        if_false]
      rfl
  | unpark => rfl
  | otherPool => rfl
  | detect request detects =>
      have inPhase := detected_inPhase env core detects known
      simp only [enter, ← inPhase.calls, ← inPhase.inFlight,
        ← inPhase.parked]
      rw [← List.append_nil (core.detected env request).calls]
      rfl
  | begin => rfl
  | finish => rfl
  | atEnd done =>
      rw [step_reading policy env (known rfl), if_pos done]
      rfl
  | park more paused =>
      rw [step_reading policy env (known rfl), if_neg (by omega),
        if_pos paused]
      rfl
  | use data more running decided =>
      rw [step_reading policy env (known rfl), if_neg (by omega),
        running, if_neg Bool.false_ne_true, ← useData_enter]
      simp only [decision] at decided
      simp only [Input.fetch, decided]
      rfl
  | ask cachePos size more running decided =>
      rw [step_reading policy env (known rfl), if_neg (by omega),
        running, if_neg Bool.false_ne_true]
      simp only [decision] at decided
      simp only [Input.fetch, decided]
      rfl
  | blockMissing request size received =>
      have received' :
          env.fsRead (core.enter .stopped).input.reads request.pos size =
            none := received
      rw [step_waiting]
      simp only [Input.complete, Input.readRange, received']
      rfl
  | blockShort request size data received short =>
      have received' :
          env.fsRead (core.enter .stopped).input.reads request.pos size =
            some data := received
      rw [step_waiting]
      simp only [Input.complete, Input.readRange, received',
        Input.onBlockRead, short, if_true]
      rfl
  | blockRead request size data received enough =>
      have received' :
          env.fsRead (core.enter .stopped).input.reads request.pos size =
            some data := received
      rw [step_waiting, ← useData_enter]
      simp only [Input.complete, Input.readRange, received',
        Input.onBlockRead, Nat.not_lt.mpr enough, if_false,
        FlatMemory.take_write_zero _ enough]
      rfl
  | workFailed actualBuf source offset isLz4 message worked =>
      have worked' :
          (core.enter .stopped).input.decompressWork env core.pool source
            isLz4 = .error message := worked
      rw [step_waiting]
      simp only [Input.complete, worked']
      rfl
  | workRejected actualBuf source offset isLz4 data reason worked rejected =>
      have worked' :
          (core.enter .stopped).input.decompressWork env core.pool source
            isLz4 = .ok data := worked
      have rejected' :
          (core.enter .stopped).input.rejection env data =
            some reason := rejected
      rw [step_waiting]
      simp only [Input.complete, worked', Input.onDecompressed, rejected']
      rfl
  | decompressed actualBuf source offset isLz4 data worked rejected =>
      have worked' :
          (core.enter .stopped).input.decompressWork env core.pool source
            isLz4 = .ok data := worked
      have rejected' :
          (core.enter .stopped).input.rejection env data = none := rejected
      rw [step_waiting]
      simp only [Input.complete, worked', Input.onDecompressed, rejected']
      rfl
  | rawCallback => rfl
  | rawDelivered => rfl
  | subBlock block more =>
      simp only [step, Phase.calls, enter, runCall, Input.subBlock, more,
        if_true]
      rfl
  | loopDone block done =>
      simp only [step, Phase.calls, enter, runCall, Input.subBlock,
        Nat.not_lt.mpr done, if_false]
      rfl
  | subCallback => rfl
  | bail block paused more =>
      have stops : core.input.paused = true ∧ ¬ block.last = true := by
        simp [paused, more]
      have result :
          (core.enter .stopped).input.subDelivered core.pool block =
            ⟨(core.advance.enter .stopped).input,
              core.pool.release block.actualBuf, [.readSector]⟩ :=
        if_pos stops
      exact congrArg
        (fun result => some ((core.enter .stopped).continueWith result []))
        result
  | nextSub block stays =>
      have stays' :
          ¬ (core.input.paused = true ∧ ¬ block.last = true) := by
        simpa using stays
      simp only [step, Phase.calls, enter, runCall, Input.subDelivered,
        stays', if_false]
      rfl

theorem exists_completion
    (policy : Input.FetchPolicy) (env : Environment) (core : Reader)
    (request : InputRequest) :
    ∃ core' phase',
      Move policy env core (.waiting request) (.complete 0) core'
        phase' := by
  cases request with
  | readHeader | readIndex | readTables | stat =>
      exact ⟨_, _, .detect core _ rfl⟩
  | readBlock request size =>
      cases received :
          env.fsRead core.input.reads request.pos size with
      | none => exact ⟨_, _, .blockMissing core request size received⟩
      | some data =>
          by_cases short : data.length < request.len
          · exact ⟨_, _, .blockShort core request size data received short⟩
          · exact ⟨_, _,
              .blockRead core request size data received (by omega)⟩
  | decompress actualBuf source offset isLz4 =>
      cases worked :
          core.input.decompressWork env core.pool source isLz4 with
      | error message =>
          exact ⟨_, _,
            .workFailed core actualBuf source offset isLz4 message worked⟩
      | ok data =>
          cases rejected : core.input.rejection env data with
          | some reason =>
              exact ⟨_, _,
                .workRejected core actualBuf source offset isLz4 data reason
                  worked rejected⟩
          | none =>
              exact ⟨_, _,
                .decompressed core actualBuf source offset isLz4 data worked
                  rejected⟩

theorem exists_reading
    (policy : Input.FetchPolicy) (env : Environment) (core : Reader) :
    ∃ core' phase', Move policy env core .reading .run core' phase' := by
  by_cases done : core.input.size ≤ core.input.pos
  · exact ⟨_, _, .atEnd core done⟩
  · have more : core.input.pos < core.input.size := by omega
    cases paused : core.input.paused with
    | true => exact ⟨_, _, .park core more paused⟩
    | false =>
        cases decided : core.decision policy with
        | use data => exact ⟨_, _, .use core data more paused decided⟩
        | read cachePos size =>
            exact ⟨_, _, .ask core cachePos size more paused decided⟩

/-- In every phase, an event that is possible is a move. -/
theorem exists_move
    {policy : Input.FetchPolicy} {env : Environment} {core : Reader}
    {phase : Phase} {event : ReaderEvent} {target : Reader}
    (taken : step policy env (core.enter phase) event = some target) :
    ∃ core' phase', Move policy env core phase event core' phase' := by
  cases event with
  | pause => exact ⟨_, _, .pause core phase⟩
  | otherPool pool => exact ⟨_, _, .otherPool core phase pool⟩
  | resume =>
      cases parked : phase.isParked with
      | true =>
          cases phase <;> first
            | exact absurd parked Bool.false_ne_true
            | exact ⟨_, _, .unpark core⟩
      | false => exact ⟨_, _, .resume core phase parked⟩
  | complete position =>
      cases phase with
      | waiting request =>
          cases position with
          | zero => exact exists_completion policy env core request
          | succ position => exact nomatch taken
      | parked | stopped => exact nomatch taken
      | reading | rawCallback | rawDelivered | looping | subCallback
      | subDelivered | beginning | finishing => exact nomatch taken
  | run =>
      cases phase with
      | waiting | parked | stopped => exact nomatch taken
      | reading => exact exists_reading policy env core
      | rawCallback pos sector supplied =>
          exact ⟨_, _, .rawCallback core pos sector supplied⟩
      | rawDelivered => exact ⟨_, _, .rawDelivered core⟩
      | looping block =>
          by_cases more : block.suboffset < block.resultSize
          · exact ⟨_, _, .subBlock core block more⟩
          · exact ⟨_, _, .loopDone core block (by omega)⟩
      | subCallback pos sector supplied block =>
          exact ⟨_, _, .subCallback core pos sector supplied block⟩
      | subDelivered block =>
          by_cases stops : core.input.paused = true ∧ block.last = false
          · exact ⟨_, _, .bail core block stops.1 stops.2⟩
          · exact ⟨_, _, .nextSub core block stops⟩
      | beginning size => exact ⟨_, _, .begin core size⟩
      | finishing success reason => exact ⟨_, _, .finish core success reason⟩

/-- The phases after the detection keep the format. -/
theorem known_of_move
    {policy : Input.FetchPolicy} {env : Environment} {core core' : Reader}
    {phase phase' : Phase} {event : ReaderEvent}
    (known : phase.knowsFormat = true → core.input.fileType ≠ .unknown)
    (move : Move policy env core phase event core' phase')
    (late : phase'.knowsFormat = true) :
    core'.input.fileType ≠ .unknown := by
  cases move with
  | detect request detects =>
      exact (detected_inPhase env core detects known).known late
  | pause | resume | otherPool => exact known late
  | finish | atEnd | blockMissing | blockShort | workFailed
  | workRejected => exact nomatch late
  | _ => exact known rfl

/-- Every step of a reader in a phase is a move. -/
theorem move_of_step
    {policy : Input.FetchPolicy} {env : Environment} {core : Reader}
    {phase : Phase} {event : ReaderEvent} {target : Reader}
    (known : phase.knowsFormat = true → core.input.fileType ≠ .unknown)
    (taken : step policy env (core.enter phase) event = some target) :
    ∃ core' phase',
      Move policy env core phase event core' phase' ∧
        target = core'.enter phase' ∧
        (phase'.knowsFormat = true →
          core'.input.fileType ≠ .unknown) := by
  obtain ⟨core', phase', move⟩ := exists_move taken
  have same := step_of_move known move
  rw [taken] at same
  exact ⟨core', phase', move, Option.some.inj same,
    known_of_move known move⟩

end Reader

end Maxcso
