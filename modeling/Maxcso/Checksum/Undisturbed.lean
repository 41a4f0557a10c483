import Maxcso.Task.Capacity
import Maxcso.Task.Ending

/-!
# A reader that is not disturbed

The owner of the reader neither pauses nor resumes it, and nobody uses the
pool before `begin_` has been called or resizes it afterwards.
-/

namespace Maxcso

open Transition

namespace Reader

/-- The owner leaves the reader alone, and requests complete as they may. -/
def Undisturbed (may : TaskCompletions) (reader : Reader) :
    ReaderEvent → Prop
  | .run => True
  | .complete position => ∀ request,
      reader.input.inFlight[position]? = some request →
        may.completed reader.input reader.pool request
  | .otherPool pool =>
      reader.begun ≠ [] ∧ pool.bufferSize = reader.pool.bufferSize
  | .pause | .resume => False

section

variable {env : Environment} {may : TaskCompletions} {pool : BufferPool}
variable {core core' reader : Reader} {phase phase' : Phase}
variable {event : ReaderEvent} {events : List ReaderEvent}

theorem Undisturbed.keepsPool (undisturbed : reader.Undisturbed may event) :
    reader.KeepsPool event := by
  cases event with
  | otherPool pool => exact undisturbed.2
  | _ => trivial

theorem Undisturbed.permitted (undisturbed : reader.Undisturbed may event) :
    reader.Permitted may event := by
  refine ⟨fun _ => undisturbed.keepsPool, ?_⟩
  intro position request same found
  subst same
  exact undisturbed request found

theorem Undisturbed.credit (undisturbed : reader.Undisturbed may event) :
    event.credit = 0 := by
  cases event with
  | pause | resume => exact undisturbed.elim
  | _ => rfl

/-- A reader that reads on until it ends. -/
structure Steady (core : Reader) (phase : Phase) : Prop where
  orderly : Orderly core phase
  unbegun : phase.detecting = true → core.begun = []
  begun : core.begun = [] →
    phase.detecting = true ∨ (∃ reason, phase = .finishing false reason) ∨
      phase = .stopped
  running : core.input.paused = false
  room : core.begun ≠ [] ∨ phase.detecting = true →
    minSize ≤ core.pool.bufferSize ∧
      core.input.csoBlockSize * 2 ≤ core.pool.bufferSize

theorem steady_start (env : Environment)
    (least : minSize ≤ pool.bufferSize) :
    Steady (start env pool) (startPhase env pool) := by
  refine ⟨.plain rfl rfl ?_ ?_ ?_, fun _ => rfl, fun _ => Or.inl rfl, rfl,
    fun _ => ⟨?_, Nat.zero_le _⟩⟩
  · intro reason
    exact Phase.noConfusion
  · exact Phase.noConfusion
  · intro size
    exact Phase.noConfusion
  · have same : (start env pool).pool.bufferSize = pool.bufferSize :=
      BufferPool.alloc_bufferSize _ _
    rwa [same]

/-- The detection makes room for the blocks, or it fails. -/
theorem Steady.detect {request : InputRequest}
    (detects : request.detects = true)
    (track : OnTrack core (.waiting request))
    (steady : Steady core (.waiting request)) :
    Steady
      { core with
        input := (core.detected env request).input
        pool := (core.detected env request).pool }
      (core.detected env request).phase := by
  have frame := detected_frame env detects track.aligned
  have unbegun := steady.unbegun detects
  obtain ⟨least, blocks⟩ := steady.room (Or.inr detects)
  have room := Input.complete_room env
    { core.input with inFlight := [], resumeShouldRead := false }
    detects least blocks
  refine ⟨.detect track detects rfl, fun _ => unbegun, fun _ => ?_,
    frame.spares.paused.trans steady.running, ?_⟩
  · rcases frame.phase with fails | ⟨detecting, _⟩
    · exact Or.inr (Or.inl fails)
    · exact Or.inl detecting
  · intro goes
    rcases goes with begun | detecting
    · exact absurd unbegun begun
    · rcases room with ⟨reason, fails⟩ | ⟨more, fits⟩
      · have same : (core.detected env request).phase =
            .finishing false reason := fails
        rw [same] at detecting
        cases detecting
      · exact ⟨least.trans more, fits⟩

theorem Steady.move (track : OnTrack core phase)
    (steady : Steady core phase)
    (undisturbed : (core.enter phase).Undisturbed may event)
    (move : Move Input.fetchCached env core phase event core' phase') :
    Steady core' phase' := by
  have orderly := steady.orderly.move track move
  cases early : phase.detecting with
  | true =>
      cases move with
      | detect request detects => exact steady.detect detects track
      | begin size =>
          refine ⟨orderly, ?_, ?_, steady.running,
            fun _ => steady.room (Or.inr rfl)⟩
          · intro detecting
            cases detecting
          · intro none
            simp at none
      | pause | resume | unpark => exact undisturbed.elim
      | otherPool => exact absurd (steady.unbegun early) undisturbed.1
      | _ => cases early
  | false =>
      obtain ⟨found, bufferSize, begun, late⟩ :=
        found_move early undisturbed.keepsPool move
      have running : core'.input.paused = false := by
        refine Eq.trans ?_ steady.running
        cases move with
        | pause | resume | unpark => exact undisturbed.elim
        | detect request detects =>
            exact Bool.noConfusion (detects.symm.trans early)
        | _ => rfl
      refine ⟨orderly, ?_, ?_, running, ?_⟩
      · intro detecting
        rw [late] at detecting
        cases detecting
      · intro none
        rw [begun] at none
        rcases steady.begun none with detecting | ⟨reason, fails⟩ | stopped
        · rw [early] at detecting
          cases detecting
        · subst fails
          cases move with
          | finish => exact Or.inr (Or.inr rfl)
          | otherPool => exact absurd none undisturbed.1
          | pause | resume => exact undisturbed.elim
        · subst stopped
          cases move with
          | otherPool => exact absurd none undisturbed.1
          | pause | resume => exact undisturbed.elim
      · intro goes
        have before : core.begun ≠ [] := by
          rcases goes with some | detecting
          · rwa [begun] at some
          · rw [late] at detecting
            cases detecting
        obtain ⟨least, blocks⟩ := steady.room (Or.inl before)
        have same : core'.input.csoBlockSize = core.input.csoBlockSize := by
          show core'.input.found.csoBlockSize =
            core.input.found.csoBlockSize
          rw [found]
        rw [bufferSize, same]
        exact ⟨least, blocks⟩

/-! ## Runs -/

/-- Where a reader is that is not disturbed. -/
structure Placed (target core : Reader) (phase : Phase) : Prop where
  enter : target = core.enter phase
  track : OnTrack core phase
  steady : Steady core phase

theorem placed_of_run (least : minSize ≤ pool.bufferSize)
    (run : Execution (step Input.fetchCached env) (Undisturbed may)
      (start env pool) events reader) :
    ∃ core phase, Placed reader core phase := by
  obtain ⟨core, phase, situated, steady⟩ :=
    @track_moves Input.fetchCached env (Undisturbed may)
      (fun _ core phase => Steady core phase)
      (fun _ _ _ _ _ _ steady track undisturbed move =>
        steady.move track undisturbed move)
      _ _ _ (situated_start env pool) events reader run
      (steady_start env least)
  exact ⟨core, phase, situated.enter, situated.track, steady⟩

/-- A sector that is passed on is the next one of the image. -/
theorem Placed.callback (placed : Placed reader core phase)
    {pos : Int} {sector : Buffer} {supplied : Nat} {rest : List InputCall}
    (calls : reader.calls = .callback pos sector supplied :: rest) :
    pos = (sectorSize * reader.delivered.length : Nat) ∧
      pos < reader.input.size ∧ reader.begun ≠ [] := by
  obtain ⟨same, track, steady⟩ := placed
  subst same
  have due : phase.calls = .callback pos sector supplied :: rest := calls
  have passing : phase.passes = some pos ∧ phase.lag = 0 ∧
      phase.atSector = true ∧ phase.detecting = false ∧
        (∀ reason, phase ≠ .finishing false reason) ∧ phase ≠ .stopped := by
    cases phase with
    | rawCallback | subCallback =>
        cases due
        refine ⟨rfl, rfl, rfl, rfl, ?_, ?_⟩
        · intro reason
          exact Phase.noConfusion
        · exact Phase.noConfusion
    | _ => cases due
  obtain ⟨passes, settled, atSector, late, fails, going⟩ := passing
  have here := steady.orderly.passes pos passes
  have counted := track.pos
  have inside := track.inside atSector
  rw [settled] at counted
  refine ⟨?_, here.trans_lt inside, ?_⟩
  · rw [here]
    show core.input.pos = (sectorSize * core.delivered.length : Nat)
    omega
  · intro none
    rcases steady.begun none with detecting | ⟨reason, failing⟩ | stopped
    · rw [late] at detecting
      cases detecting
    · exact fails reason failing
    · exact going stopped

/-- A reader that has nothing left to do, and that has not failed, has passed
on the whole image. -/
theorem Placed.ended (placed : Placed reader core phase)
    (calls : reader.calls = []) (inFlight : reader.input.inFlight = [])
    (unfailed : ∀ reason, (false, reason) ∉ reader.finished) :
    reader.input.size.toNat = sectorSize * reader.delivered.length := by
  obtain ⟨same, track, steady⟩ := placed
  subst same
  have stopped : phase = .stopped := by
    cases phase with
    | waiting => cases inFlight
    | parked =>
        have paused := steady.orderly.parked rfl
        rw [steady.running] at paused
        cases paused
    | stopped => rfl
    | _ => cases calls
  subst stopped
  obtain ⟨⟨success, reason⟩, only⟩ :=
    List.length_eq_one_iff.mp track.reported
  have member : (success, reason) ∈ core.finished := by
    rw [only]
    exact List.mem_singleton_self _
  cases success with
  | false => exact absurd member (unfailed reason)
  | true =>
      have past := steady.orderly.ended reason member
      have counted := track.pos
      have bounded := track.bounded
      show core.input.size.toNat = sectorSize * core.delivered.length
      rw [show Phase.stopped.lag = 0 from rfl] at counted
      omega

end

end Reader

end Maxcso
