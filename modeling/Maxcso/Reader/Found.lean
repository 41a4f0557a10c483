import Maxcso.Reader.Documented
import Maxcso.Reader.Frames

/-!
# What the detection finds

Whatever happens to the pool before `begin_` is called, the front of the file
decides what the reader has found then.
-/

namespace Maxcso

open FileBytes Transition ShiftMask

/-- How many buffers of the pool a request of the detection holds. -/
def InputRequest.lent : InputRequest → Nat
  | .readHeader _ => 1
  | _ => 0

namespace BufferPool

/-- At most so many buffers are held. -/
def Spare (pool : BufferPool) (lent : Nat) : Prop :=
  pool.allocations ≤ pool.free.length + lent

/-- The buffers can be resized when none is held. -/
theorem Spare.resizes {pool : BufferPool} (spare : pool.Spare 0)
    (newSize : Nat) :
    (pool.setBufferSize newSize).2 = true ∧
      (pool.setBufferSize newSize).1.Spare 0 := by
  have none : pool.clear.allocations = 0 := Nat.sub_eq_zero_of_le spare
  unfold setBufferSize
  dsimp only
  rw [if_pos none]
  exact ⟨rfl, none.le⟩

theorem Spare.release {pool : BufferPool} {lent : Nat}
    (spare : pool.Spare (lent + 1)) (buffer : Buffer) :
    (pool.release buffer).Spare lent := by
  unfold Spare at spare ⊢
  rw [BufferPool.release, List.length_append, List.length_singleton]
  dsimp only
  omega

end BufferPool

namespace Input

theorem growPool_spare {pool : BufferPool} (spare : pool.Spare 0)
    (blockSize : Nat) :
    (growPool pool blockSize).2 = true ∧
      (growPool pool blockSize).1.Spare 0 := by
  unfold Input.growPool
  split
  · exact spare.resizes _
  · exact ⟨rfl, spare⟩

/-- The detection gives back what it holds. -/
theorem complete_spare
    (env : Environment) (input : Input) {pool : BufferPool}
    {request : InputRequest} (detects : request.detects = true)
    (spare : pool.Spare request.lent) :
    let result := input.complete env pool request
    (∃ reason, result.phase = .finishing false reason) ∨
      result.pool.Spare 0 := by
  cases request with
  | readHeader headerBuf =>
      have released (bytes : Bytes) := spare.release (headerBuf.filled bytes)
      simp only [complete, onHeaderRead, detectCso, detectDax]
      repeat' split
      · exact Or.inl ⟨_, rfl⟩
      · exact Or.inl ⟨_, rfl⟩
      · exact Or.inl ⟨_, rfl⟩
      · exact Or.inr (growPool_spare (released _) _).2
      · exact Or.inl ⟨_, rfl⟩
      · exact Or.inl ⟨_, rfl⟩
      · exact Or.inr (released _)
      · exact Or.inr (released _)
  | readIndex bytes =>
      simp only [complete, onIndexRead]
      repeat' split
      · exact Or.inl ⟨_, rfl⟩
      · exact Or.inl ⟨_, rfl⟩
      · exact Or.inr spare
  | readTables frames areas bytes =>
      simp only [complete, onTablesRead]
      repeat' split
      · exact Or.inl ⟨_, rfl⟩
      · exact Or.inl ⟨_, rfl⟩
      · exact Or.inr spare
  | stat =>
      simp only [complete, onStat]
      repeat' split
      · exact Or.inl ⟨_, rfl⟩
      · exact Or.inl ⟨_, rfl⟩
      · exact Or.inr spare
  | readBlock | decompress => cases detects

/-- The detection goes on from a request to the state `base`.  It fails only
when buffers are held that it has not got. -/
def Finds (env : Environment) (base : Input) :
    Nat → Input → InputRequest → Prop
  | 0, _, _ => False
  | fuel + 1, input, request =>
      request.detects = true ∧
        ∀ (input' : Input) (pool : BufferPool),
          input'.found = input.found → input'.cachePos = input.cachePos →
            input'.inFlight = [] →
              let result := input'.complete env pool request
              ((∃ reason, result.phase = .finishing false reason) ∧
                  ¬ pool.Spare request.lent) ∨
                (∃ size, result.phase = .beginning size ∧
                  result.input.found = base) ∨
                ∃ next, result.phase = .waiting next ∧
                  Finds env base fuel result.input next

theorem finds_congr
    {env : Environment} {base input input' : Input} {fuel : Nat}
    {request : InputRequest} (found : input'.found = input.found)
    (cachePos : input'.cachePos = input.cachePos)
    (finds : Finds env base fuel input request) :
    Finds env base fuel input' request := by
  cases fuel with
  | zero => exact finds
  | succ fuel =>
      refine ⟨finds.1, fun other pool same sameCache => ?_⟩
      exact finds.2 other pool (same.trans found) (sameCache.trans cachePos)

/-! ## CSO and ZSO -/

/-- The header of a CSO file is followed by a read of its index, unless the
buffers cannot be resized. -/
theorem detectCso_asks
    {header : CsoHeader} (accepts : Accepts header) (input : Input)
    (pool : BufferPool) (headerBuf : Buffer) :
    (∃ result reason,
      input.onHeaderRead pool headerBuf (some header.encode) = result ∧
        result.calls = [.finish false reason] ∧ ¬ pool.Spare 1) ∨
      ∃ pool', input.onHeaderRead pool headerBuf (some header.encode) =
        ⟨(input.withHeader header).ask
            (.readIndex (input.withHeader header).indexBytes), pool', []⟩ := by
  have length := CsoHeader.length_encode accepts.encodable
  have taken : header.encode.take 4 = header.magic := by
    rw [CsoHeader.encode]
    simp only [List.append_assoc]
    exact List.take_left' accepts.encodable.magic
  have magic : header.magic = zsoMagic ∨ header.magic = csoMagic :=
    accepts.magic.symm
  simp only [onHeaderRead, length, csoHeaderSize, ne_eq, not_true_eq_false,
    if_false, taken, magic, if_true, CsoHeader.decode_encode
      accepts.encodable, detectCso, accepts.accepted]
  cases grown : (growPool (pool.release (headerBuf.filled header.encode))
      header.sectorSize).2 with
  | true =>
      rw [if_pos rfl]
      exact Or.inr ⟨_, rfl⟩
  | false =>
      rw [if_neg Bool.false_ne_true]
      refine Or.inl ⟨_, _, rfl, rfl, ?_⟩
      intro spare
      have grows := (growPool_spare
        (spare.release (headerBuf.filled header.encode)) header.sectorSize).1
      rw [grown] at grows
      cases grows

theorem finds_cso
    {env : Environment} {file index : Bytes} {header : CsoHeader}
    (complete : env.CompleteReads file) (accepts : Accepts header)
    (headerRead : pread file 0 csoHeaderSize = header.encode)
    (indexRead : pread file csoHeaderSize
      ((create env).withHeader header).indexBytes = index)
    (indexLength : index.length =
      ((create env).withHeader header).indexBytes)
    {input : Input} (fresh : input.found = (create env).found)
    (headerBuf : Buffer) :
    Finds env (csoBase env header index) 2 input (.readHeader headerBuf) := by
  refine ⟨rfl, fun input' pool found _ idle => ?_⟩
  have bytesEq : (input'.withHeader header).indexBytes =
      ((create env).withHeader header).indexBytes := rfl
  have read := complete input'.reads 0 csoHeaderSize (Int.le_refl 0)
  rw [Int.toNat_zero, headerRead] at read
  have headed : input'.complete env pool (.readHeader headerBuf) =
      { input' with reads := input'.reads + 1 }.onHeaderRead pool headerBuf
        (some header.encode) := by
    simp only [Input.complete, readRange, read]
  rcases detectCso_asks accepts { input' with reads := input'.reads + 1 } pool
    headerBuf with ⟨result, reason, same, fails, held⟩ | ⟨pool', asks⟩
  · rw [headed, same]
    refine Or.inl ⟨⟨reason, ?_⟩, held⟩
    rw [InputResult.phase, fails]
  · rw [headed, asks]
    refine Or.inr (Or.inr ⟨.readIndex (input'.withHeader header).indexBytes,
      ?_, rfl, ?_⟩)
    · simp only [InputResult.phase, ask, withHeader, withCsoHeader,
        setupCache, idle, List.nil_append]
      rfl
    · intro input'' pool'' found' _ idle'
      have read := complete input''.reads csoHeaderSize
        ((create env).withHeader header).indexBytes (by decide)
      rw [Int.toNat_natCast, indexRead] at read
      have started :
          input''.complete env pool''
              (.readIndex (input'.withHeader header).indexBytes) =
            ⟨{ input'' with
                reads := input''.reads + 1
                index :=
                  decodeTable 4 (FlatMemory.write env.newIndex 0 index) },
              pool'', [.begin input''.size, .readSector]⟩ := by
        rw [bytesEq]
        simp only [Input.complete, readRange, read, onIndexRead, indexLength,
          ne_eq, not_true_eq_false, if_false]
      rw [started]
      refine Or.inr (Or.inl ⟨input''.size, rfl, ?_⟩)
      have same : input''.found = ((create env).withHeader header).found :=
        found'.trans
          (congrArg (fun other => (other.withHeader header).found)
            (found.trans fresh))
      exact congrArg
        (fun other : Input =>
          { other with
            index :=
              decodeTable 4 (FlatMemory.write env.newIndex 0 index) }) same

/-! ## Plain images -/

/-- The front of the file is not that of a compressed image. -/
structure Plain (file : Bytes) : Prop where
  front : 24 ≤ file.length
  notCso : file.take 4 ≠ zsoMagic ∧ file.take 4 ≠ csoMagic
  notDax : file.take 4 ≠ daxMagic
  aligned : sectorSize ∣ file.length

/-- The reader that has found a plain image. -/
def isoBase (env : Environment) (size : Nat) : Input :=
  ({ create env with
    fileType := .iso
    size := size }.setupCache sectorSize).found

theorem finds_iso
    {env : Environment} {file : Bytes}
    (complete : env.CompleteReads file) (plain : Plain file)
    (stat : env.fsStat = some file.length) {input : Input}
    (fresh : input.found = (create env).found) (headerBuf : Buffer) :
    Finds env (isoBase env file.length) 2 input (.readHeader headerBuf) := by
  refine ⟨rfl, fun input' pool found _ idle => ?_⟩
  have read := complete input'.reads 0 24 (Int.le_refl 0)
  rw [Int.toNat_zero] at read
  have length : (pread file 0 24).length = 24 := by
    rw [length_pread]
    have front := plain.front
    omega
  have magic : (pread file 0 24).take 4 = file.take 4 := by
    rw [pread, List.drop_zero, List.take_take]
    rfl
  have notCso : ¬ (file.take 4 = zsoMagic ∨ file.take 4 = csoMagic) :=
    not_or.mpr plain.notCso
  have headed : input'.complete env pool (.readHeader headerBuf) =
      ⟨{ input' with
          reads := input'.reads + 1
          fileType := .iso }.ask .stat,
          pool.release (headerBuf.filled (pread file 0 24)), []⟩ := by
    simp only [Input.complete, readRange, read, onHeaderRead, length, ne_eq,
      not_true_eq_false, if_false, magic, notCso, plain.notDax]
  rw [headed]
  refine Or.inr (Or.inr ⟨.stat, ?_, rfl, ?_⟩)
  · simp [InputResult.phase, ask, idle]
  · intro input'' pool'' found' _ idle'
    have whole : ¬ file.length % (sectorMask + 1) ≠ 0 :=
      not_not_intro (Nat.mod_eq_zero_of_dvd plain.aligned)
    have started : input''.complete env pool'' .stat =
        ⟨{ input'' with size := file.length }.setupCache sectorSize, pool'',
          [.begin file.length, .readSector]⟩ := by
      simp only [Input.complete, stat, onStat, whole, if_false]
    rw [started]
    refine Or.inr (Or.inl ⟨file.length, rfl, ?_⟩)
    have same : input''.found =
        { create env with fileType := .iso }.found :=
      found'.trans (congrArg (fun other : Input =>
        { other with fileType := .iso }) (found.trans fresh))
    exact congrArg (fun other : Input =>
      ({ other with size := file.length }.setupCache sectorSize).found) same

end Input

namespace DaxFile

variable {env : Environment} {dax : DaxFile} {zlib : Bytes → Bytes → Prop}
variable {file image : Bytes}

theorem Describes.finds_tables
    (described : dax.Describes zlib file image)
    (complete : env.CompleteReads file) {input : Input}
    {frames bytes : Nat} {areas : Option Nat}
    (awaits : dax.Awaits env input (.readTables frames areas bytes))
    (fuel : Nat) :
    Input.Finds env (dax.base env) (fuel + 1) input
      (.readTables frames areas bytes) := by
  refine ⟨rfl, fun input' pool found cachePos idle => ?_⟩
  obtain ⟨_, next⟩ := described.detects complete
    (awaits.of_found found cachePos) idle pool
  rcases next with ⟨size, begins, same, _⟩ | ⟨_, _, impossible, _⟩
  · exact Or.inr (Or.inl ⟨size, begins, same⟩)
  · cases impossible

theorem Describes.finds
    (described : dax.Describes zlib file image)
    (complete : env.CompleteReads file) {input : Input}
    (fresh : input.found = (Input.create env).found) (headerBuf : Buffer) :
    Input.Finds env (dax.base env) 2 input (.readHeader headerBuf) := by
  refine ⟨rfl, fun input' pool found _ idle => ?_⟩
  have awaits : dax.Awaits env input' (.readHeader headerBuf) :=
    found.trans fresh
  obtain ⟨_, next⟩ := described.detects complete awaits idle pool
  rcases next with ⟨size, begins, same, _⟩ | ⟨_, asked, _, waits, asks, _, _,
    _, tables⟩
  · exact Or.inr (Or.inl ⟨size, begins, same⟩)
  · subst tables
    exact Or.inr (Or.inr ⟨_, waits, described.finds_tables complete asks 0⟩)

end DaxFile

/-! ## Runs -/

namespace Reader

/-- The reader is on its way to find `base`, has failed to, or has found
it. -/
inductive Finding (env : Environment) (base : Input) (core : Reader)
    (phase : Phase) : Prop
  | asks (request : InputRequest) (fuel : Nat)
      (waits : phase = .waiting request)
      (finds : Input.Finds env base fuel core.input request)
  | fails (unbegun : core.begun = [])
      (ends : (phase = .stopped ∧ ∃ reason, (false, reason) ∈ core.finished) ∨
        ∃ reason, phase = .finishing false reason)
  | found (found : core.input.found = base)
      (late : ∀ request, phase = .waiting request →
        request.detects = false)

section

variable {env : Environment} {base : Input} {pool : BufferPool}
variable {core core' : Reader} {phase phase' : Phase} {event : ReaderEvent}

theorem detects_of_finds {fuel : Nat} {input : Input}
    {request : InputRequest} (finds : Input.Finds env base fuel input request) :
    request.detects = true := by
  cases fuel with
  | zero => exact finds.elim
  | succ fuel => exact finds.1

theorem finding_detect {request : InputRequest} {fuel : Nat}
    (unbegun : core.begun = [])
    (finds : Input.Finds env base fuel core.input request) :
    Finding env base
      { core with
        input := (core.detected env request).input
        pool := (core.detected env request).pool }
      (core.detected env request).phase := by
  cases fuel with
  | zero => exact finds.elim
  | succ fuel =>
      rcases finds.2 (core.enter .stopped).input core.pool rfl rfl rfl with
        ⟨⟨reason, fails⟩, _⟩ | ⟨size, begins, same⟩ | ⟨next, waits, finds'⟩
      · have ends : (core.detected env request).phase =
            .finishing false reason := fails
        exact .fails unbegun (Or.inr ⟨reason, ends⟩)
      · have starts : (core.detected env request).phase =
            .beginning size := begins
        refine .found same ?_
        intro other waits
        rw [starts] at waits
        cases waits
      · exact .asks next fuel waits finds'

/-- `begin_` is called once, when the format has been found. -/
theorem unbegun_move (unbegun : phase.detecting = true → core.begun = [])
    (move : Move Input.fetchCached env core phase event core' phase')
    (detecting : phase'.detecting = true) : core'.begun = [] := by
  cases move with
  | pause | resume | otherPool => exact unbegun detecting
  | detect request detects => exact unbegun detects
  | use | blockRead =>
      rw [detecting_usePhase] at detecting
      cases detecting
  | _ => cases detecting

/-- Past the detection the file is known. -/
theorem Finding.known
    (finding : Finding env base core phase)
    (late : ∀ request, phase = .waiting request → request.detects = false)
    (running : ∀ reason, phase ≠ .finishing false reason)
    (going : phase ≠ .stopped) : core.input.found = base := by
  cases finding with
  | asks request fuel waits finds =>
      have detects := detects_of_finds finds
      rw [late request waits] at detects
      cases detects
  | fails _ ends =>
      rcases ends with ⟨stopped, _⟩ | ⟨reason, fails⟩
      · exact absurd stopped going
      · exact absurd fails (running reason)
  | found found => exact found

/-- What has been found stays, and the detection goes on. -/
theorem Finding.move
    (finding : Finding env base core phase)
    (unbegun : phase.detecting = true → core.begun = [])
    (move : Move Input.fetchCached env core phase event core' phase') :
    Finding env base core' phase' := by
  cases move with
  | pause | resume =>
      cases finding with
      | asks request fuel waits finds =>
          refine .asks request fuel waits ?_
          exact @Input.finds_congr env base core.input _ fuel request rfl rfl
            finds
      | fails unbegun ends => exact .fails unbegun ends
      | found found late => exact .found found late
  | otherPool =>
      cases finding with
      | asks request fuel waits finds => exact .asks request fuel waits finds
      | fails unbegun ends => exact .fails unbegun ends
      | found found late => exact .found found late
  | detect request detects =>
      cases finding with
      | asks other fuel waits finds =>
          obtain rfl := Phase.waiting.inj waits
          exact finding_detect (unbegun detects) finds
      | fails _ ends =>
          rcases ends with ⟨same, _⟩ | ⟨_, same⟩
          · cases same
          · cases same
      | found _ late =>
          have early := late request rfl
          rw [detects] at early
          cases early
  | finish success reason =>
      cases finding with
      | asks _ _ waits => cases waits
      | fails none ends =>
          rcases ends with ⟨same, _⟩ | ⟨other, same⟩
          · cases same
          · cases same
            refine .fails none (Or.inl ⟨rfl, reason, ?_⟩)
            exact List.mem_append_right _ (List.mem_singleton_self _)
      | found found =>
          refine .found found ?_
          intro request waits
          cases waits
  | ask =>
      refine .found (finding.known ?_ ?_ ?_) ?_
      · intro request waits
        cases waits
      · intro reason
        exact Phase.noConfusion
      · exact Phase.noConfusion
      · intro request waits
        rw [← Phase.waiting.inj waits]
        rfl
  | use | blockRead =>
      refine .found (finding.known ?_ ?_ ?_) ?_
      · intro request waits
        cases waits <;> rfl
      · intro reason
        exact Phase.noConfusion
      · exact Phase.noConfusion
      · exact fun request waits => not_detects_usePhase waits
  | _ =>
      refine .found (finding.known ?_ ?_ ?_) ?_
      · intro request waits
        cases waits <;> rfl
      · intro reason
        exact Phase.noConfusion
      · exact Phase.noConfusion
      · intro request waits
        cases waits

/-- Every run finds the file, or fails to. -/
theorem finding_of_run
    (finds : ∀ (input : Input) (headerBuf : Buffer),
      input.found = (Input.create env).found →
        Input.Finds env base 2 input (.readHeader headerBuf))
    {allowed : Reader → ReaderEvent → Prop} {events : List ReaderEvent}
    {target : Reader}
    (run : Execution (step Input.fetchCached env) allowed (start env pool)
      events target) :
    ∃ core phase, target = core.enter phase ∧
      (phase.detecting = true → core.begun = []) ∧
        Finding env base core phase := by
  obtain ⟨core, phase, situated, holds⟩ :=
    @track_moves Input.fetchCached env allowed
      (fun _ core phase => (phase.detecting = true → core.begun = []) ∧
        Finding env base core phase)
      (fun _ _ _ _ _ _ holds _ _ move =>
        ⟨unbegun_move holds.1 move, holds.2.move holds.1 move⟩)
      _ _ _ (situated_start env pool) events target run
      ⟨fun _ => rfl, .asks _ 2 rfl (finds _ _ rfl)⟩
  exact ⟨core, phase, situated.enter, holds⟩

/-- Once `begin_` has been called the file has been found. -/
theorem found_of_run
    (finds : ∀ (input : Input) (headerBuf : Buffer),
      input.found = (Input.create env).found →
        Input.Finds env base 2 input (.readHeader headerBuf))
    {allowed : Reader → ReaderEvent → Prop} {events : List ReaderEvent}
    {target : Reader}
    (run : Execution (step Input.fetchCached env) allowed (start env pool)
      events target) (begun : target.begun ≠ []) :
    target.input.found = base := by
  obtain ⟨core, phase, same, unbegun, finding⟩ := finding_of_run finds run
  subst same
  cases finding with
  | asks request fuel waits finds =>
      refine absurd (unbegun ?_) begun
      rw [waits]
      exact detects_of_finds finds
  | fails none => exact absurd none begun
  | found found => exact found

/-- A reader that has nothing left to do has found the file, unless it has
reported a failure. -/
theorem found_of_idle
    (finds : ∀ (input : Input) (headerBuf : Buffer),
      input.found = (Input.create env).found →
        Input.Finds env base 2 input (.readHeader headerBuf))
    {allowed : Reader → ReaderEvent → Prop} {events : List ReaderEvent}
    {target : Reader}
    (run : Execution (step Input.fetchCached env) allowed (start env pool)
      events target) (calls : target.calls = [])
    (inFlight : target.input.inFlight = [])
    (unfailed : ∀ reason, (false, reason) ∉ target.finished) :
    target.input.found = base := by
  obtain ⟨core, phase, same, _, finding⟩ := finding_of_run finds run
  subst same
  cases finding with
  | asks request fuel waits =>
      subst waits
      cases inFlight
  | fails _ ends =>
      rcases ends with ⟨_, reason, member⟩ | ⟨reason, same⟩
      · exact absurd member (unfailed reason)
      · subst same
        cases calls
  | found found => exact found

end

end Reader

end Maxcso
