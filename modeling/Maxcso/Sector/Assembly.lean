import Mathlib.Data.List.Induction
import Maxcso.Library.FileBytes
import Maxcso.Sector.Accounts

/-!
# Blocks in any order

One sector object takes block after block, each from its sectors in any order
and with or without compression.
-/

namespace Maxcso

namespace Sector

/-! ## Runs of one sector object -/

/-- A block that is passed to a sector: the order of its parts, the buffers
they are in, and whether it may be compressed. -/
structure BlockInput where
  compress : Bool
  start : Int
  block : Bytes
  order : List Nat
  buffers : Nat → Buffer

/-- The position and the buffer of a part of the block. -/
def BlockInput.part (input : BlockInput) (index : Nat) : Int × Buffer :=
  (input.start + sectorSize * (index : Int), input.buffers index)

/-- The parts of an aligned block of some size, in some order. -/
structure BlockInput.Sized (blockSize : Nat) (input : BlockInput) : Prop where
  aligned : input.start % blockSize = 0
  length : input.block.length = blockSize
  order : input.order.Perm (List.range (blockSize / sectorSize))
  content : ∀ index < blockSize / sectorSize,
    FlatMemory.read (input.buffers index).memory 0 sectorSize =
      FileBytes.pread input.block (sectorSize * index) sectorSize

/-- A sector with the pool, and how its calls of `Process` have ended. -/
structure Received where
  sector : Sector
  pool : BufferPool
  outcomes : List ProcessOutcome

/-- A part is passed to the sector, after `DisableCompress` if the block is not
to be compressed. -/
def Received.pass (env : Environment) (compress : Bool) (state : Received)
    (part : Int × Buffer) : Received :=
  let sector :=
    if compress then state.sector else state.sector.disableCompress
  let processed := sector.process env state.pool part.1 part.2
  { sector := processed.1
    pool := processed.2.1
    outcomes := state.outcomes ++ [processed.2.2] }

/-- The parts of a block are passed one after the other. -/
def receive (env : Environment) (sector : Sector) (pool : BufferPool)
    (input : BlockInput) : Received :=
  (input.order.map input.part).foldl (Received.pass env input.compress)
    ⟨sector, pool, []⟩

/-- The state in which the ready callback is called: the queued work has been
done if there was any. -/
def ready (env : Environment) (received : Received) : Sector × BufferPool :=
  if .queued ∈ received.outcomes then
    received.sector.compressWork env received.pool
  else
    (received.sector, received.pool)

/-- The calls of the ready callback that a call of `Process` leads to, where
queued work ends with a status. -/
def readyCalls (status : Int) : ProcessOutcome → List Bool
  | .waiting => []
  | .queued => [decide (0 ≤ status)]
  | .ready => [true]
  | .failed _ => [false]

/-- A block is taken and released. -/
def takeBlock (env : Environment) (state : Sector × BufferPool)
    (input : BlockInput) : Sector × BufferPool :=
  let state := ready env (state.1.receive env state.2 input)
  state.1.release state.2

/-! ## Parts -/

/-- A sector that has received some parts of a block. -/
structure Gathers (template : Sector) (input : BlockInput) (seen : List Nat)
    (sector : Sector) : Prop where
  setup : SameSetup template sector
  busy : sector.busy = true
  compress : sector.compress = input.compress
  enqueued : sectorSize * seen.length < template.blockSize →
    sector.enqueued = false
  readySize : sector.readySize = sectorSize * seen.length
  pos : sector.pos = input.start
  best : sector.best = none
  bestSize : sector.bestSize = template.blockSize
  bestFmt : sector.bestFmt = .orig
  buffer : ∃ buffer, sector.buffer = some buffer ∧ ∀ index ∈ seen,
    FlatMemory.read buffer.memory (sectorSize * index) sectorSize =
      FileBytes.pread input.block (sectorSize * index) sectorSize

section

variable {template sector : Sector} {input : BlockInput} {seen : List Nat}
variable {index : Nat} {env : Environment} {pool : BufferPool}

/-- The end of `Process`. -/
theorem gathers_accept (setup : SameSetup template sector)
    (busy : sector.busy = true) (compress : sector.compress = input.compress)
    (waiting : sector.enqueued = false)
    (readySize : sector.readySize + sectorSize = sectorSize * seen.length)
    (pos : sector.pos = input.start) (best : sector.best = none)
    (bestSize : sector.bestSize = template.blockSize)
    (bestFmt : sector.bestFmt = .orig)
    (buffer : ∃ buffer, sector.buffer = some buffer ∧ ∀ index ∈ seen,
      FlatMemory.read buffer.memory (sectorSize * index) sectorSize =
        FileBytes.pread input.block (sectorSize * index) sectorSize)
    (pool : BufferPool) :
    Gathers template input seen (process.accept sector pool).1 ∧
      (process.accept sector pool).2.1 = pool ∧
      (process.accept sector pool).2.2 =
        outcome template.blockSize input.compress
          (sectorSize * seen.length) := by
  obtain ⟨flags, align, origMaxCost, lz4MaxCost, isBusy, isEnqueued,
    compresses, blockSize, size, place, block, result, resultSize, format⟩ :=
      sector
  obtain ⟨rfl, rfl, rfl, rfl, rfl⟩ := setup
  dsimp only at *
  subst busy compress waiting pos best bestSize bestFmt
  have gathers (enqueued : Bool)
      (free : sectorSize * seen.length < template.blockSize →
        enqueued = false) :
      Gathers template input seen
        { template with
          busy := true
          enqueued := enqueued
          compress := input.compress
          readySize := sectorSize * seen.length
          pos := input.start
          buffer := block
          best := none
          bestSize := template.blockSize
          bestFmt := .orig } :=
    ⟨⟨rfl, rfl, rfl, rfl, rfl⟩, rfl, rfl, free, rfl, rfl, rfl, rfl, rfl,
      buffer⟩
  unfold process.accept outcome
  dsimp only
  rw [readySize]
  by_cases short : sectorSize * seen.length < template.blockSize
  · rw [if_pos short, if_pos short]
    exact ⟨gathers false fun _ => rfl, rfl, rfl⟩
  · rw [if_neg short, if_neg short, if_neg Bool.false_ne_true]
    cases wanted : input.compress with
    | true =>
        rw [wanted] at gathers
        exact ⟨gathers true fun below => absurd below short, rfl, rfl⟩
    | false =>
        rw [wanted] at gathers
        exact ⟨gathers false fun _ => rfl, rfl, rfl⟩

/-- A write of one part leaves the others alone. -/
theorem read_copyInto {buffer block : Buffer} {pos start : Int}
    (place : pos = start + sectorSize * (index : Int)) :
    (FlatMemory.read (process.copyInto pos buffer block start).memory
        (sectorSize * index) sectorSize =
      FlatMemory.read buffer.memory 0 sectorSize) ∧
      ∀ other, other ≠ index →
        FlatMemory.read (process.copyInto pos buffer block start).memory
            (sectorSize * other) sectorSize =
          FlatMemory.read block.memory (sectorSize * other) sectorSize := by
  have offset : (pos - start).toNat = sectorSize * index := by
    rw [place]
    omega
  have length : (FlatMemory.read buffer.memory 0 sectorSize).length =
      sectorSize := FlatMemory.length_read _ _ _
  unfold process.copyInto
  rw [offset]
  refine ⟨?_, ?_⟩
  · have whole := FlatMemory.read_write_self block.memory
      (sectorSize * index) (FlatMemory.read buffer.memory 0 sectorSize)
    rwa [length] at whole
  · intro other apart
    rcases Nat.lt_or_gt_of_ne apart with before | after
    · refine FlatMemory.read_write_of_before _ _ ?_
      exact Nat.mul_le_mul_left sectorSize before
    · refine FlatMemory.read_write_of_after _ _ ?_
      rw [length]
      exact Nat.mul_le_mul_left sectorSize after

/-- The start of the block that a part belongs to. -/
theorem start_of_part {blockSize : Nat} {start : Int}
    (aligned : start % blockSize = 0)
    (inside : sectorSize * (index + 1) ≤ blockSize) :
    (start + sectorSize * (index : Int)) -
        (start + sectorSize * (index : Int)) % blockSize = start := by
  obtain ⟨blocks, rfl⟩ := Int.dvd_of_emod_eq_zero aligned
  have below : sectorSize * (index : Int) < blockSize := by
    simp only [sectorSize] at inside ⊢
    omega
  rw [Int.mul_add_emod_self_left,
    Int.emod_eq_of_lt (by simp only [sectorSize]; omega) below]
  omega

/-- The first part of a block. -/
theorem gathers_first (idle : Idle template sector)
    (aligned : input.start % template.blockSize = 0)
    (inside : sectorSize * (index + 1) ≤ template.blockSize)
    (content : FlatMemory.read (input.buffers index).memory 0 sectorSize =
      FileBytes.pread input.block (sectorSize * index) sectorSize)
    {outcomes : List ProcessOutcome} :
    let next := Received.pass env input.compress ⟨sector, pool, outcomes⟩
      (input.part index)
    Gathers template input [index] next.sector ∧
      next.pool.bufferSize = pool.bufferSize ∧
      next.outcomes = outcomes ++
        [outcome template.blockSize input.compress sectorSize] := by
  intro next
  have prepared : ∃ before : Sector, before = (if input.compress then sector
      else sector.disableCompress) ∧ SameSetup template before ∧
        before.busy = false ∧ before.enqueued = false ∧
        before.compress = input.compress ∧ before.readySize = 0 ∧
        before.best = none := by
    obtain ⟨setup, busy, enqueued, compress, readySize, best⟩ := idle
    refine ⟨_, rfl, ?_⟩
    cases input.compress with
    | true => exact ⟨setup, busy, enqueued, compress, readySize, best⟩
    | false => exact ⟨⟨setup.flags, setup.align, setup.origMaxCost,
        setup.lz4MaxCost, setup.blockSize⟩, busy, enqueued, rfl, readySize,
        best⟩
  obtain ⟨before, prepare, setup, busy, enqueued, compress, readySize, best⟩ :=
    prepared
  unfold next Received.pass BlockInput.part
  dsimp only
  rw [← prepare]
  unfold process
  rw [if_pos (by simp [busy])]
  dsimp only
  rw [setup.blockSize, start_of_part aligned inside]
  by_cases single : template.blockSize = sectorSize
  · rw [if_pos single]
    have first : index = 0 := by
      simp only [sectorSize] at inside single
      omega
    obtain ⟨gathers, samePool, ends⟩ := @gathers_accept template
      { before with
        busy := true
        pos := input.start
        blockSize := template.blockSize
        bestSize := template.blockSize
        bestFmt := .orig
        buffer := some (input.buffers index) }
      input [index]
      ⟨setup.flags, setup.align, setup.origMaxCost, setup.lz4MaxCost, rfl⟩
      rfl compress enqueued
      (by rw [readySize, Nat.zero_add, List.length_singleton, Nat.mul_one])
      rfl best rfl rfl ⟨_, rfl, fun other member => by
        rw [List.mem_singleton.mp member]
        subst first
        exact content⟩ pool
    exact ⟨gathers, congrArg (·.bufferSize) samePool,
      congrArg (outcomes ++ [·]) ends⟩
  · rw [if_neg single]
    obtain ⟨gathers, samePool, ends⟩ := @gathers_accept template
      { before with
        busy := true
        pos := input.start
        blockSize := template.blockSize
        bestSize := template.blockSize
        bestFmt := .orig
        buffer := some (process.copyInto
          (input.start + sectorSize * (index : Int)) (input.buffers index)
          (pool.alloc env.heap).1 input.start) }
      input [index]
      ⟨setup.flags, setup.align, setup.origMaxCost, setup.lz4MaxCost, rfl⟩
      rfl compress enqueued
      (by rw [readySize, Nat.zero_add, List.length_singleton, Nat.mul_one])
      rfl best rfl rfl ⟨_, rfl, fun other member => by
        rw [List.mem_singleton.mp member, ← content]
        exact (read_copyInto rfl).1⟩
      ((pool.alloc env.heap).2.release (input.buffers index))
    exact ⟨gathers, (congrArg (·.bufferSize) samePool).trans
      (BufferPool.alloc_bufferSize _ _),
      congrArg (outcomes ++ [·]) ends⟩

/-- A later part of a block. -/
theorem gathers_next (gathers : Gathers template input seen sector)
    (fresh : index ∉ seen)
    (partial_ : sectorSize * seen.length < template.blockSize)
    (inside : sectorSize * (index + 1) ≤ template.blockSize)
    (room : template.blockSize ≤ pool.bufferSize)
    (content : FlatMemory.read (input.buffers index).memory 0 sectorSize =
      FileBytes.pread input.block (sectorSize * index) sectorSize)
    {outcomes : List ProcessOutcome} :
    let next := Received.pass env input.compress ⟨sector, pool, outcomes⟩
      (input.part index)
    Gathers template input (seen ++ [index]) next.sector ∧
      next.pool.bufferSize = pool.bufferSize ∧
      next.outcomes = outcomes ++ [outcome template.blockSize input.compress
        (sectorSize * (seen ++ [index]).length)] := by
  intro next
  have same : (if input.compress then sector
      else sector.disableCompress) = sector := by
    have compress := gathers.compress
    cases wanted : input.compress with
    | true => rfl
    | false =>
        rw [wanted] at compress
        rw [if_neg Bool.false_ne_true, disableCompress, ← compress]
  obtain ⟨setup, busy, compress, enqueued, readySize, pos, best, bestSize,
    bestFmt, assembly, held, parts⟩ := gathers
  have near : process.toUint64 (input.start + sectorSize * (index : Int) -
      sector.pos) < pool.bufferSize := by
    rw [pos, process.toUint64]
    simp only [sectorSize] at inside ⊢
    omega
  obtain ⟨written, others⟩ := @read_copyInto index (input.buffers index)
    assembly (input.start + sectorSize * (index : Int)) sector.pos
    (by rw [pos])
  unfold next Received.pass BlockInput.part
  dsimp only
  rw [same]
  unfold process
  rw [if_neg (by simp [busy]), if_pos near]
  obtain ⟨gathers, samePool, ends⟩ := @gathers_accept template
    { sector with
      buffer := sector.buffer.map fun block => process.copyInto
        (input.start + sectorSize * (index : Int)) (input.buffers index)
        block sector.pos }
    input (seen ++ [index])
    ⟨setup.flags, setup.align, setup.origMaxCost, setup.lz4MaxCost,
      setup.blockSize⟩
    busy compress (enqueued partial_)
    (by rw [readySize, List.length_append, List.length_singleton,
      Nat.mul_succ])
    pos best bestSize bestFmt
    ⟨_, congrArg (Option.map _) held, fun other member => by
      rcases List.mem_append.mp member with earlier | last
      · rw [others other fun same => fresh (same ▸ earlier)]
        exact parts other earlier
      · rw [List.mem_singleton.mp last, written, content]⟩
    (pool.release (input.buffers index))
  exact ⟨gathers, congrArg (·.bufferSize) samePool,
    congrArg (outcomes ++ [·]) ends⟩

/-! ## Whole blocks -/

/-- How the calls of `Process` for a number of parts end. -/
def outcomes (blockSize : Nat) (compress : Bool) (count : Nat) :
    List ProcessOutcome :=
  (List.range count).map fun before =>
    outcome blockSize compress (sectorSize * (before + 1))

theorem outcomes_succ (blockSize : Nat) (compress : Bool) (count : Nat) :
    outcomes blockSize compress (count + 1) =
      outcomes blockSize compress count ++
        [outcome blockSize compress (sectorSize * (count + 1))] := by
  rw [outcomes, List.range_succ, List.map_append]
  rfl

/-- Some of the parts of a block have been passed. -/
structure Passed (template : Sector) (input : BlockInput)
    (pool : BufferPool) (seen : List Nat) (received : Received) : Prop where
  gathers : seen ≠ [] → Gathers template input seen received.sector
  size : received.pool.bufferSize = pool.bufferSize
  outcomes : received.outcomes =
    outcomes template.blockSize input.compress seen.length
  settled : Settled pool (addresses (seen.map input.buffers)) received.pool
    received.sector.held

theorem settled_pass {received : Received} {compress : Bool}
    {part : Int × Buffer}
    (free : received.sector.busy = false → received.sector.buffer = none)
    (near : received.sector.busy = true →
      process.toUint64 (part.1 - received.sector.pos) <
        received.pool.bufferSize) :
    Settled received.pool (received.sector.held + addresses [part.2])
      (received.pass env compress part).pool
      (received.pass env compress part).sector.held := by
  cases compress with
  | true => exact settled_process env part.1 part.2 free near
  | false =>
      exact @settled_process received.sector.disableCompress received.pool
        env part.1 part.2 free near

/-- A part is passed to a sector that has some of the others. -/
theorem Passed.pass {received : Received}
    (passed : Passed template input pool seen received)
    (idle : seen = [] →
      Idle template received.sector ∧ received.sector.buffer = none)
    (sized : input.Sized template.blockSize) (fresh : index ∉ seen)
    (inside : index < template.blockSize / sectorSize)
    (partial_ : seen.length < template.blockSize / sectorSize)
    (room : template.blockSize ≤ pool.bufferSize) :
    Passed template input pool (seen ++ [index])
      (received.pass env input.compress (input.part index)) := by
  have below : ∀ {count : Nat}, count < template.blockSize / sectorSize →
      sectorSize * (count + 1) ≤ template.blockSize := by
    intro count less
    exact (Nat.mul_le_mul_left sectorSize less).trans (Nat.mul_div_le _ _)
  obtain ⟨sector, pool', ended⟩ := received
  obtain ⟨gathers, size, ends, settled⟩ := passed
  have content := sized.content index inside
  have room' : template.blockSize ≤ pool'.bufferSize :=
    room.trans_eq size.symm
  have next : Gathers template input (seen ++ [index])
        (Received.pass env input.compress ⟨sector, pool', ended⟩
          (input.part index)).sector ∧
      (Received.pass env input.compress ⟨sector, pool', ended⟩
          (input.part index)).pool.bufferSize = pool'.bufferSize ∧
      (Received.pass env input.compress ⟨sector, pool', ended⟩
          (input.part index)).outcomes = ended ++
        [outcome template.blockSize input.compress
          (sectorSize * (seen.length + 1))] := by
    cases seen with
    | nil =>
        exact gathers_first (idle rfl).1 sized.aligned (below inside) content
    | cons first others =>
        have later := @gathers_next template sector input (first :: others)
          index env pool' (gathers nofun) fresh
          (Nat.lt_of_lt_of_le
            (Nat.mul_lt_mul_of_pos_left (Nat.lt_succ_self _) (by decide))
            (below partial_))
          (below inside) room' content ended
        rwa [List.length_append, List.length_singleton] at later
  obtain ⟨gathers', size', ends'⟩ := next
  refine ⟨fun _ => gathers', size'.trans size, ?_, ?_⟩
  · rw [ends', show ended = _ from ends, List.length_append,
      List.length_singleton, outcomes_succ]
  · rw [List.map_append, addresses_append]
    refine settled.trans (settled_pass ?_ ?_)
    · intro notBusy
      cases seen with
      | nil => exact (idle rfl).2
      | cons first others =>
          exact nomatch notBusy.symm.trans (gathers nofun).busy
    · intro busy
      cases seen with
      | nil => exact nomatch busy.symm.trans (idle rfl).1.busy
      | cons first others =>
          have near := below inside
          dsimp only [BlockInput.part]
          rw [(gathers nofun).pos, process.toUint64]
          simp only [sectorSize] at near ⊢
          omega

/-- Some parts are passed one after the other. -/
theorem passed_foldl (idle : Idle template sector)
    (none : sector.buffer = none) (sized : input.Sized template.blockSize)
    (room : template.blockSize ≤ pool.bufferSize)
    (inside : ∀ index ∈ seen, index < template.blockSize / sectorSize)
    (nodup : seen.Nodup) :
    Passed template input pool seen
      ((seen.map input.part).foldl (Received.pass env input.compress)
        ⟨sector, pool, []⟩) := by
  induction seen using List.reverseRecOn with
  | nil =>
      have held : sector.held = 0 := by
        rw [Sector.held, none, idle.best]
        rfl
      refine ⟨fun some_ => absurd rfl some_, rfl, rfl, ?_⟩
      show Settled pool 0 pool sector.held
      rw [held]
      exact Settled.refl pool 0
  | append_singleton seen index inductionHypothesis =>
      have few := (List.subperm_of_subset nodup fun other member =>
        List.mem_range.mpr (inside other member)).length_le
      rw [List.length_append, List.length_singleton, List.length_range] at few
      obtain ⟨nodup, _, apart⟩ := List.nodup_append.mp nodup
      have fresh : index ∉ seen :=
        fun member => apart index member index List.mem_cons_self rfl
      have passed := inductionHypothesis
        (fun other member => inside other (List.mem_append_left _ member))
        nodup
      rw [List.map_append, List.foldl_append]
      refine passed.pass ?_ sized fresh (inside index (by simp)) few room
      rintro rfl
      exact ⟨idle, none⟩

theorem passed_receive (idle : Idle template sector)
    (none : sector.buffer = none) (sized : input.Sized template.blockSize)
    (room : template.blockSize ≤ pool.bufferSize) :
    Passed template input pool input.order
      (sector.receive env pool input) :=
  passed_foldl idle none sized room
    (fun _ member => List.mem_range.mp (sized.order.mem_iff.mp member))
    (sized.order.nodup_iff.mpr List.nodup_range)

/-- All calls of `Process` but the last one wait for other parts. -/
theorem outcomes_whole {blockSize count : Nat}
    (whole : blockSize = sectorSize * (count + 1)) (compress : Bool) :
    outcomes blockSize compress (count + 1) =
      List.replicate count .waiting ++
        [if compress then .queued else .ready] := by
  have waits : outcomes blockSize compress count =
      List.replicate count .waiting := by
    refine List.eq_replicate_iff.mpr
      ⟨by rw [outcomes, List.length_map, List.length_range], ?_⟩
    intro ended member
    obtain ⟨before, inside, rfl⟩ := List.mem_map.mp member
    have below := List.mem_range.mp inside
    rw [outcome, if_pos]
    rw [whole]
    exact Nat.mul_lt_mul_of_pos_left (by omega) (by decide)
  rw [outcomes_succ, waits, outcome, if_neg (by rw [whole]; omega)]

/-- The parts that have been copied make up the block. -/
theorem read_parts {memory : Nat → UInt8} {block : Bytes} {count : Nat}
    (parts : ∀ index < count,
      FlatMemory.read memory (sectorSize * index) sectorSize =
        FileBytes.pread block (sectorSize * index) sectorSize) :
    FlatMemory.read memory 0 (sectorSize * count) =
      FileBytes.pread block 0 (sectorSize * count) := by
  induction count with
  | zero => rfl
  | succ count inductionHypothesis =>
      rw [Nat.mul_succ, FlatMemory.read_add, FileBytes.pread_add,
        inductionHypothesis fun index below => parts index (by omega),
        Nat.zero_add, parts count (Nat.lt_succ_self _)]

theorem fills_of_gathers (gathers : Gathers template input input.order sector)
    (sized : input.Sized template.blockSize)
    (whole : sectorSize ∣ template.blockSize) :
    Fills template input.compress input.start input.block sector := by
  have total : sectorSize * (template.blockSize / sectorSize) =
      template.blockSize := Nat.mul_div_cancel' whole
  have count : input.order.length = template.blockSize / sectorSize :=
    sized.order.length_eq.trans List.length_range
  obtain ⟨buffer, held, parts⟩ := gathers.buffer
  refine ⟨gathers.setup, gathers.busy, gathers.compress, fun short => ?_, ?_,
    gathers.pos, gathers.best, gathers.bestSize, gathers.bestFmt, buffer,
    held, ?_⟩
  · exact absurd sized.length short.ne
  · rw [gathers.readySize, count, total, sized.length]
  · have copied := @read_parts buffer.memory input.block
      (template.blockSize / sectorSize) fun index below =>
        parts index (sized.order.mem_iff.mpr (List.mem_range.mpr below))
    rw [total] at copied
    rw [sized.length, copied, FileBytes.pread, List.drop_zero,
      List.take_of_length_le sized.length.le]

/-- What is stored for a block. -/
def stored (env : Environment) (template : Sector) (compress : Bool)
    (block : Bytes) : SectorFormat × Bytes :=
  if compress then template.result env 0 block else (.orig, block)

/-- The compressors look at the block only. -/
def BlockOnly (env : Environment) : Prop :=
  ∀ pos block, env.trials pos block = env.trials 0 block

/-- The state in which the ready callback of a block is called. -/
structure Ready (env : Environment) (template : Sector) (input : BlockInput)
    (pool : BufferPool) (received : Received)
    (state : Sector × BufferPool) : Prop where
  outcomes : received.outcomes =
    List.replicate (template.blockSize / sectorSize - 1) .waiting ++
      [if input.compress then .queued else .ready]
  returned : Settled pool (addresses (input.order.map input.buffers))
    received.pool (addresses received.sector.buffer.toList)
  settled : Settled pool (addresses (input.order.map input.buffers)) state.2
    state.1.held
  size : state.2.bufferSize = pool.bufferSize
  buffer : ∃ buffer, state.1.buffer = some buffer ∧
    FlatMemory.read buffer.memory 0 template.blockSize = input.block
  holds : Holds template input.start
    (stored env template input.compress input.block) state.1

theorem ready_receive (idle : Idle template sector)
    (none : sector.buffer = none) (sized : input.Sized template.blockSize)
    (whole : sectorSize ∣ template.blockSize)
    (positive : 0 < template.blockSize)
    (room : template.blockSize ≤ pool.bufferSize) (only : BlockOnly env) :
    Ready env template input pool (sector.receive env pool input)
      (ready env (sector.receive env pool input)) := by
  have passed := @passed_receive template sector input env pool idle none
    sized room
  generalize sector.receive env pool input = received at passed ⊢
  obtain ⟨parts, total⟩ := whole
  have count : template.blockSize / sectorSize = parts := by
    rw [total, Nat.mul_div_cancel_left _ (by decide)]
  obtain ⟨others, rfl⟩ : ∃ others, parts = others + 1 := by
    refine Nat.exists_eq_succ_of_ne_zero ?_
    rintro rfl
    omega
  have length : input.order.length = others + 1 :=
    (sized.order.length_eq.trans List.length_range).trans count
  have ends : received.outcomes = List.replicate others .waiting ++
      [if input.compress then .queued else .ready] := by
    rw [passed.outcomes, length, outcomes_whole total]
  have gathers := passed.gathers (by
    rintro same
    rw [same] at length
    exact nomatch length)
  have fills := fills_of_gathers gathers sized ⟨_, total⟩
  obtain ⟨buffer, held, content⟩ := fills.buffer
  rw [sized.length] at content
  have none' : received.sector.held =
      addresses received.sector.buffer.toList := by
    rw [Sector.held, fills.best]
    exact add_zero _
  suffices done : Settled pool (addresses (input.order.map input.buffers))
        (ready env received).2 (ready env received).1.held ∧
      (ready env received).2.bufferSize = pool.bufferSize ∧
      (∃ buffer, (ready env received).1.buffer = some buffer ∧
        FlatMemory.read buffer.memory 0 template.blockSize = input.block) ∧
      Holds template input.start
        (stored env template input.compress input.block)
        (ready env received).1 from
    ⟨by rw [count, ends]; rfl, none' ▸ passed.settled, done.1, done.2.1,
      done.2.2.1, done.2.2.2⟩
  unfold ready stored
  cases compress : input.compress with
  | true =>
      have queued : .queued ∈ received.outcomes := by
        simp [ends, compress]
      rw [if_pos queued]
      have initially : received.sector.bestSoFar =
          ⟨.orig, received.sector.blockSize, Option.none⟩ := by
        rw [bestSoFar, fills.best, fills.bestFmt, fills.bestSize,
          fills.setup.blockSize]
        rfl
      have same := (compressWork_best env received.pool initially).2.1
      obtain ⟨holds, size⟩ :=
        compressWork_holds env received.pool fills sized.length
      refine ⟨passed.settled.trans' (settled_compressWork env),
        size.trans passed.size, ⟨buffer, same.buffer.trans held, content⟩, ?_⟩
      rw [if_pos rfl, show template.result env 0 input.block =
        template.result env input.start input.block by
          unfold result bestOf
          rw [only input.start]]
      exact holds
  | false =>
      have ready : .queued ∉ received.outcomes := by
        simp [ends, compress, List.mem_replicate]
      rw [if_neg ready]
      exact ⟨passed.settled, passed.size, ⟨buffer, held, content⟩,
        holds_of_fills fills sized.length⟩

/-! ## Histories -/

/-- A sector that has been set up or released. -/
structure Clean (template : Sector) (pool : BufferPool)
    (state : Sector × BufferPool) : Prop where
  idle : Idle template state.1
  buffer : state.1.buffer = none
  size : state.2.bufferSize = pool.bufferSize

theorem Clean.takeBlock {state : Sector × BufferPool}
    (clean : Clean template pool state)
    (sized : input.Sized template.blockSize)
    (whole : sectorSize ∣ template.blockSize)
    (positive : 0 < template.blockSize)
    (room : template.blockSize ≤ pool.bufferSize) (only : BlockOnly env) :
    Clean template pool (takeBlock env state input) := by
  have ready := ready_receive clean.idle clean.buffer sized whole positive
    (room.trans_eq clean.size.symm) only
  obtain ⟨idle, size⟩ := idle_release ready.holds.setup
    (Sector.ready env (state.1.receive env state.2 input)).2
  exact ⟨idle, rfl, (size.trans ready.size).trans clean.size⟩

theorem clean_foldl (whole : sectorSize ∣ template.blockSize)
    (positive : 0 < template.blockSize)
    (room : template.blockSize ≤ pool.bufferSize) (only : BlockOnly env)
    {state : Sector × BufferPool} (clean : Clean template pool state)
    {history : List BlockInput}
    (sized : ∀ input ∈ history, input.Sized template.blockSize) :
    Clean template pool (history.foldl (Sector.takeBlock env) state) := by
  induction history generalizing state with
  | nil => exact clean
  | cons input history inductionHypothesis =>
      exact inductionHypothesis
        (clean.takeBlock (sized input List.mem_cons_self) whole positive room
          only)
        fun other member => sized other (List.mem_cons_of_mem _ member)

end

/-- Whatever blocks a sector has had before, and in whatever order the parts of
the next one come, its callback is called once, after the last part, and what
is stored depends on the block only. -/
theorem sector_blocks {env : Environment} (only : BlockOnly env)
    {flags align origMaxCost lz4MaxCost power : Nat} {pool : BufferPool}
    (room : sectorSize * 2 ^ power ≤ pool.bufferSize)
    {history : List BlockInput} {next : BlockInput}
    (sized : ∀ input ∈ next :: history,
      input.Sized (sectorSize * 2 ^ power)) (status : Int) :
    let template := (create flags).setup (sectorSize * 2 ^ power) align
      origMaxCost lz4MaxCost
    let before := history.foldl (takeBlock env) (template, pool)
    let received := before.1.receive env before.2 next
    let done := ready env received
    (∃ earlier last, received.outcomes = earlier ++ [last] ∧
        received.outcomes.length = next.order.length ∧
        earlier.flatMap (readyCalls status) = [] ∧
        (readyCalls status last).length = 1) ∧
      (∃ buffer, done.1.buffer = some buffer ∧
        FlatMemory.read buffer.memory 0 (sectorSize * 2 ^ power) =
          next.block) ∧
      done.1.pos = next.start ∧
      Settled before.2 (addresses (next.order.map next.buffers))
        received.pool (addresses received.sector.buffer.toList) ∧
      done.1.bestSize =
        (stored env template next.compress next.block).2.length ∧
      (done.1.bestFmt, done.1.bestBytes done.1.bestSize) =
        stored env template next.compress next.block := by
  intro template before received done
  have positive : 0 < sectorSize * 2 ^ power :=
    Nat.mul_pos (by decide) (Nat.two_pow_pos power)
  have clean : Clean template pool before :=
    @clean_foldl template env pool ⟨_, rfl⟩ positive room only
      (template, pool) ⟨idle_create _ _ _ _ _, rfl, rfl⟩ history
      fun input member => sized input (List.mem_cons_of_mem _ member)
  have nextSized := sized next List.mem_cons_self
  have ready : Ready env template next before.2 received done :=
    ready_receive clean.idle clean.buffer nextSized ⟨_, rfl⟩ positive
      (room.trans_eq clean.size.symm) only
  refine ⟨⟨_, _, ready.outcomes, ?_, ?_, ?_⟩, ready.buffer, ready.holds.pos,
    ready.returned, ready.holds.size, ?_⟩
  · have order := nextSized.order.length_eq
    rw [List.length_range] at order
    rw [ready.outcomes, order, List.length_append, List.length_replicate,
      List.length_singleton]
    exact Nat.sub_add_cancel (Nat.div_pos
      (Nat.le_mul_of_pos_right _ (Nat.two_pow_pos power)) (by decide))
  · refine List.flatMap_eq_nil_iff.mpr fun ended member => ?_
    rw [List.eq_of_mem_replicate member]
    rfl
  · cases next.compress with
    | true => rfl
    | false => rfl
  · rw [ready.holds.size]
    exact Prod.ext ready.holds.format ready.holds.bytes

/-- Two sectors of zeros. -/
def blankInput (compress : Bool) (start : Int) (order : List Nat) :
    BlockInput where
  compress := compress
  start := start
  block := FlatMemory.read (fun _ => 0) 0 (sectorSize * 2)
  order := order
  buffers address := ⟨address, minSize, fun _ => 0⟩

theorem blankInput_sized (compress : Bool) {start : Int} {order : List Nat}
    (aligned : start % 4096 = 0) (both : order.Perm [0, 1]) :
    (blankInput compress start order).Sized (sectorSize * 2 ^ 1) := by
  refine ⟨aligned, ?_, both, ?_⟩
  · unfold blankInput
    rw [FlatMemory.length_read, Nat.pow_one]
  · intro index below
    have inside : sectorSize * index ≤ sectorSize * 2 := by
      simp only [sectorSize] at below ⊢
      omega
    have room : sectorSize ≤ sectorSize * 2 - sectorSize * index := by
      simp only [sectorSize] at below ⊢
      omega
    unfold blankInput FileBytes.pread
    rw [FlatMemory.drop_read _ inside, FlatMemory.take_read _ room]
    unfold FlatMemory.read
    exact List.map_congr_left fun _ _ => rfl

/-- After a block that is compressed, one that is not and whose second part
comes first. -/
theorem sector_blocks_twice :
    let history := [blankInput true 0 [0, 1]]
    let before := history.foldl (takeBlock (.ofFile []))
      ((create 0).setup (sectorSize * 2 ^ 1) 1 0 0, .initial)
    let received := before.1.receive (.ofFile []) before.2
      (blankInput false 4096 [1, 0])
    (ready (.ofFile []) received).1.pos = 4096 :=
  (@sector_blocks (.ofFile []) (fun _ _ => rfl) 0 1 0 0 1 .initial
    (by decide) [blankInput true 0 [0, 1]] (blankInput false 4096 [1, 0])
    (List.forall_mem_cons.mpr
      ⟨blankInput_sized false rfl (List.Perm.swap _ _ _),
        List.forall_mem_singleton.mpr
          (blankInput_sized true rfl (List.Perm.refl _))⟩) 0).2.2.1

end Sector

end Maxcso
