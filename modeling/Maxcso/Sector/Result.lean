import Maxcso.Library.RoundUp
import Maxcso.Sector

/-!
# What a sector stores

The outcome of `Compress` and `FinalizeBest` for a block, as a function of
the block and of the results of the compressors, and the states of a sector
while its block is assembled and when it is done.
-/

namespace Maxcso

/-- The best result so far: its format, its size and, if the block is
compressed, its bytes. -/
structure Best where
  format : SectorFormat
  size : Nat
  data : Option Bytes
  deriving DecidableEq, Repr

/-- The size of a best result is the length of its bytes. -/
def Best.Sized (best : Best) (block : Bytes) : Prop :=
  best.size = (best.data.getD block).length

namespace Sector

/-- The best result that a sector holds. -/
def bestSoFar (sector : Sector) : Best where
  format := sector.bestFmt
  size := sector.bestSize
  data := sector.best.map fun buffer =>
    FlatMemory.read buffer.memory 0 sector.bestSize

/-- `SubmitTrial` without its buffers. -/
def submit (sector : Sector) (best : Best) (trial : Trial) : Best :=
  if ({ sector with
        bestSize := best.size
        bestFmt := best.format }).better trial.data.length trial.format then
    ⟨trial.format, trial.data.length, some trial.data⟩
  else
    best

/-- `FinalizeBest` without its buffers. -/
def finalize (sector : Sector) (best : Best) (align : Nat) : Best :=
  match best.data with
  | none => best
  | some _ =>
      if sector.blockSize ≤
          ({ sector with bestSize := best.size }).alignedBestSize align ∧
          ¬ hasFlag sector.flags taskflagFmtDax then
        ⟨.orig, sector.blockSize, none⟩
      else
        best

/-- The best result for a block. -/
def bestOf (env : Environment) (sector : Sector) (pos : Int)
    (block : Bytes) : Best :=
  sector.finalize
    ((env.trials pos block).foldl sector.submit ⟨.orig, sector.blockSize, none⟩)
    sector.align

/-- The format and the bytes that are stored for a block. -/
def result (env : Environment) (sector : Sector) (pos : Int)
    (block : Bytes) : SectorFormat × Bytes :=
  ((sector.bestOf env pos block).format,
    (sector.bestOf env pos block).data.getD block)

/-- Two sectors that were set up in the same way. -/
structure SameSetup (sector sector' : Sector) : Prop where
  flags : sector'.flags = sector.flags
  align : sector'.align = sector.align
  origMaxCost : sector'.origMaxCost = sector.origMaxCost
  lz4MaxCost : sector'.lz4MaxCost = sector.lz4MaxCost
  blockSize : sector'.blockSize = sector.blockSize

theorem SameSetup.submit
    {sector sector' : Sector} (same : SameSetup sector sector')
    (best : Best) (trial : Trial) :
    sector'.submit best trial = sector.submit best trial := by
  simp only [Sector.submit, better, same.flags, same.origMaxCost,
    same.lz4MaxCost]
  rfl

theorem SameSetup.finalize
    {sector sector' : Sector} (same : SameSetup sector sector')
    (best : Best) (align : Nat) :
    sector'.finalize best align = sector.finalize best align := by
  simp only [Sector.finalize, alignedBestSize, same.flags, same.blockSize]

theorem SameSetup.bestOf
    {sector sector' : Sector} (same : SameSetup sector sector')
    (env : Environment) (pos : Int) (block : Bytes) :
    sector'.bestOf env pos block = sector.bestOf env pos block := by
  have submits : sector'.submit = sector.submit := by
    funext best trial
    exact same.submit best trial
  rw [Sector.bestOf, Sector.bestOf, same.finalize, same.align,
    same.blockSize, submits]

theorem SameSetup.result
    {sector sector' : Sector} (same : SameSetup sector sector')
    (env : Environment) (pos : Int) (block : Bytes) :
    sector'.result env pos block = sector.result env pos block := by
  rw [Sector.result, Sector.result, same.bestOf]

theorem SameSetup.trans
    {first second third : Sector} (before : SameSetup first second)
    (after : SameSetup second third) :
    SameSetup first third :=
  ⟨after.flags.trans before.flags, after.align.trans before.align,
    after.origMaxCost.trans before.origMaxCost,
    after.lz4MaxCost.trans before.lz4MaxCost,
    after.blockSize.trans before.blockSize⟩

/-- What compressing does not touch. -/
structure SameBlock (sector sector' : Sector) : Prop where
  setup : SameSetup sector sector'
  busy : sector'.busy = sector.busy
  pos : sector'.pos = sector.pos
  buffer : sector'.buffer = sector.buffer

theorem SameBlock.refl (sector : Sector) : SameBlock sector sector :=
  ⟨⟨rfl, rfl, rfl, rfl, rfl⟩, rfl, rfl, rfl⟩

/-- A new best result leaves the block alone. -/
theorem sameBlock_withBest
    (sector : Sector) (best : Option Buffer) (size : Nat)
    (format : SectorFormat) :
    SameBlock sector
      { sector with bestSize := size, best := best, bestFmt := format } :=
  ⟨⟨rfl, rfl, rfl, rfl, rfl⟩, rfl, rfl, rfl⟩

theorem SameBlock.trans
    {first second third : Sector} (before : SameBlock first second)
    (after : SameBlock second third) :
    SameBlock first third :=
  ⟨before.setup.trans after.setup, after.busy.trans before.busy,
    after.pos.trans before.pos, after.buffer.trans before.buffer⟩

/-- `SubmitTrial` of a result that has been written to a fresh buffer. -/
theorem runTrial_best
    (heap : Nat → Nat → UInt8) (sector : Sector) (pool : BufferPool)
    (trial : Trial) :
    (runTrial heap (sector, pool) trial).1.bestSoFar =
        sector.submit sector.bestSoFar trial ∧
      SameBlock sector (runTrial heap (sector, pool) trial).1 ∧
      (runTrial heap (sector, pool) trial).2.bufferSize =
        pool.bufferSize := by
  have size := BufferPool.alloc_bufferSize heap pool
  unfold runTrial submitTrial Sector.submit
  by_cases wins : sector.better trial.data.length trial.format = true
  · have wins' : ({ sector with
        bestSize := sector.bestSoFar.size
        bestFmt := sector.bestSoFar.format }).better trial.data.length
          trial.format = true := wins
    rw [if_pos wins']
    dsimp only
    rw [if_pos wins]
    refine ⟨?_, sameBlock_withBest _ _ _ _, ?_⟩
    · simp only [bestSoFar, Option.map_some, FlatMemory.read_write_self]
    · cases sector.best with
      | none => exact size
      | some best => exact size
  · have loses : ¬ ({ sector with
        bestSize := sector.bestSoFar.size
        bestFmt := sector.bestSoFar.format }).better trial.data.length
          trial.format = true := wins
    rw [if_neg loses]
    dsimp only
    rw [if_neg wins]
    exact ⟨rfl, SameBlock.refl _, size⟩

theorem compressWith_best
    (heap : Nat → Nat → UInt8) (sector : Sector) (pool : BufferPool)
    (trials : List Trial) :
    (sector.compressWith heap pool trials).1.bestSoFar =
        trials.foldl sector.submit sector.bestSoFar ∧
      SameBlock sector (sector.compressWith heap pool trials).1 ∧
      (sector.compressWith heap pool trials).2.bufferSize =
        pool.bufferSize := by
  induction trials generalizing sector pool with
  | nil => exact ⟨rfl, SameBlock.refl _, rfl⟩
  | cons trial trials inductionHypothesis =>
      obtain ⟨best, same, size⟩ := runTrial_best heap sector pool trial
      obtain ⟨best', same', size'⟩ :=
        inductionHypothesis (runTrial heap (sector, pool) trial).1
          (runTrial heap (sector, pool) trial).2
      have submits :
          (runTrial heap (sector, pool) trial).1.submit = sector.submit := by
        funext best trial
        exact same.setup.submit best trial
      rw [best, submits] at best'
      exact ⟨best', same.trans same', size'.trans size⟩

theorem finalizeBest_best
    (sector : Sector) (pool : BufferPool) (align : Nat) :
    (sector.finalizeBest pool align).1.bestSoFar =
        sector.finalize sector.bestSoFar align ∧
      SameBlock sector (sector.finalizeBest pool align).1 ∧
      (sector.finalizeBest pool align).2.bufferSize = pool.bufferSize := by
  obtain ⟨flags, alignment, origMaxCost, lz4MaxCost, busy, enqueued,
    compress, blockSize, readySize, pos, buffer, best, bestSize, bestFmt⟩ :=
    sector
  cases best with
  | none => exact ⟨rfl, SameBlock.refl _, rfl⟩
  | some best =>
      simp only [finalizeBest, Sector.finalize, bestSoFar, Option.map_some]
      split
      · rename_i reverts
        exact ⟨(if_pos reverts).symm, sameBlock_withBest _ _ _ _, rfl⟩
      · rename_i keeps
        exact ⟨(if_neg keeps).symm, SameBlock.refl _, rfl⟩

theorem submit_sized
    (sector : Sector) {block : Bytes} {best : Best}
    (sized : best.Sized block) (trial : Trial) :
    (sector.submit best trial).Sized block := by
  unfold Sector.submit
  split
  · exact rfl
  · exact sized

theorem foldl_submit_sized
    (sector : Sector) {block : Bytes} (trials : List Trial) {best : Best}
    (sized : best.Sized block) :
    (trials.foldl sector.submit best).Sized block := by
  induction trials generalizing best with
  | nil => exact sized
  | cons trial trials inductionHypothesis =>
      exact inductionHypothesis (submit_sized sector sized trial)

theorem bestOf_sized
    (env : Environment) (sector : Sector) (pos : Int) {block : Bytes}
    (whole : block.length = sector.blockSize) :
    (sector.bestOf env pos block).Sized block := by
  have submitted :=
    foldl_submit_sized sector (env.trials pos block)
      (show Best.Sized ⟨.orig, sector.blockSize, none⟩ block from whole.symm)
  unfold bestOf Sector.finalize
  split
  · exact submitted
  · split
    · exact whole.symm
    · exact submitted

/-- The best result is the block itself or one of the trials. -/
theorem foldl_submit_cases
    (sector : Sector) (trials : List Trial) (best : Best) :
    trials.foldl sector.submit best = best ∨
      ∃ trial ∈ trials, trials.foldl sector.submit best =
        ⟨trial.format, trial.data.length, some trial.data⟩ := by
  induction trials generalizing best with
  | nil => exact Or.inl rfl
  | cons trial trials inductionHypothesis =>
      rcases inductionHypothesis (sector.submit best trial) with
        same | ⟨winner, member, same⟩
      · rw [List.foldl_cons, same]
        unfold Sector.submit
        split
        · exact Or.inr ⟨trial, List.mem_cons_self, rfl⟩
        · exact Or.inl rfl
      · exact Or.inr ⟨winner, List.mem_cons_of_mem trial member, same⟩

/-- What is stored is the block itself, or a trial that is small enough. -/
theorem result_cases
    (env : Environment) (sector : Sector) (pos : Int) (block : Bytes) :
    sector.result env pos block = (.orig, block) ∨
      ∃ trial ∈ env.trials pos block,
        sector.result env pos block = (trial.format, trial.data) ∧
          (hasFlag sector.flags taskflagFmtDax = false →
            ({ sector with
              bestSize := trial.data.length }).alignedBestSize sector.align <
                sector.blockSize) := by
  unfold result bestOf
  rcases foldl_submit_cases sector (env.trials pos block)
      ⟨.orig, sector.blockSize, none⟩ with same | ⟨trial, member, same⟩
  · rw [same]
    exact Or.inl rfl
  · rw [same]
    unfold Sector.finalize
    dsimp only
    split
    · exact Or.inl rfl
    · rename_i small
      refine Or.inr ⟨trial, member, rfl, fun notDax => ?_⟩
      by_contra large
      exact small ⟨Nat.not_lt.mp large, by simp [notDax]⟩

theorem alignedBestSize_eq
    {sector : Sector} {align : Nat} (positive : 0 < align)
    (small : sector.bestSize + align ≤ 2 ^ 32) :
    sector.alignedBestSize align = RoundUp.roundUp align sector.bestSize := by
  unfold alignedBestSize RoundUp.roundUp
  by_cases whole : sector.bestSize % align = 0
  · rw [if_neg (not_not.mpr whole), if_pos whole]
  · have below := Nat.mod_lt sector.bestSize positive
    rw [if_pos whole, if_neg whole, Nat.mod_eq_of_lt (by omega)]
    omega

/-- The bytes of the best result of a sector that holds a block. -/
theorem bestBytes_bestSoFar
    {sector : Sector} {buffer : Buffer} {block : Bytes}
    (held : sector.buffer = some buffer)
    (content : FlatMemory.read buffer.memory 0 block.length = block)
    (sized : sector.bestSoFar.Sized block) :
    sector.bestBytes sector.bestSize =
      sector.bestSoFar.data.getD block := by
  cases best : sector.best with
  | none =>
      have size : sector.bestSize = block.length := by
        simpa [Best.Sized, bestSoFar, best] using sized
      rw [bestBytes, best, held, size]
      simpa [bestSoFar, best] using content
  | some best =>
      simp [bestBytes, bestSoFar, best]

theorem take_bestBytes
    (sector : Sector) {count size : Nat} (fits : count ≤ size) :
    (sector.bestBytes size).take count = sector.bestBytes count := by
  unfold bestBytes
  cases sector.best with
  | some best => exact FlatMemory.take_read best.memory fits
  | none =>
      cases sector.buffer with
      | some buffer => exact FlatMemory.take_read buffer.memory fits
      | none => exact List.take_nil

/-! ## The states of a sector -/

/-- A sector that waits for its first call of `Process`. -/
structure Idle (template sector : Sector) : Prop where
  setup : SameSetup template sector
  busy : sector.busy = false
  enqueued : sector.enqueued = false
  compress : sector.compress = true
  readySize : sector.readySize = 0
  best : sector.best = none

/-- A sector that has received a part of the block at `start`. -/
structure Fills (template : Sector) (compress : Bool) (start : Int)
    (part : Bytes) (sector : Sector) : Prop where
  setup : SameSetup template sector
  busy : sector.busy = true
  compress : sector.compress = compress
  enqueued : part.length < template.blockSize → sector.enqueued = false
  readySize : sector.readySize = part.length
  pos : sector.pos = start
  best : sector.best = none
  bestSize : sector.bestSize = template.blockSize
  bestFmt : sector.bestFmt = .orig
  buffer : ∃ buffer, sector.buffer = some buffer ∧
    FlatMemory.read buffer.memory 0 part.length = part

/-- A sector whose block is to be stored as `result`. -/
structure Holds (template : Sector) (start : Int)
    (result : SectorFormat × Bytes) (sector : Sector) : Prop where
  setup : SameSetup template sector
  pos : sector.pos = start
  format : sector.bestFmt = result.1
  size : sector.bestSize = result.2.length
  bytes : sector.bestBytes result.2.length = result.2

/-- How `Process` ends when `length` bytes have been received. -/
def outcome (blockSize : Nat) (compress : Bool) (length : Nat) :
    ProcessOutcome :=
  if length < blockSize then .waiting
  else if compress then .queued
  else .ready

section

variable {template sector : Sector} {start : Int} {compress : Bool}

theorem idle_create
    (flags blockSize align origMaxCost lz4MaxCost : Nat) :
    Idle ((create flags).setup blockSize align origMaxCost lz4MaxCost)
      ((create flags).setup blockSize align origMaxCost lz4MaxCost) :=
  ⟨⟨rfl, rfl, rfl, rfl, rfl⟩, rfl, rfl, rfl, rfl, rfl⟩

theorem idle_release
    (setup : SameSetup template sector) (pool : BufferPool) :
    Idle template (sector.release pool).1 ∧
      (sector.release pool).2.bufferSize = pool.bufferSize := by
  refine ⟨⟨⟨setup.flags, setup.align, setup.origMaxCost, setup.lz4MaxCost,
    setup.blockSize⟩, rfl, rfl, rfl, rfl, rfl⟩, ?_⟩
  unfold release
  cases sector.best <;> cases sector.buffer <;> rfl

/-- The end of `Process`. -/
theorem fills_accept
    {part : Bytes} {buffer : Buffer} (setup : SameSetup template sector)
    (busy : sector.busy = true) (compressing : sector.compress = compress)
    (waiting : sector.enqueued = false)
    (ready : sector.readySize + sectorSize = part.length)
    (pos : sector.pos = start) (best : sector.best = none)
    (bestSize : sector.bestSize = template.blockSize)
    (bestFmt : sector.bestFmt = .orig)
    (assembly : sector.buffer = some buffer)
    (content : FlatMemory.read buffer.memory 0 part.length = part)
    (pool : BufferPool) :
    Fills template compress start part (process.accept sector pool).1 ∧
      (process.accept sector pool).2.1 = pool ∧
      (process.accept sector pool).2.2 =
        outcome template.blockSize compress part.length := by
  unfold process.accept outcome
  dsimp only
  rw [ready, setup.blockSize, waiting, compressing]
  by_cases short : part.length < template.blockSize
  · rw [if_pos short, if_pos short]
    exact ⟨⟨⟨setup.flags, setup.align, setup.origMaxCost, setup.lz4MaxCost,
      rfl⟩, busy, rfl, fun _ => rfl, rfl, pos, best, bestSize, bestFmt, buffer,
      assembly, content⟩, rfl, rfl⟩
  · rw [if_neg short, if_neg short, if_neg Bool.false_ne_true]
    cases compress with
    | true =>
        exact ⟨⟨⟨setup.flags, setup.align, setup.origMaxCost,
          setup.lz4MaxCost, rfl⟩, busy, rfl, fun below => absurd below short, rfl,
          pos, best,
          bestSize, bestFmt, buffer, assembly, content⟩, rfl, rfl⟩
    | false =>
        exact ⟨⟨⟨setup.flags, setup.align, setup.origMaxCost,
          setup.lz4MaxCost, rfl⟩, busy, rfl, fun below => absurd below short, rfl,
          pos, best,
          bestSize, bestFmt, buffer, assembly, content⟩, rfl, rfl⟩

/-- The first call of `Process` for a block. -/
theorem process_idle
    (env : Environment) (pool : BufferPool) (buffer : Buffer)
    (setup : SameSetup template sector) (busy : sector.busy = false)
    (enqueued : sector.enqueued = false)
    (compressing : sector.compress = compress)
    (readySize : sector.readySize = 0) (best : sector.best = none)
    (aligned : start % template.blockSize = 0) :
    let processed := sector.process env pool start buffer
    let content := FlatMemory.read buffer.memory 0 sectorSize
    Fills template compress start content processed.1 ∧
      processed.2.1.bufferSize = pool.bufferSize ∧
      processed.2.2 =
        outcome template.blockSize compress content.length := by
  have length :
      (FlatMemory.read buffer.memory 0 sectorSize).length = sectorSize :=
    FlatMemory.length_read _ _ _
  have head : start - start % sector.blockSize = start := by
    rw [setup.blockSize, aligned, Int.sub_zero]
  unfold process
  rw [busy, if_pos Bool.false_ne_true]
  dsimp only
  rw [head]
  by_cases single : sector.blockSize = sectorSize
  · rw [if_pos single]
    obtain ⟨fills, samePool, ends⟩ :=
      @fills_accept template
        { sector with
          busy := true
          pos := start
          bestSize := sector.blockSize
          bestFmt := .orig
          buffer := some buffer }
        start compress (FlatMemory.read buffer.memory 0 sectorSize) buffer
        ⟨setup.flags, setup.align, setup.origMaxCost, setup.lz4MaxCost,
          setup.blockSize⟩
        rfl compressing enqueued (by rw [length, readySize, Nat.zero_add])
        rfl best setup.blockSize rfl rfl (by rw [length]) pool
    exact ⟨fills, by rw [samePool], ends⟩
  · rw [if_neg single]
    obtain ⟨fills, samePool, ends⟩ :=
      @fills_accept template
        { sector with
          busy := true
          pos := start
          bestSize := sector.blockSize
          bestFmt := .orig
          buffer := some (process.copyInto start buffer
            (pool.alloc env.heap).1 start) }
        start compress (FlatMemory.read buffer.memory 0 sectorSize)
        (process.copyInto start buffer (pool.alloc env.heap).1 start)
        ⟨setup.flags, setup.align, setup.origMaxCost, setup.lz4MaxCost,
          setup.blockSize⟩
        rfl compressing enqueued (by rw [length, readySize, Nat.zero_add])
        rfl best setup.blockSize rfl rfl
        (by
          simp only [process.copyInto, Int.sub_self, Int.toNat_zero]
          exact FlatMemory.read_write_self _ _ _)
        ((pool.alloc env.heap).2.release buffer)
    exact ⟨fills, by rw [samePool]; simp, ends⟩

/-- A later call of `Process` for a block. -/
theorem process_fills
    (env : Environment) {pool : BufferPool} (buffer : Buffer)
    {part : Bytes} (fills : Fills template compress start part sector)
    (partial_ : part.length < template.blockSize)
    (room : template.blockSize ≤ pool.bufferSize) :
    let processed := sector.process env pool (start + part.length) buffer
    let content := part ++ FlatMemory.read buffer.memory 0 sectorSize
    Fills template compress start content processed.1 ∧
      processed.2.1.bufferSize = pool.bufferSize ∧
      processed.2.2 =
        outcome template.blockSize compress content.length := by
  obtain ⟨assembly, held, content⟩ := fills.buffer
  have near : process.toUint64 (start + part.length - sector.pos) <
      pool.bufferSize := by
    rw [fills.pos, process.toUint64]
    omega
  unfold process
  rw [if_neg (by simp [fills.busy]), if_pos near, held]
  dsimp only [Option.map_some]
  obtain ⟨filled, samePool, ends⟩ :=
    @fills_accept template
      { sector with
        buffer := some (process.copyInto (start + part.length) buffer
          assembly sector.pos) }
      start compress (part ++ FlatMemory.read buffer.memory 0 sectorSize)
      (process.copyInto (start + part.length) buffer assembly sector.pos)
      ⟨fills.setup.flags, fills.setup.align, fills.setup.origMaxCost,
        fills.setup.lz4MaxCost, fills.setup.blockSize⟩
      fills.busy fills.compress (fills.enqueued partial_)
      (by rw [List.length_append, FlatMemory.length_read, fills.readySize])
      fills.pos fills.best fills.bestSize fills.bestFmt rfl
      (by
        have offset :
            (start + part.length - sector.pos).toNat = part.length := by
          rw [fills.pos]
          omega
        have extended :=
          FlatMemory.read_write_append assembly.memory 0 part.length
            (FlatMemory.read buffer.memory 0 sectorSize)
        rw [content, Nat.zero_add] at extended
        rw [List.length_append]
        simp only [process.copyInto, offset]
        exact extended)
      (pool.release buffer)
  exact ⟨filled, by rw [samePool]; rfl, ends⟩

/-- A complete block that is not compressed. -/
theorem holds_of_fills
    {part : Bytes} (fills : Fills template compress start part sector)
    (whole : part.length = template.blockSize) :
    Holds template start (.orig, part) sector := by
  obtain ⟨buffer, held, content⟩ := fills.buffer
  refine ⟨fills.setup, fills.pos, fills.bestFmt, ?_, ?_⟩
  · rw [fills.bestSize, whole]
  · rw [bestBytes, fills.best, held]
    exact content

/-- The queued work keeps the best result. -/
theorem compressWork_best
    (env : Environment) (pool : BufferPool)
    (initially : sector.bestSoFar = ⟨.orig, sector.blockSize, none⟩) :
    (sector.compressWork env pool).1.bestSoFar =
        sector.bestOf env sector.pos sector.blockBytes ∧
      SameBlock sector (sector.compressWork env pool).1 ∧
      (sector.compressWork env pool).2.bufferSize = pool.bufferSize := by
  obtain ⟨best, same, keeps⟩ :=
    compressWith_best env.heap sector pool
      (env.trials sector.pos sector.blockBytes)
  obtain ⟨best', same', size'⟩ :=
    finalizeBest_best
      (sector.compressWith env.heap pool
        (env.trials sector.pos sector.blockBytes)).1
      (sector.compressWith env.heap pool
        (env.trials sector.pos sector.blockBytes)).2
      sector.align
  refine ⟨best'.trans ?_, same.trans same', size'.trans keeps⟩
  rw [best, initially, same.setup.finalize]
  rfl

/-- The queued work on a complete block. -/
theorem compressWork_holds
    (env : Environment) (pool : BufferPool) {part : Bytes}
    (fills : Fills template compress start part sector)
    (whole : part.length = template.blockSize) :
    Holds template start (template.result env start part)
        (sector.compressWork env pool).1 ∧
      (sector.compressWork env pool).2.bufferSize = pool.bufferSize := by
  obtain ⟨buffer, held, content⟩ := fills.buffer
  have bytes : sector.blockBytes = part := by
    rw [blockBytes, held]
    dsimp only
    rw [fills.setup.blockSize, ← whole]
    exact content
  have initially : sector.bestSoFar = ⟨.orig, sector.blockSize, none⟩ := by
    rw [bestSoFar, fills.best, fills.bestFmt, fills.bestSize,
      fills.setup.blockSize]
    rfl
  obtain ⟨best, kept, keeps⟩ := compressWork_best env pool initially
  have outcome : (sector.compressWork env pool).1.bestSoFar =
      template.bestOf env start part := by
    rw [best, fills.pos, bytes, ← fills.setup.bestOf]
  have sized := bestOf_sized env template start whole
  have size : (sector.compressWork env pool).1.bestSize =
      (template.result env start part).2.length :=
    (congrArg Best.size outcome).trans sized
  refine ⟨⟨fills.setup.trans kept.setup, kept.pos.trans fills.pos,
    congrArg Best.format outcome, size, ?_⟩, keeps⟩
  have bytes := bestBytes_bestSoFar (kept.buffer.trans held) content
    (by rw [outcome]; exact sized)
  rw [size, outcome] at bytes
  exact bytes

end

end Sector

end Maxcso
