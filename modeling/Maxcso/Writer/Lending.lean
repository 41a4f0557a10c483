import Mathlib.Algebra.BigOperators.Group.Finset.Basic
import Maxcso.Sector.Lending
import Maxcso.Writer.Keeping

/-!
# The writer's books

The buffers that the sector objects hold are lent to them.  Every function of
the writer keeps these books: what it takes from the pool or is given is in a
sector object, or has been released, unless it reports a failure.
-/

namespace Maxcso

/-- The sector object that a call is about is one of those that the
constructor made. -/
def OutputCall.Named : OutputCall → Prop
  | .pad id _ _ | .sectorReady id _ => id < queueSize
  | _ => True

namespace Output

/-- The buffers that the sector objects hold. -/
def held (output : Output) : Multiset Nat :=
  ∑ id ∈ Finset.range queueSize, (output.sectors id).held

/-- All containers are about sector objects that the constructor made. -/
structure Named (output : Output) : Prop where
  free : ∀ id ∈ output.freeSectors, id < queueSize
  pending : ∀ entry ∈ output.pendingSectors, entry.2 < queueSize
  partials : ∀ entry ∈ output.partialSectors, entry.2 < queueSize
  jobs : ∀ job ∈ output.jobs, job.sector < queueSize
  writes : ∀ write ∈ output.dataWrites, ∀ id ∈ write.sectors, id < queueSize

/-- The sector objects and where they are. -/
structure SameSectors (output other : Output) : Prop where
  sectors : other.sectors = output.sectors
  free : other.freeSectors = output.freeSectors
  pending : other.pendingSectors = output.pendingSectors
  partials : other.partialSectors = output.partialSectors
  jobs : other.jobs = output.jobs
  writes : other.dataWrites = output.dataWrites

/-- What the sector objects hold is lent to them, beside what others have. -/
structure Books (output : Output) (pool : BufferPool)
    (others : Multiset Nat) : Prop where
  named : output.Named
  tidy : ∀ id, (output.sectors id).Tidy
  lends : pool.Lends (output.held + others)

/-- The books after a function that has lost nothing. -/
structure Closes (result : OutputResult) (others : Multiset Nat) : Prop where
  books : Books result.output result.pool others
  calls : ∀ call ∈ result.calls, call.Named

/-- The books after a function that has lost a buffer only if it reports that
the buffer does not belong to the block. -/
def Settles (result : OutputResult) (others : Multiset Nat) : Prop :=
  ∃ lost, Closes result (lost + others) ∧
    (lost = 0 ∨ .finish false Sector.misplaced ∈ result.calls)

section

variable {output other : Output} {pool pool' : BufferPool}
variable {given kept others : Multiset Nat} {id : SectorId}
variable {sector : Sector} {result : OutputResult}

theorem Closes.settles (closes : Closes result others) :
    Settles result others :=
  ⟨0, by rwa [zero_add], Or.inl rfl⟩

theorem Books.closes (books : Books output pool others) :
    Closes ⟨output, pool, []⟩ others :=
  ⟨books, fun _ member => absurd member List.not_mem_nil⟩

/-- Another sector object holds other buffers. -/
theorem held_update (inside : id < queueSize) (sector : Sector) :
    ∃ rest, output.held = (output.sectors id).held + rest ∧
      held { output with
        sectors := Function.update output.sectors id sector } =
          sector.held + rest := by
  have member : id ∈ Finset.range queueSize := Finset.mem_range.mpr inside
  refine ⟨∑ other ∈ (Finset.range queueSize).erase id,
    (output.sectors other).held, ?_, ?_⟩
  · exact (Finset.add_sum_erase _ _ member).symm
  · rw [held, ← Finset.add_sum_erase _ _ member]
    dsimp only
    rw [Function.update_self]
    congr 1
    apply Finset.sum_congr rfl
    intro other within
    rw [Function.update_of_ne (Finset.ne_of_mem_erase within)]

/-- An exchange between the pool and others. -/
theorem Books.exchange (books : Books output pool (given + others))
    (exchange : Exchange pool.Lends given pool'.Lends kept) :
    Books output pool' (kept + others) := by
  refine ⟨books.named, books.tidy, ?_⟩
  have lends := books.lends
  rw [← add_assoc] at lends ⊢
  exact exchange.frame_left output.held others lends

/-- An exchange between the pool, a sector object and others. -/
theorem Books.update (books : Books output pool (given + others))
    (inside : id < queueSize) (tidy : sector.Tidy)
    (exchange : Exchange pool.Lends ((output.sectors id).held + given)
      pool'.Lends (sector.held + kept)) :
    Books
      { output with sectors := Function.update output.sectors id sector }
      pool' (kept + others) := by
  have named := books.named
  refine ⟨⟨named.free, named.pending, named.partials, named.jobs,
    named.writes⟩, ?_, ?_⟩
  · intro other
    dsimp only
    by_cases same : other = id
    · rw [same, Function.update_self]
      exact tidy
    · rw [Function.update_of_ne same]
      exact books.tidy other
  · obtain ⟨rest, before, after⟩ := @held_update output id inside sector
    have lends := books.lends
    rw [before] at lends
    rw [after]
    have settled := exchange (rest + others)
    rw [show (output.sectors id).held + given + (rest + others) =
        (output.sectors id).held + rest + (given + others) by abel,
      show sector.held + kept + (rest + others) =
        sector.held + rest + (kept + others) by abel] at settled
    exact settled lends

/-- The books are about the sector objects. -/
theorem Books.carry (books : Books output pool others)
    (sectors : other.sectors = output.sectors) (named : other.Named) :
    Books other pool others := by
  refine ⟨named, ?_, ?_⟩
  · rw [sectors]
    exact books.tidy
  · rw [held, sectors]
    exact books.lends

/-! ## Writing blocks -/

theorem SameSectors.trans {third : Output}
    (before : SameSectors output other) (after : SameSectors other third) :
    SameSectors output third :=
  ⟨after.sectors.trans before.sectors, after.free.trans before.free,
    after.pending.trans before.pending,
    after.partials.trans before.partials, after.jobs.trans before.jobs,
    after.writes.trans before.writes⟩

theorem Books.same (books : Books output pool others)
    (same : SameSectors output other) : Books other pool others := by
  have named := books.named
  refine books.carry same.sectors ⟨?_, ?_, ?_, ?_, ?_⟩
  · rw [same.free]
    exact named.free
  · rw [same.pending]
    exact named.pending
  · rw [same.partials]
    exact named.partials
  · rw [same.jobs]
    exact named.jobs
  · rw [same.writes]
    exact named.writes

theorem layoutSectors_sectors (dstPos : Int) (ids : List SectorId) :
    SameSectors output (output.layoutSectors dstPos ids).output := by
  induction ids generalizing output dstPos with
  | nil => exact ⟨rfl, rfl, rfl, rfl, rfl, rfl⟩
  | cons id rest inductionHypothesis =>
      rw [layoutSectors, updateIndex_eq]
      have stored : SameSectors output
          { output with
            index := Function.update output.index
              (toUint32 ((output.sectors id).pos / 2 ^ output.blockShift))
              (indexWord output.fmt output.indexShift dstPos
                (output.sectors id).bestFmt) } :=
        ⟨rfl, rfl, rfl, rfl, rfl, rfl⟩
      cases refusal output.fmt (output.sectors id).bestFmt with
      | some reason => exact stored
      | none =>
          dsimp only
          split
          · exact stored.trans (inductionHypothesis _)
          · exact stored.trans (inductionHypothesis _)

theorem checkFinish_named : ∀ call ∈ output.checkFinish, call.Named := by
  intro call member
  unfold checkFinish at member
  split at member
  · rw [List.mem_singleton.mp member]
    trivial
  · cases member

theorem flush_sectors (env : Environment) :
    SameSectors output (output.flush env).1 ∧
      ∀ call ∈ (output.flush env).2, call.Named := by
  unfold flush
  split
  · refine ⟨⟨rfl, rfl, rfl, rfl, rfl, rfl⟩, ?_⟩
    intro call member
    rw [List.mem_singleton.mp member]
    trivial
  · split
    · exact ⟨⟨rfl, rfl, rfl, rfl, rfl, rfl⟩, checkFinish_named⟩
    · cases output.fmt with
      | dax =>
          have oversized : ∀ (frames : List Nat),
              ∀ call ∈ frames.map fun _ =>
                OutputCall.finish false
                  "Compressed sector larger than 16 bits",
                call.Named := by
            intro frames call member
            obtain ⟨_, _, same⟩ := List.mem_map.mp member
            rw [← same]
            trivial
          unfold writeDaxIndex
          dsimp only
          split
          · refine ⟨⟨rfl, rfl, rfl, rfl, rfl, rfl⟩, ?_⟩
            intro call member
            rcases List.mem_append.mp member with early | late
            · exact oversized _ call early
            · exact checkFinish_named call late
          · exact ⟨⟨rfl, rfl, rfl, rfl, rfl, rfl⟩, oversized _⟩
      | _ =>
          unfold writeCsoIndex
          dsimp only
          split
          · exact ⟨⟨rfl, rfl, rfl, rfl, rfl, rfl⟩, checkFinish_named⟩
          · exact ⟨⟨rfl, rfl, rfl, rfl, rfl, rfl⟩,
              fun _ member => absurd member List.not_mem_nil⟩

theorem releaseSectors_books (books : Books output pool others)
    {ids : List SectorId} (inside : ∀ id ∈ ids, id < queueSize) :
    Books (output.releaseSectors pool ids).1
      (output.releaseSectors pool ids).2 others := by
  induction ids generalizing output pool with
  | nil => exact books
  | cons id rest inductionHypothesis =>
      have first := inside id List.mem_cons_self
      have released := @Books.update output pool
        ((output.sectors id).release pool).2 0 0 others id
        ((output.sectors id).release pool).1 (by rwa [zero_add]) first
        Sector.tidy_release (by
          rw [add_zero, add_zero, (@Sector.settled_release _ pool).2]
          exact Sector.exchange_release)
      rw [zero_add] at released
      rw [releaseSectors]
      apply inductionHypothesis
      · have named := released.named
        refine released.carry rfl ⟨?_, named.pending, named.partials,
          named.jobs, named.writes⟩
        intro other member
        rcases List.mem_append.mp member with old | new
        · exact named.free other old
        · rw [List.mem_singleton.mp new]
          exact first
      · exact fun other member => inside other (List.mem_cons_of_mem _ member)

theorem handleWrittenSectors_books (books : Books output pool others)
    (success : Bool) {ids : List SectorId}
    (inside : ∀ id ∈ ids, id < queueSize) (nextPos totalWrite : Int) :
    Closes (output.handleWrittenSectors pool success ids nextPos totalWrite)
      others := by
  have released := releaseSectors_books books inside
  unfold handleWrittenSectors
  dsimp only
  split
  · exact released.closes
  · have named := released.named
    refine ⟨released.carry rfl ⟨named.free, named.pending, named.partials,
      named.jobs, named.writes⟩, ?_⟩
    intro call member
    rcases List.mem_cons.mp member with first | rest
    · rw [first]
      trivial
    · rw [List.mem_singleton.mp rest]
      trivial

theorem gather_named {blockSize fuel : Nat} {nextPos : Int}
    {pending : List (Int × SectorId)}
    (inside : ∀ entry ∈ pending, entry.2 < queueSize) :
    (∀ id ∈ (gather blockSize fuel nextPos pending).1, id < queueSize) ∧
      ∀ entry ∈ (gather blockSize fuel nextPos pending).2.1,
        entry.2 < queueSize := by
  induction fuel generalizing nextPos pending with
  | zero => exact ⟨fun _ none => absurd none List.not_mem_nil, inside⟩
  | succ fuel inductionHypothesis =>
      rw [gather]
      cases found : OrderedMap.find nextPos pending with
      | none => exact ⟨fun _ none => absurd none List.not_mem_nil, inside⟩
      | some id =>
          obtain ⟨entry, taken, same⟩ := Option.map_eq_some_iff.mp found
          have later := @inductionHypothesis (nextPos + blockSize)
            (OrderedMap.erase nextPos pending)
            (fun entry member => inside entry (List.mem_of_mem_filter member))
          refine ⟨?_, later.2⟩
          intro other member
          rcases List.mem_cons.mp member with first | rest
          · rw [first, ← same]
            exact inside entry (List.mem_of_find?_eq_some taken)
          · exact later.1 other rest

theorem writeFrom_books (books : Books output pool others)
    (env : Environment) (inside : id < queueSize) :
    Closes (output.writeFrom env pool id) others := by
  have named := books.named
  unfold writeFrom
  dsimp only
  obtain ⟨gathered, remaining⟩ := @gather_named output.blockSize
    (maxBufs - 1) (output.srcPos + output.blockSize) _ named.pending
  generalize gather output.blockSize (maxBufs - 1)
    (output.srcPos + output.blockSize) output.pendingSectors = rest
    at gathered remaining
  have ids : ∀ other ∈ id :: rest.1, other < queueSize :=
    List.forall_mem_cons.mpr ⟨inside, gathered⟩
  have layoutBooks := (@Books.carry output
    { output with pendingSectors := rest.2.1 } pool others books rfl
    ⟨named.free, remaining, named.partials, named.jobs, named.writes⟩).same
      (layoutSectors_sectors output.dstPos (id :: rest.1))
  generalize layoutSectors { output with pendingSectors := rest.2.1 }
    output.dstPos (id :: rest.1) = layout at layoutBooks
  cases layout.failure with
  | some reason =>
      refine ⟨layoutBooks, ?_⟩
      intro call member
      rw [List.mem_singleton.mp member]
      trivial
  | none =>
      dsimp only
      have flushed : Books
            (if layout.output.srcSize ≤ rest.2.2 then
              flush env
                { layout.output with
                  index := Function.update layout.output.index
                    layout.output.totalBlocks
                    (toUint32
                      (layout.dstPos / 2 ^ layout.output.indexShift))
                  stateIndexReady := true }
            else (layout.output, [])).1 pool others ∧
          ∀ call ∈ (if layout.output.srcSize ≤ rest.2.2 then
              flush env
                { layout.output with
                  index := Function.update layout.output.index
                    layout.output.totalBlocks
                    (toUint32
                      (layout.dstPos / 2 ^ layout.output.indexShift))
                  stateIndexReady := true }
            else (layout.output, [])).2, call.Named := by
        split
        · have ready : SameSectors layout.output
              { layout.output with
                index := Function.update layout.output.index
                  layout.output.totalBlocks
                  (toUint32 (layout.dstPos / 2 ^ layout.output.indexShift))
                stateIndexReady := true } :=
            ⟨rfl, rfl, rfl, rfl, rfl, rfl⟩
          exact ⟨layoutBooks.same (ready.trans (flush_sectors env).1),
            (flush_sectors env).2⟩
        · exact ⟨layoutBooks, fun _ none => absurd none List.not_mem_nil⟩
      generalize (if layout.output.srcSize ≤ rest.2.2 then
            flush env
              { layout.output with
                index := Function.update layout.output.index
                  layout.output.totalBlocks
                  (toUint32 (layout.dstPos / 2 ^ layout.output.indexShift))
                stateIndexReady := true }
          else (layout.output, [])) = result at flushed
      obtain ⟨flushBooks, calls⟩ := flushed
      split
      · have handled := handleWrittenSectors_books flushBooks true ids
          rest.2.2 (layout.dstPos - result.1.dstPos)
        refine ⟨handled.books, ?_⟩
        intro call member
        rcases List.mem_append.mp member with early | late
        · exact calls call early
        · exact handled.calls call late
      · split
        · exact ⟨flushBooks, calls⟩
        · have kept := flushBooks.named
          refine ⟨flushBooks.carry rfl ⟨kept.free, kept.pending,
            kept.partials, kept.jobs, ?_⟩, calls⟩
          intro write member
          rcases List.mem_append.mp member with old | new
          · exact kept.writes write old
          · rw [List.mem_singleton.mp new]
            exact ids

theorem handleReadySector_books (books : Books output pool others)
    (env : Environment) {sector : Option SectorId}
    (inside : ∀ id, sector = some id → id < queueSize) :
    Closes (output.handleReadySector env pool sector) others := by
  have named := books.named
  cases sector with
  | some id =>
      unfold handleReadySector
      dsimp only
      split
      · apply Books.closes
        refine books.carry rfl ⟨named.free, ?_, named.partials, named.jobs,
          named.writes⟩
        intro entry member
        rcases OrderedMap.mem_insert.mp member with new | old
        · rw [new.2]
          exact inside id rfl
        · exact named.pending entry old.2
      · exact writeFrom_books books env (inside id rfl)
  | none =>
      unfold handleReadySector
      dsimp only
      have pending := named.pending
      cases queued : output.pendingSectors with
      | nil => exact books.closes
      | cons entry rest =>
          rw [queued] at pending
          dsimp only
          split
          · exact books.closes
          · apply writeFrom_books
            · exact books.carry rfl ⟨named.free,
                fun other member => pending other
                  (List.mem_cons_of_mem _ member),
                named.partials, named.jobs, named.writes⟩
            · exact pending entry List.mem_cons_self

theorem afterProgress_books (books : Books output pool others)
    (env : Environment) (nextPos : Int) :
    Closes (output.afterProgress env pool nextPos) others := by
  have named := books.named
  unfold afterProgress
  split
  · exact ⟨books.carry rfl ⟨named.free, named.pending, named.partials,
      named.jobs, named.writes⟩, checkFinish_named⟩
  · exact handleReadySector_books books env (fun _ none => by cases none)

theorem onDataWritten_books (books : Books output pool others)
    {write : DataWrite} (inside : ∀ id ∈ write.sectors, id < queueSize)
    (result : Int) :
    Closes (output.onDataWritten pool write result) others := by
  have handled := handleWrittenSectors_books books
    (decide (result = write.totalWrite)) inside write.nextPos
    write.totalWrite
  unfold onDataWritten
  dsimp only
  split
  · exact handled
  · refine ⟨handled.books, ?_⟩
    intro call member
    rcases List.mem_append.mp member with early | late
    · exact handled.calls call early
    · rw [List.mem_singleton.mp late]
      trivial

theorem onIndexWritten_books (books : Books output pool others)
    (write : IndexWrite) (result : Int) :
    Closes (output.onIndexWritten pool write result) others := by
  have named := books.named
  unfold onIndexWritten
  split
  · refine ⟨books, ?_⟩
    intro call member
    rw [List.mem_singleton.mp member]
    trivial
  · exact ⟨books.carry rfl ⟨named.free, named.pending, named.partials,
      named.jobs, named.writes⟩, checkFinish_named⟩

/-! ## Accepting sectors -/

theorem takeFree_books (books : Books output pool others) :
    Books output.takeFree.1 pool others ∧ output.takeFree.2 < queueSize := by
  have named := books.named
  unfold takeFree
  cases last : output.freeSectors.getLast? with
  | none =>
      exact ⟨books.carry rfl ⟨named.free, named.pending, named.partials,
        named.jobs, named.writes⟩, Nat.zero_lt_succ _⟩
  | some id =>
      refine ⟨books.carry rfl ⟨?_, named.pending, named.partials, named.jobs,
        named.writes⟩, named.free id (List.mem_of_getLast? last)⟩
      intro other member
      exact named.free other (List.mem_of_mem_dropLast member)

theorem sectorFor_books (books : Books output pool others) (block : Nat) :
    Books (output.sectorFor block).1 pool others ∧
      (output.sectorFor block).2 < queueSize := by
  obtain ⟨taken, inside⟩ := takeFree_books books
  unfold sectorFor
  split
  · cases found : OrderedMap.find block output.partialSectors with
    | some id =>
        obtain ⟨entry, member, same⟩ := Option.map_eq_some_iff.mp found
        refine ⟨books, ?_⟩
        rw [← same]
        exact books.named.partials entry (List.mem_of_find?_eq_some member)
    | none =>
        have named := taken.named
        refine ⟨taken.carry rfl ⟨named.free, named.pending, ?_, named.jobs,
          named.writes⟩, inside⟩
        intro entry member
        rcases OrderedMap.mem_insert.mp member with new | old
        · rw [new.2]
          exact inside
        · exact named.partials entry old.2
  · exact ⟨taken, inside⟩

/-- The buffer that a sector object is given is with it or released, unless
it does not belong to the block. -/
theorem afterProcess_books (env : Environment) (pos : Int) (buffer : Buffer)
    (block : Nat) (inside : id < queueSize)
    (setup : sector.held = (output.sectors id).held) (tidy : sector.Tidy)
    (books : Books output pool ({buffer.address} + others)) :
    Settles
      (output.afterProcess id block (sector.process env pool pos buffer))
      others := by
  obtain ⟨lost, exchange, harmless⟩ :=
    @Sector.exchange_process sector pool env pos buffer tidy
  rw [setup] at exchange
  have updated := books.update inside
    (Sector.tidy_process env pos buffer) exchange
  have named := updated.named
  unfold afterProcess
  generalize sector.process env pool pos buffer = processed
    at updated named harmless
  refine ⟨lost, ?_, ?_⟩
  · dsimp only
    cases processed.2.2 with
    | waiting => exact updated.closes
    | queued =>
        apply Books.closes
        refine updated.carry rfl ⟨named.free, named.pending, named.partials,
          ?_, named.writes⟩
        intro job member
        rcases List.mem_append.mp member with old | new
        · exact named.jobs job old
        · rw [List.mem_singleton.mp new]
          exact inside
    | ready =>
        refine ⟨updated, ?_⟩
        intro call member
        rw [List.mem_singleton.mp member]
        exact inside
    | failed reason =>
        refine ⟨updated, ?_⟩
        intro call member
        rw [List.mem_singleton.mp member]
        trivial
  · refine harmless.imp_right ?_
    intro failed
    dsimp only
    rw [failed]
    exact List.mem_singleton_self _

/-- Another call of a function that is about the same sector object. -/
theorem Settles.push (settles : Settles result others) {call : OutputCall}
    (inside : call.Named) :
    Settles { result with calls := result.calls ++ [call] } others := by
  obtain ⟨lost, closes, harmless⟩ := settles
  refine ⟨lost, ⟨closes.books, ?_⟩, ?_⟩
  · intro other member
    rcases List.mem_append.mp member with old | new
    · exact closes.calls other old
    · rw [List.mem_singleton.mp new]
      exact inside
  · exact harmless.imp_right (List.mem_append_left _)

theorem enqueue_books (env : Environment) (pos : Int) (buffer : Buffer)
    (books : Books output pool ({buffer.address} + others)) :
    Settles (output.enqueue env pool pos buffer) others := by
  unfold enqueue
  dsimp only
  obtain ⟨found, inside⟩ := sectorFor_books books
    (toUint32 (pos / 2 ^ output.blockShift))
  generalize output.sectorFor (toUint32 (pos / 2 ^ output.blockShift)) =
    chosen at found inside
  have setup : (if chosen.1.decompressing then
        (chosen.1.sectors chosen.2).disableCompress
      else chosen.1.sectors chosen.2).held =
        (chosen.1.sectors chosen.2).held ∧
      (if chosen.1.decompressing then
        (chosen.1.sectors chosen.2).disableCompress
      else chosen.1.sectors chosen.2).Tidy := by
    have tidy := found.tidy chosen.2
    split
    · exact ⟨rfl, tidy⟩
    · exact ⟨rfl, tidy⟩
  have processed := afterProcess_books env pos buffer
    (toUint32 (pos / 2 ^ output.blockShift)) inside setup.1 setup.2 found
  split
  · exact processed.push inside
  · exact processed

theorem pad_books (env : Environment) (block : Nat) (padPos : Int)
    (inside : id < queueSize) (books : Books output pool others) :
    Settles (output.pad env pool id block padPos) others := by
  unfold pad
  dsimp only
  split
  · have taken := @Books.exchange output pool _ 0 _ others
      (by rwa [zero_add]) (BufferPool.exchange_alloc env.heap)
    exact (@afterProcess_books output _ others id (output.sectors id) env
      padPos
      { (pool.alloc env.heap).1 with
        memory := FlatMemory.write (pool.alloc env.heap).1.memory 0
          (List.replicate sectorSize 0) }
      block inside rfl (books.tidy id) taken).push inside
  · exact books.closes.settles

theorem sectorReady_books (env : Environment) (block : Nat)
    (inside : id < queueSize) (books : Books output pool others) :
    Closes (output.sectorReady env pool id block) others := by
  have named := books.named
  unfold sectorReady
  dsimp only
  apply handleReadySector_books
  · split
    · refine books.carry rfl ⟨named.free, named.pending, ?_, named.jobs,
        named.writes⟩
      intro entry member
      exact named.partials entry (List.mem_of_mem_filter member)
    · exact books
  · intro other same
    rw [← Option.some.inj same]
    exact inside

theorem onCompressed_books (env : Environment) {job : CompressJob}
    (status : Int) (inside : job.sector < queueSize)
    (books : Books output pool others) :
    Closes (output.onCompressed env pool job status) others := by
  unfold onCompressed
  split
  · refine ⟨books, ?_⟩
    intro call member
    rw [List.mem_singleton.mp member]
    trivial
  · have compressed := @Books.update output pool _ 0 0 others job.sector _
      (by rwa [zero_add]) inside
      (Sector.tidy_compressWork env (books.tidy job.sector))
      (by
        rw [add_zero, add_zero]
        exact Sector.exchange_compressWork env)
    rw [zero_add] at compressed
    refine ⟨compressed, ?_⟩
    intro call member
    rw [List.mem_singleton.mp member]
    exact inside

/-! ## Opening -/

theorem held_create (env : Environment) (flags : Nat) :
    (create env flags).held = 0 :=
  Finset.sum_eq_zero fun _ _ => rfl

theorem books_create (env : Environment) (flags : Nat)
    (lends : pool.Lends others) : Books (create env flags) pool others := by
  refine ⟨⟨?_, ?_, ?_, ?_, ?_⟩, fun _ _ => rfl, ?_⟩
  · exact fun id member => List.mem_range.mp member
  · exact fun _ none => absurd none List.not_mem_nil
  · exact fun _ none => absurd none List.not_mem_nil
  · exact fun _ none => absurd none List.not_mem_nil
  · exact fun _ none => absurd none List.not_mem_nil
  · rwa [held_create, zero_add]

section

variable {noFile : Bool} {srcSize : Int} {blockSize : Nat} {fmt : CsoFormat}
variable {origMaxCost lz4MaxCost : Nat}

/-- `SetFile` sets sector objects up, which does not touch their buffers. -/
theorem setFile_sectors (id : SectorId) :
    ((output.setFile noFile srcSize blockSize fmt origMaxCost
        lz4MaxCost).1.sectors id).held = (output.sectors id).held ∧
      ((output.sectors id).Tidy →
        ((output.setFile noFile srcSize blockSize fmt origMaxCost
          lz4MaxCost).1.sectors id).Tidy) := by
  have setup : ∀ (ids : List SectorId) (align : Nat) (sector : Sector),
      (if id ∈ ids then
          sector.setup blockSize align origMaxCost lz4MaxCost
        else sector).held = sector.held ∧
      (sector.Tidy → (if id ∈ ids then
          sector.setup blockSize align origMaxCost lz4MaxCost
        else sector).Tidy) := by
    intro ids align sector
    split
    · exact ⟨rfl, fun tidy => tidy⟩
    · exact ⟨rfl, fun tidy => tidy⟩
  unfold setFile
  dsimp only
  split_ifs
  all_goals first
    | exact setup _ _ _
    | exact ⟨rfl, fun tidy => tidy⟩

theorem held_setFile :
    (output.setFile noFile srcSize blockSize fmt origMaxCost
      lz4MaxCost).1.held = output.held :=
  Finset.sum_congr rfl fun id _ => (setFile_sectors id).1

theorem setFile_named (named : output.Named) :
    (output.setFile noFile srcSize blockSize fmt origMaxCost
        lz4MaxCost).1.Named ∧
      ∀ call ∈ (output.setFile noFile srcSize blockSize fmt origMaxCost
        lz4MaxCost).2, call.Named := by
  have refused : ∀ reason, ∀ call ∈ [OutputCall.finish false reason],
      call.Named := by
    intro reason call member
    rw [List.mem_singleton.mp member]
    trivial
  unfold setFile
  dsimp only
  split_ifs
  all_goals first
    | exact ⟨⟨named.free, named.pending, named.partials, named.jobs,
        named.writes⟩, refused _⟩
    | exact ⟨⟨named.free, named.pending, named.partials, named.jobs,
        named.writes⟩, fun _ none => absurd none List.not_mem_nil⟩

theorem setFile_books (books : Books output pool others) :
    Books (output.setFile noFile srcSize blockSize fmt origMaxCost
      lz4MaxCost).1 pool others := by
  refine ⟨(setFile_named books.named).1,
    fun id => (setFile_sectors id).2 (books.tidy id), ?_⟩
  rw [held_setFile]
  exact books.lends

end

end

end Output

end Maxcso
