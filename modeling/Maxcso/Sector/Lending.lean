import Maxcso.Library.Exchange
import Maxcso.Sector.Accounts

/-!
# Buffers that are lent

The pool's side of the accounts: what is free and what is lent are all the
buffers that there are, and no buffer is in two places.  A buffer that is
dropped without being released stays lent.
-/

namespace Maxcso

namespace BufferPool

/-- The buffers at these addresses are lent. -/
structure Lends (pool : BufferPool) (lent : Multiset Nat) : Prop where
  counted : pool.allocations = pool.free.length + lent.card
  distinct : (addresses pool.free + lent).Nodup
  placed : ∀ address ∈ addresses pool.free + lent,
    address < pool.nextAddress

/-- How many buffers have been given back to the system. -/
def dropped (pool : BufferPool) : Int := pool.nextAddress - pool.allocations

section

variable {pool pool' : BufferPool} {lent given kept : Multiset Nat}

theorem lends_initial : initial.Lends 0 :=
  ⟨rfl, Multiset.nodup_zero, fun _ member => absurd member
    (Multiset.notMem_zero _)⟩

@[simp]
theorem alloc_dropped (heap : Nat → Nat → UInt8) :
    (pool.alloc heap).2.dropped = pool.dropped := by
  rcases Pooled.alloc_cases heap pool with ⟨_, _, next⟩ | ⟨_, _, next⟩
  · rw [next]
    simp only [dropped]
    omega
  · rw [next]
    rfl

@[simp]
theorem release_dropped (buffer : Buffer) :
    (pool.release buffer).dropped = pool.dropped := rfl

theorem card_addresses (buffers : List Buffer) :
    (addresses buffers).card = buffers.length := by
  rw [addresses, Multiset.coe_card, List.length_map]

theorem exchange_of_settled
    (settled : Settled pool given pool' kept)
    (dropped : pool'.dropped = pool.dropped) :
    Exchange pool.Lends given pool'.Lends kept := by
  intro others lends
  obtain ⟨count, next, same⟩ := settled
  have whole : addresses pool'.free + (kept + others) =
      addresses pool.free + (given + others) +
        (List.range' pool.nextAddress count : List Nat) := by
    rw [← add_assoc, same]
    abel
  have total := congrArg Multiset.card whole
  simp only [Multiset.card_add, card_addresses, Multiset.coe_card,
    List.length_range'] at total
  have counted := lends.counted
  simp only [BufferPool.dropped, Multiset.card_add] at dropped counted
  refine ⟨?_, ?_, ?_⟩
  · rw [Multiset.card_add]
    omega
  · rw [whole, Multiset.nodup_add]
    refine ⟨lends.distinct, List.nodup_range', ?_⟩
    rw [Multiset.disjoint_left]
    intro address member new
    have old := lends.placed address member
    have least := (List.mem_range'_1.mp new).1
    omega
  · intro address member
    rw [whole, Multiset.mem_add] at member
    rcases member with old | new
    · have placed := lends.placed address old
      omega
    · have most := (List.mem_range'_1.mp new).2
      omega

theorem exchange_alloc (heap : Nat → Nat → UInt8) :
    Exchange pool.Lends 0 (pool.alloc heap).2.Lends
      {(pool.alloc heap).1.address} :=
  exchange_of_settled (Settled.alloc heap pool) (alloc_dropped heap)

theorem exchange_release (buffer : Buffer) :
    Exchange pool.Lends {buffer.address} (pool.release buffer).Lends 0 :=
  exchange_of_settled (Settled.release pool buffer) rfl

/-- A resize drops what is free, and succeeds when nothing is lent. -/
theorem Lends.resize (lends : pool.Lends lent) (newSize : Nat) :
    (pool.setBufferSize newSize).1.Lends lent ∧
      ((pool.setBufferSize newSize).2 = true ↔ lent = 0) := by
  have counted : pool.clear.allocations = lent.card := by
    have total := lends.counted
    simp only [clear]
    omega
  have cleared : pool.clear.Lends lent := by
    have within : lent ≤ addresses pool.free + lent :=
      Multiset.le_add_left _ _
    refine ⟨?_, ?_, ?_⟩
    · rw [counted]
      exact (Nat.zero_add _).symm
    · rw [show addresses pool.clear.free + lent = lent from zero_add _]
      exact Multiset.nodup_of_le within lends.distinct
    · intro address member
      rw [show addresses pool.clear.free + lent = lent from zero_add _]
        at member
      exact lends.placed address (Multiset.mem_of_le within member)
  unfold setBufferSize
  dsimp only
  by_cases none : pool.clear.allocations = 0
  · rw [if_pos none]
    have empty : lent = 0 := by
      rw [← Multiset.card_eq_zero, ← counted, none]
    exact ⟨⟨cleared.counted, cleared.distinct, cleared.placed⟩,
      iff_of_true rfl empty⟩
  · rw [if_neg none]
    refine ⟨cleared, iff_of_false Bool.false_ne_true ?_⟩
    intro empty
    rw [counted, empty] at none
    exact none rfl

end

end BufferPool

/-! ## Sectors -/

namespace Sector

/-- What `Process` reports for a position outside of the block. -/
def misplaced : String := "Invalid buffer pos for this sector block"

/-- A sector that is not in use has no block. -/
def Tidy (sector : Sector) : Prop :=
  sector.busy = false → sector.buffer = none

section

variable {sector : Sector} {pool : BufferPool}

theorem accept_dropped (sector : Sector) (pool : BufferPool) :
    (process.accept sector pool).2.1.dropped = pool.dropped := by
  rw [(settled_accept sector pool).2]

theorem accept_busy (sector : Sector) (pool : BufferPool) :
    (process.accept sector pool).1.busy = sector.busy := by
  unfold process.accept
  dsimp only
  split
  · rfl
  · split
    · rfl
    · split
      · rfl
      · rfl

theorem process_dropped
    (env : Environment) (pos : Int) (buffer : Buffer) :
    (sector.process env pool pos buffer).2.1.dropped = pool.dropped := by
  unfold process
  split
  · dsimp only
    split
    · exact accept_dropped _ _
    · exact (accept_dropped _ _).trans
        ((BufferPool.release_dropped _).trans (BufferPool.alloc_dropped _))
  · split
    · exact (accept_dropped _ _).trans (BufferPool.release_dropped _)
    · rfl

theorem process_busy (env : Environment) (pos : Int) (buffer : Buffer) :
    (sector.process env pool pos buffer).1.busy = true := by
  unfold process
  split
  · dsimp only
    split
    · exact accept_busy _ _
    · exact accept_busy _ _
  · rename_i idle
    have busy := not_not.mp idle
    split
    · exact (accept_busy _ _).trans busy
    · exact busy

/-- A position outside of the block is refused, and the buffer is lost. -/
theorem process_far
    (env : Environment) {pos : Int} (buffer : Buffer)
    (busy : sector.busy = true)
    (far : ¬ process.toUint64 (pos - sector.pos) < pool.bufferSize) :
    sector.process env pool pos buffer =
      (sector, pool, .failed misplaced) := by
  unfold process misplaced
  rw [if_neg (by simp [busy]), if_neg far]

/-- A buffer that is passed to a sector is released or kept, unless the
sector fails. -/
theorem exchange_process
    (env : Environment) (pos : Int) (buffer : Buffer)
    (tidy : sector.Tidy) :
    let processed := sector.process env pool pos buffer
    ∃ lost, Exchange pool.Lends (sector.held + {buffer.address})
        processed.2.1.Lends (processed.1.held + lost) ∧
      (lost = 0 ∨ processed.2.2 = .failed misplaced) := by
  intro processed
  by_cases near : sector.busy = true →
      process.toUint64 (pos - sector.pos) < pool.bufferSize
  · refine ⟨0, ?_, Or.inl rfl⟩
    rw [add_zero]
    exact BufferPool.exchange_of_settled
      (settled_process env pos buffer tidy near)
      (process_dropped env pos buffer)
  · obtain ⟨busy, far⟩ := Classical.not_imp.mp near
    have refused := @process_far sector pool env pos buffer busy far
    have same : processed = (sector, pool, .failed misplaced) := refused
    rw [same]
    exact ⟨{buffer.address}, Exchange.refl _ _, Or.inr rfl⟩

theorem tidy_process (env : Environment) (pos : Int) (buffer : Buffer) :
    (sector.process env pool pos buffer).1.Tidy := by
  intro idle
  rw [process_busy] at idle
  cases idle

theorem submitTrial_dropped
    (result : Buffer) (size : Nat) (format : SectorFormat) :
    (sector.submitTrial pool result size format).2.dropped =
      pool.dropped := by
  unfold submitTrial
  split
  · cases sector.best with
    | none => rfl
    | some best => rfl
  · rfl

theorem compressWith_dropped (heap : Nat → Nat → UInt8)
    (trials : List Trial) :
    (sector.compressWith heap pool trials).2.dropped = pool.dropped := by
  induction trials generalizing sector pool with
  | nil => rfl
  | cons trial trials inductionHypothesis =>
      exact inductionHypothesis.trans
        ((submitTrial_dropped _ _ _).trans (BufferPool.alloc_dropped heap))

theorem compressWork_dropped (env : Environment) :
    (sector.compressWork env pool).2.dropped = pool.dropped := by
  unfold compressWork finalizeBest
  have trials := @compressWith_dropped sector pool env.heap
    (env.trials sector.pos sector.blockBytes)
  dsimp only
  split
  · exact trials
  · split
    · exact trials
    · exact trials

theorem exchange_compressWork (env : Environment) :
    Exchange pool.Lends sector.held (sector.compressWork env pool).2.Lends
      (sector.compressWork env pool).1.held :=
  BufferPool.exchange_of_settled (settled_compressWork env)
    (compressWork_dropped env)

/-- What is compressed is still in use, with the same block. -/
theorem tidy_compressWork (env : Environment) (tidy : sector.Tidy) :
    (sector.compressWork env pool).1.Tidy := by
  obtain ⟨_, compressed, _⟩ := compressWith_best env.heap sector pool
    (env.trials sector.pos sector.blockBytes)
  obtain ⟨_, final, _⟩ := finalizeBest_best
    (sector.compressWith env.heap pool
      (env.trials sector.pos sector.blockBytes)).1
    (sector.compressWith env.heap pool
      (env.trials sector.pos sector.blockBytes)).2
    sector.align
  have same : SameBlock sector (sector.compressWork env pool).1 :=
    compressed.trans final
  intro idle
  rw [same.busy] at idle
  rw [same.buffer]
  exact tidy idle

theorem release_dropped :
    (sector.release pool).2.dropped = pool.dropped := by
  unfold release
  cases sector.best with
  | none => cases sector.buffer <;> rfl
  | some best => cases sector.buffer <;> rfl

theorem exchange_release :
    Exchange pool.Lends sector.held (sector.release pool).2.Lends 0 :=
  BufferPool.exchange_of_settled settled_release.1 release_dropped

theorem tidy_release : (sector.release pool).1.Tidy := fun _ => rfl

end

end Sector

end Maxcso
