import Mathlib.Data.List.Nodup
import Maxcso.BufferPool
import Maxcso.Library.Transition

/-!
# Buffers in the wind

Any sequence of calls of the pool, with the buffers that have been handed out
and not been released.
-/

namespace Maxcso

open Transition

/-- A buffer is handed out by `Alloc` or returned by `Release`. -/
inductive Handling where
  | handed (address : Nat)
  | returned (address : Nat)
  deriving DecidableEq, Repr

/-- A call of the pool.  A buffer is released with what its owner wrote. -/
inductive PoolCall where
  | alloc
  | release (address : Nat) (memory : Nat → UInt8)
  | setBufferSize (newSize : Nat)

/-- The pool, the buffers that are outstanding, and the calls so far. -/
structure Pooled where
  pool : BufferPool
  outstanding : List Buffer
  log : List Handling

namespace Pooled

def initial : Pooled := ⟨.initial, [], []⟩

/-- A call under the mutex; only an outstanding buffer can be released. -/
def step (heap : Nat → Nat → UInt8) (pooled : Pooled) :
    PoolCall → Option Pooled
  | .alloc =>
      let (buffer, pool) := pooled.pool.alloc heap
      some
        { pool := pool
          outstanding := buffer :: pooled.outstanding
          log := pooled.log ++ [.handed buffer.address] }
  | .release address memory =>
      (pooled.outstanding.find? (·.address = address)).map fun buffer =>
        { pool := pooled.pool.release { buffer with memory := memory }
          outstanding :=
            pooled.outstanding.eraseP (·.address = address)
          log := pooled.log ++ [.returned address] }
  | .setBufferSize newSize =>
      some { pooled with pool := (pooled.pool.setBufferSize newSize).1 }

/-- The last that happened to a buffer is that it was handed out. -/
def Held (log : List Handling) (address : Nat) : Prop :=
  ∃ before after, log = before ++ .handed address :: after ∧
    .returned address ∉ after

/-- No buffer is handed out twice without a release in between. -/
def HandedOutOnce (log : List Handling) : Prop :=
  ∀ before between after address,
    log = before ++ .handed address :: between ++ .handed address :: after →
      .returned address ∈ between

def buffers (pooled : Pooled) : List Buffer :=
  pooled.outstanding ++ pooled.pool.free

structure Sound (pooled : Pooled) : Prop where
  counted : pooled.pool.allocations = pooled.buffers.length
  distinct : (pooled.buffers.map (·.address)).Nodup
  placed : ∀ buffer ∈ pooled.buffers,
    buffer.address < pooled.pool.nextAddress
  capacity : ∀ buffer ∈ pooled.buffers,
    buffer.capacity = pooled.pool.bufferSize
  minimum : minSize ≤ pooled.pool.bufferSize
  logged : ∀ address, Held pooled.log address →
    address ∈ pooled.outstanding.map (·.address)
  once : HandedOutOnce pooled.log

section

variable {log : List Handling} {address : Nat} {pooled : Pooled}

/-- What is held after one more call is held because of that call, or was
held before. -/
theorem Held.of_append {last : Handling} (held : Held (log ++ [last]) address) :
    last = .handed address ∨ (last ≠ .returned address ∧ Held log address) := by
  obtain ⟨before, after, whole, absent⟩ := held
  rcases List.eq_nil_or_concat after with rfl | ⟨rest, final, rfl⟩
  · obtain ⟨_, same⟩ := List.append_inj' whole rfl
    exact Or.inl (List.singleton_inj.mp same)
  · rw [List.concat_eq_append, ← List.cons_append, ← List.append_assoc]
      at whole
    obtain ⟨rfl, same⟩ := List.append_inj' whole rfl
    obtain rfl := List.singleton_inj.mp same
    rw [List.concat_eq_append, List.mem_append, not_or] at absent
    refine Or.inr ⟨?_, before, rest, rfl, absent.1⟩
    rintro rfl
    exact absent.2 (List.mem_singleton_self _)

/-- One more call keeps the rule when it does not hand out what is held. -/
theorem HandedOutOnce.append (once : HandedOutOnce log) {last : Handling}
    (apart : ∀ address, last = .handed address → ¬ Held log address) :
    HandedOutOnce (log ++ [last]) := by
  intro before between after address whole
  rcases List.eq_nil_or_concat after with rfl | ⟨rest, final, rfl⟩
  · obtain ⟨same, same'⟩ := List.append_inj' whole rfl
    by_contra absent
    exact apart address (List.singleton_inj.mp same')
      ⟨before, between, same, absent⟩
  · rw [List.concat_eq_append, ← List.cons_append, ← List.append_assoc]
      at whole
    exact once before between rest address
      (List.append_inj' whole rfl).1

/-! ## Steps -/

theorem sound_initial : initial.Sound where
  counted := rfl
  distinct := List.nodup_nil
  placed := nofun
  capacity := nofun
  minimum := Nat.le_refl _
  logged := by
    rintro address ⟨before, after, whole, _⟩
    exact absurd whole (by simp [initial])
  once := by
    intro before between after address whole
    exact absurd whole (by simp [initial])

/-- `Alloc` takes a free buffer, or a new one of the current size. -/
theorem alloc_cases (heap : Nat → Nat → UInt8) (pool : BufferPool) :
    (pool.free = [] ∧
        (pool.alloc heap).1 =
          ⟨pool.nextAddress, pool.bufferSize, heap pool.nextAddress⟩ ∧
        (pool.alloc heap).2 =
          { pool with
            allocations := pool.allocations + 1
            nextAddress := pool.nextAddress + 1 }) ∨
      ∃ free, pool.free = free ++ [(pool.alloc heap).1] ∧
        (pool.alloc heap).2 = { pool with free := free } := by
  rcases List.eq_nil_or_concat pool.free with none | ⟨free, last, same⟩
  · refine Or.inl ⟨none, ?_⟩
    unfold BufferPool.alloc
    rw [none]
    exact ⟨rfl, rfl⟩
  · refine Or.inr ⟨free, ?_⟩
    rw [List.concat_eq_append] at same
    have found : pool.free.getLast? = some last := by
      rw [same, List.getLast?_concat]
    unfold BufferPool.alloc
    rw [found]
    refine ⟨same, ?_⟩
    rw [same, List.dropLast_concat]

/-- The outstanding buffers around the one that is released. -/
theorem outstanding_split {buffer : Buffer}
    (found : pooled.outstanding.find? (·.address = address) = some buffer) :
    ∃ before after, pooled.outstanding = before ++ buffer :: after ∧
      pooled.outstanding.eraseP (·.address = address) = before ++ after ∧
      buffer.address = address := by
  obtain ⟨same, before, after, whole, others⟩ :=
    List.find?_eq_some_iff_append.mp found
  have other : ∀ held ∈ before, ¬ decide (held.address = address) = true := by
    intro held member
    simpa using others held member
  refine ⟨before, after, whole, ?_, of_decide_eq_true same⟩
  rw [whole, List.eraseP_append_right _ other]
  exact congrArg (before ++ ·) (List.eraseP_cons_of_pos same)

/-- A resize drops the free buffers and succeeds when there are no others. -/
theorem Sound.resize (sound : pooled.Sound) (newSize : Nat) :
    ((pooled.outstanding = [] ∧
        pooled.pool.setBufferSize newSize =
          ({ pooled.pool with
              bufferSize := max newSize minSize
              allocations := 0
              free := [] }, true)) ∨
      (pooled.outstanding ≠ [] ∧
        pooled.pool.setBufferSize newSize =
          ({ pooled.pool with
              allocations := pooled.outstanding.length
              free := [] }, false))) := by
  have left : pooled.pool.clear.allocations = pooled.outstanding.length := by
    have counted := sound.counted
    rw [buffers, List.length_append] at counted
    rw [show pooled.pool.clear.allocations =
      pooled.pool.allocations - pooled.pool.free.length from rfl]
    omega
  have cleared : pooled.pool.clear =
      { pooled.pool with
        allocations := pooled.outstanding.length
        free := [] } := by
    rw [← left]
    rfl
  unfold BufferPool.setBufferSize
  cases held : pooled.outstanding with
  | nil =>
      rw [held] at left cleared
      refine Or.inl ⟨rfl, ?_⟩
      simp only [cleared]
      rfl
  | cons buffer others =>
      rw [held] at left cleared
      refine Or.inr ⟨nofun, ?_⟩
      simp only [cleared]
      exact if_neg (Nat.succ_ne_zero _)

/-- What identifies a buffer, whatever is in it. -/
def places (pooled : Pooled) : List (Nat × Nat) :=
  pooled.buffers.map fun buffer => (buffer.address, buffer.capacity)

/-- A call that only moves buffers. -/
theorem Sound.moved (sound : pooled.Sound) {next : Pooled}
    (moved : next.places.Perm pooled.places)
    (allocations : next.pool.allocations = pooled.pool.allocations)
    (size : next.pool.bufferSize = pooled.pool.bufferSize)
    (nextAddress : next.pool.nextAddress = pooled.pool.nextAddress)
    (logged : ∀ address, Held next.log address →
      address ∈ next.outstanding.map (·.address))
    (once : HandedOutOnce next.log) :
    next.Sound := by
  have length := moved.length_eq
  have addresses := moved.map Prod.fst
  simp only [places, List.length_map, List.map_map] at length addresses
  have before : ∀ buffer ∈ next.buffers, ∃ old ∈ pooled.buffers,
      old.address = buffer.address ∧ old.capacity = buffer.capacity := by
    intro buffer member
    obtain ⟨old, inside, same⟩ := List.mem_map.mp
      (moved.mem_iff.mp (List.mem_map_of_mem member))
    exact ⟨old, inside, congrArg Prod.fst same, congrArg Prod.snd same⟩
  constructor
  · rw [allocations, length]
    exact sound.counted
  · exact addresses.nodup_iff.mpr sound.distinct
  · intro buffer member
    obtain ⟨old, inside, same, _⟩ := before buffer member
    rw [nextAddress, ← same]
    exact sound.placed old inside
  · intro buffer member
    obtain ⟨old, inside, _, same⟩ := before buffer member
    rw [size, ← same]
    exact sound.capacity old inside
  · rw [size]
    exact sound.minimum
  · exact logged
  · exact once

/-- What is held is outstanding, so it cannot be free. -/
theorem Sound.not_held (sound : pooled.Sound) {buffer : Buffer}
    (free : buffer ∈ pooled.pool.free) :
    ¬ Held pooled.log buffer.address := by
  intro held
  have distinct := sound.distinct
  rw [buffers, List.map_append] at distinct
  exact List.disjoint_of_nodup_append distinct (sound.logged _ held)
    (List.mem_map_of_mem free)

theorem Sound.alloc (sound : pooled.Sound) (heap : Nat → Nat → UInt8)
    {next : Pooled} (taken : pooled.step heap .alloc = some next) :
    next.Sound := by
  have result : next =
      { pool := (pooled.pool.alloc heap).2
        outstanding := (pooled.pool.alloc heap).1 :: pooled.outstanding
        log := pooled.log ++ [.handed (pooled.pool.alloc heap).1.address] } :=
    (Option.some.inj taken).symm
  subst result
  have logged : ∀ address,
      Held (pooled.log ++ [.handed (pooled.pool.alloc heap).1.address])
          address →
        address ∈ ((pooled.pool.alloc heap).1 ::
          pooled.outstanding).map (·.address) := by
    intro address held
    rcases held.of_append with same | ⟨_, held⟩
    · rw [← Handling.handed.inj same]
      exact List.mem_cons_self
    · exact List.mem_cons_of_mem _ (sound.logged address held)
  rcases alloc_cases heap pooled.pool with
    ⟨none, buffer, pool⟩ | ⟨free, same, pool⟩
  · have all : pooled.buffers = pooled.outstanding := by
      rw [buffers, none, List.append_nil]
    have placed := sound.placed
    have capacity := sound.capacity
    have counted := sound.counted
    have distinct := sound.distinct
    rw [all] at placed capacity counted distinct
    have absent : pooled.pool.nextAddress ∉
        pooled.outstanding.map (·.address) := by
      intro member
      obtain ⟨old, inside, same⟩ := List.mem_map.mp member
      exact absurd (placed old inside) (same ▸ Nat.lt_irrefl _)
    rw [buffer] at logged ⊢
    rw [pool]
    constructor
    · simp [buffers, none, counted]
    · simpa [buffers, none] using ⟨by simpa using absent, distinct⟩
    · simp only [buffers, none, List.append_nil]
      refine List.forall_mem_cons.mpr ⟨Nat.lt_succ_self _, ?_⟩
      intro old member
      exact Nat.lt_succ_of_lt (placed old member)
    · simp only [buffers, none, List.append_nil]
      exact List.forall_mem_cons.mpr ⟨rfl, capacity⟩
    · exact sound.minimum
    · exact logged
    · refine sound.once.append ?_
      rintro address same held
      obtain rfl := Handling.handed.inj same
      exact absent (sound.logged _ held)
  · refine sound.moved ?_ ?_ ?_ ?_ logged ?_
    · simp only [places, buffers, pool]
      rw [same]
      refine List.Perm.map _ ?_
      rw [← List.append_assoc]
      exact (List.perm_append_singleton _ _).symm
    · simp only [pool]
    · simp only [pool]
    · simp only [pool]
    · refine sound.once.append ?_
      rintro address same' held
      obtain rfl := Handling.handed.inj same'
      refine sound.not_held ?_ held
      rw [same]
      simp

theorem Sound.release (sound : pooled.Sound) (heap : Nat → Nat → UInt8)
    {memory : Nat → UInt8} {next : Pooled}
    (taken : pooled.step heap (.release address memory) = some next) :
    next.Sound := by
  obtain ⟨buffer, found, rfl⟩ := Option.map_eq_some_iff.mp taken
  obtain ⟨before, after, whole, erased, same⟩ := outstanding_split found
  refine sound.moved ?_ rfl rfl rfl ?_ ?_
  · simp only [places, buffers, erased, BufferPool.release]
    rw [whole]
    simp only [List.map_append, List.map_cons, List.map_nil,
      List.append_assoc]
    refine List.Perm.append_left _ ?_
    rw [List.cons_append, ← List.append_assoc]
    exact List.perm_append_singleton _ _
  · intro held member
    rcases member.of_append with none | ⟨other, member⟩
    · exact nomatch none
    · have inside := sound.logged held member
      rw [whole] at inside
      simp only [erased]
      simp only [List.map_append, List.map_cons, List.mem_append,
        List.mem_cons] at inside ⊢
      rcases inside with first | again | second
      · exact Or.inl first
      · exact absurd (by rw [again, same]) other
      · exact Or.inr second
  · exact sound.once.append nofun

theorem Sound.setBufferSize (sound : pooled.Sound)
    (heap : Nat → Nat → UInt8) {newSize : Nat} {next : Pooled}
    (taken : pooled.step heap (.setBufferSize newSize) = some next) :
    next.Sound := by
  obtain rfl := Option.some.inj taken
  have logged := sound.logged
  rcases sound.resize newSize with ⟨none, result⟩ | ⟨some_, result⟩
  · rw [result]
    constructor
    · simp [buffers, none]
    · simp [buffers, none]
    · simp [buffers, none]
    · simp [buffers, none]
    · exact Nat.le_max_right _ _
    · exact sound.logged
    · exact sound.once
  · rw [result]
    have inside : ∀ buffer ∈ pooled.outstanding, buffer ∈ pooled.buffers :=
      fun _ member => List.mem_append_left _ member
    have distinct := sound.distinct
    rw [buffers, List.map_append] at distinct
    constructor
    · simp [buffers]
    · simpa [buffers] using distinct.sublist (List.sublist_append_left _ _)
    · simpa [buffers] using fun buffer member =>
        sound.placed buffer (inside buffer member)
    · simpa [buffers] using fun buffer member =>
        sound.capacity buffer (inside buffer member)
    · exact sound.minimum
    · exact sound.logged
    · exact sound.once

end

/-- In every sequence of calls, all buffers are accounted for and have the
current size, none is handed out twice, and a resize succeeds exactly when no
buffer is outstanding. -/
theorem pool_invariant {heap : Nat → Nat → UInt8} {calls : List PoolCall}
    {pooled : Pooled}
    (run : Execution (step heap) Always initial calls pooled) :
    pooled.pool.allocations =
        pooled.outstanding.length + pooled.pool.free.length ∧
      HandedOutOnce pooled.log ∧
      (∀ buffer ∈ pooled.outstanding ++ pooled.pool.free,
        buffer.capacity = pooled.pool.bufferSize) ∧
      minSize ≤ pooled.pool.bufferSize ∧
      ∀ newSize,
        ((pooled.pool.setBufferSize newSize).2 = true ↔
            pooled.outstanding = []) ∧
          ((pooled.pool.setBufferSize newSize).2 = false →
            (pooled.pool.setBufferSize newSize).1.bufferSize =
              pooled.pool.bufferSize) := by
  have sound : pooled.Sound := by
    refine run.invariant ?_ sound_initial
    intro source call target sound _ taken
    cases call with
    | alloc => exact sound.alloc heap taken
    | release address memory => exact sound.release heap taken
    | setBufferSize newSize => exact sound.setBufferSize heap taken
  have counted := sound.counted
  rw [buffers, List.length_append] at counted
  refine ⟨counted, sound.once, sound.capacity, sound.minimum, ?_⟩
  intro newSize
  rcases sound.resize newSize with ⟨none, result⟩ | ⟨some_, result⟩
  · rw [result]
    exact ⟨iff_of_true rfl none, nofun⟩
  · rw [result]
    exact ⟨iff_of_false Bool.false_ne_true some_, fun _ => rfl⟩

/-- A resize between the two buffers that are handed out fails. -/
theorem pool_invariant_resized :
    ∃ pooled, Execution (step fun _ _ => 0) Always initial
        [.alloc, .setBufferSize 65536, .release 0 fun _ => 0, .alloc]
        pooled ∧
      pooled.pool.allocations =
        pooled.outstanding.length + pooled.pool.free.length := by
  have run : Execution (step fun _ _ => 0) Always initial
      [.alloc, .setBufferSize 65536, .release 0 fun _ => 0, .alloc] _ :=
    @Execution.of_runEvents _ _ _ _ (fun _ _ => true)
      (fun _ _ _ => trivial) _ _ _ rfl
  exact ⟨_, run, (pool_invariant run).1⟩

end Pooled

end Maxcso
