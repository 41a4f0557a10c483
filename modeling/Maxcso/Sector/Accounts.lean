import Mathlib.Algebra.Order.Group.Multiset
import Mathlib.Tactic.Abel
import Maxcso.BufferPool.Outstanding
import Maxcso.Sector.Result

/-!
# Accounts of buffers

Every buffer that a sector is given or takes from the pool is, exactly once,
in the pool again or with the sector.
-/

namespace Maxcso

/-- The addresses of some buffers. -/
def addresses (buffers : List Buffer) : Multiset Nat :=
  (buffers.map (·.address) : List Nat)

/-- From what was free or given, and from what `malloc` added, each buffer is
free again or kept. -/
def Settled (before : BufferPool) (given : Multiset Nat)
    (after : BufferPool) (kept : Multiset Nat) : Prop :=
  ∃ count, after.nextAddress = before.nextAddress + count ∧
    addresses after.free + kept =
      addresses before.free + given +
        (List.range' before.nextAddress count : List Nat)

theorem addresses_append (first second : List Buffer) :
    addresses (first ++ second) = addresses first + addresses second := by
  rw [addresses, List.map_append, ← Multiset.coe_add]
  rfl

@[simp]
theorem addresses_nil : addresses [] = 0 := rfl

@[simp]
theorem addresses_singleton (buffer : Buffer) :
    addresses [buffer] = {buffer.address} := rfl

namespace Settled

variable {first second third : BufferPool}
variable {given kept more last : Multiset Nat}

theorem refl (pool : BufferPool) (given : Multiset Nat) :
    Settled pool given pool given :=
  ⟨0, rfl, (Multiset.add_zero _).symm⟩

/-- What the first step keeps can be given to the second, with more. -/
theorem trans (before : Settled first given second kept)
    (after : Settled second (kept + more) third last) :
    Settled first (given + more) third last := by
  obtain ⟨count, next, same⟩ := before
  obtain ⟨count', next', same'⟩ := after
  refine ⟨count + count', by omega, ?_⟩
  rw [same', ← add_assoc, same, next, ← List.range'_append_1,
    ← Multiset.coe_add]
  abel

theorem trans' (before : Settled first given second kept)
    (after : Settled second kept third last) :
    Settled first given third last := by
  have joined := @trans _ _ _ _ _ 0 _ before (by rwa [add_zero])
  rwa [add_zero] at joined

/-- What is kept besides does not matter. -/
theorem frame (settled : Settled first given second kept)
    (more : Multiset Nat) :
    Settled first (given + more) second (kept + more) :=
  settled.trans (refl second _)

theorem release (pool : BufferPool) (buffer : Buffer) :
    Settled pool {buffer.address} (pool.release buffer) 0 := by
  refine ⟨0, rfl, ?_⟩
  rw [BufferPool.release, addresses_append, addresses_singleton]
  rfl

theorem alloc (heap : Nat → Nat → UInt8) (pool : BufferPool) :
    Settled pool 0 (pool.alloc heap).2 {(pool.alloc heap).1.address} := by
  rcases Pooled.alloc_cases heap pool with
    ⟨none, buffer, next⟩ | ⟨free, same, next⟩
  · refine ⟨1, by rw [next], ?_⟩
    rw [next, buffer, none]
    rfl
  · refine ⟨0, by rw [next]; rfl, ?_⟩
    rw [next]
    conv_rhs => rw [same]
    rw [addresses_append, addresses_singleton]
    exact (add_zero _).symm.trans (add_zero _).symm

end Settled

namespace Sector

/-- The buffers that a sector has. -/
def held (sector : Sector) : Multiset Nat :=
  addresses sector.buffer.toList + addresses sector.best.toList

section

variable {sector : Sector} {pool : BufferPool}

theorem settled_accept (sector : Sector) (pool : BufferPool) :
    (process.accept sector pool).1.held = sector.held ∧
      (process.accept sector pool).2.1 = pool := by
  unfold process.accept
  dsimp only
  split
  · exact ⟨rfl, rfl⟩
  · split
    · exact ⟨rfl, rfl⟩
    · split
      · exact ⟨rfl, rfl⟩
      · exact ⟨rfl, rfl⟩

/-- A buffer that is passed is released, or becomes the sector's buffer; only
a position outside of the block leaves it with neither. -/
theorem settled_process (env : Environment) (pos : Int) (buffer : Buffer)
    (free : sector.busy = false → sector.buffer = none)
    (near : sector.busy = true →
      process.toUint64 (pos - sector.pos) < pool.bufferSize) :
    let processed := sector.process env pool pos buffer
    Settled pool (sector.held + {buffer.address}) processed.2.1
      processed.1.held := by
  intro processed
  unfold processed process
  by_cases idle : sector.busy = false
  · rw [if_pos (by simp [idle])]
    dsimp only
    have none := free idle
    split
    · rw [(settled_accept _ _).1, (settled_accept _ _).2]
      have same : sector.held + {buffer.address} =
          addresses [buffer] + addresses sector.best.toList := by
        rw [held, none, addresses_singleton, Option.toList_none,
          addresses_nil]
        abel
      rw [same]
      exact Settled.refl _ _
    · rw [(settled_accept _ _).1, (settled_accept _ _).2]
      have taken := (Settled.alloc env.heap pool).frame
        (sector.held + {buffer.address})
      have released := (Settled.release (pool.alloc env.heap).2 buffer).frame
        ({(pool.alloc env.heap).1.address} + sector.held)
      rw [zero_add] at taken released
      have joined := taken.trans' (by
        rw [show {(pool.alloc env.heap).1.address} +
            (sector.held + {buffer.address}) = {buffer.address} +
              ({(pool.alloc env.heap).1.address} + sector.held) by abel]
        exact released)
      rw [show sector.held = addresses sector.best.toList by
        rw [held, none, Option.toList_none, addresses_nil, zero_add]]
        at joined ⊢
      exact joined
  · have busy : sector.busy = true := by
      cases found : sector.busy with
      | true => rfl
      | false => exact absurd found idle
    rw [if_neg (by simp [busy]), if_pos (near busy)]
    rw [(settled_accept _ _).1, (settled_accept _ _).2]
    have released := (Settled.release pool buffer).frame sector.held
    rw [zero_add, add_comm] at released
    have same : ({ sector with
        buffer := sector.buffer.map fun block =>
          process.copyInto pos buffer block sector.pos }).held =
        sector.held := by
      unfold held
      cases sector.buffer <;> rfl
    rw [same]
    exact released

theorem settled_submitTrial (result : Buffer) (size : Nat)
    (format : SectorFormat) :
    let submitted := sector.submitTrial pool result size format
    Settled pool (sector.held + {result.address}) submitted.2
      submitted.1.held := by
  intro submitted
  unfold submitted submitTrial
  split
  · dsimp only
    cases best : sector.best with
    | none =>
        have same : sector.held + {result.address} =
            addresses sector.buffer.toList + addresses [result] := by
          rw [held, best, Option.toList_none, addresses_nil, add_zero]
          rfl
        rw [same]
        exact Settled.refl _ _
    | some old =>
        have released := (Settled.release pool old).frame
          (addresses sector.buffer.toList + addresses [result])
        rw [zero_add] at released
        have same : sector.held + {result.address} =
            {old.address} +
              (addresses sector.buffer.toList + addresses [result]) := by
          rw [held, best, Option.toList_some, addresses_singleton,
            addresses_singleton]
          abel
        rw [same]
        exact released
  · have released := (Settled.release pool result).frame sector.held
    rw [zero_add, add_comm] at released
    exact released

theorem settled_compressWith (heap : Nat → Nat → UInt8)
    (trials : List Trial) :
    let compressed := sector.compressWith heap pool trials
    Settled pool sector.held compressed.2 compressed.1.held := by
  induction trials generalizing sector pool with
  | nil => exact Settled.refl _ _
  | cons trial trials inductionHypothesis =>
      have taken := (Settled.alloc heap pool).frame sector.held
      rw [zero_add, add_comm] at taken
      have submitted := @settled_submitTrial sector (pool.alloc heap).2
        { (pool.alloc heap).1 with
          memory := FlatMemory.write (pool.alloc heap).1.memory 0 trial.data }
        trial.data.length trial.format
      exact (taken.trans' submitted).trans' inductionHypothesis

theorem settled_compressWork (env : Environment) :
    let work := sector.compressWork env pool
    Settled pool sector.held work.2 work.1.held := by
  intro work
  refine (settled_compressWith env.heap
    (env.trials sector.pos sector.blockBytes)).trans' ?_
  unfold work compressWork
  generalize sector.compressWith env.heap pool
    (env.trials sector.pos sector.blockBytes) = compressed
  dsimp only
  unfold finalizeBest
  cases best : compressed.1.best with
  | none => exact Settled.refl _ _
  | some old =>
      dsimp only
      split
      · have released := (Settled.release compressed.2 old).frame
          (addresses compressed.1.buffer.toList)
        rw [zero_add, add_comm] at released
        have same : compressed.1.held =
            addresses compressed.1.buffer.toList + {old.address} := by
          rw [held, best, Option.toList_some, addresses_singleton]
        rw [same]
        refine released.trans' ?_
        rw [show addresses compressed.1.buffer.toList =
          addresses compressed.1.buffer.toList + 0 from (add_zero _).symm]
        exact Settled.refl _ _
      · exact Settled.refl _ _

/-- A released sector has no buffer. -/
theorem settled_release :
    Settled pool sector.held (sector.release pool).2 0 ∧
      (sector.release pool).1.held = 0 := by
  refine ⟨?_, rfl⟩
  unfold release held
  cases sector.best with
  | none =>
      cases sector.buffer with
      | none => exact Settled.refl _ _
      | some buffer => exact Settled.release pool buffer
  | some best =>
      cases sector.buffer with
      | none =>
          have released := Settled.release pool best
          rwa [← zero_add ({best.address} : Multiset Nat)] at released
      | some buffer =>
          have first := (Settled.release pool best).frame {buffer.address}
          rw [zero_add, add_comm] at first
          exact first.trans' (Settled.release _ buffer)

end

end Sector

end Maxcso
