import Mathlib.Tactic.Common

/-!
# The buffer pool

`buffer_pool.cpp`: one global pool of equally sized buffers.  A buffer keeps
the bytes it held when it was released, so the content of an allocated buffer
is whatever its previous owner, or `malloc`, left there.
-/

namespace Maxcso

/-- A buffer: the address `malloc` returned, the size it was asked for, and
what the buffer holds. -/
structure Buffer where
  address : Nat
  capacity : Nat
  memory : Nat → UInt8

/-- `MIN_SIZE` -/
abbrev minSize : Nat := 16384

structure BufferPool where
  bufferSize : Nat
  allocations : Nat
  free : List Buffer
  /-- Addresses below this one have been handed out by `malloc`. -/
  nextAddress : Nat

namespace BufferPool

/-- The pool as its constructor leaves it. -/
def initial : BufferPool :=
  { bufferSize := minSize, allocations := 0, free := [], nextAddress := 0 }

def clear (pool : BufferPool) : BufferPool :=
  { pool with
    allocations := pool.allocations - pool.free.length
    free := [] }

/-- `SetBufferSize`: the free list is dropped first; the size changes only
when no buffer is left outstanding. -/
def setBufferSize (pool : BufferPool) (newSize : Nat) : BufferPool × Bool :=
  let cleared := pool.clear
  if cleared.allocations = 0 then
    ({ cleared with bufferSize := max newSize minSize }, true)
  else
    (cleared, false)

/-- `Alloc`, where `heap` is what `malloc` leaves at each address. -/
def alloc (heap : Nat → Nat → UInt8) (pool : BufferPool) :
    Buffer × BufferPool :=
  match pool.free.getLast? with
  | none =>
      ({ address := pool.nextAddress
         capacity := pool.bufferSize
         memory := heap pool.nextAddress },
        { pool with
          allocations := pool.allocations + 1
          nextAddress := pool.nextAddress + 1 })
  | some buffer => (buffer, { pool with free := pool.free.dropLast })

def release (pool : BufferPool) (buffer : Buffer) : BufferPool :=
  { pool with free := pool.free ++ [buffer] }

@[simp]
theorem clear_bufferSize (pool : BufferPool) :
    pool.clear.bufferSize = pool.bufferSize := rfl

@[simp]
theorem alloc_bufferSize (heap : Nat → Nat → UInt8) (pool : BufferPool) :
    (pool.alloc heap).2.bufferSize = pool.bufferSize := by
  unfold alloc
  split <;> rfl

@[simp]
theorem release_bufferSize (pool : BufferPool) (buffer : Buffer) :
    (pool.release buffer).bufferSize = pool.bufferSize := rfl

/-- A resize either takes effect, with the minimum applied, or reports
failure and leaves the size alone. -/
theorem setBufferSize_cases (pool : BufferPool) (newSize : Nat) :
    ((pool.setBufferSize newSize).2 = true ∧
        (pool.setBufferSize newSize).1.bufferSize = max newSize minSize) ∨
      ((pool.setBufferSize newSize).2 = false ∧
        (pool.setBufferSize newSize).1.bufferSize = pool.bufferSize) := by
  unfold setBufferSize
  by_cases none : pool.clear.allocations = 0
  · exact Or.inl (by simp [none])
  · exact Or.inr (by simp [none])

end BufferPool

end Maxcso
