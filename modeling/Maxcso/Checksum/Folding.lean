import Mathlib.Data.List.Induction
import Maxcso.Checksum
import Maxcso.Library.FileBytes
import Maxcso.Library.ReorderQueue

/-!
# Sectors in any order

What the checksum task reports does not depend on the order in which the
sectors of an image arrive.
-/

namespace Maxcso

open ReorderQueue

/-- Consecutive pieces have the checksum of what they make up. -/
def Crc32.Concatenates (crc32 : Crc32) : Prop :=
  ∀ crc first second,
    crc32.update (crc32.update crc first) second =
      crc32.update crc (first ++ second)

namespace ChecksumTask

/-- The checksum after some more buffers. -/
def foldCrc (crc32 : Crc32) (crc : Nat) (buffers : List Buffer) : Nat :=
  buffers.foldl
    (fun crc buffer =>
      crc32.update crc (FlatMemory.read buffer.memory 0 sectorSize)) crc

/-- The pool after some buffers have been released. -/
def withReleased (pool : BufferPool) (buffers : List Buffer) : BufferPool :=
  { pool with free := pool.free ++ buffers }

/-- The position that the task expects, and the buffers that wait. -/
def queue (task : ChecksumTask) : Queue Buffer :=
  ⟨task.pos, task.pendingBuffers⟩

/-- Some buffers have been folded in, and the queue is another. -/
def absorb (crc32 : Crc32) (task : ChecksumTask) (buffers : List Buffer)
    (queue : Queue Buffer) : ChecksumTask :=
  { task with
    pos := queue.next
    pendingBuffers := queue.waiting
    crc := foldCrc crc32 task.crc buffers }

/-- The last part of `HandleBuffer`. -/
def report (task : ChecksumTask) : ChecksumTask :=
  let task := task.notify (.inProgress task.pos task.size 0)
  if task.pos = task.size then
    task.notify (.success ("CRC32: " ++ hexadecimal task.crc))
  else
    task

/-- The sectors with these indices, in the order in which they arrive. -/
def arrivals (buffers : Nat → Buffer) (order : List Nat) :
    List (Int × Buffer) :=
  order.map fun (index : Nat) => (sectorSize * (index : Int), buffers index)

def isSuccess : ChecksumNote → Bool
  | .success _ => true
  | _ => false

section

variable {crc32 : Crc32} {task : ChecksumTask} {pool : BufferPool}
variable {buffer : Buffer} {buffers : List Buffer}

theorem withReleased_cons :
    withReleased (pool.release buffer) buffers =
      withReleased pool (buffer :: buffers) := by
  unfold withReleased BufferPool.release
  rw [List.append_assoc]
  rfl

/-- The loop over the pending buffers is the flush of the queue. -/
theorem flushPending_eq (pending : List (Int × Buffer)) :
    flushPending crc32 pending task pool =
      (task.absorb crc32 (flush sectorSize task.pos pending).1
          (flush sectorSize task.pos pending).2,
        withReleased pool (flush sectorSize task.pos pending).1) := by
  induction pending generalizing task pool with
  | nil =>
      unfold withReleased
      rw [flush, List.append_nil]
      rfl
  | cons entry pending inductionHypothesis =>
      obtain ⟨key, buffer⟩ := entry
      rw [flushPending, flush]
      by_cases expected : key = task.pos
      · rw [if_neg (not_not.mpr expected), if_pos expected]
        simp only [fold]
        rw [inductionHypothesis, withReleased_cons]
        rfl
      · rw [if_pos expected, if_neg expected]
        unfold withReleased
        rw [List.append_nil]
        rfl

theorem handleBuffer_eq :
    task.handleBuffer crc32 pool buffer =
      let folded := task.fold crc32 pool buffer
      let flushed := flushPending crc32 folded.1.pendingBuffers folded.1
        folded.2
      (flushed.1.report, flushed.2) := by
  simp only [handleBuffer, report]
  split
  · rfl
  · rfl

/-- A sector is folded in with those that follow on, or waits. -/
theorem receive_eq (pos : Int) :
    task.receive crc32 pool pos buffer =
      let arrived := arrive sectorSize task.queue pos buffer
      (if task.pos = pos then
          (task.absorb crc32 arrived.1 arrived.2).report
        else
          task.absorb crc32 arrived.1 arrived.2,
        withReleased pool arrived.1) := by
  unfold receive arrive queue
  by_cases expected : task.pos = pos
  · simp only [if_pos expected, handleBuffer_eq, flushPending_eq, fold,
      withReleased_cons]
    rfl
  · simp only [if_neg expected]
    unfold withReleased
    rw [List.append_nil]
    rfl

/-! ## Runs -/

/-- Some of the sectors of an image have come. -/
structure Arrived (crc32 : Crc32) (buffers : Nat → Buffer) (total : Nat)
    (free : List Buffer) (seen : List Nat) (count : Nat)
    (state : ChecksumTask × BufferPool) : Prop where
  size : state.1.size = sectorSize * (total : Int)
  ordered : InOrder sectorSize buffers seen count state.1.queue
  crc : state.1.crc =
    foldCrc crc32 crc32.start ((List.range count).map buffers)
  free : state.2.free = free ++ (List.range count).map buffers
  silent : count < total → state.1.notes.filter isSuccess = []
  done : count = total → ∃ notes, notes.filter isSuccess = [] ∧
    state.1.notes = notes ++
      [.success ("CRC32: " ++ hexadecimal state.1.crc)]

section

variable {values : Nat → Buffer} {total count : Nat} {seen : List Nat}
variable {free : List Buffer} {state : ChecksumTask × BufferPool}

theorem arrived_onBegin (positive : 0 < total) :
    Arrived crc32 values total pool.free [] 0
      (beginProcessing.onBegin crc32 (sectorSize * (total : Int)),
        pool) where
  size := rfl
  ordered := inOrder_nil
  crc := rfl
  free := (List.append_nil _).symm
  silent _ := rfl
  done none := absurd none positive.ne

theorem foldCrc_append (crc : Nat) (first second : List Buffer) :
    foldCrc crc32 (foldCrc crc32 crc first) second =
      foldCrc crc32 crc (first ++ second) :=
  List.foldl_append.symm

theorem Arrived.receive
    (arrived : Arrived crc32 values total free seen count state)
    {index : Nat} (fresh : index ∉ seen) (inside : index < total) :
    ∃ more, Arrived crc32 values total free (seen ++ [index]) (count + more)
      (state.1.receive crc32 state.2 (sectorSize * (index : Int))
        (values index)) := by
  obtain ⟨more, emitted, ordered⟩ := arrive_inOrder
    (show (0 : Int) < sectorSize by decide) arrived.ordered fresh
  have upTo : List.range count ++ List.range' count more =
      List.range (count + more) := by
    rw [List.range_eq_range', List.range_eq_range', ← List.range'_append_1,
      Nat.zero_add]
  have unfinished := arrived.ordered.incomplete inside fresh
  have silent := arrived.silent unfinished
  obtain ⟨task, pool⟩ := state
  obtain ⟨size, before, crc, released, _, _⟩ := arrived
  have folded : foldCrc crc32 task.crc
      (arrive sectorSize task.queue (sectorSize * (index : Int))
        (values index)).1 =
      foldCrc crc32 crc32.start ((List.range (count + more)).map values) := by
    rw [emitted, crc, foldCrc_append, ← List.map_append, upTo]
  have freed : pool.free ++
      (arrive sectorSize task.queue (sectorSize * (index : Int))
        (values index)).1 =
      free ++ (List.range (count + more)).map values := by
    rw [emitted, released, List.append_assoc, ← List.map_append, upTo]
  refine ⟨more, ?_⟩
  rw [receive_eq]
  by_cases expected : task.pos = sectorSize * (index : Int)
  · simp only [if_pos expected]
    have next := ordered.next
    simp only [report]
    split
    · rename_i last
      have whole : count + more = total :=
        (stride_inj (show (0 : Int) < sectorSize by decide)).mp
          ((next.symm.trans last).trans size)
      refine ⟨size, ordered, folded, freed, fun less => by omega,
        fun _ => ⟨task.notes ++ [.inProgress _ _ 0], ?_, rfl⟩⟩
      rw [List.filter_append, silent]
      rfl
    · rename_i last
      have partial_ : count + more ≠ total :=
        fun whole => last ((next.trans (whole ▸ rfl)).trans size.symm)
      refine ⟨size, ordered, folded, freed, fun _ => ?_,
        fun whole => absurd whole partial_⟩
      exact (List.filter_append ..).trans
        (congrArg (· ++ List.filter isSuccess [_]) silent)
  · simp only [if_neg expected]
    refine ⟨size, ordered, folded, freed, fun _ => silent, ?_⟩
    intro whole
    have nothing : (arrive sectorSize task.queue
        (sectorSize * (index : Int)) (values index)).1 = [] :=
      congrArg Prod.fst (if_neg expected)
    rw [nothing] at emitted
    have none := congrArg List.length emitted
    simp only [List.length_nil, List.length_map, List.length_range'] at none
    omega

/-- However many sectors have come, they came in no particular order. -/
theorem arrived_receiveAll
    {order : List Nat} (inside : ∀ index ∈ order, index < total)
    (nodup : order.Nodup)
    (start : Arrived crc32 values total free [] 0 state) :
    ∃ count, Arrived crc32 values total free order count
      (state.1.receiveAll crc32 state.2 (arrivals values order)) := by
  induction order using List.reverseRecOn with
  | nil => exact ⟨0, start⟩
  | append_singleton seen index inductionHypothesis =>
      obtain ⟨nodup, _, apart⟩ := List.nodup_append.mp nodup
      have fresh : index ∉ seen :=
        fun member => apart index member index List.mem_cons_self rfl
      obtain ⟨count, arrived⟩ := inductionHypothesis
        (fun other member => inside other (List.mem_append_left _ member))
        nodup
      obtain ⟨more, arrived⟩ := arrived.receive fresh
        (inside index (by simp))
      refine ⟨count + more, ?_⟩
      rw [arrivals, List.map_append, receiveAll, List.foldl_append]
      exact arrived

end

theorem release_pending (pool : BufferPool)
    (pending : List (Int × Buffer)) :
    (pending.foldl (fun pool entry => pool.release entry.2) pool).free =
      pool.free ++ pending.map Prod.snd := by
  induction pending generalizing pool with
  | nil => exact (List.append_nil _).symm
  | cons entry pending inductionHypothesis =>
      rw [List.foldl_cons, inductionHypothesis, BufferPool.release,
        List.append_assoc]
      rfl

/-- When the task is destroyed, every buffer that came has been released
once. -/
theorem cleanup_arrived (nodup : seen.Nodup)
    (arrived : Arrived crc32 values total free seen count state) :
    (state.1.cleanup state.2).2.free.Perm (free ++ seen.map values) := by
  obtain ⟨waiting, all⟩ := arrived.ordered.waiting_perm
    (show (0 : Int) < sectorSize by decide) nodup
  have released := release_pending state.2 state.1.pendingBuffers
  have left := waiting.map Prod.snd
  rw [List.map_map] at left
  rw [ChecksumTask.cleanup, released, arrived.free, List.append_assoc]
  refine List.Perm.append_left _ ?_
  refine ((List.Perm.append_left _ left).trans ?_)
  have whole := all.map values
  rw [List.map_append] at whole
  exact whole.symm

/-- The checksum of all buffers is that of the image. -/
theorem foldCrc_image (concatenates : crc32.Concatenates)
    {image : Bytes} {values : Nat → Buffer} {total : Nat}
    (content : ∀ index ≤ total,
      FlatMemory.read (values index).memory 0 sectorSize =
        FileBytes.pread image (sectorSize * index) sectorSize) :
    foldCrc crc32 crc32.start ((List.range (total + 1)).map values) =
      crc32.update crc32.start
        (FileBytes.pread image 0 (sectorSize * (total + 1))) := by
  induction total with
  | zero =>
      exact congrArg (crc32.update crc32.start) (content 0 (Nat.le_refl 0))
  | succ total inductionHypothesis =>
      rw [List.range_succ, List.map_append, ← foldCrc_append,
        inductionHypothesis fun index le => content index (by omega)]
      refine (congrArg (crc32.update _) (content (total + 1)
        (Nat.le_refl _))).trans ?_
      rw [concatenates, Nat.mul_succ sectorSize (total + 1),
        FileBytes.pread_add, Nat.zero_add]

end

/-- What is reported, and what becomes of the buffers, when the sectors of an
image arrive in any order. -/
theorem checksum_queue {crc32 : Crc32} (concatenates : crc32.Concatenates)
    {image : Bytes} {total : Nat} (positive : 0 < total)
    (length : image.length = sectorSize * total) {order : List Nat}
    (all : order.Perm (List.range total)) {buffers : Nat → Buffer}
    (content : ∀ index < total,
      FlatMemory.read (buffers index).memory 0 sectorSize =
        FileBytes.pread image (sectorSize * index) sectorSize)
    (pool : BufferPool) :
    let begun := beginProcessing.onBegin crc32 image.length
    let done := begun.receiveAll crc32 pool (arrivals buffers order)
    done.1.crc = crc32.update crc32.start image ∧
      (∃ notes, notes.filter isSuccess = [] ∧
        done.1.notes = notes ++
          [.success ("CRC32: " ++
            hexadecimal (crc32.update crc32.start image))]) ∧
      (∀ earlier later, order = earlier ++ later → later ≠ [] →
        (begun.receiveAll crc32 pool
          (arrivals buffers earlier)).1.notes.filter isSuccess = []) ∧
      done.2.free = pool.free ++ (List.range total).map buffers ∧
      done.1.pendingBuffers = [] := by
  intro begun done
  have start : Arrived crc32 buffers total pool.free [] 0 (begun, pool) := by
    have := @arrived_onBegin crc32 pool buffers total positive
    rw [show begun = beginProcessing.onBegin crc32
      (sectorSize * (total : Int)) by
        unfold begun
        rw [length, Nat.cast_mul]]
    exact this
  have inside : ∀ index ∈ order, index < total :=
    fun index member => List.mem_range.mp (all.mem_iff.mp member)
  have nodup : order.Nodup := all.nodup_iff.mpr List.nodup_range
  obtain ⟨count, arrived⟩ := arrived_receiveAll inside nodup start
  obtain ⟨rfl, none⟩ := arrived.ordered.complete all
  have crc : done.1.crc = crc32.update crc32.start image := by
    refine arrived.crc.trans ?_
    obtain ⟨before, rfl⟩ := Nat.exists_eq_add_of_lt positive
    rw [Nat.zero_add] at length content ⊢
    rw [foldCrc_image concatenates fun index le => content index (by omega),
      FileBytes.pread, List.drop_zero, List.take_of_length_le length.le]
  refine ⟨crc, ?_, ?_, arrived.free, none⟩
  · obtain ⟨notes, silent, same⟩ := arrived.done rfl
    exact ⟨notes, silent, crc ▸ same⟩
  · intro earlier later split some_
    obtain ⟨index, later, rfl⟩ := List.exists_cons_of_ne_nil some_
    rw [split] at inside nodup
    obtain ⟨nodup, _, apart⟩ := List.nodup_append.mp nodup
    have missing : index ∉ earlier := fun member =>
      apart index member index List.mem_cons_self rfl
    obtain ⟨count, arrived⟩ := arrived_receiveAll
      (fun other member => inside other (List.mem_append_left _ member))
      nodup start
    exact arrived.silent
      (arrived.ordered.incomplete (inside index (by simp)) missing)

/-! ## The checksum of zlib -/

/-- One bit of a byte. -/
def crcBit (crc : Nat) : Nat :=
  if crc % 2 = 1 then crc / 2 ^^^ 0xEDB88320 else crc / 2

def crcByte (crc : Nat) (byte : UInt8) : Nat :=
  crcBit^[8] (crc ^^^ byte.toNat)

def zlibCrc32 : Crc32 where
  start := 0
  update crc bytes :=
    bytes.foldl crcByte (crc ^^^ 0xFFFFFFFF) ^^^ 0xFFFFFFFF

theorem zlibCrc32_concatenates : zlibCrc32.Concatenates := by
  intro crc first second
  simp only [zlibCrc32, List.foldl_append, Nat.xor_assoc, Nat.xor_self,
    Nat.xor_zero]

example : zlibCrc32.update zlibCrc32.start (List.replicate 4 0) =
    0x2144DF1C := by decide

/-- A buffer full of zeros. -/
def blank (address : Nat) : Buffer := ⟨address, minSize, fun _ => 0⟩

theorem read_blank (address length : Nat) {total offset : Nat}
    (fits : offset + length ≤ total) :
    FlatMemory.read (blank address).memory 0 length =
      FileBytes.pread (List.replicate total 0) offset length := by
  rw [FileBytes.pread, List.drop_replicate, List.take_replicate,
    Nat.min_eq_left (by omega), FlatMemory.read]
  exact (List.map_const' ..).trans
    (congrArg (List.replicate · 0) List.length_range)

/-- Two sectors of zeros. -/
def blankImage : Bytes := List.replicate (sectorSize * 2) 0

theorem length_blankImage : blankImage.length = sectorSize * 2 :=
  List.length_replicate

/-- The second of two sectors comes first. -/
theorem checksum_queue_backwards :
    ((beginProcessing.onBegin zlibCrc32 blankImage.length).receiveAll
        zlibCrc32 .initial (arrivals blank [1, 0])).1.crc =
      zlibCrc32.update zlibCrc32.start blankImage :=
  (@checksum_queue zlibCrc32 zlibCrc32_concatenates blankImage 2 Nat.two_pos
    length_blankImage [1, 0] (by decide) blank
    (fun _ below => read_blank _ _ (by simp only [sectorSize]; omega))
    .initial).1

end ChecksumTask

end Maxcso
