import Maxcso.Writer.Schedules

/-!
# Reading the file of an archive

What a reader finds at the places where the writer has put the header, the
tables and the blocks.
-/

namespace Maxcso

open FileBytes

namespace Archive

variable {archive : Archive}

/-- The header and the tables end before the data. -/
def Apart (archive : Archive) : Prop :=
  (archive.indexWrite.data.length : Int) ≤ archive.pos 0

/-- The header and the tables are at the front of the file. -/
theorem pread_file_head {offset length : Nat}
    (fits : offset + length ≤ archive.indexWrite.data.length) :
    pread archive.file offset length =
      pread archive.indexWrite.data offset length := by
  rw [file, List.append_assoc, pread_append_left fits]

/-- Every block is where the writer has put it. -/
theorem pread_file_chunk
    (apart : archive.Apart) {block : Nat} (inside : block < archive.blocks)
    {length : Nat} (fits : length ≤ (archive.chunk block).length) :
    pread archive.file (archive.pos block).toNat length =
      (archive.chunk block).take length := by
  have rest : archive.blocks = block + (1 + (archive.blocks - block - 1)) := by
    omega
  have one : archive.body block 1 = archive.chunk block := by
    rw [body_succ]
    exact List.append_nil _
  have body : archive.body 0 archive.blocks =
      archive.body 0 block ++ (archive.chunk block ++
        archive.body (block + 1) (archive.blocks - block - 1)) := by
    conv_lhs => rw [rest]
    rw [body_add, body_add, Nat.zero_add, one]
  have start := archive.pos_nonneg 0
  have before := @length_body archive 0 block (by omega)
  have place : (archive.pos block).toNat =
      (archive.indexWrite.data ++ List.replicate
        (archive.pos 0 - archive.indexWrite.data.length).toNat 0 ++
          archive.body 0 block).length + 0 := by
    unfold Apart at apart
    rw [Nat.zero_add] at before
    simp only [List.length_append, List.length_replicate, Nat.add_zero]
    omega
  rw [file, body, ← List.append_assoc, place, pread_append_right,
    pread_append_left (by omega), pread, List.drop_zero]

/-- What is kept for a block is found again, followed by its padding. -/
theorem pread_file_stored
    (compresses : archive.decompressing = false) (apart : archive.Apart)
    {block : Nat} (inside : block < archive.blocks) :
    pread archive.file (archive.pos block).toNat (archive.size block) =
      (archive.stored block).2 := by
  have written := archive.written_compressed compresses block
  have chunk : archive.chunk block = (archive.stored block).2 ++
      List.replicate (archive.pos (block + 1) -
        (archive.pos block + archive.written block)).toNat 0 := by
    rw [Archive.chunk, written, size, List.take_length]
  have fits : archive.size block ≤ (archive.chunk block).length := by
    rw [chunk, List.length_append, size]
    omega
  rw [pread_file_chunk apart inside fits, chunk, size, List.take_left]

theorem length_file (apart : archive.Apart) :
    (archive.file.length : Int) = archive.pos archive.blocks := by
  have body := @length_body archive 0 archive.blocks (by omega)
  unfold Apart at apart
  rw [Nat.zero_add] at body
  rw [file, List.length_append, List.length_append, List.length_replicate]
  omega

end Archive

namespace Writer

/-- At the end of a run in which everything succeeds, success has been
reported once and the file is complete. -/
theorem file_of_done
    {archive : Archive} (admissible : archive.Admissible)
    (chosen : archive.fmt = CompressionTask.format archive.flags)
    (immediate : archive.immediate = false) (few : archive.Few)
    (passes : archive.IndexPasses) {pool : BufferPool}
    (room : archive.blockSize ≤ pool.bufferSize)
    {events : List WriterEvent} {writer : Writer}
    (run : Run archive.toWriterConfig archive.env archive.image .full
      (start archive.env archive.toWriterConfig pool) events writer)
    (done : writer.Done) :
    archive.Apart ∧
      successNotes writer.notes = [archive.pos archive.blocks] ∧
        writer.file = archive.file := by
  have leads := Archive.leads chosen
  have expected := Output.indexWrite_expected few
  have apart : archive.Apart := by
    rw [Archive.Apart, expected.length]
    exact leads immediate
  have hasFile : archive.noFile = false :=
    (Bool.or_eq_false_iff.mp immediate).2
  have onCourse := onCourse_succeeding admissible passes leads room run
  obtain ⟨reported, _⟩ := onCourse.succeeded done
  have orderly := onCourse.orderly few immediate hasFile apart
  refine ⟨apart, reported, (orderly.success ?_).2.2.2.2.2⟩
  rw [reported]
  exact List.cons_ne_nil _ _

end Writer

end Maxcso
