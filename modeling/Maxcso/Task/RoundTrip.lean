import Maxcso.Task.Formats

/-!
# There and back with two tasks

The file that one task leaves is read by another one.  Without an error the
second one leaves the image that the first one has read, whatever the
completions, the pauses and the other uses of the pool have been.
-/

namespace Maxcso

open FileBytes Transition

namespace CompressionTask

/-! ## Zeros that are packed and unpacked -/

def zeroImage (length : Nat) : Bytes := List.replicate length 0

/-- A plain image of zeros, and a method that knows one block of them. -/
def packingEnv (length : Nat) (stream : Bytes) : Environment :=
  { Environment.ofFile (zeroImage length) with
    trials := fun _ block =>
      if block = zeroImage length then [⟨stream, .deflate⟩] else [] }

/-- A file, and a decompressor that knows one stream. -/
def unpackingEnv (length : Nat) (stream file : Bytes) : Environment :=
  { Environment.ofFile file with
    inflate := fun _ capacity data =>
      if data.take stream.length = stream ∧ length ≤ capacity then
        .ok (zeroImage length)
      else
        .error "Inflate failed" }

/-- The stream stands for the zeros. -/
def zeroForm (length : Nat) (stream data content : Bytes) : Prop :=
  data = stream ∧ content = zeroImage length

def zeroCodecs (length : Nat) (stream : Bytes) : Codecs :=
  ⟨zeroForm length stream, fun _ _ => False⟩

section

variable {task : Task} {length : Nat} {stream file image : Bytes}
variable {base : Input}

theorem trials_packingEnv {pos : Int} {block : Bytes} {trial : Trial}
    (member : trial ∈ (packingEnv length stream).trials pos block) :
    trial = ⟨stream, .deflate⟩ ∧ block = zeroImage length := by
  rw [packingEnv] at member
  dsimp only at member
  by_cases same : block = zeroImage length
  · rw [if_pos same] at member
    exact ⟨List.mem_singleton.mp member, same⟩
  · rw [if_neg same] at member
    cases member

theorem trials_zeroImage (pos : Int) :
    (packingEnv length stream).trials pos (zeroImage length) =
      [⟨stream, .deflate⟩] := if_pos rfl

theorem sourced_packingEnv (nonempty : stream ≠ []) (front : 24 ≤ length)
    (aligned : sectorSize ∣ length) :
    Sourced (packingEnv length stream) task (zeroImage length)
      (zeroImage length)
      (Input.isoBase (packingEnv length stream)
        (zeroImage length).length) := by
  have size : (zeroImage length).length = length := List.length_replicate
  have start : (zeroImage length).take 4 = [0, 0, 0, 0] := by
    rw [zeroImage, List.take_replicate, Nat.min_eq_left (by omega)]
    rfl
  refine ⟨?_, Environment.ofFile_completeReads _, ?_, .iso ?_ rfl, ?_⟩
  · intro pos block trial member
    rw [(trials_packingEnv member).1]
    exact nonempty
  · intro count
    show (0 : Int) ≠ -1
    decide
  · refine ⟨?_, ?_, ?_, ?_⟩
    · rw [size]
      exact front
    · rw [start]
      decide
    · rw [start]
      decide
    · rw [size]
      exact aligned
  · intro large
    exact Nat.not_lt_zero _ large.2

theorem sourced_unpackingEnv
    (restores : WritesImage task)
    (documented : (unpackingEnv length stream file).Documented file image
      base) :
    Sourced (unpackingEnv length stream file) task file image base := by
  refine ⟨?_, Environment.ofFile_completeReads _, ?_, documented, ?_⟩
  · intro pos block trial member
    cases member
  · intro count
    show (0 : Int) ≠ -1
    decide
  · intro large
    exact restores.stays _ large.1

theorem compresses_packingEnv (short : stream.length ≤ maxBlockSize * 2) :
    (packingEnv length stream).Compresses (zeroCodecs length stream) := by
  refine ⟨?_, ?_⟩
  · intro pos block trial member
    obtain ⟨same, zeros⟩ := trials_packingEnv member
    rw [same, zeros]
    exact ⟨rfl, rfl⟩
  · intro pos block trial member
    rw [(trials_packingEnv member).1]
    exact short

theorem compressesFrames_packingEnv (short : stream.length ≤ 16384) :
    (packingEnv length stream).CompressesFrames (zeroForm length stream) := by
  refine ⟨?_, ?_⟩
  · intro pos block trial member _
    obtain ⟨same, zeros⟩ := trials_packingEnv member
    rw [same, zeros]
    exact ⟨rfl, rfl⟩
  · intro pos block trial member
    rw [(trials_packingEnv member).1]
    exact short

theorem inflate_unpackingEnv (zlib : Bool) (padding : Bytes) {capacity : Nat}
    {data content : Bytes} (form : zeroForm length stream data content)
    (room : content.length ≤ capacity) :
    (unpackingEnv length stream file).inflate zlib capacity
      (data ++ padding) = .ok content := by
  obtain ⟨same, zeros⟩ := form
  subst same zeros
  rw [zeroImage, List.length_replicate] at room
  rw [unpackingEnv]
  dsimp only
  rw [if_pos ⟨List.take_left, room⟩]

theorem decodes_unpackingEnv :
    (unpackingEnv length stream file).DecodesPadded
      (zeroCodecs length stream) Zeros := by
  refine ⟨?_, ?_⟩
  · intro data content padding capacity form _ room
    exact inflate_unpackingEnv false padding form room
  · intro data content padding none
    exact none.elim

theorem inflates_unpackingEnv :
    DaxFile.Inflates (unpackingEnv length stream file)
      (zeroForm length stream) := by
  intro data content capacity form room
  have whole := @inflate_unpackingEnv length stream file true [] capacity
    data content form room
  rw [List.append_nil] at whole
  exact whole

theorem prepared_plainTask (flags : Nat) :
    Prepared (Writer.plainTask flags) .initial := by
  refine ⟨?_, Nat.le_refl 0⟩
  have default : (Writer.plainTask flags).blockSize = defaultBlockSize := rfl
  unfold firstBlockSize
  rw [if_pos default]
  split
  · exact ⟨_, rfl⟩
  · exact ⟨_, rfl⟩

/-- A CSO file of zeros is made, which can be decompressed. -/
theorem packs_zeros (aligned : sectorSize ∣ length)
    (front : 24 ≤ length) (small : length ≤ 2 ^ 31 - 2 ^ 23)
    (nonempty : stream ≠ []) (short : stream.length ≤ maxBlockSize * 2) :
    ∃ events job,
      Execution (step (packingEnv length stream) (Writer.plainTask 0))
          (Unhindered .succeed)
          (start (packingEnv length stream) (Writer.plainTask 0) .initial)
          events job ∧
        job.Drained ∧ ¬ job.Failed ∧
          job.file.length < 2 ^ (31 + job.output.indexShift) ∧
            ∃ base, (unpackingEnv length stream job.file).Documented job.file
              (zeroImage length) base := by
  have size : (zeroImage length).length = length := List.length_replicate
  have writes : WritesCso (Writer.plainTask 0) :=
    ⟨by decide, by decide, by decide⟩
  have suited : Suited (packingEnv length stream) (Writer.plainTask 0)
      (zeroImage length) := by
    apply suited_of_takes writes.notDax
    intro pos block trial member
    rw [(trials_packingEnv member).1]
    rfl
  have sourced := @sourced_packingEnv (Writer.plainTask 0) length stream
    nonempty front aligned
  have compresses := @compresses_packingEnv length stream short
  have few : (zeroImage length).length < 2 ^ 40 := by
    rw [size]
    omega
  obtain ⟨events, job, run, drained, unfailed, archive, reads, reader,
    written, same⟩ :=
    completes_of_favourable
      (favourable_of_suited sourced (prepared_plainTask 0) few
        (fun dax => absurd dax writes.notDax) suited) (Execution.nil _)
  have positions : job.file.length < 2 ^ (31 + job.output.indexShift) := by
    apply written.positions writes compresses
    rw [same, size]
    exact small
  obtain ⟨cso, described, paddedBy, limits⟩ := written.documented
    sourced.yields compresses writes (same ▸ few) positions
  rw [same] at described
  exact ⟨events, job, run, drained, unfailed, positions, _,
    .cso cso _ _ _ described paddedBy decodes_unpackingEnv limits⟩

/-- A file of zeros is decompressed. -/
theorem unpacks_zeros
    (documented : (unpackingEnv length stream file).Documented file image
      base) (small : image.length < 2 ^ 40) :
    ∃ events job,
      Execution (step (unpackingEnv length stream file)
          (Writer.plainTask taskflagDecompress)) (Unhindered .succeed)
          (start (unpackingEnv length stream file)
            (Writer.plainTask taskflagDecompress) .initial) events job ∧
        job.Drained ∧ ¬ job.Failed := by
  have restores : WritesImage (Writer.plainTask taskflagDecompress) :=
    ⟨by decide, by decide⟩
  have cso : format (Writer.plainTask taskflagDecompress).flags ≠ .dax := by
    decide
  obtain ⟨events, job, run, drained, unfailed, _⟩ :=
    completes_of_favourable
      (favourable_of_suited (sourced_unpackingEnv restores documented)
        (prepared_plainTask _) small (fun dax => absurd dax cso)
        (restores.suited cso)) (Execution.nil _)
  exact ⟨events, job, run, drained, unfailed⟩

end

/-- A plain image of one sector. -/
def sectorPacking : Environment :=
  packingEnv 2048 Writer.zeroSectorStream

def sectorUnpacking (file : Bytes) : Environment :=
  unpackingEnv 2048 Writer.zeroSectorStream file

/-- A plain image of one frame. -/
def framePacking : Environment :=
  packingEnv daxFrameSize Writer.zeroFrameStream

def frameUnpacking (file : Bytes) : Environment :=
  unpackingEnv daxFrameSize Writer.zeroFrameStream file

theorem restores_plainTask :
    WritesImage (Writer.plainTask taskflagDecompress) :=
  ⟨by decide, by decide⟩

theorem small_zeroSector : (zeroImage 2048).length < 2 ^ 40 := by
  rw [zeroImage, List.length_replicate]
  decide

theorem small_zeroFrame : (zeroImage daxFrameSize).length < 2 ^ 40 := by
  rw [zeroImage, List.length_replicate]
  simp only [daxFrameSize]
  omega

theorem sourced_zeroFrame :
    Sourced framePacking
      (Writer.plainTask taskflagFmtDax) (zeroImage daxFrameSize)
      (zeroImage daxFrameSize)
      (Input.isoBase framePacking
        (zeroImage daxFrameSize).length) :=
  sourced_packingEnv (by decide) (by decide) (by decide)

theorem packs_zeroSector :
    ∃ events job,
      Execution (step sectorPacking (Writer.plainTask 0))
          (Unhindered .succeed)
          (start sectorPacking (Writer.plainTask 0) .initial) events job ∧
        job.Drained ∧ ¬ job.Failed ∧
          job.file.length < 2 ^ (31 + job.output.indexShift) ∧
            ∃ base, (sectorUnpacking job.file).Documented job.file
              (zeroImage 2048) base :=
  packs_zeros (by decide) (by decide) (by decide) (by decide) (by decide)

/-- A DAX file of one frame of zeros is made, which can be decompressed. -/
theorem packs_zeroFrame :
    ∃ events job,
      Execution (step framePacking
          (Writer.plainTask taskflagFmtDax)) (Unhindered .succeed)
          (start framePacking
            (Writer.plainTask taskflagFmtDax) .initial) events job ∧
        job.Drained ∧ ¬ job.Failed ∧ ∃ base,
          (frameUnpacking job.file).Documented job.file
            (zeroImage daxFrameSize) base := by
  have size : (zeroImage daxFrameSize).length = daxFrameSize :=
    List.length_replicate
  have writes : WritesDax (Writer.plainTask taskflagFmtDax) :=
    ⟨by decide, by decide, by decide⟩
  have suited : Suited framePacking
      (Writer.plainTask taskflagFmtDax) (zeroImage daxFrameSize) := by
    apply writes.suited rfl
    · rw [size]
      decide
    · intro frame inside
      have only : frame = 0 := by
        rw [size] at inside
        simp only [daxFrameSize] at inside
        omega
      subst only
      have content : pread
          (zeroImage daxFrameSize ++ List.replicate daxFrameSize 0)
          (0 * daxFrameSize) daxFrameSize = zeroImage daxFrameSize := by
        rw [Nat.zero_mul, pread, List.drop_zero]
        exact List.take_left' size
      rw [content]
      have trials : framePacking.trials (0 * daxFrameSize : Nat)
          (zeroImage daxFrameSize) = [⟨Writer.zeroFrameStream, .deflate⟩] :=
        trials_zeroImage _
      dsimp only
      rw [trials]
      refine ⟨List.cons_ne_nil _ _, ?_⟩
      intro trial member
      rw [List.mem_singleton.mp member]
  obtain ⟨events, job, run, drained, unfailed, archive, reads, reader,
    written, same⟩ :=
    completes_of_favourable
      (favourable_of_suited sourced_zeroFrame (prepared_plainTask _)
        small_zeroFrame
        (fun _ pos frame trial member => by
          rw [(trials_packingEnv member).1]
          decide)
        suited) (Execution.nil _)
  obtain ⟨dax, described⟩ := written.daxDescribed
    (compressesFrames_packingEnv (by decide)) writes
  rw [same] at described
  exact ⟨events, job, run, drained, unfailed, _,
    .dax dax _ _ described inflates_unpackingEnv⟩

/-! ## Runs -/

section

variable {env : Environment} {task : Task} {may : TaskCompletions}
variable {pool : BufferPool} {job : CompressionTask}
variable {events : List TaskEvent} {file image : Bytes} {base : Input}
variable {codecs : Codecs}

/-- A task that ends without an error leaves a well-formed DAX file for the
image that its input stands for. -/
theorem writes_dax {zlib : Bytes → Bytes → Prop}
    (sourced : Sourced env task file image base)
    (compresses : env.CompressesFrames zlib) (writes : WritesDax task)
    (run : Execution (step env task) (Allowed may) (start env task pool)
      events job) (drained : job.Drained) (unfailed : ¬ job.Failed) :
    ∃ dax : DaxFile, dax.Describes zlib job.file image := by
  obtain ⟨archive, reads, reader, written, same⟩ :=
    writes_its_image sourced run drained unfailed
  subst same
  exact written.daxDescribed compresses writes

theorem writes_dax_zeros :
    ∃ events job,
      Execution (step framePacking
          (Writer.plainTask taskflagFmtDax)) (Allowed (.full framePacking))
          (start framePacking
            (Writer.plainTask taskflagFmtDax) .initial) events job ∧
        ∃ dax : DaxFile,
          dax.Describes (zeroForm daxFrameSize Writer.zeroFrameStream)
            job.file (zeroImage daxFrameSize) := by
  obtain ⟨events, job, run, drained, unfailed, _⟩ := packs_zeroFrame
  have full := full_of_run sourced_zeroFrame run
  exact ⟨events, job, full, writes_dax sourced_zeroFrame
    (compressesFrames_packingEnv (by decide))
    ⟨by decide, by decide, by decide⟩ full drained unfailed⟩

/-- A task that decompresses and ends without an error leaves the image that
its input stands for. -/
theorem restores_image
    (sourced : Sourced env task file image base) (restores : WritesImage task)
    (run : Execution (step env task) (Allowed may) (start env task pool)
      events job) (drained : job.Drained) (unfailed : ¬ job.Failed) :
    job.file = image := by
  obtain ⟨archive, reads, reader, written, same⟩ :=
    writes_its_image sourced run drained unfailed
  rw [written.restored restores, same]

theorem restores_image_zeros :
    ∃ file events job,
      Execution (step (sectorUnpacking file)
          (Writer.plainTask taskflagDecompress))
          (Allowed (.full (sectorUnpacking file)))
          (start (sectorUnpacking file)
            (Writer.plainTask taskflagDecompress) .initial) events job ∧
        job.file = zeroImage 2048 := by
  obtain ⟨_, packed, _, _, _, _, base, documented⟩ := packs_zeroSector
  obtain ⟨events, job, run, drained, unfailed⟩ :=
    unpacks_zeros documented small_zeroSector
  have sourced := sourced_unpackingEnv restores_plainTask documented
  have full := full_of_run sourced run
  exact ⟨packed.file, events, job, full,
    restores_image sourced restores_plainTask full drained unfailed⟩

end

section

variable {env env' : Environment} {task task' : Task}
variable {may may' : TaskCompletions} {pool pool' : BufferPool}
variable {job job' : CompressionTask} {events events' : List TaskEvent}
variable {file image : Bytes} {base : Input}

/-- The same for DAX files. -/
theorem dax_there_and_back {zlib : Bytes → Bytes → Prop}
    (sourced : Sourced env task file image base)
    (compresses : env.CompressesFrames zlib) (writes : WritesDax task)
    (run : Execution (step env task) (Allowed may) (start env task pool)
      events job) (drained : job.Drained) (unfailed : ¬ job.Failed)
    (yields : env'.Yields) (inflates : DaxFile.Inflates env' zlib)
    (complete : env'.CompleteReads job.file)
    (works : ∀ count, env'.workStatus count ≠ -1)
    (restores : WritesImage task')
    (run' : Execution (step env' task') (Allowed may')
      (start env' task' pool') events' job') (drained' : job'.Drained)
    (unfailed' : ¬ job'.Failed) : job'.file = image := by
  obtain ⟨archive, reads, reader, written, same⟩ :=
    writes_its_image sourced run drained unfailed
  subst same
  obtain ⟨dax, described⟩ := written.daxDescribed compresses writes
  have sourced' : Sourced env' task' job.file archive.image (dax.base env') :=
    ⟨yields, complete, works, .dax dax _ _ described inflates,
      fun large => restores.stays _ large.1⟩
  obtain ⟨archive', reads', reader', written', same⟩ :=
    writes_its_image sourced' run' drained' unfailed'
  rw [written'.restored restores, same]

theorem dax_there_and_back_zeros :
    ∃ file events job,
      Execution (step (frameUnpacking file)
          (Writer.plainTask taskflagDecompress))
          (Allowed (.full (frameUnpacking file)))
          (start (frameUnpacking file)
            (Writer.plainTask taskflagDecompress) .initial) events job ∧
        job.file = zeroImage daxFrameSize := by
  obtain ⟨_, packed, run, drained, unfailed, base, documented⟩ :=
    packs_zeroFrame
  obtain ⟨events, job, run', drained', unfailed'⟩ :=
    unpacks_zeros documented small_zeroFrame
  have sourced := sourced_unpackingEnv restores_plainTask documented
  have full := full_of_run sourced run'
  refine ⟨packed.file, events, job, full, ?_⟩
  exact dax_there_and_back sourced_zeroFrame
    (compressesFrames_packingEnv (by decide)) ⟨by decide, by decide, by decide⟩
    (full_of_run sourced_zeroFrame run) drained unfailed sourced.yields
    inflates_unpackingEnv sourced.complete sourced.works
    restores_plainTask full drained' unfailed'

end

end CompressionTask

end Maxcso
