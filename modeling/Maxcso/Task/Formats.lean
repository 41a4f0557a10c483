import Maxcso.RoundTrip.Cso
import Maxcso.RoundTrip.Dax
import Maxcso.Task.Succeeding

/-!
# Which tasks succeed, and what they leave

While everything outside it succeeds, whether a task succeeds depends on its
options, on the image, and on the methods that compress the blocks, and not on
the order in which the completions arrive.
-/

namespace Maxcso

open FileBytes Transition

/-- The methods return compressed forms of the blocks, in buffers of the
pool. -/
structure Environment.Compresses (env : Environment) (codecs : Codecs) :
    Prop where
  form : ∀ pos block, ∀ trial ∈ env.trials pos block,
    codecs.form trial.format trial.data block
  fits : ∀ pos block, ∀ trial ∈ env.trials pos block,
    trial.data.length ≤ maxBlockSize * 2

/-- The methods return zlib streams of the frames, of at most 16384 bytes. -/
structure Environment.CompressesFrames (env : Environment)
    (zlib : Bytes → Bytes → Prop) : Prop where
  zlib : ∀ pos frame, ∀ trial ∈ env.trials pos frame,
    trial.format = .deflate → zlib trial.data frame
  short : ∀ pos frame, ∀ trial ∈ env.trials pos frame,
    trial.data.length ≤ 16384

/-- Padding with zeros. -/
def Zeros (padding : Bytes) : Prop := ∃ count, padding = List.replicate count 0

namespace CompressionTask

/-- `SetFile` accepts the image, and the container has the formats that the
blocks are kept in. -/
def Suited (env : Environment) (task : Task) (image : Bytes) : Prop :=
  ∀ config : WriterConfig, Opens task config →
    config.srcSize = image.length →
      config.Accepted env ∧ ∀ block < config.blocks,
        Output.refusal config.fmt (config.kept env image block).1 = none

/-- What the methods return for a DAX file fits in its table. -/
def ShortFrames (env : Environment) (task : Task) : Prop :=
  format task.flags = .dax → ∀ pos frame,
    ∀ trial ∈ env.trials pos frame, trial.data.length < 2 ^ 16

/-- A task that writes a CSO or ZSO file. -/
structure WritesCso (task : Task) : Prop where
  compresses : hasFlag task.flags taskflagDecompress = false
  hasFile : hasFlag task.flags taskflagMeasure = false
  noDaxFlag : hasFlag task.flags taskflagFmtDax = false

/-- A task that writes a DAX file. -/
structure WritesDax (task : Task) : Prop where
  compresses : hasFlag task.flags taskflagDecompress = false
  hasFile : hasFlag task.flags taskflagMeasure = false
  format : format task.flags = .dax

/-- A task that writes the image. -/
structure WritesImage (task : Task) : Prop where
  decompresses : hasFlag task.flags taskflagDecompress = true
  hasFile : hasFlag task.flags taskflagMeasure = false

section

variable {env : Environment} {task : Task} {may : TaskCompletions}
variable {initial pool : BufferPool} {job : CompressionTask}
variable {events : List TaskEvent} {archive : Archive}
variable {reads : List ReaderEvent} {reader : Reader}
variable {file image : Bytes} {base : Input} {codecs : Codecs}
variable {config config' : WriterConfig}

/-! ## The settings of a task -/

theorem firstBlockSize_of_enqueue {first : Nat}
    (enqueued : (enqueue task pool).2 = .ok first) :
    firstBlockSize task = .ok first := by
  unfold enqueue at enqueued
  cases chosen : firstBlockSize task with
  | error reason =>
      rw [chosen] at enqueued
      cases enqueued
  | ok size =>
      rw [chosen] at enqueued
      rw [(of_resize enqueued).1]

instance (size : Int) : Decidable (Resizes task size) :=
  inferInstanceAs (Decidable (_ ∧ _ ∧ _))

theorem Opens.blockSize_eq (opens : Opens task config) {first : Nat}
    (chosen : firstBlockSize task = .ok first) :
    config.blockSize =
      if Resizes task config.srcSize then largeBlockSize else first := by
  obtain ⟨_, pool', first', enqueued, begins⟩ := opens.blockSize
  have same : first' = first := by
    have known := firstBlockSize_of_enqueue enqueued
    rw [chosen] at known
    exact (Except.ok.inj known).symm
  subst same
  by_cases resizes : Resizes task config.srcSize
  · rw [begin_resizes resizes] at begins
    rw [if_pos resizes]
    exact (of_resize begins).1
  · rw [begin_stays resizes] at begins
    rw [if_neg resizes]
    exact (Except.ok.inj begins).symm

/-- The options and the size of the image decide on the settings. -/
theorem Opens.unique (opens : Opens task config)
    (opens' : Opens task config') (size : config.srcSize = config'.srcSize) :
    config = config' := by
  obtain ⟨_, _, first, enqueued, _⟩ := opens.blockSize
  have chosen := firstBlockSize_of_enqueue enqueued
  have blockSize : config.blockSize = config'.blockSize := by
    rw [opens.blockSize_eq chosen, opens'.blockSize_eq chosen, size]
  have shift : config.shift = config'.shift :=
    Nat.pow_right_injective (Nat.le_refl 2) blockSize
  have origMaxCost : config.origMaxCost = config'.origMaxCost := by
    rw [opens.origMaxCost, opens'.origMaxCost, blockSize]
  have lz4MaxCost : config.lz4MaxCost = config'.lz4MaxCost := by
    rw [opens.lz4MaxCost, opens'.lz4MaxCost, blockSize]
  have flags := opens.flags.trans opens'.flags.symm
  have fmt := opens.fmt.trans opens'.fmt.symm
  have noFile := opens.noFile.trans opens'.noFile.symm
  cases config
  cases config'
  dsimp only at *
  subst flags fmt noFile size shift origMaxCost lz4MaxCost
  rfl

/-! ## When a task succeeds -/

/-- There are at most as many blocks as sectors. -/
theorem blocks_le (config : WriterConfig) :
    2048 * (config.blocks - 1) ≤ config.srcSize := by
  have bounds := config.blockSize_bounds
  have size := config.srcSize_bounds
  have wide : (config.blocks - 1) * 2048 ≤
      (config.blocks - 1) * config.blockSize :=
    Nat.mul_le_mul_left _ bounds.1
  rw [Nat.sub_mul, Nat.sub_mul] at wide
  omega

/-- What is accepted for a DAX file comes from one of the methods. -/
theorem exists_trial (dax : archive.fmt = .dax)
    (compresses : archive.decompressing = false) (vetted : archive.Vetted)
    {frame : Nat} (inside : frame < archive.blocks) :
    ∃ trial ∈ archive.env.trials (frame * archive.blockSize : Nat)
        (archive.content frame),
      archive.stored frame = (trial.format, trial.data) ∧
        trial.format = .deflate := by
  have fine := vetted frame inside
  have stored : archive.stored frame =
      archive.template.result archive.env (frame * archive.blockSize : Nat)
        (archive.content frame) := by
    rw [Archive.stored, compresses, if_neg Bool.false_ne_true]
  rw [dax, stored] at fine
  rw [stored]
  rcases Sector.result_cases archive.env archive.template
      (frame * archive.blockSize : Nat) (archive.content frame) with
    raw | ⟨trial, member, same, _⟩
  · rw [raw] at fine
    cases fine
  · refine ⟨trial, member, same, ?_⟩
    rw [same] at fine
    cases format : trial.format with
    | deflate => rfl
    | orig | lz4 =>
        rw [format] at fine
        cases fine

/-- What is needed for success is that the task suits the image. -/
theorem favourable_of_suited
    (sourced : Sourced env task file image base)
    (prepared : Prepared task pool) (small : image.length < 2 ^ 40)
    (short : ShortFrames env task) (suited : Suited env task image) :
    Favourable env task pool file image base := by
  refine ⟨sourced, prepared, ?_, ?_⟩
  · intro config opens size
    exact (suited config opens size).1
  · intro archive sameEnv opens size same
    subst sameEnv same
    have vetted : archive.Vetted := (suited _ opens size).2
    refine ⟨⟨vetted, ?_⟩, ?_, ?_⟩
    · intro block inside
      exact Archive.stored_ne_nil sourced.yields inside
    · have least := blocks_le archive.toWriterConfig
      rw [← size] at small
      rw [Archive.indexPasses_iff, Archive.entries]
      right
      right
      omega
    · apply Archive.report_of_fits _ vetted
      intro compresses dax _ frame inside
      obtain ⟨trial, member, same, _⟩ :=
        exists_trial dax compresses vetted inside
      have data : (archive.kept archive.env archive.image frame).2 =
          trial.data := congrArg Prod.snd same
      rw [data]
      exact short (opens.fmt.symm.trans dax) _ _ trial member

theorem WritesCso.notDax (writes : WritesCso task) :
    format task.flags ≠ .dax := by
  intro dax
  have flag := daxFlag_of_format dax
  rw [writes.noDaxFlag] at flag
  cases flag

theorem refusal_orig {fmt : CsoFormat} (cso : fmt ≠ .dax) :
    Output.refusal fmt .orig = none := by
  cases fmt with
  | dax => exact absurd rfl cso
  | cso1 | cso2 | zso => rfl

/-- The methods return formats that the container has. -/
theorem suited_of_takes (cso : format task.flags ≠ .dax)
    (takes : ∀ pos block, ∀ trial ∈ env.trials pos block,
      Output.refusal (format task.flags) trial.format = none) :
    Suited env task image := by
  intro config opens size
  rw [← opens.fmt] at cso takes
  refine ⟨WriterConfig.accepted_of_not_dax cso, ?_⟩
  intro block inside
  unfold WriterConfig.kept
  split
  · exact refusal_orig cso
  · rcases Sector.result_cases env config.template
      (block * config.blockSize : Nat) _ with raw | ⟨trial, member, same, _⟩
    · rw [raw]
      exact refusal_orig cso
    · rw [same]
      exact takes _ _ trial member

/-- Nothing is compressed. -/
theorem WritesImage.suited (writes : WritesImage task)
    (cso : format task.flags ≠ .dax) : Suited env task image := by
  intro config opens size
  rw [← opens.fmt] at cso
  refine ⟨WriterConfig.accepted_of_not_dax cso, ?_⟩
  intro block inside
  have decompresses : config.decompressing = true := by
    rw [WriterConfig.decompressing, opens.flags]
    exact writes.decompresses
  unfold WriterConfig.kept
  dsimp only
  rw [if_pos decompresses]
  exact refusal_orig cso

/-- A method returns something for every frame of the image, and nothing but
zlib streams. -/
def DeflatesFrames (env : Environment) (image : Bytes) : Prop :=
  ∀ frame, frame * daxFrameSize < image.length →
    let content := pread (image ++ List.replicate daxFrameSize 0)
      (frame * daxFrameSize) daxFrameSize
    env.trials (frame * daxFrameSize : Nat) content ≠ [] ∧
      ∀ trial ∈ env.trials (frame * daxFrameSize : Nat) content,
        trial.format = .deflate

/-- The frames are counted from the size of the image. -/
theorem shift_of_dax (compresses : config.decompressing = false)
    (flag : hasFlag config.flags taskflagFmtDax = true)
    (small : config.srcSize ≤ 2 ^ 31 - 2 ^ 24) : config.indexShift = 0 := by
  have least := blocks_le config
  have first : config.first = daxHeaderSize + 6 * config.blocks := by
    rw [WriterConfig.decompressing] at compresses
    rw [WriterConfig.first, Output.dstFirstSectorPos, compresses, flag,
      config.blocks_eq _ config.blockShift, toUint32_natCast]
    simp only [Bool.false_eq_true, if_false, if_true]
    omega
  have sum : (config.first : Int) + config.srcSize =
      ((daxHeaderSize + 6 * config.blocks + config.srcSize : Nat) :
        Int) := by
    rw [first]
    omega
  have log : Nat.log2 (daxHeaderSize + 6 * config.blocks + config.srcSize) <
      31 := by
    apply (Nat.log2_lt (by simp only [daxHeaderSize]; omega)).mpr
    simp only [daxHeaderSize]
    omega
  rw [WriterConfig.indexShift,
    if_neg (by rw [compresses]; exact Bool.false_ne_true), sum,
    Output.shiftForSize_eq (by simp only [daxHeaderSize]; omega)]
  omega

/-- Images of less than 2 GiB whose frames can be compressed are accepted. -/
theorem WritesDax.suited (writes : WritesDax task)
    (frames : firstBlockSize task = .ok daxFrameSize)
    (small : image.length ≤ 2 ^ 31 - 2 ^ 24)
    (deflates : DeflatesFrames env image) : Suited env task image := by
  intro config opens size
  have dax : config.fmt = .dax := opens.fmt.trans writes.format
  have flag : hasFlag config.flags taskflagFmtDax = true := by
    rw [opens.flags]
    exact daxFlag_of_format writes.format
  have compresses : config.decompressing = false := by
    rw [WriterConfig.decompressing, opens.flags]
    exact writes.compresses
  have stays : ¬ Resizes task config.srcSize := by
    intro resizes
    have large := resizes.2.2
    simp only [largeBlockSizeThresh] at large
    omega
  have blockSize : config.blockSize = daxFrameSize := by
    rw [opens.blockSize_eq frames, if_neg stays]
  refine ⟨WriterConfig.accepted_iff.mpr fun _ => ⟨?_, ?_, blockSize⟩, ?_⟩
  · exact shift_of_dax compresses flag (by omega)
  · omega
  · intro frame inside
    have below : frame * config.blockSize < image.length := by
      have last := config.srcSize_bounds.2
      have next : (frame + 1) * config.blockSize ≤
          config.blocks * config.blockSize :=
        Nat.mul_le_mul_right _ inside
      rw [Nat.add_mul, Nat.one_mul] at next
      omega
    rw [blockSize] at below
    obtain ⟨some, deflated⟩ := deflates frame below
    have deflate : (config.template.result env (frame * daxFrameSize : Nat)
        (pread (image ++ List.replicate daxFrameSize 0)
          (frame * daxFrameSize) daxFrameSize)).1 = .deflate :=
      Sector.bestOf_dax flag deflated some
    unfold WriterConfig.kept
    rw [dax, compresses, blockSize, if_neg Bool.false_ne_true, deflate]
    rfl

/-! ## The files of tasks -/

/-- Whole sectors have been read. -/
theorem Written.sectors
    (written : Written env task may initial job archive reads reader) :
    sectorSize ∣ archive.srcSize := by
  rw [← written.whole, archive.length]
  exact archive.sectorSize_dvd_sourceSize

theorem Written.compressing
    (written : Written env task may initial job archive reads reader)
    (compresses : hasFlag task.flags taskflagDecompress = false)
    (saves : hasFlag task.flags taskflagMeasure = false)
    (few : archive.Few) :
    archive.decompressing = false ∧ archive.noFile = false ∧
      job.file = archive.file ∧ archive.Apart := by
  have flags := written.opens.flags
  have compressing : archive.decompressing = false := by
    rw [WriterConfig.decompressing, flags]
    exact compresses
  have hasFile : archive.noFile = false := written.opens.noFile.trans saves
  have chosen : archive.fmt = format archive.flags := by
    rw [flags]
    exact written.opens.fmt
  have immediate : archive.immediate = false :=
    Bool.or_eq_false_iff.mpr ⟨compressing, hasFile⟩
  refine ⟨compressing, hasFile, ?_, ?_⟩
  · rw [written.file hasFile fun _ => few, Archive.outputFile, compressing,
      if_neg Bool.false_ne_true]
  · rw [Archive.Apart, (Output.indexWrite_expected few).length]
    exact Archive.leads chosen immediate

theorem Written.admissible
    (written : Written env task may initial job archive reads reader)
    (yields : env.Yields) : archive.Admissible := by
  refine ⟨written.vetted, ?_⟩
  intro block inside
  apply Archive.stored_ne_nil
  · rw [written.sameEnv]
    exact yields
  · exact inside

/-! ## CSO and ZSO files -/

/-- The settings that the writer of such a task has. -/
theorem Written.forCsoFile
    (written : Written env task may initial job archive reads reader)
    (writes : WritesCso task) (small : archive.image.length < 2 ^ 40)
    (positions : job.file.length < 2 ^ (31 + job.output.indexShift)) :
    archive.ForCsoFile ∧ archive.blocks + 1 < 2 ^ 30 ∧
      job.file = archive.file ∧ archive.Apart := by
  have least := blocks_le archive.toWriterConfig
  rw [written.whole] at small
  have few : archive.blocks + 1 < 2 ^ 30 := by omega
  obtain ⟨compressing, hasFile, file, apart⟩ :=
    written.compressing writes.compresses writes.hasFile (by
      unfold Archive.Few
      omega)
  have flags := written.opens.flags
  have shift : job.output.indexShift = archive.indexShift := by
    rw [written.settings.indexShift, Archive.base_eq]
  refine ⟨⟨⟨?_, compressing, hasFile, ?_, ?_⟩, ?_, written.sectors⟩, few,
    file, apart⟩
  · rw [flags]
    exact written.opens.fmt
  · simp only [csoHeaderSize]
    omega
  · intro block inside
    have order := archive.pos_mono inside
    have total := Archive.length_file apart
    rw [file, shift, Nat.pow_add] at positions
    have wide : archive.pos block <
        ((2 ^ 31 * 2 ^ archive.indexShift : Nat) : Int) := by
      omega
    apply Int.ediv_lt_of_lt_mul
    · exact Int.pow_pos (by decide)
    · push_cast at wide
      exact wide
  · rw [flags]
    exact writes.noDaxFlag

theorem Written.compressedWith
    (written : Written env task may initial job archive reads reader)
    (compresses : env.Compresses codecs) :
    archive.CompressedWith codecs := by
  have sameEnv := written.sameEnv
  refine ⟨?_, ?_⟩
  · intro block _ trial member
    rw [sameEnv] at member
    exact compresses.form _ _ trial member
  · intro block _ trial member
    rw [sameEnv] at member
    exact compresses.fits _ _ trial member

/-- Blocks take up no more room than raw ones. -/
theorem pos_le_raw (forCso : archive.ForCso)
    (fits : ∀ pos block, ∀ trial ∈ archive.env.trials pos block,
      trial.data.length ≤ maxBlockSize * 2) {block : Nat}
    (inside : block ≤ archive.blocks) :
    archive.pos block ≤ (RoundUp.roundUp archive.indexAlign
      archive.tableEnd + block * archive.blockSize : Nat) := by
  have left : ∀ other < archive.blocks, archive.LeftBehind
      (if archive.size other = archive.blockSize then .orig else .deflate)
      (archive.size other) := by
    intro other below
    by_cases raw : archive.size other = archive.blockSize
    · rw [if_pos raw]
      exact Or.inl ⟨rfl, raw⟩
    · rw [if_neg raw]
      refine Or.inr ⟨SectorFormat.noConfusion, ?_⟩
      have stored : archive.stored other =
          archive.template.result archive.env
            (other * archive.blockSize : Nat) (archive.content other) := by
        rw [Archive.stored, forCso.compresses, if_neg Bool.false_ne_true]
      rcases Sector.result_cases archive.env archive.template
          (other * archive.blockSize : Nat) (archive.content other) with
        same | ⟨trial, member, same, smaller⟩
      · rw [Archive.size, stored, same] at raw
        exact absurd (Archive.length_content below) raw
      · have short := fits _ _ trial member
        have shallow : archive.indexAlign ≤ 2 ^ 11 :=
          Nat.pow_le_pow_right (by decide) forCso.indexShift_le
        have aligned := @Sector.alignedBestSize_eq
          { archive.template with bestSize := trial.data.length }
          archive.indexAlign archive.indexAlign_bounds.1 (by
            show trial.data.length + _ ≤ _
            simp only [maxBlockSize] at short
            omega)
        rw [Archive.size, stored, same]
        exact lt_of_eq_of_lt aligned.symm (smaller forCso.notDaxFlag)
  exact Archive.pos_le forCso left inside

/-- The entries for images of less than 2 GiB do not overflow. -/
theorem Written.positions
    (written : Written env task may initial job archive reads reader)
    (writes : WritesCso task) (compresses : env.Compresses codecs)
    (small : archive.image.length ≤ 2 ^ 31 - 2 ^ 23) :
    job.file.length < 2 ^ (31 + job.output.indexShift) := by
  have least := blocks_le archive.toWriterConfig
  have bounds := archive.blockSize_bounds
  have size := archive.srcSize_bounds
  rw [written.whole] at small
  have fewBlocks : archive.blocks ≤ 2 ^ 20 := by omega
  obtain ⟨compressing, hasFile, file, apart⟩ :=
    written.compressing writes.compresses writes.hasFile (by
      unfold Archive.Few
      omega)
  have flags := written.opens.flags
  have forCso : archive.ForCso := by
    refine ⟨?_, ?_, compressing, ?_⟩
    · rw [written.opens.fmt]
      exact writes.notDax
    · rw [flags]
      exact writes.noDaxFlag
    · simp only [csoHeaderSize]
      omega
  have sameEnv := written.sameEnv
  have high := pos_le_raw forCso
    (fun pos block trial member =>
      compresses.fits pos block trial (sameEnv ▸ member))
    (Nat.le_refl archive.blocks)
  have total := Archive.length_file apart
  have next := RoundUp.roundUp_lt_add archive.indexAlign_bounds.1
    archive.tableEnd
  have shallow : archive.indexAlign ≤ 2 ^ 11 :=
    Nat.pow_le_pow_right (by decide) forCso.indexShift_le
  have table : archive.tableEnd = 24 + 4 * (archive.blocks + 1) := rfl
  have last : archive.blocks * archive.blockSize <
      archive.srcSize + archive.blockSize := size.2
  have most : archive.blockSize ≤ 2 ^ 18 := bounds.2
  have wide : 2 ^ 31 ≤ 2 ^ (31 + job.output.indexShift) :=
    Nat.pow_le_pow_right (by decide) (Nat.le_add_right _ _)
  rw [file]
  omega

/-- The file that has been written is well formed and within the limits of
the reader. -/
theorem Written.documented
    (written : Written env task may initial job archive reads reader)
    (yields : env.Yields) (compresses : env.Compresses codecs)
    (writes : WritesCso task) (small : archive.image.length < 2 ^ 40)
    (positions : job.file.length < 2 ^ (31 + job.output.indexShift)) :
    ∃ cso : CsoFile, cso.Describes codecs job.file archive.image ∧
      cso.PaddedBy job.file Zeros ∧
        cso.WithinLimits (cso.header.sectorSize * 2) := by
  obtain ⟨settings, few, same, apart⟩ :=
    written.forCsoFile writes small positions
  have compressed := written.compressedWith compresses
  have width : archive.csoFile.header.sectorSize = archive.blockSize := by
    rw [Archive.csoFile_header settings]
  rw [same]
  refine ⟨archive.csoFile, ?_, ?_, ?_⟩
  · exact Archive.csoFile_describes settings (written.admissible yields)
      compressed few apart
  · exact Writer.csoFile_paddedBy settings apart
  · exact Archive.csoFile_withinLimits settings compressed few
      (Nat.mul_le_mul_right 2 width.ge)

/-! ## DAX files -/

/-- What `SetFile` accepts for a DAX file ends before 2 GiB. -/
theorem daxEnd_lt (dax : archive.fmt = .dax)
    (chosen : archive.fmt = format archive.flags)
    (compresses : archive.decompressing = false) :
    daxHeaderSize + 6 * archive.blocks + archive.srcSize < 2 ^ 31 := by
  obtain ⟨shift, small, _⟩ :=
    WriterConfig.accepted_iff.mp archive.accepted dax
  have few := Archive.blocks_of_dax dax
  have flag := daxFlag_of_format (chosen.symm.trans dax)
  have first : archive.first = daxHeaderSize + 6 * archive.blocks := by
    rw [WriterConfig.decompressing] at compresses
    rw [WriterConfig.first, Output.dstFirstSectorPos, compresses, flag,
      archive.blocks_eq _ archive.blockShift, toUint32_natCast]
    simp only [Bool.false_eq_true, if_false, if_true]
    omega
  have sum : (archive.first : Int) + archive.srcSize =
      ((daxHeaderSize + 6 * archive.blocks + archive.srcSize : Nat) :
        Int) := by
    rw [first]
    omega
  rw [WriterConfig.indexShift,
    if_neg (by rw [compresses]; exact Bool.false_ne_true), sum,
    Output.shiftForSize_eq (by simp only [daxHeaderSize]; omega)] at shift
  apply (Nat.log2_lt (by simp only [daxHeaderSize]; omega)).mp
  omega

/-- The settings that the writer of a DAX file has. -/
theorem Written.forDax
    (written : Written env task may initial job archive reads reader)
    (writes : WritesDax task) :
    archive.ForDax ∧ job.file = archive.file ∧ archive.Apart := by
  have flags := written.opens.flags
  have dax : archive.fmt = .dax := written.opens.fmt.trans writes.format
  have chosen : archive.fmt = format archive.flags := by
    rw [flags]
    exact written.opens.fmt
  obtain ⟨compressing, hasFile, file, apart⟩ :=
    written.compressing writes.compresses writes.hasFile
      (Archive.few_of_dax dax)
  have width :=
    (WriterConfig.accepted_iff.mp archive.accepted dax).2.2
  refine ⟨⟨dax, chosen, compressing, hasFile, ?_, written.sectors,
    daxEnd_lt dax chosen compressing⟩, file, apart⟩
  have power : 2 ^ archive.shift = 2 ^ 13 := width
  exact Nat.pow_right_injective (Nat.le_refl 2) power

theorem zlibFrames_of_vetted {zlib : Bytes → Bytes → Prop}
    (settings : archive.ForDax) (vetted : archive.Vetted)
    (compresses : archive.env.CompressesFrames zlib) :
    ZlibFrames archive.toWriterConfig archive.env archive.image zlib := by
  refine ⟨?_, ?_, ?_⟩
  · intro frame inside
    obtain ⟨trial, _, same, deflate⟩ := exists_trial settings.fmt
      settings.compresses vetted inside
    exact (congrArg Prod.fst same).trans deflate
  · intro frame inside
    obtain ⟨trial, member, same, _⟩ := exists_trial settings.fmt
      settings.compresses vetted inside
    have data := congrArg Prod.snd same
    have short := compresses.short _ _ trial member
    exact (congrArg List.length data).trans_le short
  · intro frame inside
    obtain ⟨trial, member, same, deflate⟩ :=
      exists_trial settings.fmt settings.compresses vetted inside
    have data : (archive.kept archive.env archive.image frame).2 =
        trial.data := congrArg Prod.snd same
    rw [data]
    exact compresses.zlib _ _ trial member deflate

/-- The file that has been written is well formed. -/
theorem Written.daxDescribed {zlib : Bytes → Bytes → Prop}
    (written : Written env task may initial job archive reads reader)
    (compresses : env.CompressesFrames zlib) (writes : WritesDax task) :
    ∃ dax : DaxFile, dax.Describes zlib job.file archive.image := by
  obtain ⟨settings, same, apart⟩ := written.forDax writes
  rw [← written.sameEnv] at compresses
  rw [same]
  exact ⟨archive.daxFile, Archive.daxFile_describes settings written.whole
    (zlibFrames_of_vetted settings written.vetted compresses) apart⟩

/-! ## The image again -/

theorem Written.restored
    (written : Written env task may initial job archive reads reader)
    (writes : WritesImage task) : job.file = archive.image := by
  have decompressing : archive.decompressing = true := by
    rw [WriterConfig.decompressing, written.opens.flags]
    exact writes.decompresses
  rw [written.file (written.opens.noFile.trans writes.hasFile) ?_,
    Archive.outputFile, decompressing, if_pos rfl]
  intro compressing
  rw [decompressing] at compressing
  cases compressing

/-- A task that decompresses keeps its block size. -/
theorem WritesImage.stays (writes : WritesImage task) (size : Int) :
    ¬ Resizes task size := by
  intro resizes
  have compresses := resizes.1
  rw [writes.decompresses] at compresses
  cases compresses

end

end CompressionTask

end Maxcso
