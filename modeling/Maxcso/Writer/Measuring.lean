import Maxcso.Writer.Outcomes

/-!
# Measuring

A run without an output file reports the size of the file that a run with one
writes.
-/

namespace Maxcso

open RoundUp

namespace WriterConfig

/-- The same settings with or without an output file. -/
def withFile (config : WriterConfig) (noFile : Bool) : WriterConfig :=
  { config with noFile := noFile }

/-- `SetFile` does not look at the file. -/
theorem accepted_withFile
    {config : WriterConfig} {env : Environment} (noFile : Bool)
    (accepted : config.Accepted env) :
    (config.withFile noFile).Accepted env :=
  accepted_iff.mpr (@accepted_iff config env |>.mp accepted)

end WriterConfig

namespace Archive

/-- The same archive with or without an output file. -/
def withFile (archive : Archive) (noFile : Bool) : Archive where
  toWriterConfig := archive.toWriterConfig.withFile noFile
  env := archive.env
  image := archive.image
  length := archive.length
  accepted := WriterConfig.accepted_withFile noFile archive.accepted

section

variable {archive : Archive}

theorem pos_withFile (noFile : Bool) (block : Nat) :
    (archive.withFile noFile).pos block = archive.pos block := by
  induction block with
  | zero => rw [pos_zero, pos_zero]; rfl
  | succ block inductionHypothesis =>
      have written : (archive.withFile noFile).written block =
          archive.written block := by
        unfold written
        rw [inductionHypothesis, base_eq, base_eq]
        rfl
      obtain ⟨place, same⟩ := Int.eq_ofNat_of_zero_le
        (show 0 ≤ archive.pos block + archive.written block by
          have nonneg := archive.pos_nonneg block
          omega)
      rw [pos_succ, pos_succ, inductionHypothesis, written, same,
        base_align, base_align]
      rfl

theorem admissible_withFile
    (admissible : archive.Admissible) (noFile : Bool) :
    (archive.withFile noFile).Admissible :=
  ⟨admissible.format, admissible.nonempty⟩

end

/-- Runs with and without a file keep inside the index, can be completed and
report the same size, once each, which is that of the file. -/
structure MeasureAgrees (archive : Archive) : Prop where
  inside : archive.IndexInside
  completes : ∀ {noFile : Bool} {pool : BufferPool}
    {events : List WriterEvent} {writer : Writer},
    archive.blockSize ≤ pool.bufferSize →
      Writer.Run (archive.toWriterConfig.withFile noFile) archive.env
        archive.image .full
        (Writer.start archive.env (archive.toWriterConfig.withFile noFile)
          pool) events writer →
        ∃ more last,
          Writer.Run (archive.toWriterConfig.withFile noFile) archive.env
            archive.image .full writer more last ∧ last.Done
  agrees : ∀ {pool pool' : BufferPool}
    {events events' : List WriterEvent} {measured written : Writer},
    archive.blockSize ≤ pool.bufferSize →
      archive.blockSize ≤ pool'.bufferSize →
        Writer.Run (archive.toWriterConfig.withFile true) archive.env
            archive.image .full
            (Writer.start archive.env
              (archive.toWriterConfig.withFile true) pool)
            events measured → measured.Done →
          Writer.Run (archive.toWriterConfig.withFile false) archive.env
              archive.image .full
              (Writer.start archive.env
                (archive.toWriterConfig.withFile false) pool')
              events' written → written.Done →
            ∃ size : Nat, Writer.successNotes measured.notes = [(size : Int)] ∧
              Writer.successNotes written.notes = [(size : Int)] ∧
              written.file.length = size

section

variable {archive : Archive}

/-- The first number that is negative in 32 bits is 2 ^ 31. -/
theorem indexInside_iff :
    archive.IndexInside ↔ archive.blocks < 2 ^ 31 := by
  unfold IndexInside entries
  constructor
  · intro inside
    by_contra many
    have negative := (inside (2 ^ 31) (not_lt.mp many)).1
    simp [toInt32] at negative
  · intro few block below
    unfold toInt32
    rw [if_pos (by omega)]
    omega

/-- The index is neither cut nor left. -/
theorem holds_iff :
    (archive.decompressing = true ∨ archive.fmt = .dax ∨
        archive.entries * 4 < 2 ^ 32) ∧ archive.blocks < 2 ^ 31 ↔
      (archive.decompressing = true ∧ archive.blocks < 2 ^ 31) ∨
        archive.fmt = .dax ∨ archive.blocks + 1 < 2 ^ 30 := by
  unfold entries
  constructor
  · rintro ⟨decompresses | dax | short, inside⟩
    · exact Or.inl ⟨decompresses, inside⟩
    · exact Or.inr (Or.inl dax)
    · exact Or.inr (Or.inr (by omega))
  · rintro (⟨decompresses, inside⟩ | dax | short)
    · exact ⟨Or.inl decompresses, inside⟩
    · have few := blocks_of_dax dax
      exact ⟨Or.inr (Or.inl dax), by omega⟩
    · exact ⟨Or.inr (Or.inr (by omega)), by omega⟩

theorem completes_withFile
    {noFile : Bool} {pool : BufferPool} {events : List WriterEvent}
    {writer : Writer} (room : archive.blockSize ≤ pool.bufferSize)
    (run : Writer.Run (archive.toWriterConfig.withFile noFile) archive.env
      archive.image .full
      (Writer.start archive.env (archive.toWriterConfig.withFile noFile)
        pool) events writer) :
    ∃ more last,
      Writer.Run (archive.toWriterConfig.withFile noFile) archive.env
        archive.image .full writer more last ∧ last.Done :=
  @Writer.completes (archive.withFile noFile) writer .full
    Writer.Completions.possible_full pool room events run

/-- When the index is cut, a run with a file does not report success. -/
theorem not_measureAgrees
    (compresses : archive.decompressing = false)
    (cso : archive.fmt ≠ .dax) (cut : 2 ^ 32 ≤ archive.entries * 4) :
    ¬ archive.MeasureAgrees := by
  intro agrees
  let pool : BufferPool := ⟨archive.blockSize, 0, [], 0⟩
  obtain ⟨_, measured, run, done⟩ :=
    @completes_withFile archive true pool [] _ (Nat.le_refl _) (.nil _)
  obtain ⟨_, written, run', done'⟩ :=
    @completes_withFile archive false pool [] _ (Nat.le_refl _) (.nil _)
  obtain ⟨size, _, reported, _⟩ := agrees.agrees
    (show archive.blockSize ≤ pool.bufferSize from Nat.le_refl _)
    (show archive.blockSize ≤ pool.bufferSize from Nat.le_refl _)
    run done run' done'
  have short : ¬ (archive.withFile false).IndexPasses := by
    rw [indexPasses_iff]
    rintro (immediate | dax | passes)
    · have waits : (archive.withFile false).immediate =
          archive.decompressing := Bool.or_false _
      rw [waits, compresses] at immediate
      exact nomatch immediate
    · exact cso dax
    · exact absurd passes (Nat.not_lt.mpr cut)
  have none := @Writer.successNotes_of_cut (archive.withFile false) written
    .full Writer.Completions.capped_full rfl short pool (Nat.le_refl _) _ run'
  rw [none] at reported
  exact nomatch reported

end

end Archive

namespace Writer

section

variable (blocks : Nat) (positive : 0 < blocks)

/-- Blocks of zeros that are not compressed. -/
def zeroConfig : WriterConfig where
  flags := 0
  noFile := false
  fmt := .cso1
  srcSize := blocks * 2048
  shift := 11
  origMaxCost := 0
  lz4MaxCost := 0
  shiftBounds := WriterConfig.minimal_shiftBounds
  nonempty := by omega
  aligned := Or.inr rfl

theorem zeroConfig_blocks : (zeroConfig blocks positive).blocks = blocks := by
  have size : (zeroConfig blocks positive).srcSize = blocks * 2048 := rfl
  have width : (zeroConfig blocks positive).blockSize = 2048 := rfl
  rw [WriterConfig.blocks, size, width]
  omega

def zeroArchive : Archive where
  toWriterConfig := zeroConfig blocks positive
  env := .ofFile []
  image := List.replicate (blocks * 2048) 0
  length := by
    have whole : sectorSize ∣ (zeroConfig blocks positive).srcSize :=
      Nat.dvd_mul_left _ _
    rw [List.length_replicate,
      (zeroConfig blocks positive).sourceSize_eq whole]
    rfl
  accepted := WriterConfig.accepted_of_not_dax nofun

theorem zeroArchive_stored (block : Nat) :
    (zeroArchive blocks positive).stored block =
      (.orig, (zeroArchive blocks positive).content block) := by
  have compresses : (zeroArchive blocks positive).decompressing = false :=
    (by decide : hasFlag 0 taskflagDecompress = false)
  rw [Archive.stored, compresses, if_neg Bool.false_ne_true]
  rfl

theorem zeroArchive_admissible : (zeroArchive blocks positive).Admissible := by
  refine ⟨?_, ?_⟩
  · intro block _
    rw [zeroArchive_stored]
    rfl
  · intro block inside
    have length := Archive.length_content inside
    rw [zeroArchive_stored]
    intro empty
    have none : (zeroArchive blocks positive).content block = [] := empty
    rw [none] at length
    exact nomatch length

end

/-- The index has 4 GiB. -/
def wideArchive : Archive := zeroArchive (2 ^ 30 - 1) (by decide)

theorem wideArchive_blocks : wideArchive.blocks = 2 ^ 30 - 1 :=
  zeroConfig_blocks _ (by decide)

/-- The value reported by a run without a file is the one that a run with a
file reports, and the length of that file, exactly when the index is not cut
by `uv_buf_init` and has an entry for every block. -/
theorem measure_agrees
    {archive : Archive}
    (chosen : archive.fmt = CompressionTask.format archive.flags)
    (admissible : archive.Admissible) :
    archive.MeasureAgrees ↔
      (archive.decompressing = true ∧ archive.blocks < 2 ^ 31) ∨
        archive.fmt = .dax ∨ archive.blocks + 1 < 2 ^ 30 := by
  rw [← Archive.holds_iff]
  constructor
  · intro agrees
    refine ⟨?_, Archive.indexInside_iff.mp agrees.inside⟩
    by_contra cut
    obtain ⟨mode, cso, entries⟩ := not_or.mp cut |>.imp_right not_or.mp
    exact Archive.not_measureAgrees (Bool.eq_false_of_not_eq_true mode) cso
      (Nat.not_lt.mp entries) agrees
  · rintro ⟨whole, few⟩
    refine ⟨Archive.indexInside_iff.mpr few, Archive.completes_withFile, ?_⟩
    intro pool pool' events events' measured written room room' run done
      run' done'
    have blank : (archive.withFile true).immediate = true := Bool.or_true _
    have quick : (archive.withFile false).immediate =
        archive.decompressing := Bool.or_false _
    have passes : (archive.withFile false).IndexPasses := by
      rw [Archive.indexPasses_iff, quick]
      exact whole
    have leads := @Archive.leads (archive.withFile false) chosen
    have onCourse := @onCourse_succeeding (archive.withFile true) measured
      (Archive.admissible_withFile admissible true)
      (Archive.indexPasses_iff.mpr (Or.inl blank))
      (Archive.leads chosen) pool room events run
    have onCourse' := @onCourse_succeeding (archive.withFile false) written
      (Archive.admissible_withFile admissible false) passes leads pool' room'
      events' run'
    obtain ⟨reported, _⟩ := onCourse.succeeded done
    obtain ⟨reported', filed⟩ := onCourse'.succeeded done'
    obtain ⟨head, finished⟩ := filed rfl
    have blocks : (archive.withFile false).blocks = archive.blocks := rfl
    have fits : (head.length : Int) ≤ (archive.withFile false).pos 0 := by
      cases mode : (archive.withFile false).immediate with
      | true =>
          rw [(finished.immediate mode).1]
          exact Archive.pos_nonneg 0
      | false =>
          obtain ⟨write, expected, same⟩ := (finished.tables mode).2
          rw [same, expected.length]
          exact leads mode
    have length := Archive.length_fileWith fits archive.blocks_pos
      (Nat.le_refl _)
    rw [← blocks, ← finished.file] at length
    refine ⟨written.file.length, ?_, ?_, rfl⟩
    · rw [reported, length, Archive.pos_withFile, Archive.pos_withFile]
      rfl
    · rw [reported', length]

/-! ## An image of zeros of which some blocks are compressed -/

/-- 8 GiB and one sector in blocks of 4096 bytes, which are aligned to 8. -/
def mixedConfig : WriterConfig where
  flags := 0
  noFile := false
  fmt := .cso1
  srcSize := 2 ^ 33 + 2048
  shift := 12
  origMaxCost := 0
  lz4MaxCost := 0
  shiftBounds := WriterConfig.middling_shiftBounds
  nonempty := by decide
  aligned := Or.inl (by decide)

/-- For every other block a method returns a stream; the last block is filled
up with zeros. -/
def mixedArchive : Archive where
  toWriterConfig := mixedConfig
  env := { Environment.ofFile [] with
    trials := fun pos _ =>
      if pos % 8192 = 0 then [⟨zeroBlockStream, .deflate⟩] else [] }
  image := List.replicate (2 ^ 33 + 2048) 0
  length := by
    rw [List.length_replicate]
    decide
  accepted := WriterConfig.accepted_of_not_dax nofun

theorem mixedArchive_blocks : mixedArchive.blocks = 2 ^ 21 + 1 := by
  decide

theorem mixedArchive_indexAlign : mixedArchive.indexAlign = 8 := by
  decide

theorem mixedArchive_stored (block : Nat) :
    mixedArchive.stored block =
      if block % 2 = 0 then (.deflate, zeroBlockStream)
      else (.orig, mixedArchive.content block) := by
  have compresses : mixedArchive.decompressing = false :=
    (by decide : hasFlag 0 taskflagDecompress = false)
  have align : mixedArchive.template.align = 8 := mixedArchive_indexAlign
  have size : mixedArchive.template.blockSize = 4096 := rfl
  have width : mixedArchive.blockSize = 4096 := rfl
  have trials (content : Bytes) :
      mixedArchive.env.trials (block * 4096 : Nat) content =
        if block % 2 = 0 then [⟨zeroBlockStream, .deflate⟩] else [] := by
    show (if ((block * 4096 : Nat) : Int) % 8192 = 0 then _ else _) = _
    congr 1
    apply propext
    omega
  rw [Archive.stored, compresses, if_neg Bool.false_ne_true, Sector.result,
    Sector.bestOf, width, trials]
  by_cases even : block % 2 = 0
  · have better : (Sector.better
        { mixedArchive.template with bestSize := 4096, bestFmt := .orig }
        zeroBlockStream.length .deflate) = true := by
      decide
    rw [if_pos even, if_pos even, align, size, List.foldl_cons,
      List.foldl_nil, Sector.submit, if_pos better, Sector.finalize]
    dsimp only
    rw [size, if_neg]
    · rfl
    · rintro ⟨large, _⟩
      exact absurd large (by decide)
  · rw [if_neg even, if_neg even]
    rfl

theorem mixedArchive_admissible : mixedArchive.Admissible := by
  refine ⟨?_, ?_⟩
  · intro block _
    rw [mixedArchive_stored]
    split_ifs <;> rfl
  · intro block inside
    have length := Archive.length_content inside
    rw [mixedArchive_stored]
    split_ifs
    · decide
    · intro empty
      have none : mixedArchive.content block = [] := empty
      rw [none] at length
      cases length

theorem measure_agrees_mixed : mixedArchive.MeasureAgrees := by
  apply (measure_agrees rfl mixedArchive_admissible).mpr
  rw [mixedArchive_blocks]
  decide

/-- Nothing of an index of 4 GiB is passed to its write. -/
theorem measure_disagrees :
    wideArchive.Admissible ∧ ¬ wideArchive.MeasureAgrees := by
  refine ⟨zeroArchive_admissible _ _, Archive.not_measureAgrees
    (by decide : hasFlag 0 taskflagDecompress = false) nofun ?_⟩
  rw [Archive.entries, wideArchive_blocks]
  decide

end Writer

end Maxcso
