import Maxcso.Sector.Selection

/-!
# Enabled methods

The methods that the flags leave enabled, what each of them makes of a block,
and when all of them compete for it.
-/

namespace Maxcso

/-- The trials that have a flag of their own. -/
inductive TrialKind where
  | zlibDefault
  | zlibBrute
  | zopfli
  | sevenZip
  | libdeflate
  | lz4Default
  | lz4Hc
  | lz4HcBrute
  deriving DecidableEq, Repr

namespace TrialKind

/-- The flag that disables a trial. -/
def flag : TrialKind → Nat
  | .zlibDefault => taskflagNoZlibDefault
  | .zlibBrute => taskflagNoZlibBrute
  | .zopfli => taskflagNoZopfli
  | .sevenZip => taskflagNo7Zip
  | .libdeflate => taskflagNoLibdeflate
  | .lz4Default => taskflagNoLz4Default
  | .lz4Hc => taskflagNoLz4Hc
  | .lz4HcBrute => taskflagNoLz4HcBrute

def Enabled (flags : Nat) (kind : TrialKind) : Prop :=
  hasFlag flags kind.flag = false

/-- What a trial makes of a block that does not go to a DAX file; a result
without bytes is a failure. -/
def results (compressors : Compressors) (room : Nat) (block : Bytes) :
    TrialKind → List Bytes
  | .zlibDefault => (compressors.deflate .default false room block).toList
  | .zlibBrute =>
      [.filtered, .huffmanOnly, .rle].flatMap fun strategy =>
        (compressors.deflate strategy false room block).toList
  | .zopfli =>
      ((compressors.zopfliCompress false block).bind Sector.nonempty).toList
  | .sevenZip => (compressors.deflate7z false room block).toList
  | .libdeflate =>
      (Sector.nonempty
        (compressors.libdeflateCompress false room block)).toList
  | .lz4Default =>
      (Sector.nonempty (compressors.lz4CompressDefault room block)).toList
  | .lz4Hc =>
      (Sector.nonempty (compressors.lz4CompressHc 16 room block)).toList
  | .lz4HcBrute =>
      [4, 7, 10, 13, 16].flatMap fun level =>
        (Sector.nonempty (compressors.lz4CompressHc level room block)).toList

end TrialKind

/-- No result is larger than the room that the library was told. -/
structure Compressors.Bounded (compressors : Compressors) : Prop where
  deflate : ∀ strategy withHeader room block data,
    compressors.deflate strategy withHeader room block = some data →
      data.length ≤ room
  deflate7z : ∀ withHeader room block data,
    compressors.deflate7z withHeader room block = some data →
      data.length ≤ room
  libdeflate : ∀ withHeader room block,
    (compressors.libdeflateCompress withHeader room block).length ≤ room
  lz4Hc : ∀ level room block,
    (compressors.lz4CompressHc level room block).length ≤ room
  lz4Default : ∀ room block,
    (compressors.lz4CompressDefault room block).length ≤ room

namespace Sector

/-- A sector with an assembled block, without costs and alignment. -/
structure Uncosted (flags : Nat) (sector : Sector) : Prop where
  flags : sector.flags = flags
  fresh : sector.Fresh
  origMaxCost : sector.origMaxCost = 0
  lz4MaxCost : sector.lz4MaxCost = 0
  align : sector.align = 1

/-- The size that is left is at most the size of the block and the size of
what each enabled method makes of it. -/
def EveryMethodCompetes (env : Environment) (compressors : Compressors)
    (sector : Sector) (pool : BufferPool) : Prop :=
  let work := sector.compressWork
    (env.withCompressors compressors sector.flags pool.bufferSize) pool
  work.1.bestSize ≤ sector.blockSize ∧
    ∀ kind : TrialKind, kind.Enabled sector.flags →
      ∀ data ∈ kind.results compressors pool.bufferSize sector.blockBytes,
        work.1.bestSize ≤ data.length

section

variable {flags room : Nat} {compressors : Compressors} {block : Bytes}
variable {sector : Sector} {trials : List Trial}

/-- Without costs the smaller size is kept. -/
theorem submit_size
    (notDax : hasFlag sector.flags taskflagFmtDax = false)
    (free : sector.origMaxCost = 0) (free' : sector.lz4MaxCost = 0)
    {best : Best} (small : best.size < 2 ^ 32) {trial : Trial}
    (fits : trial.data.length < 2 ^ 32) :
    (sector.submit best trial).size = min best.size trial.data.length := by
  rw [submit_free notDax free fits (fun _ => by omega) fun _ => by omega]
  have near : sector.limit best trial.format = best.size ∨
      sector.limit best trial.format = best.size + 1 := by
    unfold limit
    rw [free']
    split
    · exact Or.inr rfl
    · exact Or.inl rfl
    · exact Or.inl rfl
  split
  · have size : (keeping trial).size = trial.data.length := rfl
    omega
  · omega

theorem foldl_submit_size
    (notDax : hasFlag sector.flags taskflagFmtDax = false)
    (free : sector.origMaxCost = 0) (free' : sector.lz4MaxCost = 0)
    {best : Best} (small : best.size < 2 ^ 32)
    (fits : ∀ trial ∈ trials, trial.data.length < 2 ^ 32) :
    (trials.foldl sector.submit best).size ≤ best.size ∧
      ∀ trial ∈ trials,
        (trials.foldl sector.submit best).size ≤ trial.data.length := by
  induction trials generalizing best with
  | nil => exact ⟨Nat.le_refl _, nofun⟩
  | cons trial trials inductionHypothesis =>
      have first := submit_size notDax free free' small
        (fits trial List.mem_cons_self)
      obtain ⟨le, each⟩ := @inductionHypothesis (sector.submit best trial)
        (by omega) fun other member =>
          fits other (List.mem_cons_of_mem _ member)
      refine ⟨by rw [List.foldl_cons]; omega, ?_⟩
      intro other member
      rcases List.mem_cons.mp member with rfl | later
      · rw [List.foldl_cons]
        omega
      · exact each other later

/-- With nothing to align, giving up a result for the block loses nothing. -/
theorem finalize_size {best : Best} (large : best.size ≤ sector.blockSize) :
    (sector.finalize best 1).size = best.size := by
  cases kept : best.data with
  | none => simp only [finalize, kept]
  | some data =>
      simp only [finalize, kept, alignedBestSize, Nat.mod_one, ne_eq,
        not_true_eq_false, if_false]
      split
      · rename_i gives
        exact Nat.le_antisymm gives.1 large
      · rfl

/-! ## Trials that are run -/

theorem mem_trialOf {format : SectorFormat} {data : Option Bytes}
    {trial : Trial} :
    trial ∈ trialOf format data ↔
      trial.data ∈ data ∧ trial.format = format := by
  obtain ⟨bytes, kind⟩ := trial
  simp only [trialOf, List.mem_map, Option.mem_toList, Trial.mk.injEq]
  constructor
  · rintro ⟨bytes, member, rfl, rfl⟩
    exact ⟨member, rfl⟩
  · rintro ⟨member, rfl⟩
    exact ⟨bytes, member, rfl, rfl⟩

theorem nonempty_eq_some {data result : Bytes}
    (same : nonempty data = some result) : data = result := by
  unfold nonempty at same
  split at same
  · exact Option.some.inj same
  · exact nomatch same

theorem length_of_nonempty {data result : Bytes}
    (same : nonempty data = some result) : 0 < result.length := by
  unfold nonempty at same
  split at same
  · rename_i some_
    rw [← Option.some.inj same]
    exact Nat.pos_of_ne_zero some_
  · exact nomatch same

/-- A trial is submitted with what fits the room. -/
theorem length_of_deflateTrials (bounded : compressors.Bounded)
    {trial : Trial}
    (member : trial ∈ deflateTrials compressors flags room block) :
    trial.data.length ≤ room := by
  simp only [deflateTrials, List.mem_append, List.mem_flatMap] at member
  rcases member with ((⟨strategy, _, zlib⟩ | zopfli) | sevenZip) | libdeflate
  · exact bounded.deflate _ _ _ _ _ (mem_trialOf.mp zlib).1
  · split at zopfli
    · cases zopfli
    · have kept := (mem_trialOf.mp zopfli).1
      have fits := Option.mem_filter_iff.mp kept
      exact (of_decide_eq_true fits.2).2.le
  · split at sevenZip
    · cases sevenZip
    · exact bounded.deflate7z _ _ _ _ (mem_trialOf.mp sevenZip).1
  · split at libdeflate
    · cases libdeflate
    · rw [← nonempty_eq_some (mem_trialOf.mp libdeflate).1]
      exact bounded.libdeflate _ _ _

theorem length_of_lz4Trials (bounded : compressors.Bounded) {trial : Trial}
    (member : trial ∈ lz4Trials compressors flags room block) :
    trial.data.length ≤ room := by
  simp only [lz4Trials, List.mem_append] at member
  rcases member with hc | lz4
  · split at hc
    · cases hc
    · obtain ⟨level, _, inside⟩ := List.mem_flatMap.mp hc
      rw [← nonempty_eq_some (mem_trialOf.mp inside).1]
      exact bounded.lz4Hc _ _ _
  · split at lz4
    · cases lz4
    · rw [← nonempty_eq_some (mem_trialOf.mp lz4).1]
      exact bounded.lz4Default _ _

/-- The levels of `LZ4HCTrial`. -/
theorem mem_lz4HcTrial {allowBrute : Bool} {level : Nat}
    (tried : level ∈ if allowBrute then [4, 7, 10, 13, 16] else [16])
    {data : Bytes}
    (made : nonempty (compressors.lz4CompressHc level room block) =
      some data) :
    ⟨data, .lz4⟩ ∈ lz4HcTrial compressors allowBrute room block :=
  List.mem_flatMap.mpr ⟨level, tried, mem_trialOf.mpr ⟨made, rfl⟩⟩

/-- What an enabled trial makes of the block is submitted, or does not fit,
when both kinds of lz4hc are enabled or neither is. -/
theorem submitted_of_enabled
    (notDax : hasFlag flags taskflagFmtDax = false)
    (same : flags.testBit 8 = flags.testBit 9) {kind : TrialKind}
    (enabled : kind.Enabled flags) {data : Bytes}
    (made : data ∈ kind.results compressors room block) :
    (∃ trial ∈ compressTrials compressors flags room block,
        trial.data = data) ∨ room ≤ data.length := by
  have deflate : ⟨data, .deflate⟩ ∈
      deflateTrials compressors flags room block →
        ∃ trial ∈ compressTrials compressors flags room block,
          trial.data = data :=
    fun member => ⟨_, List.mem_append_left _ member, rfl⟩
  have lz4 : ⟨data, .lz4⟩ ∈ lz4Trials compressors flags room block →
      ∃ trial ∈ compressTrials compressors flags room block,
        trial.data = data :=
    fun member => ⟨_, List.mem_append_right _ member, rfl⟩
  have hc : flags.testBit 8 = false → ∀ level ∈ [4, 7, 10, 13, 16],
      nonempty (compressors.lz4CompressHc level room block) = some data →
        ⟨data, .lz4⟩ ∈ lz4Trials compressors flags room block := by
    intro clear level tried made
    have clear' : flags.testBit 9 = false := same ▸ clear
    have both : hasFlag flags (taskflagNoLz4Hc ||| taskflagNoLz4HcBrute) =
        false := by
      rw [hasFlag_lz4Hc, clear, clear', Bool.or_false]
    have brute : hasFlag flags taskflagNoLz4HcBrute = false :=
      (hasFlag_two_pow flags 9).trans clear'
    refine List.mem_append_left _ ?_
    rw [both, brute]
    exact mem_lz4HcTrial tried made
  unfold TrialKind.Enabled at enabled
  simp only [deflateTrials, lz4Trials, List.mem_append, List.mem_flatMap,
    notDax] at deflate lz4 hc
  cases kind with
  | zlibDefault =>
      have stream : .default ∈ zStreams flags := by
        simp [zStreams, show hasFlag flags taskflagNoZlibDefault = false from
          enabled]
      exact Or.inl (deflate (Or.inl (Or.inl (Or.inl ⟨_, stream,
        mem_trialOf.mpr ⟨Option.mem_toList.mp made, rfl⟩⟩))))
  | zlibBrute =>
      obtain ⟨strategy, tried, made⟩ := List.mem_flatMap.mp made
      have stream : strategy ∈ zStreams flags := by
        refine List.mem_append_right _ ?_
        rw [show hasFlag flags taskflagNoZlibBrute = false from enabled]
        exact tried
      exact Or.inl (deflate (Or.inl (Or.inl (Or.inl ⟨_, stream,
        mem_trialOf.mpr ⟨Option.mem_toList.mp made, rfl⟩⟩))))
  | zopfli =>
      obtain ⟨result, compressed, same⟩ :=
        Option.bind_eq_some_iff.mp (Option.mem_toList.mp made)
      have positive := length_of_nonempty same
      obtain rfl := nonempty_eq_some same
      refine (Nat.lt_or_ge result.length room).imp (fun fits => ?_) id
      refine deflate (Or.inl (Or.inl (Or.inr ?_)))
      rw [show hasFlag flags taskflagNoZopfli = false from enabled]
      exact mem_trialOf.mpr ⟨Option.mem_filter_iff.mpr
        ⟨compressed, decide_eq_true ⟨positive, fits⟩⟩, rfl⟩
  | sevenZip =>
      refine Or.inl (deflate (Or.inl (Or.inr ?_)))
      rw [show hasFlag flags taskflagNo7Zip = false from enabled]
      exact mem_trialOf.mpr ⟨Option.mem_toList.mp made, rfl⟩
  | libdeflate =>
      refine Or.inl (deflate (Or.inr ?_))
      rw [show hasFlag flags taskflagNoLibdeflate = false from enabled]
      exact mem_trialOf.mpr ⟨Option.mem_toList.mp made, rfl⟩
  | lz4Default =>
      refine Or.inl (lz4 (Or.inr ?_))
      rw [show hasFlag flags taskflagNoLz4Default = false from enabled]
      exact mem_trialOf.mpr ⟨Option.mem_toList.mp made, rfl⟩
  | lz4Hc =>
      have clear := (hasFlag_two_pow flags 8).symm.trans enabled
      exact Or.inl (lz4 (hc clear 16 (by decide)
        (Option.mem_toList.mp made)))
  | lz4HcBrute =>
      have clear := (hasFlag_two_pow flags 9).symm.trans enabled
      obtain ⟨level, tried, made⟩ := List.mem_flatMap.mp made
      exact Or.inl (lz4 (hc (same.trans clear) level tried
        (Option.mem_toList.mp made)))

/-! ## Competition -/

theorem compressWork_size (env : Environment) (fresh : sector.Fresh)
    (align : sector.align = 1) (pool : BufferPool) :
    (sector.compressWork env pool).1.bestSize =
      (sector.finalize
        ((env.trials sector.pos sector.blockBytes).foldl sector.submit
          sector.raw) 1).size := by
  have finalized := @finalized_eq sector sector.align
    (env.trials sector.pos sector.blockBytes) fresh env.heap pool
  exact (congrArg Best.size finalized).trans (by rw [align])

/-- When both kinds of lz4hc are enabled or neither is, no enabled trial is
skipped. -/
theorem competes_of_same
    (notDax : hasFlag flags taskflagFmtDax = false)
    (same : flags.testBit 8 = flags.testBit 9)
    (bounded : compressors.Bounded) (uncosted : Uncosted flags sector)
    {pool : BufferPool} (holds : sector.blockSize ≤ pool.bufferSize)
    (fits : pool.bufferSize < 2 ^ 32) (env : Environment) :
    EveryMethodCompetes env compressors sector pool := by
  obtain ⟨rfl, fresh, free, free', align⟩ := uncosted
  have lengths : ∀ trial ∈ compressTrials compressors sector.flags
      pool.bufferSize sector.blockBytes, trial.data.length < 2 ^ 32 := by
    intro trial member
    rcases List.mem_append.mp member with deflate | lz4
    · exact (length_of_deflateTrials bounded deflate).trans_lt fits
    · exact (length_of_lz4Trials bounded lz4).trans_lt fits
  obtain ⟨le, each⟩ := @foldl_submit_size sector _ notDax free free'
    sector.raw (holds.trans_lt fits) lengths
  have size := compressWork_size
    (env.withCompressors compressors sector.flags pool.bufferSize) fresh
    align pool
  have same' := finalize_size le
  replace size := size.trans same'
  unfold EveryMethodCompetes
  refine ⟨size.trans_le le, ?_⟩
  intro kind enabled data made
  refine size.trans_le ?_
  rcases submitted_of_enabled notDax same enabled made with
    ⟨trial, member, rfl⟩ | large
  · exact each trial member
  · exact le.trans (holds.trans large)

end

/-- Libraries of which only lz4hc makes anything of a block. -/
def lz4HcOnly : Compressors where
  deflate _ _ _ _ := none
  zopfliCompress _ _ := none
  deflate7z _ _ _ := none
  libdeflateCompress _ _ _ := []
  lz4CompressHc _ room _ := [0].take room
  lz4CompressDefault _ _ := []

theorem lz4HcOnly_bounded : lz4HcOnly.Bounded where
  deflate := nofun
  deflate7z := nofun
  libdeflate _ _ _ := Nat.zero_le _
  lz4Hc _ room _ := List.length_take_le room _
  lz4Default _ _ := Nat.zero_le _

/-- A sector with these flags for a block of 2048 bytes. -/
def bare (flags : Nat) : Sector :=
  { (create flags).setup sectorSize 1 0 0 with bestSize := sectorSize }

theorem bare_uncosted (flags : Nat) : Uncosted flags (bare flags) :=
  ⟨rfl, rfl, rfl, rfl, rfl⟩

/-- Only lz4hc would make the block smaller, and it is skipped. -/
theorem lz4Hc_skipped {flags : Nat}
    (differ : flags.testBit 8 ≠ flags.testBit 9) (env : Environment) :
    ¬ EveryMethodCompetes env lz4HcOnly (bare flags) .initial := by
  have skipped : hasFlag flags (taskflagNoLz4Hc ||| taskflagNoLz4HcBrute) =
      true := by
    rw [hasFlag_lz4Hc]
    grind
  have none : compressTrials lz4HcOnly flags BufferPool.initial.bufferSize
      (bare flags).blockBytes = [] := by
    simp [compressTrials, deflateTrials, lz4Trials, skipped, zlibTrial,
      zopfliTrial, sevenZipTrial, libDeflateTrial, lz4Trial, trialOf,
      lz4HcOnly, nonempty]
  have size : ((bare flags).compressWork
      (env.withCompressors lz4HcOnly flags BufferPool.initial.bufferSize)
      .initial).1.bestSize = sectorSize := by
    rw [compressWork_size _ (bare_uncosted flags).fresh rfl]
    exact congrArg
      (fun trials => ((bare flags).finalize
        (trials.foldl (bare flags).submit (bare flags).raw) 1).size) none
  rintro ⟨_, each⟩
  by_cases clear : flags.testBit 8 = false
  · have le := each .lz4Hc ((hasFlag_two_pow flags 8).trans clear) [0]
      List.mem_cons_self
    rw [show (bare flags).flags = flags from rfl, size] at le
    exact absurd le (by decide)
  · have clear' : flags.testBit 9 = false := by grind
    have le := each .lz4HcBrute ((hasFlag_two_pow flags 9).trans clear') [0]
      List.mem_cons_self
    rw [show (bare flags).flags = flags from rfl, size] at le
    exact absurd le (by decide)

/-- Every enabled method competes for every block exactly when the flags
enable both kinds of lz4hc or neither. -/
theorem every_method_competes {flags : Nat}
    (notDax : hasFlag flags taskflagFmtDax = false) (env : Environment) :
    (∀ (compressors : Compressors) (sector : Sector) (pool : BufferPool),
        compressors.Bounded → Uncosted flags sector →
          sector.blockSize ≤ pool.bufferSize → pool.bufferSize < 2 ^ 32 →
            EveryMethodCompetes env compressors sector pool) ↔
      flags.testBit 8 = flags.testBit 9 := by
  constructor
  · intro competes
    by_contra differ
    refine lz4Hc_skipped differ env ?_
    exact competes lz4HcOnly (bare flags) .initial lz4HcOnly_bounded
      (bare_uncosted flags)
      (show sectorSize ≤ BufferPool.initial.bufferSize by decide)
      (show BufferPool.initial.bufferSize < 2 ^ 32 by decide)
  · intro same compressors sector pool bounded uncosted holds fits
    exact competes_of_same notDax same bounded uncosted holds fits env

/-- With `--use-lz4brute`, everything in the default flags of CSO v2 competes
but zopfli. -/
theorem every_method_competes_lz4Brute :
    EveryMethodCompetes (.ofFile []) lz4HcOnly (bare 0x44) .initial :=
  (@every_method_competes 0x44 rfl (.ofFile [])).mpr rfl lz4HcOnly
    (bare 0x44) .initial lz4HcOnly_bounded (bare_uncosted 0x44)
    (by decide) (by decide)

/-- With the default flags of CSO v2, lz4hc is enabled and not tried. -/
theorem lz4Hc_skipped_by_default :
    ¬ ∀ (flags : Nat), hasFlag flags taskflagFmtDax = false →
      ∀ (env : Environment) (compressors : Compressors) (sector : Sector)
        (pool : BufferPool), compressors.Bounded → Uncosted flags sector →
          sector.blockSize ≤ pool.bufferSize → pool.bufferSize < 2 ^ 32 →
            EveryMethodCompetes env compressors sector pool := by
  intro competes
  have skipped := @lz4Hc_skipped 0x244 (by decide) (.ofFile [])
  exact skipped (competes 0x244 rfl (.ofFile []) lz4HcOnly (bare 0x244)
    .initial lz4HcOnly_bounded (bare_uncosted 0x244) (by decide) (by decide))

end Sector

end Maxcso
