import Maxcso.Writer.Lending

/-!
# What the functions of the writer report

As long as `UpdateIndex` has an entry for every sector object that
`HandleReadySector` gathers, no function of the writer reports a refusal.
-/

namespace Maxcso

namespace Output

/-- The sector objects that `HandleReadySector` gathers with one whose turn it
is. -/
def gathered (output : Output) (id : SectorId) : List SectorId :=
  id :: (gather output.blockSize (maxBufs - 1)
    (output.srcPos + output.blockSize) output.pendingSectors).1

/-- The sector objects that a call goes on to write. -/
def due (output : Output) : OutputCall → List SectorId
  | .sectorReady id _ =>
      if output.srcPos = (output.sectors id).pos then output.gathered id
      else []
  | .afterProgress nextPos =>
      if output.srcSize ≤ nextPos then
        []
      else
        match output.pendingSectors with
        | [] => []
        | (_, id) :: rest =>
            if output.srcPos = (output.sectors id).pos then
              { output with pendingSectors := rest }.gathered id
            else
              []
  | _ => []

/-- `UpdateIndex` has an entry for a sector object. -/
def Enters (output : Output) (id : SectorId) : Prop :=
  refusal output.fmt (output.sectors id).bestFmt = none

instance (output : Output) (id : SectorId) :
    Decidable (output.Enters id) :=
  inferInstanceAs (Decidable (_ = none))

/-- What is reported about other things than a block that is refused or not
compressed. -/
def plainReasons : List String :=
  ["Invalid buffer pos for this sector block",
    "Sector already waiting for queued operation",
    "Flush called before index finalized",
    "Compressed sector larger than 16 bits",
    "Data could not be written to output file",
    "Unable to write header data",
    "File too large to compress as DAX",
    "DAX requires a block size of 8192"]

/-- A function reports other things only. -/
def Plain (calls : List OutputCall) : Prop :=
  ∀ reason, .finish false reason ∈ calls → reason ∈ plainReasons

section

variable {output : Output} {pool : BufferPool} {env : Environment}
variable {id : SectorId} {block : Nat} {calls more : List OutputCall}

theorem plain_nil : Plain [] := by
  intro reason member
  cases member

theorem plain_append (first : Plain calls) (second : Plain more) :
    Plain (calls ++ more) := by
  intro reason member
  rcases List.mem_append.mp member with early | late
  · exact first reason early
  · exact second reason late

theorem plain_singleton {call : OutputCall}
    (other : ∀ reason, call = .finish false reason →
      reason ∈ plainReasons) : Plain [call] := by
  intro reason member
  exact other reason (List.mem_singleton.mp member).symm

theorem plain_finish {reason : String} (plain : reason ∈ plainReasons) :
    Plain [.finish false reason] := by
  apply plain_singleton
  intro other same
  cases same
  exact plain

theorem plain_checkFinish : Plain output.checkFinish := by
  unfold checkFinish
  split
  · apply plain_singleton
    intro reason same
    cases same
  · exact plain_nil

/-! ## Blocks -/

theorem plain_flush : Plain (output.flush env).2 := by
  unfold flush
  split
  · exact plain_finish (by simp [plainReasons])
  · split
    · exact plain_checkFinish
    · have oversized : ∀ frames : List Nat,
          Plain (frames.map fun _ =>
            .finish false "Compressed sector larger than 16 bits") := by
        intro frames reason member
        obtain ⟨_, _, same⟩ := List.mem_map.mp member
        cases same
        simp [plainReasons]
      cases output.fmt with
      | cso1 | cso2 | zso =>
          dsimp only [writeCsoIndex]
          split
          · exact plain_checkFinish
          · exact plain_nil
      | dax =>
          dsimp only [writeDaxIndex]
          split
          · exact plain_append (oversized _) plain_checkFinish
          · exact oversized _

theorem failure_layoutSectors {ids : List SectorId} (dstPos : Int)
    (enters : ∀ id ∈ ids, output.Enters id) :
    (output.layoutSectors dstPos ids).failure = none := by
  induction ids generalizing output dstPos with
  | nil => rfl
  | cons id rest inductionHypothesis =>
      have first : refusal output.fmt (output.sectors id).bestFmt = none :=
        enters id List.mem_cons_self
      have later : ∀ (index : Nat → Nat), ∀ other ∈ rest,
          Enters { output with index := index } other :=
        fun _ other member => enters other (List.mem_cons_of_mem _ member)
      rw [layoutSectors, updateIndex_eq, first]
      dsimp only
      split
      · exact inductionHypothesis _ (later _)
      · exact inductionHypothesis _ (later _)

theorem plain_handleWrittenSectors {success : Bool} {ids : List SectorId}
    {nextPos totalWrite : Int} :
    Plain (output.handleWrittenSectors pool success ids nextPos
      totalWrite).calls := by
  unfold handleWrittenSectors
  dsimp only
  split
  · exact plain_nil
  · intro reason member
    rcases List.mem_cons.mp member with same | member
    · cases same
    · cases List.mem_singleton.mp member

theorem plain_writeFrom
    (enters : ∀ other ∈ output.gathered id, output.Enters other) :
    Plain (output.writeFrom env pool id).calls := by
  have entered := @failure_layoutSectors
    { output with
      pendingSectors := (gather output.blockSize (maxBufs - 1)
        (output.srcPos + output.blockSize) output.pendingSectors).2.1 }
    (output.gathered id) output.dstPos enters
  unfold gathered at entered
  unfold writeFrom
  dsimp only
  rw [entered]
  dsimp only
  split
  · split
    · exact plain_append plain_flush plain_handleWrittenSectors
    · split
      · exact plain_flush
      · exact plain_flush
  · split
    · exact plain_append plain_nil plain_handleWrittenSectors
    · split
      · exact plain_nil
      · exact plain_nil

theorem plain_sectorReady
    (enters : ∀ other ∈ output.due (.sectorReady id block),
      output.Enters other) :
    Plain (output.sectorReady env pool id block).calls := by
  have handled : ∀ partials : List (Nat × SectorId),
      Plain ({ output with partialSectors := partials }.handleReadySector env
        pool (some id)).calls := by
    intro partials
    unfold handleReadySector
    dsimp only
    split
    · exact plain_nil
    · rename_i turn
      apply plain_writeFrom
      rw [due, if_pos (not_not.mp turn)] at enters
      exact enters
  unfold sectorReady
  dsimp only
  split
  · exact handled _
  · exact handled _

theorem plain_afterProgress {nextPos : Int}
    (enters : ∀ other ∈ output.due (.afterProgress nextPos),
      output.Enters other) :
    Plain (output.afterProgress env pool nextPos).calls := by
  unfold afterProgress
  split
  · exact plain_checkFinish
  · rename_i more
    rw [due, if_neg more] at enters
    unfold handleReadySector
    dsimp only
    cases queued : output.pendingSectors with
    | nil => exact plain_nil
    | cons entry rest =>
        rw [queued] at enters
        dsimp only at enters ⊢
        split
        · exact plain_nil
        · rename_i turn
          apply plain_writeFrom
          rw [if_pos (not_not.mp turn)] at enters
          exact enters

/-! ## Sectors -/

theorem plain_afterProcess {sector : Sector} {pos : Int} {buffer : Buffer} :
    Plain (output.afterProcess id block
      (sector.process env pool pos buffer)).calls := by
  have accepted : ∀ (other : Sector) (after : BufferPool) (reason : String),
      (Sector.process.accept other after).2.2 = .failed reason →
        reason ∈ plainReasons := by
    intro other after reason failed
    unfold Sector.process.accept at failed
    dsimp only at failed
    split at failed
    · cases failed
    · split at failed
      · cases failed
        simp [plainReasons]
      · split at failed
        · cases failed
        · cases failed
  have processed : ∀ reason,
      (sector.process env pool pos buffer).2.2 = .failed reason →
        reason ∈ plainReasons := by
    intro reason failed
    unfold Sector.process at failed
    split at failed
    · dsimp only at failed
      split at failed
      · exact accepted _ _ reason failed
      · exact accepted _ _ reason failed
    · split at failed
      · exact accepted _ _ reason failed
      · cases failed
        simp [plainReasons]
  unfold afterProcess
  cases outcome : (sector.process env pool pos buffer).2.2 with
  | waiting | queued => exact plain_nil
  | ready =>
      apply plain_singleton
      intro reason same
      cases same
  | failed reason => exact plain_finish (processed reason outcome)

theorem plain_pad_call {padPos : Int} : Plain [.pad id block padPos] := by
  apply plain_singleton
  intro reason same
  cases same

theorem plain_enqueue {pos : Int} {buffer : Buffer} :
    Plain (output.enqueue env pool pos buffer).calls := by
  unfold enqueue
  dsimp only
  split
  · exact plain_append plain_afterProcess plain_pad_call
  · exact plain_afterProcess

theorem plain_pad {padPos : Int} :
    Plain (output.pad env pool id block padPos).calls := by
  unfold pad
  dsimp only
  split
  · exact plain_append plain_afterProcess plain_pad_call
  · exact plain_nil

/-! ## Completions -/

theorem plain_onCompressed {job : CompressJob} {status : Int}
    (succeeded : 0 ≤ status) :
    Plain (output.onCompressed env pool job status).calls := by
  unfold onCompressed
  rw [if_neg (not_lt.mpr succeeded)]
  apply plain_singleton
  intro reason same
  cases same

theorem plain_onDataWritten {write : DataWrite} {result : Int} :
    Plain (output.onDataWritten pool write result).calls := by
  unfold onDataWritten
  dsimp only
  split
  · exact plain_handleWrittenSectors
  · exact plain_append plain_handleWrittenSectors
      (plain_finish (by simp [plainReasons]))

theorem plain_onIndexWritten {write : IndexWrite} {result : Int} :
    Plain (output.onIndexWritten pool write result).calls := by
  unfold onIndexWritten
  split
  · exact plain_finish (by simp [plainReasons])
  · exact plain_checkFinish

theorem plain_setFile {noFile : Bool} {srcSize : Int} {blockSize : Nat}
    {fmt : CsoFormat} {origMaxCost lz4MaxCost : Nat} :
    Plain (output.setFile noFile srcSize blockSize fmt origMaxCost
      lz4MaxCost).2 := by
  unfold setFile
  dsimp only
  split_ifs
  all_goals first
    | exact plain_finish (by simp [plainReasons])
    | exact plain_nil

end

end Output

end Maxcso
