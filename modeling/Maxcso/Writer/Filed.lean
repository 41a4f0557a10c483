import Maxcso.Writer.Steady

/-!
# What the file holds

While everything succeeds the file holds the header and the tables, if they
have been written, and the data of the first blocks, one batch after the
other.
-/

namespace Maxcso

open FileBytes

namespace Archive

variable (archive : Archive)

/-- A file with a header and tables and the data of the first blocks. -/
def fileWith (head : Bytes) (blocks : Nat) : Bytes :=
  if blocks = 0 then
    head
  else
    pwrite 0 head (archive.pos 0).toNat (archive.body 0 blocks)

/-- The header and the tables end before the data. -/
def Leads : Prop :=
  archive.immediate = false → (archive.indexPassed : Int) ≤ archive.pos 0

variable {archive}

/-- The data of one more batch go where the last ones ended. -/
theorem fileWith_add
    (head : Bytes) {first count : Nat} (positive : 0 < count)
    (inside : first + count ≤ archive.blocks) :
    pwrite 0 (archive.fileWith head first) (archive.pos first).toNat
        (archive.body first count) =
      archive.fileWith head (first + count) := by
  rw [fileWith, fileWith, if_neg (show first + count ≠ 0 by omega)]
  by_cases none : first = 0
  · rw [if_pos none, none, Nat.zero_add]
  · have nonneg := archive.pos_nonneg 0
    have mono := archive.pos_mono (Nat.zero_le first)
    have length := @archive.length_body 0 first (by omega)
    have place : (archive.pos first).toNat =
        (archive.pos 0).toNat + (archive.body 0 first).length := by
      rw [Nat.zero_add] at length
      omega
    have all := archive.body_add 0 first count
    rw [Nat.zero_add] at all
    rw [if_neg none, place, pwrite_pwrite, all]

/-- The header and the tables go before the data. -/
theorem fileWith_head
    {head : Bytes} (fits : (head.length : Int) ≤ archive.pos 0)
    (blocks : Nat) :
    pwrite 0 (archive.fileWith [] blocks) 0 head =
      archive.fileWith head blocks := by
  rw [fileWith, fileWith]
  by_cases none : blocks = 0
  · rw [if_pos none, if_pos none, pwrite_zero_nil]
  · rw [if_neg none, if_neg none, pwrite_gap _ _ (by omega)]

/-- The file ends with the data. -/
theorem length_fileWith
    {head : Bytes} (fits : (head.length : Int) ≤ archive.pos 0)
    {blocks : Nat} (positive : 0 < blocks)
    (inside : blocks ≤ archive.blocks) :
    ((archive.fileWith head blocks).length : Int) = archive.pos blocks := by
  have nonneg := archive.pos_nonneg 0
  have length := @archive.length_body 0 blocks (by omega)
  rw [Nat.zero_add] at length
  rw [fileWith, if_neg (by omega), pwrite_of_length_le _ _ (by omega),
    List.length_append, List.length_append, List.length_replicate]
  omega

end Archive

namespace Writer

/-- The data writes among the notes. -/
def dataNotes (notes : List WriterNote) : List (Int × Bytes) :=
  notes.filterMap fun note =>
    match note with
    | .wroteData offset data => some (offset, data)
    | _ => none

/-- The writes of the header and the tables. -/
def indexNotes (notes : List WriterNote) : List Bytes :=
  notes.filterMap fun note =>
    match note with
    | .wroteIndex data => some data
    | _ => none

/-- What `Written()` was at each report of success. -/
def successNotes (notes : List WriterNote) : List Int :=
  notes.filterMap fun note =>
    match note with
    | .finished true _ written => some written
    | _ => none

theorem length_successNotes (notes : List WriterNote) :
    (successNotes notes).length = notes.countP Course.isSuccessNote := by
  induction notes with
  | nil => rfl
  | cons note notes inductionHypothesis =>
      have split : note :: notes = [note] ++ notes := rfl
      rw [split, successNotes, List.filterMap_append, List.length_append,
        List.countP_append]
      refine congrArg₂ (· + ·) ?_ inductionHypothesis
      cases note with
      | finished success => cases success <;> rfl
      | _ => rfl

end Writer

/-- Data writes of one batch of blocks after the other. -/
inductive Batches (archive : Archive) : Nat → List (Int × Bytes) → Prop
  | nil : Batches archive 0 []
  | snoc {first count : Nat} {writes : List (Int × Bytes)}
      (before : Batches archive first writes) (positive : 0 < count)
      (inside : first + count ≤ archive.blocks) :
      Batches archive (first + count)
        (writes ++ [(archive.pos first, archive.body first count)])

namespace Course

variable {archive : Archive} {course : Course}

/-- The write of the header and the tables has completed. -/
def IndexFiled (archive : Archive) (course : Course) : Prop :=
  archive.immediate = false ∧ course.indexReady = true ∧
    course.indexWrites = []

/-- What is in the file. -/
structure Filed (archive : Archive) (course : Course) (head : Bytes) :
    Prop where
  file : course.file = archive.fileWith head course.first
  batches : Batches archive course.first (Writer.dataNotes course.notes)
  unfiled : ¬ IndexFiled archive course →
    head = [] ∧ Writer.indexNotes course.notes = []
  filed : IndexFiled archive course →
    Writer.indexNotes course.notes = [head] ∧
      ∃ write, Expected archive write ∧ head = write.data

theorem filed_start : Filed archive (start archive) [] := by
  refine ⟨rfl, .nil, fun _ => ⟨rfl, rfl⟩, ?_⟩
  intro filed
  exact nomatch filed.2.1

/-- Nothing has been written. -/
theorem Filed.keep {head : Bytes}
    (filed : Filed archive course head) {next : Course}
    (file : next.file = course.file) (first : next.first = course.first)
    (index : IndexFiled archive next ↔ IndexFiled archive course)
    (data : Writer.dataNotes next.notes = Writer.dataNotes course.notes)
    (tables : Writer.indexNotes next.notes =
      Writer.indexNotes course.notes) :
    Filed archive next head := by
  refine ⟨?_, ?_, ?_, ?_⟩
  · rw [file, first]
    exact filed.file
  · rw [first, data]
    exact filed.batches
  · rw [index, tables]
    exact filed.unfiled
  · rw [index, tables]
    exact filed.filed

/-- The blocks of a batch have been gathered. -/
theorem Filed.gather {head : Bytes}
    (filed : Filed archive course head) (indexed : Indexed archive course)
    {rest : List WriterCall} {count : Nat}
    (turn : course.Turn archive rest) (batch : course.Batch archive count)
    {next : Course} (file : next.file = course.file)
    (first : next.first = course.first)
    (ready : next.indexReady = course.indexReady)
    (notes : next.notes = course.notes) (write : IndexWrite)
    (gathered : Nat) :
    Filed archive (next.flushAt archive write gathered) head := by
  have unready := indexed.of_batch turn batch
  have before : ¬ IndexFiled archive course := by
    intro done
    rw [done.2.1] at unready
    exact nomatch unready
  have after : ¬ IndexFiled archive
      (next.flushAt archive write gathered) := by
    rintro ⟨waits, done, none⟩
    rw [flushAt_eq] at done none
    dsimp only at done none
    by_cases all : archive.blocks ≤ gathered
    · rw [if_pos all, waits] at none
      exact nomatch none
    · rw [if_neg all, ready, unready] at done
      exact nomatch done
  have sameNotes : (next.flushAt archive write gathered).notes =
      course.notes := (flushAt_notes write gathered).trans notes
  refine filed.keep ?_ ((flushAt_first write gathered).trans first)
    (iff_of_false after before) ?_ ?_
  · rw [flushAt_eq]
    exact file
  · rw [sameNotes]
  · rw [sameNotes]

theorem writtenPart_full {data : Bytes} {result : Int}
    (full : data.length ≤ result) :
    Writer.writtenPart data result = data := by
  rw [Writer.writtenPart, List.take_of_length_le]
  omega

/-- A batch has been written. -/
theorem Filed.write {head : Bytes}
    (filed : Filed archive course head) {count : Nat} {result : Int}
    (positive : 0 < count) (live : course.first + count ≤ course.last)
    (inside : course.first + count ≤ archive.blocks)
    (full : (archive.body course.first count).length ≤ result)
    {next : Course}
    (pipeline : next.pipeline = course.pipeline.retire count)
    (file : next.file = pwrite 0 course.file
      (archive.pos course.first).toNat
      (Writer.writtenPart (archive.body course.first count) result))
    (index : IndexFiled archive next ↔ IndexFiled archive course)
    (notes : next.notes = course.notes ++
      [.wroteData (archive.pos course.first)
        (Writer.writtenPart (archive.body course.first count) result)]) :
    Filed archive next head := by
  have first := (bounds_of_retire live pipeline).1
  rw [writtenPart_full full] at file notes
  refine ⟨?_, ?_, ?_, ?_⟩
  · rw [file, filed.file, first, Archive.fileWith_add head positive inside]
  · rw [first, notes, Writer.dataNotes, List.filterMap_append]
    exact .snoc filed.batches positive inside
  · rw [index, notes, Writer.indexNotes, List.filterMap_append]
    intro unfiled
    obtain ⟨none, empty⟩ := filed.unfiled unfiled
    exact ⟨none, by rw [← Writer.indexNotes, empty]; rfl⟩
  · rw [index, notes, Writer.indexNotes, List.filterMap_append]
    intro done
    obtain ⟨tables, expected⟩ := filed.filed done
    exact ⟨by rw [← Writer.indexNotes, tables]; rfl, expected⟩

/-- The header and the tables have been written. -/
theorem Filed.tables {head : Bytes}
    (filed : Filed archive course head) (indexed : Indexed archive course)
    (leads : archive.Leads) {write : IndexWrite} {result : Int}
    (writes : course.indexWrites = [write])
    (full : write.data.length ≤ result) {next : Course}
    (pipeline : next.pipeline = course.pipeline)
    (file : next.file = pwrite 0 course.file 0
      (Writer.writtenPart write.data result))
    (ready : next.indexReady = course.indexReady)
    (index : next.indexWrites = [])
    (notes : next.notes = course.notes ++
      [.wroteIndex (Writer.writtenPart write.data result)]) :
    Filed archive next write.data := by
  have first : next.first = course.first :=
    congrArg Pipeline.first pipeline
  rw [writtenPart_full full] at file notes
  obtain ⟨isReady, _, expected, waits⟩ := indexed.of_writes writes
  have before : ¬ IndexFiled archive course := by
    intro done
    rw [done.2.2] at writes
    exact nomatch writes
  have after : IndexFiled archive next :=
    ⟨waits, ready.trans isReady, index⟩
  obtain ⟨none, empty⟩ := filed.unfiled before
  refine ⟨?_, ?_, fun unfiled => absurd after unfiled, fun _ => ?_⟩
  · rw [file, filed.file, none, first, Archive.fileWith_head]
    rw [expected.length]
    exact leads waits
  · rw [first, notes, Writer.dataNotes, List.filterMap_append]
    have data := filed.batches
    rw [Writer.dataNotes] at data
    exact (List.append_nil _).symm ▸ data
  · rw [notes, Writer.indexNotes, List.filterMap_append,
      ← Writer.indexNotes, empty]
    exact ⟨rfl, write, expected, rfl⟩

/-- What writes are asked for is written. -/
structure Whole (may : Writer.Completions) : Prop where
  data : ∀ write result, may.dataWritten write result →
    write.data.length ≤ result
  index : ∀ write result, may.indexWritten write result →
    write.data.length ≤ result

theorem whole_full : Whole .full :=
  ⟨fun _ _ given => given.ge, fun _ _ given => given.ge⟩

theorem indexPassed_le : archive.indexPassed ≤ archive.indexTotal := by
  unfold Archive.indexPassed Archive.indexTotal Output.uvBufLength
  split
  · exact Nat.add_le_add_left (Nat.mod_le _ _) _
  · exact Nat.add_le_add_left (Nat.mod_le _ _) _
  · exact Nat.add_le_add_left (Nat.mod_le _ _) _
  · exact Nat.le_refl _

/-- Every move keeps the file unless a short write is reported. -/
theorem Filed.carry
    (hasFile : archive.noFile = false) (leads : archive.Leads)
    (sound : Sound archive course) {head : Bytes}
    (filed : Filed archive course head) {may : Writer.Completions}
    {next : Course} (whole : next.Reported → Whole may)
    (move : Move archive may course next) :
    ∃ head, Filed archive next head := by
  have most := sound.fed.last_le
  have still : ∀ {note : WriterNote},
      Writer.dataNotes [note] = [] → Writer.indexNotes [note] = [] →
        Writer.dataNotes (course.notes ++ [note]) =
            Writer.dataNotes course.notes ∧
          Writer.indexNotes (course.notes ++ [note]) =
            Writer.indexNotes course.notes := by
    intro note data tables
    rw [Writer.dataNotes, List.filterMap_append, ← Writer.dataNotes,
      ← Writer.dataNotes, data, Writer.indexNotes, List.filterMap_append,
      ← Writer.indexNotes, ← Writer.indexNotes, tables, List.append_nil,
      List.append_nil]
    exact ⟨rfl, rfl⟩
  cases move with
  | @arrive id =>
      exact ⟨head, filed.keep rfl (fill_first id) Iff.rfl rfl rfl⟩
  | @pad id =>
      exact ⟨head, filed.keep rfl (fill_first id) Iff.rfl rfl rfl⟩
  | measure _ _ _ noFile => exact nomatch hasFile.symm.trans noFile
  | issue turn batch | stall turn batch =>
      refine ⟨head, filed.gather sound.indexed turn batch ?_ ?_ ?_ ?_ _ _⟩
      all_goals rfl
  | progress | finish =>
      refine ⟨head,
        filed.keep rfl rfl Iff.rfl (still ?_ ?_).1 (still ?_ ?_).2⟩
      all_goals rfl
  | dataWritten _ _ positive live _ enough =>
      have full := (batch_full (live.trans most)).trans enough.symm
      exact ⟨head, filed.write positive live (live.trans most) full.le rfl
        rfl Iff.rfl rfl⟩
  | dataFailed _ _ positive live _ _ given =>
      have full := (whole (Or.inl ⟨_, List.mem_cons_self⟩)).data _ _ given
      exact ⟨head, filed.write positive live (live.trans most) full rfl rfl
        Iff.rfl rfl⟩
  | indexWritten _ writes enough =>
      obtain ⟨_, _, expected, _⟩ := sound.indexed.of_writes writes
      refine ⟨_, filed.tables sound.indexed leads writes ?_ rfl rfl rfl rfl
        rfl⟩
      rw [enough, expected.length, expected.totalBytes]
      exact Int.ofNat_le.mpr indexPassed_le
  | indexFailed _ writes _ given =>
      have full := (whole (Or.inl ⟨_, List.mem_cons_self⟩)).index _ _ given
      exact ⟨_, filed.tables sound.indexed leads writes full rfl rfl rfl rfl
        rfl⟩
  | _ => exact ⟨head, filed.keep rfl rfl Iff.rfl rfl rfl⟩

/-- Every move of a run in which everything succeeds keeps the file. -/
theorem Filed.move
    (hasFile : archive.noFile = false) (leads : archive.Leads)
    (sound : Sound archive course) {head : Bytes}
    (filed : Filed archive course head) {next : Course}
    (move : Move archive .full course next) :
    ∃ head, Filed archive next head :=
  filed.carry hasFile leads sound (fun _ => whole_full) move

/-! ## Reports of success -/

/-- Success is reported with the size of the whole file. -/
def Totalled (archive : Archive) (course : Course) : Prop :=
  ∀ written ∈ Writer.successNotes course.notes,
    written = archive.pos archive.blocks

theorem successNotes_append (notes : List WriterNote) (note : WriterNote) :
    Writer.successNotes (notes ++ [note]) =
      Writer.successNotes notes ++ Writer.successNotes [note] := by
  rw [Writer.successNotes, List.filterMap_append, ← Writer.successNotes,
    ← Writer.successNotes]

/-- When success is due or noted everything has been written. -/
theorem Sound.all_written
    (sound : Sound archive course)
    (some : 0 < course.calls.countP isSuccess +
      course.notes.countP isSuccessNote) :
    course.calls.countP isSuccess + course.notes.countP isSuccessNote = 1 ∧
      course.first = archive.blocks ∧
      course.dstPos = archive.pos archive.blocks ∧
      course.dataWrites = [] ∧ course.indexWrites = [] ∧
      course.indexReady = true := by
  have counted := sound.counted.successes
  have done : (course.indexWritten && course.dataWritten) = true := by
    by_contra undone
    rw [Bool.not_eq_true] at undone
    rw [undone, Bool.toNat_false] at counted
    omega
  obtain ⟨indexWritten, dataWritten⟩ := Bool.and_eq_true_iff.mp done
  have passed : (archive.srcSize : Int) ≤ course.srcPos := by
    by_contra before
    have ends := sound.counted.ends
    rw [if_neg before, dataWritten, Bool.toNat_true] at ends
    omega
  obtain ⟨first, _, dstPos, none, ready⟩ :=
    sound.front.ended sound.fed.toFilled passed
  rw [done, Bool.toNat_true] at counted
  refine ⟨counted, first, dstPos, none, ?_, ready⟩
  rcases sound.indexed.single with unissued | ⟨_, _, unwritten, _⟩
  · exact unissued
  · exact nomatch indexWritten.symm.trans unwritten

/-- The size that a report of success comes with. -/
theorem Sound.dstPos_of_success
    (sound : Sound archive course) {reason : String}
    (due : .output (.finish true reason) ∈ course.calls) :
    course.dstPos = archive.pos archive.blocks := by
  have some : 0 < course.calls.countP isSuccess :=
    List.countP_pos_iff.mpr ⟨_, due, rfl⟩
  exact (sound.all_written (Nat.add_pos_left some _)).2.2.1

theorem Totalled.move {may : Writer.Completions}
    (sound : Sound archive course) (totalled : Totalled archive course)
    {next : Course} (move : Move archive may course next) :
    Totalled archive next := by
  have other : ∀ {note : WriterNote}, Writer.successNotes [note] = [] →
      ∀ written ∈ Writer.successNotes (course.notes ++ [note]),
        written = archive.pos archive.blocks := by
    intro note none
    rw [successNotes_append, none, List.append_nil]
    exact totalled
  cases move with
  | @finish success reason rest calls =>
      cases success with
      | false => exact other rfl
      | true =>
          intro written member
          rw [successNotes_append] at member
          rcases List.mem_append.mp member with earlier | last
          · exact totalled written earlier
          · rw [List.mem_singleton.mp last]
            refine @Sound.dstPos_of_success archive course sound reason ?_
            rw [calls]
            exact List.mem_cons_self
  | progress | dataWritten | dataFailed | indexWritten | indexFailed =>
      exact other rfl
  | measure | issue | stall =>
      unfold Totalled
      rw [flushAt_notes]
      exact totalled
  | _ => exact totalled

/-- The one report of success. -/
theorem Totalled.single
    (totalled : Totalled archive course)
    (once : course.notes.countP isSuccessNote = 1) :
    Writer.successNotes course.notes = [archive.pos archive.blocks] := by
  rw [← Writer.length_successNotes] at once
  obtain ⟨written, single⟩ := List.length_eq_one_iff.mp once
  have size := totalled written (by
    rw [single]
    exact List.mem_singleton_self written)
  exact single.trans (congrArg (fun total => [total]) size)

end Course

end Maxcso
