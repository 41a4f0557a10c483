import Mathlib.Data.List.Induction
import Mathlib.Data.List.MinMax
import Maxcso.Sector.Methods

/-!
# Which result is kept

`SubmitTrial` compares every result with the best one so far.  What is kept
after all of them is described by the sizes alone.
-/

namespace Maxcso

namespace Sector

/-- The sector of a block as the first call of `Process` leaves it. -/
def Fresh (sector : Sector) : Prop :=
  sector.bestSoFar = ⟨.orig, sector.blockSize, none⟩

/-- The result that is kept of a trial. -/
def keeping (trial : Trial) : Best :=
  ⟨trial.format, trial.data.length, some trial.data⟩

/-- The block itself is kept. -/
def raw (sector : Sector) : Best :=
  ⟨.orig, sector.blockSize, none⟩

section

variable {sector : Sector} {best : Best} {trial : Trial}

theorem kept_eq (fresh : sector.Fresh) (heap : Nat → Nat → UInt8)
    (pool : BufferPool) (trials : List Trial) :
    (sector.compressWith heap pool trials).1.bestSoFar =
      trials.foldl sector.submit sector.raw := by
  rw [(compressWith_best heap sector pool trials).1, fresh]
  rfl

theorem submit_eq (sector : Sector) (best : Best) (trial : Trial) :
    sector.submit best trial =
      if ({ sector with
            bestSize := best.size
            bestFmt := best.format }).better
          trial.data.length trial.format then
        keeping trial
      else
        best := rfl

/-- A deflate result has to be smaller than the block itself, or than another
deflate result, by the cost of the block itself. -/
theorem submit_deflate
    (notDax : hasFlag sector.flags taskflagFmtDax = false)
    (deflates : trial.format = .deflate)
    (fits : trial.data.length + sector.origMaxCost < 2 ^ 32)
    (other : best.format ≠ .lz4) :
    sector.submit best trial =
      if trial.data.length + sector.origMaxCost < best.size then
        keeping trial
      else
        best := by
  rw [submit_eq, deflates]
  cases format : best.format with
  | orig =>
      simp only [better, notDax, Bool.or_false, Nat.mod_eq_of_lt fits,
        decide_eq_true_eq]
  | deflate =>
      simp only [better, Nat.mod_eq_of_lt fits, decide_eq_true_eq]
  | lz4 => exact absurd format other

end

/-! ## The cost of the block itself -/

/-- The block itself is kept when no result is smaller by its cost, and a
smallest result otherwise. -/
def OriginalCostLaw (sector : Sector) (trials : List Trial)
    (kept : Best) : Prop :=
  if ∀ trial ∈ trials,
      sector.blockSize ≤ trial.data.length + sector.origMaxCost then
    kept = sector.raw
  else
    ∃ trial ∈ trials, kept = keeping trial ∧
      ∀ other ∈ trials, trial.data.length ≤ other.data.length

/-- No result that could be kept is larger than the smallest by the cost of
the block itself at most. -/
def Spaced (sector : Sector) (trials : List Trial) : Prop :=
  -- In a single sequence what is kept depends on what was kept before it, and
  -- nothing short of comparing the results in turn says what that was.
  ∀ trial ∈ trials, ∀ other ∈ trials,
    (∀ any ∈ trials, trial.data.length ≤ any.data.length) →
      trial.data.length < other.data.length →
        other.data.length + sector.origMaxCost < sector.blockSize →
          trial.data.length + sector.origMaxCost < other.data.length

section

variable {sector : Sector} {trials : List Trial}

/-- What is kept is a result that no later one was smaller than by the
cost. -/
theorem foldl_submit_deflate
    (notDax : hasFlag sector.flags taskflagFmtDax = false)
    (deflates : ∀ trial ∈ trials, trial.format = .deflate)
    (fits : ∀ trial ∈ trials,
      trial.data.length + sector.origMaxCost < 2 ^ 32) :
    (trials.foldl sector.submit sector.raw = sector.raw ∧
        ∀ trial ∈ trials,
          sector.blockSize ≤ trial.data.length + sector.origMaxCost) ∨
      ∃ kept ∈ trials,
        trials.foldl sector.submit sector.raw = keeping kept ∧
          kept.data.length + sector.origMaxCost < sector.blockSize ∧
          ∀ trial ∈ trials,
            kept.data.length ≤ trial.data.length + sector.origMaxCost := by
  induction trials using List.reverseRecOn with
  | nil =>
      refine Or.inl ⟨rfl, ?_⟩
      intro trial member
      exact nomatch member
  | append_singleton seen trial inductionHypothesis =>
      have last : trial ∈ seen ++ [trial] := by simp
      have before : ∀ {other : Trial}, other ∈ seen →
          other ∈ seen ++ [trial] :=
        fun member => List.mem_append_left _ member
      have submits := @submit_deflate sector
      rw [List.foldl_append, List.foldl_cons, List.foldl_nil]
      rcases inductionHypothesis (fun other member =>
          deflates other (before member))
          (fun other member => fits other (before member)) with
        ⟨same, large⟩ | ⟨kept, member, same, small, near⟩
      · rw [same, submits notDax (deflates trial last) (fits trial last)
          (by simp [raw])]
        by_cases wins : trial.data.length + sector.origMaxCost <
            sector.raw.size
        · refine Or.inr ⟨trial, last, if_pos wins, wins, ?_⟩
          intro other member
          have below : trial.data.length + sector.origMaxCost <
              sector.blockSize := wins
          rcases List.mem_append.mp member with earlier | same
          · have above := large other earlier
            omega
          · rw [List.mem_singleton.mp same]
            exact Nat.le_add_right _ _
        · refine Or.inl ⟨if_neg wins, ?_⟩
          intro other member
          rcases List.mem_append.mp member with earlier | same
          · exact large other earlier
          · rw [List.mem_singleton.mp same]
            exact Nat.not_lt.mp wins
      · have format : (keeping kept).format ≠ .lz4 := by
          simp [keeping, deflates kept (before member)]
        rw [same, submits notDax (deflates trial last) (fits trial last)
          format]
        by_cases wins : trial.data.length + sector.origMaxCost <
            (keeping kept).size
        · have less : trial.data.length + sector.origMaxCost <
              kept.data.length := wins
          refine Or.inr ⟨trial, last, if_pos wins, by omega, ?_⟩
          intro other member
          rcases List.mem_append.mp member with earlier | same
          · have above := near other earlier
            omega
          · rw [List.mem_singleton.mp same]
            exact Nat.le_add_right _ _
        · refine Or.inr ⟨kept, before member, if_neg wins, small, ?_⟩
          intro other member
          rcases List.mem_append.mp member with earlier | same
          · exact near other earlier
          · rw [List.mem_singleton.mp same]
            exact Nat.not_lt.mp wins

/-- A result that is kept stays when no other is smaller by the cost. -/
theorem foldl_submit_keeping
    (notDax : hasFlag sector.flags taskflagFmtDax = false)
    (deflates : ∀ trial ∈ trials, trial.format = .deflate)
    (fits : ∀ trial ∈ trials,
      trial.data.length + sector.origMaxCost < 2 ^ 32)
    {kept : Trial} (format : kept.format = .deflate)
    (near : ∀ trial ∈ trials,
      kept.data.length ≤ trial.data.length + sector.origMaxCost) :
    trials.foldl sector.submit (keeping kept) = keeping kept := by
  induction trials with
  | nil => rfl
  | cons trial trials inductionHypothesis =>
      have loses : ¬ trial.data.length + sector.origMaxCost <
          (keeping kept).size :=
        Nat.not_lt.mpr (near trial List.mem_cons_self)
      rw [List.foldl_cons,
        submit_deflate notDax (deflates trial List.mem_cons_self)
          (fits trial List.mem_cons_self) (by simp [keeping, format]),
        if_neg loses]
      exact inductionHypothesis
        (fun other member => deflates other (List.mem_cons_of_mem _ member))
        (fun other member => fits other (List.mem_cons_of_mem _ member))
        (fun other member => near other (List.mem_cons_of_mem _ member))

theorem exists_smallest {trial : Trial} (member : trial ∈ trials) :
    ∃ least ∈ trials, ∀ any ∈ trials,
      least.data.length ≤ any.data.length := by
  cases found : trials.argmin (·.data.length) with
  | none =>
      rw [List.argmin_eq_none.mp found] at member
      exact nomatch member
  | some least =>
      refine ⟨least, List.argmin_mem found, ?_⟩
      intro any among
      exact @List.le_of_mem_argmin _ _ _ (·.data.length) _ _ _ among found

/-- The cost trades only against the block itself, in every order of the
results, exactly when the results are spaced. -/
theorem original_cost_law
    (fresh : sector.Fresh)
    (notDax : hasFlag sector.flags taskflagFmtDax = false)
    (deflates : ∀ trial ∈ trials, trial.format = .deflate)
    (fits : ∀ trial ∈ trials,
      trial.data.length + sector.origMaxCost < 2 ^ 32)
    (heap : Nat → Nat → UInt8) (pool : BufferPool) :
    (∀ order : List Trial, order.Perm trials →
      OriginalCostLaw sector order
        (sector.compressWith heap pool order).1.bestSoFar) ↔
      Spaced sector trials := by
  constructor
  · intro law least member other member' smallest larger small
    by_contra near
    have order : (other :: trials.erase other).Perm trials :=
      (List.perm_cons_erase member').symm
    have held := law _ order
    rw [kept_eq fresh] at held
    have rest : ∀ {trial : Trial}, trial ∈ trials.erase other →
        trial ∈ trials := List.mem_of_mem_erase
    have first : sector.submit sector.raw other = keeping other := by
      rw [submit_deflate notDax (deflates other member') (fits other member')
        (by simp [raw])]
      exact if_pos small
    rw [List.foldl_cons, first,
      foldl_submit_keeping notDax
        (fun trial inside => deflates trial (rest inside))
        (fun trial inside => fits trial (rest inside))
        (deflates other member')
        (fun trial inside => by
          have above := smallest trial (rest inside)
          omega)] at held
    unfold OriginalCostLaw at held
    split at held
    · rename_i all
      have above := all other List.mem_cons_self
      omega
    · obtain ⟨kept, _, same, below⟩ := held
      have size : other.data.length = kept.data.length :=
        congrArg Best.size same
      have least_le := below least (order.mem_iff.mpr member)
      omega
  · intro spaced order same
    rw [kept_eq fresh]
    have inside : ∀ {trial : Trial}, trial ∈ order → trial ∈ trials :=
      fun member => same.mem_iff.mp member
    unfold OriginalCostLaw
    rcases foldl_submit_deflate notDax
        (fun trial member => deflates trial (inside member))
        (fun trial member => fits trial (inside member)) with
      ⟨kept, large⟩ | ⟨kept, member, held, small, near⟩
    · rw [if_pos large]
      exact kept
    · rw [if_neg (fun all => by
        have above := all kept member
        omega)]
      refine ⟨kept, member, held, ?_⟩
      obtain ⟨least, inside', smallest⟩ := exists_smallest member
      intro other member'
      have below := smallest other member'
      by_contra larger
      -- A smallest result below the kept one would be too near.
      have apart := spaced least (inside inside') kept (inside member)
        (fun any among => smallest any (same.mem_iff.mpr among)) (by omega)
        small
      have above := near least inside'
      omega

end

/-- A block of 2048 bytes that may be stored raw at the cost of one byte. -/
def oneByteCost : Sector :=
  { (create 0).setup sectorSize 1 1 0 with bestSize := sectorSize }

/-- Results of so many bytes. -/
def deflated (length : Nat) : Trial := ⟨List.replicate length 0, .deflate⟩

theorem original_cost_law_spaced :
    OriginalCostLaw oneByteCost [deflated 12, deflated 9]
      (oneByteCost.compressWith (fun _ _ => 0) .initial
        [deflated 12, deflated 9]).1.bestSoFar :=
  (@original_cost_law oneByteCost [deflated 12, deflated 9] rfl rfl
    (by decide) (by decide) (fun _ _ => 0) .initial).mpr (by
      unfold Spaced
      decide) _ (List.Perm.refl _)

/-- The smaller of two results is dropped. -/
theorem original_cost_between_results :
    ¬ ∀ (sector : Sector) (trials : List Trial), sector.Fresh →
      hasFlag sector.flags taskflagFmtDax = false →
        (∀ trial ∈ trials, trial.format = .deflate) →
          (∀ trial ∈ trials,
            trial.data.length + sector.origMaxCost < 2 ^ 32) →
            ∀ (heap : Nat → Nat → UInt8) (pool : BufferPool),
              OriginalCostLaw sector trials
                (sector.compressWith heap pool trials).1.bestSoFar := by
  intro law
  have kept := law oneByteCost [deflated 12, deflated 11] rfl rfl
    (by decide) (by decide) (fun _ _ => 0) .initial
  unfold OriginalCostLaw at kept
  revert kept
  decide

/-! ## The cost of lz4 -/

/-- The least sizes that can be kept: of the deflate results below the size of
the block, and of the lz4 results that come when they can be kept. -/
structure Standing where
  deflate : Option Nat
  lz4 : Option Nat

def lower (least : Option Nat) (size : Nat) : Option Nat :=
  some (min (least.getD size) size)

/-- An lz4 result that is not smaller than the block is looked at only when
there is a deflate result that is. -/
def Standing.add (blockSize : Nat) (standing : Standing) (trial : Trial) :
    Standing :=
  let size := trial.data.length
  match trial.format with
  | .deflate =>
      if size < blockSize then
        { standing with deflate := lower standing.deflate size }
      else
        standing
  | .lz4 =>
      if size < blockSize ∨ standing.deflate.isSome then
        { standing with lz4 := lower standing.lz4 size }
      else
        standing
  | .orig => standing

def standing (blockSize : Nat) (trials : List Trial) : Standing :=
  trials.foldl (Standing.add blockSize) ⟨none, none⟩

/-- The format and the size that are kept. -/
def Standing.winner (blockSize cost : Nat) (standing : Standing) :
    SectorFormat × Nat :=
  match standing.deflate, standing.lz4 with
  | some deflate, some lz4 =>
      if lz4 ≤ deflate + cost then (.lz4, lz4) else (.deflate, deflate)
  | none, some lz4 => (.lz4, lz4)
  | some deflate, none => (.deflate, deflate)
  | none, none => (.orig, blockSize)

/-- The sizes are below the size of the block where they have to be, and the
costs can be added to them. -/
structure Standing.Small (blockSize cost : Nat) (standing : Standing) :
    Prop where
  deflate : ∀ size, standing.deflate = some size →
    size < blockSize ∧ size + cost < 2 ^ 32
  lz4 : standing.deflate = none →
    ∀ size, standing.lz4 = some size → size < blockSize

/-- A result has to be smaller than this to be kept. -/
def limit (sector : Sector) (best : Best) (format : SectorFormat) : Nat :=
  match format, best.format with
  | .lz4, .deflate => best.size + sector.lz4MaxCost + 1
  | .deflate, .lz4 => best.size - sector.lz4MaxCost
  | _, _ => best.size

section

variable {sector : Sector} {trials : List Trial}

/-- The comparisons when the block itself has no cost. -/
theorem submit_free
    (notDax : hasFlag sector.flags taskflagFmtDax = false)
    (free : sector.origMaxCost = 0) {best : Best} {trial : Trial}
    (small : trial.data.length < 2 ^ 32)
    (fits : trial.format = .deflate →
      trial.data.length + sector.lz4MaxCost < 2 ^ 32)
    (room : best.format = .deflate →
      best.size + sector.lz4MaxCost < 2 ^ 32) :
    sector.submit best trial =
      if trial.data.length < sector.limit best trial.format then
        keeping trial
      else
        best := by
  rw [submit_eq]
  congr 1
  rw [eq_iff_iff]
  unfold limit
  cases kind : trial.format with
  | orig =>
      cases best.format <;>
        simp only [better, notDax, free, Nat.add_zero,
          Nat.mod_eq_of_lt small, Bool.or_false, decide_eq_true_eq]
  | deflate =>
      cases format : best.format with
      | orig =>
          simp only [better, notDax, free, Nat.add_zero,
            Nat.mod_eq_of_lt small, Bool.or_false, decide_eq_true_eq]
      | deflate =>
          simp only [better, free, Nat.add_zero, Nat.mod_eq_of_lt small,
            decide_eq_true_eq]
      | lz4 =>
          simp only [better, Nat.mod_eq_of_lt (fits kind),
            decide_eq_true_eq]
          omega
  | lz4 =>
      cases format : best.format with
      | orig =>
          simp only [better, notDax, free, Nat.add_zero,
            Nat.mod_eq_of_lt small, Bool.or_false, decide_eq_true_eq]
      | deflate =>
          simp only [better, Nat.mod_eq_of_lt (room format),
            decide_eq_true_eq]
          omega
      | lz4 =>
          simp only [better, free, Nat.add_zero, Nat.mod_eq_of_lt small,
            decide_eq_true_eq]

theorem Standing.Small.add
    {blockSize cost : Nat} {standing : Standing}
    (small : standing.Small blockSize cost) {trial : Trial}
    (fits : trial.format = .deflate → trial.data.length + cost < 2 ^ 32) :
    (standing.add blockSize trial).Small blockSize cost := by
  obtain ⟨deflate, lz4⟩ := standing
  obtain ⟨below, below'⟩ := small
  constructor
  · cases deflate <;> grind [Standing.add, lower]
  · cases lz4 <;> grind [Standing.add, lower]

/-- What is kept is the winner of the standing. -/
theorem submit_standing
    (notDax : hasFlag sector.flags taskflagFmtDax = false)
    (free : sector.origMaxCost = 0) {best : Best} {trial : Trial}
    (compressed : trial.format ≠ .orig)
    (word : trial.data.length < 2 ^ 32)
    (fits : trial.format = .deflate →
      trial.data.length + sector.lz4MaxCost < 2 ^ 32)
    {standing : Standing}
    (small : standing.Small sector.blockSize sector.lz4MaxCost)
    (same : (best.format, best.size) =
      standing.winner sector.blockSize sector.lz4MaxCost) :
    ((sector.submit best trial).format, (sector.submit best trial).size) =
      (standing.add sector.blockSize trial).winner sector.blockSize
        sector.lz4MaxCost := by
  obtain ⟨deflate, lz4⟩ := standing
  obtain ⟨format, size, data⟩ := best
  obtain ⟨bytes, kind⟩ := trial
  obtain ⟨below, below'⟩ := small
  have room : format = .deflate → size + sector.lz4MaxCost < 2 ^ 32 := by
    rintro rfl
    cases deflate with
    | none => cases lz4 <;> exact nomatch congrArg Prod.fst same
    | some deflate =>
        have bound := (below deflate rfl).2
        cases lz4 with
        | none =>
            obtain rfl : size = deflate := congrArg Prod.snd same
            exact bound
        | some lz4 =>
            simp only [Standing.winner] at same
            split at same
            · exact nomatch congrArg Prod.fst same
            · obtain rfl : size = deflate := congrArg Prod.snd same
              exact bound
  rw [submit_free notDax free word fits room]
  -- The order of the two least sizes decides before and after the result.
  cases kind with
  | orig => exact absurd rfl compressed
  | deflate =>
      cases deflate <;> cases lz4 <;>
        grind [Standing.add, Standing.winner, lower, limit, keeping]
  | lz4 =>
      cases deflate <;> cases lz4 <;>
        grind [Standing.add, Standing.winner, lower, limit, keeping]

theorem foldl_submit_standing
    (notDax : hasFlag sector.flags taskflagFmtDax = false)
    (free : sector.origMaxCost = 0)
    (compressed : ∀ trial ∈ trials, trial.format ≠ .orig)
    (words : ∀ trial ∈ trials, trial.data.length < 2 ^ 32)
    (fits : ∀ trial ∈ trials, trial.format = .deflate →
      trial.data.length + sector.lz4MaxCost < 2 ^ 32) :
    (standing sector.blockSize trials).Small sector.blockSize
        sector.lz4MaxCost ∧
      ((trials.foldl sector.submit sector.raw).format,
          (trials.foldl sector.submit sector.raw).size) =
        (standing sector.blockSize trials).winner sector.blockSize
          sector.lz4MaxCost := by
  induction trials using List.reverseRecOn with
  | nil => exact ⟨⟨nofun, nofun⟩, rfl⟩
  | append_singleton seen trial inductionHypothesis =>
      have last : trial ∈ seen ++ [trial] := by simp
      obtain ⟨small, same⟩ := inductionHypothesis
        (fun other member => compressed other (List.mem_append_left _ member))
        (fun other member => words other (List.mem_append_left _ member))
        (fun other member => fits other (List.mem_append_left _ member))
      rw [standing, List.foldl_append, List.foldl_append]
      exact ⟨small.add (fits trial last),
        submit_standing notDax free (compressed trial last)
          (words trial last) (fits trial last) small same⟩

end

/-! ## Least sizes -/

/-- The least of some sizes, if there is one. -/
def IsLeastOf (least : Option Nat) (among : Nat → Prop) : Prop :=
  match least with
  | none => ∀ size, ¬ among size
  | some size => among size ∧ ∀ other, among other → size ≤ other

/-- A deflate result below the size of the block. -/
def Helps (blockSize : Nat) (trials : List Trial) (size : Nat) : Prop :=
  size < blockSize ∧
    ∃ trial ∈ trials, trial.format = .deflate ∧ trial.data.length = size

/-- An lz4 result that is below the size of the block, or that comes after a
deflate result that is. -/
def Considered (blockSize : Nat) (trials : List Trial) (size : Nat) : Prop :=
  ∃ earlier trial later, trials = earlier ++ trial :: later ∧
    trial.format = .lz4 ∧ trial.data.length = size ∧
    (size < blockSize ∨ ∃ other, Helps blockSize earlier other)

section

variable {blockSize : Nat} {trials : List Trial} {trial : Trial}
variable {among among' : Nat → Prop} {least least' : Option Nat}

theorem IsLeastOf.unique
    (first : IsLeastOf least among) (second : IsLeastOf least' among')
    (same : ∀ size, among size ↔ among' size) :
    least = least' := by
  cases least with
  | none =>
      cases least' with
      | none => rfl
      | some size => exact absurd ((same size).mpr second.1) (first size)
  | some size =>
      cases least' with
      | none => exact absurd ((same size).mp first.1) (second size)
      | some size' =>
          have le := first.2 size' ((same size').mpr second.1)
          have ge := second.2 size ((same size).mp first.1)
          exact congrArg some (Nat.le_antisymm le ge)

theorem IsLeastOf.congr (first : IsLeastOf least among)
    (same : ∀ size, among size ↔ among' size) :
    IsLeastOf least among' := by
  rwa [show among' = among from (funext fun size => propext (same size)).symm]

theorem isLeastOf_min (sizes : List Nat) :
    IsLeastOf sizes.min? (· ∈ sizes) := by
  cases found : sizes.min? with
  | none =>
      rw [List.min?_eq_none_iff.mp found]
      intro size member
      exact nomatch member
  | some size => exact List.min?_eq_some_iff.mp found

theorem isLeastOf_lower (before : IsLeastOf least among) (size : Nat) :
    IsLeastOf (lower least size) fun other => among other ∨ other = size := by
  cases least with
  | none =>
      refine ⟨Or.inr (Nat.min_self size), ?_⟩
      rintro other (inside | rfl)
      · exact absurd inside (before other)
      · exact Nat.min_le_left _ _
  | some least =>
      refine ⟨?_, ?_⟩
      · rcases Nat.le_total least size with le | le
        · rw [Option.getD_some, Nat.min_eq_left le]
          exact Or.inl before.1
        · rw [Option.getD_some, Nat.min_eq_right le]
          exact Or.inr rfl
      · rintro other (inside | rfl)
        · exact (Nat.min_le_left _ _).trans (before.2 other inside)
        · exact Nat.min_le_right _ _

theorem helps_append (size : Nat) :
    Helps blockSize (trials ++ [trial]) size ↔
      Helps blockSize trials size ∨
        (size < blockSize ∧ trial.format = .deflate ∧
          trial.data.length = size) := by
  simp only [Helps, List.mem_append, List.mem_singleton, or_and_right,
    exists_or, exists_eq_left, and_or_left]

theorem considered_append (size : Nat) :
    Considered blockSize (trials ++ [trial]) size ↔
      Considered blockSize trials size ∨
        (trial.format = .lz4 ∧ trial.data.length = size ∧
          (size < blockSize ∨ ∃ other, Helps blockSize trials other)) := by
  constructor
  · rintro ⟨earlier, kept, later, whole, format, length, room⟩
    rcases List.eq_nil_or_concat later with rfl | ⟨rest, last, rfl⟩
    · obtain ⟨rfl, same⟩ := List.append_inj' whole rfl
      obtain rfl := List.singleton_inj.mp same
      exact Or.inr ⟨format, length, room⟩
    · rw [List.concat_eq_append, ← List.cons_append,
        ← List.append_assoc] at whole
      obtain ⟨same, _⟩ := List.append_inj' whole rfl
      exact Or.inl ⟨earlier, kept, rest, same, format, length, room⟩
  · rintro (⟨earlier, kept, later, rfl, format, length, room⟩ |
      ⟨format, length, room⟩)
    · refine ⟨earlier, kept, later ++ [trial], ?_, format, length, room⟩
      rw [List.append_assoc, List.cons_append]
    · exact ⟨trials, trial, [], rfl, format, length, room⟩

/-- The standing has the least sizes that can be kept. -/
theorem standing_least :
    IsLeastOf (standing blockSize trials).deflate
        (Helps blockSize trials) ∧
      IsLeastOf (standing blockSize trials).lz4
        (Considered blockSize trials) := by
  induction trials using List.reverseRecOn with
  | nil =>
      refine ⟨?_, ?_⟩
      · rintro size ⟨_, trial, member, _⟩
        exact nomatch member
      · rintro size ⟨earlier, trial, later, whole, _⟩
        simp at whole
  | append_singleton seen trial inductionHypothesis =>
      obtain ⟨deflate, lz4⟩ := inductionHypothesis
      have room : (standing blockSize seen).deflate.isSome = true ↔
          ∃ other, Helps blockSize seen other := by
        cases found : (standing blockSize seen).deflate with
        | none =>
            rw [found] at deflate
            exact iff_of_false Bool.false_ne_true
              fun ⟨other, helps⟩ => deflate other helps
        | some size =>
            rw [found] at deflate
            exact iff_of_true rfl ⟨size, deflate.1⟩
      have next : standing blockSize (seen ++ [trial]) =
          (standing blockSize seen).add blockSize trial := by
        rw [standing, List.foldl_append]
        rfl
      rw [next, Standing.add]
      cases format : trial.format with
      | orig =>
          refine ⟨deflate.congr ?_, lz4.congr ?_⟩
          · intro size
            rw [helps_append, format]
            simp
          · intro size
            rw [considered_append, format]
            simp
      | deflate =>
          have kept : IsLeastOf (standing blockSize seen).lz4
              (Considered blockSize (seen ++ [trial])) := by
            refine lz4.congr fun size => ?_
            rw [considered_append, format]
            simp
          by_cases small : trial.data.length < blockSize
          · simp only [if_pos small]
            refine ⟨(isLeastOf_lower deflate _).congr ?_, kept⟩
            intro size
            rw [helps_append, format]
            exact or_congr_right
              ⟨fun same => ⟨same ▸ small, rfl, same.symm⟩,
                fun same => same.2.2.symm⟩
          · simp only [if_neg small]
            refine ⟨deflate.congr ?_, kept⟩
            intro size
            rw [helps_append]
            refine (or_iff_left ?_).symm
            rintro ⟨below, _, rfl⟩
            exact small below
      | lz4 =>
          have kept : IsLeastOf (standing blockSize seen).deflate
              (Helps blockSize (seen ++ [trial])) := by
            refine deflate.congr fun size => ?_
            rw [helps_append, format]
            simp
          by_cases counts : trial.data.length < blockSize ∨
              (standing blockSize seen).deflate.isSome
          · simp only [if_pos counts]
            refine ⟨kept, (isLeastOf_lower lz4 _).congr ?_⟩
            intro size
            rw [considered_append, format, ← room]
            exact or_congr_right
              ⟨fun same => ⟨rfl, same.symm, same ▸ counts⟩,
                fun same => same.2.1.symm⟩
          · simp only [if_neg counts]
            refine ⟨kept, lz4.congr ?_⟩
            intro size
            rw [considered_append, ← room]
            refine (or_iff_left ?_).symm
            rintro ⟨_, rfl, counts'⟩
            exact counts counts'

end

/-- The sizes of the results of a format. -/
def sizes (format : SectorFormat) (trials : List Trial) : List Nat :=
  (trials.filter (·.format = format)).map (·.data.length)

/-- What is kept when the least deflate size below the size of the block and
the least lz4 size are these. -/
def lz4CostLaw (blockSize cost : Nat) (deflate lz4 : Option Nat) :
    SectorFormat × Nat :=
  match deflate, lz4 with
  | some deflate, some lz4 =>
      if lz4 ≤ deflate + cost then (.lz4, lz4) else (.deflate, deflate)
  | none, some lz4 =>
      if lz4 < blockSize then (.lz4, lz4) else (.orig, blockSize)
  | some deflate, none => (.deflate, deflate)
  | none, none => (.orig, blockSize)

/-- The deflate results come first, as in `Compress`. -/
def DeflateFirst (trials : List Trial) : Prop :=
  ∃ deflates lz4s, trials = deflates ++ lz4s ∧
    (∀ trial ∈ deflates, trial.format = .deflate) ∧
    ∀ trial ∈ lz4s, trial.format = .lz4

/-- Every lz4 result is smaller than the block. -/
def SmallLz4 (blockSize : Nat) (trials : List Trial) : Prop :=
  ∀ trial ∈ trials, trial.format = .lz4 → trial.data.length < blockSize

section

variable {sector : Sector} {blockSize : Nat} {trials : List Trial}

theorem mem_sizes {format : SectorFormat} {size : Nat} :
    size ∈ sizes format trials ↔
      ∃ trial ∈ trials, trial.format = format ∧ trial.data.length = size := by
  simp only [sizes, List.mem_map, List.mem_filter, decide_eq_true_eq,
    and_assoc]

theorem least_helps :
    IsLeastOf ((sizes .deflate trials).min?.filter (· < blockSize))
      (Helps blockSize trials) := by
  have least := isLeastOf_min (sizes .deflate trials)
  have helps : ∀ size, Helps blockSize trials size ↔
      size < blockSize ∧ size ∈ sizes .deflate trials := by
    intro size
    rw [mem_sizes]
    rfl
  cases found : (sizes .deflate trials).min? with
  | none =>
      rw [found] at least
      exact fun size inside => least size ((helps size).mp inside).2
  | some size =>
      rw [found] at least
      by_cases small : size < blockSize
      · rw [Option.filter_some, if_pos (decide_eq_true small)]
        exact ⟨(helps size).mpr ⟨small, least.1⟩, fun other inside =>
          least.2 other ((helps other).mp inside).2⟩
      · rw [Option.filter_some, if_neg (by simp [small])]
        intro other inside
        obtain ⟨below, member⟩ := (helps other).mp inside
        exact small ((least.2 other member).trans_lt below)

/-- An lz4 result counts when it is smaller than the block, or when there is a
deflate result that is. -/
theorem considered_iff
    (order : DeflateFirst trials ∨ SmallLz4 blockSize trials) (size : Nat) :
    Considered blockSize trials size ↔
      size ∈ sizes .lz4 trials ∧
        (size < blockSize ∨ ∃ other, Helps blockSize trials other) := by
  rw [mem_sizes]
  constructor
  · rintro ⟨earlier, trial, later, rfl, format, length, room⟩
    refine ⟨⟨trial, by simp, format, length⟩, room.imp_right ?_⟩
    rintro ⟨other, below, helper, member, same⟩
    exact ⟨other, below, helper, List.mem_append_left _ member, same⟩
  · rintro ⟨⟨trial, member, format, length⟩, room⟩
    rcases order with ⟨deflates, lz4s, rfl, first, second⟩ | small
    · rcases List.mem_append.mp member with early | late
      · rw [first trial early] at format
        exact nomatch format
      · obtain ⟨before, after, rfl⟩ := List.append_of_mem late
        refine ⟨deflates ++ before, trial, after, by simp, format, length,
          room.imp_right ?_⟩
        rintro ⟨other, below, helper, among, kind, same⟩
        refine ⟨other, below, helper, ?_, kind, same⟩
        rcases List.mem_append.mp among with early | other
        · exact List.mem_append_left _ early
        · rw [second helper other] at kind
          exact nomatch kind
    · obtain ⟨before, after, rfl⟩ := List.append_of_mem member
      exact ⟨before, trial, after, rfl, format, length,
        Or.inl (length ▸ small trial member format)⟩

/-- What is kept depends on the least sizes and the cost only. -/
theorem lz4_cost_law
    (fresh : sector.Fresh)
    (notDax : hasFlag sector.flags taskflagFmtDax = false)
    (free : sector.origMaxCost = 0)
    (compressed : ∀ trial ∈ trials, trial.format ≠ .orig)
    (fits : ∀ trial ∈ trials,
      trial.data.length + sector.lz4MaxCost < 2 ^ 32)
    (order : DeflateFirst trials ∨ SmallLz4 sector.blockSize trials)
    (heap : Nat → Nat → UInt8) (pool : BufferPool) :
    let kept := (sector.compressWith heap pool trials).1.bestSoFar
    (kept = sector.raw ∨ ∃ trial ∈ trials, kept = keeping trial) ∧
      (kept.format, kept.size) =
        lz4CostLaw sector.blockSize sector.lz4MaxCost
          ((sizes .deflate trials).min?.filter (· < sector.blockSize))
          (sizes .lz4 trials).min? := by
  intro kept
  have same : kept = trials.foldl sector.submit sector.raw :=
    kept_eq fresh heap pool trials
  have winner := (foldl_submit_standing notDax free compressed
    (fun trial member => Nat.lt_of_add_right_lt (fits trial member))
    fun trial member _ => fits trial member).2
  obtain ⟨deflate, lz4⟩ := @standing_least sector.blockSize trials
  have counted := considered_iff order
  have helps := deflate.unique least_helps fun _ => Iff.rfl
  have least := isLeastOf_min (sizes .lz4 trials)
  refine ⟨?_, ?_⟩
  · rw [same]
    exact foldl_submit_cases sector trials sector.raw
  · rw [same, winner, ← helps]
    unfold Standing.winner lz4CostLaw
    cases found : (standing sector.blockSize trials).deflate with
    | some size =>
        -- Every lz4 result counts.
        rw [found] at deflate
        rw [lz4.unique least fun other => (counted other).trans
          (and_iff_left (Or.inr ⟨size, deflate.1⟩))]
        cases (sizes .lz4 trials).min? <;> rfl
    | none =>
        rw [found] at deflate
        have below : ∀ other, Considered sector.blockSize trials other ↔
            other ∈ sizes .lz4 trials ∧ other < sector.blockSize := by
          intro other
          rw [counted]
          exact and_congr_right fun _ =>
            or_iff_left fun ⟨helper, inside⟩ => deflate helper inside
        cases smallest : (sizes .lz4 trials).min? with
        | none =>
            rw [smallest] at least
            have none : IsLeastOf none (Considered sector.blockSize trials) :=
              fun other inside => least other ((below other).mp inside).1
            rw [lz4.unique none fun _ => Iff.rfl]
        | some size =>
            rw [smallest] at least
            by_cases small : size < sector.blockSize
            · have some_ : IsLeastOf (some size)
                  (Considered sector.blockSize trials) :=
                ⟨(below size).mpr ⟨least.1, small⟩, fun other inside =>
                  least.2 other ((below other).mp inside).1⟩
              rw [lz4.unique some_ fun _ => Iff.rfl]
              exact (if_pos small).symm
            · have none : IsLeastOf none
                  (Considered sector.blockSize trials) := by
                intro other inside
                obtain ⟨member, less⟩ := (below other).mp inside
                exact small ((least.2 other member).trans_lt less)
              rw [lz4.unique none fun _ => Iff.rfl]
              exact (if_neg small).symm

end

/-- A block for which lz4 may cost ten bytes more. -/
def tenByteCost : Sector :=
  { (create 0).setup sectorSize 1 0 10 with bestSize := sectorSize }

theorem lz4_cost_law_tenByteCost :
    let kept := (tenByteCost.compressWith (fun _ _ => 0) .initial
      [deflated 12, ⟨List.replicate 22 0, .lz4⟩]).1.bestSoFar
    (kept = tenByteCost.raw ∨
        ∃ trial ∈ [deflated 12, ⟨List.replicate 22 0, .lz4⟩],
          kept = keeping trial) ∧
      (kept.format, kept.size) =
        lz4CostLaw sectorSize 10 (some 12) (some 22) :=
  @lz4_cost_law tenByteCost [deflated 12, ⟨List.replicate 22 0, .lz4⟩]
    rfl rfl rfl (by decide) (by decide)
    (Or.inr (by unfold SmallLz4; decide)) (fun _ _ => 0) .initial

/-! ## Raw blocks -/

/-- With its padding, as `AlignedBestSize` counts it, the result is smaller
than the block. -/
def AlignedBelow (sector : Sector) (align : Nat) (trial : Trial) : Prop :=
  ({ sector with bestSize := trial.data.length }).alignedBestSize align <
    sector.blockSize

instance (sector : Sector) (align : Nat) (trial : Trial) :
    Decidable (sector.AlignedBelow align trial) :=
  inferInstanceAs (Decidable (_ < _))

/-- The block is raw when no result helps, and otherwise a result is kept that
does. -/
def RawOnlyWhenNothingHelps (sector : Sector) (align : Nat)
    (trials : List Trial) (kept : Best) : Prop :=
  if ∀ trial ∈ trials, ¬ sector.AlignedBelow align trial then
    kept = sector.raw
  else
    ∃ trial ∈ trials, kept = keeping trial ∧ sector.AlignedBelow align trial

/-- A result is preferred to the one that is held, or to the block itself.
The sums have 32 bits. -/
def Beats (sector : Sector) (held : Option Trial) (trial : Trial) : Prop :=
  match held with
  | none => trial.data.length < sector.blockSize
  | some held =>
      (trial.format = .lz4 ∧ held.format = .deflate ∧ trial.data.length ≤
          (held.data.length + sector.lz4MaxCost) % 2 ^ 32) ∨
        (trial.format = .deflate ∧ held.format = .lz4 ∧
          (trial.data.length + sector.lz4MaxCost) % 2 ^ 32 <
            held.data.length) ∨
        (trial.format = held.format ∧ trial.data.length < held.data.length)

instance (sector : Sector) (held : Option Trial) (trial : Trial) :
    Decidable (sector.Beats held trial) :=
  match held with
  | none => inferInstanceAs (Decidable (_ < _))
  | some _ => inferInstanceAs (Decidable (_ ∨ _ ∨ _))

/-- Each result is compared with the one that is held then. -/
inductive Succession (sector : Sector) : List Trial → Option Trial → Prop
  | block : Succession sector [] none
  | taken {trials : List Trial} {held : Option Trial} {trial : Trial} :
      Succession sector trials held → sector.Beats held trial →
        Succession sector (trials ++ [trial]) (some trial)
  | refused {trials : List Trial} {held : Option Trial} {trial : Trial} :
      Succession sector trials held → ¬ sector.Beats held trial →
        Succession sector (trials ++ [trial]) held

/-- A cost that acts as minus eight bytes. -/
def wrappingCost : Sector :=
  { (create 0).setup sectorSize 1 0 (2 ^ 32 - 8) with bestSize := sectorSize }

/-- Each of three results can be preferred to another one of them. -/
example :
    wrappingCost.Beats (some (deflated 12)) (deflated 6) ∧
      wrappingCost.Beats (some (deflated 6)) ⟨List.replicate 7 0, .lz4⟩ ∧
      wrappingCost.Beats (some ⟨List.replicate 7 0, .lz4⟩) (deflated 12) := by
  decide

/-- The cost can be added to the deflate sizes, and the padding to all sizes,
in 32 bits. -/
def Unwrapped (sector : Sector) (align : Nat) (trials : List Trial) : Prop :=
  ∀ trial ∈ trials, trial.data.length + align ≤ 2 ^ 32 ∧
    (trial.format = .deflate →
      trial.data.length + sector.lz4MaxCost < 2 ^ 32)

/-- An lz4 result helps as well, or those that count are too large to be taken
over the deflate results. -/
def Spared (sector : Sector) (align : Nat) (trials : List Trial) : Prop :=
  (∃ trial ∈ trials, trial.format = .lz4 ∧
      sector.AlignedBelow align trial) ∨
    ∀ size, Considered sector.blockSize trials size →
      ∃ other, Helps sector.blockSize trials other ∧
        other + sector.lz4MaxCost < size

/-- No lz4 result spoils the deflate results.  When a sum wraps around, a
deflate result can lose to a larger lz4 result that loses to an even larger
deflate result, so that the order of the results decides which of them is
held in the end. -/
def Unspoiled (sector : Sector) (align : Nat) (trials : List Trial) : Prop :=
  (∀ trial ∈ trials, ¬ sector.AlignedBelow align trial) ∨
    (sector.Unwrapped align trials ∧ sector.Spared align trials) ∨
    (¬ sector.Unwrapped align trials ∧
      ∃ trial, sector.Succession trials (some trial) ∧
        sector.AlignedBelow align trial)

section

variable {sector : Sector} {align : Nat} {trials : List Trial}

theorem alignedBelow_iff
    (positive : 0 < align) {trial : Trial}
    (fits : trial.data.length + align ≤ 2 ^ 32) :
    sector.AlignedBelow align trial ↔
      RoundUp.roundUp align trial.data.length < sector.blockSize := by
  have aligned := @alignedBestSize_eq
    { sector with bestSize := trial.data.length } align positive fits
  rw [AlignedBelow, aligned]

/-- What `FinalizeBest` makes of what is kept. -/
theorem finalize_keeping
    (notDax : hasFlag sector.flags taskflagFmtDax = false) (trial : Trial) :
    sector.finalize (keeping trial) align =
      if sector.AlignedBelow align trial then keeping trial
      else sector.raw := by
  have reverts : (sector.blockSize ≤ ({ sector with
        bestSize := (keeping trial).size }).alignedBestSize align ∧
      ¬ hasFlag sector.flags taskflagFmtDax) ↔
        ¬ sector.AlignedBelow align trial := by
    rw [notDax]
    exact (and_iff_left Bool.false_ne_true).trans Nat.not_lt.symm
  by_cases below : sector.AlignedBelow align trial
  · exact (if_neg (reverts.not.mpr (not_not.mpr below))).trans
      (if_pos below).symm
  · exact (if_pos (reverts.mpr below)).trans (if_neg below).symm

theorem finalized_eq (fresh : sector.Fresh) (heap : Nat → Nat → UInt8)
    (pool : BufferPool) :
    let compressed := sector.compressWith heap pool trials
    (compressed.1.finalizeBest compressed.2 align).1.bestSoFar =
      sector.finalize (trials.foldl sector.submit sector.raw) align := by
  intro compressed
  have same := (compressWith_best heap sector pool trials).2.1.setup
  rw [(finalizeBest_best _ _ _).1, same.finalize]
  exact congrArg (sector.finalize · align) (kept_eq fresh heap pool trials)

/-- A result that helps is kept exactly when what was best before helps. -/
theorem rawOnly_iff
    (notDax : hasFlag sector.flags taskflagFmtDax = false) :
    let best := trials.foldl sector.submit sector.raw
    RawOnlyWhenNothingHelps sector align trials
        (sector.finalize best align) ↔
      (∀ trial ∈ trials, ¬ sector.AlignedBelow align trial) ∨
        ∃ trial ∈ trials, best = keeping trial ∧
          sector.AlignedBelow align trial := by
  intro best
  have injective : ∀ {trial other : Trial},
      keeping trial = keeping other → sector.AlignedBelow align trial →
        sector.AlignedBelow align other := by
    intro trial other same below
    have size : trial.data.length = other.data.length :=
      congrArg Best.size same
    unfold AlignedBelow at below ⊢
    rw [← size]
    exact below
  unfold RawOnlyWhenNothingHelps
  by_cases none : ∀ trial ∈ trials, ¬ sector.AlignedBelow align trial
  · rw [if_pos none]
    apply iff_of_true _ (Or.inl none)
    rcases foldl_submit_cases sector trials sector.raw with
      kept | ⟨trial, member, kept⟩
    · exact congrArg (sector.finalize · align) kept
    · have kept : best = keeping trial := kept
      rw [kept, finalize_keeping notDax, if_neg (none trial member)]
  · rw [if_neg none, or_iff_right none]
    apply exists_congr
    intro trial
    apply and_congr_right
    intro member
    rcases foldl_submit_cases sector trials sector.raw with
      kept | ⟨winner, _, kept⟩
    · have kept : best = sector.raw := kept
      rw [kept]
      exact Iff.rfl
    · have kept : best = keeping winner := kept
      rw [kept, finalize_keeping notDax]
      by_cases below : sector.AlignedBelow align winner
      · rw [if_pos below]
      · rw [if_neg below]
        apply iff_of_false
        · intro kept
          cases congrArg Best.data kept.1
        · intro kept
          exact below (injective kept.1.symm kept.2)

/-! ### When a sum wraps around -/

/-- `SubmitTrial` takes the results that are preferred. -/
theorem submit_beats
    (notDax : hasFlag sector.flags taskflagFmtDax = false)
    (free : sector.origMaxCost = 0) {held : Option Trial}
    (compressed : ∀ trial ∈ held, trial.format ≠ .orig) {trial : Trial}
    (compressed' : trial.format ≠ .orig)
    (word : trial.data.length < 2 ^ 32) :
    sector.submit (held.elim sector.raw keeping) trial =
      if sector.Beats held trial then keeping trial
      else held.elim sector.raw keeping := by
  have whole := Nat.mod_eq_of_lt word
  rw [submit_eq]
  congr 1
  rw [eq_iff_iff]
  cases held with
  | none =>
      cases format : trial.format <;>
        simp only [Option.elim_none, better, Beats, raw, notDax, free,
          Nat.add_zero, whole, Bool.or_false, decide_eq_true_eq]
  | some held =>
      have kind := compressed held rfl
      cases format : trial.format with
      | orig => exact absurd format compressed'
      | deflate =>
          cases format' : held.format with
          | orig => exact absurd format' kind
          | deflate =>
              simp [-Nat.reducePow, better, Beats, keeping, free, whole,
                format, format']
          | lz4 => simp [better, Beats, keeping, format, format']
      | lz4 =>
          cases format' : held.format with
          | orig => exact absurd format' kind
          | deflate => simp [better, Beats, keeping, format, format']
          | lz4 =>
              simp [-Nat.reducePow, better, Beats, keeping, free, whole,
                format, format']

theorem Succession.foldl_submit
    (notDax : hasFlag sector.flags taskflagFmtDax = false)
    (free : sector.origMaxCost = 0)
    (compressed : ∀ trial ∈ trials, trial.format ≠ .orig)
    (words : ∀ trial ∈ trials, trial.data.length < 2 ^ 32)
    {held : Option Trial} (succession : sector.Succession trials held) :
    (∀ trial ∈ held, trial ∈ trials) ∧
      trials.foldl sector.submit sector.raw =
        held.elim sector.raw keeping := by
  induction succession with
  | block =>
      refine ⟨?_, rfl⟩
      intro _ member
      cases member
  | @taken seen held trial _ beats inductionHypothesis =>
      have last : trial ∈ seen ++ [trial] :=
        List.mem_append_right _ List.mem_cons_self
      obtain ⟨among, same⟩ := inductionHypothesis
        (fun other member => compressed other (List.mem_append_left _ member))
        (fun other member => words other (List.mem_append_left _ member))
      refine ⟨?_, ?_⟩
      · intro other member
        cases member
        exact last
      · rw [List.foldl_append, same, List.foldl_cons, List.foldl_nil,
          submit_beats notDax free _ (compressed trial last)
            (words trial last), if_pos beats]
        · rfl
        · intro other member
          exact compressed other (List.mem_append_left _ (among other member))
  | @refused seen held trial _ beats inductionHypothesis =>
      have last : trial ∈ seen ++ [trial] :=
        List.mem_append_right _ List.mem_cons_self
      obtain ⟨among, same⟩ := inductionHypothesis
        (fun other member => compressed other (List.mem_append_left _ member))
        (fun other member => words other (List.mem_append_left _ member))
      refine ⟨?_, ?_⟩
      · intro other member
        exact List.mem_append_left _ (among other member)
      · rw [List.foldl_append, same, List.foldl_cons, List.foldl_nil,
          submit_beats notDax free _ (compressed trial last)
            (words trial last), if_neg beats]
        intro other member
        exact compressed other (List.mem_append_left _ (among other member))

theorem exists_succession (sector : Sector) (trials : List Trial) :
    ∃ held, sector.Succession trials held := by
  induction trials using List.reverseRecOn with
  | nil => exact ⟨none, .block⟩
  | append_singleton seen trial inductionHypothesis =>
      obtain ⟨held, succession⟩ := inductionHypothesis
      by_cases beats : sector.Beats held trial
      · exact ⟨some trial, succession.taken beats⟩
      · exact ⟨held, succession.refused beats⟩

/-- The result that is held in the end is the one that is kept. -/
theorem keeping_iff_succession
    (notDax : hasFlag sector.flags taskflagFmtDax = false)
    (free : sector.origMaxCost = 0)
    (compressed : ∀ trial ∈ trials, trial.format ≠ .orig)
    (words : ∀ trial ∈ trials, trial.data.length < 2 ^ 32) :
    (∃ trial ∈ trials,
        trials.foldl sector.submit sector.raw = keeping trial ∧
          sector.AlignedBelow align trial) ↔
      ∃ trial, sector.Succession trials (some trial) ∧
        sector.AlignedBelow align trial := by
  constructor
  · rintro ⟨trial, member, kept, below⟩
    obtain ⟨held, succession⟩ := exists_succession sector trials
    obtain ⟨_, same⟩ :=
      succession.foldl_submit notDax free compressed words
    rw [kept] at same
    cases held with
    | none => cases congrArg Best.data same
    | some held =>
        have size : trial.data.length = held.data.length :=
          congrArg Best.size same
        refine ⟨held, succession, ?_⟩
        unfold AlignedBelow at below ⊢
        rw [← size]
        exact below
  · rintro ⟨trial, succession, below⟩
    obtain ⟨among, same⟩ :=
      succession.foldl_submit notDax free compressed words
    exact ⟨trial, among trial rfl, same, below⟩

/-! ### When no sum wraps around -/

theorem AlignedBelow.small
    (positive : 0 < align) {trial : Trial}
    (fits : trial.data.length + align ≤ 2 ^ 32)
    (below : sector.AlignedBelow align trial) :
    trial.data.length < sector.blockSize :=
  (RoundUp.le_roundUp _ _).trans_lt
    ((alignedBelow_iff positive fits).mp below)

/-- The least sizes belong to results. -/
theorem trial_of_considered {size : Nat}
    (considered : Considered sector.blockSize trials size) :
    ∃ trial ∈ trials, trial.format = .lz4 ∧ trial.data.length = size := by
  obtain ⟨earlier, trial, later, rfl, format, length, _⟩ := considered
  exact ⟨trial, by simp, format, length⟩

theorem considered_of_small {trial : Trial} (member : trial ∈ trials)
    (format : trial.format = .lz4)
    (small : trial.data.length < sector.blockSize) :
    Considered sector.blockSize trials trial.data.length := by
  obtain ⟨earlier, later, rfl⟩ := List.append_of_mem member
  exact ⟨earlier, trial, later, rfl, format, rfl, Or.inl small⟩

/-- The winner helps when some result does, unless an lz4 result that does not
help is taken over the deflate results. -/
theorem winner_helps_iff
    (compressed : ∀ trial ∈ trials, trial.format ≠ .orig)
    (positive : 0 < align)
    (fits : ∀ trial ∈ trials, trial.data.length + align ≤ 2 ^ 32)
    {trial : Trial} (member : trial ∈ trials)
    (below : sector.AlignedBelow align trial) :
    let winner := (standing sector.blockSize trials).winner sector.blockSize
      sector.lz4MaxCost
    winner.1 ≠ .orig ∧ RoundUp.roundUp align winner.2 < sector.blockSize ↔
      sector.Spared align trials := by
  intro winner
  unfold Spared
  obtain ⟨deflate, lz4⟩ := @standing_least sector.blockSize trials
  have padded : ∀ {other : Trial}, other ∈ trials →
      (sector.AlignedBelow align other ↔
        RoundUp.roundUp align other.data.length < sector.blockSize) :=
    fun inside => alignedBelow_iff positive (fits _ inside)
  have aligned : ∀ {size : Nat}, size ≤ trial.data.length →
      RoundUp.roundUp align size < sector.blockSize :=
    fun le => (RoundUp.roundUp_mono positive le).trans_lt
      ((padded member).mp below)
  have small := below.small positive (fits trial member)
  have helps : trial.format = .deflate →
      Helps sector.blockSize trials trial.data.length :=
    fun format => ⟨small, trial, member, format, rfl⟩
  have considered : ∀ {other : Trial}, other ∈ trials →
      other.format = .lz4 → sector.AlignedBelow align other →
        Considered sector.blockSize trials other.data.length :=
    fun inside format below => considered_of_small inside format
      (below.small positive (fits _ inside))
  have kinds : trial.format = .deflate ∨ trial.format = .lz4 := by
    cases format : trial.format with
    | orig => exact absurd format (compressed trial member)
    | deflate => exact Or.inl rfl
    | lz4 => exact Or.inr rfl
  unfold winner Standing.winner
  cases least : (standing sector.blockSize trials).deflate with
  | none =>
      rw [least] at deflate
      have format : trial.format = .lz4 :=
        kinds.resolve_left fun format => deflate _ (helps format)
      cases least' : (standing sector.blockSize trials).lz4 with
      | none =>
          rw [least'] at lz4
          exact absurd (considered member format below) (lz4 _)
      | some size =>
          rw [least'] at lz4
          have le := lz4.2 _ (considered member format below)
          exact iff_of_true ⟨nofun, aligned le⟩
            (Or.inl ⟨trial, member, format, below⟩)
  | some size =>
      rw [least] at deflate
      cases least' : (standing sector.blockSize trials).lz4 with
      | none =>
          rw [least'] at lz4
          have format : trial.format = .deflate :=
            kinds.resolve_right fun format =>
              lz4 _ (considered member format below)
          have le := deflate.2 _ (helps format)
          exact iff_of_true ⟨nofun, aligned le⟩
            (Or.inr fun other inside => absurd inside (lz4 other))
      | some size' =>
          rw [least'] at lz4
          by_cases within : size' ≤ size + sector.lz4MaxCost
          · -- The lz4 result is taken, so it has to help itself.
            simp only [if_pos within]
            constructor
            · rintro ⟨_, small⟩
              obtain ⟨kept, inside, format, rfl⟩ :=
                trial_of_considered lz4.1
              exact Or.inl ⟨kept, inside, format, (padded inside).mpr small⟩
            · rintro (⟨other, inside, format, helper⟩ | spared)
              · have le := lz4.2 _ (considered inside format helper)
                exact ⟨nofun, (RoundUp.roundUp_mono positive le).trans_lt
                  ((padded inside).mp helper)⟩
              · obtain ⟨other, helper, less⟩ := spared size' lz4.1
                have le := deflate.2 other helper
                omega
          · simp only [if_neg within]
            refine iff_of_true ⟨nofun, aligned ?_⟩ (Or.inr ?_)
            · rcases kinds with format | format
              · exact deflate.2 _ (helps format)
              · have le := lz4.2 _ (considered member format below)
                omega
            · intro other inside
              have le := lz4.2 other inside
              exact ⟨size, deflate.1, by omega⟩

/-- The result that is kept helps exactly when the winner does. -/
theorem keeping_iff_winner
    (notDax : hasFlag sector.flags taskflagFmtDax = false)
    (free : sector.origMaxCost = 0)
    (compressed : ∀ trial ∈ trials, trial.format ≠ .orig)
    (positive : 0 < align)
    (words : ∀ trial ∈ trials, trial.data.length < 2 ^ 32)
    (unwrapped : sector.Unwrapped align trials) :
    let winner := (standing sector.blockSize trials).winner sector.blockSize
      sector.lz4MaxCost
    (∃ trial ∈ trials,
        trials.foldl sector.submit sector.raw = keeping trial ∧
          sector.AlignedBelow align trial) ↔
      winner.1 ≠ .orig ∧
        RoundUp.roundUp align winner.2 < sector.blockSize := by
  intro winner
  have same := (foldl_submit_standing notDax free compressed words
    fun trial member => (unwrapped trial member).2).2
  have format : _ = winner.1 := congrArg Prod.fst same
  have size : _ = winner.2 := congrArg Prod.snd same
  dsimp only at format size
  rw [← format, ← size]
  constructor
  · rintro ⟨trial, member, kept, below⟩
    rw [kept]
    exact ⟨compressed trial member, (alignedBelow_iff positive
      (unwrapped trial member).1).mp below⟩
  · rintro ⟨chosen, below⟩
    rcases foldl_submit_cases sector trials sector.raw with
      kept | ⟨trial, member, kept⟩
    · rw [kept] at chosen
      exact absurd rfl chosen
    · rw [kept] at below
      exact ⟨trial, member, kept, (alignedBelow_iff positive
        (unwrapped trial member).1).mpr below⟩

/-- The block is raw only when nothing helps exactly when no lz4 result spoils
the deflate results. -/
theorem raw_only_when_nothing_helps
    (fresh : sector.Fresh)
    (notDax : hasFlag sector.flags taskflagFmtDax = false)
    (free : sector.origMaxCost = 0)
    (compressed : ∀ trial ∈ trials, trial.format ≠ .orig)
    (words : ∀ trial ∈ trials, trial.data.length < 2 ^ 32)
    (positive : 0 < align)
    (heap : Nat → Nat → UInt8) (pool : BufferPool) :
    let compressed := sector.compressWith heap pool trials
    RawOnlyWhenNothingHelps sector align trials
        (compressed.1.finalizeBest compressed.2 align).1.bestSoFar ↔
      Unspoiled sector align trials := by
  intro compression
  have decided := @rawOnly_iff sector align trials notDax
  have finalized := @finalized_eq sector align trials fresh heap pool
  dsimp only at decided finalized
  rw [finalized, decided]
  unfold Unspoiled
  by_cases none : ∀ trial ∈ trials, ¬ sector.AlignedBelow align trial
  · exact iff_of_true (Or.inl none) (Or.inl none)
  · apply or_congr_right
    by_cases unwrapped : sector.Unwrapped align trials
    · have some_ := none
      simp only [not_forall, not_not] at some_
      obtain ⟨trial, member, below⟩ := some_
      have wins := keeping_iff_winner notDax free compressed positive words
        unwrapped
      have helps := winner_helps_iff compressed positive
        (fun other inside => (unwrapped other inside).1) member below
      dsimp only at wins helps
      rw [wins, helps]
      simp only [unwrapped, true_and, not_true_eq_false, false_and, or_false]
    · rw [keeping_iff_succession notDax free compressed words]
      simp only [unwrapped, false_and, not_false_eq_true, true_and, false_or]

/-- An lz4 result that is not smaller than the block is taken over a deflate
result that is. -/
theorem spoiled
    (notDax : hasFlag sector.flags taskflagFmtDax = false)
    (free : sector.origMaxCost = 0) {deflate lz4 : Trial}
    (format : deflate.format = .deflate) (format' : lz4.format = .lz4)
    (below : deflate.data.length < sector.blockSize)
    (large : sector.blockSize ≤ lz4.data.length)
    (near : lz4.data.length ≤ deflate.data.length + sector.lz4MaxCost)
    (fits : lz4.data.length + sector.lz4MaxCost < 2 ^ 32) :
    sector.finalize ([deflate, lz4].foldl sector.submit sector.raw) 1 =
      sector.raw := by
  have first : sector.submit sector.raw deflate = keeping deflate := by
    have none : sector.raw.format ≠ .deflate := nofun
    rw [submit_free notDax free (by omega) (fun _ => by omega)
      fun same => absurd same none, format]
    exact if_pos below
  have second : sector.submit (keeping deflate) lz4 = keeping lz4 := by
    have room : deflate.data.length + sector.lz4MaxCost < 2 ^ 32 := by omega
    rw [submit_free notDax free (by omega) (fun _ => fits) fun _ => room,
      format']
    refine if_pos ?_
    unfold limit
    rw [show (keeping deflate).format = .deflate from format]
    exact Nat.lt_succ_of_le near
  rw [List.foldl_cons, first, List.foldl_cons, second, List.foldl_nil,
    finalize_keeping notDax, if_neg]
  rw [alignedBelow_iff Nat.one_pos (by omega)]
  exact Nat.not_lt.mpr (large.trans (RoundUp.le_roundUp _ _))

end

theorem length_deflated (length : Nat) :
    (deflated length).data.length = length :=
  List.length_replicate

/-- A block for which lz4 may cost five per cent more. -/
def fivePercentCost : Sector :=
  { (create 0).setup sectorSize 1 0 102 with bestSize := sectorSize }

theorem raw_only_when_nothing_helps_samples :
    let trials : List Trial := [deflated 12, ⟨List.replicate 22 0, .lz4⟩]
    let compressed := tenByteCost.compressWith (fun _ _ => 0) .initial trials
    let wrapped := wrappingCost.compressWith (fun _ _ => 0) .initial trials
    RawOnlyWhenNothingHelps tenByteCost 4 trials
        (compressed.1.finalizeBest compressed.2 4).1.bestSoFar ∧
      RawOnlyWhenNothingHelps wrappingCost 4 trials
        (wrapped.1.finalizeBest wrapped.2 4).1.bestSoFar := by
  intro trials compressed wrapped
  constructor
  · apply (@raw_only_when_nothing_helps tenByteCost 4 trials rfl rfl rfl
      (by decide) (by decide) (by decide) (fun _ _ => 0) .initial).mpr
    exact Or.inr (Or.inl ⟨by unfold Unwrapped; decide, Or.inl (by decide)⟩)
  · apply (@raw_only_when_nothing_helps wrappingCost 4 trials rfl rfl rfl
      (by decide) (by decide) (by decide) (fun _ _ => 0) .initial).mpr
    -- The lz4 result may have four bytes at most.
    have held : wrappingCost.Succession trials (some (deflated 12)) :=
      (Succession.block.taken (by decide)).refused (by decide)
    exact Or.inr (Or.inr
      ⟨by unfold Unwrapped; decide, deflated 12, held, by decide⟩)

/-- The block is stored although the deflate result helps. -/
theorem raw_although_deflate_helps :
    ¬ ∀ (sector : Sector) (align : Nat) (trials : List Trial), sector.Fresh →
      hasFlag sector.flags taskflagFmtDax = false →
        sector.origMaxCost = 0 →
          (∀ trial ∈ trials, trial.format ≠ .orig) →
            (∃ power ≤ 11, align = 2 ^ power) →
              (∀ trial ∈ trials,
                trial.data.length + sector.lz4MaxCost < 2 ^ 32) →
                ∀ (heap : Nat → Nat → UInt8) (pool : BufferPool),
                  let compressed := sector.compressWith heap pool trials
                  RawOnlyWhenNothingHelps sector align trials
                    (compressed.1.finalizeBest compressed.2
                      align).1.bestSoFar := by
  intro law
  obtain ⟨deflate, format, length⟩ :
      ∃ trial : Trial, trial.format = .deflate ∧ trial.data.length = 2000 :=
    ⟨deflated 2000, rfl, length_deflated 2000⟩
  obtain ⟨lz4, format', length'⟩ :
      ∃ trial : Trial, trial.format = .lz4 ∧ trial.data.length = 2060 :=
    ⟨⟨(deflated 2060).data, .lz4⟩, rfl, length_deflated 2060⟩
  have fits : ∀ trial ∈ [deflate, lz4],
      trial.data.length + fivePercentCost.lz4MaxCost < 2 ^ 32 := by
    intro trial member
    rcases List.mem_pair.mp member with rfl | rfl
    · rw [length]
      decide
    · rw [length']
      decide
  have compressed : ∀ trial ∈ [deflate, lz4], trial.format ≠ .orig := by
    intro trial member
    rcases List.mem_pair.mp member with rfl | rfl
    · rw [format]
      exact nofun
    · rw [format']
      exact nofun
  have kept := law fivePercentCost 1 _ rfl rfl rfl compressed
    ⟨0, by decide, rfl⟩ fits (fun _ _ => 0) .initial
  have finalized := @finalized_eq fivePercentCost 1 [deflate, lz4] rfl
    (fun _ _ => 0) .initial
  have raw := @spoiled fivePercentCost rfl rfl deflate lz4 format format'
    (by rw [length]; decide) (by rw [length']; decide)
    (by rw [length, length']; decide) (by rw [length']; decide)
  dsimp only at kept finalized
  rw [finalized, raw, RawOnlyWhenNothingHelps, if_neg] at kept
  · obtain ⟨trial, _, same, _⟩ := kept
    exact nomatch congrArg Best.data same
  · intro none
    refine none deflate List.mem_cons_self ?_
    rw [AlignedBelow, length]
    decide

end Sector

end Maxcso
