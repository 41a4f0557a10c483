import Mathlib.Algebra.BigOperators.Group.List.Basic
import Maxcso.Input
import Maxcso.Sector.Lending

/-!
# The buffers of the reader

A request that is outstanding, or a call that is still to be made, holds the
buffers that are passed along with it.  Every function of the reader leaves
each buffer that it takes or is given with one of them, or releases it; only a
block that ends at or before the wanted sector is forgotten.
-/

namespace Maxcso

def InputRequest.held : InputRequest → Multiset Nat
  | .readHeader headerBuf => {headerBuf.address}
  | .decompress actualBuf .. => {actualBuf.address}
  | _ => 0

/-- The last sector of a block is passed on in the buffer of the block. -/
def InputCall.held : InputCall → Multiset Nat
  | .callback _ sector _ => {sector.address}
  | .subBlock block =>
      if block.suboffset < block.resultSize then {block.actualBuf.address}
      else 0
  | .subDelivered block =>
      if block.last then 0 else {block.actualBuf.address}
  | _ => 0

/-- The buffers of the requests that are outstanding. -/
def Input.waiting (input : Input) : Multiset Nat :=
  (input.inFlight.map InputRequest.held).sum

/-- The buffers of the calls that are still to be made. -/
def heldBy (calls : List InputCall) : Multiset Nat :=
  (calls.map InputCall.held).sum

def InputResult.held (result : InputResult) : Multiset Nat :=
  result.input.waiting + heldBy result.calls

theorem InputResult.held_eq {input : Input} {pool : BufferPool}
    {calls : List InputCall} {waiting held : Multiset Nat}
    (same : input.waiting = waiting) (same' : heldBy calls = held) :
    InputResult.held ⟨input, pool, calls⟩ = waiting + held := by
  rw [InputResult.held, same, same']

theorem heldBy_cons (call : InputCall) (calls : List InputCall) :
    heldBy (call :: calls) = call.held + heldBy calls := by
  rw [heldBy, List.map_cons, List.sum_cons]
  rfl

@[simp]
theorem heldBy_nil : heldBy [] = 0 := rfl

namespace Input

section

variable {env : Environment} {input : Input} {pool : BufferPool}

@[simp]
theorem waiting_ask (request : InputRequest) :
    (input.ask request).waiting = input.waiting + request.held := by
  simp [waiting, ask]

/-- The request that is completed has its buffers no more. -/
theorem waiting_eraseIdx {position : Nat} {request : InputRequest}
    (found : input.inFlight[position]? = some request) :
    input.waiting =
      waiting { input with
        inFlight := input.inFlight.eraseIdx position } + request.held := by
  obtain ⟨inside, same⟩ := List.getElem?_eq_some_iff.mp found
  have moved := (List.getElem_cons_eraseIdx_perm inside).map
    InputRequest.held
  rw [same] at moved
  have total := moved.sum_eq
  rw [List.map_cons, List.sum_cons] at total
  rw [waiting, ← total, add_comm]
  rfl

/-! ## Reading sectors -/

theorem exchange_useData (request : Request) (data : Bytes) :
    Exchange pool.Lends input.waiting
      (input.useData env pool request data).pool.Lends
      (input.useData env pool request data).held := by
  have taken := (@BufferPool.exchange_alloc pool env.heap).frame_left
    input.waiting
  rw [add_zero] at taken
  unfold useData
  dsimp only
  split
  · exact taken.keeping (InputResult.held_eq rfl (add_zero _))
  · exact (taken.keeping (waiting_ask _)).keeping (add_zero _)

theorem exchange_readSector (env : Environment) (input : Input)
    (pool : BufferPool) :
    Exchange pool.Lends input.waiting
      (input.readSector env pool).pool.Lends
      (input.readSector env pool).held := by
  have idle : ∀ (other : Input) (calls : List InputCall),
      other.waiting = input.waiting → heldBy calls = 0 →
      Exchange pool.Lends input.waiting pool.Lends
        (InputResult.held ⟨other, pool, calls⟩) := by
    intro other calls waiting none
    exact (Exchange.refl _ _).keeping
      ((InputResult.held_eq waiting none).trans (add_zero _))
  have fetched : Exchange pool.Lends input.waiting
      (input.fetch fetchCached env pool input.request).pool.Lends
      (input.fetch fetchCached env pool input.request).held := by
    unfold fetch
    cases fetchCached input input.request with
    | use data => exact exchange_useData _ _
    | read cachePos size =>
        exact idle _ [] ((waiting_ask _).trans (add_zero _)) rfl
  unfold readSector readSectorWith
  split
  · exact idle _ _ rfl rfl
  · split
    · exact idle _ [] rfl rfl
    · dsimp only
      split
      · refine fetched.keeping ?_
        rw [InputResult.held, heldBy_cons,
          show (InputCall.finish false "Unexpected input file type").held = 0
            from rfl, zero_add]
        rfl
      · exact fetched

theorem exchange_rawDelivered :
    Exchange pool.Lends input.waiting (input.rawDelivered pool).pool.Lends
      (input.rawDelivered pool).held := by
  have same : (input.rawDelivered pool).held = input.waiting :=
    add_zero _
  rw [same]
  exact Exchange.refl _ _

/-! ## Passing on a block -/

theorem exchange_subBlock (block : SubBlock) :
    Exchange pool.Lends (input.waiting + (InputCall.subBlock block).held)
      (input.subBlock env pool block).pool.Lends
      (input.subBlock env pool block).held := by
  unfold subBlock
  by_cases inside : block.suboffset < block.resultSize
  · rw [InputCall.held, if_pos inside, if_pos inside]
    dsimp only
    cases last : block.last with
    | true =>
        rw [if_pos rfl]
        refine (Exchange.refl _ _).keeping (InputResult.held_eq rfl ?_)
        rw [heldBy_cons, heldBy_cons, InputCall.held, InputCall.held, last,
          if_pos rfl]
        rfl
    | false =>
        have taken := (@BufferPool.exchange_alloc pool env.heap).frame_left
          (input.waiting + {block.actualBuf.address})
        rw [if_neg Bool.false_ne_true]
        rw [add_zero, add_assoc,
          add_comm ({block.actualBuf.address} : Multiset Nat)] at taken
        refine taken.keeping (InputResult.held_eq rfl ?_)
        rw [heldBy_cons, heldBy_cons, InputCall.held, InputCall.held, last,
          if_neg Bool.false_ne_true]
        rfl
  · rw [InputCall.held, if_neg inside, if_neg inside]
    exact Exchange.refl _ _

theorem exchange_subDelivered (block : SubBlock) :
    Exchange pool.Lends (input.waiting + (InputCall.subDelivered block).held)
      (input.subDelivered pool block).pool.Lends
      (input.subDelivered pool block).held := by
  unfold subDelivered
  dsimp only
  split
  · rename_i early
    have released := (@BufferPool.exchange_release pool
      block.actualBuf).frame_left input.waiting
    rw [InputCall.held, if_neg early.2]
    exact released
  · have same : (InputCall.subDelivered block).held =
        (InputCall.subBlock
          { block with
            suboffset := block.suboffset + sectorSize }).held := by
      rw [InputCall.held, InputCall.held]
      unfold SubBlock.last
      by_cases final : block.resultSize ≤ block.suboffset + sectorSize
      · rw [decide_eq_true final, if_pos rfl, if_neg (Nat.not_lt.mpr final)]
      · rw [decide_eq_false final, if_neg Bool.false_ne_true,
          if_pos (Nat.lt_of_not_le final)]
    rw [same]
    exact (Exchange.refl _ _).keeping (InputResult.held_eq rfl (add_zero _))

/-! ## Completions -/

theorem exchange_growPool (blockSize : Nat) (held : Multiset Nat) :
    Exchange pool.Lends held (growPool pool blockSize).1.Lends held := by
  intro others lends
  unfold growPool
  split
  · exact (lends.resize _).1
  · exact lends

theorem exchange_onHeaderRead (headerBuf : Buffer) (result : Option Bytes) :
    Exchange pool.Lends (input.waiting + {headerBuf.address})
      (input.onHeaderRead pool headerBuf result).pool.Lends
      (input.onHeaderRead pool headerBuf result).held := by
  have released := (@BufferPool.exchange_release pool headerBuf).frame_left
    input.waiting
  have filled (bytes : Bytes) :=
    (@BufferPool.exchange_release pool (headerBuf.filled bytes)).frame_left
      input.waiting
  have idle : ∀ (other : Input) (after : BufferPool)
      (calls : List InputCall), other.waiting = input.waiting →
      heldBy calls = 0 →
      Exchange pool.Lends (input.waiting + {headerBuf.address}) after.Lends
        (input.waiting + 0) →
      Exchange pool.Lends (input.waiting + {headerBuf.address}) after.Lends
        (InputResult.held ⟨other, after, calls⟩) := by
    intro other after calls waiting none exchange
    exact exchange.keeping (InputResult.held_eq waiting none)
  have asked : ∀ (other : Input) (request : InputRequest),
      other.waiting = input.waiting → request.held = 0 →
      (other.ask request).waiting = input.waiting := by
    intro other request waiting none
    rw [waiting_ask, waiting, none, add_zero]
  unfold onHeaderRead
  cases result with
  | none => exact idle _ _ _ rfl rfl released
  | some bytes =>
      dsimp only
      split
      · exact idle _ _ _ rfl rfl (filled bytes)
      · split
        · unfold detectCso
          cases csoRejection (CsoHeader.decode bytes) with
          | some reason => exact idle _ _ _ rfl rfl (filled bytes)
          | none =>
              have grown := (filled bytes).trans (exchange_growPool
                (CsoHeader.decode bytes).sectorSize (input.waiting + 0))
              dsimp only
              split
              · exact idle _ _ _ (asked _ _ rfl rfl) rfl grown
              · exact idle _ _ _ rfl rfl grown
        · split
          · unfold detectDax
            cases daxRejection (DaxHeader.decode bytes) with
            | some reason => exact idle _ _ _ rfl rfl (filled bytes)
            | none => exact idle _ _ _ (asked _ _ rfl rfl) rfl (filled bytes)
          · exact idle _ _ _ (asked _ _ rfl rfl) rfl (filled bytes)

/-- A block that ends at or before the sector that is wanted. -/
def Forgets (env : Environment) (input : Input) (pool : BufferPool) :
    InputRequest → Prop
  | .decompress _ source offset isLz4 => ∃ data,
      input.decompressWork env pool source isLz4 = .ok data ∧
        input.rejection env data = none ∧
          input.trimmedSize offset data.length ≤ offset
  | _ => False

theorem exchange_onDecompressed (actualBuf : Buffer) (source : Bytes)
    (offset : Nat) (isLz4 : Bool) :
    let result := input.onDecompressed env pool actualBuf offset
      (input.decompressWork env pool source isLz4)
    ∃ lost, Exchange pool.Lends (input.waiting + {actualBuf.address})
        result.pool.Lends (result.held + lost) ∧
      (lost = 0 ∨
        Forgets env input pool (.decompress actualBuf source offset isLz4)) := by
  have released : ∀ (other : Input) (reason : String),
      other.waiting = input.waiting →
      Exchange pool.Lends (input.waiting + {actualBuf.address})
        (pool.release actualBuf).Lends
        (InputResult.held ⟨other, pool.release actualBuf,
          [.finish false reason]⟩) := by
    intro other reason waiting
    exact ((@BufferPool.exchange_release pool actualBuf).frame_left
      input.waiting).keeping (InputResult.held_eq waiting rfl)
  unfold onDecompressed
  dsimp only
  cases worked : input.decompressWork env pool source isLz4 with
  | error message => exact (released _ _ rfl).lossless
  | ok data =>
      dsimp only
      cases accepted : input.rejection env data with
      | some reason => exact (released _ _ rfl).lossless
      | none =>
          dsimp only
          by_cases inside : offset < input.trimmedSize offset data.length
          · apply Exchange.lossless
            refine (Exchange.refl _ _).keeping (InputResult.held_eq rfl ?_)
            rw [heldBy_cons, InputCall.held, if_pos inside]
            exact add_zero _
          · refine ⟨{actualBuf.address}, ?_, Or.inr ⟨data, worked, accepted,
              Nat.le_of_not_lt inside⟩⟩
            refine (Exchange.refl _ _).keeping ?_
            rw [InputResult.held, heldBy_cons, InputCall.held,
              if_neg inside]
            exact congrArg (· + _) (add_zero _)

/-- The callback of a request that has been taken off the list. -/
theorem exchange_complete (request : InputRequest) :
    let result := input.complete env pool request
    ∃ lost, Exchange pool.Lends (input.waiting + request.held)
        result.pool.Lends (result.held + lost) ∧
      (lost = 0 ∨ Forgets env input pool request) := by
  have idle : ∀ (other : Input) (calls : List InputCall),
      other.waiting = input.waiting → heldBy calls = 0 →
      Exchange pool.Lends (input.waiting + 0) pool.Lends
        (InputResult.held ⟨other, pool, calls⟩) := by
    intro other calls waiting none
    exact (Exchange.refl _ _).keeping (InputResult.held_eq waiting none)
  cases request with
  | readHeader headerBuf =>
      exact (@exchange_onHeaderRead { input with reads := input.reads + 1 }
        pool headerBuf _).lossless
  | readIndex bytes =>
      apply Exchange.lossless
      unfold complete
      dsimp only [readRange]
      unfold onIndexRead
      cases env.fsRead input.reads csoHeaderSize bytes with
      | none => exact idle _ _ rfl rfl
      | some data =>
          dsimp only
          split
          · exact idle _ _ rfl rfl
          · exact idle _ _ rfl rfl
  | readTables frames areas bytes =>
      apply Exchange.lossless
      unfold complete
      dsimp only [readRange]
      unfold onTablesRead
      cases env.fsRead input.reads daxHeaderSize
          (tableBytes frames areas) with
      | none => exact idle _ _ rfl rfl
      | some data =>
          dsimp only
          split
          · exact idle _ _ rfl rfl
          · exact idle _ _ rfl rfl
  | stat =>
      apply Exchange.lossless
      unfold complete
      dsimp only
      unfold onStat
      cases env.fsStat with
      | none => exact idle _ _ rfl rfl
      | some size =>
          dsimp only
          split
          · exact idle _ _ rfl rfl
          · exact idle _ _ rfl rfl
  | readBlock request size =>
      apply Exchange.lossless
      unfold complete
      dsimp only [readRange]
      unfold onBlockRead
      cases env.fsRead input.reads request.pos size with
      | none => exact idle _ _ rfl rfl
      | some data =>
          dsimp only
          split
          · exact idle _ _ rfl rfl
          · intro others lends
            exact exchange_useData request _ others
              (by rwa [show InputRequest.held (.readBlock request size) = 0
                from rfl, add_zero] at lends)
  | decompress actualBuf source offset isLz4 =>
      exact exchange_onDecompressed actualBuf source offset isLz4

end

end Input

end Maxcso
