import Maxcso.Reader.Cache

/-!
# Copies of raw blocks

A raw block is copied into a buffer of the pool.  Its length comes from the
tables of the file and is limited by the cache, not by the buffer.
-/

namespace Maxcso

open Transition

namespace Reader

/-- A raw block that is wanted fits a buffer of the pool, or is not in the
window of the cache and cannot be read: it is longer than the cache, or the
file ends before it does.  The pool is not resized once blocks are read. -/
def RawFits (file : Bytes) (reader : Reader) : ReaderEvent → Prop
  | .run =>
      ∀ rest, reader.calls = .readSector :: rest →
        reader.input.pos < reader.input.size →
        reader.input.paused = false →
        reader.input.request.raw = true →
          reader.input.request.len ≤ reader.pool.bufferSize ∨
            (reader.input.cacheHit reader.input.request = false ∧
              (reader.input.cacheSize < reader.input.request.len ∨
                0 ≤ reader.input.request.pos ∧
                  ¬ reader.input.request.Contained file))
  | .otherPool pool =>
      (reader.input.fetches ≠ [] ∨
        ∃ request size, reader.input.inFlight = [.readBlock request size]) →
        pool.bufferSize = reader.pool.bufferSize
  | _ => True

/-- What has been copied has fitted, and what is being read will fit or is
not going to be read in full. -/
structure Copied (file : Bytes) (core : Reader) (phase : Phase) : Prop where
  fetches : ∀ fetch ∈ core.input.fetches, fetch.request.raw = true →
    fetch.data.length ≤ core.pool.bufferSize
  fresh : phase.detecting = true → core.input.fetches = []
  asked : ∀ request size, phase = .waiting (.readBlock request size) →
    request.raw = true →
      request.len ≤ core.pool.bufferSize ∨ size < request.len ∨
        (0 ≤ request.pos ∧ ¬ request.Contained file)

section

variable {env : Environment} {file : Bytes} {core core' : Reader}
variable {phase phase' : Phase} {event : ReaderEvent}

theorem Copied.use
    (copied : ∀ fetch ∈ core.input.fetches, fetch.request.raw = true →
      fetch.data.length ≤ core.pool.bufferSize)
    {request : Request} {data : Bytes}
    (fits : request.raw = true → data.length ≤ core.pool.bufferSize) :
    Copied file (core.afterUse env request data)
      (core.usePhase env request data) := by
  have bufferSize : (core.afterUse env request data).pool.bufferSize =
      core.pool.bufferSize := BufferPool.alloc_bufferSize _ _
  refine ⟨?_, ?_, ?_⟩
  · intro fetch member raw
    rw [bufferSize]
    rcases List.mem_append.mp member with earlier | latest
    · exact copied fetch earlier raw
    · rw [List.mem_singleton.mp latest] at raw ⊢
      exact fits raw
  · intro detecting
    cases raw : request.raw with
    | true =>
        rw [usePhase_raw env core raw] at detecting
        exact nomatch detecting
    | false =>
        rw [usePhase_compressed env core raw] at detecting
        exact nomatch detecting
  · intro asked size same
    exact absurd same (usePhase_ne_readBlock env core request data asked size)

/-- A read of a raw block that is received in full fits. -/
theorem Copied.received
    (complete : env.CompleteReads file) (bounded : env.BoundedReads)
    {request : Request} {size : Nat} {data : Bytes}
    (asked : request.len ≤ core.pool.bufferSize ∨ size < request.len ∨
      (0 ≤ request.pos ∧ ¬ request.Contained file))
    (received : env.fsRead core.input.reads request.pos size = some data)
    (enough : request.len ≤ data.length) :
    request.len ≤ core.pool.bufferSize := by
  rcases asked with fits | long | ⟨nonneg, missing⟩
  · exact fits
  · have short := bounded _ _ _ _ received
    omega
  · rw [complete _ _ _ nonneg] at received
    exact absurd
      (take_of_window (Option.some.inj received).symm enough).2 missing

theorem Copied.move
    (complete : env.CompleteReads file) (bounded : env.BoundedReads)
    (copied : Copied file core phase) (track : OnTrack core phase)
    (fits : (core.enter phase).RawFits file event)
    (move : Move Input.fetchCached env core phase event core' phase') :
    Copied file core' phase' := by
  have fetches := copied.fetches
  cases move with
  | pause | resume => exact ⟨fetches, copied.fresh, copied.asked⟩
  | otherPool _ pool =>
      refine ⟨?_, copied.fresh, ?_⟩
      · intro fetch member raw
        have same : pool.bufferSize = core.pool.bufferSize :=
          fits (Or.inl (List.ne_nil_of_mem member))
        rw [same]
        exact fetches fetch member raw
      · rintro request size rfl raw
        have same : pool.bufferSize = core.pool.bufferSize :=
          fits (Or.inr ⟨request, size, rfl⟩)
        rw [same]
        exact copied.asked request size rfl raw
  | detect request detects =>
      have frame := detected_frame env detects track.aligned
      have none := frame.spares.fetches.trans (copied.fresh detects)
      refine ⟨?_, fun _ => none, ?_⟩
      · intro fetch member
        rw [none] at member
        exact nomatch member
      · intro asked size same
        rcases frame.phase with ⟨reason, finishing⟩ | ⟨detecting, _, _⟩
        · rw [finishing] at same
          exact nomatch same
        · rw [same] at detecting
          exact nomatch detecting
  | use data more running decided =>
      apply Copied.use fetches
      intro raw
      have hit : core.input.cacheHit core.input.request = true := by
        by_contra miss
        rw [decision_cached, if_neg miss] at decided
        exact nomatch decided
      rw [length_of_use decided]
      rcases fits [] rfl more running raw with small | ⟨miss, _⟩
      · exact small
      · have hit' : (core.enter .reading).input.cacheHit
            (core.enter .reading).input.request = true := hit
        rw [hit'] at miss
        exact nomatch miss
  | ask cachePos size more running decided =>
      refine ⟨fetches, nofun, ?_⟩
      rintro _ _ ⟨⟩ raw
      have room : size = core.input.cacheSize := by
        rw [decision_cached] at decided
        split at decided
        · exact nomatch decided
        · exact (Input.FetchDecision.read.inj decided).2.symm
      rw [room]
      rcases fits [] rfl more running raw with small | ⟨_, unread⟩
      · exact Or.inl small
      · exact Or.inr unread
  | blockMissing => exact ⟨fetches, nofun, nofun⟩
  | blockShort => exact ⟨fetches, nofun, nofun⟩
  | blockRead request size data received enough =>
      refine @Copied.use env file (core.afterRead data) fetches request _ ?_
      intro raw
      rw [List.length_take_of_le enough]
      exact @Copied.received env file core complete bounded request size
        data (copied.asked request size rfl raw) received enough
  | workFailed | workRejected | decompressed =>
      exact ⟨fetches, nofun, nofun⟩
  | subBlock block more =>
      refine ⟨?_, nofun, nofun⟩
      intro fetch member raw
      have same : (core.subBuffer env block).2.bufferSize =
          core.pool.bufferSize := by
        rw [subBuffer]
        split
        · rfl
        · exact BufferPool.alloc_bufferSize _ _
      exact (fetches fetch member raw).trans_eq same.symm
  | unpark | begin | finish | atEnd | park | rawCallback | rawDelivered
  | loopDone | subCallback | bail | nextSub =>
      exact ⟨fetches, nofun, nofun⟩

/-- A raw block that is too long for a buffer and is being read ends the
run. -/
theorem Copied.refuses
    (complete : env.CompleteReads file) (bounded : env.BoundedReads)
    (copied : Copied file core phase)
    (known : phase.knowsFormat = true → core.input.fileType ≠ .unknown)
    {request : Request} {size : Nat}
    (reading : (core.enter phase).input.inFlight =
      [.readBlock request size])
    (raw : request.raw = true) (long : core.pool.bufferSize < request.len) :
    ∃ next,
      step Input.fetchCached env (core.enter phase) (.complete 0) =
          some next ∧
        next.calls = [.finish false "Unable to read entire sector"] := by
  cases phase with
  | waiting asked =>
      obtain rfl : asked = .readBlock request size :=
        List.singleton_inj.mp reading
      cases received : env.fsRead core.input.reads request.pos size with
      | none =>
          exact ⟨_, step_of_move known
            (.blockMissing core request size received), rfl⟩
      | some data =>
          have short : data.length < request.len := by
            by_contra enough
            have fits := Copied.received complete bounded
              (copied.asked request size rfl raw) received (by omega)
            omega
          exact ⟨_, step_of_move known
            (.blockShort core request size data received short), rfl⟩
  | _ => exact nomatch reading

end

end Reader

end Maxcso
