import Maxcso.Input
import Maxcso.Library.Transition

/-!
# Runs of the reader

The reader with an arbitrary owner.  The owner may call `Pause` and `Resume`
at any moment and any number of times, in particular from inside a callback,
which is the moment after the call `callback` has been run.  Other holders of
the global pool may allocate and release between any two steps.
-/

namespace Maxcso

/-- One invocation of the sector callback. -/
structure Delivery where
  pos : Int
  sector : Bytes
  supplied : Nat
  deriving DecidableEq, Repr

structure Reader where
  input : Input
  pool : BufferPool
  /-- What the code that is running still has to do. -/
  calls : List InputCall
  delivered : List Delivery
  /-- The arguments of `begin_` and of `finish_` so far. -/
  begun : List Int
  finished : List (Bool × String)

inductive ReaderEvent where
  /-- Run the next call. -/
  | run
  /-- The event loop completes an outstanding request. -/
  | complete (request : Nat)
  | pause
  | resume
  /-- Another holder of the pool has used it. -/
  | otherPool (pool : BufferPool)

namespace Reader

/-- The reader after `Pipe` has been called. -/
def start (env : Environment) (pool : BufferPool) : Reader where
  input := ((Input.create env).pipe env pool).1
  pool := ((Input.create env).pipe env pool).2
  calls := []
  delivered := []
  begun := []
  finished := []

/-- Continue with the result of a function of `Input`. -/
def continueWith (reader : Reader) (result : InputResult)
    (rest : List InputCall) : Reader :=
  { reader with
    input := result.input
    pool := result.pool
    calls := result.calls ++ rest }

def runCall (policy : Input.FetchPolicy) (env : Environment)
    (reader : Reader) (call : InputCall) (rest : List InputCall) :
    Reader :=
  match call with
  | .readSector =>
      reader.continueWith
        (reader.input.readSectorWith policy env reader.pool) rest
  | .callback pos sector supplied =>
      { reader with
        calls := rest
        delivered := reader.delivered ++
          [⟨pos, FlatMemory.read sector.memory 0 sectorSize, supplied⟩] }
  | .rawDelivered =>
      reader.continueWith (reader.input.rawDelivered reader.pool) rest
  | .subBlock block =>
      reader.continueWith (reader.input.subBlock env reader.pool block) rest
  | .subDelivered block =>
      reader.continueWith (reader.input.subDelivered reader.pool block) rest
  | .begin size =>
      { reader with calls := rest, begun := reader.begun ++ [size] }
  | .finish success reason =>
      { reader with
        calls := rest
        finished := reader.finished ++ [(success, reason)] }

def step (policy : Input.FetchPolicy) (env : Environment)
    (reader : Reader) : ReaderEvent → Option Reader
  | .run =>
      match reader.calls with
      | [] => none
      | call :: rest => some (reader.runCall policy env call rest)
  | .complete position =>
      match reader.calls, reader.input.inFlight[position]? with
      | [], some request =>
          let taken :=
            { reader.input with
              inFlight := reader.input.inFlight.eraseIdx position }
          some (reader.continueWith
            (taken.complete env reader.pool request) [])
      | _, _ => none
  | .pause => some { reader with input := reader.input.pause }
  | .resume =>
      let resumed := reader.input.resume
      some
        { reader with
          input := resumed.1
          calls := resumed.2 ++ reader.calls }
  | .otherPool pool => some { reader with pool := pool }

end Reader

end Maxcso
