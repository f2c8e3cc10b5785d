import Mathlib.Data.List.Nodup
import Mathlib.Logic.Function.Basic
import SuiPq.Framework.Runs

/-!
# The event indexer of `packages/indexer`

`startPolling` (`src/index.ts`) as a state machine: its loop `tick`, between
one `await` and the next, the cursor store that outlives it, and the events
that match its filter, which become more. Any number of pollers may run on one
cursor, each of which may fail or crash at any moment and start again.
-/

namespace SuiPq.Impl.Indexer

/-- What a cursor points at. -/
structure EventId where
  txDigest : String
  eventSeq : String
deriving DecidableEq

/-- An event with its contents. -/
structure SuiEvent (α : Type) where
  id : EventId
  contents : α
deriving DecidableEq

/-- The cursors by their keys (`CursorStore`). -/
structure CursorStore where
  data : String → Option EventId

namespace CursorStore

def load (store : CursorStore) (key : String) : Option EventId := store.data key

def save (store : CursorStore) (key : String) (cursor : EventId) : CursorStore :=
  ⟨Function.update store.data key (some cursor)⟩

end CursorStore

structure PollOptions where
  cursorKey : String
  limit : Nat := 50

/-! ## Queries -/

section Queries

variable {α : Type}

/-- How many events there are up to the one that a cursor points at. -/
def position (log : List (SuiEvent α)) : Option EventId → Option Nat
  | none => some 0
  | some id => (log.findIdx? fun ev => ev.id = id).map (· + 1)

structure Page (α : Type) where
  data : List (SuiEvent α)
  nextCursor : Option EventId
  hasNextPage : Bool

/-- `queryEvents` may return the page: events after the cursor in ascending order, and no next cursor or one
that points at the last of them. -/
def Page.Follows [DecidableEq α] (page : Page α) (log : List (SuiEvent α)) (limit n : Nat) : Prop :=
  page.data <+: log.drop n ∧ page.data.length ≤ limit ∧
    (page.nextCursor = none ∨ page.nextCursor = page.data.getLast?.map SuiEvent.id)

instance [DecidableEq α] (page : Page α) (log : List (SuiEvent α)) (limit n : Nat) :
    Decidable (page.Follows log limit n) :=
  inferInstanceAs (Decidable (_ ∧ _ ∧ _))

end Queries

/-! ## The poller -/

/-- Where `tick` is: not running, at the test of its loop, waiting for a page, in the loop over the page's
events, or waiting for the handler. -/
inductive Phase (α : Type) where
  | stopped
  | test
  | querying (cursor : Option EventId)
  | handling (page : Page α) (rest : List (SuiEvent α))
  | running (page : Page α) (ev : SuiEvent α) (rest : List (SuiEvent α))

structure Poller (α : Type) where
  cancelled : Bool
  phase : Phase α

/-- The events that match the filter, the store, the events that a handler has completed, and the pollers. -/
structure State (ι α : Type) where
  log : List (SuiEvent α)
  store : CursorStore
  completed : List (SuiEvent α)
  pollers : ι → Poller α

/-- What happens: an event is published; a poller is started, cancelled (`stop()`), or fails or crashes; or
its `tick` goes on. -/
inductive Action (ι α : Type) where
  | publish (ev : SuiEvent α)
  | start (i : ι)
  | cancel (i : ι)
  | crash (i : ι)
  | load (i : ι)
  | respond (i : ι) (page : Page α)
  | handle (i : ι)
  | complete (i : ι)
  | save (i : ι)

section Steps

variable {ι α : Type} [DecidableEq ι] [DecidableEq α]

namespace State

def setPhase (s : State ι α) (i : ι) (phase : Phase α) : State ι α :=
  { s with pollers := Function.update s.pollers i { s.pollers i with phase } }

end State

def step (opts : PollOptions) (s : State ι α) : Action ι α → Option (State ι α)
  | .publish ev => do
    guard (∀ e ∈ s.log, e.id ≠ ev.id)
    some { s with log := s.log ++ [ev] }
  | .start i => match (s.pollers i).phase with
    | .stopped => some { s with pollers := Function.update s.pollers i ⟨false, .test⟩ }
    | _ => none
  | .cancel i => some { s with pollers := Function.update s.pollers i { s.pollers i with cancelled := true } }
  | .crash i => some (s.setPhase i .stopped)
  | .load i => match (s.pollers i).phase with
    | .test => if (s.pollers i).cancelled then some (s.setPhase i .stopped)
      else some (s.setPhase i (.querying (s.store.load opts.cursorKey)))
    | _ => none
  | .respond i page => match (s.pollers i).phase with
    | .querying cursor => do
      let n ← position s.log cursor
      guard (page.Follows s.log opts.limit n)
      some (s.setPhase i (.handling page page.data))
    | _ => none
  | .handle i => match (s.pollers i).phase with
    | .handling page (ev :: rest) => some (s.setPhase i (.running page ev rest))
    | _ => none
  | .complete i => match (s.pollers i).phase with
    | .running page ev rest =>
      some ({ s with completed := s.completed ++ [ev] }.setPhase i (.handling page rest))
    | _ => none
  | .save i => match (s.pollers i).phase with
    | .handling page [] => match page.nextCursor with
      | some cursor => some ({ s with store := s.store.save opts.cursorKey cursor }.setPhase i .test)
      | none => some (s.setPhase i .test)
    | _ => none

def run (opts : PollOptions) (s : State ι α) (acts : List (Action ι α)) : Option (State ι α) :=
  acts.foldlM (step opts) s

end Steps

/-- No poller runs, no event has been handled, and no two events have the same id. -/
structure State.Initial {ι α : Type} (s : State ι α) : Prop where
  nodup : (s.log.map SuiEvent.id).Nodup
  completed : s.completed = []
  stopped : ∀ i, (s.pollers i).phase = .stopped

end SuiPq.Impl.Indexer
