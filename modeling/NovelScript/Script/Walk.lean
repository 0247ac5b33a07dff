import NovelScript.Script.Cursor

/-!
# Walking a script

A walk feeds the events of a script, in address order, to a visitor. A visitor is a state machine:
it takes a state and an event to the next state, and it may refuse the event and so stop the walk.
The visitor sees each event before the bytes after it are read, so a fault of the script behind the
event that it refuses is never found.
-/

set_option autoImplicit false

namespace NovelScript

/-- A state machine over events that may refuse one. -/
abbrev Visitor (σ ε : Type) := σ → Event → σ × Option ε

/-- Why a walk stopped before the end of the script. -/
inductive Stop (ε : Type)
  /-- The bytes are not a script. -/
  | fault (fault : FormatError)
  /-- The visitor refused an event. -/
  | refused (reason : ε)
  deriving DecidableEq

/-- How a walk ended: the last state of the visitor, and why it stopped early if it did. -/
structure WalkResult (σ ε : Type) where
  /-- The state of the visitor after the last event that it saw. -/
  state : σ
  /-- Nothing when the whole script was walked. -/
  stop : Option (Stop ε)

variable {σ ε : Type}

/-- Walks on from a place. -/
def Cursor.walk (visit : Visitor σ ε) (state : σ) (cursor : Cursor) : WalkResult σ ε :=
  if cursor.isDone then { state, stop := none }
  else
    match _read : cursor.next with
    | .error fault => { state, stop := some (.fault fault) }
    | .ok (event, after) =>
      match visit state event with
      | (state, some reason) => { state, stop := some (.refused reason) }
      | (state, none) => after.walk visit state
termination_by cursor.rest.length
decreasing_by exact length_rest_lt _read

/-- A walk ends where the script may end and does. -/
theorem Cursor.walk_of_isDone {visit : Visitor σ ε} {state : σ} {cursor : Cursor}
    (done : cursor.isDone = true) : cursor.walk visit state = { state, stop := none } := by
  rw [Cursor.walk, if_pos done]

/-- A walk stops at a fault with the state that it has reached. -/
theorem Cursor.walk_of_next_eq_error {visit : Visitor σ ε} {state : σ} {cursor : Cursor}
    {fault : FormatError} (more : cursor.isDone = false) (read : cursor.next = .error fault) :
    cursor.walk visit state = { state, stop := some (.fault fault) } := by
  rw [Cursor.walk, if_neg (by simp [more])]
  split
  case h_1 => simp_all
  case h_2 => simp_all

/-- A walk hands the next event to the visitor and goes on unless it is refused. -/
theorem Cursor.walk_of_next_eq_ok {visit : Visitor σ ε} {state : σ} {cursor after : Cursor}
    {event : Event} (more : cursor.isDone = false) (read : cursor.next = .ok (event, after)) :
    cursor.walk visit state =
      match visit state event with
      | (state, some reason) => { state, stop := some (.refused reason) }
      | (state, none) => after.walk visit state := by
  rw [Cursor.walk, if_neg (by simp [more])]
  split
  case h_1 => simp_all
  case h_2 found place reread =>
    rw [read, Except.ok.injEq, Prod.mk.injEq] at reread
    obtain ⟨rfl, rfl⟩ := reread
    rfl

/-- Walks a whole script. -/
def walk (visit : Visitor σ ε) (state : σ) (data : Bytes) : WalkResult σ ε :=
  (Cursor.start data).walk visit state

/-- The visitor that ignores everything. -/
def Visitor.silent : Visitor Unit Empty := fun state _ => (state, none)

/-- The visitor that keeps every event, the latest first. -/
def Visitor.recorder : Visitor (List Event) Empty := fun seen event => (event :: seen, none)

/-- An event that came after a recorder was full. -/
structure Overflow where
  /-- The address that the event speaks about. -/
  address : Nat
  /-- How many events had been kept. -/
  kept : Nat
  deriving DecidableEq

/-- The visitor that keeps `limit` events, the latest first, and refuses the next one. -/
def Visitor.limitedRecorder (limit : Nat) : Visitor (List Event) Overflow := fun seen event =>
  if seen.length < limit then (event :: seen, none)
  else (seen, some { address := event.address, kept := seen.length })

/-- The events of a byte string, up to its end or its first fault. -/
def events (data : Bytes) : List Event :=
  (walk Visitor.recorder [] data).state.reverse

/-- The first fault of a byte string that is not a script. -/
def fault? (data : Bytes) : Option FormatError :=
  match (walk Visitor.silent () data).stop with
  | some (.fault fault) => some fault
  | _ => none

end NovelScript
