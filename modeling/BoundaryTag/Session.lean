import BoundaryTag.Heap.Reallocate

/-!
# Sessions

A session is what happens to a heap in the hands of a caller who keeps the rules: the
caller passes only handles that are live, that is, returned by an earlier call and
neither freed nor moved since, and writes only into payloads of live handles.

The rules need no hypotheses. The live handles are part of the state, as leases, and a
call names one by its place among them; a place beyond the end names no handle. So
every list of calls is a way to keep the rules, and every way to keep them is one.

Notes: sessions have no counterpart. They are the other side of the contract, a caller who
uses handles as they are meant to be used.
-/

namespace BoundaryTag

/-- A live handle, and the request that its block was last sized for. -/
structure Lease where
  handle : Handle
  request : Nat
deriving DecidableEq, Repr

/-- A heap and the leases on its blocks, the oldest one first. -/
structure Session where
  heap : Heap
  leases : List Lease

/-- What a caller may do. -/
inductive Call where
  | allocate (request : Nat)
  | free (place : Nat)
  | reallocate (place request : Nat)
  /-- Sets byte `first + i` of a payload to `value i`, for every `i` below `count`, as
  far as the payload goes. -/
  | write (place first count : Nat) (value : Nat → UInt8)

/-- The call writes to a payload. -/
def Call.Writes : Call → Prop
  | .write .. => True
  | _ => False

/-- What a caller learns from a call: an error, or the handle that came of it, if any. -/
abbrev Answer := Except AllocError (Option Handle)

namespace Session

/-- The live handles. -/
def handles (s : Session) : List Handle := s.leases.map (·.handle)

/-- The live handle at a place, if there is one. -/
def handle? (s : Session) (place : Nat) : Option Handle := s.handles[place]?

/-- Puts a lease in a place, or behind all others if the place is beyond the end. -/
def lease (leases : List Lease) (place : Nat) (new : Lease) : List Lease :=
  if place < leases.length then leases.set place new else leases ++ [new]

/-- One call and its answer. -/
def step (s : Session) : Call → Traced (Answer × Session)
  | .allocate request => do
    match ← s.heap.allocate request with
    | (.error e, heap) => return (.error e, { s with heap })
    | (.ok handle, heap) =>
      return (.ok (some handle), ⟨heap, s.leases ++ [⟨handle, request⟩]⟩)
  | .free place => do
    match ← s.heap.free (s.handle? place) with
    | (.error e, heap) => return (.error e, { s with heap })
    | (.ok (), heap) => return (.ok none, ⟨heap, s.leases.eraseIdx place⟩)
  | .reallocate place request => do
    match ← s.heap.reallocate (s.handle? place) request with
    | (.error e, heap) => return (.error e, { s with heap })
    | (.ok none, heap) => return (.ok none, ⟨heap, s.leases.eraseIdx place⟩)
    | (.ok (some handle), heap) =>
      return (.ok (some handle), ⟨heap, lease s.leases place ⟨handle, request⟩⟩)
  | .write place first count value => do
    match s.handle? place with
    | none => return (.ok none, s)
    | some handle =>
      let (written, heap) ← s.heap.fill handle first count value
      return (written.map fun _ => none, { s with heap })

/-- Calls in a row, and their answers. -/
def run (s : Session) : List Call → Traced (List Answer × Session)
  | [] => return ([], s)
  | call :: calls => do
    let (answer, s) ← s.step call
    let (answers, s) ← s.run calls
    return (answer :: answers, s)

/-- Builds a heap that nobody holds anything of yet. -/
def start (p : Provider) (config : Config) : Traced (Except AllocError Session) := do
  return (← Heap.build p config).map fun heap => ⟨heap, []⟩

/-- The answers to calls in a row on a new heap, and the session they lead to, if the heap
is built and no call faults. -/
def reached (p : Provider) (config : Config) (calls : List Call) :
    Option (List Answer × Session) :=
  match (start p config).outcome with
  | .ok (.ok s) => (s.run calls).outcome.toOption
  | _ => none

/-- The live handle that a call is about, if there is one. -/
def target (s : Session) : Call → Option Handle
  | .allocate _ => none
  | .free place => s.handle? place
  | .reallocate place _ => s.handle? place
  | .write place _ _ _ => s.handle? place

end Session

end BoundaryTag
