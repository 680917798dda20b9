import BoundaryTag.Heap.Reallocate

/-!
# Operations as data

Everything that can be asked of a heap is an `Operation`, with whatever handle and in
whatever state the heap is, and what comes back is a `Reply`. Callers who keep the rules
have a narrower choice, that of a session's calls.

Notes: neither type has a counterpart. `perform` only chooses the operation; it adds
nothing to what that one does.
-/

namespace BoundaryTag

/-- What can be asked of a heap. -/
inductive Operation where
  | allocate (request : Nat)
  | free (handle : Option Handle)
  | reallocate (handle : Option Handle) (request : Nat)
  | usableSize (handle : Handle)
  | payload (handle : Handle)
  | fill (handle : Handle) (first count : Nat) (value : Nat → UInt8)
  | storeWord (handle : Handle) (first value : Nat)
  | blocks
  | freeBlocks (limit : Nat)
  | check
  | describe

/-- What a heap replies. -/
inductive Reply where
  | handle (answer : Except AllocError (Option Handle))
  | done (answer : Except AllocError Unit)
  | count (answer : Except AllocError Nat)
  | bytes (answer : Except AllocError ByteArray)
  | blocks (blocks : List BlockView)
  | checked (answer : Except Violation Report)
  | text (text : String)

/-- The error in a reply, if it is one. -/
def Reply.error? : Reply → Option AllocError
  | .handle (.error e) => some e
  | .done (.error e) => some e
  | .count (.error e) => some e
  | .bytes (.error e) => some e
  | _ => none

namespace Heap

/-- Carries out one operation. -/
def perform (h : Heap) : Operation → Traced (Reply × Heap)
  | .allocate request =>
    Prod.map (fun answer => .handle (answer.map some)) id <$> h.allocate request
  | .free handle => Prod.map .done id <$> h.free handle
  | .reallocate handle request => Prod.map .handle id <$> h.reallocate handle request
  | .usableSize handle => (.count ·, h) <$> h.usableSize handle
  | .payload handle => (.bytes ·, h) <$> h.payload handle
  | .fill handle first count value => Prod.map .count id <$> h.fill handle first count value
  | .storeWord handle first value => Prod.map .done id <$> h.storeWord handle first value
  | .blocks => (.blocks ·, h) <$> (liftM h.blocks : Traced _)
  | .freeBlocks limit => (.blocks ·, h) <$> (liftM (h.freeBlocks limit) : Traced _)
  | .check => (.checked ·, h) <$> (liftM h.check : Traced _)
  | .describe => (.text ·, h) <$> (liftM h.describe : Traced _)

/-- Carries out operations in a row. -/
def performAll (h : Heap) : List Operation → Traced (List Reply × Heap)
  | [] => return ([], h)
  | operation :: operations => do
    let (reply, h) ← h.perform operation
    let (replies, h) ← h.performAll operations
    return (reply :: replies, h)

end Heap

end BoundaryTag
