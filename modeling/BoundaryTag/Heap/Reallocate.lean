import BoundaryTag.Heap.Allocate

/-!
# Changing the size of an allocation

A block is resized where it lies if it can be: it keeps what it has, gives up
what it no longer needs once that would make a block, or takes in the free
block after it. Otherwise its payload moves to a new block.

Notes on `reallocate` and `relocate`:
- `resize` is the match on how the sizes compare. It joins the arms for equal and for
  greater: `shrink` does nothing where the surplus is no block, and none is none.
- `lengthen` is the arm for less, up to `relocate`.
- `movePayload` is the copy in the middle of `relocate`.
-/

namespace BoundaryTag.Heap

open Numeral (hex)

/-- Copies as much of one payload as the other has room for. Answers how many
bytes that was. -/
def movePayload (r : Region) (source target : Block) : Except Fault (Nat × Region) := do
  let count := min (← source.payloadSize r) (← target.payloadSize r)
  return (count, ← r.copy source.offset count target.offset)

/-- Moves the payload of a block to a new block for a request of so many bytes,
and frees the old one. -/
def relocate (h : Heap) (b : Block) (request : Nat) :
    Traced (Except AllocError Handle × Heap) := do
  match ← h.allocateBlock request with
  | (.error e, h) => return (.error e, h)
  | (.ok target, h) =>
    let (count, r) ← movePayload h.region b target
    Traced.emit .debug s!"realloc {hex b.offset}: moved {count} bytes to {hex target.offset}"
    let h := h.withRegion r
    return (.ok target, h.withArena (← h.arena.release b))

/-- Makes a block of `current` bytes as short as `needed`. A surplus that is no
block stays with it. -/
def shrink (h : Heap) (b : Block) (current needed : Nat) : Traced Heap :=
  if minBlockSize ≤ current - needed then do
    Traced.emit .debug s!"realloc {hex b.offset}: shrink {current} -> {needed} in place"
    return h.withArena (← h.arena.carve b needed current)
  else return h

/-- Makes a block of `current` bytes as long as `needed`: in place if the block
after it is free and long enough, by moving it otherwise. -/
def lengthen (h : Heap) (b : Block) (current needed request : Nat) :
    Traced (Except AllocError Handle × Heap) := do
  let next ← b.following h.region
  let combined ← Word.add current (← next.size h.region)
  let nextUsed ← next.allocated h.region
  if nextUsed = false ∧ needed ≤ combined then
    Traced.emit .debug s!"realloc {hex b.offset}: grow {current} -> {needed} into next block"
    let a ← h.arena.unlink next
    return (.ok b, h.withArena (← a.occupy b needed combined))
  else h.relocate b request

/-- Resizes an allocated block to `needed` bytes, for a request of `request`. -/
def resize (h : Heap) (b : Block) (needed request : Nat) :
    Traced (Except AllocError Handle × Heap) := do
  let current ← b.size h.region
  if current < needed then h.lengthen b current needed request
  else return (.ok b, ← h.shrink b current needed)

/-- Changes the payload behind a handle to at least so many bytes, keeping what
it holds as far as it still fits. Without a handle this allocates; a request of
no bytes frees, and leaves no handle. -/
def reallocate (h : Heap) (handle : Option Handle) (request : Nat) :
    Traced (Except AllocError (Option Handle) × Heap) := do
  match handle with
  | none =>
    let (result, h) ← h.allocate request
    return (result.map some, h)
  | some handle =>
    if request = 0 then
      let (result, h) ← h.free (some handle)
      return (result.map fun _ => none, h)
    else
      match ← h.resolve handle with
      | .error e => return (.error e, h)
      | .ok b =>
        match blockSizeFor? request with
        | none => return (.error (.outOfMemory request), h)
        | some needed =>
          match ← h.resize b needed request with
          | (.error e, h) => return (.error e, h)
          | (.ok resized, h) =>
            h.selfCheck "reallocate"
            return (.ok (some resized), h)

end BoundaryTag.Heap
