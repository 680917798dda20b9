import BoundaryTag.Heap.Resolve

/-!
# Allocating and freeing

A request is served from the first free block, in list order, that is large
enough. If there is none, the heap grows: the new bytes take over the epilogue
as their header, merge with a free block before them, and end in a new
epilogue. A freed block merges with its neighbours and joins the free list at
the front, so that it is the first to be looked at again.

Notes on `allocate`, `allocate_block`, `extend_heap` and `free`:
- `allocateBlock` is `allocate_block` without its search, which is `findFit`.
- `extend` is `extend_heap`, and `take` and `release` are `place` and `release`.
- The reason of a refusal is logged before the answer drops it, so `findFit` hands it on.
-/

namespace BoundaryTag.Heap

open Numeral (hex)

/-- Grows the heap and answers the free block that results, which is longer than
what was requested if a free block ended the heap. -/
def extend (h : Heap) (bytes : Nat) : Traced (Except ProviderError Block × Heap) := do
  let (granted, provider) ← h.provider.extend bytes
  let h := { h with provider }
  match granted with
  | .error cause => return (.error cause, h)
  | .ok old =>
    let extensions ← Word.add h.extensions 1
    -- The new block's header takes the place of the old epilogue.
    let b : Block := ⟨old⟩
    let r ← b.mark h.region ⟨bytes, false⟩
    let epilogue ← b.following r
    let r ← epilogue.markHeader r ⟨0, true⟩
    Traced.emit .debug s!"heap extended by {bytes} bytes, break now {hex r.size}"
    let (b, a) ← Arena.coalesce ⟨r, h.freeList⟩ b
    return (.ok b, { h.withArena a with extensions })

/-- A free block of at least `needed` bytes: the first on the list, or one that
the heap is grown for. -/
def findFit (h : Heap) (needed : Nat) : Traced (Except ProviderError Block × Heap) := do
  match ← h.arena.firstFit? needed with
  | some b => return (.ok b, h)
  | none => h.extend (max needed h.config.chunk)

/-- Allocates a block for a request of so many bytes. -/
def allocateBlock (h : Heap) (request : Nat) : Traced (Except AllocError Handle × Heap) := do
  match blockSizeFor? request with
  | none => return (.error (.outOfMemory request), h)
  | some needed =>
    match ← h.findFit needed with
    | (.error cause, h) =>
      Traced.emit .warn s!"allocate {request}: {cause.message}"
      return (.error (.outOfMemory request), h)
    | (.ok b, h) =>
      let a ← h.arena.take b needed
      Traced.emit .debug s!"allocate {request} -> {hex b.offset} ({needed} byte block)"
      return (.ok b, h.withArena a)

/-- Allocates a payload of at least so many bytes. A request of none gets a
least block. -/
def allocate (h : Heap) (request : Nat) : Traced (Except AllocError Handle × Heap) := do
  match ← h.allocateBlock request with
  | (.error e, h) => return (.error e, h)
  | (.ok handle, h) =>
    h.selfCheck "allocate"
    return (.ok handle, h)

/-- Frees the block behind a handle. To free nothing is to do nothing. -/
def free (h : Heap) (handle : Option Handle) : Traced (Except AllocError Unit × Heap) := do
  match handle with
  | none => return (.ok (), h)
  | some handle =>
    match ← h.resolve handle with
    | .error e => return (.error e, h)
    | .ok b =>
      let h := h.withArena (← h.arena.release b)
      Traced.emit .debug s!"free {hex handle.offset}"
      h.selfCheck "free"
      return (.ok (), h)

end BoundaryTag.Heap
