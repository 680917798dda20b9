import BoundaryTag.Arena.FreeList

/-!
# Merging, carving and freeing blocks

No two free blocks ever lie side by side: whatever sets a block free merges it
at once with free neighbours, by `coalesce`, and puts the result at the front
of the free list. `carve` keeps the front of a block and frees the rest of it;
`occupy` does so only when the rest is large enough to be a block of its own.

Notes on `coalesce`, `split`, `place` and `release`:
- `coalesce` joins the four arms of its match: each neighbour is taken off the list
  unless it is in use, and the merged block is marked unless both are. In the arm with
  two free neighbours the order is the same, the one before and then the one behind.
- `carve` is `split`.
- `take` is `place`. The end of `place` is also what `reallocate` does once it took in
  the next block, so both are `occupy`.
- `usedBefore` is `prev == block || prev.is_allocated`.
-/

namespace BoundaryTag.Arena

open Numeral (hex)

/-- How the log speaks of a neighbour. -/
def markName (allocated : Bool) : String := if allocated then "allocated" else "free"

/-- Whether the block before `b` is in use. A block that is its own predecessor has
none, which is as good as one in use. -/
def usedBefore (r : Region) (b before : Block) : Except Fault Bool :=
  if before = b then .ok true else before.allocated r

/-- Takes a neighbour off the free list, unless it is in use. -/
def unlinkUnless (a : Arena) (used : Bool) (b : Block) : Traced Arena :=
  if used then pure a else a.unlink b

/-- The bytes that a neighbour brings in: none if it is in use. -/
def sizeUnless (used : Bool) (r : Region) (b : Block) : Except Fault Nat :=
  if used then .ok 0 else b.size r

/-- Marks a merged block free, unless it is alone and thus marked already. -/
def markUnless (alone : Bool) (r : Region) (b : Block) (total : Nat) : Except Fault Region :=
  if alone then .ok r else b.mark r ⟨total, false⟩

/-- Merges a block that is marked free, but not listed, with the neighbours that
are free, and puts the result at the front of the free list. -/
def coalesce (a : Arena) (b : Block) : Traced (Block × Arena) := do
  let before ← b.preceding a.region
  let after ← b.following a.region
  let beforeUsed ← usedBefore a.region b before
  let afterUsed ← after.allocated a.region
  let own ← b.size a.region
  let a ← a.unlinkUnless beforeUsed before
  let a ← a.unlinkUnless afterUsed after
  let sizeBefore ← sizeUnless beforeUsed a.region before
  let sizeAfter ← sizeUnless afterUsed a.region after
  let total ← Word.add own (← Word.add sizeBefore sizeAfter)
  let merged := if beforeUsed then b else before
  let region ← markUnless (beforeUsed && afterUsed) a.region merged total
  Traced.emit .trace (s!"coalesce {hex b.offset} (prev {markName beforeUsed}, " ++
    s!"next {markName afterUsed}) -> {hex merged.offset}, {total} bytes")
  let a ← { a with region }.push merged
  return (merged, a)

/-- Keeps the first `kept` bytes of a block of `total` bytes allocated and frees
the rest. -/
def carve (a : Arena) (b : Block) (kept total : Nat) : Traced Arena := do
  let region ← b.mark a.region ⟨kept, true⟩
  let rest ← b.following region
  let surplus ← Word.sub total kept
  let region ← rest.mark region ⟨surplus, false⟩
  Traced.emit .trace s!"split {hex b.offset}: {kept} + {surplus}"
  let (_, a) ← { a with region }.coalesce rest
  return a

/-- Allocates a block of `total` bytes that is on no list to a need of `needed`
bytes. What is left over becomes a free block if it is large enough for one,
and otherwise stays with the block. -/
def occupy (a : Arena) (b : Block) (needed total : Nat) : Traced Arena := do
  if minBlockSize ≤ (← Word.sub total needed) then a.carve b needed total
  else return { a with region := ← b.mark a.region ⟨total, true⟩ }

/-- Allocates a free block to a need of `needed` bytes. -/
def take (a : Arena) (b : Block) (needed : Nat) : Traced Arena := do
  let total ← b.size a.region
  let a ← a.unlink b
  a.occupy b needed total

/-- Sets an allocated block free. -/
def release (a : Arena) (b : Block) : Traced Arena := do
  let size ← b.size a.region
  let region ← b.mark a.region ⟨size, false⟩
  let (_, a) ← { a with region }.coalesce b
  return a

end BoundaryTag.Arena
