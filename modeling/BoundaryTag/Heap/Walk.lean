import BoundaryTag.Heap.Basic

/-!
# Walking the blocks

`blocks` lists the blocks in the order of their addresses, by adding up the
sizes in their headers, and stops at the first header of size zero, which in a
sound heap is the epilogue. In a damaged heap it stops where a header would lie
outside the region. `describe` writes the same walk as a table.

Notes on `Blocks` and the display of a heap:
- `blocks` is all that the iterator `Blocks` yields. A block whose end is no word is
  yielded as the last one.
- `freeBlocks` is `free_blocks`, up to a limit, and `describe` is `fmt`.
-/

namespace BoundaryTag

/-- The blocks of a region from `b` on, in the order of their addresses. -/
def Region.blocksFrom (r : Region) (b : Block) : Except Fault (List BlockView) :=
  if _inside : wordSize ≤ b.offset ∧ b.offset ≤ r.size then do
    let view ← b.view r
    if _moves : view.size = 0 then return []
    else if b.offset + view.size < Word.limit then
      return view :: (← r.blocksFrom ⟨b.offset + view.size⟩)
    else return [view]
  else return []
termination_by r.size + 1 - b.offset
decreasing_by omega

namespace Heap

open Numeral (hex8 padLeft)

/-- The blocks between prologue and epilogue, in the order of their addresses. -/
def blocks (h : Heap) : Except Fault (List BlockView) := h.region.blocksFrom h.firstBlock

/-- The free blocks in list order, at most `limit` of them. -/
def freeBlocks (h : Heap) (limit : Nat) : Except Fault (List BlockView) := h.arena.listed limit

/-- One line of the table of blocks. -/
def describeBlock (v : BlockView) : String :=
  let size := padLeft ' ' 8 (toString v.size)
  s!"  {hex8 v.offset} {size} {Arena.markName v.allocated}\n"

/-- A summary line and a line for each block. -/
def describe (h : Heap) : Except Fault String := do
  let lines := (← h.blocks).map describeBlock
  return s!"heap: {h.size} bytes, {h.freeList.length} free blocks\n" ++ String.join lines

end Heap

end BoundaryTag
