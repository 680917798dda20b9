import BoundaryTag.Block
import BoundaryTag.Numeral
import BoundaryTag.Trace

/-!
# The free list

The free blocks of a region form a doubly linked list. Its links lie in the
blocks themselves, so that the list proper is only its first block and the
number of its members; `Arena` puts it together with the region it runs
through. A block joins at the front and may leave from anywhere: `unlink`
relinks the members beside it, after it has made sure that the way forward
does lead to it.

The walks `firstFit?` and `listed` follow the forward links as they find them.
A list that runs into itself has no end. `firstFit?` reports that after more
steps than the region has bytes: every step reads a link at the offset it has
come to, so by then it has come to some offset twice.

Notes on `FreeList`:
- `push` is `push_front` and `unlink` is `remove`, with the memory and the list in one
  `Arena`.
- `relinkForward` is the match of `remove` on the predecessor, its two assertions
  included, and `relinkBack` is what `remove` does to the successor.
- `firstFit?` is `find_first_fit`. It reports a list without end; `find_first_fit` does
  not return.
- `listed` is `iter` with `BlockInfo::read`, cut off after `limit` members, as a caller may
  stop anywhere. Both walks read the link of a member before they judge the member.
-/

namespace BoundaryTag

/-- Where the list of free blocks begins and how many there are. -/
structure FreeList where
  head : Option Block
  length : Nat
deriving DecidableEq, Repr

/-- The list without members. -/
def FreeList.empty : FreeList := ⟨none, 0⟩

/-- A region and the list of its free blocks. -/
structure Arena where
  region : Region
  freeList : FreeList

namespace Arena

open Numeral (hex)

/-- Puts a block at the front of the free list. -/
def push (a : Arena) (b : Block) : Traced Arena := do
  Traced.emit .trace s!"free list push {hex b.offset}"
  let region ← b.setBackLink a.region none
  let region ← b.setForwardLink region a.freeList.head
  let region ← match a.freeList.head with
    | some second => liftM (second.setBackLink region (some b))
    | none => pure region
  return { region, freeList := ⟨some b, ← Word.add a.freeList.length 1⟩ }

/-- Makes the forward way lead past `b`, to `next`: from the predecessor that
`b` names, or from the beginning of the list if it names none. -/
def relinkForward (a : Arena) (b : Block) (prev next : Option Block) : Except Fault Arena :=
  match prev with
  | none =>
    if a.freeList.head = some b then .ok { a with freeList.head := next }
    else .error (.unlinkNotHead b.offset)
  | some prev => do
    if (← prev.forwardLink a.region) = some b then
      return { a with region := ← prev.setForwardLink a.region next }
    else throw (.unlinkNotLinked b.offset)

/-- Makes the way back from `next` lead to `prev`. -/
def relinkBack (a : Arena) (prev next : Option Block) : Except Fault Arena :=
  match next with
  | none => .ok a
  | some next => do return { a with region := ← next.setBackLink a.region prev }

/-- Takes a block out of the free list, wherever in the list it is. A block that
is marked allocated, or that the way forward does not lead to, is no member; to
take it out would spoil the list. -/
def unlink (a : Arena) (b : Block) : Traced Arena := do
  Traced.emit .trace s!"free list remove {hex b.offset}"
  if ← b.allocated a.region then
    Traced.fault (.unlinkAllocated b.offset)
  else
    let next ← b.forwardLink a.region
    let prev ← b.backLink a.region
    let a ← a.relinkForward b prev next
    let a ← a.relinkBack prev next
    return { a with freeList.length := ← Word.sub a.freeList.length 1 }

/-- The first block from `current` on that spans at least `least` bytes, in at
most `steps` steps. -/
def firstFitFrom (r : Region) (least : Nat) :
    (steps : Nat) → (current : Option Block) → Except Fault (Option Block)
  | _, none => .ok none
  | 0, some _ => .error .endlessList
  | steps + 1, some b => do
    let next ← b.forwardLink r
    if least ≤ (← b.size r) then return some b
    else firstFitFrom r least steps next

/-- The first member of the free list that spans at least `least` bytes. -/
def firstFit? (a : Arena) (least : Nat) : Except Fault (Option Block) :=
  firstFitFrom a.region least (a.region.size + 1) a.freeList.head

/-- The blocks from `current` on, in list order, at most `limit` of them. -/
def listedFrom (r : Region) :
    (limit : Nat) → (current : Option Block) → Except Fault (List BlockView)
  | 0, _ => .ok []
  | _ + 1, none => .ok []
  | limit + 1, some b => do
    let next ← b.forwardLink r
    let view ← b.view r
    return view :: (← listedFrom r limit next)

/-- The members of the free list in list order, at most `limit` of them. -/
def listed (a : Arena) (limit : Nat) : Except Fault (List BlockView) :=
  listedFrom a.region limit a.freeList.head

end Arena

end BoundaryTag
