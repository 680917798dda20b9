import BoundaryTag.Heap.Walk

/-!
# The consistency check

The check reads a whole heap and believes nothing of it: a size is followed
only when the block it makes still lies within the bounds, and the walk along
the free list ends at the first block that it has met before. So it answers for
any bytes at all, with a report or with the first thing it finds wrong.

It looks, in this order, at

1. the two words of the prologue;
2. every block: its size, its bounds, the agreement of header and footer, and
   whether it should have been merged with the one before it;
3. the epilogue, at the very end;
4. every member of the free list: bounds, repetition, its mark, whether it is a
   block at all, and its back link;
5. whether every free block is a member, and whether the recorded number of
   members is right.

The walk over the blocks, `soundBlocks`, ends because every block moves it
towards the end; the walk along the list, `soundList`, because every member it
accepts is crossed off the free blocks still to be met.

Notes on `check_heap`:
- `prologueSound` is the condition on the prologue, `judgeBlock` and `judgeMember` are the
  bodies of the two loops, and `soundBlocks` and `soundList` the loops.
- The sets of offsets are lists here: `listed` in the order met, and of the free blocks
  those not met yet, in the order of their addresses, so that the first one left is the
  least offset of the difference.
- The report is summed up from the blocks at the end, not along the way.
- `selfCheck` is `debug_check`.
-/

namespace BoundaryTag

/-- What a sound heap amounts to. -/
structure Report where
  heapSize : Nat
  blocks : Nat
  freeBlocks : Nat
  freeBytes : Nat
  allocatedBytes : Nat
  largestFree : Nat
deriving DecidableEq, Repr

/-- The report as a line. -/
def Report.text (r : Report) : String :=
  s!"{r.heapSize} bytes, {r.blocks} blocks ({r.freeBlocks} free, {r.freeBytes} bytes free, " ++
    s!"largest {r.largestFree}), {r.allocatedBytes} bytes allocated"

/-- What can be wrong with a heap. Blocks are named by their offsets. -/
inductive Violation where
  | badPrologue (offset : Nat)
  | badEpilogue (offset : Nat)
  | tagMismatch (offset header footer : Nat)
  | badSize (offset size : Nat)
  | outOfBounds (offset : Nat)
  | uncoalesced (first second : Nat)
  | allocatedInFreeList (offset : Nat)
  | freeBlockNotListed (offset : Nat)
  | strayLink (offset : Nat)
  | listedTwice (offset : Nat)
  | brokenBackLink (offset : Nat) (expected found : Option Nat)
  | listLength (counted recorded : Nat)
deriving DecidableEq, Repr

namespace Violation

open Numeral (hex optionalHex)

def message : Violation → String
  | badPrologue offset => s!"prologue at {hex offset} is damaged"
  | badEpilogue offset => s!"heap does not end with an epilogue (walk stopped at {hex offset})"
  | tagMismatch offset header footer =>
    s!"block {hex offset}: header {hex header} and footer {hex footer} disagree"
  | badSize offset size =>
    s!"block {hex offset}: size {size} is below {minBlockSize} or not a multiple of {alignment}"
  | outOfBounds offset => s!"block {hex offset} lies outside the heap"
  | uncoalesced first second =>
    s!"adjacent free blocks {hex first} and {hex second} escaped coalescing"
  | allocatedInFreeList offset =>
    s!"block {hex offset} is on the free list but marked allocated"
  | freeBlockNotListed offset => s!"free block {hex offset} is missing from the free list"
  | strayLink offset => s!"free list links to {hex offset}, which is not a block"
  | listedTwice offset => s!"block {hex offset} appears twice in the free list"
  | brokenBackLink offset expected found =>
    s!"block {hex offset}: prev_free is {optionalHex found}, expected {optionalHex expected}"
  | listLength counted recorded =>
    s!"free list holds {counted} blocks but {recorded} are recorded"

end Violation

/-- What ends a check early: something wrong with the heap, or a fault. -/
inductive Finding where
  | violation (v : Violation)
  | fault (f : Fault)
deriving DecidableEq, Repr

namespace Finding

/-- A read or a sum within a check; if it faults, so does the check. -/
def ofFault {α : Type} : Except Fault α → Except Finding α
  | .ok a => .ok a
  | .error f => .error (.fault f)

/-- Tells the violations, which are answers, from the faults, which are not. -/
def settle {α : Type} : Except Finding α → Except Fault (Except Violation α)
  | .ok a => .ok (.ok a)
  | .error (.violation v) => .ok (.error v)
  | .error (.fault f) => .error f

end Finding

namespace Region

open Finding (ofFault)

/-- The word that header and footer of a prologue hold. -/
def prologueWord : Nat := Tag.word ⟨overhead, true⟩

/-- Whether a prologue is sound and lies between `low` and `stop`. -/
def prologueSound (r : Region) (low stop : Nat) (prologue : Block) : Except Fault Bool := do
  if (← prologue.headerPos) < low then return false
  else if stop < (← Word.add prologue.offset wordSize) then return false
  else if (← prologue.headerWord r) ≠ prologueWord then return false
  else return (← r.readWord prologue.offset) = prologueWord

/-- Judges the place `b` of a walk over the blocks: nothing is answered at an
epilogue that ends at `stop`, a view at a sound block that ends no later.
`prevFree` is the block before, if that one is free. -/
def judgeBlock (r : Region) (stop : Nat) (prevFree : Option Nat) (b : Block) :
    Except Finding (Option BlockView) := do
  if stop < b.offset then
    throw (.violation (.badEpilogue b.offset))
  else
    let header ← ofFault (b.headerWord r)
    let tag := Tag.ofWord header
    if tag.size = 0 then
      if tag.allocated ∧ b.offset = stop then return none
      else throw (.violation (.badEpilogue b.offset))
    -- Bits that a tag would drop from the size are damage to it.
    else if Tag.rawSize header < minBlockSize ∨ Tag.rawSize header % alignment ≠ 0 then
      throw (.violation (.badSize b.offset (Tag.rawSize header)))
    else if stop - b.offset < tag.size then
      throw (.violation (.outOfBounds b.offset))
    else
      let footer ← ofFault (b.footerWord r)
      if footer ≠ header then
        throw (.violation (.tagMismatch b.offset header footer))
      else
        match tag.allocated, prevFree with
        | false, some first => throw (.violation (.uncoalesced first b.offset))
        | _, _ => return some ⟨b.offset, tag.size, tag.allocated⟩

/-- A block that passes lies where it was looked for, has some size, and ends
no later than the heap. -/
theorem judgeBlock_some {r : Region} {stop : Nat} {prevFree : Option Nat} {b : Block}
    {v : BlockView} (h : r.judgeBlock stop prevFree b = .ok (some v)) :
    v.offset = b.offset ∧ 0 < v.size ∧ b.offset + v.size ≤ stop := by
  unfold judgeBlock at h
  split at h
  · cases h
  · obtain ⟨header, _, h⟩ := bind_ok_iff.mp h
    dsimp only at h
    split at h
    · split at h <;> cases h
    · split at h
      · cases h
      · split at h
        · cases h
        · obtain ⟨footer, _, h⟩ := bind_ok_iff.mp h
          split at h
          · cases h
          · split at h
            · cases h
            · cases h
              exact ⟨rfl, by dsimp only; omega, by dsimp only; omega⟩

/-- Walks the blocks from `b` on to the epilogue, which has to end at `stop`,
and lists them. -/
def soundBlocks (r : Region) (stop : Nat) (prevFree : Option Nat) (b : Block) :
    Except Finding (List BlockView) :=
  match judged : r.judgeBlock stop prevFree b with
  | .error e => .error e
  | .ok none => .ok []
  | .ok (some v) => do
    have := judgeBlock_some judged
    let free := if v.allocated then none else some v.offset
    return v :: (← r.soundBlocks stop free ⟨v.offset + v.size⟩)
termination_by stop - b.offset
decreasing_by omega

/-- Whether a member at `offset` would overlap what lies around the heap. -/
def memberOutside (low stop offset : Nat) : Except Fault Bool := do
  if offset < (← Word.add low overhead) then return true
  else return (← Word.sub stop overhead) < offset

/-- Judges the member `b` of the free list and answers its forward link.
`unlisted` holds the free blocks that were not met yet, `listed` the members
met so far, the latest one first. -/
def judgeMember (r : Region) (low stop : Nat) (unlisted listed : List Nat) (b : Block) :
    Except Finding (Option Block) := do
  if ← ofFault (memberOutside low stop b.offset) then
    throw (.violation (.outOfBounds b.offset))
  else if b.offset ∈ listed then
    throw (.violation (.listedTwice b.offset))
  else if ← ofFault (b.allocated r) then
    throw (.violation (.allocatedInFreeList b.offset))
  else if b.offset ∈ unlisted then
    let found := (← ofFault (b.backLink r)).map Block.offset
    if found = listed.head? then ofFault (b.forwardLink r)
    else throw (.violation (.brokenBackLink b.offset listed.head? found))
  else throw (.violation (.strayLink b.offset))

/-- A member that passes is a free block that was not met before. -/
theorem judgeMember_ok {r : Region} {low stop : Nat} {unlisted listed : List Nat} {b : Block}
    {next : Option Block} (h : r.judgeMember low stop unlisted listed b = .ok next) :
    b.offset ∈ unlisted := by
  unfold judgeMember at h
  obtain ⟨outside, _, h⟩ := bind_ok_iff.mp h
  split at h
  · cases h
  · split at h
    · cases h
    · obtain ⟨used, _, h⟩ := bind_ok_iff.mp h
      split at h
      · cases h
      · split at h
        · next met => exact met
        · cases h

/-- Crossing off a member shortens a list. -/
theorem length_erase_lt {l : List Nat} {n : Nat} (h : n ∈ l) : (l.erase n).length < l.length := by
  rw [List.length_erase_of_mem h]
  exact Nat.sub_one_lt_of_lt (List.length_pos_of_mem h)

/-- Follows the free list from `current` on and answers its members, the last
one first, and the free blocks that are none. -/
def soundList (r : Region) (low stop : Nat) (unlisted listed : List Nat) :
    (current : Option Block) → Except Finding (List Nat × List Nat)
  | none => .ok (listed, unlisted)
  | some b =>
    match judged : r.judgeMember low stop unlisted listed b with
    | .error e => .error e
    | .ok next =>
      have := length_erase_lt (judgeMember_ok judged)
      r.soundList low stop (unlisted.erase b.offset) (b.offset :: listed) next
termination_by unlisted.length

end Region

namespace Report

/-- Sums up the blocks of a heap in a region of `heapSize` bytes. -/
def ofBlocks (heapSize : Nat) (blocks : List BlockView) : Report :=
  let free := blocks.filter (!·.allocated)
  let allocated := blocks.filter (·.allocated)
  { heapSize
    blocks := blocks.length
    freeBlocks := free.length
    freeBytes := (free.map (·.size)).foldl (· + ·) 0
    allocatedBytes := (allocated.map (·.size)).foldl (· + ·) 0
    largestFree := (free.map (·.size)).foldl max 0 }

end Report

namespace Heap

open Finding (ofFault)

/-- The check, with its findings and its faults in one. -/
def findings (h : Heap) : Except Finding Report := do
  let r := h.region
  let low := h.provider.low
  let stop ← ofFault (Word.add h.provider.high 1)
  if ← ofFault (r.prologueSound low stop h.prologue) then
    let blocks ← r.soundBlocks stop none h.firstBlock
    let free := (blocks.filter (!·.allocated)).map (·.offset)
    let (listed, unlisted) ← r.soundList low stop free [] h.freeList.head
    match unlisted with
    | offset :: _ => throw (.violation (.freeBlockNotListed offset))
    | [] =>
      if listed.length ≠ h.freeList.length then
        throw (.violation (.listLength listed.length h.freeList.length))
      else return Report.ofBlocks h.size blocks
  else throw (.violation (.badPrologue h.prologue.offset))

/-- Checks the heap. A report says that it is sound, a violation names the first
thing found wrong. -/
def check (h : Heap) : Except Fault (Except Violation Report) := Finding.settle h.findings

/-- Checks the heap after an operation, if its configuration says so, and logs
the answer. -/
def selfCheck (h : Heap) (operation : String) : Traced Unit := do
  if h.config.checks then
    match ← h.check with
    | .ok report => Traced.emit .trace s!"heap check after {operation}: {report.text}"
    | .error violation =>
      Traced.emit .error s!"heap check failed after {operation}: {violation.message}"

end Heap

end BoundaryTag
