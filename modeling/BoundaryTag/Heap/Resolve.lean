import BoundaryTag.Heap.Build

/-!
# From handles to payloads

A handle is accepted when it lies in the heap, is aligned, has a header whose
size makes a block that ends before the epilogue, a footer that agrees with the
header, and the mark of an allocated block. `resolve` tries these in turn; all
that reaches a payload goes through it.

Notes on `validate` and the payloads:
- `resolve` is `validate`. `framed` is its second condition, evaluated in the same order,
  and `reject` is a warning with the error behind it.
- `usableSize` and `payload` are `usable_size` and `payload`.
- `payload_mut` hands the payload out to be changed. What a caller does with it is part
  of the operation here: `fill` sets bytes of it, `storeWord` a word.
-/

namespace BoundaryTag.Heap

open Numeral (hex)

/-- Whether a header at `b` stands for a block: large enough, not longer than
the region, and with a footer that repeats it. -/
def framed (h : Heap) (b : Block) (header : Nat) : Except Fault Bool := do
  let size := (Tag.ofWord header).size
  if size < minBlockSize ∨ Word.limit ≤ b.offset + size ∨ h.size < b.offset + size then
    return false
  else return (← b.footerWord h.region) = header

/-- Turns a handle down. -/
def reject (handle : Handle) (reason : String) (error : AllocError) :
    Traced (Except AllocError Block) := do
  Traced.emit .warn s!"rejected handle {hex handle.offset}: {reason}"
  return .error error

/-- The allocated block that a handle names, if it names one. -/
def resolve (h : Heap) (handle : Handle) : Traced (Except AllocError Block) := do
  if handle.offset < h.firstBlock.offset ∨ handle.offset % alignment ≠ 0 ∨
      h.size ≤ handle.offset then
    reject handle "outside heap or misaligned" (.invalidHandle handle)
  else
    let header ← handle.headerWord h.region
    if ← h.framed handle header then
      if (Tag.ofWord header).allocated then return .ok handle
      else reject handle "block is already free" (.doubleFree handle)
    else reject handle "not a block boundary" (.invalidHandle handle)

/-- The number of payload bytes behind a handle. -/
def usableSize (h : Heap) (handle : Handle) : Traced (Except AllocError Nat) := do
  match ← h.resolve handle with
  | .error e => return .error e
  | .ok b => return .ok (← b.payloadSize h.region)

/-- The payload behind a handle. -/
def payload (h : Heap) (handle : Handle) : Traced (Except AllocError ByteArray) := do
  match ← h.resolve handle with
  | .error e => return .error e
  | .ok b =>
    let (start, stop) ← b.payloadBounds h.region
    return .ok (← h.region.slice start stop)

/-- Sets byte `first + i` of a payload to `value i`, for every `i` below
`count`, as far as the payload goes, and answers how many bytes were set. -/
def fill (h : Heap) (handle : Handle) (first count : Nat) (value : Nat → UInt8) :
    Traced (Except AllocError Nat × Heap) := do
  match ← h.resolve handle with
  | .error e => return (.error e, h)
  | .ok b =>
    let (start, stop) ← b.payloadBounds h.region
    let _ ← h.region.slice start stop
    let count := min count (stop - start - first)
    return (.ok count, h.withRegion (h.region.put (start + first) value count))

/-- Stores a word in a payload, `first` bytes from its beginning; a word that
does not fit in is a fault. -/
def storeWord (h : Heap) (handle : Handle) (first value : Nat) :
    Traced (Except AllocError Unit × Heap) := do
  match ← h.resolve handle with
  | .error e => return (.error e, h)
  | .ok b =>
    let (start, stop) ← b.payloadBounds h.region
    let bytes ← h.region.slice start stop
    let inner ← Region.writeWord ⟨bytes⟩ first value
    return (.ok (), h.withRegion (h.region.put start inner.byte (stop - start)))

end BoundaryTag.Heap
