import BoundaryTag.Heap.Check

/-!
# Building a heap

A heap is laid out behind whatever bytes the provider holds already, after
padding to the next multiple of the alignment: the prologue, one least block,
which is free and the only member of the free list, and the epilogue. The first
word of the stretch stays unused, so that offsets come out aligned.

Notes on `with_config`: `build` is the whole of it, and `layOut` what it writes before the
heap is put together. `init` is `build` with the default configuration.
-/

namespace BoundaryTag.Heap

open Numeral (hex)

/-- Writes prologue, first block and epilogue behind `start`, and lists the
block. Answers the prologue, the first block, and the arena. -/
def layOut (r : Region) (start : Nat) : Traced (Block × Block × Arena) := do
  let prologue : Block := ⟨← Word.add start overhead⟩
  let r ← prologue.mark r ⟨overhead, true⟩
  let first ← prologue.following r
  let r ← first.mark r ⟨minBlockSize, false⟩
  let epilogue ← first.following r
  let r ← epilogue.markHeader r ⟨0, true⟩
  let arena ← Arena.push ⟨r, .empty⟩ first
  return (prologue, first, arena)

/-- Builds a heap on a provider. -/
def build (p : Provider) (config : Config) : Traced (Except AllocError Heap) := do
  let config := config.normalized
  let padding ← Word.sub (← align p.region.size) p.region.size
  let (granted, p) ← p.extend (← Word.add padding initialSize)
  match granted with
  | .error cause =>
    Traced.emit .warn s!"heap init failed: {cause.message}"
    return .error (.initFailed cause)
  | .ok base =>
    let start ← Word.add base padding
    let (prologue, first, arena) ← layOut p.region start
    Traced.emit .debug (s!"heap initialized at {hex start}, first block {hex first.offset}, " ++
      s!"chunk size {config.chunk}")
    let provider := { p with region := arena.region }
    let heap : Heap := { provider, config, prologue, freeList := arena.freeList, extensions := 0 }
    heap.selfCheck "init"
    return .ok heap

end BoundaryTag.Heap
