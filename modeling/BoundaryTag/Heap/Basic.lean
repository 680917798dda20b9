import BoundaryTag.Arena.Coalesce
import BoundaryTag.Provider

/-!
# The heap

A heap lies at the end of a provider's region:

    | padding | prologue | block | block | … | block | epilogue |

The prologue is a header and a footer without payload, marked allocated; the
epilogue is a header of size zero, marked allocated, and the last word of the
region. Between them lie the blocks, side by side. The two ends spare every
walk a special case: the first block has an allocated predecessor and the last
one an allocated successor.

Notes on `Heap` and `HeapConfig`:
- A `Handle` has an offset and so has a block, so handles are blocks here.
- `AllocError` has the errors of the same names; `initFailed` is `InitFail`, and `cause?`
  is `source`.
- `Config` is `HeapConfig`, with `chunk_size` and `check_after_each_op` as `chunk` and
  `checks`. `normalized` is `normalized`, where `MAX_CHUNK_SIZE` is
  `Word.limit - alignment`.
- `size` is `heap_size`, `extensions` is `extend_count`, and `initialSize` is
  `INITIAL_HEAP_SIZE`.
- `blockSizeFor?` is `adjusted_size`. `leastSpan` is the same number, word or not.
-/

namespace BoundaryTag

/-- What callers hold of an allocation: the block itself. Nothing about a handle
is believed before its tags were looked at. -/
abbrev Handle := Block

/-- Why an operation was turned down. -/
inductive AllocError where
  /-- The provider refused the memory to build the heap in. -/
  | initFailed (cause : ProviderError)
  /-- No free block fits and the provider refused to grow the heap. -/
  | outOfMemory (requested : Nat)
  /-- The handle names a free block. -/
  | doubleFree (handle : Handle)
  /-- The handle names no block. -/
  | invalidHandle (handle : Handle)
deriving DecidableEq, Repr

namespace AllocError

open Numeral (hex)

def message : AllocError → String
  | initFailed cause => s!"heap initialization failed: {cause.message}"
  | outOfMemory requested => s!"out of memory while allocating {requested} bytes"
  | doubleFree handle => s!"double free of block {hex handle.offset}"
  | invalidHandle handle => s!"invalid handle {hex handle.offset}"

/-- The provider's error behind this one, if there is one. -/
def cause? : AllocError → Option ProviderError
  | initFailed cause => some cause
  | _ => none

end AllocError

/-- How a heap grows and whether it watches over itself. -/
structure Config where
  /-- The least number of bytes that is requested when the heap grows. -/
  chunk : Nat
  /-- Whether the heap is checked after every operation that changes it. -/
  checks : Bool
deriving DecidableEq, Repr

namespace Config

/-- The bytes by which a heap grows if nothing else was chosen. -/
def defaultChunk : Nat := 4096

/-- Growth by 4 KiB, no checks. -/
def default : Config := ⟨defaultChunk, false⟩

/-- The configuration with a chunk that can be a block: a multiple of the
alignment, the greatest one there is if the chunk rounds up to none, and not
smaller than the least block. -/
def normalized (c : Config) : Config :=
  { c with chunk := max ((align? c.chunk).getD (Word.limit - alignment)) minBlockSize }

end Config

/-- A heap in the region of a provider. -/
structure Heap where
  provider : Provider
  config : Config
  prologue : Block
  freeList : FreeList
  /-- How often the heap has grown since it was built. -/
  extensions : Nat

namespace Heap

/-- The bytes requested to build a heap, padding apart: prologue, one least
block, epilogue, and one word that no block uses. -/
def initialSize : Nat := 64

/-- The bytes that the heap lies in. -/
def region (h : Heap) : Region := h.provider.region

/-- The size of the provider's region. -/
def size (h : Heap) : Nat := h.region.size

/-- The region and the free list in it. -/
def arena (h : Heap) : Arena := ⟨h.region, h.freeList⟩

/-- The heap with another region in place of its own. -/
def withRegion (h : Heap) (region : Region) : Heap :=
  { h with provider := { h.provider with region } }

/-- The heap with another region and free list in place of its own. -/
def withArena (h : Heap) (a : Arena) : Heap := { h.withRegion a.region with freeList := a.freeList }

/-- The block behind the prologue. -/
def firstBlock (h : Heap) : Block := ⟨h.prologue.offset + overhead⟩

@[simp] theorem arena_withArena (h : Heap) (a : Arena) : (h.withArena a).arena = a := rfl

@[simp] theorem withArena_arena (h : Heap) : h.withArena h.arena = h := rfl

@[simp] theorem withArena_withArena (h : Heap) (a b : Arena) :
    (h.withArena a).withArena b = h.withArena b := rfl

end Heap

/-- The size of the block that serves a request: payload and tags, rounded up to
the alignment, and at least the least block; `none` if that is no word. -/
def blockSizeFor? (request : Nat) : Option Nat :=
  if request + overhead < Word.limit then
    (align? (request + overhead)).map (max · minBlockSize)
  else none

/-- A block size that serves a request is a multiple of eight, leaves room for
the payload, and is less than eight bytes, or the least block, above the need. -/
theorem blockSizeFor?_eq_some {request needed : Nat} (h : blockSizeFor? request = some needed) :
    needed % 8 = 0 ∧ 32 ≤ needed ∧ request + 16 ≤ needed ∧ needed < max (request + 24) 33 ∧
      needed < Word.limit := by
  unfold blockSizeFor? at h
  split at h
  · obtain ⟨rounded, hr, hn⟩ := Option.map_eq_some_iff.mp h
    have hr := align?_eq_some hr
    rw [Word.limit_eq] at *
    simp only [overhead, minBlockSize] at *
    omega
  · cases h

/-- The bytes that a block for a request takes: payload and tags, rounded up to the
alignment, and no less than the least block. -/
def leastSpan (request : Nat) : Nat :=
  max ((request + overhead + (alignment - 1)) / alignment * alignment) minBlockSize

/-- A block is sized to what its request takes, if that is a word. -/
theorem blockSizeFor?_eq (request : Nat) :
    blockSizeFor? request =
      if leastSpan request < Word.limit then some (leastSpan request) else none := by
  unfold blockSizeFor? align? leastSpan
  rw [Word.limit_eq]
  simp only [overhead, alignment, minBlockSize]
  by_cases hfits : request + 16 + (8 - 1) < 18446744073709551616
  · rw [if_pos (by omega), if_pos hfits, if_pos (by omega)]
    rfl
  · rw [if_neg (by omega : ¬ max _ _ < _)]
    split <;> rfl

theorem blockSizeFor?_eq_some_iff {request needed : Nat} :
    blockSizeFor? request = some needed ↔
      leastSpan request < Word.limit ∧ leastSpan request = needed := by
  rw [blockSizeFor?_eq]
  split <;> simp [*]

theorem blockSizeFor?_eq_none_iff {request : Nat} :
    blockSizeFor? request = none ↔ Word.limit ≤ leastSpan request := by
  rw [blockSizeFor?_eq]
  split
  · next hlt => exact iff_of_false nofun (Nat.not_le.mpr hlt)
  · next hge => exact iff_of_true rfl (Nat.le_of_not_lt hge)

end BoundaryTag
