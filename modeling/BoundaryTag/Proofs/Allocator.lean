import BoundaryTag.Heap.Basic
import BoundaryTag.Proofs.Outline

/-!
# The allocator on lists

What a heap does, with no bytes in it. The state of an `Allocator` is the list of blocks by
their addresses, the free ones in the order of the free list, and two numbers. All that it
has to be told from outside are its `Terms`: how much it grows by at least, and which
requests for more memory would be granted now.

The order of the free list is part of the state because the first fit decides: a block that
is freed, split off or appended goes to the front, and what is merged into it goes from
wherever it was.
-/

namespace BoundaryTag

/-- The blocks and the free list, the bytes that the blocks lie in, and how often these
have become more. -/
structure Allocator where
  outline : Outline
  size : Nat
  extensions : Nat
deriving DecidableEq, Repr

/-- How an allocator gets more memory. -/
structure Terms where
  /-- The least number of bytes to ask for. -/
  chunk : Nat
  /-- Whether a request for so many bytes would be granted. -/
  grants : Nat → Bool

namespace Allocator

variable {m : Allocator} {t : Terms} {request : Nat} {b : Block}

/-- The front of the free block `b` comes into use. What is left of it is split off if that
makes a block, and merged with a free block behind it. -/
def occupy (m : Allocator) (b : Block) (needed : Nat) : Allocator :=
  { m with outline := m.outline.take b needed }

/-- The block `b` is free again, and merged with its free neighbours. -/
def vacate (m : Allocator) (b : Block) : Allocator := { m with outline := m.outline.release b }

/-- So many bytes are appended as a free block, which is merged with a free one before it. -/
def grow (m : Allocator) (bytes : Nat) : Block × Allocator :=
  ((freedBlock m.outline.blocks m.size bytes []).block,
    ⟨m.outline.extend m.size bytes, m.size + bytes, m.extensions + 1⟩)

/-- The first free block that is long enough serves the request; if there is none, new
memory does. -/
def allocate (m : Allocator) (t : Terms) (request : Nat) : Except AllocError Handle × Allocator :=
  let needed := leastSpan request
  if Word.limit ≤ needed then (.error (.outOfMemory request), m)
  else
    match m.outline.firstFit needed with
    | some b => (.ok b, m.occupy b needed)
    | none =>
      let bytes := max needed t.chunk
      if t.grants bytes then
        let (b, m) := m.grow bytes
        (.ok b, m.occupy b needed)
      else (.error (.outOfMemory request), m)

/-- To free nothing is to do nothing. -/
def free (m : Allocator) (handle : Option Handle) : Except AllocError Unit × Allocator :=
  (.ok (), handle.elim m m.vacate)

/-- The block moves: another one is allocated, and then it is freed. -/
def relocate (m : Allocator) (t : Terms) (b : Block) (request : Nat) :
    Except AllocError Handle × Allocator :=
  match m.allocate t request with
  | (.error e, m) => (.error e, m)
  | (.ok target, m) => (.ok target, m.vacate b)

/-- The block `b` stays where it is if it is long enough, or if it is together with a free
block behind it. A surplus is split off if it makes a block. -/
def resize (m : Allocator) (t : Terms) (b : Block) (request : Nat) :
    Except AllocError Handle × Allocator :=
  let needed := leastSpan request
  if needed ≤ m.outline.sizeOf b then (.ok b, { m with outline := m.outline.shrink b needed })
  else
    match m.outline.behind b with
    | [] => m.relocate t b request
    | next :: _ =>
      if next.allocated = false ∧ needed ≤ m.outline.sizeOf b + next.size then
        (.ok b, { m with outline := m.outline.absorb b next needed })
      else m.relocate t b request

/-- Without a handle to reallocate is to allocate, and without bytes it is to free. -/
def reallocate (m : Allocator) (t : Terms) (handle : Option Handle) (request : Nat) :
    Except AllocError (Option Handle) × Allocator :=
  match handle with
  | none => ((m.allocate t request).1.map some, (m.allocate t request).2)
  | some b =>
    if request = 0 then (.ok none, m.vacate b)
    else if Word.limit ≤ leastSpan request then (.error (.outOfMemory request), m)
    else ((m.resize t b request).1.map some, (m.resize t b request).2)

/-! ## The four ends of an allocation -/

theorem allocate_overflow (h : Word.limit ≤ leastSpan request) :
    m.allocate t request = (.error (.outOfMemory request), m) :=
  if_pos h

theorem allocate_fit (h : leastSpan request < Word.limit)
    (hf : m.outline.firstFit (leastSpan request) = some b) :
    m.allocate t request = (.ok b, m.occupy b (leastSpan request)) := by
  unfold allocate
  dsimp only
  rw [if_neg (Nat.not_le.mpr h), hf]

theorem allocate_grow (h : leastSpan request < Word.limit)
    (hf : m.outline.firstFit (leastSpan request) = none)
    (hg : t.grants (max (leastSpan request) t.chunk) = true) :
    m.allocate t request = (.ok (m.grow (max (leastSpan request) t.chunk)).1,
      (m.grow (max (leastSpan request) t.chunk)).2.occupy
        (m.grow (max (leastSpan request) t.chunk)).1 (leastSpan request)) := by
  unfold allocate
  dsimp only
  rw [if_neg (Nat.not_le.mpr h), hf]
  dsimp only
  rw [if_pos hg]

/-- A request for 100 bytes takes 120. Of the 4096 bytes that are appended, and the 32 free
ones before them, the rest is free and the only member of the list. -/
example : (⟨⟨[⟨32, 32, false⟩], [⟨32⟩]⟩, 64, 0⟩ : Allocator).allocate ⟨4096, fun _ => true⟩ 100 =
    (.ok ⟨32⟩, ⟨⟨[⟨32, 120, true⟩, ⟨152, 4008, false⟩], [⟨152⟩]⟩, 4160, 1⟩) := by
  decide +kernel

theorem allocate_refused (h : leastSpan request < Word.limit)
    (hf : m.outline.firstFit (leastSpan request) = none)
    (hg : t.grants (max (leastSpan request) t.chunk) = false) :
    m.allocate t request = (.error (.outOfMemory request), m) := by
  unfold allocate
  dsimp only
  rw [if_neg (Nat.not_le.mpr h), hf]
  dsimp only
  rw [if_neg (by rw [hg]; exact nofun)]

end Allocator

end BoundaryTag
