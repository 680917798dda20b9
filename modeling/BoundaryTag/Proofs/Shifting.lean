import BoundaryTag.Proofs.Allocator
import Mathlib.Data.List.Basic
import Mathlib.Logic.Function.Basic

/-!
# The allocator does not mind where its blocks lie

To shift a state of the allocator is to add the same number to the offsets of all blocks, to all
members of the free list and to the end of the region. Blocks are found by comparing offsets with
each other and new offsets are made by adding sizes to old ones, so everything that the allocator
does commutes with a shift. Sizes, marks and the order of both lists do not change.

> `freedBlocks_shift`, `freedList_shift`, `occupiedBlocks_shift`, `occupiedList_shift`: on lists of
> blocks.
>
> `Outline.release_shift`, `take_shift`, `shrink_shift`, `absorb_shift`, `extend_shift`: on
> outlines.
>
> `Allocator.allocate_shift`, `free_shift`, `reallocate_shift`: the operations, and their answers.
-/

namespace BoundaryTag

open BlockView (block)

/-- The block so many bytes further on. -/
def Block.shift (k : Nat) (b : Block) : Block := ⟨b.offset + k⟩

/-- A block of the same size and with the same mark, so many bytes further on. -/
def BlockView.shift (k : Nat) (v : BlockView) : BlockView := { v with offset := v.offset + k }

variable {k : Nat}

/-- Different blocks are still different further on. -/
theorem Block.shift_injective (k : Nat) : Function.Injective (Block.shift k) := by
  intro b c he
  have hoff : b.offset + k = c.offset + k := congrArg Block.offset he
  exact Block.ext (by omega)

theorem Block.shift_inj {b c : Block} : b.shift k = c.shift k ↔ b = c :=
  (Block.shift_injective k).eq_iff

@[simp] theorem BlockView.offset_shift (v : BlockView) : (v.shift k).offset = v.offset + k := rfl

@[simp] theorem BlockView.size_shift (v : BlockView) : (v.shift k).size = v.size := rfl

@[simp] theorem BlockView.allocated_shift (v : BlockView) :
    (v.shift k).allocated = v.allocated := rfl

@[simp] theorem BlockView.block_shift (v : BlockView) : (v.shift k).block = v.block.shift k := rfl

/-! ## Lists of blocks -/

section

variable (front back : List BlockView) (off size needed total : Nat) (free : List Block)

/-- The free block that ends a list of blocks ends the shifted list. -/
theorem cutLast_shift : cutLast (front.map (·.shift k)) =
    ((cutLast front).1.map (·.shift k), (cutLast front).2.map (·.shift k)) := by
  rcases List.eq_nil_or_concat front with rfl | ⟨front, p, rfl⟩
  · rfl
  · cases ha : p.allocated <;> simp [cutLast, ha]

/-- The free block that begins a list of blocks begins the shifted list. -/
theorem cutFirst_shift : cutFirst (back.map (·.shift k)) =
    ((cutFirst back).1.map (·.shift k), (cutFirst back).2.map (·.shift k)) := by
  cases back with
  | nil => rfl
  | cons n back => cases ha : n.allocated <;> simp [cutFirst, ha]

/-- Neighbours merge to a block of the same size further on. -/
theorem mergedBlock_shift (p n : Option BlockView) :
    mergedBlock (p.map (·.shift k)) (off + k) size (n.map (·.shift k)) =
      (mergedBlock p off size n).shift k := by
  cases p <;> cases n <;> rfl

/-- **The block that freeing leaves** is the shifted one, and the next two say so of all blocks and
of the free list. -/
theorem freedBlock_shift :
    freedBlock (front.map (·.shift k)) (off + k) size (back.map (·.shift k)) =
      (freedBlock front off size back).shift k := by
  rw [freedBlock, cutLast_shift, cutFirst_shift, mergedBlock_shift, freedBlock]

theorem freedBlocks_shift :
    freedBlocks (front.map (·.shift k)) (off + k) size (back.map (·.shift k)) =
      (freedBlocks front off size back).map (·.shift k) := by
  rw [freedBlocks, freedBlock_shift, cutLast_shift, cutFirst_shift, freedBlocks, List.map_append,
    List.map_cons]

/-- The members that merge leave the list by their places, and a shift keeps places apart. -/
theorem freedList_shift :
    freedList (front.map (·.shift k)) (off + k) size (back.map (·.shift k))
        (free.map (·.shift k)) =
      (freedList front off size back free).map (·.shift k) := by
  have hmerged : (((cutLast front).2.map (·.shift k)).toList ++
      ((cutFirst back).1.map (·.shift k)).toList).map block =
      (((cutLast front).2.toList ++ (cutFirst back).1.toList).map block).map (·.shift k) := by
    cases (cutLast front).2 <;> cases (cutFirst back).1 <;> rfl
  rw [freedList, freedBlock_shift, cutLast_shift, cutFirst_shift, hmerged, freedList, List.map_cons,
    List.map_diff (Block.shift_injective k)]
  rfl

/-- **The blocks around one that comes into use.** Whether a remainder is split off depends on sizes
alone, so both sides take the same branch. -/
theorem occupiedBlocks_shift :
    occupiedBlocks (front.map (·.shift k)) (off + k) needed total (back.map (·.shift k)) =
      (occupiedBlocks front off needed total back).map (·.shift k) := by
  unfold occupiedBlocks
  split
  · rw [← freedBlocks_shift, List.map_append, Nat.add_right_comm]
    rfl
  · rw [List.map_append]
    rfl

/-- The free list around it: a remainder goes to the front on both sides. -/
theorem occupiedList_shift :
    occupiedList (front.map (·.shift k)) (off + k) needed total (back.map (·.shift k))
        (free.map (·.shift k)) =
      (occupiedList front off needed total back free).map (·.shift k) := by
  unfold occupiedList
  split
  · rw [← freedList_shift, List.map_append, Nat.add_right_comm]
    rfl
  · rfl

end

/-! ## Outlines -/

namespace Outline

variable (o : Outline) (b : Block) (needed size bytes : Nat)

/-- The outline so many bytes further on. -/
def shift (k : Nat) (o : Outline) : Outline where
  blocks := o.blocks.map (·.shift k)
  free := o.free.map (·.shift k)

/-- The blocks before one, and `behind_shift` those behind it. -/
theorem before_shift : (o.shift k).before (b.shift k) = (o.before b).map (·.shift k) := by
  unfold before shift
  rw [List.takeWhile_map]
  simp [Function.comp_def, Block.shift_inj]

theorem behind_shift : (o.shift k).behind (b.shift k) = (o.behind b).map (·.shift k) := by
  unfold behind shift
  rw [List.dropWhile_map, List.map_tail]
  simp [Function.comp_def, Block.shift_inj]

/-- Sizes do not change, so what fits does not either (`firstFit_shift`). -/
theorem sizeOf_shift : (o.shift k).sizeOf (b.shift k) = o.sizeOf b := by
  unfold sizeOf shift
  rw [List.find?_map]
  simp only [Function.comp_def, BlockView.block_shift, Block.shift_inj]
  cases o.blocks.find? (·.block = b) <;> rfl

theorem firstFit_shift : (o.shift k).firstFit needed = (o.firstFit needed).map (·.shift k) := by
  unfold firstFit
  rw [show (o.shift k).free = o.free.map (·.shift k) from rfl, List.find?_map]
  simp only [Function.comp_def, sizeOf_shift]

/-- Members leave the list by their places. -/
theorem erase_shift : (o.shift k).free.erase (b.shift k) = (o.free.erase b).map (·.shift k) :=
  (List.map_erase (Block.shift_injective k) o.free).symm

/-- **Freeing a block** of the outline. The next four are the other changes to an outline. -/
theorem release_shift : (o.shift k).release (b.shift k) = (o.release b).shift k := by
  unfold release
  rw [before_shift, behind_shift, sizeOf_shift]
  exact congrArg₂ mk (freedBlocks_shift ..) (freedList_shift ..)

theorem take_shift : (o.shift k).take (b.shift k) needed = (o.take b needed).shift k := by
  unfold take
  rw [before_shift, behind_shift, sizeOf_shift, erase_shift]
  exact congrArg₂ mk (occupiedBlocks_shift ..) (occupiedList_shift ..)

theorem shrink_shift : (o.shift k).shrink (b.shift k) needed = (o.shrink b needed).shift k := by
  unfold shrink
  rw [before_shift, behind_shift, sizeOf_shift]
  exact congrArg₂ mk (occupiedBlocks_shift ..) (occupiedList_shift ..)

theorem absorb_shift (next : BlockView) :
    (o.shift k).absorb (b.shift k) (next.shift k) needed = (o.absorb b next needed).shift k := by
  unfold absorb
  rw [before_shift, behind_shift, sizeOf_shift, BlockView.block_shift, erase_shift, ← List.map_tail]
  exact congrArg₂ mk (occupiedBlocks_shift ..) (occupiedList_shift ..)

/-- The new bytes lie behind the last block on both sides, and merge with it on both or on neither.
-/
theorem extend_shift : (o.shift k).extend (size + k) bytes = (o.extend size bytes).shift k :=
  congrArg₂ mk (freedBlocks_shift o.blocks [] size bytes)
    (freedList_shift o.blocks [] size bytes o.free)

end Outline

/-! ## The allocator -/

namespace Allocator

variable (m : Allocator) (t : Terms) (b : Block) (request needed bytes : Nat)

/-- The state of the allocator so many bytes further on. -/
def shift (k : Nat) (m : Allocator) : Allocator where
  outline := m.outline.shift k
  size := m.size + k
  extensions := m.extensions

/-- A free block comes into use; `vacate_shift` is the way back. -/
theorem occupy_shift : (m.shift k).occupy (b.shift k) needed = (m.occupy b needed).shift k :=
  congrArg (mk · (m.size + k) m.extensions) (m.outline.take_shift b needed)

theorem vacate_shift : (m.shift k).vacate (b.shift k) = (m.vacate b).shift k :=
  congrArg (mk · (m.size + k) m.extensions) (m.outline.release_shift b)

/-- New memory, and where the block is that it ends up in. -/
theorem grow_shift :
    (m.shift k).grow bytes = ((m.grow bytes).1.shift k, (m.grow bytes).2.shift k) := by
  have hblock : (freedBlock (m.outline.shift k).blocks (m.size + k) bytes []).block =
      (freedBlock m.outline.blocks m.size bytes []).block.shift k :=
    congrArg block (freedBlock_shift m.outline.blocks [] m.size bytes)
  have houtline := m.outline.extend_shift m.size bytes (k := k)
  unfold grow
  dsimp only [shift]
  rw [hblock, houtline, Nat.add_right_comm]

/-- **Allocating** further on. -/
theorem allocate_shift : (m.shift k).allocate t request =
    ((m.allocate t request).1.map (·.shift k), (m.allocate t request).2.shift k) := by
  by_cases hn : Word.limit ≤ leastSpan request
  · rw [allocate_overflow hn, allocate_overflow hn]
    rfl
  · have hn := Nat.lt_of_not_le hn
    have hfit := m.outline.firstFit_shift (leastSpan request) (k := k)
    cases hf : m.outline.firstFit (leastSpan request) with
    | some b =>
      rw [hf] at hfit
      rw [allocate_fit hn hf, allocate_fit hn hfit, occupy_shift]
      rfl
    | none =>
      rw [hf] at hfit
      cases hg : t.grants (max (leastSpan request) t.chunk) with
      | false =>
        rw [allocate_refused hn hf hg, allocate_refused hn hfit hg]
        rfl
      | true =>
        rw [allocate_grow hn hf hg, allocate_grow hn hfit hg, grow_shift, occupy_shift]
        rfl

/-- **Freeing** further on. -/
theorem free_shift (handle : Option Handle) : (m.shift k).free (handle.map (·.shift k)) =
    ((m.free handle).1, (m.free handle).2.shift k) := by
  cases handle with
  | none => rfl
  | some b => exact congrArg (Prod.mk _) (m.vacate_shift b)

/-- To a new place: what `allocate_shift` gives, and then the old block is freed. -/
theorem relocate_shift : (m.shift k).relocate t (b.shift k) request =
    ((m.relocate t b request).1.map (·.shift k), (m.relocate t b request).2.shift k) := by
  unfold relocate
  rw [allocate_shift]
  cases m.allocate t request with
  | mk answer m' =>
    cases answer with
    | error e => rfl
    | ok target => exact congrArg (Prod.mk _) (m'.vacate_shift b)

/-- In its place if the block is long enough or its free neighbour makes it so, which sizes and
marks decide; else elsewhere. -/
theorem resize_shift : (m.shift k).resize t (b.shift k) request =
    ((m.resize t b request).1.map (·.shift k), (m.resize t b request).2.shift k) := by
  have hsize : (m.shift k).outline.sizeOf (b.shift k) = m.outline.sizeOf b :=
    m.outline.sizeOf_shift b
  have hbehind : (m.shift k).outline.behind (b.shift k) =
      (m.outline.behind b).map (·.shift k) := m.outline.behind_shift b
  -- where the block keeps its place, only the outline is another one
  have hplace : ∀ {o o' : Outline}, o' = o.shift k →
      (Except.ok (b.shift k), { m.shift k with outline := o' }) =
        ((Except.ok b : Except AllocError Handle).map (·.shift k),
          ({ m with outline := o } : Allocator).shift k) := by
    intro o o' ho
    subst ho
    rfl
  unfold resize
  dsimp only
  rw [hsize, hbehind]
  by_cases hlong : leastSpan request ≤ m.outline.sizeOf b
  · rw [if_pos hlong, if_pos hlong]
    exact hplace (m.outline.shrink_shift b _)
  · rw [if_neg hlong, if_neg hlong]
    cases m.outline.behind b with
    | nil => exact m.relocate_shift t b request
    | cons next rest =>
      have hsame : ((next.shift k).allocated = false ∧
          leastSpan request ≤ m.outline.sizeOf b + (next.shift k).size) ↔
          (next.allocated = false ∧ leastSpan request ≤ m.outline.sizeOf b + next.size) := .rfl
      rw [List.map_cons]
      dsimp only
      by_cases hb : next.allocated = false ∧ leastSpan request ≤ m.outline.sizeOf b + next.size
      · rw [if_pos (hsame.mpr hb), if_pos hb]
        exact hplace (m.outline.absorb_shift b _ next)
      · rw [if_neg (mt hsame.mp hb), if_neg hb]
        exact m.relocate_shift t b request

/-- **Reallocating** further on. -/
theorem reallocate_shift (handle : Option Handle) :
    (m.shift k).reallocate t (handle.map (·.shift k)) request =
      ((m.reallocate t handle request).1.map (·.map (·.shift k)),
        (m.reallocate t handle request).2.shift k) := by
  cases handle with
  | none =>
    dsimp only [reallocate, Option.map_none]
    rw [allocate_shift]
    cases (m.allocate t request).1 <;> rfl
  | some b =>
    dsimp only [reallocate, Option.map_some]
    split
    · exact congrArg (Prod.mk _) (m.vacate_shift b)
    · split
      · rfl
      · rw [resize_shift]
        cases (m.resize t b request).1 <;> rfl

end Allocator

end BoundaryTag
