import BoundaryTag.Proofs.Sound

/-!
# Freeing and allocating on lists of blocks

What freeing a stretch comes to on the lists alone: the free neighbours are cut
off the blocks before and after it (`cutLast`, `cutFirst`), and one free block
takes the place of all three (`freedBlocks`). The free list loses the neighbours
and begins with the merged block (`freedList`). Allocating a stretch frees what is
left of it, if that is enough for a block (`occupiedBlocks`, `occupiedList`).

> `held_freedBlocks`, `held_occupiedBlocks`: what becomes of the blocks in use.
>
> `Laid.join`, `Laid.split`: the block in hand can take in a neighbour, and can be
> cut in two.
-/

namespace BoundaryTag

open BlockView (block tag Covers)

/-! ## Cutting free neighbours off -/

/-- A list of blocks without the free block that ends it, and that block. -/
def cutLast (front : List BlockView) : List BlockView × Option BlockView :=
  match front.getLast? with
  | some p => if p.allocated then (front, none) else (front.dropLast, some p)
  | none => (front, none)

/-- The free block that begins a list of blocks, and the list without it. -/
def cutFirst : List BlockView → Option BlockView × List BlockView
  | [] => (none, [])
  | n :: back => if n.allocated then (none, n :: back) else (some n, back)

/-- Nothing is lost by cutting off the last block. -/
theorem cutLast_append (front : List BlockView) :
    (cutLast front).1 ++ (cutLast front).2.toList = front := by
  rcases List.eq_nil_or_concat front with rfl | ⟨front, p, rfl⟩
  · rfl
  · cases ha : p.allocated <;> simp [cutLast, ha]

/-- What is cut off is free. -/
theorem cutLast_free {front : List BlockView} :
    ∀ v ∈ (cutLast front).2, v.allocated = false := by
  rcases List.eq_nil_or_concat front with rfl | ⟨front, p, rfl⟩
  · exact fun v hv => nomatch hv
  · cases ha : p.allocated <;> simp [cutLast, ha]

/-- What is left ends with a block in use, as no two free ones are neighbours. -/
theorem cutLast_last {front : List BlockView} (h : NoFreePair front) :
    ∀ u ∈ (cutLast front).1.getLast?, u.allocated = true := by
  rcases List.eq_nil_or_concat front with rfl | ⟨front, p, rfl⟩
  · exact fun v hv => nomatch hv
  · rw [List.concat_eq_append] at h ⊢
    intro u hu
    cases ha : p.allocated
    · simp only [cutLast, List.getLast?_concat, ha, Bool.false_eq_true, if_false,
        List.dropLast_concat] at hu
      rcases (List.isChain_append.mp h).2.2 u hu p rfl with hua | hpa
      · exact hua
      · rw [ha] at hpa
        cases hpa
    · simp only [cutLast, List.getLast?_concat, ha, if_true, Option.mem_def,
        Option.some.injEq] at hu
      exact hu ▸ ha

/-- The same three facts about the first block. -/
theorem cutFirst_append (back : List BlockView) :
    (cutFirst back).1.toList ++ (cutFirst back).2 = back := by
  cases back with
  | nil => rfl
  | cons n back => cases ha : n.allocated <;> simp [cutFirst, ha]

theorem cutFirst_free {back : List BlockView} :
    ∀ v ∈ (cutFirst back).1, v.allocated = false := by
  cases back with
  | nil => exact fun v hv => nomatch hv
  | cons n back => cases ha : n.allocated <;> simp [cutFirst, ha]

theorem cutFirst_first {back : List BlockView} (h : NoFreePair back) :
    ∀ u ∈ (cutFirst back).2.head?, u.allocated = true := by
  cases back with
  | nil => exact fun v hv => nomatch hv
  | cons n back =>
    intro u hu
    cases ha : n.allocated
    · simp only [cutFirst, ha, Bool.false_eq_true, if_false] at hu
      rcases h.rel_head? hu with hna | hua
      · rw [ha] at hna
        cases hna
      · exact hua
    · simp only [cutFirst, ha, if_true, List.head?_cons, Option.mem_def,
        Option.some.injEq] at hu
      exact hu ▸ ha

/-- Nothing is cut off where a block in use lies, or none. -/
theorem cutLast_of_allocated {front : List BlockView}
    (h : ∀ u ∈ front.getLast?, u.allocated = true) : cutLast front = (front, none) := by
  rcases List.eq_nil_or_concat front with rfl | ⟨front, p, rfl⟩
  · rfl
  · rw [List.concat_eq_append] at h ⊢
    have hp : p.allocated = true := h p (List.getLast?_concat ..)
    simp [cutLast, hp]

theorem cutFirst_of_allocated {back : List BlockView}
    (h : ∀ u ∈ back.head?, u.allocated = true) : cutFirst back = (none, back) := by
  cases back with
  | nil => rfl
  | cons n back =>
    have hn : n.allocated = true := h n rfl
    simp [cutFirst, hn]

/-! ## The lists after freeing a stretch -/

/-- The free block made of `size` bytes at `off` and the free blocks beside them. -/
def mergedBlock (p : Option BlockView) (off size : Nat) (n : Option BlockView) : BlockView :=
  ⟨p.elim off (·.offset), p.elim 0 (·.size) + size + n.elim 0 (·.size), false⟩

/-- The block that results from freeing `size` bytes at `off`. -/
def freedBlock (front : List BlockView) (off size : Nat) (back : List BlockView) : BlockView :=
  mergedBlock (cutLast front).2 off size (cutFirst back).1

/-- The blocks that result from it. -/
def freedBlocks (front : List BlockView) (off size : Nat) (back : List BlockView) :
    List BlockView :=
  (cutLast front).1 ++ freedBlock front off size back :: (cutFirst back).2

/-- The free list that results from it. -/
def freedList (front : List BlockView) (off size : Nat) (back : List BlockView)
    (free : List Block) : List Block :=
  (freedBlock front off size back).block ::
    free.diff (((cutLast front).2.toList ++ (cutFirst back).1.toList).map block)

theorem held_toList_of_free {p : Option BlockView} (hp : ∀ v ∈ p, v.allocated = false) :
    held p.toList = [] := by
  cases p with
  | none => rfl
  | some v => exact held_cons_free (hp v rfl) []

/-- Freeing a stretch concerns no block in use but the one that lay there. -/
theorem held_freedBlocks (front : List BlockView) (off size : Nat) (back : List BlockView) :
    held (freedBlocks front off size back) = held front ++ held back := by
  have hfront : held front = held (cutLast front).1 := by
    conv_lhs => rw [← cutLast_append front]
    rw [held_append, held_toList_of_free cutLast_free, List.append_nil]
  have hback : held back = held (cutFirst back).2 := by
    conv_lhs => rw [← cutFirst_append back]
    rw [held_append, held_toList_of_free cutFirst_free, List.nil_append]
  rw [freedBlocks, held_append, held_cons_free rfl, hfront, hback]

/-! ## The lists after allocating a stretch -/

/-- The bytes that a block of `total` bytes keeps when `needed` are needed: what is
left over goes with it if it is too small for a block. -/
def spanned (needed total : Nat) : Nat := if 32 ≤ total - needed then needed else total

/-- The blocks that result from allocating `needed` of the `total` bytes at `off`. -/
def occupiedBlocks (front : List BlockView) (off needed total : Nat) (back : List BlockView) :
    List BlockView :=
  if 32 ≤ total - needed then
    freedBlocks (front ++ [⟨off, needed, true⟩]) (off + needed) (total - needed) back
  else front ++ ⟨off, total, true⟩ :: back

/-- The free list that results from it. -/
def occupiedList (front : List BlockView) (off needed total : Nat) (back : List BlockView)
    (free : List Block) : List Block :=
  if 32 ≤ total - needed then
    freedList (front ++ [⟨off, needed, true⟩]) (off + needed) (total - needed) back free
  else free

/-- Of a block that comes into use, the remainder does not. -/
theorem held_occupiedBlocks (front : List BlockView) (off needed total : Nat)
    (back : List BlockView) :
    held (occupiedBlocks front off needed total back) =
      held front ++ ⟨off, spanned needed total, true⟩ :: held back := by
  unfold occupiedBlocks spanned
  split
  · rw [held_freedBlocks, held_append, held_cons_allocated rfl, held_nil, List.append_assoc]
    rfl
  · rw [held_append, held_cons_allocated rfl]

/-- At least what is needed is used, and at most all there is. -/
theorem le_spanned {needed total : Nat} (h : needed ≤ total) :
    needed ≤ spanned needed total ∧ spanned needed total ≤ total := by
  unfold spanned
  split
  · exact ⟨Nat.le_refl _, h⟩
  · exact ⟨h, Nat.le_refl _⟩

/-! ## Joining and splitting the block in hand -/

namespace Region.Laid

variable {r : Region} {hand : Option Nat} {first off : Nat} {front back : List BlockView}

/-- Two neighbours can be looked upon as one block in hand. -/
theorem join {u w : BlockView} (h : r.Laid hand first (front ++ u :: w :: back))
    (hh : ∀ o ∈ hand, o = u.offset ∨ o = w.offset) (x : Bool) :
    r.Laid (some u.offset) first (front ++ ⟨u.offset, u.size + w.size, x⟩ :: back) := by
  obtain ⟨hfront, hus, hu8, hwo, hws, hw8, hback⟩ := tiling_mid.mp h.tiling
  refine ⟨h.fenced, tiling_mid.mpr ⟨hfront, ?_, ?_, ?_⟩, ?_⟩
  · show 32 ≤ u.size + w.size
    omega
  · show (u.size + w.size) % 8 = 0
    omega
  · show Tiling (u.offset + (u.size + w.size)) back _
    rwa [← Nat.add_assoc]
  · intro v hv hne
    -- a block that is neither of the two was not in hand before either
    have hfree : ∀ o ∈ hand, v.offset < u.offset ∨ w.offset < v.offset → some v.offset ≠ hand := by
      intro o ho hlt he
      rw [← he] at hh
      have := hh v.offset rfl
      omega
    have hnone : v.offset < u.offset ∨ w.offset < v.offset → some v.offset ≠ hand := by
      cases hand with
      | none => exact fun _ => nofun
      | some o => exact hfree o rfl
    rcases List.mem_append.mp hv with hv | hv
    · have := hfront.bounds hv
      exact h.framed v (by simp [hv]) (hnone (by omega))
    · rcases List.mem_cons.mp hv with rfl | hv
      · exact absurd rfl hne
      · have := hback.bounds hv
        exact h.framed v (by simp [hv]) (hnone (by omega))

/-- The block in hand splits where its front part has tags of its own; the rest stays
in hand. -/
theorem split {kept total : Nat} {x : Bool}
    (h : r.Laid (some off) first (front ++ ⟨off, total, x⟩ :: back))
    (hk : 32 ≤ kept) (hk8 : kept % 8 = 0) (hrest : 32 ≤ total - kept)
    (hf : r.Framed ⟨off, kept, true⟩) :
    r.Laid (some (off + kept)) first
      (front ++ ⟨off, kept, true⟩ :: ⟨off + kept, total - kept, true⟩ :: back) := by
  obtain ⟨hfront, ht, ht8, hback⟩ := tiling_mid.mp h.tiling
  dsimp only at hfront ht ht8 hback
  refine ⟨h.fenced, tiling_mid.mpr ⟨hfront, hk, hk8, rfl, hrest, ?_, ?_⟩, ?_⟩
  · show (total - kept) % 8 = 0
    omega
  · show Tiling (off + kept + (total - kept)) back _
    rwa [show off + kept + (total - kept) = off + total by omega]
  · intro v hv hne
    rcases List.mem_append.mp hv with hv' | hv'
    · have := hfront.bounds hv'
      apply h.framed v (by simp [hv'])
      intro he
      have := Option.some.inj he
      omega
    · rcases List.mem_cons.mp hv' with rfl | hv'
      · exact hf
      · rcases List.mem_cons.mp hv' with rfl | hv'
        · exact absurd rfl hne
        · have := hback.bounds hv'
          apply h.framed v (by simp [hv'])
          intro he
          have := Option.some.inj he
          omega

end Region.Laid

end BoundaryTag
