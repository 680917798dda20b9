import BoundaryTag.Proofs.Placing

/-!
# Outlines

An outline is what is left of an arena when its bytes are forgotten: the blocks in the
order of their addresses, and the free ones in the order of the list. Each operation
has a counterpart here that finds the block it is given in the list and says what
becomes of the lists.

> `release_shown`, `take_shown`, `shrink_shown`, `absorb_shown`: an arena that shows
> an outline shows its counterpart's result afterwards.
>
> `others`: the blocks in use apart from one. All counterparts keep them.
-/

namespace BoundaryTag

open BlockView (block tag Covers)
open Region (Changed Reshaped)

/-- The blocks by their addresses, and the free ones as they are listed. -/
structure Outline where
  blocks : List BlockView
  free : List Block
deriving DecidableEq, Repr

namespace Outline

/-- The blocks before `b`. -/
def before (o : Outline) (b : Block) : List BlockView := o.blocks.takeWhile (·.block ≠ b)

/-- The blocks behind `b`. -/
def behind (o : Outline) (b : Block) : List BlockView := (o.blocks.dropWhile (·.block ≠ b)).tail

/-- The bytes that `b` spans. -/
def sizeOf (o : Outline) (b : Block) : Nat := (o.blocks.find? (·.block = b)).elim 0 (·.size)

/-- The first free block, in list order, of at least so many bytes. -/
def firstFit (o : Outline) (needed : Nat) : Option Block :=
  o.free.find? fun b => decide (needed ≤ o.sizeOf b)

/-- Sets `b` free, with its free neighbours. -/
def release (o : Outline) (b : Block) : Outline where
  blocks := freedBlocks (o.before b) b.offset (o.sizeOf b) (o.behind b)
  free := freedList (o.before b) b.offset (o.sizeOf b) (o.behind b) o.free

/-- Allocates the free block `b` to a need of so many bytes. -/
def take (o : Outline) (b : Block) (needed : Nat) : Outline where
  blocks := occupiedBlocks (o.before b) b.offset needed (o.sizeOf b) (o.behind b)
  free := occupiedList (o.before b) b.offset needed (o.sizeOf b) (o.behind b) (o.free.erase b)

/-- Makes the allocated block `b` as short as `needed`, if the rest makes a block. -/
def shrink (o : Outline) (b : Block) (needed : Nat) : Outline where
  blocks := occupiedBlocks (o.before b) b.offset needed (o.sizeOf b) (o.behind b)
  free := occupiedList (o.before b) b.offset needed (o.sizeOf b) (o.behind b) o.free

/-- Lengthens the allocated block `b` to `needed` bytes with those of `next`, the free
block behind it. -/
def absorb (o : Outline) (b : Block) (next : BlockView) (needed : Nat) : Outline where
  blocks := occupiedBlocks (o.before b) b.offset needed (o.sizeOf b + next.size)
    (o.behind b).tail
  free := occupiedList (o.before b) b.offset needed (o.sizeOf b + next.size)
    (o.behind b).tail (o.free.erase next.block)

/-- Appends so many free bytes to a region of `size` bytes. -/
def extend (o : Outline) (size bytes : Nat) : Outline where
  blocks := freedBlocks o.blocks size bytes []
  free := freedList o.blocks size bytes [] o.free

/-- The blocks in use apart from `b`. -/
def others (o : Outline) (b : Block) : List BlockView := held (o.before b) ++ held (o.behind b)

/-! ## Finding a block -/

variable {o : Outline} {start stop : Nat} {v w : BlockView}

/-- What is before a block and behind it, in whatever way the list was taken apart there. -/
theorem before_behind_eq {front back : List BlockView} (h : Tiling start o.blocks stop)
    (hsplit : o.blocks = front ++ v :: back) :
    o.before v.block = front ∧ o.behind v.block = back := by
  have hv : v ∈ o.blocks := hsplit ▸ List.mem_append_right _ (List.mem_cons_self ..)
  -- the blocks before it have smaller offsets, so none is mistaken for it
  have hfront : ∀ u ∈ front, (decide (u.block ≠ v.block)) = true := by
    intro u hu
    have hu' : u ∈ o.blocks := hsplit ▸ List.mem_append_left _ hu
    have hle := (List.pairwise_append.mp (hsplit ▸ h.pairwise)).2.2 u hu v (List.mem_cons_self ..)
    have hs := (h.bounds hu').2.2.1
    apply decide_eq_true
    intro he
    have : u.offset = v.offset := congrArg Block.offset he
    omega
  unfold before behind
  rw [hsplit, List.takeWhile_append_of_pos hfront, List.takeWhile_cons_of_neg (by simp),
    List.dropWhile_append_of_pos hfront, List.dropWhile_cons_of_neg (by simp),
    List.append_nil, List.tail_cons]
  exact ⟨rfl, rfl⟩

/-- The list of blocks falls into what is before a block, the block, and what is behind. -/
theorem blocks_eq (h : Tiling start o.blocks stop) (hv : v ∈ o.blocks) :
    o.blocks = o.before v.block ++ v :: o.behind v.block := by
  obtain ⟨front, back, hsplit⟩ := List.append_of_mem hv
  obtain ⟨hfront, hback⟩ := before_behind_eq h hsplit
  rw [hfront, hback, hsplit]

/-- A block is found by its place. -/
theorem sizeOf_eq (h : Tiling start o.blocks stop) (hv : v ∈ o.blocks) :
    o.sizeOf v.block = v.size := by
  have hfound : ∃ u, o.blocks.find? (·.block = v.block) = some u := by
    cases hfind : o.blocks.find? (·.block = v.block) with
    | some u => exact ⟨u, rfl⟩
    | none => exact absurd (List.find?_eq_none.mp hfind v hv) (by simp)
  obtain ⟨u, hfind⟩ := hfound
  have he : u.block = v.block := by simpa using List.find?_some hfind
  have huv := h.eq_of_offset_eq (List.mem_of_find?_eq_some hfind) hv (congrArg Block.offset he)
  rw [sizeOf, hfind, huv]
  rfl

/-! ## The blocks in use -/

/-- The blocks in use are this one, if it is in use, and the others. -/
theorem held_eq_of_allocated (h : Tiling start o.blocks stop) (hv : v ∈ o.blocks)
    (ha : v.allocated = true) : (held o.blocks).Perm (v :: o.others v.block) := by
  rw [blocks_eq h hv, held_append, held_cons_allocated ha]
  exact List.perm_middle

theorem held_eq_of_free (h : Tiling start o.blocks stop) (hv : v ∈ o.blocks)
    (ha : v.allocated = false) : held o.blocks = o.others v.block := by
  conv_lhs => rw [blocks_eq h hv, held_append, held_cons_free ha]
  rfl

/-- What is in use after each of the five changes. -/
theorem held_release (o : Outline) (b : Block) : held (o.release b).blocks = o.others b :=
  held_freedBlocks ..

theorem held_take (o : Outline) (b : Block) (needed : Nat) :
    (held (o.take b needed).blocks).Perm
      (⟨b.offset, spanned needed (o.sizeOf b), true⟩ :: o.others b) := by
  rw [take, held_occupiedBlocks]
  exact List.perm_middle

theorem held_shrink (o : Outline) (b : Block) (needed : Nat) :
    (held (o.shrink b needed).blocks).Perm
      (⟨b.offset, spanned needed (o.sizeOf b), true⟩ :: o.others b) :=
  held_take o b needed

theorem held_absorb {b : Block} {next : BlockView} {rest : List BlockView} (needed : Nat)
    (hb : o.behind b = next :: rest) (hn : next.allocated = false) :
    (held (o.absorb b next needed).blocks).Perm
      (⟨b.offset, spanned needed (o.sizeOf b + next.size), true⟩ :: o.others b) := by
  rw [absorb, held_occupiedBlocks, others, hb, held_cons_free hn, List.tail_cons]
  exact List.perm_middle

theorem held_extend (o : Outline) (size bytes : Nat) :
    held (o.extend size bytes).blocks = held o.blocks := by
  rw [extend, held_freedBlocks, held_nil, List.append_nil]

end Outline

/-! ## Arenas that show an outline -/

namespace Arena

/-- The arena is sound, with the blocks and the free list of the outline. -/
abbrev Shows (a : Arena) (first : Nat) (o : Outline) : Prop := a.Sound first o.blocks o.free

variable {a : Arena} {first needed : Nat} {o : Outline} {v : BlockView}

/-- The bytes that an operation on the block `v` may change: those of free blocks and
its own. -/
def Free (o : Outline) (v : BlockView) (j : Nat) : Prop := InVacant o.blocks j ∨ v.Covers j

theorem free_of_mid (h : Tiling first o.blocks a.region.size) (hv : v ∈ o.blocks) {j : Nat}
    (hj : InVacant (o.before v.block ++ ⟨v.offset, v.size, false⟩ :: o.behind v.block) j) :
    Free o v j := by
  unfold Free
  rw [Outline.blocks_eq h hv]
  simp only [inVacant_append, inVacant_cons, true_and] at hj ⊢
  rcases hj with hj | hj | hj
  · exact .inl (.inl hj)
  · exact .inr hj
  · exact .inl (.inr (.inr hj))

/-- **A block is freed** in the bytes as in the outline, and only free bytes change. -/
theorem release_shown (h : a.Shows first o) (hv : v ∈ o.blocks) (ha : v.allocated = true) :
    ∃ a', (a.release v.block).outcome = .ok a' ∧ a'.Shows first (o.release v.block) ∧
      Changed a.region a'.region (Free o v) ∧
      ∀ q, a'.region.Marked q → q ≠ v.offset - 8 ∧ q ≠ v.offset + v.size - 16 ∧
        a.region.Marked q := by
  have htiling := h.laid.tiling
  have hsplit := Outline.blocks_eq htiling hv
  have hsound := h
  obtain ⟨off, size, allocated⟩ := v
  dsimp only at ha
  subst ha
  rw [Shows, hsplit] at hsound
  obtain ⟨a', hok, hsound', hchanged, hmarked⟩ := hsound.release
  refine ⟨a', hok, ?_, hchanged.mono fun j hj => free_of_mid htiling hv hj, hmarked⟩
  rw [Shows, Outline.release, Outline.sizeOf_eq htiling hv]
  exact hsound'

/-- **A free block comes into use** in the bytes as in the outline. -/
theorem take_shown (h : a.Shows first o) (hv : v ∈ o.blocks) (ha : v.allocated = false)
    (hn : 32 ≤ needed) (hn8 : needed % 8 = 0) (hle : needed ≤ v.size) :
    ∃ a', (a.take v.block needed).outcome = .ok a' ∧ a'.Shows first (o.take v.block needed) ∧
      Changed a.region a'.region (InVacant o.blocks) ∧
      ∀ q, a'.region.Marked q → q = v.offset - 8 ∨
        q = v.offset + spanned needed v.size - 16 ∨ a.region.Marked q := by
  have htiling := h.laid.tiling
  have hsplit := Outline.blocks_eq htiling hv
  have hsound := h
  obtain ⟨off, size, allocated⟩ := v
  dsimp only at ha
  subst ha
  rw [Shows, hsplit] at hsound
  obtain ⟨a', hok, hsound', hchanged, hmarked⟩ := hsound.take hn hn8 hle
  refine ⟨a', hok, ?_, ?_, hmarked⟩
  · rw [Shows, Outline.take, Outline.sizeOf_eq htiling hv]
    exact hsound'
  · rw [hsplit]
    exact hchanged

/-- An allocated block can be taken in hand and occupied anew, to a smaller need. -/
theorem shrink_shown (h : a.Shows first o) (hv : v ∈ o.blocks) (ha : v.allocated = true)
    (hn : 32 ≤ needed) (hn8 : needed % 8 = 0) (hrest : 32 ≤ v.size - needed) :
    ∃ a', (a.carve v.block needed v.size).outcome = .ok a' ∧
      a'.Shows first (o.shrink v.block needed) ∧
      Reshaped a.region a'.region (Free o v) v.offset needed needed v.size := by
  have htiling := h.laid.tiling
  have hsplit := Outline.blocks_eq htiling hv
  have hsound := h
  obtain ⟨off, size, allocated⟩ := v
  dsimp only at ha hrest
  subst ha
  rw [Shows, hsplit] at hsound
  obtain ⟨a', hok, hsound', hreshaped⟩ := (hsound.seize off).carve hn hn8 hrest
  refine ⟨a', hok, ?_, hreshaped.changed.mono fun j hj => free_of_mid htiling hv hj,
    hreshaped.payload_eq, hreshaped.marked⟩
  rw [Shows, Outline.shrink, Outline.sizeOf_eq htiling hv, occupiedBlocks, occupiedList,
    if_pos hrest, if_pos hrest]
  exact hsound'

/-- An allocated block can take in the free block behind it and be occupied anew. -/
theorem absorb_shown {next : BlockView} {rest : List BlockView} (h : a.Shows first o)
    (hv : v ∈ o.blocks) (ha : v.allocated = true) (hb : o.behind v.block = next :: rest)
    (hna : next.allocated = false) (hn : 32 ≤ needed) (hn8 : needed % 8 = 0)
    (hlong : v.size ≤ needed) (hle : needed ≤ v.size + next.size) :
    ∃ a₁ a', (a.unlink next.block).outcome = .ok a₁ ∧
      (a₁.occupy v.block needed (v.size + next.size)).outcome = .ok a' ∧
      a'.Shows first (o.absorb v.block next needed) ∧
      Reshaped a.region a'.region (Free o v) v.offset v.size
        (spanned needed (v.size + next.size)) (v.size + next.size) := by
  have htiling := h.laid.tiling
  have hsplit := Outline.blocks_eq htiling hv
  have hsound := h
  obtain ⟨off, size, allocated⟩ := v
  dsimp only at ha hlong hle
  subst ha
  rw [Shows, hsplit, hb] at hsound
  rw [hsplit, hb] at htiling
  have hnext : next.offset = off + size := (tiling_mid.mp htiling).2.2.2.1
  obtain ⟨a₁, hok₁, h₁, hrel, -⟩ := hsound.absorbAfter (n := some next) nofun
    (fun u hu => Option.some.inj hu ▸ hna) (fun u hu => congrArg block (Option.some.inj hu))
  obtain ⟨a', hok, hsound', hreshaped⟩ := h₁.occupy hn hn8 hle
  have hlinks : ∀ j, InLinks o.free j → InVacant o.blocks j := fun j =>
    h.laid.inVacant_of_inLinks h.members
  refine ⟨a₁, a', hok₁, hok, ?_, ?_, ?_, ?_⟩
  · rw [Shows, Outline.absorb, Outline.sizeOf_eq h.laid.tiling hv, hb, List.tail_cons]
    simpa [block] using hsound'
  · refine .trans (hrel.changed.mono fun j hj => .inl (hlinks j hj))
      (hreshaped.changed.mono fun j hj => ?_)
    rw [Free, hsplit, hb]
    simp only [inVacant_append, inVacant_cons, true_and, Option.elim_some, hna] at hj ⊢
    rcases hj with hj | hj | hj
    · exact .inl (.inl hj)
    · by_cases hlt : j + 8 < off + size
      · exact .inr (by simp only [Covers] at hj ⊢; omega)
      · exact .inl (.inr (.inr (.inl (by simp only [Covers] at hj ⊢; omega))))
    · exact .inl (.inr (.inr (.inr hj)))
  · intro j hlow hhigh
    have hspan := (le_spanned hle).1
    dsimp only at hlow hhigh
    have hout : ¬ InVacant o.blocks j := h.laid.tiling.not_inVacant hv rfl
      (by simp only [Covers]; omega)
    rw [hreshaped.payload_eq j hlow (by simp only [Option.elim_some]; omega),
      hrel.changed.byte_eq j fun hj => hout (hlinks j hj)]
  · intro q hq
    rcases hreshaped.marked q hq with he | he | ⟨hne, hq⟩
    · exact .inl he
    · exact .inr (.inl he)
    · exact .inr (.inr ⟨hne, hrel.marked h.scattered.aligned q hq⟩)

end Arena

end BoundaryTag
