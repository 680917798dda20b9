import BoundaryTag.Proofs.Resolving

/-!
# What the walks over a sound heap see

> `blocks_shown`: the walk over the blocks lists those of the outline and ends at the
> epilogue.
>
> `freeBlocks_shown`: the walk along the free list lists the free ones, in list order,
> and ends.
-/

namespace BoundaryTag

open BlockView (block tag Covers)

namespace Region

variable {r : Region} {start : Nat} {blocks : List BlockView}

/-- A walk that begins at a block goes from each block to the next, up to the epilogue. -/
theorem blocksFrom_tiling (h : Tiling start blocks r.size) (hstart : 8 ≤ start)
    (hsmall : r.size < Word.limit) (hframed : ∀ v ∈ blocks, r.Framed v)
    (hend : Tag.ofWord (r.word (r.size - 8)) = ⟨0, true⟩) :
    r.blocksFrom ⟨start⟩ = .ok blocks := by
  induction blocks generalizing start with
  | nil =>
    -- no block is left: the walk reads the epilogue, of size zero, and stops
    have hlast : start = r.size := h
    have htag : Block.tag ⟨start⟩ r = .ok ⟨0, true⟩ := by
      refine Block.tag_ok_iff.mpr ⟨hstart, Nat.le_of_eq hlast, ?_, ?_⟩
      · show start < _
        omega
      · show ⟨0, true⟩ = Tag.ofWord (r.word (start - 8))
        rw [hlast, hend]
    unfold blocksFrom
    rw [dif_pos ⟨hstart, Nat.le_of_eq hlast⟩, bind_of_ok (Block.view_eq htag)]
    rfl
  | cons v rest ih =>
    have hle := h.le
    obtain ⟨hoff, hs, hs8, hrest⟩ := h
    have hlong := hrest.le
    have htag : Block.tag ⟨start⟩ r = .ok v.tag := by
      subst hoff
      exact Block.tag_eq hstart hle hsmall hs8 (hframed v (List.mem_cons_self ..)).header
    have hview : Block.view ⟨start⟩ r = .ok v := by
      rw [Block.view_eq htag, ← hoff]
      rfl
    have hnext := ih hrest (by omega) fun w hw => hframed w (List.mem_cons_of_mem _ hw)
    unfold blocksFrom
    rw [dif_pos ⟨hstart, hle⟩, bind_of_ok hview, dif_neg (by omega), if_pos (by dsimp only; omega)]
    exact bind_ok_iff.mpr ⟨rest, hnext, rfl⟩

end Region

namespace Heap

variable {h : Heap} {o : Outline}

/-- **The walk over the heap** finds the blocks of the outline. -/
theorem Shows.blocks_shown (hs : h.Shows o) : h.blocks = .ok o.blocks :=
  Region.blocksFrom_tiling hs.sound.laid.tiling hs.first_le hs.size_lt
    (fun v hv => hs.sound.laid.framed v hv nofun) hs.sound.laid.fenced.epilogue

/-- **The walk along the free list** finds its members, with their sizes, up to the limit. -/
theorem Shows.freeBlocks_shown (hs : h.Shows o) (limit : Nat) :
    h.freeBlocks limit =
      .ok ((o.free.map fun b => ⟨b.offset, o.sizeOf b, false⟩).take limit) := by
  refine Arena.listed_listed hs.sound.listed
    hs.sound.scattered.toSpaced _ fun b hb => ?_
  obtain ⟨v, hv, ha, rfl⟩ := hs.sound.mem_free.mp hb
  rw [Block.view_eq (t := v.tag) (hs.sound.laid.tag_eq hv nofun),
    Outline.sizeOf_eq hs.sound.laid.tiling hv]
  exact congrArg (fun a => Except.ok (⟨v.offset, v.size, a⟩ : BlockView)) ha

/-- The links of a member are read as the list has them. -/
theorem Shows.links_shown (hs : h.Shows o) {front back : List Block} {b : Block}
    (hb : o.free = front ++ b :: back) :
    b.forwardLink h.region = .ok back.head? ∧ b.backLink h.region = .ok front.getLast? := by
  have hspaced := hs.sound.scattered.toSpaced
  have hlisted := hs.sound.listed
  rw [hb] at hspaced hlisted
  exact hlisted.links hspaced

end Heap

end BoundaryTag
