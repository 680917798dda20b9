import BoundaryTag.Proofs.Coalescing
import Mathlib.Data.List.Nodup

/-!
# A free block on no list and its neighbours

While a block is set free there is a moment when it is marked free and on no list yet. All is in
order but for it, and the blocks beside it may be free as well (`FreeUnlisted`). Merging puts an end
to that. It is stated here for the arena as a whole, with what becomes of the block and with what
becomes of everything else, whichever neighbours there are.

> `FreeUnlisted.soundBut`: to the rest of the arena such a block is a block in hand.
>
> `coalesce_free_unlisted`: what merging it comes to (`MergesInto`).
-/

namespace BoundaryTag

open BlockView (block tag Covers)
open Region (Changed)

/-- The free blocks right beside a stretch between these blocks. -/
def freeNeighbours (front back : List BlockView) : List BlockView :=
  (cutLast front).2.toList ++ (cutFirst back).1.toList

/-- The blocks that are left when these are gone. -/
def otherBlocks (front back : List BlockView) : List BlockView :=
  (cutLast front).1 ++ (cutFirst back).2

namespace Arena

/-- All is in order, but the block `b` between `front` and `back` is marked free and on no list, and
may have free neighbours. -/
structure FreeUnlisted (a : Arena) (first : Nat) (front : List BlockView) (b : BlockView)
    (back : List BlockView) (free : List Block) : Prop where
  laid : a.region.Laid none first (front ++ b :: back)
  unused : b.allocated = false
  listed : a.Listed free
  members : free.Perm (vacant (front ++ back))
  mergedBefore : NoFreePair front
  mergedBehind : NoFreePair back

variable {a : Arena} {first : Nat} {front back : List BlockView} {b : BlockView}
  {free : List Block}

namespace FreeUnlisted

/-- The block carries its tags. -/
theorem framed (h : a.FreeUnlisted first front b back free) :
    a.region.Framed ⟨b.offset, b.size, false⟩ := by
  have hb := h.laid.framed b (List.mem_append_right _ (List.mem_cons_self ..)) nofun
  rwa [← h.unused]

/-- **To the rest of the arena the block is one in hand.** -/
theorem soundBut (h : a.FreeUnlisted first front b back free) :
    a.SoundBut (some b.offset) first (front ++ ⟨b.offset, b.size, true⟩ :: back) free := by
  have htiling : Tiling first (front ++ ⟨b.offset, b.size, true⟩ :: back) a.region.size := by
    have := tiling_mid.mp h.laid.tiling
    exact tiling_mid.mpr this
  refine ⟨⟨h.laid.fenced, htiling, ?_⟩, h.listed, ?_, ?_⟩
  · intro v hv hne
    rcases List.mem_append.mp hv with hv | hv
    · exact h.laid.framed v (List.mem_append_left _ hv) nofun
    · rcases List.mem_cons.mp hv with rfl | hv
      · exact absurd rfl hne
      · exact h.laid.framed v (List.mem_append_right _ (List.mem_cons_of_mem _ hv)) nofun
  · rw [vacant_append, vacant_cons_allocated rfl, ← vacant_append]
    exact h.members
  · exact (noFreePair_mid rfl).mpr ⟨h.mergedBefore, h.mergedBehind⟩

/-- The same with the free neighbours apart. -/
theorem soundBut_cut (h : a.FreeUnlisted first front b back free) :
    a.SoundBut (some b.offset) first ((cutLast front).1 ++ (cutLast front).2.toList ++
      ⟨b.offset, b.size, true⟩ :: ((cutFirst back).1.toList ++ (cutFirst back).2)) free := by
  rw [cutLast_append, cutFirst_append]
  exact h.soundBut

end FreeUnlisted

/-! ## The merged block -/

/-- The merged block begins where the first of its parts does. -/
theorem FreeUnlisted.merged_lowest (h : a.FreeUnlisted first front b back free) :
    (∃ u ∈ b :: freeNeighbours front back,
        (freedBlock front b.offset b.size back).offset = u.offset) ∧
      ∀ u ∈ b :: freeNeighbours front back,
        (freedBlock front b.offset b.size back).offset ≤ u.offset := by
  have hbefore := h.soundBut_cut.laid.before_bounds
  have hbehind := h.soundBut_cut.laid.after_bounds
  simp only [freeNeighbours, freedBlock, mergedBlock, List.mem_cons, List.mem_append,
    Option.mem_toList]
  generalize (cutLast front).2 = p at hbefore ⊢
  generalize (cutFirst back).1 = n at hbehind ⊢
  cases p with
  | none =>
    refine ⟨⟨b, .inl rfl, rfl⟩, ?_⟩
    intro u hu
    rcases hu with rfl | hu | hu
    · exact Nat.le_refl _
    · cases hu
    · have := (hbehind u hu).1
      show b.offset ≤ u.offset
      omega
  | some v =>
    have hv := (hbefore v rfl).1
    refine ⟨⟨v, .inr (.inl rfl), rfl⟩, ?_⟩
    intro u hu
    show v.offset ≤ u.offset
    rcases hu with rfl | hu | hu
    · omega
    · cases hu
      exact Nat.le_refl _
    · have := (hbehind u hu).1
      omega

/-- It takes as many bytes as they do together. -/
theorem merged_size (front back : List BlockView) (off size : Nat) :
    (freedBlock front off size back).size =
      (freeNeighbours front back).foldl (fun total u => total + u.size) size := by
  simp only [freedBlock, mergedBlock, freeNeighbours, List.foldl_append]
  cases (cutLast front).2 <;> cases (cutFirst back).1 <;> simp <;> omega

/-- The free list loses the free neighbours and keeps the others in their order. -/
theorem FreeUnlisted.freedList_eq (h : a.FreeUnlisted first front b back free) :
    freedList front b.offset b.size back free =
      (freedBlock front b.offset b.size back).block ::
        free.filter fun c => c ∉ (freeNeighbours front back).map block := by
  have hnodup : free.Nodup := by
    refine h.members.nodup_iff.mpr ?_
    have hall := h.laid.tiling.vacant_nodup
    rw [vacant_append, vacant_cons_free h.unused] at hall
    rw [vacant_append]
    exact hall.sublist ((List.sublist_cons_self ..).append_left _)
  unfold freedList freeNeighbours
  rw [hnodup.sdiff_eq_filter]

/-! ## Everything else -/

namespace SoundBut

variable {a' : Arena} {hand : Option Nat} {left right : List BlockView} {merged v : BlockView}
  {others : List Block} {j : Nat}

/-- Of another block no more than the links change, and these only if it is free. -/
theorem spared (h : a'.SoundBut hand first (left ++ merged :: right) (merged.block :: others))
    (hchanged : Changed a.region a'.region fun j => merged.Covers j ∨ InLinks others j)
    (hv : v ∈ left ++ right) (hj : v.Covers j)
    (hlinks : v.allocated = false → ¬ InLinks [v.block] j) :
    a'.region.byte j = a.region.byte j := by
  obtain ⟨hleft, -, -, hright⟩ := tiling_mid.mp h.laid.tiling
  have hmem : v ∈ left ++ merged :: right :=
    ((List.sublist_cons_self merged right).append_left left).subset hv
  refine hchanged.byte_eq j ?_
  intro hwritten
  rcases hwritten with hin | ⟨c, hc, hlow, hhigh⟩
  · -- the merged block lies apart
    simp only [Covers] at hin hj
    rcases List.mem_append.mp hv with hv | hv
    · have := hleft.bounds hv
      omega
    · have := hright.bounds hv
      omega
  · -- so do the links of any free block but this one
    obtain ⟨u, hu, hfree, rfl⟩ := h.mem_free.mp (List.mem_cons_of_mem _ hc)
    have hus := (h.laid.bounds hu).2.2.1
    rcases h.laid.tiling.eq_or_apart hmem hu with rfl | hlt | hlt
    · exact hlinks hfree ⟨v.block, List.mem_singleton.mpr rfl, hlow, hhigh⟩
    · simp only [Covers, block] at hj hlow hhigh
      omega
    · simp only [Covers, block] at hj hlow hhigh
      omega

/-- Nothing changes before the first block or behind the last one. -/
theorem fences_spared
    (h : a'.SoundBut hand first (left ++ merged :: right) (merged.block :: others))
    (hfree : merged.allocated = false)
    (hchanged : Changed a.region a'.region fun j => merged.Covers j ∨ InLinks others j)
    (hj : j + 8 < first ∨ a.region.size ≤ j + 8) : a'.region.byte j = a.region.byte j := by
  refine hchanged.byte_eq j ?_
  intro hin
  have hvacant : InVacant (left ++ merged :: right) j := by
    rcases hin with hin | ⟨c, hc, hin⟩
    · exact inVacant_of_covers hfree hin
    · exact h.laid.inVacant_of_inLinks h.members ⟨c, List.mem_cons_of_mem _ hc, hin⟩
  rcases hj with hj | hj
  · exact h.laid.tiling.not_inVacant_of_lt hj hvacant
  · have := h.laid.tiling.lt_of_inVacant hvacant
    rw [hchanged.size_eq] at this
    omega

end SoundBut

/-! ## Merging -/

/-- What merging the unlisted block `b` comes to: `merged` takes the place of it and of its free
neighbours, all is in order, and of everything else nothing changes but links of free blocks. -/
structure MergesInto (a a' : Arena) (first : Nat) (front : List BlockView) (b : BlockView)
    (back : List BlockView) (free : List Block) (merged : BlockView) : Prop where
  /-- The merged block lies where the first of its parts lay. -/
  begins : ∃ u ∈ b :: freeNeighbours front back, merged.offset = u.offset
  lowest : ∀ u ∈ b :: freeNeighbours front back, merged.offset ≤ u.offset
  size : merged.size =
    (freeNeighbours front back).foldl (fun total u => total + u.size) b.size
  unused : merged.allocated = false
  /-- Its header and its footer say so. -/
  framed : a'.region.Framed merged
  sound : a'.Sound first ((cutLast front).1 ++ merged :: (cutFirst back).2)
    (merged.block :: free.filter fun c => c ∉ (freeNeighbours front back).map block)
  /-- Other blocks in use keep all of their bytes, and free ones all but their links. -/
  others : ∀ v ∈ otherBlocks front back, ∀ j, v.Covers j →
    (v.allocated = false → ¬ InLinks [v.block] j) → a'.region.byte j = a.region.byte j
  /-- Prologue, epilogue and what lies before keep all of theirs. -/
  fences : ∀ j, j + 8 < first ∨ a.region.size ≤ j + 8 → a'.region.byte j = a.region.byte j
  region_size : a'.region.size = a.region.size

/-- **Merging a free block that is on no list** does not fault, whatever its neighbours are, and
answers the merged block. -/
theorem coalesce_free_unlisted (h : a.FreeUnlisted first front b back free) :
    ∃ a' merged, (a.coalesce b.block).outcome = .ok (merged.block, a') ∧
      a.MergesInto a' first front b back free merged := by
  obtain ⟨a', hok, hsound, hchanged, -⟩ := h.soundBut_cut.coalesce h.framed cutLast_free
    cutFirst_free (cutLast_last h.mergedBefore) (cutFirst_first h.mergedBehind)
  refine ⟨a', freedBlock front b.offset b.size back, hok, h.merged_lowest.1, h.merged_lowest.2,
    merged_size .., rfl, ?_, ?_, ?_, ?_, hchanged.size_eq⟩
  · exact hsound.laid.framed _ (List.mem_append_right _ (List.mem_cons_self ..)) nofun
  · rw [← h.freedList_eq]
    exact hsound
  · intro v hv j hj hlinks
    exact hsound.spared hchanged hv hj hlinks
  · intro j hj
    exact hsound.fences_spared rfl hchanged hj

/-- A region that holds these words, all of them less than 256. -/
def ofSmallWords (words : List UInt8) : Region :=
  ⟨⟨(words.flatMap fun w => w :: List.replicate 7 0).toArray⟩⟩

/-- The unlisted block 64 between the free blocks 32 and 104, for instance, which are the last and
the first on the list; between them on the list is the block 168, behind one in use. -/
theorem coalesce_free_unlisted_between :
    let r := ofSmallWords [0, 17, 17, 32, 0, 168, 32, 40, 0, 0, 0, 40, 32, 168, 0, 32,
      33, 0, 0, 33, 32, 32, 104, 32, 1]
    let a : Arena := ⟨r, ⟨some ⟨104⟩, 3⟩⟩
    let front : List BlockView := [⟨32, 32, false⟩]
    let back : List BlockView := [⟨104, 32, false⟩, ⟨136, 32, true⟩, ⟨168, 32, false⟩]
    a.FreeUnlisted 32 front ⟨64, 40, false⟩ back [⟨104⟩, ⟨168⟩, ⟨32⟩] ∧
      ∃ a' merged, (a.coalesce ⟨64⟩).outcome = .ok (merged.block, a') ∧
        a.MergesInto a' 32 front ⟨64, 40, false⟩ back [⟨104⟩, ⟨168⟩, ⟨32⟩] merged := by
  intro r a front back
  have hsize : r.size = 200 := by decide +kernel
  have hwords : ∀ v ∈ front ++ ⟨64, 40, false⟩ :: back, r.word (v.offset - 8) = v.tag.word ∧
      r.word (v.offset + v.size - 16) = v.tag.word := by decide +kernel
  have hfenced : r.Fenced 32 := by
    refine ⟨rfl, Nat.le_refl _, ?_, ⟨?_, ?_⟩, ?_⟩
    · rw [hsize]
      exact Word.lt_limit (by decide)
    · decide +kernel
    · decide +kernel
    · rw [hsize]
      decide +kernel
  have htiling : Tiling 32 (front ++ ⟨64, 40, false⟩ :: back) r.size := by
    rw [hsize]
    simp [Tiling, front, back]
  have hlinked : Linked r none [⟨104⟩, ⟨168⟩, ⟨32⟩] none := by
    refine ⟨?_, ?_, ?_, ?_, ?_, ?_, trivial⟩ <;> decide +kernel
  have h : a.FreeUnlisted 32 front ⟨64, 40, false⟩ back [⟨104⟩, ⟨168⟩, ⟨32⟩] := by
    refine ⟨⟨hfenced, htiling, fun v hv _ => ⟨(hwords v hv).1, (hwords v hv).2⟩⟩, rfl,
      ⟨rfl, rfl, hlinked⟩, by decide, ?_, ?_⟩
    · simp [NoFreePair, front]
    · simp [NoFreePair, back]
  exact ⟨h, coalesce_free_unlisted h⟩

end Arena

end BoundaryTag
