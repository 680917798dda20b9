import BoundaryTag.Arena.Coalesce
import BoundaryTag.Proofs.Links

/-!
# Sound arenas

An arena is sound when its bytes agree with a list of blocks and a list of free
ones: the blocks tile the region between prologue and epilogue and carry their
tags (`Laid`), the free list is linked through the free blocks and has no other
members, and no two free blocks are neighbours (`Sound`).

The allocator breaks this only one block at a time. `SoundBut` makes an
exception for the tags of one block, the one in hand: it is listed as allocated
whatever its bytes say, so a block that is about to be freed, or that was just
taken off the free list, needs no case of its own.

> `SoundBut.of_changed`: what happens inside an allocated block is nobody else's
> business.
>
> `SoundBut.unlink`, `SoundBut.push`: the two changes to the free list.
-/

namespace BoundaryTag

open BlockView (block tag Covers)

/-! ## Lists of blocks without free pairs -/

theorem noFreePair_mid {front back : List BlockView} {v : BlockView} (hv : v.allocated = true) :
    NoFreePair (front ++ v :: back) ↔ NoFreePair front ∧ NoFreePair back := by
  unfold NoFreePair
  rw [List.isChain_append]
  constructor
  · rintro ⟨h₁, h₂, -⟩
    exact ⟨h₁, h₂.tail⟩
  · rintro ⟨h₁, h₂⟩
    refine ⟨h₁, h₂.cons fun _ _ => .inl hv, ?_⟩
    intro _ _ y hy
    cases hy
    exact .inr hv

/-- A free block may stand where its neighbours are allocated. -/
theorem noFreePair_mid_free {front back : List BlockView} {v : BlockView}
    (hf : NoFreePair front) (hb : NoFreePair back)
    (hlast : ∀ u ∈ front.getLast?, u.allocated = true)
    (hhead : ∀ u ∈ back.head?, u.allocated = true) : NoFreePair (front ++ v :: back) := by
  refine List.isChain_append.mpr ⟨hf, hb.cons fun u hu => .inr (hhead u hu), ?_⟩
  intro u hu _ hy
  cases hy
  exact .inl (hlast u hu)

/-! ## Regions laid out in blocks -/

namespace Region

/-- Prologue and epilogue, and a first block that leaves room for them. -/
structure Fenced (r : Region) (first : Nat) : Prop where
  aligned : first % 8 = 0
  room : 32 ≤ first
  small : r.size < Word.limit
  prologue : r.Framed ⟨first - 16, 16, true⟩
  epilogue : Tag.ofWord (r.word (r.size - 8)) = ⟨0, true⟩

/-- Blocks side by side between prologue and epilogue. All carry their tags
except, perhaps, the one at `hand`. -/
structure Laid (r : Region) (hand : Option Nat) (first : Nat) (blocks : List BlockView) :
    Prop where
  fenced : r.Fenced first
  tiling : Tiling first blocks r.size
  framed : ∀ v ∈ blocks, some v.offset ≠ hand → r.Framed v

namespace Laid

variable {r s : Region} {hand : Option Nat} {first : Nat} {blocks front back : List BlockView}
  {members : List Block} {v : BlockView}

theorem bounds (h : r.Laid hand first blocks) (hv : v ∈ blocks) :
    32 ≤ v.offset ∧ v.offset % 8 = 0 ∧ 32 ≤ v.size ∧ v.size % 8 = 0 ∧
      first ≤ v.offset ∧ v.offset + v.size ≤ r.size := by
  obtain ⟨h₁, h₂, h₃, h₄⟩ := h.tiling.bounds hv
  have := h.fenced.room
  exact ⟨by omega, h.tiling.offset_aligned h.fenced.aligned hv, h₃, h₄, h₁, h₂⟩

theorem size_aligned (h : r.Laid hand first blocks) : r.size % 8 = 0 :=
  h.tiling.stop_aligned h.fenced.aligned

/-- The tags of a block are read as they are listed. -/
theorem tag_eq (h : r.Laid hand first blocks) (hv : v ∈ blocks) (hh : some v.offset ≠ hand) :
    v.block.tag r = .ok v.tag := by
  obtain ⟨h32, -, -, hm, -, hend⟩ := h.bounds hv
  refine Block.tag_eq ?_ ?_ h.fenced.small hm (h.framed v hv hh).header
  · show 8 ≤ v.offset
    omega
  · show v.offset ≤ _
    omega

/-- Free blocks have room for links. -/
theorem scattered (h : r.Laid hand first blocks) (hm : members.Perm (vacant blocks)) :
    Scattered r members := by
  refine ⟨⟨hm.nodup_iff.mpr h.tiling.vacant_nodup, ?_, ?_, h.fenced.small⟩, ?_⟩
  · intro b hb c hc hne
    obtain ⟨u, hu, -, rfl⟩ := mem_vacant.mp (hm.mem_iff.mp hb)
    obtain ⟨w, hw, -, rfl⟩ := mem_vacant.mp (hm.mem_iff.mp hc)
    have hus := (h.bounds hu).2.2.1
    have hws := (h.bounds hw).2.2.1
    show u.offset + 16 ≤ w.offset ∨ w.offset + 16 ≤ u.offset
    rcases h.tiling.eq_or_apart hu hw with rfl | hlt | hlt
    · exact absurd rfl hne
    · omega
    · omega
  · intro b hb
    obtain ⟨u, hu, -, rfl⟩ := mem_vacant.mp (hm.mem_iff.mp hb)
    obtain ⟨h32, h8, hs, -, -, hend⟩ := h.bounds hu
    show 8 ≤ u.offset ∧ u.offset + 16 ≤ _
    omega
  · intro b hb
    obtain ⟨u, hu, -, rfl⟩ := mem_vacant.mp (hm.mem_iff.mp hb)
    exact (h.bounds hu).2.1

/-- There are no more free blocks than the region has room for. -/
theorem length_le (h : r.Laid hand first blocks) (hm : members.Perm (vacant blocks)) :
    32 + 32 * members.length ≤ r.size := by
  have hlen : members.length ≤ blocks.length := by
    rw [hm.length_eq, vacant, List.length_map]
    exact List.length_filter_le ..
  have := h.tiling.length_le
  have := h.fenced.room
  omega

/-- The links of free blocks lie in free blocks. -/
theorem inVacant_of_inLinks (h : r.Laid hand first blocks) (hm : members.Perm (vacant blocks))
    {j : Nat} (hj : InLinks members j) : InVacant blocks j := by
  obtain ⟨b, hb, h₁, h₂⟩ := hj
  obtain ⟨u, hu, hua, rfl⟩ := mem_vacant.mp (hm.mem_iff.mp hb)
  have hus := (h.bounds hu).2.2.1
  simp only [block] at h₁ h₂
  exact ⟨u, hu, hua, by simp only [Covers]; omega⟩

/-! ### Changes that spare the tags -/

/-- Links lie apart from all tags. -/
theorem of_relinked (h : r.Laid hand first blocks) (hm : members.Perm (vacant blocks))
    (hs : Relinked r s members) : s.Laid hand first blocks := by
  have hroom := h.fenced.room
  have hsize := hs.changed.size_eq
  -- a link lies in the payload of its own block and outside all others
  have hlinks : ∀ v ∈ blocks, ∀ j, InLinks members j →
      j < v.offset - 8 ∨ v.offset ≤ j ∧ j < v.offset + v.size - 16 ∨
        v.offset + v.size - 8 ≤ j := by
    rintro v hv j ⟨b, hb, h₁, h₂⟩
    obtain ⟨u, hu, -, rfl⟩ := mem_vacant.mp (hm.mem_iff.mp hb)
    have hus := (h.bounds hu).2.2.1
    have hvs := (h.bounds hv).2.2.1
    simp only [block] at h₁ h₂
    rcases h.tiling.eq_or_apart hu hv with rfl | hlt | hlt
    · omega
    · omega
    · omega
  have hends : ∀ j, InLinks members j → first ≤ j ∧ j < r.size - 8 := by
    rintro j ⟨b, hb, h₁, h₂⟩
    obtain ⟨u, hu, -, rfl⟩ := mem_vacant.mp (hm.mem_iff.mp hb)
    obtain ⟨-, -, hus, -, hlow, hend⟩ := h.bounds hu
    simp only [block] at h₁ h₂
    omega
  refine ⟨⟨h.fenced.aligned, hroom, hsize ▸ h.fenced.small, ?_, ?_⟩, hsize ▸ h.tiling, ?_⟩
  · refine h.fenced.prologue.of_changed hs.changed ?_ ?_
    · intro j h₁ h₂ hj
      have := hends j hj
      dsimp only at h₁ h₂
      omega
    · intro j h₁ h₂ hj
      have := hends j hj
      dsimp only at h₁ h₂
      omega
  · rw [hsize, hs.changed.word_eq fun j h₁ h₂ hj => ?_]
    · exact h.fenced.epilogue
    · have := hends j hj
      omega
  · intro v hv hh
    have hvs := h.bounds hv
    refine (h.framed v hv hh).of_changed hs.changed ?_ ?_
    · intro j h₁ h₂ hj
      have := hlinks v hv j hj
      omega
    · intro j h₁ h₂ hj
      have := hlinks v hv j hj
      omega

/-- A change inside a block keeps everything laid out if the block keeps its
tags or is the one in hand. -/
theorem of_changed (h : r.Laid hand first blocks) (hv : v ∈ blocks)
    (hs : Changed r s v.Covers) (hf : some v.offset ≠ hand → s.Framed v) :
    s.Laid hand first blocks := by
  obtain ⟨-, -, hvs, -, hlow, hend⟩ := h.bounds hv
  have hroom := h.fenced.room
  have hsize := hs.size_eq
  refine ⟨⟨h.fenced.aligned, hroom, hsize ▸ h.fenced.small, ?_, ?_⟩, hsize ▸ h.tiling, ?_⟩
  · refine h.fenced.prologue.of_changed hs ?_ ?_
    · intro j h₁ h₂ hj
      simp only [Covers] at hj h₁ h₂
      omega
    · intro j h₁ h₂ hj
      simp only [Covers] at hj h₁ h₂
      omega
  · rw [hsize, hs.word_eq fun j h₁ h₂ hj => ?_]
    · exact h.fenced.epilogue
    · simp only [Covers] at hj
      omega
  · intro w hw hh
    have hws := h.bounds hw
    -- the block itself by hypothesis, the others because they lie apart
    rcases h.tiling.eq_or_apart hw hv with rfl | hlt | hlt
    · exact hf hh
    · refine (h.framed w hw hh).of_changed hs ?_ ?_
      · intro j h₁ h₂ hj
        simp only [Covers] at hj
        omega
      · intro j h₁ h₂ hj
        simp only [Covers] at hj
        omega
    · refine (h.framed w hw hh).of_changed hs ?_ ?_
      · intro j h₁ h₂ hj
        simp only [Covers] at hj
        omega
      · intro j h₁ h₂ hj
        simp only [Covers] at hj
        omega

/-! ### The block in hand -/

/-- Any block can be taken in hand. -/
theorem seize (h : r.Laid none first blocks) (off : Nat) : r.Laid (some off) first blocks :=
  ⟨h.fenced, h.tiling, fun v hv _ => h.framed v hv nofun⟩

/-- The block in hand can be put down under any tags that its bytes have. -/
theorem settle {off size : Nat} {listed read : Bool}
    (h : r.Laid (some off) first (front ++ ⟨off, size, listed⟩ :: back))
    (hf : r.Framed ⟨off, size, read⟩) :
    r.Laid none first (front ++ ⟨off, size, read⟩ :: back) := by
  have htiling : Tiling first (front ++ ⟨off, size, read⟩ :: back) r.size := by
    have := tiling_mid.mp h.tiling
    exact tiling_mid.mpr this
  refine ⟨h.fenced, htiling, ?_⟩
  intro w hw _
  -- one block lies at the offset in hand, the one that is put down
  by_cases he : w.offset = off
  · rwa [htiling.eq_of_offset_eq hw (List.mem_append_right _ (List.mem_cons_self ..)) he]
  · refine h.framed w ?_ fun hh => he (Option.some.inj hh)
    rcases List.mem_append.mp hw with hw | hw
    · exact List.mem_append_left _ hw
    · rcases List.mem_cons.mp hw with rfl | hw
      · exact absurd rfl he
      · exact List.mem_append_right _ (List.mem_cons_of_mem _ hw)

end Laid

end Region

/-! ## Arenas -/

namespace Arena

/-- All is in order except, perhaps, the tags of the block at `hand`. -/
structure SoundBut (a : Arena) (hand : Option Nat) (first : Nat) (blocks : List BlockView)
    (free : List Block) : Prop where
  laid : a.region.Laid hand first blocks
  listed : a.Listed free
  members : free.Perm (vacant blocks)
  merged : NoFreePair blocks

/-- All is in order. -/
abbrev Sound (a : Arena) (first : Nat) (blocks : List BlockView) (free : List Block) : Prop :=
  a.SoundBut none first blocks free

namespace SoundBut

variable {a : Arena} {hand : Option Nat} {first off size : Nat}
  {blocks front back : List BlockView} {free : List Block} {v : BlockView}

theorem mem_free (h : a.SoundBut hand first blocks free) {b : Block} :
    b ∈ free ↔ ∃ u ∈ blocks, u.allocated = false ∧ u.block = b := by
  rw [h.members.mem_iff, mem_vacant]

/-- The members of the list lie apart, at whole words, with room for their links. -/
theorem scattered (h : a.SoundBut hand first blocks free) : Scattered a.region free :=
  h.laid.scattered h.members

/-- **What happens inside an allocated block is nobody else's business:** all
stays in order if the block keeps its tags or is the one in hand. -/
theorem of_changed (h : a.SoundBut hand first blocks free) (hv : v ∈ blocks)
    (ha : v.allocated = true) {s : Region} (hs : Region.Changed a.region s v.Covers)
    (hf : some v.offset ≠ hand → s.Framed v) :
    (⟨s, a.freeList⟩ : Arena).SoundBut hand first blocks free := by
  have hwords : ∀ b ∈ free, s.word b.offset = a.region.word b.offset ∧
      s.word (b.offset + 8) = a.region.word (b.offset + 8) := by
    intro b hb
    have hout : ∀ j, b.offset ≤ j → j < b.offset + 16 → ¬ v.Covers j := fun j h₁ h₂ hj =>
      h.laid.tiling.not_inVacant hv ha hj (h.laid.inVacant_of_inLinks h.members ⟨b, hb, h₁, h₂⟩)
    constructor
    · exact hs.word_eq fun j h₁ h₂ => hout j h₁ (by omega)
    · exact hs.word_eq fun j h₁ h₂ => hout j (by omega) (by omega)
  exact ⟨h.laid.of_changed hv hs hf, ⟨h.listed.head, h.listed.length,
    h.listed.linked.congr (fun b hb => (hwords b hb).1) fun b hb => (hwords b hb).2⟩,
    h.members, h.merged⟩

/-- Any block can be taken in hand. -/
theorem seize (h : a.Sound first blocks free) (off : Nat) :
    a.SoundBut (some off) first blocks free :=
  ⟨h.laid.seize off, h.listed, h.members, h.merged⟩

/-- A block in hand that is tagged as allocated is like any other. -/
theorem settle (h : a.SoundBut (some off) first (front ++ ⟨off, size, true⟩ :: back) free)
    (hf : a.region.Framed ⟨off, size, true⟩) :
    a.Sound first (front ++ ⟨off, size, true⟩ :: back) free :=
  ⟨h.laid.settle hf, h.listed, h.members, h.merged⟩

/-- A free block comes off the list. The tags stay as they are. -/
theorem unlink (h : a.SoundBut hand first (front ++ v :: back) free) (hv : v.allocated = false)
    (hh : some v.offset ≠ hand) :
    ∃ a', (a.unlink v.block).outcome = .ok a' ∧ a'.Listed (free.erase v.block) ∧
      (free.erase v.block).Perm (vacant (front ++ back)) ∧
      Relinked a.region a'.region free ∧ a'.region.Laid hand first (front ++ v :: back) := by
  have hmem : v ∈ front ++ v :: back := List.mem_append_right _ (List.mem_cons_self ..)
  -- the block is somewhere on the list; nothing says where
  obtain ⟨before, after, hsplit⟩ := List.append_of_mem (h.mem_free.mpr ⟨v, hmem, hv, rfl⟩)
  have hs := h.scattered
  have hl := h.listed
  have hused : v.block.allocated a.region = .ok false := by
    rw [Block.allocated_eq (h.laid.tag_eq hmem hh), tag, hv]
  have herase : free.erase v.block = before ++ after := by
    have hnot : v.block ∉ before := by
      have := hs.nodup
      rw [hsplit, List.nodup_append] at this
      exact fun hin => this.2.2 _ hin _ (List.mem_cons_self ..) rfl
    rw [hsplit, List.erase_append_right _ hnot, List.erase_cons_head]
  rw [hsplit] at hl
  obtain ⟨a', hok, hlisted, hchanged⟩ := unlink_listed hl (hsplit ▸ hs.toSpaced) hused
  have hrel : Relinked a.region a'.region free := by
    refine hchanged.mono fun c hc => ?_
    rw [hsplit]
    exact ((List.sublist_cons_self v.block after).append_left before).subset hc
  refine ⟨a', hok, herase ▸ hlisted, ?_, hrel, h.laid.of_relinked h.members hrel⟩
  have hperm := h.members.erase v.block
  rw [vacant_append, vacant_cons_free hv] at hperm
  refine hperm.trans (List.Perm.trans (List.perm_middle.erase _) ?_)
  rw [List.erase_cons_head, vacant_append]

/-- The block in hand joins the list, if it is marked free and its neighbours are not. -/
theorem push (h : a.SoundBut (some off) first (front ++ ⟨off, size, true⟩ :: back) free)
    (hf : a.region.Framed ⟨off, size, false⟩)
    (hlast : ∀ u ∈ front.getLast?, u.allocated = true)
    (hhead : ∀ u ∈ back.head?, u.allocated = true) :
    ∃ a', (a.push ⟨off⟩).outcome = .ok a' ∧
      a'.Sound first (front ++ ⟨off, size, false⟩ :: back) (⟨off⟩ :: free) ∧
      Relinked a.region a'.region (⟨off⟩ :: free) := by
  have hlaid := h.laid.settle hf
  have hperm : (⟨off⟩ :: free : List Block).Perm
      (vacant (front ++ ⟨off, size, false⟩ :: back)) := by
    have hm := h.members
    rw [vacant_append, vacant_cons_allocated rfl] at hm
    rw [vacant_append, vacant_cons_free rfl]
    exact (hm.cons _).trans List.perm_middle.symm
  obtain ⟨hfront, hback⟩ := (noFreePair_mid rfl).mp h.merged
  have hlen := hlaid.length_le hperm
  have hsmall := h.laid.fenced.small
  simp only [List.length_cons] at hlen
  have hs := hlaid.scattered hperm
  obtain ⟨a', hok, hlisted, hrel⟩ := push_listed h.listed hs.toSpaced (by omega)
  exact ⟨a', hok, ⟨hlaid.of_relinked hperm hrel, hlisted, hperm,
    noFreePair_mid_free hfront hback hlast hhead⟩, hrel⟩

end SoundBut

end Arena

end BoundaryTag
