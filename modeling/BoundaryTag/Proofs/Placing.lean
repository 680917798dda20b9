import BoundaryTag.Proofs.Coalescing

/-!
# Carving, occupying, taking and releasing

The operations of an arena that the heap is made of, each with the lists that it
leaves behind and with what it does to the bytes.

> `SoundBut.carve`, `SoundBut.occupy`: what an allocation keeps of the block in hand.
>
> `SoundBut.take`, `SoundBut.release`: a free block is allocated, an allocated one is
> freed.

`Reshaped` is the answer to the second question for a block that gets new tags: the
bytes of its payload stay, and the words at its header and its new footer are the
only ones that may become odd.
-/

namespace BoundaryTag

open BlockView (block tag Covers)
open Region (Changed)

/-- What a change does to the block at `off` when it is given `kept` of `total` bytes:
nothing outside `within`, nothing to the payload of the `own` bytes that it keeps, and
odd words appear where its tags are and nowhere else. -/
structure Region.Reshaped (r s : Region) (within : Nat → Prop) (off own kept total : Nat) :
    Prop where
  changed : Changed r s within
  payload_eq : ∀ j, off ≤ j → j + 16 < off + own → s.byte j = r.byte j
  marked : ∀ q, s.Marked q →
    q = off - 8 ∨ q = off + kept - 16 ∨ q ≠ off + total - 16 ∧ r.Marked q

namespace Arena.SoundBut

variable {a : Arena} {hand : Option Nat} {first off : Nat} {front back : List BlockView}
  {free : List Block}

/-- The block in hand has tags of its own for its front part, and what is behind them
comes into the hand instead. -/
theorem split {kept total : Nat}
    (h : a.SoundBut (some off) first (front ++ ⟨off, total, true⟩ :: back) free)
    (hk : 32 ≤ kept) (hk8 : kept % 8 = 0) (hrest : 32 ≤ total - kept)
    (hf : a.region.Framed ⟨off, kept, true⟩) :
    a.SoundBut (some (off + kept)) first
      (front ++ [⟨off, kept, true⟩] ++ ⟨off + kept, total - kept, true⟩ :: back) free := by
  have hlaid := h.laid.split hk hk8 hrest hf
  have hmembers := h.members
  obtain ⟨hfront, hback⟩ := (noFreePair_mid rfl).mp h.merged
  rw [vacant_append, vacant_cons_allocated rfl] at hmembers
  refine ⟨?_, h.listed, ?_, ?_⟩
  · rwa [List.append_assoc]
  · rw [vacant_append, vacant_append, vacant_cons_allocated rfl, vacant_cons_allocated rfl,
      vacant_nil, List.append_nil]
    exact hmembers
  · exact (noFreePair_mid rfl).mpr ⟨(noFreePair_mid rfl).mpr ⟨hfront, .nil⟩, hback⟩

/-- **Carving.** The front of the block in hand is allocated, the rest is freed. -/
theorem carve {kept total : Nat}
    (h : a.SoundBut (some off) first (front ++ ⟨off, total, true⟩ :: back) free)
    (hk : 32 ≤ kept) (hk8 : kept % 8 = 0) (hrest : 32 ≤ total - kept) :
    ∃ a', (a.carve ⟨off⟩ kept total).outcome = .ok a' ∧
      a'.Sound first
        (freedBlocks (front ++ [⟨off, kept, true⟩]) (off + kept) (total - kept) back)
        (freedList (front ++ [⟨off, kept, true⟩]) (off + kept) (total - kept) back free) ∧
      a.region.Reshaped a'.region (InVacant (front ++ ⟨off, total, false⟩ :: back))
        off kept kept total := by
  have hmem : (⟨off, total, true⟩ : BlockView) ∈ front ++ ⟨off, total, true⟩ :: back :=
    List.mem_append_right _ (List.mem_cons_self ..)
  obtain ⟨h32, h8, -, ht8, -, hend⟩ := h.laid.bounds hmem
  have hsmall := h.laid.fenced.small
  dsimp only at h32 h8 ht8 hend
  -- the front part gets its tags, and the rest comes into the hand
  obtain ⟨r₁, hmark₁, ht₁⟩ := Region.exists_tagged (r := a.region) ⟨off, kept, true⟩
    (show 8 ≤ off by omega) h8 (show 16 ≤ kept by omega) hk8 (show off + kept ≤ _ by omega) hsmall
  have h₁ := h.of_changed hmem rfl (s := r₁)
    (ht₁.changed.mono fun j hj => by simp only [Covers] at hj ⊢; omega)
    (fun hne => absurd rfl hne)
  have h₂ := h₁.split hk hk8 hrest ht₁.framed
  have hsize₁ : r₁.size = a.region.size := ht₁.changed.size_eq
  -- the rest is marked free and merges with what is free behind it
  obtain ⟨r₂, hmark₂, ht₂⟩ := Region.exists_tagged (r := r₁) ⟨off + kept, total - kept, false⟩
    (show 8 ≤ off + kept by omega) (show (off + kept) % 8 = 0 by omega)
    (show 16 ≤ total - kept by omega) (show (total - kept) % 8 = 0 by omega)
    (show off + kept + (total - kept) ≤ _ by omega) (by omega)
  have h₃ := h₂.of_changed (List.mem_append_right _ (List.mem_cons_self ..)) rfl (s := r₂)
    ht₂.changed fun hne => absurd rfl hne
  obtain ⟨a', hok, hsound, hchanged, hmarked⟩ := h₃.freed ht₂.framed
  have htiling : Tiling first
      (front ++ [⟨off, kept, true⟩] ++ ⟨off + kept, total - kept, false⟩ :: back) r₂.size := by
    have := tiling_mid.mp h₃.laid.tiling
    exact tiling_mid.mpr this
  refine ⟨a', ?_, hsound, ⟨?_, ?_, ?_⟩⟩
  · have htag : Block.tag ⟨off⟩ r₁ = .ok ⟨kept, true⟩ :=
      Block.tag_eq (show 8 ≤ off by omega) (show off ≤ _ by omega) (by omega) hk8
        ht₁.framed.header
    have hnext : Block.following ⟨off⟩ r₁ = .ok ⟨off + kept⟩ :=
      Block.following_eq htag (show off + kept < _ by omega)
    unfold Arena.carve
    simp only [Traced.outcome_bind, Traced.outcome_lift, Traced.outcome_pure,
      Traced.outcome_emit]
    refine bind_ok_iff.mpr ⟨r₁, hmark₁, bind_ok_iff.mpr ⟨_, hnext, ?_⟩⟩
    refine bind_ok_iff.mpr ⟨_, Word.sub_ok (by omega), bind_ok_iff.mpr ⟨r₂, hmark₂, ?_⟩⟩
    exact bind_ok_iff.mpr ⟨_, rfl, bind_ok_iff.mpr ⟨_, hok, rfl⟩⟩
  · refine (ht₁.changed.mono ?_).trans
      ((ht₂.changed.mono ?_).trans (hchanged.mono ?_))
    · intro j hj
      exact inVacant_of_covers rfl (by simp only [Covers] at hj ⊢; omega)
    · intro j hj
      exact inVacant_of_covers rfl (by simp only [Covers] at hj ⊢; omega)
    · intro j hj
      simp only [inVacant_append, inVacant_cons, inVacant_nil, or_false, Bool.true_eq_false,
        false_and, true_and] at hj ⊢
      rcases hj with hj | hj | hj
      · exact .inl hj
      · exact .inr (.inl (by simp only [Covers] at hj ⊢; omega))
      · exact .inr (.inr hj)
  · intro j hlow hhigh
    -- the front part is in use by now, so freeing the rest spares it
    have hout : ¬ InVacant
        (front ++ [⟨off, kept, true⟩] ++ ⟨off + kept, total - kept, false⟩ :: back) j :=
      htiling.not_inVacant (v := ⟨off, kept, true⟩) (by simp) rfl
        (by simp only [Covers]; omega)
    rw [hchanged.byte_eq j hout, ht₂.changed.byte_eq j (by simp only [Covers]; omega),
      ht₁.payload_eq j hlow hhigh]
  · intro q hq
    rcases ht₂.marked q (hmarked q hq) with ⟨hfalse, -⟩ | ⟨-, hne, hq⟩
    · cases hfalse
    · rcases ht₁.marked q hq with ⟨-, he | he⟩ | ⟨-, -, hq⟩
      · exact .inl he
      · exact .inr (.inl he)
      · refine .inr (.inr ⟨fun he => hne ?_, hq⟩)
        show q = off + kept + (total - kept) - 16
        omega

/-- **Occupying.** The block in hand is allocated to a need that it can meet. -/
theorem occupy {needed total : Nat}
    (h : a.SoundBut (some off) first (front ++ ⟨off, total, true⟩ :: back) free)
    (hn : 32 ≤ needed) (hn8 : needed % 8 = 0) (hle : needed ≤ total) :
    ∃ a', (a.occupy ⟨off⟩ needed total).outcome = .ok a' ∧
      a'.Sound first (occupiedBlocks front off needed total back)
        (occupiedList front off needed total back free) ∧
      a.region.Reshaped a'.region (InVacant (front ++ ⟨off, total, false⟩ :: back))
        off (spanned needed total) (spanned needed total) total := by
  unfold occupiedBlocks occupiedList spanned Arena.occupy
  have hsub : Word.sub total needed = .ok (total - needed) := Word.sub_ok hle
  by_cases hrest : 32 ≤ total - needed
  · obtain ⟨a', hok, hsound, hreshaped⟩ := h.carve hn hn8 hrest
    simp only [if_pos hrest]
    refine ⟨a', ?_, hsound, hreshaped⟩
    rw [Traced.outcome_bind]
    refine bind_ok_iff.mpr ⟨_, hsub, ?_⟩
    rw [if_pos hrest]
    exact hok
  · -- what is left over is too small to be a block
    have hmem : (⟨off, total, true⟩ : BlockView) ∈ front ++ ⟨off, total, true⟩ :: back :=
      List.mem_append_right _ (List.mem_cons_self ..)
    obtain ⟨h32, h8, hs, hs8, -, hend⟩ := h.laid.bounds hmem
    dsimp only at h32 h8 hs hs8 hend
    obtain ⟨r, hmark, ht⟩ := Region.exists_tagged (r := a.region) ⟨off, total, true⟩
      (show 8 ≤ off by omega) h8 (show 16 ≤ total by omega) hs8 hend h.laid.fenced.small
    have hsound := (h.of_changed hmem rfl (s := r) ht.changed fun hne => absurd rfl hne).settle
      ht.framed
    simp only [if_neg hrest]
    refine ⟨⟨r, a.freeList⟩, ?_, hsound, ht.changed.mono ?_, ht.payload_eq, ?_⟩
    · rw [Traced.outcome_bind]
      refine bind_ok_iff.mpr ⟨_, hsub, ?_⟩
      rw [if_neg hrest, Traced.outcome_bind]
      exact bind_ok_iff.mpr ⟨r, hmark, rfl⟩
    · intro j hj
      exact inVacant_of_covers rfl hj
    · intro q hq
      rcases ht.marked q hq with ⟨-, he | he⟩ | ⟨-, hne, hq⟩
      · exact .inl he
      · exact .inr (.inl he)
      · exact .inr (.inr ⟨hne, hq⟩)

/-- A free block comes off the list and into the hand. -/
theorem withdraw {size : Nat}
    (h : a.Sound first (front ++ ⟨off, size, false⟩ :: back) free) :
    ∃ a', (a.unlink ⟨off⟩).outcome = .ok a' ∧
      a'.SoundBut (some off) first (front ++ ⟨off, size, true⟩ :: back) (free.erase ⟨off⟩) ∧
      Relinked a.region a'.region free := by
  obtain ⟨a', hok, hlisted, hperm, hrel, hlaid⟩ := h.unlink rfl nofun
  -- a block that is no longer free breaks no rule about neighbours
  have hmerged : NoFreePair (front ++ ⟨off, size, true⟩ :: back) := by
    obtain ⟨hfront, hback, -⟩ := List.isChain_append.mp h.merged
    exact (noFreePair_mid rfl).mpr ⟨hfront, hback.tail⟩
  refine ⟨a', hok, ⟨⟨hlaid.fenced, ?_, ?_⟩, hlisted, ?_, hmerged⟩, hrel⟩
  · have := tiling_mid.mp hlaid.tiling
    exact tiling_mid.mpr this
  · intro v hv hne
    rcases List.mem_append.mp hv with hv | hv
    · exact hlaid.framed v (List.mem_append_left _ hv) nofun
    · rcases List.mem_cons.mp hv with rfl | hv
      · exact absurd rfl hne
      · exact hlaid.framed v (List.mem_append_right _ (List.mem_cons_of_mem _ hv)) nofun
  · rw [vacant_append] at hperm ⊢
    rwa [vacant_cons_allocated rfl]

/-- **Taking.** A free block is allocated to a need that it can meet. -/
theorem take {needed total : Nat}
    (h : a.Sound first (front ++ ⟨off, total, false⟩ :: back) free)
    (hn : 32 ≤ needed) (hn8 : needed % 8 = 0) (hle : needed ≤ total) :
    ∃ a', (a.take ⟨off⟩ needed).outcome = .ok a' ∧
      a'.Sound first (occupiedBlocks front off needed total back)
        (occupiedList front off needed total back (free.erase ⟨off⟩)) ∧
      Changed a.region a'.region (InVacant (front ++ ⟨off, total, false⟩ :: back)) ∧
      ∀ q, a'.region.Marked q →
        q = off - 8 ∨ q = off + spanned needed total - 16 ∨ a.region.Marked q := by
  have htag := h.laid.tag_eq (v := ⟨off, total, false⟩)
    (List.mem_append_right _ (List.mem_cons_self ..)) nofun
  obtain ⟨a₁, hok₁, h₁, hrel⟩ := h.withdraw
  obtain ⟨a', hok, hsound, hreshaped⟩ := h₁.occupy hn hn8 hle
  refine ⟨a', ?_, hsound, .trans (hrel.changed.mono ?_) hreshaped.changed, ?_⟩
  · unfold Arena.take
    rw [Traced.outcome_bind]
    refine bind_ok_iff.mpr ⟨total, Block.size_eq htag, ?_⟩
    rw [Traced.outcome_bind]
    exact bind_ok_iff.mpr ⟨a₁, hok₁, hok⟩
  · intro j hj
    -- taking it off the list writes links only
    exact h.laid.inVacant_of_inLinks h.members hj
  · intro q hq
    rcases hreshaped.marked q hq with he | he | ⟨-, hq⟩
    · exact .inl he
    · exact .inr (.inl he)
    · exact .inr (.inr (hrel.marked h.scattered.aligned q hq))

/-- **Releasing.** An allocated block is freed, with its free neighbours. -/
theorem release {size : Nat}
    (h : a.Sound first (front ++ ⟨off, size, true⟩ :: back) free) :
    ∃ a', (a.release ⟨off⟩).outcome = .ok a' ∧
      a'.Sound first (freedBlocks front off size back) (freedList front off size back free) ∧
      Changed a.region a'.region (InVacant (front ++ ⟨off, size, false⟩ :: back)) ∧
      ∀ q, a'.region.Marked q → q ≠ off - 8 ∧ q ≠ off + size - 16 ∧ a.region.Marked q := by
  have hmem : (⟨off, size, true⟩ : BlockView) ∈ front ++ ⟨off, size, true⟩ :: back :=
    List.mem_append_right _ (List.mem_cons_self ..)
  have htag := h.laid.tag_eq hmem nofun
  obtain ⟨h32, h8, hs, hs8, -, hend⟩ := h.laid.bounds hmem
  dsimp only at h32 h8 hs hs8 hend
  obtain ⟨r, hmark, ht⟩ := Region.exists_tagged (r := a.region) ⟨off, size, false⟩
    (show 8 ≤ off by omega) h8 (show 16 ≤ size by omega) hs8 hend h.laid.fenced.small
  have h₁ := (h.seize off).of_changed hmem rfl (s := r) ht.changed fun hne => absurd rfl hne
  obtain ⟨a', hok, hsound, hchanged, hmarked⟩ := h₁.freed ht.framed
  refine ⟨a', ?_, hsound, .trans (ht.changed.mono ?_) hchanged, ?_⟩
  · unfold Arena.release
    simp only [Traced.outcome_bind, Traced.outcome_lift, Traced.outcome_pure]
    refine bind_ok_iff.mpr ⟨size, Block.size_eq htag, bind_ok_iff.mpr ⟨r, hmark, ?_⟩⟩
    exact bind_ok_iff.mpr ⟨_, hok, rfl⟩
  · intro j hj
    exact inVacant_of_covers rfl hj
  · intro q hq
    rcases ht.marked q (hmarked q hq) with ⟨hfalse, -⟩ | hq
    · cases hfalse
    · exact hq

end Arena.SoundBut

end BoundaryTag
