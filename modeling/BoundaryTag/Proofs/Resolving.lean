import BoundaryTag.Proofs.Checking

/-!
# What becomes of a handle

Whether a handle is accepted can be said without any computation that may fault: it has
to lie inside the heap, and the words at its header and at the footer that this header
implies have to agree (`TagsAgree`). That is `verdict`.

> `resolve_outcome`: `resolve` answers the verdict, whatever the bytes are.
>
> `Shows.verdict_allocated`, `Shows.verdict_free`: in a sound heap, blocks in use are
> accepted and free ones are known as such.
-/

namespace BoundaryTag

open BlockView (block tag Covers)

namespace Heap

/-- The place is one where a payload may begin. -/
def Inside (h : Heap) (b : Block) : Prop :=
  h.firstBlock.offset ≤ b.offset ∧ b.offset % 8 = 0 ∧ b.offset < h.size

/-- What the word before a place says, if it is a header. -/
def headerTag (h : Heap) (b : Block) : Tag := Tag.ofWord (h.region.word (b.offset - 8))

/-- The header makes a block that ends in the region, and its footer repeats it. -/
def TagsAgree (h : Heap) (b : Block) : Prop :=
  32 ≤ (h.headerTag b).size ∧ b.offset + (h.headerTag b).size ≤ h.size ∧
    h.region.word (b.offset + (h.headerTag b).size - 16) = h.region.word (b.offset - 8)

instance (h : Heap) (b : Block) : Decidable (h.Inside b) :=
  inferInstanceAs (Decidable (_ ∧ _))

instance (h : Heap) (b : Block) : Decidable (h.TagsAgree b) :=
  inferInstanceAs (Decidable (_ ∧ _))

/-- What `resolve` makes of a handle. -/
def verdict (h : Heap) (b : Block) : Except AllocError Block :=
  if h.Inside b ∧ h.TagsAgree b then
    if (h.headerTag b).allocated then .ok b else .error (.doubleFree b)
  else .error (.invalidHandle b)

variable {h : Heap} {o : Outline} {v : BlockView} {b : Block}

/-- Accepted is what passes all three questions. -/
theorem verdict_ok_iff :
    h.verdict b = .ok b ↔ h.Inside b ∧ h.TagsAgree b ∧ (h.headerTag b).allocated = true := by
  unfold verdict
  split
  · next hall =>
    split
    · next ha => exact ⟨fun _ => ⟨hall.1, hall.2, ha⟩, fun _ => rfl⟩
    · next ha => exact ⟨nofun, fun h => absurd h.2.2 ha⟩
  · next hnot => exact ⟨nofun, fun h => absurd ⟨h.1, h.2.1⟩ hnot⟩

/-- A handle is accepted, or called free, or called invalid. -/
theorem verdict_cases (h : Heap) (b : Block) : h.verdict b = .ok b ∨
    ∃ e, (e = .doubleFree b ∨ e = .invalidHandle b) ∧ h.verdict b = .error e := by
  unfold verdict
  split
  · split
    · exact .inl rfl
    · exact .inr ⟨_, .inl rfl, rfl⟩
  · exact .inr ⟨_, .inr rfl, rfl⟩

/-- Reading the tags at both ends answers whether they agree, if the header can be read. -/
theorem framed_outcome (hb : 8 ≤ b.offset) (hin : b.offset < h.size)
    (hsmall : h.size < Word.limit) :
    h.framed b (h.region.word (b.offset - 8)) = .ok (decide (h.TagsAgree b)) := by
  have hregion : h.region.size = h.size := rfl
  unfold framed
  dsimp only
  -- a size that does not fit is turned down before the footer is read
  by_cases hfits : 32 ≤ (h.headerTag b).size ∧ b.offset + (h.headerTag b).size ≤ h.size
  · have hsize : ¬ ((h.headerTag b).size < 32 ∨ Word.limit ≤ b.offset + (h.headerTag b).size ∨
        h.size < b.offset + (h.headerTag b).size) := by omega
    have htag : b.tag h.region = .ok (h.headerTag b) :=
      Block.tag_ok_iff.mpr ⟨hb, by omega, by omega, rfl⟩
    have hfooter := Block.footerWord_eq htag (by omega) (by omega) (by omega)
    refine (if_neg hsize).trans (bind_ok_iff.mpr ⟨_, hfooter, congrArg Except.ok ?_⟩)
    exact decide_eq_decide.mpr ⟨fun he => ⟨hfits.1, hfits.2, he⟩, fun ha => ha.2.2⟩
  · have hsize : (h.headerTag b).size < 32 ∨ Word.limit ≤ b.offset + (h.headerTag b).size ∨
        h.size < b.offset + (h.headerTag b).size := by omega
    refine (if_pos hsize).trans (congrArg Except.ok ?_)
    exact (decide_eq_false fun ha => hfits ⟨ha.1, ha.2.1⟩).symm

/-- **Resolving a handle never faults,** and its answer is the verdict. -/
theorem resolve_outcome (hfirst : 8 ≤ h.firstBlock.offset) (hsmall : h.size < Word.limit)
    (b : Block) : (h.resolve b).outcome = .ok (h.verdict b) := by
  have hregion : h.region.size = h.size := rfl
  unfold resolve verdict
  -- outside the heap nothing is read at all
  by_cases hin : h.Inside b
  · obtain ⟨hlow, h8, hhigh⟩ := hin
    have hinside : ¬ (b.offset < h.firstBlock.offset ∨ b.offset % alignment ≠ 0 ∨
        h.size ≤ b.offset) := by
      have : b.offset % alignment = 0 := h8
      omega
    have hheader := Block.headerWord_eq (r := h.region) (b := b) (by omega) (by omega) hsmall
    rw [if_neg hinside]
    simp only [Traced.outcome_bind, Traced.outcome_lift]
    refine bind_ok_iff.mpr ⟨_, hheader, ?_⟩
    refine bind_ok_iff.mpr ⟨_, framed_outcome (by omega) hhigh hsmall, ?_⟩
    by_cases ha : h.TagsAgree b
    · have hall : h.Inside b ∧ h.TagsAgree b := ⟨⟨hlow, h8, hhigh⟩, ha⟩
      rw [if_pos hall, if_pos (decide_eq_true ha)]
      show Traced.outcome (if (h.headerTag b).allocated = true then _ else _) = _
      split
      · rfl
      · rfl
    · rw [if_neg (by simpa using ha), if_neg fun hall => ha hall.2]
      rfl
  · have houtside : b.offset < h.firstBlock.offset ∨ b.offset % alignment ≠ 0 ∨
        h.size ≤ b.offset := by
      by_contra hnot
      have h8 : b.offset % alignment = 0 := by omega
      exact hin ⟨by omega, h8, by omega⟩
    rw [if_pos houtside, if_neg fun hall => hin hall.1]
    rfl

/-- A handle is turned down as free or as invalid, whatever the heap is. -/
theorem resolve_error {e : AllocError} (hok : (h.resolve b).outcome = .ok (.error e)) :
    e = .doubleFree b ∨ e = .invalidHandle b := by
  unfold resolve at hok
  split at hok
  · cases hok
    exact .inr rfl
  · simp only [Traced.outcome_bind, Traced.outcome_lift] at hok
    obtain ⟨header, -, hok⟩ := bind_ok_iff.mp hok
    obtain ⟨framed, -, hok⟩ := bind_ok_iff.mp hok
    split at hok
    · split at hok
      · cases hok
      · cases hok
        exact .inl rfl
    · cases hok
      exact .inr rfl

/-! ## The blocks of a sound heap -/

theorem Shows.first_le (hs : h.Shows o) : 8 ≤ h.firstBlock.offset := by
  have := hs.sound.laid.fenced.room
  omega

/-- A block of the outline lies where blocks may lie, and has its tags (`Shows.tagsAgree`). -/
theorem Shows.inside (hs : h.Shows o) (hv : v ∈ o.blocks) : h.Inside v.block := by
  obtain ⟨-, h8, hvs, -, hlow, hend⟩ := hs.sound.laid.bounds hv
  have hsize : h.arena.region.size = h.size := rfl
  exact ⟨hlow, h8, show v.offset < h.size by omega⟩

theorem Shows.headerTag_eq (hs : h.Shows o) (hv : v ∈ o.blocks) :
    h.headerTag v.block = v.tag :=
  (hs.sound.laid.framed v hv nofun).ofWord_header (hs.sound.laid.bounds hv).2.2.2.1

theorem Shows.tagsAgree (hs : h.Shows o) (hv : v ∈ o.blocks) : h.TagsAgree v.block := by
  obtain ⟨-, -, hvs, -, -, hend⟩ := hs.sound.laid.bounds hv
  have hframed := hs.sound.laid.framed v hv nofun
  unfold TagsAgree
  rw [hs.headerTag_eq hv]
  exact ⟨hvs, hend, hframed.footer.trans hframed.header.symm⟩

/-- The handle of a block in use is accepted. -/
theorem Shows.verdict_allocated (hs : h.Shows o) (hv : v ∈ o.blocks) (ha : v.allocated = true) :
    h.verdict v.block = .ok v.block := by
  unfold verdict
  rw [if_pos ⟨hs.inside hv, hs.tagsAgree hv⟩, hs.headerTag_eq hv]
  exact if_pos ha

/-- The handle of a free block is recognized as one. -/
theorem Shows.verdict_free (hs : h.Shows o) (hv : v ∈ o.blocks) (ha : v.allocated = false) :
    h.verdict v.block = .error (.doubleFree v.block) := by
  unfold verdict
  rw [if_pos ⟨hs.inside hv, hs.tagsAgree hv⟩, hs.headerTag_eq hv]
  exact if_neg (by simp [tag, ha])

/-- **On a sound heap** the verdict is what a handle gets. -/
theorem Shows.resolve_outcome (hs : h.Shows o) (b : Block) :
    (h.resolve b).outcome = .ok (h.verdict b) :=
  Heap.resolve_outcome hs.first_le hs.size_lt b

end Heap

end BoundaryTag
