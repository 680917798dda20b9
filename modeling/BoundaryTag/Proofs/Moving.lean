import BoundaryTag.Heap.Reallocate
import BoundaryTag.Proofs.Allocating

/-!
# Changing the size of a block, and moving it

`Resized` says what a change of size comes to, in place or not: one block in use takes
the place of another, as much of the payload is kept as both have room for, and nothing
else changes but free memory.

> `relocate_served`: with a new block at hand, a block moves there.

A payload is copied with everything in it, so odd words in it turn up in the new one
(`Carried`).
-/

namespace BoundaryTag

open BlockView (block tag Covers TagAt)
open Region (Changed Touched)

/-! ## Copies -/

namespace Region

/-- What a region becomes when a stretch of it is copied. -/
structure Copied (r s : Region) (source count target : Nat) : Prop where
  size_eq : s.size = r.size
  byte_eq : ∀ j, j < target ∨ target + count ≤ j → s.byte j = r.byte j
  copy_eq : ∀ i, i < count → s.byte (target + i) = r.byte (source + i)

variable {r s : Region} {source count target : Nat}

theorem exists_copied (hsource : source + count ≤ r.size) (htarget : target + count ≤ r.size)
    (hr : r.size < Word.limit) :
    ∃ s, r.copy source count target = .ok s ∧ Copied r s source count target := by
  refine ⟨r.put target (fun i => r.byte (source + i)) count, ?_, size_put .., ?_, ?_⟩
  · unfold copy
    refine bind_ok_iff.mpr ⟨_, Word.add_ok (by omega), ?_⟩
    rw [if_pos ⟨hsource, htarget⟩]
    rfl
  · exact fun j hj => byte_put_of_outside _ hj
  · intro i hi
    rw [byte_put, if_pos (by omega), Nat.add_sub_cancel_left]

theorem Copied.changed (h : Copied r s source count target) {within : Nat → Prop}
    (hw : ∀ j, target ≤ j → j < target + count → within j) : Changed r s within := by
  refine ⟨h.size_eq, fun j hj => h.byte_eq j ?_⟩
  by_contra hin
  exact hj (hw j (by omega) (by omega))

/-- The same bytes make the same number wherever they lie. -/
theorem number_shift {p q : Nat} (h : ∀ i, i < count → s.byte (p + i) = r.byte (q + i)) :
    s.number p count = r.number q count := by
  induction count generalizing p q with
  | zero => rfl
  | succ count ih =>
    rw [number, number, show s.byte p = r.byte q from h 0 (by omega)]
    rw [ih fun i hi => ?_]
    have := h (i + 1) (by omega)
    rwa [show p + (i + 1) = p + 1 + i by omega, show q + (i + 1) = q + 1 + i by omega] at this

/-- Whole words that are copied are odd where they were odd at the source. -/
theorem Copied.marked (h : Copied r s source count target) (hs : source % 8 = 0)
    (ht : target % 8 = 0) (hc : count % 8 = 0) {q : Nat} (hq : s.Marked q) :
    target ≤ q ∧ q + 8 ≤ target + count ∧ r.Marked (q - target + source) ∨ r.Marked q := by
  obtain ⟨h8, hodd⟩ := hq
  by_cases hin : target ≤ q ∧ q + 8 ≤ target + count
  · refine .inl ⟨hin.1, hin.2, by omega, ?_⟩
    have hword : s.word q = r.word (q - target + source) := by
      rw [word, word]
      apply number_shift
      intro i hi
      simp only [wordSize] at hi
      have hcopy := h.copy_eq (q - target + i) (by omega)
      rwa [show target + (q - target + i) = q + i by omega,
        show source + (q - target + i) = q - target + source + i by omega] at hcopy
    rwa [hword] at hodd
  · refine .inr ⟨h8, ?_⟩
    have hword : s.word q = r.word q := word_congr fun j h₁ h₂ => h.byte_eq j (by omega)
    rwa [hword] at hodd

end Region

namespace Heap

variable {h h₁ h' : Heap} {o o₁ o' : Outline} {n needed : Nat} {v w : BlockView}

/-! ## Blocks that take the place of others -/

/-- The odd words of the payload of `v` as they turn up in that of `w`. -/
def Carried (r : Region) (v w : BlockView) (q : Nat) : Prop :=
  w.offset ≤ q ∧ q + 24 ≤ w.offset + min v.size w.size ∧ r.Marked (q - w.offset + v.offset)

/-- What a change of size comes to: `w` is in use instead of `v`. The tags of `v` are
gone, unless it became longer where it lies. -/
structure Resized (h h' : Heap) (o o' : Outline) (needed : Nat) (v w : BlockView) : Prop where
  shows : h'.Shows o'
  inUse : ∃ others, (held o.blocks).Perm (v :: others) ∧ (held o'.blocks).Perm (w :: others)
  allocated : w.allocated = true
  fits : needed ≤ w.size ∧ w.size < needed + 32
  continues : ∃ asked granted, h.Continues h' asked granted
  payload_eq : ∀ i, i + 16 < min v.size w.size →
    h'.region.byte (w.offset + i) = h.region.byte (v.offset + i)
  touched : h.region.Touched h'.region (Arena.Free o v)
    (fun q => w.TagAt q ∨ w.offset ≠ v.offset ∧ Carried h.region v w q)
    fun q => v.TagAt q ∧ ¬ (w.offset = v.offset ∧ v.size ≤ w.size)

/-! ## Moving -/

/-- A payload can be copied from one block in use to another. -/
theorem Shows.exists_movePayload (hs : h.Shows o) (hv : v ∈ o.blocks) (hw : w ∈ o.blocks) :
    ∃ r, movePayload h.region v.block w.block = .ok (min v.size w.size - 16, r) ∧
      h.region.Copied r v.offset (min v.size w.size - 16) w.offset := by
  obtain ⟨-, -, hvs, -, -, hvend⟩ := hs.sound.laid.bounds hv
  obtain ⟨-, -, hws, -, -, hwend⟩ := hs.sound.laid.bounds hw
  have hregion : h.arena.region = h.region := rfl
  have hvtag := hs.sound.laid.tag_eq hv nofun
  have hwtag := hs.sound.laid.tag_eq hw nofun
  rw [hregion] at hvend hwend hvtag hwtag
  have hmin : min (v.size - 16) (w.size - 16) = min v.size w.size - 16 := by omega
  have hsource : v.offset + (min v.size w.size - 16) ≤ h.region.size := by omega
  have htarget : w.offset + (min v.size w.size - 16) ≤ h.region.size := by omega
  obtain ⟨r, hcopy, hcopied⟩ := Region.exists_copied hsource htarget hs.size_lt
  refine ⟨r, ?_, hcopied⟩
  unfold movePayload
  refine bind_ok_iff.mpr ⟨_, Block.payloadSize_eq hvtag (show 16 ≤ v.size by omega), ?_⟩
  refine bind_ok_iff.mpr ⟨_, Block.payloadSize_eq hwtag (show 16 ≤ w.size by omega), ?_⟩
  show Region.copy _ _ (min (v.size - 16) (w.size - 16)) _ >>= _ = _
  rw [hmin]
  refine bind_ok_iff.mpr ⟨r, hcopy, ?_⟩
  rw [← hmin]
  rfl

/-- A change inside the payload of a block in use leaves a heap as it shows. -/
theorem Shows.withRegion (hs : h.Shows o) (hw : w ∈ o.blocks) (ha : w.allocated = true)
    {r : Region} (hr : Changed h.region r fun j => w.offset ≤ j ∧ j + 16 < w.offset + w.size) :
    (h.withRegion r).Shows o := by
  obtain ⟨hw32, -, hws, -, -, -⟩ := hs.sound.laid.bounds hw
  have hframed : r.Framed w := (hs.sound.laid.framed w hw nofun).of_changed hr
    (fun j h₁ h₂ hj => by omega) fun j h₁ h₂ hj => by omega
  have hshown := hs.sound.of_changed hw ha (s := r)
    (hr.mono fun j hj => by simp only [Covers]; omega) fun _ => hframed
  exact hs.withArena hshown hr.size_eq

section Relocation

variable (hs : h.Shows o) (hserved : Served h h₁ o o₁ needed w) (hv : v ∈ o.blocks)
  (ha : v.allocated = true)

include hserved

/-- What was in use before an allocation still is, and so is the new block. -/
theorem Served.mem_blocks {u : BlockView} (hu : u ∈ w :: held o.blocks) :
    u ∈ o₁.blocks ∧ u.allocated = true :=
  mem_held.mp (hserved.inUse.mem_iff.mpr hu)

theorem Served.new_mem : w ∈ o₁.blocks := (hserved.mem_blocks (List.mem_cons_self ..)).1

include hv ha

theorem Served.old_mem : v ∈ o₁.blocks :=
  (hserved.mem_blocks (List.mem_cons_of_mem _ (mem_held.mpr ⟨hv, ha⟩))).1

/-- The new block is none of those in use before. -/
theorem Served.ne : w ≠ v := by
  intro he
  have hnodup := hserved.inUse.nodup_iff.mp hserved.shows.sound.laid.tiling.held_nodup
  exact (List.nodup_cons.mp hnodup).1 (he ▸ mem_held.mpr ⟨hv, ha⟩)

theorem Served.offset_ne : w.offset ≠ v.offset := by
  intro he
  have htiling := hserved.shows.sound.laid.tiling
  exact hserved.ne hv ha (htiling.eq_of_offset_eq hserved.new_mem (hserved.old_mem hv ha) he)

/-- Its bytes are neither free nor those of another block. -/
theorem Served.new_not_free {j : Nat} (hj : w.Covers j) : ¬ Arena.Free o₁ v j := by
  have htiling := hserved.shows.sound.laid.tiling
  rintro (hin | hin)
  · exact htiling.not_inVacant hserved.new_mem hserved.allocated hj hin
  · simp only [Covers] at hj hin
    rcases htiling.eq_or_apart hserved.new_mem (hserved.old_mem hv ha) with he | hlt | hlt
    · exact hserved.ne hv ha he
    · omega
    · omega

include hs

/-- A stretch of a block in use that is not the new one is as it was before an allocation. -/
theorem Served.byte_eq {j : Nat} (hj : v.Covers j) : h₁.region.byte j = h.region.byte j := by
  obtain ⟨-, -, -, -, -, hend⟩ := hs.sound.laid.bounds hv
  have hregion : h.arena.region.size = h.region.size := rfl
  have hin := hj.2
  exact hserved.touched.byte_eq j (by omega) (hs.sound.laid.tiling.not_inVacant hv ha hj)

/-- The odd words that a moved payload brings along were odd before. -/
theorem Served.carried {q : Nat} (hq : Carried h₁.region v w q) : Carried h.region v w q := by
  obtain ⟨hlow, hhigh, h8, hodd⟩ := hq
  refine ⟨hlow, hhigh, h8, ?_⟩
  have hword : h₁.region.word (q - w.offset + v.offset) =
      h.region.word (q - w.offset + v.offset) :=
    Region.word_congr fun j h₁ h₂ => hserved.byte_eq hs hv ha (by simp only [Covers]; omega)
  rwa [hword] at hodd

/-- An allocation and the copy that follows it keep to free memory. -/
theorem Served.touched_copied {r : Region}
    (hcopied : h₁.region.Copied r v.offset (min v.size w.size - 16) w.offset) :
    h.region.Touched r (InVacant o.blocks) (fun q => w.TagAt q ∨ Carried h.region v w q)
      fun _ => False := by
  have htiling := hs.sound.laid.tiling
  obtain ⟨asked, granted, hc⟩ := hserved.continues
  have htiling₁ := hserved.shows.sound.laid.tiling
  rw [hc.firstBlock_eq] at htiling₁
  obtain ⟨-, hv8, hvs, hvs8, -, -⟩ := hserved.shows.sound.laid.bounds (hserved.old_mem hv ha)
  obtain ⟨-, hw8, hws, hws8, -, -⟩ := hserved.shows.sound.laid.bounds hserved.new_mem
  have hchanged : Changed h₁.region r fun j => w.offset ≤ j ∧ j + 16 < w.offset + w.size :=
    hcopied.changed fun j h₁ h₂ => ⟨h₁, by omega⟩
  have hmoved : h₁.region.Touched r (fun j => w.offset ≤ j ∧ j + 16 < w.offset + w.size)
      (Carried h.region v w) fun _ => False := by
    apply hchanged.touched
    intro q hq
    rcases hcopied.marked hv8 hw8 (by omega) hq with ⟨hlow, hhigh, hold⟩ | hold
    · exact .inl (hserved.carried hs hv ha ⟨hlow, by omega, hold⟩)
    · exact .inr ⟨id, hold⟩
  -- the new block lies in what was free before the allocation
  refine (hserved.touched.trans hmoved fun j hj hin => ?_).mono (fun _ _ hj => hj)
    (fun _ hq => hq) fun _ hq => hq.elim
  exact htiling.inVacant_of_new htiling₁ hserved.inUse hj (by simp only [Covers]; omega)

/-- **Moving.** With a new block at hand, the payload is copied and the old block is
freed. -/
theorem relocate_served (hok : (h.allocateBlock n).outcome = .ok (.ok w.block, h₁)) :
    ∃ h', (h.relocate v.block n).outcome = .ok (.ok w.block, h') ∧
      h₁.Continues h' 0 0 ∧ h'.size = h₁.size ∧ w.offset ≠ v.offset ∧
      Resized h h' o (o₁.release v.block) needed v w := by
  have hs₁ := hserved.shows
  have hv₁ := hserved.old_mem hv ha
  have hw₁ := hserved.new_mem
  obtain ⟨r, hmove, hcopied⟩ := hs₁.exists_movePayload hv₁ hw₁
  have hchanged : Changed h₁.region r fun j => w.offset ≤ j ∧ j + 16 < w.offset + w.size :=
    hcopied.changed fun j h₁ h₂ => ⟨h₁, by omega⟩
  have hs₂ := hs₁.withRegion hw₁ hserved.allocated hchanged
  obtain ⟨a, hrelease, hfreed⟩ := hs₂.release_freed hv₁ ha
  have hoff := hserved.offset_ne hv ha
  obtain ⟨asked, granted, hc⟩ := hserved.continues
  have hc' : h₁.Continues ((h₁.withRegion r).withArena a) 0 0 := ⟨rfl, rfl, rfl, rfl⟩
  have herase := List.perm_cons_erase (mem_held.mpr ⟨hv, ha⟩)
  refine ⟨(h₁.withRegion r).withArena a, ?_, hc', hfreed.size_eq.trans hchanged.size_eq, hoff,
    ⟨hfreed.shows, ⟨(held o.blocks).erase v, herase, ?_⟩, hserved.allocated, hserved.fits,
      ⟨_, _, hc.trans hc'⟩, ?_, ?_⟩⟩
  · unfold relocate
    rw [Traced.outcome_bind]
    refine bind_ok_iff.mpr ⟨_, hok, ?_⟩
    simp only [Traced.outcome_bind, Traced.outcome_lift, Traced.outcome_pure,
      Traced.outcome_emit]
    refine bind_ok_iff.mpr ⟨_, hmove, bind_ok_iff.mpr ⟨_, rfl, ?_⟩⟩
    exact bind_ok_iff.mpr ⟨a, hrelease, rfl⟩
  · -- the old block out, the new one in
    have hall : (v :: held (o₁.release v.block).blocks).Perm
        (v :: w :: (held o.blocks).erase v) :=
      (hfreed.inUse.symm.trans hserved.inUse).trans ((herase.cons w).trans (.swap ..))
    exact hall.cons_inv
  · intro i hi
    -- freeing the old block spares the copy, which was made of bytes the allocation spared
    have hcover : w.Covers (w.offset + i) := by
      simp only [Covers]
      omega
    have hend := (hs₁.sound.laid.bounds hw₁).2.2.2.2.2
    have hsize : r.size = h₁.arena.region.size := hchanged.size_eq
    rw [hfreed.touched.byte_eq (w.offset + i) (show w.offset + i + 8 < r.size by omega)
      (hserved.new_not_free hv ha hcover)]
    show r.byte (w.offset + i) = _
    rw [hcopied.copy_eq i (by omega)]
    exact hserved.byte_eq hs hv ha (by simp only [Covers]; omega)
  · have htiling := hs.sound.laid.tiling
    have htiling₁ := hs₁.sound.laid.tiling
    rw [hc.firstBlock_eq] at htiling₁
    have hcopy : h.region.Touched r (Arena.Free o v) _ _ :=
      (hserved.touched_copied hs hv ha hcopied).mono (fun _ _ hj => .inl hj) (fun _ hq => hq)
        fun _ hq => hq
    refine (hcopy.trans hfreed.touched ?_).mono (fun _ _ hj => hj)
      ?_ fun q hq => .inr hq.1
    · intro j hj hin
      refine hin.imp_left fun hin => htiling.inVacant_of_held htiling₁ (fun u hu => ?_) hj hin
      exact (hserved.mem_blocks (List.mem_cons_of_mem _ hu)).1
    · intro q hq
      rcases hq with (hq | hq) | hq
      · exact .inl hq
      · exact .inr ⟨hoff, hq⟩
      · exact hq.elim

end Relocation

end Heap

end BoundaryTag
