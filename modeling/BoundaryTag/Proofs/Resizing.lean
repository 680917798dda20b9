import BoundaryTag.Proofs.Moving

/-!
# Reallocating

> `shrink_resized`, `lengthen_absorb`, `lengthen_relocate`: the ways in which a block
> is resized, each with the heap that it leaves.
>
> `exists_settled`: the four ends of a change of size, and what decides between them.
>
> `exists_reallocate`: reallocating a block in use always comes to an end.
-/

namespace BoundaryTag

open BlockView (block tag Covers TagAt)
open Region (Changed Touched)

namespace Outline

/-- The tag behind a block: that of the next block, or of the epilogue. -/
def tagBehind (o : Outline) (b : Block) : Tag := (o.behind b).head?.elim ⟨0, true⟩ tag

variable {o : Outline} {start stop : Nat} {v : BlockView} {needed : Nat}

/-- A surplus that makes no block changes nothing. -/
theorem shrink_eq_self (h : Tiling start o.blocks stop) (hv : v ∈ o.blocks)
    (ha : v.allocated = true) (hs : ¬ 32 ≤ v.size - needed) : o.shrink v.block needed = o := by
  have hblock : (⟨v.block.offset, v.size, true⟩ : BlockView) = v := by
    obtain ⟨off, size, allocated⟩ := v
    rw [show allocated = true from ha]
    rfl
  unfold shrink occupiedBlocks occupiedList
  rw [sizeOf_eq h hv, if_neg hs, if_neg hs, hblock, ← blocks_eq h hv]

end Outline

namespace Heap

variable {h h' : Heap} {o o' : Outline} {n needed : Nat} {v next : BlockView}
  {rest : List BlockView}

/-! ## In place -/

/-- A block that is long enough keeps its place, and gives up what makes a block. -/
theorem shrink_resized (hs : h.Shows o) (hv : v ∈ o.blocks) (ha : v.allocated = true)
    (hn : 32 ≤ needed) (hn8 : needed % 8 = 0) (hle : needed ≤ v.size) :
    ∃ h', (h.shrink v.block v.size needed).outcome = .ok h' ∧ h.Continues h' 0 0 ∧
      h'.size = h.size ∧
      Resized h h' o (o.shrink v.block needed) needed v
        ⟨v.offset, spanned needed v.size, true⟩ := by
  have htiling := hs.sound.laid.tiling
  have hheld := o.held_shrink v.block needed
  rw [Outline.sizeOf_eq htiling hv] at hheld
  have hinUse : ∃ others, (held o.blocks).Perm (v :: others) ∧
      (held (o.shrink v.block needed).blocks).Perm
        (⟨v.offset, spanned needed v.size, true⟩ :: others) :=
    ⟨o.others v.block, Outline.held_eq_of_allocated htiling hv ha, hheld⟩
  have hfits : needed ≤ spanned needed v.size ∧ spanned needed v.size < needed + 32 :=
    ⟨(le_spanned hle).1, spanned_lt⟩
  unfold shrink
  by_cases hrest : 32 ≤ v.size - needed
  · obtain ⟨a, hok, hshown, hreshaped⟩ := Arena.shrink_shown hs.sound hv ha hn hn8 hrest
    -- the surplus makes a block
    have hspan : spanned needed v.size = needed := if_pos hrest
    rw [if_pos hrest]
    refine ⟨h.withArena a, ?_, continues_withArena h a, hreshaped.changed.size_eq,
      hs.withArena hshown hreshaped.changed.size_eq, hinUse, rfl, hfits,
      ⟨0, 0, continues_withArena h a⟩, ?_, ?_⟩
    · simp only [Traced.outcome_bind]
      exact bind_ok_iff.mpr ⟨_, rfl, bind_ok_iff.mpr ⟨a, hok, rfl⟩⟩
    · intro i hi
      rw [hspan] at hi
      dsimp only at hi
      exact hreshaped.payload_eq (v.offset + i) (Nat.le_add_right ..) (by omega)
    · apply hreshaped.changed.touched
      intro q hq
      rw [hspan]
      rcases hreshaped.marked q hq with he | he | ⟨hne, hold⟩
      · exact .inl (.inl (.inl he))
      · exact .inl (.inl (.inr he))
      · by_cases he : q = v.offset - 8
        · exact .inl (.inl (.inl he))
        · exact .inr ⟨fun hgone => hgone.1.elim he hne, hold⟩
  · -- the surplus stays where it is
    have hspan : spanned needed v.size = v.size := if_neg hrest
    rw [if_neg hrest, Outline.shrink_eq_self htiling hv ha hrest] at *
    refine ⟨h, rfl, .refl h, rfl, hs, hinUse, rfl, hfits, ⟨0, 0, .refl h⟩, fun _ _ => rfl, ?_⟩
    rw [hspan]
    exact (Touched.refl ..).mono (fun _ _ hj => hj) (fun _ hq => hq)
      fun q hq => hq.2 ⟨rfl, Nat.le_refl _⟩

/-- What is read behind a block is the tag of the next one, and the two together are no
longer than the region. -/
theorem Shows.tag_behind (hs : h.Shows o) (hv : v ∈ o.blocks) :
    Block.tag ⟨v.offset + v.size⟩ h.region = .ok (o.tagBehind v.block) ∧
      v.size + (o.tagBehind v.block).size ≤ h.size := by
  have hlaid := hs.sound.laid
  have hsplit := Outline.blocks_eq hlaid.tiling hv
  rw [hsplit] at hlaid
  refine ⟨hlaid.tag_following fun _ _ => nofun, ?_⟩
  have hend := (hs.sound.laid.bounds hv).2.2.2.2.2
  have hregion : h.arena.region.size = h.size := rfl
  unfold Outline.tagBehind
  cases hb : o.behind v.block with
  | nil =>
    show v.size + 0 ≤ _
    omega
  | cons next rest =>
    have hnext : next ∈ o.blocks := by
      rw [hsplit, hb]
      simp
    have htiling := hs.sound.laid.tiling
    rw [hsplit, hb] at htiling
    have hoff : next.offset = v.offset + v.size := (tiling_mid.mp htiling).2.2.2.1
    have hnend := (hs.sound.laid.bounds hnext).2.2.2.2.2
    show v.size + next.size ≤ _
    omega

/-- What lengthening comes to when the reads it begins with are done. -/
theorem Shows.lengthen_outcome (hs : h.Shows o) (hv : v ∈ o.blocks) :
    (h.lengthen v.block v.size needed n).outcome =
      if (o.tagBehind v.block).allocated = false ∧
          needed ≤ v.size + (o.tagBehind v.block).size then
        (h.arena.unlink ⟨v.offset + v.size⟩).outcome >>= fun a =>
          (a.occupy v.block needed (v.size + (o.tagBehind v.block).size)).outcome >>= fun a' =>
            .ok (.ok v.block, h.withArena a')
      else (h.relocate v.block n).outcome := by
  obtain ⟨htag, hlong⟩ := hs.tag_behind hv
  have hsmall := hs.size_lt
  have hend := (hs.sound.laid.bounds hv).2.2.2.2.2
  have hregion : h.arena.region.size = h.size := rfl
  have hown : v.block.tag h.region = .ok v.tag := hs.sound.laid.tag_eq hv nofun
  have hnext : v.block.following h.region = .ok ⟨v.offset + v.size⟩ :=
    Block.following_eq hown (show v.offset + v.size < _ by omega)
  have hadd : Word.add v.size (o.tagBehind v.block).size =
      .ok (v.size + (o.tagBehind v.block).size) := Word.add_ok (by omega)
  unfold lengthen
  simp only [Traced.outcome_bind, Traced.outcome_lift]
  rw [bind_of_ok hnext, bind_of_ok (Block.size_eq htag), bind_of_ok hadd,
    bind_of_ok (Block.allocated_eq htag)]
  split
  · simp only [Traced.outcome_bind, Traced.outcome_pure, Traced.outcome_emit]
    rfl
  · rfl

/-- A block that is too short takes in the free block behind it, if that is enough. -/
theorem lengthen_absorb (hs : h.Shows o) (hv : v ∈ o.blocks) (ha : v.allocated = true)
    (hn : 32 ≤ needed) (hn8 : needed % 8 = 0) (hshort : v.size < needed)
    (hb : o.behind v.block = next :: rest) (hna : next.allocated = false)
    (hle : needed ≤ v.size + next.size) :
    ∃ h', (h.lengthen v.block v.size needed n).outcome = .ok (.ok v.block, h') ∧
      h.Continues h' 0 0 ∧ h'.size = h.size ∧
      Resized h h' o (o.absorb v.block next needed) needed v
        ⟨v.offset, spanned needed (v.size + next.size), true⟩ := by
  have htiling := hs.sound.laid.tiling
  have hbehind : o.tagBehind v.block = next.tag := by
    rw [Outline.tagBehind, hb]
    rfl
  have hnext : next.block = ⟨v.offset + v.size⟩ := by
    rw [Outline.blocks_eq htiling hv, hb] at htiling
    exact congrArg Block.mk (tiling_mid.mp htiling).2.2.2.1
  obtain ⟨a₁, a, hok₁, hok, hshown, hreshaped⟩ := Arena.absorb_shown hs.sound hv ha hb hna hn
    hn8 (Nat.le_of_lt hshort) hle
  have hheld := Outline.held_absorb needed hb hna
  rw [Outline.sizeOf_eq hs.sound.laid.tiling hv] at hheld
  have hspan := (le_spanned hle).1
  refine ⟨h.withArena a, ?_, continues_withArena h a, hreshaped.changed.size_eq,
    hs.withArena hshown hreshaped.changed.size_eq,
    ⟨o.others v.block, Outline.held_eq_of_allocated hs.sound.laid.tiling hv ha, hheld⟩, rfl,
    ⟨hspan, spanned_lt⟩, ⟨0, 0, continues_withArena h a⟩, ?_, ?_⟩
  · rw [hs.lengthen_outcome hv, hbehind, if_pos ⟨hna, hle⟩, ← hnext]
    exact bind_ok_iff.mpr ⟨a₁, hok₁, bind_ok_iff.mpr ⟨a, hok, rfl⟩⟩
  · intro i hi
    exact hreshaped.payload_eq (v.offset + i) (Nat.le_add_right ..) (by omega)
  · apply hreshaped.changed.touched
    intro q hq
    rcases hreshaped.marked q hq with he | he | ⟨-, hold⟩
    · exact .inl (.inl (.inl he))
    · exact .inl (.inl (.inr he))
    · exact .inr ⟨fun hgone => hgone.2 ⟨rfl, show v.size ≤ spanned _ _ by omega⟩, hold⟩

/-- A block that is too short and has no free block behind it that is long enough has to
move. -/
theorem lengthen_relocate (hs : h.Shows o) (hv : v ∈ o.blocks)
    (hb : ¬ ((o.tagBehind v.block).allocated = false ∧
      needed ≤ v.size + (o.tagBehind v.block).size)) :
    (h.lengthen v.block v.size needed n).outcome = (h.relocate v.block n).outcome := by
  rw [hs.lengthen_outcome hv, if_neg hb]

/-! ## The ends of a change of size -/

theorem relocate_of_error {b : Block} {e : AllocError}
    (hok : (h.allocateBlock n).outcome = .ok (.error e, h')) :
    (h.relocate b n).outcome = .ok (.error e, h') := by
  unfold relocate
  rw [Traced.outcome_bind]
  exact bind_ok_iff.mpr ⟨_, hok, rfl⟩

/-- A block is resized by its own size. -/
theorem Shows.resize_outcome (hs : h.Shows o) (hv : v ∈ o.blocks) :
    (h.resize v.block needed n).outcome =
      if v.size < needed then (h.lengthen v.block v.size needed n).outcome
      else (h.shrink v.block v.size needed).outcome >>= fun h' => .ok (.ok v.block, h') := by
  unfold resize
  simp only [Traced.outcome_bind, Traced.outcome_lift]
  rw [bind_of_ok (hs.size_shown hv)]
  split
  · rfl
  · rw [Traced.outcome_bind]
    rfl

/-- How changing the size of the block `v` to `needed` bytes ended, by what decides it. -/
inductive Settled (h : Heap) (o : Outline) (n needed : Nat) (v : BlockView) :
    Except AllocError Handle → Heap → Prop
  | kept {h' : Heap} (long : needed ≤ v.size) (size_eq : h'.size = h.size)
      (resized : Resized h h' o (o.shrink v.block needed) needed v
        ⟨v.offset, spanned needed v.size, true⟩) : Settled h o n needed v (.ok v.block) h'
  | absorbed {h' : Heap} {next : BlockView} (short : v.size < needed)
      (enough : (o.tagBehind v.block).allocated = false ∧
        needed ≤ v.size + (o.tagBehind v.block).size)
      (resized : Resized h h' o (o.absorb v.block next needed) needed v
        ⟨v.offset, spanned needed (v.size + next.size), true⟩) :
      Settled h o n needed v (.ok v.block) h'
  | moved {h₁ h' : Heap} {o₁ : Outline} {w : BlockView} (short : v.size < needed)
      (stuck : ¬ ((o.tagBehind v.block).allocated = false ∧
        needed ≤ v.size + (o.tagBehind v.block).size))
      (allocated : (h.allocateBlock n).outcome = .ok (.ok w.block, h₁))
      (served : Served h h₁ o o₁ needed w)
      (resized : Resized h h' o (o₁.release v.block) needed v w) :
      Settled h o n needed v (.ok w.block) h'
  | refused {e : AllocError} {h' : Heap} (short : v.size < needed)
      (stuck : ¬ ((o.tagBehind v.block).allocated = false ∧
        needed ≤ v.size + (o.tagBehind v.block).size))
      (allocated : (h.allocateBlock n).outcome = .ok (.error e, h'))
      (error_eq : e = .outOfMemory n) (unserved : h.Unserved h') :
      Settled h o n needed v (.error e) h'

/-- **The four ends of a change of size.** -/
theorem exists_settled (hs : h.Shows o) (hv : v ∈ o.blocks) (ha : v.allocated = true)
    (hn : blockSizeFor? n = some needed) :
    ∃ answer h', (h.resize v.block needed n).outcome = .ok (answer, h') ∧
      h.Settled o n needed v answer h' := by
  obtain ⟨hn8, hn32, -⟩ := blockSizeFor?_eq_some hn
  rw [hs.resize_outcome hv]
  split
  · next hshort =>
    by_cases hb : (o.tagBehind v.block).allocated = false ∧
        needed ≤ v.size + (o.tagBehind v.block).size
    · -- the tag behind is free, so it is a block and not the epilogue
      have henough := hb
      cases hbehind : o.behind v.block with
      | nil =>
        rw [Outline.tagBehind, hbehind] at hb
        cases hb.1
      | cons next rest =>
        rw [Outline.tagBehind, hbehind] at hb
        obtain ⟨h', hok, -, -, hresized⟩ :=
          lengthen_absorb hs hv ha hn32 hn8 hshort hbehind hb.1 hb.2
        exact ⟨_, h', hok, .absorbed hshort henough hresized⟩
    · rw [lengthen_relocate hs hv hb]
      obtain ⟨answer, h₁, hok, hend⟩ := exists_allocateBlock hs n
      cases answer with
      | error e => exact ⟨_, h₁, relocate_of_error hok, .refused hshort hb hok hend.1 hend.2⟩
      | ok b =>
        obtain ⟨needed', o₁, w, hn', rfl, hserved⟩ := hend
        cases hn.symm.trans hn'
        obtain ⟨h', hok', -, -, -, hresized⟩ := relocate_served hs hserved hv ha hok
        exact ⟨_, h', hok', .moved hshort hb hok hserved hresized⟩
  · next hlong =>
    have hle := Nat.le_of_not_lt hlong
    obtain ⟨h', hok, -, hsize, hresized⟩ := shrink_resized hs hv ha hn32 hn8 hle
    exact ⟨.ok v.block, h', bind_ok_iff.mpr ⟨h', hok, rfl⟩, .kept hle hsize hresized⟩

theorem Settled.exists_shows {answer : Except AllocError Handle} (hs : h.Shows o)
    (hend : h.Settled o n needed v answer h') : ∃ o', h'.Shows o' := by
  cases hend with
  | kept _ _ resized => exact ⟨_, resized.shows⟩
  | absorbed _ _ resized => exact ⟨_, resized.shows⟩
  | moved _ _ _ _ resized => exact ⟨_, resized.shows⟩
  | refused _ _ _ _ unserved => exact ⟨o, unserved.shows hs⟩

/-! ## Reallocating -/

/-- What reallocating the block `v` may end in. -/
def Reallocated (h h' : Heap) (o : Outline) (n : Nat) (v : BlockView) :
    Except AllocError (Option Handle) → Prop
  | .error e => n ≠ 0 ∧ e = .outOfMemory n ∧ h.Unserved h'
  | .ok none => n = 0 ∧ ∃ o', Freed h h' o o' v
  | .ok (some b) => n ≠ 0 ∧ ∃ needed o' w, blockSizeFor? n = some needed ∧ b = w.block ∧
      Resized h h' o o' needed v w

/-- A request of no bytes frees. -/
theorem reallocate_zero {b : Block} (hok : (h.free (some b)).outcome = .ok (.ok (), h')) :
    (h.reallocate (some b) 0).outcome = .ok (.ok none, h') := by
  unfold reallocate
  dsimp only
  rw [if_pos rfl, Traced.outcome_bind]
  exact bind_ok_iff.mpr ⟨_, hok, rfl⟩

/-- A size that rounds up to no word. -/
theorem reallocate_overflow (hs : h.Shows o) (hv : v ∈ o.blocks) (ha : v.allocated = true)
    (hzero : n ≠ 0) (hn : blockSizeFor? n = none) :
    (h.reallocate (some v.block) n).outcome = .ok (.error (.outOfMemory n), h) := by
  unfold reallocate
  dsimp only
  rw [if_neg hzero, Traced.outcome_bind, bind_of_ok (hs.resolve_outcome v.block),
    hs.verdict_allocated hv ha, hn]
  rfl

/-- Any other request resizes, and checks make no difference to that. -/
theorem reallocate_of_resize {answer : Except AllocError Handle} (hs : h.Shows o)
    (hv : v ∈ o.blocks) (ha : v.allocated = true) (hzero : n ≠ 0)
    (hn : blockSizeFor? n = some needed)
    (hok : (h.resize v.block needed n).outcome = .ok (answer, h')) (hs' : h'.Shows o') :
    (h.reallocate (some v.block) n).outcome = .ok (answer.map some, h') := by
  unfold reallocate
  dsimp only
  rw [if_neg hzero, Traced.outcome_bind, bind_of_ok (hs.resolve_outcome v.block),
    hs.verdict_allocated hv ha, hn]
  dsimp only
  rw [Traced.outcome_bind, bind_of_ok hok]
  cases answer with
  | error e => rfl
  | ok b =>
    dsimp only
    rw [Traced.outcome_bind]
    exact bind_ok_iff.mpr ⟨_, hs'.selfCheck "reallocate", rfl⟩

/-- Reallocating to a size that is a word ends as the change of size does. -/
theorem exists_reallocate_settled (hs : h.Shows o) (hv : v ∈ o.blocks) (ha : v.allocated = true)
    (hzero : n ≠ 0) (hn : blockSizeFor? n = some needed) :
    ∃ answer h', (h.reallocate (some v.block) n).outcome = .ok (answer.map some, h') ∧
      h.Settled o n needed v answer h' := by
  obtain ⟨answer, h', hok, hend⟩ := exists_settled hs hv ha hn
  obtain ⟨o', hs'⟩ := hend.exists_shows hs
  exact ⟨answer, h', reallocate_of_resize hs hv ha hzero hn hok hs', hend⟩

/-- **Reallocating a block in use always comes to an end.** -/
theorem exists_reallocate (hs : h.Shows o) (hv : v ∈ o.blocks) (ha : v.allocated = true)
    (n : Nat) :
    ∃ answer h', (h.reallocate (some v.block) n).outcome = .ok (answer, h') ∧
      Reallocated h h' o n v answer := by
  by_cases hzero : n = 0
  · obtain ⟨a, hok, hfreed⟩ := exists_free hs hv ha
    subst hzero
    exact ⟨.ok none, _, reallocate_zero hok, rfl, _, hfreed⟩
  · cases hn : blockSizeFor? n with
    | none => exact ⟨_, h, reallocate_overflow hs hv ha hzero hn, hzero, rfl, .inl rfl⟩
    | some needed =>
      obtain ⟨answer, h', hok, hend⟩ := exists_reallocate_settled hs hv ha hzero hn
      refine ⟨_, h', hok, ?_⟩
      cases hend with
      | kept _ _ resized => exact ⟨hzero, needed, _, ⟨_, _, true⟩, hn, rfl, resized⟩
      | absorbed _ _ resized => exact ⟨hzero, needed, _, ⟨_, _, true⟩, hn, rfl, resized⟩
      | moved _ _ _ _ resized => exact ⟨hzero, needed, _, _, hn, rfl, resized⟩
      | refused _ _ _ error_eq unserved => exact ⟨hzero, error_eq, unserved⟩

/-- Without a handle, to reallocate is to allocate. -/
theorem reallocate_none (h : Heap) (n : Nat) :
    (h.reallocate none n).outcome =
      (h.allocate n).outcome >>= fun found => .ok (found.1.map some, found.2) := by
  unfold reallocate
  rw [Traced.outcome_bind]
  rfl

/-! ## Failures -/

theorem relocate_error {b : Block} {e : AllocError}
    (hok : (h.relocate b n).outcome = .ok (.error e, h')) : e = .outOfMemory n ∧ h.Unserved h' := by
  unfold relocate at hok
  rw [Traced.outcome_bind] at hok
  obtain ⟨⟨found, h₁⟩, hfound, hok⟩ := bind_ok_iff.mp hok
  cases found with
  | error e' =>
    cases hok
    exact allocateBlock_error hfound
  | ok target =>
    simp only [Traced.outcome_bind, Traced.outcome_pure, Traced.outcome_emit] at hok
    obtain ⟨_, -, hok⟩ := bind_ok_iff.mp hok
    obtain ⟨_, -, hok⟩ := bind_ok_iff.mp hok
    obtain ⟨_, -, hok⟩ := bind_ok_iff.mp hok
    cases hok

/-- **Nothing but a lack of memory keeps a block from being resized,** whatever state the
heap is in. -/
theorem resize_error {b : Block} {e : AllocError}
    (hok : (h.resize b needed n).outcome = .ok (.error e, h')) :
    e = .outOfMemory n ∧ h.Unserved h' := by
  unfold resize at hok
  rw [Traced.outcome_bind] at hok
  obtain ⟨current, -, hok⟩ := bind_ok_iff.mp hok
  split at hok
  · unfold lengthen at hok
    simp only [Traced.outcome_bind] at hok
    obtain ⟨next, -, hok⟩ := bind_ok_iff.mp hok
    obtain ⟨size, -, hok⟩ := bind_ok_iff.mp hok
    obtain ⟨combined, -, hok⟩ := bind_ok_iff.mp hok
    obtain ⟨used, -, hok⟩ := bind_ok_iff.mp hok
    split at hok
    · simp only [Traced.outcome_bind, Traced.outcome_pure, Traced.outcome_emit] at hok
      obtain ⟨_, -, hok⟩ := bind_ok_iff.mp hok
      obtain ⟨_, -, hok⟩ := bind_ok_iff.mp hok
      obtain ⟨_, -, hok⟩ := bind_ok_iff.mp hok
      cases hok
    · exact relocate_error hok
  · rw [Traced.outcome_bind] at hok
    obtain ⟨_, -, hok⟩ := bind_ok_iff.mp hok
    cases hok

/-- **Reallocating fails** by turning the handle down or for lack of memory. -/
theorem reallocate_error {b : Block} {e : AllocError}
    (hok : (h.reallocate (some b) n).outcome = .ok (.error e, h')) :
    (h.resolve b).outcome = .ok (.error e) ∧ h' = h ∨ e = .outOfMemory n ∧ h.Unserved h' := by
  unfold reallocate at hok
  dsimp only at hok
  split at hok
  · rw [Traced.outcome_bind] at hok
    obtain ⟨⟨answer, h₁⟩, hfree, hok⟩ := bind_ok_iff.mp hok
    cases answer with
    | error e' =>
      cases hok
      exact .inl (free_error hfree)
    | ok _ => cases hok
  · rw [Traced.outcome_bind] at hok
    obtain ⟨found, hfound, hok⟩ := bind_ok_iff.mp hok
    cases found with
    | error e' =>
      cases hok
      exact .inl ⟨hfound, rfl⟩
    | ok b' =>
      dsimp only at hok
      split at hok
      · cases hok
        exact .inr ⟨rfl, .inl rfl⟩
      · rw [Traced.outcome_bind] at hok
        obtain ⟨⟨resized, h₁⟩, hresize, hok⟩ := bind_ok_iff.mp hok
        cases resized with
        | error e' =>
          cases hok
          exact .inr (resize_error hresize)
        | ok b'' =>
          dsimp only at hok
          rw [Traced.outcome_bind] at hok
          obtain ⟨_, -, hok⟩ := bind_ok_iff.mp hok
          cases hok

/-- Without a handle it is the allocation that fails. -/
theorem reallocate_none_error {e : AllocError}
    (hok : (h.reallocate none n).outcome = .ok (.error e, h')) :
    e = .outOfMemory n ∧ h.Unserved h' := by
  rw [reallocate_none] at hok
  obtain ⟨⟨answer, h₁⟩, hallocate, hok⟩ := bind_ok_iff.mp hok
  cases answer with
  | error e' =>
    cases hok
    exact allocate_error hallocate
  | ok b => cases hok

/-- A handle that is accepted is not turned down after all. -/
theorem reallocate_of_verdict_ok {b : Block} {e : AllocError} (hs : h.Shows o)
    (hb : h.verdict b = .ok b) (hok : (h.reallocate (some b) n).outcome = .ok (.error e, h')) :
    e = .outOfMemory n := by
  rcases reallocate_error hok with ⟨hresolve, -⟩ | ⟨he, -⟩
  · rw [hs.resolve_outcome, hb] at hresolve
    cases hresolve
  · exact he

/-- A handle that is turned down leaves everything as it is. -/
theorem reallocate_of_verdict_error {b : Block} {e : AllocError} (hs : h.Shows o)
    (hb : h.verdict b = .error e) :
    (h.reallocate (some b) n).outcome = .ok (.error e, h) := by
  unfold reallocate
  dsimp only
  split
  · rw [Traced.outcome_bind]
    exact bind_ok_iff.mpr ⟨_, free_of_verdict_error hs hb, rfl⟩
  · have hresolve := hs.resolve_outcome b
    rw [hb] at hresolve
    rw [Traced.outcome_bind]
    exact bind_ok_iff.mpr ⟨_, hresolve, rfl⟩

end Heap

end BoundaryTag
