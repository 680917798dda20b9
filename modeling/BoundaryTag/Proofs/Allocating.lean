import BoundaryTag.Proofs.Resolving

/-!
# Allocating and freeing

> `allocateBlock_fit`, `allocateBlock_grow`, `allocateBlock_refused`,
> `allocateBlock_overflow`: the four ways in which an allocation ends, each with the
> heap that it leaves.
>
> `exists_allocate`: an allocation always ends in one of them.
>
> `exists_free`: a block in use can be freed.

What a success comes to is the same whether the heap had to grow or not: the blocks in
use are what they were and one more (`Served`).
-/

namespace BoundaryTag

open BlockView (block tag Covers TagAt)
open Region (Changed Touched)

theorem spanned_lt {needed total : Nat} : spanned needed total < needed + 32 := by
  unfold spanned
  split
  · omega
  · omega

namespace Heap

variable {h h' : Heap} {o o' : Outline} {n needed bytes : Nat} {v : BlockView} {b : Block}

/-! ## What a sound heap can be asked -/

/-- No check that the configuration asks for gets in the way of an operation. -/
theorem Shows.selfCheck (hs : h.Shows o) (operation : String) :
    (h.selfCheck operation).outcome = .ok () := by
  obtain ⟨answer, hc⟩ := hs.exists_check
  exact selfCheck_ok hc operation

theorem Shows.firstFit?_eq (hs : h.Shows o) (needed : Nat) :
    h.arena.firstFit? needed = .ok (o.firstFit needed) := by
  have hlen := hs.sound.laid.length_le hs.sound.members
  refine Arena.firstFit?_listed hs.sound.listed
    hs.sound.scattered.toSpaced o.sizeOf (fun b hb => ?_) (by omega)
  obtain ⟨u, hu, -, rfl⟩ := hs.sound.mem_free.mp hb
  rw [Outline.sizeOf_eq hs.sound.laid.tiling hu]
  exact hs.size_shown hu

/-- What first fit finds is a free block that is long enough. -/
theorem Shows.firstFit_some (hs : h.Shows o) (hf : o.firstFit needed = some b) :
    ∃ v ∈ o.blocks, v.allocated = false ∧ v.block = b ∧ needed ≤ v.size := by
  obtain ⟨v, hv, ha, rfl⟩ := hs.sound.mem_free.mp (List.mem_of_find?_eq_some hf)
  have hfits : needed ≤ o.sizeOf v.block := by simpa using List.find?_some hf
  rw [Outline.sizeOf_eq hs.sound.laid.tiling hv] at hfits
  exact ⟨v, hv, ha, rfl, hfits⟩

/-! ## Serving a request -/

/-- What a successful allocation comes to: a block in use that there was not before,
long enough and not by a block too long. -/
structure Served (h h' : Heap) (o o' : Outline) (needed : Nat) (v : BlockView) : Prop where
  shows : h'.Shows o'
  inUse : (held o'.blocks).Perm (v :: held o.blocks)
  allocated : v.allocated = true
  fits : needed ≤ v.size ∧ v.size < needed + 32
  continues : ∃ asked granted, h.Continues h' asked granted
  touched : h.region.Touched h'.region (InVacant o.blocks) v.TagAt fun _ => False

/-- A free block that is long enough serves the request. -/
theorem Shows.take_served (hs : h.Shows o) (hv : v ∈ o.blocks) (ha : v.allocated = false)
    (hn : 32 ≤ needed) (hn8 : needed % 8 = 0) (hle : needed ≤ v.size) :
    ∃ a, (h.arena.take v.block needed).outcome = .ok a ∧ (h.withArena a).size = h.size ∧
      Served h (h.withArena a) o (o.take v.block needed) needed
        ⟨v.offset, spanned needed v.size, true⟩ := by
  obtain ⟨a, hok, hshown, hchanged, hmarked⟩ := Arena.take_shown hs.sound hv ha hn hn8 hle
  have hheld := o.held_take v.block needed
  rw [Outline.sizeOf_eq hs.sound.laid.tiling hv,
    ← Outline.held_eq_of_free hs.sound.laid.tiling hv ha] at hheld
  refine ⟨a, hok, hchanged.size_eq, hs.withArena hshown hchanged.size_eq, hheld, rfl,
    ⟨(le_spanned hle).1, spanned_lt⟩, ⟨0, 0, continues_withArena h a⟩,
    hchanged.touched fun q hq => ?_⟩
  rcases hmarked q hq with he | he | hq
  · exact .inl (.inl he)
  · exact .inl (.inr he)
  · exact .inr ⟨id, hq⟩

/-- A heap that grew first serves the request of the heap before. -/
theorem Served.after_extend (hs : h.Shows o) (hs₁ : h'.Shows (o.extend h.size bytes))
    (hc : h.Continues h' 1 1)
    (ht : h.region.Touched h'.region (InVacant o.blocks) (fun _ => False) fun _ => False)
    {h'' : Heap} (hserved : Served h' h'' (o.extend h.size bytes) o' needed v) :
    Served h h'' o o' needed v := by
  obtain ⟨asked, granted, hc'⟩ := hserved.continues
  have hheld : held (o.extend h.size bytes).blocks = held o.blocks := o.held_extend _ _
  refine ⟨hserved.shows, hheld ▸ hserved.inUse, hserved.allocated, hserved.fits,
    ⟨_, _, hc.trans hc'⟩, ?_⟩
  -- what is free after growing was free before, as far as it was there
  have hinside : ∀ j, j + 8 < h.region.size → InVacant (o.extend h.size bytes).blocks j →
      InVacant o.blocks j := by
    have htiling' := hs₁.sound.laid.tiling
    rw [hc.firstBlock_eq] at htiling'
    intro j hj
    refine hs.sound.laid.tiling.inVacant_of_held htiling' (fun v hv => ?_) hj
    rw [← hheld] at hv
    exact (mem_held.mp hv).1
  exact (ht.trans hserved.touched hinside).mono (fun _ _ hj => hj)
    (fun q hq => hq.resolve_left id) fun _ hq => hq.elim

/-! ## The four ends of an allocation -/

/-- A size that rounds up to no word. -/
theorem allocateBlock_overflow (h : Heap) (hn : blockSizeFor? n = none) :
    (h.allocateBlock n).outcome = .ok (.error (.outOfMemory n), h) := by
  unfold allocateBlock
  rw [hn]
  rfl

/-- A free block fits: the first one on the list serves the request. -/
theorem allocateBlock_fit (hs : h.Shows o) (hn : blockSizeFor? n = some needed)
    (hf : o.firstFit needed = some b) :
    ∃ a, (h.allocateBlock n).outcome = .ok (.ok b, h.withArena a) ∧
      (h.withArena a).size = h.size ∧
      Served h (h.withArena a) o (o.take b needed) needed
        ⟨b.offset, spanned needed (o.sizeOf b), true⟩ := by
  obtain ⟨hn8, hn32, -⟩ := blockSizeFor?_eq_some hn
  obtain ⟨v, hv, ha, rfl, hle⟩ := hs.firstFit_some hf
  obtain ⟨a, hok, hsize, hserved⟩ := hs.take_served hv ha hn32 hn8 hle
  rw [Outline.sizeOf_eq hs.sound.laid.tiling hv]
  refine ⟨a, ?_, hsize, hserved⟩
  have hfit : (h.findFit needed).outcome = .ok (.ok v.block, h) := by
    unfold findFit
    rw [Traced.outcome_bind]
    refine bind_ok_iff.mpr ⟨_, hs.firstFit?_eq needed, ?_⟩
    rw [hf]
    rfl
  unfold allocateBlock
  rw [hn]
  dsimp only
  rw [Traced.outcome_bind]
  refine bind_ok_iff.mpr ⟨_, hfit, ?_⟩
  simp only [Traced.outcome_bind, Traced.outcome_pure, Traced.outcome_emit]
  exact bind_ok_iff.mpr ⟨a, hok, bind_ok_iff.mpr ⟨_, rfl, rfl⟩⟩

/-- No free block fits, so the provider is asked for more. -/
theorem findFit_grow (hs : h.Shows o) (hf : o.firstFit needed = none) :
    (h.findFit needed).outcome = (h.extend (max needed h.config.chunk)).outcome := by
  unfold findFit
  rw [Traced.outcome_bind, show Traced.outcome (liftM (h.arena.firstFit? needed)) =
    .ok (o.firstFit needed) from hs.firstFit?_eq needed, hf]
  rfl

/-- A heap asks for memory in multiples of eight that make a block. -/
theorem Shows.growth (hs : h.Shows o) (hn : blockSizeFor? n = some needed) :
    32 ≤ max needed h.config.chunk ∧ max needed h.config.chunk % 8 = 0 := by
  obtain ⟨hn8, hn32, -⟩ := blockSizeFor?_eq_some hn
  obtain ⟨-, hc8⟩ := hs.chunk
  rcases Nat.le_total needed h.config.chunk with hle | hle
  · rw [Nat.max_eq_right hle]
    omega
  · rw [Nat.max_eq_left hle]
    omega

/-- No free block fits and the provider grants more memory: what it appends serves the
request. -/
theorem allocateBlock_grow (hs : h.Shows o) (hn : blockSizeFor? n = some needed)
    (hf : o.firstFit needed = none) (hb : max needed h.config.chunk = bytes)
    (hg : h.provider.Grants bytes) :
    ∃ h', (h.allocateBlock n).outcome =
        .ok (.ok (freedBlock o.blocks h.size bytes []).block, h') ∧
      h.Continues h' 1 1 ∧ h'.size = h.size + bytes ∧
      Served h h' o
        ((o.extend h.size bytes).take (freedBlock o.blocks h.size bytes []).block needed) needed
        ⟨(freedBlock o.blocks h.size bytes []).offset,
          spanned needed (freedBlock o.blocks h.size bytes []).size, true⟩ := by
  obtain ⟨hn8, hn32, -⟩ := blockSizeFor?_eq_some hn
  obtain ⟨hb32, hb8⟩ := hs.growth hn
  rw [hb] at hb32 hb8
  have hle : needed ≤ bytes := hb ▸ Nat.le_max_left ..
  obtain ⟨h₁, hext, hs₁, hc₁, hsize₁, ht₁⟩ := extend_granted hs hb32 hb8 hg
  have hmem : freedBlock o.blocks h.size bytes [] ∈ (o.extend h.size bytes).blocks :=
    List.mem_append_right _ (List.mem_cons_self ..)
  have hfits : needed ≤ (freedBlock o.blocks h.size bytes []).size := by
    simp only [freedBlock, mergedBlock]
    omega
  obtain ⟨a, hok, hsize, hserved⟩ := hs₁.take_served hmem rfl hn32 hn8 hfits
  refine ⟨h₁.withArena a, ?_, hc₁.trans (continues_withArena h₁ a), hsize.trans hsize₁,
    hserved.after_extend hs hs₁ hc₁ ht₁⟩
  unfold allocateBlock
  rw [hn]
  dsimp only
  rw [Traced.outcome_bind, findFit_grow hs hf, hb]
  refine bind_ok_iff.mpr ⟨_, hext, ?_⟩
  simp only [Traced.outcome_bind, Traced.outcome_pure, Traced.outcome_emit]
  exact bind_ok_iff.mpr ⟨a, hok, bind_ok_iff.mpr ⟨_, rfl, rfl⟩⟩

/-- No free block fits and the provider refuses: only the count of its requests has
changed. -/
theorem allocateBlock_refused (hs : h.Shows o) (hn : blockSizeFor? n = some needed)
    (hf : o.firstFit needed = none) (hg : ¬ h.provider.Grants (max needed h.config.chunk)) :
    (h.allocateBlock n).outcome = .ok (.error (.outOfMemory n), h.afterRefusal) := by
  obtain ⟨cause, hok⟩ := extend_refused h hg
  unfold allocateBlock
  rw [hn]
  dsimp only
  rw [Traced.outcome_bind, findFit_grow hs hf]
  refine bind_ok_iff.mpr ⟨_, hok, ?_⟩
  simp only [Traced.outcome_bind, Traced.outcome_pure, Traced.outcome_emit]
  exact bind_ok_iff.mpr ⟨_, rfl, rfl⟩

/-- What an allocation that fails leaves: the heap as it was, except that the provider
may have been asked. -/
def Unserved (h h' : Heap) : Prop := h' = h ∨ h' = h.afterRefusal

theorem Unserved.shows (hu : h.Unserved h') (hs : h.Shows o) : h'.Shows o := by
  rcases hu with he | he
  · exact he ▸ hs
  · exact he ▸ hs.afterRefusal

/-- What an allocation may end in. -/
def Allocated (h h' : Heap) (o : Outline) (n : Nat) : Except AllocError Handle → Prop
  | .error e => e = .outOfMemory n ∧ h.Unserved h'
  | .ok b => ∃ needed o' v, blockSizeFor? n = some needed ∧ b = v.block ∧
      Served h h' o o' needed v

/-- **An allocation always comes to an end,** with a block or with the error that
memory is out. -/
theorem exists_allocateBlock (hs : h.Shows o) (n : Nat) :
    ∃ answer h', (h.allocateBlock n).outcome = .ok (answer, h') ∧ Allocated h h' o n answer := by
  cases hn : blockSizeFor? n with
  | none => exact ⟨_, h, allocateBlock_overflow h hn, rfl, .inl rfl⟩
  | some needed =>
    -- first fit decides, and only if it fails the provider
    cases hf : o.firstFit needed with
    | some b =>
      obtain ⟨a, hok, -, hserved⟩ := allocateBlock_fit hs hn hf
      exact ⟨_, _, hok, needed, _, ⟨_, _, true⟩, hn, rfl, hserved⟩
    | none =>
      by_cases hg : h.provider.Grants (max needed h.config.chunk)
      · obtain ⟨h', hok, -, -, hserved⟩ := allocateBlock_grow hs hn hf rfl hg
        exact ⟨_, h', hok, needed, _, ⟨_, _, true⟩, hn, rfl, hserved⟩
      · exact ⟨_, _, allocateBlock_refused hs hn hf hg, rfl, .inr rfl⟩

/-! ## Failures

An operation may fail in a damaged heap too, and on a handle that was made up. What it
leaves then is read off the operation itself, whatever the heap is. -/

/-- Memory that is refused leaves the count of requests, and nothing else, changed. -/
theorem extend_error {cause : ProviderError}
    (hok : (h.extend bytes).outcome = .ok (.error cause, h')) : h' = h.afterRefusal := by
  unfold extend at hok
  rw [Traced.outcome_bind] at hok
  obtain ⟨⟨granted, q⟩, hext, hok⟩ := bind_ok_iff.mp hok
  cases granted with
  | error cause' =>
    cases hok
    rw [Provider.extend_error hext]
    rfl
  | ok old =>
    simp only [Traced.outcome_bind, Traced.outcome_lift, Traced.outcome_pure,
      Traced.outcome_emit] at hok
    obtain ⟨_, -, hok⟩ := bind_ok_iff.mp hok
    obtain ⟨_, -, hok⟩ := bind_ok_iff.mp hok
    obtain ⟨_, -, hok⟩ := bind_ok_iff.mp hok
    obtain ⟨_, -, hok⟩ := bind_ok_iff.mp hok
    obtain ⟨_, -, hok⟩ := bind_ok_iff.mp hok
    obtain ⟨_, -, hok⟩ := bind_ok_iff.mp hok
    cases hok

theorem findFit_error {cause : ProviderError}
    (hok : (h.findFit needed).outcome = .ok (.error cause, h')) : h' = h.afterRefusal := by
  unfold findFit at hok
  rw [Traced.outcome_bind] at hok
  obtain ⟨found, -, hok⟩ := bind_ok_iff.mp hok
  cases found with
  | some b => cases hok
  | none => exact extend_error hok

/-- **There is one reason for which no memory is allocated,** and then nothing is changed. -/
theorem allocateBlock_error {e : AllocError}
    (hok : (h.allocateBlock n).outcome = .ok (.error e, h')) :
    e = .outOfMemory n ∧ h.Unserved h' := by
  unfold allocateBlock at hok
  split at hok
  · cases hok
    exact ⟨rfl, .inl rfl⟩
  · rw [Traced.outcome_bind] at hok
    obtain ⟨⟨found, h₁⟩, hfound, hok⟩ := bind_ok_iff.mp hok
    cases found with
    | error cause =>
      cases hok
      exact ⟨rfl, .inr (findFit_error hfound)⟩
    | ok b =>
      simp only [Traced.outcome_bind, Traced.outcome_pure, Traced.outcome_emit] at hok
      obtain ⟨a, -, hok⟩ := bind_ok_iff.mp hok
      cases hok

theorem allocate_error {e : AllocError} (hok : (h.allocate n).outcome = .ok (.error e, h')) :
    e = .outOfMemory n ∧ h.Unserved h' := by
  unfold allocate at hok
  rw [Traced.outcome_bind] at hok
  obtain ⟨⟨answer, h₁⟩, hblock, hok⟩ := bind_ok_iff.mp hok
  cases answer with
  | error e' =>
    cases hok
    exact allocateBlock_error hblock
  | ok b =>
    dsimp only at hok
    rw [Traced.outcome_bind] at hok
    obtain ⟨_, -, hok⟩ := bind_ok_iff.mp hok
    cases hok

/-- **Freeing fails** only by turning the handle down. -/
theorem free_error {e : AllocError} (hok : (h.free (some b)).outcome = .ok (.error e, h')) :
    (h.resolve b).outcome = .ok (.error e) ∧ h' = h := by
  unfold Heap.free at hok
  dsimp only at hok
  rw [Traced.outcome_bind] at hok
  obtain ⟨found, hfound, hok⟩ := bind_ok_iff.mp hok
  cases found with
  | error e' =>
    cases hok
    exact ⟨hfound, rfl⟩
  | ok b' =>
    -- past the verdict, all that is left is to succeed or to fault
    simp only [Traced.outcome_bind, Traced.outcome_pure, Traced.outcome_emit] at hok
    obtain ⟨a, -, hok⟩ := bind_ok_iff.mp hok
    obtain ⟨_, -, hok⟩ := bind_ok_iff.mp hok
    obtain ⟨_, -, hok⟩ := bind_ok_iff.mp hok
    cases hok

/-! ## Checks -/

/-- Checks make no difference to an allocation. -/
theorem allocate_of_allocateBlock {answer : Except AllocError Handle}
    (hok : (h.allocateBlock n).outcome = .ok (answer, h')) (hs' : h'.Shows o) :
    (h.allocate n).outcome = .ok (answer, h') := by
  unfold allocate
  rw [Traced.outcome_bind, bind_of_ok hok]
  cases answer with
  | error e => rfl
  | ok b =>
    dsimp only
    rw [Traced.outcome_bind]
    exact bind_ok_iff.mpr ⟨_, hs'.selfCheck "allocate", rfl⟩

/-- **A request for memory always comes to an end,** checks or no checks. -/
theorem exists_allocate (hs : h.Shows o) (n : Nat) :
    ∃ answer h', (h.allocate n).outcome = .ok (answer, h') ∧ Allocated h h' o n answer := by
  obtain ⟨answer, h', hok, hend⟩ := exists_allocateBlock hs n
  cases answer with
  | error e => exact ⟨_, h', allocate_of_allocateBlock hok (hend.2.shows hs), hend⟩
  | ok b =>
    obtain ⟨needed, o', v, hn, hb, hserved⟩ := hend
    exact ⟨_, h', allocate_of_allocateBlock hok hserved.shows, needed, o', v, hn, hb, hserved⟩

/-! ## Freeing -/

/-- What freeing the block `v` comes to. -/
structure Freed (h h' : Heap) (o o' : Outline) (v : BlockView) : Prop where
  shows : h'.Shows o'
  inUse : (held o.blocks).Perm (v :: held o'.blocks)
  continues : h.Continues h' 0 0
  size_eq : h'.size = h.size
  touched : h.region.Touched h'.region (Arena.Free o v) (fun _ => False) v.TagAt

theorem Shows.release_freed (hs : h.Shows o) (hv : v ∈ o.blocks) (ha : v.allocated = true) :
    ∃ a, (h.arena.release v.block).outcome = .ok a ∧
      Freed h (h.withArena a) o (o.release v.block) v := by
  obtain ⟨a, hok, hshown, hchanged, hmarked⟩ := Arena.release_shown hs.sound hv ha
  have hheld := Outline.held_eq_of_allocated hs.sound.laid.tiling hv ha
  rw [← o.held_release v.block] at hheld
  refine ⟨a, hok, hs.withArena hshown hchanged.size_eq, hheld, continues_withArena h a,
    hchanged.size_eq, hchanged.touched fun q hq => .inr ?_⟩
  obtain ⟨hheader, hfooter, hold⟩ := hmarked q hq
  exact ⟨not_or.mpr ⟨hheader, hfooter⟩, hold⟩

/-- **A block in use can be freed.** -/
theorem exists_free (hs : h.Shows o) (hv : v ∈ o.blocks) (ha : v.allocated = true) :
    ∃ a, (h.free (some v.block)).outcome = .ok (.ok (), h.withArena a) ∧
      Freed h (h.withArena a) o (o.release v.block) v := by
  obtain ⟨a, hok, hfreed⟩ := hs.release_freed hv ha
  refine ⟨a, ?_, hfreed⟩
  have hresolve := hs.resolve_outcome v.block
  rw [hs.verdict_allocated hv ha] at hresolve
  unfold Heap.free
  dsimp only
  rw [Traced.outcome_bind]
  refine bind_ok_iff.mpr ⟨_, hresolve, ?_⟩
  simp only [Traced.outcome_bind, Traced.outcome_pure, Traced.outcome_emit]
  refine bind_ok_iff.mpr ⟨a, hok, bind_ok_iff.mpr ⟨_, rfl, ?_⟩⟩
  exact bind_ok_iff.mpr ⟨_, hfreed.shows.selfCheck "free", rfl⟩

/-- A handle that is accepted is not turned down after all. -/
theorem free_of_verdict_ok {e : AllocError} (hs : h.Shows o) (hb : h.verdict b = .ok b) :
    (h.free (some b)).outcome ≠ .ok (.error e, h') := by
  intro hok
  have hresolve := (free_error hok).1
  rw [hs.resolve_outcome, hb] at hresolve
  cases hresolve

/-- A handle that is turned down leaves everything as it is. -/
theorem free_of_verdict_error {e : AllocError} (hs : h.Shows o) (hb : h.verdict b = .error e) :
    (h.free (some b)).outcome = .ok (.error e, h) := by
  have hresolve := hs.resolve_outcome b
  rw [hb] at hresolve
  unfold Heap.free
  dsimp only
  rw [Traced.outcome_bind]
  exact bind_ok_iff.mpr ⟨_, hresolve, rfl⟩

end Heap

end BoundaryTag
