import BoundaryTag.Proofs.CheckSettings
import BoundaryTag.Proofs.Refining

/-!
# Heaps with the same outline

The bytes of a heap are not determined by its outline: payloads hold what callers wrote, and
free memory what was left there. But nothing that a heap does or says tells it from one with the
same outline and the same numbers (`SameOutline`). That is a matter of reading: every tag and
every link is where the outline has it, and no other word is ever read for one.

> `SameOutline.observation_eq`: all that can be asked of a heap as a whole has the same answer on
> both sides, whatever bounds are claimed.
>
> `SameOutline.attempt`: an attempt has the same answer on both sides, and leaves the same outline.
>
> `Shows.exists_write`: so does a write, of what was there before.
-/

namespace BoundaryTag

open BlockView (block tag)
open Finding (ofFault)

/-! ## What a check reads -/

namespace Region

variable {r s : Region} {low stop : Nat} {prevFree : Option Nat} {b : Block} {v : BlockView}

/-- The walk over the blocks goes the same way in two regions if they are judged alike at all
places that it comes to. -/
theorem soundBlocks_congr {P : Block → Prop}
    (hsame : ∀ b, P b → ∀ prevFree,
      s.judgeBlock stop prevFree b = r.judgeBlock stop prevFree b)
    (hnext : ∀ b, P b → ∀ prevFree v, r.judgeBlock stop prevFree b = .ok (some v) →
      P ⟨v.offset + v.size⟩)
    (hb : P b) : s.soundBlocks stop prevFree b = r.soundBlocks stop prevFree b := by
  fun_induction soundBlocks r stop prevFree b with
  | case1 prevFree b e judged => rw [soundBlocks_eq, hsame b hb, judged]; rfl
  | case2 prevFree b judged => rw [soundBlocks_eq, hsame b hb, judged]; rfl
  | case3 prevFree b v judged hmoves free ih =>
    rw [soundBlocks_eq, hsame b hb, judged, ← ih (hnext b hb prevFree v judged)]
    rfl

/-- So does the walk along the list. -/
theorem soundList_congr {P : Block → Prop} {unlisted listed : List Nat}
    {current : Option Block}
    (hsame : ∀ b, P b → ∀ unlisted listed,
      s.judgeMember low stop unlisted listed b = r.judgeMember low stop unlisted listed b)
    (hnext : ∀ b, P b → ∀ unlisted listed c,
      r.judgeMember low stop unlisted listed b = .ok (some c) → P c)
    (hcurrent : ∀ b ∈ current, P b) :
    s.soundList low stop unlisted listed current =
      r.soundList low stop unlisted listed current := by
  fun_induction soundList r low stop unlisted listed current with
  | case1 unlisted listed => rw [soundList]
  | case2 unlisted listed b e judged =>
    rw [soundList_eq, hsame b (hcurrent b rfl), judged]
    rfl
  | case3 unlisted listed b next judged hmet ih =>
    rw [soundList_eq, hsame b (hcurrent b rfl), judged,
      ← ih fun c hc => hnext b (hcurrent b rfl) unlisted listed c (by rw [judged, hc])]
    rfl

/-- A judgement about a place reads the two tags there. -/
theorem judgeBlock_congr (hheader : b.headerWord s = b.headerWord r)
    (hfooter : b.footerWord s = b.footerWord r) (stop : Nat) (prevFree : Option Nat) :
    s.judgeBlock stop prevFree b = r.judgeBlock stop prevFree b := by
  unfold judgeBlock
  rw [hheader, hfooter]

/-- What passes for a block is as long as its header says. -/
theorem judgeBlock_view {header : Nat} (hheader : b.headerWord r = .ok header)
    (h : r.judgeBlock stop prevFree b = .ok (some v)) :
    v.offset = b.offset ∧ v.size = (Tag.ofWord header).size := by
  unfold judgeBlock at h
  rw [Finding.ofFault_bind hheader] at h
  dsimp only at h
  split at h
  · cases h
  · split at h
    · split at h <;> cases h
    · split at h
      · cases h
      · split at h
        · cases h
        · obtain ⟨footer, -, h⟩ := bind_ok_iff.mp h
          split at h
          · cases h
          · split at h
            · cases h
            · cases h
              exact ⟨rfl, rfl⟩

/-- At an epilogue all that counts is whether it is the end. -/
theorem judgeBlock_epilogue {header : Nat} (hheader : b.headerWord r = .ok header)
    (htag : Tag.ofWord header = ⟨0, true⟩) (stop : Nat) (prevFree : Option Nat) :
    r.judgeBlock stop prevFree b =
      if b.offset = stop then .ok none else .error (.violation (.badEpilogue b.offset)) := by
  unfold judgeBlock
  rw [Finding.ofFault_bind hheader, htag]
  dsimp only
  split
  · next hfar => rw [if_neg (by omega)]; rfl
  · rw [if_pos rfl]
    by_cases hlast : b.offset = stop
    · rw [if_pos ⟨rfl, hlast⟩, if_pos hlast]
      rfl
    · rw [if_neg fun h => hlast h.2, if_neg hlast]
      rfl

/-- A judgement about a member reads its mark and its links. -/
theorem judgeMember_congr (hmark : b.allocated s = b.allocated r)
    (hforward : b.forwardLink s = b.forwardLink r) (hback : b.backLink s = b.backLink r)
    (low stop : Nat) (unlisted listed : List Nat) :
    s.judgeMember low stop unlisted listed b = r.judgeMember low stop unlisted listed b := by
  unfold judgeMember
  rw [hmark, hforward, hback]

/-- The way goes on where the forward link leads. -/
theorem judgeMember_forward {unlisted listed : List Nat} {next : Option Block}
    (h : r.judgeMember low stop unlisted listed b = .ok next) : b.forwardLink r = .ok next := by
  unfold judgeMember at h
  obtain ⟨outside, -, h⟩ := bind_ok_iff.mp h
  split at h
  · cases h
  · split at h
    · cases h
    · obtain ⟨used, -, h⟩ := bind_ok_iff.mp h
      split at h
      · cases h
      · split at h
        · obtain ⟨found, -, h⟩ := bind_ok_iff.mp h
          dsimp only at h
          split at h
          · cases hlink : b.forwardLink r with
            | error e => rw [hlink] at h; cases h
            | ok link => rw [hlink] at h; cases h; rfl
          · cases h
        · cases h

theorem prologueSound_congr {prologue : Block}
    (hheader : prologue.headerWord s = prologue.headerWord r)
    (hfooter : s.readWord prologue.offset = r.readWord prologue.offset) (low stop : Nat) :
    s.prologueSound low stop prologue = r.prologueSound low stop prologue := by
  unfold prologueSound
  rw [hheader, hfooter]

end Region

/-- Where a block of a tiling ends there is another one, unless it is the end. -/
theorem Tiling.next_place {start stop : Nat} {blocks : List BlockView} {v : BlockView}
    (h : Tiling start blocks stop) (hv : v ∈ blocks) :
    v.offset + v.size = stop ∨ ∃ w ∈ blocks, w.offset = v.offset + v.size := by
  obtain ⟨front, back, rfl⟩ := List.append_of_mem hv
  obtain ⟨-, -, -, hback⟩ := tiling_mid.mp h
  cases back with
  | nil => exact .inl hback
  | cons w rest => exact .inr ⟨w, by simp, hback.1⟩

/-- So is there where a tiling begins. -/
theorem Tiling.first_place {start stop : Nat} {blocks : List BlockView}
    (h : Tiling start blocks stop) : start = stop ∨ ∃ w ∈ blocks, w.offset = start := by
  cases blocks with
  | nil => exact .inl h
  | cons w rest => exact .inr ⟨w, List.mem_cons_self .., h.1⟩

namespace Heap

variable {h k h' k' : Heap} {o o' : Outline} {b : Block} {n needed : Nat} {v : BlockView}

/-- Two heaps show the same outline, and all else about them but the bytes is the same. -/
structure SameOutline (h k : Heap) (o : Outline) : Prop where
  left : h.Shows o
  right : k.Shows o
  continues : h.Continues k 0 0
  size_eq : k.size = h.size

/-- A heap has the same outline as itself. -/
theorem Shows.sameOutline_self (hs : h.Shows o) : h.SameOutline h o := ⟨hs, hs, .refl h, rfl⟩

theorem SameOutline.prologue_eq (hk : h.SameOutline k o) : k.prologue = h.prologue :=
  hk.continues.prologue

theorem SameOutline.firstBlock_eq (hk : h.SameOutline k o) : k.firstBlock = h.firstBlock :=
  hk.continues.firstBlock_eq

/-- Head and length of the free list are read off the outline. -/
theorem SameOutline.freeList_eq (hk : h.SameOutline k o) : k.freeList = h.freeList := by
  have hleft := hk.left.sound.listed
  have hright := hk.right.sound.listed
  have hhead : k.freeList.head = h.freeList.head := hright.head.trans hleft.head.symm
  have hlength : k.freeList.length = h.freeList.length := hright.length.trans hleft.length.symm
  calc k.freeList = ⟨k.freeList.head, k.freeList.length⟩ := rfl
    _ = ⟨h.freeList.head, h.freeList.length⟩ := by rw [hhead, hlength]

/-! ## What can be seen of a heap -/

/-- The walk over the blocks, wherever it is to end, does not tell the heaps apart. -/
theorem SameOutline.soundBlocks_eq (hk : h.SameOutline k o) (stop : Nat) (prevFree : Option Nat) :
    k.region.soundBlocks stop prevFree h.firstBlock =
      h.region.soundBlocks stop prevFree h.firstBlock := by
  have htiling : Tiling h.firstBlock.offset o.blocks h.size := hk.left.sound.laid.tiling
  obtain ⟨header, hheader, htag⟩ := bind_ok_iff.mp hk.left.epilogue_shown
  have hend := hk.right.epilogue_shown
  rw [hk.size_eq] at hend
  obtain ⟨header', hheader', htag'⟩ := bind_ok_iff.mp hend
  have htag := Except.ok.inj htag
  have htag' := Except.ok.inj htag'
  refine Region.soundBlocks_congr
    (P := fun b => b.offset = h.size ∨ ∃ v ∈ o.blocks, v.offset = b.offset) ?_ ?_
    htiling.first_place
  · intro b hb prevFree
    rcases hb with hb | ⟨v, hv, hb⟩
    · obtain rfl : b = ⟨h.size⟩ := Block.ext hb
      rw [Region.judgeBlock_epilogue hheader htag, Region.judgeBlock_epilogue hheader' htag']
    · obtain rfl : b = v.block := Block.ext hb.symm
      obtain ⟨hheader, hfooter⟩ := hk.left.tags_shown hv
      obtain ⟨hheader', hfooter'⟩ := hk.right.tags_shown hv
      exact Region.judgeBlock_congr (hheader'.trans hheader.symm) (hfooter'.trans hfooter.symm) ..
  · intro b hb prevFree w hw
    rcases hb with hb | ⟨v, hv, hb⟩
    · -- an epilogue does not pass for a block
      obtain rfl : b = ⟨h.size⟩ := Block.ext hb
      have hsize := (Region.judgeBlock_view hheader hw).2
      rw [htag] at hsize
      have := (Region.judgeBlock_some hw).2.1
      exact absurd hsize (by dsimp only; omega)
    · obtain rfl : b = v.block := Block.ext hb.symm
      obtain ⟨hoff, hsize⟩ := Region.judgeBlock_view (hk.left.tags_shown hv).1 hw
      rw [Tag.ofWord_word (hk.left.sound.laid.bounds hv).2.2.2.1] at hsize
      rw [hoff, hsize]
      exact htiling.next_place hv

/-- Nor does the walk along the free list. -/
theorem SameOutline.soundList_eq (hk : h.SameOutline k o) (low stop : Nat) (unlisted : List Nat) :
    k.region.soundList low stop unlisted [] h.freeList.head =
      h.region.soundList low stop unlisted [] h.freeList.head := by
  refine Region.soundList_congr (P := (· ∈ o.free)) ?_ ?_ ?_
  · intro b hb unlisted listed
    obtain ⟨front, back, hfree⟩ := List.append_of_mem hb
    obtain ⟨v, hv, -, rfl⟩ := hk.left.sound.mem_free.mp hb
    obtain ⟨hforward, hback⟩ := hk.left.links_shown hfree
    obtain ⟨hforward', hback'⟩ := hk.right.links_shown hfree
    have hmark := Block.allocated_eq (hk.left.sound.laid.tag_eq hv nofun)
    have hmark' := Block.allocated_eq (hk.right.sound.laid.tag_eq hv nofun)
    exact Region.judgeMember_congr (hmark'.trans hmark.symm) (hforward'.trans hforward.symm)
      (hback'.trans hback.symm) ..
  · intro b hb unlisted listed c hc
    obtain ⟨front, back, hfree⟩ := List.append_of_mem hb
    have hforward := (hk.left.links_shown hfree).1.symm.trans (Region.judgeMember_forward hc)
    rw [hfree]
    exact List.mem_append_right _ (List.mem_cons_of_mem _
      (List.mem_of_mem_head? (Except.ok.inj hforward)))
  · intro b hb
    exact List.mem_of_mem_head? (hk.left.sound.listed.head ▸ hb)

/-- **A check does not tell the heaps apart,** whatever bounds the provider claims. -/
theorem SameOutline.check_eq (hk : h.SameOutline k o) (v : CheckSettings) :
    (k.under v).check = (h.under v).check := by
  have hhigh : (k.under v).provider.high = (h.under v).provider.high := by
    show v.high.getD (k.size - 1) = v.high.getD (h.size - 1)
    rw [hk.size_eq]
  have hsize : (k.under v).size = (h.under v).size := hk.size_eq
  obtain ⟨hheader, hfooter⟩ := hk.left.prologue_shown
  obtain ⟨hheader', hfooter'⟩ := hk.right.prologue_shown
  rw [hk.prologue_eq] at hheader' hfooter'
  have hfirst : (k.under v).firstBlock = (h.under v).firstBlock := hk.firstBlock_eq
  have hfree : (k.under v).freeList = (h.under v).freeList := hk.freeList_eq
  unfold check findings
  dsimp only
  rw [hhigh, hsize, hfirst, hfree]
  refine congrArg Finding.settle (bind_congr fun stop => ?_)
  have hsound : (k.under v).region.prologueSound (k.under v).provider.low stop
        (k.under v).prologue =
      (h.under v).region.prologueSound (h.under v).provider.low stop (h.under v).prologue := by
    show k.region.prologueSound _ stop k.prologue = _
    rw [hk.prologue_eq]
    exact Region.prologueSound_congr (hheader'.trans hheader.symm) (hfooter'.trans hfooter.symm) ..
  rw [hsound, show (k.under v).prologue = (h.under v).prologue from hk.prologue_eq]
  refine bind_congr fun sound => ?_
  split
  · rw [show (k.under v).region.soundBlocks stop none (h.under v).firstBlock =
      (h.under v).region.soundBlocks stop none (h.under v).firstBlock from
        hk.soundBlocks_eq stop none]
    refine bind_congr fun blocks => ?_
    rw [show (k.under v).region.soundList (k.under v).provider.low stop _ []
      (h.under v).freeList.head = _ from hk.soundList_eq _ stop _]
    rfl
  · rfl

/-- All that can be asked of a heap as a whole. -/
structure Observation where
  blocks : Except Fault (List BlockView)
  /-- The members of the free list, up to a limit. -/
  freeBlocks : Nat → Except Fault (List BlockView)
  size : Nat
  extensions : Nat
  check : Except Fault (Except Violation Report)

/-- What a heap answers when it is asked. -/
def observation (h : Heap) : Observation := ⟨h.blocks, h.freeBlocks, h.size, h.extensions, h.check⟩

/-- **Heaps with the same outline look the same,** whatever the settings of the check are. -/
theorem SameOutline.observation_eq (hk : h.SameOutline k o) (v : CheckSettings) :
    (k.under v).observation = (h.under v).observation := by
  have hblocks : (k.under v).blocks = (h.under v).blocks :=
    hk.right.blocks_shown.trans hk.left.blocks_shown.symm
  have hfree : (k.under v).freeBlocks = (h.under v).freeBlocks := funext fun limit =>
    (hk.right.freeBlocks_shown limit).trans (hk.left.freeBlocks_shown limit).symm
  have hsize : (k.under v).size = (h.under v).size := hk.size_eq
  have hextensions : (k.under v).extensions = (h.under v).extensions := hk.continues.extensions
  unfold observation
  rw [hblocks, hfree, hsize, hextensions, hk.check_eq v]

/-- Whether there is a check, and what it logs, is the same as well. -/
theorem SameOutline.audit_eq (hk : h.SameOutline k o) (v : CheckSettings)
    (operation : Option String) (answer : Answer) :
    (k.under v).audit operation answer = (h.under v).audit operation answer := by
  have hcheck : ∀ operation, (k.under v).selfCheck operation = (h.under v).selfCheck operation := by
    intro operation
    unfold selfCheck
    rw [hk.check_eq v]
    rfl
  unfold audit
  split
  · exact hcheck _
  · rfl

/-! ## What is done to a heap -/

/-- The same was done to both heaps. -/
theorem SameOutline.of_continues {asked granted : Nat} (hk : h.SameOutline k o)
    (hc : h.Continues h' asked granted) (hc' : k.Continues k' asked granted) (hs' : h'.Shows o')
    (ht' : k'.Shows o') (hsize : k'.size = h'.size) : h'.SameOutline k' o' := by
  refine ⟨hs', ht', ⟨?_, ?_, ?_, ?_⟩, hsize⟩
  · rw [hc'.provider, hk.continues.provider, hc.provider]
    rfl
  · rw [hc'.config, hk.continues.config, hc.config]
  · rw [hc'.prologue, hk.continues.prologue, hc.prologue]
  · rw [hc'.extensions, hk.continues.extensions, hc.extensions]
    rfl

/-- The same was done to both heaps, and neither grew by it. -/
theorem SameOutline.of_continues_kept {asked granted : Nat} (hk : h.SameOutline k o)
    (hc : h.Continues h' asked granted) (hc' : k.Continues k' asked granted) (hs' : h'.Shows o')
    (ht' : k'.Shows o') (hsize : h'.size = h.size) (hsize' : k'.size = k.size) :
    h'.SameOutline k' o' :=
  hk.of_continues hc hc' hs' ht' (hsize'.trans (hk.size_eq.trans hsize.symm))

/-- To have been refused memory is to have asked once. -/
theorem continues_afterRefusal (h : Heap) : h.Continues h.afterRefusal 1 0 :=
  ⟨rfl, rfl, rfl, rfl⟩

/-- The providers grant and refuse alike. -/
theorem SameOutline.grants_iff (hk : h.SameOutline k o) (bytes : Nat) :
    k.provider.Grants bytes ↔ h.provider.Grants bytes := by
  have hsize : k.region.size = h.region.size := hk.size_eq
  unfold Provider.Grants Provider.remaining
  rw [hk.continues.provider]
  show _ ∧ bytes ≤ h.provider.capacity - k.region.size ↔ _
  rw [hsize]
  rfl

/-- The same answer on both sides, and heaps with the same outline again. -/
def SameAnswer {α : Type} (x y : Traced (α × Heap)) : Prop :=
  ∃ answer h' k' o', x.outcome = .ok (answer, h') ∧ y.outcome = .ok (answer, k') ∧
    h'.SameOutline k' o'

/-- Whatever is made of the answers, it is the same. -/
theorem SameAnswer.map {α β : Type} {x y : Traced (α × Heap)} (hxy : SameAnswer x y) (f : α → β) :
    SameAnswer (Prod.map f id <$> x) (Prod.map f id <$> y) := by
  obtain ⟨answer, h', k', o', hx, hy, hk'⟩ := hxy
  exact ⟨f answer, h', k', o', Traced.map_ok_iff.mpr ⟨_, hx, rfl⟩,
    Traced.map_ok_iff.mpr ⟨_, hy, rfl⟩, hk'⟩

/-- Allocating a block, with what a success comes to on both sides. -/
theorem SameOutline.exists_allocateBlock (hk : h.SameOutline k o) (n : Nat) :
    ∃ answer h' k' o', (h.allocateBlock n).outcome = .ok (answer, h') ∧
      (k.allocateBlock n).outcome = .ok (answer, k') ∧ h'.SameOutline k' o' ∧
      ∀ b, answer = .ok b → ∃ needed w, w.block = b ∧ Served h h' o o' needed w ∧
        Served k k' o o' needed w := by
  cases hn : blockSizeFor? n with
  | none =>
    exact ⟨_, h, k, o, allocateBlock_overflow h hn, allocateBlock_overflow k hn, hk, nofun⟩
  | some needed =>
    -- first fit decides, and only if it fails the providers, which agree
    cases hf : o.firstFit needed with
    | some b =>
      obtain ⟨a, hok, hsize, hserved⟩ := allocateBlock_fit hk.left hn hf
      obtain ⟨a', hok', hsize', hserved'⟩ := allocateBlock_fit hk.right hn hf
      refine ⟨.ok b, _, _, _, hok, hok', hk.of_continues_kept (continues_withArena h a)
        (continues_withArena k a') hserved.shows hserved'.shows hsize hsize', ?_⟩
      intro c hc
      cases hc
      exact ⟨needed, _, rfl, hserved, hserved'⟩
    | none =>
      have hchunk : k.config.chunk = h.config.chunk := by rw [hk.continues.config]
      by_cases hg : h.provider.Grants (max needed h.config.chunk)
      · have hg' := (hk.grants_iff _).mpr hg
        obtain ⟨h', hok, hc, hsize, hserved⟩ := allocateBlock_grow hk.left hn hf rfl hg
        obtain ⟨k', hok', hc', hsize', hserved'⟩ :=
          allocateBlock_grow hk.right hn hf (congrArg (max needed) hchunk) hg'
        rw [hk.size_eq] at hok' hsize' hserved'
        refine ⟨_, h', k', _, hok, hok', hk.of_continues hc hc' hserved.shows hserved'.shows
          (hsize'.trans hsize.symm), ?_⟩
        intro c hc
        cases hc
        exact ⟨needed, ⟨_, _, true⟩, rfl, hserved, hserved'⟩
      · have hg' : ¬ k.provider.Grants (max needed k.config.chunk) := by
          rw [hchunk]
          exact fun hg' => hg ((hk.grants_iff _).mp hg')
        exact ⟨_, _, _, o, allocateBlock_refused hk.left hn hf hg,
          allocateBlock_refused hk.right hn hf hg', hk.of_continues (continues_afterRefusal h)
            (continues_afterRefusal k) hk.left.afterRefusal hk.right.afterRefusal hk.size_eq,
          nofun⟩

theorem SameOutline.allocateBlock (hk : h.SameOutline k o) (n : Nat) :
    SameAnswer (h.allocateBlock n) (k.allocateBlock n) := by
  obtain ⟨answer, h', k', o', hok, hok', hk', -⟩ := hk.exists_allocateBlock n
  exact ⟨answer, h', k', o', hok, hok', hk'⟩

/-- A block in use is vacated by freeing it. -/
theorem Shows.vacate_freed (hs : h.Shows o) (hv : v ∈ o.blocks) (ha : v.allocated = true) :
    ∃ a, (h.vacate v.block).outcome = .ok (.ok (), h.withArena a) ∧
      Freed h (h.withArena a) o (o.release v.block) v := by
  obtain ⟨a, hok, hfreed⟩ := hs.release_freed hv ha
  refine ⟨a, ?_, hfreed⟩
  unfold Heap.vacate
  rw [Traced.outcome_bind, bind_of_ok (hs.resolve_allocated hv ha)]
  dsimp only
  simp only [Traced.outcome_bind, Traced.outcome_pure, Traced.outcome_emit]
  exact bind_ok_iff.mpr ⟨a, hok, rfl⟩

section

variable (hk : h.SameOutline k o) (hv : v ∈ o.blocks) (ha : v.allocated = true)

include hk hv ha

/-- What an allocation does alike, moving a block does. -/
theorem SameOutline.relocate (n : Nat) :
    SameAnswer (h.relocate v.block n) (k.relocate v.block n) := by
  obtain ⟨answer, h₁, k₁, o₁, hok, hok', hk₁, hserved⟩ := hk.exists_allocateBlock n
  cases answer with
  | error e => exact ⟨_, h₁, k₁, o₁, relocate_of_error hok, relocate_of_error hok', hk₁⟩
  | ok b =>
    obtain ⟨needed, w, rfl, hleft, hright⟩ := hserved b rfl
    obtain ⟨h', hmoved, hc, hsize, -, hresized⟩ := relocate_served hk.left hleft hv ha hok
    obtain ⟨k', hmoved', hc', hsize', -, hresized'⟩ := relocate_served hk.right hright hv ha hok'
    exact ⟨_, h', k', _, hmoved, hmoved',
      hk₁.of_continues_kept hc hc' hresized.shows hresized'.shows hsize hsize'⟩

/-- Whether a block has to move depends on the outline alone. -/
theorem SameOutline.resize (hn : blockSizeFor? n = some needed) :
    SameAnswer (h.resize v.block needed n) (k.resize v.block needed n) := by
  obtain ⟨hn8, hn32, -⟩ := blockSizeFor?_eq_some hn
  unfold SameAnswer
  rw [hk.left.resize_outcome hv, hk.right.resize_outcome hv]
  split
  · next hshort =>
    by_cases hb : (o.tagBehind v.block).allocated = false ∧
        needed ≤ v.size + (o.tagBehind v.block).size
    · -- the tag behind is free, so it is a block and not the epilogue
      cases hbehind : o.behind v.block with
      | nil =>
        rw [Outline.tagBehind, hbehind] at hb
        cases hb.1
      | cons next rest =>
        rw [Outline.tagBehind, hbehind] at hb
        obtain ⟨h', hok, hc, hsize, hresized⟩ :=
          lengthen_absorb hk.left hv ha hn32 hn8 hshort hbehind hb.1 hb.2
        obtain ⟨k', hok', hc', hsize', hresized'⟩ :=
          lengthen_absorb hk.right hv ha hn32 hn8 hshort hbehind hb.1 hb.2
        exact ⟨_, h', k', _, hok, hok',
          hk.of_continues_kept hc hc' hresized.shows hresized'.shows hsize hsize'⟩
    · rw [lengthen_relocate hk.left hv hb, lengthen_relocate hk.right hv hb]
      exact hk.relocate hv ha n
  · next hlong =>
    have hle := Nat.le_of_not_lt hlong
    obtain ⟨h', hok, hc, hsize, hresized⟩ := shrink_resized hk.left hv ha hn32 hn8 hle
    obtain ⟨k', hok', hc', hsize', hresized'⟩ := shrink_resized hk.right hv ha hn32 hn8 hle
    exact ⟨.ok v.block, h', k', _, bind_ok_iff.mpr ⟨h', hok, rfl⟩,
      bind_ok_iff.mpr ⟨k', hok', rfl⟩,
      hk.of_continues_kept hc hc' hresized.shows hresized'.shows hsize hsize'⟩

theorem SameOutline.vacate : SameAnswer (h.vacate v.block) (k.vacate v.block) := by
  obtain ⟨a, hok, hfreed⟩ := hk.left.vacate_freed hv ha
  obtain ⟨a', hok', hfreed'⟩ := hk.right.vacate_freed hv ha
  exact ⟨_, _, _, _, hok, hok', hk.of_continues_kept hfreed.continues hfreed'.continues
    hfreed.shows hfreed'.shows hfreed.size_eq hfreed'.size_eq⟩

theorem SameOutline.alter (n : Nat) : SameAnswer (h.alter v.block n) (k.alter v.block n) := by
  unfold SameAnswer Heap.alter
  rw [Traced.outcome_bind, bind_of_ok (hk.left.resolve_allocated hv ha), Traced.outcome_bind,
    bind_of_ok (hk.right.resolve_allocated hv ha)]
  dsimp only
  cases hn : blockSizeFor? n with
  | none => exact ⟨_, h, k, o, rfl, rfl, hk⟩
  | some needed => exact hk.resize hv ha hn

end

/-- The handle, if there is one, is that of a block in use. -/
def Live (o : Outline) (target : Option Handle) : Prop :=
  ∀ b ∈ target, ∃ v ∈ o.blocks, v.allocated = true ∧ v.block = b

/-- **An attempt** that is no write has the same answer on both sides, and leaves the same outline.
A write may write different bytes. -/
theorem SameOutline.attempt (hk : h.SameOutline k o) {target : Option Handle}
    (hlive : Live o target) {call : Call} (hcall : ¬ call.Writes) :
    SameAnswer (h.attempt target call) (k.attempt target call) := by
  cases call with
  | allocate request => exact (hk.allocateBlock request).map _
  | free place =>
    cases target with
    | none => exact ⟨_, h, k, o, rfl, rfl, hk⟩
    | some b =>
      obtain ⟨v, hv, ha, rfl⟩ := hlive b rfl
      exact (hk.vacate hv ha).map _
  | reallocate place request =>
    cases target with
    | none => exact (hk.allocateBlock request).map _
    | some b =>
      obtain ⟨v, hv, ha, rfl⟩ := hlive b rfl
      unfold Heap.attempt
      dsimp only [Option.elim]
      split
      · exact (hk.vacate hv ha).map _
      · exact (hk.alter hv ha request).map _
  | write place first count value => exact absurd trivial hcall

/-- **A write** leaves a heap with the outline of the one before it. -/
theorem Shows.exists_write (hs : h.Shows o) {target : Option Handle} (hlive : Live o target)
    {call : Call} (hcall : call.Writes) :
    ∃ h', (h.attempt target call).outcome = .ok (.ok none, h') ∧ h.SameOutline h' o := by
  cases call with
  | write place first count value =>
    cases target with
    | none => exact ⟨h, rfl, hs.sameOutline_self⟩
    | some b =>
      obtain ⟨v, hv, ha, rfl⟩ := hlive b rfl
      obtain ⟨hok, hs'⟩ := fill_allocated hs hv ha first count value
      exact ⟨_, Traced.map_ok_iff.mpr ⟨_, hok, rfl⟩, hs, hs', ⟨rfl, rfl, rfl, rfl⟩,
        (changed_written hs hv first count value).size_eq⟩
  | allocate | free | reallocate => exact absurd hcall id

end Heap

end BoundaryTag
