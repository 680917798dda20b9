import BoundaryTag.Proofs.Deciding

/-!
# A violation tells where the damage is

A check stops at the first thing that it finds wrong, so all that it came by before that is sound. A
violation therefore says more than its name: up to the place that it names the blocks tile the heap
and carry their tags, and if it is about the free list, all of the blocks do, and the members in
front of the one that it names are free blocks, linked to one another.

> `Region.exists_walked`: the walk over the blocks, up to the place where it ends.
>
> `Placed.locates`: what each of the violations says about the heap.
-/

namespace BoundaryTag

open BlockView (block tag)

/-- The free blocks are met in the order of their addresses. -/
theorem Tiling.vacant_sorted {start stop : Nat} {blocks : List BlockView}
    (h : Tiling start blocks stop) :
    ((vacant blocks).map Block.offset).Pairwise (· ≤ ·) := by
  rw [← map_offset_vacant]
  refine List.pairwise_map.mpr ((h.pairwise.imp fun {v w} hvw => ?_).filter _)
  exact Nat.le_of_add_right_le hvw

theorem Finding.settle_ok_error_iff {α : Type} {x : Except Finding α} {v : Violation} :
    Finding.settle x = .ok (.error v) ↔ x = .error (.violation v) := by
  constructor
  · intro h
    match x, h with
    | .error (.violation _), rfl => rfl
  · intro h
    rw [h]
    rfl

namespace Region

variable {r : Region} {stop : Nat} {prevFree : Option Nat} {b : Block} {front : List BlockView}

/-! ## The walk over the blocks -/

/-- The block that ends a stretch, if that one is free, and what came before if there is none. -/
def lastFree (prevFree : Option Nat) (front : List BlockView) : Option Nat :=
  front.getLast?.elim prevFree fun v => if v.allocated then none else some v.offset

/-- The blocks from `b` on to the place `place` are as they should be, and no two free ones among
them are neighbours. -/
structure Walked (r : Region) (stop : Nat) (prevFree : Option Nat) (b : Block)
    (front : List BlockView) (place : Block) : Prop where
  tiling : Tiling b.offset front place.offset
  within : place.offset ≤ stop
  intact : ∀ v ∈ front, r.Intact stop v
  merged : NoFreePair front
  joined : ∀ v ∈ front.head?, v.allocated = true ∨ prevFree = none

theorem lastFree_cons (v : BlockView) (front : List BlockView) :
    lastFree (if v.allocated then none else some v.offset) front =
      lastFree prevFree (v :: front) := by
  unfold lastFree
  rw [List.getLast?_cons]
  cases front.getLast? <;> rfl

/-- A free block that is remembered is the last one of those before. -/
theorem lastFree_eq_some {first : Nat} (hlast : lastFree none front = some first) :
    ∃ rest u, front = rest ++ [u] ∧ u.allocated = false ∧ u.offset = first := by
  rcases List.eq_nil_or_concat front with rfl | ⟨rest, u, rfl⟩
  · cases hlast
  · rw [List.concat_eq_append] at hlast ⊢
    simp only [lastFree, List.getLast?_append, List.getLast?_singleton, Option.some_or,
      Option.elim_some] at hlast
    cases hu : u.allocated with
    | true =>
      rw [hu] at hlast
      cases hlast
    | false =>
      rw [hu] at hlast
      exact ⟨rest, u, rfl, hu, Option.some.inj hlast⟩

theorem Walked.cons {v : BlockView} {place : Block} (hv : r.Intact stop v)
    (hjoined : v.allocated = true ∨ prevFree = none)
    (h : r.Walked stop (if v.allocated then none else some v.offset) ⟨v.offset + v.size⟩ front
      place) : r.Walked stop prevFree v.block (v :: front) place where
  tiling := ⟨rfl, hv.size_ge, hv.size_aligned, h.tiling⟩
  within := h.within
  intact := List.forall_mem_cons.mpr ⟨hv, h.intact⟩
  merged := by
    refine h.merged.cons fun w hw => (h.joined w hw).symm.imp_left fun hnone => ?_
    by_contra hfree
    rw [if_neg hfree] at hnone
    cases hnone
  joined := by
    intro w hw
    cases hw
    exact hjoined

/-- **A walk over the blocks that fails** got as far as the place that was found wrong. -/
theorem exists_walked {e : Finding} (hstop : stop ≤ r.size) (hr : r.size < Word.limit)
    (hb : 8 ≤ b.offset) (hwithin : b.offset ≤ stop)
    (hfail : r.soundBlocks stop prevFree b = .error e) :
    ∃ front place, r.Walked stop prevFree b front place ∧
      r.judgeBlock stop (lastFree prevFree front) place = .error e := by
  fun_induction soundBlocks r stop prevFree b with
  | case1 prevFree b e' judged =>
    cases hfail
    exact ⟨[], b, ⟨rfl, hwithin, fun _ hv => absurd hv List.not_mem_nil, .nil,
      fun _ hv => absurd hv (Option.not_mem_none _)⟩, judged⟩
  | case2 => cases hfail
  | case3 prevFree b v judged hmoves free ih =>
    obtain ⟨rfl, hv, hjoined⟩ := (judgeBlock_some_iff hstop hr hb).mp judged
    -- the rest of the walk failed, for this step did not
    have hrest : r.soundBlocks stop free ⟨v.offset + v.size⟩ = .error e := by
      cases hwalk : r.soundBlocks stop free ⟨v.offset + v.size⟩ with
      | ok rest =>
        rw [hwalk] at hfail
        cases hfail
      | error e' =>
        rw [hwalk] at hfail
        exact hfail
    obtain ⟨front, place, hwalked, hjudge⟩ :=
      ih (Nat.le_add_right_of_le hb) hv.within hrest
    refine ⟨v :: front, place, hwalked.cons hv hjoined, ?_⟩
    rw [← lastFree_cons]
    exact hjudge

end Region

/-! ## What a check has passed -/

namespace Heap

variable {h : Heap} {v : Violation} {blocks front : List BlockView} {members : List Block}
  {b place : Block} {next : Option Block}

/-- The prologue is as it should be, and so are the blocks from the first one on, which lie side by
side up to the place `b` of the next header. No two free ones among them are neighbours. -/
structure SoundUpTo (h : Heap) (front : List BlockView) (b : Block) : Prop where
  prologue : h.PrologueIntact
  tiling : Tiling h.firstBlock.offset front b.offset
  within : b.offset ≤ h.size
  intact : ∀ v ∈ front, h.region.Intact h.size v
  merged : NoFreePair front

/-- Prologue, blocks and epilogue are as they should be. -/
structure BlocksSound (h : Heap) (blocks : List BlockView) : Prop where
  soundUpTo : h.SoundUpTo blocks ⟨h.size⟩
  epilogue : Block.tag ⟨h.size⟩ h.region = .ok ⟨0, true⟩

/-- The free list begins with these members, which are different free blocks and linked to one
another, and goes on with `next`. -/
structure ListBegins (h : Heap) (blocks : List BlockView) (members : List Block)
    (next : Option Block) : Prop where
  head : h.freeList.head = members.head?.or next
  linksRead : h.region.LinksRead none members next
  once : members.Nodup
  free : ∀ b ∈ members, b ∈ vacant blocks

/-- The free list leads to `b`, which is none of the members before and has room for a block. -/
structure Reaches (h : Heap) (blocks : List BlockView) (members : List Block) (b : Block) :
    Prop where
  blocksSound : h.BlocksSound blocks
  listBegins : h.ListBegins blocks members (some b)
  fresh : b ∉ members
  within : overhead ≤ b.offset ∧ b.offset + overhead ≤ h.size

/-- What a violation says about a heap. -/
inductive Locates (h : Heap) : Violation → Prop
  | badPrologue (damaged : ¬ h.PrologueIntact) : Locates h (.badPrologue h.prologue.offset)
  | badEpilogue {front : List BlockView} {b : Block} {t : Tag} (soundUpTo : h.SoundUpTo front b)
      (tag : b.tag h.region = .ok t) (empty : t.size = 0)
      (misplaced : ¬ (t.allocated = true ∧ b.offset = h.size)) :
      Locates h (.badEpilogue b.offset)
  | badSize {front : List BlockView} {b : Block} {header : Nat} (soundUpTo : h.SoundUpTo front b)
      (header_read : b.headerWord h.region = .ok header)
      (odd : Tag.rawSize header < minBlockSize ∨ Tag.rawSize header % alignment ≠ 0) :
      Locates h (.badSize b.offset (Tag.rawSize header))
  | blockOutside {front : List BlockView} {b : Block} {t : Tag} (soundUpTo : h.SoundUpTo front b)
      (tag : b.tag h.region = .ok t) (past : h.size < b.offset + t.size) :
      Locates h (.outOfBounds b.offset)
  | tagMismatch {front : List BlockView} {b : Block} {header footer : Nat}
      (soundUpTo : h.SoundUpTo front b)
      (header_read : b.headerWord h.region = .ok header)
      (footer_read : b.footerWord h.region = .ok footer) (differ : footer ≠ header) :
      Locates h (.tagMismatch b.offset header footer)
  | uncoalesced {front : List BlockView} {u w : BlockView}
      (soundUpTo : h.SoundUpTo (front ++ [u]) w.block)
      (before : u.allocated = false) (intact : h.region.Intact h.size w)
      (behind : w.allocated = false) : Locates h (.uncoalesced u.offset w.offset)
  | memberOutside {blocks : List BlockView} {members : List Block} {b : Block}
      (blocksSound : h.BlocksSound blocks) (listBegins : h.ListBegins blocks members (some b))
      (outside : b.offset < overhead ∨ h.size < b.offset + overhead) :
      Locates h (.outOfBounds b.offset)
  | listedTwice {blocks : List BlockView} {members : List Block} {b : Block}
      (blocksSound : h.BlocksSound blocks) (listBegins : h.ListBegins blocks members (some b))
      (met : b ∈ members) :
      Locates h (.listedTwice b.offset)
  | allocatedInFreeList {blocks : List BlockView} {members : List Block} {b : Block}
      (reaches : h.Reaches blocks members b) (marked : b.allocated h.region = .ok true) :
      Locates h (.allocatedInFreeList b.offset)
  | strayLink {blocks : List BlockView} {members : List Block} {b : Block}
      (reaches : h.Reaches blocks members b) (unmarked : b.allocated h.region = .ok false)
      (stray : b ∉ blocks.map block) : Locates h (.strayLink b.offset)
  | brokenBackLink {blocks : List BlockView} {members : List Block} {b : Block}
      {found : Option Block} (reaches : h.Reaches blocks members b) (free : b ∈ vacant blocks)
      (link_read : b.backLink h.region = .ok found) (differ : found ≠ members.getLast?) :
      Locates h (.brokenBackLink b.offset (members.getLast?.map Block.offset)
        (found.map Block.offset))
  | freeBlockNotListed {blocks : List BlockView} {members : List Block} {b : Block}
      (blocksSound : h.BlocksSound blocks) (listBegins : h.ListBegins blocks members none)
      (free : b ∈ vacant blocks) (missing : b ∉ members)
      (lowest : ∀ c ∈ vacant blocks, c ∉ members → b.offset ≤ c.offset) :
      Locates h (.freeBlockNotListed b.offset)
  | listLength {blocks : List BlockView} {members : List Block} (blocksSound : h.BlocksSound blocks)
      (listBegins : h.ListBegins blocks members none) (all : members.Perm (vacant blocks))
      (wrong : members.length ≠ h.freeList.length) :
      Locates h (.listLength members.length h.freeList.length)

/-! ## Violations of the walk over the blocks -/

theorem BlocksSound.laid (hp : h.Placed) (hw : h.BlocksSound blocks) :
    h.region.Laid none h.firstBlock.offset blocks where
  fenced := ⟨hp.aligned, hp.room, hp.small, framed_prologue_iff.mpr hw.soundUpTo.prologue,
    (Block.tag_ok_iff.mp hw.epilogue).2.2.2.symm⟩
  tiling := hw.soundUpTo.tiling
  framed v hv _ := (hw.soundUpTo.intact v hv).framed

/-- The walk over the blocks passes exactly if nothing is wrong with them. -/
theorem Placed.blocksSound_iff (hp : h.Placed) :
    h.BlocksSound blocks ↔ h.PrologueIntact ∧
      h.region.soundBlocks h.size none h.firstBlock = .ok blocks := by
  rw [hp.walk_ok_iff]
  constructor
  · intro hw
    exact ⟨hw.laid hp, hw.soundUpTo.merged⟩
  · intro hlaid
    obtain ⟨hlaid, hmerged⟩ := hlaid
    obtain ⟨-, -, -, hsmall, -, hstop⟩ := hp.bounds
    refine ⟨⟨framed_prologue_iff.mp hlaid.fenced.prologue, hlaid.tiling, Nat.le_refl _,
      fun v hv => ?_, hmerged⟩, ?_⟩
    · obtain ⟨-, -, hsize, hsize8, -, hend⟩ := hlaid.bounds hv
      exact ⟨hsize, hsize8, hend, hlaid.framed v hv nofun⟩
    · exact Block.tag_ok_iff.mpr ⟨show 8 ≤ h.size by omega, Nat.le_refl _, hsmall,
        hlaid.fenced.epilogue.symm⟩

/-- The header that the blocks lead to can be read. -/
theorem SoundUpTo.header_shown (hp : h.Placed) (hl : h.SoundUpTo front b) :
    8 ≤ b.offset ∧ b.headerWord h.region = .ok (h.region.word (b.offset - 8)) ∧
      b.tag h.region = .ok (Tag.ofWord (h.region.word (b.offset - 8))) := by
  obtain ⟨h8, -, hregion, hsmall, -, -⟩ := hp.bounds
  have hlow := hl.tiling.le
  have hwithin := hl.within
  have hoffset : 8 ≤ b.offset := Nat.le_trans h8 hlow
  exact ⟨hoffset, Block.headerWord_eq hoffset (by omega) hsmall,
    Block.tag_ok_iff.mpr ⟨hoffset, by omega, by omega, rfl⟩⟩

/-- **A violation of the walk over the blocks** is about the place that the walk came to. -/
theorem SoundUpTo.locates (hp : h.Placed) (hl : h.SoundUpTo front place)
    (hfail : h.region.judgeBlock h.size (Region.lastFree none front) place =
      .error (.violation v)) : h.Locates v := by
  obtain ⟨-, -, hregion, hsmall, -, -⟩ := hp.bounds
  obtain ⟨h8, hheader, htag⟩ := hl.header_shown hp
  have hwithin := hl.within
  have hjudged := Region.judgeBlock_judged (show h.size ≤ h.region.size from Nat.le_refl _) hsmall
    h8 (Region.lastFree none front)
  rw [hfail] at hjudged
  cases hjudged with
  | beyond far => omega
  | badEpilogue near empty misplaced => exact .badEpilogue hl htag empty misplaced
  | badSize near filled odd => exact .badSize hl hheader odd
  | outOfBounds near long aligned past =>
    exact .blockOutside hl htag (by rw [Tag.size_ofWord aligned]; exact past)
  | tagMismatch long aligned within differ =>
    have hsize := Tag.size_ofWord aligned
    have hfooter := Block.footerWord_eq htag (by omega) (by omega) (by omega)
    rw [hsize] at hfooter
    exact .tagMismatch hl hheader hfooter differ
  | uncoalesced at_place intact free before =>
    obtain ⟨rest, u, rfl, hu, rfl⟩ := Region.lastFree_eq_some before
    cases at_place
    exact .uncoalesced hl hu intact free

/-! ## Violations of the walk along the free list -/

/-- The walk along the list starts with all free blocks still to be met. -/
theorem BlocksSound.pending (hp : h.Placed) (hw : h.BlocksSound blocks) :
    h.region.Pending 0 h.size ((vacant blocks).map Block.offset) [] :=
  (hw.laid hp).pending

/-- The members that the list begins with are those that the walk can go through. -/
theorem listBegins_iff : h.ListBegins blocks members next ↔
    h.freeList.head = members.head?.or next ∧
    h.region.WalksThrough ((vacant blocks).map Block.offset) [] members next := by
  have hfree : ∀ b, b.offset ∈ (vacant blocks).map Block.offset ↔ b ∈ vacant blocks :=
    fun _ => List.mem_map_of_injective Block.offset_injective
  constructor
  · intro hv
    exact ⟨hv.head, hv.linksRead, hv.once, fun b hb => (hfree b).mpr (hv.free b hb)⟩
  · intro hv
    obtain ⟨hhead, hlinksRead, hnodup, hknown⟩ := hv
    exact ⟨hhead, hlinksRead, hnodup, fun b hb => (hfree b).mp (hknown b hb)⟩

/-- What the walk has met once it went through the members, the last one first. -/
def met (members : List Block) : List Nat := (members.map Block.offset).reverse

/-- The free blocks that it has still to meet then. -/
def unmet (blocks : List BlockView) (members : List Block) : List Nat :=
  ((vacant blocks).map Block.offset).diff (members.map Block.offset)

/-- What it then finds of the block `b`. -/
def judgement (h : Heap) (blocks : List BlockView) (members : List Block) (b : Block) :
    Except Finding (Option Block) :=
  h.region.judgeMember 0 h.size (unmet blocks members) (met members) b

theorem mem_met : b.offset ∈ met members ↔ b ∈ members := by
  rw [met, List.mem_reverse, List.mem_map_of_injective Block.offset_injective]

theorem head?_met (members : List Block) :
    (met members).head? = members.getLast?.map Block.offset := by
  rw [met, List.head?_reverse, List.getLast?_map]

theorem BlocksSound.mem_unmet (hw : h.BlocksSound blocks) :
    b.offset ∈ unmet blocks members ↔ b ∈ vacant blocks ∧ b ∉ members := by
  have hnodup := hw.soundUpTo.tiling.vacant_nodup.map Block.offset_injective
  rw [unmet, hnodup.mem_sdiff_iff, List.mem_map_of_injective Block.offset_injective,
    List.mem_map_of_injective Block.offset_injective]

theorem Placed.vetted (hp : h.Placed) (blocks : List BlockView) (members : List Block) (b : Block) :
    h.region.Vetted 0 h.size (unmet blocks members) (met members) b
      (h.judgement blocks members b) := by
  obtain ⟨-, -, -, hsmall, hlow, hstop⟩ := hp.bounds
  exact Region.judgeMember_vetted _ _ b (Nat.le_refl h.size) hsmall hlow hstop

/-- **The walk goes through the members** that the list begins with. -/
theorem BlocksSound.walk_eq (hp : h.Placed) (hw : h.BlocksSound blocks)
    (hv : h.ListBegins blocks members next) :
    h.region.soundList 0 h.size ((vacant blocks).map Block.offset) [] h.freeList.head =
      h.region.soundList 0 h.size (unmet blocks members) (met members) next := by
  obtain ⟨-, -, -, hsmall, hlow, hstop⟩ := hp.bounds
  obtain ⟨hhead, hwalks⟩ := listBegins_iff.mp hv
  rw [hhead, hwalks.soundList_eq (Nat.le_refl h.size) hsmall hlow hstop (hw.pending hp),
    List.append_nil]
  rfl

/-- It ends at a member that does not pass, or behind the last one. -/
theorem BlocksSound.exists_listBegins (hp : h.Placed) (hw : h.BlocksSound blocks) :
    ∃ members next, h.ListBegins blocks members next ∧
      ∀ b ∈ next, ∃ e, h.judgement blocks members b = .error e := by
  obtain ⟨-, -, -, hsmall, hlow, hstop⟩ := hp.bounds
  obtain ⟨members, next, hhead, hwalks, hstops⟩ :=
    Region.exists_walksThrough (Nat.le_refl h.size) hsmall hlow hstop (hw.pending hp)
      h.freeList.head
  rw [List.append_nil] at hstops
  exact ⟨members, next, listBegins_iff.mpr ⟨hhead, hwalks⟩, hstops⟩

/-- What is found of such a member is what comes of the list. -/
theorem BlocksSound.listFindings_eq_error {e : Finding} (hp : h.Placed) (hw : h.BlocksSound blocks)
    (hv : h.ListBegins blocks members (some b)) (hfail : h.judgement blocks members b = .error e) :
    h.listFindings blocks = .error e := by
  unfold judgement at hfail
  unfold listFindings
  rw [hw.walk_eq hp hv, Region.soundList_eq, hfail]
  rfl

/-- The word in front of a block tells whether it is in use. -/
theorem BlocksSound.allocated_shown (hp : h.Placed) (hw : h.BlocksSound blocks) {w : BlockView}
    (hv : w ∈ blocks) : w.block.allocated h.region = .ok w.allocated := by
  have hlaid := hw.laid hp
  obtain ⟨h32, -, -, h8, -, hend⟩ := hlaid.bounds hv
  have hsize : h.region.size = h.size := rfl
  have htag : w.block.tag h.region = .ok (Tag.ofWord (h.region.word (w.offset - 8))) :=
    Block.tag_ok_iff.mpr ⟨show 8 ≤ w.offset by omega, show w.offset ≤ _ by omega,
      show w.offset < _ by have := hp.small; omega, rfl⟩
  rw [Block.allocated_eq htag, (hlaid.framed w hv nofun).ofWord_header h8]
  rfl

/-- The word in front of a place with room for a block can be read. -/
theorem Reaches.mark_shown (hp : h.Placed) (hr : h.Reaches blocks members b) :
    b.allocated h.region = .ok (Tag.ofWord (h.region.word (b.offset - 8))).allocated := by
  obtain ⟨-, -, hregion, hsmall, -, -⟩ := hp.bounds
  obtain ⟨h16, hfits⟩ := hr.within
  have h16 : 16 ≤ b.offset := h16
  exact Block.allocated_eq (Block.tag_ok_iff.mpr ⟨by omega, by omega, by omega, rfl⟩)

/-- **A violation about a member** is about the one that the visited ones lead to. -/
theorem BlocksSound.locates_member (hp : h.Placed) (hw : h.BlocksSound blocks)
    (hv : h.ListBegins blocks members (some b))
    (hfail : h.judgement blocks members b = .error (.violation v)) : h.Locates v := by
  have hreaches : 0 + 16 ≤ b.offset ∧ b.offset + 16 ≤ h.size → b.offset ∉ met members →
      h.Reaches blocks members b :=
    fun hwithin hfresh => ⟨hw, hv, fun hb => hfresh (mem_met.mpr hb), by simpa using hwithin⟩
  have hvetted := hp.vetted blocks members b
  rw [hfail] at hvetted
  cases hvetted with
  | outside out => exact .memberOutside hw hv (by simpa using out)
  | twice within met => exact .listedTwice hw hv (mem_met.mp met)
  | allocated within fresh mark =>
    have hr := hreaches within fresh
    exact .allocatedInFreeList hr (mark ▸ hr.mark_shown hp)
  | stray within fresh mark unknown =>
    have hr := hreaches within fresh
    have hunmarked := mark ▸ hr.mark_shown hp
    refine .strayLink hr hunmarked fun hb => unknown (hw.mem_unmet.mpr ⟨?_, hr.fresh⟩)
    -- a block that is marked free is a free block
    obtain ⟨w, hw', rfl⟩ := List.mem_map.mp hb
    have hfree := Except.ok.inj ((hw.allocated_shown hp hw').symm.trans hunmarked)
    exact mem_vacant.mpr ⟨w, hw', hfree, rfl⟩
  | broken within fresh mark known back =>
    rw [head?_met] at back ⊢
    refine .brokenBackLink (hreaches within fresh) (hw.mem_unmet.mp known).1
      (Block.backLink_word within.2 hp.small) fun hlink => ?_
    exact back (congrArg (Option.map Block.offset) hlink)

/-- **A violation behind the last member** is about the free blocks that are none, or about the
recorded number. -/
theorem BlocksSound.locates_end (hp : h.Placed) (hw : h.BlocksSound blocks)
    (hv : h.ListBegins blocks members none)
    (hfail : h.listFindings blocks = .error (.violation v)) : h.Locates v := by
  have hwalk := hw.walk_eq hp hv
  rw [Region.soundList] at hwalk
  unfold listFindings at hfail
  rw [bind_of_ok hwalk] at hfail
  cases hunmet : unmet blocks members with
  | cons offset rest =>
    rw [hunmet] at hfail
    cases hfail
    -- the free blocks that are left over are in the order of their addresses
    have hsorted : (offset :: rest).Pairwise (· ≤ ·) :=
      hunmet ▸ hw.soundUpTo.tiling.vacant_sorted.sublist (List.diff_sublist ..)
    have hleft : ∀ c : Block, c.offset ∈ offset :: rest ↔ c ∈ vacant blocks ∧ c ∉ members :=
      fun c => hunmet ▸ hw.mem_unmet
    obtain ⟨hfree, hmissing⟩ := (hleft ⟨offset⟩).mp (List.mem_cons_self ..)
    refine .freeBlockNotListed hw hv hfree hmissing fun c hc hcm => ?_
    rcases List.mem_cons.mp ((hleft c).mpr ⟨hc, hcm⟩) with heq | hrest
    · exact Nat.le_of_eq heq.symm
    · exact List.rel_of_pairwise_cons hsorted hrest
  | nil =>
    rw [hunmet] at hfail
    dsimp only at hfail
    split at hfail
    · next hlen =>
      cases hfail
      rw [met, List.length_reverse, List.length_map] at hlen ⊢
      refine .listLength hw hv ((perm_vacant_iff hw.soundUpTo.tiling).mpr ?_) hlen
      exact ⟨hv.once, fun b hb => List.mem_map_of_mem (hv.free b hb), hunmet⟩
    · cases hfail

/-- **A violation of the walk along the list** is about the member that the walk came to, or about
the end of the list. -/
theorem BlocksSound.locates (hp : h.Placed) (hw : h.BlocksSound blocks)
    (hfail : h.listFindings blocks = .error (.violation v)) : h.Locates v := by
  obtain ⟨members, next, hvisits, hstops⟩ := hw.exists_listBegins hp
  cases next with
  | none => exact hw.locates_end hp hvisits hfail
  | some b =>
    obtain ⟨e, hjudged⟩ := hstops b rfl
    cases hfail.symm.trans (hw.listFindings_eq_error hp hvisits hjudged)
    exact hw.locates_member hp hvisits hjudged

/-- **A violation tells where the damage is.** -/
theorem Placed.locates (hp : h.Placed) (hcheck : h.check = .ok (.error v)) : h.Locates v := by
  obtain ⟨h8, hfits, hregion, hsmall, -, -⟩ := hp.bounds
  have hfail : h.findings = .error (.violation v) := Finding.settle_ok_error_iff.mp hcheck
  rw [hp.findings_eq] at hfail
  split at hfail
  · next hprologue =>
    cases hwalk : h.region.soundBlocks h.size none h.firstBlock with
    | error e =>
      rw [hwalk] at hfail
      cases hfail
      obtain ⟨front, place, hwalked, hjudge⟩ :=
        Region.exists_walked (Nat.le_refl h.size) hsmall h8 hfits hwalk
      exact SoundUpTo.locates hp
        ⟨hprologue, hwalked.tiling, hwalked.within, hwalked.intact, hwalked.merged⟩ hjudge
    | ok blocks =>
      rw [hwalk] at hfail
      exact (hp.blocksSound_iff.mpr ⟨hprologue, hwalk⟩).locates hp hfail
  · next hdamaged =>
    cases hfail
    exact .badPrologue hdamaged

/-- If the recorded length is all that is wrong with a heap, the check says so. -/
theorem Placed.check_miscounted {report : Report} {length : Nat} (hp : h.Placed)
    (hcheck : h.check = .ok (.ok report)) (hne : length ≠ h.freeList.length) :
    (h.withArena ⟨h.region, h.freeList.head, length⟩).check =
      .ok (.error (.listLength h.freeList.length length)) := by
  obtain ⟨hprologue, blocks, hwalk, ⟨found, hlist, hlen⟩, -⟩ :=
    hp.findings_ok_iff.mp (Finding.settle_ok_ok_iff.mp hcheck)
  refine Finding.settle_ok_error_iff.mpr ?_
  have hplaced : (h.withArena ⟨h.region, h.freeList.head, length⟩).Placed := hp.withArena rfl
  -- the two walks do not read the recorded length
  have hend : (h.withArena ⟨h.region, h.freeList.head, length⟩).listFindings blocks =
      .error (.violation (.listLength h.freeList.length length)) := by
    refine (bind_of_ok hlist _).trans ?_
    dsimp only
    rw [hlen]
    exact if_pos hne.symm
  exact hplaced.findings_eq.trans ((if_pos hprologue).trans ((bind_of_ok hwalk _).trans hend))

end Heap

namespace Session

variable {p : Provider} {config : Config} {s₀ : Session}

/-- **A violation tells where the damage is,** whatever became of the bytes of a heap, of the head
of its free list and of the recorded length. -/
theorem run_locates (hp : p.Valid) (hok : (start p config).outcome = .ok (.ok s₀))
    (calls : List Call) :
    ∃ answers s, (s₀.run calls).outcome = .ok (answers, s) ∧
      ∀ (a : Arena) (v : Violation), a.region.size = s.heap.size →
        (s.heap.withArena a).check = .ok (.error v) → (s.heap.withArena a).Locates v := by
  obtain ⟨answers, s, o, hrun, hs⟩ := exists_run (start_shows hp hok) calls
  exact ⟨answers, s, hrun, fun a v hsize => (hs.heap.placed.withArena hsize).locates⟩

/-- A free list that is recorded as one too long, for instance. -/
theorem run_locates_page : ∃ s₀, (start (.buffer 4096) .default).outcome = .ok (.ok s₀) ∧
    ∀ calls, ∃ answers s, (s₀.run calls).outcome = .ok (answers, s) ∧
      let n := s.heap.freeList.length
      let h := s.heap.withArena ⟨s.heap.region, s.heap.freeList.head, n + 1⟩
      h.check = .ok (.error (.listLength n (n + 1))) ∧ h.Locates (.listLength n (n + 1)) := by
  obtain ⟨hp, s₀, hok⟩ := exists_start_page
  refine ⟨s₀, hok, fun calls => ?_⟩
  obtain ⟨answers, s, hrun, hlocates⟩ := run_locates hp hok calls
  obtain ⟨answers', s', o, hrun', hs⟩ := exists_run (start_shows hp hok) calls
  cases hrun.symm.trans hrun'
  refine ⟨answers, s, hrun, ?_⟩
  have hviolation := hs.heap.placed.check_miscounted
    (hs.heap.placed.check_ok_iff.mpr ⟨o, hs.heap.sound, rfl⟩) (Nat.succ_ne_self _)
  exact ⟨hviolation, hlocates _ _ rfl hviolation⟩

end Session

end BoundaryTag
