import BoundaryTag.Proofs.Following

/-!
# The check decides

Where prologue and epilogue are at their places and the provider tells the true bounds, a
check ends in a report exactly if the heap is well formed, whatever its bytes, its head and
its recorded length are. Each walk accepts just what the judgements of its steps add up to:

> `soundBlocks_ok_iff`: the walk over the blocks accepts a tiling whose blocks carry their
> tags and whose free blocks are merged, up to an epilogue.
>
> `Placed.walk_ok_iff`: behind a prologue such blocks are laid, and the free list can be followed.
>
> `check_ok_iff`: a report means that the arena shows an outline, and sums it up.
-/

namespace BoundaryTag

open BlockView (block tag)

namespace Region

variable {r : Region} {low stop : Nat} {b : Block} {v w : BlockView} {prevFree : Option Nat}

/-! ## Judgements that accept -/

theorem Intact.unique (hv : r.Intact stop v) (hw : r.Intact stop w) (ho : v.block = w.block) :
    v = w := by
  obtain ⟨offset, size, allocated⟩ := v
  obtain ⟨offset', size', allocated'⟩ := w
  cases congrArg Block.offset ho
  have htag := (hv.framed.ofWord_header hv.size_aligned).symm.trans
    (hw.framed.ofWord_header hw.size_aligned)
  cases congrArg Tag.size htag
  cases congrArg Tag.allocated htag
  rfl

/-- The size is read off the header whichever bits are taken for it. -/
theorem Intact.rawSize_header (h : r.Intact stop v) :
    Tag.rawSize (r.word (v.offset - 8)) = v.size := by
  have h8 := h.size_aligned
  rw [h.framed.header]
  unfold Tag.rawSize Tag.word tag
  dsimp only
  split <;> omega

/-- Nothing but an epilogue is judged to be the end. -/
theorem judgeBlock_none_iff (hstop : stop ≤ r.size) (hr : r.size < Word.limit)
    (hb : 8 ≤ b.offset) :
    r.judgeBlock stop prevFree b = .ok none ↔
      b.offset = stop ∧ Tag.ofWord (r.word (b.offset - 8)) = ⟨0, true⟩ := by
  have hjudged := judgeBlock_judged hstop hr hb prevFree
  generalize r.judgeBlock stop prevFree b = judgement at hjudged ⊢
  constructor
  · rintro rfl
    cases hjudged with
    | epilogue last tag => exact ⟨last, tag⟩
  · rintro ⟨hlast, htag⟩
    have hsize : (Tag.ofWord (r.word (b.offset - 8))).size = 0 := congrArg Tag.size htag
    -- a block would have some size in its header
    have hblock : ∀ {v : BlockView}, v.block = b → ¬ r.Intact stop v := by
      rintro v rfl hv
      have hzero := (congrArg Tag.size (hv.framed.ofWord_header hv.size_aligned)).symm.trans hsize
      have hsize_ge := hv.size_ge
      exact absurd hzero (show v.size ≠ 0 by omega)
    cases hjudged with
    | beyond far => omega
    | epilogue => rfl
    | badEpilogue _ _ misplaced => exact absurd ⟨congrArg Tag.allocated htag, hlast⟩ misplaced
    | badSize _ filled => exact absurd hsize filled
    | outOfBounds _ long aligned =>
      rw [Tag.size_ofWord aligned] at hsize
      omega
    | tagMismatch long aligned =>
      rw [Tag.size_ofWord aligned] at hsize
      omega
    | uncoalesced place intact => exact absurd intact (hblock place)
    | sound place intact => exact absurd intact (hblock place)

/-- Nothing but a block as it should be passes. -/
theorem judgeBlock_some_iff (hstop : stop ≤ r.size) (hr : r.size < Word.limit)
    (hb : 8 ≤ b.offset) :
    r.judgeBlock stop prevFree b = .ok (some v) ↔
      v.block = b ∧ r.Intact stop v ∧ (v.allocated = true ∨ prevFree = none) := by
  have hjudged := judgeBlock_judged hstop hr hb prevFree
  generalize r.judgeBlock stop prevFree b = judgement at hjudged ⊢
  constructor
  · rintro rfl
    cases hjudged with
    | sound place intact merged => exact ⟨place, intact, merged⟩
  · rintro ⟨rfl, hv, hmerged⟩
    have hge := hv.size_ge
    have h8 := hv.size_aligned
    have hwithin := hv.within
    have hraw := hv.rawSize_header
    have hsize : (Tag.ofWord (r.word (v.block.offset - 8))).size = v.size :=
      congrArg Tag.size (hv.framed.ofWord_header h8)
    simp only [block] at hsize
    cases hjudged with
    | beyond far => simp only [block] at far; omega
    | epilogue _ tag =>
      simp only [block] at tag
      rw [tag] at hsize
      dsimp only at hsize
      omega
    | badEpilogue _ empty => simp only [block] at empty; omega
    | badSize _ _ odd => simp only [block] at odd; omega
    | outOfBounds _ _ _ past => simp only [block] at past; omega
    | tagMismatch _ _ _ differ =>
      simp only [block, hraw] at differ
      exact absurd (hv.framed.footer.trans hv.framed.header.symm) differ
    | uncoalesced place intact free before =>
      cases intact.unique hv place
      rcases hmerged with hused | hnone
      · rw [free] at hused
        cases hused
      · rw [before] at hnone
        cases hnone
    | sound place intact => rw [intact.unique hv place]

/-! ## The walk over the blocks -/

/-- One step of the walk over the blocks. -/
theorem soundBlocks_eq (r : Region) (stop : Nat) (prevFree : Option Nat) (b : Block) :
    r.soundBlocks stop prevFree b = do
      match ← r.judgeBlock stop prevFree b with
      | none => return []
      | some v =>
        let free := if v.allocated then none else some v.offset
        return v :: (← r.soundBlocks stop free ⟨v.offset + v.size⟩) := by
  rw [soundBlocks]
  split
  · next judged => rw [judged]; rfl
  · next judged => rw [judged]; rfl
  · next judged => rw [bind_of_ok judged]

theorem soundBlocks_nil_iff :
    r.soundBlocks stop prevFree b = .ok [] ↔ r.judgeBlock stop prevFree b = .ok none := by
  rw [soundBlocks]
  split
  · next judged => simp [judged]
  · next judged => simp [judged]
  · next v judged =>
    refine iff_of_false (fun h => ?_) (by simp [judged])
    obtain ⟨rest, -, hrest⟩ := bind_ok_iff.mp h
    cases hrest

theorem soundBlocks_cons_iff {rest : List BlockView} :
    r.soundBlocks stop prevFree b = .ok (v :: rest) ↔ r.judgeBlock stop prevFree b = .ok (some v) ∧
      r.soundBlocks stop (if v.allocated then none else some v.offset) ⟨v.offset + v.size⟩ =
        .ok rest := by
  rw [soundBlocks]
  split
  · next judged => simp [judged]
  · next judged => simp [judged]
  · next w judged =>
    constructor
    · intro h
      obtain ⟨rest', hrest, heq⟩ := bind_ok_iff.mp h
      cases heq
      exact ⟨judged, hrest⟩
    · rintro ⟨hjudge, hrest⟩
      cases judged.symm.trans hjudge
      exact bind_ok_iff.mpr ⟨rest, hrest, rfl⟩

/-- **The walk over the blocks** lists a tiling of framed blocks up to the epilogue, with no
free pair among them or with the block before. -/
theorem soundBlocks_ok_iff {blocks : List BlockView} (hstop : stop ≤ r.size)
    (hr : r.size < Word.limit) (hb : 8 ≤ b.offset) :
    r.soundBlocks stop prevFree b = .ok blocks ↔
      Tiling b.offset blocks stop ∧ (∀ v ∈ blocks, r.Framed v) ∧ NoFreePair blocks ∧
        (∀ v ∈ blocks.head?, v.allocated = true ∨ prevFree = none) ∧
        Tag.ofWord (r.word (stop - 8)) = ⟨0, true⟩ := by
  induction blocks generalizing prevFree b with
  | nil =>
    rw [soundBlocks_nil_iff, judgeBlock_none_iff hstop hr hb]
    constructor
    · rintro ⟨rfl, htag⟩
      exact ⟨rfl, nofun, .nil, nofun, htag⟩
    · rintro ⟨hlast, -, -, -, htag⟩
      have hlast : b.offset = stop := hlast
      exact ⟨hlast, hlast ▸ htag⟩
  | cons v rest ih =>
    rw [soundBlocks_cons_iff, judgeBlock_some_iff hstop hr hb]
    constructor
    · rintro ⟨⟨rfl, hv, hmerged⟩, hrest⟩
      have hlow : 8 ≤ v.offset + v.size := Nat.le_add_right_of_le hb
      obtain ⟨htiling, hframed, hpairs, hhead, hend⟩ := (ih hlow).mp hrest
      refine ⟨⟨rfl, hv.size_ge, hv.size_aligned, htiling⟩,
        List.forall_mem_cons.mpr ⟨hv.framed, hframed⟩, hpairs.cons fun w hw => ?_,
        fun w hw => ?_, hend⟩
      · -- the block before the rest is free exactly if it is remembered as such
        refine (hhead w hw).symm.imp_left fun hnone => ?_
        by_contra hfree
        rw [if_neg hfree] at hnone
        cases hnone
      · cases hw
        exact hmerged
    · rintro ⟨⟨ho, hge, h8, htiling⟩, hframed, hpairs, hhead, hend⟩
      have hlow : 8 ≤ v.offset + v.size := by omega
      obtain ⟨hv, hrest⟩ := List.forall_mem_cons.mp hframed
      refine ⟨⟨Block.ext ho, ⟨hge, h8, ?_, hv⟩, hhead v rfl⟩, (ih hlow).mpr
        ⟨by rw [ho]; exact htiling, hrest, hpairs.tail, fun w hw => ?_, hend⟩⟩
      · rw [ho]
        exact htiling.le
      · refine (hpairs.rel_head? hw).symm.imp_right fun hused => ?_
        exact if_pos hused

end Region

/-! ## The check -/

/-- The offsets of the free blocks, as a check lists them. -/
theorem map_offset_vacant (blocks : List BlockView) :
    (blocks.filter (!·.allocated)).map (·.offset) = (vacant blocks).map Block.offset := by
  rw [vacant, List.map_map]
  rfl

/-- Distinct members that leave no free block over are the free blocks. -/
theorem perm_vacant_iff {start stop : Nat} {blocks : List BlockView} {members : List Block}
    (h : Tiling start blocks stop) :
    members.Perm (vacant blocks) ↔ members.Nodup ∧
      (∀ b ∈ members, b.offset ∈ (vacant blocks).map Block.offset) ∧
      ((vacant blocks).map Block.offset).diff (members.map Block.offset) = [] := by
  have hnodup := h.vacant_nodup
  rw [(List.Nodup.map Block.offset_injective hnodup).sdiff_eq_filter, List.filter_eq_nil_iff,
    List.forall_mem_map]
  simp only [List.mem_map_of_injective Block.offset_injective, decide_eq_true_eq, not_not]
  constructor
  · intro hperm
    exact ⟨hperm.nodup_iff.mpr hnodup, fun b => hperm.mem_iff.mp, fun b => hperm.mem_iff.mpr⟩
  · rintro ⟨hmembers, hsub, hall⟩
    exact (List.perm_ext_iff_of_nodup hmembers hnodup).mpr fun b => ⟨hsub b, hall b⟩

theorem Finding.settle_ok_ok_iff {α : Type} {x : Except Finding α} {a : α} :
    Finding.settle x = .ok (.ok a) ↔ x = .ok a := by
  constructor
  · intro h
    match x, h with
    | .ok _, rfl => rfl
  · rintro rfl
    rfl

namespace Heap

variable {h : Heap} {o : Outline} {report : Report}

/-- Both words of the prologue are in place. -/
def PrologueIntact (h : Heap) : Prop :=
  h.region.word (h.prologue.offset - 8) = Region.prologueWord ∧
    h.region.word h.prologue.offset = Region.prologueWord

instance (h : Heap) : Decidable h.PrologueIntact := inferInstanceAs (Decidable (_ ∧ _))

/-- The part of a check that comes after the walk over the blocks. -/
def listFindings (h : Heap) (blocks : List BlockView) : Except Finding Report := do
  let (listed, unlisted) ←
    h.region.soundList 0 h.size ((vacant blocks).map Block.offset) [] h.freeList.head
  match unlisted with
  | offset :: _ => throw (.violation (.freeBlockNotListed offset))
  | [] =>
    if listed.length ≠ h.freeList.length then
      throw (.violation (.listLength listed.length h.freeList.length))
    else return Report.ofBlocks h.size blocks

/-- **A check is one walk after the other,** if there is a prologue before them. -/
theorem Placed.findings_eq (hp : h.Placed) :
    h.findings = if h.PrologueIntact then
        h.region.soundBlocks h.size none h.firstBlock >>= h.listFindings
      else throw (.violation (.badPrologue h.prologue.offset)) := by
  have hfirst : h.firstBlock.offset = h.prologue.offset + 16 := rfl
  have hregion : h.region.size = h.size := rfl
  have hroom := hp.room
  have hfits := hp.fits
  have hprologue := Region.prologueSound_eq 0 h.size (show 8 ≤ h.prologue.offset by omega)
    (show _ ≤ h.region.size by omega) hp.small
  have hend : Word.add h.provider.high 1 = .ok h.size := by
    rw [← hp.high]
    exact Word.add_ok (hp.high ▸ hp.small)
  unfold findings
  dsimp only
  rw [Finding.ofFault_bind hend, hp.low, Finding.ofFault_bind hprologue]
  by_cases hwords : h.PrologueIntact
  · have hall : 0 + 8 ≤ h.prologue.offset ∧ h.prologue.offset + 8 ≤ h.size ∧
        h.region.word (h.prologue.offset - 8) = Region.prologueWord ∧
        h.region.word h.prologue.offset = Region.prologueWord :=
      ⟨by omega, by omega, hwords⟩
    rw [if_pos (decide_eq_true hall), if_pos hwords]
    simp only [map_offset_vacant]
    rfl
  · rw [if_neg fun hall => hwords (of_decide_eq_true hall).2.2, if_neg hwords]

/-- The second part ends in a report if no free block is left over and the number is right. -/
theorem listFindings_ok_iff {blocks : List BlockView} :
    h.listFindings blocks = .ok report ↔
      (∃ found, h.region.soundList 0 h.size ((vacant blocks).map Block.offset) []
        h.freeList.head = .ok (found, []) ∧ found.length = h.freeList.length) ∧
      report = Report.ofBlocks h.size blocks := by
  unfold listFindings
  rw [bind_ok_iff]
  constructor
  · rintro ⟨⟨found, left⟩, hlist, hrest⟩
    cases left with
    | cons => cases hrest
    | nil =>
      dsimp only at hrest
      split at hrest
      · cases hrest
      · next hlen =>
        cases hrest
        exact ⟨⟨found, hlist, not_not.mp hlen⟩, rfl⟩
  · rintro ⟨⟨found, hlist, hlen⟩, rfl⟩
    refine ⟨(found, []), hlist, ?_⟩
    dsimp only
    rw [if_neg (not_not.mpr hlen)]
    rfl

/-- A check ends in a report if both walks and the two counts say so. -/
theorem Placed.findings_ok_iff (hp : h.Placed) :
    h.findings = .ok report ↔ h.PrologueIntact ∧
      ∃ blocks, h.region.soundBlocks h.size none h.firstBlock = .ok blocks ∧
        (∃ found, h.region.soundList 0 h.size ((vacant blocks).map Block.offset) []
          h.freeList.head = .ok (found, []) ∧ found.length = h.freeList.length) ∧
        report = Report.ofBlocks h.size blocks := by
  rw [hp.findings_eq]
  split
  · next hwords =>
    simp only [bind_ok_iff, listFindings_ok_iff, hwords, true_and]
  · next hwords => exact iff_of_false nofun fun hall => hwords hall.1

/-- The first part passes exactly if the blocks lie side by side with their tags, and no two free
ones are neighbours. -/
theorem Placed.walk_ok_iff {blocks : List BlockView} (hp : h.Placed) :
    h.PrologueIntact ∧ h.region.soundBlocks h.size none h.firstBlock = .ok blocks ↔
      h.region.Laid none h.firstBlock.offset blocks ∧ NoFreePair blocks := by
  obtain ⟨h8, -, -, hsmall, -, -⟩ := hp.bounds
  rw [Region.soundBlocks_ok_iff (show h.size ≤ h.region.size from Nat.le_refl _) hsmall h8]
  constructor
  · intro hwalk
    obtain ⟨hprologue, htiling, hframed, hmerged, -, hend⟩ := hwalk
    exact ⟨⟨⟨hp.aligned, hp.room, hsmall, framed_prologue_iff.mpr hprologue, hend⟩, htiling,
      fun v hv _ => hframed v hv⟩, hmerged⟩
  · intro hlaid
    obtain ⟨hlaid, hmerged⟩ := hlaid
    exact ⟨framed_prologue_iff.mp hlaid.fenced.prologue, hlaid.tiling,
      fun v hv => hlaid.framed v hv nofun, hmerged, fun _ _ => .inr rfl, hlaid.fenced.epilogue⟩

/-- **A report means that the arena shows an outline,** and it sums up its blocks. -/
theorem Placed.check_ok_iff (hp : h.Placed) :
    h.check = .ok (.ok report) ↔
      ∃ o, h.arena.Shows h.firstBlock.offset o ∧ report = Report.ofBlocks h.size o.blocks := by
  obtain ⟨-, -, -, hsmall, hlow, hstop⟩ := hp.bounds
  rw [check, Finding.settle_ok_ok_iff, hp.findings_ok_iff]
  constructor
  · intro hpasses
    obtain ⟨hprologue, blocks, hwalk, ⟨found, hlist, hlen⟩, rfl⟩ := hpasses
    obtain ⟨hlaid, hmerged⟩ := hp.walk_ok_iff.mp ⟨hprologue, hwalk⟩
    obtain ⟨members, hhead, hcrossing, rfl, hleft⟩ :=
      (Region.soundList_ok_iff (Nat.le_refl _) hsmall hlow hstop hlaid.pending).mp hlist
    have hmembers := (perm_vacant_iff hlaid.tiling).mpr
      ⟨hcrossing.nodup, hcrossing.known, hleft.symm⟩
    rw [List.append_nil, List.length_reverse, List.length_map] at hlen
    exact ⟨⟨blocks, members⟩, ⟨hlaid, ⟨hhead, hlen.symm, hcrossing.linked⟩, hmembers, hmerged⟩, rfl⟩
  · intro hshows
    obtain ⟨o, hs, rfl⟩ := hshows
    obtain ⟨hprologue, hwalk⟩ := hp.walk_ok_iff.mpr ⟨hs.laid, hs.merged⟩
    obtain ⟨hnodup, hmem, hleft⟩ := (perm_vacant_iff hs.laid.tiling).mp hs.members
    have hlist := (Region.soundList_ok_iff (Nat.le_refl _) hsmall hlow hstop
      hs.laid.pending).mpr ⟨o.free, hs.listed.head, ⟨hs.listed.linked, hnodup, hmem⟩, rfl,
        hleft.symm⟩
    refine ⟨hprologue, o.blocks, hwalk, ⟨_, hlist, ?_⟩, rfl⟩
    rw [List.append_nil, List.length_reverse, List.length_map]
    exact hs.listed.length.symm

/-- The blocks and the free list of a heap that is well formed are an outline of it. -/
theorem WellFormed.shows {blocks : List BlockView} {free : List Block}
    (hw : h.WellFormed blocks free) (hp : h.Placed) :
    h.arena.Shows h.firstBlock.offset ⟨blocks, free⟩ := by
  have hroom := hp.room
  have hfits := hp.fits
  have hsmall := hp.small
  have hfirst : h.firstBlock.offset = h.prologue.offset + 16 := rfl
  have hregion : h.region.size = h.size := rfl
  obtain ⟨hheader, hfooter⟩ := hw.prologue
  rw [Block.headerWord_eq (by omega) (by omega) hsmall] at hheader
  obtain ⟨-, -, hfooter⟩ := Region.readWord_ok_iff.mp hfooter
  obtain ⟨-, -, -, hend⟩ := Block.tag_ok_iff.mp hw.epilogue
  have hframed : ∀ v ∈ blocks, h.region.Framed v := by
    intro v hv
    obtain ⟨hlow, hhigh, hvs, hvs8⟩ := hw.tiling.bounds hv
    exact (Block.framed_iff_read (by omega) (by omega) hvs8 hhigh hsmall).mpr
      ⟨hw.header v hv, hw.footer v hv⟩
  refine ⟨⟨⟨hp.aligned, hroom, hsmall,
      framed_prologue_iff.mpr ⟨Except.ok.inj hheader, hfooter.symm⟩, hend.symm⟩,
    hw.tiling, fun v hv _ => hframed v hv⟩, ⟨hw.head, hw.counted, ?_⟩, hw.members, hw.merged⟩
  refine linked_of_links fun front b back hfree => ?_
  obtain ⟨hforward, hback⟩ := hw.links front b back hfree
  rw [Option.or_none]
  exact ⟨Block.word_of_forwardLink hforward, Block.word_of_backLink hback⟩

end Heap

namespace Session

variable {p : Provider} {config : Config} {s s₀ : Session} {o : Outline}

/-- **A check decides whether a heap is well formed,** whatever became of the bytes of its
region, the head of its free list and the recorded length. -/
theorem run_check_decides (hp : p.Valid) (hok : (start p config).outcome = .ok (.ok s₀))
    (calls : List Call) :
    ∃ answers s, (s₀.run calls).outcome = .ok (answers, s) ∧
      ∀ a : Arena, a.region.size = s.heap.size →
        ∃ answer, (s.heap.withArena a).check = .ok answer ∧
          ((∃ report, answer = .ok report) ↔
            ∃ blocks free, (s.heap.withArena a).WellFormed blocks free) := by
  obtain ⟨answers, s, o, hrun, hs⟩ := exists_run (start_shows hp hok) calls
  refine ⟨answers, s, hrun, fun a hsize => ?_⟩
  have hplaced := hs.heap.placed.withArena hsize
  obtain ⟨answer, hanswer⟩ := hplaced.exists_check
  refine ⟨answer, hanswer, ?_⟩
  constructor
  · rintro ⟨report, rfl⟩
    obtain ⟨o', ho', -⟩ := hplaced.check_ok_iff.mp hanswer
    exact ⟨o'.blocks, o'.free, (hs.heap.withArena ho' hsize).wellFormed⟩
  · rintro ⟨blocks, free, hwell⟩
    have hreport := hplaced.check_ok_iff.mpr ⟨_, hwell.shows hplaced, rfl⟩
    exact ⟨_, Except.ok.inj (hanswer.symm.trans hreport)⟩

/-- A session's heap passes, and does not once its free list is recorded as too long. -/
theorem run_check_decides_page : ∃ s₀, (start (.buffer 4096) .default).outcome = .ok (.ok s₀) ∧
    ∀ calls, ∃ answers s report violation, (s₀.run calls).outcome = .ok (answers, s) ∧
      (s.heap.withArena s.heap.arena).check = .ok (.ok report) ∧
      (s.heap.withArena ⟨s.heap.region, s.heap.freeList.head, s.heap.freeList.length + 1⟩).check =
        .ok (.error violation) := by
  obtain ⟨hp, s₀, hok⟩ := exists_start_page
  refine ⟨s₀, hok, fun calls => ?_⟩
  obtain ⟨answers, s, hrun, hdecides⟩ := run_check_decides hp hok calls
  obtain ⟨answers', s', o, hrun', hs⟩ := exists_run (start_shows hp hok) calls
  cases hrun.symm.trans hrun'
  obtain ⟨answer, hpass, hreport⟩ := hdecides s.heap.arena rfl
  obtain ⟨report, rfl⟩ := hreport.mpr ⟨o.blocks, o.free, hs.heap.wellFormed⟩
  obtain ⟨answer, hfail, hviolation⟩ :=
    hdecides ⟨s.heap.region, s.heap.freeList.head, s.heap.freeList.length + 1⟩ rfl
  cases answer with
  | error violation => exact ⟨answers, s, report, violation, hrun, hpass, hfail⟩
  | ok report' =>
    -- the blocks are the same, so as many of them are free
    obtain ⟨blocks, free, hwell⟩ := hviolation.mp ⟨report', rfl⟩
    cases Except.ok.inj (hwell.walk.symm.trans hs.heap.wellFormed.walk)
    have hlength := hwell.members.length_eq.trans hs.heap.wellFormed.members.length_eq.symm
    have hcounted : s.heap.freeList.length + 1 = free.length := hwell.counted
    have := hs.heap.wellFormed.counted
    omega

end Session

end BoundaryTag
