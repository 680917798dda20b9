import BoundaryTag.Proofs.Sessions
import BoundaryTag.Proofs.Walking

/-!
# Heaps stay well formed, and sessions go on

A heap is well formed (`Heap.WellFormed`) if what its own functions read off its bytes
fits together: the walk over the blocks, the tags, the links of the free list and the
recorded number of free blocks. That a heap shows an outline is the reason for it.

> `run_wellFormed`: from the start on, and after every call, a heap is well formed, and
> its blocks in use are those that the caller holds.
>
> `run_faultless`: a session whose provider does not hold too much to begin with never
> faults, and all that can be asked of its heap is answered.
-/

namespace BoundaryTag

open BlockView (block tag)

namespace Heap

variable {h : Heap} {o : Outline}

/-- The blocks and the members of the free list are these, and nothing is wrong with
them. -/
structure WellFormed (h : Heap) (blocks : List BlockView) (free : List Block) : Prop where
  /-- Adding up header sizes leads from the first block through the blocks. -/
  walk : h.blocks = .ok blocks
  /-- They lie side by side, from the first block to the end of memory. -/
  tiling : Tiling h.firstBlock.offset blocks h.size
  /-- The last word is a header without a block. -/
  epilogue : Block.tag ⟨h.size⟩ h.region = .ok ⟨0, true⟩
  prologue : h.prologue.headerWord h.region = .ok (Tag.word ⟨overhead, true⟩) ∧
    h.region.readWord h.prologue.offset = .ok (Tag.word ⟨overhead, true⟩)
  shape : ∀ v ∈ blocks, minBlockSize ≤ v.size ∧ v.size % alignment = 0 ∧ v.offset % alignment = 0
  header : ∀ v ∈ blocks, v.block.headerWord h.region = .ok v.tag.word
  footer : ∀ v ∈ blocks, v.block.footerWord h.region = .ok v.tag.word
  merged : NoFreePair blocks
  head : h.freeList.head = free.head?
  /-- A member's links name the members beside it. -/
  links : ∀ front b back, free = front ++ b :: back →
    b.forwardLink h.region = .ok back.head? ∧ b.backLink h.region = .ok front.getLast?
  /-- The members are the free blocks. -/
  members : free.Perm (vacant blocks)
  once : free.Nodup
  counted : h.freeList.length = free.length

theorem Shows.epilogue_shown (hs : h.Shows o) : Block.tag ⟨h.size⟩ h.region = .ok ⟨0, true⟩ := by
  have hroom := hs.sound.laid.fenced.room
  have hle : _ ≤ h.size := hs.sound.laid.tiling.le
  exact Block.tag_ok_iff.mpr ⟨show 8 ≤ h.size by omega, Nat.le_refl _, hs.size_lt,
    hs.sound.laid.fenced.epilogue.symm⟩

/-- The prologue is a block of its own, without a payload. -/
theorem framed_prologue_iff :
    h.region.Framed ⟨h.firstBlock.offset - 16, 16, true⟩ ↔
      h.region.word (h.prologue.offset - 8) = Region.prologueWord ∧
        h.region.word h.prologue.offset = Region.prologueWord :=
  ⟨fun hf => ⟨hf.header, hf.footer⟩, fun hf => ⟨hf.1, hf.2⟩⟩

theorem Shows.prologue_shown (hs : h.Shows o) :
    h.prologue.headerWord h.region = .ok (Tag.word ⟨overhead, true⟩) ∧
      h.region.readWord h.prologue.offset = .ok (Tag.word ⟨overhead, true⟩) := by
  have hroom := hs.sound.laid.fenced.room
  have hle : _ ≤ h.size := hs.sound.laid.tiling.le
  have hfirst : h.firstBlock.offset = h.prologue.offset + 16 := rfl
  have hsmall := hs.size_lt
  have hsize : h.region.size = h.size := rfl
  obtain ⟨hheader, hfooter⟩ := framed_prologue_iff.mp hs.sound.laid.fenced.prologue
  refine ⟨?_, Region.readWord_ok_iff.mpr ⟨by omega, by omega, hfooter.symm⟩⟩
  rw [Block.headerWord_eq (by omega) (by omega) hsmall]
  exact congrArg Except.ok hheader

/-- Where the tags of a block are known, they are read at both its ends. -/
theorem Shows.tags_shown (hs : h.Shows o) {v : BlockView} (hv : v ∈ o.blocks) :
    v.block.headerWord h.region = .ok v.tag.word ∧
      v.block.footerWord h.region = .ok v.tag.word := by
  obtain ⟨hv32, -, hvs, hvs8, -, hend⟩ := hs.sound.laid.bounds hv
  exact (Block.framed_iff_read (by omega) (by omega) hvs8 hend hs.size_lt).mp
    (hs.sound.laid.framed v hv nofun)

/-- **A heap that shows an outline is well formed.** -/
theorem Shows.wellFormed (hs : h.Shows o) : h.WellFormed o.blocks o.free where
  walk := hs.blocks_shown
  tiling := hs.sound.laid.tiling
  epilogue := hs.epilogue_shown
  prologue := hs.prologue_shown
  shape v hv := by
    obtain ⟨-, h8, hvs, hvs8, -, -⟩ := hs.sound.laid.bounds hv
    exact ⟨hvs, hvs8, h8⟩
  header _ hv := (hs.tags_shown hv).1
  footer _ hv := (hs.tags_shown hv).2
  merged := hs.sound.merged
  head := hs.sound.listed.head
  links _ _ _ hfree := hs.links_shown hfree
  members := hs.sound.members
  once := hs.sound.scattered.nodup
  counted := hs.sound.listed.length

end Heap

namespace Session

variable {p : Provider} {config : Config} {s s₀ : Session} {o : Outline}

/-- **A session keeps its heap well formed,** from the start on and after every call,
whatever the provider grants and refuses. Its blocks in use are the leased ones. -/
theorem run_wellFormed (hp : p.Valid) (hok : (start p config).outcome = .ok (.ok s₀))
    (calls : List Call) :
    ∃ answers s blocks free, (s₀.run calls).outcome = .ok (answers, s) ∧
      s.heap.WellFormed blocks free ∧ s.handles.Perm ((held blocks).map block) := by
  obtain ⟨answers, s, o, hrun, hs⟩ := exists_run (start_shows hp hok) calls
  exact ⟨answers, s, o.blocks, o.free, hrun, hs.heap.wellFormed, hs.leased⟩

/-- A heap over one page, for instance. -/
theorem run_wellFormed_buffer : ∃ s₀, (start (.buffer 4096) .default).outcome = .ok (.ok s₀) ∧
    ∀ calls, ∃ answers s blocks free, (s₀.run calls).outcome = .ok (answers, s) ∧
      s.heap.WellFormed blocks free ∧ s.handles.Perm ((held blocks).map block) := by
  obtain ⟨hp, s₀, hok⟩ := exists_start_page
  exact ⟨s₀, hok, run_wellFormed hp hok⟩

/-! ## Nothing faults -/

/-- Everything that can be asked about a session's heap and its leased handles has an
answer: the walks end, and no read is out of place. -/
structure Responsive (s : Session) : Prop where
  usableSize : ∀ b ∈ s.handles, ∃ n, (s.heap.usableSize b).outcome = .ok (.ok n)
  payload : ∀ b ∈ s.handles, ∃ bytes, (s.heap.payload b).outcome = .ok (.ok bytes)
  blocks : ∃ blocks, s.heap.blocks = .ok blocks
  /-- The walk along the free list has an end of its own. -/
  freeBlocks : ∃ members : List BlockView,
    ∀ limit, s.heap.freeBlocks limit = .ok (members.take limit)
  firstFit : ∀ needed, ∃ found, s.heap.arena.firstFit? needed = .ok found
  check : ∃ answer, s.heap.check = .ok answer
  describe : ∃ text, s.heap.describe = .ok text

theorem Shows.responsive (hs : s.Shows o) : s.Responsive where
  usableSize b hb := by
    obtain ⟨v, hv, ha, rfl⟩ := hs.exists_inUse hb
    exact ⟨_, Heap.usableSize_allocated hs.heap hv ha⟩
  payload b hb := by
    obtain ⟨v, hv, ha, rfl⟩ := hs.exists_inUse hb
    exact ⟨_, Heap.payload_allocated hs.heap hv ha⟩
  blocks := ⟨_, hs.heap.blocks_shown⟩
  freeBlocks := ⟨_, hs.heap.freeBlocks_shown⟩
  firstFit needed := ⟨_, hs.heap.firstFit?_eq needed⟩
  check := hs.heap.exists_check
  describe := by
    unfold Heap.describe
    rw [bind_of_ok hs.heap.blocks_shown]
    exact ⟨_, rfl⟩

/-- **A session never faults,** with checks and without, if its provider holds less than
half of the words' range to begin with: it starts or is refused its memory, every list of
calls comes to its end, and all questions are answered there. -/
theorem run_faultless (hp : p.Valid) (hsize : 2 * p.region.size < Word.limit)
    (config : Config) :
    ∃ started, (start p config).outcome = .ok started ∧ ∀ s₀, started = .ok s₀ →
      ∀ calls, ∃ answers s, (s₀.run calls).outcome = .ok (answers, s) ∧ s.Responsive := by
  have hlt : p.region.size + 8 < Word.limit := by
    rw [Word.limit_eq] at *
    omega
  by_cases hg : p.Grants (Heap.bytesToBuild p.region.size)
  · obtain ⟨s₀, hok⟩ := exists_start hp hlt config hg
    refine ⟨.ok s₀, hok, ?_⟩
    rintro _ ⟨⟩ calls
    obtain ⟨answers, s, o, hrun, hs⟩ := exists_run (start_shows hp hok) calls
    exact ⟨answers, s, hrun, hs.responsive⟩
  · obtain ⟨cause, hok⟩ := start_refused hlt config hg
    exact ⟨.error (.initFailed cause), hok, nofun⟩

theorem run_faultless_buffer : ∃ started, (start (.buffer 4096) .default).outcome = .ok started ∧
    ∀ s₀, started = .ok s₀ →
      ∀ calls, ∃ answers s, (s₀.run calls).outcome = .ok (answers, s) ∧ s.Responsive :=
  run_faultless (Provider.valid_buffer (Word.lt_limit (by decide))) (Word.lt_limit (by decide))
    .default

end Session

end BoundaryTag
