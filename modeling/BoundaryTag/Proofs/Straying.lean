import BoundaryTag.Proofs.Locating

/-!
# How a link that leads astray is told

A link of the free list can lead to a block in use, or to a place where no block begins. A check
tells the two apart by the word in front of the place, and where no block begins that word is
anything: a place inside of a payload is called a block marked allocated, or no block at all, as
the bytes of the payload have it.

> `Reaches.check_eq`: what a check says of a place that the list leads to, by the word in front.
>
> `run_judges_links`: these are the only places of which it says so, and in front of a block the
> word tells what the block is.
-/

namespace BoundaryTag

open BlockView (block)

namespace Heap

variable {h : Heap} {blocks : List BlockView} {members : List Block} {b : Block}

/-- **Where the list leads to no free block,** the check goes by the word in front of the place. -/
theorem Reaches.check_eq (hp : h.Placed) (hr : h.Reaches blocks members b)
    (hnot : b ∉ vacant blocks) {marked : Bool} (hmark : b.allocated h.region = .ok marked) :
    h.check = .ok (.error
      (if marked then .allocatedInFreeList b.offset else .strayLink b.offset)) := by
  obtain ⟨hprologue, hwalk⟩ := hp.blocksSound_iff.mp hr.blocksSound
  have hread := Except.ok.inj ((hr.mark_shown hp).symm.trans hmark)
  have hunknown : b.offset ∉ unmet blocks members :=
    fun hknown => hnot (hr.blocksSound.mem_unmet.mp hknown).1
  obtain ⟨h16, hfits⟩ : 16 ≤ b.offset ∧ b.offset + 16 ≤ h.size := hr.within
  refine Finding.settle_ok_error_iff.mpr ?_
  rw [hp.findings_eq, if_pos hprologue, bind_of_ok hwalk]
  refine hr.blocksSound.listFindings_eq_error hp hr.listBegins ?_
  have hvetted := hp.vetted blocks members b
  generalize h.judgement blocks members b = judged at hvetted ⊢
  cases hvetted with
  | outside out => omega
  | twice within met => exact absurd (mem_met.mp met) hr.fresh
  | allocated within fresh mark => rw [← hread, if_pos mark]
  | stray within fresh mark unknown => rw [← hread, mark, if_neg Bool.false_ne_true]
  | broken within fresh mark known back => exact absurd known hunknown
  | sound within fresh mark known back => exact absurd known hunknown

/-- What is marked allocated is no free block. -/
theorem BlocksSound.not_mem_vacant (hp : h.Placed) (hw : h.BlocksSound blocks)
    (hmarked : b.allocated h.region = .ok true) : b ∉ vacant blocks := by
  intro hb
  obtain ⟨v, hv, hfree, rfl⟩ := mem_vacant.mp hb
  have hused := Except.ok.inj ((hw.allocated_shown hp hv).symm.trans hmarked)
  cases hfree.symm.trans hused

/-- **What is called a block marked allocated** is any place that the list leads to with such a
mark in front of it. -/
theorem Placed.check_allocatedInFreeList_iff (hp : h.Placed) :
    h.check = .ok (.error (.allocatedInFreeList b.offset)) ↔
      ∃ blocks members, h.Reaches blocks members b ∧ b.allocated h.region = .ok true := by
  constructor
  · intro hcheck
    obtain ⟨offset⟩ := b
    have hlocates : h.Locates (.allocatedInFreeList offset) := hp.locates hcheck
    cases hlocates with
    | allocatedInFreeList hr hmarked => exact ⟨_, _, hr, hmarked⟩
  · intro hreached
    obtain ⟨blocks, members, hr, hmarked⟩ := hreached
    exact hr.check_eq hp (hr.blocksSound.not_mem_vacant hp hmarked) hmarked

/-- **What is called no block** is a place that the list leads to where none begins, if there is no
such mark in front of it. -/
theorem Placed.check_strayLink_iff (hp : h.Placed) :
    h.check = .ok (.error (.strayLink b.offset)) ↔
      ∃ blocks members, h.Reaches blocks members b ∧ b ∉ blocks.map block ∧
        b.allocated h.region = .ok false := by
  constructor
  · intro hcheck
    obtain ⟨offset⟩ := b
    have hlocates : h.Locates (.strayLink offset) := hp.locates hcheck
    cases hlocates with
    | strayLink hr hunmarked hstray => exact ⟨_, _, hr, hstray, hunmarked⟩
  · intro hreached
    obtain ⟨blocks, members, hr, hstray, hunmarked⟩ := hreached
    refine hr.check_eq hp (fun hb => hstray ?_) hunmarked
    obtain ⟨v, hv, -, rfl⟩ := mem_vacant.mp hb
    exact List.mem_map_of_mem hv

/-- How a check tells of the places that the free list leads to: what it says of one where no block
begins is left to the word in front of it. -/
structure JudgesLinks (h : Heap) : Prop where
  allocated : ∀ b : Block, h.check = .ok (.error (.allocatedInFreeList b.offset)) ↔
    ∃ blocks members, h.Reaches blocks members b ∧ b.allocated h.region = .ok true
  stray : ∀ b : Block, h.check = .ok (.error (.strayLink b.offset)) ↔
    ∃ blocks members, h.Reaches blocks members b ∧ b ∉ blocks.map block ∧
      b.allocated h.region = .ok false
  /-- In front of a block the word tells what the block is. -/
  marks : ∀ blocks, h.BlocksSound blocks → ∀ v ∈ blocks,
    v.block.allocated h.region = .ok v.allocated
  /-- In front of any place that is reached there is such a word. -/
  marked : ∀ blocks members b, h.Reaches blocks members b →
    ∃ mark, b.allocated h.region = .ok mark

theorem Placed.judgesLinks (hp : h.Placed) : h.JudgesLinks where
  allocated _ := hp.check_allocatedInFreeList_iff
  stray _ := hp.check_strayLink_iff
  marks _ hw _ hv := hw.allocated_shown hp hv
  marked _ _ _ hr := ⟨_, hr.mark_shown hp⟩

end Heap

namespace Session

variable {p : Provider} {config : Config} {s₀ : Session}

/-- **How a link that leads astray is told,** whatever became of the bytes of a heap, of the head of
its free list and of the recorded length. -/
theorem run_judges_links (hp : p.Valid) (hok : (start p config).outcome = .ok (.ok s₀))
    (calls : List Call) :
    ∃ answers s, (s₀.run calls).outcome = .ok (answers, s) ∧
      ∀ a : Arena, a.region.size = s.heap.size → (s.heap.withArena a).JudgesLinks := by
  obtain ⟨answers, s, o, hrun, hs⟩ := exists_run (start_shows hp hok) calls
  exact ⟨answers, s, hrun, fun a hsize => (hs.heap.placed.withArena hsize).judgesLinks⟩

/-- Whatever the head of the free list was made to be, for instance. -/
theorem run_judges_links_page : ∃ s₀, (start (.buffer 4096) .default).outcome = .ok (.ok s₀) ∧
    ∀ calls, ∃ answers s, (s₀.run calls).outcome = .ok (answers, s) ∧
      ∀ head, (s.heap.withArena ⟨s.heap.region, head, s.heap.freeList.length⟩).JudgesLinks := by
  obtain ⟨hp, s₀, hok⟩ := exists_start_page
  refine ⟨s₀, hok, fun calls => ?_⟩
  obtain ⟨answers, s, hrun, hjudges⟩ := run_judges_links hp hok calls
  exact ⟨answers, s, hrun, fun head => hjudges _ rfl⟩

/-- A heap whose only free block, 72, is linked to 48, a place in the payload of the block before.
That payload was filled with one byte. -/
def linkedIntoPayload (byte : UInt8) : Option Heap := do
  let (_, s) ← reached (.buffer 4096) ⟨32, false⟩ [.allocate 24, .write 0 0 24 fun _ => byte]
  let region ← (s.heap.region.writeWord 72 48).toOption
  return s.heap.withRegion region

/-- **A payload is called a block.** No block begins at 48, which is told only if the byte is even,
for the lowest bit in front of the place is taken for the mark of a block. -/
theorem check_payload_called_block :
    (linkedIntoPayload 255).map (fun h => (h.blocks, h.check)) =
        some (.ok [⟨32, 40, true⟩, ⟨72, 32, false⟩], .ok (.error (.allocatedInFreeList 48))) ∧
      (linkedIntoPayload 254).map (fun h => (h.blocks, h.check)) =
        some (.ok [⟨32, 40, true⟩, ⟨72, 32, false⟩], .ok (.error (.strayLink 48))) := by
  decide +kernel

end Session

end BoundaryTag
