import BoundaryTag.Proofs.Refining
import BoundaryTag.Proofs.Reusing

/-!
# Freeing takes back an allocation

A block that is freed right after it was allocated leaves no trace among the blocks. What was split
off, or kept because it was too short for a block, is one with it again, and so the blocks are those
that the allocation found, or those that it found and the memory that the heap grew by. Only the
order of the free list tells that something happened, for the block has gone to its front.

> `Outline.lengthened_extend`: what new memory makes of the blocks and the list.
>
> `Shows.exists_undone`: the two ends of an allocation that is taken back.
>
> `run_free_undoes_allocate`: so it is with every allocation after any calls.
-/

namespace BoundaryTag

open BlockView (block)

namespace Outline

/-- So many free bytes came to lie behind the blocks of a heap of `size` bytes. They lengthen the
last block if it is free and are a block of their own otherwise, and that block is the first on the
free list, with the others behind it as they were. -/
inductive Lengthened (size bytes : Nat) : Outline → Outline → Prop
  | merged {front : List BlockView} {last : BlockView} {free : List Block}
      (vacant : last.allocated = false) :
      Lengthened size bytes ⟨front ++ [last], free⟩
        ⟨front ++ [⟨last.offset, last.size + bytes, false⟩], last.block :: free.erase last.block⟩
  | appended {blocks : List BlockView} {free : List Block}
      (used : ∀ last ∈ blocks.getLast?, last.allocated = true) :
      Lengthened size bytes ⟨blocks, free⟩ ⟨blocks ++ [⟨size, bytes, false⟩], ⟨size⟩ :: free⟩

/-- **New memory** lengthens an outline. -/
theorem lengthened_extend (o : Outline) (size bytes : Nat) :
    Lengthened size bytes o (o.extend size bytes) := by
  obtain ⟨blocks, free⟩ := o
  by_cases hused : ∀ last ∈ blocks.getLast?, last.allocated = true
  · have hnone : ∀ u ∈ ([] : List BlockView).head?, u.allocated = true :=
      fun _ hu => absurd hu (Option.not_mem_none _)
    rw [extend, freedBlocks_alone hused hnone, freedList_alone free hused hnone]
    exact .appended hused
  · obtain ⟨front, last, rfl⟩ : ∃ front last, blocks = front ++ [last] := by
      rcases List.eq_nil_or_concat blocks with rfl | ⟨front, last, rfl⟩
      · exact absurd (fun _ hlast => absurd hlast (Option.not_mem_none _)) hused
      · exact ⟨front, last, List.concat_eq_append⟩
    have hlast : last.allocated = false := by simpa using hused
    have hcut : cutLast (front ++ [last]) = (front, some last) := by simp [cutLast, hlast]
    have hextend : (⟨front ++ [last], free⟩ : Outline).extend size bytes =
        ⟨front ++ [⟨last.offset, last.size + bytes, false⟩],
          last.block :: free.erase last.block⟩ := by
      simp [extend, freedBlocks, freedList, freedBlock, mergedBlock, hcut, cutFirst, block]
    rw [hextend]
    exact .merged hlast

end Outline

namespace Heap

variable {h h₁ h₂ : Heap} {o : Outline} {n needed : Nat} {b : Block}

/-- What it comes to that the block `b` was allocated for a request of `n` bytes, which led from the
heap `h` to `h₁`, and then freed, which led to `h₂`. -/
inductive Undone (h h₁ h₂ : Heap) (n : Nat) (b : Handle) : Prop
  /-- The provider was not asked for memory. -/
  | moved {o : Outline} (asked : h₁.provider.requests = h.provider.requests)
      (before : h.decode = .ok ⟨o, h.size, h.extensions⟩) (used : b ∈ o.free)
      (after : h₂.decode = .ok ⟨⟨o.blocks, b :: o.free.erase b⟩, h.size, h.extensions⟩)
  /-- The provider was asked, and the heap has grown. -/
  | grown {o o' : Outline} {bytes : Nat} (asked : h₁.provider.requests = h.provider.requests + 1)
      (before : h.decode = .ok ⟨o, h.size, h.extensions⟩)
      (wanted : bytes = max (leastSpan n) h.config.chunk)
      (lengthened : o.Lengthened h.size bytes o') (first : o'.free.head? = some b)
      (after : h₂.decode = .ok ⟨o', h.size + bytes, h.extensions + 1⟩)

/-- The block that a fit was found in can be freed again. -/
theorem Shows.undone_fit (hs : h.Shows o) (hn : blockSizeFor? n = some needed)
    (hf : o.firstFit needed = some b) :
    ∃ h₁ h₂, (h.allocate n).outcome = .ok (.ok b, h₁) ∧
      (h₁.free (some b)).outcome = .ok (.ok (), h₂) ∧ h.Undone h₁ h₂ n b := by
  obtain ⟨v, hv, ha, rfl, hle⟩ := hs.firstFit_some hf
  obtain ⟨a, hok, hsize, hserved⟩ := allocateBlock_fit hs hn hf
  obtain ⟨a', hok', hsize', hs'⟩ :=
    hserved.shows.free_taken hs.sound.laid.tiling hs.sound.merged hv ha hle
  refine ⟨_, _, allocate_of_allocateBlock hok hserved.shows, hok', .moved rfl
    hs.realizes.decode_eq (hs.sound.mem_free.mpr ⟨v, hv, ha, rfl⟩) ?_⟩
  have hafter := hs'.realizes.decode_eq
  rwa [hsize', hsize] at hafter

/-- The block that the heap has grown for can be freed again. -/
theorem Shows.undone_grow (hs : h.Shows o) (hn : blockSizeFor? n = some needed)
    (hf : o.firstFit needed = none) (hg : h.provider.Grants (max needed h.config.chunk)) :
    ∃ h₁ h₂ b, (h.allocate n).outcome = .ok (.ok b, h₁) ∧
      (h₁.free (some b)).outcome = .ok (.ok (), h₂) ∧ h.Undone h₁ h₂ n b := by
  obtain ⟨hb32, hb8⟩ := hs.growth hn
  obtain ⟨-, hneeded⟩ := blockSizeFor?_eq_some_iff.mp hn
  generalize hbytes : max needed h.config.chunk = bytes at hb32 hb8 hg
  -- the heap with the new memory, before the block was taken from it
  obtain ⟨grown, -, hs₁, -⟩ := extend_granted hs hb32 hb8 hg
  obtain ⟨h₁, hok, hc, hsize, hserved⟩ := allocateBlock_grow hs hn hf hbytes hg
  have hmem : freedBlock o.blocks h.size bytes [] ∈ (o.extend h.size bytes).blocks :=
    List.mem_append_right _ (List.mem_cons_self ..)
  have hle : needed ≤ (freedBlock o.blocks h.size bytes []).size := by
    simp only [freedBlock, mergedBlock]
    omega
  obtain ⟨a, hok', hsize', hs'⟩ :=
    hserved.shows.free_taken hs₁.sound.laid.tiling hs₁.sound.merged hmem rfl hle
  have hfirst : (o.extend h.size bytes).free =
      (freedBlock o.blocks h.size bytes []).block :: (o.extend h.size bytes).free.tail := rfl
  rw [hfirst, List.erase_cons_head, ← hfirst] at hs'
  refine ⟨h₁, h₁.withArena a, _, allocate_of_allocateBlock hok hserved.shows, hok',
    .grown ?_ hs.realizes.decode_eq (hneeded ▸ hbytes.symm) (o.lengthened_extend h.size bytes)
      rfl ?_⟩
  · rw [hc.provider]
  · have hafter := hs'.realizes.decode_eq
    rw [hsize', hsize] at hafter
    rw [hafter, ← hc.extensions]
    rfl

/-- **An allocation can be taken back,** whichever way it was served. -/
theorem Shows.exists_undone (hs : h.Shows o) (hok : (h.allocate n).outcome = .ok (.ok b, h₁)) :
    ∃ h₂, (h₁.free (some b)).outcome = .ok (.ok (), h₂) ∧ h.Undone h₁ h₂ n b := by
  cases hn : blockSizeFor? n with
  | none => cases hok.symm.trans (allocate_of_allocateBlock (allocateBlock_overflow h hn) hs)
  | some needed =>
    cases hf : o.firstFit needed with
    | some c =>
      obtain ⟨k₁, k₂, hok₁, hok₂, hundone⟩ := hs.undone_fit hn hf
      cases hok.symm.trans hok₁
      exact ⟨k₂, hok₂, hundone⟩
    | none =>
      by_cases hg : h.provider.Grants (max needed h.config.chunk)
      · obtain ⟨k₁, k₂, c, hok₁, hok₂, hundone⟩ := hs.undone_grow hn hf hg
        cases hok.symm.trans hok₁
        exact ⟨k₂, hok₂, hundone⟩
      · cases hok.symm.trans
          (allocate_of_allocateBlock (allocateBlock_refused hs hn hf hg) hs.afterRefusal)

end Heap

namespace Session

variable {p : Provider} {config : Config} {s₀ : Session}

/-- **To allocate and then to free changes nothing about the blocks,** after any calls, but for the
memory that the heap grew by. -/
theorem run_free_undoes_allocate (hp : p.Valid) (hok : (start p config).outcome = .ok (.ok s₀))
    (calls : List Call) :
    ∃ answers s, (s₀.run calls).outcome = .ok (answers, s) ∧
      ∀ n b h₁, (s.heap.allocate n).outcome = .ok (.ok b, h₁) →
        ∃ h₂, (h₁.free (some b)).outcome = .ok (.ok (), h₂) ∧ s.heap.Undone h₁ h₂ n b := by
  obtain ⟨answers, s, o, hrun, hs⟩ := exists_run (start_shows hp hok) calls
  exact ⟨answers, s, hrun, fun n b h₁ hallocate => hs.heap.exists_undone hallocate⟩

/-- The first block of a new heap serves a request of 16 bytes, for instance, and is given back. -/
theorem run_free_undoes_allocate_page :
    ∃ s₀, (start (.buffer 4096) .default).outcome = .ok (.ok s₀) ∧
    ∃ h₁ h₂, (s₀.heap.allocate 16).outcome = .ok (.ok s₀.heap.firstBlock, h₁) ∧
      (h₁.free (some s₀.heap.firstBlock)).outcome = .ok (.ok (), h₂) ∧
      s₀.heap.Undone h₁ h₂ 16 s₀.heap.firstBlock := by
  obtain ⟨hp, s₀, hok⟩ := exists_start_page
  obtain ⟨h₁, hallocate, -⟩ :=
    (start_shows hp hok).heap.allocate_first (List.mem_cons_self ..) rfl
      (show leastSpan 16 ≤ 32 by decide)
  obtain ⟨answers, s, hrun, hundoes⟩ := run_free_undoes_allocate hp hok []
  cases hrun
  obtain ⟨h₂, hfree, hundone⟩ := hundoes 16 _ h₁ hallocate
  exact ⟨s₀, hok, h₁, h₂, hallocate, hfree, hundone⟩

end Session

end BoundaryTag
