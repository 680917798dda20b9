import BoundaryTag.Proofs.Sessions

/-!
# Damaged heaps

Bytes, free list and reported bounds may be anything: what only looks at a heap still comes
to an end and does not fault. The check is one such function (`Heap.exists_check`), and so
is everything that begins with `resolve` (`Heap.usableSize_outcome`, `Heap.payload_outcome`).
The walk over the blocks is a third. It believes every header, and goes on as long as one
lies in the region:

> `exists_blocksFrom`: it ends, and what it lists is what the headers lead to, one block
> right behind the other.
>
> `run_damaged_answers`: so questions about a heap that was damaged after any run are answered.
-/

namespace BoundaryTag

open BlockView (block tag)

namespace Region

variable {r : Region} {start : Nat} {blocks : List BlockView}

/-- The way that the headers lead from `start` on: each one in the region stands for a block
of its size and mark, and the next one lies behind that block. The way ends where no header
fits in the region, or at one of size zero. -/
def HeaderChain (r : Region) : (start : Nat) → List BlockView → Prop
  | start, [] => r.size < start ∨ (Tag.ofWord (r.word (start - 8))).size = 0
  | start, v :: rest =>
    v.offset = start ∧ start ≤ r.size ∧ Tag.ofWord (r.word (start - 8)) = v.tag ∧ 0 < v.size ∧
      r.HeaderChain (start + v.size) rest

theorem HeaderChain.bounds (h : r.HeaderChain start blocks) {v : BlockView} (hv : v ∈ blocks) :
    start ≤ v.offset ∧ v.offset ≤ r.size := by
  induction blocks generalizing start with
  | nil => cases hv
  | cons w rest ih =>
    obtain ⟨rfl, hin, -, -, hrest⟩ := h
    rcases List.mem_cons.mp hv with rfl | hv
    · exact ⟨Nat.le_refl _, hin⟩
    · have := ih hrest hv
      omega

/-- Along the headers the offsets only grow. -/
theorem HeaderChain.pairwise (h : r.HeaderChain start blocks) :
    blocks.Pairwise fun u v => u.offset < v.offset := by
  induction blocks generalizing start with
  | nil => exact .nil
  | cons v rest ih =>
    obtain ⟨rfl, -, -, hpos, hrest⟩ := h
    refine .cons (fun w hw => ?_) (ih hrest)
    have := (hrest.bounds hw).1
    omega

/-- **The walk over the blocks ends,** whatever the bytes are, and follows the headers. -/
theorem exists_blocksFrom (hr : r.size < Word.limit) {b : Block} (hb : 8 ≤ b.offset) :
    ∃ blocks, r.blocksFrom b = .ok blocks ∧ r.HeaderChain b.offset blocks := by
  unfold blocksFrom
  split
  · next hin =>
    have htag : b.tag r = .ok (Tag.ofWord (r.word (b.offset - 8))) :=
      Block.tag_ok_iff.mpr ⟨hb, hin.2, by omega, rfl⟩
    rw [bind_of_ok (Block.view_eq htag)]
    generalize hheader : Tag.ofWord (r.word (b.offset - 8)) = header
    split
    · next hempty => exact ⟨[], rfl, .inr (hheader ▸ hempty)⟩
    · next hmoves =>
      have hpos : 0 < header.size := Nat.pos_of_ne_zero hmoves
      split
      · -- the measure of the induction is what is left of the region
        obtain ⟨rest, hrest, hchain⟩ :=
          exists_blocksFrom hr (b := ⟨b.offset + header.size⟩) (Nat.le_add_right_of_le hb)
        exact ⟨_, bind_ok_iff.mpr ⟨rest, hrest, rfl⟩, rfl, hin.2, hheader, hpos, hchain⟩
      · next hlong =>
        refine ⟨_, rfl, rfl, hin.2, hheader, hpos, .inl ?_⟩
        dsimp only at hlong ⊢
        omega
  · next hout =>
    refine ⟨[], rfl, .inl ?_⟩
    have : wordSize ≤ b.offset := hb
    omega
termination_by r.size + 1 - b.offset

end Region

namespace Heap

variable {h : Heap}

/-- The heap after its bytes and its free list were overwritten, over a provider that
reports other bounds. -/
def damaged (h : Heap) (a : Arena) (low high : Nat) : Heap :=
  { h.withArena a with
    provider := { (h.withArena a).provider with claimedLow := some low, claimedHigh := some high } }

/-- Whatever is asked about the heap, there is an answer. -/
structure AnswersQueries (h : Heap) : Prop where
  check : ∃ answer, h.check = .ok answer
  /-- The blocks that are listed follow the headers to their end and lie one behind the
  other, none beyond the end of the region. -/
  blocks : ∃ blocks, h.blocks = .ok blocks ∧ h.region.HeaderChain h.firstBlock.offset blocks ∧
    blocks.Pairwise (fun u v => u.offset < v.offset) ∧ ∀ v ∈ blocks, v.offset ≤ h.size
  describe : ∃ text, h.describe = .ok text
  usableSize : ∀ b, ∃ answer, (h.usableSize b).outcome = .ok answer
  payload : ∀ b, ∃ answer, (h.payload b).outcome = .ok answer

/-- **What only looks at a heap does not fault,** if the prologue and the reported end lie
in the region. -/
theorem answersQueries (hfirst : 24 ≤ h.firstBlock.offset) (hfits : h.firstBlock.offset ≤ h.size)
    (hsmall : h.size < Word.limit) (hhigh : h.provider.high < h.size) : h.AnswersQueries := by
  have hprologue : h.firstBlock.offset = h.prologue.offset + 16 := rfl
  obtain ⟨blocks, hblocks, hchain⟩ :=
    Region.exists_blocksFrom hsmall (show 8 ≤ h.firstBlock.offset by omega)
  refine ⟨exists_check (by omega) (by omega) hsmall hhigh,
    ⟨blocks, hblocks, hchain, hchain.pairwise, fun v hv => (hchain.bounds hv).2⟩, ?_,
    fun b => ⟨_, usableSize_outcome (by omega) hsmall b⟩,
    fun b => ⟨_, payload_outcome (by omega) hsmall b⟩⟩
  unfold describe
  rw [bind_of_ok (show h.blocks = .ok blocks from hblocks)]
  exact ⟨_, rfl⟩

end Heap

namespace Session

variable {p : Provider} {config : Config} {s₀ : Session}

/-- **Diagnostics survive any damage:** after a session, all bytes of the region, the free
list and the reported bounds may be replaced, as long as the reported end is not beyond the
true one. -/
theorem run_damaged_answers (hp : p.Valid) (hok : (start p config).outcome = .ok (.ok s₀))
    (calls : List Call) :
    ∃ answers s, (s₀.run calls).outcome = .ok (answers, s) ∧
      ∀ (a : Arena) (low high : Nat), a.region.size = s.heap.size → high < s.heap.size →
        (s.heap.damaged a low high).AnswersQueries := by
  obtain ⟨answers, s, o, hrun, hs⟩ := exists_run (start_shows hp hok) calls
  refine ⟨answers, s, hrun, fun a low high hsize hhigh => ?_⟩
  have hroom := hs.heap.sound.laid.fenced.room
  have hfits : s.heap.firstBlock.offset ≤ s.heap.size := hs.heap.sound.laid.tiling.le
  have hsmall := hs.heap.size_lt
  have hsize' : (s.heap.damaged a low high).size = s.heap.size := hsize
  have hfirst : (s.heap.damaged a low high).firstBlock = s.heap.firstBlock := rfl
  have hend : (s.heap.damaged a low high).provider.high = high := rfl
  exact Heap.answersQueries (by rw [hfirst]; omega) (by rw [hfirst, hsize']; omega) (by omega)
    (by omega)

/-- Even if all bytes are 255, and the list begins at the last offset that there is. -/
theorem run_damaged_answers_page : ∃ s₀, (start (.buffer 4096) .default).outcome = .ok (.ok s₀) ∧
    ∀ calls, ∃ answers s, (s₀.run calls).outcome = .ok (answers, s) ∧
      (s.heap.damaged ⟨s.heap.region.put 0 (fun _ => 255) s.heap.size, ⟨some ⟨Word.limit - 1⟩, 7⟩⟩
        (Word.limit - 1) 0).AnswersQueries := by
  obtain ⟨hp, s₀, hok⟩ := exists_start_page
  refine ⟨s₀, hok, fun calls => ?_⟩
  obtain ⟨answers, s, hrun, hanswers⟩ := run_damaged_answers hp hok calls
  obtain ⟨answers', s', o, hrun', hs⟩ := exists_run (start_shows hp hok) calls
  cases hrun.symm.trans hrun'
  have hroom := hs.heap.placed.room
  have hfits := hs.heap.placed.fits
  exact ⟨answers, s, hrun, hanswers _ _ _ (Region.size_put ..) (by omega)⟩

end Session

end BoundaryTag
