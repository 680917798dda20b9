import BoundaryTag.Proofs.Attempts
import BoundaryTag.Proofs.Walking

/-!
# What is freed is reused

A block that is freed goes to the front of the free list, together with its free neighbours, so it
is the first to be looked at and serves any request that it served before. What is left of it goes
to the front as well, and lies beside it; so when it is freed again, both the blocks and the list
are what they were (`release_take`). A caller who allocates and frees in turn therefore gets the
same block each time, and the heap does not grow.

> `freedBlock_bounds`: where the block lies that takes in the freed one.
>
> `Shows.exists_cycle`, `cycles_reuse`: one cycle, and any number of them.
>
> `run_reuses_freed`: so it is with every live handle, after any calls.
-/

namespace BoundaryTag

open BlockView (block tag Covers)
open Heap (Served Freed)

/-! ## The block that takes in the freed one -/

section

variable {start stop off size : Nat} {front back : List BlockView} {v : BlockView}

/-- **The free block covers the freed one.** It begins before it exactly if what lies before is
free. -/
theorem freedBlock_bounds (h : Tiling start (front ++ v :: back) stop) :
    (freedBlock front v.offset v.size back).offset ≤ v.offset ∧
      v.offset + v.size ≤ (freedBlock front v.offset v.size back).offset +
        (freedBlock front v.offset v.size back).size ∧
      ((freedBlock front v.offset v.size back).offset = v.offset ↔
        ∀ u ∈ front.getLast?, u.allocated = true) := by
  have hfront := (tiling_mid.mp h).1
  unfold freedBlock mergedBlock
  by_cases hlast : ∀ u ∈ front.getLast?, u.allocated = true
  · rw [cutLast_of_allocated hlast]
    dsimp only [Option.elim_none]
    exact ⟨Nat.le_refl _, by omega, iff_of_true rfl hlast⟩
  · -- the free block that is cut off ends where the freed one begins, and is not empty
    obtain ⟨front, p, rfl⟩ : ∃ rest p, front = rest ++ [p] := by
      rcases List.eq_nil_or_concat front with rfl | ⟨rest, p, rfl⟩
      · exact absurd nofun hlast
      · exact ⟨rest, p, List.concat_eq_append⟩
    have hp : p.allocated = false := by simpa using hlast
    have hcut : (cutLast (front ++ [p])).2 = some p := by simp [cutLast, hp]
    obtain ⟨-, hps, -, hend⟩ := tiling_mid.mp hfront
    have hend : p.offset + p.size = v.offset := hend
    rw [hcut]
    dsimp only [Option.elim_some]
    exact ⟨by omega, by omega, iff_of_false (by omega) hlast⟩

/-- Between blocks in use nothing is merged. -/
theorem freedBlock_alone (hfront : ∀ u ∈ front.getLast?, u.allocated = true)
    (hback : ∀ u ∈ back.head?, u.allocated = true) :
    freedBlock front off size back = ⟨off, size, false⟩ := by
  rw [freedBlock, cutLast_of_allocated hfront, cutFirst_of_allocated hback]
  simp [mergedBlock]

theorem freedBlocks_alone (hfront : ∀ u ∈ front.getLast?, u.allocated = true)
    (hback : ∀ u ∈ back.head?, u.allocated = true) :
    freedBlocks front off size back = front ++ ⟨off, size, false⟩ :: back := by
  rw [freedBlocks, freedBlock_alone hfront hback, cutLast_of_allocated hfront,
    cutFirst_of_allocated hback]

theorem freedList_alone (free : List Block) (hfront : ∀ u ∈ front.getLast?, u.allocated = true)
    (hback : ∀ u ∈ back.head?, u.allocated = true) :
    freedList front off size back free = ⟨off⟩ :: free := by
  rw [freedList, freedBlock_alone hfront hback, cutLast_of_allocated hfront,
    cutFirst_of_allocated hback]
  rfl

/-- **Occupying a free stretch and freeing it again changes nothing,** but that the stretch goes to
the front of the free list. -/
theorem exists_freed_occupied {needed total : Nat} (off : Nat) (free : List Block)
    (hfront : ∀ u ∈ front.getLast?, u.allocated = true)
    (hback : ∀ u ∈ back.head?, u.allocated = true) (hle : needed ≤ total) :
    ∃ behind, occupiedBlocks front off needed total back =
        front ++ ⟨off, spanned needed total, true⟩ :: behind ∧
      freedBlocks front off (spanned needed total) behind =
        front ++ ⟨off, total, false⟩ :: back ∧
      freedList front off (spanned needed total) behind
        (occupiedList front off needed total back free) = ⟨off⟩ :: free := by
  unfold occupiedBlocks occupiedList spanned
  by_cases hrest : 32 ≤ total - needed
  · -- what is left over lies behind, and is taken in again
    let left : BlockView := ⟨off + needed, total - needed, false⟩
    have hnew : ∀ u ∈ (front ++ [(⟨off, needed, true⟩ : BlockView)]).getLast?,
        u.allocated = true := by simp
    have hsum : 0 + needed + (total - needed) = total := by omega
    simp only [if_pos hrest]
    refine ⟨left :: back, ?_, ?_, ?_⟩
    · rw [freedBlocks_alone hnew hback, List.append_assoc]
      rfl
    · rw [freedBlocks, freedBlock, cutLast_of_allocated hfront]
      show front ++ ⟨off, 0 + needed + (total - needed), false⟩ :: back = _
      rw [hsum]
    · rw [freedList_alone free hnew hback, freedList, freedBlock, cutLast_of_allocated hfront]
      show ⟨off⟩ :: ((⟨off + needed⟩ : Block) :: free).diff [⟨off + needed⟩] = _
      rw [List.diff_cons, List.erase_cons_head, List.diff_nil]
  · simp only [if_neg hrest]
    exact ⟨back, rfl, freedBlocks_alone hfront hback, freedList_alone free hfront hback⟩

end

namespace Outline

variable {o : Outline} {start stop start' stop' needed : Nat} {v : BlockView}

/-- Next to a free block lie blocks in use. -/
theorem neighbours_allocated (h : Tiling start o.blocks stop) (hm : NoFreePair o.blocks)
    (hv : v ∈ o.blocks) (ha : v.allocated = false) :
    (∀ u ∈ (o.before v.block).getLast?, u.allocated = true) ∧
      ∀ u ∈ (o.behind v.block).head?, u.allocated = true := by
  rw [NoFreePair, blocks_eq h hv, List.isChain_append] at hm
  obtain ⟨-, hback, hjoin⟩ := hm
  constructor
  · intro u hu
    exact (hjoin u hu v rfl).resolve_right (by simp [ha])
  · intro u hu
    exact (hback.rel_head? hu).resolve_left (by simp [ha])

/-- **Taking a free block and giving it back changes nothing,** but that the block goes to the front
of the free list. -/
theorem release_take (h : Tiling start o.blocks stop) (hm : NoFreePair o.blocks)
    (hv : v ∈ o.blocks) (ha : v.allocated = false) (hle : needed ≤ v.size)
    (h' : Tiling start' (o.take v.block needed).blocks stop') :
    (o.take v.block needed).release v.block = ⟨o.blocks, v.block :: o.free.erase v.block⟩ := by
  obtain ⟨hfront, hback⟩ := neighbours_allocated h hm hv ha
  obtain ⟨behind, hoccupied, hblocks, hlist⟩ :=
    exists_freed_occupied v.offset (o.free.erase v.block) hfront hback hle
  have htaken : (o.take v.block needed).blocks =
      o.before v.block ++ ⟨v.offset, spanned needed v.size, true⟩ :: behind := by
    rw [← hoccupied, ← sizeOf_eq h hv]
    rfl
  have htakenList : (o.take v.block needed).free = occupiedList (o.before v.block) v.offset needed
      v.size (o.behind v.block) (o.free.erase v.block) := by
    rw [take, sizeOf_eq h hv]
    rfl
  obtain ⟨hbefore, hbehind⟩ := before_behind_eq h' htaken
  have hsize := sizeOf_eq h' (htaken ▸ List.mem_append_right _ (List.mem_cons_self ..))
  have hview : (⟨v.offset, v.size, false⟩ : BlockView) = v := by rw [← ha]
  have hreleased : ∀ b, b = (⟨v.offset, spanned needed v.size, true⟩ : BlockView).block →
      (o.take v.block needed).release b = ⟨o.blocks, v.block :: o.free.erase v.block⟩ := by
    intro b hb
    subst hb
    rw [release, hbefore, hbehind, hsize, htakenList, blocks_eq h hv, ← hview]
    exact congrArg₂ Outline.mk hblocks hlist
  exact hreleased v.block rfl

end Outline

/-! ## One heap -/

/-- A request takes no more than a block that has room for it. -/
theorem leastSpan_le {n size : Nat} (hn : n ≤ size - 16) (hs : 32 ≤ size) (hs8 : size % 8 = 0) :
    leastSpan n ≤ size := by
  simp only [leastSpan, overhead, alignment, minBlockSize]
  omega

namespace Heap

variable {h h' h'' : Heap} {o : Outline} {n : Nat} {v : BlockView} {rest : List Block}

/-- The provider was not asked for memory, and the heap has not grown. -/
structure SameExtent (h h' : Heap) : Prop where
  requests_eq : h'.provider.requests = h.provider.requests
  size_eq : h'.size = h.size
  extensions_eq : h'.extensions = h.extensions

theorem SameExtent.trans (h₁ : h.SameExtent h') (h₂ : h'.SameExtent h'') : h.SameExtent h'' :=
  ⟨h₂.requests_eq.trans h₁.requests_eq, h₂.size_eq.trans h₁.size_eq,
    h₂.extensions_eq.trans h₁.extensions_eq⟩

theorem Continues.sameExtent (hc : h.Continues h' 0 0) (hsize : h'.size = h.size) :
    h.SameExtent h' :=
  ⟨by rw [hc.provider]; rfl, hsize, hc.extensions⟩

/-- **The first free block serves every request that it has room for.** -/
theorem Shows.allocate_first (hs : h.Shows o) (hv : v ∈ o.blocks) (hfree : o.free = v.block :: rest)
    (hle : leastSpan n ≤ v.size) :
    ∃ h', (h.allocate n).outcome = .ok (.ok v.block, h') ∧ h.SameExtent h' ∧
      h'.Shows (o.take v.block (leastSpan n)) := by
  have htiling := hs.sound.laid.tiling
  have hlt : leastSpan n < Word.limit := by
    have hend := (htiling.bounds hv).2.1
    have hsmall := hs.size_lt
    have hregion : h.arena.region.size = h.size := rfl
    omega
  have hfit : o.firstFit (leastSpan n) = some v.block := by
    rw [Outline.firstFit, hfree]
    exact List.find?_cons_of_pos (decide_eq_true ((Outline.sizeOf_eq htiling hv).symm ▸ hle))
  obtain ⟨a, hok, hsize, hserved⟩ :=
    allocateBlock_fit hs (blockSizeFor?_eq_some_iff.mpr ⟨hlt, rfl⟩) hfit
  exact ⟨h.withArena a, allocate_of_allocateBlock hok hserved.shows,
    (continues_withArena h a).sameExtent hsize, hserved.shows⟩

/-- A block that a free one was taken for can be freed again. Then the blocks are what they were,
and the free one is the first on the list. -/
theorem Shows.free_taken {o₁ : Outline} {start stop needed : Nat}
    (hs : h.Shows (o₁.take v.block needed)) (htiling : Tiling start o₁.blocks stop)
    (hm : NoFreePair o₁.blocks) (hv : v ∈ o₁.blocks) (ha : v.allocated = false)
    (hle : needed ≤ v.size) :
    ∃ a, (h.free (some v.block)).outcome = .ok (.ok (), h.withArena a) ∧
      (h.withArena a).size = h.size ∧
      (h.withArena a).Shows ⟨o₁.blocks, v.block :: o₁.free.erase v.block⟩ := by
  have htaken : (⟨v.offset, spanned needed v.size, true⟩ : BlockView) ∈
      (o₁.take v.block needed).blocks := by
    have hheld := o₁.held_take v.block needed
    rw [Outline.sizeOf_eq htiling hv] at hheld
    exact (mem_held.mp (hheld.mem_iff.mpr (List.mem_cons_self ..))).1
  obtain ⟨a, hok, hfreed⟩ := exists_free hs htaken rfl
  refine ⟨a, hok, hfreed.size_eq, ?_⟩
  rw [← Outline.release_take htiling hm hv ha hle hs.sound.laid.tiling]
  exact hfreed.shows

/-- **One cycle:** what the first free block serves goes back to where it was. -/
theorem Shows.exists_cycle (hs : h.Shows o) (hv : v ∈ o.blocks) (ha : v.allocated = false)
    (hfree : o.free = v.block :: rest) (hle : leastSpan n ≤ v.size) :
    ∃ h₁ h₂, (h.allocate n).outcome = .ok (.ok v.block, h₁) ∧ h.SameExtent h₁ ∧
      (h₁.free (some v.block)).outcome = .ok (.ok (), h₂) ∧ h.SameExtent h₂ ∧ h₂.Shows o := by
  obtain ⟨h₁, hok, hsame, hs₁⟩ := hs.allocate_first hv hfree hle
  obtain ⟨a, hok', hsize, hs₂⟩ :=
    hs₁.free_taken hs.sound.laid.tiling hs.sound.merged hv ha hle
  refine ⟨h₁, h₁.withArena a, hok, hsame, hok',
    hsame.trans ((continues_withArena h₁ a).sameExtent hsize), ?_⟩
  rw [hfree, List.erase_cons_head, ← hfree] at hs₂
  exact hs₂

end Heap

/-! ## After any calls -/

namespace Session

variable {s s₀ : Session} {o : Outline} {n place : Nat} {v : BlockView} {rest : List Block}
  {p : Provider} {config : Config}

/-- To allocate and to free, so many times. A caller who holds as many leases as `place`
says frees what was allocated last. -/
def cycles (place request : Nat) : Nat → List Call
  | 0 => []
  | count + 1 => .allocate request :: .free place :: cycles place request count

/-- The answers of a heap that hands out the same block every time. -/
def cycleAnswers (b : Handle) : Nat → List Answer
  | 0 => []
  | count + 1 => .ok (some b) :: .ok none :: cycleAnswers b count

/-- What comes of the cycles: the same handle each time, and in the end the same leases, the same
blocks, the same free list, and a heap that has not grown. -/
def CyclesReuse (s : Session) (request : Nat) (b : Handle) (count : Nat) : Prop :=
  ∃ s', (s.run (cycles s.leases.length request count)).outcome = .ok (cycleAnswers b count, s') ∧
    s'.leases = s.leases ∧ s'.heap.blocks = s.heap.blocks ∧
    (∀ limit, s'.heap.freeBlocks limit = s.heap.freeBlocks limit) ∧ s.heap.SameExtent s'.heap

theorem step_allocate {h' : Heap} {b : Handle}
    (hok : (s.heap.allocate n).outcome = .ok (.ok b, h')) :
    (s.step (.allocate n)).outcome = .ok (.ok (some b), ⟨h', s.leases ++ [⟨b, n⟩]⟩) :=
  step_of_allocate hok

/-- The last lease is the one handed out last. -/
theorem handle?_append (h' : Heap) (b : Handle) :
    (⟨h', s.leases ++ [⟨b, n⟩]⟩ : Session).handle? s.leases.length = some b := by
  simp [handle?, handles]

/-- One cycle of a session. -/
theorem exists_cycle_step (hs : s.heap.Shows o) (hv : v ∈ o.blocks) (ha : v.allocated = false)
    (hfree : o.free = v.block :: rest) (hle : leastSpan n ≤ v.size) :
    ∃ s₁ s₂, (s.step (.allocate n)).outcome = .ok (.ok (some v.block), s₁) ∧
      (s₁.step (.free s.leases.length)).outcome = .ok (.ok none, s₂) ∧ s₂.leases = s.leases ∧
      s.heap.SameExtent s₂.heap ∧ s₂.heap.Shows o := by
  obtain ⟨h₁, h₂, hok, -, hok', hsame, hs₂⟩ := hs.exists_cycle hv ha hfree hle
  refine ⟨_, ⟨h₂, s.leases⟩, step_allocate hok, ?_, rfl, hsame, hs₂⟩
  rw [step_free (handle?_append h₁ v.block) hok',
    List.eraseIdx_append_of_length_le (Nat.le_refl _)]
  simp

/-- **Any number of cycles** comes to the same. -/
theorem cycles_reuse (hs : s.heap.Shows o) (hv : v ∈ o.blocks) (ha : v.allocated = false)
    (hfree : o.free = v.block :: rest) (hle : leastSpan n ≤ v.size) (count : Nat) :
    s.CyclesReuse n v.block count := by
  induction count generalizing s with
  | zero => exact ⟨s, rfl, rfl, rfl, fun _ => rfl, rfl, rfl, rfl⟩
  | succ count ih =>
    obtain ⟨s₁, s₂, hallocate, hrelease, hleases, hsame, hs₂⟩ :=
      exists_cycle_step hs hv ha hfree hle
    obtain ⟨s', hrun, hleases', hblocks, hlist, hsame'⟩ := ih hs₂
    rw [hleases] at hrun
    refine ⟨s', run_cons_ok hallocate (run_cons_ok hrelease hrun), hleases'.trans hleases, ?_,
      fun limit => ?_, hsame.trans hsame'⟩
    · rw [hblocks, hs₂.blocks_shown, hs.blocks_shown]
    · rw [hlist, hs₂.freeBlocks_shown, hs.freeBlocks_shown]

/-- What it comes to that the block `v` was freed, which lay behind those in `front`: the free block
`w` has taken it in, and serves again what `v` had room for. -/
structure Reuses (s s₁ : Session) (front : List BlockView) (v w : BlockView) (request : Nat) :
    Prop where
  sameExtent : s.heap.SameExtent s₁.heap
  free : ∃ blocks, s₁.heap.blocks = .ok blocks ∧ w ∈ blocks ∧ w.allocated = false
  covers : ∀ j, v.Covers j → w.Covers j
  offset_le : w.offset ≤ v.offset
  block_eq_iff : w.block = v.block ↔ ∀ u ∈ front.getLast?, u.allocated = true
  allocate : ∃ h', (s₁.heap.allocate request).outcome = .ok (.ok w.block, h') ∧
    s₁.heap.SameExtent h'
  cycles_reuse : ∀ count, s₁.CyclesReuse request w.block count

/-- **A block that is freed serves again** what it had room for. -/
theorem exists_reuses (hs : s.heap.Shows o) (hp : s.handle? place = some v.block)
    (hv : v ∈ o.blocks) (ha : v.allocated = true) :
    ∃ s₁ w, (s.step (.free place)).outcome = .ok (.ok none, s₁) ∧
      ∀ n, leastSpan n ≤ v.size → s.Reuses s₁ (o.before v.block) v w n := by
  obtain ⟨a, hok, hfreed⟩ := Heap.exists_free hs hv ha
  have htiling := hs.sound.laid.tiling
  have hsize := Outline.sizeOf_eq htiling hv
  obtain ⟨hlow, hhigh, hsame⟩ := freedBlock_bounds (Outline.blocks_eq htiling hv ▸ htiling)
  generalize hmerged : freedBlock (o.before v.block) v.offset v.size (o.behind v.block) = w
    at hlow hhigh hsame
  have hw : w ∈ (o.release v.block).blocks := by
    rw [Outline.release, hsize, ← hmerged]
    exact List.mem_append_right _ (List.mem_cons_self ..)
  have hfree : w.allocated = false := hmerged ▸ rfl
  obtain ⟨rest, hfirst⟩ : ∃ rest, (o.release v.block).free = w.block :: rest := by
    rw [Outline.release, hsize, ← hmerged]
    exact ⟨_, rfl⟩
  refine ⟨_, w, step_free hp hok, fun n hle => ?_⟩
  have hroom : leastSpan n ≤ w.size := by omega
  obtain ⟨h', hallocate, hsame', -⟩ := hfreed.shows.allocate_first hw hfirst hroom
  refine ⟨hfreed.continues.sameExtent hfreed.size_eq, ⟨_, hfreed.shows.blocks_shown, hw, hfree⟩, ?_,
    hlow, ?_, ⟨h', hallocate, hsame'⟩, cycles_reuse hfreed.shows hw hfree hfirst hroom⟩
  · intro j hj
    exact ⟨Nat.le_trans hlow hj.1, Nat.lt_of_lt_of_le hj.2 hhigh⟩
  · rw [← hsame]
    exact ⟨congrArg Block.offset, congrArg Block.mk⟩

/-- Free memory is found again: every live block can be freed, and what it had room for is then
served without more memory, once or as often as one likes. So is what was just allocated. -/
structure ReusesFreed (s : Session) : Prop where
  reuses : ∀ place b, s.handle? place = some b → ∃ front v back,
    s.heap.blocks = .ok (front ++ v :: back) ∧ v.block = b ∧
    (s.heap.usableSize b).outcome = .ok (.ok (v.size - 16)) ∧
    ∃ s₁ w, (s.step (.free place)).outcome = .ok (.ok none, s₁) ∧
      ∀ n, n ≤ v.size - 16 → s.Reuses s₁ front v w n
  cycles : ∀ n b s', (s.step (.allocate n)).outcome = .ok (.ok (some b), s') →
    ∃ s₁ c, (s'.step (.free s.leases.length)).outcome = .ok (.ok none, s₁) ∧
      s'.heap.SameExtent s₁.heap ∧ ∀ count, s₁.CyclesReuse n c count

theorem Shows.reusesFreed (hs : s.Shows o) : s.ReusesFreed where
  reuses place b hp := by
    obtain ⟨v, hv, ha, rfl⟩ := hs.exists_inUse (mem_handles_of_handle? hp)
    obtain ⟨-, -, hvs, hvs8⟩ := hs.heap.sound.laid.tiling.bounds hv
    obtain ⟨s₁, w, hok, hreuses⟩ := exists_reuses hs.heap hp hv ha
    refine ⟨_, v, o.behind v.block, ?_, rfl, Heap.usableSize_allocated hs.heap hv ha, s₁, w, hok,
      fun n hn => hreuses n (leastSpan_le hn hvs hvs8)⟩
    rw [hs.heap.blocks_shown]
    exact congrArg Except.ok (Outline.blocks_eq hs.heap.sound.laid.tiling hv)
  cycles n b s' hok := by
    obtain ⟨answer, h', hallocate, hend⟩ := Heap.exists_allocate hs.heap n
    cases answer with
    | error e => cases (step_of_allocate hallocate).symm.trans hok
    | ok c =>
      obtain ⟨needed, o', v, hn, rfl, hserved⟩ := hend
      cases (step_allocate hallocate).symm.trans hok
      obtain ⟨s₁, w, hfree, hreuses⟩ := exists_reuses (s := ⟨h', s.leases ++ [⟨v.block, n⟩]⟩)
        hserved.shows (handle?_append h' v.block) hserved.new_mem hserved.allocated
      have hle : leastSpan n ≤ v.size := (blockSizeFor?_eq_some_iff.mp hn).2 ▸ hserved.fits.1
      exact ⟨s₁, w.block, hfree, (hreuses n hle).sameExtent, (hreuses n hle).cycles_reuse⟩

/-- **Freeing and allocating again never grows the heap,** after any calls. -/
theorem run_reuses_freed (hp : p.Valid) (hok : (start p config).outcome = .ok (.ok s₀))
    (calls : List Call) :
    ∃ answers s, (s₀.run calls).outcome = .ok (answers, s) ∧ s.ReusesFreed := by
  obtain ⟨answers, s, o, hrun, hs⟩ := exists_run (start_shows hp hok) calls
  exact ⟨answers, s, hrun, hs.reusesFreed⟩

theorem run_reuses_freed_page : ∃ s₀, (start (.buffer 4096) .default).outcome = .ok (.ok s₀) ∧
    ∀ calls, ∃ answers s, (s₀.run calls).outcome = .ok (answers, s) ∧ s.ReusesFreed := by
  obtain ⟨hp, s₀, hok⟩ := exists_start_page
  exact ⟨s₀, hok, run_reuses_freed hp hok⟩

end Session

end BoundaryTag
