import BoundaryTag.Proofs.Reusing

/-!
# Reallocating again changes nothing

Whatever gives a block its size leaves less of a surplus than makes a block, so the same request
finds nothing to split off and nothing to add: it answers with the handle that it was given, and the
heap is the very same. A request for all that a block can hold is such a request too, since it
rounds up to the size that the block has.

> `Shows.reallocate_eq_self`: a request that the block fits already.
>
> `run_idempotent`: what is reallocated, or was just allocated, fits its request, after any calls.
-/

namespace BoundaryTag

open BlockView (block)

/-- The usable bytes of a block take the whole of it. -/
theorem leastSpan_usable {size : Nat} (h32 : 32 ≤ size) (h8 : size % 8 = 0) :
    leastSpan (size - 16) = size := by
  simp only [leastSpan, overhead, alignment, minBlockSize]
  omega

namespace Heap

variable {h h' : Heap} {o : Outline} {n needed : Nat} {v : BlockView} {b c : Handle}

/-- **A block that fits the request stays as it is,** and so does all else. -/
theorem Shows.reallocate_eq_self (hs : h.Shows o) (hv : v ∈ o.blocks) (ha : v.allocated = true)
    (hzero : n ≠ 0) (hn : blockSizeFor? n = some needed) (hlong : needed ≤ v.size)
    (htight : v.size < needed + 32) :
    (h.reallocate (some v.block) n).outcome = .ok (.ok (some v.block), h) := by
  have hshrink : (h.shrink v.block v.size needed).outcome = .ok h := by
    unfold shrink
    rw [if_neg (show ¬ minBlockSize ≤ v.size - needed by simp only [minBlockSize]; omega)]
    rfl
  have hresize : (h.resize v.block needed n).outcome = .ok (.ok v.block, h) := by
    rw [hs.resize_outcome hv, if_neg (Nat.not_lt.mpr hlong), bind_of_ok hshrink]
  exact reallocate_of_resize hs hv ha hzero hn hresize hs

/-- What was just reallocated fits its request. -/
theorem Shows.reallocate_again (hs : h.Shows o) (hv : v ∈ o.blocks) (ha : v.allocated = true)
    (hok : (h.reallocate (some v.block) n).outcome = .ok (.ok (some c), h')) :
    (h'.reallocate (some c) n).outcome = .ok (.ok (some c), h') := by
  obtain ⟨answer, k, hok', hend⟩ := exists_reallocate hs hv ha n
  cases hok.symm.trans hok'
  obtain ⟨hzero, needed, o', w, hn, rfl, hresized⟩ := hend
  obtain ⟨others, -, hheld⟩ := hresized.inUse
  obtain ⟨hw, hwa⟩ := mem_held.mp (hheld.mem_iff.mpr (List.mem_cons_self ..))
  exact hresized.shows.reallocate_eq_self hw hwa hzero hn hresized.fits.1 hresized.fits.2

/-- So does what was just allocated. -/
theorem Shows.reallocate_allocated (hs : h.Shows o) (hzero : n ≠ 0)
    (hok : (h.allocate n).outcome = .ok (.ok b, h')) :
    (h'.reallocate (some b) n).outcome = .ok (.ok (some b), h') := by
  obtain ⟨answer, k, hok', hend⟩ := exists_allocate hs n
  cases hok.symm.trans hok'
  obtain ⟨needed, o', w, hn, rfl, hserved⟩ := hend
  obtain ⟨hw, hwa⟩ := mem_held.mp (hserved.inUse.mem_iff.mpr (List.mem_cons_self ..))
  exact hserved.shows.reallocate_eq_self hw hwa hzero hn hserved.fits.1 hserved.fits.2

/-- And a block fits a request for all that it can hold. -/
theorem Shows.reallocate_usable (hs : h.Shows o) (hv : v ∈ o.blocks) (ha : v.allocated = true) :
    (h.reallocate (some v.block) (v.size - 16)).outcome = .ok (.ok (some v.block), h) := by
  obtain ⟨-, hend, h32, h8⟩ := hs.sound.laid.tiling.bounds hv
  have hsmall := hs.size_lt
  have hregion : h.arena.region.size = h.size := rfl
  have hspan := leastSpan_usable h32 h8
  have hn : blockSizeFor? (v.size - 16) = some v.size :=
    blockSizeFor?_eq_some_iff.mpr ⟨by omega, hspan⟩
  exact hs.reallocate_eq_self hv ha (by omega) hn (Nat.le_refl _) (by omega)

end Heap

namespace Session

variable {p : Provider} {config : Config} {s s₀ : Session} {o : Outline}

/-- To reallocate a second time is to do nothing: the answer is the handle, and no byte, link or
number of the heap is another one. -/
structure Idempotent (s : Session) : Prop where
  reallocated : ∀ b ∈ s.handles, ∀ n, n ≠ 0 → ∀ c h',
    (s.heap.reallocate (some b) n).outcome = .ok (.ok (some c), h') →
      (h'.reallocate (some c) n).outcome = .ok (.ok (some c), h')
  usable : ∀ b ∈ s.handles, ∃ n, (s.heap.usableSize b).outcome = .ok (.ok n) ∧
    (s.heap.reallocate (some b) n).outcome = .ok (.ok (some b), s.heap)
  allocated : ∀ n, n ≠ 0 → ∀ b h', (s.heap.allocate n).outcome = .ok (.ok b, h') →
    (h'.reallocate (some b) n).outcome = .ok (.ok (some b), h')

theorem Shows.idempotent (hs : s.Shows o) : s.Idempotent where
  reallocated b hb n _ c h' hok := by
    obtain ⟨v, hv, ha, rfl⟩ := hs.exists_inUse hb
    exact hs.heap.reallocate_again hv ha hok
  usable b hb := by
    obtain ⟨v, hv, ha, rfl⟩ := hs.exists_inUse hb
    exact ⟨_, Heap.usableSize_allocated hs.heap hv ha, hs.heap.reallocate_usable hv ha⟩
  allocated n hzero b h' hok := hs.heap.reallocate_allocated hzero hok

/-- **Reallocating is idempotent,** after any calls. -/
theorem run_idempotent (hp : p.Valid) (hok : (start p config).outcome = .ok (.ok s₀))
    (calls : List Call) :
    ∃ answers s, (s₀.run calls).outcome = .ok (answers, s) ∧ s.Idempotent := by
  obtain ⟨answers, s, o, hrun, hs⟩ := exists_run (start_shows hp hok) calls
  exact ⟨answers, s, hrun, hs.idempotent⟩

/-- A request of 10 bytes gets the first block of a new heap, for instance, and keeps it. -/
theorem run_idempotent_page : ∃ s₀, (start (.buffer 4096) .default).outcome = .ok (.ok s₀) ∧
    ∃ h', (s₀.heap.allocate 10).outcome = .ok (.ok s₀.heap.firstBlock, h') ∧
      (h'.reallocate (some s₀.heap.firstBlock) 10).outcome =
        .ok (.ok (some s₀.heap.firstBlock), h') := by
  obtain ⟨hp, s₀, hok⟩ := exists_start_page
  obtain ⟨h', hallocate, -⟩ :=
    (start_shows hp hok).heap.allocate_first (List.mem_cons_self ..) rfl
      (show leastSpan 10 ≤ 32 by decide)
  obtain ⟨answers, s, hrun, hidempotent⟩ := run_idempotent hp hok []
  cases hrun
  exact ⟨s₀, hok, h', hallocate, hidempotent.allocated 10 (by decide) _ h' hallocate⟩

end Session

end BoundaryTag
