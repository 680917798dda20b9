import BoundaryTag.Proofs.Allocator
import BoundaryTag.Proofs.Sessions
import BoundaryTag.Proofs.Walking

/-!
# Heaps refine the allocator on lists

The bytes of a heap can be decoded: the walk over the blocks and the walk along the free
list give an outline, and with it the state of an `Allocator`. Each operation of the heap
then does on the bytes what its counterpart does on the lists.

> `Realizes.allocate`, `Realizes.free`, `Realizes.reallocate`: one operation, of a heap
> that realizes a state of the allocator.
>
> `run_refines`: so it is with every operation after any calls.
-/

namespace BoundaryTag

open BlockView (block tag)

namespace Heap

variable {h h' : Heap} {o : Outline} {m : Allocator} {n needed : Nat} {v : BlockView}

/-- What the provider and the configuration say about getting more memory. -/
def terms (h : Heap) : Terms := ⟨h.config.chunk, fun bytes => decide (h.provider.Grants bytes)⟩

/-- What the bytes say about the blocks and the free list. No list is longer than the
region. -/
def decode (h : Heap) : Except Fault Allocator := do
  let blocks ← h.blocks
  let free ← h.freeBlocks h.size
  return ⟨⟨blocks, free.map block⟩, h.size, h.extensions⟩

/-- The heap shows the allocator's outline, and its numbers are the allocator's. -/
structure Realizes (h : Heap) (m : Allocator) : Prop where
  shows : h.Shows m.outline
  size_eq : h.size = m.size
  extensions_eq : h.extensions = m.extensions

/-- **The bytes of a heap say all about it.** -/
theorem Realizes.decode_eq (hr : h.Realizes m) : h.decode = .ok m := by
  have hlen := hr.shows.sound.laid.length_le hr.shows.sound.members
  have hregion : h.arena.region.size = h.size := rfl
  have hfree := hr.shows.freeBlocks_shown h.size
  rw [List.take_of_length_le (by rw [List.length_map]; omega)] at hfree
  unfold decode
  rw [bind_of_ok hr.shows.blocks_shown, bind_of_ok hfree, List.map_map, hr.size_eq,
    hr.extensions_eq]
  show Except.ok (⟨⟨m.outline.blocks, m.outline.free.map id⟩, m.size, m.extensions⟩ : Allocator) = _
  rw [List.map_id]

theorem Shows.realizes (hs : h.Shows o) : h.Realizes ⟨o, h.size, h.extensions⟩ := ⟨hs, rfl, rfl⟩

/-! ## One operation -/

/-- The computation answers as the allocator does, and its heap realizes what that leaves. -/
def Follows {α : Type} (x : Traced (α × Heap)) (y : α × Allocator) : Prop :=
  ∃ h', x.outcome = .ok (y.1, h') ∧ h'.Realizes y.2

/-- Allocating a block, with what a success comes to. -/
theorem Realizes.allocateBlock (hr : h.Realizes m) (n : Nat) :
    ∃ h', (h.allocateBlock n).outcome = .ok ((m.allocate h.terms n).1, h') ∧
      h'.Realizes (m.allocate h.terms n).2 ∧
      ∀ b, (m.allocate h.terms n).1 = .ok b → ∃ v, v.block = b ∧
        Served h h' m.outline (m.allocate h.terms n).2.outline (leastSpan n) v := by
  have hs := hr.shows
  by_cases hn : Word.limit ≤ leastSpan n
  · rw [Allocator.allocate_overflow hn]
    exact ⟨h, allocateBlock_overflow h (blockSizeFor?_eq_none_iff.mpr hn), hr, nofun⟩
  · have hn := Nat.lt_of_not_le hn
    have hsome : blockSizeFor? n = some (leastSpan n) := blockSizeFor?_eq_some_iff.mpr ⟨hn, rfl⟩
    -- first fit decides, and only if it fails the provider
    cases hf : m.outline.firstFit (leastSpan n) with
    | some b =>
      obtain ⟨a, hok, hsize, hserved⟩ := allocateBlock_fit hs hsome hf
      rw [Allocator.allocate_fit hn hf]
      refine ⟨h.withArena a, hok, ⟨hserved.shows, hsize.trans hr.size_eq, hr.extensions_eq⟩, ?_⟩
      rintro _ ⟨⟩
      exact ⟨⟨_, _, true⟩, rfl, hserved⟩
    | none =>
      by_cases hg : h.provider.Grants (max (leastSpan n) h.config.chunk)
      · obtain ⟨h', hok, hc, hsize, hserved⟩ := allocateBlock_grow hs hsome hf rfl hg
        rw [hr.size_eq] at hok hsize hserved
        rw [Allocator.allocate_grow hn hf (decide_eq_true hg)]
        refine ⟨h', hok, ⟨hserved.shows, hsize, ?_⟩, ?_⟩
        · rw [hc.extensions, hr.extensions_eq]
          rfl
        · rintro _ ⟨⟩
          exact ⟨⟨_, _, true⟩, rfl, hserved⟩
      · rw [Allocator.allocate_refused hn hf (decide_eq_false hg)]
        exact ⟨h.afterRefusal, allocateBlock_refused hs hsome hf hg,
          ⟨hs.afterRefusal, hr.size_eq, hr.extensions_eq⟩, nofun⟩

/-- **Allocating** does what it does on lists. -/
theorem Realizes.allocate (hr : h.Realizes m) (n : Nat) :
    Follows (h.allocate n) (m.allocate h.terms n) := by
  obtain ⟨h', hok, hr', -⟩ := hr.allocateBlock n
  exact ⟨h', allocate_of_allocateBlock hok hr'.shows, hr'⟩

/-- **Freeing** a block in use does. -/
theorem Realizes.free (hr : h.Realizes m) (hv : v ∈ m.outline.blocks) (ha : v.allocated = true) :
    Follows (h.free (some v.block)) (m.free (some v.block)) := by
  obtain ⟨a, hok, hfreed⟩ := exists_free hr.shows hv ha
  exact ⟨h.withArena a, hok, hfreed.shows, hfreed.size_eq.trans hr.size_eq, hr.extensions_eq⟩

theorem Realizes.relocate (hr : h.Realizes m) (hv : v ∈ m.outline.blocks)
    (ha : v.allocated = true) (n : Nat) :
    Follows (h.relocate v.block n) (m.relocate h.terms v.block n) := by
  obtain ⟨h₁, hok, hr₁, hserved⟩ := hr.allocateBlock n
  unfold Allocator.relocate
  generalize m.allocate h.terms n = allocated at hok hr₁ hserved ⊢
  obtain ⟨answer, m₁⟩ := allocated
  cases answer with
  | error e => exact ⟨h₁, relocate_of_error hok, hr₁⟩
  | ok b =>
    obtain ⟨w, rfl, hserved⟩ := hserved b rfl
    obtain ⟨h', hok', hc, hsize, -, hresized⟩ := relocate_served hr.shows hserved hv ha hok
    exact ⟨h', hok', hresized.shows, hsize.trans hr₁.size_eq,
      hc.extensions.trans hr₁.extensions_eq⟩

/-- Changing the size of a block does. -/
theorem Realizes.resize (hr : h.Realizes m) (hv : v ∈ m.outline.blocks) (ha : v.allocated = true)
    (hn : leastSpan n < Word.limit) :
    Follows (h.resize v.block (leastSpan n) n) (m.resize h.terms v.block n) := by
  have hs := hr.shows
  obtain ⟨hn8, hn32, -⟩ := blockSizeFor?_eq_some (blockSizeFor?_eq_some_iff.mpr ⟨hn, rfl⟩)
  unfold Allocator.resize Follows
  dsimp only
  rw [hs.resize_outcome hv, Outline.sizeOf_eq hs.sound.laid.tiling hv]
  by_cases hlong : leastSpan n ≤ v.size
  · obtain ⟨h', hok, hc, hsize, hresized⟩ := shrink_resized hs hv ha hn32 hn8 hlong
    rw [if_pos hlong, if_neg (Nat.not_lt.mpr hlong)]
    exact ⟨h', bind_ok_iff.mpr ⟨h', hok, rfl⟩, hresized.shows, hsize.trans hr.size_eq,
      hc.extensions.trans hr.extensions_eq⟩
  · have hshort := Nat.lt_of_not_le hlong
    rw [if_neg hlong, if_pos hshort]
    cases hbehind : m.outline.behind v.block with
    | nil =>
      -- the epilogue lies behind the block
      rw [lengthen_relocate hs hv (by simp [Outline.tagBehind, hbehind])]
      exact hr.relocate hv ha n
    | cons next rest =>
      have htag : m.outline.tagBehind v.block = next.tag := by
        rw [Outline.tagBehind, hbehind]
        rfl
      dsimp only
      by_cases hb : next.allocated = false ∧ leastSpan n ≤ v.size + next.size
      · obtain ⟨h', hok, hc, hsize, hresized⟩ :=
          lengthen_absorb hs hv ha hn32 hn8 hshort hbehind hb.1 hb.2
        rw [if_pos hb]
        exact ⟨h', hok, hresized.shows, hsize.trans hr.size_eq,
          hc.extensions.trans hr.extensions_eq⟩
      · rw [if_neg hb, lengthen_relocate hs hv (htag ▸ hb)]
        exact hr.relocate hv ha n

/-- **Reallocating** a block in use does. -/
theorem Realizes.reallocate (hr : h.Realizes m) (hv : v ∈ m.outline.blocks)
    (ha : v.allocated = true) (n : Nat) :
    Follows (h.reallocate (some v.block) n) (m.reallocate h.terms (some v.block) n) := by
  have hs := hr.shows
  unfold Allocator.reallocate Follows
  dsimp only
  by_cases hzero : n = 0
  · obtain ⟨h', hok, hr'⟩ := hr.free hv ha
    rw [if_pos hzero, hzero]
    exact ⟨h', reallocate_zero hok, hr'⟩
  · rw [if_neg hzero]
    by_cases hn : Word.limit ≤ leastSpan n
    · rw [if_pos hn]
      exact ⟨h, reallocate_overflow hs hv ha hzero (blockSizeFor?_eq_none_iff.mpr hn), hr⟩
    · have hlt := Nat.lt_of_not_le hn
      obtain ⟨h', hok, hr'⟩ := hr.resize hv ha hlt
      rw [if_neg hn]
      exact ⟨h', reallocate_of_resize hs hv ha hzero (blockSizeFor?_eq_some_iff.mpr ⟨hlt, rfl⟩) hok
        hr'.shows, hr'⟩

/-- **Without a handle** there is nothing to free, and to reallocate is to allocate. -/
theorem Realizes.reallocate_none (hr : h.Realizes m) (n : Nat) :
    Follows (h.reallocate none n) (m.reallocate h.terms none n) := by
  obtain ⟨h', hok, hr'⟩ := hr.allocate n
  refine ⟨h', ?_, hr'⟩
  rw [Heap.reallocate_none, bind_of_ok hok]
  rfl

/-! ## What callers see -/

/-- The computation answers as the allocator does, and the bytes that it leaves decode to
what the allocator leaves. -/
def Matches {α : Type} (x : Traced (α × Heap)) (y : α × Allocator) : Prop :=
  ∃ h', x.outcome = .ok (y.1, h') ∧ h'.decode = .ok y.2

theorem Follows.matches {α : Type} {x : Traced (α × Heap)} {y : α × Allocator}
    (hf : Follows x y) : Matches x y := by
  obtain ⟨h', hok, hr⟩ := hf
  exact ⟨h', hok, hr.decode_eq⟩

/-- Every operation on nothing or on one of the handles does what the allocator does. -/
structure Implements (h : Heap) (handles : List Handle) (m : Allocator) : Prop where
  allocate : ∀ n, Matches (h.allocate n) (m.allocate h.terms n)
  free : ∀ handle : Option Handle, (∀ b ∈ handle, b ∈ handles) →
    Matches (h.free handle) (m.free handle)
  reallocate : ∀ (handle : Option Handle) (n : Nat), (∀ b ∈ handle, b ∈ handles) →
    Matches (h.reallocate handle n) (m.reallocate h.terms handle n)

end Heap

namespace Session

variable {p : Provider} {config : Config} {s s₀ : Session} {m : Allocator}

theorem implements_of_realizes (hr : s.heap.Realizes m) (hs : s.Shows m.outline) :
    s.heap.Implements s.handles m where
  allocate n := (hr.allocate n).matches
  free handle hlive := by
    cases handle with
    | none => exact ⟨s.heap, rfl, hr.decode_eq⟩
    | some b =>
      obtain ⟨v, hv, ha, rfl⟩ := hs.exists_inUse (hlive b rfl)
      exact (hr.free hv ha).matches
  reallocate handle n hlive := by
    cases handle with
    | none => exact (hr.reallocate_none n).matches
    | some b =>
      obtain ⟨v, hv, ha, rfl⟩ := hs.exists_inUse (hlive b rfl)
      exact (hr.reallocate hv ha n).matches

/-- **A heap refines the allocator on lists:** after any calls its bytes decode to a state of
the allocator, and from there every operation answers and leaves what the allocator does. -/
theorem run_refines (hp : p.Valid) (hok : (start p config).outcome = .ok (.ok s₀))
    (calls : List Call) :
    ∃ answers s m, (s₀.run calls).outcome = .ok (answers, s) ∧ s.heap.decode = .ok m ∧
      s.heap.Implements s.handles m := by
  obtain ⟨answers, s, o, hrun, hs⟩ := exists_run (start_shows hp hok) calls
  have hr := hs.heap.realizes
  exact ⟨answers, s, _, hrun, hr.decode_eq, implements_of_realizes hr hs⟩

theorem run_refines_page : ∃ s₀, (start (.buffer 4096) .default).outcome = .ok (.ok s₀) ∧
    ∀ calls, ∃ answers s m, (s₀.run calls).outcome = .ok (answers, s) ∧
      s.heap.decode = .ok m ∧ s.heap.Implements s.handles m := by
  obtain ⟨hp, s₀, hok⟩ := exists_start_page
  exact ⟨s₀, hok, run_refines hp hok⟩

end Session

end BoundaryTag
