import BoundaryTag.Proofs.Deciding
import BoundaryTag.Proofs.Exhaustion

/-!
# What the report says is so

Four walks look at a heap: that of the check, that over the blocks, that along the free list, and
the search for a block that fits. They stop for different reasons, but if the check is content they
all see one outline. So what the check reports can be counted off the two walks, and its largest
free block decides whether the next request needs more memory.

> `Tiling.bytesIn_eq`: the bytes of the blocks, by induction along the heap.
>
> `Report.ofBlocks_bytes`, `Report.ofBlocks_longest`: what is reported of a list of blocks.
>
> `run_reports_truly`: a report on whatever bytes agrees with the walks and with the allocator.
-/

namespace BoundaryTag

open BlockView (block)

/-! ## Sums and maxima -/

/-- The blocks that are free, in the order of their addresses. -/
def spare (blocks : List BlockView) : List BlockView := blocks.filter (!·.allocated)

/-- How many bytes the blocks take together. -/
def bytesIn : List BlockView → Nat
  | [] => 0
  | v :: rest => v.size + bytesIn rest

/-- The size of the longest of the blocks, and zero if there are none. -/
structure Longest (blocks : List BlockView) (size : Nat) : Prop where
  bound : ∀ v ∈ blocks, v.size ≤ size
  attained : blocks = [] ∧ size = 0 ∨ ∃ v ∈ blocks, v.size = size

section

variable {blocks : List BlockView} {start stop size : Nat} {v : BlockView}

theorem mem_spare : v ∈ spare blocks ↔ v ∈ blocks ∧ v.allocated = false := by
  simp [spare]

theorem map_block_spare (blocks : List BlockView) : (spare blocks).map block = vacant blocks := rfl

/-- **Blocks that lie side by side** take what is between the two ends. -/
theorem Tiling.bytesIn_eq (h : Tiling start blocks stop) : start + bytesIn blocks = stop := by
  induction blocks generalizing start with
  | nil => exact h
  | cons v rest ih =>
    obtain ⟨-, -, -, hrest⟩ := h
    rw [bytesIn, ← Nat.add_assoc]
    exact ih hrest

/-- Every byte is that of a free block or of one in use. -/
theorem bytesIn_spare_add_held (blocks : List BlockView) :
    bytesIn (spare blocks) + bytesIn (held blocks) = bytesIn blocks := by
  induction blocks with
  | nil => rfl
  | cons v rest ih =>
    cases ha : v.allocated with
    | true =>
      have hspare : spare (v :: rest) = spare rest := by simp [spare, ha]
      rw [hspare, held_cons_allocated ha, bytesIn, bytesIn, ← ih]
      omega
    | false =>
      have hspare : spare (v :: rest) = v :: spare rest := by simp [spare, ha]
      rw [hspare, held_cons_free ha, bytesIn, bytesIn, ← ih]
      omega

theorem foldl_add_sizes (blocks : List BlockView) (total : Nat) :
    (blocks.map (·.size)).foldl (· + ·) total = total + bytesIn blocks := by
  induction blocks generalizing total with
  | nil => rfl
  | cons v rest ih =>
    rw [List.map_cons, List.foldl_cons, ih, bytesIn, Nat.add_assoc]

theorem longest_foldl_max (blocks : List BlockView) :
    Longest blocks ((blocks.map (·.size)).foldl max 0) := by
  rw [List.foldl_max]
  cases hmax : (blocks.map (·.size)).max? with
  | none =>
    have hnil : blocks = [] := by simpa using hmax
    subst hnil
    exact ⟨nofun, .inl ⟨rfl, rfl⟩⟩
  | some size =>
    obtain ⟨hmem, hbound⟩ := List.max?_eq_some_iff.mp hmax
    rw [Option.getD_some, Nat.zero_max]
    refine ⟨fun v hv => hbound _ (List.mem_map_of_mem hv), .inr ?_⟩
    exact List.mem_map.mp hmem

/-- Some free block is long enough exactly if the longest one is. -/
theorem Longest.fits_iff {n : Nat} (h : Longest (spare blocks) size) :
    Fits blocks n ↔ leastSpan n ≤ size := by
  constructor
  · intro hfits
    obtain ⟨v, hv, ha, hle⟩ := hfits
    exact Nat.le_trans hle (h.bound v (mem_spare.mpr ⟨hv, ha⟩))
  · intro hle
    have hpos : 32 ≤ leastSpan n := Nat.le_max_right ..
    rcases h.attained with ⟨-, hzero⟩ | ⟨v, hv, hsize⟩
    · omega
    · obtain ⟨hv, ha⟩ := mem_spare.mp hv
      exact ⟨v, hv, ha, hsize ▸ hle⟩

end

/-! ## The report of a list of blocks -/

namespace Report

/-- The sums that are reported. -/
theorem ofBlocks_bytes (heapSize : Nat) (blocks : List BlockView) :
    (ofBlocks heapSize blocks).freeBytes = bytesIn (spare blocks) ∧
      (ofBlocks heapSize blocks).allocatedBytes = bytesIn (held blocks) := by
  constructor
  · exact (foldl_add_sizes (spare blocks) 0).trans (Nat.zero_add _)
  · exact (foldl_add_sizes (held blocks) 0).trans (Nat.zero_add _)

/-- The maximum that is reported. -/
theorem ofBlocks_longest (heapSize : Nat) (blocks : List BlockView) :
    Longest (spare blocks) (ofBlocks heapSize blocks).largestFree :=
  longest_foldl_max (spare blocks)

end Report

/-! ## The report of a heap -/

namespace Heap

variable {h : Heap} {o : Outline} {n : Nat}

/-- The report says of the heap what the walks over it and the allocator find. -/
structure Agrees (h : Heap) (report : Report) (blocks free : List BlockView) : Prop where
  /-- The walk over the blocks, and the one along the free list, which comes to an end. -/
  blocks_shown : h.blocks = .ok blocks
  free_shown : ∀ limit, h.freeBlocks limit = .ok (free.take limit)
  free_perm : free.Perm (spare blocks)
  blocks_eq : report.blocks = blocks.length
  freeBlocks_eq : report.freeBlocks = free.length ∧ report.freeBlocks = (spare blocks).length
  freeBytes_eq : report.freeBytes = bytesIn (spare blocks)
  allocatedBytes_eq : report.allocatedBytes = bytesIn (held blocks)
  largestFree : Longest (spare blocks) report.largestFree
  heapSize_eq : report.heapSize = h.size
  conserved : report.freeBytes + report.allocatedBytes + h.firstBlock.offset = h.size
  /-- A request whose block is a word long asks for more memory if the longest free block is
  shorter than that, and only then. -/
  asks : ∀ n, leastSpan n < Word.limit → ∃ answer h', (h.allocate n).outcome = .ok (answer, h') ∧
    h'.provider.requests = h.provider.requests + if report.largestFree < leastSpan n then 1 else 0

/-- The free blocks as the free list has them. -/
theorem Shows.free_perm_spare (hs : h.Shows o) :
    (o.free.map fun b => (⟨b.offset, o.sizeOf b, false⟩ : BlockView)).Perm (spare o.blocks) := by
  have hmap := hs.sound.members.map fun b => (⟨b.offset, o.sizeOf b, false⟩ : BlockView)
  rw [← map_block_spare, List.map_map] at hmap
  refine hmap.trans (.of_eq ?_)
  refine (List.map_congr_left fun v hv => ?_).trans (List.map_id _)
  obtain ⟨hv, ha⟩ := mem_spare.mp hv
  show (⟨v.offset, o.sizeOf v.block, false⟩ : BlockView) = v
  rw [Outline.sizeOf_eq hs.sound.laid.tiling hv, ← ha]

/-- **The allocator asks for more memory** exactly if even the longest free block is too short. -/
theorem Shows.asks_iff_longest (hs : h.Shows o) {size : Nat} (hl : Longest (spare o.blocks) size)
    (hn : leastSpan n < Word.limit) :
    ∃ answer h', (h.allocate n).outcome = .ok (answer, h') ∧
      h'.provider.requests = h.provider.requests + if size < leastSpan n then 1 else 0 := by
  obtain ⟨answer, h', hok, -⟩ := exists_allotted hs n
  have hasks := hs.asksOnlyIfFull n
  refine ⟨answer, h', hok, ?_⟩
  split
  · next hshort =>
    exact hasks.once hok (fun hi => Nat.not_le.mpr hn (tooLarge_iff.mp hi))
      fun hfits => Nat.not_le.mpr hshort (hl.fits_iff.mp hfits)
  · next hlong =>
    exact hasks.never hok (.inr (hl.fits_iff.mpr (Nat.le_of_not_lt hlong)))

/-- **A heap that shows an outline** is as its report says. -/
theorem Shows.agrees (hs : h.Shows o) :
    h.Agrees (Report.ofBlocks h.size o.blocks) o.blocks
      (o.free.map fun b => ⟨b.offset, o.sizeOf b, false⟩) := by
  obtain ⟨hfree, hused⟩ := Report.ofBlocks_bytes h.size o.blocks
  have hlongest := Report.ofBlocks_longest h.size o.blocks
  have hperm := hs.free_perm_spare
  have htiling := hs.sound.laid.tiling.bytesIn_eq
  refine ⟨hs.blocks_shown, hs.freeBlocks_shown, hperm, rfl, ⟨hperm.length_eq.symm, rfl⟩, hfree,
    hused, hlongest, rfl, ?_, fun n hn => hs.asks_iff_longest hlongest hn⟩
  rw [hfree, hused, bytesIn_spare_add_held, Nat.add_comm]
  exact htiling

end Heap

namespace Session

variable {p : Provider} {config : Config} {s₀ : Session}

/-- **A report is true.** Whatever became of the bytes of a heap, the head of its free list and the
recorded length: if the check of it answers with a report, the walks over the blocks and along the
free list see what is reported, no byte is missing, and the largest free block that is reported
decides which requests make the heap ask for more memory. -/
theorem run_reports_truly (hp : p.Valid) (hok : (start p config).outcome = .ok (.ok s₀))
    (calls : List Call) :
    ∃ answers s, (s₀.run calls).outcome = .ok (answers, s) ∧
      ∀ (a : Arena) (report : Report), a.region.size = s.heap.size →
        (s.heap.withArena a).check = .ok (.ok report) →
        ∃ blocks free, (s.heap.withArena a).Agrees report blocks free := by
  obtain ⟨answers, s, o, hrun, hs⟩ := exists_run (start_shows hp hok) calls
  refine ⟨answers, s, hrun, fun a report hsize hcheck => ?_⟩
  obtain ⟨o', ho', rfl⟩ := (hs.heap.placed.withArena hsize).check_ok_iff.mp hcheck
  exact ⟨_, _, (hs.heap.withArena ho' hsize).agrees⟩

/-- The bytes that a session leaves behind have a report, for instance. -/
theorem run_reports_truly_page : ∃ s₀, (start (.buffer 4096) .default).outcome = .ok (.ok s₀) ∧
    ∀ calls, ∃ answers s report blocks free, (s₀.run calls).outcome = .ok (answers, s) ∧
      (s.heap.withArena s.heap.arena).check = .ok (.ok report) ∧
      (s.heap.withArena s.heap.arena).Agrees report blocks free := by
  obtain ⟨hp, s₀, hok⟩ := exists_start_page
  refine ⟨s₀, hok, fun calls => ?_⟩
  obtain ⟨answers, s, hrun, htrue⟩ := run_reports_truly hp hok calls
  obtain ⟨answers', s', o, hrun', hs⟩ := exists_run (start_shows hp hok) calls
  cases hrun.symm.trans hrun'
  have hcheck : (s.heap.withArena s.heap.arena).check =
      .ok (.ok (Report.ofBlocks s.heap.size o.blocks)) :=
    hs.heap.placed.check_ok_iff.mpr ⟨o, hs.heap.sound, rfl⟩
  obtain ⟨blocks, free, hagrees⟩ := htrue s.heap.arena _ rfl hcheck
  exact ⟨answers, s, _, blocks, free, hrun, hcheck, hagrees⟩

end Session

end BoundaryTag
