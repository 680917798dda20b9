import BoundaryTag.Proofs.Sessions
import BoundaryTag.Proofs.Walking

/-!
# Reallocating keeps the payload

A block that is resized stays where it is, gives up its end, takes in the block behind it, or
moves. `Resized` says of all these ways what the bytes do, so what a caller is entitled to is read
off it once: the first bytes of the payload, as many as both sizes have room for, are what they
were, and a handle that was replaced is that of no block in use.

> `Resized.getElem_eq`, `Resized.request_le`, `Resized.old_gone`: the three things, for any change
> of size.
>
> `run_preserves`: so every reallocation of a live handle keeps its payload, after any calls.
-/

namespace BoundaryTag

open BlockView (block)

namespace Heap

variable {h h' : Heap} {o o' : Outline} {n needed : Nat} {v w : BlockView}

/-! ## What a change of size keeps -/

/-- The block that is in use instead is one of those that the new outline has. -/
theorem Resized.new_mem (hr : Resized h h' o o' needed v w) : w ∈ o'.blocks := by
  obtain ⟨others, -, hnew⟩ := hr.inUse
  exact (mem_held.mp (hnew.mem_iff.mpr (List.mem_cons_self ..))).1

/-- **The payload is kept** as far as both blocks have room for it. -/
theorem Resized.getElem_eq (hr : Resized h h' o o' needed v w) (hs : h.Shows o)
    (hv : v ∈ o.blocks) {i : Nat} (hi : i < (h.payloadBytes v).size)
    (hi' : i < (h'.payloadBytes w).size) : (h'.payloadBytes w)[i] = (h.payloadBytes v)[i] := by
  have hshort : i + 16 < min v.size w.size := by
    have hold := hs.size_payloadBytes hv
    have hnew := hr.shows.size_payloadBytes hr.new_mem
    omega
  rw [hr.shows.payloadBytes_getElem hr.new_mem hi', hs.payloadBytes_getElem hv hi]
  exact hr.payload_eq i hshort

/-- There is room for what was requested. -/
theorem Resized.request_le (hr : Resized h h' o o' needed v w)
    (hn : blockSizeFor? n = some needed) : n ≤ (h'.payloadBytes w).size := by
  have hroom := (blockSizeFor?_eq_some hn).2.2.1
  have hfits := hr.fits.1
  rw [hr.shows.size_payloadBytes hr.new_mem]
  omega

/-- **Where a block moved away from, none is in use.** -/
theorem Resized.old_gone (hr : Resized h h' o o' needed v w) (hs : h.Shows o)
    (hmoved : w.block ≠ v.block) : v.block ∉ (held o'.blocks).map block := by
  obtain ⟨others, hold, hnew⟩ := hr.inUse
  have hv : v ∈ held o.blocks := hold.mem_iff.mpr (List.mem_cons_self ..)
  have htiling := hs.sound.laid.tiling
  intro hin
  obtain ⟨u, hu, hblock⟩ := List.mem_map.mp hin
  rcases List.mem_cons.mp (hnew.mem_iff.mp hu) with rfl | hu
  · exact hmoved hblock
  · -- what else is in use was in use before, in places of its own
    have huold : u ∈ held o.blocks := hold.mem_iff.mpr (List.mem_cons_of_mem _ hu)
    have he := htiling.eq_of_offset_eq (mem_held.mp huold).1 (mem_held.mp hv).1
      (congrArg Block.offset hblock)
    exact (List.nodup_cons.mp (hold.nodup_iff.mp htiling.held_nodup)).1 (he ▸ hu)

/-! ## What a caller finds -/

/-- The new payload has room for the request and begins as the old one did, up to the end of the
shorter one; and if the handle is another one, none of the blocks in use is behind the old one. -/
structure Preserves (h h' : Heap) (old new : Handle) (request : Nat) : Prop where
  payload : ∃ before after, (h.payload old).outcome = .ok (.ok before) ∧
    (h.usableSize old).outcome = .ok (.ok before.size) ∧
    (h'.payload new).outcome = .ok (.ok after) ∧
    (h'.usableSize new).outcome = .ok (.ok after.size) ∧ request ≤ after.size ∧
    ∀ i (hi : i < before.size) (hi' : i < after.size), after[i] = before[i]
  gone : ∃ blocks, h'.blocks = .ok blocks ∧
    (new ≠ old → ∀ w ∈ blocks, w.allocated = true → w.block ≠ old)

theorem Resized.preserves (hr : Resized h h' o o' needed v w) (hs : h.Shows o)
    (hv : v ∈ o.blocks) (ha : v.allocated = true) (hn : blockSizeFor? n = some needed) :
    h.Preserves h' v.block w.block n := by
  have hsize := hs.size_payloadBytes hv
  have hsize' := hr.shows.size_payloadBytes hr.new_mem
  refine ⟨⟨h.payloadBytes v, h'.payloadBytes w, payload_allocated hs hv ha, ?_,
    payload_allocated hr.shows hr.new_mem hr.allocated, ?_, hr.request_le hn,
    fun i hi hi' => hr.getElem_eq hs hv hi hi'⟩, o'.blocks, hr.shows.blocks_shown, ?_⟩
  · rw [hsize]
    exact usableSize_allocated hs hv ha
  · rw [hsize']
    exact usableSize_allocated hr.shows hr.new_mem hr.allocated
  · intro hmoved u hu hua hblock
    exact hr.old_gone hs hmoved (List.mem_map.mpr ⟨u, mem_held.mpr ⟨hu, hua⟩, hblock⟩)

/-- How a reallocation may end that does not free: with a handle to the same payload, or without
memory for it, and then nothing has changed. -/
inductive PreservesOrFails (h : Heap) (old : Handle) (request : Nat) :
    Except AllocError (Option Handle) → Heap → Prop
  | preserved {new : Handle} {h' : Heap} (preserves : h.Preserves h' old new request) :
      PreservesOrFails h old request (.ok (some new)) h'
  | failed {h' : Heap} (unserved : h.Unserved h') :
      PreservesOrFails h old request (.error (.outOfMemory request)) h'

theorem Shows.reallocate_preserves (hs : h.Shows o) (hv : v ∈ o.blocks)
    (ha : v.allocated = true) (hzero : n ≠ 0) :
    ∃ answer h', (h.reallocate (some v.block) n).outcome = .ok (answer, h') ∧
      h.PreservesOrFails v.block n answer h' := by
  obtain ⟨answer, h', hok, hend⟩ := exists_reallocate hs hv ha n
  refine ⟨answer, h', hok, ?_⟩
  cases answer with
  | error e =>
    obtain ⟨-, rfl, hunserved⟩ := hend
    exact .failed hunserved
  | ok found =>
    cases found with
    | none => exact absurd hend.1 hzero
    | some b =>
      obtain ⟨-, needed, o', w, hn, rfl, hresized⟩ := hend
      exact .preserved (hresized.preserves hs hv ha hn)

end Heap

namespace Session

variable {s₀ : Session} {p : Provider} {config : Config}

/-- **Reallocating keeps the payload,** on every path: after any calls, whatever was written into
the payload of a live handle, to reallocate it to a size other than zero either ends with a handle
whose payload is long enough and begins as the old one did, or with the error that memory is
out. -/
theorem run_preserves (hp : p.Valid) (hok : (start p config).outcome = .ok (.ok s₀))
    (calls : List Call) :
    ∃ answers s, (s₀.run calls).outcome = .ok (answers, s) ∧ ∀ b ∈ s.handles, ∀ n, n ≠ 0 →
      ∃ answer h', (s.heap.reallocate (some b) n).outcome = .ok (answer, h') ∧
        s.heap.PreservesOrFails b n answer h' := by
  obtain ⟨answers, s, o, hrun, hs⟩ := exists_run (start_shows hp hok) calls
  refine ⟨answers, s, hrun, fun b hb n hzero => ?_⟩
  obtain ⟨v, hv, ha, rfl⟩ := hs.exists_inUse hb
  exact hs.heap.reallocate_preserves hv ha hzero

theorem run_preserves_page : ∃ s₀, (start (.buffer 4096) .default).outcome = .ok (.ok s₀) ∧
    ∀ calls, ∃ answers s, (s₀.run calls).outcome = .ok (answers, s) ∧
      ∀ b ∈ s.handles, ∀ n, n ≠ 0 →
        ∃ answer h', (s.heap.reallocate (some b) n).outcome = .ok (answer, h') ∧
          s.heap.PreservesOrFails b n answer h' := by
  obtain ⟨hp, s₀, hok⟩ := exists_start_page
  exact ⟨s₀, hok, run_preserves hp hok⟩

end Session

end BoundaryTag
