import BoundaryTag.Proofs.Sessions

/-!
# Allocations lie apart and fit their requests

The blocks in use tile the region together with the free ones, so they share no byte. And a
block is never longer than its lease needs by as much as the least block, since such a
surplus is split off whenever a block is sized, and no other call changes it.

> `Stepped.sizedToRequests`: what every call keeps, for all leases at once.
>
> `run_leases_fit`: after any calls, leased blocks share no byte, keep to their part of memory,
> hold what was requested, and are less than one least block longer than that takes.
-/

namespace BoundaryTag

open BlockView (block tag)

namespace Heap

/-- The blocks of the leases share no byte with one another or with the two ends of the
heap, and each is as long as its request takes, or a little longer. -/
structure LeasesFit (h : Heap) (leases : List Lease) : Prop where
  apart : leases.Pairwise fun l k => ∃ m n,
    l.handle.size h.region = .ok m ∧ k.handle.size h.region = .ok n ∧
      (l.handle.offset - wordSize + m ≤ k.handle.offset - wordSize ∨
        k.handle.offset - wordSize + n ≤ l.handle.offset - wordSize)
  aligned : ∀ l ∈ leases, l.handle.offset % alignment = 0
  /-- A payload begins behind the prologue's footer. It ends before the block's own footer,
  and that one before the epilogue. -/
  within : ∀ l ∈ leases, ∃ start stop footer,
    l.handle.payloadBounds h.region = .ok (start, stop) ∧
      l.handle.footerPos h.region = .ok footer ∧ h.prologue.offset + wordSize ≤ start ∧
      stop ≤ footer ∧ footer + wordSize ≤ h.size - wordSize
  fits : ∀ l ∈ leases, ∃ size usable, l.handle.size h.region = .ok size ∧
    (h.usableSize l.handle).outcome = .ok (.ok usable) ∧ l.request ≤ usable ∧
      size < leastSpan l.request + minBlockSize

end Heap

namespace Session

variable {s s' : Session} {o o' : Outline} {call : Call} {answer : Answer} {v : BlockView}

/-- Every leased block is as long as its request takes, up to a surplus that makes no
block. -/
def SizedToRequests (s : Session) (o : Outline) : Prop :=
  ∀ l ∈ s.leases, ∀ v ∈ held o.blocks, v.block = l.handle →
    leastSpan l.request ≤ v.size ∧ v.size < leastSpan l.request + 32

/-- A block that was sized for a request fits it, whichever way it is looked up. -/
theorem fits_of_sized {request needed : Nat} {w : BlockView} (hs : s.Shows o)
    (hw : w ∈ held o.blocks) (hfits : needed ≤ w.size ∧ w.size < needed + 32)
    (hsized : blockSizeFor? request = some needed) (hv : v ∈ held o.blocks)
    (hblock : v.block = w.block) :
    leastSpan request ≤ v.size ∧ v.size < leastSpan request + 32 := by
  obtain ⟨-, rfl⟩ := blockSizeFor?_eq_some_iff.mp hsized
  exact hs.heap.held_inj hv hw hblock ▸ hfits

/-- So does the block of a lease that is as it was. -/
theorem SizedToRequests.of_stays (ht : s.SizedToRequests o) (hs' : s'.Shows o') {l : Lease}
    (hl : l ∈ s.leases) (hstays : ∃ u ∈ held o.blocks, u ∈ held o'.blocks ∧ u.block = l.handle)
    (hv : v ∈ held o'.blocks) (hblock : v.block = l.handle) :
    leastSpan l.request ≤ v.size ∧ v.size < leastSpan l.request + 32 := by
  obtain ⟨u, hu, hu', hhandle⟩ := hstays
  exact hs'.heap.held_inj hv hu' (hblock.trans hhandle.symm) ▸ ht l hl u hu hhandle

/-- **What every call keeps.** -/
theorem Stepped.sizedToRequests (hs : s.Shows o) (ht : s.SizedToRequests o)
    (h : Stepped s o call answer s' o') : s'.SizedToRequests o' := by
  have hs' := h.shows hs
  cases h with
  | idle leases unserved =>
    intro l hl
    exact ht l (leases ▸ hl)
  | served target leases served sized =>
    have hnew := served.inUse.mem_iff.mpr (List.mem_cons_self ..)
    intro l hl v hv hblock
    rw [leases] at hl
    rcases List.mem_append.mp hl with hl | hl
    · obtain ⟨u, hu, hua, hhandle⟩ := hs.exists_inUse (List.mem_map_of_mem hl)
      have hu := mem_held.mpr ⟨hu, hua⟩
      exact ht.of_stays hs' hl
        ⟨u, hu, served.inUse.mem_iff.mpr (List.mem_cons_of_mem _ hu), hhandle⟩ hv hblock
    · cases List.mem_singleton.mp hl
      exact fits_of_sized hs' hnew served.fits sized hv hblock
  | freed target found leases freed =>
    intro l hl v hv
    exact ht l (List.mem_of_mem_eraseIdx (leases ▸ hl)) v
      (freed.inUse.mem_iff.mpr (List.mem_cons_of_mem _ hv))
  | resized target found leases resized sized =>
    obtain ⟨others, hold, hnew⟩ := resized.inUse
    -- the other leases are on the blocks that the call left alone
    have hothers := ((handles_perm found).symm.trans
      (hs.leased.trans (hold.map block))).cons_inv
    intro l hl v hv hblock
    rw [leases] at hl
    rcases List.mem_cons.mp ((leases_set_perm found _).mem_iff.mp hl) with rfl | hl
    · exact fits_of_sized hs' (hnew.mem_iff.mpr (List.mem_cons_self ..)) resized.fits sized hv
        hblock
    · obtain ⟨u, hu, hhandle⟩ := List.mem_map.mp (hothers.mem_iff.mp (List.mem_map_of_mem hl))
      exact ht.of_stays hs' (List.mem_of_mem_eraseIdx hl)
        ⟨u, hold.mem_iff.mpr (List.mem_cons_of_mem _ hu),
          hnew.mem_iff.mpr (List.mem_cons_of_mem _ hu), hhandle⟩ hv hblock
  | written writes target leases inUse heap =>
    intro l hl
    exact ht l (leases ▸ hl)

/-! ## What leases come to -/

/-- Blocks in use share no byte. -/
theorem Shows.leases_apart (hs : s.Shows o) :
    s.leases.Pairwise fun l k => ∃ m n, l.handle.size s.heap.region = .ok m ∧
      k.handle.size s.heap.region = .ok n ∧
      (l.handle.offset - wordSize + m ≤ k.handle.offset - wordSize ∨
        k.handle.offset - wordSize + n ≤ l.handle.offset - wordSize) := by
  have hlaid := hs.heap.sound.laid
  have hblocks : ((held o.blocks).map block).Pairwise fun b c => ∃ m n,
      b.size s.heap.region = .ok m ∧ c.size s.heap.region = .ok n ∧
        (b.offset - wordSize + m ≤ c.offset - wordSize ∨
          c.offset - wordSize + n ≤ b.offset - wordSize) := by
    refine List.pairwise_map.mpr ((hlaid.tiling.pairwise.imp_of_mem ?_).filter _)
    intro u v hu hv hle
    have hu32 := (hlaid.bounds hu).1
    refine ⟨u.size, v.size, hs.heap.size_shown hu, hs.heap.size_shown hv, .inl ?_⟩
    show u.offset - 8 + u.size ≤ v.offset - 8
    omega
  -- which of two leases comes first does not matter
  refine List.pairwise_map.mp ((hs.leased.pairwise_iff ?_).mpr hblocks)
  rintro b c ⟨m, n, hm, hn, hapart⟩
  exact ⟨n, m, hn, hm, hapart.symm⟩

/-- A leased block keeps to its part of memory. -/
theorem Shows.leases_within (hs : s.Shows o) {b : Block} (hb : b ∈ s.handles) :
    ∃ start stop footer, b.payloadBounds s.heap.region = .ok (start, stop) ∧
      b.footerPos s.heap.region = .ok footer ∧ s.heap.prologue.offset + wordSize ≤ start ∧
      stop ≤ footer ∧ footer + wordSize ≤ s.heap.size - wordSize := by
  obtain ⟨v, hv, ha, rfl⟩ := hs.exists_inUse hb
  obtain ⟨-, -, hvs, -, hlow, hend⟩ := hs.heap.sound.laid.bounds hv
  have hsmall := hs.heap.size_lt
  have hregion : s.heap.arena.region.size = s.heap.size := rfl
  have hfirst : s.heap.firstBlock.offset = s.heap.prologue.offset + 16 := rfl
  have hfooter : v.block.footerPos s.heap.region = .ok (v.offset + v.size - 16) :=
    bind_ok_iff.mpr ⟨_, hs.heap.size_shown hv, Block.footerPosOf_ok_iff.mpr
      ⟨show v.offset + v.size < _ by omega, show 16 ≤ v.offset + v.size by omega, rfl⟩⟩
  refine ⟨_, _, _, hs.heap.payloadBounds_eq hv, hfooter, ?_, Nat.le_refl _, ?_⟩
  · show s.heap.prologue.offset + 8 ≤ v.offset
    omega
  · show v.offset + v.size - 16 + 8 ≤ s.heap.size - 8
    omega

/-- **Where every block is sized to its request,** the leases fit. -/
theorem Shows.leasesFit (hs : s.Shows o) (ht : s.SizedToRequests o) :
    s.heap.LeasesFit s.leases where
  apart := hs.leases_apart
  aligned l hl := by
    obtain ⟨v, hv, -, hhandle⟩ := hs.exists_inUse (List.mem_map_of_mem hl)
    exact hhandle ▸ (hs.heap.sound.laid.bounds hv).2.1
  within _ hl := hs.leases_within (List.mem_map_of_mem hl)
  fits l hl := by
    obtain ⟨v, hv, ha, hhandle⟩ := hs.exists_inUse (List.mem_map_of_mem hl)
    obtain ⟨hlong, htight⟩ := ht l hl v (mem_held.mpr ⟨hv, ha⟩) hhandle
    rw [← hhandle]
    refine ⟨v.size, v.size - 16, hs.heap.size_shown hv, Heap.usableSize_allocated hs.heap hv ha,
      ?_, htight⟩
    simp only [leastSpan, overhead, alignment, minBlockSize] at hlong
    omega

variable {p : Provider} {config : Config} {s₀ : Session}

/-- **Live allocations never overlap and fit their requests,** after any calls, whatever was
written into payloads. -/
theorem run_leases_fit (hp : p.Valid) (hok : (start p config).outcome = .ok (.ok s₀))
    (calls : List Call) :
    ∃ answers s, (s₀.run calls).outcome = .ok (answers, s) ∧ s.heap.LeasesFit s.leases := by
  have hnone : s₀.SizedToRequests
      ⟨[⟨s₀.heap.firstBlock.offset, 32, false⟩], [s₀.heap.firstBlock]⟩ := by
    intro l hl
    rw [(built_of_start_ok hp hok).2] at hl
    cases hl
  obtain ⟨answers, s, o, hrun, hs, ht⟩ := exists_run_keeping
    (fun hs ht hstep => hstep.sizedToRequests hs ht) (start_shows hp hok) hnone calls
  exact ⟨answers, s, hrun, hs.leasesFit ht⟩

/-- Over one page, for instance, whatever the calls are. -/
theorem run_leases_fit_page : ∃ s₀, (start (.buffer 4096) .default).outcome = .ok (.ok s₀) ∧
    ∀ calls, ∃ answers s, (s₀.run calls).outcome = .ok (answers, s) ∧
      s.heap.LeasesFit s.leases := by
  obtain ⟨hp, s₀, hok⟩ := exists_start_page
  exact ⟨s₀, hok, run_leases_fit hp hok⟩

end Session

end BoundaryTag
