import BoundaryTag.Heap.Operation
import BoundaryTag.Proofs.Deciding
import BoundaryTag.Proofs.Frame

/-!
# In which order blocks are freed makes no difference

Between the blocks in use a sound heap has no two free blocks side by side, so the blocks in
use say where the free ones are (`Tiling.eq_of_held`). Freeing takes one block out of those in
use, and which ones are left in the end does not depend on the order. So the blocks do not
either: they are those of before, with the freed ones marked free and every run of free ones
made into one (`coalesced`).

> `exists_frees`: live handles can be freed one after the other, in any order.
>
> `run_confluent`: after any calls, whatever is freed, and in whatever order, the same blocks
> are left; if all is freed, a single one.
-/

namespace BoundaryTag

section

variable {start stop : Nat} {blocks blocks' rest : List BlockView} {v w : BlockView}

/-! ## The blocks in use say it all -/

/-- A tiling lists its blocks by place, so there is one order for them. -/
theorem Tiling.held_eq_of_perm {start' stop' : Nat} (h : Tiling start blocks stop)
    (h' : Tiling start' blocks' stop') (hp : (held blocks).Perm (held blocks')) :
    held blocks = held blocks' := by
  refine hp.eq_of_pairwise ?_ (h.pairwise.filter _) (h'.pairwise.filter _)
  intro u v hu hv huv hvu
  have hus := (h.bounds (mem_held.mp hu).1).2.2.1
  omega

/-- A free block that comes first ends where the first block in use begins. -/
theorem Tiling.end_of_free (h : Tiling start (v :: rest) stop) (hm : NoFreePair (v :: rest))
    (ha : v.allocated = false) :
    v.offset + v.size = (held rest).head?.elim stop (·.offset) := by
  obtain ⟨rfl, -, -, hrest⟩ := h
  cases rest with
  | nil => exact hrest
  | cons u rest =>
    have hu : u.allocated = true := by
      rcases hm.rel_head? rfl with hva | hua
      · rw [ha] at hva
        cases hva
      · exact hua
    rw [held_cons_allocated hu]
    exact hrest.1.symm

/-- A block in use that begins where the blocks begin is the first of them. -/
theorem Tiling.allocated_of_first {u : BlockView} {others : List BlockView}
    (h : Tiling start (v :: rest) stop) (hheld : held (v :: rest) = u :: others)
    (hu : u.offset = start) : v.allocated = true := by
  obtain ⟨-, hvs, -, hrest⟩ := h
  cases hva : v.allocated with
  | true => rfl
  | false =>
    rw [held_cons_free hva] at hheld
    have hin : u ∈ held rest := hheld ▸ List.mem_cons_self ..
    have hlow := (hrest.bounds (mem_held.mp hin).1).1
    omega

/-- Where the blocks in use are the same, so is the first block. -/
theorem Tiling.first_eq_of_held {rest' : List BlockView} (h : Tiling start (v :: rest) stop)
    (h' : Tiling start (w :: rest') stop) (hm : NoFreePair (v :: rest))
    (hm' : NoFreePair (w :: rest')) (hheld : held (v :: rest) = held (w :: rest')) :
    v = w ∧ held rest = held rest' := by
  have hv : v.offset = start := h.1
  have hw : w.offset = start := h'.1
  cases hva : v.allocated with
  | true =>
    rw [held_cons_allocated hva] at hheld
    have hwa := h'.allocated_of_first hheld.symm hv
    rw [held_cons_allocated hwa] at hheld
    exact List.cons.inj hheld
  | false =>
    have hwa : w.allocated = false := by
      by_contra hnot
      have hw_held := held_cons_allocated (Bool.of_not_eq_false hnot) rest'
      have hused := h.allocated_of_first (hheld.trans hw_held) hw
      rw [hva] at hused
      cases hused
    rw [held_cons_free hva, held_cons_free hwa] at hheld
    -- both are free, and end where the first block in use begins
    have hend := (h.end_of_free hm hva).trans (hheld ▸ (h'.end_of_free hm' hwa).symm)
    obtain ⟨voff, vsize, va⟩ := v
    obtain ⟨woff, wsize, wa⟩ := w
    dsimp only at hv hw hva hwa hend
    subst hv hw hva hwa
    have hsize : vsize = wsize := by omega
    exact ⟨hsize ▸ rfl, hheld⟩

/-- **Where no two free blocks lie side by side,** the blocks in use leave no choice for the
free ones. -/
theorem Tiling.eq_of_held (h : Tiling start blocks stop) (h' : Tiling start blocks' stop)
    (hm : NoFreePair blocks) (hm' : NoFreePair blocks') (hheld : held blocks = held blocks') :
    blocks = blocks' := by
  induction blocks generalizing start blocks' with
  | nil =>
    have hlen := h'.length_le
    have hstop : start = stop := h
    cases blocks' with
    | nil => rfl
    | cons w rest' =>
      simp only [List.length_cons] at hlen
      omega
  | cons v rest ih =>
    have hlen := h.length_le
    cases blocks' with
    | nil =>
      have hstop : start = stop := h'
      simp only [List.length_cons] at hlen
      omega
    | cons w rest' =>
      obtain ⟨rfl, hothers⟩ := h.first_eq_of_held h' hm hm' hheld
      rw [ih h.2.2.2 h'.2.2.2 hm.tail hm'.tail hothers]

/-! ## Marking blocks free -/

/-- The blocks, with those of the handles marked free. -/
def markFree (freed : List Handle) (blocks : List BlockView) : List BlockView :=
  blocks.map fun v => if v.block ∈ freed then { v with allocated := false } else v

theorem Tiling.markFree {freed : List Handle} (h : Tiling start blocks stop) :
    Tiling start (markFree freed blocks) stop := by
  induction blocks generalizing start with
  | nil => exact h
  | cons v rest ih =>
    obtain ⟨hoff, hs, hs8, hrest⟩ := h
    show Tiling start ((if v.block ∈ freed then _ else v) :: _) stop
    split
    · exact ⟨hoff, hs, hs8, ih hrest⟩
    · exact ⟨hoff, hs, hs8, ih hrest⟩

/-- Just the marked blocks are no longer in use. -/
theorem held_markFree (freed : List Handle) (blocks : List BlockView) :
    held (markFree freed blocks) = (held blocks).filter (·.block ∉ freed) := by
  induction blocks with
  | nil => rfl
  | cons v rest ih =>
    show held ((if v.block ∈ freed then _ else v) :: markFree freed rest) = _
    cases ha : v.allocated with
    | true =>
      rw [held_cons_allocated ha]
      split
      · next hv => rw [held_cons_free rfl, ih, List.filter_cons_of_neg (by simpa using hv)]
      · next hv =>
        rw [held_cons_allocated ha, ih, List.filter_cons_of_pos (by simpa using hv)]
    | false =>
      rw [held_cons_free ha]
      split
      · rw [held_cons_free rfl, ih]
      · rw [held_cons_free ha, ih]

/-! ## Making runs of free blocks into one -/

/-- A block in front of others, as one with the first of them if both are free. -/
def coalesceFront (v : BlockView) : List BlockView → List BlockView
  | [] => [v]
  | w :: rest =>
    if v.allocated = false ∧ w.allocated = false then ⟨v.offset, v.size + w.size, false⟩ :: rest
    else v :: w :: rest

/-- The blocks, with every run of free ones made into one at its lowest address. -/
def coalesced (blocks : List BlockView) : List BlockView := blocks.foldr coalesceFront []

theorem held_coalesceFront (v : BlockView) (rest : List BlockView) :
    held (coalesceFront v rest) = held (v :: rest) := by
  unfold coalesceFront
  cases rest with
  | nil => rfl
  | cons w rest =>
    dsimp only
    split
    · next hfree => rw [held_cons_free rfl, held_cons_free hfree.1, held_cons_free hfree.2]
    · rfl

/-- Merging is between free blocks. -/
theorem held_coalesced (blocks : List BlockView) : held (coalesced blocks) = held blocks := by
  induction blocks with
  | nil => rfl
  | cons v rest ih =>
    show held (coalesceFront v (coalesced rest)) = _
    rw [held_coalesceFront]
    cases ha : v.allocated with
    | true => rw [held_cons_allocated ha, held_cons_allocated ha, ih]
    | false => rw [held_cons_free ha, held_cons_free ha, ih]

theorem Tiling.coalesceFront (h : Tiling start (v :: rest) stop) :
    Tiling start (coalesceFront v rest) stop := by
  unfold BoundaryTag.coalesceFront
  cases rest with
  | nil => exact h
  | cons w rest =>
    dsimp only
    split
    · obtain ⟨hv, hvs, hvs8, hw, hws, hws8, hrest⟩ := h
      refine ⟨hv, ?_, ?_, ?_⟩
      · dsimp only
        omega
      · dsimp only
        omega
      · rw [← Nat.add_assoc]
        exact hrest
    · exact h

/-- Merged blocks take up the same memory. -/
theorem Tiling.coalesced (h : Tiling start blocks stop) : Tiling start (coalesced blocks) stop := by
  induction blocks generalizing start with
  | nil => exact h
  | cons v rest ih =>
    obtain ⟨hv, hvs, hvs8, hrest⟩ := h
    exact Tiling.coalesceFront ⟨hv, hvs, hvs8, ih hrest⟩

/-- A free block put in front merges with the free one that comes first, if there is one. -/
theorem noFreePair_coalesceFront (v : BlockView) (hm : NoFreePair rest) :
    NoFreePair (coalesceFront v rest) := by
  unfold coalesceFront
  cases rest with
  | nil => exact .singleton v
  | cons w rest =>
    dsimp only
    split
    · next hfree =>
      -- behind a free block there was one in use, and it still is behind
      refine List.isChain_cons.mpr ⟨?_, hm.tail⟩
      intro u hu
      rcases hm.rel_head? hu with hwa | hua
      · rw [hfree.2] at hwa
        cases hwa
      · exact .inr hua
    · next hnot =>
      refine List.isChain_cons.mpr ⟨?_, hm⟩
      intro u hu
      cases Option.some.inj hu
      by_contra hneither
      obtain ⟨hva, hwa⟩ := not_or.mp hneither
      exact hnot ⟨Bool.eq_false_iff.mpr hva, Bool.eq_false_iff.mpr hwa⟩

/-- No two free blocks are left side by side. -/
theorem noFreePair_coalesced (blocks : List BlockView) : NoFreePair (coalesced blocks) := by
  induction blocks with
  | nil => exact .nil
  | cons v rest ih => exact noFreePair_coalesceFront v ih

/-- Freeing the first and the third of four blocks: the third takes in the one behind it. -/
example : coalesced (markFree [⟨112⟩, ⟨32⟩]
      [⟨32, 40, true⟩, ⟨72, 40, true⟩, ⟨112, 48, true⟩, ⟨160, 32, false⟩]) =
    [⟨32, 40, false⟩, ⟨72, 40, true⟩, ⟨112, 80, false⟩] := by decide

end

/-! ## Freeing one after the other -/

/-- Freeing the handles, in this order. -/
def frees (order : List Handle) : List Operation := order.map fun b => .free (some b)

/-- What is replied if all of them are freed. -/
def allFreed (order : List Handle) : List Reply := order.map fun _ => .done (.ok ())

namespace Heap

variable {h h' : Heap} {o o' : Outline} {order freed : List Handle} {b : Block}

theorem perform_free (hok : (h.free (some b)).outcome = .ok (.ok (), h')) :
    (h.perform (.free (some b))).outcome = .ok (.done (.ok ()), h') :=
  Traced.map_ok_iff.mpr ⟨_, hok, rfl⟩

theorem performAll_cons {operation : Operation} {operations : List Operation} {reply : Reply}
    {replies : List Reply} {h₁ : Heap}
    (hok : (h.perform operation).outcome = .ok (reply, h₁))
    (hrest : (h₁.performAll operations).outcome = .ok (replies, h')) :
    (h.performAll (operation :: operations)).outcome = .ok (reply :: replies, h') := by
  rw [performAll, Traced.outcome_bind, bind_of_ok hok, Traced.outcome_bind, bind_of_ok hrest]
  rfl

/-- **Blocks in use can be freed one after the other,** in any order, and the others are
then in use still. -/
theorem exists_frees (hs : h.Shows o) (hnodup : order.Nodup)
    (hlive : ∀ b ∈ order, ∃ v ∈ held o.blocks, v.block = b) :
    ∃ h' o', (h.performAll (frees order)).outcome = .ok (allFreed order, h') ∧ h'.Shows o' ∧
      h.Continues h' 0 0 ∧ h'.size = h.size ∧
      (held o'.blocks).Perm ((held o.blocks).filter (·.block ∉ order)) := by
  induction order generalizing h o with
  | nil => exact ⟨h, o, rfl, hs, .refl h, rfl, by simp⟩
  | cons b order ih =>
    obtain ⟨hnew, hothers⟩ := List.nodup_cons.mp hnodup
    obtain ⟨v, hv, rfl⟩ := hlive b (List.mem_cons_self ..)
    obtain ⟨hmem, ha⟩ := mem_held.mp hv
    obtain ⟨a, hok, hfreed⟩ := exists_free hs hmem ha
    have hlive₁ : ∀ b ∈ order, ∃ u ∈ held (o.release v.block).blocks, u.block = b := by
      intro b hb
      obtain ⟨u, hu, rfl⟩ := hlive b (List.mem_cons_of_mem _ hb)
      rcases List.mem_cons.mp (hfreed.inUse.mem_iff.mp hu) with rfl | hu
      · exact absurd hb hnew
      · exact ⟨u, hu, rfl⟩
    obtain ⟨h', o', hrest, hs', hc', hsize', hheld'⟩ := ih hfreed.shows hothers hlive₁
    refine ⟨h', o', performAll_cons (perform_free hok) hrest, hs', hfreed.continues.trans hc',
      hsize'.trans hfreed.size_eq, hheld'.trans ?_⟩
    -- none of those that are left is the one that was freed first
    have hne : ∀ u ∈ held (o.release v.block).blocks, u.block ≠ v.block := by
      intro u hu he
      have hnodup := hfreed.inUse.nodup_iff.mp hs.sound.laid.tiling.held_nodup
      have huo := hfreed.inUse.mem_iff.mpr (List.mem_cons_of_mem _ hu)
      exact (List.nodup_cons.mp hnodup).1 (hs.held_inj huo hv he ▸ hu)
    have hfilter : (held (o.release v.block).blocks).filter (·.block ∉ order) =
        (held (o.release v.block).blocks).filter (·.block ∉ v.block :: order) := by
      refine List.filter_congr fun u hu => ?_
      have := hne u hu
      simp [this]
    rw [hfilter]
    have hperm := hfreed.inUse.symm.filter (·.block ∉ v.block :: order)
    rwa [List.filter_cons_of_neg (by simp)] at hperm

/-- A heap in which the same is in use as in another one, handles apart that were freed, has
its blocks, with these marked free and runs of free blocks made into one. -/
theorem Shows.blocks_eq_coalesced (hs : h.Shows o) (hs' : h'.Shows o') {asked granted : Nat}
    (hc : h.Continues h' asked granted) (hsize : h'.size = h.size)
    (hheld : (held o'.blocks).Perm ((held o.blocks).filter (·.block ∉ freed))) :
    o'.blocks = coalesced (markFree freed o.blocks) := by
  have htiling : Tiling h.firstBlock.offset (coalesced (markFree freed o.blocks)) h.size :=
    hs.sound.laid.tiling.markFree.coalesced
  have htiling' : Tiling h'.firstBlock.offset o'.blocks h'.size := hs'.sound.laid.tiling
  rw [hc.firstBlock_eq, hsize] at htiling'
  rw [← held_markFree, ← held_coalesced (markFree freed o.blocks)] at hheld
  exact htiling'.eq_of_held htiling hs'.sound.merged (noFreePair_coalesced _)
    (htiling'.held_eq_of_perm htiling hheld)

/-- Where nothing is in use there is a single block, from end to end. -/
theorem Shows.blocks_eq_single (hs : h.Shows o) (hroom : h.firstBlock.offset < h.size)
    (hnone : held o.blocks = []) :
    o.blocks = [⟨h.firstBlock.offset, h.size - h.firstBlock.offset, false⟩] := by
  have htiling : Tiling h.firstBlock.offset o.blocks h.size := hs.sound.laid.tiling
  have hmerged := hs.sound.merged
  cases hblocks : o.blocks with
  | nil =>
    rw [hblocks] at htiling
    have : h.firstBlock.offset = h.size := htiling
    omega
  | cons v rest =>
    rw [hblocks] at htiling hmerged hnone
    have ha : v.allocated = false := by
      by_contra hnot
      rw [held_cons_allocated (Bool.of_not_eq_false hnot)] at hnone
      cases hnone
    rw [held_cons_free ha] at hnone
    have hend : v.offset + v.size = h.size := by
      have hfirst := htiling.end_of_free hmerged ha
      rw [hnone] at hfirst
      exact hfirst
    obtain ⟨hoff, -, -, hrest⟩ := htiling
    -- the block ends where the heap does, so nothing comes behind it
    have hlen := hrest.length_le
    obtain rfl : rest = [] := List.eq_nil_of_length_eq_zero (by omega)
    obtain ⟨off, size, allocated⟩ := v
    dsimp only at ha hoff hend
    subst ha hoff
    rw [← hend, Nat.add_sub_cancel_left]

/-- Some live handles can be freed in any order, and it makes no difference in which. Once all
are freed, a single free block is left. -/
structure FreesConfluently (h : Heap) (live : List Handle) (blocks : List BlockView) : Prop where
  some : ∀ {freed order : List Handle}, freed.Nodup → freed ⊆ live → order.Perm freed →
    ∃ h', (h.performAll (frees order)).outcome = .ok (allFreed order, h') ∧
      h'.blocks = .ok (coalesced (markFree freed blocks))
  all : ∀ {order : List Handle}, order.Perm live →
    ∃ h', (h.performAll (frees order)).outcome = .ok (allFreed order, h') ∧ h'.size = h.size ∧
      h'.blocks = .ok [⟨h.firstBlock.offset, h.size - h.firstBlock.offset, false⟩] ∧
      ∃ report, h'.check = .ok (.ok report) ∧ report.freeBlocks = 1 ∧ report.allocatedBytes = 0

end Heap

/-! ## After any calls -/

namespace Session

variable {p : Provider} {config : Config} {s s₀ : Session} {o : Outline}

/-- A session's heap always has room for a block. -/
theorem exists_run_roomy (hp : p.Valid) (hok : (start p config).outcome = .ok (.ok s₀))
    (calls : List Call) :
    ∃ answers s o, (s₀.run calls).outcome = .ok (answers, s) ∧ s.Shows o ∧
      s.heap.firstBlock.offset < s.heap.size := by
  have hbuilt := (built_of_start_ok hp hok).1
  have hroom : s₀.heap.firstBlock.offset < s₀.heap.size := by
    rw [hbuilt.firstBlock_eq, hbuilt.size_eq]
    omega
  refine exists_run_keeping (I := fun s _ => s.heap.firstBlock.offset < s.heap.size) ?_
    (start_shows hp hok) hroom calls
  intro s₁ o₁ call answer s₂ o₂ hs₁ hlt hstep
  rw [(hstep.low hs₁).1]
  exact Nat.lt_of_lt_of_le hlt hstep.size_le

/-- Live handles are those of blocks in use, each once. -/
theorem Shows.exists_frees (hs : s.Shows o) {freed order : List Handle} (hnodup : freed.Nodup)
    (hlive : freed ⊆ s.handles) (horder : order.Perm freed) :
    ∃ h' o', (s.heap.performAll (frees order)).outcome = .ok (allFreed order, h') ∧ h'.Shows o' ∧
      s.heap.Continues h' 0 0 ∧ h'.size = s.heap.size ∧
      (held o'.blocks).Perm ((held o.blocks).filter (·.block ∉ freed)) := by
  obtain ⟨h', o', hok, hs', hc, hsize, hheld⟩ :=
    Heap.exists_frees hs.heap (horder.nodup_iff.mpr hnodup) fun b hb => by
      obtain ⟨v, hv, ha, hblock⟩ := hs.exists_inUse (hlive (horder.mem_iff.mp hb))
      exact ⟨v, mem_held.mpr ⟨hv, ha⟩, hblock⟩
  refine ⟨h', o', hok, hs', hc, hsize, hheld.trans (.of_eq ?_)⟩
  refine List.filter_congr fun v _ => ?_
  simp only [horder.mem_iff]

/-- **On a sound heap** the handles can be freed in any order. -/
theorem Shows.freesConfluently (hs : s.Shows o) (hroom : s.heap.firstBlock.offset < s.heap.size) :
    s.heap.FreesConfluently s.handles o.blocks where
  some := by
    intro freed order hnodup hlive horder
    obtain ⟨h', o', hok, hs', hc, hsize, hheld⟩ := hs.exists_frees hnodup hlive horder
    refine ⟨h', hok, ?_⟩
    rw [hs'.blocks_shown, hs.heap.blocks_eq_coalesced hs' hc hsize hheld]
  all := by
    intro order horder
    have hnodup : s.handles.Nodup := by
      refine hs.leased.nodup_iff.mpr (List.Nodup.map_on ?_ hs.heap.sound.laid.tiling.held_nodup)
      intro v hv w hw he
      exact hs.heap.held_inj hv hw he
    obtain ⟨h', o', hok, hs', hc, hsize, hheld⟩ :=
      hs.exists_frees hnodup (List.Subset.refl _) horder
    -- every block in use has a live handle, so none is left in use
    have hnone : held o'.blocks = [] := by
      refine List.Perm.eq_nil (hheld.trans (.of_eq (List.filter_eq_nil_iff.mpr ?_)))
      intro v hv
      have hin : v.block ∈ s.handles := hs.leased.mem_iff.mpr (List.mem_map_of_mem hv)
      simp [hin]
    have hfirst := hc.firstBlock_eq
    have hsingle := hs'.blocks_eq_single (by rwa [hfirst, hsize]) hnone
    rw [hfirst, hsize] at hsingle
    have hcheck := hs'.placed.check_ok_iff.mpr ⟨o', hs'.sound, rfl⟩
    rw [hsingle] at hcheck
    exact ⟨h', hok, hsize, hs'.blocks_shown.trans (congrArg Except.ok hsingle), _, hcheck, rfl, rfl⟩

/-- **In which order blocks are freed makes no difference,** after any calls: the blocks that
are left are those of before, with the freed ones marked free and every run of free ones made
into one. If all are freed, a single free block is left, and nothing in use. -/
theorem run_confluent (hp : p.Valid) (hok : (start p config).outcome = .ok (.ok s₀))
    (calls : List Call) :
    ∃ answers s blocks, (s₀.run calls).outcome = .ok (answers, s) ∧ s.heap.blocks = .ok blocks ∧
      s.heap.FreesConfluently s.handles blocks := by
  obtain ⟨answers, s, o, hrun, hs, hroom⟩ := exists_run_roomy hp hok calls
  exact ⟨answers, s, o.blocks, hrun, hs.heap.blocks_shown, hs.freesConfluently hroom⟩

theorem run_confluent_page : ∃ s₀, (start (.buffer 4096) .default).outcome = .ok (.ok s₀) ∧
    ∀ calls, ∃ answers s blocks, (s₀.run calls).outcome = .ok (answers, s) ∧
      s.heap.blocks = .ok blocks ∧ s.heap.FreesConfluently s.handles blocks := by
  obtain ⟨hp, s₀, hok⟩ := exists_start_page
  exact ⟨s₀, hok, run_confluent hp hok⟩

end Session

end BoundaryTag
