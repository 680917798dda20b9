import BoundaryTag.Proofs.Failures
import BoundaryTag.Proofs.Handles
import Mathlib.Logic.Relation

/-!
# Released handles are rejected

A handle is accepted only if the word before it is odd. When its block is released that word
ends up in free memory, and even; from there it can lie anywhere in a larger free block
(`VacantHeader`). What is written to free memory afterwards is tags of free blocks and links, all
of them even, and what is written to memory in use does not reach it. So the handle is turned
down until that memory is handed out again.

> `VacantHeader.stays`: the word stays free and even while no more memory is in use than before
> and odd words come up in memory in use alone.
>
> `Releases.vacantHeader`, `AllocatesNothing.vacantHeader`: releasing a handle leaves its word
> so, and no step that hands out no memory changes that.
>
> `run_rejects_released`: so a handle that was released is turned down, whatever comes after that
> hands out no memory.
-/

namespace BoundaryTag

open BlockView (Covers TagAt)

namespace Heap

variable {h h' : Heap} {o o' : Outline} {v : BlockView} {b : Block}

/-- The word before the handle lies in free memory, and is even. -/
structure VacantHeader (h : Heap) (o : Outline) (b : Block) : Prop where
  vacant : ∀ i, i < 8 → InVacant o.blocks (b.offset - 8 + i)
  even : ¬ h.region.Marked (b.offset - 8)

/-- A handle with such a word before it is turned down as free or as invalid. -/
theorem VacantHeader.rejected (hs : h.Shows o) (hb : h.VacantHeader o b) :
    ∃ e, (e = .doubleFree b ∨ e = .invalidHandle b) ∧ h.Rejects b e := by
  rcases h.verdict_cases b with haccepted | ⟨e, he, hrejected⟩
  · obtain ⟨⟨hlow, h8, -⟩, -, hodd⟩ := verdict_ok_iff.mp haccepted
    have hfirst := hs.first_le
    exact absurd ⟨by omega, of_decide_eq_true hodd⟩ hb.even
  · exact ⟨e, he, hs.rejects hrejected⟩

/-- A call that came to nothing does not touch the word. -/
theorem VacantHeader.of_unserved (hb : h.VacantHeader o b) (hu : h.Unserved h') :
    h'.VacantHeader o b := by
  rcases hu with he | he
  · exact he ▸ hb
  · exact he ▸ ⟨hb.vacant, hb.even⟩

/-- **The word stays free and even** while no more memory is in use than before, and odd words
come up only there. -/
theorem VacantHeader.stays {asked granted : Nat} {within fresh gone : Nat → Prop}
    (hb : h.VacantHeader o b) (hs : h.Shows o) (hs' : h'.Shows o')
    (hcontinues : h.Continues h' asked granted)
    (hheld : ∀ j, ∀ w ∈ held o'.blocks, w.Covers j → ∃ u ∈ held o.blocks, u.Covers j)
    (htouched : h.region.Touched h'.region within fresh gone)
    (hfresh : ∀ q, fresh q → ∃ u ∈ held o.blocks, u.Covers q) : h'.VacantHeader o' b := by
  have htiling := hs.sound.laid.tiling
  have htiling' := hs'.sound.laid.tiling
  rw [hcontinues.firstBlock_eq] at htiling'
  have hsize : h.arena.region.size ≤ h'.arena.region.size := htouched.size_le
  have hvacant : ∀ i, i < 8 → InVacant o'.blocks (b.offset - 8 + i) := by
    intro i hi
    have hin := hb.vacant i hi
    have hlt := htiling.lt_of_inVacant hin
    exact htiling.inVacant_of_covered htiling' (hheld _) (by omega) hin
  refine ⟨hvacant, ?_⟩
  intro hodd
  have hlt := htiling'.lt_of_inVacant (hvacant 0 (by omega))
  have hregion : h'.arena.region.size = h'.region.size := rfl
  rcases htouched.marked _ hodd with hnew | he | ⟨-, -, hold⟩
  · obtain ⟨u, hu, huq⟩ := hfresh _ hnew
    exact htiling.not_inVacant (mem_held.mp hu).1 (mem_held.mp hu).2 huq (hb.vacant 0 (by omega))
  · omega
  · exact hb.even hold

/-! ## Releasing -/

/-- So is the header of a block whose bytes are free now and whose tags are gone. -/
theorem vacantHeader_of_gone {o₁ : Outline} {stop asked granted : Nat}
    {within fresh gone : Nat → Prop}
    (hs' : h'.Shows o') (hcontinues : h.Continues h' asked granted)
    (htiling : Tiling h.firstBlock.offset o₁.blocks stop) (hv8 : 8 ≤ v.offset) (hvs : 32 ≤ v.size)
    (hend : v.offset + v.size ≤ h'.size) (hheld : (held o₁.blocks).Perm (v :: held o'.blocks))
    (htouched : h.region.Touched h'.region within fresh gone) (hgone : gone (v.offset - 8))
    (hfresh : ¬ fresh (v.offset - 8)) : h'.VacantHeader o' v.block := by
  have htiling' := hs'.sound.laid.tiling
  rw [hcontinues.firstBlock_eq] at htiling'
  have hregion : h'.arena.region.size = h'.size := rfl
  have hoff : v.block.offset = v.offset := rfl
  refine ⟨?_, ?_⟩
  · intro i hi
    refine htiling'.inVacant_of_new htiling hheld ?_ ?_
    · omega
    · simp only [Covers]
      omega
  · intro hodd
    rcases htouched.marked _ hodd with hnew | he | ⟨-, hkept, -⟩
    · exact hfresh hnew
    · have hregion' : h'.region.size = h'.size := rfl
      omega
    · exact hkept hgone

/-- A block that was freed leaves its header in free memory. -/
theorem Freed.vacantHeader (hs : h.Shows o) (hv : v ∈ o.blocks) (hfreed : Freed h h' o o' v) :
    h'.VacantHeader o' v.block := by
  obtain ⟨-, -, hvs, -, hlow, hend⟩ := hs.sound.laid.bounds hv
  have hfirst := hs.first_le
  have hsize := hfreed.size_eq
  have hregion : h.arena.region.size = h.size := rfl
  exact vacantHeader_of_gone hfreed.shows hfreed.continues hs.sound.laid.tiling (by omega) hvs
    (by omega) hfreed.inUse hfreed.touched (.inl rfl) id

/-- So does one that was moved. -/
theorem Served.vacantHeader {h₁ : Heap} {o₁ : Outline} {needed : Nat} {w : BlockView}
    (hs : h.Shows o) (hv : v ∈ o.blocks) (ha : v.allocated = true)
    (hserved : Served h h₁ o o₁ needed w) (hresized : Resized h h' o o' needed v w) :
    h'.VacantHeader o' v.block := by
  obtain ⟨-, -, hvs, -, hlow, hend⟩ := hs.sound.laid.bounds hv
  obtain ⟨others, hold, hnew⟩ := hresized.inUse
  obtain ⟨asked, granted, hcontinues⟩ := hresized.continues
  obtain ⟨_, _, hcontinues₁⟩ := hserved.continues
  have hfirst := hs.first_le
  have hregion : h.arena.region.size = h.region.size := rfl
  have hsize : h.region.size ≤ h'.size := hresized.touched.size_le
  have hoff := hserved.offset_ne hv ha
  have htiling₁ := hserved.shows.sound.laid.tiling
  rw [hcontinues₁.firstBlock_eq] at htiling₁
  -- both blocks are in use before the old one is freed
  have hheld : (held o₁.blocks).Perm (v :: held o'.blocks) :=
    calc (held o₁.blocks).Perm (w :: held o.blocks) := hserved.inUse
      List.Perm _ (w :: v :: others) := hold.cons w
      List.Perm _ (v :: w :: others) := .swap v w others
      List.Perm _ (v :: held o'.blocks) := hnew.symm.cons v
  have hws := (htiling₁.bounds hserved.new_mem).2.2.1
  have hw8 := (htiling₁.bounds hserved.new_mem).1
  refine vacantHeader_of_gone hresized.shows hcontinues htiling₁ (by omega) hvs (by omega) hheld
    hresized.touched ⟨.inl rfl, fun hsame => hoff hsame.1⟩ ?_
  intro hfresh
  rcases htiling₁.eq_or_apart hserved.new_mem (hserved.old_mem hv ha) with he | hlt | hlt
  · exact hoff (congrArg BlockView.offset he)
  · simp only [TagAt, Carried] at hfresh
    omega
  · simp only [TagAt, Carried] at hfresh
    omega

/-! ## Steps that hand out no memory -/

/-- Freeing another block writes no odd word. -/
theorem Freed.keeps_vacantHeader (hs : h.Shows o) (hfreed : Freed h h' o o' v)
    (hb : h.VacantHeader o b) : h'.VacantHeader o' b :=
  hb.stays hs hfreed.shows hfreed.continues
    (fun _ w hw hj => ⟨w, hfreed.inUse.mem_iff.mpr (List.mem_cons_of_mem _ hw), hj⟩)
    hfreed.touched fun _ hq => hq.elim

/-- Nor does a block that is resized in its place to no more than it has, but in its own tags. -/
theorem Resized.keeps_vacantHeader {needed : Nat} {w : BlockView} (hs : h.Shows o)
    (hresized : Resized h h' o o' needed v w) (hplace : w.offset = v.offset)
    (hshort : w.size ≤ v.size) (hb : h.VacantHeader o b) : h'.VacantHeader o' b := by
  obtain ⟨others, hold, hnew⟩ := hresized.inUse
  obtain ⟨asked, granted, hcontinues⟩ := hresized.continues
  have hv : v ∈ held o.blocks := hold.mem_iff.mpr (List.mem_cons_self ..)
  have hw : w ∈ held o'.blocks := hnew.mem_iff.mpr (List.mem_cons_self ..)
  obtain ⟨hw8, -, hws, -, -, -⟩ := hresized.shows.sound.laid.bounds (mem_held.mp hw).1
  refine hb.stays hs hresized.shows hcontinues ?_ hresized.touched ?_
  · intro j u hu huj
    rcases List.mem_cons.mp (hnew.mem_iff.mp hu) with rfl | hother
    · refine ⟨v, hv, ?_⟩
      simp only [Covers] at huj ⊢
      omega
    · exact ⟨u, hold.mem_iff.mpr (List.mem_cons_of_mem _ hother), huj⟩
  · intro q hq
    rcases hq with hat | ⟨hmoved, -⟩
    · refine ⟨v, hv, ?_⟩
      simp only [TagAt, Covers] at hat ⊢
      omega
    · exact absurd hplace hmoved

/-- A write to a payload does not reach free memory. -/
theorem VacantHeader.written (hb : h.VacantHeader o b) (hs : h.Shows o) (hv : v ∈ held o.blocks)
    (first count : Nat) (value : Nat → UInt8) :
    (h.withRegion (h.written v first count value)).VacantHeader o b := by
  obtain ⟨hmem, ha⟩ := mem_held.mp hv
  have hchanged := changed_written hs hmem first count value
  refine ⟨hb.vacant, ?_⟩
  have hword : (h.written v first count value).word (b.offset - 8) =
      h.region.word (b.offset - 8) := by
    refine hchanged.word_eq fun i hlow hhigh hin => ?_
    have hvacant := hb.vacant (i - (b.offset - 8)) (by omega)
    refine hs.sound.laid.tiling.not_inVacant hmem ha ?_ hvacant
    simp only [Covers]
    omega
  intro hodd
  exact hb.even ⟨hodd.1, hword ▸ hodd.2⟩

/-! ## Live handles -/

/-- The operations serve the handle: they answer, and only a lack of memory makes one fail. -/
structure Serves (h : Heap) (b : Handle) : Prop where
  usableSize : ∃ n, (h.usableSize b).outcome = .ok (.ok n)
  payload : ∃ bytes, (h.payload b).outcome = .ok (.ok bytes)
  free : ∃ h', (h.free (some b)).outcome = .ok (.ok (), h')
  reallocate : ∀ n, ∃ answer h', (h.reallocate (some b) n).outcome = .ok (answer, h') ∧
    ∀ e, answer = .error e → e = .outOfMemory n

/-- The handle of a block in use is served. -/
theorem Shows.serves (hs : h.Shows o) (hv : v ∈ o.blocks) (ha : v.allocated = true) :
    h.Serves v.block := by
  refine ⟨⟨_, usableSize_allocated hs hv ha⟩, ⟨_, payload_allocated hs hv ha⟩, ?_, ?_⟩
  · obtain ⟨a, hok, -⟩ := exists_free hs hv ha
    exact ⟨_, hok⟩
  · intro n
    obtain ⟨answer, h', hok, hend⟩ := exists_reallocate hs hv ha n
    refine ⟨answer, h', hok, ?_⟩
    intro e he
    subst he
    exact hend.2.1

end Heap

namespace Session

variable {s s' : Session} {o o' : Outline} {b : Block} {v : BlockView} {place request : Nat}
  {h' : Heap}

/-- Every live handle is served, and the handle of every block that the walk shows to be free
is known as such. -/
structure ServesLiveRejectsFree (s : Session) : Prop where
  live : ∀ b ∈ s.handles, s.heap.Serves b
  free : ∃ blocks, s.heap.blocks = .ok blocks ∧
    ∀ v ∈ blocks, v.allocated = false → s.heap.Rejects v.block (.doubleFree v.block)

theorem Shows.servesLiveRejectsFree (hs : s.Shows o) : s.ServesLiveRejectsFree := by
  refine ⟨?_, o.blocks, hs.heap.blocks_shown, ?_⟩
  · intro b hb
    obtain ⟨v, hv, ha, rfl⟩ := hs.exists_inUse hb
    exact hs.heap.serves hv ha
  · intro v hv ha
    exact hs.heap.rejects (hs.heap.verdict_free hv ha)

/-! ## Releasing a handle -/

/-- A call that releases the live handle: it frees it, reallocates it to nothing, or moves its
block. -/
inductive Releases (s : Session) (b : Handle) : Session → Prop
  | freed {place : Nat} {answer : Answer} {s' : Session} (live : s.handle? place = some b)
      (step : (s.step (.free place)).outcome = .ok (answer, s')) : Releases s b s'
  | emptied {place : Nat} {answer : Answer} {s' : Session} (live : s.handle? place = some b)
      (step : (s.step (.reallocate place 0)).outcome = .ok (answer, s')) : Releases s b s'
  | moved {place request : Nat} {b' : Handle} {s' : Session} (live : s.handle? place = some b)
      (step : (s.step (.reallocate place request)).outcome = .ok (.ok (some b'), s'))
      (elsewhere : b' ≠ b) : Releases s b s'

/-- A step that hands out no memory: a live handle is freed or reallocated to a size that takes
no more than its block has, a live payload is written to, or whatever else was tried, with
whatever handle, has failed. -/
inductive AllocatesNothing (s : Session) : Session → Prop
  | freed {place : Nat} {b : Handle} {answer : Answer} {s' : Session}
      (live : s.handle? place = some b)
      (step : (s.step (.free place)).outcome = .ok (answer, s')) : AllocatesNothing s s'
  | shrunk {place request size : Nat} {b : Handle} {answer : Answer} {s' : Session}
      (live : s.handle? place = some b) (size_eq : b.size s.heap.region = .ok size)
      (small : leastSpan request ≤ size)
      (step : (s.step (.reallocate place request)).outcome = .ok (answer, s')) :
      AllocatesNothing s s'
  | written {place first count : Nat} {value : Nat → UInt8} {b : Handle} {answer : Answer}
      {s' : Session} (live : s.handle? place = some b)
      (step : (s.step (.write place first count value)).outcome = .ok (answer, s')) :
      AllocatesNothing s s'
  | failed {operation : Operation} {reply : Reply} {e : AllocError} {h' : Heap}
      (performed : (s.heap.perform operation).outcome = .ok (reply, h'))
      (error : reply.error? = some e) : AllocatesNothing s { s with heap := h' }

/-- The session shows an outline in which the word before the handle is free and even. -/
def ShowsVacantHeader (s : Session) (b : Handle) : Prop := ∃ o, s.Shows o ∧ s.heap.VacantHeader o b

/-- What freeing a live handle comes to, or reallocating it to nothing. -/
theorem exists_freed (hs : s.Shows o) (hp : s.handle? place = some v.block) (hv : v ∈ o.blocks)
    (ha : v.allocated = true) :
    ∃ s' o', (s.step (.free place)).outcome = .ok (.ok none, s') ∧
      (s.step (.reallocate place 0)).outcome = .ok (.ok none, s') ∧ s'.Shows o' ∧
      Heap.Freed s.heap s'.heap o o' v := by
  obtain ⟨a, hok, hfreed⟩ := Heap.exists_free hs.heap hv ha
  have hstepped : Stepped s o (.free place) (.ok none)
      ⟨s.heap.withArena a, s.leases.eraseIdx place⟩ (o.release v.block) :=
    .freed hp hp rfl hfreed
  exact ⟨_, _, step_free hp hok, step_reallocate_none hp (Heap.reallocate_zero hok),
    hstepped.shows hs, hfreed⟩

/-- What resizing the block of a live handle comes to. -/
theorem shows_resized {needed : Nat} {w : BlockView} (hs : s.Shows o)
    (hp : s.handle? place = some v.block) (hresized : Heap.Resized s.heap h' o o' needed v w)
    (hn : blockSizeFor? request = some needed) :
    Shows ⟨h', s.leases.set place ⟨w.block, request⟩⟩ o' := by
  have hstepped : Stepped s o (.reallocate place request) (.ok (some w.block))
      ⟨h', s.leases.set place ⟨w.block, request⟩⟩ o' := .resized hp hp rfl hresized hn
  exact hstepped.shows hs

/-- **Releasing a handle** leaves the word before it in free memory, and even. -/
theorem Releases.vacantHeader (hs : s.Shows o) (h : s.Releases b s') : s'.ShowsVacantHeader b := by
  cases h with
  | freed live step =>
    obtain ⟨v, hv, ha, rfl⟩ := hs.exists_inUse (mem_handles_of_handle? live)
    obtain ⟨s'', o', hok, -, hs', hfreed⟩ := exists_freed hs live hv ha
    rw [hok] at step
    cases step
    exact ⟨o', hs', hfreed.vacantHeader hs.heap hv⟩
  | emptied live step =>
    obtain ⟨v, hv, ha, rfl⟩ := hs.exists_inUse (mem_handles_of_handle? live)
    obtain ⟨s'', o', -, hok, hs', hfreed⟩ := exists_freed hs live hv ha
    rw [hok] at step
    cases step
    exact ⟨o', hs', hfreed.vacantHeader hs.heap hv⟩
  | @moved place request _ _ live step elsewhere =>
    obtain ⟨v, hv, ha, rfl⟩ := hs.exists_inUse (mem_handles_of_handle? live)
    by_cases hzero : request = 0
    · subst hzero
      obtain ⟨s'', o', -, hok, -⟩ := exists_freed hs live hv ha
      rw [hok] at step
      cases step
    · cases hn : blockSizeFor? request with
      | none =>
        have hok := Heap.reallocate_overflow hs.heap hv ha hzero hn
        rw [step_reallocate_error live hok] at step
        cases step
      | some needed =>
        obtain ⟨answer, h', hok, hend⟩ :=
          Heap.exists_reallocate_settled hs.heap hv ha hzero hn
        -- a block that keeps its place keeps its handle
        cases hend with
        | kept =>
          rw [step_reallocate_some live hok] at step
          cases step
          exact absurd rfl elsewhere
        | absorbed =>
          rw [step_reallocate_some live hok] at step
          cases step
          exact absurd rfl elsewhere
        | moved _ _ _ served resized =>
          rw [step_reallocate_some live hok] at step
          cases step
          exact ⟨_, shows_resized hs live resized hn, served.vacantHeader hs.heap hv ha resized⟩
        | refused =>
          rw [step_reallocate_error live hok] at step
          cases step

/-- **There it stays** in a step that hands out no memory. -/
theorem AllocatesNothing.vacantHeader (h : s.AllocatesNothing s') (hb : s.ShowsVacantHeader b) :
    s'.ShowsVacantHeader b := by
  obtain ⟨o, hs, hb⟩ := hb
  cases h with
  | freed live step =>
    obtain ⟨v, hv, ha, rfl⟩ := hs.exists_inUse (mem_handles_of_handle? live)
    obtain ⟨s'', o', hok, -, hs', hfreed⟩ := exists_freed hs live hv ha
    rw [hok] at step
    cases step
    exact ⟨o', hs', hfreed.keeps_vacantHeader hs.heap hb⟩
  | @shrunk place request _ _ _ _ live size_eq small step =>
    obtain ⟨v, hv, ha, rfl⟩ := hs.exists_inUse (mem_handles_of_handle? live)
    rw [hs.heap.size_shown hv] at size_eq
    cases size_eq
    by_cases hzero : request = 0
    · subst hzero
      obtain ⟨s'', o', -, hok, hs', hfreed⟩ := exists_freed hs live hv ha
      rw [hok] at step
      cases step
      exact ⟨o', hs', hfreed.keeps_vacantHeader hs.heap hb⟩
    · have hend := (hs.heap.sound.laid.bounds hv).2.2.2.2.2
      have hregion : s.heap.arena.region.size = s.heap.size := rfl
      have hsmall := hs.heap.size_lt
      have hn : blockSizeFor? request = some (leastSpan request) :=
        blockSizeFor?_eq_some_iff.mpr ⟨by omega, rfl⟩
      obtain ⟨answer, h', hok, hend⟩ := Heap.exists_reallocate_settled hs.heap hv ha hzero hn
      -- the block is long enough, so it keeps its place
      cases hend with
      | kept _ _ resized =>
        rw [step_reallocate_some live hok] at step
        cases step
        have hs' := shows_resized hs live resized hn
        exact ⟨_, hs', resized.keeps_vacantHeader hs.heap rfl (le_spanned small).2 hb⟩
      | absorbed short => exact absurd small (Nat.not_le.mpr short)
      | moved short => exact absurd small (Nat.not_le.mpr short)
      | refused short => exact absurd small (Nat.not_le.mpr short)
  | @written place first count value _ _ _ live step =>
    obtain ⟨v, hv, ha, rfl⟩ := hs.exists_inUse (mem_handles_of_handle? live)
    have hheld := mem_held.mpr ⟨hv, ha⟩
    rw [write_leased hs live hheld] at step
    cases step
    have hstepped : Stepped s o (.write place first count value) (.ok none)
        { s with heap := s.heap.withRegion (s.heap.written v first count value) } o :=
      .written trivial live rfl hheld rfl
    exact ⟨o, hstepped.shows hs, hb.written hs.heap hheld first count value⟩
  | failed performed error =>
    have hu := Heap.perform_error performed error
    exact ⟨o, ⟨hu.shows hs.heap, hs.leased⟩, hb.of_unserved hu⟩

/-! ## After any calls -/

/-- So it does in any number of such steps. -/
theorem showsVacantHeader_of_run (h : Relation.ReflTransGen AllocatesNothing s s')
    (hb : s.ShowsVacantHeader b) : s'.ShowsVacantHeader b := by
  induction h with
  | refl => exact hb
  | tail _ hstep ih => exact hstep.vacantHeader ih

variable {p : Provider} {config : Config} {s₀ : Session}

/-- **A released handle is rejected until memory is handed out again.** After any calls every live
handle is served and every free block is told from those in use. Once a live handle is
released, it is turned down by every operation, as free or as invalid, for as long as no step
that follows hands out memory; and live handles are still served then. -/
theorem run_rejects_released (hp : p.Valid) (hok : (start p config).outcome = .ok (.ok s₀))
    (calls : List Call) :
    ∃ answers s, (s₀.run calls).outcome = .ok (answers, s) ∧ s.ServesLiveRejectsFree ∧
      ∀ b s₁ s₂, s.Releases b s₁ → Relation.ReflTransGen AllocatesNothing s₁ s₂ →
        s₂.ServesLiveRejectsFree ∧
          ∃ e, (e = .doubleFree b ∨ e = .invalidHandle b) ∧ s₂.heap.Rejects b e := by
  obtain ⟨answers, s, o, hrun, hs⟩ := exists_run (start_shows hp hok) calls
  refine ⟨answers, s, hrun, hs.servesLiveRejectsFree, ?_⟩
  intro b s₁ s₂ hreleases hnothing
  obtain ⟨o₂, hs₂, hb⟩ := showsVacantHeader_of_run hnothing (hreleases.vacantHeader hs)
  exact ⟨hs₂.servesLiveRejectsFree, hb.rejected hs₂.heap⟩

/-- Over one page, for instance, whatever the calls are. -/
theorem run_rejects_released_page : ∃ s₀, (start (.buffer 4096) .default).outcome = .ok (.ok s₀) ∧
    ∀ calls, ∃ answers s, (s₀.run calls).outcome = .ok (answers, s) ∧ s.ServesLiveRejectsFree ∧
      ∀ b s₁ s₂, s.Releases b s₁ → Relation.ReflTransGen AllocatesNothing s₁ s₂ →
        s₂.ServesLiveRejectsFree ∧
          ∃ e, (e = .doubleFree b ∨ e = .invalidHandle b) ∧ s₂.heap.Rejects b e := by
  obtain ⟨hp, s₀, hok⟩ := exists_start_page
  exact ⟨s₀, hok, run_rejects_released hp hok⟩

end Session

end BoundaryTag
