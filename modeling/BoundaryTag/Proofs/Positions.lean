import BoundaryTag.Proofs.Exhaustion
import BoundaryTag.Proofs.Interchange
import BoundaryTag.Proofs.Refining
import BoundaryTag.Proofs.Shifting

/-!
# Heaps do not mind where they lie

What a heap does is what the allocator on lists does, and that commutes with a shift. What the
lists do not know is whether more memory is granted; but a heap that is refused none goes by the
terms under which all is granted (`Terms.unlimited`), wherever it lies. So two heaps that were built
behind different numbers of bytes stay in step, up to a call at which one of them is refused memory
(`Denied`).

> `Allocator.call_shift`: a call on lists, further on.
>
> `Realizes.step`: a call of a session is that call on lists, or it is denied.
>
> `run_shifted`: calls on a heap behind other bytes and on one in an empty region.
-/

namespace BoundaryTag

open BlockView (block)

/-! ## Terms under which all is granted -/

/-- A provider grants all. -/
def Terms.unlimited (chunk : Nat) : Terms := ⟨chunk, fun _ => true⟩

namespace Allocator

variable {m : Allocator} {t : Terms} {b : Block} {request k : Nat}

/-- A request that no free block serves, and for which no memory is granted. -/
structure NoMemoryFor (m : Allocator) (t : Terms) (request : Nat) : Prop where
  small : leastSpan request < Word.limit
  unfit : m.outline.firstFit (leastSpan request) = none
  refused : t.grants (max (leastSpan request) t.chunk) = false

theorem NoMemoryFor.allocate_eq (h : m.NoMemoryFor t request) :
    m.allocate t request = (.error (.outOfMemory request), m) :=
  allocate_refused h.small h.unfit h.refused

/-- **An allocation that is not refused** is one under unlimited terms. -/
theorem allocate_unlimited (h : ¬ m.NoMemoryFor t request) :
    m.allocate t request = m.allocate (.unlimited t.chunk) request := by
  by_cases hn : Word.limit ≤ leastSpan request
  · rw [allocate_overflow hn, allocate_overflow hn]
  · have hn := Nat.lt_of_not_le hn
    cases hf : m.outline.firstFit (leastSpan request) with
    | some b => rw [allocate_fit hn hf, allocate_fit hn hf]
    | none =>
      cases hg : t.grants (max (leastSpan request) t.chunk) with
      | false => exact absurd ⟨hn, hf, hg⟩ h
      | true =>
        rw [allocate_grow hn hf hg]
        exact (allocate_grow (t := .unlimited t.chunk) hn hf rfl).symm

theorem relocate_unlimited (h : ¬ m.NoMemoryFor t request) :
    m.relocate t b request = m.relocate (.unlimited t.chunk) b request := by
  unfold relocate
  rw [allocate_unlimited h]

theorem resize_unlimited (h : ¬ m.NoMemoryFor t request) :
    m.resize t b request = m.resize (.unlimited t.chunk) b request := by
  unfold resize
  rw [relocate_unlimited h]

theorem reallocate_unlimited (h : ¬ m.NoMemoryFor t request) (handle : Option Handle) :
    m.reallocate t handle request = m.reallocate (.unlimited t.chunk) handle request := by
  unfold reallocate
  cases handle with
  | none => rw [allocate_unlimited h]
  | some b =>
    dsimp only
    rw [resize_unlimited h]

/-- A block that can be resized where it lies is, whatever the terms are. -/
theorem NoMemoryFor.resize_cases (h : m.NoMemoryFor t request) :
    m.resize t b request = m.resize (.unlimited t.chunk) b request ∨
      m.resize t b request = (.error (.outOfMemory request), m) := by
  have hrelocate : m.relocate t b request = (.error (.outOfMemory request), m) := by
    unfold relocate
    rw [h.allocate_eq]
  unfold resize
  dsimp only
  split
  · exact .inl rfl
  · split
    · exact .inr hrelocate
    · split
      · exact .inl rfl
      · exact .inr hrelocate

theorem NoMemoryFor.reallocate_cases (h : m.NoMemoryFor t request) (handle : Option Handle) :
    m.reallocate t handle request = m.reallocate (.unlimited t.chunk) handle request ∨
      (m.reallocate t handle request).1 = .error (.outOfMemory request) := by
  unfold reallocate
  cases handle with
  | none =>
    rw [h.allocate_eq]
    exact .inr rfl
  | some b =>
    dsimp only
    split
    · exact .inl rfl
    · split
      · exact .inl rfl
      · rcases h.resize_cases (b := b) with heq | heq
        · rw [heq]
          exact .inl rfl
        · rw [heq]
          exact .inr rfl

/-! ## Calls -/

/-- What a call about a handle does. -/
def call (m : Allocator) (t : Terms) (target : Option Handle) : Call → Answer × Allocator
  | .allocate request => ((m.allocate t request).1.map some, (m.allocate t request).2)
  | .free _ => ((m.free target).1.map fun _ => none, (m.free target).2)
  | .reallocate _ request => m.reallocate t target request
  | .write .. => (.ok none, m)

end Allocator

/-- The same answer, with the handle so many bytes further on. -/
def Answer.shift (k : Nat) (answer : Answer) : Answer := answer.map (·.map (·.shift k))

/-- The same lease, with its block so many bytes further on. -/
def Lease.shift (k : Nat) (l : Lease) : Lease := { l with handle := l.handle.shift k }

/-- **A call further on** has the same answer, further on. -/
theorem Allocator.call_shift (m : Allocator) (t : Terms) (k : Nat) (target : Option Handle)
    (call : Call) : (m.shift k).call t (target.map (·.shift k)) call =
      (Answer.shift k (m.call t target call).1, (m.call t target call).2.shift k) := by
  cases call with
  | allocate request =>
    dsimp only [Allocator.call]
    rw [m.allocate_shift]
    cases (m.allocate t request).1 <;> rfl
  | free place =>
    dsimp only [Allocator.call]
    rw [m.free_shift]
    rfl
  | reallocate place request => exact m.reallocate_shift t request target
  | write place first count value => rfl

theorem Session.lease_shift (k : Nat) (leases : List Lease) (place : Nat) (new : Lease) :
    lease (leases.map (·.shift k)) place (new.shift k) =
      (lease leases place new).map (·.shift k) := by
  unfold lease
  rw [List.length_map]
  split
  · rw [List.map_set]
  · rw [List.map_append]
    rfl

/-- The leases after a call, further on. -/
theorem Session.leasesAfter_shift (k : Nat) (leases : List Lease) (call : Call) (answer : Answer) :
    leasesAfter (leases.map (·.shift k)) call (Answer.shift k answer) =
      (leasesAfter leases call answer).map (·.shift k) := by
  cases call with
  | allocate request =>
    rcases answer with e | _ | b
    · rfl
    · rfl
    · show leases.map (·.shift k) ++ [Lease.shift k ⟨b, request⟩] =
        (leases ++ [(⟨b, request⟩ : Lease)]).map (·.shift k)
      rw [List.map_append]
      rfl
  | free place =>
    cases answer with
    | error e => rfl
    | ok handle => exact List.eraseIdx_map ..
  | reallocate place request =>
    rcases answer with e | _ | b
    · rfl
    · exact List.eraseIdx_map ..
    · exact lease_shift k leases place ⟨b, request⟩
  | write place first count value => rfl

/-! ## Heaps -/

namespace Heap

variable {h : Heap} {m : Allocator} {n : Nat} {v : BlockView} {α : Type}

/-- The provider was asked for the memory that a request takes, and refused it. -/
structure Denied (h : Heap) (x : Except Fault (Except AllocError α × Heap)) (request : Nat) :
    Prop where
  refuses : h.provider.Refuses (h.growthFor request)
  failed : x = .ok (.error (.outOfMemory request), h.afterRefusal)

theorem Realizes.allocateBlock_denied (hr : h.Realizes m) (hn : m.NoMemoryFor h.terms n) :
    Denied h (h.allocateBlock n).outcome n := by
  have hg : ¬ h.provider.Grants (max (leastSpan n) h.config.chunk) := of_decide_eq_false hn.refused
  exact ⟨Provider.refuses_iff.mpr hg,
    allocateBlock_refused hr.shows (blockSizeFor?_eq_some_iff.mpr ⟨hn.small, rfl⟩) hn.unfit hg⟩

/-- **Allocating** goes by unlimited terms, or it is denied. -/
theorem Realizes.allocate_unlimited (hr : h.Realizes m) (n : Nat) :
    Follows (h.allocate n) (m.allocate (.unlimited h.config.chunk) n) ∨
      Denied h (h.allocate n).outcome n := by
  by_cases hn : m.NoMemoryFor h.terms n
  · obtain ⟨hrefuses, hfailed⟩ := hr.allocateBlock_denied hn
    exact .inr ⟨hrefuses, allocate_of_allocateBlock hfailed hr.shows.afterRefusal⟩
  · have hfollows := hr.allocate n
    rw [Allocator.allocate_unlimited hn] at hfollows
    exact .inl hfollows

/-- **Freeing** does not need memory. -/
theorem Realizes.free_live (hr : h.Realizes m) {target : Option Handle}
    (hlive : Live m.outline target) : Follows (h.free target) (m.free target) := by
  cases target with
  | none => exact ⟨h, rfl, hr⟩
  | some b =>
    obtain ⟨v, hv, ha, rfl⟩ := hlive b rfl
    exact hr.free hv ha

/-- **Reallocating** does, of a block in use. -/
theorem Realizes.reallocate_unlimited (hr : h.Realizes m) {target : Option Handle}
    (hlive : Live m.outline target) (n : Nat) :
    Follows (h.reallocate target n) (m.reallocate (.unlimited h.config.chunk) target n) ∨
      Denied h (h.reallocate target n).outcome n := by
  cases target with
  | none =>
    rcases hr.allocate_unlimited n with ⟨h', hok, hr'⟩ | ⟨hrefuses, hfailed⟩
    · refine .inl ⟨h', ?_, hr'⟩
      rw [Heap.reallocate_none, bind_of_ok hok]
      rfl
    · refine .inr ⟨hrefuses, ?_⟩
      rw [Heap.reallocate_none, bind_of_ok hfailed]
      rfl
  | some b =>
    obtain ⟨v, hv, ha, rfl⟩ := hlive b rfl
    have hfollows := hr.reallocate hv ha n
    by_cases hn : m.NoMemoryFor h.terms n
    · rcases hn.reallocate_cases (some v.block) with heq | herror
      · rw [heq] at hfollows
        exact .inl hfollows
      · obtain ⟨h', hok, -⟩ := hfollows
        rw [herror] at hok
        obtain ⟨hrefuses, hfailed⟩ := hr.allocateBlock_denied hn
        have hzero : n ≠ 0 := by
          intro hzero
          subst hzero
          cases herror
        -- of the ends of a change of size, only one is an error
        obtain ⟨answer, h'', hok', hend⟩ := exists_reallocate_settled hr.shows hv ha hzero
          (blockSizeFor?_eq_some_iff.mpr ⟨hn.small, rfl⟩)
        cases hend with
        | kept | absorbed | moved =>
          rw [hok'] at hok
          cases hok
        | refused short stuck allocated =>
          cases hfailed.symm.trans allocated
          exact .inr ⟨hrefuses, hok'⟩
    · rw [Allocator.reallocate_unlimited hn] at hfollows
      exact .inl hfollows

end Heap

/-! ## Sessions -/

namespace Session

variable {s s' t s₀ t₀ : Session} {o o' : Outline} {m : Allocator} {call : Call} {answer : Answer}
  {k : Nat} {p q : Provider} {config : Config}

/-- No call changes the configuration. -/
theorem Stepped.config_eq (h : Stepped s o call answer s' o') :
    s'.heap.config = s.heap.config := by
  cases h with
  | idle leases unserved =>
    rcases unserved with he | he
    · rw [he]
    · rw [he]
      rfl
  | served target leases served =>
    obtain ⟨asked, granted, hc⟩ := served.continues
    exact hc.config
  | freed target found leases freed => exact freed.continues.config
  | resized target found leases resized =>
    obtain ⟨asked, granted, hc⟩ := resized.continues
    exact hc.config
  | written writes target leases inUse heap =>
    rw [heap]
    rfl

/-! ### Steps on lists -/

/-- The heap realizes a state of the allocator whose blocks in use are the leased ones. -/
structure Realizes (s : Session) (m : Allocator) : Prop where
  heap : s.heap.Realizes m
  shows : s.Shows m.outline

/-- The call made the heap ask for more memory, and the provider refused it. -/
structure Denied (s : Session) (call : Call) (request : Nat) : Prop where
  asked : call.request? = some request
  refuses : s.heap.provider.Refuses (s.heap.growthFor request)
  failed : (s.step call).outcome =
    .ok (.error (.outOfMemory request), { s with heap := s.heap.afterRefusal })

/-- **A call does on the heap what it does on lists,** under unlimited terms, or it is denied. -/
theorem Realizes.step_cases (hr : s.Realizes m) (call : Call) :
    (∃ h', (s.step call).outcome =
        .ok ((m.call (.unlimited s.heap.config.chunk) (s.target call) call).1,
          ⟨h', leasesAfter s.leases call
            (m.call (.unlimited s.heap.config.chunk) (s.target call) call).1⟩) ∧
      h'.Realizes (m.call (.unlimited s.heap.config.chunk) (s.target call) call).2) ∨
    ∃ request, s.Denied call request := by
  have hlive := hr.shows.live_target call
  cases call with
  | allocate request =>
    rcases hr.heap.allocate_unlimited request with ⟨h', hok, hr'⟩ | ⟨hrefuses, hfailed⟩
    · exact .inl ⟨h', step_of_allocate hok, hr'⟩
    · exact .inr ⟨request, rfl, hrefuses, step_of_allocate hfailed⟩
  | free place =>
    obtain ⟨h', hok, hr'⟩ := hr.heap.free_live hlive
    exact .inl ⟨h', step_of_free hok, hr'⟩
  | reallocate place request =>
    rcases hr.heap.reallocate_unlimited hlive request with ⟨h', hok, hr'⟩ | ⟨hrefuses, hfailed⟩
    · exact .inl ⟨h', step_of_reallocate hok, hr'⟩
    · exact .inr ⟨request, rfl, hrefuses, step_of_reallocate hfailed⟩
  | write place first count value =>
    have hwrites : Call.Writes (.write place first count value) := trivial
    obtain ⟨h', hok, hk⟩ := hr.heap.shows.exists_write hlive hwrites
    refine .inl ⟨h', step_of_attempt hok hk.right, hk.right, hk.size_eq.trans hr.heap.size_eq, ?_⟩
    exact hk.continues.extensions.trans hr.heap.extensions_eq

/-- What it leaves is a state of the allocator again. -/
theorem Realizes.step (hr : s.Realizes m) (call : Call) :
    (∃ s', (s.step call).outcome =
        .ok ((m.call (.unlimited s.heap.config.chunk) (s.target call) call).1, s') ∧
      s'.Realizes (m.call (.unlimited s.heap.config.chunk) (s.target call) call).2 ∧
      s'.leases = leasesAfter s.leases call
        (m.call (.unlimited s.heap.config.chunk) (s.target call) call).1 ∧
      s'.heap.config = s.heap.config) ∨
    ∃ request, s.Denied call request := by
  rcases hr.step_cases call with ⟨h', hok, hr'⟩ | hdenied
  · obtain ⟨answer, s', o', hok', hstep⟩ := exists_step hr.shows call
    cases hok.symm.trans hok'
    exact .inl ⟨_, hok, ⟨hr', (hstep.shows hr.shows).of_heap hr'.shows⟩, rfl, hstep.config_eq⟩
  · exact .inr hdenied

/-! ### Two sessions -/

/-- Both sessions realize the same state of the allocator, but the second one does so many bytes
further on. -/
structure Displaced (k : Nat) (s t : Session) (m : Allocator) : Prop where
  left : s.Realizes m
  right : t.Realizes (m.shift k)
  leases_eq : t.leases = s.leases.map (·.shift k)
  chunk_eq : t.heap.config.chunk = s.heap.config.chunk

theorem handle?_shift (hleases : t.leases = s.leases.map (·.shift k)) (place : Nat) :
    t.handle? place = (s.handle? place).map (·.shift k) := by
  unfold handle? handles
  rw [hleases, List.getElem?_map, List.getElem?_map, List.getElem?_map, Option.map_map,
    Option.map_map]
  rfl

theorem target_shift (hleases : t.leases = s.leases.map (·.shift k)) (call : Call) :
    t.target call = (s.target call).map (·.shift k) := by
  cases call with
  | allocate request => rfl
  | free | reallocate | write => exact handle?_shift hleases _

/-- **One call** leaves them displaced, and so are its answers, unless it is denied to one of
them. -/
theorem Displaced.step (hd : s.Displaced k t m) (call : Call) :
    (∃ answer s' t', (s.step call).outcome = .ok (answer, s') ∧
      (t.step call).outcome = .ok (Answer.shift k answer, t') ∧ ∃ m', s'.Displaced k t' m') ∨
    ∃ request, s.Denied call request ∨ t.Denied call request := by
  rcases hd.left.step call with ⟨s', hok, hr, hleases, hconfig⟩ | ⟨request, hdenied⟩
  · rcases hd.right.step call with ⟨t', hok', hr', hleases', hconfig'⟩ | ⟨request, hdenied⟩
    · rw [hd.chunk_eq, target_shift hd.leases_eq, Allocator.call_shift] at hok' hr' hleases'
      refine .inl ⟨_, s', t', hok, hok', _, hr, hr', ?_, ?_⟩
      · rw [hleases', hd.leases_eq, leasesAfter_shift, hleases]
      · rw [hconfig', hconfig, hd.chunk_eq]
    · exact .inr ⟨request, .inr hdenied⟩
  · exact .inr ⟨request, .inl hdenied⟩

/-! ### What is to be seen -/

/-- What is to be seen of the second session is what is to be seen of the first one, so many bytes
further on: the live handles, the blocks and the free list, both in the same order, with the same
sizes and marks. The usable sizes, the count of extensions and what a check reports are the same,
but for the size of the region. -/
structure Shifted (s : Session) (k : Nat) (t : Session) : Prop where
  leases : t.leases = s.leases.map (·.shift k)
  blocks : ∃ blocks, s.heap.blocks = .ok blocks ∧ t.heap.blocks = .ok (blocks.map (·.shift k))
  freeBlocks : ∀ limit, ∃ free, s.heap.freeBlocks limit = .ok free ∧
    t.heap.freeBlocks limit = .ok (free.map (·.shift k))
  usableSize : ∀ b ∈ s.handles, ∃ size, (s.heap.usableSize b).outcome = .ok (.ok size) ∧
    (t.heap.usableSize (b.shift k)).outcome = .ok (.ok size)
  size : t.heap.size = s.heap.size + k
  extensions : t.heap.extensions = s.heap.extensions
  check : ∃ report, s.heap.check = .ok (.ok report) ∧
    t.heap.check = .ok (.ok { report with heapSize := report.heapSize + k })

/-- The report counts and sums up sizes, not places. -/
theorem ofBlocks_shift (size : Nat) (blocks : List BlockView) :
    Report.ofBlocks (size + k) (blocks.map (·.shift k)) =
      { Report.ofBlocks size blocks with heapSize := size + k } := by
  simp [Report.ofBlocks, List.filter_map, Function.comp_def]

/-- **Displaced sessions look displaced.** -/
theorem Displaced.shifted (hd : s.Displaced k t m) : s.Shifted k t := by
  have hs := hd.left.heap.shows
  have ht := hd.right.heap.shows
  have hsize : t.heap.size = s.heap.size + k := by
    rw [hd.right.heap.size_eq, hd.left.heap.size_eq]
    rfl
  refine ⟨hd.leases_eq, ⟨_, hs.blocks_shown, ht.blocks_shown⟩, fun limit =>
    ⟨_, hs.freeBlocks_shown limit, ?_⟩, fun b hb => ?_, hsize, ?_, ?_⟩
  · rw [ht.freeBlocks_shown]
    show Except.ok (((m.outline.free.map (·.shift k)).map fun b =>
      (⟨b.offset, (m.outline.shift k).sizeOf b, false⟩ : BlockView)).take limit) = _
    rw [List.map_take, List.map_map, List.map_map]
    refine congrArg (fun free => Except.ok (List.take limit free))
      (List.map_congr_left fun b _ => ?_)
    exact congrArg (BlockView.mk (b.offset + k) · false) (m.outline.sizeOf_shift b)
  · obtain ⟨v, hv, ha, rfl⟩ := hd.left.shows.exists_inUse hb
    exact ⟨v.size - 16, Heap.usableSize_allocated hs hv ha,
      Heap.usableSize_allocated ht (List.mem_map_of_mem hv) ha⟩
  · rw [hd.right.heap.extensions_eq, hd.left.heap.extensions_eq]
    rfl
  · refine ⟨_, hs.placed.check_ok_iff.mpr ⟨_, hs.sound, rfl⟩,
      ht.placed.check_ok_iff.mpr ⟨_, ht.sound, ?_⟩⟩
    rw [hsize]
    exact (ofBlocks_shift ..).symm

/-- The calls lead from the one session to `s` and from the other one to `t`, which looks the same
so many bytes further on, and so do the answers. -/
structure Parallel (s₀ t₀ : Session) (k : Nat) (calls : List Call) (s t : Session) : Prop where
  answers : ∃ answers, (s₀.run calls).outcome = .ok (answers, s) ∧
    (t₀.run calls).outcome = .ok (answers.map (Answer.shift k), t)
  shifted : s.Shifted k t

/-- **Calls in a row** lead on side by side, unless one of them is denied. -/
theorem Displaced.run (hd : s.Displaced k t m) (calls : List Call) :
    (∃ s' t', s.Parallel t k calls s' t') ∨
      ∃ front call back s' t' request, calls = front ++ call :: back ∧
        s.Parallel t k front s' t' ∧ (s'.Denied call request ∨ t'.Denied call request) := by
  have hstep : ∀ s t : Session, (∃ m, s.Displaced k t m) → ∀ call,
      (∃ answer s' t', (s.step call).outcome = .ok (answer, s') ∧
        (t.step call).outcome = .ok (Answer.shift k answer, t') ∧ ∃ m, s'.Displaced k t' m) ∨
      ∃ request, s.Denied call request ∨ t.Denied call request := by
    intro s t hrelated call
    obtain ⟨m, hd⟩ := hrelated
    exact hd.step call
  rcases run_lockstep hstep ⟨m, hd⟩ calls with
    ⟨answers, s', t', hrun, hrun', m', hd'⟩ |
    ⟨front, call, back, answers, s', t', heq, hrun, hrun', ⟨m', hd'⟩, request, hdenied⟩
  · exact .inl ⟨s', t', ⟨answers, hrun, hrun'⟩, hd'.shifted⟩
  · exact .inr ⟨front, call, back, s', t', request, heq, ⟨⟨answers, hrun, hrun'⟩, hd'.shifted⟩,
      hdenied⟩

/-! ### The start -/

/-- A session starts further on by as many bytes as the provider held, rounded up. -/
theorem start_displaced (hp : p.Valid) (hq : q.Valid) (hempty : q.region.size = 0)
    (hs₀ : (start q config).outcome = .ok (.ok s₀))
    (ht₀ : (start p config).outcome = .ok (.ok t₀)) :
    ∃ m, s₀.Displaced (Heap.startBehind p.region.size) t₀ m := by
  obtain ⟨hbuilt, hleases⟩ := built_of_start_ok hq hs₀
  obtain ⟨hbuilt', hleases'⟩ := built_of_start_ok hp ht₀
  have hzero : Heap.startBehind q.region.size = 0 := by rw [hempty, Heap.startBehind]
  have hsize := hbuilt.size_eq
  have hsize' := hbuilt'.size_eq
  have hfirst : t₀.heap.firstBlock =
      s₀.heap.firstBlock.shift (Heap.startBehind p.region.size) := by
    have hoff := hbuilt.firstBlock_eq
    have hoff' := hbuilt'.firstBlock_eq
    refine Block.ext ?_
    show t₀.heap.firstBlock.offset = s₀.heap.firstBlock.offset + _
    omega
  have hs := start_shows hq hs₀
  have ht := start_shows hp ht₀
  rw [hfirst] at ht
  refine ⟨⟨_, s₀.heap.size, 0⟩, ⟨⟨hs.heap, rfl, hbuilt.extensions_eq⟩, hs⟩,
    ⟨⟨ht.heap, ?_, hbuilt'.extensions_eq⟩, ht⟩, ?_, ?_⟩
  · show t₀.heap.size = s₀.heap.size + _
    omega
  · rw [hleases, hleases']
    rfl
  · rw [hbuilt.config_eq, hbuilt'.config_eq]

/-- **A heap does not depend on where it lies.** If the provider holds some bytes already, all that
is to be seen of the heap is what is to be seen of one in an empty region, as many bytes further on
as there were, rounded up to the alignment: the same calls succeed, in the same way, up to a call
for which the provider of one of them refuses memory. -/
theorem run_shifted (hp : p.Valid) (hq : q.Valid) (hempty : q.region.size = 0)
    (hs₀ : (start q config).outcome = .ok (.ok s₀)) (ht₀ : (start p config).outcome = .ok (.ok t₀))
    (calls : List Call) :
    (∃ s t, s₀.Parallel t₀ (Heap.startBehind p.region.size) calls s t) ∨
      ∃ front call back s t request, calls = front ++ call :: back ∧
        s₀.Parallel t₀ (Heap.startBehind p.region.size) front s t ∧
        (s.Denied call request ∨ t.Denied call request) := by
  obtain ⟨m, hd⟩ := start_displaced hp hq hempty hs₀ ht₀
  exact hd.run calls

/-- Behind 13 bytes, for instance, it lies 16 bytes further on. -/
theorem run_shifted_behind : ∃ p s₀ t₀,
    ((Provider.buffer 4096).extend 13).outcome = .ok (.ok 0, p) ∧
    (start (.buffer 4096) .default).outcome = .ok (.ok s₀) ∧
    (start p .default).outcome = .ok (.ok t₀) ∧
    ∀ calls, (∃ s t, s₀.Parallel t₀ 16 calls s t) ∨
      ∃ front call back s t request, calls = front ++ call :: back ∧
        s₀.Parallel t₀ 16 front s t ∧ (s.Denied call request ∨ t.Denied call request) := by
  obtain ⟨hq, s₀, hs₀⟩ := exists_start_page
  have hgranted := Provider.extend_granted (show (Provider.buffer 4096).Grants 13 by decide)
  have hp := hq.extend hgranted
  obtain ⟨t₀, ht₀⟩ := exists_start hp (Word.lt_limit (by decide)) .default (by decide)
  exact ⟨_, s₀, t₀, hgranted, hs₀, ht₀, run_shifted hp hq rfl hs₀ ht₀⟩

end Session

end BoundaryTag
