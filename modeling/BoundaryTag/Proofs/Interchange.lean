import BoundaryTag.Proofs.Failures
import BoundaryTag.Proofs.Observations
import BoundaryTag.Proofs.Logging

/-!
# Providers can be exchanged

All that a heap learns from its provider is whether a request is granted. Two heaps that
consist of the same, their providers apart, therefore stay the same as long as both providers
grant and refuse alike (`likeness_contents`, `meets_of_grants`), and requests are made only
where no free block fits and no block can be resized where it lies. So when two runs diverge, it
is at such a request, which one provider grants and the other refuses (`OnlyFirstGrows`).

> `attempt_alikeOrOneGrows`: one call on two heaps that consist of the same.
>
> `run_interchangeable`: calls on heaps that are built on different providers.
-/

namespace BoundaryTag

open BlockView (block)
open Traced (Ends Tied)

namespace Heap

variable {h k h' k' : Heap} {o : Outline} {b : Block} {n needed bytes : Nat} {v : BlockView}
  {α β : Type}

/-! ## Providers that agree -/

/-- What a heap consists of, its provider apart, is all that it goes by. -/
theorem likeness_contents : Likeness fun h k => k.contents = h.contents where
  arena hk := congrArg (fun c : Contents => Arena.mk c.region c.freeList) hk
  prologue hk := congrArg Contents.prologue hk
  chunk hk := congrArg (fun c : Contents => c.config.chunk) hk
  extensions hk := congrArg Contents.extensions hk
  withArena hk a := congrArg
    (fun c : Contents => { c with region := a.region, freeList := a.freeList }) hk
  grown hk n := congrArg (fun c : Contents => { c with extensions := n }) hk

/-- A request goes the same way with two providers that both grant it or both refuse it. -/
theorem meets_of_grants (hk : k.contents = h.contents)
    (hgrants : h.provider.Grants bytes ↔ k.provider.Grants bytes) :
    Meets False (fun h k => k.contents = h.contents) bytes h k := by
  have hregion : k.provider.region = h.provider.region := congrArg Contents.region hk
  refine ⟨?_, False.elim⟩
  by_cases hg : h.provider.Grants bytes
  · rw [Provider.extend_granted hg, Provider.extend_granted (hgrants.mp hg), hregion]
    refine .ok ⟨.ok _, ?_⟩
    exact congrArg (fun c : Contents => { c with region := h.provider.region.grow bytes }) hk
  · obtain ⟨cause, hrefused⟩ := Provider.extend_refused hg
    obtain ⟨cause', hrefused'⟩ := Provider.extend_refused (mt hgrants.mpr hg)
    rw [hrefused, hrefused']
    exact .ok ⟨.error False.elim, hk⟩

/-- What a heap consists of says which outline it shows. -/
theorem Shows.of_contents {o' : Outline} (hs : h.Shows o) (ht : k.Shows o')
    (hk : k.contents = h.contents) : k.Shows o := by
  have hfirst : k.firstBlock = h.firstBlock :=
    congrArg (fun c : Contents => Block.mk (c.prologue.offset + overhead)) hk
  refine ⟨?_, ht.valid, ht.chunk, ht.counted⟩
  rw [likeness_contents.arena hk, hfirst]
  exact hs.sound

/-! ## Providers that do not -/

/-- The bytes that a heap asks for if no free block serves a request. -/
def growthFor (h : Heap) (request : Nat) : Nat := max (leastSpan request) h.config.chunk

/-- Both heaps ask for the same bytes. The first one is granted them and grows by them, and the
second one is refused them and stays as it is. -/
structure OnlyFirstGrows (h k : Heap) (x y : Except Fault (Except AllocError α × Heap))
    (request : Nat) : Prop where
  same : k.growthFor request = h.growthFor request
  grants : h.provider.Grants (h.growthFor request)
  grown : ∃ a h' o', x = .ok (.ok a, h') ∧ h.Continues h' 1 1 ∧
    h'.size = h.size + h.growthFor request ∧ h'.Shows o'
  refuses : ¬ k.provider.Grants (k.growthFor request)
  failed : y = .ok (.error (.outOfMemory request), k.afterRefusal)

/-- Whatever is made of the answer. -/
theorem OnlyFirstGrows.map {x y : Traced (Except AllocError α × Heap)} {request : Nat}
    (hxy : OnlyFirstGrows h k x.outcome y.outcome request) (f : α → β) :
    OnlyFirstGrows h k (Prod.map (·.map f) id <$> x).outcome (Prod.map (·.map f) id <$> y).outcome
      request := by
  obtain ⟨hsame, hgrants, ⟨a, h₁, o₁, hok, hgrown⟩, hrefuses, hfailed⟩ := hxy
  exact ⟨hsame, hgrants, ⟨f a, h₁, o₁, Traced.map_ok_iff.mpr ⟨_, hok, rfl⟩, hgrown⟩, hrefuses,
    Traced.map_ok_iff.mpr ⟨_, hfailed, rfl⟩⟩

/-- The computations end alike, or one of the heaps grows for a request and the other one does
not. -/
def AlikeOrOneGrows (h k : Heap) (x y : Except Fault (Except AllocError α × Heap))
    (request : Option Nat) : Prop :=
  Ends (Alike fun h k => k.contents = h.contents) x y ∨
    ∃ n ∈ request, OnlyFirstGrows h k x y n ∨ OnlyFirstGrows k h y x n

/-- Whatever is made of the answers. -/
theorem AlikeOrOneGrows.map {x y : Traced (Except AllocError α × Heap)} {request : Option Nat}
    (hxy : AlikeOrOneGrows h k x.outcome y.outcome request) (f : α → β) :
    AlikeOrOneGrows h k (Prod.map (·.map f) id <$> x).outcome (Prod.map (·.map f) id <$> y).outcome
      request := by
  rcases hxy with hends | ⟨n, hn, hgrows | hgrows⟩
  · refine .inl ?_
    rw [map_eq_pure_bind, map_eq_pure_bind, Traced.outcome_bind, Traced.outcome_bind]
    exact hends.bind fun _ _ hab => .ok ⟨congrArg (·.map f) hab.1, hab.2⟩
  · exact .inr ⟨n, hn, .inl (hgrows.map f)⟩
  · exact .inr ⟨n, hn, .inr (hgrows.map f)⟩

/-- No free block serves the request, and only the first of the two providers would grant more
memory for it. -/
structure OnlyFirstGrants (h k : Heap) (o : Outline) (n needed : Nat) : Prop where
  sized : blockSizeFor? n = some needed
  unfit : o.firstFit needed = none
  grants : h.provider.Grants (h.growthFor n)
  refuses : ¬ k.provider.Grants (k.growthFor n)

/-- Either the providers make no difference to an allocation, or only one of them grants the memory
for it. -/
theorem supplies_or_onlyFirstGrants (hs : h.Shows o) (hk : k.contents = h.contents) (n : Nat) :
    Supplies False (fun h k => k.contents = h.contents) n h k ∨
      ∃ needed, OnlyFirstGrants h k o n needed ∨ OnlyFirstGrants k h o n needed := by
  have hchunk : k.config = h.config := congrArg Contents.config hk
  have hsame : k.growthFor n = h.growthFor n := by
    unfold growthFor
    rw [hchunk]
  by_cases hgrants : h.provider.Grants (h.growthFor n) ↔ k.provider.Grants (h.growthFor n)
  · refine .inl fun needed hn _ => ?_
    rw [← (blockSizeFor?_eq_some_iff.mp hn).2]
    exact meets_of_grants hk hgrants
  · cases hn : blockSizeFor? n with
    | none => exact .inl fun needed hsome => by rw [hn] at hsome; cases hsome
    | some needed =>
      cases hf : o.firstFit needed with
      | some b =>
        refine .inl fun needed' hsome hunfit => ?_
        cases hn.symm.trans hsome
        rw [hs.firstFit?_eq, hf] at hunfit
        cases hunfit
      | none =>
        refine .inr ⟨needed, ?_⟩
        by_cases hg : h.provider.Grants (h.growthFor n)
        · refine .inl ⟨hn, hf, hg, fun hg' => hgrants ?_⟩
          exact iff_of_true hg (hsame ▸ hg')
        · refine .inr ⟨hn, hf, ?_, hg⟩
          by_contra hg'
          exact hgrants (iff_of_false hg (hsame ▸ hg'))

/-- What then becomes of an allocation on both sides. -/
theorem OnlyFirstGrants.exists_allocateBlock (hs : h.Shows o) (ht : k.Shows o)
    (hone : OnlyFirstGrants h k o n needed) :
    ∃ w h' o', (h.allocateBlock n).outcome = .ok (.ok w.block, h') ∧ h.Continues h' 1 1 ∧
      h'.size = h.size + h.growthFor n ∧ Served h h' o o' needed w ∧
      (k.allocateBlock n).outcome = .ok (.error (.outOfMemory n), k.afterRefusal) := by
  obtain ⟨hn, hf, hg, hg'⟩ := hone
  have hneeded := (blockSizeFor?_eq_some_iff.mp hn).2
  unfold growthFor at hg hg' ⊢
  rw [hneeded] at hg hg' ⊢
  obtain ⟨h', hok, hc, hsize, hserved⟩ := allocateBlock_grow hs hn hf rfl hg
  exact ⟨⟨_, _, true⟩, h', _, hok, hc, hsize, hserved, allocateBlock_refused ht hn hf hg'⟩

section

variable (hs : h.Shows o) (ht : k.Shows o) (hk : k.contents = h.contents)

include hs ht hk

/-- Then only the first heap grows for an allocation. -/
theorem OnlyFirstGrants.allocateBlock (hone : OnlyFirstGrants h k o n needed) :
    OnlyFirstGrows h k (h.allocateBlock n).outcome (k.allocateBlock n).outcome n := by
  obtain ⟨w, h', o', hok, hc, hsize, hserved, hfailed⟩ := hone.exists_allocateBlock hs ht
  have hchunk : k.config = h.config := congrArg Contents.config hk
  refine ⟨?_, hone.grants, ⟨_, h', o', hok, hc, hsize, hserved.shows⟩, hone.refuses, hfailed⟩
  unfold growthFor
  rw [hchunk]

/-- Nor does the second one for moving a block. -/
theorem OnlyFirstGrants.relocate (hone : OnlyFirstGrants h k o n needed) (hv : v ∈ o.blocks)
    (ha : v.allocated = true) :
    OnlyFirstGrows h k (h.relocate v.block n).outcome (k.relocate v.block n).outcome n := by
  obtain ⟨w, h₁, o₁, hok, hc, hsize, hserved, hfailed⟩ := hone.exists_allocateBlock hs ht
  obtain ⟨h', hmoved, hc', hsize', -, hresized⟩ := relocate_served hs hserved hv ha hok
  have hchunk : k.config = h.config := congrArg Contents.config hk
  refine ⟨?_, hone.grants, ⟨_, h', _, hmoved, hc.trans hc', hsize'.trans hsize, hresized.shows⟩,
    hone.refuses, relocate_of_error hfailed⟩
  unfold growthFor
  rw [hchunk]

/-! ## One call -/

/-- An allocation asks for memory at most once. -/
theorem allocateBlock_alikeOrOneGrows (n : Nat) :
    AlikeOrOneGrows h k (h.allocateBlock n).outcome (k.allocateBlock n).outcome (some n) := by
  rcases supplies_or_onlyFirstGrants hs hk n with hsupplies | ⟨needed, hone | hone⟩
  · exact .inl (likeness_contents.allocateBlock hk hsupplies).ends
  · exact .inr ⟨n, rfl, .inl (hone.allocateBlock hs ht hk)⟩
  · exact .inr ⟨n, rfl, .inr (hone.allocateBlock ht hs hk.symm)⟩

theorem relocate_alikeOrOneGrows (hv : v ∈ o.blocks) (ha : v.allocated = true) (n : Nat) :
    AlikeOrOneGrows h k (h.relocate v.block n).outcome (k.relocate v.block n).outcome (some n) := by
  rcases supplies_or_onlyFirstGrants hs hk n with hsupplies | ⟨needed, hone | hone⟩
  · exact .inl (likeness_contents.relocate hk hsupplies).ends
  · exact .inr ⟨n, rfl, .inl (hone.relocate hs ht hk hv ha)⟩
  · exact .inr ⟨n, rfl, .inr (hone.relocate ht hs hk.symm hv ha)⟩

/-- Where a block can be resized where it lies, no provider is asked. -/
theorem resize_alikeOrOneGrows (hv : v ∈ o.blocks) (ha : v.allocated = true) (needed n : Nat) :
    AlikeOrOneGrows h k (h.resize v.block needed n).outcome (k.resize v.block needed n).outcome
      (some n) := by
  rw [hs.resize_outcome hv, ht.resize_outcome hv]
  split
  · by_cases hb : (o.tagBehind v.block).allocated = false ∧
        needed ≤ v.size + (o.tagBehind v.block).size
    · rw [hs.lengthen_outcome hv, ht.lengthen_outcome hv, if_pos hb, if_pos hb,
        likeness_contents.arena hk]
      exact .inl (.same _ fun _ => .same _ fun a => .ok ⟨rfl, likeness_contents.withArena hk a⟩)
    · rw [lengthen_relocate hs hv hb, lengthen_relocate ht hv hb]
      exact relocate_alikeOrOneGrows hs ht hk hv ha n
  · have hshrunk : Tied False _ _ _ := likeness_contents.shrink hk v.block v.size needed
    exact .inl (hshrunk.ends.bind fun _ _ hk' => .ok ⟨rfl, hk'⟩)

theorem alter_alikeOrOneGrows (hv : v ∈ o.blocks) (ha : v.allocated = true) (n : Nat) :
    AlikeOrOneGrows h k (h.alter v.block n).outcome (k.alter v.block n).outcome (some n) := by
  unfold Heap.alter
  rw [Traced.outcome_bind, bind_of_ok (hs.resolve_allocated hv ha), Traced.outcome_bind,
    bind_of_ok (ht.resolve_allocated hv ha)]
  dsimp only
  cases blockSizeFor? n with
  | none => exact .inl (.ok ⟨rfl, hk⟩)
  | some needed => exact resize_alikeOrOneGrows hs ht hk hv ha needed n

/-- **A call** has the same answer on both sides and leaves the same, unless it makes both heaps
ask for memory and only one of them grows. -/
theorem attempt_alikeOrOneGrows {target : Option Handle} (hlive : Live o target) (call : Call) :
    AlikeOrOneGrows h k (h.attempt target call).outcome (k.attempt target call).outcome
      call.request? := by
  cases call with
  | allocate request => exact (allocateBlock_alikeOrOneGrows hs ht hk request).map some
  | free place =>
    have htied : Tied False _ _ _ := likeness_contents.attempt hk target (.free place) nofun
    exact .inl htied.ends
  | reallocate place request =>
    cases target with
    | none => exact (allocateBlock_alikeOrOneGrows hs ht hk request).map some
    | some b =>
      obtain ⟨v, hv, ha, rfl⟩ := hlive b rfl
      unfold Heap.attempt
      dsimp only [Option.elim]
      split
      · have htied : Tied False _ _ _ := likeness_contents.vacate hk v.block
        have hfreed : AlikeOrOneGrows h k (h.vacate v.block).outcome (k.vacate v.block).outcome
          (some request) := .inl htied.ends
        exact hfreed.map fun _ => none
      · exact (alter_alikeOrOneGrows hs ht hk hv ha request).map some
  | write place first count value =>
    have htied : Tied False _ _ _ :=
      likeness_contents.attempt hk target (.write place first count value) nofun
    exact .inl htied.ends

end

/-! ## The start -/

/-- What a heap consists of that was built on a provider is determined by the bytes that the
provider held. -/
theorem build_contents {p : Provider} {config : Config}
    (hok : (build p config).outcome = .ok (.ok h)) :
    ∃ start laid, Word.add p.region.size (startBehind p.region.size - p.region.size) = .ok start ∧
      (layOut (p.region.grow (bytesToBuild p.region.size)) start).outcome = .ok laid ∧
      h.contents = ⟨laid.2.2.region, laid.2.2.freeList, 0, config.normalized, laid.1⟩ := by
  have hsize := size_lt_of_build_ok hok
  by_cases hg : p.Grants (bytesToBuild p.region.size)
  · rw [build_outcome hsize, bind_of_ok (Provider.extend_granted hg)] at hok
    dsimp only at hok
    obtain ⟨start, hstart, hok⟩ := bind_ok_iff.mp hok
    obtain ⟨laid, hlaid, hok⟩ := bind_ok_iff.mp hok
    obtain ⟨_, -, hok⟩ := bind_ok_iff.mp hok
    cases hok
    exact ⟨start, laid, hstart, hlaid, rfl⟩
  · obtain ⟨cause, hrefused⟩ := build_refused hsize config hg
    rw [hrefused] at hok
    cases hok

/-- On the same bytes the same heap is built. -/
theorem build_contents_eq {p q : Provider} {config : Config} (hregion : q.region = p.region)
    (hok : (build p config).outcome = .ok (.ok h))
    (hok' : (build q config).outcome = .ok (.ok k)) : k.contents = h.contents := by
  obtain ⟨start, laid, hstart, hlaid, hh⟩ := build_contents hok
  obtain ⟨start', laid', hstart', hlaid', hk⟩ := build_contents hok'
  rw [hregion] at hstart' hlaid'
  cases hstart.symm.trans hstart'
  cases hlaid.symm.trans hlaid'
  rw [hh, hk]

end Heap

namespace Session

variable {s t s' t' s₀ t₀ : Session} {o : Outline} {call : Call} {p q : Provider} {config : Config}

/-- The sessions hold the same leases, and their heaps consist of the same, to the last byte. -/
structure SameContents (s t : Session) : Prop where
  contents_eq : t.heap.contents = s.heap.contents
  leases_eq : t.leases = s.leases

/-- At this call both heaps ask for the same bytes. The first one is granted them and grows by
them, and the second one is refused them and stays as it is. -/
structure Diverge (s t : Session) (call : Call) (request : Nat) : Prop where
  asked : call.request? = some request
  same : t.heap.growthFor request = s.heap.growthFor request
  grants : s.heap.provider.Grants (s.heap.growthFor request)
  grown : ∃ handle s', (s.step call).outcome = .ok (.ok handle, s') ∧
    s.heap.Continues s'.heap 1 1 ∧ s'.heap.size = s.heap.size + s.heap.growthFor request
  refuses : ¬ t.heap.provider.Grants (t.heap.growthFor request)
  failed : (t.step call).outcome =
    .ok (.error (.outOfMemory request), { t with heap := t.heap.afterRefusal })

/-- The calls have the same answers in both sessions, and lead to the same contents. -/
structure RunAlike (s t : Session) (calls : List Call) (s' t' : Session) : Prop where
  answers : ∃ answers, (s.run calls).outcome = .ok (answers, s') ∧
    (t.run calls).outcome = .ok (answers, t')
  sameContents : s'.SameContents t'

/-- An attempt is followed by a check that finds nothing. -/
theorem step_of_attempt {answer : Answer} {h' : Heap}
    (hok : (s.heap.attempt (s.target call) call).outcome = .ok (answer, h')) (hs' : h'.Shows o) :
    (s.step call).outcome = .ok (answer, ⟨h', leasesAfter s.leases call answer⟩) :=
  step_ok_iff.mpr ⟨h', hok, hs'.audit_ok _ _, rfl⟩

/-- Where only one heap grows, the sessions diverge. -/
theorem diverge_of_onlyFirstGrows {request : Nat} (ht : t.Shows o)
    (htarget : t.target call = s.target call) (hrequest : call.request? = some request)
    (hgrows : s.heap.OnlyFirstGrows t.heap (s.heap.attempt (s.target call) call).outcome
      (t.heap.attempt (s.target call) call).outcome request) : s.Diverge t call request := by
  obtain ⟨hsame, hgrants, ⟨handle, h', o', hok, hc, hsize, hs'⟩, hrefuses, hfailed⟩ := hgrows
  rw [← htarget] at hfailed
  have hleases : leasesAfter t.leases call (.error (.outOfMemory request)) = t.leases := by
    cases call <;> rfl
  refine ⟨hrequest, hsame, hgrants, ⟨handle, _, step_of_attempt hok hs', hc, hsize⟩, hrefuses, ?_⟩
  rw [step_of_attempt hfailed ht.heap.afterRefusal, hleases]

/-- **One call** leads from the same contents to the same contents, unless the sessions diverge at
it. -/
theorem SameContents.step (hs : s.Shows o) (ht : t.Shows o) (hpair : s.SameContents t)
    (call : Call) :
    (∃ answer s' t', (s.step call).outcome = .ok (answer, s') ∧
      (t.step call).outcome = .ok (answer, t') ∧
        ∃ o', s'.Shows o' ∧ t'.Shows o' ∧ s'.SameContents t') ∨
    ∃ request, s.Diverge t call request ∨ t.Diverge s call request := by
  have htarget := target_eq_of_leases hpair.leases_eq call
  have hcall := Heap.attempt_alikeOrOneGrows hs.heap ht.heap hpair.contents_eq
    (hs.live_target call) call
  rcases hcall with hends | ⟨request, hrequest, hgrows | hgrows⟩
  · obtain ⟨answer, h', o', hok, hs'⟩ := hs.exists_attempt call
    obtain ⟨answer', k', o₂, hok', ht'⟩ := ht.exists_attempt call
    rw [hok, ← htarget, hok'] at hends
    cases hends with
    | ok hab =>
      obtain ⟨hsame, hcontents⟩ := hab
      cases hsame
      refine .inl ⟨answer, _, _, step_of_attempt hok hs'.heap, step_of_attempt hok' ht'.heap, o',
        hs', ht'.of_heap (hs'.heap.of_contents ht'.heap hcontents), hcontents, ?_⟩
      dsimp only
      rw [hpair.leases_eq]
  · exact .inr ⟨request, .inl (diverge_of_onlyFirstGrows ht htarget hrequest hgrows)⟩
  · rw [← htarget] at hgrows
    exact .inr ⟨request, .inr (diverge_of_onlyFirstGrows hs htarget.symm hrequest hgrows)⟩

/-- **Calls in a row** lead from the same contents to the same contents, unless the sessions diverge
at one of them. -/
theorem SameContents.run (hs : s.Shows o) (ht : t.Shows o) (hpair : s.SameContents t)
    (calls : List Call) :
    (∃ s' t', s.RunAlike t calls s' t') ∨
      ∃ front call back s' t' request, calls = front ++ call :: back ∧
        s.RunAlike t front s' t' ∧ (s'.Diverge t' call request ∨ t'.Diverge s' call request) := by
  have hstep : ∀ s t : Session, (∃ o, s.Shows o ∧ t.Shows o ∧ s.SameContents t) → ∀ call,
      (∃ answer s' t', (s.step call).outcome = .ok (answer, s') ∧
        (t.step call).outcome = .ok (id answer, t') ∧
          ∃ o, s'.Shows o ∧ t'.Shows o ∧ s'.SameContents t') ∨
      ∃ request, s.Diverge t call request ∨ t.Diverge s call request := by
    intro s t hrelated call
    obtain ⟨o, hs, ht, hpair⟩ := hrelated
    exact hpair.step hs ht call
  rcases run_lockstep hstep ⟨o, hs, ht, hpair⟩ calls with
    ⟨answers, s', t', hrun, hrun', -, -, -, hpair'⟩ |
    ⟨front, call, back, answers, s', t', heq, hrun, hrun', ⟨-, -, -, hpair'⟩, request, hdiverge⟩
  · rw [List.map_id] at hrun'
    exact .inl ⟨s', t', ⟨answers, hrun, hrun'⟩, hpair'⟩
  · rw [List.map_id] at hrun'
    exact .inr ⟨front, call, back, s', t', request, heq, ⟨⟨answers, hrun, hrun'⟩, hpair'⟩,
      hdiverge⟩

/-- **A heap does not depend on its provider** beyond what it is granted. Two providers that
hold the same bytes may differ in all else, such as what backs them, their capacities, and
the requests that the system refuses them. On heaps built on them all calls have the same answers
and leave the same bytes, the same free list and the same count of extensions, up to a call
at which both heaps ask for the same memory and only one is granted it. -/
theorem run_interchangeable (hp : p.Valid) (hq : q.Valid) (hregion : q.region = p.region)
    (hs₀ : (start p config).outcome = .ok (.ok s₀))
    (ht₀ : (start q config).outcome = .ok (.ok t₀)) (calls : List Call) :
    (∃ s t, s₀.RunAlike t₀ calls s t) ∨
      ∃ front call back s t request, calls = front ++ call :: back ∧ s₀.RunAlike t₀ front s t ∧
        (s.Diverge t call request ∨ t.Diverge s call request) := by
  obtain ⟨hbuild, hleases⟩ := build_of_start_ok hs₀
  obtain ⟨hbuild', hleases'⟩ := build_of_start_ok ht₀
  have hpair : s₀.SameContents t₀ :=
    ⟨Heap.build_contents_eq hregion hbuild hbuild', hleases'.trans hleases.symm⟩
  have hs := start_shows hp hs₀
  have ht := start_shows hq ht₀
  exact hpair.run hs (ht.of_heap (hs.heap.of_contents ht.heap hpair.contents_eq)) calls

/-- A buffer of 5000 bytes and a mapping of two pages, for instance, of which 100 bytes are in
use already. -/
theorem run_interchangeable_backings : ∃ m p q s₀ t₀, Provider.mapping 8192 = .ok (.ok m) ∧
    ((Provider.buffer 5000).extend 100).outcome = .ok (.ok 0, p) ∧
    (m.extend 100).outcome = .ok (.ok 0, q) ∧
    (start p .default).outcome = .ok (.ok s₀) ∧ (start q .default).outcome = .ok (.ok t₀) ∧
    ∀ calls, (∃ s t, s₀.RunAlike t₀ calls s t) ∨
      ∃ front call back s t request, calls = front ++ call :: back ∧ s₀.RunAlike t₀ front s t ∧
        (s.Diverge t call request ∨ t.Diverge s call request) := by
  have hm : Provider.mapping 8192 =
      .ok (.ok { Provider.buffer 8192 with backing := .mapping }) := by
    have hsum : max 8192 1 + Host.usual.pageSize < Word.limit := Word.lt_limit (by decide)
    exact (Provider.reserve_ok_iff Host.usual_documented).mpr ⟨hsum, rfl, rfl⟩
  have hgranted := Provider.extend_granted (show (Provider.buffer 5000).Grants 100 by decide)
  have hgranted' := Provider.extend_granted
    (show Provider.Grants { Provider.buffer 8192 with backing := .mapping } 100 by decide)
  have hp := (Provider.valid_buffer (Word.lt_limit (by decide))).extend hgranted
  have hq := (Provider.valid_reserve Host.usual_documented hm).extend hgranted'
  have hstart : ∀ p : Provider, p.Valid → p.region.size = 100 → p.refusal = (fun _ => none) →
      5000 ≤ p.capacity → ∃ s, (start p .default).outcome = .ok (.ok s) := by
    intro p hp hsize hrefusal hcapacity
    refine exists_start hp (by rw [hsize, Word.limit_eq]; decide) .default ⟨by rw [hrefusal], ?_⟩
    rw [hsize]
    show 68 ≤ p.capacity - p.region.size
    omega
  obtain ⟨s₀, hs₀⟩ := hstart _ hp (Region.size_grow ..) rfl (Nat.le_refl _)
  obtain ⟨t₀, ht₀⟩ := hstart _ hq (Region.size_grow ..) rfl (by simp [Provider.buffer])
  exact ⟨_, _, _, s₀, t₀, hm, hgranted, hgranted', hs₀, ht₀,
    run_interchangeable hp hq rfl hs₀ ht₀⟩

end Session

end BoundaryTag
