import BoundaryTag.Heap.Operation
import BoundaryTag.Proofs.Likeness
import BoundaryTag.Proofs.Resizing

/-!
# Failures are without consequence

An operation that answers with an error has changed nothing, except that the provider may
have counted a request that it refused. What the count is used for is only which requests
the system refuses. So that the failure leaves no trace in what comes later is a matter of
renumbering: the heap after a refusal is the heap before, with one more request in front of
all that are still to come (`afterRefusal_eq_renumbered`), and every operation commutes with
that (`perform_renumbered`).

> `performAll_renumbered`: whatever is asked of a renumbered heap, the replies and the log
> are those of the heap itself.
>
> `failsCleanly`: an error of `allocate`, `free` or `reallocate` is of the kind that the
> operation has, and everything later is as if the operation had not been tried.
-/

namespace BoundaryTag

open Traced (Tied)

/-! ## Requests are numbered -/

namespace Provider

/-- The provider with one more request before all that are still to come. -/
def renumbered (p : Provider) : Provider :=
  { p with requests := p.requests + 1, refusal := fun i => p.refusal (i - 1) }

/-- A request goes the same way, if the provider does not look at how many there were. -/
theorem extend_renumbered (p : Provider) (bytes : Nat) :
    p.renumbered.extend bytes = Prod.map id renumbered <$> p.extend bytes :=
  extend_map (g := renumbered) (fun _ => rfl) (fun _ => ⟨rfl, rfl, rfl⟩) (fun _ => rfl)
    (fun _ _ => rfl) p bytes

end Provider

namespace Heap

/-- The heap with its provider renumbered. -/
def renumbered (h : Heap) : Heap := { h with provider := h.provider.renumbered }

/-- After a refusal by a steady provider the heap is no more than renumbered. -/
theorem afterRefusal_eq_renumbered {h : Heap} (hp : h.provider.Steady) :
    h.afterRefusal = h.renumbered := by
  have hrefusal : (fun i => h.provider.refusal (i - 1)) = h.provider.refusal :=
    funext fun i => hp (i - 1) i
  unfold renumbered Provider.renumbered
  rw [hrefusal]
  rfl

/-- A computation with the heap it ends in renumbered. -/
def renumber {α : Type} (x : Traced (α × Heap)) : Traced (α × Heap) :=
  Prod.map id renumbered <$> x

variable {α β : Type}

/-- What follows an operation sees the heap that was asked again; what is asked again at the end of
a computation may be so at the end of its last step (`renumber_bind`). -/
theorem bind_renumber (x : Traced (α × Heap)) (f : α × Heap → Traced β) :
    renumber x >>= f = x >>= fun a => f (a.1, a.2.renumbered) :=
  bind_map_left ..

theorem renumber_bind (x : Traced α) (f : α → Traced (β × Heap)) :
    renumber (x >>= f) = x >>= fun a => renumber (f a) :=
  map_bind ..

theorem map_renumber (f : α → β) (x : Traced (α × Heap)) :
    Prod.map f id <$> renumber x = renumber (Prod.map f id <$> x) := by
  unfold renumber
  rw [Functor.map_map, Functor.map_map]
  rfl

/-- Questions leave the heap as it is. -/
theorem renumber_query (wrap : α → β) (h : Heap) (x : Traced α) :
    (wrap ·, h.renumbered) <$> x = renumber ((wrap ·, h) <$> x) := by
  unfold renumber
  rw [Functor.map_map]
  rfl

/-! ## Operations commute with renumbering

A renumbered heap is like the heap itself, and its provider grants and refuses as before. The
judgements of a heap, its verdict on a handle or its check, do not look at the provider beyond
the region and its bounds, so they are the same by definition. -/

/-- Only the count of requests is another one, which no operation looks at. -/
theorem likeness_renumbered : Likeness fun h k => k = h.renumbered :=
  likeness_map (fun _ => rfl) (fun _ => rfl) (fun _ => rfl) (fun _ => rfl) (fun _ _ => rfl)
    fun _ _ => rfl

theorem checks_renumbered : Likeness.Checks True fun h k => k = h.renumbered := by
  intro h k hk operation
  subst hk
  exact .refl (h.selfCheck operation)

theorem supplies_renumbered (h : Heap) (request : Nat) :
    Supplies True (fun h k => k = h.renumbered) request h h.renumbered :=
  fun _ _ _ => meets_map (f := renumbered) (fun _ _ => rfl) Provider.extend_renumbered True _ h

/-- Whatever reply is made of the answer. -/
theorem map_eq_renumber {x y : Traced (α × Heap)}
    (h : Tied True (Alike fun h k => k = h.renumbered) x y) (reply : α → β) :
    Prod.map reply id <$> y = renumber (Prod.map reply id <$> x) := by
  rw [eq_map_of_tied h]
  exact map_renumber reply x

/-- **Every operation** goes as it would have gone, and leaves the heap renumbered. -/
theorem perform_renumbered (h : Heap) (operation : Operation) :
    h.renumbered.perform operation = renumber (h.perform operation) := by
  have hR := likeness_renumbered
  cases operation with
  | allocate request =>
    exact map_eq_renumber (hR.allocate checks_renumbered rfl (supplies_renumbered h request)) _
  | free handle => exact map_eq_renumber (hR.free checks_renumbered rfl handle) _
  | reallocate handle request =>
    exact map_eq_renumber
      (hR.reallocate checks_renumbered rfl handle (supplies_renumbered h request)) _
  | fill handle first count value => exact map_eq_renumber (hR.fill rfl handle first count value) _
  | storeWord handle first value => exact map_eq_renumber (hR.storeWord rfl handle first value) _
  -- queries leave the heap as it is, and do not look at the numbers
  | usableSize | payload | blocks | freeBlocks | check | describe => exact renumber_query _ h _

/-- **The numbers of requests are for the system alone:** what is asked of a renumbered heap
gets the same replies, with the same log, and ends in the same heap, renumbered. -/
theorem performAll_renumbered (h : Heap) (operations : List Operation) :
    h.renumbered.performAll operations = renumber (h.performAll operations) := by
  induction operations generalizing h with
  | nil => rfl
  | cons operation operations ih =>
    rw [performAll, performAll, perform_renumbered, bind_renumber, renumber_bind]
    refine bind_congr fun reply => ?_
    dsimp only
    rw [ih, bind_renumber, renumber_bind]
    rfl

/-! ## What can be learned of a heap -/

/-- What a heap consists of, its provider apart. -/
structure Contents where
  region : Region
  freeList : FreeList
  extensions : Nat
  config : Config
  prologue : Block

/-- The contents of a heap. -/
def contents (h : Heap) : Contents :=
  ⟨h.region, h.freeList, h.extensions, h.config, h.prologue⟩

/-- What can be learned of a heap by operations in a row: the replies, the log, whether there
was a fault, and in the end every byte. -/
def transcript (h : Heap) (operations : List Operation) : Traced (List Reply × Contents) :=
  Prod.map id contents <$> h.performAll operations

/-- The heap is as it was: all that may differ is how many requests the provider has counted,
and unless the system goes by their number nothing later will tell. -/
structure Unspoiled (h h' : Heap) : Prop where
  contents_eq : h'.contents = h.contents
  provider_eq : h'.provider = { h.provider with requests := h'.provider.requests }
  later : h.provider.Steady → ∀ operations, h'.transcript operations = h.transcript operations

/-- A heap that nothing happened to is unspoiled. -/
theorem Unspoiled.refl (h : Heap) : h.Unspoiled h :=
  ⟨rfl, rfl, fun _ _ => rfl⟩

/-- A heap that the system refused memory is as it was. -/
theorem unspoiled_afterRefusal (h : Heap) : h.Unspoiled h.afterRefusal := by
  refine ⟨rfl, rfl, ?_⟩
  intro hp operations
  rw [afterRefusal_eq_renumbered hp]
  unfold transcript
  rw [performAll_renumbered, renumber, Functor.map_map]
  rfl

/-- A refused request leaves the heap unspoiled. -/
theorem Unserved.unspoiled {h h' : Heap} (hu : h.Unserved h') : h.Unspoiled h' := by
  rcases hu with rfl | rfl
  · exact .refl _
  · exact h.unspoiled_afterRefusal

/-! ## Failures -/

/-- A reply is what an operation answers, and the heap is the one that it leaves. -/
theorem map_reply_ok {wrap : α → Reply} {x : Traced (α × Heap)} {reply : Reply} {h' : Heap}
    (hok : (Prod.map wrap id <$> x).outcome = .ok (reply, h')) :
    ∃ answer, x.outcome = .ok (answer, h') ∧ reply = wrap answer := by
  obtain ⟨⟨answer, h''⟩, hdone, he⟩ := Traced.map_ok_iff.mp hok
  cases he
  exact ⟨answer, hdone, rfl⟩

section

variable {h h' : Heap} {b : Handle} {e : AllocError}

/-- A rejected handle is not written through, by the byte or by the word. -/
theorem fill_error {first count : Nat} {value : Nat → UInt8}
    (hok : (h.fill b first count value).outcome = .ok (.error e, h')) : h' = h := by
  unfold fill at hok
  rw [Traced.outcome_bind] at hok
  obtain ⟨found, -, hok⟩ := bind_ok_iff.mp hok
  cases found with
  | error e' =>
    cases hok
    rfl
  | ok b' =>
    simp only [Traced.outcome_bind, Traced.outcome_pure] at hok
    obtain ⟨_, -, hok⟩ := bind_ok_iff.mp hok
    obtain ⟨_, -, hok⟩ := bind_ok_iff.mp hok
    cases hok

theorem storeWord_error {first value : Nat}
    (hok : (h.storeWord b first value).outcome = .ok (.error e, h')) : h' = h := by
  unfold storeWord at hok
  rw [Traced.outcome_bind] at hok
  obtain ⟨found, -, hok⟩ := bind_ok_iff.mp hok
  cases found with
  | error e' =>
    cases hok
    rfl
  | ok b' =>
    simp only [Traced.outcome_bind, Traced.outcome_pure] at hok
    obtain ⟨_, -, hok⟩ := bind_ok_iff.mp hok
    obtain ⟨_, -, hok⟩ := bind_ok_iff.mp hok
    obtain ⟨_, -, hok⟩ := bind_ok_iff.mp hok
    cases hok

/-- **Whatever fails,** with whatever handle, leaves the heap as it was, except that the
provider may have been asked. -/
theorem perform_error {operation : Operation} {reply : Reply}
    (hok : (h.perform operation).outcome = .ok (reply, h')) (he : reply.error? = some e) :
    h.Unserved h' := by
  cases operation with
  | allocate request =>
    obtain ⟨answer, hdone, rfl⟩ := map_reply_ok hok
    cases answer with
    | error e' => exact (allocate_error hdone).2
    | ok b => cases he
  | free handle =>
    obtain ⟨answer, hdone, rfl⟩ := map_reply_ok hok
    cases answer with
    | error e' =>
      cases handle with
      | none => cases hdone
      | some b => exact .inl (free_error hdone).2
    | ok u => cases he
  | reallocate handle request =>
    obtain ⟨answer, hdone, rfl⟩ := map_reply_ok hok
    cases answer with
    | error e' =>
      cases handle with
      | none => exact (reallocate_none_error hdone).2
      | some b =>
        rcases reallocate_error hdone with ⟨-, hh⟩ | ⟨-, hu⟩
        · exact .inl hh
        · exact hu
    | ok b => cases he
  | fill handle first count value =>
    obtain ⟨answer, hdone, rfl⟩ := map_reply_ok hok
    cases answer with
    | error e' => exact .inl (fill_error hdone)
    | ok n => cases he
  | storeWord handle first value =>
    obtain ⟨answer, hdone, rfl⟩ := map_reply_ok hok
    cases answer with
    | error e' => exact .inl (storeWord_error hdone)
    | ok u => cases he
  | usableSize | payload | blocks | freeBlocks | check | describe =>
    -- a query leaves the heap as it is, whatever it answers
    obtain ⟨answer, -, hreply⟩ := Traced.map_ok_iff.mp hok
    cases hreply
    exact .inl rfl

end

/-- Why a handle is turned down. -/
def TurnedDown (handle : Option Handle) (e : AllocError) : Prop :=
  ∃ b, handle = some b ∧ (e = .doubleFree b ∨ e = .invalidHandle b)

/-- Every error of an operation is one that the operation is known to have, and leaves the
heap as it was. Where a handle is turned down, not even the provider was asked. -/
structure FailsCleanly (h : Heap) : Prop where
  allocate : ∀ {n e h'}, (h.allocate n).outcome = .ok (.error e, h') →
    e = .outOfMemory n ∧ h.Unspoiled h'
  free : ∀ {handle e h'}, (h.free handle).outcome = .ok (.error e, h') →
    TurnedDown handle e ∧ h' = h
  reallocate : ∀ {handle n e h'}, (h.reallocate handle n).outcome = .ok (.error e, h') →
    TurnedDown handle e ∧ h' = h ∨ e = .outOfMemory n ∧ h.Unspoiled h'

/-- **Failures are without consequence.** Whatever heap it is, and whatever handle and size
are passed: where `allocate`, `free` or `reallocate` answers with an error, every byte, the
free list, the count of extensions and the configuration are what they were, and operations
to come are answered as if the failed one had not been tried. -/
theorem failsCleanly (h : Heap) : h.FailsCleanly where
  allocate := by
    intro n e h' hok
    obtain ⟨he, hu⟩ := allocate_error hok
    exact ⟨he, hu.unspoiled⟩
  free := by
    intro handle e h' hok
    cases handle with
    | none => cases hok
    | some b =>
      obtain ⟨hresolve, hh⟩ := free_error hok
      exact ⟨⟨b, rfl, resolve_error hresolve⟩, hh⟩
  reallocate := by
    intro handle n e h' hok
    cases handle with
    | none =>
      obtain ⟨he, hu⟩ := reallocate_none_error hok
      exact .inr ⟨he, hu.unspoiled⟩
    | some b =>
      rcases reallocate_error hok with ⟨hresolve, hh⟩ | ⟨he, hu⟩
      · exact .inl ⟨⟨b, rfl, resolve_error hresolve⟩, hh⟩
      · exact .inr ⟨he, hu.unspoiled⟩

end Heap

end BoundaryTag
