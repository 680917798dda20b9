import BoundaryTag.Session

/-!
# Heaps that are alike

Much of what a heap carries along makes no difference to what it does: how many requests
its provider has counted, which bounds the provider reports, whether the heap checks
itself, and, as long as memory is granted or refused alike, even what the provider is. Each
of these is a relation of heaps, and what they have in common is a `Likeness`: the bytes,
the free list and the numbers that operations go by are the same on both sides, and a
change to them leaves the heaps alike.

Operations on heaps that are alike take the same course (`Traced.Tied`), as far as the
provider is concerned under the condition that both heaps fare alike with it (`Meets`).

> `Likeness.allocateBlock`, `Likeness.resize`: the operations without the check that may
> follow them.
>
> `Likeness.allocate`, `Likeness.free`, `Likeness.reallocate`, `Likeness.fill`: all of
> them, where the checks come out alike as well.
-/

namespace BoundaryTag

namespace Traced

variable {α β γ δ : Type}

/-- The same fault on both sides, or values that are related. -/
inductive Ends (R : α → β → Prop) : Except Fault α → Except Fault β → Prop
  | ok {a : α} {b : β} (related : R a b) : Ends R (.ok a) (.ok b)
  | fault (f : Fault) : Ends R (.error f) (.error f)

theorem Ends.refl (outcome : Except Fault α) : Ends Eq outcome outcome := by
  cases outcome with
  | error e => exact .fault e
  | ok a => exact .ok rfl

/-- Computations that end alike go on alike if what follows does. -/
theorem Ends.bind {R : α → β → Prop} {S : γ → δ → Prop} {outcome : Except Fault α}
    {outcome' : Except Fault β} {f : α → Except Fault γ} {g : β → Except Fault δ}
    (h : Ends R outcome outcome') (hf : ∀ a b, R a b → Ends S (f a) (g b)) :
    Ends S (outcome >>= f) (outcome' >>= g) := by
  cases h with
  | fault e => exact .fault e
  | ok hab => exact hf _ _ hab

/-- What is done on both sides before they part. -/
theorem Ends.same {S : γ → δ → Prop} {f : α → Except Fault γ} {g : α → Except Fault δ}
    (outcome : Except Fault α) (hf : ∀ a, Ends S (f a) (g a)) :
    Ends S (outcome >>= f) (outcome >>= g) :=
  (Ends.refl outcome).bind fun a _ h => h ▸ hf a

/-- Two computations take the same course: they end alike and, if logs matter, write the
same records. -/
structure Tied (logged : Prop) (R : α → β → Prop) (x : Traced α) (y : Traced β) : Prop where
  ends : Ends R x.outcome y.outcome
  records : logged → y.records = x.records

variable {logged : Prop} {R : α → β → Prop} {S : γ → δ → Prop} {x : Traced α} {y : Traced β}
  {f : α → Traced γ} {g : β → Traced δ}

/-- A computation is tied to itself. -/
theorem Tied.refl (x : Traced α) : Tied logged Eq x x := ⟨.refl _, fun _ => rfl⟩

theorem Tied.pure {a : α} {b : β} (h : R a b) :
    Tied logged R (Pure.pure a : Traced α) (Pure.pure b : Traced β) :=
  ⟨.ok h, fun _ => rfl⟩

/-- **Tied computations go on tied.** The records of what follows come behind those of what went
before, on both sides. -/
theorem Tied.bind (hx : Tied logged R x y) (hf : ∀ a b, R a b → Tied logged S (f a) (g b)) :
    Tied logged S (x >>= f) (y >>= g) := by
  obtain ⟨outcome, records⟩ := x
  obtain ⟨outcome', records'⟩ := y
  obtain ⟨hends, hrecords⟩ := hx
  dsimp only at hends hrecords
  cases hends with
  | fault e => exact ⟨.fault e, hrecords⟩
  | ok hab =>
    obtain ⟨hends, hlater⟩ := hf _ _ hab
    refine ⟨hends, fun hl => ?_⟩
    show records' ++ _ = records ++ _
    rw [hrecords hl, hlater hl]

/-- What is done on both sides before they part. -/
theorem Tied.same {g : α → Traced δ} (x : Traced α) (hf : ∀ a, Tied logged S (f a) (g a)) :
    Tied logged S (x >>= f) (x >>= g) :=
  (Tied.refl x).bind fun a _ h => h ▸ hf a

end Traced

open Traced (Tied)

/-- A change to a provider commutes with requests if it spares what they are decided by, and
what they do to a provider can be done before or after. -/
theorem Provider.extend_map {g : Provider → Provider}
    (hnext : ∀ p, (g p).refusal ((g p).requests + 1) = p.refusal (p.requests + 1))
    (hspared : ∀ p, (g p).backing = p.backing ∧ (g p).capacity = p.capacity ∧
      (g p).region = p.region)
    (hasked : ∀ p, g { p with requests := p.requests + 1 } =
      { g p with requests := (g p).requests + 1 })
    (hgrown : ∀ p region, g { p with region } = { g p with region }) (p : Provider)
    (bytes : Nat) : (g p).extend bytes = Prod.map id g <$> p.extend bytes := by
  obtain ⟨hbacking, hcapacity, hregion⟩ := hspared p
  have hremaining : (g p).remaining = p.remaining := by
    unfold remaining
    rw [hcapacity, hregion]
  have hgranted : g { p with requests := p.requests + 1, region := p.region.grow bytes } =
      { g p with requests := (g p).requests + 1, region := (g p).region.grow bytes } := by
    rw [hregion, hgrown { p with requests := p.requests + 1 }, hasked]
  unfold extend
  dsimp only
  rw [hnext, hremaining]
  cases p.refusal (p.requests + 1) with
  | some errno => simp only [map_pure, Prod.map_apply, hasked]; rfl
  | none =>
    dsimp only
    split
    · simp only [map_bind, map_pure, Prod.map_apply, hasked, hbacking]; rfl
    · simp only [map_pure, Prod.map_apply, hgranted, hregion]; rfl

namespace Heap

variable {α : Type}

/-- A relation of heaps that operations notice at most in what the provider grants. -/
structure Likeness (R : Heap → Heap → Prop) : Prop where
  arena : ∀ {h k}, R h k → k.arena = h.arena
  prologue : ∀ {h k}, R h k → k.prologue = h.prologue
  chunk : ∀ {h k}, R h k → k.config.chunk = h.config.chunk
  extensions : ∀ {h k}, R h k → k.extensions = h.extensions
  withArena : ∀ {h k}, R h k → ∀ a, R (h.withArena a) (k.withArena a)
  grown : ∀ {h k}, R h k → ∀ n, R { h with extensions := n } { k with extensions := n }

/-- The same answer, and heaps that are alike. -/
def Alike (R : Heap → Heap → Prop) (x y : α × Heap) : Prop := y.1 = x.1 ∧ R x.2 y.2

/-- Heaps that are alike go on with the same answer. -/
theorem bind_alike {β γ : Type} {logged : Prop} {R : Heap → Heap → Prop} {S : β → γ → Prop}
    {x y : Traced (α × Heap)} {f : α × Heap → Traced β} {g : α × Heap → Traced γ}
    (hx : Tied logged (Alike R) x y)
    (hf : ∀ answer h k, R h k → Tied logged S (f (answer, h)) (g (answer, k))) :
    Tied logged S (x >>= f) (y >>= g) := by
  refine hx.bind fun a b hab => ?_
  obtain ⟨answer, h⟩ := a
  obtain ⟨answer', k⟩ := b
  obtain ⟨hsame, hk⟩ := hab
  cases hsame
  exact hf answer h k hk

/-- The answers may be renamed on both sides. -/
theorem map_alike {β : Type} {logged : Prop} {R : Heap → Heap → Prop} {x y : Traced (α × Heap)}
    (hx : Tied logged (Alike R) x y) (f : α → β) :
    Tied logged (Alike R) (Prod.map f id <$> x) (Prod.map f id <$> y) := by
  rw [map_eq_pure_bind, map_eq_pure_bind]
  exact bind_alike hx fun _ _ _ hk => .pure ⟨rfl, hk⟩

/-- Both requests were granted, and alike, or both were refused, for the same reason if logs
matter: the log tells the reason. -/
inductive Granted (logged : Prop) : Except ProviderError α → Except ProviderError α → Prop
  | ok (a : α) : Granted logged (.ok a) (.ok a)
  | error {cause cause' : ProviderError} (same : logged → cause' = cause) :
      Granted logged (.error cause) (.error cause')

/-- A request goes as it goes. -/
theorem Granted.refl {logged : Prop} (granted : Except ProviderError α) :
    Granted logged granted granted := by
  cases granted with
  | error cause => exact .error fun _ => rfl
  | ok a => exact .ok a

/-- A request for so many bytes goes the same way with both providers. -/
def Meets (logged : Prop) (R : Heap → Heap → Prop) (bytes : Nat) (h k : Heap) : Prop :=
  Tied logged (fun x y => Granted logged x.1 y.1 ∧
    R { h with provider := x.2 } { k with provider := y.2 })
    (h.provider.extend bytes) (k.provider.extend bytes)

/-- So does any request that an allocation may make. -/
def Supplies (logged : Prop) (R : Heap → Heap → Prop) (request : Nat) (h k : Heap) : Prop :=
  ∀ needed, blockSizeFor? request = some needed →
    h.arena.firstFit? needed = .ok none → Meets logged R (max needed h.config.chunk) h k

/-! ## Heaps that are alike by a function -/

section

variable {f : Heap → Heap} {g : Provider → Provider}

/-- A change that spares the bytes, the free list and the numbers makes a heap that is alike. -/
theorem likeness_map (harena : ∀ h, (f h).arena = h.arena)
    (hprologue : ∀ h, (f h).prologue = h.prologue)
    (hchunk : ∀ h, (f h).config.chunk = h.config.chunk)
    (hextensions : ∀ h, (f h).extensions = h.extensions)
    (hwith : ∀ h a, f (h.withArena a) = (f h).withArena a)
    (hgrown : ∀ (h : Heap) n, f { h with extensions := n } = { f h with extensions := n }) :
    Likeness fun h k => k = f h where
  arena hk := hk ▸ harena _
  prologue hk := hk ▸ hprologue _
  chunk hk := hk ▸ hchunk _
  extensions hk := hk ▸ hextensions _
  withArena hk a := hk ▸ (hwith _ a).symm
  grown hk n := hk ▸ (hgrown _ n).symm

/-- If requests commute with what the change does to the provider, the heap it makes fares
as the heap itself does. -/
theorem meets_map (hf : ∀ (h : Heap) p, f { h with provider := p } = { f h with provider := g p })
    (hg : ∀ p bytes, (g p).extend bytes = Prod.map id g <$> p.extend bytes) (logged : Prop)
    (bytes : Nat) (h : Heap) : Meets logged (fun h k => k = f h) bytes h (f h) := by
  have hprovider : (f h).provider = g h.provider := congrArg Heap.provider (hf h h.provider)
  unfold Meets
  rw [hprovider, hg, map_eq_pure_bind, ← bind_pure (h.provider.extend bytes), bind_assoc]
  refine .same _ fun asked => ?_
  rw [pure_bind]
  exact .pure ⟨.refl asked.1, (hf h asked.2).symm⟩

/-- What two computations agree in that are tied by a function. -/
theorem eq_map_of_tied {x y : Traced (α × Heap)}
    (h : Tied True (Alike fun h k => k = f h) x y) : y = Prod.map id f <$> x := by
  obtain ⟨outcome, records⟩ := x
  obtain ⟨outcome', records'⟩ := y
  obtain ⟨hends, hrecords⟩ := h
  have hrecords : records' = records := hrecords trivial
  dsimp only at hends
  subst hrecords
  cases hends with
  | fault e => rfl
  | @ok a b hab =>
    obtain ⟨answer, h⟩ := a
    obtain ⟨answer', k⟩ := b
    obtain ⟨hsame, hk⟩ := hab
    dsimp only at hsame hk
    rw [hsame, hk]
    exact congrArg (Traced.mk _) (List.append_nil _).symm

end

namespace Likeness

variable {logged : Prop} {R : Heap → Heap → Prop} {h k : Heap} {bytes needed request : Nat}
  {b : Block}

/-- The bytes, the list and the size are those of the arena. -/
theorem region (hR : Likeness R) (hk : R h k) : k.region = h.region :=
  congrArg Arena.region (hR.arena hk)

theorem freeList (hR : Likeness R) (hk : R h k) : k.freeList = h.freeList :=
  congrArg Arena.freeList (hR.arena hk)

theorem size (hR : Likeness R) (hk : R h k) : k.size = h.size := by
  rw [Heap.size, Heap.size, hR.region hk]

theorem withRegion (hR : Likeness R) (hk : R h k) (r : Region) :
    R (h.withRegion r) (k.withRegion r) := by
  have hwith := hR.withArena hk ⟨r, h.freeList⟩
  rw [show k.withArena ⟨r, h.freeList⟩ = k.withRegion r by
    rw [← hR.freeList hk]
    rfl] at hwith
  exact hwith

/-- A handle is judged by the bytes alone. -/
theorem resolve_eq (hR : Likeness R) (hk : R h k) (b : Handle) : k.resolve b = h.resolve b := by
  unfold resolve framed firstBlock
  rw [hR.region hk, hR.size hk, hR.prologue hk]

/-! ## Operations -/

/-- **Growing.** Apart from the request itself only the arena and the count of extensions matter. -/
theorem extend (hR : Likeness R) (hmeets : Meets logged R bytes h k) :
    Tied logged (fun x y => Granted logged x.1 y.1 ∧ R x.2 y.2) (h.extend bytes)
      (k.extend bytes) := by
  unfold Heap.extend
  refine hmeets.bind fun x y hxy => ?_
  obtain ⟨granted, p⟩ := x
  obtain ⟨granted', q⟩ := y
  obtain ⟨hgranted, hk⟩ := hxy
  cases hgranted with
  | error same => exact .pure ⟨.error same, hk⟩
  | ok old =>
    dsimp only at hk ⊢
    rw [hR.region hk, hR.freeList hk, hR.extensions hk]
    refine .same _ fun extensions => .same _ fun _ => .same _ fun _ => .same _ fun _ =>
      .same _ fun _ => .same _ fun merged => ?_
    exact .pure ⟨.ok merged.1, hR.grown (hR.withArena hk merged.2) extensions⟩

/-- Whether the heap grows at all is decided on the free list, so it is on both sides or on neither.
-/
theorem findFit (hR : Likeness R) (hk : R h k)
    (hmeets : h.arena.firstFit? needed = .ok none →
      Meets logged R (max needed h.config.chunk) h k) :
    Tied logged (fun x y => Granted logged x.1 y.1 ∧ R x.2 y.2) (h.findFit needed)
      (k.findFit needed) := by
  unfold Heap.findFit
  rw [hR.arena hk, hR.chunk hk]
  cases hfirst : h.arena.firstFit? needed with
  | error e => exact ⟨.fault e, fun _ => rfl⟩
  | ok found =>
    cases found with
    | some b => exact .pure ⟨.ok b, hk⟩
    | none =>
      exact hR.extend (hmeets hfirst)

/-- If the provider refuses, the answer is the same, whatever the reason was. -/
theorem allocateBlock (hR : Likeness R) (hk : R h k) (hsupplies : Supplies logged R request h k) :
    Tied logged (Alike R) (h.allocateBlock request) (k.allocateBlock request) := by
  unfold Heap.allocateBlock
  cases hsize : blockSizeFor? request with
  | none => exact .pure ⟨rfl, hk⟩
  | some needed =>
    refine (hR.findFit hk (hsupplies needed hsize)).bind fun x y hxy => ?_
    obtain ⟨found, h⟩ := x
    obtain ⟨found', k⟩ := y
    obtain ⟨hfound, hk⟩ := hxy
    cases hfound with
    | error same =>
      refine ⟨.ok ⟨rfl, hk⟩, fun hl => ?_⟩
      rw [same hl]
      rfl
    | ok b =>
      dsimp only
      rw [hR.arena hk]
      exact .same _ fun a => .same _ fun _ => .pure ⟨rfl, hR.withArena hk a⟩

/-- A block is moved in three steps: allocate, copy the payload, free the old one. -/
theorem relocate (hR : Likeness R) (hk : R h k) (hsupplies : Supplies logged R request h k) :
    Tied logged (Alike R) (h.relocate b request) (k.relocate b request) := by
  unfold Heap.relocate
  refine bind_alike (hR.allocateBlock hk hsupplies) fun found h k hk => ?_
  cases found with
  | error e => exact .pure ⟨rfl, hk⟩
  | ok target =>
    dsimp only at hk ⊢
    rw [hR.region hk]
    refine .same _ fun moved => .same _ fun _ => ?_
    have hk := hR.withRegion hk moved.2
    rw [hR.arena hk]
    exact .same _ fun a => .pure ⟨rfl, hR.withArena hk a⟩

/-- No provider is asked when a block shrinks. -/
theorem shrink (hR : Likeness R) (hk : R h k) (b : Block) (current needed : Nat) :
    Tied logged R (h.shrink b current needed) (k.shrink b current needed) := by
  unfold Heap.shrink
  split
  · rw [hR.arena hk]
    exact .same _ fun _ => .same _ fun a => .pure (hR.withArena hk a)
  · exact .pure hk

/-- A block grows over its free neighbour, or it moves. -/
theorem lengthen (hR : Likeness R) (hk : R h k) (hsupplies : Supplies logged R request h k)
    (current : Nat) :
    Tied logged (Alike R) (h.lengthen b current needed request)
      (k.lengthen b current needed request) := by
  unfold Heap.lengthen
  rw [hR.region hk, hR.arena hk]
  refine .same _ fun next => .same _ fun size => .same _ fun combined => .same _ fun used => ?_
  split
  · refine .same _ fun _ => .same _ fun a => .same _ fun a => ?_
    exact .pure ⟨rfl, hR.withArena hk a⟩
  · exact hR.relocate hk hsupplies

/-- Which of the two it is, the tag of the block decides. -/
theorem resize (hR : Likeness R) (hk : R h k) (hsupplies : Supplies logged R request h k) :
    Tied logged (Alike R) (h.resize b needed request) (k.resize b needed request) := by
  unfold Heap.resize
  rw [hR.region hk]
  refine .same _ fun current => ?_
  split
  · exact hR.lengthen hk hsupplies current
  · exact (hR.shrink hk b current needed).bind fun _ _ hk => .pure ⟨rfl, hk⟩

/-- A caller writes into a payload. -/
theorem fill (hR : Likeness R) (hk : R h k) (b : Handle) (first count : Nat)
    (value : Nat → UInt8) :
    Tied logged (Alike R) (h.fill b first count value) (k.fill b first count value) := by
  unfold Heap.fill
  rw [hR.resolve_eq hk, hR.region hk]
  refine .same _ fun found => ?_
  cases found with
  | error e => exact .pure ⟨rfl, hk⟩
  | ok b =>
    refine .same _ fun bounds => .same _ fun _ => ?_
    exact .pure ⟨rfl, hR.withRegion hk _⟩

theorem storeWord (hR : Likeness R) (hk : R h k) (b : Handle) (first value : Nat) :
    Tied logged (Alike R) (h.storeWord b first value) (k.storeWord b first value) := by
  unfold Heap.storeWord
  rw [hR.resolve_eq hk, hR.region hk]
  refine .same _ fun found => ?_
  cases found with
  | error e => exact .pure ⟨rfl, hk⟩
  | ok b =>
    refine .same _ fun bounds => .same _ fun _ => .same _ fun inner => ?_
    exact .pure ⟨rfl, hR.withRegion hk _⟩

/-! ## Operations with their checks -/

/-- The checks of heaps that are alike come out alike. -/
def Checks (logged : Prop) (R : Heap → Heap → Prop) : Prop :=
  ∀ {h k}, R h k → ∀ operation, Tied logged Eq (h.selfCheck operation) (k.selfCheck operation)

/-- **Allocating,** with the check that follows if it is switched on. -/
theorem allocate (hR : Likeness R) (hcheck : Checks logged R) (hk : R h k)
    (hsupplies : Supplies logged R request h k) :
    Tied logged (Alike R) (h.allocate request) (k.allocate request) := by
  unfold Heap.allocate
  refine bind_alike (hR.allocateBlock hk hsupplies) fun found h k hk => ?_
  cases found with
  | error e => exact .pure ⟨rfl, hk⟩
  | ok b => exact (hcheck hk _).bind fun _ _ _ => .pure ⟨rfl, hk⟩

/-- **Freeing.** The check comes after it, and not where the handle was rejected. -/
theorem free (hR : Likeness R) (hcheck : Checks logged R) (hk : R h k) (handle : Option Handle) :
    Tied logged (Alike R) (h.free handle) (k.free handle) := by
  unfold Heap.free
  cases handle with
  | none => exact .pure ⟨rfl, hk⟩
  | some b =>
    dsimp only
    rw [hR.resolve_eq hk, hR.arena hk]
    refine .same _ fun found => ?_
    cases found with
    | error e => exact .pure ⟨rfl, hk⟩
    | ok b =>
      refine .same _ fun a => .same _ fun _ => ?_
      have hk := hR.withArena hk a
      exact (hcheck hk _).bind fun _ _ _ => .pure ⟨rfl, hk⟩

/-- **Reallocating,** by the four ways it can go. -/
theorem reallocate (hR : Likeness R) (hcheck : Checks logged R) (hk : R h k)
    (handle : Option Handle) (hsupplies : Supplies logged R request h k) :
    Tied logged (Alike R) (h.reallocate handle request) (k.reallocate handle request) := by
  unfold Heap.reallocate
  cases handle with
  | none =>
    exact bind_alike (hR.allocate hcheck hk hsupplies) fun _ _ _ hk => .pure ⟨rfl, hk⟩
  | some b =>
    dsimp only
    split
    · exact bind_alike (hR.free hcheck hk (some b)) fun _ _ _ hk => .pure ⟨rfl, hk⟩
    · rw [hR.resolve_eq hk]
      refine .same _ fun found => ?_
      cases found with
      | error e => exact .pure ⟨rfl, hk⟩
      | ok b =>
        dsimp only
        cases blockSizeFor? request with
        | none => exact .pure ⟨rfl, hk⟩
        | some needed =>
          refine bind_alike (hR.resize hk hsupplies) fun found h k hk => ?_
          cases found with
          | error e => exact .pure ⟨rfl, hk⟩
          | ok b => exact (hcheck hk _).bind fun _ _ _ => .pure ⟨rfl, hk⟩

end Likeness

end Heap

end BoundaryTag
