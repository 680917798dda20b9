import BoundaryTag.Proofs.Positions
import Mathlib.Algebra.Order.BigOperators.Group.List
import Mathlib.Algebra.Order.Ring.Nat

/-!
# How much a heap grows

A heap asks for memory only for a request that no free block serves, and then for as much as the
request takes, or for a chunk if that is more. The chunk is the one that it was built with, made
into one that it can grow by.

> `Allocator.exists_grown_call`, `Shows.exists_grown_step`: a call makes the heap grow for its own
> request, or not at all.
>
> `run_grows_by_chunks`: after any calls, the bytes of a heap are those that it was built in and,
> for each request that it grew for, what the request takes or a chunk. So it has at least as many
> chunks more as it has grown (`run_chunks_le`).
-/

namespace BoundaryTag

/-! ## On lists -/

namespace Allocator

/-- The allocator has grown for these requests, and for each by what it takes or by a chunk. -/
structure GrownFor (m : Allocator) (chunk : Nat) (requests : List Nat) (m' : Allocator) :
    Prop where
  extensions_eq : m'.extensions = m.extensions + requests.length
  size_eq : m'.size = m.size + (requests.map fun n => max (leastSpan n) chunk).sum

variable {m m' : Allocator} {t : Terms} {b : Block} {chunk request : Nat}

/-- An allocator that has as many bytes as before has grown for none of the requests. -/
theorem exists_grown_none {asked : List Nat} (hextensions : m'.extensions = m.extensions)
    (hsize : m'.size = m.size) :
    ∃ requests, requests.Sublist asked ∧ m.GrownFor chunk requests m' :=
  ⟨[], List.nil_sublist _, hextensions, hsize⟩

/-- Only an allocation grows the allocator, and only for its own request. -/
theorem exists_grown_allocate (m : Allocator) (t : Terms) (request : Nat) :
    ∃ requests, requests.Sublist [request] ∧
      m.GrownFor t.chunk requests (m.allocate t request).2 := by
  by_cases hn : Word.limit ≤ leastSpan request
  · rw [allocate_overflow hn]
    exact exists_grown_none rfl rfl
  · have hn := Nat.lt_of_not_le hn
    cases hf : m.outline.firstFit (leastSpan request) with
    | some b =>
      rw [allocate_fit hn hf]
      exact exists_grown_none rfl rfl
    | none =>
      cases hg : t.grants (max (leastSpan request) t.chunk) with
      | false =>
        rw [allocate_refused hn hf hg]
        exact exists_grown_none rfl rfl
      | true =>
        rw [allocate_grow hn hf hg]
        exact ⟨[request], .refl _, rfl, rfl⟩

/-- What moves grows the allocator as an allocation does. -/
theorem exists_grown_relocate (m : Allocator) (t : Terms) (b : Block) (request : Nat) :
    ∃ requests, requests.Sublist [request] ∧
      m.GrownFor t.chunk requests (m.relocate t b request).2 := by
  obtain ⟨requests, hsub, hgrown⟩ := exists_grown_allocate m t request
  refine ⟨requests, hsub, ?_⟩
  unfold relocate
  generalize m.allocate t request = allocated at hgrown
  obtain ⟨answer, m₁⟩ := allocated
  cases answer with
  | error e => exact hgrown
  | ok target => exact ⟨hgrown.extensions_eq, hgrown.size_eq⟩

/-- What stays where it is does not grow the allocator. -/
theorem exists_grown_resize (m : Allocator) (t : Terms) (b : Block) (request : Nat) :
    ∃ requests, requests.Sublist [request] ∧
      m.GrownFor t.chunk requests (m.resize t b request).2 := by
  have hrelocate := exists_grown_relocate m t b request
  unfold resize
  dsimp only
  split
  · exact exists_grown_none rfl rfl
  · split
    · exact hrelocate
    · split
      · exact exists_grown_none rfl rfl
      · exact hrelocate

theorem exists_grown_reallocate (m : Allocator) (t : Terms) (handle : Option Handle)
    (request : Nat) :
    ∃ requests, requests.Sublist [request] ∧
      m.GrownFor t.chunk requests (m.reallocate t handle request).2 := by
  unfold reallocate
  cases handle with
  | none => exact exists_grown_allocate m t request
  | some b =>
    dsimp only
    split
    · exact exists_grown_none rfl rfl
    · split
      · exact exists_grown_none rfl rfl
      · exact exists_grown_resize m t b request

/-- **A call grows the allocator for the size that it asks for,** or not at all. -/
theorem exists_grown_call (m : Allocator) (t : Terms) (target : Option Handle) (call : Call) :
    ∃ requests, requests.Sublist call.request?.toList ∧
      m.GrownFor t.chunk requests (m.call t target call).2 := by
  cases call with
  | allocate request => exact exists_grown_allocate m t request
  | free place =>
    cases target with
    | none => exact exists_grown_none rfl rfl
    | some b => exact exists_grown_none rfl rfl
  | reallocate place request => exact exists_grown_reallocate m t target request
  | write => exact exists_grown_none rfl rfl

end Allocator

/-! ## Sessions -/

namespace Session

variable {s s₁ s' s₀ : Session} {o : Outline} {call : Call} {calls more : List Call}
  {requests others : List Nat} {p : Provider} {config : Config}

/-- Calls in a row made the heap grow for these requests of theirs, and for each by what it takes
or by a chunk. The configuration is the same as before. -/
structure GrownFor (s : Session) (calls : List Call) (requests : List Nat) (s' : Session) :
    Prop where
  config_eq : s'.heap.config = s.heap.config
  asked : requests.Sublist (calls.filterMap Call.request?)
  extensions_eq : s'.heap.extensions = s.heap.extensions + requests.length
  size_eq : s'.heap.size = s.heap.size + (requests.map s.heap.growthFor).sum

/-- What a heap asks for depends on its configuration alone. -/
theorem growthFor_eq (h : s'.heap.config = s.heap.config) :
    s'.heap.growthFor = s.heap.growthFor := by
  funext request
  unfold Heap.growthFor
  rw [h]

theorem GrownFor.refl (s : Session) : s.GrownFor [] [] s := ⟨rfl, .refl _, rfl, rfl⟩

/-- Calls after calls: what the heap has grown for adds up. -/
theorem GrownFor.trans (h₁ : s.GrownFor calls requests s₁) (h₂ : s₁.GrownFor more others s') :
    s.GrownFor (calls ++ more) (requests ++ others) s' := by
  refine ⟨h₂.config_eq.trans h₁.config_eq, ?_, ?_, ?_⟩
  · rw [List.filterMap_append]
    exact h₁.asked.append h₂.asked
  · rw [h₂.extensions_eq, h₁.extensions_eq, List.length_append, Nat.add_assoc]
  · rw [h₂.size_eq, h₁.size_eq, growthFor_eq h₁.config_eq, List.map_append, List.sum_append,
      Nat.add_assoc]

/-- **One call** makes the heap grow for its own request, or not at all. -/
theorem Shows.exists_grown_step (hs : s.Shows o) (call : Call) :
    ∃ answer s' o' requests, (s.step call).outcome = .ok (answer, s') ∧ s'.Shows o' ∧
      s.GrownFor [call] requests s' := by
  have hasked : [call].filterMap Call.request? = call.request?.toList := by
    cases h : call.request? <;> simp [h]
  have hr : s.Realizes ⟨o, s.heap.size, s.heap.extensions⟩ := ⟨hs.heap.realizes, hs⟩
  rcases hr.step call with ⟨s', hok, hr', -, hconfig⟩ | ⟨request, hdenied⟩
  · obtain ⟨requests, hsub, hgrown⟩ := Allocator.exists_grown_call
      ⟨o, s.heap.size, s.heap.extensions⟩ (.unlimited s.heap.config.chunk) (s.target call) call
    refine ⟨_, s', _, requests, hok, hr'.shows, hconfig, ?_, ?_, ?_⟩
    · rw [hasked]
      exact hsub
    · exact hr'.heap.extensions_eq.trans hgrown.extensions_eq
    · exact hr'.heap.size_eq.trans hgrown.size_eq
  · -- memory was refused, which leaves all but the count of requests as it was
    exact ⟨_, _, o, [], hdenied.failed, ⟨hs.heap.afterRefusal, hs.leased⟩, rfl,
      List.nil_sublist _, rfl, rfl⟩

/-- **Calls in a row** make it grow for some of their requests. -/
theorem Shows.exists_grown_run (hs : s.Shows o) (calls : List Call) :
    ∃ answers s' o' requests, (s.run calls).outcome = .ok (answers, s') ∧ s'.Shows o' ∧
      s.GrownFor calls requests s' := by
  induction calls generalizing s o with
  | nil => exact ⟨[], s, o, [], rfl, hs, .refl s⟩
  | cons call calls ih =>
    obtain ⟨answer, s₁, o₁, requests, hok, hs₁, hgrown₁⟩ := hs.exists_grown_step call
    obtain ⟨answers, s', o', others, hrun, hs', hgrown⟩ := ih hs₁
    exact ⟨answer :: answers, s', o', requests ++ others, run_cons_ok hok hrun, hs',
      hgrown₁.trans hgrown⟩

/-- **A heap grows by chunks:** its configuration is the one that it was built with, normalized,
and its bytes are those that it was built in and what it has grown by since. -/
theorem run_grows_by_chunks (hp : p.Valid) (hok : (start p config).outcome = .ok (.ok s₀))
    (calls : List Call) :
    ∃ answers s, ∃ requests : List Nat, (s₀.run calls).outcome = .ok (answers, s) ∧
      s.heap.config = config.normalized ∧
      requests.Sublist (calls.filterMap Call.request?) ∧ s.heap.extensions = requests.length ∧
      s.heap.size = Heap.startBehind p.region.size + 64 +
        (requests.map fun n => max (leastSpan n) config.normalized.chunk).sum := by
  obtain ⟨hbuilt, -⟩ := built_of_start_ok hp hok
  obtain ⟨answers, s, -, requests, hrun, -, hgrown⟩ := (start_shows hp hok).exists_grown_run calls
  refine ⟨answers, s, requests, hrun, hgrown.config_eq.trans hbuilt.config_eq, hgrown.asked, ?_, ?_⟩
  · rw [hgrown.extensions_eq, hbuilt.extensions_eq, Nat.zero_add]
  · rw [hgrown.size_eq, hbuilt.size_eq]
    unfold Heap.growthFor
    rw [hbuilt.config_eq]

/-- So a heap that has grown so many times has so many chunks more, at least. -/
theorem run_chunks_le (hp : p.Valid) (hok : (start p config).outcome = .ok (.ok s₀))
    (calls : List Call) :
    ∃ answers s, (s₀.run calls).outcome = .ok (answers, s) ∧
      Heap.startBehind p.region.size + 64 + s.heap.extensions * config.normalized.chunk ≤
        s.heap.size := by
  obtain ⟨answers, s, requests, hrun, -, -, hextensions, hsize⟩ :=
    run_grows_by_chunks hp hok calls
  have hsum := List.card_nsmul_le_sum
    (requests.map fun n => max (leastSpan n) config.normalized.chunk) config.normalized.chunk
    (fun x hx => by
      obtain ⟨n, -, rfl⟩ := List.mem_map.mp hx
      exact Nat.le_max_right ..)
  rw [List.length_map, Nat.nsmul_eq_mul] at hsum
  refine ⟨answers, s, hrun, ?_⟩
  rw [hsize, hextensions]
  exact Nat.add_le_add_left hsum _

end Session

end BoundaryTag
