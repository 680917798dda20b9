import BoundaryTag.Proofs.Building
import BoundaryTag.Proofs.Payloads
import BoundaryTag.Proofs.Resizing
import BoundaryTag.Session
import Mathlib.Data.List.InsertIdx
import Mathlib.Data.List.Perm.Basic

/-!
# Sessions keep to an outline

The invariant of a session is that its heap shows an outline whose blocks in use are the
leased ones (`Session.Shows`). One call is followed by cases on what it came to
(`Stepped`), and a list of calls by induction.

> `exists_step`: a call is always answered, and what it came to is one of the cases of
> `Stepped`.
>
> `exists_run`, `exists_run_keeping`: so is a list of calls, and it keeps what every call
> keeps.
>
> `start_shows`: a session starts with an outline of one free block.
-/

namespace BoundaryTag

open BlockView (block tag Covers)
open Region (Changed)
open Heap (Served Freed Resized)

namespace Session

/-- The heap shows the outline, and its blocks in use are the leased ones. -/
structure Shows (s : Session) (o : Outline) : Prop where
  heap : s.heap.Shows o
  leased : s.handles.Perm ((held o.blocks).map block)

/-- What a call and its answer came to: nothing, or a change of one block. -/
inductive Stepped (s : Session) (o : Outline) (call : Call) :
    Answer → Session → Outline → Prop
  | idle {answer : Answer} {s' : Session} (leases : s'.leases = s.leases)
      (unserved : s.heap.Unserved s'.heap) : Stepped s o call answer s' o
  | served {s' : Session} {o' : Outline} {needed request : Nat} {v : BlockView}
      (target : s.target call = none) (leases : s'.leases = s.leases ++ [⟨v.block, request⟩])
      (served : Served s.heap s'.heap o o' needed v) (sized : blockSizeFor? request = some needed) :
      Stepped s o call (.ok (some v.block)) s' o'
  | freed {s' : Session} {o' : Outline} {place : Nat} {v : BlockView}
      (target : s.target call = some v.block) (found : s.handle? place = some v.block)
      (leases : s'.leases = s.leases.eraseIdx place) (freed : Freed s.heap s'.heap o o' v) :
      Stepped s o call (.ok none) s' o'
  | resized {s' : Session} {o' : Outline} {place needed request : Nat} {v w : BlockView}
      (target : s.target call = some v.block) (found : s.handle? place = some v.block)
      (leases : s'.leases = s.leases.set place ⟨w.block, request⟩)
      (resized : Resized s.heap s'.heap o o' needed v w)
      (sized : blockSizeFor? request = some needed) :
      Stepped s o call (.ok (some w.block)) s' o'
  | written {s' : Session} {first count : Nat} {value : Nat → UInt8} {v : BlockView}
      (writes : call.Writes) (target : s.target call = some v.block)
      (leases : s'.leases = s.leases) (inUse : v ∈ held o.blocks)
      (heap : s'.heap = s.heap.withRegion (s.heap.written v first count value)) :
      Stepped s o call (.ok none) s' o

variable {s s' : Session} {o o' : Outline} {call : Call} {answer : Answer} {place request : Nat}
  {b c : Block} {h' : Heap}

/-! ## Leases -/

/-- A leased handle is that of a block in use. -/
theorem Shows.exists_inUse (hs : s.Shows o) (hb : b ∈ s.handles) :
    ∃ v ∈ o.blocks, v.allocated = true ∧ v.block = b := by
  obtain ⟨v, hv, rfl⟩ := List.mem_map.mp (hs.leased.mem_iff.mp hb)
  obtain ⟨hv, ha⟩ := mem_held.mp hv
  exact ⟨v, hv, ha, rfl⟩

/-- A lease that is found is one of the leases. -/
theorem mem_handles_of_handle? (h : s.handle? place = some b) : b ∈ s.handles :=
  List.mem_of_getElem? h

/-- Apart from the lease in a place there are the others. -/
theorem handles_perm (h : s.handle? place = some b) :
    s.handles.Perm (b :: (s.leases.eraseIdx place).map (·.handle)) := by
  obtain ⟨hlt, hget⟩ := List.getElem?_eq_some_iff.mp h
  rw [← List.eraseIdx_map, ← hget]
  exact (List.getElem_cons_eraseIdx_perm hlt).symm

theorem place_lt (h : s.handle? place = some b) : place < s.leases.length := by
  have := (List.getElem?_eq_some_iff.mp h).1
  rwa [handles, List.length_map] at this

/-- A lease that is replaced leaves the others. -/
theorem leases_set_perm (h : s.handle? place = some b) (new : Lease) :
    (s.leases.set place new).Perm (new :: s.leases.eraseIdx place) :=
  List.set_perm_cons_eraseIdx (place_lt h) new

/-- To replace a lease is to drop it and add the new one, up to order. -/
theorem handles_set_perm (h : s.handle? place = some b) (new : Lease) :
    ((s.leases.set place new).map (·.handle)).Perm
      (new.handle :: (s.leases.eraseIdx place).map (·.handle)) :=
  (leases_set_perm h new).map (·.handle)

/-! ## What a call keeps -/

/-- Whatever a call came to, the session shows an outline again. -/
theorem Stepped.shows (hs : s.Shows o) (h : Stepped s o call answer s' o') : s'.Shows o' := by
  cases h with
  | idle leases unserved =>
    refine ⟨unserved.shows hs.heap, ?_⟩
    rw [handles, leases]
    exact hs.leased
  | served target leases served =>
    refine ⟨served.shows, ?_⟩
    rw [handles, leases, List.map_append]
    have hheld := served.inUse.map block
    exact ((hs.leased.append_right _).trans (List.perm_append_singleton ..)).trans hheld.symm
  | freed target found leases freed =>
    refine ⟨freed.shows, ?_⟩
    rw [handles, leases]
    have hheld := freed.inUse.map block
    exact ((handles_perm found).symm.trans (hs.leased.trans hheld)).cons_inv
  | resized target found leases resized =>
    refine ⟨resized.shows, ?_⟩
    rw [handles, leases]
    obtain ⟨others, hold, hnew⟩ := resized.inUse
    have hothers := ((handles_perm found).symm.trans
      (hs.leased.trans (hold.map block))).cons_inv
    exact ((handles_set_perm found _).trans (hothers.cons _)).trans (hnew.map block).symm
  | written writes target leases inUse heap =>
    obtain ⟨hv, ha⟩ := mem_held.mp inUse
    refine ⟨?_, ?_⟩
    · rw [heap]
      exact (Heap.fill_allocated hs.heap hv ha _ _ _).2
    · rw [handles, leases]
      exact hs.leased

/-! ## Calls on live handles -/

/-- What a freed lease leaves behind. The next three say it of a lease that is reallocated. -/
theorem step_free (hp : s.handle? place = some b)
    (hok : (s.heap.free (some b)).outcome = .ok (.ok (), h')) :
    (s.step (.free place)).outcome = .ok (.ok none, ⟨h', s.leases.eraseIdx place⟩) := by
  unfold step
  dsimp only
  rw [hp, Traced.outcome_bind, bind_of_ok hok]
  rfl

theorem step_reallocate_none (hp : s.handle? place = some b)
    (hok : (s.heap.reallocate (some b) request).outcome = .ok (.ok none, h')) :
    (s.step (.reallocate place request)).outcome =
      .ok (.ok none, ⟨h', s.leases.eraseIdx place⟩) := by
  unfold step
  dsimp only
  rw [hp, Traced.outcome_bind, bind_of_ok hok]
  rfl

theorem step_reallocate_some (hp : s.handle? place = some b)
    (hok : (s.heap.reallocate (some b) request).outcome = .ok (.ok (some c), h')) :
    (s.step (.reallocate place request)).outcome =
      .ok (.ok (some c), ⟨h', s.leases.set place ⟨c, request⟩⟩) := by
  unfold step
  dsimp only
  rw [hp, Traced.outcome_bind, bind_of_ok hok]
  dsimp only
  rw [lease, if_pos (place_lt hp)]
  rfl

theorem step_reallocate_error {e : AllocError} (hp : s.handle? place = some b)
    (hok : (s.heap.reallocate (some b) request).outcome = .ok (.error e, h')) :
    (s.step (.reallocate place request)).outcome = .ok (.error e, { s with heap := h' }) := by
  unfold step
  dsimp only
  rw [hp, Traced.outcome_bind, bind_of_ok hok]
  rfl

/-! ## Calls are answered -/

/-- What an unsuccessful answer leaves. -/
theorem stepped_unserved {h : Heap} (hh : s.heap.Unserved h) :
    Stepped s o call answer { s with heap := h } o :=
  .idle rfl hh

/-- **Each kind of call** has an answer and is one of the steps of a session. -/
theorem exists_allocate (hs : s.Shows o) (request : Nat) :
    ∃ answer s' o', (s.step (.allocate request)).outcome = .ok (answer, s') ∧
      Stepped s o (.allocate request) answer s' o' := by
  obtain ⟨answer, h', hok, hend⟩ := Heap.exists_allocate hs.heap request
  unfold step
  dsimp only
  rw [Traced.outcome_bind, bind_of_ok hok]
  cases answer with
  | error e => exact ⟨.error e, _, o, rfl, stepped_unserved hend.2⟩
  | ok b =>
    obtain ⟨needed, o', v, hn, rfl, hserved⟩ := hend
    exact ⟨.ok (some v.block), _, o', rfl, .served rfl rfl hserved hn⟩

theorem exists_free (hs : s.Shows o) (place : Nat) :
    ∃ answer s' o', (s.step (.free place)).outcome = .ok (answer, s') ∧
      Stepped s o (.free place) answer s' o' := by
  cases hp : s.handle? place with
  | none =>
    -- a place without a lease has none to lose
    have hlen : s.leases.length ≤ place := by
      have := List.getElem?_eq_none_iff.mp hp
      rwa [handles, List.length_map] at this
    refine ⟨.ok none, ⟨s.heap, s.leases.eraseIdx place⟩, o, ?_, .idle ?_ (.inl rfl)⟩
    · unfold step
      dsimp only
      rw [hp]
      rfl
    · exact List.eraseIdx_of_length_le hlen
  | some b =>
    obtain ⟨v, hv, ha, rfl⟩ := hs.exists_inUse (mem_handles_of_handle? hp)
    obtain ⟨a, hok, hfreed⟩ := Heap.exists_free hs.heap hv ha
    exact ⟨.ok none, _, _, step_free hp hok, .freed hp hp rfl hfreed⟩

theorem exists_reallocate (hs : s.Shows o) (place request : Nat) :
    ∃ answer s' o', (s.step (.reallocate place request)).outcome = .ok (answer, s') ∧
      Stepped s o (.reallocate place request) answer s' o' := by
  cases hp : s.handle? place with
  | none =>
    -- no handle: to reallocate is to allocate
    have hlen : ¬ place < s.leases.length := by
      have := List.getElem?_eq_none_iff.mp hp
      rw [handles, List.length_map] at this
      omega
    obtain ⟨answer, h', hok, hend⟩ := Heap.exists_allocate hs.heap request
    have hrealloc : (s.heap.reallocate none request).outcome = .ok (answer.map some, h') := by
      rw [Heap.reallocate_none, bind_of_ok hok]
    unfold step
    dsimp only
    rw [hp, Traced.outcome_bind, bind_of_ok hrealloc]
    cases answer with
    | error e => exact ⟨.error e, _, o, rfl, stepped_unserved hend.2⟩
    | ok b =>
      obtain ⟨needed, o', v, hn, rfl, hserved⟩ := hend
      exact ⟨.ok (some v.block), ⟨h', lease s.leases place ⟨v.block, request⟩⟩, o', rfl,
        .served hp (if_neg hlen) hserved hn⟩
  | some b =>
    obtain ⟨v, hv, ha, rfl⟩ := hs.exists_inUse (mem_handles_of_handle? hp)
    obtain ⟨answer, h', hok, hend⟩ := Heap.exists_reallocate hs.heap hv ha request
    cases answer with
    | error e =>
      exact ⟨.error e, _, o, step_reallocate_error hp hok, stepped_unserved hend.2.2⟩
    | ok found =>
      cases found with
      | none =>
        obtain ⟨-, o', hfreed⟩ := hend
        exact ⟨.ok none, _, o', step_reallocate_none hp hok, .freed hp hp rfl hfreed⟩
      | some b =>
        obtain ⟨-, needed, o', w, hn, rfl, hresized⟩ := hend
        exact ⟨_, _, o', step_reallocate_some hp hok, .resized hp hp rfl hresized hn⟩

/-- A write to a leased block does what the heap's own write does. -/
theorem write_leased (hs : s.Shows o) {v : BlockView} (hp : s.handle? place = some v.block)
    (hv : v ∈ held o.blocks) (first count : Nat) (value : Nat → UInt8) :
    (s.step (.write place first count value)).outcome = .ok (.ok none,
      { s with heap := s.heap.withRegion (s.heap.written v first count value) }) := by
  obtain ⟨hmem, ha⟩ := mem_held.mp hv
  have hok := (Heap.fill_allocated hs.heap hmem ha first count value).1
  unfold step
  dsimp only
  rw [hp]
  dsimp only
  rw [Traced.outcome_bind, bind_of_ok hok]
  rfl

theorem exists_write (hs : s.Shows o) (place first count : Nat) (value : Nat → UInt8) :
    ∃ answer s' o', (s.step (.write place first count value)).outcome = .ok (answer, s') ∧
      Stepped s o (.write place first count value) answer s' o' := by
  cases hp : s.handle? place with
  | none =>
    refine ⟨.ok none, s, o, ?_, .idle rfl (.inl rfl)⟩
    unfold step
    dsimp only
    rw [hp]
    rfl
  | some b =>
    obtain ⟨v, hv, ha, rfl⟩ := hs.exists_inUse (mem_handles_of_handle? hp)
    have hheld := mem_held.mpr ⟨hv, ha⟩
    exact ⟨.ok none, _, o, write_leased hs hp hheld first count value, .written trivial hp rfl hheld
      rfl⟩

/-- **A call is always answered,** and comes to one of the cases of `Stepped`. -/
theorem exists_step (hs : s.Shows o) (call : Call) :
    ∃ answer s' o', (s.step call).outcome = .ok (answer, s') ∧
      Stepped s o call answer s' o' := by
  cases call with
  | allocate request => exact exists_allocate hs request
  | free place => exact exists_free hs place
  | reallocate place request => exact exists_reallocate hs place request
  | write place first count value => exact exists_write hs place first count value

/-- Runs are put together from their first step and the rest. -/
theorem run_cons_ok {answers : List Answer} {calls : List Call} {s₁ : Session}
    (hstep : (s.step call).outcome = .ok (answer, s₁))
    (hrun : (s₁.run calls).outcome = .ok (answers, s')) :
    (s.run (call :: calls)).outcome = .ok (answer :: answers, s') := by
  rw [run, Traced.outcome_bind, bind_of_ok hstep, Traced.outcome_bind, bind_of_ok hrun]
  rfl

/-- **So are calls in a row,** and what every single call keeps, they keep. -/
theorem exists_run_keeping {I : Session → Outline → Prop}
    (hI : ∀ {s o call answer s' o'}, s.Shows o → I s o → Stepped s o call answer s' o' → I s' o')
    (hs : s.Shows o) (hi : I s o) (calls : List Call) :
    ∃ answers s' o', (s.run calls).outcome = .ok (answers, s') ∧ s'.Shows o' ∧ I s' o' := by
  induction calls generalizing s o with
  | nil => exact ⟨[], s, o, rfl, hs, hi⟩
  | cons call calls ih =>
    obtain ⟨answer, s₁, o₁, hok₁, hstep⟩ := exists_step hs call
    obtain ⟨answers, s', o', hok, hs', hi'⟩ := ih (hstep.shows hs) (hI hs hi hstep)
    exact ⟨answer :: answers, s', o', run_cons_ok hok₁ hok, hs', hi'⟩

/-- **A run** has its answers, and the heap is sound at its end. -/
theorem exists_run (hs : s.Shows o) (calls : List Call) :
    ∃ answers s' o', (s.run calls).outcome = .ok (answers, s') ∧ s'.Shows o' := by
  obtain ⟨answers, s', o', hok, hs', -⟩ :=
    exists_run_keeping (I := fun _ _ => True) (fun _ _ _ => trivial) hs trivial calls
  exact ⟨answers, s', o', hok, hs'⟩

/-- **Two sessions in lockstep.** If every call on two related sessions either leaves them related,
with answers that belong together, or is one at which they stop, then so it is with calls in
a row: they go on side by side, at least up to a call at which they stop. -/
theorem run_lockstep {R : Session → Session → Prop} {Stop : Session → Session → Call → Prop}
    {f : Answer → Answer}
    (hstep : ∀ s t, R s t → ∀ call, (∃ answer s' t', (s.step call).outcome = .ok (answer, s') ∧
      (t.step call).outcome = .ok (f answer, t') ∧ R s' t') ∨ Stop s t call)
    {t : Session} (hr : R s t) (calls : List Call) :
    (∃ answers s' t', (s.run calls).outcome = .ok (answers, s') ∧
      (t.run calls).outcome = .ok (answers.map f, t') ∧ R s' t') ∨
    ∃ front call back answers s' t', calls = front ++ call :: back ∧
      (s.run front).outcome = .ok (answers, s') ∧
      (t.run front).outcome = .ok (answers.map f, t') ∧ R s' t' ∧ Stop s' t' call := by
  induction calls generalizing s t with
  | nil => exact .inl ⟨[], s, t, rfl, rfl, hr⟩
  | cons call calls ih =>
    rcases hstep s t hr call with ⟨answer, s₁, t₁, hok, hok', hr₁⟩ | hstop
    · rcases ih hr₁ with ⟨answers, s', t', hrun, hrun', hr'⟩ |
        ⟨front, last, back, answers, s', t', rfl, hrun, hrun', hr', hstop⟩
      · exact .inl ⟨_, s', t', run_cons_ok hok hrun, run_cons_ok hok' hrun', hr'⟩
      · exact .inr ⟨call :: front, last, back, _, s', t', rfl, run_cons_ok hok hrun,
          run_cons_ok hok' hrun', hr', hstop⟩
    · exact .inr ⟨[], call, calls, [], s, t, rfl, rfl, rfl, hr, hstop⟩

/-! ## The start -/

variable {p : Provider} {config : Config}

/-- A session starts when the provider grants the memory for its heap. -/
theorem exists_start (hp : p.Valid) (hsize : p.region.size + 8 < Word.limit) (config : Config)
    (hg : p.Grants (Heap.bytesToBuild p.region.size)) :
    ∃ s, (start p config).outcome = .ok (.ok s) := by
  obtain ⟨h, hok, -⟩ := Heap.build_granted hp hsize config hg
  refine ⟨⟨h, []⟩, ?_⟩
  unfold start
  rw [Traced.outcome_bind, bind_of_ok hok]
  rfl

/-- A session starts over one page, for instance. -/
theorem exists_start_page : (Provider.buffer 4096).Valid ∧
    ∃ s, (start (.buffer 4096) .default).outcome = .ok (.ok s) := by
  have hp : (Provider.buffer 4096).Valid := Provider.valid_buffer (Word.lt_limit (by decide))
  have hsize : (Provider.buffer 4096).region.size + 8 < Word.limit := Word.lt_limit (by decide)
  exact ⟨hp, exists_start hp hsize .default (by decide)⟩

/-- No session starts when it does not. -/
theorem start_refused (hsize : p.region.size + 8 < Word.limit) (config : Config)
    (hg : ¬ p.Grants (Heap.bytesToBuild p.region.size)) :
    ∃ cause, (start p config).outcome = .ok (.error (.initFailed cause)) := by
  obtain ⟨cause, hok⟩ := Heap.build_refused hsize config hg
  refine ⟨cause, ?_⟩
  unfold start
  rw [Traced.outcome_bind, bind_of_ok hok]
  rfl

/-- A session starts with a heap on which nothing was leased yet. -/
theorem build_of_start_ok (hok : (start p config).outcome = .ok (.ok s)) :
    (Heap.build p config).outcome = .ok (.ok s.heap) ∧ s.leases = [] := by
  unfold start at hok
  rw [Traced.outcome_bind] at hok
  obtain ⟨built, hbuild, hs⟩ := bind_ok_iff.mp hok
  cases built with
  | error e => cases hs
  | ok h =>
    cases hs
    exact ⟨hbuild, rfl⟩

/-- What a session starts with is a heap as it was built, and no leases. -/
theorem built_of_start_ok (hp : p.Valid) (hok : (start p config).outcome = .ok (.ok s)) :
    Heap.Built p config s.heap ∧ s.leases = [] := by
  obtain ⟨hbuild, hleases⟩ := build_of_start_ok hok
  exact ⟨Heap.built_of_build_ok hp hbuild, hleases⟩

/-- **A session starts** with one free block and nothing leased. -/
theorem start_shows (hp : p.Valid) (hok : (start p config).outcome = .ok (.ok s)) :
    s.Shows ⟨[⟨s.heap.firstBlock.offset, 32, false⟩], [s.heap.firstBlock]⟩ := by
  obtain ⟨hbuilt, hleases⟩ := built_of_start_ok hp hok
  refine ⟨hbuilt.shows, ?_⟩
  rw [handles, hleases]
  exact .refl _

end Session

end BoundaryTag
