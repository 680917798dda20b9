import BoundaryTag.Proofs.SameOutline

/-!
# Payloads make no difference

Payloads, tags and links share the bytes of one region, and what is a payload now is links and
tags when it has been freed. A caller who writes into payloads could therefore hope to steer
the heap, or to learn something of it that others wrote. Neither is possible: what is to be seen
of a session is determined by the calls other than writes.

> `observations_filter`: sessions whose heaps have the same outline look the same at every step, if
> all writes are left out of one of them.
>
> `run_observations_eq`: so two lists of calls that differ in their writes alone show the same.
-/

namespace BoundaryTag

instance : DecidablePred Call.Writes
  | .write .. => isTrue trivial
  | .allocate _ => isFalse id
  | .free _ => isFalse id
  | .reallocate .. => isFalse id

namespace Session

/-- What is to be seen while calls are made: after each of them that is no write, the answer
and all that can be asked of the heap. A fault is seen, and ends it. -/
def observations (s : Session) : List Call → List (Except Fault (Answer × Heap.Observation))
  | [] => []
  | call :: calls =>
    match (s.step call).outcome with
    | .error fault => [.error fault]
    | .ok (answer, s') =>
      if call.Writes then s'.observations calls
      else .ok (answer, s'.heap.observation) :: s'.observations calls

variable {s s' t : Session} {o : Outline} {call : Call} {calls : List Call} {answer : Answer}
  {p : Provider} {config : Config} {s₀ : Session}

/-- After a call that ends there is more to be seen. -/
theorem observations_cons_of_ok (hok : (s.step call).outcome = .ok (answer, s')) :
    s.observations (call :: calls) =
      if call.Writes then s'.observations calls
      else .ok (answer, s'.heap.observation) :: s'.observations calls := by
  rw [observations, hok]

/-- After a fault there is not. -/
theorem observations_cons_of_error {fault : Fault} (hok : (s.step call).outcome = .error fault) :
    s.observations (call :: calls) = [.error fault] := by
  rw [observations, hok]

/-- A session only shows a heap that it also holds. -/
theorem Shows.of_heap {o' : Outline} (hs : s.Shows o) (hh : s.heap.Shows o') : s.Shows o' := by
  have hdecode := hs.heap.realizes.decode_eq.symm.trans hh.realizes.decode_eq
  have ho : o = o' := congrArg Allocator.outline (Except.ok.inj hdecode)
  exact ho ▸ hs

/-- The handle that a call is about is live. -/
theorem Shows.live_target (hs : s.Shows o) (call : Call) : Heap.Live o (s.target call) := by
  intro b hb
  have hmem : b ∈ s.handles := by
    cases call with
    | allocate request => cases hb
    | free | reallocate | write => exact mem_handles_of_handle? hb
  exact hs.exists_inUse hmem

/-- Which handle a call is about depends on the leases alone. -/
theorem target_eq_of_leases (hleases : t.leases = s.leases) (call : Call) :
    t.target call = s.target call := by
  unfold target handle? handles
  rw [hleases]

/-- What comes of a call under other settings of the check. -/
theorem step_under_ok {v : CheckSettings} {h' : Heap}
    (hok : (s.heap.attempt (s.target call) call).outcome = .ok (answer, h')) :
    ((s.under v).step call).outcome =
      ((h'.under v).audit (call.operation? (s.target call)) answer).outcome >>= fun _ =>
        .ok (answer, (Session.mk h' (leasesAfter s.leases call answer)).under v) := by
  rw [step_under, Traced.outcome_bind, bind_of_ok hok]
  exact Traced.outcome_bind ..

/-- A write does not show. -/
theorem observations_write (hs : s.Shows o) (v : CheckSettings) (hcall : call.Writes)
    (calls : List Call) :
    ∃ s' : Session, s'.Shows o ∧ s'.leases = s.leases ∧ s.heap.SameOutline s'.heap o ∧
      (s.under v).observations (call :: calls) = (s'.under v).observations calls := by
  obtain ⟨h', hok, hk⟩ := hs.heap.exists_write (hs.live_target call) hcall
  have hleases : leasesAfter s.leases call (.ok none) = s.leases := by
    cases call with
    | write => rfl
    | allocate | free | reallocate => exact absurd hcall id
  have hstep : ((s.under v).step call).outcome =
      .ok (.ok none, (Session.mk h' s.leases).under v) := by
    rw [step_under_ok hok, hleases]
    cases call with
    | write => rfl
    | allocate | free | reallocate => exact absurd hcall id
  refine ⟨⟨h', s.leases⟩, ⟨hk.right, hs.leased⟩, rfl, hk, ?_⟩
  rw [observations_cons_of_ok hstep, if_pos hcall]

/-- **Sessions whose heaps have the same outline look the same** at every step, even if all writes
are left out of one of them, and whatever the settings of the check are. -/
theorem observations_filter (hs : s.Shows o) (hk : s.heap.SameOutline t.heap o)
    (hleases : t.leases = s.leases) (v : CheckSettings) (calls : List Call) :
    (t.under v).observations (calls.filter (¬ ·.Writes)) = (s.under v).observations calls := by
  induction calls generalizing s t o with
  | nil => rfl
  | cons call calls ih =>
    by_cases hcall : call.Writes
    · rw [List.filter_cons_of_neg (by simpa using hcall)]
      obtain ⟨s', hs', hleases', hk', hobservations⟩ := observations_write hs v hcall calls
      rw [hobservations]
      -- the write was made on one side only, and both sides have the same outline still
      exact ih hs' (hk.of_continues_kept hk'.continues (.refl t.heap) hk'.right hk.right
        hk'.size_eq rfl) (hleases.trans hleases'.symm)
    · rw [List.filter_cons_of_pos (by simpa using hcall)]
      have htarget := target_eq_of_leases hleases call
      obtain ⟨answer, h', k', o', hok, hok', hk'⟩ := hk.attempt (hs.live_target call) hcall
      have hright := step_under_ok (v := v) (s := t) (htarget ▸ hok')
      rw [htarget, hk'.audit_eq, hleases] at hright
      have hleft := step_under_ok (v := v) hok
      -- the checks of both heaps have the same outcome
      cases haudit : ((h'.under v).audit (call.operation? (s.target call)) answer).outcome with
      | error fault =>
        rw [haudit] at hleft hright
        rw [observations_cons_of_error hleft, observations_cons_of_error hright]
      | ok _ =>
        rw [haudit] at hleft hright
        rw [observations_cons_of_ok hleft, observations_cons_of_ok hright, if_neg hcall,
          if_neg hcall]
        have hs' : Session.Shows ⟨h', leasesAfter s.leases call answer⟩ o' := by
          obtain ⟨answer₁, h₁, o₁, hok₁, hs₁⟩ := hs.exists_attempt call
          cases hok.symm.trans hok₁
          exact hs₁.of_heap hk'.left
        rw [ih (t := ⟨k', leasesAfter s.leases call answer⟩) hs' hk' rfl]
        exact congrArg (fun observation => Except.ok (answer, observation) :: _)
          (hk'.observation_eq v)

/-- By the true bounds there is no fault to be seen. -/
theorem Shows.observations_ok (hs : s.Shows o) (calls : List Call) :
    ∀ seen ∈ s.observations calls, ∃ shown, seen = .ok shown := by
  induction calls generalizing s o with
  | nil => exact fun _ => nofun
  | cons call calls ih =>
    obtain ⟨answer, s', o', hok, hstep⟩ := exists_step hs call
    have hrest := ih (hstep.shows hs)
    rw [observations_cons_of_ok hok]
    split
    · exact hrest
    · exact List.forall_mem_cons.mpr ⟨⟨_, rfl⟩, hrest⟩

/-- Whatever bounds a provider claims, a session starts as by the true ones, with other settings of
the check. -/
theorem exists_start_under (hp : (p.under .full).Valid)
    (hok : (start p config).outcome = .ok (.ok s₀)) :
    ∃ (s : Session) (o : Outline) (v : CheckSettings), s.Shows o ∧ s₀ = s.under v := by
  have hstart := start_under (p.under .full) ⟨p.claimedLow, p.claimedHigh, config.checks⟩
    config.chunk
  have hok : (start ((p.under .full).under ⟨p.claimedLow, p.claimedHigh, config.checks⟩)
    ⟨config.chunk, config.checks⟩).outcome = .ok (.ok s₀) := hok
  rw [hstart, Traced.outcome_bind] at hok
  obtain ⟨started, hplain, hok⟩ := bind_ok_iff.mp hok
  cases started with
  | error e => cases hok
  | ok s =>
    rw [Traced.outcome_bind] at hok
    obtain ⟨_, -, hok⟩ := bind_ok_iff.mp hok
    cases hok
    exact ⟨s, _, _, start_shows hp hplain, rfl⟩

/-- **What is written into payloads makes no difference.** Calls that differ in their writes
alone show the same at every step: the same answers and errors, the same blocks and free list,
the same size and count of extensions, and a check that ends in the same way, be it in a fault.
This is so whatever bounds the provider claims, as long as its region is within its capacity;
if it claims the true ones, there is no fault. -/
theorem run_observations_eq (hp : (p.under .full).Valid)
    (hok : (start p config).outcome = .ok (.ok s₀)) {calls calls' : List Call}
    (hsame : calls.filter (¬ ·.Writes) = calls'.filter (¬ ·.Writes)) :
    s₀.observations calls = s₀.observations calls' ∧
      (p.Valid → ∀ seen ∈ s₀.observations calls, ∃ shown, seen = .ok shown) := by
  obtain ⟨s, o, v, hs, rfl⟩ := exists_start_under hp hok
  refine ⟨?_, fun hp => (start_shows hp hok).observations_ok calls⟩
  calc (s.under v).observations calls
    _ = (s.under v).observations (calls.filter (¬ ·.Writes)) :=
      (observations_filter hs hs.heap.sameOutline_self rfl v calls).symm
    _ = (s.under v).observations (calls'.filter (¬ ·.Writes)) := by rw [hsame]
    _ = (s.under v).observations calls' :=
      observations_filter hs hs.heap.sameOutline_self rfl v calls'

/-- Whatever bytes a block is filled with before it is moved and freed, the moves look the
same. -/
theorem run_observations_eq_page : ∃ s₀, (start (.buffer 4096) .default).outcome = .ok (.ok s₀) ∧
    ∀ value value' : Nat → UInt8,
      s₀.observations [.allocate 100, .write 0 0 100 value, .reallocate 0 500, .free 0] =
        s₀.observations [.allocate 100, .write 0 0 50 value', .reallocate 0 500,
          .write 0 7 400 value, .free 0] := by
  obtain ⟨hp, s₀, hok⟩ := exists_start_page
  exact ⟨s₀, hok, fun value value' => (run_observations_eq (p := .buffer 4096) hp hok (by rfl)).1⟩

end Session

end BoundaryTag
