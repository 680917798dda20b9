import BoundaryTag.Proofs.Likeness
import BoundaryTag.Proofs.Sessions

/-!
# Calls without their checks

What a heap does for a call falls into two parts: the attempt, and the check that follows
if the configuration asks for checks and the attempt came to something. Only the second part
looks at what the provider says of its bounds, and only the second part can log an error.
-/

namespace BoundaryTag

open Traced (Tied)

/-- The size that a call asks for, if it asks for one. -/
def Call.request? : Call → Option Nat
  | .allocate request => some request
  | .reallocate _ request => some request
  | _ => none

/-- What the check is called that follows a call about a handle, if one follows. -/
def Call.operation? (target : Option Handle) : Call → Option String
  | .allocate _ => some "allocate"
  | .free _ => target.map fun _ => "free"
  | .reallocate _ request =>
    some (if target = none then "allocate" else if request = 0 then "free" else "reallocate")
  | .write .. => none

namespace Heap

open Numeral (hex)

/-- Frees the block behind a handle. -/
def vacate (h : Heap) (handle : Handle) : Traced (Except AllocError Unit × Heap) := do
  match ← h.resolve handle with
  | .error e => return (.error e, h)
  | .ok b =>
    let h := h.withArena (← h.arena.release b)
    Traced.emit .debug s!"free {hex handle.offset}"
    return (.ok (), h)

/-- Resizes the block behind a handle for a request of so many bytes. -/
def alter (h : Heap) (handle : Handle) (request : Nat) :
    Traced (Except AllocError Handle × Heap) := do
  match ← h.resolve handle with
  | .error e => return (.error e, h)
  | .ok b =>
    match blockSizeFor? request with
    | none => return (.error (.outOfMemory request), h)
    | some needed => h.resize b needed request

/-- What a call about a handle does before any check. -/
def attempt (h : Heap) (target : Option Handle) : Call → Traced (Answer × Heap)
  | .allocate request => Prod.map (·.map some) id <$> h.allocateBlock request
  | .free _ =>
    target.elim (pure (.ok none, h)) fun handle =>
      Prod.map (·.map fun _ => none) id <$> h.vacate handle
  | .reallocate _ request =>
    target.elim (Prod.map (·.map some) id <$> h.allocateBlock request) fun handle =>
      if request = 0 then Prod.map (·.map fun _ => none) id <$> h.vacate handle
      else Prod.map (·.map some) id <$> h.alter handle request
  | .write _ first count value =>
    target.elim (pure (.ok none, h)) fun handle =>
      Prod.map (·.map fun _ => none) id <$> h.fill handle first count value

/-- The check that follows an attempt. -/
def audit (h : Heap) (operation : Option String) (answer : Answer) : Traced Unit :=
  match operation, answer with
  | some operation, .ok _ => h.selfCheck operation
  | _, _ => pure ()

/-- What is done with an answer is the same if it is the same for errors and for all else. -/
theorem bind_congr_answer {α β : Type} {x : Traced (Except AllocError α × Heap)}
    {f g : Except AllocError α × Heap → Traced β}
    (herror : ∀ e h, f (.error e, h) = g (.error e, h))
    (hok : ∀ a h, f (.ok a, h) = g (.ok a, h)) : x >>= f = x >>= g := by
  refine bind_congr fun found => ?_
  obtain ⟨answer, h⟩ := found
  cases answer with
  | error e => exact herror e h
  | ok a => exact hok a h

/-- Allocating is the attempt and the check. -/
theorem allocate_eq (h : Heap) (request : Nat) :
    h.allocate request = do
      let (answer, h) ← h.allocateBlock request
      h.audit (some "allocate") (answer.map some)
      return (answer, h) := by
  unfold allocate
  exact bind_congr_answer (fun _ _ => rfl) fun _ _ => rfl

/-- So is freeing. -/
theorem free_eq (h : Heap) (b : Handle) :
    h.free (some b) = do
      let (answer, h) ← h.vacate b
      h.audit (some "free") (answer.map fun _ => none)
      return (answer, h) := by
  unfold free vacate
  simp only [bind_assoc]
  refine bind_congr fun found => ?_
  cases found with
  | error e => rfl
  | ok b =>
    simp only [bind_assoc, pure_bind]
    rfl

/-- So is changing a size. -/
theorem reallocate_eq (h : Heap) (b : Handle) {request : Nat} (hrequest : request ≠ 0) :
    h.reallocate (some b) request = do
      let (answer, h) ← h.alter b request
      h.audit (some "reallocate") (answer.map some)
      return (answer.map some, h) := by
  unfold reallocate alter
  dsimp only
  rw [if_neg hrequest]
  simp only [bind_assoc]
  refine bind_congr fun found => ?_
  cases found with
  | error e => rfl
  | ok b =>
    dsimp only
    cases blockSizeFor? request with
    | none => rfl
    | some needed => exact bind_congr_answer (fun _ _ => rfl) fun _ _ => rfl

namespace Likeness

variable {logged : Prop} {R : Heap → Heap → Prop} {h k : Heap}

theorem vacate (hR : Likeness R) (hk : R h k) (b : Handle) :
    Tied logged (Alike R) (h.vacate b) (k.vacate b) := by
  unfold Heap.vacate
  rw [hR.resolve_eq hk, hR.arena hk]
  refine .same _ fun found => ?_
  cases found with
  | error e => exact .pure ⟨rfl, hk⟩
  | ok b => exact .same _ fun a => .same _ fun _ => .pure ⟨rfl, hR.withArena hk a⟩

theorem alter {request : Nat} (hR : Likeness R) (hk : R h k)
    (hsupplies : Supplies logged R request h k) (b : Handle) :
    Tied logged (Alike R) (h.alter b request) (k.alter b request) := by
  unfold Heap.alter
  rw [hR.resolve_eq hk]
  refine .same _ fun found => ?_
  cases found with
  | error e => exact .pure ⟨rfl, hk⟩
  | ok b =>
    dsimp only
    cases blockSizeFor? request with
    | none => exact .pure ⟨rfl, hk⟩
    | some needed => exact hR.resize hk hsupplies

/-- **Attempts take the same course** on heaps that are alike, if the providers do not make
a difference. -/
theorem attempt (hR : Likeness R) (hk : R h k) (target : Option Handle) (call : Call)
    (hsupplies : ∀ request ∈ call.request?, Supplies logged R request h k) :
    Tied logged (Alike R) (h.attempt target call) (k.attempt target call) := by
  cases call with
  | allocate request =>
    exact map_alike (hR.allocateBlock hk (hsupplies request rfl)) _
  | free place =>
    cases target with
    | none => exact .pure ⟨rfl, hk⟩
    | some b => exact map_alike (hR.vacate hk b) _
  | reallocate place request =>
    cases target with
    | none => exact map_alike (hR.allocateBlock hk (hsupplies request rfl)) _
    | some b =>
      unfold Heap.attempt
      dsimp only [Option.elim]
      split
      · exact map_alike (hR.vacate hk b) _
      · exact map_alike (hR.alter hk (hsupplies request rfl) b) _
  | write place first count value =>
    cases target with
    | none => exact .pure ⟨rfl, hk⟩
    | some b => exact map_alike (hR.fill hk b first count value) _

end Likeness

end Heap

namespace Session

/-- The leases after a call that was answered. -/
def leasesAfter (leases : List Lease) : Call → Answer → List Lease
  | .allocate request, .ok (some handle) => leases ++ [⟨handle, request⟩]
  | .free place, .ok _ => leases.eraseIdx place
  | .reallocate place _, .ok none => leases.eraseIdx place
  | .reallocate place request, .ok (some handle) => lease leases place ⟨handle, request⟩
  | _, _ => leases

/-- **A call is an attempt, and a check if that came to something.** -/
theorem step_eq (s : Session) (call : Call) :
    s.step call = do
      let (answer, heap) ← s.heap.attempt (s.target call) call
      heap.audit (call.operation? (s.target call)) answer
      return (answer, ⟨heap, leasesAfter s.leases call answer⟩) := by
  unfold step Heap.attempt target
  cases call with
  | allocate request =>
    dsimp only
    rw [Heap.allocate_eq]
    simp only [bind_assoc, bind_map_left, pure_bind]
    exact Heap.bind_congr_answer (fun _ _ => rfl) fun _ _ => rfl
  | free place =>
    dsimp only
    cases s.handle? place with
    | none => rfl
    | some b =>
      dsimp only [Option.elim]
      rw [Heap.free_eq]
      simp only [bind_assoc, bind_map_left, pure_bind]
      exact Heap.bind_congr_answer (fun _ _ => rfl) fun _ _ => rfl
  | reallocate place request =>
    dsimp only
    cases s.handle? place with
    | none =>
      unfold Heap.reallocate
      dsimp only [Option.elim]
      rw [Heap.allocate_eq]
      simp only [bind_assoc, bind_map_left, pure_bind]
      exact Heap.bind_congr_answer (fun _ _ => rfl) fun _ _ => rfl
    | some b =>
      dsimp only [Option.elim]
      by_cases hrequest : request = 0
      · unfold Heap.reallocate
        dsimp only
        rw [if_pos hrequest, if_pos hrequest, Heap.free_eq, Call.operation?, if_pos hrequest]
        simp only [bind_assoc, bind_map_left, pure_bind]
        exact Heap.bind_congr_answer (fun _ _ => rfl) fun _ _ => rfl
      · rw [if_neg hrequest, Heap.reallocate_eq _ _ hrequest, Call.operation?, if_neg hrequest]
        simp only [bind_assoc, bind_map_left, pure_bind]
        exact Heap.bind_congr_answer (fun _ _ => rfl) fun _ _ => rfl
  | write place first count value =>
    dsimp only
    cases s.handle? place with
    | none => rfl
    | some b =>
      dsimp only [Option.elim]
      simp only [bind_map_left]
      exact Heap.bind_congr_answer (fun _ _ => rfl) fun _ _ => rfl

variable {s s' : Session} {o : Outline} {call : Call} {answer : Answer} {h' : Heap}
  {request place : Nat}

/-- What comes of a call comes of its two parts. -/
theorem step_ok_iff : (s.step call).outcome = .ok (answer, s') ↔
    ∃ h', (s.heap.attempt (s.target call) call).outcome = .ok (answer, h') ∧
      (h'.audit (call.operation? (s.target call)) answer).outcome = .ok () ∧
      s' = ⟨h', leasesAfter s.leases call answer⟩ := by
  rw [step_eq, Traced.outcome_bind, bind_ok_iff]
  constructor
  · intro h
    obtain ⟨⟨answer', h'⟩, hattempt, hrest⟩ := h
    rw [Traced.outcome_bind] at hrest
    obtain ⟨_, haudit, hrest⟩ := bind_ok_iff.mp hrest
    cases hrest
    exact ⟨h', hattempt, haudit, rfl⟩
  · intro h
    obtain ⟨h', hattempt, haudit, rfl⟩ := h
    refine ⟨_, hattempt, ?_⟩
    rw [Traced.outcome_bind]
    exact bind_ok_iff.mpr ⟨_, haudit, rfl⟩

/-- **An attempt always comes to an end,** and what it leaves shows an outline. -/
theorem Shows.exists_attempt (hs : s.Shows o) (call : Call) :
    ∃ answer h' o', (s.heap.attempt (s.target call) call).outcome = .ok (answer, h') ∧
      Shows ⟨h', leasesAfter s.leases call answer⟩ o' := by
  obtain ⟨answer, s', o', hok, hstep⟩ := exists_step hs call
  obtain ⟨h', hattempt, -, rfl⟩ := step_ok_iff.mp hok
  exact ⟨answer, h', o', hattempt, hstep.shows hs⟩

/-! ## A call from what the heap does -/

theorem step_of_allocate {found : Except AllocError Handle}
    (hok : (s.heap.allocate request).outcome = .ok (found, h')) :
    (s.step (.allocate request)).outcome = .ok (found.map some,
      ⟨h', leasesAfter s.leases (.allocate request) (found.map some)⟩) := by
  unfold step
  dsimp only
  rw [Traced.outcome_bind, bind_of_ok hok]
  cases found <;> rfl

theorem step_of_free {found : Except AllocError Unit}
    (hok : (s.heap.free (s.handle? place)).outcome = .ok (found, h')) :
    (s.step (.free place)).outcome = .ok (found.map fun _ => none,
      ⟨h', leasesAfter s.leases (.free place) (found.map fun _ => none)⟩) := by
  unfold step
  dsimp only
  rw [Traced.outcome_bind, bind_of_ok hok]
  cases found <;> rfl

theorem step_of_reallocate
    (hok : (s.heap.reallocate (s.handle? place) request).outcome = .ok (answer, h')) :
    (s.step (.reallocate place request)).outcome = .ok (answer,
      ⟨h', leasesAfter s.leases (.reallocate place request) answer⟩) := by
  unfold step
  dsimp only
  rw [Traced.outcome_bind, bind_of_ok hok]
  rcases answer with e | _ | b <;> rfl

end Session

end BoundaryTag
