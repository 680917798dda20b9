import BoundaryTag.Proofs.CheckSettings

/-!
# Logs without errors

The only record of the gravest level is that of a check that found something wrong. All else
that a heap does logs warnings at most, whatever state the heap is in (`attempt_logsNoError`), and
on a heap that shows an outline no check finds anything wrong (`audit_logsNoError`). The proofs
follow the definitions line by line, with `LogsNoError.bind` for every line.

> `run_checked`: so a run with checks after every operation logs no error, and apart from its
> log it is the run without checks.
-/

namespace BoundaryTag

namespace Traced

variable {α β : Type} {x : Traced α} {f : α → Traced β}

/-- The computation logs no error. -/
structure LogsNoError (x : Traced α) : Prop where
  level : ∀ r ∈ x.records, r.level ≠ .error

theorem LogsNoError.pure (a : α) : (Pure.pure a : Traced α).LogsNoError := ⟨List.forall_mem_nil _⟩

/-- What may fault logs nothing. -/
theorem LogsNoError.lift (x : Except Fault α) : (liftM x : Traced α).LogsNoError :=
  ⟨List.forall_mem_nil _⟩

theorem LogsNoError.fault (f : Fault) : (fault f : Traced α).LogsNoError := ⟨List.forall_mem_nil _⟩

theorem LogsNoError.emit {level : Level} (h : level ≠ .error) (text : String) :
    (emit level text).LogsNoError :=
  ⟨List.forall_mem_singleton.mpr h⟩

/-- A sequence logs no error if its first part does not, nor the second part after any outcome
that the first one can have. -/
theorem LogsNoError.bind_of_ok (hx : x.LogsNoError)
    (hf : ∀ a, x.outcome = .ok a → (f a).LogsNoError) : (x >>= f).LogsNoError := by
  constructor
  cases hok : x.outcome with
  | error e =>
    rw [records_bind_error hok]
    exact hx.level
  | ok a =>
    rw [records_bind_ok hok]
    intro r hr
    rcases List.mem_append.mp hr with hr | hr
    · exact hx.level r hr
    · exact (hf a hok).level r hr

theorem LogsNoError.bind (hx : x.LogsNoError) (hf : ∀ a, (f a).LogsNoError) :
    (x >>= f).LogsNoError :=
  hx.bind_of_ok fun a _ => hf a

theorem LogsNoError.map (hx : x.LogsNoError) (f : α → β) : (f <$> x).LogsNoError := by
  rw [map_eq_pure_bind]
  exact hx.bind fun a => .pure (f a)

end Traced

open Traced (LogsNoError)

/-! ## The free list and the blocks -/

namespace Arena

/-- To join the list is a trace. -/
theorem push_logsNoError (a : Arena) (b : Block) : (a.push b).LogsNoError := by
  unfold push
  refine .bind (.emit (by decide) _) fun _ => .bind (.lift _) fun _ => .bind (.lift _) fun _ => ?_
  cases a.freeList.head with
  | none => exact .bind (.pure _) fun _ => .bind (.lift _) fun _ => .pure _
  | some second => exact .bind (.lift _) fun _ => .bind (.lift _) fun _ => .pure _

/-- So is to leave it. A block that fails to leave is a fault, which no record tells of. -/
theorem unlink_logsNoError (a : Arena) (b : Block) : (a.unlink b).LogsNoError := by
  unfold unlink
  refine .bind (.emit (by decide) _) fun _ => .bind (.lift _) fun used => ?_
  split
  · exact .fault _
  · exact .bind (.lift _) fun _ => .bind (.lift _) fun _ => .bind (.lift _) fun _ =>
      .bind (.lift _) fun _ => .bind (.lift _) fun _ => .pure _

theorem unlinkUnless_logsNoError (a : Arena) (used : Bool) (b : Block) :
    (a.unlinkUnless used b).LogsNoError := by
  unfold unlinkUnless
  split
  · exact .pure _
  · exact a.unlink_logsNoError b

/-- A merge is a trace of its own, between those of the neighbours that leave the list and
of the block that joins it. -/
theorem coalesce_logsNoError (a : Arena) (b : Block) : (a.coalesce b).LogsNoError := by
  unfold coalesce
  refine .bind (.lift _) fun _ => .bind (.lift _) fun _ => .bind (.lift _) fun _ =>
    .bind (.lift _) fun _ => .bind (.lift _) fun _ => .bind (unlinkUnless_logsNoError ..) fun _ =>
    .bind (unlinkUnless_logsNoError ..) fun _ => .bind (.lift _) fun _ => .bind (.lift _) fun _ =>
    .bind (.lift _) fun _ => .bind (.lift _) fun _ => .bind (.lift _) fun _ => ?_
  exact .bind (.emit (by decide) _) fun _ => .bind (push_logsNoError ..) fun _ => .pure _

/-- So is a split, before the merge of the rest. -/
theorem carve_logsNoError (a : Arena) (b : Block) (kept total : Nat) :
    (a.carve b kept total).LogsNoError := by
  unfold carve
  refine .bind (.lift _) fun _ => .bind (.lift _) fun _ => .bind (.lift _) fun _ =>
    .bind (.lift _) fun _ => ?_
  exact .bind (.emit (by decide) _) fun _ => .bind (coalesce_logsNoError ..) fun _ => .pure _

theorem occupy_logsNoError (a : Arena) (b : Block) (needed total : Nat) :
    (a.occupy b needed total).LogsNoError := by
  unfold occupy
  refine .bind (.lift _) fun _ => ?_
  split
  · exact carve_logsNoError ..
  · exact .bind (.lift _) fun _ => .pure _

theorem take_logsNoError (a : Arena) (b : Block) (needed : Nat) :
    (a.take b needed).LogsNoError := by
  unfold take
  exact .bind (.lift _) fun _ => .bind (unlink_logsNoError ..) fun _ => occupy_logsNoError ..

/-- A block is freed with the traces of its merge alone. -/
theorem release_logsNoError (a : Arena) (b : Block) : (a.release b).LogsNoError := by
  unfold release
  exact .bind (.lift _) fun _ => .bind (.lift _) fun _ => .bind (coalesce_logsNoError ..) fun _ =>
    .pure _

end Arena

/-- Whatever a provider refuses, it says so in a debug record at most. -/
theorem Provider.extend_logsNoError (p : Provider) (bytes : Nat) :
    (p.extend bytes).LogsNoError := by
  unfold extend
  dsimp only
  split
  · exact .pure _
  · split
    · exact .bind (.emit (by decide) _) fun _ => .pure _
    · exact .pure _

/-! ## Attempts -/

namespace Heap

variable {h : Heap} {o : Outline}

/-- Growth is a debug record, and a refusal none. -/
theorem extend_logsNoError (h : Heap) (bytes : Nat) : (h.extend bytes).LogsNoError := by
  unfold extend
  refine .bind (h.provider.extend_logsNoError bytes) fun asked => ?_
  obtain ⟨granted, q⟩ := asked
  cases granted with
  | error cause => exact .pure _
  | ok old =>
    refine .bind (.lift _) fun _ => .bind (.lift _) fun _ => .bind (.lift _) fun _ =>
      .bind (.lift _) fun _ => ?_
    exact .bind (.emit (by decide) _) fun _ =>
      .bind (Arena.coalesce_logsNoError ..) fun _ => .pure _

theorem findFit_logsNoError (h : Heap) (needed : Nat) : (h.findFit needed).LogsNoError := by
  unfold findFit
  refine .bind (.lift _) fun found => ?_
  cases found with
  | none => exact h.extend_logsNoError _
  | some b => exact .pure _

/-- An allocation that the provider has no memory for is a warning. -/
theorem allocateBlock_logsNoError (h : Heap) (request : Nat) :
    (h.allocateBlock request).LogsNoError := by
  unfold allocateBlock
  cases blockSizeFor? request with
  | none => exact .pure _
  | some needed =>
    refine .bind (h.findFit_logsNoError needed) fun found => ?_
    obtain ⟨found, h⟩ := found
    cases found with
    | error cause => exact .bind (.emit (by decide) _) fun _ => .pure _
    | ok b =>
      exact .bind (Arena.take_logsNoError ..) fun _ => .bind (.emit (by decide) _) fun _ => .pure _

/-- A handle that is turned down is a warning as well. -/
theorem resolve_logsNoError (h : Heap) (b : Handle) : (h.resolve b).LogsNoError := by
  have hreject : ∀ reason e, (reject b reason e).LogsNoError := fun _ _ =>
    .bind (.emit (by decide) _) fun _ => .pure _
  unfold resolve
  split
  · exact hreject ..
  · refine .bind (.lift _) fun header => .bind (.lift _) fun framed => ?_
    split
    · split
      · exact .pure _
      · exact hreject ..
    · exact hreject ..

/-- A move is a debug record, after that of the allocation. -/
theorem relocate_logsNoError (h : Heap) (b : Block) (request : Nat) :
    (h.relocate b request).LogsNoError := by
  unfold relocate
  refine .bind (h.allocateBlock_logsNoError request) fun found => ?_
  obtain ⟨found, h⟩ := found
  cases found with
  | error e => exact .pure _
  | ok target =>
    exact .bind (.lift _) fun _ => .bind (.emit (by decide) _) fun _ =>
      .bind (Arena.release_logsNoError ..) fun _ => .pure _

/-- So is a block that gives up its rest or takes in the one behind it. -/
theorem resize_logsNoError (h : Heap) (b : Block) (needed request : Nat) :
    (h.resize b needed request).LogsNoError := by
  have hshrink : ∀ current, (h.shrink b current needed).LogsNoError := by
    intro current
    unfold shrink
    split
    · exact .bind (.emit (by decide) _) fun _ => .bind (Arena.carve_logsNoError ..) fun _ => .pure _
    · exact .pure _
  have hlengthen : ∀ current, (h.lengthen b current needed request).LogsNoError := by
    intro current
    unfold lengthen
    refine .bind (.lift _) fun _ => .bind (.lift _) fun _ => .bind (.lift _) fun _ =>
      .bind (.lift _) fun _ => ?_
    split
    · exact .bind (.emit (by decide) _) fun _ => .bind (Arena.unlink_logsNoError ..) fun _ =>
        .bind (Arena.occupy_logsNoError ..) fun _ => .pure _
    · exact h.relocate_logsNoError b request
  unfold resize
  refine .bind (.lift _) fun current => ?_
  split
  · exact hlengthen current
  · exact .bind (hshrink current) fun _ => .pure _

theorem vacate_logsNoError (h : Heap) (b : Handle) : (h.vacate b).LogsNoError := by
  unfold vacate
  refine .bind (h.resolve_logsNoError b) fun found => ?_
  cases found with
  | error e => exact .pure _
  | ok b =>
    exact .bind (Arena.release_logsNoError ..) fun _ => .bind (.emit (by decide) _) fun _ => .pure _

/-- A size that is beyond a word is reported without a record. -/
theorem alter_logsNoError (h : Heap) (b : Handle) (request : Nat) :
    (h.alter b request).LogsNoError := by
  unfold alter
  refine .bind (h.resolve_logsNoError b) fun found => ?_
  cases found with
  | error e => exact .pure _
  | ok b =>
    dsimp only
    cases blockSizeFor? request with
    | none => exact .pure _
    | some needed => exact h.resize_logsNoError b needed request

theorem fill_logsNoError (h : Heap) (b : Handle) (first count : Nat) (value : Nat → UInt8) :
    (h.fill b first count value).LogsNoError := by
  unfold fill
  refine .bind (h.resolve_logsNoError b) fun found => ?_
  cases found with
  | error e => exact .pure _
  | ok b => exact .bind (.lift _) fun _ => .bind (.lift _) fun _ => .pure _

/-- **An attempt logs no error,** whatever state the heap is in and whatever the handle. -/
theorem attempt_logsNoError (h : Heap) (target : Option Handle) (call : Call) :
    (h.attempt target call).LogsNoError := by
  cases call with
  | allocate request => exact (h.allocateBlock_logsNoError request).map _
  | free place =>
    cases target with
    | none => exact .pure _
    | some b => exact (h.vacate_logsNoError b).map _
  | reallocate place request =>
    cases target with
    | none => exact (h.allocateBlock_logsNoError request).map _
    | some b =>
      unfold attempt
      dsimp only [Option.elim]
      split
      · exact (h.vacate_logsNoError b).map _
      · exact (h.alter_logsNoError b request).map _
  | write place first count value =>
    cases target with
    | none => exact .pure _
    | some b => exact (h.fill_logsNoError b first count value).map _

/-! ## Checks -/

/-- A heap that shows an outline passes the check. -/
theorem Shows.check_ok (hs : h.Shows o) : ∃ report, h.check = .ok (.ok report) :=
  ⟨_, hs.placed.check_ok_iff.mpr ⟨o, hs.sound, rfl⟩⟩

/-- So what the check logs is a trace. -/
theorem Shows.selfCheck_logsNoError (hs : h.Shows o) (operation : String) :
    (h.selfCheck operation).LogsNoError := by
  obtain ⟨report, hcheck⟩ := hs.check_ok
  unfold Heap.selfCheck
  rw [hcheck]
  split
  · exact .bind_of_ok (.lift _) fun answer hanswer => by
      cases hanswer
      exact .emit (by decide) _
  · exact .pure _

/-- Nor does it fault. -/
theorem Shows.audit_ok (hs : h.Shows o) (operation : Option String) (answer : Answer) :
    (h.audit operation answer).outcome = .ok () := by
  unfold audit
  split
  · exact hs.selfCheck _
  · rfl

theorem Shows.audit_logsNoError (hs : h.Shows o) (operation : Option String) (answer : Answer) :
    (h.audit operation answer).LogsNoError := by
  unfold audit
  split
  · exact hs.selfCheck_logsNoError _
  · exact .pure _

/-! ## The start -/

/-- All that is recorded of the first blocks is that one joins the list. -/
theorem layOut_logsNoError (r : Region) (start : Nat) : (layOut r start).LogsNoError := by
  unfold layOut
  refine .bind (.lift _) fun _ => .bind (.lift _) fun _ => .bind (.lift _) fun _ =>
    .bind (.lift _) fun _ => .bind (.lift _) fun _ => .bind (.lift _) fun _ => ?_
  exact .bind (Arena.push_logsNoError ..) fun _ => .pure _

/-- A heap that is built, or not, without checks is a debug record or a warning. -/
theorem build_logsNoError (p : Provider) (chunk : Nat) : (build p ⟨chunk, false⟩).LogsNoError := by
  unfold build
  refine .bind (.lift _) fun _ => .bind (.lift _) fun _ => .bind (.lift _) fun _ =>
    .bind (p.extend_logsNoError _) fun asked => ?_
  obtain ⟨granted, q⟩ := asked
  cases granted with
  | error cause => exact .bind (.emit (by decide) _) fun _ => .pure _
  | ok base =>
    refine .bind (.lift _) fun _ => .bind (layOut_logsNoError ..) fun _ =>
      .bind (.emit (by decide) _) fun _ => .bind ?_ fun _ => .pure _
    rw [selfCheck_unchecked rfl]
    exact .pure _

end Heap

namespace Session

variable {s : Session} {o : Outline} {p : Provider}

/-- The session with checks after every operation. -/
def checked (s : Session) : Session :=
  { s with heap := { s.heap with config := { s.heap.config with checks := true } } }

/-- A valid provider claims nothing but the truth. -/
theorem under_full_of_valid (hp : p.Valid) : p.under .full = p := by
  obtain ⟨hlow, hhigh⟩ := hp.honest
  unfold Provider.under
  rw [show CheckSettings.full.low = p.claimedLow from hlow.symm,
    show CheckSettings.full.high = p.claimedHigh from hhigh.symm]

/-- To check by the true bounds is to set the flag. -/
theorem Shows.under_full (hs : s.Shows o) : s.under .full = s.checked := by
  unfold under Heap.under
  rw [under_full_of_valid hs.heap.valid]
  rfl

/-- One call with a check and without. -/
theorem step_checked (hs : s.Shows o) (call : Call) :
    ∃ answer s' o', (s.step call).outcome = .ok (answer, s') ∧ s'.Shows o' ∧
      (s.checked.step call).outcome = .ok (answer, s'.checked) ∧
      (s.checked.step call).LogsNoError := by
  obtain ⟨answer, s', o', hok, hstep⟩ := exists_step hs call
  have hs' := hstep.shows hs
  refine ⟨answer, s', o', hok, hs', ?_⟩
  rw [← hs.under_full, ← hs'.under_full, step_under]
  obtain ⟨h', hattempt, -, rfl⟩ := step_ok_iff.mp hok
  have hchecked : (h'.under .full).Shows o' := hs'.heap.under rfl rfl
  constructor
  · rw [Traced.outcome_bind, bind_of_ok hattempt, Traced.outcome_bind]
    exact bind_ok_iff.mpr ⟨(), hchecked.audit_ok _ _, rfl⟩
  · refine .bind_of_ok (s.heap.attempt_logsNoError ..) fun done hdone => ?_
    cases hattempt.symm.trans hdone
    exact .bind (hchecked.audit_logsNoError _ _) fun _ => .pure _

/-- Calls in a row with checks and without. -/
theorem exists_run_checked (hs : s.Shows o) (calls : List Call) :
    ∃ answers s' o', (s.run calls).outcome = .ok (answers, s') ∧ s'.Shows o' ∧
      (s.checked.run calls).outcome = .ok (answers, s'.checked) ∧
      (s.checked.run calls).LogsNoError := by
  induction calls generalizing s o with
  | nil => exact ⟨[], s, o, rfl, hs, rfl, .pure _⟩
  | cons call calls ih =>
    obtain ⟨answer, s₁, o₁, hok₁, hs₁, hchecked₁, hlogs₁⟩ := step_checked hs call
    obtain ⟨answers, s', o', hok, hs', hchecked, hlogs⟩ := ih hs₁
    refine ⟨answer :: answers, s', o', run_cons_ok hok₁ hok, hs', run_cons_ok hchecked₁ hchecked,
      ?_⟩
    rw [run]
    refine .bind_of_ok hlogs₁ fun done hdone => ?_
    cases hchecked₁.symm.trans hdone
    exact .bind hlogs fun _ => .pure _

/-- A session starts as without checks, and logs no error. -/
theorem start_checked (hp : p.Valid) (chunk : Nat) :
    (start p ⟨chunk, true⟩).outcome =
      (start p ⟨chunk, false⟩).outcome.map (Except.map checked) ∧
    (start p ⟨chunk, true⟩).LogsNoError := by
  have hstart := start_under p .full chunk
  rw [under_full_of_valid hp, show CheckSettings.full.checks = true from rfl] at hstart
  have hlogs : (start p ⟨chunk, false⟩).LogsNoError := by
    unfold start
    exact .bind (Heap.build_logsNoError p chunk) fun _ => .pure _
  rw [hstart]
  constructor
  · rw [Traced.outcome_bind]
    cases hok : (start p ⟨chunk, false⟩).outcome with
    | error fault => rfl
    | ok started =>
      cases started with
      | error e => rfl
      | ok s =>
        have hs := start_shows hp hok
        have hchecked : (s.heap.under .full).Shows _ := hs.heap.under rfl rfl
        show ((s.heap.under .full).selfCheck "init" >>= fun _ =>
          pure (Except.ok (s.under .full))).outcome = Except.ok (Except.ok s.checked)
        rw [hs.under_full, Traced.outcome_bind]
        exact bind_ok_iff.mpr ⟨(), hchecked.selfCheck "init", rfl⟩
  · refine .bind_of_ok hlogs fun started hok => ?_
    cases started with
    | error e => exact .pure _
    | ok s =>
      have hchecked : (s.heap.under .full).Shows _ := (start_shows hp hok).heap.under rfl rfl
      exact .bind (hchecked.selfCheck_logsNoError "init") fun _ => .pure _

/-- **Checks change nothing and find nothing.** With checks after every operation a session
starts as without them, and calls on it are answered alike and leave the same bytes, the same
free list and the same counts. The log has no error in it, and a check in between passes. -/
theorem run_checked (hp : p.Valid) (chunk : Nat) :
    (start p ⟨chunk, true⟩).outcome =
        (start p ⟨chunk, false⟩).outcome.map (Except.map checked) ∧
      (start p ⟨chunk, true⟩).LogsNoError ∧
      ∀ s₀, (start p ⟨chunk, false⟩).outcome = .ok (.ok s₀) → ∀ calls,
        ∃ answers s report, (s₀.run calls).outcome = .ok (answers, s) ∧
          (s₀.checked.run calls).outcome = .ok (answers, s.checked) ∧
          (s₀.checked.run calls).LogsNoError ∧ s.checked.heap.check = .ok (.ok report) := by
  obtain ⟨houtcome, hlogs⟩ := start_checked hp chunk
  refine ⟨houtcome, hlogs, fun s₀ hok calls => ?_⟩
  obtain ⟨answers, s, o, hrun, hs, hchecked, hlog⟩ :=
    exists_run_checked (start_shows hp hok) calls
  -- whether to check is nothing that a check looks at
  obtain ⟨report, hreport⟩ := hs.heap.check_ok
  exact ⟨answers, s, report, hrun, hchecked, hlog, hreport⟩

/-- Over one page, for instance, whatever the calls are. -/
theorem run_checked_page : (Provider.buffer 4096).Valid ∧
    ∃ s₀, (start (.buffer 4096) ⟨4096, false⟩).outcome = .ok (.ok s₀) ∧
      (start (.buffer 4096) ⟨4096, true⟩).outcome = .ok (.ok s₀.checked) ∧ ∀ calls,
        ∃ answers s report, (s₀.run calls).outcome = .ok (answers, s) ∧
          (s₀.checked.run calls).outcome = .ok (answers, s.checked) ∧
          (s₀.checked.run calls).LogsNoError ∧ s.checked.heap.check = .ok (.ok report) := by
  obtain ⟨hp, s₀, hok⟩ := exists_start_page
  have hok : (start (.buffer 4096) ⟨4096, false⟩).outcome = .ok (.ok s₀) := hok
  obtain ⟨houtcome, -, hrun⟩ := run_checked hp 4096
  rw [hok] at houtcome
  exact ⟨hp, s₀, hok, houtcome, hrun s₀ hok⟩

end Session

end BoundaryTag
