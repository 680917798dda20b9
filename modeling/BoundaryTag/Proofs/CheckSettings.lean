import BoundaryTag.Proofs.Attempts
import BoundaryTag.Proofs.Deciding

/-!
# What the check is set to

Nothing but the check looks at the bounds that a provider claims, and nothing but the
question whether to check at all looks at the configuration's flag. To exchange these three
(`CheckSettings`) makes no difference to an attempt. So a call is an attempt without regard to
them, and then the check.

> `attempt_under`: attempts on a heap and on the same heap under other settings end alike.
>
> `start_under`, `step_under`: the start of a session and a call, with the check last.
-/

namespace BoundaryTag

open Traced (Tied)

/-- What only the check looks at: the bounds that the provider claims, and whether there is
to be a check after every operation. -/
structure CheckSettings where
  low : Option Nat
  high : Option Nat
  checks : Bool

/-- Checks, by the true bounds. -/
def CheckSettings.full : CheckSettings := ⟨none, none, true⟩

/-- The provider with other claims about its bounds. -/
def Provider.under (p : Provider) (v : CheckSettings) : Provider :=
  { p with claimedLow := v.low, claimedHigh := v.high }

/-- The configuration with another say on checks. -/
def Config.under (c : Config) (v : CheckSettings) : Config := { c with checks := v.checks }

/-- The heap under other settings of the check. -/
def Heap.under (h : Heap) (v : CheckSettings) : Heap :=
  { h with provider := h.provider.under v, config := h.config.under v }

/-- The session with its heap under other settings of the check. -/
def Session.under (s : Session) (v : CheckSettings) : Session := { s with heap := s.heap.under v }

/-- A provider answers a request without regard to the bounds that it claims. -/
theorem Provider.extend_under (p : Provider) (v : CheckSettings) (bytes : Nat) :
    (p.under v).extend bytes = Prod.map id (·.under v) <$> p.extend bytes :=
  extend_map (g := (·.under v)) (fun _ => rfl) (fun _ => ⟨rfl, rfl, rfl⟩) (fun _ => rfl)
    (fun _ _ => rfl) p bytes

namespace Heap

variable {h : Heap} {o : Outline}

/-- Every operation respects a change of the settings. -/
theorem likeness_under (v : CheckSettings) : Likeness fun h k => k = h.under v :=
  likeness_map (fun _ => rfl) (fun _ => rfl) (fun _ => rfl) (fun _ => rfl) (fun _ _ => rfl)
    fun _ _ => rfl

/-- **An attempt does not depend on the settings of the check.** -/
theorem attempt_under (h : Heap) (v : CheckSettings) (target : Option Handle) (call : Call) :
    (h.under v).attempt target call = Prod.map id (·.under v) <$> h.attempt target call := by
  have hmeets := meets_map (f := (·.under v)) (fun _ _ => rfl)
    (fun p bytes => p.extend_under v bytes) True
  exact eq_map_of_tied ((likeness_under v).attempt rfl target call fun _ _ _ _ _ => hmeets _ h)

/-- A heap shows the same outline under settings that claim the true bounds. -/
theorem Shows.under {v : CheckSettings} (hs : h.Shows o) (hlow : v.low = none)
    (hhigh : v.high = none) : (h.under v).Shows o :=
  ⟨hs.sound, ⟨hs.valid.within, hs.valid.word, hlow, hhigh⟩, hs.chunk, hs.counted⟩

/-- Without checks nothing is checked, or logged. -/
theorem selfCheck_unchecked (hc : h.config.checks = false) (operation : String) :
    h.selfCheck operation = pure () := by
  unfold selfCheck
  rw [hc]
  rfl

/-- A heap is built as without checks, and then checked. -/
theorem build_under (p : Provider) (v : CheckSettings) (chunk : Nat) :
    build (p.under v) ⟨chunk, v.checks⟩ = do
      match ← build p ⟨chunk, false⟩ with
      | .error e => return .error e
      | .ok heap =>
        (heap.under v).selfCheck "init"
        return .ok (heap.under v) := by
  unfold build
  have hsize : (p.under v).region.size = p.region.size := rfl
  dsimp only
  rw [hsize]
  simp only [bind_assoc, Provider.extend_under, bind_map_left]
  refine bind_congr fun aligned => bind_congr fun padding => bind_congr fun bytes =>
    bind_congr fun asked => ?_
  obtain ⟨granted, q⟩ := asked
  cases granted with
  | error cause => rfl
  | ok base =>
    simp only [Prod.map_apply, bind_assoc]
    refine bind_congr fun start => bind_congr fun laid => bind_congr fun _ => ?_
    -- without checks there is nothing to log
    have hskip : Heap.selfCheck ⟨{ q with region := laid.2.2.region },
        (Config.mk chunk false).normalized, laid.1, laid.2.2.freeList, 0⟩ "init" = pure () :=
      selfCheck_unchecked rfl _
    rw [hskip]
    rfl

end Heap

namespace Session

/-- A session starts as without checks, and then its heap is checked. -/
theorem start_under (p : Provider) (v : CheckSettings) (chunk : Nat) :
    start (p.under v) ⟨chunk, v.checks⟩ = do
      match ← start p ⟨chunk, false⟩ with
      | .error e => return .error e
      | .ok s =>
        (s.heap.under v).selfCheck "init"
        return .ok (s.under v) := by
  unfold start
  rw [Heap.build_under]
  simp only [bind_assoc]
  refine bind_congr fun built => ?_
  cases built with
  | error e => rfl
  | ok heap =>
    simp only [bind_assoc]
    rfl

/-- **A call is the attempt without regard to the settings, and then the check under them.** -/
theorem step_under (s : Session) (v : CheckSettings) (call : Call) :
    (s.under v).step call = do
      let (answer, heap) ← s.heap.attempt (s.target call) call
      (heap.under v).audit (call.operation? (s.target call)) answer
      return (answer, ⟨heap.under v, leasesAfter s.leases call answer⟩) := by
  have htarget : (s.under v).target call = s.target call := by
    cases call <;> rfl
  rw [step_eq, htarget]
  show (s.heap.under v).attempt _ _ >>= _ = _
  rw [Heap.attempt_under, bind_map_left]
  rfl

end Session

end BoundaryTag
