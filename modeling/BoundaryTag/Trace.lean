import BoundaryTag.Word

/-!
# Computations that keep a log

The allocator describes what it does in log records. A `Traced` computation
has an outcome, a value or the fault that stopped it, and the records written
up to that point: a fault ends the log but does not erase it.

> `outcome_bind`: the outcome of a sequence is the sequence of the outcomes, so
> a statement about outcomes never has to mention the log.

Notes on the log: `emit` is `error!`, `warn!`, `debug!` and `trace!`, and every record is
kept, whatever level the log was set to. A panic ends a computation as `fault`.
-/

namespace BoundaryTag

/-- How grave a log record is. -/
inductive Level where
  | error
  | warn
  | debug
  | trace
deriving DecidableEq, Repr

namespace Level

/-- The level's place in the order of gravity; an error comes first. -/
def rank : Level → Nat
  | error => 0
  | warn => 1
  | debug => 2
  | trace => 3

/-- What a line of the log calls the level. -/
def name : Level → String
  | error => "ERROR"
  | warn => "WARN"
  | debug => "DEBUG"
  | trace => "TRACE"

end Level

/-- One line of the log. -/
structure Record where
  level : Level
  text : String
deriving DecidableEq, Repr

/-- The record as a line: the level's name, a blank, and the text. -/
def Record.line (r : Record) : String := r.level.name ++ " " ++ r.text

/-- A computation's outcome and the records it wrote. -/
structure Traced (α : Type) where
  outcome : Except Fault α
  records : List Record

namespace Traced

variable {α β : Type}

/-- A value, with nothing to report. -/
def pure (a : α) : Traced α := ⟨.ok a, []⟩

/-- Runs `x`, then `f` on its value. A fault of `x` ends the sequence. -/
def bind (x : Traced α) (f : α → Traced β) : Traced β :=
  match x.outcome with
  | .ok a => ⟨(f a).outcome, x.records ++ (f a).records⟩
  | .error fault => ⟨.error fault, x.records⟩

instance : Monad Traced where
  pure := pure
  bind := bind

/-- Stops the computation. -/
def fault (f : Fault) : Traced α := ⟨.error f, []⟩

/-- Writes one record. -/
def emit (level : Level) (text : String) : Traced Unit := ⟨.ok (), [⟨level, text⟩]⟩

/-- A computation without a log writes no records. -/
instance : MonadLift (Except Fault) Traced where
  monadLift x := ⟨x, []⟩

instance : LawfulMonad Traced := LawfulMonad.mk' Traced
  (by
    intro α x
    obtain ⟨outcome, records⟩ := x
    cases outcome <;> simp [Functor.map, bind, pure])
  (by
    intro α β a f
    simp [Bind.bind, Pure.pure, bind, pure])
  (by
    intro α β γ x f g
    obtain ⟨outcome, records⟩ := x
    cases outcome with
    | error fault => rfl
    | ok a =>
      simp only [Bind.bind, bind]
      cases (f a).outcome <;> simp [List.append_assoc])

/-- A value is its own outcome. -/
@[simp] theorem outcome_pure (a : α) : (Pure.pure a : Traced α).outcome = .ok a := rfl

@[simp] theorem records_pure (a : α) : (Pure.pure a : Traced α).records = [] := rfl

@[simp] theorem outcome_fault (f : Fault) : (fault f : Traced α).outcome = .error f := rfl

@[simp] theorem outcome_emit (level : Level) (text : String) :
    (emit level text).outcome = .ok () := rfl

@[simp] theorem records_emit (level : Level) (text : String) :
    (emit level text).records = [⟨level, text⟩] := rfl

/-- A lifted computation keeps its outcome, and writes nothing (`records_lift`). -/
@[simp] theorem outcome_lift (x : Except Fault α) : (liftM x : Traced α).outcome = x := rfl

@[simp] theorem records_lift (x : Except Fault α) : (liftM x : Traced α).records = [] := rfl

/-- **The outcome of a sequence is the sequence of the outcomes.** -/
@[simp] theorem outcome_bind (x : Traced α) (f : α → Traced β) :
    (x >>= f).outcome = x.outcome >>= fun a => (f a).outcome := by
  obtain ⟨outcome, records⟩ := x
  cases outcome <;> rfl

/-- What a mapped computation answers is an answer mapped. -/
theorem map_ok_iff {f : α → β} {x : Traced α} {b : β} :
    (f <$> x).outcome = .ok b ↔ ∃ a, x.outcome = .ok a ∧ f a = b := by
  rw [map_eq_pure_bind, outcome_bind, bind_ok_iff]
  exact exists_congr fun a => and_congr_right fun _ => ⟨Except.ok.inj, congrArg Except.ok⟩

/-- A sequence writes what its first part writes, then what its second part writes. -/
theorem records_bind_ok {x : Traced α} {a : α} (h : x.outcome = .ok a) (f : α → Traced β) :
    (x >>= f).records = x.records ++ (f a).records := by
  obtain ⟨outcome, records⟩ := x
  subst h
  rfl

/-- A sequence whose first part faults writes no more than that part. -/
theorem records_bind_error {x : Traced α} {e : Fault} (h : x.outcome = .error e)
    (f : α → Traced β) : (x >>= f).records = x.records := by
  obtain ⟨outcome, records⟩ := x
  subst h
  rfl

end Traced

end BoundaryTag
