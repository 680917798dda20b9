import BoundaryTag.Numeral

/-!
# Faults

A fault is what an operation reports when it cannot go on at all: a sum that is
no word, a byte that is not there, a free list that does not hang together. It
is not an answer to the caller, and nothing after it is meaningful. Operations
that may fault are computations in `Except Fault`.

> `bind_ok_iff`: two steps in a row succeed exactly when both of them do.

Notes on what stops an operation:
- `overflow` and `outOfRange` are the panics of checked arithmetic and of slices; the
  messages are this library's own.
- The three faults of `unlink` are the assertions of `FreeList::remove`, with their
  messages. An assertion of equality prints its two sides as well, which are left out.
- `endlessList` stands for `find_first_fit` not returning at all.
-/

namespace BoundaryTag

/-- What stops an operation half-way. -/
inductive Fault where
  /-- A sum or difference is not a 64-bit word. -/
  | overflow
  /-- A read or write touches a byte outside the region. -/
  | outOfRange
  /-- A block marked allocated was to be taken off the free list. -/
  | unlinkAllocated (block : Nat)
  /-- A block without a predecessor was to be taken off the free list, but the
  list does not begin with it. -/
  | unlinkNotHead (block : Nat)
  /-- A block was to be taken off the free list, but the predecessor it names
  leads elsewhere. -/
  | unlinkNotLinked (block : Nat)
  /-- The free list leads back into itself, so that a search along it would
  never end. -/
  | endlessList
deriving DecidableEq, Repr

namespace Fault

open Numeral (hex)

def message : Fault → String
  | overflow => "arithmetic left the range of a word"
  | outOfRange => "access outside the region"
  | unlinkAllocated block => s!"free list: block {hex block} is allocated"
  | unlinkNotHead block => s!"free list: block {hex block} has no predecessor but is not the head"
  | unlinkNotLinked block => s!"free list: predecessor of {hex block} does not link to it"
  | endlessList => "free list: the links form a cycle"

end Fault

/-- Two steps in a row succeed exactly when both of them do. -/
theorem bind_ok_iff {ε α β : Type} {x : Except ε α} {f : α → Except ε β} {b : β} :
    (x >>= f) = .ok b ↔ ∃ a, x = .ok a ∧ f a = .ok b := by
  cases x with
  | error e => exact ⟨(nomatch ·), fun ⟨_, h, _⟩ => nomatch h⟩
  | ok a => exact ⟨fun h => ⟨a, rfl, h⟩, fun ⟨_, ha, h⟩ => Except.ok.inj ha ▸ h⟩

/-- A step that succeeds hands its value on. -/
theorem bind_of_ok {ε α β : Type} {x : Except ε α} {a : α} (h : x = .ok a) (f : α → Except ε β) :
    (x >>= f) = f a := by
  rw [h]
  rfl

/-- A guarded value is what comes out exactly where the guard lets it pass. -/
theorem ite_ok_iff {ε α : Type} {p : Prop} [Decidable p] {e : ε} {a b : α} :
    (if p then .ok a else .error e : Except ε α) = .ok b ↔ p ∧ b = a := by
  by_cases hp : p
  · rw [if_pos hp, Except.ok.injEq]
    exact ⟨fun h => ⟨hp, h.symm⟩, fun h => h.2.symm⟩
  · rw [if_neg hp]
    exact ⟨nofun, fun h => absurd h.1 hp⟩

/-- What lies behind a guard succeeds exactly where the guard lets it pass. -/
theorem ite_error_iff {ε α : Type} {p : Prop} [Decidable p] {e : ε} {x : Except ε α} {b : α} :
    (if p then .error e else x) = .ok b ↔ ¬ p ∧ x = .ok b := by
  by_cases hp : p
  · rw [if_pos hp]
    exact ⟨nofun, fun h => absurd hp h.1⟩
  · rw [if_neg hp]
    exact ⟨fun h => ⟨hp, h⟩, fun h => h.2⟩

end BoundaryTag
