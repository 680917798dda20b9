import BoundaryTag.Fault

/-!
# Words

Offsets, sizes and stored words are natural numbers below `Word.limit`, the
number of values of a 64-bit word. Sums and differences of them are taken by
`Word.add` and `Word.sub`, which refuse a result that is no word instead of
wrapping it.

> `Word.add_ok_iff`, `Word.sub_ok_iff`: the checked operations succeed exactly
> when the plain result is a word, and then they return it.

Notes on `usize`: it has 64 bits, and overflow checks are on. The operations that
check for themselves (`checked_add`) are written as comparisons with `limit`.
-/

namespace BoundaryTag

namespace Word

/-- The number of values of a 64-bit word. Irreducible, so that no proof by
accident counts up to it. -/
@[irreducible] def limit : Nat := Nat.pow 2 64

/-- The limit, written out. -/
theorem limit_eq : limit = 18446744073709551616 := by
  unfold limit
  rfl

/-- A number less than the limit written out is a word. -/
theorem lt_limit {n : Nat} (h : n < 18446744073709551616) : n < limit := by
  rw [limit_eq]
  exact h

/-- The sum of two words, if it is a word. -/
def add (a b : Nat) : Except Fault Nat :=
  if a + b < limit then .ok (a + b) else .error .overflow

/-- The difference of two words, if it is not negative. -/
def sub (a b : Nat) : Except Fault Nat :=
  if b ≤ a then .ok (a - b) else .error .overflow

/-- The word with every bit of `w` flipped. -/
def complement (w : Nat) : Nat := limit - 1 - w

theorem add_ok {a b : Nat} (h : a + b < limit) : add a b = .ok (a + b) := if_pos h

theorem sub_ok {a b : Nat} (h : b ≤ a) : sub a b = .ok (a - b) := if_pos h

/-- **A sum** is what the plain sum is, if that is a word. -/
theorem add_ok_iff {a b c : Nat} : add a b = .ok c ↔ a + b < limit ∧ c = a + b := ite_ok_iff

/-- **A difference** is what the plain difference is, if there is one. -/
theorem sub_ok_iff {a b c : Nat} : sub a b = .ok c ↔ b ≤ a ∧ c = a - b := ite_ok_iff

end Word

end BoundaryTag
