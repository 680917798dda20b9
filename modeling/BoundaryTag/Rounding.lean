import BoundaryTag.Word

/-!
# Rounding sizes up

Block sizes and payload offsets are multiples of `alignment`, and a mapped
reservation is a whole number of pages. There are two ways to round: `alignTo`
clears the low bits of a sum and faults when the sum is no word, while `align?`
answers `none` in that case, so that a caller can report the request instead.

Notes on `align_to!`, `align!` and `checked_align`:
- `alignTo` takes `value + unit - 1` from left to right, as `align_to!` does. So
  `value + unit` has to be a word, and the greatest word but seven, which is aligned
  already, cannot be rounded.
- `align?` adds `alignment - 1` at once, as `checked_align` does, and rounds that word.
  It masks the low bits by a quotient.
-/

namespace BoundaryTag

/-- Every block size and every payload offset is a multiple of this many bytes. -/
abbrev alignment : Nat := 8

/-- Rounds `value` up to a multiple of the power of two `unit`: the sum of
`value` and `unit - 1` with the bits below `unit` cleared. Of a `unit` that is
no power of two the formula still says which bits go. -/
def alignTo (value unit : Nat) : Except Fault Nat := do
  let sum ← Word.add value unit
  let top ← Word.sub sum 1
  let mask ← Word.sub unit 1
  return top &&& Word.complement mask

/-- Rounds `value` up to the heap's alignment. -/
def align (value : Nat) : Except Fault Nat := alignTo value alignment

/-- Rounds `value` up to the heap's alignment, or answers `none` if what is
cleared of its low bits would be no word. -/
def align? (value : Nat) : Option Nat :=
  if value + (alignment - 1) < Word.limit then
    some ((value + (alignment - 1)) / alignment * alignment)
  else none

/-- An answer of `align?` is the least multiple of eight that is not below `value`. -/
theorem align?_eq_some {value rounded : Nat} (h : align? value = some rounded) :
    rounded % 8 = 0 ∧ value ≤ rounded ∧ rounded < value + 8 ∧ rounded < Word.limit := by
  unfold align? at h
  split at h
  · next hv =>
    injection h with h
    simp only [alignment] at h hv
    omega
  · cases h

/-- To clear the low bits of a word is to round it down. -/
theorem and_complement_mask {word unit : Nat} (hw : word < Word.limit)
    (hu : unit.isPowerOfTwo) :
    word &&& Word.complement (unit - 1) = word / unit * unit := by
  obtain ⟨bits, rfl⟩ := hu
  rw [Word.limit_eq] at hw
  by_cases hb : 2 ^ bits - 1 < 2 ^ 64
  · have hmask : Word.complement (2 ^ bits - 1) = 2 ^ 64 - (2 ^ bits - 1 + 1) := by
      unfold Word.complement
      rw [Word.limit_eq]
      omega
    apply Nat.eq_of_testBit_eq
    intro i
    rw [hmask, Nat.testBit_and, Nat.testBit_two_pow_sub_succ hb, Nat.testBit_two_pow_sub_one,
      Nat.testBit_mul_two_pow, Nat.testBit_div_two_pow]
    by_cases hi : bits ≤ i
    · rw [Nat.sub_add_cancel hi]
      by_cases h64 : i < 64
      · simp [hi, h64, Nat.not_lt.mpr hi]
      · have hpow : 2 ^ 64 ≤ 2 ^ i := Nat.pow_le_pow_right (show 0 < 2 by decide) (by omega)
        have hbit : word.testBit i = false := Nat.testBit_lt_two_pow (by omega)
        simp [hbit]
    · simp [hi, Nat.lt_of_not_le hi]
  · have hmask : Word.complement (2 ^ bits - 1) = 0 := by
      unfold Word.complement
      rw [Word.limit_eq]
      omega
    rw [hmask, Nat.and_zero, Nat.div_eq_of_lt (by omega), Nat.zero_mul]

/-- Rounding up to a power of two adds one less than it and rounds down. -/
theorem alignTo_eq {value unit : Nat} (hu : unit.isPowerOfTwo)
    (h : value + unit < Word.limit) :
    alignTo value unit = .ok ((value + unit - 1) / unit * unit) := by
  have hpos : 0 < unit := Nat.pos_of_isPowerOfTwo hu
  unfold alignTo
  rw [bind_of_ok (Word.add_ok h), bind_of_ok (Word.sub_ok (by omega)),
    bind_of_ok (Word.sub_ok hpos), and_complement_mask (by omega) hu]
  rfl

/-- Rounding up to the alignment. -/
theorem align_eq {value : Nat} (h : value + 8 < Word.limit) :
    align value = .ok ((value + 7) / 8 * 8) :=
  alignTo_eq ⟨3, rfl⟩ h

end BoundaryTag
