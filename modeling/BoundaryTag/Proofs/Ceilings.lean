import BoundaryTag.Provider
import Mathlib.Order.Bounds.Basic

/-!
# Rounding up at the end of the words

Rounding up is to find the least multiple of a unit that is not below a value. The two forms of it
part at the last multiple there is among the words, which is its own rounding: `alignTo` adds the
whole unit before it takes one away, and there this sum is no word any more, while `align?` adds one
less to begin with and answers.

> `roundedUp_lt_limit_iff`: the least multiple is a word if value and unit add up to no more than
> the number of words. It is the last multiple where they add up to just that.
>
> `rounds_up_but_at_last_multiple`: there and nowhere else does `alignTo` fault without need, and
> there and nowhere else does it differ from `align?`.
-/

namespace BoundaryTag

/-- The multiples of `unit` that are not below `value`. -/
def multiplesFrom (unit value : Nat) : Set Nat := {m | unit ∣ m ∧ value ≤ m}

/-- The least of them. -/
def roundedUp (unit value : Nat) : Nat := (value + unit - 1) / unit * unit

variable {unit value x : Nat}

/-- Rounding by quotients gives the least multiple. -/
theorem isLeast_roundedUp (value : Nat) (hu : 0 < unit) :
    IsLeast (multiplesFrom unit value) (roundedUp unit value) := by
  refine ⟨⟨Nat.dvd_mul_left .., ?_⟩, ?_⟩
  · have hnext : value + unit - 1 < (value + unit - 1) / unit * unit + unit :=
      Nat.lt_div_mul_add hu
    show value ≤ (value + unit - 1) / unit * unit
    omega
  · intro m hm
    obtain ⟨⟨k, rfl⟩, hle⟩ := hm
    have hlt : value + unit - 1 < (k + 1) * unit := by
      rw [Nat.add_mul, Nat.one_mul, Nat.mul_comm k unit]
      omega
    have hk : (value + unit - 1) / unit ≤ k :=
      Nat.le_of_lt_succ ((Nat.div_lt_iff_lt_mul hu).mpr hlt)
    rw [Nat.mul_comm unit k]
    exact Nat.mul_le_mul_right unit hk

/-- No other number is the least multiple. -/
theorem isLeast_multiplesFrom_iff (hu : 0 < unit) :
    IsLeast (multiplesFrom unit value) x ↔ x = roundedUp unit value := by
  constructor
  · intro h
    exact h.unique (isLeast_roundedUp value hu)
  · intro h
    rw [h]
    exact isLeast_roundedUp value hu

/-- The words end at a multiple of every unit that is a word. -/
theorem dvd_limit (hu : unit.isPowerOfTwo) (hlt : unit < Word.limit) : unit ∣ Word.limit := by
  obtain ⟨bits, rfl⟩ := hu
  have h64 : Word.limit = 2 ^ 64 := Word.limit_eq
  rw [h64] at hlt ⊢
  exact Nat.pow_dvd_pow 2 (Nat.le_of_lt ((Nat.pow_lt_pow_iff_right Nat.one_lt_two).mp hlt))

/-- **Where the least multiple is a word.** -/
theorem roundedUp_lt_limit_iff (value : Nat) (hu : unit.isPowerOfTwo) (hlt : unit < Word.limit) :
    roundedUp unit value < Word.limit ↔ value + unit ≤ Word.limit := by
  have hpos : 0 < unit := Nat.pos_of_isPowerOfTwo hu
  obtain ⟨⟨hdvd, hle⟩, hleast⟩ := isLeast_roundedUp value hpos
  obtain ⟨k, hk⟩ := dvd_limit hu hlt
  obtain ⟨n, hn⟩ := hdvd
  constructor
  · intro hword
    -- between two multiples lies a whole unit
    have hnk : n + 1 ≤ k := by
      rw [hn, hk] at hword
      exact Nat.lt_of_mul_lt_mul_left hword
    have hunit : unit * n + unit ≤ unit * k := Nat.mul_le_mul_left unit hnk
    omega
  · intro hsum
    have hdown : roundedUp unit value ≤ value + unit - 1 := Nat.div_mul_le_self ..
    omega

/-- What rounding up answers depends on the sum of value and unit. -/
theorem alignTo_ok_iff (hu : unit.isPowerOfTwo) :
    alignTo value unit = .ok x ↔ value + unit < Word.limit ∧ x = roundedUp unit value := by
  by_cases hsum : value + unit < Word.limit
  · rw [alignTo_eq hu hsum, Except.ok.injEq]
    constructor
    · intro h
      exact ⟨hsum, h.symm⟩
    · intro h
      exact h.2.symm
  · constructor
    · intro h
      obtain ⟨sum, hadd, -⟩ := bind_ok_iff.mp h
      exact absurd (Word.add_ok_iff.mp hadd).1 hsum
    · intro h
      exact absurd h.1 hsum

/-- The sum comes first, so it decides whether there is an answer. -/
theorem alignTo_overflow_iff (hu : unit.isPowerOfTwo) :
    alignTo value unit = .error .overflow ↔ Word.limit ≤ value + unit := by
  by_cases hsum : value + unit < Word.limit
  · rw [alignTo_eq hu hsum]
    exact iff_of_false nofun (Nat.not_le.mpr hsum)
  · have hadd : Word.add value unit = .error .overflow := if_neg hsum
    have hfault : alignTo value unit = .error .overflow := by
      unfold alignTo
      rw [hadd]
      rfl
    exact iff_of_true hfault (Nat.le_of_not_lt hsum)

theorem isPowerOfTwo_alignment : alignment.isPowerOfTwo := ⟨3, rfl⟩

theorem alignment_lt_limit : alignment < Word.limit := Word.lt_limit (by decide)

/-- The form that adds one less than the unit answers for every least multiple that is a word. -/
theorem align?_eq (value : Nat) :
    align? value = if roundedUp alignment value < Word.limit then some (roundedUp alignment value)
      else none := by
  have hword := roundedUp_lt_limit_iff value isPowerOfTwo_alignment alignment_lt_limit
  unfold align?
  by_cases hsum : value + 8 ≤ Word.limit
  · rw [if_pos (hword.mpr hsum), if_pos (show value + (8 - 1) < Word.limit by omega)]
    rfl
  · rw [if_neg fun h => hsum (hword.mp h), if_neg (show ¬ value + (8 - 1) < Word.limit by omega)]

/-- The checked form gives the least multiple whenever it is a word. -/
theorem align?_eq_some_iff :
    align? value = some x ↔ IsLeast (multiplesFrom alignment value) x ∧ x < Word.limit := by
  rw [align?_eq, isLeast_multiplesFrom_iff (by decide)]
  split
  · next hword =>
    rw [Option.some.injEq]
    constructor
    · intro h
      subst h
      exact ⟨rfl, hword⟩
    · intro h
      exact h.1.symm
  · next hnot =>
    refine iff_of_false nofun ?_
    intro h
    obtain ⟨rfl, hword⟩ := h
    exact hnot hword

/-- It gives none where the least multiple is no word. -/
theorem align?_eq_none_iff : align? value = none ↔ Word.limit < value + alignment := by
  have hword := roundedUp_lt_limit_iff value isPowerOfTwo_alignment alignment_lt_limit
  rw [align?_eq]
  split
  · next h => exact iff_of_false nofun (Nat.not_lt.mpr (hword.mp h))
  · next h => exact iff_of_true rfl (Nat.lt_of_not_le fun hle => h (hword.mpr hle))

/-- Rounding up to `unit` finds the least multiple if that is a word, and faults if it is none;
only the last multiple among the words is not found either. -/
structure RoundsUpButAtLast (unit : Nat) : Prop where
  finds : ∀ value x, alignTo value unit = .ok x ↔
    IsLeast (multiplesFrom unit value) x ∧ x < Word.limit ∧ value + unit ≠ Word.limit
  faults : ∀ value, alignTo value unit = .error .overflow ↔
    (∀ x, IsLeast (multiplesFrom unit value) x → Word.limit ≤ x) ∨ value + unit = Word.limit

/-- The two forms of rounding up to the alignment answer the same, and the one faults where the
other answers `none`, save for the last multiple among the words. -/
structure FormsAgreeButAtLast : Prop where
  exact : ∀ value x, align? value = some x ↔
    IsLeast (multiplesFrom alignment value) x ∧ x < Word.limit
  answers : ∀ value x, align value = .ok x ↔ align? value = some x ∧ value + alignment ≠ Word.limit
  faults : ∀ value, align value = .error .overflow ↔
    align? value = none ∨ value + alignment = Word.limit

theorem roundsUpButAtLast (hu : unit.isPowerOfTwo) (hlt : unit < Word.limit) :
    RoundsUpButAtLast unit := by
  have hpos : 0 < unit := Nat.pos_of_isPowerOfTwo hu
  constructor
  · intro value x
    have hword := roundedUp_lt_limit_iff value hu hlt
    rw [alignTo_ok_iff hu, isLeast_multiplesFrom_iff hpos]
    constructor
    · intro h
      obtain ⟨hsum, rfl⟩ := h
      exact ⟨rfl, hword.mpr (Nat.le_of_lt hsum), Nat.ne_of_lt hsum⟩
    · intro h
      obtain ⟨rfl, hfits, hne⟩ := h
      exact ⟨Nat.lt_of_le_of_ne (hword.mp hfits) hne, rfl⟩
  · intro value
    have hword := roundedUp_lt_limit_iff value hu hlt
    simp only [alignTo_overflow_iff hu, isLeast_multiplesFrom_iff hpos, forall_eq]
    omega

theorem formsAgreeButAtLast : FormsAgreeButAtLast := by
  have hrounds := roundsUpButAtLast isPowerOfTwo_alignment alignment_lt_limit
  refine ⟨fun _ _ => align?_eq_some_iff, ?_, ?_⟩
  · intro value x
    rw [align?_eq_some_iff, and_assoc]
    exact hrounds.finds value x
  · intro value
    have hfault : align value = .error .overflow ↔ Word.limit ≤ value + alignment :=
      alignTo_overflow_iff isPowerOfTwo_alignment
    rw [hfault, align?_eq_none_iff]
    omega

/-- **Rounding up is exact but at the last multiple among the words.** -/
theorem rounds_up_but_at_last_multiple (hu : unit.isPowerOfTwo) (hlt : unit < Word.limit) :
    RoundsUpButAtLast unit ∧ FormsAgreeButAtLast :=
  ⟨roundsUpButAtLast hu hlt, formsAgreeButAtLast⟩

/-- To whole pages, for instance: the last page boundary is found from the byte before it, and not
from where it lies. -/
theorem rounds_up_to_pages_but_at_last :
    Provider.pageSize.isPowerOfTwo ∧ Provider.pageSize < Word.limit ∧
      alignTo 18446744073709547519 Provider.pageSize = .ok 18446744073709547520 ∧
      alignTo 18446744073709547520 Provider.pageSize = .error .overflow := by
  have hu : Provider.pageSize.isPowerOfTwo := ⟨12, rfl⟩
  have hlt : Provider.pageSize < Word.limit := Word.lt_limit (by decide)
  obtain ⟨hrounds, -⟩ := rounds_up_but_at_last_multiple hu hlt
  refine ⟨hu, hlt, (hrounds.finds _ _).mpr ⟨?_, ?_, ?_⟩, (hrounds.faults _).mpr (.inr ?_)⟩
  · exact (isLeast_multiplesFrom_iff (by decide)).mpr rfl
  · exact Word.lt_limit (by decide)
  · rw [Word.limit_eq]
    decide
  · rw [Word.limit_eq]
    rfl

/-- **The last multiple of eight among the words** is its own rounding, and `align?` says so. The
other form faults there, as its sum is the first number that is no word. -/
theorem align_last_multiple :
    IsLeast (multiplesFrom alignment 18446744073709551608) 18446744073709551608 ∧
      18446744073709551608 < Word.limit ∧
      align? 18446744073709551608 = some 18446744073709551608 ∧
      align 18446744073709551608 = .error .overflow := by
  have hleast : IsLeast (multiplesFrom alignment 18446744073709551608) 18446744073709551608 :=
    (isLeast_multiplesFrom_iff (by decide)).mpr rfl
  have hword : 18446744073709551608 < Word.limit := Word.lt_limit (by decide)
  have hsum : Word.limit ≤ 18446744073709551608 + alignment := by
    rw [Word.limit_eq]
    decide
  exact ⟨hleast, hword, align?_eq_some_iff.mpr ⟨hleast, hword⟩,
    (alignTo_overflow_iff isPowerOfTwo_alignment).mpr hsum⟩

end BoundaryTag
