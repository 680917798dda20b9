import BoundaryTag.Tag

/-!
# A region of bytes

A region is one run of bytes that grows at its end. All changes go through
`put`, which overwrites a stretch byte by byte, and all reads through `byte`
and `word`, which see zeros past the end. The operations that callers use add
the bounds checks: `readWord`, `writeWord`, `readByte`, `writeByte`, `slice`
and `copy` fault instead of touching a byte that is not there.

> `byte_put`: `put` changes exactly the stretch it is given.
>
> `word_writeWord`, `byte_writeWord_of_outside`: a word reads back as it was
> written, and writing it leaves every byte beside it alone.

Notes on `read_word`, `write_word` and slices of the memory:
- `readWord` and `writeWord` look first whether the end of the word is a word itself and
  then whether it lies inside, as the slice from `at` to `at + WSIZE` does. Words are
  stored lowest byte first.
- `slice` is the slice from `start` to `stop`, and `copy` is `copy_within`.
- `grow` is how both providers enlarge their memory: by zeros.
- `byte`, `word` and `put` have no counterpart. They are total, and what is proved of the
  checked operations is said in their terms.
-/

namespace BoundaryTag

/-- A run of bytes. -/
structure Region where
  bytes : ByteArray

namespace Region

/-- The region without bytes. -/
def empty : Region := ⟨ByteArray.empty⟩

/-- The number of bytes. -/
def size (r : Region) : Nat := r.bytes.size

/-- Byte `i`; zero past the end. -/
@[irreducible] def byte (r : Region) (i : Nat) : UInt8 :=
  if h : i < r.bytes.size then r.bytes[i] else 0

/-- Sets byte `i`; there is nothing to set past the end. -/
@[irreducible] def setByte (r : Region) (i : Nat) (value : UInt8) : Region :=
  if h : i < r.bytes.size then ⟨r.bytes.set i value h⟩ else r

/-- Sets byte `start + i` to `value i`, for every `i` below `count`. -/
def put (r : Region) (start : Nat) (value : Nat → UInt8) (count : Nat) : Region :=
  count.fold (fun i _ r => r.setByte (start + i) (value i)) r

/-- Appends `count` zero bytes. -/
def grow (r : Region) : (count : Nat) → Region
  | 0 => r
  | count + 1 => grow ⟨r.bytes.push 0⟩ count

/-! ## Sizes and bytes after a change -/

private theorem size_set (b : ByteArray) (i : Nat) (value : UInt8) (h : i < b.size) :
    (b.set i value h).size = b.size := by
  rw [ByteArray.size, ByteArray.data_set, Array.size_set]
  rfl

@[simp] theorem size_setByte (r : Region) (i : Nat) (value : UInt8) :
    (r.setByte i value).size = r.size := by
  unfold setByte
  split
  · exact size_set ..
  · rfl

/-- A byte that is set changes, and no other does. -/
theorem byte_setByte (r : Region) (i : Nat) (value : UInt8) (j : Nat) :
    (r.setByte i value).byte j = if j = i ∧ i < r.size then value else r.byte j := by
  unfold setByte
  by_cases hi : i < r.bytes.size
  · rw [dif_pos hi]
    have hs : (r.bytes.set i value hi).size = r.bytes.size := size_set ..
    by_cases hj : j < r.bytes.size
    · rw [byte, dif_pos (by rw [hs]; exact hj), byte, dif_pos hj]
      simp only [ByteArray.getElem_eq_getElem_data, ByteArray.data_set, Array.getElem_set]
      by_cases he : i = j
      · rw [if_pos he, if_pos ⟨he.symm, hi⟩]
      · rw [if_neg he, if_neg fun h => he h.1.symm]
    · rw [byte, dif_neg (by rw [hs]; exact hj), byte, dif_neg hj, if_neg]
      intro h
      exact hj (h.1 ▸ hi)
  · rw [dif_neg hi, if_neg fun h => hi h.2]

theorem put_succ (r : Region) (start : Nat) (value : Nat → UInt8) (count : Nat) :
    r.put start value (count + 1) =
      (r.put start value count).setByte (start + count) (value count) := rfl

/-- Overwriting keeps the size. -/
@[simp] theorem size_put (r : Region) (start : Nat) (value : Nat → UInt8) (count : Nat) :
    (r.put start value count).size = r.size := by
  induction count with
  | zero => rfl
  | succ count ih => rw [put_succ, size_setByte, ih]

/-- **`put` changes exactly the stretch it is given.** -/
theorem byte_put (r : Region) (start : Nat) (value : Nat → UInt8) (count j : Nat) :
    (r.put start value count).byte j =
      if start ≤ j ∧ j < start + count ∧ j < r.size then value (j - start) else r.byte j := by
  induction count with
  | zero =>
    rw [if_neg (by omega)]
    rfl
  | succ count ih =>
    rw [put_succ, byte_setByte, size_put, ih]
    by_cases he : j = start + count ∧ start + count < r.size
    · rw [if_pos he, if_pos (by omega), show j - start = count by omega]
    · rw [if_neg he]
      by_cases hj : start ≤ j ∧ j < start + count ∧ j < r.size
      · rw [if_pos hj, if_pos (by omega)]
      · rw [if_neg hj, if_neg (by omega)]

/-- What lies beside the stretch stays. -/
theorem byte_put_of_outside {r : Region} {start count j : Nat} (value : Nat → UInt8)
    (h : j < start ∨ start + count ≤ j) : (r.put start value count).byte j = r.byte j := by
  rw [byte_put, if_neg (by omega)]

/-- Growing adds to the size. -/
@[simp] theorem size_grow (r : Region) (count : Nat) : (r.grow count).size = r.size + count := by
  induction count generalizing r with
  | zero => rfl
  | succ count ih =>
    rw [grow, ih]
    simp only [size, ByteArray.size_push]
    omega

/-- New bytes are zero, as bytes past the end were read before. -/
@[simp] theorem byte_grow (r : Region) (count j : Nat) : (r.grow count).byte j = r.byte j := by
  induction count generalizing r with
  | zero => rfl
  | succ count ih =>
    rw [grow, ih]
    simp only [byte, ByteArray.size_push]
    rcases Nat.lt_trichotomy j r.bytes.size with hj | hj | hj
    · rw [dif_pos (by omega), dif_pos hj]
      simp only [ByteArray.getElem_eq_getElem_data, ByteArray.data_push]
      exact Array.getElem_push_lt hj
    · rw [dif_pos (by omega), dif_neg (by omega)]
      subst hj
      simp only [ByteArray.getElem_eq_getElem_data, ByteArray.data_push]
      exact Array.getElem_push_eq
    · rw [dif_neg (by omega), dif_neg (by omega)]

/-! ## Words -/

/-- The number that `count` bytes from `start` make, the first one counting least. -/
def number (r : Region) : (start count : Nat) → Nat
  | _, 0 => 0
  | start, count + 1 => (r.byte start).toNat + 256 * r.number (start + 1) count

/-- Byte `i` of the number `n`, the first one counting least. -/
def digit (n i : Nat) : UInt8 := UInt8.ofNat (n / Nat.pow 256 i % 256)

/-- The word at `start`; bytes past the end count as zero. -/
@[irreducible] def word (r : Region) (start : Nat) : Nat := r.number start wordSize

/-- So many bytes make up a number of so many digits. -/
theorem number_lt (r : Region) (start count : Nat) : r.number start count < Nat.pow 256 count := by
  induction count generalizing start with
  | zero => simp [number]
  | succ count ih =>
    have hb := (r.byte start).toNat_lt
    have hn := ih (start + 1)
    rw [Nat.pow_eq] at hn
    rw [number, Nat.pow_eq, Nat.pow_succ]
    omega

/-- What a word is made of fits a word. -/
theorem word_lt (r : Region) (start : Nat) : r.word start < Word.limit := by
  rw [word, Word.limit_eq]
  exact r.number_lt start wordSize

/-- A number depends on its own bytes only. -/
theorem number_congr {r s : Region} {start count : Nat}
    (h : ∀ j, start ≤ j → j < start + count → r.byte j = s.byte j) :
    r.number start count = s.number start count := by
  induction count generalizing start with
  | zero => rfl
  | succ count ih =>
    rw [number, number, h start (by omega) (by omega),
      ih fun j hj hlt => h j (by omega) (by omega)]

/-- Bytes that are the digits of `n` make up as much of `n` as they can hold. -/
theorem number_of_digits {r : Region} {start count n : Nat}
    (h : ∀ i, i < count → r.byte (start + i) = digit n i) :
    r.number start count = n % Nat.pow 256 count := by
  induction count generalizing start n with
  | zero => simp [number, Nat.mod_one]
  | succ count ih =>
    have h0 := h 0 (by omega)
    have hrest : r.number (start + 1) count = n / 256 % Nat.pow 256 count := by
      apply ih
      intro i hi
      have hi := h (i + 1) (by omega)
      rw [show start + 1 + i = start + (i + 1) by omega, hi]
      simp only [digit, Nat.pow_eq, Nat.pow_succ', Nat.div_div_eq_div_mul]
    rw [number, hrest, show start = start + 0 by omega, h0, Nat.pow_eq, Nat.pow_eq, Nat.pow_succ',
      Nat.mod_mul]
    simp [digit]

/-- The word at `start`, if all of it lies in the region. -/
def readWord (r : Region) (start : Nat) : Except Fault Nat :=
  if Word.limit ≤ start + wordSize then .error .overflow
  else if r.size < start + wordSize then .error .outOfRange
  else .ok (r.word start)

/-- Stores a word at `start`, if all of it lies in the region. -/
def writeWord (r : Region) (start value : Nat) : Except Fault Region :=
  if Word.limit ≤ start + wordSize then .error .overflow
  else if r.size < start + wordSize then .error .outOfRange
  else .ok (r.put start (digit value) wordSize)

/-- A word is read exactly where all of it lies inside. -/
theorem readWord_ok_iff {r : Region} {start w : Nat} :
    r.readWord start = .ok w ↔
      start + 8 ≤ r.size ∧ start + 8 < Word.limit ∧ w = r.word start := by
  unfold readWord
  rw [ite_error_iff, ite_error_iff, Nat.not_le, Nat.not_lt, Except.ok.injEq]
  constructor
  · intro h
    obtain ⟨hl, hs, hw⟩ := h
    exact ⟨hs, hl, hw.symm⟩
  · intro h
    obtain ⟨hs, hl, hw⟩ := h
    exact ⟨hl, hs, hw.symm⟩

/-- A word is written exactly where all of it lies inside. -/
theorem writeWord_ok_iff {r s : Region} {start value : Nat} :
    r.writeWord start value = .ok s ↔
      start + 8 ≤ r.size ∧ start + 8 < Word.limit ∧ s = r.put start (digit value) 8 := by
  unfold writeWord
  rw [ite_error_iff, ite_error_iff, Nat.not_le, Nat.not_lt, Except.ok.injEq]
  constructor
  · intro h
    obtain ⟨hl, hs, hput⟩ := h
    exact ⟨hs, hl, hput.symm⟩
  · intro h
    obtain ⟨hs, hl, hput⟩ := h
    exact ⟨hl, hs, hput.symm⟩

theorem size_writeWord {r s : Region} {start value : Nat} (h : r.writeWord start value = .ok s) :
    s.size = r.size := by
  obtain ⟨_, _, rfl⟩ := writeWord_ok_iff.mp h
  exact size_put ..

/-- **Writing a word leaves every byte beside it alone.** -/
theorem byte_writeWord_of_outside {r s : Region} {start value j : Nat}
    (h : r.writeWord start value = .ok s) (hj : j < start ∨ start + 8 ≤ j) :
    s.byte j = r.byte j := by
  obtain ⟨_, _, rfl⟩ := writeWord_ok_iff.mp h
  exact byte_put_of_outside _ hj

/-- **A word reads back as it was written.** -/
theorem word_writeWord {r s : Region} {start value : Nat} (h : r.writeWord start value = .ok s) :
    s.word start = value % Word.limit := by
  obtain ⟨hs, _, rfl⟩ := writeWord_ok_iff.mp h
  rw [word, Word.limit_eq]
  apply number_of_digits
  intro i hi
  simp only [wordSize] at hi
  rw [byte_put, if_pos (by omega), Nat.add_sub_cancel_left]

/-! ## Single bytes and stretches -/

/-- Byte `i`, if there is one. -/
def readByte (r : Region) (i : Nat) : Except Fault UInt8 :=
  if i < r.size then .ok (r.byte i) else .error .outOfRange

/-- Sets byte `i`, if there is one. -/
def writeByte (r : Region) (i : Nat) (value : UInt8) : Except Fault Region :=
  if i < r.size then .ok (r.setByte i value) else .error .outOfRange

/-- The bytes from `start` to `stop`, if they lie in the region. -/
def slice (r : Region) (start stop : Nat) : Except Fault ByteArray :=
  if start ≤ stop ∧ stop ≤ r.size then .ok (r.bytes.extract start stop) else .error .outOfRange

/-- Copies `count` bytes from `source` to `target`, as if by way of a buffer, if
both stretches lie in the region. -/
def copy (r : Region) (source count target : Nat) : Except Fault Region := do
  let stop ← Word.add source count
  if stop ≤ r.size ∧ target + count ≤ r.size then
    return r.put target (fun i => r.byte (source + i)) count
  else throw .outOfRange

end Region

end BoundaryTag
