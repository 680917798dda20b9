import BoundaryTag.Rounding

/-!
# Tag words

A tag says how many bytes a block spans and whether it is allocated. As sizes
are multiples of eight, one word holds both: the size, with the lowest bit set
for an allocated block. `Tag.ofWord` reads a word that way whatever its low
bits are, and `ofWord_word` says that it recovers what `word` wrote.

Notes on `pack`, `unpack_size` and `unpack_allocated`:
- A `Tag` is the two arguments of `pack`, and `word` is what `pack` makes of them; the
  bit is set by arithmetic.
- `ofWord` is `unpack_size` and `unpack_allocated` in one.
- `rawSize` is the size that `check_heap` judges, `header & !1`.
-/

namespace BoundaryTag

/-- The number of bytes of a stored word. -/
abbrev wordSize : Nat := 8

/-- Every block carries a header word and a footer word. -/
abbrev overhead : Nat := 16

/-- The least block has room for its header, two list links and its footer. -/
abbrev minBlockSize : Nat := 32

/-- What the header and the footer of a block say about it. -/
structure Tag where
  /-- The bytes that the block spans, header and footer included. -/
  size : Nat
  allocated : Bool
deriving DecidableEq, Repr

namespace Tag

/-- The tag as a word: the size, and the lowest bit set for an allocated block. -/
def word (t : Tag) : Nat := if t.allocated then t.size / 2 * 2 + 1 else t.size

/-- Reads a word as a tag: the low three bits are no part of the size, and the
lowest one marks an allocated block. -/
def ofWord (w : Nat) : Tag := ⟨w / alignment * alignment, w % 2 = 1⟩

/-- The size bits of a tag word when only its lowest bit is taken for a mark. -/
def rawSize (w : Nat) : Nat := w / 2 * 2

theorem ofWord_word {t : Tag} (h : t.size % 8 = 0) : ofWord t.word = t := by
  obtain ⟨size, allocated⟩ := t
  cases allocated <;> simp [word, ofWord, alignment] at h ⊢ <;> omega

/-- Where no size bit is damaged, both readings of the size agree. -/
theorem size_ofWord {w : Nat} (h : rawSize w % 8 = 0) : (ofWord w).size = rawSize w := by
  simp only [rawSize, ofWord, alignment] at h ⊢
  omega

/-- A word whose size bits are not damaged is the word of the tag that is read there. -/
theorem word_ofWord {w : Nat} (h : rawSize w % 8 = 0) : (ofWord w).word = w := by
  simp only [rawSize, word, ofWord, alignment] at h ⊢
  by_cases hodd : w % 2 = 1
  · simp only [hodd, decide_true, if_true]
    omega
  · simp only [hodd, decide_false, Bool.false_eq_true, if_false]
    omega

theorem word_lt {t : Tag} (h : t.size < Word.limit) : t.word < Word.limit := by
  rw [Word.limit_eq] at h ⊢
  unfold word
  split <;> omega

end Tag

end BoundaryTag
