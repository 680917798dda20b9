import BoundaryTag.Block

/-!
# What a change leaves alone

The allocator changes its region word by word, at positions that it computes
from words it read before. Two questions come up for every such change: which
bytes are the same afterwards, and where did a word with its lowest bit set come
from? The second one matters because an odd word reads as the tag of an
allocated block wherever it lies.

`Changed r s within` answers the first question, `Marked s p` is what the second
one is about. Stores and tags come with both answers.

> `exists_stored`: a word can be stored wherever it lies in the region, and then
> reads back.
>
> `exists_tagged`: a block can be marked wherever it ends in the region; then
> header and footer agree, and only a mark of allocation sets lowest bits.
-/

namespace BoundaryTag

namespace Region

/-- All bytes outside `within`, and the number of bytes, are the same in both. -/
structure Changed (r s : Region) (within : Nat → Prop) : Prop where
  size_eq : s.size = r.size
  byte_eq : ∀ j, ¬ within j → s.byte j = r.byte j

theorem Changed.refl (r : Region) (within : Nat → Prop) : Changed r r within :=
  ⟨rfl, fun _ _ => rfl⟩

theorem Changed.trans {r s t : Region} {within : Nat → Prop} (h₁ : Changed r s within)
    (h₂ : Changed s t within) : Changed r t within :=
  ⟨h₂.size_eq.trans h₁.size_eq, fun j hj => (h₂.byte_eq j hj).trans (h₁.byte_eq j hj)⟩

theorem Changed.mono {r s : Region} {within wider : Nat → Prop} (h : Changed r s within)
    (hw : ∀ j, within j → wider j) : Changed r s wider :=
  ⟨h.size_eq, fun j hj => h.byte_eq j fun hin => hj (hw j hin)⟩

/-- A word depends on its own eight bytes. -/
theorem word_congr {r s : Region} {p : Nat}
    (h : ∀ j, p ≤ j → j < p + 8 → s.byte j = r.byte j) : s.word p = r.word p := by
  rw [word, word]
  exact number_congr h

theorem Changed.word_eq {r s : Region} {within : Nat → Prop} (h : Changed r s within) {p : Nat}
    (hp : ∀ j, p ≤ j → j < p + 8 → ¬ within j) : s.word p = r.word p :=
  word_congr fun j h₁ h₂ => h.byte_eq j (hp j h₁ h₂)

/-- An aligned word with its lowest bit set, as the tags of allocated blocks have it. -/
def Marked (r : Region) (p : Nat) : Prop := p % 8 = 0 ∧ r.word p % 2 = 1

/-! ## Stores -/

/-- What a region becomes when a word is stored in it. -/
structure Stored (r s : Region) (start value : Nat) : Prop where
  size_eq : s.size = r.size
  word_eq : s.word start = value
  byte_eq : ∀ j, j < start ∨ start + 8 ≤ j → s.byte j = r.byte j

/-- A word can be stored wherever it lies in the region, if the place behind it is a word. -/
theorem exists_stored_of_lt {r : Region} {start value : Nat} (hs : start + 8 ≤ r.size)
    (hl : start + 8 < Word.limit) (hv : value < Word.limit) :
    ∃ s, r.writeWord start value = .ok s ∧ Stored r s start value := by
  have hok : r.writeWord start value = .ok (r.put start (digit value) 8) :=
    writeWord_ok_iff.mpr ⟨hs, hl, rfl⟩
  refine ⟨_, hok, size_writeWord hok, ?_, fun j hj => byte_writeWord_of_outside hok hj⟩
  rw [word_writeWord hok, Nat.mod_eq_of_lt hv]

/-- A word can be stored wherever it lies in the region. -/
theorem exists_stored {r : Region} {start value : Nat} (hs : start + 8 ≤ r.size)
    (hr : r.size < Word.limit) (hv : value < Word.limit) :
    ∃ s, r.writeWord start value = .ok s ∧ Stored r s start value :=
  exists_stored_of_lt hs (by omega) hv

theorem Stored.word_of_disjoint {r s : Region} {start value p : Nat} (h : Stored r s start value)
    (hp : p + 8 ≤ start ∨ start + 8 ≤ p) : s.word p = r.word p :=
  word_congr fun j h₁ h₂ => h.byte_eq j (by omega)

theorem Stored.changed {r s : Region} {start value : Nat} (h : Stored r s start value)
    {within : Nat → Prop} (hw : ∀ j, start ≤ j → j < start + 8 → within j) :
    Changed r s within := by
  refine ⟨h.size_eq, fun j hj => h.byte_eq j ?_⟩
  rcases Nat.lt_or_ge j start with hlt | hge
  · exact .inl hlt
  · rcases Nat.lt_or_ge j (start + 8) with hin | hout
    · exact absurd (hw j hge hin) hj
    · exact .inr hout

/-- A store at an aligned place decides about the mark there and no other one. -/
theorem Stored.marked {r s : Region} {start value p : Nat} (h : Stored r s start value)
    (hs : start % 8 = 0) (hp : s.Marked p) :
    p = start ∧ value % 2 = 1 ∨ p ≠ start ∧ r.Marked p := by
  obtain ⟨h8, hodd⟩ := hp
  by_cases he : p = start
  · subst he
    exact .inl ⟨rfl, h.word_eq ▸ hodd⟩
  · rw [h.word_of_disjoint (by omega)] at hodd
    exact .inr ⟨he, h8, hodd⟩

/-- An even word that is stored marks nothing. -/
theorem Stored.marked_of_even {r s : Region} {start value p : Nat} (h : Stored r s start value)
    (hs : start % 8 = 0) (hv : value % 2 = 0) (hp : s.Marked p) : r.Marked p := by
  rcases h.marked hs hp with ⟨-, hodd⟩ | ⟨-, hr⟩
  · omega
  · exact hr

end Region

/-! ## Tags -/

namespace BlockView

/-- What the tags of the block say. -/
def tag (v : BlockView) : Tag := ⟨v.size, v.allocated⟩

/-- The block by its place. -/
def block (v : BlockView) : Block := ⟨v.offset⟩

/-- The bytes from the header's first to the footer's last. -/
def Covers (v : BlockView) (j : Nat) : Prop := v.offset ≤ j + 8 ∧ j + 8 < v.offset + v.size

/-- Where the two tags of the block lie. -/
def TagAt (v : BlockView) (q : Nat) : Prop := q = v.offset - 8 ∨ q = v.offset + v.size - 16

end BlockView

theorem Tag.word_mod_two {t : Tag} (h : t.size % 8 = 0) :
    t.word % 2 = if t.allocated then 1 else 0 := by
  obtain ⟨size, allocated⟩ := t
  dsimp only at h
  cases allocated with
  | false =>
    simp only [Tag.word, Bool.false_eq_true, if_false]
    omega
  | true =>
    simp only [Tag.word, if_true]
    omega

namespace Region

/-- Header and footer of the block both say what `v` says. -/
structure Framed (r : Region) (v : BlockView) : Prop where
  header : r.word (v.offset - 8) = v.tag.word
  footer : r.word (v.offset + v.size - 16) = v.tag.word

/-- What is stored before a block says all about it. -/
theorem Framed.ofWord_header {r : Region} {v : BlockView} (h : r.Framed v)
    (h8 : v.size % 8 = 0) : Tag.ofWord (r.word (v.offset - 8)) = v.tag := by
  rw [h.header, Tag.ofWord_word h8]

/-- A block keeps its tags in a change that spares their words. -/
theorem Framed.of_changed {r s : Region} {v : BlockView} {within : Nat → Prop}
    (h : r.Framed v) (hc : Changed r s within)
    (hh : ∀ j, v.offset - 8 ≤ j → j < v.offset - 8 + 8 → ¬ within j)
    (hf : ∀ j, v.offset + v.size - 16 ≤ j → j < v.offset + v.size - 16 + 8 → ¬ within j) :
    s.Framed v :=
  ⟨(hc.word_eq hh).trans h.header, (hc.word_eq hf).trans h.footer⟩

/-- What a region becomes when a block in it is marked. -/
structure Tagged (r s : Region) (v : BlockView) : Prop where
  framed : s.Framed v
  changed : Changed r s v.Covers
  payload_eq : ∀ j, v.offset ≤ j → j + 16 < v.offset + v.size → s.byte j = r.byte j
  /-- Marks appear where the tags are, and only if they mark an allocated block. -/
  marked : ∀ p, s.Marked p →
    v.allocated = true ∧ (p = v.offset - 8 ∨ p = v.offset + v.size - 16) ∨
      p ≠ v.offset - 8 ∧ p ≠ v.offset + v.size - 16 ∧ r.Marked p

/-- A block can be marked wherever it ends in the region. -/
theorem exists_tagged {r : Region} (v : BlockView) (ho : 8 ≤ v.offset) (ho8 : v.offset % 8 = 0)
    (hs : 16 ≤ v.size) (hs8 : v.size % 8 = 0) (hend : v.offset + v.size ≤ r.size)
    (hr : r.size < Word.limit) :
    ∃ s, v.block.mark r v.tag = .ok s ∧ Tagged r s v := by
  have hw : v.tag.word < Word.limit := Tag.word_lt (by simp only [BlockView.tag]; omega)
  have hmod : v.tag.word % 2 = if v.allocated then 1 else 0 := Tag.word_mod_two hs8
  have hheader : v.offset - 8 + 8 ≤ r.size := by omega
  obtain ⟨m, hm, sm⟩ := exists_stored hheader hr hw
  have hfooter : v.offset + v.size - 16 + 8 ≤ m.size := by rw [sm.size_eq]; omega
  obtain ⟨s, hs, ss⟩ := exists_stored hfooter (by rw [sm.size_eq]; exact hr) hw
  refine ⟨s, Block.mark_ok_iff.mpr ⟨ho, ?_, ?_, m, hm, hs⟩, ⟨?_, ss.word_eq⟩, ⟨?_, ?_⟩, ?_, ?_⟩
  · show v.offset + v.size < Word.limit
    omega
  · show 16 ≤ v.offset + v.size
    omega
  · rw [ss.word_of_disjoint (by omega), sm.word_eq]
  · rw [ss.size_eq, sm.size_eq]
  · intro j hj
    simp only [BlockView.Covers] at hj
    rw [ss.byte_eq j (by omega), sm.byte_eq j (by omega)]
  · intro j h₁ h₂
    rw [ss.byte_eq j (by omega), sm.byte_eq j (by omega)]
  · intro p hp
    have halloc : v.tag.word % 2 = 1 → v.allocated = true := by
      intro h1
      cases ha : v.allocated
      · rw [hmod, ha] at h1
        cases h1
      · rfl
    rcases ss.marked (by omega) hp with ⟨he, h1⟩ | ⟨hne, hp⟩
    · exact .inl ⟨halloc h1, .inr he⟩
    · rcases sm.marked (by omega) hp with ⟨he, h1⟩ | ⟨hne', hp⟩
      · exact .inl ⟨halloc h1, .inl he⟩
      · exact .inr ⟨hne', hne, hp⟩

end Region

end BoundaryTag
