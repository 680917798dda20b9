import BoundaryTag.Region

/-!
# Blocks of a region

A block is named by the offset of its payload. One word before the payload
lies the header, and the last word of the block is the footer, a copy of it:

    | header |        payload        | footer |
             ^ offset

The payload of a free block holds the two links of the free list in its first
two words, forward link first; the word zero stands for the end of the list.

Nothing is stored in a `Block`: every function here reads or writes the region
it is given, takes each offset in checked arithmetic, and faults where a word
lies outside. `following` finds the next block through the header, `preceding`
finds the one before through its footer.

> `tag_ok_iff`, `mark_ok_iff`: where a tag can be read and where it can be
> written, with what is read and what is written there.

Notes on `Block`:
- `headerPos`, `headerWord`, `footerPos`, `footerWord`, `size`, `allocated` and
  `payloadSize` are `header`, `header_word`, `footer`, `footer_word`, `size`,
  `is_allocated` and `payload_size`; `payloadBounds` is `payload_range`.
- `mark` is `set_tags` and `markHeader` is `set_header`; the size and the mark that these
  write come as one `Tag`.
- `following` and `preceding` are `next` and `prev`.
- `forwardLink`, `backLink`, `setForwardLink` and `setBackLink` are `next_free`,
  `prev_free`, `set_next_free` and `set_prev_free`; `linkWord` and `ofLinkWord` are
  `encode_link` and `decode_link`.
- `BlockView` is `BlockInfo` and `view` its `read`, which reads the header twice.
-/

namespace BoundaryTag

/-- A place in a region where a block may be, named by the payload's offset. -/
@[ext] structure Block where
  offset : Nat
deriving DecidableEq, Repr

/-- What the walks report of a block. -/
structure BlockView where
  offset : Nat
  size : Nat
  allocated : Bool
deriving DecidableEq, Repr

namespace Block

/-- Where the header word lies. -/
def headerPos (b : Block) : Except Fault Nat := Word.sub b.offset wordSize

/-- The header word. -/
def headerWord (b : Block) (r : Region) : Except Fault Nat := do
  r.readWord (← b.headerPos)

/-- What the header says about the block. -/
def tag (b : Block) (r : Region) : Except Fault Tag := do
  return Tag.ofWord (← b.headerWord r)

/-- The bytes that the block spans, by its header. -/
def size (b : Block) (r : Region) : Except Fault Nat := do
  return (← b.tag r).size

/-- Whether the header marks the block allocated. -/
def allocated (b : Block) (r : Region) : Except Fault Bool := do
  return (← b.tag r).allocated

/-- The block's offset, size and mark. -/
def view (b : Block) (r : Region) : Except Fault BlockView := do
  let tag ← b.tag r
  return ⟨b.offset, tag.size, tag.allocated⟩

/-- Where the footer of a block of `size` bytes lies. -/
def footerPosOf (b : Block) (size : Nat) : Except Fault Nat := do
  Word.sub (← Word.add b.offset size) overhead

/-- Where the footer word lies, by the header's size. -/
def footerPos (b : Block) (r : Region) : Except Fault Nat := do
  b.footerPosOf (← b.size r)

/-- The footer word, found through the header's size. -/
def footerWord (b : Block) (r : Region) : Except Fault Nat := do
  r.readWord (← b.footerPos r)

/-- The bytes of the payload. -/
def payloadSize (b : Block) (r : Region) : Except Fault Nat := do
  Word.sub (← b.size r) overhead

/-- Where the payload begins and where it ends. -/
def payloadBounds (b : Block) (r : Region) : Except Fault (Nat × Nat) := do
  return (b.offset, ← Word.add b.offset (← b.payloadSize r))

/-- Writes a header only. The last block of a heap has no footer. -/
def markHeader (b : Block) (r : Region) (tag : Tag) : Except Fault Region := do
  r.writeWord (← b.headerPos) tag.word

/-- Writes the same tag as header and as footer. -/
def mark (b : Block) (r : Region) (tag : Tag) : Except Fault Region := do
  let r ← b.markHeader r tag
  r.writeWord (← b.footerPosOf tag.size) tag.word

/-- The block that begins where this one ends. -/
def following (b : Block) (r : Region) : Except Fault Block := do
  return ⟨← Word.add b.offset (← b.size r)⟩

/-- The block that ends where this one begins, found through its footer. -/
def preceding (b : Block) (r : Region) : Except Fault Block := do
  let footer ← r.readWord (← Word.sub b.offset overhead)
  return ⟨← Word.sub b.offset (Tag.ofWord footer).size⟩

/-! ## Links of free blocks -/

/-- A link as a word. -/
def linkWord : Option Block → Nat
  | some b => b.offset
  | none => 0

/-- The link that a word stands for. -/
def ofLinkWord (w : Nat) : Option Block := if w = 0 then none else some ⟨w⟩

/-- The free block that the list names after this one. -/
def forwardLink (b : Block) (r : Region) : Except Fault (Option Block) := do
  return ofLinkWord (← r.readWord b.offset)

/-- The free block that the list names before this one. -/
def backLink (b : Block) (r : Region) : Except Fault (Option Block) := do
  return ofLinkWord (← r.readWord (← Word.add b.offset wordSize))

/-- Stores the forward link. -/
def setForwardLink (b : Block) (r : Region) (link : Option Block) : Except Fault Region :=
  r.writeWord b.offset (linkWord link)

/-- Stores the back link. -/
def setBackLink (b : Block) (r : Region) (link : Option Block) : Except Fault Region := do
  r.writeWord (← Word.add b.offset wordSize) (linkWord link)

/-- A link reads back as it was written, if it leads to no block at zero. -/
theorem ofLinkWord_linkWord {link : Option Block} (h : ∀ b ∈ link, b.offset ≠ 0) :
    ofLinkWord (linkWord link) = link := by
  cases link with
  | none => rfl
  | some b => exact if_neg (h b rfl)

/-! ## What marking does -/

/-- Marking the header writes the word before the payload. -/
theorem markHeader_ok_iff {b : Block} {r s : Region} {tag : Tag} :
    b.markHeader r tag = .ok s ↔
      8 ≤ b.offset ∧ r.writeWord (b.offset - 8) tag.word = .ok s := by
  unfold markHeader headerPos
  simp only [bind_ok_iff, Word.sub_ok_iff]
  constructor
  · intro h
    obtain ⟨_, ⟨h8, hp⟩, hs⟩ := h
    subst hp
    exact ⟨h8, hs⟩
  · intro h
    exact ⟨_, ⟨h.1, rfl⟩, h.2⟩

/-- **Where a tag is read,** and what it is. -/
theorem tag_ok_iff {b : Block} {r : Region} {tag : Tag} :
    b.tag r = .ok tag ↔
      8 ≤ b.offset ∧ b.offset ≤ r.size ∧ b.offset < Word.limit ∧
        tag = Tag.ofWord (r.word (b.offset - 8)) := by
  unfold Block.tag headerWord headerPos
  simp only [wordSize, bind_ok_iff, Word.sub_ok_iff, Region.readWord_ok_iff]
  constructor
  · intro h
    obtain ⟨w, ⟨pos, ⟨h8, hpos⟩, hs, hl, hw⟩, ht⟩ := h
    subst hpos hw
    exact ⟨h8, by omega, by omega, (Except.ok.inj ht).symm⟩
  · intro h
    obtain ⟨h8, hs, hl, ht⟩ := h
    subst ht
    exact ⟨_, ⟨_, ⟨h8, rfl⟩, by omega, by omega, rfl⟩, rfl⟩

/-- Where the footer lies, if that is a word. -/
theorem footerPosOf_ok_iff {b : Block} {size pos : Nat} :
    b.footerPosOf size = .ok pos ↔
      b.offset + size < Word.limit ∧ 16 ≤ b.offset + size ∧ pos = b.offset + size - 16 := by
  unfold footerPosOf
  simp only [bind_ok_iff, Word.add_ok_iff, Word.sub_ok_iff]
  constructor
  · intro h
    obtain ⟨_, ⟨hl, he⟩, h16, hp⟩ := h
    subst he
    exact ⟨hl, h16, hp⟩
  · intro h
    exact ⟨_, ⟨h.1, rfl⟩, h.2⟩

/-- Marking a block writes its header and its footer. -/
theorem mark_ok_iff {b : Block} {r s : Region} {tag : Tag} :
    b.mark r tag = .ok s ↔
      8 ≤ b.offset ∧ b.offset + tag.size < Word.limit ∧ 16 ≤ b.offset + tag.size ∧
        ∃ m, r.writeWord (b.offset - 8) tag.word = .ok m ∧
          m.writeWord (b.offset + tag.size - 16) tag.word = .ok s := by
  unfold mark
  simp only [bind_ok_iff, markHeader_ok_iff, footerPosOf_ok_iff]
  constructor
  · intro h
    obtain ⟨m, ⟨h8, hm⟩, _, ⟨hl, h16, hp⟩, hs⟩ := h
    subst hp
    exact ⟨h8, hl, h16, m, hm, hs⟩
  · intro h
    obtain ⟨h8, hl, h16, m, hm, hs⟩ := h
    exact ⟨m, ⟨h8, hm⟩, _, ⟨hl, h16, rfl⟩, hs⟩

end Block

end BoundaryTag
