import BoundaryTag.Proofs.Tiling

/-!
# Marking and reading back

A block that is marked anywhere in a region is read back as it was marked, from either end: its
header and its footer hold the same word, the block behind it is found through the one, and the
block itself is found from behind through the other. Neither the place nor the region has to be
that of a heap. All that is asked is that the two tags lie in the region (`Spans`).

> `decodes_iff`: all that is read of a block is read off the two words that hold its tag, so a
> change that spares these words is no change to the block.
>
> `mark_reads_back`: what was marked is read back, and keeps being read when the block behind is
> marked and, in a block that has room for them, when the links are set.

The back link is the second word of a block. A block of sixteen bytes is no more than its two tags,
and its footer, the last word that such a block needs, is the first one behind the header; so the
back link of such a block may lie outside of the region.
-/

namespace BoundaryTag

open Region (Changed Stored)

namespace Region

variable {r s : Region} {start value : Nat}

/-- A word that was stored can be read where it could be stored. -/
theorem Stored.readWord_eq (h : Stored r s start value) (hs : start + 8 ≤ r.size)
    (hl : start + 8 < Word.limit) : s.readWord start = .ok value :=
  readWord_ok_iff.mpr ⟨by rw [h.size_eq]; exact hs, hl, h.word_eq.symm⟩

/-- To read the words beside it comes to the same as before, in range or not. -/
theorem Stored.readWord_of_disjoint {p : Nat} (h : Stored r s start value)
    (hp : p + 8 ≤ start ∨ start + 8 ≤ p) : s.readWord p = r.readWord p := by
  unfold readWord
  rw [h.size_eq, h.word_of_disjoint hp]

end Region

namespace Block

variable {r s : Region} {b : Block} {tag : Tag} {link : Option Block}

/-- A block of `size` bytes has its two tags in the region. -/
structure Spans (b : Block) (r : Region) (size : Nat) : Prop where
  header : 8 ≤ b.offset
  long : 16 ≤ size
  whole : size % 8 = 0
  word : b.offset + size < Word.limit
  inside : b.offset + size - 8 ≤ r.size

/-- The byte lies in the header or in the footer of a block of `size` bytes. -/
def InTags (b : Block) (size j : Nat) : Prop :=
  (b.offset - 8 ≤ j ∧ j < b.offset) ∨
    (b.offset + size - 16 ≤ j ∧ j < b.offset + size - 8)

/-- The block is read as one with this tag, from both its ends. -/
structure Decodes (b : Block) (r : Region) (tag : Tag) : Prop where
  headerWord : b.headerWord r = .ok tag.word
  footerWord : b.footerWord r = .ok tag.word
  size : b.size r = .ok tag.size
  allocated : b.allocated r = .ok tag.allocated
  following : b.following r = .ok ⟨b.offset + tag.size⟩
  preceding : Block.preceding ⟨b.offset + tag.size⟩ r = .ok b

theorem Spans.of_size_eq {size : Nat} (h : b.Spans r size) (hs : s.size = r.size) :
    b.Spans s size :=
  ⟨h.header, h.long, h.whole, h.word, hs ▸ h.inside⟩

/-! ## The two words -/

theorem Spans.headerWord_eq {size : Nat} (h : b.Spans r size) :
    b.headerWord r = .ok (r.word (b.offset - 8)) := by
  obtain ⟨h8, h16, -, hword, hin⟩ := h
  have hread : r.readWord (b.offset - 8) = .ok (r.word (b.offset - 8)) :=
    Region.readWord_ok_iff.mpr ⟨by omega, by omega, rfl⟩
  exact bind_ok_iff.mpr ⟨_, Word.sub_ok h8, hread⟩

/-- The header says where the footer is. -/
theorem Spans.footerWord_eq (h : b.Spans r tag.size) (htag : b.tag r = .ok tag) :
    b.footerWord r = .ok (r.word (b.offset + tag.size - 16)) := by
  obtain ⟨h8, h16, -, hword, hin⟩ := h
  exact Block.footerWord_eq htag h16 (by omega) hword

/-- **All that is read of a block is read off the two words that hold its tag.** -/
theorem decodes_iff (h : b.Spans r tag.size) :
    b.Decodes r tag ↔
      r.word (b.offset - 8) = tag.word ∧ r.word (b.offset + tag.size - 16) = tag.word := by
  have hheader := h.headerWord_eq
  constructor
  · intro hd
    have hfirst : r.word (b.offset - 8) = tag.word :=
      Except.ok.inj (hheader.symm.trans hd.headerWord)
    have htag : b.tag r = .ok tag :=
      bind_ok_iff.mpr ⟨_, hd.headerWord, congrArg Except.ok (Tag.ofWord_word h.whole)⟩
    exact ⟨hfirst, Except.ok.inj ((h.footerWord_eq htag).symm.trans hd.footerWord)⟩
  · intro hwords
    obtain ⟨hfirst, hlast⟩ := hwords
    obtain ⟨h8, h16, hm, hword, hin⟩ := h
    have htag : b.tag r = .ok tag :=
      tag_ok_iff.mpr ⟨h8, by omega, by omega, by rw [hfirst, Tag.ofWord_word hm]⟩
    refine ⟨hheader.trans (congrArg Except.ok hfirst), ?_, size_eq htag, allocated_eq htag,
      following_eq htag hword, ?_⟩
    · rw [Spans.footerWord_eq ⟨h8, h16, hm, hword, hin⟩ htag, hlast]
    · -- from behind, the block is found through its footer
      have hread : r.readWord (b.offset + tag.size - 16) = .ok tag.word :=
        Region.readWord_ok_iff.mpr ⟨by omega, by omega, hlast.symm⟩
      have hback : Word.sub (b.offset + tag.size) (Tag.ofWord tag.word).size = .ok b.offset := by
        rw [Tag.ofWord_word hm]
        exact Word.sub_ok_iff.mpr ⟨by omega, by omega⟩
      refine bind_ok_iff.mpr ⟨_, Word.sub_ok (show 16 ≤ b.offset + tag.size by omega), ?_⟩
      exact bind_ok_iff.mpr ⟨_, hread, bind_ok_iff.mpr ⟨_, hback, rfl⟩⟩

/-- What spares the two words spares the block. -/
theorem Decodes.of_word_eq (h : b.Decodes r tag) (hb : b.Spans r tag.size)
    (hsize : s.size = r.size) (hheader : s.word (b.offset - 8) = r.word (b.offset - 8))
    (hfooter : s.word (b.offset + tag.size - 16) = r.word (b.offset + tag.size - 16)) :
    b.Decodes s tag := by
  obtain ⟨hfirst, hlast⟩ := (decodes_iff hb).mp h
  exact (decodes_iff (hb.of_size_eq hsize)).mpr ⟨hheader.trans hfirst, hfooter.trans hlast⟩

/-- A store between the two tags, or behind them, spares the block. -/
theorem Decodes.of_stored {start value : Nat} (h : b.Decodes r tag) (hb : b.Spans r tag.size)
    (hst : Stored r s start value) (hstart : b.offset ≤ start)
    (hapart : start + 8 ≤ b.offset + tag.size - 16 ∨ b.offset + tag.size - 8 ≤ start) :
    b.Decodes s tag := by
  have h16 := hb.long
  have h8 := hb.header
  refine h.of_word_eq hb hst.size_eq ?_ ?_
  · exact hst.word_of_disjoint (.inl (by omega))
  · exact hst.word_of_disjoint (by omega)

/-! ## Marking -/

/-- **A block can be marked wherever its tags lie in the region,** and nothing else is written. -/
theorem exists_mark (h : b.Spans r tag.size) :
    ∃ s, b.mark r tag = .ok s ∧ b.Decodes s tag ∧ Changed r s (b.InTags tag.size) := by
  obtain ⟨h8, h16, hm, hword, hin⟩ := h
  have hlt : tag.word < Word.limit := Tag.word_lt (by omega)
  have hheader : b.offset - 8 + 8 ≤ r.size := by omega
  obtain ⟨m, hm₁, sm⟩ := Region.exists_stored_of_lt hheader (by omega) hlt
  have hfooter : b.offset + tag.size - 16 + 8 ≤ m.size := by
    rw [sm.size_eq]
    omega
  obtain ⟨s, hs₁, ss⟩ := Region.exists_stored_of_lt hfooter (by omega) hlt
  have hsize : s.size = r.size := ss.size_eq.trans sm.size_eq
  refine ⟨s, mark_ok_iff.mpr ⟨h8, hword, by omega, m, hm₁, hs₁⟩, ?_, ?_⟩
  · refine (decodes_iff (Spans.of_size_eq ⟨h8, h16, hm, hword, hin⟩ hsize)).mpr ⟨?_, ss.word_eq⟩
    rw [ss.word_of_disjoint (by omega), sm.word_eq]
  · refine .trans (sm.changed fun j h₁ h₂ => .inl ?_) (ss.changed fun j h₁ h₂ => .inr ?_)
    · omega
    · omega

/-- Marking the block behind spares the block. -/
theorem Decodes.of_following_marked {next : Tag} (h : b.Decodes r tag) (hb : b.Spans r tag.size)
    (hnext : Spans ⟨b.offset + tag.size⟩ r next.size) :
    ∃ s, Block.mark ⟨b.offset + tag.size⟩ r next = .ok s ∧ b.Decodes s tag := by
  obtain ⟨s, hmark, -, hchanged⟩ := exists_mark hnext
  have h16 := hb.long
  have h8 := hb.header
  have hlong := hnext.long
  -- both tags of the block lie before the header of the one behind
  have hbefore : ∀ p, p + 16 ≤ b.offset + tag.size → s.word p = r.word p := by
    intro p hp
    refine hchanged.word_eq ?_
    intro j h₁ h₂ hj
    simp only [InTags] at hj
    omega
  exact ⟨s, hmark, h.of_word_eq hb hchanged.size_eq (hbefore _ (by omega)) (hbefore _ (by omega))⟩

/-! ## Links -/

/-- A link that can be told from none. -/
def Named (link : Option Block) : Prop := ∀ c ∈ link, c.offset ≠ 0 ∧ c.offset < Word.limit

theorem Named.linkWord_lt (h : Named link) : linkWord link < Word.limit := by
  cases link with
  | none => exact Word.lt_limit (by decide)
  | some c => exact (h c rfl).2

theorem Named.ofLinkWord_linkWord (h : Named link) : ofLinkWord (linkWord link) = link :=
  Block.ofLinkWord_linkWord fun c hc => (h c hc).1

/-- A link that was set with the tags of a block in place: `own` reads it back, `beside` reads the
other link as before, and the block is what it was if both links lie between its tags. -/
structure Relinks (own beside : Block → Region → Except Fault (Option Block)) (b : Block)
    (tag : Tag) (r s : Region) (link : Option Block) : Prop where
  reads_back : own b s = .ok link
  other : beside b s = beside b r
  tags : 32 ≤ tag.size → b.Decodes r tag → b.Decodes s tag

/-- The forward link takes the word that every block has behind its header. -/
theorem exists_forward_relinked (h : b.Spans r tag.size) (hl : Named link) :
    ∃ s, b.setForwardLink r link = .ok s ∧ Relinks forwardLink backLink b tag r s link := by
  have hlong := h.long
  have hword := h.word
  have hfits : b.offset + 8 ≤ r.size := by
    have := h.inside
    omega
  have hpos : Word.add b.offset wordSize = .ok (b.offset + 8) :=
    Word.add_ok (show b.offset + 8 < _ by omega)
  obtain ⟨s, hset, st⟩ := Region.exists_stored_of_lt hfits (by omega) hl.linkWord_lt
  refine ⟨s, hset, ?_, ?_, ?_⟩
  · refine bind_ok_iff.mpr ⟨_, st.readWord_eq hfits (by omega), ?_⟩
    rw [hl.ofLinkWord_linkWord]
    rfl
  · unfold backLink
    rw [bind_of_ok hpos, bind_of_ok hpos, st.readWord_of_disjoint (.inr (Nat.le_refl _))]
  · intro h32 hd
    exact hd.of_stored h st (Nat.le_refl _) (.inl (by omega))

/-- The back link takes the word behind that, if there is one. -/
theorem exists_back_relinked (h : b.Spans r tag.size) (hroom : b.offset + 16 ≤ r.size)
    (hl : Named link) :
    ∃ s, b.setBackLink r link = .ok s ∧ Relinks backLink forwardLink b tag r s link := by
  have hlong := h.long
  have hword := h.word
  have hfits : b.offset + 8 + 8 ≤ r.size := by omega
  have hpos : Word.add b.offset wordSize = .ok (b.offset + 8) :=
    Word.add_ok (show b.offset + 8 < _ by omega)
  obtain ⟨s, hset, st⟩ := Region.exists_stored_of_lt hfits (by omega) hl.linkWord_lt
  refine ⟨s, bind_ok_iff.mpr ⟨_, hpos, hset⟩, ?_, ?_, ?_⟩
  · refine bind_ok_iff.mpr ⟨_, hpos, bind_ok_iff.mpr ⟨_, st.readWord_eq hfits (by omega), ?_⟩⟩
    rw [hl.ofLinkWord_linkWord]
    rfl
  · unfold forwardLink
    rw [st.readWord_of_disjoint (.inl (Nat.le_refl _))]
  · intro h32 hd
    exact hd.of_stored h st (Nat.le_add_right ..) (.inl (by omega))

/-- Where the region ends with the footer of a block of sixteen bytes, there is none. -/
theorem setBackLink_outOfRange {size : Nat} (h : b.Spans r size) (hroom : r.size < b.offset + 16) :
    b.setBackLink r link = .error .outOfRange := by
  have hlong := h.long
  have hword := h.word
  have hpos : Word.add b.offset wordSize = .ok (b.offset + 8) :=
    Word.add_ok (show b.offset + 8 < _ by omega)
  unfold setBackLink
  rw [bind_of_ok hpos]
  unfold Region.writeWord
  rw [if_neg (show ¬ Word.limit ≤ b.offset + 8 + 8 by omega),
    if_pos (show r.size < b.offset + 8 + 8 by omega)]

/-- What writing does to the block from then on: its neighbour can be marked at no cost to it, and
its links can be set, the back link if its word lies in the region. -/
structure Rewritable (b : Block) (tag : Tag) (r : Region) : Prop where
  neighbour : b.Decodes r tag → ∀ next : Tag, Spans ⟨b.offset + tag.size⟩ r next.size →
    ∃ s, Block.mark ⟨b.offset + tag.size⟩ r next = .ok s ∧ b.Decodes s tag
  forward : ∀ link, Named link →
    ∃ s, b.setForwardLink r link = .ok s ∧ Relinks forwardLink backLink b tag r s link
  back : b.offset + 16 ≤ r.size → ∀ link, Named link →
    ∃ s, b.setBackLink r link = .ok s ∧ Relinks backLink forwardLink b tag r s link
  no_back : r.size < b.offset + 16 → ∀ link, b.setBackLink r link = .error .outOfRange

theorem Spans.rewritable (h : b.Spans r tag.size) : b.Rewritable tag r where
  neighbour hd _ hnext := hd.of_following_marked h hnext
  forward _ hl := exists_forward_relinked h hl
  back hroom _ hl := exists_back_relinked h hroom hl
  no_back hroom _ := setBackLink_outOfRange h hroom

/-- **What was marked is read back,** whatever the region held, and whatever is written afterwards
beside the tags. -/
theorem mark_reads_back (h : b.Spans r tag.size) :
    Tag.ofWord tag.word = tag ∧
      (∃ s, b.mark r tag = .ok s ∧ b.Decodes s tag ∧ Changed r s (b.InTags tag.size)) ∧
      ∀ s : Region, s.size = r.size → b.Rewritable tag s :=
  ⟨Tag.ofWord_word h.whole, exists_mark h, fun _ hs => (h.of_size_eq hs).rewritable⟩

/-- At an odd place, and up to the last byte of the region, for instance. -/
theorem mark_reads_back_odd_place :
    let r := Region.empty.grow 29
    let b : Block := ⟨13⟩
    b.Spans r 24 ∧
      ∃ s, b.mark r ⟨24, true⟩ = .ok s ∧ b.Decodes s ⟨24, true⟩ ∧ b.Rewritable ⟨24, true⟩ s := by
  intro r b
  have hsize : r.size = 29 := Region.size_grow ..
  have h : b.Spans r (⟨24, true⟩ : Tag).size := by
    refine ⟨by decide, by decide, by decide, Word.lt_limit (by decide), ?_⟩
    show 13 + 24 - 8 ≤ r.size
    omega
  obtain ⟨-, ⟨s, hmark, hdecodes, hchanged⟩, hlasts⟩ := mark_reads_back h
  exact ⟨h, s, hmark, hdecodes, hlasts s hchanged.size_eq⟩

/-- **A block of sixteen bytes has no room for a back link** where it ends the region: it can be
marked, and the link cannot be set. -/
theorem no_back_link_in_least_span :
    let r := Region.empty.grow 16
    let b : Block := ⟨8⟩
    b.Spans r 16 ∧ Named (some ⟨40⟩) ∧
      ∃ s, b.mark r ⟨16, true⟩ = .ok s ∧ b.setBackLink s (some ⟨40⟩) = .error .outOfRange := by
  intro r b
  have hsize : r.size = 16 := Region.size_grow ..
  have h : b.Spans r (⟨16, true⟩ : Tag).size := by
    refine ⟨by decide, by decide, by decide, Word.lt_limit (by decide), ?_⟩
    show 8 + 16 - 8 ≤ r.size
    omega
  have hnamed : Named (some ⟨40⟩) := by
    intro c hc
    cases hc
    exact ⟨by decide, Word.lt_limit (by decide)⟩
  obtain ⟨s, hmark, -, hchanged⟩ := exists_mark h
  have hs : s.size = 16 := hchanged.size_eq.trans hsize
  refine ⟨h, hnamed, s, hmark, setBackLink_outOfRange (h.of_size_eq hchanged.size_eq) ?_⟩
  rw [hs]
  decide

end Block

end BoundaryTag
