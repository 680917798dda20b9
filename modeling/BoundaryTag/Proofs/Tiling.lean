import BoundaryTag.Proofs.Change
import Mathlib.Data.List.Chain

/-!
# Tilings

Between prologue and epilogue the blocks of a sound heap lie side by side. A
`Tiling` says so of a list of blocks without looking at any byte; what the bytes
say about a block is `Framed`. Keeping the two apart makes the geometry a matter
of lists and sums: two blocks of a tiling are the same or they are apart
(`Tiling.eq_or_apart`), so a change inside one of them is a change outside all
others.

The second half reads blocks: where the tags are known, every function that
decodes them has a known answer.
-/

namespace BoundaryTag

open BlockView (block tag Covers)

/-- Blocks side by side from `start` to `stop`, each long enough to be one and
made of whole words. -/
def Tiling : (start : Nat) → List BlockView → (stop : Nat) → Prop
  | start, [], stop => start = stop
  | start, v :: rest, stop =>
    v.offset = start ∧ 32 ≤ v.size ∧ v.size % 8 = 0 ∧ Tiling (start + v.size) rest stop

/-- Two tilings that meet make one, and one can be cut anywhere between its blocks. -/
theorem tiling_append {start stop : Nat} {front back : List BlockView} :
    Tiling start (front ++ back) stop ↔
      ∃ mid, Tiling start front mid ∧ Tiling mid back stop := by
  induction front generalizing start with
  | nil =>
    constructor
    · exact fun h => ⟨start, rfl, h⟩
    · rintro ⟨mid, rfl, h⟩
      exact h
  | cons v rest ih =>
    constructor
    · rintro ⟨ho, hs, hm, h⟩
      obtain ⟨mid, h₁, h₂⟩ := ih.mp h
      exact ⟨mid, ⟨ho, hs, hm, h₁⟩, h₂⟩
    · rintro ⟨mid, ⟨ho, hs, hm, h₁⟩, h₂⟩
      exact ⟨ho, hs, hm, ih.mpr ⟨mid, h₁, h₂⟩⟩

/-- A tiling splits at each of its blocks. -/
theorem tiling_mid {start stop : Nat} {front back : List BlockView} {v : BlockView} :
    Tiling start (front ++ v :: back) stop ↔
      Tiling start front v.offset ∧ 32 ≤ v.size ∧ v.size % 8 = 0 ∧
        Tiling (v.offset + v.size) back stop := by
  rw [tiling_append]
  constructor
  · rintro ⟨mid, h₁, rfl, hs, hm, h₂⟩
    exact ⟨h₁, hs, hm, h₂⟩
  · rintro ⟨h₁, hs, hm, h₂⟩
    exact ⟨v.offset, h₁, rfl, hs, hm, h₂⟩

namespace Tiling

variable {start stop : Nat} {blocks : List BlockView} {v w : BlockView}

/-- Every block takes at least 32 bytes. -/
theorem length_le (h : Tiling start blocks stop) : start + 32 * blocks.length ≤ stop := by
  induction blocks generalizing start with
  | nil => exact Nat.le_of_eq h
  | cons v rest ih =>
    obtain ⟨-, hs, -, hrest⟩ := h
    have := ih hrest
    simp only [List.length_cons]
    omega

theorem le (h : Tiling start blocks stop) : start ≤ stop := by
  have := h.length_le
  omega

/-- Where the blocks of a tiling lie. -/
theorem bounds (h : Tiling start blocks stop) (hv : v ∈ blocks) :
    start ≤ v.offset ∧ v.offset + v.size ≤ stop ∧ 32 ≤ v.size ∧ v.size % 8 = 0 := by
  obtain ⟨front, back, rfl⟩ := List.append_of_mem hv
  obtain ⟨h₁, hs, hm, h₂⟩ := tiling_mid.mp h
  exact ⟨h₁.le, h₂.le, hs, hm⟩

/-- Whole words from start to stop. -/
theorem stop_aligned (h : Tiling start blocks stop) (hs : start % 8 = 0) : stop % 8 = 0 := by
  induction blocks generalizing start with
  | nil => exact h ▸ hs
  | cons v rest ih => exact ih h.2.2.2 (by have := h.2.2.1; omega)

theorem offset_aligned (h : Tiling start blocks stop) (hs : start % 8 = 0) (hv : v ∈ blocks) :
    v.offset % 8 = 0 := by
  obtain ⟨front, back, rfl⟩ := List.append_of_mem hv
  exact (tiling_mid.mp h).1.stop_aligned hs

/-- **Two blocks of a tiling are the same or lie apart.** -/
theorem eq_or_apart (h : Tiling start blocks stop) (hv : v ∈ blocks) (hw : w ∈ blocks) :
    v = w ∨ v.offset + v.size ≤ w.offset ∨ w.offset + w.size ≤ v.offset := by
  obtain ⟨front, back, rfl⟩ := List.append_of_mem hv
  obtain ⟨h₁, -, -, h₂⟩ := tiling_mid.mp h
  rcases List.mem_append.mp hw with hf | hb
  · exact .inr (.inr (h₁.bounds hf).2.1)
  · rcases List.mem_cons.mp hb with rfl | hb
    · exact .inl rfl
    · exact .inr (.inl (h₂.bounds hb).1)

/-- No two blocks begin in the same place. -/
theorem eq_of_offset_eq (h : Tiling start blocks stop) (hv : v ∈ blocks) (hw : w ∈ blocks)
    (ho : v.offset = w.offset) : v = w := by
  have hs := (h.bounds hv).2.2.1
  have ht := (h.bounds hw).2.2.1
  rcases h.eq_or_apart hv hw with rfl | hlt | hlt
  · rfl
  · omega
  · omega

/-- Blocks in different places of the list lie in different places. -/
theorem pairwise (h : Tiling start blocks stop) :
    blocks.Pairwise fun u v => u.offset + u.size ≤ v.offset := by
  induction blocks generalizing start with
  | nil => exact .nil
  | cons v rest ih =>
    obtain ⟨rfl, -, -, hrest⟩ := h
    exact .cons (fun w hw => (hrest.bounds hw).1) (ih hrest)

end Tiling

/-! ## Free blocks of a tiling -/

/-- The places of the blocks that are free. -/
def vacant (blocks : List BlockView) : List Block := (blocks.filter (!·.allocated)).map block

@[simp] theorem vacant_nil : vacant [] = [] := rfl

@[simp] theorem vacant_append (front back : List BlockView) :
    vacant (front ++ back) = vacant front ++ vacant back := by
  simp [vacant]

theorem vacant_cons_allocated {v : BlockView} (hv : v.allocated = true) (rest : List BlockView) :
    vacant (v :: rest) = vacant rest := by
  simp [vacant, hv]

theorem vacant_cons_free {v : BlockView} (hv : v.allocated = false) (rest : List BlockView) :
    vacant (v :: rest) = v.block :: vacant rest := by
  simp [vacant, hv]

/-- What is vacant is the place of a free block. -/
theorem mem_vacant {blocks : List BlockView} {b : Block} :
    b ∈ vacant blocks ↔ ∃ v ∈ blocks, v.allocated = false ∧ v.block = b := by
  simp [vacant, and_assoc]

/-- Every free block is vacant once. -/
theorem Tiling.vacant_nodup {start stop : Nat} {blocks : List BlockView}
    (h : Tiling start blocks stop) : (vacant blocks).Nodup := by
  unfold vacant
  refine List.pairwise_map.mpr ((h.pairwise.imp_of_mem ?_).filter _)
  intro u v hu _ hle he
  have hs := (h.bounds hu).2.2.1
  have ho : u.offset = v.offset := congrArg Block.offset he
  omega

/-- The blocks that are in use. -/
def held (blocks : List BlockView) : List BlockView := blocks.filter (·.allocated)

@[simp] theorem held_nil : held [] = [] := rfl

@[simp] theorem held_append (front back : List BlockView) :
    held (front ++ back) = held front ++ held back :=
  List.filter_append ..

theorem held_cons_allocated {v : BlockView} (hv : v.allocated = true) (rest : List BlockView) :
    held (v :: rest) = v :: held rest :=
  List.filter_cons_of_pos hv

theorem held_cons_free {v : BlockView} (hv : v.allocated = false) (rest : List BlockView) :
    held (v :: rest) = held rest :=
  List.filter_cons_of_neg (by simp [hv])

/-- What is held is a block in use. -/
theorem mem_held {blocks : List BlockView} {v : BlockView} :
    v ∈ held blocks ↔ v ∈ blocks ∧ v.allocated = true :=
  List.mem_filter

/-- No free block is followed by another one. -/
def NoFreePair (blocks : List BlockView) : Prop :=
  blocks.IsChain fun u v => u.allocated = true ∨ v.allocated = true

/-- The byte lies in a free block. -/
def InVacant (blocks : List BlockView) (j : Nat) : Prop :=
  ∃ v ∈ blocks, v.allocated = false ∧ v.Covers j

@[simp] theorem inVacant_append {front back : List BlockView} {j : Nat} :
    InVacant (front ++ back) j ↔ InVacant front j ∨ InVacant back j := by
  simp [InVacant, or_and_right, exists_or]

@[simp] theorem inVacant_cons {v : BlockView} {rest : List BlockView} {j : Nat} :
    InVacant (v :: rest) j ↔ v.allocated = false ∧ v.Covers j ∨ InVacant rest j := by
  simp [InVacant]

@[simp] theorem inVacant_nil {j : Nat} : ¬ InVacant [] j := by
  simp [InVacant]

/-- What a free block covers. -/
theorem inVacant_of_covers {front back : List BlockView} {v : BlockView} {j : Nat}
    (hv : v.allocated = false) (hj : v.Covers j) : InVacant (front ++ v :: back) j :=
  ⟨v, List.mem_append_right _ (List.mem_cons_self ..), hv, hj⟩

/-- A byte of a block in use lies in no free one. -/
theorem Tiling.not_inVacant {start stop : Nat} {blocks : List BlockView} {v : BlockView} {j : Nat}
    (h : Tiling start blocks stop) (hv : v ∈ blocks) (ha : v.allocated = true)
    (hj : v.Covers j) : ¬ InVacant blocks j := by
  rintro ⟨w, hw, hwa, hwj⟩
  simp only [Covers] at hj hwj
  rcases h.eq_or_apart hv hw with rfl | hlt | hlt
  · rw [ha] at hwa
    cases hwa
  · omega
  · omega

/-- The blocks of a tiling leave no gaps. -/
theorem Tiling.exists_covers {start stop : Nat} {blocks : List BlockView} {j : Nat}
    (h : Tiling start blocks stop) (hlow : start ≤ j + 8) (hhigh : j + 8 < stop) :
    ∃ v ∈ blocks, v.Covers j := by
  induction blocks generalizing start with
  | nil =>
    have : start = stop := h
    omega
  | cons v rest ih =>
    obtain ⟨rfl, -, -, hrest⟩ := h
    by_cases hlt : j + 8 < v.offset + v.size
    · exact ⟨v, List.mem_cons_self .., hlow, hlt⟩
    · obtain ⟨w, hw, hj⟩ := ih hrest (by omega)
      exact ⟨w, List.mem_cons_of_mem _ hw, hj⟩

/-- Nothing before the first block is free. -/
theorem Tiling.not_inVacant_of_lt {start stop : Nat} {blocks : List BlockView} {j : Nat}
    (h : Tiling start blocks stop) (hj : j + 8 < start) : ¬ InVacant blocks j := by
  rintro ⟨w, hw, -, hwj⟩
  have := (h.bounds hw).1
  simp only [Covers] at hwj
  omega

/-- A free byte lies between the two ends of the heap. -/
theorem Tiling.lt_of_inVacant {start stop : Nat} {blocks : List BlockView} {j : Nat}
    (h : Tiling start blocks stop) (hj : InVacant blocks j) : j + 8 < stop := by
  obtain ⟨w, hw, -, hwj⟩ := hj
  have := (h.bounds hw).2.1
  simp only [Covers] at hwj
  omega

/-- Every block in use is held once. -/
theorem Tiling.held_nodup {start stop : Nat} {blocks : List BlockView}
    (h : Tiling start blocks stop) : (held blocks).Nodup := by
  refine (h.pairwise.imp_of_mem ?_).filter _
  rintro u v hu - hle rfl
  have hs := (h.bounds hu).2.2.1
  omega

/-- A block that came into use lies in what was free before. -/
theorem Tiling.inVacant_of_new {start stop stop' : Nat} {blocks blocks' : List BlockView}
    {w : BlockView} {j : Nat} (h : Tiling start blocks stop) (h' : Tiling start blocks' stop')
    (hheld : (held blocks').Perm (w :: held blocks)) (hj : j + 8 < stop) (hw : w.Covers j) :
    InVacant blocks j := by
  have hmem : ∀ u ∈ w :: held blocks, u ∈ blocks' := fun u hu =>
    (mem_held.mp (hheld.mem_iff.mpr hu)).1
  have hlow := (h'.bounds (hmem w (List.mem_cons_self ..))).1
  have hwj := hw.1
  -- the byte lies in some old block; were that in use, it would overlap the new one
  obtain ⟨u, hu, huj⟩ := h.exists_covers (by omega) hj
  cases ha : u.allocated with
  | false => exact ⟨u, hu, ha, huj⟩
  | true =>
    have hin : u ∈ held blocks := mem_held.mpr ⟨hu, ha⟩
    have hnodup := hheld.nodup_iff.mp h'.held_nodup
    simp only [Covers] at hw huj
    rcases h'.eq_or_apart (hmem u (List.mem_cons_of_mem _ hin)) (hmem w (List.mem_cons_self ..))
      with rfl | hlt | hlt
    · exact absurd hin (List.nodup_cons.mp hnodup).1
    · omega
    · omega

/-- Where all blocks in use are still there, no more can be free than was before. -/
theorem Tiling.inVacant_of_held {start stop stop' : Nat} {blocks blocks' : List BlockView} {j : Nat}
    (h : Tiling start blocks stop) (h' : Tiling start blocks' stop')
    (hheld : ∀ v ∈ held blocks, v ∈ blocks') (hj : j + 8 < stop) (hin : InVacant blocks' j) :
    InVacant blocks j := by
  have hlow : start ≤ j + 8 := Nat.le_of_not_lt fun hlt => h'.not_inVacant_of_lt hlt hin
  obtain ⟨v, hv, hvj⟩ := h.exists_covers hlow hj
  cases ha : v.allocated with
  | false => exact ⟨v, hv, ha, hvj⟩
  | true => exact absurd hin (h'.not_inVacant (hheld v (mem_held.mpr ⟨hv, ha⟩)) ha hvj)

/-- Where no more is in use than was before, all that was free still is. -/
theorem Tiling.inVacant_of_covered {start stop stop' : Nat} {blocks blocks' : List BlockView}
    {j : Nat} (h : Tiling start blocks stop) (h' : Tiling start blocks' stop')
    (hheld : ∀ w ∈ held blocks', w.Covers j → ∃ v ∈ held blocks, v.Covers j)
    (hj : j + 8 < stop') (hin : InVacant blocks j) : InVacant blocks' j := by
  have hlow : start ≤ j + 8 := Nat.le_of_not_lt fun hlt => h.not_inVacant_of_lt hlt hin
  obtain ⟨w, hw, hwj⟩ := h'.exists_covers hlow hj
  cases ha : w.allocated with
  | false => exact ⟨w, hw, ha, hwj⟩
  | true =>
    obtain ⟨v, hv, hvj⟩ := hheld w (mem_held.mpr ⟨hw, ha⟩) hwj
    exact absurd hin (h.not_inVacant (mem_held.mp hv).1 (mem_held.mp hv).2 hvj)

/-! ## Reading blocks whose tags are known -/

namespace Block

variable {r : Region} {b : Block} {t : Tag}

/-- The header is the word before the payload. -/
theorem headerWord_eq (ho : 8 ≤ b.offset) (hb : b.offset ≤ r.size) (hr : r.size < Word.limit) :
    b.headerWord r = .ok (r.word (b.offset - 8)) := by
  unfold headerWord headerPos
  exact bind_ok_iff.mpr ⟨b.offset - 8, Word.sub_ok ho,
    Region.readWord_ok_iff.mpr ⟨by omega, by omega, rfl⟩⟩

/-- The tag that is stored before a payload is the one that is read there. -/
theorem tag_eq (ho : 8 ≤ b.offset) (hb : b.offset ≤ r.size) (hr : r.size < Word.limit)
    (ht : t.size % 8 = 0) (hw : r.word (b.offset - 8) = t.word) : b.tag r = .ok t :=
  tag_ok_iff.mpr ⟨ho, hb, by omega, by rw [hw, Tag.ofWord_word ht]⟩

/-- Size, mark and view are read off the tag. -/
theorem size_eq (h : b.tag r = .ok t) : b.size r = .ok t.size := by
  unfold Block.size
  rw [h]
  rfl

theorem allocated_eq (h : b.tag r = .ok t) : b.allocated r = .ok t.allocated := by
  unfold Block.allocated
  rw [h]
  rfl

theorem view_eq (h : b.tag r = .ok t) : b.view r = .ok ⟨b.offset, t.size, t.allocated⟩ := by
  unfold Block.view
  rw [h]
  rfl

/-- The next block begins where the size in the header says. -/
theorem following_eq (h : b.tag r = .ok t) (hl : b.offset + t.size < Word.limit) :
    b.following r = .ok ⟨b.offset + t.size⟩ := by
  unfold following
  rw [size_eq h]
  exact bind_ok_iff.mpr ⟨_, rfl, bind_ok_iff.mpr ⟨_, Word.add_ok hl, rfl⟩⟩

theorem payloadSize_eq (h : b.tag r = .ok t) (hs : 16 ≤ t.size) :
    b.payloadSize r = .ok (t.size - 16) := by
  unfold payloadSize
  rw [size_eq h]
  exact bind_ok_iff.mpr ⟨_, rfl, Word.sub_ok hs⟩

/-- The footer is the last word before the header of the next block. -/
theorem footerWord_eq (h : b.tag r = .ok t) (hs : 16 ≤ t.size)
    (hb : b.offset + t.size ≤ r.size + 8) (hl : b.offset + t.size < Word.limit) :
    b.footerWord r = .ok (r.word (b.offset + t.size - 16)) := by
  have hpos : b.footerPos r = .ok (b.offset + t.size - 16) := by
    unfold footerPos
    rw [size_eq h]
    exact bind_ok_iff.mpr ⟨_, rfl, footerPosOf_ok_iff.mpr ⟨hl, by omega, rfl⟩⟩
  unfold footerWord
  exact bind_ok_iff.mpr ⟨_, hpos, Region.readWord_ok_iff.mpr ⟨by omega, by omega, rfl⟩⟩

/-- A block carries its tags if they are read at both its ends. -/
theorem framed_iff_read {v : BlockView} (ho : 8 ≤ v.offset) (hs : 16 ≤ v.size)
    (hm : v.size % 8 = 0) (hend : v.offset + v.size ≤ r.size) (hr : r.size < Word.limit) :
    r.Framed v ↔ v.block.headerWord r = .ok v.tag.word ∧ v.block.footerWord r = .ok v.tag.word := by
  obtain ⟨offset, size, allocated⟩ := v
  simp only [BlockView.block, BlockView.tag] at ho hs hm hend ⊢
  have hin : offset ≤ r.size := by omega
  have hheader : headerWord ⟨offset⟩ r = .ok (r.word (offset - 8)) := headerWord_eq ho hin hr
  have hfooter (hw : r.word (offset - 8) = Tag.word ⟨size, allocated⟩) :
      footerWord ⟨offset⟩ r = .ok (r.word (offset + size - 16)) := by
    have htag : Block.tag ⟨offset⟩ r = .ok ⟨size, allocated⟩ := tag_eq ho hin hr hm hw
    have hlong : offset + size ≤ r.size + 8 := by omega
    have hlt : offset + size < Word.limit := by omega
    have hread := footerWord_eq htag hs hlong hlt
    exact hread
  constructor
  · intro hf
    have hfirst : r.word (offset - 8) = Tag.word ⟨size, allocated⟩ := hf.header
    have hlast : r.word (offset + size - 16) = Tag.word ⟨size, allocated⟩ := hf.footer
    rw [hheader, hfooter hfirst, hfirst, hlast]
    exact ⟨rfl, rfl⟩
  · intro hread
    have hw := Except.ok.inj (hheader.symm.trans hread.1)
    exact ⟨hw, Except.ok.inj ((hfooter hw).symm.trans hread.2)⟩

/-- A block is found from behind through its footer. -/
theorem preceding_eq {v : BlockView} (hv : v.offset + v.size = b.offset) (hs : 16 ≤ v.size)
    (hm : v.size % 8 = 0) (hb : b.offset ≤ r.size) (hr : r.size < Word.limit)
    (hw : r.word (b.offset - 16) = v.tag.word) : b.preceding r = .ok v.block := by
  have hread : r.readWord (b.offset - 16) = .ok v.tag.word :=
    Region.readWord_ok_iff.mpr ⟨by omega, by omega, hw.symm⟩
  have hsize : (Tag.ofWord v.tag.word).size = v.size := by rw [Tag.ofWord_word hm]; rfl
  unfold preceding
  refine bind_ok_iff.mpr
    ⟨_, Word.sub_ok (show 16 ≤ b.offset by omega), bind_ok_iff.mpr ⟨_, hread, ?_⟩⟩
  refine bind_ok_iff.mpr ⟨v.offset, Word.sub_ok_iff.mpr ⟨?_, ?_⟩, rfl⟩
  · omega
  · omega

end Block

end BoundaryTag
