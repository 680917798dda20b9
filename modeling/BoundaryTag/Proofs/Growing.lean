import BoundaryTag.Heap.Allocate
import BoundaryTag.Proofs.Outline
import BoundaryTag.Proofs.Providers

/-!
# Heaps that show an outline, and how they grow

A heap shows an outline if its arena does and its provider and its configuration are
such that no sum ever leaves the range of a word (`Heap.Shows`).

> `extend_granted`, `extend_refused`: the two ways in which a request for more memory
> ends.

The region of a heap may grow, so what an operation leaves alone is said by `Touched`
rather than `Changed`: it looks at the bytes before the old epilogue only. For the odd
words it says which ones are new and which ones are gone; the epilogue is always one.
-/

namespace BoundaryTag

open BlockView (block tag Covers)
open Region (Changed)

/-! ## What an operation of a heap leaves alone -/

/-- Bytes before the old epilogue change only `within`. An odd word is `fresh`, or the
epilogue, or it was there before: then it is neither the old epilogue nor `gone`. -/
structure Region.Touched (r s : Region) (within fresh gone : Nat → Prop) : Prop where
  size_le : r.size ≤ s.size
  byte_eq : ∀ j, j + 8 < r.size → ¬ within j → s.byte j = r.byte j
  marked : ∀ q, s.Marked q →
    fresh q ∨ q + 8 = s.size ∨ q + 8 ≠ r.size ∧ ¬ gone q ∧ r.Marked q

namespace Region

theorem Touched.refl (r : Region) (within fresh : Nat → Prop) :
    Touched r r within fresh fun _ => False := by
  refine ⟨Nat.le_refl _, fun _ _ _ => rfl, ?_⟩
  intro q hq
  by_cases he : q + 8 = r.size
  · exact .inr (.inl he)
  · exact .inr (.inr ⟨he, id, hq⟩)

theorem Touched.mono {r s : Region} {within fresh gone within' fresh' gone' : Nat → Prop}
    (h : Touched r s within fresh gone) (hw : ∀ j, j + 8 < r.size → within j → within' j)
    (hf : ∀ q, fresh q → fresh' q) (hg : ∀ q, gone' q → gone q) :
    Touched r s within' fresh' gone' := by
  refine ⟨h.size_le, fun j hj hout => h.byte_eq j hj fun hin => hout (hw j hj hin), ?_⟩
  intro q hq
  rcases h.marked q hq with hq | hq | ⟨hne, hgone, hq⟩
  · exact .inl (hf q hq)
  · exact .inr (.inl hq)
  · exact .inr (.inr ⟨hne, fun hg' => hgone (hg q hg'), hq⟩)

/-- Two operations in a row, if the second one keeps within what the first one may
change of the region as it was before both. -/
theorem Touched.trans {r m s : Region} {within fresh gone within' fresh' gone' : Nat → Prop}
    (h₁ : Touched r m within fresh gone) (h₂ : Touched m s within' fresh' gone')
    (hw : ∀ j, j + 8 < r.size → within' j → within j) :
    Touched r s within (fun q => fresh q ∨ fresh' q) fun q => gone q ∨ gone' q := by
  have hle := h₁.size_le
  refine ⟨Nat.le_trans hle h₂.size_le, ?_, ?_⟩
  · intro j hj hout
    rw [h₂.byte_eq j (by omega) fun hin => hout (hw j hj hin), h₁.byte_eq j hj hout]
  · intro q hq
    rcases h₂.marked q hq with hq | hq | ⟨hne, hgone', hq⟩
    · exact .inl (.inr hq)
    · exact .inr (.inl hq)
    · rcases h₁.marked q hq with hq | hq | ⟨hne', hgone, hq⟩
      · exact .inl (.inl hq)
      · exact absurd hq hne
      · exact .inr (.inr ⟨hne', not_or.mpr ⟨hgone, hgone'⟩, hq⟩)

/-- A change of a region that stays as long as it is. -/
theorem Changed.touched {r s : Region} {within fresh gone : Nat → Prop}
    (h : Changed r s within) (hm : ∀ q, s.Marked q → fresh q ∨ ¬ gone q ∧ r.Marked q) :
    Touched r s within fresh gone := by
  refine ⟨Nat.le_of_eq h.size_eq.symm, fun j _ hj => h.byte_eq j hj, ?_⟩
  intro q hq
  by_cases he : q + 8 = s.size
  · exact .inr (.inl he)
  · rw [h.size_eq] at he
    exact (hm q hq).imp_right fun hold => .inr ⟨he, hold⟩

/-- New bytes are zero, as words past the end were read before. -/
theorem word_grow (r : Region) (count p : Nat) : (r.grow count).word p = r.word p :=
  word_congr fun j _ _ => byte_grow r count j

/-- What a region becomes when its last block is marked free and followed by an epilogue. -/
structure Ended (r s : Region) (v : BlockView) : Prop where
  framed : s.Framed v
  epilogue : Tag.ofWord (s.word (s.size - 8)) = ⟨0, true⟩
  changed : Changed r s fun j => v.offset ≤ j + 8
  marked : ∀ q, s.Marked q → q + 8 = s.size ∨ q + 8 ≠ v.offset ∧ r.Marked q

/-- A block that reaches to the end of the region can be made the last one. -/
theorem exists_ended {r : Region} (v : BlockView) (ha : v.allocated = false) (ho : 8 ≤ v.offset)
    (ho8 : v.offset % 8 = 0) (hs : 16 ≤ v.size) (hs8 : v.size % 8 = 0)
    (hend : v.offset + v.size = r.size) (hr : r.size < Word.limit) :
    ∃ r₁ s, v.block.mark r v.tag = .ok r₁ ∧ v.block.following r₁ = .ok ⟨r.size⟩ ∧
      Block.markHeader ⟨r.size⟩ r₁ ⟨0, true⟩ = .ok s ∧ Ended r s v := by
  obtain ⟨r₁, hmark, ht⟩ := exists_tagged v ho ho8 hs hs8 (Nat.le_of_eq hend) hr
  have hsize₁ : r₁.size = r.size := ht.changed.size_eq
  have hword : Tag.word ⟨0, true⟩ < Word.limit := by
    rw [Word.limit_eq]
    decide
  have hinside : r.size - 8 + 8 ≤ r₁.size := by omega
  obtain ⟨s, hstore, hst⟩ := exists_stored hinside (by omega) hword
  have hsize : s.size = r.size := hst.size_eq.trans hsize₁
  have htag : v.block.tag r₁ = .ok v.tag :=
    Block.tag_eq ho (show v.offset ≤ _ by omega) (by omega) hs8 ht.framed.header
  have hnext : v.block.following r₁ = .ok ⟨v.offset + v.size⟩ :=
    Block.following_eq htag (show v.offset + v.size < _ by omega)
  rw [hend] at hnext
  refine ⟨r₁, s, hmark, hnext, Block.markHeader_ok_iff.mpr ⟨show 8 ≤ r.size by omega, hstore⟩,
    ⟨?_, ?_⟩, ?_, ⟨hsize, ?_⟩, ?_⟩
  · rw [hst.word_of_disjoint (by omega), ht.framed.header]
  · rw [hst.word_of_disjoint (by omega), ht.framed.footer]
  · rw [hsize, hst.word_eq]
    rfl
  · intro j hj
    rw [hst.byte_eq j (by omega), ht.changed.byte_eq j (by simp only [Covers]; omega)]
  · intro q hq
    -- the epilogue is the one odd word that is new
    rcases hst.marked (by omega) hq with ⟨he, -⟩ | ⟨-, hq⟩
    · exact .inl (by omega)
    · rcases ht.marked q hq with ⟨hused, -⟩ | ⟨hne, -, hold⟩
      · rw [ha] at hused
        cases hused
      · exact .inr ⟨by omega, hold⟩

/-- **New memory is laid out** as one free block from the old epilogue on, and a new
epilogue behind it. -/
theorem exists_laidOut {r : Region} {bytes : Nat} (h8 : r.size % 8 = 0) (hr : 32 ≤ r.size)
    (hb : 32 ≤ bytes) (hb8 : bytes % 8 = 0) (hsmall : r.size + bytes < Word.limit) :
    ∃ r₁ s, Block.mark ⟨r.size⟩ (r.grow bytes) ⟨bytes, false⟩ = .ok r₁ ∧
      Block.following ⟨r.size⟩ r₁ = .ok ⟨r.size + bytes⟩ ∧
      Block.markHeader ⟨r.size + bytes⟩ r₁ ⟨0, true⟩ = .ok s ∧
      s.size = r.size + bytes ∧ s.Framed ⟨r.size, bytes, false⟩ ∧
      Tag.ofWord (s.word (s.size - 8)) = ⟨0, true⟩ ∧
      (∀ j, j + 8 < r.size → s.byte j = r.byte j) ∧
      ∀ q, s.Marked q → q + 8 = s.size ∨ q + 8 ≠ r.size ∧ r.Marked q := by
  have hgrown : (r.grow bytes).size = r.size + bytes := size_grow ..
  obtain ⟨r₁, s, hmark, hnext, hepilogue, he⟩ := exists_ended (r := r.grow bytes)
    ⟨r.size, bytes, false⟩ rfl (show 8 ≤ r.size by omega) h8 (show 16 ≤ bytes by omega) hb8
    hgrown.symm (by omega)
  rw [hgrown] at hnext hepilogue
  refine ⟨r₁, s, hmark, hnext, hepilogue, he.changed.size_eq.trans hgrown, he.framed, he.epilogue,
    ?_, ?_⟩
  · intro j hj
    rw [he.changed.byte_eq j (Nat.not_le.mpr hj), byte_grow]
  · intro q hq
    refine (he.marked q hq).imp_right fun hold => ⟨hold.1, hold.2.1, ?_⟩
    rw [← word_grow r bytes]
    exact hold.2.2

end Region

/-! ## Arenas that grow -/

namespace Arena.SoundBut

variable {a : Arena} {first bytes : Nat} {blocks : List BlockView} {free : List Block}

/-- A region with a new epilogue further on has all its old blocks, and one in hand that
reaches from the old epilogue to the new one. -/
theorem append (h : a.Sound first blocks free) {s : Region}
    (hsize : s.size = a.region.size + bytes) (hsmall : s.size < Word.limit)
    (hb : 32 ≤ bytes) (hb8 : bytes % 8 = 0)
    (hlow : ∀ j, j + 8 < a.region.size → s.byte j = a.region.byte j)
    (hend : Tag.ofWord (s.word (s.size - 8)) = ⟨0, true⟩) :
    (⟨s, a.freeList⟩ : Arena).SoundBut (some a.region.size) first
      (blocks ++ [⟨a.region.size, bytes, true⟩]) free := by
  -- words before the old epilogue are the same
  have hword : ∀ p, p + 16 ≤ a.region.size → s.word p = a.region.word p := fun p hp =>
    Region.word_congr fun j _ hj => hlow j (by omega)
  have hroom := h.laid.fenced.room
  have hle := h.laid.tiling.le
  have hprologue := h.laid.fenced.prologue
  -- and so are links, which lie before it
  have hlinks : ∀ b ∈ free, b.offset + 32 ≤ a.region.size := by
    intro b hb
    obtain ⟨u, hu, -, rfl⟩ := h.mem_free.mp hb
    obtain ⟨-, -, hus, -, -, hue⟩ := h.laid.bounds hu
    show u.offset + 32 ≤ _
    omega
  refine ⟨⟨⟨h.laid.fenced.aligned, hroom, hsmall, ⟨?_, ?_⟩, hend⟩, ?_, ?_⟩,
    ⟨h.listed.head, h.listed.length, ?_⟩, ?_, ?_⟩
  · exact (hword _ (show first - 16 - 8 + 16 ≤ _ by omega)).trans hprologue.header
  · exact (hword _ (show first - 16 + 16 - 16 + 16 ≤ _ by omega)).trans hprologue.footer
  · exact tiling_mid.mpr ⟨h.laid.tiling, hb, hb8, hsize.symm⟩
  · intro v hv hne
    rcases List.mem_append.mp hv with hv | hv
    · obtain ⟨hv32, -, hvs, -, -, hve⟩ := h.laid.bounds hv
      have hframed := h.laid.framed v hv nofun
      exact ⟨(hword _ (by omega)).trans hframed.header, (hword _ (by omega)).trans hframed.footer⟩
    · rw [List.mem_singleton.mp hv] at hne
      exact absurd rfl hne
  · exact h.listed.linked.congr (fun b hb => hword _ (by have := hlinks b hb; omega))
      fun b hb => hword _ (by have := hlinks b hb; omega)
  · rw [vacant_append, vacant_cons_allocated rfl, vacant_nil, List.append_nil]
    exact h.members
  · exact (noFreePair_mid rfl).mpr ⟨h.merged, .nil⟩

end Arena.SoundBut

/-! ## Heaps -/

namespace Heap

/-- The heap's arena shows the outline, and the numbers around it are in order: the
provider is valid, a chunk makes a block, and the heap did not grow more often than its
region has room for chunks. -/
structure Shows (h : Heap) (o : Outline) : Prop where
  sound : h.arena.Shows h.firstBlock.offset o
  valid : h.provider.Valid
  chunk : 32 ≤ h.config.chunk ∧ h.config.chunk % 8 = 0
  counted : 32 * h.extensions ≤ h.size

/-- Everything but the bytes and the free list is the same, apart from the numbers of
requests to the provider and of those that it granted. -/
structure Continues (h h' : Heap) (asked granted : Nat) : Prop where
  provider : h'.provider =
    { h.provider with requests := h.provider.requests + asked, region := h'.region }
  config : h'.config = h.config
  prologue : h'.prologue = h.prologue
  extensions : h'.extensions = h.extensions + granted

variable {h h' h'' : Heap} {o : Outline} {bytes : Nat}

theorem Continues.refl (h : Heap) : h.Continues h 0 0 := ⟨rfl, rfl, rfl, rfl⟩

theorem Continues.trans {asked granted asked' granted' : Nat} (h₁ : h.Continues h' asked granted)
    (h₂ : h'.Continues h'' asked' granted') :
    h.Continues h'' (asked + asked') (granted + granted') := by
  refine ⟨?_, h₂.config.trans h₁.config, h₂.prologue.trans h₁.prologue, ?_⟩
  · rw [h₂.provider, h₁.provider, Nat.add_assoc]
  · rw [h₂.extensions, h₁.extensions, Nat.add_assoc]

theorem continues_withArena (h : Heap) (a : Arena) : h.Continues (h.withArena a) 0 0 :=
  ⟨rfl, rfl, rfl, rfl⟩

theorem Continues.firstBlock_eq {asked granted : Nat} (hc : h.Continues h' asked granted) :
    h'.firstBlock = h.firstBlock := by
  rw [firstBlock, firstBlock, hc.prologue]

/-- An operation on the arena alone leaves the rest of the heap in order. -/
theorem Shows.withArena {a : Arena} {o' : Outline} (hs : h.Shows o)
    (ha : a.Shows h.firstBlock.offset o') (hsize : a.region.size = h.region.size) :
    (h.withArena a).Shows o' := by
  refine ⟨ha, ⟨?_, hs.valid.word, hs.valid.honest⟩, hs.chunk, ?_⟩
  · exact hsize ▸ hs.valid.within
  · show 32 * h.extensions ≤ a.region.size
    exact hsize ▸ hs.counted

theorem Shows.size_lt (hs : h.Shows o) : h.size < Word.limit := hs.sound.laid.fenced.small

/-- A header says how long its block is. -/
theorem Shows.size_shown {v : BlockView} (hs : h.Shows o) (hv : v ∈ o.blocks) :
    v.block.size h.region = .ok v.size :=
  Block.size_eq (t := v.tag) (hs.sound.laid.tag_eq hv nofun)

/-- A block in use is known by its handle. -/
theorem Shows.held_inj {v w : BlockView} (hs : h.Shows o) (hv : v ∈ held o.blocks)
    (hw : w ∈ held o.blocks) (hblock : v.block = w.block) : v = w :=
  hs.sound.laid.tiling.eq_of_offset_eq (mem_held.mp hv).1 (mem_held.mp hw).1
    (congrArg Block.offset hblock)

/-- **A request that is granted** makes the heap longer by one free block, which merges
with a free block before it and goes to the front of the list. -/
theorem extend_granted (hs : h.Shows o) (hb : 32 ≤ bytes) (hb8 : bytes % 8 = 0)
    (hg : h.provider.Grants bytes) :
    ∃ h', (h.extend bytes).outcome = .ok (.ok (freedBlock o.blocks h.size bytes []).block, h') ∧
      h'.Shows (o.extend h.size bytes) ∧ h.Continues h' 1 1 ∧ h'.size = h.size + bytes ∧
      h.region.Touched h'.region (InVacant o.blocks) (fun _ => False) fun _ => False := by
  have hlaid := hs.sound.laid
  have hvalid := hs.valid.grow hg
  have hroom := hlaid.fenced.room
  have hle : _ ≤ h.size := hlaid.tiling.le
  have h8 : h.size % 8 = 0 := hlaid.size_aligned
  have hgrown : (h.region.grow bytes).size = h.size + bytes := Region.size_grow ..
  -- what is granted is within the capacity, which is a word
  have hsmall : h.size + bytes < Word.limit := by
    have := hvalid.within
    have := hvalid.word
    dsimp only at *
    have : (h.provider.region.grow bytes).size = h.size + bytes := hgrown
    omega
  obtain ⟨r₁, r, hmark, hnext, hepilogue, hsize, hframed, hend, hlow, hmarked⟩ :=
    Region.exists_laidOut (r := h.region) h8 (show 32 ≤ h.size by omega) hb hb8 hsmall
  -- the new memory is in hand, marked free and not listed yet
  have hbut := hs.sound.append hsize (by rw [hsize]; exact hsmall) hb hb8 hlow hend
  obtain ⟨a, hok, hsound, hchanged, hmarked'⟩ := hbut.freed hframed
  have hsize' : a.region.size = h.size + bytes := hchanged.size_eq.trans hsize
  have hcounted := hs.counted
  refine ⟨{ h.withArena a with
      provider := { h.provider with requests := h.provider.requests + 1, region := a.region }
      extensions := h.extensions + 1 }, ?_, ⟨hsound, ⟨?_, hs.valid.word, hs.valid.honest⟩,
      hs.chunk, ?_⟩,
    ⟨rfl, rfl, rfl, rfl⟩, hsize', ⟨?_, ?_, ?_⟩⟩
  · have hadd : Word.add h.extensions 1 = .ok (h.extensions + 1) := Word.add_ok (by omega)
    unfold extend
    rw [Traced.outcome_bind]
    refine bind_ok_iff.mpr ⟨_, Provider.extend_granted hg, ?_⟩
    simp only [Traced.outcome_bind, Traced.outcome_lift, Traced.outcome_pure,
      Traced.outcome_emit]
    refine bind_ok_iff.mpr ⟨_, hadd, bind_ok_iff.mpr ⟨r₁, hmark, ?_⟩⟩
    refine bind_ok_iff.mpr ⟨_, hnext, bind_ok_iff.mpr ⟨r, hepilogue, ?_⟩⟩
    exact bind_ok_iff.mpr ⟨_, rfl, bind_ok_iff.mpr ⟨_, hok, rfl⟩⟩
  · have := hvalid.within
    dsimp only at this
    have : (h.provider.region.grow bytes).size = h.size + bytes := Region.size_grow ..
    show a.region.size ≤ h.provider.capacity
    omega
  · show 32 * (h.extensions + 1) ≤ a.region.size
    omega
  · show h.region.size ≤ a.region.size
    have : h.size = h.region.size := rfl
    omega
  · intro j hj hout
    show a.region.byte j = _
    rw [hchanged.byte_eq j ?_]
    · exact hlow j hj
    · simp only [inVacant_append, inVacant_cons, inVacant_nil, Covers]
      have : h.arena.region.size = h.region.size := rfl
      rintro (hin | ⟨-, hge, -⟩ | hf)
      · exact hout hin
      · omega
      · exact hf
  · intro q hq
    refine .inr ?_
    rcases hmarked q (hmarked' q hq) with he | ⟨hne, hold⟩
    · refine .inl ?_
      show q + 8 = a.region.size
      rw [hsize']
      exact he.trans hsize
    · exact .inr ⟨hne, id, hold⟩

/-- The heap after a request for memory that was refused: only the count of requests
is another one. -/
def afterRefusal (h : Heap) : Heap :=
  { h with provider := { h.provider with requests := h.provider.requests + 1 } }

/-- **A request that is refused** changes nothing else. -/
theorem extend_refused (h : Heap) (hg : ¬ h.provider.Grants bytes) :
    ∃ cause, (h.extend bytes).outcome = .ok (.error cause, h.afterRefusal) := by
  obtain ⟨cause, hok⟩ := Provider.extend_refused hg
  refine ⟨cause, ?_⟩
  unfold extend
  rw [Traced.outcome_bind]
  exact bind_ok_iff.mpr ⟨_, hok, rfl⟩

theorem Shows.afterRefusal (hs : h.Shows o) : h.afterRefusal.Shows o :=
  ⟨hs.sound, ⟨hs.valid.within, hs.valid.word, hs.valid.honest⟩, hs.chunk, hs.counted⟩

end Heap

end BoundaryTag
