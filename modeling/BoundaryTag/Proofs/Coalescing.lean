import BoundaryTag.Proofs.Merging

/-!
# Merging

`coalesce` looks at both neighbours of a block that is marked free but not listed,
takes the free ones off the list and lists the merged block.

> `SoundBut.coalesce`: all four cases of neighbours, as one. Either neighbour is an
> `Option`, so nothing is said twice.
>
> `SoundBut.freed`: the same on whole lists of blocks.

Both say what is left alone: bytes change only in the merged block and in links of
members of the list, and no word becomes odd that was not, so none begins to look like
the tag of an allocated block.
-/

namespace BoundaryTag

open BlockView (block tag Covers)
open Region (Changed)

namespace Region.Laid

variable {r : Region} {hand : Option Nat} {first : Nat} {front back : List BlockView}
  {v : BlockView}

/-- Before a block lies a block or the prologue, and its footer leads there. -/
theorem exists_preceding (h : r.Laid hand first (front ++ v :: back))
    (hh : ∀ u ∈ front.getLast?, some u.offset ≠ hand) :
    ∃ u : BlockView, v.block.preceding r = .ok u.block ∧ u.block ≠ v.block ∧
      u.block.tag r = .ok u.tag ∧
      (front.getLast? = some u ∨ front = [] ∧ u.allocated = true) := by
  have hmem : v ∈ front ++ v :: back := List.mem_append_right _ (List.mem_cons_self ..)
  obtain ⟨h32, -, hvs, -, -, hend⟩ := h.bounds hmem
  have hsmall := h.fenced.small
  rcases List.eq_nil_or_concat front with rfl | ⟨front, p, rfl⟩
  · -- no block lies before this one, so its neighbour is the prologue
    obtain ⟨rfl, -⟩ := h.tiling
    have hprologue := h.fenced.prologue
    refine ⟨⟨v.offset - 16, 16, true⟩, ?_, ?_, ?_, .inr ⟨rfl, rfl⟩⟩
    · refine Block.preceding_eq ?_ (Nat.le_refl _) (show 16 % 8 = 0 by decide) ?_ hsmall ?_
      · show v.offset - 16 + 16 = v.offset
        omega
      · show v.offset ≤ _
        omega
      · have := hprologue.footer
        rwa [show v.offset - 16 + 16 - 16 = v.offset - 16 by omega] at this
    · intro he
      have : v.offset - 16 = v.offset := congrArg Block.offset he
      omega
    · refine Block.tag_eq ?_ ?_ hsmall (show 16 % 8 = 0 by decide) hprologue.header
      · show 8 ≤ v.offset - 16
        omega
      · show v.offset - 16 ≤ _
        omega
  · -- the last block before it ends where it begins
    rw [List.concat_eq_append] at h hh ⊢
    have hp : p ∈ front ++ [p] ++ v :: back := by simp
    obtain ⟨hp32, -, hps, hp8, -, hpend⟩ := h.bounds hp
    have hpv : p.offset + p.size = v.offset := (tiling_mid.mp (tiling_mid.mp h.tiling).1).2.2.2
    have hpn := hh p (List.getLast?_concat ..)
    refine ⟨p, ?_, ?_, h.tag_eq hp hpn, .inl (List.getLast?_concat ..)⟩
    · refine Block.preceding_eq hpv (by omega) hp8 ?_ hsmall ?_
      · show v.offset ≤ _
        omega
      · show r.word (v.offset - 16) = _
        rw [← hpv]
        exact (h.framed p hp hpn).footer
    · intro he
      have : p.offset = v.offset := congrArg Block.offset he
      omega

/-- What is read behind a block: the tag of the next one, or the epilogue. -/
theorem tag_following (h : r.Laid hand first (front ++ v :: back))
    (hh : ∀ n ∈ back.head?, some n.offset ≠ hand) :
    Block.tag ⟨v.offset + v.size⟩ r = .ok (back.head?.elim ⟨0, true⟩ tag) := by
  have hmem : v ∈ front ++ v :: back := List.mem_append_right _ (List.mem_cons_self ..)
  obtain ⟨h32, -, hvs, -, -, hend⟩ := h.bounds hmem
  have hback := (tiling_mid.mp h.tiling).2.2.2
  cases back with
  | nil =>
    -- behind the last block lies the epilogue
    have hend : v.offset + v.size = r.size := hback
    have hsmall := h.fenced.small
    refine Block.tag_ok_iff.mpr ⟨?_, Nat.le_of_eq hend, ?_, ?_⟩
    · show 8 ≤ v.offset + v.size
      omega
    · show v.offset + v.size < _
      omega
    · show ⟨0, true⟩ = Tag.ofWord (r.word (v.offset + v.size - 8))
      rw [hend, h.fenced.epilogue]
  | cons n back =>
    have hn := h.tag_eq (v := n) (by simp) (hh n rfl)
    have hno : n.offset = v.offset + v.size := hback.1
    rw [block, hno] at hn
    exact hn

/-- Where the free block before the one in hand lies. -/
theorem before_bounds {off size : Nat} {x : Bool} {p : Option BlockView}
    (h : r.Laid hand first (front ++ p.toList ++ ⟨off, size, x⟩ :: back)) :
    ∀ v ∈ p, v.offset + v.size = off ∧ 32 ≤ v.offset ∧ 32 ≤ v.size ∧ v.size % 8 = 0 := by
  rintro v rfl
  have hv := h.bounds (v := v) (by simp)
  have htiling := (tiling_mid.mp h.tiling).1
  exact ⟨(tiling_mid.mp htiling).2.2.2, hv.1, hv.2.2.1, hv.2.2.2.1⟩

/-- Where the free block behind it lies. -/
theorem after_bounds {off size : Nat} {x : Bool} {n : Option BlockView}
    (h : r.Laid hand first (front ++ ⟨off, size, x⟩ :: (n.toList ++ back))) :
    ∀ v ∈ n, v.offset = off + size ∧ 32 ≤ v.size ∧ v.size % 8 = 0 ∧ v.offset + v.size ≤ r.size := by
  rintro v rfl
  have hv := h.bounds (v := v) (by simp)
  exact ⟨(tiling_mid.mp h.tiling).2.2.2.1, hv.2.2.1, hv.2.2.2.1, hv.2.2.2.2.2⟩

/-- The code's view of the block before: in use unless it is the free neighbour. -/
theorem exists_before {off size : Nat} {x : Bool} {p : Option BlockView}
    (h : r.Laid (some off) first (front ++ p.toList ++ ⟨off, size, x⟩ :: back))
    (hp : ∀ v ∈ p, v.allocated = false) (hlast : ∀ u ∈ front.getLast?, u.allocated = true) :
    ∃ before, Block.preceding ⟨off⟩ r = .ok before ∧
      Arena.usedBefore r ⟨off⟩ before = .ok p.isNone ∧ ∀ v ∈ p, before = v.block := by
  have hne : ∀ u ∈ (front ++ p.toList).getLast?, some u.offset ≠ some off := by
    intro u hu he
    have hend := (tiling_mid.mp h.tiling).1.bounds (List.mem_of_getLast? hu)
    have := Option.some.inj he
    dsimp only at hend
    omega
  obtain ⟨u, hprec, hself, htag, hu⟩ := h.exists_preceding hne
  have hused : Arena.usedBefore r ⟨off⟩ u.block = .ok u.allocated := by
    exact (if_neg hself).trans (Block.allocated_eq htag)
  cases p with
  | none =>
    -- the neighbour is the prologue or the last of the blocks that are left
    have ha : u.allocated = true := by
      rcases hu with hu | hu
      · exact hlast u (by simpa using hu)
      · exact hu.2
    rw [ha] at hused
    exact ⟨u.block, hprec, hused, fun v hv => nomatch hv⟩
  | some v =>
    have hv : v = u := by
      rcases hu with hu | hu
      · simpa using hu
      · simp at hu
    subst hv
    refine ⟨v.block, hprec, ?_, ?_⟩
    · rw [hused, hp v rfl]
      rfl
    · intro w hw
      cases hw
      rfl

/-- The code's view of the block behind: in use unless it is the free neighbour. -/
theorem exists_after {off size : Nat} {x : Bool} {n : Option BlockView}
    (h : r.Laid (some off) first (front ++ ⟨off, size, x⟩ :: (n.toList ++ back)))
    (htag : Block.tag ⟨off⟩ r = .ok ⟨size, false⟩)
    (hn : ∀ v ∈ n, v.allocated = false) (hhead : ∀ u ∈ back.head?, u.allocated = true) :
    ∃ after, Block.following ⟨off⟩ r = .ok after ∧
      after.allocated r = .ok n.isNone ∧ ∀ v ∈ n, after = v.block := by
  have hmem : (⟨off, size, x⟩ : BlockView) ∈ front ++ ⟨off, size, x⟩ :: (n.toList ++ back) :=
    List.mem_append_right _ (List.mem_cons_self ..)
  have hsmall := h.fenced.small
  have hend := (h.bounds hmem).2.2.2.2.2
  have hback := (tiling_mid.mp h.tiling).2.2.2
  dsimp only at hend hback
  -- the block behind the one in hand is not in hand
  have hne : ∀ u ∈ (n.toList ++ back).head?, some u.offset ≠ some off := by
    intro u hu he
    have hlow := hback.bounds (List.mem_of_mem_head? hu)
    have hs := (h.bounds hmem).2.2.1
    have := Option.some.inj he
    dsimp only at hs
    omega
  have hnext : Block.tag ⟨off + size⟩ r = .ok ((n.toList ++ back).head?.elim ⟨0, true⟩ tag) :=
    h.tag_following hne
  have hfollowing : Block.following ⟨off⟩ r = .ok ⟨off + size⟩ :=
    Block.following_eq htag (show off + size < _ by omega)
  refine ⟨⟨off + size⟩, hfollowing, ?_, ?_⟩
  · rw [Block.allocated_eq hnext]
    cases n with
    | none =>
      cases back with
      | nil => rfl
      | cons u back => exact congrArg Except.ok (hhead u rfl)
    | some v => exact congrArg Except.ok (hn v rfl)
  · intro v hv
    cases hv
    exact congrArg Block.mk hback.1.symm

end Region.Laid

namespace Arena.SoundBut

variable {a : Arena} {first off size : Nat} {front back : List BlockView} {free : List Block}

/-- The free neighbour before the block in hand, if there is one, comes off the
list and into the hand. -/
theorem absorbBefore {p : Option BlockView} {before : Block}
    (h : a.SoundBut (some off) first (front ++ p.toList ++ ⟨off, size, true⟩ :: back) free)
    (hp : ∀ v ∈ p, v.allocated = false) (hb : ∀ v ∈ p, before = v.block) :
    ∃ a', (a.unlinkUnless p.isNone before).outcome = .ok a' ∧
      a'.SoundBut (some (p.elim off (·.offset))) first
        (front ++ ⟨p.elim off (·.offset), p.elim 0 (·.size) + size, true⟩ :: back)
        (free.diff (p.toList.map block)) ∧
      Relinked a.region a'.region free ∧ ∀ v ∈ p, a'.region.Framed v := by
  cases p with
  | none =>
    refine ⟨a, rfl, ?_, .refl .., fun v hv => nomatch hv⟩
    simpa using h
  | some p =>
    have hpa : p.allocated = false := hp p rfl
    have hassoc : front ++ [p] ++ ⟨off, size, true⟩ :: back =
        front ++ p :: ⟨off, size, true⟩ :: back := by simp
    simp only [Option.toList_some, hassoc] at h
    -- the neighbour is not the block in hand, which begins further on
    have hpo : some p.offset ≠ some off := by
      have := (tiling_mid.mp h.laid.tiling).2.2.2.1
      have := (tiling_mid.mp h.laid.tiling).2.1
      dsimp only at *
      intro he
      have := Option.some.inj he
      omega
    obtain ⟨a', hok, hlisted, hperm, hrel, hlaid⟩ := h.unlink hpa hpo
    have hmerged := h.merged
    rw [← hassoc, noFreePair_mid rfl] at hmerged
    rw [hb p rfl]
    refine ⟨a', hok, ⟨?_, ?_, ?_, ?_⟩, hrel, ?_⟩
    · exact hlaid.join (fun o ho => .inr (Option.some.inj ho).symm) true
    · simpa using hlisted
    · simpa [vacant_cons_allocated] using hperm
    · exact (noFreePair_mid rfl).mpr ⟨hmerged.1.left_of_append, hmerged.2⟩
    · intro v hv
      cases hv
      exact hlaid.framed p (by simp) hpo

/-- The free block behind the one in hand, if there is one, comes off the list and
into the hand. -/
theorem absorbAfter {n : Option BlockView} {after : Block} {hand : Option Nat}
    (h : a.SoundBut hand first (front ++ ⟨off, size, true⟩ :: (n.toList ++ back)) free)
    (hh : ∀ o ∈ hand, o = off)
    (hn : ∀ v ∈ n, v.allocated = false) (hb : ∀ v ∈ n, after = v.block) :
    ∃ a', (a.unlinkUnless n.isNone after).outcome = .ok a' ∧
      a'.SoundBut (some off) first (front ++ ⟨off, size + n.elim 0 (·.size), true⟩ :: back)
        (free.diff (n.toList.map block)) ∧
      Relinked a.region a'.region free ∧ ∀ v ∈ n, a'.region.Framed v := by
  cases n with
  | none =>
    refine ⟨a, rfl, ?_, .refl .., fun v hv => nomatch hv⟩
    -- nothing is taken in; the block is in hand from now on
    have hlaid : a.region.Laid (some off) first (front ++ ⟨off, size, true⟩ :: back) :=
      ⟨h.laid.fenced, h.laid.tiling, fun v hv hne => h.laid.framed v hv fun he => by
        exact hne (congrArg some (hh v.offset he.symm))⟩
    exact ⟨hlaid, h.listed, h.members, h.merged⟩
  | some n =>
    have hna : n.allocated = false := hn n rfl
    have hassoc : front ++ ⟨off, size, true⟩ :: ([n] ++ back) =
        front ++ [⟨off, size, true⟩] ++ n :: back := by simp
    have hmerged := (noFreePair_mid rfl).mp h.merged
    have hno : some n.offset ≠ hand := by
      have := (tiling_mid.mp h.laid.tiling).2.2.2.1
      have := (tiling_mid.mp h.laid.tiling).2.1
      dsimp only at *
      intro he
      have := hh n.offset he.symm
      omega
    simp only [Option.toList_some, hassoc] at h
    obtain ⟨a', hok, hlisted, hperm, hrel, hlaid⟩ := h.unlink hna hno
    rw [hb n rfl]
    refine ⟨a', hok, ⟨?_, ?_, ?_, ?_⟩, hrel, ?_⟩
    · rw [← hassoc] at hlaid
      exact hlaid.join (fun o ho => .inl (hh o ho)) true
    · simpa using hlisted
    · simpa [vacant_cons_allocated] using hperm
    · exact (noFreePair_mid rfl).mpr ⟨hmerged.1, hmerged.2.tail⟩
    · intro v hv
      cases hv
      exact hlaid.framed n (by simp) hno

/-- What lies within an allocated block is not touched when links change. -/
theorem framed_of_relinked {hand : Option Nat} {blocks : List BlockView} {v w : BlockView}
    {s : Region} (h : a.SoundBut hand first blocks free) (hw : w ∈ blocks)
    (ha : w.allocated = true) (hs : Relinked a.region s free) (hf : a.region.Framed v)
    (h8 : 8 ≤ w.offset) (h16 : 16 ≤ v.size)
    (hlow : w.offset ≤ v.offset) (hend : v.offset + v.size ≤ w.offset + w.size) :
    s.Framed v := by
  refine hf.of_changed hs.changed ?_ ?_
  · intro j h₁ h₂ hj
    refine h.laid.tiling.not_inVacant hw ha ?_ (h.laid.inVacant_of_inLinks h.members hj)
    simp only [Covers]
    omega
  · intro j h₁ h₂ hj
    refine h.laid.tiling.not_inVacant hw ha ?_ (h.laid.inVacant_of_inLinks h.members hj)
    simp only [Covers]
    omega

/-- The size of an absorbed neighbour is read from its own tags. -/
theorem sizeUnless_eq {r : Region} {v : Option BlockView} {b : Block}
    (hr : r.size < Word.limit)
    (hv : ∀ w ∈ v, r.Framed w ∧ 8 ≤ w.offset ∧ w.offset ≤ r.size ∧ w.size % 8 = 0)
    (hb : ∀ w ∈ v, b = w.block) :
    sizeUnless v.isNone r b = .ok (v.elim 0 (·.size)) := by
  cases v with
  | none => rfl
  | some w =>
    obtain ⟨hf, h8, hin, hm⟩ := hv w rfl
    rw [hb w rfl]
    exact Block.size_eq (t := w.tag) (Block.tag_eq h8 hin hr hm hf.header)

/-- A merged block ends up with the tags of a free one, whether it needed marking or not. -/
theorem exists_markUnless {r : Region} {v : BlockView} {alone : Bool} (ho : 8 ≤ v.offset)
    (ho8 : v.offset % 8 = 0) (hs : 16 ≤ v.size) (hs8 : v.size % 8 = 0)
    (hend : v.offset + v.size ≤ r.size) (hr : r.size < Word.limit) (ha : v.allocated = false)
    (hf : alone = true → r.Framed v) :
    ∃ s, markUnless alone r v.block v.size = .ok s ∧ s.Framed v ∧ Changed r s v.Covers ∧
      ∀ q, s.Marked q → r.Marked q := by
  cases alone with
  -- a block that was alone has its tags already
  | true => exact ⟨r, rfl, hf rfl, .refl .., fun _ hq => hq⟩
  | false =>
    obtain ⟨s, hok, ht⟩ := Region.exists_tagged v ho ho8 hs hs8 hend hr
    refine ⟨s, ?_, ht.framed, ht.changed, ?_⟩
    · rw [tag, ha] at hok
      exact hok
    · intro q hq
      rcases ht.marked q hq with ⟨hva, -⟩ | ⟨-, -, hold⟩
      · rw [ha] at hva
        cases hva
      · exact hold

/-- The merged block covers no more than its parts. -/
theorem covers_of_merged {p n : Option BlockView} {j : Nat}
    (hp : ∀ v ∈ p, v.offset + v.size = off) (hn : ∀ v ∈ n, v.offset = off + size)
    (hj : (mergedBlock p off size n).Covers j) :
    (∃ v ∈ p, v.Covers j) ∨ Covers ⟨off, size, false⟩ j ∨ ∃ v ∈ n, v.Covers j := by
  simp only [Covers, mergedBlock] at hj ⊢
  cases p with
  | none =>
    cases n with
    | none => exact .inr (.inl (by simpa using hj))
    | some w =>
      have hw := hn w rfl
      simp only [Option.elim_none, Option.elim_some] at hj
      by_cases hlt : j + 8 < off + size
      · exact .inr (.inl (by omega))
      · exact .inr (.inr ⟨w, rfl, by omega⟩)
  | some v =>
    have hv := hp v rfl
    cases n with
    | none =>
      simp only [Option.elim_none, Option.elim_some] at hj
      by_cases hlt : j + 8 < off
      · exact .inl ⟨v, rfl, by omega⟩
      · exact .inr (.inl (by omega))
    | some w =>
      have hw := hn w rfl
      simp only [Option.elim_some] at hj
      by_cases hlt : j + 8 < off
      · exact .inl ⟨v, rfl, by omega⟩
      · by_cases hlt' : j + 8 < off + size
        · exact .inr (.inl (by omega))
        · exact .inr (.inr ⟨w, rfl, by omega⟩)

/-- What is free after merging was free before, or in the block in hand. -/
theorem inVacant_of_merged {p n : Option BlockView} {j : Nat}
    (hp : ∀ v ∈ p, v.allocated = false ∧ v.offset + v.size = off)
    (hn : ∀ v ∈ n, v.allocated = false ∧ v.offset = off + size)
    (hj : InVacant (front ++ mergedBlock p off size n :: back) j) :
    InVacant (front ++ p.toList ++ ⟨off, size, false⟩ :: (n.toList ++ back)) j := by
  simp only [inVacant_append, inVacant_cons, true_and] at hj ⊢
  rcases hj with hj | ⟨-, hj⟩ | hj
  · exact .inl (.inl hj)
  · have hparts := covers_of_merged (fun v hv => (hp v hv).2) (fun v hv => (hn v hv).2) hj
    rcases hparts with ⟨v, hv, hj⟩ | hj | ⟨v, hv, hj⟩
    · exact .inl (.inr ⟨v, Option.mem_toList.mpr hv, (hp v hv).1, hj⟩)
    · exact .inr (.inl hj)
    · exact .inr (.inr (.inl ⟨v, Option.mem_toList.mpr hv, (hn v hv).1, hj⟩))
  · exact .inr (.inr (.inr hj))

/-- What the arena looks like when the free neighbours have left the list and
nothing is marked yet. -/
structure Gathered (a a' : Arena) (first : Nat) (front : List BlockView) (p : Option BlockView)
    (off size : Nat) (n : Option BlockView) (back : List BlockView) (free : List Block)
    (before after : Block) : Prop where
  sound : a'.SoundBut (some (mergedBlock p off size n).offset) first
    (front ++ ⟨(mergedBlock p off size n).offset, (mergedBlock p off size n).size, true⟩ :: back)
    (free.diff ((p.toList ++ n.toList).map block))
  framed : a'.region.Framed ⟨off, size, false⟩
  sizeBefore : sizeUnless p.isNone a'.region before = .ok (p.elim 0 (·.size))
  sizeAfter : sizeUnless n.isNone a'.region after = .ok (n.elim 0 (·.size))
  relinked : Relinked a.region a'.region free

/-- A block that is alone has its tags already. -/
theorem Gathered.framed_alone {a a' : Arena} {p n : Option BlockView} {before after : Block}
    (h : Gathered a a' first front p off size n back free before after)
    (hnone : (p.isNone && n.isNone) = true) : a'.region.Framed (mergedBlock p off size n) := by
  cases p with
  | some v => cases hnone
  | none =>
    cases n with
    | some v => cases hnone
    | none => simpa [mergedBlock] using h.framed

/-- The hand first takes in the block before, then the one behind. -/
theorem exists_gathered {p n : Option BlockView} {before after : Block}
    (h : a.SoundBut (some off) first
      (front ++ p.toList ++ ⟨off, size, true⟩ :: (n.toList ++ back)) free)
    (hf : a.region.Framed ⟨off, size, false⟩)
    (hp : ∀ v ∈ p, v.allocated = false) (hn : ∀ v ∈ n, v.allocated = false)
    (hbefore : ∀ v ∈ p, before = v.block) (hafter : ∀ v ∈ n, after = v.block) :
    ∃ a₁ a₂, (a.unlinkUnless p.isNone before).outcome = .ok a₁ ∧
      (a₁.unlinkUnless n.isNone after).outcome = .ok a₂ ∧
      Gathered a a₂ first front p off size n back free before after := by
  have hmem : (⟨off, size, true⟩ : BlockView) ∈
      front ++ p.toList ++ ⟨off, size, true⟩ :: (n.toList ++ back) :=
    List.mem_append_right _ (List.mem_cons_self ..)
  obtain ⟨h32, -, hs, -, -, hend⟩ := h.laid.bounds hmem
  dsimp only at h32 hs hend
  obtain ⟨a₁, hok₁, h₁, hrel₁, hf₁⟩ := h.absorbBefore hp hbefore
  obtain ⟨a₂, hok₂, h₂, hrel₂, hf₂⟩ := h₁.absorbAfter (fun o ho => (Option.some.inj ho).symm)
    hn hafter
  have hmem₁ := List.mem_append_right front
    (List.mem_cons_self (l := n.toList ++ back) (a := (⟨p.elim off (·.offset),
      p.elim 0 (·.size) + size, true⟩ : BlockView)))
  have hroom := (h₁.laid.bounds hmem₁).1
  dsimp only at hroom
  have hsmall := h₂.laid.fenced.small
  have hpb := h.laid.before_bounds
  have hnb := h.laid.after_bounds
  have hlead : p.elim off (·.offset) + p.elim 0 (·.size) = off := by
    cases p with
    | none => rfl
    | some v => exact (hpb v rfl).1
  have hsize : a₂.region.size = a.region.size :=
    hrel₂.changed.size_eq.trans hrel₁.changed.size_eq
  -- The tags inside the hand outlast the changes of links.
  have hown₁ := h.framed_of_relinked hmem rfl hrel₁ hf (show 8 ≤ off by omega)
    (show 16 ≤ size by omega) (Nat.le_refl _) (Nat.le_refl _)
  have hown₂ := h₁.framed_of_relinked hmem₁ rfl hrel₂ hown₁ (show 8 ≤ p.elim off _ by omega)
    (show 16 ≤ size by omega) (show p.elim off _ ≤ off by omega)
    (show off + size ≤ p.elim off _ + (p.elim 0 _ + size) by omega)
  have hpf : ∀ v ∈ p, a₂.region.Framed v := by
    rintro v rfl
    obtain ⟨-, hv32, hvs, -⟩ := hpb v rfl
    exact h₁.framed_of_relinked hmem₁ rfl hrel₂ (hf₁ v rfl) (show 8 ≤ v.offset by omega)
      (show 16 ≤ v.size by omega) (Nat.le_refl _)
      (show v.offset + v.size ≤ v.offset + (v.size + size) by omega)
  refine ⟨a₁, a₂, hok₁, hok₂, ?_, hown₂, ?_, ?_, ?_⟩
  · rw [List.map_append, List.diff_append]
    exact h₂
  · refine sizeUnless_eq hsmall (fun v hv => ?_) hbefore
    obtain ⟨hvo, hv32, -, hv8⟩ := hpb v hv
    exact ⟨hpf v hv, by omega, by omega, hv8⟩
  · refine sizeUnless_eq hsmall (fun v hv => ?_) hafter
    obtain ⟨hvo, -, hv8, hvend⟩ := hnb v hv
    exact ⟨hf₂ v hv, by omega, by omega, hv8⟩
  · exact hrel₁.trans (hrel₂.mono (List.diff_subset ..))

/-- The links of the neighbours lie in the merged block. -/
theorem covers_of_inLinks {p n : Option BlockView} {j : Nat}
    (hp : ∀ v ∈ p, v.offset + v.size = off ∧ 32 ≤ v.size)
    (hn : ∀ v ∈ n, v.offset = off + size ∧ 32 ≤ v.size) (hoff : p.elim off (·.offset) ≤ off)
    (hj : InLinks free j) :
    (mergedBlock p off size n).Covers j ∨
      InLinks (free.diff ((p.toList ++ n.toList).map block)) j := by
  obtain ⟨c, hc, hlow, hhigh⟩ := hj
  by_cases hnear : c ∈ (p.toList ++ n.toList).map block
  · obtain ⟨v, hv, rfl⟩ := List.mem_map.mp hnear
    left
    simp only [Covers, mergedBlock, block] at hlow hhigh ⊢
    rcases List.mem_append.mp hv with hv | hv
    · obtain rfl := Option.mem_toList.mp hv
      obtain ⟨hend, hlong⟩ := hp v rfl
      simp only [Option.elim_some]
      omega
    · obtain rfl := Option.mem_toList.mp hv
      obtain ⟨hstart, hlong⟩ := hn v rfl
      simp only [Option.elim_some]
      cases p with
      | none =>
        simp only [Option.elim_none]
        omega
      | some u =>
        have hu := (hp u rfl).1
        simp only [Option.elim_some]
        omega
  · exact .inr ⟨c, List.mem_diff_of_mem hc hnear, hlow, hhigh⟩

/-- **Merging.** The block in hand, marked free, becomes one with its free
neighbours and goes to the front of the list. -/
theorem coalesce {p n : Option BlockView}
    (h : a.SoundBut (some off) first
      (front ++ p.toList ++ ⟨off, size, true⟩ :: (n.toList ++ back)) free)
    (hf : a.region.Framed ⟨off, size, false⟩)
    (hp : ∀ v ∈ p, v.allocated = false) (hn : ∀ v ∈ n, v.allocated = false)
    (hlast : ∀ u ∈ front.getLast?, u.allocated = true)
    (hhead : ∀ u ∈ back.head?, u.allocated = true) :
    ∃ a', (a.coalesce ⟨off⟩).outcome = .ok ((mergedBlock p off size n).block, a') ∧
      a'.Sound first (front ++ mergedBlock p off size n :: back)
        ((mergedBlock p off size n).block :: free.diff ((p.toList ++ n.toList).map block)) ∧
      (Changed a.region a'.region fun j => (mergedBlock p off size n).Covers j ∨
        InLinks (free.diff ((p.toList ++ n.toList).map block)) j) ∧
      ∀ q, a'.region.Marked q → a.region.Marked q := by
  have hmem : (⟨off, size, true⟩ : BlockView) ∈
      front ++ p.toList ++ ⟨off, size, true⟩ :: (n.toList ++ back) :=
    List.mem_append_right _ (List.mem_cons_self ..)
  obtain ⟨h32, h8, hs, hs8, -, hend⟩ := h.laid.bounds hmem
  dsimp only at h32 h8 hs hs8 hend
  have htag : Block.tag ⟨off⟩ a.region = .ok ⟨size, false⟩ :=
    Block.tag_eq (show 8 ≤ off by omega) (show off ≤ _ by omega) h.laid.fenced.small hs8 hf.header
  obtain ⟨before, hbefore, hbeforeUsed, hbeforeIs⟩ := h.laid.exists_before hp hlast
  obtain ⟨after, hafter, hafterUsed, hafterIs⟩ := h.laid.exists_after htag hn hhead
  obtain ⟨a₁, a₂, hok₁, hok₂, hg⟩ := h.exists_gathered hf hp hn hbeforeIs hafterIs
  have hmerged := hg.sound.laid.bounds (List.mem_append_right _ (List.mem_cons_self ..))
  have hsmall := hg.sound.laid.fenced.small
  dsimp only at hmerged
  obtain ⟨r, hmark, hframed, hchanged, hmarked⟩ := exists_markUnless
    (v := mergedBlock p off size n) (by omega) (by omega) (by omega) (by omega) (by omega) hsmall
    rfl hg.framed_alone
  have h₃ := hg.sound.of_changed (List.mem_append_right _ (List.mem_cons_self ..)) rfl
    (s := r) hchanged fun hne => absurd rfl hne
  obtain ⟨a', hpush, hsound, hrel⟩ := h₃.push hframed hlast hhead
  have hpb := h.laid.before_bounds
  have hnb := h.laid.after_bounds
  have hlead : p.elim off (·.offset) ≤ off := by
    cases p with
    | none => exact Nat.le_refl off
    | some v => exact Nat.le_of_add_right_le (Nat.le_of_eq (hpb v rfl).1)
  refine ⟨a', ?_, hsound, ?_, fun q hq => hg.relinked.marked h.scattered.aligned q
    (hmarked q (hrel.marked hsound.scattered.aligned q hq))⟩
  · have hbase : (if p.isNone = true then (⟨off⟩ : Block) else before) =
        (mergedBlock p off size n).block := by
      cases p with
      | none => rfl
      | some v => exact hbeforeIs v rfl
    have htotal : size + (p.elim 0 (·.size) + n.elim 0 (·.size)) =
        (mergedBlock p off size n).size := by
      simp only [mergedBlock]
      omega
    unfold Arena.coalesce
    simp only [Traced.outcome_bind, Traced.outcome_lift, Traced.outcome_pure,
      Traced.outcome_emit]
    refine bind_ok_iff.mpr ⟨_, hbefore, bind_ok_iff.mpr ⟨_, hafter, ?_⟩⟩
    refine bind_ok_iff.mpr ⟨_, hbeforeUsed, bind_ok_iff.mpr ⟨_, hafterUsed, ?_⟩⟩
    refine bind_ok_iff.mpr ⟨_, Block.size_eq htag, ?_⟩
    refine bind_ok_iff.mpr ⟨_, hok₁, bind_ok_iff.mpr ⟨_, hok₂, ?_⟩⟩
    refine bind_ok_iff.mpr ⟨_, hg.sizeBefore, bind_ok_iff.mpr ⟨_, hg.sizeAfter, ?_⟩⟩
    refine bind_ok_iff.mpr ⟨_, Word.add_ok (by omega), ?_⟩
    refine bind_ok_iff.mpr ⟨_, Word.add_ok (show size + _ < _ by omega), ?_⟩
    rw [hbase, htotal]
    exact bind_ok_iff.mpr ⟨_, hmark, bind_ok_iff.mpr ⟨_, rfl, bind_ok_iff.mpr ⟨_, hpush, rfl⟩⟩⟩
  · refine (hg.relinked.changed.mono fun j hj => ?_).trans
      (.trans (hchanged.mono fun j hj => .inl hj) (hrel.changed.mono ?_))
    · exact covers_of_inLinks (fun v hv => ⟨(hpb v hv).1, (hpb v hv).2.2.1⟩)
        (fun v hv => ⟨(hnb v hv).1, (hnb v hv).2.1⟩) hlead hj
    · rintro j ⟨c, hc, hlow, hhigh⟩
      rcases List.mem_cons.mp hc with rfl | hc
      · -- the merged block's own links
        left
        simp only [Covers] at hlow hhigh ⊢
        omega
      · exact .inr ⟨c, hc, hlow, hhigh⟩

/-- **Merging, on whole lists.** The block in hand, marked free, takes its free
neighbours with it, whichever of them there are. -/
theorem freed (h : a.SoundBut (some off) first (front ++ ⟨off, size, true⟩ :: back) free)
    (hf : a.region.Framed ⟨off, size, false⟩) :
    ∃ a', (a.coalesce ⟨off⟩).outcome = .ok ((freedBlock front off size back).block, a') ∧
      a'.Sound first (freedBlocks front off size back) (freedList front off size back free) ∧
      Changed a.region a'.region (InVacant (front ++ ⟨off, size, false⟩ :: back)) ∧
      ∀ q, a'.region.Marked q → a.region.Marked q := by
  obtain ⟨hfront, hback⟩ := (noFreePair_mid rfl).mp h.merged
  have hcut := h
  rw [← cutLast_append front, ← cutFirst_append back] at hcut
  obtain ⟨a', hok, hsound, hchanged, hmarked⟩ := hcut.coalesce hf cutLast_free cutFirst_free
    (cutLast_last hfront) (cutFirst_first hback)
  refine ⟨a', hok, hsound, hchanged.mono fun j hj => ?_, hmarked⟩
  -- all that is changed was free or in hand
  have hvacant : InVacant (freedBlocks front off size back) j := by
    rcases hj with hj | ⟨c, hc, hj⟩
    · exact inVacant_of_covers rfl hj
    · exact hsound.laid.inVacant_of_inLinks hsound.members ⟨c, List.mem_cons_of_mem _ hc, hj⟩
  have hparts := inVacant_of_merged
    (fun v hv => ⟨cutLast_free v hv, (hcut.laid.before_bounds v hv).1⟩)
    (fun v hv => ⟨cutFirst_free v hv, (hcut.laid.after_bounds v hv).1⟩) hvacant
  rwa [cutLast_append, cutFirst_append] at hparts

end Arena.SoundBut

end BoundaryTag
