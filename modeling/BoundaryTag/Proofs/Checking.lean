import BoundaryTag.Heap.Build
import BoundaryTag.Proofs.Growing

/-!
# The check never faults

The check follows sizes and links that it has no reason to trust, so each of its reads
has to be guarded by what it compared before. That the guards are enough has nothing to
do with sound heaps: it holds of any bytes, as long as the reported end of the heap lies
in the region. Each of the two judgements is taken apart once, into what it compared on
the way to each of its answers; all else is read off from there.

> `judgeBlock_judged`, `judgeMember_vetted`: what each judgement of the two walks rests on.
>
> `exists_check`: the check answers, whatever the bytes are.
-/

namespace BoundaryTag

open Finding (ofFault)

namespace Finding

variable {α β : Type}

/-- The computation may find something wrong, but it does not fault. -/
def Faultless (x : Except Finding α) : Prop := ∀ f, x ≠ .error (.fault f)

theorem Faultless.ok (a : α) : Faultless (.ok a) := nofun

/-- To report a violation is not to fault. -/
theorem Faultless.violation (v : Violation) : Faultless (throw (.violation v) : Except Finding α) :=
  nofun

/-- What ended one computation ends another. -/
theorem Faultless.error {e : Finding} (h : Faultless (.error e : Except Finding α)) :
    Faultless (.error e : Except Finding β) := by
  intro fault he
  cases he
  exact h fault rfl

/-- What follows an answer need only be faultless for that answer. -/
theorem Faultless.bind {x : Except Finding α} {f : α → Except Finding β} (hx : Faultless x)
    (hf : ∀ a, x = .ok a → Faultless (f a)) : Faultless (x >>= f) := by
  cases x with
  | error e => exact hx.error
  | ok a => exact hf a rfl

/-- A read that succeeds goes on with its value. -/
theorem ofFault_bind {x : Except Fault α} {a : α} (h : x = .ok a) (f : α → Except Finding β) :
    (ofFault x >>= f) = f a := by
  rw [h]
  rfl

/-- A read that succeeds can be left out of the question. -/
theorem Faultless.read_bind {x : Except Fault α} {a : α} {f : α → Except Finding β}
    (h : x = .ok a) (hf : Faultless (f a)) : Faultless (ofFault x >>= f) := by
  rwa [ofFault_bind h]

/-- A faultless search settles on an answer. -/
theorem Faultless.exists_settle {x : Except Finding α} (h : Faultless x) :
    ∃ answer, settle x = .ok answer := by
  match x, h with
  | .ok a, _ => exact ⟨.ok a, rfl⟩
  | .error (.violation v), _ => exact ⟨.error v, rfl⟩
  | .error (.fault f), h => exact absurd rfl (h f)

end Finding

open Finding (Faultless)

namespace Region

variable {r : Region} {low stop : Nat}

/-! ## The walk over the blocks -/

/-- A block as it should be: long enough and of whole words, ending no later than `stop`,
with the same tag at both ends. -/
structure Intact (r : Region) (stop : Nat) (v : BlockView) : Prop where
  size_ge : 32 ≤ v.size
  size_aligned : v.size % 8 = 0
  within : v.offset + v.size ≤ stop
  framed : r.Framed v

/-- What each judgement about the place `b`, where the word `header` was read, rests on. -/
inductive Judged (r : Region) (stop : Nat) (prevFree : Option Nat) (b : Block) (header : Nat) :
    Except Finding (Option BlockView) → Prop
  | beyond (far : stop < b.offset) :
      Judged r stop prevFree b header (.error (.violation (.badEpilogue b.offset)))
  | epilogue (last : b.offset = stop) (tag : Tag.ofWord header = ⟨0, true⟩) :
      Judged r stop prevFree b header (.ok none)
  | badEpilogue (near : b.offset ≤ stop) (empty : (Tag.ofWord header).size = 0)
      (misplaced : ¬ ((Tag.ofWord header).allocated = true ∧ b.offset = stop)) :
      Judged r stop prevFree b header (.error (.violation (.badEpilogue b.offset)))
  | badSize (near : b.offset ≤ stop) (filled : (Tag.ofWord header).size ≠ 0)
      (odd : Tag.rawSize header < 32 ∨ Tag.rawSize header % 8 ≠ 0) :
      Judged r stop prevFree b header
        (.error (.violation (.badSize b.offset (Tag.rawSize header))))
  | outOfBounds (near : b.offset ≤ stop) (long : 32 ≤ Tag.rawSize header)
      (aligned : Tag.rawSize header % 8 = 0) (past : stop < b.offset + Tag.rawSize header) :
      Judged r stop prevFree b header (.error (.violation (.outOfBounds b.offset)))
  | tagMismatch (long : 32 ≤ Tag.rawSize header) (aligned : Tag.rawSize header % 8 = 0)
      (within : b.offset + Tag.rawSize header ≤ stop)
      (differ : r.word (b.offset + Tag.rawSize header - 16) ≠ header) :
      Judged r stop prevFree b header (.error (.violation
        (.tagMismatch b.offset header (r.word (b.offset + Tag.rawSize header - 16)))))
  | uncoalesced {v : BlockView} {first : Nat} (place : v.block = b) (intact : r.Intact stop v)
      (free : v.allocated = false) (before : prevFree = some first) :
      Judged r stop prevFree b header (.error (.violation (.uncoalesced first b.offset)))
  | sound {v : BlockView} (place : v.block = b) (intact : r.Intact stop v)
      (merged : v.allocated = true ∨ prevFree = none) :
      Judged r stop prevFree b header (.ok (some v))

/-- **The judgement about a place** rests on the words there. -/
theorem judgeBlock_judged {b : Block} (hstop : stop ≤ r.size) (hr : r.size < Word.limit)
    (hb : 8 ≤ b.offset) (prevFree : Option Nat) :
    Judged r stop prevFree b (r.word (b.offset - 8)) (r.judgeBlock stop prevFree b) := by
  unfold judgeBlock
  split
  · next hfar => exact .beyond hfar
  · next hnear =>
    have hheader := Block.headerWord_eq hb (show b.offset ≤ r.size by omega) hr
    have htag : b.tag r = .ok (Tag.ofWord (r.word (b.offset - 8))) :=
      Block.tag_ok_iff.mpr ⟨hb, by omega, by omega, rfl⟩
    rw [Finding.ofFault_bind hheader]
    dsimp only
    generalize hword : r.word (b.offset - 8) = header at htag ⊢
    split
    · next hempty =>
      split
      · next hlast => exact .epilogue hlast.2 (by rw [← hempty, ← hlast.1])
      · next hnot => exact .badEpilogue (by omega) hempty hnot
    · next hfilled =>
      split
      · next hodd => exact .badSize (by omega) hfilled hodd
      · next hraw =>
        simp only [minBlockSize, alignment, not_or, Nat.not_lt, ne_eq, not_not] at hraw
        have hsize := Tag.size_ofWord hraw.2
        split
        · next hpast => exact .outOfBounds (by omega) hraw.1 hraw.2 (by omega)
        · next hfits =>
          -- the size was compared with the bounds, so the footer can be read
          have hfooter := Block.footerWord_eq htag (by omega) (by omega) (by omega)
          rw [Finding.ofFault_bind hfooter, hsize]
          split
          · next hdiffer => exact .tagMismatch hraw.1 hraw.2 (by omega) hdiffer
          · next hsame =>
            have hintact : r.Intact stop ⟨b.offset, Tag.rawSize header,
                (Tag.ofWord header).allocated⟩ := by
              have hback : Tag.word ⟨Tag.rawSize header, (Tag.ofWord header).allocated⟩ =
                  header := hsize ▸ Tag.word_ofWord hraw.2
              exact ⟨hraw.1, hraw.2, by dsimp only; omega, hword.trans hback.symm,
                (not_not.mp hsame).trans hback.symm⟩
            split
            · next hfree => exact .uncoalesced rfl hintact hfree rfl
            · next before _ _ hpair =>
              refine .sound rfl hintact ?_
              cases hmark : (Tag.ofWord header).allocated with
              | true => exact .inl rfl
              | false =>
                cases before with
                | none => exact .inr rfl
                | some first => exact (hpair first hmark rfl).elim

/-- **One block.** A size is checked before the footer is looked up by it. -/
theorem judgeBlock_faultless {prevFree : Option Nat} {b : Block} (hstop : stop ≤ r.size)
    (hr : r.size < Word.limit) (hb : 8 ≤ b.offset) :
    Faultless (r.judgeBlock stop prevFree b) := by
  have hjudged := judgeBlock_judged hstop hr hb prevFree
  generalize r.judgeBlock stop prevFree b = judgement at hjudged ⊢
  cases hjudged <;> exact nofun

/-- **All blocks,** one after the other: each that passes leaves its successor within bounds. -/
theorem soundBlocks_faultless {prevFree : Option Nat} {b : Block} (hstop : stop ≤ r.size)
    (hr : r.size < Word.limit) (hb : 8 ≤ b.offset) :
    Faultless (r.soundBlocks stop prevFree b) := by
  fun_induction soundBlocks r stop prevFree b with
  | case1 prevFree b e judged =>
    have hjudge : Faultless (r.judgeBlock stop prevFree b) := judgeBlock_faultless hstop hr hb
    rw [judged] at hjudge
    exact hjudge.error
  | case2 => exact .ok []
  | case3 prevFree b v judged hmoves free ih =>
    have := judgeBlock_some judged
    exact .bind (ih (show 8 ≤ v.offset + v.size by omega)) fun _ _ => .ok _

/-! ## The walk along the free list -/

/-- The bounds of the list are compared without overflow. -/
theorem memberOutside_eq {offset : Nat} (hlow : low + 16 < Word.limit) (hstop : 16 ≤ stop) :
    memberOutside low stop offset = .ok (decide (offset < low + 16 ∨ stop - 16 < offset)) := by
  unfold memberOutside
  refine bind_ok_iff.mpr ⟨_, Word.add_ok hlow, ?_⟩
  by_cases hlt : offset < low + 16
  · rw [if_pos hlt, decide_eq_true (.inl hlt)]
    rfl
  · rw [if_neg hlt]
    refine bind_ok_iff.mpr ⟨_, Word.sub_ok hstop, ?_⟩
    simp [hlt]
    rfl

/-- What each judgement about the member `b` rests on. -/
inductive Vetted (r : Region) (low stop : Nat) (unlisted listed : List Nat) (b : Block) :
    Except Finding (Option Block) → Prop
  | outside (out : b.offset < low + 16 ∨ stop < b.offset + 16) :
      Vetted r low stop unlisted listed b (.error (.violation (.outOfBounds b.offset)))
  | twice (within : low + 16 ≤ b.offset ∧ b.offset + 16 ≤ stop) (met : b.offset ∈ listed) :
      Vetted r low stop unlisted listed b (.error (.violation (.listedTwice b.offset)))
  | allocated (within : low + 16 ≤ b.offset ∧ b.offset + 16 ≤ stop) (fresh : b.offset ∉ listed)
      (mark : (Tag.ofWord (r.word (b.offset - 8))).allocated = true) :
      Vetted r low stop unlisted listed b (.error (.violation (.allocatedInFreeList b.offset)))
  | stray (within : low + 16 ≤ b.offset ∧ b.offset + 16 ≤ stop) (fresh : b.offset ∉ listed)
      (mark : (Tag.ofWord (r.word (b.offset - 8))).allocated = false)
      (unknown : b.offset ∉ unlisted) :
      Vetted r low stop unlisted listed b (.error (.violation (.strayLink b.offset)))
  | broken (within : low + 16 ≤ b.offset ∧ b.offset + 16 ≤ stop) (fresh : b.offset ∉ listed)
      (mark : (Tag.ofWord (r.word (b.offset - 8))).allocated = false)
      (known : b.offset ∈ unlisted)
      (back : (Block.ofLinkWord (r.word (b.offset + 8))).map Block.offset ≠ listed.head?) :
      Vetted r low stop unlisted listed b (.error (.violation (.brokenBackLink b.offset
        listed.head? ((Block.ofLinkWord (r.word (b.offset + 8))).map Block.offset))))
  | sound (within : low + 16 ≤ b.offset ∧ b.offset + 16 ≤ stop) (fresh : b.offset ∉ listed)
      (mark : (Tag.ofWord (r.word (b.offset - 8))).allocated = false)
      (known : b.offset ∈ unlisted)
      (back : (Block.ofLinkWord (r.word (b.offset + 8))).map Block.offset = listed.head?) :
      Vetted r low stop unlisted listed b (.ok (Block.ofLinkWord (r.word b.offset)))

/-- **The judgement about a member** rests on its words and on what was met before. -/
theorem judgeMember_vetted (unlisted listed : List Nat) (b : Block) (hstop : stop ≤ r.size)
    (hr : r.size < Word.limit) (hlow : low + 16 < Word.limit) (hroom : 16 ≤ stop) :
    Vetted r low stop unlisted listed b (r.judgeMember low stop unlisted listed b) := by
  unfold judgeMember
  rw [Finding.ofFault_bind (memberOutside_eq hlow hroom)]
  split
  · next hout =>
    have hout := of_decide_eq_true hout
    exact .outside (by omega)
  · next hin =>
    have hin : ¬ (b.offset < low + 16 ∨ stop - 16 < b.offset) := by simpa using hin
    have hwithin : low + 16 ≤ b.offset ∧ b.offset + 16 ≤ stop := by omega
    split
    · next hmet => exact .twice hwithin hmet
    · next hfresh =>
      have htag : b.tag r = .ok (Tag.ofWord (r.word (b.offset - 8))) :=
        Block.tag_ok_iff.mpr ⟨by omega, by omega, by omega, rfl⟩
      rw [Finding.ofFault_bind (Block.allocated_eq htag)]
      split
      · next hused => exact .allocated hwithin hfresh hused
      · next hfree =>
        have hmark := Bool.eq_false_iff.mpr hfree
        split
        · next hknown =>
          have hforward := Block.forwardLink_word (b := b) (r := r) (by omega) hr
          have hback := Block.backLink_word (b := b) (r := r) (by omega) hr
          rw [Finding.ofFault_bind hback]
          dsimp only
          split
          · next hlink =>
            rw [hforward]
            exact .sound hwithin hfresh hmark hknown hlink
          · next hlink => exact .broken hwithin hfresh hmark hknown hlink
        · next hunknown => exact .stray hwithin hfresh hmark hunknown

/-- **One member of the list.** That it lies inside is checked before its tag and its links are
read. -/
theorem judgeMember_faultless {unlisted listed : List Nat} {b : Block} (hstop : stop ≤ r.size)
    (hr : r.size < Word.limit) (hlow : low + 16 < Word.limit) (hroom : 16 ≤ stop) :
    Faultless (r.judgeMember low stop unlisted listed b) := by
  have hvetted := judgeMember_vetted unlisted listed b hstop hr hlow hroom
  generalize r.judgeMember low stop unlisted listed b = judgement at hvetted ⊢
  cases hvetted <;> exact nofun

/-- **The whole list,** member by member. -/
theorem soundList_faultless {unlisted listed : List Nat} {current : Option Block}
    (hstop : stop ≤ r.size) (hr : r.size < Word.limit) (hlow : low + 16 < Word.limit)
    (hroom : 16 ≤ stop) : Faultless (r.soundList low stop unlisted listed current) := by
  fun_induction soundList r low stop unlisted listed current with
  | case1 => exact .ok _
  | case2 unlisted listed b e judged =>
    have hjudge : Faultless (r.judgeMember low stop unlisted listed b) :=
      judgeMember_faultless hstop hr hlow hroom
    rw [judged] at hjudge
    exact hjudge.error
  | case3 _ _ _ _ _ _ ih => exact ih

/-! ## The prologue -/

/-- A prologue passes if it lies between the bounds and both its words are in place. -/
theorem prologueSound_eq {prologue : Block} (low stop : Nat) (ho : 8 ≤ prologue.offset)
    (hin : prologue.offset + 8 ≤ r.size) (hr : r.size < Word.limit) :
    r.prologueSound low stop prologue = .ok (decide (low + 8 ≤ prologue.offset ∧
      prologue.offset + 8 ≤ stop ∧ r.word (prologue.offset - 8) = prologueWord ∧
      r.word prologue.offset = prologueWord)) := by
  have hheader := Block.headerWord_eq ho (show prologue.offset ≤ r.size by omega) hr
  have hfooter : r.readWord prologue.offset = .ok (r.word prologue.offset) :=
    readWord_ok_iff.mpr ⟨hin, by omega, rfl⟩
  have hpos : prologue.headerPos = .ok (prologue.offset - 8) := Word.sub_ok ho
  have hend : Word.add prologue.offset 8 = .ok (prologue.offset + 8) := Word.add_ok (by omega)
  unfold prologueSound
  rw [bind_of_ok hpos]
  -- one case for each comparison that can fail
  by_cases hlow : prologue.offset - 8 < low
  · rw [if_pos hlow, decide_eq_false (by omega)]
    rfl
  rw [if_neg hlow, bind_of_ok hend]
  by_cases hstop : stop < prologue.offset + 8
  · rw [if_pos hstop, decide_eq_false (by omega)]
    rfl
  rw [if_neg hstop, bind_of_ok hheader]
  have hbounds : low + 8 ≤ prologue.offset ∧ prologue.offset + 8 ≤ stop := by omega
  by_cases hword : r.word (prologue.offset - 8) = prologueWord
  · rw [if_neg (not_not.mpr hword), bind_of_ok hfooter]
    simp [hbounds, hword]
    rfl
  · rw [if_pos hword, decide_eq_false fun h => hword h.2.2.1]
    rfl

end Region

/-! ## The check -/

namespace Heap

variable {h : Heap} {o : Outline}

/-- **The whole check,** of any bytes, if the prologue and the high end are within them. -/
theorem findings_faultless (ho : 8 ≤ h.prologue.offset) (hin : h.prologue.offset + 8 ≤ h.size)
    (hsmall : h.size < Word.limit) (hhigh : h.provider.high < h.size) :
    Faultless h.findings := by
  have hsize : h.region.size = h.size := rfl
  unfold findings
  dsimp only
  refine .read_bind (Word.add_ok (show h.provider.high + 1 < _ by omega)) ?_
  refine .read_bind
    (Region.prologueSound_eq h.provider.low (h.provider.high + 1) ho hin hsmall) ?_
  split
  · next hs =>
    -- the bounds of the prologue are what the two walks need
    obtain ⟨hlow, hstop, -, -⟩ := of_decide_eq_true hs
    refine .bind (Region.soundBlocks_faultless (by omega) hsmall ?_) ?_
    · show 8 ≤ h.prologue.offset + 16
      omega
    · intro blocks _
      refine .bind (Region.soundList_faultless (by omega) hsmall (by omega) (by omega))
        fun found _ => ?_
      obtain ⟨listed, unlisted⟩ := found
      cases unlisted with
      | cons offset rest => exact .violation _
      | nil =>
        dsimp only
        split
        · exact .violation _
        · exact .ok _
  · exact .violation _

/-- **The check answers,** whatever the bytes, the free list and the bounds are, if the
prologue and the reported end lie in the region. -/
theorem exists_check (ho : 8 ≤ h.prologue.offset) (hin : h.prologue.offset + 8 ≤ h.size)
    (hsmall : h.size < Word.limit) (hhigh : h.provider.high < h.size) :
    ∃ answer, h.check = .ok answer :=
  (findings_faultless ho hin hsmall hhigh).exists_settle

/-- The prologue leaves room before it, the first block has its place in the region, and the
provider tells the region's true bounds. -/
structure Placed (h : Heap) : Prop where
  aligned : h.firstBlock.offset % 8 = 0
  room : 32 ≤ h.firstBlock.offset
  fits : h.firstBlock.offset ≤ h.size
  small : h.size < Word.limit
  low : h.provider.low = 0
  high : h.provider.high + 1 = h.size

theorem Shows.placed (hs : h.Shows o) : h.Placed := by
  have hfenced := hs.sound.laid.fenced
  have hroom := hfenced.room
  have hfits : h.firstBlock.offset ≤ h.size := hs.sound.laid.tiling.le
  refine ⟨hfenced.aligned, hroom, hfits, hs.size_lt, ?_, ?_⟩
  · rw [Provider.low, hs.valid.honest.1]
    rfl
  · rw [Provider.high, hs.valid.honest.2]
    show h.size - 1 + 1 = h.size
    omega

/-- The bounds that both walks keep to. -/
theorem Placed.bounds (hp : h.Placed) :
    8 ≤ h.firstBlock.offset ∧ h.firstBlock.offset ≤ h.region.size ∧ h.region.size = h.size ∧
      h.region.size < Word.limit ∧ 0 + 16 < Word.limit ∧ 16 ≤ h.size := by
  have hroom := hp.room
  have hfits := hp.fits
  have hsmall := hp.small
  exact ⟨by omega, hfits, rfl, hsmall, by omega, by omega⟩

/-- Bytes and free list have no part in it. -/
theorem Placed.withArena (hp : h.Placed) {a : Arena} (hsize : a.region.size = h.size) :
    (h.withArena a).Placed := by
  refine ⟨hp.aligned, hp.room, ?_, ?_, hp.low, ?_⟩
  · show h.firstBlock.offset ≤ a.region.size
    exact hsize ▸ hp.fits
  · show a.region.size < Word.limit
    exact hsize ▸ hp.small
  · show h.provider.claimedHigh.getD (a.region.size - 1) + 1 = a.region.size
    rw [hsize]
    exact hp.high

/-- The check has an answer on any bytes. -/
theorem Placed.exists_check (hp : h.Placed) : ∃ answer, h.check = .ok answer := by
  have hfirst : h.firstBlock.offset = h.prologue.offset + 16 := rfl
  have hroom := hp.room
  have hfits := hp.fits
  have hhigh := hp.high
  exact Heap.exists_check (by omega) (by omega) hp.small (by omega)

theorem Shows.exists_check (hs : h.Shows o) : ∃ answer, h.check = .ok answer :=
  hs.placed.exists_check

/-- A check that answers can be part of any operation. -/
theorem selfCheck_ok {answer : Except Violation Report} (hc : h.check = .ok answer)
    (operation : String) : (h.selfCheck operation).outcome = .ok () := by
  unfold selfCheck
  split
  · rw [Traced.outcome_bind]
    refine bind_ok_iff.mpr ⟨answer, hc, ?_⟩
    cases answer <;> rfl
  · rfl

end Heap

end BoundaryTag
