import BoundaryTag.Proofs.Links
import Mathlib.Control.Monad.Basic
import Mathlib.Data.List.Find
import Mathlib.Data.List.Nodup
import Mathlib.Data.List.Perm.Subperm

/-!
# Who is on the free list

The free list by itself, without a heap around it: blocks that lie about in a region, apart from
each other, join the list and leave it in any order. What is on the list is a list of blocks, and a
block that is not on it cannot be taken off it, whatever its links say.

A block that left the list keeps the links that it had. What tells it from a member is that the
predecessor it names, if it names one, does not lead back to it (`NotLinkedBack`). That one was on
the list when the block left, and was led past it then; and whatever is on the list leads to what
is on the list, so nothing is led to a block that left before it joins again.

> `HasMembers.push`, `HasMembers.unlink`: joining puts a block in front, leaving takes it out, and
> of no other block does its predecessor lead back to it.
>
> `HasMembers.unlink_nonmember`: a block that is no member fails to leave.
>
> `run_lists_members`: what the list is after any run of both in which only blocks off the list
> join and only members leave.
-/

namespace BoundaryTag

open BlockView (block tag)
open Block (ofLinkWord linkWord)
open Region (Changed)

/-! ## Blocks that lie about -/

namespace Region

/-- Blocks in a region, apart from each other, that are marked free. -/
structure DisjointFree (r : Region) (blocks : List BlockView) : Prop where
  apart : ∀ v ∈ blocks, ∀ w ∈ blocks, v ≠ w →
    v.offset + v.size ≤ w.offset ∨ w.offset + w.size ≤ v.offset
  long : ∀ v ∈ blocks, 32 ≤ v.size
  inside : ∀ v ∈ blocks, 8 ≤ v.offset ∧ v.offset + v.size - 8 ≤ r.size
  vacant : ∀ v ∈ blocks, v.allocated = false
  tagged : ∀ v ∈ blocks, v.block.tag r = .ok v.tag
  small : r.size < Word.limit

/-- Both link words of every block are zero. -/
def ZeroLinks (r : Region) (blocks : List BlockView) : Prop :=
  ∀ v ∈ blocks, r.word v.offset = 0 ∧ r.word (v.offset + 8) = 0

namespace DisjointFree

variable {r s : Region} {blocks members : List BlockView} {v w : BlockView}

/-- Different blocks lie in different places. -/
theorem block_inj (h : r.DisjointFree blocks) (hv : v ∈ blocks) (hw : w ∈ blocks)
    (he : v.block = w.block) : v = w := by
  have ho : v.offset = w.offset := congrArg Block.offset he
  have hvs := h.long v hv
  have hws := h.long w hw
  by_contra hne
  have := h.apart v hv w hw hne
  omega

/-- So a block is known by its place. -/
theorem mem_of_block_mem (h : r.DisjointFree blocks) (hm : ∀ u ∈ members, u ∈ blocks)
    (hv : v ∈ blocks) (hin : v.block ∈ members.map block) : v ∈ members := by
  obtain ⟨u, hu, he⟩ := List.mem_map.mp hin
  rwa [← h.block_inj (hm u hu) hv he]

/-- The links of different blocks lie apart. -/
theorem links_apart (h : r.DisjointFree blocks) (hv : v ∈ blocks) (hw : w ∈ blocks) (hne : v ≠ w) :
    v.block.offset + 16 ≤ w.block.offset ∨ w.block.offset + 16 ≤ v.block.offset := by
  have hvs := h.long v hv
  have hws := h.long w hw
  have hapart := h.apart v hv w hw hne
  show v.offset + 16 ≤ w.offset ∨ w.offset + 16 ≤ v.offset
  omega

/-- Every block has room for its links. -/
theorem room (h : r.DisjointFree blocks) (hv : v ∈ blocks) :
    8 ≤ v.block.offset ∧ v.block.offset + 16 ≤ r.size := by
  have hlong := h.long v hv
  have hin := h.inside v hv
  show 8 ≤ v.offset ∧ v.offset + 16 ≤ r.size
  omega

/-- Their tags are read as those of free blocks. -/
theorem allocated_eq (h : r.DisjointFree blocks) (hv : v ∈ blocks) :
    v.block.allocated r = .ok false := by
  rw [Block.allocated_eq (h.tagged v hv)]
  exact congrArg Except.ok (h.vacant v hv)

/-- There is room for the links of any of the blocks. -/
theorem spaced (h : r.DisjointFree blocks) (hm : ∀ u ∈ members, u ∈ blocks) (hn : members.Nodup) :
    Spaced r (members.map block) := by
  refine ⟨?_, ?_, ?_, h.small⟩
  · exact hn.map_on fun v hv w hw he => h.block_inj (hm v hv) (hm w hw) he
  · intro b hb c hc hne
    obtain ⟨v, hv, rfl⟩ := List.mem_map.mp hb
    obtain ⟨w, hw, rfl⟩ := List.mem_map.mp hc
    exact h.links_apart (hm v hv) (hm w hw) fun he => hne (congrArg block he)
  · intro b hb
    obtain ⟨v, hv, rfl⟩ := List.mem_map.mp hb
    exact h.room (hm v hv)

/-- Link words lie apart from all tags. -/
theorem of_relinked (h : r.DisjointFree blocks) (hm : ∀ u ∈ members, u ∈ blocks)
    (hs : Relinked r s (members.map block)) : s.DisjointFree blocks := by
  have hsize := hs.changed.size_eq
  refine ⟨h.apart, h.long, hsize ▸ h.inside, h.vacant, ?_, hsize ▸ h.small⟩
  intro v hv
  obtain ⟨h8, hin, hlt, htag⟩ := Block.tag_ok_iff.mp (h.tagged v hv)
  have hheader : s.word (v.block.offset - 8) = r.word (v.block.offset - 8) := by
    refine hs.changed.word_eq ?_
    intro j h₁ h₂ hj
    obtain ⟨b, hb, hlow, hhigh⟩ := hj
    obtain ⟨u, hu, rfl⟩ := List.mem_map.mp hb
    have hus := h.long u (hm u hu)
    have hvs := h.long v hv
    simp only [block] at h₁ h₂ hlow hhigh h8
    by_cases he : v = u
    · subst he
      omega
    · have := h.apart v hv u (hm u hu) he
      omega
  exact Block.tag_ok_iff.mpr ⟨h8, hsize ▸ hin, hlt, by rw [hheader, htag]⟩

/-- A block that is none of the members keeps its links when theirs change. -/
theorem links_spared (h : r.DisjointFree blocks) (hm : ∀ u ∈ members, u ∈ blocks)
    (hs : Relinked r s (members.map block)) (hv : v ∈ blocks) (hnot : v ∉ members) :
    s.word v.offset = r.word v.offset ∧ s.word (v.offset + 8) = r.word (v.offset + 8) := by
  refine hs.spared (b := v.block) ?_
  intro c hc
  obtain ⟨u, hu, rfl⟩ := List.mem_map.mp hc
  exact h.links_apart hv (hm u hu) fun he => hnot (he ▸ hu)

end DisjointFree

end Region

/-- Distinct places in a region are no more than its bytes. -/
theorem Spaced.length_le {r : Region} {members : List Block} (h : Spaced r members) :
    members.length ≤ r.size := by
  have hnodup : (members.map Block.offset).Nodup := h.nodup.map fun _ _ => Block.ext
  have hsubset : members.map Block.offset ⊆ List.range r.size := by
    intro offset hin
    obtain ⟨b, hb, rfl⟩ := List.mem_map.mp hin
    have := (h.bounds b hb).2
    exact List.mem_range.mpr (by omega)
  have hlen := (List.subperm_of_subset hnodup hsubset).length_le
  rwa [List.length_map, List.length_range] at hlen

namespace Arena

variable {a : Arena} {blocks members : List BlockView} {v : BlockView}

/-- A member leads to a member, if it leads anywhere. -/
theorem Listed.forward_mem {places : List Block} {b : Block} (h : a.Listed places)
    (hs : Spaced a.region places) (hb : b ∈ places) :
    ∀ c ∈ ofLinkWord (a.region.word b.offset), c ∈ places := by
  obtain ⟨front, back, rfl⟩ := List.append_of_mem hb
  have hread := Block.forwardLink_word (hs.bounds b hb).2 hs.small
  have hlink : ofLinkWord (a.region.word b.offset) = back.head? :=
    Except.ok.inj (hread.symm.trans (h.links hs).1)
  intro c hc
  rw [hlink] at hc
  simp [List.mem_of_mem_head? hc]

/-! ## Members and other blocks -/

/-- The predecessor that the block names, if it names any, does not lead to it. -/
def NotLinkedBack (r : Region) (blocks : List BlockView) (v : BlockView) : Prop :=
  ∀ q ∈ ofLinkWord (r.word (v.offset + 8)),
    q ∈ blocks.map block ∧ ofLinkWord (r.word q.offset) ≠ some v.block

/-- Of the blocks, these are on the list, in this order, and no predecessor leads back to any of
the others. -/
structure HasMembers (a : Arena) (blocks members : List BlockView) : Prop where
  disjointFree : a.region.DisjointFree blocks
  subset : ∀ v ∈ members, v ∈ blocks
  nodup : members.Nodup
  listed : a.Listed (members.map block)
  notLinkedBack : ∀ v ∈ blocks, v ∉ members → NotLinkedBack a.region blocks v

namespace HasMembers

variable {a' : Arena} {now : List BlockView}

/-- The members have room for their links. -/
theorem spaced (h : a.HasMembers blocks members) : Spaced a.region (members.map block) :=
  h.disjointFree.spaced h.subset h.nodup

/-- Blocks without links are off the list without members. -/
theorem empty {r : Region} (hr : r.DisjointFree blocks) (hlinks : r.ZeroLinks blocks) :
    Arena.HasMembers ⟨r, .empty⟩ blocks [] := by
  refine ⟨hr, List.forall_mem_nil _, .nil, ⟨rfl, rfl, trivial⟩, ?_⟩
  intro v hv _ q hq
  rw [(hlinks v hv).2] at hq
  cases hq

/-- **No predecessor leads back to a block off the list,** if every block that left named one for
its predecessor that stayed. -/
theorem of_relinked (h : a.HasMembers blocks members)
    (hrelinked : Relinked a.region a'.region (now.map block)) (hsubset : ∀ v ∈ now, v ∈ blocks)
    (hnodup : now.Nodup) (hlisted : a'.Listed (now.map block))
    (hleft : ∀ v ∈ members, v ∉ now → ∀ q ∈ ofLinkWord (a.region.word (v.offset + 8)),
      q ∈ now.map block) :
    a'.HasMembers blocks now := by
  have hdisjoint := h.disjointFree.of_relinked hsubset hrelinked
  have hspaced := hdisjoint.spaced hsubset hnodup
  refine ⟨hdisjoint, hsubset, hnodup, hlisted, ?_⟩
  intro v hv hnot q hq
  -- whoever is on the list now leads to others on it
  have hmember : q ∈ now.map block → ofLinkWord (a'.region.word q.offset) ≠ some v.block := by
    intro hin he
    exact hnot (hdisjoint.mem_of_block_mem hsubset hv (hlisted.forward_mem hspaced hin _ he))
  rw [(h.disjointFree.links_spared hsubset hrelinked hv hnot).2] at hq
  by_cases hold : v ∈ members
  · have hin := hleft v hold hnot q hq
    obtain ⟨u, hu, rfl⟩ := List.mem_map.mp hin
    exact ⟨List.mem_map_of_mem (hsubset u hu), hmember hin⟩
  · obtain ⟨hplace, hledto⟩ := h.notLinkedBack v hv hold q hq
    refine ⟨hplace, ?_⟩
    obtain ⟨u, hu, rfl⟩ := List.mem_map.mp hplace
    by_cases hin : u ∈ now
    · exact hmember (List.mem_map_of_mem hin)
    · rw [show u.block.offset = u.offset from rfl,
        (h.disjointFree.links_spared hsubset hrelinked hu hin).1]
      exact hledto

/-- **A block that is no member joins** in front of the members. -/
theorem push (h : a.HasMembers blocks members) (hv : v ∈ blocks) (hnot : v ∉ members) :
    ∃ a', (a.push v.block).outcome = .ok a' ∧ a'.HasMembers blocks (v :: members) ∧
      Changed a.region a'.region (InLinks ((v :: members).map block)) := by
  have hsubset : ∀ u ∈ v :: members, u ∈ blocks := List.forall_mem_cons.mpr ⟨hv, h.subset⟩
  have hnodup : (v :: members).Nodup := List.nodup_cons.mpr ⟨hnot, h.nodup⟩
  have hspaced : Spaced a.region (v.block :: members.map block) :=
    h.disjointFree.spaced hsubset hnodup
  have hlen := hspaced.length_le
  have hsmall := hspaced.small
  rw [List.length_cons] at hlen
  obtain ⟨a', hok, hlisted, hrelinked⟩ := push_listed h.listed hspaced (by omega)
  refine ⟨a', hok, h.of_relinked hrelinked hsubset hnodup hlisted ?_, hrelinked.changed⟩
  intro u hu hout
  exact absurd (List.mem_cons_of_mem v hu) hout

/-- **A member leaves,** from wherever it is. -/
theorem unlink (h : a.HasMembers blocks members) (hv : v ∈ members) :
    ∃ a', (a.unlink v.block).outcome = .ok a' ∧ a'.HasMembers blocks (members.erase v) ∧
      Changed a.region a'.region (InLinks ((members.erase v).map block)) := by
  have hspaced := h.spaced
  have hlisted := h.listed
  have hnodup := h.nodup
  obtain ⟨front, back, rfl⟩ := List.append_of_mem hv
  have hnot : v ∉ front := by
    rw [List.nodup_append] at hnodup
    exact fun hin => hnodup.2.2 v hin v (List.mem_cons_self ..) rfl
  have herase : (front ++ v :: back).erase v = front ++ back := by
    rw [List.erase_append_right _ hnot, List.erase_cons_head]
  have hfree := h.disjointFree.allocated_eq (h.subset v hv)
  simp only [List.map_append, List.map_cons] at hspaced hlisted
  obtain ⟨a', hok, hlisted', hrelinked⟩ := unlink_listed hlisted hspaced hfree
  rw [← List.map_append] at hlisted' hrelinked
  have hless : (front ++ back).Sublist (front ++ v :: back) :=
    (List.sublist_cons_self v back).append_left front
  rw [herase]
  refine ⟨a', hok, h.of_relinked hrelinked (fun u hu => h.subset u (hless.subset hu))
    (hnodup.sublist hless) hlisted' ?_, hrelinked.changed⟩
  intro u hu hout q hq
  -- the one that left named the member before it
  obtain rfl : u = v := by
    simp only [List.mem_append, List.mem_cons] at hu hout
    tauto
  have hroom := (hspaced.bounds u.block (by simp)).2
  have hback : ofLinkWord (a.region.word (u.offset + 8)) = (front.map block).getLast? :=
    Except.ok.inj ((Block.backLink_word hroom hspaced.small).symm.trans (hlisted.links hspaced).2)
  rw [hback] at hq
  rw [List.map_append]
  exact List.mem_append_left _ (List.mem_of_mem_getLast? hq)

/-- A block does not come off the list if the way forward cannot be led past it. -/
theorem unlink_error {b : Block} {next prev : Option Block} {fault : Fault}
    (hfree : b.allocated a.region = .ok false) (hnext : b.forwardLink a.region = .ok next)
    (hprev : b.backLink a.region = .ok prev) (hfault : a.relinkForward b prev next = .error fault) :
    (a.unlink b).outcome = .error fault := by
  unfold Arena.unlink
  simp only [Traced.outcome_bind, Traced.outcome_emit, Traced.outcome_lift]
  rw [bind_of_ok rfl, bind_of_ok hfree]
  simp only [Bool.false_eq_true, if_false, Traced.outcome_bind, Traced.outcome_lift]
  rw [bind_of_ok hnext, bind_of_ok hprev, hfault]
  rfl

/-- **A block that is no member fails to leave:** it has no predecessor and does not begin the
list, or its predecessor does not lead to it. -/
theorem unlink_nonmember (h : a.HasMembers blocks members) (hv : v ∈ blocks) (hnot : v ∉ members) :
    (a.unlink v.block).outcome = .error (.unlinkNotHead v.offset) ∨
      (a.unlink v.block).outcome = .error (.unlinkNotLinked v.offset) := by
  have hsmall := h.disjointFree.small
  have hroom := (h.disjointFree.room hv).2
  have hfree := h.disjointFree.allocated_eq hv
  have hnext := Block.forwardLink_word hroom hsmall
  have hprev := Block.backLink_word hroom hsmall
  have hnotLinked := h.notLinkedBack v hv hnot
  cases hback : ofLinkWord (a.region.word (v.offset + 8)) with
  | none =>
    have hhead : a.freeList.head ≠ some v.block := by
      intro he
      rw [h.listed.head] at he
      exact hnot (h.disjointFree.mem_of_block_mem h.subset hv (List.mem_of_mem_head? he))
    exact .inl (unlink_error hfree hnext (hprev.trans (congrArg Except.ok hback)) (if_neg hhead))
  | some q =>
    obtain ⟨hplace, hledto⟩ := hnotLinked q hback
    obtain ⟨u, hu, rfl⟩ := List.mem_map.mp hplace
    have hforward := Block.forwardLink_word (h.disjointFree.room hu).2 hsmall
    refine .inr (unlink_error hfree hnext (hprev.trans (congrArg Except.ok hback)) ?_)
    refine (bind_of_ok hforward _).trans ?_
    rw [if_neg hledto]
    rfl

end HasMembers

/-! ## Joining and leaving -/

/-- One change to the list. -/
inductive Step where
  /-- A block joins. -/
  | push (v : BlockView)
  /-- A block leaves. -/
  | unlink (v : BlockView)
deriving DecidableEq, Repr

namespace Step

/-- The change to the arena. -/
def apply (a : Arena) : Step → Traced Arena
  | push v => a.push v.block
  | unlink v => a.unlink v.block

/-- The change to the list of members. -/
def after (members : List BlockView) : Step → List BlockView
  | push v => v :: members
  | unlink v => members.erase v

/-- Only blocks off the list join, and only members leave. -/
def Allowed (blocks members : List BlockView) : Step → Prop
  | push v => v ∈ blocks ∧ v ∉ members
  | unlink v => v ∈ members

/-- Several changes in a row. -/
def run (a : Arena) : List Step → Traced Arena
  | [] => pure a
  | step :: rest => do run (← step.apply a) rest

/-- The members after several changes. -/
def afterAll (members : List BlockView) (steps : List Step) : List BlockView :=
  steps.foldl after members

/-- Every change is allowed when its turn comes. -/
def AllAllowed (blocks : List BlockView) : (members : List BlockView) → List Step → Prop
  | _, [] => True
  | members, step :: rest =>
    step.Allowed blocks members ∧ AllAllowed blocks (step.after members) rest

end Step

/-- An allowed change can be made, and writes to no links but those of the blocks listed then. -/
theorem HasMembers.step (h : a.HasMembers blocks members) {step : Step}
    (hallowed : step.Allowed blocks members) :
    ∃ a', (step.apply a).outcome = .ok a' ∧ a'.HasMembers blocks (step.after members) ∧
      Changed a.region a'.region (InLinks ((step.after members).map block)) := by
  cases step with
  | push v => exact h.push hallowed.1 hallowed.2
  | unlink v => exact h.unlink hallowed

/-- So can any number of them in a row. -/
theorem HasMembers.run {steps : List Step} (h : a.HasMembers blocks members)
    (hallowed : Step.AllAllowed blocks members steps) :
    ∃ a', (Step.run a steps).outcome = .ok a' ∧
      a'.HasMembers blocks (Step.afterAll members steps) := by
  induction steps generalizing a members with
  | nil => exact ⟨a, rfl, h⟩
  | cons step rest ih =>
    obtain ⟨hfirst, hrest⟩ := hallowed
    obtain ⟨m, hm, hhas, -⟩ := h.step hfirst
    obtain ⟨a', ha', hlast⟩ := ih hhas hrest
    refine ⟨a', ?_, hlast⟩
    unfold Step.run
    rw [Traced.outcome_bind, bind_of_ok hm]
    exact ha'

/-! ## What the list is -/

/-- The arena's free list is the list of these blocks: so it says when it is asked, and so it
changes. -/
structure ListsMembers (a : Arena) (blocks members : List BlockView) : Prop where
  length : a.freeList.length = members.length
  /-- A walk along the list meets the members in order and comes to an end. -/
  lists : ∀ limit, a.listed limit = .ok (members.take limit)
  finds : ∀ least, a.firstFit? least =
    .ok ((members.find? fun v => decide (least ≤ v.size)).map block)
  /-- Every member leads to the one behind it, and back to the one before. -/
  links : ∀ front v back, members = front ++ v :: back →
    v.block.forwardLink a.region = .ok (back.head?.map block) ∧
      v.block.backLink a.region = .ok (front.getLast?.map block)
  /-- Allowed changes are made, and no bytes are written but in links of the blocks listed then. -/
  changes : ∀ step : Step, step.Allowed blocks members →
    ∃ a', (step.apply a).outcome = .ok a' ∧ a'.Listed ((step.after members).map block) ∧
      Changed a.region a'.region (InLinks ((step.after members).map block))
  /-- A block fails to leave exactly if it is no member. -/
  unlink_fails_iff : ∀ v ∈ blocks,
    (∃ fault, (a.unlink v.block).outcome = .error fault) ↔ v ∉ members

/-- The one of the blocks that lies at this place. -/
def viewOf (blocks : List BlockView) (b : Block) : BlockView :=
  (blocks.find? (·.block = b)).getD ⟨b.offset, 0, false⟩

/-- It is the block whose place it is. -/
theorem viewOf_block {r : Region} (h : r.DisjointFree blocks) (hv : v ∈ blocks) :
    viewOf blocks v.block = v := by
  unfold viewOf
  cases hfind : blocks.find? (·.block = v.block) with
  | none =>
    have hnone := List.find?_eq_none.mp hfind v hv
    simp at hnone
  | some u =>
    have hplace : u.block = v.block := by simpa using List.find?_some hfind
    exact h.block_inj (List.mem_of_find?_eq_some hfind) hv hplace

/-- A walk along the list lists the members. -/
theorem HasMembers.listed_eq (h : a.HasMembers blocks members) (limit : Nat) :
    a.listed limit = .ok (members.take limit) := by
  have hview : ∀ b ∈ members.map block, b.view a.region = .ok (viewOf blocks b) := by
    intro b hb
    obtain ⟨v, hv, rfl⟩ := List.mem_map.mp hb
    rw [viewOf_block h.disjointFree (h.subset v hv),
      Block.view_eq (h.disjointFree.tagged v (h.subset v hv))]
    rfl
  have hmembers : (members.map block).map (viewOf blocks) = members := by
    rw [List.map_map]
    exact (List.map_congr_left fun v hv => viewOf_block h.disjointFree (h.subset v hv)).trans
      (List.map_id members)
  rw [listed_listed h.listed h.spaced _ hview, hmembers]

/-- First fit finds the first member that is long enough. -/
theorem HasMembers.firstFit?_eq (h : a.HasMembers blocks members) (least : Nat) :
    a.firstFit? least = .ok ((members.find? fun v => decide (least ≤ v.size)).map block) := by
  have hsize : ∀ b ∈ members.map block, b.size a.region = .ok (viewOf blocks b).size := by
    intro b hb
    obtain ⟨v, hv, rfl⟩ := List.mem_map.mp hb
    rw [viewOf_block h.disjointFree (h.subset v hv)]
    exact Block.size_eq (h.disjointFree.tagged v (h.subset v hv))
  have hlen := h.spaced.length_le
  rw [firstFit?_listed h.listed h.spaced (fun b => (viewOf blocks b).size) hsize hlen,
    List.find?_map]
  congr 2
  refine List.find?_congr ?_
  intro v hv
  simp [viewOf_block h.disjointFree (h.subset v hv)]

/-- **A list with these members** says so when it is asked, and changes so. -/
theorem HasMembers.listsMembers (h : a.HasMembers blocks members) :
    a.ListsMembers blocks members where
  length := h.listed.length.trans (List.length_map _)
  lists := h.listed_eq
  finds := h.firstFit?_eq
  links front v back hsplit := by
    have hspaced := h.spaced
    have hlisted := h.listed
    rw [hsplit, List.map_append, List.map_cons] at hspaced hlisted
    rw [← List.head?_map, ← List.getLast?_map]
    exact hlisted.links hspaced
  changes step hallowed := by
    obtain ⟨a', hok, hhas, hchanged⟩ := h.step hallowed
    exact ⟨a', hok, hhas.listed, hchanged⟩
  unlink_fails_iff v hv := by
    constructor
    · intro hfault hmember
      obtain ⟨fault, hfault⟩ := hfault
      obtain ⟨a', hok, -⟩ := h.unlink hmember
      cases hok.symm.trans hfault
    · intro hnot
      rcases h.unlink_nonmember hv hnot with hfault | hfault
      · exact ⟨_, hfault⟩
      · exact ⟨_, hfault⟩

/-- **The free list is the list of its members,** after any allowed run of joining and leaving that
begins without members, and what is not on it cannot leave it. -/
theorem run_lists_members {r : Region} {steps : List Step} (hr : r.DisjointFree blocks)
    (hlinks : r.ZeroLinks blocks) (hallowed : Step.AllAllowed blocks [] steps) :
    ∃ a, (Step.run ⟨r, .empty⟩ steps).outcome = .ok a ∧
      a.ListsMembers blocks (Step.afterAll [] steps) := by
  obtain ⟨a, hok, hhas⟩ := (HasMembers.empty hr hlinks).run hallowed
  exact ⟨a, hok, hhas.listsMembers⟩

/-- Three blocks that join one after the other, for instance; the second one leaves and joins
again, and the first one leaves. -/
theorem run_lists_members_three :
    let x : BlockView := ⟨16, 40, false⟩
    let y : BlockView := ⟨56, 32, false⟩
    let z : BlockView := ⟨88, 64, false⟩
    let r := (((Region.empty.grow 144).put 8 (Region.digit 40) 8).put 48
      (Region.digit 32) 8).put 80 (Region.digit 64) 8
    let steps : List Step := [.push x, .push y, .push z, .unlink y, .push y, .unlink x]
    r.DisjointFree [x, y, z] ∧ r.ZeroLinks [x, y, z] ∧ Step.AllAllowed [x, y, z] [] steps ∧
      ∃ a, (Step.run ⟨r, .empty⟩ steps).outcome = .ok a ∧ a.ListsMembers [x, y, z] [y, z] := by
  intro x y z r steps
  have hr : r.DisjointFree [x, y, z] := by
    have hsize : r.size = 144 := by
      simp only [r, Region.size_put, Region.size_grow]
      rfl
    refine ⟨by decide, by decide, ?_, by decide, by decide +kernel, ?_⟩
    · rw [hsize]
      decide
    · rw [hsize]
      exact Word.lt_limit (by decide)
  have hlinks : r.ZeroLinks [x, y, z] := by
    unfold Region.ZeroLinks
    decide +kernel
  have hallowed : Step.AllAllowed [x, y, z] [] steps := by
    simp [steps, Step.AllAllowed, Step.Allowed, Step.after, x, y, z]
  exact ⟨hr, hlinks, hallowed, run_lists_members hr hlinks hallowed⟩

end Arena

end BoundaryTag
