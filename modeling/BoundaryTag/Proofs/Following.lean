import BoundaryTag.Proofs.Upkeep
import Mathlib.Data.List.Nodup

/-!
# Following the free list

A check follows the free list with the free blocks in its hands that it has not met yet. Wherever
that walk ends, it has gone through members that are distinct free blocks, each with the links that
lead to the next one and back; and whatever members are so, the walk goes through them.

> `judgeMember_ok_iff`: what a member has to be to pass.
>
> `WalksThrough.soundList_eq`, `exists_walksThrough`: the walk goes through all the members that it
> can go through, and ends at one that does not pass or behind the last one.
>
> `soundList_ok_iff`: it accepts a list that ends.
-/

namespace BoundaryTag

namespace Block

variable {r : Region} {b : Block} {link : Option Block}

theorem offset_injective : Function.Injective offset := fun _ _ => Block.ext

/-- A link word stands for what it was made from. -/
theorem linkWord_ofLinkWord (w : Nat) : linkWord (ofLinkWord w) = w := by
  unfold ofLinkWord
  split
  · next hzero => exact hzero.symm
  · rfl

theorem word_of_forwardLink (h : b.forwardLink r = .ok link) : r.word b.offset = linkWord link := by
  obtain ⟨w, hread, hlink⟩ := bind_ok_iff.mp h
  obtain ⟨-, -, rfl⟩ := Region.readWord_ok_iff.mp hread
  rw [← Except.ok.inj hlink, linkWord_ofLinkWord]

theorem word_of_backLink (h : b.backLink r = .ok link) : r.word (b.offset + 8) = linkWord link := by
  obtain ⟨start, hstart, h⟩ := bind_ok_iff.mp h
  obtain ⟨-, rfl⟩ := Word.add_ok_iff.mp hstart
  obtain ⟨w, hread, hlink⟩ := bind_ok_iff.mp h
  obtain ⟨-, -, rfl⟩ := Region.readWord_ok_iff.mp hread
  rw [← Except.ok.inj hlink, linkWord_ofLinkWord]

/-- A link is read exactly if its word is there. -/
theorem forwardLink_ok_iff (hb : b.offset + 16 ≤ r.size) (hr : r.size < Word.limit)
    (hl : ∀ c ∈ link, c.offset ≠ 0) :
    b.forwardLink r = .ok link ↔ r.word b.offset = linkWord link := by
  refine ⟨word_of_forwardLink, fun hw => ?_⟩
  rw [forwardLink_word hb hr, hw, ofLinkWord_linkWord hl]

theorem backLink_ok_iff (hb : b.offset + 16 ≤ r.size) (hr : r.size < Word.limit)
    (hl : ∀ c ∈ link, c.offset ≠ 0) :
    b.backLink r = .ok link ↔ r.word (b.offset + 8) = linkWord link := by
  refine ⟨word_of_backLink, fun hw => ?_⟩
  rw [backLink_word hb hr, hw, ofLinkWord_linkWord hl]

end Block

/-- The links along a list are in order if those of each member are. -/
theorem linked_of_links {r : Region} {prev : Option Block} {members : List Block}
    (h : ∀ front b back, members = front ++ b :: back →
      r.word b.offset = Block.linkWord back.head? ∧
        r.word (b.offset + 8) = Block.linkWord (front.getLast?.or prev)) :
    Linked r prev members none := by
  induction members generalizing prev with
  | nil => trivial
  | cons b rest ih =>
    obtain ⟨hforward, hback⟩ := h [] b rest rfl
    refine ⟨by rw [Option.or_none]; exact hforward, hback, ih fun front c back hrest => ?_⟩
    obtain ⟨hforward, hback⟩ := h (b :: front) c back (by rw [hrest]; rfl)
    refine ⟨hforward, hback.trans ?_⟩
    cases hlast : front.getLast? <;> simp [List.getLast?_cons, hlast]

namespace Region

variable {r : Region} {low stop : Nat} {prev next current : Option Block} {b : Block}
  {unlisted listed found left : List Nat} {members rest : List Block}

/-! ## What a member has to be -/

/-- What is known while the list is followed: the free blocks that were not met yet lie
within the bounds, and none of them is among those that were met. -/
structure Pending (r : Region) (low stop : Nat) (unlisted listed : List Nat) : Prop where
  nodup : unlisted.Nodup
  fresh : ∀ n ∈ unlisted, n ∉ listed
  within : ∀ n ∈ unlisted, low + 16 ≤ n ∧ n + 16 ≤ stop
  free : ∀ n ∈ unlisted, (Tag.ofWord (r.word (n - 8))).allocated = false
  met : ∀ n ∈ listed, n ≠ 0

theorem Pending.cross {unlisted listed : List Nat} {n : Nat}
    (h : r.Pending low stop unlisted listed) (hn : n ∈ unlisted) :
    r.Pending low stop (unlisted.erase n) (n :: listed) where
  nodup := h.nodup.erase n
  fresh m hm := by
    obtain ⟨hne, hm⟩ := h.nodup.mem_erase_iff.mp hm
    exact List.not_mem_cons_of_ne_of_not_mem hne (h.fresh m hm)
  within m hm := h.within m (List.mem_of_mem_erase hm)
  free m hm := h.free m (List.mem_of_mem_erase hm)
  met := List.forall_mem_cons.mpr ⟨by have := (h.within n hn).1; omega, h.met⟩

/-- The walk starts with all free blocks still to be met. -/
theorem Laid.pending {first : Nat} {blocks : List BlockView} (h : r.Laid none first blocks) :
    r.Pending 0 r.size ((vacant blocks).map Block.offset) [] := by
  have hblock : ∀ n ∈ (vacant blocks).map Block.offset, 0 + 16 ≤ n ∧ n + 16 ≤ r.size ∧
      (Tag.ofWord (r.word (n - 8))).allocated = false := by
    intro n hn
    obtain ⟨b, hb, rfl⟩ := List.mem_map.mp hn
    obtain ⟨v, hv, hfree, rfl⟩ := mem_vacant.mp hb
    obtain ⟨h32, -, hvs, h8, -, hend⟩ := h.bounds hv
    refine ⟨show 0 + 16 ≤ v.offset by omega, show v.offset + 16 ≤ r.size by omega, ?_⟩
    exact (congrArg Tag.allocated ((h.framed v hv nofun).ofWord_header h8)).trans hfree
  refine ⟨List.Nodup.map Block.offset_injective h.tiling.vacant_nodup, fun _ _ => nofun, ?_, ?_,
    nofun⟩
  · exact fun n hn => ⟨(hblock n hn).1, (hblock n hn).2.1⟩
  · exact fun n hn => (hblock n hn).2.2

/-- A member passes if it was still to be met, and its back link names the one met last. -/
theorem judgeMember_ok_iff (hstop : stop ≤ r.size) (hr : r.size < Word.limit)
    (hlow : low + 16 < Word.limit) (hroom : 16 ≤ stop) (hp : r.Pending low stop unlisted listed) :
    r.judgeMember low stop unlisted listed b = .ok next ↔ b.offset ∈ unlisted ∧
      b.backLink r = .ok (listed.head?.map Block.mk) ∧ b.forwardLink r = .ok next := by
  have hvetted := judgeMember_vetted unlisted listed b hstop hr hlow hroom
  generalize r.judgeMember low stop unlisted listed b = judgement at hvetted ⊢
  constructor
  · intro h
    subst h
    cases hvetted with
    | sound within _ _ known back =>
      have hfits : b.offset + 16 ≤ r.size := Nat.le_trans within.2 hstop
      rw [Block.forwardLink_word hfits hr, Block.backLink_word hfits hr, ← back, Option.map_map]
      exact ⟨known, congrArg Except.ok Option.map_id'.symm, rfl⟩
  · intro h
    obtain ⟨hknown, hback, hforward⟩ := h
    have hwithin := hp.within _ hknown
    have hfits : b.offset + 16 ≤ r.size := Nat.le_trans hwithin.2 hstop
    rw [Block.backLink_word hfits hr, Except.ok.injEq] at hback
    rw [Block.forwardLink_word hfits hr, Except.ok.injEq] at hforward
    cases hvetted with
    | outside out => omega
    | twice _ met => exact absurd met (hp.fresh _ hknown)
    | allocated _ _ mark =>
      rw [hp.free _ hknown] at mark
      cases mark
    | stray _ _ _ unknown => exact absurd hknown unknown
    | broken _ _ _ _ back =>
      rw [hback, Option.map_map] at back
      exact absurd Option.map_id' back
    | sound => rw [hforward]

/-! ## How far the walk gets -/

/-- One step of the walk along the free list. -/
theorem soundList_eq (r : Region) (low stop : Nat) (unlisted listed : List Nat) (b : Block) :
    r.soundList low stop unlisted listed (some b) =
      r.judgeMember low stop unlisted listed b >>=
        r.soundList low stop (unlisted.erase b.offset) (b.offset :: listed) := by
  rw [soundList]
  split
  · next judged => rw [judged]; rfl
  · next judged => rw [bind_of_ok judged]

/-- The links along a stretch of the free list, as they are read: each member's forward link names
the one behind it, or `next` if it is the last, and its back link names the one before it. -/
def LinksRead (r : Region) : (prev : Option Block) → List Block → (next : Option Block) → Prop
  | _, [], _ => True
  | prev, b :: rest, next =>
    b.forwardLink r = .ok (rest.head?.or next) ∧ b.backLink r = .ok prev ∧
      r.LinksRead (some b) rest next

/-- The walk along the list can go through the members, up to `next`: they are distinct blocks among
those still to be met, and linked in a row behind the one that was met last. -/
structure WalksThrough (r : Region) (unlisted listed : List Nat) (members : List Block)
    (next : Option Block) : Prop where
  linksRead : r.LinksRead (listed.head?.map Block.mk) members next
  nodup : members.Nodup
  known : ∀ b ∈ members, b.offset ∈ unlisted

/-- The first member passes, and the walk can go through the others. -/
theorem walksThrough_cons_iff (hstop : stop ≤ r.size) (hr : r.size < Word.limit)
    (hlow : low + 16 < Word.limit) (hroom : 16 ≤ stop) (hp : r.Pending low stop unlisted listed) :
    r.WalksThrough unlisted listed (b :: rest) next ↔
      r.judgeMember low stop unlisted listed b = .ok (rest.head?.or next) ∧
        r.WalksThrough (unlisted.erase b.offset) (b.offset :: listed) rest next := by
  rw [judgeMember_ok_iff hstop hr hlow hroom hp]
  constructor
  · intro h
    obtain ⟨hforward, hback, hlinksRead⟩ := h.linksRead
    obtain ⟨hknown, hrest⟩ := List.forall_mem_cons.mp h.known
    obtain ⟨hfresh, hnodup⟩ := List.nodup_cons.mp h.nodup
    refine ⟨⟨hknown, hback, hforward⟩, hlinksRead, hnodup, fun c hc => ?_⟩
    have hne : c.offset ≠ b.offset := fun he => hfresh ((Block.ext he : c = b) ▸ hc)
    exact (List.mem_erase_of_ne hne).mpr (hrest c hc)
  · intro h
    obtain ⟨⟨hknown, hback, hforward⟩, hrest⟩ := h
    have hfresh : b ∉ rest := fun hb =>
      (hp.cross hknown).fresh _ (hrest.known b hb) (List.mem_cons_self ..)
    exact ⟨⟨hforward, hback, hrest.linksRead⟩, List.nodup_cons.mpr ⟨hfresh, hrest.nodup⟩,
      List.forall_mem_cons.mpr ⟨hknown, fun c hc => List.mem_of_mem_erase (hrest.known c hc)⟩⟩

/-- **The walk goes through the members** and on from there, with all of them crossed off. -/
theorem WalksThrough.soundList_eq (hstop : stop ≤ r.size) (hr : r.size < Word.limit)
    (hlow : low + 16 < Word.limit) (hroom : 16 ≤ stop) (hp : r.Pending low stop unlisted listed)
    (hc : r.WalksThrough unlisted listed members next) :
    r.soundList low stop unlisted listed (members.head?.or next) =
      r.soundList low stop (unlisted.diff (members.map Block.offset))
        ((members.map Block.offset).reverse ++ listed) next := by
  induction members generalizing unlisted listed with
  | nil => rfl
  | cons b rest ih =>
    obtain ⟨hjudge, hrest⟩ := (walksThrough_cons_iff hstop hr hlow hroom hp).mp hc
    have hknown := hc.known b (List.mem_cons_self ..)
    rw [List.head?_cons, Option.some_or, Region.soundList_eq, bind_of_ok hjudge,
      ih (hp.cross hknown) hrest, List.map_cons, List.diff_cons, List.reverse_cons,
      List.append_assoc]
    rfl

/-- **The walk along the list** goes through some members, to the end of the list or to a member
that does not pass. -/
theorem exists_walksThrough (hstop : stop ≤ r.size) (hr : r.size < Word.limit)
    (hlow : low + 16 < Word.limit) (hroom : 16 ≤ stop) (hp : r.Pending low stop unlisted listed)
    (current : Option Block) :
    ∃ members next, current = members.head?.or next ∧ r.WalksThrough unlisted listed members next ∧
      ∀ b ∈ next, ∃ e, r.judgeMember low stop (unlisted.diff (members.map Block.offset))
        ((members.map Block.offset).reverse ++ listed) b = .error e := by
  fun_induction soundList r low stop unlisted listed current with
  | case1 unlisted listed =>
    exact ⟨[], none, rfl, ⟨trivial, .nil, fun _ hb => absurd hb List.not_mem_nil⟩,
      fun _ hb => absurd hb (Option.not_mem_none _)⟩
  | case2 unlisted listed b e judged =>
    refine ⟨[], some b, rfl, ⟨trivial, .nil, fun _ hb => absurd hb List.not_mem_nil⟩, ?_⟩
    intro c hc
    cases hc
    exact ⟨e, judged⟩
  | case3 unlisted listed b next judged _ ih =>
    have hknown := ((judgeMember_ok_iff hstop hr hlow hroom hp).mp judged).1
    obtain ⟨rest, last, rfl, hrest, hfails⟩ := ih (hp.cross hknown)
    refine ⟨b :: rest, last, rfl,
      (walksThrough_cons_iff hstop hr hlow hroom hp).mpr ⟨judged, hrest⟩, ?_⟩
    intro c hc
    rw [List.map_cons, List.diff_cons, List.reverse_cons, List.append_assoc]
    exact hfails c hc

/-! ## A walk that comes to the end -/

/-- The members can be crossed off in a row: they are distinct blocks among those still to be
met, each linked to the one before and the last one to nothing. -/
structure Crossing (r : Region) (unlisted listed : List Nat) (members : List Block) : Prop where
  linked : Linked r (listed.head?.map Block.mk) members none
  nodup : members.Nodup
  known : ∀ b ∈ members, b.offset ∈ unlisted

/-- The links can be read exactly if the link words are there. -/
theorem linksRead_iff_linked (hr : r.size < Word.limit) (hprev : ∀ c ∈ prev, c.offset ≠ 0)
    (hin : ∀ b ∈ members, b.offset ≠ 0 ∧ b.offset + 16 ≤ r.size) :
    r.LinksRead prev members none ↔ Linked r prev members none := by
  induction members generalizing prev with
  | nil => exact Iff.rfl
  | cons b rest ih =>
    obtain ⟨hb, hrest⟩ := List.forall_mem_cons.mp hin
    have hnext : ∀ c ∈ rest.head?.or none, c.offset ≠ 0 := by
      intro c hc
      rw [Option.or_none] at hc
      exact (hrest c (List.mem_of_mem_head? hc)).1
    refine and_congr (Block.forwardLink_ok_iff hb.2 hr hnext)
      (and_congr (Block.backLink_ok_iff hb.2 hr hprev) (ih ?_ hrest))
    intro c hc
    cases hc
    exact hb.1

/-- To be crossed off is to be gone through to the end. -/
theorem crossing_iff_walksThrough (hstop : stop ≤ r.size) (hr : r.size < Word.limit)
    (hp : r.Pending low stop unlisted listed) :
    r.Crossing unlisted listed members ↔ r.WalksThrough unlisted listed members none := by
  have hprev : ∀ c ∈ listed.head?.map Block.mk, c.offset ≠ 0 := by
    intro c hc
    obtain ⟨n, hn, rfl⟩ := Option.map_eq_some_iff.mp hc
    exact hp.met n (List.mem_of_mem_head? hn)
  have hlinks : (∀ b ∈ members, b.offset ∈ unlisted) → (r.LinksRead (listed.head?.map Block.mk)
      members none ↔ Linked r (listed.head?.map Block.mk) members none) := by
    refine fun hknown => linksRead_iff_linked hr hprev fun b hb => ?_
    have := hp.within _ (hknown b hb)
    omega
  constructor
  · intro h
    exact ⟨(hlinks h.known).mpr h.linked, h.nodup, h.known⟩
  · intro h
    exact ⟨(hlinks h.known).mp h.linksRead, h.nodup, h.known⟩

/-- **The walk along the list** crosses off all members, and nothing else. -/
theorem soundList_ok_iff (hstop : stop ≤ r.size) (hr : r.size < Word.limit)
    (hlow : low + 16 < Word.limit) (hroom : 16 ≤ stop) (hp : r.Pending low stop unlisted listed) :
    r.soundList low stop unlisted listed current = .ok (found, left) ↔
      ∃ members : List Block, current = members.head? ∧ r.Crossing unlisted listed members ∧
        found = (members.map Block.offset).reverse ++ listed ∧
        left = unlisted.diff (members.map Block.offset) := by
  constructor
  · intro h
    obtain ⟨members, next, rfl, hwalks, hstops⟩ :=
      exists_walksThrough hstop hr hlow hroom hp current
    rw [hwalks.soundList_eq hstop hr hlow hroom hp] at h
    cases next with
    | some b =>
      obtain ⟨e, hjudge⟩ := hstops b rfl
      rw [soundList_eq, hjudge] at h
      cases h
    | none =>
      rw [soundList] at h
      cases h
      exact ⟨members, Option.or_none, (crossing_iff_walksThrough hstop hr hp).mpr hwalks, rfl, rfl⟩
  · intro h
    obtain ⟨members, rfl, hcrossing, rfl, rfl⟩ := h
    have hwalks := (crossing_iff_walksThrough hstop hr hp).mp hcrossing
    rw [← Option.or_none (o := members.head?), hwalks.soundList_eq hstop hr hlow hroom hp,
      soundList]

end Region

end BoundaryTag
