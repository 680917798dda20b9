import BoundaryTag.Arena.FreeList
import BoundaryTag.Proofs.Tiling

/-!
# The free list as a list

The links of the free list lie in the free blocks themselves. `Linked` reads
them: each member's forward link names the member after it, its back link the
one before. It is stated of a stretch of the list, with what lies before and
after the stretch as parameters, so that taking a member out or putting one in
comes down to readdressing one end of each stretch beside it.

> `unlink_listed`: a member comes out of the middle of the list.
>
> `push_listed`: a block that is no member goes to the front.
>
> `firstFit?_listed`, `listed_listed`: the walks along the list see its members,
> in order, and come to an end.

Both changes touch no more than link words of members, and where the members lie at
whole words they set no lowest bit anywhere (`Relinked`). The links of a block that
comes out stay as they are.
-/

namespace BoundaryTag

open Block (linkWord ofLinkWord)

/-- The links along a stretch of a free list that comes after `prev` and before `next`. -/
def Linked (r : Region) : (prev : Option Block) → List Block → (next : Option Block) → Prop
  | _, [], _ => True
  | prev, b :: rest, next =>
    r.word b.offset = linkWord (rest.head?.or next) ∧
      r.word (b.offset + 8) = linkWord prev ∧ Linked r (some b) rest next

theorem linked_append {r : Region} {prev next : Option Block} {front back : List Block} :
    Linked r prev (front ++ back) next ↔
      Linked r prev front (back.head?.or next) ∧
        Linked r (front.getLast?.or prev) back next := by
  induction front generalizing prev with
  | nil => simp [Linked]
  | cons b rest ih =>
    have hhead : (rest ++ back).head?.or next = rest.head?.or (back.head?.or next) := by
      cases rest <;> simp
    have hlast : (b :: rest).getLast?.or prev = rest.getLast?.or (some b) := by
      cases h : rest.getLast? <;> simp [List.getLast?_cons, h]
    simp only [List.cons_append, Linked, hhead, hlast, ih, and_assoc]

namespace Linked

variable {r s : Region} {prev next : Option Block} {members : List Block}

/-- The links can be read off the link words alone. -/
theorem congr (h : Linked r prev members next)
    (hf : ∀ b ∈ members, s.word b.offset = r.word b.offset)
    (hb : ∀ b ∈ members, s.word (b.offset + 8) = r.word (b.offset + 8)) :
    Linked s prev members next := by
  induction members generalizing prev with
  | nil => trivial
  | cons b rest ih =>
    obtain ⟨h₁, h₂, h₃⟩ := h
    have hb' := List.forall_mem_cons.mp hb
    have hf' := List.forall_mem_cons.mp hf
    exact ⟨hf'.1.trans h₁, hb'.1.trans h₂, ih h₃ hf'.2 hb'.2⟩

/-- Only the first back link of a stretch says what comes before it. -/
theorem readdress_first {prev' : Option Block} (h : Linked r prev members next)
    (hf : ∀ b ∈ members, s.word b.offset = r.word b.offset)
    (hb : ∀ b ∈ members.tail, s.word (b.offset + 8) = r.word (b.offset + 8))
    (hp : ∀ b ∈ members.head?, s.word (b.offset + 8) = linkWord prev') :
    Linked s prev' members next := by
  cases members with
  | nil => trivial
  | cons b rest =>
    obtain ⟨h₁, -, h₃⟩ := h
    have hf' := List.forall_mem_cons.mp hf
    exact ⟨hf'.1.trans h₁, hp b rfl, h₃.congr hf'.2 hb⟩

/-- Only the last forward link of a stretch says what comes after it. -/
theorem readdress_last {next' : Option Block} (h : Linked r prev members next)
    (hf : ∀ b ∈ members.dropLast, s.word b.offset = r.word b.offset)
    (hb : ∀ b ∈ members, s.word (b.offset + 8) = r.word (b.offset + 8))
    (hn : ∀ b ∈ members.getLast?, s.word b.offset = linkWord next') :
    Linked s prev members next' := by
  rcases List.eq_nil_or_concat members with rfl | ⟨front, p, rfl⟩
  · trivial
  · simp only [List.concat_eq_append, List.dropLast_concat, List.getLast?_concat] at *
    obtain ⟨h₁, -, h₂, -⟩ := linked_append.mp h
    refine linked_append.mpr ⟨h₁.congr hf fun b hm => hb b (by simp [hm]), ?_, ?_, trivial⟩
    · exact hn p rfl
    · exact (hb p (by simp)).trans h₂

end Linked

/-! ## Room for links -/

/-- There is room for the links of every member, and none lie over another's. -/
structure Spaced (r : Region) (members : List Block) : Prop where
  nodup : members.Nodup
  apart : ∀ b ∈ members, ∀ c ∈ members, b ≠ c →
    b.offset + 16 ≤ c.offset ∨ c.offset + 16 ≤ b.offset
  bounds : ∀ b ∈ members, 8 ≤ b.offset ∧ b.offset + 16 ≤ r.size
  small : r.size < Word.limit

/-- There is such room, and the members lie at whole words, as blocks of a heap do. -/
structure Scattered (r : Region) (members : List Block) : Prop extends Spaced r members where
  aligned : ∀ b ∈ members, b.offset % 8 = 0

namespace Spaced

variable {r s : Region} {members : List Block} {b : Block} {link : Option Block}

theorem of_size_eq (h : Spaced r members) (hs : s.size = r.size) : Spaced s members :=
  ⟨h.nodup, h.apart, fun b hb => hs ▸ h.bounds b hb, hs ▸ h.small⟩

theorem sublist {fewer : List Block} (h : Spaced r members) (hf : fewer.Sublist members) :
    Spaced r fewer :=
  ⟨h.nodup.sublist hf, fun b hb c hc => h.apart b (hf.subset hb) c (hf.subset hc),
    fun b hb => h.bounds b (hf.subset hb), h.small⟩

/-- A link that is stored lies apart from the links of the other members. -/
theorem spared {p : Block} {start value : Nat} (h : Spaced r members)
    (hst : r.Stored s start value) (hp : p ∈ members)
    (hstart : start = p.offset ∨ start = p.offset + 8) :
    ∀ c ∈ members, c ≠ p →
      s.word c.offset = r.word c.offset ∧ s.word (c.offset + 8) = r.word (c.offset + 8) := by
  intro c hc hne
  have hapart := h.apart c hc p hp hne
  exact ⟨hst.word_of_disjoint (by omega), hst.word_of_disjoint (by omega)⟩

/-- A link to a member is a word. -/
theorem linkWord_lt (h : Spaced r members) (hl : ∀ c ∈ link, c ∈ members) :
    linkWord link < Word.limit := by
  have hr := h.small
  cases link with
  | none => exact Nat.lt_of_le_of_lt (Nat.zero_le _) hr
  | some c =>
    have := (h.bounds c (hl c rfl)).2
    show c.offset < Word.limit
    omega

/-- A link to a member can be told from none. -/
theorem ofLinkWord_linkWord (h : Spaced r members) (hl : ∀ c ∈ link, c ∈ members) :
    ofLinkWord (linkWord link) = link := by
  apply Block.ofLinkWord_linkWord
  intro c hc
  have := (h.bounds c (hl c hc)).1
  omega

end Spaced

/-- The byte lies in a link word of a member. -/
def InLinks (members : List Block) (j : Nat) : Prop :=
  ∃ b ∈ members, b.offset ≤ j ∧ j < b.offset + 16

/-- Nothing but link words of members changed, and if these lie at whole words, no word
came to look like the tag of an allocated block. -/
structure Relinked (r s : Region) (members : List Block) : Prop where
  changed : Region.Changed r s (InLinks members)
  marked : (∀ b ∈ members, b.offset % 8 = 0) → ∀ p, s.Marked p → r.Marked p

namespace Relinked

variable {r s t : Region} {members : List Block} {b : Block}

theorem refl (r : Region) (members : List Block) : Relinked r r members :=
  ⟨.refl r _, fun _ _ h => h⟩

theorem trans (h₁ : Relinked r s members) (h₂ : Relinked s t members) : Relinked r t members :=
  ⟨h₁.changed.trans h₂.changed, fun ha p hp => h₁.marked ha p (h₂.marked ha p hp)⟩

theorem mono {more : List Block} (h : Relinked r s members) (hm : ∀ c ∈ members, c ∈ more) :
    Relinked r s more := by
  refine ⟨h.changed.mono ?_, fun ha => h.marked fun c hc => ha c (hm c hc)⟩
  rintro j ⟨c, hc, hj⟩
  exact ⟨c, hm c hc, hj⟩

/-- Storing a link to a member in a member changes no more than links. -/
theorem of_stored {start : Nat} {link : Option Block}
    (h : Region.Stored r s start (linkWord link)) (hb : b ∈ members)
    (hs : start = b.offset ∨ start = b.offset + 8) (hl : ∀ c ∈ link, c ∈ members) :
    Relinked r s members := by
  refine ⟨h.changed fun j h₁ h₂ => ⟨b, hb, by omega, by omega⟩, fun ha p hp => ?_⟩
  have h8 := ha b hb
  have heven : linkWord link % 2 = 0 := by
    cases link with
    | none => rfl
    | some c =>
      have := ha c (hl c rfl)
      show c.offset % 2 = 0
      omega
  exact h.marked_of_even (by omega) heven hp

/-- The links of a block that lies apart from the members are as they were. -/
theorem spared (h : Relinked r s members)
    (hapart : ∀ c ∈ members, b.offset + 16 ≤ c.offset ∨ c.offset + 16 ≤ b.offset) :
    s.word b.offset = r.word b.offset ∧ s.word (b.offset + 8) = r.word (b.offset + 8) := by
  have hout : ∀ j, b.offset ≤ j → j < b.offset + 16 → ¬ InLinks members j := by
    rintro j h₁ h₂ ⟨c, hc, hlow, hhigh⟩
    have := hapart c hc
    omega
  constructor
  · exact h.changed.word_eq fun j h₁ h₂ => hout j h₁ (by omega)
  · exact h.changed.word_eq fun j h₁ h₂ => hout j (by omega) (by omega)

end Relinked

namespace Block

variable {r : Region} {b : Block}

/-- The links are read off the two words that a block starts with. -/
theorem forwardLink_word (hb : b.offset + 16 ≤ r.size) (hr : r.size < Word.limit) :
    b.forwardLink r = .ok (ofLinkWord (r.word b.offset)) :=
  bind_ok_iff.mpr ⟨_, Region.readWord_ok_iff.mpr ⟨by omega, by omega, rfl⟩, rfl⟩

theorem backLink_word (hb : b.offset + 16 ≤ r.size) (hr : r.size < Word.limit) :
    b.backLink r = .ok (ofLinkWord (r.word (b.offset + 8))) := by
  refine bind_ok_iff.mpr ⟨b.offset + 8, Word.add_ok (show b.offset + 8 < _ by omega), ?_⟩
  exact bind_ok_iff.mpr ⟨_, Region.readWord_ok_iff.mpr ⟨by omega, by omega, rfl⟩, rfl⟩

end Block

namespace Spaced

variable {r : Region} {members : List Block} {b : Block} {link : Option Block}

theorem forwardLink_eq (h : Spaced r members) (hb : b ∈ members) (hl : ∀ c ∈ link, c ∈ members)
    (hw : r.word b.offset = linkWord link) : b.forwardLink r = .ok link := by
  rw [Block.forwardLink_word (h.bounds b hb).2 h.small, hw, h.ofLinkWord_linkWord hl]

theorem backLink_eq (h : Spaced r members) (hb : b ∈ members) (hl : ∀ c ∈ link, c ∈ members)
    (hw : r.word (b.offset + 8) = linkWord link) : b.backLink r = .ok link := by
  rw [Block.backLink_word (h.bounds b hb).2 h.small, hw, h.ofLinkWord_linkWord hl]

theorem exists_setForwardLink (h : Spaced r members) (hb : b ∈ members)
    (hl : ∀ c ∈ link, c ∈ members) :
    ∃ s, b.setForwardLink r link = .ok s ∧ Region.Stored r s b.offset (linkWord link) := by
  have hroom := (h.bounds b hb).2
  exact Region.exists_stored (by omega) h.small (h.linkWord_lt hl)

theorem exists_setBackLink (h : Spaced r members) (hb : b ∈ members)
    (hl : ∀ c ∈ link, c ∈ members) :
    ∃ s, b.setBackLink r link = .ok s ∧ Region.Stored r s (b.offset + 8) (linkWord link) := by
  have hroom := (h.bounds b hb).2
  have hsmall := h.small
  have hin : b.offset + 8 + 8 ≤ r.size := by omega
  obtain ⟨s, hs, hst⟩ := Region.exists_stored hin hsmall (h.linkWord_lt hl)
  exact ⟨s, bind_ok_iff.mpr ⟨_, Word.add_ok (show b.offset + 8 < _ by omega), hs⟩, hst⟩

end Spaced

/-- The first member of a stretch that ends the list leads to the second one. -/
theorem Linked.forwardLink_head {r : Region} {prev : Option Block} {b : Block} {rest : List Block}
    (h : Linked r prev (b :: rest) none) (hs : Spaced r (b :: rest)) :
    b.forwardLink r = .ok rest.head? := by
  refine hs.forwardLink_eq (List.mem_cons_self ..) (fun c hc => ?_) ?_
  · exact List.mem_cons_of_mem b (List.mem_of_mem_head? hc)
  · rw [h.1, Option.or_none]

/-! ## Changes to the list -/

namespace Arena

/-- The free list has these members, in this order. -/
structure Listed (a : Arena) (members : List Block) : Prop where
  head : a.freeList.head = members.head?
  length : a.freeList.length = members.length
  linked : Linked a.region none members none

variable {a : Arena} {b : Block} {front back members : List Block}

/-- The way forward is led past `b`; nothing behind `b` is touched. -/
theorem relinkForward_linked {next : Option Block}
    (hh : a.freeList.head = (front ++ b :: back).head?)
    (hl : Linked a.region none front (some b)) (hs : Spaced a.region (front ++ b :: back))
    (hn : ∀ c ∈ next, c ∈ back) :
    ∃ m, a.relinkForward b front.getLast? next = .ok m ∧
      m.freeList.head = front.head?.or next ∧ m.freeList.length = a.freeList.length ∧
      Linked m.region none front next ∧ Relinked a.region m.region (front ++ back) ∧
      ∀ c ∈ back, m.region.word c.offset = a.region.word c.offset ∧
        m.region.word (c.offset + 8) = a.region.word (c.offset + 8) := by
  rcases List.eq_nil_or_concat front with rfl | ⟨front, p, rfl⟩
  · -- `b` is the first member, so the list itself leads to it
    refine ⟨{ a with freeList.head := next }, if_pos hh, rfl, rfl, trivial, .refl .., ?_⟩
    exact fun c _ => ⟨rfl, rfl⟩
  · simp only [List.concat_eq_append] at *
    have hp : p ∈ front ++ [p] ++ b :: back := by simp
    have hforward : p.forwardLink a.region = .ok (some b) := by
      refine hs.forwardLink_eq hp (fun c hc => ?_) (linked_append.mp hl).2.1
      cases hc
      simp
    -- the predecessor `p` is the one member that is written to
    obtain ⟨r, hset, hr⟩ := hs.exists_setForwardLink hp fun c hc => by simp [hn c hc]
    have hother := hs.spared hr hp (.inl rfl)
    have hnodup := hs.nodup
    simp only [List.append_assoc, List.nodup_append, List.cons_append, List.nil_append,
      List.nodup_cons, List.mem_cons] at hnodup
    refine ⟨{ a with region := r }, ?_, ?_, rfl, ?_, ?_, ?_⟩
    · unfold relinkForward
      simp only [List.getLast?_concat]
      refine bind_ok_iff.mpr ⟨_, hforward, ?_⟩
      rw [if_pos rfl]
      exact bind_ok_iff.mpr ⟨r, hset, rfl⟩
    · rw [hh]
      cases front <;> rfl
    · refine hl.readdress_last ?_ ?_ ?_
      · intro c hc
        rw [List.dropLast_concat] at hc
        refine (hother c (by simp [hc]) fun he => ?_).1
        exact hnodup.2.2 c hc p (.inl rfl) he
      · intro c hc
        by_cases he : c = p
        · subst he
          exact hr.word_of_disjoint (by omega)
        · exact (hother c (by simp at hc ⊢; tauto) he).2
      · intro c hc
        rw [List.getLast?_concat] at hc
        cases hc
        exact hr.word_eq
    · refine .of_stored (b := p) hr ?_ (.inl rfl) fun c hc => ?_
      · simp
      · simp [hn c hc]
    · intro c hc
      apply hother c (by simp [hc])
      intro he
      exact hnodup.2.1.1 (.inr (he ▸ hc))

/-- The way back to `front` is led past `b`; nothing before `b` is touched. -/
theorem relinkBack_linked (hl : Linked a.region (some b) back none)
    (hs : Spaced a.region (front ++ b :: back)) :
    ∃ m, a.relinkBack front.getLast? back.head? = .ok m ∧ m.freeList = a.freeList ∧
      Linked m.region (front.getLast?.or none) back none ∧
      Relinked a.region m.region (front ++ back) ∧
      ∀ c ∈ front, m.region.word c.offset = a.region.word c.offset ∧
        m.region.word (c.offset + 8) = a.region.word (c.offset + 8) := by
  cases back with
  | nil => exact ⟨a, rfl, rfl, trivial, .refl .., fun c _ => ⟨rfl, rfl⟩⟩
  | cons n back =>
    have hn : n ∈ front ++ b :: n :: back := by simp
    have hprev : ∀ c ∈ front.getLast?, c ∈ front := fun c hc => List.mem_of_mem_getLast? hc
    -- only the successor `n` is written to
    obtain ⟨r, hset, hr⟩ := hs.exists_setBackLink hn fun c hc => by simp [hprev c hc]
    have hother := hs.spared hr hn (.inr rfl)
    have hnodup := hs.nodup
    simp only [List.nodup_append, List.nodup_cons, List.mem_cons] at hnodup
    refine ⟨{ a with region := r }, bind_ok_iff.mpr ⟨r, hset, rfl⟩, rfl, ?_, ?_, ?_⟩
    · rw [Option.or_none]
      refine hl.readdress_first ?_ ?_ ?_
      · intro c hc
        by_cases he : c = n
        · subst he
          exact hr.word_of_disjoint (by omega)
        · exact (hother c (by simp at hc ⊢; tauto) he).1
      · intro c hc
        refine (hother c (by simp at hc ⊢; tauto) fun he => ?_).2
        exact hnodup.2.1.2.1 (he ▸ hc)
      · intro c hc
        cases hc
        exact hr.word_eq
    · refine .of_stored (b := n) hr ?_ (.inr rfl) fun c hc => ?_
      · simp
      · simp [hprev c hc]
    · intro c hc
      apply hother c (by simp [hc])
      intro he
      exact hnodup.2.2 c hc n (.inr (.inl rfl)) he

/-- The links of a member are read as the list has them. -/
theorem Listed.links (h : a.Listed (front ++ b :: back))
    (hs : Spaced a.region (front ++ b :: back)) :
    b.forwardLink a.region = .ok back.head? ∧ b.backLink a.region = .ok front.getLast? := by
  obtain ⟨-, hforward, hbackward, -⟩ := linked_append.mp h.linked
  rw [Option.or_none] at hforward hbackward
  have hb : b ∈ front ++ b :: back := by simp
  constructor
  · refine hs.forwardLink_eq hb (fun c hc => ?_) hforward
    simp [List.mem_of_mem_head? hc]
  · refine hs.backLink_eq hb (fun c hc => ?_) hbackward
    simp [List.mem_of_mem_getLast? hc]

/-- **A member comes out of the list, wherever in it it is.** Its own links stay as they are. -/
theorem unlink_listed (h : a.Listed (front ++ b :: back))
    (hs : Spaced a.region (front ++ b :: back)) (hb : b.allocated a.region = .ok false) :
    ∃ a', (a.unlink b).outcome = .ok a' ∧ a'.Listed (front ++ back) ∧
      Relinked a.region a'.region (front ++ back) := by
  obtain ⟨hfront, -, -, hback⟩ := linked_append.mp h.linked
  obtain ⟨hforward, hbackward⟩ := h.links hs
  obtain ⟨m, hm, hmhead, hmlen, hmfront, hmr, hmback⟩ :=
    relinkForward_linked h.head hfront hs fun c hc => List.mem_of_mem_head? hc
  have hmsize := hmr.changed.size_eq
  have hmlinked : Linked m.region (some b) back none :=
    hback.congr (fun c hc => (hmback c hc).1) fun c hc => (hmback c hc).2
  obtain ⟨s, hsm, hslist, hsback, hsr, hsfront⟩ :=
    relinkBack_linked hmlinked (hs.of_size_eq hmsize)
  have hlen : s.freeList.length = (front ++ back).length + 1 := by
    rw [hslist, hmlen, h.length]
    simp only [List.length_append, List.length_cons]
    omega
  refine ⟨{ s with freeList.length := (front ++ back).length }, ?_, ⟨?_, rfl, ?_⟩, hmr.trans hsr⟩
  · unfold unlink
    simp only [Traced.outcome_bind, Traced.outcome_emit, Traced.outcome_lift]
    refine bind_ok_iff.mpr ⟨(), rfl, bind_ok_iff.mpr ⟨false, hb, ?_⟩⟩
    simp only [Bool.false_eq_true, if_false, Traced.outcome_bind, Traced.outcome_lift,
      Traced.outcome_pure]
    refine bind_ok_iff.mpr ⟨_, hforward, bind_ok_iff.mpr ⟨_, hbackward, ?_⟩⟩
    refine bind_ok_iff.mpr ⟨m, hm, bind_ok_iff.mpr ⟨s, hsm, ?_⟩⟩
    exact bind_ok_iff.mpr ⟨_, Word.sub_ok_iff.mpr ⟨by omega, by omega⟩, rfl⟩
  · show s.freeList.head = _
    rw [hslist, hmhead, List.head?_append]
  · refine linked_append.mpr ⟨?_, hsback⟩
    rw [Option.or_none]
    exact hmfront.congr (fun c hc => (hsfront c hc).1) fun c hc => (hsfront c hc).2

/-- A block is given the links of a first member; nothing points to it yet. -/
theorem exists_announced (h : Linked a.region none members none)
    (hs : Spaced a.region (b :: members)) :
    ∃ m n, b.setBackLink a.region none = .ok m ∧ b.setForwardLink m members.head? = .ok n ∧
      n.word b.offset = linkWord members.head? ∧ n.word (b.offset + 8) = linkWord none ∧
      Linked n none members none ∧ Relinked a.region n (b :: members) := by
  have hb : b ∈ b :: members := List.mem_cons_self ..
  have hnotin : b ∉ members := (List.nodup_cons.mp hs.nodup).1
  have hhead : ∀ c ∈ members.head?, c ∈ b :: members :=
    fun c hc => List.mem_cons_of_mem b (List.mem_of_mem_head? hc)
  have hnone : ∀ c ∈ (none : Option Block), c ∈ b :: members := fun c hc => nomatch hc
  obtain ⟨m, hm, sm⟩ := hs.exists_setBackLink hb hnone
  have hsm := hs.of_size_eq sm.size_eq
  obtain ⟨n, hn, sn⟩ := hsm.exists_setForwardLink hb hhead
  have hmem : ∀ c ∈ members, n.word c.offset = a.region.word c.offset ∧
      n.word (c.offset + 8) = a.region.word (c.offset + 8) := by
    intro c hc
    have hne : c ≠ b := fun he => hnotin (he ▸ hc)
    have hin := List.mem_cons_of_mem b hc
    obtain ⟨hmf, hmb⟩ := hs.spared sm hb (.inr rfl) c hin hne
    obtain ⟨hnf, hnb⟩ := hsm.spared sn hb (.inl rfl) c hin hne
    exact ⟨hnf.trans hmf, hnb.trans hmb⟩
  refine ⟨m, n, hm, hn, sn.word_eq, ?_, ?_, ?_⟩
  · rw [sn.word_of_disjoint (by omega), sm.word_eq]
  · exact h.congr (fun c hc => (hmem c hc).1) fun c hc => (hmem c hc).2
  · exact .trans (.of_stored sm hb (.inr rfl) hnone) (.of_stored sn hb (.inl rfl) hhead)

/-- The member that was first is told of the one before it. -/
theorem exists_succeeded {r : Region} {c : Block} {rest : List Block}
    (h : Linked r none (c :: rest) none) (hs : Spaced r (b :: c :: rest)) :
    ∃ s, c.setBackLink r (some b) = .ok s ∧ s.word b.offset = r.word b.offset ∧
      s.word (b.offset + 8) = r.word (b.offset + 8) ∧ Linked s (some b) (c :: rest) none ∧
      Relinked r s (b :: c :: rest) := by
  have hc : c ∈ b :: c :: rest := by simp
  have hbc : b ≠ c := fun he => (List.nodup_cons.mp hs.nodup).1 (he ▸ List.mem_cons_self ..)
  have hself : ∀ d ∈ some b, d ∈ b :: c :: rest := by
    intro d hd
    cases hd
    exact List.mem_cons_self ..
  obtain ⟨s, hset, ss⟩ := hs.exists_setBackLink hc hself
  have hapart := hs.spared ss hc (.inr rfl)
  obtain ⟨hforward, hback⟩ := hapart b (List.mem_cons_self ..) hbc
  refine ⟨s, hset, hforward, hback, h.readdress_first ?_ ?_ ?_, .of_stored ss hc (.inr rfl) hself⟩
  · intro d hd
    by_cases he : d = c
    · subst he
      exact ss.word_of_disjoint (by omega)
    · exact (hapart d (List.mem_cons_of_mem _ hd) he).1
  · intro d hd
    have hne : d ≠ c := fun he =>
      (List.nodup_cons.mp (List.nodup_cons.mp hs.nodup).2).1 (he ▸ hd)
    exact (hapart d (List.mem_cons_of_mem _ (List.mem_cons_of_mem _ hd)) hne).2
  · intro d hd
    cases hd
    exact ss.word_eq

/-- **A block that is no member goes to the front of the list.** -/
theorem push_listed (h : a.Listed members) (hs : Spaced a.region (b :: members))
    (hl : members.length + 1 < Word.limit) :
    ∃ a', (a.push b).outcome = .ok a' ∧ a'.Listed (b :: members) ∧
      Relinked a.region a'.region (b :: members) := by
  have hlen : Word.add a.freeList.length 1 = .ok (members.length + 1) := by
    rw [h.length]
    exact Word.add_ok hl
  obtain ⟨m, n, hm, hn, hforward, hback, hlinked, hnr⟩ := exists_announced h.linked hs
  unfold push
  simp only [Traced.outcome_bind, Traced.outcome_emit, Traced.outcome_lift]
  rw [h.head]
  cases members with
  | nil =>
    refine ⟨⟨n, ⟨some b, 0 + 1⟩⟩, ?_, ⟨rfl, rfl, hforward, hback, trivial⟩, hnr⟩
    refine bind_ok_iff.mpr ⟨(), rfl, bind_ok_iff.mpr ⟨m, hm, bind_ok_iff.mpr ⟨n, hn, ?_⟩⟩⟩
    simp only [List.head?_nil, Traced.outcome_bind, Traced.outcome_lift, Traced.outcome_pure]
    refine bind_ok_iff.mpr ⟨n, rfl, ?_⟩
    exact bind_ok_iff.mpr ⟨_, hlen, rfl⟩
  | cons c rest =>
    obtain ⟨s, hset, hsforward, hsback, hslinked, hsr⟩ :=
      exists_succeeded hlinked (hs.of_size_eq hnr.changed.size_eq)
    refine ⟨⟨s, ⟨some b, rest.length + 1 + 1⟩⟩, ?_,
      ⟨rfl, rfl, hsforward.trans hforward, hsback.trans hback, hslinked⟩, hnr.trans hsr⟩
    refine bind_ok_iff.mpr ⟨(), rfl, bind_ok_iff.mpr ⟨m, hm, bind_ok_iff.mpr ⟨n, hn, ?_⟩⟩⟩
    simp only [List.head?_cons, Traced.outcome_bind, Traced.outcome_lift, Traced.outcome_pure]
    refine bind_ok_iff.mpr ⟨s, hset, ?_⟩
    exact bind_ok_iff.mpr ⟨_, hlen, rfl⟩

/-! ## Walks along the list -/

theorem firstFitFrom_linked {r : Region} {least steps : Nat} {prev : Option Block}
    (hl : Linked r prev members none) (hs : Spaced r members) (size : Block → Nat)
    (hsize : ∀ b ∈ members, b.size r = .ok (size b)) (hsteps : members.length ≤ steps) :
    firstFitFrom r least steps members.head? =
      .ok (members.find? fun b => decide (least ≤ size b)) := by
  -- by induction on the members that are still to be met
  induction members generalizing prev steps with
  | nil => cases steps <;> rfl
  | cons b rest ih =>
    have hnext := hl.forwardLink_head hs
    obtain ⟨-, -, hrest⟩ := hl
    have hsrest := hs.sublist (List.sublist_cons_self b rest)
    have hsz := List.forall_mem_cons.mp hsize
    obtain ⟨steps, rfl⟩ : ∃ n, steps = n + 1 := ⟨steps - 1, by
      simp only [List.length_cons] at hsteps
      omega⟩
    refine bind_ok_iff.mpr ⟨_, hnext, bind_ok_iff.mpr ⟨_, hsz.1, ?_⟩⟩
    by_cases hfit : least ≤ size b
    · rw [if_pos hfit, List.find?_cons_of_pos (by simpa using hfit)]
      rfl
    · rw [if_neg hfit, List.find?_cons_of_neg (by simpa using hfit)]
      exact ih hrest hsrest hsz.2 (by simp only [List.length_cons] at hsteps; omega)

/-- First fit finds the first member, in list order, that is long enough. -/
theorem firstFit?_listed {least : Nat} (h : a.Listed members) (hs : Spaced a.region members)
    (size : Block → Nat) (hsize : ∀ b ∈ members, b.size a.region = .ok (size b))
    (hlen : members.length ≤ a.region.size) :
    a.firstFit? least = .ok (members.find? fun b => decide (least ≤ size b)) := by
  unfold firstFit?
  rw [h.head]
  exact firstFitFrom_linked h.linked hs size hsize (by omega)

theorem listedFrom_linked {r : Region} {limit : Nat} {prev : Option Block}
    (hl : Linked r prev members none) (hs : Spaced r members) (view : Block → BlockView)
    (hview : ∀ b ∈ members, b.view r = .ok (view b)) :
    listedFrom r limit members.head? = .ok ((members.map view).take limit) := by
  induction members generalizing prev limit with
  | nil => cases limit <;> rfl
  | cons b rest ih =>
    cases limit with
    | zero => rfl
    | succ limit =>
      have hnext := hl.forwardLink_head hs
      obtain ⟨-, -, hrest⟩ := hl
      have hsrest := hs.sublist (List.sublist_cons_self b rest)
      have hv := List.forall_mem_cons.mp hview
      refine bind_ok_iff.mpr ⟨_, hnext, bind_ok_iff.mpr ⟨_, hv.1, ?_⟩⟩
      exact bind_ok_iff.mpr ⟨_, ih hrest hsrest hv.2, rfl⟩

/-- A walk along the list lists its members, as many as it was asked for. -/
theorem listed_listed {limit : Nat} (h : a.Listed members) (hs : Spaced a.region members)
    (view : Block → BlockView) (hview : ∀ b ∈ members, b.view a.region = .ok (view b)) :
    a.listed limit = .ok ((members.map view).take limit) := by
  unfold listed
  rw [h.head]
  exact listedFrom_linked h.linked hs view hview

end Arena

end BoundaryTag
