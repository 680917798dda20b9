import BoundaryTag.Proofs.Deciding

/-!
# Single changes to what holds a heap together

A heap that passes its check is held together by few words: the tags of the prologue, of
the blocks and of the epilogue, the links of the free blocks, and the two fields of the
free list. Most of them are written down twice, and the check compares. So one of them
alone cannot be changed to another value without the check noticing.

Tags are the easy part: a block's size, read at one end, leads to the other end, where the
same word has to stand. A link that was changed may lead to another free block, close a
cycle or cut the list short. All these cases are settled at once, as one half of the links
determines the order of the list, and with it the other half:

> `Linked.eq_of_forward`, `Linked.eq_of_back`: the forward links and the head determine the
> list; so do the back links and the set of its members.
>
> `check_tampered`: every single change is met with a violation.
-/

namespace BoundaryTag

open BlockView (block tag)
open Block (linkWord ofLinkWord)

/-- Where blocks in the same place are equally long, two tilings of a stretch have their
blocks in the same places throughout, and agree in whatever such blocks agree in. -/
theorem Tiling.map_eq {α : Type} {f : BlockView → α} {start stop : Nat}
    {blocks blocks' : List BlockView} (h : Tiling start blocks stop)
    (h' : Tiling start blocks' stop)
    (hf : ∀ v ∈ blocks, ∀ w ∈ blocks', v.offset = w.offset → v.size = w.size ∧ f v = f w) :
    blocks.map f = blocks'.map f := by
  induction blocks generalizing start blocks' with
  | nil =>
    cases blocks' with
    | nil => rfl
    | cons w rest' =>
      have hempty : start = stop := h
      have hlong := h'.length_le
      simp only [List.length_cons] at hlong
      omega
  | cons v rest ih =>
    cases blocks' with
    | nil =>
      have hempty : start = stop := h'
      have hlong := h.length_le
      simp only [List.length_cons] at hlong
      omega
    | cons w rest' =>
      obtain ⟨hv, -, -, hrest⟩ := h
      obtain ⟨hw, -, -, hrest'⟩ := h'
      obtain ⟨hsize, hvw⟩ :=
        hf v (List.mem_cons_self ..) w (List.mem_cons_self ..) (hv.trans hw.symm)
      rw [← hsize] at hrest'
      have htail := ih hrest hrest' fun u hu x hx =>
        hf u (List.mem_cons_of_mem _ hu) x (List.mem_cons_of_mem _ hx)
      rw [List.map_cons, List.map_cons, hvw, htail]

/-! ## Half of the links -/

/-- A link word names one block at most, and no block lies at zero. -/
theorem linkWord_inj {link link' : Option Block} (h : ∀ b ∈ link, b.offset ≠ 0)
    (h' : ∀ b ∈ link', b.offset ≠ 0) (he : linkWord link = linkWord link') : link = link' := by
  rw [← Block.ofLinkWord_linkWord h, he, Block.ofLinkWord_linkWord h']

namespace Linked

variable {r s : Region} {prev next prev' : Option Block} {members members' : List Block}

/-- The order of the members determines all their links. -/
theorem words_eq (h : Linked r prev members next) (h' : Linked s prev members next) :
    ∀ b ∈ members, s.word b.offset = r.word b.offset ∧
      s.word (b.offset + 8) = r.word (b.offset + 8) := by
  induction members generalizing prev with
  | nil => exact List.forall_mem_nil _
  | cons b rest ih =>
    obtain ⟨hforward, hback, hrest⟩ := h
    obtain ⟨hforward', hback', hrest'⟩ := h'
    exact List.forall_mem_cons.mpr
      ⟨⟨hforward'.trans hforward.symm, hback'.trans hback.symm⟩, ih hrest hrest'⟩

/-- **The head and the forward links determine the list.** -/
theorem eq_of_forward (h : Linked r prev members none) (h' : Linked s prev' members' none)
    (hhead : members'.head? = members.head?) (hpos : ∀ b ∈ members, b.offset ≠ 0)
    (hpos' : ∀ b ∈ members', b.offset ≠ 0)
    (hwords : ∀ b ∈ members, s.word b.offset = r.word b.offset) : members' = members := by
  induction members generalizing prev prev' members' with
  | nil => exact List.head?_eq_none_iff.mp hhead
  | cons b rest ih =>
    obtain ⟨rest', rfl⟩ := List.head?_eq_some_iff.mp hhead
    obtain ⟨hforward, -, hrest⟩ := h
    obtain ⟨hforward', -, hrest'⟩ := h'
    obtain ⟨hb, hwords⟩ := List.forall_mem_cons.mp hwords
    have hpos := (List.forall_mem_cons.mp hpos).2
    have hpos' := (List.forall_mem_cons.mp hpos').2
    -- what the two forward links of `b` name comes first in the two rests
    rw [Option.or_none] at hforward hforward'
    have hnext : rest'.head? = rest.head? :=
      linkWord_inj (fun c hc => hpos' c (List.mem_of_mem_head? hc))
        (fun c hc => hpos c (List.mem_of_mem_head? hc))
        (hforward'.symm.trans (hb.trans hforward))
    rw [ih hrest hrest' hnext hpos hpos' hwords]

/-- Only the first member's back link names what comes before the stretch. -/
theorem head?_eq_of_back (h : Linked r prev members next) (hprev : ∀ p ∈ prev, p ∉ members)
    (hpos : ∀ p ∈ prev, p.offset ≠ 0) (hmembers : ∀ b ∈ members, b.offset ≠ 0) {b : Block}
    (hb : b ∈ members) (hback : r.word (b.offset + 8) = linkWord prev) :
    members.head? = some b := by
  obtain ⟨front, back, rfl⟩ := List.append_of_mem hb
  obtain ⟨-, -, hword, -⟩ := linked_append.mp h
  cases hlast : front.getLast? with
  | none =>
    rw [List.getLast?_eq_none_iff.mp hlast]
    rfl
  | some p =>
    -- otherwise it names the member before it, which is not what comes before the stretch
    have hp : p ∈ front ++ b :: back :=
      List.mem_append_left _ (List.mem_of_mem_getLast? hlast)
    rw [hlast, Option.some_or] at hword
    have he : some p = prev := by
      refine linkWord_inj (fun c hc => ?_) hpos (hword.symm.trans hback)
      cases hc
      exact hmembers p hp
    exact absurd hp (hprev p he.symm)

/-- **The set of the members and their back links determine the list.** -/
theorem eq_of_back (h : Linked r prev members next) (h' : Linked s prev members' next)
    (hperm : members'.Perm members) (hnodup : members.Nodup)
    (hprev : ∀ p ∈ prev, p ∉ members) (hpos : ∀ p ∈ prev, p.offset ≠ 0)
    (hmembers : ∀ b ∈ members, b.offset ≠ 0)
    (hwords : ∀ b ∈ members, s.word (b.offset + 8) = r.word (b.offset + 8)) :
    members' = members := by
  induction members generalizing prev members' with
  | nil => exact hperm.eq_nil
  | cons b rest ih =>
    cases members' with
    | nil => exact hperm.symm.eq_nil.symm
    | cons c rest' =>
      -- the first member of either list is the one whose back link names `prev`
      have hc : c ∈ b :: rest := hperm.mem_iff.mp (List.mem_cons_self ..)
      have hback : r.word (c.offset + 8) = linkWord prev := (hwords c hc).symm.trans h'.2.1
      have hfirst := h.head?_eq_of_back hprev hpos hmembers hc hback
      cases hfirst
      obtain ⟨hb, hnodup⟩ := List.nodup_cons.mp hnodup
      obtain ⟨hb0, hmembers⟩ := List.forall_mem_cons.mp hmembers
      have hprev' : ∀ p ∈ some b, p ∉ rest := by
        intro p hp
        cases hp
        exact hb
      have hpos' : ∀ p ∈ some b, p.offset ≠ 0 := by
        intro p hp
        cases hp
        exact hb0
      rw [ih h.2.2 h'.2.2 hperm.cons_inv hnodup hprev' hpos' hmembers
        (List.forall_mem_cons.mp hwords).2]

end Linked

/-! ## Tags that were read at one end only -/

namespace Region

variable {r s : Region} {first place value : Nat} {blocks blocks' : List BlockView}
  {v : BlockView}

namespace Laid

/-- What is stored behind the header of a block spares all headers. -/
theorem headers_spared (h : r.Laid none first blocks) (hst : Stored r s place value)
    (hv : v ∈ blocks) (hlow : v.offset ≤ place) (hhigh : place + 16 ≤ v.offset + v.size) :
    ∀ u ∈ blocks, s.word (u.offset - 8) = r.word (u.offset - 8) := by
  intro u hu
  have hub := h.bounds hu
  refine hst.word_of_disjoint ?_
  rcases h.tiling.eq_or_apart hv hu with rfl | hlt | hlt
  · omega
  · omega
  · omega

/-- As long as the headers lead from block to block as they did, the two tags of every block
agree. -/
theorem tags_agree (h : r.Laid none first blocks) (h' : s.Laid none first blocks')
    (hsize : s.size = r.size)
    (hheaders : ∀ v ∈ blocks, (Tag.ofWord (s.word (v.offset - 8))).size = v.size)
    (hv : v ∈ blocks) : s.word (v.offset - 8) = s.word (v.offset + v.size - 16) := by
  have hlength : ∀ v ∈ blocks, ∀ w ∈ blocks', v.offset = w.offset → v.size = w.size := by
    intro v hv w hw ho
    have hread := (h'.framed w hw nofun).ofWord_header (h'.tiling.bounds hw).2.2.2
    rw [← hheaders v hv, ho, hread, tag]
  have hplaces : blocks.map (·.offset) = blocks'.map (·.offset) :=
    h.tiling.map_eq (hsize ▸ h'.tiling) fun v hv w hw ho => ⟨hlength v hv w hw ho, ho⟩
  have hmem : v.offset ∈ blocks'.map (·.offset) := hplaces ▸ List.mem_map_of_mem hv
  obtain ⟨w, hw, ho⟩ := List.mem_map.mp hmem
  have hframed := h'.framed w hw nofun
  rw [← ho, hlength v hv w hw ho.symm, hframed.header, hframed.footer]

/-- Blocks with the same headers are the same blocks. -/
theorem blocks_eq (h : r.Laid none first blocks) (h' : s.Laid none first blocks')
    (hsize : s.size = r.size)
    (hheaders : ∀ v ∈ blocks, s.word (v.offset - 8) = r.word (v.offset - 8)) :
    blocks = blocks' := by
  have hsame : ∀ v ∈ blocks, ∀ w ∈ blocks', v.offset = w.offset → v = w := by
    intro v hv w hw ho
    have hread := (h.framed v hv nofun).ofWord_header (h.tiling.bounds hv).2.2.2
    have hread' := (h'.framed w hw nofun).ofWord_header (h'.tiling.bounds hw).2.2.2
    rw [← ho, hheaders v hv, hread] at hread'
    obtain ⟨offset, size, allocated⟩ := v
    obtain ⟨offset', size', allocated'⟩ := w
    cases ho
    cases hread'
    rfl
  have hmaps := h.tiling.map_eq (f := id) (hsize ▸ h'.tiling) fun v hv w hw ho =>
    ⟨congrArg BlockView.size (hsame v hv w hw ho), hsame v hv w hw ho⟩
  rwa [List.map_id, List.map_id] at hmaps

/-- A header is not changed in its low bits unless its footer is. -/
theorem header_unchanged (h : r.Laid none first blocks) (h' : s.Laid none first blocks')
    (hv : v ∈ blocks) (hst : Stored r s (v.offset - 8) value)
    (hbits : value / 8 = r.word (v.offset - 8) / 8) : value = r.word (v.offset - 8) := by
  have hvb := h.bounds hv
  have hheaders : ∀ u ∈ blocks, (Tag.ofWord (s.word (u.offset - 8))).size = u.size := by
    intro u hu
    have hub := h.bounds hu
    have hread := (h.framed u hu nofun).ofWord_header (h.tiling.bounds hu).2.2.2
    have hsize : (Tag.ofWord (r.word (u.offset - 8))).size = u.size := by rw [hread, tag]
    rcases h.tiling.eq_or_apart hv hu with rfl | hlt | hlt
    · rw [← hsize, hst.word_eq, Tag.ofWord, Tag.ofWord, hbits]
    · rw [hst.word_of_disjoint (by omega), hsize]
    · rw [hst.word_of_disjoint (by omega), hsize]
  have hagree := h.tags_agree h' hst.size_eq hheaders hv
  have hframed := h.framed v hv nofun
  rw [hst.word_eq, hst.word_of_disjoint (by omega), hframed.footer] at hagree
  rw [hagree, hframed.header]

/-- A footer is not changed unless its header is. -/
theorem footer_unchanged (h : r.Laid none first blocks) (h' : s.Laid none first blocks')
    (hv : v ∈ blocks) (hst : Stored r s (v.offset + v.size - 16) value) :
    value = r.word (v.offset + v.size - 16) := by
  have hvb := h.bounds hv
  have hspared := h.headers_spared hst hv (by omega) (by omega)
  have hheaders : ∀ u ∈ blocks, (Tag.ofWord (s.word (u.offset - 8))).size = u.size := by
    intro u hu
    rw [hspared u hu, (h.framed u hu nofun).ofWord_header (h.tiling.bounds hu).2.2.2, tag]
  have hagree := h.tags_agree h' hst.size_eq hheaders hv
  have hframed := h.framed v hv nofun
  rw [hst.word_eq, hspared v hv, hframed.header] at hagree
  rw [← hagree, hframed.footer]

end Laid

end Region

/-! ## Links and the ends of the list -/

namespace Arena

variable {a a' : Arena} {first place value : Nat} {o o' : Outline} {v : BlockView}

theorem Shows.offset_ne_zero (hs : a.Shows first o) : ∀ b ∈ o.free, b.offset ≠ 0 := by
  intro b hb
  have := hs.scattered.bounds b hb
  omega

/-- Arenas with the same headers have the same free blocks, in some order. -/
theorem Shows.free_perm (hs : a.Shows first o) (hs' : a'.Shows first o')
    (hsize : a'.region.size = a.region.size)
    (hheaders : ∀ v ∈ o.blocks, a'.region.word (v.offset - 8) = a.region.word (v.offset - 8)) :
    o'.free.Perm o.free := by
  have hblocks := hs.laid.blocks_eq hs'.laid hsize hheaders
  exact hs'.members.trans (hblocks ▸ hs.members.symm)

/-- If their back links are the same too, so is the order. -/
theorem Shows.free_eq_of_back (hs : a.Shows first o) (hs' : a'.Shows first o')
    (hsize : a'.region.size = a.region.size)
    (hheaders : ∀ v ∈ o.blocks, a'.region.word (v.offset - 8) = a.region.word (v.offset - 8))
    (hback : ∀ b ∈ o.free, a'.region.word (b.offset + 8) = a.region.word (b.offset + 8)) :
    o'.free = o.free :=
  hs.listed.linked.eq_of_back hs'.listed.linked (hs.free_perm hs' hsize hheaders)
    hs.scattered.nodup nofun nofun hs.offset_ne_zero hback

/-- And if the forward links and the head are the same. -/
theorem Shows.free_eq_of_forward (hs : a.Shows first o) (hs' : a'.Shows first o')
    (hhead : a'.freeList.head = a.freeList.head)
    (hforward : ∀ b ∈ o.free, a'.region.word b.offset = a.region.word b.offset) :
    o'.free = o.free := by
  refine hs.listed.linked.eq_of_forward hs'.listed.linked ?_ hs.offset_ne_zero
    hs'.offset_ne_zero hforward
  rw [← hs'.listed.head, hhead, hs.listed.head]

/-- A forward link is not changed, as the back links tell what it has to be. -/
theorem Shows.forwardLink_unchanged (hs : a.Shows first o) (hs' : a'.Shows first o')
    (hv : v ∈ o.blocks) (hfree : v.allocated = false)
    (hst : a.region.Stored a'.region v.offset value) : value = a.region.word v.offset := by
  have hvb := hs.laid.bounds hv
  have hmem : v.block ∈ o.free := hs.mem_free.mpr ⟨v, hv, hfree, rfl⟩
  have hback : ∀ b ∈ o.free, a'.region.word (b.offset + 8) = a.region.word (b.offset + 8) := by
    intro b hb
    by_cases he : b = v.block
    · exact hst.word_of_disjoint (.inr (he ▸ Nat.le_refl _))
    · exact (hs.scattered.spared hst hmem (.inl rfl) b hb he).2
  have horder := hs.free_eq_of_back hs' hst.size_eq
    (hs.laid.headers_spared hst hv (Nat.le_refl _) (by omega)) hback
  rw [← hst.word_eq]
  exact (hs.listed.linked.words_eq (horder ▸ hs'.listed.linked) v.block hmem).1

/-- A back link is not changed, as the forward links tell what it has to be. -/
theorem Shows.backLink_unchanged (hs : a.Shows first o) (hs' : a'.Shows first o')
    (hhead : a'.freeList.head = a.freeList.head) (hv : v ∈ o.blocks)
    (hfree : v.allocated = false) (hst : a.region.Stored a'.region (v.offset + 8) value) :
    value = a.region.word (v.offset + 8) := by
  have hmem : v.block ∈ o.free := hs.mem_free.mpr ⟨v, hv, hfree, rfl⟩
  have hforward : ∀ b ∈ o.free, a'.region.word b.offset = a.region.word b.offset := by
    intro b hb
    by_cases he : b = v.block
    · exact hst.word_of_disjoint (.inl (he ▸ Nat.le_refl _))
    · exact (hs.scattered.spared hst hmem (.inr rfl) b hb he).1
  have horder := hs.free_eq_of_forward hs' hhead hforward
  rw [← hst.word_eq]
  exact (hs.listed.linked.words_eq (horder ▸ hs'.listed.linked) v.block hmem).2

end Arena

/-! ## The check -/

namespace Heap

variable {h : Heap} {o : Outline} {report : Report}

/-- The check finds something wrong. -/
def Rejected (h : Heap) : Prop := ∃ violation, h.check = .ok (.error violation)

/-- The words that hold a heap of these blocks together, each by its place, and what may
become of them: anything, only that a header keeps the size in it, and that the epilogue
does not become another epilogue. -/
inductive MetadataWord (h : Heap) (blocks : List BlockView) : (place value : Nat) → Prop
  | prologueHeader (value : Nat) : MetadataWord h blocks (h.prologue.offset - 8) value
  | prologueFooter (value : Nat) : MetadataWord h blocks h.prologue.offset value
  | header {v : BlockView} {value : Nat} (block : v ∈ blocks)
      (bits : value / 8 = h.region.word (v.offset - 8) / 8) :
      MetadataWord h blocks (v.offset - 8) value
  | footer {v : BlockView} (block : v ∈ blocks) (value : Nat) :
      MetadataWord h blocks (v.offset + v.size - 16) value
  | forwardLink {v : BlockView} (block : v ∈ blocks) (free : v.allocated = false)
      (value : Nat) : MetadataWord h blocks v.offset value
  | backLink {v : BlockView} (block : v ∈ blocks) (free : v.allocated = false) (value : Nat) :
      MetadataWord h blocks (v.offset + 8) value
  | epilogue {value : Nat}
      (broken : (Tag.ofWord value).size ≠ 0 ∨ (Tag.ofWord value).allocated = false) :
      MetadataWord h blocks (h.size - 8) value

/-- A word that holds the heap together lies in the region. -/
theorem MetadataWord.within {place value : Nat} (hh : h.MetadataWord o.blocks place value)
    (hp : h.Placed) (hs : h.arena.Shows h.firstBlock.offset o) : place + 8 ≤ h.region.size := by
  have hroom := hp.room
  have hfits : h.firstBlock.offset ≤ h.region.size := hp.fits
  have hfirst : h.firstBlock.offset = h.prologue.offset + 16 := rfl
  have hsize : h.size = h.region.size := rfl
  have hbounds : ∀ v ∈ o.blocks, 32 ≤ v.offset ∧ 32 ≤ v.size ∧
      v.offset + v.size ≤ h.region.size := by
    intro v hv
    obtain ⟨hlow, -, hlong, -, -, hend⟩ := hs.laid.bounds hv
    exact ⟨hlow, hlong, hend⟩
  cases hh with
  | prologueHeader => omega
  | prologueFooter => omega
  | header block =>
    have := hbounds _ block
    omega
  | footer block =>
    have := hbounds _ block
    omega
  | forwardLink block =>
    have := hbounds _ block
    omega
  | backLink block =>
    have := hbounds _ block
    omega
  | epilogue => omega

/-- **If the heap still shows an outline, the word was not changed.** -/
theorem MetadataWord.unchanged {place value : Nat} {s : Region} {o' : Outline}
    (hh : h.MetadataWord o.blocks place value) (hs : h.arena.Shows h.firstBlock.offset o)
    (hs' : Arena.Shows ⟨s, h.freeList⟩ h.firstBlock.offset o')
    (hst : h.region.Stored s place value) : value = h.region.word place := by
  have hprologue := hs.laid.fenced.prologue
  have hprologue' := hs'.laid.fenced.prologue
  cases hh with
  | prologueHeader =>
    rw [← hst.word_eq]
    exact hprologue'.header.trans hprologue.header.symm
  | prologueFooter =>
    rw [← hst.word_eq]
    exact hprologue'.footer.trans hprologue.footer.symm
  | header block bits => exact hs.laid.header_unchanged hs'.laid block hst bits
  | footer block => exact hs.laid.footer_unchanged hs'.laid block hst
  | forwardLink block free => exact hs.forwardLink_unchanged hs' block free hst
  | backLink block free => exact hs.backLink_unchanged hs' rfl block free hst
  | epilogue broken =>
    have hend := hs'.laid.fenced.epilogue
    have hread : s.word (s.size - 8) = value := hst.size_eq ▸ hst.word_eq
    rw [hread] at hend
    rw [hend] at broken
    simp at broken

/-- What shows no outline is rejected. -/
theorem Placed.rejected (hp : h.Placed) {a : Arena} (hsize : a.region.size = h.size)
    (hno : ∀ o, ¬ a.Shows h.firstBlock.offset o) : (h.withArena a).Rejected := by
  have hplaced := hp.withArena hsize
  obtain ⟨answer, hanswer⟩ := hplaced.exists_check
  cases answer with
  | error violation => exact ⟨violation, hanswer⟩
  | ok report =>
    obtain ⟨o, ho, -⟩ := hplaced.check_ok_iff.mp hanswer
    exact absurd ho (hno o)

/-- **The check notices every single change** to a word that holds the heap together, to the
head of the free list and to its recorded length. A heap that was built is in its place
whatever became of its bytes and its free list since (`Placed.withArena`), so all that is
asked of it is that it passes the check. -/
theorem check_tampered (hp : h.Placed) (hc : h.check = .ok (.ok report)) :
    ∃ blocks, h.blocks = .ok blocks ∧
      (∀ place value, h.MetadataWord blocks place value → value < Word.limit →
        value ≠ h.region.word place →
        ∃ s, h.region.writeWord place value = .ok s ∧ (h.withRegion s).Rejected) ∧
      (∀ head, head ≠ h.freeList.head → { h with freeList.head := head }.Rejected) ∧
      ∀ length, length ≠ h.freeList.length → { h with freeList.length := length }.Rejected := by
  obtain ⟨o, hs, -⟩ := hp.check_ok_iff.mp hc
  have hsmall := hp.small
  have hroom := hp.room
  have hblocks : h.blocks = .ok o.blocks :=
    Region.blocksFrom_tiling hs.laid.tiling (show 8 ≤ h.firstBlock.offset by omega) hsmall
      (fun v hv => hs.laid.framed v hv nofun) hs.laid.fenced.epilogue
  refine ⟨o.blocks, hblocks, fun place value hh hlt hne => ?_, fun head hne => ?_,
    fun length hne => ?_⟩
  · obtain ⟨s, hok, hst⟩ := Region.exists_stored (hh.within hp hs) hsmall hlt
    refine ⟨s, hok, hp.rejected (a := ⟨s, h.freeList⟩) hst.size_eq fun o' hs' => ?_⟩
    exact hne (hh.unchanged hs hs' hst)
  · refine hp.rejected (a := ⟨h.region, head, h.freeList.length⟩) rfl fun o' hs' => hne ?_
    have horder := hs.free_eq_of_back hs' rfl (fun _ _ => rfl) fun _ _ => rfl
    exact hs'.listed.head.trans (horder ▸ hs.listed.head.symm)
  · refine hp.rejected (a := ⟨h.region, h.freeList.head, length⟩) rfl fun o' hs' => hne ?_
    have horder := hs.free_eq_of_forward hs' rfl fun _ _ => rfl
    exact hs'.listed.length.trans (horder ▸ hs.listed.length.symm)

/-- A new heap passes, and does not once its free block names itself as the next one. -/
theorem check_tampered_page : ∃ s₀ report,
    (Session.start (.buffer 4096) .default).outcome = .ok (.ok s₀) ∧ s₀.heap.Placed ∧
      s₀.heap.check = .ok (.ok report) ∧
      ∃ s, s₀.heap.region.writeWord s₀.heap.firstBlock.offset s₀.heap.firstBlock.offset = .ok s ∧
        (s₀.heap.withRegion s).Rejected := by
  obtain ⟨hp, s₀, hok⟩ := Session.exists_start_page
  have hs := (Session.start_shows hp hok).heap
  have hcheck := hs.placed.check_ok_iff.mpr ⟨_, hs.sound, rfl⟩
  obtain ⟨blocks, hblocks, hwords, -, -⟩ := check_tampered hs.placed hcheck
  cases hblocks.symm.trans hs.blocks_shown
  have hnext : s₀.heap.region.word s₀.heap.firstBlock.offset = 0 := hs.sound.listed.linked.1
  have hroom := hs.placed.room
  have hfits := hs.placed.fits
  have hsmall := hs.placed.small
  exact ⟨s₀, _, hok, hs.placed, hcheck,
    hwords _ _ (.forwardLink (List.mem_singleton_self _) rfl _) (by omega) (by omega)⟩

end Heap

end BoundaryTag
