import BoundaryTag.Proofs.Moving

/-!
# Payloads

> `usableSize_outcome`, `payload_outcome`: what is answered to any handle, whatever the
> bytes are.
>
> `usableSize_allocated`, `payload_allocated`, `fill_allocated`: what callers may do with
> the payload of a block in use, and that they always can.
>
> `payloadBytes_congr`: a payload is what its bytes are.
-/

namespace BoundaryTag

open BlockView (block tag Covers)
open Region (Changed)

namespace Region

variable {r s : Region} {start stop : Nat}

/-- A slice within the bytes is read. -/
theorem slice_ok (h : start ≤ stop) (hstop : stop ≤ r.size) :
    r.slice start stop = .ok (r.bytes.extract start stop) :=
  if_pos ⟨h, hstop⟩

/-- A stretch is what its bytes are. -/
theorem extract_congr (hr : stop ≤ r.size) (hs : stop ≤ s.size)
    (h : ∀ j, start ≤ j → j < stop → s.byte j = r.byte j) :
    s.bytes.extract start stop = r.bytes.extract start stop := by
  have hr' : stop ≤ r.bytes.size := hr
  have hs' : stop ≤ s.bytes.size := hs
  refine ByteArray.ext_getElem ?_ ?_
  · rw [ByteArray.size_extract, ByteArray.size_extract, Nat.min_eq_left hr', Nat.min_eq_left hs']
  · intro i hi hi'
    have hin := hi'
    rw [ByteArray.size_extract, Nat.min_eq_left hr'] at hin
    rw [ByteArray.getElem_extract, ByteArray.getElem_extract]
    have hbyte := h (start + i) (Nat.le_add_right ..) (by omega)
    rwa [byte, dif_pos (by omega), byte, dif_pos (by omega)] at hbyte

end Region

/-- A payload ends before the footer of its block. -/
theorem Block.payloadBounds_eq {r : Region} {b : Block} {t : Tag} (h : b.tag r = .ok t)
    (hs : 16 ≤ t.size) (hl : b.offset + t.size < Word.limit) :
    b.payloadBounds r = .ok (b.offset, b.offset + t.size - 16) := by
  have hend : b.offset + (t.size - 16) = b.offset + t.size - 16 := by omega
  have hadd := Word.add_ok (show b.offset + (t.size - 16) < Word.limit by omega)
  unfold payloadBounds
  rw [bind_of_ok (payloadSize_eq h hs), bind_of_ok hadd, hend]
  rfl

namespace Heap

variable {h h' : Heap} {o o' : Outline} {v : BlockView} {b : Block}

/-- What the header at a place says of a block there. -/
def headerView (h : Heap) (b : Block) : BlockView :=
  ⟨b.offset, (h.headerTag b).size, (h.headerTag b).allocated⟩

/-- The bytes of the payload of a block. -/
def payloadBytes (h : Heap) (v : BlockView) : ByteArray :=
  h.region.bytes.extract v.offset (v.offset + v.size - 16)

/-- Where a block in use is looked for, it is found. -/
theorem Shows.resolve_allocated (hs : h.Shows o) (hv : v ∈ o.blocks) (ha : v.allocated = true) :
    (h.resolve v.block).outcome = .ok (.ok v.block) := by
  rw [hs.resolve_outcome, hs.verdict_allocated hv ha]

/-- The payload of a block lies between its tags. -/
theorem Shows.payloadBounds_eq (hs : h.Shows o) (hv : v ∈ o.blocks) :
    v.block.payloadBounds h.region = .ok (v.offset, v.offset + v.size - 16) := by
  obtain ⟨-, -, hvs, -, -, hend⟩ := hs.sound.laid.bounds hv
  have hsmall := hs.size_lt
  have hregion : h.arena.region.size = h.size := rfl
  exact Block.payloadBounds_eq (t := v.tag) (hs.sound.laid.tag_eq hv nofun)
    (show 16 ≤ v.size by omega) (show v.offset + v.size < _ by omega)

theorem Shows.slice_payload (hs : h.Shows o) (hv : v ∈ o.blocks) :
    h.region.slice v.offset (v.offset + v.size - 16) = .ok (h.payloadBytes v) := by
  obtain ⟨-, -, hvs, -, -, hend⟩ := hs.sound.laid.bounds hv
  have hregion : h.arena.region.size = h.region.size := rfl
  exact Region.slice_ok (by omega) (by omega)

theorem Shows.size_payloadBytes (hs : h.Shows o) (hv : v ∈ o.blocks) :
    (h.payloadBytes v).size = v.size - 16 := by
  obtain ⟨-, -, hvs, -, -, hend⟩ := hs.sound.laid.bounds hv
  have hregion : h.arena.region.size = h.region.bytes.size := rfl
  rw [payloadBytes, ByteArray.size_extract]
  omega

/-- The payload, byte by byte. -/
theorem Shows.payloadBytes_getElem (hs : h.Shows o) (hv : v ∈ o.blocks) {i : Nat}
    (hi : i < (h.payloadBytes v).size) :
    (h.payloadBytes v)[i] = h.region.byte (v.offset + i) := by
  obtain ⟨-, -, hvs, -, -, hend⟩ := hs.sound.laid.bounds hv
  have hregion : h.arena.region.size = h.region.bytes.size := rfl
  have hin := hi
  rw [hs.size_payloadBytes hv] at hin
  rw [Region.byte, dif_pos (by omega)]
  exact ByteArray.getElem_extract hi

/-! ## What handles lead to -/

/-- Where a handle lies inside, its tag can be read. -/
theorem tag_of_inside (hin : h.Inside b) (hfirst : 8 ≤ h.firstBlock.offset)
    (hsmall : h.size < Word.limit) : b.tag h.region = .ok (h.headerTag b) := by
  obtain ⟨hlow, -, hhigh⟩ := hin
  have hregion : h.region.size = h.size := rfl
  exact Block.tag_ok_iff.mpr ⟨by omega, by omega, by omega, rfl⟩

/-- **The usable size** behind a handle that is accepted is what the header there leaves,
whatever the bytes are. -/
theorem usableSize_outcome (hfirst : 8 ≤ h.firstBlock.offset) (hsmall : h.size < Word.limit)
    (b : Block) :
    (h.usableSize b).outcome = .ok ((h.verdict b).map fun b => (h.headerTag b).size - 16) := by
  have hresolve := resolve_outcome hfirst hsmall b
  unfold usableSize
  rw [Traced.outcome_bind, bind_of_ok hresolve]
  rcases h.verdict_cases b with hb | ⟨e, -, hb⟩
  · obtain ⟨hin, ⟨h32, -, -⟩, -⟩ := verdict_ok_iff.mp hb
    have hsize := Block.payloadSize_eq (tag_of_inside hin hfirst hsmall) (by omega)
    rw [hb]
    dsimp only
    rw [Traced.outcome_bind]
    exact bind_ok_iff.mpr ⟨_, hsize, rfl⟩
  · rw [hb]
    rfl

/-- **The payload** behind a handle that is accepted can be read, whatever the bytes are. -/
theorem payload_outcome (hfirst : 8 ≤ h.firstBlock.offset) (hsmall : h.size < Word.limit)
    (b : Block) :
    (h.payload b).outcome = .ok ((h.verdict b).map fun b => h.payloadBytes (h.headerView b)) := by
  have hresolve := resolve_outcome hfirst hsmall b
  have hregion : h.region.size = h.size := rfl
  unfold payload
  rw [Traced.outcome_bind, bind_of_ok hresolve]
  rcases h.verdict_cases b with hb | ⟨e, -, hb⟩
  · obtain ⟨hin, ⟨h32, hend, -⟩, -⟩ := verdict_ok_iff.mp hb
    have hbounds := Block.payloadBounds_eq (tag_of_inside hin hfirst hsmall) (by omega) (by omega)
    have hslice : h.region.slice b.offset (b.offset + (h.headerTag b).size - 16) =
        .ok (h.payloadBytes (h.headerView b)) := Region.slice_ok (by omega) (by omega)
    rw [hb]
    simp only [Traced.outcome_bind, Traced.outcome_lift, Traced.outcome_pure]
    exact bind_ok_iff.mpr ⟨_, hbounds, bind_ok_iff.mpr ⟨_, hslice, rfl⟩⟩
  · rw [hb]
    rfl

/-- A rejected handle gets the verdict for an answer, and from `payload` as well. -/
theorem usableSize_of_verdict_error {e : AllocError} (hs : h.Shows o)
    (hb : h.verdict b = .error e) : (h.usableSize b).outcome = .ok (.error e) := by
  rw [usableSize_outcome hs.first_le hs.size_lt, hb]
  rfl

theorem payload_of_verdict_error {e : AllocError} (hs : h.Shows o)
    (hb : h.verdict b = .error e) : (h.payload b).outcome = .ok (.error e) := by
  rw [payload_outcome hs.first_le hs.size_lt, hb]
  rfl

/-- **The usable size** of a block in use is what its tags leave. -/
theorem usableSize_allocated (hs : h.Shows o) (hv : v ∈ o.blocks) (ha : v.allocated = true) :
    (h.usableSize v.block).outcome = .ok (.ok (v.size - 16)) := by
  rw [usableSize_outcome hs.first_le hs.size_lt, hs.verdict_allocated hv ha]
  show Except.ok (Except.ok ((h.headerTag v.block).size - 16)) = _
  rw [hs.headerTag_eq hv]
  rfl

/-- **The payload** of a block in use can be read. -/
theorem payload_allocated (hs : h.Shows o) (hv : v ∈ o.blocks) (ha : v.allocated = true) :
    (h.payload v.block).outcome = .ok (.ok (h.payloadBytes v)) := by
  have hview : h.headerView v.block = v := by
    rw [headerView, hs.headerTag_eq hv]
    rfl
  rw [payload_outcome hs.first_le hs.size_lt, hs.verdict_allocated hv ha]
  exact congrArg (fun w => Except.ok (Except.ok (h.payloadBytes w))) hview

/-- A payload whose bytes are the same is the same. -/
theorem payloadBytes_congr (hs : h.Shows o) (hs' : h'.Shows o') (hv : v ∈ o.blocks)
    (hv' : v ∈ o'.blocks)
    (hbytes : ∀ j, v.Covers j → h'.region.byte j = h.region.byte j) :
    h'.payloadBytes v = h.payloadBytes v := by
  obtain ⟨-, -, hvs, -, -, hend⟩ := hs.sound.laid.bounds hv
  have hend' := (hs'.sound.laid.bounds hv').2.2.2.2.2
  have hregion : h.arena.region.size = h.region.size := rfl
  have hregion' : h'.arena.region.size = h'.region.size := rfl
  refine Region.extract_congr (by omega) (by omega) fun j h₁ h₂ => hbytes j ?_
  simp only [Covers]
  omega

/-- How many bytes a write to the payload of a block can set. -/
def writable (v : BlockView) (first count : Nat) : Nat := min count (v.size - 16 - first)

/-- The region after a write to the payload of a block. -/
def written (h : Heap) (v : BlockView) (first count : Nat) (value : Nat → UInt8) : Region :=
  h.region.put (v.offset + first) value (writable v first count)

theorem changed_written (hs : h.Shows o) (hv : v ∈ o.blocks) (first count : Nat)
    (value : Nat → UInt8) :
    Changed h.region (h.written v first count value) fun j =>
      v.offset ≤ j ∧ j + 16 < v.offset + v.size := by
  have hvs := (hs.sound.laid.bounds hv).2.2.1
  refine ⟨Region.size_put .., fun j hj => Region.byte_put_of_outside _ ?_⟩
  unfold writable
  omega

/-- **A write** to the payload of a block in use sets what is asked for, as far as the
payload goes, and leaves the heap as it shows. -/
theorem fill_allocated (hs : h.Shows o) (hv : v ∈ o.blocks) (ha : v.allocated = true)
    (first count : Nat) (value : Nat → UInt8) :
    (h.fill v.block first count value).outcome =
        .ok (.ok (writable v first count), h.withRegion (h.written v first count value)) ∧
      (h.withRegion (h.written v first count value)).Shows o := by
  obtain ⟨-, -, hvs, -, -, -⟩ := hs.sound.laid.bounds hv
  refine ⟨?_, hs.withRegion hv ha (changed_written hs hv first count value)⟩
  have hcount : min count (v.offset + v.size - 16 - v.offset - first) =
      writable v first count := by
    unfold writable
    omega
  unfold fill
  rw [Traced.outcome_bind, bind_of_ok (hs.resolve_allocated hv ha)]
  simp only [Traced.outcome_bind, Traced.outcome_lift, Traced.outcome_pure]
  refine bind_ok_iff.mpr ⟨_, hs.payloadBounds_eq hv, bind_ok_iff.mpr ⟨_, hs.slice_payload hv, ?_⟩⟩
  dsimp only
  rw [hcount]
  rfl

end Heap

end BoundaryTag
