import BoundaryTag.Proofs.Sessions

/-!
# What a call leaves alone

A call may change free memory and the block that it is about; an unsuccessful call
changes no byte (`Stepped.byte_eq`). So the other blocks in use keep their tags and their
payloads, and what lies before the first block is never changed at all.

> `Stepped.spared`, `exists_run_spared`: a block in use that is left alone stays as it is.
>
> `exists_run_low`: so do the bytes before the first block.
>
> `run_undisturbed`: the same in terms of handles and of what callers read.
-/

namespace BoundaryTag

open BlockView (block Covers)

namespace Session

variable {s s' : Session} {o o' : Outline} {call : Call} {answer : Answer} {v : BlockView}
  {b : Block} {j : Nat}

/-! ## One call -/

/-- A byte changes only if it was free or in the block that the call is about. -/
theorem Stepped.byte_eq (hs : s.Shows o) (h : Stepped s o call answer s' o')
    (hj : j + 8 < s.heap.size) (hfree : ¬ InVacant o.blocks j)
    (hown : ∀ u ∈ held o.blocks, s.target call = some u.block → u.Covers j →
      ∃ e, answer = .error e) :
    s'.heap.region.byte j = s.heap.region.byte j := by
  cases h with
  | idle leases unserved =>
    rcases unserved with he | he
    · rw [he]
    · rw [he]
      rfl
  | served target leases served => exact served.touched.byte_eq j hj hfree
  | @freed _ _ _ u target found leases freed =>
    have hu : u ∈ held o.blocks := freed.inUse.mem_iff.mpr (List.mem_cons_self ..)
    apply freed.touched.byte_eq j hj
    rintro (hin | hin)
    · exact hfree hin
    · obtain ⟨e, he⟩ := hown u hu target hin
      cases he
  | @resized _ _ _ _ _ u w target found leases resized =>
    obtain ⟨others, hold, -⟩ := resized.inUse
    have hu : u ∈ held o.blocks := hold.mem_iff.mpr (List.mem_cons_self ..)
    apply resized.touched.byte_eq j hj
    rintro (hin | hin)
    · exact hfree hin
    · obtain ⟨e, he⟩ := hown u hu target hin
      cases he
  | @written _ first count value u writes target leases inUse heap =>
    rw [heap]
    apply (Heap.changed_written hs.heap (mem_held.mp inUse).1 first count value).byte_eq j
    rintro ⟨hlow, hhigh⟩
    obtain ⟨e, he⟩ := hown u inUse target ⟨by omega, by omega⟩
    cases he

/-- A block stays in use unless a call about it succeeds. -/
theorem Stepped.inUse (h : Stepped s o call answer s' o') (hv : v ∈ held o.blocks)
    (hspared : s.target call = some v.block → ∃ e, answer = .error e) : v ∈ held o'.blocks := by
  cases h with
  | idle leases unserved => exact hv
  | served target leases served =>
    exact served.inUse.mem_iff.mpr (List.mem_cons_of_mem _ hv)
  | @freed _ _ _ u target found leases freed =>
    rcases List.mem_cons.mp (freed.inUse.mem_iff.mp hv) with rfl | hin
    · obtain ⟨e, he⟩ := hspared target
      cases he
    · exact hin
  | @resized _ _ _ _ _ u w target found leases resized =>
    obtain ⟨others, hold, hnew⟩ := resized.inUse
    rcases List.mem_cons.mp (hold.mem_iff.mp hv) with rfl | hin
    · obtain ⟨e, he⟩ := hspared target
      cases he
    · exact hnew.mem_iff.mpr (List.mem_cons_of_mem _ hin)
  | written writes target leases inUse heap => exact hv

/-- **A block in use keeps all its bytes** in a call that is not about it, and in one
that fails. -/
theorem Stepped.spared (hs : s.Shows o) (h : Stepped s o call answer s' o')
    (hv : v ∈ held o.blocks)
    (hspared : s.target call = some v.block → ∃ e, answer = .error e) :
    v ∈ held o'.blocks ∧ ∀ j, v.Covers j → s'.heap.region.byte j = s.heap.region.byte j := by
  refine ⟨h.inUse hv hspared, ?_⟩
  intro j hj
  have htiling := hs.heap.sound.laid.tiling
  obtain ⟨hmem, ha⟩ := mem_held.mp hv
  have hend := (hs.heap.sound.laid.bounds hmem).2.2.2.2.2
  have hsize : s.heap.arena.region.size = s.heap.size := rfl
  have hin := hj.2
  apply h.byte_eq hs (by omega) (htiling.not_inVacant hmem ha hj)
  intro u hu ht huj
  -- the block that the call is about is another one, or the call failed
  rcases htiling.eq_or_apart hmem (mem_held.mp hu).1 with rfl | hlt | hlt
  · exact hspared ht
  · simp only [Covers] at hj huj
    omega
  · simp only [Covers] at hj huj
    omega

/-- The region never shrinks. -/
theorem Stepped.size_le (h : Stepped s o call answer s' o') : s.heap.size ≤ s'.heap.size := by
  cases h with
  | idle leases unserved =>
    rcases unserved with he | he
    · rw [he]
    · rw [he]
      rfl
  | served target leases served => exact served.touched.size_le
  | freed target found leases freed => exact freed.touched.size_le
  | resized target found leases resized => exact resized.touched.size_le
  | written writes target leases inUse heap =>
    rw [heap]
    exact Nat.le_of_eq (Region.size_put ..).symm

/-- **Before the first block** nothing ever changes, and it stays the first. -/
theorem Stepped.low (hs : s.Shows o) (h : Stepped s o call answer s' o') :
    s'.heap.firstBlock = s.heap.firstBlock ∧
      ∀ j, j + 8 < s.heap.firstBlock.offset →
        s'.heap.region.byte j = s.heap.region.byte j := by
  have htiling := hs.heap.sound.laid.tiling
  have hsize : s.heap.arena.region.size = s.heap.size := rfl
  have hle := htiling.le
  refine ⟨?_, ?_⟩
  · cases h with
    | idle leases unserved =>
      rcases unserved with he | he
      · rw [he]
      · rw [he]
        rfl
    | served target leases served =>
      obtain ⟨asked, granted, hc⟩ := served.continues
      exact hc.firstBlock_eq
    | freed target found leases freed => exact freed.continues.firstBlock_eq
    | resized target found leases resized =>
      obtain ⟨asked, granted, hc⟩ := resized.continues
      exact hc.firstBlock_eq
    | written writes target leases inUse heap =>
      rw [heap]
      rfl
  · intro j hj
    apply h.byte_eq hs (by omega) (htiling.not_inVacant_of_lt hj)
    intro u hu _ huj
    have hlow := (htiling.bounds (mem_held.mp hu).1).1
    simp only [Covers] at huj
    omega

/-! ## Calls in a row -/

/-- No call in the list takes the block away or writes to it: none is about it, or those
that are fail. -/
def Spares (b : Block) : Session → List Call → Prop
  | _, [] => True
  | s, call :: calls => ∀ answer s', (s.step call).outcome = .ok (answer, s') →
      (s.target call = some b → ∃ e, answer = .error e) ∧ Spares b s' calls

/-- Calls in a row that each leave a block alone leave it as it was. -/
theorem exists_run_spared (hs : s.Shows o) (hv : v ∈ held o.blocks) {calls : List Call}
    (hspares : Spares v.block s calls) :
    ∃ answers s' o', (s.run calls).outcome = .ok (answers, s') ∧ s'.Shows o' ∧
      v ∈ held o'.blocks ∧ ∀ j, v.Covers j → s'.heap.region.byte j = s.heap.region.byte j := by
  induction calls generalizing s o with
  | nil => exact ⟨[], s, o, rfl, hs, hv, fun _ _ => rfl⟩
  | cons call calls ih =>
    obtain ⟨answer, s₁, o₁, hok₁, hstep⟩ := exists_step hs call
    obtain ⟨hspared, hspares₁⟩ := hspares answer s₁ hok₁
    obtain ⟨hv₁, hbytes₁⟩ := hstep.spared hs hv hspared
    obtain ⟨answers, s', o', hok, hs', hv', hbytes⟩ := ih (hstep.shows hs) hv₁ hspares₁
    refine ⟨answer :: answers, s', o', ?_, hs', hv', ?_⟩
    · exact run_cons_ok hok₁ hok
    · intro j hj
      rw [hbytes j hj, hbytes₁ j hj]

/-- Calls in a row never change what lies before the first block. -/
theorem exists_run_low (hs : s.Shows o) (calls : List Call) :
    ∃ answers s' o', (s.run calls).outcome = .ok (answers, s') ∧ s'.Shows o' ∧
      s'.heap.firstBlock = s.heap.firstBlock ∧
      ∀ j, j + 8 < s.heap.firstBlock.offset →
        s'.heap.region.byte j = s.heap.region.byte j := by
  refine exists_run_keeping (I := fun s' _ => s'.heap.firstBlock = s.heap.firstBlock ∧
    ∀ j, j + 8 < s.heap.firstBlock.offset → s'.heap.region.byte j = s.heap.region.byte j)
    (fun hs₁ hlow hstep => ?_) hs ⟨rfl, fun _ _ => rfl⟩ calls
  obtain ⟨hfirst, hbytes⟩ := hstep.low hs₁
  refine ⟨hfirst.trans hlow.1, fun j hj => ?_⟩
  rw [hbytes j (by rwa [hlow.1]), hlow.2 j hj]

/-! ## What callers read -/

/-- The handle is live, and these bytes are what its payload reads as. -/
structure Holds (s : Session) (b : Block) (bytes : ByteArray) : Prop where
  live : b ∈ s.handles
  usableSize : (s.heap.usableSize b).outcome = .ok (.ok bytes.size)
  payload : (s.heap.payload b).outcome = .ok (.ok bytes)

theorem Shows.holds (hs : s.Shows o) (hv : v ∈ held o.blocks) :
    s.Holds v.block (s.heap.payloadBytes v) := by
  obtain ⟨hmem, ha⟩ := mem_held.mp hv
  refine ⟨hs.leased.mem_iff.mpr (List.mem_map_of_mem hv), ?_,
    Heap.payload_allocated hs.heap hmem ha⟩
  rw [hs.heap.size_payloadBytes hmem]
  exact Heap.usableSize_allocated hs.heap hmem ha

/-- What is written to a payload is read there. -/
theorem exists_write_shown (hs : s.Shows o) {place : Nat} (hp : s.handle? place = some v.block)
    (hv : v ∈ held o.blocks) (first count : Nat) (value : Nat → UInt8) :
    ∃ s₁, (s.step (.write place first count value)).outcome = .ok (.ok none, s₁) ∧ s₁.Shows o ∧
      ∀ i, i < count → first + i + 16 < v.size →
        s₁.heap.region.byte (v.offset + (first + i)) = value i := by
  obtain ⟨hmem, ha⟩ := mem_held.mp hv
  have hshown := (Heap.fill_allocated hs.heap hmem ha first count value).2
  refine ⟨_, write_leased hs hp hv first count value, ⟨hshown, hs.leased⟩, ?_⟩
  intro i hi hin
  have hend := (hs.heap.sound.laid.bounds hmem).2.2.2.2.2
  have hregion : s.heap.arena.region.size = s.heap.region.size := rfl
  show (s.heap.written v first count value).byte _ = _
  have hwritable : i < Heap.writable v first count := by
    unfold Heap.writable
    omega
  rw [Heap.written, Region.byte_put, if_pos (by omega)]
  congr 1
  omega

/-- What holds of a session `s` that `s₀` has come to. -/
structure Undisturbed (s₀ s : Session) : Prop where
  firstBlock_eq : s.heap.firstBlock = s₀.heap.firstBlock
  /-- Nothing before the first block's header has changed. -/
  low : ∀ j, j + 8 < s₀.heap.firstBlock.offset → s.heap.region.byte j = s₀.heap.region.byte j
  /-- The next call, whatever it is, succeed or fail, leaves the live handles that it is
  not about as they are. -/
  others : ∀ call, ∃ answer s', (s.step call).outcome = .ok (answer, s') ∧
    ∀ b ∈ s.handles, s.target call ≠ some b → ∃ bytes, s.Holds b bytes ∧ s'.Holds b bytes
  /-- What is written to a payload next is read there for as long as no call takes the
  block away or writes to it again. -/
  readBack : ∀ place b first count value, s.handle? place = some b →
    ∃ s₁, (s.step (.write place first count value)).outcome = .ok (.ok none, s₁) ∧
      ∀ later, Spares b s₁ later → ∃ answers s₂ bytes,
        (s₁.run later).outcome = .ok (answers, s₂) ∧ s₂.Holds b bytes ∧
          ∀ i, i < count → ∀ _ : first + i < bytes.size, bytes[first + i] = value i

theorem Shows.exists_others (hs : s.Shows o) (call : Call) :
    ∃ answer s', (s.step call).outcome = .ok (answer, s') ∧
      ∀ b ∈ s.handles, s.target call ≠ some b → ∃ bytes, s.Holds b bytes ∧ s'.Holds b bytes := by
  obtain ⟨answer, s', o', hstep, hstepped⟩ := exists_step hs call
  refine ⟨answer, s', hstep, ?_⟩
  intro b hb hother
  obtain ⟨v, hmem, ha, rfl⟩ := hs.exists_inUse hb
  have hv := mem_held.mpr ⟨hmem, ha⟩
  obtain ⟨hv', hbytes⟩ := hstepped.spared hs hv fun ht => absurd ht hother
  have hs' := hstepped.shows hs
  refine ⟨s.heap.payloadBytes v, hs.holds hv, ?_⟩
  rw [← Heap.payloadBytes_congr hs.heap hs'.heap hmem (mem_held.mp hv').1 hbytes]
  exact hs'.holds hv'

theorem Shows.exists_readBack (hs : s.Shows o) {place : Nat} (hplace : s.handle? place = some b)
    (first count : Nat) (value : Nat → UInt8) :
    ∃ s₁, (s.step (.write place first count value)).outcome = .ok (.ok none, s₁) ∧
      ∀ later, Spares b s₁ later → ∃ answers s₂ bytes,
        (s₁.run later).outcome = .ok (answers, s₂) ∧ s₂.Holds b bytes ∧
          ∀ i, i < count → ∀ _ : first + i < bytes.size, bytes[first + i] = value i := by
  obtain ⟨v, hmem, ha, rfl⟩ := hs.exists_inUse (mem_handles_of_handle? hplace)
  have hv := mem_held.mpr ⟨hmem, ha⟩
  obtain ⟨s₁, hwrite, hs₁, hread⟩ := exists_write_shown hs hplace hv first count value
  refine ⟨s₁, hwrite, ?_⟩
  intro later hspares
  obtain ⟨answers, s₂, o₂, hrun, hs₂, hv₂, hbytes⟩ := exists_run_spared hs₁ hv hspares
  refine ⟨answers, s₂, s₂.heap.payloadBytes v, hrun, hs₂.holds hv₂, ?_⟩
  intro i hi hin
  have hmem₂ := (mem_held.mp hv₂).1
  have hvs := (hs.heap.sound.laid.bounds hmem).2.2.1
  have hroom := hin
  rw [hs₂.heap.size_payloadBytes hmem₂] at hroom
  rw [hs₂.heap.payloadBytes_getElem hmem₂ hin, hbytes _ (by simp only [Covers]; omega)]
  exact hread i hi (by omega)

variable {p : Provider} {config : Config} {s₀ : Session}

/-- **No call disturbs another allocation,** whether it succeeds or fails, and none
touches what lies before the first block. Building the heap has left the bytes alone that
the provider held before. -/
theorem run_undisturbed (hp : p.Valid) (hok : (start p config).outcome = .ok (.ok s₀)) :
    (∀ j, j < p.region.size → s₀.heap.region.byte j = p.region.byte j) ∧
    ∀ calls, ∃ answers s, (s₀.run calls).outcome = .ok (answers, s) ∧ Undisturbed s₀ s := by
  obtain ⟨hbuilt, -⟩ := built_of_start_ok hp hok
  refine ⟨fun j hj => hbuilt.byte_eq j (by unfold Heap.startBehind; omega), ?_⟩
  intro calls
  obtain ⟨answers, s, o, hrun, hs, hfirst, hlow⟩ := exists_run_low (start_shows hp hok) calls
  exact ⟨answers, s, hrun, hfirst, hlow, hs.exists_others, fun place b first count value hplace =>
    hs.exists_readBack hplace first count value⟩

/-- A heap behind thirteen bytes that the provider held before, for instance. -/
theorem run_undisturbed_behind :
    let p : Provider :=
      { Provider.buffer 4096 with requests := 1, region := Region.empty.grow 13 }
    p.region.size = 13 ∧ ∃ s₀, (start p .default).outcome = .ok (.ok s₀) ∧
      (∀ j, j < p.region.size → s₀.heap.region.byte j = p.region.byte j) ∧
      ∀ calls, ∃ answers s, (s₀.run calls).outcome = .ok (answers, s) ∧ Undisturbed s₀ s := by
  intro p
  have hp : p.Valid := (Provider.valid_buffer (Word.lt_limit (by decide))).grow (by decide)
  obtain ⟨s₀, hok⟩ := exists_start hp (Word.lt_limit (by decide)) .default (by decide)
  exact ⟨Region.size_grow .., s₀, hok, run_undisturbed hp hok⟩

end Session

end BoundaryTag
