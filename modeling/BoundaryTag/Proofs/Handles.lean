import BoundaryTag.Proofs.Sessions
import BoundaryTag.Proofs.Walking
import Mathlib.Control.Monad.Basic

/-!
# Which handles are accepted

Memory is never cleared, so a handle may be accepted that names no block: all that is
asked of it is a pair of words that agree. Where nobody writes to payloads these words
are few. The lowest bit of a word behind the prologue is set only in the tags of blocks
in use and in footers that were *left behind* (`leftOver`): a block that becomes longer
where it lies keeps its old footer in its payload, and a payload that moves takes such
footers along.

> `exists_run_accounted`: there are no other such words in calls without writes.
>
> `run_verdicts`: so a handle is accepted if it is that of a block in use, or if the word
> before it is a footer, of a block in use or left behind, that agrees with the word
> which it leads to (`Phantom`); any other one is turned down by every operation.
>
> `usableSize_phantom`: the exception is there. A handle that was freed is accepted again
> though no block lies there.
-/

namespace BoundaryTag

open BlockView (block tag Covers TagAt)

namespace Heap

variable {h h' : Heap} {o : Outline} {b : Block} {v : BlockView}

/-! ## What it is to be accepted -/

/-- The operations take the handle for that of a block in use. Two of them answer; the
other two do not turn the handle down, whatever comes of that. -/
structure Accepts (h : Heap) (b : Handle) : Prop where
  usableSize : ∃ n, (h.usableSize b).outcome = .ok (.ok n)
  payload : ∃ bytes, (h.payload b).outcome = .ok (.ok bytes)
  free : ∀ e h', (h.free (some b)).outcome ≠ .ok (.error e, h')
  reallocate : ∀ n e h', (h.reallocate (some b) n).outcome = .ok (.error e, h') →
    e = .outOfMemory n

/-- The operations turn the handle down, and change nothing. -/
structure Rejects (h : Heap) (b : Handle) (e : AllocError) : Prop where
  usableSize : (h.usableSize b).outcome = .ok (.error e)
  payload : (h.payload b).outcome = .ok (.error e)
  free : (h.free (some b)).outcome = .ok (.error e, h)
  reallocate : ∀ n, (h.reallocate (some b) n).outcome = .ok (.error e, h)

theorem Shows.rejects {e : AllocError} (hs : h.Shows o) (hb : h.verdict b = .error e) :
    h.Rejects b e :=
  ⟨usableSize_of_verdict_error hs hb, payload_of_verdict_error hs hb, free_of_verdict_error hs hb,
    fun _ => reallocate_of_verdict_error hs hb⟩

/-- **The verdict on a handle** is what all operations go by. -/
theorem Shows.accepts_iff (hs : h.Shows o) : h.Accepts b ↔ h.verdict b = .ok b := by
  constructor
  · intro ha
    rcases h.verdict_cases b with hb | ⟨e, -, hb⟩
    · exact hb
    · obtain ⟨n, hok⟩ := ha.usableSize
      rw [usableSize_of_verdict_error hs hb] at hok
      cases hok
  · intro hb
    refine ⟨⟨(h.headerTag b).size - 16, ?_⟩, ⟨h.payloadBytes (h.headerView b), ?_⟩,
      fun e h' => free_of_verdict_ok hs hb, fun n e h' => reallocate_of_verdict_ok hs hb⟩
    · rw [usableSize_outcome hs.first_le hs.size_lt, hb]
      rfl
    · rw [payload_outcome hs.first_le hs.size_lt, hb]
      rfl

/-! ## Footers that are left behind -/

/-- The footers that lie in memory though no block ends there, after a block of `old`
bytes at `b` was resized to one of `new` bytes at `b'`. -/
def leftBehind (b : Block) (old : Nat) (b' : Block) (new : Nat) (left : List Nat) : List Nat :=
  if b' = b then
    if old < new then (b.offset + old - 16) :: left else left
  else
    left ++ (left.filter fun q => b.offset ≤ q ∧ q + 24 ≤ b.offset + min old new).map
      fun q => q - b.offset + b'.offset

theorem subset_leftBehind (b : Block) (old : Nat) (b' : Block) (new : Nat) (left : List Nat) :
    left ⊆ leftBehind b old b' new left := by
  unfold leftBehind
  split
  · split
    · exact List.subset_cons_self ..
    · exact List.Subset.refl _
  · exact List.subset_append_left ..

/-- A handle without a block that looks like one: the word before it is a footer, of a
block in use or left behind, and agrees with the word that its size leads to. -/
structure Phantom (h : Heap) (blocks : List BlockView) (left : List Nat) (b : Block) : Prop where
  inside : h.Inside b
  agree : h.TagsAgree b
  allocated : (h.headerTag b).allocated = true
  footer : (∃ v ∈ held blocks, b.offset + 8 = v.offset + v.size) ∨ b.offset - 8 ∈ left

/-- The heap accepts the handles of its blocks in use and phantoms. All other handles are
turned down by every operation, as free or as invalid, and nothing changes. -/
structure Judges (h : Heap) (blocks : List BlockView) (left : List Nat) : Prop where
  accepts_iff : ∀ b : Handle, h.Accepts b ↔
    (∃ v ∈ held blocks, v.block = b) ∨ h.Phantom blocks left b
  rejects : ∀ b : Handle, ¬ h.Accepts b →
    ∃ e, (e = .doubleFree b ∨ e = .invalidHandle b) ∧ h.Rejects b e

/-- Behind the prologue, every odd word that is not the epilogue is a tag of a block in
use or was left behind. -/
def Accounted (h : Heap) (o : Outline) (left : List Nat) : Prop :=
  ∀ q, h.firstBlock.offset ≤ q + 8 → h.region.Marked q →
    q + 8 = h.size ∨ (∃ v ∈ held o.blocks, v.TagAt q) ∨ q ∈ left

theorem Accounted.mono {left more : List Nat} (ha : h.Accounted o left) (hm : left ⊆ more) :
    h.Accounted o more := fun q hlow hq => (ha q hlow hq).imp_right (.imp_right fun hin => hm hin)

/-- Where all odd words are accounted for, blocks in use and phantoms are accepted, and
nothing else is. -/
theorem Shows.verdict_ok_iff_of_accounted (hs : h.Shows o) {left : List Nat}
    (ha : h.Accounted o left) :
    h.verdict b = .ok b ↔ (∃ v ∈ held o.blocks, v.block = b) ∨ h.Phantom o.blocks left b := by
  have hfirst := hs.first_le
  constructor
  · intro hb
    obtain ⟨hin, hagree, halloc⟩ := verdict_ok_iff.mp hb
    obtain ⟨hlow, h8, hhigh⟩ := hin
    have hmarked : h.region.Marked (b.offset - 8) := ⟨by omega, of_decide_eq_true halloc⟩
    rcases ha _ (by omega) hmarked with he | ⟨v, hv, he | he⟩ | hleft
    · omega
    · have hv8 := (hs.sound.laid.bounds (mem_held.mp hv).1).1
      exact .inl ⟨v, hv, Block.ext (show v.offset = b.offset by omega)⟩
    · have hvs := (hs.sound.laid.bounds (mem_held.mp hv).1).2.2.1
      exact .inr ⟨⟨hlow, h8, hhigh⟩, hagree, halloc, .inl ⟨v, hv, by omega⟩⟩
    · exact .inr ⟨⟨hlow, h8, hhigh⟩, hagree, halloc, .inr hleft⟩
  · rintro (⟨v, hv, rfl⟩ | hphantom)
    · exact hs.verdict_allocated (mem_held.mp hv).1 (mem_held.mp hv).2
    · exact verdict_ok_iff.mpr ⟨hphantom.inside, hphantom.agree, hphantom.allocated⟩

end Heap

/-! ## Calls without writes -/

namespace Session

variable {s s' : Session} {o o' : Outline} {call : Call} {answer : Answer} {v w : BlockView}
  {left : List Nat} {q needed : Nat}

/-- The footers left behind after one more call and its answer. -/
def leftAfter (s : Session) (left : List Nat) (call : Call) (answer : Answer) (s' : Session) :
    List Nat :=
  match s.target call, answer with
  | some b, .ok (some b') =>
    Heap.leftBehind b (s.heap.headerTag b).size b' (s'.heap.headerTag b').size left
  | _, _ => left

/-- The footers left behind after calls in a row. -/
def leftOver (s : Session) (left : List Nat) : List Call → List Nat
  | [] => left
  | call :: calls =>
    match (s.step call).outcome with
    | .ok (answer, s') => s'.leftOver (s.leftAfter left call answer s') calls
    | .error _ => left

theorem subset_leftAfter (s : Session) (left : List Nat) (call : Call) (answer : Answer)
    (s' : Session) : left ⊆ s.leftAfter left call answer s' := by
  unfold leftAfter
  split
  · exact Heap.subset_leftBehind ..
  · exact List.Subset.refl _

/-- An odd word in the payload of a block in use was left behind. -/
theorem mem_left_of_inside (hs : s.Shows o) (ha : s.heap.Accounted o left)
    (hv : v ∈ held o.blocks) (hlow : v.offset ≤ q) (hhigh : q + 24 ≤ v.offset + v.size)
    (hq : s.heap.region.Marked q) : q ∈ left := by
  have htiling := hs.heap.sound.laid.tiling
  obtain ⟨-, -, -, -, hfirst, hend⟩ := hs.heap.sound.laid.bounds (mem_held.mp hv).1
  have hsize : s.heap.arena.region.size = s.heap.size := rfl
  rcases ha q (by omega) hq with he | ⟨u, hu, hat⟩ | hin
  · omega
  · obtain ⟨hu32, -, hus, -, -, -⟩ := hs.heap.sound.laid.bounds (mem_held.mp hu).1
    have hapart := htiling.eq_or_apart (mem_held.mp hv).1 (mem_held.mp hu).1
    unfold TagAt at hat
    rcases hapart with rfl | hlt | hlt
    · omega
    · omega
    · omega
  · exact hin

/-- What becomes of the odd words when a block is resized. -/
theorem accounted_resized (hs : s.Shows o) (ha : s.heap.Accounted o left)
    (hr : Heap.Resized s.heap s'.heap o o' needed v w) :
    s'.heap.Accounted o' (Heap.leftBehind v.block v.size w.block w.size left) := by
  obtain ⟨others, hold, hnew⟩ := hr.inUse
  obtain ⟨asked, granted, hc⟩ := hr.continues
  have hv : v ∈ held o.blocks := hold.mem_iff.mpr (List.mem_cons_self ..)
  have hw : w ∈ held o'.blocks := hnew.mem_iff.mpr (List.mem_cons_self ..)
  intro q hlow hq
  rw [hc.firstBlock_eq] at hlow
  rcases hr.touched.marked q hq with (hat | ⟨hmoved, hfrom, hto, hodd⟩) | he | ⟨hne, hkept, hodd⟩
  · exact .inr (.inl ⟨w, hw, hat⟩)
  · -- an odd word of the old payload, in its new place
    have hin := mem_left_of_inside hs ha hv (q := q - w.offset + v.offset) (by omega) (by omega)
      hodd
    have hinside : v.offset ≤ q - w.offset + v.offset ∧
        q - w.offset + v.offset + 24 ≤ v.offset + min v.size w.size := by omega
    have hplace : q - w.offset + v.offset - v.offset + w.offset = q := by omega
    refine .inr (.inr ?_)
    rw [Heap.leftBehind, if_neg fun he => hmoved (congrArg Block.offset he)]
    exact List.mem_append_right _ (List.mem_map.mpr
      ⟨_, List.mem_filter.mpr ⟨hin, decide_eq_true hinside⟩, hplace⟩)
  · exact .inl he
  · rcases ha q hlow hodd with he | ⟨u, hu, hat⟩ | hin
    · exact absurd he hne
    · rcases List.mem_cons.mp (hold.mem_iff.mp hu) with rfl | hother
      · -- a tag of the block itself, which is no shorter now and lies where it did
        have hsame : w.offset = u.offset ∧ u.size ≤ w.size := by
          by_contra hnot
          exact hkept ⟨hat, hnot⟩
        rcases hat with he | he
        · exact .inr (.inl ⟨w, hw, .inl (hsame.1 ▸ he)⟩)
        · by_cases hlt : u.size < w.size
          · refine .inr (.inr ?_)
            rw [Heap.leftBehind, if_pos (Block.ext hsame.1), if_pos hlt]
            exact List.mem_cons.mpr (.inl he)
          · have hsize : w.size = u.size := by omega
            exact .inr (.inl ⟨w, hw, .inr (by rw [hsame.1, hsize]; exact he)⟩)
      · exact .inr (.inl ⟨u, hnew.mem_iff.mpr (List.mem_cons_of_mem _ hother), hat⟩)
    · exact .inr (.inr (Heap.subset_leftBehind _ _ _ _ _ hin))

/-- **A call without writes** accounts for all odd words again. -/
theorem Stepped.accounted (hs : s.Shows o) (h : Stepped s o call answer s' o')
    (hcall : ¬ call.Writes) (ha : s.heap.Accounted o left) :
    s'.heap.Accounted o' (s.leftAfter left call answer s') := by
  cases h with
  | idle leases unserved =>
    have hsame : s'.heap.Accounted o left := by
      rcases unserved with he | he
      · rwa [he]
      · rw [he]
        exact ha
    exact hsame.mono (subset_leftAfter ..)
  | served target leases served =>
    obtain ⟨asked, granted, hc⟩ := served.continues
    unfold leftAfter
    rw [target]
    intro q hlow hq
    rw [hc.firstBlock_eq] at hlow
    rcases served.touched.marked q hq with hat | he | ⟨hne, -, hodd⟩
    · exact .inr (.inl ⟨_, served.inUse.mem_iff.mpr (List.mem_cons_self ..), hat⟩)
    · exact .inl he
    · rcases ha q hlow hodd with he | ⟨u, hu, hat⟩ | hin
      · exact absurd he hne
      · exact .inr (.inl ⟨u, served.inUse.mem_iff.mpr (List.mem_cons_of_mem _ hu), hat⟩)
      · exact .inr (.inr hin)
  | @freed _ _ _ v target found leases freed =>
    unfold leftAfter
    rw [target]
    intro q hlow hq
    rw [freed.continues.firstBlock_eq] at hlow
    rcases freed.touched.marked q hq with hnone | he | ⟨hne, hgone, hodd⟩
    · exact hnone.elim
    · exact .inl he
    · rcases ha q hlow hodd with he | ⟨u, hu, hat⟩ | hin
      · exact absurd he hne
      · rcases List.mem_cons.mp (freed.inUse.mem_iff.mp hu) with rfl | hother
        · exact absurd hat hgone
        · exact .inr (.inl ⟨u, hother, hat⟩)
      · exact .inr (.inr hin)
  | @resized _ _ _ _ _ v w target found leases resized =>
    obtain ⟨others, hold, hnew⟩ := resized.inUse
    have hv := (mem_held.mp (hold.mem_iff.mpr (List.mem_cons_self ..))).1
    have hw := (mem_held.mp (hnew.mem_iff.mpr (List.mem_cons_self ..))).1
    unfold leftAfter
    rw [target]
    dsimp only
    rw [hs.heap.headerTag_eq hv, resized.shows.headerTag_eq hw]
    exact accounted_resized hs ha resized
  | written writes target leases inUse heap => exact absurd writes hcall

/-- **Calls without writes** do. -/
theorem exists_run_accounted (hs : s.Shows o) (ha : s.heap.Accounted o left) {calls : List Call}
    (hcalls : ∀ call ∈ calls, ¬ call.Writes) :
    ∃ answers s' o', (s.run calls).outcome = .ok (answers, s') ∧ s'.Shows o' ∧
      s'.heap.Accounted o' (s.leftOver left calls) := by
  induction calls generalizing s o left with
  | nil => exact ⟨[], s, o, rfl, hs, ha⟩
  | cons call calls ih =>
    obtain ⟨hcall, hrest⟩ := List.forall_mem_cons.mp hcalls
    obtain ⟨answer, s₁, o₁, hok₁, hstep⟩ := exists_step hs call
    obtain ⟨answers, s', o', hok, hs', ha'⟩ :=
      ih (hstep.shows hs) (hstep.accounted hs hcall ha) hrest
    refine ⟨answer :: answers, s', o', run_cons_ok hok₁ hok, hs', ?_⟩
    rw [leftOver, hok₁]
    exact ha'

variable {p : Provider} {config : Config} {s₀ : Session}

/-- A heap that was just built has no odd words but its tags. -/
theorem start_accounted (hp : p.Valid) (hok : (start p config).outcome = .ok (.ok s)) :
    s.heap.Accounted ⟨[⟨s.heap.firstBlock.offset, 32, false⟩], [s.heap.firstBlock]⟩ [] :=
  fun q hlow hq => .inl ((built_of_start_ok hp hok).1.marked q hlow hq)

/-- **Which handles are accepted** while nobody writes to payloads: those of blocks in
use, and phantoms. All others are turned down. -/
theorem run_verdicts (hp : p.Valid) (hok : (start p config).outcome = .ok (.ok s₀))
    (calls : List Call) (hcalls : ∀ call ∈ calls, ¬ call.Writes) :
    ∃ answers s blocks, (s₀.run calls).outcome = .ok (answers, s) ∧
      s.heap.blocks = .ok blocks ∧ s.heap.Judges blocks (s₀.leftOver [] calls) := by
  obtain ⟨answers, s, o, hrun, hs, ha⟩ :=
    exists_run_accounted (start_shows hp hok) (start_accounted hp hok) hcalls
  refine ⟨answers, s, o.blocks, hrun, hs.heap.blocks_shown, ?_, ?_⟩
  · intro b
    exact hs.heap.accepts_iff.trans (hs.heap.verdict_ok_iff_of_accounted ha)
  · intro b hnot
    rcases s.heap.verdict_cases b with hb | ⟨e, he, hb⟩
    · exact absurd (hs.heap.accepts_iff.mpr hb) hnot
    · exact ⟨e, he, hs.heap.rejects hb⟩

theorem run_verdicts_buffer :
    let calls := [.allocate 24, .allocate 24, .allocate 32, .free 1, .reallocate 0 32]
    (∀ call ∈ calls, ¬ call.Writes) ∧
    ∃ s₀, (start (.buffer 4096) ⟨32, false⟩).outcome = .ok (.ok s₀) ∧
      ∃ answers s blocks, (s₀.run calls).outcome = .ok (answers, s) ∧
        s.heap.blocks = .ok blocks ∧ s.heap.Judges blocks (s₀.leftOver [] calls) := by
  intro calls
  have hcalls : ∀ call ∈ calls, ¬ call.Writes := by simp [calls, Call.Writes]
  have hp : (Provider.buffer 4096).Valid := Provider.valid_buffer (Word.lt_limit (by decide))
  obtain ⟨s₀, hok⟩ := exists_start hp (Word.lt_limit (by decide)) ⟨32, false⟩ (by decide)
  exact ⟨hcalls, s₀, hok, run_verdicts hp hok calls hcalls⟩

/-- **A phantom.** The second handle, 72, is freed, and accepted again once the block
before has become longer: no block begins there, but the footer of that block and the
header of the third one agree. -/
theorem usableSize_phantom :
    (reached (.buffer 4096) ⟨32, false⟩
        [.allocate 24, .allocate 24, .allocate 32, .free 1, .reallocate 0 32]).map
      (fun (answers, s) => (answers, s.heap.blocks, (s.heap.usableSize ⟨72⟩).outcome)) =
    some ([.ok (some ⟨32⟩), .ok (some ⟨72⟩), .ok (some ⟨112⟩), .ok none, .ok (some ⟨32⟩)],
      .ok [⟨32, 48, true⟩, ⟨80, 32, false⟩, ⟨112, 48, true⟩, ⟨160, 32, false⟩],
      .ok (.ok 32)) := by
  decide +kernel

end Session

end BoundaryTag
