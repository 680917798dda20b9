import BoundaryTag.Proofs.Sessions
import BoundaryTag.Proofs.Walking

/-!
# When memory is out

An allocation ends in one of four ways (`Allotted`), and which one it is depends on no more
than the walk over the blocks and the provider's next answer. So an error is reported exactly
if there is a reason for it, and the provider is asked exactly if no free block fits.

> `exists_allotted`: the four ends of an allocation.
>
> `reallocate_fails_iff`: a block that is in use cannot be resized exactly if the size is
> beyond a word, or the block would have to move and there is nowhere to move it.
>
> `run_reports_exhaustion`: after any calls, both report exactly this.
-/

namespace BoundaryTag

open BlockView (tag)

/-- The request, with its tags and rounded up to the alignment, is beyond a word. -/
def TooLarge (request : Nat) : Prop :=
  Word.limit ≤ (request + overhead + (alignment - 1)) / alignment * alignment

/-- That the least block is longer than some requests take makes no difference to this. -/
theorem tooLarge_iff {n : Nat} : TooLarge n ↔ Word.limit ≤ leastSpan n := by
  unfold TooLarge leastSpan
  rw [Word.limit_eq]
  simp only [overhead, alignment, minBlockSize]
  omega

theorem blockSizeFor?_of_tooLarge {n : Nat} (h : TooLarge n) : blockSizeFor? n = none :=
  blockSizeFor?_eq_none_iff.mpr (tooLarge_iff.mp h)

theorem blockSizeFor?_of_not_tooLarge {n : Nat} (h : ¬ TooLarge n) :
    blockSizeFor? n = some (leastSpan n) :=
  blockSizeFor?_eq_some_iff.mpr ⟨Nat.lt_of_not_le (mt tooLarge_iff.mpr h), rfl⟩

/-- One of the free blocks is long enough for the request. -/
def Fits (blocks : List BlockView) (request : Nat) : Prop :=
  ∃ v ∈ blocks, v.allocated = false ∧ leastSpan request ≤ v.size

namespace Provider

/-- The provider answers a request for so many more bytes with an error. -/
def Refuses (p : Provider) (bytes : Nat) : Prop :=
  ∃ cause q, (p.extend bytes).outcome = .ok (.error cause, q)

theorem refuses_iff {p : Provider} {bytes : Nat} : p.Refuses bytes ↔ ¬ p.Grants bytes := by
  constructor
  · rintro ⟨cause, q, hok⟩ hg
    rw [extend_granted hg] at hok
    cases hok
  · intro hg
    obtain ⟨cause, hok⟩ := extend_refused hg
    exact ⟨cause, _, hok⟩

end Provider

namespace Heap

variable {h h' : Heap} {o : Outline} {n needed : Nat} {v : BlockView} {α : Type}

/-- The operation answers with an error. -/
def Fails (x : Traced (Except AllocError α × Heap)) : Prop :=
  ∃ e h', x.outcome = .ok (.error e, h')

theorem not_fails {x : Traced (Except AllocError α × Heap)} {a : α}
    (hok : x.outcome = .ok (.ok a, h')) : ¬ Fails x := by
  rintro ⟨e, h'', he⟩
  rw [hok] at he
  cases he

/-- The operation always answers; it answers with an error exactly if there is a reason to,
and the error says that memory is out. -/
structure FailsExactlyIf (x : Traced (Except AllocError α × Heap)) (request : Nat)
    (reason : Prop) : Prop where
  answers : ∃ answer h', x.outcome = .ok (answer, h')
  fails_iff : Fails x ↔ reason
  error_eq : ∀ {e h'}, x.outcome = .ok (.error e, h') → e = .outOfMemory request

/-! ## Allocating -/

/-- Why there is no memory for a request: its size is beyond a word, or no free block fits
and the provider does not let the heap grow. -/
def NoMemoryFor (h : Heap) (blocks : List BlockView) (request : Nat) : Prop :=
  TooLarge request ∨
    ¬ Fits blocks request ∧ h.provider.Refuses (max (leastSpan request) h.config.chunk)

/-- What an allocation came to, by what decides it. -/
inductive Allotted (h : Heap) (blocks : List BlockView) (request : Nat) :
    Except AllocError Handle → Heap → Prop
  | tooLarge (tooLarge : TooLarge request) :
      Allotted h blocks request (.error (.outOfMemory request)) h
  | fitted {b : Block} {h' : Heap} (small : ¬ TooLarge request) (fits : Fits blocks request)
      (continues : h.Continues h' 0 0) : Allotted h blocks request (.ok b) h'
  | refused (small : ¬ TooLarge request) (full : ¬ Fits blocks request)
      (refuses : h.provider.Refuses (max (leastSpan request) h.config.chunk)) :
      Allotted h blocks request (.error (.outOfMemory request)) h.afterRefusal
  | grown {b : Block} {h' : Heap} (small : ¬ TooLarge request) (full : ¬ Fits blocks request)
      (grants : ¬ h.provider.Refuses (max (leastSpan request) h.config.chunk))
      (continues : h.Continues h' 1 1) : Allotted h blocks request (.ok b) h'

/-- The search along the free list overlooks no free block. -/
theorem Shows.firstFit_eq_none_iff (hs : h.Shows o) :
    o.firstFit (leastSpan n) = none ↔ ¬ Fits o.blocks n := by
  constructor
  · rintro hf ⟨v, hv, ha, hle⟩
    have hshort := List.find?_eq_none.mp hf v.block (hs.sound.mem_free.mpr ⟨v, hv, ha, rfl⟩)
    rw [Outline.sizeOf_eq hs.sound.laid.tiling hv] at hshort
    exact hshort (decide_eq_true hle)
  · intro hfull
    cases hf : o.firstFit (leastSpan n) with
    | none => rfl
    | some b =>
      obtain ⟨v, hv, ha, -, hle⟩ := hs.firstFit_some hf
      exact absurd ⟨v, hv, ha, hle⟩ hfull

/-- **The four ends of an allocation.** -/
theorem exists_allotted (hs : h.Shows o) (n : Nat) :
    ∃ answer h', (h.allocate n).outcome = .ok (answer, h') ∧
      h.Allotted o.blocks n answer h' := by
  by_cases hlarge : TooLarge n
  · have hok := allocateBlock_overflow h (blockSizeFor?_of_tooLarge hlarge)
    exact ⟨_, _, allocate_of_allocateBlock hok hs, .tooLarge hlarge⟩
  · have hn := blockSizeFor?_of_not_tooLarge hlarge
    cases hf : o.firstFit (leastSpan n) with
    | some b =>
      obtain ⟨a, hok, -, hserved⟩ := allocateBlock_fit hs hn hf
      obtain ⟨v, hv, ha, -, hle⟩ := hs.firstFit_some hf
      exact ⟨_, _, allocate_of_allocateBlock hok hserved.shows,
        .fitted hlarge ⟨v, hv, ha, hle⟩ (continues_withArena h a)⟩
    | none =>
      have hfull := hs.firstFit_eq_none_iff.mp hf
      by_cases hg : h.provider.Grants (max (leastSpan n) h.config.chunk)
      · obtain ⟨h', hok, hcontinues, -, hserved⟩ := allocateBlock_grow hs hn hf rfl hg
        have hgrants : ¬ h.provider.Refuses (max (leastSpan n) h.config.chunk) :=
          fun hr => Provider.refuses_iff.mp hr hg
        exact ⟨_, _, allocate_of_allocateBlock hok hserved.shows,
          .grown hlarge hfull hgrants hcontinues⟩
      · have hok := allocateBlock_refused hs hn hf hg
        exact ⟨_, _, allocate_of_allocateBlock hok hs.afterRefusal,
          .refused hlarge hfull (Provider.refuses_iff.mpr hg)⟩

/-- **An allocation fails exactly if there is a reason to.** -/
theorem Shows.allocate_failsExactlyIf (hs : h.Shows o) (n : Nat) :
    FailsExactlyIf (h.allocate n) n (h.NoMemoryFor o.blocks n) := by
  obtain ⟨answer, h', hok, hend⟩ := exists_allotted hs n
  refine ⟨⟨answer, h', hok⟩, ?_, fun he => (allocate_error he).1⟩
  cases hend with
  | tooLarge hlarge => exact iff_of_true ⟨_, _, hok⟩ (.inl hlarge)
  | fitted hsmall hfits =>
    refine iff_of_false (not_fails hok) ?_
    rintro (hlarge | ⟨hfull, -⟩)
    · exact hsmall hlarge
    · exact hfull hfits
  | refused hsmall hfull hrefuses => exact iff_of_true ⟨_, _, hok⟩ (.inr ⟨hfull, hrefuses⟩)
  | grown hsmall hfull hgrants =>
    refine iff_of_false (not_fails hok) ?_
    rintro (hlarge | ⟨-, hrefuses⟩)
    · exact hsmall hlarge
    · exact hgrants hrefuses

/-- How often an allocation asks the provider: once if no free block fits, and not at all
if one does or if the size is beyond a word. -/
structure AsksOnlyIfFull (h : Heap) (blocks : List BlockView) (request : Nat) : Prop where
  once : ∀ {answer h'}, (h.allocate request).outcome = .ok (answer, h') →
    ¬ TooLarge request → ¬ Fits blocks request →
      h'.provider.requests = h.provider.requests + 1
  never : ∀ {answer h'}, (h.allocate request).outcome = .ok (answer, h') →
    TooLarge request ∨ Fits blocks request → h'.provider.requests = h.provider.requests

theorem Shows.asksOnlyIfFull (hs : h.Shows o) (n : Nat) : h.AsksOnlyIfFull o.blocks n := by
  obtain ⟨answer, h', hok, hend⟩ := exists_allotted hs n
  constructor
  · intro answer' h'' hok' hsmall hfull
    rw [hok] at hok'
    cases hok'
    cases hend with
    | tooLarge hlarge => exact absurd hlarge hsmall
    | fitted _ hfits => exact absurd hfits hfull
    | refused => rfl
    | grown _ _ _ hcontinues => rw [hcontinues.provider]
  · intro answer' h'' hok' hwhy
    rw [hok] at hok'
    cases hok'
    cases hend with
    | tooLarge => rfl
    | fitted _ _ hcontinues =>
      rw [hcontinues.provider]
      rfl
    | refused hsmall hfull => exact absurd hwhy (not_or_intro hsmall hfull)
    | grown hsmall hfull => exact absurd hwhy (not_or_intro hsmall hfull)

/-! ## Reallocating -/

/-- The block behind is free and makes up for what the block is short of. -/
def NextSuffices (size : Nat) (behind : List BlockView) (request : Nat) : Prop :=
  ∃ next ∈ behind.head?, next.allocated = false ∧ leastSpan request ≤ size + next.size

/-- What is read behind a block tells whether the block there makes up for it. -/
theorem nextSuffices_iff {b : Block} {size : Nat} :
    NextSuffices size (o.behind b) n ↔
      (o.tagBehind b).allocated = false ∧ leastSpan n ≤ size + (o.tagBehind b).size := by
  unfold NextSuffices Outline.tagBehind
  cases o.behind b with
  | nil => simp
  | cons next rest => simp [tag]

/-- **A block in use cannot be resized** exactly if the size is beyond a word, or the block is
too short, what lies behind does not make up for it, and it cannot be moved either. -/
theorem reallocate_fails_iff (hs : h.Shows o) (hv : v ∈ o.blocks) (ha : v.allocated = true)
    (hzero : n ≠ 0) :
    Fails (h.reallocate (some v.block) n) ↔ TooLarge n ∨
      v.size < leastSpan n ∧ ¬ NextSuffices v.size (o.behind v.block) n ∧ Fails (h.allocate n) := by
  by_cases hlarge : TooLarge n
  · have hok := reallocate_overflow hs hv ha hzero (blockSizeFor?_of_tooLarge hlarge)
    exact iff_of_true ⟨_, _, hok⟩ (.inl hlarge)
  · rw [or_iff_right hlarge]
    obtain ⟨answer, h', hok, hend⟩ :=
      exists_reallocate_settled hs hv ha hzero (blockSizeFor?_of_not_tooLarge hlarge)
    cases hend with
    | kept long =>
      exact iff_of_false (not_fails hok) fun hwhy => Nat.not_lt.mpr long hwhy.1
    | absorbed short enough =>
      exact iff_of_false (not_fails hok) fun hwhy => hwhy.2.1 (nextSuffices_iff.mpr enough)
    | moved short stuck allocated served =>
      have hallocate := allocate_of_allocateBlock allocated served.shows
      exact iff_of_false (not_fails hok) fun hwhy => not_fails hallocate hwhy.2.2
    | refused short stuck allocated error_eq unserved =>
      have hallocate := allocate_of_allocateBlock allocated (unserved.shows hs)
      exact iff_of_true ⟨_, _, hok⟩ ⟨short, mt nextSuffices_iff.mp stuck, _, _, hallocate⟩

theorem Shows.reallocate_failsExactlyIf (hs : h.Shows o) (hv : v ∈ o.blocks)
    (ha : v.allocated = true) (hzero : n ≠ 0) :
    FailsExactlyIf (h.reallocate (some v.block) n) n (TooLarge n ∨ v.size < leastSpan n ∧
      ¬ NextSuffices v.size (o.behind v.block) n ∧ Fails (h.allocate n)) := by
  obtain ⟨answer, h', hok, -⟩ := exists_reallocate hs hv ha n
  refine ⟨⟨answer, h', hok⟩, reallocate_fails_iff hs hv ha hzero, ?_⟩
  intro e h'' he
  exact reallocate_of_verdict_ok hs (hs.verdict_allocated hv ha) he

end Heap

/-! ## After any calls -/

namespace Session

variable {s s₀ : Session} {o : Outline} {p : Provider} {config : Config}

/-- Memory is reported to be out exactly when it is: on allocating, and on reallocating what is
live, for every size. -/
structure ReportsExhaustion (s : Session) (blocks : List BlockView) : Prop where
  allocate : ∀ n, Heap.FailsExactlyIf (s.heap.allocate n) n (s.heap.NoMemoryFor blocks n)
  asks : ∀ n, s.heap.AsksOnlyIfFull blocks n
  reallocate : ∀ b ∈ s.handles, ∃ front v behind, blocks = front ++ v :: behind ∧ v.block = b ∧
    ∀ n, n ≠ 0 → Heap.FailsExactlyIf (s.heap.reallocate (some b) n) n
      (TooLarge n ∨ v.size < leastSpan n ∧ ¬ Heap.NextSuffices v.size behind n ∧
        Heap.Fails (s.heap.allocate n))

theorem Shows.reportsExhaustion (hs : s.Shows o) : s.ReportsExhaustion o.blocks where
  allocate n := hs.heap.allocate_failsExactlyIf n
  asks n := hs.heap.asksOnlyIfFull n
  reallocate b hb := by
    obtain ⟨v, hv, ha, rfl⟩ := hs.exists_inUse hb
    exact ⟨_, v, _, Outline.blocks_eq hs.heap.sound.laid.tiling hv, rfl,
      fun n hzero => hs.heap.reallocate_failsExactlyIf hv ha hzero⟩

/-- **Memory is reported to be out exactly when it must be,** after any calls. -/
theorem run_reports_exhaustion (hp : p.Valid) (hok : (start p config).outcome = .ok (.ok s₀))
    (calls : List Call) :
    ∃ answers s blocks, (s₀.run calls).outcome = .ok (answers, s) ∧
      s.heap.blocks = .ok blocks ∧ s.ReportsExhaustion blocks := by
  obtain ⟨answers, s, o, hrun, hs⟩ := exists_run (start_shows hp hok) calls
  exact ⟨answers, s, o.blocks, hrun, hs.heap.blocks_shown, hs.reportsExhaustion⟩

theorem run_reports_exhaustion_page :
    ∃ s₀, (start (.buffer 4096) .default).outcome = .ok (.ok s₀) ∧
      ∀ calls, ∃ answers s blocks, (s₀.run calls).outcome = .ok (answers, s) ∧
        s.heap.blocks = .ok blocks ∧ s.ReportsExhaustion blocks := by
  obtain ⟨hp, s₀, hok⟩ := exists_start_page
  exact ⟨s₀, hok, run_reports_exhaustion hp hok⟩

/-- A heap that cannot grow: the only block is taken, so nothing more can be allocated, and
nothing moved; what the block has room for can still be had. -/
example : (reached (.buffer 64) .default
      [.allocate 8, .allocate 0, .reallocate 0 17, .reallocate 0 16]).map Prod.fst =
    some [.ok (some ⟨32⟩), .error (.outOfMemory 0), .error (.outOfMemory 17), .ok (some ⟨32⟩)] := by
  decide +kernel

end Session

end BoundaryTag
