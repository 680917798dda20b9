import BoundaryTag.Proofs.Allocating
import BoundaryTag.Proofs.Ceilings

/-!
# Building

A heap is built with a chunk that it can grow by, whatever chunk was asked for, and behind whatever
the provider holds: the next place that is aligned is found first, and the bytes before it stay as
they are.

> `Config.isLeast_normalized`, `Config.isGreatest_normalized`: the chunk of a heap is the least
> possible one that is not below the one that was asked for, and the greatest possible one if all
> are below it.
>
> `layOut_sound`: what is laid out behind the bytes that a provider holds is a sound
> arena with one free block.
>
> `build_granted`, `build_refused`: a heap is built exactly when the provider grants
> the memory for it.
>
> `built_of_build_ok`: whatever the provider held before, a heap that was built is one of these.
-/

namespace BoundaryTag

open BlockView (block tag Covers TagAt)
open Region (Changed Touched)

/-! ## Configurations -/

/-- The chunks that a heap can grow by are the sizes that a block can have. -/
def possibleChunks : Set Nat := {m | alignment ∣ m ∧ minBlockSize ≤ m ∧ m < Word.limit}

namespace Config

variable {c : Config}

/-- Normalizing rounds the chunk up, but to no less than the least block. -/
theorem normalized_chunk_eq (h : c.chunk + alignment ≤ Word.limit) :
    c.normalized.chunk = max (roundedUp alignment c.chunk) minBlockSize := by
  have hword := (roundedUp_lt_limit_iff c.chunk isPowerOfTwo_alignment alignment_lt_limit).mpr h
  show max ((align? c.chunk).getD _) minBlockSize = _
  rw [align?_eq, if_pos hword]
  rfl

/-- A chunk that cannot be rounded up becomes the last multiple of the alignment. -/
theorem normalized_chunk_of_lt (h : Word.limit < c.chunk + alignment) :
    c.normalized.chunk = Word.limit - alignment := by
  show max ((align? c.chunk).getD (Word.limit - alignment)) minBlockSize = _
  rw [align?_eq_none_iff.mpr h]
  apply Nat.max_eq_left
  rw [Word.limit_eq]
  decide

/-- **The chunk of a normalized configuration** is the least possible one that is not below the
one that was asked for. -/
theorem isLeast_normalized (h : c.chunk + alignment ≤ Word.limit) :
    IsLeast {m | m ∈ possibleChunks ∧ c.chunk ≤ m} c.normalized.chunk := by
  have hword := (roundedUp_lt_limit_iff c.chunk isPowerOfTwo_alignment alignment_lt_limit).mpr h
  obtain ⟨⟨hdvd, hle⟩, hleast⟩ := isLeast_roundedUp c.chunk (show 0 < alignment by decide)
  rw [normalized_chunk_eq h]
  refine ⟨⟨⟨?_, Nat.le_max_right .., ?_⟩, ?_⟩, ?_⟩
  · rcases Nat.le_total (roundedUp alignment c.chunk) minBlockSize with hmax | hmax
    · rw [Nat.max_eq_right hmax]
      decide
    · rwa [Nat.max_eq_left hmax]
  · exact Nat.max_lt.mpr ⟨hword, Word.lt_limit (by decide)⟩
  · exact Nat.le_trans hle (Nat.le_max_left ..)
  · intro m hm
    obtain ⟨⟨hdvd', hmin, -⟩, hle'⟩ := hm
    exact Nat.max_le.mpr ⟨hleast ⟨hdvd', hle'⟩, hmin⟩

/-- **Where no possible chunk is that long,** it is the greatest possible one. -/
theorem isGreatest_normalized (h : Word.limit < c.chunk + alignment) :
    IsGreatest possibleChunks c.normalized.chunk := by
  have hdvd : alignment ∣ Word.limit := dvd_limit isPowerOfTwo_alignment alignment_lt_limit
  rw [normalized_chunk_of_lt h]
  refine ⟨⟨Nat.dvd_sub hdvd (Nat.dvd_refl _), ?_, ?_⟩, ?_⟩
  · rw [Word.limit_eq]
    decide
  · have hpos : 0 < Word.limit := Nat.lt_trans (show 0 < alignment by decide) alignment_lt_limit
    exact Nat.sub_lt hpos (by decide)
  · intro m hm
    obtain ⟨hm8, -, hlt⟩ := hm
    -- between two multiples of the alignment lies a whole unit
    simp only [alignment] at hm8 hdvd ⊢
    omega

theorem normalized_mem (c : Config) : c.normalized.chunk ∈ possibleChunks := by
  by_cases h : c.chunk + alignment ≤ Word.limit
  · exact (isLeast_normalized h).1.1
  · exact (isGreatest_normalized (Nat.lt_of_not_le h)).1

/-- A chunk makes a block. -/
theorem chunk_normalized (c : Config) : 32 ≤ c.normalized.chunk ∧ c.normalized.chunk % 8 = 0 := by
  obtain ⟨hdvd, hmin, -⟩ := normalized_mem c
  exact ⟨hmin, Nat.mod_eq_zero_of_dvd hdvd⟩

/-- A possible chunk is kept as it is. -/
theorem normalized_of_mem (h : c.chunk ∈ possibleChunks) : c.normalized = c := by
  have hsum : c.chunk + alignment ≤ Word.limit := by
    obtain ⟨k, hk⟩ := h.1
    have hdvd : alignment ∣ Word.limit := dvd_limit isPowerOfTwo_alignment alignment_lt_limit
    have hlt := h.2.2
    simp only [alignment] at *
    omega
  have hself : IsLeast {m | m ∈ possibleChunks ∧ c.chunk ≤ m} c.chunk :=
    ⟨⟨h, Nat.le_refl _⟩, fun m hm => hm.2⟩
  have hchunk : c.normalized.chunk = c.chunk := (isLeast_normalized hsum).unique hself
  show Config.mk c.normalized.chunk c.checks = c
  rw [hchunk]

/-- A chunk of 1000 bytes is a block's size already, one of 1001 is rounded up, and one of none
becomes the least block. -/
example : [1000, 1001, 0].map (fun chunk => (Config.mk chunk false).normalized.chunk) =
    [1000, 1008, 32] := by
  decide +kernel

end Config

/-! ## The first blocks -/

namespace Heap

/-- **Laying out.** Prologue, one free block and epilogue fill a stretch of 64 bytes at
the end of a region, from an aligned place on. -/
theorem layOut_sound {r : Region} {start : Nat} (h8 : start % 8 = 0)
    (hr : r.size = start + 64) (hsmall : r.size < Word.limit) :
    ∃ a, (layOut r start).outcome = .ok (⟨start + 16⟩, ⟨start + 32⟩, a) ∧
      a.Shows (start + 32) ⟨[⟨start + 32, 32, false⟩], [⟨start + 32⟩]⟩ ∧
      a.region.size = r.size ∧ (∀ j, j < start → a.region.byte j = r.byte j) ∧
      ∀ q, start + 24 ≤ q → a.region.Marked q → q + 8 = r.size ∨ r.Marked q := by
  obtain ⟨r₁, hmark₁, ht₁⟩ := Region.exists_tagged (r := r) ⟨start + 16, 16, true⟩
    (show 8 ≤ start + 16 by omega) (show (start + 16) % 8 = 0 by omega) (Nat.le_refl 16)
    (show 16 % 8 = 0 by omega) (show start + 16 + 16 ≤ _ by omega) hsmall
  have hsize₁ : r₁.size = r.size := ht₁.changed.size_eq
  obtain ⟨r₂, s, hmark₂, hnext, hepilogue, he⟩ := Region.exists_ended (r := r₁)
    ⟨start + 32, 32, false⟩ rfl (show 8 ≤ start + 32 by omega) (show (start + 32) % 8 = 0 by omega)
    (show 16 ≤ 32 by omega) (show 32 % 8 = 0 by omega) (show start + 32 + 32 = _ by omega)
    (by omega)
  have hsize : s.size = r.size := he.changed.size_eq.trans hsize₁
  -- the prologue lies before all that is written after it
  have hprologue : s.Framed ⟨start + 16, 16, true⟩ :=
    ht₁.framed.of_changed he.changed (fun j h₁ h₂ hj => by dsimp only at *; omega)
      fun j h₁ h₂ hj => by dsimp only at *; omega
  have hbut : (⟨s, .empty⟩ : Arena).SoundBut (some (start + 32)) (start + 32)
      ([] ++ ⟨start + 32, 32, true⟩ :: []) [] := by
    refine ⟨⟨⟨by omega, by omega, show s.size < _ by omega, hprologue, he.epilogue⟩,
      ⟨rfl, Nat.le_refl _, show 32 % 8 = 0 by omega, show start + 32 + 32 = s.size by omega⟩,
      fun v hv hne => ?_⟩,
      ⟨rfl, rfl, trivial⟩, .refl _, .singleton _⟩
    rw [List.mem_singleton.mp hv] at hne
    exact absurd rfl hne
  obtain ⟨a, hok, hsound, hrel⟩ := hbut.push he.framed nofun nofun
  refine ⟨a, ?_, hsound, hrel.changed.size_eq.trans hsize, ?_, ?_⟩
  · have htag₁ : Block.tag ⟨start + 16⟩ r₁ = .ok ⟨16, true⟩ :=
      Block.tag_eq (show 8 ≤ start + 16 by omega) (show start + 16 ≤ _ by omega) (by omega)
        (show 16 % 8 = 0 by omega) ht₁.framed.header
    unfold layOut
    simp only [Traced.outcome_bind, Traced.outcome_lift, Traced.outcome_pure]
    refine bind_ok_iff.mpr ⟨_, Word.add_ok (show start + 16 < _ by omega), ?_⟩
    refine bind_ok_iff.mpr ⟨r₁, hmark₁, ?_⟩
    refine bind_ok_iff.mpr ⟨_, Block.following_eq htag₁ (show start + 16 + 16 < _ by omega), ?_⟩
    refine bind_ok_iff.mpr ⟨r₂, hmark₂, bind_ok_iff.mpr ⟨_, hnext, ?_⟩⟩
    exact bind_ok_iff.mpr ⟨s, hepilogue, bind_ok_iff.mpr ⟨a, hok, rfl⟩⟩
  · intro j hj
    have hout : ¬ InLinks [⟨start + 32⟩] j := by
      rintro ⟨b, hb, hle, -⟩
      rw [List.mem_singleton.mp hb] at hle
      dsimp only at hle
      omega
    rw [hrel.changed.byte_eq j hout, he.changed.byte_eq j (by dsimp only; omega),
      ht₁.changed.byte_eq j (by simp only [Covers]; omega)]
  · intro q hlow hq
    rcases he.marked q (hrel.marked hsound.scattered.aligned q hq) with hlast | ⟨-, hq⟩
    · exact .inl (hlast.trans hsize)
    · rcases ht₁.marked q hq with ⟨-, he | he⟩ | ⟨-, -, hold⟩
      · dsimp only at he
        omega
      · dsimp only at he
        omega
      · exact .inr hold

/-! ## Building -/

/-- Bytes past the end make no odd word. -/
theorem not_marked_of_size_le {r : Region} {q : Nat} (hq : r.size ≤ q) : ¬ r.Marked q := by
  have hzero : ∀ i, i < 8 → r.byte (q + i) = Region.digit 0 i := by
    intro i _
    have hout : ¬ q + i < r.bytes.size := Nat.not_lt.mpr (Nat.le_trans hq (Nat.le_add_right ..))
    rw [Region.byte, dif_neg hout, Region.digit, Nat.zero_div]
    rfl
  rintro ⟨-, hodd⟩
  rw [Region.word, wordSize, Region.number_of_digits hzero, Nat.zero_mod] at hodd
  cases hodd

/-- Where a heap begins that is built behind `held` bytes. -/
def startBehind (held : Nat) : Nat := (held + 7) / 8 * 8

/-- The bytes that are requested to build a heap: padding, and the heap proper. -/
def bytesToBuild (held : Nat) : Nat := startBehind held - held + 64

variable {p : Provider}

/-- The heap that is built on a provider, before it is checked. -/
structure Built (p : Provider) (config : Config) (h : Heap) : Prop where
  shows : h.Shows ⟨[⟨h.firstBlock.offset, 32, false⟩], [h.firstBlock]⟩
  firstBlock_eq : h.firstBlock.offset = startBehind p.region.size + 32
  size_eq : h.size = startBehind p.region.size + 64
  provider_eq : h.provider = { p with requests := p.requests + 1, region := h.region }
  config_eq : h.config = config.normalized
  extensions_eq : h.extensions = 0
  byte_eq : ∀ j, j < startBehind p.region.size → h.region.byte j = p.region.byte j
  marked : ∀ q, h.firstBlock.offset ≤ q + 8 → h.region.Marked q → q + 8 = h.size

/-- How far a build comes before it asks for memory. -/
theorem build_outcome (hsize : p.region.size + 8 < Word.limit) (config : Config) :
    (build p config).outcome = (p.extend (bytesToBuild p.region.size)).outcome >>= fun asked =>
      match asked with
      | (.error cause, _) => .ok (.error (.initFailed cause))
      | (.ok base, q) => Word.add base (startBehind p.region.size - p.region.size) >>= fun start =>
        (layOut q.region start).outcome >>= fun laid =>
          let heap : Heap := ⟨{ q with region := laid.2.2.region }, config.normalized, laid.1,
            laid.2.2.freeList, 0⟩
          (heap.selfCheck "init").outcome >>= fun _ => .ok (.ok heap) := by
  have hpadding : Word.sub ((p.region.size + 7) / 8 * 8) p.region.size =
      .ok (startBehind p.region.size - p.region.size) := Word.sub_ok (by omega)
  have hbytes : Word.add (startBehind p.region.size - p.region.size) initialSize =
      .ok (bytesToBuild p.region.size) := by
    apply Word.add_ok
    rw [Word.limit_eq] at *
    simp only [startBehind, initialSize]
    omega
  unfold build
  simp only [Traced.outcome_bind, Traced.outcome_lift]
  rw [bind_of_ok (align_eq hsize), bind_of_ok hpadding, bind_of_ok hbytes]
  refine congrArg _ (funext fun asked => ?_)
  obtain ⟨granted, q⟩ := asked
  cases granted with
  | error cause => rfl
  | ok base =>
    simp only [Traced.outcome_bind, Traced.outcome_lift, Traced.outcome_pure,
      Traced.outcome_emit]
    rfl

/-- **A heap is built** when the provider grants the memory for it. -/
theorem build_granted (hp : p.Valid) (hsize : p.region.size + 8 < Word.limit) (config : Config)
    (hg : p.Grants (bytesToBuild p.region.size)) :
    ∃ h, (build p config).outcome = .ok (.ok h) ∧ Built p config h := by
  have hvalid := hp.grow hg
  have hin := hvalid.within
  have hword := hvalid.word
  dsimp only at hin hword
  have hstart : startBehind p.region.size = (p.region.size + 7) / 8 * 8 := rfl
  have hbytes : bytesToBuild p.region.size = startBehind p.region.size - p.region.size + 64 := rfl
  have hgrown : (p.region.grow (bytesToBuild p.region.size)).size =
      startBehind p.region.size + 64 := by
    rw [Region.size_grow]
    omega
  have h8 : startBehind p.region.size % 8 = 0 := by omega
  obtain ⟨a, hok, hshown, hasize, hlow, hmarked⟩ := layOut_sound h8 hgrown (by omega)
  let h : Heap := ⟨{ p with requests := p.requests + 1, region := a.region }, config.normalized,
    ⟨startBehind p.region.size + 16⟩, a.freeList, 0⟩
  have hshows : h.Shows ⟨[⟨h.firstBlock.offset, 32, false⟩], [h.firstBlock]⟩ := by
    refine ⟨hshown, ⟨?_, hp.word, hp.honest⟩, config.chunk_normalized, Nat.zero_le _⟩
    show a.region.size ≤ p.capacity
    omega
  refine ⟨h, ?_, hshows, rfl, hasize.trans hgrown, rfl, rfl, rfl, ?_, ?_⟩
  · have hadd : Word.add p.region.size (startBehind p.region.size - p.region.size) =
        .ok (startBehind p.region.size) := by
      rw [Word.add_ok (by omega)]
      congr 1
      omega
    rw [build_outcome hsize, bind_of_ok (Provider.extend_granted hg)]
    dsimp only
    rw [bind_of_ok hadd, bind_of_ok hok]
    exact bind_ok_iff.mpr ⟨(), hshows.selfCheck "init", rfl⟩
  · intro j hj
    exact (hlow j hj).trans (Region.byte_grow ..)
  · intro q hq hodd
    have hfirst : h.firstBlock.offset = startBehind p.region.size + 32 := rfl
    rcases hmarked q (by omega) hodd with he | ⟨hq8, hold⟩
    · exact he.trans hasize.symm
    · rw [Region.word_grow] at hold
      exact absurd ⟨hq8, hold⟩ (not_marked_of_size_le (r := p.region) (by omega))

/-- **No heap is built** when it does not. -/
theorem build_refused (hsize : p.region.size + 8 < Word.limit) (config : Config)
    (hg : ¬ p.Grants (bytesToBuild p.region.size)) :
    ∃ cause, (build p config).outcome = .ok (.error (.initFailed cause)) := by
  obtain ⟨cause, hext⟩ := Provider.extend_refused hg
  refine ⟨cause, ?_⟩
  rw [build_outcome hsize, bind_of_ok hext]

/-- A provider on which a heap was built did not hold too much for it. -/
theorem size_lt_of_build_ok {config : Config} {h : Heap}
    (hok : (build p config).outcome = .ok (.ok h)) : p.region.size + 8 < Word.limit := by
  unfold build at hok
  simp only [Traced.outcome_bind, Traced.outcome_lift] at hok
  obtain ⟨aligned, halign, -⟩ := bind_ok_iff.mp hok
  unfold align alignTo at halign
  obtain ⟨sum, hsum, -⟩ := bind_ok_iff.mp halign
  exact (Word.add_ok_iff.mp hsum).1

/-- **Every heap that is built** was granted its memory. -/
theorem built_of_build_ok (hp : p.Valid) {config : Config} {h : Heap}
    (hok : (build p config).outcome = .ok (.ok h)) : Built p config h := by
  have hsize := size_lt_of_build_ok hok
  -- the same build, by the lemma that fits what the provider did
  by_cases hg : p.Grants (bytesToBuild p.region.size)
  · obtain ⟨h', hok', hbuilt⟩ := build_granted hp hsize config hg
    rw [hok'] at hok
    cases hok
    exact hbuilt
  · obtain ⟨cause, hok'⟩ := build_refused hsize config hg
    rw [hok'] at hok
    cases hok

end Heap

end BoundaryTag
