import BoundaryTag.Proofs.Ceilings

/-!
# Providers and their answers

A heap relies on its provider for no more than that the region stays within a capacity that is a
word and that the bounds are reported as they are (`Provider.Valid`). Every buffer is such a
provider, and so is every reservation. Of the host behind a reservation nothing is assumed but
what its documentation says of pages: a page is a power of two bytes (`Host.Documented`). Which
reservations it makes is for the host to say.

> `reserve_ok_iff`: when a reservation is made, and of how many bytes.
>
> `valid_buffer`, `valid_reserve`: both kinds of provider are valid from the start. Both are steady
> as well (`steady_buffer`, `steady_reserve`).
>
> `extend_granted`, `extend_refused`: the two ways in which a request for more memory ends.
-/

namespace BoundaryTag

/-- A provider whose region is within its capacity, whose capacity is a word, and which
reports the true bounds of its region. -/
structure Provider.Valid (p : Provider) : Prop where
  within : p.region.size ≤ p.capacity
  word : p.capacity < Word.limit
  honest : p.claimedLow = none ∧ p.claimedHigh = none

/-- Whether the provider's next answer to a request for so many bytes is to grant it. -/
def Provider.Grants (p : Provider) (bytes : Nat) : Prop :=
  p.refusal (p.requests + 1) = none ∧ bytes ≤ p.remaining

instance (p : Provider) (bytes : Nat) : Decidable (p.Grants bytes) :=
  inferInstanceAs (Decidable (_ ∧ _))

/-- Whether the system refuses a request does not depend on how many came before. -/
def Provider.Steady (p : Provider) : Prop := ∀ i j, p.refusal i = p.refusal j

/-- What is documented of every host: the size of a page is a power of two, and a word. -/
structure Host.Documented (host : Host) : Prop where
  page : host.pageSize.isPowerOfTwo
  word : host.pageSize < Word.limit

/-- The usual host is as documented. -/
theorem Host.usual_documented : Host.usual.Documented := ⟨⟨12, rfl⟩, Word.lt_limit (by decide)⟩

namespace Provider

variable {p : Provider} {host : Host} {wanted bytes : Nat}

/-! ## How providers are made -/

/-- A buffer is valid whatever its limit is. -/
theorem valid_buffer {capacity : Nat} (h : capacity < Word.limit) : (buffer capacity).Valid :=
  ⟨Nat.zero_le _, h, rfl, rfl⟩

/-- **A reservation is made** of the least number of whole pages that is enough, if the host does
not deny it and this number and one more page are still a word. -/
theorem reserve_ok_iff (hh : host.Documented) :
    reserve host wanted = .ok (.ok p) ↔ max wanted 1 + host.pageSize < Word.limit ∧
      host.denies (roundedUp host.pageSize (max wanted 1)) = none ∧
      p = { buffer (roundedUp host.pageSize (max wanted 1)) with backing := .mapping } := by
  unfold reserve
  rw [bind_ok_iff]
  constructor
  · intro h
    obtain ⟨capacity, hcapacity, h⟩ := h
    obtain ⟨hsum, rfl⟩ := (alignTo_ok_iff hh.page).mp hcapacity
    cases hdenies : host.denies (roundedUp host.pageSize (max wanted 1)) with
    | some errno =>
      rw [hdenies] at h
      cases h
    | none =>
      rw [hdenies] at h
      cases h
      exact ⟨hsum, rfl, rfl⟩
  · intro h
    obtain ⟨hsum, hdenies, rfl⟩ := h
    refine ⟨_, (alignTo_ok_iff hh.page).mpr ⟨hsum, rfl⟩, ?_⟩
    rw [hdenies]
    rfl

/-- So is a reservation, whatever the host is. -/
theorem valid_reserve (hh : host.Documented) (h : reserve host wanted = .ok (.ok p)) :
    p.Valid := by
  obtain ⟨hsum, -, rfl⟩ := (reserve_ok_iff hh).mp h
  have hword := (roundedUp_lt_limit_iff (max wanted 1) hh.page hh.word).mpr (Nat.le_of_lt hsum)
  exact ⟨Nat.zero_le _, hword, rfl, rfl⟩

/-- A buffer is never refused anything by the system. -/
theorem steady_buffer (capacity : Nat) : (buffer capacity).Steady := by
  intro i j
  rfl

/-- Nor is a reservation, once it was made. -/
theorem steady_reserve (hh : host.Documented) (h : reserve host wanted = .ok (.ok p)) :
    p.Steady := by
  obtain ⟨-, -, rfl⟩ := (reserve_ok_iff hh).mp h
  intro i j
  rfl

/-! ## How they answer -/

/-- A request that is granted appends exactly the bytes that were asked for. -/
theorem extend_granted (h : p.Grants bytes) :
    (p.extend bytes).outcome = .ok (.ok p.region.size,
      { p with requests := p.requests + 1, region := p.region.grow bytes }) := by
  unfold extend
  simp only [h.1, if_neg (Nat.not_lt.mpr h.2)]
  rfl

/-- A request that is refused is counted, and nothing else comes of it. -/
theorem extend_refused (h : ¬ p.Grants bytes) :
    ∃ cause, (p.extend bytes).outcome =
      .ok (.error cause, { p with requests := p.requests + 1 }) := by
  unfold extend
  cases hr : p.refusal (p.requests + 1) with
  | some errno => exact ⟨.mapFailed errno, by simp only [hr]; rfl⟩
  | none =>
    have hlong : p.remaining < bytes := Nat.lt_of_not_le fun hle => h ⟨hr, hle⟩
    exact ⟨.exhausted bytes p.remaining, by simp only [hr, if_pos hlong]; rfl⟩

/-- Memory that is granted keeps a provider valid. -/
theorem Valid.grow (h : p.Valid) (hg : p.Grants bytes) :
    ({ p with requests := p.requests + 1, region := p.region.grow bytes } : Provider).Valid := by
  have hin := h.within
  have hrem := hg.2
  refine ⟨?_, h.word, h.honest⟩
  show (p.region.grow bytes).size ≤ p.capacity
  rw [Region.size_grow]
  unfold remaining at hrem
  omega

/-- So does a request that is answered in whatever way. -/
theorem Valid.extend {q : Provider} {granted : Except ProviderError Nat} (h : p.Valid)
    (hok : (p.extend bytes).outcome = .ok (granted, q)) : q.Valid := by
  by_cases hg : p.Grants bytes
  · rw [extend_granted hg] at hok
    cases hok
    exact h.grow hg
  · obtain ⟨cause, hrefused⟩ := extend_refused hg
    rw [hrefused] at hok
    cases hok
    exact ⟨h.within, h.word, h.honest⟩

end Provider

end BoundaryTag
