import BoundaryTag.Region
import BoundaryTag.Trace

/-!
# Providers of memory

A provider owns one region and grows it at its end, on request, up to a
capacity that was settled when the provider was made. Two backings differ in
how they are made: a buffer takes any limit, a mapping reserves whole pages at
once and can fail to. What the host of a mapping answers is none of this
library's business, so it is a parameter (`Host`); `usual` is one host.

> `extend_error`: a refused request changes nothing but the count of requests.

Notes on `MemoryProvider` and its two kinds, `VecProvider` and `MmapProvider`:
- `buffer` makes a `VecProvider`, `reserve` an `MmapProvider`. Both extend alike,
  the name of the backing in the log apart, so `extend` is one function.
- `low` and `high` are `heap_low` and `heap_high`, and `host.pageSize` and
  `host.denies` are the answers of `sysconf` and `mmap`.
- `claimedLow` and `claimedHigh` stand for a provider that overrides `heap_low`
  or `heap_high`, and `refusal` for one whose `extend` fails for reasons of its
  own, request by request. The two implementations do none of this.
- A reservation at the address zero counts as denied, with the error number zero.
- Addresses are not modelled: every place is an offset into the region.
-/

namespace BoundaryTag

/-- Why a provider gave no memory. -/
inductive ProviderError where
  /-- More bytes were requested than remain below the capacity. -/
  | exhausted (requested remaining : Nat)
  /-- The system refused the memory, for the reason with this number. -/
  | mapFailed (errno : Int)
deriving DecidableEq, Repr

def ProviderError.message : ProviderError → String
  | exhausted requested remaining =>
    s!"provider exhausted: requested {requested} bytes, {remaining} remaining"
  | mapFailed errno => s!"failed to map heap region (errno {errno})"

/-- What a provider's memory is made of. -/
inductive Backing where
  /-- A buffer that is enlarged as needed. -/
  | buffer
  /-- A stretch of address space, reserved as a whole. -/
  | mapping
deriving DecidableEq, Repr

/-- What the log calls the backing. -/
def Backing.name : Backing → String
  | buffer => "vec"
  | mapping => "mmap"

/-- A region together with the means to grow it. -/
structure Provider where
  backing : Backing
  /-- The most bytes the region may have. -/
  capacity : Nat
  region : Region
  /-- How often more memory was requested. -/
  requests : Nat
  /-- The error number with which the system refuses a request, by the
  request's number; the first one has number one. -/
  refusal : Nat → Option Int
  /-- The offset reported as the first valid byte, if not the true one. -/
  claimedLow : Option Nat
  /-- The offset reported as the last valid byte, if not the true one. -/
  claimedHigh : Option Nat

/-- The size of a page, where the host does not tell it. -/
def Provider.pageSize : Nat := 4096

/-- The answers of the host to a provider that reserves address space. -/
structure Host where
  /-- The size of a page, if the host tells it. -/
  pageSize? : Option Nat
  /-- The error number with which the host denies a reservation of so many bytes;
  `none` if it makes it. -/
  denies : Nat → Option Int

namespace Host

/-- The granularity of reservations. -/
def pageSize (host : Host) : Nat := host.pageSize?.getD Provider.pageSize

/-- The size of the address space that a program's own memory may occupy on the usual
host. The program itself lies in it, so a reservation of this size finds no room. -/
def addressSpace : Nat := Nat.pow 2 47

/-- The error number of a reservation that finds no room. -/
def noMemory : Int := 12

/-- A host with pages of 4 KiB that makes every reservation for which there are addresses. -/
def usual : Host where
  pageSize? := some 4096
  denies := fun bytes => if addressSpace ≤ bytes then some noMemory else none

end Host

namespace Provider

/-- The capacity of a provider for which none was chosen: 20 MiB. -/
def defaultCapacity : Nat := 20 * 1024 * 1024

/-- A provider over an empty buffer that may grow up to `capacity` bytes. -/
def buffer (capacity : Nat) : Provider where
  backing := .buffer
  capacity := capacity
  region := .empty
  requests := 0
  refusal := fun _ => none
  claimedLow := none
  claimedHigh := none

/-- A provider over a reservation of at least `wanted` bytes in whole pages of
the host, none of them in use yet. -/
def reserve (host : Host) (wanted : Nat) : Except Fault (Except ProviderError Provider) := do
  let capacity ← alignTo (max wanted 1) host.pageSize
  match host.denies capacity with
  | some errno => return .error (.mapFailed errno)
  | none => return .ok { buffer capacity with backing := .mapping }

/-- A reservation from the usual host. -/
def mapping (wanted : Nat) : Except Fault (Except ProviderError Provider) :=
  reserve .usual wanted

/-- The bytes that may still be requested. -/
def remaining (p : Provider) : Nat := p.capacity - p.region.size

/-- The offset of the first valid byte, as the provider reports it. -/
def low (p : Provider) : Nat := p.claimedLow.getD 0

/-- The offset of the last valid byte, as the provider reports it. -/
def high (p : Provider) : Nat := p.claimedHigh.getD (p.region.size - 1)

/-- Appends `bytes` zero bytes to the region and answers where they begin. -/
def extend (p : Provider) (bytes : Nat) : Traced (Except ProviderError Nat × Provider) :=
  let asked := { p with requests := p.requests + 1 }
  match p.refusal asked.requests with
  | some errno => return (.error (.mapFailed errno), asked)
  | none =>
    if p.remaining < bytes then do
      Traced.emit .debug
        s!"{p.backing.name} provider refused {bytes} bytes ({p.remaining} remaining)"
      return (.error (.exhausted bytes p.remaining), asked)
    else
      return (.ok p.region.size, { asked with region := p.region.grow bytes })

/-- A refused request changes nothing but the count of requests. -/
theorem extend_error {p q : Provider} {bytes : Nat} {e : ProviderError}
    (h : (p.extend bytes).outcome = .ok (.error e, q)) :
    q = { p with requests := p.requests + 1 } := by
  unfold extend at h
  dsimp only at h
  split at h
  · cases h; rfl
  · split at h
    · cases h; rfl
    · cases h

end Provider

end BoundaryTag
