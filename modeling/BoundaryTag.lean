import BoundaryTag.Numeral
import BoundaryTag.Fault
import BoundaryTag.Word
import BoundaryTag.Rounding
import BoundaryTag.Tag
import BoundaryTag.Region
import BoundaryTag.Block
import BoundaryTag.Trace
import BoundaryTag.Provider
import BoundaryTag.Arena.FreeList
import BoundaryTag.Arena.Coalesce
import BoundaryTag.Heap.Basic
import BoundaryTag.Heap.Walk
import BoundaryTag.Heap.Check
import BoundaryTag.Heap.Build
import BoundaryTag.Heap.Resolve
import BoundaryTag.Heap.Allocate
import BoundaryTag.Heap.Reallocate
import BoundaryTag.Heap.Operation
import BoundaryTag.Session
import BoundaryTag.Proofs.Change
import BoundaryTag.Proofs.Tiling
import BoundaryTag.Proofs.Links
import BoundaryTag.Proofs.Sound
import BoundaryTag.Proofs.Merging
import BoundaryTag.Proofs.Coalescing
import BoundaryTag.Proofs.Placing
import BoundaryTag.Proofs.Providers
import BoundaryTag.Proofs.Outline
import BoundaryTag.Proofs.Growing
import BoundaryTag.Proofs.Checking
import BoundaryTag.Proofs.Resolving
import BoundaryTag.Proofs.Allocating
import BoundaryTag.Proofs.Moving
import BoundaryTag.Proofs.Resizing
import BoundaryTag.Proofs.Building
import BoundaryTag.Proofs.Walking
import BoundaryTag.Proofs.Payloads
import BoundaryTag.Proofs.Sessions
import BoundaryTag.Proofs.Upkeep
import BoundaryTag.Proofs.Frame
import BoundaryTag.Proofs.Handles
import BoundaryTag.Proofs.Deciding
import BoundaryTag.Proofs.Damage
import BoundaryTag.Proofs.Fitting
import BoundaryTag.Proofs.Allocator
import BoundaryTag.Proofs.Refining
import BoundaryTag.Proofs.Likeness
import BoundaryTag.Proofs.Failures
import BoundaryTag.Proofs.Exhaustion
import BoundaryTag.Proofs.DeadHandles
import BoundaryTag.Proofs.Confluence
import BoundaryTag.Proofs.Tampering
import BoundaryTag.Proofs.Attempts
import BoundaryTag.Proofs.CheckSettings
import BoundaryTag.Proofs.Logging
import BoundaryTag.Proofs.SameOutline
import BoundaryTag.Proofs.Observations
import BoundaryTag.Proofs.Interchange
import BoundaryTag.Proofs.Preserving
import BoundaryTag.Proofs.Reusing
import BoundaryTag.Proofs.Undoing
import BoundaryTag.Proofs.Positions
import BoundaryTag.Proofs.Reporting
import BoundaryTag.Proofs.Idempotence
import BoundaryTag.Proofs.Locating
import BoundaryTag.Proofs.Straying
import BoundaryTag.Proofs.Ceilings
import BoundaryTag.Proofs.Chunks
import BoundaryTag.Proofs.Marking
import BoundaryTag.Proofs.Membership
import BoundaryTag.Proofs.Unlisted
