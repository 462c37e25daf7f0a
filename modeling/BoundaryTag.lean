import BoundaryTag.Allocation
import BoundaryTag.Heap.Blocks
import BoundaryTag.Proofs.FreeList
import BoundaryTag.Proofs.FreeListRuns
import BoundaryTag.Proofs.Meets
import BoundaryTag.Proofs.Tiled
import BoundaryTag.Proofs.Laid
import BoundaryTag.Proofs.Coalesce
import BoundaryTag.Proofs.Extend
import BoundaryTag.Proofs.Scan
import BoundaryTag.Proofs.Report
import BoundaryTag.Proofs.Place
import BoundaryTag.Proofs.Serve
import BoundaryTag.Proofs.Release
import BoundaryTag.Proofs.Resize
import BoundaryTag.Proofs.Payload
import BoundaryTag.Proofs.Held
import BoundaryTag.Proofs.Step
import BoundaryTag.Proofs.Sessions
import BoundaryTag.Proofs.Made
import BoundaryTag.Proofs.Lasting
import BoundaryTag.Proofs.Freed
import BoundaryTag.Proofs.Totals
import BoundaryTag.Proofs.Faults
import BoundaryTag.Proofs.Audit
import BoundaryTag.Proofs.Clean
import BoundaryTag.Proofs.Corruption
import BoundaryTag.Proofs.Agree
import BoundaryTag.Proofs.Twins
import BoundaryTag.Proofs.Lockstep
import BoundaryTag.Proofs.Oversize
import BoundaryTag.Proofs.Ready
import BoundaryTag.Proofs.Steady
import BoundaryTag.Proofs.Observing
import BoundaryTag.Proofs.Figures
import BoundaryTag.Proofs.Ledger
import BoundaryTag.Proofs.Standing
import BoundaryTag.Proofs.Refusals
import BoundaryTag.Proofs.Allotment
import BoundaryTag.Proofs.Regrowth
import BoundaryTag.Proofs.Gaps
import BoundaryTag.Proofs.FreeOrder
import BoundaryTag.Proofs.Fittest
import BoundaryTag.Proofs.Undone
import BoundaryTag.Proofs.Spent
import BoundaryTag.Proofs.Stray
import BoundaryTag.Proofs.Unready
import BoundaryTag.Proofs.Anew
import BoundaryTag.Proofs.Relief
import BoundaryTag.Proofs.Reissued
import BoundaryTag.Proofs.Merging
import BoundaryTag.Proofs.Words
import BoundaryTag.Proofs.Chronicle
import BoundaryTag.Proofs.Honoured
import BoundaryTag.Proofs.Tenancy
import BoundaryTag.Proofs.Guarded
