import PoolAlloc.AllocError
import PoolAlloc.Backend.Gated
import PoolAlloc.Backend.OffsetAligned
import PoolAlloc.Backend.Probe
import PoolAlloc.FreeList.Display
import PoolAlloc.FreeList.Linked
import PoolAlloc.FreeList.Requests
import PoolAlloc.Heap.ByLayout
import PoolAlloc.Heap.CInterface
import PoolAlloc.Proofs.Blocks
import PoolAlloc.Proofs.Headers
import PoolAlloc.Proofs.Linking
import PoolAlloc.Proofs.Merging
import PoolAlloc.Proofs.Runs
import PoolAlloc.Proofs.Placement
import PoolAlloc.Proofs.Slack
import PoolAlloc.Proofs.Granting
import PoolAlloc.Proofs.Requests
import PoolAlloc.Proofs.Session
import PoolAlloc.Proofs.Calls
import PoolAlloc.Proofs.Soundness
import PoolAlloc.Proofs.FirstFit
import PoolAlloc.Proofs.Capacity
import PoolAlloc.Proofs.Isolation
import PoolAlloc.Proofs.Tiling
import PoolAlloc.Proofs.Confluence
import PoolAlloc.Proofs.Walking
import PoolAlloc.Proofs.HeapSession
import PoolAlloc.Proofs.Aligning
import PoolAlloc.Proofs.Refusal
import PoolAlloc.Proofs.Faultless
import PoolAlloc.Proofs.Waste
import PoolAlloc.Proofs.LockDiscipline
import PoolAlloc.Proofs.Admission
import PoolAlloc.Proofs.Resizing
import PoolAlloc.Proofs.ResizeOutcome
import PoolAlloc.Proofs.EarlyRefusal
import PoolAlloc.Proofs.Layouts
import PoolAlloc.Proofs.PlatformAlignment
import PoolAlloc.Proofs.HeapBackends
import PoolAlloc.Proofs.StoredOffset
import PoolAlloc.Proofs.Classification
import PoolAlloc.Proofs.Totals
import PoolAlloc.Proofs.Registration
import PoolAlloc.Proofs.Zeroing
