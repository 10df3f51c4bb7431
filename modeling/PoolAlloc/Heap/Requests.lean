import PoolAlloc.AllocError
import PoolAlloc.Heap.Locking
/-!
# PoolAlloc.Heap.Requests

The requests a shared heap answers.

Design points:

* **What can be refused without the free list is refused without the lock.**
* **At most one locked section a request.** A request that is made of others calls them when it
  holds no lock; clearing and logging happen after the lock is let go.
-/

namespace PoolAlloc

namespace Heap

/-- Prepare the heap. The free list needs nothing, so this only leaves a record. -/
def init : Action Heap Unit := Action.emit (.log "heap initialized")

/-- The wording of a usable size that was added, or of its absence. -/
def addedText : Option Nat → String
  | some size => "Some(" ++ toString size ++ ")"
  | none => "None"

/-- The record of a region that was handed in. -/
def addBlockRecord (start len : Nat) (added : Option Nat) : String :=
  "add_block(" ++ hex start ++ ", " ++ toString len ++ ") added " ++ addedText added ++ " bytes"

/-- Take in the `len` bytes at `start`. Answers the usable size that was added. -/
def addBlock (start len : Nat) : Action Heap (Option Nat) := do
  let added ← locked (·.addRegion start len)
  Action.emit (.log (addBlockRecord start len added))
  return added

/-- Grant `size` bytes. -/
def malloc (size : Nat) : Action Heap (Option Nat) := do
  if size = 0 then
    return none
  else
    locked (·.allocate size)

/-- Take back a block; no pointer is no block. -/
def free : Option Nat → Action Heap Unit
  | none => pure ()
  | some ptr => locked fun l => do return ((), ← l.release ptr)

/-- Grant `size` bytes at a multiple of `align`, or say why not. -/
def tryAlignedMalloc (align size : Nat) : Action Heap (Except AllocError Nat) := do
  if size = 0 ∨ ¬ IsAlignment align then
    return .error .invalidArgument
  else
    match ← locked (·.allocateAligned align size) with
    | some ptr => return .ok ptr
    | none => return .error .outOfMemory

/-- Grant `size` bytes at a multiple of `align`. -/
def alignedMalloc (align size : Nat) : Action Heap (Option Nat) := do
  return (← tryAlignedMalloc align size).toOption

/-- Grant `size` bytes at a multiple of `align`: another name of `alignedMalloc`. -/
def memalign (align size : Nat) : Action Heap (Option Nat) := alignedMalloc align size

/-- Take back a block that was granted at an alignment; such blocks are like all others. -/
def alignedFree (ptr : Option Nat) : Action Heap Unit := free ptr

/-- Grant `size` bytes at a multiple of `align`. Answers an error number, zero for success, and the
pointer to store. -/
def posixMemalign (align size : Nat) : Action Heap (Nat × Option Nat) := do
  match ← tryAlignedMalloc align size with
  | .ok ptr => return (0, some ptr)
  | .error e => return (e.errno, none)

/-- Clear the first `len` bytes of a block that was just granted, if it was. -/
def cleared (len : Nat) : Option Nat → Action Heap (Option Nat)
  | none => pure none
  | some ptr => do
    Action.modifyMem (·.clear ptr len)
    return some ptr

/-- Grant `count` times `size` bytes, all zero. -/
def calloc (count size : Nat) : Action Heap (Option Nat) := do
  match mulChecked count size with
  | none => return none
  | some len => cleared len (← malloc len)

/-- Give a block room for `size` bytes at a multiple of `align`. -/
def alignedRealloc (ptr align size : Nat) : Action Heap (Option Nat) :=
  locked (·.resize ptr align size)

/-- Give a block room for `size` bytes. Without a block this grants one; a size of zero takes the
block back. -/
def realloc (ptr : Option Nat) (size : Nat) : Action Heap (Option Nat) := do
  match ptr with
  | none => malloc size
  | some ptr =>
    if size = 0 then
      free (some ptr)
      return none
    else
      alignedRealloc ptr granularity size

/-- The payload size of a block; without a block, zero. -/
def usableSize : Option Nat → Action Heap Nat
  | none => pure 0
  | some ptr => locked fun l => .ok (l.usableSize ptr, l)

/-- The totals over the free blocks. -/
def summary : Action Heap FreeList.Summary :=
  locked fun l => do return (← l.summary, l)

end Heap

end PoolAlloc
