import PoolAlloc.Heap.Requests
/-!
# PoolAlloc.Heap.CInterface

The allocation functions of C over one heap that is locked by hooks.

A null pointer is `none`. Where a function is not told an alignment, it asks for `minAlign`. A
resize asks for it only when the block has to move: a block that was granted at a smaller alignment
and has room enough stays where it is.
-/

namespace PoolAlloc

namespace CInterface

/-- The alignment to ask for where none is named, which is that of `malloc` on this platform. -/
def minAlign : Nat := 16

/-- The heap behind the functions before anything was handed to it. -/
def initialHeap : Heap := { lock := .hooks "Hooks" }

/-- Hand in memory; a null address is ignored. -/
def addBlock (addr : Option Nat) (size : Nat) : Action Heap Unit := do
  match addr with
  | none => return ()
  | some addr => let _ ← Heap.addBlock addr size

/-- Prepare the heap. -/
def init : Action Heap Unit := Heap.init

/-- Grant `size` bytes at a multiple of `align`. -/
def alignedMalloc (align size : Nat) : Action Heap (Option Nat) := Heap.alignedMalloc align size

/-- Take back a block that was granted at an alignment. -/
def alignedFree (ptr : Option Nat) : Action Heap Unit := Heap.alignedFree ptr

/-- Grant `size` bytes. -/
def malloc (size : Nat) : Action Heap (Option Nat) := alignedMalloc minAlign size

/-- Take back a block. -/
def free (ptr : Option Nat) : Action Heap Unit := Heap.free ptr

/-- Grant `number` times `size` bytes, all zero. -/
def calloc (number size : Nat) : Action Heap (Option Nat) := do
  match mulChecked number size with
  | none => return none
  | some len => Heap.cleared len (← Heap.alignedMalloc minAlign len)

/-- Give a block room for `size` bytes. Without a block this grants one; a size of zero takes the
block back. -/
def realloc (ptr : Option Nat) (size : Nat) : Action Heap (Option Nat) := do
  match ptr with
  | none => malloc size
  | some ptr =>
    if size = 0 then
      free (some ptr)
      return none
    else
      Heap.alignedRealloc ptr minAlign size

/-- Grant `size` bytes at a multiple of `alignment`. Answers an error number, zero for success, and
what the caller's pointer is overwritten with. -/
def posixMemalign (alignment size : Nat) : Action Heap (Nat × Option Nat) :=
  Heap.posixMemalign alignment size

/-- Grant `size` bytes at a multiple of `alignment`. -/
def memalign (alignment size : Nat) : Action Heap (Option Nat) := alignedMalloc alignment size

/-- Grant `size` bytes at a multiple of `alignment`. -/
def alignedAlloc (alignment size : Nat) : Action Heap (Option Nat) :=
  alignedMalloc alignment size

/-- The payload size of a block; without a block, zero. -/
def usableSize (ptr : Option Nat) : Action Heap Nat := Heap.usableSize ptr

end CInterface

end PoolAlloc
