import PoolAlloc.Heap.Requests
/-!
# PoolAlloc.Backend.Basic

What an allocator has to offer to stand behind others, and the heap as such a backend.
-/

namespace PoolAlloc

/-- A supplier of memory. -/
class Backend (β : Type) where
  /-- Prepare for use. -/
  init : Action β Unit
  /-- Take in `len` bytes at `start`. -/
  addBlock (start len : Nat) : Action β Unit
  /-- Grant `size` bytes. -/
  alloc (size : Nat) : Action β (Option Nat)
  /-- Take back a block; no pointer is no block. -/
  free (ptr : Option Nat) : Action β Unit

instance : Backend Heap where
  init := Heap.init
  addBlock start len := do let _ ← Heap.addBlock start len
  alloc := Heap.malloc
  free := Heap.free

/-- A backend without memory: every operation breaks off. -/
structure Unsupported

namespace Unsupported

instance : Shown Unsupported where
  doc _ := .record "Unsupported" [] false

instance : Backend Unsupported where
  init := Action.panic .unsupported
  addBlock _ _ := Action.panic .unsupported
  alloc _ := Action.panic .unsupported
  free _ := Action.panic .unsupported

end Unsupported

end PoolAlloc
