import PoolAlloc.Heap.Requests
/-!
# PoolAlloc.Heap.ByLayout

Requests that say with every block which size and alignment it has.
-/

namespace PoolAlloc

/-- One past the largest size that a layout may have once it is rounded up to its alignment. -/
def layoutLimit : Nat := 0x8000000000000000

/-- The size and alignment of a block. -/
structure Layout where
  /-- The size. -/
  size : Nat
  /-- The alignment. -/
  align : Nat
  /-- The alignment is a power of two. -/
  isAlignment : IsAlignment align
  /-- The size keeps its distance from the limit, rounded up as well. -/
  fits : size + align ≤ layoutLimit

namespace Layout

/-- The layout of a size and an alignment, if they make one. -/
def make? (size align : Nat) : Option Layout :=
  if h : IsAlignment align ∧ size + align ≤ layoutLimit then
    some ⟨size, align, h.1, h.2⟩
  else
    none

end Layout

namespace Heap

/-- Grant a block of a layout. -/
def allocLayout (layout : Layout) : Action Heap (Option Nat) :=
  alignedMalloc layout.align layout.size

/-- Grant a block of a layout, all zero. -/
def allocLayoutZeroed (layout : Layout) : Action Heap (Option Nat) := do
  cleared layout.size (← allocLayout layout)

/-- Take back a block; its layout is not needed. -/
def freeLayout (ptr : Nat) (_layout : Layout) : Action Heap Unit := free (some ptr)

/-- Give a block of a layout room for `newSize` bytes at the same alignment. -/
def reallocLayout (ptr : Nat) (layout : Layout) (newSize : Nat) : Action Heap (Option Nat) :=
  alignedRealloc ptr layout.align newSize

end Heap

end PoolAlloc
