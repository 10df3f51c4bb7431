import PoolAlloc.Backend.Basic
/-!
# PoolAlloc.Backend.OffsetAligned

Aligned blocks from a backend that knows no alignment.

Design points:

* **More is asked for than is needed**, and the payload goes to the first multiple of the
  alignment that leaves two bytes in front of it.
* **The two bytes in front hold the distance to the backend's block**, little-endian, so that the
  block can be given back. An alignment for which the distance may not fit in two bytes is
  refused.
-/

namespace PoolAlloc

/-- A backend together with the means to align its blocks. -/
structure OffsetAligned (β : Type) where
  /-- The backend. -/
  backend : β

namespace OffsetAligned

variable {β α : Type}

instance [Shown β] : Shown (OffsetAligned β) where
  doc o := .record "OffsetAligned" [("backend", Shown.doc o.backend)] false

/-- The number of bytes in which a distance is stored. -/
def offsetSize : Nat := 2

/-- The largest distance that can be stored. -/
def offsetLimit : Nat := Memory.numberLimit offsetSize - 1

/-- The largest distance from a block to a payload at a multiple of `align`. -/
def maxOffset (align : Nat) : Nat := offsetSize + (align - 1)

/-- The distance that is stored in front of a payload. -/
def storedOffset (m : Memory) (ptr : Nat) : Nat := m.readNat (ptr - offsetSize) offsetSize

/-- Store a distance in front of a payload. -/
def storeOffset (m : Memory) (ptr offset : Nat) : Memory :=
  m.writeNat (ptr - offsetSize) offsetSize offset

/-- The distance from a block to the payload in it at a multiple of `align`. -/
def offsetIn (block align : Nat) : Except Fault Nat := do
  let bound ← sum block (maxOffset align)
  let offset ← difference (roundDown bound align) block
  ensure (offsetSize ≤ offset ∧ offset ≤ maxOffset align) .offsetRange
  return offset

/-- Run an operation of the backend. -/
def onBackend (act : Action β α) : Action (OffsetAligned β) α :=
  Action.onPart OffsetAligned.backend (fun backend _ => { backend }) act

/-- Grant `size` bytes at a multiple of `align`. -/
def alignedAlloc [Backend β] (align size : Nat) : Action (OffsetAligned β) (Option Nat) := do
  if size = 0 ∨ ¬ IsAlignment align ∨ offsetLimit < maxOffset align then
    return none
  else
    match addChecked size (maxOffset align) with
    | none => return none
    | some enough =>
      match ← onBackend (Backend.alloc enough) with
      | none => return none
      | some block =>
        let offset ← Action.ofFault (offsetIn block align)
        Action.modifyMem (storeOffset · (block + offset) offset)
        return some (block + offset)

/-- Give the block of a payload back to the backend; no pointer is no block. -/
def alignedFree [Backend β] : Option Nat → Action (OffsetAligned β) Unit
  | none => pure ()
  | some ptr => do
    let offset := storedOffset (← get).mem ptr
    onBackend (Backend.free (some (ptr - offset)))

end OffsetAligned

end PoolAlloc
