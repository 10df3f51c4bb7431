import PoolAlloc.FreeList.Placement
/-!
# PoolAlloc.FreeList.Requests

What a free list is asked to do: take in a region, grant, release and resize blocks.

Design points:

* **A refused request changes nothing.** Every test comes before the first write.
* **A granted block is described by its header alone.** `release` and `usableSize` take the payload
  address and find the rest in memory.
* **Shrinking is in place, growing moves.** The old block is released only after its contents were
  copied, so the new one never overlaps it.
-/

namespace PoolAlloc

namespace FreeList

/-- The usable size of a region: what is left of `len` bytes after rounding `start` up and making
room for a header, in whole units of `granularity`. -/
def regionSize? (start len : Nat) : Option Nat := do
  let correction := (← roundUp? start granularity) - start
  let size := roundDown (← subChecked (← subChecked len correction) headerSize) granularity
  if size = 0 then none else some size

/-- Take in the region of `len` bytes at `start`. Answers the usable size that was added, or
nothing if the region is too small for a header and one unit of payload. -/
def addRegion (l : FreeList) (start len : Nat) : Except Fault (Option Nat × FreeList) := do
  match regionSize? start len with
  | none => return (none, l)
  | some size =>
    let block := roundUp start granularity
    return (some size, ← (l.setHeader block size).giveBack block)

/-- Grant `size` bytes at a multiple of `align`. Answers the payload address, or nothing if the
size is zero, the alignment is no alignment, or no free block has room. -/
def allocateAligned (l : FreeList) (align size : Nat) : Except Fault (Option Nat × FreeList) := do
  if size = 0 ∨ ¬ IsAlignment align then
    return (none, l)
  else
    let align := max align granularity
    match roundUp? size granularity with
    | none => return (none, l)
    | some size =>
      match ← l.firstFit align size with
      | none => return (none, l)
      | some (block, slack) =>
        let (block, l) ← l.splitLead block slack
        let (tail, l) ← l.splitTail block size
        let l ← match tail with
          | some tail => l.insertAfter (some block) tail
          | none => pure l
        -- All parts of the block are linked now; the one in the middle is granted.
        let l ← l.remove block
        ensure (payload block % align = 0) .misaligned
        return (some (payload block), l)

/-- Grant `size` bytes at a multiple of the granularity. -/
def allocate (l : FreeList) (size : Nat) : Except Fault (Option Nat × FreeList) :=
  l.allocateAligned granularity size

/-- Take back a granted block. -/
def release (l : FreeList) (ptr : Nat) : Except Fault FreeList :=
  l.giveBack (headerOf ptr)

/-- The payload size of a granted block, which may be more than was asked for. -/
def usableSize (l : FreeList) (ptr : Nat) : Nat :=
  l.mem.size (headerOf ptr)

/-- Give a granted block room for `newSize` bytes and keep its contents as far as they fit. A
block with enough room stays where it is, and `align` is not looked at; another is moved to a
multiple of `align`. Answers the payload address, or nothing if the request is refused, and then
the block is as before. -/
def resize (l : FreeList) (ptr align newSize : Nat) :
    Except Fault (Option Nat × FreeList) := do
  if newSize = 0 then
    return (none, l)
  else
    match roundUp? newSize granularity with
    | none => return (none, l)
    | some newSize =>
      let block := headerOf ptr
      let oldSize := l.mem.size block
      if newSize ≤ oldSize then
        match ← l.splitTail block newSize with
        | (some tail, l) => return (some ptr, ← l.giveBack tail)
        | (none, l) => return (some ptr, l)
      else
        match ← l.allocateAligned align newSize with
        | (none, l) => return (none, l)
        | (some moved, l) =>
          -- The old block is still granted here, so the new one lies elsewhere.
          let l := { l with mem := l.mem.copy ptr moved oldSize }
          return (some moved, ← l.release ptr)

end FreeList

end PoolAlloc
