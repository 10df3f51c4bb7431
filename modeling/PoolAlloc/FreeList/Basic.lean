import PoolAlloc.Header
/-!
# PoolAlloc.FreeList.Basic

The free list: free blocks in address order, linked through their headers in memory.

Design points:

* **The list lives in the memory it manages.** A `FreeList` holds the memory and the address of
  the first free block; all else is read from headers. Nothing is kept on the side, so an
  operation sees exactly what the bytes say.
* **Links rise.** `Memory.following` follows a link only to a higher address and raises a fault
  otherwise. Every walk is therefore finite whatever the bytes are: its measure is the distance
  from the cursor to the end of the address space.
* **`blocks` is the view** that everything else is described by: the free blocks, first to last.
-/

namespace PoolAlloc

/-- A free list together with the memory it is threaded through. -/
structure FreeList where
  /-- The least span, in bytes, that a caller wants to see split off as a block of its own. -/
  minSplit : Nat := minBlockSpan
  /-- The free block at the lowest address. -/
  head : Option Nat := none
  /-- The memory that holds all blocks. -/
  mem : Memory := {}
  deriving Inhabited

/-- A free block: where its header is, and how many bytes of payload it has. -/
structure FreeBlock where
  /-- The address of the header. -/
  start : Nat
  /-- The payload size. -/
  size : Nat
  deriving DecidableEq, Repr

namespace FreeBlock

/-- The address where the payload would begin. -/
def payload (b : FreeBlock) : Nat := PoolAlloc.payload b.start

/-- The number of bytes a block takes up, header included. -/
def span (b : FreeBlock) : Nat := headerSize + b.size

/-- The address right behind the block. -/
def stop (b : FreeBlock) : Nat := b.start + b.span

end FreeBlock

/-- Follow the link of a free block to the next one, which has to lie at a higher address. -/
def Memory.following (m : Memory) (block : Nat) :
    Except Fault (Option { n : Nat // block < n ∧ n < wordLimit }) :=
  match h : m.next block with
  | none => .ok none
  | some n => if hn : block < n then .ok (some ⟨n, hn, link_lt h⟩) else .error .outOfOrder

theorem Memory.following_of_next_eq_none {m : Memory} {block : Nat} (h : m.next block = none) :
    m.following block = .ok none := by
  unfold following
  split
  · rfl
  · simp_all

theorem Memory.following_of_next_eq_some {m : Memory} {block n : Nat}
    (h : m.next block = some n) (hn : block < n) :
    m.following block = .ok (some ⟨n, hn, link_lt h⟩) := by
  unfold following
  split
  · simp_all
  · rename_i k hk
    obtain rfl : k = n := by simp_all
    simp [hn]

/-- The free blocks from `block` on. -/
def Memory.blocksFrom (m : Memory) (block : Nat) : Except Fault (List FreeBlock) := do
  let here : FreeBlock := ⟨block, m.size block⟩
  match ← m.following block with
  | none => return [here]
  | some ⟨next, _⟩ => return here :: (← m.blocksFrom next)
termination_by wordLimit - block

namespace FreeList

/-- The least span that is split off a block. -/
def floor (l : FreeList) : Nat := splitFloor l.minSplit

/-- The free blocks in address order. -/
def blocks (l : FreeList) : Except Fault (List FreeBlock) :=
  match l.head with
  | none => .ok []
  | some first => l.mem.blocksFrom first

/-! ### Field updates

Each changes one word in memory, or the head. -/

/-- Set the successor of a block. -/
def setNext (l : FreeList) (block : Nat) (target : Option Nat) : FreeList :=
  { l with mem := l.mem.setNext block target }

/-- Set the predecessor of a block. -/
def setPrev (l : FreeList) (block : Nat) (target : Option Nat) : FreeList :=
  { l with mem := l.mem.setPrev block target }

/-- Set the payload size of a block. -/
def setSize (l : FreeList) (block size : Nat) : FreeList :=
  { l with mem := l.mem.setSize block size }

/-- Write the header of a block that is linked nowhere. -/
def setHeader (l : FreeList) (block size : Nat) : FreeList :=
  { l with mem := l.mem.setHeader block size }

/-! ### Summary -/

/-- Totals over the free blocks. -/
structure Summary where
  /-- How many free blocks there are. -/
  count : Nat := 0
  /-- The sum of their payload sizes. -/
  bytes : Nat := 0
  /-- The largest of their payload sizes. -/
  largest : Nat := 0
  deriving DecidableEq, Repr

/-- Count one more block. -/
def Summary.add (s : Summary) (b : FreeBlock) : Except Fault Summary := do
  return { count := ← sum s.count 1, bytes := ← sum s.bytes b.size,
           largest := max s.largest b.size }

/-- The totals over all free blocks. -/
def summary (l : FreeList) : Except Fault Summary := do
  (← l.blocks).foldlM Summary.add {}

end FreeList

end PoolAlloc
