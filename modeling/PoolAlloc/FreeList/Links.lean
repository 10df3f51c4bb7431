import PoolAlloc.FreeList.Basic
/-!
# PoolAlloc.FreeList.Links

Linking blocks into the free list, taking them out, and merging neighbours.

Design points:

* **Two ways in.** `insertAfter` links a block behind a known predecessor; `insertOrdered` first
  looks for the place its address belongs at.
* **Merging is one pass.** `mergeAdjacent` goes over the list once and keeps a block that has
  absorbed its successor as the candidate for the next, so a run of neighbours of any length
  becomes one block. It reads the link of a block before it may take the block out.
-/

namespace PoolAlloc

namespace FreeList

/-- Link `block` in right behind `prev`, or at the head if there is no `prev`. -/
def insertAfter (l : FreeList) (prev : Option Nat) (block : Nat) : Except Fault FreeList := do
  let next := match prev with
    | some p => l.mem.next p
    | none => l.head
  let l := (l.setPrev block prev).setNext block next
  let l ← match next with
    | some n => do
      ensure (block < n) .outOfOrder
      pure (l.setPrev n (some block))
    | none => pure l
  match prev with
  | some p => do
    ensure (p < block) .outOfOrder
    pure (l.setNext p (some block))
  | none => pure { l with head := some block }

/-- The last free block below `block`, looked for from `cursor` on; `prev` is the block before
`cursor`. -/
def predecessorFrom (m : Memory) (block : Nat) (prev : Option Nat) (cursor : Nat) :
    Except Fault (Option Nat) := do
  ensure (cursor ≠ block) .alreadyFree
  if block < cursor then
    return prev
  else
    match ← m.following cursor with
    | none => return some cursor
    | some ⟨next, _⟩ => predecessorFrom m block (some cursor) next
termination_by wordLimit - cursor

/-- The last free block below `block`. -/
def predecessor (l : FreeList) (block : Nat) : Except Fault (Option Nat) :=
  match l.head with
  | none => .ok none
  | some first => predecessorFrom l.mem block none first

/-- Link `block` in where its address belongs. -/
def insertOrdered (l : FreeList) (block : Nat) : Except Fault FreeList := do
  l.insertAfter (← l.predecessor block) block

/-- Make `next` the successor of `prev`, or the head if there is no `prev`; `block` is the block
that was there before. -/
def bypass (l : FreeList) (prev : Option Nat) (block : Nat) (next : Option Nat) :
    Except Fault FreeList := do
  match prev with
  | some p => return l.setNext p next
  | none =>
    ensure (l.head = some block) .notHead
    return { l with head := next }

/-- Take a linked block out of the list. Its own links stay as they are. -/
def remove (l : FreeList) (block : Nat) : Except Fault FreeList :=
  let next := l.mem.next block
  let prev := l.mem.prev block
  match next with
  | some n => (l.setPrev n prev).bypass prev block next
  | none => l.bypass prev block next

/-! ### Merging -/

/-- Let `block` be absorbed by the candidate in front of it if the two are adjacent. The block
that remains is the next candidate. -/
def absorb (l : FreeList) (candidate : Option Nat) (block : Nat) :
    Except Fault (Nat × FreeList) := do
  match candidate with
  | none => return (block, l)
  | some c =>
    if (← l.mem.blockEnd c) = block then
      let size ← sum (l.mem.size c) (← sum headerSize (l.mem.size block))
      return (c, ← (l.setSize c size).remove block)
    else
      return (block, l)

/-- Merge adjacent blocks from `block` on; `candidate` is the block in front of it. -/
def mergeFrom (l : FreeList) (candidate : Option Nat) (block : Nat) : Except Fault FreeList := do
  -- `absorb` may take `block` out, so its link is read first.
  let next ← l.mem.following block
  let (candidate, l) ← l.absorb candidate block
  match next with
  | none => return l
  | some ⟨n, _⟩ => l.mergeFrom (some candidate) n
termination_by wordLimit - block

/-- Merge every run of adjacent free blocks into one block. -/
def mergeAdjacent (l : FreeList) : Except Fault FreeList :=
  match l.head with
  | none => .ok l
  | some first => l.mergeFrom none first

/-- Link a block in where its address belongs and merge it with its neighbours. -/
def giveBack (l : FreeList) (block : Nat) : Except Fault FreeList := do
  (← l.insertOrdered block).mergeAdjacent

end FreeList

end PoolAlloc
