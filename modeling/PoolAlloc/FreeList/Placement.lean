import PoolAlloc.FreeList.Links
/-!
# PoolAlloc.FreeList.Placement

Where in a free block a payload goes, and what is split off the block around it.

Design points:

* **The slack in front of an aligned payload becomes a block of its own**, so it is either
  nothing or at least the split floor (`slack?`).
* **First fit.** `firstFit` takes the first block, in address order, that has room for the slack
  and the payload.
* **A remainder below the split floor stays with the block it is left of** (`splitTail`).
-/

namespace PoolAlloc

/-- How far a payload that could begin at `start` is moved up to lie at a multiple of `align`. A
move that is too short to leave a block of `floor` bytes behind is lengthened by whole units of
`align`. There is no answer if an address on the way to it is no word. -/
def slack? (floor start align : Nat) : Option Nat := do
  let gap := (← roundUp? start align) - start
  if gap = 0 ∨ floor ≤ gap then
    return gap
  else
    addChecked gap (← roundUp? (floor - gap) align)

/-- The slack at which a payload of `size` bytes fits into a block with `room` bytes of payload
from `start` on. -/
def fit? (floor start room align size : Nat) : Option Nat := do
  let slack ← slack? floor start align
  let needed ← addChecked size slack
  if needed ≤ room then some slack else none

namespace FreeList

/-- The first block from `block` on that has room for `size` bytes at a multiple of `align`, with
the slack in front of them. -/
def firstFitFrom (m : Memory) (floor align size block : Nat) :
    Except Fault (Option (Nat × Nat)) := do
  match fit? floor (payload block) (m.size block) align size with
  | some slack => return some (block, slack)
  | none =>
    match ← m.following block with
    | none => return none
    | some ⟨next, _⟩ => firstFitFrom m floor align size next
termination_by wordLimit - block

/-- The first free block that has room for `size` bytes at a multiple of `align`, with the slack
in front of them. -/
def firstFit (l : FreeList) (align size : Nat) : Except Fault (Option (Nat × Nat)) := do
  match l.head with
  | none => return none
  | some first =>
    ensure (IsAlignment align) .badAlignment
    firstFitFrom l.mem l.floor align size first

/-- Split the first `slack` bytes off a linked block, as a block of their own that takes its
place; the rest is linked in behind. Answers the block that holds the rest. -/
def splitLead (l : FreeList) (block slack : Nat) : Except Fault (Nat × FreeList) := do
  if slack = 0 then
    return (block, l)
  else
    let rest := block + slack
    let l := l.setHeader rest (← difference (l.mem.size block) slack)
    let l := l.setSize block (← difference slack headerSize)
    return (rest, ← l.insertAfter (some block) rest)

/-- Cut a block down to `size` bytes if what remains reaches the split floor. Answers the block
made of the remainder, which is linked nowhere yet. -/
def splitTail (l : FreeList) (block size : Nat) : Except Fault (Option Nat × FreeList) := do
  let whole := l.mem.size block
  ensure (size ≤ whole) .tooShort
  ensure (size % granularity = 0) .uneven
  let excess ← difference whole size
  if excess < l.floor then
    return (none, l)
  else
    let tail := payload block + size
    let l := l.setHeader tail (← difference excess headerSize)
    return (some tail, l.setSize block size)

end FreeList

end PoolAlloc
