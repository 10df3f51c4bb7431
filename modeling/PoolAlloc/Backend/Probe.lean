import PoolAlloc.Backend.Basic
/-!
# PoolAlloc.Backend.Probe

A backend that records every call it receives and hands out ever higher addresses. It serves to
observe what the layers above a backend ask of it.
-/

namespace PoolAlloc

/-- A backend that is watched. -/
structure Probe where
  /-- Where the next block begins, once memory was handed in. -/
  cursor : Option Nat := none
  deriving DecidableEq, Repr

namespace Probe

instance : Shown Probe where
  doc _ := .record "Probe" [] false

/-- The largest block that is granted. -/
def maxSize : Nat := 0x40000000

/-- Record a call. -/
def record (received : BackendCall) : Action Probe Unit := Action.emit (.call received)

/-- Grant the next `size` bytes, rounded up to whole units. -/
def alloc (size : Nat) : Action Probe (Option Nat) := do
  record (.alloc size)
  if size = 0 ∨ maxSize < size then
    return none
  else
    match (← Action.object).cursor with
    | none => return none
    | some block =>
      Action.setObject ⟨some (block + roundUp size granularity)⟩
      return some block

instance : Backend Probe where
  init := record .init
  addBlock start len := do
    record (.addBlock start len)
    Action.setObject ⟨some start⟩
  alloc := alloc
  free ptr := record (.free ptr)

end Probe

end PoolAlloc
