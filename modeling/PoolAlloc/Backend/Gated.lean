import PoolAlloc.Backend.Basic
/-!
# PoolAlloc.Backend.Gated

A backend that lets requests through only once it is initialized.

Design points:

* **A request that comes early waits**, and others go on in the meantime. `await` takes what they
  do in each round of waiting; one of them may initialize the backend and so end the wait.
* **Memory that comes back early is an error of the caller's**, for there is nothing it could
  have been granted from.
* **Memory may be handed in at any time.**
-/

namespace PoolAlloc

/-- A backend behind a gate. -/
structure Gated (β : Type) where
  /-- The backend. -/
  inner : β
  /-- Whether the gate is open. -/
  initialized : Bool := false
  /-- The number of rounds after which a request that waits alone is taken to wait for ever. It
  serves `alloc` only and does not belong to the gate, which has no limit to waiting: where others
  go on (`allocAmid`), a request waits for as long as they do. -/
  patience : Nat := 0

namespace Gated

variable {β α : Type}

instance [Shown β] : Shown (Gated β) where
  doc g :=
    .record "Gated" [("inner", Shown.doc g.inner), ("initialized", .bool g.initialized)] false

/-- Run an operation of the backend. -/
def onInner (act : Action β α) : Action (Gated β) α :=
  Action.onPart Gated.inner (fun inner g => { g with inner }) act

/-- Whether the gate is open. -/
def isInitialized : Action (Gated β) Bool := do return (← Action.object).initialized

/-- Open the gate, which is an error if it was open already. -/
def openGate : Action (Gated β) Unit := do
  let g ← Action.object
  Action.setObject { g with initialized := true }
  if g.initialized then
    Action.panic .initializedTwice
  else
    Action.emit (.log "gated backend initialized")

/-- Initialize the backend, then open the gate. -/
def init [Backend β] : Action (Gated β) Unit := do
  onInner Backend.init
  openGate

/-- Wait until the gate is open, while `others` do one thing in each round. -/
def await : List (Action (Gated β) Unit) → Action (Gated β) Unit
  | [] => do
    if ← isInitialized then
      return ()
    else
      Action.stop .blocked
  | other :: others => do
    if ← isInitialized then
      return ()
    else
      Action.emit .relax
      other
      await others

/-- Grant `size` bytes once the gate is open, while `others` go on. -/
def allocAmid [Backend β] (others : List (Action (Gated β) Unit)) (size : Nat) :
    Action (Gated β) (Option Nat) := do
  await others
  if size = 0 then
    return none
  else
    onInner (Backend.alloc size)

/-- Grant `size` bytes if the gate is open. Nobody else does anything, so at a shut gate this waits
for ever, which `patience` rounds stand for. -/
def alloc [Backend β] (size : Nat) : Action (Gated β) (Option Nat) := do
  let g ← Action.object
  allocAmid (List.replicate g.patience (pure ())) size

/-- Take back a block, which needs the gate to be open. -/
def free [Backend β] (ptr : Option Nat) : Action (Gated β) Unit := do
  if ← isInitialized then
    onInner (Backend.free ptr)
  else
    Action.panic .freedBeforeInit

instance [Backend β] : Backend (Gated β) where
  init := init
  addBlock start len := onInner (Backend.addBlock start len)
  alloc := alloc
  free := free

end Gated

end PoolAlloc
