import PoolAlloc.Action
import PoolAlloc.Lock
import PoolAlloc.FreeList.Requests
/-!
# PoolAlloc.Heap.Locking

A free list that is shared under a lock.

Design points:

* **One way in.** Every operation on a shared heap reaches the free list through `Heap.locked`,
  which takes the lock, does one thing and lets the lock go, also when that thing raises a fault.
  A heap whose sole owner works on it needs no lock (`Heap.owned`).
* **The heap shows its lock only.** Showing the free list would mean taking the lock.
-/

namespace PoolAlloc

/-- A free list under a lock. The memory it is threaded through is not part of it. -/
structure Heap where
  /-- The least span, in bytes, that is to be split off as a block of its own. -/
  minSplit : Nat := minBlockSpan
  /-- The free block at the lowest address. -/
  head : Option Nat := none
  /-- The lock. -/
  lock : Lock := .none

namespace Heap

instance : Shown Heap where
  doc h := .record "Heap" [("lock", Shown.doc h.lock)] true

/-- The free list of a heap in a memory. -/
def toFreeList (h : Heap) (mem : Memory) : FreeList :=
  { minSplit := h.minSplit, head := h.head, mem }

/-- The free list as it is now. -/
def freeList (r : Run Heap) : FreeList := r.object.toFreeList r.mem

/-- Keep the free list that an operation has left. -/
def keep (r : Run Heap) (l : FreeList) : Run Heap :=
  { r with object := { r.object with head := l.head }, mem := l.mem }

/-- Set the lock. If that takes a hook, the hook sees the free list. -/
def setLock (r : Run Heap) (lock : Lock) (event : FreeList → Event) : Run Heap :=
  let r := { r with object := { r.object with lock } }
  match lock with
  | .hooks _ => r.observe (event (freeList r))
  | _ => r

/-- Let the lock go. -/
def letGo (r : Run Heap) : Run Heap := setLock r r.object.lock.letGo .unlock

variable {α : Type}

/-- Do something with the free list. -/
def owned (body : FreeList → Except Fault (α × FreeList)) : Action Heap α := fun r =>
  match body (freeList r) with
  | .ok (x, l) => .ok x (keep r l)
  | .error f => .error (.panic (.fault f)) r

/-- Do something with the free list while holding the lock. -/
def locked (body : FreeList → Except Fault (α × FreeList)) : Action Heap α := fun r =>
  match r.object.lock.acquire? with
  | none => .error .blocked r
  | some lock =>
    let r := setLock r lock .lock
    match body (freeList r) with
    | .ok (x, l) => .ok x (letGo (keep r l))
    | .error f => .error (.panic (.fault f)) (letGo r)

@[simp] theorem freeList_setLock (r : Run Heap) (lock : Lock) (event : FreeList → Event) :
    freeList (setLock r lock event) = freeList r := by
  cases lock <;> rfl

/-- With hooks, a locked section is seen as one pair of events around what it does. -/
theorem locked_of_hooks {body : FreeList → Except Fault (α × FreeList)} {r : Run Heap}
    {name : String} {x : α} {l : FreeList} (hlock : r.object.lock = .hooks name)
    (hbody : body (freeList r) = .ok (x, l)) :
    locked body r = .ok x
      (((keep r l).observe (.lock (freeList r))).observe (.unlock (freeList (keep r l)))) := by
  simp only [locked, hlock, Lock.acquire?, freeList_setLock, hbody]
  obtain ⟨⟨_, _, _⟩, _, _⟩ := r
  subst hlock
  rfl

end Heap

end PoolAlloc
