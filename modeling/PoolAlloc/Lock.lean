import PoolAlloc.Display
/-!
# PoolAlloc.Lock

The locks that guard a shared free list.

Design points:

* **Three kinds.** No lock at all, for a list with one user; a spin lock, which knows whether it
  is held; and a lock that is taken by calling hooks the owner supplies.
* **Waiting is an outcome.** `acquire?` answers nothing where a caller would wait for another
  one to let go.
-/

namespace PoolAlloc

/-- A lock. -/
inductive Lock
  /-- Nothing is guarded. -/
  | none
  /-- A spin lock, held or not. -/
  | spin (held : Bool)
  /-- A lock taken and released by hooks, known by a name. -/
  | hooks (name : String)
  deriving DecidableEq, Repr, Inhabited

namespace Lock

/-- A spin lock that nobody holds. -/
def freeSpin : Lock := spin false

/-- Take the lock, unless it would have to be waited for. -/
def acquire? : Lock → Option Lock
  | none => some none
  | spin false => some (spin true)
  | spin true => Option.none
  | hooks name => some (hooks name)

/-- Let the lock go, whoever holds it. -/
def letGo : Lock → Lock
  | none => none
  | spin _ => spin false
  | hooks name => hooks name

/-- Whether the lock is held, if it knows. -/
def isHeld? : Lock → Option Bool
  | spin held => some held
  | _ => Option.none

instance : Shown Lock where
  doc
    | none => .record "NoLock" [] false
    | spin held => .record "SpinLock" [("locked", .bool held)] false
    | hooks name => .record name [] false

end Lock

end PoolAlloc
