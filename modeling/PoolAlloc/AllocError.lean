/-!
# PoolAlloc.AllocError

Why an aligned request is refused.
-/

namespace PoolAlloc

/-- The reasons for which an aligned request is refused. -/
inductive AllocError
  /-- The size is zero, or the alignment is not a power of two. -/
  | invalidArgument
  /-- No free block has room for the request. -/
  | outOfMemory
  deriving DecidableEq, Repr

namespace AllocError

/-- The error number for an invalid argument. -/
def invalidArgumentNumber : Nat := 22

/-- The error number for exhausted memory. -/
def outOfMemoryNumber : Nat := 12

/-- The error number of a refusal; zero is kept for success. -/
def errno : AllocError → Nat
  | invalidArgument => invalidArgumentNumber
  | outOfMemory => outOfMemoryNumber

/-- The name of a refusal. -/
def name : AllocError → String
  | invalidArgument => "InvalidArgument"
  | outOfMemory => "OutOfMemory"

/-- The wording of a refusal. -/
def message : AllocError → String
  | invalidArgument => "invalid allocation size or alignment"
  | outOfMemory => "out of memory"

theorem errno_ne_zero (e : AllocError) : e.errno ≠ 0 := by
  cases e <;> decide

end AllocError

end PoolAlloc
