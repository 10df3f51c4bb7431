import PoolAlloc.FreeList.Basic
/-!
# PoolAlloc.Action

Operations on shared allocators: what they work on, what they do that can be observed, and how
they can end.

Design points:

* **A `Run` is an object, the memory and the trace.** Objects are nested (an allocator inside
  a gate inside an aligner), memory and trace are not; `Action.onPart` runs an operation of a part
  on the whole.
* **Events are what others can see happen**: calls of lock hooks, log records, rounds of waiting
  and calls that a watched backend receives. An event of a lock carries the free list as it is at
  that moment.
* **An operation that stops keeps what it did.** A panic and a wait without end leave the run as
  it is at that moment.
-/

namespace PoolAlloc

/-- A call that a backend receives. -/
inductive BackendCall
  /-- Prepare for use. -/
  | init
  /-- Take in `len` bytes at `start`. -/
  | addBlock (start len : Nat)
  /-- Grant `size` bytes. -/
  | alloc (size : Nat)
  /-- Take back the block at `ptr`, if there is one. -/
  | free (ptr : Option Nat)
  deriving DecidableEq, Repr

/-- Something that can be observed while an operation runs. -/
inductive Event
  /-- The lock hook was called; `seen` is what the holder of the lock will see. -/
  | lock (seen : FreeList)
  /-- The unlock hook was called; `left` is what the holder of the lock leaves. -/
  | unlock (left : FreeList)
  /-- A record was logged. -/
  | log (text : String)
  /-- A waiting operation paused for others to go on. -/
  | relax
  /-- A watched backend was called. -/
  | call (received : BackendCall)

/-- Why an operation breaks off. -/
inductive Panic
  /-- The state of the allocator is broken. -/
  | fault (fault : Fault)
  /-- The backend supports no operation. -/
  | unsupported
  /-- A gated backend was initialized for a second time. -/
  | initializedTwice
  /-- Memory was given back to a gated backend before it was initialized. -/
  | freedBeforeInit
  deriving DecidableEq, Repr

/-- The wording of a panic. -/
def Panic.message : Panic → String
  | fault f => f.message
  | unsupported => "memory allocation is not supported"
  | initializedTwice => "the backend was initialized twice"
  | freedBeforeInit => "memory was deallocated before the allocator was initialized"

/-- The ways in which an operation does not return. -/
inductive Stop
  /-- It breaks off. -/
  | panic (cause : Panic)
  /-- It waits, and nobody will end the wait. -/
  | blocked
  deriving DecidableEq, Repr

/-- What an operation works on. -/
structure Run (σ : Type) where
  /-- The object whose operation it is. -/
  object : σ
  /-- The memory. -/
  mem : Memory := {}
  /-- What has been observed, first to last. -/
  trace : List Event := []

/-- Let something be observed. -/
def Run.observe {σ : Type} (r : Run σ) (event : Event) : Run σ :=
  { r with trace := r.trace ++ [event] }

/-- An operation of an object of type `σ` that answers an `α`. -/
abbrev Action (σ α : Type) := EStateM Stop (Run σ) α

namespace Action

variable {σ τ α β : Type}

/-- The object. -/
def object : Action σ σ := fun r => .ok r.object r

/-- Replace the object. -/
def setObject (object : σ) : Action σ Unit := fun r => .ok () { r with object }

/-- Change the memory. -/
def modifyMem (f : Memory → Memory) : Action σ Unit := fun r => .ok () { r with mem := f r.mem }

/-- Let something be observed. -/
def emit (event : Event) : Action σ Unit := fun r => .ok () (r.observe event)

/-- Do not return. -/
def stop (why : Stop) : Action σ α := fun r => .error why r

/-- Break off. -/
def panic (cause : Panic) : Action σ α := stop (.panic cause)

/-- Go on with a result unless it is a fault. -/
def ofFault : Except Fault α → Action σ α
  | .ok x => pure x
  | .error f => panic (.fault f)

/-- Run an operation of a part of an object. -/
def onPart (part : σ → τ) (setPart : τ → σ → σ) (act : Action τ α) : Action σ α := fun r =>
  match act { object := part r.object, mem := r.mem, trace := r.trace } with
  | .ok x s => .ok x { object := setPart s.object r.object, mem := s.mem, trace := s.trace }
  | .error e s => .error e { object := setPart s.object r.object, mem := s.mem, trace := s.trace }

/-! ### What the combinators do to a run -/

@[simp] theorem pure_apply (x : α) (r : Run σ) : (pure x : Action σ α) r = .ok x r := rfl

@[simp] theorem bind_apply (act : Action σ α) (f : α → Action σ β) (r : Run σ) :
    (act >>= f) r =
      match act r with
      | .ok x s => f x s
      | .error e s => .error e s := by
  simp only [bind, EStateM.bind]
  cases act r <;> rfl

/-- The answer of an operation that returns. -/
theorem answer_of_ok {act : Action σ α} {r r' : Run σ} {x : α} (h : act r = .ok x r') :
    EStateM.run' act r = some x :=
  congrArg (fun result => EStateM.run' (fun _ => result) r) h

/-- An operation that only rewords an answer returns where the operation below does. -/
theorem eq_ok_of_map {act : Action σ α} {f : α → β} {r r' : Run σ} {y : β}
    (h : (act >>= fun x => pure (f x)) r = .ok y r') : ∃ x, act r = .ok x r' ∧ y = f x := by
  rw [bind_apply] at h
  cases hact : act r with
  | ok x s =>
    rw [hact] at h
    obtain ⟨rfl, rfl⟩ := EStateM.Result.ok.inj h
    exact ⟨x, rfl, rfl⟩
  | error why s =>
    rw [hact] at h
    cases h

@[simp] theorem object_apply (r : Run σ) : (object : Action σ σ) r = .ok r.object r := rfl

@[simp] theorem setObject_apply (object : σ) (r : Run σ) :
    setObject object r = .ok () { r with object } := rfl

@[simp] theorem modifyMem_apply (f : Memory → Memory) (r : Run σ) :
    modifyMem f r = .ok () { r with mem := f r.mem } := rfl

@[simp] theorem emit_apply (event : Event) (r : Run σ) :
    emit event r = .ok () (r.observe event) := rfl

@[simp] theorem stop_apply (why : Stop) (r : Run σ) :
    (stop why : Action σ α) r = .error why r := rfl

@[simp] theorem panic_apply (cause : Panic) (r : Run σ) :
    (panic cause : Action σ α) r = .error (.panic cause) r := rfl

end Action

end PoolAlloc
