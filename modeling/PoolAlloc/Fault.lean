import PoolAlloc.Word
/-!
# PoolAlloc.Fault

What can be found wrong with the state of an allocator while it works.

A fault is never an answer to a caller's request: it says that the bytes in memory do not form a
free list, or that a number left the word range where the algorithm relies on it not to. Every
place that relies on such a fact checks it and raises the fault, so that the absence of faults is
a statement about the allocator and not an assumption in its definition.
-/

namespace PoolAlloc

/-- A fact the allocator relies on and found violated. -/
inductive Fault
  /-- A sum or a difference left the word range. -/
  | overflow
  /-- A link leads to a block that does not lie behind the one it starts from. -/
  | outOfOrder
  /-- A block that is to be linked is linked already. -/
  | alreadyFree
  /-- A block without a predecessor is not the head of the list. -/
  | notHead
  /-- A block is asked to keep more bytes than it has. -/
  | tooShort
  /-- A block is asked to keep a number of bytes that is no multiple of the granularity. -/
  | uneven
  /-- A search is asked for a multiple of a number that is no alignment. -/
  | badAlignment
  /-- A granted payload misses its alignment. -/
  | misaligned
  /-- The distance from a block to the payload inside it leaves its range. -/
  | offsetRange
  deriving DecidableEq, Repr

namespace Fault

/-- The wording of a fault. -/
def message : Fault → String
  | overflow => "a size left the word range"
  | outOfOrder => "the free list is out of order"
  | alreadyFree => "the block is already free"
  | notHead => "a block without predecessor is not the head of the free list"
  | tooShort => "the block is too short"
  | uneven => "the size is no multiple of the granularity"
  | badAlignment => "the alignment is not a power of two"
  | misaligned => "the payload is misaligned"
  | offsetRange => "the offset of the payload leaves its range"

end Fault

/-- Raise a fault unless a fact holds. -/
def ensure (p : Prop) [Decidable p] (fault : Fault) : Except Fault Unit :=
  if p then .ok () else .error fault

/-- The sum of two words that is relied upon to be a word. -/
def sum (a b : Nat) : Except Fault Nat :=
  if a + b < wordLimit then .ok (a + b) else .error .overflow

/-- The difference of two words that is relied upon not to be negative. -/
def difference (a b : Nat) : Except Fault Nat :=
  if b ≤ a then .ok (a - b) else .error .overflow

/-! ### When a computation finds no fault -/

/-- A sequence finds no fault when no step of it does. -/
@[simp] theorem bind_eq_ok {α β : Type} {x : Except Fault α} {f : α → Except Fault β} {b : β} :
    (x >>= f) = .ok b ↔ ∃ a, x = .ok a ∧ f a = .ok b := by
  cases x <;> simp [bind, Except.bind]

@[simp] theorem pure_eq_ok {α : Type} {a b : α} : (pure a : Except Fault α) = .ok b ↔ a = b := by
  simp [pure, Except.pure]

@[simp] theorem ensure_eq_ok {p : Prop} [Decidable p] {fault : Fault} {u : Unit} :
    ensure p fault = .ok u ↔ p := by
  unfold ensure
  split <;> simp [*]

@[simp] theorem sum_eq_ok {a b c : Nat} : sum a b = .ok c ↔ a + b < wordLimit ∧ c = a + b := by
  unfold sum
  split <;> simp [*, eq_comm]

@[simp] theorem difference_eq_ok {a b c : Nat} :
    difference a b = .ok c ↔ b ≤ a ∧ c = a - b := by
  unfold difference
  split <;> simp [*, eq_comm]

/-! ### Steps that find no fault -/

@[simp] theorem ok_bind {α β : Type} (a : α) (f : α → Except Fault β) :
    ((Except.ok a : Except Fault α) >>= f) = f a := rfl

theorem ensure_pos {p : Prop} [Decidable p] (h : p) (fault : Fault) : ensure p fault = .ok () :=
  if_pos h

theorem sum_of_lt {a b : Nat} (h : a + b < wordLimit) : sum a b = .ok (a + b) :=
  if_pos h

theorem difference_of_le {a b : Nat} (h : b ≤ a) : difference a b = .ok (a - b) :=
  if_pos h

end PoolAlloc
