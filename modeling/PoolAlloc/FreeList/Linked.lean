import PoolAlloc.FreeList.Basic
/-!
# PoolAlloc.FreeList.Linked

What it means for the headers in memory to form a free list.

`Linked m prev bs next` says that the blocks `bs` stand between `prev` and `next`: linked both
ways, with the sizes they are listed with. `FreeList.Holds` says of a whole list that it starts at
the head and that its headers lie one behind another. Both are statements about memory alone;
walking the list plays no part in them.

Main statement: a list that holds certain blocks answers exactly these when it is asked for its
blocks (`FreeList.Holds.blocks_eq`). Since a walk has one answer, a list holds the blocks of at
most one list (`FreeList.Holds.unique`).
-/

namespace PoolAlloc

/-- The header a list of blocks starts with, or the one behind it if the list is empty. -/
def firstOr : List FreeBlock → Option Nat → Option Nat
  | [], next => next
  | b :: _, _ => some b.start

/-- The header a list of blocks ends with, or the one before it if the list is empty. -/
def lastOr (prev : Option Nat) : List FreeBlock → Option Nat
  | [] => prev
  | b :: rest => lastOr (some b.start) rest

@[simp] theorem firstOr_nil (next : Option Nat) : firstOr [] next = next := rfl

@[simp] theorem firstOr_cons (b : FreeBlock) (rest : List FreeBlock) (next : Option Nat) :
    firstOr (b :: rest) next = some b.start := rfl

theorem firstOr_append (xs ys : List FreeBlock) (next : Option Nat) :
    firstOr (xs ++ ys) next = firstOr xs (firstOr ys next) := by
  cases xs <;> rfl

@[simp] theorem lastOr_nil (prev : Option Nat) : lastOr prev [] = prev := rfl

@[simp] theorem lastOr_cons (prev : Option Nat) (b : FreeBlock) (rest : List FreeBlock) :
    lastOr prev (b :: rest) = lastOr (some b.start) rest := rfl

@[simp] theorem lastOr_append_singleton (prev : Option Nat) (xs : List FreeBlock) (b : FreeBlock) :
    lastOr prev (xs ++ [b]) = some b.start := by
  induction xs generalizing prev with
  | nil => rfl
  | cons x xs ih => exact ih _

/-- The blocks of a list are linked both ways between `prev` and `next`. -/
def Linked (m : Memory) : Option Nat → List FreeBlock → Option Nat → Prop
  | _, [], _ => True
  | prev, b :: rest, next =>
    m.prev b.start = prev ∧
    m.next b.start = firstOr rest next ∧
    m.size b.start = b.size ∧
    Linked m (some b.start) rest next

@[simp] theorem linked_nil (m : Memory) (prev next : Option Nat) : Linked m prev [] next := trivial

theorem linked_cons {m : Memory} {prev next : Option Nat} {b : FreeBlock}
    {rest : List FreeBlock} :
    Linked m prev (b :: rest) next ↔
      m.prev b.start = prev ∧ m.next b.start = firstOr rest next ∧ m.size b.start = b.size ∧
        Linked m (some b.start) rest next := Iff.rfl

/-- A linked list of blocks is linked up to any place and from there on. -/
theorem linked_append {m : Memory} {prev next : Option Nat} {xs ys : List FreeBlock} :
    Linked m prev (xs ++ ys) next ↔
      Linked m prev xs (firstOr ys next) ∧ Linked m (lastOr prev xs) ys next := by
  induction xs generalizing prev with
  | nil => simp
  | cons x xs ih =>
    rw [List.cons_append, linked_cons, linked_cons, ih, firstOr_append, lastOr_cons]
    simp only [and_assoc]

/-- Walking over linked blocks at rising addresses meets exactly these blocks. -/
theorem Linked.blocksFrom_eq {m : Memory} {prev : Option Nat} {b : FreeBlock}
    {rest : List FreeBlock} (h : Linked m prev (b :: rest) none)
    (hrising : (b :: rest).Pairwise fun b c => b.start < c.start) :
    m.blocksFrom b.start = .ok (b :: rest) := by
  induction rest generalizing prev b with
  | nil =>
    obtain ⟨-, hnext, hsize, -⟩ := h
    rw [Memory.blocksFrom, Memory.following_of_next_eq_none hnext, hsize]
    rfl
  | cons c rest ih =>
    obtain ⟨-, hnext, hsize, hrest⟩ := h
    obtain ⟨hlt, hrising⟩ := List.pairwise_cons.1 hrising
    rw [Memory.blocksFrom, Memory.following_of_next_eq_some hnext (hlt c List.mem_cons_self), hsize]
    simp only [bind, Except.bind, ih hrest hrising]
    rfl

namespace FreeList

/-- The free list consists of the given blocks. -/
structure Holds (l : FreeList) (bs : List FreeBlock) : Prop where
  /-- The head is the first of them. -/
  head_eq : l.head = firstOr bs none
  /-- They are linked to each other. -/
  linked : Linked l.mem none bs none
  /-- Their headers lie one behind another. -/
  apart : bs.Pairwise fun b c => b.start + headerSize ≤ c.start
  /-- A link can lead to any of them. -/
  placed : ∀ b ∈ bs, 0 < b.start ∧ b.start < wordLimit

/-- A list without a head holds no block. -/
theorem holds_nil {l : FreeList} : l.Holds [] ↔ l.head = none :=
  ⟨fun h => h.head_eq, fun h => ⟨h, trivial, List.Pairwise.nil, by simp⟩⟩

theorem Holds.rising {l : FreeList} {bs : List FreeBlock} (h : l.Holds bs) :
    bs.Pairwise fun b c => b.start < c.start :=
  h.apart.imp fun hbc => Nat.lt_of_lt_of_le (Nat.lt_add_of_pos_right (by decide)) hbc

theorem Holds.blocks_eq {l : FreeList} {bs : List FreeBlock} (h : l.Holds bs) :
    l.blocks = .ok bs := by
  cases bs with
  | nil => simp [blocks, holds_nil.1 h]
  | cons b rest =>
    have hhead : l.head = some b.start := h.head_eq
    simp only [blocks, hhead]
    exact h.linked.blocksFrom_eq h.rising

theorem Holds.unique {l : FreeList} {bs cs : List FreeBlock} (h : l.Holds bs)
    (h' : l.Holds cs) : bs = cs := by
  have := h.blocks_eq.symm.trans h'.blocks_eq
  simpa using this

end FreeList

end PoolAlloc
