import PoolAlloc.Memory
import PoolAlloc.Fault
/-!
# PoolAlloc.Header

The header in front of every block, free or granted.

A block at address `b` holds three words and then its payload:

| bytes | content |
|---|---|
| `b` to `b + 7` | address of the next free block, zero for none |
| `b + 8` to `b + 15` | address of the previous free block, zero for none |
| `b + 16` to `b + 23` | size of the payload |
| from `b + 24` | payload |

Design points:

* **The links mean something only while the block is free.** A granted block keeps whatever links
  it had; nothing reads them before they are written again.
* **A payload address determines its header** (`headerOf`), so nothing but memory is needed to
  release a block.
-/

namespace PoolAlloc

/-- Where the payload of the block at `block` begins. -/
def payload (block : Nat) : Nat := block + headerSize

/-- The block whose payload begins at `ptr`. -/
def headerOf (ptr : Nat) : Nat := ptr - headerSize

@[simp] theorem headerOf_payload (block : Nat) : headerOf (payload block) = block := by
  simp [headerOf, payload]

theorem payload_headerOf {ptr : Nat} (h : headerSize ≤ ptr) : payload (headerOf ptr) = ptr := by
  simp only [headerOf, payload]
  omega

namespace Memory

/-- Read a word. -/
def word (m : Memory) (a : Nat) : Nat := m.readNat a 8

/-- Store a word. -/
def setWord (m : Memory) (a v : Nat) : Memory := m.writeNat a 8 v

/-- Read a link: an address, or zero for none. -/
def link (m : Memory) (a : Nat) : Option Nat :=
  match m.word a with
  | 0 => none
  | n => some n

/-- Store a link. -/
def setLink (m : Memory) (a : Nat) (target : Option Nat) : Memory := m.setWord a (target.getD 0)

/-- The free block after `block`. -/
def next (m : Memory) (block : Nat) : Option Nat := m.link block

/-- The free block before `block`. -/
def prev (m : Memory) (block : Nat) : Option Nat := m.link (block + 8)

/-- The payload size of `block`. -/
def size (m : Memory) (block : Nat) : Nat := m.word (block + 16)

/-- Set the free block after `block`. -/
def setNext (m : Memory) (block : Nat) (target : Option Nat) : Memory := m.setLink block target

/-- Set the free block before `block`. -/
def setPrev (m : Memory) (block : Nat) (target : Option Nat) : Memory :=
  m.setLink (block + 8) target

/-- Set the payload size of `block`. -/
def setSize (m : Memory) (block size : Nat) : Memory := m.setWord (block + 16) size

/-- Write the header of a block that is linked nowhere. -/
def setHeader (m : Memory) (block size : Nat) : Memory :=
  ((m.setNext block none).setPrev block none).setSize block size

/-- The address right behind `block`. -/
def blockEnd (m : Memory) (block : Nat) : Except Fault Nat := do
  sum (← sum block headerSize) (m.size block)

/-! ### Words and links read back -/

theorem word_lt (m : Memory) (a : Nat) : m.word a < wordLimit :=
  Nat.lt_of_lt_of_eq (m.readNat_lt a 8) rfl

theorem word_setWord_self (m : Memory) (a : Nat) {v : Nat} (h : v < wordLimit) :
    (m.setWord a v).word a = v := by
  rw [word, setWord, readNat_writeNat]
  exact Nat.mod_eq_of_lt h

theorem word_setWord_of_disjoint (m : Memory) {a b : Nat} (v : Nat)
    (h : a + 8 ≤ b ∨ b + 8 ≤ a) : (m.setWord a v).word b = m.word b :=
  readNat_writeNat_of_disjoint h

theorem get_setWord_of_outside (m : Memory) {a x : Nat} (v : Nat) (h : x < a ∨ a + 8 ≤ x) :
    (m.setWord a v).get x = m.get x := by
  rcases h with h | h
  · exact get_writeNat_of_lt h
  · exact get_writeNat_of_ge h

/-- A word reads the same in memories that agree on its bytes. -/
theorem word_congr {m m' : Memory} {a : Nat} (h : ∀ x, a ≤ x → x < a + 8 → m'.get x = m.get x) :
    m'.word a = m.word a :=
  readNat_congr h

-- From here on a word is known by the lemmas above; how it is spelled in bytes plays no part.
attribute [irreducible] word setWord

theorem link_eq_some {m : Memory} {a n : Nat} : m.link a = some n ↔ m.word a = n ∧ n ≠ 0 := by
  unfold link
  cases m.word a <;> simp [eq_comm]
  omega

theorem link_lt {m : Memory} {a n : Nat} (h : m.link a = some n) : n < wordLimit :=
  (link_eq_some.1 h).1 ▸ m.word_lt a

theorem link_setLink_self (m : Memory) (a : Nat) {target : Option Nat}
    (h : ∀ n ∈ target, 0 < n ∧ n < wordLimit) : (m.setLink a target).link a = target := by
  cases target with
  | none =>
    rw [setLink, link, Option.getD_none, word_setWord_self m a (by decide)]
    rfl
  | some n =>
    obtain ⟨h₀, h₁⟩ := h n rfl
    exact link_eq_some.2 ⟨word_setWord_self m a h₁, Nat.ne_of_gt h₀⟩

theorem link_setLink_of_disjoint (m : Memory) {a b : Nat} (target : Option Nat)
    (h : a + 8 ≤ b ∨ b + 8 ≤ a) : (m.setLink a target).link b = m.link b := by
  rw [link, link, setLink, word_setWord_of_disjoint m _ h]

end Memory

end PoolAlloc
