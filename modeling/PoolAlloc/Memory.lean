import Std.Data.TreeMap
import PoolAlloc.Word
/-!
# PoolAlloc.Memory

Byte-addressed memory of which only few bytes were ever written.

Design points:

* **One view.** Everything is said through `Memory.get`, the byte at an address; an address that
  was never written holds zero. Each operation comes with the lemma that gives the bytes after it.
* **Sparse.** Only written bytes are stored, in address order. Clearing or copying a range costs
  as much as there are stored bytes, however long the range is, so blocks of gigabytes are cheap.
* **Numbers are little-endian.** `readNat` and `writeNat` take the number of bytes, which is all
  that the header words and the stored offsets differ in.
-/

namespace PoolAlloc

/-- The contents of memory: the bytes that were written, by address. -/
structure Memory where
  /-- The stored bytes; every other byte is zero. -/
  cells : Std.TreeMap Nat UInt8 := ∅

namespace Memory

instance : Inhabited Memory := ⟨{}⟩

/-- The byte at an address. -/
def get (m : Memory) (a : Nat) : UInt8 := m.cells.getD a 0

/-- Store one byte. -/
def set (m : Memory) (a : Nat) (b : UInt8) : Memory := ⟨m.cells.insert a b⟩

@[simp] theorem get_empty (a : Nat) : ({} : Memory).get a = 0 := by
  simp [get]

theorem get_set (m : Memory) (a x : Nat) (b : UInt8) :
    (m.set a b).get x = if x = a then b else m.get x := by
  simp [get, set, Std.TreeMap.getD_insert, @eq_comm _ a]

@[simp] theorem get_set_self (m : Memory) (a : Nat) (b : UInt8) : (m.set a b).get a = b := by
  simp [get_set]

/-! ### Ranges of bytes -/

/-- The `n` bytes from `a` on. -/
def read (m : Memory) (a : Nat) : Nat → List UInt8
  | 0 => []
  | n + 1 => m.get a :: m.read (a + 1) n

/-- Store a list of bytes from `a` on. -/
def write (m : Memory) (a : Nat) : List UInt8 → Memory
  | [] => m
  | b :: bs => (m.set a b).write (a + 1) bs

/-- Set the `n` bytes from `a` on to zero. -/
def clear (m : Memory) (a : Nat) (n : Nat) : Memory :=
  ⟨m.cells.filter fun x _ => ¬ (a ≤ x ∧ x < a + n)⟩

/-- Copy the `n` bytes from `src` on to `dst`, as they are before the copy. -/
def copy (m : Memory) (src dst : Nat) (n : Nat) : Memory :=
  ⟨m.cells.foldl
    (fun cells x b => if src ≤ x ∧ x < src + n then cells.insert (dst + (x - src)) b else cells)
    (m.clear dst n).cells⟩

theorem get_write (m : Memory) (a x : Nat) (bs : List UInt8) :
    (m.write a bs).get x = if a ≤ x then bs[x - a]?.getD (m.get x) else m.get x := by
  induction bs generalizing m a with
  | nil => simp [write]
  | cons b bs ih =>
    rw [write, ih, get_set]
    rcases Nat.lt_trichotomy x a with h | rfl | h
    · simp [show ¬ a + 1 ≤ x by omega, show ¬ a ≤ x by omega, show x ≠ a by omega]
    · simp [show ¬ x + 1 ≤ x by omega]
    · simp [show a + 1 ≤ x by omega, show a ≤ x by omega, show x ≠ a by omega,
        show x - a = (x - (a + 1)) + 1 by omega]

theorem get_clear (m : Memory) (a x : Nat) (n : Nat) :
    (m.clear a n).get x = if a ≤ x ∧ x < a + n then 0 else m.get x := by
  have hfilter : (m.clear a n).get x =
      (m.cells[x]?.filter fun _ => ¬ (a ≤ x ∧ x < a + n)).getD 0 := by
    simp only [get, clear, Std.TreeMap.getD_filter, Std.TreeMap.getKey_eq,
      Option.pfilter_eq_filter]
  rw [hfilter, get, Std.TreeMap.getD_eq_getD_getElem?]
  cases m.cells[x]? <;> by_cases h : a ≤ x ∧ x < a + n <;> simp [Option.filter, h]

/-! The copy folds over the stored bytes; `shiftInto` is one step of it. -/

private def shiftInto (src dst n : Nat) (cells : Std.TreeMap Nat UInt8) (p : Nat × UInt8) :
    Std.TreeMap Nat UInt8 :=
  if src ≤ p.1 ∧ p.1 < src + n then cells.insert (dst + (p.1 - src)) p.2 else cells

private theorem getD_foldl_shiftInto_of_not_hit {src dst n : Nat} {x : Nat}
    (l : List (Nat × UInt8)) (cells : Std.TreeMap Nat UInt8)
    (h : ∀ p ∈ l, src ≤ p.1 → p.1 < src + n → dst + (p.1 - src) ≠ x) :
    (l.foldl (shiftInto src dst n) cells).getD x 0 = cells.getD x 0 := by
  induction l generalizing cells with
  | nil => rfl
  | cons p l ih =>
    rw [List.foldl_cons, ih _ fun q hq => h q (List.mem_cons_of_mem _ hq)]
    unfold shiftInto
    split
    · rename_i hp
      have := h p List.mem_cons_self hp.1 hp.2
      simp [Std.TreeMap.getD_insert, this]
    · rfl

private theorem getD_foldl_shiftInto_of_mem {src dst n : Nat} {k : Nat} {b : UInt8}
    (l : List (Nat × UInt8)) (cells : Std.TreeMap Nat UInt8)
    (hl : l.Pairwise fun p q => p.1 ≠ q.1) (hk : (k, b) ∈ l) (h₁ : src ≤ k) (h₂ : k < src + n) :
    (l.foldl (shiftInto src dst n) cells).getD (dst + (k - src)) 0 = b := by
  induction l generalizing cells with
  | nil => simp at hk
  | cons p l ih =>
    obtain ⟨hp, hl⟩ := List.pairwise_cons.1 hl
    rw [List.foldl_cons]
    rcases List.mem_cons.1 hk with rfl | hk
    · rw [getD_foldl_shiftInto_of_not_hit]
      · simp [shiftInto, h₁, h₂]
      · intro q hq h₃ _ he
        exact hp q hq (by simp only at *; omega)
    · exact ih _ hl hk

theorem get_copy (m : Memory) (src dst x : Nat) (n : Nat) :
    (m.copy src dst n).get x =
      if dst ≤ x ∧ x < dst + n then m.get (src + (x - dst)) else m.get x := by
  have hfold : (m.copy src dst n).get x =
      (m.cells.toList.foldl (shiftInto src dst n) (m.clear dst n).cells).getD x 0 := by
    simp only [get, copy, Std.TreeMap.foldl_eq_foldl_toList]
    rfl
  have hbase : (m.clear dst n).cells.getD x 0 = (m.clear dst n).get x := rfl
  rw [hfold]
  by_cases hx : dst ≤ x ∧ x < dst + n
  · rw [if_pos hx]
    cases hk : m.cells[src + (x - dst)]? with
    | some b =>
      have hmem := Std.TreeMap.mem_toList_iff_getElem?_eq_some.2 hk
      have hdistinct : m.cells.toList.Pairwise fun p q => p.1 ≠ q.1 :=
        Std.TreeMap.distinct_keys_toList.imp fun h => by simpa using h
      have := @getD_foldl_shiftInto_of_mem src dst n _ _ m.cells.toList
        (m.clear dst n).cells hdistinct hmem (by omega) (by omega)
      rw [show dst + (src + (x - dst) - src) = x by omega] at this
      rw [this, get, Std.TreeMap.getD_eq_getD_getElem?, hk, Option.getD_some]
    | none =>
      rw [getD_foldl_shiftInto_of_not_hit, hbase, get_clear, if_pos hx, get,
        Std.TreeMap.getD_eq_getD_getElem?, hk, Option.getD_none]
      rintro ⟨k, b⟩ hp h₁ h₂ he
      simp only at h₁ h₂ he
      have := Std.TreeMap.mem_toList_iff_getElem?_eq_some.1 hp
      rw [show k = src + (x - dst) by omega, hk] at this
      cases this
  · rw [if_neg hx, getD_foldl_shiftInto_of_not_hit, hbase, get_clear, if_neg hx]
    intro p _ h₁ h₂ he
    exact hx (by omega)

/-! ### Little-endian numbers -/

/-- One past the largest number that `n` bytes can spell. -/
def numberLimit : Nat → Nat
  | 0 => 1
  | n + 1 => 256 * numberLimit n

/-- The number that the `n` bytes from `a` on spell, least significant byte first. -/
def readNat (m : Memory) (a : Nat) : Nat → Nat
  | 0 => 0
  | n + 1 => (m.get a).toNat + 256 * m.readNat (a + 1) n

/-- Store the `n` lowest bytes of a number from `a` on, least significant byte first. -/
def writeNat (m : Memory) (a : Nat) : Nat → Nat → Memory
  | 0, _ => m
  | n + 1, v => (m.set a (UInt8.ofNat v)).writeNat (a + 1) n (v / 256)

theorem readNat_lt (m : Memory) (a : Nat) (n : Nat) : m.readNat a n < numberLimit n := by
  induction n generalizing a with
  | zero => exact Nat.one_pos
  | succ n ih =>
    have := ih (a + 1)
    have := (m.get a).toNat_lt
    simp only [readNat, numberLimit]
    omega

theorem readNat_congr {m m' : Memory} {a : Nat} {n : Nat}
    (h : ∀ x, a ≤ x → x < a + n → m.get x = m'.get x) : m.readNat a n = m'.readNat a n := by
  induction n generalizing a with
  | zero => rfl
  | succ n ih =>
    rw [readNat, readNat, h a (Nat.le_refl a) (by omega),
      ih fun x h₁ h₂ => h x (by omega) (by omega)]

theorem get_writeNat_of_lt {m : Memory} {a x : Nat} {n v : Nat} (h : x < a) :
    (m.writeNat a n v).get x = m.get x := by
  induction n generalizing m a v with
  | zero => rfl
  | succ n ih => rw [writeNat, ih (by omega), get_set, if_neg (by omega)]

/-- Bytes outside the written range stay. -/
theorem get_writeNat_of_ge {m : Memory} {a x : Nat} {n v : Nat} (h : a + n ≤ x) :
    (m.writeNat a n v).get x = m.get x := by
  induction n generalizing m a v with
  | zero => rfl
  | succ n ih => rw [writeNat, ih (by omega), get_set, if_neg (by omega)]

/-- A stored number reads back, cut to the bytes it was given. -/
theorem readNat_writeNat (m : Memory) (a : Nat) (n v : Nat) :
    (m.writeNat a n v).readNat a n = v % numberLimit n := by
  induction n generalizing m a v with
  | zero => exact (Nat.mod_one v).symm
  | succ n ih =>
    rw [readNat, writeNat, ih, get_writeNat_of_lt (by omega), get_set_self, numberLimit,
      Nat.mod_mul]
    simp

/-- A store misses every number that lies beside it. -/
theorem readNat_writeNat_of_disjoint {m : Memory} {a b : Nat} {n k v : Nat}
    (h : a + n ≤ b ∨ b + k ≤ a) : (m.writeNat a n v).readNat b k = m.readNat b k := by
  refine readNat_congr fun x h₁ h₂ => ?_
  rcases h with h | h
  · exact get_writeNat_of_ge (by omega)
  · exact get_writeNat_of_lt (by omega)

end Memory

end PoolAlloc
