/-!
# PoolAlloc.Word

Machine words, alignment and checked arithmetic.

Addresses and sizes are natural numbers, counted in bytes and below `wordLimit`; nothing in the
library wraps around. An operation that could leave the word range says so in its type.

Design points:

* **Sums and products that may not fit are `Option`s** (`addChecked`, `mulChecked`, `roundUp?`),
  and `none` is an answer like any other: a request whose size cannot be written down is refused.
* **Rounding is defined over all naturals** (`roundUp`), so its laws need no bound; `roundUp?` is
  the same number whenever the intermediate sum is a word.
* **Granularity.** Every block starts at a multiple of `granularity` and spans a multiple of it.
-/

namespace PoolAlloc

/-- One past the largest machine word; words have 64 bits. -/
def wordLimit : Nat := 0x10000000000000000

/-- Block addresses and block sizes are multiples of this many bytes. -/
def granularity : Nat := 8

/-- A block header is three words: the two links of the free list and the payload size. -/
def headerSize : Nat := 24

/-- The smallest span of a block: a header and one word of payload. -/
def minBlockSpan : Nat := headerSize + granularity

/-! ### Checked arithmetic -/

/-- The sum of two words, if it is a word. -/
def addChecked (a b : Nat) : Option Nat :=
  if a + b < wordLimit then some (a + b) else none

/-- The difference of two words, if the first is the larger one. -/
def subChecked (a b : Nat) : Option Nat :=
  if b ≤ a then some (a - b) else none

/-- The product of two words, if it is a word. -/
def mulChecked (a b : Nat) : Option Nat :=
  if a * b < wordLimit then some (a * b) else none

theorem addChecked_eq_some {a b c : Nat} :
    addChecked a b = some c ↔ a + b < wordLimit ∧ c = a + b := by
  unfold addChecked
  split <;> simp [*, eq_comm]

theorem subChecked_eq_some {a b c : Nat} : subChecked a b = some c ↔ b ≤ a ∧ c = a - b := by
  unfold subChecked
  split <;> simp [*, eq_comm]

/-! ### Rounding -/

/-- The largest multiple of `align` that is at most `n`. -/
def roundDown (n align : Nat) : Nat := n / align * align

/-- The least multiple of `align` that is at least `n`, for a positive `align`. -/
def roundUp (n align : Nat) : Nat := roundDown (n + (align - 1)) align

/-- `roundUp`, refused when the sum it is computed from is no word. -/
def roundUp? (n align : Nat) : Option Nat :=
  (addChecked n (align - 1)).map (roundDown · align)

theorem roundDown_le (n align : Nat) : roundDown n align ≤ n :=
  Nat.div_mul_le_self n align

theorem dvd_roundDown (n align : Nat) : align ∣ roundDown n align :=
  Nat.dvd_mul_left ..

theorem dvd_roundUp (n align : Nat) : align ∣ roundUp n align :=
  dvd_roundDown ..

theorem lt_roundDown_add (n : Nat) {align : Nat} (h : 0 < align) :
    n < roundDown n align + align := by
  have := Nat.lt_div_mul_add h (a := n)
  simpa [roundDown] using this

theorem le_roundUp (n : Nat) {align : Nat} (h : 0 < align) : n ≤ roundUp n align := by
  have := lt_roundDown_add (n + (align - 1)) h
  unfold roundUp
  omega

theorem le_roundUp_granularity (n : Nat) : n ≤ roundUp n granularity :=
  le_roundUp n (by decide)

theorem roundUp_lt (n : Nat) {align : Nat} (h : 0 < align) : roundUp n align < n + align := by
  have := roundDown_le (n + (align - 1)) align
  unfold roundUp
  omega

/-- `roundUp n align` is the least multiple of `align` from `n` on. -/
theorem roundUp_le {n align m : Nat} (hn : n ≤ m) (hm : align ∣ m) : roundUp n align ≤ m := by
  obtain ⟨k, rfl⟩ := hm
  rcases Nat.eq_zero_or_pos align with rfl | h
  · simp [roundUp, roundDown]
  · have : (n + (align - 1)) / align < k + 1 := by
      rw [Nat.div_lt_iff_lt_mul h, Nat.add_mul, Nat.mul_comm k align]
      omega
    calc roundUp n align = (n + (align - 1)) / align * align := rfl
      _ ≤ k * align := Nat.mul_le_mul_right _ (Nat.le_of_lt_succ this)
      _ = align * k := Nat.mul_comm ..

/-- A multiple of the alignment is not rounded. -/
theorem roundUp_of_dvd {n align : Nat} (halign : 0 < align) (h : align ∣ n) :
    roundUp n align = n :=
  Nat.le_antisymm (roundUp_le (Nat.le_refl n) h) (le_roundUp n halign)

theorem roundUp?_eq_some {n align m : Nat} :
    roundUp? n align = some m ↔ n + (align - 1) < wordLimit ∧ m = roundUp n align := by
  unfold roundUp? addChecked roundUp
  split <;> simp [*, eq_comm]

/-- A size that was rounded to whole units is no smaller, and it is not zero. -/
theorem units_of_roundUp? {size n : Nat} (hround : roundUp? size granularity = some n)
    (hpos : size ≠ 0) : granularity ∣ n ∧ 0 < n ∧ size ≤ n := by
  obtain ⟨-, rfl⟩ := roundUp?_eq_some.1 hround
  have hle := le_roundUp_granularity size
  exact ⟨dvd_roundUp .., by omega, hle⟩

/-! ### Alignment and the split floor -/

/-- An alignment is a power of two; zero is none. -/
def IsAlignment (n : Nat) : Prop := n.isPowerOfTwo

instance : DecidablePred IsAlignment :=
  fun n => inferInstanceAs (Decidable n.isPowerOfTwo)

/-- The least span that is worth tracking as a block of its own: at least `minSplit` bytes and at
least `minBlockSpan`, in whole units of `granularity`. What is left of a block is split off when
it reaches this floor, and stays with the block otherwise. -/
def splitFloor (minSplit : Nat) : Nat :=
  roundUp (max minSplit minBlockSpan) granularity

theorem minBlockSpan_le_splitFloor (minSplit : Nat) : minBlockSpan ≤ splitFloor minSplit :=
  Nat.le_trans (Nat.le_max_right minSplit _) (le_roundUp _ (by decide))

end PoolAlloc
