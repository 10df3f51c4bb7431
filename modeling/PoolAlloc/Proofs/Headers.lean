import PoolAlloc.FreeList.Linked
/-!
# PoolAlloc.Proofs.Headers

What an edit of one header leaves alone.

A free list is edited through the headers of a few blocks. `Memory.SameBut m m' as` says that `m'`
differs from `m` at most in the headers at the addresses `as`; it composes along a sequence of
edits, and a header beside all of `as` reads the same before and after. So whatever is linked in
memory stays linked while headers elsewhere are written (`Linked.frame`).
-/

namespace PoolAlloc

namespace Memory

variable {m m' m'' : Memory} {as bs : List Nat}

/-! ### Fields of one header

The three words of a header do not overlap, so each edit shows in one of them. -/

theorem link_congr {a : Nat} (h : ∀ x, a ≤ x → x < a + 8 → m'.get x = m.get x) :
    m'.link a = m.link a := by
  rw [link, link, word_congr h]

theorem next_setNext (m : Memory) (b : Nat) {target : Option Nat}
    (h : ∀ n ∈ target, 0 < n ∧ n < wordLimit) : (m.setNext b target).next b = target :=
  link_setLink_self m b h

theorem prev_setPrev (m : Memory) (b : Nat) {target : Option Nat}
    (h : ∀ n ∈ target, 0 < n ∧ n < wordLimit) : (m.setPrev b target).prev b = target :=
  link_setLink_self m (b + 8) h

theorem size_setSize (m : Memory) (b : Nat) {size : Nat} (h : size < wordLimit) :
    (m.setSize b size).size b = size :=
  word_setWord_self m (b + 16) h

@[simp] theorem prev_setNext (m : Memory) (b : Nat) (target : Option Nat) :
    (m.setNext b target).prev b = m.prev b := by
  rw [prev, setNext, link_setLink_of_disjoint m target (by omega), ← prev]

@[simp] theorem size_setNext (m : Memory) (b : Nat) (target : Option Nat) :
    (m.setNext b target).size b = m.size b := by
  rw [size, setNext, setLink, word_setWord_of_disjoint m _ (by omega), ← size]

@[simp] theorem next_setPrev (m : Memory) (b : Nat) (target : Option Nat) :
    (m.setPrev b target).next b = m.next b := by
  rw [next, setPrev, link_setLink_of_disjoint m target (by omega), ← next]

@[simp] theorem size_setPrev (m : Memory) (b : Nat) (target : Option Nat) :
    (m.setPrev b target).size b = m.size b := by
  rw [size, setPrev, setLink, word_setWord_of_disjoint m _ (by omega), ← size]

@[simp] theorem next_setSize (m : Memory) (b size : Nat) :
    (m.setSize b size).next b = m.next b := by
  rw [next, link, setSize, word_setWord_of_disjoint m _ (by omega), ← link, ← next]

@[simp] theorem prev_setSize (m : Memory) (b size : Nat) :
    (m.setSize b size).prev b = m.prev b := by
  rw [prev, link, setSize, word_setWord_of_disjoint m _ (by omega), ← link, ← prev]

theorem size_setHeader (m : Memory) (b : Nat) {size : Nat} (h : size < wordLimit) :
    (m.setHeader b size).size b = size :=
  size_setSize _ b h

theorem next_congr {b : Nat} (h : ∀ x, b ≤ x → x < b + 24 → m'.get x = m.get x) :
    m'.next b = m.next b :=
  link_congr fun x h₁ h₂ => h x (by omega) (by omega)

theorem prev_congr {b : Nat} (h : ∀ x, b ≤ x → x < b + 24 → m'.get x = m.get x) :
    m'.prev b = m.prev b :=
  link_congr fun x h₁ h₂ => h x (by omega) (by omega)

theorem size_congr {b : Nat} (h : ∀ x, b ≤ x → x < b + 24 → m'.get x = m.get x) :
    m'.size b = m.size b :=
  word_congr fun x h₁ h₂ => h x (by omega) (by omega)

/-! ### Edits of some headers -/

/-- Two memories differ at most in the headers at certain addresses. -/
def SameBut (m m' : Memory) (as : List Nat) : Prop :=
  ∀ x, (∀ a ∈ as, x < a ∨ a + 24 ≤ x) → m'.get x = m.get x

theorem SameBut.refl (m : Memory) (as : List Nat) : SameBut m m as := fun _ _ => rfl

theorem SameBut.mono (h : SameBut m m' as) (hsub : as ⊆ bs) : SameBut m m' bs :=
  fun x hx => h x fun a ha => hx a (hsub ha)

theorem SameBut.trans (h : SameBut m m' as) (h' : SameBut m' m'' as) : SameBut m m'' as :=
  fun x hx => (h' x hx).trans (h x hx)

theorem sameBut_setWord (m : Memory) {a b : Nat} (v : Nat) (h₁ : b ≤ a) (h₂ : a + 8 ≤ b + 24) :
    SameBut m (m.setWord a v) [b] := by
  intro x hx
  have := hx b List.mem_cons_self
  exact get_setWord_of_outside m v (by omega)

theorem sameBut_setNext (m : Memory) (b : Nat) (target : Option Nat) :
    SameBut m (m.setNext b target) [b] := by
  rw [setNext, setLink]
  exact sameBut_setWord m _ (by omega) (by omega)

theorem sameBut_setPrev (m : Memory) (b : Nat) (target : Option Nat) :
    SameBut m (m.setPrev b target) [b] := by
  rw [setPrev, setLink]
  exact sameBut_setWord m _ (by omega) (by omega)

theorem sameBut_setSize (m : Memory) (b size : Nat) : SameBut m (m.setSize b size) [b] := by
  rw [setSize]
  exact sameBut_setWord m _ (by omega) (by omega)

theorem sameBut_setHeader (m : Memory) (b size : Nat) : SameBut m (m.setHeader b size) [b] :=
  ((sameBut_setNext m b none).trans (sameBut_setPrev _ b none)).trans (sameBut_setSize _ b size)

/-- Two headers have no byte in common. -/
def HeadersApart (a b : Nat) : Prop := a + headerSize ≤ b ∨ b + headerSize ≤ a

theorem SameBut.get_eq (h : SameBut m m' as) {b x : Nat} (hb : ∀ a ∈ as, HeadersApart b a)
    (h₁ : b ≤ x) (h₂ : x < b + 24) : m'.get x = m.get x := by
  refine h x fun a ha => ?_
  have := hb a ha
  simp only [HeadersApart, headerSize] at this
  omega

theorem SameBut.next_eq (h : SameBut m m' as) {b : Nat} (hb : ∀ a ∈ as, HeadersApart b a) :
    m'.next b = m.next b :=
  next_congr fun _ => h.get_eq hb

theorem SameBut.prev_eq (h : SameBut m m' as) {b : Nat} (hb : ∀ a ∈ as, HeadersApart b a) :
    m'.prev b = m.prev b :=
  prev_congr fun _ => h.get_eq hb

theorem SameBut.size_eq (h : SameBut m m' as) {b : Nat} (hb : ∀ a ∈ as, HeadersApart b a) :
    m'.size b = m.size b :=
  size_congr fun _ => h.get_eq hb

end Memory

open Memory

/-- Linked blocks stay linked in a memory that has the same bytes in their headers. -/
theorem Linked.congr {m m' : Memory} {prev next : Option Nat} {bs : List FreeBlock}
    (h : Linked m prev bs next)
    (hbs : ∀ b ∈ bs, ∀ x, b.start ≤ x → x < b.start + 24 → m'.get x = m.get x) :
    Linked m' prev bs next := by
  induction bs generalizing prev with
  | nil => exact trivial
  | cons b rest ih =>
    obtain ⟨hprev, hnext, hsize, hrest⟩ := linked_cons.1 h
    obtain ⟨hb, hbs⟩ := List.forall_mem_cons.1 hbs
    rw [linked_cons, prev_congr hb, next_congr hb, size_congr hb]
    exact ⟨hprev, hnext, hsize, ih hrest hbs⟩

/-- Linked blocks stay linked while headers beside theirs are written. -/
theorem Linked.frame {m m' : Memory} {as : List Nat} {prev next : Option Nat}
    {bs : List FreeBlock} (h : Linked m prev bs next) (hsame : SameBut m m' as)
    (hbs : ∀ b ∈ bs, ∀ a ∈ as, HeadersApart b.start a) : Linked m' prev bs next :=
  h.congr fun b hb _ => hsame.get_eq (hbs b hb)

end PoolAlloc
