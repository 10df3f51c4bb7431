import Mathlib.Data.List.Sort
import PoolAlloc.FreeList.Basic
/-!
# PoolAlloc.Proofs.Blocks

The theory of lists of blocks, without any memory: which addresses they cover, how a block is put
in its place, and what merging neighbours does.

Design points:

* **Blocks are half-open ranges of addresses**, header included, and every statement about what a
  list covers is about addresses (`Covered`).
* **Two orders.** In an `Ordered` list no two blocks overlap but neighbours may touch; in a
  `Spaced` list there is a gap between them. Linking keeps the first, merging gives the second.
* **A spaced list is determined by what it covers** (`Spaced.eq_of_covered`), because its blocks
  are exactly the maximal runs of covered addresses (`Spaced.isRun_iff`). All statements that two
  ways lead to the same free list come from this.
-/

namespace PoolAlloc

namespace FreeBlock

/-- An address lies in a block, header included. -/
instance : Membership Nat FreeBlock := ⟨fun b x => b.start ≤ x ∧ x < b.stop⟩

theorem mem_iff {b : FreeBlock} {x : Nat} : x ∈ b ↔ b.start ≤ x ∧ x < b.stop := Iff.rfl

theorem stop_eq (b : FreeBlock) : b.stop = b.start + 24 + b.size := by
  simp only [stop, span, headerSize]
  omega

theorem payload_eq (b : FreeBlock) : b.payload = b.start + 24 := rfl

theorem payload_add_size (b : FreeBlock) : b.payload + b.size = b.stop :=
  (stop_eq b).symm

theorem header_le_stop (b : FreeBlock) : b.start + 24 ≤ b.stop := by
  rw [stop_eq]
  omega

theorem ext_of_bounds {b c : FreeBlock} (hstart : b.start = c.start) (hstop : b.stop = c.stop) :
    b = c := by
  rw [stop_eq, stop_eq] at hstop
  cases b
  cases c
  simp only [mk.injEq] at *
  omega

/-- A block that an allocator may hold: in whole units, with room for a payload, away from the
null address and below the end of the address space. -/
structure Valid (b : FreeBlock) : Prop where
  start_pos : 0 < b.start
  dvd_start : granularity ∣ b.start
  size_pos : 0 < b.size
  dvd_size : granularity ∣ b.size
  stop_lt : b.stop < wordLimit

theorem Valid.start_lt {b : FreeBlock} (h : b.Valid) : b.start < wordLimit := by
  have := b.header_le_stop
  have := h.stop_lt
  omega

theorem Valid.size_lt {b : FreeBlock} (h : b.Valid) : b.size < wordLimit := by
  have := b.stop_eq
  have := h.stop_lt
  omega

/-- Every valid block has the least span. -/
theorem Valid.le_span {b : FreeBlock} (h : b.Valid) : minBlockSpan ≤ b.span :=
  Nat.add_le_add_left (Nat.le_of_dvd h.size_pos h.dvd_size) headerSize

/-- Two blocks have no address in common. -/
def Apart (b c : FreeBlock) : Prop := b.stop ≤ c.start ∨ c.stop ≤ b.start

theorem apart_iff {b c : FreeBlock} : b.Apart c ↔ ∀ x ∈ b, x ∉ c := by
  have := b.header_le_stop
  have := c.header_le_stop
  constructor
  · intro h x hb hc
    rw [mem_iff] at hb hc
    unfold Apart at h
    omega
  · intro h
    have hb := h b.start ⟨by omega, by omega⟩
    have hc := mt (h c.start) (not_not.2 ⟨by omega, by omega⟩)
    rw [mem_iff] at hb hc
    unfold Apart
    omega

/-- A block enlarged by the one behind it. -/
def join (b c : FreeBlock) : FreeBlock := ⟨b.start, b.size + c.span⟩

@[simp] theorem join_start (b c : FreeBlock) : (b.join c).start = b.start := rfl

theorem join_stop (b c : FreeBlock) (h : b.stop = c.start) : (b.join c).stop = c.stop := by
  simp only [stop, span, join, headerSize] at *
  omega

theorem mem_join {b c : FreeBlock} (h : b.stop = c.start) {x : Nat} :
    x ∈ b.join c ↔ x ∈ b ∨ x ∈ c := by
  have := b.header_le_stop
  have := c.header_le_stop
  rw [mem_iff, mem_iff, mem_iff, join_stop b c h, join_start]
  omega

theorem Valid.join {b c : FreeBlock} (hb : b.Valid) (hc : c.Valid) (h : b.stop = c.start) :
    (b.join c).Valid where
  start_pos := hb.start_pos
  dvd_start := hb.dvd_start
  size_pos := Nat.lt_of_lt_of_le hb.size_pos (Nat.le_add_right ..)
  dvd_size := Nat.dvd_add hb.dvd_size (Nat.dvd_add (by decide) hc.dvd_size)
  stop_lt := join_stop b c h ▸ hc.stop_lt

end FreeBlock

open FreeBlock

/-! ### What a list of blocks covers -/

/-- An address lies in a block of the list. -/
def Covered (bs : List FreeBlock) (x : Nat) : Prop := ∃ b ∈ bs, x ∈ b

@[simp] theorem covered_nil (x : Nat) : ¬ Covered [] x := by
  simp [Covered]

@[simp] theorem covered_cons {b : FreeBlock} {bs : List FreeBlock} {x : Nat} :
    Covered (b :: bs) x ↔ x ∈ b ∨ Covered bs x := by
  simp [Covered]

@[simp] theorem covered_append {bs cs : List FreeBlock} {x : Nat} :
    Covered (bs ++ cs) x ↔ Covered bs x ∨ Covered cs x := by
  simp [Covered, or_and_right, exists_or]

/-- No two blocks of the list overlap, and addresses rise. -/
def Ordered (bs : List FreeBlock) : Prop := bs.Pairwise fun b c => b.stop ≤ c.start

/-- Between any two blocks of the list there is a gap, and addresses rise. -/
def Spaced (bs : List FreeBlock) : Prop := bs.Pairwise fun b c => b.stop < c.start

theorem Spaced.ordered {bs : List FreeBlock} (h : Spaced bs) : Ordered bs :=
  h.imp Nat.le_of_lt

theorem Spaced.trichotomy {bs : List FreeBlock} (h : Spaced bs) {b c : FreeBlock}
    (hb : b ∈ bs) (hc : c ∈ bs) : b = c ∨ b.stop < c.start ∨ c.stop < b.start := by
  induction bs with
  | nil => simp at hb
  | cons d bs ih =>
    obtain ⟨hd, hbs⟩ := List.pairwise_cons.1 h
    rcases List.mem_cons.1 hb with rfl | hb' <;> rcases List.mem_cons.1 hc with rfl | hc'
    · exact Or.inl rfl
    · exact Or.inr (Or.inl (hd c hc'))
    · exact Or.inr (Or.inr (hd b hb'))
    · exact ih hbs hb' hc'

/-! ### A list around one of its places -/

theorem mem_middle {b c : FreeBlock} {xs ys : List FreeBlock} :
    c ∈ xs ++ b :: ys ↔ c = b ∨ c ∈ xs ++ ys :=
  List.perm_middle.mem_iff.trans List.mem_cons

theorem sublist_middle (xs ys : List FreeBlock) (b : FreeBlock) :
    List.Sublist (xs ++ ys) (xs ++ b :: ys) :=
  (List.append_sublist_append_left xs).2 (List.sublist_cons_self b ys)

/-- A block can be put at a place where it stands right with all others. -/
theorem pairwise_insert {R : FreeBlock → FreeBlock → Prop} {xs ys : List FreeBlock} {b : FreeBlock}
    (h : (xs ++ ys).Pairwise R) (hxs : ∀ x ∈ xs, R x b) (hys : ∀ y ∈ ys, R b y) :
    (xs ++ b :: ys).Pairwise R := by
  obtain ⟨hx, hy, hxy⟩ := List.pairwise_append.1 h
  refine List.pairwise_append.2 ⟨hx, List.pairwise_cons.2 ⟨hys, hy⟩, fun x hx' c hc => ?_⟩
  rcases List.mem_cons.1 hc with rfl | hc
  · exact hxs x hx'
  · exact hxy x hx' c hc

/-- What holds of all blocks of a list still does when one is replaced by blocks of that kind. -/
theorem forall_replace {P : FreeBlock → Prop} {xs ys mid : List FreeBlock} {b : FreeBlock}
    (h : ∀ c ∈ xs ++ b :: ys, P c) (hmid : ∀ c ∈ mid, P c) : ∀ c ∈ xs ++ (mid ++ ys), P c := by
  intro c hc
  rcases List.mem_append.1 hc with hc | hc
  · exact h c (List.mem_append_left _ hc)
  · rcases List.mem_append.1 hc with hc | hc
    · exact hmid c hc
    · exact h c (List.mem_append_right _ (List.mem_cons_of_mem _ hc))

/-- A block of an ordered list can be replaced by blocks inside it. -/
theorem pairwise_replace {R : FreeBlock → FreeBlock → Prop} {xs ys mid : List FreeBlock}
    {b : FreeBlock} (h : (xs ++ b :: ys).Pairwise R) (hmid : mid.Pairwise R)
    (hleft : ∀ x, ∀ c ∈ mid, R x b → R x c) (hright : ∀ y, ∀ c ∈ mid, R b y → R c y) :
    (xs ++ (mid ++ ys)).Pairwise R := by
  obtain ⟨hx, hby, hxby⟩ := List.pairwise_append.1 h
  obtain ⟨hb, hy⟩ := List.pairwise_cons.1 hby
  refine List.pairwise_append.2 ⟨hx, List.pairwise_append.2 ⟨hmid, hy, ?_⟩, ?_⟩
  · intro c hc y hy'
    exact hright y c hc (hb y hy')
  · intro x hx' c hc
    rcases List.mem_append.1 hc with hc | hc
    · exact hleft x c hc (hxby x hx' b List.mem_cons_self)
    · exact hxby x hx' c (List.mem_cons_of_mem _ hc)

/-- A maximal run of addresses with a property, from `lo` up to and without `hi`. -/
structure IsRun (S : Nat → Prop) (lo hi : Nat) : Prop where
  /-- The run is not empty. -/
  lt : lo < hi
  /-- All its addresses have the property. -/
  inside : ∀ x, lo ≤ x → x < hi → S x
  /-- It cannot be extended downwards. -/
  below : ∀ x, x + 1 = lo → ¬ S x
  /-- It cannot be extended upwards. -/
  above : ¬ S hi

/-- A run of addresses that a spaced list covers lies in one of its blocks. -/
theorem Spaced.exists_of_run {bs : List FreeBlock} (h : Spaced bs) {lo hi : Nat} (hlt : lo < hi)
    (hin : ∀ x, lo ≤ x → x < hi → Covered bs x) : ∃ b ∈ bs, b.start ≤ lo ∧ hi ≤ b.stop := by
  obtain ⟨b, hb, hlo⟩ := hin lo (Nat.le_refl lo) hlt
  rw [mem_iff] at hlo
  -- The run goes on behind `b` only if another block starts right there.
  have hstop : ¬ b.stop < hi := by
    intro hbeyond
    obtain ⟨c, hc, hmem⟩ := hin b.stop (by omega) hbeyond
    rw [mem_iff] at hmem
    rcases h.trichotomy hb hc with rfl | hgap | hgap
    · omega
    · omega
    · have := b.header_le_stop
      omega
  exact ⟨b, hb, hlo.1, Nat.le_of_not_lt hstop⟩

/-- The maximal runs of what a spaced list covers are its blocks. -/
theorem Spaced.isRun_iff {bs : List FreeBlock} (h : Spaced bs) {lo hi : Nat} :
    IsRun (Covered bs) lo hi ↔ ∃ b ∈ bs, b.start = lo ∧ b.stop = hi := by
  constructor
  · rintro ⟨hlt, hin, hbelow, habove⟩
    obtain ⟨b, hb, hlo, hhi⟩ := h.exists_of_run hlt hin
    have hstart : ¬ b.start < lo := fun hc =>
      hbelow (lo - 1) (by omega) ⟨b, hb, by omega, by omega⟩
    have hstop : ¬ hi < b.stop := fun hc => habove ⟨b, hb, by omega, hc⟩
    exact ⟨b, hb, by omega, by omega⟩
  · rintro ⟨b, hb, rfl, rfl⟩
    have := b.header_le_stop
    refine ⟨by omega, fun x h₁ h₂ => ⟨b, hb, h₁, h₂⟩, ?_, ?_⟩
    · rintro x hx ⟨c, hc, hmem⟩
      rw [mem_iff] at hmem
      rcases h.trichotomy hb hc with rfl | hgap | hgap <;> omega
    · rintro ⟨c, hc, hmem⟩
      rw [mem_iff] at hmem
      rcases h.trichotomy hb hc with rfl | hgap | hgap <;> omega

/-- A spaced list is determined by what it covers. -/
theorem Spaced.eq_of_covered {bs cs : List FreeBlock} (hb : Spaced bs) (hc : Spaced cs)
    (h : ∀ x, Covered bs x ↔ Covered cs x) : bs = cs := by
  -- A block of one list is a maximal run of what both cover, so it is a block of the other.
  have hmem : ∀ {as ds : List FreeBlock}, Spaced as → Spaced ds →
      (∀ x, Covered as x ↔ Covered ds x) → ∀ a ∈ as, a ∈ ds := by
    intro as ds has hds hcov a ha
    have hrun := has.isRun_iff.2 ⟨a, ha, rfl, rfl⟩
    rw [show Covered as = Covered ds from funext fun x => propext (hcov x)] at hrun
    obtain ⟨d, hd, hstart, hstop⟩ := hds.isRun_iff.1 hrun
    rwa [← ext_of_bounds hstart hstop]
  have : Std.Antisymm fun b c : FreeBlock => b.stop < c.start := by
    refine ⟨fun b c h₁ h₂ => ?_⟩
    have := b.header_le_stop
    have := c.header_le_stop
    omega
  have : Std.Irrefl fun b c : FreeBlock => b.stop < c.start := by
    refine ⟨fun b hb => ?_⟩
    have := b.header_le_stop
    omega
  exact List.Pairwise.eq_of_mem_iff hb hc fun a =>
    ⟨hmem hb hc h a, hmem hc hb (fun x => (h x).symm) a⟩

/-! ### Putting a block in its place -/

/-- Put a block where its address belongs. -/
def insertBlock (b : FreeBlock) (bs : List FreeBlock) : List FreeBlock :=
  bs.orderedInsert (fun c d => c.start ≤ d.start) b

/-- A block that overlaps no block of an ordered list has a place in it. -/
theorem Ordered.exists_split {bs : List FreeBlock} (h : Ordered bs) {b : FreeBlock}
    (hb : ∀ c ∈ bs, b.Apart c) :
    ∃ xs ys, bs = xs ++ ys ∧ (∀ x ∈ xs, x.stop ≤ b.start) ∧ ∀ y ∈ ys, b.stop ≤ y.start := by
  induction bs with
  | nil => exact ⟨[], [], rfl, by simp, by simp⟩
  | cons c bs ih =>
    obtain ⟨hc, hbs⟩ := List.pairwise_cons.1 h
    rcases hb c List.mem_cons_self with hbefore | hafter
    · refine ⟨[], c :: bs, rfl, by simp, fun y hy => ?_⟩
      rcases List.mem_cons.1 hy with rfl | hy
      · exact hbefore
      · have := hc y hy
        have := c.header_le_stop
        omega
    · obtain ⟨xs, ys, rfl, hxs, hys⟩ := ih hbs fun d hd => hb d (List.mem_cons_of_mem _ hd)
      refine ⟨c :: xs, ys, rfl, fun x hx => ?_, hys⟩
      rcases List.mem_cons.1 hx with rfl | hx
      · exact hafter
      · exact hxs x hx

theorem insertBlock_eq {b : FreeBlock} {xs ys : List FreeBlock}
    (hxs : ∀ x ∈ xs, x.start < b.start) (hys : ∀ y ∈ ys, b.start < y.start) :
    insertBlock b (xs ++ ys) = xs ++ b :: ys := by
  induction xs with
  | nil =>
    cases ys with
    | nil => rfl
    | cons y ys => exact List.orderedInsert_cons_of_le _ _ (Nat.le_of_lt (hys y List.mem_cons_self))
  | cons x xs ih =>
    have hx := hxs x List.mem_cons_self
    have hrest := ih fun z hz => hxs z (List.mem_cons_of_mem _ hz)
    rw [List.cons_append, insertBlock, List.orderedInsert_of_not_le _ _ (by omega)]
    exact congrArg (x :: ·) hrest

theorem mem_insertBlock {b c : FreeBlock} {bs : List FreeBlock} :
    c ∈ insertBlock b bs ↔ c = b ∨ c ∈ bs :=
  List.mem_orderedInsert _

theorem covered_insertBlock {b : FreeBlock} {bs : List FreeBlock} {x : Nat} :
    Covered (insertBlock b bs) x ↔ x ∈ b ∨ Covered bs x := by
  simp [Covered, mem_insertBlock, or_and_right, exists_or]

theorem Ordered.insertBlock {b : FreeBlock} {bs : List FreeBlock} (h : Ordered bs)
    (hb : ∀ c ∈ bs, b.Apart c) : Ordered (insertBlock b bs) := by
  obtain ⟨xs, ys, rfl, hxs, hys⟩ := h.exists_split hb
  have := b.header_le_stop
  rw [insertBlock_eq (fun x hx => by have := hxs x hx; have := x.header_le_stop; omega)
    fun y hy => by have := hys y hy; omega]
  exact pairwise_insert h hxs hys

/-! ### Merging neighbours -/

/-- Merge runs of adjacent blocks, where the blocks of the list follow behind `c`. -/
def mergeInto (c : FreeBlock) : List FreeBlock → List FreeBlock
  | [] => [c]
  | b :: rest => if c.stop = b.start then mergeInto (c.join b) rest else c :: mergeInto b rest

/-- Merge runs of adjacent blocks. -/
def merged : List FreeBlock → List FreeBlock
  | [] => []
  | b :: rest => mergeInto b rest

theorem covered_mergeInto {c : FreeBlock} {bs : List FreeBlock} {x : Nat} :
    Covered (mergeInto c bs) x ↔ x ∈ c ∨ Covered bs x := by
  induction bs generalizing c with
  | nil => simp [mergeInto]
  | cons b rest ih =>
    rw [mergeInto]
    split
    · rename_i hadj
      rw [ih, mem_join hadj, covered_cons, or_assoc]
    · rw [covered_cons, ih, covered_cons]

/-- Merging changes nothing about what is covered. -/
theorem covered_merged {bs : List FreeBlock} {x : Nat} : Covered (merged bs) x ↔ Covered bs x := by
  cases bs with
  | nil => rfl
  | cons b rest => rw [merged, covered_mergeInto, covered_cons]

theorem Ordered.join {c b : FreeBlock} {rest : List FreeBlock} (h : Ordered (c :: b :: rest))
    (hadj : c.stop = b.start) : Ordered (c.join b :: rest) := by
  obtain ⟨-, hrest⟩ := List.pairwise_cons.1 h
  obtain ⟨hb, hrest⟩ := List.pairwise_cons.1 hrest
  refine List.pairwise_cons.2 ⟨fun d hd => ?_, hrest⟩
  rw [join_stop c b hadj]
  exact hb d hd

theorem start_le_of_mem_mergeInto {c d : FreeBlock} {bs : List FreeBlock}
    (h : Ordered (c :: bs)) (hd : d ∈ mergeInto c bs) : c.start ≤ d.start := by
  induction bs generalizing c with
  | nil =>
    rw [mergeInto, List.mem_singleton] at hd
    rw [hd]
  | cons b rest ih =>
    obtain ⟨hc, hrest⟩ := List.pairwise_cons.1 h
    rw [mergeInto] at hd
    split at hd
    · rename_i hadj
      have := ih (h.join hadj) hd
      rwa [join_start] at this
    · rcases List.mem_cons.1 hd with rfl | hd
      · exact Nat.le_refl _
      · have := ih hrest hd
        have := hc b List.mem_cons_self
        have := c.header_le_stop
        omega

theorem spaced_mergeInto {c : FreeBlock} {bs : List FreeBlock} (h : Ordered (c :: bs)) :
    Spaced (mergeInto c bs) := by
  induction bs generalizing c with
  | nil => exact List.pairwise_singleton ..
  | cons b rest ih =>
    obtain ⟨hc, hrest⟩ := List.pairwise_cons.1 h
    rw [mergeInto]
    split
    · rename_i hadj
      exact ih (h.join hadj)
    · rename_i hadj
      refine List.pairwise_cons.2 ⟨fun d hd => ?_, ih hrest⟩
      have := start_le_of_mem_mergeInto hrest hd
      have := hc b List.mem_cons_self
      omega

/-- Merging leaves a gap between any two blocks. -/
theorem Ordered.spaced_merged {bs : List FreeBlock} (h : Ordered bs) : Spaced (merged bs) := by
  cases bs with
  | nil => exact List.Pairwise.nil
  | cons b rest => exact spaced_mergeInto h

theorem valid_mergeInto {c : FreeBlock} {bs : List FreeBlock} (hc : c.Valid)
    (hbs : ∀ b ∈ bs, b.Valid) : ∀ d ∈ mergeInto c bs, d.Valid := by
  induction bs generalizing c with
  | nil => simpa [mergeInto] using hc
  | cons b rest ih =>
    obtain ⟨hb, hrest⟩ := List.forall_mem_cons.1 hbs
    rw [mergeInto]
    split
    · rename_i hadj
      exact ih (hc.join hb hadj) hrest
    · exact List.forall_mem_cons.2 ⟨hc, ih hb hrest⟩

theorem valid_merged {bs : List FreeBlock} (h : ∀ b ∈ bs, b.Valid) : ∀ b ∈ merged bs, b.Valid := by
  cases bs with
  | nil => exact h
  | cons b rest => exact valid_mergeInto (h b List.mem_cons_self) (List.forall_mem_cons.1 h).2

end PoolAlloc
