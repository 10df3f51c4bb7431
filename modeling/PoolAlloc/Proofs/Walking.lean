import Mathlib.Algebra.GroupWithZero.Nat
import PoolAlloc.Proofs.Soundness
/-!
# PoolAlloc.Proofs.Walking

Every walk over a well linked list visits exactly its blocks.

The list lives in memory that also holds the stale links of granted blocks, so each walk trusts
the links it follows. `Chain` says what these are, `Walks` what the walks answer, and `Edits` that
linking in and unlinking are insertion into and removal from the list of blocks. All three hold of
any well linked list (`WellLinked.chain`, `WellLinked.walks`, `WellLinked.edits`), so also between
the steps of a request, where neighbours may touch that are not merged yet.

Main statement: `Reachable.list_wellLinked`.
-/

namespace PoolAlloc

open Memory

namespace FreeList

variable {l : FreeList} {bs xs ys : List FreeBlock} {b : FreeBlock} {a : Nat}

/-! ### Totals -/

/-- Blocks that do not overlap fit between their bounds, headers included. -/
theorem sum_le_of_ordered (lo hi : Nat) (h : Ordered bs) (hlo : ∀ b ∈ bs, lo ≤ b.start)
    (hhi : ∀ b ∈ bs, b.stop ≤ hi) (hle : lo ≤ hi) :
    lo + ((bs.map FreeBlock.size).sum + 24 * bs.length) ≤ hi := by
  -- The first block takes up what lies between the old lower bound and the new one.
  induction bs generalizing lo with
  | nil => simpa using hle
  | cons b rest ih =>
    obtain ⟨hb, hrest⟩ := List.pairwise_cons.1 h
    obtain ⟨hblo, -⟩ := List.forall_mem_cons.1 hlo
    obtain ⟨hbhi, hhi⟩ := List.forall_mem_cons.1 hhi
    have hrest' := ih b.stop hrest hb hhi hbhi
    rw [b.stop_eq] at hrest'
    simp only [List.map_cons, List.sum_cons, List.length_cons]
    omega

/-- Totals that are words are computed without a fault. -/
theorem foldlM_add {acc : Summary} (hcount : acc.count + bs.length < wordLimit)
    (hbytes : acc.bytes + (bs.map FreeBlock.size).sum < wordLimit) :
    bs.foldlM Summary.add acc = .ok
      { count := acc.count + bs.length, bytes := acc.bytes + (bs.map FreeBlock.size).sum,
        largest := (bs.map FreeBlock.size).foldl max acc.largest } := by
  induction bs generalizing acc with
  | nil => rfl
  | cons b rest ih =>
    simp only [List.map_cons, List.sum_cons, List.length_cons] at hcount hbytes
    have hadd : acc.add b = .ok
        { count := acc.count + 1, bytes := acc.bytes + b.size,
          largest := max acc.largest b.size } := by
      rw [Summary.add, sum_of_lt (by omega), ok_bind, sum_of_lt (by omega), ok_bind]
      rfl
    rw [List.foldlM_cons, hadd, ok_bind, ih (by simp only; omega) (by simp only; omega)]
    simp only [List.map_cons, List.sum_cons, List.length_cons, List.foldl_cons, Except.ok.injEq,
      Summary.mk.injEq, and_true]
    omega

/-! ### The place of an address -/

/-- An address that is no header has a place among rising headers. -/
theorem exists_place (h : bs.Pairwise fun b c => b.start < c.start)
    (ha : ∀ b ∈ bs, b.start ≠ a) :
    ∃ xs ys, bs = xs ++ ys ∧ (∀ x ∈ xs, x.start < a) ∧ ∀ y ∈ ys, a < y.start := by
  induction bs with
  | nil => exact ⟨[], [], rfl, by simp, by simp⟩
  | cons b rest ih =>
    obtain ⟨hb, hrest⟩ := List.pairwise_cons.1 h
    obtain ⟨hba, harest⟩ := List.forall_mem_cons.1 ha
    by_cases hlt : b.start < a
    · obtain ⟨xs, ys, rfl, hxs, hys⟩ := ih hrest harest
      exact ⟨b :: xs, ys, rfl, List.forall_mem_cons.2 ⟨hlt, hxs⟩, hys⟩
    · have hgt : a < b.start := by omega
      refine ⟨[], b :: rest, rfl, by simp, List.forall_mem_cons.2 ⟨hgt, fun y hy => ?_⟩⟩
      exact Nat.lt_trans hgt (hb y hy)

/-- The search for the place of an address answers the last block below it. -/
theorem Holds.predecessor_eq_filter (h : l.Holds bs) (ha : ∀ b ∈ bs, b.start ≠ a) :
    l.predecessor a = .ok (lastOr none (bs.filter fun b => b.start < a)) := by
  obtain ⟨xs, ys, rfl, hxs, hys⟩ := exists_place h.rising ha
  have hbelow : xs.filter (fun b => b.start < a) = xs :=
    List.filter_eq_self.2 fun x hx => decide_eq_true (hxs x hx)
  have habove : ys.filter (fun b => b.start < a) = [] :=
    List.filter_eq_nil_iff.2 fun y hy => by
      have := hys y hy
      simp only [decide_eq_true_eq]
      omega
  rw [h.predecessor_eq hxs hys, List.filter_append, hbelow, habove, List.append_nil]

/-! ### Well linked lists -/

/-- The links of a list are those of its blocks, one after the other. -/
structure Chain (l : FreeList) (bs : List FreeBlock) : Prop where
  /-- The head is the first block. -/
  head_eq : l.head = firstOr bs none
  /-- Each block links back to the one in front of it and on to the one behind it; the first has
  nothing in front of it and the last has nothing behind it. -/
  links : ∀ xs b ys, bs = xs ++ b :: ys → l.mem.prev b.start = lastOr none xs ∧
    l.mem.next b.start = firstOr ys none ∧ l.mem.size b.start = b.size
  /-- Addresses rise. -/
  rising : bs.Pairwise fun b c => b.start < c.start
  /-- Blocks come in whole units. -/
  units : ∀ b ∈ bs, granularity ∣ b.start ∧ granularity ∣ b.size ∧ 0 < b.size

/-- What the walks over a list answer. -/
structure Walks (l : FreeList) (bs : List FreeBlock) : Prop where
  /-- The view of the list. -/
  blocks : l.blocks = .ok bs
  /-- The totals. -/
  summary : l.summary = .ok
    { count := bs.length, bytes := (bs.map FreeBlock.size).sum,
      largest := (bs.map FreeBlock.size).foldl max 0 }
  /-- The search for a block that fits looks at the blocks first to last. -/
  firstFit : ∀ align size, IsAlignment align → l.firstFit align size =
    .ok (bs.findSome? fun b => (fit? l.floor b.payload b.size align size).map (b.start, ·))
  /-- The search for the place of an address passes the blocks below it. -/
  predecessor : ∀ a, (∀ b ∈ bs, b.start ≠ a) →
    l.predecessor a = .ok (lastOr none (bs.filter fun b => b.start < a))
  /-- The merging pass joins every block to its neighbours, taking blocks out on its way. -/
  mergeAdjacent : ∃ l', l.mergeAdjacent = .ok l' ∧ l'.Tidy (merged bs)

/-- What linking and unlinking do to a list. -/
structure Edits (l : FreeList) (bs : List FreeBlock) : Prop where
  /-- A block that overlaps none of the list is linked in where its address belongs. -/
  insertOrdered : ∀ b : FreeBlock, b.Valid → l.mem.size b.start = b.size → (∀ c ∈ bs, b.Apart c) →
    ∃ l', l.insertOrdered b.start = .ok l' ∧ l'.WellLinked (insertBlock b bs)
  /-- A block is linked in behind the blocks below it. -/
  insertAfter : ∀ xs b ys, bs = xs ++ ys → b.Valid → l.mem.size b.start = b.size →
    (∀ x ∈ xs, x.stop ≤ b.start) → (∀ y ∈ ys, b.stop ≤ y.start) →
    ∃ l', l.insertAfter (lastOr none xs) b.start = .ok l' ∧ l'.WellLinked (xs ++ b :: ys)
  /-- A block is taken out. -/
  remove : ∀ xs b ys, bs = xs ++ b :: ys →
    ∃ l', l.remove b.start = .ok l' ∧ l'.WellLinked (xs ++ ys)

theorem WellLinked.chain (h : l.WellLinked bs) : Chain l bs where
  head_eq := h.holds.head_eq
  links := by
    intro xs b ys heq
    subst heq
    obtain ⟨hprev, hnext, hsize, -⟩ := linked_cons.1 h.holds.linked_right
    exact ⟨hprev, hnext, hsize⟩
  rising := h.holds.rising
  units := fun b hb => ⟨(h.valid b hb).dvd_start, (h.valid b hb).dvd_size, (h.valid b hb).size_pos⟩

theorem WellLinked.summary_eq (h : l.WellLinked bs) :
    l.summary = .ok
      { count := bs.length, bytes := (bs.map FreeBlock.size).sum,
        largest := (bs.map FreeBlock.size).foldl max 0 } := by
  have hsum := sum_le_of_ordered 0 (wordLimit - 1) h.ordered (fun _ _ => Nat.zero_le _)
    (fun b hb => Nat.le_sub_one_of_lt (h.valid b hb).stop_lt) (Nat.zero_le _)
  have hlimit : 0 < wordLimit := by decide
  rw [FreeList.summary, h.holds.blocks_eq, ok_bind, foldlM_add (by simp only; omega)
    (by simp only; omega)]
  simp

theorem WellLinked.walks (h : l.WellLinked bs) : Walks l bs where
  blocks := h.holds.blocks_eq
  summary := h.summary_eq
  firstFit := fun _ _ halign => h.holds.firstFit_eq halign
  predecessor := fun _ ha => h.holds.predecessor_eq_filter ha
  mergeAdjacent := by
    obtain ⟨l', hl', htidy, -⟩ := h.mergeAdjacent
    exact ⟨l', hl', htidy⟩

theorem WellLinked.edits (h : l.WellLinked bs) : Edits l bs where
  insertOrdered := by
    intro b hb hsize hap
    obtain ⟨l', hl', hlinked, -⟩ := h.insertOrdered hb hsize hap
    exact ⟨l', hl', hlinked⟩
  insertAfter := by
    intro xs b ys heq hb hsize hxs hys
    subst heq
    obtain ⟨l', hl', hholds, -⟩ := h.holds.insertAfter hsize ⟨hb.start_pos, hb.start_lt⟩
      (fun x hx => Nat.le_trans x.header_le_stop (hxs x hx))
      (fun y hy => Nat.le_trans b.header_le_stop (hys y hy))
    refine ⟨l', hl', hholds, fun c hc => ?_, pairwise_insert h.ordered hxs hys⟩
    rcases mem_middle.1 hc with rfl | hc
    · exact hb
    · exact h.valid c hc
  remove := by
    intro xs b ys heq
    subst heq
    obtain ⟨l', hl', hholds, -⟩ := h.holds.remove
    have hsub := sublist_middle xs ys b
    exact ⟨l', hl', hholds, fun c hc => h.valid c (hsub.subset hc), h.ordered.sublist hsub⟩

end FreeList

/-- The list of a reachable session is well linked; and on a well linked list the links are those of
its blocks, every walk visits exactly these, and linking and unlinking edit them. -/
theorem Session.Reachable.list_wellLinked {s : Session} (h : s.Reachable) :
    (∃ bs, s.list.WellLinked bs) ∧
      ∀ l bs, FreeList.WellLinked l bs → l.Chain bs ∧ l.Walks bs ∧ l.Edits bs := by
  obtain ⟨bs, hsound⟩ := h.sound
  exact ⟨⟨bs, hsound.tidy.wellLinked⟩, fun l bs hl => ⟨hl.chain, hl.walks, hl.edits⟩⟩

/-- The list of the sample has two blocks, linked to each other. -/
theorem Session.wellLinked_sample :
    sample.list.Chain [⟨4096, 16⟩, ⟨4328, 256⟩] ∧ sample.list.Walks [⟨4096, 16⟩, ⟨4328, 256⟩] ∧
      sample.list.Edits [⟨4096, 16⟩, ⟨4328, 256⟩] := by
  obtain ⟨⟨bs, hlinked⟩, hspec⟩ := Reachable.list_wellLinked sample_reachable
  have hblocks : sample.list.blocks.toOption = some [⟨4096, 16⟩, ⟨4328, 256⟩] := by decide +kernel
  rw [hlinked.holds.blocks_eq] at hblocks
  obtain rfl := Option.some.inj hblocks
  exact hspec _ _ hlinked

end PoolAlloc
