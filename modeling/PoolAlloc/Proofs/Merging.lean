import PoolAlloc.Proofs.Linking
/-!
# PoolAlloc.Proofs.Merging

The merging pass over the linked list, and with it how a block is given back.

The pass goes over the list with a candidate, the block in front of the cursor. Its invariant is
that the list consists of a finished part, the candidate and the blocks from the cursor on; what
it leaves is the finished part followed by `mergeInto` of the candidate and the rest
(`Holds.mergeRest`). On a whole list that is `merged` (`Holds.mergeAdjacent`). All the pass relies
on is that the blocks are linked and in order: sizes are arbitrary, and the last block may reach up
to the end of memory.

Main statement: giving a block back to a tidy list, one without neighbours to merge, leaves a tidy
list that covers the block in addition (`Tidy.giveBack`).
-/

namespace PoolAlloc

open Memory

namespace FreeList

/-- The list consists of valid blocks in address order, none of which overlap. -/
structure WellLinked (l : FreeList) (bs : List FreeBlock) : Prop where
  holds : l.Holds bs
  valid : ∀ b ∈ bs, b.Valid
  ordered : Ordered bs

/-- The list is well linked, and no two of its blocks touch. -/
structure Tidy (l : FreeList) (bs : List FreeBlock) : Prop where
  holds : l.Holds bs
  valid : ∀ b ∈ bs, b.Valid
  spaced : Spaced bs

variable {l : FreeList} {bs xs rest : List FreeBlock} {b c : FreeBlock}

theorem Tidy.wellLinked (h : l.Tidy bs) : l.WellLinked bs := ⟨h.holds, h.valid, h.spaced.ordered⟩

theorem WellLinked.tidy_merged {l' : FreeList} (h : l.WellLinked bs) (h' : l'.Holds (merged bs)) :
    l'.Tidy (merged bs) :=
  ⟨h', valid_merged h.valid, h.ordered.spaced_merged⟩

/-! ### One step of the pass -/

theorem blockEnd_eq {m : Memory} (hsize : m.size b.start = b.size) (hlt : b.stop < wordLimit) :
    m.blockEnd b.start = .ok b.stop := by
  have hstop := b.stop_eq
  have h₁ : b.start + headerSize < wordLimit := by
    simp only [headerSize]
    omega
  rw [Memory.blockEnd, sum_of_lt h₁, ok_bind, hsize, sum_of_lt]
  · rw [hstop, headerSize]
  · rw [headerSize]
    omega

/-- A candidate with a gap behind it absorbs nothing. -/
theorem Holds.absorb_of_gap (h : l.Holds (xs ++ c :: b :: rest)) (hgap : c.stop < b.start) :
    l.absorb (some c.start) b.start = .ok (b.start, l) := by
  obtain ⟨-, -, hsize, -⟩ := linked_cons.1 h.linked_right
  have hlt : c.stop < wordLimit := Nat.lt_trans hgap (h.placed b (by simp)).2
  simp only [absorb, blockEnd_eq hsize hlt, ok_bind]
  rw [if_neg (Nat.ne_of_lt hgap)]
  rfl

/-- A candidate absorbs the block that begins where it ends. -/
theorem Holds.absorb_of_adjacent (h : l.Holds (xs ++ c :: b :: rest)) (hadj : c.stop = b.start)
    (hend : b.stop ≤ wordLimit) :
    ∃ l', l.absorb (some c.start) b.start = .ok (c.start, l') ∧
      l'.Holds (xs ++ c.join b :: rest) ∧
      Edit l l' ((xs ++ c :: b :: rest).map FreeBlock.start) := by
  obtain ⟨-, -, hcsize, hlink⟩ := linked_cons.1 h.linked_right
  obtain ⟨-, -, hbsize, -⟩ := linked_cons.1 hlink
  have hlt : c.stop < wordLimit := hadj ▸ (h.placed b (by simp)).2
  have hjoin : (c.join b).size < wordLimit := by
    have := (c.join b).stop_eq
    rw [FreeBlock.join_stop c b hadj] at this
    omega
  have hjoin' : c.size + (headerSize + b.size) < wordLimit := hjoin
  have hset := h.setSize hjoin
  rw [List.append_cons] at hset
  obtain ⟨l', hl', hholds, he⟩ := hset.remove
  rw [← List.append_cons] at hholds
  refine ⟨l', ?_, hholds, ((edit_setSize ..).mono ?_).trans (he.mono ?_)⟩
  · simp only [absorb, blockEnd_eq hcsize hlt, ok_bind]
    rw [if_pos hadj, hbsize, hcsize, sum_of_lt (by omega), ok_bind, sum_of_lt hjoin', ok_bind]
    exact congrArg (fun r => r >>= fun l => pure (c.start, l)) hl'
  · intro a ha
    simp [List.mem_singleton.1 ha]
  · intro a ha
    simp only [List.map_append, List.map_cons, List.mem_append, List.mem_cons] at ha ⊢
    tauto

/-- The pass from a cursor on, which may have come to the end of the list. -/
def mergeRest (l : FreeList) (candidate : Nat) : Option Nat → Except Fault FreeList
  | none => .ok l
  | some block => l.mergeFrom (some candidate) block

/-- A step of the pass reads where the list goes on behind the cursor, and lets the candidate absorb
the block at the cursor. -/
theorem Holds.mergeFrom_eq (h : l.Holds (xs ++ b :: rest)) (candidate : Option Nat) :
    l.mergeFrom candidate b.start =
      l.absorb candidate b.start >>= fun r => r.2.mergeRest r.1 (firstOr rest none) := by
  obtain ⟨-, hnext, -, -⟩ := linked_cons.1 h.linked_right
  rw [FreeList.mergeFrom]
  cases rest with
  | nil =>
    rw [following_of_next_eq_none hnext]
    rfl
  | cons d rest =>
    have hrising := (List.pairwise_append.1 h.rising).2.1
    have hlt := (List.pairwise_cons.1 hrising).1 d List.mem_cons_self
    rw [following_of_next_eq_some hnext hlt]
    rfl

/-! ### The pass -/

/-- From a candidate `c` on, the pass merges what is adjacent and leaves the part in front of the
candidate as it is. -/
theorem Holds.mergeRest (h : l.Holds (xs ++ c :: rest)) (hordered : Ordered (c :: rest))
    (hend : ∀ b ∈ rest, b.stop ≤ wordLimit) :
    ∃ l', l.mergeRest c.start (firstOr rest none) = .ok l' ∧
      l'.Holds (xs ++ mergeInto c rest) ∧
      Edit l l' ((xs ++ c :: rest).map FreeBlock.start) := by
  -- On the blocks from the cursor on; the finished part grows and the list changes on the way.
  induction rest generalizing l xs c with
  | nil => exact ⟨l, rfl, h, Edit.refl ..⟩
  | cons b rest ih =>
    obtain ⟨hc, hrest⟩ := List.pairwise_cons.1 hordered
    obtain ⟨hb, hend⟩ := List.forall_mem_cons.1 hend
    have hcursor := h
    rw [List.append_cons] at hcursor
    have hstep := hcursor.mergeFrom_eq (some c.start)
    rcases Nat.eq_or_lt_of_le (hc b List.mem_cons_self) with hadj | hgap
    · obtain ⟨l₁, hl₁, hholds₁, he₁⟩ := h.absorb_of_adjacent hadj hb
      obtain ⟨l', hl', hholds, he⟩ := ih hholds₁ (hordered.join hadj) hend
      refine ⟨l', ?_, ?_, he₁.trans (he.mono ?_)⟩
      · rw [hl₁, ok_bind] at hstep
        exact hstep.trans hl'
      · rwa [mergeInto, if_pos hadj]
      · intro a ha
        simp only [List.map_append, List.map_cons, List.mem_append, List.mem_cons,
          FreeBlock.join_start] at ha ⊢
        tauto
    · -- The candidate is finished, and the block at the cursor is the next one.
      obtain ⟨l', hl', hholds, he⟩ := ih hcursor hrest hend
      refine ⟨l', ?_, ?_, ?_⟩
      · rw [h.absorb_of_gap hgap, ok_bind] at hstep
        exact hstep.trans hl'
      · rwa [mergeInto, if_neg (Nat.ne_of_lt hgap), List.append_cons]
      · rwa [List.append_cons]

/-- Where there is a gap behind every block, the pass changes nothing. -/
theorem Holds.mergeRest_of_spaced (h : l.Holds (xs ++ c :: rest)) (hspaced : Spaced (c :: rest)) :
    l.mergeRest c.start (firstOr rest none) = .ok l := by
  induction rest generalizing xs c with
  | nil => rfl
  | cons b rest ih =>
    obtain ⟨hc, hrest⟩ := List.pairwise_cons.1 hspaced
    have hstep := h.absorb_of_gap (hc b List.mem_cons_self)
    rw [List.append_cons] at h
    calc l.mergeFrom (some c.start) b.start
        = l.mergeRest b.start (firstOr rest none) := by rw [h.mergeFrom_eq, hstep, ok_bind]
      _ = .ok l := ih h hrest

/-- On a whole list the pass starts with its first block as the candidate. -/
theorem Holds.mergeAdjacent_eq (h : l.Holds (b :: rest)) :
    l.mergeAdjacent = l.mergeRest b.start (firstOr rest none) := by
  have hall : l.Holds ([] ++ b :: rest) := h
  rw [FreeList.mergeAdjacent, h.head_eq]
  exact hall.mergeFrom_eq none

/-- The merging pass joins the blocks of an ordered list to their neighbours. -/
theorem Holds.mergeAdjacent (h : l.Holds bs) (hordered : Ordered bs)
    (hend : ∀ b ∈ bs, b.stop ≤ wordLimit) :
    ∃ l', l.mergeAdjacent = .ok l' ∧ l'.Holds (merged bs) ∧
      Edit l l' (bs.map FreeBlock.start) := by
  cases bs with
  | nil =>
    refine ⟨l, ?_, h, Edit.refl ..⟩
    rw [FreeList.mergeAdjacent, holds_nil.1 h]
  | cons b rest =>
    have hall : l.Holds ([] ++ b :: rest) := h
    rw [h.mergeAdjacent_eq]
    exact hall.mergeRest hordered (List.forall_mem_cons.1 hend).2

/-- The merging pass changes nothing about a list without neighbours. -/
theorem Holds.mergeAdjacent_of_spaced (h : l.Holds bs) (hspaced : Spaced bs) :
    l.mergeAdjacent = .ok l := by
  cases bs with
  | nil => rw [FreeList.mergeAdjacent, holds_nil.1 h]
  | cons b rest =>
    have hall : l.Holds ([] ++ b :: rest) := h
    rw [h.mergeAdjacent_eq]
    exact hall.mergeRest_of_spaced hspaced

/-- The merging pass leaves the maximal runs of the listed blocks. -/
theorem WellLinked.mergeAdjacent (h : l.WellLinked bs) :
    ∃ l', l.mergeAdjacent = .ok l' ∧ l'.Tidy (merged bs) ∧
      Edit l l' (bs.map FreeBlock.start) := by
  obtain ⟨l', hl', hholds, he⟩ :=
    h.holds.mergeAdjacent h.ordered fun b hb => Nat.le_of_lt (h.valid b hb).stop_lt
  exact ⟨l', hl', h.tidy_merged hholds, he⟩

/-! ### Giving a block back -/

/-- Linking in a block that overlaps none of the list. -/
theorem WellLinked.insertOrdered (h : l.WellLinked bs) (hb : b.Valid)
    (hsize : l.mem.size b.start = b.size) (hap : ∀ c ∈ bs, b.Apart c) :
    ∃ l', l.insertOrdered b.start = .ok l' ∧ l'.WellLinked (insertBlock b bs) ∧
      Edit l l' ((b :: bs).map FreeBlock.start) := by
  obtain ⟨xs, ys, rfl, hxs, hys⟩ := h.ordered.exists_split hap
  have hxs' : ∀ x ∈ xs, x.start + headerSize ≤ b.start :=
    fun x hx => Nat.le_trans x.header_le_stop (hxs x hx)
  have hys' : ∀ y ∈ ys, b.start + headerSize ≤ y.start :=
    fun y hy => Nat.le_trans b.header_le_stop (hys y hy)
  have hhead : 0 < headerSize := by decide
  obtain ⟨l', hl', hholds, he⟩ := h.holds.insertOrdered hsize ⟨hb.start_pos, hb.start_lt⟩ hxs' hys'
  have heq : insertBlock b (xs ++ ys) = xs ++ b :: ys :=
    insertBlock_eq (fun x hx => by have := hxs' x hx; omega) fun y hy => by
      have := hys' y hy
      omega
  refine ⟨l', hl', ⟨heq ▸ hholds, ?_, h.ordered.insertBlock hap⟩, he.mono ?_⟩
  · intro c hc
    rcases mem_insertBlock.1 hc with rfl | hc
    · exact hb
    · exact h.valid c hc
  · intro a ha
    simp only [List.map_append, List.map_cons, List.mem_append, List.mem_cons] at ha ⊢
    tauto

/-- Giving a block back to a tidy list leaves a tidy list that covers the block in addition. -/
theorem Tidy.giveBack (h : l.Tidy bs) (hb : b.Valid) (hsize : l.mem.size b.start = b.size)
    (hap : ∀ c ∈ bs, b.Apart c) :
    ∃ l', l.giveBack b.start = .ok l' ∧ l'.Tidy (merged (insertBlock b bs)) ∧
      Edit l l' ((b :: bs).map FreeBlock.start) := by
  obtain ⟨l₁, hl₁, hlinked, he₁⟩ := h.wellLinked.insertOrdered hb hsize hap
  obtain ⟨l', hl', htidy, he⟩ := hlinked.mergeAdjacent
  refine ⟨l', by rw [FreeList.giveBack, hl₁, ok_bind, hl'], htidy, he₁.trans (he.mono ?_)⟩
  intro a ha
  obtain ⟨c, hc, rfl⟩ := List.mem_map.1 ha
  exact List.mem_map_of_mem (List.mem_cons.2 (mem_insertBlock.1 hc))

end FreeList

end PoolAlloc
