import PoolAlloc.Proofs.Merging
/-!
# PoolAlloc.Proofs.Runs

What one merging pass makes of any list of blocks in address order.

Between requests no two free blocks touch, and giving one block back brings up two pairs of
neighbours at most. The pass itself promises more. It may start on chains of neighbours of any
length, anywhere in the list, with blocks of any size, and it leaves the maximal runs of what they
cover (`MaximalRuns`) behind links that are whole again, so a second pass finds nothing to do.

Any list of blocks in address order can stand in memory like that: `threaded` writes its headers
(`holds_threaded`).

Main statement: `FreeList.Holds.merges_to_runs`.
-/

namespace PoolAlloc

open FreeBlock Memory

variable {bs rs rs' : List FreeBlock} {b c : FreeBlock} {x : Nat}

/-! ### The addresses of blocks, one after the other -/

/-- The addresses of a block as they rise, header included. -/
def FreeBlock.addresses (b : FreeBlock) : List Nat := List.range' b.start b.span

theorem FreeBlock.mem_addresses : x ∈ b.addresses ↔ x ∈ b :=
  List.mem_range'_1

theorem FreeBlock.addresses_join (h : b.stop = c.start) :
    (b.join c).addresses = b.addresses ++ c.addresses := by
  have hspan : (b.join c).span = b.span + c.span := (Nat.add_assoc ..).symm
  rw [addresses, addresses, addresses, hspan, ← h, join_start]
  exact List.range'_append_1.symm

theorem mem_flatMap_addresses : x ∈ bs.flatMap addresses ↔ Covered bs x := by
  simp only [List.mem_flatMap, mem_addresses, Covered]

theorem flatMap_addresses_mergeInto :
    (mergeInto c bs).flatMap addresses = c.addresses ++ bs.flatMap addresses := by
  induction bs generalizing c with
  | nil => rw [mergeInto, List.flatMap_singleton, List.flatMap_nil, List.append_nil]
  | cons b rest ih =>
    rw [mergeInto, List.flatMap_cons]
    split
    · rename_i hadj
      rw [ih, addresses_join hadj, List.append_assoc]
    · rw [List.flatMap_cons, ih]

/-- Merging leaves all addresses where they are in the row. -/
theorem flatMap_addresses_merged : (merged bs).flatMap addresses = bs.flatMap addresses := by
  cases bs with
  | nil => rfl
  | cons b rest => rw [merged, flatMap_addresses_mergeInto, List.flatMap_cons]

/-! ### Maximal runs -/

/-- The blocks `rs` are the maximal runs of the blocks `bs`. -/
structure MaximalRuns (bs rs : List FreeBlock) : Prop where
  /-- A block reaches from end to end of a maximal run of what is covered, and each such run is a
  block. -/
  isRun_iff : ∀ lo hi, IsRun (Covered bs) lo hi ↔ ∃ r ∈ rs, r.start = lo ∧ r.stop = hi
  /-- The same addresses are covered in the same order. -/
  addresses_eq : rs.flatMap addresses = bs.flatMap addresses
  /-- No two blocks are adjacent. -/
  spaced : Spaced rs

theorem Ordered.maximalRuns_merged (h : Ordered bs) : MaximalRuns bs (merged bs) where
  isRun_iff := fun lo hi => by
    have hcovered : Covered bs = Covered (merged bs) := funext fun _ => propext covered_merged.symm
    rw [hcovered]
    exact h.spaced_merged.isRun_iff
  addresses_eq := flatMap_addresses_merged
  spaced := h.spaced_merged

/-- A list of blocks has its maximal runs in one way only. -/
theorem MaximalRuns.unique (h : MaximalRuns bs rs) (h' : MaximalRuns bs rs') : rs = rs' := by
  refine h.spaced.eq_of_covered h'.spaced fun x => ?_
  rw [← mem_flatMap_addresses, ← mem_flatMap_addresses, h.addresses_eq, h'.addresses_eq]

/-! ### Threading blocks through memory -/

/-- Write the headers of blocks that stand behind `prev` at the end of a list. -/
def Memory.thread (m : Memory) (prev : Option Nat) : List FreeBlock → Memory
  | [] => m
  | b :: rest =>
    let m := (m.setPrev b.start prev).setNext b.start (firstOr rest none)
    (m.setSize b.start b.size).thread (some b.start) rest

theorem Memory.sameBut_thread (m : Memory) (prev : Option Nat) (bs : List FreeBlock) :
    SameBut m (m.thread prev bs) (bs.map start) := by
  induction bs generalizing m prev with
  | nil => exact SameBut.refl _ _
  | cons b rest ih =>
    have hheader : [b.start] ⊆ (b :: rest).map start := by simp
    have hrest : rest.map start ⊆ (b :: rest).map start := by simp
    refine SameBut.trans (SameBut.mono ?_ hheader) ((ih _ _).mono hrest)
    exact ((sameBut_setPrev _ _ _).trans (sameBut_setNext _ _ _)).trans (sameBut_setSize _ _ _)

theorem linked_thread {m : Memory} {prev : Option Nat} (hordered : Ordered bs)
    (hbs : ∀ b ∈ bs, 0 < b.start ∧ b.stop ≤ wordLimit)
    (hprev : ∀ p ∈ prev, 0 < p ∧ p < wordLimit) : Linked (m.thread prev bs) prev bs none := by
  induction bs generalizing m prev with
  | nil => exact trivial
  | cons b rest ih =>
    obtain ⟨hb, hrest⟩ := List.pairwise_cons.1 hordered
    obtain ⟨⟨hpos, hend⟩, hbs⟩ := List.forall_mem_cons.1 hbs
    have hstop := b.stop_eq
    have hnext : ∀ n ∈ firstOr rest none, 0 < n ∧ n < wordLimit := by
      intro n hn
      obtain ⟨c, hc, rfl⟩ := FreeList.firstOr_mem hn
      obtain ⟨hcpos, hcend⟩ := hbs c hc
      have := c.header_le_stop
      exact ⟨hcpos, by omega⟩
    -- The headers behind `b` are written last; they lie beside its own.
    have hsame := sameBut_thread (((m.setPrev b.start prev).setNext b.start
      (firstOr rest none)).setSize b.start b.size) (some b.start) rest
    have hap : ∀ a ∈ rest.map start, HeadersApart b.start a := by
      intro a ha
      obtain ⟨c, hc, rfl⟩ := List.mem_map.1 ha
      exact Or.inl (Nat.le_trans b.header_le_stop (hb c hc))
    refine linked_cons.2 ⟨?_, ?_, ?_, ih hrest hbs fun p hp => ?_⟩
    · rw [thread, hsame.prev_eq hap, prev_setSize, prev_setNext, prev_setPrev _ _ hprev]
    · rw [thread, hsame.next_eq hap, next_setSize, next_setNext _ _ hnext]
    · rw [thread, hsame.size_eq hap, size_setSize _ _ (by omega)]
    · obtain rfl := Option.some.inj hp
      exact ⟨hpos, by omega⟩

namespace FreeList

/-- The list of certain free blocks, in a memory where nothing else is written. -/
def threaded (bs : List FreeBlock) : FreeList where
  head := firstOr bs none
  mem := ({} : Memory).thread none bs

/-- Blocks in address order can be threaded through memory. -/
theorem holds_threaded (hordered : Ordered bs)
    (hbs : ∀ b ∈ bs, 0 < b.start ∧ b.stop ≤ wordLimit) : (threaded bs).Holds bs where
  head_eq := rfl
  linked := linked_thread hordered hbs (by simp)
  apart := hordered.imp fun {b _} => Nat.le_trans b.header_le_stop
  placed := by
    intro b hb
    obtain ⟨hpos, hend⟩ := hbs b hb
    have := b.header_le_stop
    exact ⟨hpos, by omega⟩

/-! ### One pass -/

/-- Whatever neighbours a list of blocks in address order has, one merging pass comes to its end and
leaves the list of their maximal runs, linked both ways. It writes no byte outside the headers of
the blocks it was given, and a second pass changes nothing at all. -/
theorem Holds.merges_to_runs {l : FreeList} (h : l.Holds bs) (hordered : Ordered bs)
    (hend : ∀ b ∈ bs, b.stop ≤ wordLimit) :
    ∃ l' rs, l.mergeAdjacent = .ok l' ∧ l'.Holds rs ∧ MaximalRuns bs rs ∧
      SameBut l.mem l'.mem (bs.map start) ∧ l'.mergeAdjacent = .ok l' := by
  obtain ⟨l', hl', hholds, he⟩ := h.mergeAdjacent hordered hend
  exact ⟨l', merged bs, hl', hholds, hordered.maximalRuns_merged, he.sameBut,
    hholds.mergeAdjacent_of_spaced hordered.spaced_merged⟩

/-- Three blocks in a row at the head, one of them without a payload, and two in a row at the tail,
up to the end of memory. -/
def chains : List FreeBlock :=
  [⟨4096, 8⟩, ⟨4128, 0⟩, ⟨4152, 16⟩, ⟨wordLimit - 56, 8⟩, ⟨wordLimit - 24, 0⟩]

theorem merges_chains :
    (threaded chains).Holds chains ∧ Ordered chains ∧ (∀ b ∈ chains, b.stop ≤ wordLimit) ∧
      ∃ l', (threaded chains).mergeAdjacent = .ok l' ∧
        l'.Holds [⟨4096, 72⟩, ⟨wordLimit - 56, 32⟩] ∧ l'.mergeAdjacent = .ok l' := by
  have hordered : Ordered chains := by
    unfold Ordered
    decide
  have hend : ∀ b ∈ chains, b.stop ≤ wordLimit := by decide
  have hholds : (threaded chains).Holds chains := holds_threaded hordered (by decide)
  obtain ⟨l', rs, hl', hrs, hruns, -, hagain⟩ := hholds.merges_to_runs hordered hend
  obtain rfl := hruns.unique hordered.maximalRuns_merged
  exact ⟨hholds, hordered, hend, l', hl', hrs, hagain⟩

end FreeList

end PoolAlloc
