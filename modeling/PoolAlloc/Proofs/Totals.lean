import Mathlib.Data.Set.Card
import Mathlib.Order.Interval.Finset.Nat
import PoolAlloc.Proofs.Classification
import PoolAlloc.Proofs.Walking
/-!
# PoolAlloc.Proofs.Totals

What the totals over the free blocks say.

The two sums say how much memory is free: with a header for every block they count the free
addresses (`Ordered.encard_covered`), so they change by the span of a block that comes or goes,
however the free blocks around it are cut or merged (`totalSpan_of_tile`).

The largest size says what a request without a wish for the alignment will get. Payloads begin at
multiples of the granularity, so such a request never has slack in front of it, and sizes are
multiples as well, so rounding the request up does not step over the size of a block
(`plain_placements_nonempty_iff`).

Main statement: `totals_foretell`.
-/

namespace PoolAlloc

open FreeList Heap

variable {bs bs' : List FreeBlock} {g : FreeBlock} {n : Nat}

/-! ### The sums -/

/-- The number of bytes that blocks take up, headers included. -/
def totalSpan (bs : List FreeBlock) : Nat := (bs.map FreeBlock.span).sum

theorem totalSpan_eq (bs : List FreeBlock) :
    totalSpan bs = (bs.map FreeBlock.size).sum + headerSize * bs.length := by
  induction bs with
  | nil => rfl
  | cons b rest ih =>
    simp only [totalSpan, List.map_cons, List.sum_cons, List.length_cons] at ih ⊢
    rw [ih, FreeBlock.span, Nat.mul_add]
    omega

/-- A block takes up as many addresses as it spans. -/
theorem FreeBlock.encard (b : FreeBlock) : Set.encard { x | x ∈ b } = b.span := by
  have hblock : { x | x ∈ b } = (Finset.Ico b.start b.stop : Set Nat) := by
    ext x
    simp [FreeBlock.mem_iff]
  rw [hblock, Set.encard_coe_eq_coe_finsetCard, Nat.card_Ico, FreeBlock.stop,
    Nat.add_sub_cancel_left]

/-- A block beside others adds what it spans to what they take up. -/
theorem encard_covered_beside (hap : ∀ c ∈ bs, g.Apart c) :
    Set.encard { x | x ∈ g ∨ Covered bs x } = g.span + Set.encard { x | Covered bs x } := by
  have hdisjoint : Disjoint { x | x ∈ g } { x | Covered bs x } := by
    rw [Set.disjoint_left]
    rintro x hx ⟨c, hc, hxc⟩
    exact FreeBlock.apart_iff.1 (hap c hc) x hx hxc
  rw [Set.ofPred_or, Set.encard_union_eq hdisjoint, g.encard]

/-- Blocks that do not overlap take up as many addresses as they span together. -/
theorem Ordered.encard_covered (h : Ordered bs) :
    Set.encard { x | Covered bs x } = totalSpan bs := by
  induction bs with
  | nil => simp [totalSpan]
  | cons b rest ih =>
    obtain ⟨hb, hrest⟩ := List.pairwise_cons.1 h
    simp only [covered_cons, encard_covered_beside fun c hc => Or.inl (hb c hc), ih hrest]
    simp [totalSpan]

/-- Blocks that are the rest of others when one is cut out span as much as is left. -/
theorem totalSpan_of_tile (h : Ordered bs) (h' : Ordered bs') (hap : ∀ c ∈ bs', g.Apart c)
    (htile : ∀ x, Covered bs x ↔ x ∈ g ∨ Covered bs' x) :
    totalSpan bs = g.span + totalSpan bs' := by
  have hcard := encard_covered_beside hap
  simp only [← htile] at hcard
  rw [h.encard_covered, h'.encard_covered] at hcard
  exact_mod_cast hcard

/-! ### The largest size -/

theorem le_foldl_max {l : List Nat} {a : Nat} : n ≤ l.foldl max a ↔ n ≤ a ∨ ∃ b ∈ l, n ≤ b := by
  induction l generalizing a with
  | nil => simp
  | cons b rest ih => rw [List.foldl_cons, ih, le_max_iff, List.exists_mem_cons_iff, or_assoc]

/-- The totals over a list of blocks. -/
def FreeList.Summary.ofBlocks (bs : List FreeBlock) : Summary where
  count := bs.length
  bytes := (bs.map FreeBlock.size).sum
  largest := (bs.map FreeBlock.size).foldl max 0

theorem le_largest_iff (hn : n ≠ 0) : n ≤ (Summary.ofBlocks bs).largest ↔ ∃ b ∈ bs, n ≤ b.size := by
  rw [Summary.ofBlocks, le_foldl_max, or_iff_right (by omega)]
  simp

/-- A request without a wish for the alignment has a place if some block is as large. -/
theorem plain_placements_nonempty_iff (floor : Nat) (hvalid : ∀ b ∈ bs, b.Valid) :
    (placements floor granularity n bs).Nonempty ↔ ∃ b ∈ bs, n ≤ b.size := by
  constructor
  · rintro ⟨q, b, hb, hq⟩
    have hle := le_roundUp_granularity n
    have hfront := hq.payload_le
    have hroom := hq.room
    exact ⟨b, hb, by omega⟩
  · rintro ⟨b, hb, hle⟩
    have hround := roundUp_le hle (hvalid b hb).dvd_size
    have hdvd : granularity ∣ b.payload := Nat.dvd_add (hvalid b hb).dvd_start (by decide)
    exact ⟨b.payload, b, hb, by rwa [Nat.max_self], Or.inl rfl, by omega⟩

/-! ### Requests to the list -/

namespace Session

variable {s s' : Session}

theorem Sound.summary_eq (h : s.Sound bs) : s.list.summary = .ok (Summary.ofBlocks bs) :=
  h.tidy.wellLinked.summary_eq

/-- A request without a wish for the alignment is granted up to the largest size. -/
theorem Sound.allocate_eq (h : s.Sound bs) (n : Nat) :
    ∃ answer l', s.list.allocate n = .ok (answer, l') ∧
      (answer.isSome ↔ 1 ≤ n ∧ n ≤ (Summary.ofBlocks bs).largest) := by
  obtain ⟨answer, l', hl', hsome, hnone⟩ := h.allocateAligned_eq granularity n
  have hplaces := plain_placements_nonempty_iff (n := n) s.list.floor h.tidy.valid
  refine ⟨answer, l', hl', ?_⟩
  cases answer with
  | some q =>
    obtain ⟨hn, -, hleast⟩ := hsome q rfl
    have hlarge := (le_largest_iff hn).2 (hplaces.1 ⟨q, hleast.1⟩)
    exact iff_of_true rfl ⟨by omega, hlarge⟩
  | none =>
    refine iff_of_false Bool.false_ne_true ?_
    rintro ⟨hn, hlarge⟩
    have hnonempty := hplaces.2 ((le_largest_iff (by omega)).1 hlarge)
    rcases hnone rfl with hzero | hbad | hempty
    · omega
    · exact hbad isAlignment_granularity
    · exact hnonempty.ne_empty hempty

/-- Where not even one byte is granted nothing is free. -/
theorem Sound.eq_nil_of_refused {l' : FreeList} (h : s.Sound bs)
    (hrefused : s.list.allocate 1 = .ok (none, l')) : bs = [] := by
  obtain ⟨answer, l₁, hl₁, hforetold⟩ := h.allocate_eq 1
  obtain ⟨rfl, -⟩ := Prod.mk.inj (Except.ok.inj (hrefused.symm.trans hl₁))
  refine List.eq_nil_iff_forall_not_mem.2 fun b hb => ?_
  have hlarge := (le_largest_iff Nat.one_ne_zero).2 ⟨b, hb, (h.tidy.valid b hb).size_pos⟩
  exact Bool.false_ne_true (hforetold.2 ⟨Nat.le_refl 1, hlarge⟩)

/-- Requests for one byte, one after the other, are granted until nothing is free; then they are
refused. -/
def Drains (s : Session) : Prop :=
  ∃ answers s',
    s.run (List.replicate answers.length (.allocate granularity 1)) = .ok (answers, s') ∧
    (∀ answer ∈ answers, answer.isSome) ∧ s'.list.allocate 1 = .ok (none, s'.list) ∧
    s'.list.summary = .ok {}

theorem Sound.drains (h : s.Sound bs) : s.Drains := by
  -- Every grant takes a block out, so less is free afterwards.
  induction hspan : totalSpan bs using Nat.strong_induction_on generalizing s bs with
  | _ span ih =>
    obtain ⟨answer, s₁, bs₁, hs₁, he⟩ := h.perform (r := .allocate granularity 1) trivial
    cases he with
    | @granted _ _ g l₁ _ hplace ht =>
      have hless := totalSpan_of_tile h.tidy.spaced.ordered ht.tidy.spaced.ordered ht.cut.apart
        ht.cut.tile
      have hpos : 0 < g.span := Nat.lt_of_lt_of_le (by decide) ht.cut.valid.le_span
      obtain ⟨answers, s', hs', hanswers, hlast, hsummary⟩ :=
        ih (totalSpan bs₁) (by omega) (h.take ht) rfl
      refine ⟨some g.payload :: answers, s', ?_, List.forall_mem_cons.2 ⟨rfl, hanswers⟩, hlast,
        hsummary⟩
      rw [List.length_cons, List.replicate_succ, run, hs₁, ok_bind]
      simp only [hs', ok_bind]
      rfl
    | refused hplace =>
      have hrefused : s.list.allocate 1 = .ok (none, s.list) :=
        h.tidy.allocateAligned_of_none hplace
      obtain rfl := h.eq_nil_of_refused hrefused
      exact ⟨[], s, rfl, nofun, hrefused, h.summary_eq⟩

end Session

/-! ### Requests to a shared heap -/

namespace HeapSession

variable {u : HeapSession}

/-- Asking a heap for the totals answers them and leaves the list as it is. -/
theorem Sound.summary_eq (h : u.Sound bs) :
    ∃ run, Heap.summary u.run = .ok (Summary.ofBlocks bs) run ∧ freeList run = freeList u.run := by
  refine ⟨leave u.run (freeList u.run), ?_, freeList_leave rfl⟩
  have hl : (freeList u.run).summary = .ok (Summary.ofBlocks bs) := h.list.summary_eq
  rw [Heap.summary, locked_eq h.free, hl]
  rfl

/-- A heap grants without a wish for the alignment what its list grants. -/
theorem Sound.malloc_eq (h : u.Sound bs) (n : Nat) :
    ∃ answer run', Heap.malloc n u.run = .ok answer run' ∧
      (freeList u.run).allocate n = .ok (answer, freeList run') := by
  rw [Heap.malloc_eq]
  exact h.alignedMalloc_eq granularity n

end HeapSession

/-- In every reachable session, and in every reachable heap, a request without a wish for the
alignment is granted exactly up to the size of the largest free block. So one byte is refused only
where nothing is free, and asking for one byte over and over ends there. -/
theorem totals_foretell :
    (∀ s : Session, s.Reachable → ∃ totals, s.list.summary = .ok totals ∧
      (∀ n, ∃ answer l', s.list.allocate n = .ok (answer, l') ∧
        (answer.isSome ↔ 1 ≤ n ∧ n ≤ totals.largest)) ∧
      (∀ l', s.list.allocate 1 = .ok (none, l') → s.list.blocks = .ok [] ∧ totals = {}) ∧
      s.Drains) ∧
    ∀ u : HeapSession, u.Reachable → ∃ totals run, Heap.summary u.run = .ok totals run ∧
      freeList run = freeList u.run ∧
      (∀ n, ∃ answer run', Heap.malloc n u.run = .ok answer run' ∧
        (answer.isSome ↔ 1 ≤ n ∧ n ≤ totals.largest)) ∧
      ∀ run', Heap.malloc 1 u.run = .ok none run' →
        (freeList u.run).blocks = .ok [] ∧ totals = {} := by
  refine ⟨fun s hs => ?_, fun u hu => ?_⟩
  · obtain ⟨bs, hsound⟩ := hs.sound
    refine ⟨_, hsound.summary_eq, hsound.allocate_eq, fun l' hrefused => ?_, hsound.drains⟩
    obtain rfl := hsound.eq_nil_of_refused hrefused
    exact ⟨hsound.tidy.holds.blocks_eq, rfl⟩
  · obtain ⟨bs, hsound⟩ := hu.sound
    obtain ⟨run, hrun, hsame⟩ := hsound.summary_eq
    refine ⟨_, run, hrun, hsame, fun n => ?_, fun run' hrefused => ?_⟩
    · obtain ⟨answer, run', hrun', hl⟩ := hsound.malloc_eq n
      obtain ⟨answer', l', hl', hforetold⟩ := hsound.list.allocate_eq n
      obtain ⟨rfl, -⟩ := Prod.mk.inj (Except.ok.inj (hl.symm.trans hl'))
      exact ⟨answer, run', hrun', hforetold⟩
    · obtain ⟨answer, run₁, hrun₁, hl⟩ := hsound.malloc_eq 1
      obtain ⟨rfl, rfl⟩ := EStateM.Result.ok.inj (hrefused.symm.trans hrun₁)
      obtain rfl := hsound.list.eq_nil_of_refused hl
      exact ⟨hsound.list.tidy.holds.blocks_eq, rfl⟩

/-- The largest free block of the sample session has 256 bytes, that of the sample heap 64. -/
theorem foretold_sample :
    (∃ q l, Session.sample.list.allocate 256 = .ok (some q, l)) ∧
    (∃ l, Session.sample.list.allocate 257 = .ok (none, l)) ∧ Session.sample.Drains ∧
    (∃ q run, Heap.malloc 64 HeapSession.sample.run = .ok (some q) run) ∧
    ∃ run, Heap.malloc 65 HeapSession.sample.run = .ok none run := by
  obtain ⟨hlist, hheap⟩ := totals_foretell
  obtain ⟨totals, hsummary, hforetold, -, hdrains⟩ := hlist _ Session.sample_reachable
  obtain ⟨totals', run, hsummary', -, hforetold', -⟩ := hheap _ HeapSession.sample_reachable
  have htotals : Session.sample.list.summary.toOption = some ⟨2, 272, 256⟩ := by decide +kernel
  have htotals' : EStateM.run' Heap.summary HeapSession.sample.run = some ⟨2, 80, 64⟩ := by
    decide +kernel
  rw [hsummary] at htotals
  obtain rfl := Option.some.inj htotals
  obtain rfl := Option.some.inj ((Action.answer_of_ok hsummary').symm.trans htotals')
  obtain ⟨a, l, hl, ha⟩ := hforetold 256
  obtain ⟨b, l', hl', hb⟩ := hforetold 257
  obtain ⟨c, run₁, hrun₁, hc⟩ := hforetold' 64
  obtain ⟨d, run₂, hrun₂, hd⟩ := hforetold' 65
  obtain ⟨q, rfl⟩ := Option.isSome_iff_exists.1 (ha.2 (by decide))
  obtain ⟨q', rfl⟩ := Option.isSome_iff_exists.1 (hc.2 (by decide))
  obtain rfl := Option.not_isSome_iff_eq_none.1 (mt hb.1 (by decide))
  obtain rfl := Option.not_isSome_iff_eq_none.1 (mt hd.1 (by decide))
  exact ⟨⟨q, l, hl⟩, ⟨l', hl'⟩, hdrains, ⟨q', run₁, hrun₁⟩, ⟨run₂, hrun₂⟩⟩

end PoolAlloc
