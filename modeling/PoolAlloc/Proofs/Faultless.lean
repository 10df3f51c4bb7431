import PoolAlloc.Proofs.Aligning
/-!
# PoolAlloc.Proofs.Faultless

No client that keeps the contract meets a fault.

Every place that relies on an order of addresses, a size or a sum checks it and raises a fault
otherwise, so that it is enough to show that every run has a result. What is computed without a
check stays in the word range: the ends of blocks (`Session.WithinWords`), the split floor and the
sum it is computed from, the largest distance to an aligned payload, and the distance from an
address to its rounding.

Main statement: `runs_faultless`, for runs of a free list and for aligned grants from a heap.
-/

namespace PoolAlloc

open FreeList OffsetAligned

/-! ### Computations without a check -/

/-- Rounding up to an alignment leads to no lower address. -/
theorem le_of_roundUp? {start align aligned : Nat} (halign : IsAlignment align)
    (h : roundUp? start align = some aligned) : 0 < align ∧ start ≤ aligned := by
  have hpos : 0 < align := Nat.pos_of_isPowerOfTwo halign
  obtain ⟨-, rfl⟩ := roundUp?_eq_some.1 h
  exact ⟨hpos, le_roundUp start hpos⟩

/-- The split floor is computed from a sum that is a word whenever a unit more than what was asked
for is one. -/
theorem splitFloor_sum_lt_iff {minSplit : Nat} :
    max minSplit minBlockSpan + granularity < wordLimit ↔ minSplit + granularity < wordLimit := by
  rw [← Nat.add_max_add_right, Nat.max_lt, and_iff_left (by decide)]

/-- The split floor is a word even where that sum comes to the limit. -/
theorem splitFloor_lt {minSplit : Nat} (h : minSplit + granularity ≤ wordLimit) :
    splitFloor minSplit < wordLimit := by
  have hmax : max minSplit minBlockSpan + granularity ≤ wordLimit := by
    rw [← Nat.add_max_add_right]
    exact Nat.max_le.2 ⟨h, by decide⟩
  exact Nat.lt_of_lt_of_le (roundUp_lt _ (by decide)) hmax

/-- The largest distance to a payload at an alignment is a word. -/
theorem maxOffset_lt {align : Nat} (halign : IsAlignment align) (hword : align < wordLimit) :
    maxOffset align < wordLimit := by
  obtain ⟨k, rfl⟩ := halign
  have hk : k < 64 := (Nat.pow_lt_pow_iff_right (by decide)).1 hword
  have hle : 2 ^ k ≤ 2 ^ 63 := Nat.pow_le_pow_right (by decide) (Nat.le_of_lt_succ hk)
  calc maxOffset (2 ^ k) = 2 + (2 ^ k - 1) := rfl
    _ ≤ 2 + 2 ^ 63 := Nat.add_le_add_left (Nat.le_trans (Nat.sub_le ..) hle) 2
    _ < wordLimit := by decide

/-! ### Runs of a free list -/

namespace Session

/-- Requests that keep the contract, each in the session that those before it leave. -/
def Keeps (s : Session) : List Request → Prop
  | [] => True
  | r :: rs => r.Allowed s ∧ (s.after r).Keeps rs

/-- The walks over a session end, and everything it knows of lies below the word limit. -/
structure WithinWords (s : Session) : Prop where
  /-- The totals are words. -/
  summary : ∃ totals, s.list.summary = .ok totals
  /-- The free blocks end below the limit. -/
  free : ∃ bs, s.list.blocks = .ok bs ∧ ∀ b ∈ bs, b.stop < wordLimit
  /-- So do the granted blocks, and their headers lie in front of them. -/
  granted : ∀ p ∈ s.live, headerSize ≤ p ∧ p + s.list.usableSize p < wordLimit

variable {s : Session} {bs : List FreeBlock} {rs : List Request} {p : Nat}

theorem Reachable.withinWords (h : s.Reachable) : s.WithinWords := by
  obtain ⟨bs, hsound⟩ := h.sound
  refine ⟨⟨_, hsound.tidy.wellLinked.summary_eq⟩, ⟨bs, hsound.tidy.holds.blocks_eq, ?_⟩, ?_⟩
  · exact fun b hb => (hsound.tidy.valid b hb).stop_lt
  · intro p hp
    have hadd := hsound.headerOf_add hp
    exact ⟨by simp only [headerSize]; omega, hsound.payload_stop_lt hp⟩

/-- A run that keeps the contract has a result. -/
theorem Reachable.run (h : s.Reachable) (hrs : s.Keeps rs) :
    ∃ answers s', s.run rs = .ok (answers, s') ∧ s'.Reachable := by
  induction rs generalizing s with
  | nil => exact ⟨[], s, rfl, h⟩
  | cons r rs ih =>
    obtain ⟨hr, hrs⟩ := hrs
    obtain ⟨bs, hsound⟩ := h.sound
    obtain ⟨answer, s₁, bs₁, hs₁, -⟩ := hsound.perform hr
    have hafter : s.after r = s₁ := by
      rw [Session.after, hs₁]
      rfl
    rw [hafter] at hrs
    obtain ⟨answers, s', hs', hreach⟩ := ih (h.step hr hs₁) hrs
    refine ⟨answer :: answers, s', ?_, hreach⟩
    rw [Session.run, hs₁, ok_bind]
    simp only [hs', ok_bind]
    rfl

end Session

/-! ### No fault in any run -/

/-- Every run of a free list under the contract has a result, over any memory and with any split
floor, and stays within words; aligned grants from a reachable heap return; and what is computed
without a check is a word. The sum that the split floor is computed from is one exactly where
`minSplit + granularity` is; where that comes to the limit itself, only the floor still is one. -/
theorem runs_faultless :
    (∀ (minSplit : Nat) (mem : Memory) (rs : List Request), (Session.start minSplit mem).Keeps rs →
      ∃ answers s, (Session.start minSplit mem).run rs = .ok (answers, s) ∧ s.WithinWords) ∧
    (∀ u : HeapSession, u.Reachable → ∀ align size, ∃ (answer : Option Nat) (u' : HeapSession),
      alignedAlloc align size (around u.run) = .ok answer (around u'.run) ∧ u'.Reachable) ∧
    (∀ start align aligned, IsAlignment align → roundUp? start align = some aligned →
      0 < align ∧ start ≤ aligned) ∧
    (∀ minSplit, max minSplit minBlockSpan + granularity < wordLimit ↔
      minSplit + granularity < wordLimit) ∧
    (∀ minSplit, minSplit + granularity ≤ wordLimit → splitFloor minSplit < wordLimit) ∧
    ∀ align, IsAlignment align → align < wordLimit → maxOffset align < wordLimit := by
  refine ⟨fun minSplit mem rs hrs => ?_, fun u hu align size => ?_,
    fun _ _ _ halign h => le_of_roundUp? halign h, fun _ => splitFloor_sum_lt_iff,
    fun _ h => splitFloor_lt h,
    fun _ halign hword => maxOffset_lt halign hword⟩
  · obtain ⟨answers, s, hs, hreach⟩ := (Session.Reachable.start minSplit mem).run hrs
    exact ⟨answers, s, hs, hreach.withinWords⟩
  · obtain ⟨answer, u', halloc, hreach, -⟩ := hu.alignedAlloc align size
    exact ⟨answer, u', halloc, hreach⟩

/-- A run that grants a block, cuts it down and releases it, and an aligned grant from the sample
heap. -/
theorem faultless_sample :
    (∃ answers s, (Session.start 0 {}).run [.addRegion ⟨4096, 256⟩, .allocate 64 100,
      .resize 4160 64 40, .release 4160] = .ok (answers, s) ∧ s.WithinWords) ∧
    (∃ (answer : Option Nat) (u' : HeapSession),
      alignedAlloc 64 40 (around HeapSession.sample.run) = .ok answer (around u'.run)) ∧
    4097 ≤ 4104 ∧ max 100 minBlockSpan + granularity < wordLimit ∧
    splitFloor 100 < wordLimit ∧ maxOffset 4096 < wordLimit := by
  obtain ⟨hruns, haligned, hround, hsum, hfloor, hoffset⟩ := runs_faultless
  have hkeeps : (Session.start 0 {}).Keeps [.addRegion ⟨4096, 256⟩, .allocate 64 100,
      .resize 4160 64 40, .release 4160] := by
    refine ⟨⟨by decide, by decide, ?_⟩, trivial, ?_, ?_, trivial⟩
    · simp [Session.start]
    · show 4160 ∈ _
      decide +kernel
    · show 4160 ∈ _
      decide +kernel
  obtain ⟨answer, u', halloc, -⟩ := haligned _ HeapSession.sample_reachable 64 40
  exact ⟨hruns 0 {} _ hkeeps, ⟨answer, u', halloc⟩, (hround 4097 8 4104 ⟨3, rfl⟩ (by decide)).2,
    (hsum 100).2 (by decide), hfloor 100 (by decide), hoffset 4096 ⟨12, rfl⟩ (by decide)⟩

end PoolAlloc
