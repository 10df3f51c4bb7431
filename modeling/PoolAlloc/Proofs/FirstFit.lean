import PoolAlloc.Proofs.Slack
import PoolAlloc.Proofs.Soundness
/-!
# PoolAlloc.Proofs.FirstFit

Which address a request for memory gets.

The search computes with words and passes a block over as soon as a sum is none. Here the addresses
that a request may get are described over all naturals (`Placement`), and the search is shown to
answer the least of them. Two things make that true. A sum that is no word hides no address: the
slack is refused only where it leads out of the address space (`slack?_eq`), and blocks end before
that. And the first block with a placement has the least one, because blocks lie one behind another.

Main statement: `Reachable.allocates_least`.
-/

namespace PoolAlloc

open FreeList

/-- A block is passed over only where its payload has no room. -/
theorem fit?_eq {floor start room align size : Nat} (halign : IsAlignment align)
    (hstart : 0 < start) (hend : start + room < wordLimit) :
    fit? floor start room align size =
      if size + leastSlack floor start align ≤ room then some (leastSlack floor start align)
      else none := by
  have hup : roundUp start align ≤ start + leastSlack floor start align :=
    roundUp_le (Nat.le_add_right ..) (leastSlack_spec floor start (isAlignment_pos halign)).1
  rw [fit?, slack?_eq halign (Or.inl hstart)]
  by_cases hroom : size + leastSlack floor start align ≤ room
  · rw [if_pos ⟨by omega, by omega⟩, if_pos hroom, Option.bind_eq_bind, Option.bind_some,
      addChecked, if_pos (by omega), Option.bind_some, if_pos hroom]
  · rw [if_neg hroom]
    split
    · rw [Option.bind_eq_bind, Option.bind_some, addChecked]
      split
      · rw [Option.bind_some, if_neg hroom]
      · rfl
    · rfl

/-! ### Placements -/

/-- A request for `size` bytes at a multiple of `align` may get the address `q` in the free block
`b`. The payload reaches over whole units, and what is left in front of it is nothing or a block
that the split floor admits. -/
structure Placement (floor align size : Nat) (b : FreeBlock) (q : Nat) : Prop where
  aligned : max align granularity ∣ q
  slack : q = b.payload ∨ b.payload + floor ≤ q
  room : q + roundUp size granularity ≤ b.payload + b.size

/-- The addresses that a request may get in one of the free blocks. -/
def placements (floor align size : Nat) (bs : List FreeBlock) : Set Nat :=
  { q | ∃ b ∈ bs, Placement floor align size b q }

variable {floor align size slack : Nat} {bs bs' : List FreeBlock} {b g : FreeBlock} {q : Nat}

theorem Placement.payload_le (h : Placement floor align size b q) : b.payload ≤ q := by
  rcases h.slack with heq | hle
  · exact Nat.le_of_eq heq.symm
  · omega

theorem Placement.stop_le (h : Placement floor align size b q) :
    q + roundUp size granularity ≤ b.stop :=
  b.payload_add_size ▸ h.room

/-- A placement lies behind the least slack of its block. -/
theorem Placement.leastSlack_le (h : Placement floor align size b q) :
    b.payload + leastSlack floor b.payload (max align granularity) ≤ q := by
  have hle := h.payload_le
  have hdvd : max align granularity ∣ b.payload + (q - b.payload) := by
    rw [Nat.add_sub_cancel' hle]
    exact h.aligned
  have hslack : q - b.payload = 0 ∨ floor ≤ q - b.payload := by
    rcases h.slack with heq | hfloor <;> omega
  have hleast := PoolAlloc.leastSlack_le (max_granularity_pos align) hdvd hslack
  omega

/-- The least slack of a block leads to a placement if it leaves room for the payload. -/
theorem placement_leastSlack (h : roundUp size granularity +
      leastSlack floor b.payload (max align granularity) ≤ b.size) :
    Placement floor align size b
      (b.payload + leastSlack floor b.payload (max align granularity)) := by
  obtain ⟨hdvd, hslack⟩ := leastSlack_spec floor b.payload (max_granularity_pos align)
  exact ⟨hdvd, hslack.imp (fun hzero => by rw [hzero, Nat.add_zero]) (Nat.add_le_add_left · _),
    by omega⟩

/-- The search looks for the least placement in a block. -/
theorem fit?_block (hb : b.Valid) (halign : IsAlignment align) :
    fit? floor b.payload b.size (max align granularity) (roundUp size granularity) =
      if roundUp size granularity + leastSlack floor b.payload (max align granularity) ≤ b.size then
        some (leastSlack floor b.payload (max align granularity))
      else none := by
  have hpos : 0 < b.payload := Nat.lt_of_lt_of_le hb.start_pos (Nat.le_add_right ..)
  exact fit?_eq (isAlignment_max halign) hpos (b.payload_add_size ▸ hb.stop_lt)

theorem isLeast_of_fit? (hb : b.Valid) (halign : IsAlignment align)
    (h : fit? floor b.payload b.size (max align granularity) (roundUp size granularity) =
      some slack) :
    IsLeast { q | Placement floor align size b q } (b.payload + slack) := by
  rw [fit?_block hb halign] at h
  split at h
  · rename_i hroom
    obtain rfl := Option.some.inj h
    exact ⟨placement_leastSlack hroom, fun q hq => hq.leastSlack_le⟩
  · cases h

theorem not_placement_of_fit? (hb : b.Valid) (halign : IsAlignment align)
    (h : fit? floor b.payload b.size (max align granularity) (roundUp size granularity) = none) :
    ¬ Placement floor align size b q := by
  intro hq
  rw [fit?_block hb halign] at h
  split at h
  · cases h
  · rename_i hroom
    have := hq.leastSlack_le
    have := hq.room
    omega

/-- A request that is granted gets the least address it may get. -/
theorem isLeast_of_place? (hvalid : ∀ b ∈ bs, b.Valid) (hspaced : Spaced bs)
    (h : place? floor align size bs = some (g, bs')) :
    IsLeast (placements floor align size bs) g.payload := by
  obtain ⟨-, halign, -, hgrant⟩ := place?_eq_some h
  obtain ⟨xs, b, ys, slack, rfl, hxs, hfit, rfl, -⟩ := grant_eq_some hgrant
  obtain ⟨hplaced, hleast⟩ := isLeast_of_fit? (hvalid b (by simp)) halign hfit
  have hpayload : ((b.trim slack).shrunk floor (roundUp size granularity)).payload =
      b.payload + slack := by
    rw [FreeBlock.payload_eq, FreeBlock.shrunk_start, FreeBlock.trim_start, FreeBlock.payload_eq]
    omega
  rw [hpayload]
  refine ⟨⟨b, by simp, hplaced⟩, ?_⟩
  rintro q ⟨c, hc, hq⟩
  rcases List.mem_append.1 hc with hc | hc
  · exact absurd hq (not_placement_of_fit? (hvalid c (List.mem_append_left _ hc)) halign (hxs c hc))
  · rcases List.mem_cons.1 hc with rfl | hc
    · exact hleast hq
    · -- The block lies behind `b`, and so does everything in it.
      have hbehind := (List.pairwise_cons.1 (List.pairwise_append.1 hspaced).2.1).1 c hc
      calc b.payload + slack ≤ b.stop := Nat.le_trans (Nat.le_add_right ..) hplaced.stop_le
        _ ≤ c.start := Nat.le_of_lt hbehind
        _ ≤ c.payload := Nat.le_add_right ..
        _ ≤ q := hq.payload_le

/-- A request that is refused makes no sense, or there is no address that it may get. -/
theorem place?_eq_none_iff (hvalid : ∀ b ∈ bs, b.Valid) (hspaced : Spaced bs) :
    place? floor align size bs = none ↔
      size = 0 ∨ ¬ IsAlignment align ∨ placements floor align size bs = ∅ := by
  constructor
  · intro h
    by_cases hsize : size = 0
    · exact Or.inl hsize
    by_cases halign : IsAlignment align
    · refine Or.inr (Or.inr (Set.eq_empty_of_forall_notMem ?_))
      rintro q ⟨b, hb, hq⟩
      rw [place?, if_neg (not_or.2 ⟨hsize, not_not.2 halign⟩), roundUp?_granularity] at h
      split at h
      · exact not_placement_of_fit? (hvalid b hb) halign (grant_eq_none h b hb) hq
      · -- A size that is no word once it is rounded has no room below the end of memory.
        have hend := (hvalid b hb).stop_lt
        have := hq.stop_le
        omega
    · exact Or.inr (Or.inl halign)
  · intro h
    refine Option.eq_none_iff_forall_ne_some.2 fun ⟨g, bs'⟩ hsome => ?_
    obtain ⟨hsize, halign, -, -⟩ := place?_eq_some hsome
    have hempty := (h.resolve_left hsize).resolve_left (not_not.2 halign)
    have hleast := (isLeast_of_place? hvalid hspaced hsome).1
    rw [hempty] at hleast
    exact hleast

/-- The address that a request for memory gets is that of the block it is granted. -/
theorem FreeList.Tidy.allocateAligned_eq {l : FreeList} (h : l.Tidy bs) (align size : Nat) :
    ∃ l', l.allocateAligned align size =
      .ok ((place? l.floor align size bs).map fun found => found.1.payload, l') := by
  cases hplace : place? l.floor align size bs with
  | none => exact ⟨l, h.allocateAligned_of_none hplace⟩
  | some found =>
    obtain ⟨l', hl', -⟩ := h.allocateAligned_of_some hplace
    exact ⟨l', hl'⟩

/-! ### First fit in every run -/

namespace Session

variable {s : Session}

/-- A request for memory gets the least address that it may get. -/
theorem Sound.allocateAligned_eq (h : s.Sound bs) (align size : Nat) :
    ∃ answer l', s.list.allocateAligned align size = .ok (answer, l') ∧
      (∀ q, answer = some q → size ≠ 0 ∧ IsAlignment align ∧
        IsLeast (placements s.list.floor align size bs) q) ∧
      (answer = none → size = 0 ∨ ¬ IsAlignment align ∨
        placements s.list.floor align size bs = ∅) := by
  obtain ⟨l', hl'⟩ := h.tidy.allocateAligned_eq align size
  refine ⟨_, l', hl', fun q hq => ?_, fun hnone => ?_⟩
  · obtain ⟨⟨g, bs'⟩, hplace, rfl⟩ := Option.map_eq_some_iff.1 hq
    obtain ⟨hsize, halign, -, -⟩ := place?_eq_some hplace
    exact ⟨hsize, halign, isLeast_of_place? h.tidy.valid h.tidy.spaced hplace⟩
  · exact (place?_eq_none_iff h.tidy.valid h.tidy.spaced).1 (Option.map_eq_none_iff.1 hnone)

/-- In every reachable session a request for at least one byte at a power of two answers the least
address that it may get in a free block, if there is any, and all other requests are refused. -/
theorem Reachable.allocates_least (h : Reachable s) (align size : Nat) :
    ∃ bs answer l', s.list.blocks = .ok bs ∧
      s.list.allocateAligned align size = .ok (answer, l') ∧
      (1 ≤ size → IsAlignment align → (placements s.list.floor align size bs).Nonempty →
        ∃ q, IsLeast (placements s.list.floor align size bs) q ∧ answer = some q) ∧
      (size = 0 ∨ ¬ IsAlignment align ∨ ¬ (placements s.list.floor align size bs).Nonempty →
        answer = none) := by
  obtain ⟨bs, hsound⟩ := h.sound
  obtain ⟨answer, l', hl', hsome, hnone⟩ := hsound.allocateAligned_eq align size
  refine ⟨bs, answer, l', hsound.tidy.holds.blocks_eq, hl', fun hsize halign hplaces => ?_,
    fun hrefused => ?_⟩
  · cases answer with
    | none =>
      rcases hnone rfl with hzero | hbad | hempty
      · omega
      · exact absurd halign hbad
      · exact absurd hempty hplaces.ne_empty
    | some q => exact ⟨q, (hsome q rfl).2.2, rfl⟩
  · cases answer with
    | none => rfl
    | some q =>
      obtain ⟨hsize, halign, hleast⟩ := hsome q rfl
      rcases hrefused with hzero | hbad | hempty
      · exact absurd hzero hsize
      · exact absurd halign hbad
      · exact absurd ⟨q, hleast.1⟩ hempty

/-- What a request answers is told without the list that it leaves. -/
theorem eq_ok_of_answer {x : Except Fault (Option Nat × FreeList)} {ptr : Nat}
    (h : x.toOption.bind Prod.fst = some ptr) : ∃ l, x = .ok (some ptr, l) := by
  cases x with
  | error fault => cases h
  | ok granted =>
    obtain ⟨answer, l⟩ := granted
    obtain rfl : answer = some ptr := h
    exact ⟨l, rfl⟩

theorem sample_grants : ∃ l, sample.list.allocateAligned 16 16 = .ok (some 4352, l) :=
  eq_ok_of_answer (by decide +kernel)

/-- The first free block of the sample has room for 16 bytes, but at no multiple of 16 that leaves a
block in front; the second one has. -/
theorem allocates_least_sample :
    ∃ bs l', sample.list.blocks = .ok bs ∧
      sample.list.allocateAligned 16 16 = .ok (some 4352, l') ∧
      IsLeast (placements sample.list.floor 16 16 bs) 4352 := by
  obtain ⟨l, hl⟩ := sample_grants
  have hblocks : sample.list.blocks.toOption = some [⟨4096, 16⟩, ⟨4328, 256⟩] := by decide +kernel
  have hplace : Placement sample.list.floor 16 16 ⟨4328, 256⟩ 4352 :=
    ⟨by decide, Or.inl rfl, by decide⟩
  obtain ⟨bs, answer, l', hbs, hl', hleast, -⟩ :=
    Reachable.allocates_least sample_reachable 16 16
  obtain ⟨rfl, rfl⟩ := Prod.mk.inj (Except.ok.inj (hl.symm.trans hl'))
  rw [hbs] at hblocks
  obtain rfl := Option.some.inj hblocks
  obtain ⟨q, hq, heq⟩ := hleast (by decide) ⟨4, rfl⟩ ⟨4352, _, by simp, hplace⟩
  obtain rfl := Option.some.inj heq
  exact ⟨_, l, hbs, hl', hq⟩

end Session

end PoolAlloc
