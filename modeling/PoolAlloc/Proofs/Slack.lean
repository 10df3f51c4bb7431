import Mathlib.Order.Bounds.Defs
import PoolAlloc.Proofs.Placement
/-!
# PoolAlloc.Proofs.Slack

How far a payload is moved up to lie at a multiple of an alignment.

The move is computed in words, by rounding up twice, and it is refused as soon as a sum on the way
is no word. Over all naturals it is `leastSlack`, the least of the moves that leave nothing in front
of the payload or a block that the split floor admits (`isLeast_leastSlack`). The words lose no
answer: an alignment divides `wordLimit` or is larger, so rounding cannot step over the end of the
word range (`roundUp?_eq`), and a move is refused only where the payload would lie behind it.

Main statement: `slack?_least`.
-/

namespace PoolAlloc

/-! ### Sums that are no words -/

/-- Rounding up to an alignment does not step over the end of the word range. -/
theorem wordLimit_le_roundUp {n align : Nat} (halign : IsAlignment align)
    (h : 0 < n ∨ align ≤ wordLimit) (hn : wordLimit ≤ n + (align - 1)) :
    wordLimit ≤ roundUp n align := by
  obtain ⟨k, rfl⟩ := halign
  have hpow : wordLimit = 2 ^ 64 := rfl
  rcases Nat.lt_or_ge 64 k with hk | hk
  · have hlarge : wordLimit < 2 ^ k := Nat.pow_lt_pow_right (by decide : 1 < 2) hk
    have hpos : 0 < roundUp n (2 ^ k) :=
      Nat.lt_of_lt_of_le (h.resolve_right (Nat.not_le_of_lt hlarge)) (le_roundUp n (by omega))
    exact Nat.le_trans (Nat.le_of_lt hlarge) (Nat.le_of_dvd hpos (dvd_roundUp ..))
  · have hdvd : 2 ^ k ∣ wordLimit := Nat.pow_dvd_pow 2 hk
    calc wordLimit = wordLimit / 2 ^ k * 2 ^ k := (Nat.div_mul_cancel hdvd).symm
      _ ≤ (n + (2 ^ k - 1)) / 2 ^ k * 2 ^ k := Nat.mul_le_mul_right _ (Nat.div_le_div_right hn)

/-- Rounding up to an alignment is refused only where the result is no word. -/
theorem roundUp?_eq {n align : Nat} (halign : IsAlignment align)
    (h : 0 < n ∨ align ≤ wordLimit) :
    roundUp? n align =
      if roundUp n align < wordLimit then some (roundUp n align) else none := by
  split
  · rename_i hlt
    refine roundUp?_eq_some.2 ⟨?_, rfl⟩
    exact Nat.lt_of_not_le fun hn => Nat.not_le_of_lt hlt (wordLimit_le_roundUp halign h hn)
  · rename_i hge
    refine Option.eq_none_iff_forall_ne_some.2 fun m hm => hge ?_
    obtain ⟨hlt, -⟩ := roundUp?_eq_some.1 hm
    exact Nat.lt_of_le_of_lt (roundDown_le ..) hlt

/-- A size is refused only where it is no word in whole units. -/
theorem roundUp?_granularity (n : Nat) :
    roundUp? n granularity =
      if roundUp n granularity < wordLimit then some (roundUp n granularity) else none :=
  roundUp?_eq isAlignment_granularity (Or.inr (by decide))

/-- A slack is refused only where the aligned start or the slack itself is no word. -/
theorem slack?_eq {floor start align : Nat} (halign : IsAlignment align)
    (h : 0 < start ∨ align ≤ wordLimit) :
    slack? floor start align =
      if roundUp start align < wordLimit ∧ leastSlack floor start align < wordLimit then
        some (leastSlack floor start align)
      else none := by
  rw [slack?, roundUp?_eq halign h]
  unfold leastSlack
  dsimp only
  by_cases hup : roundUp start align < wordLimit
  · rw [if_pos hup, Option.bind_eq_bind, Option.bind_some]
    by_cases hreach : roundUp start align - start = 0 ∨ floor ≤ roundUp start align - start
    · rw [if_pos hreach, if_pos hreach, if_pos ⟨hup, by omega⟩]
      rfl
    · rw [if_neg hreach, if_neg hreach, roundUp?_eq halign (Or.inl (by omega))]
      by_cases hmore : roundUp (floor - (roundUp start align - start)) align < wordLimit
      · rw [if_pos hmore, Option.bind_some, addChecked]
        simp only [hup, true_and]
      · rw [if_neg hmore, if_neg (by omega)]
        rfl
  · rw [if_neg hup, if_neg fun hboth => hup hboth.1]
    rfl

/-! ### The least move -/

/-- Rounding up leads to the least multiple of the alignment from `n` on. -/
theorem isLeast_roundUp (n : Nat) {align : Nat} (halign : 0 < align) :
    IsLeast { m | n ≤ m ∧ align ∣ m } (roundUp n align) :=
  ⟨⟨le_roundUp n halign, dvd_roundUp ..⟩, fun _ hm => roundUp_le hm.1 hm.2⟩

/-- The moves that take a payload from `start` to a multiple of `align` and leave nothing in front
of it or at least `floor` bytes. -/
def admissibleSlacks (floor start align : Nat) : Set Nat :=
  { s | align ∣ start + s ∧ (s = 0 ∨ floor ≤ s) }

/-- The slack is the least that reaches a multiple of the alignment and is either nothing or long
enough for a block of its own. -/
theorem leastSlack_le {floor start align slack : Nat} (halign : 0 < align)
    (hdvd : align ∣ start + slack) (hslack : slack = 0 ∨ floor ≤ slack) :
    leastSlack floor start align ≤ slack := by
  have hle := le_roundUp start halign
  have hup : roundUp start align ≤ start + slack := roundUp_le (Nat.le_add_right ..) hdvd
  unfold leastSlack
  dsimp only
  split
  · omega
  · -- What is missing to the floor is made up in whole units of the alignment.
    have hrest : align ∣ slack - (roundUp start align - start) := by
      have hsub := Nat.dvd_sub hdvd (dvd_roundUp start align)
      rwa [show start + slack - roundUp start align =
        slack - (roundUp start align - start) by omega] at hsub
    have hmore := roundUp_le (show floor - (roundUp start align - start) ≤
      slack - (roundUp start align - start) by omega) hrest
    omega

theorem isLeast_leastSlack (floor start : Nat) {align : Nat} (halign : 0 < align) :
    IsLeast (admissibleSlacks floor start align) (leastSlack floor start align) :=
  ⟨leastSlack_spec floor start halign, fun _ hs => leastSlack_le halign hs.1 hs.2⟩

/-- Where a move is refused, every admissible one leads out of the word range. -/
theorem wordLimit_le_of_slack?_eq_none {floor start align slack : Nat}
    (halign : IsAlignment align) (hle : align ≤ wordLimit)
    (h : slack? floor start align = none) (hslack : slack ∈ admissibleSlacks floor start align) :
    wordLimit ≤ start + slack := by
  have hup : roundUp start align ≤ start + slack := roundUp_le (Nat.le_add_right ..) hslack.1
  have hleast := (isLeast_leastSlack floor start (isAlignment_pos halign)).2 hslack
  rw [slack?_eq halign (Or.inr hle)] at h
  split at h
  · cases h
  · omega

/-- For every split floor and every alignment that is a word, the move of a payload is the least
admissible one, and it is refused just when that move or the aligned start is no word. Then no
admissible move leads to an address. -/
theorem slack?_least (minSplit start align : Nat) (halign : IsAlignment align)
    (hword : align < wordLimit) :
    ∃ aligned s, IsLeast { m | start ≤ m ∧ align ∣ m } aligned ∧
      IsLeast (admissibleSlacks (splitFloor minSplit) start align) s ∧
      slack? (splitFloor minSplit) start align =
        (if aligned < wordLimit ∧ s < wordLimit then some s else none) ∧
      (slack? (splitFloor minSplit) start align = none →
        ∀ t ∈ admissibleSlacks (splitFloor minSplit) start align, wordLimit ≤ start + t) := by
  have hpos := isAlignment_pos halign
  have hle : align ≤ wordLimit := Nat.le_of_lt hword
  exact ⟨_, _, isLeast_roundUp start hpos, isLeast_leastSlack (splitFloor minSplit) start hpos,
    slack?_eq halign (Or.inr hle),
    fun hnone _ ht => wordLimit_le_of_slack?_eq_none halign hle hnone ht⟩

/-- A move of 8 bytes would do for the alignment, but the floor calls for 4096; and a floor at the
end of the word range leaves no admissible move although the aligned start is near. -/
theorem slack?_least_sample :
    IsLeast (admissibleSlacks (splitFloor 4096) 1000 16) 4104 ∧
      slack? (splitFloor 4096) 1000 16 = some 4104 ∧
      slack? (splitFloor (wordLimit - 8)) 9 16 = none ∧
      ∀ t ∈ admissibleSlacks (splitFloor (wordLimit - 8)) 9 16, wordLimit ≤ 9 + t := by
  have hsome : slack? (splitFloor 4096) 1000 16 = some 4104 := by decide
  have hnone : slack? (splitFloor (wordLimit - 8)) 9 16 = none := by decide
  obtain ⟨_, s, -, hleast, heq, -⟩ := slack?_least 4096 1000 16 ⟨4, rfl⟩ (by decide)
  obtain ⟨_, _, -, -, -, hout⟩ := slack?_least (wordLimit - 8) 9 16 ⟨4, rfl⟩ (by decide)
  rw [hsome] at heq
  split at heq
  · obtain rfl := Option.some.inj heq
    exact ⟨hleast, hsome, hnone, hout hnone⟩
  · cases heq

end PoolAlloc
