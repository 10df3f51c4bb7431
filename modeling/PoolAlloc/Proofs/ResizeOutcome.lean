import PoolAlloc.Proofs.FirstFit
import PoolAlloc.Proofs.Resizing
/-!
# PoolAlloc.Proofs.ResizeOutcome

What resizing a granted block leads to, told by what else a client could have asked for.

A block with enough room stays, and is cut down as far as the split floor allows (`CutInPlace`).
Another one moves exactly where a request for a new block of that size would be granted, and to the
address that request would get (`Effect.answer_of_growing`); that the size is rounded up twice on
this path makes no difference (`place?_roundUp`). What is free afterwards is what that request and
the release of the old block leave (`MovedTo`): both ways the same addresses are free, and these
determine the free blocks.

Main statement: `Session.Reachable.resize_outcome`.
-/

namespace PoolAlloc

open Memory FreeList

variable {floor align size n p q : Nat} {bs bs' : List FreeBlock}

/-! ### Sizes in whole units -/

/-- A size and the whole units it is rounded up to get the same block. -/
theorem place?_roundUp (hround : roundUp? size granularity = some n) (hpos : size ≠ 0) :
    place? floor align n bs = place? floor align size bs := by
  obtain ⟨hdvd, hunits, -⟩ := units_of_roundUp? hround hpos
  obtain ⟨hsum, rfl⟩ := roundUp?_eq_some.1 hround
  have hlt : roundUp size granularity < wordLimit := Nat.lt_of_le_of_lt (roundDown_le ..) hsum
  have hagain : roundUp? (roundUp size granularity) granularity =
      some (roundUp size granularity) := by
    rw [roundUp?_granularity, roundUp_of_dvd (by decide) hdvd, if_pos hlt]
  simp only [place?, hround, hagain, hpos, Nat.ne_of_gt hunits]

/-- A size that is no word in whole units gets no block. -/
theorem place?_of_overflow (hround : roundUp? size granularity = none) :
    place? floor align size bs = none := by
  rw [place?, hround]
  split <;> rfl

namespace Session

variable {s s' : Session} {answer : Option Nat}

/-! ### A block that stays -/

/-- The granted block at `p` stays where it is, with room for `size` bytes in whole units; what it
has beyond that is cut off if it reaches the split floor. -/
structure CutInPlace (s : Session) (p size : Nat) (s' : Session) : Prop where
  live : s'.live = s.live
  usable : s'.list.usableSize p =
    if s.list.floor ≤ s.list.usableSize p - roundUp size granularity then roundUp size granularity
    else s.list.usableSize p
  contents : ∀ i, i < s'.list.usableSize p → s'.list.mem.get (p + i) = s.list.mem.get (p + i)

/-- A block with enough room stays, whatever the alignment. -/
theorem Effect.cutInPlace (he : Effect s bs (.resize p align size) answer s' bs') (h : s.Sound bs)
    (hp : p ∈ s.live) (hpos : size ≠ 0) (hle : roundUp size granularity ≤ s.list.usableSize p) :
    answer = some p ∧ s.CutInPlace p size s' := by
  cases he with
  | @cutDown _ _ _ _ l' _ hround _ _ hc =>
    obtain ⟨hdvd, hunits, -⟩ := units_of_roundUp? hround hpos
    obtain ⟨-, rfl⟩ := roundUp?_eq_some.1 hround
    obtain ⟨-, hget⟩ := h.cutDown_payload hp hdvd hunits hle hc
    have hsize : l'.usableSize p =
      ((s.list.block p).shrunk s.list.floor (roundUp size granularity)).size := hc.size_eq
    refine ⟨rfl, rfl, ?_, fun i hi => hget (p + i) (Nat.le_add_right p i)
      (Nat.add_lt_add_left hi p)⟩
    show l'.usableSize p = _
    rw [hsize, FreeBlock.shrunk, block_size]
    split
    · rename_i hsmall
      rw [if_neg (Nat.not_le_of_lt hsmall), block_size]
    · rename_i hlarge
      rw [if_pos (Nat.le_of_not_lt hlarge)]
  | moved hround _ hlt =>
    obtain ⟨-, rfl⟩ := roundUp?_eq_some.1 hround
    exact absurd hle (Nat.not_le_of_lt hlt)
  | kept hkept =>
    -- Nothing that fits into a granted block is refused.
    have hword : roundUp size granularity < wordLimit :=
      Nat.lt_of_le_of_lt hle (h.valid p hp).size_lt
    rw [roundUp?_granularity, if_pos hword] at hkept
    rcases hkept with hzero | hover | ⟨n, hn, hlt, -⟩
    · exact absurd hzero hpos
    · cases hover
    · obtain rfl := Option.some.inj hn
      exact absurd hle (Nat.not_le_of_lt hlt)

/-! ### A block that moves -/

/-- A block without enough room gets the answer that a request for a new block gets. -/
theorem Effect.answer_of_growing (he : Effect s bs (.resize p align size) answer s' bs')
    (hpos : size ≠ 0) (hlt : s.list.usableSize p < roundUp size granularity) :
    answer = (place? s.list.floor align size bs).map fun found => found.1.payload := by
  cases he with
  | cutDown hround _ hle =>
    obtain ⟨-, rfl⟩ := roundUp?_eq_some.1 hround
    exact absurd hle (Nat.not_le_of_lt hlt)
  | moved hround _ _ hplace =>
    rw [place?_roundUp hround hpos] at hplace
    rw [hplace]
    rfl
  | kept hkept =>
    rcases hkept with hzero | hover | ⟨n, hround, -, hplace⟩
    · exact absurd hzero hpos
    · rw [place?_of_overflow hover]
      rfl
    · rw [place?_roundUp hround hpos] at hplace
      rw [hplace]
      rfl

/-- The granted block at `p` has moved to `q`, with room for `size` bytes in whole units. -/
structure MovedTo (s : Session) (p align size q : Nat) (s' : Session) : Prop where
  aligned : align ∣ q
  fresh : q ∉ s.live
  live : s'.live = insert q (s.live.erase p)
  room : roundUp size granularity ≤ s'.list.usableSize q
  contents : ∀ i, i < s.list.usableSize p → s'.list.mem.get (q + i) = s.list.mem.get (p + i)
  /-- What is free is what granting the one block and releasing the other leaves. -/
  free : ∃ t t' bs, s.perform (.allocate align size) = .ok (some q, t) ∧
    t.perform (.release p) = .ok (none, t') ∧ t'.list.blocks = .ok bs ∧ s'.list.blocks = .ok bs

/-- Granting a block and releasing another leaves what was free without the one block and with the
other. -/
theorem Sound.perform_allocate_release {g : FreeBlock} {bs₁ : List FreeBlock} (h : s.Sound bs)
    (hp : p ∈ s.live) (hplace : place? s.list.floor align size bs = some (g, bs₁)) :
    ∃ t t' bs₂, s.perform (.allocate align size) = .ok (some g.payload, t) ∧
      t.perform (.release p) = .ok (none, t') ∧ t'.Sound bs₂ ∧
      ∀ x, Covered bs₂ x ↔ x ∈ s.list.block p ∨ Covered bs₁ x := by
  obtain ⟨answer, t, bs₁', ht, he⟩ := h.perform (r := .allocate align size) trivial
  cases he with
  | @granted _ _ g _ _ hplace' htakes =>
    obtain ⟨rfl, rfl⟩ := Prod.mk.inj (Option.some.inj (hplace'.symm.trans hplace))
    have hp' := Finset.mem_insert_of_mem (b := g.payload) hp
    obtain ⟨answer, t', bs₂, ht', he'⟩ := (h.take htakes).perform (r := .release p) hp'
    have hsound := he'.sound (h.take htakes) hp'
    cases he' with
    | released hg =>
      refine ⟨_, _, bs₂, ht, ht', hsound, fun x => ?_⟩
      rw [hg.covered x, htakes.within.block_eq (h.notFree p hp)]
  | refused hplace' =>
    rw [hplace] at hplace'
    cases hplace'

/-- A block without enough room that is not refused has moved. -/
theorem Effect.movedTo (he : Effect s bs (.resize p align size) (some q) s' bs') (h : s.Sound bs)
    (hp : p ∈ s.live) (hlt : s.list.usableSize p < roundUp size granularity) :
    s.MovedTo p align size q s' := by
  have hsound' := he.sound h hp
  cases he with
  | cutDown hround _ hle =>
    obtain ⟨-, rfl⟩ := roundUp?_eq_some.1 hround
    exact absurd hle (Nat.not_le_of_lt hlt)
  | @moved _ _ _ n g l₁ l' bs₁ _ hround hpos hlt' hplace ht hg =>
    obtain ⟨-, hlarge, hdvd⟩ := place?_spec h.tidy.valid h.tidy.spaced (floor_le s.list) hplace
    have hle := h.tidy.le_of_place? hplace
    have hsize : l'.usableSize g.payload = g.size := h.moved_size hp hlt' hplace ht hg
    rw [place?_roundUp hround hpos] at hplace
    obtain ⟨t, t', bs₂, htake, hrelease, hsound, hcovered⟩ := h.perform_allocate_release hp hplace
    obtain rfl : bs₂ = bs' := hsound.tidy.spaced.eq_of_covered hsound'.tidy.spaced fun x => by
      rw [hcovered x, hg.covered x]
    obtain ⟨-, rfl⟩ := roundUp?_eq_some.1 hround
    exact ⟨hdvd, fun hlive => h.payload_ne hlive ht rfl, rfl, hsize ▸ hle,
      fun i hi => h.moved_get hp hlt' hle ht hg hi, t, t', bs₂, htake, hrelease,
      hsound.tidy.holds.blocks_eq, hsound'.tidy.holds.blocks_eq⟩

/-- A block of no bytes, or of a size that is no word in whole units, is refused. -/
theorem Effect.answer_of_refused (he : Effect s bs (.resize p align size) answer s' bs')
    (hrefused : size = 0 ∨ wordLimit ≤ roundUp size granularity) : answer = none := by
  have hbad : ∀ n, roundUp? size granularity = some n → size ≠ 0 → False := by
    intro n hround hpos
    rw [roundUp?_granularity, if_neg (Nat.not_lt_of_le (hrefused.resolve_left hpos))] at hround
    cases hround
  cases he with
  | cutDown hround hpos => exact (hbad _ hround hpos).elim
  | moved hround hpos => exact (hbad _ hround hpos).elim
  | kept => rfl

/-! ### Resizing in every run -/

/-- In every reachable session a granted block can be resized, and this is what comes of it. A block
with enough room stays where it is, whatever the alignment. A block without enough room moves where
a request for a new block would be granted, and to the same address. Nothing is left changed where
nothing is answered, and that is so for sizes of no bytes and sizes that are no words in whole
units. -/
theorem Reachable.resize_outcome (h : Reachable s) (hp : p ∈ s.live) (align size : Nat) :
    ∃ answer s', s.perform (.resize p align size) = .ok (answer, s') ∧
      (1 ≤ size → roundUp size granularity ≤ s.list.usableSize p →
        answer = some p ∧ s.CutInPlace p size s') ∧
      (1 ≤ size → s.list.usableSize p < roundUp size granularity →
        (∀ q, answer = some q ↔ ∃ l, s.list.allocateAligned align size = .ok (some q, l)) ∧
        ∀ q, answer = some q → s.MovedTo p align size q s') ∧
      (size = 0 ∨ wordLimit ≤ roundUp size granularity → answer = none) ∧
      (answer = none → s'.list = s.list ∧ s'.live = s.live) := by
  obtain ⟨bs, hsound⟩ := h.sound
  obtain ⟨answer, s', bs', hs', he⟩ := hsound.perform (r := .resize p align size) hp
  refine ⟨answer, s', hs', fun hpos hle => ?_, fun hpos hlt => ⟨fun q => ?_, ?_⟩,
    he.answer_of_refused, ?_⟩
  · exact he.cutInPlace hsound hp (Nat.ne_of_gt hpos) hle
  · obtain ⟨l, hl⟩ := hsound.tidy.allocateAligned_eq align size
    rw [← he.answer_of_growing (Nat.ne_of_gt hpos) hlt] at hl
    constructor
    · rintro rfl
      exact ⟨l, hl⟩
    · rintro ⟨l', hl'⟩
      exact (Prod.mk.inj (Except.ok.inj (hl.symm.trans hl'))).1
  · rintro q rfl
    exact he.movedTo hsound hp hlt
  · rintro rfl
    exact unchanged_of_none (r := .resize p align size) trivial hs'

/-- The first granted block of the sample has to move to grow to 150 bytes. -/
theorem resize_outcome_sample :
    ∃ s', sample.perform (.resize 4160 8 150) = .ok (some 4352, s') ∧ 4160 ∉ s'.live ∧
      ∀ i < 104, s'.list.mem.get (4352 + i) = sample.list.mem.get (4160 + i) := by
  have hlive : 4160 ∈ sample.live := by decide +kernel
  have hsize : sample.list.usableSize 4160 = 104 := by decide +kernel
  obtain ⟨l, hl⟩ : ∃ l, sample.list.allocateAligned 8 150 = .ok (some 4352, l) :=
    eq_ok_of_answer (by decide +kernel)
  obtain ⟨answer, s', hs', -, hgrows, -⟩ :=
    Reachable.resize_outcome sample_reachable hlive 8 150
  obtain ⟨hanswer, hmoved⟩ := hgrows (by decide) (hsize ▸ by decide)
  obtain rfl := (hanswer 4352).2 ⟨l, hl⟩
  have hm := hmoved 4352 rfl
  refine ⟨s', hs', ?_, fun i hi => hm.contents i (hsize.symm ▸ hi)⟩
  rw [hm.live]
  simp

end Session

end PoolAlloc
