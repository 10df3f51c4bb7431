import PoolAlloc.Proofs.FirstFit
/-!
# PoolAlloc.Proofs.Capacity

Giving memory back never takes capacity away.

What a free block becomes when others are given back is a larger block (`Regained.exists_around`),
but a larger block does not serve every request its part served: its payload begins further down,
so a payload that began where the part's did now has slack in front of it, and slack must reach the
split floor. Two things help. A request without a wish for the alignment takes the beginning of the
larger block (`Placement.of_around`). And what lies in front of the part ends with a whole block
that was given back, whose span is the least floor there is; at that floor the payload may stay
where it was (`Placement.keep_around`).

Main statement: `Session.Reachable.capacity_kept`.
-/

namespace PoolAlloc

open FreeList

/-! ### Blocks that grow -/

/-- The free blocks `bs'` are what the free blocks `bs` become when the blocks `gs` are given
back. -/
structure Regained (bs gs bs' : List FreeBlock) : Prop where
  valid : ∀ g ∈ gs, g.Valid
  apart : ∀ g ∈ gs, ∀ b ∈ bs, g.Apart b
  covered : ∀ x, Covered bs' x ↔ Covered gs x ∨ Covered bs x

/-- The block `b` has become a part of the free block `c`. In front of it `c` has nothing, or as
much as the least block spans. -/
structure Around (b c : FreeBlock) : Prop where
  start : c.start = b.start ∨ c.start + minBlockSpan ≤ b.start
  stop : b.stop ≤ c.stop

variable {floor align size q : Nat} {bs gs bs' : List FreeBlock} {b c : FreeBlock}

/-- Every free block becomes a part of one. -/
theorem Regained.exists_around (h : Regained bs gs bs') (hspaced : Spaced bs)
    (hspaced' : Spaced bs') (hb : b ∈ bs) : ∃ c ∈ bs', Around b c := by
  have hlt := b.header_le_stop
  obtain ⟨c, hc, hstart, hstop⟩ := hspaced'.exists_of_run (show b.start < b.stop by omega)
    fun x h₁ h₂ => (h.covered x).2 (Or.inr ⟨b, hb, h₁, h₂⟩)
  refine ⟨c, hc, ?_, hstop⟩
  rcases Nat.eq_or_lt_of_le hstart with heq | hfront
  · exact Or.inl heq
  · -- The address in front of `b` was not free, so a block `g` that was given back ends there.
    have hmem : b.start - 1 ∈ c := ⟨by omega, by omega⟩
    rcases (h.covered (b.start - 1)).1 ⟨c, hc, hmem⟩ with ⟨g, hg, hx⟩ | ⟨d, hd, hx⟩
    · rw [FreeBlock.mem_iff] at hx
      have hspan := (h.valid g hg).le_span
      have hap := h.apart g hg b hb
      unfold FreeBlock.Apart at hap
      obtain ⟨e, he, hestart, hestop⟩ := hspaced'.exists_of_run (show g.start < g.stop by omega)
        fun x h₁ h₂ => (h.covered x).2 (Or.inl ⟨g, hg, h₁, h₂⟩)
      -- Both `c` and the block around `g` hold that address, so they are the same.
      have hsame : e = c := by
        rcases hspaced'.trichotomy he hc with heq | hgap | hgap
        · exact heq
        · omega
        · omega
      subst hsame
      have hgstop : g.stop = g.start + g.span := rfl
      exact Or.inr (by omega)
    · rw [FreeBlock.mem_iff] at hx
      rcases hspaced.trichotomy hd hb with rfl | hgap | hgap <;> omega

theorem Around.payload (h : Around b c) :
    c.payload = b.payload ∨ c.payload + minBlockSpan ≤ b.payload := by
  have := h.start
  rw [FreeBlock.payload_eq, FreeBlock.payload_eq]
  omega

theorem Around.payload_end (h : Around b c) : b.payload + b.size ≤ c.payload + c.size := by
  rw [b.payload_add_size, c.payload_add_size]
  exact h.stop

/-- Whatever fits into a part of a block at no particular alignment fits at the beginning of the
block. -/
theorem Placement.of_around (h : Placement floor granularity size b q) (hc : c.Valid)
    (ha : Around b c) : Placement floor granularity size c c.payload ∧ c.payload ≤ q := by
  have hdvd : granularity ∣ c.payload := Nat.dvd_add hc.dvd_start (by decide)
  have hroom := h.room
  have hin := h.payload_le
  have hend := ha.payload_end
  have hle : c.payload ≤ q := by
    rcases ha.payload with heq | hfront <;> omega
  refine ⟨⟨?_, Or.inl rfl, by omega⟩, hle⟩
  rwa [Nat.max_self]

/-- At the least split floor whatever fits into a part of a block fits where it did. -/
theorem Placement.keep_around (h : Placement minBlockSpan align size b q) (ha : Around b c) :
    Placement minBlockSpan align size c q := by
  have hslack : q = c.payload ∨ c.payload + minBlockSpan ≤ q := by
    rcases ha.payload with heq | hfront
    · exact heq ▸ h.slack
    · exact Or.inr (Nat.le_trans hfront h.payload_le)
  exact ⟨h.aligned, hslack, Nat.le_trans h.room ha.payload_end⟩

/-! ### Requests that give memory back -/

/-- A request that gives memory back to the list: a region, a granted block, or the tail of a block
that is resized within the room it has. -/
def Request.GivesBack (s : Session) : Request → Prop
  | addRegion _ | release _ => True
  | resize ptr _ size => roundUp size granularity ≤ s.list.usableSize ptr
  | allocate _ _ | write _ _ => False

namespace Session

variable {s s' : Session} {r : Request} {answer : Option Nat}

/-- What such a request gives back are valid blocks that were not free. -/
theorem Effect.regained (he : Effect s bs r answer s' bs') (h : s.Sound bs) (hr : r.Allowed s)
    (hgives : r.GivesBack s) : ∃ gs, Regained bs gs bs' := by
  have hnothing : Regained bs [] bs := ⟨nofun, nofun, fun x => by simp⟩
  cases he with
  | @added _ b _ _ hpool hg =>
    obtain ⟨hb, -⟩ := h.pool_fresh hr hpool
    exact ⟨[b], by simpa using hb, by simpa using h.pool_apart hr hpool,
      fun x => by simp [hg.covered x]⟩
  | ignored => exact ⟨[], hnothing⟩
  | @released ptr _ _ hg =>
    exact ⟨[s.list.block ptr], by simpa using h.valid ptr hr, by simpa using h.apart_free hr,
      fun x => by simp [hg.covered x]⟩
  | @cutDown ptr _ _ n _ _ hround hpos hle hc =>
    obtain ⟨hdvd, hunits, -⟩ := units_of_roundUp? hround hpos
    obtain ⟨-, -, -, hexcess, htile⟩ :=
      FreeBlock.shrunk_spec (h.valid ptr hr) hdvd hunits hle (floor_le s.list)
    refine ⟨(s.list.block ptr).excess s.list.floor n, fun g hg => (hexcess g hg).1,
      fun g hg b hb => FreeBlock.apart_iff.2 fun x hx hxb => ?_, hc.covered⟩
    exact h.notFree ptr hr x ((htile x).2 (Or.inr ⟨g, hg, hx⟩)) ⟨b, hb, hxb⟩
  | moved hround _ hlt =>
    -- A block that moves needs more room than it has.
    obtain ⟨-, rfl⟩ := roundUp?_eq_some.1 hround
    exact absurd hgives (Nat.not_le_of_lt hlt)
  | kept => exact ⟨[], hnothing⟩
  | granted | refused | written => exact hgives.elim

/-- A request that finds a placement is granted, and gets no higher address. -/
theorem Sound.allocateAligned_of_placement (h : s.Sound bs) (hsize : size ≠ 0)
    (halign : IsAlignment align) (hq : q ∈ placements s.list.floor align size bs) :
    ∃ q' l', s.list.allocateAligned align size = .ok (some q', l') ∧ q' ≤ q := by
  obtain ⟨answer, l', hl', hsome, hnone⟩ := h.allocateAligned_eq align size
  cases answer with
  | none =>
    have hempty := ((hnone rfl).resolve_left hsize).resolve_left (not_not.2 halign)
    rw [hempty] at hq
    exact hq.elim
  | some q' => exact ⟨q', l', hl', (hsome q' rfl).2.2.2 hq⟩

/-- A request that is granted has found a placement. -/
theorem Sound.placement_of_allocateAligned {l : FreeList} (h : s.Sound bs)
    (hl : s.list.allocateAligned align size = .ok (some q, l)) :
    size ≠ 0 ∧ IsAlignment align ∧ q ∈ placements s.list.floor align size bs := by
  obtain ⟨answer, l', hl', hsome, -⟩ := h.allocateAligned_eq align size
  obtain ⟨rfl, -⟩ := Prod.mk.inj (Except.ok.inj (hl.symm.trans hl'))
  obtain ⟨hsize, halign, hleast⟩ := hsome q rfl
  exact ⟨hsize, halign, hleast.1⟩

/-- In every reachable session a request that gives memory back leaves a session that grants what
could be granted before, at the same address or a lower one: every request without a wish for the
alignment, and all requests where the split floor is the least. -/
theorem Reachable.capacity_kept (h : Reachable s) (hr : r.Allowed s) (hgives : r.GivesBack s) :
    ∃ answer s', s.perform r = .ok (answer, s') ∧
      (∀ size q l, s.list.allocate size = .ok (some q, l) →
        ∃ q' l', s'.list.allocate size = .ok (some q', l') ∧ q' ≤ q) ∧
      (s.list.floor = minBlockSpan →
        ∀ align size q l, s.list.allocateAligned align size = .ok (some q, l) →
          ∃ q' l', s'.list.allocateAligned align size = .ok (some q', l') ∧ q' ≤ q) := by
  obtain ⟨bs, hsound⟩ := h.sound
  obtain ⟨answer, s', bs', hs', he⟩ := hsound.perform hr
  have hsound' := he.sound hsound hr
  have hfloor : s'.list.floor = s.list.floor := congrArg splitFloor he.minSplit_eq
  obtain ⟨gs, hregained⟩ := he.regained hsound hr hgives
  have haround := fun b (hb : b ∈ bs) =>
    hregained.exists_around hsound.tidy.spaced hsound'.tidy.spaced hb
  refine ⟨answer, s', hs', fun size q l hl => ?_, fun hleast align size q l hl => ?_⟩
  · obtain ⟨hsize, halign, b, hb, hq⟩ := hsound.placement_of_allocateAligned hl
    obtain ⟨c, hc, ha⟩ := haround b hb
    obtain ⟨hplaced, hle⟩ := hq.of_around (hsound'.tidy.valid c hc) ha
    obtain ⟨q', l', hl', hq'⟩ :=
      hsound'.allocateAligned_of_placement hsize halign ⟨c, hc, hfloor ▸ hplaced⟩
    exact ⟨q', l', hl', Nat.le_trans hq' hle⟩
  · obtain ⟨hsize, halign, b, hb, hq⟩ := hsound.placement_of_allocateAligned hl
    obtain ⟨c, hc, ha⟩ := haround b hb
    rw [hleast] at hfloor hq
    exact hsound'.allocateAligned_of_placement hsize halign ⟨c, hc, hfloor ▸ hq.keep_around ha⟩

/-- Releasing the first granted block of the sample keeps room for 16 bytes at a multiple of 16. -/
theorem capacity_kept_sample :
    ∃ s' q l', sample.perform (.release 4160) = .ok (none, s') ∧
      s'.list.allocateAligned 16 16 = .ok (some q, l') ∧ q ≤ 4352 := by
  have hlive : 4160 ∈ sample.live := by decide +kernel
  have hfloor : sample.list.floor = minBlockSpan := by decide +kernel
  obtain ⟨l, hl⟩ := sample_grants
  obtain ⟨answer, s', hs', -, haligned⟩ :=
    Reachable.capacity_kept (r := .release 4160) sample_reachable hlive trivial
  obtain ⟨l₁, -, heq⟩ := bind_eq_ok.1 hs'
  obtain ⟨rfl, -⟩ := Prod.mk.inj (Except.ok.inj heq)
  obtain ⟨q, l', hq, hle⟩ := haligned hfloor 16 16 4352 l hl
  exact ⟨s', q, l', hs', hq, hle⟩

end Session

end PoolAlloc
