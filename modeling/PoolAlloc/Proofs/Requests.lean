import PoolAlloc.Proofs.Granting
/-!
# PoolAlloc.Proofs.Requests

What the requests other than granting do to a tidy list.

All of them give a block back: one that was granted (`Tidy.release`), the pool inside a region
(`Tidy.addRegion`), or the tail of a granted block that is cut down in place (`Tidy.resize_of_le`).
Each lemma states what the list covers afterwards, which determines its blocks, and where memory
may differ.
-/

namespace PoolAlloc

open Memory

/-! ### Regions -/

/-- A region of memory that is offered to the allocator. -/
structure Region where
  /-- The address of its first byte. -/
  start : Nat
  /-- The number of its bytes. -/
  len : Nat
  deriving DecidableEq, Repr

/-- A region has a usable size if what rounding leaves of it has room for a header and a unit. -/
theorem FreeList.regionSize?_eq_some {start len size : Nat} :
    regionSize? start len = some size ↔
      start + (granularity - 1) < wordLimit ∧
      roundUp start granularity - start + headerSize ≤ len ∧ size ≠ 0 ∧
      size = roundDown (len - (roundUp start granularity - start) - headerSize) granularity := by
  constructor
  · intro h
    obtain ⟨aligned, hup, h⟩ := Option.bind_eq_some_iff.1 h
    obtain ⟨hlt, rfl⟩ := roundUp?_eq_some.1 hup
    obtain ⟨behind, hbehind, h⟩ := Option.bind_eq_some_iff.1 h
    obtain ⟨hle, rfl⟩ := subChecked_eq_some.1 hbehind
    obtain ⟨room, hroom, h⟩ := Option.bind_eq_some_iff.1 h
    obtain ⟨hle', rfl⟩ := subChecked_eq_some.1 hroom
    dsimp only at h
    split at h
    · simp at h
    · rename_i hpos
      obtain rfl := Option.some.inj h
      exact ⟨hlt, by omega, hpos, rfl⟩
  · rintro ⟨hlt, hle, hpos, rfl⟩
    have hup := roundUp?_eq_some.2 ⟨hlt, rfl⟩
    have hbehind := subChecked_eq_some.2 ⟨Nat.le_trans (Nat.le_add_right _ headerSize) hle, rfl⟩
    have hroom := subChecked_eq_some.2 ⟨Nat.le_sub_of_add_le' hle, rfl⟩
    simp only [regionSize?, hup, hbehind, hroom, Option.bind_eq_bind, Option.bind_some,
      if_neg hpos]

namespace Region

/-- An address lies in a region. -/
instance : Membership Nat Region := ⟨fun r x => r.start ≤ x ∧ x < r.start + r.len⟩

theorem mem_iff {r : Region} {x : Nat} : x ∈ r ↔ r.start ≤ x ∧ x < r.start + r.len := Iff.rfl

/-- The block that a region is turned into: the region without the bytes that rounding cuts off at
its ends. -/
def pool? (r : Region) : Option FreeBlock :=
  (FreeList.regionSize? r.start r.len).map (⟨roundUp r.start granularity, ·⟩)

/-- The pool inside a region is a valid block. -/
theorem pool?_spec {r : Region} {b : FreeBlock} (hstart : r.start ≠ 0)
    (hend : r.start + r.len < wordLimit) (h : r.pool? = some b) :
    b.Valid ∧ ∀ x ∈ b, x ∈ r := by
  obtain ⟨size, hsize, rfl⟩ := Option.map_eq_some_iff.1 h
  obtain ⟨-, hle, hpos, rfl⟩ := FreeList.regionSize?_eq_some.1 hsize
  have hup := le_roundUp_granularity r.start
  have hdown := roundDown_le (r.len - (roundUp r.start granularity - r.start) - headerSize)
    granularity
  set b : FreeBlock := ⟨roundUp r.start granularity, roundDown (r.len -
    (roundUp r.start granularity - r.start) - headerSize) granularity⟩
  have hstop : b.stop ≤ r.start + r.len := by
    rw [b.stop_eq]
    simp only [b, headerSize] at *
    omega
  refine ⟨⟨?_, dvd_roundUp .., Nat.pos_of_ne_zero hpos, dvd_roundDown .., ?_⟩, fun x hx => ?_⟩
  · show 0 < roundUp r.start granularity
    omega
  · omega
  · exact ⟨Nat.le_trans hup hx.1, Nat.lt_of_lt_of_le hx.2 hstop⟩

end Region

namespace FreeList

variable {l : FreeList} {bs bs' : List FreeBlock} {b g : FreeBlock} {align size : Nat}

/-! ### Giving blocks back -/

/-- A tidy list stays tidy while its head and the bytes in its headers stay. -/
theorem Tidy.congr {l' : FreeList} (h : l.Tidy bs) (hhead : l'.head = l.head)
    (hbs : ∀ b ∈ bs, ∀ x, b.start ≤ x → x < b.start + 24 → l'.mem.get x = l.mem.get x) :
    l'.Tidy bs :=
  ⟨⟨hhead.trans h.holds.head_eq, h.holds.linked.congr hbs, h.holds.apart, h.holds.placed⟩, h.valid,
    h.spaced⟩

/-- A tidy list stays tidy while the header of a block beside its blocks is written. -/
theorem Tidy.frame {l' : FreeList} (h : l.Tidy bs) (hhead : l'.head = l.head)
    (he : Edit l l' [b.start]) (hap : ∀ c ∈ bs, b.Apart c) : l'.Tidy bs := by
  refine h.congr hhead fun c hc x h₁ h₂ => he.sameBut x fun a ha => ?_
  rw [List.mem_singleton.1 ha]
  have := hap c hc
  have := b.header_le_stop
  have := c.header_le_stop
  unfold FreeBlock.Apart at *
  omega

/-- The block `b` was given back to the free blocks `bs`, and `bs'` are there now. -/
structure Gives (l : FreeList) (bs : List FreeBlock) (b : FreeBlock) (l' : FreeList)
    (bs' : List FreeBlock) : Prop where
  tidy : l'.Tidy bs'
  covered : ∀ x, Covered bs' x ↔ x ∈ b ∨ Covered bs x
  within : Within l l' (Covered (b :: bs))

/-- Giving back a block that is none of the list's. -/
theorem Tidy.giveBack_gives (h : l.Tidy bs) (hb : b.Valid) (hsize : l.mem.size b.start = b.size)
    (hap : ∀ c ∈ bs, b.Apart c) :
    ∃ l' bs', l.giveBack b.start = .ok l' ∧ l.Gives bs b l' bs' := by
  obtain ⟨l', hl', htidy, he⟩ := h.giveBack hb hsize hap
  exact ⟨l', _, hl', htidy, fun x => covered_merged.trans covered_insertBlock,
    he.within fun x hx => hx⟩

/-- Releasing a granted block. -/
theorem Tidy.release (h : l.Tidy bs) (hg : g.Valid) (hsize : l.mem.size g.start = g.size)
    (hap : ∀ c ∈ bs, g.Apart c) :
    ∃ l' bs', l.release g.payload = .ok l' ∧ l.Gives bs g l' bs' := by
  rw [FreeList.release, FreeBlock.payload, headerOf_payload]
  exact h.giveBack_gives hg hsize hap

/-- Taking in a region adds the pool inside it, and writes nothing but headers. -/
theorem Tidy.addRegion {r : Region} (h : l.Tidy bs) (hpool : r.pool? = some b) (hb : b.Valid)
    (hap : ∀ c ∈ bs, b.Apart c) :
    ∃ l' bs', l.addRegion r.start r.len = .ok (some b.size, l') ∧ l.Gives bs b l' bs' ∧
      Edit l l' ((b :: bs).map FreeBlock.start) := by
  -- The header is written before the block is linked in; it lies beside those of the list.
  have he : Edit l (l.setHeader b.start b.size) [b.start] := edit_setHeader ..
  obtain ⟨l', hl', htidy, he'⟩ :=
    (h.frame (show (l.setHeader b.start b.size).head = l.head from rfl) he hap).giveBack hb
      (size_setHeader _ _ hb.size_lt) hap
  have hedit : Edit l l' ((b :: bs).map FreeBlock.start) := (he.mono (by simp)).trans he'
  refine ⟨l', _, ?_, ⟨htidy, fun x => covered_merged.trans covered_insertBlock,
    hedit.within fun x hx => hx⟩, hedit⟩
  obtain ⟨size, hsize, rfl⟩ := Option.map_eq_some_iff.1 hpool
  simp only at hl'
  simp only [FreeList.addRegion, hsize, hl', ok_bind]
  rfl

/-- A region without room for a block is refused, and the free list stays as it is. -/
theorem addRegion_of_none {r : Region} (hpool : r.pool? = none) :
    l.addRegion r.start r.len = .ok (none, l) := by
  have hsize := Option.map_eq_none_iff.1 hpool
  simp only [FreeList.addRegion, hsize]
  rfl

/-! ### Resizing -/

/-- A block is not resized to nothing, nor to a size whose rounding is no word. -/
theorem resize_refused {ptr : Nat} (h : size = 0 ∨ roundUp? size granularity = none) :
    l.resize ptr align size = .ok (none, l) := by
  rw [resize]
  rcases h with rfl | h
  · rfl
  · split
    · rfl
    · simp only [h]
      rfl

/-- Cutting a granted block down and giving its tail back. -/
theorem Tidy.giveBack_tail {t : FreeBlock} {n : Nat} (h : l.Tidy bs) (hn : n < wordLimit)
    (ht : t.Valid) (hstart : g.start + headerSize ≤ t.start) (hstop : t.stop = g.stop)
    (hap : ∀ c ∈ bs, g.Apart c) :
    ∃ l' bs', ((l.setHeader t.start t.size).setSize g.start n).giveBack t.start = .ok l' ∧
      l'.Tidy bs' ∧ (∀ x, Covered bs' x ↔ x ∈ t ∨ Covered bs x) ∧ l'.mem.size g.start = n ∧
      Within l l' fun x => (g.start ≤ x ∧ x < g.payload) ∨ Covered (t :: bs) x := by
  have hgt := FreeBlock.payload_eq g
  have hheader := g.header_le_stop
  simp only [headerSize] at hstart
  have htap : ∀ c ∈ bs, t.Apart c := fun c hc => by
    have := hap c hc
    unfold FreeBlock.Apart at *
    omega
  -- Both writes miss the headers of the list, and they miss each other.
  set l₁ := l.setHeader t.start t.size
  have he₁ : Edit l l₁ [t.start] := edit_setHeader ..
  have he₂ : Edit l₁ (l₁.setSize g.start n) [g.start] := edit_setSize ..
  have htidy₁ : l₁.Tidy bs := h.frame rfl he₁ htap
  have htidy₂ : (l₁.setSize g.start n).Tidy bs := htidy₁.frame rfl he₂ hap
  have htsize : (l₁.setSize g.start n).mem.size t.start = t.size := by
    refine (he₂.sameBut.size_eq fun a ha => ?_).trans (size_setHeader _ _ ht.size_lt)
    rw [List.mem_singleton.1 ha]
    exact Or.inr hstart
  obtain ⟨l', bs', hl', htidy, hcovered, hwithin⟩ := htidy₂.giveBack_gives ht htsize htap
  refine ⟨l', bs', hl', htidy, hcovered, ?_, ?_⟩
  · refine (size_congr fun x h₁ h₂ => hwithin.get_eq x ?_).trans (size_setSize _ _ hn)
    rintro ⟨c, hc, hx⟩
    rw [FreeBlock.mem_iff] at hx
    rcases List.mem_cons.1 hc with rfl | hc
    · omega
    · have := hap c hc
      unfold FreeBlock.Apart at this
      omega
  · have hheaders : Within l (l₁.setSize g.start n) fun x =>
        (g.start ≤ x ∧ x < g.payload) ∨ Covered (t :: bs) x := by
      refine ⟨rfl, fun x hx => ?_⟩
      rw [not_or, covered_cons, not_or, FreeBlock.mem_iff] at hx
      have := t.header_le_stop
      refine (he₂.sameBut x fun a ha => ?_).trans (he₁.sameBut x fun a ha => ?_)
      · rw [List.mem_singleton.1 ha]
        omega
      · rw [List.mem_singleton.1 ha]
        omega
    exact hheaders.trans (hwithin.mono fun x hx => Or.inr hx)

/-- The granted block `g` was cut down to `n` bytes, as far as the split floor allows, and the
excess was given back to the free blocks `bs`; `bs'` are there now. -/
structure CutsDown (l : FreeList) (bs : List FreeBlock) (g : FreeBlock) (n : Nat) (l' : FreeList)
    (bs' : List FreeBlock) : Prop where
  tidy : l'.Tidy bs'
  covered : ∀ x, Covered bs' x ↔ Covered (g.excess l.floor n) x ∨ Covered bs x
  size_eq : l'.mem.size g.start = (g.shrunk l.floor n).size
  within : Within l l' fun x =>
    (g.start ≤ x ∧ x < g.payload) ∨ Covered (g.excess l.floor n ++ bs) x

/-- Resizing within a block cuts it down in place and gives the excess back. -/
theorem Tidy.resize_of_le {n : Nat} (h : l.Tidy bs) (align : Nat) (hg : g.Valid)
    (hsize : l.mem.size g.start = g.size) (hap : ∀ c ∈ bs, g.Apart c) (hpos : size ≠ 0)
    (hround : roundUp? size granularity = some n) (hle : n ≤ g.size) :
    ∃ l' bs', l.resize g.payload align size = .ok (some g.payload, l') ∧
      l.CutsDown bs g n l' bs' := by
  obtain ⟨hdvd, hunits, -⟩ := units_of_roundUp? hround hpos
  obtain ⟨hkept, -, -, htail, -⟩ := FreeBlock.shrunk_spec hg hdvd hunits hle (floor_le l)
  rw [resize, if_neg hpos]
  simp only [hround, FreeBlock.payload, headerOf_payload, hsize, if_pos hle,
    splitTail_eq hsize hle hdvd, ok_bind]
  by_cases hsmall : g.size - n < l.floor
  · rw [if_pos hsmall]
    refine ⟨l, bs, rfl, h, ?_, ?_, rfl, fun _ _ => rfl⟩
    · simp [FreeBlock.excess, hsmall]
    · rw [hsize, FreeBlock.shrunk, if_pos hsmall]
  · rw [if_neg hsmall]
    set t : FreeBlock := ⟨payload g.start + n,
      g.size - n - headerSize⟩
    have hexcess : g.excess l.floor (n) = [t] := if_neg hsmall
    have hshrunk : g.shrunk l.floor (n) = ⟨g.start, n⟩ :=
      if_neg hsmall
    rw [hexcess, hshrunk] at htail
    rw [hshrunk] at hkept
    obtain ⟨ht, htstart, htstop⟩ := List.forall_mem_singleton.1 htail
    have hkstop : g.start + headerSize ≤ (⟨g.start, n⟩ : FreeBlock).stop :=
      FreeBlock.header_le_stop ⟨g.start, n⟩
    obtain ⟨l', bs', hl', htidy, hcovered, hsize', hwithin⟩ :=
      h.giveBack_tail hkept.size_lt ht (htstart ▸ hkstop) htstop hap
    refine ⟨l', bs', ?_, htidy, fun x => ?_, by rw [hsize', hshrunk], by rwa [hexcess]⟩
    · exact congrArg (fun r => r >>= fun l => pure (some g.payload, l)) hl'
    · rw [hcovered, hexcess, covered_cons]
      simp

/-- A block that is too small and cannot be moved stays as it is. -/
theorem resize_of_none {n ptr : Nat} (hpos : size ≠ 0)
    (hround : roundUp? size granularity = some n) (hlt : l.usableSize ptr < n)
    (hn : l.allocateAligned align n = .ok (none, l)) : l.resize ptr align size = .ok (none, l) := by
  rw [usableSize] at hlt
  rw [resize, if_neg hpos]
  simp only [hround, if_neg (Nat.not_le_of_lt hlt), hn, ok_bind]
  rfl

/-- A block that is too small is moved: a new block is granted, the contents are copied, and the old
block is released. -/
theorem resize_of_some {n ptr moved : Nat} {l₁ l' : FreeList} (hpos : size ≠ 0)
    (hround : roundUp? size granularity = some n) (hlt : l.usableSize ptr < n)
    (hn : l.allocateAligned align n = .ok (some moved, l₁))
    (hl' : release { l₁ with mem := l₁.mem.copy ptr moved (l.usableSize ptr) } ptr = .ok l') :
    l.resize ptr align size = .ok (some moved, l') := by
  rw [usableSize] at hlt hl'
  rw [resize, if_neg hpos]
  simp only [hround, if_neg (Nat.not_le_of_lt hlt), hn, ok_bind, hl']
  rfl

end FreeList

end PoolAlloc
