import PoolAlloc.FreeList.Placement
import PoolAlloc.Proofs.Blocks
/-!
# PoolAlloc.Proofs.Placement

Where a payload is placed, as a fact about lists of blocks.

`grant` says for a list of free blocks which block a request gets and what remains: the first
block that fits is cut into a lead, the granted block and an excess (`FreeBlock.lead`,
`FreeBlock.shrunk`, `FreeBlock.excess`). Both ends of the cut are treated alike: what is left on
either side is nothing, or a block that the split floor admits (`Cut`).

Main statement: what a request gets and what remains tile the free blocks there were
(`grant_spec`).
-/

namespace PoolAlloc

/-! ### Slack -/

/-- How far a payload that could begin at `start` is moved up, over all naturals. -/
def leastSlack (floor start align : Nat) : Nat :=
  let gap := roundUp start align - start
  if gap = 0 ∨ floor ≤ gap then gap else gap + roundUp (floor - gap) align

/-- The slack in front of a payload reaches a multiple of the alignment and is either nothing or
long enough for a block of its own. -/
theorem leastSlack_spec (floor start : Nat) {align : Nat} (halign : 0 < align) :
    align ∣ start + leastSlack floor start align ∧
      (leastSlack floor start align = 0 ∨ floor ≤ leastSlack floor start align) := by
  have hle := le_roundUp start halign
  have hdvd := dvd_roundUp start align
  unfold leastSlack
  dsimp only
  split
  · rw [Nat.add_sub_cancel' hle]
    exact ⟨hdvd, by assumption⟩
  · have hshort := le_roundUp (floor - (roundUp start align - start)) halign
    refine ⟨?_, Or.inr (by omega)⟩
    rw [← Nat.add_assoc, Nat.add_sub_cancel' hle]
    exact Nat.dvd_add hdvd (dvd_roundUp ..)

/-- A slack that is computed with words is the one over all naturals. -/
theorem slack?_eq_some {floor start align slack : Nat}
    (h : slack? floor start align = some slack) : slack = leastSlack floor start align := by
  obtain ⟨aligned, hup, h⟩ := Option.bind_eq_some_iff.1 h
  obtain ⟨-, rfl⟩ := roundUp?_eq_some.1 hup
  unfold leastSlack
  dsimp only at h ⊢
  split at h
  · rename_i hreach
    rw [if_pos hreach]
    exact (Option.some.inj h).symm
  · rename_i hshort
    obtain ⟨more, hmore, h⟩ := Option.bind_eq_some_iff.1 h
    obtain ⟨-, rfl⟩ := roundUp?_eq_some.1 hmore
    rw [if_neg hshort]
    exact (addChecked_eq_some.1 h).2

theorem slack?_spec {floor start align slack : Nat} (halign : 0 < align)
    (h : slack? floor start align = some slack) :
    align ∣ start + slack ∧ (slack = 0 ∨ floor ≤ slack) :=
  slack?_eq_some h ▸ leastSlack_spec floor start halign

theorem fit?_spec {floor start room align size slack : Nat}
    (h : fit? floor start room align size = some slack) :
    slack? floor start align = some slack ∧ size + slack ≤ room := by
  obtain ⟨s, hs, h⟩ := Option.bind_eq_some_iff.1 h
  obtain ⟨needed, hneeded, h⟩ := Option.bind_eq_some_iff.1 h
  obtain ⟨-, rfl⟩ := addChecked_eq_some.1 hneeded
  split at h
  · obtain rfl := Option.some.inj h
    exact ⟨hs, by assumption⟩
  · simp at h

theorem isAlignment_pos {align : Nat} (h : IsAlignment align) : 0 < align := by
  obtain ⟨k, rfl⟩ := h
  exact Nat.two_pow_pos k

theorem isAlignment_granularity : IsAlignment granularity := ⟨3, rfl⟩

/-- Every alignment is raised to a multiple of the granularity. -/
theorem granularity_dvd_max {align : Nat} (h : IsAlignment align) :
    granularity ∣ max align granularity := by
  obtain ⟨k, rfl⟩ := h
  rcases Nat.lt_or_ge k 3 with hk | hk
  · have hle : 2 ^ k ≤ granularity := Nat.pow_le_pow_right (by decide : 0 < 2) (Nat.le_of_lt hk)
    exact (Nat.max_eq_right hle).symm ▸ Nat.dvd_refl _
  · have hle : granularity ≤ 2 ^ k := Nat.pow_le_pow_right (by decide : 0 < 2) hk
    rw [Nat.max_eq_left hle]
    exact Nat.pow_dvd_pow 2 hk

theorem max_granularity_pos (align : Nat) : 0 < max align granularity :=
  Nat.lt_of_lt_of_le (by decide : 0 < granularity) (Nat.le_max_right ..)

theorem isAlignment_max {align : Nat} (h : IsAlignment align) :
    IsAlignment (max align granularity) := by
  rcases Nat.le_total align granularity with hle | hle
  · rw [Nat.max_eq_right hle]
    exact isAlignment_granularity
  · rwa [Nat.max_eq_left hle]

/-- What is a multiple of the raised alignment is one of the alignment. -/
theorem dvd_max_granularity {align : Nat} (h : IsAlignment align) :
    align ∣ max align granularity := by
  obtain ⟨k, rfl⟩ := h
  rcases Nat.lt_or_ge k 3 with hk | hk
  · have hdvd : 2 ^ k ∣ granularity := Nat.pow_dvd_pow 2 (Nat.le_of_lt hk)
    rwa [Nat.max_eq_right (Nat.le_of_dvd (by decide) hdvd)]
  · have hle : granularity ≤ 2 ^ k := Nat.pow_le_pow_right (by decide : 0 < 2) hk
    exact (Nat.max_eq_left hle).symm ▸ Nat.dvd_refl _

/-! ### The pieces of a block -/

namespace FreeBlock

/-- What is left in front of a payload that is moved up by `slack`. -/
def lead (b : FreeBlock) (slack : Nat) : List FreeBlock :=
  if slack = 0 then [] else [⟨b.start, slack - headerSize⟩]

/-- The block without its first `slack` bytes. -/
def trim (b : FreeBlock) (slack : Nat) : FreeBlock := ⟨b.start + slack, b.size - slack⟩

/-- The block cut down to `size` bytes of payload, if what remains reaches the floor. -/
def shrunk (b : FreeBlock) (floor size : Nat) : FreeBlock :=
  if b.size - size < floor then b else ⟨b.start, size⟩

/-- What remains of a block that is cut down. -/
def excess (b : FreeBlock) (floor size : Nat) : List FreeBlock :=
  if b.size - size < floor then []
  else [⟨PoolAlloc.payload b.start + size, b.size - size - headerSize⟩]

variable {b c : FreeBlock} {floor size slack : Nat}

@[simp] theorem lead_zero (b : FreeBlock) : b.lead 0 = [] := rfl

@[simp] theorem trim_zero (b : FreeBlock) : b.trim 0 = b := rfl

theorem lead_of_pos (b : FreeBlock) (h : slack ≠ 0) :
    b.lead slack = [⟨b.start, slack - headerSize⟩] := if_neg h

@[simp] theorem trim_start (b : FreeBlock) (slack : Nat) : (b.trim slack).start = b.start + slack :=
  rfl

theorem trim_stop (h : slack ≤ b.size) : (b.trim slack).stop = b.stop := by
  simp only [stop_eq, trim]
  omega

@[simp] theorem shrunk_start (b : FreeBlock) (floor size : Nat) :
    (b.shrunk floor size).start = b.start := by
  unfold shrunk
  split <;> rfl

theorem Valid.trim (h : b.Valid) (hdvd : granularity ∣ slack) (hlt : slack < b.size) :
    (b.trim slack).Valid where
  start_pos := Nat.lt_of_lt_of_le h.start_pos (Nat.le_add_right ..)
  dvd_start := Nat.dvd_add h.dvd_start hdvd
  size_pos := Nat.sub_pos_of_lt hlt
  dvd_size := Nat.dvd_sub h.dvd_size hdvd
  stop_lt := trim_stop (Nat.le_of_lt hlt) ▸ h.stop_lt

/-- The lead is a block that ends where the rest begins. -/
theorem lead_spec (h : b.Valid) (hdvd : granularity ∣ slack) (hlt : slack < b.size)
    (hslack : slack = 0 ∨ minBlockSpan ≤ slack) :
    (∀ c ∈ b.lead slack, c.Valid ∧ c.start = b.start ∧ c.stop = (b.trim slack).start) ∧
      ∀ x, x ∈ b ↔ Covered (b.lead slack) x ∨ x ∈ b.trim slack := by
  have htrim := trim_stop (Nat.le_of_lt hlt)
  have hstop := b.stop_eq
  rcases hslack with rfl | hslack
  · simp
  · simp only [minBlockSpan, headerSize, granularity] at hslack hdvd
    have hpos : slack ≠ 0 := by omega
    have hlead : (⟨b.start, slack - headerSize⟩ : FreeBlock).stop = b.start + slack := by
      simp only [stop_eq, headerSize]
      omega
    have hlt' := h.stop_lt
    rw [lead_of_pos b hpos]
    constructor
    · intro c hc
      rw [List.mem_singleton.1 hc]
      refine ⟨⟨h.start_pos, h.dvd_start, ?_, ?_, ?_⟩, rfl, hlead⟩
      · simp only [headerSize]
        omega
      · simp only [headerSize, granularity]
        omega
      · rw [hlead]
        omega
    · intro x
      rw [covered_cons, mem_iff, mem_iff, mem_iff, hlead, htrim, trim_start]
      simp only [covered_nil, or_false]
      omega

/-- The block that is kept and the excess are blocks that tile the whole. -/
theorem shrunk_spec (h : b.Valid) (hdvd : granularity ∣ size) (hpos : 0 < size)
    (hle : size ≤ b.size) (hfloor : minBlockSpan ≤ floor) :
    (b.shrunk floor size).Valid ∧ size ≤ (b.shrunk floor size).size ∧
      (b.shrunk floor size).size ≤ b.size ∧
      (∀ c ∈ b.excess floor size, c.Valid ∧ c.start = (b.shrunk floor size).stop ∧
        c.stop = b.stop) ∧
      ∀ x, x ∈ b ↔ x ∈ b.shrunk floor size ∨ Covered (b.excess floor size) x := by
  unfold shrunk excess
  have hstop := b.stop_eq
  have hlt := h.stop_lt
  have hdvd' := h.dvd_size
  have hstart := h.dvd_start
  split
  · simp [h, hle]
  · rename_i hbig
    simp only [minBlockSpan, headerSize, granularity] at hfloor hdvd hdvd' hstart
    have hkept : (⟨b.start, size⟩ : FreeBlock).stop = b.start + 24 + size := stop_eq _
    have hrest : (⟨PoolAlloc.payload b.start + size, b.size - size - headerSize⟩ : FreeBlock).stop =
        b.stop := by
      simp only [stop_eq, PoolAlloc.payload, headerSize]
      omega
    refine ⟨⟨h.start_pos, h.dvd_start, hpos, hdvd, by omega⟩, Nat.le_refl _, hle, ?_, ?_⟩
    · intro c hc
      rw [List.mem_singleton.1 hc]
      refine ⟨⟨?_, ?_, ?_, ?_, ?_⟩, ?_, hrest⟩
      · simp only [PoolAlloc.payload, headerSize]
        omega
      · simp only [PoolAlloc.payload, headerSize, granularity]
        omega
      · simp only [headerSize]
        omega
      · simp only [headerSize, granularity]
        omega
      · omega
      · rw [hkept]
        rfl
    · intro x
      rw [covered_cons, mem_iff, mem_iff, mem_iff, hkept, hrest]
      simp only [PoolAlloc.payload, headerSize, covered_nil, or_false]
      omega

end FreeBlock

/-! ### What a request gets -/

/-- The block that a request is granted and the free blocks that remain: the first block that fits
is cut into what the request gets and what is left of it on both sides. -/
def grant (floor align size : Nat) : List FreeBlock → Option (FreeBlock × List FreeBlock)
  | [] => none
  | b :: rest =>
    match fit? floor b.payload b.size align size with
    | some slack =>
      some ((b.trim slack).shrunk floor size,
        b.lead slack ++ (b.trim slack).excess floor size ++ rest)
    | none => (grant floor align size rest).map fun (g, bs) => (g, b :: bs)

variable {floor align size slack : Nat} {bs bs' xs ys : List FreeBlock} {b g : FreeBlock}

theorem grant_eq_some (h : grant floor align size bs = some (g, bs')) :
    ∃ xs b ys slack, bs = xs ++ b :: ys ∧
      (∀ x ∈ xs, fit? floor x.payload x.size align size = none) ∧
      fit? floor b.payload b.size align size = some slack ∧
      g = (b.trim slack).shrunk floor size ∧
      bs' = xs ++ (b.lead slack ++ (b.trim slack).excess floor size ++ ys) := by
  induction bs generalizing g bs' with
  | nil => simp [grant] at h
  | cons b rest ih =>
    rw [grant] at h
    split at h
    · rename_i slack hfit
      obtain ⟨rfl, rfl⟩ := Prod.mk.inj (Option.some.inj h)
      exact ⟨[], b, rest, slack, rfl, by simp, hfit, rfl, rfl⟩
    · rename_i hfit
      obtain ⟨⟨g₁, bs₁⟩, hrest, heq⟩ := Option.map_eq_some_iff.1 h
      obtain ⟨rfl, rfl⟩ := Prod.mk.inj heq
      obtain ⟨xs, c, ys, slack, rfl, hxs, hc, rfl, rfl⟩ := ih hrest
      exact ⟨b :: xs, c, ys, slack, rfl, List.forall_mem_cons.2 ⟨hfit, hxs⟩, hc, rfl, rfl⟩

theorem grant_eq_none (h : grant floor align size bs = none) :
    ∀ b ∈ bs, fit? floor b.payload b.size align size = none := by
  induction bs with
  | nil => simp
  | cons b rest ih =>
    rw [grant] at h
    split at h
    · simp at h
    · rename_i hfit
      exact List.forall_mem_cons.2 ⟨hfit, ih (Option.map_eq_none_iff.1 h)⟩

/-- The cut of a block for a payload of `size` bytes behind `slack` bytes. -/
structure Cut (b : FreeBlock) (floor size slack : Nat) : Prop where
  valid : b.Valid
  dvd_slack : granularity ∣ slack
  slack_eq : slack = 0 ∨ minBlockSpan ≤ slack
  dvd_size : granularity ∣ size
  size_pos : 0 < size
  room : size + slack ≤ b.size
  floor_le : minBlockSpan ≤ floor

/-- A request for whole units that fits into a valid block is a cut of it. -/
theorem cut_of_fit (hb : b.Valid) (halign : granularity ∣ align) (hpos : 0 < align)
    (hsize : granularity ∣ size) (hsize' : 0 < size) (hfloor : minBlockSpan ≤ floor)
    (h : fit? floor b.payload b.size align size = some slack) :
    Cut b floor size slack ∧ align ∣ b.payload + slack := by
  obtain ⟨hslack, hroom⟩ := fit?_spec h
  obtain ⟨hdvd, hle⟩ := slack?_spec hpos hslack
  have hstart : granularity ∣ b.payload := Nat.dvd_add hb.dvd_start (by decide)
  have hslack' := (Nat.dvd_add_iff_right hstart).2 (Nat.dvd_trans halign hdvd)
  exact ⟨⟨hb, hslack', hle.imp_right (Nat.le_trans hfloor), hsize, hsize', hroom, hfloor⟩, hdvd⟩

namespace Cut

variable (h : Cut b floor size slack)
include h

theorem slack_lt : slack < b.size := by
  have := h.room
  have := h.size_pos
  omega

theorem trim_valid : (b.trim slack).Valid := h.valid.trim h.dvd_slack h.slack_lt

theorem size_le : size ≤ (b.trim slack).size := by
  have := h.room
  show size ≤ b.size - slack
  omega

theorem lead_spec :
    (∀ c ∈ b.lead slack, c.Valid ∧ c.start = b.start ∧ c.stop = (b.trim slack).start) ∧
      ∀ x, x ∈ b ↔ Covered (b.lead slack) x ∨ x ∈ b.trim slack :=
  FreeBlock.lead_spec h.valid h.dvd_slack h.slack_lt h.slack_eq

theorem shrunk_spec :
    ((b.trim slack).shrunk floor size).Valid ∧
      size ≤ ((b.trim slack).shrunk floor size).size ∧
      ((b.trim slack).shrunk floor size).size ≤ (b.trim slack).size ∧
      (∀ c ∈ (b.trim slack).excess floor size, c.Valid ∧
        c.start = ((b.trim slack).shrunk floor size).stop ∧ c.stop = (b.trim slack).stop) ∧
      ∀ x, x ∈ b.trim slack ↔
        x ∈ (b.trim slack).shrunk floor size ∨ Covered ((b.trim slack).excess floor size) x :=
  FreeBlock.shrunk_spec h.trim_valid h.dvd_size h.size_pos h.size_le h.floor_le

/-- What is left of a cut block keeps its place in any order of blocks. -/
theorem pieces_within :
    ∀ c ∈ b.lead slack ++ (b.trim slack).excess floor size,
      c.Valid ∧ b.start ≤ c.start ∧ c.stop ≤ b.stop := by
  have hstop := FreeBlock.trim_stop (Nat.le_of_lt h.slack_lt)
  have hkept := h.shrunk_spec.1
  intro c hc
  have := c.header_le_stop
  rcases List.mem_append.1 hc with hc | hc
  · obtain ⟨hvalid, hstart, hend⟩ := h.lead_spec.1 c hc
    have := (b.trim slack).header_le_stop
    exact ⟨hvalid, by omega, by omega⟩
  · obtain ⟨hvalid, hstart, hend⟩ := h.shrunk_spec.2.2.2.1 c hc
    have := ((b.trim slack).shrunk floor size).header_le_stop
    rw [FreeBlock.shrunk_start, FreeBlock.trim_start] at this
    exact ⟨hvalid, by omega, by omega⟩

/-- The granted block separates what is left of the block on its two sides. -/
theorem pieces_spaced : Spaced (b.lead slack ++ (b.trim slack).excess floor size) := by
  have hone : ∀ {ds : List FreeBlock}, ds.length ≤ 1 → Spaced ds := by
    intro ds hds
    match ds with
    | [] => exact List.Pairwise.nil
    | [d] => exact List.pairwise_singleton ..
  refine List.pairwise_append.2 ⟨hone ?_, hone ?_, fun c hc d hd => ?_⟩
  · unfold FreeBlock.lead
    split <;> simp
  · unfold FreeBlock.excess
    split <;> simp
  · have hc' := (h.lead_spec.1 c hc).2.2
    have hd' := (h.shrunk_spec.2.2.2.1 d hd).2.1
    have := ((b.trim slack).shrunk floor size).header_le_stop
    rw [FreeBlock.shrunk_start] at this
    omega

end Cut

/-- A block `g` was cut out of the blocks `bs`, and `bs'` are left. -/
structure CutOut (bs : List FreeBlock) (g : FreeBlock) (bs' : List FreeBlock) : Prop where
  valid : g.Valid
  rest_valid : ∀ b ∈ bs', b.Valid
  spaced : Spaced bs'
  apart : ∀ c ∈ bs', g.Apart c
  tile : ∀ x, Covered bs x ↔ x ∈ g ∨ Covered bs' x

/-- A request gets a block that is large enough and starts its payload at the alignment, cut out of
the free blocks. -/
theorem grant_spec (hvalid : ∀ b ∈ bs, b.Valid) (hspaced : Spaced bs)
    (halign : granularity ∣ align) (hpos : 0 < align) (hsize : granularity ∣ size)
    (hsize' : 0 < size) (hfloor : minBlockSpan ≤ floor)
    (h : grant floor align size bs = some (g, bs')) :
    CutOut bs g bs' ∧ size ≤ g.size ∧ align ∣ g.payload := by
  obtain ⟨xs, b, ys, slack, rfl, -, hfit, rfl, rfl⟩ := grant_eq_some h
  have hb := hvalid b (by simp)
  obtain ⟨hcut, hdvd⟩ := cut_of_fit hb halign hpos hsize hsize' hfloor hfit
  obtain ⟨hkept, hlarge, hsmall, htail, htile⟩ := hcut.shrunk_spec
  have hwithin := hcut.pieces_within
  have hstop := FreeBlock.trim_stop (Nat.le_of_lt hcut.slack_lt)
  have hspaced' := pairwise_replace hspaced hcut.pieces_spaced
    (fun x c hc hx => by have := hwithin c hc; omega)
    (fun y c hc hy => by have := hwithin c hc; omega)
  have hkstop : ((b.trim slack).shrunk floor size).stop ≤ b.stop := by
    rw [← hstop, FreeBlock.stop_eq, FreeBlock.stop_eq, FreeBlock.shrunk_start]
    omega
  -- The granted block lies inside `b`, so `b` keeps it apart from the blocks on both sides.
  refine ⟨⟨hkept, ?_, hspaced', ?_, ?_⟩, hlarge, ?_⟩
  · exact forall_replace hvalid fun c hc => (hwithin c hc).1
  · intro c hc
    obtain ⟨-, hby, hxby⟩ := List.pairwise_append.1 hspaced
    obtain ⟨hb', -⟩ := List.pairwise_cons.1 hby
    rcases List.mem_append.1 hc with hc | hc
    · have := hxby c hc b List.mem_cons_self
      refine Or.inr ?_
      rw [FreeBlock.shrunk_start, FreeBlock.trim_start]
      omega
    · rcases List.mem_append.1 hc with hc | hc
      · rcases List.mem_append.1 hc with hc | hc
        · have := (hcut.lead_spec.1 c hc).2.2
          refine Or.inr ?_
          rw [FreeBlock.shrunk_start]
          omega
        · exact Or.inl (Nat.le_of_eq (htail c hc).2.1.symm)
      · have := hb' c hc
        exact Or.inl (by omega)
  · intro x
    simp only [covered_append, covered_cons, hcut.lead_spec.2 x, htile x]
    tauto
  · rw [FreeBlock.payload_eq, FreeBlock.shrunk_start, FreeBlock.trim_start]
    rwa [FreeBlock.payload_eq, Nat.add_right_comm] at hdvd

end PoolAlloc
