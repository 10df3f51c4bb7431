import PoolAlloc.Proofs.Isolation
/-!
# PoolAlloc.Proofs.Waste

How much more than it asked for a client is granted.

A block does not know what was asked for when it was granted, so the requests are entered in a
ledger beside the session (`Request.book`, `Session.Booked`). By it every granted block has room for
what it was last asked for, rounded up to whole units, and less than the split floor more (`Fits`).
The reason is that whatever is cut off a block reaches the floor, and whatever does not is left with
it: in front of an aligned payload, behind it (`Remainders`), and behind a block that is cut down.

Main statement: `Session.Reachable.waste_bounded`.
-/

namespace PoolAlloc

open Memory FreeList

/-! ### What cutting leaves -/

/-- A payload has room for `size` bytes in whole units, and for less than `floor` bytes more. -/
def Fits (floor size usable : Nat) : Prop :=
  roundUp size granularity ≤ usable ∧ usable < roundUp size granularity + floor

/-- Sizes are rounded up once. -/
theorem fits_roundUp {floor size usable : Nat} :
    Fits floor (roundUp size granularity) usable ↔ Fits floor size usable := by
  rw [Fits, Fits, roundUp_of_dvd (by decide) (dvd_roundUp ..)]

/-- What is left of a free block `b` in front of a granted block and behind it, where the payload of
the granted block is `usable` bytes from `ptr` on: nothing, or a span that reaches the floor. -/
structure Remainders (floor : Nat) (b : FreeBlock) (ptr usable : Nat) : Prop where
  /-- The granted block, header included, lies in the free block. -/
  inside : b.start + headerSize ≤ ptr ∧ ptr + usable ≤ b.stop
  lead : ptr - headerSize - b.start = 0 ∨ floor ≤ ptr - headerSize - b.start
  tail : b.stop - (ptr + usable) = 0 ∨ floor ≤ b.stop - (ptr + usable)

namespace FreeBlock

variable {b : FreeBlock} {floor size : Nat}

/-- What a block loses when it is cut down. -/
theorem shrunk_loss (b : FreeBlock) (floor size : Nat) :
    b.size - (b.shrunk floor size).size = 0 ∨ floor ≤ b.size - (b.shrunk floor size).size := by
  unfold shrunk
  split
  · exact Or.inl (Nat.sub_self _)
  · rename_i hbig
    exact Or.inr (Nat.le_of_not_lt hbig)

/-- A block that is cut down to what was asked for fits it. -/
theorem shrunk_fits (hle : roundUp size granularity ≤ b.size) (hfloor : 0 < floor) :
    Fits floor size (b.shrunk floor (roundUp size granularity)).size := by
  unfold shrunk
  split
  · rename_i hsmall
    exact ⟨hle, (Nat.sub_lt_iff_lt_add' hle).1 hsmall⟩
  · exact ⟨Nat.le_refl _, Nat.lt_add_of_pos_right hfloor⟩

end FreeBlock

variable {floor align size : Nat} {bs bs' : List FreeBlock} {g : FreeBlock}

/-- A block that is granted was cut out of a free block, moved up by nothing or by as much as the
floor. -/
theorem place?_cut (hvalid : ∀ b ∈ bs, b.Valid) (hfloor : minBlockSpan ≤ floor)
    (h : place? floor align size bs = some (g, bs')) :
    ∃ b ∈ bs, ∃ slack, Cut b floor (roundUp size granularity) slack ∧
      (slack = 0 ∨ floor ≤ slack) ∧
      g = (b.trim slack).shrunk floor (roundUp size granularity) := by
  obtain ⟨hsize, halign, hround, hgrant⟩ := place?_eq_some h
  obtain ⟨hunits, hpos, -⟩ := units_of_roundUp? hround hsize
  obtain ⟨xs, b, ys, slack, rfl, -, hfit, rfl, rfl⟩ := grant_eq_some hgrant
  obtain ⟨hcut, -⟩ := cut_of_fit (hvalid b (by simp)) (granularity_dvd_max halign)
    (max_granularity_pos align) hunits hpos hfloor hfit
  obtain ⟨-, hslack⟩ := slack?_spec (max_granularity_pos align) (fit?_spec hfit).1
  exact ⟨b, by simp, slack, hcut, hslack, rfl⟩

/-- A block that is granted fits what was asked for. -/
theorem place?_fits (hvalid : ∀ b ∈ bs, b.Valid) (hfloor : minBlockSpan ≤ floor)
    (h : place? floor align size bs = some (g, bs')) : Fits floor size g.size := by
  obtain ⟨b, -, slack, hcut, -, rfl⟩ := place?_cut hvalid hfloor h
  exact FreeBlock.shrunk_fits hcut.size_le (Nat.lt_of_lt_of_le (by decide) hfloor)

/-- What is left on both sides of it reaches the floor. -/
theorem place?_remainders (hvalid : ∀ b ∈ bs, b.Valid) (hfloor : minBlockSpan ≤ floor)
    (h : place? floor align size bs = some (g, bs')) :
    ∃ b ∈ bs, Remainders floor b g.payload g.size := by
  obtain ⟨b, hb, slack, hcut, hslack, rfl⟩ := place?_cut hvalid hfloor h
  refine ⟨b, hb, ?_⟩
  obtain ⟨-, -, hle, -, -⟩ := hcut.shrunk_spec
  -- The payload is moved up by the slack, and what it loses at its end lies behind it.
  have hptr : ((b.trim slack).shrunk floor (roundUp size granularity)).payload =
      b.start + slack + headerSize := by
    rw [FreeBlock.payload_eq, FreeBlock.shrunk_start]
    rfl
  have hlead : b.start + slack + headerSize - headerSize - b.start = slack := by
    rw [Nat.add_sub_cancel, Nat.add_sub_cancel_left]
  have hstop : b.stop = b.start + slack + headerSize + (b.trim slack).size := by
    rw [← FreeBlock.trim_stop (Nat.le_of_lt hcut.slack_lt), FreeBlock.stop_eq]
    rfl
  rw [hptr]
  refine ⟨⟨?_, ?_⟩, hlead.symm ▸ hslack, ?_⟩
  · exact Nat.add_le_add_right (Nat.le_add_right ..) _
  · exact hstop ▸ Nat.add_le_add_left hle _
  · rw [hstop, Nat.add_sub_add_left]
    exact FreeBlock.shrunk_loss ..

/-! ### The ledger -/

namespace Request

/-- How many bytes a request wants a block to have room for. -/
def size? : Request → Option Nat
  | allocate _ size => some size
  | resize _ _ size => some size
  | _ => none

/-- Enter a request and its answer in the ledger of what granted blocks were last asked for. -/
def book (r : Request) (answer : Option Nat) (asked : Nat → Nat) : Nat → Nat :=
  match r.size?, answer with
  | some size, some ptr => Function.update asked ptr size
  | _, _ => asked

variable {r : Request} {answer : Option Nat} {asked : Nat → Nat} {size p : Nat}

theorem book_self (h : r.size? = some size) : r.book (some p) asked p = size := by
  simp only [book, h, Function.update_self]

theorem book_of_ne (h : answer ≠ some p) : r.book answer asked p = asked p := by
  unfold book
  cases r.size? with
  | none => rfl
  | some size =>
    cases answer with
    | none => rfl
    | some ptr => exact Function.update_of_ne (fun heq => h (congrArg some heq.symm)) ..

end Request

namespace Session

/-- The ledger `asked` was kept from the start on. -/
inductive Booked : Session → (Nat → Nat) → Prop
  | start (minSplit : Nat) (mem : Memory) (asked : Nat → Nat) : Booked (start minSplit mem) asked
  | step {s s' : Session} {r : Request} {answer : Option Nat} {asked : Nat → Nat}
      (h : Booked s asked) (hr : r.Allowed s) (hs : s.perform r = .ok (answer, s')) :
      Booked s' (r.book answer asked)

/-- Every granted block fits what it was last asked for. -/
def Snug (s : Session) (asked : Nat → Nat) : Prop :=
  ∀ p ∈ s.live, Fits s.list.floor (asked p) (s.list.usableSize p)

variable {s s' : Session} {r : Request} {answer : Option Nat} {asked : Nat → Nat} {p : Nat}

/-- Every session that can be reached can be reached with a ledger. -/
theorem Reachable.booked (h : s.Reachable) : ∃ asked, Booked s asked := by
  induction h with
  | start minSplit mem => exact ⟨fun _ => 0, .start minSplit mem _⟩
  | step _ hr hs ih =>
    obtain ⟨asked, hbooked⟩ := ih
    exact ⟨_, hbooked.step hr hs⟩

/-- A request changes the size of no other granted block than the one it names. -/
theorem Effect.usableSize_eq (he : Effect s bs r answer s' bs') (h : s.Sound bs) (hr : r.Allowed s)
    (hp : p ∈ s.live) (ht : r.target? ≠ some p) :
    s'.list.usableSize p = s.list.usableSize p := by
  by_cases hcall : ∃ addr byte, r = .write addr byte
  · obtain ⟨addr, byte, rfl⟩ := hcall
    cases he with
    | written =>
      have hw := within_set s.list addr byte
      exact congrArg FreeBlock.size (h.block_poke hw (fun x hx => hx ▸ hr) p hp)
  · have hcall : ∀ addr byte, r ≠ .write addr byte := fun addr byte heq => hcall ⟨addr, byte, heq⟩
    exact congrArg FreeBlock.size (he.block_eq h hr hcall hp ht).1

/-- The block that another moved to is as large as it was granted. -/
theorem Sound.moved_size {l₁ l' : FreeList} {bs₁ : List FreeBlock} {align n : Nat} (h : s.Sound bs)
    (hp : p ∈ s.live) (hlt : s.list.usableSize p < n)
    (hplace : place? s.list.floor align n bs = some (g, bs₁)) (ht : s.list.Takes bs g l₁ bs₁)
    (hg : Gives { l₁ with mem := l₁.mem.copy p g.payload (s.list.usableSize p) } bs₁
      (s.list.block p) l' bs') : l'.usableSize g.payload = g.size := by
  obtain ⟨hsound, hblock, hnew⟩ := h.copied hp ht hlt (h.tidy.le_of_place? hplace)
  -- The new block is not touched when the old one is released.
  have hold := hsound.give_block (Finset.mem_insert_of_mem hp) (hblock ▸ hg) g.payload
    (Finset.mem_erase.2 ⟨(h.payload_ne hp ht).symm, Finset.mem_insert_self ..⟩)
  exact congrArg FreeBlock.size (hold.trans hnew)

/-- A request keeps all granted blocks as they fit by the ledger. -/
theorem Effect.snug (he : Effect s bs r answer s' bs') (h : s.Sound bs) (hr : r.Allowed s)
    (hsnug : s.Snug asked) : s'.Snug (r.book answer asked) := by
  have hfloor : s'.list.floor = s.list.floor := congrArg splitFloor he.minSplit_eq
  have hother := fun q hq ht => he.usableSize_eq h hr (p := q) hq ht
  have hpos : 0 < s.list.floor := Nat.lt_of_lt_of_le (by decide) (floor_le s.list)
  intro p hp
  rw [hfloor]
  cases he with
  | added | ignored | refused | written =>
    rw [hother p hp nofun]
    exact hsnug p hp
  | @granted align size g l' bs' hplace ht =>
    rcases Finset.mem_insert.1 hp with rfl | hp
    · have hsize : l'.usableSize g.payload = g.size :=
        congrArg FreeBlock.size (block_eq_of_size ht.size_eq)
      rw [Request.book_self rfl]
      exact hsize ▸ place?_fits h.tidy.valid (floor_le s.list) hplace
    · have hne : some g.payload ≠ some p := fun heq => h.payload_ne hp ht (Option.some.inj heq).symm
      rw [hother p hp nofun, Request.book_of_ne hne]
      exact hsnug p hp
  | released hg =>
    obtain ⟨hne, hp⟩ := Finset.mem_erase.1 hp
    rw [hother p hp fun heq => hne (Option.some.inj heq).symm]
    exact hsnug p hp
  | @cutDown ptr align size n l' bs' hround _ hle hc =>
    rcases eq_or_ne p ptr with rfl | hne
    · obtain ⟨-, rfl⟩ := roundUp?_eq_some.1 hround
      have hsize : l'.usableSize p = _ := hc.size_eq
      rw [Request.book_self rfl, hsize]
      exact FreeBlock.shrunk_fits hle hpos
    · have hne : some ptr ≠ some p := fun heq => hne (Option.some.inj heq).symm
      rw [hother p hp hne, Request.book_of_ne hne]
      exact hsnug p hp
  | @moved ptr align size n g l₁ l' bs₁ bs' hround _ hlt hplace ht hg =>
    rcases Finset.mem_insert.1 hp with rfl | hp
    · obtain ⟨-, rfl⟩ := roundUp?_eq_some.1 hround
      rw [Request.book_self rfl, h.moved_size hr hlt hplace ht hg]
      exact fits_roundUp.1 (place?_fits h.tidy.valid (floor_le s.list) hplace)
    · obtain ⟨hne, hp⟩ := Finset.mem_erase.1 hp
      have hnew : some g.payload ≠ some p := fun heq =>
        h.payload_ne hp ht (Option.some.inj heq).symm
      rw [hother p hp fun heq => hne (Option.some.inj heq).symm, Request.book_of_ne hnew]
      exact hsnug p hp
  | kept => exact hsnug p hp

/-- A session with a ledger is sound, and its granted blocks fit. -/
theorem Booked.snug (h : Booked s asked) : (∃ bs, s.Sound bs) ∧ s.Snug asked := by
  induction h with
  | start minSplit mem asked =>
    exact ⟨⟨[], sound_start minSplit mem⟩, fun p hp => absurd hp (Finset.notMem_empty p)⟩
  | step _ hr hs ih =>
    obtain ⟨⟨bs, hsound⟩, hsnug⟩ := ih
    obtain ⟨answer, s', bs', hs', he⟩ := hsound.perform hr
    obtain ⟨rfl, rfl⟩ := Prod.mk.inj (Except.ok.inj (hs.symm.trans hs'))
    exact ⟨⟨bs', he.sound hsound hr⟩, he.snug hsound hr hsnug⟩

/-! ### Bounded waste in every run -/

/-- A block that a request grants is carved out of a free block, with remainders that reach the
split floor. -/
theorem Sound.allocate_remainders {align size : Nat} (h : s.Sound bs)
    (hs : s.perform (.allocate align size) = .ok (some p, s')) :
    ∃ b ∈ bs, Remainders s.list.floor b p (s'.list.usableSize p) := by
  obtain ⟨answer, s₁, bs₁, hs₁, he⟩ := h.perform (r := .allocate align size) trivial
  obtain ⟨rfl, rfl⟩ := Prod.mk.inj (Except.ok.inj (hs.symm.trans hs₁))
  cases he with
  | @granted _ _ g l' bs' hplace ht =>
    have hsize : l'.usableSize g.payload = g.size :=
      congrArg FreeBlock.size (block_eq_of_size ht.size_eq)
    exact hsize.symm ▸ place?_remainders h.tidy.valid (floor_le s.list) hplace

/-- So is the block that a resized one moves to. -/
theorem Sound.resize_remainders {align size q : Nat} (h : s.Sound bs) (hp : p ∈ s.live)
    (hs : s.perform (.resize p align size) = .ok (some q, s')) (hne : q ≠ p) :
    ∃ b ∈ bs, Remainders s.list.floor b q (s'.list.usableSize q) := by
  obtain ⟨answer, s₁, bs₁, hs₁, he⟩ := h.perform (r := .resize p align size) hp
  obtain ⟨rfl, rfl⟩ := Prod.mk.inj (Except.ok.inj (hs.symm.trans hs₁))
  cases he with
  | cutDown => exact absurd rfl hne
  | moved _ _ hlt hplace ht hg =>
    have hsize := h.moved_size hp hlt hplace ht hg
    exact hsize.symm ▸ place?_remainders h.tidy.valid (floor_le s.list) hplace

/-- A block that is resized in place loses nothing, or as much as the floor. -/
theorem Sound.resize_loss {align size : Nat} (h : s.Sound bs) (hp : p ∈ s.live)
    (hs : s.perform (.resize p align size) = .ok (some p, s')) :
    s'.list.usableSize p ≤ s.list.usableSize p ∧
      (s.list.usableSize p - s'.list.usableSize p = 0 ∨
        s.list.floor ≤ s.list.usableSize p - s'.list.usableSize p) := by
  obtain ⟨answer, s₁, bs₁, hs₁, he⟩ := h.perform (r := .resize p align size) hp
  obtain ⟨rfl, rfl⟩ := Prod.mk.inj (Except.ok.inj (hs.symm.trans hs₁))
  cases he with
  | @cutDown _ _ _ n l' _ hround hpos hle hc =>
    obtain ⟨hdvd, hpos, -⟩ := units_of_roundUp? hround hpos
    have hsize : l'.usableSize p = ((s.list.block p).shrunk s.list.floor n).size := hc.size_eq
    refine ⟨(h.cutDown_payload hp hdvd hpos hle hc).1, ?_⟩
    show _ - l'.usableSize p = 0 ∨ _ ≤ _ - l'.usableSize p
    rw [hsize]
    exact (s.list.block p).shrunk_loss ..
  | moved _ _ _ _ ht _ => exact absurd rfl (h.payload_ne hp ht)

/-- In every reachable session: granted blocks fit what they were last asked for, by every ledger
that was kept; what is left of the free block that a granted block is carved out of, and what a
block loses that is resized in place, is nothing or reaches the split floor; and no block has less
than the least span. -/
theorem Reachable.waste_bounded (h : s.Reachable) :
    (∃ asked, Booked s asked) ∧
    (∀ asked, Booked s asked → ∀ p ∈ s.live,
      roundUp (asked p) granularity ≤ s.list.usableSize p ∧
        s.list.usableSize p < roundUp (asked p) granularity + s.list.floor) ∧
    ∃ bs, s.list.blocks = .ok bs ∧
      (∀ align size p s', s.perform (.allocate align size) = .ok (some p, s') →
        ∃ b ∈ bs, Remainders s.list.floor b p (s'.list.usableSize p)) ∧
      (∀ p ∈ s.live, ∀ align size q s', s.perform (.resize p align size) = .ok (some q, s') →
        q ≠ p → ∃ b ∈ bs, Remainders s.list.floor b q (s'.list.usableSize q)) ∧
      (∀ p ∈ s.live, ∀ align size s', s.perform (.resize p align size) = .ok (some p, s') →
        s'.list.usableSize p ≤ s.list.usableSize p ∧
          (s.list.usableSize p - s'.list.usableSize p = 0 ∨
            s.list.floor ≤ s.list.usableSize p - s'.list.usableSize p)) ∧
      (∀ b ∈ bs, minBlockSpan ≤ b.span) ∧ ∀ p ∈ s.live, minBlockSpan ≤ (s.list.block p).span := by
  obtain ⟨bs, hsound⟩ := h.sound
  refine ⟨h.booked, fun asked hbooked => hbooked.snug.2, bs, hsound.tidy.holds.blocks_eq,
    fun _ _ _ _ hs => hsound.allocate_remainders hs,
    fun _ hp _ _ _ _ hs hne => hsound.resize_remainders hp hs hne,
    fun _ hp _ _ _ hs => hsound.resize_loss hp hs, ?_, ?_⟩
  · exact fun b hb => (hsound.tidy.valid b hb).le_span
  · exact fun p hp => (hsound.valid p hp).le_span

/-- Of the free block behind the granted blocks of the sample, what a request for 40 bytes leaves
reaches the split floor, and so does what the first granted block loses when it is cut down, and
what is left around it when it moves to grow. -/
theorem waste_sample :
    (∃ asked, Booked sample asked ∧ sample.list.usableSize 4160 <
      roundUp (asked 4160) granularity + sample.list.floor) ∧
    (∃ s' b, sample.perform (.allocate 8 40) = .ok (some 4352, s') ∧
      Remainders sample.list.floor b 4352 (s'.list.usableSize 4352)) ∧
    (∃ s' b, sample.perform (.resize 4160 8 150) = .ok (some 4352, s') ∧
      Remainders sample.list.floor b 4352 (s'.list.usableSize 4352)) ∧
    ∃ s', sample.perform (.resize 4160 8 40) = .ok (some 4160, s') ∧
      (sample.list.usableSize 4160 - s'.list.usableSize 4160 = 0 ∨
        sample.list.floor ≤ sample.list.usableSize 4160 - s'.list.usableSize 4160) := by
  have hlive : 4160 ∈ sample.live := by decide +kernel
  have hanswer : ∀ r a, (sample.perform r).toOption.map Prod.fst = some a →
      sample.perform r = .ok (a, sample.after r) := by
    intro r a ha
    unfold Session.after
    cases hr : sample.perform r with
    | error f => rw [hr] at ha; cases ha
    | ok x => rw [hr] at ha; cases ha; rfl
  have hallocate := hanswer (.allocate 8 40) (some 4352) (by decide +kernel)
  have hmove := hanswer (.resize 4160 8 150) (some 4352) (by decide +kernel)
  have hcut := hanswer (.resize 4160 8 40) (some 4160) (by decide +kernel)
  obtain ⟨⟨asked, hbooked⟩, hfits, bs, -, hgranted, hmoved, hloss, -, -⟩ :=
    Reachable.waste_bounded sample_reachable
  obtain ⟨b, -, hfirst⟩ := hgranted 8 40 4352 _ hallocate
  obtain ⟨c, -, hsecond⟩ := hmoved 4160 hlive 8 150 4352 _ hmove (by decide)
  exact ⟨⟨asked, hbooked, (hfits asked hbooked 4160 hlive).2⟩, ⟨_, b, hallocate, hfirst⟩,
    ⟨_, c, hmove, hsecond⟩, ⟨_, hcut, (hloss 4160 hlive 8 40 _ hcut).2⟩⟩

end Session

end PoolAlloc
