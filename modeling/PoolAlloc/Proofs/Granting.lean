import PoolAlloc.FreeList.Requests
import PoolAlloc.Proofs.Merging
import PoolAlloc.Proofs.Placement
/-!
# PoolAlloc.Proofs.Granting

Granting a request in memory does what `grant` does to the list of free blocks.

The request runs in four steps: the search, the split in front of the payload, the split behind
it, and taking the block in the middle out. Each step gets a lemma that says how the linked list
looks after it; in between, all parts of the block that is cut are linked, so the list is well
linked but not tidy.

Main statement: a request either finds nothing and leaves the free list as it is, or answers the
block that `place?` names and leaves the blocks that `place?` leaves
(`Tidy.allocateAligned_of_some`).
-/

namespace PoolAlloc

open Memory

namespace FreeList

variable {l : FreeList} {bs bs' xs ys : List FreeBlock} {b g : FreeBlock}
  {floor align size slack : Nat}

/-! ### The search -/

/-- The search from a block on looks at the listed blocks, first to last. -/
theorem firstFitFrom_eq {m : Memory} {prev : Option Nat} {b : FreeBlock} {rest : List FreeBlock}
    (h : Linked m prev (b :: rest) none)
    (hrising : (b :: rest).Pairwise fun b c => b.start < c.start) :
    firstFitFrom m floor align size b.start =
      .ok ((b :: rest).findSome? fun c =>
        (fit? floor c.payload c.size align size).map (c.start, ·)) := by
  induction rest generalizing prev b with
  | nil =>
    obtain ⟨-, hnext, hsize, -⟩ := linked_cons.1 h
    rw [firstFitFrom, hsize, following_of_next_eq_none hnext]
    simp only [List.findSome?, FreeBlock.payload]
    cases fit? floor (payload b.start) b.size align size <;> rfl
  | cons c rest ih =>
    obtain ⟨-, hnext, hsize, hrest⟩ := linked_cons.1 h
    obtain ⟨hlt, hrising⟩ := List.pairwise_cons.1 hrising
    rw [firstFitFrom, hsize, following_of_next_eq_some hnext (hlt c List.mem_cons_self),
      List.findSome?_cons]
    simp only [FreeBlock.payload]
    cases hfit : fit? floor (payload b.start) b.size align size with
    | none => exact ih hrest hrising
    | some slack => rfl

/-- The search looks at the free blocks, first to last, and answers the first one that fits. -/
theorem Holds.firstFit_eq (h : l.Holds bs) (halign : IsAlignment align) :
    l.firstFit align size =
      .ok (bs.findSome? fun b =>
        (fit? l.floor b.payload b.size align size).map (b.start, ·)) := by
  have hhead := h.head_eq
  cases bs with
  | nil =>
    rw [firstFit, hhead]
    rfl
  | cons b rest =>
    rw [firstFit, hhead]
    simp only [firstOr_cons, ensure_pos halign, ok_bind]
    exact firstFitFrom_eq h.linked h.rising

/-! ### The two splits -/

theorem floor_le (l : FreeList) : minBlockSpan ≤ l.floor :=
  minBlockSpan_le_splitFloor l.minSplit

/-- Cutting a linked block in two: a header is written inside its payload, its size is set, and
the new block is linked in behind it. -/
theorem Holds.split {r : FreeBlock} {n : Nat} (h : l.Holds (xs ++ b :: ys)) (hn : n < wordLimit)
    (hr : r.start < wordLimit) (hr' : r.size < wordLimit) (hbr : b.start + headerSize ≤ r.start)
    (hry : ∀ y ∈ ys, r.start + headerSize ≤ y.start) :
    ∃ l', ((l.setHeader r.start r.size).setSize b.start n).insertAfter (some b.start) r.start =
        .ok l' ∧
      l'.Holds (xs ++ ⟨b.start, n⟩ :: r :: ys) ∧
      Edit l l' ((xs ++ ⟨b.start, n⟩ :: r :: ys).map FreeBlock.start) := by
  have hhead : 0 < headerSize := by decide
  obtain ⟨-, hby, hxby⟩ := List.pairwise_append.1 h.apart
  have hxr : ∀ x ∈ xs, x.start + headerSize ≤ r.start := by
    intro x hx
    have := hxby x hx b List.mem_cons_self
    omega
  -- The new header lies beside all headers of the list, so writing it moves no link.
  have hbeside : ∀ c ∈ xs ++ b :: ys, ∀ a ∈ [r.start], HeadersApart c.start a := by
    intro c hc a ha
    rw [List.mem_singleton.1 ha]
    rcases List.mem_append.1 hc with hc | hc
    · exact Or.inl (hxr c hc)
    · rcases List.mem_cons.1 hc with rfl | hc
      · exact Or.inl hbr
      · exact Or.inr (hry c hc)
  have h₁ : (l.setHeader r.start r.size).Holds (xs ++ b :: ys) :=
    h.frame rfl (edit_setHeader ..) hbeside
  have h₂ := h₁.setSize hn
  rw [List.append_cons] at h₂
  have hsize : ((l.setHeader r.start r.size).setSize b.start n).mem.size r.start = r.size := by
    refine Eq.trans ((edit_setSize _ b.start n).sameBut.size_eq fun a ha => ?_)
      (size_setHeader _ _ hr')
    rw [List.mem_singleton.1 ha]
    exact Or.inr hbr
  have hbefore : ∀ x ∈ xs ++ [(⟨b.start, n⟩ : FreeBlock)], x.start + headerSize ≤ r.start := by
    intro x hx
    rcases List.mem_append.1 hx with hx | hx
    · exact hxr x hx
    · rw [List.mem_singleton.1 hx]
      exact hbr
  obtain ⟨l', hl', hholds, he⟩ := h₂.insertAfter hsize ⟨by omega, hr⟩ hbefore hry
  rw [lastOr_append_singleton] at hl'
  rw [← List.append_cons] at hholds he
  refine ⟨l', hl', hholds,
    ((edit_setHeader ..).mono ?_).trans (((edit_setSize ..).mono ?_).trans he)⟩
  · intro a ha
    simp [List.mem_singleton.1 ha]
  · intro a ha
    simp [List.mem_singleton.1 ha]

/-- A well linked list in which a block is replaced by valid blocks inside it. -/
theorem WellLinked.replace {l' : FreeList} (mid : List FreeBlock)
    (h : l.WellLinked (xs ++ b :: ys)) (h' : l'.Holds (xs ++ (mid ++ ys))) (hmid : Ordered mid)
    (hin : ∀ c ∈ mid, c.Valid ∧ b.start ≤ c.start ∧ c.stop ≤ b.stop) :
    l'.WellLinked (xs ++ (mid ++ ys)) := by
  refine ⟨h', forall_replace h.valid fun c hc => (hin c hc).1,
    pairwise_replace h.ordered hmid ?_ ?_⟩
  · intro x c hc hx
    exact Nat.le_trans hx (hin c hc).2.1
  · intro y c hc hy
    exact Nat.le_trans (hin c hc).2.2 hy

/-- Splitting off the slack in front of a payload links the lead and the rest in place of the
block. -/
theorem WellLinked.splitLead (h : l.WellLinked (xs ++ b :: ys)) (hcut : Cut b floor size slack) :
    ∃ l', l.splitLead b.start slack = .ok ((b.trim slack).start, l') ∧
      l'.WellLinked (xs ++ (b.lead slack ++ b.trim slack :: ys)) ∧
      Edit l l' ((xs ++ (b.lead slack ++ b.trim slack :: ys)).map FreeBlock.start) := by
  have htrim := hcut.trim_valid
  have hstop := FreeBlock.trim_stop (Nat.le_of_lt hcut.slack_lt)
  have hlt := hcut.slack_lt
  have hblt := hcut.valid.size_lt
  obtain ⟨hlead, -⟩ := hcut.lead_spec
  rcases hcut.slack_eq with rfl | hslack
  · exact ⟨l, rfl, h, Edit.refl ..⟩
  · simp only [minBlockSpan, granularity] at hslack
    have hpos : slack ≠ 0 := by omega
    have hsize : l.mem.size b.start = b.size := (linked_cons.1 h.holds.linked_right).2.2.1
    have hby := (List.pairwise_cons.1 (List.pairwise_append.1 h.ordered).2.1).1
    obtain ⟨l', hl', hholds, he⟩ := h.holds.split (r := b.trim slack) (n := slack - headerSize)
      (by omega) htrim.start_lt htrim.size_lt (by rw [FreeBlock.trim_start]; omega)
      fun y hy => by
        have := hby y hy
        have := (b.trim slack).header_le_stop
        rw [headerSize]
        omega
    rw [FreeBlock.lead_of_pos b hpos] at hlead ⊢
    have hmid := List.forall_mem_singleton.1 hlead
    refine ⟨l', ?_, ?_, he⟩
    · rw [FreeList.splitLead, if_neg hpos, hsize, difference_of_le (by omega), ok_bind,
        difference_of_le (by omega), ok_bind]
      exact congrArg (fun r => r >>= fun l => pure ((b.trim slack).start, l)) hl'
    · refine WellLinked.replace [⟨b.start, slack - headerSize⟩, b.trim slack] h hholds ?_ ?_
      · exact List.pairwise_pair.2 (Nat.le_of_eq hmid.2.2)
      · have := (b.trim slack).header_le_stop
        have := FreeBlock.header_le_stop ⟨b.start, slack - headerSize⟩
        refine List.forall_mem_cons.2 ⟨⟨hmid.1, Nat.le_refl _, by omega⟩, ?_⟩
        refine List.forall_mem_singleton.2 ⟨htrim, ?_, Nat.le_of_eq hstop⟩
        rw [FreeBlock.trim_start]
        omega

/-- Cutting a block down answers the tail and writes its header, if the excess reaches the
floor. -/
theorem splitTail_eq {block whole : Nat} (hwhole : l.mem.size block = whole) (hle : size ≤ whole)
    (hdvd : granularity ∣ size) :
    l.splitTail block size = .ok (if whole - size < l.floor then (none, l)
      else (some (payload block + size),
        (l.setHeader (payload block + size) (whole - size - headerSize)).setSize block size)) := by
  have hfloor : headerSize ≤ l.floor := Nat.le_trans (by decide) (floor_le l)
  simp only [splitTail, hwhole, ensure_pos hle, ensure_pos (Nat.mod_eq_zero_of_dvd hdvd),
    difference_of_le hle, ok_bind]
  split
  · rfl
  · rw [difference_of_le (by omega)]
    rfl

/-- Link the tail that was cut off a block in behind it, if there is one. -/
def linkTail (l : FreeList) (block : Nat) : Option Nat → Except Fault FreeList
  | some tail => l.insertAfter (some block) tail
  | none => .ok l

/-- Cutting a linked block down and linking what remains behind it. -/
theorem WellLinked.splitTail (h : l.WellLinked (xs ++ g :: ys)) (hpos : 0 < size)
    (hle : size ≤ g.size) (hdvd : granularity ∣ size) :
    ∃ tail l₁ l', l.splitTail g.start size = .ok (tail, l₁) ∧ l₁.linkTail g.start tail = .ok l' ∧
      l'.WellLinked (xs ++ g.shrunk l.floor size :: (g.excess l.floor size ++ ys)) ∧
      Edit l l' ((xs ++ g.shrunk l.floor size :: (g.excess l.floor size ++ ys)).map
        FreeBlock.start) := by
  have hg := h.valid g (by simp)
  have hsize : l.mem.size g.start = g.size := (linked_cons.1 h.holds.linked_right).2.2.1
  obtain ⟨hkept, -, -, htail, -⟩ := FreeBlock.shrunk_spec hg hdvd hpos hle (floor_le l)
  rw [splitTail_eq hsize hle hdvd]
  unfold FreeBlock.shrunk FreeBlock.excess at *
  split
  · exact ⟨none, l, l, rfl, rfl, h, Edit.refl ..⟩
  · rename_i hbig
    simp only [if_neg hbig] at hkept htail
    obtain ⟨hvalid, hstart, hstop⟩ := List.forall_mem_singleton.1 htail
    have hby := (List.pairwise_cons.1 (List.pairwise_append.1 h.ordered).2.1).1
    have hkstop : g.start + 24 ≤ (⟨g.start, size⟩ : FreeBlock).stop :=
      FreeBlock.header_le_stop ⟨g.start, size⟩
    have htstop := FreeBlock.header_le_stop ⟨payload g.start + size, g.size - size - headerSize⟩
    obtain ⟨l', hl', hholds, he⟩ := h.holds.split
      (r := ⟨payload g.start + size, g.size - size - headerSize⟩) hkept.size_lt hvalid.start_lt
      hvalid.size_lt (by rw [hstart]; exact hkstop) fun y hy => by
        have := hby y hy
        exact Nat.le_trans htstop (hstop ▸ this)
    refine ⟨_, _, l', rfl, hl', ?_, he⟩
    refine WellLinked.replace
      [⟨g.start, size⟩, ⟨payload g.start + size, g.size - size - headerSize⟩] h hholds ?_ ?_
    · exact List.pairwise_pair.2 (Nat.le_of_eq hstart.symm)
    · refine List.forall_mem_cons.2 ⟨⟨hkept, Nat.le_refl _, by omega⟩, ?_⟩
      refine List.forall_mem_singleton.2 ⟨hvalid, ?_, Nat.le_of_eq hstop⟩
      rw [hstart]
      omega

/-- An operation changed memory at most at addresses with a certain property. -/
structure Within (l l' : FreeList) (S : Nat → Prop) : Prop where
  minSplit_eq : l'.minSplit = l.minSplit
  get_eq : ∀ x, ¬ S x → l'.mem.get x = l.mem.get x

theorem Edit.within {l' : FreeList} {cs : List FreeBlock} {S : Nat → Prop}
    (h : Edit l l' (cs.map FreeBlock.start)) (hcs : ∀ x, Covered cs x → S x) : Within l l' S := by
  refine ⟨h.minSplit_eq, fun x hx => h.sameBut x fun a ha => ?_⟩
  obtain ⟨c, hc, rfl⟩ := List.mem_map.1 ha
  by_contra hin
  have := c.header_le_stop
  exact hx (hcs x ⟨c, hc, by omega, by omega⟩)

theorem Within.mono {l' : FreeList} {S T : Nat → Prop} (h : Within l l' S) (hST : ∀ x, S x → T x) :
    Within l l' T :=
  ⟨h.minSplit_eq, fun x hx => h.get_eq x fun hS => hx (hST x hS)⟩

theorem Within.trans {l' l'' : FreeList} {S : Nat → Prop} (h : Within l l' S)
    (h' : Within l' l'' S) : Within l l'' S :=
  ⟨h'.minSplit_eq.trans h.minSplit_eq, fun x hx => (h'.get_eq x hx).trans (h.get_eq x hx)⟩

/-- A copy changes memory at its destination. -/
theorem within_copy (l : FreeList) (src dst n : Nat) :
    Within l { l with mem := l.mem.copy src dst n } fun x => dst ≤ x ∧ x < dst + n :=
  ⟨rfl, fun x hx => by rw [get_copy, if_neg hx]⟩

/-- A write changes memory at its address. -/
theorem within_set (l : FreeList) (addr : Nat) (byte : UInt8) :
    Within l { l with mem := l.mem.set addr byte } fun x => x = addr :=
  ⟨rfl, fun x hx => by rw [get_set, if_neg hx]⟩

/-! ### Carving the block out -/

/-- What the splits and the removal leave of a block, step by step: the parts of the block are
linked in its place, and the one in the middle is taken out again. -/
theorem WellLinked.carve (h : l.WellLinked (xs ++ b :: ys)) (hcut : Cut b l.floor size slack) :
    let g := (b.trim slack).shrunk l.floor size
    ∃ (l₁ : FreeList) (tail : Option Nat) (l₂ l₃ l' : FreeList),
      l.splitLead b.start slack = .ok (g.start, l₁) ∧
      l₁.splitTail g.start size = .ok (tail, l₂) ∧
      l₂.linkTail g.start tail = .ok l₃ ∧
      l₃.remove g.start = .ok l' ∧
      l'.Holds (xs ++ (b.lead slack ++ (b.trim slack).excess l.floor size ++ ys)) ∧
      l'.mem.size g.start = g.size ∧ Within l l' (Covered (xs ++ b :: ys)) := by
  intro g
  have hstart : g.start = (b.trim slack).start := FreeBlock.shrunk_start ..
  have htile := hcut.shrunk_spec.2.2.2.2
  obtain ⟨l₁, hl₁, hlinked₁, he₁⟩ := h.splitLead hcut
  rw [← List.append_assoc] at hlinked₁
  have hfloor : l₁.floor = l.floor := congrArg splitFloor he₁.minSplit_eq
  obtain ⟨tail, l₂, l₃, hl₂, hl₃, hlinked₃, he₃⟩ :=
    hlinked₁.splitTail hcut.size_pos hcut.size_le hcut.dvd_size
  rw [hfloor] at hlinked₃ he₃
  obtain ⟨l', hl', hholds, he⟩ := hlinked₃.holds.remove
  rw [← hstart] at hl₁ hl₂ hl₃
  -- Every list on the way covers addresses of the block and of its neighbours only.
  have hcovered : ∀ x, Covered ((xs ++ b.lead slack) ++ g :: ((b.trim slack).excess l.floor size ++
      ys)) x → Covered (xs ++ b :: ys) x := by
    intro x
    simp only [covered_append, covered_cons, hcut.lead_spec.2 x, htile x, g]
    tauto
  refine ⟨l₁, tail, l₂, l₃, l', hl₁, hl₂, hl₃, hl', ?_, ?_, ?_⟩
  · rwa [List.append_assoc, ← List.append_assoc (b.lead slack)] at hholds
  · refine (he.sameBut.size_eq fun a ha => ?_).trans
      (linked_cons.1 hlinked₃.holds.linked_right).2.2.1
    obtain ⟨c, hc, rfl⟩ := List.mem_map.1 ha
    exact hlinked₃.holds.headersApart hc
  · refine (he₁.within fun x => ?_).trans ((he₃.within hcovered).trans (he.within fun x hx => ?_))
    · simp only [covered_append, covered_cons, hcut.lead_spec.2 x]
      tauto
    · refine hcovered x ?_
      rw [covered_append] at hx ⊢
      exact hx.imp_right fun hx => covered_cons.2 (Or.inr hx)

/-! ### The request -/

/-- The block that a request is granted and the free blocks that remain, if the request makes
sense and some block fits. -/
def place? (floor align size : Nat) (bs : List FreeBlock) : Option (FreeBlock × List FreeBlock) :=
  if size = 0 ∨ ¬ IsAlignment align then
    none
  else
    (roundUp? size granularity).bind fun size => grant floor (max align granularity) size bs

theorem place?_eq_some (h : place? floor align size bs = some (g, bs')) :
    size ≠ 0 ∧ IsAlignment align ∧ roundUp? size granularity = some (roundUp size granularity) ∧
      grant floor (max align granularity) (roundUp size granularity) bs = some (g, bs') := by
  unfold place? at h
  split at h
  · simp at h
  · rename_i hvalid
    obtain ⟨n, hn, h⟩ := Option.bind_eq_some_iff.1 h
    obtain ⟨hfits, rfl⟩ := roundUp?_eq_some.1 hn
    exact ⟨fun h₀ => hvalid (Or.inl h₀), not_not.1 fun h₁ => hvalid (Or.inr h₁), hn, h⟩

/-- A request gets a block that is large enough and starts its payload at the alignment, cut out of
the free blocks. -/
theorem place?_spec (hvalid : ∀ b ∈ bs, b.Valid) (hspaced : Spaced bs)
    (hfloor : minBlockSpan ≤ floor) (h : place? floor align size bs = some (g, bs')) :
    CutOut bs g bs' ∧ roundUp size granularity ≤ g.size ∧ align ∣ g.payload := by
  obtain ⟨hsize, halign, hround, hgrant⟩ := place?_eq_some h
  obtain ⟨hdvd, hpos, -⟩ := units_of_roundUp? hround hsize
  obtain ⟨hcut, hlarge, hdvd⟩ := grant_spec hvalid hspaced (granularity_dvd_max halign)
    (max_granularity_pos align) hdvd hpos hfloor hgrant
  exact ⟨hcut, hlarge, Nat.dvd_trans (dvd_max_granularity halign) hdvd⟩

/-- A request is granted no less than it asks for. -/
theorem Tidy.le_of_place? (h : l.Tidy bs) (hplace : place? l.floor align size bs = some (g, bs')) :
    size ≤ g.size := by
  obtain ⟨-, hlarge, -⟩ := place?_spec h.valid h.spaced (floor_le l) hplace
  exact Nat.le_trans (le_roundUp_granularity size) hlarge

/-- A request that no free block fits is refused, and the free list stays as it is. -/
theorem Tidy.allocateAligned_of_none (h : l.Tidy bs)
    (hplace : place? l.floor align size bs = none) :
    l.allocateAligned align size = .ok (none, l) := by
  unfold place? at hplace
  rw [allocateAligned]
  split at hplace
  · rename_i hbad
    rw [if_pos hbad]
    rfl
  · rename_i hgood
    rw [if_neg hgood]
    cases hround : roundUp? size granularity with
    | none => rfl
    | some n =>
      rw [hround, Option.bind_some] at hplace
      have halign := isAlignment_max (not_not.1 fun hna => hgood (Or.inr hna))
      have hnone : (bs.findSome? fun b =>
          (fit? l.floor b.payload b.size (max align granularity) n).map (b.start, ·)) = none := by
        refine List.findSome?_eq_none_iff.2 fun b hb => ?_
        rw [grant_eq_none hplace b hb]
        rfl
      simp only [h.holds.firstFit_eq halign, hnone, ok_bind]
      rfl

/-- The block `g` was taken out of the free blocks `bs`, and `bs'` are left. -/
structure Takes (l : FreeList) (bs : List FreeBlock) (g : FreeBlock) (l' : FreeList)
    (bs' : List FreeBlock) : Prop where
  cut : CutOut bs g bs'
  tidy : l'.Tidy bs'
  size_eq : l'.mem.size g.start = g.size
  within : Within l l' (Covered bs)

/-- A request that a free block fits is granted the block cut out of it. -/
theorem Tidy.allocateAligned_of_some (h : l.Tidy bs)
    (hplace : place? l.floor align size bs = some (g, bs')) :
    ∃ l', l.allocateAligned align size = .ok (some g.payload, l') ∧ l.Takes bs g l' bs' := by
  have hfloor := floor_le l
  obtain ⟨hcutout, -, -⟩ := place?_spec h.valid h.spaced hfloor hplace
  obtain ⟨hsize, halign, hround, hgrant⟩ := place?_eq_some hplace
  obtain ⟨hunits, hpos, -⟩ := units_of_roundUp? hround hsize
  obtain ⟨xs, b, ys, slack, rfl, hxs, hfit, rfl, rfl⟩ := grant_eq_some hgrant
  obtain ⟨hcut, hdvd⟩ := cut_of_fit (h.valid b (by simp)) (granularity_dvd_max halign)
    (max_granularity_pos align) hunits hpos hfloor hfit
  obtain ⟨l₁, tail, l₂, l₃, l', hl₁, hl₂, hl₃, hl', hholds, hsize', hwithin⟩ :=
    h.wellLinked.carve hcut
  refine ⟨l', ?_, hcutout, ⟨hholds, hcutout.rest_valid, hcutout.spaced⟩, hsize', hwithin⟩
  have hfirst : l.firstFit (max align granularity) (roundUp size granularity) =
      .ok (some (b.start, slack)) := by
    rw [h.holds.firstFit_eq (isAlignment_max halign)]
    refine congrArg Except.ok (List.findSome?_eq_some_iff.2 ⟨xs, b, ys, rfl, ?_, fun x hx => ?_⟩)
    · rw [hfit]
      rfl
    · rw [hxs x hx]
      rfl
  have haligned : payload ((b.trim slack).shrunk l.floor (roundUp size granularity)).start %
      max align granularity = 0 := by
    refine Nat.mod_eq_zero_of_dvd ?_
    rw [FreeBlock.shrunk_start, FreeBlock.trim_start]
    rwa [FreeBlock.payload_eq, Nat.add_right_comm] at hdvd
  rw [allocateAligned, if_neg (not_or.2 ⟨hsize, not_not.2 halign⟩)]
  simp only [hround, hfirst, ok_bind, hl₁, hl₂]
  cases tail with
  | none =>
    obtain rfl := Except.ok.inj hl₃
    simp only [pure_bind, hl', ok_bind, ensure_pos haligned]
    rfl
  | some tail =>
    rw [linkTail] at hl₃
    simp only [hl₃, hl', ok_bind, ensure_pos haligned]
    rfl

end FreeList

end PoolAlloc
