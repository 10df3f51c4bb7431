import PoolAlloc.Proofs.Totals
/-!
# PoolAlloc.Proofs.Registration

What becomes of a region that a free list takes in.

Design points:

* **Up to the last word.** The size that is answered is the largest for which there is room behind
  a header (`Region.isGreatest_of_regionSize?`); a region is refused only where there is room for
  no size at all (`Region.sizes_eq_empty`).
* **Merged on both sides.** The block that the region is turned into joins the free blocks, and
  with it the block that ends where it begins and the block that begins where it ends, should
  there be such (`Joins`). It makes no difference which pool these lie in. That the list does not
  come out otherwise follows from what it covers, since its blocks have gaps between them.
* **Written are headers only**, that of the new block and those of the free blocks.

Main statement: `Session.Reachable.registers`.
-/

namespace PoolAlloc

open FreeList

/-! ### The size of a region -/

/-- Rounding down finds the largest multiple. -/
theorem le_roundDown {m n align : Nat} (hm : align ∣ m) (hn : m ≤ n) : m ≤ roundDown n align := by
  obtain ⟨k, rfl⟩ := hm
  rcases Nat.eq_zero_or_pos align with rfl | hpos
  · simp
  · have hk : k ≤ n / align := (Nat.le_div_iff_mul_le hpos).2 (Nat.mul_comm align k ▸ hn)
    exact Nat.mul_comm align k ▸ Nat.mul_le_mul_right align hk

namespace Region

variable {r : Region}

/-- The usable sizes that a region has room for: in whole units, behind a header at the first
address that is in whole units itself. -/
def sizes (r : Region) : Set Nat :=
  { size | granularity ∣ size ∧ granularity ≤ size ∧
    roundUp r.start granularity + headerSize + size ≤ r.start + r.len }

/-- A region is used up to its last word. -/
theorem isGreatest_of_regionSize? {size : Nat} (h : regionSize? r.start r.len = some size) :
    IsGreatest r.sizes size := by
  obtain ⟨-, hle, hpos, rfl⟩ := regionSize?_eq_some.1 h
  set room := r.len - (roundUp r.start granularity - r.start) - headerSize
  have hup := le_roundUp_granularity r.start
  have hdvd := dvd_roundDown room granularity
  have hdown := roundDown_le room granularity
  refine ⟨⟨hdvd, Nat.le_of_dvd (Nat.pos_of_ne_zero hpos) hdvd, by omega⟩, ?_⟩
  rintro other ⟨hother, -, hfits⟩
  exact le_roundDown hother (by omega)

/-- A region is refused only if it has room for no size. -/
theorem sizes_eq_empty (hend : r.start + r.len < wordLimit)
    (h : regionSize? r.start r.len = none) : r.sizes = ∅ := by
  refine Set.eq_empty_of_forall_notMem ?_
  rintro size ⟨hdvd, hunit, hfits⟩
  have hup := le_roundUp_granularity r.start
  have hlarge := le_roundDown hdvd
    (show size ≤ r.len - (roundUp r.start granularity - r.start) - headerSize by omega)
  have hpos : 0 < granularity := by decide
  have hword : granularity - 1 ≤ headerSize := by decide
  have hsome : regionSize? r.start r.len = some _ :=
    regionSize?_eq_some.2 ⟨by omega, by omega, by omega, rfl⟩
  exact Option.some_ne_none _ (hsome.symm.trans h)

-- A header and one word from the next multiple of eight on: a byte less is refused.
example : regionSize? 4097 39 = some 8 ∧ regionSize? 4097 38 = none := by decide

end Region

/-! ### Joining the neighbours -/

variable {b : FreeBlock} {bs bs' : List FreeBlock} {front back : Option FreeBlock}

/-- A block enlarged by the one in front of it and the one behind it, where there are such. -/
def FreeBlock.extend (b : FreeBlock) (front back : Option FreeBlock) : FreeBlock :=
  let extended := front.elim b (·.join b)
  back.elim extended extended.join

/-- The block `b` joins the free blocks. `front` ends where it begins and `back` begins where it
ends; all others lie at a distance and stay as they are. -/
inductive Joins (b : FreeBlock) : List FreeBlock → List FreeBlock → Prop
  | intro (xs ys : List FreeBlock) (front back : Option FreeBlock)
      (hxs : ∀ x ∈ xs, x.stop < b.start) (hfront : ∀ c ∈ front, c.stop = b.start)
      (hback : ∀ c ∈ back, b.stop = c.start) (hys : ∀ y ∈ ys, b.stop < y.start) :
      Joins b (xs ++ (front.toList ++ (back.toList ++ ys))) (xs ++ b.extend front back :: ys)

/-- The block in front does not move the end. -/
theorem FreeBlock.extend_front_stop (hfront : ∀ c ∈ front, c.stop = b.start) :
    (b.extend front none).stop = b.stop := by
  cases front with
  | none => rfl
  | some c => exact join_stop c b (hfront c rfl)

theorem FreeBlock.extend_start (b : FreeBlock) (front back : Option FreeBlock) :
    (b.extend front back).start = front.elim b.start start := by
  cases front <;> cases back <;> rfl

theorem FreeBlock.extend_stop (hfront : ∀ c ∈ front, c.stop = b.start)
    (hback : ∀ c ∈ back, b.stop = c.start) :
    (b.extend front back).stop = back.elim b.stop stop := by
  have hstop := extend_front_stop hfront
  cases back with
  | none => exact hstop
  | some c => exact join_stop _ c (hstop.trans (hback c rfl))

/-- An enlarged block covers what its parts cover. -/
theorem FreeBlock.mem_extend (hfront : ∀ c ∈ front, c.stop = b.start)
    (hback : ∀ c ∈ back, b.stop = c.start) {x : Nat} :
    x ∈ b.extend front back ↔ x ∈ b ∨ Covered front.toList x ∨ Covered back.toList x := by
  have hextended : x ∈ b.extend front none ↔ x ∈ b ∨ Covered front.toList x := by
    cases front with
    | none => simp [extend]
    | some c =>
      have hjoin : x ∈ c.join b ↔ x ∈ c ∨ x ∈ b := mem_join (hfront c rfl)
      simpa [extend, or_comm] using hjoin
  have hstop := extend_front_stop hfront
  cases back with
  | none => simpa using hextended
  | some c =>
    have hjoin : x ∈ b.extend front (some c) ↔ x ∈ b.extend front none ∨ x ∈ c :=
      mem_join (hstop.trans (hback c rfl))
    rw [hjoin, hextended, or_assoc]
    simp

/-- The last of the blocks in front of `b` touches it, or none does. -/
theorem Spaced.exists_front {xs : List FreeBlock} (h : Spaced xs)
    (hxs : ∀ x ∈ xs, x.stop ≤ b.start) :
    ∃ xs' front, xs = xs' ++ Option.toList front ∧ (∀ x ∈ xs', x.stop < b.start) ∧
      ∀ c ∈ front, c.stop = b.start := by
  rcases List.eq_nil_or_concat xs with rfl | ⟨xs', c, rfl⟩
  · exact ⟨[], none, rfl, List.forall_mem_nil _, nofun⟩
  · obtain ⟨-, -, hgap⟩ := List.pairwise_append.1 (List.concat_eq_append ▸ h)
    have hc := hxs c (by simp)
    have hheader := c.header_le_stop
    have hbefore : ∀ x ∈ xs', x.stop < b.start := fun x hx => by
      have := hgap x hx c List.mem_cons_self
      omega
    rcases Nat.lt_or_eq_of_le hc with hlt | heq
    · refine ⟨xs'.concat c, none, by simp, fun x hx => ?_, nofun⟩
      rw [List.concat_eq_append] at hx
      rcases List.mem_append.1 hx with hx | hx
      · exact hbefore x hx
      · exact List.mem_singleton.1 hx ▸ hlt
    · refine ⟨xs', some c, List.concat_eq_append, hbefore, fun d hd => ?_⟩
      exact Option.mem_some.1 hd ▸ heq

/-- The first of the blocks behind `b` touches it, or none does. -/
theorem Spaced.exists_back {ys : List FreeBlock} (h : Spaced ys)
    (hys : ∀ y ∈ ys, b.stop ≤ y.start) :
    ∃ ys' back, ys = Option.toList back ++ ys' ∧ (∀ y ∈ ys', b.stop < y.start) ∧
      ∀ c ∈ back, b.stop = c.start := by
  cases ys with
  | nil => exact ⟨[], none, rfl, List.forall_mem_nil _, nofun⟩
  | cons c ys' =>
    obtain ⟨hgap, -⟩ := List.pairwise_cons.1 h
    have hc := hys c List.mem_cons_self
    have hheader := c.header_le_stop
    have hbehind : ∀ y ∈ ys', b.stop < y.start := fun y hy => by
      have := hgap y hy
      omega
    rcases Nat.lt_or_eq_of_le hc with hlt | heq
    · exact ⟨c :: ys', none, rfl, List.forall_mem_cons.2 ⟨hlt, hbehind⟩, nofun⟩
    · refine ⟨ys', some c, rfl, hbehind, fun d hd => ?_⟩
      exact Option.mem_some.1 hd ▸ heq

/-- Blocks with gaps between them that cover `b` in addition are those that `b` joined. -/
theorem Spaced.joins (h : Spaced bs) (h' : Spaced bs') (hap : ∀ c ∈ bs, b.Apart c)
    (hcovered : ∀ x, Covered bs' x ↔ x ∈ b ∨ Covered bs x) : Joins b bs bs' := by
  obtain ⟨us, vs, rfl, hus, hvs⟩ := h.ordered.exists_split hap
  obtain ⟨hfirst, hlast, -⟩ := List.pairwise_append.1 h
  obtain ⟨xs, front, rfl, hxs, hfront⟩ := Spaced.exists_front hfirst hus
  obtain ⟨ys, back, rfl, hys, hback⟩ := Spaced.exists_back hlast hvs
  rw [List.append_assoc] at h ⊢
  obtain ⟨-, hrest, hgap⟩ := List.pairwise_append.1 h
  -- The enlarged block keeps its distance, since its neighbours kept theirs.
  have hbefore : ∀ x ∈ xs, x.stop < (b.extend front back).start := fun x hx => by
    rw [FreeBlock.extend_start]
    cases front with
    | none => exact hxs x hx
    | some c => exact hgap x hx c (by simp)
  have hbehind : ∀ y ∈ ys, (b.extend front back).stop < y.start := fun y hy => by
    rw [FreeBlock.extend_stop hfront hback]
    cases back with
    | none => exact hys y hy
    | some c => exact (List.pairwise_cons.1 (List.pairwise_append.1 hrest).2.1).1 y hy
  have hothers : List.Sublist (xs ++ ys) (xs ++ (front.toList ++ (back.toList ++ ys))) :=
    (List.append_sublist_append_left xs).2
      ((List.sublist_append_right ..).trans (List.sublist_append_right ..))
  have hspaced : Spaced (xs ++ b.extend front back :: ys) :=
    pairwise_insert (h.sublist hothers) hbefore hbehind
  have heq : bs' = xs ++ b.extend front back :: ys := h'.eq_of_covered hspaced fun x => by
    rw [hcovered]
    simp only [covered_append, covered_cons, FreeBlock.mem_extend hfront hback]
    tauto
  exact heq ▸ .intro xs ys front back hxs hfront hback hys

/-! ### Taking a region in -/

/-- The region `r` was taken in with `size` usable bytes: the list held the blocks `bs`, and holds
`bs'` now. -/
structure Registered (l : FreeList) (bs : List FreeBlock) (r : Region) (size : Nat) (l' : FreeList)
    (bs' : List FreeBlock) : Prop where
  blocks : l'.blocks = .ok bs'
  /-- The region was joined to the free blocks. -/
  joins : Joins ⟨roundUp r.start granularity, size⟩ bs bs'
  /-- With a header for every free block, the totals have grown by the block and its header. -/
  totals : ∃ totals totals', l.summary = .ok totals ∧ l'.summary = .ok totals' ∧
    totals'.bytes + headerSize * totals'.count =
      totals.bytes + headerSize * totals.count + (size + headerSize)
  /-- No byte was written outside the region but in headers of free blocks. -/
  frame : ∀ x, x ∉ r → (∀ b ∈ bs, x < b.start ∨ b.start + headerSize ≤ x) →
    l'.mem.get x = l.mem.get x

namespace Session

variable {s : Session} {r : Region} {size : Nat}

theorem Sound.registered (h : s.Sound bs) (hr : (Request.addRegion r).Allowed s)
    (hsize : regionSize? r.start r.len = some size) :
    ∃ l' bs', s.list.addRegion r.start r.len = .ok (some size, l') ∧
      Registered s.list bs r size l' bs' := by
  set b : FreeBlock := ⟨roundUp r.start granularity, size⟩ with hb
  have hpool : r.pool? = some b := by
    rw [Region.pool?, hsize]
    rfl
  obtain ⟨hvalid, -⟩ := h.pool_fresh hr hpool
  have hap := h.pool_apart hr hpool
  obtain ⟨l', bs', hl', hg, he⟩ := h.tidy.addRegion hpool hvalid hap
  refine ⟨l', bs', hl', hg.tidy.holds.blocks_eq,
    h.tidy.spaced.joins hg.tidy.spaced hap hg.covered, ?_, fun x hx hheaders => ?_⟩
  · refine ⟨_, _, h.summary_eq, hg.tidy.wellLinked.summary_eq, ?_⟩
    have hspan : totalSpan bs' = size + headerSize + totalSpan bs := by
      rw [totalSpan_of_tile hg.tidy.spaced.ordered h.tidy.spaced.ordered hap hg.covered,
        FreeBlock.span, Nat.add_comm headerSize]
    rw [totalSpan_eq, totalSpan_eq] at hspan
    simp only [Summary.ofBlocks]
    omega
  · -- The header of the new block lies in the region.
    obtain ⟨hstart, hend, -⟩ := hr
    obtain ⟨-, hinside⟩ := Region.pool?_spec hstart hend hpool
    have hheader := b.header_le_stop
    have hown : x < b.start ∨ b.start + headerSize ≤ x := by
      by_contra hin
      rw [headerSize] at hin
      exact hx (hinside x ⟨by omega, by omega⟩)
    exact he.sameBut x (List.forall_mem_map.2 (List.forall_mem_cons.2 ⟨hown, hheaders⟩))

/-- In every reachable session, a region that the contract allows is taken in up to its last word,
and is refused exactly where it has room for no block. -/
theorem Reachable.registers (h : Reachable s) (hr : (Request.addRegion r).Allowed s) :
    ∃ bs answer l', s.list.blocks = .ok bs ∧
      s.list.addRegion r.start r.len = .ok (answer, l') ∧
      (answer = none ↔ r.sizes = ∅) ∧ (answer = none → l' = s.list) ∧
      ∀ size, answer = some size →
        IsGreatest r.sizes size ∧ ∃ bs', Registered s.list bs r size l' bs' := by
  obtain ⟨bs, hsound⟩ := h.sound
  have hblocks := hsound.tidy.holds.blocks_eq
  cases hsize : regionSize? r.start r.len with
  | none =>
    have hpool : r.pool? = none := by
      rw [Region.pool?, hsize]
      rfl
    have hempty := Region.sizes_eq_empty hr.2.1 hsize
    exact ⟨bs, none, s.list, hblocks, addRegion_of_none hpool, iff_of_true rfl hempty,
      fun _ => rfl, nofun⟩
  | some size =>
    obtain ⟨l', bs', hl', hregistered⟩ := hsound.registered hr hsize
    have hgreatest := Region.isGreatest_of_regionSize? hsize
    refine ⟨bs, some size, l', hblocks, hl', iff_of_false nofun ?_, nofun, ?_⟩
    · exact Set.Nonempty.ne_empty ⟨size, hgreatest.1⟩
    · intro other hother
      obtain rfl := Option.some.inj hother
      exact ⟨hgreatest, bs', hregistered⟩

/-- A region between a free block of the sample and a pool behind it is joined to both. -/
theorem registers_sample :
    ∃ l', (sample.after (.addRegion ⟨4864, 256⟩)).list.addRegion 4608 256 = .ok (some 232, l') ∧
      IsGreatest (Region.sizes ⟨4608, 256⟩) 232 ∧
      Registered (sample.after (.addRegion ⟨4864, 256⟩)).list
        [⟨4096, 16⟩, ⟨4328, 256⟩, ⟨4864, 232⟩] ⟨4608, 256⟩ 232 l' [⟨4096, 16⟩, ⟨4328, 768⟩] := by
  have hregions : sample.regions = [⟨4352, 256⟩, ⟨4096, 256⟩] := by decide +kernel
  have hregions' : (sample.after (.addRegion ⟨4864, 256⟩)).regions =
      [⟨4864, 256⟩, ⟨4352, 256⟩, ⟨4096, 256⟩] := by
    decide +kernel
  have hbehind : (Request.addRegion ⟨4864, 256⟩).Allowed sample := by
    refine ⟨by decide, by decide, ?_⟩
    rw [hregions]
    exact List.forall_mem_cons.2 ⟨(Region.disjoint_of_le (by decide)).symm,
      List.forall_mem_singleton.2 (Region.disjoint_of_le (by decide)).symm⟩
  have hallowed : (Request.addRegion ⟨4608, 256⟩).Allowed
      (sample.after (.addRegion ⟨4864, 256⟩)) := by
    refine ⟨by decide, by decide, ?_⟩
    rw [hregions']
    exact List.forall_mem_cons.2 ⟨Region.disjoint_of_le (by decide),
      List.forall_mem_cons.2 ⟨(Region.disjoint_of_le (by decide)).symm,
        List.forall_mem_singleton.2 (Region.disjoint_of_le (by decide)).symm⟩⟩
  obtain ⟨bs, answer, l', hbs, hl', -, -, hregistered⟩ :=
    Reachable.registers (sample_reachable.after hbehind) hallowed
  have hblocks : (sample.after (.addRegion ⟨4864, 256⟩)).list.blocks.toOption =
      some [⟨4096, 16⟩, ⟨4328, 256⟩, ⟨4864, 232⟩] := by
    decide +kernel
  have hanswer : ((sample.after (.addRegion ⟨4864, 256⟩)).list.addRegion 4608 256).toOption.map
      (fun done => (done.1, done.2.blocks.toOption)) =
        some (some 232, some [⟨4096, 16⟩, ⟨4328, 768⟩]) := by
    decide +kernel
  rw [hbs] at hblocks
  obtain rfl := Option.some.inj hblocks
  rw [hl'] at hanswer
  obtain ⟨rfl, hblocks'⟩ := Prod.mk.inj (Option.some.inj hanswer)
  obtain ⟨hgreatest, bs', h'⟩ := hregistered 232 rfl
  dsimp only at hblocks'
  rw [h'.blocks] at hblocks'
  obtain rfl := Option.some.inj hblocks'
  exact ⟨l', hl', hgreatest, h'⟩

end Session

end PoolAlloc
