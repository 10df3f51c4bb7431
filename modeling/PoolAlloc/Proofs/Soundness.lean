import PoolAlloc.Proofs.Session
/-!
# PoolAlloc.Proofs.Soundness

The invariant of a session under the contract.

`Session.Sound s bs` says that the list holds the free blocks `bs`, tidily, and that these and the
granted blocks tile the pools. Every change of a session is one of five: a block is taken out of
the list (`Sound.take`), a granted block is given back (`Sound.give`), a pool is added
(`Sound.addPool`), a granted block is cut down (`Sound.cutDown`), or bytes change that are the
client's (`Sound.poke`). Each keeps the invariant, and the requests are made of them.

Main statements: an allowed request of a sound session finds no fault and has the effect that
`Effect` describes (`Sound.perform`), and leaves a sound session (`Effect.sound`); so every
reachable session is sound (`Reachable.sound`).
-/

namespace PoolAlloc

open Memory FreeList

/-! ### Granted blocks and their headers -/

namespace FreeList

variable {l l' : FreeList} {p x : Nat}

@[simp] theorem block_start (l : FreeList) (p : Nat) : (l.block p).start = headerOf p := rfl

@[simp] theorem block_size (l : FreeList) (p : Nat) : (l.block p).size = l.usableSize p := rfl

/-- A block that is valid starts its payload at the address it is known by. -/
theorem block_payload (h : (l.block p).Valid) : (l.block p).payload = p := by
  have := h.start_pos
  simp only [block_start, headerOf, headerSize] at this
  rw [FreeBlock.payload, block_start, payload_headerOf]
  simp only [headerSize]
  omega

theorem block_stop (h : (l.block p).Valid) : (l.block p).stop = p + l.usableSize p := by
  have := block_payload h
  rw [FreeBlock.payload_eq] at this
  rw [FreeBlock.stop_eq, this, block_size]

/-- The block at a payload address that was just granted. -/
theorem block_eq_of_size {g : FreeBlock} (h : l.mem.size g.start = g.size) :
    l.block g.payload = g := by
  rw [block, usableSize, FreeBlock.payload, headerOf_payload, h]

/-- A granted block is described by the bytes of its header. -/
theorem block_congr
    (h : ∀ x, headerOf p ≤ x → x < headerOf p + 24 → l'.mem.get x = l.mem.get x) :
    l'.block p = l.block p := by
  rw [block, block, usableSize, usableSize, size_congr h]

/-- A granted block is not disturbed by a change elsewhere. -/
theorem Within.block_eq {S : Nat → Prop} (h : Within l l' S) (hS : ∀ x ∈ l.block p, ¬ S x) :
    l'.block p = l.block p := by
  have := (l.block p).header_le_stop
  refine block_congr fun x h₁ h₂ => h.get_eq x (hS x ⟨h₁, ?_⟩)
  rw [block_start] at this
  omega

end FreeList

namespace Session

/-! ### The invariant -/

/-- The free blocks `bs` and the granted blocks tile the pools. -/
structure Sound (s : Session) (bs : List FreeBlock) : Prop where
  tidy : s.list.Tidy bs
  valid : ∀ p ∈ s.live, (s.list.block p).Valid
  /-- Granted blocks do not overlap. -/
  disjoint : ∀ p ∈ s.live, ∀ q ∈ s.live, ∀ x ∈ s.list.block p, x ∈ s.list.block q → p = q
  /-- What is granted is not free. -/
  notFree : ∀ p ∈ s.live, ∀ x ∈ s.list.block p, ¬ Covered bs x
  tile : ∀ x, Covered s.pools x ↔ Covered bs x ∨ s.Granted x
  placed : ∀ r ∈ s.regions, r.start ≠ 0 ∧ r.start + r.len < wordLimit
  apart : s.regions.Pairwise Region.Disjoint

variable {s s' : Session} {bs bs' : List FreeBlock} {b g : FreeBlock} {l' : FreeList} {p x : Nat}

theorem sound_start (minSplit : Nat) (mem : Memory) : (start minSplit mem).Sound [] where
  tidy := ⟨holds_nil.2 rfl, by simp, List.Pairwise.nil⟩
  valid := by simp [start]
  disjoint := by simp [start]
  notFree := by simp [start]
  tile := by simp [start, pools, Granted]
  placed := by simp [start]
  apart := List.Pairwise.nil

theorem Sound.apart_free (h : s.Sound bs) (hp : p ∈ s.live) : ∀ c ∈ bs, (s.list.block p).Apart c :=
  fun c hc => FreeBlock.apart_iff.2 fun x hx hxc => h.notFree p hp x hx ⟨c, hc, hxc⟩

theorem Sound.apart_live {q : Nat} (h : s.Sound bs) (hp : p ∈ s.live) (hq : q ∈ s.live)
    (hne : p ≠ q) : (s.list.block p).Apart (s.list.block q) :=
  FreeBlock.apart_iff.2 fun x hx hxq => hne (h.disjoint p hp q hq x hx hxq)

theorem Sound.mem_block_iff (h : s.Sound bs) (hp : p ∈ s.live) :
    x ∈ s.list.block p ↔ headerOf p ≤ x ∧ x < p + s.list.usableSize p := by
  rw [FreeBlock.mem_iff, block_stop (h.valid p hp), block_start]

/-- The payload of a granted block ends below the end of the address space. -/
theorem Sound.payload_stop_lt (h : s.Sound bs) (hp : p ∈ s.live) :
    p + s.list.usableSize p < wordLimit :=
  block_stop (h.valid p hp) ▸ (h.valid p hp).stop_lt

/-- The header of a granted block lies right in front of its payload. -/
theorem Sound.headerOf_add (h : s.Sound bs) (hp : p ∈ s.live) : headerOf p + 24 = p := by
  have := block_payload (h.valid p hp)
  rwa [FreeBlock.payload_eq, block_start] at this

/-- Payloads with an address in common are the same. -/
theorem Sound.payload_inj {q : Nat} (h : s.Sound bs) (hp : p ∈ s.live) (hq : q ∈ s.live)
    (h₁ : p ≤ x) (h₂ : x < p + s.list.usableSize p) (h₃ : q ≤ x)
    (h₄ : x < q + s.list.usableSize q) : p = q := by
  have := h.headerOf_add hp
  have := h.headerOf_add hq
  exact h.disjoint p hp q hq x ((h.mem_block_iff hp).2 ⟨by omega, h₂⟩)
    ((h.mem_block_iff hq).2 ⟨by omega, h₄⟩)

/-- An address in a pool lies in the region of the pool. -/
theorem Sound.mem_region (h : s.Sound bs) (hx : Covered s.pools x) : ∃ r ∈ s.regions, x ∈ r := by
  obtain ⟨b, hb, hxb⟩ := hx
  obtain ⟨r, hr, hpool⟩ := List.mem_filterMap.1 hb
  obtain ⟨hstart, hend⟩ := h.placed r hr
  exact ⟨r, hr, (Region.pool?_spec hstart hend hpool).2 x hxb⟩

/-- What the client may write is neither free nor the header of a granted block. -/
theorem Sound.not_client (h : s.Sound bs) :
    (Covered bs x → ¬ s.Client x) ∧
      ∀ p ∈ s.live, headerOf p ≤ x → x < headerOf p + 24 → ¬ s.Client x := by
  refine ⟨fun hx hc => ?_, fun p hp h₁ h₂ hc => ?_⟩
  · rcases hc with ⟨q, hq, hge, hlt⟩ | hout
    · have := h.headerOf_add hq
      exact h.notFree q hq x ((h.mem_block_iff hq).2 ⟨by omega, hlt⟩) hx
    · exact hout ((h.tile x).2 (Or.inl hx))
  · have hadd := h.headerOf_add hp
    have hmem : x ∈ s.list.block p := (h.mem_block_iff hp).2 ⟨h₁, by omega⟩
    rcases hc with ⟨q, hq, hge, hlt⟩ | hout
    · -- Only the block itself could hold its header in its payload, and its payload lies behind.
      have := h.headerOf_add hq
      obtain rfl := h.disjoint p hp q hq x hmem ((h.mem_block_iff hq).2 ⟨by omega, hlt⟩)
      omega
    · exact hout ((h.tile x).2 (Or.inr ⟨p, hp, hmem⟩))

/-! ### The five changes -/

/-- Granted blocks that stay as they are stay valid, and they do not overlap. -/
theorem Sound.keep (h : s.Sound bs) (s' : Session)
    (hold : ∀ p ∈ s'.live, p ∈ s.live ∧ s'.list.block p = s.list.block p) :
    (∀ p ∈ s'.live, (s'.list.block p).Valid) ∧
      ∀ p ∈ s'.live, ∀ q ∈ s'.live, ∀ x ∈ s'.list.block p, x ∈ s'.list.block q → p = q := by
  constructor
  · intro p hp
    obtain ⟨hp', heq⟩ := hold p hp
    exact heq ▸ h.valid p hp'
  · intro p hp q hq x hxp hxq
    obtain ⟨hp', hpeq⟩ := hold p hp
    obtain ⟨hq', hqeq⟩ := hold q hq
    rw [hpeq] at hxp
    rw [hqeq] at hxq
    exact h.disjoint p hp' q hq' x hxp hxq

/-- What is granted stays granted while its blocks stay as they are. -/
theorem granted_congr (hold : ∀ p ∈ s.live, l'.block p = s.list.block p) :
    (∃ p ∈ s.live, x ∈ l'.block p) ↔ s.Granted x :=
  exists_congr fun p => and_congr_right fun hp => by rw [hold p hp]

/-- A block that is taken out of the free list becomes a granted block. -/
theorem Sound.take (h : s.Sound bs) (ht : s.list.Takes bs g l' bs') :
    Sound { s with list := l', live := insert g.payload s.live } bs' := by
  -- Only memory that was free is written, so no granted block is touched.
  have hold : ∀ p ∈ s.live, l'.block p = s.list.block p :=
    fun p hp => ht.within.block_eq (h.notFree p hp)
  have hnew : l'.block g.payload = g := block_eq_of_size ht.size_eq
  have hfree : ∀ x ∈ g, Covered bs x := fun x hx => (ht.cut.tile x).2 (Or.inl hx)
  have hrest : ∀ x, Covered bs' x → Covered bs x := fun x hx => (ht.cut.tile x).2 (Or.inr hx)
  refine ⟨ht.tidy, ?_, ?_, ?_, fun x => ?_, h.placed, h.apart⟩
  · intro p hp
    rcases Finset.mem_insert.1 hp with rfl | hp
    · exact hnew ▸ ht.cut.valid
    · exact hold p hp ▸ h.valid p hp
  · intro p hp q hq x hxp hxq
    rcases Finset.mem_insert.1 hp with rfl | hp <;> rcases Finset.mem_insert.1 hq with rfl | hq
    · rfl
    · rw [hnew] at hxp
      rw [hold q hq] at hxq
      exact absurd (hfree x hxp) (h.notFree q hq x hxq)
    · rw [hold p hp] at hxp
      rw [hnew] at hxq
      exact absurd (hfree x hxq) (h.notFree p hp x hxp)
    · rw [hold p hp] at hxp
      rw [hold q hq] at hxq
      exact h.disjoint p hp q hq x hxp hxq
  · intro p hp x hx hcovered
    rcases Finset.mem_insert.1 hp with rfl | hp
    · obtain ⟨c, hc, hxc⟩ := hcovered
      rw [hnew] at hx
      exact FreeBlock.apart_iff.1 (ht.cut.apart c hc) x hx hxc
    · rw [hold p hp] at hx
      exact h.notFree p hp x hx (hrest x hcovered)
  · have hgranted : (∃ p ∈ insert g.payload s.live, x ∈ l'.block p) ↔ x ∈ g ∨ s.Granted x := by
      rw [Finset.exists_mem_insert, hnew, granted_congr hold]
    calc Covered s.pools x ↔ (x ∈ g ∨ Covered bs' x) ∨ s.Granted x := by
          rw [h.tile x, ht.cut.tile x]
      _ ↔ Covered bs' x ∨ (x ∈ g ∨ s.Granted x) := by rw [or_assoc, or_left_comm]
      _ ↔ _ := or_congr_right hgranted.symm

/-- A granted block that is given back lies apart from all others. -/
theorem Sound.not_given (h : s.Sound bs) (hp : p ∈ s.live) :
    ∀ q ∈ s.live.erase p, ∀ x ∈ s.list.block q, ¬ Covered (s.list.block p :: bs) x := by
  intro q hq x hx hcovered
  obtain ⟨hne, hq⟩ := Finset.mem_erase.1 hq
  rcases covered_cons.1 hcovered with hxp | hfree
  · exact hne (h.disjoint q hq p hp x hx hxp)
  · exact h.notFree q hq x hx hfree

/-- All others stay as they are while it is given back. -/
theorem Sound.give_block (h : s.Sound bs) (hp : p ∈ s.live)
    (hg : s.list.Gives bs (s.list.block p) l' bs') :
    ∀ q ∈ s.live.erase p, l'.block q = s.list.block q :=
  fun q hq => hg.within.block_eq (h.not_given hp q hq)

/-- A granted block that is given back becomes free. -/
theorem Sound.give (h : s.Sound bs) (hp : p ∈ s.live)
    (hg : s.list.Gives bs (s.list.block p) l' bs') :
    Sound { s with list := l', live := s.live.erase p } bs' := by
  have hother := h.not_given hp
  have hold := h.give_block hp hg
  obtain ⟨hvalid, hdisjoint⟩ :=
    h.keep { s with list := l', live := s.live.erase p } fun q hq =>
      ⟨Finset.mem_of_mem_erase hq, hold q hq⟩
  refine ⟨hg.tidy, hvalid, hdisjoint, ?_, fun x => ?_, h.placed, h.apart⟩
  · intro q hq x hx hcovered
    rw [hold q hq] at hx
    exact hother q hq x hx (covered_cons.2 ((hg.covered x).1 hcovered))
  · have hgranted : s.Granted x ↔
        x ∈ s.list.block p ∨ ∃ q ∈ s.live.erase p, x ∈ l'.block q := by
      constructor
      · rintro ⟨q, hq, hx⟩
        by_cases hqp : q = p
        · exact Or.inl (hqp ▸ hx)
        · have hq' := Finset.mem_erase.2 ⟨hqp, hq⟩
          exact Or.inr ⟨q, hq', hold q hq' ▸ hx⟩
      · rintro (hx | ⟨q, hq, hx⟩)
        · exact ⟨p, hp, hx⟩
        · exact ⟨q, Finset.mem_of_mem_erase hq, hold q hq ▸ hx⟩
    calc Covered s.pools x ↔
          Covered bs x ∨ (x ∈ s.list.block p ∨ ∃ q ∈ s.live.erase p, x ∈ l'.block q) := by
          rw [h.tile x, hgranted]
      _ ↔ Covered bs' x ∨ ∃ q ∈ s.live.erase p, x ∈ l'.block q := by
          rw [hg.covered x, or_left_comm, or_assoc]

/-- The pool inside a region that the contract allows is new. -/
theorem Sound.pool_fresh {r : Region} (h : s.Sound bs) (hr : (Request.addRegion r).Allowed s)
    (hpool : r.pool? = some b) : b.Valid ∧ ∀ x ∈ b, ¬ Covered s.pools x := by
  obtain ⟨hstart, hend, hdisjoint⟩ := hr
  obtain ⟨hb, hsub⟩ := Region.pool?_spec hstart hend hpool
  refine ⟨hb, fun x hx hcovered => ?_⟩
  obtain ⟨r', hr', hx'⟩ := h.mem_region hcovered
  exact hdisjoint r' hr' x (hsub x hx) hx'

/-- It lies apart from all that is free. -/
theorem Sound.pool_apart {r : Region} (h : s.Sound bs) (hr : (Request.addRegion r).Allowed s)
    (hpool : r.pool? = some b) : ∀ c ∈ bs, b.Apart c := by
  obtain ⟨-, hfresh⟩ := h.pool_fresh hr hpool
  exact fun c hc => FreeBlock.apart_iff.2 fun x hx hxc =>
    hfresh x hx ((h.tile x).2 (Or.inl ⟨c, hc, hxc⟩))

/-- A region that is taken in adds its pool to the free blocks. -/
theorem Sound.addPool {r : Region} (h : s.Sound bs) (hr : (Request.addRegion r).Allowed s)
    (hpool : r.pool? = some b) (hg : s.list.Gives bs b l' bs') :
    Sound { s with list := l', regions := r :: s.regions } bs' := by
  obtain ⟨-, hfresh⟩ := h.pool_fresh hr hpool
  obtain ⟨hstart, hend, hdisjoint⟩ := hr
  have hgranted : ∀ p ∈ s.live, ∀ x ∈ s.list.block p, ¬ Covered (b :: bs) x := by
    intro p hp x hx hcovered
    rcases covered_cons.1 hcovered with hxb | hfree
    · exact hfresh x hxb ((h.tile x).2 (Or.inr ⟨p, hp, hx⟩))
    · exact h.notFree p hp x hx hfree
  have hold : ∀ p ∈ s.live, l'.block p = s.list.block p :=
    fun p hp => hg.within.block_eq (hgranted p hp)
  have hpools : pools { s with list := l', regions := r :: s.regions } = b :: s.pools :=
    List.filterMap_cons_some hpool
  obtain ⟨hvalid, hsingle⟩ := h.keep { s with list := l', regions := r :: s.regions }
    fun p hp => ⟨hp, hold p hp⟩
  refine ⟨hg.tidy, hvalid, hsingle, ?_, fun x => ?_,
    List.forall_mem_cons.2 ⟨⟨hstart, hend⟩, h.placed⟩, List.pairwise_cons.2 ⟨hdisjoint, h.apart⟩⟩
  · intro p hp x hx hcovered
    rw [hold p hp] at hx
    exact hgranted p hp x hx (covered_cons.2 ((hg.covered x).1 hcovered))
  · calc Covered (pools { s with list := l', regions := r :: s.regions }) x ↔
          x ∈ b ∨ (Covered bs x ∨ s.Granted x) := by rw [hpools, covered_cons, h.tile x]
      _ ↔ Covered bs' x ∨ s.Granted x := by rw [hg.covered x, or_assoc]
      _ ↔ _ := or_congr_right (granted_congr hold).symm

/-- A region without room for a pool changes nothing. -/
theorem Sound.ignore {r : Region} (h : s.Sound bs) (hr : (Request.addRegion r).Allowed s)
    (hpool : r.pool? = none) : Sound { s with regions := r :: s.regions } bs := by
  obtain ⟨hstart, hend, hdisjoint⟩ := hr
  have hpools : pools { s with regions := r :: s.regions } = s.pools :=
    List.filterMap_cons_none hpool
  exact ⟨h.tidy, h.valid, h.disjoint, h.notFree, fun x => by rw [hpools]; exact h.tile x,
    List.forall_mem_cons.2 ⟨⟨hstart, hend⟩, h.placed⟩, List.pairwise_cons.2 ⟨hdisjoint, h.apart⟩⟩

/-- What remains granted of a block that is cut down, and what becomes free of it. -/
theorem Sound.cutDown_spec {n : Nat} (h : s.Sound bs) (hp : p ∈ s.live) (hdvd : granularity ∣ n)
    (hpos : 0 < n) (hle : n ≤ s.list.usableSize p)
    (hc : s.list.CutsDown bs (s.list.block p) n l' bs') :
    (l'.block p).Valid ∧
      (∀ x, x ∈ s.list.block p ↔
        x ∈ l'.block p ∨ Covered ((s.list.block p).excess s.list.floor n) x) ∧
      ∀ x ∈ l'.block p, ¬ Covered ((s.list.block p).excess s.list.floor n) x := by
  have hnew : l'.block p = (s.list.block p).shrunk s.list.floor n := by
    have hsize := hc.size_eq
    have hstart := FreeBlock.shrunk_start (s.list.block p) s.list.floor n
    cases hk : (s.list.block p).shrunk s.list.floor n with
    | mk start size =>
      rw [hk] at hsize hstart
      rw [block, usableSize]
      exact (FreeBlock.mk.injEq ..).mpr ⟨hstart.symm, hsize⟩
  obtain ⟨hvalid, -, -, htail, htile⟩ :=
    FreeBlock.shrunk_spec (h.valid p hp) hdvd hpos hle (floor_le s.list)
  rw [hnew]
  refine ⟨hvalid, htile, ?_⟩
  rintro x hx ⟨c, hc, hxc⟩
  obtain ⟨-, hstart, -⟩ := htail c hc
  rw [FreeBlock.mem_iff] at hx hxc
  omega

/-- A granted block that is cut down keeps its front; the rest of it becomes free. -/
theorem Sound.cutDown {n : Nat} (h : s.Sound bs) (hp : p ∈ s.live) (hdvd : granularity ∣ n)
    (hpos : 0 < n) (hle : n ≤ s.list.usableSize p)
    (hc : s.list.CutsDown bs (s.list.block p) n l' bs') : Sound { s with list := l' } bs' := by
  obtain ⟨hvalid, hparts, hapart⟩ := h.cutDown_spec hp hdvd hpos hle hc
  -- The block becomes smaller in place; all others stay.
  have hpart : ∀ x ∈ l'.block p, x ∈ s.list.block p := fun x hx => (hparts x).2 (Or.inl hx)
  have hold : ∀ q ∈ s.live, q ≠ p → l'.block q = s.list.block q := by
    intro q hq hne
    have hadd := h.headerOf_add hp
    have hpayload := block_payload (h.valid p hp)
    refine hc.within.block_eq fun x hx hchanged => ?_
    rcases hchanged with ⟨h₁, h₂⟩ | hcovered
    · rw [block_start] at h₁
      exact hne (h.disjoint q hq p hp x hx ((h.mem_block_iff hp).2 ⟨h₁, by omega⟩))
    · rcases covered_append.1 hcovered with hexcess | hfree
      · exact hne (h.disjoint q hq p hp x hx ((hparts x).2 (Or.inr hexcess)))
      · exact h.notFree q hq x hx hfree
  have hsub : ∀ q ∈ s.live, ∀ x ∈ l'.block q, x ∈ s.list.block q := by
    intro q hq x hx
    by_cases hqp : q = p
    · exact hqp ▸ hpart x (hqp ▸ hx)
    · exact hold q hq hqp ▸ hx
  refine ⟨hc.tidy, ?_, ?_, ?_, fun x => ?_, h.placed, h.apart⟩
  · intro q hq
    by_cases hqp : q = p
    · exact hqp ▸ hvalid
    · exact hold q hq hqp ▸ h.valid q hq
  · intro q hq q' hq' x hx hx'
    exact h.disjoint q hq q' hq' x (hsub q hq x hx) (hsub q' hq' x hx')
  · intro q hq x hx hcovered
    rcases (hc.covered x).1 hcovered with hexcess | hfree
    · by_cases hqp : q = p
      · exact hapart x (hqp ▸ hx) hexcess
      · exact hqp (h.disjoint q hq p hp x (hsub q hq x hx) ((hparts x).2 (Or.inr hexcess)))
    · exact h.notFree q hq x (hsub q hq x hx) hfree
  · have hgranted : s.Granted x ↔ Covered ((s.list.block p).excess s.list.floor n) x ∨
        ∃ q ∈ s.live, x ∈ l'.block q := by
      constructor
      · rintro ⟨q, hq, hx⟩
        by_cases hqp : q = p
        · subst hqp
          exact ((hparts x).1 hx).symm.imp_right fun hx => ⟨q, hq, hx⟩
        · exact Or.inr ⟨q, hq, hold q hq hqp ▸ hx⟩
      · rintro (hx | ⟨q, hq, hx⟩)
        · exact ⟨p, hp, (hparts x).2 (Or.inr hx)⟩
        · exact ⟨q, hq, hsub q hq x hx⟩
    calc Covered s.pools x ↔ Covered bs x ∨ (Covered ((s.list.block p).excess s.list.floor n) x ∨
          ∃ q ∈ s.live, x ∈ l'.block q) := by rw [h.tile x, hgranted]
      _ ↔ Covered bs' x ∨ ∃ q ∈ s.live, x ∈ l'.block q := by
          rw [hc.covered x, or_left_comm, or_assoc]

/-- Granted blocks stay as they are while bytes of the client change. -/
theorem Sound.block_poke {S : Nat → Prop} (h : s.Sound bs) (hw : Within s.list l' S)
    (hS : ∀ x, S x → s.Client x) : ∀ p ∈ s.live, l'.block p = s.list.block p := fun p hp =>
  block_congr fun x h₁ h₂ => hw.get_eq x fun hx => h.not_client.2 p hp h₁ h₂ (hS x hx)

/-- So do the addresses in their payloads. -/
theorem Sound.inPayload_poke {S : Nat → Prop} (h : s.Sound bs) (hw : Within s.list l' S)
    (hS : ∀ x, S x → s.Client x) : InPayload { s with list := l' } x ↔ s.InPayload x := by
  refine exists_congr fun p => and_congr_right fun hp => ?_
  have hsize : l'.usableSize p = s.list.usableSize p :=
    congrArg FreeBlock.size (h.block_poke hw hS p hp)
  show p ≤ x ∧ x < p + l'.usableSize p ↔ _
  rw [hsize]

/-- Bytes of the client may change. -/
theorem Sound.poke {S : Nat → Prop} (h : s.Sound bs) (hhead : l'.head = s.list.head)
    (hw : Within s.list l' S) (hS : ∀ x, S x → s.Client x) : Sound { s with list := l' } bs := by
  have hold := h.block_poke hw hS
  obtain ⟨hvalid, hdisjoint⟩ := h.keep { s with list := l' } fun p hp => ⟨hp, hold p hp⟩
  refine ⟨h.tidy.congr hhead fun b hb x h₁ h₂ => hw.get_eq x fun hx => ?_, hvalid, hdisjoint, ?_,
    fun x => (h.tile x).trans (or_congr_right (granted_congr hold).symm), h.placed, h.apart⟩
  · have := b.header_le_stop
    exact h.not_client.1 ⟨b, hb, h₁, by omega⟩ (hS x hx)
  · intro p hp x hx
    rw [hold p hp] at hx
    exact h.notFree p hp x hx

/-! ### Moving a block -/

/-- A block that is granted from free blocks lies apart from a granted one. -/
theorem Sound.payload_ne (h : s.Sound bs) (hp : p ∈ s.live) (ht : s.list.Takes bs g l' bs') :
    p ≠ g.payload := by
  intro heq
  subst heq
  have hadd := h.headerOf_add hp
  have hlt := g.header_le_stop
  have hstart : headerOf g.payload = g.start := headerOf_payload _
  have hmem : g.start ∈ g := ⟨Nat.le_refl _, by omega⟩
  refine h.notFree _ hp g.start ((h.mem_block_iff hp).2 ⟨by omega, ?_⟩)
    ((ht.cut.tile _).2 (Or.inl hmem))
  rw [FreeBlock.payload_eq]
  omega

/-- Halfway through a move the block is granted twice: where it was, and where its contents were
copied to. -/
theorem Sound.copied {n : Nat} (h : s.Sound bs) (hp : p ∈ s.live) (ht : s.list.Takes bs g l' bs')
    (hlt : s.list.usableSize p < n) (hle : n ≤ g.size) :
    let l₂ : FreeList := { l' with mem := l'.mem.copy p g.payload (s.list.usableSize p) }
    Sound { s with list := l₂, live := insert g.payload s.live } bs' ∧
      l₂.block p = s.list.block p ∧ l₂.block g.payload = g := by
  intro l₂
  have htaken := h.take ht
  have hw := within_copy l' p g.payload (s.list.usableSize p)
  have hgsize : l'.usableSize g.payload = g.size := by
    rw [usableSize, FreeBlock.payload, headerOf_payload, ht.size_eq]
  have hclient : ∀ x, g.payload ≤ x ∧ x < g.payload + s.list.usableSize p →
      Client { s with list := l', live := insert g.payload s.live } x := by
    rintro x ⟨h₁, h₂⟩
    refine Or.inl ⟨g.payload, Finset.mem_insert_self .., h₁, ?_⟩
    show x < g.payload + l'.usableSize g.payload
    omega
  have hheader : ∀ q ∈ insert g.payload s.live, l₂.block q = l'.block q :=
    htaken.block_poke hw hclient
  exact ⟨htaken.poke rfl hw hclient,
    (hheader p (Finset.mem_insert_of_mem hp)).trans (ht.within.block_eq (h.notFree p hp)),
    (hheader _ (Finset.mem_insert_self ..)).trans (block_eq_of_size ht.size_eq)⟩

/-! ### Requests -/

/-- A block that must grow moves into free blocks, or stays where it is if none has room. -/
theorem Sound.perform_move {align size n : Nat} (h : s.Sound bs) (hp : p ∈ s.live) (hpos : size ≠ 0)
    (hround : roundUp? size granularity = some n) (hlt : s.list.usableSize p < n) :
    ∃ answer s' bs', s.perform (.resize p align size) = .ok (answer, s') ∧
      Effect s bs (.resize p align size) answer s' bs' := by
  cases hplace : place? s.list.floor align n bs with
  | none =>
    have hl := resize_of_none hpos hround hlt (h.tidy.allocateAligned_of_none hplace)
    refine ⟨none, s, bs, ?_, .kept (Or.inr (Or.inr ⟨n, hround, hlt, hplace⟩))⟩
    simp only [Session.perform, hl, ok_bind]
    rfl
  | some found =>
    obtain ⟨g, bs₁⟩ := found
    obtain ⟨l₁, hl₁, ht⟩ := h.tidy.allocateAligned_of_some hplace
    -- Releasing the old block is a request to the list after the copy.
    obtain ⟨hsound, hblock, -⟩ := h.copied hp ht hlt (h.tidy.le_of_place? hplace)
    have hp₁ : p ∈ insert g.payload s.live := Finset.mem_insert_of_mem hp
    obtain ⟨l', bs', hl', hg⟩ :=
      hsound.tidy.release (hsound.valid p hp₁) rfl (hsound.apart_free hp₁)
    rw [block_payload (hsound.valid p hp₁)] at hl'
    rw [hblock] at hg
    refine ⟨_, _, bs', ?_, .moved hround hpos hlt hplace ht hg⟩
    simp only [Session.perform, resize_of_some hpos hround hlt hl₁ hl', ok_bind]
    rfl

theorem Sound.perform_resize {align size : Nat} (h : s.Sound bs) (hp : p ∈ s.live) :
    ∃ answer s' bs', s.perform (.resize p align size) = .ok (answer, s') ∧
      Effect s bs (.resize p align size) answer s' bs' := by
  have hkeep : size = 0 ∨ roundUp? size granularity = none →
      s.perform (.resize p align size) = .ok (none, s) := by
    intro hrefused
    simp only [Session.perform, resize_refused hrefused, ok_bind]
    rfl
  by_cases hpos : size = 0
  · exact ⟨none, s, bs, hkeep (Or.inl hpos), .kept (Or.inl hpos)⟩
  cases hround : roundUp? size granularity with
  | none => exact ⟨none, s, bs, hkeep (Or.inr hround), .kept (Or.inr (Or.inl hround))⟩
  | some n =>
    by_cases hle : n ≤ s.list.usableSize p
    · obtain ⟨l', bs', hl', hc⟩ := h.tidy.resize_of_le align (h.valid p hp) rfl
        (h.apart_free hp) hpos hround hle
      rw [block_payload (h.valid p hp)] at hl'
      refine ⟨some p, _, bs', ?_, .cutDown hround hpos hle hc⟩
      simp only [Session.perform, hl', ok_bind, Finset.insert_erase hp]
      rfl
    · exact h.perform_move hp hpos hround (Nat.lt_of_not_le hle)

/-- A request that the contract allows finds no fault and does what it should. -/
theorem Sound.perform {r : Request} (h : s.Sound bs) (hr : r.Allowed s) :
    ∃ answer s' bs', s.perform r = .ok (answer, s') ∧ Effect s bs r answer s' bs' := by
  cases r with
  | addRegion r =>
    cases hpool : r.pool? with
    | none =>
      refine ⟨none, _, bs, ?_, .ignored hpool⟩
      simp only [Session.perform, addRegion_of_none hpool, ok_bind]
      rfl
    | some b =>
      obtain ⟨hb, -⟩ := h.pool_fresh hr hpool
      obtain ⟨l', bs', hl', hg, -⟩ := h.tidy.addRegion hpool hb (h.pool_apart hr hpool)
      refine ⟨_, _, bs', ?_, .added hpool hg⟩
      simp only [Session.perform, hl', ok_bind]
      rfl
  | allocate align size =>
    cases hplace : place? s.list.floor align size bs with
    | none =>
      refine ⟨none, s, bs, ?_, .refused hplace⟩
      simp only [Session.perform, h.tidy.allocateAligned_of_none hplace, ok_bind]
      rfl
    | some found =>
      obtain ⟨g, bs'⟩ := found
      obtain ⟨l', hl', ht⟩ := h.tidy.allocateAligned_of_some hplace
      refine ⟨_, _, bs', ?_, .granted hplace ht⟩
      simp only [Session.perform, hl', ok_bind]
      rfl
  | release p =>
    obtain ⟨l', bs', hl', hg⟩ := h.tidy.release (h.valid p hr) rfl (h.apart_free hr)
    rw [block_payload (h.valid p hr)] at hl'
    refine ⟨none, _, bs', ?_, .released hg⟩
    simp only [Session.perform, hl', ok_bind]
    rfl
  | resize p align size => exact h.perform_resize hr
  | write addr byte => exact ⟨none, _, bs, rfl, .written⟩

/-- No request changes the split floor. -/
theorem Effect.minSplit_eq {r : Request} {answer : Option Nat}
    (he : Effect s bs r answer s' bs') :
    s'.list.minSplit = s.list.minSplit := by
  cases he with
  | added _ hg => exact hg.within.minSplit_eq
  | granted _ ht => exact ht.within.minSplit_eq
  | released hg => exact hg.within.minSplit_eq
  | cutDown _ _ _ hc => exact hc.within.minSplit_eq
  | moved _ _ _ _ ht hg => exact hg.within.minSplit_eq.trans ht.within.minSplit_eq
  | _ => rfl

/-- A block that was granted has room for what was asked for. -/
theorem Effect.room {align size ptr : Nat}
    (he : Effect s bs (.allocate align size) (some ptr) s' bs') (h : s.Sound bs) :
    ptr ∈ s'.live ∧ size ≤ s'.list.usableSize ptr := by
  cases he with
  | granted hplace ht =>
    refine ⟨Finset.mem_insert_self .., ?_⟩
    rw [← block_size, block_eq_of_size ht.size_eq]
    exact h.tidy.le_of_place? hplace

/-- A request that the contract allows leaves a sound session. -/
theorem Effect.sound {r : Request} {answer : Option Nat} (he : Effect s bs r answer s' bs')
    (h : s.Sound bs) (hr : r.Allowed s) : s'.Sound bs' := by
  cases he with
  | added hpool hg => exact h.addPool hr hpool hg
  | ignored hpool => exact h.ignore hr hpool
  | granted _ ht => exact h.take ht
  | refused _ => exact h
  | released hg => exact h.give hr hg
  | cutDown hround hpos hle hc =>
    obtain ⟨hdvd, hpos, -⟩ := units_of_roundUp? hround hpos
    exact h.cutDown hr hdvd hpos hle hc
  | moved _ _ hlt hplace ht hg =>
    obtain ⟨hsound, hblock, -⟩ := h.copied hr ht hlt (h.tidy.le_of_place? hplace)
    rw [← hblock] at hg
    have := hsound.give (Finset.mem_insert_of_mem hr) hg
    rwa [Finset.erase_insert_of_ne (h.payload_ne hr ht).symm] at this
  | kept _ => exact h
  | @written addr byte => exact h.poke rfl (within_set ..) fun x hx => hx ▸ hr

/-- Every session that a client can reach under the contract is sound. -/
theorem Reachable.sound (h : Reachable s) : ∃ bs, s.Sound bs := by
  induction h with
  | start minSplit mem => exact ⟨[], sound_start minSplit mem⟩
  | step _ hr hs ih =>
    obtain ⟨bs, hsound⟩ := ih
    obtain ⟨answer, s', bs', hs', he⟩ := hsound.perform hr
    obtain ⟨-, rfl⟩ := Prod.mk.inj (Except.ok.inj (hs.symm.trans hs'))
    exact ⟨bs', he.sound hsound hr⟩

theorem Reachable.after {r : Request} (h : Reachable s) (hr : r.Allowed s) :
    Reachable (s.after r) := by
  obtain ⟨bs, hsound⟩ := h.sound
  obtain ⟨answer, s', bs', hs', -⟩ := hsound.perform hr
  have hafter : s.after r = s' := by
    rw [Session.after, hs']
    rfl
  exact hafter ▸ h.step hr hs'

/-- A session over two pools that touch, with two granted blocks; the first of them has slack in
front of it. -/
def sample : Session :=
  ((((start 0 {}).after (.addRegion ⟨4096, 256⟩)).after (.addRegion ⟨4352, 256⟩)).after
    (.allocate 64 100)).after (.allocate 8 40)

theorem sample_reachable : Reachable sample := by
  have hfirst : (Request.addRegion ⟨4096, 256⟩).Allowed (start 0 {}) :=
    ⟨by decide, by decide, by simp [start]⟩
  have hsecond : (Request.addRegion ⟨4352, 256⟩).Allowed
      ((start 0 {}).after (.addRegion ⟨4096, 256⟩)) := by
    have hregions : ((start 0 {}).after (.addRegion ⟨4096, 256⟩)).regions = [⟨4096, 256⟩] := by
      decide +kernel
    refine ⟨by decide, by decide, ?_⟩
    rw [hregions]
    exact List.forall_mem_singleton.2 (Region.Disjoint.symm (Region.disjoint_of_le (by decide)))
  have hpools := ((Reachable.start 0 {}).after hfirst).after hsecond
  exact (hpools.after (r := .allocate 64 100) trivial).after (r := .allocate 8 40) trivial

end Session

end PoolAlloc
