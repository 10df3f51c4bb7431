import PoolAlloc.Proofs.Waste
/-!
# PoolAlloc.Proofs.Resizing

Where granted blocks lie, and what they carry along when they are resized.

A block is granted at a multiple of the alignment that was asked for. A block that is resized stays
where it is if it is large enough, whatever alignment is asked for, and otherwise moves to a
multiple of that alignment with its contents (`Resized`). So the alignment of a block is a matter of
its history: `Request.enter` keeps the terms on which blocks were last granted, and
`Session.Honours` says that they hold.

Main statements: `Effect.resized`, `Effect.honours`.
-/

namespace PoolAlloc

open Memory FreeList

namespace Session

variable {s s' : Session} {bs bs' : List FreeBlock} {align size p q : Nat}

/-! ### What one request answers -/

/-- A block is granted at a multiple of the alignment that was asked for. -/
theorem Effect.granted_dvd (he : Effect s bs (.allocate align size) (some q) s' bs')
    (h : s.Sound bs) : align ∣ q := by
  cases he with
  | granted hplace ht => exact (place?_spec h.tidy.valid h.tidy.spaced (floor_le s.list) hplace).2.2

/-- The contents of a block that moves are in the block it moves to. -/
theorem Sound.moved_get {g : FreeBlock} {l₁ l' : FreeList} {bs₁ : List FreeBlock} {n i : Nat}
    (h : s.Sound bs) (hp : p ∈ s.live) (hlt : s.list.usableSize p < n) (hle : n ≤ g.size)
    (ht : s.list.Takes bs g l₁ bs₁)
    (hg : Gives { l₁ with mem := l₁.mem.copy p g.payload (s.list.usableSize p) } bs₁
      (s.list.block p) l' bs') (hi : i < s.list.usableSize p) :
    l'.mem.get (g.payload + i) = s.list.mem.get (p + i) := by
  have hadd := h.headerOf_add hp
  have hmem : p + i ∈ s.list.block p := (h.mem_block_iff hp).2 ⟨by omega, by omega⟩
  have hnew : g.payload + i ∈ g := by
    have := g.payload_eq
    have := g.stop_eq
    exact ⟨by omega, by omega⟩
  -- Releasing the old block writes in it and in free blocks; the new block lies apart from both.
  have hreleased : ¬ Covered (s.list.block p :: bs₁) (g.payload + i) := by
    intro hx
    rcases covered_cons.1 hx with hold | ⟨c, hc, hxc⟩
    · exact h.notFree p hp _ hold ((ht.cut.tile _).2 (Or.inl hnew))
    · exact FreeBlock.apart_iff.1 (ht.cut.apart c hc) _ hnew hxc
  calc l'.mem.get (g.payload + i)
      = (l₁.mem.copy p g.payload (s.list.usableSize p)).get (g.payload + i) :=
        hg.within.get_eq _ hreleased
    _ = l₁.mem.get (p + i) := by
        rw [get_copy, if_pos ⟨by omega, by omega⟩, Nat.add_sub_cancel_left]
    _ = s.list.mem.get (p + i) := ht.within.get_eq _ (h.notFree p hp _ hmem)

/-- What is answered and left when the granted block at `p` is given room for `size` bytes. -/
structure Resized (s : Session) (p align size q : Nat) (s' : Session) : Prop where
  mem_live : q ∈ s'.live
  room : size ≤ s'.list.usableSize q
  /-- A block that is large enough stays, whatever the alignment; another one moves. -/
  place : (roundUp size granularity ≤ s.list.usableSize p ∧ q = p) ∨
    (s.list.usableSize p < roundUp size granularity ∧ align ∣ q)
  contents : ∀ i, i < s.list.usableSize p → i < s'.list.usableSize q →
    s'.list.mem.get (q + i) = s.list.mem.get (p + i)

theorem Effect.resized (he : Effect s bs (.resize p align size) (some q) s' bs') (h : s.Sound bs)
    (hp : p ∈ s.live) : s.Resized p align size q s' := by
  have hroom : size ≤ roundUp size granularity := le_roundUp_granularity size
  cases he with
  | @cutDown _ _ _ n l' _ hround hpos hle hc =>
    obtain ⟨-, rfl⟩ := roundUp?_eq_some.1 hround
    obtain ⟨hdvd, hpos', -⟩ := units_of_roundUp? hround hpos
    obtain ⟨hsmaller, hget⟩ := h.cutDown_payload hp hdvd hpos' hle hc
    have hsize : l'.usableSize p = _ := hc.size_eq
    have hfits : Fits s.list.floor size (l'.usableSize p) :=
      hsize ▸ FreeBlock.shrunk_fits hle (Nat.lt_of_lt_of_le (by decide) (floor_le s.list))
    exact ⟨hp, Nat.le_trans hroom hfits.1, .inl ⟨hle, rfl⟩,
      fun i _ hi => hget (p + i) (by omega) (Nat.add_lt_add_left hi p)⟩
  | @moved _ _ _ n g l₁ l' bs₁ bs' hround hpos hlt hplace ht hg =>
    obtain ⟨-, rfl⟩ := roundUp?_eq_some.1 hround
    obtain ⟨-, -, hdvd⟩ := place?_spec h.tidy.valid h.tidy.spaced (floor_le s.list) hplace
    have hlarge := h.tidy.le_of_place? hplace
    have hsize : l'.usableSize g.payload = g.size := h.moved_size hp hlt hplace ht hg
    refine ⟨Finset.mem_insert_self .., ?_, .inr ⟨hlt, hdvd⟩,
      fun i hi _ => h.moved_get hp hlt hlarge ht hg hi⟩
    show size ≤ l'.usableSize g.payload
    omega

end Session

/-! ### The terms of granted blocks -/

/-- What a block was last asked for to be. -/
structure Terms where
  /-- Its size. -/
  size : Nat
  /-- Its alignment. -/
  align : Nat

namespace Request

/-- The terms on which a request wants a block. -/
def terms? : Request → Option Terms
  | allocate align size => some ⟨size, align⟩
  | resize _ align size => some ⟨size, align⟩
  | _ => none

/-- Enter a request and its answer in the ledger of the terms of granted blocks. -/
def enter (r : Request) (answer : Option Nat) (terms : Nat → Terms) : Nat → Terms :=
  match r.terms?, answer with
  | some asked, some ptr => Function.update terms ptr asked
  | _, _ => terms

variable {r : Request} {answer : Option Nat} {terms : Nat → Terms} {asked : Terms} {p : Nat}

theorem enter_self (h : r.terms? = some asked) : r.enter (some p) terms p = asked := by
  simp only [enter, h, Function.update_self]

theorem enter_of_not (h : ¬ (answer = some p ∧ r.terms? ≠ none)) :
    r.enter answer terms p = terms p := by
  unfold enter
  cases hasked : r.terms? with
  | none => rfl
  | some asked =>
    cases answer with
    | none => rfl
    | some ptr =>
      refine Function.update_of_ne (fun heq => h ⟨congrArg some heq.symm, ?_⟩) ..
      rw [hasked]
      exact Option.some_ne_none asked

/-- A block is resized at the alignment that it has by the ledger. -/
def KeepsAlign (terms : Nat → Terms) : Request → Prop
  | resize ptr align _ => align = (terms ptr).align
  | _ => True

end Request

namespace Session

variable {s s' : Session} {bs bs' : List FreeBlock} {r : Request} {answer : Option Nat}
  {terms : Nat → Terms} {p : Nat}

/-- Every granted block lies and is as large as the ledger says. -/
def Honours (s : Session) (terms : Nat → Terms) : Prop :=
  ∀ p ∈ s.live, (terms p).align ∣ p ∧ (terms p).size ≤ s.list.usableSize p

/-- What a request answers is as the request wants it. -/
theorem Effect.honours_answer (he : Effect s bs r (some p) s' bs') (h : s.Sound bs)
    (hr : r.Allowed s) (hterms : s.Honours terms) (hkeeps : r.KeepsAlign terms) {asked : Terms}
    (hasked : r.terms? = some asked) :
    p ∈ s'.live ∧ asked.align ∣ p ∧ asked.size ≤ s'.list.usableSize p := by
  cases r with
  | allocate align size =>
    obtain rfl := Option.some.inj hasked
    obtain ⟨hlive, hroom⟩ := he.room h
    exact ⟨hlive, he.granted_dvd h, hroom⟩
  | resize ptr align size =>
    obtain rfl := Option.some.inj hasked
    have hresized := he.resized h hr
    refine ⟨hresized.mem_live, ?_, hresized.room⟩
    rcases hresized.place with ⟨-, rfl⟩ | ⟨-, hdvd⟩
    · -- A block that stays is aligned as it was, which is as it is asked for again.
      obtain rfl : align = (terms p).align := hkeeps
      exact (hterms p hr).1
    · exact hdvd
  | _ => cases hasked

/-- A block that is granted after a request, and not as its answer, was granted before at the same
size. -/
theorem Effect.usableSize_of_not (he : Effect s bs r answer s' bs') (h : s.Sound bs)
    (hr : r.Allowed s) (hp : p ∈ s'.live) (hnot : ¬ (answer = some p ∧ r.terms? ≠ none)) :
    p ∈ s.live ∧ s'.list.usableSize p = s.list.usableSize p := by
  have hother := fun hp ht => And.intro hp (he.usableSize_eq h hr (p := p) hp ht)
  cases he with
  | added | ignored | refused | written => exact hother hp nofun
  | granted =>
    rcases Finset.mem_insert.1 hp with rfl | hp
    · exact absurd ⟨rfl, Option.some_ne_none _⟩ hnot
    · exact hother hp nofun
  | released =>
    obtain ⟨hne, hp⟩ := Finset.mem_erase.1 hp
    exact hother hp fun heq => hne (Option.some.inj heq).symm
  | cutDown =>
    exact hother hp fun heq => hnot ⟨heq, Option.some_ne_none _⟩
  | moved =>
    rcases Finset.mem_insert.1 hp with rfl | hp
    · exact absurd ⟨rfl, Option.some_ne_none _⟩ hnot
    · obtain ⟨hne, hp⟩ := Finset.mem_erase.1 hp
      exact hother hp fun heq => hne (Option.some.inj heq).symm
  | kept => exact ⟨hp, rfl⟩

/-- A request that keeps to the alignments of the ledger keeps the ledger true. -/
theorem Effect.honours (he : Effect s bs r answer s' bs') (h : s.Sound bs) (hr : r.Allowed s)
    (hterms : s.Honours terms) (hkeeps : r.KeepsAlign terms) :
    s'.Honours (r.enter answer terms) := by
  intro p hp
  by_cases hnew : answer = some p ∧ r.terms? ≠ none
  · obtain ⟨rfl, hasked⟩ := hnew
    obtain ⟨asked, hasked⟩ := Option.ne_none_iff_exists'.1 hasked
    rw [Request.enter_self hasked]
    exact (he.honours_answer h hr hterms hkeeps hasked).2
  · obtain ⟨hp, hsize⟩ := he.usableSize_of_not h hr hp hnew
    rw [Request.enter_of_not hnew, hsize]
    exact hterms p hp

/-- Where every block is asked for at a multiple of `d`, the granted blocks stay at multiples. -/
theorem Effect.live_dvd {d : Nat} (he : Effect s bs r answer s' bs') (h : s.Sound bs)
    (hr : r.Allowed s) (hasked : ∀ asked, r.terms? = some asked → d ∣ asked.align)
    (hlive : ∀ p ∈ s.live, d ∣ p) : ∀ p ∈ s'.live, d ∣ p := by
  intro p hp
  by_cases hnew : answer = some p ∧ r.terms? ≠ none
  · obtain ⟨rfl, hsome⟩ := hnew
    cases r with
    | allocate align size => exact Nat.dvd_trans (hasked _ rfl) (he.granted_dvd h)
    | resize ptr align size =>
      rcases (he.resized h hr).place with ⟨-, rfl⟩ | ⟨-, hdvd⟩
      · exact hlive p hr
      · exact Nat.dvd_trans (hasked _ rfl) hdvd
    | _ => exact absurd rfl hsome
  · exact hlive p (he.usableSize_of_not h hr hp hnew).1

end Session

end PoolAlloc
