import PoolAlloc.Proofs.Soundness
/-!
# PoolAlloc.Proofs.Isolation

What belongs to the client is left alone.

Headers lie between the payloads of granted blocks, and every request writes several of them. All
that a request writes lies in the pools and in no granted block but the one it names
(`Effect.within`); the bytes and sizes of all others stay. A block that is cut down in place is
the one exception: its header is written, and its payload stays as far as it remains
(`Effect.payload_eq`).
-/

namespace PoolAlloc

open Memory FreeList

/-- The granted block that a request names. -/
def Request.target? : Request → Option Nat
  | release ptr => some ptr
  | resize ptr _ _ => some ptr
  | _ => none

namespace Session

variable {s s' : Session} {bs bs' : List FreeBlock} {r : Request} {answer : Option Nat} {p x : Nat}

/-- An address in a granted block that the request does not name. -/
def Untouchable (s : Session) (r : Request) (x : Nat) : Prop :=
  ∃ p ∈ s.live, r.target? ≠ some p ∧ x ∈ s.list.block p

theorem Sound.covered_of_granted (h : s.Sound bs) (hp : p ∈ s.live) (hx : x ∈ s.list.block p) :
    Covered s.pools x :=
  (h.tile x).2 (Or.inr ⟨p, hp, hx⟩)

/-- What is free lies in the pools and in no granted block. -/
theorem Sound.free_touchable (h : s.Sound bs) (hx : Covered bs x) :
    Covered s.pools x ∧ ¬ s.Untouchable r x :=
  ⟨(h.tile x).2 (Or.inl hx), fun ⟨p, hp, _, hxp⟩ => h.notFree p hp x hxp hx⟩

/-- The block that a request names lies in the pools and in no other granted block. -/
theorem Sound.target_touchable (h : s.Sound bs) (hp : p ∈ s.live) (ht : r.target? = some p)
    (hx : x ∈ s.list.block p) : Covered s.pools x ∧ ¬ s.Untouchable r x := by
  refine ⟨h.covered_of_granted hp hx, ?_⟩
  rintro ⟨q, hq, hne, hxq⟩
  obtain rfl := h.disjoint p hp q hq x hx hxq
  exact hne ht

/-- A request writes in the pools only, and in no granted block but the one it names. -/
theorem Effect.within (he : Effect s bs r answer s' bs') (h : s.Sound bs) (hr : r.Allowed s)
    (hcall : ∀ addr byte, r ≠ .write addr byte) :
    Within s.list s'.list fun x => Covered s'.pools x ∧ ¬ s.Untouchable r x := by
  cases he with
  | @added r b l' bs' hpool hg =>
    obtain ⟨-, hfresh⟩ := h.pool_fresh hr hpool
    have hpools : pools { s with list := l', regions := r :: s.regions } = b :: s.pools :=
      List.filterMap_cons_some hpool
    refine hg.within.mono fun x hx => ?_
    rw [hpools]
    rcases covered_cons.1 hx with hxb | hfree
    · exact ⟨covered_cons.2 (Or.inl hxb), fun ⟨p, hp, _, hxp⟩ =>
        hfresh x hxb (h.covered_of_granted hp hxp)⟩
    · exact (h.free_touchable hfree).imp_left fun hx => covered_cons.2 (Or.inr hx)
  | ignored _ => exact ⟨rfl, fun _ _ => rfl⟩
  | granted _ ht => exact ht.within.mono fun x hx => h.free_touchable hx
  | refused _ => exact ⟨rfl, fun _ _ => rfl⟩
  | released hg =>
    refine hg.within.mono fun x hx => ?_
    rcases covered_cons.1 hx with hxp | hfree
    · exact h.target_touchable hr rfl hxp
    · exact h.free_touchable hfree
  | @cutDown p _ _ _ _ _ hround hpos hle hc =>
    obtain ⟨hdvd, hpos, -⟩ := units_of_roundUp? hround hpos
    obtain ⟨-, hparts, -⟩ := h.cutDown_spec hr hdvd hpos hle hc
    refine hc.within.mono fun x hx => ?_
    rcases hx with ⟨hge, hlt⟩ | hx
    · rw [block_payload (h.valid p hr)] at hlt
      exact h.target_touchable hr rfl ((h.mem_block_iff hr).2 ⟨hge, by omega⟩)
    · rcases covered_append.1 hx with hexcess | hfree
      · exact h.target_touchable hr rfl ((hparts x).2 (Or.inr hexcess))
      · exact h.free_touchable hfree
  | @moved p _ _ n g l₁ l' bs₁ bs' hround hpos hlt hplace ht hg =>
    have hlarge := h.tidy.le_of_place? hplace
    -- The copy goes to the payload of the new block, which was free before.
    have hcopy := (within_copy l₁ p g.payload (s.list.usableSize p)).mono (T := fun x => x ∈ g)
      fun x ⟨h₁, h₂⟩ => by
        have := g.payload_eq
        have := g.stop_eq
        exact ⟨by omega, by omega⟩
    refine (ht.within.mono fun x hx => ?_).trans ((hcopy.mono fun x hx => ?_).trans
      (hg.within.mono fun x hx => ?_))
    · exact h.free_touchable hx
    · exact h.free_touchable ((ht.cut.tile x).2 (Or.inl hx))
    · rcases covered_cons.1 hx with hxp | hfree
      · exact h.target_touchable hr rfl hxp
      · exact h.free_touchable ((ht.cut.tile x).2 (Or.inr hfree))
  | kept _ => exact ⟨rfl, fun _ _ => rfl⟩
  | written => exact absurd rfl (hcall _ _)

/-- The granted blocks that a request does not name stay as they are. -/
theorem Effect.block_eq (he : Effect s bs r answer s' bs') (h : s.Sound bs) (hr : r.Allowed s)
    (hcall : ∀ addr byte, r ≠ .write addr byte) (hp : p ∈ s.live) (ht : r.target? ≠ some p) :
    s'.list.block p = s.list.block p ∧
      ∀ x ∈ s.list.block p, s'.list.mem.get x = s.list.mem.get x := by
  have hw := he.within h hr hcall
  have hout : ∀ x ∈ s.list.block p, ¬ (Covered s'.pools x ∧ ¬ s.Untouchable r x) :=
    fun x hx hin => hin.2 ⟨p, hp, ht, hx⟩
  exact ⟨hw.block_eq hout, fun x hx => hw.get_eq x (hout x hx)⟩

/-- A granted block that a request does not name stays granted. -/
theorem Effect.mem_live (he : Effect s bs r answer s' bs') (hp : p ∈ s.live)
    (ht : r.target? ≠ some p) : p ∈ s'.live := by
  cases he with
  | granted => exact Finset.mem_insert_of_mem hp
  | released =>
    exact Finset.mem_erase.2 ⟨fun heq => ht (congrArg some heq.symm), hp⟩
  | moved =>
    exact Finset.mem_insert_of_mem
      (Finset.mem_erase.2 ⟨fun heq => ht (congrArg some heq.symm), hp⟩)
  | _ => exact hp

/-- A block that is granted after a request was granted before or is what the request answers. -/
theorem Effect.live_cases (he : Effect s bs r answer s' bs') (h : s.Sound bs) (hp : p ∈ s'.live) :
    p ∈ s.live ∨ (p ∉ s.live ∧ answer = some p) := by
  cases he with
  | granted _ hg =>
    rcases Finset.mem_insert.1 hp with rfl | hp
    · exact Or.inr ⟨fun hlive => h.payload_ne hlive hg rfl, rfl⟩
    · exact Or.inl hp
  | released => exact Or.inl (Finset.mem_of_mem_erase hp)
  | moved _ _ _ _ hg =>
    rcases Finset.mem_insert.1 hp with rfl | hp
    · exact Or.inr ⟨fun hlive => h.payload_ne hlive hg rfl, rfl⟩
    · exact Or.inl (Finset.mem_of_mem_erase hp)
  | _ => exact Or.inl hp

/-- A block that is cut down keeps the payload that remains of it. -/
theorem Sound.cutDown_payload {l' : FreeList} {n : Nat} (h : s.Sound bs) (hp : p ∈ s.live)
    (hdvd : granularity ∣ n) (hpos : 0 < n) (hle : n ≤ s.list.usableSize p)
    (hc : s.list.CutsDown bs (s.list.block p) n l' bs') :
    l'.usableSize p ≤ s.list.usableSize p ∧
      ∀ x, p ≤ x → x < p + l'.usableSize p → l'.mem.get x = s.list.mem.get x := by
  obtain ⟨hvalid, hparts, hapart⟩ := h.cutDown_spec hp hdvd hpos hle hc
  have hadd := h.headerOf_add hp
  have hstop : (l'.block p).stop = p + l'.usableSize p := block_stop hvalid
  have hrest : ∀ x, p ≤ x → x < p + l'.usableSize p → x ∈ l'.block p :=
    fun x h₁ h₂ => ⟨by rw [block_start]; omega, by omega⟩
  constructor
  · -- Otherwise the block would have grown by the address it ended at.
    refine Nat.le_of_not_lt fun hgt => ?_
    have hgrown := (hparts _).2 (Or.inl (hrest (p + s.list.usableSize p) (by omega) (by omega)))
    have := (h.mem_block_iff hp).1 hgrown
    omega
  · intro x h₁ h₂
    have hx := hrest x h₁ h₂
    refine hc.within.get_eq x fun hchanged => ?_
    rcases hchanged with ⟨-, hlt⟩ | hcovered
    · rw [block_payload (h.valid p hp)] at hlt
      omega
    · rcases covered_append.1 hcovered with hexcess | hfree
      · exact hapart x hx hexcess
      · exact h.notFree p hp x ((hparts x).2 (Or.inl hx)) hfree

/-- A block that is granted before and after a request keeps the payload that remains of it. -/
theorem Effect.payload_eq (he : Effect s bs r answer s' bs') (h : s.Sound bs) (hr : r.Allowed s)
    (hcall : ∀ addr byte, r ≠ .write addr byte) (hp : p ∈ s.live) (hp' : p ∈ s'.live) :
    s'.list.usableSize p ≤ s.list.usableSize p ∧
      ∀ x, p ≤ x → x < p + s'.list.usableSize p → s'.list.mem.get x = s.list.mem.get x := by
  have hadd := h.headerOf_add hp
  by_cases ht : r.target? = some p
  · cases he with
    | cutDown hround hpos hle hc =>
      obtain rfl := Option.some.inj ht
      obtain ⟨hdvd, hpos, -⟩ := units_of_roundUp? hround hpos
      exact h.cutDown_payload hp hdvd hpos hle hc
    | released =>
      obtain rfl := Option.some.inj ht
      exact absurd hp' (Finset.notMem_erase _ _)
    | moved _ _ _ _ hg =>
      obtain rfl := Option.some.inj ht
      rcases Finset.mem_insert.1 hp' with heq | hp'
      · exact absurd heq (h.payload_ne hp hg)
      · exact absurd hp' (Finset.notMem_erase _ _)
    | kept _ => exact ⟨Nat.le_refl _, fun _ _ _ => rfl⟩
    | _ => cases ht
  · obtain ⟨hblock, hget⟩ := he.block_eq h hr hcall hp ht
    have hsize : s'.list.usableSize p = s.list.usableSize p := congrArg FreeBlock.size hblock
    refine ⟨Nat.le_of_eq hsize, fun x h₁ h₂ => hget x ((h.mem_block_iff hp).2 ⟨by omega, ?_⟩)⟩
    rwa [hsize] at h₂

/-! ### Isolation in every run -/

/-- What a request leaves of the memory that is not the allocator's. -/
structure Undisturbed (s : Session) (r : Request) (answer : Option Nat) (s' : Session) : Prop where
  /-- A granted block that the request does not name stays granted, with its size and payload. -/
  others : ∀ p ∈ s.live, r.target? ≠ some p →
    p ∈ s'.live ∧ s'.list.usableSize p = s.list.usableSize p ∧
      ∀ x, p ≤ x → x < p + s.list.usableSize p → s'.list.mem.get x = s.list.mem.get x
  /-- Memory outside the pools, including the pool just taken in, stays. -/
  outside : ∀ x, ¬ Covered s'.pools x → s'.list.mem.get x = s.list.mem.get x
  /-- A block that is granted afterwards is the one just returned, or it was granted before and
  keeps the payload that remains of it. -/
  payloads : ∀ p ∈ s'.live, (p ∉ s.live ∧ answer = some p) ∨
    (p ∈ s.live ∧ s'.list.usableSize p ≤ s.list.usableSize p ∧
      ∀ x, p ≤ x → x < p + s'.list.usableSize p → s'.list.mem.get x = s.list.mem.get x)

theorem Effect.undisturbed (he : Effect s bs r answer s' bs') (h : s.Sound bs) (hr : r.Allowed s)
    (hcall : ∀ addr byte, r ≠ .write addr byte) : Undisturbed s r answer s' where
  others := by
    intro p hp ht
    obtain ⟨hblock, hget⟩ := he.block_eq h hr hcall hp ht
    have hadd := h.headerOf_add hp
    exact ⟨he.mem_live hp ht, congrArg FreeBlock.size hblock,
      fun x h₁ h₂ => hget x ((h.mem_block_iff hp).2 ⟨by omega, h₂⟩)⟩
  outside := by
    intro x hx
    exact (he.within h hr hcall).get_eq x fun hin => hx hin.1
  payloads := by
    intro p hp'
    rcases he.live_cases h hp' with hp | hnew
    · exact Or.inr ⟨hp, he.payload_eq h hr hcall hp hp'⟩
    · exact Or.inl hnew

/-- In every reachable session the granted blocks lie apart from each other and from the free
blocks, inside the pools, and no request disturbs what belongs to the client. -/
theorem Reachable.isolated (h : Reachable s) :
    (∀ p ∈ s.live, (s.list.block p).start = p - headerSize ∧
      (s.list.block p).stop = p + s.list.usableSize p ∧
      ∀ x ∈ s.list.block p, Covered s.pools x) ∧
    (∀ p ∈ s.live, ∀ q ∈ s.live, p ≠ q → (s.list.block p).Apart (s.list.block q)) ∧
    (∃ bs, s.list.blocks = .ok bs ∧ ∀ p ∈ s.live, ∀ b ∈ bs, (s.list.block p).Apart b) ∧
    ∀ r, r.Allowed s → (∀ addr byte, r ≠ .write addr byte) →
      ∃ answer s', s.perform r = .ok (answer, s') ∧ Undisturbed s r answer s' := by
  obtain ⟨bs, hsound⟩ := h.sound
  refine ⟨fun p hp => ⟨rfl, block_stop (hsound.valid p hp), fun x hx => ?_⟩, ?_, ?_, ?_⟩
  · exact hsound.covered_of_granted hp hx
  · intro p hp q hq hne
    exact hsound.apart_live hp hq hne
  · exact ⟨bs, hsound.tidy.holds.blocks_eq, fun p hp => hsound.apart_free hp⟩
  · intro r hr hcall
    obtain ⟨answer, s', bs', hs', he⟩ := hsound.perform hr
    exact ⟨answer, s', hs', he.undisturbed hsound hr hcall⟩

/-- Releasing the first granted block of the sample leaves the second alone. -/
theorem isolated_sample :
    ∃ answer s', sample.perform (.release 4160) = .ok (answer, s') ∧ 4288 ∈ s'.live ∧
      s'.list.usableSize 4288 = 40 ∧
      ∀ x, 4288 ≤ x → x < 4328 → s'.list.mem.get x = sample.list.mem.get x := by
  have hlive : sample.live = {4160, 4288} := by decide +kernel
  have hsize : sample.list.usableSize 4288 = 40 := by decide +kernel
  obtain ⟨-, -, -, hcalls⟩ := Reachable.isolated sample_reachable
  have hallowed : (Request.release 4160).Allowed sample := by
    show 4160 ∈ sample.live
    simp [hlive]
  obtain ⟨answer, s', hs', hundisturbed⟩ := hcalls (.release 4160) hallowed (by simp)
  obtain ⟨hmem, husable, hget⟩ :=
    hundisturbed.others 4288 (by simp [hlive]) (by simp [Request.target?])
  rw [hsize] at husable hget
  exact ⟨answer, s', hs', hmem, husable, fun x h₁ h₂ => hget x h₁ (by omega)⟩

end Session

end PoolAlloc
