import PoolAlloc.Proofs.Isolation
/-!
# PoolAlloc.Proofs.Confluence

Releasing undoes allocating, and the order of releases does not matter.

A tidy list is determined by what it covers (`Spaced.eq_of_covered`). So it is enough to say what
is covered after a run of releases, and that is a statement about the set of released blocks
(`Sound.run_releases`) in which their order does not show. What a request for memory answers
depends on the free blocks alone (`Sound.run_allocations`).

Main statement: `Reachable.confluent`.
-/

namespace PoolAlloc

open FreeList

namespace Request

/-- A request that adds to the free memory: a region or a granted block. -/
def IsRelease : Request → Prop
  | addRegion _ => True
  | release _ => True
  | _ => False

/-- Two such requests concern different memory. -/
def Independent : Request → Request → Prop
  | addRegion r, addRegion r' => r.Disjoint r'
  | release p, release q => p ≠ q
  | _, _ => True

theorem Independent.symm {r r' : Request} (h : r.Independent r') : r'.Independent r := by
  cases r <;> cases r' <;> first | exact trivial | exact Region.Disjoint.symm h | exact Ne.symm h

/-- The block that such a request adds to the free memory, if it adds one. -/
def freed? (s : Session) : Request → Option FreeBlock
  | addRegion r => r.pool?
  | release p => some (s.list.block p)
  | _ => none

end Request

namespace Session

variable {s s' : Session} {bs bs' : List FreeBlock} {r : Request} {rs rs' : List Request}
  {answer : Option Nat}

/-- Releases that the contract allows in any order. -/
structure Pending (s : Session) (rs : List Request) : Prop where
  releases : ∀ r ∈ rs, r.IsRelease
  allowed : ∀ r ∈ rs, r.Allowed s
  independent : rs.Pairwise Request.Independent

theorem Pending.perm (h : Pending s rs) (hperm : rs.Perm rs') : Pending s rs' where
  releases := fun r hr => h.releases r (hperm.mem_iff.2 hr)
  allowed := fun r hr => h.allowed r (hperm.mem_iff.2 hr)
  independent := hperm.pairwise h.independent Request.Independent.symm

/-! ### Runs of releases -/

/-- A release adds its block to the free memory. -/
theorem Effect.covered_freed (he : Effect s bs r answer s' bs') (hr : r.IsRelease) (x : Nat) :
    Covered bs' x ↔ (∃ b, r.freed? s = some b ∧ x ∈ b) ∨ Covered bs x := by
  cases he with
  | added hpool hg =>
    rw [hg.covered x, Request.freed?, hpool]
    simp
  | ignored hpool =>
    rw [Request.freed?, hpool]
    simp
  | released hg =>
    rw [hg.covered x, Request.freed?]
    simp
  | _ => exact absurd hr id

/-- The releases that are still to come stay allowed, and their blocks stay. -/
theorem Pending.step (h : Pending s (r :: rs)) (hs : s.Sound bs)
    (he : Effect s bs r answer s' bs') :
    Pending s' rs ∧ ∀ q ∈ rs, q.freed? s' = q.freed? s := by
  obtain ⟨hr, hreleases⟩ := List.forall_mem_cons.1 h.releases
  obtain ⟨hallowed, hrest⟩ := List.forall_mem_cons.1 h.allowed
  obtain ⟨hindependent, hpairs⟩ := List.pairwise_cons.1 h.independent
  have hcall : ∀ addr byte, r ≠ .write addr byte := by
    intro addr byte heq
    rw [heq] at hr
    exact hr
  -- Blocks still to be released are others than the one released now, so they stay granted.
  have hother : ∀ p, Request.release p ∈ rs → p ∈ s.live ∧ r.target? ≠ some p := by
    intro p hp
    refine ⟨hrest _ hp, ?_⟩
    have hne := hindependent _ hp
    cases r with
    | release q => exact fun heq => hne (Option.some.inj heq)
    | addRegion => simp [Request.target?]
    | _ => exact absurd hr id
  have hregion : ∀ r', Request.addRegion r' ∈ rs → ∀ r'' ∈ s'.regions, r'.Disjoint r'' := by
    intro r' hr' r'' hr''
    have hold := (hrest _ hr').2.2
    have hne := hindependent _ hr'
    cases he with
    | added | ignored =>
      rcases List.mem_cons.1 hr'' with rfl | hr''
      · exact hne.symm
      · exact hold r'' hr''
    | released => exact hold r'' hr''
    | _ => exact absurd hr id
  refine ⟨⟨hreleases, fun q hq => ?_, hpairs⟩, fun q hq => ?_⟩
  · cases q with
    | addRegion r' => exact ⟨(hrest _ hq).1, (hrest _ hq).2.1, hregion r' hq⟩
    | release p => exact he.mem_live (hother p hq).1 (hother p hq).2
    | _ => exact absurd (hreleases _ hq) id
  · cases q with
    | release p =>
      exact congrArg some (he.block_eq hs hallowed hcall (hother p hq).1 (hother p hq).2).1
    | _ => rfl

/-- A run of releases adds their blocks to the free memory. -/
theorem Sound.run_releases (h : s.Sound bs) (hrs : Pending s rs) :
    ∃ answers s' bs', s.run rs = .ok (answers, s') ∧ s'.Sound bs' ∧
      s'.list.minSplit = s.list.minSplit ∧
      ∀ x, Covered bs' x ↔ (∃ r ∈ rs, ∃ b, r.freed? s = some b ∧ x ∈ b) ∨ Covered bs x := by
  induction rs generalizing s bs with
  | nil => exact ⟨[], s, bs, rfl, h, rfl, fun x => by simp⟩
  | cons r rs ih =>
    have hr := hrs.allowed r List.mem_cons_self
    obtain ⟨answer, s₁, bs₁, hs₁, he⟩ := h.perform hr
    obtain ⟨hrest, hfreed⟩ := hrs.step h he
    obtain ⟨answers, s', bs', hs', hsound, hmin, hcovered⟩ := ih (he.sound h hr) hrest
    refine ⟨answer :: answers, s', bs', ?_, hsound, hmin.trans he.minSplit_eq, fun x => ?_⟩
    · rw [run, hs₁, ok_bind]
      simp only [hs', ok_bind]
      rfl
    · have hlater : (∃ q ∈ rs, ∃ b, q.freed? s₁ = some b ∧ x ∈ b) ↔
          ∃ q ∈ rs, ∃ b, q.freed? s = some b ∧ x ∈ b :=
        exists_congr fun q => and_congr_right fun hq => by rw [hfreed q hq]
      rw [hcovered x, hlater, he.covered_freed (hrs.releases r List.mem_cons_self) x,
        List.exists_mem_cons_iff, or_assoc, or_left_comm]

/-! ### Runs of allocations -/

/-- What requests for memory answer depends on the free blocks and the split floor alone. -/
theorem Sound.run_allocations {s₁ s₂ : Session} (h₁ : s₁.Sound bs) (h₂ : s₂.Sound bs)
    (hfloor : s₁.list.minSplit = s₂.list.minSplit) (requests : List (Nat × Nat)) :
    ∃ answers t₁ t₂ bs',
      s₁.run (requests.map fun (align, size) => .allocate align size) = .ok (answers, t₁) ∧
      s₂.run (requests.map fun (align, size) => .allocate align size) = .ok (answers, t₂) ∧
      t₁.Sound bs' ∧ t₂.Sound bs' := by
  induction requests generalizing s₁ s₂ bs with
  | nil => exact ⟨[], s₁, s₂, bs, rfl, rfl, h₁, h₂⟩
  | cons request requests ih =>
    obtain ⟨align, size⟩ := request
    have hallowed : ∀ s, (Request.allocate align size).Allowed s := fun _ => trivial
    obtain ⟨a₁, u₁, bs₁, hu₁, he₁⟩ := h₁.perform (hallowed s₁)
    obtain ⟨a₂, u₂, bs₂, hu₂, he₂⟩ := h₂.perform (hallowed s₂)
    -- Both lists look for a place among the same blocks with the same floor.
    have hsame : a₁ = a₂ ∧ bs₁ = bs₂ := by
      have hplaces : place? s₁.list.floor align size bs = place? s₂.list.floor align size bs := by
        rw [floor, floor, hfloor]
      cases he₁ with
      | granted hplace₁ _ =>
        cases he₂ with
        | granted hplace₂ _ =>
          have := hplace₁.symm.trans (hplaces.trans hplace₂)
          simp only [Option.some.injEq, Prod.mk.injEq] at this
          exact ⟨by rw [this.1], this.2⟩
        | refused hplace₂ => simp [hplaces, hplace₂] at hplace₁
      | refused hplace₁ =>
        cases he₂ with
        | granted hplace₂ _ => simp [hplaces, hplace₂] at hplace₁
        | refused _ => exact ⟨rfl, rfl⟩
    obtain ⟨rfl, rfl⟩ := hsame
    have hmin : u₁.list.minSplit = u₂.list.minSplit :=
      he₁.minSplit_eq.trans (hfloor.trans he₂.minSplit_eq.symm)
    obtain ⟨answers, t₁, t₂, bs', ht₁, ht₂, hsound₁, hsound₂⟩ :=
      ih (he₁.sound h₁ (hallowed s₁)) (he₂.sound h₂ (hallowed s₂)) hmin
    refine ⟨a₁ :: answers, t₁, t₂, bs', ?_, ?_, hsound₁, hsound₂⟩
    · rw [List.map_cons, run, hu₁, ok_bind]
      simp only [ht₁, ok_bind]
      rfl
    · rw [List.map_cons, run, hu₂, ok_bind]
      simp only [ht₂, ok_bind]
      rfl

/-! ### Confluence -/

/-- Two sound sessions whose free blocks cover the same addresses have the same free blocks. -/
theorem Sound.blocks_eq_of_covered {s₁ s₂ : Session} {bs₁ bs₂ : List FreeBlock}
    (h₁ : s₁.Sound bs₁) (h₂ : s₂.Sound bs₂) (h : ∀ x, Covered bs₁ x ↔ Covered bs₂ x) : bs₁ = bs₂ :=
  h₁.tidy.spaced.eq_of_covered h₂.tidy.spaced h

/-- Releasing what was just allocated restores the free blocks. -/
theorem Sound.release_allocated {align size p : Nat} (h : s.Sound bs)
    (hs : s.perform (.allocate align size) = .ok (some p, s')) :
    ∃ s'', s'.perform (.release p) = .ok (none, s'') ∧ s''.Sound bs := by
  obtain ⟨answer, s₁, bs₁, hs₁, he₁⟩ := h.perform (r := .allocate align size) trivial
  obtain ⟨rfl, rfl⟩ := Prod.mk.inj (Except.ok.inj (hs.symm.trans hs₁))
  cases he₁ with
  | @granted _ _ g l' bs₁ hplace ht =>
    have hsound := h.take ht
    obtain ⟨answer, s'', bs'', hs'', he⟩ :=
      hsound.perform (r := .release g.payload) (Finset.mem_insert_self ..)
    have hsound'' := he.sound hsound (Finset.mem_insert_self ..)
    cases he with
    | released hg =>
      refine ⟨_, hs'', ?_⟩
      have hcovered : ∀ x, Covered bs'' x ↔ Covered bs x := by
        intro x
        rw [hg.covered x, block_eq_of_size ht.size_eq, ht.cut.tile x]
      exact hsound''.blocks_eq_of_covered h hcovered ▸ hsound''

/-- Any two orders of releases lead to the same free blocks. -/
theorem Sound.run_perm (h : s.Sound bs) (hrs : Pending s rs) (hperm : rs.Perm rs') :
    ∃ answers answers' s₁ s₂ bs', s.run rs = .ok (answers, s₁) ∧ s.run rs' = .ok (answers', s₂) ∧
      s₁.Sound bs' ∧ s₂.Sound bs' := by
  obtain ⟨answers, s₁, bs₁, hs₁, hsound₁, -, hcovered₁⟩ := h.run_releases hrs
  obtain ⟨answers', s₂, bs₂, hs₂, hsound₂, -, hcovered₂⟩ := h.run_releases (hrs.perm hperm)
  have hcovered : ∀ x, Covered bs₂ x ↔ Covered bs₁ x := by
    intro x
    rw [hcovered₁ x, hcovered₂ x]
    exact or_congr_left (exists_congr fun r => and_congr_left fun _ => hperm.symm.mem_iff)
  exact ⟨answers, answers', s₁, s₂, bs₁, hs₁, hs₂, hsound₁,
    hsound₂.blocks_eq_of_covered hsound₁ hcovered ▸ hsound₂⟩

/-- Releasing all granted blocks leaves the pools free. -/
theorem Sound.run_drain {ps : List Nat} (h : s.Sound bs) (hnodup : ps.Nodup)
    (hps : ∀ p, p ∈ ps ↔ p ∈ s.live) :
    ∃ answers s' bs', s.run (ps.map .release) = .ok (answers, s') ∧ s'.Sound bs' ∧
      s'.list.minSplit = s.list.minSplit ∧ ∀ x, Covered bs' x ↔ Covered s.pools x := by
  have hpending : Pending s (ps.map .release) := by
    refine ⟨?_, ?_, ?_⟩
    · exact List.forall_mem_map.2 fun p _ => trivial
    · exact List.forall_mem_map.2 fun p hp => (hps p).1 hp
    · exact List.pairwise_map.2 hnodup
  obtain ⟨answers, s', bs', hs', hsound, hmin, hcovered⟩ := h.run_releases hpending
  refine ⟨answers, s', bs', hs', hsound, hmin, fun x => ?_⟩
  have hgranted : (∃ r ∈ ps.map Request.release, ∃ b, r.freed? s = some b ∧ x ∈ b) ↔
      s.Granted x := by
    simp [Request.freed?, Granted, hps]
  rw [hcovered x, hgranted, h.tile x, or_comm]

/-- Taking regions in over fresh memory leaves their pools free. -/
theorem run_regions {regions : List Region} (minSplit : Nat) (mem : Memory)
    (hplaced : ∀ r ∈ regions, r.start ≠ 0 ∧ r.start + r.len < wordLimit)
    (hapart : regions.Pairwise Region.Disjoint) :
    ∃ answers s' bs', (start minSplit mem).run (regions.map .addRegion) = .ok (answers, s') ∧
      s'.Sound bs' ∧ s'.list.minSplit = minSplit ∧
      ∀ x, Covered bs' x ↔ Covered (regions.filterMap Region.pool?) x := by
  have hpending : Pending (start minSplit mem) (regions.map .addRegion) := by
    refine ⟨?_, ?_, ?_⟩
    · exact List.forall_mem_map.2 fun r _ => trivial
    · exact List.forall_mem_map.2 fun r hr => ⟨(hplaced r hr).1, (hplaced r hr).2, by simp [start]⟩
    · exact List.pairwise_map.2 hapart
  obtain ⟨answers, s', bs', hs', hsound, hmin, hcovered⟩ :=
    (sound_start minSplit mem).run_releases hpending
  refine ⟨answers, s', bs', hs', hsound, hmin, fun x => ?_⟩
  rw [hcovered x, or_iff_left (covered_nil x), Covered]
  constructor
  · rintro ⟨q, hq, b, hb, hx⟩
    obtain ⟨r, hr, rfl⟩ := List.mem_map.1 hq
    exact ⟨b, List.mem_filterMap.2 ⟨r, hr, hb⟩, hx⟩
  · rintro ⟨b, hb, hx⟩
    obtain ⟨r, hr, hpool⟩ := List.mem_filterMap.1 hb
    exact ⟨_, List.mem_map_of_mem hr, b, hpool, hx⟩

/-- In every reachable session: releasing undoes allocating; pending releases lead to the same free
blocks in any order; and once all granted blocks are released the free blocks are those of a fresh
list with the same regions, so requests for memory are answered alike. -/
theorem Reachable.confluent (h : Reachable s) :
    (∀ align size p s', s.perform (.allocate align size) = .ok (some p, s') →
      ∃ s'' bs, s'.perform (.release p) = .ok (none, s'') ∧ s.list.blocks = .ok bs ∧
        s''.list.blocks = .ok bs) ∧
    (∀ rs rs', Pending s rs → rs.Perm rs' →
      ∃ answers answers' s₁ s₂ bs, s.run rs = .ok (answers, s₁) ∧ s.run rs' = .ok (answers', s₂) ∧
        s₁.list.blocks = .ok bs ∧ s₂.list.blocks = .ok bs) ∧
    ∀ (ps : List Nat) (regions : List Region) (mem : Memory),
      ps.Nodup → (∀ p, p ∈ ps ↔ p ∈ s.live) → s.regions.Perm regions →
      ∃ answers answers' s₁ s₂ bs, s.run (ps.map .release) = .ok (answers, s₁) ∧
        (Session.start s.list.minSplit mem).run (regions.map .addRegion) = .ok (answers', s₂) ∧
        s₁.list.blocks = .ok bs ∧ s₂.list.blocks = .ok bs ∧
        ∀ requests : List (Nat × Nat), ∃ granted t₁ t₂,
          s₁.run (requests.map fun (align, size) => .allocate align size) = .ok (granted, t₁) ∧
          s₂.run (requests.map fun (align, size) => .allocate align size) = .ok (granted, t₂) := by
  obtain ⟨bs, hsound⟩ := h.sound
  refine ⟨fun align size p s' hs' => ?_, fun rs rs' hrs hperm => ?_,
    fun ps regions mem hnodup hps hperm => ?_⟩
  · obtain ⟨s'', hs'', hsound''⟩ := hsound.release_allocated hs'
    exact ⟨s'', bs, hs'', hsound.tidy.holds.blocks_eq, hsound''.tidy.holds.blocks_eq⟩
  · obtain ⟨answers, answers', s₁, s₂, bs', hs₁, hs₂, hsound₁, hsound₂⟩ :=
      hsound.run_perm hrs hperm
    exact ⟨answers, answers', s₁, s₂, bs', hs₁, hs₂, hsound₁.tidy.holds.blocks_eq,
      hsound₂.tidy.holds.blocks_eq⟩
  · obtain ⟨answers, s₁, bs₁, hs₁, hsound₁, hmin₁, hcovered₁⟩ := hsound.run_drain hnodup hps
    obtain ⟨answers', s₂, bs₂, hs₂, hsound₂, hmin₂, hcovered₂⟩ :=
      run_regions s.list.minSplit mem (fun r hr => hsound.placed r (hperm.mem_iff.2 hr))
        (hperm.pairwise hsound.apart Region.Disjoint.symm)
    have hpools : ∀ x, Covered s.pools x ↔ Covered (regions.filterMap Region.pool?) x := by
      intro x
      exact exists_congr fun b => and_congr_left fun _ => (hperm.filterMap _).mem_iff
    obtain rfl : bs₁ = bs₂ := hsound₁.blocks_eq_of_covered hsound₂ fun x => by
      rw [hcovered₁ x, hcovered₂ x, hpools x]
    refine ⟨answers, answers', s₁, s₂, bs₁, hs₁, hs₂, hsound₁.tidy.holds.blocks_eq,
      hsound₂.tidy.holds.blocks_eq, fun requests => ?_⟩
    obtain ⟨granted, t₁, t₂, -, ht₁, ht₂, -⟩ :=
      hsound₁.run_allocations hsound₂ (hmin₁.trans hmin₂.symm) requests
    exact ⟨granted, t₁, t₂, ht₁, ht₂⟩

/-- Releasing both granted blocks of the sample, and taking its regions in the other way round over
fresh memory, leave one free block over both pools, and grants at the same addresses follow. -/
theorem confluent_sample :
    ∃ answers answers' s₁ s₂,
      sample.run [.release 4288, .release 4160] = .ok (answers, s₁) ∧
      (start sample.list.minSplit {}).run [.addRegion ⟨4096, 256⟩, .addRegion ⟨4352, 256⟩] =
        .ok (answers', s₂) ∧
      s₁.list.blocks = .ok [⟨4096, 488⟩] ∧ s₂.list.blocks = .ok [⟨4096, 488⟩] ∧
      ∃ t₁ t₂,
        s₁.run [.allocate 64 100, .allocate 8 512] = .ok ([some 4160, none], t₁) ∧
        s₂.run [.allocate 64 100, .allocate 8 512] = .ok ([some 4160, none], t₂) := by
  have hlive : sample.live = {4288, 4160} := by decide +kernel
  have hregions : sample.regions.Perm [⟨4096, 256⟩, ⟨4352, 256⟩] := by decide +kernel
  obtain ⟨-, -, hdrain⟩ := Reachable.confluent sample_reachable
  obtain ⟨answers, answers', s₁, s₂, bs, hs₁, hs₂, hbs₁, hbs₂, hrequests⟩ :=
    hdrain [4288, 4160] [⟨4096, 256⟩, ⟨4352, 256⟩] {} (by decide) (by simp [hlive]) hregions
  obtain ⟨granted, t₁, t₂, ht₁, ht₂⟩ := hrequests [(64, 100), (8, 512)]
  -- The fresh list can be run here, and the drained one holds and answers the same.
  let fresh := (start sample.list.minSplit {}).run [.addRegion ⟨4096, 256⟩, .addRegion ⟨4352, 256⟩]
  have hblocks : fresh.toOption.bind (fun out => out.2.list.blocks.toOption) =
      some [⟨4096, 488⟩] := by decide +kernel
  have hgranted : fresh.toOption.bind (fun out =>
      (out.2.run [.allocate 64 100, .allocate 8 512]).toOption.map Prod.fst) =
      some [some 4160, none] := by decide +kernel
  have hfresh : fresh = .ok (answers', s₂) := hs₂
  have hanswered : s₂.run [.allocate 64 100, .allocate 8 512] = .ok (granted, t₂) := ht₂
  rw [hfresh, Except.toOption, Option.bind_some, hbs₂] at hblocks
  rw [hfresh, Except.toOption, Option.bind_some, hanswered] at hgranted
  obtain rfl : bs = [⟨4096, 488⟩] := Option.some.inj hblocks
  obtain rfl : granted = [some 4160, none] := Option.some.inj hgranted
  exact ⟨answers, answers', s₁, s₂, hs₁, hs₂, hbs₁, hbs₂, t₁, t₂, ht₁, ht₂⟩

end Session

end PoolAlloc
