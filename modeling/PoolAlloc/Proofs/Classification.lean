import PoolAlloc.Proofs.FirstFit
import PoolAlloc.Proofs.HeapSession
/-!
# PoolAlloc.Proofs.Classification

Why an aligned request to a shared heap is refused, and that every entry point says so.

Arguments that make no sense are refused before the lock is taken. Under the lock the list answers
no address for one reason only, that no free block has room, although its search gives up at several
places: where a size cannot be rounded, where a slack is no word, and where the list ends
(`Sound.tryAlignedMalloc_eq`). Room is described over all naturals and for the alignment as it is
asked for (`FreeBlock.HasRoom`); the list itself never goes below the granularity.

Nine entry points make such requests. All of them are made of one, so they leave the same heap, and
they differ in how they tell the result (`Alike`).

Main statement: `HeapSession.Reachable.classifies`.
-/

namespace PoolAlloc

open FreeList Heap

/-! ### Room -/

/-- A free block has room for `size` bytes, in whole units, at a multiple of `align`: where its
payload begins, or so far behind that the split floor admits a block in front. -/
def FreeBlock.HasRoom (floor align size : Nat) (b : FreeBlock) : Prop :=
  ∃ q, align ∣ q ∧ (q = b.payload ∨ b.payload + floor ≤ q) ∧
    q + roundUp size granularity ≤ b.payload + b.size

variable {floor align size : Nat} {bs : List FreeBlock} {b : FreeBlock}

/-- A block has room where the search may place a payload. -/
theorem FreeBlock.Valid.hasRoom_iff (hb : b.Valid) (halign : IsAlignment align) :
    b.HasRoom floor align size ↔ ∃ q, Placement floor align size b q := by
  constructor
  · rintro ⟨q, hdvd, hslack, hroom⟩
    rcases Nat.le_total align granularity with hle | hge
    · -- Below the granularity every payload is aligned where it begins.
      have hfront : max align granularity ∣ b.payload := by
        rw [Nat.max_eq_right hle]
        exact Nat.dvd_add hb.dvd_start (by decide)
      exact ⟨b.payload, hfront, Or.inl rfl, by omega⟩
    · exact ⟨q, by rwa [Nat.max_eq_left hge], hslack, hroom⟩
  · rintro ⟨q, hq⟩
    exact ⟨q, Nat.dvd_trans (dvd_max_granularity halign) hq.aligned, hq.slack, hq.room⟩

/-- There is no address for a request if no block has room. -/
theorem placements_eq_empty_iff (hvalid : ∀ b ∈ bs, b.Valid) (halign : IsAlignment align) :
    placements floor align size bs = ∅ ↔ ∀ b ∈ bs, ¬ b.HasRoom floor align size := by
  rw [Set.eq_empty_iff_forall_notMem]
  constructor
  · intro hempty b hb hroom
    obtain ⟨q, hq⟩ := ((hvalid b hb).hasRoom_iff halign).1 hroom
    exact hempty q ⟨b, hb, hq⟩
  · rintro hnone q ⟨b, hb, hq⟩
    exact hnone b hb (((hvalid b hb).hasRoom_iff halign).2 ⟨q, hq⟩)

/-! ### One result, told in three ways -/

/-- A result as an error number, zero for success, and the address that the caller's pointer is
overwritten with. -/
def AllocError.status : Except AllocError Nat → Nat × Option Nat
  | .ok ptr => (0, some ptr)
  | .error invalidArgument => (invalidArgumentNumber, none)
  | .error outOfMemory => (outOfMemoryNumber, none)

/-- Asked for `size` bytes at a multiple of `align`, every entry point tells the same result and
leaves the same heap. -/
structure Alike (align size : Nat) (run : Run Heap) (result : Except AllocError Nat)
    (run' : Run Heap) : Prop where
  tryAlignedMalloc : Heap.tryAlignedMalloc align size run = .ok result run'
  alignedMalloc : Heap.alignedMalloc align size run = .ok result.toOption run'
  memalign : Heap.memalign align size run = .ok result.toOption run'
  posixMemalign : Heap.posixMemalign align size run = .ok (AllocError.status result) run'
  allocLayout : ∀ layout : Layout, layout.align = align → layout.size = size →
    Heap.allocLayout layout run = .ok result.toOption run'
  cAlignedMalloc : CInterface.alignedMalloc align size run = .ok result.toOption run'
  cMemalign : CInterface.memalign align size run = .ok result.toOption run'
  cAlignedAlloc : CInterface.alignedAlloc align size run = .ok result.toOption run'
  cPosixMemalign : CInterface.posixMemalign align size run = .ok (AllocError.status result) run'

variable {run run' : Run Heap} {result : Except AllocError Nat}

theorem alike_of_tryAlignedMalloc (h : Heap.tryAlignedMalloc align size run = .ok result run') :
    Alike align size run result run' := by
  have haligned : Heap.alignedMalloc align size run = .ok result.toOption run' := by
    rw [Heap.alignedMalloc, Action.bind_apply, h]
    rfl
  have hposix : Heap.posixMemalign align size run = .ok (AllocError.status result) run' := by
    rw [Heap.posixMemalign, Action.bind_apply, h]
    rcases result with (_ | _) | ptr <;> rfl
  refine ⟨h, haligned, haligned, hposix, ?_, haligned, haligned, haligned, hposix⟩
  rintro layout rfl rfl
  exact haligned

/-! ### The result -/

/-- Arguments that make no sense are refused without a look at the heap. -/
theorem Heap.tryAlignedMalloc_of_invalid (h : size = 0 ∨ ¬ IsAlignment align) :
    Heap.tryAlignedMalloc align size run = .ok (.error .invalidArgument) run := by
  rw [Heap.tryAlignedMalloc, if_pos h]
  rfl

/-- Any other request is answered as the list answers it. -/
theorem Heap.tryAlignedMalloc_of_valid {answer : Option Nat} {l : FreeList}
    (hfree : run.object.lock.isHeld? ≠ some true) (hsize : size ≠ 0) (halign : IsAlignment align)
    (hl : (freeList run).allocateAligned align size = .ok (answer, l)) :
    Heap.tryAlignedMalloc align size run =
      .ok (answer.elim (.error .outOfMemory) .ok) (leave run l) := by
  rw [Heap.tryAlignedMalloc, if_neg (not_or.2 ⟨hsize, not_not.2 halign⟩), Action.bind_apply,
    locked_eq hfree, hl]
  cases answer <;> rfl

/-- A request for memory does not change the split floor. -/
theorem Session.Sound.allocateAligned_minSplit {s : Session} {answer : Option Nat} {l' : FreeList}
    (h : s.Sound bs) (hl : s.list.allocateAligned align size = .ok (answer, l')) :
    l'.minSplit = s.list.minSplit := by
  obtain ⟨answer', s', bs', hs', he⟩ := h.perform (r := .allocate align size) trivial
  have hl' : s.list.allocateAligned align size = .ok (answer', s'.list) := onList_of_perform hs'
  obtain ⟨-, rfl⟩ := Prod.mk.inj (Except.ok.inj (hl.symm.trans hl'))
  exact he.minSplit_eq

namespace HeapSession

variable {u : HeapSession}

/-- What an aligned request to a heap with the free blocks `bs` answers and leaves. -/
structure Classified (u : HeapSession) (bs : List FreeBlock) (align size : Nat)
    (result : Except AllocError Nat) (run' : Run Heap) : Prop where
  /-- It is refused for its arguments where they make no sense. -/
  invalid : result = .error .invalidArgument ↔ size = 0 ∨ ¬ IsAlignment align
  /-- It is refused for want of memory where they do, and no free block has room. -/
  exhausted : result = .error .outOfMemory ↔
    size ≠ 0 ∧ IsAlignment align ∧ ∀ b ∈ bs, ¬ b.HasRoom (freeList u.run).floor align size
  /-- The address, and what becomes of the free list, are as the list itself has them. -/
  asList : (freeList u.run).allocateAligned align size = .ok (result.toOption, freeList run')
  lock_eq : run'.object.lock = u.run.object.lock

theorem Sound.classified (h : u.Sound bs) (align size : Nat) :
    ∃ result run', Heap.tryAlignedMalloc align size u.run = .ok result run' ∧
      u.Classified bs align size result run' := by
  obtain ⟨answer, l', hl', hsome, hnone⟩ := h.list.allocateAligned_eq align size
  by_cases hbad : size = 0 ∨ ¬ IsAlignment align
  · have hrefused : ¬ (size ≠ 0 ∧ IsAlignment align) := by
      rintro ⟨hsize, halign⟩
      exact hbad.elim hsize fun hna => hna halign
    obtain rfl : answer = none := Option.eq_none_iff_forall_ne_some.2 fun q hq =>
      hrefused ⟨(hsome q hq).1, (hsome q hq).2.1⟩
    obtain rfl : l' = freeList u.run := eq_of_allocateAligned_none hl'
    exact ⟨_, u.run, tryAlignedMalloc_of_invalid hbad, iff_of_true rfl hbad,
      iff_of_false nofun fun hroom => hrefused ⟨hroom.1, hroom.2.1⟩, hl', rfl⟩
  · obtain ⟨hsize, hnot⟩ := not_or.1 hbad
    have halign := not_not.1 hnot
    have hplaces : placements (freeList u.run).floor align size bs = ∅ ↔
        ∀ b ∈ bs, ¬ b.HasRoom (freeList u.run).floor align size :=
      placements_eq_empty_iff h.list.tidy.valid halign
    have hleave : freeList (leave u.run l') = l' :=
      freeList_leave (h.list.allocateAligned_minSplit hl')
    refine ⟨_, _, tryAlignedMalloc_of_valid h.free hsize halign hl', ?_⟩
    cases answer with
    | none =>
      have hempty := ((hnone rfl).resolve_left hsize).resolve_left hnot
      exact ⟨iff_of_false nofun hbad, iff_of_true rfl ⟨hsize, halign, hplaces.1 hempty⟩,
        hleave.symm ▸ hl', rfl⟩
    | some q =>
      have hq := (hsome q rfl).2.2.1
      refine ⟨iff_of_false nofun hbad, iff_of_false nofun fun hroom => ?_, hleave.symm ▸ hl', rfl⟩
      exact Set.notMem_empty q (hplaces.2 hroom.2.2 ▸ hq)

/-- A heap grants what its list grants. -/
theorem Sound.alignedMalloc_eq (h : u.Sound bs) (align size : Nat) :
    ∃ answer run', Heap.alignedMalloc align size u.run = .ok answer run' ∧
      (freeList u.run).allocateAligned align size = .ok (answer, freeList run') := by
  obtain ⟨result, run', hrun', hclassified⟩ := h.classified align size
  exact ⟨result.toOption, run', (alike_of_tryAlignedMalloc hrun').alignedMalloc, hclassified.asList⟩

/-- In every reachable heap an aligned request returns, it is refused for its arguments or for want
of memory exactly where it should be, and all entry points agree on its result. -/
theorem Reachable.classifies (h : u.Reachable) (align size : Nat) :
    ∃ bs result run', (freeList u.run).blocks = .ok bs ∧
      u.Classified bs align size result run' ∧ Alike align size u.run result run' := by
  obtain ⟨bs, hsound⟩ := h.sound
  obtain ⟨result, run', hrun', hclassified⟩ := hsound.classified align size
  exact ⟨bs, result, run', hsound.list.tidy.holds.blocks_eq, hclassified,
    alike_of_tryAlignedMalloc hrun'⟩

/-- The sample heap has 64 free bytes at a multiple of 64 and grants them; 65 bytes it has not. -/
theorem classified_sample : ∃ (bs : List FreeBlock) (run₁ run₂ : Run Heap),
    (freeList sample.run).blocks = .ok bs ∧
    CInterface.posixMemalign 64 64 sample.run = .ok (0, some 4288) run₁ ∧
    (freeList sample.run).allocateAligned 64 64 = .ok (some 4288, freeList run₁) ∧
    CInterface.posixMemalign 64 65 sample.run = .ok (12, none) run₂ ∧
    ∀ b ∈ bs, ¬ b.HasRoom (freeList sample.run).floor 64 65 := by
  obtain ⟨bs, granted, run₁, hbs, hclassified₁, halike₁⟩ :=
    Reachable.classifies sample_reachable 64 64
  obtain ⟨bs', refused, run₂, hbs', hclassified₂, halike₂⟩ :=
    Reachable.classifies sample_reachable 64 65
  obtain rfl := Except.ok.inj (hbs.symm.trans hbs')
  have hgranted : EStateM.run' (Heap.tryAlignedMalloc 64 64) sample.run = some (.ok 4288) := by
    decide +kernel
  have hrefused : EStateM.run' (Heap.tryAlignedMalloc 64 65) sample.run =
      some (.error .outOfMemory) := by
    decide +kernel
  obtain rfl := Option.some.inj ((Action.answer_of_ok halike₁.tryAlignedMalloc).symm.trans hgranted)
  obtain rfl := Option.some.inj ((Action.answer_of_ok halike₂.tryAlignedMalloc).symm.trans hrefused)
  exact ⟨bs, run₁, run₂, hbs, halike₁.cPosixMemalign, hclassified₁.asList, halike₂.cPosixMemalign,
    (hclassified₂.exhausted.1 rfl).2.2⟩

end HeapSession

end PoolAlloc
