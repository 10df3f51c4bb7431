import Mathlib.Data.Finset.Image
import PoolAlloc.Proofs.Aligning
import PoolAlloc.Proofs.HeapBackends
/-!
# PoolAlloc.Proofs.StoredOffset

How the block of an aligned payload is found again.

The distance from the block to the payload is stored in the block itself, in two bytes that no
client may write. An `AlignerSession` keeps beside an aligner which blocks clients asked the backend
for, and which ones the aligner asked for and where it put the payloads. `Reachable` collects what
can be reached by requests to either, in any order, while clients write into what they were granted.

An aligned grant is a plain grant, two written bytes and a change of hands from the clients to the
aligner (`Sound.place`); what is given back changes hands first (`Sound.unplace`). So the backend is
asked what any client could ask it, and what holds of clients' bytes holds of the stored distances.

Main statement: `stored_offset_round_trip`.
-/

namespace PoolAlloc

open FreeList Heap OffsetAligned

/-! ### The requests to an aligner -/

namespace OffsetAligned

variable {β α : Type} [Backend β] {align size block ptr : Nat} {run mid : Run (OffsetAligned β)}

/-- What an aligner asks its backend for. The distance to a payload at a multiple of a larger
alignment does not fit into its two bytes. -/
structure Admissible (align size : Nat) : Prop where
  size_pos : 1 ≤ size
  isAlignment : IsAlignment align
  align_le : align ≤ 32768
  fits : size + align + 1 < wordLimit

theorem maxOffset_eq (h : IsAlignment align) : maxOffset align = align + 1 := by
  have hpos : 0 < align := Nat.pos_of_isPowerOfTwo h
  have htwo : offsetSize = 2 := rfl
  rw [maxOffset]
  omega

/-- Up to which alignment the distances fit into two bytes. -/
theorem maxOffset_le_iff (h : IsAlignment align) :
    maxOffset align ≤ offsetLimit ↔ align ≤ 32768 := by
  have hlimit : offsetLimit = 65535 := rfl
  rw [maxOffset_eq h, hlimit]
  refine ⟨fun hle => ?_, fun hle => by omega⟩
  obtain ⟨k, rfl⟩ := h
  have hk : k < 16 := (Nat.pow_lt_pow_iff_right (by decide)).1 (show 2 ^ k < 2 ^ 16 by omega)
  exact Nat.pow_le_pow_right (by decide) (Nat.le_of_lt_succ hk)

/-- Anything else is refused at once. -/
theorem alignedAlloc_of_not (h : ¬ Admissible align size) :
    alignedAlloc align size run = .ok none run := by
  unfold alignedAlloc
  split
  · rfl
  · rename_i hvalid
    obtain ⟨hpos, halign, hmax⟩ : size ≠ 0 ∧ IsAlignment align ∧ maxOffset align ≤ offsetLimit := by
      simpa only [not_or, not_not, Nat.not_lt] using hvalid
    cases henough : addChecked size (maxOffset align) with
    | none => rfl
    | some enough =>
      obtain ⟨hfits, -⟩ := addChecked_eq_some.1 henough
      rw [maxOffset_eq halign, ← Nat.add_assoc] at hfits
      exact absurd ⟨Nat.pos_of_ne_zero hpos, halign, (maxOffset_le_iff halign).1 hmax, hfits⟩ h

theorem admissible_of_some (h : alignedAlloc align size run = .ok (some ptr) mid) :
    Admissible align size := by
  by_contra hnot
  have hnone := h.symm.trans (alignedAlloc_of_not hnot)
  cases hnone

theorem Admissible.not_refused (h : Admissible align size) :
    ¬ (size = 0 ∨ ¬ IsAlignment align ∨ offsetLimit < maxOffset align) := by
  simp only [not_or, not_not, Nat.not_lt]
  exact ⟨Nat.ne_of_gt h.size_pos, h.isAlignment, (maxOffset_le_iff h.isAlignment).2 h.align_le⟩

/-- What the backend is asked for leaves room for the slack and the two bytes. -/
theorem Admissible.enough_eq (h : Admissible align size) :
    addChecked size (maxOffset align) = some (size + align + 1) := by
  rw [maxOffset_eq h.isAlignment]
  exact addChecked_eq_some.2 ⟨h.fits, rfl⟩

theorem alignedAlloc_of_none (h : Admissible align size)
    (hblock : onBackend (Backend.alloc (size + align + 1)) run = .ok none mid) :
    alignedAlloc align size run = .ok none mid := by
  simp only [alignedAlloc, if_neg h.not_refused, h.enough_eq, Action.bind_apply, hblock,
    Action.pure_apply]

/-- The payload goes to a multiple of the alignment in the block, and the distance is stored. -/
theorem alignedAlloc_of_some (h : Admissible align size)
    (hblock : onBackend (Backend.alloc (size + align + 1)) run = .ok (some block) mid)
    (hword : block + (align + 1) < wordLimit) :
    ∃ offset, 2 ≤ offset ∧ offset ≤ align + 1 ∧ align ∣ block + offset ∧
      alignedAlloc align size run =
        .ok (some (block + offset))
          { mid with mem := storeOffset mid.mem (block + offset) offset } := by
  have hmax := maxOffset_eq h.isAlignment
  obtain ⟨offset, hoffset, hmin, hle, hdvd⟩ := offsetIn_eq h.isAlignment (hmax.symm ▸ hword)
  refine ⟨offset, hmin, hmax ▸ hle, hdvd, ?_⟩
  simp only [alignedAlloc, if_neg h.not_refused, h.enough_eq, Action.bind_apply, hblock, hoffset,
    Action.ofFault, Action.modifyMem_apply, Action.pure_apply]

/-- The block of a payload is found by the distance that is stored in front of it. -/
theorem alignedFree_eq (ptr : Nat) (run : Run (OffsetAligned β)) :
    alignedFree (some ptr) run =
      onBackend (Backend.free (some (ptr - storedOffset run.mem ptr))) run := rfl

theorem storedOffset_congr {m m' : Memory} (h : ∀ x, ptr - 2 ≤ x → x < ptr → m'.get x = m.get x)
    (hptr : 2 ≤ ptr) : storedOffset m' ptr = storedOffset m ptr :=
  Memory.readNat_congr fun x h₁ h₂ => h x h₁ (by
    have htwo : offsetSize = 2 := rfl
    omega)

theorem storedOffset_storeOffset {m : Memory} {offset : Nat} (h : offset < 65536) :
    storedOffset (storeOffset m ptr offset) ptr = offset :=
  (Memory.readNat_writeNat ..).trans (Nat.mod_eq_of_lt h)

/-! ### The run of the heap behind an aligner -/

variable [HeapBacked β]

/-- The run of the heap behind the backend of an aligner. -/
def heapRun (run : Run (OffsetAligned β)) : Run Heap :=
  run.part fun o => HeapBacked.heap o.backend

/-- Where the backend does what its heap does, an operation of the heap returns on the aligner. -/
theorem onBackend_of_heap {act : Action β α} {act' : Action Heap α} {run' : Run Heap} {x : α}
    (hact : act (run.part OffsetAligned.backend) =
      Action.onPart HeapBacked.heap HeapBacked.setHeap act' (run.part OffsetAligned.backend))
    (h : act' (heapRun run) = .ok x run') :
    ∃ run₁, onBackend act run = .ok x run₁ ∧ heapRun run₁ = run' := by
  have hheap : act' ((run.part OffsetAligned.backend).part HeapBacked.heap) = .ok x run' := h
  refine ⟨_, Action.onPart_of_ok (hact.trans (Action.onPart_of_ok hheap)), ?_⟩
  simp only [heapRun, Run.part, HeapBacked.heap_setHeap]

/-- Preparing the backend leaves its heap as it is. -/
theorem heapRun_init (h : onBackend Backend.init run = .ok () mid) :
    (heapRun mid).object = (heapRun run).object ∧ (heapRun mid).mem = (heapRun run).mem := by
  obtain ⟨s, hs, rfl⟩ := Action.ok_of_onPart h
  exact HeapBacked.init_keeps _ _ hs

end OffsetAligned

/-! ### Aligned payloads -/

/-- An aligned payload in a block of the backend. -/
structure Placed where
  /-- Where the payload starts. -/
  ptr : Nat
  /-- The size that was asked for. -/
  size : Nat
  /-- The alignment that was asked for. -/
  align : Nat
  /-- The block, by the address that the backend answered. -/
  block : Nat
  deriving DecidableEq

namespace Placed

variable {t : Placed} {l l' : FreeList} {u u' : HeapSession}

/-- The payload is aligned and lies in its block, and the distance is stored in front of it. -/
structure Intact (t : Placed) (l : FreeList) : Prop where
  dvd : t.align ∣ t.ptr
  min : 2 ≤ t.ptr - t.block
  max : t.ptr - t.block ≤ t.align + 1
  room : t.ptr + t.size ≤ t.block + l.usableSize t.block
  stored : storedOffset l.mem t.ptr = t.ptr - t.block

/-- It stays so while the block keeps its size and the two bytes stay. -/
theorem Intact.congr (h : t.Intact l) (hsize : l'.usableSize t.block = l.usableSize t.block)
    (hget : ∀ x, t.ptr - 2 ≤ x → x < t.ptr → l'.mem.get x = l.mem.get x) : t.Intact l' where
  dvd := h.dvd
  min := h.min
  max := h.max
  room := hsize.symm ▸ h.room
  stored := by
    have hmin := h.min
    exact (storedOffset_congr hget (by omega)).trans h.stored

/-- The two bytes lie in the payload of the block. -/
theorem Intact.of_stays (h : t.Intact u.session.list) (hs : u.Stays u' t.block) :
    t.Intact u'.session.list := by
  have hmin := h.min
  have hroom := h.room
  exact h.congr hs.size_eq fun x h₁ h₂ => hs.get_eq x (by omega) (by omega)

end Placed

/-! ### An aligner in use -/

/-- An aligner in use. -/
structure AlignerSession (β : Type) where
  /-- The aligner, the memory and what was observed so far. -/
  run : Run (OffsetAligned β)
  /-- The regions that were offered to the backend. -/
  regions : List Region
  /-- The blocks that clients asked the backend for. -/
  plain : Finset Nat
  /-- The aligned payloads. -/
  placed : Finset Placed

namespace AlignerSession

variable {β : Type} [Backend β] [HeapBacked β]

/-- The heap behind the backend in use: to the heap, the aligner is one of its clients. -/
def heap (s : AlignerSession β) : HeapSession :=
  ⟨heapRun s.run, s.regions, s.plain ∪ s.placed.image Placed.block⟩

/-- The free list in use. -/
def list (s : AlignerSession β) : FreeList := s.heap.session.list

/-- Whether the backend passes requests on. -/
def Ready (s : AlignerSession β) : Prop := HeapBacked.Ready s.run.object.backend

/-- What a client may write: what it was granted. -/
def Writable (s : AlignerSession β) (x : Nat) : Prop :=
  (∃ t ∈ s.placed, t.ptr ≤ x ∧ x < t.ptr + t.size) ∨
    ∃ p ∈ s.plain, p ≤ x ∧ x < p + s.list.usableSize p

/-- An aligner in front of a heap that may be in use already. -/
def inFrontOf (backend : β) (u : HeapSession) : AlignerSession β :=
  ⟨⟨⟨backend⟩, u.run.mem, u.run.trace⟩, u.regions, u.live, ∅⟩

/-- The aligner in use after a client wrote a byte. -/
def write (s : AlignerSession β) (addr : Nat) (byte : UInt8) : AlignerSession β :=
  { s with run := { s.run with mem := s.run.mem.set addr byte } }

/-- What clients that keep the contract can lead to. A payload is recorded with the block that the
backend grants for it. -/
inductive Reachable : AlignerSession β → Prop
  | start {backend : β} {u : HeapSession} (h : u.Reachable)
      (hheap : HeapBacked.heap backend = u.run.object) : Reachable (inFrontOf backend u)
  | init {s : AlignerSession β} {run : Run (OffsetAligned β)} (h : Reachable s)
      (hrun : onBackend Backend.init s.run = .ok () run) : Reachable { s with run }
  | addBlock {s : AlignerSession β} {start len : Nat} {run : Run (OffsetAligned β)}
      (h : Reachable s) (hregion : (Request.addRegion ⟨start, len⟩).Allowed s.heap.session)
      (hrun : onBackend (Backend.addBlock start len) s.run = .ok () run) :
      Reachable { s with run, regions := ⟨start, len⟩ :: s.regions }
  | alloc {s : AlignerSession β} {size : Nat} {answer : Option Nat} {run : Run (OffsetAligned β)}
      (h : Reachable s) (hready : s.Ready)
      (hrun : onBackend (Backend.alloc size) s.run = .ok answer run) :
      Reachable { s with run, plain := answer.elim s.plain (insert · s.plain) }
  | free {s : AlignerSession β} {ptr : Option Nat} {run : Run (OffsetAligned β)}
      (h : Reachable s) (hready : s.Ready) (hptr : ∀ p, ptr = some p → p ∈ s.plain)
      (hrun : onBackend (Backend.free ptr) s.run = .ok () run) :
      Reachable { s with run, plain := ptr.elim s.plain s.plain.erase }
  | alignedAlloc {s : AlignerSession β} {align size block ptr : Nat}
      {mid run : Run (OffsetAligned β)} (h : Reachable s) (hready : s.Ready)
      (hblock : onBackend (Backend.alloc (size + align + 1)) s.run = .ok (some block) mid)
      (hrun : alignedAlloc align size s.run = .ok (some ptr) run) :
      Reachable { s with run, placed := insert ⟨ptr, size, align, block⟩ s.placed }
  | refused {s : AlignerSession β} {align size : Nat} {run : Run (OffsetAligned β)}
      (h : Reachable s) (hready : s.Ready)
      (hrun : alignedAlloc align size s.run = .ok none run) : Reachable { s with run }
  | alignedFree {s : AlignerSession β} {t : Option Placed} {run : Run (OffsetAligned β)}
      (h : Reachable s) (hready : s.Ready) (ht : ∀ t', t = some t' → t' ∈ s.placed)
      (hrun : alignedFree (t.map Placed.ptr) s.run = .ok () run) :
      Reachable { s with run, placed := t.elim s.placed s.placed.erase }
  | write {s : AlignerSession β} {addr : Nat} (byte : UInt8) (h : Reachable s)
      (haddr : s.Writable addr) : Reachable (s.write addr byte)

/-! ### The invariant -/

/-- The heap is sound, and the distances of the aligned payloads are as they were stored. -/
structure Sound (s : AlignerSession β) (bs : List FreeBlock) : Prop where
  heap : s.heap.Sound bs
  /-- No block is the aligner's and a client's. -/
  apart : ∀ t ∈ s.placed, t.block ∉ s.plain
  /-- No block has two payloads. -/
  distinct : ∀ t ∈ s.placed, ∀ t' ∈ s.placed, t.block = t'.block → t = t'
  intact : ∀ t ∈ s.placed, t.Intact s.list

variable {s s' : AlignerSession β} {bs bs' : List FreeBlock} {t : Placed}
  {align size block : Nat} {mid run : Run (OffsetAligned β)}

theorem block_mem (ht : t ∈ s.placed) : t.block ∈ s.heap.live :=
  Finset.mem_union_right _ (Finset.mem_image_of_mem _ ht)

/-! ### The heap behind an aligner in use -/

theorem heap_alloc (s : AlignerSession β) (run : Run (OffsetAligned β)) (answer : Option Nat) :
    heap { s with run, plain := answer.elim s.plain (insert · s.plain) } =
      ⟨heapRun run, s.regions, answer.elim s.heap.live (insert · s.heap.live)⟩ := by
  cases answer with
  | none => rfl
  | some p => exact congrArg (HeapSession.mk _ _) (Finset.insert_union ..)

theorem heap_free (run : Run (OffsetAligned β)) {ptr : Option Nat}
    (h : ∀ p, ptr = some p → ∀ t ∈ s.placed, t.block ≠ p) :
    heap { s with run, plain := ptr.elim s.plain s.plain.erase } =
      ⟨heapRun run, s.regions, ptr.elim s.heap.live s.heap.live.erase⟩ := by
  cases ptr with
  | none => rfl
  | some p =>
    have himage : p ∉ s.placed.image Placed.block := fun hp => by
      obtain ⟨t, ht, heq⟩ := Finset.mem_image.1 hp
      exact h p rfl t ht heq
    refine congrArg (HeapSession.mk _ _) ?_
    exact ((Finset.erase_union_distrib ..).trans
      (congrArg (_ ∪ ·) (Finset.erase_eq_of_notMem himage))).symm

theorem heap_place (hp : t.block ∈ s.plain) :
    heap { s with plain := s.plain.erase t.block, placed := insert t s.placed } = s.heap := by
  refine congrArg (HeapSession.mk _ _) ?_
  rw [Finset.image_insert, Finset.union_insert, ← Finset.insert_union, Finset.insert_erase hp]

theorem heap_unplace (ht : t ∈ s.placed) :
    heap { s with plain := insert t.block s.plain, placed := s.placed.erase t } = s.heap := by
  refine congrArg (HeapSession.mk _ _) ?_
  rw [Finset.insert_union, ← Finset.union_insert, ← Finset.image_insert, Finset.insert_erase ht]

/-- Payloads are intact while their blocks stay as they are. -/
theorem Sound.keep (h : s.Sound bs) (hheap : s'.heap.Sound bs') (hplaced : s'.placed ⊆ s.placed)
    (hapart : ∀ t ∈ s'.placed, t.block ∉ s'.plain)
    (hstays : ∀ t ∈ s'.placed, s.heap.Stays s'.heap t.block) : s'.Sound bs' where
  heap := hheap
  apart := hapart
  distinct t ht t' ht' := h.distinct t (hplaced ht) t' (hplaced ht')
  intact t ht := (h.intact t (hplaced ht)).of_stays (hstays t ht)

/-! ### Requests to the backend -/

/-- What clients ask the backend for is granted or refused; a new block has room for what was asked
for. -/
theorem Sound.alloc (h : s.Sound bs) (hready : s.Ready) (size : Nat) :
    ∃ (answer : Option Nat) (run : Run (OffsetAligned β)) (bs' : List FreeBlock),
      onBackend (Backend.alloc size) s.run = .ok answer run ∧
      Sound { s with run, plain := answer.elim s.plain (insert · s.plain) } bs' ∧
      ∀ p, answer = some p → p ∉ s.heap.live ∧ size ≤ (freeList (heapRun run)).usableSize p := by
  obtain ⟨answer, _, u', bs', hu', hact, hsound, hstays, hnew⟩ := h.heap.backend_alloc size
  obtain ⟨run, hrun, rfl⟩ := onBackend_of_heap (HeapBacked.alloc_eq size _ hready) hact
  have hheap := (heap_alloc s run answer).trans hu'.symm
  refine ⟨answer, run, bs', hrun, h.keep (hheap ▸ hsound) subset_rfl ?_ ?_, fun p hp => ?_⟩
  · intro t ht hplain
    cases answer with
    | none => exact h.apart t ht hplain
    | some p =>
      obtain ⟨hfresh, -⟩ := hnew p rfl
      rcases Finset.mem_insert.1 hplain with rfl | hplain
      · exact hfresh (block_mem ht)
      · exact h.apart t ht hplain
  · intro t ht
    exact hheap ▸ hstays _ (block_mem ht)
  · subst hu'
    exact hnew p hp

/-- What clients give back is taken back. -/
theorem Sound.free {ptr : Option Nat} (h : s.Sound bs) (hready : s.Ready)
    (hptr : ∀ p, ptr = some p → p ∈ s.plain) :
    ∃ (run : Run (OffsetAligned β)) (bs' : List FreeBlock),
      onBackend (Backend.free ptr) s.run = .ok () run ∧
      Sound { s with run, plain := ptr.elim s.plain s.plain.erase } bs' := by
  obtain ⟨_, u', bs', hu', hact, hsound, hstays⟩ := h.heap.backend_free fun p hp =>
    Finset.mem_union_left _ (hptr p hp)
  obtain ⟨run, hrun, rfl⟩ := onBackend_of_heap (HeapBacked.free_eq ptr _ hready) hact
  have hnot : ∀ p, ptr = some p → ∀ t ∈ s.placed, t.block ≠ p := by
    rintro p hp t ht rfl
    exact h.apart t ht (hptr _ hp)
  have hheap := (heap_free run hnot).trans hu'.symm
  refine ⟨run, bs', hrun, h.keep (hheap ▸ hsound) subset_rfl ?_ ?_⟩
  · intro t ht hplain
    cases ptr with
    | none => exact h.apart t ht hplain
    | some p => exact h.apart t ht (Finset.mem_of_mem_erase hplain)
  · intro t ht
    exact hheap ▸ hstays _ (block_mem ht) fun hp => hnot _ hp t ht rfl

/-- Regions that clients offer are taken in. -/
theorem Sound.addBlock {start len : Nat} (h : s.Sound bs)
    (hregion : (Request.addRegion ⟨start, len⟩).Allowed s.heap.session) :
    ∃ (run : Run (OffsetAligned β)) (bs' : List FreeBlock),
      onBackend (Backend.addBlock start len) s.run = .ok () run ∧
      Sound { s with run, regions := ⟨start, len⟩ :: s.regions } bs' := by
  obtain ⟨_, u', bs', rfl, hact, hsound, hstays⟩ := h.heap.backend_addBlock hregion
  obtain ⟨run, hrun, rfl⟩ :=
    onBackend_of_heap (congrFun (HeapBacked.addBlock_eq start len) _) hact
  exact ⟨run, bs', hrun, h.keep hsound subset_rfl h.apart fun t ht => hstays _ (block_mem ht)⟩

/-! ### Written bytes -/

/-- What clients may write lies in payloads of the heap. -/
theorem Sound.inPayload {addr : Nat} (h : s.Sound bs) (haddr : s.Writable addr) :
    s.heap.session.InPayload addr := by
  rcases haddr with ⟨t, ht, h₁, h₂⟩ | ⟨p, hp, h₁, h₂⟩
  · have hmin := (h.intact t ht).min
    have hroom : t.ptr + t.size ≤ t.block + s.heap.session.list.usableSize t.block :=
      (h.intact t ht).room
    exact ⟨t.block, block_mem ht, by omega, by omega⟩
  · exact ⟨p, Finset.mem_union_left _ hp, h₁, h₂⟩

/-- The distance of an aligned payload lies outside of what clients may write. -/
theorem Sound.not_writable {x : Nat} (h : s.Sound bs) (ht : t ∈ s.placed) (hx : t.ptr - 2 ≤ x)
    (hlt : x < t.ptr) : ¬ s.Writable x := by
  have hmin := (h.intact t ht).min
  have hroom : t.ptr + t.size ≤ t.block + s.heap.session.list.usableSize t.block :=
    (h.intact t ht).room
  rintro (⟨t', ht', h₁, h₂⟩ | ⟨p, hp, h₁, h₂⟩)
  · have hmin' := (h.intact t' ht').min
    have hroom' : t'.ptr + t'.size ≤ t'.block + s.heap.session.list.usableSize t'.block :=
      (h.intact t' ht').room
    have hblock := h.heap.list.payload_inj (block_mem ht) (block_mem ht')
      (show t.block ≤ x by omega) (by omega) (show t'.block ≤ x by omega) (by omega)
    obtain rfl := h.distinct t ht t' ht' hblock
    omega
  · have hblock := h.heap.list.payload_inj (block_mem ht) (Finset.mem_union_left _ hp)
      (show t.block ≤ x by omega) (by omega) h₁ h₂
    exact h.apart t ht (hblock.symm ▸ hp)

/-- Granted blocks keep their sizes where clients write. -/
theorem Sound.usableSize_write {addr p : Nat} (h : s.Sound bs) (haddr : s.Writable addr)
    (byte : UInt8) (hp : p ∈ s.heap.live) :
    (s.write addr byte).list.usableSize p = s.list.usableSize p :=
  congrArg FreeBlock.size <|
    h.heap.list.block_poke (within_set ..) (fun _ hx => hx ▸ .inl (h.inPayload haddr)) p hp

theorem Sound.write {addr : Nat} (h : s.Sound bs) (haddr : s.Writable addr) (byte : UInt8) :
    (s.write addr byte).Sound bs where
  heap := h.heap.write byte (h.inPayload haddr)
  apart := h.apart
  distinct := h.distinct
  intact t ht := by
    refine (h.intact t ht).congr (h.usableSize_write haddr byte (block_mem ht)) fun x h₁ h₂ => ?_
    have hne : x ≠ addr := fun heq => h.not_writable ht h₁ h₂ (heq ▸ haddr)
    exact (Memory.get_set ..).trans (if_neg hne)

/-! ### Requests to the aligner -/

/-- A client's block becomes the aligner's. -/
theorem Sound.place (h : s.Sound bs) (hp : t.block ∈ s.plain) (ht : t.Intact s.list) :
    Sound { s with plain := s.plain.erase t.block, placed := insert t s.placed } bs := by
  refine ⟨(heap_place hp).symm ▸ h.heap, ?_, ?_, ?_⟩
  · intro t' ht' hplain
    rcases Finset.mem_insert.1 ht' with rfl | ht'
    · exact Finset.notMem_erase _ _ hplain
    · exact h.apart t' ht' (Finset.mem_of_mem_erase hplain)
  · intro t₁ ht₁ t₂ ht₂ heq
    rcases Finset.mem_insert.1 ht₁ with rfl | hold₁ <;>
      rcases Finset.mem_insert.1 ht₂ with rfl | hold₂
    · rfl
    · exact absurd (heq ▸ hp) (h.apart t₂ hold₂)
    · exact absurd (heq ▸ hp) (h.apart t₁ hold₁)
    · exact h.distinct t₁ hold₁ t₂ hold₂ heq
  · intro t' ht'
    rcases Finset.mem_insert.1 ht' with rfl | ht'
    · exact ht
    · exact h.intact t' ht'

/-- A block of the aligner becomes a client's. -/
theorem Sound.unplace (h : s.Sound bs) (ht : t ∈ s.placed) :
    Sound { s with plain := insert t.block s.plain, placed := s.placed.erase t } bs := by
  refine ⟨(heap_unplace ht).symm ▸ h.heap, ?_, ?_, ?_⟩
  · intro t' ht' hplain
    obtain ⟨hne, ht'⟩ := Finset.mem_erase.1 ht'
    rcases Finset.mem_insert.1 hplain with heq | hplain
    · exact hne (h.distinct t' ht' t ht heq)
    · exact h.apart t' ht' hplain
  · intro t₁ ht₁ t₂ ht₂
    exact h.distinct t₁ (Finset.mem_of_mem_erase ht₁) t₂ (Finset.mem_of_mem_erase ht₂)
  · intro t' ht'
    exact h.intact t' (Finset.mem_of_mem_erase ht')

/-- A distance is stored in a client's block as a client could write it. -/
theorem Sound.storeOffset {ptr : Nat} (h : s.Sound bs) (hp : block ∈ s.plain)
    (hmin : block + 2 ≤ ptr) (hmax : ptr ≤ block + s.list.usableSize block) (offset : Nat) :
    let stored := { s with run := { s.run with mem := storeOffset s.run.mem ptr offset } }
    stored.Sound bs ∧ stored.list.usableSize block = s.list.usableSize block := by
  have hlive : block ∈ s.heap.live := Finset.mem_union_left _ hp
  have hfirst : s.Writable (ptr - 2) := .inr ⟨block, hp, by omega, by omega⟩
  have hwritten := h.write hfirst (UInt8.ofNat offset)
  have hsize := h.usableSize_write hfirst (UInt8.ofNat offset) hlive
  have hsecond : (s.write (ptr - 2) (UInt8.ofNat offset)).Writable (ptr - 2 + 1) :=
    .inr ⟨block, hp, by omega, by omega⟩
  exact ⟨hwritten.write hsecond (UInt8.ofNat (offset / 256)),
    (hwritten.usableSize_write hsecond _ hlive).trans hsize⟩

/-- Where the backend grants a block, an aligned payload is put into it. -/
theorem Sound.alignedAlloc (h : s.Sound bs) (hready : s.Ready) (hadmissible : Admissible align size)
    (hblock : onBackend (Backend.alloc (size + align + 1)) s.run = .ok (some block) mid) :
    ∃ (ptr : Nat) (run : Run (OffsetAligned β)) (bs' : List FreeBlock),
      alignedAlloc align size s.run = .ok (some ptr) run ∧
      Sound { s with run, placed := insert ⟨ptr, size, align, block⟩ s.placed } bs' := by
  obtain ⟨_, _, bs', hrun, hgranted, hnew⟩ := h.alloc hready (size + align + 1)
  obtain ⟨rfl, rfl⟩ := EStateM.Result.ok.inj (hblock.symm.trans hrun)
  obtain ⟨hfresh, hroom⟩ := hnew block rfl
  have hplain : block ∉ s.plain := fun hp => hfresh (Finset.mem_union_left _ hp)
  have hmem : block ∈ insert block s.plain := Finset.mem_insert_self ..
  have hstop := hgranted.heap.list.payload_stop_lt (Finset.mem_union_left _ hmem)
  obtain ⟨offset, hmin, hmax, hdvd, hanswer⟩ :=
    alignedAlloc_of_some hadmissible hblock
      (show block + (align + 1) < wordLimit from by
        have : block + (freeList (heapRun mid)).usableSize block < wordLimit := hstop
        omega)
  obtain ⟨hstored, hsize⟩ := hgranted.storeOffset hmem (show block + 2 ≤ block + offset by omega)
    (show block + offset ≤ block + (freeList (heapRun mid)).usableSize block by omega) offset
  have hplaced := hstored.place (t := ⟨block + offset, size, align, block⟩) hmem {
    dvd := hdvd
    min := by simpa using hmin
    max := by simpa using hmax
    room := by
      rw [hsize]
      show block + offset + size ≤ block + (freeList (heapRun mid)).usableSize block
      omega
    stored := by
      have hle := hadmissible.align_le
      exact (storedOffset_storeOffset (by omega)).trans (Nat.add_sub_cancel_left ..).symm }
  refine ⟨_, _, bs', hanswer, ?_⟩
  have herase : (insert block s.plain).erase block = s.plain := Finset.erase_insert hplain
  rw [← herase]
  exact hplaced

/-- Where nothing is granted, nothing changes for anybody else. -/
theorem Sound.refused (h : s.Sound bs) (hready : s.Ready)
    (hrun : OffsetAligned.alignedAlloc align size s.run = .ok none run) :
    ∃ bs', Sound { s with run } bs' := by
  by_cases hadmissible : Admissible align size
  · obtain ⟨answer, mid, bs', hblock, hsound, -⟩ := h.alloc hready (size + align + 1)
    cases answer with
    | none =>
      have hnone := alignedAlloc_of_none hadmissible hblock
      obtain ⟨-, rfl⟩ := EStateM.Result.ok.inj (hrun.symm.trans hnone)
      exact ⟨bs', hsound⟩
    | some block =>
      obtain ⟨ptr, _, _, hgrant, -⟩ := h.alignedAlloc hready hadmissible hblock
      obtain ⟨hno, -⟩ := EStateM.Result.ok.inj (hrun.symm.trans hgrant)
      cases hno
  · obtain ⟨-, rfl⟩ := EStateM.Result.ok.inj (hrun.symm.trans (alignedAlloc_of_not hadmissible))
    exact ⟨bs, h⟩

/-- The backend is given the block of the payload. -/
theorem Sound.alignedFree_eq (h : s.Sound bs) (ht : t ∈ s.placed) :
    alignedFree (some t.ptr) s.run = onBackend (Backend.free (some t.block)) s.run := by
  have hmin := (h.intact t ht).min
  have hstored : storedOffset s.run.mem t.ptr = t.ptr - t.block := (h.intact t ht).stored
  rw [OffsetAligned.alignedFree_eq, hstored, Nat.sub_sub_self (by omega)]

theorem Sound.alignedFree (h : s.Sound bs) (hready : s.Ready) (ht : t ∈ s.placed) :
    ∃ (run : Run (OffsetAligned β)) (bs' : List FreeBlock),
      alignedFree (some t.ptr) s.run = .ok () run ∧
      Sound { s with run, placed := s.placed.erase t } bs' := by
  have hmem : ∀ p, some t.block = some p → p ∈ insert t.block s.plain :=
    fun p hp => Option.some.inj hp ▸ Finset.mem_insert_self ..
  obtain ⟨run, bs', hrun, hsound⟩ := (h.unplace ht).free hready hmem
  refine ⟨run, bs', (h.alignedFree_eq ht).trans hrun, ?_⟩
  have herase : (insert t.block s.plain).erase t.block = s.plain :=
    Finset.erase_insert (h.apart t ht)
  rw [← herase]
  exact hsound

/-! ### Every run -/

/-- To a heap that an aligner is put in front of nothing happens. -/
theorem heap_inFrontOf {backend : β} {u : HeapSession}
    (hheap : HeapBacked.heap backend = u.run.object) : (inFrontOf backend u).heap = u := by
  obtain ⟨⟨object, mem, trace⟩, regions, live⟩ := u
  obtain rfl : HeapBacked.heap backend = object := hheap
  exact congrArg (HeapSession.mk _ _) (Finset.union_empty live)

/-- Whatever clients ask for, the heap stays sound and the stored distances stay. -/
theorem Reachable.sound (h : s.Reachable) : ∃ bs, s.Sound bs := by
  induction h with
  | start h hheap =>
    obtain ⟨bs, hsound⟩ := h.sound
    exact ⟨bs, (heap_inFrontOf hheap).symm ▸ hsound, nofun, nofun, nofun⟩
  | init _ hrun ih =>
    obtain ⟨bs, hsound⟩ := ih
    obtain ⟨hobject, hmem⟩ := heapRun_init hrun
    obtain ⟨hheap, hstays⟩ := hsound.heap.of_eq hobject hmem
    exact ⟨bs, hsound.keep hheap subset_rfl hsound.apart fun t _ => hstays t.block⟩
  | addBlock _ hregion hrun ih =>
    obtain ⟨bs, hsound⟩ := ih
    obtain ⟨_, bs', hrun', hsound'⟩ := hsound.addBlock hregion
    obtain ⟨-, rfl⟩ := EStateM.Result.ok.inj (hrun.symm.trans hrun')
    exact ⟨bs', hsound'⟩
  | alloc _ hready hrun ih =>
    obtain ⟨bs, hsound⟩ := ih
    obtain ⟨_, _, bs', hrun', hsound', -⟩ := hsound.alloc hready _
    obtain ⟨rfl, rfl⟩ := EStateM.Result.ok.inj (hrun.symm.trans hrun')
    exact ⟨bs', hsound'⟩
  | free _ hready hptr hrun ih =>
    obtain ⟨bs, hsound⟩ := ih
    obtain ⟨_, bs', hrun', hsound'⟩ := hsound.free hready hptr
    obtain ⟨-, rfl⟩ := EStateM.Result.ok.inj (hrun.symm.trans hrun')
    exact ⟨bs', hsound'⟩
  | alignedAlloc _ hready hblock hrun ih =>
    obtain ⟨bs, hsound⟩ := ih
    obtain ⟨_, _, bs', hrun', hsound'⟩ :=
      hsound.alignedAlloc hready (admissible_of_some hrun) hblock
    obtain ⟨hptr, rfl⟩ := EStateM.Result.ok.inj (hrun.symm.trans hrun')
    obtain rfl := Option.some.inj hptr
    exact ⟨bs', hsound'⟩
  | refused _ hready hrun ih =>
    obtain ⟨bs, hsound⟩ := ih
    exact hsound.refused hready hrun
  | @alignedFree _ t _ _ hready ht hrun ih =>
    obtain ⟨bs, hsound⟩ := ih
    cases t with
    | none =>
      obtain ⟨-, rfl⟩ := EStateM.Result.ok.inj hrun
      exact ⟨bs, hsound⟩
    | some t =>
      obtain ⟨_, bs', hrun', hsound'⟩ := hsound.alignedFree hready (ht t rfl)
      obtain ⟨-, rfl⟩ := EStateM.Result.ok.inj (hrun.symm.trans hrun')
      exact ⟨bs', hsound'⟩
  | write byte _ haddr ih =>
    obtain ⟨bs, hsound⟩ := ih
    exact ⟨bs, hsound.write haddr byte⟩

/-- The payloads of an aligner are in order, and what is asked of it is answered. -/
structure RoundTrip (s : AlignerSession β) : Prop where
  /-- Every payload is aligned and lies in its block, with the distance in front of it. -/
  intact : ∀ t ∈ s.placed, t.Intact s.list
  /-- Aligned grants return. A payload is granted if and only if the request is admissible and the
  backend grants a block for it, and then the payload is placed in that block. -/
  granted : s.Ready → ∀ align size, ∃ answer run,
    OffsetAligned.alignedAlloc align size s.run = .ok answer run ∧
      ((∃ ptr, answer = some ptr) ↔ Admissible align size ∧ ∃ block mid,
        onBackend (Backend.alloc (size + align + 1)) s.run = .ok (some block) mid) ∧
      ∀ ptr block mid, answer = some ptr →
        onBackend (Backend.alloc (size + align + 1)) s.run = .ok (some block) mid →
          Placed.Intact ⟨ptr, size, align, block⟩ (freeList (heapRun run))
  /-- A payload that is given back is to the backend its block, no more and no less. -/
  freed : ∀ t ∈ s.placed,
    OffsetAligned.alignedFree (some t.ptr) s.run =
      onBackend (Backend.free (some t.block)) s.run
  /-- Giving a payload back returns. -/
  taken : s.Ready → ∀ t ∈ s.placed, ∃ run,
    OffsetAligned.alignedFree (some t.ptr) s.run = .ok () run

theorem Sound.granted (h : s.Sound bs) (hready : s.Ready) (align size : Nat) :
    ∃ answer run, OffsetAligned.alignedAlloc align size s.run = .ok answer run ∧
      ((∃ ptr, answer = some ptr) ↔ Admissible align size ∧ ∃ block mid,
        onBackend (Backend.alloc (size + align + 1)) s.run = .ok (some block) mid) ∧
      ∀ ptr block mid, answer = some ptr →
        onBackend (Backend.alloc (size + align + 1)) s.run = .ok (some block) mid →
          Placed.Intact ⟨ptr, size, align, block⟩ (freeList (heapRun run)) := by
  by_cases hadmissible : Admissible align size
  · obtain ⟨answer, mid, _, hblock, -⟩ := h.alloc hready (size + align + 1)
    cases answer with
    | none =>
      refine ⟨none, mid, alignedAlloc_of_none hadmissible hblock, ⟨nofun, ?_⟩, nofun⟩
      rintro ⟨-, block, mid', hblock'⟩
      obtain ⟨hno, -⟩ := EStateM.Result.ok.inj (hblock.symm.trans hblock')
      cases hno
    | some block =>
      obtain ⟨ptr, run, _, hrun, hsound⟩ := h.alignedAlloc hready hadmissible hblock
      refine ⟨some ptr, run, hrun, ⟨fun _ => ⟨hadmissible, block, mid, hblock⟩, fun _ =>
        ⟨ptr, rfl⟩⟩, ?_⟩
      intro ptr' block' mid' hptr hblock'
      obtain rfl := Option.some.inj hptr
      obtain ⟨hsame, -⟩ := EStateM.Result.ok.inj (hblock.symm.trans hblock')
      obtain rfl := Option.some.inj hsame
      exact hsound.intact _ (Finset.mem_insert_self ..)
  · exact ⟨none, s.run, alignedAlloc_of_not hadmissible,
      ⟨nofun, fun hgrant => absurd hgrant.1 hadmissible⟩, nofun⟩

theorem Reachable.roundTrip (h : s.Reachable) : s.RoundTrip := by
  obtain ⟨bs, hsound⟩ := h.sound
  refine ⟨hsound.intact, hsound.granted, fun t ht => hsound.alignedFree_eq ht, ?_⟩
  intro hready t ht
  obtain ⟨run, -, hrun, -⟩ := hsound.alignedFree hready ht
  exact ⟨run, hrun⟩

end AlignerSession

open AlignerSession in
/-- In every run of an aligner in front of a heap, with or without a gate between them, aligned
payloads are placed in blocks of the backend, and their blocks are given back. -/
theorem stored_offset_round_trip :
    (∀ s : AlignerSession Heap, s.Reachable → s.RoundTrip) ∧
      ∀ s : AlignerSession (Gated Heap), s.Reachable → s.RoundTrip :=
  ⟨fun _ h => h.roundTrip, fun _ h => h.roundTrip⟩

open AlignerSession in
/-- In front of the sample heap, a payload of 8 bytes is placed 16 bytes into its block. Behind an
open gate too, and from there the block is given back. -/
theorem stored_offset_sample :
    (∃ run, alignedAlloc 16 8 (inFrontOf HeapSession.sample.run.object HeapSession.sample).run =
      .ok (some 4304) run) ∧
    ∃ s : AlignerSession (Gated Heap), s.Reachable ∧ ⟨4304, 8, 16, 4288⟩ ∈ s.placed ∧
      storedOffset s.run.mem 4304 = 16 ∧
      alignedFree (some 4304) s.run = onBackend (Backend.free (some 4288)) s.run := by
  constructor
  · have hstart : (inFrontOf HeapSession.sample.run.object HeapSession.sample).Reachable :=
      .start HeapSession.sample_reachable rfl
    obtain ⟨answer, run, hrun, -⟩ :=
      (stored_offset_round_trip.1 _ hstart).granted trivial 16 8
    have hanswer : EStateM.run' (alignedAlloc 16 8)
        (inFrontOf HeapSession.sample.run.object HeapSession.sample).run = some (some 4304) := by
      decide +kernel
    obtain rfl := Option.some.inj ((Action.answer_of_ok hrun).symm.trans hanswer)
    exact ⟨run, hrun⟩
  · let gate : Gated Heap := { inner := HeapSession.sample.run.object, initialized := true }
    have hstart : (inFrontOf gate HeapSession.sample).Reachable :=
      .start HeapSession.sample_reachable rfl
    obtain ⟨answer, run, hrun, hiff, -⟩ :=
      (stored_offset_round_trip.2 _ hstart).granted rfl 16 8
    have hanswer : EStateM.run' (alignedAlloc 16 8) (inFrontOf gate HeapSession.sample).run =
        some (some 4304) := by decide +kernel
    obtain rfl := Option.some.inj ((Action.answer_of_ok hrun).symm.trans hanswer)
    obtain ⟨-, block, mid, hblock⟩ := hiff.1 ⟨4304, rfl⟩
    have hgranted : EStateM.run' (onBackend (Backend.alloc 25))
        (inFrontOf gate HeapSession.sample).run = some (some 4288) := by decide +kernel
    obtain rfl := Option.some.inj
      (Option.some.inj ((Action.answer_of_ok hblock).symm.trans hgranted))
    have hplaced := hstart.alignedAlloc rfl hblock hrun
    have htrip := stored_offset_round_trip.2 _ hplaced
    have hmem := Finset.mem_insert_self (⟨4304, 8, 16, 4288⟩ : Placed) ∅
    have hintact := htrip.intact ⟨4304, 8, 16, 4288⟩ hmem
    have hfreed := htrip.freed ⟨4304, 8, 16, 4288⟩ hmem
    have hstored := hintact.stored
    exact ⟨_, hplaced, hmem, hstored, hfreed⟩

end PoolAlloc
