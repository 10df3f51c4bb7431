import PoolAlloc.Proofs.Classification
/-!
# PoolAlloc.Proofs.Zeroing

Requests for blocks that are all zero.

Memory that was granted before holds what its owners wrote, and headers of blocks that were merged
since. So a block is cleared when it is granted, after the lock was let go, in memory that borders
on the headers of its neighbours.

Design points:

* **Against the plain request.** A request for a zeroed block is compared with the request for as
  many bytes at the same alignment, made to the same heap. It is granted where that is, at the same
  address (`ZeroedGrant`), and what it leaves differs in the bytes that were asked for (`Zeroed`).
* **The size is a product of natural numbers.** One that is no word is refused, not cut down.

Main statement: `HeapSession.Reachable.zeroes`.
-/

namespace PoolAlloc

open Memory FreeList Heap

/-! ### Three ways to ask -/

namespace Heap

/-- What a request for a zeroed block comes to: a block of `len` bytes is granted at a multiple of
`align` and cleared, unless `len` is no word. -/
def zeroedMalloc (align len : Nat) : Action Heap (Option Nat) := do
  if len < wordLimit then
    cleared len (← alignedMalloc align len)
  else
    return none

theorem calloc_eq (count size : Nat) :
    calloc count size = zeroedMalloc granularity (count * size) := by
  rw [calloc, mulChecked, zeroedMalloc, ← malloc_eq]
  by_cases hword : count * size < wordLimit
  · simp only [if_pos hword]
  · simp only [if_neg hword]

/-- The size of a layout is a word. -/
theorem allocLayoutZeroed_eq (layout : Layout) :
    allocLayoutZeroed layout = zeroedMalloc layout.align layout.size := by
  have hlimit : layoutLimit < wordLimit := by decide
  have hfits := layout.fits
  have hword : layout.size < wordLimit := by omega
  rw [zeroedMalloc, if_pos hword]
  rfl

end Heap

theorem CInterface.calloc_eq (number size : Nat) :
    calloc number size = zeroedMalloc minAlign (number * size) := by
  rw [calloc, mulChecked, zeroedMalloc]
  by_cases hword : number * size < wordLimit
  · simp only [if_pos hword]
  · simp only [if_neg hword]

/-! ### Clearing a block that was just granted -/

theorem within_clear (l : FreeList) (a n : Nat) :
    Within l { l with mem := l.mem.clear a n } fun x => a ≤ x ∧ x < a + n :=
  ⟨rfl, fun x hx => by rw [get_clear, if_neg hx]⟩

/-- A block that the list granted was taken out of its free blocks, and has room for the request. -/
theorem Session.Sound.takes_of_allocateAligned {s : Session} {bs : List FreeBlock}
    {align size p : Nat} {l' : FreeList} (h : s.Sound bs)
    (hl : s.list.allocateAligned align size = .ok (some p, l')) :
    ∃ g bs', p = g.payload ∧ size ≠ 0 ∧ size ≤ g.size ∧ s.list.Takes bs g l' bs' := by
  cases hplace : place? s.list.floor align size bs with
  | none =>
    rw [h.tidy.allocateAligned_of_none hplace] at hl
    cases hl
  | some found =>
    obtain ⟨g, bs'⟩ := found
    obtain ⟨l'', hl'', ht⟩ := h.tidy.allocateAligned_of_some hplace
    rw [hl''] at hl
    obtain ⟨hp, rfl⟩ := Prod.mk.inj (Except.ok.inj hl)
    exact ⟨g, bs', (Option.some.inj hp).symm, (place?_eq_some hplace).1,
      h.tidy.le_of_place? hplace, ht⟩

namespace HeapSession

variable {u : HeapSession} {bs : List FreeBlock} {align len p : Nat} {plain : Run Heap}

/-- A request for `len` bytes that left `plain` was granted at `p`; the request for the same bytes,
all zero, has left `run`. -/
structure Zeroed (u : HeapSession) (p len : Nat) (plain run : Run Heap) : Prop where
  /-- The list begins where it does, and the lock is as it is. -/
  object_eq : run.object = plain.object
  trace_eq : run.trace = plain.trace
  /-- The bytes that were asked for are in the block. -/
  room : len ≤ (freeList plain).usableSize p
  zero : ∀ x, p ≤ x → x < p + len → run.mem.get x = 0
  /-- The rest of memory is as it is. -/
  rest : ∀ x, x < p ∨ p + len ≤ x → run.mem.get x = plain.mem.get x
  /-- That includes the headers of the granted blocks. -/
  headers : ∀ q ∈ insert p u.live, ∀ x, headerOf q ≤ x → x < headerOf q + headerSize →
    run.mem.get x = plain.mem.get x
  /-- It includes the payloads of the blocks that were granted before. -/
  payloads : ∀ q ∈ u.live, ∀ x, q ≤ x → x < q + (freeList u.run).usableSize q →
    run.mem.get x = plain.mem.get x
  /-- And it includes the free blocks, which are the same. -/
  free : ∃ bs, (freeList plain).blocks = .ok bs ∧ (freeList run).blocks = .ok bs ∧
    ∀ x, Covered bs x → run.mem.get x = plain.mem.get x

theorem Sound.zeroed (h : u.Sound bs)
    (hgranted : (freeList u.run).allocateAligned align len = .ok (some p, freeList plain)) :
    u.Zeroed p len plain { plain with mem := plain.mem.clear p len } := by
  obtain ⟨g, bs', rfl, -, hroom, ht⟩ := h.list.takes_of_allocateAligned hgranted
  have hsound := h.list.take ht
  have hsize : (freeList plain).usableSize g.payload = g.size :=
    congrArg FreeBlock.size (block_eq_of_size ht.size_eq)
  -- What is cleared is the new owner's, so neither a header nor free.
  let cleared : FreeList := { freeList plain with mem := plain.mem.clear g.payload len }
  have hwithin : Within (freeList plain) cleared _ := within_clear (freeList plain) g.payload len
  have hclient : ∀ x, g.payload ≤ x ∧ x < g.payload + len → Session.Client
      { u.session with list := freeList plain, live := insert g.payload u.live } x := by
    rintro x ⟨h₁, h₂⟩
    refine Or.inl ⟨g.payload, Finset.mem_insert_self .., h₁, ?_⟩
    show x < g.payload + (freeList plain).usableSize g.payload
    omega
  have hpoked := hsound.poke (show cleared.head = (freeList plain).head from rfl) hwithin hclient
  refine ⟨rfl, rfl, hsize ▸ hroom, fun x h₁ h₂ => ?_, fun x hx => ?_, fun q hq x h₁ h₂ => ?_,
    fun q hq x h₁ h₂ => ?_, bs', hsound.tidy.holds.blocks_eq, hpoked.tidy.holds.blocks_eq,
    fun x hx => ?_⟩
  · show (plain.mem.clear g.payload len).get x = 0
    rw [get_clear, if_pos ⟨h₁, h₂⟩]
  · exact hwithin.get_eq x (by omega)
  · exact hwithin.get_eq x fun hin => hsound.not_client.2 q hq h₁ h₂ (hclient x hin)
  · -- Payloads that were granted before are not among the free blocks that the new one is cut from.
    refine hwithin.get_eq x fun ⟨h₃, h₄⟩ => ?_
    have hadd := h.list.headerOf_add hq
    have hblock : x ∈ u.session.list.block q := (h.list.mem_block_iff hq).2 ⟨by omega, h₂⟩
    have hnew : x ∈ g := by
      rw [FreeBlock.mem_iff, ← g.payload_add_size]
      rw [FreeBlock.payload_eq] at *
      omega
    exact h.list.notFree q hq x hblock ((ht.cut.tile x).2 (Or.inl hnew))
  · exact hwithin.get_eq x fun hin => hsound.not_client.1 hx (hclient x hin)

/-- What a request for `len` bytes at a multiple of `align`, all zero, answers and leaves. -/
structure ZeroedGrant (u : HeapSession) (align len : Nat) (answer : Option Nat) (run : Run Heap) :
    Prop where
  /-- It is granted where the size is a word other than zero and the request for a block of that
  size is granted, and at the same address. -/
  granted : ∀ p, answer = some p ↔ 1 ≤ len ∧ len < wordLimit ∧
    ∃ plain, Heap.alignedMalloc align len u.run = .ok (some p) plain
  zeroed : ∀ p plain, answer = some p →
    Heap.alignedMalloc align len u.run = .ok (some p) plain → u.Zeroed p len plain run
  refused : answer = none → freeList run = freeList u.run

theorem Sound.zeroedMalloc (h : u.Sound bs) (align len : Nat) :
    ∃ answer run, Heap.zeroedMalloc align len u.run = .ok answer run ∧
      u.ZeroedGrant align len answer run := by
  obtain ⟨answer, plain, hplain, hlist⟩ := h.alignedMalloc_eq align len
  rw [Heap.zeroedMalloc]
  by_cases hword : len < wordLimit
  · rw [if_pos hword, Action.bind_apply, hplain]
    cases answer with
    | none =>
      refine ⟨none, plain, rfl, fun p => iff_of_false nofun ?_, nofun, fun _ => ?_⟩
      · rintro ⟨-, -, plain', hplain'⟩
        exact Option.some_ne_none p (EStateM.Result.ok.inj (hplain'.symm.trans hplain)).1
      · exact eq_of_allocateAligned_none hlist
    | some p =>
      obtain ⟨-, -, -, hpos, -⟩ := h.list.takes_of_allocateAligned hlist
      refine ⟨some p, _, rfl, fun q => ⟨?_, ?_⟩, ?_, nofun⟩
      · rintro ⟨⟩
        exact ⟨Nat.pos_of_ne_zero hpos, hword, plain, hplain⟩
      · rintro ⟨-, -, plain', hplain'⟩
        exact (EStateM.Result.ok.inj (hplain'.symm.trans hplain)).1.symm
      · rintro _ plain' ⟨⟩ hplain'
        obtain ⟨-, rfl⟩ := EStateM.Result.ok.inj (hplain'.symm.trans hplain)
        exact h.zeroed hlist
  · rw [if_neg hword]
    exact ⟨none, u.run, rfl, fun p => iff_of_false nofun fun hgranted => hword hgranted.2.1, nofun,
      fun _ => rfl⟩

/-- In every reachable heap, whatever its memory holds, the three requests for zeroed blocks return,
and each of them gets the block that the plain request would get, all zero. -/
theorem Reachable.zeroes (h : u.Reachable) :
    (∀ count size, ∃ answer run, Heap.calloc count size u.run = .ok answer run ∧
      u.ZeroedGrant granularity (count * size) answer run) ∧
    (∀ number size, ∃ answer run, CInterface.calloc number size u.run = .ok answer run ∧
      u.ZeroedGrant CInterface.minAlign (number * size) answer run) ∧
    ∀ layout, ∃ answer run, Heap.allocLayoutZeroed layout u.run = .ok answer run ∧
      u.ZeroedGrant layout.align layout.size answer run := by
  obtain ⟨bs, hsound⟩ := h.sound
  refine ⟨fun count size => ?_, fun number size => ?_, fun layout => ?_⟩
  · rw [Heap.calloc_eq]
    exact hsound.zeroedMalloc ..
  · rw [CInterface.calloc_eq]
    exact hsound.zeroedMalloc ..
  · rw [Heap.allocLayoutZeroed_eq]
    exact hsound.zeroedMalloc ..

/-- The sample heap after the owner of its block wrote into it and gave it back. -/
def used : HeapSession := (sample.write 4165 255).next (.c (.free (some 4160)))

/-- The block that was given back is granted again with the byte in it, but cleared on demand. -/
theorem zeroes_sample : ∃ plain run,
    Heap.alignedMalloc 16 100 used.run = .ok (some 4160) plain ∧ plain.mem.get 4165 = 255 ∧
    CInterface.calloc 5 20 used.run = .ok (some 4160) run ∧ used.Zeroed 4160 100 plain run := by
  have hpayload : sample.session.InPayload 4165 := by
    refine ⟨4160, ?_, by decide, ?_⟩ <;> decide +kernel
  have hfree : Call.Allowed (sample.write 4165 255).session (.c (.free (some 4160))) := by
    show 4160 ∈ sample.live
    decide +kernel
  have hused : used.Reachable := (sample_reachable.write 255 hpayload).next hfree
  obtain ⟨-, hc, -⟩ := Reachable.zeroes hused
  obtain ⟨answer, run, hrun, hgrant⟩ := hc 5 20
  have hanswer : EStateM.run' (CInterface.calloc 5 20) used.run = some (some 4160) := by
    decide +kernel
  obtain rfl := Option.some.inj ((Action.answer_of_ok hrun).symm.trans hanswer)
  obtain ⟨-, -, plain, hplain⟩ := (hgrant.granted 4160).1 rfl
  have hplain : Heap.alignedMalloc 16 100 used.run = .ok (some 4160) plain := hplain
  let peek : Action Heap UInt8 := do
    let _ ← Heap.alignedMalloc 16 100
    return (← get).mem.get 4165
  have hdirty : EStateM.run' peek used.run = some 255 := by decide +kernel
  have hpeek : peek used.run = .ok (plain.mem.get 4165) plain := by
    dsimp only [peek]
    rw [Action.bind_apply, hplain]
    rfl
  have hbyte := Option.some.inj ((Action.answer_of_ok hpeek).symm.trans hdirty)
  exact ⟨plain, run, hplain, hbyte, hrun, hgrant.zeroed 4160 plain rfl hplain⟩

end HeapSession

end PoolAlloc
