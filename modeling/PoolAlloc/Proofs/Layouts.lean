import PoolAlloc.Proofs.HeapSession
import PoolAlloc.Proofs.Resizing
/-!
# PoolAlloc.Proofs.Layouts

The contract of a heap that is called by layout.

Its clients name live blocks, with the alignment they were granted at, and sizes that are not zero
(`Heap.LayoutCall.Lawful`). `LayoutRun` collects what such clients can lead to, together with the
ledger of the terms on which blocks were last granted; pools may be added at any time. The ledger
holds in all of these runs (`LayoutRun.honours`): a block that is cut down in place keeps an
alignment that no single call has looked at.

Main statement: `LayoutRun.contract`.
-/

namespace PoolAlloc

open FreeList

/-- The address that a call answers, if it answers one. -/
def Reply.address? : Reply → Option Nat
  | address ptr => ptr
  | _ => none

namespace Heap.LayoutCall

/-- The layout that a call names. -/
def layout : Heap.LayoutCall → Layout
  | alloc layout | allocZeroed layout | free _ layout | realloc _ layout _ => layout

/-- The request that a call comes to. -/
def request : Heap.LayoutCall → Request
  | alloc layout | allocZeroed layout => .allocate layout.align layout.size
  | free ptr _ => .release ptr
  | realloc ptr layout newSize => .resize ptr layout.align newSize

/-- What clients have to see to: live blocks with their alignment, and sizes that are not zero. -/
def Lawful (u : HeapSession) (terms : Nat → Terms) : Heap.LayoutCall → Prop
  | alloc layout | allocZeroed layout => layout.size ≠ 0
  | free ptr layout => ptr ∈ u.live ∧ layout.align = (terms ptr).align
  | realloc ptr layout newSize =>
    ptr ∈ u.live ∧ layout.align = (terms ptr).align ∧ newSize ≠ 0

/-- The ledger after a call. -/
def enter (call : Heap.LayoutCall) (reply : Reply) (terms : Nat → Terms) : Nat → Terms :=
  call.request.enter reply.address? terms

variable {u : HeapSession} {terms : Nat → Terms} {call : Heap.LayoutCall}

theorem Lawful.allowed (h : call.Lawful u terms) : call.request.Allowed u.session := by
  cases call with
  | alloc | allocZeroed => trivial
  | free => exact h.1
  | realloc => exact h.1

theorem Lawful.keepsAlign (h : call.Lawful u terms) : call.request.KeepsAlign terms := by
  cases call with
  | realloc => exact h.2.1
  | _ => trivial

/-- A lawful call comes to its request, and answers what the request answers. -/
theorem Lawful.plan_eq (h : call.Lawful u terms) :
    ∃ zeroed w, call.plan = .inside (.request call.request) zeroed w ∧
      (∀ ptr layout newSize, call = .realloc ptr layout newSize → zeroed = false) ∧
      ∀ answer, w.reply (call.request.reply answer) =
        if call.request.terms? = none then .done else .address answer := by
  cases call with
  | alloc layout =>
    refine ⟨false, .plain, if_neg (not_or.2 ⟨h, not_not.2 layout.isAlignment⟩), nofun, fun _ => rfl⟩
  | allocZeroed layout =>
    refine ⟨true, .plain, if_neg (not_or.2 ⟨h, not_not.2 layout.isAlignment⟩), nofun, fun _ => rfl⟩
  | free ptr layout => exact ⟨false, .silent, rfl, nofun, fun _ => rfl⟩
  | realloc ptr layout newSize => exact ⟨false, .plain, rfl, fun _ _ _ _ => rfl, fun _ => rfl⟩

end Heap.LayoutCall

namespace HeapSession

/-- What clients that call by layout can lead to, with the ledger of the terms on which blocks were
last granted. -/
inductive LayoutRun : HeapSession → (Nat → Terms) → Prop
  | start (minSplit : Nat) (mem : Memory) {lock : Lock} (h : lock.isHeld? ≠ some true)
      (terms : Nat → Terms) : LayoutRun (start minSplit mem lock) terms
  | addBlock {u : HeapSession} {terms : Nat → Terms} {start len : Nat} {reply : Reply}
      {run : Run Heap} (h : LayoutRun u terms)
      (hcall : Call.Allowed u.session (.heap (.addBlock start len)))
      (hrun : Call.act (.heap (.addBlock start len)) u.run = .ok reply run) :
      LayoutRun (u.after (Call.plan (.heap (.addBlock start len))) run) terms
  | call {u : HeapSession} {terms : Nat → Terms} {call : Heap.LayoutCall} {reply : Reply}
      {run : Run Heap} (h : LayoutRun u terms) (hcall : call.Lawful u terms)
      (hrun : Call.act (.layout call) u.run = .ok reply run) :
      LayoutRun (u.after (Call.plan (.layout call)) run) (call.enter reply terms)
  | write {u : HeapSession} {terms : Nat → Terms} {addr : Nat} (byte : UInt8)
      (h : LayoutRun u terms) (haddr : u.session.InPayload addr) :
      LayoutRun (u.write addr byte) terms

/-- A granted block that lies where and as the ledger says. -/
structure Honoured (u : HeapSession) (terms : Nat → Terms) (p : Nat) : Prop where
  mem_live : p ∈ u.live
  nonnull : p ≠ 0
  aligned : (terms p).align ∣ p
  room : (terms p).size ≤ u.session.list.usableSize p
  inPools : ∀ x, p ≤ x → x < p + (terms p).size → Covered u.session.pools x
  /-- The range that was asked for lies apart from all other granted blocks, headers included. -/
  apart : ∀ q ∈ u.live, q ≠ p → ∀ x, p ≤ x → x < p + (terms p).size → x ∉ u.session.list.block q

variable {u u' : HeapSession} {bs bs' : List FreeBlock} {terms : Nat → Terms} {p : Nat}

theorem Sound.honoured (h : u.Sound bs) (hterms : u.session.Honours terms) (hp : p ∈ u.live) :
    u.Honoured terms p := by
  obtain ⟨hdvd, hroom⟩ := hterms p hp
  have hadd := h.list.headerOf_add hp
  have hin : ∀ x, p ≤ x → x < p + (terms p).size → x ∈ u.session.list.block p := fun x h₁ h₂ =>
    (h.list.mem_block_iff hp).2 ⟨by omega, by omega⟩
  exact ⟨hp, by omega, hdvd, hroom, fun x h₁ h₂ => h.list.covered_of_granted hp (hin x h₁ h₂),
    fun q hq hne x h₁ h₂ hxq => hne (h.list.disjoint q hq p hp x hxq (hin x h₁ h₂))⟩

/-! ### The ledger holds -/

/-- A ledger that holds does not depend on what is left to do after a request. -/
theorem Carried.honours {r : Request} {zeroed : Bool} {answer : Option Nat} {s' : Session}
    (hc : u.Carried bs r zeroed answer s' bs' u') (h : s'.Honours terms) :
    u'.session.Honours terms := by
  intro p hp
  have hp' : p ∈ s'.live := hc.live_eq ▸ hp
  have hsize : u'.session.list.usableSize p = s'.list.usableSize p :=
    congrArg FreeBlock.size (hc.block_eq p hp')
  exact hsize ▸ h p hp'

/-- A lawful call is carried out as the request it comes to. -/
theorem Sound.carry_lawful {call : Heap.LayoutCall} (h : u.Sound bs) (hcall : call.Lawful u terms) :
    ∃ reply run zeroed answer s' bs', Call.act (.layout call) u.run = .ok reply run ∧
      u.Carried bs call.request zeroed answer s' bs' (u.after (Call.plan (.layout call)) run) ∧
      (∀ ptr layout newSize, call = .realloc ptr layout newSize → zeroed = false) ∧
      reply = if call.request.terms? = none then .done else .address answer := by
  obtain ⟨zeroed, w, hplan, hzeroed, hreply⟩ := hcall.plan_eq
  obtain ⟨answer, s', bs', run, hact, hc⟩ := h.carry hcall.allowed zeroed w
  have hplan' : Call.plan (.layout call) = .inside (.request call.request) zeroed w := hplan
  refine ⟨_, run, zeroed, answer, s', bs', ?_, hplan' ▸ hc, hzeroed, hreply answer⟩
  rw [Call.act_eq, hplan', hact]

theorem terms?_align {call : Heap.LayoutCall} {asked : Terms}
    (h : call.request.terms? = some asked) : asked.align = call.layout.align := by
  cases call with
  | free => cases h
  | alloc | allocZeroed | realloc =>
    obtain rfl := Option.some.inj h
    rfl

theorem enter_eq {call : Heap.LayoutCall} {reply : Reply} {answer : Option Nat}
    (hreply : reply = if call.request.terms? = none then .done else .address answer) :
    call.enter reply terms = call.request.enter answer terms := by
  subst hreply
  cases call <;> rfl

theorem LayoutRun.reachable (h : LayoutRun u terms) : u.Reachable := by
  induction h with
  | start minSplit mem h terms => exact .start minSplit mem h
  | addBlock _ hcall hrun ih => exact ih.call hcall hrun
  | call _ hcall hrun ih =>
    obtain ⟨zeroed, w, hplan, -⟩ := hcall.plan_eq
    refine ih.call ?_ hrun
    rw [Call.Allowed, Call.plan, hplan]
    exact hcall.allowed
  | write byte _ haddr ih => exact ih.write byte haddr

theorem LayoutRun.honours (h : LayoutRun u terms) : u.session.Honours terms := by
  induction h with
  | start => exact fun p hp => absurd hp (Finset.notMem_empty p)
  | @addBlock u terms start len reply run h hcall hrun ih =>
    obtain ⟨bs, hsound⟩ := h.reachable.sound
    have hallowed : (Request.addRegion ⟨start, len⟩).Allowed u.session := hcall
    obtain ⟨answer, s', bs', run', hact, hc⟩ := hsound.carry hallowed false .plain
    rw [Call.act_eq] at hrun
    obtain ⟨rfl, rfl⟩ := EStateM.Result.ok.inj (hrun.symm.trans hact)
    exact hc.honours (hc.effect.honours hsound.list hallowed ih trivial)
  | @call u terms call reply run h hcall hrun ih =>
    obtain ⟨bs, hsound⟩ := h.reachable.sound
    obtain ⟨_, _, _, answer, s', bs', hact, hc, -, hreply⟩ := hsound.carry_lawful hcall
    obtain ⟨rfl, rfl⟩ := EStateM.Result.ok.inj (hrun.symm.trans hact)
    rw [enter_eq hreply]
    exact hc.honours (hc.effect.honours hsound.list hcall.allowed ih hcall.keepsAlign)
  | @write u terms addr byte h haddr ih =>
    obtain ⟨bs, hsound⟩ := h.reachable.sound
    have hallowed : (Request.write addr byte).Allowed u.session := .inl haddr
    exact Session.Effect.written.honours hsound.list hallowed ih trivial

/-! ### The contract in every run -/

/-- What a lawful call answers and leaves. -/
structure LayoutServed (u : HeapSession) (terms : Nat → Terms) (call : Heap.LayoutCall)
    (reply : Reply) (u' : HeapSession) : Prop where
  /-- A block that is answered lies at the alignment of the layout. -/
  aligned : ∀ q, reply = .address (some q) → call.layout.align ∣ q
  /-- It is granted on the terms that were asked for, and these hold. -/
  granted : ∀ q, reply = .address (some q) →
    call.request.terms? = some (call.enter reply terms q) ∧ u'.Honoured (call.enter reply terms) q
  /-- A block that is resized keeps the bytes that it was asked for before and is asked for now. -/
  contents : ∀ ptr layout newSize q, call = .realloc ptr layout newSize →
    reply = .address (some q) → ∀ i, i < (terms ptr).size → i < newSize →
      u'.run.mem.get (q + i) = u.run.mem.get (ptr + i)
  /-- Where no block is answered nothing changes. -/
  refused : reply = .address none → u.Unchanged u'

/-- In every run of calls by layout the granted blocks are as the ledger says: at their alignments,
inside the pools, and apart from each other. A lawful call returns, and keeps it so. -/
theorem LayoutRun.contract (h : LayoutRun u terms) :
    (∀ p ∈ u.live, u.Honoured terms p) ∧
    ∀ call : Heap.LayoutCall, call.Lawful u terms →
      ∃ reply run, Call.act (.layout call) u.run = .ok reply run ∧
        LayoutServed u terms call reply (u.after (Call.plan (.layout call)) run) := by
  obtain ⟨bs, hsound⟩ := h.reachable.sound
  refine ⟨fun p hp => hsound.honoured h.honours hp, fun call hcall => ?_⟩
  obtain ⟨reply, run, zeroed, answer, s', bs', hact, hc, hzeroed, hreply⟩ :=
    hsound.carry_lawful hcall
  have hnext : LayoutRun _ (call.enter reply terms) := h.call hcall hact
  -- An address is answered for a request that asks for a block, and it is what the request answers.
  have haddress : ∀ ptr, reply = .address ptr → call.request.terms? ≠ none ∧ answer = ptr := by
    rintro ptr rfl
    split at hreply
    · cases hreply
    · rename_i hasked
      exact ⟨hasked, (Reply.address.inj hreply).symm⟩
  have hgranted : ∀ q, reply = .address (some q) →
      call.request.terms? = some (call.enter reply terms q) ∧
        Honoured (u.after (Call.plan (.layout call)) run) (call.enter reply terms) q := by
    intro q hq
    obtain ⟨hasked, rfl⟩ := haddress _ hq
    obtain ⟨asked, hasked⟩ := Option.ne_none_iff_exists'.1 hasked
    obtain ⟨hlive, -⟩ := hc.effect.honours_answer hsound.list hcall.allowed h.honours
      hcall.keepsAlign hasked
    refine ⟨?_, hc.sound.honoured hnext.honours (hc.live_eq ▸ hlive)⟩
    rw [enter_eq hreply, Request.enter_self hasked, hasked]
  refine ⟨reply, run, hact, fun q hq => ?_, hgranted,
    fun ptr layout newSize q heq hq i hi hnew => ?_, fun hnone => ?_⟩
  · obtain ⟨hasked, hhonoured⟩ := hgranted q hq
    exact terms?_align hasked ▸ hhonoured.aligned
  · obtain ⟨-, rfl⟩ := haddress _ hq
    subst heq
    have hresized := hc.effect.resized hsound.list hcall.1
    have hold := (h.honours ptr hcall.1).2
    have hmem := congrArg FreeList.mem (hc.list_eq (hzeroed _ _ _ rfl))
    have hroom := hresized.room
    exact (congrArg (·.get (q + i)) hmem).trans (hresized.contents i (by omega) (by omega))
  · obtain ⟨hasked, rfl⟩ := haddress _ hnone
    refine hc.unchanged ?_ rfl
    cases call with
    | free => exact absurd rfl hasked
    | alloc | allocZeroed | realloc => trivial

theorem LayoutRun.next_addBlock (h : LayoutRun u terms) (start len : Nat)
    (hcall : Call.Allowed u.session (.heap (.addBlock start len))) :
    LayoutRun (u.next (.heap (.addBlock start len))) terms := by
  obtain ⟨bs, hsound⟩ := h.reachable.sound
  obtain ⟨reply, run, -, hact, -⟩ := hsound.act hcall
  rw [HeapSession.next, hact]
  exact h.addBlock hcall hact

theorem LayoutRun.next (h : LayoutRun u terms) (call : Heap.LayoutCall) (reply : Reply)
    (hcall : call.Lawful u terms)
    (hreply : EStateM.run' (Call.act (.layout call)) u.run = some reply) :
    LayoutRun (u.next (.layout call)) (call.enter reply terms) := by
  obtain ⟨bs, hsound⟩ := h.reachable.sound
  obtain ⟨_, run, _, _, _, _, hact, -⟩ := hsound.carry_lawful hcall
  obtain rfl := Option.some.inj ((Action.answer_of_ok hact).symm.trans hreply)
  rw [HeapSession.next, hact]
  exact h.call hcall hact

/-- 100 bytes at a multiple of 64. -/
def sampleLayout : Layout := ⟨100, 64, ⟨6, rfl⟩, by decide⟩

/-- A heap that granted a block of that layout. -/
def layoutSample : HeapSession :=
  ((start minBlockSpan {} .none).next (.heap (.addBlock 4096 512))).next
    (.layout (.alloc sampleLayout))

theorem layoutSample_run : ∃ terms, LayoutRun layoutSample terms ∧ terms 4160 = ⟨100, 64⟩ := by
  have hempty : LayoutRun (start minBlockSpan {} .none) fun _ => ⟨0, 1⟩ := .start _ _ (by decide) _
  have hpool := hempty.next_addBlock 4096 512 ⟨by decide, by decide, nofun⟩
  exact ⟨_, hpool.next (.alloc sampleLayout) (.address (some 4160)) (Nat.succ_ne_zero 99)
    (by decide +kernel), rfl⟩

/-- The block moves to another one to grow, and its contents move with it. -/
theorem layout_sample : ∃ (terms : Nat → Terms) (run : Run Heap),
    LayoutRun layoutSample terms ∧ terms 4160 = ⟨100, 64⟩ ∧
      Call.act (.layout (.realloc 4160 sampleLayout 200)) layoutSample.run =
        .ok (.address (some 4288)) run ∧
      sampleLayout.align ∣ 4288 ∧
      ∀ i, i < 100 → run.mem.get (4288 + i) = layoutSample.run.mem.get (4160 + i) := by
  obtain ⟨terms, hrun, hterms⟩ := layoutSample_run
  have hlive : 4160 ∈ layoutSample.live := by decide +kernel
  have hlawful : Heap.LayoutCall.Lawful layoutSample terms (.realloc 4160 sampleLayout 200) :=
    ⟨hlive, hterms ▸ rfl, by decide⟩
  obtain ⟨reply, run, hact, hserved⟩ := hrun.contract.2 _ hlawful
  have hreply : EStateM.run' (Call.act (.layout (.realloc 4160 sampleLayout 200)))
      layoutSample.run = some (.address (some 4288)) := by decide +kernel
  obtain rfl := Option.some.inj ((Action.answer_of_ok hact).symm.trans hreply)
  exact ⟨terms, run, hrun, hterms, hact, hserved.aligned _ rfl, fun i hi =>
    hserved.contents _ _ _ _ rfl rfl i (hterms ▸ hi) (by omega)⟩

end HeapSession

end PoolAlloc
