import PoolAlloc.Proofs.Aligning
/-!
# PoolAlloc.Proofs.Refusal

What is refused changes nothing.

A list refuses before it writes (`Session.unchanged_of_none`). A call reports a failure in
the words of its interface, and it has to be shown that these words stand for a refusal: either the
call never came to the free list, or the list granted nothing (`Plan.Honest`). The one call that
answers nothing and yet did something is a resize to zero bytes, which takes the block back.

Main statement: `refusals_change_nothing`.
-/

namespace PoolAlloc

open FreeList Heap OffsetAligned

/-- A call that takes a block back in the guise of resizing it. -/
def Call.ResizesToNothing : Call → Prop
  | heap (.realloc (some _) 0) | c (.realloc (some _) 0) => True
  | _ => False

/-! ### Failures are refusals -/

namespace Plan

/-- A failure is reported for a refusal only, and overwrites the caller's pointer with none. -/
def Honest : Plan → Prop
  | aside _ reply => ∀ number out, reply = .status number out → out = none
  | inside (.request (.allocate _ _)) _ w => w ≠ .absent
  | inside _ _ w => w = .plain ∨ w = .silent

theorem grant_honest {align size : Nat} {zeroed : Bool} {w : Wording} {refusal : Reply}
    (hw : w ≠ .absent) (hrefusal : ∀ number out, refusal = .status number out → out = none) :
    (grant align size zeroed w refusal).Honest := by
  unfold grant
  split
  · exact hrefusal
  · exact hw

/-- A grant that answers an address or none. -/
theorem plain_grant_honest (align size : Nat) (zeroed : Bool) :
    (grant align size zeroed .plain (.address none)).Honest :=
  grant_honest Wording.noConfusion fun _ _ => Reply.noConfusion

theorem alloc_honest (align size : Nat) : (alloc align size).Honest :=
  plain_grant_honest align size false

theorem posixMemalign_honest (align size : Nat) : (posixMemalign align size).Honest :=
  grant_honest nofun fun _ _ heq => (Reply.status.inj heq).2.symm

theorem calloc_honest (align count size : Nat) : (calloc align count size).Honest := by
  rw [calloc]
  cases mulChecked count size with
  | none => exact fun _ _ => Reply.noConfusion
  | some len => exact plain_grant_honest align len true

theorem free_honest (ptr : Option Nat) : (free ptr).Honest := by
  cases ptr with
  | none => exact nofun
  | some ptr => exact Or.inr rfl

theorem realloc_honest (align : Nat) {ptr : Option Nat} {size : Nat}
    (h : ptr = none ∨ size ≠ 0) : (realloc align ptr size).Honest := by
  cases ptr with
  | none => exact alloc_honest align size
  | some ptr =>
    rw [realloc, if_neg (h.resolve_left (Option.some_ne_none ptr))]
    exact Or.inl rfl

theorem usableSize_honest (ptr : Option Nat) : (usableSize ptr).Honest := by
  cases ptr with
  | none => exact nofun
  | some ptr => exact Or.inl rfl

end Plan

theorem Heap.Call.honest {call : Heap.Call} (h : ¬ (PoolAlloc.Call.heap call).ResizesToNothing) :
    call.plan.Honest := by
  cases call with
  | init => exact nofun
  | addBlock | alignedRealloc | summary => exact Or.inl rfl
  | malloc | alignedMalloc | memalign => exact Plan.alloc_honest ..
  | free ptr | alignedFree ptr => exact Plan.free_honest ptr
  | tryAlignedMalloc => exact Plan.grant_honest nofun nofun
  | posixMemalign => exact Plan.posixMemalign_honest ..
  | calloc => exact Plan.calloc_honest ..
  | realloc ptr size =>
    refine Plan.realloc_honest _ ?_
    cases ptr with
    | none => exact Or.inl rfl
    | some ptr => exact Or.inr fun hzero => h (hzero ▸ trivial)
  | usableSize ptr => exact Plan.usableSize_honest ptr

theorem Heap.LayoutCall.honest (call : Heap.LayoutCall) : call.plan.Honest := by
  cases call with
  | alloc => exact Plan.alloc_honest ..
  | allocZeroed => exact Plan.grant_honest nofun nofun
  | free ptr => exact Plan.free_honest (some ptr)
  | realloc => exact Or.inl rfl

theorem BackendCall.honest (call : BackendCall) : call.plan.Honest := by
  cases call with
  | init => exact nofun
  | addBlock => exact Or.inr rfl
  | alloc => exact Plan.alloc_honest ..
  | free ptr => exact Plan.free_honest ptr

theorem CInterface.Call.honest {call : CInterface.Call}
    (h : ¬ (PoolAlloc.Call.c call).ResizesToNothing) : call.plan.Honest := by
  cases call with
  | addBlock addr size =>
    cases addr with
    | none => exact nofun
    | some addr => exact Or.inr rfl
  | init => exact nofun
  | alignedMalloc | malloc | memalign | alignedAlloc => exact Plan.alloc_honest ..
  | free ptr | alignedFree ptr => exact Plan.free_honest ptr
  | posixMemalign => exact Plan.posixMemalign_honest ..
  | calloc => exact Plan.calloc_honest ..
  | realloc ptr size =>
    refine Plan.realloc_honest _ ?_
    cases ptr with
    | none => exact Or.inl rfl
    | some ptr => exact Or.inr fun hzero => h (hzero ▸ trivial)
  | usableSize ptr => exact Plan.usableSize_honest ptr

theorem Call.honest {call : Call} (h : ¬ call.ResizesToNothing) : call.plan.Honest := by
  cases call with
  | heap call => exact Heap.Call.honest h
  | layout call => exact call.honest
  | backend call => exact call.honest
  | c call => exact CInterface.Call.honest h

/-- A failure that is reported after a request stands for its refusal. -/
theorem Plan.Honest.refused {r : Request} {zeroed : Bool} {w : Wording} {answer : Option Nat}
    (h : (inside (.request r) zeroed w).Honest) (hfailed : (w.reply (r.reply answer)).Failed) :
    r.MayFail ∧ answer = none ∧ ∀ number out,
      w.reply (r.reply answer) = .status number out → out = none := by
  cases r with
  | allocate align size =>
    cases answer with
    | none =>
      refine ⟨trivial, rfl, fun number out heq => ?_⟩
      cases w <;> cases heq
      rfl
    | some ptr =>
      cases w with
      | absent => exact absurd rfl h
      | status => exact absurd rfl hfailed
      | plain | outcome | silent => cases hfailed
  | addRegion | resize =>
    rcases h with rfl | rfl
    · exact ⟨trivial, hfailed, nofun⟩
    · exact hfailed.elim
  | release | write =>
    rcases h with rfl | rfl <;> exact hfailed.elim

namespace HeapSession

variable {u : HeapSession} {plan : Plan} {reply : Reply} {run : Run Heap}

/-- What fails as planned changes nothing. -/
theorem unchanged_of_failed (hplan : plan.Honest) (hrun : plan.act u.run = .ok reply run)
    (hfailed : reply.Failed) :
    u.Unchanged (u.after plan run) ∧ ∀ number out, reply = .status number out → out = none := by
  cases plan with
  | aside record _ =>
    obtain ⟨rfl, rfl⟩ := EStateM.Result.ok.inj ((aside_act ..).symm.trans hrun)
    exact ⟨⟨rfl, rfl, rfl⟩, hplan⟩
  | inside access zeroed w =>
    obtain ⟨x, l, hx, rfl, rfl⟩ := inside_returns hrun
    cases access with
    | request r =>
      obtain ⟨⟨answer, l⟩, hl, heq⟩ := bind_eq_ok.1 hx
      obtain ⟨rfl, rfl⟩ := Prod.mk.inj (Except.ok.inj heq)
      obtain ⟨hfail, rfl, hout⟩ := hplan.refused hfailed
      obtain ⟨s', hs, rfl⟩ := Session.perform_of_onList (s := u.session) hl
      exact ⟨unchanged_of_refused hfail hs, hout⟩
    | usableSize ptr =>
      -- A size is no failure, and neither are totals.
      obtain ⟨rfl, -⟩ := Prod.mk.inj (Except.ok.inj hx)
      rcases hplan with rfl | rfl <;> exact hfailed.elim
    | summary =>
      obtain ⟨totals, -, heq⟩ := bind_eq_ok.1 hx
      obtain ⟨rfl, -⟩ := Prod.mk.inj (Except.ok.inj heq)
      rcases hplan with rfl | rfl <;> exact hfailed.elim

end HeapSession

/-! ### Failures change nothing in any run -/

/-- A request that answers nothing leaves the list, all of memory and the granted blocks as they
are, and so does a call that reports a failure, in any state and whether or not it keeps the
contract; with an error number the caller's pointer is overwritten with none. The exception is a
resize to zero bytes, which takes the block back. Under the contract requests and calls do return,
and so do aligned grants from a heap; where these grant nothing, nothing changes either. -/
theorem refusals_change_nothing :
    (∀ (s s' : Session) (r : Request), r.MayFail → s.perform r = .ok (none, s') →
      s'.list = s.list ∧ s'.live = s.live) ∧
    (∀ (u : HeapSession) (call : Call) (reply : Reply) (run : Run Heap),
      ¬ call.ResizesToNothing → call.act u.run = .ok reply run → reply.Failed →
        u.Unchanged (u.after call.plan run) ∧
          ∀ number out, reply = .status number out → out = none) ∧
    (∀ s : Session, s.Reachable → ∀ r : Request, r.Allowed s →
      ∃ answer s', s.perform r = .ok (answer, s')) ∧
    (∀ u : HeapSession, u.Reachable → ∀ call : Call, call.Allowed u.session →
      ∃ reply run, call.act u.run = .ok reply run) ∧
    ∀ u : HeapSession, u.Reachable → ∀ align size, ∃ (answer : Option Nat) (u' : HeapSession),
      alignedAlloc align size (around u.run) = .ok answer (around u'.run) ∧
        (answer = none → u.Unchanged u') := by
  refine ⟨fun s s' r hfail hs => Session.unchanged_of_none hfail hs,
    fun u call reply run hresize hrun hfailed => ?_, fun s hs r hr => ?_, fun u hu call hcall => ?_,
    fun u hu align size => ?_⟩
  · rw [call.act_eq] at hrun
    exact HeapSession.unchanged_of_failed (Call.honest hresize) hrun hfailed
  · obtain ⟨bs, hsound⟩ := hs.sound
    obtain ⟨answer, s', -, hs', -⟩ := hsound.perform hr
    exact ⟨answer, s', hs'⟩
  · obtain ⟨bs, hsound⟩ := hu.sound
    obtain ⟨reply, run, -, hrun, -⟩ := hsound.act hcall
    exact ⟨reply, run, hrun⟩
  · obtain ⟨answer, u', halloc, -, hnone⟩ := hu.alignedAlloc align size
    exact ⟨answer, u', halloc, hnone⟩

/-- Neither the sample session nor the sample heap has room for 1000 bytes. -/
theorem refusal_sample :
    (∃ s', Session.sample.perform (.resize 4160 8 1000) = .ok (none, s') ∧
      s'.list = Session.sample.list ∧ s'.live = Session.sample.live) ∧
    (∃ reply run, Call.act (.c (.posixMemalign 16 1000)) HeapSession.sample.run = .ok reply run ∧
      reply.Failed ∧ run.object = HeapSession.sample.run.object ∧
      run.mem = HeapSession.sample.run.mem) ∧
    ∃ u' : HeapSession, alignedAlloc 64 1000 (around HeapSession.sample.run) =
      .ok none (around u'.run) ∧ HeapSession.sample.Unchanged u' := by
  obtain ⟨hlist, hcalls, hperform, hact, haligned⟩ := refusals_change_nothing
  refine ⟨?_, ?_, ?_⟩
  · have hlive : (Request.resize 4160 8 1000).Allowed Session.sample := by
      show 4160 ∈ _
      decide +kernel
    have hnone : (Session.sample.perform (.resize 4160 8 1000)).toOption.bind Prod.fst = none := by
      decide +kernel
    obtain ⟨answer, s', hs'⟩ := hperform _ Session.sample_reachable _ hlive
    rw [hs'] at hnone
    obtain rfl : answer = none := hnone
    exact ⟨s', hs', hlist _ _ (.resize 4160 8 1000) trivial hs'⟩
  · obtain ⟨reply, run, hrun⟩ :=
      hact _ HeapSession.sample_reachable (.c (.posixMemalign 16 1000)) trivial
    have hanswer : EStateM.run' (Call.act (.c (.posixMemalign 16 1000))) HeapSession.sample.run =
        some (.status AllocError.outOfMemory.errno none) := by
      decide +kernel
    obtain rfl := Option.some.inj ((Action.answer_of_ok hrun).symm.trans hanswer)
    have hfailed : Reply.Failed (.status AllocError.outOfMemory.errno none) :=
      AllocError.errno_ne_zero _
    obtain ⟨hunchanged, -⟩ := hcalls _ _ _ _ id hrun hfailed
    exact ⟨_, run, hrun, hfailed, hunchanged.object_eq, hunchanged.mem_eq⟩
  · obtain ⟨answer, u', halloc, hrefused⟩ := haligned _ HeapSession.sample_reachable 64 1000
    have hanswer : EStateM.run' (alignedAlloc 64 1000) (around HeapSession.sample.run) =
        some none := by
      decide +kernel
    obtain rfl : answer = none :=
      Option.some.inj ((Action.answer_of_ok halloc).symm.trans hanswer)
    exact ⟨u', halloc, hrefused rfl⟩

end PoolAlloc
