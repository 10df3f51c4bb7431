import PoolAlloc.Heap.ByLayout
import PoolAlloc.Heap.CInterface
import PoolAlloc.Backend.Basic
import PoolAlloc.Proofs.Session
/-!
# PoolAlloc.Proofs.Calls

The calls of a shared heap as data, and what each of them comes to.

A heap is called in four ways: by its own operations (`Heap.Call`), by layout (`Heap.LayoutCall`),
as a backend (`BackendCall`) and through the functions of C (`CInterface.Call`). Many of these
operations are made of others, but all come to one of two things (`Plan`): an answer without a look
at the free list, or one access to it under the lock, after which a block may be cleared or a record
left. Statements about all calls go over plans, so a new operation needs its plan and nothing else.

Main statement: every call does what its plan says (`Call.act_eq`).
-/

namespace PoolAlloc

/-! ### Replies -/

/-- What a call answers. -/
inductive Reply
  /-- Nothing. -/
  | done
  /-- The address of a block, or none. -/
  | address (ptr : Option Nat)
  /-- The usable size that a region added, or none. -/
  | added (size : Option Nat)
  /-- The address of a block, or the reason why there is none. -/
  | outcome (result : Except AllocError Nat)
  /-- An error number, zero for success, and what the caller's pointer is overwritten with. -/
  | status (number : Nat) (out : Option Nat)
  /-- The size of a block. -/
  | size (bytes : Nat)
  /-- The totals over the free blocks. -/
  | totals (summary : FreeList.Summary)
  deriving DecidableEq

namespace Reply

/-- A reply that reports a failure. -/
def Failed : Reply → Prop
  | address ptr => ptr = none
  | added n => n = none
  | outcome result => result.toOption = none
  | status number _ => number ≠ 0
  | _ => False

end Reply

/-- The wording of an interface for what a request answers. -/
inductive Wording
  /-- As it is. -/
  | plain
  /-- A refusal with its reason. -/
  | outcome
  /-- An error number beside the address. -/
  | status
  /-- Nothing is answered. -/
  | silent
  /-- No address, whatever the request answers. -/
  | absent

/-- The words of an interface. -/
def Wording.reply : Wording → Reply → Reply
  | plain, x => x
  | outcome, .address (some ptr) => .outcome (.ok ptr)
  | outcome, _ => .outcome (.error .outOfMemory)
  | status, .address (some ptr) => .status 0 (some ptr)
  | status, _ => .status AllocError.outOfMemory.errno none
  | silent, _ => .done
  | absent, _ => .address none

/-! ### Requests to the list -/

/-- What a request does to a free list. -/
def Request.onList (l : FreeList) : Request → Except Fault (Option Nat × FreeList)
  | addRegion r => l.addRegion r.start r.len
  | allocate align size => l.allocateAligned align size
  | release ptr => do return (none, ← l.release ptr)
  | resize ptr align size => l.resize ptr align size
  | write addr byte => return (none, { l with mem := l.mem.set addr byte })

/-- What a request answers, as a reply. -/
def Request.reply (answer : Option Nat) : Request → Reply
  | addRegion _ => .added answer
  | allocate _ _ => .address answer
  | release _ => .done
  | resize _ _ _ => .address answer
  | write _ _ => .done

/-- A request in a session is a request to its list. -/
theorem Session.onList_of_perform {s s' : Session} {r : Request} {answer : Option Nat}
    (h : s.perform r = .ok (answer, s')) : r.onList s.list = .ok (answer, s'.list) := by
  cases r with
  | addRegion r =>
    obtain ⟨⟨a, l⟩, hl, heq⟩ := bind_eq_ok.1 h
    obtain ⟨rfl, rfl⟩ := Prod.mk.inj (Except.ok.inj heq)
    exact hl
  | allocate align size =>
    obtain ⟨⟨a, l⟩, hl, heq⟩ := bind_eq_ok.1 h
    cases a <;> obtain ⟨rfl, rfl⟩ := Prod.mk.inj (Except.ok.inj heq) <;> exact hl
  | release ptr =>
    obtain ⟨l, hl, heq⟩ := bind_eq_ok.1 h
    obtain ⟨rfl, rfl⟩ := Prod.mk.inj (Except.ok.inj heq)
    simp only [Request.onList, hl, ok_bind]
    rfl
  | resize ptr align size =>
    obtain ⟨⟨a, l⟩, hl, heq⟩ := bind_eq_ok.1 h
    cases a <;> obtain ⟨rfl, rfl⟩ := Prod.mk.inj (Except.ok.inj heq) <;> exact hl
  | write addr byte =>
    obtain ⟨rfl, rfl⟩ := Prod.mk.inj (Except.ok.inj h)
    rfl

/-- So is a request to its list in the session. -/
theorem Session.perform_of_onList {s : Session} {l : FreeList} {r : Request} {answer : Option Nat}
    (h : r.onList s.list = .ok (answer, l)) :
    ∃ s', s.perform r = .ok (answer, s') ∧ s'.list = l := by
  cases r with
  | addRegion r =>
    have hl : s.list.addRegion r.start r.len = .ok (answer, l) := h
    exact ⟨_, by rw [perform, hl, ok_bind]; rfl, rfl⟩
  | allocate align size =>
    have hl : s.list.allocateAligned align size = .ok (answer, l) := h
    cases answer <;> exact ⟨_, by rw [perform, hl, ok_bind]; rfl, rfl⟩
  | release ptr =>
    obtain ⟨l', hl, heq⟩ := bind_eq_ok.1 h
    obtain ⟨rfl, rfl⟩ := Prod.mk.inj (Except.ok.inj heq)
    exact ⟨_, by rw [perform, hl, ok_bind]; rfl, rfl⟩
  | resize ptr align size =>
    have hl : s.list.resize ptr align size = .ok (answer, l) := h
    cases answer <;> exact ⟨_, by rw [perform, hl, ok_bind]; rfl, rfl⟩
  | write addr byte =>
    obtain ⟨rfl, rfl⟩ := Prod.mk.inj (Except.ok.inj h)
    exact ⟨_, rfl, rfl⟩

/-! ### Accesses and plans -/

/-- What a call does with the free list while it holds the lock. -/
inductive Access
  /-- It makes a request. -/
  | request (r : Request)
  /-- It looks at the size of the granted block at `ptr`. -/
  | usableSize (ptr : Nat)
  /-- It adds up the free blocks. -/
  | summary

namespace Access

/-- What an access does to a free list. -/
def onList (l : FreeList) : Access → Except Fault (Reply × FreeList)
  | request r => do
    let (answer, l) ← r.onList l
    return (r.reply answer, l)
  | usableSize ptr => return (.size (l.usableSize ptr), l)
  | summary => do return (.totals (← l.summary), l)

/-- What a call has left to do once it let go of the lock: a region that was offered is recorded,
and a block that was granted is cleared if it is to be `zeroed`. -/
def finish (zeroed : Bool) : Access → Reply → Run Heap → Run Heap
  | request (.addRegion r), .added size, run =>
    run.observe (.log (Heap.addBlockRecord r.start r.len size))
  | request (.allocate _ size), .address (some ptr), run =>
    if zeroed then { run with mem := run.mem.clear ptr size } else run
  | _, _, run => run

/-- What the contract asks of a client. -/
def Allowed (s : Session) : Access → Prop
  | request r => r.Allowed s
  | usableSize ptr => ptr ∈ s.live
  | summary => True

end Access

/-- What a call comes to. -/
inductive Plan
  /-- It answers without the lock, and may leave a record. -/
  | aside (record : Option String) (reply : Reply)
  /-- It makes one access under the lock, finishes what is left to do, and words its answer. -/
  | inside (access : Access) (zeroed : Bool) (wording : Wording)

namespace Plan

/-- What a plan does. -/
def act : Plan → Action Heap Reply
  | aside record reply => do
    match record with
    | some text => Action.emit (.log text)
    | none => pure ()
    return reply
  | inside access zeroed wording => do
    let x ← Heap.locked access.onList
    modify (access.finish zeroed x)
    return wording.reply x

/-- A block of `size` bytes is to be granted at a multiple of `align`, if that makes sense. -/
def grant (align size : Nat) (zeroed : Bool) (wording : Wording) (refusal : Reply) : Plan :=
  if size = 0 ∨ ¬ IsAlignment align then
    aside none refusal
  else
    inside (.request (.allocate align size)) zeroed wording

/-- A block of `size` bytes is to be granted at a multiple of `align`, or none. -/
def alloc (align size : Nat) : Plan := grant align size false .plain (.address none)

/-- The same with an error number beside the address. -/
def posixMemalign (align size : Nat) : Plan :=
  grant align size false .status (.status AllocError.invalidArgument.errno none)

/-- A block of `count` times `size` bytes is to be granted at a multiple of `align`, all zero. -/
def calloc (align count size : Nat) : Plan :=
  match mulChecked count size with
  | none => aside none (.address none)
  | some len => grant align len true .plain (.address none)

/-- A block is to be taken back, if there is one. -/
def free : Option Nat → Plan
  | none => aside none .done
  | some ptr => inside (.request (.release ptr)) false .silent

/-- A block is to be given room for `size` bytes. -/
def resize (ptr align size : Nat) : Plan := inside (.request (.resize ptr align size)) false .plain

/-- The same where there may be no block, and where no bytes mean that it is to be taken back. -/
def realloc (align : Nat) : Option Nat → Nat → Plan
  | none, size => alloc align size
  | some ptr, size =>
    if size = 0 then inside (.request (.release ptr)) false .absent else resize ptr align size

/-- The size of a block is to be looked up, if there is one. -/
def usableSize : Option Nat → Plan
  | none => aside none (.size 0)
  | some ptr => inside (.usableSize ptr) false .plain

end Plan

/-! ### The interfaces -/

/-- The operations of a heap. -/
inductive Heap.Call
  | init
  | addBlock (start len : Nat)
  | malloc (size : Nat)
  | free (ptr : Option Nat)
  | tryAlignedMalloc (align size : Nat)
  | alignedMalloc (align size : Nat)
  | memalign (align size : Nat)
  | alignedFree (ptr : Option Nat)
  | posixMemalign (align size : Nat)
  | calloc (count size : Nat)
  | realloc (ptr : Option Nat) (size : Nat)
  | alignedRealloc (ptr align size : Nat)
  | usableSize (ptr : Option Nat)
  | summary

/-- The operations of a heap by layout. -/
inductive Heap.LayoutCall
  | alloc (layout : Layout)
  | allocZeroed (layout : Layout)
  | free (ptr : Nat) (layout : Layout)
  | realloc (ptr : Nat) (layout : Layout) (newSize : Nat)

/-- The functions of C. -/
inductive CInterface.Call
  | addBlock (addr : Option Nat) (size : Nat)
  | init
  | alignedMalloc (align size : Nat)
  | alignedFree (ptr : Option Nat)
  | malloc (size : Nat)
  | free (ptr : Option Nat)
  | calloc (number size : Nat)
  | realloc (ptr : Option Nat) (size : Nat)
  | posixMemalign (alignment size : Nat)
  | memalign (alignment size : Nat)
  | alignedAlloc (alignment size : Nat)
  | usableSize (ptr : Option Nat)

/-- A call of a heap. -/
inductive Call
  | heap (call : Heap.Call)
  | layout (call : Heap.LayoutCall)
  | backend (call : BackendCall)
  | c (call : CInterface.Call)

namespace Heap.Call

/-- What the call does. -/
def act : Heap.Call → Action Heap Reply
  | init => do
    Heap.init
    return .done
  | addBlock start len => do return .added (← Heap.addBlock start len)
  | malloc size => do return .address (← Heap.malloc size)
  | free ptr => do
    Heap.free ptr
    return .done
  | tryAlignedMalloc align size => do return .outcome (← Heap.tryAlignedMalloc align size)
  | alignedMalloc align size => do return .address (← Heap.alignedMalloc align size)
  | memalign align size => do return .address (← Heap.memalign align size)
  | alignedFree ptr => do
    Heap.alignedFree ptr
    return .done
  | posixMemalign align size => do
    let (number, out) ← Heap.posixMemalign align size
    return .status number out
  | calloc count size => do return .address (← Heap.calloc count size)
  | realloc ptr size => do return .address (← Heap.realloc ptr size)
  | alignedRealloc ptr align size => do return .address (← Heap.alignedRealloc ptr align size)
  | usableSize ptr => do return .size (← Heap.usableSize ptr)
  | summary => do return .totals (← Heap.summary)

/-- What the call comes to. -/
def plan : Heap.Call → Plan
  | init => .aside (some "heap initialized") .done
  | addBlock start len => .inside (.request (.addRegion ⟨start, len⟩)) false .plain
  | malloc size => .alloc granularity size
  | free ptr | alignedFree ptr => .free ptr
  | tryAlignedMalloc align size =>
    .grant align size false .outcome (.outcome (.error .invalidArgument))
  | alignedMalloc align size | memalign align size => .alloc align size
  | posixMemalign align size => .posixMemalign align size
  | calloc count size => .calloc granularity count size
  | realloc ptr size => .realloc granularity ptr size
  | alignedRealloc ptr align size => .resize ptr align size
  | usableSize ptr => .usableSize ptr
  | summary => .inside .summary false .plain

end Heap.Call

namespace Heap.LayoutCall

/-- What the call does. -/
def act : Heap.LayoutCall → Action Heap Reply
  | alloc layout => do return .address (← Heap.allocLayout layout)
  | allocZeroed layout => do return .address (← Heap.allocLayoutZeroed layout)
  | free ptr layout => do
    Heap.freeLayout ptr layout
    return .done
  | realloc ptr layout newSize => do return .address (← Heap.reallocLayout ptr layout newSize)

/-- What the call comes to. -/
def plan : Heap.LayoutCall → Plan
  | alloc layout => .alloc layout.align layout.size
  | allocZeroed layout => .grant layout.align layout.size true .plain (.address none)
  | free ptr _ => .free (some ptr)
  | realloc ptr layout newSize => .resize ptr layout.align newSize

end Heap.LayoutCall

namespace BackendCall

/-- What the call of a heap as a backend does. -/
def act : BackendCall → Action Heap Reply
  | init => do
    Backend.init
    return .done
  | addBlock start len => do
    Backend.addBlock start len
    return .done
  | alloc size => do return .address (← Backend.alloc size)
  | free ptr => do
    Backend.free ptr
    return .done

/-- What the call comes to. -/
def plan : BackendCall → Plan
  | init => .aside (some "heap initialized") .done
  | addBlock start len => .inside (.request (.addRegion ⟨start, len⟩)) false .silent
  | alloc size => .alloc granularity size
  | free ptr => .free ptr

end BackendCall

namespace CInterface.Call

/-- What the call does. -/
def act : CInterface.Call → Action Heap Reply
  | addBlock addr size => do
    CInterface.addBlock addr size
    return .done
  | init => do
    CInterface.init
    return .done
  | alignedMalloc align size => do return .address (← CInterface.alignedMalloc align size)
  | alignedFree ptr => do
    CInterface.alignedFree ptr
    return .done
  | malloc size => do return .address (← CInterface.malloc size)
  | free ptr => do
    CInterface.free ptr
    return .done
  | calloc number size => do return .address (← CInterface.calloc number size)
  | realloc ptr size => do return .address (← CInterface.realloc ptr size)
  | posixMemalign alignment size => do
    let (number, out) ← CInterface.posixMemalign alignment size
    return .status number out
  | memalign alignment size => do return .address (← CInterface.memalign alignment size)
  | alignedAlloc alignment size => do return .address (← CInterface.alignedAlloc alignment size)
  | usableSize ptr => do return .size (← CInterface.usableSize ptr)

/-- What the call comes to. -/
def plan : CInterface.Call → Plan
  | addBlock none _ => .aside none .done
  | addBlock (some addr) size => .inside (.request (.addRegion ⟨addr, size⟩)) false .silent
  | init => .aside (some "heap initialized") .done
  | alignedMalloc align size | memalign align size | alignedAlloc align size => .alloc align size
  | free ptr | alignedFree ptr => .free ptr
  | malloc size => .alloc minAlign size
  | calloc number size => .calloc minAlign number size
  | realloc ptr size => .realloc minAlign ptr size
  | posixMemalign alignment size => .posixMemalign alignment size
  | usableSize ptr => .usableSize ptr

end CInterface.Call

namespace Call

/-- What a call does. -/
def act : Call → Action Heap Reply
  | heap call => call.act
  | layout call => call.act
  | backend call => call.act
  | c call => call.act

/-- What a call comes to. -/
def plan : Call → Plan
  | heap call => call.plan
  | layout call => call.plan
  | backend call => call.plan
  | c call => call.plan

end Call

/-! ### What the plans do

Each plan is the operation it is named for: the operations below reach the free list themselves, all
others are made of them. -/

namespace Heap

variable {α β : Type}

/-- What an access answers can be reworded before or after the lock is let go. -/
theorem locked_map (body : FreeList → Except Fault (α × FreeList)) (f : α → β) :
    locked (fun l => do
      let (x, l) ← body l
      return (f x, l)) = do return f (← locked body) := by
  funext r
  simp only [Action.bind_apply, locked]
  cases r.object.lock.acquire? with
  | none => rfl
  | some lock =>
    dsimp only
    cases body (freeList (setLock r lock .lock)) <;> rfl

/-- A block is granted under the lock, unless the request makes no sense. -/
theorem alignedMalloc_eq (align size : Nat) :
    alignedMalloc align size =
      if size = 0 ∨ ¬ IsAlignment align then pure none
      else locked fun l => l.allocateAligned align size := by
  rw [alignedMalloc, tryAlignedMalloc]
  split
  · rfl
  · rw [bind_assoc]
    refine (bind_congr fun a => ?_).trans (bind_pure _)
    cases a <;> rfl

/-- A plain request is one at a multiple of the granularity. -/
theorem malloc_eq (size : Nat) : malloc size = alignedMalloc granularity size := by
  rw [alignedMalloc_eq]
  simp only [isAlignment_granularity, not_true_eq_false, or_false]
  rfl

/-- Taking a block back is a request to the list. -/
theorem free_eq (ptr : Nat) :
    free (some ptr) = do
      let _ ← locked fun l => (Request.release ptr).onList l
      return () := by
  rw [← locked_map, free]
  simp only [Request.onList, bind_assoc, pure_bind]

end Heap

namespace Plan

theorem inside_request (r : Request) (zeroed : Bool) (w : Wording) :
    (inside (.request r) zeroed w).act = do
      let answer ← Heap.locked fun l => r.onList l
      modify ((Access.request r).finish zeroed (r.reply answer))
      return w.reply (r.reply answer) := by
  have hmap := Heap.locked_map (fun l => r.onList l) fun answer => r.reply answer
  simp only [act, Access.onList, hmap, bind_assoc, pure_bind]

theorem grant_eq (align size : Nat) (zeroed : Bool) (w : Wording) (refusal : Reply) :
    (grant align size zeroed w refusal).act =
      if size = 0 ∨ ¬ IsAlignment align then pure refusal else do
        let answer ← Heap.locked fun l => l.allocateAligned align size
        modify ((Access.request (.allocate align size)).finish zeroed (.address answer))
        return w.reply (.address answer) := by
  rw [grant]
  split
  · rfl
  · exact inside_request ..

theorem alloc_act (align size : Nat) :
    (alloc align size).act = do return .address (← Heap.alignedMalloc align size) := by
  rw [alloc, grant_eq, Heap.alignedMalloc_eq]
  split
  · rfl
  · refine bind_congr fun answer => ?_
    cases answer <;> rfl

theorem grant_zeroed (align size : Nat) :
    (grant align size true .plain (.address none)).act = do
      let answer ← Heap.alignedMalloc align size >>= Heap.cleared size
      return .address answer := by
  rw [grant_eq, Heap.alignedMalloc_eq, bind_assoc]
  split
  · rfl
  · refine bind_congr fun answer => ?_
    cases answer <;> rfl

theorem grant_outcome (align size : Nat) :
    (grant align size false .outcome (.outcome (.error .invalidArgument))).act = do
      return .outcome (← Heap.tryAlignedMalloc align size) := by
  rw [grant_eq, Heap.tryAlignedMalloc]
  split
  · rfl
  · rw [bind_assoc]
    refine bind_congr fun answer => ?_
    cases answer <;> rfl

theorem posixMemalign_act (align size : Nat) :
    (posixMemalign align size).act = do
      let (number, out) ← Heap.posixMemalign align size
      return .status number out := by
  rw [posixMemalign, grant_eq, Heap.posixMemalign, Heap.tryAlignedMalloc]
  split
  · rfl
  · rw [bind_assoc, bind_assoc]
    refine bind_congr fun answer => ?_
    cases answer <;> rfl

theorem calloc_act (align count size : Nat) :
    (calloc align count size).act =
      (match mulChecked count size with
        | none => pure none
        | some len => Heap.alignedMalloc align len >>= Heap.cleared len) >>= fun answer =>
      pure (.address answer) := by
  rw [calloc]
  cases mulChecked count size with
  | none => rfl
  | some len => exact grant_zeroed ..

theorem free_act (ptr : Option Nat) :
    (free ptr).act = do
      Heap.free ptr
      return .done := by
  cases ptr with
  | none => rfl
  | some ptr =>
    rw [free, inside_request, Heap.free_eq, bind_assoc]
    rfl

theorem resize_act (ptr align size : Nat) :
    (resize ptr align size).act = do
      return .address (← Heap.alignedRealloc ptr align size) :=
  inside_request ..

theorem realloc_act (align : Nat) (ptr : Option Nat) (size : Nat) :
    (realloc align ptr size).act =
      (match ptr with
        | none => Heap.alignedMalloc align size
        | some ptr =>
          if size = 0 then Heap.free (some ptr) >>= fun _ => pure none
          else Heap.alignedRealloc ptr align size) >>= fun answer =>
      pure (.address answer) := by
  cases ptr with
  | none => exact alloc_act ..
  | some ptr =>
    rw [realloc]
    dsimp only
    split
    · rw [inside_request, Heap.free_eq, bind_assoc, bind_assoc]
      rfl
    · exact resize_act ..

theorem usableSize_act (ptr : Option Nat) :
    (usableSize ptr).act = do return .size (← Heap.usableSize ptr) := by
  cases ptr with
  | none => rfl
  | some ptr =>
    have hmap := Heap.locked_map (fun l => pure (l.usableSize ptr, l)) Reply.size
    simp only [pure_bind] at hmap
    simp only [usableSize, act, Access.onList, hmap, bind_assoc, pure_bind]
    rfl

theorem addRegion_plain (start len : Nat) :
    (inside (.request (.addRegion ⟨start, len⟩)) false .plain).act = do
      return .added (← Heap.addBlock start len) := by
  rw [inside_request, Heap.addBlock, bind_assoc]
  rfl

theorem addRegion_silent (start len : Nat) :
    (inside (.request (.addRegion ⟨start, len⟩)) false .silent).act = do
      (do let _ ← Heap.addBlock start len)
      return .done := by
  rw [inside_request, Heap.addBlock, bind_assoc, bind_assoc]
  rfl

theorem summary_plain :
    (inside .summary false .plain).act = do return .totals (← Heap.summary) := by
  have hmap := Heap.locked_map (fun l => do return (← l.summary, l)) Reply.totals
  simp only [bind_assoc, pure_bind] at hmap
  simp only [act, Access.onList, hmap, bind_assoc, pure_bind]
  rfl

end Plan

/-! ### Every call does what its plan says -/

theorem Heap.Call.act_eq (call : Heap.Call) : call.act = call.plan.act := by
  cases call with
  | init => rfl
  | addBlock start len => exact (Plan.addRegion_plain ..).symm
  | malloc size =>
    rw [act, Heap.malloc_eq]
    exact (Plan.alloc_act ..).symm
  | free ptr | alignedFree ptr => exact (Plan.free_act ptr).symm
  | tryAlignedMalloc align size => exact (Plan.grant_outcome ..).symm
  | alignedMalloc align size | memalign align size => exact (Plan.alloc_act ..).symm
  | posixMemalign align size => exact (Plan.posixMemalign_act ..).symm
  | calloc count size =>
    rw [act, plan, Plan.calloc_act, Heap.calloc]
    cases mulChecked count size with
    | none => rfl
    | some len => simp only [Heap.malloc_eq]
  | realloc ptr size =>
    rw [act, plan, Plan.realloc_act]
    cases ptr with
    | none => rw [Heap.realloc, Heap.malloc_eq]
    | some ptr => rfl
  | alignedRealloc ptr align size => exact (Plan.resize_act ..).symm
  | usableSize ptr => exact (Plan.usableSize_act ptr).symm
  | summary => exact Plan.summary_plain.symm

theorem Heap.LayoutCall.act_eq (call : Heap.LayoutCall) : call.act = call.plan.act := by
  cases call with
  | alloc layout => exact (Plan.alloc_act ..).symm
  | allocZeroed layout =>
    rw [act, Heap.allocLayoutZeroed]
    exact (Plan.grant_zeroed ..).symm
  | free ptr layout => exact (Plan.free_act _).symm
  | realloc ptr layout newSize => exact (Plan.resize_act ..).symm

theorem BackendCall.act_eq (call : BackendCall) : call.act = call.plan.act := by
  cases call with
  | init => rfl
  | addBlock start len => exact (Plan.addRegion_silent ..).symm
  | alloc size =>
    have halloc : (Backend.alloc size : Action Heap (Option Nat)) =
        Heap.alignedMalloc granularity size := Heap.malloc_eq size
    rw [act, halloc]
    exact (Plan.alloc_act ..).symm
  | free ptr => exact (Plan.free_act ptr).symm

theorem CInterface.Call.act_eq (call : CInterface.Call) : call.act = call.plan.act := by
  cases call with
  | addBlock addr size =>
    cases addr with
    | none => rfl
    | some addr => exact (Plan.addRegion_silent ..).symm
  | init => rfl
  | alignedMalloc align size | memalign align size | alignedAlloc align size | malloc size =>
    exact (Plan.alloc_act ..).symm
  | free ptr | alignedFree ptr => exact (Plan.free_act ptr).symm
  | calloc number size => exact (Plan.calloc_act ..).symm
  | realloc ptr size =>
    rw [act, plan, Plan.realloc_act]
    cases ptr <;> rfl
  | posixMemalign alignment size => exact (Plan.posixMemalign_act ..).symm
  | usableSize ptr => exact (Plan.usableSize_act ptr).symm

/-- Every call does what its plan says. -/
theorem Call.act_eq (call : Call) : call.act = call.plan.act := by
  cases call with
  | heap call => exact call.act_eq
  | layout call => exact call.act_eq
  | backend call => exact call.act_eq
  | c call => exact call.act_eq

end PoolAlloc
