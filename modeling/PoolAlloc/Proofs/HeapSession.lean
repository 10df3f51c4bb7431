import PoolAlloc.Proofs.Calls
import PoolAlloc.Proofs.Walking
/-!
# PoolAlloc.Proofs.HeapSession

A shared heap in use: the calls its clients make, one after another, through any of its interfaces.

As with a `Session`, the regions that were handed in and the granted blocks are kept beside the heap
so that statements can speak of them, and clients are bound by the contract of the requests that
their calls come to. Between calls they write into the payloads of granted blocks. `Reachable`
collects what can be reached from an empty heap, over any memory and under any lock that nobody
holds.

Main statements: a call that the contract allows returns, and `Conduct` describes what it answers
and leaves (`Sound.act`); the free list of a reachable heap is sound, and its lock is free
(`Reachable.sound`).
-/

namespace PoolAlloc

open Memory FreeList

/-! ### A section under the lock -/

namespace Heap

/-- What is observed of a section under a lock: the calls of its hooks, if it has any. -/
def sectionEvents (lock : Lock) (seen left : FreeList) : List Event :=
  match lock with
  | .hooks _ => [.lock seen, .unlock left]
  | _ => []

/-- A run after a section under the lock that left the free list `l`. -/
def leave (run : Run Heap) (l : FreeList) : Run Heap :=
  let kept := keep run l
  { kept with
    trace := run.trace ++ sectionEvents run.object.lock (freeList run) (freeList kept) }

/-- Without hooks nothing is observed of a section. -/
theorem leave_eq_keep {run : Run Heap} (h : ∀ name, run.object.lock ≠ .hooks name) (l : FreeList) :
    leave run l = keep run l := by
  have hquiet : sectionEvents run.object.lock (freeList run) (freeList (keep run l)) = [] := by
    cases hlock : run.object.lock with
    | hooks name => exact absurd hlock (h name)
    | none | spin held => rfl
  rw [leave, hquiet, List.append_nil]
  rfl

/-- A section under a lock that is free lets the lock go, also where it raises a fault; then it
leaves the free list that it found. -/
theorem locked_eq {α : Type} {body : FreeList → Except Fault (α × FreeList)} {run : Run Heap}
    (hfree : run.object.lock.isHeld? ≠ some true) :
    locked body run =
      match body (freeList run) with
      | .ok (x, l) => .ok x (leave run l)
      | .error f => .error (.panic (.fault f)) (leave run (freeList run)) := by
  obtain ⟨⟨minSplit, head, lock⟩, mem, trace⟩ := run
  cases lock with
  | none =>
    have hkeep : leave ⟨⟨minSplit, head, .none⟩, mem, trace⟩ = keep _ :=
      funext (leave_eq_keep fun _ => Lock.noConfusion)
    rw [hkeep]
    rfl
  | spin held =>
    cases held with
    | true => exact absurd rfl hfree
    | false =>
      have hkeep : leave ⟨⟨minSplit, head, .spin false⟩, mem, trace⟩ = keep _ :=
        funext (leave_eq_keep fun _ => Lock.noConfusion)
      rw [hkeep]
      rfl
  | hooks name =>
    cases hbody : body (freeList ⟨⟨minSplit, head, .hooks name⟩, mem, trace⟩) with
    | error f =>
      simp only [locked, Lock.acquire?, freeList_setLock, hbody]
      simp only [letGo, setLock, Lock.letGo, Run.observe, List.append_assoc, leave, sectionEvents]
      rfl
    | ok out =>
      rw [locked_of_hooks rfl hbody]
      simp only [leave, sectionEvents, Run.observe, List.append_assoc]
      rfl

/-- A section does not return under a lock that would have to be waited for. -/
theorem locked_of_held {α : Type} (body : FreeList → Except Fault (α × FreeList)) {run : Run Heap}
    (hheld : run.object.lock.isHeld? = some true) : locked body run = .error .blocked run := by
  obtain ⟨⟨minSplit, head, lock⟩, mem, trace⟩ := run
  cases lock with
  | none | hooks name => cases hheld
  | spin held =>
    obtain rfl : held = true := Option.some.inj hheld
    rfl

/-- A section leaves the free list that it is said to leave. -/
theorem freeList_leave {run : Run Heap} {l : FreeList} (h : l.minSplit = run.object.minSplit) :
    freeList (leave run l) = l := by
  obtain ⟨minSplit, head, mem⟩ := l
  obtain rfl : minSplit = run.object.minSplit := h
  rfl

end Heap

open Heap

/-! ### Sessions -/

namespace Plan

/-- What the contract asks of a client. -/
def Allowed (s : Session) : Plan → Prop
  | aside _ _ => True
  | inside access _ _ => access.Allowed s

/-- The session of the free list afterwards. -/
def after (s : Session) : Plan → Session
  | inside (.request r) _ _ => s.after r
  | _ => s

/-- Anyone may ask for a block. -/
theorem grant_allowed {s : Session} {align size : Nat} {zeroed : Bool} {w : Wording}
    {refusal : Reply} : (grant align size zeroed w refusal).Allowed s := by
  unfold grant
  split <;> trivial

end Plan

/-- What the contract asks of a client. -/
def Call.Allowed (s : Session) (call : Call) : Prop := call.plan.Allowed s

/-- A shared heap in use. -/
structure HeapSession where
  /-- The heap, the memory and what was observed so far. -/
  run : Run Heap
  /-- The regions that were offered to the heap. -/
  regions : List Region
  /-- The payload addresses of the granted blocks. -/
  live : Finset Nat

namespace HeapSession

/-- The free list in use. -/
def session (u : HeapSession) : Session := ⟨freeList u.run, u.regions, u.live⟩

/-- A heap before its first call, over any memory. -/
def start (minSplit : Nat) (mem : Memory) (lock : Lock) : HeapSession :=
  ⟨{ object := { minSplit, lock }, mem }, [], ∅⟩

/-- The heap in use after something was done as planned that left `run`. -/
def after (u : HeapSession) (plan : Plan) (run : Run Heap) : HeapSession :=
  ⟨run, (plan.after u.session).regions, (plan.after u.session).live⟩

/-- The heap in use after a client wrote a byte. -/
def write (u : HeapSession) (addr : Nat) (byte : UInt8) : HeapSession :=
  { u with run := { u.run with mem := u.run.mem.set addr byte } }

/-- What clients that keep the contract can lead to. -/
inductive Reachable : HeapSession → Prop
  | start (minSplit : Nat) (mem : Memory) {lock : Lock} (h : lock.isHeld? ≠ some true) :
      Reachable (start minSplit mem lock)
  | call {u : HeapSession} {call : Call} {reply : Reply} {run : Run Heap} (h : Reachable u)
      (hcall : call.Allowed u.session) (hrun : call.act u.run = .ok reply run) :
      Reachable (u.after call.plan run)
  | write {u : HeapSession} {addr : Nat} (byte : UInt8) (h : Reachable u)
      (haddr : u.session.InPayload addr) : Reachable (u.write addr byte)

/-- The heap, the memory and the granted blocks are the same; records may have been left, and a
region may have been offered in vain. -/
structure Unchanged (u u' : HeapSession) : Prop where
  object_eq : u'.run.object = u.run.object
  mem_eq : u'.run.mem = u.run.mem
  live_eq : u'.live = u.live

theorem Unchanged.refl (u : HeapSession) : u.Unchanged u := ⟨rfl, rfl, rfl⟩

/-- The free list is sound and the lock is free. -/
structure Sound (u : HeapSession) (bs : List FreeBlock) : Prop where
  list : u.session.Sound bs
  free : u.run.object.lock.isHeld? ≠ some true

/-- A run in which a record is left. -/
def noted (run : Run Heap) (record : Option String) : Run Heap :=
  { run with trace := run.trace ++ record.toList.map .log }

/-- What is answered and left when a heap whose free blocks are `bs` does what was planned. -/
inductive Conduct (u : HeapSession) (bs : List FreeBlock) :
    Plan → Reply → Run Heap → List FreeBlock → Prop
  | aside {record : Option String} {reply : Reply} :
      Conduct u bs (.aside record reply) reply (noted u.run record) bs
  | request {r : Request} {zeroed : Bool} {w : Wording} {answer : Option Nat} {s' : Session}
      {bs' : List FreeBlock} (hr : r.Allowed u.session)
      (hs : u.session.perform r = .ok (answer, s'))
      (he : Session.Effect u.session bs r answer s' bs') :
      Conduct u bs (.inside (.request r) zeroed w) (w.reply (r.reply answer))
        ((Access.request r).finish zeroed (r.reply answer) (leave u.run s'.list)) bs'
  | look {access : Access} {zeroed : Bool} {w : Wording} {x : Reply}
      (hlook : ∀ r, access ≠ .request r)
      (hx : access.onList (freeList u.run) = .ok (x, freeList u.run)) :
      Conduct u bs (.inside access zeroed w) (w.reply x) (leave u.run (freeList u.run)) bs

variable {u : HeapSession} {bs bs' : List FreeBlock} {plan : Plan} {call : Call} {reply : Reply}
  {run : Run Heap}

/-! ### What a call does -/

theorem aside_act (record : Option String) (reply : Reply) (run : Run Heap) :
    (Plan.aside record reply).act run = .ok reply (noted run record) := by
  cases record with
  | none =>
    simp only [Plan.act, noted, Option.toList_none, List.map_nil, List.append_nil]
    rfl
  | some text => rfl

/-- An access under a free lock, finished and worded. -/
theorem inside_act {access : Access} {zeroed : Bool} {w : Wording} {x : Reply} {l : FreeList}
    (hfree : run.object.lock.isHeld? ≠ some true)
    (hx : access.onList (freeList run) = .ok (x, l)) :
    (Plan.inside access zeroed w).act run =
      .ok (w.reply x) (access.finish zeroed x (leave run l)) := by
  rw [Plan.act, Action.bind_apply, locked_eq hfree, hx]
  rfl

/-- An access under a free lock that raises a fault leaves the free list that it found. -/
theorem inside_act_of_error {access : Access} {zeroed : Bool} {w : Wording} {f : Fault}
    (hfree : run.object.lock.isHeld? ≠ some true)
    (hx : access.onList (freeList run) = .error f) :
    (Plan.inside access zeroed w).act run =
      .error (.panic (.fault f)) (leave run (freeList run)) := by
  rw [Plan.act, Action.bind_apply, locked_eq hfree, hx]

/-- An access waits for a lock that is held. -/
theorem inside_act_of_held (access : Access) (zeroed : Bool) (w : Wording)
    (hheld : run.object.lock.isHeld? = some true) :
    (Plan.inside access zeroed w).act run = .error .blocked run := by
  rw [Plan.act, Action.bind_apply, locked_of_held _ hheld]

/-- What was found and left by an access that returned. -/
theorem inside_returns {access : Access} {zeroed : Bool} {w : Wording} {run' : Run Heap}
    (h : (Plan.inside access zeroed w).act run = .ok reply run') :
    ∃ x l, access.onList (freeList run) = .ok (x, l) ∧ reply = w.reply x ∧
      run' = access.finish zeroed x (leave run l) := by
  have hfree : run.object.lock.isHeld? ≠ some true := by
    intro hheld
    cases (inside_act_of_held access zeroed w hheld).symm.trans h
  cases hx : access.onList (freeList run) with
  | ok out =>
    obtain ⟨x, l⟩ := out
    rw [inside_act hfree hx] at h
    obtain ⟨rfl, rfl⟩ := EStateM.Result.ok.inj h
    exact ⟨x, l, rfl, rfl, rfl⟩
  | error f => cases (inside_act_of_error hfree hx).symm.trans h

/-- What the contract allows is carried out as planned. -/
theorem Sound.plan_act (h : u.Sound bs) (hplan : plan.Allowed u.session) :
    ∃ reply run bs', plan.act u.run = .ok reply run ∧ u.Conduct bs plan reply run bs' := by
  cases plan with
  | aside record reply => exact ⟨reply, _, bs, aside_act .., .aside⟩
  | inside access zeroed w =>
    cases access with
    | request r =>
      obtain ⟨answer, s', bs', hs, he⟩ := h.list.perform hplan
      have hx : (Access.request r).onList (freeList u.run) = .ok (r.reply answer, s'.list) := by
        have hl : r.onList (freeList u.run) = .ok (answer, s'.list) := Session.onList_of_perform hs
        rw [Access.onList, hl]
        rfl
      exact ⟨_, _, bs', inside_act h.free hx, .request hplan hs he⟩
    | usableSize ptr => exact ⟨_, _, bs, inside_act h.free rfl, .look (by simp) rfl⟩
    | summary =>
      obtain ⟨totals, hl⟩ : ∃ totals, (freeList u.run).summary = .ok totals :=
        ⟨_, h.list.tidy.wellLinked.summary_eq⟩
      have hx : Access.summary.onList (freeList u.run) = .ok (.totals totals, freeList u.run) := by
        rw [Access.onList, hl]
        rfl
      exact ⟨_, _, bs, inside_act h.free hx, .look (by simp) hx⟩

/-- A call that the contract allows returns. -/
theorem Sound.act (h : u.Sound bs) (hcall : call.Allowed u.session) :
    ∃ reply run bs', call.act u.run = .ok reply run ∧ u.Conduct bs call.plan reply run bs' := by
  rw [call.act_eq]
  exact h.plan_act hcall

/-! ### What is done after the lock was let go -/

/-- Records are left and bytes change at certain addresses; nothing else. -/
structure Finished (S : Nat → Prop) (run run' : Run Heap) : Prop where
  object_eq : run'.object = run.object
  logged : ∃ records : List String, run'.trace = run.trace ++ records.map .log
  get_eq : ∀ x, ¬ S x → run'.mem.get x = run.mem.get x

variable {S : Nat → Prop} {r : Request} {answer : Option Nat} {s s' : Session}

theorem Finished.refl (S : Nat → Prop) (run : Run Heap) : Finished S run run :=
  ⟨rfl, ⟨[], (List.append_nil _).symm⟩, fun _ _ => rfl⟩

theorem Finished.within {run' : Run Heap} (h : Finished S run run') :
    (freeList run').head = (freeList run).head ∧ Within (freeList run) (freeList run') S :=
  ⟨congrArg Heap.head h.object_eq, congrArg Heap.minSplit h.object_eq, h.get_eq⟩

/-- After a request at most the payload of a granted block is cleared. -/
theorem finished_finish (he : Session.Effect s bs r answer s' bs') (h : s.Sound bs) (zeroed : Bool)
    (run : Run Heap) :
    Finished s'.InPayload run ((Access.request r).finish zeroed (r.reply answer) run) := by
  cases r with
  | addRegion r => exact ⟨rfl, ⟨[_], rfl⟩, fun _ _ => rfl⟩
  | allocate align size =>
    cases answer with
    | none => exact .refl ..
    | some ptr =>
      obtain ⟨hlive, hroom⟩ := he.room h
      rw [Request.reply, Access.finish]
      split
      · refine ⟨rfl, ⟨[], (List.append_nil _).symm⟩, fun x hx => ?_⟩
        have hout : ¬ (ptr ≤ x ∧ x < ptr + size) := fun hin => hx ⟨ptr, hlive, hin.1, by omega⟩
        rw [get_clear, if_neg hout]
      · exact .refl ..
  | release | resize | write => exact .refl ..

/-! ### The invariant -/

theorem plan_after {zeroed : Bool} {w : Wording} (hs : s.perform r = .ok (answer, s')) :
    Plan.after s (.inside (.request r) zeroed w) = s' := by
  rw [Plan.after, Session.after, hs]
  rfl

/-- What is kept beside the heap is what is kept beside its list. -/
theorem session_after {zeroed : Bool} {w : Wording}
    (hs : u.session.perform r = .ok (answer, s')) (run : Run Heap) :
    (u.after (.inside (.request r) zeroed w) run).session = { s' with list := freeList run } := by
  rw [session, HeapSession.after, plan_after hs]

/-- A refused request leaves the heap as it is. -/
theorem unchanged_of_refused {zeroed : Bool} {w : Wording} (hr : r.MayFail)
    (hs : u.session.perform r = .ok (none, s')) :
    u.Unchanged (u.after (.inside (.request r) zeroed w)
      ((Access.request r).finish zeroed (r.reply none) (leave u.run s'.list))) := by
  obtain ⟨hlist, hlive⟩ := Session.unchanged_of_none hr hs
  have hfinish : ∀ run, ((Access.request r).finish zeroed (r.reply none) run).object = run.object ∧
      ((Access.request r).finish zeroed (r.reply none) run).mem = run.mem := by
    intro run
    cases r <;> exact ⟨rfl, rfl⟩
  obtain ⟨hobject, hmem⟩ := hfinish (leave u.run s'.list)
  refine ⟨hobject.trans ?_, hmem.trans (congrArg FreeList.mem hlist), ?_⟩
  · rw [hlist]
    rfl
  · exact (congrArg Session.live (session_after hs u.run)).trans hlive

/-- What was done as planned leaves a sound heap. -/
theorem Conduct.sound (hc : u.Conduct bs plan reply run bs') (h : u.Sound bs) :
    (u.after plan run).Sound bs' := by
  cases hc with
  | aside => exact ⟨h.list, h.free⟩
  | @request r zeroed w answer s' bs' hr hs he =>
    have hfinished := finished_finish he h.list zeroed (leave u.run s'.list)
    have hl : freeList (leave u.run s'.list) = s'.list := freeList_leave he.minSplit_eq
    obtain ⟨hhead, hwithin⟩ := hfinished.within
    rw [hl] at hhead hwithin
    refine ⟨?_, ?_⟩
    · rw [session_after hs]
      exact (he.sound h.list hr).poke hhead hwithin fun x hx => Or.inl hx
    · rw [HeapSession.after, hfinished.object_eq]
      exact h.free
  | @look access _ _ _ hlook _ =>
    cases access with
    | request r => exact absurd rfl (hlook r)
    | usableSize | summary => exact ⟨h.list, h.free⟩

/-- The heap in use after it carried a request out: the session that the request leaves, but for
what was done after the lock was let go. -/
structure Carried (u : HeapSession) (bs : List FreeBlock) (r : Request) (zeroed : Bool)
    (answer : Option Nat) (s' : Session) (bs' : List FreeBlock) (u' : HeapSession) : Prop where
  effect : Session.Effect u.session bs r answer s' bs'
  sound : u'.Sound bs'
  live_eq : u'.live = s'.live
  regions_eq : u'.regions = s'.regions
  block_eq : ∀ p ∈ s'.live, u'.session.list.block p = s'.list.block p
  /-- Only a block that is to be zeroed is cleared. -/
  list_eq : zeroed = false → u'.session.list = s'.list
  unchanged : r.MayFail → answer = none → u.Unchanged u'

/-- A request that the contract allows is carried out. -/
theorem Sound.carry (h : u.Sound bs) (hr : r.Allowed u.session) (zeroed : Bool) (w : Wording) :
    ∃ answer s' bs' run,
      (Plan.inside (.request r) zeroed w).act u.run = .ok (w.reply (r.reply answer)) run ∧
      u.Carried bs r zeroed answer s' bs' (u.after (.inside (.request r) zeroed w) run) := by
  obtain ⟨answer, s', bs', hs, he⟩ := h.list.perform hr
  have hx : (Access.request r).onList (freeList u.run) = .ok (r.reply answer, s'.list) := by
    have hl : r.onList (freeList u.run) = .ok (answer, s'.list) := Session.onList_of_perform hs
    rw [Access.onList, hl]
    rfl
  have hact : (Plan.inside (.request r) zeroed w).act u.run = _ := inside_act h.free hx
  have hl : freeList (leave u.run s'.list) = s'.list := freeList_leave he.minSplit_eq
  obtain ⟨-, hwithin⟩ := (finished_finish he h.list zeroed (leave u.run s'.list)).within
  rw [hl] at hwithin
  refine ⟨answer, s', bs', _, hact, he, (Conduct.request hr hs he).sound h,
    congrArg Session.live (plan_after hs), congrArg Session.regions (plan_after hs), ?_, ?_, ?_⟩
  · exact (he.sound h.list hr).block_poke hwithin fun x hx => .inl hx
  · rintro rfl
    cases r <;> cases answer <;> exact hl
  · rintro hfail rfl
    exact unchanged_of_refused hfail hs

/-- A byte that a client writes leaves a sound heap. -/
theorem Sound.write {addr : Nat} (h : u.Sound bs) (byte : UInt8)
    (haddr : u.session.InPayload addr) : (u.write addr byte).Sound bs := by
  have hwritten : (Request.write addr byte).Allowed u.session := Or.inl haddr
  exact ⟨Session.Effect.written.sound h.list hwritten, h.free⟩

/-- It stays the same which addresses lie in payloads. -/
theorem Sound.inPayload_write {addr x : Nat} (h : u.Sound bs) (byte : UInt8)
    (haddr : u.session.InPayload addr) :
    (u.write addr byte).session.InPayload x ↔ u.session.InPayload x :=
  h.list.inPayload_poke (within_set ..) fun _ hx => hx ▸ Or.inl haddr

theorem sound_start (minSplit : Nat) (mem : Memory) {lock : Lock}
    (h : lock.isHeld? ≠ some true) : (start minSplit mem lock).Sound [] :=
  ⟨Session.sound_start minSplit mem, h⟩

/-- Every heap that clients can reach under the contract is sound. -/
theorem Reachable.sound (h : u.Reachable) : ∃ bs, u.Sound bs := by
  induction h with
  | start minSplit mem h => exact ⟨[], sound_start minSplit mem h⟩
  | @call u call reply run _ hcall hrun ih =>
    obtain ⟨bs, hsound⟩ := ih
    obtain ⟨_, _, bs', hrun', hc⟩ := hsound.act hcall
    obtain ⟨rfl, rfl⟩ := EStateM.Result.ok.inj (hrun.symm.trans hrun')
    exact ⟨bs', hc.sound hsound⟩
  | write byte _ haddr ih =>
    obtain ⟨bs, hsound⟩ := ih
    exact ⟨bs, hsound.write byte haddr⟩

/-- The heap in use after a call. -/
def next (u : HeapSession) (call : Call) : HeapSession :=
  match call.act u.run with
  | .ok _ run => u.after call.plan run
  | .error _ _ => u

theorem Reachable.next (h : u.Reachable) (hcall : call.Allowed u.session) :
    (u.next call).Reachable := by
  obtain ⟨bs, hsound⟩ := h.sound
  obtain ⟨reply, run, bs', hrun, -⟩ := hsound.act hcall
  rw [HeapSession.next, hrun]
  exact h.call hcall hrun

/-- A heap may be handed a first region. -/
theorem pooled_reachable {lock : Lock} (h : lock.isHeld? ≠ some true) :
    ((start minBlockSpan {} lock).next (.c (.addBlock (some 4096) 256))).Reachable := by
  have hregion : Call.Allowed (start minBlockSpan {} lock).session
      (.c (.addBlock (some 4096) 256)) := by
    refine ⟨by decide, by decide, ?_⟩
    simp [start, session]
  exact (Reachable.start minBlockSpan {} h).next hregion

/-- A heap behind the functions of C, with one pool and one granted block. -/
def sample : HeapSession :=
  ((start minBlockSpan {} (.hooks "Hooks")).next (.c (.addBlock (some 4096) 256))).next
    (.c (.malloc 100))

theorem sample_reachable : sample.Reachable := by
  have hgrant : Call.Allowed ((start minBlockSpan {} (.hooks "Hooks")).next
      (.c (.addBlock (some 4096) 256))).session (.c (.malloc 100)) := trivial
  exact (pooled_reachable (by decide)).next hgrant

end HeapSession

end PoolAlloc
