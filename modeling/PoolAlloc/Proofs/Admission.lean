import Mathlib.Logic.Relation
import PoolAlloc.Backend.Gated
import PoolAlloc.Backend.Probe
/-!
# PoolAlloc.Proofs.Admission

What a gate lets through while calls overlap.

A call of a gated backend takes several steps. A grant tests the gate, pauses as long as it finds it
shut, and is passed on once it found it open; an initialization prepares the backend before it opens
the gate. `advance` cuts the operations of a gate into these steps, and `Traffic` lets the steps of
any number of calls follow each other in any order. Behind the gate stands any backend at all. It is
`Watched`, so that it can be said what reached it; watching changes nothing else (`advance_forget`).

What one step can do is said once (`Move`), and what holds of all traffic is derived from that.

Main statement: `gate_keeps`.
-/

namespace PoolAlloc

/-! ### Watched backends -/

/-- A call that reached a backend. -/
structure Contact where
  /-- The call. -/
  call : BackendCall
  /-- Whether the backend returned from it. -/
  returned : Bool
  deriving DecidableEq

/-- A backend with a record of what reached it, first to last. -/
structure Watched (β : Type) where
  /-- The backend. -/
  inner : β
  /-- What reached it. -/
  contacts : List Contact := []

namespace Watched

variable {β α : Type}

/-- Record a contact. -/
def note (contact : Contact) (r : Run (Watched β)) : Run (Watched β) :=
  { r with object := { r.object with contacts := r.object.contacts ++ [contact] } }

/-- Run an operation of the backend and record it, whether it returns or not. -/
def watch (call : BackendCall) (act : Action β α) : Action (Watched β) α := fun r =>
  match Action.onPart Watched.inner (fun inner w => { w with inner }) act r with
  | .ok x s => .ok x (note ⟨call, true⟩ s)
  | .error why s => .error why (note ⟨call, false⟩ s)

instance [Backend β] : Backend (Watched β) where
  init := watch .init Backend.init
  addBlock start len := watch (.addBlock start len) (Backend.addBlock start len)
  alloc size := watch (.alloc size) (Backend.alloc size)
  free ptr := watch (.free ptr) (Backend.free ptr)

end Watched

namespace Gated

variable {β α : Type}

/-! ### The steps of a call -/

/-- How far a call has come. -/
inductive Stage
  /-- It did nothing yet. -/
  | called
  /-- It found the gate shut and is about to pause. -/
  | waiting
  /-- It found the gate open and is about to be passed on. -/
  | admitted
  /-- It prepared the backend and is about to open the gate. -/
  | prepared
  /-- It returned. -/
  | returned (answer : Option Nat)
  /-- It broke off, in its step after `last`. -/
  | stopped (last : Stage) (why : Stop)

/-- The next step of a call. A call that is over stays as it is. -/
def advance [Backend β] : BackendCall → Stage → Action (Gated β) Stage
  | .init, .called => do
    onInner Backend.init
    return .prepared
  | .init, .prepared => do
    openGate
    return .returned none
  | .addBlock start len, .called => do
    onInner (Backend.addBlock start len)
    return .returned none
  | .alloc _, .called => do
    if ← isInitialized then
      return .admitted
    else
      return .waiting
  | .alloc _, .waiting => do
    Action.emit .relax
    return .called
  | .alloc size, .admitted => do
    if size = 0 then
      return .returned none
    else
      return .returned (← onInner (Backend.alloc size))
  | .free _, .called => do
    if ← isInitialized then
      return .admitted
    else
      Action.panic .freedBeforeInit
  | .free ptr, .admitted => do
    onInner (Backend.free ptr)
    return .returned none
  | _, stage => return stage

/-- The stage and the run after a step that followed `last`. -/
def settle {σ : Type} (last : Stage) : EStateM.Result Stop (Run σ) Stage → Stage × Run σ
  | .ok stage r => (stage, r)
  | .error why r => (.stopped last why, r)

/-- Grant `size` bytes step by step, while `others` do one thing in each pause. -/
def allocSteps [Backend β] (size : Nat) : List (Action (Gated β) Unit) → Action (Gated β) Stage
  | [] => do
    match ← advance (.alloc size) .called with
    | .admitted => advance (.alloc size) .admitted
    | _ => Action.stop .blocked
  | other :: others => do
    match ← advance (.alloc size) .called with
    | .admitted => advance (.alloc size) .admitted
    | stage => do
      let _ ← advance (.alloc size) stage
      other
      allocSteps size others

/-! ### What the steps do -/

variable {r : Run (Gated β)}

/-- Nobody waits at an open gate. -/
theorem await_of_open (others : List (Action (Gated β) Unit)) (h : r.object.initialized = true) :
    await others r = .ok () r := by
  cases others <;>
    simp only [await, isInitialized, Action.bind_apply, Action.object_apply, Action.pure_apply, h,
      if_true]

/-- At a shut gate somebody else does something before the gate is tested again. -/
theorem await_of_shut (other : Action (Gated β) Unit) (others : List (Action (Gated β) Unit))
    (h : r.object.initialized = false) :
    await (other :: others) r = (other >>= fun _ => await others) (r.observe .relax) := by
  simp only [await, isInitialized, Action.bind_apply, Action.object_apply, Action.pure_apply, h,
    Bool.false_eq_true, if_false, Action.emit_apply]

/-- Opening an open gate is an error, and it stays open. -/
theorem openGate_apply (r : Run (Gated β)) :
    openGate r =
      if r.object.initialized then
        .error (.panic .initializedTwice) { r with object := { r.object with initialized := true } }
      else
        .ok () (({ r with object := { r.object with initialized := true } } : Run (Gated β)).observe
          (.log "gated backend initialized")) := by
  simp only [openGate, Action.bind_apply, Action.object_apply, Action.setObject_apply]
  split <;> rfl

variable [Backend β]

/-- A test of the gate finds it open or shut. -/
theorem advance_alloc_called (size : Nat) (r : Run (Gated β)) :
    advance (.alloc size) .called r =
      .ok (if r.object.initialized then .admitted else .waiting) r := by
  simp only [advance, isInitialized, Action.bind_apply, Action.object_apply, Action.pure_apply]
  split <;> rfl

theorem advance_free_called (ptr : Option Nat) (r : Run (Gated β)) :
    advance (.free ptr) .called r =
      if r.object.initialized then .ok .admitted r else .error (.panic .freedBeforeInit) r := by
  simp only [advance, isInitialized, Action.bind_apply, Action.object_apply, Action.pure_apply]
  split <;> rfl

/-- A grant that found the gate open is passed on, unless it is for nothing. -/
theorem advance_alloc_admitted (size : Nat) :
    advance (.alloc size) .admitted =
      (if size = 0 then pure none else onInner (Backend.alloc size) : Action (Gated β) _) >>=
        fun answer => pure (.returned answer) := by
  rw [advance]
  split <;> rfl

/-! The operations of a gate are made of these steps. -/

theorem init_eq :
    (Backend.init : Action (Gated β) Unit) >>= (fun _ => pure (.returned none)) =
      advance .init .called >>= advance .init := by
  rw [show (Backend.init : Action (Gated β) Unit) = onInner Backend.init >>= fun _ => openGate
      from rfl,
    show advance .init .called = onInner Backend.init >>= fun _ => pure Stage.prepared from rfl]
  simp only [bind_assoc, pure_bind]
  rfl

theorem addBlock_eq (start len : Nat) :
    (Backend.addBlock start len : Action (Gated β) Unit) >>= (fun _ => pure (.returned none)) =
      advance (.addBlock start len) .called := rfl

theorem free_eq (ptr : Option Nat) :
    (Backend.free ptr : Action (Gated β) Unit) >>= (fun _ => pure (.returned none)) =
      advance (.free ptr) .called >>= advance (.free ptr) := by
  have hfree : (Backend.free ptr : Action (Gated β) Unit) = free ptr := rfl
  funext r
  cases hopen : r.object.initialized <;>
    simp only [hfree, free, isInitialized, advance, Action.bind_apply, Action.object_apply,
      Action.pure_apply, Action.panic_apply, hopen, if_true, Bool.false_eq_true, if_false]

theorem allocAmid_eq (size : Nat) (others : List (Action (Gated β) Unit)) :
    allocAmid others size >>= (fun answer => pure (.returned answer)) = allocSteps size others := by
  induction others with
  | nil =>
    funext r
    simp only [allocSteps, Action.bind_apply, advance_alloc_called]
    cases hopen : r.object.initialized with
    | true =>
      simp only [allocAmid, Action.bind_apply, await_of_open _ hopen, advance_alloc_admitted,
        if_true]
    | false =>
      simp only [allocAmid, await, isInitialized, Action.bind_apply, Action.object_apply,
        Action.pure_apply, hopen, Bool.false_eq_true, if_false, Action.stop_apply]
  | cons other others ih =>
    funext r
    cases hopen : r.object.initialized with
    | true =>
      simp only [allocSteps, allocAmid, Action.bind_apply, await_of_open _ hopen,
        advance_alloc_called, advance_alloc_admitted, hopen, if_true]
    | false =>
      calc (allocAmid (other :: others) size >>= fun answer => pure (.returned answer)) r
        _ = (other >>= fun _ => allocAmid others size >>= fun answer => pure (.returned answer))
              (r.observe .relax) := by
          simp only [allocAmid, bind_assoc]
          rw [Action.bind_apply, await_of_shut _ _ hopen, ← Action.bind_apply, bind_assoc]
        _ = (other >>= fun _ => allocSteps size others) (r.observe .relax) := by rw [ih]
        _ = allocSteps size (other :: others) r := by
          simp only [allocSteps, advance, isInitialized, Action.bind_apply, Action.object_apply,
            Action.pure_apply, Action.emit_apply, hopen, Bool.false_eq_true, if_false]

/-- A grant that is alone at the gate pauses, and nothing happens meanwhile. -/
theorem alloc_eq (size : Nat) (r : Run (Gated β)) :
    ((Backend.alloc size : Action (Gated β) (Option Nat)) >>= fun answer =>
        pure (.returned answer)) r =
      allocSteps size (List.replicate r.object.patience (pure ())) r :=
  congrFun (allocAmid_eq size (List.replicate r.object.patience (pure ()))) r

end Gated

/-! ### Calls that overlap -/

open Gated

/-- The run of a gate whose backend is watched, without the record. -/
def Watched.forget {β : Type} (r : Run (Gated (Watched β))) : Run (Gated β) where
  object := { r.object with inner := r.object.inner.inner }
  mem := r.mem
  trace := r.trace

/-- A call on its way. -/
structure Task where
  /-- The call. -/
  call : BackendCall
  /-- How far it has come. -/
  stage : Stage := .called
  /-- What its steps passed on to the backend. -/
  passed : List Contact := []

/-- A gate with the calls on their way through it. -/
structure Traffic (β : Type) where
  /-- The gate. -/
  gate : Run (Gated (Watched β))
  /-- The calls, those that are over included. -/
  tasks : List Task := []

namespace Traffic

variable {β : Type}

/-- Whether the gate is open. -/
def isOpen (gate : Run (Gated (Watched β))) : Bool := gate.object.initialized

/-- What reached the backend. -/
def reached (gate : Run (Gated (Watched β))) : List Contact := gate.object.inner.contacts

variable [Backend β]

/-- A call and the gate after the next step of the call. -/
def proceed (t : Task) (gate : Run (Gated (Watched β))) : Task × Run (Gated (Watched β)) :=
  let left := settle t.stage (advance t.call t.stage gate)
  ({ t with
      stage := left.1
      passed := t.passed ++ (reached left.2).drop (reached gate).length }, left.2)

/-- One step of the traffic. -/
inductive Step : Traffic β → Traffic β → Prop
  /-- Somebody calls. -/
  | arrive (u : Traffic β) (call : BackendCall) : Step u { u with tasks := u.tasks ++ [{ call }] }
  /-- A call takes its next step. -/
  | go (gate : Run (Gated (Watched β))) (before : List Task) (t : Task) (after : List Task) :
      Step { gate, tasks := before ++ t :: after }
        { gate := (proceed t gate).2, tasks := before ++ (proceed t gate).1 :: after }
  /-- Somebody writes to the memory. -/
  | write (u : Traffic β) (mem : Memory) : Step u { u with gate := { u.gate with mem } }

/-- The traffic of a gate from the moment it was made. -/
inductive Reachable : Traffic β → Prop
  /-- A new gate is shut, in front of any backend. -/
  | start (inner : β) (patience : Nat) (mem : Memory) :
      Reachable { gate := { object := { inner := { inner }, patience }, mem } }
  /-- It goes on by one step. -/
  | step {u v : Traffic β} : Reachable u → Step u v → Reachable v

/-! ### What one step can do -/

/-- `Move call stage isOpen stage' isOpen' passed`: with the gate as `isOpen` says, a call of which
`stage` is done can get to `stage'` in one step. The step leaves the gate as `isOpen'` says and
passes on what is in `passed`. -/
inductive Move : BackendCall → Stage → Bool → Stage → Bool → List Contact → Prop
  /-- An initialization prepares the backend. -/
  | prepare (isOpen : Bool) : Move .init .called isOpen .prepared isOpen [⟨.init, true⟩]
  /-- The backend broke off while it was prepared. -/
  | failToPrepare (isOpen : Bool) (why : Stop) :
      Move .init .called isOpen (.stopped .called why) isOpen [⟨.init, false⟩]
  /-- An initialization opens the gate. -/
  | openUp : Move .init .prepared false (.returned none) true []
  /-- An initialization found the gate open. -/
  | openAgain :
      Move .init .prepared true (.stopped .prepared (.panic .initializedTwice)) true []
  /-- A region is passed on, at any gate. -/
  | add (start len : Nat) (isOpen : Bool) :
      Move (.addBlock start len) .called isOpen (.returned none) isOpen
        [⟨.addBlock start len, true⟩]
  /-- The backend broke off on a region. -/
  | failToAdd (start len : Nat) (isOpen : Bool) (why : Stop) :
      Move (.addBlock start len) .called isOpen (.stopped .called why) isOpen
        [⟨.addBlock start len, false⟩]
  /-- A grant found the gate open. -/
  | admitAlloc (size : Nat) : Move (.alloc size) .called true .admitted true []
  /-- A grant found the gate shut. -/
  | keepOut (size : Nat) : Move (.alloc size) .called false .waiting false []
  /-- A grant pauses before it tests the gate again. -/
  | pause (size : Nat) (isOpen : Bool) : Move (.alloc size) .waiting isOpen .called isOpen []
  /-- Nothing is granted without the backend. -/
  | grantNothing (isOpen : Bool) : Move (.alloc 0) .admitted isOpen (.returned none) isOpen []
  /-- A grant is passed on. -/
  | grant {size : Nat} (hsize : size ≠ 0) (isOpen : Bool) (answer : Option Nat) :
      Move (.alloc size) .admitted isOpen (.returned answer) isOpen [⟨.alloc size, true⟩]
  /-- The backend broke off on a grant. -/
  | failToGrant {size : Nat} (hsize : size ≠ 0) (isOpen : Bool) (why : Stop) :
      Move (.alloc size) .admitted isOpen (.stopped .admitted why) isOpen [⟨.alloc size, false⟩]
  /-- A release found the gate open. -/
  | admitFree (ptr : Option Nat) : Move (.free ptr) .called true .admitted true []
  /-- A release found the gate shut and broke off. -/
  | refuseFree (ptr : Option Nat) :
      Move (.free ptr) .called false (.stopped .called (.panic .freedBeforeInit)) false []
  /-- A release is passed on. -/
  | release (ptr : Option Nat) (isOpen : Bool) :
      Move (.free ptr) .admitted isOpen (.returned none) isOpen [⟨.free ptr, true⟩]
  /-- The backend broke off on a release. -/
  | failToRelease (ptr : Option Nat) (isOpen : Bool) (why : Stop) :
      Move (.free ptr) .admitted isOpen (.stopped .admitted why) isOpen [⟨.free ptr, false⟩]
  /-- A call that is over stays as it is. -/
  | rest (call : BackendCall) {stage : Stage} (isOpen : Bool) (hstage : stage ≠ .called) :
      Move call stage isOpen stage isOpen []

/-- What a step leaves is a move away, and what was passed on has reached the backend. -/
def Moved (call : BackendCall) (stage : Stage) (gate : Run (Gated (Watched β)))
    (left : Stage × Run (Gated (Watched β))) : Prop :=
  ∃ passed, Move call stage (isOpen gate) left.1 (isOpen left.2) passed ∧
    reached left.2 = reached gate ++ passed

section Moving

variable {call : BackendCall} {stage : Stage} {gate : Run (Gated (Watched β))}

omit [Backend β]

/-- A step that passes nothing on. -/
theorem moved_silently {left : Stage × Run (Gated (Watched β))}
    (hmove : Move call stage (isOpen gate) left.1 (isOpen left.2) [])
    (hreached : reached left.2 = reached gate) : Moved call stage gate left :=
  ⟨[], hmove, by rw [hreached, List.append_nil]⟩

/-- What is passed on reaches the backend once, and the gate stays as it is. -/
theorem moved_passedOn {α : Type} {act : Action β α} {f : α → Stage}
    (hreturn : ∀ x, Move call stage (isOpen gate) (f x) (isOpen gate) [⟨call, true⟩])
    (hbreak : ∀ why, Move call stage (isOpen gate) (.stopped stage why) (isOpen gate)
      [⟨call, false⟩]) :
    Moved call stage gate
      (settle stage ((onInner (Watched.watch call act) >>= fun x => pure (f x)) gate)) := by
  simp only [Action.bind_apply, onInner, Watched.watch, Action.onPart]
  cases act ⟨gate.object.inner.inner, gate.mem, gate.trace⟩ with
  | ok x r => exact ⟨_, hreturn x, rfl⟩
  | error why r => exact ⟨_, hbreak why, rfl⟩

end Moving

/-- Every step of a call is a move. -/
theorem moved_advance (call : BackendCall) (stage : Stage) (gate : Run (Gated (Watched β))) :
    Moved call stage gate (settle stage (advance call stage gate)) := by
  have hrest (hstage : stage ≠ .called) : Moved call stage gate (stage, gate) :=
    moved_silently (.rest call _ hstage) rfl
  cases call with
  | init =>
    cases stage with
    | called => exact moved_passedOn (fun _ => .prepare _) (.failToPrepare _)
    | prepared =>
      simp only [advance, Action.bind_apply, openGate_apply]
      cases hopen : gate.object.initialized with
      | true => exact moved_silently (by rw [isOpen, hopen]; exact .openAgain) rfl
      | false => exact moved_silently (by rw [isOpen, hopen]; exact .openUp) rfl
    | _ => exact hrest Stage.noConfusion
  | addBlock start len =>
    cases stage with
    | called => exact moved_passedOn (fun _ => .add start len _) (.failToAdd start len _)
    | _ => exact hrest Stage.noConfusion
  | alloc size =>
    cases stage with
    | called =>
      rw [advance_alloc_called]
      refine moved_silently ?_ rfl
      simp only [settle, isOpen]
      cases gate.object.initialized with
      | true => exact .admitAlloc size
      | false => exact .keepOut size
    | waiting => exact moved_silently (.pause size _) rfl
    | admitted =>
      rw [advance_alloc_admitted]
      by_cases hsize : size = 0
      · subst hsize
        exact moved_silently (.grantNothing _) rfl
      · rw [if_neg hsize]
        exact moved_passedOn (.grant hsize _) (.failToGrant hsize _)
    | _ => exact hrest Stage.noConfusion
  | free ptr =>
    cases stage with
    | called =>
      rw [advance_free_called]
      cases hopen : gate.object.initialized with
      | true =>
        rw [if_pos rfl]
        exact moved_silently (by simp only [settle, isOpen, hopen]; exact .admitFree ptr) rfl
      | false =>
        rw [if_neg Bool.false_ne_true]
        exact moved_silently (by simp only [settle, isOpen, hopen]; exact .refuseFree ptr) rfl
    | admitted => exact moved_passedOn (fun _ => .release ptr _) (.failToRelease ptr _)
    | _ => exact hrest Stage.noConfusion

/-! ### What holds of all traffic -/

/-- What a call that has come as far as `stage` has passed on to the backend. -/
def passedOn : BackendCall → Stage → List Contact
  | .init, .prepared => [⟨.init, true⟩]
  | .init, .returned _ => [⟨.init, true⟩]
  | .init, .stopped .prepared _ => [⟨.init, true⟩]
  | .init, .stopped .called _ => [⟨.init, false⟩]
  | .addBlock start len, .returned _ => [⟨.addBlock start len, true⟩]
  | .addBlock start len, .stopped .called _ => [⟨.addBlock start len, false⟩]
  | .alloc size, .returned _ => if size = 0 then [] else [⟨.alloc size, true⟩]
  | .alloc size, .stopped .admitted _ => if size = 0 then [] else [⟨.alloc size, false⟩]
  | .free ptr, .returned _ => [⟨.free ptr, true⟩]
  | .free ptr, .stopped .admitted _ => [⟨.free ptr, false⟩]
  | _, _ => []

/-- Whether a call has opened the gate, or has found it open when it was about to. -/
def HasOpened (call : BackendCall) : Stage → Prop
  | .returned _ => call = .init
  | .stopped .prepared _ => call = .init
  | _ => False

/-- Whether a call asks for memory or gives it back. -/
def IsRequest : BackendCall → Prop
  | .alloc _ | .free _ => True
  | .init | .addBlock _ _ => False

theorem HasOpened.prepared {call : BackendCall} {stage : Stage} (h : HasOpened call stage) :
    ⟨.init, true⟩ ∈ passedOn call stage := by
  unfold HasOpened at h
  split at h
  · subst h
    exact List.mem_singleton_self _
  · subst h
    exact List.mem_singleton_self _
  · exact h.elim

/-- What the gate has seen to at a moment. -/
structure Kept (u : Traffic β) : Prop where
  /-- Every request that reached the backend came after an initialization that returned. -/
  preparedFirst : ∀ earlier contact, earlier ++ [contact] <+: reached u.gate →
    IsRequest contact.call → ⟨.init, true⟩ ∈ earlier
  /-- What reached the backend was passed on by the calls. -/
  gathered : (reached u.gate).Perm (u.tasks.flatMap Task.passed)
  /-- Every call passed on what its stage says, and that only. -/
  passed : ∀ t ∈ u.tasks, t.passed = passedOn t.call t.stage
  /-- The gate is open if and only if some initialization opened it. -/
  opened : isOpen u.gate = true ↔ ∃ t ∈ u.tasks, HasOpened t.call t.stage
  /-- Nobody is admitted to a shut gate. -/
  admitted : ∀ t ∈ u.tasks, t.stage = .admitted → isOpen u.gate = true

section Moves

variable {call : BackendCall} {stage ended : Stage} {before after : Bool} {passed : List Contact}

omit [Backend β]

theorem Move.passedOn (h : Move call stage before ended after passed) :
    passedOn call stage ++ passed = passedOn call ended := by
  cases h <;> simp [Traffic.passedOn, *]

theorem Move.opened (h : Move call stage before ended after passed) :
    after = true ↔ before = true ∨ (HasOpened call ended ∧ ¬ HasOpened call stage) := by
  cases h <;> simp [HasOpened]

theorem Move.hasOpened (h : Move call stage before ended after passed)
    (hstage : HasOpened call stage) : HasOpened call ended := by
  cases h <;> simp_all [HasOpened]

theorem Move.admitted (h : Move call stage before ended after passed)
    (hstage : stage = .admitted → before = true) (hended : ended = .admitted) : after = true := by
  cases h <;> simp_all

/-- Only one contact is made, and a request is only passed on when it was admitted. -/
theorem Move.requests (h : Move call stage before ended after passed) :
    passed = [] ∨ ∃ contact, passed = [contact] ∧ (IsRequest contact.call → stage = .admitted) := by
  cases h <;> simp [IsRequest]

end Moves

/-- A step of a call, as a move. -/
theorem move_of_proceed (t : Task) (gate : Run (Gated (Watched β))) :
    ∃ passed, Move t.call t.stage (isOpen gate) (proceed t gate).1.stage
        (isOpen (proceed t gate).2) passed ∧
      reached (proceed t gate).2 = reached gate ++ passed ∧
      (proceed t gate).1 =
        { t with stage := (proceed t gate).1.stage, passed := t.passed ++ passed } := by
  obtain ⟨passed, hmove, hreached⟩ := moved_advance t.call t.stage gate
  refine ⟨passed, hmove, hreached, ?_⟩
  simp only [proceed, hreached, List.drop_left]

/-- A call that broke off stays as it is. -/
theorem proceed_of_stopped {t : Task} {last : Stage} {why : Stop} (h : t.stage = .stopped last why)
    (gate : Run (Gated (Watched β))) : proceed t gate = (t, gate) := by
  obtain ⟨call, stage, passed⟩ := t
  obtain rfl : stage = .stopped last why := h
  cases call <;> simp [proceed, advance, settle]

namespace Kept

variable {u : Traffic β}

omit [Backend β] in
/-- A gate is open only in front of a backend that was prepared. -/
theorem prepared (h : Kept u) (hopen : isOpen u.gate = true) :
    ⟨.init, true⟩ ∈ reached u.gate := by
  obtain ⟨t, ht, hopened⟩ := h.opened.mp hopen
  refine h.gathered.mem_iff.mpr (List.mem_flatMap.mpr ⟨t, ht, ?_⟩)
  rw [h.passed t ht]
  exact hopened.prepared

omit [Backend β] in
theorem arrive (h : Kept u) (call : BackendCall) :
    Kept { u with tasks := u.tasks ++ [{ call }] } where
  preparedFirst := h.preparedFirst
  gathered := by
    simpa only [List.flatMap_append, List.flatMap_singleton, List.append_nil] using h.gathered
  passed t ht := by
    obtain ht | rfl := by simpa only [List.mem_append, List.mem_singleton] using ht
    · exact h.passed t ht
    · cases call <;> rfl
  opened := by
    simp only [List.mem_append, List.mem_singleton, or_and_right, exists_or, exists_eq_left]
    rw [show HasOpened call .called ↔ False from Iff.rfl, or_false]
    exact h.opened
  admitted t ht hstage := by
    obtain ht | rfl := by simpa only [List.mem_append, List.mem_singleton] using ht
    · exact h.admitted t ht hstage
    · cases hstage

omit [Backend β] in
theorem write (h : Kept u) (mem : Memory) : Kept { u with gate := { u.gate with mem } } where
  preparedFirst := h.preparedFirst
  gathered := h.gathered
  passed := h.passed
  opened := h.opened
  admitted := h.admitted

theorem go {gate : Run (Gated (Watched β))} {before after : List Task} {t : Task}
    (h : Kept { gate, tasks := before ++ t :: after }) :
    Kept { gate := (proceed t gate).2, tasks := before ++ (proceed t gate).1 :: after } := by
  obtain ⟨passed, hmove, hreached, htask⟩ := move_of_proceed t gate
  generalize hended : (proceed t gate).1 = t' at hmove htask ⊢
  generalize (proceed t gate).2 = gate' at hmove hreached ⊢
  have hmem : t ∈ before ++ t :: after := List.mem_append_cons_self
  have hstill : isOpen gate = true → isOpen gate' = true :=
    fun hopen => hmove.opened.mpr (.inl hopen)
  have hothers : ∀ x ∈ before ++ t' :: after, x = t' ∨ x ∈ before ++ t :: after := by
    simp only [List.mem_append, List.mem_cons]
    grind
  refine ⟨?_, ?_, ?_, ?_, ?_⟩
  · intro earlier contact hprefix hrequest
    rw [hreached] at hprefix
    obtain rfl | ⟨last, rfl, hlast⟩ := hmove.requests
    · exact h.preparedFirst _ _ (by rwa [List.append_nil] at hprefix) hrequest
    · rcases List.prefix_concat_iff.mp hprefix with heq | hprefix
      · obtain ⟨rfl, hcontact⟩ := List.append_inj' heq rfl
        obtain rfl := List.singleton_inj.mp hcontact
        exact h.prepared (h.admitted t hmem (hlast hrequest))
      · exact h.preparedFirst _ _ hprefix hrequest
  · rw [hreached, List.flatMap_append, List.flatMap_cons, htask]
    have hgathered := h.gathered.append_right passed
    simp only [List.flatMap_append, List.flatMap_cons, List.append_assoc] at hgathered ⊢
    exact hgathered.trans
      ((List.perm_append_comm.append_left _).append_left _)
  · intro x hx
    obtain rfl | hx := hothers x hx
    · rw [htask, ← hmove.passedOn]
      exact congrArg (· ++ passed) (h.passed t hmem)
    · exact h.passed x hx
  · have hcall : t'.call = t.call := by rw [htask]
    have hkeeps := hmove.hasOpened
    rw [hmove.opened, h.opened]
    simp only [List.mem_append, List.mem_cons, or_and_right, exists_or, exists_eq_left, hcall]
    grind
  · intro x hx hstage
    obtain rfl | hx := hothers x hx
    · exact hmove.admitted (fun hadmitted => h.admitted t hmem hadmitted) hstage
    · exact hstill (h.admitted x hx hstage)

end Kept

theorem Kept.step {u v : Traffic β} (h : Kept u) (hstep : Step u v) : Kept v := by
  cases hstep with
  | arrive => exact h.arrive _
  | go gate before t after => exact h.go
  | write => exact h.write _

theorem Reachable.kept {u : Traffic β} (h : Reachable u) : Kept u := by
  induction h with
  | start inner patience mem =>
    exact {
      preparedFirst := fun _ _ hprefix _ => by simp [reached] at hprefix
      gathered := .nil
      passed := nofun
      opened := by simp [isOpen]
      admitted := nofun }
  | step _ hstep ih => exact ih.step hstep

theorem Step.isOpen {u v : Traffic β} (h : Step u v) (hopen : isOpen u.gate = true) :
    isOpen v.gate = true := by
  cases h with
  | arrive => exact hopen
  | go gate before t after =>
    obtain ⟨_, hmove, -, -⟩ := move_of_proceed t gate
    exact hmove.opened.mpr (.inl hopen)
  | write => exact hopen

theorem Reachable.steps {u v : Traffic β} (h : Reachable u)
    (hsteps : Relation.ReflTransGen Step u v) : Reachable v := by
  induction hsteps with
  | refl => exact h
  | tail _ hstep ih => exact ih.step hstep

end Traffic

/-! ### Watching -/

namespace Watched

open Traffic

variable {β α : Type}

/-- A result without the record. -/
def forgetIn :
    EStateM.Result Stop (Run (Gated (Watched β))) α → EStateM.Result Stop (Run (Gated β)) α
  | .ok x gate => .ok x (forget gate)
  | .error why gate => .error why (forget gate)

theorem passOn_forget (call : BackendCall) (act : Action β α) (f : α → Stage)
    (gate : Run (Gated (Watched β))) :
    (onInner act >>= fun x => pure (f x)) (forget gate) =
      forgetIn ((onInner (watch call act) >>= fun x => pure (f x)) gate) := by
  simp only [Action.bind_apply, onInner, watch, Action.onPart, forget]
  cases act ⟨gate.object.inner.inner, gate.mem, gate.trace⟩ <;> rfl

variable [Backend β]

/-- Watching a backend changes nothing else. -/
theorem advance_forget (call : BackendCall) (stage : Stage) (gate : Run (Gated (Watched β))) :
    advance call stage (forget gate) = forgetIn (advance call stage gate) := by
  cases call with
  | init =>
    cases stage with
    | called => exact passOn_forget .init Backend.init (fun _ => .prepared) gate
    | prepared =>
      simp only [advance, Action.bind_apply, openGate_apply]
      cases hopen : gate.object.initialized <;> simp only [forget, hopen] <;> rfl
    | _ => rfl
  | addBlock start len =>
    cases stage with
    | called =>
      exact passOn_forget (.addBlock start len) (Backend.addBlock start len)
        (fun _ => .returned none) gate
    | _ => rfl
  | alloc size =>
    cases stage with
    | called => simp only [advance_alloc_called, forget, forgetIn]
    | admitted =>
      rw [advance_alloc_admitted, advance_alloc_admitted]
      by_cases hsize : size = 0
      · rw [if_pos hsize, if_pos hsize]
        rfl
      · rw [if_neg hsize, if_neg hsize]
        exact passOn_forget (.alloc size) (Backend.alloc size) .returned gate
    | _ => rfl
  | free ptr =>
    cases stage with
    | called =>
      rw [advance_free_called, advance_free_called, apply_ite forgetIn]
      rfl
    | admitted =>
      exact passOn_forget (.free ptr) (Backend.free ptr) (fun _ => .returned none) gate
    | _ => rfl

end Watched

/-! ### Gatekeeping -/

open Traffic

/-- What a gate does for the backend behind it. -/
structure Gatekeeping (β : Type) [Backend β] : Prop where
  /-- Requests come after an initialization that returned, once each and as they were made, at
  every moment of all traffic. -/
  kept : ∀ u : Traffic β, Reachable u → Kept u
  /-- A gate that is open stays open. -/
  staysOpen : ∀ u v : Traffic β, Relation.ReflTransGen Step u v → isOpen u.gate = true →
    isOpen v.gate = true
  /-- An initialization that finds the gate open breaks off and leaves it open. -/
  initializedTwice : ∀ (gate : Run (Gated (Watched β))) passed, isOpen gate = true →
    (proceed { call := .init, stage := .prepared, passed } gate).1.stage =
        .stopped .prepared (.panic .initializedTwice) ∧
      isOpen (proceed { call := .init, stage := .prepared, passed } gate).2 = true
  /-- An initialization for which the backend broke off is over and leaves the gate as it was. -/
  failedInit : ∀ (gate : Run (Gated (Watched β))) why,
    (proceed { call := .init } gate).1.stage = .stopped .called why →
    isOpen (proceed { call := .init } gate).2 = isOpen gate ∧
      ∀ later : Run (Gated (Watched β)), proceed (proceed { call := .init } gate).1 later =
        ((proceed { call := .init } gate).1, later)
  /-- A release that finds the gate shut breaks off and changes nothing. -/
  refused : ∀ (gate : Run (Gated (Watched β))) ptr, isOpen gate = false →
    proceed { call := .free ptr } gate =
      ({ call := .free ptr, stage := .stopped .called (.panic .freedBeforeInit) }, gate)
  /-- A region is passed on in the first step, whether the gate is open or shut. -/
  added : ∀ (gate : Run (Gated (Watched β))) start len, ∃ returned,
    reached (proceed { call := .addBlock start len } gate).2 =
      reached gate ++ [⟨.addBlock start len, returned⟩]
  /-- The steps are the same when nobody watches the backend. -/
  unwatched : ∀ call stage (gate : Run (Gated (Watched β))),
    advance call stage (Watched.forget gate) = Watched.forgetIn (advance call stage gate)
  /-- An initialization is made of its steps. -/
  initSteps : (Backend.init : Action (Gated β) Unit) >>= (fun _ => pure (.returned none)) =
    advance .init .called >>= advance .init
  /-- Taking in a region is one step. -/
  addBlockSteps : ∀ start len, (Backend.addBlock start len : Action (Gated β) Unit) >>=
    (fun _ => pure (.returned none)) = advance (.addBlock start len) .called
  /-- A grant is made of its steps, with what others do in each pause. -/
  allocSteps : ∀ size (others : List (Action (Gated β) Unit)),
    allocAmid others size >>= (fun answer => pure (.returned answer)) = Gated.allocSteps size others
  /-- So is a grant while nobody else does anything, with pauses in which nothing happens. -/
  allocAlone : ∀ size (gate : Run (Gated β)),
    ((Backend.alloc size : Action (Gated β) (Option Nat)) >>= fun answer =>
        pure (.returned answer)) gate =
      Gated.allocSteps size (List.replicate gate.object.patience (pure ())) gate
  /-- A release is made of its steps. -/
  freeSteps : ∀ ptr, (Backend.free ptr : Action (Gated β) Unit) >>=
    (fun _ => pure (.returned none)) = advance (.free ptr) .called >>= advance (.free ptr)

/-- No request gets through a gate before the backend behind it is initialized. -/
theorem gate_keeps (β : Type) [Backend β] : Gatekeeping β where
  kept _ := Reachable.kept
  staysOpen _ _ hsteps hopen := by
    induction hsteps with
    | refl => exact hopen
    | tail _ hstep ih => exact hstep.isOpen ih
  initializedTwice gate passed hopen := by
    have hgate : gate.object.initialized = true := hopen
    simp only [proceed, advance, Action.bind_apply, openGate_apply, hgate, if_true]
    exact ⟨rfl, rfl⟩
  failedInit gate why hended := by
    obtain ⟨_, hmove, -, -⟩ := move_of_proceed { call := .init } gate
    refine ⟨?_, fun later => ?_⟩
    · rw [hended] at hmove
      generalize isOpen (proceed { call := .init } gate).2 = after at hmove ⊢
      cases hmove
      rfl
    · exact proceed_of_stopped hended later
  refused gate ptr hopen := by
    rw [proceed, advance_free_called, if_neg (by simpa [isOpen] using hopen)]
    simp [settle]
  added gate start len := by
    obtain ⟨passed, hmove, hreached, -⟩ := move_of_proceed { call := .addBlock start len } gate
    generalize proceed { call := .addBlock start len } gate = left at hmove hreached ⊢
    generalize isOpen left.2 = after, left.1.stage = ended at hmove
    cases hmove with
    | add => exact ⟨true, hreached⟩
    | failToAdd => exact ⟨false, hreached⟩
    | rest => contradiction
  unwatched := Watched.advance_forget
  initSteps := init_eq
  addBlockSteps := addBlock_eq
  allocSteps := allocAmid_eq
  allocAlone := alloc_eq
  freeSteps := free_eq

/-- A probe whose gate was opened while a grant was waiting. -/
def Traffic.sample : Traffic Probe where
  gate := {
    object := { inner := { inner := {}, contacts := [⟨.init, true⟩] }, initialized := true }
    trace := [.call .init, .log "gated backend initialized"] }
  tasks := [{ call := .alloc 8, stage := .waiting },
    { call := .init, stage := .returned none, passed := [⟨.init, true⟩] }]

theorem Traffic.sample_reachable : Reachable sample := by
  have hshut : Traffic.Reachable
      { gate := { object := { inner := { inner := ({} : Probe) } } }
        tasks := [{ call := .alloc 8 }] } :=
    .step (.start {} 0 {}) (.arrive _ _)
  have hwaiting := hshut.step (.go _ [] _ [])
  have hcalled := hwaiting.step (.arrive _ .init)
  have hprepared := hcalled.step (.go _ [_] _ [])
  exact hprepared.step (.go _ [_] _ [])

/-- The grant that waited is passed on. A second initialization breaks off, and so do a release at
a shut gate and the initialization of a backend without memory. -/
theorem gate_keeps_sample :
    (∃ granted, Relation.ReflTransGen Step sample granted ∧ Kept granted ∧
      isOpen granted.gate = true ∧ reached granted.gate = [⟨.init, true⟩, ⟨.alloc 8, true⟩]) ∧
    isOpen (proceed { call := .init, stage := .prepared } sample.gate).2 = true ∧
    ∃ gate : Run (Gated (Watched Unsupported)),
      (proceed { call := .free (some 8) } gate).2 = gate ∧
      (proceed { call := .init } gate).1.stage = .stopped .called (.panic .unsupported) ∧
      isOpen (proceed { call := .init } gate).2 = false := by
  have hgranted : Relation.ReflTransGen Step sample _ :=
    .tail (.tail (.single (.go _ [] _ [_])) (.go _ [] _ [_])) (.go _ [] _ [_])
  refine ⟨⟨_, hgranted, (gate_keeps Probe).kept _ (sample_reachable.steps hgranted),
    (gate_keeps Probe).staysOpen _ _ hgranted rfl, rfl⟩,
    ((gate_keeps Probe).initializedTwice _ [] rfl).2,
    { object := { inner := { inner := {} } } }, ?_, rfl, ?_⟩
  · exact congrArg Prod.snd ((gate_keeps Unsupported).refused _ (some 8) rfl)
  · exact ((gate_keeps Unsupported).failedInit _ _ rfl).1

end PoolAlloc
