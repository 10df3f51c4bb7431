import PoolAlloc.Proofs.Admission
import PoolAlloc.Proofs.HeapSession
import PoolAlloc.Proofs.Isolation
/-!
# PoolAlloc.Proofs.HeapBackends

Heaps that are asked as backends, directly or through a gate.

A gate that is open passes on what it is asked, so that a heap behind it does what it would do
without the gate (`HeapBacked`). What the heap does for a backend call is said once for all blocks
that it granted before: they stay as they are (`HeapSession.Stays`).

Main statements: `Sound.backend_alloc`, `Sound.backend_free`, `Sound.backend_addBlock`.
-/

namespace PoolAlloc

open FreeList Heap

/-- The run of a part of an object. -/
def Run.part {σ τ : Type} (f : σ → τ) (r : Run σ) : Run τ :=
  { object := f r.object, mem := r.mem, trace := r.trace }

/-- An operation of a part returns on the whole. -/
theorem Action.onPart_of_ok {σ τ α : Type} {part : σ → τ} {setPart : τ → σ → σ} {act : Action τ α}
    {r : Run σ} {s : Run τ} {x : α} (h : act (r.part part) = .ok x s) :
    onPart part setPart act r =
      .ok x { object := setPart s.object r.object, mem := s.mem, trace := s.trace } := by
  have hpart : act ⟨part r.object, r.mem, r.trace⟩ = .ok x s := h
  simp only [onPart, hpart]

/-- What an operation of a part does where it returns on the whole. -/
theorem Action.ok_of_onPart {σ τ α : Type} {part : σ → τ} {setPart : τ → σ → σ} {act : Action τ α}
    {r r' : Run σ} {x : α} (h : onPart part setPart act r = .ok x r') :
    ∃ s, act (r.part part) = .ok x s ∧
      r' = { object := setPart s.object r.object, mem := s.mem, trace := s.trace } := by
  unfold onPart at h
  split at h
  · rename_i s hact
    obtain ⟨rfl, rfl⟩ := EStateM.Result.ok.inj h
    exact ⟨s, hact, rfl⟩
  · cases h

/-! ### Backends with a heap behind them -/

/-- A backend with a heap behind it that does what is asked of the backend. -/
class HeapBacked (β : Type) [Backend β] where
  /-- The heap. -/
  heap : β → Heap
  /-- Replace the heap. -/
  setHeap : Heap → β → β
  /-- Whether requests are passed on. -/
  Ready : β → Prop
  heap_setHeap : ∀ h b, heap (setHeap h b) = h
  /-- Preparing the backend leaves the heap and the memory as they are. -/
  init_keeps : ∀ (r r' : Run β), Backend.init r = .ok () r' →
    heap r'.object = heap r.object ∧ r'.mem = r.mem
  addBlock_eq : ∀ (start len : Nat), (Backend.addBlock start len : Action β Unit) =
    Action.onPart heap setHeap (Backend.addBlock start len)
  alloc_eq : ∀ (size : Nat) (r : Run β), Ready r.object →
    Backend.alloc size r = Action.onPart heap setHeap (Backend.alloc size) r
  free_eq : ∀ (ptr : Option Nat) (r : Run β), Ready r.object →
    Backend.free ptr r = Action.onPart heap setHeap (Backend.free ptr) r

/-- A heap is behind itself. -/
theorem onPart_self {α : Type} (act : Action Heap α) :
    Action.onPart (fun h => h) (fun h _ => h) act = act := by
  funext r
  simp only [Action.onPart]
  cases act r <;> rfl

instance : HeapBacked Heap where
  heap h := h
  setHeap h _ := h
  Ready _ := True
  heap_setHeap _ _ := rfl
  init_keeps r r' h := by
    obtain ⟨-, rfl⟩ := EStateM.Result.ok.inj h
    exact ⟨rfl, rfl⟩
  addBlock_eq _ _ := (onPart_self _).symm
  alloc_eq size r _ := by rw [onPart_self]
  free_eq ptr r _ := by rw [onPart_self]

/-- Nothing is granted by a heap where nothing is asked for. -/
theorem backend_alloc_zero (r : Run Heap) : Backend.alloc 0 r = .ok none r := by
  have halloc : (Backend.alloc 0 : Action Heap (Option Nat)) = Heap.malloc 0 := rfl
  rw [halloc, Heap.malloc_eq, Heap.alignedMalloc_eq, if_pos (.inl rfl), Action.pure_apply]

namespace Gated

variable {r r' : Run (Gated Heap)}

/-- A grant goes through an open gate. -/
theorem alloc_of_open (size : Nat) (hopen : r.object.initialized = true) :
    alloc size r = onInner (Backend.alloc size) r := by
  simp only [alloc, allocAmid, Action.bind_apply, Action.object_apply, await_of_open _ hopen]
  split
  · rename_i hsize
    have hnone : onInner (Backend.alloc 0) r = .ok none r :=
      Action.onPart_of_ok (backend_alloc_zero _)
    rw [hsize, hnone, Action.pure_apply]
  · rfl

/-- A release goes through an open gate. -/
theorem free_of_open (ptr : Option Nat) (hopen : r.object.initialized = true) :
    free ptr r = onInner (Backend.free ptr) r := by
  simp only [free, isInitialized, Action.bind_apply, Action.object_apply, Action.pure_apply, hopen,
    if_true]

/-- Preparing a heap and opening the gate leaves the heap as it is. -/
theorem init_keeps (h : init r = .ok () r') :
    r'.object.inner = r.object.inner ∧ r'.mem = r.mem := by
  have hinit : (init : Action (Gated Heap) Unit) = onInner Heap.init >>= fun _ => openGate := rfl
  rw [hinit, Action.bind_apply] at h
  simp only [onInner, Action.onPart, Heap.init, Action.emit_apply, openGate_apply] at h
  split at h
  · cases h
  · obtain ⟨-, rfl⟩ := EStateM.Result.ok.inj h
    exact ⟨rfl, rfl⟩

end Gated

instance : HeapBacked (Gated Heap) where
  heap g := g.inner
  setHeap h g := { g with inner := h }
  Ready g := g.initialized = true
  heap_setHeap _ _ := rfl
  init_keeps _ _ h := Gated.init_keeps h
  addBlock_eq _ _ := rfl
  alloc_eq size _ hopen := Gated.alloc_of_open size hopen
  free_eq ptr _ hopen := Gated.free_of_open ptr hopen

/-! ### What a heap does for a backend call -/

namespace HeapSession

variable {u u' : HeapSession} {bs bs' : List FreeBlock} {p : Nat}

/-- The granted block at `p` keeps its size and its payload. -/
structure Stays (u u' : HeapSession) (p : Nat) : Prop where
  size_eq : u'.session.list.usableSize p = u.session.list.usableSize p
  get_eq : ∀ x, p ≤ x → x < p + u.session.list.usableSize p → u'.run.mem.get x = u.run.mem.get x

theorem Stays.refl (u : HeapSession) (p : Nat) : u.Stays u p := ⟨rfl, fun _ _ _ => rfl⟩

/-- What was observed of a heap is nothing to its blocks. -/
theorem Sound.of_eq {run : Run Heap} (h : u.Sound bs) (hobject : run.object = u.run.object)
    (hmem : run.mem = u.run.mem) :
    Sound ⟨run, u.regions, u.live⟩ bs ∧ ∀ p, u.Stays ⟨run, u.regions, u.live⟩ p := by
  obtain ⟨object, mem, trace⟩ := run
  obtain rfl : object = u.run.object := hobject
  obtain rfl : mem = u.run.mem := hmem
  exact ⟨⟨h.list, h.free⟩, fun p => ⟨rfl, fun _ _ _ => rfl⟩⟩

/-- Blocks that a request does not name stay as they are. -/
theorem Carried.stays {r : Request} {answer : Option Nat} {s' : Session}
    (hc : u.Carried bs r false answer s' bs' u') (h : u.Sound bs) (hr : r.Allowed u.session)
    (hcall : ∀ addr byte, r ≠ .write addr byte) (hp : p ∈ u.live) (ht : r.target? ≠ some p) :
    u.Stays u' p := by
  obtain ⟨hothers, -, -⟩ := hc.effect.undisturbed h.list hr hcall
  obtain ⟨-, hsize, hget⟩ := hothers p hp ht
  have hlist := hc.list_eq rfl
  exact ⟨(congrArg (FreeList.usableSize · p) hlist).trans hsize, fun x h₁ h₂ =>
    (congrArg (fun l : FreeList => l.mem.get x) hlist).trans (hget x h₁ h₂)⟩

/-- A heap carries out what a backend call comes to. -/
theorem Sound.carry_backend {call : BackendCall} {r : Request} {w : Wording} (h : u.Sound bs)
    (hr : r.Allowed u.session) (hplan : call.plan = .inside (.request r) false w) :
    ∃ (answer : Option Nat) (s' : Session) (bs' : List FreeBlock) (run : Run Heap),
      call.act u.run = .ok (w.reply (r.reply answer)) run ∧
      u.Carried bs r false answer s' bs' ⟨run, s'.regions, s'.live⟩ := by
  obtain ⟨answer, s', bs', run, hact, hc⟩ := h.carry hr false w
  have hafter : u.after (.inside (.request r) false w) run = ⟨run, s'.regions, s'.live⟩ := by
    rw [← hc.regions_eq, ← hc.live_eq]
    rfl
  rw [← hplan, ← BackendCall.act_eq] at hact
  exact ⟨answer, s', bs', run, hact, hafter ▸ hc⟩

/-- A heap that is asked for a block as a backend returns. A block that it grants is new and has
room for what was asked for. -/
theorem Sound.backend_alloc (h : u.Sound bs) (size : Nat) :
    ∃ (answer : Option Nat) (run : Run Heap) (u' : HeapSession) (bs' : List FreeBlock),
      u' = ⟨run, u.regions, answer.elim u.live (insert · u.live)⟩ ∧
      Backend.alloc size u.run = .ok answer run ∧ u'.Sound bs' ∧ (∀ p ∈ u.live, u.Stays u' p) ∧
      ∀ p, answer = some p → p ∉ u.live ∧ size ≤ u'.session.list.usableSize p := by
  by_cases hsize : size = 0
  · subst hsize
    exact ⟨none, u.run, u, bs, rfl, backend_alloc_zero _, h, fun p _ => .refl u p, nofun⟩
  have hallowed : (Request.allocate granularity size).Allowed u.session := trivial
  have hplan : BackendCall.plan (.alloc size) =
      .inside (.request (.allocate granularity size)) false .plain :=
    if_neg (not_or.2 ⟨hsize, not_not.2 ⟨3, rfl⟩⟩)
  obtain ⟨answer, s', bs', run, hact, hc⟩ := h.carry_backend hallowed hplan
  obtain ⟨_, hrun, hanswer⟩ := Action.eq_ok_of_map hact
  obtain rfl := Reply.address.inj hanswer
  have hstays : ∀ p ∈ u.live, u.Stays ⟨run, s'.regions, s'.live⟩ p :=
    fun p hp => hc.stays h hallowed nofun hp nofun
  have hlist := hc.list_eq rfl
  have he := hc.effect
  cases he with
  | @granted _ _ g _ _ _ ht =>
    refine ⟨some g.payload, run, _, bs', rfl, hrun, hc.sound, hstays, fun p hp => ?_⟩
    obtain rfl := Option.some.inj hp
    obtain ⟨-, hroom⟩ := hc.effect.room h.list
    refine ⟨fun hlive => h.list.payload_ne hlive ht rfl, ?_⟩
    exact hroom.trans_eq (congrArg (FreeList.usableSize · g.payload) hlist).symm
  | refused => exact ⟨none, run, _, bs, rfl, hrun, hc.sound, hstays, nofun⟩

/-- A heap that is given a granted block back as a backend returns. -/
theorem Sound.backend_free {ptr : Option Nat} (h : u.Sound bs)
    (hptr : ∀ p, ptr = some p → p ∈ u.live) :
    ∃ (run : Run Heap) (u' : HeapSession) (bs' : List FreeBlock),
      u' = ⟨run, u.regions, ptr.elim u.live u.live.erase⟩ ∧ Backend.free ptr u.run = .ok () run ∧
      u'.Sound bs' ∧ ∀ q ∈ u.live, ptr ≠ some q → u.Stays u' q := by
  cases ptr with
  | none => exact ⟨u.run, u, bs, rfl, rfl, h, fun q _ _ => .refl u q⟩
  | some p =>
    have hallowed : (Request.release p).Allowed u.session := hptr p rfl
    have hplan : BackendCall.plan (.free (some p)) =
        .inside (.request (.release p)) false .silent := rfl
    obtain ⟨answer, s', bs', run, hact, hc⟩ := h.carry_backend hallowed hplan
    obtain ⟨_, hrun, -⟩ := Action.eq_ok_of_map hact
    have hstays : ∀ q ∈ u.live, some p ≠ some q → u.Stays ⟨run, s'.regions, s'.live⟩ q :=
      fun q hq hne => hc.stays h hallowed nofun hq hne
    have he := hc.effect
    cases he with
    | released => exact ⟨run, _, bs', rfl, hrun, hc.sound, hstays⟩

/-- A heap that is handed a region as a backend returns. -/
theorem Sound.backend_addBlock {start len : Nat} (h : u.Sound bs)
    (hregion : (Request.addRegion ⟨start, len⟩).Allowed u.session) :
    ∃ (run : Run Heap) (u' : HeapSession) (bs' : List FreeBlock),
      u' = ⟨run, ⟨start, len⟩ :: u.regions, u.live⟩ ∧
      Backend.addBlock start len u.run = .ok () run ∧ u'.Sound bs' ∧
      ∀ q ∈ u.live, u.Stays u' q := by
  have hplan : BackendCall.plan (.addBlock start len) =
      .inside (.request (.addRegion ⟨start, len⟩)) false .silent := rfl
  obtain ⟨answer, s', bs', run, hact, hc⟩ := h.carry_backend hregion hplan
  obtain ⟨_, hrun, -⟩ := Action.eq_ok_of_map hact
  have hstays : ∀ q ∈ u.live, u.Stays ⟨run, s'.regions, s'.live⟩ q :=
    fun q hq => hc.stays h hregion nofun hq nofun
  have he := hc.effect
  cases he with
  | added | ignored => exact ⟨run, _, _, rfl, hrun, hc.sound, hstays⟩

end HeapSession

end PoolAlloc
