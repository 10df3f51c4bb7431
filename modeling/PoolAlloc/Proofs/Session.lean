import Mathlib.Data.Finset.Basic
import PoolAlloc.Proofs.Requests
/-!
# PoolAlloc.Proofs.Session

A free list in use: the requests its client makes, one after another.

A free list knows neither the regions it was given nor the blocks it granted; a `Session` keeps
both beside it, so that statements can speak of them. The client is bound by a contract
(`Request.Allowed`): it offers regions that do not overlap, releases and resizes granted blocks
only, and writes where the allocator keeps nothing. `Reachable` collects what can be reached
under this contract, over memory that may hold anything at the start.
-/

namespace PoolAlloc

/-- Two regions have no address in common. -/
def Region.Disjoint (r r' : Region) : Prop := ∀ x ∈ r, x ∉ r'

theorem Region.Disjoint.symm {r r' : Region} (h : r.Disjoint r') : r'.Disjoint r :=
  fun x hx hx' => h x hx' hx

/-- A region that ends in front of another does not reach into it. -/
theorem Region.disjoint_of_le {r r' : Region} (h : r.start + r.len ≤ r'.start) : r.Disjoint r' := by
  intro x hx hx'
  rw [Region.mem_iff] at hx hx'
  omega

/-- The granted block with its payload at `ptr`, as its header describes it. -/
def FreeList.block (l : FreeList) (ptr : Nat) : FreeBlock := ⟨headerOf ptr, l.usableSize ptr⟩

/-- A free list in use. -/
structure Session where
  /-- The free list and the memory. -/
  list : FreeList
  /-- The regions that were offered to the list. -/
  regions : List Region
  /-- The payload addresses of the granted blocks. -/
  live : Finset Nat

namespace Session

/-- A session before its first request, over any memory. -/
def start (minSplit : Nat) (mem : Memory) : Session := ⟨{ minSplit, mem }, [], ∅⟩

/-- The pools that the list was given: what rounding leaves of the regions. -/
def pools (s : Session) : List FreeBlock := s.regions.filterMap Region.pool?

/-- An address lies in a granted block, header included. -/
def Granted (s : Session) (x : Nat) : Prop := ∃ p ∈ s.live, x ∈ s.list.block p

/-- An address lies in the payload of a granted block. -/
def InPayload (s : Session) (x : Nat) : Prop :=
  ∃ p ∈ s.live, p ≤ x ∧ x < p + s.list.usableSize p

/-- What the allocator keeps nothing in: the payloads of granted blocks, and all memory outside
the pools. -/
def Client (s : Session) (x : Nat) : Prop := s.InPayload x ∨ ¬ Covered s.pools x

end Session

/-- What a client may ask for. -/
inductive Request
  /-- Take a region in. -/
  | addRegion (r : Region)
  /-- Grant `size` bytes at a multiple of `align`; without a wish for the alignment that is
  `granularity`, as in `FreeList.allocate`. -/
  | allocate (align size : Nat)
  /-- Take the granted block at `ptr` back. -/
  | release (ptr : Nat)
  /-- Give the granted block at `ptr` room for `size` bytes. -/
  | resize (ptr align size : Nat)
  /-- No request to the list: the client writes a byte. -/
  | write (addr : Nat) (byte : UInt8)

/-- A request that answers nothing when it is refused. -/
def Request.MayFail : Request → Prop
  | addRegion _ | allocate _ _ | resize _ _ _ => True
  | release _ | write _ _ => False

/-- The contract of a client. -/
def Request.Allowed (s : Session) : Request → Prop
  | addRegion r =>
    r.start ≠ 0 ∧ r.start + r.len < wordLimit ∧ ∀ r' ∈ s.regions, r.Disjoint r'
  | allocate _ _ => True
  | release ptr => ptr ∈ s.live
  | resize ptr _ _ => ptr ∈ s.live
  | write addr _ => s.Client addr

namespace Session

/-- Carry out a request. Answers what the list answers: an address, or for a region the usable
size that was added. -/
def perform (s : Session) : Request → Except Fault (Option Nat × Session)
  | .addRegion r => do
    let (answer, l) ← s.list.addRegion r.start r.len
    return (answer, { s with list := l, regions := r :: s.regions })
  | .allocate align size => do
    match ← s.list.allocateAligned align size with
    | (some ptr, l) => return (some ptr, { s with list := l, live := insert ptr s.live })
    | (none, l) => return (none, { s with list := l })
  | .release ptr => do
    return (none, { s with list := ← s.list.release ptr, live := s.live.erase ptr })
  | .resize ptr align size => do
    match ← s.list.resize ptr align size with
    | (some moved, l) =>
      return (some moved, { s with list := l, live := insert moved (s.live.erase ptr) })
    | (none, l) => return (none, { s with list := l })
  | .write addr byte =>
    return (none, { s with list := { s.list with mem := s.list.mem.set addr byte } })

/-- Carry out requests in turn. -/
def run (s : Session) : List Request → Except Fault (List (Option Nat) × Session)
  | [] => return ([], s)
  | r :: rs => do
    let (answer, s) ← s.perform r
    let (answers, s) ← s.run rs
    return (answer :: answers, s)

/-- The session that a request leaves. -/
def after (s : Session) (r : Request) : Session := (s.perform r).toOption.elim s Prod.snd

/-- What a client that keeps the contract can lead to. -/
inductive Reachable : Session → Prop
  | start (minSplit : Nat) (mem : Memory) : Reachable (start minSplit mem)
  | step {s s' : Session} {r : Request} {answer : Option Nat} (h : Reachable s)
      (hr : r.Allowed s) (hs : s.perform r = .ok (answer, s')) : Reachable s'

/-! ### What a request does -/

open FreeList in
/-- What a request answers and leaves, for a session whose free blocks are `bs`. -/
inductive Effect (s : Session) (bs : List FreeBlock) :
    Request → Option Nat → Session → List FreeBlock → Prop
  | added {r : Region} {b : FreeBlock} {l' : FreeList} {bs' : List FreeBlock}
      (hpool : r.pool? = some b) (h : s.list.Gives bs b l' bs') :
      Effect s bs (.addRegion r) (some b.size) { s with list := l', regions := r :: s.regions } bs'
  | ignored {r : Region} (hpool : r.pool? = none) :
      Effect s bs (.addRegion r) none { s with regions := r :: s.regions } bs
  | granted {align size : Nat} {g : FreeBlock} {l' : FreeList} {bs' : List FreeBlock}
      (hplace : place? s.list.floor align size bs = some (g, bs')) (h : s.list.Takes bs g l' bs') :
      Effect s bs (.allocate align size) (some g.payload)
        { s with list := l', live := insert g.payload s.live } bs'
  | refused {align size : Nat} (hplace : place? s.list.floor align size bs = none) :
      Effect s bs (.allocate align size) none s bs
  | released {ptr : Nat} {l' : FreeList} {bs' : List FreeBlock}
      (h : s.list.Gives bs (s.list.block ptr) l' bs') :
      Effect s bs (.release ptr) none { s with list := l', live := s.live.erase ptr } bs'
  | cutDown {ptr align size n : Nat} {l' : FreeList} {bs' : List FreeBlock}
      (hround : roundUp? size granularity = some n) (hpos : size ≠ 0)
      (hle : n ≤ s.list.usableSize ptr) (h : s.list.CutsDown bs (s.list.block ptr) n l' bs') :
      Effect s bs (.resize ptr align size) (some ptr) { s with list := l' } bs'
  | moved {ptr align size n : Nat} {g : FreeBlock} {l₁ l' : FreeList}
      {bs₁ bs' : List FreeBlock} (hround : roundUp? size granularity = some n) (hpos : size ≠ 0)
      (hlt : s.list.usableSize ptr < n)
      (hplace : place? s.list.floor align n bs = some (g, bs₁)) (h₁ : s.list.Takes bs g l₁ bs₁)
      (h : Gives { l₁ with mem := l₁.mem.copy ptr g.payload (s.list.usableSize ptr) } bs₁
        (s.list.block ptr) l' bs') :
      Effect s bs (.resize ptr align size) (some g.payload)
        { s with list := l', live := insert g.payload (s.live.erase ptr) } bs'
  | kept {ptr align size : Nat}
      (h : size = 0 ∨ roundUp? size granularity = none ∨
        ∃ n, roundUp? size granularity = some n ∧ s.list.usableSize ptr < n ∧
          place? s.list.floor align n bs = none) :
      Effect s bs (.resize ptr align size) none s bs
  | written {addr : Nat} {byte : UInt8} :
      Effect s bs (.write addr byte) none
        { s with list := { s.list with mem := s.list.mem.set addr byte } } bs

end Session

/-! ### What is refused

These need no invariant: whatever memory holds, every test comes before the first write. -/

namespace FreeList

variable {l l' : FreeList}

theorem eq_of_addRegion_none {start len : Nat} (h : l.addRegion start len = .ok (none, l')) :
    l' = l := by
  unfold addRegion at h
  split at h
  · exact (Prod.mk.inj (Except.ok.inj h)).2.symm
  · obtain ⟨l₁, -, heq⟩ := bind_eq_ok.1 h
    cases heq

theorem eq_of_allocateAligned_none {align size : Nat}
    (h : l.allocateAligned align size = .ok (none, l')) : l' = l := by
  unfold allocateAligned at h
  split at h
  · exact (Prod.mk.inj (Except.ok.inj h)).2.symm
  · split at h
    · exact (Prod.mk.inj (Except.ok.inj h)).2.symm
    · obtain ⟨found, -, h⟩ := bind_eq_ok.1 h
      cases found with
      | none => exact (Prod.mk.inj (Except.ok.inj h)).2.symm
      | some place =>
        -- From here on the block is cut, and an address is answered.
        obtain ⟨⟨block, l₁⟩, -, h⟩ := bind_eq_ok.1 h
        obtain ⟨⟨tail, l₂⟩, -, h⟩ := bind_eq_ok.1 h
        cases tail
        all_goals
          obtain ⟨l₃, -, h⟩ := bind_eq_ok.1 h
          obtain ⟨l₄, -, h⟩ := bind_eq_ok.1 h
          obtain ⟨-, -, heq⟩ := bind_eq_ok.1 h
          cases heq

theorem eq_of_resize_none {ptr align size : Nat} (h : l.resize ptr align size = .ok (none, l')) :
    l' = l := by
  unfold resize at h
  split at h
  · exact (Prod.mk.inj (Except.ok.inj h)).2.symm
  · split at h
    · exact (Prod.mk.inj (Except.ok.inj h)).2.symm
    · dsimp only at h
      split at h
      · obtain ⟨⟨tail, l₁⟩, -, h⟩ := bind_eq_ok.1 h
        cases tail with
        | none => cases h
        | some tail =>
          obtain ⟨l₂, -, heq⟩ := bind_eq_ok.1 h
          cases heq
      · obtain ⟨⟨answer, l₁⟩, hgrant, h⟩ := bind_eq_ok.1 h
        cases answer with
        | none =>
          obtain rfl := (Prod.mk.inj (Except.ok.inj h)).2
          exact eq_of_allocateAligned_none hgrant
        | some moved =>
          obtain ⟨l₂, -, heq⟩ := bind_eq_ok.1 h
          cases heq

end FreeList

/-- A refused request leaves the list, its memory and the granted blocks as they are. -/
theorem Session.unchanged_of_none {s s' : Session} {r : Request} (hr : r.MayFail)
    (h : s.perform r = .ok (none, s')) : s'.list = s.list ∧ s'.live = s.live := by
  cases r with
  | addRegion r =>
    obtain ⟨⟨answer, l⟩, hl, heq⟩ := bind_eq_ok.1 h
    obtain ⟨rfl, rfl⟩ := Prod.mk.inj (Except.ok.inj heq)
    exact ⟨FreeList.eq_of_addRegion_none hl, rfl⟩
  | allocate align size =>
    obtain ⟨⟨answer, l⟩, hl, heq⟩ := bind_eq_ok.1 h
    cases answer with
    | none =>
      obtain ⟨-, rfl⟩ := Prod.mk.inj (Except.ok.inj heq)
      exact ⟨FreeList.eq_of_allocateAligned_none hl, rfl⟩
    | some ptr => cases heq
  | resize ptr align size =>
    obtain ⟨⟨answer, l⟩, hl, heq⟩ := bind_eq_ok.1 h
    cases answer with
    | none =>
      obtain ⟨-, rfl⟩ := Prod.mk.inj (Except.ok.inj heq)
      exact ⟨FreeList.eq_of_resize_none hl, rfl⟩
    | some moved => cases heq
  | release | write => exact hr.elim

end PoolAlloc
