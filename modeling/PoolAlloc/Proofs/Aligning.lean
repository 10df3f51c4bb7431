import PoolAlloc.Backend.OffsetAligned
import PoolAlloc.Proofs.HeapSession
/-!
# PoolAlloc.Proofs.Aligning

Aligned grants from a shared heap that is asked as a backend.

The aligner asks the heap for more than is needed and stores a distance in what it gets, in front of
the aligned payload. To the heap this is a call and two bytes that a client writes, so that aligned
grants lead from one reachable heap to another.

Main statement: `HeapSession.Reachable.alignedAlloc`.
-/

namespace PoolAlloc

open FreeList Heap OffsetAligned

namespace OffsetAligned

/-- A heap behind an aligner, where it is as it is in `run`. -/
def around (run : Run Heap) : Run (OffsetAligned Heap) :=
  { object := ⟨run.object⟩, mem := run.mem, trace := run.trace }

/-- The distance to an aligned payload has room in front of it for its two bytes, and leaves the
range in no block that ends below the word limit. -/
theorem offsetIn_eq {block align : Nat} (halign : IsAlignment align)
    (hword : block + maxOffset align < wordLimit) :
    ∃ offset, offsetIn block align = .ok offset ∧ offsetSize ≤ offset ∧
      offset ≤ maxOffset align ∧ align ∣ block + offset := by
  have hpos : 0 < align := Nat.pos_of_isPowerOfTwo halign
  have hle := roundDown_le (block + maxOffset align) align
  have hlt := lt_roundDown_add (block + maxOffset align) hpos
  have hrange : offsetSize ≤ roundDown (block + maxOffset align) align - block ∧
      roundDown (block + maxOffset align) align - block ≤ maxOffset align := by
    have hmax : maxOffset align = offsetSize + (align - 1) := rfl
    omega
  have hsize : 0 < offsetSize := by decide
  have hsum : block + (roundDown (block + maxOffset align) align - block) =
      roundDown (block + maxOffset align) align := by omega
  refine ⟨_, ?_, hrange.1, hrange.2, hsum.symm ▸ dvd_roundDown ..⟩
  rw [offsetIn, sum_of_lt hword, ok_bind, difference_of_le (by omega), ok_bind,
    ensure_pos hrange, ok_bind]
  rfl

/-- What the heap does, it does behind the aligner. -/
theorem onBackend_around {α : Type} {act : Action Heap α} {run run' : Run Heap} {x : α}
    (h : act run = .ok x run') : onBackend act (around run) = .ok x (around run') := by
  have hpart : act ⟨run.object, run.mem, run.trace⟩ = .ok x run' := h
  simp only [onBackend, Action.onPart, around, hpart]

end OffsetAligned

namespace HeapSession

variable {u : HeapSession} {bs : List FreeBlock} {size : Nat}

/-- A heap that is asked for a block as a backend returns. A block that it grants has room for what
was asked for, and where it grants none nothing changes. -/
theorem Reachable.backend_alloc (h : u.Reachable) (hsize : size ≠ 0) :
    ∃ (answer : Option Nat) (u' : HeapSession),
      Backend.alloc size u.run = .ok answer u'.run ∧ u'.Reachable ∧
      (answer = none → u.Unchanged u') ∧
      ∀ ptr, answer = some ptr →
        ptr ∈ u'.session.live ∧ size ≤ u'.session.list.usableSize ptr := by
  obtain ⟨bs, hsound⟩ := h.sound
  have hcall : Call.Allowed u.session (.backend (.alloc size)) := by
    rw [Call.Allowed, Call.plan, BackendCall.plan]
    exact Plan.grant_allowed
  obtain ⟨reply, run, bs', hrun, hc⟩ := hsound.act hcall
  have hreach := h.call hcall hrun
  have hplan : Call.plan (.backend (.alloc size)) =
      .inside (.request (.allocate granularity size)) false .plain :=
    if_neg (not_or.2 ⟨hsize, not_not.2 ⟨3, rfl⟩⟩)
  rw [hplan] at hc hreach
  -- The call words the answer of the backend and does nothing else.
  obtain ⟨answer, hb, rfl⟩ := Action.eq_ok_of_map hrun
  refine ⟨answer, _, hb, hreach, ?_⟩
  generalize hw : Reply.address answer = reply at hc
  cases hc with
  | @request _ _ _ answer' s' _ _ hs he =>
    obtain rfl : answer = answer' := Reply.address.inj hw
    refine ⟨fun hnone => ?_, fun ptr hptr => ?_⟩
    · subst hnone
      exact unchanged_of_refused trivial hs
    · subst hptr
      obtain ⟨hlive, hroom⟩ := he.room hsound.list
      have hkept : freeList (leave u.run s'.list) = s'.list := freeList_leave he.minSplit_eq
      rw [session_after hs]
      exact ⟨hlive, hkept.symm ▸ hroom⟩
  | look hlook hx => exact absurd rfl (hlook _)

/-- Aligned grants from a reachable heap return and leave a reachable heap, unchanged where nothing
is granted. -/
theorem Reachable.alignedAlloc (h : u.Reachable) (align size : Nat) :
    ∃ (answer : Option Nat) (u' : HeapSession),
      OffsetAligned.alignedAlloc align size (around u.run) = .ok answer (around u'.run) ∧
      u'.Reachable ∧ (answer = none → u.Unchanged u') := by
  unfold OffsetAligned.alignedAlloc
  split
  · exact ⟨none, u, rfl, h, fun _ => .refl u⟩
  · rename_i hvalid
    obtain ⟨hpos, halign, -⟩ : size ≠ 0 ∧ IsAlignment align ∧ _ := by
      simpa only [not_or, not_not] using hvalid
    cases henough : addChecked size (maxOffset align) with
    | none => exact ⟨none, u, rfl, h, fun _ => .refl u⟩
    | some enough =>
      obtain ⟨-, rfl⟩ := addChecked_eq_some.1 henough
      obtain ⟨answer, u', halloc, hreach, hnone, hroom⟩ :=
        h.backend_alloc (show size + maxOffset align ≠ 0 by omega)
      simp only [Action.bind_apply, onBackend_around halloc]
      cases answer with
      | none => exact ⟨none, u', rfl, hreach, hnone⟩
      | some block =>
        obtain ⟨hlive, hroom⟩ := hroom block rfl
        obtain ⟨bs, hsound⟩ := hreach.sound
        have hstop := hsound.list.payload_stop_lt hlive
        have htwo : offsetSize = 2 := rfl
        obtain ⟨offset, hoffset, hmin, hmax, -⟩ :=
          offsetIn_eq halign (show block + maxOffset align < wordLimit by omega)
        have hfirst : u'.session.InPayload (block + offset - offsetSize) :=
          ⟨block, hlive, by omega, by omega⟩
        have hsecond : u'.session.InPayload (block + offset - offsetSize + 1) :=
          ⟨block, hlive, by omega, by omega⟩
        -- The distance is stored in the payload of the block, as a client might do it.
        refine ⟨some (block + offset),
          (u'.write (block + offset - offsetSize) (UInt8.ofNat offset)).write
            (block + offset - offsetSize + 1) (UInt8.ofNat (offset / 256)), ?_, ?_, nofun⟩
        · simp only [hoffset, Action.ofFault]
          rfl
        · exact (hreach.write _ hfirst).write _ ((hsound.inPayload_write _ hfirst).2 hsecond)

end HeapSession

end PoolAlloc
