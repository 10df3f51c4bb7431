import PoolAlloc.Proofs.Soundness
/-!
# PoolAlloc.Proofs.Tiling

The free list is canonical: it depends on what is free and on nothing else.

Main statement: in every reachable session the free blocks are exactly the maximal runs of pool
bytes that no granted block holds (`Reachable.blocks_canonical`). So no byte is lost or held twice,
and neighbours are merged even where two pools touch.
-/

namespace PoolAlloc

namespace Session

variable {s : Session} {bs : List FreeBlock}

/-- The free blocks are what the granted blocks leave of the pools, in whole runs. -/
structure Canonical (s : Session) (bs : List FreeBlock) : Prop where
  /-- Addresses rise, and there is a gap between any two free blocks. -/
  spaced : bs.Pairwise fun b c => b.stop < c.start
  /-- A free block is a maximal run of pool bytes that are not granted, and every such run is a
  free block. -/
  runs : ∀ lo hi, (∃ b ∈ bs, b.start = lo ∧ b.stop = hi) ↔
    IsRun (fun x => Covered s.pools x ∧ ¬ s.Granted x) lo hi
  /-- A granted block takes up its header and its usable size. -/
  extent : ∀ p ∈ s.live, (s.list.block p).start = p - headerSize ∧
    (s.list.block p).stop = p + s.list.usableSize p
  /-- Granted blocks do not overlap. -/
  apart : ∀ p ∈ s.live, ∀ q ∈ s.live, p ≠ q → (s.list.block p).Apart (s.list.block q)
  /-- What is free is not granted. -/
  exclusive : ∀ x, Covered bs x → ¬ s.Granted x
  /-- Free and granted blocks make up the pools. -/
  tile : ∀ x, Covered s.pools x ↔ Covered bs x ∨ s.Granted x

theorem Sound.canonical (h : s.Sound bs) : Canonical s bs := by
  have hexclusive : ∀ x, Covered bs x → ¬ s.Granted x :=
    fun x hx ⟨p, hp, hxp⟩ => h.notFree p hp x hxp hx
  have hfree : (fun x => Covered s.pools x ∧ ¬ s.Granted x) = Covered bs := by
    funext x
    refine propext ⟨fun ⟨hpool, hgranted⟩ => ?_, fun hx => ⟨?_, hexclusive x hx⟩⟩
    · exact ((h.tile x).1 hpool).resolve_right hgranted
    · exact (h.tile x).2 (Or.inl hx)
  refine ⟨h.tidy.spaced, fun lo hi => ?_, fun p hp => ?_, fun p hp q hq => h.apart_live hp hq,
    hexclusive, h.tile⟩
  · rw [hfree, h.tidy.spaced.isRun_iff]
  · exact ⟨rfl, FreeList.block_stop (h.valid p hp)⟩

/-- A region is accepted, and adds a pool, if it has room for one. -/
theorem Effect.accepted {bs' : List FreeBlock} {s' : Session} {r : Region} {answer : Option Nat}
    (he : Effect s bs (.addRegion r) answer s' bs') :
    answer = r.pool?.map FreeBlock.size ∧ s'.pools = r.pool?.toList ++ s.pools := by
  cases he with
  | added hpool _ =>
    rw [hpool]
    exact ⟨rfl, List.filterMap_cons_some hpool⟩
  | ignored hpool =>
    rw [hpool]
    exact ⟨rfl, List.filterMap_cons_none hpool⟩

/-- The list of a reachable session can be walked and is canonical, and every request that the
contract allows leads on to such a session, with the pools that were accepted. -/
theorem Reachable.blocks_canonical (h : Reachable s) :
    (∃ bs, s.list.blocks = .ok bs ∧ Canonical s bs) ∧
      ∀ r, r.Allowed s → ∃ answer s', s.perform r = .ok (answer, s') ∧ Reachable s' ∧
        ∀ region, r = .addRegion region → answer = region.pool?.map FreeBlock.size ∧
          s'.pools = region.pool?.toList ++ s.pools := by
  obtain ⟨bs, hsound⟩ := h.sound
  refine ⟨⟨bs, hsound.tidy.holds.blocks_eq, hsound.canonical⟩, fun r hr => ?_⟩
  obtain ⟨answer, s', bs', hs', he⟩ := hsound.perform hr
  refine ⟨answer, s', hs', h.step hr hs', ?_⟩
  intro region heq
  subst heq
  exact he.accepted

/-- The free blocks of the sample: the slack in front of its first granted block, and what is left
behind the second, over the seam of the pools. -/
theorem canonical_sample : Canonical sample [⟨4096, 16⟩, ⟨4328, 256⟩] := by
  obtain ⟨bs, hbs, hcanonical⟩ := (Reachable.blocks_canonical sample_reachable).1
  have hblocks : sample.list.blocks.toOption = some [⟨4096, 16⟩, ⟨4328, 256⟩] := by decide +kernel
  rw [hbs] at hblocks
  exact Option.some.inj hblocks ▸ hcanonical

end Session

end PoolAlloc
