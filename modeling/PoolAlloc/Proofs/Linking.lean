import PoolAlloc.FreeList.Links
import PoolAlloc.Proofs.Blocks
import PoolAlloc.Proofs.Headers
/-!
# PoolAlloc.Proofs.Linking

The edits of the linked list, seen as edits of a list of blocks.

Each edit is a few header writes, with the head of the list standing in for the header before the
first block. `LeadsTo` states what holds in front of the place of an edit and `Linked` what holds
behind it; `redirect` and `pointBack` are the two writes that move the seam. With them linking a
block in (`Holds.insertAfter`, `Holds.insertOrdered`) and taking one out (`Holds.remove`) need no
case distinction between head, middle and tail.

Every statement also says which headers were written (`Edit`).
-/

namespace PoolAlloc

open Memory

namespace FreeList

/-! ### Which headers an operation writes -/

/-- An operation changed at most the head and the headers at certain addresses. -/
structure Edit (l l' : FreeList) (as : List Nat) : Prop where
  minSplit_eq : l'.minSplit = l.minSplit
  sameBut : SameBut l.mem l'.mem as

variable {l l' l'' : FreeList} {as as' : List Nat}

theorem Edit.refl (l : FreeList) (as : List Nat) : Edit l l as := ⟨rfl, SameBut.refl _ _⟩

theorem Edit.mono (h : Edit l l' as) (hsub : as ⊆ as') : Edit l l' as' :=
  ⟨h.minSplit_eq, h.sameBut.mono hsub⟩

theorem Edit.trans (h : Edit l l' as) (h' : Edit l' l'' as) : Edit l l'' as :=
  ⟨h'.minSplit_eq.trans h.minSplit_eq, h.sameBut.trans h'.sameBut⟩

theorem edit_setNext (l : FreeList) (b : Nat) (target : Option Nat) :
    Edit l (l.setNext b target) [b] := ⟨rfl, sameBut_setNext _ _ _⟩

theorem edit_setPrev (l : FreeList) (b : Nat) (target : Option Nat) :
    Edit l (l.setPrev b target) [b] := ⟨rfl, sameBut_setPrev _ _ _⟩

theorem edit_setSize (l : FreeList) (b size : Nat) : Edit l (l.setSize b size) [b] :=
  ⟨rfl, sameBut_setSize _ _ _⟩

theorem edit_setHeader (l : FreeList) (b size : Nat) : Edit l (l.setHeader b size) [b] :=
  ⟨rfl, sameBut_setHeader _ _ _⟩

/-! ### The seam of an edit -/

/-- The head leads through the blocks of a list to `next`. -/
structure LeadsTo (l : FreeList) (xs : List FreeBlock) (next : Option Nat) : Prop where
  head_eq : l.head = firstOr xs next
  linked : Linked l.mem none xs next

/-- Make `target` follow `prev`, or make it the head if there is no `prev`. -/
def redirect (l : FreeList) : Option Nat → Option Nat → FreeList
  | some p, target => l.setNext p target
  | none, target => { l with head := target }

/-- Make `target` the predecessor of `next`, if there is a `next`. -/
def pointBack (l : FreeList) : Option Nat → Option Nat → FreeList
  | some n, target => l.setPrev n target
  | none, _ => l

theorem edit_redirect (l : FreeList) (prev target : Option Nat) :
    Edit l (l.redirect prev target) prev.toList := by
  cases prev with
  | none => exact ⟨rfl, SameBut.refl _ _⟩
  | some p => exact edit_setNext l p target

theorem edit_pointBack (l : FreeList) (next target : Option Nat) :
    Edit l (l.pointBack next target) next.toList := by
  cases next with
  | none => exact Edit.refl ..
  | some n => exact edit_setPrev l n target

@[simp] theorem head_pointBack (l : FreeList) (next target : Option Nat) :
    (l.pointBack next target).head = l.head := by
  cases next <;> rfl

theorem LeadsTo.frame {xs : List FreeBlock} {next : Option Nat} (h : l.LeadsTo xs next)
    (hhead : l'.head = l.head) (he : Edit l l' as)
    (hxs : ∀ x ∈ xs, ∀ a ∈ as, HeadersApart x.start a) : l'.LeadsTo xs next :=
  ⟨hhead.trans h.head_eq, h.linked.frame he.sameBut hxs⟩

/-- Redirecting the last link of the blocks in front of the seam. -/
theorem LeadsTo.redirect {xs : List FreeBlock} {next target : Option Nat}
    (h : l.LeadsTo xs next) (hap : xs.Pairwise fun b c => b.start + headerSize ≤ c.start)
    (ht : ∀ n ∈ target, 0 < n ∧ n < wordLimit) :
    (l.redirect (lastOr none xs) target).LeadsTo xs target := by
  rcases List.eq_nil_or_concat xs with rfl | ⟨xs, x, rfl⟩
  · exact ⟨rfl, trivial⟩
  · rw [List.concat_eq_append] at *
    -- Only the last block `x` is written, and of it only the link on.
    obtain ⟨hfront, hx⟩ := linked_append.1 h.linked
    obtain ⟨hprev, -, hsize, -⟩ := linked_cons.1 hx
    have hap' := (List.pairwise_append.1 hap).2.2
    rw [lastOr_append_singleton]
    refine ⟨?_, linked_append.2 ⟨?_, ?_⟩⟩
    · rw [firstOr_append]
      exact h.head_eq.trans (firstOr_append ..)
    · refine hfront.frame (sameBut_setNext _ _ _) fun y hy a ha => ?_
      rw [List.mem_singleton.1 ha]
      exact Or.inl (hap' y hy x List.mem_cons_self)
    · refine linked_cons.2 ⟨?_, next_setNext l.mem x.start ht, ?_, trivial⟩
      · exact (prev_setNext l.mem x.start target).trans hprev
      · exact (size_setNext l.mem x.start target).trans hsize

/-- Pointing the first block behind the seam back at `prev`. -/
theorem linked_pointBack {ys : List FreeBlock} {prev prev' next : Option Nat}
    (h : Linked l.mem prev ys next)
    (hap : ys.Pairwise fun b c => b.start + headerSize ≤ c.start)
    (hp : ∀ n ∈ prev', 0 < n ∧ n < wordLimit) :
    Linked (l.pointBack (firstOr ys none) prev').mem prev' ys next := by
  cases ys with
  | nil => exact trivial
  | cons y ys =>
    obtain ⟨-, hnext, hsize, hrest⟩ := linked_cons.1 h
    refine linked_cons.2 ⟨prev_setPrev l.mem y.start hp, ?_, ?_, ?_⟩
    · exact (next_setPrev l.mem y.start prev').trans hnext
    · exact (size_setPrev l.mem y.start prev').trans hsize
    · refine hrest.frame (sameBut_setPrev _ _ _) fun z hz a ha => ?_
      rw [List.mem_singleton.1 ha]
      exact Or.inr ((List.pairwise_cons.1 hap).1 z hz)

/-! ### A list that holds blocks, cut at a place -/

variable {xs ys : List FreeBlock} {b : FreeBlock}

theorem Holds.leadsTo (h : l.Holds (xs ++ ys)) : l.LeadsTo xs (firstOr ys none) :=
  ⟨h.head_eq.trans (firstOr_append ..), (linked_append.1 h.linked).1⟩

theorem Holds.linked_right (h : l.Holds (xs ++ ys)) : Linked l.mem (lastOr none xs) ys none :=
  (linked_append.1 h.linked).2

theorem LeadsTo.holds (h : l.LeadsTo xs (firstOr ys none))
    (hys : Linked l.mem (lastOr none xs) ys none)
    (hap : (xs ++ ys).Pairwise fun b c => b.start + headerSize ≤ c.start)
    (hplaced : ∀ b ∈ xs ++ ys, 0 < b.start ∧ b.start < wordLimit) : l.Holds (xs ++ ys) :=
  ⟨h.head_eq.trans (firstOr_append ..).symm, linked_append.2 ⟨h.linked, hys⟩, hap, hplaced⟩

theorem lastOr_mem {p : Nat} (h : p ∈ lastOr none xs) : ∃ x ∈ xs, x.start = p := by
  rcases List.eq_nil_or_concat xs with rfl | ⟨xs, x, rfl⟩
  · simp at h
  · rw [List.concat_eq_append, lastOr_append_singleton] at h
    exact ⟨x, by simp, Option.some.inj h⟩

theorem firstOr_mem {n : Nat} (h : n ∈ firstOr ys none) : ∃ y ∈ ys, y.start = n := by
  cases ys with
  | nil => simp at h
  | cons y ys => exact ⟨y, List.mem_cons_self, Option.some.inj h⟩

theorem Holds.placed_lastOr (h : l.Holds (xs ++ ys)) :
    ∀ p ∈ lastOr none xs, 0 < p ∧ p < wordLimit := by
  intro p hp
  obtain ⟨x, hx, rfl⟩ := lastOr_mem hp
  exact h.placed x (List.mem_append_left _ hx)

theorem Holds.placed_firstOr (h : l.Holds (xs ++ ys)) :
    ∀ n ∈ firstOr ys none, 0 < n ∧ n < wordLimit := by
  intro n hn
  obtain ⟨y, hy, rfl⟩ := firstOr_mem hn
  exact h.placed y (List.mem_append_right _ hy)

/-- The header of a listed block lies beside those of the others. -/
theorem Holds.headersApart {c : FreeBlock} (h : l.Holds (xs ++ b :: ys)) (hc : c ∈ xs ++ ys) :
    HeadersApart b.start c.start := by
  obtain ⟨-, hby, hxby⟩ := List.pairwise_append.1 h.apart
  rcases List.mem_append.1 hc with hc | hc
  · exact Or.inr (hxby c hc b List.mem_cons_self)
  · exact Or.inl ((List.pairwise_cons.1 hby).1 c hc)

/-- The link that leads past `prev`; the head stands in for it where there is no `prev`. -/
def follower (l : FreeList) : Option Nat → Option Nat
  | some p => l.mem.next p
  | none => l.head

theorem Holds.follower_eq (h : l.Holds (xs ++ ys)) :
    l.follower (lastOr none xs) = firstOr ys none := by
  rcases List.eq_nil_or_concat xs with rfl | ⟨xs, x, rfl⟩
  · exact h.head_eq
  · rw [List.concat_eq_append] at *
    rw [lastOr_append_singleton]
    exact (linked_cons.1 (linked_append.1 h.leadsTo.linked).2).2.1

/-- Moving the seam between two halves writes headers of the two halves only. -/
theorem edit_seam (l : FreeList) (xs ys : List FreeBlock) (prev' target : Option Nat) :
    Edit l ((l.pointBack (firstOr ys none) prev').redirect (lastOr none xs) target)
      ((xs ++ ys).map FreeBlock.start) := by
  refine ((edit_pointBack ..).mono fun a ha => ?_).trans ((edit_redirect ..).mono fun a ha => ?_)
  · obtain ⟨y, hy, rfl⟩ := firstOr_mem (Option.mem_toList.1 ha)
    exact List.mem_map_of_mem (List.mem_append_right _ hy)
  · obtain ⟨x, hx, rfl⟩ := lastOr_mem (Option.mem_toList.1 ha)
    exact List.mem_map_of_mem (List.mem_append_left _ hx)

/-- Two halves whose seam is moved: the one in front leads to `target`, the one behind starts
after `prev'`. -/
theorem LeadsTo.relink {prev prev' next target : Option Nat} (h : l.LeadsTo xs next)
    (hys : Linked l.mem prev ys none)
    (hap : (xs ++ ys).Pairwise fun b c => b.start + headerSize ≤ c.start)
    (hp : ∀ n ∈ prev', 0 < n ∧ n < wordLimit) (ht : ∀ n ∈ target, 0 < n ∧ n < wordLimit) :
    let l' := (l.pointBack (firstOr ys none) prev').redirect (lastOr none xs) target
    l'.LeadsTo xs target ∧ Linked l'.mem prev' ys none := by
  obtain ⟨hapx, hapy, hapxy⟩ := List.pairwise_append.1 hap
  refine ⟨(h.frame (head_pointBack ..) (edit_pointBack ..) ?_).redirect hapx ht, ?_⟩
  · intro x hx a ha
    obtain ⟨y, hy, rfl⟩ := firstOr_mem (Option.mem_toList.1 ha)
    exact Or.inl (hapxy x hx y hy)
  · refine (linked_pointBack hys hapy hp).frame (edit_redirect ..).sameBut fun y hy a ha => ?_
    obtain ⟨x, hx, rfl⟩ := lastOr_mem (Option.mem_toList.1 ha)
    exact Or.inr (hapxy x hx y hy)

/-! ### Linking in -/

theorem insertAfter_eq {prev next : Option Nat} {block : Nat} (hlink : l.follower prev = next)
    (hnext : ∀ n ∈ next, block < n) (hprev : ∀ p ∈ prev, p < block) :
    l.insertAfter prev block =
      .ok ((((l.setPrev block prev).setNext block next).pointBack next (some block)).redirect prev
        (some block)) := by
  cases prev with
  | none =>
    rw [follower] at hlink
    cases next with
    | none => simp only [insertAfter, hlink, pointBack, redirect, pure_bind, setNext, setPrev]; rfl
    | some n =>
      simp only [insertAfter, hlink, ensure_pos (hnext n rfl), ok_bind, pure_bind]
      rfl
  | some p =>
    rw [follower] at hlink
    cases next with
    | none => simp only [insertAfter, hlink, ensure_pos (hprev p rfl), ok_bind, pure_bind]; rfl
    | some n =>
      simp only [insertAfter, hlink, ensure_pos (hnext n rfl), ensure_pos (hprev p rfl), ok_bind,
        pure_bind]
      rfl

/-- Linking a block in puts it between the blocks before and behind its place. -/
theorem Holds.insertAfter (h : l.Holds (xs ++ ys)) (hsize : l.mem.size b.start = b.size)
    (hb : 0 < b.start ∧ b.start < wordLimit) (hxs : ∀ x ∈ xs, x.start + headerSize ≤ b.start)
    (hys : ∀ y ∈ ys, b.start + headerSize ≤ y.start) :
    ∃ l', l.insertAfter (lastOr none xs) b.start = .ok l' ∧ l'.Holds (xs ++ b :: ys) ∧
      Edit l l' ((xs ++ b :: ys).map FreeBlock.start) := by
  have hhead : 0 < headerSize := by decide
  have hlt : ∀ p ∈ lastOr none xs, p < b.start := by
    intro p hp
    obtain ⟨x, hx, rfl⟩ := lastOr_mem hp
    have := hxs x hx
    omega
  have hgt : ∀ n ∈ firstOr ys none, b.start < n := by
    intro n hn
    obtain ⟨y, hy, rfl⟩ := firstOr_mem hn
    have := hys y hy
    omega
  have hb' : ∀ n ∈ some b.start, 0 < n ∧ n < wordLimit := by
    intro n hn
    rwa [← Option.some.inj hn]
  refine ⟨_, insertAfter_eq h.follower_eq hgt hlt, ?_, ?_⟩
  · -- The links of `b` itself are written first; they disturb neither half.
    set l₁ := (l.setPrev b.start (lastOr none xs)).setNext b.start (firstOr ys none)
    have he₁ : Edit l l₁ [b.start] := (edit_setPrev ..).trans (edit_setNext ..)
    have hx₁ : l₁.LeadsTo xs (firstOr ys none) := by
      refine h.leadsTo.frame (show l₁.head = l.head from rfl) he₁ fun x hx a ha => ?_
      rw [List.mem_singleton.1 ha]
      exact Or.inl (hxs x hx)
    have hy₁ : Linked l₁.mem (lastOr none xs) ys none := by
      refine h.linked_right.frame he₁.sameBut fun y hy a ha => ?_
      rw [List.mem_singleton.1 ha]
      exact Or.inr (hys y hy)
    obtain ⟨hx₂, hy₂⟩ := hx₁.relink hy₁ h.apart hb' hb'
    have he₂ := (edit_seam l₁ xs ys (some b.start) (some b.start)).sameBut
    have hself : ∀ a ∈ (xs ++ ys).map FreeBlock.start, HeadersApart b.start a := by
      intro a ha
      obtain ⟨c, hc, rfl⟩ := List.mem_map.1 ha
      rcases List.mem_append.1 hc with hc | hc
      · exact Or.inr (hxs c hc)
      · exact Or.inl (hys c hc)
    refine LeadsTo.holds hx₂ (linked_cons.2 ⟨?_, ?_, ?_, hy₂⟩) ?_ ?_
    · rw [he₂.prev_eq hself]
      exact (prev_setNext ..).trans (prev_setPrev _ _ h.placed_lastOr)
    · rw [he₂.next_eq hself]
      exact next_setNext _ _ h.placed_firstOr
    · rw [he₂.size_eq hself]
      exact (size_setNext ..).trans ((size_setPrev ..).trans hsize)
    · exact pairwise_insert h.apart hxs hys
    · intro c hc
      rcases mem_middle.1 hc with rfl | hc
      · exact hb
      · exact h.placed c hc
  · refine (((edit_setPrev ..).trans (edit_setNext ..)).mono ?_).trans ((edit_seam ..).mono ?_)
    · intro a ha
      simp [List.mem_singleton.1 ha]
    · exact List.map_subset _ (sublist_middle xs ys b).subset

/-! ### Finding the place of a block -/

/-- The search for a place passes the blocks below an address and stops at the first one above. -/
theorem predecessorFrom_eq {m : Memory} {a : Nat} {prev : Option Nat} {c : FreeBlock}
    {cs : List FreeBlock} (h : Linked m prev (c :: cs) none)
    (hrising : (c :: cs).Pairwise fun b c => b.start < c.start) (hsplit : c :: cs = xs ++ ys)
    (hxs : ∀ x ∈ xs, x.start < a) (hys : ∀ y ∈ ys, a < y.start) :
    predecessorFrom m a prev c.start = .ok (lastOr prev xs) := by
  induction xs generalizing prev c cs with
  | nil =>
    have hc := hys c (by rw [← List.nil_append ys, ← hsplit]; exact List.mem_cons_self)
    rw [predecessorFrom, ensure_pos (by omega), ok_bind, if_pos hc]
    rfl
  | cons x xs ih =>
    obtain ⟨rfl, hcs⟩ := List.cons.inj hsplit
    have hc := hxs c List.mem_cons_self
    obtain ⟨-, hnext, -, hrest⟩ := linked_cons.1 h
    obtain ⟨hlt, hrising⟩ := List.pairwise_cons.1 hrising
    rw [predecessorFrom, ensure_pos (by omega), ok_bind, if_neg (by omega)]
    cases cs with
    | nil =>
      rw [following_of_next_eq_none hnext, (List.append_eq_nil_iff.1 hcs.symm).1]
      rfl
    | cons d ds =>
      rw [following_of_next_eq_some hnext (hlt d List.mem_cons_self)]
      exact ih hrest hrising hcs fun x hx => hxs x (List.mem_cons_of_mem _ hx)

theorem Holds.predecessor_eq {a : Nat} (h : l.Holds (xs ++ ys)) (hxs : ∀ x ∈ xs, x.start < a)
    (hys : ∀ y ∈ ys, a < y.start) : l.predecessor a = .ok (lastOr none xs) := by
  have hhead := h.head_eq
  cases hcs : xs ++ ys with
  | nil =>
    rw [hcs] at hhead
    rw [predecessor, hhead, (List.append_eq_nil_iff.1 hcs).1]
    rfl
  | cons c cs =>
    have hlinked := h.linked
    have hrising := h.rising
    rw [hcs] at hhead hlinked hrising
    rw [predecessor, hhead]
    exact predecessorFrom_eq hlinked hrising hcs.symm hxs hys

/-- Linking a block in at its address puts it between the blocks below and above it. -/
theorem Holds.insertOrdered (h : l.Holds (xs ++ ys)) (hsize : l.mem.size b.start = b.size)
    (hb : 0 < b.start ∧ b.start < wordLimit) (hxs : ∀ x ∈ xs, x.start + headerSize ≤ b.start)
    (hys : ∀ y ∈ ys, b.start + headerSize ≤ y.start) :
    ∃ l', l.insertOrdered b.start = .ok l' ∧ l'.Holds (xs ++ b :: ys) ∧
      Edit l l' ((xs ++ b :: ys).map FreeBlock.start) := by
  have hhead : 0 < headerSize := by decide
  have hprev := h.predecessor_eq (a := b.start) (fun x hx => by have := hxs x hx; omega)
    fun y hy => by have := hys y hy; omega
  obtain ⟨l', hl', hholds, he⟩ := h.insertAfter hsize hb hxs hys
  exact ⟨l', by rw [FreeList.insertOrdered, hprev, ok_bind, hl'], hholds, he⟩

/-! ### Writing headers without moving links -/

/-- A list holds its blocks while headers beside theirs are written. -/
theorem Holds.frame {bs : List FreeBlock} (h : l.Holds bs) (hhead : l'.head = l.head)
    (he : Edit l l' as) (hbs : ∀ b ∈ bs, ∀ a ∈ as, HeadersApart b.start a) : l'.Holds bs :=
  ⟨hhead.trans h.head_eq, h.linked.frame he.sameBut hbs, h.apart, h.placed⟩

/-- Setting the size of a listed block. -/
theorem Holds.setSize (h : l.Holds (xs ++ b :: ys)) {n : Nat} (hn : n < wordLimit) :
    (l.setSize b.start n).Holds (xs ++ ⟨b.start, n⟩ :: ys) := by
  obtain ⟨-, hapb, hapxb⟩ := List.pairwise_append.1 h.apart
  obtain ⟨hapb, -⟩ := List.pairwise_cons.1 hapb
  obtain ⟨hprev, hnext, -, hys⟩ := linked_cons.1 h.linked_right
  have he := edit_setSize l b.start n
  have hx := h.leadsTo.frame (show (l.setSize b.start n).head = l.head from rfl) he
    fun x hx a ha => by
      rw [List.mem_singleton.1 ha]
      exact Or.inl (hapxb x hx b List.mem_cons_self)
  refine LeadsTo.holds hx (linked_cons.2 ⟨?_, ?_, size_setSize _ _ hn, ?_⟩) ?_ ?_
  · exact (prev_setSize ..).trans hprev
  · exact (next_setSize ..).trans hnext
  · refine hys.frame he.sameBut fun y hy a ha => ?_
    rw [List.mem_singleton.1 ha]
    exact Or.inr (hapb y hy)
  · exact pairwise_insert (h.apart.sublist (sublist_middle xs ys b))
      (fun x hx => hapxb x hx b List.mem_cons_self) hapb
  · intro c hc
    rcases mem_middle.1 hc with rfl | hc
    · exact h.placed b (mem_middle.2 (Or.inl rfl))
    · exact h.placed c (mem_middle.2 (Or.inr hc))

/-! ### Taking out -/

theorem remove_eq {block : Nat} {prev next : Option Nat} (hprev : l.mem.prev block = prev)
    (hnext : l.mem.next block = next) (hhead : prev = none → l.head = some block) :
    l.remove block = .ok ((l.pointBack next prev).redirect prev next) := by
  rw [remove, hprev, hnext]
  cases prev with
  | none =>
    have hhead' := hhead rfl
    cases next with
    | none => simp only [bypass, ensure_pos hhead', ok_bind]; rfl
    | some n =>
      have : (l.setPrev n none).head = some block := hhead'
      simp only [bypass, ensure_pos this, ok_bind]
      rfl
  | some p => cases next <;> rfl

/-- Taking a block out leaves the blocks before and behind it linked to each other. -/
theorem Holds.remove (h : l.Holds (xs ++ b :: ys)) :
    ∃ l', l.remove b.start = .ok l' ∧ l'.Holds (xs ++ ys) ∧
      Edit l l' ((xs ++ ys).map FreeBlock.start) := by
  have hsub := sublist_middle xs ys b
  obtain ⟨hprev, hnext, -, hys⟩ := linked_cons.1 h.linked_right
  have hap := h.apart.sublist hsub
  have hplaced := fun c hc => h.placed c (hsub.subset hc)
  have hhead : lastOr none xs = none → l.head = some b.start := by
    intro hlast
    have := h.follower_eq
    rwa [hlast] at this
  have hfirst : ∀ n ∈ firstOr ys none, 0 < n ∧ n < wordLimit := by
    intro n hn
    obtain ⟨y, hy, rfl⟩ := firstOr_mem hn
    exact hplaced y (List.mem_append_right _ hy)
  obtain ⟨hx', hy'⟩ := h.leadsTo.relink hys hap h.placed_lastOr hfirst
  exact ⟨_, remove_eq hprev hnext hhead, hx'.holds hy' hap hplaced, edit_seam ..⟩

end FreeList

end PoolAlloc
