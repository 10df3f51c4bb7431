import PoolAlloc.Proofs.LockDiscipline
import PoolAlloc.Proofs.ResizeOutcome
/-!
# PoolAlloc.Proofs.EarlyRefusal

Which calls are refused before the lock is taken, and which could be.

A demand is hopeless if no heap can ever meet it. That depends on its arguments alone, and it is
settled by arithmetic (`Demand.OutOfReach`): the demand makes no sense, or the address space is too
small for what it asks for. Whatever lies within reach is met by a heap with one pool, made to
measure (`Demand.exists_met`).

The operations of a heap test less than that before they take the lock
(`Attempt.RefusedUnseen`), and those that resize a granted block test nothing at all: whether a
block can be resized to no bytes is found out under the lock. So a hopeless attempt is refused
without the lock exactly where an early test covers it.

Main statement: `early_refusal`.
-/

namespace PoolAlloc

open Memory FreeList Heap

/-! ### Demands -/

/-- What an operation wants of the free list. -/
inductive Demand
  /-- A new block of `size` bytes at a multiple of `align`. -/
  | block (align size : Nat)
  /-- Room for `size` bytes in a granted block, which moves to a multiple of `align` if it must. -/
  | room (align size : Nat)

/-- The lowest address at which a payload can begin. -/
def lowestPayload : Nat := payload granularity

namespace Demand

/-- The request that a demand comes to, where `ptr` is the granted block if it is about one. -/
def request (ptr : Nat) : Demand → Request
  | block align size => .allocate align size
  | room align size => .resize ptr align size

/-- The demand makes no sense, or there is no room for it between the lowest payload and the end of
the address space. -/
def OutOfReach : Demand → Prop
  | block align size =>
    size = 0 ∨ ¬ IsAlignment align ∨
      wordLimit ≤ max align lowestPayload + roundUp size granularity
  | room _ size => size = 0 ∨ wordLimit ≤ lowestPayload + roundUp size granularity

theorem request_reply (d : Demand) (ptr : Nat) (answer : Option Nat) :
    (d.request ptr).reply answer = .address answer := by
  cases d <;> rfl

end Demand

variable {floor align size p q n : Nat} {bs bs' : List FreeBlock} {b : FreeBlock}

/-! ### What no heap can meet -/

theorem FreeBlock.Valid.lowestPayload_le (h : b.Valid) : lowestPayload ≤ b.payload :=
  Nat.add_le_add_right (Nat.le_of_dvd h.start_pos h.dvd_start) headerSize

/-- A placement lies between the lowest payload and the end of the address space. -/
theorem Placement.bounds (h : Placement floor align size b q) (hb : b.Valid) :
    max align lowestPayload ≤ q ∧ q + roundUp size granularity < wordLimit := by
  have hlow : lowestPayload ≤ q := Nat.le_trans hb.lowestPayload_le h.payload_le
  have hpos : 0 < q := Nat.lt_of_lt_of_le (by decide) hlow
  have halign : align ≤ q := Nat.le_trans (Nat.le_max_left ..) (Nat.le_of_dvd hpos h.aligned)
  exact ⟨Nat.max_le.2 ⟨halign, hlow⟩, Nat.lt_of_le_of_lt h.stop_le hb.stop_lt⟩

/-- A block that is granted lies there as well. -/
theorem place?_bounds {g : FreeBlock} (hvalid : ∀ b ∈ bs, b.Valid) (hspaced : Spaced bs)
    (h : place? floor align size bs = some (g, bs')) :
    max align lowestPayload + roundUp size granularity < wordLimit := by
  obtain ⟨⟨b, hb, hq⟩, -⟩ := isLeast_of_place? hvalid hspaced h
  obtain ⟨hlow, hhigh⟩ := hq.bounds (hvalid b hb)
  omega

namespace Session

variable {s s' : Session} {answer : Option Nat} {d : Demand}

/-- A demand that is out of reach is refused. -/
theorem Effect.refused_of_outOfReach (he : Effect s bs (d.request p) answer s' bs') (h : s.Sound bs)
    (hr : (d.request p).Allowed s) (hd : d.OutOfReach) : answer = none := by
  cases d with
  | block align size =>
    cases he with
    | granted hplace =>
      obtain ⟨hsize, halign, -, -⟩ := place?_eq_some hplace
      have hlt := place?_bounds h.tidy.valid h.tidy.spaced hplace
      rcases hd with hzero | hbad | hfar
      · exact absurd hzero hsize
      · exact absurd halign hbad
      · exact absurd hlt (Nat.not_lt_of_le hfar)
    | refused => rfl
  | room align size =>
    by_cases hsize : size = 0
    · exact he.answer_of_refused (Or.inl hsize)
    have hfar := hd.resolve_left hsize
    rcases Nat.lt_or_ge (s.list.usableSize p) (roundUp size granularity) with hlt | hle
    · rw [he.answer_of_growing hsize hlt]
      cases hplace : place? s.list.floor align size bs with
      | none => rfl
      | some found =>
        have := place?_bounds h.tidy.valid h.tidy.spaced hplace
        omega
    · -- No granted block is that large.
      have hlow := (h.valid p hr).lowestPayload_le
      have hstop := h.payload_stop_lt hr
      rw [block_payload (h.valid p hr)] at hlow
      omega

end Session

/-! ### What some heap can meet -/

theorem dvd_max_lowestPayload (halign : IsAlignment align) :
    max align granularity ∣ max align lowestPayload := by
  rcases Nat.le_total align lowestPayload with hle | hge
  · obtain ⟨k, hk⟩ := isAlignment_max halign
    have hsmall : 2 ^ k ≤ 2 ^ 5 := hk ▸ Nat.max_le.2 ⟨hle, by decide⟩
    rw [hk, Nat.max_eq_right hle]
    exact Nat.pow_dvd_pow 2 ((Nat.pow_le_pow_iff_right (by decide)).1 hsmall)
  · have hraised : max align granularity = align := Nat.max_eq_left (Nat.le_trans (by decide) hge)
    have hsame := hraised.trans (Nat.max_eq_left hge).symm
    exact hsame ▸ Nat.dvd_refl _

/-- The region that a valid block fills is turned into that block. -/
theorem FreeBlock.Valid.pool?_eq (h : b.Valid) : Region.pool? ⟨b.start, b.span⟩ = some b := by
  have hstart : roundUp b.start granularity = b.start := roundUp_of_dvd (by decide) h.dvd_start
  have hup : roundUp? b.start granularity = some b.start := by
    rw [roundUp?_granularity, hstart, if_pos h.start_lt]
  have hdown : roundDown b.size granularity = b.size := Nat.div_mul_cancel h.dvd_size
  have hsize : regionSize? b.start b.span = some b.size := by
    simp only [regionSize?, hup, FreeBlock.span, Option.bind_eq_bind, Option.bind_some,
      Nat.sub_self, subChecked, Nat.zero_le, if_true, Nat.sub_zero, Nat.le_add_right,
      Nat.add_sub_cancel_left, hdown, if_neg (Nat.ne_of_gt h.size_pos)]
  rw [Region.pool?, hsize, Option.map_some, hstart]

namespace HeapSession

/-- There is a heap whose only free block is a given one. -/
theorem exists_onePool (minSplit : Nat) (hb : b.Valid) :
    ∃ u : HeapSession, u.Reachable ∧ u.run.object.minSplit = minSplit ∧ u.Sound [b] := by
  let empty := start minSplit {} .none
  let call : Call := .heap (.addBlock b.start b.span)
  have hempty : empty.Sound [] := sound_start minSplit {} (by decide)
  have hallowed : call.Allowed empty.session :=
    ⟨Nat.ne_of_gt hb.start_pos, hb.stop_lt, List.forall_mem_nil _⟩
  obtain ⟨answer, s', bs', run, hact, hc⟩ :=
    hempty.carry (r := .addRegion ⟨b.start, b.span⟩) hallowed false .plain
  have hreach : (empty.after call.plan run).Reachable :=
    (Reachable.start minSplit {} (by decide)).call hallowed (call.act_eq ▸ hact)
  refine ⟨_, hreach, ?_, ?_⟩
  · exact (congrArg FreeList.minSplit (hc.list_eq rfl)).trans hc.effect.minSplit_eq
  · have hsound := hc.sound
    cases hc.effect with
    | @added _ c _ _ hpool hg =>
      obtain rfl := Option.some.inj (hpool.symm.trans hb.pool?_eq)
      have hbs : bs' = [c] := hsound.list.tidy.spaced.eq_of_covered (List.pairwise_singleton ..)
        fun x => by rw [hg.covered x, covered_cons]
      exact hbs ▸ hsound
    | ignored hpool => cases hpool.symm.trans hb.pool?_eq

end HeapSession

namespace Demand

/-- A block within reach is granted by some heap. -/
theorem exists_met_block (minSplit : Nat) (hd : ¬ (block align size).OutOfReach) :
    ∃ (u : HeapSession) (bs : List FreeBlock), u.Reachable ∧ u.run.object.minSplit = minSplit ∧
      u.Sound bs ∧ place? u.session.list.floor align size bs ≠ none := by
  obtain ⟨hsize, halign, hfits⟩ : size ≠ 0 ∧ IsAlignment align ∧
      max align lowestPayload + roundUp size granularity < wordLimit := by
    simpa [OutOfReach] using hd
  have hlow : lowestPayload ≤ max align lowestPayload := Nat.le_max_right ..
  have hdvd := dvd_max_lowestPayload halign
  -- The pool begins one header before the least multiple of the alignment.
  let b : FreeBlock := ⟨headerOf (max align lowestPayload), roundUp size granularity⟩
  have hpayload : b.payload = max align lowestPayload :=
    payload_headerOf (Nat.le_trans (by decide) hlow)
  have hb : b.Valid := by
    refine ⟨?_, ?_, ?_, dvd_roundUp .., ?_⟩
    · exact Nat.sub_pos_of_lt (Nat.lt_of_lt_of_le (by decide) hlow)
    · exact Nat.dvd_sub (Nat.dvd_trans (granularity_dvd_max halign) hdvd) (by decide)
    · exact Nat.lt_of_lt_of_le (Nat.pos_of_ne_zero hsize) (le_roundUp_granularity size)
    · rwa [← b.payload_add_size, hpayload]
  obtain ⟨u, hreach, hmin, hsound⟩ := HeapSession.exists_onePool minSplit hb
  refine ⟨u, [b], hreach, hmin, hsound, fun hnone => ?_⟩
  have hplaced : Placement u.session.list.floor align size b b.payload :=
    ⟨hpayload ▸ hdvd, Or.inl rfl, Nat.le_refl _⟩
  rcases (place?_eq_none_iff hsound.list.tidy.valid hsound.list.tidy.spaced).1 hnone with
    hzero | hbad | hempty
  · exact hsize hzero
  · exact hbad halign
  · exact hempty.le ⟨b, List.mem_singleton_self b, hplaced⟩

/-- Some heap has a granted block with room for a size within reach. -/
theorem exists_granted (minSplit : Nat) (hn : n ≠ 0)
    (hfits : lowestPayload + roundUp n granularity < wordLimit) :
    ∃ (u : HeapSession) (bs : List FreeBlock) (ptr : Nat), u.Reachable ∧
      u.run.object.minSplit = minSplit ∧ u.Sound bs ∧ ptr ∈ u.live ∧
      roundUp n granularity ≤ u.session.list.usableSize ptr := by
  have hwithin : ¬ (block granularity n).OutOfReach := by
    rintro (hzero | hbad | hfar)
    · exact hn hzero
    · exact hbad isAlignment_granularity
    · exact Nat.not_le_of_lt hfits hfar
  obtain ⟨u, bs, hreach, hmin, hsound, hplace⟩ := exists_met_block minSplit hwithin
  let call : Call := .heap (.malloc n)
  have hplan : call.plan = .inside (.request (.allocate granularity n)) false .plain :=
    if_neg (not_or.2 ⟨hn, not_not.2 isAlignment_granularity⟩)
  obtain ⟨answer, s', bs', run, hact, hc⟩ :=
    hsound.carry (r := .allocate granularity n) trivial false .plain
  rw [← hplan] at hact hc
  have hallowed : call.Allowed u.session := by
    rw [Call.Allowed, hplan]
    exact trivial
  have hnext : (u.after call.plan run).Reachable := hreach.call hallowed (call.act_eq ▸ hact)
  have hlist := hc.list_eq rfl
  have he := hc.effect
  have hmin' := he.minSplit_eq
  cases he with
  | @granted _ _ g l' _ hplace' ht =>
    refine ⟨_, bs', g.payload, hnext, ?_, hc.sound, ?_, ?_⟩
    · exact ((congrArg FreeList.minSplit hlist).trans hmin').trans hmin
    · exact hc.live_eq ▸ Finset.mem_insert_self ..
    · obtain ⟨-, hlarge, -⟩ := place?_spec hsound.list.tidy.valid hsound.list.tidy.spaced
        (floor_le _) hplace'
      have hsize : l'.usableSize g.payload = g.size :=
        congrArg FreeBlock.size (block_eq_of_size ht.size_eq)
      rw [hlist]
      exact hsize.symm ▸ hlarge
  | refused hplace' => exact absurd hplace' hplace

/-- A demand within reach is met by some heap. -/
theorem exists_met (minSplit : Nat) {d : Demand} (hd : ¬ d.OutOfReach) :
    ∃ (u : HeapSession) (bs : List FreeBlock) (ptr : Nat), u.Reachable ∧
      u.run.object.minSplit = minSplit ∧ u.Sound bs ∧ (d.request ptr).Allowed u.session ∧
      ∀ answer s' bs', Session.Effect u.session bs (d.request ptr) answer s' bs' →
        answer ≠ none := by
  cases d with
  | block align size =>
    obtain ⟨u, bs, hreach, hmin, hsound, hplace⟩ := exists_met_block minSplit hd
    refine ⟨u, bs, 0, hreach, hmin, hsound, trivial, fun answer s' bs' he => ?_⟩
    cases he with
    | granted => exact Option.some_ne_none _
    | refused hnone => exact absurd hnone hplace
  | room align size =>
    obtain ⟨hsize, hfits⟩ := not_or.1 hd
    obtain ⟨u, bs, ptr, hreach, hmin, hsound, hlive, hroom⟩ :=
      exists_granted minSplit hsize (Nat.lt_of_not_le hfits)
    refine ⟨u, bs, ptr, hreach, hmin, hsound, hlive, fun answer s' bs' he => ?_⟩
    obtain ⟨rfl, -⟩ := he.cutInPlace hsound.list hlive hsize hroom
    exact Option.some_ne_none _

end Demand

/-! ### Attempts -/

/-- The operations of a shared heap that may fail, with the sizes, counts and alignments they are
called with. -/
inductive Attempt
  | malloc (size : Nat)
  | alignedMalloc (align size : Nat)
  | memalign (align size : Nat)
  | tryAlignedMalloc (align size : Nat)
  | posixMemalign (align size : Nat)
  | calloc (count size : Nat)
  /-- A resize where there is no block. -/
  | reallocNone (size : Nat)
  /-- A resize to at least one byte; with no bytes this operation takes the block back. -/
  | realloc (size : Nat) (hpos : size ≠ 0)
  | alignedRealloc (align size : Nat)
  | layoutAlloc (layout : Layout)
  | layoutAllocZeroed (layout : Layout)
  | layoutRealloc (layout : Layout) (newSize : Nat)

namespace Attempt

/-- The call, where `ptr` is the granted block if it is about one. -/
def call (ptr : Nat) : Attempt → Call
  | malloc size => .heap (.malloc size)
  | alignedMalloc align size => .heap (.alignedMalloc align size)
  | memalign align size => .heap (.memalign align size)
  | tryAlignedMalloc align size => .heap (.tryAlignedMalloc align size)
  | posixMemalign align size => .heap (.posixMemalign align size)
  | calloc count size => .heap (.calloc count size)
  | reallocNone size => .heap (.realloc none size)
  | realloc size _ => .heap (.realloc (some ptr) size)
  | alignedRealloc align size => .heap (.alignedRealloc ptr align size)
  | layoutAlloc layout => .layout (.alloc layout)
  | layoutAllocZeroed layout => .layout (.allocZeroed layout)
  | layoutRealloc layout newSize => .layout (.realloc ptr layout newSize)

/-- What is wanted, over all naturals. -/
def demand : Attempt → Demand
  | malloc size | reallocNone size => .block granularity size
  | alignedMalloc align size | memalign align size | tryAlignedMalloc align size
  | posixMemalign align size => .block align size
  | calloc count size => .block granularity (count * size)
  | realloc size _ => .room granularity size
  | alignedRealloc align size => .room align size
  | layoutAlloc layout | layoutAllocZeroed layout => .block layout.align layout.size
  | layoutRealloc layout newSize => .room layout.align newSize

/-- The tests that come before the lock. -/
def RefusedUnseen : Attempt → Prop
  | malloc size | reallocNone size => size = 0
  | alignedMalloc align size | memalign align size | tryAlignedMalloc align size
  | posixMemalign align size => size = 0 ∨ ¬ IsAlignment align
  | calloc count size => count * size = 0 ∨ wordLimit ≤ count * size
  | layoutAlloc layout | layoutAllocZeroed layout => layout.size = 0
  | realloc .. | alignedRealloc .. | layoutRealloc .. => False

/-- The attempt fails in every heap, for every granted block that it may be about. -/
def Hopeless (minSplit : Nat) (a : Attempt) : Prop :=
  ∀ (u : HeapSession) (ptr : Nat) (reply : Reply) (run : Run Heap), u.Reachable →
    u.run.object.minSplit = minSplit → (a.call ptr).Allowed u.session →
    (a.call ptr).act u.run = .ok reply run → reply.Failed

end Attempt

/-- The call fails in any heap and leaves no trace. -/
def Call.FailsUnseen (call : Call) : Prop :=
  ∃ reply : Reply, reply.Failed ∧ ∀ run, call.act run = .ok reply run

/-- The call takes the lock and lets it go, once and whatever becomes of it. -/
def Call.SeenIn (call : Call) (run : Run Heap) : Prop :=
  ∃ (seen left : FreeList) (records : List String) (run' : Run Heap),
    ((∃ reply, call.act run = .ok reply run') ∨ ∃ why, call.act run = .error why run') ∧
      run'.trace = run.trace ++ [.lock seen, .unlock left] ++ records.map .log

/-- The words of an interface that tell a grant from a refusal. -/
def Wording.Tells : Wording → Prop
  | plain | outcome | status => True
  | silent | absent => False

theorem Wording.Tells.failed_iff {w : Wording} (h : w.Tells) (answer : Option Nat) :
    (w.reply (.address answer)).Failed ↔ answer = none := by
  cases w with
  | plain => exact Iff.rfl
  | outcome => cases answer <;> simp [Wording.reply, Reply.Failed, Except.toOption]
  | status =>
    cases answer with
    | none => exact iff_of_true (AllocError.errno_ne_zero _) rfl
    | some ptr => simp [Wording.reply, Reply.Failed]
  | silent | absent => exact h.elim

/-- A plan is refused at once for a reason `P`, or it makes a request under the lock and tells
whether that was refused. -/
def Plan.Settles (plan : Plan) (P : Prop) (r : Request) : Prop :=
  (P ∧ ∃ reply : Reply, reply.Failed ∧ plan = .aside none reply) ∨
    (¬ P ∧ ∃ zeroed w, w.Tells ∧ plan = .inside (.request r) zeroed w)

/-- A grant is refused at once if it makes no sense. -/
theorem Plan.grant_settles {zeroed : Bool} {w : Wording} {refusal : Reply} {P : Prop}
    (hP : P ↔ size = 0 ∨ ¬ IsAlignment align) (hrefusal : refusal.Failed) (hw : w.Tells) :
    (Plan.grant align size zeroed w refusal).Settles P (.allocate align size) := by
  rw [grant]
  split
  · rename_i hsenseless
    exact Or.inl ⟨hP.2 hsenseless, refusal, hrefusal, rfl⟩
  · rename_i hsense
    exact Or.inr ⟨fun h => hsense (hP.1 h), zeroed, w, hw, rfl⟩

namespace Attempt

/-- What an attempt comes to. -/
theorem plan_settles (a : Attempt) (ptr : Nat) :
    (a.call ptr).plan.Settles a.RefusedUnseen (a.demand.request ptr) := by
  have hplain : ∀ size, size = 0 ↔ size = 0 ∨ ¬ IsAlignment granularity :=
    fun size => (or_iff_left (not_not.2 isAlignment_granularity)).symm
  have hlayout : ∀ layout : Layout,
      layout.size = 0 ↔ layout.size = 0 ∨ ¬ IsAlignment layout.align :=
    fun layout => (or_iff_left (not_not.2 layout.isAlignment)).symm
  cases a with
  | malloc size | reallocNone size => exact Plan.grant_settles (hplain size) rfl trivial
  | alignedMalloc | memalign | tryAlignedMalloc => exact Plan.grant_settles Iff.rfl rfl trivial
  | posixMemalign =>
    exact Plan.grant_settles Iff.rfl (AllocError.errno_ne_zero .invalidArgument) trivial
  | calloc count size =>
    show (Plan.calloc granularity count size).Settles (count * size = 0 ∨ wordLimit ≤ count * size)
      (.allocate granularity (count * size))
    rw [Plan.calloc, mulChecked]
    by_cases hword : count * size < wordLimit
    · rw [if_pos hword]
      have hzero := (or_iff_left (Nat.not_le_of_lt hword)).trans (hplain (count * size))
      exact Plan.grant_settles hzero rfl trivial
    · rw [if_neg hword]
      exact Or.inl ⟨Or.inr (Nat.le_of_not_lt hword), .address none, rfl, rfl⟩
  | layoutAlloc layout | layoutAllocZeroed layout =>
    exact Plan.grant_settles (hlayout layout) rfl trivial
  | realloc size hpos => exact Or.inr ⟨id, false, .plain, trivial, if_neg hpos⟩
  | alignedRealloc | layoutRealloc => exact Or.inr ⟨id, false, .plain, trivial, rfl⟩

/-- Whatever is refused before the lock is taken is out of reach. -/
theorem RefusedUnseen.outOfReach {a : Attempt} (h : a.RefusedUnseen) : a.demand.OutOfReach := by
  cases a with
  | malloc | reallocNone | layoutAlloc | layoutAllocZeroed => exact Or.inl h
  | alignedMalloc | memalign | tryAlignedMalloc | posixMemalign => exact h.imp_right Or.inl
  | calloc count size =>
    refine h.imp_right fun hover => Or.inr ?_
    exact Nat.le_trans (Nat.le_trans hover (le_roundUp_granularity _)) (Nat.le_add_left ..)
  | realloc | alignedRealloc | layoutRealloc => exact h.elim

theorem plan_of_unseen {a : Attempt} (h : a.RefusedUnseen) (ptr : Nat) :
    ∃ reply : Reply, reply.Failed ∧ (a.call ptr).plan = .aside none reply := by
  rcases a.plan_settles ptr with ⟨-, hplan⟩ | ⟨hseen, -⟩
  · exact hplan
  · exact absurd h hseen

theorem plan_of_seen {a : Attempt} (h : ¬ a.RefusedUnseen) (ptr : Nat) :
    ∃ zeroed w, w.Tells ∧
      (a.call ptr).plan = .inside (.request (a.demand.request ptr)) zeroed w := by
  rcases a.plan_settles ptr with ⟨hunseen, -⟩ | ⟨-, hplan⟩
  · exact absurd hunseen h
  · exact hplan

theorem RefusedUnseen.failsUnseen {a : Attempt} (h : a.RefusedUnseen) (ptr : Nat) :
    (a.call ptr).FailsUnseen := by
  obtain ⟨reply, hfailed, hplan⟩ := plan_of_unseen h ptr
  refine ⟨reply, hfailed, fun run => ?_⟩
  rw [Call.act_eq, hplan]
  rfl

theorem seenIn {a : Attempt} (h : ¬ a.RefusedUnseen) (ptr : Nat) {run : Run Heap} {name : String}
    (hlock : run.object.lock = .hooks name) : (a.call ptr).SeenIn run := by
  obtain ⟨zeroed, w, -, hplan⟩ := plan_of_seen h ptr
  have hfree : run.object.lock.isHeld? ≠ some true := by
    rw [hlock]
    exact nofun
  obtain ⟨run', hone⟩ := oneSection hplan hfree
  cases hone with
  | returns _ hact hsection =>
    obtain ⟨records, htrace⟩ := hsection.trace_eq
    rw [hlock] at htrace
    exact ⟨_, _, records, run', Or.inl ⟨_, hact⟩, htrace⟩
  | stops _ hact hsection =>
    obtain ⟨records, htrace⟩ := hsection.trace_eq
    rw [hlock] at htrace
    exact ⟨_, _, records, run', Or.inr ⟨_, hact⟩, htrace⟩

/-- The contract of an attempt that is not refused at once is that of its request. -/
theorem allowed_iff {a : Attempt} {s : Session} {ptr : Nat} (h : ¬ a.RefusedUnseen) :
    (a.call ptr).Allowed s ↔ (a.demand.request ptr).Allowed s := by
  obtain ⟨zeroed, w, -, hplan⟩ := plan_of_seen h ptr
  rw [Call.Allowed, hplan]
  exact Iff.rfl

/-- An attempt that is not refused at once carries its request out, and fails if that is refused. -/
theorem carry {a : Attempt} {u : HeapSession} (h : u.Sound bs) (hseen : ¬ a.RefusedUnseen)
    {ptr : Nat} (hr : (a.demand.request ptr).Allowed u.session) :
    ∃ answer s' bs' reply run,
      Session.Effect u.session bs (a.demand.request ptr) answer s' bs' ∧
      (a.call ptr).act u.run = .ok reply run ∧ (reply.Failed ↔ answer = none) := by
  obtain ⟨zeroed, w, hw, hplan⟩ := plan_of_seen hseen ptr
  obtain ⟨answer, s', bs', run, hact, hc⟩ := h.carry hr zeroed w
  rw [← hplan, ← Call.act_eq, Demand.request_reply] at hact
  exact ⟨answer, s', bs', _, run, hc.effect, hact, hw.failed_iff answer⟩

/-- An attempt is hopeless if and only if what it demands is out of reach. -/
theorem hopeless_iff (minSplit : Nat) (a : Attempt) :
    a.Hopeless minSplit ↔ a.demand.OutOfReach := by
  constructor
  · intro hhopeless
    by_contra hd
    have hseen : ¬ a.RefusedUnseen := fun h => hd h.outOfReach
    obtain ⟨u, bs, ptr, hreach, hmin, hsound, hr, hmet⟩ := Demand.exists_met minSplit hd
    obtain ⟨answer, s', bs', reply, run, he, hact, hfailed⟩ := carry hsound hseen hr
    have hfails := hhopeless u ptr reply run hreach hmin ((allowed_iff hseen).2 hr) hact
    exact hmet answer s' bs' he (hfailed.1 hfails)
  · intro hd u ptr reply run hreach _ hallowed hact
    by_cases hseen : a.RefusedUnseen
    · obtain ⟨reply', hfailed, hact'⟩ := hseen.failsUnseen ptr
      obtain ⟨rfl, -⟩ := EStateM.Result.ok.inj ((hact' u.run).symm.trans hact)
      exact hfailed
    · obtain ⟨bs, hsound⟩ := hreach.sound
      have hr := (allowed_iff hseen).1 hallowed
      obtain ⟨answer, s', bs', reply', run', he, hact', hfailed⟩ := carry hsound hseen hr
      obtain ⟨rfl, -⟩ := EStateM.Result.ok.inj (hact'.symm.trans hact)
      exact hfailed.2 (he.refused_of_outOfReach hsound.list hr hd)

end Attempt

/-! ### Early refusal in every heap -/

/-- An attempt fails in every heap, for every granted block that it may be about, if and only if
what it demands makes no sense or does not fit between the lowest payload and the end of the address
space. If an early test covers it, which is one of these cases, it fails without a trace; if none
does, it takes the lock once, hopeless or not. -/
theorem early_refusal (minSplit : Nat) (a : Attempt) :
    (a.Hopeless minSplit ↔ a.demand.OutOfReach) ∧
    (a.RefusedUnseen → a.Hopeless minSplit ∧ ∀ ptr, (a.call ptr).FailsUnseen) ∧
    (¬ a.RefusedUnseen → ∀ ptr (run : Run Heap) name, run.object.lock = .hooks name →
      (a.call ptr).SeenIn run) := by
  refine ⟨a.hopeless_iff minSplit, fun hunseen => ⟨?_, fun ptr => hunseen.failsUnseen ptr⟩,
    fun hseen ptr run name hlock => Attempt.seenIn hseen ptr hlock⟩
  exact (a.hopeless_iff minSplit).2 hunseen.outOfReach

/-- An alignment of 24 is refused without the lock, and so is a product that is no word; the largest
word is not. -/
theorem early_refusal_sample :
    ((Attempt.tryAlignedMalloc 24 8).call 0).FailsUnseen ∧
    ((Attempt.calloc 0x100000000 0x100000000).call 0).FailsUnseen ∧
    (Attempt.malloc 0xffffffffffffffff).Hopeless minBlockSpan ∧
    ((Attempt.malloc 0xffffffffffffffff).call 0).SeenIn HeapSession.sample.run := by
  have halign : (Attempt.tryAlignedMalloc 24 8).RefusedUnseen := Or.inr (by decide)
  have hproduct : (Attempt.calloc 0x100000000 0x100000000).RefusedUnseen := Or.inr (by decide)
  have hlarge : ¬ (Attempt.malloc 0xffffffffffffffff).RefusedUnseen :=
    show ¬ 0xffffffffffffffff = 0 by decide
  obtain ⟨hhopeless, -, hseen⟩ := early_refusal minBlockSpan (.malloc 0xffffffffffffffff)
  refine ⟨?_, ?_, hhopeless.2 (Or.inr (Or.inr (by decide))), ?_⟩
  · exact ((early_refusal minBlockSpan _).2.1 halign).2 0
  · exact ((early_refusal minBlockSpan _).2.1 hproduct).2 0
  · exact hseen hlarge 0 HeapSession.sample.run "Hooks" (by decide +kernel)

/-- No granted block can be resized to no bytes, and yet the sample heap takes its lock to refuse
that. -/
theorem hopeless_resize_seen :
    (∀ minSplit, (Attempt.alignedRealloc 8 0).Hopeless minSplit) ∧
    HeapSession.sample.Reachable ∧ 4160 ∈ HeapSession.sample.live ∧
    ((Attempt.alignedRealloc 8 0).call 4160).SeenIn HeapSession.sample.run := by
  have hlive : 4160 ∈ HeapSession.sample.live := by decide +kernel
  have hlock : HeapSession.sample.run.object.lock = .hooks "Hooks" := by decide +kernel
  exact ⟨fun minSplit => ((Attempt.alignedRealloc 8 0).hopeless_iff minSplit).2 (Or.inl rfl),
    HeapSession.sample_reachable, hlive, Attempt.seenIn id 4160 hlock⟩

end PoolAlloc
