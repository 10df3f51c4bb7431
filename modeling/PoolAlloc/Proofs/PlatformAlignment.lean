import PoolAlloc.Proofs.HeapSession
import PoolAlloc.Proofs.Resizing
/-!
# PoolAlloc.Proofs.PlatformAlignment

Which blocks of the C functions lie at the alignment of the platform.

`malloc`, `calloc` and `realloc` ask for `minAlign`. The first two get it. The third gets it where
the block moves; a block that is large enough stays where it is, and a block that was granted at a
smaller alignment stays off it (`CInterface.Call.StaysOff`). That is the only way in which these
functions answer an address off the platform alignment, and it takes a block that was asked for at
a smaller one: without such blocks everything that is granted lies at it.

Main statement: `platform_alignment`.
-/

namespace PoolAlloc

open FreeList

namespace CInterface

/-- The functions that are told no alignment. -/
def Call.IsPlain : CInterface.Call → Prop
  | malloc _ | calloc _ _ | realloc _ _ => True
  | _ => False

/-- A block off the platform alignment is resized, and large enough to stay where it is. -/
def Call.StaysOff (u : HeapSession) : CInterface.Call → Prop
  | realloc (some ptr) size =>
    ¬ minAlign ∣ ptr ∧ roundUp size granularity ≤ u.session.list.usableSize ptr
  | _ => False

/-- No smaller alignment than that of the platform is asked for. -/
def Call.AsksForMinAlign : CInterface.Call → Prop
  | alignedMalloc align _ | posixMemalign align _ | memalign align _ | alignedAlloc align _ =>
    minAlign ≤ align
  | _ => True

end CInterface

namespace HeapSession

variable {P : CInterface.Call → Prop} {u : HeapSession} {bs bs' : List FreeBlock} {plan : Plan}
  {reply : Reply} {run : Run Heap}

/-- What clients of the C functions that keep the contract can lead to by calls for which `P` holds,
over any memory. -/
inductive CRun (P : CInterface.Call → Prop) : HeapSession → Prop
  | start (mem : Memory) : CRun P ⟨{ object := CInterface.initialHeap, mem }, [], ∅⟩
  | call {u : HeapSession} {call : CInterface.Call} {reply : Reply} {run : Run Heap}
      (h : CRun P u) (hP : P call) (hcall : Call.Allowed u.session (.c call))
      (hrun : Call.act (.c call) u.run = .ok reply run) :
      CRun P (u.after (Call.plan (.c call)) run)
  | write {u : HeapSession} {addr : Nat} (byte : UInt8) (h : CRun P u)
      (haddr : u.session.InPayload addr) : CRun P (u.write addr byte)

theorem CRun.reachable (h : CRun P u) : u.Reachable := by
  induction h with
  | start mem => exact .start _ mem nofun
  | call _ _ hcall hrun ih => exact ih.call hcall hrun
  | write byte _ haddr ih => exact ih.write byte haddr

/-! ### Where a block lies that is answered -/

/-- A grant answers an address at the alignment it was told, or none. -/
theorem Sound.grant_act (h : u.Sound bs) (align size : Nat) (zeroed : Bool) :
    ∃ ptr run, (Plan.grant align size zeroed .plain (.address none)).act u.run =
        .ok (.address ptr) run ∧ ∀ q, ptr = some q → align ∣ q := by
  unfold Plan.grant
  split
  · exact ⟨none, _, aside_act .., nofun⟩
  · have hallowed : (Request.allocate align size).Allowed u.session := trivial
    obtain ⟨answer, s', bs', run, hact, hc⟩ := h.carry hallowed zeroed .plain
    refine ⟨answer, run, hact, ?_⟩
    rintro q rfl
    exact hc.effect.granted_dvd h.list

/-- A resize answers the same address where the block is large enough, an address at the alignment
it was told where it is not, or none. -/
theorem Sound.resize_act {ptr : Nat} (h : u.Sound bs) (hptr : ptr ∈ u.live) (align size : Nat) :
    ∃ answer run, (Plan.resize ptr align size).act u.run = .ok (.address answer) run ∧
      ∀ q, answer = some q →
        (roundUp size granularity ≤ u.session.list.usableSize ptr ∧ q = ptr) ∨
        (u.session.list.usableSize ptr < roundUp size granularity ∧ align ∣ q) := by
  have hallowed : (Request.resize ptr align size).Allowed u.session := hptr
  obtain ⟨answer, s', bs', run, hact, hc⟩ := h.carry hallowed false .plain
  refine ⟨answer, run, hact, ?_⟩
  rintro q rfl
  exact (hc.effect.resized h.list hptr).place

/-- A block that is resized is granted. -/
theorem mem_live_of_realloc {ptr size : Nat}
    (h : Call.Allowed u.session (.c (.realloc (some ptr) size))) : ptr ∈ u.live := by
  have hallowed : (Plan.realloc CInterface.minAlign (some ptr) size).Allowed u.session := h
  rw [Plan.realloc] at hallowed
  split at hallowed <;> exact hallowed

open CInterface in
/-- The functions that are told no alignment answer an address at the platform alignment, but for a
block off it that stays where it is. -/
theorem Sound.plain_act {call : CInterface.Call} (h : u.Sound bs) (hplain : call.IsPlain)
    (hcall : Call.Allowed u.session (.c call)) :
    ∃ ptr run, Call.act (.c call) u.run = .ok (.address ptr) run ∧
      ∀ q, ptr = some q → (minAlign ∣ q ↔ ¬ call.StaysOff u) := by
  rw [Call.act_eq]
  have hgrant (size : Nat) (zeroed : Bool) (hcall : ¬ call.StaysOff u) :
      ∃ ptr run, (Plan.grant minAlign size zeroed .plain (.address none)).act u.run =
        .ok (.address ptr) run ∧ ∀ q, ptr = some q → (minAlign ∣ q ↔ ¬ call.StaysOff u) := by
    obtain ⟨ptr, run, hact, hdvd⟩ := h.grant_act minAlign size zeroed
    exact ⟨ptr, run, hact, fun q hq => iff_of_true (hdvd q hq) hcall⟩
  cases call with
  | malloc size => exact hgrant size false id
  | calloc number size =>
    show ∃ ptr run, (Plan.calloc minAlign number size).act u.run = _ ∧ _
    rw [Plan.calloc]
    cases mulChecked number size with
    | none => exact ⟨none, _, aside_act .., fun q hq => absurd hq.symm (Option.some_ne_none q)⟩
    | some len => exact hgrant len true id
  | realloc ptr size =>
    cases ptr with
    | none => exact hgrant size false id
    | some ptr =>
      have hptr : ptr ∈ u.live := mem_live_of_realloc hcall
      show ∃ answer run, (Plan.realloc minAlign (some ptr) size).act u.run = _ ∧ _
      rw [Plan.realloc]
      split
      · -- No bytes mean that the block is taken back.
        have hallowed : (Request.release ptr).Allowed u.session := hptr
        obtain ⟨answer, s', bs', run, hact, -⟩ := h.carry hallowed false .absent
        exact ⟨none, run, hact, fun q hq => absurd hq.symm (Option.some_ne_none q)⟩
      · obtain ⟨answer, run, hact, hplace⟩ := h.resize_act hptr minAlign size
        refine ⟨answer, run, hact, fun q hq => ?_⟩
        rcases hplace q hq with ⟨hfits, rfl⟩ | ⟨hlt, hdvd⟩
        · exact ⟨fun hdvd hoff => hoff.1 hdvd, fun hoff => not_not.1 fun hdvd => hoff ⟨hdvd, hfits⟩⟩
        · exact iff_of_true hdvd fun hoff => Nat.not_lt_of_le hoff.2 hlt
  | _ => exact hplain.elim

/-! ### Runs in which no smaller alignment is asked for -/

end HeapSession

/-- Every block that is asked for is asked for at a multiple of `d`. -/
def Plan.AsksFor (d : Nat) : Plan → Prop
  | inside (.request r) _ _ => ∀ asked, r.terms? = some asked → d ∣ asked.align
  | _ => True

/-- What grants nothing asks for nothing. -/
theorem Plan.asksFor_of_none {d : Nat} {r : Request} {zeroed : Bool} {w : Wording}
    (h : r.terms? = none) : (inside (.request r) zeroed w).AsksFor d :=
  fun asked hasked => absurd (hasked.symm.trans h) (Option.some_ne_none asked)

theorem Plan.grant_asksFor {align size : Nat} {zeroed : Bool} {w : Wording} {refusal : Reply}
    (h : CInterface.minAlign ≤ align) :
    (grant align size zeroed w refusal).AsksFor CInterface.minAlign := by
  unfold grant
  split
  · trivial
  · rename_i hvalid
    obtain ⟨k, rfl⟩ : IsAlignment align := not_not.1 fun halign => hvalid (.inr halign)
    rintro asked heq
    obtain rfl := Option.some.inj heq
    exact Nat.pow_dvd_pow 2 ((Nat.pow_le_pow_iff_right (by decide : 1 < 2)).1 h : 4 ≤ k)

/-- The plans of the C functions keep to the alignments that these are told. -/
theorem CInterface.Call.plan_asksFor {call : CInterface.Call} (h : call.AsksForMinAlign) :
    call.plan.AsksFor minAlign := by
  cases call with
  | addBlock addr size =>
    cases addr with
    | none => trivial
    | some addr => exact Plan.asksFor_of_none rfl
  | init => trivial
  | alignedMalloc | memalign | alignedAlloc | posixMemalign => exact Plan.grant_asksFor h
  | malloc => exact Plan.grant_asksFor (Nat.le_refl _)
  | calloc number size =>
    rw [plan, Plan.calloc]
    cases mulChecked number size with
    | none => trivial
    | some len => exact Plan.grant_asksFor (Nat.le_refl _)
  | free ptr | alignedFree ptr =>
    cases ptr with
    | none => trivial
    | some ptr => exact Plan.asksFor_of_none rfl
  | realloc ptr size =>
    cases ptr with
    | none => exact Plan.grant_asksFor (Nat.le_refl _)
    | some ptr =>
      rw [plan, Plan.realloc]
      split
      · exact Plan.asksFor_of_none rfl
      · rintro asked heq
        obtain rfl := Option.some.inj heq
        exact Nat.dvd_refl _
  | usableSize ptr => cases ptr <;> trivial

namespace HeapSession

variable {u : HeapSession} {bs bs' : List FreeBlock} {plan : Plan} {reply : Reply} {run : Run Heap}

/-- Where every block is asked for at a multiple of `d`, the granted blocks stay at multiples. -/
theorem Conduct.live_dvd {d : Nat} (hc : u.Conduct bs plan reply run bs') (h : u.Sound bs)
    (hplan : plan.AsksFor d) (hlive : ∀ p ∈ u.live, d ∣ p) :
    ∀ p ∈ (u.after plan run).live, d ∣ p := by
  cases hc with
  | aside => exact hlive
  | @request r zeroed w answer s' bs' hr hs he =>
    rw [HeapSession.after, plan_after hs]
    exact he.live_dvd h.list hr hplan hlive
  | @look access _ _ _ hlook _ =>
    cases access with
    | request r => exact absurd rfl (hlook r)
    | usableSize | summary => exact hlive

open CInterface in
/-- In runs in which no smaller alignment is asked for, all granted blocks lie at the platform
alignment. -/
theorem CRun.live_dvd (h : CRun Call.AsksForMinAlign u) : ∀ p ∈ u.live, minAlign ∣ p := by
  induction h with
  | start mem => exact fun p hp => absurd hp (Finset.notMem_empty p)
  | call h hP hcall hrun ih =>
    obtain ⟨bs, hsound⟩ := h.reachable.sound
    obtain ⟨_, _, bs', hact, hc⟩ := hsound.act hcall
    obtain ⟨rfl, rfl⟩ := EStateM.Result.ok.inj (hrun.symm.trans hact)
    exact hc.live_dvd hsound (CInterface.Call.plan_asksFor hP) ih
  | write _ _ _ ih => exact ih

/-- So `realloc` finds no block off it. -/
theorem CRun.not_staysOff {call : CInterface.Call} (h : CRun CInterface.Call.AsksForMinAlign u)
    (hcall : Call.Allowed u.session (.c call)) : ¬ call.StaysOff u := by
  intro hoff
  cases call with
  | realloc ptr size =>
    cases ptr with
    | none => exact hoff
    | some ptr => exact hoff.1 (h.live_dvd ptr (mem_live_of_realloc hcall))
  | _ => exact hoff

end HeapSession

/-! ### The platform alignment in every run -/

open HeapSession CInterface in
/-- In every run of the C functions in which only granted blocks are released and resized: `malloc`,
`calloc` and `realloc` return, and an address that they answer lies at the platform alignment, but
for a block off it that `realloc` leaves where it is. There is no such block if no smaller alignment
was ever asked for. -/
theorem platform_alignment {u : HeapSession} {call : CInterface.Call} (h : CRun (fun _ => True) u)
    (hplain : call.IsPlain) (hcall : Call.Allowed u.session (.c call)) :
    (∃ ptr run, Call.act (.c call) u.run = .ok (.address ptr) run ∧
      ∀ q, ptr = some q → (minAlign ∣ q ↔ ¬ call.StaysOff u)) ∧
    (CRun Call.AsksForMinAlign u → ¬ call.StaysOff u) := by
  obtain ⟨bs, hsound⟩ := h.reachable.sound
  exact ⟨hsound.plain_act hplain hcall, fun hasks => hasks.not_staysOff hcall⟩

namespace HeapSession

theorem CRun.next {P : CInterface.Call → Prop} {u : HeapSession} (h : CRun P u)
    (call : CInterface.Call) (hP : P call) (hcall : Call.Allowed u.session (.c call)) :
    CRun P (u.next (.c call)) := by
  obtain ⟨bs, hsound⟩ := h.reachable.sound
  obtain ⟨reply, run, -, hact, -⟩ := hsound.act hcall
  rw [HeapSession.next, hact]
  exact h.call hP hcall hact

/-- A heap behind the functions of C that granted a block at a multiple of 8. -/
def offSample : HeapSession :=
  ((HeapSession.next ⟨{ object := CInterface.initialHeap }, [], ∅⟩
    (.c (.addBlock (some 4096) 256))).next (.c (.alignedMalloc 8 8)))

theorem offSample_run : CRun (fun _ => True) offSample := by
  have hempty : CRun (fun _ => True) ⟨{ object := CInterface.initialHeap }, [], ∅⟩ := .start {}
  have hpool := hempty.next (.addBlock (some 4096) 256) trivial ⟨by decide, by decide, nofun⟩
  exact hpool.next (.alignedMalloc 8 8) trivial trivial

/-- The block that was granted at a multiple of 8 is resized in place, and its address, which
`realloc` answers, is no multiple of 16. -/
theorem realloc_answers_off :
    CRun (fun _ => True) offSample ∧
      Call.Allowed offSample.session (.c (.realloc (some 4120) 4)) ∧
      (∃ run, Call.act (.c (.realloc (some 4120) 4)) offSample.run =
        .ok (.address (some 4120)) run) ∧
      ¬ CInterface.minAlign ∣ 4120 := by
  have hallowed : Call.Allowed offSample.session (.c (.realloc (some 4120) 4)) :=
    show 4120 ∈ offSample.live by decide +kernel
  refine ⟨offSample_run, hallowed, ?_, by decide⟩
  obtain ⟨bs, hsound⟩ := offSample_run.reachable.sound
  obtain ⟨reply, run, -, hact, -⟩ := hsound.act hallowed
  have hreply : EStateM.run' (Call.act (.c (.realloc (some 4120) 4))) offSample.run =
      some (.address (some 4120)) := by decide +kernel
  obtain rfl := Option.some.inj ((Action.answer_of_ok hact).symm.trans hreply)
  exact ⟨run, hact⟩

/-- The block off the platform alignment moves to it in order to grow. -/
theorem platform_alignment_sample :
    CRun (fun _ => True) offSample ∧
      ∃ run, Call.act (.c (.realloc (some 4120) 16)) offSample.run =
          .ok (.address (some 4192)) run ∧
        (CInterface.minAlign ∣ 4192 ↔
          ¬ CInterface.Call.StaysOff offSample (.realloc (some 4120) 16)) := by
  have hallowed : Call.Allowed offSample.session (.c (.realloc (some 4120) 16)) :=
    show 4120 ∈ offSample.live by decide +kernel
  have hplain : CInterface.Call.IsPlain (.realloc (some 4120) 16) := trivial
  obtain ⟨⟨ptr, run, hact, hoff⟩, -⟩ := platform_alignment offSample_run hplain hallowed
  have hreply : EStateM.run' (Call.act (.c (.realloc (some 4120) 16))) offSample.run =
      some (.address (some 4192)) := by decide +kernel
  obtain rfl := Reply.address.inj (Option.some.inj ((Action.answer_of_ok hact).symm.trans hreply))
  exact ⟨offSample_run, run, hact, hoff _ rfl⟩

end HeapSession

end PoolAlloc
