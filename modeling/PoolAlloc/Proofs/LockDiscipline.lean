import PoolAlloc.Proofs.HeapSession
/-!
# PoolAlloc.Proofs.LockDiscipline

When a shared heap holds its lock.

Calls are made of each other, so it takes a proof that none of them takes the lock twice or does
something to the free list without it. A call either keeps aside, with an answer that does not
depend on the heap at all (`Call.KeepsAside`), or it waits until nobody holds the lock and comes out
of one section under it (`OneSection`): one function of what the lock saw decides what the call
answers and what the section leaves. In a trace such sections are adjacent pairs of events with
records around them (`Paired`). All this holds of any calls, also of those that break the contract
and raise a fault. Under the contract every call returns, and from one section to the next only
payloads change (`DifferInPayloads`).

Main statement: `lock_discipline`.
-/

namespace PoolAlloc

open Memory FreeList Heap

/-! ### Traces -/

/-- Every lock is followed at once by its unlock, and records lie outside of these pairs. -/
inductive Paired : List Event → Prop
  | nil : Paired []
  | pair {trace : List Event} (seen left : FreeList) (h : Paired trace) :
      Paired (trace ++ [.lock seen, .unlock left])
  | log {trace : List Event} (text : String) (h : Paired trace) : Paired (trace ++ [.log text])

/-- The free list that the last unlock of a trace left. -/
def lastLeft? (trace : List Event) : Option FreeList :=
  trace.foldl (fun last event =>
    match event with
    | .unlock left => some left
    | _ => last) none

variable {trace : List Event}

theorem Paired.records (h : Paired trace) (records : List String) :
    Paired (trace ++ records.map .log) := by
  induction records generalizing trace with
  | nil => rwa [List.map_nil, List.append_nil]
  | cons text records ih =>
    rw [List.map_cons, List.append_cons]
    exact ih (h.log text)

theorem Paired.section (h : Paired trace) (lock : Lock) (seen left : FreeList) :
    Paired (trace ++ sectionEvents lock seen left) := by
  cases lock with
  | hooks name => exact h.pair seen left
  | none | spin held => exact (List.append_nil trace).symm ▸ h

theorem lastLeft?_records (trace : List Event) (records : List String) :
    lastLeft? (trace ++ records.map .log) = lastLeft? trace := by
  rw [lastLeft?, List.foldl_append, List.foldl_map]
  induction records with
  | nil => rfl
  | cons text records ih => exact ih

/-- A section under hooks is the last one of a trace, and any other is not seen. -/
theorem lastLeft?_section (trace : List Event) (lock : Lock) (seen left : FreeList) :
    lastLeft? (trace ++ sectionEvents lock seen left) =
      match lock with
      | .hooks _ => some left
      | _ => lastLeft? trace := by
  cases lock with
  | hooks name =>
    rw [lastLeft?, List.foldl_append]
    rfl
  | none | spin held => simp only [sectionEvents, List.append_nil]

/-! ### Calls -/

/-- A call answers the same in every heap, whatever its lock, and at most leaves records. -/
def Call.KeepsAside (call : Call) : Prop :=
  ∃ (reply : Reply) (records : List String), ∀ run : Run Heap,
    call.act run = .ok reply { run with trace := run.trace ++ records.map .log }

/-- What an access answers, in the words of an interface, and leaves. -/
def Access.worded (access : Access) (w : Wording) (l : FreeList) :
    Except Fault (Reply × FreeList) := do
  let (x, l) ← access.onList l
  return (w.reply x, l)

/-- The lock was taken once and let go, and records were left afterwards. With hooks that is one
pair of events. -/
structure Sectioned (run : Run Heap) (l : FreeList) (run' : Run Heap) : Prop where
  trace_eq : ∃ records : List String, run'.trace = run.trace ++
    sectionEvents run.object.lock (freeList run) (freeList (keep run l)) ++ records.map .log
  lock_eq : run'.object.lock = run.object.lock

/-- What a call comes to that works in one section: `body` decides by what the lock saw what the
call answers and the section leaves, or that it breaks off. -/
inductive OneSection (body : FreeList → Except Fault (Reply × FreeList)) (call : Call)
    (run : Run Heap) : Run Heap → Prop
  | returns {reply : Reply} {l : FreeList} {run' : Run Heap}
      (hbody : body (freeList run) = .ok (reply, l)) (hact : call.act run = .ok reply run')
      (hsection : Sectioned run l run') : OneSection body call run run'
  | stops {f : Fault} {run' : Run Heap} (hbody : body (freeList run) = .error f)
      (hact : call.act run = .error (.panic (.fault f)) run')
      (hsection : Sectioned run (freeList run) run') : OneSection body call run run'

variable {call : Call} {access : Access} {zeroed : Bool} {w : Wording} {run : Run Heap}

/-- A call without an access keeps aside. -/
theorem keepsAside {record : Option String} {reply : Reply}
    (hplan : call.plan = .aside record reply) : call.KeepsAside := by
  refine ⟨reply, record.toList, fun run => ?_⟩
  rw [call.act_eq, hplan]
  exact HeapSession.aside_act record reply run

/-- What is left to do after a section leaves records and does not touch the lock. -/
theorem sectioned_finish (x : Reply) (l : FreeList) :
    Sectioned run l (access.finish zeroed x (leave run l)) := by
  have hleave : Sectioned run l (leave run l) := ⟨⟨[], (List.append_nil _).symm⟩, rfl⟩
  unfold Access.finish
  split
  · exact ⟨⟨[_], rfl⟩, rfl⟩
  · split
    · exact ⟨hleave.trace_eq, rfl⟩
    · exact hleave
  · exact hleave

/-- A call with an access comes out of one section, if the lock is free. -/
theorem oneSection (hplan : call.plan = .inside access zeroed w)
    (hfree : run.object.lock.isHeld? ≠ some true) :
    ∃ run', OneSection (access.worded w) call run run' := by
  have hact : call.act run = (Plan.inside access zeroed w).act run := by
    rw [call.act_eq, hplan]
  cases hx : access.onList (freeList run) with
  | ok answer =>
    obtain ⟨x, l⟩ := answer
    refine ⟨_, .returns ?_ (hact.trans (HeapSession.inside_act hfree hx)) (sectioned_finish x l)⟩
    rw [Access.worded, hx]
    rfl
  | error f =>
    have hbody : access.worded w (freeList run) = .error f := by
      rw [Access.worded, hx]
      rfl
    exact ⟨_, .stops hbody (hact.trans (HeapSession.inside_act_of_error hfree hx))
      ⟨⟨[], (List.append_nil _).symm⟩, rfl⟩⟩

/-- What any calls lead to, also where one of them breaks off, while memory changes in any way. -/
inductive Served : Run Heap → Prop
  | start (minSplit : Nat) (mem : Memory) {lock : Lock} (h : lock.isHeld? ≠ some true) :
      Served { object := { minSplit, lock }, mem }
  | returned {run run' : Run Heap} {call : Call} {reply : Reply} (h : Served run)
      (hact : call.act run = .ok reply run') : Served run'
  | stopped {run run' : Run Heap} {call : Call} {why : Stop} (h : Served run)
      (hact : call.act run = .error why run') : Served run'
  | write {run : Run Heap} (mem : Memory) (h : Served run) : Served { run with mem }

/-- The trace consists of pairs, and the lock is free. -/
structure Orderly (run : Run Heap) : Prop where
  paired : Paired run.trace
  free : run.object.lock.isHeld? ≠ some true

theorem Sectioned.orderly {l : FreeList} {run' : Run Heap} (hs : Sectioned run l run')
    (h : Orderly run) : Orderly run' := by
  obtain ⟨⟨records, htrace⟩, hlock⟩ := hs
  refine ⟨?_, hlock ▸ h.free⟩
  rw [htrace]
  exact (h.paired.section ..).records records

/-- Every call returns or breaks off, and leaves an orderly heap. -/
theorem Orderly.act (h : Orderly run) (call : Call) :
    ∃ run', Orderly run' ∧
      ((∃ reply, call.act run = .ok reply run') ∨
        ∃ f, call.act run = .error (.panic (.fault f)) run') := by
  cases hplan : call.plan with
  | aside record reply =>
    obtain ⟨reply, records, hact⟩ := keepsAside hplan
    exact ⟨{ run with trace := run.trace ++ records.map .log },
      ⟨h.paired.records records, h.free⟩, Or.inl ⟨reply, hact run⟩⟩
  | inside access zeroed w =>
    obtain ⟨run', hone⟩ := oneSection hplan h.free
    cases hone with
    | returns _ hact hsection => exact ⟨run', hsection.orderly h, Or.inl ⟨_, hact⟩⟩
    | stops _ hact hsection => exact ⟨run', hsection.orderly h, Or.inr ⟨_, hact⟩⟩

theorem Served.orderly (h : Served run) : Orderly run := by
  induction h with
  | start minSplit mem h => exact ⟨.nil, h⟩
  | @returned run run₁ call reply _ hact ih =>
    obtain ⟨run', horderly, ⟨_, hrun⟩ | ⟨_, hrun⟩⟩ := ih.act call
    · obtain ⟨-, rfl⟩ := EStateM.Result.ok.inj (hact.symm.trans hrun)
      exact horderly
    · cases hact.symm.trans hrun
  | @stopped run run₁ call why _ hact ih =>
    obtain ⟨run', horderly, ⟨_, hrun⟩ | ⟨_, hrun⟩⟩ := ih.act call
    · cases hact.symm.trans hrun
    · obtain ⟨-, rfl⟩ := EStateM.Result.error.inj (hact.symm.trans hrun)
      exact horderly
  | write mem _ ih => exact ⟨ih.paired, ih.free⟩

/-! ### Runs under the contract -/

/-- Two free lists differ at most in the payloads of granted blocks. -/
structure DifferInPayloads (s : Session) (l l' : FreeList) : Prop where
  head_eq : l'.head = l.head
  within : Within l l' s.InPayload

namespace HeapSession

variable {u : HeapSession} {bs : List FreeBlock}

/-- A call that the contract allows returns, and after its section at most payloads change. -/
theorem Sound.returns (h : u.Sound bs) (hcall : call.Allowed u.session)
    (hplan : call.plan = .inside access zeroed w) :
    ∃ reply l run, access.worded w (freeList u.run) = .ok (reply, l) ∧
      call.act u.run = .ok reply run ∧ Sectioned u.run l run ∧
      DifferInPayloads (u.after call.plan run).session (freeList (keep u.run l))
        (freeList run) := by
  obtain ⟨reply, run, bs', hrun, hc⟩ := h.act hcall
  rw [hplan] at hc
  cases hc with
  | @request r _ _ answer s' _ hr hs he =>
    have hkeep : freeList (keep u.run s'.list) = s'.list := freeList_leave he.minSplit_eq
    obtain ⟨hhead, hwithin⟩ := (finished_finish he h.list zeroed (leave u.run s'.list)).within
    rw [freeList_leave he.minSplit_eq] at hhead hwithin
    refine ⟨_, s'.list, _, ?_, hrun, sectioned_finish .., ?_⟩
    · have hx : r.onList (freeList u.run) = .ok (answer, s'.list) := Session.onList_of_perform hs
      simp only [Access.worded, Access.onList, hx, ok_bind]
      rfl
    · -- What is cleared lies in a payload that is granted after the request.
      rw [hkeep, hplan, session_after hs]
      refine ⟨hhead, hwithin.mono fun x hx => ?_⟩
      exact ((he.sound h.list hr).inPayload_poke hwithin fun _ hx => Or.inl hx).2 hx
  | @look _ _ _ x hlook hx =>
    refine ⟨_, freeList u.run, _, ?_, hrun, ⟨⟨[], (List.append_nil _).symm⟩, rfl⟩,
      ⟨rfl, rfl, fun _ _ => rfl⟩⟩
    rw [Access.worded, hx]
    rfl

/-- Since the last unlock only payloads changed. -/
def Handed (u : HeapSession) : Prop :=
  ∀ left, lastLeft? u.run.trace = some left →
    (∃ name, u.run.object.lock = .hooks name) ∧ DifferInPayloads u.session left (freeList u.run)

/-- What a section leaves is what the next one finds. -/
theorem Handed.section {l : FreeList} {plan : Plan} {run : Run Heap} (h : u.Handed)
    (hs : Sectioned u.run l run)
    (hleft : DifferInPayloads (u.after plan run).session (freeList (keep u.run l))
      (freeList run)) : (u.after plan run).Handed := by
  intro last hlast
  obtain ⟨⟨records, htrace⟩, hlock⟩ := hs
  have hlast' : lastLeft? run.trace = some last := hlast
  rw [htrace, lastLeft?_records, lastLeft?_section] at hlast'
  have hlock' : (u.after plan run).run.object.lock = u.run.object.lock := hlock
  rw [hlock']
  split at hlast'
  · rename_i name hname
    obtain rfl := Option.some.inj hlast'
    exact ⟨⟨name, hname⟩, hleft⟩
  · -- Without hooks no unlock was ever seen.
    rename_i hname
    obtain ⟨⟨name, hhooks⟩, -⟩ := h last hlast'
    exact absurd hhooks (hname name)

/-- A client writes into payloads. -/
theorem Handed.write {addr : Nat} (h : u.Handed) (hsound : u.Sound bs) (byte : UInt8)
    (haddr : u.session.InPayload addr) : (u.write addr byte).Handed := by
  intro left hleft
  obtain ⟨hhooks, hhead, hwithin⟩ := h left hleft
  refine ⟨hhooks, hhead, ?_⟩
  have hpayload : (u.write addr byte).session.InPayload = u.session.InPayload :=
    funext fun x => propext (hsound.inPayload_write byte haddr)
  rw [hpayload]
  exact hwithin.trans ((within_set ..).mono fun x hx => hx ▸ haddr)

end HeapSession

end PoolAlloc
