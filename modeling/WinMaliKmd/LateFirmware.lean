import WinMaliKmd.CsfSubmit

/-!
# A firmware that answers late

The rebind of the command stream group as the words that driver and firmware
exchange. The driver writes a request and polls the acknowledgement for a while;
the firmware looks at the request word whenever it does. One step is one access
of the driver, one poll, or one act of the firmware, and `SubmitLock` lets one
submit in at a time.
-/

set_option autoImplicit false

namespace WinMali.LateFirmware
open WinMali.AsSlots WinMali.CsfSubmit WinMali.Runs WinMali.VmTable

def csgStateMask : BitVec 32 := 7

def csgStateTerminate : BitVec 32 := 0

def csgStateStart : BitVec 32 := 1

def csgEndpointConfig : BitVec 32 := 1 <<< 4

/-- `SYNC_UPDATE`, `IDLE` and `PROGRESS_TIMER_EVENT`. -/
def csgEvtMask : BitVec 32 := (1 <<< 28) ||| (1 <<< 29) ||| (1 <<< 31)

def csgReqMask : BitVec 32 := csgStateMask ||| csgEndpointConfig

/-- What is under way on the group: a submit, of a group or of the NOP job, or the rebind that
follows a group's failure. -/
inductive Task
  | stream (c : StreamCall) (group : Bool)
  | rebind (asSlot : ℕ)
deriving DecidableEq, Repr

def Task.asSlot : Task → ℕ
  | .stream c _ => c.csgAsSlot
  | .rebind asSlot => asSlot

/-- A number counts the polls that are left. -/
inductive Pc
  | idle
  | terminate (t : Task)
  | terminateWait (t : Task) (n : ℕ)
  | program (t : Task)
  | readAck (t : Task)
  | start (t : Task) (csgAck : BitVec 32)
  | startWait (t : Task) (n : ℕ)
  | publish (c : StreamCall) (group : Bool)
  | wakeRead (c : StreamCall) (group : Bool)
  | wake (c : StreamCall) (group : Bool) (ack : BitVec 32)
  | wakeWait (c : StreamCall) (group : Bool) (n : ℕ)
  | jobWait (c : StreamCall) (group : Bool) (n : ℕ)
deriving DecidableEq, Repr

/-- `bound` is the firmware's own: the address space of its group while that is started.
`trampoline` records the slot of the trampoline in the ring; the driver does not keep it. -/
structure State where
  fw : FwCtx
  csfJobs : Bool
  req : BitVec 32
  ack : BitVec 32
  endpoints : ℕ
  bound : Option ℕ
  trampoline : Option ℕ
  pc : Pc

def updateReqs (req val mask : BitVec 32) : BitVec 32 := (req &&& ~~~mask) ||| (val &&& mask)

/-- The request that arms an idle group again. -/
def wakeReqs (reqOld ack : BitVec 32) : BitVec 32 :=
  let reqNew := (reqOld &&& ~~~csgEvtMask) ||| (ack &&& csgEvtMask)
  let reqNew := (reqNew &&& ~~~csgEndpointConfig) |||
    ((ack ^^^ csgEndpointConfig) &&& csgEndpointConfig)
  (reqNew &&& ~~~csgStateMask) ||| csgStateStart

def acked (s : State) (mask : BitVec 32) : Bool := s.ack &&& mask == s.req &&& mask

/-- The entry of a rebind, with what comes after it if it has nothing to do or cannot begin. -/
def rebindCsgAs (fw : FwCtx) (t : Task) (ok failed : Pc) : Pc :=
  if t.asSlot ≥ asSlotMax then ok
  else if !fw.csg0 then failed
  else if fw.csgStarted then .terminate t
  else .program t

def Task.failed (fw : FwCtx) : Task → Pc
  | .stream _ true => rebindCsgAs fw (.rebind bringupAs) .idle .idle
  | .stream _ false => .idle
  | .rebind _ => .idle

def Task.bound : Task → Pc
  | .stream c group => .publish c group
  | .rebind _ => .idle

def submitStreamCall (fw : FwCtx) (t : Task) : Pc :=
  if !submitFlags fw then t.failed fw else rebindCsgAs fw t t.bound (t.failed fw)

def terminateTimeoutMs : ℕ := 1000

def startTimeoutMs : ℕ := 5000

def wakeTimeoutMs : ℕ := 1000

def drive (s : State) : Pc → Option State
  | .idle => none
  | .terminate t =>
    some { s with
      req := updateReqs s.req csgStateTerminate csgStateMask
      pc := .terminateWait t terminateTimeoutMs }
  | .terminateWait t n =>
    match acked s csgStateMask, n with
    | false, n + 1 => some { s with pc := .terminateWait t n }
    -- acknowledged or not, the slot counts as stopped
    | _, _ => some { s with fw := { s.fw with csgStarted := false }, pc := .program t }
  | .program t =>
    if !s.fw.cs00Input || !s.fw.csg0 || !s.fw.qRing then some { s with pc := t.failed s.fw }
    else some { s with
      fw := { s.fw with
        extract := s.fw.outExtract
        insert := s.fw.outExtract
        csgConfig := t.asSlot }
      trampoline := none
      pc := .readAck t }
  | .readAck t => some { s with pc := .start t s.ack }
  | .start t csgAck =>
    some { s with
      req := updateReqs s.req
        (csgStateStart ||| ((csgAck ^^^ csgEndpointConfig) &&& csgEndpointConfig)) csgReqMask
      pc := .startWait t startTimeoutMs }
  | .startWait t n =>
    match acked s csgReqMask, n with
    | true, _ + 1 => some { s with
        fw := { s.fw with currentCsgAs := t.asSlot, csgStarted := true }
        pc := t.bound }
    | false, n + 1 => some { s with pc := .startWait t n }
    | _, 0 => some { s with pc := t.failed s.fw }
  | .publish c group =>
    let fw := { s.fw with kqJobSeq := (s.fw.kqJobSeq + 1) % 2 ^ 64 }
    match publish fw c with
    | none => some { s with fw := fw, pc := (Task.stream c group).failed fw }
    | some fw =>
      some { s with fw := fw, trampoline := some c.csgAsSlot, pc := .wakeRead c group }
  | .wakeRead c group =>
    if s.ack &&& csgEvtMask == 0 && s.endpoints != 0 then
      some { s with pc := .jobWait c group c.timeoutMs }
    else some { s with pc := .wake c group s.ack }
  | .wake c group ack =>
    some { s with req := wakeReqs s.req ack, pc := .wakeWait c group wakeTimeoutMs }
  | .wakeWait c group n =>
    match acked s csgReqMask, n with
    | false, n + 1 => some { s with pc := .wakeWait c group n }
    | _, _ => some { s with pc := .jobWait c group c.timeoutMs }
  | .jobWait c group n =>
    match n with
    | 0 => some { s with pc := (Task.stream c group).failed s.fw }
    | n + 1 =>
      some { s with pc := if s.fw.kqJobSeq ≤ s.fw.seqno then .idle else .jobWait c group n }

/-- The firmware looks at the request: it starts a stopped group in the address space that
`Config` names, or stops it, and mirrors the request. -/
def act (s : State) : State :=
  { s with
    bound :=
      if s.req &&& csgStateMask = csgStateStart then s.bound.or (some s.fw.csgConfig)
      else if s.req &&& csgStateMask = csgStateTerminate then none
      else s.bound
    ack := (s.ack &&& csgEvtMask) ||| (s.req &&& ~~~csgEvtMask) }

def nopCall (timeoutMs : ℕ) : StreamCall :=
  ⟨csfShaderGpuVa, shaderNopBytes, 0, bringupAs, timeoutMs⟩

/-- `consume` is a started group that executes from the ring, `signal` its last `SYNC_ADD64`,
and `status` reports events and endpoints. -/
inductive Label
  | submitNopJob (timeoutMs : ℕ)
  | submitGroupStream (c : StreamCall)
  | drive
  | act
  | status (events : BitVec 32) (endpoints : ℕ)
  | consume (bytes : ℕ)
  | signal
deriving DecidableEq, Repr

def step (s : State) : Label → Option State
  | .submitNopJob timeoutMs =>
    if s.pc ≠ .idle then none
    else if !s.csfJobs then some s
    else some { s with pc := submitStreamCall s.fw (.stream (nopCall timeoutMs) false) }
  | .submitGroupStream c =>
    if s.pc ≠ .idle then none
    else if !s.csfJobs || c.csgAsSlot ≥ asSlotMax || c.streamGpuVa == 0 ||
      c.streamSizeBytes == 0 then some s
    else some { s with pc := submitStreamCall s.fw (.stream c true) }
  | .drive => drive s s.pc
  | .act => some (act s)
  | .status events endpoints =>
    some { s with
      ack := (s.ack &&& ~~~csgEvtMask) ||| (events &&& csgEvtMask)
      endpoints := endpoints }
  | .consume bytes => if s.bound.isSome then some { s with fw := s.fw.consume bytes } else none
  | .signal => some { s with fw := { s.fw with seqno := seqnoAfter s.fw } }

/-- The state that `WinMaliCsfBootstrap_` leaves: its own START is acknowledged. -/
def bootstrapped (csRegCount csUnpreservedRegCount : Word) (sbSlotCount endpoints : ℕ) :
    State where
  fw := CsfSubmit.bootstrapped csRegCount csUnpreservedRegCount sbSlotCount bringupAs
  csfJobs := true
  req := csgStateStart ||| csgEndpointConfig
  ack := csgStateStart ||| csgEndpointConfig
  endpoints := endpoints
  bound := some bringupAs
  trampoline := none
  pc := .idle

/-- The address space that the group is in, or will be in when it is started. -/
def addressSpace (s : State) : ℕ := s.bound.getD s.fw.csgConfig

def RightSpace (s : State) : Prop := ∀ slot ∈ s.trampoline, addressSpace s = slot

/-- When a submit asks for START the firmware has stopped the group, or has it in the right
address space already. -/
def guard (s : State) : Label → Prop
  | .drive =>
    match s.pc with
    | .start (.stream c _) _ => ∀ a ∈ s.bound, a = c.csgAsSlot
    | _ => True
  | _ => True

instance (s : State) : (l : Label) → Decidable (guard s l)
  | .drive =>
    match h : s.pc with
    | .start (.stream c _) _ =>
      decidable_of_iff (∀ a ∈ s.bound, a = c.csgAsSlot) (by simp [guard, h])
    | .idle | .terminate _ | .terminateWait _ _ | .program _ | .readAck _ | .start (.rebind _) _
    | .startWait _ _ | .publish _ _ | .wakeRead _ _ | .wake _ _ _ | .wakeWait _ _ _
    | .jobWait _ _ _ => isTrue (by simp [guard, h])
  | .submitNopJob _ | .submitGroupStream _ | .act | .status _ _ | .consume _ | .signal =>
    isTrue trivial

/-- A stopped group would be started in the slot and a started one is in it. -/
structure Toward (s : State) (slot : ℕ) : Prop where
  config : s.fw.csgConfig = slot
  bound : ∀ a ∈ s.bound, a = slot

def PcOk (s : State) : Pc → Prop
  | .readAck t => s.fw.csgConfig = t.asSlot
  | .start t _ => s.fw.csgConfig = t.asSlot
  | .startWait (.stream c _) _ => Toward s c.csgAsSlot
  | .publish c _ => Toward s c.csgAsSlot
  | _ => True

structure Inv (s : State) : Prop where
  trampoline : ∀ slot ∈ s.trampoline, Toward s slot
  pc : PcOk s s.pc

section Steps

variable {s s' t : State} {slot : ℕ}

theorem Toward.addressSpace (T : Toward s slot) : addressSpace s = slot := by
  unfold LateFirmware.addressSpace
  cases h : s.bound with
  | none => exact T.config
  | some a => exact T.bound a h

theorem PcOk.keep {pc : Pc} (h : PcOk s pc) (hconfig : s'.fw.csgConfig = s.fw.csgConfig)
    (hbound : ∀ slot, Toward s slot → Toward s' slot) : PcOk s' pc := by
  cases pc with
  | readAck t => exact hconfig.trans h
  | start t ack => exact hconfig.trans h
  | startWait t n =>
    cases t with
    | stream c group => exact hbound _ h
    | rebind asSlot => trivial
  | publish c group => exact hbound _ h
  | _ => trivial

theorem publish_keeps {fw fw' : FwCtx} {c : StreamCall} (h : publish fw c = some fw') :
    fw'.csgConfig = fw.csgConfig ∧ submitFlags fw' = submitFlags fw ∧ fw'.csg0 = fw.csg0 ∧
      fw'.csgStarted = fw.csgStarted := by
  rw [publish_frame h]
  exact ⟨rfl, rfl, rfl, rfl⟩

theorem pcOk_rebind (s : State) (fw : FwCtx) (t : Task) {ok failed : Pc}
    (hok : t.asSlot < asSlotMax ∨ PcOk s ok) (hfailed : PcOk s failed) :
    PcOk s (rebindCsgAs fw t ok failed) := by
  unfold rebindCsgAs
  split
  · rename_i hge
    exact hok.resolve_left (by omega)
  · split
    · exact hfailed
    · split <;> trivial

theorem pcOk_failed (s : State) (fw : FwCtx) (t : Task) : PcOk s (t.failed fw) := by
  match t with
  | .stream _ true => exact pcOk_rebind s fw _ (.inr trivial) trivial
  | .stream _ false => trivial
  | .rebind _ => trivial

theorem pcOk_submit (s : State) (fw : FwCtx) {t : Task} (ht : t.asSlot < asSlotMax) :
    PcOk s (submitStreamCall fw t) := by
  unfold submitStreamCall
  split
  · exact pcOk_failed s fw t
  · exact pcOk_rebind s fw t (.inl ht) (pcOk_failed s fw t)

/-- The firmware starts a stopped group where `Config` says and moves no started one. -/
theorem act_toward (T : Toward s slot) : Toward (act s) slot := by
  refine ⟨T.config, fun a ha => ?_⟩
  simp only [act] at ha
  split at ha
  · rcases Option.or_eq_some_iff.mp ha with ha | ⟨-, ha⟩
    · exact T.bound a ha
    · exact (Option.some.inj ha).symm.trans T.config
  · split at ha
    · cases ha
    · exact T.bound a ha

/-- A step that leaves the group's configuration and binding alone. -/
theorem Inv.move (I : Inv s) (hconfig : s'.fw.csgConfig = s.fw.csgConfig)
    (hbound : s'.bound = s.bound) (htramp : s'.trampoline = s.trampoline)
    (hpc : PcOk s' s'.pc) : Inv s' := by
  refine ⟨fun slot hslot => ?_, hpc⟩
  rw [htramp] at hslot
  have T := I.trampoline slot hslot
  exact ⟨hconfig.trans T.config, hbound ▸ T.bound⟩

theorem Inv.frame (I : Inv s) (hconfig : s'.fw.csgConfig = s.fw.csgConfig)
    (hbound : s'.bound = s.bound) (htramp : s'.trampoline = s.trampoline) (hpc : s'.pc = s.pc) :
    Inv s' := by
  refine I.move hconfig hbound htramp ?_
  rw [hpc]
  exact I.pc.keep hconfig fun _ T => ⟨hconfig.trans T.config, hbound ▸ T.bound⟩

theorem drive_inv (I : Inv s) (hg : guard s .drive) (h : drive s s.pc = some t) : Inv t := by
  have hpc := I.pc
  simp only [guard] at hg
  generalize s.pc = pc at h hpc hg
  cases pc with
  | idle => cases h
  | terminate t =>
    obtain rfl := Option.some.inj h
    exact I.move rfl rfl rfl trivial
  | terminateWait t n =>
    simp only [drive] at h
    split at h
    · obtain rfl := Option.some.inj h
      exact I.move rfl rfl rfl trivial
    · obtain rfl := Option.some.inj h
      exact I.move rfl rfl rfl trivial
  | program t =>
    simp only [drive] at h
    split at h
    · obtain rfl := Option.some.inj h
      exact I.move rfl rfl rfl (pcOk_failed _ _ _)
    · obtain rfl := Option.some.inj h
      exact ⟨fun _ hslot => absurd hslot (by simp), rfl⟩
  | readAck t =>
    obtain rfl := Option.some.inj h
    exact I.move rfl rfl rfl hpc
  | start t csgAck =>
    obtain rfl := Option.some.inj h
    refine I.move rfl rfl rfl ?_
    cases t with
    | stream c group => exact ⟨hpc, hg⟩
    | rebind asSlot => trivial
  | startWait t n =>
    simp only [drive] at h
    split at h
    · obtain rfl := Option.some.inj h
      refine I.move rfl rfl rfl ?_
      cases t with
      | stream c group => exact ⟨hpc.config, hpc.bound⟩
      | rebind asSlot => trivial
    · obtain rfl := Option.some.inj h
      refine I.move rfl rfl rfl ?_
      cases t with
      | stream c group => exact ⟨hpc.config, hpc.bound⟩
      | rebind asSlot => trivial
    · obtain rfl := Option.some.inj h
      exact I.move rfl rfl rfl (pcOk_failed _ _ _)
  | publish c group =>
    simp only [drive] at h
    split at h
    · obtain rfl := Option.some.inj h
      exact I.move rfl rfl rfl (pcOk_failed _ _ _)
    · rename_i fw hpub
      obtain rfl := Option.some.inj h
      refine ⟨fun slot hslot => ?_, trivial⟩
      obtain rfl := Option.some.inj hslot
      exact ⟨(publish_keeps hpub).1.trans hpc.config, hpc.bound⟩
  | wakeRead c group =>
    simp only [drive] at h
    split at h
    · obtain rfl := Option.some.inj h
      exact I.move rfl rfl rfl trivial
    · obtain rfl := Option.some.inj h
      exact I.move rfl rfl rfl trivial
  | wake c group ack =>
    obtain rfl := Option.some.inj h
    exact I.move rfl rfl rfl trivial
  | wakeWait c group n =>
    simp only [drive] at h
    split at h
    · obtain rfl := Option.some.inj h
      exact I.move rfl rfl rfl trivial
    · obtain rfl := Option.some.inj h
      exact I.move rfl rfl rfl trivial
  | jobWait c group n =>
    cases n with
    | zero =>
      obtain rfl := Option.some.inj h
      exact I.move rfl rfl rfl (pcOk_failed _ _ _)
    | succ n =>
      obtain rfl := Option.some.inj h
      refine I.move rfl rfl rfl ?_
      dsimp only
      split <;> trivial

/-- A submit is turned away, or begins to rebind the group. -/
def Submitted (s t : State) : Prop :=
  s.pc = .idle ∧ (t = s ∨ ∃ task : Task, task.asSlot < asSlotMax ∧
    t = { s with pc := submitStreamCall s.fw task })

theorem submitNopJob_cases {timeoutMs : ℕ} (h : step s (.submitNopJob timeoutMs) = some t) :
    Submitted s t := by
  simp only [step] at h
  split at h
  · cases h
  · rename_i hidle
    refine ⟨not_not.mp hidle, ?_⟩
    split at h
    · exact .inl (Option.some.inj h).symm
    · exact .inr ⟨.stream (nopCall timeoutMs) false, show bringupAs < asSlotMax by decide,
        (Option.some.inj h).symm⟩

theorem submitGroupStream_cases {c : StreamCall} (h : step s (.submitGroupStream c) = some t) :
    Submitted s t := by
  simp only [step] at h
  split at h
  · cases h
  · rename_i hidle
    refine ⟨not_not.mp hidle, ?_⟩
    split at h
    · exact .inl (Option.some.inj h).symm
    · rename_i hvalid
      simp only [Bool.or_eq_true, decide_eq_true_eq, not_or] at hvalid
      exact .inr ⟨.stream c true, Nat.lt_of_not_ge hvalid.1.1.2, (Option.some.inj h).symm⟩

theorem Submitted.inv (h : Submitted s t) (I : Inv s) : Inv t := by
  obtain ⟨-, rfl | ⟨task, hslot, rfl⟩⟩ := h
  · exact I
  · exact I.move rfl rfl rfl (pcOk_submit _ _ hslot)

theorem step_inv {l : Label} (I : Inv s) (hg : guard s l) (h : step s l = some t) : Inv t := by
  cases l with
  | submitNopJob timeoutMs => exact (submitNopJob_cases h).inv I
  | submitGroupStream c => exact (submitGroupStream_cases h).inv I
  | drive => exact drive_inv I hg h
  | act =>
    obtain rfl := Option.some.inj h
    exact ⟨fun slot hslot => act_toward (I.trampoline slot hslot),
      PcOk.keep (s := s) I.pc rfl fun _ => act_toward⟩
  | status events endpoints =>
    obtain rfl := Option.some.inj h
    exact I.frame rfl rfl rfl rfl
  | consume bytes =>
    simp only [step] at h
    split at h
    · obtain rfl := Option.some.inj h
      exact I.frame rfl rfl rfl rfl
    · cases h
  | signal =>
    obtain rfl := Option.some.inj h
    exact I.frame rfl rfl rfl rfl

end Steps

theorem bootstrapped_inv (n m : Word) (sb endpoints : ℕ) : Inv (bootstrapped n m sb endpoints) :=
  ⟨fun _ hslot => absurd hslot (by simp [bootstrapped]), trivial⟩

theorem Inv.in_space {s : State} {ls : List Label} (I : Inv s) (hg : Guarded step guard s ls) :
    Always step (fun _ _ t => RightSpace t) s ls := by
  refine always_of_guarded (fun s l t => step_inv) ?_ I hg
  intro s l t I hl h slot hslot
  exact ((step_inv I hl h).trampoline slot hslot).addressSpace

/-- Over any run: while a trampoline is in the ring, the group is in its address space or will
be started there, provided that no submit asks for START before the firmware has stopped the
group of another address space. -/
theorem trampoline_in_space (n m : Word) (sb endpoints : ℕ) (ls : List Label)
    (hg : Guarded step guard (bootstrapped n m sb endpoints) ls) :
    Always step (fun _ _ t => RightSpace t) (bootstrapped n m sb endpoints) ls :=
  (bootstrapped_inv n m sb endpoints).in_space hg

/-- Two address spaces in turn. The second TERMINATE is seen at the second poll. -/
theorem two_spaces_in_turn :
    Always step (fun _ _ t => RightSpace t) (bootstrapped 96 4 8 1)
      [.submitGroupStream (groupCall 2), .drive, .act, .drive, .drive, .drive, .drive, .act,
        .drive, .drive, .drive, .consume 128, .signal, .drive,
        .submitGroupStream (groupCall 3), .drive, .drive, .act, .drive, .drive, .drive, .drive,
        .act, .drive, .drive, .drive, .consume 128, .signal, .drive] :=
  trampoline_in_space 96 4 8 1 _ (by decide +kernel)

/-- TERMINATE is not looked at in time and START takes its place: the firmware mirrors START
without a look at `Config`, and the stream for slot 2 goes to a group in slot 1. -/
theorem terminate_overwritten : ∃ t,
    exec step (bootstrapped 96 4 8 1)
      ([.submitGroupStream (groupCall 2), .drive] ++
        List.replicate (terminateTimeoutMs + 1) .drive ++
        [.drive, .drive, .drive, .act, .drive, .drive]) = some t ∧
      t.trampoline = some 2 ∧ t.bound = some 1 ∧ ¬RightSpace t := by
  have hrun : (exec step (bootstrapped 96 4 8 1)
      ([.submitGroupStream (groupCall 2), .drive] ++
        List.replicate (terminateTimeoutMs + 1) .drive ++
        [.drive, .drive, .drive, .act, .drive, .drive])).map (fun t => (t.trampoline, t.bound)) =
      some (some 2, some 1) := by
    decide +kernel
  obtain ⟨t, ht, hpair⟩ := Option.map_eq_some_iff.mp hrun
  obtain ⟨htramp, hbound⟩ := Prod.mk.inj hpair
  refine ⟨t, ht, htramp, hbound, fun hright => ?_⟩
  have hspace := hright 2 htramp
  simp [addressSpace, hbound] at hspace

/-- No wait for TERMINATE or START runs out. -/
def timely (s : State) : Label → Prop
  | .drive =>
    match s.pc with
    | .terminateWait _ n => n ≠ 0
    | .startWait _ n => n ≠ 0
    | _ => True
  | _ => True

section Answers

variable {s s' t : State} {w : ℕ}

theorem updateReqs_and_mask (req val mask : BitVec w) :
    ((req &&& ~~~mask) ||| (val &&& mask)) &&& mask = val &&& mask := by
  ext i
  simp
  grind

/-- Two words merged under a mask, read under another one. -/
theorem merge_and {m e : BitVec w} (h : e &&& m = 0) (a b : BitVec w) :
    ((a &&& e) ||| (b &&& ~~~e)) &&& m = b &&& m := by
  ext i hi
  have hbit : (e &&& m)[i] = false := by simp [h]
  simp at hbit ⊢
  grind

def Stopped (s : State) : Prop := s.req &&& csgStateMask = csgStateTerminate ∧ s.bound = none

/-- `CsgStarted` is FALSE only while a rebind is under way, and the group is stopped then. -/
def AnsweredPc (s : State) : Pc → Prop
  | .terminateWait _ _ => s.req &&& csgStateMask = csgStateTerminate
  | .program _ => Stopped s
  | .readAck _ => Stopped s
  | .start _ _ => Stopped s
  | .startWait _ _ => True
  | _ => s.fw.csgStarted = true

structure Answered (s : State) : Prop where
  ready : submitFlags s.fw = true ∧ s.fw.csg0 = true
  stopped : s.ack &&& csgStateMask = csgStateTerminate → s.bound = none
  pc : AnsweredPc s s.pc

theorem answered_rebind (h : s.fw.csgStarted = true) (hcsg : s.fw.csg0 = true) (t : Task)
    {ok failed : Pc} (hok : AnsweredPc s ok) : AnsweredPc s (rebindCsgAs s.fw t ok failed) := by
  unfold rebindCsgAs
  split
  · exact hok
  · simp only [hcsg, Bool.not_true, Bool.false_eq_true, if_false]
    exact h

theorem answered_failed (h : s.fw.csgStarted = true) (hcsg : s.fw.csg0 = true) (t : Task) :
    AnsweredPc s (t.failed s.fw) := by
  match t with
  | .stream _ true => exact answered_rebind h hcsg _ h
  | .stream _ false => exact h
  | .rebind _ => exact h

theorem answered_submit (h : s.fw.csgStarted = true) (hready : submitFlags s.fw = true)
    (hcsg : s.fw.csg0 = true) (t : Task) : AnsweredPc s (submitStreamCall s.fw t) := by
  unfold submitStreamCall
  rw [hready]
  refine answered_rebind h hcsg t ?_
  cases t <;> exact h

/-- The driver moves on and the firmware does not. -/
theorem Answered.move (A : Answered s) (hflags : submitFlags s'.fw = submitFlags s.fw)
    (hcsg : s'.fw.csg0 = s.fw.csg0) (hack : s'.ack = s.ack) (hbound : s'.bound = s.bound)
    (hpc : AnsweredPc s' s'.pc) : Answered s' := by
  refine ⟨by rw [hflags, hcsg]; exact A.ready, ?_, hpc⟩
  rw [hack, hbound]
  exact A.stopped

theorem Submitted.answered (h : Submitted s t) (A : Answered s) : Answered t := by
  obtain ⟨hidle, rfl | ⟨task, -, rfl⟩⟩ := h
  · exact A
  · have hstarted := A.pc
    rw [hidle] at hstarted
    exact A.move rfl rfl rfl rfl (answered_submit hstarted A.ready.1 A.ready.2 task)

/-- The firmware mirrors TERMINATE only when it stops the group. -/
theorem act_answered (A : Answered s) : Answered (act s) := by
  have hstop : s.req &&& csgStateMask = csgStateTerminate → (act s).bound = none := by
    intro hreq
    simp only [act, hreq]
    rfl
  refine ⟨A.ready, fun hack => hstop ?_, ?_⟩
  · rw [← hack]
    exact (merge_and (by decide) s.ack s.req).symm
  · have hpc := A.pc
    show AnsweredPc (act s) s.pc
    generalize s.pc = pc at hpc
    cases pc with
    | program t => exact ⟨hpc.1, hstop hpc.1⟩
    | readAck t => exact ⟨hpc.1, hstop hpc.1⟩
    | start t csgAck => exact ⟨hpc.1, hstop hpc.1⟩
    | _ => exact hpc

theorem acked_iff (s : State) (mask : BitVec 32) :
    acked s mask = true ↔ s.ack &&& mask = s.req &&& mask := by
  simp [acked]

theorem drive_answered (A : Answered s) (hg : timely s .drive) (h : drive s s.pc = some t) :
    Answered t := by
  have hpc := A.pc
  have hcsg := A.ready.2
  simp only [timely] at hg
  generalize s.pc = pc at h hpc hg
  cases pc with
  | idle => cases h
  | terminate t =>
    obtain rfl := Option.some.inj h
    exact A.move rfl rfl rfl rfl (updateReqs_and_mask ..)
  | terminateWait t n =>
    cases n with
    | zero => exact absurd rfl hg
    | succ n =>
      cases hacked : acked s csgStateMask with
      | false =>
        simp only [drive, hacked] at h
        obtain rfl := Option.some.inj h
        exact A.move rfl rfl rfl rfl hpc
      | true =>
        simp only [drive, hacked] at h
        obtain rfl := Option.some.inj h
        have hstate := ((acked_iff s csgStateMask).mp hacked).trans hpc
        exact A.move rfl rfl rfl rfl ⟨hpc, A.stopped hstate⟩
  | program t =>
    simp only [drive] at h
    split at h
    · rename_i hmissing
      have hready := A.ready
      simp only [submitFlags, Bool.and_eq_true] at hready
      simp [hready.2, hready.1.2, hready.1.1.2] at hmissing
    · obtain rfl := Option.some.inj h
      exact A.move rfl rfl rfl rfl hpc
  | readAck t =>
    obtain rfl := Option.some.inj h
    exact A.move rfl rfl rfl rfl hpc
  | start t csgAck =>
    obtain rfl := Option.some.inj h
    exact A.move rfl rfl rfl rfl trivial
  | startWait t n =>
    simp only [drive] at h
    split at h
    · obtain rfl := Option.some.inj h
      refine A.move rfl rfl rfl rfl ?_
      cases t <;> rfl
    · obtain rfl := Option.some.inj h
      exact A.move rfl rfl rfl rfl trivial
    · exact absurd rfl hg
  | publish c group =>
    simp only [drive] at h
    split at h
    · obtain rfl := Option.some.inj h
      exact A.move rfl rfl rfl rfl (answered_failed hpc hcsg _)
    · rename_i fw hpub
      obtain ⟨-, hflags, hcsg', hstarted⟩ := publish_keeps hpub
      obtain rfl := Option.some.inj h
      exact A.move hflags hcsg' rfl rfl (hstarted.trans hpc)
  | wakeRead c group =>
    simp only [drive] at h
    split at h
    · obtain rfl := Option.some.inj h
      exact A.move rfl rfl rfl rfl hpc
    · obtain rfl := Option.some.inj h
      exact A.move rfl rfl rfl rfl hpc
  | wake c group ack =>
    obtain rfl := Option.some.inj h
    exact A.move rfl rfl rfl rfl hpc
  | wakeWait c group n =>
    simp only [drive] at h
    split at h
    · obtain rfl := Option.some.inj h
      exact A.move rfl rfl rfl rfl hpc
    · obtain rfl := Option.some.inj h
      exact A.move rfl rfl rfl rfl hpc
  | jobWait c group n =>
    cases n with
    | zero =>
      obtain rfl := Option.some.inj h
      exact A.move rfl rfl rfl rfl (answered_failed hpc hcsg _)
    | succ n =>
      obtain rfl := Option.some.inj h
      refine A.move rfl rfl rfl rfl ?_
      dsimp only
      split <;> exact hpc

theorem step_answered {l : Label} (A : Answered s) (hg : timely s l) (h : step s l = some t) :
    Answered t := by
  cases l with
  | submitNopJob timeoutMs => exact (submitNopJob_cases h).answered A
  | submitGroupStream c => exact (submitGroupStream_cases h).answered A
  | drive => exact drive_answered A hg h
  | act =>
    obtain rfl := Option.some.inj h
    exact act_answered A
  | status events endpoints =>
    obtain rfl := Option.some.inj h
    refine ⟨A.ready, fun hstate => A.stopped ?_, A.pc⟩
    rw [← hstate, BitVec.or_comm]
    exact (merge_and (by decide) events s.ack).symm
  | consume bytes =>
    simp only [step] at h
    split at h
    · obtain rfl := Option.some.inj h
      exact A.move rfl rfl rfl rfl A.pc
    · cases h
  | signal =>
    obtain rfl := Option.some.inj h
    exact A.move rfl rfl rfl rfl A.pc

theorem guard_of_answered {l : Label} (A : Answered s) : guard s l := by
  have hpc := A.pc
  cases l with
  | drive =>
    simp only [guard]
    generalize s.pc = pc at hpc
    match pc, hpc with
    | .start (.stream c group) ack, hpc => simp [hpc.2]
    | .start (.rebind asSlot) ack, _ => trivial
    | .idle, _ | .terminate _, _ | .terminateWait _ _, _ | .program _, _ | .readAck _, _
    | .startWait _ _, _ | .publish _ _, _ | .wakeRead _ _, _ | .wake _ _ _, _
    | .wakeWait _ _ _, _ | .jobWait _ _ _, _ => trivial
  | _ => trivial

end Answers

theorem bootstrapped_answered (n m : Word) (sb endpoints : ℕ) :
    Answered (bootstrapped n m sb endpoints) := by
  refine ⟨⟨rfl, rfl⟩, fun hstate => ?_, rfl⟩
  simp [bootstrapped, csgStateStart, csgEndpointConfig, csgStateMask, csgStateTerminate] at hstate

/-- The trampolines are in their address space in every run whose rebinds are answered in
time. -/
theorem answered_in_space (n m : Word) (sb endpoints : ℕ) (ls : List Label)
    (hg : Guarded step timely (bootstrapped n m sb endpoints) ls) :
    Always step (fun _ _ t => RightSpace t) (bootstrapped n m sb endpoints) ls := by
  refine (bootstrapped_inv n m sb endpoints).in_space ?_
  exact hg.imp (fun s l t => step_answered) (fun s l A _ => guard_of_answered A)
    (bootstrapped_answered n m sb endpoints)

end WinMali.LateFirmware
