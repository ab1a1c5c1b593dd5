import Mathlib.Data.BitVec
import WinMaliKmd.Runs

/-!
# Waiting on a timeline sync object

The signal and the single-handle wait of `WinMaliSync.c` on one object. Every
call is a thread and one step is one locked section or one call on the event.
The event is a notification event: setting it readies every blocked thread and
it stays set until a waiter clears it.
-/

set_option autoImplicit false

namespace WinMali.SyncWait
open WinMali.Runs

def wmerrOk : ℤ := 0

def wmerrEinval : ℤ := -22

def wmerrEtimedout : ℤ := -110

def syncObjFlagTimeline : BitVec 32 := 1

/-- The relative time in units of 100 ns, or none to wait forever. -/
def makeTimeout (timeoutNs : ℤ) : Option ℤ :=
  if timeoutNs = 0 then some 0
  else if timeoutNs < 0 then none
  else if timeoutNs / 100 = 0 then some (-1) else some (-(timeoutNs / 100))

structure Waiter where
  target : ℕ
  timeout : Option ℤ
deriving DecidableEq, Repr

inductive Pc
  | check (w : Waiter)
  | clear (w : Waiter)
  | recheck (w : Waiter)
  | wait (w : Waiter)
  | blocked (w : Waiter)
  | signal (point : ℕ)
  | setEvent
  | returned (err : ℤ)
deriving DecidableEq, Repr

/-- The object, and the threads that have a reference to it. -/
structure State where
  isTimeline : Bool
  timelineValue : ℕ
  event : Bool
  threads : List Pc
deriving DecidableEq, Repr

def syncObjCreate (flags initialState : BitVec 32) : State where
  isTimeline := flags &&& syncObjFlagTimeline != 0
  timelineValue := if initialState ≠ 0 then 1 else 0
  event := initialState != 0
  threads := []

def State.goto (s : State) (i : ℕ) (pc : Pc) : State := { s with threads := s.threads.set i pc }

/-- Where a thread goes on when its wait is satisfied. -/
def resume (isTimeline : Bool) (w : Waiter) : Pc :=
  if isTimeline then .check w else .returned wmerrOk

def wake (isTimeline : Bool) : Pc → Pc
  | .blocked w => resume isTimeline w
  | pc => pc

def stepPc (s : State) (i : ℕ) : Pc → Option State
  | .check w =>
    some (s.goto i (if w.target ≤ s.timelineValue then .returned wmerrOk else .clear w))
  | .clear w => some ({ s with event := false }.goto i (.recheck w))
  | .recheck w =>
    some (s.goto i (if w.target ≤ s.timelineValue then .returned wmerrOk else .wait w))
  | .wait w =>
    some (s.goto i
      (if s.event then resume s.isTimeline w
      else if w.timeout = some 0 then .returned wmerrEtimedout
      else .blocked w))
  | .signal point =>
    some ({ s with timelineValue :=
        if s.isTimeline then if point > s.timelineValue then point else s.timelineValue
        else 1 }.goto i .setEvent)
  | .setEvent =>
    some ({ s with event := true, threads := s.threads.map (wake s.isTimeline) }.goto i
      (.returned wmerrOk))
  | .blocked _ => none
  | .returned _ => none

/-- The ways a blocked wait ends without the event. -/
inductive WaitStatus
  | timeout
  | failed
deriving DecidableEq, Repr

def WaitStatus.err : WaitStatus → ℤ
  | .timeout => wmerrEtimedout
  | .failed => wmerrEinval

inductive Label
  | syncObjWait (point : ℕ) (timeoutNs : ℤ)
  | syncObjSignal (point : ℕ)
  | run (i : ℕ)
  | ends (i : ℕ) (st : WaitStatus)
deriving DecidableEq, Repr

def step (s : State) : Label → Option State
  | .syncObjWait point timeoutNs =>
    let w : Waiter := ⟨point, makeTimeout timeoutNs⟩
    some { s with threads := s.threads ++ [if s.isTimeline then .check w else .wait w] }
  | .syncObjSignal point => some { s with threads := s.threads ++ [.signal point] }
  | .run i => (s.threads[i]?).bind (stepPc s i)
  | .ends i st =>
    match s.threads[i]? with
    | some (.blocked w) =>
      if st = .timeout ∧ w.timeout = none then none else some (s.goto i (.returned st.err))
    | _ => none

/-- The thread is past its second check, its target is reached and its wait would block. -/
def AboutToBlock (value : ℕ) : Pc → Prop
  | .wait w => w.timeout ≠ some 0 ∧ w.target ≤ value
  | _ => False

/-- The thread is blocked although its target is reached. -/
def Overslept (value : ℕ) : Pc → Prop
  | .blocked w => w.target ≤ value
  | _ => False

/-- No thread is blocked on the unsignalled event with its target reached, unless a signaler is
between its update and its `KeSetEvent`. -/
def NoLostWakeup (s : State) : Prop :=
  ∀ pc ∈ s.threads, Overslept s.timelineValue pc → s.event = false → .setEvent ∈ s.threads

def Pc.isClear : Pc → Bool
  | .clear _ => true
  | _ => false

/-- A `KeClearEvent` finds no thread that still needs the signal it erases. -/
def guard (s : State) : Label → Prop
  | .run i => (s.threads[i]?).any Pc.isClear = true →
    ∀ pc ∈ s.threads, AboutToBlock s.timelineValue pc → .setEvent ∈ s.threads
  | _ => True

instance (value : ℕ) : (pc : Pc) → Decidable (AboutToBlock value pc)
  | .wait w => inferInstanceAs (Decidable (w.timeout ≠ some 0 ∧ w.target ≤ value))
  | .check _ | .clear _ | .recheck _ | .blocked _ | .signal _ | .setEvent | .returned _ =>
    isFalse id

instance (value : ℕ) : (pc : Pc) → Decidable (Overslept value pc)
  | .blocked w => inferInstanceAs (Decidable (w.target ≤ value))
  | .check _ | .clear _ | .recheck _ | .wait _ | .signal _ | .setEvent | .returned _ =>
    isFalse id

instance (s : State) : Decidable (NoLostWakeup s) :=
  inferInstanceAs (Decidable (∀ pc ∈ s.threads, _))

instance (s : State) : (l : Label) → Decidable (guard s l)
  | .run i => inferInstanceAs (Decidable ((s.threads[i]?).any Pc.isClear = true → _))
  | .syncObjWait _ _ | .syncObjSignal _ | .ends _ _ => isTrue trivial

/-- A thread that needs a signal has one, in the event or on its way. -/
structure Inv (s : State) : Prop where
  timeline : s.isTimeline = true
  about : ∀ pc ∈ s.threads, AboutToBlock s.timelineValue pc →
    s.event = true ∨ .setEvent ∈ s.threads
  asleep : ∀ pc ∈ s.threads, Overslept s.timelineValue pc → .setEvent ∈ s.threads

theorem Inv.noLostWakeup {s : State} (h : Inv s) : NoLostWakeup s :=
  fun pc hpc hover _ => h.asleep pc hpc hover

section Threads

variable {l : List Pc} {i : ℕ} {p q pc : Pc}

/-- A thread that is not the signaler moves on: the signaler stays. -/
theorem setEvent_mem_set (h : l[i]? = some p) (hp : p ≠ .setEvent) (hm : .setEvent ∈ l) :
    .setEvent ∈ l.set i q := by
  obtain ⟨j, hj⟩ := List.mem_iff_getElem?.mp hm
  refine List.mem_iff_getElem?.mpr ⟨j, ?_⟩
  have hij : i ≠ j := by
    rintro rfl
    exact hp (Option.some.inj (h.symm.trans hj))
  rwa [List.getElem?_set_ne hij]

theorem mem_of_set (h : l[i]? = some p) : q ∈ l.set i q :=
  List.mem_of_getElem? (by rw [List.getElem?_set_self' , h]; rfl)

theorem wake_not_overslept (value : ℕ) (pc : Pc) : ¬Overslept value (wake true pc) := by
  cases pc <;> simp [wake, resume, Overslept]

end Threads

theorem syncObjCreate_inv (flags initialState : BitVec 32)
    (h : (syncObjCreate flags initialState).isTimeline = true) :
    Inv (syncObjCreate flags initialState) :=
  ⟨h, by simp [syncObjCreate], by simp [syncObjCreate]⟩

/-- A step that changes neither the counter nor the event, to a place that needs no signal or
comes with the reason why it needs none. -/
theorem Inv.goto {s : State} {i : ℕ} {p q : Pc} (h : Inv s) (hp : s.threads[i]? = some p)
    (hne : p ≠ .setEvent) (ha : AboutToBlock s.timelineValue q → s.event = true)
    (ho : Overslept s.timelineValue q → .setEvent ∈ s.threads) : Inv (s.goto i q) := by
  refine ⟨h.timeline, fun pc hpc hneed => ?_, fun pc hpc hover => ?_⟩
  · rcases List.mem_or_eq_of_mem_set hpc with hpc | rfl
    · exact (h.about pc hpc hneed).imp_right (setEvent_mem_set hp hne)
    · exact .inl (ha hneed)
  · rcases List.mem_or_eq_of_mem_set hpc with hpc | rfl
    · exact setEvent_mem_set hp hne (h.asleep pc hpc hover)
    · exact setEvent_mem_set hp hne (ho hover)

theorem Inv.stepPc {s t : State} {i : ℕ} {p : Pc} (h : Inv s) (hp : s.threads[i]? = some p)
    (hg : guard s (.run i)) (hs : stepPc s i p = some t) : Inv t := by
  cases p with
  | check w =>
    obtain rfl := Option.some.inj hs
    refine h.goto hp nofun ?_ ?_ <;> split <;> exact False.elim
  | clear w =>
    obtain rfl := Option.some.inj hs
    have hneed := hg (by simp [hp, Pc.isClear])
    -- what relied on the event relies on a signaler now
    have hclear : Inv { s with event := false } :=
      ⟨h.timeline, fun pc hpc ha => .inr (hneed pc hpc ha), h.asleep⟩
    exact hclear.goto hp nofun False.elim False.elim
  | recheck w =>
    obtain rfl := Option.some.inj hs
    refine h.goto hp nofun ?_ ?_ <;> split
    · exact False.elim
    · rename_i hlt
      exact fun ha => absurd ha.2 hlt
    · exact False.elim
    · exact False.elim
  | wait w =>
    obtain rfl := Option.some.inj hs
    have hw : Pc.wait w ∈ s.threads := List.mem_of_getElem? hp
    refine h.goto hp nofun ?_ ?_ <;> split
    · simp [resume, h.timeline, AboutToBlock]
    · split <;> exact False.elim
    · simp [resume, h.timeline, Overslept]
    · rename_i hev
      split
      · exact False.elim
      · rename_i hpoll
        exact fun hover => (h.about _ hw ⟨hpoll, hover⟩).resolve_left hev
  | signal point =>
    obtain rfl := Option.some.inj hs
    -- from here on this thread is the pending signaler
    have hself := mem_of_set (q := .setEvent) hp
    exact ⟨h.timeline, fun _ _ _ => .inr hself, fun _ _ _ => hself⟩
  | setEvent =>
    obtain rfl := Option.some.inj hs
    refine ⟨h.timeline, fun _ _ _ => .inl rfl, fun pc hpc hover => ?_⟩
    rcases List.mem_or_eq_of_mem_set hpc with hpc | rfl
    · obtain ⟨q, -, rfl⟩ := List.mem_map.mp hpc
      rw [h.timeline] at hover
      exact absurd hover (wake_not_overslept _ q)
    · exact hover.elim
  | blocked w => cases hs
  | returned err => cases hs

theorem Inv.append {s : State} {pc : Pc} (h : Inv s) (ha : ¬AboutToBlock s.timelineValue pc)
    (ho : ¬Overslept s.timelineValue pc) : Inv { s with threads := s.threads ++ [pc] } := by
  refine ⟨h.timeline, fun q hq hneed => ?_, fun q hq hover => ?_⟩
  · rcases List.mem_append.mp hq with hq | hq
    · exact (h.about q hq hneed).imp_right (List.mem_append_left [pc])
    · exact absurd hneed (List.mem_singleton.mp hq ▸ ha)
  · rcases List.mem_append.mp hq with hq | hq
    · exact List.mem_append_left _ (h.asleep q hq hover)
    · exact absurd hover (List.mem_singleton.mp hq ▸ ho)

theorem step_inv (s : State) (l : Label) (t : State) (h : Inv s) (hg : guard s l)
    (hs : step s l = some t) : Inv t := by
  cases l with
  | syncObjWait point timeoutNs =>
    obtain rfl := Option.some.inj hs
    rw [if_pos h.timeline]
    exact h.append id id
  | syncObjSignal point =>
    obtain rfl := Option.some.inj hs
    exact h.append id id
  | run i =>
    obtain ⟨p, hp, hs⟩ := Option.bind_eq_some_iff.mp hs
    exact h.stepPc hp hg hs
  | ends i st =>
    simp only [step] at hs
    split at hs
    · rename_i w hp
      split at hs
      · cases hs
      · obtain rfl := Option.some.inj hs
        exact h.goto hp nofun False.elim False.elim
    · cases hs

theorem no_lost_wakeup (flags initialState : BitVec 32) (ls : List Label) (s : State)
    (htimeline : (syncObjCreate flags initialState).isTimeline = true)
    (hg : Guarded step guard (syncObjCreate flags initialState) ls)
    (hs : exec step (syncObjCreate flags initialState) ls = some s) : NoLostWakeup s :=
  (exec_invariant step_inv (syncObjCreate_inv flags initialState htimeline) hg hs).noLostWakeup

/-- The first waiter blocks and is woken, the second finds its target reached. -/
def bothWake : List Label :=
  [.syncObjWait 1 (-1), .syncObjSignal 1, .run 0, .run 0, .run 0, .run 0, .run 1, .run 1,
    .syncObjWait 1 0, .run 0, .run 2]

theorem waiters_wake : ∃ s, exec step (syncObjCreate 1 0) bothWake = some s ∧
    s.threads = [.returned 0, .returned 0, .returned 0] ∧ NoLostWakeup s :=
  ⟨_, rfl, by decide, no_lost_wakeup 1 0 bothWake _ rfl (by decide) rfl⟩

/-- The second waiter has read the counter before the signal and clears the event after it. -/
def secondClear : List Label :=
  [.syncObjWait 1 (-1), .syncObjWait 1 (-1), .syncObjSignal 1, .run 0, .run 0, .run 0, .run 1,
    .run 2, .run 2, .run 1, .run 0]

theorem second_clear_erases_signal :
    ∃ s, exec step (syncObjCreate 1 0) secondClear = some s ∧ ¬NoLostWakeup s :=
  ⟨⟨true, 1, false, [.blocked ⟨1, none⟩, .recheck ⟨1, none⟩, .returned 0]⟩, by decide, by decide⟩

theorem stepPc_blocks {s : State} {i : ℕ} {w : Waiter} (hev : s.event = false)
    (hpoll : w.timeout ≠ some 0) : stepPc s i (.wait w) = some (s.goto i (.blocked w)) := by
  simp [stepPc, hev, hpoll]

/-- A clear outside the condition is one step away from a lost wakeup. -/
theorem clear_loses_signal {s t : State} {i : ℕ} (hs : step s (.run i) = some t)
    (hg : ¬guard s (.run i)) : ∃ j u, step t (.run j) = some u ∧ ¬NoLostWakeup u := by
  obtain ⟨p, hp, hs⟩ := Option.bind_eq_some_iff.mp hs
  simp only [guard, hp, Option.any_some, not_forall] at hg
  obtain ⟨hclear, pc, hpc, hneed, hpending⟩ := hg
  cases p with
  | clear w =>
    obtain rfl := Option.some.inj hs
    cases pc with
    | wait u =>
      obtain ⟨j, hj⟩ := List.mem_iff_getElem?.mp hpc
      have hij : i ≠ j := by
        rintro rfl
        simp [hp] at hj
      have hj' : ({ s with event := false }.goto i (.recheck w)).threads[j]? = some (.wait u) := by
        rwa [State.goto, List.getElem?_set_ne hij]
      refine ⟨j, _, Option.bind_eq_some_iff.mpr ⟨_, hj', stepPc_blocks rfl hneed.1⟩, fun hall => ?_⟩
      have hlost := hall _ (mem_of_set hj') hneed.2 rfl
      rcases List.mem_or_eq_of_mem_set hlost with hlost | hlost
      · rcases List.mem_or_eq_of_mem_set hlost with hlost | hlost
        · exact hpending hlost
        · cases hlost
      · cases hlost
    | _ => exact hneed.elim
  | _ => cases hclear

end WinMali.SyncWait
