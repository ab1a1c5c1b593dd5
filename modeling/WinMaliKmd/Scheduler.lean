import WinMaliKmd.FifoRing
import WinMaliKmd.Runs

/-!
# The submit scheduler

The fence path of `WinMaliDdi.c` and the DPC of `WinMaliDriver.c`: a ring of
submits, a worker, a ring of completed fences, and the calls that come in from
the graphics kernel. Every call is a thread, one step is one locked section or
one interlocked access, and thread 0 is the worker. The command stream job that
precedes a completion touches none of this state. `DxgkCbQueueDpc` has no
effect either, since a DPC may start at any time.
-/

set_option autoImplicit false

namespace WinMali.Scheduler
open WinMali.FifoRing

def submitQueueDepth : ℕ := 64

def fenceQueueDepth : ℕ := 64

structure SubmitEntry where
  fenceId : ℕ
  nodeOrdinal : ℕ
  engineOrdinal : ℕ
  isPreempt : Bool
deriving DecidableEq, Repr

structure FenceEntry where
  submissionFenceId : ℕ
  nodeOrdinal : ℕ
  engineOrdinal : ℕ
  isPreempt : Bool
  lastCompletedFenceId : ℕ
deriving DecidableEq, Repr

/-- The loops that complete fences, and what each does after one. -/
inductive Cont
  | worker
  | reset
  | inline
deriving DecidableEq, Repr

inductive Pc
  | wait
  | testStop
  | dequeue (k : Cont)
  | exchange (e : SubmitEntry) (k : Cont)
  | readLast (e : SubmitEntry) (k : Cont)
  | push (f : FenceEntry) (k : Cont)
  | exited
  | enqueue (e : SubmitEntry)
  | insert (e : SubmitEntry)
  | signal
  | dpcDequeue
  | dpcNotify (f : FenceEntry)
  | dpcStore (f : FenceEntry)
  | stopSet
  | stopSignal
  | join
  | clearThread
  | done
deriving DecidableEq, Repr

/-- `accepted` lists the fences of all submit calls so far and `notified` what the graphics
kernel was told; the driver keeps neither. -/
structure State where
  submitQueue : Ring SubmitEntry submitQueueDepth
  fenceQueue : Ring FenceEntry fenceQueueDepth
  submitWorkerThread : Bool
  submitWorkerStop : Bool
  submitWorkerWake : Bool
  schedLastCompletedFence : ℕ
  gpuSubmittedFence : ℕ
  gpuCompletedFence : ℕ
  threads : List Pc
  accepted : List ℕ
  notified : List FenceEntry

def State.goto (s : State) (i : ℕ) (pc : Pc) : State := { s with threads := s.threads.set i pc }

def State.spawn (s : State) (pc : Pc) : State := { s with threads := s.threads ++ [pc] }

def Cont.next : Cont → Pc
  | .worker => .dequeue .worker
  | .reset => .dequeue .reset
  | .inline => .done

def completed (e : SubmitEntry) : FenceEntry :=
  ⟨e.fenceId, e.nodeOrdinal, e.engineOrdinal, false, 0⟩

def preempted (e : SubmitEntry) (last : ℕ) : FenceEntry :=
  ⟨e.fenceId, e.nodeOrdinal, e.engineOrdinal, true, last⟩

/-- An entry that was not queued, or was taken from the queue. A reset drops the markers. -/
def handle (e : SubmitEntry) (k : Cont) : Pc :=
  if e.isPreempt then if k = .reset then .dequeue .reset else .readLast e k else .exchange e k

def stepPc (s : State) (i : ℕ) : Pc → Option State
  | .wait =>
    if s.submitWorkerWake then some ({ s with submitWorkerWake := false }.goto i .testStop)
    else none
  | .testStop => some (s.goto i (if s.submitWorkerStop then .exited else .dequeue .worker))
  | .dequeue k =>
    match s.submitQueue.pop with
    | none => some (s.goto i (if k = .worker then .wait else .done))
    | some (e, q) => some ({ s with submitQueue := q }.goto i (handle e k))
  | .readLast e k => some (s.goto i (.push (preempted e s.schedLastCompletedFence) k))
  | .exchange e k =>
    some ({ s with schedLastCompletedFence := e.fenceId }.goto i (.push (completed e) k))
  | .push f k =>
    some ({ s with fenceQueue := s.fenceQueue.pushDropOldest f }.goto i k.next)
  | .enqueue e =>
    -- the stop flag stays set once it is, so both reads can be taken together
    some (s.goto i
      (if !s.submitWorkerThread || s.submitWorkerStop then handle e .inline else .insert e))
  | .insert e =>
    match s.submitQueue.pushIfRoom e with
    | none => some (s.goto i (handle e .inline))
    | some q => some ({ s with submitQueue := q }.goto i .signal)
  | .signal => some ({ s with submitWorkerWake := true }.goto i .done)
  | .dpcDequeue =>
    match s.fenceQueue.pop with
    | none => some (s.goto i .done)
    | some (f, q) => some ({ s with fenceQueue := q }.goto i (.dpcNotify f))
  | .dpcNotify f =>
    some ({ s with notified := s.notified ++ [f] }.goto i
      (if f.isPreempt then .dpcDequeue else .dpcStore f))
  | .dpcStore f => some ({ s with gpuCompletedFence := f.submissionFenceId }.goto i .dpcDequeue)
  | .stopSet => some ({ s with submitWorkerStop := true }.goto i .stopSignal)
  | .stopSignal => some ({ s with submitWorkerWake := true }.goto i .join)
  | .join => if s.threads[0]? = some .exited then some (s.goto i .clearThread) else none
  | .clearThread => some ({ s with submitWorkerThread := false }.goto i .done)
  | .exited => none
  | .done => none

/-- `submit` is `SubmitCommand` and `SubmitCommandVirtual`, which handle a fence alike. -/
inductive Label
  | submit (fenceId nodeOrdinal engineOrdinal : ℕ)
  | preempt (fenceId nodeOrdinal engineOrdinal : ℕ)
  | reset
  | dpc
  | teardown
  | run (i : ℕ)
deriving DecidableEq, Repr

def step (s : State) : Label → Option State
  | .submit f n e =>
    some ({ s with gpuSubmittedFence := f, accepted := s.accepted ++ [f] }.spawn
      (.enqueue ⟨f, n, e, false⟩))
  | .preempt f n e => some (s.spawn (.enqueue ⟨f, n, e, true⟩))
  | .reset => some (s.spawn (.dequeue .reset))
  | .dpc => some (s.spawn .dpcDequeue)
  | .teardown => some (s.spawn (if s.submitWorkerThread then .stopSet else .done))
  | .run i => (s.threads[i]?).bind (stepPc s i)

/-- The ways `SchedInit` can end: no thread, a thread without a reference to it, both. -/
inductive InitOutcome
  | noThread
  | unreferenced
  | up
deriving DecidableEq, Repr

def schedInit (o : InitOutcome) : State where
  submitQueue := empty ⟨0, 0, 0, false⟩ (by decide)
  fenceQueue := empty ⟨0, 0, 0, false, 0⟩ (by decide)
  submitWorkerThread := o == .up
  submitWorkerStop := o == .unreferenced
  submitWorkerWake := o == .unreferenced
  schedLastCompletedFence := 0
  gpuSubmittedFence := 0
  gpuCompletedFence := 0
  threads := [if o = .noThread then .done else .wait]
  accepted := []
  notified := []

def submitFences (l : List SubmitEntry) : List ℕ :=
  (l.filter fun e => !e.isPreempt).map SubmitEntry.fenceId

def fences (l : List FenceEntry) : List ℕ :=
  (l.filter fun f => !f.isPreempt).map FenceEntry.submissionFenceId

section Fences

variable (l l' : List SubmitEntry) (m m' : List FenceEntry)

@[simp] theorem submitFences_nil : submitFences [] = [] := rfl

@[simp] theorem fences_nil : fences [] = [] := rfl

theorem submitFences_append : submitFences (l ++ l') = submitFences l ++ submitFences l' := by
  simp [submitFences]

theorem fences_append : fences (m ++ m') = fences m ++ fences m' := by
  simp [fences]

theorem submitFences_cons (e : SubmitEntry) :
    submitFences (e :: l) = (if e.isPreempt then [] else [e.fenceId]) ++ submitFences l := by
  cases h : e.isPreempt <;> simp [submitFences, h]

theorem fences_cons (f : FenceEntry) :
    fences (f :: m) = (if f.isPreempt then [] else [f.submissionFenceId]) ++ fences m := by
  cases h : f.isPreempt <;> simp [fences, h]

theorem submitFences_pop {q r : Ring SubmitEntry submitQueueDepth} {e : SubmitEntry}
    (h : q.pop = some (e, r)) :
    submitFences q.pending = submitFences [e] ++ submitFences r.pending := by
  rw [Ring.pop_some h, ← submitFences_append]
  rfl

end Fences

/-- The part of the queue of fences that a push keeps. -/
def kept (s : State) : List FenceEntry :=
  if s.fenceQueue.isFull then s.fenceQueue.pending.tail else s.fenceQueue.pending

theorem pending_push (s : State) (f : FenceEntry) :
    (s.fenceQueue.pushDropOldest f).pending = kept s ++ [f] :=
  Ring.pending_pushDropOldest s.fenceQueue f (by decide)

theorem handle_cases (e : SubmitEntry) (k : Cont) :
    (e.isPreempt = true ∧ (handle e k = .dequeue .reset ∨ handle e k = .readLast e k)) ∨
      (e.isPreempt = false ∧ handle e k = .exchange e k) := by
  cases hpre : e.isPreempt with
  | false => exact .inr ⟨rfl, by simp [handle, hpre]⟩
  | true =>
    refine .inl ⟨rfl, ?_⟩
    by_cases hk : k = .reset
    · exact .inl (by simp [handle, hpre, hk])
    · exact .inr (by simp [handle, hpre, hk])

/-- A step between two of these touches no entry. -/
def Pc.idle : Pc → Bool
  | .wait | .testStop | .dequeue _ | .signal | .dpcDequeue => true
  | .stopSet | .stopSignal | .join | .clearThread | .done => true
  | _ => false

/-- The states differ in the threads and the worker's flags only. -/
structure SameBooks (s t : State) : Prop where
  submitQueue : t.submitQueue = s.submitQueue
  fenceQueue : t.fenceQueue = s.fenceQueue
  schedLastCompletedFence : t.schedLastCompletedFence = s.schedLastCompletedFence
  gpuCompletedFence : t.gpuCompletedFence = s.gpuCompletedFence
  accepted : t.accepted = s.accepted
  notified : t.notified = s.notified

theorem sameBooks_goto (s : State) (i : ℕ) (pc : Pc) : SameBooks s (s.goto i pc) :=
  ⟨rfl, rfl, rfl, rfl, rfl, rfl⟩

/-- All that a turn of a thread can do. -/
inductive Turn (s : State) (i : ℕ) : Pc → State → Prop
  | idle {p q : Pc} {t : State} (hp : p.idle = true) (hq : q.idle = true)
      (hthreads : t.threads = s.threads.set i q) (same : SameBooks s t) : Turn s i p t
  | stop (hstop : s.submitWorkerStop = true) : Turn s i .testStop (s.goto i .exited)
  | take {e : SubmitEntry} {r : Ring SubmitEntry submitQueueDepth} (k : Cont)
      (hpop : s.submitQueue.pop = some (e, r)) :
      Turn s i (.dequeue k) ({ s with submitQueue := r }.goto i (handle e k))
  | readLast (e : SubmitEntry) (k : Cont) :
      Turn s i (.readLast e k) (s.goto i (.push (preempted e s.schedLastCompletedFence) k))
  | exchange (e : SubmitEntry) (k : Cont) : Turn s i (.exchange e k)
      ({ s with schedLastCompletedFence := e.fenceId }.goto i (.push (completed e) k))
  | push (f : FenceEntry) (k : Cont) : Turn s i (.push f k)
      ({ s with fenceQueue := s.fenceQueue.pushDropOldest f }.goto i k.next)
  | inline (e : SubmitEntry) : Turn s i (.enqueue e) (s.goto i (handle e .inline))
  | queue (e : SubmitEntry) : Turn s i (.enqueue e) (s.goto i (.insert e))
  | full (e : SubmitEntry) : Turn s i (.insert e) (s.goto i (handle e .inline))
  | insert {r : Ring SubmitEntry submitQueueDepth} (e : SubmitEntry)
      (hput : s.submitQueue.pushIfRoom e = some r) :
      Turn s i (.insert e) ({ s with submitQueue := r }.goto i .signal)
  | dpcTake {f : FenceEntry} {r : Ring FenceEntry fenceQueueDepth}
      (hpop : s.fenceQueue.pop = some (f, r)) :
      Turn s i .dpcDequeue ({ s with fenceQueue := r }.goto i (.dpcNotify f))
  | dpcNotify (f : FenceEntry) : Turn s i (.dpcNotify f)
      ({ s with notified := s.notified ++ [f] }.goto i
        (if f.isPreempt then .dpcDequeue else .dpcStore f))
  | dpcStore (f : FenceEntry) : Turn s i (.dpcStore f)
      ({ s with gpuCompletedFence := f.submissionFenceId }.goto i .dpcDequeue)

theorem turn_cases {s t : State} {i : ℕ} {p : Pc} (h : stepPc s i p = some t) :
    Turn s i p t := by
  cases p with
  | wait =>
    simp only [stepPc] at h
    split at h
    · obtain rfl := Option.some.inj h
      exact .idle rfl (q := .testStop) rfl rfl ⟨rfl, rfl, rfl, rfl, rfl, rfl⟩
    · cases h
  | testStop =>
    obtain rfl := Option.some.inj h
    cases hstop : s.submitWorkerStop with
    | true => exact .stop hstop
    | false => exact .idle rfl (q := .dequeue .worker) rfl rfl ⟨rfl, rfl, rfl, rfl, rfl, rfl⟩
  | dequeue k =>
    simp only [stepPc] at h
    cases hpop : s.submitQueue.pop with
    | none =>
      rw [hpop] at h
      obtain rfl := Option.some.inj h
      exact .idle rfl (by split <;> rfl) rfl ⟨rfl, rfl, rfl, rfl, rfl, rfl⟩
    | some r =>
      rw [hpop] at h
      obtain rfl := Option.some.inj h
      exact .take k hpop
  | readLast e k =>
    obtain rfl := Option.some.inj h
    exact .readLast e k
  | exchange e k =>
    obtain rfl := Option.some.inj h
    exact .exchange e k
  | push f k =>
    obtain rfl := Option.some.inj h
    exact .push f k
  | exited => cases h
  | enqueue e =>
    obtain rfl := Option.some.inj h
    split
    · exact .inline e
    · exact .queue e
  | insert e =>
    simp only [stepPc] at h
    cases hput : s.submitQueue.pushIfRoom e with
    | none =>
      rw [hput] at h
      obtain rfl := Option.some.inj h
      exact .full e
    | some r =>
      rw [hput] at h
      obtain rfl := Option.some.inj h
      exact .insert e hput
  | signal =>
    obtain rfl := Option.some.inj h
    exact .idle rfl (q := .done) rfl rfl ⟨rfl, rfl, rfl, rfl, rfl, rfl⟩
  | dpcDequeue =>
    simp only [stepPc] at h
    cases hpop : s.fenceQueue.pop with
    | none =>
      rw [hpop] at h
      obtain rfl := Option.some.inj h
      exact .idle rfl (q := .done) rfl rfl ⟨rfl, rfl, rfl, rfl, rfl, rfl⟩
    | some r =>
      rw [hpop] at h
      obtain rfl := Option.some.inj h
      exact .dpcTake hpop
  | dpcNotify f =>
    obtain rfl := Option.some.inj h
    exact .dpcNotify f
  | dpcStore f =>
    obtain rfl := Option.some.inj h
    exact .dpcStore f
  | stopSet =>
    obtain rfl := Option.some.inj h
    exact .idle rfl (q := .stopSignal) rfl rfl ⟨rfl, rfl, rfl, rfl, rfl, rfl⟩
  | stopSignal =>
    obtain rfl := Option.some.inj h
    exact .idle rfl (q := .join) rfl rfl ⟨rfl, rfl, rfl, rfl, rfl, rfl⟩
  | join =>
    simp only [stepPc] at h
    split at h
    · obtain rfl := Option.some.inj h
      exact .idle rfl (q := .clearThread) rfl rfl ⟨rfl, rfl, rfl, rfl, rfl, rfl⟩
    · cases h
  | clearThread =>
    obtain rfl := Option.some.inj h
    exact .idle rfl (q := .done) rfl rfl ⟨rfl, rfl, rfl, rfl, rfl, rfl⟩
  | done => cases h

end WinMali.Scheduler
