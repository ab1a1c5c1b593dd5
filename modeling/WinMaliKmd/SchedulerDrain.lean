import Mathlib.Algebra.Order.Ring.Nat
import WinMaliKmd.SchedulerOnce
import WinMaliKmd.SubmitFifo

/-!
# Every submit gets done

With no teardown, the accesses of the calls that have come in use up a measure, in whatever
order they are scheduled, so they come to an end. What is left then is a worker in its wait and
fences for the next DPC.
-/

set_option autoImplicit false

namespace WinMali.SchedulerDrain
open WinMali.FifoRing WinMali.Runs WinMali.Scheduler WinMali.SchedulerOnce WinMali.SubmitFifo

/-- A bound on the accesses that a thread makes before it waits or is done, with what it puts
into the queues counted in. -/
def pcWork : Pc → ℕ
  | .wait | .exited | .done => 0
  | .testStop => 2
  | .dequeue _ => 1
  | .exchange _ _ | .readLast _ _ => 6
  | .push _ _ => 5
  | .enqueue _ => 12
  | .insert _ => 11
  | .signal => 4
  | .dpcDequeue => 1
  | .dpcNotify _ => 3
  | .dpcStore _ => 2
  | .stopSet => 7
  | .stopSignal => 6
  | .join => 2
  | .clearThread => 1

def wakeWork (wake : Bool) : ℕ := if wake then 3 else 0

def queueWork (s : State) : ℕ :=
  6 * s.submitQueue.pending.length + 3 * s.fenceQueue.pending.length +
    wakeWork s.submitWorkerWake

def work (s : State) : ℕ := (s.threads.map pcWork).sum + queueWork s

section Work

variable {s t : State} {i : ℕ} {p : Pc}

theorem sum_set {l : List Pc} (h : l[i]? = some p) (q : Pc) :
    ((l.set i q).map pcWork).sum + pcWork p = (l.map pcWork).sum + pcWork q := by
  induction l generalizing i with
  | nil => simp at h
  | cons r l ih =>
    cases i with
    | zero =>
      obtain rfl := Option.some.inj h
      simp only [List.set_cons_zero, List.map_cons, List.sum_cons]
      omega
    | succ i =>
      have hi := ih (by simpa using h)
      simp only [List.set_cons_succ, List.map_cons, List.sum_cons]
      omega

theorem handle_work (e : SubmitEntry) (k : Cont) : pcWork (handle e k) ≤ 6 := by
  rcases handle_cases e k with ⟨-, h | h⟩ | ⟨-, h⟩ <;> rw [h] <;>
    simp only [pcWork] <;> omega

/-- A thread goes from `p` to `q`, and the rest of the work is less than `p` had to give. -/
theorem work_goto {q : Pc} (hpc : s.threads[i]? = some p) (hthreads : t.threads = s.threads.set i q)
    (h : pcWork q + queueWork t < pcWork p + queueWork s) : work t < work s := by
  have hsum := sum_set hpc q
  unfold work
  rw [hthreads]
  omega

theorem kept_length (s : State) : (kept s).length ≤ s.fenceQueue.pending.length := by
  unfold kept
  split
  · rw [List.length_tail]
    omega
  · exact Nat.le_refl _

/-- A thread goes on and the queues and the event stay as they are. -/
theorem work_move {q : Pc} (hpc : s.threads[i]? = some p) (ht : t.threads = s.threads.set i q)
    (hqueues : queueWork t = queueWork s) (h : pcWork q < pcWork p) : work t < work s :=
  work_goto hpc ht (by omega)

theorem run_work (hpc : s.threads[i]? = some p) (h : stepPc s i p = some t) :
    work t < work s := by
  cases p with
  | exited => cases h
  | done => cases h
  | wait =>
    simp only [stepPc] at h
    split at h
    · next hwake =>
      obtain rfl := Option.some.inj h
      refine work_goto hpc rfl ?_
      simp only [State.goto, queueWork, hwake, pcWork, wakeWork, if_true, Bool.false_eq_true,
        if_false]
      omega
    · cases h
  | testStop =>
    obtain rfl := Option.some.inj h
    refine work_move hpc rfl rfl ?_
    split <;> decide
  | dequeue k =>
    simp only [stepPc] at h
    cases hpop : s.submitQueue.pop with
    | none =>
      rw [hpop] at h
      obtain rfl := Option.some.inj h
      refine work_move hpc rfl rfl ?_
      split <;> exact Nat.one_pos
    | some r =>
      rw [hpop] at h
      obtain rfl := Option.some.inj h
      refine work_goto hpc rfl ?_
      have hhandle := handle_work r.1 k
      have hdequeue : pcWork (.dequeue k) = 1 := rfl
      simp only [State.goto, queueWork, Ring.pop_some hpop, List.length_cons]
      omega
  | exchange e k | readLast e k =>
    obtain rfl := Option.some.inj h
    exact work_move hpc rfl rfl (Nat.lt_succ_self 5)
  | push f k =>
    obtain rfl := Option.some.inj h
    refine work_goto hpc rfl ?_
    have hkept := kept_length s
    have hnext : pcWork k.next ≤ 1 := by cases k <;> simp [Cont.next, pcWork]
    have hpush : pcWork (.push f k) = 5 := rfl
    simp only [State.goto, queueWork, pending_push, List.length_append, List.length_singleton]
    omega
  | enqueue e =>
    obtain rfl := Option.some.inj h
    refine work_move hpc rfl rfl ?_
    split
    · exact Nat.lt_of_le_of_lt (handle_work e .inline) (by simp only [pcWork]; omega)
    · exact Nat.lt_succ_self 11
  | insert e =>
    simp only [stepPc] at h
    cases hput : s.submitQueue.pushIfRoom e with
    | none =>
      rw [hput] at h
      obtain rfl := Option.some.inj h
      exact work_move hpc rfl rfl
        (Nat.lt_of_le_of_lt (handle_work e .inline) (by simp only [pcWork]; omega))
    | some r =>
      rw [hput] at h
      obtain rfl := Option.some.inj h
      refine work_goto hpc rfl ?_
      simp only [State.goto, queueWork, Ring.pending_pushIfRoom hput, List.length_append,
        List.length_singleton, pcWork]
      omega
  | signal =>
    obtain rfl := Option.some.inj h
    refine work_goto hpc rfl ?_
    simp only [State.goto, queueWork, pcWork, wakeWork, if_true]
    omega
  | dpcDequeue =>
    simp only [stepPc] at h
    cases hpop : s.fenceQueue.pop with
    | none =>
      rw [hpop] at h
      obtain rfl := Option.some.inj h
      exact work_move hpc rfl rfl Nat.one_pos
    | some r =>
      rw [hpop] at h
      obtain rfl := Option.some.inj h
      refine work_goto hpc rfl ?_
      simp only [State.goto, queueWork, Ring.pop_some hpop, List.length_cons, pcWork]
      omega
  | dpcNotify f =>
    obtain rfl := Option.some.inj h
    refine work_move hpc rfl rfl ?_
    split <;> simp only [pcWork] <;> omega
  | dpcStore f | stopSet | clearThread =>
    obtain rfl := Option.some.inj h
    exact work_move hpc rfl rfl (Nat.lt_succ_self _)
  | stopSignal =>
    obtain rfl := Option.some.inj h
    refine work_goto hpc rfl ?_
    simp only [State.goto, queueWork, pcWork, wakeWork, if_true]
    omega
  | join =>
    simp only [stepPc] at h
    split at h
    · obtain rfl := Option.some.inj h
      exact work_move hpc rfl rfl (Nat.lt_succ_self 1)
    · cases h

end Work

/-- The thread is one of a teardown. -/
def Pc.stops : Pc → Bool
  | .stopSet | .stopSignal | .join | .clearThread => true
  | _ => false

/-- A turn from `p` to `q` of a thread that is not one of a teardown. -/
structure Calm (s : State) (p q : Pc) (t : State) : Prop where
  thread : t.submitWorkerThread = s.submitWorkerThread
  stop : t.submitWorkerStop = s.submitWorkerStop
  stops : Pc.stops q = false
  worker : Pc.isWorker p = true → p ≠ .exited → s.submitWorkerStop = false →
    Pc.isWorker q = true ∧ q ≠ .exited
  inserts : ∀ e, q = .insert e → s.submitWorkerThread = true
  grows : (∀ e, p ≠ .insert e) → s.submitQueue.pending = [] → t.submitQueue.pending = []

section Calls

variable {s t : State} {i : ℕ} {p : Pc}

theorem handle_calm (e : SubmitEntry) (k : Cont) : Pc.stops (handle e k) = false ∧
    handle e k ≠ .exited ∧ (∀ e', handle e k ≠ .insert e') ∧
      (k = .worker → Pc.isWorker (handle e k) = true) := by
  unfold handle
  split
  · split
    · next hk => exact ⟨rfl, nofun, nofun, fun hw => absurd (hk.symm.trans hw) nofun⟩
    · exact ⟨rfl, nofun, nofun, fun hw => hw ▸ rfl⟩
  · exact ⟨rfl, nofun, nofun, fun hw => hw ▸ rfl⟩

theorem not_worker {q : Pc} (h : Pc.isWorker p = false) : Pc.isWorker p = true → p ≠ .exited →
    s.submitWorkerStop = false → Pc.isWorker q = true ∧ q ≠ .exited :=
  fun hworker => absurd (h.symm.trans hworker) Bool.false_ne_true

theorem stepPc_calm (hp : Pc.stops p = false) (h : stepPc s i p = some t) :
    ∃ q, t.threads = s.threads.set i q ∧ Calm s p q t := by
  have hgrows : (∀ e, p ≠ .insert e) → s.submitQueue.pending = [] →
      t.submitQueue.pending = [] := by
    intro hne hnil
    by_cases hk : ∃ k, p = .dequeue k
    · obtain ⟨k, rfl⟩ := hk
      simp only [stepPc] at h
      cases hpop : s.submitQueue.pop with
      | none =>
        rw [hpop] at h
        obtain rfl := Option.some.inj h
        exact hnil
      | some r =>
        rw [Ring.pop_some hpop] at hnil
        cases hnil
    · rw [stepPc_queue h hne fun k hk' => hk ⟨k, hk'⟩]
      exact hnil
  cases p with
  | exited => cases h
  | done => cases h
  | stopSet | stopSignal | join | clearThread => cases hp
  | wait =>
    simp only [stepPc] at h
    split at h
    · obtain rfl := Option.some.inj h
      exact ⟨_, rfl, rfl, rfl, rfl, fun _ _ _ => ⟨rfl, by simp⟩, by simp, hgrows⟩
    · cases h
  | testStop =>
    obtain rfl := Option.some.inj h
    refine ⟨_, rfl, rfl, rfl, ?_, fun _ _ hstop => ?_, fun e => ?_, hgrows⟩
    · split <;> rfl
    · rw [hstop]
      exact ⟨rfl, by simp⟩
    · split <;> simp
  | dequeue k =>
    simp only [stepPc] at h
    cases hpop : s.submitQueue.pop with
    | none =>
      rw [hpop] at h
      obtain rfl := Option.some.inj h
      refine ⟨_, rfl, rfl, rfl, ?_, fun hw _ _ => ?_, fun e => ?_, hgrows⟩
      · split <;> rfl
      · rw [if_pos (beq_iff_eq.mp hw)]
        exact ⟨rfl, by simp⟩
      · split <;> simp
    | some r =>
      rw [hpop] at h
      obtain rfl := Option.some.inj h
      obtain ⟨hstops, hexited, hinsert, hworker⟩ := handle_calm r.1 k
      exact ⟨_, rfl, rfl, rfl, hstops, fun hw _ _ => ⟨hworker (beq_iff_eq.mp hw), hexited⟩,
        fun e he => absurd he (hinsert e), hgrows⟩
  | exchange e k | readLast e k =>
    obtain rfl := Option.some.inj h
    exact ⟨_, rfl, rfl, rfl, rfl, fun hw _ _ => ⟨hw, by simp⟩, by simp, hgrows⟩
  | push f k =>
    obtain rfl := Option.some.inj h
    refine ⟨_, rfl, rfl, rfl, ?_, fun hw _ _ => ?_, fun e => ?_, hgrows⟩
    · cases k <;> rfl
    · obtain rfl := beq_iff_eq.mp hw
      exact ⟨rfl, by simp [Cont.next]⟩
    · cases k <;> simp [Cont.next]
  | enqueue e =>
    obtain rfl := Option.some.inj h
    obtain ⟨hstops, -, hinsert, -⟩ := handle_calm e .inline
    refine ⟨_, rfl, rfl, rfl, ?_, not_worker rfl, fun e' he => ?_, hgrows⟩
    · split
      · exact hstops
      · rfl
    · split at he
      · exact absurd he (hinsert e')
      · next hup =>
        simpa using (not_or.mp (mt (Bool.or_eq_true _ _).mpr hup)).1
  | insert e =>
    simp only [stepPc] at h
    cases hput : s.submitQueue.pushIfRoom e with
    | none =>
      rw [hput] at h
      obtain rfl := Option.some.inj h
      obtain ⟨hstops, -, hinsert, -⟩ := handle_calm e .inline
      exact ⟨_, rfl, rfl, rfl, hstops, not_worker rfl, fun e' he => absurd he (hinsert e'), hgrows⟩
    | some r =>
      rw [hput] at h
      obtain rfl := Option.some.inj h
      exact ⟨_, rfl, rfl, rfl, rfl, not_worker rfl, by simp, hgrows⟩
  | signal | dpcStore =>
    obtain rfl := Option.some.inj h
    exact ⟨_, rfl, rfl, rfl, rfl, not_worker rfl, by simp, hgrows⟩
  | dpcDequeue =>
    simp only [stepPc] at h
    split at h <;> obtain rfl := Option.some.inj h <;>
      exact ⟨_, rfl, rfl, rfl, rfl, not_worker rfl, by simp, hgrows⟩
  | dpcNotify f =>
    obtain rfl := Option.some.inj h
    refine ⟨_, rfl, rfl, rfl, ?_, not_worker rfl, fun e => ?_, hgrows⟩
    · split <;> rfl
    · split <;> simp

end Calls

/-- What holds as long as nobody tears the scheduler down. Without a worker nothing gets into
the queue. -/
structure Served (s : State) : Prop where
  awake : Awake s
  calm : ∀ (i : ℕ) (p : Pc), s.threads[i]? = some p → Pc.stops p = false
  manned : s.submitWorkerThread = true → s.submitWorkerStop = false ∧
    ∃ p, s.threads[0]? = some p ∧ Pc.isWorker p = true ∧ p ≠ .exited
  unmanned : s.submitWorkerThread = false → s.submitQueue.pending = [] ∧
    ∀ (i : ℕ) (e : SubmitEntry), s.threads[i]? ≠ some (.insert e)

section Serve

variable {s t : State} {i : ℕ} {p : Pc}

theorem Served.run (S : Served s) (hpc : s.threads[i]? = some p) (h : stepPc s i p = some t) :
    Served t := by
  obtain ⟨q, hthreads, C⟩ := stepPc_calm (S.calm i p hpc) h
  have hself : t.threads[i]? = some q := by
    rw [hthreads]
    exact goto_self hpc q
  have hother : ∀ j, i ≠ j → t.threads[j]? = s.threads[j]? := by
    intro j hij
    rw [hthreads, List.getElem?_set_ne hij]
  constructor
  · exact run_awake S.awake hpc h
  · intro j r hr
    obtain rfl | hij := eq_or_ne i j
    · obtain rfl := Option.some.inj (hself.symm.trans hr)
      exact C.stops
    · exact S.calm j r ((hother j hij).symm.trans hr)
  · intro hthread
    obtain ⟨hstop, r, hr, hworker, hexited⟩ := S.manned (C.thread ▸ hthread)
    refine ⟨C.stop.trans hstop, ?_⟩
    obtain rfl | hi := eq_or_ne i 0
    · obtain rfl := Option.some.inj (hpc.symm.trans hr)
      exact ⟨q, hself, C.worker hworker hexited hstop⟩
    · exact ⟨r, (hother 0 hi).trans hr, hworker, hexited⟩
  · intro hthread
    rw [C.thread] at hthread
    obtain ⟨hnil, hinsert⟩ := S.unmanned hthread
    refine ⟨C.grows (fun e he => hinsert i e (he ▸ hpc)) hnil, fun j e hj => ?_⟩
    obtain rfl | hij := eq_or_ne i j
    · have hq := Option.some.inj (hself.symm.trans hj)
      exact absurd (C.inserts e hq) (by simp [hthread])
    · exact hinsert j e ((hother j hij).symm.trans hj)

theorem Served.spawn (S : Served s) (A : Awake t) (hp : Pc.stops p = false)
    (hinsert : ∀ e, p ≠ .insert e) (hthreads : t.threads = s.threads ++ [p])
    (hqueue : t.submitQueue = s.submitQueue)
    (hthread : t.submitWorkerThread = s.submitWorkerThread)
    (hstop : t.submitWorkerStop = s.submitWorkerStop) : Served t := by
  have hthere : ∀ (j : ℕ) (r : Pc), t.threads[j]? = some r → s.threads[j]? = some r ∨ r = p := by
    intro j r hr
    rw [hthreads, List.getElem?_append] at hr
    split at hr
    · exact .inl hr
    · exact .inr (List.mem_singleton.mp (List.mem_of_getElem? hr))
  refine ⟨A, fun j r hr => ?_, fun h => ?_, fun h => ?_⟩
  · rcases hthere j r hr with hr | rfl
    · exact S.calm j r hr
    · exact hp
  · obtain ⟨hnone, r, hr, hworker⟩ := S.manned (hthread ▸ h)
    refine ⟨hstop.trans hnone, r, ?_, hworker⟩
    rw [hthreads, List.getElem?_append_left (List.getElem?_eq_some_iff.mp hr).1, hr]
  · obtain ⟨hnil, hnone⟩ := S.unmanned (hthread ▸ h)
    refine ⟨hqueue ▸ hnil, fun j e hj => ?_⟩
    rcases hthere j _ hj with hj | hj
    · exact hnone j e hj
    · exact hinsert e hj.symm

theorem step_served {l : Label} (S : Served s) (hl : l ≠ .teardown) (h : step s l = some t) :
    Served t := by
  have A := step_awake S.awake h
  cases l with
  | teardown => exact absurd rfl hl
  | run i =>
    obtain ⟨p, hpc, hrun⟩ := Option.bind_eq_some_iff.mp h
    exact S.run hpc hrun
  | submit f n e | preempt f n e | reset | dpc =>
    obtain rfl := Option.some.inj h
    exact S.spawn A rfl (by intro e; nofun) rfl rfl rfl rfl

end Serve

theorem schedInit_served (o : InitOutcome) : Served (schedInit o) := by
  have hpending : (schedInit o).submitQueue.pending = [] := pending_empty _ _
  have hone : ∀ (i : ℕ) (p : Pc), (schedInit o).threads[i]? = some p → i = 0 := fun i p hp =>
    Nat.lt_one_iff.mp (List.getElem?_eq_some_iff.mp hp).1
  refine ⟨schedInit_awake o, fun i p hp => ?_, fun h => ?_, fun _ => ⟨hpending, fun i e hp => ?_⟩⟩
  · obtain rfl := hone i p hp
    cases o <;> cases hp <;> rfl
  · cases o with
    | up => exact ⟨rfl, .wait, rfl, rfl, nofun⟩
    | noThread | unreferenced => cases h
  · obtain rfl := hone i _ hp
    cases o <;> cases hp

/-- No thread can go on. -/
def Stuck (s : State) : Prop := ∀ i, step s (.run i) = none

section Ends

variable {s t : State} {i : ℕ} {p : Pc}

theorem stuck_pc (hstuck : Stuck s) (hpc : s.threads[i]? = some p) :
    p = .done ∨ p = .exited ∨ p = .join ∨ p = .wait ∧ s.submitWorkerWake = false := by
  have h : stepPc s i p = none := by
    have := hstuck i
    rwa [step, hpc] at this
  cases p with
  | done => exact .inl rfl
  | exited => exact .inr (.inl rfl)
  | join => exact .inr (.inr (.inl rfl))
  | wait =>
    refine .inr (.inr (.inr ⟨rfl, ?_⟩))
    cases hwake : s.submitWorkerWake with
    | false => rfl
    | true =>
      simp only [stepPc, hwake, if_true] at h
      cases h
  | dequeue | insert | dpcDequeue =>
    simp only [stepPc] at h
    split at h <;> cases h
  | _ => cases h

/-- The calls are over, and the worker waits over an empty queue. -/
theorem Served.stuck (S : Served s) (hstuck : Stuck s) :
    s.submitQueue.pending = [] ∧ ∀ (i : ℕ) (p : Pc), s.threads[i]? = some p →
      (p = .done ∨ i = 0) ∧ held p = [] := by
  constructor
  · cases hthread : s.submitWorkerThread with
    | false => exact (S.unmanned hthread).1
    | true =>
      obtain ⟨-, p, hp, hworker, hexited⟩ := S.manned hthread
      rcases stuck_pc hstuck hp with rfl | rfl | rfl | ⟨rfl, hwake⟩
      · cases hworker
      · exact absurd rfl hexited
      · cases hworker
      · refine (S.awake.told ⟨hp, hwake⟩).resolve_right ?_
        rintro ⟨j, hj⟩
        rcases stuck_pc hstuck hj with h | h | h | ⟨h, -⟩ <;> cases h
  · intro i p hp
    rcases stuck_pc hstuck hp with rfl | rfl | rfl | ⟨rfl, -⟩
    · exact ⟨.inl rfl, rfl⟩
    · exact ⟨.inr (S.awake.worker i _ hp rfl), rfl⟩
    · cases S.calm i _ hp
    · exact ⟨.inr (S.awake.worker i _ hp rfl), rfl⟩

theorem Served.hands (S : Served s) (hstuck : Stuck s) : handFences s = [] := by
  refine List.flatMap_eq_nil_iff.mpr fun p hp => ?_
  obtain ⟨i, hi⟩ := List.getElem?_of_mem hp
  exact ((S.stuck hstuck).2 i p hi).2

end Ends

/-- The fences that a step overwrites in a full ring of fences. -/
def givenUp (s : State) : Label → List ℕ
  | .run i =>
    match s.threads[i]? with
    | some (.push _ _) => if s.fenceQueue.isFull then fences (s.fenceQueue.pending.take 1) else []
    | _ => []
  | _ => []

section Books

variable {s t : State}

/-- Where nobody tears down, no other fence can get lost. -/
theorem Served.guard (S : Served s) {l : Label} (hroom : givenUp s l = []) : guard s l := by
  cases l with
  | run i =>
    simp only [SchedulerOnce.guard]
    split
    · next f k hpc =>
      intro hfull
      simpa only [givenUp, hpc, if_pos hfull] using hroom
    · next hpc =>
      intro hstop
      have hthread : s.submitWorkerThread = false := by
        by_contra h
        exact absurd (S.manned (by simpa using h)).1 (by simp [hstop])
      rw [(S.unmanned hthread).1]
      rfl
    · next e hpc =>
      intro hexited
      have hthread : s.submitWorkerThread = true := by
        by_contra h
        exact (S.unmanned (by simpa using h)).2 i e hpc
      obtain ⟨-, p, hp, -, hne⟩ := S.manned hthread
      obtain ⟨j, hj⟩ := List.getElem?_of_mem hexited
      obtain rfl := S.awake.worker j _ hj rfl
      exact absurd (Option.some.inj (hp.symm.trans hj)) hne
    · trivial
  | _ => trivial

/-- No teardown, and no fence given up. -/
def quiet (s : State) (l : Label) : Prop := l ≠ .teardown ∧ givenUp s l = []

theorem run_served {ls : List Label} (hls : ∀ l ∈ ls, l ≠ .teardown) (S : Served s)
    (h : exec step s ls = some t) : Served t :=
  exec_invariant (fun _ _ _ S hl ht => step_served S hl.1 ht) S
    (Guarded.of_labels hls (guarded_true step s ls)) h

theorem run_books {ls : List Label} (S : Served s) (A : Accounted s)
    (hls : Guarded step quiet s ls) (h : exec step s ls = some t) : Accounted t := by
  have hstep : ∀ s l t, Served s ∧ Accounted s → quiet s l → step s l = some t →
      Served t ∧ Accounted t :=
    fun _ l _ ⟨S, A⟩ hl ht => ⟨step_served S hl.1 ht, step_accounted l A (S.guard hl.2) ht⟩
  have hrun := exec_invariant hstep ⟨S, A⟩ hls h
  exact hrun.2

end Books

/-- A DPC is thread `n`, and the other threads stand still. -/
structure Draining (n : ℕ) (s : State) : Prop where
  others : ∀ (i : ℕ) (p : Pc), s.threads[i]? = some p → i ≠ n →
    p = .done ∨ p = .exited ∨ p = .wait ∧ s.submitWorkerWake = false
  dpc : ∃ p, s.threads[n]? = some p ∧
    (p = .dpcDequeue ∨ (∃ f, p = .dpcNotify f) ∨ (∃ f, p = .dpcStore f) ∨
      p = .done ∧ s.fenceQueue.pending = [])

section Dpc

variable {s t : State} {n : ℕ}

theorem Draining.goto (D : Draining n s) {q : Pc} (hthreads : t.threads = s.threads.set n q)
    (hasleep : t.submitWorkerWake = s.submitWorkerWake)
    (hq : q = .dpcDequeue ∨ (∃ f, q = .dpcNotify f) ∨ (∃ f, q = .dpcStore f) ∨
      q = .done ∧ t.fenceQueue.pending = []) : Draining n t := by
  obtain ⟨p, hp, -⟩ := D.dpc
  refine ⟨fun i r hr hi => hasleep ▸ D.others i r ?_ hi, q, ?_, hq⟩
  · rwa [hthreads, List.getElem?_set_ne hi.symm] at hr
  · rw [hthreads]
    exact goto_self hp q

theorem run_draining {i : ℕ} (D : Draining n s) (h : step s (.run i) = some t) :
    Draining n t := by
  obtain ⟨p, hpc, hrun⟩ := Option.bind_eq_some_iff.mp h
  obtain rfl | hi := eq_or_ne i n
  · obtain ⟨r, hr, hdpc⟩ := D.dpc
    obtain rfl := Option.some.inj (hpc.symm.trans hr)
    rcases hdpc with rfl | ⟨f, rfl⟩ | ⟨f, rfl⟩ | ⟨rfl, -⟩
    · simp only [stepPc] at hrun
      cases hpop : s.fenceQueue.pop with
      | none =>
        rw [hpop] at hrun
        obtain rfl := Option.some.inj hrun
        exact D.goto rfl rfl (.inr (.inr (.inr ⟨rfl, Ring.pop_none hpop⟩)))
      | some r =>
        rw [hpop] at hrun
        obtain rfl := Option.some.inj hrun
        exact D.goto rfl rfl (.inr (.inl ⟨_, rfl⟩))
    · obtain rfl := Option.some.inj hrun
      refine D.goto rfl rfl ?_
      split
      · exact .inl rfl
      · exact .inr (.inr (.inl ⟨f, rfl⟩))
    · obtain rfl := Option.some.inj hrun
      exact D.goto rfl rfl (.inl rfl)
    · cases hrun
  · rcases D.others i p hpc hi with rfl | rfl | ⟨rfl, hasleep⟩
    · cases hrun
    · cases hrun
    · simp [stepPc, hasleep] at hrun

theorem runs_guarded (s : State) (is : List ℕ) :
    Guarded step (fun _ l => ∃ i, l = .run i) s (is.map .run) := by
  induction is generalizing s with
  | nil => trivial
  | cons i is ih => exact fun t _ => ⟨⟨i, rfl⟩, ih t⟩

theorem Served.dpc_starts (S : Served s) (hstuck : Stuck s) (h : step s .dpc = some t) :
    Draining s.threads.length t := by
  obtain rfl := Option.some.inj h
  refine ⟨fun i p hp hi => ?_, .dpcDequeue, List.getElem?_concat_length, .inl rfl⟩
  have hp : s.threads[i]? = some p := by
    have hlt := (List.getElem?_eq_some_iff.mp hp).1
    simp only [State.spawn, List.length_append, List.length_singleton] at hp hlt
    rwa [List.getElem?_append_left (by omega)] at hp
  rcases stuck_pc hstuck hp with rfl | rfl | rfl | h
  · exact .inl rfl
  · exact .inr (.inl rfl)
  · cases S.calm i _ hp
  · exact .inr (.inr h)

theorem dpc_drains {is : List ℕ} (D : Draining n s)
    (h : exec step s (is.map .run) = some t) (hstuck : Stuck t) :
    t.fenceQueue.pending = [] := by
  have hD : Draining n t := by
    refine exec_invariant (fun s l t D hl ht => ?_) D (runs_guarded s is) h
    obtain ⟨i, rfl⟩ := hl
    exact run_draining D ht
  obtain ⟨p, hp, hdpc⟩ := hD.dpc
  rcases hdpc with rfl | ⟨f, rfl⟩ | ⟨f, rfl⟩ | ⟨-, hnil⟩
  · rcases stuck_pc hstuck hp with h | h | h | ⟨h, -⟩ <;> cases h
  · rcases stuck_pc hstuck hp with h | h | h | ⟨h, -⟩ <;> cases h
  · rcases stuck_pc hstuck hp with h | h | h | ⟨h, -⟩ <;> cases h
  · exact hnil

end Dpc

/-- Calls come in and threads run in any order. From there on the calls use up `work`; once
none can go on the submit queue is empty, only the worker is left, and the next DPC empties the
ring of fences. If no push gave up a fence, every accepted fence has then been told exactly as
often as it was accepted. -/
theorem submits_complete (o : InitOutcome) {ls : List Label} {s : State}
    (hls : ∀ l ∈ ls, l ≠ .teardown) (h : exec step (schedInit o) ls = some s) :
    (∀ (is : List ℕ) (t : State), exec step s (is.map .run) = some t →
      work t + is.length ≤ work s) ∧
    (Stuck s → s.submitQueue.pending = [] ∧
      (∀ (i : ℕ) (p : Pc), s.threads[i]? = some p → p = .done ∨ i = 0) ∧
      ∀ (is : List ℕ) (t : State), exec step s (.dpc :: is.map .run) = some t → Stuck t →
        t.fenceQueue.pending = [] ∧
          (Guarded step (fun s l => givenUp s l = []) (schedInit o) (ls ++ .dpc :: is.map .run) →
            ∀ f, (fences t.notified).count f = t.accepted.count f)) := by
  have S := run_served hls (schedInit_served o) h
  refine ⟨fun is t ht => ?_, fun hstuck => ⟨(S.stuck hstuck).1, fun i p hp =>
    ((S.stuck hstuck).2 i p hp).1, fun is t ht htstuck => ?_⟩⟩
  · have hwork := exec_work work ?_ (runs_guarded s is) ht
    · rwa [List.length_map] at hwork
    · rintro s l t ⟨i, rfl⟩ ht
      obtain ⟨p, hpc, hrun⟩ := Option.bind_eq_some_iff.mp ht
      exact run_work hpc hrun
  · have hquiet : ∀ l ∈ ls ++ .dpc :: is.map .run, l ≠ .teardown := by
      intro l hl
      rcases List.mem_append.mp hl with hl | hl
      · exact hls l hl
      · rcases List.mem_cons.mp hl with rfl | hl
        · exact nofun
        · obtain ⟨i, -, rfl⟩ := List.mem_map.mp hl
          exact nofun
    have hrun : exec step (schedInit o) (ls ++ .dpc :: is.map .run) = some t := by
      rw [exec_append, h]
      exact ht
    obtain ⟨u, hu, hrest⟩ := (exec_cons step s t _ _).mp ht
    have hempty := dpc_drains (S.dpc_starts hstuck hu) hrest htstuck
    refine ⟨hempty, fun hroom f => ?_⟩
    have T := run_served hquiet (schedInit_served o) hrun
    have A := run_books (schedInit_served o) (schedInit_accounted o)
      (Guarded.of_labels hquiet hroom) hrun
    have hbalance := A.balance f
    rw [hempty, (T.stuck htstuck).1, T.hands htstuck] at hbalance
    simpa using hbalance.symm

theorem stuck_of_threads {s : State} (h : ∀ i < s.threads.length, step s (.run i) = none) :
    Stuck s := by
  intro i
  by_cases hi : i < s.threads.length
  · exact h i hi
  · simp [step, List.getElem?_eq_none (Nat.not_lt.mp hi)]

/-- A submit and a preemption, queued one after the other while the worker takes the first. -/
def submitAndPreempt : List Label :=
  [.submit 7 0 0, .run 1, .run 1, .preempt 8 0 0, .run 1, .run 0, .run 2, .run 0, .run 0, .run 2,
    .run 0, .run 0, .run 2, .run 0, .run 0, .run 0, .run 0, .run 0, .run 0, .run 0]

theorem preempted_submit_told : ∃ s t, exec step (schedInit .up) submitAndPreempt = some s ∧
    exec step s (.dpc :: (List.replicate 6 3).map .run) = some t ∧
    (s.submitQueue.pending = [] ∧ t.fenceQueue.pending = []) ∧ t.accepted = [7] ∧
    (fences t.notified).count 7 = t.accepted.count 7 := by
  have hstuck := stuck_of_threads (s := ((exec step (schedInit .up) submitAndPreempt).get rfl))
    (by decide)
  obtain ⟨-, hends⟩ := @submits_complete .up submitAndPreempt _ (by decide) rfl
  obtain ⟨hempty, -, hdpc⟩ := hends hstuck
  obtain ⟨hfences, htold⟩ := hdpc (List.replicate 6 3) _ rfl (stuck_of_threads (by decide))
  exact ⟨_, _, rfl, rfl, ⟨hempty, hfences⟩, rfl, htold (by decide) 7⟩

end WinMali.SchedulerDrain
