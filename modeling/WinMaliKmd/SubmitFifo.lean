import WinMaliKmd.BoundedFifo
import WinMaliKmd.Scheduler

/-!
# The submit queue as a queue

While there is a worker and it is not told to stop, the ring of submits is a queue of one entry
less than its depth, however enqueuers, the worker and resets interleave. The event of the worker
is cleared when the wait ends, so many signals can be one; none of them gets lost.
-/

set_option autoImplicit false

namespace WinMali.SubmitFifo
open WinMali.FifoRing WinMali.Runs WinMali.Scheduler WinMali.BoundedFifo

def Up (s : State) : Prop := s.submitWorkerThread = true ∧ s.submitWorkerStop = false

instance (s : State) : Decidable (Up s) := inferInstanceAs (Decidable (_ ∧ _))

/-- What the step does to the queue, as its users see it. An `Enqueue` returns `TRUE` if it goes
on to signal the worker, and `FALSE` if it has not got in; what comes out is what the locked
section reads. -/
def act (s : State) (l : Label) (t : State) : Act SubmitEntry :=
  match l with
  | .run i =>
    match s.threads[i]? with
    | some (.enqueue e) =>
      if t.threads[i]? = some (.insert e) then .other else .put e false
    | some (.insert e) => .put e (decide (t.threads[i]? = some .signal))
    | some (.dequeue _) => .take (s.submitQueue.pop.map Prod.fst)
    | _ => .other
  | _ => .other

/-- The worker is in its wait, and nothing has ended it. -/
def Blocked (s : State) : Prop := s.threads[0]? = some .wait ∧ s.submitWorkerWake = false

def Signalling (s : State) : Prop := ∃ i : ℕ, s.threads[i]? = some .signal

section Queue

variable {s t : State} {i : ℕ} {p : Pc}

theorem goto_self (hpc : s.threads[i]? = some p) (q : Pc) : (s.threads.set i q)[i]? = some q :=
  List.getElem?_set_self (List.getElem?_eq_some_iff.mp hpc).1

/-- Only an insertion and the two loops that dequeue touch the ring. -/
theorem stepPc_queue (h : stepPc s i p = some t) (hinsert : ∀ e, p ≠ .insert e)
    (hdequeue : ∀ k, p ≠ .dequeue k) : t.submitQueue = s.submitQueue := by
  cases turn_cases h with
  | idle hp hq hthreads same => exact same.submitQueue
  | take k => exact absurd rfl (hdequeue k)
  | insert e => exact absurd rfl (hinsert e)
  | _ => rfl

theorem insert_fifo {e : SubmitEntry} (hpc : s.threads[i]? = some (.insert e))
    (h : stepPc s i (.insert e) = some t) :
    Fifo (submitQueueDepth - 1) s.submitQueue.pending
      (.put e (decide (t.threads[i]? = some .signal))) t.submitQueue.pending := by
  simp only [stepPc] at h
  cases hput : s.submitQueue.pushIfRoom e with
  | none =>
    rw [hput] at h
    obtain rfl := Option.some.inj h
    have hthere : ¬(s.threads.set i (handle e .inline))[i]? = some .signal := by
      rw [goto_self hpc]
      rcases handle_cases e .inline with ⟨-, h | h⟩ | ⟨-, h⟩ <;> rw [h] <;> rintro ⟨⟩
    simp only [State.goto, hthere, decide_false]
    exact refused_fifo hput
  | some r =>
    rw [hput] at h
    obtain rfl := Option.some.inj h
    simp only [State.goto, goto_self hpc, decide_true]
    exact put_fifo hput

theorem dequeue_fifo {k : Cont} (h : stepPc s i (.dequeue k) = some t) :
    Fifo (submitQueueDepth - 1) s.submitQueue.pending (.take (s.submitQueue.pop.map Prod.fst))
      t.submitQueue.pending := by
  simp only [stepPc] at h
  cases hpop : s.submitQueue.pop with
  | none =>
    rw [hpop] at h
    obtain rfl := Option.some.inj h
    exact empty_fifo _ hpop
  | some r =>
    rw [hpop] at h
    obtain rfl := Option.some.inj h
    exact pop_fifo _ hpop

theorem step_fifo {l : Label} (hup : Up s) (h : step s l = some t) :
    Fifo (submitQueueDepth - 1) s.submitQueue.pending (act s l t) t.submitQueue.pending := by
  cases l with
  | run i =>
    obtain ⟨p, hpc, hrun⟩ := Option.bind_eq_some_iff.mp h
    simp only [act, hpc]
    cases p with
    | insert e => exact insert_fifo hpc hrun
    | dequeue k => exact dequeue_fifo hrun
    | enqueue e =>
      rw [stepPc, hup.1, hup.2] at hrun
      obtain rfl := Option.some.inj hrun
      have hthere : (s.threads.set i (.insert e))[i]? = some (.insert e) := goto_self hpc _
      simp only [State.goto, Bool.not_true, Bool.or_self, Bool.false_eq_true, if_false, hthere,
        if_true]
      exact .other _
    | _ =>
      rw [stepPc_queue hrun (by simp) (by simp)]
      exact .other _
  | _ =>
    obtain rfl := Option.some.inj h
    exact .other _

end Queue

/-- The worker, wherever it is. -/
def Pc.isWorker : Pc → Bool
  | .wait | .testStop | .exited => true
  | .dequeue k | .exchange _ k | .readLast _ k | .push _ k => k == .worker
  | _ => false

/-- What a turn from `p` to `q` does to the wake of the worker. -/
structure Moved (s : State) (p q : Pc) (t : State) : Prop where
  worker : Pc.isWorker q = true → Pc.isWorker p = true
  waits : q = .wait → t.submitQueue.pending = []
  wakes : p ≠ .wait → t.submitWorkerWake = false → s.submitWorkerWake = false ∧ p ≠ .signal
  grows : (s.submitQueue.pending = [] → t.submitQueue.pending = []) ∨ q = .signal

section Wakes

variable {s t : State} {i : ℕ} {p q : Pc}

theorem isWorker_handle (e : SubmitEntry) (k : Cont) (h : Pc.isWorker (handle e k) = true) :
    k = .worker := by
  rcases handle_cases e k with ⟨-, hp | hp⟩ | ⟨-, hp⟩ <;> rw [hp] at h
  · cases h
  · exact beq_iff_eq.mp h
  · exact beq_iff_eq.mp h

theorem handle_ne_wait (e : SubmitEntry) (k : Cont) : handle e k ≠ .wait := by
  rcases handle_cases e k with ⟨-, h | h⟩ | ⟨-, h⟩ <;> rw [h] <;> rintro ⟨⟩

/-- A turn that touches neither the ring nor the event. -/
theorem moved_goto (hsame : t.submitQueue = s.submitQueue)
    (hwake : t.submitWorkerWake = s.submitWorkerWake) (hp : p ≠ .signal) (hq : q ≠ .wait)
    (hworker : Pc.isWorker q = true → Pc.isWorker p = true) : Moved s p q t :=
  ⟨hworker, fun h => absurd h hq, fun _ h => ⟨hwake ▸ h, hp⟩, .inl fun h => hsame ▸ h⟩

theorem dequeue_moved {k : Cont} (h : stepPc s i (.dequeue k) = some t) :
    ∃ q, t.threads = s.threads.set i q ∧ Moved s (.dequeue k) q t := by
  simp only [stepPc] at h
  cases hpop : s.submitQueue.pop with
  | none =>
    rw [hpop] at h
    obtain rfl := Option.some.inj h
    have hnil : s.submitQueue.pending = [] := by
      have hempty := empty_fifo 0 hpop
      generalize s.submitQueue.pending = q at hempty
      cases hempty
      rfl
    refine ⟨_, rfl, fun hq => ?_, fun _ => hnil, fun _ h => ⟨h, by rintro ⟨⟩⟩, .inl id⟩
    cases k with
    | worker => rfl
    | reset => cases hq
    | inline => cases hq
  | some r =>
    rw [hpop] at h
    obtain rfl := Option.some.inj h
    refine ⟨_, rfl, fun hq => ?_, fun hq => absurd hq (handle_ne_wait _ _),
      fun _ h => ⟨h, by rintro ⟨⟩⟩, .inl fun hnil => ?_⟩
    · exact beq_iff_eq.mpr (isWorker_handle _ _ hq)
    · rw [Ring.pop_some hpop] at hnil
      cases hnil

theorem insert_moved {e : SubmitEntry} (h : stepPc s i (.insert e) = some t) :
    ∃ q, t.threads = s.threads.set i q ∧ Moved s (.insert e) q t := by
  simp only [stepPc] at h
  cases hput : s.submitQueue.pushIfRoom e with
  | none =>
    rw [hput] at h
    obtain rfl := Option.some.inj h
    refine ⟨_, rfl, moved_goto rfl rfl (by rintro ⟨⟩) (handle_ne_wait e .inline) fun hq => ?_⟩
    cases isWorker_handle e .inline hq
  | some r =>
    rw [hput] at h
    obtain rfl := Option.some.inj h
    exact ⟨.signal, rfl, by rintro ⟨⟩, by rintro ⟨⟩, fun _ h => ⟨h, by rintro ⟨⟩⟩, .inr rfl⟩

theorem stepPc_moved (h : stepPc s i p = some t) :
    ∃ q, t.threads = s.threads.set i q ∧ Moved s p q t := by
  cases p with
  | dequeue k => exact dequeue_moved h
  | insert e => exact insert_moved h
  | wait =>
    simp only [stepPc] at h
    split at h
    · obtain rfl := Option.some.inj h
      exact ⟨.testStop, rfl, fun _ => rfl, by rintro ⟨⟩, fun h => absurd rfl h, .inl id⟩
    · cases h
  | testStop =>
    obtain rfl := Option.some.inj h
    refine ⟨_, rfl, moved_goto rfl rfl (by rintro ⟨⟩) ?_ fun _ => rfl⟩
    split <;> rintro ⟨⟩
  | enqueue e =>
    obtain rfl := Option.some.inj h
    refine ⟨_, rfl, ?_⟩
    split
    · refine moved_goto rfl rfl (by rintro ⟨⟩) (handle_ne_wait e .inline) fun hq => ?_
      cases isWorker_handle e .inline hq
    · exact moved_goto rfl rfl (by rintro ⟨⟩) (by rintro ⟨⟩) (by rintro ⟨⟩)
  | push f k =>
    obtain rfl := Option.some.inj h
    refine ⟨_, rfl, moved_goto rfl rfl (by rintro ⟨⟩) ?_ ?_⟩
    · cases k <;> rintro ⟨⟩
    · cases k with
      | worker => exact id
      | reset => exact id
      | inline => rintro ⟨⟩
  | signal =>
    obtain rfl := Option.some.inj h
    exact ⟨.done, rfl, by rintro ⟨⟩, by rintro ⟨⟩, fun _ => by rintro ⟨⟩, .inl id⟩
  | stopSignal =>
    obtain rfl := Option.some.inj h
    exact ⟨.join, rfl, by rintro ⟨⟩, by rintro ⟨⟩, fun _ => by rintro ⟨⟩, .inl id⟩
  | dpcDequeue =>
    simp only [stepPc] at h
    split at h <;> obtain rfl := Option.some.inj h <;>
      exact ⟨_, rfl, moved_goto rfl rfl (by rintro ⟨⟩) (by rintro ⟨⟩) (by rintro ⟨⟩)⟩
  | dpcNotify f =>
    obtain rfl := Option.some.inj h
    refine ⟨_, rfl, moved_goto rfl rfl (by rintro ⟨⟩) ?_ fun hq => ?_⟩
    · split <;> rintro ⟨⟩
    · split at hq <;> cases hq
  | join =>
    simp only [stepPc] at h
    split at h
    · obtain rfl := Option.some.inj h
      exact ⟨_, rfl, moved_goto rfl rfl (by rintro ⟨⟩) (by rintro ⟨⟩) (by rintro ⟨⟩)⟩
    · cases h
  | exited => cases h
  | done => cases h
  | exchange e k =>
    obtain rfl := Option.some.inj h
    exact ⟨_, rfl, moved_goto rfl rfl (by rintro ⟨⟩) (by rintro ⟨⟩) id⟩
  | readLast e k =>
    obtain rfl := Option.some.inj h
    exact ⟨_, rfl, moved_goto rfl rfl (by rintro ⟨⟩) (by rintro ⟨⟩) id⟩
  | _ =>
    obtain rfl := Option.some.inj h
    exact ⟨_, rfl, moved_goto rfl rfl (by rintro ⟨⟩) (by rintro ⟨⟩) (by rintro ⟨⟩)⟩

/-- Only the first thread is the worker. A worker that waits has been, or is about to be, told
of what is in the ring. -/
structure Awake (s : State) : Prop where
  worker : ∀ i p, s.threads[i]? = some p → Pc.isWorker p = true → i = 0
  told : Blocked s → s.submitQueue.pending = [] ∨ Signalling s

theorem run_awake (A : Awake s) (hpc : s.threads[i]? = some p) (h : stepPc s i p = some t) :
    Awake t := by
  obtain ⟨q, hthreads, M⟩ := stepPc_moved h
  have hself : t.threads[i]? = some q := by
    rw [hthreads]
    exact goto_self hpc q
  have hother : ∀ j, i ≠ j → t.threads[j]? = s.threads[j]? := by
    intro j hij
    rw [hthreads, List.getElem?_set_ne hij]
  constructor
  · intro j r hr hworker
    obtain rfl | hij := eq_or_ne i j
    · obtain rfl := Option.some.inj (hself.symm.trans hr)
      exact A.worker i p hpc (M.worker hworker)
    · exact A.worker j r ((hother j hij).symm.trans hr) hworker
  · rintro ⟨hwait, hclear⟩
    obtain hpos | rfl := ne_or_eq i 0
    · rw [hother 0 hpos] at hwait
      have hp : p ≠ .wait := by
        rintro rfl
        exact hpos (A.worker i .wait hpc rfl)
      obtain ⟨hclear', hsignal⟩ := M.wakes hp hclear
      obtain hkeeps | rfl := M.grows
      · obtain hnil | ⟨j, hj⟩ := A.told ⟨hwait, hclear'⟩
        · exact .inl (hkeeps hnil)
        · have hij : i ≠ j := by
            rintro rfl
            exact hsignal (Option.some.inj (hpc.symm.trans hj))
          exact .inr ⟨j, (hother j hij).trans hj⟩
      · exact .inr ⟨i, hself⟩
    · exact .inl (M.waits (Option.some.inj (hself.symm.trans hwait)))

theorem Awake.spawn (A : Awake s) (hp : Pc.isWorker p = false) (hp' : p ≠ .wait)
    (hthreads : t.threads = s.threads ++ [p]) (hqueue : t.submitQueue = s.submitQueue)
    (hwake : t.submitWorkerWake = s.submitWorkerWake) : Awake t := by
  have hthere : ∀ (j : ℕ) (r : Pc), t.threads[j]? = some r → s.threads[j]? = some r ∨ r = p := by
    intro j r hr
    rw [hthreads, List.getElem?_append] at hr
    split at hr
    · exact .inl hr
    · exact .inr (List.mem_singleton.mp (List.mem_of_getElem? hr))
  constructor
  · intro j r hr hworker
    obtain hr | rfl := hthere j r hr
    · exact A.worker j r hr hworker
    · rw [hp] at hworker
      cases hworker
  · rintro ⟨hwait, hclear⟩
    have hwait' := (hthere 0 .wait hwait).resolve_right hp'.symm
    rw [hqueue]
    refine (A.told ⟨hwait', hwake ▸ hclear⟩).imp_right fun ⟨j, hj⟩ => ⟨j, ?_⟩
    rw [hthreads, List.getElem?_append_left (List.getElem?_eq_some_iff.mp hj).1, hj]

theorem step_awake {l : Label} (A : Awake s) (h : step s l = some t) : Awake t := by
  cases l with
  | run i =>
    obtain ⟨p, hpc, hrun⟩ := Option.bind_eq_some_iff.mp h
    exact run_awake A hpc hrun
  | submit f n e =>
    obtain rfl := Option.some.inj h
    exact A.spawn (p := .enqueue ⟨f, n, e, false⟩) rfl (by rintro ⟨⟩) rfl rfl rfl
  | preempt f n e =>
    obtain rfl := Option.some.inj h
    exact A.spawn (p := .enqueue ⟨f, n, e, true⟩) rfl (by rintro ⟨⟩) rfl rfl rfl
  | reset =>
    obtain rfl := Option.some.inj h
    exact A.spawn (p := .dequeue .reset) rfl (by rintro ⟨⟩) rfl rfl rfl
  | dpc =>
    obtain rfl := Option.some.inj h
    exact A.spawn (p := .dpcDequeue) rfl (by rintro ⟨⟩) rfl rfl rfl
  | teardown =>
    obtain rfl := Option.some.inj h
    exact A.spawn (p := if s.submitWorkerThread then .stopSet else .done) (by split <;> rfl)
      (by split <;> rintro ⟨⟩) rfl rfl rfl

end Wakes

theorem schedInit_awake (o : InitOutcome) : Awake (schedInit o) := by
  have hpending : (schedInit o).submitQueue.pending = [] := pending_empty _ _
  refine ⟨fun i p hp _ => ?_, fun _ => .inl hpending⟩
  have hlt := (List.getElem?_eq_some_iff.mp hp).1
  exact Nat.lt_one_iff.mp hlt

/-- The submit queue over any run of the scheduler in which the worker is there and not told to
stop. -/
theorem submit_queue_fifo (ls : List Label) (t : State)
    (hg : Guarded step (fun s _ => Up s) (schedInit .up) ls)
    (h : exec step (schedInit .up) ls = some t) :
    FifoRun (submitQueueDepth - 1) [] (acts step act (schedInit .up) ls) t.submitQueue.pending ∧
      (acts step act (schedInit .up) ls).flatMap Act.puts =
        (acts step act (schedInit .up) ls).flatMap Act.takes ++ t.submitQueue.pending ∧
      t.submitQueue.pending.length ≤ submitQueueDepth - 1 ∧
      (Blocked t → t.submitQueue.pending = [] ∨ Signalling t) := by
  have hstep : ∀ s l t, Up s → step s l = some t → Fifo (submitQueueDepth - 1)
      s.submitQueue.pending (act s l t) t.submitQueue.pending :=
    fun _ _ _ hup h => step_fifo hup h
  have F := fifoRun_of_steps (fun s => s.submitQueue.pending) hstep hg h
  have hpending : (schedInit .up).submitQueue.pending = [] := pending_empty _ _
  have A := exec_invariant (fun _ _ _ A _ hstep => step_awake A hstep) (schedInit_awake .up) hg h
  rw [hpending] at F
  exact ⟨F, F.order, F.length_le (Nat.zero_le _), A.told⟩

/-- Two enqueuers and a reset that takes an entry from under the worker. -/
def rivals : List Label :=
  [.submit 1 0 0, .preempt 2 0 0, .run 1, .run 2, .run 1, .run 2, .reset, .run 3, .run 1, .run 0,
    .run 0, .run 0]

theorem rivals_fifo : ∃ t, exec step (schedInit .up) rivals = some t ∧
    (acts step act (schedInit .up) rivals).flatMap Act.puts =
      (acts step act (schedInit .up) rivals).flatMap Act.takes ++ t.submitQueue.pending :=
  ⟨_, rfl, (submit_queue_fifo rivals _ (by decide) rfl).2.1⟩

end WinMali.SubmitFifo
