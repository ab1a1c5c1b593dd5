import WinMaliKmd.Scheduler
import WinMaliKmd.ThreadPools

/-!
# Every accepted fence is in one place

Fences move between the submit ring, the hands of threads, the fence ring and
the notifications. The books balance after a step exactly when the step does
not overwrite a fence, end the worker over one, or queue one that no worker is
left to take.
-/

set_option autoImplicit false

namespace WinMali.SchedulerOnce
open WinMali.FifoRing WinMali.Runs WinMali.Scheduler WinMali.ThreadPools

/-- The fence that a thread holds between two places. -/
def held : Pc → List ℕ
  | .exchange e _ => [e.fenceId]
  | .push f _ => fences [f]
  | .enqueue e => submitFences [e]
  | .insert e => submitFences [e]
  | .dpcNotify f => fences [f]
  | _ => []

def handFences (s : State) : List ℕ := s.threads.flatMap held

/-- Each fence is in as many places as it was accepted times, and an exited worker leaves
none in the submit ring. -/
structure Accounted (s : State) : Prop where
  balance : ∀ f, s.accepted.count f = (submitFences s.submitQueue.pending).count f +
    (handFences s).count f + (fences s.fenceQueue.pending).count f + (fences s.notified).count f
  drained : Pc.exited ∈ s.threads → submitFences s.submitQueue.pending = []

/-- A push into a full ring of fences gives up a preemption marker; the worker stops, and a
submit is queued, only where no fence is left behind. -/
def guard (s : State) : Label → Prop
  | .run i =>
    match s.threads[i]? with
    | some (.push _ _) => s.fenceQueue.isFull → fences (s.fenceQueue.pending.take 1) = []
    | some .testStop => s.submitWorkerStop = true → submitFences s.submitQueue.pending = []
    | some (.insert e) =>
      Pc.exited ∈ s.threads → e.isPreempt = true ∨ s.submitQueue.isFull
    | _ => True
  | _ => True

theorem held_handle (e : SubmitEntry) (k : Cont) : held (handle e k) = submitFences [e] := by
  rcases handle_cases e k with ⟨hpre, h | h⟩ | ⟨hpre, h⟩ <;>
    simp [h, held, submitFences_cons, hpre]

theorem handle_ne_exited (e : SubmitEntry) (k : Cont) : handle e k ≠ .exited := by
  rcases handle_cases e k with ⟨-, h | h⟩ | ⟨-, h⟩ <;> simp [h]

theorem mem_set_exited {l : List Pc} {i : ℕ} {pc' : Pc} (h : Pc.exited ∈ l.set i pc')
    (hne : pc' ≠ .exited) : Pc.exited ∈ l := by
  rcases List.mem_or_eq_of_mem_set h with h | h
  · exact h
  · exact absurd h.symm hne

theorem exited_mem_set {l : List Pc} {i : ℕ} {pc pc' : Pc} (h : Pc.exited ∈ l)
    (hi : l[i]? = some pc) (hne : pc ≠ .exited) : Pc.exited ∈ l.set i pc' := by
  obtain ⟨j, hj⟩ := List.getElem?_of_mem h
  have hij : i ≠ j := by
    rintro rfl
    rw [hi] at hj
    exact hne (Option.some.inj hj)
  exact List.mem_of_getElem? ((List.getElem?_set_ne hij).trans hj)

section Steps

variable {s s' : State} {i : ℕ} {p q : Pc}

/-- A thread moves on and the fences it had, with those of the rings it changed, are the
fences it has. -/
theorem Accounted.move (A : Accounted s) (hpc : s.threads[i]? = some p)
    (hthreads : s'.threads = s.threads.set i q) (hacc : s'.accepted = s.accepted)
    (hne : q ≠ .exited)
    (hfences : ∀ f, (submitFences s'.submitQueue.pending).count f + (held q).count f +
        (fences s'.fenceQueue.pending).count f + (fences s'.notified).count f =
      (submitFences s.submitQueue.pending).count f + (held p).count f +
        (fences s.fenceQueue.pending).count f + (fences s.notified).count f)
    (hsub : Pc.exited ∈ s.threads → submitFences s'.submitQueue.pending = []) :
    Accounted s' := by
  refine ⟨fun f => ?_, fun h => ?_⟩
  · have hset := count_flatMap_set hpc held q f
    have hb := A.balance f
    have hf := hfences f
    rw [handFences] at hb ⊢
    rw [hacc, hthreads]
    omega
  · rw [hthreads] at h
    exact hsub (mem_set_exited h hne)

/-- The same, for a step that leaves the submit ring alone. -/
theorem Accounted.goto (A : Accounted s) (hpc : s.threads[i]? = some p)
    (hthreads : s'.threads = s.threads.set i q) (hacc : s'.accepted = s.accepted)
    (hne : q ≠ .exited) (hq : s'.submitQueue = s.submitQueue)
    (hfences : ∀ f, (held q).count f + (fences s'.fenceQueue.pending).count f +
        (fences s'.notified).count f =
      (held p).count f + (fences s.fenceQueue.pending).count f +
        (fences s.notified).count f) : Accounted s' := by
  refine A.move hpc hthreads hacc hne (fun f => ?_) (fun h => ?_)
  · have := hfences f
    rw [hq]
    omega
  · rw [hq]
    exact A.drained h

theorem count_kept (s : State) (f : ℕ) :
    (fences (kept s)).count f +
        (if s.fenceQueue.isFull then (fences (s.fenceQueue.pending.take 1)).count f else 0) =
      (fences s.fenceQueue.pending).count f := by
  unfold kept
  split
  · cases s.fenceQueue.pending with
    | nil => simp
    | cons x l =>
      rw [fences_cons, List.tail_cons, List.count_append, List.take_succ_cons, List.take_zero,
        fences_cons, List.count_append]
      simp
      omega
  · simp

theorem held_idle (h : p.idle = true) : held p = [] := by
  cases p <;> first | rfl | cases h

theorem ne_exited_of_idle (h : p.idle = true) : p ≠ .exited := by
  rintro rfl
  cases h

/-- The guard: the worker leaves a ring without fences. -/
theorem stop_accounted (A : Accounted s) (hpc : s.threads[i]? = some .testStop)
    (hg : submitFences s.submitQueue.pending = []) : Accounted (s.goto i .exited) := by
  refine ⟨fun f => ?_, fun _ => hg⟩
  have hset := count_flatMap_set hpc held Pc.exited f
  have hb := A.balance f
  simp only [held, List.count_nil, handFences] at hset hb
  simp only [State.goto, handFences]
  omega

theorem take_accounted {e : SubmitEntry} {r : Ring SubmitEntry submitQueueDepth} {k : Cont}
    (A : Accounted s) (hpc : s.threads[i]? = some (.dequeue k))
    (hpop : s.submitQueue.pop = some (e, r)) :
    Accounted ({ s with submitQueue := r }.goto i (handle e k)) := by
  have hcons := submitFences_pop hpop
  refine A.move hpc rfl rfl (handle_ne_exited e k) (fun f => ?_) (fun hex => ?_)
  · rw [held_handle, hcons, List.count_append]
    simp only [State.goto, held, List.count_nil]
    omega
  · have := A.drained hex
    rw [hcons, List.append_eq_nil_iff] at this
    exact this.2

/-- The guard: what a push into a full ring gives up is a marker. -/
theorem push_accounted {f : FenceEntry} {k : Cont} (A : Accounted s)
    (hpc : s.threads[i]? = some (.push f k))
    (hg : s.fenceQueue.isFull → fences (s.fenceQueue.pending.take 1) = []) :
    Accounted ({ s with fenceQueue := s.fenceQueue.pushDropOldest f }.goto i k.next) := by
  refine A.goto hpc rfl rfl (by cases k <;> simp [Cont.next]) rfl (fun x => ?_)
  have hk := count_kept s x
  have hnone : (if s.fenceQueue.isFull then (fences (s.fenceQueue.pending.take 1)).count x
      else 0) = 0 := by
    split
    · rw [hg (by assumption), List.count_nil]
    · rfl
  have hnext : held k.next = [] := by cases k <;> rfl
  have hheld : held (.push f k) = fences [f] := rfl
  simp only [State.goto, pending_push, fences_append, List.count_append, hnext, List.count_nil,
    hheld]
  omega

/-- The guard: where the worker has exited, nothing but a marker gets into the ring. -/
theorem insert_accounted {e : SubmitEntry} {r : Ring SubmitEntry submitQueueDepth}
    (A : Accounted s) (hpc : s.threads[i]? = some (.insert e))
    (hput : s.submitQueue.pushIfRoom e = some r)
    (hg : Pc.exited ∈ s.threads → e.isPreempt = true ∨ s.submitQueue.isFull) :
    Accounted ({ s with submitQueue := r }.goto i .signal) := by
  have hpending := Ring.pending_pushIfRoom hput
  have hroom : ¬s.submitQueue.isFull := by
    intro hfull
    simp [Ring.pushIfRoom, hfull] at hput
  refine A.move hpc rfl rfl (by simp) (fun f => ?_) (fun hex => ?_)
  · simp only [State.goto, hpending, submitFences_append, List.count_append, held,
      List.count_nil]
    omega
  · have hpre := (hg hex).resolve_right hroom
    simp only [State.goto, hpending, submitFences_append, A.drained hex, submitFences_cons,
      hpre]
    simp

theorem dpcTake_accounted {f : FenceEntry} {r : Ring FenceEntry fenceQueueDepth}
    (A : Accounted s) (hpc : s.threads[i]? = some .dpcDequeue)
    (hpop : s.fenceQueue.pop = some (f, r)) :
    Accounted ({ s with fenceQueue := r }.goto i (.dpcNotify f)) := by
  refine A.goto hpc rfl rfl (by simp) rfl (fun x => ?_)
  rw [Ring.pop_some hpop, fences_cons, List.count_append]
  simp only [State.goto, held, fences_cons, fences_nil, List.append_nil, List.count_nil]
  omega

theorem dpcNotify_accounted {f : FenceEntry} (A : Accounted s)
    (hpc : s.threads[i]? = some (.dpcNotify f)) :
    Accounted ({ s with notified := s.notified ++ [f] }.goto i
      (if f.isPreempt then .dpcDequeue else .dpcStore f)) := by
  refine A.goto hpc rfl rfl (by split <;> simp) rfl (fun x => ?_)
  have hnext : held (if f.isPreempt then .dpcDequeue else .dpcStore f) = [] := by
    split <;> rfl
  have hheld : held (.dpcNotify f) = fences [f] := rfl
  simp only [State.goto, hnext, hheld, fences_append, List.count_append, List.count_nil]
  omega

theorem run_accounted {t : State} (A : Accounted s) (hpc : s.threads[i]? = some p)
    (h : stepPc s i p = some t) (hg : guard s (.run i)) : Accounted t := by
  simp only [guard, hpc] at hg
  cases turn_cases h with
  | idle hp hq hthreads same =>
    refine A.goto hpc hthreads same.accepted (ne_exited_of_idle hq) same.submitQueue (fun f => ?_)
    rw [held_idle hp, held_idle hq, same.fenceQueue, same.notified]
  | stop hstop => exact stop_accounted A hpc (hg hstop)
  | take k hpop => exact take_accounted A hpc hpop
  | readLast e k =>
    exact A.goto hpc rfl rfl (by simp) rfl (by simp [State.goto, held, preempted, fences_cons])
  | exchange e k =>
    exact A.goto hpc rfl rfl (by simp) rfl (by simp [State.goto, held, completed, fences_cons])
  | push f k => exact push_accounted A hpc hg
  | inline e =>
    exact A.goto hpc rfl rfl (handle_ne_exited e .inline) rfl (fun f => by rw [held_handle]; rfl)
  | queue e => exact A.goto hpc rfl rfl (by simp) rfl (fun f => rfl)
  | full e =>
    exact A.goto hpc rfl rfl (handle_ne_exited e .inline) rfl (fun f => by rw [held_handle]; rfl)
  | insert e hput => exact insert_accounted A hpc hput hg
  | dpcTake hpop => exact dpcTake_accounted A hpc hpop
  | dpcNotify f => exact dpcNotify_accounted A hpc
  | dpcStore f => exact A.goto hpc rfl rfl (by simp) rfl (by simp [State.goto, held])

/-- A new thread, with the fence that was accepted for it if it is a submit. -/
theorem Accounted.spawn (A : Accounted s) {t : State} (hne : p ≠ .exited)
    (hthreads : t.threads = s.threads ++ [p]) (hacc : t.accepted = s.accepted ++ held p)
    (hq : t.submitQueue = s.submitQueue) (hf : t.fenceQueue = s.fenceQueue)
    (hn : t.notified = s.notified) : Accounted t := by
  refine ⟨fun f => ?_, fun h => ?_⟩
  · have hb := A.balance f
    rw [handFences] at hb ⊢
    rw [hthreads, hacc, hq, hf, hn, List.flatMap_append, List.count_append, List.count_append,
      List.flatMap_singleton]
    omega
  · rw [hthreads, List.mem_append, List.mem_singleton] at h
    rw [hq]
    exact A.drained (h.resolve_right hne.symm)

theorem step_accounted {t : State} (l : Label) (A : Accounted s) (hg : guard s l)
    (h : step s l = some t) : Accounted t := by
  cases l with
  | submit f n e =>
    obtain rfl := Option.some.inj h
    exact A.spawn (p := .enqueue ⟨f, n, e, false⟩) (by simp) rfl
      (by simp [State.spawn, held, submitFences_cons]) rfl rfl rfl
  | preempt f n e =>
    obtain rfl := Option.some.inj h
    exact A.spawn (p := .enqueue ⟨f, n, e, true⟩) (by simp) rfl
      (by simp [State.spawn, held, submitFences_cons]) rfl rfl rfl
  | reset =>
    obtain rfl := Option.some.inj h
    exact A.spawn (p := .dequeue .reset) (by simp) rfl (by simp [State.spawn, held]) rfl rfl rfl
  | dpc =>
    obtain rfl := Option.some.inj h
    exact A.spawn (p := .dpcDequeue) (by simp) rfl (by simp [State.spawn, held]) rfl rfl rfl
  | teardown =>
    obtain rfl := Option.some.inj h
    refine A.spawn (p := if s.submitWorkerThread then .stopSet else .done) ?_ rfl ?_ rfl rfl rfl
    · split <;> simp
    · split <;> simp [State.spawn, held]
  | run i =>
    obtain ⟨pc, hpc, hrun⟩ := Option.bind_eq_some_iff.mp h
    exact run_accounted A hpc hrun hg

/-- A step that keeps the books meets the guard: each case counts the fence it would lose. -/
theorem step_needs {t : State} (l : Label) (A : Accounted s) (A' : Accounted t)
    (h : step s l = some t) : guard s l := by
  cases l with
  | run i =>
    obtain ⟨p, hpc, hrun⟩ := Option.bind_eq_some_iff.mp h
    simp only [guard, hpc]
    cases p with
    | push f k =>
      obtain rfl := Option.some.inj hrun
      intro hfull
      rw [List.eq_nil_iff_forall_not_mem]
      intro x hx
      have hpos := List.count_pos_iff.mpr hx
      have hk := count_kept s x
      have hset := count_flatMap_set hpc held k.next x
      have hb := A.balance x
      have hb' := A'.balance x
      have hnext : held k.next = [] := by cases k <;> rfl
      have hheld : held (.push f k) = fences [f] := rfl
      rw [hnext, hheld, List.count_nil] at hset
      simp only [State.goto, handFences, pending_push, fences_append, List.count_append] at hb hb'
      rw [if_pos hfull] at hk
      omega
    | testStop =>
      obtain rfl := Option.some.inj hrun
      intro hstop
      refine A'.drained ?_
      have hlt := (List.getElem?_eq_some_iff.mp hpc).1
      simp only [hstop, if_true, State.goto]
      exact List.mem_set hlt _
    | insert e =>
      intro hex
      cases hpre : e.isPreempt with
      | true => exact .inl rfl
      | false =>
        right
        by_contra hroom
        have hput : s.submitQueue.pushIfRoom e = some (s.submitQueue.put e) := if_neg hroom
        simp only [stepPc, hput] at hrun
        obtain rfl := Option.some.inj hrun
        have := A'.drained (exited_mem_set hex hpc (by simp))
        simp [State.goto, Ring.pending_put _ _ hroom, submitFences_append, submitFences_cons,
          hpre] at this
    | _ => trivial
  | _ => trivial

end Steps

theorem schedInit_accounted (o : InitOutcome) : Accounted (schedInit o) := by
  refine ⟨fun f => ?_, fun _ => ?_⟩
  · cases o <;> simp [schedInit, handFences, held, pending_empty]
  · simp [schedInit, pending_empty]

/-- Over all interleavings every accepted fence is in exactly one place after every step
exactly when every step meets the guard. -/
theorem exactly_once_iff (o : InitOutcome) (ls : List Label) :
    Accounted (schedInit o) ∧ (Always step (fun _ _ t => Accounted t) (schedInit o) ls ↔
      Guarded step guard (schedInit o) ls) := by
  refine ⟨schedInit_accounted o, (guarded_iff_always (fun s l t A hg => step_accounted l A hg) ?_
    (schedInit_accounted o)).symm⟩
  intro s l t A h
  exact ⟨fun hg => step_accounted l A hg h, fun A' => step_needs l A A' h⟩

/-- A submit is queued, a teardown sets the stop flag, and the worker that wakes up exits
without a look at the ring. -/
theorem teardown_strands_fence : ∃ t,
    exec step (schedInit .up)
      [.submit 1 0 0, .run 1, .run 1, .teardown, .run 2, .run 1, .run 0, .run 0] = some t ∧
      ¬Accounted t := by
  refine ⟨_, rfl, ?_⟩
  intro A
  exact absurd (A.drained (by decide)) (by decide)

end WinMali.SchedulerOnce
